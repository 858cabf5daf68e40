import Owsd.Basis.Numbered
import Owsd.Proxy.Remote

/-!
The registry of proxied clients (`wsubus_client.c`).

For each remote that is to be proxied there is a client in one list, with its
address, the state of its connection and a timer for connecting again. lws
knows nothing of clients, so its callbacks look for the one whose `wsi` is
theirs, and take the first. A connection that failed clears the `wsi` of its
client; one that was closed does not.

Clients are numbered in the order of their creation. The code does not read
the numbers; they stand for the pointers to the entries.
-/

namespace Owsd.Registry

open Numbered Rpc

/-- The address of a `struct lws`, which is never null. -/
abbrev Wsi := ℕ

inductive ConnectionState where
  | disconnected | connecting | connected | tearingdown
  deriving DecidableEq, Repr

inductive ClientType where
  | fromProgarg | fromUbus
  deriving DecidableEq, Repr

/-- `struct client_connection_info`. The timer holds the delay it was set to
while it is pending. -/
structure Client where
  num : ℕ
  index : ℕ
  wsi : Option Wsi
  timer : Option Int
  type : ClientType
  reconnectCount : ℕ
  state : ConnectionState
  address : CString
  port : Int
  path : CString

def slash : CChar := .ofChar '/' (by decide)

structure Net where
  /-- `inet_pton` succeeds for one of the two families. -/
  inetPton : CString → Bool
  /-- `INET6_ADDRSTRLEN`. -/
  inetPton_short : ∀ addr, inetPton addr = true → addr.length < 46
  /-- `lws_get_peer_simple` for a connection to the address. -/
  peerSimple : CString → CString
  peerSimple_noSlash : ∀ addr, slash ∉ peerSimple addr
  /-- `wsbus_client_connnection_retry_timeout`. -/
  retryTimeout : Int
  allocator : Proxy.Allocator
  /-- `wsubus_client_match_pattern`. -/
  matchPattern : CString → Bool

def maxIpLen : ℕ := 128

def maxPathLen : ℕ := 128

def wssPort : Int := 443

def ubusStatusInvalidArgument : Int := 2

/-- A product of `int`s, as the machine computes it. -/
def intMul (a b : Int) : Int := (a * b).bmod 4294967296

/-! ### Looking up and changing clients -/

section

variable (clients : List Client)

def getClientByIndex (index : Int) : Option Client :=
  clients.find? fun c => (c.index : Int) = index

/-- `get_client_by_wsi`, for a pointer that is not null. -/
def getClientByWsi (wsi : Wsi) : Option Client :=
  clients.find? fun c => c.wsi = some wsi

def changeByWsi (wsi : Wsi) (f : Client → Client) : List Client :=
  match getClientByWsi clients wsi with
  | none => clients
  | some c => modify Client.num c.num f clients

/-- The change that `wsubus_client_set_state` makes. -/
def Client.setState (c : Client) (state : ConnectionState) : Client :=
  { c with
    state := state
    reconnectCount := if state = .connected then 0 else c.reconnectCount }

def wsubusClientSetState (wsi : Wsi) (state : ConnectionState) : List Client :=
  changeByWsi clients wsi fun c => c.setState state

/-- A client that is not found counts as one to be destroyed. -/
def wsubusClientShouldDestroy (wsi : Wsi) : Bool :=
  match getClientByWsi clients wsi with
  | none => true
  | some c => c.state = .tearingdown

/-- `wsubus_client_del`, which also cancels the timer. -/
def wsubusClientDel (c : Client) : List Client := remove Client.num c.num clients

def wsubusClientDestroy (wsi : Wsi) : List Client :=
  match getClientByWsi clients wsi with
  | none => clients
  | some c => wsubusClientDel clients c

def Client.connectIn (c : Client) (timeout : Int) : Client :=
  { c with reconnectCount := 0, timer := some timeout }

def wsubusClientConnect (wsi : Option Wsi) (timeout : Int) : List Client :=
  match wsi with
  | none => clients.map fun c => c.connectIn timeout
  | some wsi => changeByWsi clients wsi fun c => c.connectIn timeout

def wsubusClientConnectAll : List Client := wsubusClientConnect clients none 0

def wsubusClientReconnect (wsi : Wsi) : List Client := wsubusClientConnect clients (some wsi) 2000

/-- The change that `wsubus_client_connect_retry` makes. -/
def Client.retry (retryTimeout : Int) (c : Client) : Client :=
  { c with
    wsi := none
    reconnectCount := c.reconnectCount + 1
    timer := some (intMul (c.reconnectCount + 1 : ℕ) retryTimeout) }

def wsubusClientConnectRetry (net : Net) (wsi : Wsi) : List Client :=
  changeByWsi clients wsi (Client.retry net.retryTimeout)

end

/-! ### Adding clients -/

/-- `validate_ip_port_path`: the port to use, if the address is valid. -/
def validateIpPortPath (net : Net) (addr : CString) (port : Int) : Option Int :=
  if net.inetPton addr = false then none
  else if port ≤ 0 ∨ 65536 ≤ port then some wssPort
  else some port

/-- A client in a teardown state is waiting to be removed, and counts as one
that does not exist. -/
def uniqueIp (clients : List Client) (addr : CString) : Bool :=
  clients.all fun c => strcmp addr c.address ≠ 0 ∨ c.state = .tearingdown

/-- The loop of `insert_at_lowest_free_index`, from the index `i` on. -/
def insertAtLowestFreeIndex (c : Client) : ℕ → List Client → List Client
  | i, [] => [{ c with index := i }]
  | i, t :: rest =>
      if i < t.index then { c with index := i } :: t :: rest
      else t :: insertAtLowestFreeIndex c (i + 1) rest

/-- The client that `wsubus_client_create` makes. A client added over ubus is
connected at once, since the vhost is running. -/
def Client.new (num : ℕ) (addr : CString) (port : Int) (path : CString) (type : ClientType) :
    Client where
  num := num
  index := 0
  wsi := none
  timer := if type = .fromUbus then some 100 else none
  type := type
  reconnectCount := 0
  state := .disconnected
  address := addr.take maxIpLen
  port := port
  path := path.take maxPathLen

/-- `wsubus_client_create`. The last argument says whether its allocations
succeed. -/
def wsubusClientCreate (net : Net) (clients : List Client) (num : ℕ) (addr : CString) (port : Int)
    (path : CString) (type : ClientType) (alloc : Bool) : Int × List Client :=
  match validateIpPortPath net addr port with
  | none => (ubusStatusInvalidArgument, clients)
  | some port =>
      if uniqueIp clients addr = false then (ubusStatusInvalidArgument, clients)
      else if alloc = false then (ubusStatusUnknownError, clients)
      else (0, insertAtLowestFreeIndex (.new num addr port path type) 0 clients)

def addClientPolicy : List (CString × BlobmsgType) :=
  [(.ofString "ip", .string), (.ofString "port", .int32)]

/-- `blobmsg_get_u32`. -/
def getU32 : Blob → BitVec 32
  | .int32 v => v
  | _ => 0

/-- The port as an `int`. -/
def givenPort : Option Attr → Int
  | some port => (getU32 port.2).toInt
  | none => wssPort

def addClient (net : Net) (clients : List Client) (num : ℕ) (msg : List Attr) (alloc : Bool) :
    Int × List Client :=
  match blobmsgParse addClientPolicy msg with
  | [some ip, port] =>
      let port := givenPort port
      if port ≤ 0 ∨ 65536 ≤ port then (ubusStatusInvalidArgument, clients)
      else wsubusClientCreate net clients num ip.2.getString port (.ofString "/") .fromUbus alloc
  | _ => (ubusStatusInvalidArgument, clients)

/-! ### Removing clients -/

/-- `manage_remove_client`: what is left of the client. For one that is
connected lws is asked for a writeable callback. -/
def manageRemoveClient (c : Client) : Option Client :=
  match c.state with
  | .disconnected => none
  | .connecting => some { c with state := .tearingdown }
  | .connected => some { c with state := .tearingdown }
  | .tearingdown => some c

def clientRemovePolicy : List (CString × BlobmsgType) :=
  [(.ofString "index", .int32), (.ofString "ip", .string)]

def removeWhere (p : Client → Bool) (clients : List Client) : List Client :=
  clients.filterMap fun c => if p c then manageRemoveClient c else some c

/-- `remove_client`. Nothing is returned when there is no client with the
index, whose state is read all the same. -/
def removeClient (clients : List Client) (msg : List Attr) : Option (Int × List Client) :=
  match blobmsgParse clientRemovePolicy msg with
  | [some index, _] =>
      match getClientByIndex clients (getU32 index.2).toInt with
      | none => none
      | some client => some (ubusStatusOk, removeWhere (fun c => c.num = client.num) clients)
  | [none, some ip] =>
      some (ubusStatusOk, removeWhere (fun c => strcmp ip.2.getString c.address = 0) clients)
  | _ => some (ubusStatusInvalidArgument, clients)

end Owsd.Registry
