import Owsd.Registry.Client

/-!
The registry and lws together (`wsubus_client.c`, `ws_ubusproxy.c`).

A timer opens a connection for its client, and the callbacks of lws report
what becomes of it. Of lws the connections it has are kept, each with the
client it was opened for and, once it is established, with what the proxy
knows of the remote. lws gives no address to a connection that another one
has, calls back for connections it has only, establishes a connection once,
reports as failed only what is not established, and has no connection any
more after it was closed or failed.
-/

namespace Owsd.Registry

open Numbered

inductive Peer where
  /-- Zeroed memory, before the connection is established. -/
  | blank
  /-- `wsu_peer_init` set the role and failed then. -/
  | broken
  | remote (r : Proxy.RemoteBus)

structure Conn where
  wsi : Wsi
  /-- The client it was opened for. -/
  owner : ℕ
  address : CString
  peer : Peer

/-- The registry, the connections of lws, and a record of what happened:
which addresses connections had so far, whether `wsubus_client_connect_all`
has run, and the proxied names of the stubs nobody has any more. -/
structure State where
  clients : List Client
  created : ℕ
  conns : List Conn
  given : List Wsi
  started : Bool
  leaked : List CString

/-- What `lws_client_connect_via_info` does. -/
inductive Attempt where
  /-- It returns a connection. -/
  | opened (wsi : Wsi)
  /-- It stores the new connection through `pwsi`, calls back with
  `LWS_CALLBACK_CLIENT_CONNECTION_ERROR` and returns null. -/
  | refused (wsi : Wsi)
  /-- It returns null without a callback. What `pwsi` points to is cleared, or
  was not written. -/
  | failed (cleared : Bool)

def Attempt.wsi : Attempt → Option Wsi
  | .opened wsi => some wsi
  | .refused wsi => some wsi
  | .failed _ => none

inductive Event where
  /-- A client of the configuration or the command line. -/
  | create (addr : CString) (port : Int) (path : CString) (alloc : Bool)
  /-- `LWS_CALLBACK_PROTOCOL_INIT` of the vhost for clients. -/
  | connectAll
  /-- The methods `add` and `remove` of `owsd.ubusproxy`. -/
  | add (msg : List Attr) (alloc : Bool)
  | remove (msg : List Attr)
  /-- The timer of a client fires. -/
  | timer (num : ℕ) (attempt : Attempt)
  /-- `LWS_CALLBACK_CLIENT_ESTABLISHED`, with whether `wsu_peer_init`
  succeeds. -/
  | established (wsi : Wsi) (init : Bool) (handshake : Proxy.Handshake)
  /-- `LWS_CALLBACK_CLIENT_WRITEABLE`. -/
  | writeable (wsi : Wsi)
  /-- `LWS_CALLBACK_CLIENT_CLOSED`. -/
  | closed (wsi : Wsi)
  /-- `LWS_CALLBACK_CLIENT_CONNECTION_ERROR`. -/
  | connectionError (wsi : Wsi)
  /-- Something happens to an established connection. -/
  | remote (wsi : Wsi) (event : Proxy.Event)

inductive Fault where
  /-- A null pointer to a client was read. -/
  | nullClient
  /-- The lists of a peer that were never initialised were walked. -/
  | brokenPeer
  | crash (c : Proxy.Crash)

/-! ### Names on the local bus -/

/-- The text of a peer's address, which for a mapped address is that of the
address it maps. -/
def peerIp (net : Net) (address : CString) : CString :=
  let peer := net.peerSimple address
  if strncmp peer (.ofString "::ffff:") 7 = 0 then peer.drop 7 else peer

/-- `proxied_name_fill`, with `IP` as the prefix. The buffer has room for the
address, the slash and the name. -/
def proxiedNameFill (net : Net) (address name : CString) : CString :=
  peerIp net address ++ slash :: name

def Conn.names (net : Net) (conn : Conn) : List CString :=
  match conn.peer with
  | .remote r => r.stubs.registered.map fun stub => proxiedNameFill net conn.address stub.key
  | _ => []

/-- The names of the stubs that `wsu_peer_deinit` does not find. -/
def Conn.leak (net : Net) (conn : Conn) : List CString :=
  match conn.peer with
  | .remote r => r.stubs.refused.map fun stub => proxiedNameFill net conn.address stub.key
  | _ => []

def State.names (net : Net) (s : State) : List CString :=
  s.conns.flatMap (Conn.names net) ++ s.leaked

/-! ### Callbacks -/

def onClosed (clients : List Client) (wsi : Wsi) : List Client :=
  if wsubusClientShouldDestroy clients wsi then wsubusClientDestroy clients wsi
  else wsubusClientReconnect (wsubusClientSetState clients wsi .disconnected) wsi

def onConnectionError (net : Net) (clients : List Client) (wsi : Wsi) : List Client :=
  if wsubusClientShouldDestroy clients wsi then wsubusClientDestroy clients wsi
  else wsubusClientConnectRetry (wsubusClientSetState clients wsi .disconnected) net wsi

def State.disconnect (s : State) (wsi : Wsi) : State :=
  { s with conns := s.conns.filter fun conn => conn.wsi ≠ wsi }

def State.setPeer (s : State) (wsi : Wsi) (peer : Peer) : State :=
  { s with conns := modify Conn.wsi wsi (fun conn => { conn with peer := peer }) s.conns }

/-- `utimer_reconnect_cb`, for the client whose timer it is. -/
def utimerReconnectCb (net : Net) (s : State) (c : Client) : Attempt → State
  | .failed cleared =>
      let unset (c : Client) : Client := { c with wsi := if cleared then none else c.wsi }
      { s with clients := modify Client.num c.num unset s.clients }
  | .refused wsi =>
      let clients := modify Client.num c.num (fun c => { c with wsi := some wsi }) s.clients
      { s with
        given := wsi :: s.given
        clients := onConnectionError net clients wsi }
  | .opened wsi =>
      let clients := modify Client.num c.num (fun c => { c with wsi := some wsi }) s.clients
      { s with
        given := wsi :: s.given
        conns := ⟨wsi, c.num, c.address, .blank⟩ :: s.conns
        clients := wsubusClientSetState clients wsi .connecting }

def State.expire (s : State) (num : ℕ) : State :=
  { s with clients := modify Client.num num (fun c => { c with timer := none }) s.clients }

/-- The attempt gives a connection an address that another one has, which lws
does not do. -/
def State.taken (s : State) (attempt : Attempt) : Bool :=
  s.conns.any fun conn => attempt.wsi = some conn.wsi

def withConn (s : State) (wsi : Wsi) (f : Conn → Except Fault State) : Except Fault State :=
  match s.conns.find? fun conn => conn.wsi = wsi with
  | none => .ok s
  | some conn => f conn

/-- `LWS_CALLBACK_CLIENT_ESTABLISHED`. Where it returns `-1` lws will close
the connection. -/
def onEstablished (s : State) (conn : Conn) (init : Bool) (handshake : Proxy.Handshake) : State :=
  match conn.peer with
  | .blank =>
      if wsubusClientShouldDestroy s.clients conn.wsi then s
      else if init = false then s.setPeer conn.wsi .broken
      else
        let s := { s with clients := wsubusClientSetState s.clients conn.wsi .connected }
        s.setPeer conn.wsi (.remote handshake.established)
  | _ => s

def State.addCreated (s : State) (result : Int × List Client) : State :=
  { s with clients := result.2, created := s.created + 1 }

/-- One event. The writeable callback changes nothing here: it returns `-1`
for a client to be destroyed, and lws closes the connection in time. -/
def step (net : Net) (s : State) : Event → Except Fault State
  | .create addr port path alloc =>
      -- the configuration is read before the vhost is started
      if s.started then .ok s
      else .ok (s.addCreated (wsubusClientCreate net s.clients s.created addr port path
        .fromProgarg alloc))
  | .connectAll => .ok { s with clients := wsubusClientConnectAll s.clients, started := true }
  | .add msg alloc => .ok (s.addCreated (addClient net s.clients s.created msg alloc))
  | .remove msg =>
      match removeClient s.clients msg with
      | none => .error .nullClient
      | some (_, clients) => .ok { s with clients := clients }
  | .timer num attempt =>
      match s.clients.find? fun c => c.num = num with
      | none => .ok s
      | some c =>
          if c.timer = none ∨ s.taken attempt then .ok s
          else .ok (utimerReconnectCb net (s.expire num) c attempt)
  | .established wsi init handshake =>
      withConn s wsi fun conn => .ok (onEstablished s conn init handshake)
  | .writeable wsi => withConn s wsi fun _ => .ok s
  | .closed wsi =>
      withConn s wsi fun conn =>
        match conn.peer with
        | .broken => .error .brokenPeer
        | _ =>
            let s := { s with leaked := conn.leak net ++ s.leaked }
            .ok { s.disconnect wsi with clients := onClosed s.clients wsi }
  | .connectionError wsi =>
      withConn s wsi fun conn =>
        match conn.peer with
        | .remote _ => .ok s
        | _ => .ok { s.disconnect wsi with clients := onConnectionError net s.clients wsi }
  | .remote wsi event =>
      withConn s wsi fun conn =>
        match conn.peer with
        | .remote r =>
            match Proxy.step net.allocator net.matchPattern r event with
            | .ok r => .ok (s.setPeer wsi (.remote r))
            | .error c => .error (.crash c)
        | _ => .ok s

def init : State where
  clients := []
  created := 0
  conns := []
  given := []
  started := false
  leaked := []

end Owsd.Registry
