import Owsd.Server.AccessCheck
import Owsd.Basis.Run

/-!
The state of the websocket server and the events it handles.

Each connected client has a queue of requests in progress (`rpc_call_q`: its
calls and its subscriptions) and a queue of pending access checks
(`access_check_q`); all subscriptions are also on the global `listen_list`.
In the source the elements are linked into several queues at once and refer
to each other by address. Here a queue holds values, and a reference is the
number of the step in which its target was created, so that a reference to
something destroyed is one that no longer finds its target.

`log` records what happened, newest first: the messages that came in, the
responses queued, and what the checks and the calls did. The code never
reads it.
-/

namespace Owsd.Server

open Rpc

structure Timespec where
  tvSec : Int
  tvNsec : Int

/-- `struct wsubus_percall_ctx`: a method call in progress. -/
structure PercallCtx where
  /-- The step, and so the message, that created it. -/
  num : ℕ
  id : Option Attr
  retbuf : List Attr
  callArgs : UbusrpcBlobCall
  /-- `invoke_req` is set: the ubus invoke is outstanding. -/
  invokeReq : Bool
  reqStart : Timespec

/-- `struct ws_sub_info_ubus`: a subscription. -/
structure SubInfo where
  num : ℕ
  wsi : Wsi
  sub : UbusrpcBlobSub

/-- An element of `rpc_call_q`. The `method_call` flag of the source tells
the two kinds apart. -/
inductive WsRequest where
  | call (ctx : PercallCtx)
  | sub (num : ℕ)

/-- A pending access check: a link of `access_check_q` and the request it
owns. `session` is the tag `REQ_TAG_UBUS`: rpcd decides, and `result` is what
its answer says so far; otherwise the deferral timer is armed. -/
structure AccessCheck where
  num : ℕ
  ctx : CheckCtx
  session : Bool
  result : Bool

/-- `struct wsu_client_session`, with the session id of its peer. -/
structure ClientSession where
  rpcQLen : BitVec 32
  rpcCallQ : List WsRequest
  accessCheckQ : List AccessCheck
  sid : CString

inductive Action where
  | received (w : Wsi) (msg : ℕ) (blob : List Attr)
  | reply (w : Wsi) (msg : ℕ) (resp : List Attr)
  | notify (w : Wsi) (sub : ℕ) (notif : List Attr)
  | checkStart (call : ℕ) (sid object method : CString)
  | checkFail (call : ℕ)
  | checkData (call : ℕ) (data : List Attr)
  /-- The check of a call completed; `status` is that of rpcd's answer, if it
  was rpcd that decided. -/
  | checkDone (call : ℕ) (status : Option Int) (allow : Bool)
  | invoke (call : ℕ) (sid object method : CString) (args : List Attr)
  | destroyCall (call : ℕ)
  | destroySub (sub : ℕ)
  | destroyNotif (check : ℕ)

/-- The server: the sessions, `listen_list`, the quota fields of
`struct prog_context`, and how many steps were made. -/
structure State where
  clients : Wsi → Option ClientSession
  listenList : List SubInfo
  numActiveSes : ℕ
  reqMax : ℕ
  totalReqMax : ℕ
  steps : ℕ
  log : List Action

structure InvokeAnswers where
  /-- `ubus_lookup_id`, as the bus stands. -/
  lookup : CString → Option ℕ
  /-- `calloc` of the request succeeded. -/
  alloc : Bool
  /-- `ubus_invoke_async` succeeded. -/
  invoke : Bool

/-- An object `ubus_lookup` reports: its path and the methods of its
signature, if it has one. -/
structure UbusObjectData where
  path : CString
  signature : Option (List Attr)

/-- Everything the libraries answer while one message is handled. -/
structure MessageAnswers where
  check : CheckAnswers
  /-- What lies behind the scalars of the message. -/
  scalarAttrs : ScalarAttrs
  /-- `ubus_register_event_handler`. -/
  register : Int
  /-- `ubus_lookup`: its status and the objects it reports. -/
  lookup : Int
  objects : List UbusObjectData

inductive Event where
  | established (w : Wsi)
  | message (w : Wsi) (blob : List Attr) (now : Timespec) (a : MessageAnswers)
  | checkData (w : Wsi) (check : ℕ) (msg : List Attr)
  | checkComplete (w : Wsi) (check : ℕ) (status : Int) (a : InvokeAnswers)
  | deferral (w : Wsi) (check : ℕ) (a : InvokeAnswers)
  | invokeData (w : Wsi) (call : ℕ) (msg : Option Blob)
  | invokeComplete (w : Wsi) (call : ℕ) (status : Int)
  | busEvent (sub : ℕ) (type : CString) (msg : List Attr) (a : CheckAnswers)
  | percallCleaner (w : Wsi) (now : Timespec)
  | closed (w : Wsi)

namespace State

def setClient (s : State) (w : Wsi) (c : ClientSession) : State :=
  { s with clients := Function.update s.clients w (some c) }

def dropClient (s : State) (w : Wsi) : State :=
  { s with clients := Function.update s.clients w none }

def setListenList (s : State) (l : List SubInfo) : State :=
  { s with listenList := l }

def emit (s : State) (actions : List Action) : State :=
  { s with log := actions ++ s.log }

end State

namespace ClientSession

def findCall (c : ClientSession) (num : ℕ) : Option PercallCtx :=
  c.rpcCallQ.findSome? fun
    | .call ctx => if ctx.num = num then some ctx else none
    | .sub _ => none

/-- `list_del` of the `cq` link of a call. -/
def unlinkCall (c : ClientSession) (num : ℕ) : ClientSession :=
  { c with rpcCallQ := c.rpcCallQ.filter fun
      | .call ctx => ctx.num ≠ num
      | .sub _ => true }

/-- `list_del` of the `cq` links of subscriptions. -/
def unlinkSubs (c : ClientSession) (gone : List SubInfo) : ClientSession :=
  { c with rpcCallQ := c.rpcCallQ.filter fun
      | .call _ => true
      | .sub n => !gone.any fun elem => elem.num = n }

def updateCall (c : ClientSession) (num : ℕ) (f : PercallCtx → PercallCtx) : ClientSession :=
  { c with rpcCallQ := c.rpcCallQ.map fun
      | .call ctx => if ctx.num = num then .call (f ctx) else .call ctx
      | .sub n => .sub n }

def findCheck (c : ClientSession) (num : ℕ) : Option AccessCheck :=
  c.accessCheckQ.find? fun k => k.num = num

/-- Write the `result` of a pending check. -/
def updateCheck (c : ClientSession) (num : ℕ) (result : Bool) : ClientSession :=
  { c with accessCheckQ := c.accessCheckQ.map fun k =>
      if k.num = num then { k with result := result } else k }

/-- `list_del` of the `acq` link of a check. -/
def unlinkCheck (c : ClientSession) (num : ℕ) : ClientSession :=
  { c with accessCheckQ := c.accessCheckQ.filter fun k => k.num ≠ num }

/-- `wsubus_percall_ctx_destroy` on a call that is already unlinked: besides
freeing memory and aborting an outstanding invoke it gives back the quota. -/
def percallCtxDestroy (c : ClientSession) : ClientSession :=
  { c with rpcQLen := c.rpcQLen - 1 }

end ClientSession

end Owsd.Server
