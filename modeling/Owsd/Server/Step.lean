import Owsd.Server.Handlers

/-!
The dispatcher of messages, the life of a connection, the sweeper of stale
calls, and the step function that ties all callbacks together.
-/

namespace Owsd.Server

open Rpc

def maxAsyncReqs : ℕ := 512

def recalcReqMax (totalReqMax numActiveSes : ℕ) : ℕ :=
  if numActiveSes = 0 then maxAsyncReqs
  else if totalReqMax / numActiveSes < maxAsyncReqs then totalReqMax / numActiveSes
  else maxAsyncReqs

/-- `wsu_peer_init` for a client. lws hands out the session zeroed. -/
def wsuPeerInit (s : State) (w : Wsi) : State :=
  let n := s.numActiveSes + 1
  { s with numActiveSes := n, reqMax := recalcReqMax s.totalReqMax n }.setClient w
    { rpcQLen := 0, rpcCallQ := [], accessCheckQ := [], sid := [] }

/-- The link of the check is part of a call context that was destroyed. -/
def ClientSession.dangling (c : ClientSession) (k : AccessCheck) : Bool :=
  match k.ctx with
  | .call num => (c.findCall num).isNone
  | .event _ => false

/-- What `wsu_peer_deinit` destroys on its way through the two queues. -/
def deinitActions (c : ClientSession) : List Action :=
  (c.accessCheckQ.filterMap fun k =>
      match k.ctx with
      | .call _ => none
      | .event _ => some (.destroyNotif k.num)) ++
    c.rpcCallQ.map fun
      | .call ctx => .destroyCall ctx.num
      | .sub n => .destroySub n

/-! The libraries keep a record of what they are going to call back for: the
request or the timer of each access check, and the request of each invoked
call. A callback can only be kept from coming by cancelling it there. -/

/-- What `libubus` and `uloop` have in hand for a client. -/
inductive Handle where
  | accessRequest (check : ℕ)
  | deferTimer (check : ℕ)
  | invokeRequest (call : ℕ)
  deriving DecidableEq

/-- `wsubus_access_check__cancel`. The tag tells which of the two it is. -/
def wsubusAccessCheckCancel (k : AccessCheck) : Handle :=
  if k.session then .accessRequest k.num else .deferTimer k.num

/-- The requests that `cancel_and_destroy` aborts. -/
def WsRequest.aborts : WsRequest → List Handle
  | .call ctx => if ctx.invokeReq then [.invokeRequest ctx.num] else []
  | .sub _ => []

/-- What `wsu_peer_deinit` cancels on its way through the two queues. -/
def deinitCancels (c : ClientSession) : List Handle :=
  c.accessCheckQ.map wsubusAccessCheckCancel ++ c.rpcCallQ.flatMap WsRequest.aborts

/-- `wsu_peer_deinit` for a client: first every access check is cancelled,
then every request. Cancelling walks the links, so it faults on a destroyed
one. What is cancelled at the libraries is `deinitCancels`. -/
def wsuPeerDeinit (s : State) (w : Wsi) (c : ClientSession) : Except Fault State :=
  let n := s.numActiveSes - 1
  if c.accessCheckQ.any c.dangling then .error .destroyedCheck
  else
    .ok ({ s with
      numActiveSes := n
      reqMax := recalcReqMax s.totalReqMax n
      listenList := s.listenList.filter fun info => !c.rpcCallQ.any fun
        | .call _ => false
        | .sub k => k = info.num }.emit (deinitActions c).reverse |>.dropClient w)

/-! ### The sweeper -/

/-- The first normalisation loop of `wsubus_percall_clean_stale`, which runs
at most `fuel` times. -/
def carryLoop : ℕ → Int → Int → Int × Int
  | 0, passed, nsec => (passed, nsec)
  | fuel + 1, passed, nsec =>
      if 1000000000 < nsec then carryLoop fuel (passed + 1) (nsec - 1000000000)
      else (passed, nsec)

def borrowLoop : ℕ → Int → Int → Int × Int
  | 0, passed, nsec => (passed, nsec)
  | fuel + 1, passed, nsec =>
      if nsec < 0 then borrowLoop fuel (passed - 1) (nsec + 1000000000)
      else (passed, nsec)

/-- The seconds a request has been waiting, as the sweeper computes them.
`passed` is an `int`. Each round of a loop brings the nanoseconds nearer to
zero by more than one, so their size is fuel enough. -/
def secondsPassed (now start : Timespec) : Int :=
  let passed := Int.bmod (now.tvSec - start.tvSec) 4294967296
  let nsec := now.tvNsec - start.tvNsec
  let (passed, nsec) := carryLoop nsec.natAbs passed nsec
  (borrowLoop nsec.natAbs passed nsec).1

/-- The sweeper removes the element: a method call, not a subscription, that
started at least ten seconds ago. -/
def isStale (now : Timespec) : WsRequest → Bool
  | .call ctx => 10 ≤ secondsPassed now ctx.reqStart
  | .sub _ => false

/-- `wsubus_percall_clean_stale`. The access check of a removed call is left
alone. -/
def wsubusPercallCleanStale (s : State) (w : Wsi) (c : ClientSession) (now : Timespec) : State :=
  let gone := c.rpcCallQ.filter (isStale now)
  (s.emit (gone.map fun
      | .call ctx => Action.destroyCall ctx.num
      | .sub n => .destroySub n).reverse).setClient w
    { c with
      rpcCallQ := c.rpcCallQ.filter fun r => !isStale now r
      rpcQLen := c.rpcQLen - BitVec.ofNat 32 gone.length }

def sweptAborts (now : Timespec) (c : ClientSession) : List Handle :=
  (c.rpcCallQ.filter (isStale now)).flatMap WsRequest.aborts

/-! ### Messages -/

def wsuSidUpdate (c : ClientSession) (sid : CString) : ClientSession :=
  { c with sid := sid.take ubusSidMaxStrlen }

def handleRequest (cfg : Config) (s : State) (w : Wsi) (c : ClientSession) (req : UbusrpcBlob)
    (id : Option Attr) (now : Timespec) (a : MessageAnswers) :
    Except Fault (State × ClientSession) :=
  match req with
  | .call args => handleCallUbus cfg s w c args id now a.check
  | .list _ => ubusrpcHandleList cfg s w c id a.lookup a.objects
  | .sub args => .ok (ubusrpcHandleSub s w c args id a.register)
  | .subList _ => .ok (ubusrpcHandleSubList s w c id)
  | .unsub args => .ok (ubusrpcHandleUnsub s w c args id)

/-- `wsu_on_msg_from_client`, in the build without JSON validation. A client
over its quota is not answered. All handlers return zero, so the error
`JSONRPC_ERRORCODE__OTHER` is never sent. -/
def wsuOnMsgFromClient (cfg : Config) (s : State) (w : Wsi) (c : ClientSession)
    (blob : List Attr) (now : Timespec) (a : MessageAnswers) : Except Fault State :=
  let s := s.emit [.received w s.steps blob]
  if s.reqMax < c.rpcQLen.toNat then .ok s
  else
    match parseRequest a.scalarAttrs blob with
    | none => .error .scalarAttrs
    | some (.error e) =>
        .ok (s.emit [.reply w s.steps (jsonrpcRespError (jsonrpcId blob) e none)])
    | some (.ok req) =>
        match handleRequest cfg s w (wsuSidUpdate c req.sid) req (jsonrpcId blob) now a with
        | .error f => .error f
        | .ok (s, c) => .ok (s.setClient w { c with rpcQLen := c.rpcQLen + 1 })

/-! ### Steps -/

/-- A check completed: hand the verdict to the callback of its context. -/
def completeCheck (cfg : Config) (s : State) (w : Wsi) (c : ClientSession) (k : AccessCheck)
    (status : Option Int) (allow : Bool) (a : InvokeAnswers) : Except Fault State :=
  match k.ctx with
  | .call num => wsubusAccessOnCompleted cfg s w c k.num num status allow a
  | .event t => wsubusEvCheckCb s w c k.num t allow

/-- `wsubus_access_check__on_ret`: remember what this part of rpcd's answer
says. -/
def wsubusAccessCheckOnRet (s : State) (w : Wsi) (c : ClientSession) (k : AccessCheck)
    (msg : List Attr) : State :=
  let s :=
    match k.ctx with
    | .call num => s.emit [.checkData num msg]
    | .event _ => s
  s.setClient w (c.updateCheck k.num (partAccess msg))

/-! The libraries deliver only to what exists: an answer to a check that is
not pending, an event for a subscription that is not registered and the like
do nothing. -/

def withClient (s : State) (w : Wsi) (f : ClientSession → Except Fault State) :
    Except Fault State :=
  match s.clients w with
  | none => .ok s
  | some c => f c

def withCheck (s : State) (w : Wsi) (check : ℕ) (session : Bool)
    (f : ClientSession → AccessCheck → Except Fault State) : Except Fault State :=
  withClient s w fun c =>
    match c.findCheck check with
    | none => .ok s
    | some k => if k.session = session then f c k else .ok s

def withInvoked (s : State) (w : Wsi) (call : ℕ)
    (f : ClientSession → PercallCtx → Except Fault State) : Except Fault State :=
  withClient s w fun c =>
    match c.findCall call with
    | none => .ok s
    | some ctx => if ctx.invokeReq then f c ctx else .ok s

def handle (cfg : Config) (s : State) (e : Event) : Except Fault State :=
  match e with
  | .established w =>
      match s.clients w with
      | some _ => .ok s
      | none => .ok (wsuPeerInit s w)
  | .message w blob now a => withClient s w fun c => wsuOnMsgFromClient cfg s w c blob now a
  | .checkData w check msg =>
      withCheck s w check true fun c k => .ok (wsubusAccessCheckOnRet s w c k msg)
  | .checkComplete w check status a =>
      -- wsubus_access_check__cb
      withCheck s w check true fun c k =>
        completeCheck cfg s w c k (some status) (k.result && status == ubusStatusOk) a
  | .deferral w check a =>
      -- deferral_cb
      withCheck s w check false fun c k => completeCheck cfg s w c k none k.result a
  | .invokeData w call msg =>
      withInvoked s w call fun c _ =>
        .ok (s.setClient w (c.updateCall call (wsubusCallOnRetdata msg)))
  | .invokeComplete w call status =>
      withInvoked s w call fun c ctx => .ok (wsubusCallOnCompleted s w c ctx status)
  | .busEvent sub type msg a =>
      match s.findSub sub with
      | none => .ok s
      | some info =>
          withClient s info.wsi fun c => wsubusSubCb cfg s info.wsi c info type msg a
  | .percallCleaner w now => withClient s w fun c => .ok (wsubusPercallCleanStale s w c now)
  | .closed w => withClient s w fun c => wsuPeerDeinit s w c

/-- One step: a callback, counted. -/
def step (cfg : Config) (s : State) (e : Event) : Except Fault State :=
  match handle cfg s e with
  | .ok s' => .ok { s' with steps := s.steps + 1 }
  | .error f => .error f

def init (totalReqMax : ℕ) : State :=
  { clients := fun _ => none, listenList := [], numActiveSes := 0, reqMax := 0,
    totalReqMax := totalReqMax, steps := 0, log := [] }

/-! ### A small daemon

The concrete runs of this development are those of a daemon without access
list and TLS, on a bus that answers everything with success. -/

def plainConfig : Config where
  uxaclObjects := .nil
  tls := fun _ => ⟨false, false, false⟩
  vhost := fun _ => ⟨[], .ofString "lan"⟩
  jsonText := fun _ => []

def willing : CheckAnswers := ⟨true, true, true, true, fun _ => []⟩

def willingInvoke : InvokeAnswers := ⟨fun _ => some 1, true, true⟩

def requestMessage (method : CString) (params : List Blob) : List Attr :=
  [(.ofString "jsonrpc", .string (.ofString "2.0")), (.ofString "id", .int32 7),
    (.ofString "method", .string method),
    (.ofString "params", .array (params.map fun p => ([], p)))]

/-- A call of `router info` without arguments. -/
def callMessage : List Attr :=
  requestMessage (.ofString "call") [.string (.ofString "s"), .string (.ofString "router"),
    .string (.ofString "info"), .table []]

def sends (blob : List Attr) : Event :=
  .message 0 blob ⟨0, 0⟩ ⟨willing, fun _ => some [], 0, 0, []⟩

end Owsd.Server
