import Owsd.Server.State

/-!
The request handlers of the server (`rpc_call_ubus.h`, `rpc_sub.c`,
`rpc_list.c`, `rpc_list_ubus.h`) in the build with ubus and without D-Bus.

A handler that runs inside the handling of a message gets the session of the
client and returns it changed; the dispatcher puts it back. The handlers that
run later, when a check or an invoke completes, start from the queues.
-/

namespace Owsd.Server

open Rpc

/-! ### Calls -/

/-- The response to a call that was refused, or that failed before it was
invoked: every error is hidden behind `UBUS_STATUS_PERMISSION_DENIED`. -/
def permissionDenied (id : Option Attr) : List Attr :=
  jsonrpcRespUbus id ubusStatusPermissionDenied none

/-- What `wsubus_call_do_call` did: whether it got as far as
`ubus_invoke_async`, with which arguments, and whether that succeeded. -/
inductive DoCall where
  | notInvoked
  | invoked (ok : Bool) (paramsBuf : List Attr)

/-- `wsubus_call_do_call`. With the default session id the arguments are
tagged with the name of the listening interface (`WSD_USER_BLACKLIST_OLD`). -/
def wsubusCallDoCall (vc : VhContext) (a : InvokeAnswers) (callArgs : UbusrpcBlobCall) : DoCall :=
  match a.lookup callArgs.object with
  | none => .notInvoked
  | some _ =>
      if !a.alloc then .notInvoked
      else
        let paramsBuf :=
          if callArgs.sid = ubusDefaultSid then
            callArgs.paramsBuf ++ [(.ofString "_owsd_listen", .string vc.name)]
          else callArgs.paramsBuf
        .invoked a.invoke paramsBuf

/-- The end of a call that is not going to be invoked: respond, unlink,
destroy. -/
def denyCall (s : State) (w : Wsi) (c : ClientSession) (ctx : PercallCtx) : State :=
  (s.emit [.destroyCall ctx.num, .reply w ctx.num (permissionDenied ctx.id)]).setClient w
    (c.unlinkCall ctx.num).percallCtxDestroy

/-- `wsubus_access_on_completed`. The context it is given may be gone: that
is the fault. -/
def wsubusAccessOnCompleted (cfg : Config) (s : State) (w : Wsi) (c : ClientSession)
    (check : ℕ) (call : ℕ) (status : Option Int) (allow : Bool) (a : InvokeAnswers) :
    Except Fault State :=
  match c.findCall call with
  | none => .error .destroyedCall
  | some currCall =>
      let c := c.unlinkCheck check
      let s := s.emit [.checkDone currCall.num status allow]
      if allow then
        let args := currCall.callArgs
        match wsubusCallDoCall (cfg.vhost w) a args with
        | .notInvoked => .ok (denyCall s w c currCall)
        | .invoked ok paramsBuf =>
            let s := s.emit [.invoke currCall.num args.sid args.object args.method paramsBuf]
            if ok then
              .ok (s.setClient w (c.updateCall currCall.num fun ctx =>
                { ctx with callArgs := { args with paramsBuf := paramsBuf }, invokeReq := true }))
            else .ok (denyCall s w c currCall)
      else .ok (denyCall s w c currCall)

/-- What `wsubus_call_do_check_then_do_call` leaves behind: the arguments as
the check left them, how the check is going to be decided, and what it was
started for; nothing if it could not be started. -/
def wsubusCallDoCheckThenDoCall (cfg : Config) (w : Wsi) (a : CheckAnswers) (num : ℕ)
    (callArgs : UbusrpcBlobCall) :
    Except Fault (Option (UbusrpcBlobCall × AccessCheck × Subject)) :=
  if !a.alloc then .ok none
  else
    match wsubusAccessCheckCall cfg w a callArgs.sid callArgs.object callArgs.method
        callArgs.paramsBuf (.call num) with
    | .error f => .error f
    | .ok r =>
        let callArgs := { callArgs with paramsBuf := r.args.getD [] }
        match r.outcome with
        | .deferred result =>
            .ok (some (callArgs, ⟨num, .call num, false, result⟩, r.subject))
        | .session => .ok (some (callArgs, ⟨num, .call num, true, false⟩, r.subject))
        | .failed => .ok none

/-- `handle_call_ubus`. The source links the new context and its check before
it starts the check, and unlinks both if that fails; nothing runs in between,
so a failed start leaves the queues alone. -/
def handleCallUbus (cfg : Config) (s : State) (w : Wsi) (c : ClientSession)
    (args : UbusrpcBlobCall) (id : Option Attr) (now : Timespec) (a : CheckAnswers) :
    Except Fault (State × ClientSession) :=
  let num := s.steps
  match wsubusCallDoCheckThenDoCall cfg w a num args with
  | .error f => .error f
  | .ok none =>
      .ok (s.emit [.reply w num (permissionDenied id), .destroyCall num, .checkFail num],
        c.percallCtxDestroy)
  | .ok (some (callArgs, check, subject)) =>
      let currCall : PercallCtx :=
        { num := num, id := id, retbuf := [], callArgs := callArgs, invokeReq := false,
          reqStart := now }
      .ok (s.emit [.checkStart num subject.sid subject.object subject.method],
        { c with
          rpcCallQ := c.rpcCallQ ++ [.call currCall],
          accessCheckQ := c.accessCheckQ ++ [check] })

/-- `wsubus_call_on_retdata`: collect one part of the returned data. -/
def wsubusCallOnRetdata (msg : Option Blob) (ctx : PercallCtx) : PercallCtx :=
  match msg with
  | some msg => { ctx with retbuf := ctx.retbuf ++ [([], msg)] }
  | none => ctx

/-- `wsubus_call_on_completed`. Of the collected data the first part is
sent. -/
def wsubusCallOnCompleted (s : State) (w : Wsi) (c : ClientSession) (ctx : PercallCtx)
    (status : Int) : State :=
  let resp := jsonrpcRespUbus ctx.id status (ctx.retbuf.head?.map (·.2))
  (s.emit [.destroyCall ctx.num, .reply w ctx.num resp]).setClient w
    (c.unlinkCall ctx.num).percallCtxDestroy

/-! ### Subscriptions -/

/-- `blobmsg_add_sub_info`. -/
def blobmsgSubInfo (name : CString) (info : SubInfo) : Attr :=
  (name, .table
    [(.ofString "pattern", .string info.sub.pattern),
      (.ofString "ubus_rpc_session", .string info.sub.sid)])

def evNotification (t : EvNotif) (info : SubInfo) : List Attr :=
  [(.ofString "jsonrpc", .string (.ofString "2.0")),
    (.ofString "method", .string (.ofString "event")),
    (.ofString "params", .table
      [(.ofString "type", .string t.type), (.ofString "data", .table t.msg),
        blobmsgSubInfo (.ofString "subscription") info])]

def State.findSub (s : State) (num : ℕ) : Option SubInfo :=
  s.listenList.find? fun info => info.num = num

def ubusrpcHandleSub (s : State) (w : Wsi) (c : ClientSession) (args : UbusrpcBlobSub)
    (id : Option Attr) (register : Int) : State × ClientSession :=
  let num := s.steps
  let c := { c with rpcQLen := c.rpcQLen - 1 }
  let s := s.emit [.reply w num (jsonrpcRespUbus id register none)]
  if register ≠ 0 then (s, c)
  else
    (s.setListenList (s.listenList ++ [⟨num, w, args⟩]),
      { c with rpcCallQ := c.rpcCallQ ++ [.sub num] })

def ubusrpcHandleSubList (s : State) (w : Wsi) (c : ClientSession) (id : Option Attr) :
    State × ClientSession :=
  let subs := (s.listenList.filter fun elem => elem.wsi = w).map (blobmsgSubInfo [])
  (s.emit [.reply w s.steps (jsonrpcRespUbus id 0 (some (.array subs)))],
    { c with rpcQLen := c.rpcQLen - 1 })

/-- The subscriptions an `unsubscribe` of the client on `w` ends. -/
def unsubMatches (w : Wsi) (args : UbusrpcBlobSub) (elem : SubInfo) : Bool :=
  elem.wsi = w && args.pattern = elem.sub.pattern

/-- `ubusrpc_handle_unsub`: each match is unlinked from both lists and
destroyed. -/
def ubusrpcHandleUnsub (s : State) (w : Wsi) (c : ClientSession) (args : UbusrpcBlobSub)
    (id : Option Attr) : State × ClientSession :=
  let gone := s.listenList.filter (unsubMatches w args)
  let ret := if gone.isEmpty then ubusStatusNoData else ubusStatusOk
  let s := s.emit (.reply w s.steps (jsonrpcRespUbus id ret none) ::
    (gone.map fun elem => Action.destroySub elem.num).reverse)
  (s.setListenList (s.listenList.filter fun elem => !unsubMatches w args elem),
    { c.unlinkSubs gone with rpcQLen := c.rpcQLen - 1 })

/-- `wsubus_ev_check_cb`. Only an allowed event reads the subscription, which
may be gone: that is the fault. -/
def wsubusEvCheckCb (s : State) (w : Wsi) (c : ClientSession) (check : ℕ) (t : EvNotif)
    (access : Bool) : Except Fault State :=
  let c := c.unlinkCheck check
  if access then
    match s.findSub t.info with
    | none => .error .destroyedSub
    | some info =>
        let s := s.emit [.destroyNotif check, .notify info.wsi info.num (evNotification t info)]
        .ok (s.setClient w c)
  else .ok ((s.emit [.destroyNotif check]).setClient w c)

/-- `wsubus_sub_cb`: an event for the subscription `info` of the client on
`w`. -/
def wsubusSubCb (cfg : Config) (s : State) (w : Wsi) (c : ClientSession) (info : SubInfo)
    (type : CString) (msg : List Attr) (a : CheckAnswers) : Except Fault State :=
  let t : EvNotif := { type := type, msg := msg, info := info.num }
  let started (session result : Bool) : State :=
    s.setClient w
      { c with accessCheckQ := c.accessCheckQ ++ [⟨s.steps, .event t, session, result⟩] }
  if !a.alloc then .ok (s.emit [.destroyNotif s.steps])
  else
    match wsubusAccessCheckEvent cfg w a info.sub.sid type none (.event t) with
    | .error f => .error f
    | .ok r =>
        match r.outcome with
        | .deferred result => .ok (started false result)
        | .session => .ok (started true false)
        | .failed => .ok (s.emit [.destroyNotif s.steps])

/-! ### Listing objects -/

/-- `blobmsg_type_to_str` on a type number: its assertion, and its table,
which has no entry for `UNSPEC` and `INT64`. -/
def blobmsgTypeToStr (t : ℕ) : Except Fault (Option CString) :=
  match t with
  | 0 => .ok none
  | 1 => .ok (some (.ofString "array"))
  | 2 => .ok (some (.ofString "object"))
  | 3 => .ok (some (.ofString "string"))
  | 4 => .ok none
  | 5 => .ok (some (.ofString "number"))
  | 6 => .ok (some (.ofString "number"))
  | 7 => .ok (some (.ofString "boolean"))
  | _ => .error .typeOutOfRange

/-- The entry `ubus_lookup_cb` adds for one argument of a method; only
`INT32` attributes describe an argument. -/
def lookupArg (arg : Attr) : Except Fault (Option Attr) :=
  match arg.2 with
  | .int32 v =>
      match blobmsgTypeToStr v.toNat with
      | .error f => .error f
      | .ok typestr => .ok (some (arg.1, .string (typestr.getD (.ofString "unknown"))))
  | _ => .ok none

/-- `ubus_lookup_cb`: the entry of one object, unless the access list hides
it from a certificate session. -/
def ubusLookupCb (cfg : Config) (sid : CString) (obj : UbusObjectData) :
    Except Fault (Option Attr) :=
  if CString.ofString "X-tls-certificate" <+: sid ∧
      Acl.ubusxAclAllowObject cfg.uxaclObjects obj.path = false then .ok none
  else do
    let methods ← (obj.signature.getD []).mapM fun m => do
      if Acl.ubusxAclAllowMethod cfg.uxaclObjects obj.path m.1 then
        let args ← m.2.members.mapM lookupArg
        pure (some (m.1, Blob.table (args.filterMap id)))
      else pure none
    pure (some (obj.path, .table (methods.filterMap id)))

/-- `ubusrpc_handle_list` with `handle_list_ubus`. The context of the request
gets a copy of the `id`, which faults when there is none. -/
def ubusrpcHandleList (cfg : Config) (s : State) (w : Wsi) (c : ClientSession)
    (id : Option Attr) (lookup : Int) (objects : List UbusObjectData) :
    Except Fault (State × ClientSession) :=
  match id with
  | none => .error .absentId
  | some reqId =>
      match objects.mapM (ubusLookupCb cfg c.sid) with
      | .error f => .error f
      | .ok objs =>
          let resp :=
            if lookup ≠ 0 then jsonrpcRespUbus (some reqId) lookup none
            else jsonrpcRespUbus (some reqId) 0 (some (.table (objs.filterMap fun o => o)))
          .ok (s.emit [.reply w s.steps resp], { c with rpcQLen := c.rpcQLen - 1 })

end Owsd.Server
