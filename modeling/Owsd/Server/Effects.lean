import Owsd.Server.Step

/-!
What one step of the server can do.

`Effect` lists the outcomes of a callback that does not fault, one
constructor for each, with the state it leads to written out; `step_effect`
is the inversion of the step function. Every invariant of the server is
proved by cases on `Effect` and never unfolds a handler again.
-/

namespace Owsd.Server

open Rpc

/-! ### Reading an updated state -/

namespace State

@[simp] theorem log_setClient (s : State) (w : Wsi) (c : ClientSession) :
    (s.setClient w c).log = s.log := rfl

@[simp] theorem log_setListenList (s : State) (l : List SubInfo) :
    (s.setListenList l).log = s.log := rfl

@[simp] theorem clients_emit (s : State) (acts : List Action) :
    (s.emit acts).clients = s.clients := rfl

@[simp] theorem log_emit (s : State) (acts : List Action) :
    (s.emit acts).log = acts ++ s.log := rfl

@[simp] theorem emit_emit (s : State) (acts acts' : List Action) :
    (s.emit acts).emit acts' = s.emit (acts' ++ acts) := by
  simp [emit]

/-- Putting back the session a client has changes nothing. -/
theorem setClient_self {s : State} {w : Wsi} {c : ClientSession} (h : s.clients w = some c) :
    s.setClient w c = s := by
  simp [setClient, ← h]

end State

/-! ### Outcomes of a message -/

/-- A response: the version, the id, and the rest. -/
def IsResponse (id : Option Attr) (resp : List Attr) : Prop :=
  ∃ rest, resp = (.ofString "jsonrpc", .string (.ofString "2.0")) :: respId id :: rest

theorem isResponse_error (id : Option Attr) (e : JsonrpcErrorCode) (data : Option Attr) :
    IsResponse id (jsonrpcRespError id e data) := ⟨_, rfl⟩

theorem isResponse_ubus (id : Option Attr) (rc : Int) (data : Option Blob) :
    IsResponse id (jsonrpcRespUbus id rc data) := ⟨_, rfl⟩

/-- A session with a new session id and the queues, and the count, of
another. -/
structure SameQueues (c c' : ClientSession) : Prop where
  rpcQLen : c'.rpcQLen = c.rpcQLen
  rpcCallQ : c'.rpcCallQ = c.rpcCallQ
  accessCheckQ : c'.accessCheckQ = c.accessCheckQ

/-- The outcomes of a message from the client on `w` with session `c`. The
messages a step takes in are numbered by the step. -/
inductive MessageEffect (s : State) (w : Wsi) (c : ClientSession) (x : ScalarAttrs)
    (blob : List Attr) : State → Prop
  /-- The client is over its quota. -/
  | unheard : s.reqMax < c.rpcQLen.toNat →
      MessageEffect s w c x blob (s.emit [.received w s.steps blob])
  /-- Answered on the spot, with nothing else done. -/
  | answered {c' : ClientSession} {resp : List Attr} :
      SameQueues c c' → IsResponse (jsonrpcId blob) resp →
      MessageEffect s w c x blob
        ((s.emit [.reply w s.steps resp, .received w s.steps blob]).setClient w c')
  | subscribed (c' : ClientSession) {args : UbusrpcBlobSub} :
      parseRequest x blob = some (.ok (.sub args)) → SameQueues c c' →
      MessageEffect s w c x blob
        (((s.emit [.reply w s.steps (jsonrpcRespUbus (jsonrpcId blob) 0 none),
          .received w s.steps blob]).setListenList
            (s.listenList ++ [⟨s.steps, w, args⟩])).setClient w
          { c' with rpcCallQ := c.rpcCallQ ++ [.sub s.steps] })
  | unsubscribed (c' : ClientSession) {args : UbusrpcBlobSub}
      {resp : List Attr} :
      c.rpcQLen.toNat ≤ s.reqMax → parseRequest x blob = some (.ok (.unsub args)) →
      SameQueues c c' → IsResponse (jsonrpcId blob) resp →
      MessageEffect s w c x blob
        (((s.emit (.reply w s.steps resp ::
          (((s.listenList.filter (unsubMatches w args)).map fun elem =>
            Action.destroySub elem.num).reverse ++ [.received w s.steps blob]))).setListenList
            (s.listenList.filter fun elem => !unsubMatches w args elem)).setClient w
          (c'.unlinkSubs (s.listenList.filter (unsubMatches w args))))
  /-- The access check of a call could not be started. -/
  | callFailed {c' : ClientSession} {args : UbusrpcBlobCall} :
      parseRequest x blob = some (.ok (.call args)) → SameQueues c c' →
      MessageEffect s w c x blob
        ((s.emit [.reply w s.steps (permissionDenied (jsonrpcId blob)), .destroyCall s.steps,
          .checkFail s.steps, .received w s.steps blob]).setClient w c')
  /-- A call is waiting for its access check. -/
  | callStarted {c' : ClientSession} {args : UbusrpcBlobCall}
      {ctx : PercallCtx} {k : AccessCheck} :
      parseRequest x blob = some (.ok (.call args)) →
      c'.rpcQLen = c.rpcQLen + 1 → c'.rpcCallQ = c.rpcCallQ ++ [.call ctx] →
      c'.accessCheckQ = c.accessCheckQ ++ [k] →
      ctx.num = s.steps → ctx.id = jsonrpcId blob →
      (ctx.invokeReq = false ∧ ctx.retbuf = []) →
      ctx.callArgs.sid = args.sid → ctx.callArgs.object = args.object →
      ctx.callArgs.method = args.method →
      k.num = s.steps → k.ctx = .call s.steps → (k.session = true → k.result = false) →
      MessageEffect s w c x blob
        ((s.emit [.checkStart s.steps args.sid args.object args.method,
          .received w s.steps blob]).setClient w c')

theorem extCheck_call {cfg : Config} {w : Wsi} {m : ℕ} {sid object : CString} {x : ExtCheck}
    (h : extCheck cfg w sid object (some (.call m)) = .ok x) :
    x.object = object ∧ x.fromMsg = false := by
  have hname : ∀ name fromMsg, tlsObject cfg (some (.call m)) object = .ok (name, fromMsg) →
      name = object ∧ fromMsg = false := by
    intro name fromMsg hobj
    simp only [tlsObject] at hobj
    split at hobj
    · cases hobj
    · cases hobj
      exact ⟨rfl, rfl⟩
  simp only [extCheck] at h
  split at h
  · cases h
    exact ⟨rfl, rfl⟩
  · split at h
    · cases h
      exact ⟨rfl, rfl⟩
    · split at h
      · split at h
        · cases h
        · next name fromMsg hobj =>
          cases h
          exact hname name fromMsg hobj
      · cases h
        exact ⟨rfl, rfl⟩

/-- The check of a call is started for its session, object and method. -/
theorem accessCheckCall_subject {cfg : Config} {w : Wsi} {a : CheckAnswers}
    {sid object method : CString} {args : List Attr} {num : ℕ} {r : CheckStart}
    (h : wsubusAccessCheckCall cfg w a sid object method args (.call num) = .ok r) :
    r.subject = ⟨sid, object, method⟩ := by
  simp only [wsubusAccessCheckCall, wsubusAccessCheck] at h
  split at h
  · cases h
  · next x hx =>
    split at h
    · cases h
      rfl
    · cases h
      rfl
    · split at h
      · cases h
      · cases h
        rw [(extCheck_call hx).1]
        simp only [wsubusAccessCheckNext]
        split
        · rfl
        · rfl
        · simp only [wsubusAccessCheckViaSession]
          split
          · rfl
          · split
            · rfl
            · rfl

/-- A started check is the one of this call, is started for it, and leaves all
of its arguments but the buffer alone. -/
theorem doCheckThenDoCall_some {cfg : Config} {w : Wsi} {a : CheckAnswers} {num : ℕ}
    {args args' : UbusrpcBlobCall} {k : AccessCheck} {q : Subject}
    (h : wsubusCallDoCheckThenDoCall cfg w a num args = .ok (some (args', k, q))) :
    args'.sid = args.sid ∧ args'.object = args.object ∧ args'.method = args.method ∧
      k.num = num ∧ k.ctx = .call num ∧ (k.session = true → k.result = false) ∧
      q = ⟨args.sid, args.object, args.method⟩ := by
  simp only [wsubusCallDoCheckThenDoCall] at h
  split at h
  · cases h
  · split at h
    · cases h
    · next r hr =>
      have hq := accessCheckCall_subject hr
      split at h
      · cases h
        simp [hq]
      · cases h
        simp [hq]
      · cases h

theorem handleRequest_effect {cfg : Config} {s s' : State} {w : Wsi} {c c' : ClientSession}
    {blob : List Attr} {x : ScalarAttrs} {req : UbusrpcBlob} {now : Timespec}
    {a : MessageAnswers} (hquota : c.rpcQLen.toNat ≤ s.reqMax)
    (hreq : parseRequest x blob = some (.ok req))
    (h : handleRequest cfg (s.emit [.received w s.steps blob]) w (wsuSidUpdate c req.sid) req
      (jsonrpcId blob) now a = .ok (s', c')) :
    MessageEffect s w c x blob (s'.setClient w { c' with rpcQLen := c'.rpcQLen + 1 }) := by
  -- Each handler but that of a started call takes one off the counter, which
  -- the dispatcher puts back.
  have hback : ∀ n : BitVec 32, n - 1 + 1 = n := fun n => by bv_omega
  cases req with
  | call args =>
      simp only [handleRequest, handleCallUbus] at h
      split at h
      · cases h
      · cases h
        exact .callFailed hreq ⟨hback _, rfl, rfl⟩
      · next callArgs k q hcheck =>
        cases h
        obtain ⟨h₁, h₂, h₃, h₄, h₅, h₆, rfl⟩ := doCheckThenDoCall_some hcheck
        exact .callStarted hreq rfl rfl rfl rfl rfl ⟨rfl, rfl⟩ h₁ h₂ h₃ h₄ h₅ h₆
  | list args =>
      simp only [handleRequest, ubusrpcHandleList] at h
      split at h
      · cases h
      · next reqId hid =>
        split at h
        · cases h
        · cases h
          refine .answered ⟨hback _, rfl, rfl⟩ ?_
          rw [hid]
          split
          · exact isResponse_ubus _ _ _
          · exact isResponse_ubus _ _ _
  | sub args =>
      simp only [handleRequest, ubusrpcHandleSub] at h
      split at h
      · cases h
        exact .answered ⟨hback _, rfl, rfl⟩ (isResponse_ubus _ _ _)
      · next hreg =>
        cases h
        obtain hzero : a.register = 0 := by simpa using hreg
        rw [hzero]
        exact .subscribed { wsuSidUpdate c args.sid with rpcQLen := c.rpcQLen - 1 + 1 } hreq
          ⟨hback _, rfl, rfl⟩
  | subList args =>
      simp only [handleRequest, ubusrpcHandleSubList] at h
      cases h
      exact .answered ⟨hback _, rfl, rfl⟩ (isResponse_ubus _ _ _)
  | unsub args =>
      simp only [handleRequest, ubusrpcHandleUnsub] at h
      cases h
      rw [State.emit_emit]
      have he := MessageEffect.unsubscribed (w := w)
        { wsuSidUpdate c args.sid with rpcQLen := c.rpcQLen - 1 + 1 } hquota hreq
        ⟨hback _, rfl, rfl⟩
        (isResponse_ubus (jsonrpcId blob)
          (if (s.listenList.filter (unsubMatches w args)).isEmpty then ubusStatusNoData
            else ubusStatusOk) none)
      exact he

theorem onMsg_effect {cfg : Config} {s s' : State} {w : Wsi} {c : ClientSession}
    {blob : List Attr} {now : Timespec} {a : MessageAnswers} (hc : s.clients w = some c)
    (h : wsuOnMsgFromClient cfg s w c blob now a = .ok s') :
    MessageEffect s w c a.scalarAttrs blob s' := by
  simp only [wsuOnMsgFromClient] at h
  split at h
  · next hq =>
    cases h
    exact .unheard hq
  · next hq =>
    split at h
    · cases h
    · next e _ =>
      cases h
      have hsame : SameQueues c c := ⟨rfl, rfl, rfl⟩
      have he := MessageEffect.answered (s := s) (w := w) (x := a.scalarAttrs) hsame
        (isResponse_error (jsonrpcId blob) e none)
      rw [State.setClient_self (by simpa using hc)] at he
      exact he
    · next req hreq =>
      split at h
      · cases h
      · next s₁ c₁ hhandle =>
        cases h
        exact handleRequest_effect (Nat.le_of_not_lt hq) hreq hhandle

/-! ### Outcomes of a step -/

inductive Effect (s : State) : Event → State → Prop
  | idle (e : Event) : Effect s e s
  | opened {w : Wsi} : s.clients w = none → Effect s (.established w) (wsuPeerInit s w)
  | message {w : Wsi} {c : ClientSession} {blob : List Attr} {now : Timespec}
      {a : MessageAnswers} {s' : State} :
      s.clients w = some c → MessageEffect s w c a.scalarAttrs blob s' →
      Effect s (.message w blob now a) s'
  /-- A part of rpcd's answer to the check of a call, or of an event. -/
  | callData {w : Wsi} {c : ClientSession} {k : AccessCheck} {num : ℕ} {msg : List Attr} :
      s.clients w = some c → k ∈ c.accessCheckQ → k.session = true → k.ctx = .call num →
      Effect s (.checkData w k.num msg)
        ((s.emit [.checkData num msg]).setClient w (c.updateCheck k.num (partAccess msg)))
  | eventData {w : Wsi} {c : ClientSession} {k : AccessCheck} {t : EvNotif} {msg : List Attr} :
      s.clients w = some c → k ∈ c.accessCheckQ → k.ctx = .event t →
      Effect s (.checkData w k.num msg) (s.setClient w (c.updateCheck k.num (partAccess msg)))
  /-- The check of a call was granted and the call is invoked. -/
  | callInvoked {w : Wsi} {c : ClientSession} {k : AccessCheck} {ctx : PercallCtx}
      {status : Option Int} {params : List Attr} {e : Event} :
      s.clients w = some c → k ∈ c.accessCheckQ → k.ctx = .call ctx.num →
      c.findCall ctx.num = some ctx → k.result = true →
      (∀ st ∈ status, k.session = true ∧ st = ubusStatusOk) →
      (status = none → k.session = false) →
      Effect s e
        ((s.emit [.invoke ctx.num ctx.callArgs.sid ctx.callArgs.object ctx.callArgs.method params,
          .checkDone ctx.num status true]).setClient w
          ((c.unlinkCheck k.num).updateCall ctx.num fun ctx' =>
            { ctx' with callArgs := { ctx.callArgs with paramsBuf := params }, invokeReq := true }))
  /-- The check of a call was refused. -/
  | callRefused {w : Wsi} {c : ClientSession} {k : AccessCheck} {ctx : PercallCtx}
      {status : Option Int} {e : Event} :
      s.clients w = some c → k ∈ c.accessCheckQ → k.ctx = .call ctx.num →
      c.findCall ctx.num = some ctx →
      Effect s e
        (denyCall (s.emit [.checkDone ctx.num status false]) w (c.unlinkCheck k.num) ctx)
  /-- The check of a call was granted, but the call could not be invoked; the
  attempt may have been made. -/
  | callLost {w : Wsi} {c : ClientSession} {k : AccessCheck} {ctx : PercallCtx}
      {status : Option Int} {e : Event} (attempt : List Action) :
      s.clients w = some c → k ∈ c.accessCheckQ → k.ctx = .call ctx.num →
      c.findCall ctx.num = some ctx → k.result = true →
      (∀ st ∈ status, k.session = true ∧ st = ubusStatusOk) →
      (status = none → k.session = false) →
      (attempt = [] ∨ ∃ params, attempt = [.invoke ctx.num ctx.callArgs.sid ctx.callArgs.object
        ctx.callArgs.method params]) →
      Effect s e
        (denyCall (s.emit (attempt ++ [.checkDone ctx.num status true])) w
          (c.unlinkCheck k.num) ctx)
  | eventDelivered {w : Wsi} {c : ClientSession} {k : AccessCheck} {t : EvNotif}
      {info : SubInfo} {e : Event} :
      s.clients w = some c → k ∈ c.accessCheckQ → k.ctx = .event t →
      s.findSub t.info = some info →
      Effect s e
        ((s.emit [.destroyNotif k.num,
          .notify info.wsi info.num (evNotification t info)]).setClient w (c.unlinkCheck k.num))
  | eventDropped {w : Wsi} {c : ClientSession} {k : AccessCheck} {t : EvNotif} {e : Event} :
      s.clients w = some c → k ∈ c.accessCheckQ → k.ctx = .event t →
      Effect s e ((s.emit [.destroyNotif k.num]).setClient w (c.unlinkCheck k.num))
  | retdata {w : Wsi} {c : ClientSession} {num : ℕ} {msg : Option Blob} :
      s.clients w = some c →
      Effect s (.invokeData w num msg)
        (s.setClient w (c.updateCall num (wsubusCallOnRetdata msg)))
  | invokeCompleted {w : Wsi} {c : ClientSession} {ctx : PercallCtx} {status : Int} :
      s.clients w = some c → c.findCall ctx.num = some ctx → ctx.invokeReq = true →
      Effect s (.invokeComplete w ctx.num status) (wsubusCallOnCompleted s w c ctx status)
  | eventStarted {sub : ℕ} {info : SubInfo} {c : ClientSession} {type : CString}
      {msg : List Attr} {a : CheckAnswers} {session result : Bool} :
      s.findSub sub = some info → s.clients info.wsi = some c →
      Effect s (.busEvent sub type msg a)
        (s.setClient info.wsi { c with accessCheckQ :=
          c.accessCheckQ ++ [⟨s.steps, .event ⟨type, msg, info.num⟩, session, result⟩] })
  | eventFailed {sub : ℕ} {type : CString} {msg : List Attr} {a : CheckAnswers} :
      Effect s (.busEvent sub type msg a) (s.emit [.destroyNotif s.steps])
  | swept {w : Wsi} {c : ClientSession} {now : Timespec} :
      s.clients w = some c →
      Effect s (.percallCleaner w now) (wsubusPercallCleanStale s w c now)
  | closed {w : Wsi} {c : ClientSession} {s' : State} :
      s.clients w = some c → wsuPeerDeinit s w c = .ok s' → Effect s (.closed w) s'

def closedState (s : State) (w : Wsi) (c : ClientSession) : State :=
  { s with
    numActiveSes := s.numActiveSes - 1
    reqMax := recalcReqMax s.totalReqMax (s.numActiveSes - 1)
    listenList := s.listenList.filter fun info => !c.rpcCallQ.any fun
      | .call _ => false
      | .sub k => k = info.num }.emit (deinitActions c).reverse |>.dropClient w

theorem wsuPeerDeinit_ok {s t : State} {w : Wsi} {c : ClientSession}
    (h : wsuPeerDeinit s w c = .ok t) : t = closedState s w c := by
  simp only [wsuPeerDeinit] at h
  split at h
  · cases h
  · cases h
    rfl

theorem clients_closed {s t : State} {w : Wsi} {c : ClientSession}
    (h : wsuPeerDeinit s w c = .ok t) : t.clients w = none := by
  obtain rfl := wsuPeerDeinit_ok h
  exact Function.update_self w none s.clients

@[simp] theorem clients_closedState (s : State) (w : Wsi) (c : ClientSession) :
    (closedState s w c).clients = Function.update s.clients w none := rfl

@[simp] theorem log_closedState (s : State) (w : Wsi) (c : ClientSession) :
    (closedState s w c).log = (deinitActions c).reverse ++ s.log := rfl

theorem ClientSession.findCall_num {c : ClientSession} {num : ℕ} {ctx : PercallCtx}
    (h : c.findCall num = some ctx) : ctx.num = num ∧ .call ctx ∈ c.rpcCallQ := by
  obtain ⟨r, hr, hsome⟩ := List.exists_of_findSome?_eq_some h
  cases r with
  | call ctx' =>
      simp only at hsome
      split at hsome
      · next hnum =>
        obtain rfl : ctx' = ctx := Option.some.inj hsome
        exact ⟨hnum, hr⟩
      · cases hsome
  | sub n => cases hsome

theorem withClient_ok {s s' : State} {w : Wsi} {f : ClientSession → Except Fault State}
    (h : withClient s w f = .ok s') :
    s' = s ∨ ∃ c, s.clients w = some c ∧ f c = .ok s' := by
  simp only [withClient] at h
  split at h
  · exact Or.inl (by simpa using h.symm)
  · next c hc => exact Or.inr ⟨c, hc, h⟩

theorem withCheck_ok {s s' : State} {w : Wsi} {check : ℕ} {session : Bool}
    {f : ClientSession → AccessCheck → Except Fault State}
    (h : withCheck s w check session f = .ok s') :
    s' = s ∨ ∃ c k, s.clients w = some c ∧ k ∈ c.accessCheckQ ∧ k.num = check ∧
      k.session = session ∧ f c k = .ok s' := by
  rcases withClient_ok h with rfl | ⟨c, hc, h⟩
  · exact Or.inl rfl
  · split at h
    · exact Or.inl (by simpa using h.symm)
    · next k hk =>
      split at h
      · next hs =>
        exact Or.inr ⟨c, k, hc, List.mem_of_find?_eq_some hk,
          by simpa using List.find?_some hk, hs, h⟩
      · exact Or.inl (by simpa using h.symm)

/-- Nothing happens unless there is such a call and it is invoked. -/
theorem withInvoked_cases {s s' : State} {w : Wsi} {call : ℕ}
    {f : ClientSession → PercallCtx → Except Fault State}
    (h : withInvoked s w call f = .ok s') :
    (s' = s ∧ ∀ c ctx, s.clients w = some c → c.findCall call = some ctx →
        ctx.invokeReq = false) ∨
      ∃ c ctx, s.clients w = some c ∧ c.findCall call = some ctx ∧
        ctx.invokeReq = true ∧ f c ctx = .ok s' := by
  simp only [withInvoked, withClient] at h
  split at h
  · next hc => exact Or.inl ⟨by simpa using h.symm, fun c ctx hc' => by simp [hc] at hc'⟩
  · next c hc =>
    split at h
    · next hfind =>
      refine Or.inl ⟨by simpa using h.symm, fun c' ctx hc' hfind' => ?_⟩
      obtain rfl : c = c' := by simpa [hc] using hc'
      simp [hfind] at hfind'
    · next ctx hfind =>
      split at h
      · next hinv => exact Or.inr ⟨c, ctx, hc, hfind, hinv, h⟩
      · next hinv =>
        refine Or.inl ⟨by simpa using h.symm, fun c' ctx' hc' hfind' => ?_⟩
        obtain rfl : c = c' := by simpa [hc] using hc'
        obtain rfl : ctx = ctx' := by simpa [hfind] using hfind'
        simpa using hinv

theorem withInvoked_ok {s s' : State} {w : Wsi} {call : ℕ}
    {f : ClientSession → PercallCtx → Except Fault State}
    (h : withInvoked s w call f = .ok s') :
    s' = s ∨ ∃ c ctx, s.clients w = some c ∧ c.findCall call = some ctx ∧
      ctx.invokeReq = true ∧ f c ctx = .ok s' :=
  (withInvoked_cases h).imp_left And.left

/-- The completion of the check of a call: it is refused, granted and lost, or
granted and invoked, and then the invoke succeeds or the call is lost. -/
theorem accessOnCompleted_ok {cfg : Config} {s t : State} {w : Wsi} {c : ClientSession}
    {check call : ℕ} {status : Option Int} {allow : Bool} {a : InvokeAnswers}
    (h : wsubusAccessOnCompleted cfg s w c check call status allow a = .ok t) :
    ∃ ctx, ctx.num = call ∧ c.findCall ctx.num = some ctx ∧
      ((allow = false ∧
          t = denyCall (s.emit [.checkDone ctx.num status false]) w (c.unlinkCheck check) ctx) ∨
        (allow = true ∧
          t = denyCall (s.emit [.checkDone ctx.num status true]) w (c.unlinkCheck check) ctx) ∨
        ∃ ok params, allow = true ∧
          wsubusCallDoCall (cfg.vhost w) a ctx.callArgs = .invoked ok params ∧
          t = if ok then
            (s.emit [.invoke ctx.num ctx.callArgs.sid ctx.callArgs.object ctx.callArgs.method
              params, .checkDone ctx.num status true]).setClient w
              ((c.unlinkCheck check).updateCall ctx.num fun ctx' => { ctx' with
                callArgs := { ctx.callArgs with paramsBuf := params }
                invokeReq := true })
          else denyCall (s.emit [.invoke ctx.num ctx.callArgs.sid ctx.callArgs.object
            ctx.callArgs.method params, .checkDone ctx.num status true]) w
            (c.unlinkCheck check) ctx) := by
  simp only [wsubusAccessOnCompleted] at h
  split at h
  · cases h
  · next ctx hfind =>
    obtain ⟨rfl, -⟩ := ClientSession.findCall_num hfind
    refine ⟨ctx, rfl, hfind, ?_⟩
    split at h
    · next hyes =>
      subst hyes
      split at h
      · cases h
        exact .inr (.inl ⟨rfl, rfl⟩)
      · next ok params hdo =>
        refine .inr (.inr ⟨ok, params, rfl, hdo, ?_⟩)
        split at h
        · next hok =>
          cases h
          rw [if_pos hok]
          rfl
        · next hok =>
          cases h
          rw [if_neg hok]
          rfl
    · next hno =>
      cases h
      rw [Bool.not_eq_true] at hno
      subst hno
      exact .inl ⟨rfl, rfl⟩

/-- The two ways a check completes, by rpcd's answer and by the deferral
timer, with what the verdict was made from. -/
theorem completeCheck_effect {cfg : Config} {s s' : State} {w : Wsi} {c : ClientSession}
    {k : AccessCheck} (status : Option Int) {allow : Bool} {a : InvokeAnswers} {e : Event}
    (hc : s.clients w = some c) (hk : k ∈ c.accessCheckQ)
    (hallow : allow = true → k.result = true ∧
      (∀ st ∈ status, k.session = true ∧ st = ubusStatusOk) ∧
      (status = none → k.session = false))
    (h : completeCheck cfg s w c k status allow a = .ok s') : Effect s e s' := by
  simp only [completeCheck] at h
  split at h
  · next num hctx =>
    obtain ⟨ctx, rfl, hfind, ⟨-, rfl⟩ | ⟨rfl, rfl⟩ | ⟨ok, params, rfl, -, rfl⟩⟩ :=
      accessOnCompleted_ok h
    · exact .callRefused hc hk hctx hfind
    · obtain ⟨hres, hst, hnone⟩ := hallow rfl
      exact .callLost [] hc hk hctx hfind hres hst hnone (Or.inl rfl)
    · obtain ⟨hres, hst, hnone⟩ := hallow rfl
      split
      · exact .callInvoked hc hk hctx hfind hres hst hnone
      · exact .callLost [.invoke ctx.num _ _ _ params] hc hk hctx hfind hres hst hnone
          (Or.inr ⟨params, rfl⟩)
  · next t hctx =>
    simp only [wsubusEvCheckCb] at h
    split at h
    · split at h
      · cases h
      · next info hinfo =>
        cases h
        exact .eventDelivered hc hk hctx hinfo
    · cases h
      exact .eventDropped hc hk hctx

theorem handle_effect {cfg : Config} {s s' : State} {e : Event}
    (h : handle cfg s e = .ok s') : Effect s e s' := by
  cases e with
  | established w =>
      simp only [handle] at h
      split at h
      · cases h
        exact .idle _
      · next hnone =>
        cases h
        exact .opened hnone
  | message w blob now a =>
      rcases withClient_ok h with rfl | ⟨c, hc, h⟩
      · exact .idle _
      · exact .message hc (onMsg_effect hc h)
  | checkData w check msg =>
      rcases withCheck_ok h with rfl | ⟨c, k, hc, hk, rfl, hsess, h⟩
      · exact .idle _
      · cases h
        simp only [wsubusAccessCheckOnRet]
        split
        · next num hctx => exact .callData hc hk hsess hctx
        · next t hctx => exact .eventData hc hk hctx
  | checkComplete w check status a =>
      rcases withCheck_ok h with rfl | ⟨c, k, hc, hk, rfl, hsess, h⟩
      · exact .idle _
      · refine completeCheck_effect (some status) hc hk (fun hallow => ?_) h
        simp only [Bool.and_eq_true, beq_iff_eq] at hallow
        refine ⟨hallow.1, fun st hst => ?_, fun hnone => by cases hnone⟩
        obtain rfl : status = st := by simpa using hst
        exact ⟨hsess, hallow.2⟩
  | deferral w check a =>
      rcases withCheck_ok h with rfl | ⟨c, k, hc, hk, rfl, hsess, h⟩
      · exact .idle _
      · exact completeCheck_effect none hc hk
          (fun hallow => ⟨hallow, by simp, fun _ => hsess⟩) h
  | invokeData w call msg =>
      rcases withInvoked_ok h with rfl | ⟨c, ctx, hc, -, -, h⟩
      · exact .idle _
      · cases h
        exact .retdata hc
  | invokeComplete w call status =>
      rcases withInvoked_ok h with rfl | ⟨c, ctx, hc, hfind, hinv, h⟩
      · exact .idle _
      · cases h
        obtain ⟨rfl, -⟩ := ClientSession.findCall_num hfind
        exact .invokeCompleted hc hfind hinv
  | busEvent sub type msg a =>
      simp only [handle] at h
      split at h
      · cases h
        exact .idle _
      · next info hinfo =>
        rcases withClient_ok h with rfl | ⟨c, hc, h⟩
        · exact .idle _
        · simp only [wsubusSubCb] at h
          split at h
          · cases h
            exact .eventFailed
          · split at h
            · cases h
            · split at h
              · cases h
                exact .eventStarted hinfo hc
              · cases h
                exact .eventStarted hinfo hc
              · cases h
                exact .eventFailed
  | percallCleaner w now =>
      rcases withClient_ok h with rfl | ⟨c, hc, h⟩
      · exact .idle _
      · cases h
        exact .swept hc
  | closed w =>
      rcases withClient_ok h with rfl | ⟨c, hc, h⟩
      · exact .idle _
      · exact .closed hc h

theorem step_ok {cfg : Config} {s s' : State} {e : Event} (h : step cfg s e = .ok s') :
    ∃ t, handle cfg s e = .ok t ∧ s' = { t with steps := s.steps + 1 } := by
  simp only [step] at h
  split at h
  · next t ht =>
    cases h
    exact ⟨t, ht, rfl⟩
  · cases h

theorem step_effect {cfg : Config} {s s' : State} {e : Event} (h : step cfg s e = .ok s') :
    ∃ t, Effect s e t ∧ s' = { t with steps := s.steps + 1 } := by
  obtain ⟨t, ht, rfl⟩ := step_ok h
  exact ⟨t, handle_effect ht, rfl⟩

section

variable {cfg : Config} {s s' : State} {w : Wsi} {c : ClientSession} {blob : List Attr}
  {now : Timespec} {a : MessageAnswers}

theorem step_onMsg (hc : s.clients w = some c)
    (h : step cfg s (.message w blob now a) = .ok s') :
    ∃ t, wsuOnMsgFromClient cfg s w c blob now a = .ok t ∧
      s' = { t with steps := s.steps + 1 } := by
  obtain ⟨t, ht, rfl⟩ := step_ok h
  simp only [handle, withClient, hc] at ht
  exact ⟨t, ht, rfl⟩

/-- The inversion of a step that takes in a message of a connected client. -/
theorem step_message (hc : s.clients w = some c)
    (h : step cfg s (.message w blob now a) = .ok s') :
    ∃ t, MessageEffect s w c a.scalarAttrs blob t ∧ s' = { t with steps := s.steps + 1 } := by
  obtain ⟨t, ht, rfl⟩ := step_onMsg hc h
  exact ⟨t, onMsg_effect hc ht, rfl⟩

/-- The inversion of a step that closes the connection of a client. -/
theorem step_closed (hc : s.clients w = some c) (h : step cfg s (.closed w) = .ok s') :
    ∃ t, wsuPeerDeinit s w c = .ok t ∧ s' = { t with steps := s.steps + 1 } := by
  obtain ⟨t, ht, rfl⟩ := step_ok h
  simp only [handle, withClient, hc] at ht
  exact ⟨t, ht, rfl⟩

end

/-! ### Messages within the quota -/

section

variable (cfg : Config) (now : Timespec) (a : MessageAnswers) {s : State} {w : Wsi}
  {c : ClientSession} {blob : List Attr}

theorem step_handled {req : UbusrpcBlob} (hc : s.clients w = some c)
    (hq : c.rpcQLen.toNat ≤ s.reqMax) (hreq : parseRequest a.scalarAttrs blob = some (.ok req)) :
    step cfg s (.message w blob now a) =
      (handleRequest cfg (s.emit [.received w s.steps blob]) w (wsuSidUpdate c req.sid) req
        (jsonrpcId blob) now a).map fun r =>
          { (r.1.setClient w { r.2 with rpcQLen := r.2.rpcQLen + 1 }) with
            steps := s.steps + 1 } := by
  have hq' : ¬(s.emit [.received w s.steps blob]).reqMax < c.rpcQLen.toNat := Nat.not_lt_of_le hq
  simp only [step, handle, withClient, hc, wsuOnMsgFromClient, if_neg hq', hreq]
  cases handleRequest cfg (s.emit [.received w s.steps blob]) w (wsuSidUpdate c req.sid) req
    (jsonrpcId blob) now a with
  | error f => rfl
  | ok r => rfl

/-- A message that asks for nothing is answered with an error. -/
theorem step_refused {e : JsonrpcErrorCode} (hc : s.clients w = some c)
    (hq : c.rpcQLen.toNat ≤ s.reqMax) (hreq : parseRequest a.scalarAttrs blob = some (.error e)) :
    step cfg s (.message w blob now a) =
      .ok { s.emit [.reply w s.steps (jsonrpcRespError (jsonrpcId blob) e none),
        .received w s.steps blob] with steps := s.steps + 1 } := by
  have hq' : ¬(s.emit [.received w s.steps blob]).reqMax < c.rpcQLen.toNat := Nat.not_lt_of_le hq
  simp only [step, handle, withClient, hc, wsuOnMsgFromClient, if_neg hq', hreq]
  rfl

theorem step_scalar (hc : s.clients w = some c) (hq : c.rpcQLen.toNat ≤ s.reqMax)
    (hreq : parseRequest a.scalarAttrs blob = none) :
    step cfg s (.message w blob now a) = .error .scalarAttrs := by
  have hq' : ¬(s.emit [.received w s.steps blob]).reqMax < c.rpcQLen.toNat := Nat.not_lt_of_le hq
  simp only [step, handle, withClient, hc, wsuOnMsgFromClient, if_neg hq', hreq]

end

end Owsd.Server
