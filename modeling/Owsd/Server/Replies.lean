import Owsd.Server.Answers
import Owsd.Server.Returns

/-!
Where replies come from.

A reply goes back to the message it answers. When the message asked for a
call, the reply is a refusal, or it reports the status with which the bus
completed the invocation of that call and the first of the parts that the bus
returned to it before.
-/

namespace Owsd.Server

open Rpc

/-- The call `A` of the message `m` was invoked by the event `e`, the event
after `mid` completed the invocation and was answered with `resp`. -/
def Completed (cfg : Config) (n : ℕ) (es : List Event) (w : Wsi) (m : ℕ)
    (A : UbusrpcBlobCall) (mid : List Event) (status : Int) (resp : List Attr) : Prop :=
  ∃ past e rest, es = past ++ e :: (mid ++ .invokeComplete w m status :: rest) ∧
    (∃ params, Adds (step cfg) State.log (init n) past e
      (.invoke m A.sid A.object A.method params)) ∧
    Adds (step cfg) State.log (init n) (past ++ e :: mid) (.invokeComplete w m status)
      (.reply w m resp)

/-- The reply to the call `A` of the message `m`: a refusal, or what became
of the invocation, with the first part of the data that was returned to it. -/
def CallReply (cfg : Config) (n : ℕ) (es : List Event) (w : Wsi) (m : ℕ) (id : Option Attr)
    (A : UbusrpcBlobCall) (resp : List Attr) : Prop :=
  resp = permissionDenied id ∨
    ∃ mid status, Completed cfg n es w m A mid status resp ∧
      resp = jsonrpcRespUbus id status (returned w m mid).head?

structure Replied (cfg : Config) (n : ℕ) (es : List Event) (s : State) : Prop where
  received : ∀ w m blob, .received w m blob ∈ s.log →
    ∃ now a, es[m]? = some (.message w blob now a)
  replies : ∀ w m resp, .reply w m resp ∈ s.log →
    ∃ blob now a, es[m]? = some (.message w blob now a) ∧ .received w m blob ∈ s.log ∧
      IsAnswer a.scalarAttrs blob resp ∧
      ∀ A, parseRequest a.scalarAttrs blob = some (.ok (.call A)) →
        CallReply cfg n es w m (jsonrpcId blob) A resp
  notified : ∀ w sub notif, .notify w sub notif ∈ s.log →
    ∃ t info, notif = evNotification t info

def Action.spoken : Action → Bool
  | .received _ _ _ => true
  | .reply _ _ _ => true
  | .notify _ _ _ => true
  | _ => false

/-- The new entries of a step: the message it took in and the answer to it, a
refusal of a queued call, the end of an invocation, or an event. -/
inductive NewEntry (s s' : State) (e : Event) : Action → Prop
  | received {w : Wsi} {blob : List Attr} {now : Timespec} {a : MessageAnswers} :
      e = .message w blob now a → NewEntry s s' e (.received w s.steps blob)
  | answer {w : Wsi} {blob resp : List Attr} {now : Timespec} {a : MessageAnswers} :
      e = .message w blob now a → .received w s.steps blob ∈ s'.log →
      IsAnswer a.scalarAttrs blob resp →
      (∀ A, parseRequest a.scalarAttrs blob = some (.ok (.call A)) →
        resp = permissionDenied (jsonrpcId blob)) →
      NewEntry s s' e (.reply w s.steps resp)
  | denied {w : Wsi} {c : ClientSession} {ctx : PercallCtx} :
      s.clients w = some c → .call ctx ∈ c.rpcCallQ →
      NewEntry s s' e (.reply w ctx.num (permissionDenied ctx.id))
  | completed {w : Wsi} {c : ClientSession} {ctx : PercallCtx} {status : Int} :
      s.clients w = some c → .call ctx ∈ c.rpcCallQ → ctx.invokeReq = true →
      e = .invokeComplete w ctx.num status →
      NewEntry s s' e (.reply w ctx.num
        (jsonrpcRespUbus ctx.id status (ctx.retbuf.head?.map (·.2))))
  | notify (t : EvNotif) (info : SubInfo) :
      NewEntry s s' e (.notify info.wsi info.num (evNotification t info))
  | other {a : Action} : a.spoken = false → NewEntry s s' e a

section

variable {cfg : Config} {s t : State} {e : Event} {w w' : Wsi} {m : ℕ} {c : ClientSession}
  {x : ScalarAttrs} {blob resp : List Attr} {now : Timespec} {a : MessageAnswers}

/-! ### One step -/

theorem message_reply_origin (h : MessageEffect s w c x blob t) (hmem : .reply w' m resp ∈ t.log) :
    .reply w' m resp ∈ s.log ∨ w' = w ∧ m = s.steps := by
  cases h with
  | unheard _ => exact .inl (by simpa using hmem)
  | answered _ _ =>
      simp only [State.log_setClient, State.log_emit, List.cons_append, List.nil_append,
        List.mem_cons, Action.reply.injEq, reduceCtorEq, false_or] at hmem
      exact hmem.symm.imp_right fun h => ⟨h.1, h.2.1⟩
  | subscribed _ _ _ =>
      simp only [State.log_setClient, State.log_setListenList, State.log_emit, List.cons_append,
        List.nil_append, List.mem_cons, Action.reply.injEq, reduceCtorEq, false_or] at hmem
      exact hmem.symm.imp_right fun h => ⟨h.1, h.2.1⟩
  | @unsubscribed _ args _ _ _ _ _ =>
      simp only [State.log_setClient, State.log_setListenList, State.log_emit, List.cons_append,
        List.append_assoc, List.nil_append, List.mem_cons, List.mem_append, Action.reply.injEq,
        List.mem_reverse, List.mem_map, reduceCtorEq, and_false, exists_false, false_or] at hmem
      exact hmem.symm.imp_right fun h => ⟨h.1, h.2.1⟩
  | callFailed _ _ =>
      simp only [State.log_setClient, State.log_emit, List.cons_append, List.nil_append,
        List.mem_cons, Action.reply.injEq, reduceCtorEq, false_or] at hmem
      exact hmem.symm.imp_right fun h => ⟨h.1, h.2.1⟩
  | callStarted => exact .inl (by simpa using hmem)

theorem call_reply {A : UbusrpcBlobCall}
    (hreq : parseRequest a.scalarAttrs blob = some (.ok (.call A)))
    (h : wsuOnMsgFromClient cfg s w c blob now a = .ok t) (hmem : .reply w' m resp ∈ t.log) :
    .reply w' m resp ∈ s.log ∨ resp = permissionDenied (jsonrpcId blob) := by
  simp only [wsuOnMsgFromClient, hreq, handleRequest, handleCallUbus] at h
  split at h
  · cases h
    exact .inl (by simpa using hmem)
  · split at h
    · cases h
    · next hhandle =>
      cases h
      split at hhandle
      · cases hhandle
      · cases hhandle
        simp only [State.log_setClient, State.log_emit, List.cons_append, List.nil_append,
          List.mem_cons, Action.reply.injEq, reduceCtorEq, false_or] at hmem
        exact hmem.symm.imp_right fun h => h.2.2
      · cases hhandle
        exact .inl (by simpa using hmem)

theorem message_received {blob' : List Attr} (h : MessageEffect s w c x blob t)
    (hmem : .received w' m blob' ∈ t.log) :
    .received w' m blob' ∈ s.log ∨ w' = w ∧ m = s.steps ∧ blob' = blob := by
  cases h with
  | unheard _ => simpa [or_comm] using hmem
  | answered _ _ => simpa [or_comm] using hmem
  | subscribed _ _ _ => simpa [or_comm] using hmem
  | unsubscribed _ _ _ _ _ =>
      simp only [State.log_setClient, State.log_setListenList, State.log_emit, List.cons_append,
        List.append_assoc, List.nil_append, List.mem_cons, List.mem_append, Action.received.injEq,
        List.mem_reverse, List.mem_map, reduceCtorEq, and_false, exists_false, false_or] at hmem
      exact hmem.symm
  | callFailed _ _ => simpa [or_comm] using hmem
  | callStarted => simpa [or_comm] using hmem

theorem message_notify {notif : List Attr} (h : MessageEffect s w c x blob t)
    (hmem : .notify w' m notif ∈ t.log) : .notify w' m notif ∈ s.log := by
  cases h with
  | unheard _ => simpa using hmem
  | answered _ _ => simpa using hmem
  | subscribed _ _ _ => simpa using hmem
  | unsubscribed _ _ _ _ _ =>
      simp only [State.log_setClient, State.log_setListenList, State.log_emit, List.cons_append,
        List.append_assoc, List.nil_append, List.mem_cons, List.mem_append,
        List.mem_reverse, List.mem_map, reduceCtorEq, and_false, exists_false, false_or] at hmem
      exact hmem
  | callFailed _ _ => simpa using hmem
  | callStarted => simpa using hmem

theorem onMsg_newEntry {act : Action} (hc : s.clients w = some c)
    (h : wsuOnMsgFromClient cfg s w c blob now a = .ok t) (hmem : act ∈ t.log)
    (hold : act ∉ s.log) : NewEntry s t (.message w blob now a) act := by
  have heff := onMsg_effect hc h
  cases act with
  | received w' m blob' =>
      obtain ⟨rfl, rfl, rfl⟩ := (message_received heff hmem).resolve_left hold
      exact .received rfl
  | reply w' m resp =>
      obtain ⟨rfl, rfl⟩ := (message_reply_origin heff hmem).resolve_left hold
      have hq : c.rpcQLen.toNat ≤ s.reqMax := by
        by_contra hq
        rw [wsuOnMsgFromClient] at h
        have hunheard := (if_pos (Nat.lt_of_not_le hq)).symm.trans h
        cases hunheard
        simp [hold] at hmem
      refine .answer rfl (log_message heff).2 (onMsg_reply hq h hmem hold) fun A hA => ?_
      exact (call_reply hA h hmem).resolve_left hold
  | notify w' m notif => exact absurd (message_notify heff hmem) hold
  | _ => exact .other rfl

theorem handle_newEntry {act : Action} (h : handle cfg s e = .ok t) (hmem : act ∈ t.log)
    (hold : act ∉ s.log) : NewEntry s t e act := by
  have heff := handle_effect h
  cases heff with
  | idle => exact absurd hmem hold
  | opened _ => exact absurd hmem hold
  | message hc _ =>
      rcases withClient_ok h with rfl | ⟨c, hc, h⟩
      · exact absurd hmem hold
      · exact onMsg_newEntry hc h hmem hold
  | callData =>
      simp only [State.log_setClient, State.log_emit, List.cons_append, List.nil_append,
        List.mem_cons, hold, or_false] at hmem
      subst hmem
      exact .other rfl
  | eventData => exact absurd hmem hold
  | callInvoked =>
      simp only [State.log_setClient, State.log_emit, List.cons_append, List.nil_append,
        List.mem_cons, hold, or_false] at hmem
      rcases hmem with rfl | rfl
      · exact .other rfl
      · exact .other rfl
  | callRefused hc _ _ hfind =>
      simp only [denyCall, State.log_setClient, State.log_emit, List.cons_append, List.nil_append,
        List.mem_cons, hold, or_false] at hmem
      rcases hmem with rfl | rfl | rfl
      · exact .other rfl
      · exact .denied hc (ClientSession.findCall_num hfind).2
      · exact .other rfl
  | callLost attempt hc _ _ hfind _ _ _ hattempt =>
      simp only [denyCall, State.log_setClient, State.log_emit, List.cons_append, List.nil_append,
        List.append_assoc, List.mem_append, List.mem_cons, hold, or_false] at hmem
      rcases hmem with rfl | rfl | hmem | rfl
      · exact .other rfl
      · exact .denied hc (ClientSession.findCall_num hfind).2
      · rcases hattempt with rfl | ⟨params, rfl⟩
        · cases hmem
        · rw [List.mem_singleton.mp hmem]
          exact .other rfl
      · exact .other rfl
  | eventDelivered =>
      simp only [State.log_setClient, State.log_emit, List.cons_append, List.nil_append,
        List.mem_cons, hold, or_false] at hmem
      rcases hmem with rfl | rfl
      · exact .other rfl
      · exact .notify _ _
  | eventDropped =>
      simp only [State.log_setClient, State.log_emit, List.cons_append, List.nil_append,
        List.mem_cons, hold, or_false] at hmem
      subst hmem
      exact .other rfl
  | retdata => exact absurd hmem hold
  | invokeCompleted hc hfind hinv =>
      simp only [wsubusCallOnCompleted, State.log_setClient, State.log_emit, List.cons_append,
        List.nil_append, List.mem_cons, hold, or_false] at hmem
      rcases hmem with rfl | rfl
      · exact .other rfl
      · exact .completed hc (ClientSession.findCall_num hfind).2 hinv rfl
  | eventStarted => exact absurd hmem hold
  | eventFailed =>
      simp only [State.log_emit, List.cons_append, List.nil_append, List.mem_cons, hold,
        or_false] at hmem
      subst hmem
      exact .other rfl
  | swept hc =>
      rcases List.mem_append.mp hmem with hmem | hmem
      · obtain ⟨n, rfl⟩ := mem_sweptActions hmem
        exact .other rfl
      · exact absurd hmem hold
  | closed hc hd =>
      obtain rfl := wsuPeerDeinit_ok hd
      rcases List.mem_append.mp hmem with hmem | hmem
      · rcases mem_deinitActions (List.mem_reverse.mp hmem) with ⟨n, rfl⟩ | ⟨n, rfl⟩ | ⟨n, rfl, -⟩
        · exact .other rfl
        · exact .other rfl
        · exact .other rfl
      · exact absurd hmem hold

/-! ### Whole runs -/

/-- A queued call goes back to a message that is in the log; if it was
invoked, so is that. -/
theorem State.Tracks.queued {ctx : PercallCtx} (ht : s.Tracks) (hc : s.clients w = some c)
    (hctx : .call ctx ∈ c.rpcCallQ) :
    ∃ blob, .received w ctx.num blob ∈ s.log ∧ ctx.id = jsonrpcId blob ∧
      (ctx.invokeReq = true → ∃ params, .invoke ctx.num ctx.callArgs.sid ctx.callArgs.object
        ctx.callArgs.method params ∈ s.log) := by
  obtain ⟨stage, hat⟩ := ht ctx.num
  obtain ⟨blob, A, hid, hsid, hobject, hmethod, ⟨hinv, last, rfl⟩ | ⟨hinv, rfl⟩⟩ :=
    (hat.queues w c hc).calls ctx hctx rfl
  · obtain ⟨-, data, hshape, -⟩ := hat.life.waiting_shape
    refine ⟨blob, ?_, hid, by simp [hinv]⟩
    have hmem : .received w ctx.num blob ∈ history ctx.num s.log := by
      rw [hshape]
      simp [Life.waitingHistory]
    exact (mem_history.mp hmem).1
  · obtain ⟨-, data, status, params, -, hshape⟩ := hat.life.invoked_shape
    refine ⟨blob, ?_, hid, fun _ => ⟨params, ?_⟩⟩
    · have hmem : .received w ctx.num blob ∈ history ctx.num s.log := by
        rw [hshape]
        simp [Life.waitingHistory]
      exact (mem_history.mp hmem).1
    · have hmem : .invoke ctx.num A.sid A.object A.method params ∈ history ctx.num s.log := by
        rw [hshape]
        exact .head _
      rw [hsid, hobject, hmethod]
      exact (mem_history.mp hmem).1

/-- The message that a queued call came from asked for it. -/
theorem queued_message {n : ℕ} {es : List Event} {ctx : PercallCtx} {blob : List Attr}
    {now : Timespec} {a : MessageAnswers} (hrun : run (step cfg) (init n) es = .ok s)
    (hc : s.clients w = some c) (hctx : .call ctx ∈ c.rpcCallQ)
    (he : es[ctx.num]? = some (.message w blob now a)) :
    ∃ A, parseRequest a.scalarAttrs blob = some (.ok (.call A)) ∧ ctx.callArgs.sid = A.sid ∧
      ctx.callArgs.object = A.object ∧ ctx.callArgs.method = A.method := by
  have horigin : ∃ w' args, CallOrigin cfg es w' ctx.num args ∧ ctx.callArgs.sid = args.sid ∧
      ctx.callArgs.object = args.object ∧ ctx.callArgs.method = args.method := by
    cases hinv : ctx.invokeReq with
    | false =>
        have hw := (traced_run hrun).waiting w ctx.num ctx.callArgs
          ⟨c, ctx, hc, hctx, hinv, rfl, rfl⟩
        exact ⟨w, ctx.callArgs, hw, rfl, rfl, rfl⟩
    | true =>
        obtain ⟨-, -, -, hinvoke⟩ := (tracks_of_run hrun).queued hc hctx
        obtain ⟨params, hmem⟩ := hinvoke hinv
        obtain ⟨w', args, horigin, hsid, hobject, hmethod, -⟩ :=
          (traced_run hrun).invokes _ _ _ _ _ hmem
        exact ⟨w', args, horigin, hsid, hobject, hmethod⟩
  obtain ⟨w', args, ⟨e, he', blob', now', a', A, k, q, rfl, hreq, hcheck⟩, hsid, hobject,
    hmethod⟩ := horigin
  rw [he] at he'
  cases he'
  obtain ⟨h₁, h₂, h₃, -⟩ := doCheckThenDoCall_some hcheck
  exact ⟨A, hreq, hsid.trans h₁, hobject.trans h₂, hmethod.trans h₃⟩

/-- The invocation of the message `m`. -/
def invokes (m : ℕ) : Action → Bool
  | .invoke n _ _ _ _ => n = m
  | _ => false

theorem filter_invokes_waitingHistory {A : UbusrpcBlobCall} (data : List (List Attr)) :
    (Life.waitingHistory m w blob A data).filter (invokes m) = [] := by
  rw [List.filter_eq_nil_iff]
  intro act hact
  rcases Life.mem_waitingHistory hact with ⟨d, rfl⟩ | rfl | rfl
  all_goals simp [invokes]

theorem Life.invokes_length_le {stage : Stage} {h : List Action} (hl : Life m stage h) :
    (h.filter (invokes m)).length ≤ 1 := by
  cases hl with
  | unborn => simp
  | unheard => simp [invokes]
  | answered _ => simp [invokes]
  | failed _ => simp [invokes]
  | started _ => simp [invokes]
  | data d hw =>
      obtain ⟨-, data, rfl, -⟩ := hw.waiting_shape
      simp [invokes, filter_invokes_waitingHistory]
  | refused status hw =>
      obtain ⟨-, data, rfl, -⟩ := hw.waiting_shape
      simp [invokes, filter_invokes_waitingHistory]
  | invoked params hw _ =>
      obtain ⟨-, data, rfl, -⟩ := hw.waiting_shape
      simp [invokes, filter_invokes_waitingHistory]
  | lost hw _ =>
      obtain ⟨-, data, rfl, -⟩ := hw.waiting_shape
      simp [invokes, filter_invokes_waitingHistory]
  | completed hinv _ =>
      obtain ⟨-, data, status, params, -, rfl⟩ := hinv.invoked_shape
      simp [invokes, filter_invokes_waitingHistory]

theorem State.Tracks.invokes_length_le (ht : s.Tracks) (m : ℕ) :
    (s.log.filter (invokes m)).length ≤ 1 := by
  obtain ⟨stage, hat⟩ := ht m
  have hmessage : ∀ act, invokes m act = true → act.message = some m := by
    intro act hact
    cases act with
    | invoke n sid object method params => simpa [invokes, Action.message] using hact
    | _ => cases hact
  rw [← filter_history hmessage]
  exact hat.life.invokes_length_le

theorem CallReply.concat {n : ℕ} {es : List Event} {id : Option Attr} {A : UbusrpcBlobCall}
    (h : CallReply cfg n es w m id A resp) (e : Event) :
    CallReply cfg n (es ++ [e]) w m id A resp := by
  refine h.imp_right ?_
  rintro ⟨mid, status, ⟨past, e', rest, rfl, hinvoke, hreply⟩, hresp⟩
  exact ⟨mid, status, ⟨past, e', rest ++ [e], by simp, hinvoke, hreply⟩, hresp⟩

theorem completed_reply {n : ℕ} {es : List Event} {s' : State} {ctx : PercallCtx} {status : Int}
    {A : UbusrpcBlobCall} (hrun : run (step cfg) (init n) es = .ok s)
    (h : step cfg s (.invokeComplete w ctx.num status) = .ok s') (hc : s.clients w = some c)
    (hctx : .call ctx ∈ c.rpcCallQ) (hinv : ctx.invokeReq = true) (hsid : ctx.callArgs.sid = A.sid)
    (hobject : ctx.callArgs.object = A.object) (hmethod : ctx.callArgs.method = A.method)
    (hold : .reply w ctx.num (jsonrpcRespUbus ctx.id status (ctx.retbuf.head?.map (·.2))) ∉ s.log)
    (hnew : .reply w ctx.num (jsonrpcRespUbus ctx.id status (ctx.retbuf.head?.map (·.2))) ∈
      s'.log) :
    CallReply cfg n (es ++ [.invokeComplete w ctx.num status]) w ctx.num ctx.id A
      (jsonrpcRespUbus ctx.id status (ctx.retbuf.head?.map (·.2))) := by
  obtain ⟨past, e, mid, params, rfl, hinvoke, hbuf⟩ := (collected_run hrun w c ctx hc hctx).2 hinv
  rw [hsid, hobject, hmethod] at hinvoke
  have hdata : ctx.retbuf.head?.map (·.2) = (returned w ctx.num mid).head? := by
    rw [hbuf, List.head?_map, Option.map_map]
    exact Option.map_id'
  refine .inr ⟨mid, status,
    ⟨past, e, [], by simp, ⟨params, hinvoke⟩, s, s', hrun, h, hold, hnew⟩, ?_⟩
  rw [hdata]

theorem replied_step {n : ℕ} {es : List Event} {s' : State}
    (hrun : run (step cfg) (init n) es = .ok s) (hi : Replied cfg n es s)
    (h : step cfg s e = .ok s') : Replied cfg n (es ++ [e]) s' := by
  have ht := tracks_of_run hrun
  have hsteps := (traced_run hrun).steps
  have hstep := h
  obtain ⟨t, hhandle, rfl⟩ := step_ok h
  have hlog : s.log ⊆ t.log := (log_effect (handle_effect hhandle)).subset
  have hkeep : ∀ {m : ℕ} {e' : Event}, es[m]? = some e' → (es ++ [e])[m]? = some e' := by
    intro m e' he'
    obtain ⟨hlt, -⟩ := List.getElem?_eq_some_iff.mp he'
    rw [List.getElem?_append_left hlt, he']
  constructor
  case received =>
    intro w m blob hmem
    by_cases hold : .received w m blob ∈ s.log
    · obtain ⟨now, a, hev⟩ := hi.received w m blob hold
      exact ⟨now, a, hkeep hev⟩
    · cases handle_newEntry hhandle hmem hold with
      | received he => exact ⟨_, _, by rw [hsteps, List.getElem?_concat_length, he]⟩
      | other ha => cases ha
  case replies =>
    intro w m resp hmem
    by_cases hold : .reply w m resp ∈ s.log
    · obtain ⟨blob, now, a, hev, hreceived, hanswer, hcall⟩ := hi.replies w m resp hold
      exact ⟨blob, now, a, hkeep hev, hlog hreceived, hanswer, fun A hA => (hcall A hA).concat e⟩
    · cases handle_newEntry hhandle hmem hold with
      | @answer _ blob _ now a he hreceived hanswer hdenied =>
          refine ⟨blob, now, a, ?_, hreceived, hanswer, fun A hA => .inl (hdenied A hA)⟩
          rw [hsteps, List.getElem?_concat_length, he]
      | @denied _ c ctx hc hctx =>
          obtain ⟨blob, hreceived, hid, -⟩ := ht.queued hc hctx
          obtain ⟨now, a, hev⟩ := hi.received w ctx.num blob hreceived
          obtain ⟨A, hreq, -⟩ := queued_message hrun hc hctx hev
          rw [hid]
          exact ⟨blob, now, a, hkeep hev, hlog hreceived, .inr ⟨_, _, _, hreq, rfl⟩,
            fun _ _ => .inl rfl⟩
      | @completed _ c ctx status hc hctx hinv he =>
          obtain ⟨blob, hreceived, hid, -⟩ := ht.queued hc hctx
          obtain ⟨now, a, hev⟩ := hi.received w ctx.num blob hreceived
          obtain ⟨A, hreq, hsid, hobject, hmethod⟩ := queued_message hrun hc hctx hev
          subst he
          have hreply := completed_reply hrun hstep hc hctx hinv hsid hobject hmethod hold hmem
          rw [hid] at hreply ⊢
          refine ⟨blob, now, a, hkeep hev, hlog hreceived, .inr ⟨_, _, _, hreq, rfl⟩,
            fun A' hA' => ?_⟩
          obtain rfl : A = A' := by simpa [hreq] using hA'
          exact hreply
      | other ha => cases ha
  case notified =>
    intro w sub notif hmem
    by_cases hold : .notify w sub notif ∈ s.log
    · exact hi.notified w sub notif hold
    · cases handle_newEntry hhandle hmem hold with
      | notify t info => exact ⟨t, info, rfl⟩
      | other ha => cases ha

/-- In every run, replies go back to the messages they answer, and those to
calls to their invocations and what was returned to them. -/
theorem replied_run {n : ℕ} {es : List Event} (hrun : run (step cfg) (init n) es = .ok s) :
    Replied cfg n es s := by
  refine run_history (Replied cfg n) ?_ ?_ hrun
  · constructor
    case received =>
      intro w m blob hmem
      cases hmem
    case replies =>
      intro w m resp hmem
      cases hmem
    case notified =>
      intro w sub notif hmem
      cases hmem
  · exact fun es s e s' hpast hi h => replied_step hpast hi h

end

end Owsd.Server
