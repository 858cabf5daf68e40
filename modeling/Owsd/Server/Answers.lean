import Owsd.Server.CheckedName
import Owsd.Server.Fates

/-!
One answer to each message.

The step that takes a message in answers it, or puts its call into the queue,
and from there on `Fates` says what becomes of it. So it is answered once, or
removed, or still in progress.

A message is not answered when it is not handled to the end: on a `list`
while an object on the bus has an argument of a type unknown to
`blobmsg_type_to_str`, on a call whose context is read as a notification, and
on a call with a scalar argument whose bytes, taken for attributes, lead out
of the message.
-/

namespace Owsd.Server

open Rpc

/-! ### The step that takes the message in -/

section

variable {cfg : Config} {s t : State} {w : Wsi} {c : ClientSession} {blob : List Attr}
  {now : Timespec} {a : MessageAnswers}

theorem mem_of_mem_log {acts : List Action} {act : Action} (hlog : t.log = acts ++ s.log)
    (hnew : act ∈ t.log) (hold : act ∉ s.log) : act ∈ acts := by
  rw [hlog] at hnew
  exact (List.mem_append.mp hnew).resolve_right hold

/-- What the handler of an accepted message answers at once is a result. -/
theorem handleRequest_reply {s' : State} {c' : ClientSession} {req : UbusrpcBlob}
    {id : Option Attr} (h : handleRequest cfg s w c req id now a = .ok (s', c')) {w' : Wsi}
    {n : ℕ} {resp : List Attr} (hnew : .reply w' n resp ∈ s'.log)
    (hold : .reply w' n resp ∉ s.log) : ∃ rc data, resp = jsonrpcRespUbus id rc data := by
  cases req with
  | call args =>
      simp only [handleRequest, handleCallUbus] at h
      split at h
      · cases h
      · cases h
        have hact := mem_of_mem_log (State.log_emit s _) hnew hold
        simp only [List.mem_cons, Action.reply.injEq, reduceCtorEq, List.not_mem_nil,
          or_false] at hact
        exact ⟨_, _, hact.2.2⟩
      · cases h
        have hact := mem_of_mem_log (State.log_emit s _) hnew hold
        simp at hact
  | list args =>
      simp only [handleRequest, ubusrpcHandleList] at h
      split at h
      · cases h
      · split at h
        · cases h
        · cases h
          have hact := mem_of_mem_log (State.log_emit s _) hnew hold
          rw [List.mem_singleton, Action.reply.injEq] at hact
          rw [hact.2.2]
          split
          · exact ⟨_, _, rfl⟩
          · exact ⟨_, _, rfl⟩
  | sub args =>
      have hlog : s'.log = [.reply w s.steps (jsonrpcRespUbus id a.register none)] ++ s.log := by
        simp only [handleRequest, ubusrpcHandleSub] at h
        split at h
        all_goals
          cases h
          rfl
      have hact := mem_of_mem_log hlog hnew hold
      rw [List.mem_singleton, Action.reply.injEq] at hact
      exact ⟨_, _, hact.2.2⟩
  | subList args =>
      simp only [handleRequest, ubusrpcHandleSubList] at h
      cases h
      have hact := mem_of_mem_log (State.log_emit s _) hnew hold
      rw [List.mem_singleton, Action.reply.injEq] at hact
      exact ⟨_, _, hact.2.2⟩
  | unsub args =>
      simp only [handleRequest, ubusrpcHandleUnsub] at h
      cases h
      have hact := mem_of_mem_log (State.log_emit s _) hnew hold
      rcases List.mem_cons.mp hact with heq | hact
      · rw [Action.reply.injEq] at heq
        exact ⟨_, _, heq.2.2⟩
      · obtain ⟨elem, -, heq⟩ := List.mem_map.mp (List.mem_reverse.mp hact)
        cases heq

theorem onMsg_reply (hq : c.rpcQLen.toNat ≤ s.reqMax)
    (h : wsuOnMsgFromClient cfg s w c blob now a = .ok t) {w' : Wsi} {n : ℕ}
    {resp : List Attr} (hnew : .reply w' n resp ∈ t.log) (hold : .reply w' n resp ∉ s.log) :
    IsAnswer a.scalarAttrs blob resp := by
  have hq' : ¬ (s.emit [.received w s.steps blob]).reqMax < c.rpcQLen.toNat :=
    Nat.not_lt_of_le hq
  have hold' : .reply w' n resp ∉ (s.emit [.received w s.steps blob]).log := by
    simp [hold]
  simp only [wsuOnMsgFromClient, hq', if_false] at h
  split at h
  · cases h
  · next e hreq =>
    cases h
    have hact := mem_of_mem_log (State.log_emit _ _) hnew hold'
    rw [List.mem_singleton, Action.reply.injEq] at hact
    exact Or.inl ⟨e, hreq, hact.2.2⟩
  · next req hreq =>
    split at h
    · cases h
    · next s₁ c₁ hhandle =>
      cases h
      obtain ⟨rc, data, hresp⟩ := handleRequest_reply hhandle hnew hold'
      exact Or.inr ⟨req, rc, data, hreq, hresp⟩

/-- After the step that takes an admitted message in, its call is in the
queue, or it was answered. -/
theorem onMsg_outcome (hn : s.Numbered) (ht : s.Tracks) (hc : s.clients w = some c)
    (hq : c.rpcQLen.toNat ≤ s.reqMax) (h : wsuOnMsgFromClient cfg s w c blob now a = .ok t) :
    (t.InProgress w s.steps ∧ ∃ req, parseRequest a.scalarAttrs blob = some (.ok req)) ∨
      (∃ resp, t.replies s.steps = [.reply w s.steps resp] ∧ IsAnswer a.scalarAttrs blob resp) ∧
        ∀ w', ¬t.InProgress w' s.steps := by
  have hnil : s.replies s.steps = [] := by
    obtain ⟨stage, hat⟩ := ht s.steps
    obtain rfl := hat.fresh (le_refl _)
    rw [replies_eq, hat.life.unborn_shape]
    rfl
  have hold : ∀ w' resp, .reply w' s.steps resp ∉ s.log := by
    intro w' resp hmem
    have hreply : .reply w' s.steps resp ∈ s.replies s.steps :=
      List.mem_filter.mpr ⟨hmem, by simp [Life.answers]⟩
    rw [hnil] at hreply
    cases hreply
  have hfresh : ∀ w', ¬s.InProgress w' s.steps := by
    rintro w' ⟨c', hc', hmem⟩
    obtain ⟨ctx, hctx, hnum⟩ := ClientSession.mem_callNums.mp hmem
    exact absurd ((hn w' c' hc').calls ctx hctx) (by omega)
  -- A message that is answered at once has its answer as the only new reply.
  have hanswered : ∀ (acts : List Action) {c' : ClientSession} {resp : List Attr},
      t.clients = Function.update s.clients w (some c') → c'.callNums = c.callNums →
      t.log = .reply w s.steps resp :: (acts ++ s.log) →
      (∀ act ∈ acts, Life.answers s.steps act = false) →
      (∃ resp, t.replies s.steps = [.reply w s.steps resp] ∧
        IsAnswer a.scalarAttrs blob resp) ∧
        ∀ w', ¬t.InProgress w' s.steps := by
    intro acts c' resp hclients hcalls hlog hacts
    refine ⟨⟨resp, ?_, onMsg_reply hq h (by simp [hlog]) (hold w resp)⟩, fun w' hin => ?_⟩
    · have hrest : (acts ++ s.log).filter (Life.answers s.steps) = [] := by
        rw [List.filter_append, ← State.replies, hnil]
        simpa using hacts
      rw [State.replies, hlog, List.filter_cons, hrest]
      simp [Life.answers]
    · exact hfresh w' ((inProgress_same hclients hc (by rw [hcalls]) w').mp hin)
  have hsame : ∀ {c' : ClientSession}, SameQueues c c' → c'.callNums = c.callNums := by
    intro c' hs
    rw [ClientSession.callNums, hs.rpcCallQ]
    rfl
  cases onMsg_effect hc h with
  | unheard hover => omega
  | answered hs _ =>
      exact Or.inr (hanswered [_] rfl (hsame hs) rfl (by simp [Life.answers]))
  | subscribed c' _ hs =>
      refine Or.inr (hanswered [_] rfl ?_ rfl (by simp [Life.answers]))
      simp [ClientSession.callNums, WsRequest.callNum]
  | unsubscribed c' _ _ hs _ =>
      refine Or.inr (hanswered _ rfl ?_ (State.log_emit s _) ?_)
      · rw [ClientSession.callNums_unlinkSubs, hsame hs]
      · intro act hact
        rcases List.mem_append.mp hact with hact | hact
        · obtain ⟨elem, -, rfl⟩ := List.mem_map.mp (List.mem_reverse.mp hact)
          rfl
        · rw [List.mem_singleton.mp hact]
          rfl
  | callFailed _ hs =>
      exact Or.inr (hanswered [_, _, _] rfl (hsame hs) rfl (by simp [Life.answers]))
  | @callStarted c' _ ctx _ hreq _ hcq _ hnum =>
      refine Or.inl ⟨⟨c', by simp [State.setClient],
        ClientSession.mem_callNums.mpr ⟨ctx, ?_, hnum⟩⟩, _, hreq⟩
      simp [hcq]

end

/-! ### Messages whose handler does not come to an end -/

/-- The object is listed for the session. -/
def Shown (cfg : Config) (sid : CString) (obj : UbusObjectData) : Prop :=
  ¬(CString.ofString "X-tls-certificate" <+: sid ∧
    Acl.ubusxAclAllowObject cfg.uxaclObjects obj.path = false)

/-- A method of the object has an argument whose type is beyond the table of
`blobmsg_type_to_str`, such as a double. -/
def HasOddArgument (obj : UbusObjectData) : Prop :=
  ∃ method ∈ obj.signature.getD [], ∃ arg ∈ method.2.members, ∃ v, arg.2 = .int32 v ∧ 7 < v.toNat

/-- The requests on which the handler aborts, or reads a call as a
notification. -/
def Breaks (cfg : Config) (a : MessageAnswers) : UbusrpcBlob → Prop
  | .call args => args.sid = tlsSid ∧ strstr args.object objectEvent = true
  | .list args => ∃ obj ∈ a.objects, Shown cfg (args.sid.take ubusSidMaxStrlen) obj ∧
      HasOddArgument obj
  | _ => False

theorem eq_tlsSid_iff {sid : CString} :
    wsuSidExtended sid = some (.ofString "tls-certificate") ↔ sid = tlsSid := by
  constructor
  · intro h
    simp only [wsuSidExtended] at h
    split at h
    · next hx =>
      obtain ⟨rest, rfl⟩ := hx
      have hdrop : rest = CString.ofString "tls-certificate" := by
        rw [← Option.some.inj h]
        rfl
      rw [hdrop]
      rfl
    · cases h
  · rintro rfl
    decide

/-- The check of a call faults exactly when its context is misread. -/
theorem accessCheckCall_ok_iff {cfg : Config} {w : Wsi} {a : CheckAnswers}
    {sid object method : CString} {params : List Attr} {num : ℕ} :
    (∃ r, wsubusAccessCheckCall cfg w a sid object method params (.call num) = .ok r) ↔
      ¬(sid = tlsSid ∧ strstr object objectEvent = true) := by
  by_cases hsid : sid = tlsSid
  · subst hsid
    simp only [wsubusAccessCheckCall, wsubusAccessCheck, extCheck_tlsSid]
    cases hstr : strstr object objectEvent with
    | true =>
        rw [objectEvent] at hstr
        simp [tlsObject, hstr]
    | false =>
        rw [objectEvent] at hstr
        simp only [tlsObject, hstr, Bool.false_eq_true, if_false, and_false, not_false_iff,
          iff_true]
        split
        · exact ⟨_, rfl⟩
        · exact ⟨_, rfl⟩
        · exact ⟨_, rfl⟩
  · have hext : ∃ x, extCheck cfg w sid object (some (.call num)) = .ok x ∧ x.fromMsg = false := by
      simp only [extCheck]
      split
      · exact ⟨_, rfl, rfl⟩
      · next esid hesid =>
        split
        · exact ⟨_, rfl, rfl⟩
        · split
          · next heq =>
            rw [heq] at hesid
            exact absurd (eq_tlsSid_iff.mp hesid) hsid
          · exact ⟨_, rfl, rfl⟩
    obtain ⟨x, hx, hfrom⟩ := hext
    simp only [wsubusAccessCheckCall, wsubusAccessCheck, hx, hsid, false_and, not_false_iff,
      iff_true]
    split
    · exact ⟨_, rfl⟩
    · exact ⟨_, rfl⟩
    · exact ⟨_, by rw [hfrom]; rfl⟩

theorem mapM_ok_iff {α β : Type} {g : α → Except Fault β} {l : List α} :
    (∃ ys, l.mapM g = .ok ys) ↔ ∀ x ∈ l, ∃ y, g x = .ok y := by
  induction l with
  | nil => exact ⟨by simp, fun _ => ⟨[], rfl⟩⟩
  | cons x l ih =>
      rw [List.mapM_cons, List.forall_mem_cons, ← ih]
      constructor
      · rintro ⟨ys, hys⟩
        obtain ⟨y, hy, hrest⟩ := bind_ok hys
        obtain ⟨ys', hys', -⟩ := bind_ok hrest
        exact ⟨⟨y, hy⟩, ys', hys'⟩
      · rintro ⟨⟨y, hy⟩, ys, hys⟩
        exact ⟨y :: ys, by rw [hy, hys]; rfl⟩

theorem lookupArg_ok_iff {arg : Attr} :
    (∃ r, lookupArg arg = .ok r) ↔ ¬∃ v, arg.2 = .int32 v ∧ 7 < v.toNat := by
  obtain ⟨name, value⟩ := arg
  cases value with
  | int32 v =>
      have hstr : (∃ r, blobmsgTypeToStr v.toNat = .ok r) ↔ ¬ 7 < v.toNat := by
        simp only [blobmsgTypeToStr]
        split
        all_goals simp_all
        omega
      simp only [lookupArg, Blob.int32.injEq, exists_eq_left', ← hstr]
      cases blobmsgTypeToStr v.toNat with
      | error f => simp
      | ok r => simp
  | _ => simp [lookupArg]

theorem ubusLookupCb_ok_iff {cfg : Config} {sid : CString} {obj : UbusObjectData} :
    (∃ r, ubusLookupCb cfg sid obj = .ok r) ↔ ¬(Shown cfg sid obj ∧ HasOddArgument obj) := by
  have hmethod : ∀ m : Attr, (∃ r, (do
      if Acl.ubusxAclAllowMethod cfg.uxaclObjects obj.path m.1 then
        let args ← m.2.members.mapM lookupArg
        pure (some (m.1, Blob.table (args.filterMap id)))
      else pure none : Except Fault (Option Attr)) = .ok r) ↔
      ∀ arg ∈ m.2.members, ¬∃ v, arg.2 = .int32 v ∧ 7 < v.toNat := by
    intro m
    simp only [Acl.ubusxAclAllowMethod, if_true, ← lookupArg_ok_iff]
    rw [← mapM_ok_iff]
    constructor
    · rintro ⟨r, hr⟩
      obtain ⟨args, hargs, -⟩ := bind_ok hr
      exact ⟨args, hargs⟩
    · rintro ⟨args, hargs⟩
      exact ⟨_, by rw [hargs]; rfl⟩
  simp only [ubusLookupCb]
  split
  · next hhidden => exact ⟨fun _ h => h.1 hhidden, fun _ => ⟨_, rfl⟩⟩
  · next hshown =>
    have hodd : ¬(Shown cfg sid obj ∧ HasOddArgument obj) ↔
        ∀ m ∈ obj.signature.getD [], ∀ arg ∈ m.2.members,
          ¬∃ v, arg.2 = .int32 v ∧ 7 < v.toNat := by
      constructor
      · exact fun h m hm arg harg hv => h ⟨hshown, m, hm, arg, harg, hv⟩
      · rintro h ⟨-, m, hm, arg, harg, hv⟩
        exact h m hm arg harg hv
    rw [hodd]
    simp only [← hmethod]
    rw [← mapM_ok_iff]
    constructor
    · rintro ⟨r, hr⟩
      obtain ⟨methods, hmethods, -⟩ := bind_ok hr
      exact ⟨methods, hmethods⟩
    · rintro ⟨methods, hmethods⟩
      exact ⟨_, by rw [hmethods]; rfl⟩

section

variable {cfg : Config} {s : State} {w : Wsi} {c : ClientSession} {blob : List Attr}
  {now : Timespec} {a : MessageAnswers}

theorem handleRequest_ok_iff {req : UbusrpcBlob} {id : Option Attr}
    (halloc : a.check.alloc = true) (hid : id ≠ none) :
    (∃ p, handleRequest cfg s w (wsuSidUpdate c req.sid) req id now a = .ok p) ↔
      ¬Breaks cfg a req := by
  cases req with
  | call args =>
      have hcheck : (∃ r, wsubusAccessCheckCall cfg w a.check args.sid args.object args.method
          args.paramsBuf (.call s.steps) = .ok r) ↔ ¬Breaks cfg a (.call args) :=
        accessCheckCall_ok_iff
      rw [← hcheck]
      simp only [handleRequest, handleCallUbus, wsubusCallDoCheckThenDoCall, halloc, Bool.not_true,
        Bool.false_eq_true, if_false]
      cases wsubusAccessCheckCall cfg w a.check args.sid args.object args.method args.paramsBuf
          (.call s.steps) with
      | error f => simp
      | ok r =>
          simp only [Except.ok.injEq, exists_eq', iff_true]
          cases r.outcome with
          | deferred result => exact ⟨_, rfl⟩
          | session => exact ⟨_, rfl⟩
          | failed => exact ⟨_, rfl⟩
  | list args =>
      obtain ⟨reqId, rfl⟩ := Option.ne_none_iff_exists'.mp hid
      have hall : ¬Breaks cfg a (.list args) ↔
          ∀ obj ∈ a.objects,
            ∃ r, ubusLookupCb cfg (args.sid.take ubusSidMaxStrlen) obj = .ok r := by
        simp only [ubusLookupCb_ok_iff, Breaks, not_exists, not_and]
      rw [hall, ← mapM_ok_iff]
      simp only [handleRequest, ubusrpcHandleList, wsuSidUpdate, UbusrpcBlob.sid]
      cases a.objects.mapM (ubusLookupCb cfg (args.sid.take ubusSidMaxStrlen)) with
      | error f => simp
      | ok objs => simp
  | sub args => exact ⟨fun _ h => h, fun _ => ⟨_, rfl⟩⟩
  | subList args => exact ⟨fun _ h => h, fun _ => ⟨_, rfl⟩⟩
  | unsub args => exact ⟨fun _ h => h, fun _ => ⟨_, rfl⟩⟩

/-- An admitted message with an id is handled to the end unless it is one of
those. -/
theorem step_message_ok_iff (hc : s.clients w = some c) (hq : c.rpcQLen.toNat ≤ s.reqMax)
    (halloc : a.check.alloc = true) (hid : jsonrpcId blob ≠ none) :
    (∃ t, step cfg s (.message w blob now a) = .ok t) ↔
      ¬LeadsOut a.scalarAttrs blob ∧
        ∀ req, parseRequest a.scalarAttrs blob = some (.ok req) → ¬Breaks cfg a req := by
  rw [← parseRequest_none_iff]
  rcases hreq : parseRequest a.scalarAttrs blob with _ | (e | req)
  · rw [step_scalar cfg now a hc hq hreq]
    simp
  · rw [step_refused cfg now a hc hq hreq]
    simp
  · have hreq' : (∃ p, handleRequest cfg (s.emit [.received w s.steps blob]) w
        (wsuSidUpdate c req.sid) req (jsonrpcId blob) now a = .ok p) ↔ ¬Breaks cfg a req :=
      handleRequest_ok_iff halloc hid
    simp only [Except.ok.injEq, Option.some.injEq, forall_eq', reduceCtorEq, not_false_iff,
      true_and]
    rw [step_handled cfg now a hc hq hreq, ← hreq']
    cases handleRequest cfg (s.emit [.received w s.steps blob]) w (wsuSidUpdate c req.sid) req
        (jsonrpcId blob) now a with
    | error f => simp [Except.map]
    | ok p => simp [Except.map]

/-- One answer to each message. No message ever gets two. A message with an id
from a client that has not exceeded its quota is handled, and from then on its
call is in the queue, or was taken away by the sweeper or the close of the
connection without an answer, or the message got one answer; except that it is
not handled to the end when its argument leads out of the message, and on the
requests of `Breaks`. -/
theorem answered_once_iff {n : ℕ} {es : List Event}
    (hrun : run (step cfg) (init n) es = .ok s) (hc : s.clients w = some c)
    (hq : c.rpcQLen.toNat ≤ s.reqMax) (halloc : a.check.alloc = true)
    (hid : jsonrpcId blob ≠ none) :
    (∀ m, (s.replies m).length ≤ 1) ∧
      ((∃ t, step cfg s (.message w blob now a) = .ok t ∧
        ∀ later s', run (step cfg) t later = .ok s' →
          Outcome (RemovedDuring cfg w s.steps t later) s' w s.steps a.scalarAttrs blob) ↔
      ¬LeadsOut a.scalarAttrs blob ∧
        ∀ req, parseRequest a.scalarAttrs blob = some (.ok req) → ¬Breaks cfg a req) := by
  obtain ⟨hn, hi⟩ := counted_run hrun
  have ht := tracks_of_run hrun
  refine ⟨replies_length_le ht, ?_⟩
  have hok : (∃ t, step cfg s (.message w blob now a) = .ok t) ↔
      ¬LeadsOut a.scalarAttrs blob ∧
        ∀ req, parseRequest a.scalarAttrs blob = some (.ok req) → ¬Breaks cfg a req :=
    step_message_ok_iff hc hq halloc hid
  rw [← hok]
  refine exists_congr fun t => and_iff_left_of_imp fun hstep => ?_
  intro later s' hlater
  -- The state after the step, up to the count of steps.
  have hf : Followed t w s.steps blob := by
    have hn' := numbered_step hn hstep
    have hi' := counted_step hn hi hstep
    obtain ⟨u, hu, rfl⟩ := step_message hc hstep
    exact ⟨hn', hi', tracks_message hc hu ht, Nat.lt_succ_self _, (log_message hu).2⟩
  have hfirst : (t.InProgress w s.steps ∧
      ∃ req, parseRequest a.scalarAttrs blob = some (.ok req)) ∨
      (∃ resp, t.replies s.steps = [.reply w s.steps resp] ∧ IsAnswer a.scalarAttrs blob resp) ∧
        ∀ w', ¬t.InProgress w' s.steps := by
    obtain ⟨u, hu, rfl⟩ := step_onMsg hc hstep
    have houtcome := onMsg_outcome hn ht hc hq hu
    exact houtcome
  rcases hfirst with ⟨hin, req, hreq⟩ | ⟨⟨resp, hreplies, hans⟩, hnone⟩
  · exact outcome_run hf hreq hin hlater
  · obtain ⟨h₁, h₂, h₃⟩ := settled_run hf hnone hlater
    exact .answered (h₁.trans hreplies) hans h₂ h₃

end

/-- A call of a client that has just connected. -/
theorem answered_once_iff_call :
    ∃ s c, run (step plainConfig) (init 1024) [.established 0] = .ok s ∧
      s.clients 0 = some c ∧
      ∃ t, step plainConfig s (sends callMessage) = .ok t ∧
        ∀ later s', run (step plainConfig) t later = .ok s' →
          Outcome (RemovedDuring plainConfig 0 1 t later) s' 0 1 (fun _ => some [])
            callMessage := by
  refine ⟨_, _, rfl, rfl, ?_⟩
  refine (answered_once_iff
    (rfl : run (step plainConfig) (init 1024) [.established 0] = .ok _) rfl (by decide) rfl
    (by decide)).2.mpr ?_
  refine ⟨?_, ?_⟩
  · rw [← parseRequest_none_iff]
    exact fun hnone => by cases hnone
  rintro req hreq hbreaks
  cases hreq
  exact absurd hbreaks.1 (by decide)

def thermometer : UbusObjectData :=
  ⟨.ofString "thermometer",
    some [(.ofString "set", .table [(.ofString "degrees", .int32 8)])]⟩

/-- A client lists the objects of a bus with such an object on it. -/
theorem list_aborts :
    ∃ s c blob a, run (step plainConfig) (init 1024) [.established 0] = .ok s ∧
      s.clients 0 = some c ∧ c.rpcQLen.toNat ≤ s.reqMax ∧ a.check.alloc = true ∧
      jsonrpcId blob ≠ none ∧ a.objects = [thermometer] ∧
      ¬∃ t, step plainConfig s (.message 0 blob ⟨0, 0⟩ a) = .ok t ∧
        ∀ later s', run (step plainConfig) t later = .ok s' →
          Outcome (RemovedDuring plainConfig 0 s.steps t later) s' 0 s.steps a.scalarAttrs
            blob := by
  refine ⟨_, _,
    requestMessage (.ofString "list") [.string (.ofString "s"), .string (.ofString "*")],
    ⟨willing, fun _ => some [], 0, 0, [thermometer]⟩, rfl, rfl, by decide, rfl, by decide, rfl, ?_⟩
  rintro ⟨t, hstep, -⟩
  cases hstep

end Owsd.Server
