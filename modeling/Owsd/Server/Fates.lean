import Owsd.Server.Counters
import Owsd.Server.Observations

/-!
What becomes of a message.

The dispatcher, the handlers and the callbacks of checks and calls all send
responses, and a handler returns zero both after a response and when one is
still to come. Seen from one message it is simple: as long as its call is in
the queue it was not answered, and whatever takes the call out of the queue
answers it, except the sweeper and the close of the connection (`Fate`). So a
message whose call is in the queue ends up answered once, or removed
(`outcome_run`).
-/

namespace Owsd.Server

open Rpc

/-- The responses to the message `m`. -/
def State.replies (s : State) (m : ℕ) : List Action := s.log.filter (Life.answers m)

/-- What a message is to be answered: an error object if it was not accepted,
otherwise a result. -/
def IsAnswer (x : ScalarAttrs) (blob resp : List Attr) : Prop :=
  (∃ e, parseRequest x blob = some (.error e) ∧
      resp = jsonrpcRespError (jsonrpcId blob) e none) ∨
    ∃ req rc data, parseRequest x blob = some (.ok req) ∧
      resp = jsonrpcRespUbus (jsonrpcId blob) rc data

/-- The call `m` is in the queue of the client on `w`. -/
def State.InProgress (s : State) (w : Wsi) (m : ℕ) : Prop :=
  ∃ c, s.clients w = some c ∧ m ∈ c.callNums

/-- The sweeper, or the close of the connection, takes the call `m` of the
client on `w` away. -/
def Removes (w : Wsi) (m : ℕ) (s : State) : Event → Prop
  | .percallCleaner w' now => w' = w ∧ ∃ c ctx, s.clients w = some c ∧ .call ctx ∈ c.rpcCallQ ∧
      ctx.num = m ∧ isStale now (.call ctx) = true
  | .closed w' => w' = w ∧ s.InProgress w m
  | _ => False

/-- At some point of a run the call was taken away. -/
def RemovedDuring (cfg : Config) (w : Wsi) (m : ℕ) (t : State) (es : List Event) : Prop :=
  ∃ pre e post u, es = pre ++ e :: post ∧ run (step cfg) t pre = .ok u ∧ Removes w m u e

/-- Where the message `m` of the client on `w` stands: its call is in the
queue and was not answered, it was taken away without an answer, or it was
answered once. -/
inductive Outcome (removed : Prop) (s : State) (w : Wsi) (m : ℕ) (x : ScalarAttrs)
    (blob : List Attr) : Prop
  | inProgress : s.InProgress w m → s.replies m = [] → ¬removed → Outcome removed s w m x blob
  | removed : removed → s.replies m = [] → (∀ w', ¬s.InProgress w' m) →
      Outcome removed s w m x blob
  | answered {resp : List Attr} : s.replies m = [.reply w m resp] → IsAnswer x blob resp →
      (∀ w', ¬s.InProgress w' m) → ¬removed → Outcome removed s w m x blob

/-! ### At most one answer -/

theorem Life.answers_length_le {m : ℕ} {stage : Stage} {h : List Action} (hl : Life m stage h) :
    (h.filter (answers m)).length ≤ 1 := by
  cases hl with
  | unborn => simp
  | unheard => simp [answers]
  | answered _ => simp [answers]
  | failed _ => simp [answers]
  | started _ => simp [answers]
  | data d hw =>
      obtain ⟨-, data, rfl, -⟩ := hw.waiting_shape
      simp [answers, filter_answers_waitingHistory]
  | refused status hw =>
      obtain ⟨-, data, rfl, -⟩ := hw.waiting_shape
      simp [answers, filter_answers_waitingHistory]
  | invoked params hw _ =>
      obtain ⟨-, data, rfl, -⟩ := hw.waiting_shape
      simp [answers, filter_answers_waitingHistory]
  | lost hw _ =>
      obtain ⟨-, data, rfl, -⟩ := hw.waiting_shape
      simp [answers, filter_answers_waitingHistory]
  | completed hinv _ =>
      obtain ⟨-, data, status, params, -, rfl⟩ := hinv.invoked_shape
      simp [answers, filter_answers_waitingHistory]

theorem message_of_answers {m : ℕ} {a : Action} (h : Life.answers m a = true) :
    a.message = some m := by
  cases a
  all_goals simp_all [Life.answers, Action.message]

theorem replies_eq (s : State) (m : ℕ) :
    s.replies m = (history m s.log).filter (Life.answers m) :=
  (filter_history (fun _ => message_of_answers) s.log).symm

theorem replies_length_le {s : State} (ht : s.Tracks) (m : ℕ) : (s.replies m).length ≤ 1 := by
  obtain ⟨stage, hat⟩ := ht m
  rw [replies_eq]
  exact hat.life.answers_length_le

/-- A call in a queue is that of the message it came from, and not
answered. -/
theorem inProgress_tracked {s : State} (ht : s.Tracks) {w w' : Wsi} {m : ℕ} {blob : List Attr}
    {c : ClientSession} {ctx : PercallCtx} (hreceived : .received w m blob ∈ s.log)
    (hc : s.clients w' = some c) (hctx : .call ctx ∈ c.rpcCallQ) (hnum : ctx.num = m) :
    w' = w ∧ ctx.id = jsonrpcId blob ∧ s.replies m = [] ∧
      ∃ x args, parseRequest x blob = some (.ok (.call args)) := by
  obtain ⟨stage, hat⟩ := ht m
  obtain ⟨blob', args, hid, -, -, -, hstage⟩ := (hat.queues w' c hc).calls ctx hctx hnum
  have hmem : .received w m blob ∈ history m s.log := mem_history.mpr ⟨hreceived, rfl⟩
  rw [replies_eq]
  rcases hstage with ⟨-, last, rfl⟩ | ⟨-, rfl⟩
  · obtain ⟨⟨x, hreq⟩, data, hhist, -⟩ := hat.life.waiting_shape
    rw [hhist] at hmem ⊢
    obtain ⟨rfl, rfl⟩ := ((Life.origin_waitingHistory data).received w blob).mp hmem
    exact ⟨rfl, hid, Life.filter_answers_waitingHistory data, x, args, hreq⟩
  · obtain ⟨⟨x, hreq⟩, data, status, params, -, hhist⟩ := hat.life.invoked_shape
    rw [hhist] at hmem ⊢
    have hmem' : .received w m blob ∈ Life.waitingHistory m w' blob' args data := by
      simpa using hmem
    obtain ⟨rfl, rfl⟩ := ((Life.origin_waitingHistory data).received w blob).mp hmem'
    exact ⟨rfl, hid, by simp [Life.answers, Life.filter_answers_waitingHistory], x, args, hreq⟩

/-! ### What a step does to a message that came in earlier -/

section

variable {s t : State} {e : Event} {w : Wsi} {c c' : ClientSession} {m : ℕ}

theorem inProgress_update (hclients : t.clients = Function.update s.clients w (some c'))
    (w' : Wsi) : t.InProgress w' m ↔ (w' = w ∧ m ∈ c'.callNums) ∨ (w' ≠ w ∧ s.InProgress w' m) := by
  unfold State.InProgress
  rw [hclients]
  by_cases hw : w' = w
  · subst hw
    simp
  · simp [hw]

theorem inProgress_same (hclients : t.clients = Function.update s.clients w (some c'))
    (hc : s.clients w = some c) (hq : m ∈ c'.callNums ↔ m ∈ c.callNums) (w' : Wsi) :
    t.InProgress w' m ↔ s.InProgress w' m := by
  rw [inProgress_update hclients, hq]
  by_cases hw : w' = w
  · subst hw
    simp [State.InProgress, hc]
  · simp [hw]

theorem inProgress_lost (hclients : t.clients = Function.update s.clients w (some c'))
    (hq : m ∉ c'.callNums) (w' : Wsi) :
    t.InProgress w' m ↔ w' ≠ w ∧ s.InProgress w' m := by
  rw [inProgress_update hclients]
  simp [hq]

theorem replies_append_of_ne {acts : List Action} (hlog : t.log = acts ++ s.log)
    (hacts : ∀ a ∈ acts, Life.answers m a = false) : t.replies m = s.replies m := by
  rw [State.replies, State.replies, hlog, List.filter_append]
  simpa using hacts

/-- What a step that does not take the call away does to it. -/
inductive Fate (s t : State) (m : ℕ) : Prop
  | kept : t.replies m = s.replies m → (∀ w, t.InProgress w m ↔ s.InProgress w m) → Fate s t m
  | answered {w : Wsi} {c : ClientSession} {ctx : PercallCtx} {rc : Int} {data : Option Blob} :
      s.clients w = some c → .call ctx ∈ c.rpcCallQ → ctx.num = m →
      t.replies m = .reply w m (jsonrpcRespUbus ctx.id rc data) :: s.replies m →
      (∀ w', t.InProgress w' m ↔ w' ≠ w ∧ s.InProgress w' m) → Fate s t m

theorem Fate.quiet (acts : List Action) (hc : s.clients w = some c)
    (hclients : t.clients = Function.update s.clients w (some c'))
    (hlog : t.log = acts ++ s.log) (hq : m ∈ c'.callNums ↔ m ∈ c.callNums)
    (hacts : ∀ a ∈ acts, Life.answers m a = false) : Fate s t m :=
  .kept (replies_append_of_ne hlog hacts) (inProgress_same hclients hc hq)

theorem Fate.destroyed {ctx : PercallCtx} {rc : Int} {data : Option Blob} (acts : List Action)
    (hc : s.clients w = some c) (hfind : c.findCall ctx.num = some ctx)
    (hclients : t.clients = Function.update s.clients w (some c'))
    (hq : c'.callNums = c.callNums.filter (· != ctx.num))
    (hlog : t.log = .destroyCall ctx.num :: .reply w ctx.num (jsonrpcRespUbus ctx.id rc data) ::
      (acts ++ s.log))
    (hacts : ∀ a ∈ acts, Life.answers m a = false) : Fate s t m := by
  have hrest : (acts ++ s.log).filter (Life.answers m) = s.replies m := by
    rw [State.replies, List.filter_append]
    simpa using hacts
  by_cases hm : ctx.num = m
  · subst hm
    have hreplies : t.replies ctx.num =
        .reply w ctx.num (jsonrpcRespUbus ctx.id rc data) :: s.replies ctx.num := by
      rw [State.replies, hlog, ← hrest]
      simp [Life.answers]
    exact .answered hc (ClientSession.findCall_num hfind).2 rfl hreplies
      (inProgress_lost hclients (by simp [hq]))
  · refine .kept ?_ (inProgress_same hclients hc ?_)
    · rw [State.replies, hlog, ← hrest]
      simp [Life.answers, hm]
    · rw [hq, List.mem_filter]
      simp [Ne.symm hm]

theorem fate_message {x : ScalarAttrs} {blob : List Attr} (hc : s.clients w = some c)
    (h : MessageEffect s w c x blob t) (hm : m ≠ s.steps) : Fate s t m := by
  have hne : ¬ s.steps = m := fun heq => hm heq.symm
  cases h with
  | unheard _ =>
      exact .kept (replies_append_of_ne (State.log_emit s _) (by simp [Life.answers]))
        fun _ => Iff.rfl
  | answered hs _ =>
      refine .quiet _ hc rfl (State.log_emit s _) ?_ (by simp [Life.answers, hne])
      rw [ClientSession.callNums, hs.rpcCallQ]
      rfl
  | subscribed c' _ hs =>
      refine .quiet _ hc rfl (State.log_emit s _) ?_ (by simp [Life.answers, hne])
      simp [ClientSession.callNums, WsRequest.callNum]
  | unsubscribed c' _ _ hs _ =>
      refine .quiet _ hc rfl (State.log_emit s _) ?_ ?_
      · rw [ClientSession.callNums_unlinkSubs, ClientSession.callNums, hs.rpcCallQ]
        rfl
      · intro a ha
        rcases List.mem_cons.mp ha with rfl | ha
        · simp [Life.answers, hne]
        · rcases List.mem_append.mp ha with ha | ha
          · obtain ⟨elem, -, rfl⟩ := List.mem_map.mp (List.mem_reverse.mp ha)
            rfl
          · rw [List.mem_singleton.mp ha]
            rfl
  | callFailed _ hs =>
      refine .quiet _ hc rfl (State.log_emit s _) ?_ (by simp [Life.answers, hne])
      rw [ClientSession.callNums, hs.rpcCallQ]
      rfl
  | callStarted _ _ hq _ hnum =>
      refine .quiet _ hc rfl (State.log_emit s _) ?_ (by simp [Life.answers])
      simp [ClientSession.callNums, hq, WsRequest.callNum, hnum, hm]

theorem mem_callNums_swept {now : Timespec} (hi : c.Counted) :
    m ∈ (c.rpcCallQ.filter fun r => !isStale now r).filterMap WsRequest.callNum ↔
      m ∈ c.callNums ∧ ∀ ctx, .call ctx ∈ c.rpcCallQ → ctx.num = m →
        isStale now (.call ctx) = false := by
  constructor
  · intro h
    obtain ⟨r, hr, hnum⟩ := List.mem_filterMap.mp h
    obtain ⟨hr, hfresh⟩ := List.mem_filter.mp hr
    cases r with
    | call ctx =>
        obtain rfl := Option.some.inj hnum
        refine ⟨ClientSession.mem_callNums.mpr ⟨ctx, hr, rfl⟩, fun ctx' hctx' hnum' => ?_⟩
        rw [hi.call_inj hctx' hr hnum']
        simpa using hfresh
    | sub n => cases hnum
  · rintro ⟨hmem, hfresh⟩
    obtain ⟨ctx, hctx, hnum⟩ := ClientSession.mem_callNums.mp hmem
    refine List.mem_filterMap.mpr ⟨.call ctx, List.mem_filter.mpr ⟨hctx, ?_⟩, congrArg some hnum⟩
    simp [hfresh ctx hctx hnum]

theorem fate_effect (h : Effect s e t) (hi : s.Counted) (hm : m ≠ s.steps)
    (hno : ∀ w, ¬Removes w m s e) : Fate s t m := by
  cases h with
  | idle => exact .kept rfl fun _ => Iff.rfl
  | @opened w hnone =>
      refine .kept rfl fun w' => ?_
      rw [inProgress_update (s := s) (t := wsuPeerInit s w) rfl]
      by_cases hw : w' = w
      · subst hw
        simp [ClientSession.callNums, State.InProgress, hnone]
      · simp [hw]
  | message hc hmsg => exact fate_message hc hmsg hm
  | callData hc _ _ _ => exact .quiet [_] hc rfl rfl Iff.rfl (by simp [Life.answers])
  | eventData hc _ _ => exact .quiet [] hc rfl rfl Iff.rfl (by simp)
  | callInvoked hc _ _ _ _ _ _ =>
      refine .quiet [_, _] hc rfl rfl ?_ (by simp [Life.answers])
      exact iff_of_eq (congrArg (m ∈ ·) (ClientSession.callNums_updateCall fun _ => rfl))
  | callRefused hc _ _ hfind =>
      exact .destroyed [_] hc hfind rfl ClientSession.callNums_unlinkCall rfl
        (by simp [Life.answers])
  | callLost attempt hc _ _ hfind _ _ _ hattempt =>
      refine .destroyed (attempt ++ [_]) hc hfind rfl ClientSession.callNums_unlinkCall rfl ?_
      rcases hattempt with rfl | ⟨params, rfl⟩
      · simp [Life.answers]
      · simp [Life.answers]
  | eventDelivered hc _ _ _ => exact .quiet [_, _] hc rfl rfl Iff.rfl (by simp [Life.answers])
  | eventDropped hc _ _ => exact .quiet [_] hc rfl rfl Iff.rfl (by simp [Life.answers])
  | @retdata w c num msg hc =>
      refine .quiet [] hc rfl rfl ?_ (by simp)
      rw [ClientSession.callNums_updateCall fun ctx => (wsubusCallOnRetdata_frame msg ctx).1]
  | invokeCompleted hc hfind _ =>
      exact .destroyed [] hc hfind rfl ClientSession.callNums_unlinkCall rfl (by simp)
  | eventStarted _ hc => exact .quiet [] hc rfl rfl Iff.rfl (by simp)
  | eventFailed =>
      exact .kept (replies_append_of_ne (State.log_emit s _) (by simp [Life.answers]))
        fun _ => Iff.rfl
  | @swept w c now hc =>
      refine .quiet _ hc rfl (State.log_emit s _) ?_ ?_
      · refine (mem_callNums_swept (hi w c hc)).trans (and_iff_left fun ctx hctx hnum => ?_)
        rw [← Bool.not_eq_true]
        exact fun hstale => hno w ⟨rfl, c, ctx, hc, hctx, hnum, hstale⟩
      · intro a ha
        obtain ⟨n, rfl⟩ := mem_sweptActions ha
        rfl
  | @closed w c _ hc hd =>
      obtain rfl := wsuPeerDeinit_ok hd
      refine .kept (replies_append_of_ne rfl fun a ha => ?_) fun w' => ?_
      · rcases mem_deinitActions (List.mem_reverse.mp ha) with ⟨n, rfl⟩ | ⟨n, rfl⟩ | ⟨n, rfl, -⟩
        all_goals rfl
      · by_cases hw : w' = w
        · subst hw
          have hnot : ¬s.InProgress w' m := fun hin => hno w' ⟨rfl, hin⟩
          simp [State.InProgress] at hnot ⊢
          exact hnot
        · simp [State.InProgress, hw]

theorem removes_step {cfg : Config} (h : step cfg s e = .ok t) (hi : s.Counted)
    (hr : Removes w m s e) :
    t.replies m = s.replies m ∧ ∀ w', t.InProgress w' m ↔ w' ≠ w ∧ s.InProgress w' m := by
  cases e with
  | percallCleaner w₀ now =>
      obtain ⟨rfl, c, ctx, hc, hctx, hnum, hstale⟩ := hr
      simp only [step, handle, withClient, hc, Except.ok.injEq] at h
      subst h
      refine ⟨replies_append_of_ne (State.log_emit s _) fun a ha => ?_, inProgress_lost rfl ?_⟩
      · obtain ⟨n, rfl⟩ := mem_sweptActions ha
        rfl
      · intro hmem
        have hfresh := ((mem_callNums_swept (hi _ c hc)).mp hmem).2 ctx hctx hnum
        rw [hstale] at hfresh
        cases hfresh
  | closed w₀ =>
      obtain ⟨rfl, c, hc, hmem⟩ := hr
      obtain ⟨t, hd, rfl⟩ := step_closed hc h
      obtain rfl := wsuPeerDeinit_ok hd
      refine ⟨replies_append_of_ne rfl fun a ha => ?_, fun w' => ?_⟩
      · rcases mem_deinitActions (List.mem_reverse.mp ha) with ⟨n, rfl⟩ | ⟨n, rfl⟩ | ⟨n, rfl, -⟩
        all_goals rfl
      · by_cases hw : w' = w₀
        · simp [State.InProgress, hw]
        · simp [State.InProgress, hw]
  | established => cases hr
  | message => cases hr
  | checkData => cases hr
  | checkComplete => cases hr
  | deferral => cases hr
  | invokeData => cases hr
  | invokeComplete => cases hr
  | busEvent => cases hr

theorem Removes.inProgress (h : Removes w m s e) : s.InProgress w m := by
  cases e with
  | percallCleaner w₀ now =>
      obtain ⟨-, c, ctx, hc, hctx, hnum, -⟩ := h
      exact ⟨c, hc, ClientSession.mem_callNums.mpr ⟨ctx, hctx, hnum⟩⟩
  | closed w₀ => exact h.2
  | established => cases h
  | message => cases h
  | checkData => cases h
  | checkComplete => cases h
  | deferral => cases h
  | invokeData => cases h
  | invokeComplete => cases h
  | busEvent => cases h

end

/-! ### The rest of a run -/

/-- What is known of a message that came in, in every state from then on. -/
structure Followed (s : State) (w : Wsi) (m : ℕ) (blob : List Attr) : Prop where
  numbered : s.Numbered
  counted : s.Counted
  tracks : s.Tracks
  earlier : m < s.steps
  received : .received w m blob ∈ s.log

section

variable {cfg : Config} {s t : State} {e : Event} {w : Wsi} {m : ℕ} {blob : List Attr}

theorem Followed.step (hf : Followed s w m blob) (h : step cfg s e = .ok t) :
    Followed t w m blob := by
  have hnumbered := numbered_step hf.numbered h
  have hcounted := counted_step hf.numbered hf.counted h
  obtain ⟨u, hu, rfl⟩ := step_effect h
  exact ⟨hnumbered, hcounted, tracks_effect hu hf.tracks hf.numbered,
    Nat.lt_succ_of_lt hf.earlier, (log_effect hu).subset hf.received⟩

/-- Only the client that sent the message has its call in its queue. -/
theorem Followed.inProgress (hf : Followed s w m blob) {w' : Wsi} (h : s.InProgress w' m) :
    w' = w ∧ s.replies m = [] := by
  obtain ⟨c, hc, hmem⟩ := h
  obtain ⟨ctx, hctx, hnum⟩ := ClientSession.mem_callNums.mp hmem
  obtain ⟨hw, -, hreplies, -⟩ := inProgress_tracked hf.tracks hf.received hc hctx hnum
  exact ⟨hw, hreplies⟩

theorem removedDuring_cons {es : List Event} (h : step cfg s e = .ok t) :
    RemovedDuring cfg w m s (e :: es) ↔ Removes w m s e ∨ RemovedDuring cfg w m t es := by
  constructor
  · rintro ⟨pre, e', post, u, heq, hpre, hr⟩
    cases pre with
    | nil =>
        obtain ⟨rfl, -⟩ := List.cons_eq_cons.mp heq
        obtain rfl : s = u := by simpa [run] using hpre
        exact Or.inl hr
    | cons d pre =>
        obtain ⟨rfl, rfl⟩ := List.cons_eq_cons.mp heq
        rw [run_cons h] at hpre
        exact Or.inr ⟨pre, e', post, u, rfl, hpre, hr⟩
  · rintro (hr | ⟨pre, e', post, u, rfl, hpre, hr⟩)
    · exact ⟨[], e, es, s, rfl, rfl, hr⟩
    · exact ⟨e :: pre, e', post, u, rfl, by rw [run_cons h, hpre], hr⟩

theorem not_removedDuring_nil : ¬RemovedDuring cfg w m s [] := by
  rintro ⟨pre, e, post, u, heq, -⟩
  simp at heq

theorem settled_run {es : List Event} (hf : Followed s w m blob)
    (hnone : ∀ w', ¬s.InProgress w' m) (hrun : run (Server.step cfg) s es = .ok t) :
    t.replies m = s.replies m ∧ (∀ w', ¬t.InProgress w' m) ∧ ¬RemovedDuring cfg w m s es := by
  induction es generalizing s with
  | nil =>
      obtain rfl : s = t := by simpa [run] using hrun
      exact ⟨rfl, hnone, not_removedDuring_nil⟩
  | cons e es ih =>
      obtain ⟨u, hstep, hrest⟩ := run_cons_ok hrun
      have hno : ∀ w', ¬Removes w' m s e := fun w' hr => hnone w' hr.inProgress
      obtain ⟨hreplies, hnone'⟩ : u.replies m = s.replies m ∧ ∀ w', ¬u.InProgress w' m := by
        obtain ⟨v, hv, rfl⟩ := step_effect hstep
        cases fate_effect hv hf.counted hf.earlier.ne hno with
        | kept hreplies hin => exact ⟨hreplies, fun w' h => hnone w' ((hin w').mp h)⟩
        | answered hc hctx hnum =>
            exact absurd ⟨_, hc, ClientSession.mem_callNums.mpr ⟨_, hctx, hnum⟩⟩ (hnone _)
      obtain ⟨h₁, h₂, h₃⟩ := ih (hf.step hstep) hnone' hrest
      refine ⟨h₁.trans hreplies, h₂, ?_⟩
      rw [removedDuring_cons hstep]
      exact fun h => h.elim (hno w) h₃

/-- A call in the queue stays there, or is taken away, or is answered. -/
theorem outcome_run {es : List Event} {x : ScalarAttrs} {req : UbusrpcBlob}
    (hf : Followed s w m blob) (hreq : parseRequest x blob = some (.ok req))
    (hin : s.InProgress w m) (hrun : run (Server.step cfg) s es = .ok t) :
    Outcome (RemovedDuring cfg w m s es) t w m x blob := by
  induction es generalizing s with
  | nil =>
      obtain rfl : s = t := by simpa [run] using hrun
      exact .inProgress hin (hf.inProgress hin).2 not_removedDuring_nil
  | cons e es ih =>
      obtain ⟨u, hstep, hrest⟩ := run_cons_ok hrun
      have hf' := hf.step hstep
      rw [removedDuring_cons hstep]
      by_cases hr : Removes w m s e
      · obtain ⟨hreplies, hgone⟩ := removes_step hstep hf.counted hr
        have hnone : ∀ w', ¬u.InProgress w' m :=
          fun w' h => ((hgone w').mp h).1 (hf.inProgress ((hgone w').mp h).2).1
        obtain ⟨h₁, h₂, -⟩ := settled_run hf' hnone hrest
        refine .removed (Or.inl hr) ?_ h₂
        rw [h₁, hreplies, (hf.inProgress hin).2]
      · have hno : ∀ w', ¬Removes w' m s e := by
          intro w' hr'
          obtain rfl := (hf.inProgress hr'.inProgress).1
          exact hr hr'
        simp only [hr, false_or]
        obtain ⟨v, hv, rfl⟩ := step_effect hstep
        cases fate_effect hv hf.counted hf.earlier.ne hno with
        | kept _ hkeep => exact ih hf' ((hkeep w).mpr hin) hrest
        | @answered w' c ctx rc data hc hctx hnum hreplies hgone =>
            obtain ⟨rfl, hid, hnil, -⟩ :=
              inProgress_tracked hf.tracks hf.received hc hctx hnum
            have hnone : ∀ w'', ¬v.InProgress w'' m :=
              fun w'' h => ((hgone w'').mp h).1 (hf.inProgress ((hgone w'').mp h).2).1
            obtain ⟨h₁, h₂, h₃⟩ := settled_run hf' hnone hrest
            refine .answered (h₁.trans ?_) (Or.inr ⟨_, rc, data, hreq, rfl⟩) h₂ h₃
            rw [hnil, hid] at hreplies
            exact hreplies

end

end Owsd.Server
