import Owsd.Server.Faults
import Owsd.Server.Queues

/-!
The call contexts behind pending access checks.

A call waiting for its access check is in both queues of its session. All
paths that destroy a call undo both links, except the sweeper, which does not
look at the queue of checks: after it has removed a call whose check is still
pending, the check refers to a destroyed context. As long as no tick of the
sweeper hits such a call, the references hold in every run.
-/

namespace Owsd.Server

open Rpc

/-- Every pending check that was started for a call finds the call in the
queue of its own client. -/
def State.ChecksLive (s : State) : Prop :=
  ∀ w c, s.clients w = some c → ∀ k ∈ c.accessCheckQ, ∀ call, k.ctx = .call call →
    (c.findCall call).isSome

/-- A tick of the sweeper removes no call whose check is pending. -/
def SparesPending (s : State) : Event → Prop
  | .percallCleaner w now =>
      ∀ c, s.clients w = some c → ∀ k ∈ c.accessCheckQ, ∀ ctx, k.ctx = .call ctx.num →
        .call ctx ∈ c.rpcCallQ → isStale now (.call ctx) = false
  | _ => True

/-! ### The invariant of a session -/

/-- The call of a pending check is in the queue and not yet invoked. -/
structure ClientSession.Linked (c : ClientSession) : Prop where
  live : ∀ k ∈ c.accessCheckQ, ∀ call, k.ctx = .call call →
    ∃ ctx, .call ctx ∈ c.rpcCallQ ∧ ctx.num = call
  waiting : ∀ k ∈ c.accessCheckQ, ∀ ctx, k.ctx = .call ctx.num → .call ctx ∈ c.rpcCallQ →
    ctx.invokeReq = false

namespace ClientSession.Linked

variable {c c' : ClientSession} {n : ℕ}

theorem of_sameQueues (h : c.Linked) (hs : SameQueues c c') : c'.Linked where
  live := by
    rw [hs.accessCheckQ, hs.rpcCallQ]
    exact h.live
  waiting := by
    rw [hs.accessCheckQ, hs.rpcCallQ]
    exact h.waiting

/-- The check of a call is over, and the call is invoked or destroyed: only
the calls of other checks matter from here on. -/
theorem complete (h : c.Linked) (hn : c.Numbered n) {k : AccessCheck} {call : ℕ}
    (hk : k ∈ c.accessCheckQ) (hctx : k.ctx = .call call)
    (hchecks : c'.accessCheckQ = (c.unlinkCheck k.num).accessCheckQ)
    (hcalls : ∀ ctx, ctx.num ≠ call → (.call ctx ∈ c'.rpcCallQ ↔ .call ctx ∈ c.rpcCallQ)) :
    c'.Linked := by
  have hother : ∀ k' ∈ c'.accessCheckQ, k' ∈ c.accessCheckQ ∧
      ∀ m, k'.ctx = .call m → m ≠ call := by
    intro k' hk'
    rw [hchecks, mem_unlinkCheck] at hk'
    refine ⟨hk'.1, fun m hm hmc => hk'.2 ?_⟩
    rw [hn.ofCall k' hk'.1 m hm, hmc, hn.ofCall k hk call hctx]
  constructor
  · intro k hk m hm
    obtain ⟨ctx, hctx, rfl⟩ := h.live k (hother k hk).1 m hm
    exact ⟨ctx, (hcalls ctx ((hother k hk).2 _ hm)).mpr hctx, rfl⟩
  · intro k hk ctx hm hctx
    exact h.waiting k (hother k hk).1 ctx hm
      ((hcalls ctx ((hother k hk).2 _ hm)).mp hctx)

theorem fewer_checks (h : c.Linked) (hq : c'.rpcCallQ = c.rpcCallQ)
    (hchecks : ∀ k ∈ c'.accessCheckQ, ∀ m, k.ctx = .call m →
      ∃ k' ∈ c.accessCheckQ, k'.ctx = .call m) : c'.Linked := by
  constructor
  · intro k hk m hm
    obtain ⟨k', hk', hm'⟩ := hchecks k hk m hm
    rw [hq]
    exact h.live k' hk' m hm'
  · intro k hk ctx hm hctx
    obtain ⟨k', hk', hm'⟩ := hchecks k hk _ hm
    rw [hq] at hctx
    exact h.waiting k' hk' ctx hm' hctx

theorem updateCheck (h : c.Linked) (m : ℕ) (b : Bool) : (c.updateCheck m b).Linked := by
  refine h.fewer_checks rfl fun k hk call hcall => ?_
  obtain ⟨k', hk', -, hctx⟩ := exists_of_mem_updateCheck hk
  exact ⟨k', hk', hctx.trans hcall⟩

theorem unlinkCheck (h : c.Linked) (m : ℕ) : (c.unlinkCheck m).Linked :=
  h.fewer_checks rfl fun k hk _ hcall => ⟨k, (mem_unlinkCheck.mp hk).1, hcall⟩

/-- Calls may be written to, if neither their numbers nor their state
change. -/
theorem updateCall (h : c.Linked) {f : PercallCtx → PercallCtx}
    (hnum : ∀ ctx, (f ctx).num = ctx.num) (hinv : ∀ ctx, (f ctx).invokeReq = ctx.invokeReq) :
    (c.updateCall n f).Linked := by
  have hf : ∀ ctx : PercallCtx, ∀ ctx', ctx' = (if ctx.num = n then f ctx else ctx) →
      ctx'.num = ctx.num ∧ ctx'.invokeReq = ctx.invokeReq := by
    rintro ctx ctx' rfl
    split
    · exact ⟨hnum ctx, hinv ctx⟩
    · exact ⟨rfl, rfl⟩
  constructor
  · intro k hk m hm
    obtain ⟨ctx, hctx, rfl⟩ := h.live k hk m hm
    exact ⟨_, call_mem_updateCall.mpr ⟨ctx, hctx, rfl⟩, (hf ctx _ rfl).1⟩
  · intro k hk ctx hm hctx
    obtain ⟨ctx', hctx', heq⟩ := call_mem_updateCall.mp hctx
    rw [(hf ctx' ctx heq).2]
    exact h.waiting k hk ctx' (by rw [hm, (hf ctx' ctx heq).1]) hctx'

/-- An invoked call may be destroyed, since no check is pending for it. -/
theorem destroyInvoked (h : c.Linked) {ctx : PercallCtx} (hctx : .call ctx ∈ c.rpcCallQ)
    (hinv : ctx.invokeReq = true) : (c.unlinkCall ctx.num).percallCtxDestroy.Linked := by
  constructor
  · intro k hk m hm
    obtain ⟨ctx', hctx', rfl⟩ := h.live k hk m hm
    refine ⟨ctx', call_mem_unlinkCall.mpr ⟨hctx', fun heq => ?_⟩, rfl⟩
    have := h.waiting k hk ctx (by rw [hm, heq]) hctx
    simp [hinv] at this
  · intro k hk ctx' hm hctx'
    exact h.waiting k hk ctx' hm (call_mem_unlinkCall.mp hctx').1

end ClientSession.Linked

def State.Linked (s : State) : Prop :=
  ∀ w c, s.clients w = some c → c.Linked

theorem State.Linked.checksLive {s : State} (h : s.Linked) : s.ChecksLive :=
  fun w c hc k hk call hcall =>
    ClientSession.findCall_isSome_iff.mpr ((h w c hc).live k hk call hcall)

/-! ### Steps and runs -/

theorem linked_message {s t : State} {w : Wsi} {c : ClientSession} {x : ScalarAttrs}
    {blob : List Attr} (hc : s.clients w = some c)
    (h : MessageEffect s w c x blob t) (hi : s.Linked) (hn : s.Numbered) : t.Linked := by
  have hl := hi w c hc
  have hold : ∀ w' c', w' ≠ w → s.clients w' = some c' → c'.Linked :=
    fun w' c' _ hc' => hi w' c' hc'
  cases h with
  | unheard => exact fun w' c' hc' => hi w' c' hc'
  | answered hs _ => exact forall_update hold (hl.of_sameQueues hs)
  | subscribed _ _ hs =>
      refine forall_update hold ⟨?_, ?_⟩
      · intro k hk m hm
        obtain ⟨ctx, hctx, hnum⟩ := hl.live k (hs.accessCheckQ ▸ hk) m hm
        exact ⟨ctx, List.mem_append_left _ hctx, hnum⟩
      · intro k hk ctx hm hctx
        exact hl.waiting k (hs.accessCheckQ ▸ hk) ctx hm (by simpa using hctx)
  | unsubscribed _ _ _ hs _ =>
      have hl' := hl.of_sameQueues hs
      refine forall_update hold ⟨?_, ?_⟩
      · intro k hk m hm
        obtain ⟨ctx, hctx, hnum⟩ := hl'.live k hk m hm
        exact ⟨ctx, ClientSession.call_mem_unlinkSubs.mpr hctx, hnum⟩
      · intro k hk ctx hm hctx
        exact hl'.waiting k hk ctx hm (ClientSession.call_mem_unlinkSubs.mp hctx)
  | callFailed _ hs => exact forall_update hold (hl.of_sameQueues hs)
  | @callStarted c' args ctx k _ _ hq hchecks hnum _ hinv _ _ _ hknum hkctx _ =>
      have hsplit : ∀ k' ∈ c'.accessCheckQ, k' ∈ c.accessCheckQ ∨ k' = k := by
        simp [hchecks]
      refine forall_update hold ⟨?_, ?_⟩
      · intro k' hk' m hm
        rw [hq]
        rcases hsplit k' hk' with hk' | rfl
        · obtain ⟨ctx', hctx', hnum'⟩ := hl.live k' hk' m hm
          exact ⟨ctx', List.mem_append_left _ hctx', hnum'⟩
        · refine ⟨ctx, by simp, ?_⟩
          rw [hkctx] at hm
          cases hm
          exact hnum
      · intro k' hk' ctx' hm hctx'
        rw [hq, List.mem_append, List.mem_singleton] at hctx'
        rcases hctx' with hctx' | heq
        · rcases hsplit k' hk' with hk' | rfl
          · exact hl.waiting k' hk' ctx' hm hctx'
          · -- An older call cannot have the number of the step.
            have hold := (hn w c hc).calls ctx' hctx'
            have hnew : s.steps = ctx'.num := by simpa [hkctx] using hm
            omega
        · cases heq
          exact hinv.1

theorem linked_effect {s t : State} {e : Event} (h : Effect s e t) (hi : s.Linked)
    (hn : s.Numbered) (hg : SparesPending s e) : t.Linked := by
  have hold : ∀ w : Wsi, ∀ w' c', w' ≠ w → s.clients w' = some c' → c'.Linked :=
    fun _ w' c' _ hc' => hi w' c' hc'
  cases h with
  | idle => exact hi
  | opened _ =>
      refine forall_update (hold _) ⟨?_, ?_⟩
      all_goals simp
  | message hc hm => exact linked_message hc hm hi hn
  | callData hc _ _ _ => exact forall_update (hold _) ((hi _ _ hc).updateCheck _ _)
  | eventData hc _ _ => exact forall_update (hold _) ((hi _ _ hc).updateCheck _ _)
  | callInvoked hc hk hctx _ _ _ _ =>
      refine forall_update (hold _) ((hi _ _ hc).complete (hn _ _ hc) hk hctx rfl ?_)
      exact fun ctx' hne => ClientSession.call_mem_updateCall_of_ne (fun _ => rfl) hne
  | callRefused hc hk hctx _ =>
      refine forall_update (hold _) ((hi _ _ hc).complete (hn _ _ hc) hk hctx rfl ?_)
      exact fun ctx' hne => by simp [hne]
  | callLost _ hc hk hctx _ _ _ _ _ =>
      refine forall_update (hold _) ((hi _ _ hc).complete (hn _ _ hc) hk hctx rfl ?_)
      exact fun ctx' hne => by simp [hne]
  | eventDelivered hc _ _ _ => exact forall_update (hold _) ((hi _ _ hc).unlinkCheck _)
  | eventDropped hc _ _ => exact forall_update (hold _) ((hi _ _ hc).unlinkCheck _)
  | @retdata w c num msg hc =>
      refine forall_update (hold _) ((hi _ _ hc).updateCall ?_ ?_)
      · exact fun ctx => (wsubusCallOnRetdata_frame msg ctx).1
      · exact fun ctx => (wsubusCallOnRetdata_frame msg ctx).2.2.2
  | invokeCompleted hc hfind hinv =>
      refine forall_update (hold _) ((hi _ _ hc).destroyInvoked ?_ hinv)
      exact (ClientSession.findCall_num hfind).2
  | eventStarted _ hc =>
      refine forall_update (hold _) ((hi _ _ hc).fewer_checks rfl ?_)
      intro k hk m hm
      rw [List.mem_append, List.mem_singleton] at hk
      rcases hk with hk | rfl
      · exact ⟨k, hk, hm⟩
      · cases hm
  | eventFailed => exact fun w c hc => hi w c hc
  | @swept w c now hc =>
      refine forall_update (hold _) ⟨?_, ?_⟩
      · intro k hk m hm
        obtain ⟨ctx, hctx, rfl⟩ := (hi w c hc).live k hk m hm
        have hspared := hg c hc k hk ctx hm hctx
        exact ⟨ctx, List.mem_filter.mpr ⟨hctx, by simp [hspared]⟩, rfl⟩
      · intro k hk ctx hm hctx
        exact (hi w c hc).waiting k hk ctx hm (List.mem_filter.mp hctx).1
  | closed hc hd =>
      obtain rfl := wsuPeerDeinit_ok hd
      exact forall_drop (hold _)

/-- The invariant of guarded runs. -/
def State.Sound (s : State) : Prop :=
  s.Numbered ∧ s.Linked

theorem sound_step {cfg : Config} {s s' : State} {e : Event} (hi : s.Sound)
    (hg : SparesPending s e) (h : step cfg s e = .ok s') : s'.Sound := by
  refine ⟨numbered_step hi.1 h, ?_⟩
  obtain ⟨t, ht, rfl⟩ := step_effect h
  exact fun w c hc => linked_effect ht hi.2 hi.1 hg w c hc

theorem sound_run {cfg : Config} {n : ℕ} {es : List Event} {s : State}
    (hg : Guarded (step cfg) SparesPending (init n) es)
    (hrun : run (step cfg) (init n) es = .ok s) : s.Sound := by
  refine run_invariant _ (fun _ _ _ hi hg h => sound_step hi hg h) ⟨numbered_init n, ?_⟩ hg hrun
  intro w c hc
  cases hc

/-- In a state whose checks are live no handler uses a destroyed call context
or a destroyed link. -/
theorem no_destroyedCall {s : State} {e : Event} {f : Fault} (hi : s.ChecksLive)
    (h : Faulty s e f) : f ≠ .destroyedCall ∧ f ≠ .destroyedCheck := by
  cases h with
  | startCheck hf => rcases hf with rfl | rfl <;> simp
  | scalarAttrs => simp
  | absentId => simp
  | typeOutOfRange => simp
  | destroyedCall hc hk hctx hnone =>
      have := hi _ _ hc _ hk _ hctx
      simp [hnone] at this
  | destroyedSub => simp
  | destroyedCheck hc hk hctx hnone =>
      have := hi _ _ hc _ hk _ hctx
      simp [hnone] at this

/-- In every run whose sweeper ticks spare the calls with a pending check,
the checks are live in every state reached, and no check completes on, and no
connection is closed over, a destroyed call context. -/
theorem checksLive_run {cfg : Config} {n : ℕ} {es : List Event}
    (hg : Guarded (step cfg) SparesPending (init n) es) :
    (∀ s, run (step cfg) (init n) es = .ok s → s.ChecksLive) ∧
      run (step cfg) (init n) es ≠ .error .destroyedCall ∧
      run (step cfg) (init n) es ≠ .error .destroyedCheck := by
  have hfault : ∀ f, run (step cfg) (init n) es = .error f →
      f ≠ .destroyedCall ∧ f ≠ .destroyedCheck := by
    intro f hf
    obtain ⟨pre, e, post, t, -, hgpre, hpre, -, hstep⟩ := run_error hg hf
    exact no_destroyedCall (sound_run hgpre hpre).2.checksLive (step_fault hstep)
  refine ⟨fun s hs => (sound_run hg hs).2.checksLive, fun h => ?_, fun h => ?_⟩
  · exact (hfault _ h).1 rfl
  · exact (hfault _ h).2 rfl

/-- A tick after five seconds spares the call, which is granted later. -/
theorem checksLive_run_early_tick :
    Guarded (step plainConfig) SparesPending (init 512)
      [.established 0, sends callMessage, .percallCleaner 0 ⟨5, 0⟩,
        .checkComplete 0 1 0 willingInvoke] ∧
    run (step plainConfig) (init 512)
      [.established 0, sends callMessage, .percallCleaner 0 ⟨5, 0⟩,
        .checkComplete 0 1 0 willingInvoke] ≠ .error .destroyedCall := by
  have hg : Guarded (step plainConfig) SparesPending (init 512)
      [.established 0, sends callMessage, .percallCleaner 0 ⟨5, 0⟩,
        .checkComplete 0 1 0 willingInvoke] := by
    refine .cons trivial rfl (.cons trivial rfl (.cons ?_ rfl (.cons trivial rfl trivial)))
    intro c hc k hk ctx hctx hmem
    cases hc
    cases List.mem_singleton.mp hmem
    decide
  exact ⟨hg, (checksLive_run hg).2.1⟩

/-- After ten seconds the sweeper removes a call whose check is pending. The
check stays in the queue without its call, and when rpcd grants it, the
handler runs on the destroyed context. -/
theorem sweeper_strands_check :
    (∃ s, run (step plainConfig) (init 512)
      [.established 0, sends callMessage, .percallCleaner 0 ⟨10, 0⟩] = .ok s ∧ ¬ s.ChecksLive) ∧
    run (step plainConfig) (init 512)
      [.established 0, sends callMessage, .percallCleaner 0 ⟨10, 0⟩,
        .checkComplete 0 1 0 willingInvoke] = .error .destroyedCall := by
  refine ⟨⟨_, rfl, fun h => ?_⟩, rfl⟩
  have hlive := h 0 _ rfl ⟨1, .call 1, true, false⟩ (List.mem_singleton.mpr rfl) 1 rfl
  exact absurd hlive (by decide)

end Owsd.Server
