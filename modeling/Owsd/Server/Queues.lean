import Owsd.Server.Effects

/-!
The two queues of a session under the updates the handlers make, and the
numbering of their elements.

Membership lemmas say what each update leaves in a queue. `Numbered` is the
invariant behind the use of step numbers as references: everything queued was
created in an earlier step, no two pending checks share a number, and the
check of a call has the number of the call.
-/

namespace Owsd.Server

open Rpc

namespace ClientSession

variable {c c' : ClientSession} {ctx : PercallCtx} {n : ℕ}

/-! ### Membership -/

theorem findCall_isSome_iff :
    (c.findCall n).isSome ↔ ∃ ctx, .call ctx ∈ c.rpcCallQ ∧ ctx.num = n := by
  rw [findCall, List.isSome_findSome?, List.any_eq_true]
  constructor
  · rintro ⟨r, hr, hsome⟩
    cases r with
    | call ctx =>
        by_cases hn : ctx.num = n
        · exact ⟨ctx, hr, hn⟩
        · simp [hn] at hsome
    | sub m => simp at hsome
  · rintro ⟨ctx, hr, hn⟩
    exact ⟨.call ctx, hr, by simp [hn]⟩

@[simp] theorem call_mem_unlinkCall :
    .call ctx ∈ (c.unlinkCall n).rpcCallQ ↔ .call ctx ∈ c.rpcCallQ ∧ ctx.num ≠ n := by
  simp [unlinkCall]

@[simp] theorem sub_mem_unlinkCall {m : ℕ} :
    .sub m ∈ (c.unlinkCall n).rpcCallQ ↔ .sub m ∈ c.rpcCallQ := by
  simp [unlinkCall]

@[simp] theorem call_mem_unlinkSubs {gone : List SubInfo} :
    .call ctx ∈ (c.unlinkSubs gone).rpcCallQ ↔ .call ctx ∈ c.rpcCallQ := by
  simp [unlinkSubs]

theorem sub_mem_unlinkSubs {gone : List SubInfo} {m : ℕ} :
    .sub m ∈ (c.unlinkSubs gone).rpcCallQ ↔
      .sub m ∈ c.rpcCallQ ∧ ∀ info ∈ gone, info.num ≠ m := by
  simp [unlinkSubs]

theorem call_mem_updateCall {f : PercallCtx → PercallCtx} :
    .call ctx ∈ (c.updateCall n f).rpcCallQ ↔
      ∃ ctx', .call ctx' ∈ c.rpcCallQ ∧ ctx = if ctx'.num = n then f ctx' else ctx' := by
  simp only [updateCall, List.mem_map]
  constructor
  · rintro ⟨r, hr, heq⟩
    cases r with
    | call ctx' =>
        refine ⟨ctx', hr, ?_⟩
        by_cases hn : ctx'.num = n
        · simpa [hn] using heq.symm
        · simpa [hn] using heq.symm
    | sub m => simp at heq
  · rintro ⟨ctx', hr, rfl⟩
    refine ⟨.call ctx', hr, ?_⟩
    by_cases hn : ctx'.num = n
    · simp [hn]
    · simp [hn]

/-- Writing to one call leaves the others in the queue as they are. -/
theorem call_mem_updateCall_of_ne {f : PercallCtx → PercallCtx}
    (hf : ∀ ctx, (f ctx).num = ctx.num) (hne : ctx.num ≠ n) :
    .call ctx ∈ (c.updateCall n f).rpcCallQ ↔ .call ctx ∈ c.rpcCallQ := by
  rw [call_mem_updateCall]
  constructor
  · rintro ⟨ctx', hctx', rfl⟩
    split at hne
    · next hn => exact absurd ((hf ctx').trans hn) hne
    · next hn =>
      rw [if_neg hn]
      exact hctx'
  · intro hctx
    exact ⟨ctx, hctx, by rw [if_neg hne]⟩

@[simp] theorem sub_mem_updateCall {f : PercallCtx → PercallCtx} {m : ℕ} :
    .sub m ∈ (c.updateCall n f).rpcCallQ ↔ .sub m ∈ c.rpcCallQ := by
  simp only [updateCall, List.mem_map]
  constructor
  · rintro ⟨r, hr, heq⟩
    cases r with
    | call ctx' =>
        by_cases hn : ctx'.num = n
        · simp [hn] at heq
        · simp [hn] at heq
    | sub k =>
        obtain rfl : k = m := by simpa using heq
        exact hr
  · intro hr
    exact ⟨.sub m, hr, rfl⟩

@[simp] theorem mem_unlinkCheck {k : AccessCheck} :
    k ∈ (c.unlinkCheck n).accessCheckQ ↔ k ∈ c.accessCheckQ ∧ k.num ≠ n := by
  simp [unlinkCheck]

theorem mem_updateCheck {k : AccessCheck} {b : Bool} :
    k ∈ (c.updateCheck n b).accessCheckQ ↔
      ∃ k' ∈ c.accessCheckQ, k = if k'.num = n then { k' with result := b } else k' := by
  simp only [updateCheck, List.mem_map, eq_comm]

/-- A result is written to a check without changing what it is for. -/
theorem exists_of_mem_updateCheck {k : AccessCheck} {b : Bool}
    (hk : k ∈ (c.updateCheck n b).accessCheckQ) :
    ∃ k' ∈ c.accessCheckQ, k'.num = k.num ∧ k'.ctx = k.ctx := by
  obtain ⟨k', hk', rfl⟩ := mem_updateCheck.mp hk
  refine ⟨k', hk', ?_⟩
  split
  · exact ⟨rfl, rfl⟩
  · exact ⟨rfl, rfl⟩

/-! Each update leaves the other queue alone. -/

@[simp] theorem rpcCallQ_unlinkCheck : (c.unlinkCheck n).rpcCallQ = c.rpcCallQ := rfl

@[simp] theorem rpcCallQ_percallCtxDestroy : c.percallCtxDestroy.rpcCallQ = c.rpcCallQ := rfl

end ClientSession

theorem wsubusCallOnRetdata_frame (msg : Option Blob) (ctx : PercallCtx) :
    (wsubusCallOnRetdata msg ctx).num = ctx.num ∧ (wsubusCallOnRetdata msg ctx).id = ctx.id ∧
      (wsubusCallOnRetdata msg ctx).callArgs = ctx.callArgs ∧
      (wsubusCallOnRetdata msg ctx).invokeReq = ctx.invokeReq := by
  cases msg with
  | none => exact ⟨rfl, rfl, rfl, rfl⟩
  | some msg => exact ⟨rfl, rfl, rfl, rfl⟩

theorem mem_deinitActions {c : ClientSession} {a : Action} (h : a ∈ deinitActions c) :
    (∃ n, a = .destroyNotif n) ∨ (∃ n, a = .destroyCall n) ∨
      ∃ n, a = .destroySub n ∧ .sub n ∈ c.rpcCallQ := by
  rcases List.mem_append.mp h with h | h
  · obtain ⟨k, -, hk⟩ := List.mem_filterMap.mp h
    split at hk
    · cases hk
    · cases hk
      exact Or.inl ⟨k.num, rfl⟩
  · obtain ⟨r, hr, rfl⟩ := List.mem_map.mp h
    cases r with
    | call ctx => exact Or.inr (Or.inl ⟨ctx.num, rfl⟩)
    | sub n => exact Or.inr (Or.inr ⟨n, rfl, hr⟩)

theorem mem_sweptActions {c : ClientSession} {now : Timespec} {a : Action}
    (h : a ∈ ((c.rpcCallQ.filter (isStale now)).map fun
      | .call ctx => Action.destroyCall ctx.num
      | .sub n => .destroySub n).reverse) : ∃ n, a = .destroyCall n := by
  obtain ⟨r, hr, rfl⟩ := List.mem_map.mp (List.mem_reverse.mp h)
  cases r with
  | call ctx => exact ⟨ctx.num, rfl⟩
  | sub n => simp [isStale] at hr

/-! ### All sessions at once -/

/-- What holds of every session holds after one of them is replaced by a
session it holds of. -/
theorem forall_update {clients : Wsi → Option ClientSession} {P : Wsi → ClientSession → Prop}
    {w : Wsi} {c : ClientSession} (h : ∀ w' c', w' ≠ w → clients w' = some c' → P w' c')
    (hw : P w c) :
    ∀ w' c', Function.update clients w (some c) w' = some c' → P w' c' := by
  intro w' c' hc'
  by_cases hww : w' = w
  · subst hww
    obtain rfl : c = c' := by simpa using hc'
    exact hw
  · exact h w' c' hww (by simpa [hww] using hc')

theorem forall_drop {clients : Wsi → Option ClientSession} {P : Wsi → ClientSession → Prop}
    {w : Wsi} (h : ∀ w' c', w' ≠ w → clients w' = some c' → P w' c') :
    ∀ w' c', Function.update clients w none w' = some c' → P w' c' := by
  intro w' c' hc'
  by_cases hww : w' = w
  · subst hww
    simp at hc'
  · exact h w' c' hww (by simpa [hww] using hc')

/-! ### Numbers -/

/-- The queues of a session after `n` steps. -/
structure ClientSession.Numbered (n : ℕ) (c : ClientSession) : Prop where
  calls : ∀ ctx, .call ctx ∈ c.rpcCallQ → ctx.num < n
  subs : ∀ m, .sub m ∈ c.rpcCallQ → m < n
  checks : ∀ k ∈ c.accessCheckQ, k.num < n
  distinct : ∀ k ∈ c.accessCheckQ, ∀ k' ∈ c.accessCheckQ, k.num = k'.num → k = k'
  ofCall : ∀ k ∈ c.accessCheckQ, ∀ m, k.ctx = .call m → k.num = m

namespace ClientSession.Numbered

variable {c c' : ClientSession} {n : ℕ}

theorem succ (h : c.Numbered n) : c.Numbered (n + 1) where
  calls := fun ctx hctx => Nat.lt_succ_of_lt (h.calls ctx hctx)
  subs := fun m hm => Nat.lt_succ_of_lt (h.subs m hm)
  checks := fun k hk => Nat.lt_succ_of_lt (h.checks k hk)
  distinct := h.distinct
  ofCall := h.ofCall

/-- Taking elements out, and writing to calls without renumbering them, keeps
the numbering. -/
theorem shrink (h : c.Numbered n)
    (hcalls : ∀ ctx, .call ctx ∈ c'.rpcCallQ → ∃ ctx', .call ctx' ∈ c.rpcCallQ ∧
      ctx.num = ctx'.num)
    (hsubs : ∀ m, .sub m ∈ c'.rpcCallQ → .sub m ∈ c.rpcCallQ)
    (hchecks : ∀ k ∈ c'.accessCheckQ, k ∈ c.accessCheckQ) : c'.Numbered n where
  calls := fun ctx hctx => by
    obtain ⟨ctx', hctx', hnum⟩ := hcalls ctx hctx
    rw [hnum]
    exact h.calls ctx' hctx'
  subs := fun m hm => h.subs m (hsubs m hm)
  checks := fun k hk => h.checks k (hchecks k hk)
  distinct := fun k hk k' hk' => h.distinct k (hchecks k hk) k' (hchecks k' hk')
  ofCall := fun k hk => h.ofCall k (hchecks k hk)

theorem unlinkCheck (h : c.Numbered n) (m : ℕ) : (c.unlinkCheck m).Numbered n :=
  h.shrink (fun ctx hctx => ⟨ctx, hctx, rfl⟩) (fun _ hm => hm)
    (fun _ hk => (mem_unlinkCheck.mp hk).1)

theorem destroyCall (h : c.Numbered n) (m : ℕ) :
    (c.unlinkCall m).percallCtxDestroy.Numbered n :=
  h.shrink (fun ctx hctx => ⟨ctx, (call_mem_unlinkCall.mp hctx).1, rfl⟩)
    (fun _ hm => sub_mem_unlinkCall.mp hm) (fun _ hk => hk)

theorem updateCall (h : c.Numbered n) (m : ℕ) {f : PercallCtx → PercallCtx}
    (hf : ∀ ctx, (f ctx).num = ctx.num) : (c.updateCall m f).Numbered n := by
  refine h.shrink ?_ (fun _ hm => sub_mem_updateCall.mp hm) (fun _ hk => hk)
  intro ctx hctx
  obtain ⟨ctx', hctx', rfl⟩ := call_mem_updateCall.mp hctx
  refine ⟨ctx', hctx', ?_⟩
  split
  · exact hf ctx'
  · rfl

theorem of_sameQueues (h : c.Numbered n) (hs : SameQueues c c') : c'.Numbered n :=
  h.shrink (fun ctx hctx => ⟨ctx, hs.rpcCallQ ▸ hctx, rfl⟩) (fun _ hm => hs.rpcCallQ ▸ hm)
    (fun _ hk => hs.accessCheckQ ▸ hk)

theorem append_check (h : c.Numbered n) {k : AccessCheck} (hq : c'.rpcCallQ = c.rpcCallQ)
    (hc : c'.accessCheckQ = c.accessCheckQ ++ [k]) (hn : k.num = n)
    (hcall : ∀ m, k.ctx = .call m → m = n) : c'.Numbered (n + 1) where
  calls := fun ctx hctx => Nat.lt_succ_of_lt (h.calls ctx (hq ▸ hctx))
  subs := fun m hm => Nat.lt_succ_of_lt (h.subs m (hq ▸ hm))
  checks := fun k' hk' => by
    rw [hc, List.mem_append, List.mem_singleton] at hk'
    rcases hk' with hk' | rfl
    · exact Nat.lt_succ_of_lt (h.checks k' hk')
    · omega
  distinct := fun a ha b hb hab => by
    rw [hc, List.mem_append, List.mem_singleton] at ha hb
    rcases ha with ha | rfl
    · rcases hb with hb | rfl
      · exact h.distinct a ha b hb hab
      · have := h.checks a ha
        omega
    · rcases hb with hb | rfl
      · have := h.checks b hb
        omega
      · rfl
  ofCall := fun k' hk' m hm => by
    rw [hc, List.mem_append, List.mem_singleton] at hk'
    rcases hk' with hk' | rfl
    · exact h.ofCall k' hk' m hm
    · rw [hn, hcall m hm]

/-- A new element of the call queue takes the number of the step. -/
theorem append_request (h : c.Numbered (n + 1)) {r : WsRequest}
    (hq : c'.rpcCallQ = c.rpcCallQ ++ [r]) (hc : c'.accessCheckQ = c.accessCheckQ)
    (hcall : ∀ ctx, r = .call ctx → ctx.num = n) (hsub : ∀ m, r = .sub m → m = n) :
    c'.Numbered (n + 1) where
  calls := fun ctx hctx => by
    rw [hq, List.mem_append, List.mem_singleton] at hctx
    rcases hctx with hctx | heq
    · exact h.calls ctx hctx
    · rw [hcall ctx heq.symm]
      omega
  subs := fun m hm => by
    rw [hq, List.mem_append, List.mem_singleton] at hm
    rcases hm with hm | heq
    · exact h.subs m hm
    · rw [hsub m heq.symm]
      omega
  checks := fun k hk => h.checks k (hc ▸ hk)
  distinct := fun k hk k' hk' => h.distinct k (hc ▸ hk) k' (hc ▸ hk')
  ofCall := fun k hk => h.ofCall k (hc ▸ hk)

theorem updateCheck (h : c.Numbered n) (m : ℕ) (b : Bool) :
    (c.updateCheck m b).Numbered n where
  calls := h.calls
  subs := h.subs
  checks := fun k hk => by
    obtain ⟨k', hk', hnum, -⟩ := ClientSession.exists_of_mem_updateCheck hk
    rw [← hnum]
    exact h.checks k' hk'
  distinct := fun a ha b' hb hab => by
    obtain ⟨a', ha', rfl⟩ := ClientSession.mem_updateCheck.mp ha
    obtain ⟨b', hb', rfl⟩ := ClientSession.mem_updateCheck.mp hb
    have hnum : a'.num = b'.num := by split at hab <;> split at hab <;> exact hab
    rw [h.distinct a' ha' b' hb' hnum]
  ofCall := fun k hk m hm => by
    obtain ⟨k', hk', hnum, hctx⟩ := ClientSession.exists_of_mem_updateCheck hk
    rw [← hnum]
    exact h.ofCall k' hk' m (hctx.trans hm)

end ClientSession.Numbered

/-- Every session is numbered below the count of steps. -/
def State.Numbered (s : State) : Prop :=
  ∀ w c, s.clients w = some c → c.Numbered s.steps

theorem numbered_init (n : ℕ) : (init n).Numbered := by
  intro w c hc
  cases hc

theorem numbered_message {s t : State} {w : Wsi} {c : ClientSession} {x : ScalarAttrs}
    {blob : List Attr} (hc : s.clients w = some c)
    (h : MessageEffect s w c x blob t) (hi : s.Numbered) :
    ∀ w' c', t.clients w' = some c' → c'.Numbered (s.steps + 1) := by
  have hold : ∀ w' c', w' ≠ w → s.clients w' = some c' → c'.Numbered (s.steps + 1) :=
    fun w' c' _ hc' => (hi w' c' hc').succ
  have hn := hi w c hc
  cases h with
  | unheard => exact fun w' c' hc' => (hi w' c' hc').succ
  | answered hs _ => exact forall_update hold (hn.of_sameQueues hs).succ
  | subscribed _ _ hs =>
      refine forall_update hold ?_
      exact (hn.succ.of_sameQueues hs).append_request (by rw [hs.rpcCallQ]) rfl (by simp)
        (by simp [eq_comm])
  | unsubscribed _ _ _ hs _ =>
      refine forall_update hold ((hn.of_sameQueues hs).succ.shrink ?_ ?_ ?_)
      · exact fun ctx hctx => ⟨ctx, by simpa using hctx, rfl⟩
      · exact fun m hm => (ClientSession.sub_mem_unlinkSubs.mp hm).1
      · exact fun k hk => hk
  | callFailed _ hs => exact forall_update hold (hn.of_sameQueues hs).succ
  | @callStarted c' _ ctx k _ _ hq hchecks hnum _ _ _ _ _ hknum hkctx _ =>
      refine forall_update hold ?_
      have hmid : ({ c with accessCheckQ := c'.accessCheckQ }).Numbered (s.steps + 1) :=
        hn.append_check rfl hchecks hknum (by simp [hkctx, eq_comm])
      exact hmid.append_request hq rfl (by rintro _ ⟨rfl⟩; exact hnum) (by simp)

theorem numbered_effect {s t : State} {e : Event} (h : Effect s e t) (hi : s.Numbered) :
    ∀ w c, t.clients w = some c → c.Numbered (s.steps + 1) := by
  have hold : ∀ w : Wsi, ∀ w' c', w' ≠ w → s.clients w' = some c' → c'.Numbered (s.steps + 1) :=
    fun _ w' c' _ hc' => (hi w' c' hc').succ
  cases h with
  | idle => exact fun w c hc => (hi w c hc).succ
  | opened _ =>
      refine forall_update (hold _) ⟨?_, ?_, ?_, ?_, ?_⟩
      all_goals simp
  | message hc hm => exact numbered_message hc hm hi
  | callData hc _ _ _ => exact forall_update (hold _) ((hi _ _ hc).updateCheck _ _).succ
  | eventData hc _ _ => exact forall_update (hold _) ((hi _ _ hc).updateCheck _ _).succ
  | callInvoked hc _ _ _ _ _ _ =>
      refine forall_update (hold _) ?_
      exact ((hi _ _ hc).succ.unlinkCheck _).updateCall _ fun _ => rfl
  | callRefused hc _ _ _ =>
      exact forall_update (hold _) (((hi _ _ hc).succ.unlinkCheck _).destroyCall _)
  | callLost _ hc _ _ _ _ _ _ _ =>
      exact forall_update (hold _) (((hi _ _ hc).succ.unlinkCheck _).destroyCall _)
  | eventDelivered hc _ _ _ => exact forall_update (hold _) ((hi _ _ hc).succ.unlinkCheck _)
  | eventDropped hc _ _ => exact forall_update (hold _) ((hi _ _ hc).succ.unlinkCheck _)
  | retdata hc =>
      exact forall_update (hold _)
        ((hi _ _ hc).succ.updateCall _ fun ctx => (wsubusCallOnRetdata_frame _ ctx).1)
  | invokeCompleted hc _ _ => exact forall_update (hold _) ((hi _ _ hc).succ.destroyCall _)
  | eventStarted _ hc =>
      exact forall_update (hold _) ((hi _ _ hc).append_check rfl rfl rfl (by simp))
  | eventFailed => exact fun w c hc => (hi w c hc).succ
  | swept hc =>
      refine forall_update (hold _) ((hi _ _ hc).succ.shrink ?_ ?_ (by simp))
      · exact fun ctx' hctx' => ⟨ctx', (List.mem_filter.mp hctx').1, rfl⟩
      · exact fun m hm => (List.mem_filter.mp hm).1
  | closed hc hd =>
      obtain rfl := wsuPeerDeinit_ok hd
      exact forall_drop (hold _)

theorem numbered_step {cfg : Config} {s s' : State} {e : Event} (hi : s.Numbered)
    (h : step cfg s e = .ok s') : s'.Numbered := by
  obtain ⟨t, ht, rfl⟩ := step_effect h
  exact fun w c hc => numbered_effect ht hi w c hc

end Owsd.Server
