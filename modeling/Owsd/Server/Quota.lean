import Owsd.Server.Counters
import Mathlib.Algebra.Order.BigOperators.Group.Finset
import Mathlib.Data.Finset.Card

/-!
The quotas of the clients and the bound on all outstanding requests.

`calculate_total_req_max` bounds the memory for requests in progress, and
`recalc_req_max` shares that bound out among the clients. The shares of all
clients together stay within the bound, and so do the requests of clients
that keep to their shares (`withinTotal_run`). Two things make a client
exceed its share: a message is taken in although the client has used it up,
since the test in `wsu_on_msg_from_client` is not strict; and shares get
smaller when a client connects, whatever the others have in progress.
-/

namespace Owsd.Server

open Rpc

def minTotalAsyncReqs : ℕ := 1024

def maxTotalAsyncReqs : ℕ := 30000

/-- `rpc_q_len` of the client on `w`, if there is one. -/
def State.queued (s : State) (w : Wsi) : ℕ :=
  ((s.clients w).map fun c => c.rpcQLen.toNat).getD 0

/-- All clients together have no more requests outstanding than
`total_req_max`. -/
def State.WithinTotal (s : State) : Prop :=
  ∀ ws : Finset Wsi, ∑ w ∈ ws, s.queued w ≤ s.totalReqMax

/-- No call comes from a client that has just used up its share, and no
client connects while another has more requests outstanding than the share
they get then. -/
def KeepsShare (s : State) : Event → Prop
  | .established w => s.clients w = none → ∀ w' c, s.clients w' = some c →
      c.rpcQLen.toNat ≤ recalcReqMax s.totalReqMax (s.numActiveSes + 1)
  | .message w blob _ a => ∀ c args, s.clients w = some c →
      parseRequest a.scalarAttrs blob = some (.ok (.call args)) → c.rpcQLen.toNat ≠ s.reqMax
  | _ => True

/-! ### The shares -/

theorem recalcReqMax_le (total n : ℕ) : recalcReqMax total n ≤ maxAsyncReqs := by
  unfold recalcReqMax
  split
  · exact le_refl _
  · split
    · next h => exact h.le
    · exact le_refl _

theorem mul_recalcReqMax_le {total n : ℕ} (hn : n ≠ 0) : n * recalcReqMax total n ≤ total := by
  unfold recalcReqMax
  rw [if_neg hn]
  split
  · exact Nat.mul_div_le total n
  · next h =>
    calc n * maxAsyncReqs ≤ n * (total / n) := Nat.mul_le_mul_left n (Nat.le_of_not_lt h)
      _ ≤ total := Nat.mul_div_le total n

theorem recalcReqMax_le_pred (total n : ℕ) :
    recalcReqMax total n ≤ recalcReqMax total (n - 1) := by
  by_cases hn : n - 1 = 0
  · have hmax : recalcReqMax total (n - 1) = maxAsyncReqs := by simp [recalcReqMax, hn]
    rw [hmax]
    exact recalcReqMax_le total n
  · have hdiv : total / n ≤ total / (n - 1) :=
      Nat.div_le_div_left (Nat.sub_le n 1) (Nat.pos_of_ne_zero hn)
    have hn' : n ≠ 0 := by omega
    unfold recalcReqMax
    rw [if_neg hn, if_neg hn']
    split
    · split
      · exact hdiv
      · next h _ => exact h.le
    · split
      · omega
      · exact le_refl _

/-! ### What a step does to the quotas -/

structure SameQuota (s t : State) : Prop where
  numActiveSes : t.numActiveSes = s.numActiveSes
  reqMax : t.reqMax = s.reqMax
  totalReqMax : t.totalReqMax = s.totalReqMax
  connected : ∀ w, (t.clients w).isSome = (s.clients w).isSome

theorem isSome_update {clients : Wsi → Option ClientSession} {w : Wsi} {c c' : ClientSession}
    (hc : clients w = some c) (w' : Wsi) :
    (Function.update clients w (some c') w').isSome = (clients w').isSome := by
  by_cases hw : w' = w
  · subst hw
    simp [hc]
  · simp [hw]

theorem quota_effect {s t : State} {e : Event} (h : Effect s e t) :
    (∃ w, e = .established w ∧ s.clients w = none ∧ t = wsuPeerInit s w) ∨
      (∃ w c, e = .closed w ∧ s.clients w = some c ∧ wsuPeerDeinit s w c = .ok t) ∨
      SameQuota s t := by
  cases h with
  | idle => exact Or.inr (Or.inr ⟨rfl, rfl, rfl, fun _ => rfl⟩)
  | @opened w hnone => exact Or.inl ⟨w, rfl, hnone, rfl⟩
  | message hc hm =>
      refine Or.inr (Or.inr ?_)
      cases hm with
      | unheard => exact ⟨rfl, rfl, rfl, fun _ => rfl⟩
      | answered => exact ⟨rfl, rfl, rfl, isSome_update hc⟩
      | subscribed => exact ⟨rfl, rfl, rfl, isSome_update hc⟩
      | unsubscribed => exact ⟨rfl, rfl, rfl, isSome_update hc⟩
      | callFailed => exact ⟨rfl, rfl, rfl, isSome_update hc⟩
      | callStarted => exact ⟨rfl, rfl, rfl, isSome_update hc⟩
  | callData hc => exact Or.inr (Or.inr ⟨rfl, rfl, rfl, isSome_update hc⟩)
  | eventData hc => exact Or.inr (Or.inr ⟨rfl, rfl, rfl, isSome_update hc⟩)
  | callInvoked hc => exact Or.inr (Or.inr ⟨rfl, rfl, rfl, isSome_update hc⟩)
  | callRefused hc => exact Or.inr (Or.inr ⟨rfl, rfl, rfl, isSome_update hc⟩)
  | callLost _ hc => exact Or.inr (Or.inr ⟨rfl, rfl, rfl, isSome_update hc⟩)
  | eventDelivered hc => exact Or.inr (Or.inr ⟨rfl, rfl, rfl, isSome_update hc⟩)
  | eventDropped hc => exact Or.inr (Or.inr ⟨rfl, rfl, rfl, isSome_update hc⟩)
  | retdata hc => exact Or.inr (Or.inr ⟨rfl, rfl, rfl, isSome_update hc⟩)
  | invokeCompleted hc => exact Or.inr (Or.inr ⟨rfl, rfl, rfl, isSome_update hc⟩)
  | eventStarted _ hc => exact Or.inr (Or.inr ⟨rfl, rfl, rfl, isSome_update hc⟩)
  | eventFailed => exact Or.inr (Or.inr ⟨rfl, rfl, rfl, fun _ => rfl⟩)
  | swept hc => exact Or.inr (Or.inr ⟨rfl, rfl, rfl, isSome_update hc⟩)
  | @closed w c _ hc hd => exact Or.inr (Or.inl ⟨w, c, rfl, hc, hd⟩)

/-! ### Clients that keep to their shares -/

/-- `num_active_ses` counts the clients. -/
def State.Connected (s : State) : Prop :=
  ∃ ws : Finset Wsi, (∀ w, w ∈ ws ↔ (s.clients w).isSome = true) ∧ ws.card = s.numActiveSes

namespace State.Connected

variable {s t : State}

theorem opened (h : s.Connected) {w : Wsi} (hnone : s.clients w = none) :
    (wsuPeerInit s w).Connected := by
  obtain ⟨ws, hws, hcard⟩ := h
  have hw : w ∉ ws := by simp [hws, hnone]
  refine ⟨insert w ws, fun w' => ?_, ?_⟩
  · rw [Finset.mem_insert, hws]
    by_cases hww : w' = w
    · simp [hww, wsuPeerInit, State.setClient]
    · simp [hww, wsuPeerInit, State.setClient]
  · rw [Finset.card_insert_of_notMem hw, hcard]
    rfl

theorem closed (h : s.Connected) {w : Wsi} {c : ClientSession} (hc : s.clients w = some c)
    (hd : wsuPeerDeinit s w c = .ok t) :
    t.Connected ∧ t.numActiveSes + 1 = s.numActiveSes := by
  obtain rfl := wsuPeerDeinit_ok hd
  obtain ⟨ws, hws, hcard⟩ := h
  have hw : w ∈ ws := (hws w).mpr (by simp [hc])
  refine ⟨⟨ws.erase w, fun w' => ?_, ?_⟩, ?_⟩
  · rw [Finset.mem_erase, hws]
    by_cases hww : w' = w
    · simp [hww]
    · simp [hww]
  · rw [Finset.card_erase_of_mem hw, hcard]
    rfl
  · rw [← hcard, ← Finset.card_erase_add_one hw, Finset.card_erase_of_mem hw, hcard]
    rfl

theorem same (h : s.Connected) (hq : SameQuota s t) : t.Connected := by
  obtain ⟨ws, hws, hcard⟩ := h
  exact ⟨ws, fun w => by rw [hws, hq.connected], hcard.trans hq.numActiveSes.symm⟩

end State.Connected

theorem connected_effect {s t : State} {e : Event} (h : Effect s e t) (hi : s.Connected) :
    t.Connected := by
  rcases quota_effect h with ⟨w, -, hnone, rfl⟩ | ⟨w, c, -, hc, hd⟩ | hsame
  · exact hi.opened hnone
  · exact (hi.closed hc hd).1
  · exact hi.same hsame

/-- `num_active_ses` counts the clients, each has the share that
`recalc_req_max` gives it, and none has more calls in progress. -/
structure State.Shares (s : State) : Prop where
  connected : ∃ ws : Finset Wsi, (∀ w, w ∈ ws ↔ (s.clients w).isSome = true) ∧
    ws.card = s.numActiveSes
  reqMax : s.numActiveSes ≠ 0 → s.reqMax = recalcReqMax s.totalReqMax s.numActiveSes
  share : ∀ w c, s.clients w = some c → c.callNums.length ≤ s.reqMax

namespace State.Shares

variable {s t : State}

/-- A state with a client has a quota that `recalc_req_max` computed. -/
theorem reqMax_eq (h : s.Shares) {w : Wsi} {c : ClientSession} (hc : s.clients w = some c) :
    s.reqMax = recalcReqMax s.totalReqMax s.numActiveSes := by
  obtain ⟨ws, hws, hcard⟩ := h.connected
  refine h.reqMax fun hzero => ?_
  have hmem : w ∈ ws := (hws w).mpr (by simp [hc])
  rw [hzero, Finset.card_eq_zero] at hcard
  simp [hcard] at hmem

theorem rpcQLen_eq (h : s.Shares) (hi : s.Counted) {w : Wsi} {c : ClientSession}
    (hc : s.clients w = some c) : c.rpcQLen.toNat = c.callNums.length := by
  have hle := h.share w c hc
  rw [h.reqMax_eq hc] at hle
  have hmax := recalcReqMax_le s.totalReqMax s.numActiveSes
  rw [(hi w c hc).rpcQLen, BitVec.toNat_ofNat]
  refine Nat.mod_eq_of_lt ?_
  simp only [maxAsyncReqs] at hmax
  omega

/-- The clients of a state that keeps the shares are within the bound. -/
theorem withinTotal (h : s.Shares) (hi : s.Counted) : s.WithinTotal := by
  intro ws
  obtain ⟨all, hall, hcard⟩ := h.connected
  have hsome : ∀ w ∈ ws, s.queued w ≠ 0 → w ∈ all := by
    intro w _ hne
    rw [hall]
    cases hc : s.clients w with
    | none => simp [State.queued, hc] at hne
    | some c => rfl
  have hshare : ∀ w ∈ all, s.queued w ≤ s.reqMax := by
    intro w hw
    obtain ⟨c, hc⟩ := Option.isSome_iff_exists.mp ((hall w).mp hw)
    simpa [State.queued, hc, h.rpcQLen_eq hi hc] using h.share w c hc
  calc ∑ w ∈ ws, s.queued w ≤ ∑ w ∈ all, s.queued w := Finset.sum_le_sum_of_ne_zero hsome
    _ ≤ s.numActiveSes * s.reqMax := by
      simpa [hcard] using Finset.sum_le_card_nsmul all s.queued s.reqMax hshare
    _ ≤ s.totalReqMax := by
      by_cases hzero : s.numActiveSes = 0
      · simp [hzero]
      · rw [h.reqMax hzero]
        exact mul_recalcReqMax_le hzero

theorem opened (h : s.Shares) {w : Wsi} (hnone : s.clients w = none)
    (hg : ∀ w' c, s.clients w' = some c →
      c.callNums.length ≤ recalcReqMax s.totalReqMax (s.numActiveSes + 1)) :
    (wsuPeerInit s w).Shares where
  connected := State.Connected.opened h.connected hnone
  reqMax := fun _ => rfl
  share := forall_update (fun w' c' _ hc' => hg w' c' hc') (Nat.zero_le _)

theorem closed (h : s.Shares) {w : Wsi} {c : ClientSession} (hc : s.clients w = some c)
    (hd : wsuPeerDeinit s w c = .ok t) : t.Shares := by
  have hconnected := (State.Connected.closed h.connected hc hd).1
  obtain rfl := wsuPeerDeinit_ok hd
  refine ⟨hconnected, fun _ => rfl, forall_drop fun w' c' _ hc' => ?_⟩
  refine (h.share w' c' hc').trans ?_
  rw [h.reqMax_eq hc']
  exact recalcReqMax_le_pred _ _

end State.Shares

theorem shares_step {cfg : Config} {s s' : State} {e : Event} (hi : s.Counted)
    (hs : s.Shares) (hg : KeepsShare s e) (h : step cfg s e = .ok s') : s'.Shares := by
  obtain ⟨t, ht, rfl⟩ := step_effect h
  suffices hshares : t.Shares from ⟨hshares.connected, hshares.reqMax, hshares.share⟩
  rcases quota_effect ht with ⟨w, rfl, hnone, rfl⟩ | ⟨w, c, -, hc, hd⟩ | hsame
  · refine hs.opened hnone fun w' c hc => ?_
    rw [← hs.rpcQLen_eq hi hc]
    exact hg hnone w' c hc
  · exact hs.closed hc hd
  · refine ⟨State.Connected.same hs.connected hsame, ?_, fun w c' hc' => ?_⟩
    all_goals obtain ⟨hnum, hmax, htotal, -⟩ := hsame
    · rw [hnum, hmax, htotal]
      exact hs.reqMax
    · -- Only a new call adds to what a client has in progress.
      rw [hmax]
      cases becomes_effect ht hi w c' hc' with
      | opened hq _ => simp [hq]
      | fewer gone hc hsub _ _ => exact hsub.length_le.trans (hs.share w _ hc)
      | @started c _ _ _ args hc heq hreq hq _ =>
          subst heq
          have hne := hg c args hc hreq
          have hle := hs.share w c hc
          rw [hs.rpcQLen_eq hi hc] at hne
          rw [hq, List.length_append, List.length_singleton]
          omega

theorem shares_init (n : ℕ) : (init n).Shares where
  connected := ⟨∅, fun w => by simp [init], rfl⟩
  reqMax := fun h => absurd rfl h
  share := by
    intro w c hc
    cases hc

/-- In every run in which no call comes from a client that has just used up
its share, and no client connects while another has more requests outstanding
than the share they get then, all clients together stay within the bound. -/
theorem withinTotal_run {cfg : Config} {totalReqMax : ℕ} {es : List Event} {s : State}
    (hg : Guarded (step cfg) KeepsShare (init totalReqMax) es)
    (hrun : run (step cfg) (init totalReqMax) es = .ok s) : s.WithinTotal := by
  have hinv := run_invariant (fun s => s.Numbered ∧ s.Counted ∧ s.Shares)
    (fun s e s' hi hg h =>
      ⟨numbered_step hi.1 h, counted_step hi.1 hi.2.1 h, shares_step hi.2.1 hi.2.2 hg h⟩)
    ⟨numbered_init _, counted_init _, shares_init _⟩ hg hrun
  exact hinv.2.2.withinTotal hinv.2.1

/-! ### The counter in 32 bits -/

/-- No client has more calls in progress than the largest share, and one
more. -/
structure State.Bounded (s : State) : Prop where
  reqMax : s.reqMax ≤ maxAsyncReqs
  calls : ∀ w c, s.clients w = some c → c.callNums.length ≤ maxAsyncReqs + 1

theorem State.Bounded.rpcQLen_eq {s : State} (h : s.Bounded) (hi : s.Counted) {w : Wsi}
    {c : ClientSession} (hc : s.clients w = some c) : c.rpcQLen.toNat = c.callNums.length := by
  have hle := h.calls w c hc
  rw [(hi w c hc).rpcQLen, BitVec.toNat_ofNat]
  refine Nat.mod_eq_of_lt ?_
  simp only [maxAsyncReqs] at hle
  omega

/-- A message of a client over its quota changes no session. -/
theorem step_over_quota {cfg : Config} {s s' : State} {w : Wsi} {c : ClientSession}
    {blob : List Attr} {now : Timespec} {a : MessageAnswers} (hc : s.clients w = some c)
    (hq : s.reqMax < c.rpcQLen.toNat) (h : step cfg s (.message w blob now a) = .ok s') :
    s'.clients = s.clients := by
  have hq' : (s.emit [.received w s.steps blob]).reqMax < c.rpcQLen.toNat := hq
  simp only [step, handle, withClient, hc, wsuOnMsgFromClient, if_pos hq'] at h
  cases h
  rfl

theorem bounded_step {cfg : Config} {s s' : State} {e : Event} (hi : s.Counted)
    (hb : s.Bounded) (h : step cfg s e = .ok s') : s'.Bounded := by
  obtain ⟨t, ht, rfl⟩ := step_effect h
  constructor
  · show t.reqMax ≤ maxAsyncReqs
    rcases quota_effect ht with ⟨w, -, -, rfl⟩ | ⟨w, c, -, -, hd⟩ | hsame
    · exact recalcReqMax_le s.totalReqMax (s.numActiveSes + 1)
    · obtain rfl := wsuPeerDeinit_ok hd
      exact recalcReqMax_le _ _
    · rw [hsame.reqMax]
      exact hb.reqMax
  · intro w c' hc'
    cases becomes_effect ht hi w c' hc' with
    | opened hq _ => simp [hq]
    | fewer gone hc hsub _ _ => exact hsub.length_le.trans (hb.calls w _ hc)
    | @started c _ _ _ args hc heq hreq hq _ =>
        subst heq
        by_cases hquota : s.reqMax < c.rpcQLen.toNat
        · have hsame : s.clients w = some c' := by
            rw [← step_over_quota hc hquota h]
            exact hc'
          exact hb.calls w c' hsame
        · have hlen := hb.rpcQLen_eq hi hc
          have hmax := hb.reqMax
          rw [hq, List.length_append, List.length_singleton]
          omega

theorem bounded_run {cfg : Config} {n : ℕ} {es : List Event} {s : State}
    (hrun : run (step cfg) (init n) es = .ok s) : s.Counted ∧ s.Bounded := by
  have hinv := run_invariant_of_step (fun s => s.Numbered ∧ s.Counted ∧ s.Bounded)
    (fun s e s' hi h =>
      ⟨numbered_step hi.1 h, counted_step hi.1 hi.2.1 h, bounded_step hi.2.1 hi.2.2 h⟩)
    ⟨numbered_init n, counted_init n, Nat.zero_le _, fun w c hc => by cases hc⟩ hrun
  exact hinv.2

/-- The message was taken from the connection and nothing came of it. -/
def Refused (s s' : State) (w : Wsi) (blob : List Attr) : Prop :=
  s'.log = .received w s.steps blob :: s.log

theorem not_refused {cfg : Config} {s s' : State} {w : Wsi} {c : ClientSession}
    {blob : List Attr} {now : Timespec} {a : MessageAnswers} (hc : s.clients w = some c)
    (hq : c.rpcQLen.toNat ≤ s.reqMax) (h : step cfg s (.message w blob now a) = .ok s') :
    ¬Refused s s' w blob := by
  obtain ⟨t, ht, rfl⟩ := step_message hc h
  have hmore : s.log.length + 1 < t.log.length := by
    cases ht with
    | unheard hover => omega
    | answered _ _ => simp
    | subscribed _ _ _ => simp
    | unsubscribed _ _ _ _ _ =>
        simp only [State.log_setClient, State.log_setListenList, State.log_emit,
          List.length_append, List.length_cons]
        omega
    | callFailed _ _ => simp
    | callStarted _ _ _ _ _ _ _ _ _ _ _ _ _ => simp
  intro hrefused
  have hlen : t.log.length = s.log.length + 1 := congrArg List.length hrefused
  omega

/-- The counter is exact. In every state reached, `rpc_q_len` of a client is
the number of its calls in progress, and if there are none, whatever the
client sends is not refused. -/
theorem rpcQLen_run {cfg : Config} {n : ℕ} {es : List Event} {s : State} {w : Wsi}
    {c : ClientSession} (hrun : run (step cfg) (init n) es = .ok s)
    (hc : s.clients w = some c) :
    c.rpcQLen.toNat = c.callNums.length ∧
      (c.callNums = [] → ∀ blob now a s',
        step cfg s (.message w blob now a) = .ok s' → ¬Refused s s' w blob) := by
  obtain ⟨hi, hb⟩ := bounded_run hrun
  have hlen := hb.rpcQLen_eq hi hc
  refine ⟨hlen, fun hnone blob now a s' h => not_refused hc ?_ h⟩
  rw [hlen, hnone]
  exact Nat.zero_le _

/-! ### Two busy clients -/

/-- The client on `w` calls `router info`. -/
def asks (w : Wsi) : Event := .message w callMessage ⟨0, 0⟩ ⟨willing, fun _ => some [], 0, 0, []⟩

/-- A client that makes one call while another is connected. -/
theorem withinTotal_run_two_clients :
    ∃ s, run (step plainConfig) (init minTotalAsyncReqs)
        [.established 0, .established 1, asks 0] = .ok s ∧ s.queued 0 = 1 ∧ s.WithinTotal := by
  have hg : Guarded (step plainConfig) KeepsShare (init minTotalAsyncReqs)
      [.established 0, .established 1, asks 0] := by
    refine .cons ?_ rfl (.cons ?_ rfl (.cons ?_ rfl trivial))
    · intro _ w c hc
      cases hc
    · intro _
      exact forall_update (fun w c _ hc => by cases hc) (by decide)
    · intro c _ hc _
      cases hc
      decide
  exact ⟨_, rfl, rfl, withinTotal_run hg rfl⟩

/-- The counter of the client that made the call. -/
theorem rpcQLen_run_two_clients :
    ∃ s c, run (step plainConfig) (init minTotalAsyncReqs)
        [.established 0, .established 1, asks 0] = .ok s ∧ s.clients 0 = some c ∧
      c.callNums = [2] ∧ c.rpcQLen.toNat = c.callNums.length := by
  obtain ⟨s, c, hrun, hc, hcalls⟩ : ∃ s c, run (step plainConfig) (init minTotalAsyncReqs)
      [.established 0, .established 1, asks 0] = .ok s ∧ s.clients 0 = some c ∧
      c.callNums = [2] := ⟨_, _, rfl, rfl, rfl⟩
  exact ⟨s, c, hrun, hc, hcalls, (rpcQLen_run hrun hc).1⟩

theorem call_starts (w : Wsi) (num : ℕ) : ∃ args r,
    (∀ x, parseRequest x callMessage = some (.ok (.call args))) ∧
      wsubusCallDoCheckThenDoCall plainConfig w willing num args = .ok (some r) :=
  ⟨_, _, fun _ => rfl, rfl⟩

/-- A client that has not exceeded its share gets one more request in
progress. -/
theorem step_asks {s : State} {w : Wsi} {c : ClientSession} (hc : s.clients w = some c)
    (hq : c.rpcQLen.toNat ≤ s.reqMax) :
    ∃ t c', step plainConfig s (asks w) = .ok t ∧ c'.rpcQLen = c.rpcQLen + 1 ∧
      t.clients = Function.update s.clients w (some c') ∧ t.reqMax = s.reqMax ∧
      t.totalReqMax = s.totalReqMax := by
  obtain ⟨args, r, hparse, hcheck⟩ := call_starts w s.steps
  have hq' : ¬ s.reqMax < c.rpcQLen.toNat := Nat.not_lt_of_le hq
  simp only [step, asks, handle, withClient, hc, wsuOnMsgFromClient, State.emit, hq', if_false,
    hparse, handleRequest, handleCallUbus, hcheck]
  exact ⟨_, _, rfl, rfl, rfl, rfl, rfl⟩

theorem run_asks {s : State} {w : Wsi} {c : ClientSession} {k : ℕ} (n : ℕ)
    (hc : s.clients w = some c) (hk : c.rpcQLen = BitVec.ofNat 32 k)
    (hn : k + n ≤ s.reqMax + 1) :
    ∃ t c', run (step plainConfig) s (List.replicate n (asks w)) = .ok t ∧
      c'.rpcQLen = BitVec.ofNat 32 (k + n) ∧
      t.clients = Function.update s.clients w (some c') ∧ t.reqMax = s.reqMax ∧
      t.totalReqMax = s.totalReqMax := by
  induction n generalizing s c k with
  | zero => exact ⟨s, c, rfl, hk, by simp [← hc], rfl, rfl⟩
  | succ n ih =>
      have hle : c.rpcQLen.toNat ≤ s.reqMax := by
        have hmod := Nat.mod_le k (2 ^ 32)
        rw [hk, BitVec.toNat_ofNat]
        omega
      obtain ⟨t, c₁, hstep, hlen, hclients, hmax, htotal⟩ := step_asks hc hle
      have hlen' : c₁.rpcQLen = BitVec.ofNat 32 (k + 1) := by
        rw [hlen, hk, BitVec.ofNat_add]
        rfl
      obtain ⟨u, c₂, hrun, hlen₂, hclients₂, hmax₂, htotal₂⟩ :=
        ih (s := t) (c := c₁) (k := k + 1) (by simp [hclients]) hlen' (by omega)
      refine ⟨u, c₂, ?_, ?_, ?_, hmax₂.trans hmax, htotal₂.trans htotal⟩
      · rw [List.replicate_succ, run_cons hstep, hrun]
      · rw [hlen₂]
        congr 1
        omega
      · rw [hclients₂, hclients, Function.update_idem]

/-- Two clients share the smallest bound, 1024 requests. Each is let in with
513. -/
theorem shares_exceeded :
    ∃ total, minTotalAsyncReqs ≤ total ∧ total ≤ maxTotalAsyncReqs ∧
      ∃ s, run (step plainConfig) (init total)
        ([.established 0, .established 1] ++
          (List.replicate 513 (asks 0) ++ List.replicate 513 (asks 1))) = .ok s ∧
        ¬ s.WithinTotal := by
  refine ⟨minTotalAsyncReqs, le_refl _, by decide, ?_⟩
  obtain ⟨s₀, c₀, c₁, hinit, h₀, h₁, hlen₀, hlen₁, hmax, htotal⟩ : ∃ s₀ c₀ c₁,
      run (step plainConfig) (init minTotalAsyncReqs) [.established 0, .established 1] = .ok s₀ ∧
      s₀.clients 0 = some c₀ ∧ s₀.clients 1 = some c₁ ∧ c₀.rpcQLen = 0 ∧ c₁.rpcQLen = 0 ∧
      s₀.reqMax = 512 ∧ s₀.totalReqMax = 1024 :=
    ⟨_, _, _, rfl, rfl, rfl, rfl, rfl, rfl, rfl⟩
  obtain ⟨s₁, d₀, hrun₁, hlen₂, hclients₁, hmax₁, htotal₁⟩ :=
    run_asks (k := 0) 513 h₀ hlen₀ (by omega)
  obtain ⟨s₂, d₁, hrun₂, hlen₃, hclients₂, hmax₂, htotal₂⟩ :=
    run_asks (s := s₁) (w := 1) (c := c₁) (k := 0) 513 (by simp [hclients₁, h₁]) hlen₁ (by omega)
  refine ⟨s₂, ?_, fun hwithin => ?_⟩
  · rw [run_append hinit, run_append hrun₁, hrun₂]
  · have hsum := hwithin {0, 1}
    rw [htotal₂, htotal₁, htotal, Finset.sum_pair (by decide)] at hsum
    simp [State.queued, hclients₂, hclients₁, hlen₂, hlen₃] at hsum

end Owsd.Server
