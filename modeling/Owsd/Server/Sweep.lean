import Owsd.Server.Step

/-!
The sweep over the calls of a client (`wsubus_percall_clean_stale`).

The step of the model says at once what is left of the queue. Here the loop
is written out as the source has it, element by element with the next one
remembered before the current one is freed, and the age it goes by is
compared with the nanoseconds that really passed.
-/

namespace Owsd.Server

/-! ### The loop -/

/-- What `cancel_and_destroy` of an element does, as seen from outside. -/
def WsRequest.destroyed : WsRequest → Action
  | .call ctx => .destroyCall ctx.num
  | .sub n => .destroySub n

/-- `list_for_each_entry_safe` over `rpc_call_q`, from an element on whose
predecessors in the queue are `before`. A removed call lowers `rpc_q_len` in
its destructor. -/
def sweepLoop (now : Timespec) (w : Wsi) (s : State) (c : ClientSession)
    (before : List WsRequest) : List WsRequest → State
  | [] => s.setClient w c
  | cq :: rest =>
      if isStale now cq then
        sweepLoop now w (s.emit [cq.destroyed])
          { c with
            rpcCallQ := before ++ rest
            rpcQLen := c.rpcQLen - 1 }
          before rest
      else sweepLoop now w s c (before ++ [cq]) rest

theorem sub_one_sub_ofNat (x : BitVec 32) (n : ℕ) :
    x - 1 - BitVec.ofNat 32 n = x - BitVec.ofNat 32 (n + 1) := by
  rw [BitVec.ofNat_add]
  generalize BitVec.ofNat 32 n = y
  bv_omega

theorem sweepLoop_eq (now : Timespec) (w : Wsi) {s : State} {c : ClientSession}
    {before rest : List WsRequest} (hq : c.rpcCallQ = before ++ rest) :
    sweepLoop now w s c before rest =
      (s.emit ((rest.filter (isStale now)).map WsRequest.destroyed).reverse).setClient w
        { c with
          rpcCallQ := before ++ rest.filter fun r => !isStale now r
          rpcQLen := c.rpcQLen - BitVec.ofNat 32 (rest.filter (isStale now)).length } := by
  induction rest generalizing s c before with
  | nil =>
      rw [List.append_nil] at hq
      simp [sweepLoop, State.emit, ← hq]
  | cons cq rest ih =>
      rw [sweepLoop]
      cases hstale : isStale now cq with
      | true =>
          rw [if_pos rfl, ih rfl, List.filter_cons_of_pos hstale,
            List.filter_cons_of_neg (by simp [hstale]), List.length_cons, sub_one_sub_ofNat]
          simp [State.emit]
      | false =>
          rw [if_neg (by simp), ih (by rw [hq, List.append_assoc]; rfl),
            List.filter_cons_of_neg (by simp [hstale]), List.filter_cons_of_pos (by simp [hstale]),
            List.append_assoc]
          rfl

theorem sweepLoop_eq_cleanStale (now : Timespec) (w : Wsi) (s : State) (c : ClientSession) :
    sweepLoop now w s c [] c.rpcCallQ = wsubusPercallCleanStale s w c now := by
  rw [sweepLoop_eq now w (List.nil_append _).symm]
  rfl

/-! ### The normalisation loops -/

theorem carryLoop_of_le {nsec : Int} (h : nsec ≤ 1000000000) (fuel : ℕ) (passed : Int) :
    carryLoop fuel passed nsec = (passed, nsec) := by
  cases fuel with
  | zero => rfl
  | succ fuel => rw [carryLoop, if_neg (by omega)]

theorem borrowLoop_of_nonneg {nsec : Int} (h : 0 ≤ nsec) (fuel : ℕ) (passed : Int) :
    borrowLoop fuel passed nsec = (passed, nsec) := by
  cases fuel with
  | zero => rfl
  | succ fuel => rw [borrowLoop, if_neg (by omega)]

/-- With as much fuel as there are nanoseconds the first loop ends by its
condition, and more fuel changes nothing. -/
theorem carryLoop_ends {fuel : ℕ} {passed nsec : Int} (h : nsec ≤ fuel) :
    (carryLoop fuel passed nsec).2 ≤ 1000000000 ∧
      ∀ more, carryLoop (fuel + more) passed nsec = carryLoop fuel passed nsec := by
  induction fuel generalizing passed nsec with
  | zero =>
      have hexit : nsec ≤ 1000000000 := by omega
      exact ⟨hexit, fun more => carryLoop_of_le hexit _ _⟩
  | succ fuel ih =>
      by_cases hrun : 1000000000 < nsec
      · have hnext : nsec - 1000000000 ≤ fuel := by omega
        obtain ⟨hend, hmore⟩ := @ih (passed + 1) _ hnext
        rw [carryLoop, if_pos hrun]
        refine ⟨hend, ?_⟩
        intro more
        rw [Nat.succ_add, carryLoop, if_pos hrun, hmore]
      · rw [carryLoop_of_le (by omega)]
        refine ⟨by omega, ?_⟩
        intro more
        exact carryLoop_of_le (by omega) _ _

theorem borrowLoop_ends {fuel : ℕ} {passed nsec : Int} (h : -nsec ≤ fuel) :
    0 ≤ (borrowLoop fuel passed nsec).2 ∧
      ∀ more, borrowLoop (fuel + more) passed nsec = borrowLoop fuel passed nsec := by
  induction fuel generalizing passed nsec with
  | zero =>
      have hexit : 0 ≤ nsec := by omega
      exact ⟨hexit, fun more => borrowLoop_of_nonneg hexit _ _⟩
  | succ fuel ih =>
      by_cases hrun : nsec < 0
      · have hnext : -(nsec + 1000000000) ≤ fuel := by omega
        obtain ⟨hend, hmore⟩ := @ih (passed - 1) _ hnext
        rw [borrowLoop, if_pos hrun]
        refine ⟨hend, ?_⟩
        intro more
        rw [Nat.succ_add, borrowLoop, if_pos hrun, hmore]
      · rw [borrowLoop_of_nonneg (by omega)]
        refine ⟨by omega, ?_⟩
        intro more
        exact borrowLoop_of_nonneg (by omega) _ _

/-- The two loops of a sweep end by their conditions, the second one started
where the first one ended, and they would not go on with more fuel. -/
def LoopsEnd (passed nsec : Int) : Prop :=
  ∃ passed₁ nsec₁ passed₂ nsec₂,
    (∀ fuel, nsec.natAbs ≤ fuel → carryLoop fuel passed nsec = (passed₁, nsec₁)) ∧
    ¬ 1000000000 < nsec₁ ∧
    (∀ fuel, nsec₁.natAbs ≤ fuel → borrowLoop fuel passed₁ nsec₁ = (passed₂, nsec₂)) ∧
    ¬ nsec₂ < 0

theorem loopsEnd (passed nsec : Int) : LoopsEnd passed nsec := by
  obtain ⟨hend₁, hmore₁⟩ := @carryLoop_ends nsec.natAbs passed nsec (by omega)
  generalize hafter : carryLoop nsec.natAbs passed nsec = after at hend₁ hmore₁
  obtain ⟨hend₂, hmore₂⟩ := @borrowLoop_ends after.2.natAbs after.1 after.2 (by omega)
  generalize borrowLoop after.2.natAbs after.1 after.2 = done at hend₂ hmore₂
  refine ⟨after.1, after.2, done.1, done.2, ?_, by omega, ?_, by omega⟩
  · intro fuel hfuel
    rw [← Nat.add_sub_cancel' hfuel]
    exact hmore₁ _
  · intro fuel hfuel
    rw [← Nat.add_sub_cancel' hfuel]
    exact hmore₂ _

/-! ### The age of a call -/

/-- Nanoseconds below a second. -/
def Timespec.Normalised (t : Timespec) : Prop := 0 ≤ t.tvNsec ∧ t.tvNsec < 1000000000

instance (t : Timespec) : Decidable t.Normalised :=
  inferInstanceAs (Decidable (0 ≤ t.tvNsec ∧ t.tvNsec < 1000000000))

/-- The nanoseconds from `start` to `now`. -/
def age (now start : Timespec) : Int :=
  (now.tvSec - start.tvSec) * 1000000000 + (now.tvNsec - start.tvNsec)

/-- The clock did not run backwards, and the seconds fit an `int`. -/
structure Timely (now start : Timespec) : Prop where
  now_normalised : now.Normalised
  start_normalised : start.Normalised
  age_nonneg : 0 ≤ age now start
  seconds_le : now.tvSec - start.tvSec ≤ 2147483647

/-- A method call that is at least ten seconds old. -/
def isOld (now : Timespec) : WsRequest → Bool
  | .call ctx => 10 * 1000000000 ≤ age now ctx.reqStart
  | .sub _ => false

/-- Of normalised times the first loop carries nothing and the second borrows
at most once, so that whole seconds are left. -/
theorem secondsPassed_eq {now start : Timespec} (h : Timely now start) :
    secondsPassed now start = age now start / 1000000000 := by
  obtain ⟨⟨hn₀, hn₁⟩, ⟨hs₀, hs₁⟩, hage, hsec⟩ := h
  rw [age] at hage
  have hmod : Int.bmod (now.tvSec - start.tvSec) 4294967296 = now.tvSec - start.tvSec := by
    apply Int.bmod_eq_of_le
    · omega
    · omega
  simp only [secondsPassed, hmod]
  rw [carryLoop_of_le (by omega), age]
  by_cases hborrow : now.tvNsec - start.tvNsec < 0
  · obtain ⟨fuel, hfuel⟩ : ∃ fuel, (now.tvNsec - start.tvNsec).natAbs = fuel + 1 :=
      Nat.exists_eq_succ_of_ne_zero (by omega)
    simp only [hfuel]
    rw [borrowLoop, if_pos hborrow, borrowLoop_of_nonneg (by omega)]
    show now.tvSec - start.tvSec - 1 = _
    omega
  · rw [borrowLoop_of_nonneg (by omega)]
    show now.tvSec - start.tvSec = _
    omega

theorem isStale_eq_isOld {now : Timespec} {r : WsRequest}
    (h : ∀ ctx, r = .call ctx → Timely now ctx.reqStart) : isStale now r = isOld now r := by
  cases r with
  | sub n => rfl
  | call ctx =>
      have hsec := secondsPassed_eq (h ctx rfl)
      simp only [isStale, isOld, hsec, decide_eq_decide]
      omega

/-- One sweep takes the old calls and nothing else: the loop of the source
ends with the queue that has the other elements in their order, with
`rpc_q_len` lowered once for each call taken, and with those calls destroyed
one after the other. -/
theorem stale_call_sweep (s : State) (w : Wsi) (c : ClientSession) (now : Timespec)
    (htimely : ∀ ctx, .call ctx ∈ c.rpcCallQ → Timely now ctx.reqStart) :
    sweepLoop now w s c [] c.rpcCallQ =
      (s.emit ((c.rpcCallQ.filter (isOld now)).map WsRequest.destroyed).reverse).setClient w
        { c with
          rpcCallQ := c.rpcCallQ.filter fun r => !isOld now r
          rpcQLen := c.rpcQLen - BitVec.ofNat 32 (c.rpcCallQ.filter (isOld now)).length } ∧
    wsubusPercallCleanStale s w c now = sweepLoop now w s c [] c.rpcCallQ ∧
    ∀ ctx, .call ctx ∈ c.rpcCallQ →
      LoopsEnd (now.tvSec - ctx.reqStart.tvSec) (now.tvNsec - ctx.reqStart.tvNsec) := by
  have hsame : ∀ r ∈ c.rpcCallQ, isStale now r = isOld now r := by
    intro r hr
    apply isStale_eq_isOld
    rintro ctx rfl
    exact htimely ctx hr
  have hold : c.rpcCallQ.filter (isStale now) = c.rpcCallQ.filter (isOld now) :=
    List.filter_congr hsame
  have hkept : (c.rpcCallQ.filter fun r => !isStale now r) =
      c.rpcCallQ.filter fun r => !isOld now r := by
    apply List.filter_congr
    intro r hr
    rw [hsame r hr]
  refine ⟨?_, (sweepLoop_eq_cleanStale now w s c).symm, fun ctx _ => loopsEnd _ _⟩
  rw [sweepLoop_eq now w (List.nil_append _).symm, hold, hkept, List.nil_append]

/-- A call that waits since `start`. -/
def waitingCall (num : ℕ) (start : Timespec) : WsRequest :=
  .call ⟨num, none, [], ⟨[], [], [], []⟩, false, start⟩

def boundaryClient : ClientSession :=
  ⟨2, [waitingCall 0 ⟨10, 5⟩, .sub 1, waitingCall 2 ⟨10, 6⟩], [], []⟩

theorem stale_call_sweep_boundary :
    ((wsubusPercallCleanStale (init 64) 0 boundaryClient ⟨20, 5⟩).clients 0).map
        ClientSession.rpcCallQ = some [.sub 1, waitingCall 2 ⟨10, 6⟩] ∧
      (wsubusPercallCleanStale (init 64) 0 boundaryClient ⟨20, 5⟩).log = [.destroyCall 0] := by
  have htimely : ∀ ctx, .call ctx ∈ boundaryClient.rpcCallQ →
      Timely ⟨20, 5⟩ ctx.reqStart := by
    intro ctx hctx
    simp only [boundaryClient, waitingCall, List.mem_cons, WsRequest.call.injEq, reduceCtorEq,
      List.not_mem_nil, or_false, false_or] at hctx
    rcases hctx with rfl | rfl
    · exact ⟨by decide, by decide, by decide, by decide⟩
    · exact ⟨by decide, by decide, by decide, by decide⟩
  obtain ⟨hloop, hstep, -⟩ := stale_call_sweep (init 64) 0 boundaryClient ⟨20, 5⟩ htimely
  rw [hstep, hloop]
  exact ⟨rfl, rfl⟩

end Owsd.Server
