import Mathlib.Data.List.Basic
import Mathlib.Tactic.Common

/-!
Bit masks as sets of small numbers: the first set bit, and the loop that
takes the lowest set bit and clears it until the mask is empty.
-/

namespace Owsd.BitMask

variable {w : ℕ}

/-- `ffs`: one more than the place of the first set bit, or zero when no bit
is set. -/
def ffs (x : BitVec w) : ℕ :=
  match (List.range w).find? fun i => x.getLsbD i with
  | none => 0
  | some i => i + 1

/-- `__builtin_ctz`, for a value that is not zero. -/
def ctz (x : BitVec w) : ℕ := ffs x - 1

def lowbit (x : BitVec w) : BitVec w := x &&& -x

/-- The places a loop visits that takes the lowest set bit of a mask and
clears it. -/
def foreach : ℕ → BitVec w → List ℕ
  | 0, _ => []
  | fuel + 1, mask =>
      if lowbit mask = 0#w then []
      else ctz (lowbit mask) :: foreach fuel (mask &&& ~~~lowbit mask)

theorem ffs_eq_succ_iff {x : BitVec w} {k : ℕ} :
    ffs x = k + 1 ↔ x.getLsbD k = true ∧ ∀ j < k, x.getLsbD j = false := by
  have hfind : ffs x = k + 1 ↔ (List.range w).find? (fun i => x.getLsbD i) = some k := by
    unfold ffs
    cases (List.range w).find? fun i => x.getLsbD i <;> simp
  rw [hfind, List.find?_range_eq_some]
  constructor
  · rintro ⟨hk, -, hj⟩
    exact ⟨hk, fun j hlt => by simpa using hj j hlt⟩
  · rintro ⟨hk, hj⟩
    have hlt : k < w := BitVec.lt_of_getLsbD hk
    exact ⟨hk, List.mem_range.mpr hlt, fun j hlt => by simpa using hj j hlt⟩

theorem ffs_eq_zero_iff {x : BitVec w} : ffs x = 0 ↔ ∀ i < w, x.getLsbD i = false := by
  have hfind : ffs x = 0 ↔ (List.range w).find? (fun i => x.getLsbD i) = none := by
    unfold ffs
    cases (List.range w).find? fun i => x.getLsbD i <;> simp
  rw [hfind, List.find?_eq_none]
  simp

theorem getLsbD_lowbit (x : BitVec w) (i : ℕ) :
    (lowbit x).getLsbD i = true ↔ x.getLsbD i = true ∧ ∀ j < i, x.getLsbD j = false := by
  rw [lowbit, BitVec.getLsbD_and, BitVec.getLsbD_neg]
  cases hi : x.getLsbD i with
  | false => simp
  | true =>
      have hlt : i < w := BitVec.lt_of_getLsbD hi
      simp [hlt]

section
variable {x : BitVec w} {n : ℕ} (hn : x.getLsbD n = true) (hlow : ∀ j < n, x.getLsbD j = false)
include hn hlow

theorem getLsbD_lowbit_iff (i : ℕ) : (lowbit x).getLsbD i = true ↔ i = n := by
  rw [getLsbD_lowbit]
  constructor
  · rintro ⟨hi, hbelow⟩
    rcases Nat.lt_trichotomy i n with hlt | rfl | hlt
    · simp [hlow i hlt] at hi
    · rfl
    · simp [hbelow n hlt] at hn
  · rintro rfl
    exact ⟨hn, hlow⟩

theorem lowbit_ne_zero : lowbit x ≠ 0#w := by
  intro hzero
  have hbit := (getLsbD_lowbit_iff hn hlow n).mpr rfl
  simp [hzero] at hbit

theorem ctz_lowbit : ctz (lowbit x) = n := by
  have hffs : ffs (lowbit x) = n + 1 := by
    refine ffs_eq_succ_iff.mpr ⟨(getLsbD_lowbit_iff hn hlow n).mpr rfl, fun j hj => ?_⟩
    rw [← Bool.not_eq_true, getLsbD_lowbit_iff hn hlow]
    exact Nat.ne_of_lt hj
  rw [ctz, hffs, Nat.add_sub_cancel]

theorem getLsbD_clear_lowbit (i : ℕ) :
    (x &&& ~~~lowbit x).getLsbD i = true ↔ i ≠ n ∧ x.getLsbD i = true := by
  rw [BitVec.getLsbD_and, BitVec.getLsbD_not, Bool.and_eq_true, Bool.and_eq_true,
    Bool.not_eq_true', ← Bool.not_eq_true, getLsbD_lowbit_iff hn hlow, decide_eq_true_iff]
  constructor
  · exact fun h => ⟨h.2.2, h.1⟩
  · exact fun h => ⟨h.2, BitVec.lt_of_getLsbD h.2, h.1⟩

end

/-- With nothing set below `n`, the loop visits the set bits from `n` on in
order. -/
theorem foreach_from {d n fuel : ℕ} {x : BitVec w} (hd : n + d = w) (hfuel : d ≤ fuel)
    (hlow : ∀ j < n, x.getLsbD j = false) :
    foreach fuel x = (List.range' n d).filter fun i => x.getLsbD i := by
  induction d generalizing n fuel x with
  | zero =>
      have hzero : lowbit x = 0#w := by
        refine BitVec.eq_of_getLsbD_eq fun i hi => ?_
        have hnot : ¬ (lowbit x).getLsbD i = true := by
          rw [getLsbD_lowbit, hlow i (by omega)]
          simp
        simpa using hnot
      cases fuel with
      | zero => rfl
      | succ fuel => simp [foreach, hzero]
  | succ d ih =>
      rw [List.range'_succ]
      cases hn : x.getLsbD n with
      | false =>
          rw [List.filter_cons_of_neg (by simp [hn])]
          refine ih (by omega) (by omega) fun j hj => ?_
          rcases Nat.lt_succ_iff_lt_or_eq.mp hj with hj | rfl
          · exact hlow j hj
          · exact hn
      | true =>
          -- The bit `n` is taken, and the bits above it stay.
          obtain ⟨fuel, rfl⟩ : ∃ k, fuel = k + 1 := ⟨fuel - 1, by omega⟩
          rw [List.filter_cons_of_pos hn, foreach, if_neg (lowbit_ne_zero hn hlow),
            ctz_lowbit hn hlow]
          congr 1
          rw [ih (n := n + 1) (by omega) (by omega)]
          · refine List.filter_congr fun i hi => ?_
            rw [List.mem_range'_1] at hi
            rw [Bool.eq_iff_iff, getLsbD_clear_lowbit hn hlow]
            exact and_iff_right (by omega)
          · intro j hj
            rw [← Bool.not_eq_true, getLsbD_clear_lowbit hn hlow]
            rintro ⟨hne, hj'⟩
            simp [hlow j (by omega)] at hj'

theorem mem_foreach {x : BitVec w} {i : ℕ} : i ∈ foreach w x ↔ x.getLsbD i = true := by
  rw [foreach_from (Nat.zero_add w) (Nat.le_refl w) (by simp), List.mem_filter, List.mem_range'_1]
  constructor
  · exact fun h => h.2
  · exact fun h => ⟨by have := BitVec.lt_of_getLsbD h; omega, h⟩

end Owsd.BitMask
