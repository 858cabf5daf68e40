import Owsd.Basis.CString
import Mathlib.Data.Nat.Log
import Mathlib.Tactic.Ring

/-!
Numbers written in decimal.

A number is printed with a fixed count of digits (`padded`) or with as many
as it needs (`intText`), and `strtol` reads it back, together with what
follows the digits.
-/

namespace Owsd

theorem digit_ne (d : ℕ) : Fin.ofNat 256 (48 + d % 10) ≠ 0 := by
  intro h
  have hval : (48 + d % 10) % 256 = 0 := congrArg Fin.val h
  omega

/-- The character of the last digit of `d`. -/
def digit (d : ℕ) : CChar := ⟨Fin.ofNat 256 (48 + d % 10), digit_ne d⟩

theorem minus_ne : Fin.ofNat 256 45 ≠ 0 := by decide

def minus : CChar := ⟨Fin.ofNat 256 45, minus_ne⟩

def isDigit (c : CChar) : Bool := 48 ≤ c.val.val ∧ c.val.val ≤ 57

def isSpace (c : CChar) : Bool := c.val.val = 32 ∨ (9 ≤ c.val.val ∧ c.val.val ≤ 13)

def digitsValue (t : CString) : ℕ := t.foldl (fun n c => 10 * n + (c.val.val - 48)) 0

/-- The last `w` digits of `n`. -/
def padded : ℕ → ℕ → CString
  | 0, _ => []
  | w + 1, n => padded w (n / 10) ++ [digit n]

/-- All digits of `n`, without a zero in front. -/
def natText (n : ℕ) : CString := padded (Nat.log 10 n + 1) n

/-- `n` with its sign. -/
def intText (n : Int) : CString := if n < 0 then minus :: natText n.natAbs else natText n.natAbs

/-- The range of `long`. -/
def clampLong (v : Int) : Int :=
  if v < -9223372036854775808 then -9223372036854775808
  else if 9223372036854775807 < v then 9223372036854775807
  else v

/-- `strtol` in base ten: the number, and where it ends. Without digits the
number is zero and ends where the text starts. -/
def strtol (s : CString) : Int × CString :=
  let t := s.dropWhile isSpace
  let neg : Bool := t.head?.map (fun c => c.val.val) = some 45
  let plus : Bool := t.head?.map (fun c => c.val.val) = some 43
  let t := if neg || plus then t.tail else t
  let ds := t.takeWhile isDigit
  if ds.isEmpty then (0, s)
  else (clampLong (if neg then -(digitsValue ds : Int) else digitsValue ds), t.dropWhile isDigit)

theorem digit_val (d : ℕ) : (digit d).val.val = 48 + d % 10 := by
  have hval : (digit d).val.val = (48 + d % 10) % 256 := rfl
  omega

theorem isDigit_digit (d : ℕ) : isDigit (digit d) = true := by
  have hd := digit_val d
  simp only [isDigit, decide_eq_true_iff]
  omega

@[simp] theorem padded_length (w n : ℕ) : (padded w n).length = w := by
  induction w generalizing n with
  | zero => rfl
  | succ w ih => simp [padded, ih]

theorem isDigit_of_mem_padded {w n : ℕ} {c : CChar} (h : c ∈ padded w n) : isDigit c = true := by
  induction w generalizing n with
  | zero => cases h
  | succ w ih =>
      rcases List.mem_append.mp h with h | h
      · exact ih h
      · rw [List.mem_singleton.mp h]
        exact isDigit_digit n

theorem digitsValue_padded (w n : ℕ) : digitsValue (padded w n) = n % 10 ^ w := by
  induction w generalizing n with
  | zero => simp [padded, digitsValue, Nat.mod_one]
  | succ w ih =>
      have hd := digit_val n
      have happend : digitsValue (padded w (n / 10) ++ [digit n]) =
          10 * digitsValue (padded w (n / 10)) + ((digit n).val.val - 48) := by
        simp [digitsValue]
      rw [padded, happend, ih, hd, Nat.pow_succ', Nat.mod_mul]
      omega

theorem digitsValue_natText (n : ℕ) : digitsValue (natText n) = n := by
  rw [natText, digitsValue_padded]
  exact Nat.mod_eq_of_lt (Nat.lt_pow_succ_log_self (by norm_num) n)

theorem takeWhile_digits {t rest : CString} (ht : ∀ c ∈ t, isDigit c = true)
    (hrest : ∀ c ∈ rest.head?, isDigit c = false) : (t ++ rest).takeWhile isDigit = t := by
  rw [List.takeWhile_append_of_pos ht]
  cases rest with
  | nil => simp
  | cons c rest => simp [hrest c rfl]

theorem dropWhile_digits {t rest : CString} (ht : ∀ c ∈ t, isDigit c = true)
    (hrest : ∀ c ∈ rest.head?, isDigit c = false) : (t ++ rest).dropWhile isDigit = rest := by
  rw [List.dropWhile_append_of_pos ht]
  cases rest with
  | nil => rfl
  | cons c rest => rw [List.dropWhile_cons_of_neg (by simp [hrest c rfl])]

theorem natText_ne_nil (n : ℕ) : natText n ≠ [] := by
  intro h
  have hlength : (natText n).length = 0 := congrArg List.length h
  simp [natText] at hlength

theorem isDigit_of_mem_natText {n : ℕ} {c : CChar} (h : c ∈ natText n) : isDigit c = true :=
  isDigit_of_mem_padded h

theorem not_isSpace_of_isDigit {c : CChar} (h : isDigit c = true) : isSpace c = false := by
  simp only [isDigit, decide_eq_true_iff] at h
  simp only [isSpace, decide_eq_false_iff_not]
  omega

theorem clampLong_eq {v : Int} (hlow : -9223372036854775808 ≤ v)
    (hhigh : v ≤ 9223372036854775807) : clampLong v = v := by
  rw [clampLong, if_neg (by omega), if_neg (by omega)]

theorem strtol_digits {t : CString} (hne : t ≠ []) (ht : ∀ c ∈ t, isDigit c = true) :
    strtol t = (clampLong (digitsValue t), []) := by
  obtain ⟨c, cs, rfl⟩ := List.exists_cons_of_ne_nil hne
  have hc := ht c List.mem_cons_self
  have hdrop : (c :: cs).dropWhile isSpace = c :: cs :=
    List.dropWhile_cons_of_neg (by simp [not_isSpace_of_isDigit hc])
  have hrange : 48 ≤ c.val.val ∧ c.val.val ≤ 57 := by simpa [isDigit] using hc
  have htake : (c :: cs).takeWhile isDigit = c :: cs := by
    simpa using @takeWhile_digits _ [] ht (by simp)
  have hrest : (c :: cs).dropWhile isDigit = [] := by
    simpa using @dropWhile_digits _ [] ht (by simp)
  have hminus : ¬c.val.val = 45 := by omega
  have hplus : ¬c.val.val = 43 := by omega
  simp [strtol, hdrop, hminus, hplus, htake, hrest]

theorem strtol_minus {t : CString} (hne : t ≠ []) (ht : ∀ c ∈ t, isDigit c = true) :
    strtol (minus :: t) = (clampLong (-(digitsValue t : Int)), []) := by
  have hdrop : (minus :: t).dropWhile isSpace = minus :: t :=
    List.dropWhile_cons_of_neg (by decide)
  have hval : minus.val.val = 45 := rfl
  have htake : t.takeWhile isDigit = t := by
    simpa using @takeWhile_digits _ [] ht (by simp)
  have hrest : t.dropWhile isDigit = [] := by
    simpa using @dropWhile_digits _ [] ht (by simp)
  simp [strtol, hdrop, hval, htake, hrest, hne]

theorem strtol_intText {n : Int} (hlow : -9223372036854775808 ≤ n)
    (hhigh : n ≤ 9223372036854775807) : strtol (intText n) = (n, []) := by
  rw [intText]
  split
  · next hneg =>
    rw [strtol_minus (natText_ne_nil _) fun c => isDigit_of_mem_natText, digitsValue_natText,
      clampLong_eq (by omega) (by omega)]
    congr 1
    omega
  · next hpos =>
    rw [strtol_digits (natText_ne_nil _) fun c => isDigit_of_mem_natText, digitsValue_natText,
      clampLong_eq (by omega) (by omega)]
    congr 1
    omega

end Owsd
