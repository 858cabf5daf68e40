import Mathlib.Data.List.Infix
import Mathlib.Data.List.Lex
import Mathlib.Order.Fin.Basic
import Mathlib.Order.Basic
import Mathlib.Tactic.Common

/-!
C strings and the comparisons of `<string.h>` the development needs.

A C string is the list of its bytes before the terminator, so every byte
of it is nonzero; the byte type carries that fact and no operation on
strings has to re-establish it. Comparison is of bytes as `unsigned char`,
with the terminator standing below every byte, which makes `strcmp` the
lexicographic order of the lists and `strncmp` the same order on the
truncated lists. Both readings are lemmas here; what comes after uses the
order and never the byte arithmetic. Comparing without regard to case is
comparing the strings in small letters.
-/

namespace Owsd

/-- Numbers are bytes by this instance in all modules. -/
@[instance] theorem byteNeZero : @NeZero ℕ Zero.ofOfNat0 256 := ⟨by decide⟩

/-- A byte of a C string: any byte but the terminator. -/
abbrev CChar := {c : Fin 256 // c ≠ 0}

/-- A C string, without its terminator. -/
abbrev CString := List CChar

def CChar.ofChar (c : Char) (h : c.toNat % 256 ≠ 0) : CChar :=
  ⟨Fin.ofNat 256 c.toNat, fun heq => h (congrArg Fin.val heq)⟩

namespace CString

/-- The C string spelled by a Lean literal. Only ASCII literals are
written in this development. -/
def ofString (s : String) : CString :=
  s.toList.filterMap fun c =>
    if h : c.toNat % 256 ≠ 0 then some (.ofChar c h) else none

end CString

/-- The difference of the first two bytes that differ, the terminator
counting as zero. -/
def strcmp : CString → CString → Int
  | [], [] => 0
  | [], b :: _ => -(b.val.val : Int)
  | a :: _, [] => a.val.val
  | a :: as, b :: bs =>
      if a = b then strcmp as bs else (a.val.val : Int) - b.val.val

/-- `strcmp` of at most the first `n` bytes. -/
def strncmp : CString → CString → ℕ → Int
  | _, _, 0 => 0
  | [], [], _ + 1 => 0
  | [], b :: _, _ + 1 => -(b.val.val : Int)
  | a :: _, [], _ + 1 => a.val.val
  | a :: as, b :: bs, n + 1 =>
      if a = b then strncmp as bs n else (a.val.val : Int) - b.val.val

/-- `strstr(s, t) != NULL`: `t` occurs in `s`. -/
def strstr (s t : CString) : Bool := decide (t <:+: s)

theorem CChar.pos (c : CChar) : 0 < c.val.val :=
  Nat.pos_of_ne_zero fun h => c.property (Fin.ext h)

theorem CChar.lt_iff (a b : CChar) : a < b ↔ a.val.val < b.val.val := Iff.rfl

@[simp] theorem strcmp_self (s : CString) : strcmp s s = 0 := by
  induction s with
  | nil => rfl
  | cons a as ih => simp [strcmp, ih]

theorem strcmp_eq_zero_iff {s t : CString} : strcmp s t = 0 ↔ s = t := by
  induction s generalizing t with
  | nil =>
      cases t with
      | nil => simp [strcmp]
      | cons b bs => simpa [strcmp] using b.property
  | cons a as ih =>
      cases t with
      | nil => simpa [strcmp] using a.property
      | cons b bs =>
          by_cases hab : a = b
          · simp [strcmp, hab, ih]
          · have hne : a.val.val ≠ b.val.val := fun h =>
              hab (Subtype.ext (Fin.ext h))
            simp only [strcmp, hab, if_false, List.cons.injEq, false_and, iff_false]
            omega

theorem strcmp_neg_iff {s t : CString} : strcmp s t < 0 ↔ s < t := by
  induction s generalizing t with
  | nil =>
      cases t with
      | nil => simp [strcmp]
      | cons b bs =>
          have hb := CChar.pos b
          simp only [strcmp, List.nil_lt_cons, iff_true]
          omega
  | cons a as ih =>
      cases t with
      | nil => simp [strcmp]
      | cons b bs =>
          by_cases hab : a = b
          · simp [strcmp, hab, ih]
          · simp only [strcmp, hab, if_false, List.cons_lt_cons_iff, false_and, or_false,
              CChar.lt_iff]
            omega

theorem strcmp_swap (s t : CString) : strcmp t s = -strcmp s t := by
  induction s generalizing t with
  | nil => cases t <;> simp [strcmp]
  | cons a as ih =>
      cases t with
      | nil => simp [strcmp]
      | cons b bs =>
          by_cases hab : a = b
          · simp [strcmp, hab, ih]
          · simp only [strcmp, hab, Ne.symm hab, if_false]
            omega

theorem strcmp_pos_iff {s t : CString} : 0 < strcmp s t ↔ t < s := by
  rw [← strcmp_neg_iff, strcmp_swap s t]
  omega

/-- Bounding a comparison is comparing the truncated strings. -/
theorem strncmp_eq_strcmp_take (s t : CString) (n : ℕ) :
    strncmp s t n = strcmp (s.take n) (t.take n) := by
  induction n generalizing s t with
  | zero => simp [strncmp]
  | succ n ih =>
      cases s with
      | nil => cases t <;> simp [strncmp, strcmp]
      | cons a as =>
          cases t with
          | nil => simp [strncmp, strcmp]
          | cons b bs => simp [strncmp, strcmp, ih]

/-! ### Prefixes in the lexicographic order

A string and its extensions form an interval of the order: comparing the
truncations decides the comparison of every extension. -/

theorem lt_of_take_lt_take {s t : CString} {n : ℕ} (h : s.take n < t.take n) : s < t := by
  induction n generalizing s t with
  | zero => simp at h
  | succ n ih =>
      cases s with
      | nil =>
          cases t with
          | nil => simp at h
          | cons b bs => simp
      | cons a as =>
          cases t with
          | nil => simp at h
          | cons b bs =>
              simp only [List.take_succ_cons, List.cons_lt_cons_iff] at h ⊢
              rcases h with h | ⟨hab, h⟩
              · exact Or.inl h
              · exact Or.inr ⟨hab, ih h⟩

theorem take_eq_of_prefixed {s p : CString} {n : ℕ} (h : p <+: s) (hn : n ≤ p.length) :
    s.take n = p.take n := by
  obtain ⟨r, rfl⟩ := h
  rw [List.take_append_of_le_length hn]

/-! ### Ignoring case -/

theorem tolower_lt {c : CChar} (h : c.val.val ≤ 90) : c.val.val + 32 < 256 := by omega

theorem tolower_ne {c : CChar} (h : c.val.val ≤ 90) :
    (⟨c.val.val + 32, tolower_lt h⟩ : Fin 256) ≠ 0 := fun heq => by
  have hval : c.val.val + 32 = 0 := congrArg Fin.val heq
  omega

/-- `tolower` in the locale `"C"`: `A` to `Z` are the only bytes that change. -/
def tolower (c : CChar) : CChar :=
  if h : 65 ≤ c.val.val ∧ c.val.val ≤ 90 then ⟨⟨c.val.val + 32, tolower_lt h.2⟩, tolower_ne h.2⟩
  else c

def lowercase (s : CString) : CString := s.map tolower

/-- `strncmp` of the strings with their letters made small. -/
def strncasecmp (s t : CString) (n : ℕ) : Int := strncmp (lowercase s) (lowercase t) n

@[simp] theorem lowercase_length (s : CString) : (lowercase s).length = s.length :=
  List.length_map ..

/-- Comparing no more bytes than the first string has asks for a prefix
only. -/
theorem strncmp_length_eq_zero_iff {s t : CString} : strncmp s t s.length = 0 ↔ s <+: t := by
  rw [strncmp_eq_strcmp_take, strcmp_eq_zero_iff, List.take_length, List.prefix_iff_eq_take]

theorem strncasecmp_length_eq_zero_iff {s t : CString} :
    strncasecmp s t s.length = 0 ↔ lowercase s <+: lowercase t := by
  rw [strncasecmp, ← lowercase_length s, strncmp_length_eq_zero_iff]

end Owsd
