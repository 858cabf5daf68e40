import Owsd.Basis.CString
import Owsd.Basis.PrefixPattern
import Owsd.Basis.SearchTree

/-!
The comparison of object patterns that drives the two pattern trees of the
program: the access list of `ubusx_acl.c` and the object list of
`wsubus_client.c`. Both files carry the same comparison.

A pattern is a name, or a name followed by `*`. Patterns that can name a
common object compare equal, which is not a transitive notion: `ab` and
`ac` both equal `a*`. What saves the search is that patterns that do *not*
compare equal are ordered like the sets of names they stand for, one
entirely before the other (`patternCompare_spec`), so that keys of which no
two compare equal can be searched with any probe at all
(`searchable_of_ordered`).
-/

namespace Owsd.Acl

open SearchTree

/-- The byte `*`. -/
def star : CChar := .ofChar '*' (by decide)

instance : Nontrivial CChar := ⟨star, ⟨1, by decide⟩, by decide⟩

/-- `pattern[len - 1] == '*'`, for a pattern with at least one byte. -/
def isWildcard (pattern : CString) : Bool := pattern.getLast? = some star

/-- The comparison shared by the two trees. The length difference of the
first branch is an `int` in the source; names are far shorter than `2 ^ 31`
bytes (a blob attribute has fewer than `2 ^ 24`), so the conversion does not
change it. -/
def patternCompare (pattern1 pattern2 : CString) : Int :=
  let len1 := pattern1.length
  let len2 := pattern2.length
  if len1 = 0 ∨ len2 = 0 then (len1 : Int) - len2
  else
    let p1Wildcard := isWildcard pattern1
    let p2Wildcard := isWildcard pattern2
    -- none has wildcard
    if !p1Wildcard && !p2Wildcard then strcmp pattern1 pattern2
    -- only one pattern has wildcard
    else if p1Wildcard != p2Wildcard then
      strncmp pattern1 pattern2 ((if p1Wildcard then len1 else len2) - 1)
    -- both have wildcard
    else strncmp pattern1 pattern2 ((if len1 < len2 then len1 else len2) - 1)

/-- `ubus_object_path_compare` of `ubusx_acl.c`. -/
def ubusObjectPathCompare (k1 k2 : CString) : Int := patternCompare k1 k2

/-- `client_path_comp` of `wsubus_client.c`. -/
def clientPathComp (k1 k2 : CString) : Int := patternCompare k1 k2

/-- `broader_pattern` of `wsubus_client.c`: for two patterns that compare
equal, whether the first is at least as broad as the second. -/
def broaderPattern (p1 p2 : CString) : Bool :=
  let p1Wildcard := isWildcard p1
  let p2Wildcard := isWildcard p2
  -- none has wildcard
  if !p1Wildcard && !p2Wildcard then true
  -- only one has wildcard, return that
  else if p1Wildcard != p2Wildcard then p1Wildcard
  -- both have wildcard, return the shortest one
  else decide (p1.length ≤ p2.length)

/-- The text before the `*` of a wildcard. -/
def stem (pattern : CString) : CString := pattern.dropLast

def toPattern (key : CString) : Pattern CChar :=
  if isWildcard key then .startsWith (stem key) else .exactly key

@[simp] theorem isWildcard_append_star (s : CString) : isWildcard (s ++ [star]) = true := by
  simp [isWildcard]

@[simp] theorem isWildcard_nil : isWildcard [] = false := rfl

theorem toPattern_wildcard {key : CString} (h : isWildcard key = true) :
    toPattern key = .startsWith (stem key) := by simp [toPattern, h]

theorem toPattern_literal {key : CString} (h : isWildcard key = false) :
    toPattern key = .exactly key := by simp [toPattern, h]

/-- Names of a wildcard agree with it on any number of bytes up to the
stem. -/
theorem take_of_mem_wildcard {key n : CString} {m : ℕ} (h : isWildcard key = true)
    (hn : n ∈ (toPattern key).names) (hm : m ≤ key.length - 1) : n.take m = key.take m := by
  rw [toPattern_wildcard h, Pattern.mem_names_startsWith] at hn
  have hstem : (stem key).length = key.length - 1 := List.length_dropLast
  have hkey : stem key <+: key := List.dropLast_prefix key
  rw [take_eq_of_prefixed hn.2 (by omega), take_eq_of_prefixed hkey (by omega)]

theorem take_of_mem_literal {key n : CString} (h : isWildcard key = false)
    (hn : n ∈ (toPattern key).names) (m : ℕ) : n.take m = key.take m := by
  rw [toPattern_literal h, Pattern.mem_names_exactly] at hn
  rw [hn]

/-- What a comparison that came out with sign `c` says about the names of
the two patterns. -/
def Decides (a b : CString) (c : Int) : Prop :=
  (c < 0 ∧ Pattern.Before (toPattern a) (toPattern b)) ∨
  (c = 0 ∧ Pattern.Overlap (toPattern a) (toPattern b)) ∨
  (0 < c ∧ Pattern.Before (toPattern b) (toPattern a))

/-- Comparing truncations on which all names of either pattern agree decides
the patterns, provided equal truncations mean a common name. -/
theorem decides_of_take {a b : CString} (n : ℕ)
    (ha : ∀ x ∈ (toPattern a).names, x.take n = a.take n)
    (hb : ∀ y ∈ (toPattern b).names, y.take n = b.take n)
    (heq : a.take n = b.take n → Pattern.Overlap (toPattern a) (toPattern b)) :
    Decides a b (strcmp (a.take n) (b.take n)) := by
  rcases lt_trichotomy (strcmp (a.take n) (b.take n)) 0 with h | h | h
  · refine Or.inl ⟨h, fun x hx y hy => lt_of_take_lt_take (n := n) ?_⟩
    rw [ha x hx, hb y hy]
    exact strcmp_neg_iff.mp h
  · exact Or.inr (Or.inl ⟨h, heq (strcmp_eq_zero_iff.mp h)⟩)
  · refine Or.inr (Or.inr ⟨h, fun y hy x hx => lt_of_take_lt_take (n := n) ?_⟩)
    rw [ha x hx, hb y hy]
    exact strcmp_pos_iff.mp h

theorem prefix_of_take_eq {p s : CString} (h : s.take p.length = p) : p <+: s :=
  h ▸ List.take_prefix p.length s

/-- A literal that agrees with a wildcard on its stem is one of its names. -/
theorem overlap_literal_wildcard {a b : CString} (ha : a ≠ []) (hla : isWildcard a = false)
    (hwb : isWildcard b = true) (h : a.take (b.length - 1) = b.take (b.length - 1)) :
    Pattern.Overlap (toPattern a) (toPattern b) := by
  rw [toPattern_literal hla, toPattern_wildcard hwb]
  refine ⟨a, rfl, ha, prefix_of_take_eq ?_⟩
  rw [stem, List.length_dropLast, h, List.dropLast_eq_take]

/-- Wildcards that agree on the shorter stem share the extensions of the
longer one. -/
theorem overlap_wildcards {a b : CString} (ha : isWildcard a = true) (hb : isWildcard b = true)
    (hlen : a.length ≤ b.length) (h : a.take (a.length - 1) = b.take (a.length - 1)) :
    Pattern.Overlap (toPattern a) (toPattern b) := by
  rw [toPattern_wildcard ha, toPattern_wildcard hb]
  have hstem : stem a <+: stem b := by
    refine prefix_of_take_eq ?_
    rw [stem, stem, List.length_dropLast, List.dropLast_eq_take, List.dropLast_eq_take,
      List.take_take, min_eq_left (by omega), ← h]
  exact ⟨stem b ++ [star], ⟨by simp, hstem.trans (List.prefix_append ..)⟩,
    ⟨by simp, List.prefix_append ..⟩⟩

/-- The comparison orders patterns like the names they stand for: it is zero
exactly when two patterns have a common name, and otherwise all names of one
come before all names of the other. -/
theorem patternCompare_spec (a b : CString) : Decides a b (patternCompare a b) := by
  by_cases hempty : a.length = 0 ∨ b.length = 0
  · -- An empty key names the empty string only, which is below every name.
    have hpc : patternCompare a b = (a.length : Int) - b.length := by
      simp only [patternCompare, hempty, if_true]
    have hnames : ∀ key : CString, key ≠ [] → ∀ y ∈ (toPattern key).names, y ≠ [] := by
      intro key hkey y hy
      cases hw : isWildcard key with
      | true => rw [toPattern_wildcard hw] at hy; exact hy.1
      | false => rw [toPattern_literal hw] at hy; exact hy ▸ hkey
    have hnil : ∀ x ∈ (toPattern []).names, x = [] := fun x hx => hx
    have hlt : ∀ y : CString, y ≠ [] → ([] : CString) < y := by
      intro y hy
      cases y with
      | nil => exact absurd rfl hy
      | cons c cs => exact List.nil_lt_cons c cs
    rw [hpc]
    cases a with
    | nil =>
        cases b with
        | nil => exact Or.inr (Or.inl ⟨by simp, ⟨[], rfl, rfl⟩⟩)
        | cons c cs =>
            have hlen : (([] : CString).length : Int) - ((c :: cs).length : Int) < 0 := by
              rw [List.length_nil, List.length_cons]
              omega
            refine Or.inl ⟨hlen, fun x hx y hy => ?_⟩
            rw [hnil x hx]
            exact hlt y (hnames _ (by simp) y hy)
    | cons c cs =>
        obtain rfl : b = [] := by simpa using hempty
        refine Or.inr (Or.inr ⟨by simp, fun y hy x hx => ?_⟩)
        rw [hnil y hy]
        exact hlt x (hnames _ (by simp) x hx)
  · have hane : a ≠ [] := fun h => hempty (Or.inl (by simp [h]))
    have hbne : b ≠ [] := fun h => hempty (Or.inr (by simp [h]))
    cases ha : isWildcard a with
    | false =>
        cases hb : isWildcard b with
        | false =>
            have hpc : patternCompare a b =
                strcmp (a.take (a.length + b.length)) (b.take (a.length + b.length)) := by
              simp [patternCompare, hane, hbne, ha, hb, List.take_of_length_le]
            rw [hpc]
            refine decides_of_take _ (fun x hx => take_of_mem_literal ha hx _)
              (fun y hy => take_of_mem_literal hb hy _) fun h => ?_
            have hab : a = b := by simpa [List.take_of_length_le] using h
            rw [hab]
            exact Pattern.Broader.overlap fun _ hx => hx
        | true =>
            have hpc : patternCompare a b =
                strcmp (a.take (b.length - 1)) (b.take (b.length - 1)) := by
              simp [patternCompare, hane, hbne, ha, hb, strncmp_eq_strcmp_take]
            rw [hpc]
            exact decides_of_take _ (fun x hx => take_of_mem_literal ha hx _)
              (fun y hy => take_of_mem_wildcard hb hy le_rfl)
              fun h => overlap_literal_wildcard hane ha hb h
    | true =>
        cases hb : isWildcard b with
        | false =>
            have hpc : patternCompare a b =
                strcmp (a.take (a.length - 1)) (b.take (a.length - 1)) := by
              simp [patternCompare, hane, hbne, ha, hb, strncmp_eq_strcmp_take]
            rw [hpc]
            exact decides_of_take _ (fun x hx => take_of_mem_wildcard ha hx le_rfl)
              (fun y hy => take_of_mem_literal hb hy _)
              fun h => (overlap_literal_wildcard hbne hb ha h.symm).symm
        | true =>
            have hpc : patternCompare a b =
                strcmp (a.take (min a.length b.length - 1))
                  (b.take (min a.length b.length - 1)) := by
              simp [patternCompare, hane, hbne, ha, hb, strncmp_eq_strcmp_take, min_def_lt]
            rw [hpc]
            refine decides_of_take _ (fun x hx => take_of_mem_wildcard ha hx (by omega))
              (fun y hy => take_of_mem_wildcard hb hy (by omega)) fun h => ?_
            rcases le_total a.length b.length with hle | hle
            · rw [min_eq_left hle] at h
              exact overlap_wildcards ha hb hle h
            · rw [min_eq_right hle] at h
              exact (overlap_wildcards hb ha hle h.symm).symm

theorem patternCompare_neg_iff {a b : CString} :
    patternCompare a b < 0 ↔ Pattern.Before (toPattern a) (toPattern b) := by
  rcases patternCompare_spec a b with ⟨h, hb⟩ | ⟨h, hb⟩ | ⟨h, hb⟩
  · exact ⟨fun _ => hb, fun _ => h⟩
  · exact ⟨fun h' => by omega, fun h' => absurd hb h'.not_overlap⟩
  · exact ⟨fun h' => by omega, fun h' => absurd hb h'.asymm⟩

theorem patternCompare_eq_zero_iff {a b : CString} :
    patternCompare a b = 0 ↔ Pattern.Overlap (toPattern a) (toPattern b) := by
  rcases patternCompare_spec a b with ⟨h, hb⟩ | ⟨h, hb⟩ | ⟨h, hb⟩
  · exact ⟨fun h' => by omega, fun h' => absurd h' hb.not_overlap⟩
  · exact ⟨fun _ => hb, fun _ => h⟩
  · exact ⟨fun h' => by omega, fun h' => absurd h'.symm hb.not_overlap⟩

theorem patternCompare_pos_iff {a b : CString} :
    0 < patternCompare a b ↔ Pattern.Before (toPattern b) (toPattern a) := by
  rcases patternCompare_spec a b with ⟨h, hb⟩ | ⟨h, hb⟩ | ⟨h, hb⟩
  · exact ⟨fun h' => by omega, fun h' => absurd h' hb.asymm⟩
  · exact ⟨fun h' => by omega, fun h' => absurd hb.symm h'.not_overlap⟩
  · exact ⟨fun _ => hb, fun _ => h⟩

theorem patternCompare_swap {a b : CString} (h : 0 < patternCompare a b) :
    patternCompare b a < 0 :=
  patternCompare_neg_iff.mpr (patternCompare_pos_iff.mp h)

theorem patternCompare_pos_of_neg {a b : CString} (h : patternCompare a b < 0) :
    0 < patternCompare b a :=
  patternCompare_pos_iff.mpr (patternCompare_neg_iff.mp h)

theorem patternCompare_neg_trans {a b c : CString} (hab : patternCompare a b < 0)
    (hbc : patternCompare b c < 0) : patternCompare a c < 0 :=
  patternCompare_neg_iff.mpr
    ((patternCompare_neg_iff.mp hab).trans (patternCompare_neg_iff.mp hbc))

/-- Among ascending keys only a key itself compares equal to it. -/
theorem eq_of_patternCompare_eq_zero {ks : List CString} (h : Ordered patternCompare ks)
    {a b : CString} (ha : a ∈ ks) (hb : b ∈ ks) (hab : patternCompare a b = 0) : a = b := by
  have hks : ks.Pairwise fun a b => patternCompare a b = 0 → a = b := by
    refine List.Pairwise.imp ?_ h
    intro a b hlt heq
    omega
  have hflip : ks.Pairwise (flip fun a b => patternCompare a b = 0 → a = b) := by
    refine List.Pairwise.imp ?_ h
    intro a b hlt heq
    have hpos := patternCompare_pos_of_neg hlt
    omega
  exact List.Pairwise.forall_of_forall_of_flip (fun _ _ _ => rfl) hks hflip ha hb hab

/-- Keys of which no two compare equal can be searched with every probe,
literal or wildcard. -/
theorem searchable_of_ordered {ks : List CString} (h : Ordered patternCompare ks) (q : CString) :
    Searchable patternCompare q ks := by
  refine List.Pairwise.imp ?_ h
  intro a b hab
  constructor
  · intro hqa
    exact patternCompare_neg_trans hqa hab
  · intro hqb
    exact patternCompare_pos_of_neg (patternCompare_neg_trans hab (patternCompare_swap hqb))

/-- On patterns with a common name `broaderPattern` tells which of the two
contains the other. -/
theorem broader_of_broaderPattern {a b : CString}
    (ho : Pattern.Overlap (toPattern a) (toPattern b)) :
    if broaderPattern a b then Pattern.Broader (toPattern a) (toPattern b)
    else Pattern.Broader (toPattern b) (toPattern a) := by
  have hexact : ∀ {c : CString} {p : Pattern CChar}, isWildcard c = false →
      Pattern.Overlap p (toPattern c) → Pattern.Broader p (toPattern c) := by
    rintro c p hc ⟨x, hp, hx⟩ y hy
    rw [toPattern_literal hc, Pattern.mem_names_exactly] at hx hy
    exact hy ▸ hx ▸ hp
  cases ha : isWildcard a with
  | false =>
      cases hb : isWildcard b with
      | false => simpa [broaderPattern, ha, hb] using hexact hb ho
      | true => simpa [broaderPattern, ha, hb] using hexact ha ho.symm
  | true =>
      cases hb : isWildcard b with
      | false => simpa [broaderPattern, ha, hb] using hexact hb ho
      | true =>
          -- Two stems of a common name are comparable, so lengths decide.
          have hstem : ∀ {c d : CString}, isWildcard c = true → isWildcard d = true →
              Pattern.Overlap (toPattern c) (toPattern d) → c.length ≤ d.length →
              Pattern.Broader (toPattern c) (toPattern d) := by
            intro c d hc hd hcd hle
            rw [toPattern_wildcard hc, toPattern_wildcard hd] at hcd ⊢
            obtain ⟨x, hx, hy⟩ := hcd
            have hpre : stem c <+: stem d :=
              List.prefix_of_prefix_length_le hx.2 hy.2 (by
                rw [stem, stem, List.length_dropLast, List.length_dropLast]
                omega)
            exact fun n hn => ⟨hn.1, hpre.trans hn.2⟩
          simp only [broaderPattern, ha, hb, Bool.not_true, Bool.and_self, Bool.false_eq_true,
            if_false, bne_self_eq_false, decide_eq_true_eq]
          split
          · next hle => exact hstem ha hb ho hle
          · next hle => exact hstem hb ha ho.symm (by omega)

end Owsd.Acl
