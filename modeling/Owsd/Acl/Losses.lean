import Owsd.Acl.AccessList
import Mathlib.Data.List.Perm.Basic

/-!
Entries the access list loses.

An entry that compares equal to a kept one is refused. If the kept entry is
the broader of the two nothing is lost. If the new entry is broader, the
names that only it covers are lost: `foo` followed by `foo*` leaves `foo`
alone on the list. The sibling tree of `wsubus_client.c` meets the same
situation by deleting the narrower entries, which its comment calls muted by
the new one; here the new one is dropped instead. So the order of the entries
matters exactly as far as some entry comes after one that it mutes (`Late`),
and what the list allows is what the other entries cover (`Timely`).
-/

namespace Owsd.Acl

open SearchTree

/-- `new` mutes `old`: they compare equal and `old` is not the broader one.
This is the test on which the object list deletes `old`. -/
def Mutes (new old : CString) : Prop :=
  patternCompare new old = 0 ∧ broaderPattern old new = false

instance (new old : CString) : Decidable (Mutes new old) :=
  inferInstanceAs (Decidable (_ ∧ _))

/-- `e` is loaded at a point where an entry it mutes has been loaded. -/
def Late (es : List CString) (e : CString) : Prop :=
  ∃ before after, es = before ++ e :: after ∧ ∃ old ∈ before, Mutes e old

/-- `e` is loaded at a point where no entry it mutes has been loaded. -/
def Timely (es : List CString) (e : CString) : Prop :=
  ∃ before after, es = before ++ e :: after ∧ ∀ old ∈ before, ¬Mutes e old

theorem late_or_timely {es : List CString} {e : CString} (he : e ∈ es) :
    Late es e ∨ Timely es e := by
  obtain ⟨l, r, rfl⟩ := List.append_of_mem he
  by_cases h : ∃ old ∈ l, Mutes e old
  · exact Or.inl ⟨l, r, rfl, h⟩
  · push Not at h
    exact Or.inr ⟨l, r, rfl, h⟩

theorem Timely.append {es fs : List CString} {e : CString} (h : Timely es e) :
    Timely (es ++ fs) e := by
  obtain ⟨l, r, rfl, hl⟩ := h
  exact ⟨l, r ++ fs, by simp, hl⟩

section
variable {B : Rebalance CString}

/-- A kept entry came in time: had it muted an earlier entry, the kept entry
that shares a name with that one would have refused it. -/
theorem timely_of_mem_keep {es : List CString} {k : CString}
    (h : k ∈ (keep B es).inorder) : Timely es k := by
  induction es using List.reverseRecOn with
  | nil => simp [AvlTree.inorder] at h
  | append_singleton es e ih =>
      rcases mem_keep_append_singleton.mp h with h | ⟨rfl, hnew⟩
      · exact (ih h).append
      · refine ⟨es, [], by simp, fun old hold hmutes => ?_⟩
        have ho := patternCompare_eq_zero_iff.mp hmutes.1
        have hbroader : Pattern.Broader (toPattern k) (toPattern old) := by
          simpa [hmutes.2] using broader_of_broaderPattern ho.symm
        obtain ⟨x, hx, hox⟩ := exists_kept_overlap (B := B) hold
        exact hnew x hx (patternCompare_eq_zero_iff.mpr (hox.symm.mono hbroader).symm)

theorem Timely.exists_broader {es : List CString} {e : CString} (h : Timely es e) :
    ∃ k ∈ (keep B es).inorder, Pattern.Broader (toPattern k) (toPattern e) := by
  obtain ⟨l, r, rfl, hl⟩ := h
  have hmono : ∀ k ∈ (keep B (l ++ [e])).inorder, k ∈ (keep B (l ++ e :: r)).inorder := by
    intro k hk
    rw [show l ++ e :: r = (l ++ [e]) ++ r by simp]
    exact mem_keep_append hk
  by_cases hnew : ∀ x ∈ (keep B l).inorder, ubusObjectPathCompare e x ≠ 0
  · exact ⟨e, hmono e (mem_keep_append_singleton.mpr (Or.inr ⟨rfl, hnew⟩)), fun _ hx => hx⟩
  · push Not at hnew
    obtain ⟨x, hx, hex⟩ := hnew
    refine ⟨x, hmono x (mem_keep_append_singleton.mpr (Or.inl hx)), ?_⟩
    have hbp : broaderPattern x e = true := by
      by_contra hne
      exact hl x (mem_of_mem_keep hx) ⟨hex, by simpa using hne⟩
    simpa [hbp] using broader_of_broaderPattern (patternCompare_eq_zero_iff.mp hex).symm

/-- A literal name is allowed exactly when a timely entry covers it. -/
theorem allowObject_literal_iff {es : List CString} (hes : es ≠ []) {n : CString}
    (hne : n ≠ []) (hlit : isWildcard n = false) :
    ubusxAclAllowObject (keep B es) n = true ↔ ∃ e, Timely es e ∧ Covers e n := by
  rw [allowObject_keep_iff hes]
  constructor
  · rintro ⟨k, hk, ho⟩
    exact ⟨k, timely_of_mem_keep hk, covers_of_mem_names ((overlap_literal_iff hlit).mp ho)⟩
  · rintro ⟨e, he, hc⟩
    obtain ⟨k, hk, hke⟩ := he.exists_broader (B := B)
    exact ⟨k, hk, (overlap_literal_iff hlit).mpr (hke (mem_names_of_covers hc hne))⟩

end

/-- What a late entry covers is covered by timely ones. -/
def LateCovered (es : List CString) : Prop :=
  ∀ n, n ≠ [] → isWildcard n = false → (∃ e, Late es e ∧ Covers e n) →
    ∃ e, Timely es e ∧ Covers e n

/-- The loaded list allows every literal name that one of its nonempty
entries covers. -/
def NothingLost (B : Rebalance CString) (loads : List Load) : Prop :=
  ∀ n, n ≠ [] → isWildcard n = false →
    (∃ e ∈ entries loads, e ≠ [] ∧ Covers e n) →
    ubusxAclAllowObject (load B loads) n = true

theorem nothingLost_iff_lateCovered (B : Rebalance CString) (loads : List Load) :
    NothingLost B loads ↔ LateCovered (entries loads) := by
  have hmem : ∀ {e}, Timely (entries loads) e ∨ Late (entries loads) e → e ∈ entries loads := by
    rintro e (⟨l, r, h, -⟩ | ⟨l, r, h, -⟩) <;> simp [h]
  constructor
  · rintro h n hne hlit ⟨e, hlate, hc⟩
    have he := hmem (Or.inr hlate)
    have hene : e ≠ [] := by
      rintro rfl
      exact hne (Eq.symm (by simpa [Covers] using hc))
    have hallow := h n hne hlit ⟨e, he, hene, hc⟩
    rw [load_eq_keep] at hallow
    exact (allowObject_literal_iff (List.ne_nil_of_mem he) hne hlit).mp hallow
  · rintro h n hne hlit ⟨e, he, -, hc⟩
    rw [load_eq_keep, allowObject_literal_iff (List.ne_nil_of_mem he) hne hlit]
    rcases late_or_timely he with hlate | htimely
    · exact h n hne hlit ⟨e, hlate, hc⟩
    · exact ⟨e, htimely, hc⟩

/-- With nothing lost, what is allowed depends on the set of entries only. -/
theorem allowObject_iff_covered {B : Rebalance CString} {loads : List Load}
    (h : LateCovered (entries loads)) {n : CString} (hne : n ≠ []) (hlit : isWildcard n = false) :
    ubusxAclAllowObject (load B loads) n = true ↔
      entries loads = [] ∨ ∃ e ∈ entries loads, Covers e n := by
  by_cases hes : entries loads = []
  · simp [load_eq_keep, hes, ubusxAclAllowObject, AvlTree.isEmpty]
  · rw [load_eq_keep, allowObject_literal_iff hes hne hlit]
    constructor
    · rintro ⟨e, ⟨l, r, hlr, -⟩, hc⟩
      exact Or.inr ⟨e, by simp [hlr], hc⟩
    · rintro (h' | ⟨e, he, hc⟩)
      · exact absurd h' hes
      · rcases late_or_timely he with hlate | htimely
        · exact h n hne hlit ⟨e, hlate, hc⟩
        · exact ⟨e, htimely, hc⟩

/-- The list allows every literal name that one of its entries covers exactly
if timely entries cover what the late ones do; and two orders of the same
entries that meet this allow the same names. -/
theorem entries_kept_iff (B : Rebalance CString) (loads : List Load) :
    (NothingLost B loads ↔ LateCovered (entries loads)) ∧
    ∀ loads', (entries loads).Perm (entries loads') →
      LateCovered (entries loads) → LateCovered (entries loads') →
      ∀ n, n ≠ [] → isWildcard n = false →
        ubusxAclAllowObject (load B loads) n = ubusxAclAllowObject (load B loads') n := by
  refine ⟨nothingLost_iff_lateCovered B loads, ?_⟩
  intro loads' hperm h h' n hne hlit
  rw [Bool.eq_iff_iff, allowObject_iff_covered h hne hlit, allowObject_iff_covered h' hne hlit]
  have hnil : entries loads = [] ↔ entries loads' = [] := by
    rw [← List.length_eq_zero_iff, ← List.length_eq_zero_iff, hperm.length_eq]
  rw [hnil]
  exact or_congr_right (exists_congr fun e => and_congr_left fun _ => hperm.mem_iff)

/-- Broad entries first, nothing is late: `foo*` before `foo` keeps the names
below `foo`. -/
theorem entries_kept_iff_broad_first :
    NothingLost (.id _) [.addObject (.ofString "foo*"), .addObject (.ofString "foo")] := by
  refine (entries_kept_iff (.id _) _).1.mpr ?_
  rintro n - - ⟨e, ⟨l, r, hlr, old, hold, hmutes⟩, -⟩
  have hes : entries [.addObject (.ofString "foo*"), .addObject (.ofString "foo")] =
      [CString.ofString "foo*", CString.ofString "foo"] := by decide
  rw [hes] at hlr
  match l with
  | [] => cases hold
  | [a] =>
      simp only [List.cons_append, List.nil_append, List.cons.injEq] at hlr
      obtain ⟨rfl, rfl, -⟩ := hlr
      obtain rfl : old = _ := List.mem_singleton.mp hold
      exact absurd hmutes (by decide)
  | _ :: _ :: _ => simp at hlr

/-- Narrow entry first: `foo*` is refused because `foo` is there, and `foobar`
is not allowed although `foo*` covers it. -/
theorem foobar_lost :
    ¬NothingLost (.id _) [.addObject (.ofString "foo"), .addObject (.ofString "foo*")] := by
  intro h
  have hallow := h (CString.ofString "foobar") (by decide) (by decide)
    ⟨CString.ofString "foo*", by decide, by decide, by decide⟩
  exact absurd hallow (by decide)

end Owsd.Acl
