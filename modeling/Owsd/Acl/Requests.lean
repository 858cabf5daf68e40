import Owsd.Acl.AccessList
import Mathlib.Algebra.Order.BigOperators.Group.List
import Mathlib.Algebra.Order.Ring.Nat

/-!
Requests against the access list.

Which objects a request can reach depends on the request only; whether it is
allowed depends on its sharing one name with a kept entry. The two agree for
a literal request. For a request `p*` they agree when the entries name every
object below `p`, which finitely many of them can do in two ways: one of them
is at least as broad, or `p` itself is listed and so is, for each byte, what
continues `p` with it.
-/

namespace Owsd.Acl

open SearchTree

/-- The objects a lookup of `s` can denote. -/
def LookupDenotes (s object : CString) : Prop :=
  if isWildcard s then stem s <+: object else object = s

instance (s object : CString) : Decidable (LookupDenotes s object) :=
  inferInstanceAs (Decidable (if isWildcard s then _ else _))

/-- The entries cover every name that starts with `p`. -/
inductive StemCovered (es : List CString) : CString → Prop
  | broader {e p : CString} :
      e ∈ es → isWildcard e = true → stem e <+: p → StemCovered es p
  | split {p : CString} :
      p ∈ es → isWildcard p = false → (∀ c, StemCovered es (p ++ [c])) → StemCovered es p

theorem StemCovered.covers {es : List CString} {p : CString} (h : StemCovered es p) :
    ∀ o, p <+: o → ∃ e ∈ es, Covers e o := by
  induction h with
  | @broader e p he hw hp =>
      exact fun o ho => ⟨e, he, by simpa [Covers, hw] using hp.trans ho⟩
  | @split p he hw _ ih =>
      rintro o ⟨r, rfl⟩
      cases r with
      | nil => exact ⟨p, he, by simp [Covers, hw]⟩
      | cons c cs => exact ih c _ ⟨cs, by simp⟩

/-- Conversely, entries that cover all extensions of `p` do it in one of the
two ways: below the longest entry there is nothing left to split. -/
theorem stemCovered_of_covers {es : List CString} {p : CString}
    (h : ∀ o, p <+: o → ∃ e ∈ es, Covers e o) : StemCovered es p := by
  obtain ⟨m, hm⟩ : ∃ m, ∀ e ∈ es, e.length ≤ p.length + m :=
    ⟨(es.map List.length).sum, fun e he =>
      (List.single_le_sum (fun _ _ => Nat.zero_le _) _ (List.mem_map_of_mem he)).trans
        (Nat.le_add_left ..)⟩
  induction m generalizing p with
  | zero =>
      obtain ⟨e, he, hc⟩ := h (p ++ [star]) (List.prefix_append ..)
      cases hw : isWildcard e with
      | true =>
          have hpre : stem e <+: p ++ [star] := by simpa [Covers, hw] using hc
          have hlen : (stem e).length ≤ p.length := by
            rw [stem, List.length_dropLast]
            have := hm e he
            omega
          exact .broader he hw (List.prefix_of_prefix_length_le hpre (List.prefix_append ..) hlen)
      | false =>
          have heq : e = p ++ [star] := by simpa [Covers, hw] using hc
          simp [heq] at hw
  | succ m ih =>
      obtain ⟨e, he, hc⟩ := h p (List.prefix_refl p)
      cases hw : isWildcard e with
      | true => exact .broader he hw (by simpa [Covers, hw] using hc)
      | false =>
          obtain rfl : e = p := by simpa [Covers, hw] using hc
          refine .split he hw fun c => ih (fun o ho => h o ((List.prefix_append ..).trans ho)) ?_
          intro f hf
          have := hm f hf
          simp only [List.length_append, List.length_singleton]
          omega

/-- A refused wildcard that shares a name with the request, while no kept
entry does, is broader than the request. -/
theorem exists_kept_or_stemCovered {B : Rebalance CString} {es : List CString} {s e : CString}
    (hs : isWildcard s = true) (he : e ∈ es)
    (ho : Pattern.Overlap (toPattern s) (toPattern e)) :
    (∃ k ∈ (keep B es).inorder, Pattern.Overlap (toPattern s) (toPattern k)) ∨
      StemCovered es (stem s) := by
  obtain ⟨k, hk, hke⟩ := exists_kept_overlap (B := B) he
  rcases hke.nested with hek | hke'
  · rcases ho.nested with hse | hes
    · exact Or.inl ⟨k, hk, (hse.trans hek).overlap⟩
    · -- The entry covers the request, so it is a wildcard with a shorter stem.
      rw [toPattern_wildcard hs] at hes
      obtain ⟨t, ht, hts⟩ := hes.startsWith_inv
      cases hw : isWildcard e with
      | true =>
          rw [toPattern_wildcard hw, Pattern.startsWith.injEq] at ht
          exact Or.inr (.broader he hw (ht ▸ hts))
      | false => simp [toPattern_literal hw] at ht
  · exact Or.inl ⟨k, hk, ho.mono hke'⟩

/-- An allowed object string denotes covered objects only, exactly if the
string does not end in `*`, or no entry compares equal to it, or the entries
cover everything below its stem. -/
theorem allowObject_sound_iff (B : Rebalance CString) (loads : List Load) (s : CString)
    (hloads : entries loads ≠ []) :
    (ubusxAclAllowObject (load B loads) s = true →
        ∀ object, LookupDenotes s object → ∃ e ∈ entries loads, Covers e object) ↔
      isWildcard s = false ∨
      (∀ e ∈ entries loads, ubusObjectPathCompare s e ≠ 0) ∨
      StemCovered (entries loads) (stem s) := by
  rw [load_eq_keep, allowObject_keep_iff hloads]
  constructor
  · intro h
    cases hs : isWildcard s with
    | false => exact Or.inl rfl
    | true =>
        refine Or.inr ?_
        by_cases hno : ∀ e ∈ entries loads, ubusObjectPathCompare s e ≠ 0
        · exact Or.inl hno
        · refine Or.inr ?_
          push Not at hno
          obtain ⟨e, he, hse⟩ := hno
          rcases exists_kept_or_stemCovered (B := B) hs he (patternCompare_eq_zero_iff.mp hse)
            with hk | hcov
          · refine stemCovered_of_covers fun o ho => h hk o ?_
            simpa [LookupDenotes, hs] using ho
          · exact hcov
  · rintro (hs | hno | hcov) ⟨k, hk, hok⟩ object hobj
    · -- A literal request is one of the names of the entry that was found.
      obtain rfl : object = s := by simpa [LookupDenotes, hs] using hobj
      exact ⟨k, mem_of_mem_keep hk, covers_of_mem_names ((overlap_literal_iff hs).mp hok)⟩
    · exact absurd (patternCompare_eq_zero_iff.mpr hok) (hno k (mem_of_mem_keep hk))
    · cases hs : isWildcard s with
      | true => exact hcov.covers object (by simpa [LookupDenotes, hs] using hobj)
      | false =>
          obtain rfl : object = s := by simpa [LookupDenotes, hs] using hobj
          exact ⟨k, mem_of_mem_keep hk, covers_of_mem_names ((overlap_literal_iff hs).mp hok)⟩

/-- The condition can be met: a literal request against the documented list
`netmode router* wifi*`. -/
theorem allowObject_sound_iff_router :
    entries [.addObjects (some (.ofString "netmode router* wifi*"))] ≠ [] ∧
    (ubusxAclAllowObject
        (load (.id _) [.addObjects (some (.ofString "netmode router* wifi*"))])
        (.ofString "router.network") = true →
      ∀ object, LookupDenotes (.ofString "router.network") object →
        ∃ e ∈ entries [.addObjects (some (.ofString "netmode router* wifi*"))],
          Covers e object) :=
  ⟨by decide, (allowObject_sound_iff (.id _) _ _ (by decide)).mpr (Or.inl (by decide))⟩

/-- A list that names only `foobar` allows the request `foo*`, which a lookup
resolves to any object whose name starts with `foo`. -/
theorem allowObject_wildcard_request :
    ubusxAclAllowObject (load (.id _) [.addObject (.ofString "foobar")])
        (.ofString "foo*") = true ∧
      LookupDenotes (.ofString "foo*") (.ofString "foosecret") ∧
      ¬∃ e ∈ entries [.addObject (.ofString "foobar")], Covers e (.ofString "foosecret") := by
  decide

end Owsd.Acl
