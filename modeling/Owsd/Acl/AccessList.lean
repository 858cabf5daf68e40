import Owsd.Acl.Compare
import Mathlib.Data.List.Induction

/-!
The access list of `ubusx_acl.c`: which local objects a session that
authenticated with a TLS certificate may see and call.

Entries are kept in a tree ordered by `ubus_object_path_compare`; an entry
that compares equal to one already there is refused, silently. Two facts
decide what the list means. Whatever was loaded, some kept entry shares a
name with it (`exists_kept_overlap`), so a refusal is harmless when the kept
entry is the broader one, and loses names when it is the narrower one
(`Late`). And a request is looked up with the same comparison, which reads
it as a pattern too: a request that ends in `*` is granted as soon as it
shares one name with a kept entry.
-/

namespace Owsd.Acl

open SearchTree

/-! ### Loading -/

/-- The part of an entry before `->`, which is where its list of methods
starts. -/
def beforeArrow : CString → CString
  | [] => []
  | c :: cs =>
      match cs with
      | d :: _ =>
          if c.val = 45 ∧ d.val = 62 then [] else c :: beforeArrow cs
      | [] => [c]

/-- The tokens `strtok_r` yields: the nonempty runs of bytes between
delimiters. -/
def strtok (delim : CChar) (s : CString) : List CString :=
  (s.splitOn delim).filter fun t => !t.isEmpty

def space : CChar := .ofChar ' ' (by decide)

section
variable (B : Rebalance CString)

/-- `ubusx_acl__add_object`: drop the methods and insert the name. The tree
refuses a name that compares equal to one it has; the source logs that and
goes on. -/
def ubusxAclAddObject (uxaclObjects : AvlTree CString) (object : CString) : AvlTree CString :=
  insert ubusObjectPathCompare B uxaclObjects (beforeArrow object)

/-- `ubusx_acl__add_objects`: add each entry of a space-separated list. -/
def ubusxAclAddObjects (uxaclObjects : AvlTree CString) (objects : Option CString) :
    AvlTree CString :=
  match objects with
  | none => uxaclObjects
  | some objects =>
      if objects.length = 0 then uxaclObjects
      else (strtok space objects).foldl (ubusxAclAddObject B) uxaclObjects

end

/-- `ubusx_acl__allow_object`: an empty list allows everything. -/
def ubusxAclAllowObject (uxaclObjects : AvlTree CString) (objname : CString) : Bool :=
  if uxaclObjects.isEmpty then true
  else (uxaclObjects.find ubusObjectPathCompare objname).isSome

/-- `ubusx_acl__allow_method`: methods are not restricted yet. -/
def ubusxAclAllowMethod (_uxaclObjects : AvlTree CString) (_objname _methodname : CString) : Bool :=
  true

inductive Load where
  | addObjects (objects : Option CString)
  | addObject (object : CString)

def Load.apply (B : Rebalance CString) (t : AvlTree CString) : Load → AvlTree CString
  | .addObjects objects => ubusxAclAddObjects B t objects
  | .addObject object => ubusxAclAddObject B t object

def load (B : Rebalance CString) (loads : List Load) : AvlTree CString :=
  loads.foldl (Load.apply B) .nil

def Load.entries : Load → List CString
  | .addObjects none => []
  | .addObjects (some objects) => (strtok space objects).map beforeArrow
  | .addObject object => [beforeArrow object]

def entries (loads : List Load) : List CString := loads.flatMap Load.entries

def keep (B : Rebalance CString) (es : List CString) : AvlTree CString :=
  es.foldl (insert ubusObjectPathCompare B) .nil

theorem load_apply_eq (B : Rebalance CString) (t : AvlTree CString) (l : Load) :
    l.apply B t = l.entries.foldl (insert ubusObjectPathCompare B) t := by
  cases l with
  | addObject object => rfl
  | addObjects objects =>
      cases objects with
      | none => rfl
      | some objects =>
          simp only [Load.apply, ubusxAclAddObjects, Load.entries, List.foldl_map]
          split
          · next h =>
            obtain rfl : objects = [] := List.length_eq_zero_iff.mp h
            rfl
          · rfl

/-- Loading is inserting the entries one after the other, however they were
grouped into calls. -/
theorem load_eq_keep (B : Rebalance CString) (loads : List Load) :
    load B loads = keep B (entries loads) := by
  unfold load keep
  generalize (AvlTree.nil : AvlTree CString) = t
  induction loads generalizing t with
  | nil => rfl
  | cons l ls ih =>
      rw [List.foldl_cons, load_apply_eq, ih]
      simp [entries]

/-! ### What is kept -/

section
variable {B : Rebalance CString}

@[simp] theorem keep_nil : keep B [] = .nil := rfl

@[simp] theorem keep_append_singleton (es : List CString) (e : CString) :
    keep B (es ++ [e]) = insert ubusObjectPathCompare B (keep B es) e := by
  simp [keep]

theorem ordered_keep (es : List CString) :
    Ordered ubusObjectPathCompare (keep B es).inorder := by
  induction es using List.reverseRecOn with
  | nil => exact List.Pairwise.nil
  | append_singleton es e ih =>
      rw [keep_append_singleton]
      exact ordered_insert (fun _ _ => patternCompare_swap) (searchable_of_ordered ih e) ih

theorem searchable_keep (es : List CString) (q : CString) :
    Searchable ubusObjectPathCompare q (keep B es).inorder :=
  searchable_of_ordered (ordered_keep es) q

/-- An entry is kept when no kept entry compares equal to it. -/
theorem mem_keep_append_singleton {es : List CString} {e k : CString} :
    k ∈ (keep B (es ++ [e])).inorder ↔ k ∈ (keep B es).inorder ∨
      (k = e ∧ ∀ x ∈ (keep B es).inorder, ubusObjectPathCompare e x ≠ 0) := by
  rw [keep_append_singleton]
  exact mem_inorder_insert (searchable_keep es e)

theorem mem_keep_append {es fs : List CString} {k : CString}
    (h : k ∈ (keep B es).inorder) : k ∈ (keep B (es ++ fs)).inorder := by
  induction fs using List.reverseRecOn with
  | nil => simpa using h
  | append_singleton fs f ih =>
      rw [← List.append_assoc]
      exact mem_keep_append_singleton.mpr (Or.inl ih)

theorem mem_of_mem_keep {es : List CString} {k : CString} (h : k ∈ (keep B es).inorder) :
    k ∈ es := by
  induction es using List.reverseRecOn with
  | nil => simp [AvlTree.inorder] at h
  | append_singleton es e ih =>
      rcases mem_keep_append_singleton.mp h with h | ⟨rfl, -⟩
      · exact List.mem_append_left _ (ih h)
      · simp

/-- Right after an entry was loaded, a kept entry shares a name with it. -/
theorem exists_kept_overlap_last (es : List CString) (e : CString) :
    ∃ k ∈ (keep B (es ++ [e])).inorder, Pattern.Overlap (toPattern e) (toPattern k) := by
  by_cases h : ∀ x ∈ (keep B es).inorder, ubusObjectPathCompare e x ≠ 0
  · exact ⟨e, mem_keep_append_singleton.mpr (Or.inr ⟨rfl, h⟩),
      Pattern.Broader.overlap fun _ hx => hx⟩
  · push Not at h
    obtain ⟨x, hx, hq⟩ := h
    exact ⟨x, mem_keep_append_singleton.mpr (Or.inl hx), patternCompare_eq_zero_iff.mp hq⟩

theorem exists_kept_overlap {es : List CString} {e : CString} (he : e ∈ es) :
    ∃ k ∈ (keep B es).inorder, Pattern.Overlap (toPattern e) (toPattern k) := by
  obtain ⟨l, r, rfl⟩ := List.append_of_mem he
  obtain ⟨k, hk, ho⟩ := exists_kept_overlap_last (B := B) l e
  refine ⟨k, ?_, ho⟩
  rw [show l ++ e :: r = (l ++ [e]) ++ r by simp]
  exact mem_keep_append hk

theorem keep_isEmpty {es : List CString} (h : es ≠ []) : (keep B es).isEmpty = false := by
  obtain ⟨e, he⟩ := List.exists_mem_of_ne_nil es h
  obtain ⟨k, hk, -⟩ := exists_kept_overlap (B := B) he
  rw [Bool.eq_false_iff]
  intro hempty
  rw [AvlTree.isEmpty_iff.mp hempty] at hk
  cases hk

/-- With entries loaded, an object string is allowed exactly when it shares a
name with a kept entry. -/
theorem allowObject_keep_iff {es : List CString} (h : es ≠ []) (s : CString) :
    ubusxAclAllowObject (keep B es) s = true ↔
      ∃ k ∈ (keep B es).inorder, Pattern.Overlap (toPattern s) (toPattern k) := by
  simp only [ubusxAclAllowObject, keep_isEmpty h, Bool.false_eq_true, if_false]
  rw [find_isSome_iff (searchable_keep es s)]
  exact exists_congr fun k => and_congr_right fun _ => patternCompare_eq_zero_iff

end

/-! ### What an entry covers -/

/-- The entry equals the name, or ends in `*` and the name starts with the
text before the `*`. -/
def Covers (entry name : CString) : Prop :=
  if isWildcard entry then stem entry <+: name else entry = name

instance (entry name : CString) : Decidable (Covers entry name) :=
  inferInstanceAs (Decidable (if isWildcard entry then _ else _))

theorem covers_of_mem_names {e n : CString} (h : n ∈ (toPattern e).names) : Covers e n := by
  cases hw : isWildcard e with
  | true =>
      rw [toPattern_wildcard hw] at h
      simpa [Covers, hw] using h.2
  | false =>
      rw [toPattern_literal hw] at h
      simpa [Covers, hw] using h.symm

theorem mem_names_of_covers {e n : CString} (h : Covers e n) (hn : n ≠ []) :
    n ∈ (toPattern e).names := by
  cases hw : isWildcard e with
  | true =>
      rw [toPattern_wildcard hw]
      exact ⟨hn, by simpa [Covers, hw] using h⟩
  | false =>
      rw [toPattern_literal hw]
      exact Eq.symm (by simpa [Covers, hw] using h)

/-- A literal shares a name with a pattern exactly when it is one of its
names. -/
theorem overlap_literal_iff {n e : CString} (hn : isWildcard n = false) :
    Pattern.Overlap (toPattern n) (toPattern e) ↔ n ∈ (toPattern e).names := by
  rw [toPattern_literal hn]
  constructor
  · rintro ⟨x, hx, he⟩
    rw [Pattern.mem_names_exactly] at hx
    exact hx ▸ he
  · exact fun h => ⟨n, rfl, h⟩

end Owsd.Acl
