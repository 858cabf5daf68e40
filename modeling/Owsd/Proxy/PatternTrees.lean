import Owsd.Proxy.ObjectList

/-!
The two pattern trees, in every state a sequence of insertions can bring
them to: the object list, where a new pattern deletes what it mutes, and the
access list, where a pattern that compares equal to a kept one is refused.

On arbitrary patterns the comparison is not transitive, and a descent in a
tree could pass an equal key by. Neither tree ever holds two keys that
compare equal, and that is enough: what follows from it is collected in
`IsSearchTree`, and is all that a search asks of a tree, whatever the probe.
-/

namespace Owsd.Proxy

open SearchTree Acl

/-- What makes a tree a search tree, for a comparison that need not come from
an order. -/
structure IsSearchTree (cmp : CString → CString → Int) (t : AvlTree CString) : Prop where
  /-- No two of the keys compare equal. -/
  apart : t.inorder.Pairwise fun a b => cmp a b ≠ 0 ∧ cmp b a ≠ 0
  /-- From left to right the keys ascend. -/
  sorted : t.inorder.Pairwise fun a b => cmp a b < 0 ∧ 0 < cmp b a
  /-- On the keys the comparison is transitive, also where it allows for
  equality. -/
  trans : ∀ a ∈ t.inorder, ∀ b ∈ t.inorder, ∀ c ∈ t.inorder,
    (cmp a b < 0 → cmp b c < 0 → cmp a c < 0) ∧ (cmp a b ≤ 0 → cmp b c ≤ 0 → cmp a c ≤ 0)
  /-- The keys that equal a probe stand next to each other, behind the
  smaller ones and before the greater ones. -/
  run : ∀ q, ∃ before run after, t.inorder = before ++ run ++ after ∧
    (∀ k ∈ before, 0 < cmp q k) ∧ (∀ k ∈ run, cmp q k = 0) ∧ ∀ k ∈ after, cmp q k < 0
  /-- A search returns a key that equals the probe. -/
  found : ∀ q k, t.find cmp q = some k → k ∈ t.inorder ∧ cmp q k = 0
  /-- It returns one whenever there is one. -/
  finds : ∀ q, (∃ k ∈ t.inorder, cmp q k = 0) → (t.find cmp q).isSome

theorem isSearchTree_of_ordered {t : AvlTree CString} (h : Ordered patternCompare t.inorder) :
    IsSearchTree patternCompare t := by
  have hsorted : t.inorder.Pairwise fun a b =>
      patternCompare a b < 0 ∧ 0 < patternCompare b a := by
    refine List.Pairwise.imp ?_ h
    intro a b hab
    exact ⟨hab, patternCompare_pos_of_neg hab⟩
  refine ⟨?_, hsorted, ?_, ?_, ?_, ?_⟩
  · refine List.Pairwise.imp ?_ hsorted
    intro a b hab
    omega
  · intro a ha b hb c hc
    refine ⟨patternCompare_neg_trans, fun hab hbc => ?_⟩
    -- Where one of the two comparisons is an equality, its keys are the same.
    rcases Int.le_iff_lt_or_eq.mp hab with hab | hab
    · rcases Int.le_iff_lt_or_eq.mp hbc with hbc | hbc
      · exact (patternCompare_neg_trans hab hbc).le
      · rw [← eq_of_patternCompare_eq_zero h hb hc hbc]
        exact hab.le
    · rw [eq_of_patternCompare_eq_zero h ha hb hab]
      exact hbc
  · intro q
    exact (searchable_of_ordered h q).exists_run
  · intro q k
    exact find_eq_some
  · intro q
    exact find_isSome (searchable_of_ordered h q)

/-! ### The trees of one insertion -/

/-- The trees `wsubus_client_path_pattern_add` searches for the new pattern:
the one it finds, and one for each deletion. -/
def searchedTrees (B : Rebalance CString) (new : CString) :
    ℕ → AvlTree CString → List (AvlTree CString)
  | 0, _ => []
  | rounds + 1, pathsTree =>
      pathsTree ::
        match pathsTree.find clientPathComp new with
        | some found =>
            if broaderPattern found new then []
            else searchedTrees B new rounds (delete clientPathComp B pathsTree new)
        | none => []

/-- The deletions leave ascending keys after each round, not only after the
last. -/
theorem ordered_searchedTrees {B : Rebalance CString} {new : CString} {rounds : ℕ}
    {t : AvlTree CString} (h : Ordered clientPathComp t.inorder) :
    ∀ u ∈ searchedTrees B new rounds t, Ordered clientPathComp u.inorder := by
  induction rounds generalizing t with
  | zero => simp [searchedTrees]
  | succ rounds ih =>
      intro u hu
      rw [searchedTrees] at hu
      rcases List.mem_cons.mp hu with rfl | hu
      · exact h
      · cases hfound : t.find clientPathComp new with
        | none => simp [hfound] at hu
        | some found =>
            cases hb : broaderPattern found new with
            | true => simp [hfound, hb] at hu
            | false =>
                simp only [hfound, hb, Bool.false_eq_true, if_false] at hu
                exact ih (ordered_delete hfound h) u hu

/-! ### Both trees -/

theorem ordered_load (B : Rebalance CString) (loads : List Load) :
    Ordered ubusObjectPathCompare (load B loads).inorder := by
  rw [load_eq_keep]
  exact ordered_keep _

/-- A pattern that compares equal to a kept one leaves the access list as it
is. -/
theorem ubusxAclAddObject_refused {B : Rebalance CString} {t : AvlTree CString}
    {object k : CString} (ht : Ordered ubusObjectPathCompare t.inorder) (hk : k ∈ t.inorder)
    (heq : ubusObjectPathCompare (beforeArrow object) k = 0) :
    ubusxAclAddObject B t object = t := by
  have hs : Searchable ubusObjectPathCompare (beforeArrow object) t.inorder :=
    searchable_of_ordered ht _
  have hnone : t.insertLeaf ubusObjectPathCompare (beforeArrow object) = none :=
    (insertLeaf_eq_none_iff hs).mpr ⟨k, hk, heq⟩
  rw [ubusxAclAddObject, SearchTree.insert, hnone]

/-- Both pattern trees stay search trees. Whatever patterns were added to the
object list, in whatever order, the insertions come to an end, and the tree
they leave and all trees that a further insertion searches are search trees.
So is the access list after any sequence of calls, where a pattern that
compares equal to a kept one changes nothing. -/
theorem patternTrees_isSearchTree (B : Rebalance CString) :
    (∀ patterns : List PathPattern, ∃ pathsTree, pathPatterns B patterns = some pathsTree ∧
      IsSearchTree clientPathComp pathsTree ∧
      ∀ new : PathPattern,
        ∀ t ∈ searchedTrees B new.val (pathsTree.inorder.length + 1) pathsTree,
          IsSearchTree clientPathComp t) ∧
    (∀ loads : List Load, IsSearchTree ubusObjectPathCompare (load B loads) ∧
      ∀ object : CString,
        (∃ k ∈ (load B loads).inorder, ubusObjectPathCompare (beforeArrow object) k = 0) →
        ubusxAclAddObject B (load B loads) object = load B loads) := by
  constructor
  · intro patterns
    obtain ⟨t, ht, hdesc⟩ := exists_pathPatterns B patterns
    refine ⟨t, ht, isSearchTree_of_ordered hdesc.ordered, ?_⟩
    intro new u hu
    exact isSearchTree_of_ordered (ordered_searchedTrees hdesc.ordered u hu)
  · intro loads
    have hload : Ordered ubusObjectPathCompare (load B loads).inorder := ordered_load B loads
    refine ⟨isSearchTree_of_ordered hload, ?_⟩
    rintro object ⟨k, hk, heq⟩
    exact ubusxAclAddObject_refused hload hk heq

/-- Two names muted by a pattern, and a name refused because of it. -/
theorem patternTrees_isSearchTree_muted :
    (∃ pathsTree, pathPatterns (.id _) mutedNames = some pathsTree ∧
      IsSearchTree clientPathComp pathsTree) ∧
    ubusxAclAddObject (.id _) (load (.id _) [.addObject (.ofString "a*")]) (.ofString "ab") =
      load (.id _) [.addObject (.ofString "a*")] := by
  obtain ⟨hclient, hacl⟩ := patternTrees_isSearchTree (.id _)
  obtain ⟨t, ht, htree, -⟩ := hclient mutedNames
  refine ⟨⟨t, ht, htree⟩, ?_⟩
  exact (hacl _).2 _ ⟨.ofString "a*", by decide, by decide⟩

end Owsd.Proxy
