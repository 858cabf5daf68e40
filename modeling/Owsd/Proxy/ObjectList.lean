import Owsd.Acl.AccessList

/-!
The object list of the proxy (`wsubus_client.c`): which objects of the remote
buses are shown on the local one.

The configured patterns are kept in a tree driven by `client_path_comp`, the
comparison that also drives the access list. Here a new pattern first deletes
the kept ones that it mutes, so that what is kept stays free of overlaps and
covers all that was configured (`Describes`). This is what makes one search
in the tree decide whether an object matches, although the comparison is not
transitive.
-/

namespace Owsd.Proxy

open SearchTree Acl

/-- A pattern as `wsubus_client_path_pattern_add` needs it: `broader_pattern`
reads its last byte. -/
abbrev PathPattern := {pattern : CString // pattern ≠ []}

/-- `wsubus_client_path_pattern_add`, given up when the loop has not ended
after `rounds` rounds. The loop looks for a kept pattern that compares equal
to the new one: a broader one makes the new one superfluous, others are
deleted. -/
def pathPatternAddLoop (B : Rebalance CString) (new : CString) :
    ℕ → AvlTree CString → Option (AvlTree CString)
  | 0, _ => none
  | rounds + 1, pathsTree =>
      match pathsTree.find clientPathComp new with
      | some found =>
          -- found a broader pattern, skip the new pattern
          if broaderPattern found new then some pathsTree
          -- the new pattern is broader, delete the found one
          else pathPatternAddLoop B new rounds (delete clientPathComp B pathsTree new)
      | none => some (insert clientPathComp B pathsTree new)

/-- `wsubus_client_path_pattern_add`. The loop gets one round more than there
are kept patterns. -/
def wsubusClientPathPatternAdd (B : Rebalance CString) (pathsTree : AvlTree CString)
    (pattern : PathPattern) : Option (AvlTree CString) :=
  pathPatternAddLoop B pattern.val (pathsTree.inorder.length + 1) pathsTree

def wsubusClientMatchPattern (pathsTree : AvlTree CString) (name : CString) : Bool :=
  -- no patterns == show all
  if pathsTree.isEmpty then true
  else (pathsTree.find clientPathComp name).isSome

def pathPatterns (B : Rebalance CString) (patterns : List PathPattern) :
    Option (AvlTree CString) :=
  patterns.foldlM (wsubusClientPathPatternAdd B) .nil

/-! ### What is kept -/

/-- The keys are free of overlaps, and name together what the configured
patterns name. -/
structure Describes (patterns : List CString) (keys : List CString) : Prop where
  ordered : Ordered clientPathComp keys
  configured : ∀ k ∈ keys, k ∈ patterns
  covered : ∀ p ∈ patterns, ∃ k ∈ keys, Pattern.Broader (toPattern k) (toPattern p)

/-- What holds of the keys while a new pattern deletes the narrower ones: the
names that went missing are names of the new pattern. -/
structure Clearing (patterns : List CString) (new : CString) (keys : List CString) : Prop where
  ordered : Ordered clientPathComp keys
  configured : ∀ k ∈ keys, k ∈ patterns
  covered : ∀ p ∈ patterns, (∃ k ∈ keys, Pattern.Broader (toPattern k) (toPattern p)) ∨
    Pattern.Broader (toPattern new) (toPattern p)

section
variable {B : Rebalance CString} {patterns : List CString} {new : CString}
  {t : AvlTree CString}

theorem Describes.clearing (h : Describes patterns t.inorder) :
    Clearing patterns new t.inorder :=
  ⟨h.ordered, h.configured, fun p hp => Or.inl (h.covered p hp)⟩

/-- The found pattern is the broader one: it covers the new one. -/
theorem Clearing.skip (h : Clearing patterns new t.inorder) {found : CString}
    (hfound : t.find clientPathComp new = some found) (hb : broaderPattern found new = true) :
    Describes (patterns ++ [new]) t.inorder := by
  obtain ⟨hmem, hcmp⟩ := find_eq_some hfound
  have ho : Pattern.Overlap (toPattern new) (toPattern found) := patternCompare_eq_zero_iff.mp hcmp
  have hbroad : Pattern.Broader (toPattern found) (toPattern new) := by
    simpa [hb] using broader_of_broaderPattern ho.symm
  refine ⟨h.ordered, fun k hk => List.mem_append_left _ (h.configured k hk), fun p hp => ?_⟩
  rcases List.mem_append.mp hp with hp | hp
  · rcases h.covered p hp with hk | hnew
    · exact hk
    · exact ⟨found, hmem, hbroad.trans hnew⟩
  · obtain rfl : p = new := by simpa using hp
    exact ⟨found, hmem, hbroad⟩

/-- The new pattern is the broader one: it covers what is deleted. -/
theorem Clearing.delete (h : Clearing patterns new t.inorder) {found : CString}
    (hfound : t.find clientPathComp new = some found) (hb : broaderPattern found new = false) :
    Clearing patterns new (delete clientPathComp B t new).inorder := by
  obtain ⟨-, hcmp⟩ := find_eq_some hfound
  have ho : Pattern.Overlap (toPattern new) (toPattern found) := patternCompare_eq_zero_iff.mp hcmp
  have hbroad : Pattern.Broader (toPattern new) (toPattern found) := by
    simpa [hb] using broader_of_broaderPattern ho.symm
  obtain ⟨l, r, h₁, h₂⟩ := inorder_delete (B := B) hfound
  refine ⟨ordered_delete hfound h.ordered, fun k hk => ?_, fun p hp => ?_⟩
  · refine h.configured k ?_
    rw [h₂] at hk
    rw [h₁, List.mem_append, List.mem_cons]
    rcases List.mem_append.mp hk with hk | hk
    · exact Or.inl hk
    · exact Or.inr (Or.inr hk)
  · rcases h.covered p hp with ⟨k, hk, hkp⟩ | hnew
    · rw [h₁, List.mem_append, List.mem_cons] at hk
      rcases hk with hk | rfl | hk
      · exact Or.inl ⟨k, by simp [h₂, hk], hkp⟩
      · exact Or.inr (hbroad.trans hkp)
      · exact Or.inl ⟨k, by simp [h₂, hk], hkp⟩
    · exact Or.inr hnew

/-- Nothing compares equal any more: the new pattern goes in and closes the
gap. -/
theorem Clearing.insert (h : Clearing patterns new t.inorder)
    (hfound : t.find clientPathComp new = none) :
    Describes (patterns ++ [new]) (insert clientPathComp B t new).inorder := by
  have hs : Searchable clientPathComp new t.inorder := searchable_of_ordered h.ordered new
  have hnone : ∀ x ∈ t.inorder, clientPathComp new x ≠ 0 := by
    intro x hx heq
    have hsome := find_isSome hs ⟨x, hx, heq⟩
    simp [hfound] at hsome
  refine ⟨ordered_insert (fun _ _ => patternCompare_swap) hs h.ordered, fun k hk => ?_,
    fun p hp => ?_⟩
  · rcases (mem_inorder_insert hs).mp hk with hk | ⟨rfl, -⟩
    · exact List.mem_append_left _ (h.configured k hk)
    · simp
  · have hnew : new ∈ (SearchTree.insert clientPathComp B t new).inorder :=
      (mem_inorder_insert hs).mpr (Or.inr ⟨rfl, hnone⟩)
    rcases List.mem_append.mp hp with hp | hp
    · rcases h.covered p hp with ⟨k, hk, hkp⟩ | hnewp
      · exact ⟨k, (mem_inorder_insert hs).mpr (Or.inl hk), hkp⟩
      · exact ⟨new, hnew, hnewp⟩
    · obtain rfl : p = new := by simpa using hp
      exact ⟨p, hnew, fun _ hx => hx⟩

/-- The deletion loop ends: each round but the last takes a key out of the
tree. What it leaves describes the patterns with the new one. -/
theorem pathPatternAddLoop_eq_some {rounds : ℕ} (h : Clearing patterns new t.inorder)
    (hrounds : t.inorder.length < rounds) :
    ∃ t', pathPatternAddLoop B new rounds t = some t' ∧
      Describes (patterns ++ [new]) t'.inorder := by
  induction rounds generalizing t with
  | zero => omega
  | succ rounds ih =>
      simp only [pathPatternAddLoop]
      cases hfound : t.find clientPathComp new with
      | none => exact ⟨_, rfl, h.insert hfound⟩
      | some found =>
          cases hb : broaderPattern found new with
          | true => exact ⟨t, by simp [hb], h.skip hfound hb⟩
          | false =>
              have hlen : (SearchTree.delete clientPathComp B t new).inorder.length < rounds := by
                obtain ⟨l, r, h₁, h₂⟩ := inorder_delete (B := B) hfound
                rw [h₁, List.length_append, List.length_cons] at hrounds
                rw [h₂, List.length_append]
                omega
              simpa [hb] using ih (h.delete hfound hb) hlen

theorem exists_pathPatterns (B : Rebalance CString) (patterns : List PathPattern) :
    ∃ t, pathPatterns B patterns = some t ∧ Describes (patterns.map Subtype.val) t.inorder := by
  induction patterns using List.reverseRecOn with
  | nil => exact ⟨.nil, rfl, ⟨.nil, by simp [AvlTree.inorder], by simp⟩⟩
  | append_singleton patterns p ih =>
      obtain ⟨t, ht, hdesc⟩ := ih
      obtain ⟨t', ht', hdesc'⟩ : ∃ t', pathPatternAddLoop B p.val (t.inorder.length + 1) t =
          some t' ∧ Describes (patterns.map Subtype.val ++ [p.val]) t'.inorder :=
        pathPatternAddLoop_eq_some hdesc.clearing (Nat.lt_succ_self _)
      refine ⟨t', ?_, by simpa using hdesc'⟩
      rw [pathPatterns] at ht
      simp only [pathPatterns, List.foldlM_append, ht, List.foldlM_cons, List.foldlM_nil]
      simpa [wsubusClientPathPatternAdd] using ht'

/-- A name is matched exactly when a configured pattern names it. -/
theorem Describes.match_iff (h : Describes patterns t.inorder) {name : CString}
    (hne : name ≠ []) (hlit : isWildcard name = false) :
    wsubusClientMatchPattern t name = true ↔
      patterns = [] ∨ ∃ p ∈ patterns, Covers p name := by
  have hs : Searchable clientPathComp name t.inorder := searchable_of_ordered h.ordered name
  by_cases hnil : patterns = []
  · have hempty : t.inorder = [] := by
      refine List.eq_nil_iff_forall_not_mem.mpr fun k hk => ?_
      simpa [hnil] using h.configured k hk
    simp [wsubusClientMatchPattern, AvlTree.isEmpty_iff.mpr hempty, hnil]
  · have hempty : t.isEmpty = false := by
      obtain ⟨p, hp⟩ := List.exists_mem_of_ne_nil patterns hnil
      obtain ⟨k, hk, -⟩ := h.covered p hp
      rw [Bool.eq_false_iff, ne_eq, AvlTree.isEmpty_iff]
      exact List.ne_nil_of_mem hk
    simp only [wsubusClientMatchPattern, hempty, Bool.false_eq_true, if_false, hnil, false_or]
    rw [find_isSome_iff hs]
    constructor
    · rintro ⟨k, hk, hcmp⟩
      have ho := patternCompare_eq_zero_iff.mp hcmp
      exact ⟨k, h.configured k hk, covers_of_mem_names ((overlap_literal_iff hlit).mp ho)⟩
    · rintro ⟨p, hp, hcov⟩
      obtain ⟨k, hk, hkp⟩ := h.covered p hp
      have hmem : name ∈ (toPattern k).names := hkp (mem_names_of_covers hcov hne)
      exact ⟨k, hk, patternCompare_eq_zero_iff.mpr ((overlap_literal_iff hlit).mpr hmem)⟩

end

/-- The object list means what was configured, in any order: adding any
sequence of patterns comes to an end, and afterwards an object matches exactly
when nothing was configured or one of the patterns covers it. -/
theorem matchPattern_iff (B : Rebalance CString) (patterns : List PathPattern) :
    ∃ pathsTree, pathPatterns B patterns = some pathsTree ∧
      ∀ name : CString, name ≠ [] → isWildcard name = false →
        (wsubusClientMatchPattern pathsTree name = true ↔
          patterns = [] ∨ ∃ p ∈ patterns, Covers p.val name) := by
  obtain ⟨t, ht, hdesc⟩ := exists_pathPatterns B patterns
  refine ⟨t, ht, fun name hne hlit => ?_⟩
  rw [hdesc.match_iff hne hlit, List.map_eq_nil_iff]
  refine or_congr_right ⟨?_, ?_⟩
  · rintro ⟨p, hp, hcov⟩
    obtain ⟨q, hq, rfl⟩ := List.mem_map.mp hp
    exact ⟨q, hq, hcov⟩
  · rintro ⟨p, hp, hcov⟩
    exact ⟨p.val, List.mem_map_of_mem hp, hcov⟩

def mutedNames : List PathPattern :=
  [⟨.ofString "ab", by decide⟩, ⟨.ofString "ac", by decide⟩, ⟨.ofString "a*", by decide⟩]

theorem matchPattern_iff_muted :
    ∃ pathsTree, pathPatterns (.id _) mutedNames = some pathsTree ∧
      wsubusClientMatchPattern pathsTree (.ofString "ax") = true ∧
      wsubusClientMatchPattern pathsTree (.ofString "bx") = false := by
  obtain ⟨t, ht, h⟩ := matchPattern_iff (.id _) mutedNames
  refine ⟨t, ht, (h _ (by decide) (by decide)).mpr (by decide), ?_⟩
  rw [Bool.eq_false_iff, ne_eq, h _ (by decide) (by decide)]
  decide

end Owsd.Proxy
