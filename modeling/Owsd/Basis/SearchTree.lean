import Mathlib.Data.List.Basic
import Mathlib.Tactic.Common

/-!
Binary search trees driven by a comparison function.

Nothing is asked of the comparison: it may call different keys equal and
need not be transitive. What makes a search work is a relation between the
*probe* and the stored keys only, `Searchable`: read in order, the stored
keys first compare below the probe, then equal to it, then above it. Under
it the search finds an equal key whenever one is stored, and an insertion
splits the stored keys at the one place where the new key belongs.

A tree that keeps itself balanced moves nodes about after an insertion, but
leaves the order of its keys alone. `Rebalance` is such a rearrangement;
every result is proved for all of them, and so for whichever one a library
implements.
-/

namespace Owsd.SearchTree

inductive AvlTree (κ : Type*) where
  | nil
  | node (left : AvlTree κ) (key : κ) (right : AvlTree κ)

namespace AvlTree

variable {κ : Type*}

def inorder : AvlTree κ → List κ
  | nil => []
  | node l k r => l.inorder ++ k :: r.inorder

def isEmpty : AvlTree κ → Bool
  | nil => true
  | node .. => false

theorem isEmpty_iff {t : AvlTree κ} : t.isEmpty = true ↔ t.inorder = [] := by
  cases t <;> simp [isEmpty, inorder]

variable (cmp : κ → κ → Int)

/-- Descend towards the probe `q`, which is the first argument of every
comparison, and return the key that compares equal to it. -/
def find (q : κ) : AvlTree κ → Option κ
  | nil => none
  | node l k r =>
      if cmp q k < 0 then l.find q
      else if 0 < cmp q k then r.find q
      else some k

/-- Put `q` in the place where the descent towards it ends. The insertion is
refused when the descent meets an equal key. -/
def insertLeaf (q : κ) : AvlTree κ → Option (AvlTree κ)
  | nil => some (node nil q nil)
  | node l k r =>
      if cmp q k < 0 then (l.insertLeaf q).map fun l' => node l' k r
      else if 0 < cmp q k then (r.insertLeaf q).map fun r' => node l k r'
      else none

def append : AvlTree κ → AvlTree κ → AvlTree κ
  | nil, t => t
  | node l k r, t => node l k (r.append t)

/-- Take out the node at which the descent towards `q` ends. -/
def removeNode (q : κ) : AvlTree κ → AvlTree κ
  | nil => nil
  | node l k r =>
      if cmp q k < 0 then node (l.removeNode q) k r
      else if 0 < cmp q k then node l k (r.removeNode q)
      else l.append r

end AvlTree

/-- A rearrangement of trees that keeps the order of the keys. -/
structure Rebalance (κ : Type*) where
  map : AvlTree κ → AvlTree κ
  inorder_map : ∀ t, (map t).inorder = t.inorder

def Rebalance.id (κ : Type*) : Rebalance κ := ⟨fun t => t, fun _ => rfl⟩

variable {κ : Type*} (cmp : κ → κ → Int)

/-- Insertion into a self-balancing tree; a refused key leaves the tree as
it was. -/
def insert (B : Rebalance κ) (t : AvlTree κ) (q : κ) : AvlTree κ :=
  match t.insertLeaf cmp q with
  | some t' => B.map t'
  | none => t

/-- Deletion, from a self-balancing tree, of the node that a search for `q`
finds. -/
def delete (B : Rebalance κ) (t : AvlTree κ) (q : κ) : AvlTree κ := B.map (t.removeNode cmp q)

/-- Once a key of the list compares above the probe, so do all later ones,
and the keys before one that compares below it compare below it too. -/
def Searchable (q : κ) (ks : List κ) : Prop :=
  ks.Pairwise fun a b => (cmp q a < 0 → cmp q b < 0) ∧ (0 < cmp q b → 0 < cmp q a)

def Ordered (ks : List κ) : Prop := ks.Pairwise fun a b => cmp a b < 0

variable {cmp}

theorem searchable_append_cons {q k : κ} {l r : List κ} :
    Searchable cmp q (l ++ k :: r) ↔
      Searchable cmp q l ∧ Searchable cmp q r ∧
      (∀ b ∈ r, (cmp q k < 0 → cmp q b < 0) ∧ (0 < cmp q b → 0 < cmp q k)) ∧
      (∀ a ∈ l, (cmp q a < 0 → cmp q k < 0) ∧ (0 < cmp q k → 0 < cmp q a)) ∧
      ∀ a ∈ l, ∀ b ∈ r, (cmp q a < 0 → cmp q b < 0) ∧ (0 < cmp q b → 0 < cmp q a) := by
  unfold Searchable
  rw [List.pairwise_append, List.pairwise_cons]
  constructor
  · rintro ⟨hl, ⟨hk, hr⟩, hlr⟩
    exact ⟨hl, hr, hk, fun a ha => hlr a ha k (by simp),
      fun a ha b hb => hlr a ha b (by simp [hb])⟩
  · rintro ⟨hl, hr, hk, hlk, hlr⟩
    refine ⟨hl, ⟨hk, hr⟩, fun a ha b hb => ?_⟩
    rcases List.mem_cons.mp hb with rfl | hb
    · exact hlk a ha
    · exact hlr a ha b hb

/-- What a search returns is stored and compares equal, whatever the tree
and the comparison. -/
theorem find_eq_some {t : AvlTree κ} {q k : κ} (h : t.find cmp q = some k) :
    k ∈ t.inorder ∧ cmp q k = 0 := by
  induction t with
  | nil => simp [AvlTree.find] at h
  | node l x r ihl ihr =>
      simp only [AvlTree.find] at h
      split at h
      · exact ⟨by simp [AvlTree.inorder, (ihl h).1], (ihl h).2⟩
      · split at h
        · exact ⟨by simp [AvlTree.inorder, (ihr h).1], (ihr h).2⟩
        · obtain rfl : x = k := Option.some.inj h
          exact ⟨by simp [AvlTree.inorder], by omega⟩

/-- A search among keys that the probe can search finds an equal key
whenever there is one. -/
theorem find_isSome {t : AvlTree κ} {q : κ} (hs : Searchable cmp q t.inorder)
    (h : ∃ k ∈ t.inorder, cmp q k = 0) : (t.find cmp q).isSome := by
  induction t with
  | nil => simp [AvlTree.inorder] at h
  | node l x r ihl ihr =>
      obtain ⟨hl, hr, hxr, hlx, -⟩ := searchable_append_cons.mp hs
      obtain ⟨k, hk, hq⟩ := h
      have hk' : k ∈ l.inorder ∨ k = x ∨ k ∈ r.inorder := by
        simpa [AvlTree.inorder] using hk
      simp only [AvlTree.find]
      split
      · next hlt =>
        refine ihl hl ?_
        rcases hk' with hk' | rfl | hk'
        · exact ⟨k, hk', hq⟩
        · omega
        · have := (hxr k hk').1 hlt
          omega
      · split
        · next hgt =>
          refine ihr hr ?_
          rcases hk' with hk' | rfl | hk'
          · have := (hlx k hk').2 hgt
            omega
          · omega
          · exact ⟨k, hk', hq⟩
        · rfl

theorem find_isSome_iff {t : AvlTree κ} {q : κ} (hs : Searchable cmp q t.inorder) :
    (t.find cmp q).isSome ↔ ∃ k ∈ t.inorder, cmp q k = 0 := by
  refine ⟨fun h => ?_, find_isSome hs⟩
  obtain ⟨k, hk⟩ := Option.isSome_iff_exists.mp h
  exact ⟨k, find_eq_some hk⟩

/-- What a probe can search falls into three parts: the keys it compares
above, one run of keys that equal it, and the keys it compares below. -/
theorem Searchable.exists_run {q : κ} {ks : List κ} (hs : Searchable cmp q ks) :
    ∃ before run after, ks = before ++ run ++ after ∧ (∀ k ∈ before, 0 < cmp q k) ∧
      (∀ k ∈ run, cmp q k = 0) ∧ ∀ k ∈ after, cmp q k < 0 := by
  induction ks with
  | nil => exact ⟨[], [], [], rfl, by simp, by simp, by simp⟩
  | cons k ks ih =>
      obtain ⟨hk, hks⟩ := List.pairwise_cons.mp hs
      obtain ⟨before, run, after, rfl, hb, hr, ha⟩ := ih hks
      -- The first key decides which of the three parts it opens.
      rcases Int.lt_trichotomy (cmp q k) 0 with h | h | h
      · refine ⟨[], [], k :: (before ++ run ++ after), rfl, by simp, by simp, fun x hx => ?_⟩
        rcases List.mem_cons.mp hx with rfl | hx
        · exact h
        · exact (hk x hx).1 h
      · have hnil : before = [] := by
          refine List.eq_nil_iff_forall_not_mem.mpr fun x hx => ?_
          have hpos := (hk x (by simp [hx])).2 (hb x hx)
          omega
        subst hnil
        refine ⟨[], k :: run, after, rfl, by simp, fun x hx => ?_, ha⟩
        rcases List.mem_cons.mp hx with rfl | hx
        · exact h
        · exact hr x hx
      · refine ⟨k :: before, run, after, rfl, fun x hx => ?_, hr, ha⟩
        rcases List.mem_cons.mp hx with rfl | hx
        · exact h
        · exact hb x hx

theorem insertLeaf_eq_none {t : AvlTree κ} {q : κ} (h : t.insertLeaf cmp q = none) :
    ∃ k ∈ t.inorder, cmp q k = 0 := by
  induction t with
  | nil => simp [AvlTree.insertLeaf] at h
  | node l x r ihl ihr =>
      simp only [AvlTree.insertLeaf] at h
      split at h
      · obtain ⟨k, hk, hq⟩ := ihl (by simpa using h)
        exact ⟨k, by simp [AvlTree.inorder, hk], hq⟩
      · split at h
        · obtain ⟨k, hk, hq⟩ := ihr (by simpa using h)
          exact ⟨k, by simp [AvlTree.inorder, hk], hq⟩
        · exact ⟨x, by simp [AvlTree.inorder], by omega⟩

/-- An accepted key stands between the keys that compare below it and the
keys that compare above it. -/
theorem insertLeaf_eq_some {t t' : AvlTree κ} {q : κ} (hs : Searchable cmp q t.inorder)
    (h : t.insertLeaf cmp q = some t') :
    ∃ l r, t.inorder = l ++ r ∧ t'.inorder = l ++ q :: r ∧
      (∀ k ∈ l, 0 < cmp q k) ∧ ∀ k ∈ r, cmp q k < 0 := by
  induction t generalizing t' with
  | nil =>
      obtain rfl : AvlTree.node .nil q .nil = t' := by simpa [AvlTree.insertLeaf] using h
      exact ⟨[], [], rfl, rfl, by simp, by simp⟩
  | node tl x tr ihl ihr =>
      obtain ⟨hl, hr, hxr, hlx, -⟩ := searchable_append_cons.mp hs
      simp only [AvlTree.insertLeaf] at h
      split at h
      · next hlt =>
        obtain ⟨u, hu, rfl⟩ := Option.map_eq_some_iff.mp h
        obtain ⟨l, r, h₁, h₂, h₃, h₄⟩ := ihl hl hu
        refine ⟨l, r ++ x :: tr.inorder, by simp [AvlTree.inorder, h₁],
          by simp [AvlTree.inorder, h₂], h₃, fun k hk => ?_⟩
        rcases List.mem_append.mp hk with hk | hk
        · exact h₄ k hk
        · rcases List.mem_cons.mp hk with rfl | hk
          · exact hlt
          · exact (hxr k hk).1 hlt
      · split at h
        · next hgt =>
          obtain ⟨u, hu, rfl⟩ := Option.map_eq_some_iff.mp h
          obtain ⟨l, r, h₁, h₂, h₃, h₄⟩ := ihr hr hu
          refine ⟨tl.inorder ++ x :: l, r, by simp [AvlTree.inorder, h₁],
            by simp [AvlTree.inorder, h₂], fun k hk => ?_, h₄⟩
          rcases List.mem_append.mp hk with hk | hk
          · exact (hlx k hk).2 hgt
          · rcases List.mem_cons.mp hk with rfl | hk
            · exact hgt
            · exact h₃ k hk
        · cases h

/-- Under `Searchable` an insertion is refused exactly when an equal key is
stored. -/
theorem insertLeaf_eq_none_iff {t : AvlTree κ} {q : κ} (hs : Searchable cmp q t.inorder) :
    t.insertLeaf cmp q = none ↔ ∃ k ∈ t.inorder, cmp q k = 0 := by
  refine ⟨insertLeaf_eq_none, fun ⟨k, hk, hq⟩ => ?_⟩
  cases hi : t.insertLeaf cmp q with
  | none => rfl
  | some t' =>
      obtain ⟨l, r, h₁, -, h₃, h₄⟩ := insertLeaf_eq_some hs hi
      rw [h₁] at hk
      rcases List.mem_append.mp hk with hk | hk
      · have := h₃ k hk
        omega
      · have := h₄ k hk
        omega

/-- The keys after an insertion: unchanged when an equal key is stored, and
otherwise the old ones with the new one among them. -/
theorem mem_inorder_insert {B : Rebalance κ} {t : AvlTree κ} {q k : κ}
    (hs : Searchable cmp q t.inorder) :
    k ∈ (insert cmp B t q).inorder ↔
      k ∈ t.inorder ∨ (k = q ∧ ∀ x ∈ t.inorder, cmp q x ≠ 0) := by
  unfold insert
  cases hi : t.insertLeaf cmp q with
  | none =>
      obtain ⟨x, hx, hq⟩ := insertLeaf_eq_none hi
      exact ⟨Or.inl, fun h => h.elim (fun h => h) fun h => absurd hq (h.2 x hx)⟩
  | some t' =>
      have hne : ∀ x ∈ t.inorder, cmp q x ≠ 0 := by
        intro x hx hq
        rw [(insertLeaf_eq_none_iff hs).mpr ⟨x, hx, hq⟩] at hi
        cases hi
      obtain ⟨l, r, h₁, h₂, -⟩ := insertLeaf_eq_some hs hi
      simp only [B.inorder_map, h₂, h₁, List.mem_append, List.mem_cons]
      constructor
      · rintro (h | rfl | h)
        · exact Or.inl (Or.inl h)
        · exact Or.inr ⟨rfl, by simpa [h₁] using hne⟩
        · exact Or.inl (Or.inr h)
      · rintro ((h | h) | ⟨rfl, -⟩)
        · exact Or.inl h
        · exact Or.inr (Or.inr h)
        · exact Or.inr (Or.inl rfl)

/-- Insertion keeps the keys ascending, for a comparison that changes sign
when its arguments change places. -/
theorem ordered_insert {B : Rebalance κ} {t : AvlTree κ} {q : κ}
    (hswap : ∀ a b, 0 < cmp a b → cmp b a < 0)
    (hs : Searchable cmp q t.inorder) (ho : Ordered cmp t.inorder) :
    Ordered cmp (insert cmp B t q).inorder := by
  unfold insert
  cases hi : t.insertLeaf cmp q with
  | none => exact ho
  | some t' =>
      obtain ⟨l, r, h₁, h₂, h₃, h₄⟩ := insertLeaf_eq_some hs hi
      rw [h₁] at ho
      obtain ⟨hl, hr, hlr⟩ := List.pairwise_append.mp ho
      show Ordered cmp (B.map t').inorder
      rw [B.inorder_map, h₂]
      refine List.pairwise_append.mpr ⟨hl, List.pairwise_cons.mpr ⟨h₄, hr⟩, ?_⟩
      intro a ha b hb
      rcases List.mem_cons.mp hb with rfl | hb
      · exact hswap _ _ (h₃ a ha)
      · exact hlr a ha b hb

theorem inorder_append (t u : AvlTree κ) : (t.append u).inorder = t.inorder ++ u.inorder := by
  induction t with
  | nil => rfl
  | node l k r _ ihr => simp [AvlTree.append, AvlTree.inorder, ihr]

/-- A deletion takes the key that the search finds out of the sequence of
keys, whatever the comparison. -/
theorem inorder_delete {B : Rebalance κ} {t : AvlTree κ} {q k : κ} (h : t.find cmp q = some k) :
    ∃ l r, t.inorder = l ++ k :: r ∧ (delete cmp B t q).inorder = l ++ r := by
  unfold delete
  rw [B.inorder_map]
  induction t with
  | nil => cases h
  | node tl x tr ihl ihr =>
      simp only [AvlTree.find] at h
      simp only [AvlTree.removeNode]
      split at h
      · next hlt =>
        obtain ⟨l, r, h₁, h₂⟩ := ihl h
        refine ⟨l, r ++ x :: tr.inorder, ?_, ?_⟩
        · simp [AvlTree.inorder, h₁]
        · simp [hlt, AvlTree.inorder, h₂]
      · next hge =>
        split at h
        · next hgt =>
          obtain ⟨l, r, h₁, h₂⟩ := ihr h
          refine ⟨tl.inorder ++ x :: l, r, ?_, ?_⟩
          · simp [AvlTree.inorder, h₁]
          · simp [hge, hgt, AvlTree.inorder, h₂]
        · next hle =>
          obtain rfl : x = k := Option.some.inj h
          exact ⟨tl.inorder, tr.inorder, rfl, by simp [hge, hle, inorder_append]⟩

theorem ordered_delete {B : Rebalance κ} {t : AvlTree κ} {q k : κ} (h : t.find cmp q = some k)
    (ho : Ordered cmp t.inorder) : Ordered cmp (delete cmp B t q).inorder := by
  obtain ⟨l, r, h₁, h₂⟩ := inorder_delete (B := B) h
  rw [h₂]
  rw [h₁] at ho
  exact List.Pairwise.sublist (by simp) ho

end Owsd.SearchTree
