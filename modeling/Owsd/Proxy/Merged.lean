import Owsd.Proxy.Merge

/-!
When the merge of a `list` reply does what it is for.

`Merged` says what a merge should lead to. The cursor is sound as long as the
stub that was last when the merge began is still the end of the linked list:
once it was replaced, or a stub was added behind it, the cursor stands on the
list head, and the round for the next object reads the head as a stub. So the
merge succeeds exactly when no such object is followed by another one.
-/

namespace Owsd.Proxy

open LinkedList

/-- What merging a reply is for. -/
structure Merged (accepts : CString → Bool) (before after : List LocalStub)
    (list : List (CString × Signature)) : Prop where
  /-- Every accepted object has its stub. -/
  listed : ∀ obj ∈ list, accepts obj.1 = true →
    ∃ stub ∈ after, stub.key = obj.1 ∧ stub.signature = meaning obj.2
  /-- A stub whose signature did not change is left alone. -/
  unchanged : ∀ stub ∈ before, ∀ obj ∈ list, stub.key = obj.1 →
    stub.signature = meaning obj.2 → stub ∈ after
  /-- So is a stub that is not listed. -/
  unlisted : ∀ stub, stub.key ∉ list.map Prod.fst → (stub ∈ before ↔ stub ∈ after)

/-- The merge reads no place that is not a stub, and leads to one stub for
each name. -/
def MergesWell (M : Allocator) (accepts : CString → Bool) (st : Stubs)
    (list : List (CString × Signature)) : Prop :=
  ∃ st', mergeList M accepts st list = .ok st' ∧
    Merged accepts st.registered st'.registered list ∧
    ∀ a ∈ st'.registered, ∀ b ∈ st'.registered, a.key = b.key → a = b

/-- The object moves the end of the linked list: it replaces the last stub,
or gets a stub behind it. -/
def MovesEnd (accepts : CString → Bool) (sm : LocalStub) (obj : CString × Signature) : Prop :=
  obj.1 = sm.key ∧ sm.signature ≠ meaning obj.2 ∨ sm.key < obj.1 ∧ accepts obj.1 = true

/-- No object that moves the end is followed by another object. -/
def EndStays (accepts : CString → Bool) (sm : LocalStub) (list : List (CString × Signature)) :
    Prop :=
  ∀ pre obj post, list = pre ++ obj :: post → post ≠ [] → ¬ MovesEnd accepts sm obj

/-- Unless the reply begins behind the last stub, so that no cursor is set,
the end has to stay. -/
def MergeSafe (accepts : CString → Bool) (st : Stubs) (list : List (CString × Signature)) :
    Prop :=
  ∀ sm, st.tree.getLast? = some sm → (∃ obj, list.head? = some obj ∧ obj.1 ≤ sm.key) →
    EndStays accepts sm list

theorem endStays_cons {accepts : CString → Bool} {sm : LocalStub} {obj : CString × Signature}
    {rest : List (CString × Signature)} :
    EndStays accepts sm (obj :: rest) ↔
      (rest ≠ [] → ¬ MovesEnd accepts sm obj) ∧ EndStays accepts sm rest := by
  constructor
  · intro h
    refine ⟨h [] obj rest rfl, fun pre obj' post hrest => ?_⟩
    exact h (obj :: pre) obj' post (by rw [hrest, List.cons_append])
  · rintro ⟨hhead, hrest⟩ pre obj' post heq
    cases pre with
    | nil =>
        rw [List.nil_append, List.cons.injEq] at heq
        obtain ⟨rfl, rfl⟩ := heq
        exact hhead
    | cons _ pre =>
        rw [List.cons_append, List.cons.injEq] at heq
        exact hrest pre obj' post heq.2

/-! ### The result, object by object -/

/-- One object was dealt with. -/
structure Dealt (accepts : CString → Bool) (obj : CString × Signature)
    (after after' : List LocalStub) : Prop where
  /-- No stub of another name was touched. -/
  other : ∀ stub, stub.key ≠ obj.1 → (stub ∈ after' ↔ stub ∈ after)
  listed : accepts obj.1 = true →
    ∃ stub ∈ after', stub.key = obj.1 ∧ stub.signature = meaning obj.2
  same : ∀ stub ∈ after, stub.key = obj.1 → stub.signature = meaning obj.2 → stub ∈ after'

theorem Merged.snoc {accepts : CString → Bool} {before after after' : List LocalStub}
    {list : List (CString × Signature)} {obj : CString × Signature}
    (h : Merged accepts before after list) (hnew : obj.1 ∉ list.map Prod.fst)
    (hobj : Dealt accepts obj after after') : Merged accepts before after' (list ++ [obj]) where
  listed := by
    intro obj' hobj' haccept
    rcases List.mem_append.mp hobj' with hobj' | hobj'
    · obtain ⟨stub, hstub, hkey, hsig⟩ := h.listed obj' hobj' haccept
      refine ⟨stub, (hobj.other stub ?_).mpr hstub, hkey, hsig⟩
      intro heq
      exact hnew (heq ▸ hkey ▸ List.mem_map_of_mem hobj')
    · rw [List.mem_singleton.mp hobj'] at haccept ⊢
      exact hobj.listed haccept
  unchanged := by
    intro stub hstub obj' hobj' hkey hsig
    rcases List.mem_append.mp hobj' with hobj' | hobj'
    · refine (hobj.other stub ?_).mpr (h.unchanged stub hstub obj' hobj' hkey hsig)
      intro heq
      exact hnew (heq ▸ hkey ▸ List.mem_map_of_mem hobj')
    · rw [List.mem_singleton.mp hobj'] at hkey hsig
      exact hobj.same stub ((h.unlisted stub (hkey ▸ hnew)).mp hstub) hkey hsig
  unlisted := by
    intro stub hstub
    rw [List.map_append, List.mem_append, not_or] at hstub
    have hne : stub.key ≠ obj.1 := by simpa using hstub.2
    rw [hobj.other stub hne]
    exact h.unlisted stub hstub.1

/-- The stubs of the object's name, which are all outdated, make room for
new ones. -/
theorem Dealt.replaced {accepts : CString → Bool} {obj : CString × Signature}
    {xs old new ys : List LocalStub} (hxs : ∀ t ∈ xs, t.key ≠ obj.1)
    (hys : ∀ t ∈ ys, t.key ≠ obj.1)
    (hold : ∀ t ∈ old, t.key = obj.1 ∧ t.signature ≠ meaning obj.2)
    (hnew : ∀ t ∈ new, t.key = obj.1 ∧ t.signature = meaning obj.2)
    (haccept : accepts obj.1 = true → new ≠ []) :
    Dealt accepts obj (xs ++ old ++ ys) (xs ++ new ++ ys) where
  other := by
    intro stub hne
    have hnot_old : stub ∉ old := fun h => hne (hold stub h).1
    have hnot_new : stub ∉ new := fun h => hne (hnew stub h).1
    simp [hnot_old, hnot_new]
  listed := by
    intro h
    obtain ⟨t, ht⟩ := List.exists_mem_of_ne_nil new (haccept h)
    exact ⟨t, by simp [ht], hnew t ht⟩
  same := by
    intro stub hstub hkey hsig
    simp only [List.mem_append] at hstub
    rcases hstub with (hstub | hstub) | hstub
    · exact absurd hkey (hxs stub hstub)
    · exact absurd hsig (hold stub hstub).2
    · exact absurd hkey (hys stub hstub)

/-! ### Creating and destroying -/

theorem insert_new {st : Stubs} {stub : LocalStub}
    (hfresh : stub.addr ∉ (st.tree ++ st.refused).map LocalStub.addr)
    (h : ∀ t ∈ st.tree, t.key ≠ stub.key) :
    (st.insert stub hfresh).tree = insertStub stub st.tree ∧
      (st.insert stub hfresh).refused = st.refused := by
  unfold Stubs.insert
  split
  · next hany =>
    obtain ⟨t, ht, hkey⟩ := List.any_eq_true.mp hany
    exact absurd (strcmp_eq_zero_iff.mp (of_decide_eq_true hkey)) (h t ht)
  · exact ⟨rfl, rfl⟩

/-- The place of a new stub between those below it and those above it. -/
theorem insertStub_between {stub : LocalStub} {xs ys : List LocalStub}
    (hxs : ∀ t ∈ xs, t.key < stub.key) (hys : ∀ t ∈ ys, stub.key < t.key) :
    insertStub stub (xs ++ ys) = xs ++ stub :: ys := by
  induction xs with
  | nil =>
      cases ys with
      | nil => rfl
      | cons y ys =>
          rw [List.nil_append, insertStub, if_pos]
          · rfl
          · exact strcmp_neg_iff.mpr (hys y List.mem_cons_self)
  | cons x xs ih =>
      have hge : ¬ strcmp stub.key x.key < 0 := by
        rw [strcmp_neg_iff]
        exact not_lt.mpr (hxs x List.mem_cons_self).le
      rw [List.cons_append, insertStub, if_neg hge, List.cons_append,
        ih fun t ht => hxs t (List.mem_cons_of_mem x ht)]

@[simp] theorem create_cur (M : Allocator) (accepts : CString → Bool) (m : Merge)
    (obj : CString × Signature) : (m.create M accepts obj).cur = m.cur := by
  unfold Merge.create
  split <;> rfl

@[simp] theorem create_cmpResult (M : Allocator) (accepts : CString → Bool) (m : Merge)
    (obj : CString × Signature) : (m.create M accepts obj).cmpResult = m.cmpResult := by
  unfold Merge.create
  split <;> rfl

/-- A stub for an accepted object is put in its place; for another one
nothing happens. With the outdated stubs `old` gone before, this deals with
the object. -/
theorem create_between (M : Allocator) (accepts : CString → Bool) {m : Merge}
    {obj : CString × Signature} {xs ys : List LocalStub} (hm : m.stubs.tree = xs ++ ys)
    (hrefused : m.stubs.refused = []) (hxs : ∀ t ∈ xs, t.key < obj.1)
    (hys : ∀ t ∈ ys, obj.1 < t.key) :
    ∃ new, (m.create M accepts obj).stubs.tree = xs ++ new ++ ys ∧
      (m.create M accepts obj).stubs.refused = [] ∧
      (∀ t ∈ new, t.key = obj.1 ∧ ∀ t' ∈ xs ++ ys, t.addr ≠ t'.addr) ∧
      (new = [] ↔ accepts obj.1 = false) ∧
      ∀ old, (∀ t ∈ old, t.key = obj.1 ∧ t.signature ≠ meaning obj.2) →
        Dealt accepts obj (xs ++ old ++ ys) (m.create M accepts obj).stubs.tree := by
  have hxs' : ∀ t ∈ xs, t.key ≠ obj.1 := fun t ht => (hxs t ht).ne
  have hys' : ∀ t ∈ ys, t.key ≠ obj.1 := fun t ht => (hys t ht).ne'
  cases haccept : accepts obj.1 with
  | false =>
      have hcreate : m.create M accepts obj = m := by simp [Merge.create, haccept]
      have htree : m.stubs.tree = xs ++ [] ++ ys := by simpa using hm
      rw [hcreate]
      refine ⟨[], htree, hrefused, by simp, by simp, fun old hold => ?_⟩
      rw [htree]
      exact .replaced hxs' hys' hold (by simp) (by simp [haccept])
  | true =>
      let live := (m.stubs.tree ++ m.stubs.refused).map LocalStub.addr
      let stub := LocalStub.create (M.malloc obj.1 live) obj.1 obj.2
      have hcreate : (m.create M accepts obj).stubs = m.stubs.insert stub (M.fresh obj.1 live) := by
        simp only [Merge.create, haccept, if_true]
        rfl
      have hne : ∀ t ∈ m.stubs.tree, t.key ≠ stub.key := by
        intro t ht
        rw [hm, List.mem_append] at ht
        exact ht.elim (hxs' t) (hys' t)
      obtain ⟨hinsert, href⟩ := insert_new (M.fresh obj.1 live) hne
      have htree : (m.create M accepts obj).stubs.tree = xs ++ [stub] ++ ys := by
        rw [hcreate, hinsert, hm, insertStub_between hxs hys, List.append_assoc]
        rfl
      refine ⟨[stub], htree, ?_, fun t ht => ?_, by simp, fun old hold => ?_⟩
      · rw [hcreate, href, hrefused]
      · rw [List.mem_singleton.mp ht]
        refine ⟨rfl, fun t' ht' heq => M.fresh obj.1 live ?_⟩
        have hmem : t' ∈ m.stubs.tree ++ m.stubs.refused := List.mem_append_left _ (hm ▸ ht')
        exact List.mem_map.mpr ⟨t', hmem, heq.symm⟩
      · have hstub : stub.key = obj.1 ∧ stub.signature = meaning obj.2 :=
          ⟨rfl, signature_create _ _ _⟩
        rw [htree]
        exact .replaced hxs' hys' hold (by simpa using hstub) (by simp)

theorem destroy_tree {st : Stubs} {stub : LocalStub} {xs ys : List LocalStub}
    (h : st.tree = xs ++ stub :: ys) : (st.wsuLocalStubDestroy stub).tree = xs ++ ys := by
  have hd : Distinct LocalStub.addr (xs ++ stub :: ys) := by
    rw [← h]
    exact (List.nodup_append.mp (by simpa [Distinct] using st.distinct)).1
  have hys : ∀ t ∈ ys, t.addr ≠ stub.addr := by
    intro t ht heq
    rw [Distinct, List.map_append, List.nodup_append, List.map_cons, List.nodup_cons] at hd
    exact hd.2.1.1 (heq ▸ List.mem_map_of_mem ht)
  simp only [Stubs.wsuLocalStubDestroy, h, List.filter_append]
  rw [List.filter_eq_self.mpr fun t ht => by simpa using hd.ne_left t ht, List.filter_cons,
    List.filter_eq_self.mpr fun t ht => by simpa using hys t ht]
  simp

/-- A name divides the stubs in those below it and the others. -/
theorem sorted_split {l : List LocalStub} (hl : l.Pairwise fun a b => a.key < b.key)
    (name : CString) :
    ∃ ds zs, l = ds ++ zs ∧ (∀ d ∈ ds, d.key < name) ∧ ∀ z ∈ zs, name ≤ z.key := by
  induction l with
  | nil => exact ⟨[], [], rfl, by simp, by simp⟩
  | cons t rest ih =>
      rw [List.pairwise_cons] at hl
      rcases lt_or_ge t.key name with hlt | hge
      · obtain ⟨ds, zs, rfl, hds, hzs⟩ := ih hl.2
        refine ⟨t :: ds, zs, rfl, fun d hd => ?_, hzs⟩
        rcases List.mem_cons.mp hd with rfl | hd
        · exact hlt
        · exact hds d hd
      · refine ⟨[], t :: rest, rfl, by simp, fun z hz => ?_⟩
        rcases List.mem_cons.mp hz with rfl | hz
        · exact hge
        · exact hge.trans (hl.1 z hz).le

end Owsd.Proxy
