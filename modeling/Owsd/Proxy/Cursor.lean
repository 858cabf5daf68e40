import Owsd.Proxy.Merged

/-!
The cursor of the merge.

Between two rounds the cursor is sound: the stubs before it are below every
object still to come, and the last stub is the one the merge remembers. A
round keeps it so, unless its object moves the end; then the next round, if
there is one, reads the list head.
-/

namespace Owsd.Proxy

open LinkedList

theorem mem_of_getLast?_append {xs ys : List LocalStub} {sm : LocalStub}
    (h : (xs ++ ys).getLast? = some sm) (hys : ys ≠ []) : sm ∈ ys := by
  rw [List.getLast?_append_of_ne_nil xs hys] at h
  exact List.mem_of_getLast? h

/-- The cursor stands between the stubs `xs`, which are below all objects
still to come, and the stubs `ys`; the last stub is the one there was at the
beginning. On the list head the comparison left over is not equality. -/
structure Cursor (sm : LocalStub) (m : Merge) (xs ys : List LocalStub)
    (rest : List (CString × Signature)) : Prop where
  tree : m.stubs.tree = xs ++ ys
  refused : m.stubs.refused = []
  cur : m.cur = some (placeOf LocalStub.addr ys.head?)
  isLast : (xs ++ ys).getLast? = some sm
  stale : ys = [] → m.cmpResult ≠ 0
  below : ∀ t ∈ xs, ∀ obj ∈ rest, t.key < obj.1

/-- The cursor stands on the list head, and the next round will read it. -/
def Doomed (sm : LocalStub) (m : Merge) : Prop :=
  m.cur = some .head ∧
    (placeOf LocalStub.addr m.stubs.tree.getLast? ≠ .elem sm.addr ∨ m.cmpResult = 0)

theorem distinct_tree (st : Stubs) : Distinct LocalStub.addr st.tree := by
  have h := st.distinct
  rw [Distinct, List.map_append] at h
  exact (List.nodup_append.mp h).1

section
variable {M : Allocator} {accepts : CString → Bool} {sm : LocalStub} {last : Place} {m m' : Merge}
  {obj : CString × Signature}

theorem advance_eq {cur ptr : Place} (last : Place) (objName : CString) (hcur : m.cur = some cur)
    (hptr : LinkedList.next LocalStub.addr m.stubs.tree cur = .ok ptr) :
    m.advance last objName =
      (forRangeSafe LocalStub.addr (fun s => strcmp s.key objName) m.stubs.tree last
        (m.stubs.tree.length + 2) cur ptr m.cmpResult).map
          fun r => { m with cur := some r.1, next := r.2.1, cmpResult := r.2.2 } := by
  simp only [Merge.advance, hcur, hptr, bind, Except.bind, Except.map]

theorem advance_from {xs ys : List LocalStub} {r : Place × Place × Int}
    (htree : m.stubs.tree = xs ++ ys) (hcur : m.cur = some (placeOf LocalStub.addr ys.head?))
    (hys : ys ≠ [])
    (hwalk : forRangeSafe LocalStub.addr (fun s => strcmp s.key obj.1) (xs ++ ys) last
      ((xs ++ ys).length + 2) (placeOf LocalStub.addr ys.head?)
      (placeOf LocalStub.addr ys.tail.head?) m.cmpResult = .ok r) :
    m.advance last obj.1 =
      .ok { m with cur := some r.1, next := r.2.1, cmpResult := r.2.2 } := by
  have hdistinct := distinct_tree m.stubs
  rw [htree] at hdistinct
  have hptr := next_head? hdistinct hys
  rw [← htree] at hptr hwalk
  rw [advance_eq last obj.1 hcur hptr, hwalk]
  rfl

theorem object_create (h : m.advance last obj.1 = .ok m') (hne : m'.cmpResult ≠ 0) :
    m.object M accepts last obj = .ok (m'.create M accepts obj) := by
  simp [Merge.object, h, bind, Except.bind, hne]

theorem object_found (M : Allocator) (accepts : CString → Bool) {cur : Place}
    (h : m.advance last obj.1 = .ok m') (hzero : m'.cmpResult = 0) (hcur : m'.cur = some cur) :
    m.object M accepts last obj = (get LocalStub.addr m'.stubs.tree cur).map fun stub =>
      if wsuLocalStubIsSameSignature stub obj.2 then m'
      else { m' with
        stubs := m'.stubs.wsuLocalStubDestroy stub, cur := some m'.next }.create M accepts obj := by
  simp only [Merge.object, h, bind, Except.bind, hzero, hcur, Except.map]
  split
  · contradiction
  · cases get LocalStub.addr m'.stubs.tree cur with
    | error e => rfl
    | ok stub =>
        simp only
        split <;> rfl

theorem object_doomed (h : Doomed sm m) (obj : CString × Signature) :
    m.object M accepts (.elem sm.addr) obj = .error .pseudoElement := by
  obtain ⟨hcur, hstale⟩ := h
  have hadvance := advance_eq (.elem sm.addr) obj.1 hcur rfl
  have hprev : prev LocalStub.addr m.stubs.tree .head =
      .ok (placeOf LocalStub.addr m.stubs.tree.getLast?) := rfl
  by_cases hlast : placeOf LocalStub.addr m.stubs.tree.getLast? = .elem sm.addr
  · -- The walk ends at once, and the equality left over is taken for the head's.
    rw [hlast] at hprev
    rw [forRangeSafe_end hprev] at hadvance
    rw [object_found M accepts hadvance (hstale.resolve_left (not_not_intro hlast)) rfl]
    rfl
  · rw [forRangeSafe_head hprev hlast] at hadvance
    simp [Merge.object, hadvance, bind, Except.bind, Except.map]

/-- Where the cursor stands after the walk: on the first stub that is not
below the object, or on the list head. -/
structure Advanced (sm : LocalStub) (m : Merge) (xs zs : List LocalStub)
    (obj : CString × Signature) : Prop where
  tree : m.stubs.tree = xs ++ zs
  refused : m.stubs.refused = []
  cur : m.cur = some (placeOf LocalStub.addr zs.head?)
  isLast : (xs ++ zs).getLast? = some sm
  below : ∀ t ∈ xs, t.key < obj.1
  above : ∀ t ∈ zs, obj.1 ≤ t.key
  stale : zs = [] → m.cmpResult ≠ 0
  found : ∀ x zs', zs = x :: zs' →
    m.cmpResult = strcmp x.key obj.1 ∧ m.next = placeOf LocalStub.addr zs'.head?

theorem Cursor.advance {xs ys : List LocalStub} {rest : List (CString × Signature)}
    (h : Cursor sm m xs ys (obj :: rest)) :
    ∃ m' xs' zs, m.advance (.elem sm.addr) obj.1 = .ok m' ∧ m'.stubs = m.stubs ∧
      Advanced sm m' xs' zs obj := by
  have hsorted := m.stubs.sorted
  have hdistinct := distinct_tree m.stubs
  rw [h.tree] at hsorted hdistinct
  obtain ⟨ds, zs, rfl, hds, hzs⟩ := sorted_split (List.pairwise_append.mp hsorted).2.1 obj.1
  have hbelow : ∀ t ∈ xs ++ ds, t.key < obj.1 := by
    intro t ht
    rcases List.mem_append.mp ht with ht | ht
    · exact h.below t ht obj List.mem_cons_self
    · exact hds t ht
  have hcmp : ∀ d ∈ ds, strcmp d.key obj.1 < 0 := fun d hd => strcmp_neg_iff.mpr (hds d hd)
  have htree : m.stubs.tree = xs ++ ds ++ zs := by rw [h.tree, List.append_assoc]
  have hend : (xs ++ ds ++ zs).getLast? = some sm := by rw [List.append_assoc, h.isLast]
  cases zs with
  | nil =>
      rcases List.eq_nil_or_concat' ds with rfl | ⟨ds, x, rfl⟩
      · -- The cursor is on the list head already.
        have hprev : prev LocalStub.addr m.stubs.tree .head = .ok (.elem sm.addr) := by
          rw [prev, h.tree, h.isLast, placeOf]
        refine ⟨_, xs ++ [], [], Eq.trans (advance_eq (.elem sm.addr) obj.1 h.cur rfl)
          (congrArg (Except.map _) (forRangeSafe_end hprev)), rfl, ?_⟩
        exact ⟨htree, h.refused, rfl, hend, hbelow, hzs, h.stale, by simp⟩
      · -- All that is left is below the object, the last stub included.
        have hx : x = sm := by simpa using h.isLast
        rw [List.append_nil] at hdistinct
        obtain ⟨ptr, hwalk⟩ := forRangeSafe_passed (r := m.cmpResult)
          (show ds.length + 1 < (xs ++ (ds ++ [x])).length + 2 by simp; omega) hdistinct
          (congrArg (fun t => Place.elem t.addr) hx.symm) (fun d hd => hcmp d (by simp [hd]))
          (hcmp x (by simp))
        refine ⟨_, xs ++ (ds ++ [x]), [], advance_from (by simpa using h.tree)
          (by simpa using h.cur) (by simp) hwalk, rfl, ?_⟩
        exact ⟨htree, h.refused, rfl, hend, hbelow, hzs, fun _ => (hcmp x (by simp)).ne, by simp⟩
  | cons x zs' =>
      -- The walk stops before the last stub, or on it.
      have hlast : ∀ z ∈ xs ++ ds, Place.elem sm.addr ≠ .elem z.addr := by
        intro z hz heq
        have hsm := mem_of_getLast?_append hend (List.cons_ne_nil x zs')
        rw [← List.append_assoc, Distinct, List.map_append, List.nodup_append] at hdistinct
        exact hdistinct.2.2 z.addr (List.mem_map_of_mem hz) sm.addr (List.mem_map_of_mem hsm)
          (Place.elem.inj heq).symm
      have hge : 0 ≤ strcmp x.key obj.1 := by
        rw [← not_lt, strcmp_neg_iff, not_lt]
        exact hzs x List.mem_cons_self
      have hwalk := forRangeSafe_found (r := m.cmpResult)
        (show ds.length < (xs ++ (ds ++ x :: zs')).length + 2 by simp; omega) hdistinct
        (by simp) hlast hcmp hge
      refine ⟨_, xs ++ ds, x :: zs', advance_from h.tree h.cur (by simp) hwalk, rfl, ?_⟩
      exact ⟨htree, h.refused, rfl, hend, hbelow, hzs, by simp, by simp⟩

/-! ### One round -/

/-- What a round does: the object is dealt with, and the cursor is sound for
the rest unless the object moved the end. -/
structure Round (accepts : CString → Bool) (sm : LocalStub) (obj : CString × Signature)
    (rest : List (CString × Signature)) (m m' : Merge) : Prop where
  refused : m'.stubs.refused = []
  dealt : Dealt accepts obj m.stubs.tree m'.stubs.tree
  doomed : MovesEnd accepts sm obj → Doomed sm m'
  sound : ¬ MovesEnd accepts sm obj → ∃ xs ys, Cursor sm m' xs ys rest

section
variable {xs zs : List LocalStub} {rest : List (CString × Signature)} {x : LocalStub}

/-- Stubs behind the one under the cursor are above the object. -/
theorem Advanced.behind (h : Advanced sm m xs (x :: zs) obj) : ∀ t ∈ zs, obj.1 < t.key := by
  intro t ht
  have hsorted := m.stubs.sorted
  rw [h.tree, List.pairwise_append, List.pairwise_cons] at hsorted
  exact lt_of_le_of_lt (h.above x List.mem_cons_self) (hsorted.2.1.1 t ht)

/-- The stubs with the new one among them, and the cursor behind it. -/
theorem Cursor.of_between {new : List LocalStub} (htree : m.stubs.tree = xs ++ new ++ zs)
    (hrefused : m.stubs.refused = []) (hcur : m.cur = some (placeOf LocalStub.addr zs.head?))
    (hend : zs.getLast? = some sm) (hxs : ∀ t ∈ xs, t.key < obj.1)
    (hnew : ∀ t ∈ new, t.key = obj.1) (hrest : ∀ obj' ∈ rest, obj.1 < obj'.1) :
    Cursor sm m (xs ++ new) zs rest where
  tree := htree
  refused := hrefused
  cur := hcur
  isLast := by simp [hend]
  stale := by
    rintro rfl
    simp at hend
  below := by
    intro t ht obj' hobj'
    rcases List.mem_append.mp ht with ht | ht
    · exact (hxs t ht).trans (hrest obj' hobj')
    · rw [hnew t ht]
      exact hrest obj' hobj'

theorem Advanced.passed (h : Advanced sm m xs [] obj) (hrest : ∀ obj' ∈ rest, obj.1 < obj'.1) :
    Round accepts sm obj rest m (m.create M accepts obj) := by
  obtain ⟨new, htree, hrefused, hnew, hempty, hdealt⟩ :=
    create_between M accepts h.tree h.refused h.below (by simp)
  have hsm : sm ∈ xs := List.mem_of_getLast? (by simpa using h.isLast)
  have hcur : (m.create M accepts obj).cur = some .head := by
    rw [create_cur, h.cur]
    rfl
  refine ⟨hrefused, ?_, fun hmoves => ⟨hcur, .inl ?_⟩, fun hstays => ⟨xs, [], ?_⟩⟩
  · rw [h.tree]
    simpa using hdealt [] (by simp)
  · -- The new stub is the last one now.
    have hne : new ≠ [] := by
      intro hnil
      rcases hmoves with ⟨heq, _⟩ | ⟨_, haccept⟩
      · exact (h.below sm hsm).ne heq.symm
      · simp [hempty.mp hnil] at haccept
    have hfresh := (hnew _ (List.getLast_mem hne)).2 sm (by simp [hsm])
    rw [htree, List.append_nil, List.getLast?_append_of_ne_nil xs hne,
      List.getLast?_eq_some_getLast hne]
    simpa [placeOf] using hfresh
  · have hnil : new = [] := by
      rw [hempty, ← Bool.not_eq_true]
      exact fun haccept => hstays (.inr ⟨h.below sm hsm, haccept⟩)
    refine ⟨by rw [htree, hnil, List.append_nil], hrefused, hcur, h.isLast, fun _ => ?_, ?_⟩
    · rw [create_cmpResult]
      exact h.stale rfl
    · exact fun t ht obj' hobj' => (h.below t ht).trans (hrest obj' hobj')

/-- There is no stub of that name, but there are some above it. -/
theorem Advanced.absent (h : Advanced sm m xs (x :: zs) obj) (hlt : obj.1 < x.key)
    (hrest : ∀ obj' ∈ rest, obj.1 < obj'.1) :
    Round accepts sm obj rest m (m.create M accepts obj) := by
  have habove : ∀ t ∈ x :: zs, obj.1 < t.key := by
    intro t ht
    rcases List.mem_cons.mp ht with rfl | ht
    · exact hlt
    · exact h.behind t ht
  obtain ⟨new, htree, hrefused, hnew, hempty, hdealt⟩ :=
    create_between M accepts h.tree h.refused h.below habove
  have hsm := habove sm (mem_of_getLast?_append h.isLast (List.cons_ne_nil x zs))
  refine ⟨hrefused, ?_, fun hmoves => ?_, fun _ => ⟨xs ++ new, x :: zs, ?_⟩⟩
  · rw [h.tree]
    simpa using hdealt [] (by simp)
  · rcases hmoves with ⟨heq, _⟩ | ⟨hgt, _⟩
    · exact absurd heq hsm.ne
    · exact absurd hgt hsm.asymm
  · have hend := h.isLast
    rw [List.getLast?_append_of_ne_nil xs (List.cons_ne_nil x zs)] at hend
    exact .of_between htree hrefused (by rw [create_cur, h.cur]) hend h.below
      (fun t ht => (hnew t ht).1) hrest

/-- The stub under the cursor is the object's, and it has not changed. -/
theorem Advanced.same (h : Advanced sm m xs (x :: zs) obj) (hkey : x.key = obj.1)
    (hsig : x.signature = meaning obj.2) (hrest : ∀ obj' ∈ rest, obj.1 < obj'.1) :
    Round accepts sm obj rest m m := by
  have hmem : x ∈ m.stubs.tree := by
    rw [h.tree]
    simp
  refine ⟨h.refused, ⟨fun _ _ => Iff.rfl, fun _ => ⟨x, hmem, hkey, hsig⟩, fun _ hs _ _ => hs⟩,
    fun hmoves => ?_, fun _ => ⟨xs, x :: zs, ?_⟩⟩
  · have hsm := mem_of_getLast?_append h.isLast (List.cons_ne_nil x zs)
    rcases hmoves with ⟨heq, hdiff⟩ | ⟨hgt, _⟩
    · rcases List.mem_cons.mp hsm with rfl | hsm
      · exact absurd hsig hdiff
      · exact absurd heq (h.behind sm hsm).ne
    · exact absurd hgt (not_lt.mpr (h.above sm hsm))
  · refine ⟨h.tree, h.refused, h.cur, h.isLast, by simp, fun t ht obj' hobj' => ?_⟩
    exact (h.below t ht).trans (hrest obj' hobj')

/-- The stub under the cursor is the object's, and it has changed. -/
theorem Advanced.changed (h : Advanced sm m xs (x :: zs) obj) (hkey : x.key = obj.1)
    (hsig : x.signature ≠ meaning obj.2) (hrest : ∀ obj' ∈ rest, obj.1 < obj'.1) :
    Round accepts sm obj rest m ({ m with
      stubs := m.stubs.wsuLocalStubDestroy x, cur := some m.next }.create M accepts obj) := by
  obtain ⟨hcmp, hnext⟩ := h.found x zs rfl
  obtain ⟨new, htree, hrefused, hnew, hempty, hdealt⟩ :=
    create_between M accepts (m := { m with
      stubs := m.stubs.wsuLocalStubDestroy x, cur := some m.next })
      (destroy_tree h.tree) h.refused h.below h.behind
  have hend : (xs ++ [x] ++ zs).getLast? = some sm := by
    rw [← h.isLast, List.append_assoc]
    rfl
  refine ⟨hrefused, ?_, fun hmoves => ?_, fun hstays => ⟨xs ++ new, zs, ?_⟩⟩
  · rw [h.tree]
    simpa using hdealt [x] (by simpa using ⟨hkey, hsig⟩)
  · cases zs with
    | nil =>
        -- The cursor is on the head, with the equality left over.
        refine ⟨by rw [create_cur, hnext]; rfl, .inr ?_⟩
        rw [create_cmpResult, hcmp, hkey, strcmp_self]
    | cons z zs =>
        have hlt := h.behind sm (mem_of_getLast?_append hend (List.cons_ne_nil z zs))
        rcases hmoves with ⟨heq, _⟩ | ⟨hgt, _⟩
        · exact absurd heq hlt.ne
        · exact absurd hgt hlt.asymm
  · have hne : zs ≠ [] := by
      rintro rfl
      have hx : x = sm := by simpa using hend
      exact hstays (.inl ⟨hx ▸ hkey.symm, hx ▸ hsig⟩)
    rw [List.getLast?_append_of_ne_nil _ hne] at hend
    exact .of_between htree hrefused (by rw [create_cur, hnext]) hend h.below
      (fun t ht => (hnew t ht).1) hrest

theorem Cursor.object (M : Allocator) (accepts : CString → Bool) {ys : List LocalStub}
    (h : Cursor sm m xs ys (obj :: rest)) (hrest : ∀ obj' ∈ rest, obj.1 < obj'.1) :
    ∃ m', m.object M accepts (.elem sm.addr) obj = .ok m' ∧ Round accepts sm obj rest m m' := by
  obtain ⟨m₁, xs, zs, hadvance, hstubs, hm₁⟩ := h.advance
  have hround : ∀ {m'}, Round accepts sm obj rest m₁ m' → Round accepts sm obj rest m m' :=
    fun hr => { hr with dealt := hstubs ▸ hr.dealt }
  cases zs with
  | nil => exact ⟨_, object_create hadvance (hm₁.stale rfl), hround (hm₁.passed hrest)⟩
  | cons x zs =>
      obtain ⟨hcmp, hnext⟩ := hm₁.found x zs rfl
      rcases (hm₁.above x List.mem_cons_self).lt_or_eq with hlt | heq
      · have hne : m₁.cmpResult ≠ 0 := by
          rw [hcmp, Ne, strcmp_eq_zero_iff]
          exact hlt.ne'
        exact ⟨_, object_create hadvance hne, hround (hm₁.absent hlt hrest)⟩
      · have hzero : m₁.cmpResult = 0 := by rw [hcmp, heq, strcmp_self]
        have hget : get LocalStub.addr m₁.stubs.tree (placeOf LocalStub.addr (x :: zs).head?) =
            .ok x := by
          have hdistinct := distinct_tree m₁.stubs
          rw [hm₁.tree] at hdistinct ⊢
          exact get_at hdistinct
        have hobject := object_found M accepts hadvance hzero hm₁.cur
        rw [hget, Except.map] at hobject
        by_cases hsig : x.signature = meaning obj.2
        · rw [if_pos ((isSameSignature_iff x obj.2).mpr hsig)] at hobject
          exact ⟨_, hobject, hround (hm₁.same heq.symm hsig hrest)⟩
        · rw [if_neg (mt (isSameSignature_iff x obj.2).mp hsig)] at hobject
          exact ⟨_, hobject, hround (hm₁.changed heq.symm hsig hrest)⟩

/-! ### All rounds -/

theorem endStays_nil : EndStays accepts sm [] := by
  intro pre obj post heq
  simp at heq

/-- In a reply in order, an object is not among those before it and below
those after it. -/
theorem object_in_order {done rest : List (CString × Signature)}
    (h : (done ++ obj :: rest).Pairwise fun a b => a.1 < b.1) :
    obj.1 ∉ done.map Prod.fst ∧ ∀ obj' ∈ rest, obj.1 < obj'.1 := by
  rw [List.pairwise_append, List.pairwise_cons] at h
  refine ⟨fun hmem => ?_, h.2.1.1⟩
  obtain ⟨obj', hobj', heq⟩ := List.mem_map.mp hmem
  exact (h.2.2 obj' hobj' obj List.mem_cons_self).ne heq

/-- From a sound cursor on, the rounds lead to the end exactly when the end
stays. -/
theorem Cursor.run (M : Allocator) {before ys : List LocalStub}
    (done : List (CString × Signature)) {list : List (CString × Signature)}
    (h : Cursor sm m xs ys list) (hlist : (done ++ list).Pairwise fun a b => a.1 < b.1)
    (hdone : Merged accepts before m.stubs.tree done) :
    (EndStays accepts sm list →
      ∃ m', list.foldlM (Merge.object M accepts (.elem sm.addr)) m = .ok m' ∧
        m'.stubs.refused = [] ∧ Merged accepts before m'.stubs.tree (done ++ list)) ∧
    (¬ EndStays accepts sm list →
      list.foldlM (Merge.object M accepts (.elem sm.addr)) m = .error .pseudoElement) := by
  induction list generalizing m xs ys done with
  | nil =>
      refine ⟨fun _ => ⟨m, rfl, h.refused, by simpa using hdone⟩, fun hnot => ?_⟩
      exact absurd endStays_nil hnot
  | cons obj rest ih =>
      obtain ⟨hnew, hrest⟩ := object_in_order hlist
      obtain ⟨m₁, hobject, hround⟩ := h.object M accepts hrest
      have hdone₁ := hdone.snoc hnew hround.dealt
      rw [List.foldlM_cons, hobject, endStays_cons]
      by_cases hmoves : MovesEnd accepts sm obj
      · cases rest with
        | nil =>
            refine ⟨fun _ => ⟨m₁, rfl, hround.refused, hdone₁⟩, fun hnot => ?_⟩
            exact absurd ⟨fun hne => absurd rfl hne, endStays_nil⟩ hnot
        | cons obj' rest' =>
            refine ⟨fun hstays => absurd hmoves (hstays.1 (List.cons_ne_nil obj' rest')),
              fun _ => ?_⟩
            -- The next round reads the list head.
            simp [bind, Except.bind, object_doomed (hround.doomed hmoves)]
      · obtain ⟨xs', ys', hcursor⟩ := hround.sound hmoves
        rw [List.append_cons] at hlist ⊢
        have hiff : ((rest ≠ [] → ¬ MovesEnd accepts sm obj) ∧ EndStays accepts sm rest) ↔
            EndStays accepts sm rest := and_iff_right fun _ => hmoves
        rw [hiff]
        exact ih _ hcursor hlist hdone₁

/-- Behind the last stub no cursor is set, and every accepted object gets its
stub. -/
theorem run_behind (M : Allocator) (last : Place) {before : List LocalStub}
    (done : List (CString × Signature)) {list : List (CString × Signature)}
    (hcur : m.cur = none) (hcmp : m.cmpResult ≠ 0) (hrefused : m.stubs.refused = [])
    (hbelow : ∀ t ∈ m.stubs.tree, ∀ obj ∈ list, t.key < obj.1)
    (hlist : (done ++ list).Pairwise fun a b => a.1 < b.1)
    (hdone : Merged accepts before m.stubs.tree done) :
    ∃ m', list.foldlM (Merge.object M accepts last) m = .ok m' ∧
      m'.stubs.refused = [] ∧ Merged accepts before m'.stubs.tree (done ++ list) := by
  induction list generalizing m done with
  | nil => exact ⟨m, rfl, hrefused, by simpa using hdone⟩
  | cons obj rest ih =>
      obtain ⟨hnew, hrest⟩ := object_in_order hlist
      have hadvance : m.advance last obj.1 = .ok m := by rw [Merge.advance, hcur]
      obtain ⟨new, htree, hrefused₁, hkeys, -, hdealt⟩ :=
        create_between M accepts (List.append_nil m.stubs.tree).symm hrefused
          (fun t ht => hbelow t ht obj List.mem_cons_self) (by simp)
      have hdone₁ := hdone.snoc hnew (by simpa using hdealt [] (by simp))
      rw [List.foldlM_cons, object_create hadvance hcmp, List.append_cons]
      refine ih _ (by rw [create_cur, hcur]) (by rwa [create_cmpResult]) hrefused₁
        (fun t ht obj' hobj' => ?_) (by simpa using hlist) hdone₁
      rw [htree, List.append_nil, List.mem_append] at ht
      rcases ht with ht | ht
      · exact hbelow t ht obj' (List.mem_cons_of_mem obj hobj')
      · rw [(hkeys t ht).1]
        exact hrest obj' hobj'

end

end

/-! ### The merge as a whole -/

theorem merged_nil (accepts : CString → Bool) (l : List LocalStub) : Merged accepts l l [] where
  listed := by simp
  unchanged := by simp
  unlisted := fun _ _ => Iff.rfl

/-- The first cursor: none when every stub is below the first object, else a
sound one. -/
theorem start_cases {st : Stubs} {obj : CString × Signature} {rest : List (CString × Signature)}
    (hrefused : st.refused = []) (hrest : ∀ obj' ∈ rest, obj.1 < obj'.1) :
    (Merge.start st (obj :: rest) = ⟨st, none, .head, 1⟩ ∧ ∀ t ∈ st.tree, t.key < obj.1) ∨
    ∃ sm xs ys, st.tree.getLast? = some sm ∧ obj.1 ≤ sm.key ∧
      (Merge.start st (obj :: rest)).stubs = st ∧
      Cursor sm (Merge.start st (obj :: rest)) xs ys (obj :: rest) := by
  obtain ⟨ds, zs, htree, hds, hzs⟩ := sorted_split st.sorted obj.1
  have hnot : ∀ d ∈ ds, ¬ 0 ≤ strcmp d.key obj.1 := by
    intro d hd
    rw [not_le, strcmp_neg_iff]
    exact hds d hd
  have hskip : st.tree.find? (fun s => 0 ≤ strcmp s.key obj.1) =
      zs.find? fun s => 0 ≤ strcmp s.key obj.1 := by
    rw [htree, List.find?_append, List.find?_eq_none.mpr fun d hd => by simpa using hnot d hd]
    rfl
  cases zs with
  | nil =>
      refine .inl ⟨?_, fun t ht => hds t (by simpa [htree] using ht)⟩
      simp [Merge.start, hskip]
  | cons x zs =>
      have hx : 0 ≤ strcmp x.key obj.1 := by
        rw [← not_lt, strcmp_neg_iff, not_lt]
        exact hzs x List.mem_cons_self
      have hstart : Merge.start st (obj :: rest) =
          ⟨st, some (.elem x.addr), .head, strcmp x.key obj.1⟩ := by
        simp [Merge.start, hskip, hx]
      have hne : ds ++ x :: zs ≠ [] := by simp
      have hend := List.getLast?_eq_some_getLast hne
      have hsm := mem_of_getLast?_append hend (List.cons_ne_nil x zs)
      refine .inr ⟨_, ds, x :: zs, (congrArg List.getLast? htree).trans hend, hzs _ hsm, ?_, ?_⟩
      · rw [hstart]
      · rw [hstart]
        refine ⟨htree, hrefused, rfl, hend, by simp, fun t ht obj' hobj' => ?_⟩
        rcases List.mem_cons.mp hobj' with rfl | hobj'
        · exact hds t ht
        · exact (hds t ht).trans (hrest obj' hobj')

theorem mergeList_of_rounds {M : Allocator} {accepts : CString → Bool} {st : Stubs}
    {list : List (CString × Signature)} {m' : Merge}
    (h : list.foldlM (Merge.object M accepts (placeOf LocalStub.addr st.tree.getLast?))
      (Merge.start st list) = .ok m') : mergeList M accepts st list = .ok m'.stubs := by
  rw [mergeList, h]
  rfl

theorem mergeList_cases (M : Allocator) (accepts : CString → Bool) {st : Stubs}
    {list : List (CString × Signature)} (hrefused : st.refused = [])
    (hlist : list.Pairwise fun a b => a.1 < b.1) :
    (MergeSafe accepts st list → ∃ st', mergeList M accepts st list = .ok st' ∧
      st'.refused = [] ∧ Merged accepts st.tree st'.tree list) ∧
    (¬ MergeSafe accepts st list → mergeList M accepts st list = .error .pseudoElement) := by
  cases list with
  | nil =>
      refine ⟨fun _ => ⟨st, rfl, hrefused, merged_nil accepts st.tree⟩, fun hnot => ?_⟩
      exact absurd (fun sm _ hobj => by simp at hobj) hnot
  | cons obj rest =>
      rcases start_cases hrefused (List.pairwise_cons.mp hlist).1 with
        ⟨hstart, hbelow⟩ | ⟨sm, xs, ys, hsm, hle, hstubs, hcursor⟩
      · -- No cursor is set, so there is nothing to ask of the end.
        have hbelow' : ∀ t ∈ st.tree, ∀ obj' ∈ obj :: rest, t.key < obj'.1 := by
          intro t ht obj' hobj'
          rcases List.mem_cons.mp hobj' with rfl | hobj'
          · exact hbelow t ht
          · exact (hbelow t ht).trans ((List.pairwise_cons.mp hlist).1 obj' hobj')
        have hsafe : MergeSafe accepts st (obj :: rest) := by
          rintro sm hsm ⟨obj', hobj', hle⟩
          cases hobj'
          exact absurd hle (not_le.mpr (hbelow sm (List.mem_of_getLast? hsm)))
        refine ⟨fun _ => ?_, fun hnot => absurd hsafe hnot⟩
        obtain ⟨m', hrun, href, hmerged⟩ := run_behind M
          (placeOf LocalStub.addr st.tree.getLast?) (m := ⟨st, none, .head, 1⟩) [] rfl
          Int.one_ne_zero hrefused hbelow' hlist (merged_nil accepts st.tree)
        rw [← hstart] at hrun
        exact ⟨m'.stubs, mergeList_of_rounds hrun, href, hmerged⟩
      · have hsafe : MergeSafe accepts st (obj :: rest) ↔ EndStays accepts sm (obj :: rest) := by
          constructor
          · exact fun h => h sm hsm ⟨obj, rfl, hle⟩
          · rintro h sm' hsm' -
            rw [hsm, Option.some.injEq] at hsm'
            exact hsm' ▸ h
        have hdone : Merged accepts st.tree (Merge.start st (obj :: rest)).stubs.tree [] := by
          rw [hstubs]
          exact merged_nil accepts st.tree
        obtain ⟨hok, herror⟩ := hcursor.run M [] hlist hdone
        rw [hsafe]
        have hlast : Place.elem sm.addr = placeOf LocalStub.addr st.tree.getLast? := by
          rw [hsm, placeOf]
        rw [hlast] at hok herror
        constructor
        · intro hstays
          obtain ⟨m', hrun, href, hmerged⟩ := hok hstays
          exact ⟨m'.stubs, mergeList_of_rounds hrun, href, hmerged⟩
        · intro hnot
          rw [mergeList, herror hnot]
          rfl

/-- The stubs that replies in order and removals lead to. -/
inductive Built (accepts : CString → Bool) : Stubs → Prop
  | empty : Built accepts .empty
  | merge {M : Allocator} {st st' : Stubs} {list : List (CString × Signature)} :
      Built accepts st → list.Pairwise (fun a b => a.1 < b.1) →
      mergeList M accepts st list = .ok st' → Built accepts st'
  | remove {st : Stubs} (stub : LocalStub) : Built accepts st →
      Built accepts (st.wsuLocalStubDestroy stub)

theorem Built.refused_nil {accepts : CString → Bool} {st : Stubs} (h : Built accepts st) :
    st.refused = [] := by
  induction h with
  | empty => rfl
  | @merge M st st' list _ hlist hmerge ih =>
      obtain ⟨hsafe, hfail⟩ := mergeList_cases M accepts ih hlist
      by_cases hs : MergeSafe accepts st list
      · obtain ⟨st₁, hst₁, href, -⟩ := hsafe hs
        rw [hmerge, Except.ok.injEq] at hst₁
        exact hst₁ ▸ href
      · rw [hfail hs] at hmerge
        cases hmerge
  | remove stub _ ih => exact ih

/-- The merge of a reply in order does what it is for exactly when no object
that moves the end is followed by another one, the replies that begin behind
the last stub apart. -/
theorem merge_iff (M : Allocator) {accepts : CString → Bool} {st : Stubs}
    {list : List (CString × Signature)} (hst : Built accepts st)
    (hlist : list.Pairwise fun a b => a.1 < b.1) :
    MergesWell M accepts st list ↔ MergeSafe accepts st list := by
  obtain ⟨hsafe, hfail⟩ := mergeList_cases M accepts hst.refused_nil hlist
  constructor
  · rintro ⟨st', hmerge, -⟩
    by_contra hnot
    rw [hfail hnot] at hmerge
    cases hmerge
  · intro hs
    obtain ⟨st', hmerge, href, hmerged⟩ := hsafe hs
    refine ⟨st', hmerge, ?_, fun a ha b hb hkey => ?_⟩
    · simpa [Stubs.registered, href, hst.refused_nil] using hmerged
    · rw [Stubs.registered, href, List.append_nil] at ha hb
      exact List.Pairwise.forall_of_forall_of_flip (R := fun a b => a.key = b.key → a = b)
        (fun _ _ _ => rfl) (st'.sorted.imp fun hlt heq => absurd heq hlt.ne)
        (st'.sorted.imp fun hlt heq => absurd heq hlt.ne') ha hb hkey

def listedObject (name method : String) : CString × Signature :=
  (.ofString name, [(.ofString method, [])])

def twoStubs : Stubs where
  tree := [.create 1 (.ofString "network") [(.ofString "restart", [])],
    .create 2 (.ofString "system") [(.ofString "info", [])]]
  refused := []
  sorted := by decide
  distinct := by
    unfold Distinct
    decide

theorem built_twoStubs : Built acceptAll twoStubs :=
  .merge .empty
    (show [listedObject "network" "restart", listedObject "system" "info"].Pairwise _ by decide)
    (show mergeList bumpAllocator acceptAll .empty _ = _ from rfl)

/-- One object changed, one new between the stubs, and one new at the end. -/
theorem merge_iff_three_changes :
    MergesWell bumpAllocator acceptAll twoStubs
      [listedObject "network" "reload", listedObject "service" "list",
        listedObject "system" "info", listedObject "uci" "get"] := by
  refine (merge_iff bumpAllocator built_twoStubs (by decide)).mpr ?_
  rintro sm hsm -
  cases hsm
  -- Only the last object moves the end.
  refine endStays_cons.mpr ⟨fun _ => ?_, endStays_cons.mpr ⟨fun _ => ?_, endStays_cons.mpr
    ⟨fun _ => ?_, endStays_cons.mpr ⟨fun h => absurd rfl h, endStays_nil⟩⟩⟩⟩
  all_goals
    unfold MovesEnd
    decide

/-- Two new objects behind the last stub: after the first of them the walk
does not see its end any more and compares the list head. -/
theorem merge_reads_list_head :
    Built acceptAll twoStubs ∧
      [listedObject "system" "info", listedObject "uci" "get",
        listedObject "wireless" "status"].Pairwise (fun a b => a.1 < b.1) ∧
      mergeList bumpAllocator acceptAll twoStubs [listedObject "system" "info",
        listedObject "uci" "get", listedObject "wireless" "status"] = .error .pseudoElement ∧
      ¬ MergesWell bumpAllocator acceptAll twoStubs [listedObject "system" "info",
        listedObject "uci" "get", listedObject "wireless" "status"] := by
  refine ⟨built_twoStubs, by decide, rfl, ?_⟩
  rintro ⟨st', hmerge, -⟩
  cases hmerge

end Owsd.Proxy
