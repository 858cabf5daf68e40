import Owsd.Basis.LinkedList
import Owsd.Proxy.Stub

/-!
Merging the reply to a `list` into the stubs of a remote (`ws_ubusproxy.c`).

The stubs stand in a tree ordered by name, whose elements are also linked in
order around a list head. The reply is sorted as well, so the code goes
through both at once with a cursor into the linked list. It remembers the
last stub there was when it began, and takes the place after it for the end.
-/

namespace Owsd.Proxy

open LinkedList

/-- `calloc`: any address not in use. What it gives may depend on the object
it is for and on everything allocated; freed addresses may come back. -/
structure Allocator where
  malloc : CString → List ℕ → ℕ
  fresh : ∀ object live, malloc object live ∉ live

/-- An allocator that gives an address above all in use. -/
def bumpAllocator : Allocator where
  malloc _ live := live.foldr (· + ·) 1
  fresh _ live := by
    have hlt : ∀ a ∈ live, a < live.foldr (· + ·) 1 := by
      induction live with
      | nil => simp
      | cons b live ih =>
          have hpos : 0 < live.foldr (· + ·) 1 := by
            cases live with
            | nil => exact Nat.one_pos
            | cons c live => exact Nat.zero_lt_of_lt (ih c List.mem_cons_self)
          intro a ha
          rw [List.foldr_cons]
          rcases List.mem_cons.mp ha with rfl | ha
          · omega
          · have := ih a ha
            omega
    exact fun h => lt_irrefl _ (hlt _ h)

def insertStub (stub : LocalStub) : List LocalStub → List LocalStub
  | [] => [stub]
  | t :: rest =>
      if strcmp stub.key t.key < 0 then stub :: t :: rest else t :: insertStub stub rest

theorem insertStub_perm (stub : LocalStub) (l : List LocalStub) :
    (insertStub stub l).Perm (stub :: l) := by
  induction l with
  | nil => exact .refl _
  | cons t rest ih =>
      rw [insertStub]
      split
      · exact .refl _
      · exact (ih.cons t).trans (.swap stub t rest)

theorem insertStub_sorted {stub : LocalStub} {l : List LocalStub}
    (hl : l.Pairwise fun a b => a.key < b.key) (hne : ∀ t ∈ l, t.key ≠ stub.key) :
    (insertStub stub l).Pairwise fun a b => a.key < b.key := by
  induction l with
  | nil => simp [insertStub]
  | cons t rest ih =>
      rw [List.pairwise_cons] at hl
      rw [insertStub]
      split
      · next hlt =>
        rw [strcmp_neg_iff] at hlt
        refine List.pairwise_cons.mpr ⟨fun b hb => ?_, List.pairwise_cons.mpr hl⟩
        rcases List.mem_cons.mp hb with rfl | hb
        · exact hlt
        · exact lt_trans hlt (hl.1 b hb)
      · next hge =>
        rw [strcmp_neg_iff, not_lt] at hge
        have hlt : t.key < stub.key := lt_of_le_of_ne hge (hne t List.mem_cons_self)
        refine List.pairwise_cons.mpr ⟨fun b hb => ?_, ?_⟩
        · rcases List.mem_cons.mp ((insertStub_perm stub rest).subset hb) with rfl | hb
          · exact hlt
          · exact hl.1 b hb
        · exact ih hl.2 fun t' ht' => hne t' (List.mem_cons_of_mem t ht')

/-- The stubs of a remote: those in the tree, in its order, and those the
tree refused because it had their name already. All of them are registered on
the bus. -/
structure Stubs where
  tree : List LocalStub
  refused : List LocalStub
  sorted : tree.Pairwise fun a b => a.key < b.key
  distinct : Distinct LocalStub.addr (tree ++ refused)

namespace Stubs

/-- `avl_init`. -/
def empty : Stubs := ⟨[], [], .nil, .nil⟩

def registered (st : Stubs) : List LocalStub := st.tree ++ st.refused

/-- `avl_insert`, which refuses a name that is there. -/
def insert (st : Stubs) (stub : LocalStub)
    (hfresh : stub.addr ∉ (st.tree ++ st.refused).map LocalStub.addr) : Stubs :=
  if hkey : st.tree.any fun t => strcmp t.key stub.key = 0 then
    { st with
      refused := stub :: st.refused
      distinct := by
        have hperm : (st.tree ++ stub :: st.refused).Perm (stub :: (st.tree ++ st.refused)) :=
          List.perm_middle
        rw [Distinct, (hperm.map LocalStub.addr).nodup_iff, List.map_cons, List.nodup_cons]
        exact ⟨hfresh, st.distinct⟩ }
  else
    { st with
      tree := insertStub stub st.tree
      sorted := by
        refine insertStub_sorted st.sorted fun t ht heq => hkey ?_
        exact List.any_eq_true.mpr ⟨t, ht, by simp [heq]⟩
      distinct := by
        have hperm := (insertStub_perm stub st.tree).append_right st.refused
        rw [Distinct, (hperm.map LocalStub.addr).nodup_iff, List.cons_append, List.map_cons,
          List.nodup_cons]
        exact ⟨hfresh, st.distinct⟩ }

def wsuLocalStubDestroy (st : Stubs) (stub : LocalStub) : Stubs where
  tree := st.tree.filter fun t => t.addr ≠ stub.addr
  refused := st.refused
  sorted := st.sorted.filter _
  distinct := by
    have hsub : (st.tree.filter (fun t => t.addr ≠ stub.addr) ++ st.refused).Sublist
        (st.tree ++ st.refused) := (List.filter_sublist).append_right _
    exact (hsub.map LocalStub.addr).nodup st.distinct

end Stubs

def wsuLocalStubCreate (M : Allocator) (st : Stubs) (object : CString) (s : Signature) : Stubs :=
  st.insert (.create (M.malloc object ((st.tree ++ st.refused).map LocalStub.addr)) object s)
    (M.fresh object _)

/-! ### The merge -/

structure Merge where
  stubs : Stubs
  cur : Option Place
  next : Place
  cmpResult : Int

def acceptAll : CString → Bool := fun _ => true

def Merge.advance (m : Merge) (last : Place) (objName : CString) : Except Fault Merge :=
  match m.cur with
  | none => .ok m
  | some cur => do
      let ptr ← LinkedList.next LocalStub.addr m.stubs.tree cur
      let (cur, ptr, cmpResult) ← forRangeSafe LocalStub.addr (fun s => strcmp s.key objName)
        m.stubs.tree last (m.stubs.tree.length + 2) cur ptr m.cmpResult
      .ok { m with cur := some cur, next := ptr, cmpResult := cmpResult }

def Merge.create (M : Allocator) (accepts : CString → Bool) (m : Merge)
    (obj : CString × Signature) : Merge :=
  if accepts obj.1 then { m with stubs := wsuLocalStubCreate M m.stubs obj.1 obj.2 } else m

/-- One round: the object of the reply is new, or it has changed, or nothing
is to be done. -/
def Merge.object (M : Allocator) (accepts : CString → Bool) (last : Place) (m : Merge)
    (obj : CString × Signature) : Except Fault Merge := do
  let m ← m.advance last obj.1
  if m.cmpResult ≠ 0 then
    -- we don't have that object proxied, create new
    .ok (m.create M accepts obj)
  else
    match m.cur with
    | none => .error .null
    | some cur =>
        let stub ← get LocalStub.addr m.stubs.tree cur
        if wsuLocalStubIsSameSignature stub obj.2 then .ok m
        else
          -- we have old version of object type / signature
          .ok ({ m with stubs := m.stubs.wsuLocalStubDestroy stub, cur := some m.next }.create
            M accepts obj)

/-- The cursor before the first round: the first stub that is not below the
first object, if there is one. -/
def Merge.start (st : Stubs) (list : List (CString × Signature)) : Merge :=
  match list with
  | [] => ⟨st, none, .head, 1⟩
  | (key, _) :: _ =>
      match st.tree.find? fun s => 0 ≤ strcmp s.key key with
      | none => ⟨st, none, .head, 1⟩
      | some s => ⟨st, some (.elem s.addr), .head, strcmp s.key key⟩

def mergeList (M : Allocator) (accepts : CString → Bool) (st : Stubs)
    (list : List (CString × Signature)) : Except Fault Stubs := do
  let last := placeOf LocalStub.addr st.tree.getLast?
  let m ← list.foldlM (Merge.object M accepts last) (Merge.start st list)
  .ok m.stubs

/-- The test of a stub against a signature is exact, so that an object listed
again unchanged keeps its stub. -/
theorem same_signature_exact (addr : ℕ) (object : CString) (s₁ s₂ : Signature) :
    (wsuLocalStubIsSameSignature (.create addr object s₁) s₂ = true ↔ SameSignature s₁ s₂) ∧
    wsuLocalStubIsSameSignature (.create addr object s₁) s₁ = true ∧
    ∀ (M : Allocator) (accepts : CString → Bool) (last : Place) (m m' : Merge) (cur : Place),
      m.advance last object = .ok m' → m'.cmpResult = 0 → m'.cur = some cur →
      get LocalStub.addr m'.stubs.tree cur = .ok (.create addr object s₁) →
      m.object M accepts last (object, s₁) = .ok m' := by
  have hsame : ∀ s, wsuLocalStubIsSameSignature (.create addr object s₁) s = true ↔
      SameSignature s₁ s := by
    intro s
    rw [isSameSignature_iff, signature_create, meaning_eq_iff]
  have hself : wsuLocalStubIsSameSignature (.create addr object s₁) s₁ = true := by
    rw [isSameSignature_iff, signature_create]
  refine ⟨hsame s₂, hself, ?_⟩
  intro M accepts last m m' cur hadvance hcmp hcur hget
  simp only [Merge.object, hadvance, bind, Except.bind, hcmp, hcur, hget, hself]
  simp

end Owsd.Proxy
