import Mathlib.Data.List.Forall2
import Owsd.Basis.Blob

/-!
Local stubs of remote objects (`local_stub.c`).

A stub keeps the signature of its object flattened: the arguments of all
methods stand in one array, and each method has its place and its count in
it. `signature` puts the two together again; it is what creating a stub and
the test for a changed signature are about.
-/

namespace Owsd.Proxy

/-- The signature of an object as a `list` reply has it: method names, each
with argument names and the names of their types, which may be null. -/
abbrev Signature := List (CString × List (CString × Option CString))

/-- `blobmsg_type_from_str`, by the first letter. `none` stands for
`__BLOBMSG_TYPE_LAST`, the result for no text. -/
def blobmsgTypeFromStr : Option CString → Option BlobmsgType
  | none => none
  | some c =>
      if c.head? = (CString.ofString "a").head? then some .array
      else if c.head? = (CString.ofString "o").head? then some .table
      else if c.head? = (CString.ofString "s").head? then some .string
      else if c.head? = (CString.ofString "n").head? then some .int32
      else if c.head? = (CString.ofString "b").head? then some .int8
      else some .unspec

/-- `struct blobmsg_policy`. -/
structure Policy where
  name : CString
  type : Option BlobmsgType
  deriving DecidableEq

/-- `struct ubus_method`, with `policy` as an index into the array of
arguments. -/
structure Method where
  name : CString
  nPolicy : ℕ
  policy : ℕ

/-- `struct wsu_local_stub`: its address, its key in the tree of stubs, and
its methods. -/
structure LocalStub where
  addr : ℕ
  key : CString
  methods : List Method
  methodArgs : List Policy
  inBounds : ∀ m ∈ methods, m.policy + m.nPolicy ≤ methodArgs.length

namespace LocalStub

def args (stub : LocalStub) (m : Method) : List Policy :=
  (stub.methodArgs.drop m.policy).take m.nPolicy

def signature (stub : LocalStub) : List (CString × List Policy) :=
  stub.methods.map fun m => (m.name, stub.args m)

end LocalStub

/-! ### Creation -/

def copyArgs (margs : List (CString × Option CString)) : List Policy :=
  margs.map fun a => ⟨a.1, blobmsgTypeFromStr a.2⟩

def meaning (s : Signature) : List (CString × List Policy) :=
  s.map fun m => (m.1, copyArgs m.2)

/-- The loop of `wsu_local_stub_create` over the methods, from the argument
index `b` on. -/
def copyMethods : ℕ → Signature → List Method
  | _, [] => []
  | b, (mname, margs) :: rest =>
      { name := mname, nPolicy := margs.length, policy := b } ::
        copyMethods (b + margs.length) rest

theorem copyMethods_inBounds {s : Signature} {b : ℕ} :
    ∀ m ∈ copyMethods b s,
      m.policy + m.nPolicy ≤ b + (s.flatMap fun m => copyArgs m.2).length := by
  induction s generalizing b with
  | nil => simp [copyMethods]
  | cons head rest ih =>
      intro m hm
      rw [copyMethods, List.mem_cons] at hm
      rw [List.flatMap_cons, List.length_append]
      have hlen : (copyArgs head.2).length = head.2.length := List.length_map ..
      rcases hm with rfl | hm
      · simp only
        omega
      · have := ih m hm
        omega

/-- `wsu_local_stub_create` up to the insertion into the tree, at the address
the allocator gave. -/
def LocalStub.create (addr : ℕ) (object : CString) (s : Signature) : LocalStub where
  addr := addr
  key := object
  methods := copyMethods 0 s
  methodArgs := s.flatMap fun m => copyArgs m.2
  inBounds := by simpa using copyMethods_inBounds (s := s) (b := 0)

/-- The methods copied from index `b` on find their arguments behind the
first `b`. -/
theorem copyMethods_args (before : List Policy) (s : Signature) :
    (copyMethods before.length s).map (fun m =>
      (m.name, ((before ++ s.flatMap fun m => copyArgs m.2).drop m.policy).take m.nPolicy)) =
      meaning s := by
  induction s generalizing before with
  | nil => rfl
  | cons head rest ih =>
      have hlen : (copyArgs head.2).length = head.2.length := List.length_map ..
      rw [copyMethods, List.map_cons, meaning, List.map_cons, List.flatMap_cons]
      congr 1
      · rw [List.drop_left, ← hlen, List.take_left]
      · have := ih (before ++ copyArgs head.2)
        rw [List.length_append, hlen, List.append_assoc] at this
        exact this

@[simp] theorem signature_create (addr : ℕ) (object : CString) (s : Signature) :
    (LocalStub.create addr object s).signature = meaning s :=
  copyMethods_args [] s

/-! ### The test for a changed signature -/

/-- The inner loop of `wsu_local_stub_is_same_signature`: from the policy at
index `b` on. -/
def sameArgs (methodArgs : List Policy) : ℕ → List (CString × Option CString) → Bool
  | _, [] => true
  | b, (aname, atype) :: rest =>
      match methodArgs[b]? with
      | none => false
      | some p =>
          if p.type ≠ blobmsgTypeFromStr atype then false
          else if p.name ≠ aname then false
          else sameArgs methodArgs (b + 1) rest

def sameMethods (methodArgs : List Policy) : List Method → Signature → Bool
  | m :: ms, (mname, margs) :: rest =>
      if m.nPolicy ≠ margs.length then false
      else if m.name ≠ mname then false
      else sameArgs methodArgs m.policy margs && sameMethods methodArgs ms rest
  | _, _ => true

def wsuLocalStubIsSameSignature (stub : LocalStub) (s : Signature) : Bool :=
  if stub.methods.length ≠ s.length then false
  else sameMethods stub.methodArgs stub.methods s

theorem sameArgs_iff {methodArgs : List Policy} {b : ℕ}
    {margs : List (CString × Option CString)} (hb : b + margs.length ≤ methodArgs.length) :
    sameArgs methodArgs b margs = true ↔
      (methodArgs.drop b).take margs.length = copyArgs margs := by
  induction margs generalizing b with
  | nil => simp [sameArgs, copyArgs]
  | cons a rest ih =>
      rw [List.length_cons] at hb
      have hlt : b < methodArgs.length := by omega
      have hih := ih (b := b + 1) (by omega)
      rw [sameArgs, List.getElem?_eq_getElem hlt, List.drop_eq_getElem_cons hlt,
        List.length_cons, List.take_succ_cons]
      simp only [copyArgs, List.map_cons, List.cons.injEq] at hih ⊢
      by_cases htype : methodArgs[b].type = blobmsgTypeFromStr a.2
      · by_cases hname : methodArgs[b].name = a.1
        · have hhead : methodArgs[b] = ⟨a.1, blobmsgTypeFromStr a.2⟩ := by
            rw [← htype, ← hname]
          simp [hhead, hih]
        · have hhead : methodArgs[b] ≠ ⟨a.1, blobmsgTypeFromStr a.2⟩ := fun h => hname (by rw [h])
          simp [htype, hname, hhead]
      · have hhead : methodArgs[b] ≠ ⟨a.1, blobmsgTypeFromStr a.2⟩ := fun h => htype (by rw [h])
        simp [htype, hhead]

theorem sameMethods_iff {methodArgs : List Policy} {ms : List Method} {s : Signature}
    (hms : ∀ m ∈ ms, m.policy + m.nPolicy ≤ methodArgs.length) (hlen : ms.length = s.length) :
    sameMethods methodArgs ms s = true ↔
      (ms.map fun m => (m.name, (methodArgs.drop m.policy).take m.nPolicy)) = meaning s := by
  induction ms generalizing s with
  | nil =>
      cases s with
      | nil => simp [sameMethods, meaning]
      | cons head rest => simp at hlen
  | cons m ms ih =>
      cases s with
      | nil => simp at hlen
      | cons head rest =>
          have hm := hms m List.mem_cons_self
          have hih := ih (s := rest) (fun m' hm' => hms m' (List.mem_cons_of_mem m hm'))
            (by simpa using hlen)
          simp only [sameMethods, meaning, List.map_cons, List.cons.injEq, Prod.mk.injEq]
          rw [meaning] at hih
          by_cases hn : m.nPolicy = head.2.length
          · rw [hn] at hm ⊢
            have hargs := sameArgs_iff hm
            by_cases hname : m.name = head.1
            · simp [hname, hargs, hih]
            · simp [hname]
          · -- The slice of the method is as long as its count says.
            have hne : ¬ (methodArgs.drop m.policy).take m.nPolicy = copyArgs head.2 := by
              intro heq
              have := congrArg List.length heq
              rw [List.length_take, List.length_drop, copyArgs, List.length_map] at this
              omega
            simp [hn, hne]

theorem isSameSignature_iff (stub : LocalStub) (s : Signature) :
    wsuLocalStubIsSameSignature stub s = true ↔ stub.signature = meaning s := by
  rw [wsuLocalStubIsSameSignature]
  by_cases hlen : stub.methods.length = s.length
  · simpa [hlen, LocalStub.signature, LocalStub.args] using sameMethods_iff stub.inBounds hlen
  · have hne : stub.signature ≠ meaning s := by
      intro heq
      have := congrArg List.length heq
      rw [LocalStub.signature, meaning, List.length_map, List.length_map] at this
      exact hlen this
    simp [hlen, hne]

/-! ### The same signature -/

/-- The same arguments: the same names in the same order, with types that
mean the same. -/
def SameArgs : List (CString × Option CString) → List (CString × Option CString) → Prop :=
  List.Forall₂ fun a b => a.1 = b.1 ∧ blobmsgTypeFromStr a.2 = blobmsgTypeFromStr b.2

/-- The same methods in the same order, each with the same arguments. -/
def SameSignature : Signature → Signature → Prop :=
  List.Forall₂ fun m n => m.1 = n.1 ∧ SameArgs m.2 n.2

/-- Two lists have one image when they agree element by element. -/
theorem map_eq_map_iff_forall₂ {α β : Type} {f : α → β} {l l' : List α} :
    l.map f = l'.map f ↔ List.Forall₂ (fun a b => f a = f b) l l' := by
  rw [← List.forall₂_map_right_iff, ← List.forall₂_map_left_iff, List.forall₂_eq_eq_eq]

theorem copyArgs_eq_iff {l l' : List (CString × Option CString)} :
    copyArgs l = copyArgs l' ↔ SameArgs l l' := by
  rw [copyArgs, copyArgs, map_eq_map_iff_forall₂, SameArgs]
  simp only [Policy.mk.injEq]

theorem meaning_eq_iff {s s' : Signature} : meaning s = meaning s' ↔ SameSignature s s' := by
  rw [meaning, meaning, map_eq_map_iff_forall₂, SameSignature]
  simp only [Prod.mk.injEq, copyArgs_eq_iff]

end Owsd.Proxy
