import Owsd.Basis.CString

/-!
Binary messages of libubox and values of json-c, as far as programs read
them.

A blob attribute is a name and a typed value; tables and arrays hold
attributes, those of an array under empty names. A json-c object is an
insertion-ordered map, so adding under a key that is there replaces its
value in place.
-/

namespace Owsd

/-- `enum blobmsg_type`, in the order of its numbers `0` to `8`. A boolean
is an `int8`. -/
inductive BlobmsgType where
  | unspec | array | table | string | int64 | int32 | int16 | int8 | double
  deriving DecidableEq, Repr

inductive Blob where
  | unspec
  | array (elems : List (CString × Blob))
  | table (members : List (CString × Blob))
  | string (s : CString)
  | int64 (v : BitVec 64)
  | int32 (v : BitVec 32)
  | int16 (v : BitVec 16)
  | int8 (v : BitVec 8)
  | double (bits : BitVec 64)

/-- A named value: `struct blob_attr` with its blobmsg header. -/
abbrev Attr := CString × Blob

namespace Blob

def type : Blob → BlobmsgType
  | unspec => .unspec
  | array _ => .array
  | table _ => .table
  | string _ => .string
  | int64 _ => .int64
  | int32 _ => .int32
  | int16 _ => .int16
  | int8 _ => .int8
  | double _ => .double

/-- The attributes of a table or an array. -/
def members : Blob → List Attr
  | array elems => elems
  | table members => members
  | _ => []

/-- `blobmsg_get_string` where only a string can be. -/
def getString : Blob → CString
  | string s => s
  | _ => []

/-- `blobmsg_get_string`. It takes the bytes of any value for text, up to a
zero that may lie behind the value in memory. -/
def text (rawText : Blob → CString) : Blob → CString
  | string s => s
  | b => rawText b

def bytes (width n : ℕ) : List ℕ :=
  (List.range width).reverse.map fun i => (n >>> (8 * i)) % 256

def payload : Blob → List ℕ
  | string s => s.map (fun c => c.val.val) ++ [0]
  | int64 v => bytes 8 v.toNat
  | int32 v => bytes 4 v.toNat
  | int16 v => bytes 2 v.toNat
  | int8 v => bytes 1 v.toNat
  | double bits => bytes 8 bits.toNat
  | _ => []

/-- The length in the header of an attribute that starts with these bytes. -/
def headerLength : List ℕ → ℕ
  | _ :: b₁ :: b₂ :: b₃ :: _ => b₁ * 65536 + b₂ * 256 + b₃
  | _ => 0

end Blob

/-- What `blobmsg_for_each_attr` finds in the bytes of a scalar that begin
like an attribute. Names and lengths may lie behind the value in memory; there
is nothing when they lead out of the message. -/
abbrev ScalarAttrs := Blob → Option (List Attr)

/-- The attributes `blobmsg_for_each_attr` visits. It takes the bytes of a
scalar for attributes too: there is one when its padded length is within the
scalar, and one that is shorter than its own header has data of a negative
length, which nobody can copy. -/
def Blob.forEachAttr (x : ScalarAttrs) : Blob → Option (List Attr)
  | .array elems => some elems
  | .table members => some members
  | b =>
      let len := headerLength b.payload
      if len = 0 ∨ b.payload.length < (len + 3) / 4 * 4 then some []
      else if len < 4 then none
      else x b

theorem Blob.forEachAttr_scalar (x : ScalarAttrs) {b : Blob} (harray : b.type ≠ .array)
    (htable : b.type ≠ .table) :
    b.forEachAttr x = some [] ∨ b.forEachAttr x = none ∨ b.forEachAttr x = x b := by
  unfold forEachAttr
  split
  · exact absurd rfl harray
  · exact absurd rfl htable
  · simp only
    split
    · exact .inl rfl
    · split
      · exact .inr (.inl rfl)
      · exact .inr (.inr rfl)

/-- The value fits a policy of the given type: any value does when the type
is unspecified. -/
def BlobmsgType.fits (t : BlobmsgType) (v : Blob) : Bool :=
  t == .unspec || v.type == t

/-- `blobmsg_parse`: for each policy, the first attribute of that name that
fits its type. -/
def blobmsgParse (policy : List (CString × BlobmsgType)) (attrs : List Attr) :
    List (Option Attr) :=
  policy.map fun p => attrs.find? fun a => a.1 = p.1 && p.2.fits a.2

/-- `blobmsg_parse_array`: each policy takes the next element that fits it;
elements that do not fit are passed over. -/
def blobmsgParseArray : List BlobmsgType → List Attr → List (Option Attr)
  | [], _ => []
  | _ :: ps, [] => none :: ps.map fun _ => none
  | p :: ps, a :: rest =>
      if p.fits a.2 then some a :: blobmsgParseArray ps rest
      else blobmsgParseArray (p :: ps) rest

/-- A value of json-c. -/
inductive Json where
  | null
  | bool (b : Bool)
  | int (v : Int)
  | double (bits : BitVec 64)
  | string (s : CString)
  | array (elems : List Json)
  | object (members : List (CString × Json))

namespace Json

/-- `json_object_object_add`. -/
def objectAdd (o : List (CString × Json)) (key : CString) (v : Json) : List (CString × Json) :=
  if o.any (·.1 = key) then o.map fun m => if m.1 = key then (key, v) else m
  else o ++ [(key, v)]

/-- `json_object_object_get_ex`: `none` when the value is no object or has no
such key; the value found may be `null`. -/
def getEx : Json → CString → Option Json
  | object members, key => members.lookup key
  | _, _ => none

/-- `json_object_array_get_idx`, with `NULL` as `null`. -/
def arrayGetIdx : Json → ℕ → Json
  | array elems, i => elems.getD i null
  | _, _ => null

def isArray : Json → Bool
  | array _ => true
  | _ => false

def isString : Json → Bool
  | string _ => true
  | _ => false

def isInt : Json → Bool
  | int _ => true
  | _ => false

/-- Integers come back as `int32_t`, clamped to its range. -/
def saturate (v : Int) : Int :=
  if v < -2147483648 then -2147483648
  else if 2147483647 < v then 2147483647
  else v

/-- The integral part of the number with the given IEEE 754 bits. -/
def doubleTrunc (bits : BitVec 64) : Int :=
  let expo := (bits.toNat >>> 52) % 2048
  let mant := bits.toNat % 4503599627370496 + 4503599627370496
  let abs : ℕ := if expo < 1023 then 0 else (mant <<< (expo - 1023)) >>> 52
  if bits.msb then -(abs : Int) else abs

/-- The number a text starts with, as `strtoll` reads it in base ten. -/
def leadingInt (s : CString) : Int :=
  let s := s.dropWhile fun c => c.val.val = 32 ∨ (9 ≤ c.val.val ∧ c.val.val ≤ 13)
  let digits (t : CString) : Int :=
    ((t.takeWhile fun c => 48 ≤ c.val.val ∧ c.val.val ≤ 57).foldl
      (fun n c => 10 * n + (c.val.val - 48)) 0 : ℕ)
  match s with
  | [] => 0
  | c :: cs => if c.val.val = 45 then -digits cs
      else if c.val.val = 43 then digits cs
      else digits (c :: cs)

/-- `json_object_get_int`: a value of another type is coerced, and counts as
zero when it cannot be. -/
def getInt : Json → Int
  | int v => saturate v
  | bool b => if b then 1 else 0
  | double bits => saturate (doubleTrunc bits)
  | string s => saturate (leadingInt s)
  | _ => 0

end Json

mutual

/-- Format a blob as JSON text and parse that text again. -/
def Blob.toJson : Blob → Json
  | .unspec => .null
  | .array elems => .array (elemsToJson elems)
  | .table members => .object (membersToJson [] members)
  | .string s => .string s
  | .int64 v => .int v.toInt
  | .int32 v => .int v.toInt
  | .int16 v => .int v.toInt
  | .int8 v => .bool (v != 0)
  | .double bits => .double bits

def elemsToJson : List Attr → List Json
  | [] => []
  | (_, b) :: rest => b.toJson :: elemsToJson rest

def membersToJson (acc : List (CString × Json)) : List Attr → List (CString × Json)
  | [] => acc
  | (name, b) :: rest => membersToJson (Json.objectAdd acc name b.toJson) rest

end

theorem Json.objectAdd_of_not_mem {o : List (CString × Json)} {key : CString} (v : Json)
    (h : key ∉ o.map Prod.fst) : Json.objectAdd o key v = o ++ [(key, v)] := by
  have hnone : o.any (fun m => m.1 = key) = false := by
    rw [List.any_eq_false]
    intro m hm
    simpa using fun heq : m.1 = key => h (heq ▸ List.mem_map_of_mem hm)
  simp [Json.objectAdd, hnone]

/-- Members with names of their own stay as they are, in their order. -/
theorem membersToJson_of_nodup {acc : List (CString × Json)} {members : List Attr}
    (h : (acc.map Prod.fst ++ members.map Prod.fst).Nodup) :
    membersToJson acc members = acc ++ members.map fun a => (a.1, a.2.toJson) := by
  induction members generalizing acc with
  | nil => simp [membersToJson]
  | cons a rest ih =>
      have hnew : a.1 ∉ acc.map Prod.fst := by
        intro hmem
        exact (List.nodup_append.mp h).2.2 _ hmem _ List.mem_cons_self rfl
      rw [membersToJson, Json.objectAdd_of_not_mem _ hnew, ih]
      · simp
      · simpa using h

theorem Blob.toJson_table {members : List Attr} (h : (members.map Prod.fst).Nodup) :
    (Blob.table members).toJson = .object (members.map fun a => (a.1, a.2.toJson)) := by
  rw [Blob.toJson, membersToJson_of_nodup (by simpa using h), List.nil_append]

end Owsd
