import Owsd.Basis.Blob

/-!
JSON objects as binary messages.

libubox turns the value of json-c that was received into a blob, member by
member. Nothing is lost on the way: read back as JSON, the blob is the value
it was made of (`toJson_toBlob`).
-/

namespace Owsd

mutual

/-- `blobmsg_add_json_element`: integers take 32 bits if they fit. -/
def Json.toBlob : Json → Blob
  | .null => .unspec
  | .bool b => .int8 (if b then 1 else 0)
  | .int v =>
      if -2147483648 ≤ v ∧ v ≤ 2147483647 then .int32 (BitVec.ofInt 32 v)
      else .int64 (BitVec.ofInt 64 v)
  | .double bits => .double bits
  | .string s => .string s
  | .array elems => .array (elemsToBlob elems)
  | .object members => .table (membersToBlob members)

/-- `blobmsg_add_array`. -/
def elemsToBlob : List Json → List Attr
  | [] => []
  | j :: rest => ([], j.toBlob) :: elemsToBlob rest

/-- `blobmsg_add_object`. -/
def membersToBlob : List (CString × Json) → List Attr
  | [] => []
  | (key, j) :: rest => (key, j.toBlob) :: membersToBlob rest

end

mutual

/-- What json-c can hold: its integers have 64 bits, and the keys of an
object are distinct. -/
def Json.Valid : Json → Prop
  | .int v => -9223372036854775808 ≤ v ∧ v ≤ 9223372036854775807
  | .array elems => ElemsValid elems
  | .object members => (members.map Prod.fst).Nodup ∧ MembersValid members
  | _ => True

def ElemsValid : List Json → Prop
  | [] => True
  | j :: rest => j.Valid ∧ ElemsValid rest

def MembersValid : List (CString × Json) → Prop
  | [] => True
  | (_, j) :: rest => j.Valid ∧ MembersValid rest

end

theorem elemsToBlob_eq (elems : List Json) :
    elemsToBlob elems = elems.map fun j => ([], j.toBlob) := by
  induction elems with
  | nil => rfl
  | cons j rest ih => rw [elemsToBlob, ih, List.map_cons]

theorem membersToBlob_eq (members : List (CString × Json)) :
    membersToBlob members = members.map fun m => (m.1, m.2.toBlob) := by
  induction members with
  | nil => rfl
  | cons m rest ih => rw [membersToBlob, ih, List.map_cons]

theorem toJson_int {v : Int} (h : (Json.int v).Valid) : (Json.int v).toBlob.toJson = .int v := by
  rw [Json.Valid] at h
  rw [Json.toBlob]
  split
  · rw [Blob.toJson, BitVec.toInt_ofInt, Int.bmod_eq_of_le (by omega) (by omega)]
  · rw [Blob.toJson, BitVec.toInt_ofInt, Int.bmod_eq_of_le (by omega) (by omega)]

mutual

theorem toJson_toBlob (j : Json) (h : j.Valid) : j.toBlob.toJson = j := by
  cases j with
  | null => rfl
  | bool b =>
      cases b with
      | false => rfl
      | true => rfl
  | int v => exact toJson_int h
  | double bits => rfl
  | string s => rfl
  | array elems => rw [Json.toBlob, Blob.toJson, elemsToJson_toBlob elems h]
  | object members =>
      rw [Json.Valid] at h
      have hnames : ((membersToBlob members).map Prod.fst).Nodup := by
        simpa [membersToBlob_eq, List.map_map, Function.comp_def] using h.1
      rw [Json.toBlob, Blob.toJson_table hnames, membersToJson_toBlob members h.2]

theorem elemsToJson_toBlob (elems : List Json) (h : ElemsValid elems) :
    elemsToJson (elemsToBlob elems) = elems := by
  cases elems with
  | nil => rfl
  | cons j rest =>
      rw [elemsToBlob, elemsToJson, toJson_toBlob j h.1, elemsToJson_toBlob rest h.2]

theorem membersToJson_toBlob (members : List (CString × Json)) (h : MembersValid members) :
    ((membersToBlob members).map fun a => (a.1, a.2.toJson)) = members := by
  cases members with
  | nil => rfl
  | cons m rest =>
      rw [membersToBlob, List.map_cons, toJson_toBlob m.2 h.1, membersToJson_toBlob rest h.2]

end

end Owsd
