import Owsd.Basis.Conversion
import Owsd.Rpc.Message

/-!
The requests a proxy sends (`jsonrpc__req_*` of `util_jsonrpc.c`), and how
the server on the other side takes them apart.

One function builds all three kinds of request from seven arguments, of which
each kind uses its own; the server reads the parameters by their position
again. What it reads is what was given (`requests_decode`).
-/

namespace Owsd.Rpc

/-! ### Building requests -/

/-- `custom_json_object_array_add_string`. A null pointer cannot be read as
text. -/
def arrayAddString (array : List Json) (val : Option CString) : Option (List Json) :=
  val.map fun s => array ++ [.string s]

/-- `jsonrpc__req_to_string`, up to the printing. Only a `call` has an object,
a method and an argument; the others have a pattern. -/
def jsonrpcReqToString (id : BitVec 32) (sid : Option CString) (jsonrpcMethod : CString)
    (obj method : Option CString) (arg : Option Json) (pattern : Option CString) :
    Option Json := do
  let jo := Json.objectAdd [] (.ofString "jsonrpc") (.string (.ofString "2.0"))
  let jo := Json.objectAdd jo (.ofString "id") (.int id.toInt)
  let jo := Json.objectAdd jo (.ofString "method") (.string jsonrpcMethod)
  let joParams ← arrayAddString [] (some (sid.getD ubusDefaultSid))
  let joParams ←
    if jsonrpcMethod = .ofString "call" then do
      let joParams ← arrayAddString joParams obj
      let joParams ← arrayAddString joParams method
      pure (joParams ++ [arg.getD (.object [])])
    else arrayAddString joParams pattern
  pure (.object (Json.objectAdd jo (.ofString "params") (.array joParams)))

def jsonrpcReqUbuslist (id : BitVec 32) (sid : Option CString) (pattern : CString) : Option Json :=
  jsonrpcReqToString id sid (.ofString "list") none none none (some pattern)

def jsonrpcReqUbuslisten (id : BitVec 32) (sid : Option CString) (pattern : CString) :
    Option Json :=
  jsonrpcReqToString id sid (.ofString "subscribe") none none none (some pattern)

def jsonrpcReqUbuscall (id : BitVec 32) (sid : Option CString) (obj method : CString)
    (arg : Option Json) : Option Json :=
  jsonrpcReqToString id sid (.ofString "call") (some obj) (some method) arg none

/-! ### Reading them -/

/-- The message the server handles when it received a value: only objects
are messages. -/
def messageBlob : Json → Option (List Attr)
  | .object members => some (membersToBlob members)
  | _ => none

/-- The message is built, and the server takes it for the request, under the
id. -/
def DecodesTo (id : BitVec 32) (req : UbusrpcBlob) (msg : Option Json) : Prop :=
  ∃ jo blob, msg = some jo ∧ messageBlob jo = some blob ∧
    jsonrpcId blob = some (.ofString "id", .int32 id) ∧ ∀ x, parseRequest x blob = some (.ok req)

def envelope (id : BitVec 32) (method : CString) (params : List Json) : Json :=
  .object [(.ofString "jsonrpc", .string (.ofString "2.0")), (.ofString "id", .int id.toInt),
    (.ofString "method", .string method), (.ofString "params", .array params)]

theorem ubuscall_eq (id : BitVec 32) (sid : Option CString) (obj method : CString)
    (arg : Option Json) :
    jsonrpcReqUbuscall id sid obj method arg =
      some (envelope id (.ofString "call") [.string (sid.getD ubusDefaultSid), .string obj,
        .string method, arg.getD (.object [])]) := rfl

theorem ubuslist_eq (id : BitVec 32) (sid : Option CString) (pattern : CString) :
    jsonrpcReqUbuslist id sid pattern =
      some (envelope id (.ofString "list")
        [.string (sid.getD ubusDefaultSid), .string pattern]) := rfl

theorem ubuslisten_eq (id : BitVec 32) (sid : Option CString) (pattern : CString) :
    jsonrpcReqUbuslisten id sid pattern =
      some (envelope id (.ofString "subscribe")
        [.string (sid.getD ubusDefaultSid), .string pattern]) := rfl

theorem toBlob_int (id : BitVec 32) : (Json.int id.toInt).toBlob = .int32 id := by
  have hle := BitVec.le_toInt id
  have hlt := BitVec.toInt_lt (x := id)
  rw [Json.toBlob, if_pos (by omega), BitVec.ofInt_toInt]

theorem envelope_decodes {id : BitVec 32} {method : CString} {params : List Json}
    {req : UbusrpcBlob}
    (h : ∀ x, ubusrpcBlobParse x method (.array (elemsToBlob params)) = some (.ok req)) :
    DecodesTo id req (some (envelope id method params)) := by
  refine ⟨_, _, rfl, rfl, ?_, fun x => ?_⟩
  · simp only [membersToBlob, toBlob_int]
    rfl
  · simp only [membersToBlob, toBlob_int]
    exact h x

theorem callParse_eq {sid obj method : CString} {members : List (CString × Json)}
    (h : ∀ m ∈ members, m.1 ≠ .ofString "_owsd_listen") (x : ScalarAttrs) :
    ubusrpcBlobParse x (.ofString "call")
        (.array (elemsToBlob [.string sid, .string obj, .string method, .object members])) =
      some (.ok (.call ⟨sid, obj, method, membersToBlob members⟩)) := by
  have hnone : (membersToBlob members).any
      (fun cur => cur.1 = .ofString "_owsd_listen") = false := by
    rw [List.any_eq_false, membersToBlob_eq]
    intro cur hcur
    obtain ⟨m, hm, rfl⟩ := List.mem_map.mp hcur
    simpa using h m hm
  have hparse : ubusrpcBlobCallParse x
      (.array (elemsToBlob [.string sid, .string obj, .string method, .object members])) =
      some (.ok ⟨sid, obj, method, membersToBlob members⟩) := by
    have hslots : blobmsgParseArray [.string, .string, .string, .unspec]
        (Blob.array (elemsToBlob
          [.string sid, .string obj, .string method, .object members])).members =
        [some ([], .string sid), some ([], .string obj), some ([], .string method),
          some ([], .table (membersToBlob members))] := rfl
    have hmembers : (Blob.table (membersToBlob members)).forEachAttr x =
        some (membersToBlob members) := rfl
    simp only [ubusrpcBlobCallParse, hslots, hmembers, Option.map_some, hnone, Bool.false_eq_true,
      if_false]
    rfl
  rw [ubusrpcBlobParse, if_pos rfl, hparse, Option.map_some, parseParams]

/-- Requests decode to what was encoded. The arguments of a call arrive member
by member, and read back they are the given ones. -/
theorem requests_decode (id : BitVec 32) (sid : Option CString) (obj method pattern : CString)
    (arg : Option (List (CString × Json)))
    (harg : ∀ m ∈ arg.getD [], m.1 ≠ .ofString "_owsd_listen") :
    DecodesTo id (.call ⟨sid.getD ubusDefaultSid, obj, method, membersToBlob (arg.getD [])⟩)
        (jsonrpcReqUbuscall id sid obj method (arg.map .object)) ∧
      ((Json.object (arg.getD [])).Valid →
        (Blob.table (membersToBlob (arg.getD []))).toJson = .object (arg.getD [])) ∧
      DecodesTo id (.list ⟨sid.getD ubusDefaultSid, pattern⟩) (jsonrpcReqUbuslist id sid pattern) ∧
      DecodesTo id (.sub ⟨sid.getD ubusDefaultSid, pattern⟩)
        (jsonrpcReqUbuslisten id sid pattern) := by
  refine ⟨?_, fun hvalid => toJson_toBlob _ hvalid, ?_, ?_⟩
  · have hobject : (arg.map Json.object).getD (.object []) = .object (arg.getD []) := by
      cases arg with
      | none => rfl
      | some members => rfl
    rw [ubuscall_eq, hobject]
    exact envelope_decodes (callParse_eq harg)
  · rw [ubuslist_eq]
    exact envelope_decodes fun _ => rfl
  · rw [ubuslisten_eq]
    exact envelope_decodes fun _ => rfl

/-- A login without a session. -/
theorem requests_decode_login :
    DecodesTo 1
      (.call ⟨.ofString "00000000000000000000000000000000", .ofString "session", .ofString "login",
        [(.ofString "username", .string (.ofString "admin")), (.ofString "timeout", .int32 300)]⟩)
      (jsonrpcReqUbuscall 1 none (.ofString "session") (.ofString "login")
        (some (.object [(.ofString "username", .string (.ofString "admin")),
          (.ofString "timeout", .int 300)]))) :=
  (requests_decode 1 none (.ofString "session") (.ofString "login") []
    (some [(.ofString "username", .string (.ofString "admin")), (.ofString "timeout", .int 300)])
    (by decide)).1

end Owsd.Rpc
