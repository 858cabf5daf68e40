import Owsd.Basis.Blob

/-!
The messages of the websocket protocol: JSON-RPC requests as `rpc.c`,
`rpc_call.c`, `rpc_list.c` and `rpc_sub.c` take them apart, and the responses
`util_jsonrpc.c` builds.

A request is a blob table. `jsonrpc_blob_req_parse` reads its envelope,
keeping the `id` attribute by reference and accepting a request without one;
`ubusrpc_blob_parse` looks the method up and lets the parser of that method
read the positional parameters.
-/

namespace Owsd.Rpc

/-- `UBUS_DEFAULT_SID`, thirty-two zeros. -/
def ubusDefaultSid : CString := .ofString "00000000000000000000000000000000"

def ubusSidMaxStrlen : ℕ := 32

/-! ### Status and error codes -/

/-- `UBUS_STATUS_OK` of libubus. -/
def ubusStatusOk : Int := 0

/-- `UBUS_STATUS_NO_DATA` of libubus. -/
def ubusStatusNoData : Int := 5

/-- `UBUS_STATUS_PERMISSION_DENIED` of libubus. -/
def ubusStatusPermissionDenied : Int := 6

/-- `UBUS_STATUS_NOT_SUPPORTED` of libubus. -/
def ubusStatusNotSupported : Int := 8

/-- `UBUS_STATUS_UNKNOWN_ERROR` of libubus. -/
def ubusStatusUnknownError : Int := 9

/-- `enum jsonrpc_error_code`, without its zero. -/
inductive JsonrpcErrorCode where
  | parseError
  | invalidRequest
  | methodNotFound
  | invalidParams
  | internalError
  | inputFormatError
  | outputFormatError
  | other
  deriving DecidableEq, Repr

namespace JsonrpcErrorCode

def code : JsonrpcErrorCode → Int
  | parseError => -32700
  | invalidRequest => -32600
  | methodNotFound => -32601
  | invalidParams => -32602
  | internalError => -32603
  | inputFormatError => -32604
  | outputFormatError => -32605
  | other => -32050

def message : JsonrpcErrorCode → CString
  | parseError => .ofString "Parse error"
  | internalError => .ofString "Internal error"
  | invalidRequest => .ofString "Invalid Request"
  | invalidParams => .ofString "Invalid params"
  | methodNotFound => .ofString "Method not found"
  | inputFormatError => .ofString "Invalid Input Format"
  | outputFormatError => .ofString "Invalid Output Format"
  | other => .ofString "Other error"

end JsonrpcErrorCode

/-! ### Requests -/

structure JsonrpcBlobReq where
  id : Option Attr
  version : CString
  method : CString
  params : Blob

/-- The `id` attribute of a message, which the envelope parser sets before
anything else can fail. -/
def jsonrpcId (blob : List Attr) : Option Attr :=
  blob.find? fun a => a.1 = .ofString "id" && BlobmsgType.unspec.fits a.2

def jsonrpcBlobReqParse (blob : List Attr) : Except Int JsonrpcBlobReq :=
  let tb := blobmsgParse
    [(.ofString "jsonrpc", .string), (.ofString "id", .unspec),
      (.ofString "method", .string), (.ofString "params", .array)] blob
  match tb with
  | [jsonrpc, id, method, params] =>
      match jsonrpc with
      | none => .error (-1)
      | some jsonrpc =>
          match method with
          | none => .error (-2)
          | some method =>
              match params with
              | none => .error (-3)
              | some params =>
                  if jsonrpc.2.getString ≠ .ofString "2.0" then .error (-4)
                  else .ok
                    { id := id, version := jsonrpc.2.getString,
                      method := method.2.getString, params := params.2 }
  | _ => .error (-1)

/-- `struct ubusrpc_blob_call`: the parsed parameters of a `call`. -/
structure UbusrpcBlobCall where
  sid : CString
  object : CString
  method : CString
  paramsBuf : List Attr

structure UbusrpcBlobList where
  sid : CString
  pattern : CString

/-- `struct ubusrpc_blob_sub`. A `subscribe-list` carries no pattern. -/
structure UbusrpcBlobSub where
  sid : CString
  pattern : CString

/-- `ubusrpc_blob_call_parse_`. The argument value may be of any type; its
members are copied one by one, and a member named `_owsd_listen` is refused
(`WSD_USER_BLACKLIST_OLD`). There is no outcome when the loop over the members
is led out of the message. -/
def ubusrpcBlobCallParse (x : ScalarAttrs) (blob : Blob) : Option (Except Int UbusrpcBlobCall) :=
  match blobmsgParseArray [.string, .string, .string, .unspec] blob.members with
  | [some sid, some object, some method, some params] =>
      (params.2.forEachAttr x).map fun members =>
        if members.any fun cur => cur.1 = .ofString "_owsd_listen" then .error (-1)
        else .ok
          { sid := sid.2.getString, object := object.2.getString,
            method := method.2.getString, paramsBuf := members }
  | [_, _, _, none] => some (.error (-4))
  | [_, _, none, _] => some (.error (-3))
  | [_, none, _, _] => some (.error (-2))
  | _ => some (.error (-1))

/-- `ubusrpc_blob_list_parse_`. The envelope parser lets only arrays
through, so the branch for other parameters is never taken. The bytes of a
session id that is no string are read as text; that text never starts like the
id of a certificate session, which is all that is asked of it, so it stands as
empty. -/
def ubusrpcBlobListParse (blob : Blob) : Except Int UbusrpcBlobList :=
  match blobmsgParseArray [.unspec, .string] blob.members with
  | [some sid, some pattern] => .ok { sid := sid.2.getString, pattern := pattern.2.getString }
  | _ => .error (-2)

/-- `ubusrpc_blob_sub_parse_`, for `subscribe` and `unsubscribe`. -/
def ubusrpcBlobSubParse (blob : Blob) : Except Int UbusrpcBlobSub :=
  match blobmsgParseArray [.string, .string] blob.members with
  | [some sid, some pattern] => .ok { sid := sid.2.getString, pattern := pattern.2.getString }
  | [none, _] => .error (-1)
  | _ => .error (-2)

def ubusrpcBlobSubListParse (blob : Blob) : Except Int UbusrpcBlobSub :=
  match blobmsgParseArray [.string] blob.members with
  | [some sid] => .ok { sid := sid.2.getString, pattern := [] }
  | _ => .error 2

/-- A parsed request, with the handler the method table assigns to it. -/
inductive UbusrpcBlob where
  | call (args : UbusrpcBlobCall)
  | list (args : UbusrpcBlobList)
  | sub (args : UbusrpcBlobSub)
  | subList (args : UbusrpcBlobSub)
  | unsub (args : UbusrpcBlobSub)

def UbusrpcBlob.sid : UbusrpcBlob → CString
  | call args => args.sid
  | list args => args.sid
  | sub args => args.sid
  | subList args => args.sid
  | unsub args => args.sid

def parseParams {α : Type} (parsed : Except Int α) (mk : α → UbusrpcBlob) :
    Except JsonrpcErrorCode UbusrpcBlob :=
  match parsed with
  | .ok args => .ok (mk args)
  | .error _ => .error .invalidParams

/-- `ubusrpc_blob_parse`, with its table of supported methods. -/
def ubusrpcBlobParse (x : ScalarAttrs) (method : CString) (params : Blob) :
    Option (Except JsonrpcErrorCode UbusrpcBlob) :=
  if method = .ofString "call" then
    (ubusrpcBlobCallParse x params).map fun parsed => parseParams parsed .call
  else if method = .ofString "list" then some (parseParams (ubusrpcBlobListParse params) .list)
  else if method = .ofString "subscribe" then some (parseParams (ubusrpcBlobSubParse params) .sub)
  else if method = .ofString "subscribe-list" then
    some (parseParams (ubusrpcBlobSubListParse params) .subList)
  else if method = .ofString "unsubscribe" then
    some (parseParams (ubusrpcBlobSubParse params) .unsub)
  else some (.error .methodNotFound)

/-- The two parsers together: the request a message asks for. -/
def parseRequest (x : ScalarAttrs) (blob : List Attr) :
    Option (Except JsonrpcErrorCode UbusrpcBlob) :=
  match jsonrpcBlobReqParse blob with
  | .error _ => some (.error .invalidRequest)
  | .ok req => ubusrpcBlobParse x req.method req.params

/-! ### Responses -/

/-- The `id` member of a response: the request's attribute, or an attribute
without a value, which reads as `null`. -/
def respId (id : Option Attr) : Attr :=
  match id with
  | some id => id
  | none => (.ofString "id", .unspec)

def jsonrpcRespError (id : Option Attr) (errorCode : JsonrpcErrorCode)
    (errorData : Option Attr) : List Attr :=
  [(.ofString "jsonrpc", .string (.ofString "2.0")),
    respId id,
    (.ofString "error", .table
      ([(.ofString "code", .int32 (BitVec.ofInt 32 errorCode.code)),
        (.ofString "message", .string errorCode.message)] ++
        match errorData with
        | some data => if data.1 = .ofString "data" then [data] else []
        | none => []))]

/-- `jsonrpc__resp_ubus`: the status, and the returned data if there is any,
as an array when it is one and as a table otherwise. -/
def jsonrpcRespUbus (id : Option Attr) (ubusRc : Int) (retData : Option Blob) : List Attr :=
  [(.ofString "jsonrpc", .string (.ofString "2.0")),
    respId id,
    (.ofString "result", .array
      (([], .int32 (BitVec.ofInt 32 ubusRc)) ::
        match retData with
        | some data =>
            [([], if data.type = .array then .array data.members else .table data.members)]
        | none => []))]

/-! ### Small facts about the parsers -/

theorem jsonrpcId_name {blob : List Attr} {id : Attr} (h : jsonrpcId blob = some id) :
    id.1 = .ofString "id" := by
  have hp := List.find?_some h
  simp only [Bool.and_eq_true, decide_eq_true_eq] at hp
  exact hp.1

/-- The message is a call whose argument is a scalar, and the bytes of that
scalar lead the loop over its attributes out of the message. -/
def LeadsOut (x : ScalarAttrs) (blob : List Attr) : Prop :=
  ∃ req sid object method params, jsonrpcBlobReqParse blob = .ok req ∧
    req.method = .ofString "call" ∧
    blobmsgParseArray [.string, .string, .string, .unspec] req.params.members =
      [some sid, some object, some method, some params] ∧ params.2.forEachAttr x = none

theorem callParse_none_iff {x : ScalarAttrs} {blob : Blob} :
    ubusrpcBlobCallParse x blob = none ↔ ∃ sid object method params,
      blobmsgParseArray [.string, .string, .string, .unspec] blob.members =
        [some sid, some object, some method, some params] ∧ params.2.forEachAttr x = none := by
  constructor
  · intro h
    rw [ubusrpcBlobCallParse] at h
    split at h
    · next sid object method params hparse =>
      exact ⟨sid, object, method, params, hparse, Option.map_eq_none_iff.mp h⟩
    all_goals cases h
  · rintro ⟨sid, object, method, params, hparse, hnone⟩
    rw [ubusrpcBlobCallParse, hparse]
    simp only [hnone, Option.map_none]

theorem parseRequest_none_iff {x : ScalarAttrs} {blob : List Attr} :
    parseRequest x blob = none ↔ LeadsOut x blob := by
  unfold LeadsOut
  cases hreq : jsonrpcBlobReqParse blob with
  | error code => simp [parseRequest, hreq]
  | ok req =>
      have hparse : parseRequest x blob = none ↔
          req.method = .ofString "call" ∧ ubusrpcBlobCallParse x req.params = none := by
        simp only [parseRequest, hreq, ubusrpcBlobParse]
        by_cases hcall : req.method = .ofString "call"
        · simp [hcall]
        · simp only [hcall, if_false, false_and, iff_false]
          repeat' split
          all_goals simp
      rw [hparse, callParse_none_iff]
      simp

def lookupId (resp : List Attr) : Option Blob := resp.lookup (.ofString "id")

theorem lookupId_resp {id : Option Attr} (hid : ∀ a ∈ id, a.1 = .ofString "id")
    (rest : List Attr) :
    lookupId ((.ofString "jsonrpc", .string (.ofString "2.0")) :: respId id :: rest) =
      some (respId id).2 := by
  have hname : (respId id).1 = .ofString "id" := by
    cases id with
    | none => rfl
    | some a => exact hid a rfl
  have hne : (CString.ofString "id" == CString.ofString "jsonrpc") = false := by decide
  rw [lookupId, List.lookup_cons, hne]
  rw [List.lookup_cons, hname]
  simp

end Owsd.Rpc
