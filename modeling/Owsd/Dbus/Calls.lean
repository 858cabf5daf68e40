import Owsd.Dbus.ListProgress
import Owsd.Rpc.Documented

/-!
Calls over D-Bus (`rpc_call_dbus.h`, `util_dbus.c`).

The arguments of a call are converted one after the other into a message for
the service; the values of the reply are converted back, one after the
other, into the response. A value that cannot go to D-Bus ends the call, one
that cannot come back is passed over. So what a client sends comes back from
a service that returns it (`calls_echoed`).
-/

namespace Owsd.Dbus

open Rpc

/-! ### The call -/

/-- `DBUS_ERROR_SERVICE_UNKNOWN`. -/
def errorServiceUnknown : CString := .ofString "org.freedesktop.DBus.Error.ServiceUnknown"

/-- A message of `dbus_message_new_method_call`, with its arguments. -/
structure MethodCall where
  service : CString
  path : CString
  interface : CString
  method : CString
  args : List DBusValue

/-- What `dbus_connection_send_with_reply_and_block` ends with. -/
inductive LookupReply where
  | replied
  | error (name : CString)
  | nothing
  deriving DecidableEq

/-- What libdbus makes of the names, and the service of the `/lookup`. -/
structure Bus where
  validateBusName : CString → Bool
  /-- The reply to the method of the service. -/
  lookup : CString → CString → LookupReply
  /-- `dbus_message_new_method_call` makes a message for the service, the path,
  the interface and the method. -/
  newMethodCall : CString → CString → CString → CString → Bool

/-- How `handle_call_dbus` ends: with `-1`, with `1`, or with the message on
its way. -/
inductive CallOutcome where
  | failed
  | serviceUnknown
  | sent (msg : MethodCall)

def appendArgs (L : Library) : List Attr → MessageIter → Option MessageIter
  | [], argIter => some argIter
  | curArg :: rest, argIter =>
      let r := duconvMsgUbusToDbus L (some argIter) curArg none
      if r.1 = .invalid then none else appendArgs L rest (r.2.getD argIter)

def handleCallDbus (p : ObjectsPath) (L : Library) (bus : Bus) (call : UbusrpcBlobCall) :
    Option CallOutcome := do
  let dbusServiceName ← duconvNameUbusToDbusName p.text call.object
  if bus.validateBusName dbusServiceName then
    let dbusObjectPath ← duconvNameUbusToDbusPath p.text call.object
    if bus.lookup dbusServiceName call.method = .error errorServiceUnknown then
      return .serviceUnknown
    else if bus.newMethodCall dbusServiceName dbusObjectPath dbusServiceName call.method then
      match appendArgs L call.paramsBuf ⟨[], false⟩ with
      | none => return .failed
      | some argIter =>
          return .sent ⟨dbusServiceName, dbusObjectPath, dbusServiceName, call.method,
            argIter.values⟩
    else return .failed
  else return .failed

/-! ### The reply -/

/-- A reply. Which text comes with an error is for libdbus to say: the list of
types that `dbus_message_get_args` is given has no end. -/
structure DBusReply where
  errorName : Option CString
  errorText : Option CString
  signature : CString
  args : List DBusValue

/-- `DBUS_ERROR_INVALID_SIGNATURE`. -/
def errorInvalidSignature : CString := .ofString "org.freedesktop.DBus.Error.InvalidSignature"

/-- `check_reply_and_make_error`, with what it adds to the buffer for a reply
that is not good. -/
def checkReplyAndMakeError (reply : DBusReply) (expectedSignature : Option CString) :
    Except (List Attr) Unit :=
  match reply.errorName with
  | some name =>
      .error [(.ofString "data", .table ((.ofString "DBus", .string name) ::
        (reply.errorText.map fun s => (.ofString "text", Blob.string s)).toList))]
  | none =>
      if expectedSignature.any fun s => s ≠ reply.signature then
        .error [(.ofString "data", .table [(.ofString "DBus", .string errorInvalidSignature)])]
      else .ok ()

def readArgs (attrs : List Attr) (args : List DBusValue) : List Attr :=
  args.foldl (fun attrs v => (duconvMsgDbusToUbus (some attrs) v []).2.getD attrs) attrs

/-- `wsd_call_cb`: the response. The values are in an array that is named by
the signature of the reply. -/
def wsdCallCb (id : Option Attr) (reply : DBusReply) : List Attr :=
  match checkReplyAndMakeError reply none with
  | .error retbuf => jsonrpcRespError id .other retbuf.head?
  | .ok () =>
      jsonrpcRespUbus id 0 (some (.table [(reply.signature, .array (readArgs [] reply.args))]))

/-! ### Which arguments D-Bus takes -/

/-- The argument has a type that `_duconv_msg_ubus_to_dbus_basic` knows, or it
is an array of at least one element whose elements are all of one such
type. -/
def Convertible : Blob → Prop
  | .array elems => elems ≠ [] ∧ ∃ t ∈ arrayElemTypes, ∀ e ∈ elems, e.2.type = t
  | b => b.type ∈ arrayElemTypes

section

variable (L : Library) {args : List Attr} {arg : Attr}

theorem assignedType_eq_invalid {t : BlobmsgType} (ht : t ∉ arrayElemTypes) :
    assignedType t = .invalid := by
  cases t with
  | string | int32 | int16 | int8 => exact absurd (by decide) ht
  | unspec | array | table | int64 | double => rfl

theorem duconvMsgUbusToDbus_array_fst (argIter : MessageIter) (name : CString)
    (elems : List Attr) :
    (duconvMsgUbusToDbus L (some argIter) (name, .array elems) none).1 ≠ .invalid ↔
      Convertible (.array elems) := by
  cases elems with
  | nil =>
      refine ⟨fun h => absurd rfl h, fun h => absurd rfl h.1⟩
  | cons first rest =>
      rw [duconvMsgUbusToDbus]
      simp only [Option.map_none, Option.getD_none, if_true, List.head?_cons, Option.map_some,
        Option.some.injEq, duconvMsgUbusToDbusBasic_fst]
      by_cases hsame : (first :: rest).all (fun it => first.2.type = it.2.type) = true
      · have hall : ∀ e ∈ first :: rest, e.2.type = first.2.type := fun e he => by
          have he := List.all_eq_true.mp hsame e he
          exact (of_decide_eq_true he).symm
        rw [if_pos hsame]
        by_cases hfirst : first.2.type ∈ arrayElemTypes
        · rw [if_neg (assignedType_ne_invalid hfirst)]
          exact ⟨fun _ => ⟨by simp, first.2.type, hfirst, hall⟩, fun _ => by simp⟩
        · rw [if_pos (assignedType_eq_invalid hfirst)]
          refine ⟨fun h => absurd rfl h, ?_⟩
          rintro ⟨-, t, ht, hty⟩
          exact absurd (hty first List.mem_cons_self ▸ ht) hfirst
      · rw [if_neg hsame]
        refine ⟨fun h => absurd rfl h, ?_⟩
        rintro ⟨-, t, -, hty⟩
        refine absurd (List.all_eq_true.mpr fun e he => ?_) hsame
        simp [hty e he, hty first List.mem_cons_self]

theorem duconvMsgUbusToDbus_fst (argIter : MessageIter) :
    (duconvMsgUbusToDbus L (some argIter) arg none).1 ≠ .invalid ↔ Convertible arg.2 := by
  obtain ⟨name, b⟩ := arg
  have hbasic : ∀ b : Blob, assignedType b.type ≠ .invalid ↔ b.type ∈ arrayElemTypes := fun b =>
    ⟨fun h => by_contra fun hb => h (assignedType_eq_invalid hb), assignedType_ne_invalid⟩
  cases b with
  | array elems => exact duconvMsgUbusToDbus_array_fst L argIter name elems
  | table members =>
      refine ⟨fun h => absurd rfl h, fun h => ?_⟩
      simp [Convertible, Blob.type, arrayElemTypes] at h
  | unspec | string | int64 | int32 | int16 | int8 | double =>
      rw [duconvMsgUbusToDbus, duconvMsgUbusToDbusBasic_fst, hbasic]
      rfl

/-- The loop goes through exactly when every argument can be converted. -/
theorem appendArgs_isSome (argIter : MessageIter) :
    (appendArgs L args argIter).isSome ↔ ∀ arg ∈ args, Convertible arg.2 := by
  induction args generalizing argIter with
  | nil => simp [appendArgs]
  | cons arg rest ih =>
      rw [appendArgs, List.forall_mem_cons, ← duconvMsgUbusToDbus_fst L argIter]
      split
      · next hinvalid => simp [hinvalid]
      · next hvalid =>
        rw [ih]
        exact ⟨fun h => ⟨hvalid, h⟩, And.right⟩

/-- Arguments that are no arrays arrive in order, each converted for itself. -/
theorem appendArgs_eq (hargs : ∀ arg ∈ args, arg.2.type ∈ arrayElemTypes)
    (values : List DBusValue) :
    appendArgs L args ⟨values, false⟩ = some ⟨values ++ args.flatMap (converted L), false⟩ := by
  induction args generalizing values with
  | nil => simp [appendArgs]
  | cons arg rest ih =>
      have htype := hargs arg List.mem_cons_self
      have happend : duconvMsgUbusToDbus L (some ⟨values, false⟩) arg none =
          (assignedType arg.2.type, some ⟨values ++ converted L arg, false⟩) := by
        obtain ⟨name, b⟩ := arg
        cases b with
        | int32 | int16 | int8 | string => rfl
        | unspec | array | table | int64 | double => simp [Blob.type, arrayElemTypes] at htype
      rw [appendArgs, happend, if_neg (assignedType_ne_invalid htype), Option.getD_some,
        ih fun arg' harg' => hargs arg' (List.mem_cons_of_mem _ harg'), List.flatMap_cons,
        List.append_assoc]

/-! ### What comes back -/

theorem argType_converted (htype : arg.2.type ∈ arrayElemTypes) {v : DBusValue}
    (hv : converted L arg = [v]) :
    v.argType = assignedType arg.2.type := by
  obtain ⟨name, b⟩ := arg
  cases b with
  | int32 | int16 | int8 | string =>
      cases hv
      rfl
  | unspec | array | table | int64 | double => simp [Blob.type, arrayElemTypes] at htype

/-- The values that were converted are read back in order. -/
theorem readArgs_converted (hargs : ∀ arg ∈ args, arg.2.type ∈ arrayElemTypes)
    (hcanon : ∀ arg ∈ args, Canonical arg.2) (attrs : List Attr) :
    readArgs attrs (args.flatMap (converted L)) = attrs ++ args.map fun arg => ([], arg.2) := by
  induction args generalizing attrs with
  | nil => simp [readArgs]
  | cons arg rest ih =>
      have htype := hargs arg List.mem_cons_self
      obtain ⟨v, hv⟩ := exists_converted L htype
      have hback : (duconvMsgDbusToUbus (some attrs) v []).2 = some (attrs ++ [([], arg.2)]) := by
        rw [duconvMsgDbusToUbus, duconvDbusToUbus, argType_converted L htype hv,
          if_pos (assignedType_isBasic htype)]
        exact converted_back L htype (hcanon arg List.mem_cons_self) hv attrs
      have hrest := ih (fun a ha => hargs a (List.mem_cons_of_mem _ ha))
        (fun a ha => hcanon a (List.mem_cons_of_mem _ ha)) (attrs ++ [([], arg.2)])
      rw [List.flatMap_cons, hv, readArgs, List.foldl_append, List.foldl_cons, List.foldl_nil,
        hback, Option.getD_some]
      rw [readArgs] at hrest
      rw [hrest, List.map_cons, List.append_assoc, List.singleton_append]

end

/-! ### Arguments in JSON -/

inductive Kind where
  | number | truth | text

def Kind.type : Kind → BlobmsgType
  | number => .int32
  | truth => .int8
  | text => .string

/-- The kind of a value. Numbers are those of 32 bits. -/
def kind : Json → Option Kind
  | .int v => if -2147483648 ≤ v ∧ v ≤ 2147483647 then some .number else none
  | .bool _ => some .truth
  | .string _ => some .text
  | _ => none

/-- A call goes to D-Bus with such an argument: a value of one of the kinds,
or an array of at least one element with all its elements of one kind. -/
def Sendable : Json → Prop
  | .array elems => elems ≠ [] ∧ ∃ k, ∀ e ∈ elems, kind e = some k
  | j => ∃ k, kind j = some k

theorem kind_eq_some {j : Json} {k : Kind} : kind j = some k ↔ j.toBlob.type = k.type := by
  cases j with
  | int v =>
      rw [kind, Json.toBlob]
      split
      · cases k <;> simp [Blob.type, Kind.type]
      · cases k <;> simp [Blob.type, Kind.type]
  | null | bool | double | string | array | object =>
      cases k <;> simp [kind, Json.toBlob, Blob.type, Kind.type]

theorem exists_kind {j : Json} : j.toBlob.type ∈ arrayElemTypes ↔ ∃ k, kind j = some k := by
  cases j with
  | int v =>
      rw [kind, Json.toBlob]
      split
      · simp [Blob.type, arrayElemTypes]
      · simp [Blob.type, arrayElemTypes]
  | null | bool | double | string | array | object =>
      simp [kind, Json.toBlob, Blob.type, arrayElemTypes]

theorem canonical_toBlob (j : Json) : Canonical j.toBlob := by
  cases j with
  | bool b => cases b <;> simp [Json.toBlob, Canonical]
  | int v =>
      rw [Json.toBlob]
      split <;> trivial
  | null | double | string | array | object => simp [Json.toBlob, Canonical]

theorem convertible_toBlob (j : Json) : Convertible j.toBlob ↔ Sendable j := by
  cases j with
  | array elems =>
      rw [Json.toBlob, Convertible, Sendable, elemsToBlob_eq]
      simp only [ne_eq, List.map_eq_nil_iff, List.forall_mem_map]
      refine and_congr_right fun hne => ⟨?_, ?_⟩
      · rintro ⟨t, ht, htype⟩
        obtain ⟨first, rest, rfl⟩ := List.exists_cons_of_ne_nil hne
        have hfirst := htype first List.mem_cons_self
        obtain ⟨k, hk⟩ := exists_kind.mp (hfirst.symm ▸ ht)
        refine ⟨k, fun e he => kind_eq_some.mpr ?_⟩
        rw [htype e he, ← hfirst]
        exact kind_eq_some.mp hk
      · rintro ⟨k, hkind⟩
        have hk : k.type ∈ arrayElemTypes := by
          cases k <;> decide
        exact ⟨k.type, hk, fun e he => kind_eq_some.mp (hkind e he)⟩
  | int v =>
      have hscalar : Convertible (Json.int v).toBlob ↔
          (Json.int v).toBlob.type ∈ arrayElemTypes := by
        rw [Json.toBlob]
        split <;> exact Iff.rfl
      exact hscalar.trans exists_kind
  | null | bool | double | string | object => exact exists_kind

/-- An argument that is no array goes to D-Bus when it is of one of the
kinds. -/
theorem Sendable.type_mem {j : Json} (h : Sendable j) (harray : j.isArray = false) :
    j.toBlob.type ∈ arrayElemTypes := by
  cases j with
  | array elems => cases harray
  | null | bool | int | double | string | object => exact exists_kind.mpr h

/-! ### Where a call goes -/

section

variable {p : ObjectsPath} {bus : Bus} {call : UbusrpcBlobCall} {object method : CString}

/-- A path that starts with a slash needs no other between. -/
theorem duconvNameUbusToDbusPath_of_slash {objectsPath n : CString}
    (hs : n.head? = some slash) :
    duconvNameUbusToDbusPath objectsPath n = some (replaced dot slash (objectsPath ++ n)) := by
  obtain ⟨b₀, b₁, hb₀, hb₁, hstr₁, hlen₁⟩ := exists_objectsPath_written objectsPath n
  obtain ⟨b₂, hb₂, hstr₂, -⟩ := Buffer.strcat_str (s := n) hstr₁
    (by rw [hlen₁]; omega)
  simp only [duconvNameUbusToDbusPath, hb₀, hb₁, hs, hb₂, hstr₂, replaceAll_eq,
    Option.bind_eq_bind, Option.bind_some, ne_eq, not_true_eq_false, if_false]

theorem exists_address (p : ObjectsPath) (object : CString) :
    ∃ service path, duconvNameUbusToDbusName p.text object = some service ∧
      duconvNameUbusToDbusPath p.text object = some path := by
  have hpath : ∃ tail, duconvNameUbusToDbusPath p.text object =
      some (replaced dot slash (p.text ++ tail)) := by
    by_cases hs : object.head? = some slash
    · exact ⟨object, duconvNameUbusToDbusPath_of_slash hs⟩
    · exact ⟨slash :: object, duconvNameUbusToDbusPath_eq hs⟩
  obtain ⟨tail, hpath⟩ := hpath
  obtain ⟨rest, hp⟩ := p.exists_text_eq
  refine ⟨replaced slash dot (replaced dot slash (rest ++ tail)), _, ?_, hpath⟩
  rw [duconvNameUbusToDbusName, hpath, hp]
  exact replaceAll_eq slash dot _

/-- D-Bus takes a call of the method: the name is a valid one, its service is
known, and a message can be made. -/
def Addressable (p : ObjectsPath) (bus : Bus) (object method : CString) : Prop :=
  ∃ service path, callAddress p object = some (service, path, service) ∧
    bus.validateBusName service = true ∧
    bus.lookup service method ≠ .error errorServiceUnknown ∧
    bus.newMethodCall service path service method = true

/-- A call is sent when D-Bus takes it and every argument can be converted. -/
theorem handleCallDbus_spec (p : ObjectsPath) (L : Library) (bus : Bus) (call : UbusrpcBlobCall) :
    ∃ outcome, handleCallDbus p L bus call = some outcome ∧
      ((∃ msg, outcome = .sent msg) ↔ Addressable p bus call.object call.method ∧
        ∀ arg ∈ call.paramsBuf, Convertible arg.2) ∧
      ∀ msg, outcome = .sent msg →
        callAddress p call.object = some (msg.service, msg.path, msg.interface) ∧
          msg.method = call.method ∧
          ∃ argIter, appendArgs L call.paramsBuf ⟨[], false⟩ = some argIter ∧
            argIter.values = msg.args := by
  obtain ⟨service, path, hservice, hpath⟩ := exists_address p call.object
  have haddress : callAddress p call.object = some (service, path, service) := by
    rw [callAddress, hservice, hpath]
    rfl
  have haddressable : Addressable p bus call.object call.method ↔
      bus.validateBusName service = true ∧
        bus.lookup service call.method ≠ .error errorServiceUnknown ∧
        bus.newMethodCall service path service call.method = true := by
    constructor
    · rintro ⟨service', path', haddress', h⟩
      rw [haddress] at haddress'
      cases haddress'
      exact h
    · exact fun h => ⟨service, path, haddress, h⟩
  rw [handleCallDbus, hservice, hpath, haddressable, ← appendArgs_isSome L ⟨[], false⟩]
  simp only [Option.bind_eq_bind, Option.bind_some, pure]
  by_cases hvalid : bus.validateBusName service = true
  · by_cases hlookup : bus.lookup service call.method = .error errorServiceUnknown
    · exact ⟨.serviceUnknown, by simp [hvalid, hlookup], by simp [hlookup], by simp⟩
    · by_cases hnew : bus.newMethodCall service path service call.method = true
      · cases happend : appendArgs L call.paramsBuf ⟨[], false⟩ with
        | none => exact ⟨.failed, by simp [hvalid, hlookup, hnew], by simp, by simp⟩
        | some argIter =>
            refine ⟨_, by simp only [hvalid, hlookup, hnew, if_true, if_false]; rfl, ?_, ?_⟩
            · simp [hvalid, hlookup, hnew]
            · rintro msg hmsg
              cases hmsg
              exact ⟨haddress, rfl, argIter, rfl, rfl⟩
      · exact ⟨.failed, by simp [hvalid, hlookup, hnew], by simp [hnew], by simp⟩
  · exact ⟨.failed, by simp [hvalid], by simp [hvalid], by simp⟩

end

/-! ### Among the requests of a client -/

/-- The request of a client that `ubusrpc_handle_call` counts: a call that was
sent waits. -/
def CallOutcome.request : CallOutcome → DbusClient.DbusRequest
  | .sent _ => .call true
  | _ => .call false

namespace DbusClient

variable {b : Build} {c c' : DbusClient}

theorem awaits_call (hd : Distinct c) (hquota : c.rpcQLen.toNat ≤ c.reqMax) {sent : Bool}
    (h : c.step b (.message (.call sent)) = .ok c') :
    c'.awaits c.messages = some .call ↔ sent = true := by
  have hnew : c.rpcCallQ.find? (fun r => r.num = c.messages) = none := by
    rw [List.find?_eq_none]
    intro r hr
    have hlt := hd.below r hr
    simpa using hlt.ne
  rw [step, wsuOnMsgFromDbusClient, if_neg (by omega)] at h
  obtain ⟨c₁, hhandled, hc'⟩ := bind_ok h
  obtain ⟨⟨handled, c₂⟩, hr, hc₁⟩ := bind_ok hhandled
  cases hc'
  cases hc₁
  cases sent with
  | true =>
      obtain ⟨c₃, hadd, hr⟩ := bind_ok hr
      cases hr
      rw [listAddTail_ok hadd]
      simp [awaits, dispatched, hnew]
  | false =>
      cases hr
      cases hubus : b.haveUbus with
      | true => simp [awaits, dispatched, hnew]
      | false => simp [awaits, dispatched, answer, hnew]

end DbusClient

/-! ### The result -/

/-- After any run of a client, a call it sends within its quota waits for
D-Bus exactly when D-Bus takes the name and every argument can be sent; and
when none of these is an array, a reply with the same values is answered with
the values the client sent, in their order. -/
theorem calls_echoed (p : ObjectsPath) (L : Library) (bus : Bus) {b : Build} {c : DbusClient}
    {totalReqMax numActiveSes : ℕ} {es : List DbusClient.DbusEvent} {o : JsonObject}
    {params : List Json} {sid object method : CString} {args : List (CString × Json)}
    (hrun : run (DbusClient.step b) (.connected totalReqMax numActiveSes) es = .ok c)
    (hquota : c.rpcQLen.toNat ≤ c.reqMax) (henv : Envelope o (.ofString "call") params)
    (hcall : CallParams params sid object method (.object args))
    (hlisten : ∀ m ∈ args, m.1 ≠ .ofString "_owsd_listen") :
    ∃ call outcome, (∀ x, parseRequest x o.blob = some (.ok (.call call))) ∧
      handleCallDbus p L bus call = some outcome ∧
      (∀ c', c.step b (.message outcome.request) = .ok c' →
        (c'.awaits c.messages = some .call ↔
          Addressable p bus object method ∧ ∀ m ∈ args, Sendable m.2)) ∧
      ∀ msg, outcome = .sent msg → (∀ m ∈ args, m.2.isArray = false) →
        callAddress p object = some (msg.service, msg.path, msg.interface) ∧
          msg.method = method ∧ ∀ id signature,
            wsdCallCb id ⟨none, none, signature, msg.args⟩ =
              jsonrpcRespUbus id 0 (some (.table
                [(signature, .array (elemsToBlob (args.map Prod.snd)))])) := by
  have hdoc : Documented (.ofString "call") params
      (.call ⟨sid, object, method, membersToBlob args⟩) := .call hcall hlisten
  have hreq : ∀ x, parseRequest x o.blob =
      some (.ok (.call ⟨sid, object, method, membersToBlob args⟩)) := by
    intro x
    rw [henv.parseRequest, hdoc.parse]
  obtain ⟨outcome, houtcome, hsent, hmsg⟩ :=
    handleCallDbus_spec p L bus ⟨sid, object, method, membersToBlob args⟩
  have hargs : (∀ arg ∈ membersToBlob args, Convertible arg.2) ↔ ∀ m ∈ args, Sendable m.2 := by
    rw [membersToBlob_eq, List.forall_mem_map]
    exact forall₂_congr fun m _ => convertible_toBlob m.2
  refine ⟨_, outcome, hreq, houtcome, fun c' hstep => ?_, fun msg heq harray => ?_⟩
  · rw [← hargs, ← hsent]
    cases outcome with
    | sent msg =>
        rw [DbusClient.awaits_call (DbusClient.distinct_run hrun) hquota hstep]
        exact ⟨fun _ => ⟨msg, rfl⟩, fun _ => rfl⟩
    | failed | serviceUnknown =>
        rw [DbusClient.awaits_call (DbusClient.distinct_run hrun) hquota hstep]
        simp
  · obtain ⟨haddress, hmethod, argIter, happend, hvalues⟩ := hmsg msg heq
    refine ⟨haddress, hmethod, fun id signature => ?_⟩
    have hsendable := hargs.mp (hsent.mp ⟨msg, heq⟩).2
    have htypes : ∀ arg ∈ membersToBlob args, arg.2.type ∈ arrayElemTypes := by
      rw [membersToBlob_eq, List.forall_mem_map]
      exact fun m hm => (hsendable m hm).type_mem (harray m hm)
    have hcanon : ∀ arg ∈ membersToBlob args, Canonical arg.2 := by
      rw [membersToBlob_eq, List.forall_mem_map]
      exact fun m _ => canonical_toBlob m.2
    rw [appendArgs_eq L htypes] at happend
    cases happend
    have hread : readArgs [] msg.args = elemsToBlob (args.map Prod.snd) := by
      rw [← hvalues, List.nil_append, readArgs_converted L htypes hcanon, membersToBlob_eq,
        elemsToBlob_eq, List.nil_append, List.map_map, List.map_map]
      rfl
    rw [← hread]
    rfl

def openBus : Bus where
  validateBusName _ := true
  lookup _ _ := .replied
  newMethodCall _ _ _ _ := true

def dimParams : List Json :=
  [.string (.ofString "s"), .string (.ofString "lamp"), .string (.ofString "dim"),
    .object [(.ofString "level", .int 5), (.ofString "slow", .bool true)]]

def dimCall : JsonObject where
  members := [(.ofString "jsonrpc", .string (.ofString "2.0")), (.ofString "id", .int 7),
    (.ofString "method", .string (.ofString "call")), (.ofString "params", .array dimParams)]
  nodup := by decide

theorem calls_echoed_lamp :
    let p : ObjectsPath := ⟨[.ofString "wsd"], by decide, by decide⟩
    ∃ call msg, (∀ x, parseRequest x dimCall.blob = some (.ok (.call call))) ∧
      handleCallDbus p unnamedLibrary openBus call = some (.sent msg) ∧
      callAddress p (.ofString "lamp") = some (msg.service, msg.path, msg.interface) ∧
      wsdCallCb none ⟨none, none, .ofString "ib", msg.args⟩ =
        jsonrpcRespUbus none 0 (some (.table
          [(.ofString "ib", .array [([], .int32 5), ([], .int8 1)])])) := by
  intro p
  obtain ⟨call, outcome, hreq, houtcome, -, hmsg⟩ := @calls_echoed p unnamedLibrary openBus
    ⟨false, .ofString "/wsd", strictLibrary⟩ (.connected 64 1) 64 1 [] dimCall dimParams
    (.ofString "s") (.ofString "lamp") (.ofString "dim")
    [(.ofString "level", .int 5), (.ofString "slow", .bool true)] rfl (by decide) ⟨rfl, rfl, rfl⟩
    ⟨_, _, [], ⟨[], rfl, by simp⟩, ⟨[], rfl, by simp⟩, ⟨[], rfl, by simp⟩⟩ (by decide)
  cases hreq fun _ => none
  cases houtcome
  obtain ⟨haddress, -, hecho⟩ := hmsg _ rfl (by simp [Json.isArray])
  exact ⟨_, _, hreq, rfl, haddress, hecho none (.ofString "ib")⟩

end Owsd.Dbus
