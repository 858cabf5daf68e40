import Owsd.Acl.AccessList
import Owsd.Rpc.Message

/-!
Access checks (`access_check.c`).

Every call and every event passes through `wsubus_access_check_`. It decides
on the spot, by the client's TLS certificate or by the list of users that may
log in on the interface, and then defers the callback to the next turn of the
event loop; or it asks the `session` object of rpcd and leaves the callback
to the answer. The caller hands in an untyped context, which is a call
context or an event notification; it is a tagged sum here, so that taking one
for the other is visible.
-/

namespace Owsd.Server

open Rpc

abbrev Wsi := ℕ

/-- Undefined behaviour or a failed assertion in a handler. -/
inductive Fault where
  /-- A call context was read as an event notification. -/
  | callReadAsNotif
  /-- A name was used after the message it is part of was freed. -/
  | freedName
  /-- An access check completed for a call context that was destroyed. -/
  | destroyedCall
  /-- A notification was built from a subscription that was destroyed. -/
  | destroyedSub
  /-- A queue of access checks was walked over a destroyed link. -/
  | destroyedCheck
  /-- An absent `id` was copied. -/
  | absentId
  /-- The assertion of `blobmsg_type_to_str` failed. -/
  | typeOutOfRange
  /-- The bytes of a number or a text were taken for attributes, which led out
  of the message. -/
  | scalarAttrs
  deriving DecidableEq, Repr

structure TlsPeer where
  isSsl : Bool
  /-- `lws_tls_peer_cert_info` found a certificate. -/
  certInfo : Bool
  verified : Bool

/-- `struct vh_context`, as far as access checks read it. -/
structure VhContext where
  users : List CString
  name : CString

structure Config where
  uxaclObjects : SearchTree.AvlTree CString
  tls : Wsi → TlsPeer
  vhost : Wsi → VhContext
  /-- The text json-c prints for a value. -/
  jsonText : Json → CString

/-- `struct wsubus_ev_notif`: an event on its way to the subscription
`info`. -/
structure EvNotif where
  type : CString
  msg : List Attr
  info : ℕ

/-- The `void *ctx` of an access check. -/
inductive CheckCtx where
  | call (ctx : ℕ)
  | event (t : EvNotif)

/-- What the libraries answer while a check is being started. -/
structure CheckAnswers where
  /-- `wsubus_access_check_new` returned memory. -/
  alloc : Bool
  /-- `uloop_timeout_set` succeeded. -/
  timerSet : Bool
  /-- `ubus_lookup_id` found the object `session`. -/
  sessionLookup : Bool
  /-- `ubus_invoke_async` of its method `access` succeeded. -/
  accessInvoke : Bool
  /-- The text that stands at a value which is no string. -/
  rawText : Blob → CString

inductive CheckOutcome where
  | deferred (result : Bool)
  | session
  | failed
  deriving DecidableEq, Repr

structure Subject where
  sid : CString
  object : CString
  method : CString

/-- The result of starting a check: what for, its outcome, the argument buffer
as the check leaves it, the names put to `ubusx_acl__allow_object` and the
message sent to rpcd. -/
structure CheckStart where
  subject : Subject
  outcome : CheckOutcome
  args : Option (List Attr)
  aclAsked : List CString
  rpcdAsked : Option (List Attr)

inductive WsuExtResult where
  | next | allow | deny
  deriving DecidableEq, Repr

/-- `wsu_sid_extended`: what follows `X-` in a session id that starts with
it. -/
def wsuSidExtended (sid : CString) : Option CString :=
  if CString.ofString "X-" <+: sid then some (sid.drop 2) else none

/-- `wsu_ext_check_interface`, not implemented in the source either. -/
def wsuExtCheckInterface : WsuExtResult := .next

/-- `wsu_ext_restrict_interface`: on an interface with a list of users, the
first `username` of a `session login`, read as text whatever it is, has to be
on it. -/
def wsuExtRestrictInterface (rawText : Blob → CString) (vc : VhContext)
    (object method : CString) (args : Option (List Attr)) : WsuExtResult :=
  if object = .ofString "session" ∧ method = .ofString "login" then
    match (args.getD []).find? fun cur => cur.1 = .ofString "username" with
    | some cur =>
        if vc.users.isEmpty then .next
        else if vc.users.any fun s => s = cur.2.text rawText then .allow else .deny
    | none => .next
  else .next

/-- `wsu_ext_check_tls`, with the name it puts to the access list. -/
def wsuExtCheckTls (cfg : Config) (w : Wsi) (object : CString) :
    WsuExtResult × List CString :=
  let tls := cfg.tls w
  if !tls.isSsl then (.next, [])
  else if !tls.certInfo then (.deny, [])
  else if !tls.verified then (.deny, [])
  else if !Acl.ubusxAclAllowObject cfg.uxaclObjects object then (.deny, [object])
  else (.allow, [object])

/-- `json_object_get_string`: the text of a string, the printed form of any
other value. -/
def jsonGetString (cfg : Config) : Json → CString
  | .string s => s
  | v => cfg.jsonText v

/-- The name the certificate check is made for, and whether it was taken out
of a message. For an event whose name contains `ubus.object.` it is the
`path` in the event's message. The source's test is on the name alone, and
reads whatever the context is as an event notification. -/
def tlsObject (cfg : Config) (ctx : Option CheckCtx) (object : CString) :
    Except Fault (CString × Bool) :=
  match ctx with
  | none => .ok (object, false)
  | some ctx =>
      if strstr object (.ofString "ubus.object.") then
        match ctx with
        | .call _ => .error .callReadAsNotif
        | .event evCtx =>
            match (Blob.table evCtx.msg).toJson.getEx (.ofString "path") with
            | none => .ok (object, false)
            | some .null => .ok (object, false)
            | some path => .ok (jsonGetString cfg path, true)
      else .ok (object, false)

def deferCallback (a : CheckAnswers) (result : Bool) : CheckOutcome :=
  if a.timerSet then .deferred result else .failed

/-- `wsubus_access_check_via_session`. The argument buffer gets the session
id before rpcd is asked, and keeps it. -/
def wsubusAccessCheckViaSession (a : CheckAnswers) (sid : CString) (scope : Option CString)
    (object method : CString) (args : Option (List Attr)) : CheckStart :=
  -- does not allow ubus_rpc_session arg in params, as we will add it
  if (args.getD []).any fun cur => cur.1 = .ofString "ubus_rpc_session" then
    { subject := ⟨sid, object, method⟩, outcome := .failed, args := args, aclAsked := [],
      rpcdAsked := none }
  else if !a.sessionLookup then
    { subject := ⟨sid, object, method⟩, outcome := .failed, args := args, aclAsked := [],
      rpcdAsked := none }
  else
    let args' := args.map fun args => args ++ [(.ofString "ubus_rpc_session", .string sid)]
    let blobForAccess : List Attr :=
      [(.ofString "ubus_rpc_session", .string sid), (.ofString "object", .string object),
        (.ofString "function", .string method)] ++
      (match scope with
        | some scope => [(.ofString "scope", .string scope)]
        | none => []) ++
      match args' with
        | some args => [(.ofString "params", .table args)]
        | none => []
    { subject := ⟨sid, object, method⟩, outcome := if a.accessInvoke then .session else .failed,
      args := args', aclAsked := [], rpcdAsked := some blobForAccess }

/-- What follows when no certificate decided: the list of users, then rpcd. -/
def wsubusAccessCheckNext (cfg : Config) (w : Wsi) (a : CheckAnswers) (sid : CString)
    (scope : Option CString) (object method : CString) (args : Option (List Attr)) :
    CheckStart :=
  -- restrict calls only to some network interfaces
  match wsuExtRestrictInterface a.rawText (cfg.vhost w) object method args with
  | .allow =>
      { subject := ⟨sid, object, method⟩, outcome := deferCallback a true, args := args,
        aclAsked := [], rpcdAsked := none }
  | .deny =>
      { subject := ⟨sid, object, method⟩, outcome := deferCallback a false, args := args,
        aclAsked := [], rpcdAsked := none }
  -- no checker has made a decision, ask rpcd about it
  | .next => wsubusAccessCheckViaSession a sid scope object method args

/-- What a checker for an extended session id found: its verdict, the name
it was made for, whether that name was taken out of a message, and the name
put to the access list. -/
structure ExtCheck where
  res : WsuExtResult
  object : CString
  fromMsg : Bool
  aclAsked : List CString

/-- The choice of a checker by the session id. -/
def extCheck (cfg : Config) (w : Wsi) (sid object : CString) (ctx : Option CheckCtx) :
    Except Fault ExtCheck :=
  match wsuSidExtended sid with
  | none => .ok ⟨.next, object, false, []⟩
  | some esid =>
      if esid = .ofString "mgmt-interface" then .ok ⟨wsuExtCheckInterface, object, false, []⟩
      else if esid = .ofString "tls-certificate" then
        match tlsObject cfg ctx object with
        | .error f => .error f
        | .ok (name, fromMsg) =>
            let (res, asked) := wsuExtCheckTls cfg w name
            .ok ⟨res, name, fromMsg, asked⟩
      else .ok ⟨.next, object, false, []⟩

/-- `wsubus_access_check_`, the entry point of all checks. A name taken out
of a message is freed with it once the certificate check is over, before the
later checks read it. -/
def wsubusAccessCheck (cfg : Config) (w : Wsi) (a : CheckAnswers) (sid : CString)
    (scope : Option CString) (object method : CString) (args : Option (List Attr))
    (ctx : Option CheckCtx) : Except Fault CheckStart :=
  match extCheck cfg w sid object ctx with
  | .error f => .error f
  | .ok x =>
      match x.res with
      | .allow =>
          .ok { subject := ⟨sid, object, method⟩, outcome := deferCallback a true, args := args,
                aclAsked := x.aclAsked, rpcdAsked := none }
      | .deny =>
          .ok { subject := ⟨sid, object, method⟩, outcome := deferCallback a false, args := args,
                aclAsked := x.aclAsked, rpcdAsked := none }
      | .next =>
          if x.fromMsg then .error .freedName
          else .ok { wsubusAccessCheckNext cfg w a sid scope x.object method args with
            aclAsked := x.aclAsked }

/-- `wsubus_access_check__call`, in the default scope. -/
def wsubusAccessCheckCall (cfg : Config) (w : Wsi) (a : CheckAnswers)
    (sid object method : CString) (args : List Attr) (ctx : CheckCtx) :
    Except Fault CheckStart :=
  wsubusAccessCheck cfg w a sid none object method (some args) (some ctx)

/-- `wsubus_access_check__event`: permission to `read` the event in the scope
`owsd`. Its only caller passes no data buffer. -/
def wsubusAccessCheckEvent (cfg : Config) (w : Wsi) (a : CheckAnswers)
    (sid event : CString) (data : Option (List Attr)) (ctx : CheckCtx) :
    Except Fault CheckStart :=
  wsubusAccessCheck cfg w a sid (some (.ofString "owsd")) event (.ofString "read") data (some ctx)

/-- `wsubus_access_check__on_ret` on one data part of rpcd's answer: the
first boolean `access` in it, or no. -/
def partAccess (msg : List Attr) : Bool :=
  match msg.find? fun pos => pos.1 = .ofString "access" && pos.2.type == .int8 with
  | some (_, .int8 v) => v != 0
  | _ => false

end Owsd.Server
