import Owsd.Server.Effects

/-!
The name a certificate session is checked for.

With the session id `X-tls-certificate` the access list decides. For a call
it should be asked about the object of the call, for the news of an object
being added or removed about the object in the news. The code tells the two
apart by the text of the name alone, so a call of an object whose name
contains `ubus.object.` has its context read as a notification. For an event
the `path` in the message counts also when it is not a string.
-/

namespace Owsd.Server

open Rpc

def tlsSid : CString := .ofString "X-tls-certificate"

def objectEvent : CString := .ofString "ubus.object."

/-- The peer came with a certificate that was verified, so that the access
list is asked. -/
def peerVerified (cfg : Config) (w : Wsi) : Bool :=
  (cfg.tls w).isSsl && (cfg.tls w).certInfo && (cfg.tls w).verified

/-- The member `path` of an event's message. -/
def eventPath (t : EvNotif) : Option Json :=
  (Blob.table t.msg).toJson.getEx (.ofString "path")

/-- What the news of an object are about: the string under `path`, or the
event itself. -/
def eventSubject (t : EvNotif) : CString :=
  match eventPath t with
  | some (.string s) => s
  | _ => t.type

/-- The access list is asked about nothing but the object of the call, which
is also the object the call is going to look up, and the context of the call
is not read as a notification. -/
def CallDecided (cfg : Config) (w : Wsi) (a : CheckAnswers) (num : ℕ)
    (object method : CString) (params : List Attr) : Prop :=
  wsubusAccessCheckCall cfg w a tlsSid object method params (.call num) ≠
    .error .callReadAsNotif ∧
  (∀ r, wsubusAccessCheckCall cfg w a tlsSid object method params (.call num) = .ok r →
    ∀ name ∈ r.aclAsked, name = object) ∧
  ∀ args k, wsubusCallDoCheckThenDoCall cfg w a num ⟨tlsSid, object, method, params⟩ =
    .ok (some (args, k)) → args.object = object

/-- For the news of an object the access list is asked about nothing but
their subject. -/
def EventDecided (cfg : Config) (w : Wsi) (a : CheckAnswers) (t : EvNotif) : Prop :=
  strstr t.type objectEvent = true →
    wsubusAccessCheckEvent cfg w a tlsSid t.type none (.event t) ≠ .error .callReadAsNotif ∧
    ∀ r, wsubusAccessCheckEvent cfg w a tlsSid t.type none (.event t) = .ok r →
      ∀ name ∈ r.aclAsked, name = eventSubject t

/-- The access list is not asked, or the `path` is absent, null or a string,
or happens to be printed as the name of the event. -/
def PathReadable (cfg : Config) (w : Wsi) (t : EvNotif) : Prop :=
  peerVerified cfg w = true → strstr t.type objectEvent = true →
    ∀ path, eventPath t = some path →
      path = .null ∨ path.isString = true ∨ cfg.jsonText path = t.type

/-! ### The certificate check -/

theorem wsuExtCheckTls_asked (cfg : Config) (w : Wsi) (name : CString) :
    (wsuExtCheckTls cfg w name).2 = if peerVerified cfg w then [name] else [] := by
  simp only [wsuExtCheckTls, peerVerified]
  by_cases hssl : (cfg.tls w).isSsl = true
  · by_cases hcert : (cfg.tls w).certInfo = true
    · by_cases hver : (cfg.tls w).verified = true
      · by_cases hallow : Acl.ubusxAclAllowObject cfg.uxaclObjects name = true
        · simp [hssl, hcert, hver, hallow]
        · simp [hssl, hcert, hver, hallow]
      · simp [hssl, hcert, hver]
    · simp [hssl, hcert]
  · simp [hssl]

theorem wsuExtCheckTls_decides {cfg : Config} {w : Wsi} (h : peerVerified cfg w = true)
    (name : CString) : (wsuExtCheckTls cfg w name).1 ≠ .next := by
  simp only [peerVerified, Bool.and_eq_true] at h
  simp only [wsuExtCheckTls, h.1.1, h.1.2, h.2]
  cases Acl.ubusxAclAllowObject cfg.uxaclObjects name <;> simp

theorem extCheck_tlsSid (cfg : Config) (w : Wsi) (object : CString) (ctx : Option CheckCtx) :
    extCheck cfg w tlsSid object ctx =
      match tlsObject cfg ctx object with
      | .error f => .error f
      | .ok (name, fromMsg) =>
          .ok ⟨(wsuExtCheckTls cfg w name).1, name, fromMsg, (wsuExtCheckTls cfg w name).2⟩ := by
  have hext : wsuSidExtended tlsSid = some (.ofString "tls-certificate") := by decide
  have hne : CString.ofString "tls-certificate" ≠ .ofString "mgmt-interface" := by decide
  cases hobj : tlsObject cfg ctx object with
  | error f => simp [extCheck, hext, hne, hobj]
  | ok p => simp [extCheck, hext, hne, hobj]

section

variable {cfg : Config} {w : Wsi} {a : CheckAnswers} {scope : Option CString}
  {object method name : CString} {args : Option (List Attr)} {ctx : Option CheckCtx}

/-- The names put to the access list by a check that was started. -/
theorem accessCheck_asked {r : CheckStart}
    (h : wsubusAccessCheck cfg w a tlsSid scope object method args ctx = .ok r) :
    ∃ name fromMsg, tlsObject cfg ctx object = .ok (name, fromMsg) ∧
      r.aclAsked = if peerVerified cfg w then [name] else [] := by
  simp only [wsubusAccessCheck, extCheck_tlsSid] at h
  cases hobj : tlsObject cfg ctx object with
  | error f => simp [hobj] at h
  | ok p =>
      refine ⟨p.1, p.2, rfl, ?_⟩
      rw [← wsuExtCheckTls_asked]
      simp only [hobj] at h
      split at h
      · cases h
        rfl
      · cases h
        rfl
      · split at h
        · cases h
        · cases h
          rfl

/-- With a verified peer a check is started once its name is found. -/
theorem accessCheck_started {fromMsg : Bool} (hpeer : peerVerified cfg w = true)
    (hobj : tlsObject cfg ctx object = .ok (name, fromMsg)) :
    ∃ r, wsubusAccessCheck cfg w a tlsSid scope object method args ctx = .ok r := by
  have hdec := wsuExtCheckTls_decides hpeer name
  simp only [wsubusAccessCheck, extCheck_tlsSid, hobj]
  split
  · exact ⟨_, rfl⟩
  · exact ⟨_, rfl⟩
  · next hnext => exact absurd hnext hdec

/-- The context is misread only while the name is looked for. -/
theorem accessCheck_misread
    (h : wsubusAccessCheck cfg w a tlsSid scope object method args ctx =
      .error .callReadAsNotif) :
    tlsObject cfg ctx object = .error .callReadAsNotif := by
  simp only [wsubusAccessCheck, extCheck_tlsSid] at h
  cases hobj : tlsObject cfg ctx object with
  | error f =>
      simp only [hobj] at h
      cases h
      rfl
  | ok p =>
      simp only [hobj] at h
      split at h
      · cases h
      · cases h
      · split at h
        · cases h
        · cases h

end

/-! ### Calls and events -/

theorem callDecided_iff (cfg : Config) (w : Wsi) (a : CheckAnswers) (num : ℕ)
    (object method : CString) (params : List Attr) :
    CallDecided cfg w a num object method params ↔ strstr object objectEvent = false := by
  constructor
  · rintro ⟨hread, -⟩
    rw [← Bool.not_eq_true]
    intro hstr
    apply hread
    have hobj : tlsObject cfg (some (.call num)) object = .error .callReadAsNotif := by
      rw [objectEvent] at hstr
      simp [tlsObject, hstr]
    simp [wsubusAccessCheckCall, wsubusAccessCheck, extCheck_tlsSid, hobj]
  · intro hstr
    have hobj : tlsObject cfg (some (.call num)) object = .ok (object, false) := by
      rw [objectEvent] at hstr
      simp [tlsObject, hstr]
    refine ⟨fun hread => ?_, fun r hr name hname => ?_, fun args k hk => ?_⟩
    · have := accessCheck_misread hread
      rw [hobj] at this
      cases this
    · obtain ⟨name', fromMsg, hobj', hasked⟩ := accessCheck_asked hr
      rw [hobj] at hobj'
      cases hobj'
      rw [hasked] at hname
      split at hname
      · exact List.mem_singleton.mp hname
      · cases hname
    · exact (doCheckThenDoCall_some hk).2.1

def eventName (cfg : Config) (t : EvNotif) : CString :=
  match eventPath t with
  | none => t.type
  | some .null => t.type
  | some path => jsonGetString cfg path

theorem tlsObject_event (cfg : Config) {t : EvNotif} (h : strstr t.type objectEvent = true) :
    ∃ fromMsg, tlsObject cfg (some (.event t)) t.type = .ok (eventName cfg t, fromMsg) := by
  rw [objectEvent] at h
  simp only [tlsObject, h, if_true, eventName, eventPath]
  cases (Blob.table t.msg).toJson.getEx (.ofString "path") with
  | none => exact ⟨_, rfl⟩
  | some path =>
      cases path with
      | null => exact ⟨_, rfl⟩
      | _ => exact ⟨_, rfl⟩

theorem eventName_eq_iff (cfg : Config) (t : EvNotif) :
    eventName cfg t = eventSubject t ↔ ∀ path, eventPath t = some path →
      path = .null ∨ path.isString = true ∨ cfg.jsonText path = t.type := by
  simp only [eventName, eventSubject]
  cases eventPath t with
  | none => simp
  | some path =>
      cases path with
      | null => simp
      | string s => simp [jsonGetString, Json.isString]
      | _ => simp [jsonGetString, Json.isString]

theorem eventDecided_iff (cfg : Config) (w : Wsi) (a : CheckAnswers) (t : EvNotif) :
    EventDecided cfg w a t ↔ PathReadable cfg w t := by
  constructor
  · intro hd hpeer hstr
    obtain ⟨fromMsg, hobj⟩ := tlsObject_event cfg hstr
    obtain ⟨r, hr⟩ : ∃ r, wsubusAccessCheckEvent cfg w a tlsSid t.type none (.event t) = .ok r :=
      accessCheck_started hpeer hobj
    obtain ⟨name, fromMsg', hobj', hasked⟩ := accessCheck_asked hr
    rw [hobj] at hobj'
    cases hobj'
    rw [← eventName_eq_iff]
    exact (hd hstr).2 r hr _ (by simp [hasked, hpeer])
  · intro hp hstr
    obtain ⟨fromMsg, hobj⟩ := tlsObject_event cfg hstr
    refine ⟨fun hread => ?_, fun r hr name hname => ?_⟩
    · have hmis := accessCheck_misread hread
      rw [hobj] at hmis
      cases hmis
    · obtain ⟨name', fromMsg', hobj', hasked⟩ := accessCheck_asked hr
      rw [hobj] at hobj'
      cases hobj'
      rw [hasked] at hname
      split at hname
      · next hpeer =>
        rw [List.mem_singleton.mp hname]
        exact (eventName_eq_iff cfg t).mpr (hp hpeer hstr)
      · cases hname

/-- The access list decides about the thing being accessed exactly for the
calls of objects without `ubus.object.` in their name, and for the news whose
`path` is readable. -/
theorem acl_subject_iff (cfg : Config) (w : Wsi) (a : CheckAnswers) :
    (∀ num object method params, CallDecided cfg w a num object method params ↔
      strstr object objectEvent = false) ∧
    ∀ t, EventDecided cfg w a t ↔ PathReadable cfg w t :=
  ⟨callDecided_iff cfg w a, eventDecided_iff cfg w a⟩

/-- A client calls the object `ubus.object.x`. -/
theorem call_read_as_notif :
    wsubusAccessCheckCall plainConfig 0 willing tlsSid (.ofString "ubus.object.x")
      (.ofString "info") [] (.call 1) = .error .callReadAsNotif ∧
    ¬ CallDecided plainConfig 0 willing 1 (.ofString "ubus.object.x") (.ofString "info") [] :=
  ⟨rfl, fun h => h.1 rfl⟩

end Owsd.Server
