import Owsd.Server.Answers
import Owsd.Server.Invocations

/-!
Who allows a call.

Three authorities can let a call through: the certificate of the client with
the access list, the list of users of the interface, and rpcd. The check of a
call is started when the message comes in and decided later, in another
callback; in between it waits in a queue. `Decides` ties what waits there to
the way the check was started, and over a run every invocation is traced back
to the authority that allowed it (`mediated_run`).
-/

namespace Owsd.Server

open Rpc

/-- The first argument named `username`. -/
def username (args : List Attr) : Option Attr :=
  args.find? fun cur => cur.1 = .ofString "username"

/-- What allowed the call `A` of the message `m`, whose check was started with
the result `r` and the answers `a` of the libraries. -/
inductive Authority (cfg : Config) (log : List Action) (w : Wsi) (m : ℕ) (a : CheckAnswers)
    (A : UbusrpcBlobCall) (r : CheckStart) : Prop
  /-- A session by certificate, whose peer was verified, calls an object that
  the access list allows. -/
  | certificate : A.sid = tlsSid → peerVerified cfg w = true →
      Acl.ubusxAclAllowObject cfg.uxaclObjects A.object = true → Authority cfg log w m a A r
  /-- The user of a login, read as text, is on the list of the interface. -/
  | users (cur : Attr) : A.object = .ofString "session" → A.method = .ofString "login" →
      username A.paramsBuf = some cur → cur.2.text a.rawText ∈ (cfg.vhost w).users →
      Authority cfg log w m a A r
  /-- The list of users does not decide, and rpcd was asked about the call
  and its arguments; its answer ended with a permission and the status OK. -/
  | rpcd (later past : List Action) (data : List Attr) :
      wsuExtRestrictInterface a.rawText (cfg.vhost w) A.object A.method (some A.paramsBuf) =
        .next →
      r.rpcdAsked = some (rpcdQuestion A.sid A.object A.method
        (A.paramsBuf ++ [sessionTag A.sid])) →
      log = later ++ .checkDone m (some ubusStatusOk) true :: past →
      (past.filter (informs m)).head? = some (.checkData m data) → GrantsAccess data →
      Authority cfg log w m a A r

/-! ### What starts a check -/

section

variable {cfg : Config} {w : Wsi} {m : ℕ} {A : UbusrpcBlobCall} {a : CheckAnswers} {r : CheckStart}

theorem wsuExtCheckTls_allow {name : CString} (h : (wsuExtCheckTls cfg w name).1 = .allow) :
    peerVerified cfg w = true ∧ Acl.ubusxAclAllowObject cfg.uxaclObjects name = true := by
  simp only [wsuExtCheckTls] at h
  split at h
  · cases h
  · next hssl =>
    split at h
    · cases h
    · next hinfo =>
      split at h
      · cases h
      · next hver =>
        split at h
        · cases h
        · next hacl => simp_all [peerVerified]

/-- Only the certificate check allows anything by the session id. -/
theorem extCheck_allow {x : ExtCheck} (h : extCheck cfg w A.sid A.object (some (.call m)) = .ok x)
    (hallow : x.res = .allow) :
    A.sid = tlsSid ∧ peerVerified cfg w = true ∧
      Acl.ubusxAclAllowObject cfg.uxaclObjects A.object = true := by
  obtain ⟨hobject, -⟩ := extCheck_call h
  by_cases hsid : A.sid = tlsSid
  · rw [hsid, extCheck_tlsSid] at h
    split at h
    · cases h
    · cases h
      obtain ⟨hpeer, hacl⟩ := wsuExtCheckTls_allow hallow
      exact ⟨hsid, hpeer, hobject ▸ hacl⟩
  · exfalso
    simp only [extCheck] at h
    split at h
    · cases h
      cases hallow
    · next esid hesid =>
      split at h
      · cases h
        cases hallow
      · split at h
        · next htls => exact hsid (eq_tlsSid_iff.mp (htls ▸ hesid))
        · cases h
          cases hallow

theorem restrict_allow {rawText : Blob → CString} {vc : VhContext} {object method : CString}
    {args : List Attr}
    (h : wsuExtRestrictInterface rawText vc object method (some args) = .allow) :
    object = .ofString "session" ∧ method = .ofString "login" ∧
      ∃ cur, username args = some cur ∧ cur.2.text rawText ∈ vc.users := by
  simp only [wsuExtRestrictInterface, Option.getD_some] at h
  split at h
  · next hlogin =>
    split at h
    · next cur hcur =>
      split at h
      · cases h
      · split at h
        · next hany =>
          obtain ⟨user, huser, heq⟩ := List.any_eq_true.mp hany
          exact ⟨hlogin.1, hlogin.2, cur, hcur, (decide_eq_true_iff.mp heq) ▸ huser⟩
        · cases h
    · cases h
  · cases h

theorem deferCallback_eq {result b : Bool} (h : deferCallback a result = .deferred b) :
    result = b := by
  rw [deferCallback] at h
  split at h
  · cases h
    rfl
  · cases h

theorem deferCallback_ne_session {result : Bool} : deferCallback a result ≠ .session := by
  rw [deferCallback]
  split
  · exact fun h => by cases h
  · exact fun h => by cases h

theorem viaSession_ne_deferred {sid object method : CString} {scope : Option CString}
    {args : Option (List Attr)} {b : Bool} :
    (wsubusAccessCheckViaSession a sid scope object method args).outcome ≠ .deferred b := by
  unfold wsubusAccessCheckViaSession
  split
  · exact fun h => by cases h
  · split
    · exact fun h => by cases h
    · simp only
      split
      · exact fun h => by cases h
      · exact fun h => by cases h

/-- A check that is going to allow the call without asking rpcd. -/
theorem accessCheckCall_deferred {log : List Action}
    (h : wsubusAccessCheckCall cfg w a A.sid A.object A.method A.paramsBuf (.call m) = .ok r)
    (hout : r.outcome = .deferred true) : Authority cfg log w m a A r := by
  simp only [wsubusAccessCheckCall, wsubusAccessCheck] at h
  split at h
  · cases h
  · next x hx =>
    obtain ⟨hobject, hfrom⟩ := extCheck_call hx
    split at h
    · next hallow =>
      obtain ⟨hsid, hpeer, hacl⟩ := extCheck_allow hx hallow
      exact .certificate hsid hpeer hacl
    · cases h
      cases deferCallback_eq hout
    · rw [hfrom, if_neg Bool.false_ne_true, hobject] at h
      cases h
      simp only [wsubusAccessCheckNext] at hout
      split at hout
      · next hrestrict =>
        obtain ⟨hobj, hmethod, cur, hcur, huser⟩ := restrict_allow hrestrict
        exact .users cur hobj hmethod hcur huser
      · cases deferCallback_eq hout
      · exact absurd hout viaSession_ne_deferred

theorem accessCheckCall_session
    (h : wsubusAccessCheckCall cfg w a A.sid A.object A.method A.paramsBuf (.call m) = .ok r)
    (hout : r.outcome = .session) :
    wsuExtRestrictInterface a.rawText (cfg.vhost w) A.object A.method (some A.paramsBuf) =
        .next ∧
      r.rpcdAsked = some (rpcdQuestion A.sid A.object A.method
        (A.paramsBuf ++ [sessionTag A.sid])) := by
  simp only [wsubusAccessCheckCall, wsubusAccessCheck] at h
  split at h
  · cases h
  · next x hx =>
    obtain ⟨hobject, hfrom⟩ := extCheck_call hx
    split at h
    · cases h
      exact absurd hout deferCallback_ne_session
    · cases h
      exact absurd hout deferCallback_ne_session
    · rw [hfrom, if_neg Bool.false_ne_true, hobject] at h
      cases h
      simp only [wsubusAccessCheckNext] at hout ⊢
      split at hout
      · exact absurd hout deferCallback_ne_session
      · exact absurd hout deferCallback_ne_session
      · next hnext =>
        refine ⟨hnext, ?_⟩
        have hstarted : (wsubusAccessCheckViaSession a A.sid none A.object A.method
            (some A.paramsBuf)).outcome ≠ .failed := by
          rw [hout]
          exact fun h => by cases h
        exact (viaSession_started hstarted).2.2

end

/-! ### Pending checks -/

/-- The check waits in the queue of the client on `w`. -/
def State.Pending (s : State) (w : Wsi) (k : AccessCheck) : Prop :=
  ∃ c, s.clients w = some c ∧ k ∈ c.accessCheckQ

/-- The check is decided the way its start says: by rpcd, or with a result
that is known since. -/
def AccessCheck.Follows (k : AccessCheck) (r : CheckStart) : Prop :=
  k.session = true ∧ r.outcome = .session ∨ k.session = false ∧ r.outcome = .deferred k.result

/-- The checks of calls that are pending go back to the messages that started
them. -/
def State.Decides (cfg : Config) (es : List Event) (s : State) : Prop :=
  ∀ w k m, s.Pending w k → k.ctx = .call m →
    ∃ a A r, CheckedCall cfg es m w a A r ∧ k.Follows r

section

variable {cfg : Config} {s t : State} {e : Event} {w w' : Wsi} {m : ℕ} {c c' : ClientSession}
  {k : AccessCheck}

theorem State.Pending.update (h : t.Pending w' k)
    (hclients : t.clients = Function.update s.clients w (some c')) :
    s.Pending w' k ∨ w' = w ∧ k ∈ c'.accessCheckQ := by
  obtain ⟨d, hd, hk⟩ := h
  rw [hclients] at hd
  by_cases hw : w' = w
  · subst hw
    obtain rfl : c' = d := by simpa using hd
    exact .inr ⟨rfl, hk⟩
  · rw [Function.update_of_ne hw] at hd
    exact .inl ⟨d, hd, hk⟩

theorem State.Pending.of_subset (h : t.Pending w' k) (hc : s.clients w = some c)
    (hclients : t.clients = Function.update s.clients w (some c'))
    (hchecks : ∀ k ∈ c'.accessCheckQ, k ∈ c.accessCheckQ) : s.Pending w' k := by
  rcases h.update hclients with h | ⟨rfl, hk⟩
  · exact h
  · exact ⟨c, hc, hchecks k hk⟩

/-- The check is one that was pending, with the result it had unless rpcd
decides. -/
def Carried (s : State) (w : Wsi) (k : AccessCheck) : Prop :=
  ∃ k', s.Pending w k' ∧ k'.ctx = k.ctx ∧ k'.session = k.session ∧
    (k.session = false → k'.result = k.result)

theorem State.Pending.carried (h : s.Pending w k) : Carried s w k :=
  ⟨k, h, rfl, rfl, fun _ => rfl⟩

/-- Writing a result changes no check of a call but one that rpcd decides. -/
theorem carried_updateCheck {n : ℕ} {b : Bool} {k₀ : AccessCheck} (hn : c.Numbered n)
    (hc : s.clients w = some c) (hk₀ : k₀ ∈ c.accessCheckQ)
    (hwritten : ∀ m, k₀.ctx = .call m → k₀.session = true)
    (hk : k ∈ (c.updateCheck k₀.num b).accessCheckQ) (hctx : k.ctx = .call m) :
    Carried s w k := by
  obtain ⟨k', hk', rfl⟩ := ClientSession.mem_updateCheck.mp hk
  split at hctx
  · next hnum =>
    rw [if_pos hnum]
    obtain rfl := hn.distinct k' hk' k₀ hk₀ hnum
    refine ⟨k', ⟨c, hc, hk'⟩, rfl, rfl, fun hfalse => ?_⟩
    have htrue := hwritten m hctx
    simp [htrue] at hfalse
  · next hnum =>
    rw [if_neg hnum]
    exact State.Pending.carried ⟨c, hc, hk'⟩

/-- The event is a message with a call, and the check is the one that it
started. -/
def StartsCheck (cfg : Config) (m : ℕ) (e : Event) (w : Wsi) (k : AccessCheck) : Prop :=
  ∃ blob now a A r, e = .message w blob now a ∧
    parseRequest a.scalarAttrs blob = some (.ok (.call A)) ∧
    wsubusAccessCheckCall cfg w a.check A.sid A.object A.method A.paramsBuf (.call m) = .ok r ∧
    k.ctx = .call m ∧ k.Follows r

theorem doCheckThenDoCall_follows {a : CheckAnswers} {A args' : UbusrpcBlobCall} {q : Subject}
    (h : wsubusCallDoCheckThenDoCall cfg w a m A = .ok (some (args', k, q))) :
    ∃ r, wsubusAccessCheckCall cfg w a A.sid A.object A.method A.paramsBuf (.call m) = .ok r ∧
      k.Follows r := by
  simp only [wsubusCallDoCheckThenDoCall] at h
  split at h
  · cases h
  · split at h
    · cases h
    · next r hr =>
      split at h
      · next hout =>
        cases h
        exact ⟨r, hr, .inr ⟨rfl, hout⟩⟩
      · next hout =>
        cases h
        exact ⟨r, hr, .inl ⟨rfl, hout⟩⟩
      · cases h

theorem callMessage_pending {blob : List Attr} {now : Timespec} {a : MessageAnswers}
    {A : UbusrpcBlobCall} (hc : s.clients w = some c)
    (hreq : parseRequest a.scalarAttrs blob = some (.ok (.call A)))
    (h : wsuOnMsgFromClient cfg s w c blob now a = .ok t) (hk : t.Pending w' k) :
    s.Pending w' k ∨ StartsCheck cfg s.steps (.message w blob now a) w' k := by
  simp only [wsuOnMsgFromClient, hreq, handleRequest, handleCallUbus] at h
  split at h
  · cases h
    exact .inl hk
  · split at h
    · cases h
    · next hhandle =>
      cases h
      split at hhandle
      · cases hhandle
      · cases hhandle
        exact .inl (hk.of_subset hc rfl fun _ hk => hk)
      · next callArgs check q hcheck =>
        cases hhandle
        rcases hk.update rfl with hk | ⟨rfl, hk⟩
        · exact .inl hk
        · rcases List.mem_append.mp hk with hold | hnew
          · exact .inl ⟨c, hc, hold⟩
          · cases List.mem_singleton.mp hnew
            obtain ⟨r, hr, hfollows⟩ := doCheckThenDoCall_follows hcheck
            obtain ⟨-, -, -, -, hctx, -⟩ := doCheckThenDoCall_some hcheck
            exact .inr ⟨blob, now, a, A, r, rfl, hreq, hr, hctx, hfollows⟩

theorem message_pending {blob : List Attr} {now : Timespec} {a : MessageAnswers}
    (hc : s.clients w = some c) (h : wsuOnMsgFromClient cfg s w c blob now a = .ok t)
    (hk : t.Pending w' k) :
    s.Pending w' k ∨ StartsCheck cfg s.steps (.message w blob now a) w' k := by
  have heff := onMsg_effect hc h
  cases heff with
  | unheard _ => exact .inl hk
  | answered hs _ =>
      exact .inl (hk.of_subset hc rfl fun k hk => by simpa [hs.accessCheckQ] using hk)
  | subscribed _ _ hs =>
      exact .inl (hk.of_subset hc rfl fun k hk => by simpa [hs.accessCheckQ] using hk)
  | unsubscribed _ _ _ hs _ =>
      refine .inl (hk.of_subset hc rfl fun k hk => ?_)
      simpa [ClientSession.unlinkSubs, hs.accessCheckQ] using hk
  | callFailed hreq _ => exact callMessage_pending hc hreq h hk
  | callStarted hreq => exact callMessage_pending hc hreq h hk

/-- Checks of calls are started by messages, and are not rewritten. -/
theorem handle_pending (hn : s.Numbered) (h : handle cfg s e = .ok t) (hk : t.Pending w' k)
    (hctx : k.ctx = .call m) :
    Carried s w' k ∨ StartsCheck cfg s.steps e w' k := by
  have hunlink : ∀ {w : Wsi} {c c' : ClientSession} {n : ℕ}, s.clients w = some c →
      t.clients = Function.update s.clients w (some c') →
      c'.accessCheckQ = (c.unlinkCheck n).accessCheckQ → Carried s w' k := by
    intro w c c' n hc hclients hchecks
    refine (hk.of_subset hc hclients fun k hk => ?_).carried
    rw [hchecks] at hk
    exact (ClientSession.mem_unlinkCheck.mp hk).1
  have heff := handle_effect h
  cases heff with
  | idle => exact .inl hk.carried
  | opened _ =>
      rcases hk.update rfl with hk | ⟨-, hk⟩
      · exact .inl hk.carried
      · cases hk
  | message hc _ =>
      rcases withClient_ok h with rfl | ⟨c, hc, h⟩
      · exact .inl hk.carried
      · exact (message_pending hc h hk).imp_left State.Pending.carried
  | callData hc hk₀ hsession _ =>
      left
      rcases hk.update rfl with hsame | ⟨rfl, hmem⟩
      · exact hsame.carried
      · exact carried_updateCheck (hn _ _ hc) hc hk₀ (fun _ _ => hsession) hmem hctx
  | eventData hc hk₀ hevent =>
      left
      rcases hk.update rfl with hsame | ⟨rfl, hmem⟩
      · exact hsame.carried
      · refine carried_updateCheck (hn _ _ hc) hc hk₀ (fun _ hcall => ?_) hmem hctx
        rw [hevent] at hcall
        cases hcall
  | callInvoked hc => exact .inl (hunlink hc rfl rfl)
  | callRefused hc => exact .inl (hunlink hc rfl rfl)
  | callLost _ hc => exact .inl (hunlink hc rfl rfl)
  | eventDelivered hc => exact .inl (hunlink hc rfl rfl)
  | eventDropped hc => exact .inl (hunlink hc rfl rfl)
  | retdata hc => exact .inl (hk.of_subset hc rfl fun _ hk => hk).carried
  | invokeCompleted hc => exact .inl (hk.of_subset hc rfl fun _ hk => hk).carried
  | eventStarted _ hc =>
      rcases hk.update rfl with hsame | ⟨rfl, hmem⟩
      · exact .inl hsame.carried
      · rcases List.mem_append.mp hmem with hold | hnew
        · exact .inl (State.Pending.carried ⟨_, hc, hold⟩)
        · rw [List.mem_singleton.mp hnew] at hctx
          cases hctx
  | eventFailed => exact .inl hk.carried
  | swept hc => exact .inl (hk.of_subset hc rfl fun _ hk => hk).carried
  | @closed w _ _ hc hd =>
      obtain rfl := wsuPeerDeinit_ok hd
      obtain ⟨d, hd, hk⟩ := hk
      by_cases hw : w' = w
      · subst hw
        simp at hd
      · exact .inl (State.Pending.carried ⟨d, by simpa [hw] using hd, hk⟩)

/-- Only the completion of a check that allows it invokes a call. -/
theorem handle_invoke (h : handle cfg s e = .ok t) {sid object method : CString}
    {params : List Attr} (hmem : .invoke m sid object method params ∈ t.log)
    (hold : .invoke m sid object method params ∉ s.log) :
    ∃ w k status, s.Pending w k ∧ k.ctx = .call m ∧ k.result = true ∧
      (∀ st ∈ status, k.session = true ∧ st = ubusStatusOk) ∧
      (status = none → k.session = false) ∧ .checkDone m status true ∈ t.log := by
  have hquiet : invocations t.log ≠ invocations s.log := by
    intro heq
    rw [← invoke_mem_invocations] at hmem hold
    exact hold (heq ▸ hmem)
  have heff := handle_effect h
  cases heff with
  | @callInvoked w c k ctx status _ _ hc hk hctx _ hresult hst hnone =>
      simp only [State.log_setClient, State.log_emit, List.cons_append, List.nil_append,
        List.mem_cons, hold, or_false, Action.invoke.injEq, reduceCtorEq] at hmem
      obtain ⟨rfl, -⟩ := hmem
      exact ⟨w, k, status, ⟨c, hc, hk⟩, hctx, hresult, hst, hnone, by simp⟩
  | @callLost w c k ctx status _ attempt hc hk hctx _ hresult hst hnone hattempt =>
      simp only [denyCall, State.log_setClient, State.log_emit, List.cons_append, List.nil_append,
        List.append_assoc, List.mem_append, List.mem_cons, hold, or_false, reduceCtorEq,
        false_or] at hmem
      rcases hattempt with rfl | ⟨params', rfl⟩
      · cases hmem
      · cases List.mem_singleton.mp hmem
        refine ⟨w, k, status, ⟨c, hc, hk⟩, hctx, hresult, hst, hnone, ?_⟩
        simp [denyCall]
  | message hc hm => exact absurd (invocations_message hm) hquiet
  | swept hc =>
      refine absurd (invocations_append_of_destroys fun a ha => ?_) hquiet
      obtain ⟨n, rfl⟩ := mem_sweptActions ha
      exact ⟨n, .inr (.inl rfl)⟩
  | closed hc hd =>
      obtain rfl := wsuPeerDeinit_ok hd
      refine absurd (invocations_append_of_destroys fun a ha => ?_) hquiet
      rcases mem_deinitActions (List.mem_reverse.mp ha) with ⟨n, rfl⟩ | ⟨n, rfl⟩ | ⟨n, rfl, -⟩
      · exact ⟨n, .inl rfl⟩
      · exact ⟨n, .inr (.inl rfl)⟩
      · exact ⟨n, .inr (.inr rfl)⟩
  | idle => exact absurd rfl hquiet
  | opened _ => exact absurd rfl hquiet
  | callData => exact absurd rfl hquiet
  | eventData => exact absurd rfl hquiet
  | callRefused => exact absurd rfl hquiet
  | eventDelivered => exact absurd rfl hquiet
  | eventDropped => exact absurd rfl hquiet
  | retdata => exact absurd rfl hquiet
  | invokeCompleted => exact absurd rfl hquiet
  | eventStarted => exact absurd rfl hquiet
  | eventFailed => exact absurd rfl hquiet

/-! ### Runs -/

theorem CheckedCall.concat {es : List Event} {a : MessageAnswers} {A : UbusrpcBlobCall}
    {r : CheckStart} (h : CheckedCall cfg es m w a A r) (e : Event) :
    CheckedCall cfg (es ++ [e]) m w a A r := by
  obtain ⟨blob, now, he, hreq, hr⟩ := h
  obtain ⟨hlt, -⟩ := List.getElem?_eq_some_iff.mp he
  exact ⟨blob, now, by rw [List.getElem?_append_left hlt, he], hreq, hr⟩

theorem CheckedCall.unique {es : List Event} {a a' : MessageAnswers} {A A' : UbusrpcBlobCall}
    {r r' : CheckStart} (h : CheckedCall cfg es m w a A r)
    (h' : CheckedCall cfg es m w' a' A' r') : w = w' ∧ a = a' ∧ A = A' ∧ r = r' := by
  obtain ⟨blob, now, he, hreq, hr⟩ := h
  obtain ⟨blob', now', he', hreq', hr'⟩ := h'
  rw [he] at he'
  cases he'
  obtain rfl : A = A' := by simpa [hreq] using hreq'
  obtain rfl : r = r' := by simpa [hr] using hr'
  exact ⟨rfl, rfl, rfl, rfl⟩

theorem decides_step {es : List Event} {s' : State} (hn : s.Numbered)
    (hsteps : s.steps = es.length) (hi : s.Decides cfg es) (h : step cfg s e = .ok s') :
    s'.Decides cfg (es ++ [e]) := by
  obtain ⟨t, hhandle, rfl⟩ := step_ok h
  intro w k m hk hctx
  rcases handle_pending hn hhandle hk hctx with ⟨k', hk', hctx', hsession, hresult⟩ | hstarts
  · obtain ⟨a, A, r, hchecked, hfollows⟩ := hi w k' m hk' (hctx'.trans hctx)
    refine ⟨a, A, r, hchecked.concat e, ?_⟩
    rcases hfollows with ⟨htrue, hout⟩ | ⟨hfalse, hout⟩
    · exact .inl ⟨hsession ▸ htrue, hout⟩
    · have hfalse' : k.session = false := hsession ▸ hfalse
      exact .inr ⟨hfalse', hresult hfalse' ▸ hout⟩
  · obtain ⟨blob, now, a, A, r, rfl, hreq, hr, hctx', hfollows⟩ := hstarts
    obtain rfl : m = s.steps := by
      rw [hctx] at hctx'
      exact CheckCtx.call.inj hctx'
    refine ⟨a, A, r, ⟨blob, now, ?_, hreq, hr⟩, hfollows⟩
    rw [hsteps, List.getElem?_concat_length]

def State.Allowed (cfg : Config) (es : List Event) (s : State) : Prop :=
  ∀ m sid object method params, .invoke m sid object method params ∈ s.log →
    ∃ w a A r status, CheckedCall cfg es m w a A r ∧ .checkDone m status true ∈ s.log ∧
      (status = none ∧ r.outcome = .deferred true ∨
        status = some ubusStatusOk ∧ r.outcome = .session)

theorem allowed_step {es : List Event} {s' : State} (hd : s.Decides cfg es)
    (hi : s.Allowed cfg es) (h : step cfg s e = .ok s') : s'.Allowed cfg (es ++ [e]) := by
  obtain ⟨t, hhandle, rfl⟩ := step_ok h
  have hlog : s.log ⊆ t.log := (log_effect (handle_effect hhandle)).subset
  intro m sid object method params hmem
  by_cases hold : .invoke m sid object method params ∈ s.log
  · obtain ⟨w, a, A, r, status, hchecked, hdone, hstatus⟩ := hi m sid object method params hold
    exact ⟨w, a, A, r, status, hchecked.concat e, hlog hdone, hstatus⟩
  · obtain ⟨w, k, status, hk, hctx, hresult, hst, hnone, hdone⟩ :=
      handle_invoke hhandle hmem hold
    obtain ⟨a, A, r, hchecked, hfollows⟩ := hd w k m hk hctx
    refine ⟨w, a, A, r, status, hchecked.concat e, hdone, ?_⟩
    cases status with
    | none =>
        have hsession := hnone rfl
        rcases hfollows with ⟨htrue, -⟩ | ⟨-, hout⟩
        · simp [hsession] at htrue
        · exact .inl ⟨rfl, hresult ▸ hout⟩
    | some st =>
        obtain ⟨hsession, rfl⟩ := hst st rfl
        rcases hfollows with ⟨-, hout⟩ | ⟨hfalse, -⟩
        · exact .inr ⟨rfl, hout⟩
        · simp [hsession] at hfalse

theorem allowed_run {n : ℕ} {es : List Event} (hrun : run (step cfg) (init n) es = .ok s) :
    s.Allowed cfg es := by
  have hpair : s.Decides cfg es ∧ s.Allowed cfg es := by
    refine run_history (fun es s => s.Decides cfg es ∧ s.Allowed cfg es) ⟨?_, ?_⟩ ?_ hrun
    · rintro w k m ⟨c, hc, -⟩
      cases hc
    · intro m sid object method params hmem
      cases hmem
    · intro es s e s' hpast hi h
      have hn := (tracks_run (numbered_init n) (tracks_init n) hpast).1
      exact ⟨decides_step hn (traced_run hpast).steps hi.1 h, allowed_step hi.1 hi.2 h⟩
  exact hpair.2

/-- Every call that is invoked was allowed. In every run, the session, the
object and the method of an invocation are those of a message of a client, and
the call was allowed by the certificate of that client and the access list, by
the list of users of the interface, or by rpcd, which had been asked about
this session, object and method with these arguments. On an interface with a
list of users, a login whose `username`, read as text, is not on it passes
with a certificate only. -/
theorem mediated_run {n : ℕ} {es : List Event} (hrun : run (step cfg) (init n) es = .ok s) {m : ℕ}
    {sid object method : CString} {params : List Attr}
    (hinvoke : .invoke m sid object method params ∈ s.log) :
    ∃ w a A r, CheckedCall cfg es m w a A r ∧ sid = A.sid ∧ object = A.object ∧
      method = A.method ∧ Authority cfg s.log w m a.check A r ∧
      (A.object = .ofString "session" → A.method = .ofString "login" →
        (cfg.vhost w).users ≠ [] → ∀ cur, username A.paramsBuf = some cur →
        cur.2.text a.check.rawText ∉ (cfg.vhost w).users →
        A.sid = tlsSid ∧ peerVerified cfg w = true) := by
  obtain ⟨w, a, A, r, status, hchecked, hdone, hstatus⟩ :=
    allowed_run hrun m sid object method params hinvoke
  obtain ⟨w', a', A', r', hchecked', hsid, hobject, hmethod, -⟩ :=
    invokesAsked_run hrun m sid object method params hinvoke
  obtain ⟨rfl, rfl, rfl, rfl⟩ := hchecked.unique hchecked'
  have hauthority : Authority cfg s.log w m a.check A r := by
    obtain ⟨blob, now, -, -, hr⟩ := hchecked
    rcases hstatus with ⟨-, hout⟩ | ⟨rfl, hout⟩
    · exact accessCheckCall_deferred hr hout
    · obtain ⟨hnext, hasked⟩ := accessCheckCall_session hr hout
      obtain ⟨later, past, hlog⟩ := List.append_of_mem hdone
      obtain ⟨-, data, hdata, haccess⟩ := grantsFounded_run hrun later m ubusStatusOk past hlog
      exact .rpcd later past data hnext hasked hlog hdata haccess
  refine ⟨w, a, A, r, hchecked, hsid, hobject, hmethod, hauthority, ?_⟩
  intro hobj hmeth husers cur hcur hnot
  cases hauthority with
  | certificate hsid hpeer _ => exact ⟨hsid, hpeer⟩
  | users cur' _ _ hcur' hmem =>
      rw [hcur] at hcur'
      cases hcur'
      exact absurd hmem hnot
  | rpcd _ _ _ hnext =>
      -- The list of users would have refused the login.
      exfalso
      have hcur' : A.paramsBuf.find? (fun cur => cur.1 = .ofString "username") = some cur := hcur
      simp only [wsuExtRestrictInterface, hobj, hmeth, and_self, if_true, Option.getD_some,
        hcur'] at hnext
      split at hnext
      · next hempty => exact husers (List.isEmpty_iff.mp hempty)
      · split at hnext
        · cases hnext
        · cases hnext

end

def loginConfig : Config := { plainConfig with vhost := fun _ => ⟨[.ofString "user"], []⟩ }

def loginRun : List Event :=
  [.established 0,
    sends (requestMessage (.ofString "call") [.string ubusDefaultSid,
      .string (.ofString "session"), .string (.ofString "login"),
      .table [(.ofString "username", .string (.ofString "user"))]]),
    .deferral 0 1 willingInvoke]

theorem mediated_run_login :
    ∃ s params, run (step loginConfig) (init 512) loginRun = .ok s ∧
      .invoke 1 ubusDefaultSid (.ofString "session") (.ofString "login") params ∈ s.log ∧
      ∃ w a A r, CheckedCall loginConfig loginRun 1 w a A r ∧
        Authority loginConfig s.log w 1 a.check A r := by
  obtain ⟨s, hrun, hmem⟩ : ∃ s, run (step loginConfig) (init 512) loginRun = .ok s ∧
      .invoke 1 ubusDefaultSid (.ofString "session") (.ofString "login")
        [(.ofString "username", .string (.ofString "user")),
          (.ofString "_owsd_listen", .string [])] ∈ s.log := ⟨_, rfl, .head _⟩
  obtain ⟨w, a, A, r, hchecked, -, -, -, hauthority, -⟩ := mediated_run hrun hmem
  exact ⟨s, _, hrun, hmem, w, a, A, r, hchecked, hauthority⟩

end Owsd.Server
