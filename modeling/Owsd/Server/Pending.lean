import Owsd.Server.CallChecks
import Owsd.Server.Counters

/-!
What the libraries have in hand.

`starts` is what the handlers leave to the libraries: the request to rpcd or
the timer of a new access check, and the request of a call that is invoked.
`ends` is what the libraries are done with after a callback, and what the
sweeper and the end of a connection cancel. The queues keep up with both: in
every step they gain what is started and lose what is ended (`owns_step`).
-/

namespace Owsd.Server

open Rpc

/-! ### Starting -/

/-- The start of the check with the number `num`: `ubus_complete_request_async`
or `uloop_timeout_set`. -/
def CheckOutcome.starts (num : ℕ) : CheckOutcome → List Handle
  | .deferred _ => [.deferTimer num]
  | .session => [.accessRequest num]
  | .failed => []

/-- `wsubus_call_do_check_then_do_call`. -/
def callStarts (cfg : Config) (w : Wsi) (a : CheckAnswers) (num : ℕ)
    (callArgs : UbusrpcBlobCall) : List Handle :=
  if !a.alloc then []
  else
    match wsubusAccessCheckCall cfg w a callArgs.sid callArgs.object callArgs.method
        callArgs.paramsBuf (.call num) with
    | .error _ => []
    | .ok r => r.outcome.starts num

def requestStarts (cfg : Config) (s : State) (w : Wsi) (a : MessageAnswers) :
    UbusrpcBlob → List Handle
  | .call args => callStarts cfg w a.check s.steps args
  | _ => []

/-- `wsu_on_msg_from_client`. -/
def messageStarts (cfg : Config) (s : State) (w : Wsi) (blob : List Attr) (a : MessageAnswers)
    (c : ClientSession) : List Handle :=
  if s.reqMax < c.rpcQLen.toNat then []
  else
    match parseRequest a.scalarAttrs blob with
    | some (.ok req) => requestStarts cfg s w a req
    | _ => []

/-- `wsubus_sub_cb`. -/
def eventStarts (cfg : Config) (s : State) (info : SubInfo) (type : CString) (msg : List Attr)
    (a : CheckAnswers) : List Handle :=
  if !a.alloc then []
  else
    match wsubusAccessCheckEvent cfg info.wsi a info.sub.sid type none
        (.event ⟨type, msg, info.num⟩) with
    | .error _ => []
    | .ok r => r.outcome.starts s.steps

/-- `wsubus_access_on_completed`, for the check of a call. -/
def verdictStarts (vc : VhContext) (k : AccessCheck) (allow : Bool) (a : InvokeAnswers)
    (c : ClientSession) : List Handle :=
  match k.ctx with
  | .event _ => []
  | .call num =>
      match c.findCall num with
      | none => []
      | some currCall =>
          if allow then
            match wsubusCallDoCall vc a currCall.callArgs with
            | .invoked true _ => [.invokeRequest num]
            | _ => []
          else []

/-- The handles of the client on `w`, if there is one. -/
def ofClient (s : State) (w : Wsi) (f : ClientSession → List Handle) : List (Wsi × Handle) :=
  match s.clients w with
  | none => []
  | some c => (f c).map fun h => (w, h)

/-- The handles that a check leads to, if it is pending. -/
def ofCheck (check : ℕ) (session : Bool) (f : AccessCheck → ClientSession → List Handle)
    (c : ClientSession) : List Handle :=
  match c.findCheck check with
  | none => []
  | some k => if k.session = session then f k c else []

def starts (cfg : Config) (s : State) : Event → List (Wsi × Handle)
  | .message w blob _ a => ofClient s w (messageStarts cfg s w blob a)
  | .checkComplete w check status a =>
      ofClient s w (ofCheck check true fun k =>
        verdictStarts (cfg.vhost w) k (k.result && status == ubusStatusOk) a)
  | .deferral w check a =>
      ofClient s w (ofCheck check false fun k => verdictStarts (cfg.vhost w) k k.result a)
  | .busEvent sub type msg a =>
      match s.findSub sub with
      | none => []
      | some info => ofClient s info.wsi fun _ => eventStarts cfg s info type msg a
  | _ => []

/-! ### Ending -/

/-- What the libraries are done with, or have to drop. A call that is refused
was not invoked, so nothing of it is aborted. -/
def ends (s : State) : Event → List (Wsi × Handle)
  | .checkComplete w check _ _ => [(w, .accessRequest check)]
  | .deferral w check _ => [(w, .deferTimer check)]
  | .invokeComplete w call _ => [(w, .invokeRequest call)]
  | .percallCleaner w now => ofClient s w (sweptAborts now)
  | .closed w => ofClient s w deinitCancels
  | _ => []

/-! ### The queues -/

namespace ClientSession

def Owns (c : ClientSession) (h : Handle) : Prop :=
  (∃ k ∈ c.accessCheckQ, h = wsubusAccessCheckCancel k) ∨
    ∃ ctx, .call ctx ∈ c.rpcCallQ ∧ ctx.invokeReq = true ∧ h = .invokeRequest ctx.num

/-- From one session to the next the handles in `gone` go, and those in `new`
are new. -/
def Moves (c c' : ClientSession) (gone new : List Handle) : Prop :=
  ∀ h, c'.Owns h ↔ c.Owns h ∧ h ∉ gone ∨ h ∈ new

variable {c c' : ClientSession} {gone new : List Handle} {h : Handle} {n : ℕ}

theorem mem_aborts {q : List WsRequest} : h ∈ q.flatMap WsRequest.aborts ↔
    ∃ ctx, .call ctx ∈ q ∧ ctx.invokeReq = true ∧ h = .invokeRequest ctx.num := by
  rw [List.mem_flatMap]
  constructor
  · rintro ⟨r, hr, hmem⟩
    cases r with
    | call ctx =>
        cases hinv : ctx.invokeReq with
        | false => simp [WsRequest.aborts, hinv] at hmem
        | true => exact ⟨ctx, hr, hinv, by simpa [WsRequest.aborts, hinv] using hmem⟩
    | sub m => cases hmem
  · rintro ⟨ctx, hr, hinv, rfl⟩
    exact ⟨.call ctx, hr, by simp [WsRequest.aborts, hinv]⟩

/-- A closing connection cancels all that its queues know of. -/
theorem mem_deinitCancels : h ∈ deinitCancels c ↔ c.Owns h := by
  rw [deinitCancels, List.mem_append, mem_aborts, List.mem_map, Owns]
  simp only [eq_comm]

theorem cancel_ne_invoke (k : AccessCheck) (m : ℕ) :
    wsubusAccessCheckCancel k ≠ .invokeRequest m := by
  rw [wsubusAccessCheckCancel]
  split
  · simp
  · simp

theorem cancel_inj {k k' : AccessCheck}
    (h : wsubusAccessCheckCancel k = wsubusAccessCheckCancel k') : k.num = k'.num := by
  simp only [wsubusAccessCheckCancel] at h
  split at h
  · split at h
    · simpa using h
    · cases h
  · split at h
    · cases h
    · simpa using h

theorem Moves.same (hchecks : c'.accessCheckQ = c.accessCheckQ) (hcalls : ∀ ctx,
    .call ctx ∈ c'.rpcCallQ ↔ .call ctx ∈ c.rpcCallQ) : Moves c c' [] [] := by
  intro h
  simp [Owns, hchecks, hcalls]

theorem Moves.updateCheck (b : Bool) : Moves c (c.updateCheck n b) [] [] := by
  intro h
  simp only [List.not_mem_nil, not_false_eq_true, and_true, or_false]
  refine or_congr_left ?_
  constructor
  · rintro ⟨k, hk, rfl⟩
    obtain ⟨k', hk', rfl⟩ := mem_updateCheck.mp hk
    refine ⟨k', hk', ?_⟩
    split
    · rfl
    · rfl
  · rintro ⟨k, hk, rfl⟩
    refine ⟨_, mem_updateCheck.mpr ⟨k, hk, rfl⟩, ?_⟩
    split
    · rfl
    · rfl

theorem Moves.updateCall {f : PercallCtx → PercallCtx} (hnum : ∀ ctx, (f ctx).num = ctx.num)
    (hinv : ∀ ctx, (f ctx).invokeReq = ctx.invokeReq) : Moves c (c.updateCall n f) [] [] := by
  intro h
  simp only [List.not_mem_nil, not_false_eq_true, and_true, or_false]
  refine or_congr_right ?_
  have hkeep : ∀ ctx : PercallCtx, (if ctx.num = n then f ctx else ctx).num = ctx.num ∧
      (if ctx.num = n then f ctx else ctx).invokeReq = ctx.invokeReq := by
    intro ctx
    split
    · exact ⟨hnum ctx, hinv ctx⟩
    · exact ⟨rfl, rfl⟩
  constructor
  · rintro ⟨ctx, hctx, hreq, rfl⟩
    obtain ⟨ctx', hctx', rfl⟩ := call_mem_updateCall.mp hctx
    rw [(hkeep ctx').2] at hreq
    exact ⟨ctx', hctx', hreq, by rw [(hkeep ctx').1]⟩
  · rintro ⟨ctx, hctx, hreq, rfl⟩
    refine ⟨_, call_mem_updateCall.mpr ⟨ctx, hctx, rfl⟩, ?_, ?_⟩
    · rw [(hkeep ctx).2, hreq]
    · rw [(hkeep ctx).1]

/-- A check comes into the queue, with a call that is not yet invoked or with
none. -/
theorem Moves.linkCheck {k : AccessCheck} {q : List WsRequest}
    (hchecks : c'.accessCheckQ = c.accessCheckQ ++ [k]) (hcalls : c'.rpcCallQ = c.rpcCallQ ++ q)
    (hq : ∀ ctx, .call ctx ∈ q → ctx.invokeReq = false) :
    Moves c c' [] [wsubusAccessCheckCancel k] := by
  intro h
  have hold : ∀ ctx, .call ctx ∈ c'.rpcCallQ ∧ ctx.invokeReq = true ↔
      .call ctx ∈ c.rpcCallQ ∧ ctx.invokeReq = true := by
    intro ctx
    rw [hcalls, List.mem_append]
    constructor
    · rintro ⟨hctx | hctx, hinv⟩
      · exact ⟨hctx, hinv⟩
      · rw [hq ctx hctx] at hinv
        cases hinv
    · rintro ⟨hctx, hinv⟩
      exact ⟨.inl hctx, hinv⟩
  simp only [Owns, hchecks, ← and_assoc, hold, List.mem_append, List.mem_singleton, or_and_right,
    exists_or, exists_eq_left, List.not_mem_nil, not_false_eq_true, and_true]
  exact or_right_comm

/-- A check goes, and with it the call it was for unless that is invoked. -/
theorem Moves.unlinkCheck {k : AccessCheck} (hn : c.Numbered n) (hk : k ∈ c.accessCheckQ)
    (hchecks : c'.accessCheckQ = (c.unlinkCheck k.num).accessCheckQ)
    (hcalls : ∀ ctx, ctx.invokeReq = true → (.call ctx ∈ c'.rpcCallQ ↔ .call ctx ∈ c.rpcCallQ)) :
    Moves c c' [wsubusAccessCheckCancel k] [] := by
  intro h
  simp only [List.mem_singleton, List.not_mem_nil, or_false]
  constructor
  · rintro (⟨k', hk', rfl⟩ | ⟨ctx, hctx, hinv, rfl⟩)
    · rw [hchecks, mem_unlinkCheck] at hk'
      exact ⟨.inl ⟨k', hk'.1, rfl⟩, fun heq => hk'.2 (cancel_inj heq)⟩
    · exact ⟨.inr ⟨ctx, (hcalls ctx hinv).mp hctx, hinv, rfl⟩, (cancel_ne_invoke k _).symm⟩
  · rintro ⟨⟨k', hk', rfl⟩ | ⟨ctx, hctx, hinv, rfl⟩, hne⟩
    · refine .inl ⟨k', ?_, rfl⟩
      rw [hchecks, mem_unlinkCheck]
      refine ⟨hk', fun hnum => hne ?_⟩
      rw [hn.distinct k' hk' k hk hnum]
    · exact .inr ⟨ctx, (hcalls ctx hinv).mpr hctx, hinv, rfl⟩

theorem Moves.unlinkCalls (hchecks : c'.accessCheckQ = c.accessCheckQ)
    (hgone : ∀ ctx, .call ctx ∈ c.rpcCallQ → ctx.invokeReq = true →
      (.call ctx ∈ c'.rpcCallQ ↔ .invokeRequest ctx.num ∉ gone))
    (hcalls : ∀ ctx, .call ctx ∈ c'.rpcCallQ → .call ctx ∈ c.rpcCallQ)
    (hkind : ∀ h ∈ gone, ∃ m, h = .invokeRequest m) : Moves c c' gone [] := by
  intro h
  simp only [List.not_mem_nil, or_false]
  constructor
  · rintro (⟨k, hk, rfl⟩ | ⟨ctx, hctx, hinv, rfl⟩)
    · refine ⟨.inl ⟨k, hchecks ▸ hk, rfl⟩, fun hmem => ?_⟩
      obtain ⟨m, hm⟩ := hkind _ hmem
      exact cancel_ne_invoke k m hm
    · have hold := hcalls ctx hctx
      exact ⟨.inr ⟨ctx, hold, hinv, rfl⟩, (hgone ctx hold hinv).mp hctx⟩
  · rintro ⟨⟨k, hk, rfl⟩ | ⟨ctx, hctx, hinv, rfl⟩, hmem⟩
    · exact .inl ⟨k, hchecks ▸ hk, rfl⟩
    · exact .inr ⟨ctx, (hgone ctx hctx hinv).mpr hmem, hinv, rfl⟩

theorem Moves.invoke {ctx : PercallCtx} {f : PercallCtx → PercallCtx}
    (hctx : .call ctx ∈ c.rpcCallQ) (hnum : ∀ ctx, (f ctx).num = ctx.num)
    (hinv : ∀ ctx, (f ctx).invokeReq = true) :
    Moves c (c.updateCall ctx.num f) [] [.invokeRequest ctx.num] := by
  intro h
  simp only [List.not_mem_nil, not_false_eq_true, and_true, List.mem_singleton]
  constructor
  · rintro (hcheck | ⟨ctx', hmem, hreq, rfl⟩)
    · exact .inl (.inl hcheck)
    · obtain ⟨ctx₀, hctx₀, rfl⟩ := call_mem_updateCall.mp hmem
      split at hreq
      · next heq =>
        rw [if_pos heq, hnum, heq]
        exact .inr rfl
      · next hne =>
        rw [if_neg hne]
        exact .inl (.inr ⟨ctx₀, hctx₀, hreq, rfl⟩)
  · rintro ((hcheck | ⟨ctx₀, hctx₀, hreq, rfl⟩) | rfl)
    · exact .inl hcheck
    · refine .inr ⟨_, call_mem_updateCall.mpr ⟨ctx₀, hctx₀, rfl⟩, ?_⟩
      split
      · exact ⟨hinv ctx₀, by rw [hnum]⟩
      · exact ⟨hreq, rfl⟩
    · refine .inr ⟨_, call_mem_updateCall.mpr ⟨ctx, hctx, rfl⟩, ?_⟩
      rw [if_pos rfl]
      exact ⟨hinv ctx, by rw [hnum]⟩

theorem Moves.trans {c'' : ClientSession} (h : Moves c c' gone []) (h' : Moves c' c'' [] new) :
    Moves c c'' gone new := by
  intro i
  rw [h' i, h i]
  simp

theorem owns_check_iff (hn : c.Numbered n) (session : Bool) (check : ℕ) :
    c.Owns (if session then .accessRequest check else .deferTimer check) ↔
      ∃ k, c.findCheck check = some k ∧ k.session = session := by
  have hhandle : ∀ k : AccessCheck,
      (if session then Handle.accessRequest check else .deferTimer check) =
        wsubusAccessCheckCancel k ↔ k.num = check ∧ k.session = session := by
    intro k
    rw [wsubusAccessCheckCancel]
    cases session with
    | true => cases k.session <;> simp [eq_comm]
    | false => cases k.session <;> simp [eq_comm]
  have hcall : ∀ m, (if session then Handle.accessRequest check else .deferTimer check) ≠
      .invokeRequest m := by
    intro m
    split
    · simp
    · simp
  simp only [Owns, hhandle, hcall, and_false, exists_false, or_false]
  constructor
  · rintro ⟨k, hk, hnum, hsession⟩
    refine ⟨k, ?_, hsession⟩
    have hsome : (c.findCheck check).isSome := by
      rw [findCheck, List.find?_isSome]
      exact ⟨k, hk, by simpa using hnum⟩
    obtain ⟨k', hfind⟩ := Option.isSome_iff_exists.mp hsome
    have hnum' : k'.num = check := by simpa using List.find?_some hfind
    rw [hfind, hn.distinct k' (List.mem_of_find?_eq_some hfind) k hk (hnum'.trans hnum.symm)]
  · rintro ⟨k, hfind, hsession⟩
    exact ⟨k, List.mem_of_find?_eq_some hfind, by simpa using List.find?_some hfind, hsession⟩

theorem owns_invoke_iff (hc : c.Counted) (call : ℕ) : c.Owns (.invokeRequest call) ↔
    ∃ ctx, c.findCall call = some ctx ∧ ctx.invokeReq = true := by
  have hcheck : ∀ k : AccessCheck, Handle.invokeRequest call ≠ wsubusAccessCheckCancel k :=
    fun k => (cancel_ne_invoke k call).symm
  simp only [Owns, hcheck, and_false, exists_false, false_or, Handle.invokeRequest.injEq]
  constructor
  · rintro ⟨ctx, hctx, hinv, rfl⟩
    obtain ⟨ctx', hfind⟩ := Option.isSome_iff_exists.mp (findCall_isSome_iff.mpr ⟨ctx, hctx, rfl⟩)
    obtain ⟨hnum, hctx'⟩ := findCall_num hfind
    rw [hc.call_inj hctx' hctx hnum] at hfind
    exact ⟨ctx, hfind, hinv⟩
  · rintro ⟨ctx, hfind, hinv⟩
    obtain ⟨rfl, hctx⟩ := findCall_num hfind
    exact ⟨ctx, hctx, hinv, rfl⟩

end ClientSession

/-! ### One step -/

/-- What the queues say of the client on `w`. -/
def State.Owns (s : State) (w : Wsi) (h : Handle) : Prop :=
  ∃ c, s.clients w = some c ∧ c.Owns h

/-- From one state to the next the handles in `gone` go, and those in `new`
are new. -/
def Shifts (s t : State) (gone new : List (Wsi × Handle)) : Prop :=
  ∀ w h, t.Owns w h ↔ s.Owns w h ∧ (w, h) ∉ gone ∨ (w, h) ∈ new

section

variable {cfg : Config} {s s' t : State} {w : Wsi} {c c' : ClientSession} {k : AccessCheck}

theorem Shifts.idle {gone : List (Wsi × Handle)} (hgone : ∀ p ∈ gone, ¬s.Owns p.1 p.2) :
    Shifts s s gone [] := by
  intro w h
  rw [or_iff_left List.not_mem_nil, iff_self_and]
  exact fun howns hmem => hgone _ hmem howns

theorem Shifts.update {gone new : List Handle} (hc : s.clients w = some c)
    (hm : c.Moves c' gone new) (ht : t.clients = Function.update s.clients w (some c')) :
    Shifts s t (gone.map fun h => (w, h)) (new.map fun h => (w, h)) := by
  intro w' h
  by_cases hw : w' = w
  · subst hw
    simpa [State.Owns, ht, hc] using hm h
  · simp [State.Owns, ht, hw, Ne.symm hw]

theorem ofClient_some (hc : s.clients w = some c) (f : ClientSession → List Handle) :
    ofClient s w f = (f c).map fun h => (w, h) := by
  simp only [ofClient, hc]

theorem ofClient_none (hc : s.clients w = none) (f : ClientSession → List Handle) :
    ofClient s w f = [] := by
  simp only [ofClient, hc]

@[simp] theorem ofClient_nil (s : State) (w : Wsi) : ofClient s w (fun _ => []) = [] := by
  rw [ofClient]
  split
  · rfl
  · rfl

/-- A callback of a client does to the state what it does to the client. -/
theorem withClient_shifts {f : ClientSession → Except Fault State}
    {gone new : ClientSession → List Handle} (h : withClient s w f = .ok t)
    (hf : ∀ c, s.clients w = some c → f c = .ok t →
      ∃ c', t.clients = Function.update s.clients w (some c') ∧ c.Moves c' (gone c) (new c)) :
    Shifts s t (ofClient s w gone) (ofClient s w new) := by
  simp only [withClient] at h
  split at h
  · next hc =>
    cases h
    rw [ofClient_none hc, ofClient_none hc]
    exact .idle (by simp)
  · next c hc =>
    obtain ⟨c', hclients, hmoves⟩ := hf c hc h
    rw [ofClient_some hc, ofClient_some hc]
    exact .update hc hmoves hclients

/-- The check of a call is pending with what was started for it, if it was
started. -/
theorem doCheckThenDoCall_starts {a : CheckAnswers} {num : ℕ} {args : UbusrpcBlobCall}
    {r : Option (UbusrpcBlobCall × AccessCheck × Subject)}
    (h : wsubusCallDoCheckThenDoCall cfg w a num args = .ok r) :
    callStarts cfg w a num args = (r.map fun q => wsubusAccessCheckCancel q.2.1).toList := by
  simp only [wsubusCallDoCheckThenDoCall] at h
  simp only [callStarts]
  split at h
  · next halloc =>
    cases h
    rw [if_pos halloc]
    rfl
  · next halloc =>
    rw [if_neg halloc]
    cases hr : wsubusAccessCheckCall cfg w a args.sid args.object args.method args.paramsBuf
        (.call num) with
    | error f =>
        simp only [hr] at h
        cases h
    | ok r =>
        simp only [hr] at h ⊢
        cases hout : r.outcome with
        | deferred result =>
            simp only [hout] at h
            cases h
            rfl
        | session =>
            simp only [hout] at h
            cases h
            rfl
        | failed =>
            simp only [hout] at h
            cases h
            rfl

theorem handleRequest_moves {req : UbusrpcBlob} {id : Option Attr} {now : Timespec}
    {a : MessageAnswers} (h : handleRequest cfg s w c req id now a = .ok (t, c')) :
    t.clients = s.clients ∧ c.Moves c' [] (requestStarts cfg s w a req) := by
  cases req with
  | call args =>
      simp only [handleRequest, handleCallUbus] at h
      split at h
      · cases h
      · next hfailed =>
        cases h
        rw [requestStarts, doCheckThenDoCall_starts hfailed]
        exact ⟨rfl, .same rfl fun _ => Iff.rfl⟩
      · next callArgs check q hcheck =>
        cases h
        rw [requestStarts, doCheckThenDoCall_starts hcheck]
        refine ⟨rfl, .linkCheck rfl rfl fun ctx hctx => ?_⟩
        cases List.mem_singleton.mp hctx
        rfl
  | list args =>
      simp only [handleRequest, ubusrpcHandleList] at h
      split at h
      · cases h
      · split at h
        · cases h
        · cases h
          exact ⟨rfl, .same rfl fun _ => Iff.rfl⟩
  | sub args =>
      simp only [handleRequest, ubusrpcHandleSub] at h
      split at h
      · cases h
        exact ⟨rfl, .same rfl fun _ => Iff.rfl⟩
      · cases h
        exact ⟨rfl, .same rfl fun ctx => by simp⟩
  | subList args =>
      cases h
      exact ⟨rfl, .same rfl fun _ => Iff.rfl⟩
  | unsub args =>
      cases h
      exact ⟨rfl, .same rfl fun ctx => by simp [ClientSession.unlinkSubs]⟩

theorem onMsg_moves {blob : List Attr} {now : Timespec} {a : MessageAnswers}
    (hc : s.clients w = some c) (h : wsuOnMsgFromClient cfg s w c blob now a = .ok t) :
    ∃ c', t.clients = Function.update s.clients w (some c') ∧
      c.Moves c' [] (messageStarts cfg s w blob a c) := by
  have hself : Function.update s.clients w (some c) = s.clients := by
    rw [← hc, Function.update_eq_self]
  have hsame : c.Moves c [] [] := .same rfl fun _ => Iff.rfl
  simp only [wsuOnMsgFromClient] at h
  rw [messageStarts]
  split at h
  · next hq =>
    cases h
    have hq : s.reqMax < c.rpcQLen.toNat := hq
    rw [if_pos hq]
    exact ⟨c, hself.symm, hsame⟩
  · next hq =>
    have hq : ¬s.reqMax < c.rpcQLen.toNat := hq
    rw [if_neg hq]
    split at h
    · cases h
    · next hreq =>
      cases h
      simp only [hreq]
      exact ⟨c, hself.symm, hsame⟩
    · next req hreq =>
      split at h
      · cases h
      · next s₁ c₁ hhandle =>
        cases h
        obtain ⟨hclients, hmoves⟩ := handleRequest_moves hhandle
        simp only [hreq]
        refine ⟨{ c₁ with rpcQLen := c₁.rpcQLen + 1 }, ?_, hmoves⟩
        show Function.update s₁.clients w _ = _
        rw [hclients]
        rfl

/-- The handler of a verdict unlinks the check, and the call unless it is
invoked. -/
theorem completeCheck_moves {n : ℕ} {status : Option Int} {allow : Bool} {a : InvokeAnswers}
    (hn : c.Numbered n) (hl : c.Linked) (hk : k ∈ c.accessCheckQ)
    (h : completeCheck cfg s w c k status allow a = .ok t) :
    ∃ c', t.clients = Function.update s.clients w (some c') ∧
      c.Moves c' [wsubusAccessCheckCancel k] (verdictStarts (cfg.vhost w) k allow a c) := by
  have hunlink : c.Moves (c.unlinkCheck k.num) [wsubusAccessCheckCancel k] [] :=
    .unlinkCheck hn hk rfl fun _ _ => Iff.rfl
  simp only [completeCheck] at h
  simp only [verdictStarts]
  cases hctx : k.ctx with
  | event ev =>
      simp only [hctx, wsubusEvCheckCb] at h
      split at h
      · split at h
        · cases h
        · cases h
          exact ⟨_, rfl, hunlink⟩
      · cases h
        exact ⟨_, rfl, hunlink⟩
  | call num =>
      simp only [hctx, wsubusAccessOnCompleted] at h
      split at h
      · cases h
      · next ctx hfind =>
        obtain ⟨rfl, hmem⟩ := ClientSession.findCall_num hfind
        -- The call of a pending check was not invoked.
        have hdeny : c.Moves ((c.unlinkCheck k.num).unlinkCall ctx.num).percallCtxDestroy
            [wsubusAccessCheckCancel k] [] := by
          refine .unlinkCheck hn hk rfl fun ctx' hinv => ?_
          refine ClientSession.call_mem_unlinkCall.trans (and_iff_left_of_imp fun hctx' hnum => ?_)
          rw [hl.waiting k hk ctx' (hctx.trans (by rw [hnum])) hctx'] at hinv
          cases hinv
        simp only [hfind]
        split at h
        · next hallow =>
          simp only [hallow, if_true]
          split at h
          · next hdo =>
            cases h
            simp only [hdo]
            exact ⟨_, rfl, hdeny⟩
          · next ok params hdo =>
            simp only [hdo]
            split at h
            · next hok =>
              cases h
              subst hok
              refine ⟨_, rfl, hunlink.trans ?_⟩
              exact .invoke hmem (fun _ => rfl) fun _ => rfl
            · next hok =>
              cases h
              rw [Bool.not_eq_true] at hok
              subst hok
              exact ⟨_, rfl, hdeny⟩
        · next hallow =>
          cases h
          simp only [hallow]
          exact ⟨_, rfl, hdeny⟩

/-- A check completes if it is pending, and otherwise nothing happens. -/
theorem withCheck_shifts {check : ℕ} {session : Bool}
    {f : ClientSession → AccessCheck → Except Fault State}
    {g : AccessCheck → ClientSession → List Handle} (hi : s.Numbered)
    (h : withCheck s w check session f = .ok t)
    (hf : ∀ c k, s.clients w = some c → k ∈ c.accessCheckQ → f c k = .ok t →
      ∃ c', t.clients = Function.update s.clients w (some c') ∧
        c.Moves c' [wsubusAccessCheckCancel k] (g k c)) :
    Shifts s t [(w, if session then .accessRequest check else .deferTimer check)]
      (ofClient s w (ofCheck check session g)) := by
  have hidle : (¬∃ c k, s.clients w = some c ∧ c.findCheck check = some k ∧ k.session = session) →
      ∀ p ∈ [(w, if session then Handle.accessRequest check else .deferTimer check)],
        ¬s.Owns p.1 p.2 := by
    intro hnone p hp
    rw [List.mem_singleton.mp hp]
    rintro ⟨c, hc, howns⟩
    obtain ⟨k, hfind, hsession⟩ := (ClientSession.owns_check_iff (hi w c hc) _ _).mp howns
    exact hnone ⟨c, k, hc, hfind, hsession⟩
  simp only [withCheck, withClient] at h
  split at h
  · next hc =>
    cases h
    rw [ofClient_none hc]
    exact .idle (hidle (by simp [hc]))
  · next c hc =>
    rw [ofClient_some hc, ofCheck]
    cases hfind : c.findCheck check with
    | none =>
        simp only [hfind] at h ⊢
        cases h
        exact .idle (hidle (by simp [hc, hfind]))
    | some k =>
        simp only [hfind] at h ⊢
        by_cases hsession : k.session = session
        · rw [if_pos hsession] at h ⊢
          obtain ⟨c', hclients, hmoves⟩ := hf c k hc (List.mem_of_find?_eq_some hfind) h
          have hnum : k.num = check := by simpa using List.find?_some hfind
          rw [wsubusAccessCheckCancel, hsession, hnum] at hmoves
          exact .update hc hmoves hclients
        · rw [if_neg hsession] at h ⊢
          cases h
          exact .idle (hidle (by simp [hc, hfind, hsession]))

theorem withInvoked_shifts {call : ℕ} {f : ClientSession → PercallCtx → Except Fault State}
    {gone : List (Wsi × Handle)} (hi : s.Counted) (h : withInvoked s w call f = .ok t)
    (hgone : ∀ p ∈ gone, p = (w, .invokeRequest call))
    (hf : ∀ c ctx, s.clients w = some c → c.findCall call = some ctx → ctx.invokeReq = true →
      f c ctx = .ok t → Shifts s t gone []) : Shifts s t gone [] := by
  rcases withInvoked_cases h with ⟨rfl, hnone⟩ | ⟨c, ctx, hc, hfind, hinv, h⟩
  · refine .idle fun p hp => ?_
    rw [hgone p hp]
    rintro ⟨c, hc, howns⟩
    obtain ⟨ctx, hfind, hinv⟩ := (ClientSession.owns_invoke_iff (hi w c hc) call).mp howns
    rw [hnone c ctx hc hfind] at hinv
    cases hinv
  · exact hf c ctx hc hfind hinv h

theorem subCb_moves {info : SubInfo} {type : CString} {msg : List Attr} {a : CheckAnswers}
    (hc : s.clients info.wsi = some c)
    (h : wsubusSubCb cfg s info.wsi c info type msg a = .ok t) :
    ∃ c', t.clients = Function.update s.clients info.wsi (some c') ∧
      c.Moves c' [] (eventStarts cfg s info type msg a) := by
  have hself : Function.update s.clients info.wsi (some c) = s.clients := by
    rw [← hc, Function.update_eq_self]
  have hsame : c.Moves c [] [] := .same rfl fun _ => Iff.rfl
  have hlink : ∀ session result, c.Moves { c with accessCheckQ := c.accessCheckQ ++
      [⟨s.steps, .event ⟨type, msg, info.num⟩, session, result⟩] } []
      [if session then .accessRequest s.steps else .deferTimer s.steps] := by
    intro session result
    refine .linkCheck (k := ⟨s.steps, .event ⟨type, msg, info.num⟩, session, result⟩) rfl
      (List.append_nil _).symm fun ctx hctx => ?_
    cases hctx
  simp only [wsubusSubCb] at h
  rw [eventStarts]
  split at h
  · next halloc =>
    cases h
    rw [if_pos halloc]
    exact ⟨c, hself.symm, hsame⟩
  · next halloc =>
    rw [if_neg halloc]
    cases hr : wsubusAccessCheckEvent cfg info.wsi a info.sub.sid type none
        (.event ⟨type, msg, info.num⟩) with
    | error f =>
        simp only [hr] at h
        cases h
    | ok r =>
        simp only [hr] at h ⊢
        cases hout : r.outcome with
        | deferred result =>
            simp only [hout] at h
            cases h
            exact ⟨_, rfl, hlink false _⟩
        | session =>
            simp only [hout] at h
            cases h
            exact ⟨_, rfl, hlink true _⟩
        | failed =>
            simp only [hout] at h
            cases h
            exact ⟨c, hself.symm, hsame⟩

theorem Shifts.of_eq (h : t.clients = s.clients) : Shifts s t [] [] := by
  intro w h'
  simp [State.Owns, h]

theorem swept_moves {n : ℕ} (hcounted : c.Counted) (now : Timespec) :
    c.Moves { c with rpcCallQ := c.rpcCallQ.filter fun r => !isStale now r, rpcQLen := n }
      (sweptAborts now c) [] := by
  refine .unlinkCalls rfl (fun ctx hctx hinv => ?_) (fun ctx hctx => (List.mem_filter.mp hctx).1) ?_
  · rw [sweptAborts, ClientSession.mem_aborts, List.mem_filter]
    constructor
    · rintro ⟨-, hfresh⟩ ⟨ctx', hmem, -, heq⟩
      obtain ⟨hctx', hstale⟩ := List.mem_filter.mp hmem
      -- No other call has its number.
      rw [hcounted.call_inj hctx hctx' (by simpa using heq), hstale] at hfresh
      cases hfresh
    · intro hnone
      refine ⟨hctx, ?_⟩
      by_contra hstale
      exact hnone ⟨ctx, List.mem_filter.mpr ⟨hctx, by simpa using hstale⟩, hinv, rfl⟩
  · intro h hmem
    obtain ⟨ctx, -, -, rfl⟩ := ClientSession.mem_aborts.mp hmem
    exact ⟨ctx.num, rfl⟩

/-- A new connection brings a client with nothing in hand. -/
theorem established_shifts (h : handle cfg s (.established w) = .ok t) : Shifts s t [] [] := by
  simp only [handle] at h
  split at h
  · cases h
    exact .of_eq rfl
  · next hnone =>
    cases h
    intro w' h'
    by_cases hw : w' = w
    · subst hw
      simp [State.Owns, wsuPeerInit, State.setClient, hnone, ClientSession.Owns]
    · simp [State.Owns, wsuPeerInit, State.setClient, hw]

/-- With its connection all that a client has in hand goes. -/
theorem closed_shifts (h : handle cfg s (.closed w) = .ok t) :
    Shifts s t (ofClient s w deinitCancels) [] := by
  simp only [handle, withClient] at h
  split at h
  · next hc =>
    cases h
    rw [ofClient_none hc]
    exact .of_eq rfl
  · next c hc =>
    obtain rfl := wsuPeerDeinit_ok h
    rw [ofClient_some hc]
    intro w' h'
    by_cases hw : w' = w
    · subst hw
      simp [State.Owns, hc, ClientSession.mem_deinitCancels]
    · simp [State.Owns, hw, Ne.symm hw]

theorem checkData_shifts {check : ℕ} {msg : List Attr}
    (h : handle cfg s (.checkData w check msg) = .ok t) : Shifts s t [] [] := by
  rcases withCheck_ok h with rfl | ⟨c, k, hc, hk, rfl, hsess, h⟩
  · exact .of_eq rfl
  · cases h
    have hmoves : c.Moves (c.updateCheck k.num (partAccess msg)) [] [] := .updateCheck _
    refine .update hc hmoves ?_
    simp only [wsubusAccessCheckOnRet]
    split
    · rfl
    · rfl

theorem completed_moves {ctx : PercallCtx} :
    c.Moves (c.unlinkCall ctx.num).percallCtxDestroy [.invokeRequest ctx.num] [] := by
  refine .unlinkCalls rfl (fun ctx' hctx' _ => ?_) (fun ctx' hctx' => ?_) (by simp)
  · refine ClientSession.call_mem_unlinkCall.trans ?_
    simp [hctx']
  · exact (ClientSession.call_mem_unlinkCall.mp hctx').1

theorem handle_shifts {e : Event} (hn : s.Numbered) (hl : s.Linked) (hcounted : s.Counted)
    (h : handle cfg s e = .ok t) : Shifts s t (ends s e) (starts cfg s e) := by
  cases e with
  | established w => exact established_shifts h
  | message w blob now a =>
      have hshifts : Shifts s t (ofClient s w fun _ => [])
          (ofClient s w (messageStarts cfg s w blob a)) :=
        withClient_shifts h fun c hc h => onMsg_moves hc h
      rwa [ofClient_nil] at hshifts
  | checkData w check msg => exact checkData_shifts h
  | checkComplete w check status a =>
      exact withCheck_shifts hn h fun c k hc hk h =>
        completeCheck_moves (hn w c hc) (hl w c hc) hk h
  | deferral w check a =>
      exact withCheck_shifts hn h fun c k hc hk h =>
        completeCheck_moves (hn w c hc) (hl w c hc) hk h
  | invokeData w call msg =>
      refine withInvoked_shifts hcounted h (by simp [ends]) fun c ctx hc _ _ h => ?_
      cases h
      refine .update hc (.updateCall (fun ctx => ?_) fun ctx => ?_) rfl
      · exact (wsubusCallOnRetdata_frame msg ctx).1
      · exact (wsubusCallOnRetdata_frame msg ctx).2.2.2
  | invokeComplete w call status =>
      refine withInvoked_shifts hcounted h (by simp [ends]) fun c ctx hc hfind _ h => ?_
      cases h
      obtain ⟨rfl, -⟩ := ClientSession.findCall_num hfind
      exact .update hc completed_moves rfl
  | busEvent sub type msg a =>
      simp only [handle] at h
      simp only [starts]
      cases hfind : s.findSub sub with
      | none =>
          simp only [hfind] at h ⊢
          cases h
          exact .of_eq rfl
      | some info =>
          simp only [hfind] at h ⊢
          have hshifts : Shifts s t (ofClient s info.wsi fun _ => [])
              (ofClient s info.wsi fun _ => eventStarts cfg s info type msg a) :=
            withClient_shifts h fun c hc h => subCb_moves hc h
          rwa [ofClient_nil] at hshifts
  | percallCleaner w now =>
      have hshifts : Shifts s t (ofClient s w (sweptAborts now)) (ofClient s w fun _ => []) := by
        refine withClient_shifts h fun c hc h => ?_
        cases h
        exact ⟨_, rfl, swept_moves (hcounted w c hc) now⟩
      rwa [ofClient_nil] at hshifts
  | closed w => exact closed_shifts h

/-- In every step the queues gain what is started and lose what is ended. -/
theorem owns_step {e : Event} (hi : s.Sound) (hcounted : s.Counted)
    (h : step cfg s e = .ok s') : Shifts s s' (ends s e) (starts cfg s e) := by
  obtain ⟨t, ht, rfl⟩ := step_ok h
  have hshifts := handle_shifts hi.1 hi.2 hcounted ht
  exact hshifts

end

end Owsd.Server
