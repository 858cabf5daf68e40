import Owsd.Server.Effects

/-!
When a step of the server faults.

`Faulty` lists the faults a callback can run into, each with what it finds in
the state it starts from; `step_fault` is the counterpart of `step_effect`
for the steps that do not come to an end.
-/

namespace Owsd.Server

open Rpc

/-- The faults of a callback in state `s`. -/
inductive Faulty (s : State) : Event → Fault → Prop
  /-- Starting an access check faults on its own; the rest of the state plays
  no part in it. -/
  | startCheck {e : Event} {f : Fault} :
      f = .callReadAsNotif ∨ f = .freedName → Faulty s e f
  /-- A scalar argument of a call leads the parser out of the message. -/
  | scalarAttrs {w : Wsi} {c : ClientSession} {blob : List Attr} {now : Timespec}
      {a : MessageAnswers} :
      s.clients w = some c → c.rpcQLen.toNat ≤ s.reqMax →
      parseRequest a.scalarAttrs blob = none →
      Faulty s (.message w blob now a) .scalarAttrs
  | absentId {w : Wsi} {c : ClientSession} {blob : List Attr} {now : Timespec}
      {a : MessageAnswers} {args : UbusrpcBlobList} :
      s.clients w = some c → c.rpcQLen.toNat ≤ s.reqMax →
      parseRequest a.scalarAttrs blob = some (.ok (.list args)) → jsonrpcId blob = none →
      Faulty s (.message w blob now a) .absentId
  | typeOutOfRange {e : Event} : Faulty s e .typeOutOfRange
  | destroyedCall {w : Wsi} {c : ClientSession} {k : AccessCheck} {call : ℕ} {e : Event} :
      s.clients w = some c → k ∈ c.accessCheckQ → k.ctx = .call call →
      c.findCall call = none → Faulty s e .destroyedCall
  | destroyedSub {w : Wsi} {c : ClientSession} {k : AccessCheck} {t : EvNotif} {e : Event} :
      s.clients w = some c → k ∈ c.accessCheckQ → k.ctx = .event t →
      s.findSub t.info = none → Faulty s e .destroyedSub
  | destroyedCheck {w : Wsi} {c : ClientSession} {k : AccessCheck} {call : ℕ} {e : Event} :
      s.clients w = some c → k ∈ c.accessCheckQ → k.ctx = .call call →
      c.findCall call = none → Faulty s e .destroyedCheck

/-! ### Faults of the handlers -/

theorem tlsObject_fault {cfg : Config} {ctx : Option CheckCtx} {object : CString} {f : Fault}
    (h : tlsObject cfg ctx object = .error f) : f = .callReadAsNotif := by
  simp only [tlsObject] at h
  split at h
  · cases h
  · split at h
    · split at h
      · cases h
        rfl
      · split at h
        all_goals cases h
    · cases h

theorem accessCheck_fault {cfg : Config} {w : Wsi} {a : CheckAnswers} {sid : CString}
    {scope : Option CString} {object method : CString} {args : Option (List Attr)}
    {ctx : Option CheckCtx} {f : Fault}
    (h : wsubusAccessCheck cfg w a sid scope object method args ctx = .error f) :
    f = .callReadAsNotif ∨ f = .freedName := by
  simp only [wsubusAccessCheck] at h
  split at h
  · next f' hext =>
    cases h
    -- Of the checkers only the one for certificates reads the context.
    simp only [extCheck] at hext
    split at hext
    · cases hext
    · split at hext
      · cases hext
      · split at hext
        · split at hext
          · next hobj =>
            cases hext
            exact Or.inl (tlsObject_fault hobj)
          · cases hext
        · cases hext
  · split at h
    · cases h
    · cases h
    · split at h
      · cases h
        exact Or.inr rfl
      · cases h

theorem bind_fault {α β : Type} {x : Except Fault α} {g : α → Except Fault β} {f : Fault}
    (h : x >>= g = .error f) : x = .error f ∨ ∃ a, x = .ok a ∧ g a = .error f := by
  cases x with
  | error f' =>
      cases h
      exact Or.inl rfl
  | ok a => exact Or.inr ⟨a, rfl, h⟩

theorem mapM_fault {α β : Type} {g : α → Except Fault β} {l : List α} {f : Fault}
    (h : l.mapM g = .error f) : ∃ x ∈ l, g x = .error f := by
  induction l with
  | nil => cases h
  | cons x l ih =>
      rw [List.mapM_cons] at h
      rcases bind_fault h with hx | ⟨y, -, hrest⟩
      · exact ⟨x, List.mem_cons_self, hx⟩
      · rcases bind_fault hrest with hl | ⟨ys, -, hpure⟩
        · obtain ⟨x', hx', hf⟩ := ih hl
          exact ⟨x', List.mem_cons_of_mem x hx', hf⟩
        · cases hpure

theorem lookupArg_fault {arg : Attr} {f : Fault} (h : lookupArg arg = .error f) :
    f = .typeOutOfRange := by
  simp only [lookupArg] at h
  split at h
  · split at h
    · next hstr =>
      cases h
      simp only [blobmsgTypeToStr] at hstr
      split at hstr
      all_goals cases hstr
      rfl
    · cases h
  · cases h

theorem ubusLookupCb_fault {cfg : Config} {sid : CString} {obj : UbusObjectData} {f : Fault}
    (h : ubusLookupCb cfg sid obj = .error f) : f = .typeOutOfRange := by
  simp only [ubusLookupCb] at h
  split at h
  · cases h
  · rcases bind_fault h with hmethods | ⟨methods, -, hpure⟩
    · obtain ⟨m, -, hm⟩ := mapM_fault hmethods
      split at hm
      · rcases bind_fault hm with hargs | ⟨args, -, hpure⟩
        · obtain ⟨arg, -, harg⟩ := mapM_fault hargs
          exact lookupArg_fault harg
        · cases hpure
      · cases hm
    · cases hpure

theorem handleRequest_fault {cfg : Config} {s : State} {w : Wsi} {c : ClientSession}
    {req : UbusrpcBlob} {id : Option Attr} {now : Timespec} {a : MessageAnswers} {f : Fault}
    (h : handleRequest cfg s w c req id now a = .error f) :
    (f = .callReadAsNotif ∨ f = .freedName) ∨ f = .typeOutOfRange ∨
      f = .absentId ∧ id = none ∧ ∃ args, req = .list args := by
  cases req with
  | call args =>
      simp only [handleRequest, handleCallUbus] at h
      split at h
      · next hcheck =>
        cases h
        simp only [wsubusCallDoCheckThenDoCall] at hcheck
        split at hcheck
        · cases hcheck
        · split at hcheck
          · next hstart =>
            cases hcheck
            exact Or.inl (accessCheck_fault hstart)
          · split at hcheck
            all_goals cases hcheck
      · cases h
      · cases h
  | list args =>
      simp only [handleRequest, ubusrpcHandleList] at h
      split at h
      · cases h
        exact Or.inr (Or.inr ⟨rfl, rfl, args, rfl⟩)
      · split at h
        · next hobjs =>
          cases h
          obtain ⟨obj, -, hobj⟩ := mapM_fault hobjs
          exact Or.inr (Or.inl (ubusLookupCb_fault hobj))
        · cases h
  | sub args => cases h
  | subList args => cases h
  | unsub args => cases h

theorem completeCheck_fault {cfg : Config} {s : State} {w : Wsi} {c : ClientSession}
    {k : AccessCheck} {status : Option Int} {allow : Bool} {a : InvokeAnswers} {e : Event}
    {f : Fault} (hc : s.clients w = some c) (hk : k ∈ c.accessCheckQ)
    (h : completeCheck cfg s w c k status allow a = .error f) : Faulty s e f := by
  simp only [completeCheck] at h
  split at h
  · next call hctx =>
    simp only [wsubusAccessOnCompleted] at h
    split at h
    · next hfind =>
      cases h
      exact .destroyedCall hc hk hctx hfind
    · split at h
      · split at h
        · cases h
        · split at h
          all_goals cases h
      · cases h
  · next t hctx =>
    simp only [wsubusEvCheckCb] at h
    split at h
    · split at h
      · next hfind =>
        cases h
        exact .destroyedSub hc hk hctx hfind
      · cases h
    · cases h

/-! ### Faults of a step -/

theorem withClient_fault {s : State} {w : Wsi} {g : ClientSession → Except Fault State}
    {f : Fault} (h : withClient s w g = .error f) :
    ∃ c, s.clients w = some c ∧ g c = .error f := by
  simp only [withClient] at h
  split at h
  · cases h
  · next c hc => exact ⟨c, hc, h⟩

theorem withCheck_fault {s : State} {w : Wsi} {check : ℕ} {session : Bool}
    {g : ClientSession → AccessCheck → Except Fault State} {f : Fault}
    (h : withCheck s w check session g = .error f) :
    ∃ c k, s.clients w = some c ∧ k ∈ c.accessCheckQ ∧ g c k = .error f := by
  obtain ⟨c, hc, h⟩ := withClient_fault h
  split at h
  · cases h
  · next k hk =>
    split at h
    · exact ⟨c, k, hc, List.mem_of_find?_eq_some hk, h⟩
    · cases h

theorem withInvoked_fault {s : State} {w : Wsi} {call : ℕ}
    {g : ClientSession → PercallCtx → Except Fault State} {f : Fault}
    (h : withInvoked s w call g = .error f) : ∃ c ctx, g c ctx = .error f := by
  obtain ⟨c, -, h⟩ := withClient_fault h
  split at h
  · cases h
  · next ctx _ =>
    split at h
    · exact ⟨c, ctx, h⟩
    · cases h

theorem handle_fault {cfg : Config} {s : State} {e : Event} {f : Fault}
    (h : handle cfg s e = .error f) : Faulty s e f := by
  cases e with
  | established w =>
      simp only [handle] at h
      split at h
      all_goals cases h
  | message w blob now a =>
      obtain ⟨c, hc, h⟩ := withClient_fault h
      simp only [wsuOnMsgFromClient] at h
      split at h
      · cases h
      · next hquota =>
        split at h
        · next hreq =>
          cases h
          exact .scalarAttrs hc (Nat.le_of_not_lt hquota) hreq
        · cases h
        · next req hreq =>
          split at h
          · next hhandle =>
            cases h
            rcases handleRequest_fault hhandle with hf | rfl | ⟨rfl, hid, args, rfl⟩
            · exact .startCheck hf
            · exact .typeOutOfRange
            · exact .absentId hc (Nat.le_of_not_lt hquota) hreq hid
          · cases h
  | checkData w check msg =>
      obtain ⟨c, k, -, -, h⟩ := withCheck_fault h
      cases h
  | checkComplete w check status a =>
      obtain ⟨c, k, hc, hk, h⟩ := withCheck_fault h
      exact completeCheck_fault hc hk h
  | deferral w check a =>
      obtain ⟨c, k, hc, hk, h⟩ := withCheck_fault h
      exact completeCheck_fault hc hk h
  | invokeData w call msg =>
      obtain ⟨c, ctx, h⟩ := withInvoked_fault h
      cases h
  | invokeComplete w call status =>
      obtain ⟨c, ctx, h⟩ := withInvoked_fault h
      cases h
  | busEvent sub type msg a =>
      simp only [handle] at h
      split at h
      · cases h
      · obtain ⟨c, -, h⟩ := withClient_fault h
        simp only [wsubusSubCb] at h
        split at h
        · cases h
        · split at h
          · next hcheck =>
            cases h
            exact .startCheck (accessCheck_fault hcheck)
          · split at h
            all_goals cases h
  | percallCleaner w now =>
      obtain ⟨c, -, h⟩ := withClient_fault h
      cases h
  | closed w =>
      obtain ⟨c, hc, h⟩ := withClient_fault h
      simp only [wsuPeerDeinit] at h
      split at h
      · next hany =>
        cases h
        obtain ⟨k, hk, hdangling⟩ := List.any_eq_true.mp hany
        simp only [ClientSession.dangling] at hdangling
        split at hdangling
        · next call hctx =>
          exact .destroyedCheck hc hk hctx (Option.isNone_iff_eq_none.mp hdangling)
        · cases hdangling
      · cases h

theorem step_fault {cfg : Config} {s : State} {e : Event} {f : Fault}
    (h : step cfg s e = .error f) : Faulty s e f := by
  simp only [step] at h
  split at h
  · cases h
  · next hhandle =>
    cases h
    exact handle_fault hhandle

end Owsd.Server
