import Owsd.Server.Effects

/-!
The life of a message.

This is the protocol behind the handlers, seen from one message: it comes in,
is answered at once or, if it is a call, waits for its access check, is
refused or invoked, and is answered. `Life m stage h` says that `h` is a
history, newest first, that this protocol allows for the message numbered `m`
and that leads to the given stage. What a client can observe of a single
message follows from the shapes of such histories, with no server in sight;
that the server keeps to the protocol is shown separately.
-/

namespace Owsd.Server

open Rpc

/-- Where a message stands. A call that waits for its check remembers what
the last part of rpcd's answer said. -/
inductive Stage where
  | unborn
  | waiting (w : Wsi) (blob : List Attr) (args : UbusrpcBlobCall) (last : Option Bool)
  | invoked (w : Wsi) (blob : List Attr) (args : UbusrpcBlobCall)
  | over

def Stage.OwnedBy (w : Wsi) : Stage → Prop
  | .waiting w' _ _ _ => w' = w
  | .invoked w' _ _ => w' = w
  | _ => False

/-- A completion with `allow` set: if rpcd decided, then with the status OK
after an answer whose last part allowed it. -/
def Granted (status : Option Int) (last : Option Bool) : Prop :=
  ∀ st ∈ status, st = ubusStatusOk ∧ last = some true

inductive Life (m : ℕ) : Stage → List Action → Prop
  | unborn : Life m .unborn []
  | unheard {w : Wsi} {blob : List Attr} : Life m .over [.received w m blob]
  | answered {w : Wsi} {blob resp : List Attr} :
      IsResponse (jsonrpcId blob) resp →
      Life m .over [.reply w m resp, .received w m blob]
  | failed {w : Wsi} {blob : List Attr} {x : ScalarAttrs} {args : UbusrpcBlobCall} :
      parseRequest x blob = some (.ok (.call args)) →
      Life m .over
        [.reply w m (permissionDenied (jsonrpcId blob)), .checkFail m, .received w m blob]
  | started {w : Wsi} {blob : List Attr} {x : ScalarAttrs} {args : UbusrpcBlobCall} :
      parseRequest x blob = some (.ok (.call args)) →
      Life m (.waiting w blob args none)
        [.checkStart m args.sid args.object args.method, .received w m blob]
  | data {w : Wsi} {blob : List Attr} {args : UbusrpcBlobCall} {last : Option Bool}
      {h : List Action} (d : List Attr) :
      Life m (.waiting w blob args last) h →
      Life m (.waiting w blob args (some (partAccess d))) (.checkData m d :: h)
  | refused {w : Wsi} {blob : List Attr} {args : UbusrpcBlobCall} {last : Option Bool}
      {h : List Action} (status : Option Int) :
      Life m (.waiting w blob args last) h →
      Life m .over
        (.reply w m (permissionDenied (jsonrpcId blob)) :: .checkDone m status false :: h)
  | invoked {w : Wsi} {blob : List Attr} {args : UbusrpcBlobCall} {last : Option Bool}
      {h : List Action} {status : Option Int} (params : List Attr) :
      Life m (.waiting w blob args last) h → Granted status last →
      Life m (.invoked w blob args)
        (.invoke m args.sid args.object args.method params :: .checkDone m status true :: h)
  /-- Granted, but not invoked for lack of the object or of memory. -/
  | lost {w : Wsi} {blob : List Attr} {args : UbusrpcBlobCall} {last : Option Bool}
      {h : List Action} {status : Option Int} :
      Life m (.waiting w blob args last) h → Granted status last →
      Life m .over
        (.reply w m (permissionDenied (jsonrpcId blob)) :: .checkDone m status true :: h)
  | completed {w : Wsi} {blob resp : List Attr} {args : UbusrpcBlobCall} {h : List Action} :
      Life m (.invoked w blob args) h → IsResponse (jsonrpcId blob) resp →
      Life m .over (.reply w m resp :: h)

namespace Life

variable {m : ℕ} {w : Wsi} {blob : List Attr} {args : UbusrpcBlobCall} {last : Option Bool}
  {stage : Stage} {h : List Action}

/-! ### Shapes -/

theorem unborn_shape (hl : Life m .unborn h) : h = [] := by
  cases hl
  rfl

/-- The history of a waiting call, with the parts of rpcd's answer, newest
first. -/
def waitingHistory (m : ℕ) (w : Wsi) (blob : List Attr) (args : UbusrpcBlobCall)
    (data : List (List Attr)) : List Action :=
  data.map (.checkData m) ++
    [.checkStart m args.sid args.object args.method, .received w m blob]

theorem waiting_shape (hl : Life m (.waiting w blob args last) h) :
    (∃ x, parseRequest x blob = some (.ok (.call args))) ∧
      ∃ data, h = waitingHistory m w blob args data ∧ last = data.head?.map partAccess := by
  generalize hst : Stage.waiting w blob args last = st at hl
  induction hl generalizing last with
  | started hreq =>
      cases hst
      exact ⟨⟨_, hreq⟩, [], rfl, rfl⟩
  | data d _ ih =>
      cases hst
      obtain ⟨hreq, data, rfl, -⟩ := ih rfl
      exact ⟨hreq, d :: data, rfl, rfl⟩
  | unborn => cases hst
  | unheard => cases hst
  | answered => cases hst
  | failed => cases hst
  | refused => cases hst
  | invoked => cases hst
  | lost => cases hst
  | completed => cases hst

theorem invoked_shape (hl : Life m (.invoked w blob args) h) :
    (∃ x, parseRequest x blob = some (.ok (.call args))) ∧
      ∃ data status params, Granted status (data.head?.map partAccess) ∧
        h = .invoke m args.sid args.object args.method params :: .checkDone m status true ::
          waitingHistory m w blob args data := by
  cases hl with
  | invoked params hw hg =>
      obtain ⟨hreq, data, rfl, rfl⟩ := hw.waiting_shape
      exact ⟨hreq, data, _, params, hg, rfl⟩

/-! ### Responses -/

theorem mem_waitingHistory {data : List (List Attr)} {a : Action}
    (ha : a ∈ waitingHistory m w blob args data) :
    (∃ d, a = .checkData m d) ∨ a = .checkStart m args.sid args.object args.method ∨
      a = .received w m blob := by
  rcases List.mem_append.mp ha with ha | ha
  · obtain ⟨d, -, rfl⟩ := List.mem_map.mp ha
    exact Or.inl ⟨d, rfl⟩
  · exact Or.inr (by simpa using ha)

/-- What a history says of its origin: one message came in, and every reply
goes to the client it came from, with the id of the message. -/
structure Origin (m : ℕ) (w : Wsi) (blob : List Attr) (h : List Action) : Prop where
  received : ∀ w' blob', .received w' m blob' ∈ h ↔ w' = w ∧ blob' = blob
  reply : ∀ w' resp, .reply w' m resp ∈ h → w' = w ∧ IsResponse (jsonrpcId blob) resp

theorem origin_waitingHistory (data : List (List Attr)) :
    Origin m w blob (waitingHistory m w blob args data) where
  received := by simp [waitingHistory]
  reply := by simp [waitingHistory]

theorem Origin.cons_reply {resp : List Attr} (ho : Origin m w blob h)
    (hr : IsResponse (jsonrpcId blob) resp) : Origin m w blob (.reply w m resp :: h) where
  received := by simpa using ho.received
  reply := by
    intro w' resp' hmem
    rcases List.mem_cons.mp hmem with heq | hmem
    · cases heq
      exact ⟨rfl, hr⟩
    · exact ho.reply w' resp' hmem

theorem Origin.cons {a : Action} (ho : Origin m w blob h)
    (hreceived : ∀ w' blob', a ≠ .received w' m blob') (hreply : ∀ w' resp, a ≠ .reply w' m resp) :
    Origin m w blob (a :: h) where
  received := by
    intro w' blob'
    rw [List.mem_cons, ho.received]
    simp [(hreceived w' blob').symm]
  reply := by
    intro w' resp hmem
    rcases List.mem_cons.mp hmem with heq | hmem
    · exact absurd heq.symm (hreply w' resp)
    · exact ho.reply w' resp hmem

theorem origin_received : Origin m w blob [.received w m blob] where
  received := by simp
  reply := by simp

theorem origin (hl : Life m stage h) : h = [] ∨ ∃ w blob, Origin m w blob h := by
  cases hl with
  | unborn => exact Or.inl rfl
  | unheard => exact Or.inr ⟨_, _, origin_received⟩
  | answered hr => exact Or.inr ⟨_, _, origin_received.cons_reply hr⟩
  | failed _ =>
      exact Or.inr ⟨_, _, (origin_received.cons (by simp) (by simp)).cons_reply
        (isResponse_ubus _ _ _)⟩
  | started _ => exact Or.inr ⟨_, _, origin_received.cons (by simp) (by simp)⟩
  | data d hw =>
      obtain ⟨-, data, rfl, -⟩ := hw.waiting_shape
      exact Or.inr ⟨_, _, (origin_waitingHistory data).cons (by simp) (by simp)⟩
  | refused status hw =>
      obtain ⟨-, data, rfl, -⟩ := hw.waiting_shape
      exact Or.inr ⟨_, _, ((origin_waitingHistory data).cons (by simp) (by simp)).cons_reply
        (isResponse_ubus _ _ _)⟩
  | invoked params hw _ =>
      obtain ⟨-, data, rfl, -⟩ := hw.waiting_shape
      exact Or.inr ⟨_, _, ((origin_waitingHistory data).cons (by simp) (by simp)).cons
        (by simp) (by simp)⟩
  | lost hw _ =>
      obtain ⟨-, data, rfl, -⟩ := hw.waiting_shape
      exact Or.inr ⟨_, _, ((origin_waitingHistory data).cons (by simp) (by simp)).cons_reply
        (isResponse_ubus _ _ _)⟩
  | completed hinv hr =>
      obtain ⟨-, data, status, params, -, rfl⟩ := hinv.invoked_shape
      exact Or.inr ⟨_, _, (((origin_waitingHistory data).cons (by simp) (by simp)).cons
        (by simp) (by simp)).cons_reply hr⟩

/-! ### Invocations and refusals -/

/-- What stands before an invocation, and before the completion of a check
that allows it. -/
def Founded (m : ℕ) (past : List Action) : Action → Prop
  | .invoke _ sid object method _ =>
      ∃ w blob args data status, (∃ x, parseRequest x blob = some (.ok (.call args))) ∧
        args.sid = sid ∧ args.object = object ∧ args.method = method ∧
        past = .checkDone m status true :: waitingHistory m w blob args data
  | .checkDone _ status true =>
      ∃ w blob args data, Granted status (data.head?.map partAccess) ∧
        past = waitingHistory m w blob args data
  | _ => True

theorem founded_waitingHistory (data : List (List Attr)) :
    Each (Founded m) (waitingHistory m w blob args data) := by
  have hfirst : Each (Founded m)
      [.checkStart m args.sid args.object args.method, .received w m blob] :=
    ⟨trivial, trivial, trivial⟩
  refine hfirst.append _ fun a ha past => ?_
  obtain ⟨d, -, rfl⟩ := List.mem_map.mp ha
  trivial

theorem founded (hl : Life m stage h) : Each (Founded m) h := by
  cases hl with
  | unborn => trivial
  | unheard => exact ⟨trivial, trivial⟩
  | answered _ => exact ⟨trivial, trivial, trivial⟩
  | failed _ => exact ⟨trivial, trivial, trivial, trivial⟩
  | started _ => exact ⟨trivial, trivial, trivial⟩
  | data d hw =>
      obtain ⟨-, data, rfl, -⟩ := hw.waiting_shape
      exact ⟨trivial, founded_waitingHistory data⟩
  | refused status hw =>
      obtain ⟨-, data, rfl, -⟩ := hw.waiting_shape
      exact ⟨trivial, trivial, founded_waitingHistory data⟩
  | invoked params hw hg =>
      obtain ⟨hreq, data, rfl, rfl⟩ := hw.waiting_shape
      exact ⟨⟨_, _, _, data, _, hreq, rfl, rfl, rfl, rfl⟩, ⟨_, _, _, data, hg, rfl⟩,
        founded_waitingHistory data⟩
  | lost hw hg =>
      obtain ⟨-, data, rfl, rfl⟩ := hw.waiting_shape
      exact ⟨trivial, ⟨_, _, _, data, hg, rfl⟩, founded_waitingHistory data⟩
  | completed hinv _ =>
      obtain ⟨hreq, data, status, params, hg, rfl⟩ := hinv.invoked_shape
      exact ⟨trivial, ⟨_, _, _, data, _, hreq, rfl, rfl, rfl, rfl⟩, ⟨_, _, _, data, hg, rfl⟩,
        founded_waitingHistory data⟩

/-- The reply to the message `m`. -/
def answers (m : ℕ) : Action → Bool
  | .reply _ n _ => n = m
  | _ => false

/-- The check of the call `m` was refused or could not be started. -/
def Denied (m : ℕ) (h : List Action) : Prop :=
  .checkFail m ∈ h ∨ ∃ status, .checkDone m status false ∈ h

theorem not_denied_waitingHistory (data : List (List Attr)) :
    ¬ Denied m (waitingHistory m w blob args data) := by
  simp [Denied, waitingHistory]

theorem filter_answers_waitingHistory (data : List (List Attr)) :
    (waitingHistory m w blob args data).filter (answers m) = [] := by
  rw [List.filter_eq_nil_iff]
  intro a ha
  rcases mem_waitingHistory ha with ⟨d, rfl⟩ | rfl | rfl
  all_goals simp [answers]

theorem denied (hl : Life m stage h) (hd : Denied m h) :
    (∀ n sid object method params, .invoke n sid object method params ∉ h) ∧
      ∃ w blob, .received w m blob ∈ h ∧
        h.filter (answers m) = [.reply w m (permissionDenied (jsonrpcId blob))] := by
  cases hl with
  | unborn => simp [Denied] at hd
  | unheard => simp [Denied] at hd
  | answered _ => simp [Denied] at hd
  | @failed w blob _ args _ => exact ⟨by simp, w, blob, by simp, by simp [answers]⟩
  | started _ => simp [Denied] at hd
  | data d hw =>
      obtain ⟨-, data, rfl, -⟩ := hw.waiting_shape
      exact absurd (by simpa [Denied] using hd) (not_denied_waitingHistory data)
  | @refused w blob args last h status hw =>
      obtain ⟨-, data, rfl, -⟩ := hw.waiting_shape
      refine ⟨by simp [waitingHistory], w, blob, by simp [waitingHistory], ?_⟩
      simp [answers, filter_answers_waitingHistory]
  | invoked params hw _ =>
      obtain ⟨-, data, rfl, -⟩ := hw.waiting_shape
      exact absurd (by simpa [Denied] using hd) (not_denied_waitingHistory data)
  | lost hw _ =>
      obtain ⟨-, data, rfl, -⟩ := hw.waiting_shape
      exact absurd (by simpa [Denied] using hd) (not_denied_waitingHistory data)
  | completed hinv _ =>
      obtain ⟨-, data, status, params, -, rfl⟩ := hinv.invoked_shape
      exact absurd (by simpa [Denied] using hd) (not_denied_waitingHistory data)

end Life

end Owsd.Server
