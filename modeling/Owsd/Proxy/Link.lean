import Owsd.Basis.Mirror
import Owsd.Proxy.CallIds
import Owsd.Proxy.StubSet

/-!
A proxy and the server it follows.

The server adds and removes objects at any time, announces each change by an
event some time later, and answers a `list` with the objects it has at that
moment. Messages arrive in the order in which they were sent, both ways. Calls
on the stubs, their replies and other events happen in between.

The proxy is `onReceive` and `step` of `Remote`, except that a reply to the
`list` it waits for is taken to be merged as it should be (`Takes`). Where the
merge of the code comes to an end, on a reply that is sorted, that is what it
does (`receives_of_ok`).
-/

namespace Owsd.Proxy

open LinkedList RemoteBus Rpc

/-! ### What the server sends -/

/-- The message is an event with a path: one about an object. -/
def IsObjectEvent (type path : CString) (msg : Json) : Prop :=
  msg.getEx (.ofString "result") = none ∧
    msg.getEx (.ofString "method") = some (.string (.ofString "event")) ∧
    ∃ params data, msg.getEx (.ofString "params") = some (.object params) ∧
      (Json.object params).getEx (.ofString "type") = some (.string type) ∧
      (Json.object params).getEx (.ofString "data") = some data ∧
      data.getEx (.ofString "path") = some (.string path)

def IsPlainEvent (msg : Json) : Prop :=
  msg.getEx (.ofString "result") = none ∧
    msg.getEx (.ofString "method") = some (.string (.ofString "event")) ∧
    ∃ params type, msg.getEx (.ofString "params") = some (.object params) ∧
      (Json.object params).getEx (.ofString "type") = some (.string type) ∧
      type ≠ .ofString "ubus.object.add" ∧ type ≠ .ofString "ubus.object.remove"

def IsCallReply (log : List Action) (msg : Json) : Prop :=
  ∃ result id ureq, msg.getEx (.ofString "result") = some result ∧ msgId msg = .int id ∧
    .deferred ureq id ∈ log

def Granted (result : Json) : Prop := result.isArray = true ∧ (result.arrayGetIdx 0).getInt = 0

def IsList (msg : Json) (list : List (CString × Signature)) : Prop :=
  ∃ result members, msg.getEx (.ofString "result") = some result ∧ Granted result ∧
    result.arrayGetIdx 1 = .object members ∧ List.Forall₂ IsListed members list

theorem IsList.unique {msg : Json} {list list' : List (CString × Signature)} (h : IsList msg list)
    (h' : IsList msg list') : list = list' := by
  obtain ⟨result, members, hresult, -, hmembers, hlisted⟩ := h
  obtain ⟨result', members', hresult', -, hmembers', hlisted'⟩ := h'
  obtain rfl : result = result' := Option.some.inj (hresult.symm.trans hresult')
  obtain rfl : members = members' := Json.object.inj (hmembers.symm.trans hmembers')
  refine List.right_unique_forall₂' (fun obj a b ha hb => ?_) hlisted hlisted'
  exact Prod.ext (ha.1.symm.trans hb.1) (Option.some.inj (ha.2.symm.trans hb.2))

inductive ServerMessage where
  /-- The acknowledgement of `listen`. -/
  | subscribed
  | event (change : Mirror.Notice CString)
  /-- The reply to a `list`, with the objects at the time. -/
  | list (id : Int) (objects : CString → Option Signature)
  | other (msg : Json)

def ServerMessage.IsWritten (msg : Json) : ServerMessage → Prop
  | subscribed => ∃ result, msg.getEx (.ofString "result") = some result ∧ Granted result
  | event (.added name) => IsObjectEvent (.ofString "ubus.object.add") name msg
  | event (.removed name) => IsObjectEvent (.ofString "ubus.object.remove") name msg
  | list id objects => msgId msg = .int id ∧
      ∃ list, IsList msg list ∧ ∀ name s, (name, s) ∈ list ↔ objects name = some s
  | other msg' => msg = msg'

/-! ### The proxy -/

/-- The stubs after a reply: every listed object that is accepted is added, or
its stub replaced if the signature differs, and nothing else changes. -/
structure Takes (accepts : CString → Bool) (list : List (CString × Signature))
    (before after : Stubs) : Prop where
  merged : Merged accepts before.registered after.registered list
  accepted : ∀ stub ∈ after.registered, stub ∈ before.registered ∨ accepts stub.key = true
  single : after.refused = []

def Awaits (r : RemoteBus) (msg : Json) (list : List (CString × Signature)) : Prop :=
  r.waitingFor.login = false ∧ r.waitingFor.listen = false ∧ r.isListReply (msgId msg) = true ∧
    IsList msg list

/-- The connection after the reply to a `list`. -/
def RemoteBus.listed (r : RemoteBus) (msg : Json) (stubs : Stubs) : RemoteBus :=
  { r.emit [.received msg] with
    stubs := stubs
    waitingFor := { r.waitingFor with listId := 0 } }

/-- `LWS_CALLBACK_CLIENT_RECEIVE`, with a merge that does what it is for. -/
inductive Receives (M : Allocator) (accepts : CString → Bool) (r : RemoteBus) (msg : Json) :
    RemoteBus → Prop
  | code {r' : RemoteBus} : (∀ list, ¬ Awaits r msg list) → r.onReceive M accepts msg = .ok r' →
      Receives M accepts r msg r'
  | merged {list : List (CString × Signature)} {stubs : Stubs} : Awaits r msg list →
      Takes accepts list r.stubs stubs → Receives M accepts r msg (r.listed msg stubs)

/-! ### The two together -/

/-- The id of a `list` that was sent. -/
def Action.list? : Action → Option Int
  | .sent (.list id _ _) => some id
  | _ => none

/-- The ids of all `list`s that were sent, from the oldest on. -/
def listIds (log : List Action) : List Int := (log.filterMap Action.list?).reverse

structure Link where
  objects : CString → Option Signature
  /-- Changes whose event was not sent yet. -/
  pending : List (Mirror.Notice CString)
  toClient : List ServerMessage
  /-- The number of `list`s the server has answered. -/
  answered : ℕ
  client : RemoteBus

namespace Link

/-- The `list`s that the server has not answered. -/
def toServer (s : Link) : List Int := (listIds s.client.log).drop s.answered

/-- A change of the objects, an event or a reply of the server, a call on a
stub, or a message that arrives. -/
inductive Step (M : Allocator) (accepts : CString → Bool) : Link → Link → Prop
  | add (s : Link) (name : CString) (signature : Signature) : s.objects name = none →
      Step M accepts s { s with
        objects := Function.update s.objects name (some signature)
        pending := s.pending ++ [.added name] }
  | remove (s : Link) (name : CString) : s.objects name ≠ none →
      Step M accepts s { s with
        objects := Function.update s.objects name none
        pending := s.pending ++ [.removed name] }
  | announce (s : Link) (change : Mirror.Notice CString) (rest : List (Mirror.Notice CString)) :
      s.pending = change :: rest →
      Step M accepts s { s with pending := rest, toClient := s.toClient ++ [.event change] }
  | answer (s : Link) (id : Int) (rest : List Int) : s.toServer = id :: rest →
      Step M accepts s { s with
        answered := s.answered + 1
        toClient := s.toClient ++ [.list id s.objects] }
  | other (s : Link) (msg : Json) : IsCallReply s.client.log msg ∨ IsPlainEvent msg →
      Step M accepts s { s with toClient := s.toClient ++ [.other msg] }
  | call (s : Link) (object method : CString) (args : List Attr) (r' : RemoteBus) :
      step M accepts s.client (.call object method args) = .ok r' →
      Step M accepts s { s with client := r' }
  | deliver (s : Link) (m : ServerMessage) (rest : List ServerMessage) (msg : Json)
      (r' : RemoteBus) : s.toClient = m :: rest → m.IsWritten msg →
      Receives M accepts s.client msg r' →
      Step M accepts s { s with toClient := rest, client := r' }

/-- The server has acknowledged the `listen` of a new connection, and sent
nothing else yet. -/
structure Start (s : Link) : Prop where
  wellFormed : WellFormed s.client
  waiting : s.client.waitingFor.login = false ∧ s.client.waitingFor.listen = true ∧
    s.client.waitingFor.listId = 0
  stubs : s.client.stubs = .empty
  log : listIds s.client.log = []
  pending : s.pending = []
  toClient : s.toClient = [.subscribed]
  answered : s.answered = 0

end Link

/-! ### The merge of the code -/

section

variable {M : Allocator} {accepts : CString → Bool} {P : LocalStub → Prop}

@[simp] theorem waitingFor_emit (r : RemoteBus) (acts : List Action) :
    (r.emit acts).waitingFor = r.waitingFor := rfl

@[simp] theorem isListReply_emit (r : RemoteBus) (acts : List Action) (id : Json) :
    (r.emit acts).isListReply id = r.isListReply id := rfl

theorem mem_insert {st : Stubs} {new stub : LocalStub}
    (hfresh : new.addr ∉ (st.tree ++ st.refused).map LocalStub.addr)
    (h : stub ∈ (st.insert new hfresh).registered) : stub = new ∨ stub ∈ st.registered := by
  rw [Stubs.registered, Stubs.insert] at h
  split at h
  · simpa [Stubs.registered, or_left_comm] using h
  · simpa [Stubs.registered, (insertStub_perm new st.tree).mem_iff, or_assoc] using h

theorem stubs_advance {m m' : Merge} {last : Place} {name : CString}
    (h : m.advance last name = .ok m') : m'.stubs = m.stubs := by
  rw [Merge.advance] at h
  split at h
  · cases h
    rfl
  · obtain ⟨ptr, -, h⟩ := bind_ok h
    obtain ⟨out, -, h⟩ := bind_ok h
    cases h
    rfl

theorem forall_create {m : Merge} (obj : CString × Signature)
    (hP : ∀ stub, accepts stub.key = true → P stub) (hm : ∀ stub ∈ m.stubs.registered, P stub) :
    ∀ stub ∈ (m.create M accepts obj).stubs.registered, P stub := by
  intro stub hstub
  rw [Merge.create] at hstub
  split at hstub
  · next haccept =>
    rcases mem_insert (M.fresh obj.1 _) hstub with rfl | hstub
    · exact hP _ haccept
    · exact hm stub hstub
  · exact hm stub hstub

theorem forall_object {m m' : Merge} {last : Place} {obj : CString × Signature}
    (hP : ∀ stub, accepts stub.key = true → P stub) (hm : ∀ stub ∈ m.stubs.registered, P stub)
    (h : m.object M accepts last obj = .ok m') : ∀ stub ∈ m'.stubs.registered, P stub := by
  obtain ⟨m₁, hadvance, h⟩ := bind_ok h
  rw [← stubs_advance hadvance] at hm
  split at h
  · cases h
    exact forall_create obj hP hm
  · split at h
    · cases h
    · obtain ⟨old, -, h⟩ := bind_ok h
      split at h
      · cases h
        exact hm
      · cases h
        refine forall_create obj hP fun stub hstub => hm stub ?_
        have hsub : (m₁.stubs.wsuLocalStubDestroy old).registered.Sublist m₁.stubs.registered :=
          List.filter_sublist.append_right _
        exact hsub.subset hstub

theorem forall_foldlM {last : Place} {list : List (CString × Signature)} {m m' : Merge}
    (hP : ∀ stub, accepts stub.key = true → P stub) (hm : ∀ stub ∈ m.stubs.registered, P stub)
    (h : list.foldlM (Merge.object M accepts last) m = .ok m') :
    ∀ stub ∈ m'.stubs.registered, P stub := by
  induction list generalizing m with
  | nil =>
      cases h
      exact hm
  | cons obj rest ih =>
      rw [List.foldlM_cons] at h
      obtain ⟨m₁, hobj, hrest⟩ := bind_ok h
      exact ih (forall_object hP hm hobj) hrest

theorem stubs_start (st : Stubs) (list : List (CString × Signature)) :
    (Merge.start st list).stubs = st := by
  unfold Merge.start
  split
  · rfl
  · split <;> rfl

/-- On a sorted reply, a merge that comes to an end does what it is for. -/
theorem takes_of_mergeList {st st' : Stubs} {list : List (CString × Signature)}
    (hst : st.refused = []) (hlist : list.Pairwise fun a b => a.1 < b.1)
    (h : mergeList M accepts st list = .ok st') : Takes accepts list st st' := by
  obtain ⟨hsafe, hfail⟩ := mergeList_cases M accepts hst hlist
  by_cases hs : MergeSafe accepts st list
  · obtain ⟨st₁, hmerge, hrefused, hmerged⟩ := hsafe hs
    obtain rfl : st₁ = st' := by simpa [hmerge] using h
    refine ⟨?_, ?_, hrefused⟩
    · simpa [Stubs.registered, hst, hrefused] using hmerged
    · obtain ⟨m, hfold, hm⟩ := bind_ok h
      cases hm
      refine forall_foldlM (fun _ => .inr) (fun stub hstub => .inl ?_) hfold
      rwa [stubs_start] at hstub
  · rw [hfail hs] at h
    cases h

theorem onList_ok {r r' : RemoteBus} {result : Json} {members : List (CString × Json)}
    (hgranted : Granted result) (hmembers : result.arrayGetIdx 1 = .object members)
    (h : r.onList M accepts result = .ok r') :
    ∃ stubs, mergeReply M accepts r.stubs members = .ok stubs ∧
      r' = { r with stubs := stubs, waitingFor := { r.waitingFor with listId := 0 } } := by
  rw [onList, if_neg (by simp [hgranted.1, hgranted.2]), hmembers] at h
  obtain ⟨stubs, hmerge, hr'⟩ := bind_ok h
  cases hr'
  exact ⟨stubs, hmerge, rfl⟩

/-- The receive callback of the code is one of the ways to receive a message,
when the reply it waits for is sorted. -/
theorem receives_of_ok {r r' : RemoteBus} {msg : Json} (hr : r.stubs.refused = [])
    (hsorted : ∀ list, Awaits r msg list → list.Pairwise fun a b => a.1 < b.1)
    (h : r.onReceive M accepts msg = .ok r') : Receives M accepts r msg r' := by
  by_cases hlist : ∃ list, Awaits r msg list
  · obtain ⟨list, hawaits⟩ := hlist
    obtain ⟨hlogin, hlisten, hreply, result, members, hresult, hgranted, hmembers, hlisted⟩ :=
      id hawaits
    have hon : r.onReceive M accepts msg = (r.emit [.received msg]).onList M accepts result := by
      simp [onReceive, hresult, onResult, hlogin, hlisten, hreply]
    obtain ⟨stubs, hmerge, rfl⟩ := onList_ok hgranted hmembers (hon ▸ h)
    rw [mergeReply_eq hlisted] at hmerge
    refine .merged hawaits (takes_of_mergeList (M := M) hr (hsorted list hawaits) ?_)
    cases hmerge' : mergeList M accepts r.stubs list with
    | error f => simp [emit, hmerge', Except.mapError] at hmerge
    | ok st => simpa [emit, hmerge', Except.mapError] using hmerge
  · exact .code (not_exists.mp hlist) h

end

/-! ### The start of a connection -/

/-- Without rpcd, a new connection waits for the acknowledgement at once. -/
theorem start_established (h : Handshake) (hrpcd : h.rpcdIntegration = false)
    (objects : CString → Option Signature) :
    Link.Start ⟨objects, [], [.subscribed], 0, h.established⟩ := by
  have hw := wellFormed_established h
  simp only [Handshake.established, hrpcd] at hw ⊢
  exact ⟨hw, ⟨rfl, rfl, rfl⟩, rfl, rfl, rfl, rfl, rfl⟩

theorem start_login {M : Allocator} {accepts : CString → Bool} (h : Handshake) {name sid : CString}
    (hrpcd : h.rpcdIntegration = true) (hname : h.certName = some name) {msg result : Json}
    (hresult : msg.getEx (.ofString "result") = some result) (hgranted : Granted result)
    (hsid : (result.arrayGetIdx 1).getEx (.ofString "ubus_rpc_session") = some (.string sid))
    {r' : RemoteBus} (hreceive : h.established.onReceive M accepts msg = .ok r')
    (objects : CString → Option Signature) :
    Link.Start ⟨objects, [], [.subscribed], 0, r'⟩ := by
  have hw : WellFormed r' :=
    wellFormed_step (e := .receive (some msg)) (wellFormed_established h) hreceive
  have hon : h.established.onReceive M accepts msg =
      (h.established.emit [.received msg]).onLogin result := by
    simp [onReceive, hresult, onResult, Handshake.established, hrpcd, hname, emit]
  rw [hon, onLogin, if_neg (by simp [hgranted.1, hgranted.2]), hsid] at hreceive
  obtain ⟨r₁, hnext, hr'⟩ := bind_ok hreceive
  obtain ⟨-, rfl⟩ := nextId_ok hnext
  cases hr'
  refine ⟨hw, ⟨rfl, rfl, ?_⟩, ?_, ?_, rfl, rfl, rfl⟩ <;>
    simp [Handshake.established, hrpcd, hname, emit, connected, listIds, Action.list?]

end Owsd.Proxy
