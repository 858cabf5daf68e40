import Owsd.Proxy.Cursor
import Owsd.Proxy.Effects

/-!
How the stubs of a remote change.

A step leaves them alone, destroys one, or merges the reply to a `list` into
them. While the replies are in order, as ubusd gives them, every stub on the
bus is in the tree, and no two have the same name.
-/

namespace Owsd.Proxy

open RemoteBus Rpc

inductive StubChange (M : Allocator) (accepts : CString → Bool) (r : RemoteBus) :
    Event → Stubs → Prop
  | kept (e : Event) : StubChange M accepts r e r.stubs
  | destroyed (e : Event) (stub : LocalStub) :
      StubChange M accepts r e (r.stubs.wsuLocalStubDestroy stub)
  | merged {msg result : Json} {members : List (CString × Json)} {stubs : Stubs} :
      msg.getEx (.ofString "result") = some result → r.isListReply (msgId msg) = true →
      result.arrayGetIdx 1 = .object members → mergeReply M accepts r.stubs members = .ok stubs →
      StubChange M accepts r (.receive (some msg)) stubs

section

variable {M : Allocator} {accepts : CString → Bool} {r r' : RemoteBus} {e : Event}

theorem stubs_sendList (h : r.sendList = .ok r') : r'.stubs = r.stubs := by
  obtain ⟨r₁, hnext, hr'⟩ := bind_ok h
  obtain ⟨-, rfl⟩ := nextId_ok hnext
  cases hr'
  rfl

theorem stubs_sendListen (h : r.sendListen = .ok r') : r'.stubs = r.stubs := by
  obtain ⟨r₁, hnext, hr'⟩ := bind_ok h
  obtain ⟨-, rfl⟩ := nextId_ok hnext
  cases hr'
  rfl

theorem stubs_replay (r : RemoteBus) (type : CString) (data : Json) :
    (r.replay type data).stubs = r.stubs := by
  unfold RemoteBus.replay
  split <;> rfl

theorem stubs_onLogin {result : Json} (h : r.onLogin result = .ok r') : r'.stubs = r.stubs := by
  rw [onLogin] at h
  split at h
  · cases h
    rfl
  · split at h
    · exact (stubs_sendListen h).trans rfl
    · cases h
      rfl

theorem stubs_onListen {result : Json} (h : r.onListen result = .ok r') :
    r'.stubs = r.stubs := by
  rw [onListen] at h
  split at h
  · exact (stubs_sendList h).trans rfl
  · cases h
    rfl

theorem stubs_onCallReply (r : RemoteBus) (id result : Json) :
    (r.onCallReply id result).stubs = r.stubs := by
  rw [onCallReply]
  split
  · rfl
  · split
    · rfl
    · split
      · rfl
      · rw [wsuProxiedCallFree]
        split <;> rfl

theorem stubs_handleCall {object method : CString} {args : List Attr}
    (h : r.wsuLocalStubHandleCall object method args = .ok r') : r'.stubs = r.stubs := by
  obtain ⟨r₁, hnext, hr'⟩ := bind_ok h
  obtain ⟨-, rfl⟩ := nextId_ok hnext
  simp only at hr'
  split at hr'
  · cases hr'
    rfl
  · next hsome =>
    obtain ⟨-, mask, rfl, -⟩ := wsuProxiedCallNew_eq_some hsome
    cases hr'
    rfl

theorem stubChange_onEvent {type : CString} {data : Json} (h : r.onEvent type data = .ok r') :
    StubChange M accepts r e r'.stubs := by
  rw [onEvent] at h
  split at h
  · split at h
    · exact stubs_sendList h ▸ .kept e
    · cases h
      exact stubs_replay r type _ ▸ .kept e
  · split at h
    · split at h
      · split at h
        · cases h
          exact .destroyed e _
        · cases h
          exact .kept e
      · cases h
        exact stubs_replay r type _ ▸ .kept e
    · cases h
      exact stubs_replay r type data ▸ .kept e

theorem stubChange_onMethod {msg method : Json} (h : r.onMethod msg method = .ok r') :
    StubChange M accepts r e r'.stubs := by
  cases method with
  | null => cases h
  | string method =>
      simp only [onMethod] at h
      split at h
      · cases h
        exact .kept e
      · split at h
        · split at h
          · exact stubChange_onEvent h
          · cases h
            exact .kept e
        · cases h
          exact .kept e
  | _ =>
      cases h
      exact .kept e

theorem stubChange_onResult {msg result : Json}
    (hresult : msg.getEx (.ofString "result") = some result)
    (h : r.onResult M accepts (msgId msg) result = .ok r') :
    StubChange M accepts r (.receive (some msg)) r'.stubs := by
  rw [onResult] at h
  split at h
  · exact stubs_onLogin h ▸ .kept _
  · split at h
    · exact stubs_onListen h ▸ .kept _
    · split at h
      · next hlist =>
        rw [onList] at h
        split at h
        · cases h
          exact .kept _
        · split at h
          · next members hmembers =>
            obtain ⟨stubs, hmerge, hr'⟩ := bind_ok h
            cases hr'
            exact .merged hresult hlist hmembers hmerge
          · cases h
            exact .kept _
      · split at h
        · cases h
          exact stubs_onCallReply r _ _ ▸ .kept _
        · cases h
          exact .kept _

theorem step_stubs (h : step M accepts r e = .ok r') : StubChange M accepts r e r'.stubs := by
  cases e with
  | call object method args =>
      rw [step] at h
      split at h
      · exact stubs_handleCall h ▸ .kept _
      · cases h
        exact .kept _
  | receive msg =>
      cases msg with
      | none =>
          cases h
          exact .kept _
      | some msg =>
          rw [step, onReceive] at h
          -- what came in is recorded first, which is nothing to the stubs
          have hchange : StubChange M accepts (r.emit [.received msg]) (.receive (some msg))
              r'.stubs := by
            cases hresult : msg.getEx (.ofString "result") with
            | some result =>
                rw [hresult] at h
                exact stubChange_onResult hresult h
            | none =>
                rw [hresult] at h
                simp only at h
                split at h
                · exact stubChange_onMethod h
                · cases h
                  exact .kept _
          generalize r'.stubs = stubs at hchange
          cases hchange with
          | kept => exact .kept _
          | destroyed _ stub => exact .destroyed _ stub
          | merged h₁ h₂ h₃ h₄ => exact .merged h₁ h₂ h₃ h₄

end

/-! ### Replies in order -/

/-- A message that is taken for the reply to a `list` is one, and its objects
are in order. -/
def InOrder (r : RemoteBus) : Event → Prop
  | .receive (some msg) => ∀ result members, msg.getEx (.ofString "result") = some result →
      r.isListReply (msgId msg) = true → result.arrayGetIdx 1 = .object members →
      ∃ list, List.Forall₂ IsListed members list ∧ list.Pairwise fun a b => a.1 < b.1
  | _ => True

/-- A merge that comes to an end puts every stub into the tree. -/
theorem mergeReply_refused {M : Allocator} {accepts : CString → Bool} {st st' : Stubs}
    {members : List (CString × Json)} {list : List (CString × Signature)}
    (hlisted : List.Forall₂ IsListed members list) (hlist : list.Pairwise fun a b => a.1 < b.1)
    (hst : st.refused = []) (h : mergeReply M accepts st members = .ok st') :
    st'.refused = [] := by
  rw [mergeReply_eq hlisted] at h
  obtain ⟨hsafe, hfail⟩ := mergeList_cases M accepts hst hlist
  by_cases hs : MergeSafe accepts st list
  · obtain ⟨st₁, hmerge, href, -⟩ := hsafe hs
    rw [hmerge] at h
    cases h
    exact href
  · rw [hfail hs] at h
    cases h

theorem refused_step {M : Allocator} {accepts : CString → Bool} {r r' : RemoteBus} {e : Event}
    (hord : InOrder r e) (hr : r.stubs.refused = []) (h : step M accepts r e = .ok r') :
    r'.stubs.refused = [] := by
  have hchange := step_stubs h
  generalize r'.stubs = stubs at hchange
  cases hchange with
  | kept => exact hr
  | destroyed _ stub => exact hr
  | merged hresult hlist hmembers hmerge =>
      obtain ⟨list, hlisted, hsorted⟩ := hord _ _ hresult hlist hmembers
      exact mergeReply_refused hlisted hsorted hr hmerge

theorem nodup_keys {st : Stubs} (h : st.refused = []) :
    (st.registered.map LocalStub.key).Nodup := by
  rw [Stubs.registered, h, List.append_nil]
  exact List.pairwise_map.mpr (st.sorted.imp fun hlt => hlt.ne)

end Owsd.Proxy
