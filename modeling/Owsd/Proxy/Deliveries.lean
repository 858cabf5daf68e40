import Owsd.Proxy.Link

/-!
What the messages of its server do to a proxy.

As far as the list of objects goes there are four cases: the list is asked
for, a stub is destroyed, a reply is merged, or nothing happens. The stubs are
seen as a function from names to signatures.
-/

namespace Owsd.Proxy

open LinkedList RemoteBus Rpc

/-! ### What a message does to the list -/

section

variable {log acts : List Action} {r r' : RemoteBus}

theorem listIds_append (acts log : List Action) :
    listIds (acts ++ log) = listIds log ++ listIds acts := by
  simp [listIds]

theorem listIds_eq_nil (h : ∀ a ∈ acts, a.list? = none) : listIds acts = [] := by
  rw [listIds, List.filterMap_eq_nil_iff.mpr h, List.reverse_nil]

@[simp] theorem listIds_received (msg : Json) (log : List Action) :
    listIds (.received msg :: log) = listIds log := rfl

/-- A message, or a call, that has nothing to do with the list. -/
structure Quiet (r r' : RemoteBus) : Prop where
  login : r'.waitingFor.login = r.waitingFor.login
  listen : r'.waitingFor.listen = r.waitingFor.listen
  listId : r'.waitingFor.listId = r.waitingFor.listId
  stubs : r'.stubs = r.stubs
  callId : r.callId ≤ r'.callId
  log : ∃ acts, r'.log = acts ++ r.log ∧ ∀ a ∈ acts, a.list? = none

structure Asked (r r' : RemoteBus) : Prop where
  login : r'.waitingFor.login = r.waitingFor.login
  listen : r'.waitingFor.listen = false
  listId : r'.waitingFor.listId = r.callId + 1
  stubs : r'.stubs = r.stubs
  callId : r'.callId = r.callId + 1
  log : ∃ acts, r'.log = acts ++ r.log ∧ listIds acts = [r.callId + 1]

theorem quiet_emit (h : ∀ a ∈ acts, a.list? = none) : Quiet r (r.emit acts) :=
  ⟨rfl, rfl, rfl, rfl, le_rfl, acts, rfl, h⟩

theorem Quiet.refl (r : RemoteBus) : Quiet r r :=
  ⟨rfl, rfl, rfl, rfl, le_rfl, [], rfl, by simp⟩

theorem Quiet.trans {r'' : RemoteBus} (h : Quiet r r') (h' : Quiet r' r'') : Quiet r r'' := by
  obtain ⟨acts, hlog, hacts⟩ := h.log
  obtain ⟨acts', hlog', hacts'⟩ := h'.log
  refine ⟨h'.login.trans h.login, h'.listen.trans h.listen, h'.listId.trans h.listId,
    h'.stubs.trans h.stubs, h.callId.trans h'.callId, acts' ++ acts, ?_, ?_⟩
  · rw [hlog', hlog, List.append_assoc]
  · intro a ha
    rcases List.mem_append.mp ha with ha | ha
    · exact hacts' a ha
    · exact hacts a ha

theorem Quiet.listIds_eq (h : Quiet r r') : listIds r'.log = listIds r.log := by
  obtain ⟨acts, hlog, hacts⟩ := h.log
  rw [hlog, listIds_append, listIds_eq_nil hacts, List.append_nil]

theorem Asked.listIds_eq (h : Asked r r') :
    listIds r'.log = listIds r.log ++ [r.callId + 1] := by
  obtain ⟨acts, hlog, hacts⟩ := h.log
  rw [hlog, listIds_append, hacts]

theorem asked_sendList {msg : Json} (hlisten : r.waitingFor.listen = false)
    (h : (r.emit [.received msg]).sendList = .ok r') : Asked r r' := by
  obtain ⟨r₁, hnext, hr'⟩ := bind_ok h
  obtain ⟨-, rfl⟩ := nextId_ok hnext
  cases hr'
  exact ⟨rfl, hlisten, rfl, rfl, rfl, [_, _], rfl, rfl⟩

theorem quiet_replay (type : CString) (data : Json) : Quiet r (r.replay type data) := by
  unfold RemoteBus.replay
  split <;> exact quiet_emit (by simp [Action.list?])

theorem list?_of_isAnswer {a : Action} (h : a.isAnswer = true) : a.list? = none := by
  cases a <;> first | rfl | cases h

theorem quiet_onCallReply (id result : Json) : Quiet r (r.onCallReply id result) := by
  rw [onCallReply]
  split
  · exact .refl r
  · split
    · exact .refl r
    · split
      · exact .refl r
      · next idx hfind =>
        have hanswer : Quiet r (r.emit (answer (r.calls idx).ureq result)) :=
          quiet_emit fun a ha => list?_of_isAnswer (isAnswer_of_mem_answer a ha)
        rw [wsuProxiedCallFree]
        split
        · exact ⟨hanswer.login, hanswer.listen, hanswer.listId, hanswer.stubs, hanswer.callId,
            hanswer.log⟩
        · exact hanswer

theorem quiet_handleCall {object method : CString} {args : List Attr}
    (h : r.wsuLocalStubHandleCall object method args = .ok r') : Quiet r r' := by
  obtain ⟨r₁, hnext, hr'⟩ := bind_ok h
  obtain ⟨-, rfl⟩ := nextId_ok hnext
  have hle : r.callId ≤ r.callId + 1 := by omega
  simp only at hr'
  split at hr'
  · cases hr'
    exact ⟨rfl, rfl, rfl, rfl, hle, [_], rfl, by simp [Action.list?]⟩
  · next hsome =>
    obtain ⟨-, mask, rfl, -⟩ := wsuProxiedCallNew_eq_some hsome
    cases hr'
    exact ⟨rfl, rfl, rfl, rfl, hle, [_, _], rfl, by simp [Action.list?]⟩

/-! ### The messages of the server at the proxy -/

variable {M : Allocator} {accepts : CString → Bool} {msg : Json} {name : CString}

theorem asked_subscribed (hlogin : r.waitingFor.login = false)
    (hlisten : r.waitingFor.listen = true) (hmsg : ServerMessage.subscribed.IsWritten msg)
    (h : Receives M accepts r msg r') : Asked r r' := by
  cases h with
  | code _ h =>
      obtain ⟨result, hresult, hgranted⟩ := hmsg
      have hon : r.onReceive M accepts msg = (r.emit [.received msg]).onListen result := by
        simp [onReceive, hresult, onResult, hlogin, hlisten]
      rw [hon, onListen, if_pos ⟨hgranted.1, hgranted.2⟩] at h
      have hasked : Asked { r with waitingFor := { r.waitingFor with listen := false } } r' :=
        asked_sendList rfl h
      exact ⟨hasked.login, hasked.listen, hasked.listId, hasked.stubs, hasked.callId, hasked.log⟩
  | merged hawaits _ =>
      rw [hawaits.2.1] at hlisten
      cases hlisten

/-- An event about an object is handled by its type and its path. -/
theorem onReceive_objectEvent {type : CString} (hmsg : IsObjectEvent type name msg)
    (h : Receives M accepts r msg r') :
    ∃ data : Json, data.getEx (.ofString "path") = some (.string name) ∧
      (r.emit [.received msg]).onEvent type data = .ok r' := by
  obtain ⟨hresult, hmethod, params, data, hparams, htype, hdata, hpath⟩ := hmsg
  cases h with
  | code _ h =>
      refine ⟨data, hpath, ?_⟩
      simpa [onReceive, hresult, hmethod, onMethod, hparams, htype, hdata] using h
  | merged hawaits _ =>
      obtain ⟨-, -, -, result, members, hsome, -⟩ := hawaits
      rw [hresult] at hsome
      cases hsome

theorem asked_added (hlisten : r.waitingFor.listen = false)
    (hmsg : (ServerMessage.event (.added name)).IsWritten msg) (h : Receives M accepts r msg r') :
    Asked r r' := by
  obtain ⟨data, hpath, h⟩ := onReceive_objectEvent hmsg h
  rw [onEvent, if_pos rfl, hpath] at h
  exact asked_sendList hlisten h

theorem removed_receives (hmsg : (ServerMessage.event (.removed name)).IsWritten msg)
    (h : Receives M accepts r msg r') :
    ∃ stubs, r' = { r.emit [.received msg] with stubs := stubs } ∧
      (r.stubs.tree.find? (fun s => strcmp s.key name = 0) = none ∧ stubs = r.stubs ∨
        ∃ stub, r.stubs.tree.find? (fun s => strcmp s.key name = 0) = some stub ∧
          stubs = r.stubs.wsuLocalStubDestroy stub) := by
  obtain ⟨data, hpath, h⟩ := onReceive_objectEvent hmsg h
  rw [onEvent, if_neg (by decide), if_pos rfl, hpath] at h
  simp only [Option.getD_some] at h
  split at h
  · next stub hfind =>
    cases h
    exact ⟨_, rfl, .inr ⟨stub, hfind, rfl⟩⟩
  · next hfind =>
    cases h
    exact ⟨r.stubs, rfl, .inl ⟨hfind, rfl⟩⟩

theorem quiet_onResult {id result : Json} (hlogin : r.waitingFor.login = false)
    (hlisten : r.waitingFor.listen = false) (hreply : r.isListReply id = false)
    (h : r.onResult M accepts id result = .ok r') : Quiet r r' := by
  rw [onResult, if_neg (by simp [hlogin]), if_neg (by simp [hlisten]),
    if_neg (by simp [hreply])] at h
  split at h
  · cases h
    exact quiet_onCallReply id result
  · cases h
    exact .refl r

theorem quiet_result {result : Json} (hlogin : r.waitingFor.login = false)
    (hlisten : r.waitingFor.listen = false) (hreply : r.isListReply (msgId msg) = false)
    (hresult : msg.getEx (.ofString "result") = some result) (h : Receives M accepts r msg r') :
    Quiet r r' := by
  have hreceived : Quiet r (r.emit [.received msg]) := quiet_emit (by simp [Action.list?])
  cases h with
  | code _ h =>
      simp only [onReceive, hresult] at h
      exact hreceived.trans (quiet_onResult hlogin hlisten hreply h)
  | merged hawaits _ =>
      rw [hawaits.2.2.1] at hreply
      cases hreply

theorem quiet_plainEvent (hmsg : IsPlainEvent msg) (h : Receives M accepts r msg r') :
    Quiet r r' := by
  have hreceived : Quiet r (r.emit [.received msg]) := quiet_emit (by simp [Action.list?])
  obtain ⟨hresult, hmethod, params, type, hparams, htype, hadd, hremove⟩ := hmsg
  cases h with
  | code _ h =>
      simp only [onReceive, hresult, hmethod, onMethod, hparams, htype, onEvent] at h
      rw [if_neg (by simp), if_neg hadd, if_neg hremove] at h
      cases h
      exact hreceived.trans (quiet_replay _ _)
  | merged hawaits _ =>
      obtain ⟨-, -, -, result, members, hsome, -⟩ := hawaits
      rw [hresult] at hsome
      cases hsome

end

/-! ### The stubs as a function of the name -/

def Stubs.signatures (st : Stubs) (name : CString) : Option (List (CString × List Policy)) :=
  (st.registered.find? fun s => s.key = name).map LocalStub.signature

section

variable {accepts : CString → Bool} {st st' : Stubs} {name : CString}

theorem eq_of_key (h : st.refused = []) {a b : LocalStub} (ha : a ∈ st.registered)
    (hb : b ∈ st.registered) (hkey : a.key = b.key) : a = b :=
  List.inj_on_of_nodup_map (nodup_keys h) ha hb hkey

theorem signatures_eq_some (h : st.refused = []) {m : List (CString × List Policy)} :
    st.signatures name = some m ↔
      ∃ stub ∈ st.registered, stub.key = name ∧ stub.signature = m := by
  rw [Stubs.signatures, Option.map_eq_some_iff]
  constructor
  · rintro ⟨stub, hfind, hm⟩
    exact ⟨stub, List.mem_of_find?_eq_some hfind, by simpa using List.find?_some hfind, hm⟩
  · rintro ⟨stub, hmem, hkey, hm⟩
    cases hfind : st.registered.find? fun s => s.key = name with
    | none =>
        rw [List.find?_eq_none] at hfind
        exact absurd hkey (by simpa using hfind stub hmem)
    | some stub' =>
        have hkey' : stub'.key = name := by simpa using List.find?_some hfind
        obtain rfl := eq_of_key h hmem (List.mem_of_find?_eq_some hfind) (hkey.trans hkey'.symm)
        exact ⟨stub, rfl, hm⟩

theorem registered_of_refused (h : st.refused = []) : st.registered = st.tree := by
  rw [Stubs.registered, h, List.append_nil]

/-- No other stub has the name of the one that is destroyed. -/
theorem mem_destroy {stub t : LocalStub} (h : st.refused = []) (hstub : stub ∈ st.tree) :
    t ∈ (st.wsuLocalStubDestroy stub).registered ↔ t ∈ st.registered ∧ t.key ≠ stub.key := by
  have h' : (st.wsuLocalStubDestroy stub).refused = [] := h
  obtain ⟨xs, ys, htree⟩ := List.append_of_mem hstub
  have hsorted := st.sorted
  rw [htree, List.pairwise_append, List.pairwise_cons] at hsorted
  obtain ⟨-, ⟨hys, -⟩, hxs⟩ := hsorted
  rw [registered_of_refused h', registered_of_refused h, destroy_tree htree, htree]
  constructor
  · intro ht
    rcases List.mem_append.mp ht with ht | ht
    · exact ⟨List.mem_append_left _ ht, (hxs t ht stub List.mem_cons_self).ne⟩
    · exact ⟨List.mem_append_right _ (List.mem_cons_of_mem _ ht), (hys t ht).ne'⟩
  · rintro ⟨ht, hne⟩
    rcases List.mem_append.mp ht with ht | ht
    · exact List.mem_append_left _ ht
    · refine List.mem_append_right _ ((List.mem_cons.mp ht).resolve_left ?_)
      rintro rfl
      exact hne rfl

theorem signatures_destroy {stub : LocalStub} (h : st.refused = []) (hstub : stub ∈ st.tree) :
    (st.wsuLocalStubDestroy stub).signatures =
      Function.update st.signatures stub.key none := by
  have h' : (st.wsuLocalStubDestroy stub).refused = [] := h
  funext name
  refine Option.ext fun m => ?_
  rw [signatures_eq_some h']
  by_cases hname : name = stub.key
  · subst hname
    simp only [mem_destroy h hstub, Function.update_self, reduceCtorEq, iff_false]
    rintro ⟨t, ⟨-, hne⟩, hkey, -⟩
    exact hne hkey
  · rw [Function.update_of_ne hname, signatures_eq_some h]
    constructor
    · rintro ⟨t, ht, hkey, hm⟩
      exact ⟨t, ((mem_destroy h hstub).mp ht).1, hkey, hm⟩
    · rintro ⟨t, ht, hkey, hm⟩
      exact ⟨t, (mem_destroy h hstub).mpr ⟨ht, hkey ▸ hname⟩, hkey, hm⟩

/-- Without a stub of the name there is nothing to destroy. -/
theorem signatures_absent (h : st.refused = [])
    (hfind : st.tree.find? (fun s => strcmp s.key name = 0) = none) :
    Function.update st.signatures name none = st.signatures := by
  rw [Function.update_eq_self_iff, eq_comm, Option.eq_none_iff_forall_ne_some]
  intro m hm
  obtain ⟨stub, hstub, hkey, -⟩ := (signatures_eq_some h).mp hm
  rw [registered_of_refused h] at hstub
  have := List.find?_eq_none.mp hfind stub hstub
  simp [hkey] at this

theorem signatures_takes {list : List (CString × Signature)}
    {objects : CString → Option Signature} (h : st.refused = [])
    (haccepted : ∀ stub ∈ st.registered, accepts stub.key = true)
    (htakes : Takes accepts list st st')
    (hlist : ∀ name s, (name, s) ∈ list ↔ objects name = some s) :
    st'.signatures =
      Mirror.adopt accepts st.signatures fun name => (objects name).map meaning := by
  funext name
  refine Option.ext fun m => ?_
  rw [signatures_eq_some htakes.single, Mirror.adopt]
  cases hname : objects name with
  | none =>
      have hnot : ∀ stub : LocalStub, stub.key = name → stub.key ∉ list.map Prod.fst := by
        rintro stub rfl hmem
        obtain ⟨⟨name, s⟩, hobj, rfl⟩ := List.mem_map.mp hmem
        rw [(hlist _ s).mp hobj] at hname
        cases hname
      simp only [Option.map_none, signatures_eq_some h]
      constructor
      · rintro ⟨stub, hstub, hkey, hm⟩
        exact ⟨stub, (htakes.merged.unlisted stub (hnot stub hkey)).mpr hstub, hkey, hm⟩
      · rintro ⟨stub, hstub, hkey, hm⟩
        exact ⟨stub, (htakes.merged.unlisted stub (hnot stub hkey)).mp hstub, hkey, hm⟩
  | some s =>
      simp only [Option.map_some]
      by_cases haccept : accepts name = true
      · obtain ⟨stub, hstub, hkey, hm⟩ :=
          htakes.merged.listed (name, s) ((hlist name s).mpr hname) haccept
        rw [if_pos haccept, Option.some.injEq]
        constructor
        · rintro ⟨stub', hstub', hkey', rfl⟩
          rw [eq_of_key htakes.single hstub' hstub (hkey'.trans hkey.symm), hm]
        · rintro rfl
          exact ⟨stub, hstub, hkey, hm⟩
      · -- there is no stub of a name that is not accepted, neither before nor after
        rw [if_neg haccept, signatures_eq_some h]
        constructor
        · rintro ⟨stub, hstub, rfl, -⟩
          rcases htakes.accepted stub hstub with hbefore | hyes
          · exact absurd (haccepted stub hbefore) haccept
          · exact absurd hyes haccept
        · rintro ⟨stub, hstub, rfl, -⟩
          exact absurd (haccepted stub hstub) haccept

end

end Owsd.Proxy
