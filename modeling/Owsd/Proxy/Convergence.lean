import Owsd.Proxy.Deliveries
import Owsd.Proxy.Routing

/-!
The stubs of a remote converge to its objects.

The link between a proxy and its server is a replica that follows a source
(`Mirror`): the acknowledgement of `listen` and each event about a new object
make the proxy ask for the list again, only the last reply counts, and only
events delete. So whatever the order of the changes, the events and the
replies, once nothing is under way the stubs are the accepted objects of the
server (`stubs_converge`).
-/

namespace Owsd.Proxy

open RemoteBus Rpc

/-! ### What holds in every state -/

structure Sound (accepts : CString → Bool) (r : RemoteBus) : Prop where
  wellFormed : WellFormed r
  login : r.waitingFor.login = false
  refused : r.stubs.refused = []
  accepted : ∀ stub ∈ r.stubs.registered, accepts stub.key = true
  ids : ∀ id ∈ listIds r.log, 0 < id ∧ id ≤ r.callId

structure Coupled (accepts : CString → Bool) (s : Link) : Prop where
  sound : Sound accepts s.client
  /-- The acknowledgement comes first, and once. -/
  subscribed : s.client.waitingFor.listen = true ∧
      (∃ rest, s.toClient = .subscribed :: rest ∧ .subscribed ∉ rest) ∨
    s.client.waitingFor.listen = false ∧ .subscribed ∉ s.toClient
  answered : s.answered ≤ (listIds s.client.log).length
  replies : ∀ id objects, .list id objects ∈ s.toClient → id ∈ listIds s.client.log
  others : ∀ msg, .other msg ∈ s.toClient → IsCallReply s.client.log msg ∨ IsPlainEvent msg

section

variable {M : Allocator} {accepts : CString → Bool} {r r' : RemoteBus} {msg : Json}
  {s s' : Link} {m : ServerMessage} {rest : List ServerMessage}

theorem wellFormed_receives (h : WellFormed r) (hreceives : Receives M accepts r msg r') :
    WellFormed r' := by
  cases hreceives with
  | code _ hok => exact wellFormed_step (e := .receive (some msg)) h hok
  | @merged list stubs hawaits _ =>
      have hlog : (r.listed msg stubs).log = [.received msg] ++ r.log := rfl
      refine h.keep hlog (by simp [Action.opens]) ⟨le_rfl, h.callId.2⟩ (.inl rfl) ?_ le_rfl rfl
        fun _ hi => hi
      rintro (hlogin | hlisten)
      · exact absurd (hawaits.1.symm.trans hlogin) (by simp)
      · exact absurd (hawaits.2.1.symm.trans hlisten) (by simp)

theorem Sound.quiet (h : Sound accepts r) (hw : WellFormed r') (hquiet : Quiet r r') :
    Sound accepts r' where
  wellFormed := hw
  login := hquiet.login.trans h.login
  refused := hquiet.stubs ▸ h.refused
  accepted := hquiet.stubs ▸ h.accepted
  ids := by
    intro id hid
    rw [hquiet.listIds_eq] at hid
    exact ⟨(h.ids id hid).1, (h.ids id hid).2.trans hquiet.callId⟩

theorem Sound.asked (h : Sound accepts r) (hw : WellFormed r') (hasked : Asked r r') :
    Sound accepts r' where
  wellFormed := hw
  login := hasked.login.trans h.login
  refused := hasked.stubs ▸ h.refused
  accepted := hasked.stubs ▸ h.accepted
  ids := by
    have hnonneg := h.wellFormed.callId.1
    intro id hid
    rw [hasked.listIds_eq, List.mem_append, List.mem_singleton] at hid
    rw [hasked.callId]
    rcases hid with hid | rfl
    · have := h.ids id hid
      omega
    · omega

theorem Sound.stubs (h : Sound accepts r) (hw : WellFormed r')
    (hlogin : r'.waitingFor.login = r.waitingFor.login) (hlog : r'.log = .received msg :: r.log)
    (hcallId : r'.callId = r.callId) (hrefused : r'.stubs.refused = [])
    (haccepted : ∀ stub ∈ r'.stubs.registered,
      stub ∈ r.stubs.registered ∨ accepts stub.key = true) : Sound accepts r' where
  wellFormed := hw
  login := hlogin.trans h.login
  refused := hrefused
  accepted := by
    intro stub hstub
    rcases haccepted stub hstub with hbefore | haccept
    · exact h.accepted stub hbefore
    · exact haccept
  ids := by
    intro id hid
    rw [hlog, listIds_received] at hid
    exact hcallId ▸ h.ids id hid

theorem IsCallReply.mono {log acts : List Action} (h : IsCallReply log msg) :
    IsCallReply (acts ++ log) msg := by
  obtain ⟨result, id, ureq, hresult, hid, hmem⟩ := h
  exact ⟨result, id, ureq, hresult, hid, List.mem_append_right _ hmem⟩

theorem Coupled.send (h : Coupled accepts s) (hclient : s'.client = s.client)
    (htoClient : s'.toClient = s.toClient ++ [m]) (hm : m ≠ .subscribed)
    (hanswered : s'.answered ≤ (listIds s.client.log).length)
    (hreply : ∀ id objects, m = .list id objects → id ∈ listIds s.client.log)
    (hother : ∀ msg, m = .other msg → IsCallReply s.client.log msg ∨ IsPlainEvent msg) :
    Coupled accepts s' := by
  have hmem : ∀ m', m' ∈ s'.toClient → m' ∈ s.toClient ∨ m' = m := by
    intro m' hm'
    simpa [htoClient] using hm'
  constructor
  · exact hclient ▸ h.sound
  · rw [hclient, htoClient]
    rcases h.subscribed with ⟨hlisten, rest, hrest, hnot⟩ | ⟨hlisten, hnot⟩
    · exact .inl ⟨hlisten, rest ++ [m], by rw [hrest, List.cons_append],
        by simpa [hnot] using hm.symm⟩
    · exact .inr ⟨hlisten, by simpa [hnot] using hm.symm⟩
  · exact hclient ▸ hanswered
  · intro id objects hlist
    rw [hclient]
    rcases hmem _ hlist with hlist | heq
    · exact h.replies id objects hlist
    · exact hreply id objects heq.symm
  · intro msg hmsg
    rw [hclient]
    rcases hmem _ hmsg with hmsg | heq
    · exact h.others msg hmsg
    · exact hother msg heq.symm

theorem Coupled.move (h : Coupled accepts s) (hsound : Sound accepts r')
    (hlog : ∃ acts, r'.log = acts ++ s.client.log)
    (hsubscribed : r'.waitingFor.listen = s.client.waitingFor.listen ∧ rest = s.toClient ∨
      r'.waitingFor.listen = false ∧ ∃ m, s.toClient = m :: rest) :
    Coupled accepts { s with toClient := rest, client := r' } := by
  obtain ⟨acts, hlog⟩ := hlog
  have hids : listIds r'.log = listIds s.client.log ++ listIds acts := by
    rw [hlog, listIds_append]
  have hrest : ∀ m ∈ rest, m ∈ s.toClient := by
    rcases hsubscribed with ⟨-, rfl⟩ | ⟨-, m, htoClient⟩
    · exact fun _ hm => hm
    · exact fun _ hm => htoClient ▸ List.mem_cons_of_mem m hm
  constructor
  · exact hsound
  · rcases hsubscribed with ⟨hlisten, rfl⟩ | ⟨hlisten, m, htoClient⟩
    · exact hlisten ▸ h.subscribed
    · refine .inr ⟨hlisten, ?_⟩
      rcases h.subscribed with ⟨-, rest', hrest', hnot⟩ | ⟨-, hnot⟩
      · rw [htoClient, List.cons.injEq] at hrest'
        exact hrest'.2 ▸ hnot
      · exact fun hmem => hnot (hrest _ hmem)
  · have := h.answered
    simp only [hids, List.length_append]
    omega
  · intro id objects hlist
    simp only [hids]
    exact List.mem_append_left _ (h.replies id objects (hrest _ hlist))
  · intro msg hmsg
    rcases h.others msg (hrest _ hmsg) with hreply | hevent
    · exact .inl (hlog ▸ hreply.mono)
    · exact .inr hevent

/-! ### The replica -/

/-- The message, as far as it concerns the list. -/
def ServerMessage.mirror :
    ServerMessage → Option (Mirror.Message CString (List (CString × List Policy)) Int)
  | subscribed => some .hello
  | event change => some (.notice change)
  | list id objects => some (.snapshot id fun name => (objects name).map meaning)
  | other _ => none

/-- The objects of the server are the source, and the stubs the replica. -/
def Link.mirror (s : Link) : Mirror.State CString (List (CString × List Policy)) Int where
  source name := (s.objects name).map meaning
  pending := s.pending
  inbox := s.toClient.filterMap ServerMessage.mirror
  outbox := s.toServer
  asked := listIds s.client.log
  awaited := if s.client.waitingFor.listId = 0 then none else some s.client.waitingFor.listId
  replica := s.client.stubs.signatures

theorem map_update (objects : CString → Option Signature) (name : CString)
    (v : Option Signature) :
    (fun x => (Function.update objects name v x).map meaning) =
      Function.update (fun x => (objects x).map meaning) name (v.map meaning) := by
  funext x
  by_cases hx : x = name
  · subst hx
    simp
  · simp [hx]

theorem mirror_quiet (h : Quiet s.client r') :
    Link.mirror { s with client := r' } = s.mirror := by
  simp only [Link.mirror, Link.toServer, h.listIds_eq, h.listId, h.stubs]

theorem mirror_asked (h : Coupled accepts s) (hasked : Asked s.client r') :
    Link.mirror { s with toClient := rest, client := r' } =
      s.mirror.ask (rest.filterMap ServerMessage.mirror) (s.client.callId + 1) := by
  have hne : s.client.callId + 1 ≠ 0 := by
    have := h.sound.wellFormed.callId.1
    omega
  simp only [Link.mirror, Link.toServer, Mirror.State.ask, hasked.listIds_eq, hasked.listId,
    hasked.stubs, if_neg hne, List.drop_append_of_le_length h.answered]

theorem mirror_removed {stubs : Stubs} {name : CString}
    (h : stubs.signatures = Function.update s.client.stubs.signatures name none) :
    Link.mirror { s with
      toClient := rest, client := { s.client.emit [.received msg] with stubs := stubs } } =
      { s.mirror with
        inbox := rest.filterMap ServerMessage.mirror
        replica := Function.update s.mirror.replica name none } :=
  Mirror.State.ext rfl rfl rfl rfl rfl rfl h

theorem mirror_listed {stubs : Stubs} {items : CString → Option (List (CString × List Policy))}
    (h : stubs.signatures = Mirror.adopt accepts s.client.stubs.signatures items) :
    Link.mirror { s with toClient := rest, client := s.client.listed msg stubs } =
      { s.mirror with
        inbox := rest.filterMap ServerMessage.mirror
        awaited := none
        replica := Mirror.adopt accepts s.mirror.replica items } :=
  Mirror.State.ext rfl rfl rfl rfl rfl rfl h

theorem callId_not_mem (h : Sound accepts r) : r.callId + 1 ∉ listIds r.log := by
  intro hmem
  have := (h.ids _ hmem).2
  omega

theorem isListReply_int {id : Int} (hpos : 0 < id) (hle : id ≤ 2147483647) :
    r.isListReply (.int id) = true ↔ id = r.waitingFor.listId := by
  simp only [isListReply, Json.isInt, getInt_int hpos hle, Bool.and_true, Bool.and_eq_true,
    decide_eq_true_eq]
  constructor
  · exact fun h => h.2
  · exact fun h => ⟨by omega, h⟩

/-- The step of the replica that a step of the link is, if any. -/
def Follows (accepts : CString → Bool) (s s' : Link) : Prop :=
  Coupled accepts s' ∧ (s'.mirror = s.mirror ∨ Mirror.Step accepts s.mirror s'.mirror)

theorem Coupled.listening (h : Coupled accepts s) (htoClient : s.toClient = m :: rest) :
    m = .subscribed ∧ s.client.waitingFor.listen = true ∨
      m ≠ .subscribed ∧ s.client.waitingFor.listen = false := by
  rcases h.subscribed with ⟨hlisten, rest', hrest', -⟩ | ⟨hlisten, hnot⟩
  · rw [htoClient, List.cons.injEq] at hrest'
    exact .inl ⟨hrest'.1, hlisten⟩
  · refine .inr ⟨?_, hlisten⟩
    rintro rfl
    exact hnot (htoClient ▸ List.mem_cons_self)

/-- A message arrived that made the proxy ask for the list. -/
theorem follows_asked (h : Coupled accepts s) (htoClient : s.toClient = m :: rest)
    (hreceives : Receives M accepts s.client msg r') (hasked : Asked s.client r')
    (hm : m = .subscribed ∨ ∃ name, m = .event (.added name)) :
    Follows accepts s { s with toClient := rest, client := r' } := by
  have hsound := h.sound.asked (wellFormed_receives h.sound.wellFormed hreceives) hasked
  have hfresh := callId_not_mem h.sound
  obtain ⟨acts, hlog, -⟩ := hasked.log
  refine ⟨h.move hsound ⟨acts, hlog⟩ (.inr ⟨hasked.listen, m, htoClient⟩),
    .inr ?_⟩
  rw [mirror_asked h hasked]
  rcases hm with rfl | ⟨name, rfl⟩
  · exact .hello _ _ _ (by simp [Link.mirror, htoClient, ServerMessage.mirror]) hfresh
  · exact .added _ _ name _ (by simp [Link.mirror, htoClient, ServerMessage.mirror]) hfresh

theorem follows_removed {name : CString} (h : Coupled accepts s)
    (htoClient : s.toClient = .event (.removed name) :: rest)
    (hmsg : (ServerMessage.event (.removed name)).IsWritten msg)
    (hreceives : Receives M accepts s.client msg r') :
    Follows accepts s { s with toClient := rest, client := r' } := by
  have hw := wellFormed_receives h.sound.wellFormed hreceives
  have hlisten := ((h.listening htoClient).resolve_left (by simp)).2
  obtain ⟨stubs, rfl, hstubs⟩ := removed_receives hmsg hreceives
  -- in both cases the name has no stub any more
  have hchange : stubs.refused = [] ∧
      (∀ stub ∈ stubs.registered, stub ∈ s.client.stubs.registered) ∧
      stubs.signatures = Function.update s.client.stubs.signatures name none := by
    rcases hstubs with ⟨hfind, rfl⟩ | ⟨stub, hfind, rfl⟩
    · exact ⟨h.sound.refused, fun _ hs => hs, (signatures_absent h.sound.refused hfind).symm⟩
    · have hmem := List.mem_of_find?_eq_some hfind
      have hkey : stub.key = name := by
        simpa [strcmp_eq_zero_iff] using List.find?_some hfind
      refine ⟨h.sound.refused, fun t ht => ((mem_destroy h.sound.refused hmem).mp ht).1, ?_⟩
      exact hkey ▸ signatures_destroy h.sound.refused hmem
  obtain ⟨hrefused, hsub, hsignatures⟩ := hchange
  have hsound := h.sound.stubs hw rfl rfl rfl hrefused fun stub hs => .inl (hsub stub hs)
  refine ⟨h.move hsound ⟨[.received msg], rfl⟩
    (.inr ⟨hlisten, _, htoClient⟩), .inr ?_⟩
  rw [mirror_removed hsignatures]
  exact .removed _ name _ (by simp [Link.mirror, htoClient, ServerMessage.mirror])

/-- A message arrived that has nothing to do with the list, at least now. -/
theorem follows_quiet (h : Coupled accepts s) (htoClient : s.toClient = m :: rest)
    (hm : m ≠ .subscribed) (hreceives : Receives M accepts s.client msg r')
    (hquiet : Quiet s.client r') :
    Coupled accepts { s with toClient := rest, client := r' } ∧
      Link.mirror { s with toClient := rest, client := r' } =
        { s.mirror with inbox := rest.filterMap ServerMessage.mirror } := by
  have hlisten := ((h.listening htoClient).resolve_left fun hsub => hm hsub.1).2
  have hsound := h.sound.quiet (wellFormed_receives h.sound.wellFormed hreceives) hquiet
  obtain ⟨acts, hlog, -⟩ := hquiet.log
  refine ⟨h.move hsound ⟨acts, hlog⟩ (.inr ⟨hquiet.listen.trans hlisten, m, htoClient⟩), ?_⟩
  simp only [Link.mirror, Link.toServer, hquiet.listIds_eq, hquiet.listId, hquiet.stubs]

theorem follows_list {id : Int} {objects : CString → Option Signature} (h : Coupled accepts s)
    (htoClient : s.toClient = .list id objects :: rest)
    (hmsg : (ServerMessage.list id objects).IsWritten msg)
    (hreceives : Receives M accepts s.client msg r') :
    Follows accepts s { s with toClient := rest, client := r' } := by
  have hlisten := ((h.listening htoClient).resolve_left (by simp)).2
  have hinbox : s.mirror.inbox = .snapshot id (fun name => (objects name).map meaning) ::
      rest.filterMap ServerMessage.mirror := by
    simp [Link.mirror, htoClient, ServerMessage.mirror]
  have hids := h.sound.ids id (h.replies id objects (htoClient ▸ List.mem_cons_self))
  have hmax := h.sound.wellFormed.callId.2
  have hreply : s.client.isListReply (msgId msg) = true ↔ id = s.client.waitingFor.listId :=
    hmsg.1 ▸ isListReply_int hids.1 (hids.2.trans hmax)
  have hawaited : s.mirror.awaited = some id ↔ id = s.client.waitingFor.listId := by
    simp only [Link.mirror]
    split <;> simp <;> omega
  obtain ⟨hid, list, hlist, hobjects⟩ := hmsg
  by_cases heq : id = s.client.waitingFor.listId
  · -- this is the reply to the last request
    have hawaits : Awaits s.client msg list := ⟨h.sound.login, hlisten, hreply.mpr heq, hlist⟩
    have hw := wellFormed_receives h.sound.wellFormed hreceives
    cases hreceives with
    | code hnot _ => exact absurd hawaits (hnot list)
    | @merged list' stubs hawaits' htakes =>
        rw [hawaits'.2.2.2.unique hlist] at htakes
        have hsound := h.sound.stubs hw rfl rfl rfl htakes.single htakes.accepted
        refine ⟨h.move hsound ⟨[.received msg], rfl⟩ (.inr ⟨hlisten, _, htoClient⟩), .inr ?_⟩
        rw [mirror_listed (signatures_takes h.sound.refused h.sound.accepted htakes hobjects)]
        exact .adopted _ id _ _ hinbox (hawaited.mpr heq)
  · obtain ⟨result, members, hresult, -⟩ := hlist
    have hquiet := quiet_result h.sound.login hlisten
      (Bool.eq_false_iff.mpr fun hyes => heq (hreply.mp hyes)) hresult hreceives
    obtain ⟨hcoupled, hmirror⟩ := follows_quiet h htoClient (by simp) hreceives hquiet
    refine ⟨hcoupled, .inr ?_⟩
    rw [hmirror]
    exact .ignored _ id _ _ hinbox fun hyes => heq (hawaited.mp hyes)

theorem follows_other {msg' : Json} (h : Coupled accepts s)
    (htoClient : s.toClient = .other msg' :: rest)
    (hmsg : (ServerMessage.other msg').IsWritten msg)
    (hreceives : Receives M accepts s.client msg r') :
    Follows accepts s { s with toClient := rest, client := r' } := by
  have hlisten := ((h.listening htoClient).resolve_left (by simp)).2
  obtain rfl : msg = msg' := hmsg
  have hquiet : Quiet s.client r' := by
    rcases h.others msg (htoClient ▸ List.mem_cons_self) with hreply | hevent
    · obtain ⟨result, id, ureq, hresult, hid, hmem⟩ := hreply
      obtain ⟨hpos, hle, -, hne⟩ := h.sound.wellFormed.sent ureq id hmem
      refine quiet_result h.sound.login hlisten (Bool.eq_false_iff.mpr ?_) hresult hreceives
      rw [hid, Ne, isListReply_int hpos (hle.trans h.sound.wellFormed.callId.2)]
      omega
    · exact quiet_plainEvent hevent hreceives
  obtain ⟨hcoupled, hmirror⟩ := follows_quiet h htoClient (by simp) hreceives hquiet
  refine ⟨hcoupled, .inl ?_⟩
  have hinbox : rest.filterMap ServerMessage.mirror = s.mirror.inbox := by
    rw [Link.mirror, htoClient, List.filterMap_cons_none rfl]
  exact hmirror.trans (Mirror.State.ext rfl rfl hinbox rfl rfl rfl rfl)

theorem quiet_call {object method : CString} {args : List Attr}
    (h : step M accepts r (.call object method args) = .ok r') : Quiet r r' := by
  rw [step] at h
  split at h
  · exact quiet_handleCall h
  · cases h
    exact .refl r

theorem toServer_cons {id : Int} {ids : List Int} (h : s.toServer = id :: ids) :
    s.answered + 1 ≤ (listIds s.client.log).length ∧ id ∈ listIds s.client.log ∧
      (listIds s.client.log).drop (s.answered + 1) = ids := by
  refine ⟨?_, ?_, ?_⟩
  · by_contra hlen
    have hnil : s.toServer = [] := List.drop_eq_nil_of_le (by omega)
    rw [h] at hnil
    cases hnil
  · have hmem : id ∈ s.toServer := h ▸ List.mem_cons_self
    exact List.mem_of_mem_drop hmem
  · rw [← List.tail_drop]
    exact congrArg List.tail h

/-- Every step of the link is one of the replica, or does not concern it. -/
theorem follows_step (h : Coupled accepts s) (hstep : Link.Step M accepts s s') :
    Follows accepts s s' := by
  cases hstep with
  | add name signature hname =>
      have hmirror : Mirror.Step accepts s.mirror _ :=
        .add s.mirror name (meaning signature) (by simp [Link.mirror, hname])
      refine ⟨⟨h.sound, h.subscribed, h.answered, h.replies, h.others⟩, .inr ?_⟩
      convert hmirror using 1
      exact Mirror.State.ext (map_update _ _ _) rfl rfl rfl rfl rfl rfl
  | remove name hname =>
      have hmirror : Mirror.Step accepts s.mirror _ :=
        .remove s.mirror name (by simpa [Link.mirror] using hname)
      refine ⟨⟨h.sound, h.subscribed, h.answered, h.replies, h.others⟩, .inr ?_⟩
      convert hmirror using 1
      exact Mirror.State.ext (map_update _ _ _) rfl rfl rfl rfl rfl rfl
  | announce change rest hpending =>
      have hmirror : Mirror.Step accepts s.mirror _ := .announce s.mirror change rest hpending
      refine ⟨h.send rfl rfl (by simp) h.answered (by simp) (by simp), .inr ?_⟩
      convert hmirror using 1
      exact Mirror.State.ext rfl rfl List.filterMap_append rfl rfl rfl rfl
  | answer id ids hserver =>
      have hmirror : Mirror.Step accepts s.mirror _ := .answer s.mirror id ids hserver
      obtain ⟨hlen, hmem, hdrop⟩ := toServer_cons hserver
      refine ⟨h.send rfl rfl (by simp) hlen ?_ (by simp), .inr ?_⟩
      · rintro _ _ ⟨⟩
        exact hmem
      · convert hmirror using 1
        exact Mirror.State.ext rfl rfl List.filterMap_append hdrop rfl rfl rfl
  | other msg hmsg =>
      refine ⟨h.send rfl rfl (by simp) h.answered (by simp) ?_, .inl ?_⟩
      · rintro _ ⟨⟩
        exact hmsg
      · refine Mirror.State.ext rfl rfl ?_ rfl rfl rfl rfl
        exact List.filterMap_append.trans (List.append_nil _)
  | call object method args r' hok =>
      have hquiet := quiet_call hok
      obtain ⟨acts, hlog, -⟩ := hquiet.log
      refine ⟨h.move (h.sound.quiet (wellFormed_step h.sound.wellFormed hok) hquiet) ⟨acts, hlog⟩
        (.inl ⟨hquiet.listen, rfl⟩), .inl (mirror_quiet hquiet)⟩
  | deliver m rest msg r' htoClient hmsg hreceives =>
      have hlistening := h.listening htoClient
      cases m with
      | subscribed =>
          have hlisten := (hlistening.resolve_right (by simp)).2
          exact follows_asked h htoClient hreceives
            (asked_subscribed h.sound.login hlisten hmsg hreceives) (.inl rfl)
      | event change =>
          have hlisten := (hlistening.resolve_left (by simp)).2
          cases change with
          | added name =>
              exact follows_asked h htoClient hreceives (asked_added hlisten hmsg hreceives)
                (.inr ⟨name, rfl⟩)
          | removed name => exact follows_removed h htoClient hmsg hreceives
      | list id objects => exact follows_list h htoClient hmsg hreceives
      | other msg' => exact follows_other h htoClient hmsg hreceives

/-! ### Runs -/

theorem coupled_start (h : s.Start) : Coupled accepts s := by
  have hwaiting := h.waiting
  constructor
  · refine ⟨h.wellFormed, hwaiting.1, by rw [h.stubs]; rfl, ?_, by simp [h.log]⟩
    rw [h.stubs]
    simp [Stubs.registered, Stubs.empty]
  · exact .inl ⟨hwaiting.2.1, [], h.toClient, by simp⟩
  · simp [h.answered]
  · simp [h.toClient]
  · simp [h.toClient]

theorem initial_start (h : s.Start) : Mirror.Initial s.mirror where
  pending := h.pending
  inbox := by simp [Link.mirror, h.toClient, ServerMessage.mirror]
  outbox := by simp [Link.mirror, Link.toServer, h.log]
  awaited := by simp [Link.mirror, h.waiting.2.2]
  replica := by simp [Link.mirror, h.stubs, Stubs.signatures, Stubs.registered, Stubs.empty]

theorem follows_run (h : Coupled accepts s)
    (hrun : Relation.ReflTransGen (Link.Step M accepts) s s') :
    Coupled accepts s' ∧ Relation.ReflTransGen (Mirror.Step accepts) s.mirror s'.mirror := by
  induction hrun with
  | refl => exact ⟨h, .refl⟩
  | tail _ hstep ih =>
      obtain ⟨hcoupled, hmirror⟩ := ih
      obtain ⟨hcoupled', heq | hnext⟩ := follows_step hcoupled hstep
      · exact ⟨hcoupled', heq ▸ hmirror⟩
      · exact ⟨hcoupled', hmirror.tail hnext⟩

/-- Whatever the server adds and removes, and in whatever order events, lists
and replies come in: once no message is under way and no event is to be sent,
the stubs are the accepted objects of the server, with their signatures and
one for each, and the proxy waits for no list. -/
theorem stubs_converge (hstart : s.Start)
    (hrun : Relation.ReflTransGen (Link.Step M accepts) s s') (htoClient : s'.toClient = [])
    (htoServer : s'.toServer = []) (hpending : s'.pending = []) :
    (∀ name m, (∃ stub ∈ s'.client.stubs.registered, stub.key = name ∧ stub.signature = m) ↔
      accepts name = true ∧ ∃ signature, s'.objects name = some signature ∧
        meaning signature = m) ∧
    (s'.client.stubs.registered.map LocalStub.key).Nodup ∧
    s'.client.waitingFor.listId = 0 := by
  obtain ⟨hcoupled, hmirror⟩ := follows_run (coupled_start hstart) hrun
  have htied := Mirror.tied_run (Mirror.tied_initial (initial_start hstart)) hmirror
  obtain ⟨hawaited, hreplica⟩ :=
    htied.converged (by simp [Link.mirror, htoClient]) htoServer hpending
  refine ⟨fun name m => ?_, nodup_keys hcoupled.sound.refused, ?_⟩
  · rw [← signatures_eq_some hcoupled.sound.refused, ← Option.map_eq_some_iff]
    exact hreplica name m
  · simpa [Link.mirror] using hawaited

end

def newLink : Link where
  objects name := if name = .ofString "a" then some [] else none
  pending := []
  toClient := [.subscribed]
  answered := 0
  client := Handshake.established ⟨false, none⟩

def acknowledgement : Json := .object [(.ofString "result", .array [.int 0])]

def listReply : Json :=
  .object [(.ofString "id", .int 2),
    (.ofString "result", .array [.int 0, .object [(.ofString "a", .object [])]])]

def askedLink : Link where
  objects := newLink.objects
  pending := []
  toClient := []
  answered := 0
  client := { newLink.client with
    callId := 2
    waitingFor := ⟨false, false, .zero _, 2⟩
    log := .sent (.list 2 newLink.client.sid (.ofString "*")) :: .received acknowledgement ::
      newLink.client.log }

theorem stubs_converge_newLink :
    ∃ s' : Link, Relation.ReflTransGen (Link.Step bumpAllocator acceptAll) newLink s' ∧
      (∃ stub ∈ s'.client.stubs.registered, stub.key = .ofString "a" ∧ stub.signature = []) ∧
      s'.client.waitingFor.listId = 0 := by
  have hack : Link.Step bumpAllocator acceptAll newLink askedLink :=
    .deliver newLink .subscribed [] acknowledgement _ rfl ⟨_, rfl, rfl, rfl⟩
      (.code (by rintro list ⟨-, ⟨⟩, -⟩) rfl)
  have hanswer : Link.Step bumpAllocator acceptAll askedLink
      { askedLink with answered := 1, toClient := [.list 2 newLink.objects] } :=
    .answer askedLink 2 [] rfl
  have hlist : IsList listReply [(.ofString "a", [])] :=
    ⟨_, _, rfl, ⟨rfl, rfl⟩, rfl, .cons ⟨rfl, rfl⟩ .nil⟩
  have hreply : Link.Step bumpAllocator acceptAll
      { askedLink with answered := 1, toClient := [.list 2 newLink.objects] }
      { askedLink with
        answered := 1
        client := askedLink.client.listed listReply
          (wsuLocalStubCreate bumpAllocator .empty (.ofString "a") []) } :=
    .deliver _ (.list 2 newLink.objects) [] listReply _ rfl
      ⟨rfl, _, hlist, by simp [newLink]⟩
      (.merged ⟨rfl, rfl, rfl, hlist⟩
        (takes_of_mergeList (M := bumpAllocator) rfl (List.pairwise_singleton _ _) rfl))
  have hrun := ((Relation.ReflTransGen.single hack).tail hanswer).tail hreply
  obtain ⟨hstubs, -, hlistId⟩ := stubs_converge (start_established ⟨false, none⟩ rfl _) hrun
    rfl rfl rfl
  exact ⟨_, hrun, (hstubs _ _).mpr ⟨rfl, [], rfl, rfl⟩, hlistId⟩

end Owsd.Proxy
