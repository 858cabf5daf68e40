import Owsd.Proxy.CallIds
import Owsd.Proxy.StubSet
import Owsd.Registry.LifeCycle

/-!
The names of stubs on the local bus.

A stub is named by the address of its remote and the name of its object, so
names are unique as long as no two remotes have the same address. The
registry sees to this by comparing the texts of addresses, but it takes no
notice of clients that are being torn down, whose stubs are on the bus until
their connection is closed, nor of two texts for one address.
-/

namespace Owsd.Registry

open Numbered

/-- No client is there for the address that an `add` is about, except one that
makes it fail. -/
def NewAddress (net : Net) (s : State) (e : Event) : Prop :=
  ∀ addr ∈ e.address, ∀ c ∈ s.clients, peerIp net c.address = peerIp net addr →
    c.address = addr ∧ c.state ≠ .tearingdown

theorem newAddress_of_none {net : Net} {s : State} {e : Event} (h : e.address = none) :
    NewAddress net s e := by
  intro addr haddr
  rw [h] at haddr
  cases haddr

def ListsInOrder (s : State) : Event → Prop
  | .remote wsi event => ∀ conn ∈ s.conns, conn.wsi = wsi → ∀ r, conn.peer = .remote r →
      Proxy.InOrder r event
  | _ => True

/-- A step after which names are still unique. -/
structure NamesSafe (net : Net) (s : State) (e : Event) : Prop where
  regular : Regular s e
  newAddress : NewAddress net s e
  inOrder : ListsInOrder s e

/-- No two clients have the same address, and all stubs are in their trees. -/
structure Named (net : Net) (s : State) : Prop where
  tidy : Tidy s
  ips : ∀ c ∈ s.clients, ∀ d ∈ s.clients, peerIp net c.address = peerIp net d.address →
    c.num = d.num
  refused : ∀ conn ∈ s.conns, ∀ r, conn.peer = .remote r → r.stubs.refused = []
  leaked : s.leaked = []

theorem named_init (net : Net) : Named net init where
  tidy := tidy_init
  ips := by simp [init]
  refused := by simp [init]
  leaked := rfl

section

variable {net : Net} {s s' : State} {e : Event}

theorem addresses_effect (he : Effect net s e s') :
    (∀ d ∈ s'.clients, ∃ c ∈ s.clients, c.num = d.num ∧ c.address = d.address) ∨
      ∃ addr c, e.address = some addr ∧ Created s addr c s'.clients := by
  rcases clients_effect he with ⟨hkept, -⟩ | ⟨addr, c, haddr, hcreated, -⟩ | ⟨c, wsi, -, heq⟩
  · exact .inl hkept.addresses
  · exact .inr ⟨addr, c, haddr, hcreated⟩
  · refine .inl fun d hd => ?_
    rw [heq] at hd
    rcases mem_modify.mp hd with ⟨hmem, -⟩ | ⟨c', hc', -, rfl⟩
    · exact ⟨d, hmem, rfl, rfl⟩
    · exact ⟨c', hc', rfl, rfl⟩

theorem ips_effect (h : Named net s) (hnew : NewAddress net s e) (he : Effect net s e s') :
    ∀ c ∈ s'.clients, ∀ d ∈ s'.clients, peerIp net c.address = peerIp net d.address →
      c.num = d.num := by
  rcases addresses_effect he with hold | ⟨addr, n, haddr, hcreated⟩
  · intro c hc d hd hip
    obtain ⟨c₀, hc₀, hcn, hca⟩ := hold c hc
    obtain ⟨d₀, hd₀, hdn, hda⟩ := hold d hd
    rw [← hcn, ← hdn]
    exact h.ips c₀ hc₀ d₀ hd₀ (by rw [hca, hda, hip])
  · -- one with the address would have made the call fail
    have hnone : ∀ c ∈ s.clients, peerIp net c.address ≠ peerIp net n.address := by
      intro c hc hip
      rw [hcreated.address] at hip
      obtain ⟨heq, htd⟩ := hnew addr haddr c hc hip
      have hunique := List.all_eq_true.mp hcreated.unique c hc
      simp [heq, htd] at hunique
    intro c hc d hd hip
    rcases hcreated.mem_iff.mp hc with rfl | hc <;> rcases hcreated.mem_iff.mp hd with rfl | hd
    · rfl
    · exact absurd hip.symm (hnone d hd)
    · exact absurd hip (hnone c hc)
    · exact h.ips c hc d hd hip

/-- What an event makes of a peer has its stubs in the tree. -/
theorem refused_peerStep {wsi : Wsi} {peer peer' : Peer} (h : PeerStep net wsi e peer peer')
    (hold : ∀ r, peer = .remote r → r.stubs.refused = [])
    (hord : ∀ event, e = .remote wsi event → ∀ r, peer = .remote r → Proxy.InOrder r event) :
    ∀ r, peer' = .remote r → r.stubs.refused = [] := by
  intro r' hr'
  cases h with
  | broke => cases hr'
  | established =>
      cases hr'
      rw [(Proxy.established_fresh _).2.1]
      rfl
  | @remote event r _ hstep =>
      cases hr'
      exact Proxy.refused_step (hord event rfl r rfl) (hold r rfl) hstep

theorem refused_setPeer {wsi : Wsi} {peer : Peer}
    (h : ∀ conn ∈ s.conns, ∀ r, conn.peer = .remote r → r.stubs.refused = [])
    (hpeer : ∀ r, peer = .remote r → r.stubs.refused = []) :
    ∀ conn ∈ (s.setPeer wsi peer).conns, ∀ r, conn.peer = .remote r → r.stubs.refused = [] := by
  intro conn hconn
  rcases mem_modify.mp hconn with ⟨hmem, -⟩ | ⟨conn', -, -, rfl⟩
  · exact h conn hmem
  · exact hpeer

theorem refused_effect (h : Named net s) (hord : ListsInOrder s e) (he : Effect net s e s') :
    ∀ conn ∈ s'.conns, ∀ r, conn.peer = .remote r → r.stubs.refused = [] := by
  have hordered : ∀ conn ∈ s.conns, ∀ event, e = .remote conn.wsi event →
      ∀ r, conn.peer = .remote r → Proxy.InOrder r event := by
    rintro conn hconn event rfl r hr
    exact hord conn hconn rfl r hr
  have hdisconnect : ∀ wsi, ∀ conn ∈ (s.disconnect wsi).conns, ∀ r, conn.peer = .remote r →
      r.stubs.refused = [] :=
    fun wsi conn hconn => h.refused conn (List.mem_filter.mp hconn).1
  cases he with
  | idle => exact h.refused
  | refusedAdd => exact h.refused
  | created _ _ _ => exact h.refused
  | armed => exact h.refused
  | removed _ => exact h.refused
  | gaveUp _ _ => exact h.refused
  | refused _ _ _ => exact h.refused
  | refusedLast _ _ _ => exact h.refused
  | opened _ _ _ _ =>
      intro conn hconn r hr
      rcases List.mem_cons.mp hconn with rfl | hconn
      · cases hr
      · exact h.refused conn hconn r hr
  | peer hconn hpeer =>
      exact refused_setPeer h.refused
        (refused_peerStep hpeer (h.refused _ hconn) (hordered _ hconn))
  | established hconn hpeer _ _ _ _ =>
      exact refused_setPeer h.refused
        (refused_peerStep hpeer (h.refused _ hconn) (hordered _ hconn))
  | lost _ _ _ => exact hdisconnect _
  | destroyed _ _ _ _ _ _ => exact hdisconnect _
  | again _ _ _ _ _ _ _ _ => exact hdisconnect _

/-- A connection with all its stubs in the tree leaks none. -/
theorem leak_nil {conn : Conn} (h : ∀ r, conn.peer = .remote r → r.stubs.refused = []) :
    conn.leak net = [] := by
  rw [Conn.leak]
  split
  · next r hr => rw [h r hr, List.map_nil]
  · rfl

theorem leaked_effect (h : Named net s) (he : Effect net s e s') : s'.leaked = [] := by
  have hclose : ∀ conn ∈ s.conns, conn.leak net ++ s.leaked = [] := by
    intro conn hconn
    rw [leak_nil (h.refused conn hconn), h.leaked]
    rfl
  cases he with
  | lost hconn _ _ => exact hclose _ hconn
  | destroyed hconn _ _ _ _ _ => exact hclose _ hconn
  | again hconn _ _ _ _ _ _ _ => exact hclose _ hconn
  | _ => exact h.leaked

theorem named_step (h : Named net s) (hsafe : NamesSafe net s e)
    (hstep : step net s e = .ok s') : Named net s' := by
  have he := step_effect h.tidy.owned hsafe.regular.1 hstep
  exact ⟨tidy_step h.tidy hsafe.regular hstep, ips_effect h hsafe.newAddress he,
    refused_effect h hsafe.inOrder he, leaked_effect h he⟩

/-! ### Names -/

theorem slash_not_mem_peerIp (net : Net) (addr : CString) : slash ∉ peerIp net addr := by
  rw [peerIp]
  split
  · exact fun h => net.peerSimple_noSlash addr (List.mem_of_mem_drop h)
  · exact net.peerSimple_noSlash addr

/-- A name says which address and which object it is made of. -/
theorem proxiedNameFill_inj {addr addr' name name' : CString}
    (h : proxiedNameFill net addr name = proxiedNameFill net addr' name') :
    peerIp net addr = peerIp net addr' ∧ name = name' := by
  have hbefore : ∀ addr name, (proxiedNameFill net addr name).takeWhile (· ≠ slash) =
      peerIp net addr := by
    intro addr name
    rw [proxiedNameFill, List.takeWhile_append_of_pos]
    · simp
    · intro c hc
      have hne : c ≠ slash := fun heq => slash_not_mem_peerIp net addr (heq ▸ hc)
      simpa using hne
  have hip : peerIp net addr = peerIp net addr' := by
    rw [← hbefore addr name, ← hbefore addr' name', h]
  refine ⟨hip, ?_⟩
  rw [proxiedNameFill, proxiedNameFill, hip] at h
  exact (List.cons_inj_right _).mp (List.append_cancel_left h)

theorem nodup_conn_names {conn : Conn} (h : ∀ r, conn.peer = .remote r → r.stubs.refused = []) :
    (conn.names net).Nodup := by
  rw [Conn.names]
  split
  · next r hr =>
    have hkeys := Proxy.nodup_keys (h r hr)
    have hmap : (r.stubs.registered.map fun stub => proxiedNameFill net conn.address stub.key) =
        (r.stubs.registered.map Proxy.LocalStub.key).map (proxiedNameFill net conn.address) := by
      rw [List.map_map]
      rfl
    rw [hmap]
    exact hkeys.map fun _ _ heq => (proxiedNameFill_inj heq).2
  · exact .nil

theorem mem_conn_names {conn : Conn} {name : CString} (h : name ∈ conn.names net) :
    ∃ key, name = proxiedNameFill net conn.address key := by
  rw [Conn.names] at h
  split at h
  · obtain ⟨stub, -, rfl⟩ := List.mem_map.mp h
    exact ⟨_, rfl⟩
  · cases h

theorem Named.peerIp_ne (h : Named net s) {conn conn' : Conn} (hconn : conn ∈ s.conns)
    (hconn' : conn' ∈ s.conns) (hne : conn.wsi ≠ conn'.wsi) :
    peerIp net conn.address ≠ peerIp net conn'.address := by
  obtain ⟨c, hc, hcn⟩ := h.tidy.owners conn hconn
  obtain ⟨d, hd, hdn⟩ := h.tidy.owners conn' hconn'
  obtain ⟨-, hcw, hca, -⟩ := h.tidy.client_of_conn hconn hc hcn
  obtain ⟨-, hdw, hda, -⟩ := h.tidy.client_of_conn hconn' hd hdn
  intro hip
  have hnum := h.ips c hc d hd (by rw [hca, hda, hip])
  obtain rfl := eq_of_num_eq h.tidy.owned.nums hc hd hnum
  exact hne (Option.some.inj (hcw.symm.trans hdw))

theorem Named.nodup_names (h : Named net s) : (s.names net).Nodup := by
  rw [State.names, h.leaked, List.append_nil, List.nodup_flatMap]
  refine ⟨fun conn hconn => nodup_conn_names (h.refused conn hconn), ?_⟩
  have hwsis : s.conns.Pairwise fun conn conn' => conn.wsi ≠ conn'.wsi :=
    List.pairwise_map.mp h.tidy.owned.wsis
  refine hwsis.imp_of_mem fun hconn hconn' hne => ?_
  intro name hname hname'
  obtain ⟨key, rfl⟩ := mem_conn_names hname
  obtain ⟨key', heq⟩ := mem_conn_names hname'
  exact h.peerIp_ne hconn hconn' hne (proxiedNameFill_inj heq).1

end

/-- Proxied names are unique. In a run in which no client is added for an
address that a client being torn down or one with another text for it has, no
new connection gets an address that another client still holds, the clients
are started while there is no connection, and remotes list their objects in
order, no two stubs on the bus ever have the same name. -/
theorem names_run {net : Net} {s : State} {es : List Event}
    (hg : Guarded (step net) (NamesSafe net) init es) (hrun : run (step net) init es = .ok s) :
    (s.names net).Nodup :=
  (run_invariant (Named net) (fun _ _ _ h hs hstep => named_step h hs hstep) (named_init net) hg
    hrun).nodup_names

/-- The reply to the request for events, with its id. -/
def listenReply : Json :=
  .object [(.ofString "id", .int 1), (.ofString "result", .array [.int 0])]

/-- The reply to the first `list`, with one object. -/
def listReply : Json :=
  .object [(.ofString "id", .int 2),
    (.ofString "result", .array [.int 0, .object [(.ofString "network", .object [])]])]

theorem inOrder_listenReply (r : Proxy.RemoteBus) :
    Proxy.InOrder r (.receive (some listenReply)) := by
  intro result members hresult _ hmembers
  cases hresult
  cases hmembers

theorem inOrder_listReply (r : Proxy.RemoteBus) :
    Proxy.InOrder r (.receive (some listReply)) := by
  intro result members hresult _ hmembers
  cases hresult
  cases hmembers
  exact ⟨[(.ofString "network", [])], .cons ⟨rfl, rfl⟩ .nil, by simp⟩

def published (num wsi : ℕ) : List Event :=
  [.timer num (.opened wsi), .established wsi true ⟨false, none⟩,
    .remote wsi (.receive (some listenReply)), .remote wsi (.receive (some listReply))]

def oneObject : List Event :=
  [.create (.ofString "10.0.0.1") 443 (.ofString "/") true, .connectAll] ++ published 0 7

theorem names_run_oneObject :
    ∃ s, run (step twoHosts) init oneObject = .ok s ∧
      s.names twoHosts = [.ofString "10.0.0.1/network"] ∧ (s.names twoHosts).Nodup := by
  have hg : Guarded (step twoHosts) (NamesSafe twoHosts) init oneObject := by
    refine .cons ⟨⟨trivial, by simp⟩, fun _ _ _ hc => absurd hc List.not_mem_nil, trivial⟩ rfl ?_
    refine .cons ⟨⟨trivial, fun _ => rfl⟩, newAddress_of_none rfl, trivial⟩ rfl ?_
    refine .cons ⟨⟨by decide, by simp⟩, newAddress_of_none rfl, trivial⟩ rfl ?_
    refine .cons ⟨⟨trivial, by simp⟩, newAddress_of_none rfl, trivial⟩ rfl ?_
    refine .cons ⟨⟨trivial, by simp⟩, newAddress_of_none rfl, ?_⟩ rfl ?_
    · exact fun _ _ _ r _ => inOrder_listenReply r
    refine .cons ⟨⟨trivial, by simp⟩, newAddress_of_none rfl, ?_⟩ rfl trivial
    exact fun _ _ _ r _ => inOrder_listReply r
  obtain ⟨s, hrun, hnames⟩ : ∃ s, run (step twoHosts) init oneObject = .ok s ∧
      s.names twoHosts = [.ofString "10.0.0.1/network"] := ⟨_, rfl, rfl⟩
  exact ⟨s, hrun, hnames, names_run hg hrun⟩

/-- The host is removed and added again, and the new connection is there
before lws closed the old one: both have a stub of the same name. -/
theorem names_clash :
    ∃ s, run (step twoHosts) init (oneObject ++ [.remove (ipMessage "10.0.0.1"),
        .add (ipMessage "10.0.0.1") true] ++ published 1 8) = .ok s ∧
      s.clients.map Client.state = [.tearingdown, .connected] ∧
      s.names twoHosts = [.ofString "10.0.0.1/network", .ofString "10.0.0.1/network"] :=
  ⟨_, rfl, rfl, rfl⟩

end Owsd.Registry
