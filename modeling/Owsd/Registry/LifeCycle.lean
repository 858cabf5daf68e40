import Owsd.Registry.Owners

/-!
The life of a client.

The state of a client says whether it has a connection: a disconnected client
has none, any other has exactly one and holds the pointer to it. Its timer
runs only while it is disconnected. So no client gets a second connection,
and one that is being torn down goes when its connection does.
-/

namespace Owsd.Registry

open Numbered

/-- The connections opened for a client, with the addresses they are to. -/
def State.opened (s : State) (n : ℕ) : List (Wsi × CString) :=
  (s.conns.filter fun conn => conn.owner = n).map fun conn => (conn.wsi, conn.address)

/-- The client is what its connections say. -/
structure Settled (c : Client) (opened : List (Wsi × CString)) : Prop where
  conns : (c.state = .disconnected ∧ opened = []) ∨
    c.state ≠ .disconnected ∧ ∃ wsi, c.wsi = some wsi ∧ opened = [(wsi, c.address)]
  timer : c.timer ≠ none → c.state = .disconnected

/-- Every client is settled, every connection has a client, and no address
has two clients that are not being torn down. -/
structure Tidy (s : State) : Prop where
  owned : Owned s
  settled : ∀ c ∈ s.clients, Settled c (s.opened c.num)
  owners : ∀ conn ∈ s.conns, ∃ c ∈ s.clients, c.num = conn.owner
  unique : ∀ c ∈ s.clients, ∀ d ∈ s.clients, c.address = d.address →
    c.state ≠ .tearingdown → d.state ≠ .tearingdown → c.num = d.num

/-- A step that does not start all clients while there are connections. -/
def Regular (s : State) (e : Event) : Prop :=
  FreshAddress s e ∧ (e = .connectAll → s.conns = [])

theorem tidy_init : Tidy init where
  owned := owned_init
  settled := by simp [init]
  owners := by simp [init]
  unique := by simp [init]

/-! ### Clients and their connections -/

section

variable {s s' : State} {c d : Client} {conn : Conn} {n : ℕ} {wsi : Wsi} {f : Client → Client}

theorem mem_opened (h : conn ∈ s.conns) : (conn.wsi, conn.address) ∈ s.opened conn.owner :=
  List.mem_map_of_mem (List.mem_filter.mpr ⟨h, by simp⟩)

theorem opened_eq_nil (h : s.opened n = []) : ∀ conn ∈ s.conns, conn.owner ≠ n := by
  rintro conn hconn rfl
  have := mem_opened hconn
  rw [h] at this
  cases this

theorem Settled.opened_nil {opened : List (Wsi × CString)} (h : Settled c opened)
    (htimer : c.timer ≠ none) : opened = [] := by
  rcases h.conns with ⟨-, hnil⟩ | ⟨hne, -⟩
  · exact hnil
  · exact absurd (h.timer htimer) hne

/-- The client with a connection is not disconnected and holds its pointer. -/
theorem Tidy.client_of_conn (h : Tidy s) (hconn : conn ∈ s.conns) (hc : c ∈ s.clients)
    (hnum : c.num = conn.owner) :
    c.state ≠ .disconnected ∧ c.wsi = some conn.wsi ∧ c.address = conn.address ∧
      s.opened c.num = [(conn.wsi, conn.address)] := by
  have hmem := hnum ▸ mem_opened hconn
  rcases (h.settled c hc).conns with ⟨-, hnil⟩ | ⟨hne, wsi, hwsi, hopen⟩
  · rw [hnil] at hmem
    cases hmem
  · rw [hopen, List.mem_singleton, Prod.mk.injEq] at hmem
    exact ⟨hne, hmem.1 ▸ hwsi, hmem.2.symm, by rw [hopen, hmem.1, hmem.2]⟩

theorem opened_setPeer (s : State) (wsi : Wsi) (peer : Peer) (n : ℕ) :
    (s.setPeer wsi peer).opened n = s.opened n :=
  map_filter_modify (fun _ => rfl) fun _ => rfl

theorem opened_disconnect (h : Owned s) (hconn : conn ∈ s.conns) (hne : conn.owner ≠ n) :
    (s.disconnect conn.wsi).opened n = s.opened n := by
  simp only [State.opened, State.disconnect, List.filter_filter]
  congr 1
  refine List.filter_congr fun conn' hconn' => ?_
  by_cases hn : conn'.owner = n
  · have hw : conn'.wsi ≠ conn.wsi := by
      intro hw
      exact hne (h.conn_eq hconn hconn' hw.symm ▸ hn)
    simp [hn, hw]
  · simp [hn]

theorem opened_disconnect_self (h : s.opened conn.owner = [(conn.wsi, conn.address)]) :
    (s.disconnect conn.wsi).opened conn.owner = [] := by
  rw [List.eq_nil_iff_forall_not_mem]
  rintro ⟨wsi, addr⟩ hmem
  obtain ⟨conn', hconn', heq⟩ := List.mem_map.mp hmem
  obtain ⟨hleft, howner⟩ := List.mem_filter.mp hconn'
  obtain ⟨hconn'', hw⟩ := List.mem_filter.mp hleft
  have hold := mem_opened hconn''
  rw [show conn'.owner = conn.owner by simpa using howner, h, List.mem_singleton,
    Prod.mk.injEq] at hold
  simp [hold.1] at hw

/-- The clients in the registry after one of them was changed. -/
theorem forall_mem_modify {P : Client → Prop} (hnums : (s.clients.map Client.num).Nodup)
    (hc : c ∈ s.clients) (hown : P (f c)) (hothers : ∀ d ∈ s.clients, d.num ≠ c.num → P d) :
    ∀ d ∈ modify Client.num c.num f s.clients, P d := by
  intro d hd
  rcases mem_modify.mp hd with ⟨hmem, hne⟩ | ⟨c', hc', hn, rfl⟩
  · exact hothers d hmem hne
  · obtain rfl := eq_of_num_eq hnums hc' hc hn
    exact hown

theorem exists_mem_modify (hnum : ∀ c, (f c).num = c.num) {m : ℕ}
    (h : ∃ c ∈ s.clients, c.num = m) : ∃ c ∈ modify Client.num n f s.clients, c.num = m := by
  obtain ⟨c, hc, rfl⟩ := h
  have hmem : c.num ∈ (modify Client.num n f s.clients).map Client.num := by
    rw [map_modify hnum]
    exact List.mem_map_of_mem hc
  obtain ⟨d, hd, heq⟩ := List.mem_map.mp hmem
  exact ⟨d, hd, heq⟩

/-- A change that makes no client any less torn down keeps addresses unique. -/
theorem unique_modify (h : Tidy s) (hc : c ∈ s.clients) (hnum : ∀ c, (f c).num = c.num)
    (haddr : ∀ c, (f c).address = c.address) (htd : c.state ≠ .tearingdown) :
    ∀ d ∈ modify Client.num c.num f s.clients, ∀ d' ∈ modify Client.num c.num f s.clients,
      d.address = d'.address → d.state ≠ .tearingdown → d'.state ≠ .tearingdown →
      d.num = d'.num := by
  -- every client comes from one with its number and address that was not torn down
  have hfrom : ∀ d ∈ modify Client.num c.num f s.clients, d.state ≠ .tearingdown →
      ∃ d₀ ∈ s.clients, d₀.num = d.num ∧ d₀.address = d.address ∧ d₀.state ≠ .tearingdown := by
    refine forall_mem_modify h.owned.nums hc ?_ ?_
    · exact fun _ => ⟨c, hc, (hnum c).symm, (haddr c).symm, htd⟩
    · exact fun d hd _ hdt => ⟨d, hd, rfl, rfl, hdt⟩
  intro d hd d' hd' heq hdt hdt'
  obtain ⟨d₀, hd₀, hn, ha, ht⟩ := hfrom d hd hdt
  obtain ⟨d₀', hd₀', hn', ha', ht'⟩ := hfrom d' hd' hdt'
  rw [← hn, ← hn']
  exact h.unique d₀ hd₀ d₀' hd₀' (by rw [ha, ha', heq]) ht ht'

theorem Tidy.of_modify (h : Tidy s) (ho : Owned s') (hc : c ∈ s.clients)
    (htd : c.state ≠ .tearingdown) (hclients : s'.clients = modify Client.num c.num f s.clients)
    (hnum : ∀ c, (f c).num = c.num) (haddr : ∀ c, (f c).address = c.address)
    (hothers : ∀ n, n ≠ c.num → s'.opened n = s.opened n)
    (hown : Settled (f c) (s'.opened c.num)) : Tidy s' where
  owned := ho
  settled := by
    rw [hclients]
    refine forall_mem_modify h.owned.nums hc ((hnum c).symm ▸ hown) fun d hd hne => ?_
    rw [hothers d.num hne]
    exact h.settled d hd
  owners := by
    intro conn hconn
    rw [hclients]
    apply exists_mem_modify hnum
    by_cases hn : conn.owner = c.num
    · exact ⟨c, hc, hn.symm⟩
    · have hmem := mem_opened hconn
      rw [hothers _ hn] at hmem
      obtain ⟨conn₀, hconn₀, -⟩ := List.mem_map.mp hmem
      obtain ⟨hold, howner⟩ := List.mem_filter.mp hconn₀
      obtain ⟨d, hd, heq⟩ := h.owners conn₀ hold
      exact ⟨d, hd, heq.trans (by simpa using howner)⟩
  unique := by
    rw [hclients]
    exact unique_modify h hc hnum haddr htd

theorem tidy_destroyed (h : Tidy s) (hconn : conn ∈ s.conns) (hc : c ∈ s.clients)
    (hnum : c.num = conn.owner) (ho : Owned s')
    (hclients : s'.clients = remove Client.num c.num s.clients)
    (hconns : s'.conns = (s.disconnect conn.wsi).conns) : Tidy s' where
  owned := ho
  settled := by
    intro d hd
    rw [hclients] at hd
    obtain ⟨hmem, hne⟩ := mem_remove.mp hd
    have hopen : s'.opened d.num = s.opened d.num := by
      rw [← opened_disconnect h.owned hconn (hnum ▸ hne.symm), State.opened, hconns]
      rfl
    rw [hopen]
    exact h.settled d hmem
  owners := by
    intro conn' hconn'
    rw [hconns] at hconn'
    obtain ⟨hmem, -⟩ := List.mem_filter.mp hconn'
    obtain ⟨d, hd, heq⟩ := h.owners conn' hmem
    rw [hclients]
    refine ⟨d, mem_remove.mpr ⟨hd, fun hn => ?_⟩, heq⟩
    -- the client has one connection only, and that is gone
    have hopen := opened_disconnect_self (hnum ▸ (h.client_of_conn hconn hc hnum).2.2.2)
    exact opened_eq_nil hopen conn' hconn' (by rw [← heq, hn, hnum])
  unique := by
    intro d hd d' hd'
    rw [hclients] at hd hd'
    exact h.unique d (mem_remove.mp hd).1 d' (mem_remove.mp hd').1

theorem tidy_created {addr : CString} {clients : List Client} (h : Tidy s)
    (hcreated : Created s addr c clients) :
    Tidy { s with clients := clients, created := s.created + 1 } := by
  have hfree : ∀ d ∈ s.clients, d.address = c.address → d.state = .tearingdown := by
    intro d hd haddr
    have := List.all_eq_true.mp hcreated.unique d hd
    simpa [strcmp_eq_zero_iff, haddr, hcreated.address] using this
  refine ⟨owned_created h.owned hcreated, ?_, ?_, ?_⟩
  · intro d hd
    rcases hcreated.mem_iff.mp hd with rfl | hd
    · refine ⟨.inl ⟨hcreated.state, ?_⟩, fun _ => hcreated.state⟩
      rw [State.opened, List.map_eq_nil_iff, List.filter_eq_nil_iff]
      intro conn hconn howner
      obtain ⟨d', hd', heq⟩ := h.owners conn hconn
      have hlt := h.owned.below d' hd'
      have howner : conn.owner = d.num := by simpa using howner
      rw [heq, howner, hcreated.num] at hlt
      exact lt_irrefl _ hlt
    · exact h.settled d hd
  · intro conn hconn
    obtain ⟨d, hd, heq⟩ := h.owners conn hconn
    exact ⟨d, hcreated.mem_iff.mpr (.inr hd), heq⟩
  · intro d hd d' hd' haddr htd htd'
    rcases hcreated.mem_iff.mp hd with rfl | hd <;> rcases hcreated.mem_iff.mp hd' with rfl | hd'
    · rfl
    · exact absurd (hfree d' hd' haddr.symm) htd'
    · exact absurd (hfree d hd haddr) htd
    · exact h.unique d hd d' hd' haddr htd htd'

/-- Clients that are removed go if they have no connection, and are torn down
if they have one. -/
theorem tidy_removed (h : Tidy s) (p : Client → Bool) :
    Tidy { s with clients := removeWhere p s.clients } where
  owned := h.owned.of_kept (kept_removeWhere p) rfl (.refl _)
  settled := by
    intro d hd
    rcases mem_removeWhere.mp hd with ⟨hmem, -⟩ | ⟨c, hc, -, hne, rfl⟩
    · exact h.settled d hmem
    · rcases (h.settled c hc).conns with ⟨hdisc, -⟩ | ⟨-, hopen⟩
      · exact absurd hdisc hne
      · refine ⟨.inr ⟨by simp, hopen⟩, fun htimer => ?_⟩
        exact absurd ((h.settled c hc).timer htimer) hne
  owners := by
    intro conn hconn
    obtain ⟨c, hc, hnum⟩ := h.owners conn hconn
    cases hp : p c with
    | false => exact ⟨c, mem_removeWhere.mpr (.inl ⟨hc, hp⟩), hnum⟩
    | true =>
        have hne := (h.client_of_conn hconn hc hnum).1
        exact ⟨_, mem_removeWhere.mpr (.inr ⟨c, hc, hp, hne, rfl⟩), hnum⟩
  unique := by
    intro d hd d' hd' haddr htd htd'
    rcases mem_removeWhere.mp hd with ⟨hmem, -⟩ | ⟨c, -, -, -, rfl⟩
    · rcases mem_removeWhere.mp hd' with ⟨hmem', -⟩ | ⟨c, -, -, -, rfl⟩
      · exact h.unique d hmem d' hmem' haddr htd htd'
      · exact absurd rfl htd'
    · exact absurd rfl htd

theorem tidy_armed (h : Tidy s) (hconns : s.conns = []) :
    Tidy { s with clients := s.clients.map fun c => c.connectIn 0, started := true } where
  owned := h.owned.of_kept (kept_connectIn 0) rfl (.refl _)
  settled := by
    intro d hd
    obtain ⟨c, hc, rfl⟩ := List.mem_map.mp hd
    have hopen : s.opened c.num = [] := by simp [State.opened, hconns]
    rcases (h.settled c hc).conns with ⟨hdisc, -⟩ | ⟨-, wsi, -, hsome⟩
    · exact ⟨.inl ⟨hdisc, hopen⟩, fun _ => hdisc⟩
    · rw [hopen] at hsome
      cases hsome
  owners := by
    intro conn hconn
    rw [hconns] at hconn
    cases hconn
  unique := by
    intro d hd d' hd'
    obtain ⟨c, hc, rfl⟩ := List.mem_map.mp hd
    obtain ⟨c', hc', rfl⟩ := List.mem_map.mp hd'
    exact h.unique c hc c' hc'

end

section

variable {net : Net} {s s' : State} {e : Event}

theorem tidy_effect (h : Tidy s) (hall : e = .connectAll → s.conns = [])
    (he : Effect net s e s') : Tidy s' := by
  have ho := owned_effect h.owned he
  cases he with
  | idle => exact h
  | refusedAdd => exact ⟨ho, h.settled, h.owners, h.unique⟩
  | created _ hcreated _ => exact tidy_created h hcreated
  | armed => exact tidy_armed h (hall rfl)
  | removed p => exact tidy_removed h p
  | @gaveUp c cleared hc htimer =>
      have hdisc := (h.settled c hc).timer htimer
      refine h.of_modify ho hc (by simp [hdisc]) rfl (fun _ => rfl) (fun _ => rfl)
        (fun _ _ => rfl) ⟨.inl ⟨hdisc, (h.settled c hc).opened_nil htimer⟩, fun _ => hdisc⟩
  | @refused c wsi hc htimer htd =>
      exact h.of_modify ho hc htd rfl (fun _ => rfl) (fun _ => rfl) (fun _ _ => rfl)
        ⟨.inl ⟨rfl, (h.settled c hc).opened_nil htimer⟩, fun _ => rfl⟩
  | @refusedLast c wsi hc htimer htd =>
      rw [(h.settled c hc).timer htimer] at htd
      cases htd
  | @opened c wsi hc htimer _ _ =>
      have hdisc := (h.settled c hc).timer htimer
      have hnil := (h.settled c hc).opened_nil htimer
      refine h.of_modify ho hc (by simp [hdisc]) rfl (fun _ => rfl) (fun _ => rfl) ?_ ?_
      · intro n hn
        simp [State.opened, hn.symm]
      · refine ⟨.inr ⟨by simp [Client.setState], wsi, rfl, ?_⟩, fun htimer => absurd rfl htimer⟩
        have hrest : (s.conns.filter fun conn => conn.owner = c.num).map
            (fun conn => (conn.wsi, conn.address)) = [] := hnil
        simp only [State.opened, List.filter_cons, decide_true, if_true, List.map_cons, hrest]
        rfl
  | peer _ _ =>
      refine ⟨ho, fun c hc => ?_, fun conn hconn => ?_, h.unique⟩
      · rw [opened_setPeer]
        exact h.settled c hc
      · obtain ⟨conn₀, hconn₀, -, howner⟩ := (fewer_setPeer s _ _).owners conn hconn
        rw [← howner]
        exact h.owners conn₀ hconn₀
  | @established _ conn c peer hconn _ hc hnum _ htd =>
      obtain ⟨hne, hwsi, haddr, hopen⟩ := h.client_of_conn hconn hc hnum
      refine h.of_modify ho hc htd rfl (fun _ => rfl) (fun _ => rfl)
        (fun n _ => opened_setPeer _ _ _ n) ⟨.inr ⟨by simp [Client.setState], conn.wsi, hwsi, ?_⟩,
          fun htimer => absurd ((h.settled c hc).timer htimer) hne⟩
      rw [opened_setPeer]
      exact hopen.trans (by rw [← haddr]; rfl)
  | @lost _ conn hconn _ hnone =>
      obtain ⟨c, hc, hnum⟩ := h.owners conn hconn
      exact absurd (h.client_of_conn hconn hc hnum).2.1 (hnone c hc)
  | destroyed hconn _ hc hnum _ _ => exact tidy_destroyed h hconn hc hnum ho rfl rfl
  | @again _ conn c f hconn _ hc hnum _ htd hagain _ =>
      have hopen := (h.client_of_conn hconn hc hnum).2.2.2
      refine h.of_modify ho hc htd rfl hagain.num hagain.address ?_
        ⟨.inl ⟨hagain.state c, ?_⟩, fun _ => hagain.state c⟩
      · exact fun n hn => opened_disconnect h.owned hconn (hnum ▸ hn.symm)
      · rw [hnum] at hopen ⊢
        exact opened_disconnect_self hopen

theorem tidy_step (h : Tidy s) (hreg : Regular s e) (hstep : step net s e = .ok s') : Tidy s' :=
  tidy_effect h hreg.2 (step_effect h.owned hreg.1 hstep)

/-! ### Runs without an address used twice -/

/-- lws gives no address a second time, and no connection is open when
`wsubus_client_connect_all` runs. -/
def Orderly (s : State) : Event → Prop
  | .timer _ attempt => ∀ wsi ∈ attempt.wsi, wsi ∉ s.given
  | .connectAll => s.conns = []
  | _ => True

/-- Every pointer in the registry is to an address that lws gave. -/
def Given (s : State) : Prop := ∀ c ∈ s.clients, ∀ wsi, c.wsi = some wsi → wsi ∈ s.given

theorem given_effect (h : Given s) (he : Effect net s e s') : Given s' := by
  intro d hd wsi hwsi
  rcases clients_effect he with ⟨hkept, hgiven⟩ | ⟨_, c, -, hcreated, hgiven⟩ | ⟨_, w, hgiven, heq⟩
  · obtain ⟨c, hc, -, hcw⟩ := hkept.pointers d hd wsi hwsi
    exact hgiven wsi (h c hc wsi hcw)
  · rw [hgiven]
    rcases hcreated.mem_iff.mp hd with rfl | hd
    · rw [hcreated.wsi] at hwsi
      cases hwsi
    · exact h d hd wsi hwsi
  · rw [hgiven]
    rw [heq] at hd
    rcases mem_modify.mp hd with ⟨hmem, -⟩ | ⟨c, -, -, rfl⟩
    · exact List.mem_cons_of_mem _ (h d hmem wsi hwsi)
    · exact List.mem_cons.mpr (.inl (Option.some.inj hwsi).symm)

theorem Orderly.regular (h : Orderly s e) (hgiven : Given s) : Regular s e := by
  cases e with
  | timer num attempt =>
      exact ⟨fun c hc wsi hwsi hcw => absurd (hgiven c hc wsi hcw) (h wsi hwsi), by simp⟩
  | connectAll => exact ⟨trivial, fun _ => h⟩
  | _ => exact ⟨trivial, by simp⟩

/-- A client that is being torn down stays so, until it goes with its
connection. -/
theorem teardown_effect (h : Tidy s) (he : Effect net s e s') {c : Client} (hc : c ∈ s.clients)
    (htd : c.state = .tearingdown) :
    (∀ c' ∈ s'.clients, c'.num = c.num → c'.state = .tearingdown) ∧
      ((∃ c' ∈ s'.clients, c'.num = c.num) ∨
        ∃ conn ∈ s.conns, conn.owner = c.num ∧ e.ends = some conn.wsi) := by
  have hsame : ∀ c' ∈ s.clients, c'.num = c.num → c'.state = .tearingdown := by
    intro c' hc' hn
    rw [eq_of_num_eq h.owned.nums hc' hc hn]
    exact htd
  -- the changes are to other clients, since this one has no timer running
  have hother : ∀ {d : Client} {f : Client → Client}, d ∈ s.clients → d.state ≠ .tearingdown →
      (∀ c, (f c).num = c.num) →
      (∀ c' ∈ modify Client.num d.num f s.clients, c'.num = c.num → c'.state = .tearingdown) ∧
        ((∃ c' ∈ modify Client.num d.num f s.clients, c'.num = c.num) ∨
          ∃ conn ∈ s.conns, conn.owner = c.num ∧ e.ends = some conn.wsi) := by
    intro d f hd hne hnum
    refine ⟨fun c' hc' hn => ?_, .inl (exists_mem_modify hnum ⟨c, hc, rfl⟩)⟩
    rcases mem_modify.mp hc' with ⟨hmem, -⟩ | ⟨d', hd', hn', rfl⟩
    · exact hsame c' hmem hn
    · rw [hnum] at hn
      exact absurd (hsame d hd (hn'.symm.trans hn)) hne
  have htimer : ∀ {d : Client}, d ∈ s.clients → d.timer ≠ none → d.state ≠ .tearingdown := by
    intro d hd ht
    rw [(h.settled d hd).timer ht]
    decide
  cases he with
  | idle => exact ⟨hsame, .inl ⟨c, hc, rfl⟩⟩
  | refusedAdd => exact ⟨hsame, .inl ⟨c, hc, rfl⟩⟩
  | @created _ _ d clients _ hcreated _ =>
      refine ⟨fun c' hc' hn => ?_, .inl ⟨c, hcreated.mem_iff.mpr (.inr hc), rfl⟩⟩
      rcases hcreated.mem_iff.mp hc' with rfl | hc'
      · have hlt := h.owned.below c hc
        rw [← hn, hcreated.num] at hlt
        exact absurd hlt (lt_irrefl _)
      · exact hsame c' hc' hn
  | armed =>
      refine ⟨fun c' hc' hn => ?_, .inl ⟨c.connectIn 0, List.mem_map_of_mem hc, rfl⟩⟩
      obtain ⟨d, hd, rfl⟩ := List.mem_map.mp hc'
      exact hsame d hd hn
  | removed p =>
      constructor
      · intro c' hc' hn
        rcases mem_removeWhere.mp hc' with ⟨hmem, -⟩ | ⟨d, -, -, -, rfl⟩
        · exact hsame c' hmem hn
        · rfl
      · refine .inl ?_
        cases hp : p c with
        | false => exact ⟨c, mem_removeWhere.mpr (.inl ⟨hc, hp⟩), rfl⟩
        | true => exact ⟨_, mem_removeWhere.mpr (.inr ⟨c, hc, hp, by simp [htd], rfl⟩), rfl⟩
  | gaveUp hd ht => exact hother hd (htimer hd ht) fun _ => rfl
  | refused hd _ hne => exact hother hd hne fun _ => rfl
  | refusedLast hd ht htd' => exact absurd htd' (htimer hd ht)
  | opened hd ht _ _ => exact hother hd (htimer hd ht) fun _ => rfl
  | peer _ _ => exact ⟨hsame, .inl ⟨c, hc, rfl⟩⟩
  | established _ _ hd _ _ hne => exact hother hd hne fun _ => rfl
  | lost _ _ _ => exact ⟨hsame, .inl ⟨c, hc, rfl⟩⟩
  | @destroyed _ conn d hconn hends hd hnum _ _ =>
      refine ⟨fun c' hc' hn => hsame c' (mem_remove.mp hc').1 hn, ?_⟩
      by_cases hn : c.num = d.num
      · exact .inr ⟨conn, hconn, by rw [hn, hnum], hends⟩
      · exact .inl ⟨c, mem_remove.mpr ⟨hc, hn⟩, rfl⟩
  | again _ _ hd _ _ hne hagain _ => exact hother hd hne hagain.num

end

structure LifeCycle (net : Net) (s : State) : Prop where
  /-- For each address at most one client is not being torn down. -/
  unique : s.clients.Pairwise fun c d =>
    c.address = d.address → c.state = .tearingdown ∨ d.state = .tearingdown
  /-- A client that is being torn down stays so, and goes only when its own
  connection ends. -/
  teardown : ∀ e s', Orderly s e → step net s e = .ok s' →
    ∀ c ∈ s.clients, c.state = .tearingdown →
      (∀ c' ∈ s'.clients, c'.num = c.num → c'.state = .tearingdown) ∧
        ((∃ c' ∈ s'.clients, c'.num = c.num) ∨
          ∃ conn ∈ s.conns, conn.owner = c.num ∧ e.ends = some conn.wsi)
  /-- A timer is pending only for a client that is disconnected, and has no
  connection. -/
  timers : ∀ c ∈ s.clients, c.timer ≠ none →
    c.state = .disconnected ∧ ∀ conn ∈ s.conns, conn.owner ≠ c.num
  /-- An `add` that fails changes nothing, and neither does a client of the
  configuration that is refused. -/
  adds : ∀ msg alloc, (addClient net s.clients s.created msg alloc).1 ≠ 0 →
    (addClient net s.clients s.created msg alloc).2 = s.clients
  creates : ∀ addr port path type alloc,
    (wsubusClientCreate net s.clients s.created addr port path type alloc).1 ≠ 0 →
    (wsubusClientCreate net s.clients s.created addr port path type alloc).2 = s.clients

/-- Clients go through their life cycle in every run in which lws uses no
address twice and no connection is open when `wsubus_client_connect_all`
runs. -/
theorem lifeCycle_run {net : Net} {s : State} {es : List Event}
    (hg : Guarded (step net) Orderly init es) (hrun : run (step net) init es = .ok s) :
    LifeCycle net s := by
  obtain ⟨ht, hgiven⟩ : Tidy s ∧ Given s := by
    refine run_invariant (fun s => Tidy s ∧ Given s) ?_ ⟨tidy_init, by simp [Given, init]⟩ hg hrun
    rintro s e s' ⟨ht, hgiven⟩ hord hstep
    have hreg := hord.regular hgiven
    exact ⟨tidy_step ht hreg hstep, given_effect hgiven (step_effect ht.owned hreg.1 hstep)⟩
  constructor
  · refine pairwise_of_ne ht.owned.nums fun c hc d hd hne haddr => ?_
    by_contra htd
    rw [not_or] at htd
    exact hne (ht.unique c hc d hd haddr htd.1 htd.2)
  · intro e s' hord hstep c hc htd
    exact teardown_effect ht (step_effect ht.owned (hord.regular hgiven).1 hstep) hc htd
  · intro c hc htimer
    exact ⟨(ht.settled c hc).timer htimer,
      opened_eq_nil ((ht.settled c hc).opened_nil htimer)⟩
  · intro msg alloc hfail
    rcases addClient_cases with ⟨rc, -, heq⟩ | ⟨addr, c, clients, -, heq, -, -⟩
    · rw [heq]
    · rw [heq] at hfail
      exact absurd rfl hfail
  · intro addr port path type alloc hfail
    rcases wsubusClientCreate_cases with ⟨rc, -, heq⟩ | ⟨c, clients, heq, -, -⟩
    · rw [heq]
    · rw [heq] at hfail
      exact absurd rfl hfail

def ipMessage (addr : String) : List Attr := [(.ofString "ip", .string (.ofString addr))]

/-- The first host is removed while it is connected and added again at
once. -/
def addedAgain : List Event :=
  [.create (.ofString "10.0.0.1") 443 (.ofString "/") true, .connectAll, .timer 0 (.opened 7),
    .established 7 true ⟨false, none⟩, .remove (ipMessage "10.0.0.1"),
    .add (ipMessage "10.0.0.1") true]

theorem lifeCycle_run_addedAgain :
    ∃ s, run (step twoHosts) init addedAgain = .ok s ∧
      s.clients.map (fun c => (c.num, c.state)) = [(0, .tearingdown), (1, .disconnected)] ∧
      LifeCycle twoHosts s := by
  have hg : Guarded (step twoHosts) Orderly init addedAgain :=
    .cons trivial rfl (.cons rfl rfl (.cons (fun _ _ => List.not_mem_nil) rfl (.cons trivial rfl
      (.cons trivial rfl (.cons trivial rfl trivial)))))
  obtain ⟨s, hrun, hclients⟩ : ∃ s, run (step twoHosts) init addedAgain = .ok s ∧
      s.clients.map (fun c => (c.num, c.state)) = [(0, .tearingdown), (1, .disconnected)] :=
    ⟨_, rfl, rfl⟩
  exact ⟨s, hrun, hclients, lifeCycle_run hg hrun⟩

end Owsd.Registry
