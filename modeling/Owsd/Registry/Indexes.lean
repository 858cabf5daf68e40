import Owsd.Registry.Owners
import Mathlib.Order.Bounds.Basic

/-!
The indexes of the clients.

The registry is kept in the order of its indexes. A new client is put where
the first gap is, which one pass over the list finds: as long as there is
none, the client at each place has the number of the place as its index.
-/

namespace Owsd.Registry

open Numbered

def clientIndexPolicy : List (CString × BlobmsgType) := [(.ofString "index", .int32)]

/-- `list_client`: the clients it dumps. The index is held in a `long`, which
has room for it. -/
def listClient (clients : List Client) (msg : List Attr) : List Client :=
  match blobmsgParse clientIndexPolicy msg with
  | [some index] => (clients.find? fun c => c.index = (getU32 index.2).toNat).toList
  | _ => clients

/-- The clients are in the order of their indexes, each under its own. -/
def Ascending (clients : List Client) : Prop := clients.Pairwise fun c d => c.index < d.index

/-- The place of a new client: those before it have the indexes from `i` on
without a gap, those after it have higher ones than it gets. -/
theorem insertAtLowestFreeIndex_eq (c : Client) {i : ℕ} {clients : List Client}
    (hasc : Ascending clients) (hfrom : ∀ t ∈ clients, i ≤ t.index) :
    ∃ before after, clients = before ++ after ∧
      insertAtLowestFreeIndex c i clients =
        before ++ { c with index := i + before.length } :: after ∧
      before.map Client.index = List.range' i before.length ∧
      ∀ t ∈ after, i + before.length < t.index := by
  induction clients generalizing i with
  | nil => exact ⟨[], [], rfl, rfl, rfl, by simp⟩
  | cons t rest ih =>
      obtain ⟨habove, hrest⟩ := List.pairwise_cons.mp hasc
      have hi : i ≤ t.index := hfrom t List.mem_cons_self
      by_cases hgap : i < t.index
      · refine ⟨[], t :: rest, rfl, by simp [insertAtLowestFreeIndex, hgap], rfl, ?_⟩
        intro u hu
        rcases List.mem_cons.mp hu with rfl | hu
        · simpa using hgap
        · have := habove u hu
          simp only [List.length_nil]
          omega
      · have ht : t.index = i := by omega
        obtain ⟨before, after, heq, hins, hrange, hafter⟩ := ih (i := i + 1) hrest fun u hu => by
          have := habove u hu
          omega
        have hlen : i + (t :: before).length = i + 1 + before.length := by
          simp only [List.length_cons]
          omega
        refine ⟨t :: before, after, by rw [heq, List.cons_append], ?_, ?_, ?_⟩
        · rw [insertAtLowestFreeIndex, if_neg hgap, hins, hlen, List.cons_append]
        · rw [List.map_cons, ht, hrange, List.length_cons, List.range'_succ]
        · rw [hlen]
          exact hafter

/-- The index of a new client is the lowest one not in use. -/
theorem insertAtLowestFreeIndex_least (c : Client) {clients : List Client}
    (hasc : Ascending clients) :
    ∃ j, (insertAtLowestFreeIndex c 0 clients).Perm ({ c with index := j } :: clients) ∧
      Ascending (insertAtLowestFreeIndex c 0 clients) ∧
      IsLeast {i | ∀ d ∈ clients, d.index ≠ i} j := by
  obtain ⟨before, after, rfl, hins, hrange, hafter⟩ :=
    insertAtLowestFreeIndex_eq c hasc fun t _ => Nat.zero_le t.index
  have hbefore : ∀ i, i ∈ before.map Client.index ↔ i < 0 + before.length := by
    intro i
    rw [hrange, List.mem_range'_1]
    omega
  have hbelow : ∀ t ∈ before, t.index < 0 + before.length := fun t ht =>
    (hbefore t.index).mp (List.mem_map_of_mem ht)
  refine ⟨0 + before.length, hins ▸ List.perm_middle, ?_, ?_, ?_⟩
  · -- those before keep below it, those after above
    obtain ⟨hl, hr, hlr⟩ := List.pairwise_append.mp hasc
    rw [hins]
    refine List.pairwise_append.mpr ⟨hl, List.pairwise_cons.mpr ⟨hafter, hr⟩, ?_⟩
    intro t ht u hu
    rcases List.mem_cons.mp hu with rfl | hu
    · exact hbelow t ht
    · exact hlr t ht u hu
  · intro d hd
    rcases List.mem_append.mp hd with hd | hd
    · exact (hbelow d hd).ne
    · exact (hafter d hd).ne'
  · intro i hi
    by_contra hlt
    obtain ⟨d, hd, hdi⟩ := List.mem_map.mp ((hbefore i).mpr (by omega))
    exact hi d (List.mem_append_left _ hd) hdi

/-! ### What is done to the list -/

def Client.entry (c : Client) : ℕ × ℕ := (c.num, c.index)

def entries (clients : List Client) : List (ℕ × ℕ) := clients.map Client.entry

section

variable {net : Net} {clients : List Client} {c : Client} {n : ℕ} {wsi : Wsi}
  {f : Client → Client}

theorem map_fst_entries : (entries clients).map Prod.fst = clients.map Client.num := by
  rw [entries, List.map_map]
  rfl

theorem map_snd_entries : (entries clients).map Prod.snd = clients.map Client.index := by
  rw [entries, List.map_map]
  rfl

theorem entries_modify (hf : ∀ c : Client, (f c).entry = c.entry) :
    entries (modify Client.num n f clients) = entries clients :=
  map_modify hf

theorem entries_remove : (entries (remove Client.num n clients)).Sublist (entries clients) :=
  remove_sublist.map _

theorem entries_changeByWsi (hf : ∀ c : Client, (f c).entry = c.entry) :
    entries (changeByWsi clients wsi f) = entries clients := by
  rw [changeByWsi]
  split
  · rfl
  · exact entries_modify hf

theorem entries_ended {again : Client → Client} {clients' : List Client}
    (h : Ended again clients wsi clients') (hf : ∀ c : Client, (again c).entry = c.entry) :
    (entries clients').Sublist (entries clients) := by
  cases h with
  | unknown _ => exact .refl _
  | destroyed _ _ _ => exact entries_remove
  | again _ _ _ => rw [entries_modify hf]

theorem entries_onClosed : (entries (onClosed clients wsi)).Sublist (entries clients) :=
  entries_ended ended_onClosed fun _ => rfl

theorem entries_onConnectionError :
    (entries (onConnectionError net clients wsi)).Sublist (entries clients) :=
  entries_ended ended_onConnectionError fun _ => rfl

end

/-- Some clients may be gone, and none is new. -/
def NoneNew (s s' : State) : Prop :=
  (entries s'.clients).Sublist (entries s.clients) ∧ s.created ≤ s'.created

def Inserted (s s' : State) : Prop :=
  ∃ c, c.num = s.created ∧ s'.clients = insertAtLowestFreeIndex c 0 s.clients ∧
    s'.created = s.created + 1

section

variable {net : Net} {s s' : State} {e : Event}

theorem noneNew_of_entries_eq (h : entries s'.clients = entries s.clients)
    (hcreated : s'.created = s.created) : NoneNew s s' :=
  ⟨h ▸ .refl _, hcreated.ge⟩

theorem wsubusClientCreate_inserts (addr : CString) (port : Int) (path : CString)
    (type : ClientType) (alloc : Bool) {s' : State}
    (h : s' = s.addCreated (wsubusClientCreate net s.clients s.created addr port path type alloc)) :
    NoneNew s s' ∨ Inserted s s' := by
  subst h
  rw [wsubusClientCreate]
  have hsame : ∀ rc : Int, NoneNew s (s.addCreated (rc, s.clients)) := fun _ =>
    ⟨.refl _, Nat.le_succ _⟩
  split
  · exact .inl (hsame _)
  · split
    · exact .inl (hsame _)
    · split
      · exact .inl (hsame _)
      · exact .inr ⟨_, rfl, rfl, rfl⟩

theorem addClient_inserts (msg : List Attr) (alloc : Bool) {s' : State}
    (h : s' = s.addCreated (addClient net s.clients s.created msg alloc)) :
    NoneNew s s' ∨ Inserted s s' := by
  have hsame : ∀ rc : Int, NoneNew s (s.addCreated (rc, s.clients)) := fun _ =>
    ⟨.refl _, Nat.le_succ _⟩
  subst h
  rw [addClient]
  split
  · simp only
    split
    · exact .inl (hsame _)
    · exact wsubusClientCreate_inserts _ _ _ _ _ rfl
  · exact .inl (hsame _)

theorem noneNew_utimerReconnectCb (c : Client) (num : ℕ) (attempt : Attempt) :
    NoneNew s (utimerReconnectCb net (s.expire num) c attempt) := by
  have hexpire : entries (s.expire num).clients = entries s.clients :=
    entries_modify fun _ => rfl
  have hset : ∀ g : Client → Client, (∀ c, (g c).entry = c.entry) →
      entries (modify Client.num c.num g (s.expire num).clients) = entries s.clients :=
    fun g hg => (entries_modify hg).trans hexpire
  cases attempt with
  | failed cleared => exact noneNew_of_entries_eq (hset _ fun _ => rfl) rfl
  | refused wsi =>
      refine ⟨?_, le_rfl⟩
      rw [← hset (fun c => { c with wsi := some wsi }) fun _ => rfl]
      exact entries_onConnectionError
  | opened wsi =>
      refine noneNew_of_entries_eq ?_ rfl
      rw [← hset (fun c => { c with wsi := some wsi }) fun _ => rfl]
      exact entries_changeByWsi fun _ => rfl

theorem noneNew_onEstablished (conn : Conn) (init : Bool) (handshake : Proxy.Handshake) :
    NoneNew s (onEstablished s conn init handshake) := by
  have hsame : NoneNew s s := ⟨.refl _, le_rfl⟩
  rw [onEstablished]
  split
  · split
    · exact hsame
    · split
      · exact hsame
      · exact noneNew_of_entries_eq (entries_changeByWsi fun _ => rfl) rfl
  · exact hsame

/-- Every step takes clients out or puts one in at the first gap. -/
theorem step_noneNew_or_inserted (h : step net s e = .ok s') : NoneNew s s' ∨ Inserted s s' := by
  have hsame : NoneNew s s := ⟨.refl _, le_rfl⟩
  cases e with
  | create addr port path alloc =>
      simp only [step] at h
      split at h
      · cases h
        exact .inl hsame
      · cases h
        exact wsubusClientCreate_inserts _ _ _ _ _ rfl
  | connectAll =>
      cases h
      refine .inl (noneNew_of_entries_eq ?_ rfl)
      simp only [wsubusClientConnectAll, wsubusClientConnect, entries, List.map_map]
      rfl
  | add msg alloc =>
      cases h
      exact addClient_inserts _ _ rfl
  | remove msg =>
      simp only [step] at h
      split at h
      · cases h
      · next hremove =>
        cases h
        refine .inl ⟨?_, le_rfl⟩
        rcases removeClient_cases hremove with rfl | ⟨p, rfl⟩
        · exact .refl _
        · exact removeWhere_map (fun _ => rfl) p s.clients
  | timer num attempt =>
      simp only [step] at h
      split at h
      · cases h
        exact .inl hsame
      · split at h
        · cases h
          exact .inl hsame
        · cases h
          exact .inl (noneNew_utimerReconnectCb _ _ _)
  | established wsi init handshake =>
      rcases withConn_ok h with rfl | ⟨conn, -, -, hf⟩
      · exact .inl hsame
      · cases hf
        exact .inl (noneNew_onEstablished _ _ _)
  | writeable wsi =>
      rcases withConn_ok h with rfl | ⟨conn, -, -, hf⟩
      · exact .inl hsame
      · cases hf
        exact .inl hsame
  | closed wsi =>
      rcases withConn_ok h with rfl | ⟨conn, -, -, hf⟩
      · exact .inl hsame
      · split at hf
        · cases hf
        · cases hf
          exact .inl ⟨entries_onClosed, le_rfl⟩
  | connectionError wsi =>
      rcases withConn_ok h with rfl | ⟨conn, -, -, hf⟩
      · exact .inl hsame
      · split at hf
        · cases hf
          exact .inl hsame
        · cases hf
          exact .inl ⟨entries_onConnectionError, le_rfl⟩
  | remote wsi event =>
      rcases withConn_ok h with rfl | ⟨conn, -, -, hf⟩
      · exact .inl hsame
      · split at hf
        · split at hf
          · cases hf
            exact .inl hsame
          · cases hf
        · cases hf
          exact .inl hsame

end

/-! ### Runs -/

/-- The list is in order and its clients have numbers of their own. -/
structure Indexed (s : State) : Prop where
  ascending : Ascending s.clients
  nums : (s.clients.map Client.num).Nodup
  below : ∀ c ∈ s.clients, c.num < s.created

/-- A step gives a new client the lowest free index and keeps the others'. -/
structure KeepsIndexes (s s' : State) : Prop where
  kept : ∀ c ∈ s.clients, ∀ d ∈ s'.clients, d.num = c.num → d.index = c.index
  new : ∀ d ∈ s'.clients, (∀ c ∈ s.clients, c.num ≠ d.num) →
    IsLeast {i | ∀ c ∈ s.clients, c.index ≠ i} d.index

section

variable {net : Net} {s s' : State} {e : Event}

theorem indexed_init : Indexed init := ⟨.nil, .nil, by simp [init]⟩

theorem Indexed.of_noneNew (hi : Indexed s) (h : NoneNew s s') :
    Indexed s' ∧ KeepsIndexes s s' := by
  obtain ⟨hsub, hcreated⟩ := h
  have hold : ∀ d ∈ s'.clients, ∃ c ∈ s.clients, c.num = d.num ∧ c.index = d.index := by
    intro d hd
    obtain ⟨c, hc, heq⟩ := List.mem_map.mp (hsub.subset (List.mem_map_of_mem hd))
    exact ⟨c, hc, congrArg Prod.fst heq, congrArg Prod.snd heq⟩
  refine ⟨⟨?_, ?_, ?_⟩, ?_, ?_⟩
  · have hsubindexes := hsub.map Prod.snd
    rw [map_snd_entries, map_snd_entries] at hsubindexes
    exact List.pairwise_map.mp ((List.pairwise_map.mpr hi.ascending).sublist hsubindexes)
  · have hsubnums := hsub.map Prod.fst
    rw [map_fst_entries, map_fst_entries] at hsubnums
    exact hsubnums.nodup hi.nums
  · intro d hd
    obtain ⟨c, hc, hnum, -⟩ := hold d hd
    have := hi.below c hc
    omega
  · intro c hc d hd hnum
    obtain ⟨c', hc', hnum', hindex⟩ := hold d hd
    rw [← hindex, eq_of_num_eq hi.nums hc' hc (hnum'.trans hnum)]
  · intro d hd hnew
    obtain ⟨c, hc, hnum, -⟩ := hold d hd
    exact absurd hnum (hnew c hc)

theorem Indexed.of_inserted (hi : Indexed s) (h : Inserted s s') :
    Indexed s' ∧ KeepsIndexes s s' := by
  obtain ⟨c, hnum, hclients, hcreated⟩ := h
  obtain ⟨j, hperm, hasc, hleast⟩ := insertAtLowestFreeIndex_least c hi.ascending
  rw [← hclients] at hperm hasc
  have hmem : ∀ d, d ∈ s'.clients → d = { c with index := j } ∨ d ∈ s.clients := fun d hd =>
    List.mem_cons.mp (hperm.mem_iff.mp hd)
  have hfresh : ∀ d ∈ s.clients, d.num ≠ c.num := fun d hd =>
    (hnum ▸ hi.below d hd).ne
  refine ⟨⟨hasc, ?_, ?_⟩, ?_, ?_⟩
  · rw [(hperm.map Client.num).nodup_iff, List.map_cons, List.nodup_cons]
    refine ⟨fun hin => ?_, hi.nums⟩
    obtain ⟨d, hd, heq⟩ := List.mem_map.mp hin
    exact hfresh d hd heq
  · intro d hd
    rcases hmem d hd with rfl | hd
    · simp only [hnum, hcreated]
      omega
    · have := hi.below d hd
      omega
  · intro b hb d hd hsame
    rcases hmem d hd with rfl | hd
    · exact absurd hsame.symm (hfresh b hb)
    · rw [eq_of_num_eq hi.nums hd hb hsame]
  · intro d hd hnew
    rcases hmem d hd with rfl | hd
    · exact hleast
    · exact absurd rfl (hnew d hd)

theorem indexed_step (hi : Indexed s) (h : step net s e = .ok s') :
    Indexed s' ∧ KeepsIndexes s s' := by
  rcases step_noneNew_or_inserted h with h | h
  · exact hi.of_noneNew h
  · exact hi.of_inserted h

theorem indexed_run {es : List Event} (hrun : run (step net) init es = .ok s) : Indexed s :=
  run_invariant_of_step Indexed (fun _ _ _ hi h => (indexed_step hi h).1) indexed_init hrun

/-- An index belongs to one client, which is the one that is found. -/
theorem Ascending.filter_index {clients : List Client} (h : Ascending clients)
    (p : ℕ → Bool) (hp : ∀ i j, p i = true → p j = true → i = j) :
    clients.filter (fun c => p c.index) = (clients.find? fun c => p c.index).toList := by
  induction clients with
  | nil => rfl
  | cons c clients ih =>
      obtain ⟨habove, hrest⟩ := List.pairwise_cons.mp h
      cases hc : p c.index with
      | false => simpa [hc] using ih hrest
      | true =>
          have hnone : clients.filter (fun d => p d.index) = [] := by
            rw [List.filter_eq_nil_iff]
            intro d hd hpd
            have := hp _ _ hc hpd
            have := habove d hd
            omega
          simp [hc, hnone]

theorem Indexed.filter_index (hi : Indexed s) (i : Int) :
    s.clients.filter (fun c => (c.index : Int) = i) = (getClientByIndex s.clients i).toList := by
  refine hi.ascending.filter_index (fun j => (j : Int) = i) fun j k hj hk => ?_
  simp only [decide_eq_true_eq] at hj hk
  omega

end

/-- In every state that is reached, the clients are in strictly increasing
order of their indexes; whatever happens next, a new client gets the lowest
index that is not in use and the others keep theirs; and no index is that of
two clients, for the methods `remove` and `list`. -/
theorem indexes_run {net : Net} {es : List Event} {s : State}
    (hrun : run (step net) init es = .ok s) :
    s.clients.Pairwise (fun c d => c.index < d.index) ∧
      (∀ e s', step net s e = .ok s' → KeepsIndexes s s') ∧
      (∀ i : Int, s.clients.filter (fun c => (c.index : Int) = i) =
        (getClientByIndex s.clients i).toList) ∧
      ∀ msg index, blobmsgParse clientIndexPolicy msg = [some index] →
        listClient s.clients msg =
          s.clients.filter fun c => c.index = (getU32 index.2).toNat := by
  have hi := indexed_run hrun
  refine ⟨hi.ascending, fun e s' h => (indexed_step hi h).2, hi.filter_index, ?_⟩
  intro msg index hparse
  rw [listClient, hparse]
  refine (hi.ascending.filter_index (fun j => j = (getU32 index.2).toNat) ?_).symm
  intro j k hj hk
  simp only [decide_eq_true_eq] at hj hk
  omega

def indexReused : List Event :=
  [.create (.ofString "10.0.0.1") 443 (.ofString "/") true,
    .create (.ofString "10.0.0.2") 443 (.ofString "/") true,
    .remove [(.ofString "index", .int32 0)],
    .add [(.ofString "ip", .string (.ofString "10.0.0.1"))] true]

theorem indexes_run_indexReused :
    ∃ s, run (step twoHosts) init indexReused = .ok s ∧ entries s.clients = [(2, 0), (1, 1)] ∧
      s.clients.Pairwise (fun c d => c.index < d.index) := by
  obtain ⟨s, hrun, hentries⟩ : ∃ s, run (step twoHosts) init indexReused = .ok s ∧
      entries s.clients = [(2, 0), (1, 1)] := ⟨_, rfl, rfl⟩
  exact ⟨s, hrun, hentries, (indexes_run hrun).1⟩

end Owsd.Registry
