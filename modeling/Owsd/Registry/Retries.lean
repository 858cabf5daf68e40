import Owsd.Registry.Owners

/-!
Clients that are not forgotten.

A client connects when its timer fires, so one without a connection needs its
timer. The callbacks at the end of a connection start it again, and so does a
connection that fails within the attempt, since it has its callback as well.
An attempt that gives neither a connection nor a callback leaves the client
with nothing: the callback of the timer returns and does not start it again.
-/

namespace Owsd.Registry

open Numbered

/-- The client has its timer running, or a connection in lws whose end it will
be told. -/
def Remembered (s : State) (c : Client) : Prop :=
  c.timer ≠ none ∨ ∃ conn ∈ s.conns, conn.owner = c.num ∧ c.wsi = some conn.wsi

def Event.silent : Event → Bool
  | .timer _ (.failed _) => true
  | _ => false

/-- No attempt fails without a callback, and a new connection gets no address
that another client still holds. -/
def Reported (s : State) (e : Event) : Prop := FreshAddress s e ∧ e.silent = false

instance (s : State) (e : Event) : Decidable (Reported s e) := inferInstanceAs (Decidable (_ ∧ _))

section

variable {net : Net} {s s' : State} {e : Event} {c d : Client}

theorem Remembered.mono (h : Remembered s c) (htimer : d.timer = c.timer) (hnum : d.num = c.num)
    (hwsi : d.wsi = c.wsi)
    (hconns : ∀ conn ∈ s.conns, c.wsi = some conn.wsi → conn.owner = c.num →
      ∃ conn' ∈ s'.conns, conn'.owner = conn.owner ∧ conn'.wsi = conn.wsi) :
    Remembered s' d := by
  rcases h with ht | ⟨conn, hconn, howner, hcw⟩
  · exact .inl (htimer ▸ ht)
  · obtain ⟨conn', hconn', howner', hwsi'⟩ := hconns conn hconn hcw howner
    exact .inr ⟨conn', hconn', by rw [howner', howner, hnum], by rw [hwsi, hcw, hwsi']⟩

theorem exists_conn_setPeer (s : State) (wsi : Wsi) (peer : Peer) :
    ∀ conn ∈ s.conns, ∃ conn' ∈ (s.setPeer wsi peer).conns,
      conn'.owner = conn.owner ∧ conn'.wsi = conn.wsi := by
  intro conn hconn
  by_cases hw : conn.wsi = wsi
  · exact ⟨_, mem_modify.mpr (.inr ⟨conn, hconn, hw, rfl⟩), rfl, rfl⟩
  · exact ⟨conn, mem_modify.mpr (.inl ⟨hconn, hw⟩), rfl, rfl⟩

/-- The end of a connection leaves those with other addresses. -/
theorem exists_conn_disconnect {wsi : Wsi} {conn : Conn} (hconn : conn ∈ s.conns)
    (hne : conn.wsi ≠ wsi) : ∃ conn' ∈ (s.disconnect wsi).conns,
      conn'.owner = conn.owner ∧ conn'.wsi = conn.wsi :=
  ⟨conn, List.mem_filter.mpr ⟨hconn, by simpa using hne⟩, rfl, rfl⟩

/-- A client other than the one whose connection ended still has its own. -/
theorem Remembered.disconnect {conn : Conn} (ho : Owned s) (hconn : conn ∈ s.conns)
    (h : Remembered s c) (hne : c.num ≠ conn.owner)
    (hconns : s'.conns = (s.disconnect conn.wsi).conns) : Remembered s' c := by
  refine h.mono rfl rfl rfl fun conn' hconn' _ howner => ?_
  rw [hconns]
  refine exists_conn_disconnect hconn' fun hw => hne ?_
  rw [← howner, ho.conn_eq hconn' hconn hw]

theorem remembered_effect (ho : Owned s) (hsilent : e.silent = false) (he : Effect net s e s')
    (h : s.started = true → ∀ c ∈ s.clients, Remembered s c) :
    s'.started = true → ∀ c ∈ s'.clients, Remembered s' c := by
  cases he with
  | idle => exact h
  | refusedAdd => exact h
  | created _ hcreated htimer =>
      intro hs d hd
      rcases hcreated.mem_iff.mp hd with rfl | hd
      · exact .inl (htimer hs)
      · exact h hs d hd
  | armed =>
      intro _ d hd
      obtain ⟨c, -, rfl⟩ := List.mem_map.mp hd
      exact .inl (Option.some_ne_none _)
  | removed p =>
      intro hs d hd
      rcases mem_removeWhere.mp hd with ⟨hmem, -⟩ | ⟨c, hc, -, -, rfl⟩
      · exact h hs d hmem
      · exact h hs c hc
  | gaveUp _ _ => cases hsilent
  | refused _ _ _ =>
      intro hs d hd
      rcases mem_modify.mp hd with ⟨hmem, -⟩ | ⟨c, -, -, rfl⟩
      · exact h hs d hmem
      · exact .inl (Option.some_ne_none _)
  | refusedLast _ _ _ =>
      intro hs d hd
      exact h hs d (mem_remove.mp hd).1
  | opened _ _ _ _ =>
      intro hs d hd
      rcases mem_modify.mp hd with ⟨hmem, -⟩ | ⟨c, -, hn, rfl⟩
      · refine (h hs d hmem).mono rfl rfl rfl fun conn hconn _ _ => ?_
        exact ⟨conn, List.mem_cons_of_mem _ hconn, rfl, rfl⟩
      · exact .inr ⟨_, List.mem_cons_self, hn.symm, rfl⟩
  | peer _ _ =>
      intro hs d hd
      exact (h hs d hd).mono rfl rfl rfl fun conn hconn _ _ => exists_conn_setPeer s _ _ conn hconn
  | established _ _ _ _ _ _ =>
      intro hs d hd
      have hpeer := exists_conn_setPeer s
      rcases mem_modify.mp hd with ⟨hmem, -⟩ | ⟨c, hc, -, rfl⟩
      · exact (h hs d hmem).mono rfl rfl rfl fun conn hconn _ _ => hpeer _ _ conn hconn
      · exact (h hs c hc).mono rfl rfl rfl fun conn hconn _ _ => hpeer _ _ conn hconn
  | lost _ _ hnone =>
      intro hs d hd
      refine (h hs d hd).mono rfl rfl rfl fun conn hconn hw _ => ?_
      exact exists_conn_disconnect hconn fun heq => hnone d hd (heq ▸ hw)
  | destroyed hconn _ _ hnum _ _ =>
      intro hs d hd
      obtain ⟨hmem, hne⟩ := mem_remove.mp hd
      exact (h hs d hmem).disconnect ho hconn (hnum ▸ hne) rfl
  | again hconn _ _ hnum _ _ hagain _ =>
      intro hs d hd
      rcases mem_modify.mp hd with ⟨hmem, hne⟩ | ⟨c, -, -, rfl⟩
      · exact (h hs d hmem).disconnect ho hconn (hnum ▸ hne) rfl
      · exact .inl (hagain.timer c)

end

/-- No client is forgotten. In a run without an attempt that fails without a
callback, and in which no new connection gets an address that another client
still holds, every client has its timer running or a connection, from when
`wsubus_client_connect_all` has run. -/
theorem remembered_run {net : Net} {s : State} {es : List Event}
    (hg : Guarded (step net) Reported init es) (hrun : run (step net) init es = .ok s)
    (hstarted : s.started = true) : ∀ c ∈ s.clients, Remembered s c := by
  have hinv : Owned s ∧ (s.started = true → ∀ c ∈ s.clients, Remembered s c) := by
    refine run_invariant
      (fun s => Owned s ∧ (s.started = true → ∀ c ∈ s.clients, Remembered s c)) ?_
      ⟨owned_init, by simp [init]⟩ hg hrun
    rintro s e s' ⟨ho, hr⟩ hrep hstep
    have he := step_effect ho hrep.1 hstep
    exact ⟨owned_effect ho he, remembered_effect ho hrep.2 he hr⟩
  exact hinv.2 hstarted

def oneRefused : List Event :=
  [.create (.ofString "10.0.0.1") 443 (.ofString "/") true,
    .create (.ofString "10.0.0.2") 443 (.ofString "/") true,
    .connectAll, .timer 0 (.refused 7), .timer 1 (.opened 7)]

theorem remembered_run_oneRefused :
    ∃ s, run (step twoHosts) init oneRefused = .ok s ∧
      s.clients.map (fun c => (c.timer, c.wsi)) = [(some 2000, none), (none, some 7)] ∧
      ∀ c ∈ s.clients, Remembered s c := by
  have hg : Guarded (step twoHosts) Reported init oneRefused :=
    .cons (by decide) rfl (.cons (by decide) rfl (.cons (by decide) rfl (.cons (by decide) rfl
      (.cons (by decide) rfl trivial))))
  obtain ⟨s, hrun, hclients, hstarted⟩ : ∃ s, run (step twoHosts) init oneRefused = .ok s ∧
      s.clients.map (fun c => (c.timer, c.wsi)) = [(some 2000, none), (none, some 7)] ∧
      s.started = true := ⟨_, rfl, rfl, rfl⟩
  exact ⟨s, hrun, hclients, remembered_run hg hrun hstarted⟩

/-- The attempt fails without a callback. The client is left with neither a
timer nor a connection. -/
theorem client_forgotten :
    ∃ s, run (step twoHosts) init
        [.create (.ofString "10.0.0.1") 443 (.ofString "/") true, .connectAll,
          .timer 0 (.failed true)] = .ok s ∧
      s.started = true ∧ s.clients.map (fun c => (c.state, c.timer)) = [(.disconnected, none)] ∧
      s.conns = [] :=
  ⟨_, rfl, rfl, rfl, rfl⟩

end Owsd.Registry
