import Owsd.Basis.Run
import Owsd.Basis.SlotTable

/-!
The watches and timeouts of libdbus in the event loop (`dbus-io.c`).

The library asks for sockets to be watched and for timeouts through six
callbacks. Each watch and each timeout gets a slot of a table of fixed size
and remembers the slot as its data. A callback may run while another part of
the library handles a timeout or a socket. Beside the tables the state keeps
what the library holds: a watch or timeout is live from the call that added
it, when that returned `TRUE`, until the call that removes it.
-/

namespace Owsd.Dbus

def maxWsdTimers : ℕ := 10

def maxWsdFds : ℕ := 4

structure DBusTimeout where
  enabled : Bool
  interval : ℕ

/-- What the library says of a watch: its flags and its socket. -/
structure DBusWatch where
  enabled : Bool
  readable : Bool
  writable : Bool
  socket : ℕ

/-- `ULOOP_READ` and `ULOOP_WRITE`. -/
structure UloopFlags where
  read : Bool
  write : Bool
  deriving DecidableEq

/-- `struct wsd_utimer`. A timer that is pending has the interval it was set
to. -/
structure WsdUtimer where
  pending : Option ℕ
  dtimer : Option ℕ

/-- `struct wsd_ufd`. A descriptor that is registered has the events it was
registered for. -/
structure WsdUfd where
  fd : ℕ
  registered : Option UloopFlags
  dfd : Option ℕ

structure Loop where
  timers : Fin maxWsdTimers → WsdUtimer
  fds : Fin maxWsdFds → WsdUfd
  /-- `dbus_timeout_get_data`. -/
  timeoutData : ℕ → Option (Fin maxWsdTimers)
  /-- `dbus_watch_get_data`. -/
  watchData : ℕ → Option (Fin maxWsdFds)
  liveTimeouts : Finset ℕ
  liveWatches : Finset ℕ
  /-- The timer whose timeout the library is handling. -/
  triggered : Option (Fin maxWsdTimers)

inductive LoopFault where
  | assertion
  | nullPointer
  deriving DecidableEq

namespace Loop

def init : Loop where
  timers _ := { pending := none, dtimer := none }
  fds _ := { fd := 0, registered := none, dfd := none }
  timeoutData _ := none
  watchData _ := none
  liveTimeouts := ∅
  liveWatches := ∅
  triggered := none

def setTimer (s : Loop) (i : Fin maxWsdTimers) (wsd : WsdUtimer) : Loop :=
  { s with timers := Function.update s.timers i wsd }

def setFd (s : Loop) (i : Fin maxWsdFds) (wsd : WsdUfd) : Loop :=
  { s with fds := Function.update s.fds i wsd }

/-! ### The callbacks -/

def wsdAddTimeout (s : Loop) (timeout : ℕ) (d : DBusTimeout) : Bool × Loop :=
  match firstFree fun i => (s.timers i).dtimer with
  | none => (false, s)
  | some i =>
      let s := { s with timeoutData := Function.update s.timeoutData timeout (some i) }
      (true, s.setTimer i
        { pending := if d.enabled then some d.interval else (s.timers i).pending
          dtimer := some timeout })

/-- `wsd_mod_timeout`. Setting a timer that is pending cancels it first. -/
def wsdModTimeout (s : Loop) (timeout : ℕ) (d : DBusTimeout) : Except LoopFault Loop :=
  match s.timeoutData timeout with
  | none => .error .assertion
  | some i =>
      .ok (s.setTimer i
        { s.timers i with pending := if d.enabled then some d.interval else none })

def wsdDelTimeout (s : Loop) (timeout : ℕ) : Except LoopFault Loop :=
  match s.timeoutData timeout with
  | none => .error .assertion
  | some i => .ok (s.setTimer i { pending := none, dtimer := none })

/-- `eventmask_dbus_to_ufd` on the flags of a watch. -/
def eventmaskDbusToUfd (d : DBusWatch) : UloopFlags := { read := d.readable, write := d.writable }

/-- `uloop_fd_add`, which fails when the kernel refuses the descriptor.
Without events it deletes the descriptor. -/
def uloopFdAdd (wsd : WsdUfd) (flags : UloopFlags) (accepted : Bool) : Bool × WsdUfd :=
  if accepted then
    (true, { wsd with registered := if flags.read || flags.write then some flags else none })
  else (false, wsd)

def wsdAddFd (s : Loop) (dfd : ℕ) (d : DBusWatch) (accepted : Bool) : Bool × Loop :=
  match firstFree fun i => (s.fds i).dfd with
  | none => (false, s)
  | some i =>
      let wsd := { s.fds i with
        dfd := some dfd
        fd := d.socket }
      let s := { s with watchData := Function.update s.watchData dfd (some i) }
      if d.enabled then
        let added := uloopFdAdd wsd (eventmaskDbusToUfd d) accepted
        (added.1, s.setFd i added.2)
      else (true, s.setFd i wsd)

/-- `wsd_mod_fd`, which asks for the flags of the watch in the slot. -/
def wsdModFd (s : Loop) (watch : ℕ) (d : ℕ → DBusWatch) (accepted : Bool) :
    Except LoopFault Loop :=
  match s.watchData watch with
  | none => .error .assertion
  | some i =>
      let wsd := s.fds i
      match wsd.dfd with
      | none => .error .nullPointer
      | some dfd =>
          if (d dfd).enabled then
            let wsd := { wsd with fd := (d dfd).socket }
            .ok (s.setFd i (uloopFdAdd wsd (eventmaskDbusToUfd (d dfd)) accepted).2)
          else .ok (s.setFd i { wsd with registered := none })

/-- `wsd_del_fd`. The watch stays in its slot. -/
def wsdDelFd (s : Loop) (watch : ℕ) : Except LoopFault Loop :=
  match s.watchData watch with
  | none => .error .assertion
  | some i => .ok (s.setFd i { s.fds i with registered := none })

/-- A call of the library, with what it says of its timeouts and watches at
that moment and what the kernel answers to a registration. -/
inductive Call where
  | addTimeout (timeout : ℕ) (d : DBusTimeout)
  | modTimeout (timeout : ℕ) (d : DBusTimeout)
  | delTimeout (timeout : ℕ)
  | addFd (watch : ℕ) (d : DBusWatch) (accepted : Bool)
  | modFd (watch : ℕ) (d : ℕ → DBusWatch) (accepted : Bool)
  | delFd (watch : ℕ)

def call (s : Loop) : Call → Except LoopFault Loop
  | .addTimeout t d =>
      let r := s.wsdAddTimeout t d
      .ok (if r.1 then { r.2 with liveTimeouts := insert t s.liveTimeouts } else r.2)
  | .modTimeout t d => s.wsdModTimeout t d
  | .delTimeout t => do
      let s ← s.wsdDelTimeout t
      pure { s with liveTimeouts := s.liveTimeouts.erase t }
  | .addFd w d accepted =>
      let r := s.wsdAddFd w d accepted
      .ok (if r.1 then { r.2 with liveWatches := insert w s.liveWatches } else r.2)
  | .modFd w d accepted => s.wsdModFd w d accepted
  | .delFd w => do
      let s ← s.wsdDelFd w
      pure { s with liveWatches := s.liveWatches.erase w }

/-- `wsd_trigger_timer` as far as the library handles the timeout. The loop
takes the timer off before it calls the function. -/
def wsdTriggerTimer (s : Loop) (i : Fin maxWsdTimers) : Except LoopFault Loop :=
  match (s.timers i).dtimer with
  | none => .error .nullPointer
  | some _ =>
      let s := s.setTimer i { s.timers i with pending := none }
      .ok { s with triggered := some i }

/-- The rest of `wsd_trigger_timer`: the timer is set again unless its slot
was cleared. -/
def wsdTimerHandled (s : Loop) (interval : ℕ) : Loop :=
  match s.triggered with
  | none => s
  | some i =>
      let s := { s with triggered := none }
      if (s.timers i).dtimer.isSome then
        s.setTimer i { s.timers i with pending := some interval }
      else s

/-- `wsd_trigger_io`, which hands the watch of the slot to the library. -/
def wsdTriggerIo (s : Loop) (i : Fin maxWsdFds) : Except LoopFault Loop :=
  match (s.fds i).dfd with
  | none => .error .nullPointer
  | some _ => .ok s

/-- What happens in the loop. The calls the library makes while it handles a
timeout stand between `timer` and `handled`. -/
inductive LoopEvent where
  | called (c : Call)
  | timer (i : Fin maxWsdTimers)
  | handled (interval : ℕ)
  | io (i : Fin maxWsdFds)

def step (s : Loop) : LoopEvent → Except LoopFault Loop
  | .called c => s.call c
  | .timer i => s.wsdTriggerTimer i
  | .handled interval => .ok (s.wsdTimerHandled interval)
  | .io i => s.wsdTriggerIo i

/-! ### The use of the library

The library adds what is not live and changes or removes what is, with no
more live at once than there are slots. It is called for a timer that is
pending and a descriptor that is registered. -/

def Allowed (s : Loop) : Call → Prop
  | .addTimeout t _ => t ∉ s.liveTimeouts ∧ s.liveTimeouts.card < maxWsdTimers
  | .modTimeout t _ => t ∈ s.liveTimeouts
  | .delTimeout t => t ∈ s.liveTimeouts
  | .addFd w _ _ => w ∉ s.liveWatches ∧ s.liveWatches.card < maxWsdFds
  | .modFd w _ _ => w ∈ s.liveWatches
  | .delFd w => w ∈ s.liveWatches

/-- The calls after which no slot of a descriptor is left behind: no watch is
removed, and the kernel takes the descriptor of a watch that is added. -/
def LeavesNoSlot : Call → Prop
  | .delFd _ => False
  | .addFd _ d accepted => d.enabled = true → accepted = true
  | _ => True

/-- The calls are those the library makes, and the loop triggers one timer or
descriptor at a time. -/
def Within (s : Loop) : LoopEvent → Prop
  | .called c => s.Allowed c
  | .timer i => (s.timers i).pending ≠ none ∧ s.triggered = none
  | .handled _ => s.triggered ≠ none
  | .io i => (s.fds i).registered ≠ none ∧ s.triggered = none

/-- Each live timeout and watch owns exactly one slot, and one that is not
live owns none. -/
structure SlotsInStep (s : Loop) : Prop where
  timeout : ∀ t ∈ s.liveTimeouts, ∃! i, (s.timers i).dtimer = some t
  noTimeout : ∀ t, t ∉ s.liveTimeouts → ∀ i, (s.timers i).dtimer ≠ some t
  watch : ∀ w ∈ s.liveWatches, ∃! i, (s.fds i).dfd = some w
  noWatch : ∀ w, w ∉ s.liveWatches → ∀ i, (s.fds i).dfd ≠ some w

/-- Every call that may add a timeout or a watch now finds a slot for it. -/
structure AddsFind (s : Loop) : Prop where
  timeout : ∀ t d, s.Allowed (.addTimeout t d) → (s.wsdAddTimeout t d).1 = true
  watch : ∀ w d, s.Allowed (.addFd w d true) → (s.wsdAddFd w d true).1 = true

/-! ### The invariant -/

/-- The tables agree with what is live, and what the loop may call for is in
a slot with an owner. -/
structure Tidy (s : Loop) : Prop where
  timers : SlotsOwned (fun i => (s.timers i).dtimer) s.timeoutData s.liveTimeouts
  fds : SlotsOwned (fun i => (s.fds i).dfd) s.watchData s.liveWatches
  pending : ∀ i, (s.timers i).pending ≠ none → (s.timers i).dtimer ≠ none
  registered : ∀ i, (s.fds i).registered ≠ none → (s.fds i).dfd ≠ none

theorem tidy_init : Tidy init where
  timers := SlotsOwned.empty _
  fds := SlotsOwned.empty _
  pending _ h := absurd rfl h
  registered _ h := absurd rfl h

variable {s : Loop}

theorem dtimer_setTimer (s : Loop) (i : Fin maxWsdTimers) (wsd : WsdUtimer) :
    (fun j => ((s.setTimer i wsd).timers j).dtimer) =
      Function.update (fun j => (s.timers j).dtimer) i wsd.dtimer :=
  Function.comp_update WsdUtimer.dtimer s.timers i wsd

theorem dfd_setFd (s : Loop) (i : Fin maxWsdFds) (wsd : WsdUfd) :
    (fun j => ((s.setFd i wsd).fds j).dfd) =
      Function.update (fun j => (s.fds j).dfd) i wsd.dfd :=
  Function.comp_update WsdUfd.dfd s.fds i wsd

theorem pending_setTimer (h : s.Tidy) {i : Fin maxWsdTimers} {wsd : WsdUtimer}
    (hwsd : wsd.pending ≠ none → wsd.dtimer ≠ none) (j : Fin maxWsdTimers) :
    ((s.setTimer i wsd).timers j).pending ≠ none →
      ((s.setTimer i wsd).timers j).dtimer ≠ none := by
  by_cases hji : j = i
  · subst hji
    simpa [setTimer] using hwsd
  · simpa [setTimer, hji] using h.pending j

theorem registered_setFd (h : s.Tidy) {i : Fin maxWsdFds} {wsd : WsdUfd}
    (hwsd : wsd.registered ≠ none → wsd.dfd ≠ none) (j : Fin maxWsdFds) :
    ((s.setFd i wsd).fds j).registered ≠ none → ((s.setFd i wsd).fds j).dfd ≠ none := by
  by_cases hji : j = i
  · subst hji
    simpa [setFd] using hwsd
  · simpa [setFd, hji] using h.registered j

theorem Tidy.setTimer (h : s.Tidy) {i : Fin maxWsdTimers} {wsd : WsdUtimer}
    (howner : wsd.dtimer = (s.timers i).dtimer)
    (hwsd : wsd.pending ≠ none → wsd.dtimer ≠ none) : (s.setTimer i wsd).Tidy where
  timers := by
    rw [dtimer_setTimer, howner, Function.update_eq_self]
    exact h.timers
  fds := h.fds
  pending := pending_setTimer h hwsd
  registered := h.registered

theorem Tidy.setFd (h : s.Tidy) {i : Fin maxWsdFds} {wsd : WsdUfd}
    (howner : wsd.dfd = (s.fds i).dfd)
    (hwsd : wsd.registered ≠ none → wsd.dfd ≠ none) : (s.setFd i wsd).Tidy where
  timers := h.timers
  fds := by
    rw [dfd_setFd, howner, Function.update_eq_self]
    exact h.fds
  pending := h.pending
  registered := registered_setFd h hwsd

/-! ### One call -/

theorem wsdAddTimeout_spec (h : s.Tidy) {t : ℕ} (ht : t ∉ s.liveTimeouts)
    (hcard : s.liveTimeouts.card < maxWsdTimers) (d : DBusTimeout) :
    ∃ s', s.wsdAddTimeout t d = (true, s') ∧
      Tidy { s' with liveTimeouts := insert t s.liveTimeouts } := by
  obtain ⟨i, hi⟩ := h.timers.exists_firstFree hcard
  have hfree := firstFree_eq_none hi
  let wsd : WsdUtimer :=
    { pending := if d.enabled then some d.interval else (s.timers i).pending
      dtimer := some t }
  let s' : Loop := { s with timeoutData := Function.update s.timeoutData t (some i) }
  refine ⟨s'.setTimer i wsd, ?_, ?_, h.fds, ?_, h.registered⟩
  · rw [wsdAddTimeout, hi]
  · have howned := h.timers.assign ht hfree
    rwa [← dtimer_setTimer s i wsd] at howned
  · exact pending_setTimer h fun _ => Option.some_ne_none t

theorem wsdAddFd_spec (h : s.Tidy) {w : ℕ} (hw : w ∉ s.liveWatches)
    (hcard : s.liveWatches.card < maxWsdFds) (d : DBusWatch) {accepted : Bool}
    (hacc : d.enabled = true → accepted = true) :
    ∃ s', s.wsdAddFd w d accepted = (true, s') ∧
      Tidy { s' with liveWatches := insert w s.liveWatches } := by
  obtain ⟨i, hi⟩ := h.fds.exists_firstFree hcard
  have hfree := firstFree_eq_none hi
  have howned := h.fds.assign hw hfree
  -- Whatever events the slot is registered for, its owner is the new watch.
  let s' : Loop := { s with watchData := Function.update s.watchData w (some i) }
  have hset : ∀ wsd : WsdUfd, wsd.dfd = some w →
      Tidy { s'.setFd i wsd with liveWatches := insert w s.liveWatches } := by
    intro wsd hwsd
    refine ⟨h.timers, ?_, h.pending, ?_⟩
    · rwa [← hwsd, ← dfd_setFd s i wsd] at howned
    · exact registered_setFd h fun _ => by simp [hwsd]
  cases henabled : d.enabled with
  | false =>
      refine ⟨_, ?_, hset { s.fds i with dfd := some w, fd := d.socket } rfl⟩
      rw [wsdAddFd, hi]
      simp [henabled, s']
  | true =>
      obtain rfl := hacc henabled
      refine ⟨_, ?_, hset (uloopFdAdd { s.fds i with dfd := some w, fd := d.socket }
        (eventmaskDbusToUfd d) true).2 rfl⟩
      rw [wsdAddFd, hi]
      simp [henabled, uloopFdAdd, s']

theorem wsdModTimeout_spec (h : s.Tidy) {t : ℕ} (ht : t ∈ s.liveTimeouts) (d : DBusTimeout) :
    ∃ s', s.wsdModTimeout t d = .ok s' ∧ s'.Tidy := by
  obtain ⟨i, hdata, howner⟩ := h.timers.place t ht
  have hne : (s.timers i).dtimer ≠ none := by
    rw [howner]
    exact Option.some_ne_none t
  refine ⟨s.setTimer i
    { s.timers i with pending := if d.enabled then some d.interval else none }, ?_,
    h.setTimer rfl fun _ => hne⟩
  rw [wsdModTimeout, hdata]

theorem wsdDelTimeout_spec (h : s.Tidy) {t : ℕ} (ht : t ∈ s.liveTimeouts) :
    ∃ s', s.wsdDelTimeout t = .ok s' ∧
      Tidy { s' with liveTimeouts := s'.liveTimeouts.erase t } := by
  obtain ⟨i, hdata, howner⟩ := h.timers.place t ht
  refine ⟨s.setTimer i ⟨none, none⟩, ?_, ?_, h.fds, ?_, h.registered⟩
  · rw [wsdDelTimeout, hdata]
  · have howned := h.timers.release howner
    rwa [← dtimer_setTimer s i ⟨none, none⟩] at howned
  · exact pending_setTimer h fun hne => absurd rfl hne

theorem uloopFdAdd_dfd (wsd : WsdUfd) (flags : UloopFlags) (accepted : Bool) :
    (uloopFdAdd wsd flags accepted).2.dfd = wsd.dfd := by
  cases accepted with
  | false => rfl
  | true => rfl

theorem wsdModFd_spec (h : s.Tidy) {w : ℕ} (hw : w ∈ s.liveWatches) (d : ℕ → DBusWatch)
    (accepted : Bool) : ∃ s', s.wsdModFd w d accepted = .ok s' ∧ s'.Tidy := by
  obtain ⟨i, hdata, howner⟩ := h.fds.place w hw
  have hne : (s.fds i).dfd ≠ none := by
    rw [howner]
    exact Option.some_ne_none w
  cases henabled : (d w).enabled with
  | false =>
      refine ⟨s.setFd i { s.fds i with registered := none }, ?_, h.setFd rfl fun _ => hne⟩
      simp [wsdModFd, hdata, howner, henabled]
  | true =>
      refine ⟨s.setFd i (uloopFdAdd { s.fds i with fd := (d w).socket }
        (eventmaskDbusToUfd (d w)) accepted).2, ?_, h.setFd ?_ fun _ => ?_⟩
      · simp [wsdModFd, hdata, howner, henabled]
      · rw [uloopFdAdd_dfd]
      · rw [uloopFdAdd_dfd]
        exact hne

/-- A call that leaves no slot behind keeps the tables in step. -/
theorem call_spec (h : s.Tidy) {c : Call} (hallowed : s.Allowed c) (hleaves : LeavesNoSlot c) :
    ∃ s', s.call c = .ok s' ∧ s'.Tidy := by
  cases c with
  | addTimeout t d =>
      obtain ⟨s', hadd, htidy⟩ := wsdAddTimeout_spec h hallowed.1 hallowed.2 d
      refine ⟨_, ?_, htidy⟩
      simp [call, hadd]
  | modTimeout t d => exact wsdModTimeout_spec h hallowed d
  | delTimeout t =>
      obtain ⟨s', hdel, htidy⟩ := wsdDelTimeout_spec h hallowed
      refine ⟨_, ?_, htidy⟩
      rw [call, hdel]
      rfl
  | addFd w d accepted =>
      obtain ⟨s', hadd, htidy⟩ := wsdAddFd_spec h hallowed.1 hallowed.2 d hleaves
      refine ⟨_, ?_, htidy⟩
      simp [call, hadd]
  | modFd w d accepted => exact wsdModFd_spec h hallowed d accepted
  | delFd w => exact absurd hleaves id

/-! ### Whole runs -/

theorem wsdTimerHandled_tidy (h : s.Tidy) (interval : ℕ) : (s.wsdTimerHandled interval).Tidy := by
  rw [wsdTimerHandled]
  split
  · exact h
  · next i hi =>
      have hs : Tidy { s with triggered := none } :=
        ⟨h.timers, h.fds, h.pending, h.registered⟩
      dsimp only
      split
      · next hsome =>
          refine hs.setTimer ?_ fun _ => ?_
          · rfl
          · exact Option.isSome_iff_ne_none.mp hsome
      · exact hs

theorem step_spec (h : s.Tidy) {e : LoopEvent} (he : s.Within e)
    (hleaves : ∀ c, e = .called c → LeavesNoSlot c) : ∃ s', s.step e = .ok s' ∧ s'.Tidy := by
  cases e with
  | called c => exact call_spec h he (hleaves c rfl)
  | timer i =>
      obtain ⟨t, ht⟩ := Option.ne_none_iff_exists'.mp (h.pending i he.1)
      have hset : (s.setTimer i { s.timers i with pending := none }).Tidy :=
        h.setTimer rfl fun hne => absurd rfl hne
      refine ⟨{ s.setTimer i { s.timers i with pending := none } with triggered := some i }, ?_,
        hset.timers, hset.fds, hset.pending, hset.registered⟩
      rw [step, wsdTriggerTimer, ht]
  | handled interval => exact ⟨_, rfl, wsdTimerHandled_tidy h interval⟩
  | io i =>
      obtain ⟨w, hw⟩ := Option.ne_none_iff_exists'.mp (h.registered i he.1)
      refine ⟨s, ?_, h⟩
      rw [step, wsdTriggerIo, hw]

theorem Tidy.slotsInStep (h : s.Tidy) : s.SlotsInStep where
  timeout _ ht := h.timers.existsUnique ht
  noTimeout _ ht := h.timers.ne_of_not_mem ht
  watch _ hw := h.fds.existsUnique hw
  noWatch _ hw := h.fds.ne_of_not_mem hw

theorem Tidy.addsFind (h : s.Tidy) : s.AddsFind where
  timeout t d hallowed := by
    obtain ⟨s', hadd, -⟩ := wsdAddTimeout_spec h hallowed.1 hallowed.2 d
    rw [hadd]
  watch w d hallowed := by
    obtain ⟨s', hadd, -⟩ := wsdAddFd_spec h hallowed.1 hallowed.2 d fun _ => rfl
    rw [hadd]

theorem delFd_leaves_slot (h : s.Tidy) {w : ℕ} (hw : w ∈ s.liveWatches) {s' : Loop}
    (hcall : s.call (.delFd w) = .ok s') : ¬ s'.SlotsInStep := by
  obtain ⟨i, hdata, howner⟩ := h.fds.place w hw
  intro hstep
  have hdel : s.wsdDelFd w = .ok (s.setFd i { s.fds i with registered := none }) := by
    rw [wsdDelFd, hdata]
  rw [call, hdel] at hcall
  cases hcall
  apply hstep.noWatch w (Finset.notMem_erase w _) i
  simpa [setFd] using howner

/-- A watch whose descriptor the kernel refused is in a slot too. -/
theorem refusedFd_leaves_slot (h : s.Tidy) {w : ℕ} (hw : w ∉ s.liveWatches)
    (hcard : s.liveWatches.card < maxWsdFds) {d : DBusWatch} (henabled : d.enabled = true)
    {s' : Loop} (hcall : s.call (.addFd w d false) = .ok s') : ¬ s'.SlotsInStep := by
  obtain ⟨i, hi⟩ := h.fds.exists_firstFree hcard
  intro hstep
  have hadd : s.wsdAddFd w d false =
      (false, ({ s with watchData := Function.update s.watchData w (some i) } : Loop).setFd i
        { s.fds i with
          dfd := some w
          fd := d.socket }) := by
    rw [wsdAddFd, hi]
    simp [henabled, uloopFdAdd]
  rw [call, hadd] at hcall
  cases hcall
  apply hstep.noWatch w hw i
  simp [setFd]

theorem leavesNoSlot_of_inStep (h : s.Tidy) {c : Call} (hallowed : s.Allowed c) {s' : Loop}
    (hcall : s.call c = .ok s') (hstep : s'.SlotsInStep) : LeavesNoSlot c := by
  cases c with
  | addFd w d accepted =>
      intro henabled
      cases accepted with
      | true => rfl
      | false =>
          exact absurd hstep (refusedFd_leaves_slot h hallowed.1 hallowed.2 henabled hcall)
  | delFd w => exact absurd hstep (delFd_leaves_slot h hallowed hcall)
  | addTimeout | modTimeout | delTimeout | modFd => trivial

/-- From a state where the tables are in step, they stay so exactly over the
runs whose calls leave no slot behind. -/
theorem in_step_iff (h : s.Tidy) {es : List LoopEvent} (hg : Guarded step Within s es) :
    (∀ pre, pre <+: es → ∃ t, run step s pre = .ok t ∧ t.SlotsInStep ∧ t.AddsFind) ↔
      ∀ c, LoopEvent.called c ∈ es → LeavesNoSlot c := by
  induction es generalizing s with
  | nil =>
      constructor
      · intro _ c hc
        cases hc
      · intro _ pre hpre
        rw [List.prefix_nil.mp hpre]
        exact ⟨s, rfl, h.slotsInStep, h.addsFind⟩
  | cons e es ih =>
      constructor
      · intro hgood
        obtain ⟨t, hrun, hstep, -⟩ := hgood [e] (by simp)
        obtain ⟨t', ht, hnil⟩ := run_cons_ok hrun
        obtain rfl : t' = t := by simpa [run] using hnil
        -- The first call leaves no slot, as the state behind it is in step.
        have hfirst : ∀ c, e = .called c → LeavesNoSlot c := by
          rintro c rfl
          exact leavesNoSlot_of_inStep h hg.1 ht hstep
        obtain ⟨t'', ht'', htidy⟩ := step_spec h hg.1 hfirst
        obtain rfl : t' = t'' := by simpa [ht] using ht''
        have hrest := (ih htidy (hg.2 t' ht)).mp fun pre hpre => by
          obtain ⟨u, hu, hin⟩ := hgood (e :: pre) (by simpa using hpre)
          rw [run_cons ht] at hu
          exact ⟨u, hu, hin⟩
        intro c hc
        rcases List.mem_cons.mp hc with heq | hmem
        · exact hfirst c heq.symm
        · exact hrest c hmem
      · intro hleaves pre hpre
        cases pre with
        | nil => exact ⟨s, rfl, h.slotsInStep, h.addsFind⟩
        | cons e' pre =>
            obtain ⟨rfl, hrest⟩ := List.cons_prefix_cons.mp hpre
            obtain ⟨t, ht, htidy⟩ :=
              step_spec h hg.1 fun c hc => hleaves c (by simp [hc])
            rw [run_cons ht]
            exact (ih htidy (hg.2 t ht)).mpr
              (fun c hc => hleaves c (List.mem_cons_of_mem _ hc)) pre hrest

/-- In the runs of the library, slots and what is live are in step at every
moment and each call that adds finds a slot exactly when no watch is removed
and the kernel takes every watch that is added. Timeouts come and go
freely. -/
theorem slots_recycled_iff {es : List LoopEvent} (hg : Guarded step Within init es) :
    (∀ pre, pre <+: es → ∃ s, run step init pre = .ok s ∧ s.SlotsInStep ∧ s.AddsFind) ↔
      ∀ c, LoopEvent.called c ∈ es → LeavesNoSlot c :=
  in_step_iff tidy_init hg

/-- A watch of the socket `w` that is enabled for reading. -/
def readWatch (w : ℕ) : DBusWatch where
  enabled := true
  readable := true
  writable := false
  socket := w

def timeoutAndWatch : List LoopEvent :=
  [.called (.addTimeout 0 ⟨true, 25⟩), .called (.delTimeout 0),
    .called (.addFd 0 (readWatch 0) true)]

theorem slots_recycled_iff_timeoutAndWatch :
    (∀ pre, pre <+: timeoutAndWatch →
      ∃ s, run step init pre = .ok s ∧ s.SlotsInStep ∧ s.AddsFind) ↔
      ∀ c, LoopEvent.called c ∈ timeoutAndWatch → LeavesNoSlot c := by
  apply slots_recycled_iff
  refine Guarded.cons ⟨by decide, by decide⟩ rfl ?_
  refine Guarded.cons (Finset.mem_insert_self ..) rfl ?_
  exact Guarded.cons ⟨by decide, by decide⟩ rfl trivial

def reconnects (n : ℕ) : List LoopEvent :=
  (List.range n).flatMap fun w =>
    [.called (.addFd w (readWatch w) true), .called (.delFd w)]

/-- After four watches came and went, none is live, the first one still owns
a slot and no watch can be added any more. -/
theorem fifth_watch_refused :
    Guarded step Within init (reconnects 4) ∧
    ∃ s, run step init (reconnects 4) = .ok s ∧ s.liveWatches = ∅ ∧
      (s.fds ⟨0, by decide⟩).dfd = some 0 ∧ s.Allowed (.addFd 4 (readWatch 4) true) ∧
      (s.wsdAddFd 4 (readWatch 4) true).1 = false ∧ ¬ s.SlotsInStep ∧ ¬ s.AddsFind := by
  constructor
  · refine Guarded.cons ⟨by decide, by decide⟩ rfl ?_
    refine Guarded.cons (Finset.mem_insert_self ..) rfl ?_
    refine Guarded.cons ⟨by decide, by decide⟩ rfl ?_
    refine Guarded.cons (Finset.mem_insert_self ..) rfl ?_
    refine Guarded.cons ⟨by decide, by decide⟩ rfl ?_
    refine Guarded.cons (Finset.mem_insert_self ..) rfl ?_
    refine Guarded.cons ⟨by decide, by decide⟩ rfl ?_
    exact Guarded.cons (Finset.mem_insert_self ..) rfl trivial
  · have hallowed : ∀ s : Loop, s.liveWatches = ∅ → s.Allowed (.addFd 4 (readWatch 4) true) := by
      intro s hs
      simp [Allowed, hs, maxWsdFds]
    refine ⟨_, rfl, by decide, by decide, hallowed _ (by decide), by decide, ?_, ?_⟩
    · intro hstep
      exact hstep.noWatch 0 (by decide) ⟨0, by decide⟩ (by decide)
    · intro hfind
      exact absurd (hfind.watch 4 (readWatch 4) (hallowed _ (by decide))) (by decide)

end Loop

end Owsd.Dbus
