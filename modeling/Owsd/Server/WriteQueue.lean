import Owsd.Basis.Run
import Owsd.Server.Receive

/-!
The write queue of a connection (`wsu_queue_write_str` and `wsubus_tx_text`
of `wsubus.impl.h`).

Texts are queued whole and written when lws says that the connection is
writable, in as many calls of `lws_write` as lws takes them in. A callback
may stop in the middle of a text and the next one goes on there. A step of
the machine is a call of `wsu_queue_write_str`, the start of a callback, or
one return of `lws_write` inside a callback with all that follows up to the
next call, so that the states in between can be seen. `queued`, `finished`
and `accepted` record what happened; the code never reads them.
-/

namespace Owsd.Server

/-- `struct wsu_writereq`: a text, and how much of it was written. -/
structure WsuWritereq where
  buf : CString
  written : ℕ
  deriving DecidableEq

def WsuWritereq.len (w : WsuWritereq) : ℕ := w.buf.length

/-- What `lws_write` is given: the rest of the text. -/
def WsuWritereq.offered (w : WsuWritereq) : CString := w.buf.drop w.written

/-- The write side of `struct wsu_peer`. -/
structure Writer where
  writeQ : List WsuWritereq
  /-- Inside `wsubus_tx_text`: the place in the queue of the request `w` that
  is being written. -/
  cursor : Option ℕ
  /-- The texts that were queued, the oldest first. -/
  queued : List CString
  /-- The texts that were taken off the queue, the oldest first. -/
  finished : List CString
  /-- What lws has accepted. -/
  accepted : CString
  deriving DecidableEq

inductive WriteFault where
  | messageTooLong
  deriving DecidableEq

/-- What happens on a connection: a text is queued, with the answers of
`malloc` and `lws_callback_on_writable`; lws says that the connection is
writable; `lws_write` returns, and `lws_partial_buffered` says, until the next
call of `lws_write`, whether lws still holds a part of what it accepted. -/
inductive WriteEvent where
  | queue (responseStr : Option CString) (malloc : Bool) (onWritable : Int)
  | writable
  | written (ret : Int) (buffered : Bool)

namespace Writer

def init : Writer :=
  { writeQ := [], cursor := none, queued := [], finished := [], accepted := [] }

/-- `list_add_tail` of a new request. -/
def addTail (s : Writer) (str : CString) : Writer :=
  { s with
    writeQ := s.writeQ ++ [{ buf := str, written := 0 }]
    queued := s.queued ++ [str] }

/-- `wsu_queue_write_str`, with its return value. -/
def wsuQueueWriteStr (s : Writer) (responseStr : Option CString) (malloc : Bool)
    (onWritable : Int) : Except WriteFault (Int × Writer) :=
  match responseStr with
  | none => .ok (-1, s)
  | some str =>
      if ¬ str.length < wsubusMaxMessageLen then .error .messageTooLong
      else if !malloc then .ok (-2, s)
      else if onWritable < 0 then .ok (-3, s.addTail str)
      else .ok (0, s.addTail str)

/-- The head of the loop of `wsubus_tx_text`: go on with the request at the
given place, or return if there is none. -/
def visit (s : Writer) (i : ℕ) : Writer :=
  { s with cursor := if i < s.writeQ.length then some i else none }

def current (s : Writer) : Option WsuWritereq :=
  s.cursor.bind fun i => s.writeQ[i]?

/-- The body of the loop, from a return of `lws_write` on: write again if
there is more of the text and lws takes more; otherwise take a text that is
done off the queue, and leave the loop if lws holds a part of it. -/
def onWritten (s : Writer) (i : ℕ) (w : WsuWritereq) (ret : ℕ) (buffered : Bool) : Writer :=
  let s := { s with accepted := s.accepted ++ w.offered.take ret }
  let w := { w with written := w.written + ret }
  if w.written < w.len && !buffered then { s with writeQ := s.writeQ.set i w }
  else
    let done := w.written = w.len
    let s :=
      if done then
        { s with writeQ := s.writeQ.eraseIdx i, finished := s.finished ++ [w.buf] }
      else { s with writeQ := s.writeQ.set i w }
    if buffered then { s with cursor := none }
    else s.visit (if done then i else i + 1)

/-- One step. Callbacks do not nest, and what does not happen in a state does
nothing there. An error of `lws_write` ends the callback. -/
def step (s : Writer) (e : WriteEvent) : Except WriteFault Writer :=
  match e, s.cursor with
  | .queue responseStr malloc onWritable, none =>
      (s.wsuQueueWriteStr responseStr malloc onWritable).map (·.2)
  | .writable, none => .ok (s.visit 0)
  | .written ret buffered, some i =>
      match s.writeQ[i]? with
      | none => .ok s
      | some w =>
          if ret < 0 then .ok { s with cursor := none }
          else .ok (s.onWritten i w ret.toNat buffered)
  | _, _ => .ok s

/-- lws accepts at most what it is offered. -/
def Honest (s : Writer) : WriteEvent → Prop
  | .written ret _ => ∀ w, s.current = some w → ret ≤ w.offered.length
  | _ => True

/-! ### What one write does -/

section

variable {s s' : Writer} {w : WsuWritereq} {rest : List WsuWritereq} {ret : ℕ} {buffered : Bool}

theorem onWritten_last (hq : s.writeQ = w :: rest) (hret : w.written + ret = w.len) :
    s.onWritten 0 w ret buffered =
      { s with
        writeQ := rest
        cursor := if buffered = false ∧ rest ≠ [] then some 0 else none
        finished := s.finished ++ [w.buf]
        accepted := s.accepted ++ w.offered.take ret } := by
  cases buffered with
  | true => simp [onWritten, hq, hret, WsuWritereq.len]
  | false =>
      cases rest with
      | nil => simp [onWritten, visit, hq, hret, WsuWritereq.len]
      | cons v rest => simp [onWritten, visit, hq, hret, WsuWritereq.len]

/-- There is more of the text. Only a part that lws holds back ends the
callback then. -/
theorem onWritten_more (hq : s.writeQ = w :: rest) (hcur : s.cursor = some 0)
    (hret : w.written + ret < w.len) :
    s.onWritten 0 w ret buffered =
      { s with
        writeQ := { w with written := w.written + ret } :: rest
        cursor := if buffered then none else some 0
        accepted := s.accepted ++ w.offered.take ret } := by
  have hlen : WsuWritereq.len { w with written := w.written + ret } = w.len := rfl
  cases buffered with
  | true => simp [onWritten, hq, hlen, hret.ne]
  | false => simp [onWritten, hq, hlen, hret, hcur]

end

/-! ### Order -/

def begun (s : Writer) : CString :=
  s.writeQ.head?.elim [] fun w => w.buf.take w.written

/-- The texts queued are those finished and those in the queue; lws has
accepted the former and a part of the next one. -/
structure InOrder (s : Writer) : Prop where
  queued : s.queued = s.finished ++ s.writeQ.map WsuWritereq.buf
  accepted : s.accepted = s.finished.flatten ++ s.begun
  unfinished : ∀ w ∈ s.writeQ, w.written = 0 ∨ w.written < w.len
  untouched : ∀ w ∈ s.writeQ.tail, w.written = 0
  cursor : ∀ i ∈ s.cursor, i = 0 ∧ s.writeQ ≠ []

theorem inOrder_init : init.InOrder :=
  ⟨rfl, rfl, by simp [init], by simp [init], by simp [init]⟩

section

variable {s s' : Writer}

theorem InOrder.visit (h : s.InOrder) : (s.visit 0).InOrder := by
  refine ⟨h.queued, h.accepted, h.unfinished, h.untouched, fun i hi => ?_⟩
  simp only [Writer.visit, Option.mem_def, Option.ite_none_right_eq_some, Option.some.injEq] at hi
  exact ⟨hi.2.symm, List.ne_nil_of_length_pos hi.1⟩

theorem InOrder.leave (h : s.InOrder) : { s with cursor := none }.InOrder :=
  ⟨h.queued, h.accepted, h.unfinished, h.untouched, fun _ hi => by cases hi⟩

/-- What `wsu_queue_write_str` can do: put a text last, or nothing. -/
theorem wsuQueueWriteStr_cases {responseStr : Option CString} {malloc : Bool} {onWritable r : Int}
    (h : s.wsuQueueWriteStr responseStr malloc onWritable = .ok (r, s')) :
    s' = s ∨ ∃ str, s' = s.addTail str := by
  cases responseStr with
  | none =>
      cases h
      exact .inl rfl
  | some str =>
      simp only [wsuQueueWriteStr] at h
      split at h
      · cases h
      · split at h
        · cases h
          exact .inl rfl
        · split at h
          all_goals
            cases h
            exact .inr ⟨str, rfl⟩

theorem InOrder.addTail (h : s.InOrder) (str : CString) : (s.addTail str).InOrder where
  queued := by simp [Writer.addTail, h.queued]
  accepted := by
    have hbegun : (s.addTail str).begun = s.begun := by
      cases hq : s.writeQ with
      | nil => simp [begun, Writer.addTail, hq]
      | cons v rest => simp [begun, Writer.addTail, hq]
    rw [hbegun]
    exact h.accepted
  unfinished := by
    intro w hw
    rcases List.mem_append.mp hw with hw | hw
    · exact h.unfinished w hw
    · exact .inl (by simp [List.mem_singleton.mp hw])
  untouched := by
    intro w hw
    simp only [Writer.addTail] at hw
    cases hq : s.writeQ with
    | nil => simp [hq] at hw
    | cons v rest =>
        simp only [hq, List.cons_append, List.tail_cons, List.mem_append, List.mem_singleton] at hw
        rcases hw with hw | rfl
        · exact h.untouched w (by simpa [hq] using hw)
        · rfl
  cursor := fun i hi => ⟨(h.cursor i hi).1, by simp [Writer.addTail]⟩

theorem offered_length {w : WsuWritereq} : w.offered.length = w.len - w.written := by
  simp [WsuWritereq.offered, WsuWritereq.len]

theorem take_append_offered (w : WsuWritereq) (ret : ℕ) :
    w.buf.take w.written ++ w.offered.take ret = w.buf.take (w.written + ret) := by
  rw [WsuWritereq.offered, List.take_add]

theorem InOrder.written_le (h : s.InOrder) {w : WsuWritereq} (hw : w ∈ s.writeQ) :
    w.written ≤ w.len := by
  rcases h.unfinished w hw with h0 | hlt
  · rw [h0]
    exact Nat.zero_le _
  · exact hlt.le

theorem InOrder.current_iff (h : s.InOrder) {w : WsuWritereq} :
    s.current = some w ↔ s.cursor = some 0 ∧ ∃ rest, s.writeQ = w :: rest := by
  cases hcur : s.cursor with
  | none => simp [current, hcur]
  | some i =>
      obtain ⟨rfl, hne⟩ := h.cursor i hcur
      cases hq : s.writeQ with
      | nil => exact absurd hq hne
      | cons v rest => simp [current, hcur, hq]

theorem InOrder.written {w : WsuWritereq} {rest : List WsuWritereq} {ret : ℕ} {buffered : Bool}
    (h : s.InOrder) (hq : s.writeQ = w :: rest) (hcur : s.cursor = some 0)
    (hret : ret ≤ w.offered.length) : (s.onWritten 0 w ret buffered).InOrder := by
  have hbegun : s.begun = w.buf.take w.written := by simp [begun, hq]
  have hwritten : w.written ≤ w.len := h.written_le (by simp [hq])
  have hle : w.written + ret ≤ w.len := by
    rw [offered_length] at hret
    omega
  have huntouched : ∀ v ∈ rest, v.written = 0 := by
    intro v hv
    exact h.untouched v (by simpa [hq] using hv)
  have haccepted : s.accepted ++ w.offered.take ret =
      s.finished.flatten ++ w.buf.take (w.written + ret) := by
    rw [h.accepted, hbegun, List.append_assoc, take_append_offered]
  rcases Nat.lt_or_eq_of_le hle with hlt | heq
  · rw [onWritten_more hq hcur hlt]
    refine ⟨?_, ?_, ?_, ?_, ?_⟩
    · simpa [hq] using h.queued
    · simpa [begun] using haccepted
    · intro v hv
      rcases List.mem_cons.mp hv with rfl | hv
      · exact .inr hlt
      · exact .inl (huntouched v hv)
    · exact huntouched
    · intro i hi
      cases buffered with
      | true => cases hi
      | false =>
          cases hi
          exact ⟨rfl, List.cons_ne_nil _ _⟩
  · rw [onWritten_last hq heq]
    have hall : w.buf.take (w.written + ret) = w.buf := by
      rw [heq, WsuWritereq.len, List.take_length]
    have hnext : (rest.head?.elim [] fun v => v.buf.take v.written) = [] := by
      cases rest with
      | nil => rfl
      | cons v rest => simp [huntouched v List.mem_cons_self]
    refine ⟨?_, ?_, ?_, ?_, ?_⟩
    · simpa [hq] using h.queued
    · simpa [begun, hnext, hall] using haccepted
    · exact fun v hv => .inl (huntouched v hv)
    · exact fun v hv => huntouched v (List.mem_of_mem_tail hv)
    · intro i hi
      simp only [Option.mem_def, Option.ite_none_right_eq_some, Option.some.injEq] at hi
      exact ⟨hi.2.symm, hi.1.2⟩

theorem InOrder.step_written (h : s.InOrder) {w : WsuWritereq} (hw : s.current = some w)
    (ret : Int) (buffered : Bool) :
    s.step (.written ret buffered) =
      .ok (if ret < 0 then { s with cursor := none } else s.onWritten 0 w ret.toNat buffered) := by
  obtain ⟨hcur, rest, hq⟩ := h.current_iff.mp hw
  simp only [step, hcur, hq, List.getElem?_cons_zero]
  split
  · rfl
  · rfl

theorem inOrder_step {e : WriteEvent} (h : s.InOrder) (he : s.Honest e)
    (hstep : s.step e = .ok s') : s'.InOrder := by
  cases hcur : s.cursor with
  | none =>
      cases e with
      | queue responseStr malloc onWritable =>
          simp only [step, hcur] at hstep
          cases hres : s.wsuQueueWriteStr responseStr malloc onWritable with
          | error f => simp [hres, Except.map] at hstep
          | ok r =>
              obtain rfl : r.2 = s' := by simpa [hres, Except.map] using hstep
              rcases wsuQueueWriteStr_cases hres with heq | ⟨str, heq⟩
              · rw [heq]
                exact h
              · rw [heq]
                exact h.addTail str
      | writable =>
          obtain rfl : s.visit 0 = s' := by simpa [step, hcur] using hstep
          exact h.visit
      | written ret buffered =>
          obtain rfl : s = s' := by simpa [step, hcur] using hstep
          exact h
  | some i =>
      cases e with
      | queue responseStr malloc onWritable =>
          obtain rfl : s = s' := by simpa [step, hcur] using hstep
          exact h
      | writable =>
          obtain rfl : s = s' := by simpa [step, hcur] using hstep
          exact h
      | written ret buffered =>
          obtain ⟨rfl, hne⟩ := h.cursor i hcur
          obtain ⟨w, rest, hq⟩ := List.exists_cons_of_ne_nil hne
          have hw : s.current = some w := h.current_iff.mpr ⟨hcur, rest, hq⟩
          rw [h.step_written hw] at hstep
          cases hstep
          have hret := he w hw
          split
          · exact h.leave
          · exact h.written hq hcur (by omega)

theorem inOrder_run {es : List WriteEvent} (hg : Guarded step Honest init es)
    (hrun : run step init es = .ok s) : s.InOrder :=
  run_invariant InOrder (fun _ _ _ h he hstep => inOrder_step h he hstep) inOrder_init hg hrun

/-! ### What lws gets -/

/-- At this moment lws has accepted the beginning of the texts queued, one
after the other, and the queue holds exactly those that are not yet done. -/
structure Delivers (s : Writer) : Prop where
  stream : s.accepted <+: s.queued.flatten
  order : s.queued = s.finished ++ s.writeQ.map WsuWritereq.buf
  /-- All of a text that left the queue was accepted. -/
  complete : ∀ k < s.finished.length, (s.queued.take (k + 1)).flatten.length ≤ s.accepted.length
  /-- A text all of which was accepted left the queue. An empty one leaves it
  when it is written, as `accepts` says. -/
  removed : ∀ k str, s.queued[k]? = some str → str ≠ [] →
    (s.queued.take (k + 1)).flatten.length ≤ s.accepted.length → k < s.finished.length
  /-- What lws is offered begins with the first byte not yet accepted. -/
  offers : ∀ w, s.current = some w →
    s.queued.flatten.drop s.accepted.length =
      w.offered ++ (s.writeQ.tail.map WsuWritereq.buf).flatten
  /-- The text leaves the queue if this was the rest of it. -/
  accepts : ∀ w (ret : Int) buffered, s.current = some w → 0 ≤ ret → ret ≤ w.offered.length →
    ∃ s', s.step (.written ret buffered) = .ok s' ∧
      s'.accepted = s.accepted ++ w.offered.take ret.toNat ∧
      s'.finished = if ret = w.offered.length then s.finished ++ [w.buf] else s.finished
  /-- An error takes nothing off the queue. -/
  fails : ∀ w (ret : Int) buffered, s.current = some w → ret < 0 →
    ∃ s', s.step (.written ret buffered) = .ok s' ∧ s'.writeQ = s.writeQ ∧
      s'.finished = s.finished ∧ s'.accepted = s.accepted

theorem InOrder.complete (h : s.InOrder) {k : ℕ} (hk : k < s.finished.length) :
    (s.queued.take (k + 1)).flatten.length ≤ s.accepted.length := by
  have htake : s.queued.take (k + 1) = s.finished.take (k + 1) := by
    rw [h.queued, List.take_append_of_le_length hk]
  have hsplit : s.finished.flatten =
      (s.finished.take (k + 1)).flatten ++ (s.finished.drop (k + 1)).flatten := by
    rw [← List.flatten_append, List.take_append_drop]
  rw [htake, h.accepted, hsplit, List.append_assoc, List.length_append]
  exact Nat.le_add_right _ _

theorem InOrder.removed (h : s.InOrder) {k : ℕ} {str : CString} (hk : s.queued[k]? = some str)
    (hne : str ≠ []) (hle : (s.queued.take (k + 1)).flatten.length ≤ s.accepted.length) :
    k < s.finished.length := by
  by_contra hge
  obtain ⟨j, rfl⟩ := Nat.exists_eq_add_of_le (Nat.le_of_not_lt hge)
  rw [h.queued, List.getElem?_append_right (Nat.le_add_right _ _), Nat.add_sub_cancel_left] at hk
  have htake : s.queued.take (s.finished.length + j + 1) =
      s.finished ++ (s.writeQ.map WsuWritereq.buf).take (j + 1) := by
    rw [h.queued, Nat.add_assoc, List.take_length_add_append]
  rw [htake, h.accepted, List.flatten_append, List.length_append, List.length_append,
    Nat.add_le_add_iff_left] at hle
  cases hq : s.writeQ with
  | nil => simp [hq] at hk
  | cons w rest =>
      -- the first text in the queue alone is longer than what was accepted of it
      simp only [hq, List.map_cons, List.take_succ_cons, List.flatten_cons, List.length_append,
        begun, List.head?_cons, Option.elim_some, List.length_take] at hle hk
      rcases h.unfinished w (by simp [hq]) with h0 | hlt
      · have hpos : 0 < str.length := List.length_pos_iff.mpr hne
        cases j with
        | zero =>
            obtain rfl : w.buf = str := by simpa using hk
            omega
        | succ j =>
            have hmem : str ∈ (rest.map WsuWritereq.buf).take (j + 1) := by
              refine List.mem_of_getElem? (i := j) ?_
              rw [List.getElem?_take_of_succ, ← hk, List.getElem?_cons_succ]
            have hlen := (List.sublist_flatten_of_mem hmem).length_le
            omega
      · rw [WsuWritereq.len] at hlt
        omega

theorem InOrder.delivers (h : s.InOrder) : s.Delivers where
  stream := by
    rw [h.accepted, h.queued, List.flatten_append, List.prefix_append_right_inj]
    cases hq : s.writeQ with
    | nil => simp [begun, hq]
    | cons w rest =>
        simp only [begun, hq, List.head?_cons, Option.elim_some, List.map_cons, List.flatten_cons]
        exact (List.take_prefix _ _).trans (List.prefix_append _ _)
  order := h.queued
  complete := fun _ hk => h.complete hk
  removed := fun _ _ hk hne hle => h.removed hk hne hle
  offers := by
    intro w hw
    obtain ⟨-, rest, hq⟩ := h.current_iff.mp hw
    have hbegun : s.begun = w.buf.take w.written := by simp [begun, hq]
    have hflat : s.queued.flatten =
        s.accepted ++ (w.offered ++ (rest.map WsuWritereq.buf).flatten) := by
      rw [h.accepted, hbegun, h.queued, hq, List.append_assoc, ← List.append_assoc (List.take _ _),
        WsuWritereq.offered, List.take_append_drop]
      simp
    rw [hflat, List.drop_left, hq, List.tail_cons]
  accepts := by
    intro w ret buffered hw hnonneg hret
    obtain ⟨hcur, rest, hq⟩ := h.current_iff.mp hw
    obtain ⟨n, rfl⟩ := Int.eq_ofNat_of_zero_le hnonneg
    have hwritten : w.written ≤ w.len := h.written_le (by simp [hq])
    rw [h.step_written hw, if_neg (Int.not_lt.mpr hnonneg), Int.toNat_natCast]
    refine ⟨_, rfl, ?_⟩
    rw [offered_length] at hret ⊢
    by_cases hlast : (n : Int) = (w.len - w.written : ℕ)
    · rw [onWritten_last hq (by omega), if_pos hlast]
      exact ⟨rfl, rfl⟩
    · rw [onWritten_more hq hcur (by omega), if_neg hlast]
      exact ⟨rfl, rfl⟩
  fails := by
    intro w ret buffered hw hneg
    rw [h.step_written hw, if_pos hneg]
    exact ⟨_, rfl, rfl, rfl, rfl⟩

/-- Whatever lws accepts of what it is offered, and whenever it fails or
holds something back: what it got is at every moment the beginning of what
was queued. -/
theorem delivers_run {es : List WriteEvent} (hg : Guarded step Honest init es)
    (hrun : run step init es = .ok s) : s.Delivers :=
  (inOrder_run hg hrun).delivers

/-- Two texts. The first is written in two pieces; of the second nothing is
accepted in the first callback, and then lws fails. -/
def shortWrites : List WriteEvent :=
  [.queue (some (.ofString "ab")) true 0, .queue (some (.ofString "c")) true 0, .writable,
    .written 1 false, .written 1 false, .written 0 true, .writable, .written (-1) false]

theorem delivers_run_shortWrites :
    ∃ s, run step init shortWrites = .ok s ∧ s.accepted = .ofString "ab" ∧
      s.writeQ = [⟨.ofString "c", 0⟩] ∧ s.Delivers := by
  have hg : Guarded step Honest init shortWrites := by
    refine .cons trivial rfl (.cons trivial rfl (.cons trivial rfl (.cons ?_ rfl (.cons ?_ rfl
      (.cons ?_ rfl (.cons trivial rfl (.cons ?_ rfl trivial)))))))
    all_goals
      intro w hw
      cases hw
      decide
  obtain ⟨s, hs, haccepted, hq⟩ : ∃ s, run step init shortWrites = .ok s ∧
      s.accepted = .ofString "ab" ∧ s.writeQ = [⟨.ofString "c", 0⟩] := ⟨_, rfl, rfl, rfl⟩
  exact ⟨s, hs, haccepted, hq, delivers_run hg hs⟩

end

end Writer

end Owsd.Server
