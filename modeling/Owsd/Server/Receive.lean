import Owsd.Basis.Tokener

/-!
How the server puts messages together (`wsubus.c`).

The receive callback gets a piece of a message: a fragment of the websocket
protocol, or a part of one. The pieces go to one tokener until the last one,
and the object it yields is handed on. A piece that ends the object without
being the last one is taken for a parse error: in the branch for pieces that
are not the last, every report of the tokener but `continue` drops the
client, and so does success. So it matters how a message is split, but only
in this one respect (`rx_iff`).
-/

namespace Owsd.Server

/-- `WSUBUS_MAX_MESSAGE_LEN`, 128 MiB. -/
def wsubusMaxMessageLen : ℕ := 134217728

/-- A call of the receive callback: the bytes, and what lws tells of the
frame they are from. -/
structure Piece where
  bytes : List UInt8
  /-- `lws_remaining_packet_payload`. -/
  remaining : ℕ
  /-- `lws_is_final_fragment`. -/
  final : Bool
  /-- `lws_frame_is_binary`. -/
  binary : Bool

def Piece.isLast (p : Piece) : Bool := p.remaining == 0 && p.final

/-- The field `curr_msg` of a peer. -/
structure CurrMsg (tok : Tokener) where
  jtok : tok.State
  len : ℕ

inductive RxAction where
  /-- The object is handed to `wsu_on_msg_from_client`. -/
  | message (jobj : List (CString × Json))
  /-- A response with `JSONRPC_ERRORCODE__PARSE_ERROR` and no id. -/
  | parseError
  /-- `shutdown` of both directions, and of the reading one. -/
  | shutdownRdwr
  | shutdownRd

def wsuReadReset (tok : Tokener) : CurrMsg tok := ⟨tok.reset, 0⟩

def finished (r : Parsed) (len : ℕ) : Option (List (CString × Json)) :=
  if r.charOffset = len then
    match r.jobj with
    | some (.object members) => some members
    | _ => none
  else none

/-- `wsubus_rx_json`. Nothing is returned when its assertion fails. -/
def wsubusRxJson (tok : Tokener) (m : CurrMsg tok) (p : Piece) :
    Option (CurrMsg tok × List RxAction) :=
  let len := p.bytes.length
  if 2147483647 ≤ len then none
  else
    let r := tok.parseEx m.jtok p.bytes
    if p.isLast then
      match finished r.2 len with
      -- message is finished and parser has successfully parsed everything
      | some members => some (wsuReadReset tok, [.message members])
      -- parse error -> we just ignore the message
      | none => some (wsuReadReset tok, [.parseError])
    else
      some (⟨r.1, m.len + len⟩,
        -- parse error mid-message, client will send more data
        if r.2.err ≠ .continue then [.shutdownRdwr] else [])

def tooLong (len remaining sofar : ℕ) : Bool :=
  wsubusMaxMessageLen < len || wsubusMaxMessageLen < remaining ||
    wsubusMaxMessageLen < sofar + len + remaining

/-- `wsubus_rx`. Binary messages are not implemented; `wsubus_rx_blob` does
nothing. -/
def wsubusRx (tok : Tokener) (m : CurrMsg tok) (p : Piece) :
    Option (CurrMsg tok × List RxAction) :=
  let drop : List RxAction :=
    if tooLong p.bytes.length p.remaining m.len then [.shutdownRd] else []
  if p.binary then some (m, drop)
  else
    match wsubusRxJson tok m p with
    | some (m, actions) => some (m, drop ++ actions)
    | none => none

def rxAll (tok : Tokener) : CurrMsg tok → List Piece → Option (CurrMsg tok × List RxAction)
  | m, [] => some (m, [])
  | m, p :: ps =>
      match wsubusRx tok m p with
      | none => none
      | some (m, actions) =>
          match rxAll tok m ps with
          | none => none
          | some (m, later) => some (m, actions ++ later)

/-! ### Splitting a message -/

/-- The pieces are a text message, split in some way: the last piece is final
with nothing remaining, the others are not, and no frame announces more than
there is to come. -/
inductive Splits : List UInt8 → List Piece → Prop
  | last {p : Piece} : p.isLast = true → p.binary = false → Splits p.bytes [p]
  | cons {p : Piece} {rest : List UInt8} {ps : List Piece} : p.isLast = false →
      p.binary = false → p.remaining ≤ rest.length → Splits rest ps →
      Splits (p.bytes ++ rest) (p :: ps)

/-- The last piece brings the end of the text, which the pieces before it did
not reach. -/
def EndsInLast (text : List UInt8) (pieces : List Piece) : Prop :=
  ((pieces.dropLast.map Piece.bytes).flatten).length < text.length

instance (text : List UInt8) (pieces : List Piece) : Decidable (EndsInLast text pieces) :=
  inferInstanceAs (Decidable (_ < _))

theorem Splits.ne_nil {text : List UInt8} {pieces : List Piece} (h : Splits text pieces) :
    pieces ≠ [] := by
  cases h with
  | last => simp
  | cons => simp

/-- The test of three conditions comes down to the last one. -/
theorem tooLong_iff {len remaining sofar : ℕ} :
    tooLong len remaining sofar = true ↔ wsubusMaxMessageLen < sofar + len + remaining := by
  simp only [tooLong, Bool.or_eq_true, decide_eq_true_eq]
  omega

section

variable {tok : Tokener} {m m' : CurrMsg tok} {p : Piece} {ps : List Piece}
  {actions : List RxAction}

theorem rxAll_cons_iff :
    rxAll tok m (p :: ps) = some (m', actions) ↔
      ∃ m₁ a₁ a₂, wsubusRx tok m p = some (m₁, a₁) ∧ rxAll tok m₁ ps = some (m', a₂) ∧
        actions = a₁ ++ a₂ := by
  simp only [rxAll]
  cases wsubusRx tok m p with
  | none => simp
  | some r =>
      obtain ⟨m₁, a₁⟩ := r
      simp only [Option.some.injEq, Prod.mk.injEq]
      cases hrest : rxAll tok m₁ ps with
      | none =>
          simp only [reduceCtorEq, false_iff, not_exists, not_and]
          rintro _ _ a₂ ⟨rfl, rfl⟩ h
          simp [hrest] at h
      | some q =>
          obtain ⟨m₂, a₂⟩ := q
          simp only [Option.some.injEq, Prod.mk.injEq]
          constructor
          · rintro ⟨rfl, rfl⟩
            exact ⟨m₁, a₁, a₂, ⟨rfl, rfl⟩, hrest, rfl⟩
          · rintro ⟨_, _, a₂', ⟨rfl, rfl⟩, h, rfl⟩
            obtain ⟨rfl, rfl⟩ := Prod.mk.inj (Option.some.inj (hrest.symm.trans h))
            exact ⟨rfl, rfl⟩

/-- Where there is a message and nothing else, a piece other than the last
one brought nothing about. -/
theorem eq_message_iff {members : List (CString × Json)} {a₁ a₂ : List RxAction}
    (h : ∀ members, .message members ∉ a₁) :
    [.message members] = a₁ ++ a₂ ↔ a₁ = [] ∧ a₂ = [.message members] := by
  constructor
  · intro heq
    cases a₁ with
    | nil => exact ⟨rfl, by simpa using heq.symm⟩
    | cons x a₁ =>
        rw [List.cons_append] at heq
        obtain ⟨hx, -⟩ := List.cons_eq_cons.mp heq
        exact absurd (hx ▸ List.mem_cons_self) (h members)
  · rintro ⟨rfl, rfl⟩
    rfl

theorem wsubusRx_of_not_last (hlast : p.isLast = false) (htext : p.binary = false)
    (hlen : p.bytes.length < 2147483647) :
    wsubusRx tok m p =
      some (⟨(tok.parseEx m.jtok p.bytes).1, m.len + p.bytes.length⟩,
        (if tooLong p.bytes.length p.remaining m.len then [.shutdownRd] else []) ++
          if (tok.parseEx m.jtok p.bytes).2.err ≠ .continue then [.shutdownRdwr] else []) := by
  simp [wsubusRx, wsubusRxJson, htext, hlast, Nat.not_le_of_lt hlen]

theorem rxAll_of_assert (htext : p.binary = false) (hassert : 2147483647 ≤ p.bytes.length) :
    rxAll tok m (p :: ps) = none := by
  have hnone : wsubusRx tok m p = none := by
    simp [wsubusRx, wsubusRxJson, htext, hassert]
  simp only [rxAll, hnone]

/-- A message comes out of pieces after one that is not the last, and nothing
else does, when that piece is taken for a part of it and leaves the rest to
the others. -/
theorem rx_cons_iff {members : List (CString × Json)} (hlast : p.isLast = false)
    (htext : p.binary = false) (hlen : p.bytes.length < 2147483647) :
    rxAll tok m (p :: ps) = some (m', [.message members]) ↔
      tooLong p.bytes.length p.remaining m.len = false ∧
        (tok.parseEx m.jtok p.bytes).2.err = .continue ∧
        rxAll tok ⟨(tok.parseEx m.jtok p.bytes).1, m.len + p.bytes.length⟩ ps =
          some (m', [.message members]) := by
  rw [rxAll_cons_iff, wsubusRx_of_not_last hlast htext hlen]
  constructor
  · rintro ⟨m₁, a₁, a₂, hrx, hrest, heq⟩
    obtain ⟨rfl, rfl⟩ := Prod.mk.inj (Option.some.inj hrx)
    obtain ⟨hnil, rfl⟩ := (eq_message_iff (by
      intro members
      split <;> split <;> simp)).mp heq
    obtain ⟨hlong, herr⟩ := List.append_eq_nil_iff.mp hnil
    exact ⟨by simpa using hlong, by simpa using herr, hrest⟩
  · rintro ⟨hlong, herr, hrest⟩
    exact ⟨_, _, _, rfl, hrest, by simp [hlong, herr]⟩

end

/-! ### The outcome for every way of splitting -/

section

variable {tok : Tokener} {text blanks : List UInt8} {members : List (CString × Json)}
  (hreads : tok.Reads text (.object members)) (hblanks : blanks.all isBlank = true)
include hreads hblanks

/-- The last piece, when the text before it was incomplete. -/
theorem rx_last_iff {done : List (List UInt8)} {p : Piece}
    (hdone : done.flatten.length < text.length) (hrest : done.flatten ++ p.bytes = text ++ blanks)
    (hlast : p.isLast = true) (hbin : p.binary = false) :
    rxAll tok ⟨tok.feed done, done.flatten.length⟩ [p] =
        some (wsuReadReset tok, [.message members]) ↔
      (text ++ blanks).length ≤ wsubusMaxMessageLen := by
  have hparse := hreads.complete done p.bytes blanks hdone hrest hblanks
  have hremaining : p.remaining = 0 := by
    simp only [Piece.isLast, Bool.and_eq_true, beq_iff_eq] at hlast
    exact hlast.1
  have htotal : done.flatten.length + p.bytes.length = (text ++ blanks).length := by
    rw [← hrest, List.length_append]
  have hlong : tooLong p.bytes.length 0 done.flatten.length = true ↔
      wsubusMaxMessageLen < (text ++ blanks).length := by
    rw [tooLong_iff, htotal, Nat.add_zero]
  by_cases hassert : 2147483647 ≤ p.bytes.length
  · rw [rxAll_of_assert hbin hassert]
    simp only [reduceCtorEq, false_iff, wsubusMaxMessageLen]
    omega
  · have hfin : finished (tok.parseEx (tok.feed done) p.bytes).2 p.bytes.length = some members := by
      rw [hparse]
      simp [finished]
    cases hl : tooLong p.bytes.length 0 done.flatten.length with
    | true =>
        rw [hl] at hlong
        simp only [rxAll, wsubusRx, hbin, wsubusRxJson, hassert, hlast, hfin, hremaining, hl]
        simp only [Bool.false_eq_true, if_true, if_false, List.append_nil, Option.some.injEq,
          Prod.mk.injEq, true_and]
        simpa using hlong
    | false =>
        rw [hl] at hlong
        simp only [rxAll, wsubusRx, hbin, wsubusRxJson, hassert, hlast, hfin, hremaining, hl]
        simpa using hlong

/-- A piece that is not the last is read as a part of the message exactly when
it leaves some of the text to come. -/
theorem continue_iff {done : List (List UInt8)} {piece rest : List UInt8}
    (hdone : done.flatten.length < text.length)
    (hrest : done.flatten ++ (piece ++ rest) = text ++ blanks) :
    (tok.parseEx (tok.feed done) piece).2.err = .continue ↔
      done.flatten.length + piece.length < text.length := by
  rw [← List.append_assoc] at hrest
  have hsofar : done.flatten ++ piece <+: text ++ blanks := ⟨rest, hrest⟩
  rw [← List.length_append]
  by_cases hshort : (done.flatten ++ piece).length < text.length
  · obtain ⟨tail, htail⟩ :=
      List.prefix_of_prefix_length_le hsofar (List.prefix_append text blanks) hshort.le
    have hne : tail ≠ [] := by
      rintro rfl
      rw [List.append_nil] at htail
      exact absurd (congrArg List.length htail) hshort.ne
    simp only [hshort, iff_true]
    exact (hreads.incomplete done piece tail hne htail).1
  · -- the text is complete, and what follows it in the piece are blanks
    obtain ⟨behind, hbehind⟩ :=
      List.prefix_of_prefix_length_le (List.prefix_append text blanks) hsofar (not_lt.mp hshort)
    rw [← hbehind, List.append_assoc] at hrest
    have hblank : behind.all isBlank = true := by
      rw [← List.append_cancel_left hrest, List.all_append, Bool.and_eq_true] at hblanks
      exact hblanks.1
    simp only [hshort, iff_false]
    rw [hreads.complete done piece behind hdone hbehind.symm hblank]
    exact TokenerError.noConfusion

/-- The pieces that are still to come, when the text was incomplete so far. -/
theorem rx_rest_iff {rest : List UInt8} {ps : List Piece} (hsplit : Splits rest ps) :
    ∀ done : List (List UInt8), done.flatten.length < text.length →
      done.flatten ++ rest = text ++ blanks →
      (rxAll tok ⟨tok.feed done, done.flatten.length⟩ ps =
          some (wsuReadReset tok, [.message members]) ↔
        (text ++ blanks).length ≤ wsubusMaxMessageLen ∧
          done.flatten.length + ((ps.dropLast.map Piece.bytes).flatten).length < text.length) := by
  induction hsplit with
  | last hlast hbin =>
      intro done hdone hrest
      rw [rx_last_iff hreads hblanks hdone hrest hlast hbin]
      exact (and_iff_left hdone).symm
  | @cons p rest ps hlast hbin hremaining hps ih =>
      intro done hdone hrest
      have hdrop : ((p :: ps).dropLast.map Piece.bytes).flatten.length =
          p.bytes.length + (ps.dropLast.map Piece.bytes).flatten.length := by
        rw [List.dropLast_cons_of_ne_nil hps.ne_nil, List.map_cons, List.flatten_cons,
          List.length_append]
      have htotal : done.flatten.length + (p.bytes.length + rest.length) =
          (text ++ blanks).length := by
        rw [← hrest, List.length_append, List.length_append]
      rw [hdrop]
      by_cases hassert : 2147483647 ≤ p.bytes.length
      · rw [rxAll_of_assert hbin hassert]
        simp only [reduceCtorEq, false_iff, wsubusMaxMessageLen]
        omega
      · rw [rx_cons_iff hlast hbin (not_le.mp hassert), continue_iff hreads hblanks hdone hrest]
        have hstep : done.flatten.length + p.bytes.length < text.length →
            (rxAll tok ⟨(tok.parseEx (tok.feed done) p.bytes).1,
                done.flatten.length + p.bytes.length⟩ ps =
                some (wsuReadReset tok, [.message members]) ↔
              (text ++ blanks).length ≤ wsubusMaxMessageLen ∧
                done.flatten.length + p.bytes.length +
                  (ps.dropLast.map Piece.bytes).flatten.length < text.length) := by
          intro hshort
          have hflat : (done ++ [p.bytes]).flatten = done.flatten ++ p.bytes := by simp
          have := ih (done ++ [p.bytes]) (by rw [hflat, List.length_append]; exact hshort)
            (by rw [hflat, List.append_assoc]; exact hrest)
          rwa [Tokener.feed_append, hflat, List.length_append] at this
        -- nothing is announced that is not to come, so the limit is that of the message
        have hlong : tooLong p.bytes.length p.remaining done.flatten.length = true →
            wsubusMaxMessageLen < (text ++ blanks).length := by
          rw [tooLong_iff]
          omega
        constructor
        · rintro ⟨-, hshort, hrx⟩
          obtain ⟨hmax, hlt⟩ := (hstep hshort).mp hrx
          exact ⟨hmax, by omega⟩
        · rintro ⟨hmax, hlt⟩
          have hshort : done.flatten.length + p.bytes.length < text.length := by omega
          refine ⟨?_, hshort, (hstep hshort).mpr ⟨hmax, by omega⟩⟩
          by_contra hl
          exact absurd hmax (not_le.mpr (hlong (by simpa using hl)))

end

/-- A text message that is one object, with blanks behind it, is handed on as
this object once, the connection is kept and the tokener is reset for the next
message, if and only if the message is not longer than the server takes and
the object ends in the last piece. -/
theorem rx_iff {tok : Tokener} {text blanks : List UInt8} {members : List (CString × Json)}
    {pieces : List Piece} (hreads : tok.Reads text (.object members))
    (hblanks : blanks.all isBlank = true) (hsplit : Splits (text ++ blanks) pieces) :
    rxAll tok (wsuReadReset tok) pieces = some (wsuReadReset tok, [.message members]) ↔
      (text ++ blanks).length ≤ wsubusMaxMessageLen ∧ EndsInLast text pieces := by
  have hpos : 0 < text.length := List.length_pos_iff.mpr hreads.nonempty
  have := rx_rest_iff hreads hblanks hsplit [] hpos (by simp)
  simpa [wsuReadReset, Tokener.feed, EndsInLast] using this

def emptyObject : List UInt8 := [123, 32, 125]

/-- Split inside the object, with a blank behind it. -/
theorem rx_iff_split_inside :
    rxAll (.knowing emptyObject (.object []))
        (wsuReadReset _) [⟨[123], 0, false, false⟩, ⟨[32, 125, 10], 0, true, false⟩] =
      some (wsuReadReset _, [.message []]) := by
  have hsplit : Splits (emptyObject ++ [10])
      [⟨[123], 0, false, false⟩, ⟨[32, 125, 10], 0, true, false⟩] :=
    .cons (p := ⟨[123], 0, false, false⟩) rfl rfl (by decide)
      (.last (p := ⟨[32, 125, 10], 0, true, false⟩) rfl rfl)
  have hreads := Tokener.reads_knowing (.object []) (show emptyObject ≠ [] by decide)
  exact (rx_iff hreads (by decide) hsplit).mpr ⟨by decide, by decide⟩

/-- Split between the closing brace and the blank behind it. The object is
never handed on, and the client is dropped. -/
theorem split_after_brace :
    (Tokener.knowing emptyObject (.object [])).Reads emptyObject (.object []) ∧
      Splits (emptyObject ++ [10]) [⟨emptyObject, 0, false, false⟩, ⟨[10], 0, true, false⟩] ∧
      ∀ m actions, rxAll (.knowing emptyObject (.object [])) (wsuReadReset _)
          [⟨emptyObject, 0, false, false⟩, ⟨[10], 0, true, false⟩] = some (m, actions) →
        .shutdownRdwr ∈ actions ∧ ∀ members, .message members ∉ actions := by
  refine ⟨Tokener.reads_knowing _ (by decide), ?_, ?_⟩
  · exact .cons (p := ⟨emptyObject, 0, false, false⟩) rfl rfl (by decide)
      (.last (p := ⟨[10], 0, true, false⟩) rfl rfl)
  · intro m actions h
    have : actions = [.shutdownRdwr, .parseError] :=
      (Prod.mk.inj (Option.some.inj h)).2.symm
    simp [this]

end Owsd.Server
