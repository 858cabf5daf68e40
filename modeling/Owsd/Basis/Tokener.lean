import Owsd.Basis.Blob
import Mathlib.Data.List.Induction

/-!
Parsers that take their input in pieces, like the tokener of json-c.

A call gets the next piece and reports whether the value is incomplete,
complete or malformed, the value, and how much of the piece was read. What a
text means to such a parser is said by `Reads`: fed in any pieces, it stays
incomplete up to the last byte of the text and yields the value in the call
that brings this byte, with the blanks behind it in the same piece read as
well. Nothing is said of calls after that one.
-/

namespace Owsd

/-- `enum json_tokener_error`, as far as its values are told apart. -/
inductive TokenerError where
  | success | continue | failure
  deriving DecidableEq, Repr

/-- What `json_tokener_parse_ex` reports: the error, the value if there is
one, and `char_offset`. -/
structure Parsed where
  err : TokenerError
  jobj : Option Json
  charOffset : ℕ

/-- `struct json_tokener`. -/
structure Tokener where
  State : Type
  /-- The state of `json_tokener_new` and `json_tokener_reset`. -/
  reset : State
  /-- `json_tokener_parse_ex`. -/
  parseEx : State → List UInt8 → State × Parsed

def isBlank (b : UInt8) : Bool := b == 32 || b == 9 || b == 10 || b == 13

namespace Tokener

def feed (tok : Tokener) (pieces : List (List UInt8)) : tok.State :=
  pieces.foldl (fun s p => (tok.parseEx s p).1) tok.reset

/-- The text is one that the tokener reads as the value, in any pieces. -/
structure Reads (tok : Tokener) (text : List UInt8) (value : Json) : Prop where
  nonempty : text ≠ []
  incomplete : ∀ pieces piece rest, rest ≠ [] → pieces.flatten ++ piece ++ rest = text →
    (tok.parseEx (tok.feed pieces) piece).2.err = .continue ∧
      (tok.parseEx (tok.feed pieces) piece).2.jobj = none
  complete : ∀ pieces piece blanks, pieces.flatten.length < text.length →
    pieces.flatten ++ piece = text ++ blanks → blanks.all isBlank = true →
    (tok.parseEx (tok.feed pieces) piece).2 = ⟨.success, some value, piece.length⟩

theorem feed_append (tok : Tokener) (pieces : List (List UInt8)) (piece : List UInt8) :
    tok.feed (pieces ++ [piece]) = (tok.parseEx (tok.feed pieces) piece).1 := by
  simp [feed]

/-! ### A tokener for one text -/

/-- The tokener that knows one text and the value it stands for. Its state is
what it got so far. -/
def knowing (text : List UInt8) (value : Json) : Tokener where
  State := List UInt8
  reset := []
  parseEx got piece :=
    (got ++ piece,
      if (got ++ piece).length < text.length ∧ got ++ piece <+: text then
        ⟨.continue, none, piece.length⟩
      else if got.length < text.length ∧ text <+: got ++ piece ∧
          ((got ++ piece).drop text.length).all isBlank = true then
        ⟨.success, some value, piece.length⟩
      else ⟨.failure, none, 0⟩)

theorem feed_knowing (text : List UInt8) (value : Json) (pieces : List (List UInt8)) :
    (knowing text value).feed pieces = pieces.flatten := by
  induction pieces using List.reverseRecOn with
  | nil => rfl
  | append_singleton pieces p ih =>
      rw [feed_append, ih, List.flatten_append]
      exact congrArg (pieces.flatten ++ ·) (by simp)

theorem reads_knowing {text : List UInt8} (value : Json) (h : text ≠ []) :
    (knowing text value).Reads text value where
  nonempty := h
  incomplete := by
    intro pieces piece rest hrest htext
    rw [feed_knowing]
    have hlen : (pieces.flatten ++ piece).length < text.length := by
      have hpos := List.length_pos_iff.mpr hrest
      have hsum : (pieces.flatten ++ piece).length + rest.length = text.length := by
        rw [← htext]
        exact List.length_append.symm
      omega
    have hprefixed : pieces.flatten ++ piece <+: text := ⟨rest, htext⟩
    simp only [knowing, hlen, hprefixed, and_self, if_true]
  complete := by
    intro pieces piece blanks hlt htext hblank
    rw [feed_knowing]
    simp only [knowing, htext]
    have hlen : ¬(text ++ blanks).length < text.length := by simp
    have hdrop : (text ++ blanks).drop text.length = blanks := by simp
    simp only [hlen, false_and, if_false, hlt, List.prefix_append, hdrop, hblank, and_self,
      if_true]

end Tokener

end Owsd
