import Owsd.Basis.Tokener
import Owsd.Proxy.Slots

/-!
How the proxy takes the messages of the remote (`ws_ubusproxy.c`).

lws hands over a long message in several receive callbacks. Each of them
parses what it gets with a tokener of its own, and looks neither at what lws
says of the frame nor at how far the tokener came. So a message in several
pieces is lost, whatever it was, and a piece from inside of it is taken for a
message when it looks like one. What the pieces have the effect of is the
message if and only if one of them is the whole of it (`receiveAll_iff`).
-/

namespace Owsd.Proxy

open RemoteBus

/-- One call of the receive callback: a new tokener parses the piece. -/
def receivePiece (tok : Tokener) (M : Allocator) (accepts : CString → Bool) (r : RemoteBus)
    (piece : List UInt8) : Except Crash RemoteBus :=
  step M accepts r (.receive (tok.parseEx tok.reset piece).2.jobj)

def receiveAll (tok : Tokener) (M : Allocator) (accepts : CString → Bool) (r : RemoteBus)
    (pieces : List (List UInt8)) : Except Crash RemoteBus :=
  run (receivePiece tok M accepts) r pieces

/-! ### Effects -/

/-- A message came in, which by itself is no effect. -/
def Action.isReceived : Action → Bool
  | .received _ => true
  | _ => false

def RemoteBus.effect (r : RemoteBus) : RemoteBus :=
  { r with log := r.log.filter fun a => !a.isReceived }

/-- Both end in the same state, up to the record of what came in, or in the
same crash. -/
def SameEffect (x y : Except Crash RemoteBus) : Prop := x.map effect = y.map effect

/-- The piece is acted on in some state of the connection. -/
def ActedOn (tok : Tokener) (M : Allocator) (accepts : CString → Bool) (piece : List UInt8) :
    Prop :=
  ∃ r, ¬SameEffect (receivePiece tok M accepts r piece) (.ok r)

/-- The messages of a remote owsd: replies to our requests, and events. -/
inductive FromRemote : Json → Prop
  | reply {msg result : Json} {id : Int} :
      msg.getEx (.ofString "result") = some result →
      msg.getEx (.ofString "id") = some (.int id) → (Json.int id).getInt ≠ 0 → FromRemote msg
  | event {msg : Json} {params : List (CString × Json)} {type : CString} :
      msg.getEx (.ofString "result") = none →
      msg.getEx (.ofString "method") = some (.string (.ofString "event")) →
      msg.getEx (.ofString "params") = some (.object params) →
      (Json.object params).getEx (.ofString "type") = some (.string type) → FromRemote msg

section
variable {tok : Tokener} {M : Allocator} {accepts : CString → Bool} {r r' : RemoteBus}
  {text : List UInt8} {pieces : List (List UInt8)} {msg : Json}

theorem sameEffect_ok_iff {x : Except Crash RemoteBus} :
    SameEffect x (.ok r) ↔ ∃ r', x = .ok r' ∧ r'.effect = r.effect := by
  cases x with
  | error c => simp [SameEffect, Except.map]
  | ok r' => simp [SameEffect, Except.map]

theorem SameEffect.trans {x y z : Except Crash RemoteBus} (h : SameEffect x y)
    (h' : SameEffect y z) : SameEffect x z := Eq.trans h h'

theorem SameEffect.symm {x y : Except Crash RemoteBus} (h : SameEffect x y) : SameEffect y x :=
  Eq.symm h

theorem receiveAll_of_not_actedOn (h : ∀ piece ∈ pieces, ¬ActedOn tok M accepts piece) :
    SameEffect (receiveAll tok M accepts r pieces) (.ok r) := by
  induction pieces generalizing r with
  | nil => rfl
  | cons piece pieces ih =>
      have hpiece := h piece List.mem_cons_self
      rw [ActedOn, not_exists] at hpiece
      obtain ⟨r', hstep, heff⟩ := sameEffect_ok_iff.mp (not_not.mp (hpiece r))
      rw [receiveAll, run_cons hstep]
      have hrest : SameEffect (receiveAll tok M accepts r' pieces) (.ok r') :=
        ih fun p hp => h p (List.mem_cons_of_mem piece hp)
      exact hrest.trans (congrArg Except.ok heff)

/-! ### Every message has an effect -/

def waitingForCall (id : Int) : RemoteBus :=
  { connected with
    waitingFor := ⟨false, false, BitVec.ofNat maxProxiedCalls 1, 0⟩
    calls := fun _ => ⟨id, 0⟩ }

def withStub (M : Allocator) (name : CString) : RemoteBus :=
  { connected with stubs := wsuLocalStubCreate M .empty name [] }

theorem sameEffect_ok_ok : SameEffect (.ok r') (.ok r) ↔ r'.effect = r.effect := by
  simp [SameEffect, Except.map]

/-- What differs in something other than the log differs in effect. -/
theorem not_sameEffect {α : Type} (f : RemoteBus → α) (hf : ∀ r, f r.effect = f r)
    (h : f r' ≠ f r) : ¬SameEffect (.ok r') (.ok r) := by
  intro heff
  have := congrArg f (sameEffect_ok_ok.mp heff)
  rw [hf, hf] at this
  exact h this

theorem not_sameEffect_emit {a : Action} (h : a.isReceived = false) :
    ¬SameEffect (.ok ((r.emit [.received msg]).emit [a])) (.ok r) := by
  intro heff
  have hlen := congrArg (fun r : RemoteBus => r.log.length) (sameEffect_ok_ok.mp heff)
  have hreceived : Action.isReceived (.received msg) = true := rfl
  simp [effect, emit, h, hreceived] at hlen

theorem replay_eq (r : RemoteBus) (type : CString) (data : Json) :
    ∃ members, r.replay type data = r.emit [.event type members] := by
  cases data <;> exact ⟨_, rfl⟩

/-- A reply to the call that is waited for releases its slot. -/
theorem reply_has_effect {result : Json} {id : Int}
    (hresult : msg.getEx (.ofString "result") = some result)
    (hid : msg.getEx (.ofString "id") = some (.int id)) (hne : (Json.int id).getInt ≠ 0) :
    ¬SameEffect (step M accepts (waitingForCall (Json.int id).getInt) (.receive (some msg)))
      (.ok (waitingForCall (Json.int id).getInt)) := by
  set n := (Json.int id).getInt with hn
  have hmsgId : msgId msg = .int id := by simp [msgId, hid]
  have hstep : step M accepts (waitingForCall n) (.receive (some msg)) =
      .ok (((waitingForCall n).emit [.received msg]).onCallReply (.int id) result) := by
    simp only [step, onReceive, hresult, hmsgId]
    rfl
  rw [hstep]
  set r := (waitingForCall n).emit [.received msg] with hr
  have hused : r.used 0 = true := by
    show (BitVec.ofNat maxProxiedCalls 1).getLsbD 0 = true
    decide
  cases hfind : r.findCall n with
  | none => exact absurd rfl (findCall_eq_none hfind hused)
  | some idx =>
      have hreply : r.onCallReply (.int id) result =
          (r.emit (answer (r.calls idx).ureq result)).wsuProxiedCallFree idx := by
        simp only [onCallReply, Json.isInt, ← hn, hne, hfind]
        simp
      have husedIdx := (findCall_eq_some hfind).1
      obtain ⟨mask, hfree, hmask⟩ :=
        wsuProxiedCallFree_eq (r := r.emit (answer (r.calls idx).ureq result)) husedIdx
      rw [hreply, hfree]
      refine not_sameEffect (fun r => r.used idx) (fun _ => rfl) fun heq => ?_
      exact ((hmask idx).mp (heq.trans husedIdx)).1 rfl

/-- An event is replayed, or has us ask for the objects, or removes a stub. -/
theorem event_has_effect {params : List (CString × Json)} {type : CString}
    (hresult : msg.getEx (.ofString "result") = none)
    (hmethod : msg.getEx (.ofString "method") = some (.string (.ofString "event")))
    (hparams : msg.getEx (.ofString "params") = some (.object params))
    (htype : (Json.object params).getEx (.ofString "type") = some (.string type)) :
    ∃ r, ¬SameEffect (step M accepts r (.receive (some msg))) (.ok r) := by
  set data := ((Json.object params).getEx (.ofString "data")).getD .null with hdata
  have hstep : ∀ r, step M accepts r (.receive (some msg)) =
      (r.emit [.received msg]).onEvent type data := by
    intro r
    simp [step, onReceive, hresult, hmethod, onMethod, hparams, htype, hdata]
  have hreplay : ∀ (r : RemoteBus) (data : Json),
      ¬SameEffect (.ok ((r.emit [.received msg]).replay type data)) (.ok r) := by
    intro r data
    obtain ⟨members, hemit⟩ := replay_eq (r.emit [.received msg]) type data
    have hevent : Action.isReceived (.event type members) = false := rfl
    rw [hemit]
    exact not_sameEffect_emit hevent
  simp only [hstep, onEvent]
  by_cases hadd : type = .ofString "ubus.object.add"
  · refine ⟨connected, ?_⟩
    rw [if_pos hadd]
    split
    · refine not_sameEffect callId (fun _ => rfl) ?_
      show (1 : Int) ≠ 0
      decide
    · exact hreplay _ _
  · simp only [hadd, if_false]
    by_cases hremove : type = .ofString "ubus.object.remove"
    · simp only [hremove, if_true]
      split
      · next name _ =>
        refine ⟨withStub M name, ?_⟩
        set stub := LocalStub.create (M.malloc name []) name []
        have htree : (withStub M name).stubs.tree = [stub] := rfl
        have hfind : ((withStub M name).emit [.received msg]).stubs.tree.find?
            (fun s => strcmp s.key name = 0) = some stub := by
          simp [emit, htree, stub, LocalStub.create]
        rw [hfind]
        refine not_sameEffect (fun r => r.stubs.tree) (fun _ => rfl) ?_
        simp [emit, Stubs.wsuLocalStubDestroy, htree]
      · exact ⟨connected, hremove ▸ hreplay _ _⟩
    · simp only [hremove, if_false]
      exact ⟨connected, hreplay _ _⟩

theorem FromRemote.has_effect (h : FromRemote msg) :
    ∃ r, ¬SameEffect (step M accepts r (.receive (some msg))) (.ok r) := by
  cases h with
  | reply hresult hid hne => exact ⟨_, reply_has_effect hresult hid hne⟩
  | event hresult hmethod hparams htype => exact event_has_effect hresult hmethod hparams htype

/-! ### The outcome for every way of splitting -/

theorem receivePiece_nil (hreads : tok.Reads text msg) :
    receivePiece tok M accepts r [] = .ok r := by
  have hnone : (tok.parseEx tok.reset []).2.jobj = none :=
    (hreads.incomplete [] [] text hreads.nonempty rfl).2
  rw [receivePiece, hnone]
  rfl

theorem receiveAll_empty (hreads : tok.Reads text msg) (h : ∀ piece ∈ pieces, piece = []) :
    receiveAll tok M accepts r pieces = .ok r := by
  induction pieces with
  | nil => rfl
  | cons piece pieces ih =>
      obtain rfl := h piece List.mem_cons_self
      rw [receiveAll, run_cons (receivePiece_nil hreads)]
      exact ih fun p hp => h p (List.mem_cons_of_mem _ hp)

theorem receivePiece_text (hreads : tok.Reads text msg) :
    receivePiece tok M accepts r text = step M accepts r (.receive (some msg)) := by
  have hpos := List.length_pos_iff.mpr hreads.nonempty
  have hcomplete : (tok.parseEx tok.reset text).2 = ⟨.success, some msg, text.length⟩ :=
    hreads.complete [] text [] hpos (by simp) rfl
  rw [receivePiece, hcomplete]

/-- Around the whole of a text there are only empty pieces. -/
theorem empty_around {before after : List (List UInt8)}
    (h : (before ++ text :: after).flatten = text) :
    (∀ piece ∈ before, piece = []) ∧ ∀ piece ∈ after, piece = [] := by
  have hlen := congrArg List.length h
  simp only [List.flatten_append, List.flatten_cons, List.length_append] at hlen
  constructor
  · exact List.flatten_eq_nil_iff.mp (List.eq_nil_of_length_eq_zero (by omega))
  · exact List.flatten_eq_nil_iff.mp (List.eq_nil_of_length_eq_zero (by omega))

/-- Empty pieces around the whole message make no difference. -/
theorem receiveAll_around (hreads : tok.Reads text msg) {before after : List (List UInt8)}
    (hbefore : ∀ piece ∈ before, piece = []) (hafter : ∀ piece ∈ after, piece = []) :
    receiveAll tok M accepts r (before ++ text :: after) =
      step M accepts r (.receive (some msg)) := by
  have hrun : receiveAll tok M accepts r (before ++ text :: after) =
      receiveAll tok M accepts r (text :: after) :=
    run_append (receiveAll_empty hreads hbefore) _
  rw [hrun, ← receivePiece_text hreads]
  cases hstep : receivePiece tok M accepts r text with
  | error c => simp [receiveAll, run, hstep]
  | ok r' =>
      rw [receiveAll, run_cons hstep]
      exact receiveAll_empty hreads hafter

end

/-- The pieces have the effect of the whole message, and none from inside of it
is acted on. -/
def AsWhole (tok : Tokener) (M : Allocator) (accepts : CString → Bool) (text : List UInt8)
    (pieces : List (List UInt8)) : Prop :=
  (∀ r, SameEffect (receiveAll tok M accepts r pieces) (receiveAll tok M accepts r [text])) ∧
    ∀ piece ∈ pieces, piece ≠ text → ¬ActedOn tok M accepts piece

/-- Any message one piece of which is the whole of it has the effect it has in
one. A message of the remote has it in no other way. -/
theorem receiveAll_iff {tok : Tokener} {M : Allocator} {accepts : CString → Bool}
    {text : List UInt8} {pieces : List (List UInt8)} {msg : Json} (hreads : tok.Reads text msg)
    (hsplit : pieces.flatten = text) :
    (text ∈ pieces → AsWhole tok M accepts text pieces) ∧
      (FromRemote msg → (AsWhole tok M accepts text pieces ↔ text ∈ pieces)) := by
  have hwhole : ∀ r, receiveAll tok M accepts r [text] =
      step M accepts r (.receive (some msg)) := by
    intro r
    have hnil : ∀ piece ∈ ([] : List (List UInt8)), piece = [] := by simp
    exact receiveAll_around hreads hnil hnil
  have hmem : text ∈ pieces → AsWhole tok M accepts text pieces := by
    intro hmem
    obtain ⟨before, after, rfl⟩ := List.append_of_mem hmem
    obtain ⟨hbefore, hafter⟩ := empty_around hsplit
    constructor
    · intro r
      rw [receiveAll_around hreads hbefore hafter, hwhole r]
      rfl
    · intro piece hpiece hne
      have hnil : piece = [] := by
        rcases List.mem_append.mp hpiece with h | h
        · exact hbefore piece h
        · rcases List.mem_cons.mp h with h | h
          · exact absurd h hne
          · exact hafter piece h
      rintro ⟨r, hr⟩
      rw [hnil, receivePiece_nil hreads] at hr
      exact hr rfl
  refine ⟨hmem, fun hmsg => ⟨?_, hmem⟩⟩
  rintro ⟨hsame, hinside⟩
  by_contra hnone
  -- with no piece to act on the message is lost, but it has an effect somewhere
  have hlost : ∀ piece ∈ pieces, ¬ActedOn tok M accepts piece := by
    intro piece hpiece
    exact hinside piece hpiece fun heq => hnone (heq ▸ hpiece)
  obtain ⟨r, hr⟩ : ∃ r, ¬SameEffect (step M accepts r (.receive (some msg))) (.ok r) :=
    hmsg.has_effect
  apply hr
  rw [← hwhole r]
  exact (hsame r).symm.trans (receiveAll_of_not_actedOn hlost)

def replyText : List UInt8 :=
  [123, 34, 105, 100, 34, 58, 49, 44, 34, 114, 101, 115, 117, 108, 116, 34, 58, 91, 48, 93, 125]

def replyJson : Json :=
  .object [(.ofString "id", .int 1), (.ofString "result", .array [.int 0])]

/-- A reply between two empty pieces, and split before its last brace. -/
theorem receiveAll_iff_reply :
    FromRemote replyJson ∧
      AsWhole (.knowing replyText replyJson) bumpAllocator acceptAll replyText
        [[], replyText, []] ∧
      ¬AsWhole (.knowing replyText replyJson) bumpAllocator acceptAll replyText
        [replyText.dropLast, [125]] := by
  have hreads := Tokener.reads_knowing replyJson (show replyText ≠ [] by decide)
  have hmsg : FromRemote replyJson := .reply rfl rfl (by decide)
  refine ⟨hmsg, (receiveAll_iff hreads (by simp)).1 (by simp), fun hwhole => ?_⟩
  have hmem : replyText ∈ [replyText.dropLast, [125]] :=
    ((receiveAll_iff hreads rfl).2 hmsg).mp hwhole
  exact absurd hmem (by decide)

/-- The reply split before its last brace. The slot of the call stays in use,
where the whole reply releases it. -/
theorem reply_lost :
    (Tokener.knowing replyText replyJson).Reads replyText replyJson ∧ FromRemote replyJson ∧
      receiveAll (.knowing replyText replyJson) bumpAllocator acceptAll (waitingForCall 1)
        [replyText.dropLast, [125]] = .ok (waitingForCall 1) ∧
      ∃ r, receiveAll (.knowing replyText replyJson) bumpAllocator acceptAll (waitingForCall 1)
        [replyText] = .ok r ∧ r.used 0 = false := by
  refine ⟨Tokener.reads_knowing replyJson (by decide), .reply rfl rfl (by decide), rfl, ?_⟩
  exact ⟨_, rfl, by decide⟩

end Owsd.Proxy
