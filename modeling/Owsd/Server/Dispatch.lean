import Owsd.Rpc.Documented
import Owsd.Server.Effects

/-!
Which messages reach a handler.

A message of a client within its quota is parsed, and either handed to the
handler of its method or answered with an error. So what the parsers say
about documented requests holds of the replies, and so does the exception
(`dispatches_iff`).
-/

namespace Owsd.Server

open Rpc

/-- The handler of a request, and what `wsu_on_msg_from_client` does after
it. -/
def dispatch (cfg : Config) (s : State) (w : Wsi) (c : ClientSession) (blob : List Attr)
    (now : Timespec) (a : MessageAnswers) (req : UbusrpcBlob) : Except Fault State :=
  (handleRequest cfg (s.emit [.received w s.steps blob]) w (wsuSidUpdate c req.sid) req
    (jsonrpcId blob) now a).map fun r =>
      { (r.1.setClient w { r.2 with rpcQLen := r.2.rpcQLen + 1 }) with steps := s.steps + 1 }

def refuse (s : State) (w : Wsi) (blob : List Attr) (e : JsonrpcErrorCode) : State :=
  { s.emit [.reply w s.steps (jsonrpcRespError (jsonrpcId blob) e none),
    .received w s.steps blob] with steps := s.steps + 1 }

/-- The server does with the message, whenever a client sends it, what is
documented: it hands a documented request to its handler, and answers
everything else with the right error. -/
def Dispatches (cfg : Config) (o : JsonObject) : Prop :=
  ∀ (s : State) (w : Wsi) (c : ClientSession) (now : Timespec) (a : MessageAnswers),
    s.clients w = some c → c.rpcQLen.toNat ≤ s.reqMax →
    (∃ req, Expected o (.ok req) ∧
      step cfg s (.message w o.blob now a) = dispatch cfg s w c o.blob now a req) ∨
    (∃ e, Expected o (.error e) ∧
      step cfg s (.message w o.blob now a) = .ok (refuse s w o.blob e))

theorem dispatches_of_expected {cfg : Config} {o : JsonObject}
    (h : ∀ x, ParsesAsExpected x o) : Dispatches cfg o := by
  intro s w c now a hc hq
  obtain ⟨outcome, hreq, hexp⟩ := h a.scalarAttrs
  cases outcome with
  | ok req => exact .inl ⟨req, hexp, step_handled cfg now a hc hq hreq⟩
  | error e => exact .inr ⟨e, hexp, step_refused cfg now a hc hq hreq⟩

def failing : MessageAnswers :=
  ⟨⟨false, false, false, false, fun _ => []⟩, fun _ => some [], 0, 0, []⟩

/-- A call is never answered with an error of the parsers. Here it is one
that fails because there is no memory. -/
theorem dispatch_call_ne_refuse {cfg : Config} {s : State} {w : Wsi} {c : ClientSession}
    {blob : List Attr} {now : Timespec} {args : UbusrpcBlobCall} {e : JsonrpcErrorCode} :
    dispatch cfg s w c blob now failing (.call args) ≠
      .ok (refuse s w blob e) := by
  intro h
  have hlog : s.log.length + 4 = s.log.length + 2 :=
    congrArg (fun r => (r.toOption.map fun s => s.log.length).getD 0) h
  omega

/-- A call with an odd argument is handed to its handler, or leads the parser
out of the message. -/
theorem not_dispatches {cfg : Config} {o : JsonObject} (hodd : OddArgument o) :
    ¬Dispatches cfg o := by
  intro h
  obtain ⟨params, sid, object, method, arg, henv, hcall, harg⟩ := hodd
  have hbad : OddParams (.ofString "call") params := ⟨rfl, sid, object, method, arg, hcall, harg⟩
  obtain ⟨c, hc, hq⟩ : ∃ c, (wsuPeerInit (init 1024) 0).clients 0 = some c ∧
      c.rpcQLen.toNat ≤ (wsuPeerInit (init 1024) 0).reqMax := ⟨_, rfl, by decide⟩
  rcases h _ 0 c ⟨0, 0⟩ failing hc hq with
    ⟨req, ⟨method₂, params₂, henv₂, hdoc⟩, -⟩ | ⟨e, -, hstep⟩
  · obtain ⟨rfl, rfl⟩ := henv.unique henv₂
    exact hbad.not_documented hdoc
  · rcases hbad.parse with hnone | ⟨args, hok⟩
    · rw [step_scalar cfg _ failing hc hq ((henv.parseRequest _).trans hnone)] at hstep
      cases hstep
    · rw [step_handled cfg _ failing hc hq ((henv.parseRequest _).trans hok)] at hstep
      exact dispatch_call_ne_refuse hstep

/-- Only documented requests are dispatched, and everything else is answered
with the error that says what is wrong; except for calls whose argument is no
object. -/
theorem dispatches_iff (cfg : Config) (o : JsonObject) : Dispatches cfg o ↔ ¬OddArgument o := by
  constructor
  · exact fun h hodd => not_dispatches hodd h
  · exact fun hgood => dispatches_of_expected ((parse_iff o).mpr hgood)

def textArgument : JsonObject where
  members := [(.ofString "jsonrpc", .string (.ofString "2.0")), (.ofString "id", .int 7),
    (.ofString "method", .string (.ofString "call")),
    (.ofString "params", .array [.string (.ofString "s"), .string (.ofString "router"),
      .string (.ofString "info"), .string (.ofString "x")])]
  nodup := by decide

theorem textArgument_dispatched :
    (∀ x, parseRequest x textArgument.blob =
        some (.ok (.call ⟨.ofString "s", .ofString "router", .ofString "info", []⟩))) ∧
      ¬Dispatches plainConfig textArgument := by
  refine ⟨fun _ => rfl, not_dispatches ⟨_, .ofString "s", .ofString "router", .ofString "info",
    .string (.ofString "x"), ⟨rfl, rfl, rfl⟩, ⟨_, _, [], ⟨[], rfl, by simp⟩, ⟨[], rfl, by simp⟩,
    ⟨[], rfl, by simp⟩⟩, ?_⟩⟩
  intro args heq
  cases heq

end Owsd.Server
