import Owsd.Dbus.Names
import Owsd.Server.Quota

/-!
Requests of a client that D-Bus serves, and the quota of the client.

The dispatcher counts a request in `rpc_q_len` when its handler took it. A
call waits for one reply of D-Bus; a list waits for the names on the bus and
then for the introspection of one object after the other. The queue holds
the contexts of the requests that wait. A build with D-Bus may have ubus as
well: a list then asks ubus first, and a call goes on to ubus when D-Bus
does not take it, from where it is a request of ubus and counted as such.
-/

namespace Owsd.Dbus

open Server

def colon : CChar := .ofChar ':' (by decide)

/-- What the library does about arguments that its functions rule out. With its
checks it ends the program, unless it is told to go on. -/
structure ArgumentChecks where
  /-- `dbus_message_new_method_call` makes a message for the service and the
  path. -/
  newMethodCall : CString → CString → Bool
  /-- `dbus_type_is_basic` of a number that is no type code, if it returns. -/
  isBasicOther : Option Bool

def isNameChar (c : CChar) : Bool :=
  (Char.ofNat c.val.val).isAlphanum || c = .ofChar '_' (by decide)

/-- The slash alone, or elements that each stand behind a slash. -/
def isObjectPath (path : CString) : Bool :=
  path = [slash] || (path.head? = some slash && (path.tail.splitOn slash).all fun element =>
    !element.isEmpty && element.all isNameChar)

/-- At least two elements with dots between them, none of which begins with a
digit. -/
def isServiceName (name : CString) : Bool :=
  2 ≤ (name.splitOn dot).length && name.length ≤ 255 && (name.splitOn dot).all fun element =>
    !element.isEmpty && !element.head?.any (fun c => (Char.ofNat c.val.val).isDigit) &&
      element.all fun c => isNameChar c || c = .ofChar '-' (by decide)

/-- A library with its checks, which end the program. -/
def strictLibrary : ArgumentChecks where
  newMethodCall service path := isServiceName service && isObjectPath path
  isBasicOther := none

structure Build where
  haveUbus : Bool
  objectsPath : CString
  library : ArgumentChecks

structure IntrospectionTarget where
  service : CString
  path : CString

inductive Awaited where
  | call
  | listNames
  | introspect (cur : IntrospectionTarget) (later : List IntrospectionTarget)
  /-- The context was freed and is still in the queue. -/
  | freed

/-- A context in `rpc_call_q`, with the number of the message it is for. -/
structure RequestCtx where
  num : ℕ
  awaited : Awaited

inductive QueueFault where
  | useAfterFree
  /-- A message that the library did not make was sent. -/
  | noMessage
  /-- The callback did not get through the document of a reply. -/
  | unreadable
  deriving DecidableEq

structure DbusClient where
  rpcQLen : BitVec 32
  rpcCallQ : List RequestCtx
  totalReqMax : ℕ
  numActiveSes : ℕ
  /-- The messages so far, and the numbers of those that were answered and of
  those that were refused for the quota. -/
  messages : ℕ
  answered : List ℕ
  refused : List ℕ

def RequestCtx.isFreed (r : RequestCtx) : Bool :=
  match r.awaited with
  | .freed => true
  | _ => false

namespace DbusClient

/-- `req_max`, which follows the number of sessions. -/
def reqMax (c : DbusClient) : ℕ := recalcReqMax c.totalReqMax c.numActiveSes

/-- `list_add_tail`, which writes into the last context. -/
def listAddTail (c : DbusClient) (awaited : Awaited) : Except QueueFault DbusClient :=
  if c.rpcCallQ.getLast?.any RequestCtx.isFreed then .error .useAfterFree
  else .ok { c with rpcCallQ := c.rpcCallQ ++ [{ num := c.messages, awaited := awaited }] }

/-- `list_del`, which writes into the contexts on both sides. -/
def listDel (c : DbusClient) (num : ℕ) : Except QueueFault DbusClient :=
  let before := c.rpcCallQ.takeWhile fun r => r.num ≠ num
  let behind := (c.rpcCallQ.dropWhile fun r => r.num ≠ num).tail
  if before.getLast?.any RequestCtx.isFreed || behind.head?.any RequestCtx.isFreed then
    .error .useAfterFree
  else .ok { c with rpcCallQ := before ++ behind }

def setAwaited (c : DbusClient) (num : ℕ) (awaited : Awaited) : DbusClient :=
  { c with rpcCallQ := c.rpcCallQ.map fun r =>
      if r.num = num then { r with awaited := awaited } else r }

/-- `wsu_queue_write_str` with the response to a message. -/
def answer (c : DbusClient) (num : ℕ) : DbusClient := { c with answered := num :: c.answered }

/-! ### Handlers -/

/-- How a handler left a request: it took it, it failed, or ubus has it. -/
inductive Handled where
  | served | failed | passedOn

/-- A request, with what became of the messages its handler sends to D-Bus. -/
inductive DbusRequest where
  | call (sent : Bool)
  | list (sent : Bool)

/-- `ubusrpc_handle_call` with `handle_call_dbus`. -/
def ubusrpcHandleCall (b : Build) (c : DbusClient) (sent : Bool) :
    Except QueueFault (Handled × DbusClient) :=
  if sent then do
    let c ← c.listAddTail .call
    pure (.served, c)
  else pure (if b.haveUbus then .passedOn else .failed, c)

/-- `handle_list_ubus`, which is told not to answer. -/
def handleListUbus (c : DbusClient) : DbusClient := { c with rpcQLen := c.rpcQLen - 1 }

def handleListDbus (c : DbusClient) (sent : Bool) : Except QueueFault DbusClient :=
  if sent then c.listAddTail .listNames else .ok c

/-- `ubusrpc_handle_list`, which does not look at how `handle_list_dbus`
ended. -/
def ubusrpcHandleList (b : Build) (c : DbusClient) (sent : Bool) :
    Except QueueFault (Handled × DbusClient) := do
  let c ← handleListDbus (if b.haveUbus then c.handleListUbus else c) sent
  pure (.served, c)

def handleDbusRequest (b : Build) (c : DbusClient) :
    DbusRequest → Except QueueFault (Handled × DbusClient)
  | .call sent => ubusrpcHandleCall b c sent
  | .list sent => ubusrpcHandleList b c sent

/-- The end of `wsu_on_msg_from_client`, behind the handler. -/
def dispatched (handled : Handled) (c : DbusClient) : DbusClient :=
  match handled with
  | .served => { c with rpcQLen := c.rpcQLen + 1 }
  | .failed => c.answer c.messages
  | .passedOn => c

/-- `wsu_on_msg_from_client` on a request. A client over its quota is not
answered. -/
def wsuOnMsgFromDbusClient (b : Build) (c : DbusClient) (req : DbusRequest) :
    Except QueueFault DbusClient := do
  let c ←
    (if c.reqMax < c.rpcQLen.toNat then pure { c with refused := c.messages :: c.refused }
    else do
      let r ← handleDbusRequest b c req
      pure (dispatched r.1 r.2))
  pure { c with messages := c.messages + 1 }

/-! ### Replies of D-Bus -/

def awaits (c : DbusClient) (num : ℕ) : Option Awaited :=
  (c.rpcCallQ.find? fun r => r.num = num).map RequestCtx.awaited

/-- `wsd_call_cb`, whether the reply is an error or not. The context is freed
by `wsd_call_ctx_free`, which leaves the count of the client alone. -/
def wsdCallCb (c : DbusClient) (num : ℕ) : Except QueueFault DbusClient :=
  (c.answer num).listDel num

/-- `introspect_list_finish`. Dropping the reply frees the context by
`wsd_list_ctx_free`. -/
def introspectListFinish (c : DbusClient) (num : ℕ) : Except QueueFault DbusClient :=
  (c.answer num).listDel num

/-- `introspect_list_next`, when there is a target left. -/
def introspectListNext (b : Build) (c : DbusClient) (num : ℕ) :
    List IntrospectionTarget → Except QueueFault DbusClient
  | [] => c.introspectListFinish num
  | cur :: later =>
      if b.library.newMethodCall cur.service cur.path then
        .ok (c.setAwaited num (.introspect cur later))
      else .error .noMessage

/-- The targets of the names on the bus. Unique names are passed over. -/
def namedTargets (b : Build) (names : List CString) : List IntrospectionTarget :=
  (names.filter fun name => name.head? ≠ some colon).map fun name =>
    { service := name, path := b.objectsPath }

/-- `wsd_list_cb`. An error answers the request and frees its context, which
stays in the queue. -/
def wsdListCb (b : Build) (c : DbusClient) (num : ℕ) (names : Option (List CString)) :
    Except QueueFault DbusClient :=
  match names with
  | none => .ok ((c.answer num).setAwaited num .freed)
  | some names => c.introspectListNext b num (namedTargets b names)

def childPath (path node : CString) : CString :=
  (if path.getLast? = some slash then path else path ++ [slash]) ++ node

/-- A reply to an introspection, as far as the objects below go. -/
inductive Introspected where
  | error
  /-- The document names these nodes. -/
  | nodes (names : List CString)
  /-- There is no document, or it has a type in it that ends the program. -/
  | unreadable

def wsdIntrospectCb (b : Build) (c : DbusClient) (num : ℕ) (cur : IntrospectionTarget)
    (later : List IntrospectionTarget) : Introspected → Except QueueFault DbusClient
  | .error => c.introspectListNext b num later
  | .nodes names =>
      c.introspectListNext b num (later ++ names.map fun node =>
        { cur with path := childPath cur.path node })
  | .unreadable => .error .unreadable

/-- What happens to the client. A reply is for the message of the given
number. -/
inductive DbusEvent where
  | message (req : DbusRequest)
  | callReply (num : ℕ)
  | namesReply (num : ℕ) (names : Option (List CString))
  | introspectReply (num : ℕ) (reply : Introspected)
  /-- Another client came or went. -/
  | sessions (numActiveSes : ℕ)

/-- Replies nobody waits for are not delivered. -/
def step (b : Build) (c : DbusClient) : DbusEvent → Except QueueFault DbusClient
  | .message req => c.wsuOnMsgFromDbusClient b req
  | .callReply num =>
      match c.awaits num with
      | some .call => c.wsdCallCb num
      | _ => .ok c
  | .namesReply num names =>
      match c.awaits num with
      | some .listNames => c.wsdListCb b num names
      | _ => .ok c
  | .introspectReply num reply =>
      match c.awaits num with
      | some (.introspect cur later) => c.wsdIntrospectCb b num cur later reply
      | _ => .ok c
  | .sessions n => .ok { c with numActiveSes := n }

def connected (totalReqMax numActiveSes : ℕ) : DbusClient where
  rpcQLen := 0
  rpcCallQ := []
  totalReqMax := totalReqMax
  numActiveSes := numActiveSes
  messages := 0
  answered := []
  refused := []

/-! ### The count -/

/-- The request, when it is within the quota, is counted and never taken off
again: a call that D-Bus takes, and in a build without ubus every list. -/
def keepsCount (b : Build) : DbusRequest → Bool
  | .call sent => sent
  | .list _ => !b.haveUbus

/-- The event is such a request and the client is within its quota. -/
def StaysCounted (b : Build) (c : DbusClient) : DbusEvent → Prop
  | .message req => keepsCount b req = true ∧ c.rpcQLen.toNat ≤ c.reqMax
  | _ => False

structure SameBooks (c c' : DbusClient) : Prop where
  rpcQLen : c'.rpcQLen = c.rpcQLen
  refused : c'.refused = c.refused

variable {b : Build} {c c' : DbusClient} {num : ℕ}

theorem listAddTail_books {awaited : Awaited} (h : c.listAddTail awaited = .ok c') :
    SameBooks c c' := by
  rw [listAddTail] at h
  split at h
  · cases h
  · cases h
    exact ⟨rfl, rfl⟩

theorem listDel_books (h : c.listDel num = .ok c') : SameBooks c c' := by
  rw [listDel] at h
  split at h
  · cases h
  · cases h
    exact ⟨rfl, rfl⟩

/-- A reply may change the queue and the answers, never the count. -/
theorem answer_listDel_books (h : (c.answer num).listDel num = .ok c') : SameBooks c c' := by
  have hdel := listDel_books h
  exact ⟨hdel.rpcQLen, hdel.refused⟩

theorem introspectListNext_cons {cur : IntrospectionTarget} {later : List IntrospectionTarget}
    (h : c.introspectListNext b num (cur :: later) = .ok c') :
    c' = c.setAwaited num (.introspect cur later) := by
  rw [introspectListNext] at h
  split at h <;> cases h
  rfl

theorem introspectListNext_books {targets : List IntrospectionTarget}
    (h : c.introspectListNext b num targets = .ok c') : SameBooks c c' := by
  cases targets with
  | nil => exact answer_listDel_books h
  | cons cur later =>
      rw [introspectListNext_cons h]
      exact ⟨rfl, rfl⟩

/-- A reply that the callback gets through leads to the next target. -/
theorem exists_introspectListNext {cur : IntrospectionTarget} {later : List IntrospectionTarget}
    {reply : Introspected} (h : c.wsdIntrospectCb b num cur later reply = .ok c') :
    ∃ targets, c.introspectListNext b num targets = .ok c' := by
  cases reply with
  | error => exact ⟨later, h⟩
  | nodes names => exact ⟨_, h⟩
  | unreadable => cases h

theorem wsdListCb_books {names : Option (List CString)} (h : c.wsdListCb b num names = .ok c') :
    SameBooks c c' := by
  cases names with
  | none =>
      cases h
      exact ⟨rfl, rfl⟩
  | some names => exact introspectListNext_books h

theorem handleListDbus_books {sent : Bool} (h : c.handleListDbus sent = .ok c') :
    SameBooks c c' := by
  cases sent with
  | true => exact listAddTail_books h
  | false =>
      cases h
      exact ⟨rfl, rfl⟩

theorem handleDbusRequest_books {req : DbusRequest} {r : Handled × DbusClient}
    (h : c.handleDbusRequest b req = .ok r) :
    (dispatched r.1 r.2).refused = c.refused ∧
      (dispatched r.1 r.2).rpcQLen =
        if keepsCount b req then c.rpcQLen + 1 else c.rpcQLen := by
  cases req with
  | call sent =>
      cases sent with
      | true =>
          obtain ⟨c₁, hadd, hr⟩ := bind_ok h
          cases hr
          have hbooks := listAddTail_books hadd
          simp [dispatched, keepsCount, hbooks.rpcQLen, hbooks.refused]
      | false =>
          cases h
          cases hubus : b.haveUbus with
          | true => simp [dispatched, keepsCount]
          | false => simp [dispatched, keepsCount, answer]
  | list sent =>
      obtain ⟨c₁, hlist, hr⟩ := bind_ok h
      cases hr
      have hbooks := handleListDbus_books hlist
      cases hubus : b.haveUbus with
      | true =>
          rw [hubus, if_pos rfl] at hbooks
          have hkeeps : keepsCount b (.list sent) = false := by
            rw [keepsCount, hubus]
            rfl
          rw [hkeeps, if_neg Bool.false_ne_true]
          refine ⟨hbooks.refused, ?_⟩
          -- Counted by the dispatcher, after ubus took one off.
          show c₁.rpcQLen + 1 = c.rpcQLen
          rw [hbooks.rpcQLen]
          exact BitVec.sub_add_cancel _ _
      | false =>
          rw [hubus, if_neg Bool.false_ne_true] at hbooks
          simp [dispatched, keepsCount, hubus, hbooks.rpcQLen, hbooks.refused]

theorem wsuOnMsgFromDbusClient_refused {req : DbusRequest}
    (hfull : c.reqMax < c.rpcQLen.toNat) (h : c.wsuOnMsgFromDbusClient b req = .ok c') :
    c'.rpcQLen = c.rpcQLen := by
  rw [wsuOnMsgFromDbusClient, if_pos hfull] at h
  cases h
  rfl

theorem wsuOnMsgFromDbusClient_admitted {req : DbusRequest}
    (hroom : c.rpcQLen.toNat ≤ c.reqMax) (h : c.wsuOnMsgFromDbusClient b req = .ok c') :
    c'.refused = c.refused ∧
      c'.rpcQLen = if keepsCount b req then c.rpcQLen + 1 else c.rpcQLen := by
  rw [wsuOnMsgFromDbusClient, if_neg (Nat.not_lt.mpr hroom)] at h
  obtain ⟨c₁, hhandled, hc'⟩ := bind_ok h
  obtain ⟨r, hr, hc₁⟩ := bind_ok hhandled
  cases hc'
  cases hc₁
  exact handleDbusRequest_books hr

theorem reply_books {e : DbusEvent} (hreply : ∀ req, e ≠ .message req)
    (h : step b c e = .ok c') : SameBooks c c' := by
  cases e with
  | message req => exact absurd rfl (hreply req)
  | callReply num =>
      simp only [step] at h
      split at h
      · exact answer_listDel_books h
      · cases h
        exact ⟨rfl, rfl⟩
  | namesReply num names =>
      simp only [step] at h
      split at h
      · exact wsdListCb_books h
      · cases h
        exact ⟨rfl, rfl⟩
  | introspectReply num reply =>
      simp only [step] at h
      split at h
      · obtain ⟨targets, hnext⟩ := exists_introspectListNext h
        exact introspectListNext_books hnext
      · cases h
        exact ⟨rfl, rfl⟩
  | sessions n =>
      cases h
      exact ⟨rfl, rfl⟩

/-! ### Steps and runs -/

/-- A request that stays counted adds one; the count is too small to wrap. -/
theorem step_of_staysCounted {e : DbusEvent} (hstays : StaysCounted b c e)
    (h : step b c e = .ok c') : c'.rpcQLen.toNat = c.rpcQLen.toNat + 1 := by
  cases e with
  | message req =>
      obtain ⟨hkeeps, hroom⟩ := hstays
      have hadded := (wsuOnMsgFromDbusClient_admitted hroom h).2
      rw [if_pos hkeeps] at hadded
      have hmax : c.reqMax ≤ maxAsyncReqs := recalcReqMax_le _ _
      have hsmall : c.rpcQLen.toNat ≤ 512 := le_trans hroom hmax
      have hone : (1 : BitVec 32).toNat = 1 := rfl
      rw [hadded, BitVec.toNat_add, hone]
      omega
  | callReply | namesReply | introspectReply | sessions => exact absurd hstays id

theorem step_of_not_staysCounted {e : DbusEvent} (hnot : ¬ StaysCounted b c e)
    (h : step b c e = .ok c') : c'.rpcQLen = c.rpcQLen := by
  cases e with
  | message req =>
      by_cases hroom : c.rpcQLen.toNat ≤ c.reqMax
      · have hkeeps : keepsCount b req = false := by
          by_contra hne
          exact hnot ⟨Bool.eq_true_of_not_eq_false hne, hroom⟩
        have hsame := (wsuOnMsgFromDbusClient_admitted hroom h).2
        rw [hkeeps] at hsame
        exact hsame
      · exact wsuOnMsgFromDbusClient_refused (Nat.lt_of_not_le hroom) h
  | callReply num => exact (reply_books (by simp) h).rpcQLen
  | namesReply num names => exact (reply_books (by simp) h).rpcQLen
  | introspectReply num reply => exact (reply_books (by simp) h).rpcQLen
  | sessions n => exact (reply_books (by simp) h).rpcQLen

theorem step_refused {e : DbusEvent} (hzero : c.rpcQLen = 0) (h : step b c e = .ok c') :
    c'.refused = c.refused := by
  cases e with
  | message req =>
      have hroom : c.rpcQLen.toNat ≤ c.reqMax := by
        rw [hzero]
        exact Nat.zero_le _
      exact (wsuOnMsgFromDbusClient_admitted hroom h).1
  | callReply num => exact (reply_books (by simp) h).refused
  | namesReply num names => exact (reply_books (by simp) h).refused
  | introspectReply num reply => exact (reply_books (by simp) h).refused
  | sessions n => exact (reply_books (by simp) h).refused

theorem run_rpcQLen_le {es : List DbusEvent} (h : run (step b) c es = .ok c') :
    c.rpcQLen.toNat ≤ c'.rpcQLen.toNat := by
  induction es generalizing c with
  | nil =>
      obtain rfl : c = c' := by simpa [run] using h
      exact le_refl _
  | cons e es ih =>
      obtain ⟨t, ht, hrest⟩ := run_cons_ok h
      have hle := ih hrest
      by_cases hstays : StaysCounted b c e
      · have hplus := step_of_staysCounted hstays ht
        omega
      · rw [← step_of_not_staysCounted hstays ht]
        exact hle

/-- Over a run the count comes back exactly when no request stayed counted. -/
theorem run_rpcQLen_iff {es : List DbusEvent} (h : run (step b) c es = .ok c') :
    c'.rpcQLen = c.rpcQLen ↔ Guarded (step b) (fun c e => ¬ StaysCounted b c e) c es := by
  induction es generalizing c with
  | nil =>
      obtain rfl : c = c' := by simpa [run] using h
      exact ⟨fun _ => trivial, fun _ => rfl⟩
  | cons e es ih =>
      obtain ⟨t, ht, hrest⟩ := run_cons_ok h
      constructor
      · intro heq
        have hnot : ¬ StaysCounted b c e := by
          intro hstays
          have hplus := step_of_staysCounted hstays ht
          have hle := run_rpcQLen_le hrest
          rw [heq] at hle
          omega
        refine Guarded.cons hnot ht ((ih hrest).mp ?_)
        rw [heq, step_of_not_staysCounted hnot ht]
      · intro hg
        rw [(ih hrest).mpr (hg.2 t ht), step_of_not_staysCounted hg.1 ht]

theorem run_refused {es : List DbusEvent} (hzero : c.rpcQLen = 0)
    (hg : Guarded (step b) (fun c e => ¬ StaysCounted b c e) c es)
    (h : run (step b) c es = .ok c') : c'.refused = c.refused := by
  have hinv : c'.rpcQLen = 0 ∧ c'.refused = c.refused := by
    refine run_invariant (fun t => t.rpcQLen = 0 ∧ t.refused = c.refused) ?_ ⟨hzero, rfl⟩ hg h
    intro t e t' ht hnot hstep
    constructor
    · rw [step_of_not_staysCounted hnot hstep, ht.1]
    · rw [step_refused ht.1 hstep, ht.2]
  exact hinv.2

/-- Over every run of requests and replies the count comes back to what it
was exactly when D-Bus took no call and, in a build without ubus, no list
was handled; and over such a run a client that had nothing counted is never
refused. -/
theorem quota_given_back_iff {es : List DbusEvent} (h : run (step b) c es = .ok c') :
    (c'.rpcQLen = c.rpcQLen ↔ Guarded (step b) (fun c e => ¬ StaysCounted b c e) c es) ∧
    (c.rpcQLen = 0 → Guarded (step b) (fun c e => ¬ StaysCounted b c e) c es →
      c'.refused = c.refused) :=
  ⟨run_rpcQLen_iff h, fun hzero hg => run_refused hzero hg h⟩

/-- A list in a build with ubus: of the two names on the bus one is asked,
which has nothing below it. -/
def listed : List DbusEvent :=
  [.message (.list true),
    .namesReply 0 (some [CString.ofString ":1.7", CString.ofString "org.wsd"]),
    .introspectReply 0 .error]

/-- The prefix of the objects in the examples, with or without ubus. -/
def orgWsd (haveUbus : Bool) : Build where
  haveUbus := haveUbus
  objectsPath := CString.ofString "/org/wsd"
  library := strictLibrary

theorem quota_given_back_iff_listed :
    ∃ c, run (step (orgWsd true)) (connected 1024 1) listed = .ok c ∧ c.answered = [0] ∧
      c.rpcQLen = 0 ∧ c.refused = [] := by
  have hrun : run (step (orgWsd true)) (connected 1024 1) listed = .ok
      { connected 1024 1 with
        messages := 1
        answered := [0] } := rfl
  have hg : Guarded (step (orgWsd true)) (fun c e => ¬ StaysCounted (orgWsd true) c e)
      (connected 1024 1) listed := by
    refine Guarded.cons ?_ rfl (Guarded.cons id rfl (Guarded.cons id rfl trivial))
    rintro ⟨hkeeps, -⟩
    exact absurd hkeeps (by decide)
  obtain ⟨hback, hrefused⟩ := quota_given_back_iff hrun
  exact ⟨_, hrun, rfl, hback.mpr hg, hrefused rfl hg⟩

def callsInTurn (n : ℕ) : List DbusEvent :=
  (List.range n).flatMap fun i => [.message (.call true), .callReply i]

/-- With room for two requests a client that has made three calls, one at a
time and all answered, is refused the fourth, in both builds. -/
theorem call_refused_in_turn :
    (∃ c c', run (step (orgWsd true)) (connected 1024 512) (callsInTurn 3) = .ok c ∧
      c.rpcCallQ = [] ∧ c.answered = [2, 1, 0] ∧ c.rpcQLen = 3 ∧
      step (orgWsd true) c (.message (.call true)) = .ok c' ∧ c'.refused = [3]) ∧
    (∃ c c', run (step (orgWsd false)) (connected 1024 512) (callsInTurn 3) = .ok c ∧
      c.rpcCallQ = [] ∧ c.answered = [2, 1, 0] ∧ c.rpcQLen = 3 ∧
      step (orgWsd false) c (.message (.call true)) = .ok c' ∧ c'.refused = [3]) :=
  ⟨⟨_, _, rfl, rfl, rfl, rfl, rfl, rfl⟩, ⟨_, _, rfl, rfl, rfl, rfl, rfl, rfl⟩⟩

end DbusClient

end Owsd.Dbus
