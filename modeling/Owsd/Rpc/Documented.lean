import Owsd.Rpc.Request

/-!
The documented requests, and what the parsers make of everything else.

A message is an object with the version, a method and an array of
parameters. Here the forms of the five methods are stated on the JSON value
that was received. libubox passes over elements that are not of the type a
position asks for, so the strings of a request are the first ones of the
array.

The parsers accept all documented requests, and classify the others, with one
exception: the argument of a `call` may be of any type (`parse_iff`).
-/

namespace Owsd.Rpc

/-! ### Documented requests -/

structure JsonObject where
  members : List (CString × Json)
  nodup : (members.map Prod.fst).Nodup

/-- `json_object_object_get`. -/
def JsonObject.get (o : JsonObject) (key : CString) : Option Json := o.members.lookup key

def JsonObject.blob (o : JsonObject) : List Attr := membersToBlob o.members

structure Envelope (o : JsonObject) (method : CString) (params : List Json) : Prop where
  version : o.get (.ofString "jsonrpc") = some (.string (.ofString "2.0"))
  method : o.get (.ofString "method") = some (.string method)
  params : o.get (.ofString "params") = some (.array params)

/-- The next string among the parameters, and what comes after it. -/
def NextString (params : List Json) (s : CString) (rest : List Json) : Prop :=
  ∃ skipped, params = skipped ++ .string s :: rest ∧ ∀ j ∈ skipped, j.isString = false

def supportedMethods : List CString :=
  [.ofString "call", .ofString "list", .ofString "subscribe", .ofString "subscribe-list",
    .ofString "unsubscribe"]

/-- A session id, an object and a method, and the value after them. -/
def CallParams (params : List Json) (sid object method : CString) (arg : Json) : Prop :=
  ∃ params₁ params₂ rest, NextString params sid params₁ ∧ NextString params₁ object params₂ ∧
    NextString params₂ method (arg :: rest)

/-- The parameters are of the form documented for the method, and ask for the
request. The session id of a `list` is ignored, whatever it is. -/
inductive Documented : CString → List Json → UbusrpcBlob → Prop
  | call {params : List Json} {sid object method : CString} {args : List (CString × Json)} :
      CallParams params sid object method (.object args) →
      (∀ m ∈ args, m.1 ≠ .ofString "_owsd_listen") →
      Documented (.ofString "call") params (.call ⟨sid, object, method, membersToBlob args⟩)
  | list {sid : Json} {params rest : List Json} {pattern : CString} :
      NextString params pattern rest →
      Documented (.ofString "list") (sid :: params) (.list ⟨sid.toBlob.getString, pattern⟩)
  | subscribe {params params' rest : List Json} {sid pattern : CString} :
      NextString params sid params' → NextString params' pattern rest →
      Documented (.ofString "subscribe") params (.sub ⟨sid, pattern⟩)
  | unsubscribe {params params' rest : List Json} {sid pattern : CString} :
      NextString params sid params' → NextString params' pattern rest →
      Documented (.ofString "unsubscribe") params (.unsub ⟨sid, pattern⟩)
  | subscribeList {params rest : List Json} {sid : CString} :
      NextString params sid rest →
      Documented (.ofString "subscribe-list") params (.subList ⟨sid, []⟩)

/-- What is to become of a message: a documented request is handled, and
everything else is answered with the error that says what is wrong. -/
def Expected (o : JsonObject) : Except JsonrpcErrorCode UbusrpcBlob → Prop
  | .ok req => ∃ method params, Envelope o method params ∧ Documented method params req
  | .error .invalidRequest => ¬∃ method params, Envelope o method params
  | .error .methodNotFound => ∃ method params, Envelope o method params ∧
      method ∉ supportedMethods
  | .error .invalidParams => ∃ method params, Envelope o method params ∧
      method ∈ supportedMethods ∧ ¬∃ req, Documented method params req
  | .error _ => False

def ParsesAsExpected (x : ScalarAttrs) (o : JsonObject) : Prop :=
  ∃ outcome, parseRequest x o.blob = some outcome ∧ Expected o outcome

/-- A `call` whose argument is no object. -/
def OddArgument (o : JsonObject) : Prop :=
  ∃ params sid object method arg, Envelope o (.ofString "call") params ∧
    CallParams params sid object method arg ∧ ∀ args, arg ≠ .object args

/-! ### Strings among the parameters -/

section

variable {params rest rest' : List Json} {s s' : CString} {ps : List BlobmsgType}

theorem fits_string (j : Json) : BlobmsgType.string.fits j.toBlob = j.isString := by
  cases j with
  | int v =>
      rw [Json.toBlob]
      split
      · rfl
      · rfl
  | _ => rfl

theorem parseArray_nil (attrs : List Attr) : blobmsgParseArray [] attrs = [] := by
  rw [blobmsgParseArray]

theorem parseArray_unspec (j : Json) :
    blobmsgParseArray (.unspec :: ps) (elemsToBlob (j :: rest)) =
      some ([], j.toBlob) :: blobmsgParseArray ps (elemsToBlob rest) := by
  rw [elemsToBlob, blobmsgParseArray]
  exact if_pos rfl

theorem parseArray_string (h : NextString params s rest) :
    blobmsgParseArray (.string :: ps) (elemsToBlob params) =
      some ([], .string s) :: blobmsgParseArray ps (elemsToBlob rest) := by
  obtain ⟨skipped, rfl, hskipped⟩ := h
  induction skipped with
  | nil => rfl
  | cons j skipped ih =>
      have hj : BlobmsgType.string.fits j.toBlob = false := by
        rw [fits_string, hskipped j List.mem_cons_self]
      rw [List.cons_append, elemsToBlob, blobmsgParseArray, hj]
      exact ih fun i hi => hskipped i (List.mem_cons_of_mem j hi)

theorem parseArray_no_string (h : ∀ j ∈ params, j.isString = false) :
    blobmsgParseArray (.string :: ps) (elemsToBlob params) =
      none :: ps.map fun _ => none := by
  induction params with
  | nil => rfl
  | cons j params ih =>
      have hj : BlobmsgType.string.fits j.toBlob = false := by
        rw [fits_string, h j List.mem_cons_self]
      rw [elemsToBlob, blobmsgParseArray, hj]
      exact ih fun i hi => h i (List.mem_cons_of_mem j hi)

theorem nextString_or (params : List Json) :
    (∃ s rest, NextString params s rest) ∨ ∀ j ∈ params, j.isString = false := by
  induction params with
  | nil => exact .inr (by simp)
  | cons j params ih =>
      cases hj : j.isString with
      | true =>
          cases j with
          | string s => exact .inl ⟨s, params, [], rfl, by simp⟩
          | _ => cases hj
      | false =>
          rcases ih with ⟨s, rest, skipped, rfl, hskipped⟩ | hnone
          · exact .inl ⟨s, rest, j :: skipped, rfl, by simpa [hj] using hskipped⟩
          · exact .inr (by simpa [hj] using hnone)

theorem NextString.unique (h : NextString params s rest) (h' : NextString params s' rest') :
    s = s' ∧ rest = rest' := by
  obtain ⟨skipped, rfl, hskipped⟩ := h
  obtain ⟨skipped', heq, hskipped'⟩ := h'
  induction skipped generalizing skipped' with
  | nil =>
      cases skipped' with
      | nil => simpa using heq
      | cons j skipped' =>
          have hj := hskipped' j List.mem_cons_self
          rw [List.nil_append, List.cons_append, List.cons.injEq] at heq
          rw [← heq.1] at hj
          cases hj
  | cons i skipped ih =>
      cases skipped' with
      | nil =>
          have hi := hskipped i List.mem_cons_self
          rw [List.nil_append, List.cons_append, List.cons.injEq] at heq
          rw [heq.1] at hi
          cases hi
      | cons j skipped' =>
          rw [List.cons_append, List.cons_append, List.cons.injEq] at heq
          exact ih (fun k hk => hskipped k (List.mem_cons_of_mem i hk)) skipped' heq.2
            fun k hk => hskipped' k (List.mem_cons_of_mem j hk)

end

/-! ### The parsers of the parameters -/

section

variable {x : ScalarAttrs} {params : List Json}

theorem CallParams.unique {sid sid' object object' method method' : CString} {arg arg' : Json}
    (h : CallParams params sid object method arg)
    (h' : CallParams params sid' object' method' arg') :
    sid = sid' ∧ object = object' ∧ method = method' ∧ arg = arg' := by
  obtain ⟨p₁, p₂, rest, h₁, h₂, h₃⟩ := h
  obtain ⟨p₁', p₂', rest', h₁', h₂', h₃'⟩ := h'
  obtain ⟨rfl, rfl⟩ := h₁.unique h₁'
  obtain ⟨rfl, rfl⟩ := h₂.unique h₂'
  obtain ⟨rfl, heq⟩ := h₃.unique h₃'
  exact ⟨rfl, rfl, rfl, (List.cons.inj heq).1⟩

theorem callParse_of_params {sid object method : CString} {arg : Json}
    (h : CallParams params sid object method arg) :
    ubusrpcBlobCallParse x (.array (elemsToBlob params)) =
      (arg.toBlob.forEachAttr x).map fun members =>
        if members.any fun cur => cur.1 = .ofString "_owsd_listen" then .error (-1)
        else .ok ⟨sid, object, method, members⟩ := by
  obtain ⟨p₁, p₂, rest, h₁, h₂, h₃⟩ := h
  have hslots : blobmsgParseArray [.string, .string, .string, .unspec]
      (Blob.array (elemsToBlob params)).members =
      [some ([], .string sid), some ([], .string object), some ([], .string method),
        some ([], arg.toBlob)] := by
    rw [Blob.members, parseArray_string h₁, parseArray_string h₂, parseArray_string h₃,
      parseArray_unspec, parseArray_nil]
  simp only [ubusrpcBlobCallParse, hslots]
  rfl

theorem callParse_error (h : ¬∃ sid object method arg, CallParams params sid object method arg) :
    ∃ code, ubusrpcBlobCallParse x (.array (elemsToBlob params)) = some (.error code) := by
  rcases nextString_or params with ⟨sid, p₁, h₁⟩ | hnone
  · rcases nextString_or p₁ with ⟨object, p₂, h₂⟩ | hnone
    · rcases nextString_or p₂ with ⟨method, p₃, h₃⟩ | hnone
      · cases p₃ with
        | nil =>
            refine ⟨-4, ?_⟩
            rw [ubusrpcBlobCallParse, Blob.members, parseArray_string h₁, parseArray_string h₂,
              parseArray_string h₃]
            rfl
        | cons arg rest => exact absurd ⟨sid, object, method, arg, p₁, p₂, rest, h₁, h₂, h₃⟩ h
      · refine ⟨-4, ?_⟩
        rw [ubusrpcBlobCallParse, Blob.members, parseArray_string h₁, parseArray_string h₂,
          parseArray_no_string hnone]
        rfl
    · refine ⟨-4, ?_⟩
      rw [ubusrpcBlobCallParse, Blob.members, parseArray_string h₁, parseArray_no_string hnone]
      rfl
  · refine ⟨-4, ?_⟩
    rw [ubusrpcBlobCallParse, Blob.members, parseArray_no_string hnone]
    rfl

theorem listParse_cons {sid : Json} {pattern : CString} {rest : List Json}
    (h : NextString params pattern rest) :
    ubusrpcBlobListParse (.array (elemsToBlob (sid :: params))) =
      .ok ⟨sid.toBlob.getString, pattern⟩ := by
  have hslots : blobmsgParseArray [.unspec, .string]
      (Blob.array (elemsToBlob (sid :: params))).members =
      [some ([], sid.toBlob), some ([], .string pattern)] := by
    rw [Blob.members, parseArray_unspec, parseArray_string h, parseArray_nil]
  rw [ubusrpcBlobListParse, hslots]
  rfl

theorem listParse_error
    (h : ¬∃ sid params' pattern rest, params = sid :: params' ∧ NextString params' pattern rest) :
    ubusrpcBlobListParse (.array (elemsToBlob params)) = .error (-2) := by
  cases params with
  | nil => rfl
  | cons sid params =>
      rcases nextString_or params with ⟨pattern, rest, hnext⟩ | hnone
      · exact absurd ⟨sid, params, pattern, rest, rfl, hnext⟩ h
      · rw [ubusrpcBlobListParse, Blob.members, parseArray_unspec, parseArray_no_string hnone]

theorem subParse_of_next {params' rest : List Json} {sid pattern : CString}
    (h₁ : NextString params sid params') (h₂ : NextString params' pattern rest) :
    ubusrpcBlobSubParse (.array (elemsToBlob params)) = .ok ⟨sid, pattern⟩ := by
  rw [ubusrpcBlobSubParse, Blob.members, parseArray_string h₁, parseArray_string h₂,
    parseArray_nil]
  rfl

theorem subParse_error
    (h : ¬∃ sid params' pattern rest, NextString params sid params' ∧
      NextString params' pattern rest) :
    ∃ code, ubusrpcBlobSubParse (.array (elemsToBlob params)) = .error code := by
  rcases nextString_or params with ⟨sid, params', h₁⟩ | hnone
  · rcases nextString_or params' with ⟨pattern, rest, h₂⟩ | hnone
    · exact absurd ⟨sid, params', pattern, rest, h₁, h₂⟩ h
    · refine ⟨-2, ?_⟩
      rw [ubusrpcBlobSubParse, Blob.members, parseArray_string h₁, parseArray_no_string hnone]
  · refine ⟨-1, ?_⟩
    rw [ubusrpcBlobSubParse, Blob.members, parseArray_no_string hnone, List.map_cons, List.map_nil]

theorem subListParse_of_next {rest : List Json} {sid : CString} (h : NextString params sid rest) :
    ubusrpcBlobSubListParse (.array (elemsToBlob params)) = .ok ⟨sid, []⟩ := by
  rw [ubusrpcBlobSubListParse, Blob.members, parseArray_string h, parseArray_nil]
  rfl

theorem subListParse_error (h : ¬∃ sid rest, NextString params sid rest) :
    ubusrpcBlobSubListParse (.array (elemsToBlob params)) = .error 2 := by
  rcases nextString_or params with hsome | hnone
  · exact absurd hsome h
  · rw [ubusrpcBlobSubListParse, Blob.members, parseArray_no_string hnone, List.map_nil]

end

/-! ### All methods -/

section

variable {x : ScalarAttrs} {method : CString} {params : List Json} {req : UbusrpcBlob}

theorem Documented.parse (h : Documented method params req) :
    ubusrpcBlobParse x method (.array (elemsToBlob params)) = some (.ok req) := by
  cases h with
  | @call _ sid object m args hparams hargs =>
      have hnone : (membersToBlob args).any
          (fun cur => cur.1 = .ofString "_owsd_listen") = false := by
        rw [List.any_eq_false, membersToBlob_eq]
        intro cur hcur
        obtain ⟨a, ha, rfl⟩ := List.mem_map.mp hcur
        simpa using hargs a ha
      have hmembers : (Json.object args).toBlob.forEachAttr x = some (membersToBlob args) := by
        rw [Json.toBlob]
        rfl
      rw [ubusrpcBlobParse, if_pos rfl, callParse_of_params hparams, hmembers]
      simp only [Option.map_some, hnone]
      rfl
  | list hnext =>
      rw [ubusrpcBlobParse, if_neg (by decide), if_pos rfl, listParse_cons hnext]
      rfl
  | subscribe h₁ h₂ =>
      rw [ubusrpcBlobParse, if_neg (by decide), if_neg (by decide), if_pos rfl,
        subParse_of_next h₁ h₂]
      rfl
  | unsubscribe h₁ h₂ =>
      rw [ubusrpcBlobParse, if_neg (by decide), if_neg (by decide), if_neg (by decide),
        if_neg (by decide), if_pos rfl, subParse_of_next h₁ h₂]
      rfl
  | subscribeList hnext =>
      rw [ubusrpcBlobParse, if_neg (by decide), if_neg (by decide), if_neg (by decide), if_pos rfl,
        subListParse_of_next hnext]
      rfl

def OddParams (method : CString) (params : List Json) : Prop :=
  method = .ofString "call" ∧ ∃ sid object m arg, CallParams params sid object m arg ∧
    ∀ args, arg ≠ .object args

theorem OddParams.not_documented (h : OddParams method params) : ¬Documented method params req := by
  obtain ⟨rfl, sid, object, m, arg, hparams, hodd⟩ := h
  intro hdoc
  cases hdoc with
  | call hparams' _ => exact hodd _ (hparams.unique hparams').2.2.2

/-- When there is nothing behind a scalar, a value that is no object has no
member with a name. -/
theorem forEachAttr_of_odd {arg : Json} {members : List Attr} (h : ∀ args, arg ≠ .object args)
    (hmembers : arg.toBlob.forEachAttr (fun _ => some []) = some members) :
    members.any (fun cur => cur.1 = .ofString "_owsd_listen") = false := by
  have hne : ([] : CString) ≠ CString.ofString "_owsd_listen" := by decide
  have hscalar : arg.toBlob.type ≠ .array → arg.toBlob.type ≠ .table → members = [] := by
    intro harray htable
    rcases Blob.forEachAttr_scalar (fun _ => some []) harray htable with heq | heq | heq
    · exact (Option.some.inj (heq.symm.trans hmembers)).symm
    · cases heq.symm.trans hmembers
    · exact (Option.some.inj (heq.symm.trans hmembers)).symm
  cases arg with
  | object args => exact absurd rfl (h args)
  | array elems =>
      rw [Json.toBlob, elemsToBlob_eq] at hmembers
      cases hmembers
      rw [List.any_eq_false]
      intro cur hcur
      obtain ⟨j, -, rfl⟩ := List.mem_map.mp hcur
      simpa using hne
  | int v =>
      rw [Json.toBlob] at hscalar
      split at hscalar
      · rw [hscalar (by simp [Blob.type]) (by simp [Blob.type])]
        rfl
      · rw [hscalar (by simp [Blob.type]) (by simp [Blob.type])]
        rfl
  | null | bool | double | string =>
      rw [hscalar (by simp [Json.toBlob, Blob.type]) (by simp [Json.toBlob, Blob.type])]
      rfl

/-- They are accepted all the same, or the parser is led out of the
message. -/
theorem OddParams.parse (h : OddParams method params) :
    ubusrpcBlobParse (fun _ => some []) method (.array (elemsToBlob params)) = none ∨
      ∃ call, ubusrpcBlobParse (fun _ => some []) method (.array (elemsToBlob params)) =
        some (.ok (.call call)) := by
  obtain ⟨rfl, sid, object, m, arg, hparams, hodd⟩ := h
  rw [ubusrpcBlobParse, if_pos rfl, callParse_of_params hparams]
  cases hmembers : arg.toBlob.forEachAttr fun _ => some [] with
  | none => exact .inl rfl
  | some members =>
      refine .inr ⟨⟨sid, object, m, members⟩, ?_⟩
      simp only [Option.map_some, forEachAttr_of_odd hodd hmembers]
      rfl

theorem parseParams_ok {α : Type} {parsed : Except Int α} {mk : α → UbusrpcBlob}
    (h : parseParams parsed mk = .ok req) : ∃ args, parsed = .ok args ∧ req = mk args := by
  cases parsed with
  | ok args => exact ⟨args, rfl, by simpa [parseParams] using h.symm⟩
  | error code => cases h

theorem parseParams_error {α : Type} {parsed : Except Int α} {mk : α → UbusrpcBlob}
    {e : JsonrpcErrorCode} (h : parseParams parsed mk = .error e) : e = .invalidParams := by
  cases parsed with
  | ok args => cases h
  | error code =>
      cases h
      rfl

theorem callParse_ok {args : UbusrpcBlobCall} (hodd : ¬OddParams (.ofString "call") params)
    (h : ubusrpcBlobCallParse x (.array (elemsToBlob params)) = some (.ok args)) :
    Documented (.ofString "call") params (.call args) := by
  by_cases hcall : ∃ sid object m arg, CallParams params sid object m arg
  · obtain ⟨sid, object, m, arg, hparams⟩ := hcall
    rw [callParse_of_params hparams] at h
    cases arg with
    | object members =>
        have hmembers : (Json.object members).toBlob.forEachAttr x =
            some (membersToBlob members) := by
          rw [Json.toBlob]
          rfl
        rw [hmembers, Option.map_some, Option.some.injEq] at h
        split at h
        · cases h
        · next hlisten =>
          cases h
          refine .call hparams fun a ha heq => hlisten ?_
          rw [membersToBlob_eq, List.any_map, List.any_eq_true]
          exact ⟨a, ha, by simp [heq]⟩
    | _ => exact absurd ⟨rfl, sid, object, m, _, hparams, fun _ heq => by cases heq⟩ hodd
  · obtain ⟨code, hcode⟩ := callParse_error (x := x) hcall
    rw [hcode] at h
    cases h

theorem listParse_ok {args : UbusrpcBlobList}
    (h : ubusrpcBlobListParse (.array (elemsToBlob params)) = .ok args) :
    Documented (.ofString "list") params (.list args) := by
  by_cases hlist : ∃ sid params' pattern rest,
      params = sid :: params' ∧ NextString params' pattern rest
  · obtain ⟨sid, params', pattern, rest, rfl, hnext⟩ := hlist
    rw [listParse_cons hnext] at h
    cases h
    exact .list hnext
  · rw [listParse_error hlist] at h
    cases h

theorem subParse_ok {args : UbusrpcBlobSub}
    (h : ubusrpcBlobSubParse (.array (elemsToBlob params)) = .ok args) :
    ∃ params' rest, NextString params args.sid params' ∧ NextString params' args.pattern rest := by
  by_cases hsub : ∃ sid params' pattern rest,
      NextString params sid params' ∧ NextString params' pattern rest
  · obtain ⟨sid, params', pattern, rest, h₁, h₂⟩ := hsub
    rw [subParse_of_next h₁ h₂] at h
    cases h
    exact ⟨params', rest, h₁, h₂⟩
  · obtain ⟨code, hcode⟩ := subParse_error hsub
    rw [hcode] at h
    cases h

theorem subListParse_ok {args : UbusrpcBlobSub}
    (h : ubusrpcBlobSubListParse (.array (elemsToBlob params)) = .ok args) :
    Documented (.ofString "subscribe-list") params (.subList args) := by
  by_cases hsub : ∃ sid rest, NextString params sid rest
  · obtain ⟨sid, rest, hnext⟩ := hsub
    rw [subListParse_of_next hnext] at h
    cases h
    exact .subscribeList hnext
  · rw [subListParse_error hsub] at h
    cases h

theorem ubusrpcBlobParse_cases (x : ScalarAttrs) (method : CString) (blob : Blob) :
    (method = .ofString "call" ∧ ubusrpcBlobParse x method blob =
        (ubusrpcBlobCallParse x blob).map fun parsed => parseParams parsed .call) ∨
      (method = .ofString "list" ∧
        ubusrpcBlobParse x method blob = some (parseParams (ubusrpcBlobListParse blob) .list)) ∨
      (method = .ofString "subscribe" ∧
        ubusrpcBlobParse x method blob = some (parseParams (ubusrpcBlobSubParse blob) .sub)) ∨
      (method = .ofString "subscribe-list" ∧ ubusrpcBlobParse x method blob =
        some (parseParams (ubusrpcBlobSubListParse blob) .subList)) ∨
      (method = .ofString "unsubscribe" ∧
        ubusrpcBlobParse x method blob = some (parseParams (ubusrpcBlobSubParse blob) .unsub)) ∨
      (method ∉ supportedMethods ∧
        ubusrpcBlobParse x method blob = some (.error .methodNotFound)) := by
  simp only [ubusrpcBlobParse]
  split
  · next h => exact .inl ⟨h, rfl⟩
  · split
    · next h => exact .inr (.inl ⟨h, rfl⟩)
    · split
      · next h => exact .inr (.inr (.inl ⟨h, rfl⟩))
      · split
        · next h => exact .inr (.inr (.inr (.inl ⟨h, rfl⟩)))
        · split
          · next h => exact .inr (.inr (.inr (.inr (.inl ⟨h, rfl⟩))))
          · next h₁ h₂ h₃ h₄ h₅ =>
            exact .inr (.inr (.inr (.inr (.inr
              ⟨by simp [supportedMethods, h₁, h₂, h₃, h₄, h₅], rfl⟩))))

/-- What is accepted is documented, but for the argument of a call. -/
theorem parse_sound (hodd : ¬OddParams method params)
    (h : ubusrpcBlobParse x method (.array (elemsToBlob params)) = some (.ok req)) :
    Documented method params req := by
  rcases ubusrpcBlobParse_cases x method (.array (elemsToBlob params)) with
    ⟨rfl, hp⟩ | ⟨rfl, hp⟩ | ⟨rfl, hp⟩ | ⟨rfl, hp⟩ | ⟨rfl, hp⟩ | ⟨-, hp⟩
  · obtain ⟨parsed, hparsed, hreq⟩ := Option.map_eq_some_iff.mp (hp ▸ h)
    obtain ⟨args, rfl, rfl⟩ := parseParams_ok hreq
    exact callParse_ok hodd hparsed
  · obtain ⟨args, hargs, rfl⟩ := parseParams_ok (Option.some.inj (hp ▸ h))
    exact listParse_ok hargs
  · obtain ⟨args, hargs, rfl⟩ := parseParams_ok (Option.some.inj (hp ▸ h))
    obtain ⟨params', rest, h₁, h₂⟩ := subParse_ok hargs
    exact .subscribe h₁ h₂
  · obtain ⟨args, hargs, rfl⟩ := parseParams_ok (Option.some.inj (hp ▸ h))
    exact subListParse_ok hargs
  · obtain ⟨args, hargs, rfl⟩ := parseParams_ok (Option.some.inj (hp ▸ h))
    obtain ⟨params', rest, h₁, h₂⟩ := subParse_ok hargs
    exact .unsubscribe h₁ h₂
  · rw [hp] at h
    cases h

theorem parse_error {blob : Blob} {e : JsonrpcErrorCode}
    (h : ubusrpcBlobParse x method blob = some (.error e)) :
    (e = .invalidParams ∧ method ∈ supportedMethods) ∨
      (e = .methodNotFound ∧ method ∉ supportedMethods) := by
  rcases ubusrpcBlobParse_cases x method blob with
    ⟨rfl, hp⟩ | ⟨rfl, hp⟩ | ⟨rfl, hp⟩ | ⟨rfl, hp⟩ | ⟨rfl, hp⟩ | ⟨hm, hp⟩
  · obtain ⟨parsed, -, he⟩ := Option.map_eq_some_iff.mp (hp ▸ h)
    exact .inl ⟨parseParams_error he, by decide⟩
  · exact .inl ⟨parseParams_error (Option.some.inj (hp ▸ h)), by decide⟩
  · exact .inl ⟨parseParams_error (Option.some.inj (hp ▸ h)), by decide⟩
  · exact .inl ⟨parseParams_error (Option.some.inj (hp ▸ h)), by decide⟩
  · exact .inl ⟨parseParams_error (Option.some.inj (hp ▸ h)), by decide⟩
  · rw [hp] at h
    cases h
    exact .inr ⟨rfl, hm⟩

/-- Unless the argument of a call is odd, the parsers come to an end. -/
theorem parse_ends (x : ScalarAttrs) (hodd : ¬OddParams method params) :
    ∃ outcome, ubusrpcBlobParse x method (.array (elemsToBlob params)) = some outcome := by
  rcases ubusrpcBlobParse_cases x method (.array (elemsToBlob params)) with
    ⟨rfl, hp⟩ | ⟨-, hp⟩ | ⟨-, hp⟩ | ⟨-, hp⟩ | ⟨-, hp⟩ | ⟨-, hp⟩
  · by_cases hcall : ∃ sid object m arg, CallParams params sid object m arg
    · obtain ⟨sid, object, m, arg, hparams⟩ := hcall
      cases arg with
      | object members =>
          rw [hp, callParse_of_params hparams, Json.toBlob]
          exact ⟨_, rfl⟩
      | _ => exact absurd ⟨rfl, sid, object, m, _, hparams, fun _ heq => by cases heq⟩ hodd
    · obtain ⟨code, hcode⟩ := callParse_error (x := x) hcall
      rw [hp, hcode]
      exact ⟨_, rfl⟩
  · exact ⟨_, hp⟩
  · exact ⟨_, hp⟩
  · exact ⟨_, hp⟩
  · exact ⟨_, hp⟩
  · exact ⟨_, hp⟩

end

/-! ### The envelope -/

section

variable {o : JsonObject} {method : CString} {params : List Json}

/-- The member of a name, if it is as wanted. Objects have no second member
of that name. -/
theorem find_member {members : List (CString × Json)} (h : (members.map Prod.fst).Nodup)
    (key : CString) (p : Blob → Bool) :
    (membersToBlob members).find? (fun a => a.1 = key && p a.2) =
      (members.lookup key).bind fun j => if p j.toBlob then some (key, j.toBlob) else none := by
  induction members with
  | nil => rfl
  | cons m members ih =>
      obtain ⟨name, j⟩ := m
      rw [List.map_cons, List.nodup_cons] at h
      rw [membersToBlob, List.lookup_cons]
      by_cases hname : name = key
      · subst hname
        cases hp : p j.toBlob with
        | true => simp [hp]
        | false =>
            -- the name does not come again
            have hlookup : members.lookup name = none := by
              rw [List.lookup_eq_none_iff]
              intro m hm
              have hne : name ≠ m.1 := fun heq => h.1 (List.mem_map.mpr ⟨m, hm, heq.symm⟩)
              simpa using hne
            rw [List.find?_cons_of_neg (by simp [hp]), ih h.2, hlookup]
            simp [hp]
      · have hne : (key == name) = false := by simpa using Ne.symm hname
        rw [List.find?_cons_of_neg (by simp [hname]), ih h.2, hne]

theorem JsonObject.blobmsgParse (o : JsonObject) (policy : List (CString × BlobmsgType)) :
    Owsd.blobmsgParse policy o.blob = policy.map fun p =>
      (o.get p.1).bind fun j => if p.2.fits j.toBlob then some (p.1, j.toBlob) else none :=
  List.map_congr_left fun p _ => find_member o.nodup p.1 fun b => p.2.fits b

theorem eq_string_of_fits {j : Json} (h : BlobmsgType.string.fits j.toBlob = true) :
    ∃ s, j = .string s := by
  rw [fits_string] at h
  cases j with
  | string s => exact ⟨s, rfl⟩
  | _ => cases h

theorem eq_array_of_fits {j : Json} (h : BlobmsgType.array.fits j.toBlob = true) :
    ∃ elems, j = .array elems := by
  cases j with
  | array elems => exact ⟨elems, rfl⟩
  | int v =>
      rw [Json.toBlob] at h
      split at h
      · cases h
      · cases h
  | _ => cases h

theorem slot_eq_some {key : CString} {t : BlobmsgType} {a : Attr}
    (h : ((o.get key).bind fun j => if t.fits j.toBlob then some (key, j.toBlob) else none) =
      some a) : ∃ j, o.get key = some j ∧ t.fits j.toBlob = true ∧ a = (key, j.toBlob) := by
  obtain ⟨j, hj, hfits⟩ := Option.bind_eq_some_iff.mp h
  split at hfits
  · next ht => exact ⟨j, hj, ht, (Option.some.inj hfits).symm⟩
  · cases hfits

theorem Envelope.parse (h : Envelope o method params) :
    ∃ req, jsonrpcBlobReqParse o.blob = .ok req ∧ req.method = method ∧
      req.params = .array (elemsToBlob params) := by
  have hstring : ∀ s : CString, BlobmsgType.string.fits (Json.string s).toBlob = true :=
    fun s => fits_string (.string s)
  have harray : BlobmsgType.array.fits (Json.array params).toBlob = true := rfl
  simp only [jsonrpcBlobReqParse, JsonObject.blobmsgParse, List.map_cons, List.map_nil, h.version,
    h.method, h.params, Option.bind_some, hstring, harray, if_true]
  exact ⟨_, rfl, rfl, rfl⟩

theorem Envelope.parseRequest (h : Envelope o method params) (x : ScalarAttrs) :
    Rpc.parseRequest x o.blob = ubusrpcBlobParse x method (.array (elemsToBlob params)) := by
  obtain ⟨req, hreq, hmethod, hparams⟩ := h.parse
  simp only [Rpc.parseRequest, hreq, hmethod, hparams]

theorem Envelope.unique {method' : CString} {params' : List Json} (h : Envelope o method params)
    (h' : Envelope o method' params') : method = method' ∧ params = params' :=
  ⟨by simpa [h.method] using h'.method, by simpa [h.params] using h'.params⟩

theorem envelope_of_parse {req : JsonrpcBlobReq} (h : jsonrpcBlobReqParse o.blob = .ok req) :
    ∃ params, Envelope o req.method params ∧ req.params = .array (elemsToBlob params) := by
  simp only [jsonrpcBlobReqParse, JsonObject.blobmsgParse, List.map_cons, List.map_nil] at h
  split at h
  · cases h
  · next v hv =>
    split at h
    · cases h
    · next m hm =>
      split at h
      · cases h
      · next ps hps =>
        split at h
        · cases h
        · next hversion =>
          cases h
          obtain ⟨jv, hgetv, hfitsv, rfl⟩ := slot_eq_some hv
          obtain ⟨jm, hgetm, hfitsm, rfl⟩ := slot_eq_some hm
          obtain ⟨jp, hgetp, hfitsp, rfl⟩ := slot_eq_some hps
          obtain ⟨version, rfl⟩ := eq_string_of_fits hfitsv
          obtain ⟨method, rfl⟩ := eq_string_of_fits hfitsm
          obtain ⟨params, rfl⟩ := eq_array_of_fits hfitsp
          obtain rfl : version = .ofString "2.0" := not_not.mp hversion
          exact ⟨params, ⟨hgetv, hgetm, hgetp⟩, rfl⟩

/-- The parsers do with a message what is documented, whatever lies behind its
values, exactly unless it is a call with an odd argument. -/
theorem parse_iff (o : JsonObject) : (∀ x, ParsesAsExpected x o) ↔ ¬OddArgument o := by
  by_cases henv : ∃ method params, Envelope o method params
  · obtain ⟨method, params, henv⟩ := henv
    have hodd : OddArgument o ↔ OddParams method params := by
      constructor
      · rintro ⟨params', sid, object, m, arg, henv', hcall, harg⟩
        obtain ⟨rfl, rfl⟩ := henv.unique henv'
        exact ⟨rfl, sid, object, m, arg, hcall, harg⟩
      · rintro ⟨rfl, sid, object, m, arg, hcall, harg⟩
        exact ⟨params, sid, object, m, arg, henv, hcall, harg⟩
    rw [hodd]
    constructor
    · intro hall hbad
      obtain ⟨outcome, hout, hexp⟩ := hall fun _ => some []
      rw [henv.parseRequest] at hout
      rcases hbad.parse with hnone | ⟨call, hok⟩
      · cases hnone.symm.trans hout
      · cases hok.symm.trans hout
        obtain ⟨method', params', henv', hdoc⟩ := hexp
        obtain ⟨rfl, rfl⟩ := henv.unique henv'
        exact hbad.not_documented hdoc
    · intro hgood x
      obtain ⟨outcome, hout⟩ := parse_ends x hgood
      refine ⟨outcome, by rw [henv.parseRequest, hout], ?_⟩
      cases outcome with
      | ok req => exact ⟨method, params, henv, parse_sound hgood hout⟩
      | error e =>
          rcases parse_error hout with ⟨rfl, hm⟩ | ⟨rfl, hm⟩
          · refine ⟨method, params, henv, hm, ?_⟩
            rintro ⟨req, hdoc⟩
            cases (hdoc.parse (x := x)).symm.trans hout
          · exact ⟨method, params, henv, hm⟩
  · have hparse : ∀ x, parseRequest x o.blob = some (.error .invalidRequest) := by
      intro x
      cases hreq : jsonrpcBlobReqParse o.blob with
      | error code => simp [parseRequest, hreq]
      | ok req =>
          obtain ⟨params, henv', -⟩ := envelope_of_parse hreq
          exact absurd ⟨req.method, params, henv'⟩ henv
    refine iff_of_true (fun x => ⟨_, hparse x, henv⟩) fun hodd => ?_
    obtain ⟨params, sid, object, m, arg, henv', -⟩ := hodd
    exact henv ⟨_, params, henv'⟩

end

end Owsd.Rpc
