import Owsd.Dbus.Arrays
import Owsd.Dbus.Quota
import Owsd.Server.Handlers

/-!
Introspection documents (`rpc_list_dbus.c`).

An interface lists its methods, and a method its arguments with their types
and directions. A method is shown with the arguments that go in, once it has
an argument with a type. The type of an argument is the text for its first
characters, which the library is asked about: it is meant to be asked about
type codes only, and what it does about others is left to it
(`addMember_eq`).
-/

namespace Owsd.Dbus

open Server

/-- A node of a parsed document: an element with its properties and children,
or text, a comment and the like. -/
inductive XmlNode where
  | element (name : CString) (props : List (CString × CString)) (children : List XmlNode)
  | other (name : CString)

namespace XmlNode

/-- The type of the node is `XML_ELEMENT_NODE`. -/
def isElement : XmlNode → Bool
  | element _ _ _ => true
  | other _ => false

def name : XmlNode → CString
  | element name _ _ => name
  | other name => name

/-- `xmlGetProp`. -/
def getProp : XmlNode → CString → Option CString
  | element _ props _, name => props.lookup name
  | other _, _ => none

def children : XmlNode → List XmlNode
  | element _ _ children => children
  | other _ => []

end XmlNode

/-- A reply to `Introspect`. Of one that is not well formed the parser makes
no document. -/
inductive Introspection where
  | error
  | malformed
  | document (root : XmlNode)

/-! ### Arguments and methods -/

/-- The type that a character of a signature is the code of. The terminator is
`DBUS_TYPE_INVALID`; the brackets of structures and dictionary entries are no
type codes. -/
def typeCode (c : Option CChar) : Option DBusType :=
  match c.map fun c => c.val.val with
  | none => some .invalid
  | some 121 => some .byte
  | some 98 => some .boolean
  | some 110 => some .int16
  | some 113 => some .uint16
  | some 105 => some .int32
  | some 117 => some .uint32
  | some 120 => some .int64
  | some 116 => some .uint64
  | some 100 => some .double
  | some 115 => some .string
  | some 111 => some .objectPath
  | some 103 => some .signature
  | some 104 => some .unixFd
  | some 97 => some .array
  | some 118 => some .variant
  | some 114 => some .struct
  | some 101 => some .dictEntry
  | _ => none

def typeNumber : BlobmsgType → ℕ
  | .unspec => 0
  | .array => 1
  | .table => 2
  | .string => 3
  | .int64 => 4
  | .int32 => 5
  | .int16 => 6
  | .int8 => 7
  | .double => 8

inductive ListFault where
  /-- The root of a document that is not there was read. -/
  | noRoot
  /-- A message that the library did not make was sent. -/
  | noMessage
  /-- The library was asked about a number that is no type code. -/
  | noTypeCode
  | server (f : Fault)

section
variable (library : ArgumentChecks)

/-- `dbus_type_is_basic`. -/
def ArgumentChecks.typeIsBasic : Option DBusType → Option Bool
  | some t => some t.isBasic
  | none => library.isBasicOther

/-- `duconv_type_dbus_to_ubus`, if it returns. There is no case for a number
that is no type code. -/
def duconvTypeDbusToUbus (dbusType dbusElemType : Option DBusType) : Option BlobmsgType := do
  if ← library.typeIsBasic dbusType then
    return (duconvDbusToUbusBasic none (dbusType.getD .invalid) none none).1
  else if dbusType = some .array then
    if ← library.typeIsBasic dbusElemType then return .array else return .unspec
  else return .unspec

def typestr (argType : CString) : Except ListFault CString :=
  match duconvTypeDbusToUbus library (typeCode argType.head?) (typeCode argType.tail.head?) with
  | none => .error .noTypeCode
  | some ubusType =>
      match blobmsgTypeToStr (typeNumber ubusType) with
      | .ok str => .ok (str.getD (.ofString "unknown"))
      | .error f => .error (.server f)

/-- One argument of a method. The table of the method is opened for the first
argument with a type; only what goes in is added. -/
def addArg (q : Option (List Attr)) (arg : XmlNode) : Except ListFault (Option (List Attr)) :=
  if arg.name ≠ .ofString "arg" then .ok q
  else
    match arg.getProp (.ofString "type") with
    | none => .ok q
    | some argType =>
        let attrs := q.getD []
        if arg.getProp (.ofString "direction") = some (.ofString "out") then .ok (some attrs)
        else do
          let str ← typestr library argType
          return some (attrs ++ [((arg.getProp (.ofString "name")).getD [], .string str)])

/-- A member of an interface. Signals and properties are looked at and add
nothing. -/
def addMember (entries : List Attr) (member : XmlNode) : Except ListFault (List Attr) :=
  if member.isElement && member.name = .ofString "method" then
    match member.getProp (.ofString "name") with
    | none => .ok entries
    | some mName => do
        let q ← member.children.foldlM (addArg library) none
        return entries ++ q.toList.map fun attrs => (mName, .table attrs)
  else .ok entries

end

/-! ### What is shown -/

/-- The first character is a type code, and after that of an array the second
one is. -/
def isTypeCoded (argType : CString) : Bool :=
  (typeCode argType.head?).isSome &&
    (typeCode argType.head? ≠ some .array || (typeCode argType.tail.head?).isSome)

def typedArgs (member : XmlNode) : List XmlNode :=
  member.children.filter fun arg =>
    arg.name = .ofString "arg" && (arg.getProp (.ofString "type")).isSome

/-- The type of an argument, unless it goes out. -/
def inType (arg : XmlNode) : Option CString :=
  if arg.getProp (.ofString "direction") = some (.ofString "out") then none
  else arg.getProp (.ofString "type")

def inTypes (member : XmlNode) : List CString :=
  if member.isElement && member.name = .ofString "method" &&
      (member.getProp (.ofString "name")).isSome then
    (typedArgs member).filterMap inType
  else []

section
variable (library : ArgumentChecks)

/-- The library can be asked about the type. -/
def ArgumentChecks.takes (argType : CString) : Bool :=
  library.isBasicOther.isSome || isTypeCoded argType

/-- The text for the type of an argument, when there is one. -/
def typeText (argType : CString) : CString :=
  match typestr library argType with
  | .ok str => str
  | .error _ => []

def shownArg (arg : XmlNode) : Option Attr :=
  (inType arg).map fun argType =>
    ((arg.getProp (.ofString "name")).getD [], .string (typeText library argType))

def shownMethod (member : XmlNode) : List Attr :=
  if member.isElement && member.name = .ofString "method" && !(typedArgs member).isEmpty then
    (member.getProp (.ofString "name")).toList.map fun mName =>
      (mName, .table ((typedArgs member).filterMap (shownArg library)))
  else []

end

/-! ### Going through a document -/

section
variable (library : ArgumentChecks)

/-- Of two type codes the source makes what the conversion of a value of the
type makes. -/
theorem duconvTypeDbusToUbus_some (t u : DBusType) :
    duconvTypeDbusToUbus library (some t) (some u) =
      some (duconvDbusToUbus none t u none none).1 := by
  rw [duconvDbusToUbus]
  cases ht : t.isBasic with
  | true => simp [duconvTypeDbusToUbus, ArgumentChecks.typeIsBasic, ht]
  | false =>
      by_cases harray : t = .array
      · subst harray
        cases u <;> rfl
      · simp [duconvTypeDbusToUbus, ArgumentChecks.typeIsBasic, ht, harray]

theorem duconvTypeDbusToUbus_isSome (t u : Option DBusType) :
    (duconvTypeDbusToUbus library t u).isSome =
      (library.isBasicOther.isSome || (t.isSome && (t ≠ some .array || u.isSome))) := by
  cases t with
  | none =>
      cases hother : library.isBasicOther with
      | none => simp [duconvTypeDbusToUbus, ArgumentChecks.typeIsBasic, hother]
      | some basic => cases basic <;>
          simp [duconvTypeDbusToUbus, ArgumentChecks.typeIsBasic, hother]
  | some t =>
      cases u with
      | some u => simp [duconvTypeDbusToUbus_some]
      | none =>
          cases hother : library.isBasicOther with
          | none => cases t <;>
              simp [duconvTypeDbusToUbus, ArgumentChecks.typeIsBasic, hother, DBusType.isBasic]
          | some basic => cases t <;> cases basic <;>
              simp [duconvTypeDbusToUbus, ArgumentChecks.typeIsBasic, hother, DBusType.isBasic]

theorem duconvTypeDbusToUbus_ne_double (t u : Option DBusType) :
    duconvTypeDbusToUbus library t u ≠ some .double := by
  have hbasic : ∀ t, (duconvDbusToUbusBasic none t none none).1 ≠ .double := by
    intro t
    cases t <;> simp [duconvDbusToUbusBasic]
  intro h
  obtain ⟨basic, -, h⟩ := Option.bind_eq_some_iff.mp h
  cases basic with
  | true => exact hbasic _ (Option.some.inj h)
  | false =>
      by_cases harray : t = some .array
      · simp only [Bool.false_eq_true, if_false, if_pos harray] at h
        obtain ⟨elem, -, h⟩ := Option.bind_eq_some_iff.mp h
        cases elem <;> cases h
      · simp only [Bool.false_eq_true, if_false, if_neg harray] at h
        cases h

/-- The types of arguments are in the table, so the assertion holds. -/
theorem typestr_eq (argType : CString) :
    typestr library argType =
      if library.takes argType then .ok (typeText library argType) else .error .noTypeCode := by
  have htable : ∀ t, t ≠ .double → ∃ str, blobmsgTypeToStr (typeNumber t) = .ok str := by
    intro t ht
    cases t with
    | double => exact absurd rfl ht
    | _ => exact ⟨_, rfl⟩
  have hsome := duconvTypeDbusToUbus_isSome library (typeCode argType.head?)
    (typeCode argType.tail.head?)
  rw [typeText, typestr, ArgumentChecks.takes, isTypeCoded, ← hsome]
  cases htype : duconvTypeDbusToUbus library (typeCode argType.head?)
      (typeCode argType.tail.head?) with
  | none => rfl
  | some t =>
      obtain ⟨str, hstr⟩ := htable t
        (fun h => duconvTypeDbusToUbus_ne_double library _ _ (htype.trans (congrArg some h)))
      simp [hstr]

/-- With its checks the library ends the program at a dictionary; without them
it takes the bracket for a basic type. -/
example : typestr strictLibrary (.ofString "a{sv}") = .error .noTypeCode ∧
    typestr ⟨fun _ _ => true, some true⟩ (.ofString "a{sv}") = .ok (.ofString "array") :=
  ⟨rfl, rfl⟩

/-- A loop that appends what each element gives, as long as nothing stops it. -/
theorem foldlM_append {α β γ ε : Type} {f : α → List β} {asked : α → List γ} {good : γ → Bool}
    {e : ε} {step : List β → α → Except ε (List β)}
    (h : ∀ acc x, step acc x = if (asked x).all good then .ok (acc ++ f x) else .error e)
    (acc : List β) (xs : List α) :
    xs.foldlM step acc =
      if (xs.flatMap asked).all good then .ok (acc ++ xs.flatMap f) else .error e := by
  induction xs generalizing acc with
  | nil => simp [pure, Except.pure]
  | cons x xs ih =>
      rw [List.foldlM_cons, h, List.flatMap_cons, List.all_append]
      cases hx : (asked x).all good with
      | false => simp [bind, Except.bind]
      | true =>
          show xs.foldlM step (acc ++ f x) = _
          rw [ih, List.flatMap_cons, List.append_assoc, Bool.true_and]

theorem addArg_typed {arg : XmlNode} {argType : CString} (hname : arg.name = .ofString "arg")
    (htype : arg.getProp (.ofString "type") = some argType) (q : Option (List Attr)) :
    addArg library q arg =
      if (inType arg).toList.all library.takes then
        .ok (some (q.getD [] ++ (shownArg library arg).toList))
      else .error .noTypeCode := by
  simp only [addArg, hname, htype, typestr_eq, shownArg, inType]
  by_cases hout : arg.getProp (.ofString "direction") = some (.ofString "out")
  · simp [hout]
  · cases htakes : library.takes argType <;>
      simp [hout, htakes, bind, Except.bind, pure, Except.pure]

theorem foldlM_addArg (q : Option (List Attr)) (member : XmlNode) :
    member.children.foldlM (addArg library) q =
      if ((typedArgs member).filterMap inType).all library.takes then
        .ok (if (typedArgs member).isEmpty then q
          else some (q.getD [] ++ (typedArgs member).filterMap (shownArg library)))
      else .error .noTypeCode := by
  unfold typedArgs
  induction member.children generalizing q with
  | nil => rfl
  | cons arg args ih =>
      rw [List.foldlM_cons]
      by_cases hname : arg.name = .ofString "arg"
      · cases htype : arg.getProp (.ofString "type") with
        | none =>
            have hskip : addArg library q arg = .ok q := by simp [addArg, hname, htype]
            rw [hskip]
            show args.foldlM (addArg library) q = _
            rw [ih]
            simp [htype]
        | some argType =>
            rw [addArg_typed library hname htype]
            have hmember : (arg :: args).filter (fun arg =>
                decide (arg.name = .ofString "arg") &&
                  (arg.getProp (.ofString "type")).isSome) =
                arg :: args.filter (fun arg => decide (arg.name = .ofString "arg") &&
                  (arg.getProp (.ofString "type")).isSome) := by
              simp [hname, htype]
            rw [hmember]
            cases hall : (inType arg).toList.all library.takes with
            | false =>
                cases hin : inType arg with
                | none =>
                    rw [hin] at hall
                    cases hall
                | some t =>
                    rw [hin] at hall
                    have htakes : library.takes t = false := by simpa using hall
                    simp [hin, htakes, bind, Except.bind]
            | true =>
                show args.foldlM (addArg library) _ = _
                rw [ih]
                cases hin : inType arg with
                | none =>
                    cases args.filter _ <;> simp [shownArg, hin]
                | some t =>
                    rw [hin] at hall
                    have htakes : library.takes t = true := by simpa using hall
                    cases args.filter _ <;> simp [shownArg, hin, htakes]
      · have hskip : addArg library q arg = .ok q := by simp [addArg, hname]
        rw [hskip]
        show args.foldlM (addArg library) q = _
        rw [ih]
        simp [hname]

theorem addMember_eq (entries : List Attr) (member : XmlNode) :
    addMember library entries member =
      if (inTypes member).all library.takes then .ok (entries ++ shownMethod library member)
      else .error .noTypeCode := by
  rw [addMember, shownMethod, inTypes]
  by_cases hmethod : (member.isElement && member.name = .ofString "method") = true
  · rw [if_pos hmethod]
    cases hname : member.getProp (.ofString "name") with
    | none => simp
    | some mName =>
        simp only [foldlM_addArg, hmethod, Option.isSome_some, Bool.and_self, if_true]
        cases hall : ((typedArgs member).filterMap inType).all library.takes with
        | false => simp [bind, Except.bind]
        | true =>
            cases htyped : (typedArgs member).isEmpty <;>
              simp [bind, Except.bind, pure, Except.pure]
  · rw [if_neg hmethod, Bool.eq_false_iff.mpr hmethod]
    simp

end

end Owsd.Dbus
