import Owsd.Basis.Blob

/-!
Values between ubus and D-Bus (`dubus_conversions_types.c`).

A message of D-Bus is written through iterators: a container is opened
through the iterator of the level above, filled through an iterator of its
own and closed again. Reading goes over the values of a level in order.
What the libraries do beyond their documented behaviour is a parameter, the
record `Library`; the results hold whatever it is.
-/

namespace Owsd.Dbus

/-- The type codes of D-Bus, with `DBUS_TYPE_INVALID`. -/
inductive DBusType where
  | invalid | byte | boolean | int16 | uint16 | int32 | uint32 | int64 | uint64 | double
  | string | objectPath | signature | unixFd | array | variant | struct | dictEntry
  deriving DecidableEq, Repr

/-- `dbus_type_is_basic`. -/
def DBusType.isBasic : DBusType → Bool
  | invalid | array | variant | struct | dictEntry => false
  | _ => true

/-- An argument of a message. Booleans are words of 32 bits; the values no
conversion reads are kept by their type alone. -/
inductive DBusValue where
  | word64 (type : DBusType) (v : BitVec 64)
  | word32 (type : DBusType) (v : BitVec 32)
  | word16 (type : DBusType) (v : BitVec 16)
  | text (type : DBusType) (s : CString)
  | array (elemType : DBusType) (elems : List DBusValue)
  | other (type : DBusType)

namespace DBusValue

/-- `dbus_message_iter_get_arg_type`. -/
def argType : DBusValue → DBusType
  | word64 t _ | word32 t _ | word16 t _ | text t _ | other t => t
  | array _ _ => .array

/-- `dbus_message_iter_get_element_type`. -/
def elementType : DBusValue → DBusType
  | array t _ => t
  | _ => .invalid

/-- The values `dbus_message_iter_recurse` and `dbus_message_iter_next` go
over. -/
def recurse : DBusValue → List DBusValue
  | array _ elems => elems
  | _ => []

/-! `dbus_message_iter_get_basic` copies as many bits as the type of the
value has; the callers ask for a value of that type. -/

def getWord64 : DBusValue → BitVec 64
  | word64 _ v => v
  | _ => 0

def getWord32 : DBusValue → BitVec 32
  | word32 _ v => v
  | _ => 0

def getWord16 : DBusValue → BitVec 16
  | word16 _ v => v
  | _ => 0

def getText : DBusValue → CString
  | text _ s => s
  | _ => []

end DBusValue

/-! ### From D-Bus to ubus -/

/-- The attributes of the buffer after a value was added, which happens when
the buffer, the iterator and the name are all given. -/
def addGiven (b : Option (List Attr)) (msgIter : Option DBusValue) (argName : Option CString)
    (value : DBusValue → Blob) : Option (List Attr) :=
  match b, msgIter, argName with
  | some attrs, some v, some name => some (attrs ++ [(name, value v)])
  | _, _, _ => b

def duconvDbusToUbusBasic (b : Option (List Attr)) (dbusType : DBusType)
    (msgIter : Option DBusValue) (argName : Option CString) : BlobmsgType × Option (List Attr) :=
  match dbusType with
  | .uint64 | .int64 => (.int64, addGiven b msgIter argName fun v => .int64 v.getWord64)
  | .uint32 | .int32 => (.int32, addGiven b msgIter argName fun v => .int32 v.getWord32)
  | .uint16 | .int16 => (.int16, addGiven b msgIter argName fun v => .int16 v.getWord16)
  | .boolean =>
      (.int8, addGiven b msgIter argName fun v => .int8 (if v.getWord32 = 0 then 0 else 1))
  | .objectPath | .signature | .string =>
      (.string, addGiven b msgIter argName fun v => .string v.getText)
  | _ => (.unspec, b)

/-- The loop over the elements of an array, into the array opened in the
buffer. -/
def duconvElems (elemType : DBusType) (elems : List DBusValue) : List Attr :=
  elems.foldl
    (fun attrs v =>
      (duconvDbusToUbusBasic (some attrs) elemType (some v) (some [])).2.getD attrs) []

def duconvDbusToUbus (b : Option (List Attr)) (dbusType elemType : DBusType)
    (msgIter : Option DBusValue) (argName : Option CString) : BlobmsgType × Option (List Attr) :=
  if dbusType.isBasic then duconvDbusToUbusBasic b dbusType msgIter argName
  else if dbusType = .array then
    if elemType.isBasic then
      (.array, addGiven b msgIter argName fun v => .array (duconvElems elemType v.recurse))
    else (.unspec, b)
  else (.unspec, b)

def duconvMsgDbusToUbus (b : Option (List Attr)) (msgIter : DBusValue) (argName : CString) :
    BlobmsgType × Option (List Attr) :=
  duconvDbusToUbus b msgIter.argType msgIter.elementType (some msgIter) (some argName)

/-! ### From ubus to D-Bus -/

/-- A complete type of a signature, with the types inside it. -/
inductive SingleType where
  | mk (type : DBusType) (inner : List SingleType)

/-- `DBusSignatureIter`. Inside an array it stays at the element. -/
structure SignatureIter where
  types : List SingleType
  inArray : Bool

namespace SignatureIter

/-- `dbus_signature_iter_get_current_type`. -/
def currentType (s : SignatureIter) : DBusType :=
  match s.types with
  | [] => .invalid
  | .mk t _ :: _ => t

/-- `dbus_signature_iter_recurse`. -/
def recurse (s : SignatureIter) : SignatureIter :=
  match s.types with
  | [] => s
  | .mk t inner :: _ => { types := inner, inArray := t = .array }

/-- `dbus_signature_iter_next`. -/
def next (s : SignatureIter) : SignatureIter :=
  if s.inArray then s
  else match s.types with
    | _ :: t :: rest => { s with types := t :: rest }
    | _ => s

end SignatureIter

/-- `DBusMessageIter` of a message that is written: the values of its level,
and whether a container opened through it is not closed yet. -/
structure MessageIter where
  values : List DBusValue
  locked : Bool

/-- What the libraries do where their documentation leaves it open. -/
structure Library where
  /-- The attributes `blob_for_each_attr` finds in the payload of an
  attribute, or behind an array that has no elements. -/
  payload : Option Attr → List Attr
  /-- An append through the iterator above a container that is open. -/
  appendLocked : List DBusValue → DBusValue → List DBusValue

/-- `dbus_message_iter_append_basic`. -/
def MessageIter.appendBasic (L : Library) (it : MessageIter) (v : DBusValue) : MessageIter :=
  if it.locked then { it with values := L.appendLocked it.values v }
  else { it with values := it.values ++ [v] }

/-- `dbus_message_iter_open_container`: the iterator of the level above and
the one of the new container. -/
def MessageIter.openContainer (it : MessageIter) : MessageIter × MessageIter :=
  ({ it with locked := true }, { values := [], locked := false })

/-- `dbus_message_iter_close_container` on an array. -/
def MessageIter.closeContainer (it sub : MessageIter) (elemType : DBusType) : MessageIter :=
  { values := it.values ++ [.array elemType sub.values]
    locked := false }

/-- One case of `_duconv_msg_ubus_to_dbus_basic`: the type is the wanted one,
or the usual one when none is wanted, and has to be one of those the case
can write. -/
def appendAs (L : Library) (outIter : Option MessageIter) (wanted : Option SignatureIter)
    (usual : DBusType) (accepted : List DBusType) (value : DBusType → DBusValue) :
    DBusType × Option MessageIter :=
  let dbusType := (wanted.map SignatureIter.currentType).getD usual
  if dbusType ∈ accepted then
    (dbusType, outIter.map fun it => it.appendBasic L (value dbusType))
  else (.invalid, outIter)

def duconvMsgUbusToDbusBasic (L : Library) (outIter : Option MessageIter) (curArg : Attr)
    (wanted : Option SignatureIter) : DBusType × Option MessageIter :=
  match curArg.2 with
  | .int32 res => appendAs L outIter wanted .int32 [.int32, .uint32] fun t => .word32 t res
  | .int16 res => appendAs L outIter wanted .int16 [.int16, .uint16] fun t => .word16 t res
  | .int8 res =>
      appendAs L outIter wanted .boolean [.boolean] fun t => .word32 t (if res = 0 then 0 else 1)
  | .string str =>
      appendAs L outIter wanted .string [.string, .signature, .objectPath] fun t => .text t str
  | _ => (.invalid, outIter)

/-- The loop that appends: `blob_for_each_attr` over the payload of the
attribute `blobmsg_data` points to, which is the first element, and each
append through the iterator above the container. -/
def appendPayload (L : Library) (wanted : Option SignatureIter) :
    List Attr → MessageIter → MessageIter
  | [], outIter => outIter
  | it :: rest, outIter =>
      appendPayload L (wanted.map SignatureIter.next) rest
        ((duconvMsgUbusToDbusBasic L (some outIter) it wanted).2.getD outIter)

def duconvMsgUbusToDbus (L : Library) (outIter : Option MessageIter) (curArg : Attr)
    (wanted : Option SignatureIter) : DBusType × Option MessageIter :=
  match curArg.2 with
  | .array elems =>
      if (wanted.map SignatureIter.currentType).getD .array = .array then
        if elems.all fun it => (elems.head?.map fun first => first.2.type) = some it.2.type then
          let wantedElem := wanted.map SignatureIter.recurse
          let elemType :=
            match elems.head? with
            | some first => (duconvMsgUbusToDbusBasic L none first wantedElem).1
            | none => (wantedElem.map SignatureIter.currentType).getD .invalid
          if elemType = .invalid then (.invalid, outIter)
          else
            (.array, outIter.map fun out =>
              let opened := out.openContainer
              let out := appendPayload L wantedElem (L.payload elems.head?) opened.1
              out.closeContainer opened.2 elemType)
        else (.invalid, outIter)
      else (.invalid, outIter)
  | .table _ => (.invalid, outIter)
  | _ => duconvMsgUbusToDbusBasic L outIter curArg wanted

/-! ### One element -/

def arrayElemTypes : List BlobmsgType := [.int32, .int16, .int8, .string]

/-- The type `_duconv_msg_ubus_to_dbus_basic` assigns to a type of ubus when
none is wanted. -/
def assignedType : BlobmsgType → DBusType
  | .int32 => .int32
  | .int16 => .int16
  | .int8 => .boolean
  | .string => .string
  | _ => .invalid

/-- What `_duconv_msg_ubus_to_dbus_basic` appends for an element through an
iterator that has nothing yet. -/
def converted (L : Library) (elem : Attr) : List DBusValue :=
  ((duconvMsgUbusToDbusBasic L (some ⟨[], false⟩) elem none).2.map MessageIter.values).getD []

theorem appendAs_fst (L : Library) (outIter : Option MessageIter) {usual : DBusType}
    {accepted : List DBusType} (value : DBusType → DBusValue) (h : usual ∈ accepted) :
    (appendAs L outIter none usual accepted value).1 = usual := by
  rw [appendAs]
  simp only [Option.map_none, Option.getD_none]
  rw [if_pos h]

theorem duconvMsgUbusToDbusBasic_fst (L : Library) (outIter : Option MessageIter) (elem : Attr) :
    (duconvMsgUbusToDbusBasic L outIter elem none).1 = assignedType elem.2.type := by
  obtain ⟨name, v⟩ := elem
  cases v with
  | int32 res => exact appendAs_fst L outIter _ (by decide)
  | int16 res => exact appendAs_fst L outIter _ (by decide)
  | int8 res => exact appendAs_fst L outIter _ (by decide)
  | string str => exact appendAs_fst L outIter _ (by decide)
  | unspec => rfl
  | array elems => rfl
  | table members => rfl
  | int64 v => rfl
  | double bits => rfl

theorem assignedType_ne_invalid {t : BlobmsgType} (ht : t ∈ arrayElemTypes) :
    assignedType t ≠ .invalid := by
  revert t
  decide

theorem assignedType_isBasic {t : BlobmsgType} (ht : t ∈ arrayElemTypes) :
    (assignedType t).isBasic := by
  revert t
  decide

/-- A boolean other than `0` and `1` does not come back as it was. -/
def Canonical : Blob → Prop
  | .int8 v => v = 0 ∨ v = 1
  | _ => True

theorem exists_converted (L : Library) {elem : Attr} (ht : elem.2.type ∈ arrayElemTypes) :
    ∃ v, converted L elem = [v] := by
  obtain ⟨name, b⟩ := elem
  cases b with
  | int32 res => exact ⟨_, rfl⟩
  | int16 res => exact ⟨_, rfl⟩
  | int8 res => exact ⟨_, rfl⟩
  | string str => exact ⟨_, rfl⟩
  | unspec | array | table | int64 | double => simp [Blob.type, arrayElemTypes] at ht

/-- An element that was converted comes back as it was, under no name. -/
theorem converted_back (L : Library) {elem : Attr} (ht : elem.2.type ∈ arrayElemTypes)
    (hcanon : Canonical elem.2) {v : DBusValue} (hv : converted L elem = [v])
    (attrs : List Attr) :
    (duconvDbusToUbusBasic (some attrs) (assignedType elem.2.type) (some v) (some [])).2 =
      some (attrs ++ [([], elem.2)]) := by
  obtain ⟨name, b⟩ := elem
  cases b with
  | int32 res =>
      cases hv
      rfl
  | int16 res =>
      cases hv
      rfl
  | string str =>
      cases hv
      rfl
  | int8 res =>
      cases hv
      rcases hcanon with h | h
      · subst h
        rfl
      · subst h
        rfl
  | unspec | array | table | int64 | double => simp [Blob.type, arrayElemTypes] at ht

/-! ### Whole arrays -/

theorem duconvElems_foldl (L : Library) {t : BlobmsgType} (ht : t ∈ arrayElemTypes)
    {elems : List Attr} (hall : ∀ e ∈ elems, e.1 = [] ∧ e.2.type = t ∧ Canonical e.2)
    (attrs : List Attr) :
    (elems.flatMap (converted L)).foldl
      (fun attrs v =>
        (duconvDbusToUbusBasic (some attrs) (assignedType t) (some v) (some [])).2.getD attrs)
      attrs = attrs ++ elems := by
  induction elems generalizing attrs with
  | nil => simp
  | cons e rest ih =>
      obtain ⟨hname, htype, hcanon⟩ := hall e List.mem_cons_self
      subst htype
      obtain ⟨v, hv⟩ := exists_converted L ht
      have hback := converted_back L ht hcanon hv attrs
      rw [List.flatMap_cons, hv, List.foldl_append, List.foldl_cons, List.foldl_nil, hback,
        Option.getD_some, ih fun e' he' => hall e' (List.mem_cons_of_mem _ he')]
      have he : ([], e.2) = e := by
        rw [← hname]
      rw [he, List.append_assoc, List.singleton_append]

/-- An array of the converted elements would come back as the array it was
made of, booleans being `0` or `1`. -/
theorem converted_array_back (L : Library) {t : BlobmsgType} (ht : t ∈ arrayElemTypes)
    {elems : List Attr} (hall : ∀ e ∈ elems, e.1 = [] ∧ e.2.type = t ∧ Canonical e.2)
    (attrs : List Attr) (name : CString) :
    duconvMsgDbusToUbus (some attrs) (.array (assignedType t) (elems.flatMap (converted L))) name =
      (.array, some (attrs ++ [(name, .array elems)])) := by
  have hloop := duconvElems_foldl L ht hall []
  have hnot : DBusType.array.isBasic = false := rfl
  rw [duconvMsgDbusToUbus, duconvDbusToUbus]
  simp only [DBusValue.argType, DBusValue.elementType, hnot, Bool.false_eq_true, if_false, if_true,
    assignedType_isBasic ht, addGiven, DBusValue.recurse, duconvElems, hloop, List.nil_append]

/-- The array argument `arg` of elements of type `t` becomes one array on
D-Bus, of the assigned type and with the converted elements in order, and
that array becomes `arg` again. -/
def ArrayConverted (L : Library) (out : List DBusValue) (arg : Attr) (t : BlobmsgType) : Prop :=
  (duconvMsgUbusToDbus L (some ⟨out, false⟩) arg none).2 =
      some ⟨out ++ [.array (assignedType t) (arg.2.members.flatMap (converted L))], false⟩ ∧
    (duconvMsgDbusToUbus (some [])
      (.array (assignedType t) (arg.2.members.flatMap (converted L))) arg.1).2 = some [arg]

/-- What is really appended: the container is closed with nothing in it,
behind whatever the payload of the first element left on the level above. -/
theorem duconvMsgUbusToDbus_array (L : Library) (out : List DBusValue) {t : BlobmsgType}
    (ht : t ∈ arrayElemTypes) (name : CString) {elems : List Attr} (hne : elems ≠ [])
    (hall : ∀ e ∈ elems, e.2.type = t) :
    duconvMsgUbusToDbus L (some ⟨out, false⟩) (name, .array elems) none =
      (.array, some
        ⟨(appendPayload L none (L.payload elems.head?) ⟨out, true⟩).values ++
          [.array (assignedType t) []], false⟩) := by
  obtain ⟨first, rest, rfl⟩ := List.exists_cons_of_ne_nil hne
  have hfirst : first.2.type = t := hall first List.mem_cons_self
  have hsame : (first :: rest).all (fun it =>
      ((first :: rest).head?.map fun first => first.2.type) = some it.2.type) = true := by
    rw [List.all_eq_true]
    intro e he
    simp [hfirst, hall e he]
  have helem : (duconvMsgUbusToDbusBasic L none first none).1 = assignedType t := by
    rw [duconvMsgUbusToDbusBasic_fst, hfirst]
  have hwanted : ((none : Option SignatureIter).map SignatureIter.currentType).getD .array =
      DBusType.array := rfl
  rw [duconvMsgUbusToDbus]
  dsimp only
  rw [if_pos hwanted, if_pos hsame]
  simp only [Option.map_none, List.head?_cons, helem, assignedType_ne_invalid ht, if_false]
  rfl

/-- No array of at least one element is converted, of whatever type, and
whatever the libraries do. -/
theorem no_array_converted (L : Library) (out : List DBusValue) {t : BlobmsgType}
    (ht : t ∈ arrayElemTypes) (name : CString) {elems : List Attr} (hne : elems ≠ [])
    (hall : ∀ e ∈ elems, e.2.type = t) : ¬ ArrayConverted L out (name, .array elems) t := by
  rintro ⟨happended, -⟩
  rw [duconvMsgUbusToDbus_array L out ht name hne hall] at happended
  -- The last value of the message is the array: empty on the left, not on the right.
  have hlast := congrArg List.getLast? (congrArg MessageIter.values (Option.some.inj happended))
  rw [List.getLast?_concat, List.getLast?_concat] at hlast
  obtain ⟨first, rest, rfl⟩ := List.exists_cons_of_ne_nil hne
  have hfirst : first.2.type ∈ arrayElemTypes := hall first List.mem_cons_self ▸ ht
  obtain ⟨v, hv⟩ := exists_converted L hfirst
  simp [Blob.members, hv] at hlast

/-- The libraries on elements without names: behind the header of such an
element are zero bytes, at which `blob_for_each_attr` ends at once. -/
def unnamedLibrary : Library where
  payload _ := []
  appendLocked values v := values ++ [v]

theorem no_array_converted_two :
    ¬ ArrayConverted unnamedLibrary [] ([], .array [([], .int32 1), ([], .int32 2)]) .int32 :=
  no_array_converted unnamedLibrary [] (by decide) [] (by simp) (by simp [Blob.type])

/-- The array `[1, 2]` arrives as an array of no elements. -/
theorem array_arrives_empty :
    (duconvMsgUbusToDbus unnamedLibrary (some ⟨[], false⟩)
        ([], .array [([], .int32 1), ([], .int32 2)]) none).2 =
      some ⟨[.array .int32 []], false⟩ ∧
    ¬ ArrayConverted unnamedLibrary [] ([], .array [([], .int32 1), ([], .int32 2)]) .int32 := by
  refine ⟨rfl, ?_⟩
  rintro ⟨happended, -⟩
  have hvalues := congrArg MessageIter.values (Option.some.inj happended)
  have helems := congrArg (fun vs => (vs.map DBusValue.recurse).flatten.length) hvalues
  exact absurd helems (by decide)

end Owsd.Dbus
