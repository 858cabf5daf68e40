import Owsd.Basis.Buffer

/-!
Names of ubus objects on D-Bus (`dubus_conversions_names.c`).

An object `n` of ubus is called on D-Bus by a service name and an object
path below `WSD_DBUS_OBJECTS_PATH`. The functions copy strings into
allocated memory and replace separators in place; every result is an option
whose `none` is a write outside the allocation or a read behind the
terminator of a string.
-/

namespace Owsd.Dbus

theorem slash_ne : '/'.toNat % 256 ≠ 0 := by decide

def slash : CChar := .ofChar '/' slash_ne

def dot : CChar := .ofChar '.' (by decide)

/-- A value of `WSD_DBUS_OBJECTS_PATH`: `/c1/.../ck`, with components that
are not empty and have no separator in them. -/
structure ObjectsPath where
  components : List CString
  nonempty : components ≠ []
  wellFormed : ∀ c ∈ components, c ≠ [] ∧ dot ∉ c ∧ slash ∉ c

def ObjectsPath.text (p : ObjectsPath) : CString := p.components.flatMap fun c => slash :: c

/-! ### The conversions -/

def duconvNameDbusPathToName : CString → Option CString
  | [] => none -- `dbus_path+1` is behind the terminator.
  | _ :: rest => replaceAll slash dot rest

/-- `duconv_name_ubus_to_dbus_path`. The size of the literal counts its
terminator. -/
def duconvNameUbusToDbusPath (objectsPath ubusObjname : CString) : Option CString := do
  let dbusPath := Buffer.malloc (ubusObjname.length + 1 + (objectsPath.length + 1))
  let dbusPath ← Buffer.strcpy dbusPath []
  let dbusPath ← Buffer.strcat dbusPath objectsPath
  let dbusPath ←
    if ubusObjname.head? ≠ some slash then Buffer.strcat dbusPath [slash] else some dbusPath
  let dbusPath ← Buffer.strcat dbusPath ubusObjname
  let s ← Buffer.str dbusPath
  replaceAll dot slash s

def duconvNameUbusToDbusName (objectsPath ubusObjname : CString) : Option CString := do
  let tmp ← duconvNameUbusToDbusPath objectsPath ubusObjname
  duconvNameDbusPathToName tmp

/-- What both ways back have in common: the rest of `s` behind `tmp` and a
separator, when there is such a rest. The inner `none` is `NULL`. An index
right behind the last byte reads the terminator. -/
def stripObjects (tmp s : CString) (sep : CChar) : Option CString :=
  if strstrAt tmp s = some 0 ∧ s[tmp.length]? = some sep ∧ s[tmp.length + 1]? ≠ none then
    some (s.drop (tmp.length + 1))
  else none

def duconvNameDbusNameToUbus (objectsPath dbusName : CString) : Option (Option CString) := do
  let tmp ← duconvNameDbusPathToName objectsPath
  return stripObjects tmp dbusName dot

def duconvNameDbusPathToUbus (objectsPath dbusPath : CString) : Option CString :=
  stripObjects objectsPath dbusPath slash

/-! ### What they compute -/

theorem stripObjects_append {tmp n : CString} {sep : CChar} (hn : n ≠ []) :
    stripObjects tmp (tmp ++ sep :: n) sep = some n := by
  obtain ⟨a, n, rfl⟩ := List.exists_cons_of_ne_nil hn
  rw [stripObjects, if_pos]
  · simp
  · refine ⟨strstrAt_eq_zero_iff.mpr (List.prefix_append ..), ?_, ?_⟩
    · simp
    · simp

/-- The allocation with the objects path in it. -/
theorem exists_objectsPath_written (objectsPath n : CString) :
    ∃ b₀ b₁, Buffer.strcpy (Buffer.malloc (n.length + 1 + (objectsPath.length + 1))) [] = some b₀ ∧
      Buffer.strcat b₀ objectsPath = some b₁ ∧ Buffer.str b₁ = some objectsPath ∧
      b₁.length = n.length + 1 + (objectsPath.length + 1) := by
  obtain ⟨b₀, hb₀, hstr₀, hlen₀⟩ := Buffer.strcpy_str
    (b := Buffer.malloc (n.length + 1 + (objectsPath.length + 1))) (s := [])
    (by rw [Buffer.malloc_length, List.length_nil]; omega)
  rw [Buffer.malloc_length] at hlen₀
  obtain ⟨b₁, hb₁, hstr₁, hlen₁⟩ := Buffer.strcat_str (s := objectsPath) hstr₀
    (by rw [hlen₀, List.length_nil]; omega)
  exact ⟨b₀, b₁, hb₀, hb₁, hstr₁, hlen₁.trans hlen₀⟩

/-- The three `strcat` calls fill the allocation to its last byte. -/
theorem duconvNameUbusToDbusPath_eq {objectsPath n : CString} (hs : n.head? ≠ some slash) :
    duconvNameUbusToDbusPath objectsPath n =
      some (replaced dot slash (objectsPath ++ slash :: n)) := by
  obtain ⟨b₀, b₁, hb₀, hb₁, hstr₁, hlen₁⟩ := exists_objectsPath_written objectsPath n
  obtain ⟨b₂, hb₂, hstr₂, hlen₂⟩ := Buffer.strcat_str (s := [slash]) hstr₁
    (by rw [hlen₁, List.length_singleton]; omega)
  obtain ⟨b₃, hb₃, hstr₃, -⟩ := Buffer.strcat_str (s := n) hstr₂
    (by rw [hlen₂, hlen₁, List.length_append, List.length_singleton]; omega)
  rw [List.append_assoc, List.singleton_append] at hstr₃
  simp only [duconvNameUbusToDbusPath, hb₀, hb₁, hs, hb₂, hb₃, hstr₃, replaceAll_eq,
    Option.bind_eq_bind, Option.bind_some, ne_eq, not_false_eq_true, if_true]

namespace ObjectsPath

variable (p : ObjectsPath)

theorem dot_not_mem_text : dot ∉ p.text := by
  intro hmem
  obtain ⟨c, hc, hdot⟩ := List.mem_flatMap.mp hmem
  rcases List.mem_cons.mp hdot with heq | hdot
  · exact absurd heq (by decide)
  · exact (p.wellFormed c hc).2.1 hdot

theorem exists_text_eq : ∃ rest, p.text = slash :: rest := by
  obtain ⟨c, cs, hcs⟩ := List.exists_cons_of_ne_nil p.nonempty
  exact ⟨c ++ cs.flatMap fun c => slash :: c, by rw [text, hcs, List.flatMap_cons]; rfl⟩

end ObjectsPath

variable {p : ObjectsPath} {n : CString}

theorem ubusToDbusPath_text (hs : slash ∉ n) :
    duconvNameUbusToDbusPath p.text n = some (p.text ++ slash :: replaced dot slash n) := by
  have hhead : n.head? ≠ some slash := by
    intro h
    exact hs (List.mem_of_head? h)
  rw [duconvNameUbusToDbusPath_eq hhead, replaced_append,
    replaced_of_not_mem p.dot_not_mem_text]
  rfl

/-- The service of an object: the components and the name, with dots
between them. -/
theorem ubusToDbusName_text {rest : CString} (hp : p.text = slash :: rest) (hs : slash ∉ n) :
    duconvNameUbusToDbusName p.text n = some (replaced slash dot rest ++ dot :: n) := by
  rw [duconvNameUbusToDbusName, ubusToDbusPath_text hs, hp]
  show replaceAll slash dot (rest ++ slash :: replaced dot slash n) = _
  rw [replaceAll_eq, replaced_append]
  have htail : replaced slash dot (slash :: replaced dot slash n) = dot :: n := by
    show (if slash = slash then dot else slash) :: replaced slash dot (replaced dot slash n) = _
    rw [if_pos rfl, replaced_replaced hs]
  rw [htail]

theorem dbusNameToUbus_text {rest : CString} (hp : p.text = slash :: rest) (hn : n ≠ []) :
    duconvNameDbusNameToUbus p.text (replaced slash dot rest ++ dot :: n) = some (some n) := by
  rw [duconvNameDbusNameToUbus, hp]
  show (replaceAll slash dot rest).bind _ = _
  rw [replaceAll_eq, Option.bind_some, stripObjects_append hn]
  rfl

theorem dbusPathToUbus_text (hn : n ≠ []) :
    duconvNameDbusPathToUbus p.text (p.text ++ slash :: replaced dot slash n) =
      some (replaced dot slash n) := by
  apply stripObjects_append
  intro h
  have := congrArg List.length h
  rw [replaced_length, List.length_nil] at this
  exact hn (List.eq_nil_of_length_eq_zero this)

/-! ### Inverses -/

/-- The way to D-Bus has a way back, for the service name and for the path;
no step of it leaves its allocation, and no two objects share a service. -/
theorem ubus_names_invert (p : ObjectsPath) (n : CString) (hn : n ≠ []) (hs : slash ∉ n) :
    (∃ path name,
      duconvNameUbusToDbusPath p.text n = some path ∧
      duconvNameUbusToDbusName p.text n = some name ∧
      path.length + 1 ≤ n.length + 1 + (p.text.length + 1) ∧
      duconvNameDbusNameToUbus p.text name = some (some n) ∧
      duconvNameDbusPathToName path = some name ∧
      duconvNameDbusPathToUbus p.text path = some (replaced dot slash n)) ∧
    ∀ m, m ≠ [] → slash ∉ m → m ≠ n →
      duconvNameUbusToDbusName p.text m ≠ duconvNameUbusToDbusName p.text n := by
  obtain ⟨rest, hp⟩ := p.exists_text_eq
  have hpath := ubusToDbusPath_text (p := p) hs
  have hname := ubusToDbusName_text hp hs
  constructor
  · refine ⟨_, _, hpath, hname, ?_, dbusNameToUbus_text hp hn, ?_, dbusPathToUbus_text hn⟩
    · rw [List.length_append, List.length_cons, replaced_length]
      omega
    · rw [duconvNameUbusToDbusName, hpath] at hname
      exact hname
  · intro m _ hm hne heq
    rw [ubusToDbusName_text hp hm, hname, Option.some.injEq, List.append_cancel_left_eq,
      List.cons.injEq] at heq
    exact hne heq.2

/-- `/org/wsd` with an object whose name has dots at its ends and a doubled
one. -/
theorem ubus_names_invert_dots :
    duconvNameUbusToDbusName (CString.ofString "/org/wsd") (CString.ofString ".net..dev.") =
      some (CString.ofString "org.wsd..net..dev.") ∧
    duconvNameDbusNameToUbus (CString.ofString "/org/wsd")
      (CString.ofString "org.wsd..net..dev.") =
      some (some (CString.ofString ".net..dev.")) := by
  obtain ⟨⟨path, name, -, hname, -, hback, -⟩, -⟩ := ubus_names_invert
    ⟨[CString.ofString "org", CString.ofString "wsd"], by decide, by decide⟩
    (CString.ofString ".net..dev.") (by decide) (by decide)
  have hto : duconvNameUbusToDbusName (CString.ofString "/org/wsd")
      (CString.ofString ".net..dev.") = some (CString.ofString "org.wsd..net..dev.") := by
    decide
  have heq : name = CString.ofString "org.wsd..net..dev." := by
    apply Option.some.inj
    rw [← hto, ← hname]
    rfl
  refine ⟨hto, ?_⟩
  rw [heq] at hback
  exact hback

end Owsd.Dbus
