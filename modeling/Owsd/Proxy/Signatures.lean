import Owsd.Proxy.Remote
import Owsd.Server.Answers

/-!
Signatures on their way to another host.

The server lists an object with the names of the types of its arguments
(`ubus_lookup_cb`), and the proxy on the other side builds a stub from that
(`wsu_local_stub_create`). The types an object publishes are numbers, and the
table of their names ends with `BLOBMSG_TYPE_BOOL`: beyond it the assertion
of `blobmsg_type_to_str` fails, on a double already. A signature without such
an argument arrives as it is (`survives_iff`).
-/

namespace Owsd.Proxy

open Server

/-! ### What a stub should have -/

/-- The text that stands for the type of an argument, where there is one. -/
def typeName (t : ℕ) : CString :=
  match blobmsgTypeToStr t with
  | .ok typestr => typestr.getD (.ofString "unknown")
  | .error _ => []

/-- The policy of an argument. Only `INT32` attributes describe one. -/
def argPolicy (arg : Attr) : Option Policy :=
  match arg.2 with
  | .int32 v => some ⟨arg.1, blobmsgTypeFromStr (some (typeName v.toNat))⟩
  | _ => none

/-- The methods of an object and their arguments, as its owner published
them. -/
def published (obj : UbusObjectData) : List (CString × List Policy) :=
  (obj.signature.getD []).map fun m => (m.1, m.2.members.filterMap argPolicy)

/-- The object is listed, and its stub on the other host has the same
methods with the same arguments. -/
def Survives (cfg : Config) (sid : CString) (obj : UbusObjectData) : Prop :=
  ∃ blob s, ubusLookupCb cfg sid obj = .ok (some (obj.path, blob)) ∧
    signatureOf blob.toJson = some s ∧
      ∀ addr, (LocalStub.create addr obj.path s).signature = published obj

/-! ### The entry of an object -/

def argEntry (arg : Attr) : Option Attr :=
  match arg.2 with
  | .int32 v => some (arg.1, .string (typeName v.toNat))
  | _ => none

def methodEntry (m : Attr) : Attr := (m.1, .table (m.2.members.filterMap argEntry))

theorem lookupArg_of_ok {arg : Attr} (h : ∃ r, lookupArg arg = .ok r) :
    lookupArg arg = .ok (argEntry arg) := by
  obtain ⟨r, hr⟩ := h
  obtain ⟨name, value⟩ := arg
  cases value with
  | int32 v =>
      simp only [lookupArg, argEntry, typeName] at hr ⊢
      cases hstr : blobmsgTypeToStr v.toNat with
      | error f => simp [hstr] at hr
      | ok typestr => simp
  | _ => rfl

theorem mapM_eq_ok {α β : Type} {g : α → Except Fault β} {f : α → β} {l : List α}
    (h : ∀ x ∈ l, g x = .ok (f x)) : l.mapM g = .ok (l.map f) := by
  induction l with
  | nil => rfl
  | cons x l ih =>
      rw [List.mapM_cons, h x List.mem_cons_self,
        ih fun y hy => h y (List.mem_cons_of_mem x hy)]
      rfl

theorem ubusLookupCb_of_shown {cfg : Config} {sid : CString} {obj : UbusObjectData}
    (hshown : Shown cfg sid obj) (hodd : ¬HasOddArgument obj) :
    ubusLookupCb cfg sid obj =
      .ok (some (obj.path, .table ((obj.signature.getD []).map methodEntry))) := by
  have harg : ∀ m ∈ obj.signature.getD [], m.2.members.mapM lookupArg =
      .ok (m.2.members.map argEntry) := by
    intro m hm
    refine mapM_eq_ok fun arg harg => lookupArg_of_ok (lookupArg_ok_iff.mpr ?_)
    exact fun hv => hodd ⟨m, hm, arg, harg, hv⟩
  have hmethods : (obj.signature.getD []).mapM (fun m => (do
      if Acl.ubusxAclAllowMethod cfg.uxaclObjects obj.path m.1 then
        let args ← m.2.members.mapM lookupArg
        pure (some (m.1, Blob.table (args.filterMap id)))
      else pure none : Except Fault (Option Attr))) =
      .ok ((obj.signature.getD []).map fun m => some (methodEntry m)) := by
    refine mapM_eq_ok fun m hm => ?_
    simp only [Acl.ubusxAclAllowMethod, if_true]
    rw [harg m hm]
    simp [methodEntry, bind, Except.bind, pure, Except.pure, List.filterMap_map]
  rw [ubusLookupCb, if_neg hshown, hmethods]
  simp [bind, Except.bind, pure, Except.pure, List.filterMap_map]

/-! ### The stub built from it -/

def argText (arg : Attr) : Option (CString × Option CString) :=
  match arg.2 with
  | .int32 v => some (arg.1, some (typeName v.toNat))
  | _ => none

theorem argEntry_names (args : List Attr) :
    ((args.filterMap argEntry).map Prod.fst).Sublist (args.map Prod.fst) := by
  induction args with
  | nil => exact .slnil
  | cons arg args ih =>
      obtain ⟨name, value⟩ := arg
      cases value with
      | int32 v => exact ih.cons_cons name
      | _ => exact ih.cons name

theorem argEntry_text (args : List Attr) :
    ((args.filterMap argEntry).map fun a => (a.1, typeText a.2.toJson)) =
      args.filterMap argText := by
  rw [List.map_filterMap]
  refine List.filterMap_congr fun arg _ => ?_
  obtain ⟨name, value⟩ := arg
  cases value with
  | int32 v => simp [argEntry, argText, Blob.toJson, typeText]
  | _ => rfl

theorem argText_policy (args : List Attr) :
    copyArgs (args.filterMap argText) = args.filterMap argPolicy := by
  rw [copyArgs, List.map_filterMap]
  refine List.filterMap_congr fun arg _ => ?_
  obtain ⟨name, value⟩ := arg
  cases value with
  | int32 v => rfl
  | _ => rfl

/-- The other host takes the entry of an object for its signature. -/
theorem signatureOf_methodEntry {methods : List Attr} (hmethods : (methods.map Prod.fst).Nodup)
    (hargs : ∀ m ∈ methods, (m.2.members.map Prod.fst).Nodup) :
    signatureOf (Blob.table (methods.map methodEntry)).toJson =
      some (methods.map fun m => (m.1, m.2.members.filterMap argText)) := by
  have hnames : ((methods.map methodEntry).map Prod.fst).Nodup := by
    simpa [List.map_map, Function.comp_def, methodEntry] using hmethods
  rw [Blob.toJson_table hnames, signatureOf, List.map_map]
  clear hnames hmethods
  induction methods with
  | nil => rfl
  | cons m methods ih =>
      have hm : ((m.2.members.filterMap argEntry).map Prod.fst).Nodup :=
        (argEntry_names _).nodup (hargs m List.mem_cons_self)
      have hrest := ih fun m' hm' => hargs m' (List.mem_cons_of_mem m hm')
      simp only [List.map_cons, List.mapM_cons, Function.comp_apply, methodEntry,
        Blob.toJson_table hm, List.map_map]
      rw [hrest]
      simp [Function.comp_def, ← argEntry_text]

/-- Signatures survive the trip to another host as long as their types are
among those of the table. -/
theorem survives_iff {cfg : Config} {sid : CString} {obj : UbusObjectData}
    (hshown : Shown cfg sid obj) (hmethods : ((obj.signature.getD []).map Prod.fst).Nodup)
    (hargs : ∀ m ∈ obj.signature.getD [], (m.2.members.map Prod.fst).Nodup) :
    Survives cfg sid obj ↔
      ∀ m ∈ obj.signature.getD [], ∀ arg ∈ m.2.members, ∀ v, arg.2 = .int32 v → v.toNat ≤ 7 := by
  have hodd : ¬HasOddArgument obj ↔
      ∀ m ∈ obj.signature.getD [], ∀ arg ∈ m.2.members, ∀ v, arg.2 = .int32 v → v.toNat ≤ 7 := by
    simp only [HasOddArgument, not_exists, not_and, Nat.not_lt]
  rw [← hodd]
  constructor
  · rintro ⟨blob, s, hlookup, -⟩ hhas
    exact ubusLookupCb_ok_iff.mp ⟨_, hlookup⟩ ⟨hshown, hhas⟩
  · intro hno
    refine ⟨_, _, ubusLookupCb_of_shown hshown hno, signatureOf_methodEntry hmethods hargs,
      fun addr => ?_⟩
    rw [signature_create, meaning, published, List.map_map]
    refine List.map_congr_left fun m _ => ?_
    rw [Function.comp_apply, argText_policy]

/-- An object with a method of two arguments, and an attribute that is
none. -/
def lamp : UbusObjectData :=
  ⟨.ofString "lamp",
    some [(.ofString "set", .table [(.ofString "on", .int32 7), (.ofString "note", .string []),
      (.ofString "level", .int32 4)])]⟩

theorem survives_iff_lamp :
    published lamp =
        [(.ofString "set", [⟨.ofString "on", some .int8⟩, ⟨.ofString "level", some .unspec⟩])] ∧
      Survives plainConfig [] lamp := by
  have hshown : Shown plainConfig [] lamp := fun h => absurd h.1 (by decide)
  refine ⟨rfl, (survives_iff hshown (by decide) ?_).mpr ?_⟩
  · intro m hm
    obtain rfl : m = _ := List.mem_singleton.mp hm
    decide
  · intro m hm arg harg v hv
    obtain rfl : m = _ := List.mem_singleton.mp hm
    rcases List.mem_cons.mp harg with rfl | harg
    · cases hv
      decide
    · rcases List.mem_cons.mp harg with rfl | harg
      · cases hv
      · obtain rfl : arg = _ := List.mem_singleton.mp harg
        cases hv
        decide

/-- A double is beyond the table. -/
theorem thermometer_lost :
    Shown plainConfig [] thermometer ∧
      ((thermometer.signature.getD []).map Prod.fst).Nodup ∧
      (∀ m ∈ thermometer.signature.getD [], (m.2.members.map Prod.fst).Nodup) ∧
      ubusLookupCb plainConfig [] thermometer = .error .typeOutOfRange ∧
      ¬Survives plainConfig [] thermometer := by
  refine ⟨fun h => absurd h.1 (by decide), by decide, fun m hm => ?_, rfl, ?_⟩
  · obtain rfl : m = _ := List.mem_singleton.mp hm
    decide
  · rintro ⟨blob, s, hlookup, -⟩
    cases hlookup

end Owsd.Proxy
