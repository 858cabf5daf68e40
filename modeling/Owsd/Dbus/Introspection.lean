import Owsd.Basis.Worklist
import Owsd.Dbus.Documents

/-!
Listing the objects on D-Bus (`rpc_list_dbus.c`).

A list asks for the names on the bus, and then every service with a name of
its own for the objects below the objects path, one object after the other:
the reply to `Introspect` is an XML document with the interfaces of the
object and the names of the objects below it, which join a queue. An object
is shown when it has the interface that is called like its path; methods are
shown when they have an argument.

Here is the context of one request, with the replies of a bus that stays as
it is. Its queue is a worklist (`listRun_eq`), so the request is answered
exactly when the objects end somewhere and nothing on the way to that end
stops the program (`list_answered_iff`).
-/

namespace Owsd.Dbus

open Worklist

/-! ### Replies -/

/-- `struct wsd_list_ctx`, with the answer once it is sent. -/
structure ListCtx where
  retbuf : List Attr
  introspectables : List IntrospectionTarget
  answered : Option (List Attr)

section
variable (library : ArgumentChecks) (p : ObjectsPath)

/-- The name of an interface in terms of ubus. The objects path is not empty,
so the conversion stays within its strings. -/
def ifaceUbusName (ifaceName : CString) : Option CString :=
  (duconvNameDbusNameToUbus p.text ifaceName).getD none

def addInterface (name : CString) (retbuf : List Attr) (subnode : XmlNode) :
    Except ListFault (List Attr) :=
  match subnode.getProp (.ofString "name") with
  | none => .ok retbuf
  | some ifaceName =>
      if ifaceUbusName p ifaceName = some name then do
        let entries ← subnode.children.foldlM (addMember library) []
        return retbuf ++ [(name, .table entries)]
      else .ok retbuf

/-- The loop over the nodes below the root, for the interfaces. Without a name
for the object there are only objects below it. -/
def addInterfaces (path : CString) (retbuf : List Attr) (root : XmlNode) :
    Except ListFault (List Attr) :=
  match duconvNameDbusPathToUbus p.text path with
  | none => .ok retbuf
  | some name =>
      root.children.foldlM (fun retbuf subnode =>
        if subnode.isElement && subnode.name = .ofString "interface" then
          addInterface library p name retbuf subnode
        else .ok retbuf) retbuf

/-- The same loop, for the objects below. -/
def subnodes (root : XmlNode) : List CString :=
  root.children.filterMap fun subnode =>
    if subnode.isElement && subnode.name = .ofString "node" then
      subnode.getProp (.ofString "name")
    else none

def isIntrospection (root : XmlNode) : Bool :=
  root.isElement && root.name = .ofString "node" && !root.children.isEmpty

namespace ListCtx

/-- `introspect_list_finish`, when there is no target left. -/
def next (ctx : ListCtx) : ListCtx :=
  if ctx.introspectables.isEmpty then { ctx with answered := some ctx.retbuf } else ctx

/-- `introspect_list_next`: the message about the first target. -/
def introspectListNext (ctx : ListCtx) : Except ListFault ListCtx :=
  match ctx.introspectables with
  | [] => .ok ctx
  | cur :: _ => if library.newMethodCall cur.service cur.path then .ok ctx else .error .noMessage

/-- `wsd_introspect_cb`, for the first target. Objects below go to the end of
the queue. -/
def wsdIntrospectCb (ctx : ListCtx) (reply : Introspection) : Except ListFault ListCtx :=
  match ctx.introspectables with
  | [] => .ok ctx
  | cur :: later =>
      match reply with
      | .error => .ok { ctx with introspectables := later }.next
      | .malformed => .error .noRoot
      | .document root =>
          if isIntrospection root then
            match addInterfaces library p cur.path ctx.retbuf root with
            | .error f => .error f
            | .ok retbuf =>
                .ok { ctx with
                  retbuf := retbuf
                  introspectables := later ++ (subnodes root).map fun node =>
                    { cur with path := DbusClient.childPath cur.path node } }.next
          else .ok { ctx with introspectables := later }.next

end ListCtx

/-- `wsd_list_cb` for the names on the bus. -/
def wsdListCb (retbuf : List Attr) (names : List CString) : ListCtx :=
  { retbuf := retbuf
    introspectables := (names.filter fun name => name.head? ≠ some colon).map fun name =>
      { service := name, path := p.text }
    answered := none : ListCtx }.next

/-- A number of messages are sent and answered, each about the first target. -/
def listRun (bus : IntrospectionTarget → Introspection) : ℕ → ListCtx → Except ListFault ListCtx
  | 0, ctx => .ok ctx
  | n + 1, ctx =>
      match ctx.introspectables with
      | [] => .ok ctx
      | cur :: _ => do
          let ctx ← ctx.introspectListNext library
          let ctx ← ctx.wsdIntrospectCb library p (bus cur)
          listRun bus n ctx

end

/-! ### What is shown -/

section
variable (library : ArgumentChecks) (p : ObjectsPath) (bus : IntrospectionTarget → Introspection)

def isInterfaceOf (name : CString) (subnode : XmlNode) : Bool :=
  subnode.isElement && subnode.name = .ofString "interface" &&
    (subnode.getProp (.ofString "name")).bind (ifaceUbusName p) = some name

def shownInterfaces (name : CString) (root : XmlNode) : List Attr :=
  root.children.flatMap fun subnode =>
    if isInterfaceOf p name subnode then
      [(name, .table (subnode.children.flatMap (shownMethod library)))]
    else []

def documentOf (t : IntrospectionTarget) : Option XmlNode :=
  match bus t with
  | .document root => if isIntrospection root then some root else none
  | _ => none

def shownObject (t : IntrospectionTarget) : List Attr :=
  match documentOf bus t, duconvNameDbusPathToUbus p.text t.path with
  | some root, some name => shownInterfaces library p name root
  | _, _ => []

def shownTypes (t : IntrospectionTarget) : List CString :=
  match documentOf bus t, duconvNameDbusPathToUbus p.text t.path with
  | some root, some name =>
      (root.children.filter (isInterfaceOf p name)).flatMap fun subnode =>
        subnode.children.flatMap inTypes
  | _, _ => []

/-- The object can be asked about, and the reply be gone through to its end. -/
structure Served (t : IntrospectionTarget) : Prop where
  asked : library.newMethodCall t.service t.path = true
  wellFormed : bus t ≠ .malformed
  coded : ∀ argType ∈ shownTypes p bus t, library.takes argType = true

def objectsBelow (t : IntrospectionTarget) : List IntrospectionTarget :=
  ((documentOf bus t).map subnodes).getD [] |>.map fun node =>
    { t with path := DbusClient.childPath t.path node }

def rootObjects (names : List CString) : List IntrospectionTarget :=
  (names.filter fun name => name.head? ≠ some colon).map fun name =>
    { service := name, path := p.text }

end

section
variable {library : ArgumentChecks} {p : ObjectsPath} {bus : IntrospectionTarget → Introspection}

theorem addInterface_eq {name : CString} {subnode : XmlNode}
    (hiface : (subnode.isElement && subnode.name = .ofString "interface") = true)
    (retbuf : List Attr) :
    addInterface library p name retbuf subnode =
      if (if isInterfaceOf p name subnode then subnode.children.flatMap inTypes else []).all
          library.takes then
        .ok (retbuf ++
          if isInterfaceOf p name subnode then
            [(name, .table (subnode.children.flatMap (shownMethod library)))]
          else [])
      else .error .noTypeCode := by
  rw [addInterface, isInterfaceOf, hiface]
  cases hprop : subnode.getProp (.ofString "name") with
  | none => simp
  | some ifaceName =>
      simp only [foldlM_append (addMember_eq library), Option.bind_some, Bool.true_and,
        decide_eq_true_eq]
      split
      · cases hall : (subnode.children.flatMap inTypes).all library.takes <;>
          simp [bind, Except.bind, pure, Except.pure]
      · simp

theorem flatMap_filter {α β : Type} (f : α → List β) (keep : α → Bool) (xs : List α) :
    (xs.filter keep).flatMap f = xs.flatMap fun x => if keep x then f x else [] := by
  induction xs with
  | nil => rfl
  | cons x xs ih =>
      cases hx : keep x <;> simp [hx, ih]

theorem addInterfaces_eq {t : IntrospectionTarget} {root : XmlNode}
    (hdoc : documentOf bus t = some root) (retbuf : List Attr) :
    addInterfaces library p t.path retbuf root =
      if (shownTypes p bus t).all library.takes then
        .ok (retbuf ++ shownObject library p bus t)
      else .error .noTypeCode := by
  rw [addInterfaces, shownTypes, shownObject, hdoc]
  cases hname : duconvNameDbusPathToUbus p.text t.path with
  | none => simp
  | some name =>
      simp only [flatMap_filter, shownInterfaces]
      refine foldlM_append (fun retbuf subnode => ?_) retbuf root.children
      cases hiface : subnode.isElement && subnode.name = .ofString "interface" with
      | true => exact addInterface_eq hiface retbuf
      | false => simp [isInterfaceOf, hiface]

/-! ### The queue as a worklist -/

def ListCtx.at (retbuf : List Attr) (queue : List IntrospectionTarget) : ListCtx :=
  ListCtx.next ⟨retbuf, queue, none⟩

theorem introspectables_at (retbuf : List Attr) (queue : List IntrospectionTarget) :
    (ListCtx.at retbuf queue).introspectables = queue := by
  rw [ListCtx.at, ListCtx.next]
  split <;> rfl

theorem answered_at (retbuf : List Attr) (queue : List IntrospectionTarget) (answer : List Attr) :
    (ListCtx.at retbuf queue).answered = some answer ↔ queue = [] ∧ retbuf = answer := by
  rw [ListCtx.at, ListCtx.next]
  cases queue <;> simp

/-- What the callback does with a reply that is a document or an error. -/
theorem wsdIntrospectCb_at {t : IntrospectionTarget} (h : bus t ≠ .malformed)
    (retbuf : List Attr) (queue : List IntrospectionTarget) :
    (ListCtx.at retbuf (t :: queue)).wsdIntrospectCb library p (bus t) =
      if (shownTypes p bus t).all library.takes then
        .ok (.at (retbuf ++ shownObject library p bus t) (queue ++ objectsBelow bus t))
      else .error .noTypeCode := by
  have hat : ListCtx.at retbuf (t :: queue) = ⟨retbuf, t :: queue, none⟩ := rfl
  rw [hat]
  simp only [ListCtx.wsdIntrospectCb]
  cases hbus : bus t with
  | malformed => exact absurd hbus h
  | error => simp [shownTypes, shownObject, objectsBelow, documentOf, hbus, ListCtx.at]
  | document root =>
      cases hroot : isIntrospection root with
      | false =>
          simp [shownTypes, shownObject, objectsBelow, documentOf, hbus, hroot, ListCtx.at]
      | true =>
          have hdoc : documentOf bus t = some root := by simp [documentOf, hbus, hroot]
          have hbelow : objectsBelow bus t = (subnodes root).map fun node =>
              { t with path := DbusClient.childPath t.path node } := by
            rw [objectsBelow, hdoc]
            rfl
          simp only [if_pos hroot, addInterfaces_eq hdoc]
          rw [hbelow, ListCtx.at]
          cases (shownTypes p bus t).all library.takes <;> rfl

theorem served_at {t : IntrospectionTarget} (h : Served library p bus t) (retbuf : List Attr)
    (queue : List IntrospectionTarget) (n : ℕ) :
    listRun library p bus (n + 1) (.at retbuf (t :: queue)) =
      listRun library p bus n
        (.at (retbuf ++ shownObject library p bus t) (queue ++ objectsBelow bus t)) := by
  have hcb := @wsdIntrospectCb_at library p bus t h.wellFormed retbuf queue
  rw [if_pos (List.all_eq_true.mpr h.coded)] at hcb
  have hsent : (ListCtx.at retbuf (t :: queue)).introspectListNext library =
      .ok (.at retbuf (t :: queue)) := by
    rw [ListCtx.introspectListNext, introspectables_at]
    exact if_pos h.asked
  rw [listRun, introspectables_at]
  simp only [hsent]
  show ListCtx.wsdIntrospectCb library p _ (bus t) >>= _ = _
  rw [hcb]
  rfl

theorem unserved_at {t : IntrospectionTarget} (h : ¬Served library p bus t) (retbuf : List Attr)
    (queue : List IntrospectionTarget) (n : ℕ) :
    ∃ f, listRun library p bus (n + 1) (.at retbuf (t :: queue)) = .error f := by
  rw [listRun, introspectables_at]
  cases hasked : library.newMethodCall t.service t.path with
  | false =>
      have hsent : (ListCtx.at retbuf (t :: queue)).introspectListNext library =
          .error .noMessage := by
        rw [ListCtx.introspectListNext, introspectables_at]
        simp [hasked]
      simp only [hsent]
      exact ⟨.noMessage, rfl⟩
  | true =>
      have hsent : (ListCtx.at retbuf (t :: queue)).introspectListNext library =
          .ok (.at retbuf (t :: queue)) := by
        rw [ListCtx.introspectListNext, introspectables_at]
        exact if_pos hasked
      simp only [hsent]
      by_cases hbus : bus t = .malformed
      · rw [hbus]
        exact ⟨.noRoot, rfl⟩
      · have hcb := @wsdIntrospectCb_at library p bus t hbus retbuf queue
        rw [if_neg fun hall => h ⟨hasked, hbus, List.all_eq_true.mp hall⟩] at hcb
        refine ⟨.noTypeCode, ?_⟩
        show ListCtx.wsdIntrospectCb library p _ (bus t) >>= _ = _
        rw [hcb]
        rfl

theorem listRun_eq {n : ℕ} {queue : List IntrospectionTarget}
    (h : ∀ t ∈ visits (objectsBelow bus) n queue, Served library p bus t) (retbuf : List Attr) :
    listRun library p bus n (.at retbuf queue) =
      .ok (.at (retbuf ++ (visits (objectsBelow bus) n queue).flatMap (shownObject library p bus))
        (rounds (objectsBelow bus) n queue)) := by
  induction n generalizing queue retbuf with
  | zero => simp [listRun, visits, rounds]
  | succ n ih =>
      cases queue with
      | nil =>
          rw [listRun, introspectables_at]
          simp [visits_nil, rounds_nil]
      | cons t queue =>
          simp only [visits, rounds, oneRound, List.head?_cons, Option.toList_some,
            List.mem_append, List.mem_singleton] at h ⊢
          rw [served_at (h t (.inl rfl))]
          refine (ih (fun u hu => h u (.inr hu)) _).trans ?_
          simp

theorem listRun_unserved {n : ℕ} {queue : List IntrospectionTarget} {t : IntrospectionTarget}
    (ht : t ∈ visits (objectsBelow bus) n queue) (h : ¬Served library p bus t)
    (retbuf : List Attr) : ∃ f, listRun library p bus n (.at retbuf queue) = .error f := by
  induction n generalizing queue retbuf with
  | zero => cases ht
  | succ n ih =>
      cases queue with
      | nil =>
          rw [visits_nil] at ht
          cases ht
      | cons u queue =>
          simp only [visits, oneRound, List.head?_cons, Option.toList_some, List.mem_append,
            List.mem_singleton] at ht
          by_cases hu : Served library p bus u
          · rw [served_at hu]
            rcases ht with rfl | ht
            · exact absurd hu h
            · exact ih ht _
          · exact unserved_at hu retbuf queue n

end

section
variable {library : ArgumentChecks} {p : ObjectsPath} {bus : IntrospectionTarget → Introspection}
  {retbuf answer : List Attr} {queue : List IntrospectionTarget} {n : ℕ} {ctx : ListCtx}

theorem visits_of_listRun (h : listRun library p bus n (.at retbuf queue) = .ok ctx) :
    ∀ t ∈ visits (objectsBelow bus) n queue, Served library p bus t := by
  intro t ht
  by_contra hserved
  obtain ⟨f, hfault⟩ := listRun_unserved ht hserved retbuf
  rw [hfault] at h
  cases h

theorem emptied_of_answered (h : listRun library p bus n (.at retbuf queue) = .ok ctx)
    (hanswer : ctx.answered = some answer) :
    rounds (objectsBelow bus) n queue = [] ∧
      retbuf ++ (visits (objectsBelow bus) n queue).flatMap (shownObject library p bus) =
        answer := by
  rw [listRun_eq (visits_of_listRun h)] at h
  cases h
  exact (answered_at _ _ answer).mp hanswer

end

/-- A list over D-Bus ends where the objects end. On a bus that does not
change, the request is answered exactly when no path of objects below the
objects path goes on forever and every object on the way is served: the
library makes the message for it, the reply is a document or an error, and
the types of the arguments that are shown begin with type codes, unless the
library lets others pass. Then it is answered with what was there before and,
level by level, with each object of each service as often as it is named, as
its document describes it. -/
theorem list_answered_iff (library : ArgumentChecks) (p : ObjectsPath)
    (bus : IntrospectionTarget → Introspection) (retbuf : List Attr) (names : List CString) :
    ((∃ n ctx answer, listRun library p bus n (wsdListCb p retbuf names) = .ok ctx ∧
        ctx.answered = some answer) ↔
      (∀ t ∈ rootObjects p names, Acc (Below (objectsBelow bus)) t) ∧
        ∀ d, ∀ t ∈ level (objectsBelow bus) d (rootObjects p names), Served library p bus t) ∧
    ∀ n ctx answer, listRun library p bus n (wsdListCb p retbuf names) = .ok ctx →
      ctx.answered = some answer →
      ∃ d, level (objectsBelow bus) d (rootObjects p names) = [] ∧
        answer = retbuf ++
          (levels (objectsBelow bus) d (rootObjects p names)).flatMap
            (shownObject library p bus) := by
  have hstart : wsdListCb p retbuf names = .at retbuf (rootObjects p names) := rfl
  rw [hstart]
  refine ⟨⟨?_, ?_⟩, ?_⟩
  · rintro ⟨n, ctx, answer, hrun, hanswer⟩
    obtain ⟨hempty, -⟩ := emptied_of_answered hrun hanswer
    obtain ⟨d, hd, hvisits⟩ := visits_eq_levels hempty
    refine ⟨acc_of_emptied hempty, fun e t ht => visits_of_listRun hrun t ?_⟩
    rw [hvisits]
    -- What is at this level is above the end of the levels.
    have hlt : e < d := by
      by_contra hle
      rw [level_eq_nil_of_le (Nat.not_lt.mp hle) hd] at ht
      cases ht
    exact List.mem_flatMap.mpr ⟨e, List.mem_range.mpr hlt, ht⟩
  · rintro ⟨hacc, hreplies⟩
    obtain ⟨n, hempty⟩ := emptied_iff.mpr hacc
    obtain ⟨d, -, hvisits⟩ := visits_eq_levels hempty
    have hfine : ∀ t ∈ visits (objectsBelow bus) n (rootObjects p names),
        Served library p bus t := by
      intro t ht
      rw [hvisits] at ht
      obtain ⟨e, -, ht⟩ := List.mem_flatMap.mp ht
      exact hreplies e t ht
    have hrun : listRun library p bus n (.at retbuf (rootObjects p names)) = _ :=
      listRun_eq hfine retbuf
    rw [hempty] at hrun
    exact ⟨n, _, _, hrun, (answered_at _ _ _).mpr ⟨rfl, rfl⟩⟩
  · intro n ctx answer hrun hanswer
    obtain ⟨hempty, hretbuf⟩ := emptied_of_answered hrun hanswer
    obtain ⟨d, hd, hvisits⟩ := visits_eq_levels hempty
    rw [hvisits] at hretbuf
    exact ⟨d, hd, hretbuf.symm⟩

/-! ### Calling what is shown -/

/-- Where `handle_call_dbus` sends a call for an object: the service, the path
and the interface. -/
def callAddress (p : ObjectsPath) (object : CString) : Option (CString × CString × CString) := do
  let dbusServiceName ← duconvNameUbusToDbusName p.text object
  let dbusObjectPath ← duconvNameUbusToDbusPath p.text object
  return (dbusServiceName, dbusObjectPath, dbusServiceName)

section
variable {library : ArgumentChecks} {p : ObjectsPath} {bus : IntrospectionTarget → Introspection}
  {t : IntrospectionTarget}

end

def lampBus (t : IntrospectionTarget) : Introspection :=
  if t.path = .ofString "/wsd" then
    .document (.element (.ofString "node") [] [.other (.ofString "text"),
      .element (.ofString "node") [(.ofString "name", .ofString "lamp")] []])
  else if t.path = .ofString "/wsd/lamp" then
    .document (.element (.ofString "node") [] [
      .element (.ofString "interface") [(.ofString "name", .ofString "wsd.lamp")] [
        .element (.ofString "method") [(.ofString "name", .ofString "on")] [
          .element (.ofString "arg") [(.ofString "type", .ofString "i"),
            (.ofString "name", .ofString "level")] []]]])
  else .error

end Owsd.Dbus
