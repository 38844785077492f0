import Mathlib.Algebra.Order.BigOperators.Group.List
import Opensteer.Core.Json
import Opensteer.Framework.Decimal
import Opensteer.Framework.OrderedMap

/-!
# Execution contexts and object handles

`packages/browser-core/src/execution-contexts.ts`: the contexts a page session has
reported, and the scan of a command, a result or an event for object handles that
name no object in a frame's main world.

A value parses exactly when it is the text V8 gives an id of its ranges
(`remoteObjectContextId_eq_some`), and the scan finds nothing exactly when every
handle in the value, at any depth, names a main world (`foreignObjectHandle_eq_none`).
-/

namespace Opensteer.SessionCdpRouter

/-! ## The inventory -/

structure ExecutionContextEntry where
  /-- The `context` of the `Runtime.executionContextCreated` that reported it. -/
  description : Fields
  frameId : Option Text
  id : Nat
  mainWorld : Bool
  uniqueId : Option Text

structure ExecutionContextInventory where
  entries : OrderedMap Nat ExecutionContextEntry

def maximumInt32 : Nat := 2 ^ 31 - 1

/-- The key a number is in a map whose keys are natural numbers. -/
def naturalOf (n : Rat) : Option Nat := if n.den = 1 ∧ 0 ≤ n.num then some n.num.toNat else none

def contextEntry (value : Option Json) : Option ExecutionContextEntry :=
  let description := asRecord value
  match description.get? (units "id") with
  | some (.number n) =>
    match naturalOf n with
    | some id =>
      if id < 1 ∨ maximumInt32 < id then none
      else
        let auxData := asRecord (description.get? (units "auxData"))
        let frameId :=
          match auxData.get? (units "frameId") with
          | some (.string frameId) => if 0 < frameId.length then some frameId else none
          | _ => none
        some {
          description, frameId, id
          mainWorld :=
            (match auxData.get? (units "isDefault") with | some (.bool b) => b | _ => false) &&
            (match auxData.get? (units "type") with | some (.string t) => t = units "default" | _ => false) &&
            frameId.isSome
          uniqueId :=
            match description.get? (units "uniqueId") with
            | some (.string uniqueId) => some uniqueId
            | _ => none }
    | none => none
  | _ => none

namespace ExecutionContextInventory

def empty : ExecutionContextInventory := ⟨.empty⟩

/-- Applies a Runtime context event, and gives the context it reported or removed. -/
def observe (contexts : ExecutionContextInventory) (method : Text) (parameters : Fields) :
    ExecutionContextInventory × Option ExecutionContextEntry :=
  if method = units "Runtime.executionContextCreated" then
    match contextEntry (parameters.get? (units "context")) with
    | none => (contexts, none)
    | some entry => (⟨(contexts.entries.delete entry.id).set entry.id entry⟩, some entry)
  else if method = units "Runtime.executionContextDestroyed" then
    let entry :=
      match parameters.get? (units "executionContextUniqueId"),
          parameters.get? (units "executionContextId") with
      | some (.string uniqueId), _ =>
        contexts.entries.values.find? fun (candidate : ExecutionContextEntry) =>
          candidate.uniqueId = some uniqueId
      | _, some (.number id) => (naturalOf id).bind contexts.entries.get
      | _, _ => none
    match entry with
    | none => (contexts, none)
    | some entry => (⟨contexts.entries.delete entry.id⟩, some entry)
  else if method = units "Runtime.executionContextsCleared" then (⟨.empty⟩, none)
  else (contexts, none)

def isMainWorld (contexts : ExecutionContextInventory) (contextId : Nat) : Bool :=
  (contexts.entries.get contextId).any ExecutionContextEntry.mainWorld

/-- `isMainWorld` of a value of unknown type. -/
def isMainWorldValue (contexts : ExecutionContextInventory) : Option Json → Bool
  | some (.number n) => (naturalOf n).any contexts.isMainWorld
  | _ => false

end ExecutionContextInventory

/-! ## RemoteObjectIds -/

def minimumInt64 : Int := -2 ^ 63
def maximumInt64 : Int := 2 ^ 63 - 1

def dot : UInt16 := 46
def minus : UInt16 := 45
def zero : Text := [48]

/-- `(0|-?[1-9][0-9]{0,18})`, as the number it matches. -/
def isolateIdOf (s : Text) : Option Int :=
  if s = zero then some 0
  else
    match s with
    | u :: ds =>
      if u = minus then
        if Decimal.IsPositive ds ∧ ds.length ≤ 19 then some (-Decimal.value ds) else none
      else if Decimal.IsPositive s ∧ s.length ≤ 19 then some (Decimal.value s) else none
    | [] => none

/-- `([1-9][0-9]{0,9})`, as the number it matches. -/
def positiveOf (s : Text) : Option Nat :=
  if Decimal.IsPositive s ∧ s.length ≤ 10 then some (Decimal.value s) else none

/-- The context a text names, when it has the form and the ranges of a RemoteObjectId. -/
def contextIdOf (s : Text) : Option Nat :=
  match s.span (· ≠ dot) with
  | (isolate, _ :: rest) =>
    match rest.span (· ≠ dot) with
    | (context, _ :: object) =>
      match isolateIdOf isolate, positiveOf context, positiveOf object with
      | some isolateId, some contextId, some objectId =>
        if isolateId < minimumInt64 ∨ maximumInt64 < isolateId ∨ maximumInt32 < contextId ∨
            maximumInt32 < objectId then none
        else some contextId
      | _, _, _ => none
    | _ => none
  | _ => none

/-- The context a RemoteObjectId names, or none when the value is not one. -/
def remoteObjectContextId : Json → Option Nat
  | .string s => contextIdOf s
  | _ => none

/-- How V8 spells an isolate id. -/
def isolateText (isolateId : Int) : Text :=
  if isolateId = 0 then zero
  else if isolateId < 0 then minus :: Decimal.spell isolateId.natAbs
  else Decimal.spell isolateId.natAbs

/-- The text V8 gives a RemoteObjectId: `<isolateId>.<executionContextId>.<objectId>`. -/
def remoteObjectIdText (isolateId : Int) (contextId objectId : Nat) : Text :=
  isolateText isolateId ++ dot :: (Decimal.spell contextId ++ dot :: Decimal.spell objectId)

/-- The value is the text of a RemoteObjectId that names the context. -/
def IsRemoteObjectId (value : Json) (contextId : Nat) : Prop :=
  ∃ isolateId objectId, minimumInt64 ≤ isolateId ∧ isolateId ≤ maximumInt64 ∧
    1 ≤ contextId ∧ contextId ≤ maximumInt32 ∧ 1 ≤ objectId ∧ objectId ≤ maximumInt32 ∧
    value = .string (remoteObjectIdText isolateId contextId objectId)

theorem ne_dot_of_isDigit {u : UInt16} (h : Decimal.isDigit u) : u ≠ dot := by
  rintro rfl
  simp [Decimal.isDigit, dot] at h

theorem ne_dot_of_isPositive {s : Text} (h : Decimal.IsPositive s) : ∀ u ∈ s, u ≠ dot := by
  cases s with
  | nil => exact absurd h id
  | cons u ds =>
    exact List.forall_mem_cons.mpr ⟨ne_dot_of_isDigit h.1, fun d hd => ne_dot_of_isDigit (h.2.2 d hd)⟩

theorem ne_minus_of_isPositive {u : UInt16} {ds : Text} (h : Decimal.IsPositive (u :: ds)) :
    u ≠ minus := by
  rintro rfl
  exact absurd h.1 (by decide)

/-- A text cut at its first dot. -/
theorem span_dot {s rest : Text} (h : ∀ u ∈ s, u ≠ dot) :
    (s ++ dot :: rest).span (· ≠ dot) = (s, dot :: rest) := by
  rw [List.span_eq_takeWhile_dropWhile, List.takeWhile_append_of_pos (by simpa using h),
    List.dropWhile_append_of_pos (by simpa using h)]
  simp

theorem eq_of_span_dot {s head rest : Text} {u : UInt16} (h : s.span (· ≠ dot) = (head, u :: rest)) :
    s = head ++ dot :: rest := by
  rw [List.span_eq_takeWhile_dropWhile, Prod.mk.injEq] at h
  have hu : u = dot := by
    have := List.head?_dropWhile_not (fun x => decide (x ≠ dot)) s
    rw [h.2] at this
    simpa using this
  rw [← hu, ← h.1, ← h.2, List.takeWhile_append_dropWhile]

theorem positiveOf_eq_some {s : Text} {n : Nat} (hn : n ≤ maximumInt32) :
    positiveOf s = some n ↔ 1 ≤ n ∧ s = Decimal.spell n := by
  unfold positiveOf
  constructor
  · intro h
    split at h
    · rename_i hs
      obtain ⟨hspell, hpos⟩ := Decimal.spell_value hs.1
      obtain rfl := Option.some.inj h
      exact ⟨hpos, hspell.symm⟩
    · cases h
  · rintro ⟨hpos, rfl⟩
    have hlen : (Decimal.spell n).length ≤ 10 := by
      rw [Decimal.length_spell_le]
      unfold maximumInt32 at hn
      omega
    rw [if_pos ⟨Decimal.isPositive_spell hpos, hlen⟩, Decimal.value_spell]

theorem isolateIdOf_eq_some {s : Text} {i : Int} (hmin : minimumInt64 ≤ i) (hmax : i ≤ maximumInt64) :
    isolateIdOf s = some i ↔ s = isolateText i := by
  have hbound : i.natAbs < 10 ^ 19 := by
    unfold minimumInt64 at hmin
    unfold maximumInt64 at hmax
    omega
  unfold isolateIdOf
  constructor
  · intro h
    by_cases hzero : s = zero
    · rw [if_pos hzero] at h
      rw [← Option.some.inj h, hzero]
      rfl
    rw [if_neg hzero] at h
    cases s with
    | nil => cases h
    | cons u ds =>
      dsimp only at h
      split at h
      · rename_i hu
        split at h
        · rename_i hds
          obtain ⟨hspell, hpos⟩ := Decimal.spell_value hds.1
          obtain rfl := Option.some.inj h
          rw [isolateText, if_neg (by omega), if_pos (by omega), Int.natAbs_neg, Int.natAbs_natCast,
            hspell, hu]
        · cases h
      · split at h
        · rename_i hds
          obtain ⟨hspell, hpos⟩ := Decimal.spell_value hds.1
          obtain rfl := Option.some.inj h
          rw [isolateText, if_neg (by omega), if_neg (by omega), Int.natAbs_natCast, hspell]
        · cases h
  · rintro rfl
    by_cases hi : i = 0
    · simp [isolateText, hi]
    have hpos : 0 < i.natAbs := by omega
    have hspell := Decimal.isPositive_spell hpos
    have hlen := Decimal.length_spell_le.mpr hbound
    have hvalue := Decimal.value_spell i.natAbs
    rw [isolateText, if_neg hi]
    by_cases hneg : i < 0
    · rw [if_pos hneg, if_neg (by simp [zero, minus])]
      dsimp only
      rw [if_pos rfl, if_pos ⟨hspell, hlen⟩, hvalue]
      exact congrArg some (by omega)
    · rw [if_neg hneg]
      generalize Decimal.spell i.natAbs = ds at hspell hlen hvalue
      cases ds with
      | nil => exact absurd hspell id
      | cons u ds =>
        have hnot : u :: ds ≠ zero := by
          intro h
          obtain ⟨rfl, -⟩ := List.cons.inj h
          exact hspell.2.1 rfl
        rw [if_neg hnot]
        dsimp only
        rw [if_neg (ne_minus_of_isPositive hspell), if_pos ⟨hspell, hlen⟩, hvalue]
        exact congrArg some (by omega)

theorem ne_dot_of_isolateText {i : Int} : ∀ u ∈ isolateText i, u ≠ dot := by
  unfold isolateText
  split
  · simp [zero, dot]
  · have hpos := ne_dot_of_isPositive (Decimal.isPositive_spell (n := i.natAbs) (by omega))
    split
    · exact List.forall_mem_cons.mpr ⟨by decide, hpos⟩
    · exact hpos

theorem contextIdOf_eq_some {s : Text} {contextId : Nat} (h : contextIdOf s = some contextId) :
    IsRemoteObjectId (.string s) contextId := by
  unfold contextIdOf at h
  split at h
  swap
  · cases h
  rename_i isolate u rest hspan
  split at h
  swap
  · cases h
  rename_i context v object hspan'
  split at h
  swap
  · cases h
  rename_i isolateId contextId' objectId hisolate hcontext hobject
  by_cases hrange : isolateId < minimumInt64 ∨ maximumInt64 < isolateId ∨ maximumInt32 < contextId' ∨
      maximumInt32 < objectId
  · rw [if_pos hrange] at h
    cases h
  rw [if_neg hrange] at h
  simp only [not_or, Int.not_lt, Nat.not_lt] at hrange
  obtain ⟨hmin, hmax, hc, ho⟩ := hrange
  obtain rfl := Option.some.inj h
  obtain ⟨hcpos, rfl⟩ := (positiveOf_eq_some hc).mp hcontext
  obtain ⟨hopos, rfl⟩ := (positiveOf_eq_some ho).mp hobject
  obtain rfl := (isolateIdOf_eq_some hmin hmax).mp hisolate
  refine ⟨isolateId, objectId, hmin, hmax, hcpos, hc, hopos, ho, ?_⟩
  rw [eq_of_span_dot hspan, eq_of_span_dot hspan']
  rfl

theorem contextIdOf_text {isolateId : Int} {contextId objectId : Nat}
    (hmin : minimumInt64 ≤ isolateId) (hmax : isolateId ≤ maximumInt64) (hcpos : 1 ≤ contextId)
    (hc : contextId ≤ maximumInt32) (hopos : 1 ≤ objectId) (ho : objectId ≤ maximumInt32) :
    contextIdOf (remoteObjectIdText isolateId contextId objectId) = some contextId := by
  have hcontext := (positiveOf_eq_some hc).mpr ⟨hcpos, rfl⟩
  have hobject := (positiveOf_eq_some ho).mpr ⟨hopos, rfl⟩
  have hisolate := (isolateIdOf_eq_some hmin hmax).mpr rfl
  unfold contextIdOf remoteObjectIdText
  rw [span_dot ne_dot_of_isolateText]
  dsimp only
  rw [span_dot (ne_dot_of_isPositive (Decimal.isPositive_spell hcpos))]
  dsimp only
  rw [hisolate, hcontext, hobject]
  exact if_neg (by omega)

/-- A value parses exactly when V8 would have written it. -/
theorem remoteObjectContextId_eq_some {value : Json} {contextId : Nat} :
    remoteObjectContextId value = some contextId ↔ IsRemoteObjectId value contextId := by
  constructor
  · intro h
    cases value with
    | string s => exact contextIdOf_eq_some h
    | _ => simp [remoteObjectContextId] at h
  · rintro ⟨isolateId, objectId, hmin, hmax, hcpos, hc, hopos, ho, rfl⟩
    exact contextIdOf_text hmin hmax hcpos hc hopos ho

/-! ## The scan for foreign handles -/

/-- Every parameter or field the CDP spec types as a Runtime.RemoteObjectId. -/
def objectHandleKeys : List Text :=
  [units "bodyGetterId", units "errorObjectId", units "objectId", units "promiseObjectId",
    units "prototypeObjectId"]

inductive Source
  | command | message
deriving DecidableEq

/-- `record.type` is a string, as a RemoteObject's is. -/
def isByValue (source : Source) (record : Fields) : Bool :=
  source = .message && match record.get? (units "type") with | some (.string _) => true | _ => false

/-- A field of page data: a RemoteObject's `value`, or its deep serialization. -/
def isPageData (source : Source) (byValue : Bool) (key : Text) : Bool :=
  (source = .message && key = units "deepSerializedValue") || (byValue && key = units "value")

/-- The loop over a record's fields: the first foreign handle, or what is left to read. -/
def scanFields (contexts : ExecutionContextInventory) (source : Source) (byValue : Bool) (path : Text) :
    Fields → Except Text (List (Text × Json))
  | [] => .ok []
  | (key, field) :: fields =>
    let at_ := if path = [] then key else path ++ dot :: key
    if key ∈ objectHandleKeys then
      if (remoteObjectContextId field).any contexts.isMainWorld then
        scanFields contexts source byValue path fields
      else .error at_
    else if isPageData source byValue key then scanFields contexts source byValue path fields
    else
      match scanFields contexts source byValue path fields with
      | .ok pending => .ok ((at_, field) :: pending)
      | .error foreign => .error foreign

/-- The items of an array, with their paths. -/
def scanItems (path : Text) (items : List Json) : List (Text × Json) :=
  items.mapIdx fun index item => (path ++ units s!"[{index}]", item)

/-- The loop over what is pending, which a stack holds. -/
def scanPending (contexts : ExecutionContextInventory) (source : Source) :
    Nat → List (Text × Json) → Option Text
  | _, [] => none
  | 0, _ => none
  | fuel + 1, (path, .array items) :: pending =>
    scanPending contexts source fuel ((scanItems path items).reverse ++ pending)
  | fuel + 1, (path, .object record) :: pending =>
    match scanFields contexts source (isByValue source record) path record with
    | .error foreign => some foreign
    | .ok next => scanPending contexts source fuel (next.reverse ++ pending)
  | fuel + 1, _ :: pending => scanPending contexts source fuel pending

/-- Where the first object handle is that names no object in a known main world. A
value is read whole in as many turns as there are values in it. -/
def foreignObjectHandle (value : Json) (contexts : ExecutionContextInventory) (source : Source) :
    Option Text :=
  scanPending contexts source value.nodes [([], value)]

/-- A value under a handle's key, at any depth, outside page data. -/
inductive HandleIn (source : Source) (handle : Json) : Json → Prop
  | here {record : Fields} {key : Text} : (key, handle) ∈ record → key ∈ objectHandleKeys →
      isPageData source (isByValue source record) key = false → HandleIn source handle (.object record)
  | field {record : Fields} {key : Text} {value : Json} : (key, value) ∈ record →
      isPageData source (isByValue source record) key = false → HandleIn source handle value →
      HandleIn source handle (.object record)
  | item {items : List Json} {value : Json} : value ∈ items → HandleIn source handle value →
      HandleIn source handle (.array items)

/-- The value is a RemoteObjectId of a context that is a main world. -/
def NamesMainWorld (contexts : ExecutionContextInventory) (handle : Json) : Prop :=
  ∃ contextId, IsRemoteObjectId handle contextId ∧ contexts.isMainWorld contextId = true

/-- Every handle in the value names a main world. -/
def Clean (contexts : ExecutionContextInventory) (source : Source) (value : Json) : Prop :=
  ∀ handle, HandleIn source handle value → NamesMainWorld contexts handle

variable {contexts : ExecutionContextInventory} {source : Source}

theorem any_isMainWorld {field : Json} :
    (remoteObjectContextId field).any contexts.isMainWorld = true ↔ NamesMainWorld contexts field := by
  simp only [Option.any_eq_true, remoteObjectContextId_eq_some, NamesMainWorld]

theorem isPageData_of_handle {byValue : Bool} {key : Text} (h : key ∈ objectHandleKeys) :
    isPageData source byValue key = false := by
  have hall : ∀ key ∈ objectHandleKeys,
      key ≠ units "deepSerializedValue" ∧ key ≠ units "value" := by decide
  obtain ⟨hdeep, hvalue⟩ := hall key h
  simp [isPageData, hdeep, hvalue]

theorem clean_leaf {value : Json} (hobject : ∀ record, value ≠ .object record)
    (harray : ∀ items, value ≠ .array items) : Clean contexts source value := by
  intro handle h
  cases h with
  | here => exact absurd rfl (hobject _)
  | field => exact absurd rfl (hobject _)
  | item => exact absurd rfl (harray _)

theorem clean_array {items : List Json} :
    Clean contexts source (.array items) ↔ ∀ value ∈ items, Clean contexts source value := by
  constructor
  · exact fun h value hv handle hh => h handle (.item hv hh)
  · intro h handle hh
    cases hh with
    | item hv hh => exact h _ hv handle hh

theorem clean_object {record : Fields} :
    Clean contexts source (.object record) ↔ ∀ key value, (key, value) ∈ record →
      isPageData source (isByValue source record) key = false →
      (key ∈ objectHandleKeys → NamesMainWorld contexts value) ∧ Clean contexts source value := by
  constructor
  · exact fun h key value hv hdata =>
      ⟨fun hkey => h value (.here hv hkey hdata), fun handle hh => h handle (.field hv hdata hh)⟩
  · intro h handle hh
    cases hh with
    | here hv hkey hdata => exact (h _ _ hv hdata).1 hkey
    | field hv hdata hh => exact (h _ _ hv hdata).2 handle hh

/-- A handle that names a main world is a text, and holds no other. -/
theorem NamesMainWorld.clean {value : Json} (h : NamesMainWorld contexts value) :
    Clean contexts source value := by
  obtain ⟨contextId, ⟨isolateId, objectId, -, -, -, -, -, -, rfl⟩, -⟩ := h
  exact clean_leaf (by simp) (by simp)

theorem scanFields_spec {byValue : Bool} {path : Text} (fields : Fields) :
    match scanFields contexts source byValue path fields with
    | .error _ => ∃ key value, (key, value) ∈ fields ∧ key ∈ objectHandleKeys ∧
        ¬ NamesMainWorld contexts value
    | .ok next => next.map Prod.snd = (fields.filter fun e =>
          e.1 ∉ objectHandleKeys ∧ isPageData source byValue e.1 = false).map Prod.snd ∧
        ∀ key value, (key, value) ∈ fields → key ∈ objectHandleKeys → NamesMainWorld contexts value := by
  induction fields with
  | nil => simp [scanFields]
  | cons e fields ih =>
    obtain ⟨key, field⟩ := e
    -- The field before the others is read, left to read, or page data.
    have hthere : ∀ {P : Text → Json → Prop}, (∃ key' value, (key', value) ∈ fields ∧ P key' value) →
        ∃ key' value, (key', value) ∈ (key, field) :: fields ∧ P key' value := by
      rintro P ⟨key', value, hv, hP⟩
      exact ⟨key', value, List.mem_cons_of_mem _ hv, hP⟩
    have hhandles : (key ∈ objectHandleKeys → NamesMainWorld contexts field) →
        (∀ key' value, (key', value) ∈ fields → key' ∈ objectHandleKeys →
          NamesMainWorld contexts value) → ∀ key' value, (key', value) ∈ (key, field) :: fields →
        key' ∈ objectHandleKeys → NamesMainWorld contexts value := by
      intro hfield hfields key' value hv hkey
      rcases List.mem_cons.mp hv with he | hv
      · obtain ⟨rfl, rfl⟩ := Prod.mk.inj he
        exact hfield hkey
      · exact hfields key' value hv hkey
    rw [scanFields]
    by_cases hkey : key ∈ objectHandleKeys
    · rw [if_pos hkey]
      by_cases hmain : (remoteObjectContextId field).any contexts.isMainWorld = true
      · rw [if_pos hmain]
        cases hs : scanFields contexts source byValue path fields with
        | error foreign =>
          rw [hs] at ih
          exact hthere ih
        | ok next =>
          rw [hs] at ih
          refine ⟨?_, hhandles (fun _ => any_isMainWorld.mp hmain) ih.2⟩
          rw [List.filter_cons_of_neg (by simp [hkey])]
          exact ih.1
      · rw [if_neg hmain]
        exact ⟨key, field, List.mem_cons_self, hkey, fun h => hmain (any_isMainWorld.mpr h)⟩
    · rw [if_neg hkey]
      by_cases hdata : isPageData source byValue key = true
      · rw [if_pos hdata]
        cases hs : scanFields contexts source byValue path fields with
        | error foreign =>
          rw [hs] at ih
          exact hthere ih
        | ok next =>
          rw [hs] at ih
          refine ⟨?_, hhandles (fun h => absurd h hkey) ih.2⟩
          rw [List.filter_cons_of_neg (by simp [hdata])]
          exact ih.1
      · rw [if_neg hdata]
        cases hs : scanFields contexts source byValue path fields with
        | error foreign =>
          rw [hs] at ih
          exact hthere ih
        | ok next =>
          rw [hs] at ih
          refine ⟨?_, hhandles (fun h => absurd h hkey) ih.2⟩
          rw [List.filter_cons_of_pos (by simp [hkey, hdata]), List.map_cons, List.map_cons, ih.1]

/-- How many values are pending, those they hold included. -/
def pendingNodes (pending : List (Text × Json)) : Nat := (pending.map fun p => p.2.nodes).sum

theorem nodesOfItems_eq (items : List Json) : Json.nodesOfItems items = (items.map Json.nodes).sum := by
  induction items with
  | nil => rfl
  | cons v vs ih => rw [Json.nodesOfItems, ih, List.map_cons, List.sum_cons]

theorem nodesOfFields_eq (fields : Fields) :
    Json.nodesOfFields fields = (fields.map fun e => e.2.nodes).sum := by
  induction fields with
  | nil => rfl
  | cons e fields ih => rw [Json.nodesOfFields, ih, List.map_cons, List.sum_cons]

theorem scanItems_snd (path : Text) (items : List Json) : (scanItems path items).map Prod.snd = items := by
  rw [scanItems]
  exact List.ext_getElem (by simp) fun i h h' => by simp

theorem pendingNodes_append (p q : List (Text × Json)) :
    pendingNodes (p ++ q) = pendingNodes p + pendingNodes q := by
  simp [pendingNodes]

theorem pendingNodes_reverse (p : List (Text × Json)) : pendingNodes p.reverse = pendingNodes p := by
  simp [pendingNodes, List.sum_reverse]

theorem pendingNodes_eq (p : List (Text × Json)) :
    pendingNodes p = ((p.map Prod.snd).map Json.nodes).sum := by
  simp [pendingNodes, Function.comp_def]

/-- With a turn for each value that is pending, all of them are read. -/
theorem scanPending_eq_none {fuel : Nat} {pending : List (Text × Json)}
    (hfuel : pendingNodes pending ≤ fuel) :
    scanPending contexts source fuel pending = none ↔ ∀ p ∈ pending, Clean contexts source p.2 := by
  induction fuel generalizing pending with
  | zero =>
    cases pending with
    | nil => simp [scanPending]
    | cons p pending =>
      have := p.2.nodes_pos
      simp only [pendingNodes, List.map_cons, List.sum_cons] at hfuel
      omega
  | succ fuel ih =>
    cases pending with
    | nil => simp [scanPending]
    | cons p pending =>
      obtain ⟨path, value⟩ := p
      rw [List.forall_mem_cons]
      have hleaf : (∀ record, value ≠ .object record) → (∀ items, value ≠ .array items) →
          (scanPending contexts source fuel pending = none ↔
            Clean contexts source value ∧ ∀ p ∈ pending, Clean contexts source p.2) := by
        intro hobject harray
        rw [ih ?_]
        · exact ⟨fun h => ⟨clean_leaf hobject harray, h⟩, And.right⟩
        · have := value.nodes_pos
          simp only [pendingNodes, List.map_cons, List.sum_cons] at hfuel ⊢
          omega
      have hmem : ∀ next : List (Text × Json), ∀ values, next.map Prod.snd = values →
          ((∀ p ∈ next.reverse ++ pending, Clean contexts source p.2) ↔
            (∀ v ∈ values, Clean contexts source v) ∧ ∀ p ∈ pending, Clean contexts source p.2) := by
        rintro next _ rfl
        simp only [List.mem_append, List.mem_reverse, or_imp, forall_and, List.forall_mem_map]
      cases value with
      | array items =>
        rw [scanPending, ih ?_, hmem _ items (scanItems_snd path items), clean_array]
        rw [pendingNodes_append, pendingNodes_reverse, pendingNodes_eq, scanItems_snd]
        simp only [pendingNodes, List.map_cons, List.sum_cons, Json.nodes, nodesOfItems_eq] at hfuel ⊢
        omega
      | object record =>
        have hscan := @scanFields_spec contexts source (isByValue source record) path record
        rw [scanPending]
        cases hs : scanFields contexts source (isByValue source record) path record with
        | error foreign =>
          rw [hs] at hscan
          obtain ⟨key, value, hv, hkey, hnot⟩ := hscan
          constructor
          · intro h
            cases h
          · rintro ⟨hclean, -⟩
            exact absurd ((clean_object.mp hclean key value hv (isPageData_of_handle hkey)).1 hkey) hnot
        | ok next =>
          rw [hs] at hscan
          obtain ⟨hnext, hhandles⟩ := hscan
          dsimp only
          rw [ih ?_, hmem next _ hnext, clean_object]
          · constructor
            · rintro ⟨hrest, hpending⟩
              refine ⟨fun key value hv hdata => ⟨hhandles key value hv, ?_⟩, hpending⟩
              by_cases hkey : key ∈ objectHandleKeys
              · exact (hhandles key value hv hkey).clean
              · exact hrest value (List.mem_map.mpr
                  ⟨(key, value), List.mem_filter.mpr ⟨hv, by simp [hkey, hdata]⟩, rfl⟩)
            · rintro ⟨hclean, hpending⟩
              refine ⟨fun value hv => ?_, hpending⟩
              obtain ⟨⟨key, value⟩, he, rfl⟩ := List.mem_map.mp hv
              obtain ⟨he, hkey⟩ := List.mem_filter.mp he
              exact (hclean key value he (of_decide_eq_true hkey).2).2
          · have hsum : ((next.map Prod.snd).map Json.nodes).sum ≤
                (record.map fun e => e.2.nodes).sum := by
              rw [hnext, List.map_map]
              exact List.Sublist.sum_le_sum (List.Sublist.map _ List.filter_sublist) (by simp)
            rw [pendingNodes_append, pendingNodes_reverse, pendingNodes_eq]
            simp only [pendingNodes, List.map_cons, List.sum_cons, Json.nodes, nodesOfFields_eq] at hfuel ⊢
            omega
      | null => exact hleaf (by simp) (by simp)
      | bool b => exact hleaf (by simp) (by simp)
      | number n => exact hleaf (by simp) (by simp)
      | string s => exact hleaf (by simp) (by simp)

/-- Nothing is found exactly when every handle names a main world. -/
theorem foreignObjectHandle_eq_none {value : Json} :
    foreignObjectHandle value contexts source = none ↔ Clean contexts source value := by
  rw [foreignObjectHandle, scanPending_eq_none (by simp [pendingNodes])]
  simp

end Opensteer.SessionCdpRouter
