import Opensteer.Activity.Entries
import Opensteer.Core.Text
import Opensteer.Tools.Arguments

/-!
# The rows of a turn's work

`workRows` and `groupJoinKey`: steps that belong together share a row, and a place in the browser
waits for the step that goes there. How a tool call is worded, and what the heads of the rows say,
is a parameter (`Reading`).
-/

namespace Opensteer.Activity

inductive StepKind
  | browser
  | command
  | computer
  | delegate
  | edit
  | integrationCall
  | integrationLookup
  | integrationRequest
  | list
  | plan
  | read
  | search
  | task
  | tool
  | webPage
  | webSearch
deriving DecidableEq

inductive StepGroup
  | browser
  | command
  | computer
  | edit
  | explore
  | integrationCall
  | integrations
  | web
deriving DecidableEq

def StepGroup.name : StepGroup → Text
  | .browser => units "browser"
  | .command => units "command"
  | .computer => units "computer"
  | .edit => units "edit"
  | .explore => units "explore"
  | .integrationCall => units "integration-call"
  | .integrations => units "integrations"
  | .web => units "web"

def stepGroup : StepKind → Option StepGroup
  | .browser => some .browser
  | .command => some .command
  | .list | .read | .search => some .explore
  | .edit => some .edit
  | .computer => some .computer
  | .integrationCall => some .integrationCall
  | .integrationLookup => some .integrations
  | .webPage | .webSearch => some .web
  | _ => none

structure ToolPresentation where
  kind : StepKind
  command : Option Text

/-- How a step is worded. `effectiveCommand` is `commandFrom(effectiveArguments(tool))`. -/
structure Reading (H : Type) where
  toolPresentation : ToolEntry → ToolPresentation
  effectiveCommand : ToolEntry → Option Text
  nodeHead : NodeEntry → H
  browserRowHead : List WorkEntry → Option StepGroup → H

inductive ComputerPlace
  | app (place : ComputerApp)
  | phone (place : Phone)

def computerPlace (tool : ToolEntry) : Option ComputerPlace :=
  match tool.integration with
  | none => none
  | some subject =>
    match subject.computerApp, subject.phone with
    | some app, _ => some (.app app)
    | none, some phone => some (.phone phone)
    | none, none => none

/-- `JSON.stringify` of texts and nulls, among which is no number. -/
def jsonTexts (texts : List (Option Text)) : Text :=
  Tools.jsonText (fun _ => []) (.array (texts.map fun text => text.elim .null .string))

/-- What follows `--session` of a command where the expression matches: `=` or blanks, and a value. -/
def sessionValue : Text → Option Text
  | unit :: rest =>
    let value :=
      if unit = 0x3d then some rest
      else if isWhiteSpace unit then some (Text.trimStart rest)
      else none
    match value with
    | some (quote :: text) =>
      if quote = 0x22 ∨ quote = 0x27 then
        let inner := text.takeWhile fun unit => unit ≠ quote ∧ unit ≠ 0x24
        if inner ≠ [] ∧ text[inner.length]? = some quote then some inner else none
      else
        let word := (quote :: text).takeWhile fun unit =>
          !isWhiteSpace unit && unit ∉ ([0x22, 0x27, 0x24, 0x60] : Text)
        if word = [] then none else some word
    | _ => none
  | [] => none

/-- The session a command names: the first match of the expression in `groupJoinKey`. -/
def sessionLiteral : Text → Option Text
  | [] => none
  | unit :: rest =>
    let command := unit :: rest
    let here :=
      if (units "--session").isPrefixOf command then sessionValue (command.drop 9) else none
    here.or (sessionLiteral rest)

section

variable {H : Type} (R : Reading H)

def groupJoinKey (tool : ToolEntry) (group : StepGroup) (session : Option Text) : Option Text :=
  match group with
  | .browser =>
    let command := (R.effectiveCommand tool).getD []
    some (jsonTexts [some group.name, (sessionLiteral command).or session])
  | .integrationCall =>
    match tool.integration with
    | some subject =>
      if subject.effect = .read then
        some (jsonTexts [some group.name, some subject.integration, some subject.account,
          some subject.operationName])
      else none
    | none => none
  | .computer =>
    match computerPlace tool with
    | some (.phone place) => some (units "phone:" ++ place.runnerId)
    | some (.app place) => some (units "computer:" ++ place.bundleId ++ [0] ++ place.runnerId)
    | none => some group.name
  | group => some group.name

structure Steps where
  entries : List WorkEntry
  group : Option StepGroup
  joinKey : Option Text

/-- A row, with its steps as `σ`. -/
inductive RowBody (H σ : Type)
  | place (entry : PlaceEntry)
  | note (entry : MessageEntry)
  | reasoning (entry : ReasoningEntry)
  | subagent (entry : NodeEntry) (head : H)
  | steps (steps : σ)

structure Row (H σ : Type) where
  key : Text
  body : RowBody H σ

structure ShownSteps (H : Type) where
  entries : List WorkEntry
  group : Option StepGroup
  head : H
  places : List PlaceEntry
  currentPlace : Option PlaceEntry

/-- The loop of `workRows`: the rows so far, the places that wait, and the last one's session. -/
structure Trace (H : Type) where
  result : List (Row H Steps) := []
  pending : List PlaceEntry := []
  session : Option Text := none

def placeRow {σ : Type} (entry : PlaceEntry) : Row H σ := ⟨units "place:" ++ entry.id, .place entry⟩

namespace Trace

variable (t : Trace H)

def push (row : Row H Steps) : Trace H := { t with result := t.result ++ [row] }

def flushPlaces : Trace H := { t with result := t.result ++ t.pending.map placeRow, pending := [] }

/-- The last row, if it takes a step of the key. -/
def joined (joinKey : Option Text) : Option (Text × Steps) :=
  match t.result.getLast? with
  | some ⟨key, .steps last⟩ =>
    if joinKey.isSome ∧ last.joinKey = joinKey then some (key, last) else none
  | _ => none

def addStep (entry : WorkEntry) (places : List PlaceEntry) (group : Option StepGroup)
    (joinKey : Option Text) : Trace H :=
  match t.joined joinKey with
  | some (key, last) =>
    let entries := last.entries ++ places.map .place ++ [entry]
    { t with result := t.result.dropLast ++ [⟨key, .steps { last with entries }⟩] }
  | none =>
    t.push ⟨units "row:" ++ entry.id, .steps ⟨places.map .place ++ [entry], group, joinKey⟩⟩

/-- The places of a browser step's session. -/
def placesFor (group : Option StepGroup) (joinKey : Option Text) : List PlaceEntry :=
  if group = some .browser then
    t.pending.filter fun entry => match entry.place with
      | .browser sessionId _ =>
        some (jsonTexts [some StepGroup.browser.name, some sessionId]) = joinKey
      | _ => false
  else []

def addTool (tool : ToolEntry) : Trace H :=
  let presentation := R.toolPresentation tool
  let group :=
    if presentation.kind = .browser ∧ presentation.command = none then none
    else stepGroup presentation.kind
  let joinKey := group.bind fun group => groupJoinKey R tool group t.session
  let places := t.placesFor group joinKey
  let pending :=
    if group = some .browser then t.pending.filter fun place => place ∉ places else t.pending
  { t with pending }.addStep (.tool tool) places group joinKey

def add (t : Trace H) : WorkEntry → Trace H
  | .place entry =>
    match entry.place with
    | .browser sessionId _ => { t with session := some sessionId, pending := t.pending ++ [entry] }
    | _ => t.flushPlaces.push (placeRow entry)
  | .message entry => t.flushPlaces.push ⟨units "note:" ++ entry.id, .note entry⟩
  | .reasoning entry => t.flushPlaces.push ⟨units "reasoning:" ++ entry.id, .reasoning entry⟩
  | .node entry =>
    t.flushPlaces.push ⟨units "subagent:" ++ entry.id, .subagent entry (R.nodeHead entry)⟩
  | .request entry => t.flushPlaces.addStep (.request entry) [] none none
  | .tool entry => t.addTool R entry

end Trace

def rowPlaces (entries : List WorkEntry) : List PlaceEntry :=
  (entries.foldl (fun places entry => match entry with
    | .place entry =>
      if places.any fun other => placeIdentityKey other.place = placeIdentityKey entry.place then
        places
      else places ++ [entry]
    | _ => places) [])

def lastPlace (entries : List WorkEntry) : Option PlaceEntry :=
  (entries.filterMap fun entry => match entry with
    | .place entry => some entry
    | _ => none).getLast?

def Row.show (row : Row H Steps) : Row H (ShownSteps H) where
  key := row.key
  body := match row.body with
    | .place entry => .place entry
    | .note entry => .note entry
    | .reasoning entry => .reasoning entry
    | .subagent entry head => .subagent entry head
    | .steps ⟨entries, group, _⟩ =>
      .steps ⟨entries, group, R.browserRowHead entries group, rowPlaces entries, lastPlace entries⟩

def trace (work : List WorkEntry) : Trace H := work.foldl (Trace.add R) {}

def workRows (work : List WorkEntry) : List (Row H (ShownSteps H)) :=
  (trace R work).flushPlaces.result.map (Row.show R)

end

end Opensteer.Activity
