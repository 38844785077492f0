import Mathlib.Data.List.Sort
import Opensteer.Core.Ids
import Opensteer.Framework.Lookup
import Opensteer.Framework.OrderedMap
import Opensteer.InputProjection.Model
import Opensteer.ModelCandidates.Registry

/-!
# Model candidates

`packages/core/src/model-candidates.ts` and `model-selection.ts`: which accounts, with which models, can run what is
wanted. The catalogs of accounts and the wants are as their schemas accept them, so no option's ID is a number.
`canRun` has no effects, and `localeCompare` is the runtime's.
-/

namespace Opensteer.ModelCandidates

open InputProjection (jsonString)

structure HarnessInstanceId where
  value : String
deriving DecidableEq, Repr

/-- A finite number is its JSON. -/
inductive ModelOptionValue
  | text (value : Text)
  | number (json : Text)
  | toggle (value : Bool)
deriving DecidableEq, Repr

abbrev ModelOptions := OrderedMap Text ModelOptionValue

structure ModelSelection where
  providerId : Text
  modelId : Text
  nativeModelId : Option Text := none
  options : ModelOptions
deriving DecidableEq

inductive ModelOption
  | toggle (id : Text) (defaultValue : Bool)
  | select (id : Text) (defaultValue : Option Text) (values : List Text)
deriving DecidableEq, Repr

def ModelOption.id : ModelOption → Text
  | .toggle id _ => id
  | .select id _ _ => id

def ModelOption.defaultValue : ModelOption → Option ModelOptionValue
  | .toggle _ defaultValue => some (.toggle defaultValue)
  | .select _ defaultValue _ => defaultValue.map .text

structure SelectionModelDescriptor where
  providerId : Text
  modelId : Text
  nativeModelId : Option Text
  displayName : Text
  unavailableReason : Option Text
  options : List ModelOption
deriving DecidableEq, Repr

/-! ## Selections -/

inductive ModelSelectionMatch
  | offered (model : SelectionModelDescriptor)
  | modelUnavailable (reason : Option Text)
  | optionUnavailable (model : SelectionModelDescriptor) (optionId : Text)
deriving DecidableEq, Repr

inductive Unlisted
  | carry
  | refuse
deriving DecidableEq, Repr

/-- A text that is there and not empty. -/
def truthy (text : Option Text) : Option Text := text.filter fun text => text ≠ []

def ModelOption.lists : ModelOption → ModelOptionValue → Bool
  | .toggle .., .toggle _ => true
  | .select _ _ values, .text value => value ∈ values
  | _, _ => false

def matchModelSelection (models : List SelectionModelDescriptor) (selection : ModelSelection) (unlisted : Unlisted) :
    ModelSelectionMatch :=
  match models.find? fun candidate =>
      candidate.providerId = selection.providerId ∧ candidate.modelId = selection.modelId with
  | none => .modelUnavailable none
  | some model =>
    match truthy model.unavailableReason with
    | some reason => .modelUnavailable (some reason)
    | none =>
      let refused := selection.options.entries.find? fun entry =>
        match lookupBy ModelOption.id model.options entry.1 with
        | none => unlisted = .refuse
        | some descriptor => !descriptor.lists entry.2
      match refused with
      | some entry => .optionUnavailable model entry.1
      | none => .offered model

def modelOptionUnavailableMessage (model : SelectionModelDescriptor) (optionId : Text) : Text :=
  let takes := match model.options.find? fun option => option.id = optionId with
    | none => units "; it takes no such option"
    | some (.toggle ..) => units "; it takes true or false"
    | some (.select _ _ values) => units "; it takes " ++ (units ", ").intercalate values
  units "Model option " ++ optionId ++ units " is not available for " ++ model.displayName ++ takes

def storedModelSelection (selection : ModelSelection) (model : SelectionModelDescriptor) : ModelSelection :=
  { selection with nativeModelId := model.nativeModelId }

def runModelSelection (selection : ModelSelection) (model : SelectionModelDescriptor) : ModelSelection :=
  let stored := storedModelSelection selection model
  let defaults := model.options.filterMap fun option => option.defaultValue.map (option.id, ·)
  { stored with options := (defaults ++ stored.options.entries).foldl (fun options entry => options.set entry.1 entry.2) .empty }

/-! ## Accounts -/

structure LightModel where
  providerId : Text
  modelId : Text
  options : Option ModelOptions
deriving DecidableEq

structure SelectionCatalog where
  status : Text
  detail : Option Text
  models : List SelectionModelDescriptor
  lightModel : Option LightModel
deriving DecidableEq

structure ModelUsageFact where
  providerId : Text
  modelId : Option Text
  exhausted : Bool
  resetsAt : Option Int
deriving DecidableEq, Repr

structure AuthorizedModelAccountSnapshot where
  environmentId : EnvironmentId
  harnessInstanceId : HarnessInstanceId
  harnessRevision : Nat
  driverKind : Text
  sourceId : Text
  isDefault : Bool
  enabled : Bool
  removed : Bool
  available : Bool
  catalog : Option SelectionCatalog
  usage : List ModelUsageFact
deriving DecidableEq

inductive ModelCandidateSkipReason
  | excluded
  | offline
  | disabled
  | removed
  | unsupportedCapability
  | unsupportedAccessMode
  | wrongComputer
  | catalogNotReady
  | modelUnavailable
  | optionsUnavailable
  | endpointBindingRequired
  | unauthorized
deriving DecidableEq, Repr

inductive ModelRunEligibility
  | ok
  | refused (reason : ModelCandidateSkipReason) (detail : Option Text)
deriving DecidableEq, Repr

structure OriginalModelSelection where
  environmentId : EnvironmentId
  harnessInstanceId : HarnessInstanceId
  modelSelection : ModelSelection
  fromPastRun : Bool
deriving DecidableEq

/-- `AutomaticModelWant` and `AutomaticModelRank`. -/
inductive ModelWant
  | exact (engine model : Text) (options : Option ModelOptions) (harnessInstanceId : Option HarnessInstanceId)
  | engine (engine : Text) (harnessInstanceId : Option HarnessInstanceId)
  | model (driverKind providerId modelId : Text) (options : ModelOptions)
  | catalogLight (driverKind : Text)
deriving DecidableEq

/-- `"kind" in want ? want.driverKind : want.engine`. -/
def ModelWant.driverKind : ModelWant → Text
  | .exact driverKind .. | .engine driverKind _ | .model driverKind .. | .catalogLight driverKind => driverKind

/-- The account that a want names. -/
def ModelWant.named : ModelWant → Option HarnessInstanceId
  | .exact _ _ _ harnessInstanceId | .engine _ harnessInstanceId => harnessInstanceId.filter fun id => id.value ≠ ""
  | .model .. | .catalogLight _ => none

structure ResolvedModelCandidate where
  environmentId : EnvironmentId
  harnessInstanceId : HarnessInstanceId
  harnessRevision : Nat
  account : AuthorizedModelAccountSnapshot
  storedModelSelection : ModelSelection
  runModelSelection : ModelSelection
  usageLimited : Bool
  original : Bool
deriving DecidableEq

structure SkippedModelCandidate where
  want : Option ModelWant
  harnessInstanceId : HarnessInstanceId
  environmentId : Option EnvironmentId := none
  reason : ModelCandidateSkipReason
  detail : Option Text := none
deriving DecidableEq

structure ResolveModelCandidatesInput where
  wants : List ModelWant
  original : Option OriginalModelSelection
  accounts : List AuthorizedModelAccountSnapshot
  excludedAccounts : List HarnessInstanceId
  canRun : AuthorizedModelAccountSnapshot → ModelRunEligibility
  now : Int
  localeCompare : Text → Text → Ordering

def ModelOptionValue.json : ModelOptionValue → Text
  | .text value => jsonString value
  | .number json => json
  | .toggle value => units (if value then "true" else "false")

def Lab.json : Lab → Text
  | .lab providerId => jsonString providerId
  | .inherited json => json

/-- `JSON.stringify` of an array, from its elements' JSON. -/
def jsonArray (elements : List Text) : Text := units "[" ++ (units ",").intercalate elements ++ units "]"

def modelCandidateKey (localeCompare : Text → Text → Ordering) (candidate : ResolvedModelCandidate) : Text :=
  let selection := candidate.runModelSelection
  let canonical := canonicalModelReference selection.modelId selection.providerId
  let entries := selection.options.entries.insertionSort fun a b => (localeCompare a.1 b.1).isLE
  jsonArray [jsonString (units candidate.environmentId.value), jsonString (units candidate.harnessInstanceId.value),
    canonical.providerId.json, jsonString canonical.modelId,
    jsonArray (entries.map fun entry => jsonArray [jsonString entry.1, entry.2.json])]

def automaticAccountOrder {T : Type} (isDefault : T → Bool) (accounts : List T) : List T :=
  accounts.mergeSort fun a b => (isDefault b).toNat ≤ (isDefault a).toNat

def automaticAccountEligibility (account : AuthorizedModelAccountSnapshot) (excludedAccounts : List HarnessInstanceId)
    (canRun : AuthorizedModelAccountSnapshot → ModelRunEligibility) : ModelRunEligibility :=
  if account.harnessInstanceId ∈ excludedAccounts then .refused .excluded none
  else if account.removed then .refused .removed none
  else if !account.enabled then .refused .disabled none
  else if !account.available then .refused .offline none
  else match canRun account with
    | .refused reason detail => .refused reason detail
    | .ok =>
      if account.catalog.map (·.status) ≠ some (units "ready") then
        .refused .catalogNotReady
          (truthy ((account.catalog.bind (·.detail)).or (account.catalog.map (·.status))))
      else .ok

/-! ## `resolveModelCandidates` -/

namespace ResolveModelCandidatesInput

variable (input : ResolveModelCandidatesInput)

abbrev Skipped := List SkippedModelCandidate

def skip (skipped : Skipped) (account : AuthorizedModelAccountSnapshot) (want : Option ModelWant)
    (reason : ModelCandidateSkipReason) (detail : Option Text := none) : Skipped :=
  skipped ++ [⟨want, account.harnessInstanceId, some account.environmentId, reason, truthy detail⟩]

/-- The account's catalog, if the account can be used. -/
def usable (skipped : Skipped) (account : AuthorizedModelAccountSnapshot) (want : Option ModelWant) :
    Option SelectionCatalog × Skipped :=
  match automaticAccountEligibility account input.excludedAccounts input.canRun with
  | .ok => (account.catalog, skipped)
  | .refused reason detail => (none, skip skipped account want reason detail)

def usageLimited (account : AuthorizedModelAccountSnapshot) (stored : ModelSelection) : Bool :=
  account.usage.any fun fact => fact.exhausted && fact.providerId = stored.providerId &&
    (truthy fact.modelId).all (· = stored.modelId) && fact.resetsAt.all (input.now < ·)

def candidate (account : AuthorizedModelAccountSnapshot) (model : SelectionModelDescriptor) (selection : ModelSelection)
    (original : Bool) : ResolvedModelCandidate :=
  let stored := storedModelSelection selection model
  { environmentId := account.environmentId
    harnessInstanceId := account.harnessInstanceId
    harnessRevision := account.harnessRevision
    account
    storedModelSelection := stored
    runModelSelection := runModelSelection stored model
    original
    usageLimited := input.usageLimited account stored }

def inspect (skipped : Skipped) (account : AuthorizedModelAccountSnapshot) (selection : ModelSelection)
    (want : Option ModelWant) (original : Bool) : Option ResolvedModelCandidate × Skipped :=
  match input.usable skipped account want with
  | (none, skipped) => (none, skipped)
  | (some catalog, skipped) =>
    match matchModelSelection catalog.models selection .refuse with
    | .modelUnavailable reason => (none, skip skipped account want .modelUnavailable reason)
    | .optionUnavailable model optionId =>
      (none, skip skipped account want .optionsUnavailable (some (modelOptionUnavailableMessage model optionId)))
    | .offered model => (some (input.candidate account model selection original), skipped)

def inspectOriginal : Option ResolvedModelCandidate × Skipped :=
  match input.original with
  | none => (none, [])
  | some own =>
    match input.accounts.find? fun a =>
        a.environmentId = own.environmentId ∧ a.harnessInstanceId = own.harnessInstanceId with
    | none => (none, [{ want := none, harnessInstanceId := own.harnessInstanceId, reason := .unauthorized }])
    | some account =>
      if own.fromPastRun && account.sourceId = units "openai-compatible" then
        (none, [{ want := none, harnessInstanceId := own.harnessInstanceId, reason := .endpointBindingRequired }])
      else input.inspect [] account own.modelSelection none true

/-- The models of the catalog that an exact want can mean. -/
def exactMatches (account : AuthorizedModelAccountSnapshot) (model : Text) : List SelectionModelDescriptor :=
  let models := account.catalog.elim [] (·.models)
  let pair := models.filter fun m => m.providerId ++ units "/" ++ m.modelId = model
  let reference := canonicalModelReference model account.sourceId
  if pair ≠ [] then pair
  else models.filter fun m => m.modelId = model ∨ .lab m.providerId = reference.providerId ∧ m.modelId = reference.modelId

/-- The account's own small model. -/
def seekLight (skipped : Skipped) (account : AuthorizedModelAccountSnapshot) (want : ModelWant) :
    Option ResolvedModelCandidate × Skipped :=
  match input.usable skipped account want with
  | (none, skipped) => (none, skipped)
  | (some catalog, skipped) =>
    match catalog.lightModel with
    | none => (none, skip skipped account want .modelUnavailable (some (units "This account has no small model")))
    | some light =>
      input.inspect skipped account
        { providerId := light.providerId, modelId := light.modelId, options := light.options.getD .empty } want false

/-- What the loops do for an account of the want's engine, up to its candidate. -/
def seek (skipped : Skipped) (account : AuthorizedModelAccountSnapshot) (want : ModelWant) :
    Option ResolvedModelCandidate × Skipped :=
  if account.sourceId = units "openai-compatible" ∧ want.named = none then
    (none, skipped ++ [{ want, harnessInstanceId := account.harnessInstanceId, reason := .endpointBindingRequired }])
  else
    match want with
    | .engine .. | .catalogLight _ => input.seekLight skipped account want
    | .model _ providerId modelId options => input.inspect skipped account { providerId, modelId, options } want false
    | .exact _ model options _ =>
      match exactMatches account model with
      | [] =>
        let reference := canonicalModelReference model account.sourceId
        match reference.providerId with
        | .lab providerId =>
          input.inspect skipped account { providerId, modelId := reference.modelId, options := options.getD .empty } want false
        -- No model has a provider that is not a text.
        | .inherited _ =>
          match input.usable skipped account want with
          | (none, skipped) => (none, skipped)
          | (some _, skipped) => (none, skip skipped account want .modelUnavailable)
      | [m] =>
        input.inspect skipped account
          { providerId := m.providerId, modelId := m.modelId, options := options.getD .empty } want false
      | _ :: _ :: _ =>
        (none, skipped ++ [{
          want, harnessInstanceId := account.harnessInstanceId, reason := .modelUnavailable
          detail := some (units "Ambiguous canonical model ID") }])

/-- The variables of the loops. -/
structure Loop where
  skipped : Skipped
  seen : List Text
  candidates : List ResolvedModelCandidate

/-- The want is for accounts like this one. -/
def concerns (want : ModelWant) (account : AuthorizedModelAccountSnapshot) : Bool :=
  account.driverKind = want.driverKind && want.named.all (· = account.harnessInstanceId)

def consider (s : Loop) (want : ModelWant) (account : AuthorizedModelAccountSnapshot) : Loop :=
  if concerns want account then
    match input.seek s.skipped account want with
    | (none, skipped) => { s with skipped }
    | (some candidate, skipped) =>
      let key := modelCandidateKey input.localeCompare candidate
      if key ∈ s.seen then { s with skipped }
      else { skipped, seen := s.seen ++ [key], candidates := s.candidates ++ [candidate] }
  else s

structure Result where
  candidates : List ResolvedModelCandidate
  skipped : Skipped

def resolveModelCandidates : Result :=
  let (original, skipped) := input.inspectOriginal
  let accounts := automaticAccountOrder (·.isDefault) input.accounts
  let seen := (original.map (modelCandidateKey input.localeCompare)).toList
  let s := input.wants.foldl (fun s want => accounts.foldl (fun s account => input.consider s want account) s)
    { skipped, seen, candidates := [] }
  { candidates := s.candidates.mergeSort (fun a b => a.usageLimited.toNat ≤ b.usageLimited.toNat) ++ original.toList
    skipped := s.skipped }

end ResolveModelCandidatesInput

end Opensteer.ModelCandidates
