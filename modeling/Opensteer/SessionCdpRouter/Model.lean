import Opensteer.Framework.Machine
import Opensteer.SessionCdpRouter.ExecutionContexts

/-!
# The session CDP router

`SessionCdpRouter` of `packages/browser-core/src/session-cdp-router.ts`: which
session owns which browser target, the page channels the sessions' agents have
attached, and the commands and events that pass between an agent, its pages and
the browser. `Router.machine` runs it: an action is a call of the router, an event
of the browser or of a page, or the end of something a command awaits.
-/

namespace Opensteer.SessionCdpRouter

inductive ErrorCode
  | badCommand | conflict | forbidden | notFound | tooLarge
  /-- A `TypeError`. -/
  | typeError
deriving DecidableEq

/-- `SessionCdpRouterError`. -/
structure RouterError where
  code : ErrorCode
  message : Text
deriving DecidableEq

structure CdpCommand where
  method : Text
  parameters : Option Json
  sessionId : Option Text

structure CdpEvent where
  method : Text
  parameters : Fields
  sequence : Nat
  sessionId : Option Text

structure Url where
  protocol : Text
  username : Text
  password : Text

structure Limits where
  maxCommandBytes : Nat
  maxEventBytes : Nat
  maxResultBytes : Nat
  maxSessions : Nat
  /-- `validateLimits`: each is at least one. -/
  maxTargetsPerSession : Nat
  maxTargetsPerSession_pos : 0 < maxTargetsPerSession

structure Options where
  limits : Limits
  /-- `serializedBytes` of a command, an event and a result. -/
  commandBytes : CdpCommand → Nat
  eventBytes : CdpEvent → Nat
  resultBytes : Json → Nat
  /-- `agentPageCommandRefusal`: the policy of `agent-cdp-policy.ts`. -/
  agentPageCommandRefusal : Text → Fields → Option Text
  isAgentPageEvent : Text → Bool
  /-- `new URL`. -/
  parseUrl : Text → Option Url
  /-- `path.isAbsolute(file) && path.resolve(file) === file`. -/
  isNormalizedAbsolute : Text → Bool

inductive Inventoried
  | waiting | reported | failed
deriving DecidableEq

/-- A session's state object: a session registered again under an id is another. -/
structure SessionRef where
  sessionId : Text
  instance_ : Nat
deriving DecidableEq

structure AttachedChannel where
  contexts : ExecutionContextInventory
  /-- The session its page events are for. -/
  session : SessionRef
  inventoried : Inventoried
  /-- `ended.signal.aborted`: its listener is removed. -/
  ended : Bool
  physicalTargetId : Text
  runtimeEnabled : Bool
  pageEnabled : Bool

structure SessionState where
  sessionId : Text
  instance_ : Nat
  /-- The channels it has, by their virtual session ids. -/
  channels : List Text
  discoverTargets : Bool
  ledgerDialogEvents : Bool
  filesRoot : Text
  nextSequence : Nat
  /-- A set, in insertion order. -/
  ownedTargetIds : List Text
  rootTargetId : Text

def SessionState.ref (state : SessionState) : SessionRef := ⟨state.sessionId, state.instance_⟩

/-- What a command awaits. -/
inductive Suspended
  | getTargets (session : SessionRef)
  /-- A browser command whose result is the browser's. -/
  | passThrough
  | createTarget (session : SessionRef)
  /-- The close of a tab whose session ended while it opened. -/
  | closesOrphan
  | closeTarget (targetId : Text)
  | attach (session : SessionRef) (targetId : Text)
  | activate
  /-- The contexts of the channel it is sent to. -/
  | inventory (session : SessionRef) (virtualSessionId : Text) (command : CdpCommand)
  | page (virtualSessionId : Text) (method : Text)

/-- A command's error: the router's own, or what it awaited. -/
inductive Failure
  | router (error : RouterError)
  | backend

/-- What agents and their pages were given, with the contexts their channel had then. -/
inductive Output
  | command (virtualSessionId method : Text) (parameters : Option Fields)
      (contexts : ExecutionContextInventory)
  /-- An event, of a channel of the session or of the browser. -/
  | event (sessionId : Text) (event : CdpEvent) (contexts : Option ExecutionContextInventory)
  | result (call : Nat) (result : Json) (contexts : Option ExecutionContextInventory)
  | failed (call : Nat) (failure : Failure)

structure Router where
  ownerByTargetId : OrderedMap Text Text
  sessions : OrderedMap Text SessionState
  unclaimedPages : OrderedMap Text Fields
  closed : Bool
  /-- Every channel object there was, by its virtual session id. -/
  attached : OrderedMap Text AttachedChannel
  /-- How many sessions were registered. -/
  registrations : Nat
  /-- The commands in progress. -/
  calls : OrderedMap Nat Suspended
  outputs : List Output
  /-- What was sent to the browser, with the target it names. -/
  backendCalls : List (Text × Option Text)
  /-- The targets destroyed, or closed by a command. -/
  gone : List Text
  /-- Whether the listener to the browser's events has thrown. -/
  handlerThrew : Bool

namespace Router

def initial : Router :=
  ⟨.empty, .empty, .empty, false, .empty, 0, .empty, [], [], [], false⟩

/-- A state object that is still registered. -/
def state? (r : Router) (session : SessionRef) : Option SessionState :=
  (r.sessions.get session.sessionId).filter fun state => state.instance_ = session.instance_

def maximumSessionFilesPerCommand : Nat := 64
def maximumUnclaimedPages : Nat := 256
def allowedBrowserMethods : List Text := [units "Browser.getVersion"]

/-! ## Checks -/

/-- `if (condition) throw error`. -/
def throwIf (condition : Prop) [Decidable condition] (error : RouterError) : Except RouterError Unit :=
  if condition then .error error else .ok ()

theorem throwIf_eq_ok {condition : Prop} [Decidable condition] {error : RouterError} {u : Unit} :
    throwIf condition error = .ok u ↔ ¬ condition := by
  unfold throwIf
  split
  · exact ⟨(nomatch ·), fun h => absurd ‹_› h⟩
  · exact ⟨fun _ => ‹_›, fun _ => rfl⟩

def isControl (u : UInt16) : Bool := u.toNat < 0x20 || (0x7f ≤ u.toNat && u.toNat < 0xa0)

def isIdentifier (value : Text) : Bool :=
  1 ≤ value.length && value.length ≤ 512 && !value.any isControl

/-- `assertIdentifier`. -/
def assertIdentifier (value : Text) (label : Text) : Except RouterError Unit :=
  if isIdentifier value then .ok () else .error ⟨.badCommand, label ++ units " is invalid."⟩

def isAlpha (u : UInt16) : Bool :=
  (65 ≤ u.toNat && u.toNat ≤ 90) || (97 ≤ u.toNat && u.toNat ≤ 122)

def isWord : Text → Bool
  | [] => false
  | u :: us => isAlpha u && us.all fun u => isAlpha u || Decimal.isDigit u

/-- `/^[A-Za-z][A-Za-z0-9]*\.[A-Za-z][A-Za-z0-9]*$/`. -/
def isMethodName (method : Text) : Bool :=
  match method.span (· ≠ dot) with
  | (domain, _ :: name) => isWord domain && isWord name
  | _ => false

def validateCommand (o : Options) (command : CdpCommand) : Except RouterError Unit := do
  throwIf (isMethodName command.method = false) ⟨.badCommand, units "CDP method is invalid."⟩
  (match command.sessionId with
    | some sessionId => assertIdentifier sessionId (units "CDP session ID")
    | none => .ok ())
  (match command.parameters with
    | none | some (.object _) => .ok ()
    | _ => .error ⟨.badCommand, units "CDP parameters must be an object."⟩)
  throwIf (o.limits.maxCommandBytes < o.commandBytes command)
    ⟨.tooLarge, units "CDP command exceeds its byte limit."⟩

/-- `command.parameters ?? {}`. -/
def CdpCommand.fields (command : CdpCommand) : Fields := asRecord command.parameters

/-- `requiredString`. -/
def requiredString (parameters : Fields) (key : Text) : Except RouterError Text :=
  match parameters.get? key with
  | some (.string value) =>
    if 1 ≤ value.length ∧ value.length ≤ 512 then .ok value
    else .error ⟨.badCommand, key ++ units " is invalid."⟩
  | _ => .error ⟨.badCommand, key ++ units " is invalid."⟩

def assertSafeNavigationUrl (o : Options) (value : Option Json) (allowAboutBlank : Bool) :
    Except RouterError Unit :=
  let invalid : RouterError := ⟨.badCommand, units "CDP navigation URL is invalid."⟩
  match value with
  | none => if allowAboutBlank then .ok () else .error invalid
  | some (.string value) =>
    if value.length < 1 ∨ 16384 < value.length then .error invalid
    else if allowAboutBlank ∧ value = units "about:blank" then .ok ()
    else
      match o.parseUrl value with
      | none => .error invalid
      | some url =>
        if (url.protocol ≠ units "http:" ∧ url.protocol ≠ units "https:") ∨ url.username ≠ [] ∨
            url.password ≠ [] then
          .error ⟨.forbidden, units
            "CDP navigation is limited to HTTP and HTTPS URLs without embedded credentials."⟩
        else .ok ()
  | _ => .error invalid

def assertSessionFiles (o : Options) (value : Option Json) (filesRoot method : Text) :
    Except RouterError Unit :=
  match value with
  | some (.array files) =>
    if maximumSessionFilesPerCommand < files.length then
      .error ⟨.badCommand, method ++ units " files are invalid."⟩
    else if files.all fun file =>
        match file with
        | .string file => !file.contains 0 && o.isNormalizedAbsolute file &&
            (filesRoot ++ units "/").isPrefixOf file
        | _ => false then .ok ()
    else .error ⟨.forbidden, method ++ units
      " accepts only files staged for this Browser Session. Use Browser Harness setInputFiles, or pass the paths stageFiles returns."⟩
  | _ => .error ⟨.badCommand, method ++ units " files are invalid."⟩

def isSafeInteger (n : Rat) : Bool := n.den = 1 && n.num.natAbs ≤ 2 ^ 53 - 1

/-- `browserFrameFits` of `browser-frame-limits.ts`. -/
def browserFrameFits (width height devicePixelRatio : Rat) : Bool :=
  isSafeInteger width && 1 ≤ width && width ≤ 7680 &&
  isSafeInteger height && 1 ≤ height && height ≤ 4320 &&
  0 < devicePixelRatio && devicePixelRatio ≤ 4 &&
  width * height * devicePixelRatio ^ 2 ≤ 16777216

def assertBoundedRenderingCommand (method : Text) (parameters : Fields) : Except RouterError Unit :=
  if method = units "Emulation.setDeviceMetricsOverride" then
    match parameters.get? (units "width"), parameters.get? (units "height"),
        parameters.get? (units "deviceScaleFactor") with
    | some (.number width), some (.number height), some (.number devicePixelRatio) =>
      if 0 < width ∧ 0 < height ∧ 0 < devicePixelRatio ∧
          browserFrameFits width height devicePixelRatio = false then
        .error ⟨.badCommand, units "CDP device metrics exceed the bounded browser frame size."⟩
      else .ok ()
    | _, _, _ => .ok ()
  else if method = units "Page.startScreencast" then
    let width := match parameters.get? (units "maxWidth") with | some (.number n) => some n | _ => none
    let height := match parameters.get? (units "maxHeight") with | some (.number n) => some n | _ => none
    if width.any (7680 * 4 < ·) || height.any (4320 * 4 < ·) ||
        (width.any fun w => height.any fun h => decide (0 < w ∧ 0 < h ∧ 16777216 < w * h)) then
      .error ⟨.badCommand, units "CDP screencast dimensions exceed the bounded browser frame size."⟩
    else .ok ()
  else .ok ()

/-- `objectHandleRefusal`. -/
def objectHandleRefusal (method : Text) (parameters : Fields) (contexts : ExecutionContextInventory) :
    Option Text :=
  (foreignObjectHandle (.object parameters) contexts .command).map fun foreign =>
    method ++ units " " ++ foreign ++ units
      " does not name an object in a frame's main world: agents operate only frames' main worlds, not other script worlds."

def admitsAgentEvent (contexts : ExecutionContextInventory) (method : Text) (parameters : Fields)
    (reported : Option ExecutionContextEntry) : Bool :=
  if method = units "Runtime.executionContextCreated" ∨
      method = units "Runtime.executionContextDestroyed" then
    reported.any ExecutionContextEntry.mainWorld
  else if method = units "Runtime.consoleAPICalled" ∧
      contexts.isMainWorldValue (parameters.get? (units "executionContextId")) = false then false
  else if method = units "Runtime.exceptionThrown" ∧ contexts.isMainWorldValue
      ((asRecord (parameters.get? (units "exceptionDetails"))).get? (units "executionContextId")) =
        false then false
  else (foreignObjectHandle (.object parameters) contexts .message).isNone

/-! ## Ownership -/

def assertOwnedTarget (r : Router) (session : SessionRef) (targetId : Text) : Except RouterError Unit :=
  if r.ownerByTargetId.get targetId = some session.sessionId then .ok ()
  else .error ⟨.forbidden, units "CDP target is outside this Browser Session."⟩

def assertTargetCapacity (o : Options) (state : SessionState) : Except RouterError Unit :=
  if o.limits.maxTargetsPerSession ≤ state.ownedTargetIds.length then
    .error ⟨.conflict, units "Browser Session target capacity is exhausted."⟩
  else .ok ()

def requireSession (r : Router) (sessionId : Text) : Except RouterError SessionState :=
  match r.sessions.get sessionId with
  | some state => .ok state
  | none => .error ⟨.notFound, units "Browser Session is not registered."⟩

def assertOpen (r : Router) : Except RouterError Unit :=
  if r.closed then .error ⟨.conflict, units "CDP router is closed."⟩ else .ok ()

/-- `#appendEvent`. -/
def appendEvent (o : Options) (r : Router) (session : SessionRef) (method : Text) (parameters : Fields)
    (sessionId : Option Text) (contexts : Option ExecutionContextInventory) : Router :=
  match r.state? session with
  | none => r
  | some state =>
    let event : CdpEvent := ⟨method, parameters, state.nextSequence, sessionId⟩
    { r with
      sessions := r.sessions.set session.sessionId { state with nextSequence := state.nextSequence + 1 }
      outputs :=
        if o.limits.maxEventBytes < o.eventBytes event then r.outputs
        else r.outputs ++ [Output.event session.sessionId event contexts] }

/-- `#claimTarget`. -/
def claimTarget (o : Options) (r : Router) (state : SessionState) (targetId : Text) :
    Except RouterError Router :=
  if (r.ownerByTargetId.get targetId).any fun owner => owner ≠ state.sessionId then
    .error ⟨.conflict, units "CDP target belongs to another session."⟩
  else do
    assertTargetCapacity o state
    let owned := if targetId ∈ state.ownedTargetIds then state.ownedTargetIds
      else state.ownedTargetIds ++ [targetId]
    let r := { r with
      sessions := r.sessions.set state.sessionId { state with ownedTargetIds := owned }
      ownerByTargetId := r.ownerByTargetId.set targetId state.sessionId }
    match r.unclaimedPages.get targetId with
    | none => pure r
    | some announced =>
      let r := { r with unclaimedPages := r.unclaimedPages.delete targetId }
      if state.discoverTargets then
        pure (appendEvent o r state.ref (units "Target.targetCreated")
          [(units "targetInfo", .object announced)] none none)
      else pure r

/-- `#endChannel`. -/
def endChannel (r : Router) (sessionId virtualSessionId : Text) : Router :=
  { r with
    sessions := r.sessions.modify sessionId fun state =>
      { state with channels := state.channels.erase virtualSessionId }
    attached := r.attached.modify virtualSessionId fun attached => { attached with ended := true } }

/-- `#releaseTarget`. -/
def releaseTarget (r : Router) (targetId : Text) : Router :=
  match r.ownerByTargetId.get targetId with
  | none => r
  | some ownerId =>
    let r := { r with ownerByTargetId := r.ownerByTargetId.delete targetId }
    match r.sessions.get ownerId with
    | none => r
    | some state =>
      let r := { r with
        sessions := r.sessions.set ownerId
          { state with ownedTargetIds := state.ownedTargetIds.erase targetId } }
      (state.channels.filter fun id =>
        (r.attached.get id).any fun attached => attached.physicalTargetId = targetId).foldl
        (fun r id => endChannel r ownerId id) r

/-- The loop that drops the oldest pages over the bound. -/
def dropOldest : List Text → OrderedMap Text Fields → OrderedMap Text Fields
  | [], pages => pages
  | oldest :: keys, pages =>
    if pages.size ≤ maximumUnclaimedPages then pages else dropOldest keys (pages.delete oldest)

def trackUnclaimedPage (r : Router) (method targetId : Text) (parameters : Fields) : Router :=
  let targetInfo := asRecord (parameters.get? (units "targetInfo"))
  let isPage := match targetInfo.get? (units "type") with | some (.string t) => t = units "page" | _ => false
  let tracked := (method = units "Target.targetCreated" && isPage) ||
    (method = units "Target.targetInfoChanged" && (r.unclaimedPages.get targetId).isSome)
  let pages := r.unclaimedPages.delete targetId
  { r with
    unclaimedPages :=
      if tracked then
        let pages := pages.set targetId targetInfo
        dropOldest pages.keys pages
      else pages }

def registerSession (o : Options) (r : Router) (sessionId rootTargetId filesRoot : Text) :
    Except RouterError Router := do
  assertOpen r
  assertIdentifier sessionId (units "Browser Session ID")
  assertIdentifier rootTargetId (units "CDP target ID")
  throwIf (o.isNormalizedAbsolute filesRoot = false)
    ⟨.typeError, units "Browser Session files root must be an absolute normalized path."⟩
  throwIf (r.sessions.get sessionId).isSome
    ⟨.conflict, units "Browser Session is already registered."⟩
  throwIf (o.limits.maxSessions ≤ r.sessions.size)
    ⟨.conflict, units "Profile Host session capacity is exhausted."⟩
  throwIf (r.ownerByTargetId.get rootTargetId).isSome
    ⟨.conflict, units "Root target already belongs to a session."⟩
  let state : SessionState := {
    sessionId, rootTargetId, filesRoot
    instance_ := r.registrations
    channels := []
    discoverTargets := true
    ledgerDialogEvents := false
    nextSequence := 1
    ownedTargetIds := [rootTargetId] }
  pure { r with
    sessions := r.sessions.set sessionId state
    ownerByTargetId := r.ownerByTargetId.set rootTargetId sessionId
    unclaimedPages := r.unclaimedPages.delete rootTargetId
    registrations := r.registrations + 1 }

def unregisterSession (r : Router) (sessionId : Text) : Router :=
  match r.sessions.get sessionId with
  | none => r
  | some state =>
    let r := { r with
      sessions := r.sessions.delete sessionId
      ownerByTargetId := state.ownedTargetIds.foldl OrderedMap.delete r.ownerByTargetId }
    state.channels.foldl (fun r id => endChannel r sessionId id) r

def close (r : Router) : Router :=
  if r.closed then r
  else r.sessions.keys.foldl unregisterSession { r with closed := true, unclaimedPages := .empty }

/-- The public `claimTarget`. -/
def claim (o : Options) (r : Router) (sessionId targetId : Text) : Except RouterError Router := do
  assertOpen r
  assertIdentifier targetId (units "CDP target ID")
  let state ← requireSession r sessionId
  if r.ownerByTargetId.get targetId = some state.sessionId then pure r
  else claimTarget o r state targetId

/-! ## The browser's events -/

/-- The session that owns a target. -/
def ownerOf (r : Router) (targetId : Text) : Option SessionState :=
  (r.ownerByTargetId.get targetId).bind r.sessions.get

/-- The target an event of the browser is about. -/
def eventTargetId (parameters : Fields) : Option Text :=
  ((readString (asRecord (parameters.get? (units "targetInfo"))) (units "targetId")).or
    (readString parameters (units "targetId"))).filter fun targetId => targetId ≠ []

/-- The session that owns the opener of a target just created. -/
def openerOwner (r : Router) (parameters : Fields) : Option SessionState :=
  let targetInfo := asRecord (parameters.get? (units "targetInfo"))
  ((readString targetInfo (units "openerId")).or (readString targetInfo (units "parentId"))).bind
    r.ownerOf

/-- A target a session's page opened is the session's, if it has room. -/
def claimOpened (o : Options) (r : Router) (method targetId : Text) (parameters : Fields) :
    Except RouterError Router :=
  match if method = units "Target.targetCreated" then openerOwner r parameters else none with
  | some owner =>
    if owner.ownedTargetIds.length < o.limits.maxTargetsPerSession then claimTarget o r owner targetId
    else .ok r
  | none => .ok r

/-- The target's owner hears of the event, and a target destroyed is released. -/
def announce (o : Options) (r : Router) (method targetId : Text) (parameters : Fields) : Router :=
  let r :=
    match r.ownerOf targetId with
    | some owner =>
      if owner.discoverTargets then appendEvent o r owner.ref method parameters none none else r
    | none => trackUnclaimedPage r method targetId parameters
  if method = units "Target.targetDestroyed" then
    { releaseTarget r targetId with gone := r.gone ++ [targetId] }
  else r

def handleBrowserEvent (o : Options) (r : Router) (method : Text) (parameters : Fields) :
    Except RouterError Router :=
  if r.closed ∨ (units "Target.").isPrefixOf method = false then .ok r
  else
    match eventTargetId parameters with
    | none => .ok r
    | some targetId =>
      match claimOpened o r method targetId parameters with
      | .ok r => .ok (announce o r method targetId parameters)
      | .error error => .error error

/-! ## Commands -/

def suspend (r : Router) (call : Nat) (suspended : Suspended) : Router :=
  { r with calls := r.calls.set call suspended }

/-- The command is answered with an error. -/
def fail (r : Router) (call : Nat) (failure : Failure) : Router :=
  { r with calls := r.calls.delete call, outputs := r.outputs ++ [Output.failed call failure] }

/-- The command is answered, if its result fits. -/
def reply (o : Options) (r : Router) (call : Nat) (result : Json)
    (contexts : Option ExecutionContextInventory) : Router :=
  if o.limits.maxResultBytes < o.resultBytes result then
    fail r call (.router ⟨.tooLarge, units
      "CDP result exceeds the bounded agent transport. Query a narrower result in the page."⟩)
  else { r with calls := r.calls.delete call, outputs := r.outputs ++ [Output.result call result contexts] }

/-- A check's error is the command's. -/
def orFail (r : Router) (call : Nat) (check : Except RouterError Router) : Router :=
  match check with
  | .ok r => r
  | .error error => fail r call (.router error)

def sendBackend (r : Router) (call : Nat) (method : Text) (targetId : Option Text)
    (suspended : Suspended) : Router :=
  { suspend r call suspended with backendCalls := r.backendCalls ++ [(method, targetId)] }

/-- `#activateTarget`, up to what it awaits. -/
def activateTarget (r : Router) (call : Nat) (session : SessionRef) (targetId : Text) :
    Except RouterError Router := do
  assertOwnedTarget r session targetId
  pure (suspend r call .activate)

/-- `#sendTargetCommand`, up to what it awaits. -/
def sendTargetCommand (o : Options) (r : Router) (call : Nat) (state : SessionState)
    (command : CdpCommand) : Except RouterError Router :=
  let parameters := CdpCommand.fields command
  let method := command.method
  if method = units "Target.getTargets" then
    .ok (sendBackend r call method none (.getTargets state.ref))
  else if method = units "Target.getBrowserContexts" then .ok (sendBackend r call method none .passThrough)
  else if method = units "Target.getTargetInfo" then do
    let targetId ← requiredString parameters (units "targetId")
    assertOwnedTarget r state.ref targetId
    pure (sendBackend r call method (some targetId) .passThrough)
  else if method = units "Target.createTarget" then do
    assertTargetCapacity o state
    assertSafeNavigationUrl o (parameters.get? (units "url")) true
    pure (sendBackend r call method none (.createTarget state.ref))
  else if method = units "Target.attachToTarget" then do
    let targetId ← requiredString parameters (units "targetId")
    assertOwnedTarget r state.ref targetId
    pure (suspend r call (.attach state.ref targetId))
  else if method = units "Target.detachFromTarget" then do
    let virtualSessionId ← requiredString parameters (units "sessionId")
    throwIf (virtualSessionId ∉ state.channels) ⟨.notFound, units "CDP session is not attached here."⟩
    pure (reply o (endChannel r state.sessionId virtualSessionId) call (.object []) none)
  else if method = units "Target.setDiscoverTargets" then
    match parameters.get? (units "discover") with
    | some (.bool discover) =>
      let state := { state with discoverTargets := discover }
      .ok (reply o { r with sessions := r.sessions.set state.sessionId state } call (.object []) none)
    | _ => .error ⟨.badCommand, units "Target discovery requires a boolean."⟩
  else if method = units "Target.activateTarget" then do
    let targetId ← requiredString parameters (units "targetId")
    activateTarget r call state.ref targetId
  else if method = units "Target.closeTarget" then do
    let targetId ← requiredString parameters (units "targetId")
    assertOwnedTarget r state.ref targetId
    pure (sendBackend r call method (some targetId) (.closeTarget targetId))
  else .error ⟨.forbidden, method ++ units " cannot be safely scoped to one Browser Session."⟩

/-- `#admitAttachedCommand`: the channel, if its session may send it the command. -/
def admitAttachedCommand (o : Options) (r : Router) (session : SessionRef) (virtualSessionId method : Text)
    (parameters : Fields) : Except RouterError AttachedChannel :=
  let attached? := (r.state? session).bind fun state =>
    if virtualSessionId ∈ state.channels then r.attached.get virtualSessionId else none
  match r.state? session, attached? with
  | some state, some attached => do
    (match (o.agentPageCommandRefusal method parameters).or
        (objectHandleRefusal method parameters attached.contexts) with
      | some refusal => .error ⟨.forbidden, refusal⟩
      | none => .ok ())
    (if method = units "Page.navigate" then
      assertSafeNavigationUrl o (parameters.get? (units "url")) false
      else .ok ())
    (if method = units "DOM.setFileInputFiles" then
      assertSessionFiles o (parameters.get? (units "files")) state.filesRoot method
      else .ok ())
    (if method = units "Input.dispatchDragEvent" then
      match parameters.get? (units "data") with
      | none => .ok ()
      | some data =>
        let files := match (asRecord (some data)).get? (units "files") with
          | none | some .null => .array []
          | some files => files
        assertSessionFiles o (some files) state.filesRoot method
      else .ok ())
    assertBoundedRenderingCommand method parameters
    pure attached
  | _, _ => .error ⟨.notFound, units "CDP session is not attached here."⟩

/-- `macEditingCommands`: the modifiers and the code, and the command they give. -/
def macEditingCommands : List ((Nat × Text) × Text) :=
  [((4, units "KeyA"), units "selectAll"), ((4, units "KeyC"), units "copy"),
    ((4, units "KeyX"), units "cut"), ((4, units "KeyV"), units "paste"),
    ((4, units "KeyZ"), units "undo"), ((12, units "KeyZ"), units "redo"),
    ((4, units "Backspace"), units "deleteToBeginningOfLine"),
    ((4, units "ArrowUp"), units "moveToBeginningOfDocument"),
    ((4, units "ArrowDown"), units "moveToEndOfDocument"),
    ((4, units "ArrowLeft"), units "moveToLeftEndOfLine"),
    ((4, units "ArrowRight"), units "moveToRightEndOfLine"),
    ((12, units "Backspace"), units "deleteToBeginningOfLine"),
    ((12, units "ArrowUp"), units "moveToBeginningOfDocumentAndModifySelection"),
    ((12, units "ArrowDown"), units "moveToEndOfDocumentAndModifySelection"),
    ((12, units "ArrowLeft"), units "moveToLeftEndOfLineAndModifySelection"),
    ((12, units "ArrowRight"), units "moveToRightEndOfLineAndModifySelection")]

def windowsEditingCodes : List (Rat × Text) :=
  [(8, units "Backspace"), (37, units "ArrowLeft"), (38, units "ArrowUp"),
    (39, units "ArrowRight"), (40, units "ArrowDown")]

/-- A number as the bitwise operators and `fromCharCode` take it. -/
def truncated (n : Rat) : Int := n.num.tdiv n.den

/-- A letter as a key's code; `/^[a-z]$/iu` also takes the long s and the Kelvin sign. -/
def keyCode (candidate : Text) : Text :=
  match candidate with
  | [u] =>
    if isAlpha u then units "Key" ++ [if 97 ≤ u.toNat then u - 32 else u]
    else if u.toNat = 0x17f then units "KeyS"
    else if u.toNat = 0x212a then units "Key" ++ [u]
    else candidate
  | _ => candidate

/-- The parameters of an agent's key event, as the page is given them. -/
def pageKeys (parameters : Fields) : Fields :=
  let pageKeys := parameters.delete (units "nativeVirtualKeyCode")
  let isDown := match pageKeys.get? (units "type") with
    | some (.string t) => t = units "keyDown" || t = units "rawKeyDown"
    | _ => false
  if (pageKeys.get? (units "commands")).isNone && isDown then
    let modifiers := match pageKeys.get? (units "modifiers") with
      | some (.number n) => ((truncated n) % 16).toNat
      | _ => 0
    let fallback := match pageKeys.get? (units "windowsVirtualKeyCode") with
      | some (.number n) =>
        match windowsEditingCodes.find? fun e => e.1 = n with
        | some e => e.2
        | none => if 65 ≤ n ∧ n ≤ 90 then [UInt16.ofNat (truncated n).toNat] else []
      | _ => []
    let candidates := [pageKeys.get? (units "code"), pageKeys.get? (units "key"), some (.string fallback)]
    let editing := candidates.findSome? fun candidate =>
      match candidate with
      | some (.string candidate) =>
        (macEditingCommands.find? fun e => e.1 = (modifiers, keyCode candidate)).map Prod.snd
      | _ => none
    match editing with
    | some editing => pageKeys.set (units "commands") (.array [.string editing])
    | none => pageKeys
  else pageKeys

/-- `agentObjectGroups`. -/
def agentObjectGroups (parameters : Option Fields) (virtualSessionId : Text) : Option Fields :=
  parameters.map fun parameters =>
    match parameters.get? (units "objectGroup") with
    | some (.string group) => parameters.set (units "objectGroup")
        (.string (units "opensteer-agent:" ++ virtualSessionId ++ units ":" ++ group))
    | _ => parameters

def setAttached (r : Router) (virtualSessionId : Text) (f : AttachedChannel → AttachedChannel) : Router :=
  { r with attached := r.attached.modify virtualSessionId f }

/-- The command is written to its page. -/
def sendPage (r : Router) (call : Nat) (virtualSessionId method : Text) (parameters : Option Fields)
    (contexts : ExecutionContextInventory) : Router :=
  { suspend r call (.page virtualSessionId method) with
    outputs := r.outputs ++ [Output.command virtualSessionId method
      (agentObjectGroups parameters virtualSessionId) contexts] }

/-- `#sendAttachedCommand`, from when the channel's contexts are known. -/
def sendAdmitted (o : Options) (r : Router) (call : Nat) (session : SessionRef) (command : CdpCommand) :
    Except RouterError Router := do
  let id := command.sessionId.getD []
  let method := command.method
  let attached ← admitAttachedCommand o r session id method (CdpCommand.fields command)
  if method = units "Page.bringToFront" then activateTarget r call session attached.physicalTargetId
  else
    let r :=
      if method = units "Page.enable" then setAttached r id fun a => { a with pageEnabled := true }
      else if method = units "Page.disable" then setAttached r id fun a => { a with pageEnabled := false }
      else r
    if method = units "Runtime.enable" then
      if attached.runtimeEnabled then pure (reply o r call (.object []) (some attached.contexts))
      else
        let r := setAttached r id fun a => { a with runtimeEnabled := true }
        let mainWorlds := attached.contexts.entries.values.filter ExecutionContextEntry.mainWorld
        let r := mainWorlds.foldl (fun r context =>
          appendEvent o r session (units "Runtime.executionContextCreated")
            [(units "context", .object context.description)] (some id) (some attached.contexts)) r
        pure (reply o r call (.object []) (some attached.contexts))
    else if method = units "Runtime.disable" then
      let r := setAttached r id fun a => { a with runtimeEnabled := false }
      pure (reply o r call (.object []) (some attached.contexts))
    else if method = units "Input.dispatchKeyEvent" then
      let parameters := pageKeys (CdpCommand.fields command)
      let attached ← admitAttachedCommand o r session id method parameters
      pure (sendPage r call id method (some parameters) attached.contexts)
    else pure (sendPage r call id method (command.parameters.map fun p => asRecord (some p)) attached.contexts)

/-- `send`, up to what it awaits first. -/
def send (o : Options) (r : Router) (call : Nat) (sessionId : Text) (command : CdpCommand) :
    Except RouterError Router := do
  assertOpen r
  let state ← requireSession r sessionId
  validateCommand o command
  if (units "Target.").isPrefixOf command.method then sendTargetCommand o r call state command
  else
    match command.sessionId with
    | some id =>
      -- A dialog's answer is what lets a page under it report its contexts.
      if id ∈ state.channels ∧ command.method ≠ units "Page.handleJavaScriptDialog" then
        pure (suspend r call (.inventory state.ref id command))
      else sendAdmitted o r call state.ref command
    | none =>
      if command.method ∈ allowedBrowserMethods then
        .ok (sendBackend r call command.method none .passThrough)
      else .error ⟨.forbidden, command.method ++ units
        " is not available to agents: agents operate pages, not browser internals such as cookies, network traffic, storage, browser logs, or other script worlds."⟩

/-! ## What commands await -/

/-- `Target.getTargets` with the session's own targets. -/
def ownTargets (r : Router) (session : SessionRef) (response : Json) : Json :=
  let response := asRecord (some response)
  let targetInfos := match response.get? (units "targetInfos") with | some (.array infos) => infos | _ => []
  let own := targetInfos.filter fun targetInfo =>
    match readString (asRecord (some targetInfo)) (units "targetId") with
    | some targetId => r.ownerByTargetId.get targetId = some session.sessionId
    | none => false
  let root := match r.state? session with
    | some state => state.rootTargetId
    | none => []
  .object ((response.set (units "rootTargetId") (.string root)).set (units "targetInfos") (.array own))

/-- `Target.createTarget`, from the browser's answer. -/
def targetCreated (o : Options) (r : Router) (call : Nat) (session : SessionRef) (response : Json) :
    Router :=
  match (readString (asRecord (some response)) (units "targetId")).filter fun id => id ≠ [] with
  | none => fail r call (.router ⟨.badCommand, units "Browser did not return a target ID."⟩)
  | some targetId =>
    match r.state? session with
    -- A session that ended while the tab opened has already closed its pages.
    | none => sendBackend r call (units "Target.closeTarget") (some targetId) .closesOrphan
    | some state =>
      orFail r call do
        let r ← claimTarget o r state targetId
        pure (reply o r call (.object (asRecord (some response))) none)

/-- The browser answers what a command sent it; with `none`, by an error. -/
def backendAnswers (o : Options) (r : Router) (call : Nat) (response : Option Json) : Option Router :=
  match r.calls.get call, response with
  | some .closesOrphan, _ =>
    some (fail r call (.router ⟨.notFound, units "Browser Session is not registered."⟩))
  | some (.getTargets _), none | some .passThrough, none | some (.createTarget _), none
  | some (.closeTarget _), none => some (fail r call .backend)
  | some (.getTargets session), some response => some (reply o r call (ownTargets r session response) none)
  | some .passThrough, some response => some (reply o r call response none)
  | some (.createTarget session), some response => some (targetCreated o r call session response)
  | some (.closeTarget targetId), some response =>
    let r := { releaseTarget r targetId with gone := r.gone ++ [targetId] }
    some (reply o r call response none)
  | _, _ => none

/-- `#attachTarget`, from when its channel opens, under a new virtual session id. -/
def channelOpens (o : Options) (r : Router) (call : Nat) (session : SessionRef)
    (targetId virtualSessionId : Text) : Router :=
  match r.state? session with
  | some state =>
    if r.ownerByTargetId.get targetId = some session.sessionId then
      let attached : AttachedChannel := {
        contexts := .empty, session, inventoried := .waiting, ended := false
        physicalTargetId := targetId, runtimeEnabled := false, pageEnabled := false }
      let r := { r with
        attached := r.attached.set virtualSessionId attached
        sessions := r.sessions.set session.sessionId
          { state with channels := state.channels ++ [virtualSessionId] } }
      reply o r call (.object [(units "sessionId", .string virtualSessionId)]) none
    else fail r call (.router ⟨.notFound, units "The browser surface does not exist."⟩)
  | none => fail r call (.router ⟨.notFound, units "The browser surface does not exist."⟩)

/-- `backend.attach` settles. -/
def attachSettles (o : Options) (r : Router) (call : Nat) (channel : Option Text) : Option Router :=
  match r.calls.get call, channel with
  | some (.attach session targetId), some virtualSessionId =>
    if (r.attached.get virtualSessionId).isSome then none
    else some (channelOpens o r call session targetId virtualSessionId)
  | some (.attach _ _), none => some (fail r call .backend)
  | _, _ => none

/-- `resolveTarget` settles. -/
def surfaceResolves (o : Options) (r : Router) (call : Nat) (found : Option Bool) : Option Router :=
  match r.calls.get call, found with
  | some .activate, some true => some (reply o r call (.object []) none)
  | some .activate, some false =>
    some (fail r call (.router ⟨.notFound, units "The browser surface does not exist."⟩))
  | some .activate, none => some (fail r call .backend)
  | _, _ => none

/-- The router's own `Runtime.enable` on a channel settles. -/
def inventorySettles (r : Router) (virtualSessionId : Text) (enabled : Bool) : Option Router :=
  match r.attached.get virtualSessionId with
  | none => none
  | some attached =>
    if attached.inventoried ≠ .waiting then none
    else if enabled then
      some (setAttached r virtualSessionId fun a => { a with inventoried := .reported })
    else
      let r := setAttached r virtualSessionId fun a => { a with inventoried := .failed }
      match r.state? attached.session with
      | some state =>
        if virtualSessionId ∈ state.channels then some (endChannel r state.sessionId virtualSessionId)
        else some r
      | none => some r

def endedError : RouterError :=
  ⟨.notFound, units "The CDP session ended before the page answered."⟩

/-- A command that waited for its channel's contexts goes on. -/
def resumes (o : Options) (r : Router) (call : Nat) : Option Router :=
  match r.calls.get call with
  | some (.inventory session id command) =>
    match r.attached.get id with
    | none => none
    | some attached =>
      match attached.inventoried with
      | .reported => some (orFail r call (sendAdmitted o r call session command))
      | .failed => some (fail r call .backend)
      | .waiting => if attached.ended then some (fail r call (.router endedError)) else none
  | _ => none

/-- The page answers a command, or its channel has ended. -/
def channelAnswers (o : Options) (r : Router) (call : Nat) (result : Option Json) : Option Router :=
  match r.calls.get call with
  | some (.page id method) =>
    match r.attached.get id, result with
    | none, _ => none
    | some attached, some result =>
      match foreignObjectHandle result attached.contexts .message with
      | some foreign => some (fail r call (.router ⟨.forbidden, method ++ units " returned " ++ foreign ++
          units " from outside a frame's main world: agents operate only frames' main worlds."⟩))
      | none => some (reply o r call result (some attached.contexts))
    | some attached, none =>
      some (fail r call (if attached.ended then .router endedError else .backend))
  | _ => none

/-! ## Page events -/

def isDialogEvent (method : Text) : Bool :=
  method = units "Page.javascriptDialogOpening" || method = units "Page.javascriptDialogClosed"

/-- `#handlePageEvent`. -/
def handlePageEvent (o : Options) (r : Router) (id : Text) (attached : AttachedChannel) (method : Text)
    (parameters : Fields) : Router :=
  match r.state? attached.session with
  | none => r
  | some state =>
    if state.ledgerDialogEvents && isDialogEvent method then r
    else
      let (contexts, reported) := attached.contexts.observe method parameters
      let r := setAttached r id fun a => { a with contexts }
      if (units "Runtime.").isPrefixOf method && !attached.runtimeEnabled then r
      else if !o.isAgentPageEvent method then r
      else if !admitsAgentEvent contexts method parameters reported then r
      else if id ∉ state.channels then r
      else appendEvent o r attached.session method parameters (some id) (some contexts)

/-- What `useDialogEvents` returns: the ledger's dialog events of a page. -/
def publishDialog (o : Options) (r : Router) (session : SessionRef) (targetId method : Text)
    (parameters : Fields) : Router :=
  match r.state? session with
  | none => r
  | some state =>
    state.channels.foldl (fun r id =>
      match r.attached.get id with
      | some attached =>
        if attached.physicalTargetId = targetId ∧ attached.pageEnabled then
          appendEvent o r session method parameters (some id) (some attached.contexts)
        else r
      | none => r) r

/-! ## The machine -/

inductive Action
  | registerSession (sessionId rootTargetId filesRoot : Text)
  | unregisterSession (sessionId : Text)
  | close
  | claimTarget (sessionId targetId : Text)
  | useDialogEvents (sessionId : Text)
  | dialogEvent (session : SessionRef) (targetId : Text) (opening : Bool) (parameters : Fields)
  | browserEvent (method : Text) (parameters : Fields)
  | pageEvent (virtualSessionId method : Text) (parameters : Fields)
  | send (call : Nat) (sessionId : Text) (command : CdpCommand)
  | backendAnswers (call : Nat) (response : Option Json)
  | attachSettles (call : Nat) (channel : Option Text)
  | surfaceResolves (call : Nat) (found : Option Bool)
  | inventorySettles (virtualSessionId : Text) (enabled : Bool)
  | resumes (call : Nat)
  | channelAnswers (call : Nat) (result : Option Json)

/-- A call that throws leaves the router as it is. -/
def orSame (r : Router) (result : Except RouterError Router) : Router :=
  match result with
  | .ok r => r
  | .error _ => r

def step (o : Options) (r : Router) : Action → Option Router
  | .registerSession sessionId rootTargetId filesRoot =>
    some (r.orSame (registerSession o r sessionId rootTargetId filesRoot))
  | .unregisterSession sessionId => some (unregisterSession r sessionId)
  | .close => some (close r)
  | .claimTarget sessionId targetId => some (r.orSame (claim o r sessionId targetId))
  | .useDialogEvents sessionId =>
    some { r with sessions := r.sessions.modify sessionId fun state =>
      { state with ledgerDialogEvents := true } }
  | .dialogEvent session targetId opening parameters =>
    some (publishDialog o r session targetId (if opening then units "Page.javascriptDialogOpening"
      else units "Page.javascriptDialogClosed") parameters)
  | .browserEvent method parameters =>
    match handleBrowserEvent o r method parameters with
    | .ok r => some r
    | .error _ => some { r with handlerThrew := true }
  | .pageEvent id method parameters =>
    match r.attached.get id with
    | some attached => if attached.ended then none else some (handlePageEvent o r id attached method parameters)
    | none => none
  | .send call sessionId command =>
    if (r.calls.get call).isSome then none else some (r.orFail call (send o r call sessionId command))
  | .backendAnswers call response => backendAnswers o r call response
  | .attachSettles call channel => attachSettles o r call channel
  | .surfaceResolves call found => surfaceResolves o r call found
  | .inventorySettles id enabled => inventorySettles r id enabled
  | .resumes call => resumes o r call
  | .channelAnswers call result => channelAnswers o r call result

def machine (o : Options) : Machine Router Action := ⟨step o⟩

end Router

end Opensteer.SessionCdpRouter
