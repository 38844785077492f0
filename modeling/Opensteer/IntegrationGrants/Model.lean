import Opensteer.Core.Ids
import Opensteer.Core.Json
import Opensteer.Core.Text
import Opensteer.Framework.Lookup

/-!
# Effective grants

`packages/integration-core/src/effective-grants.ts`, with `effect.ts`, the eligibility of a
connection of `readiness.ts` and `packages/core/src/resource-access.ts`. The IDs are those the
schemas accept, so none is empty; `sha256` stands for the digest of `node:crypto`.
-/

namespace Opensteer.IntegrationGrants

structure IntegrationConnectionId where
  value : String
deriving DecidableEq, Repr

structure IntegrationGrantId where
  value : String
deriving DecidableEq, Repr

structure IntegrationInstallationId where
  value : String
deriving DecidableEq, Repr

structure IntegrationServerId where
  value : String
deriving DecidableEq, Repr

structure IntegrationToolId where
  value : String
deriving DecidableEq, Repr

/-! ## Access -/

/-- `ResourceAccessLevel`, of which `IntegrationAccess` has the same values. -/
inductive IntegrationAccess
  | read | readWrite
deriving DecidableEq, Repr

inductive IntegrationToolEffect
  | read | write
deriving DecidableEq, Repr

/-- A ceiling that is `undefined` is `none`, one that is `null` is `some none`. -/
def intersectResourceAccess (workspace : Option IntegrationAccess) (ceiling : Option (Option IntegrationAccess)) :
    Option IntegrationAccess :=
  if workspace = none ∨ ceiling = some none then none
  else if workspace = some .read ∨ ceiling = some (some .read) then some .read
  else workspace

def integrationToolEffect (annotations : Fields) : IntegrationToolEffect :=
  match annotations.get? (units "readOnlyHint") with
  | some (.bool true) => .read
  | _ => .write

def accessCoversEffect (access : IntegrationAccess) (effect : IntegrationToolEffect) : Bool :=
  access = .readWrite || effect = .read

/-- Whether holding `held` already allows everything `wanted` asks for. -/
def integrationAccessCovers (held wanted : IntegrationAccess) : Bool :=
  accessCoversEffect held (if wanted = .readWrite then .write else .read)

/-! ## Inventory -/

inductive IntegrationConnectionRequirement
  | none
  | provider (definitionId : String) (provider : String) (providerApplicationRequired : Bool)
  | mcpOauth
  | computer (definitionId : String)
deriving DecidableEq, Repr

inductive ConnectionKind
  | channel | computer | mcpOauth | providerAccount
deriving DecidableEq, Repr

inductive ConnectionStatus
  | connected | needsAttention | paused | pending | revoked
deriving DecidableEq, Repr

/-- The status of an installation and of a server. -/
inductive InventoryStatus
  | active | disabled | needsAttention
deriving DecidableEq, Repr

inductive ToolStatus
  | active | disabled
deriving DecidableEq, Repr

inductive GrantStatus
  | active | revoked
deriving DecidableEq, Repr

/-- An `EffectiveGrantConnection`. -/
structure EffectiveGrantConnection where
  applicationSourceAvailable : Bool
  computerAccess : Option IntegrationAccess
  connectionKind : ConnectionKind
  definitionId : Option String
  displayName : Text
  id : IntegrationConnectionId
  integrationServerId : Option IntegrationServerId
  ownerUserId : UserId
  provider : String
  status : ConnectionStatus
deriving DecidableEq

structure IntegrationInstallation where
  id : IntegrationInstallationId
  status : InventoryStatus
  title : Text
deriving DecidableEq

/-- An `EffectiveGrantTool`: a tool with what its server says. -/
structure EffectiveGrantTool where
  annotations : Fields
  connectionId : Option IntegrationConnectionId
  connectionRequirement : IntegrationConnectionRequirement
  id : IntegrationToolId
  installationId : IntegrationInstallationId
  serverId : IntegrationServerId
  serverStatus : InventoryStatus
  status : ToolStatus

structure IntegrationGrant where
  access : IntegrationAccess
  alias_ : Text
  connectionId : Option IntegrationConnectionId
  id : IntegrationGrantId
  installationId : IntegrationInstallationId
  isDefault : Bool
  ownerUserId : UserId
  status : GrantStatus
  workspaceId : WorkspaceId
deriving DecidableEq

structure InheritedMainIntegrationGrant where
  access : IntegrationAccess
  alias_ : Text
  connectionId : Option IntegrationConnectionId
  id : IntegrationGrantId
  installationId : IntegrationInstallationId
  isDefault : Bool
  ownerUserId : UserId
  workspaceId : WorkspaceId
deriving DecidableEq

inductive EffectiveIntegrationGrant
  | stored (grant : IntegrationGrant)
  | inherited (grant : InheritedMainIntegrationGrant)
deriving DecidableEq

namespace EffectiveIntegrationGrant

def access : EffectiveIntegrationGrant → IntegrationAccess
  | .stored grant => grant.access
  | .inherited grant => grant.access

def connectionId : EffectiveIntegrationGrant → Option IntegrationConnectionId
  | .stored grant => grant.connectionId
  | .inherited grant => grant.connectionId

def installationId : EffectiveIntegrationGrant → IntegrationInstallationId
  | .stored grant => grant.installationId
  | .inherited grant => grant.installationId

def ownerUserId : EffectiveIntegrationGrant → UserId
  | .stored grant => grant.ownerUserId
  | .inherited grant => grant.ownerUserId

end EffectiveIntegrationGrant

structure ResolveEffectiveGrantsInput where
  connections : List EffectiveGrantConnection
  inheritedMainAccess : Bool
  installations : List IntegrationInstallation
  ownerUserId : UserId
  storedGrants : List IntegrationGrant
  tools : List EffectiveGrantTool
  workspaceId : WorkspaceId

structure ResolvedEffectiveGrantTool where
  grant : EffectiveIntegrationGrant
  tool : EffectiveGrantTool

/-! ## Eligibility -/

def isIntegrationConnectionEligible (connection : EffectiveGrantConnection)
    (connectionRequirement : IntegrationConnectionRequirement) (serverId : IntegrationServerId) : Bool :=
  if connection.status ≠ .connected then false
  else match connectionRequirement with
    | .provider definitionId provider providerApplicationRequired =>
      connection.connectionKind = .providerAccount && connection.definitionId = some definitionId &&
        connection.provider = provider && (!providerApplicationRequired || connection.applicationSourceAvailable)
    | .computer definitionId => connection.connectionKind = .computer && connection.definitionId = some definitionId
    | .mcpOauth => connection.connectionKind = .mcpOauth && connection.integrationServerId = some serverId
    | .none => false

/-- A computer's and a server's own tools are each of one connection. -/
def IntegrationConnectionRequirement.isBound : IntegrationConnectionRequirement → Bool
  | .computer _ | .mcpOauth => true
  | .none | .provider _ _ _ => false

def toolAuthorityIsCurrent (tool : EffectiveGrantTool) (connection : Option EffectiveGrantConnection) : Bool :=
  if tool.connectionRequirement = .none then connection.isNone && tool.connectionId.isNone
  else match connection with
    | none => false
    | some connection =>
      if tool.connectionRequirement.isBound && tool.connectionId.isNone then false
      else if tool.connectionId.isSome ∧ tool.connectionId ≠ some connection.id then false
      else isIntegrationConnectionEligible connection tool.connectionRequirement tool.serverId

def matchingUsableConnections (tool : EffectiveGrantTool) (connections : List EffectiveGrantConnection)
    (ownerUserId : UserId) : List EffectiveGrantConnection :=
  connections.filter fun connection =>
    if connection.ownerUserId ≠ ownerUserId then false
    else if tool.connectionId.isSome ∧ tool.connectionId ≠ some connection.id then false
    else if tool.connectionRequirement.isBound && tool.connectionId.isNone then false
    else toolAuthorityIsCurrent tool (some connection)

/-- Applies a connection ceiling after Workspace authority. -/
def effectiveIntegrationAccess (access : IntegrationAccess) (connection : Option EffectiveGrantConnection) :
    IntegrationAccess :=
  let ceiling := connection.bind fun connection =>
    if connection.connectionKind = .computer then connection.computerAccess.map some else none
  (intersectResourceAccess (some access) ceiling).getD access

def grantWithConnectionCeiling (grant : IntegrationGrant) (connection : Option EffectiveGrantConnection) :
    IntegrationGrant :=
  { grant with access := effectiveIntegrationAccess grant.access connection }

/-! ## Inherited grants -/

def normalizedAuthorityAlias (value : Text) : Text :=
  let normalized := Text.trim ((Text.trim value).take 80)
  if normalized.isEmpty then units "Default" else normalized

def hexByte (byte : UInt8) : String :=
  String.ofList [Nat.digitChar (byte.toNat / 16), Nat.digitChar (byte.toNat % 16)]

section Inherited

variable (sha256 : List UInt8 → List UInt8)

def inheritedMainGrantId (connectionId : Option IntegrationConnectionId) (installationId : IntegrationInstallationId)
    (ownerUserId : UserId) (workspaceId : WorkspaceId) : IntegrationGrantId :=
  let text := String.intercalate "\x00" ["opensteer-main-inherited-integration-v1", ownerUserId.value,
    workspaceId.value, installationId.value, (connectionId.map (·.value)).getD "connectionless"]
  let bytes := (sha256 text.toUTF8.toList).take 16
  let bytes := bytes.set 6 ((bytes.getD 6 0 &&& 0x0f) ||| 0x80)
  let bytes := bytes.set 8 ((bytes.getD 8 0 &&& 0x3f) ||| 0x80)
  let hex := fun (start stop : Nat) => String.join (((bytes.take stop).drop start).map hexByte)
  ⟨String.intercalate "-" ["igr_" ++ hex 0 4, hex 4 6, hex 6 8, hex 8 10, hex 10 16]⟩

def inheritedMainGrant (access : IntegrationAccess) (alias_ : Text) (connectionId : Option IntegrationConnectionId)
    (installationId : IntegrationInstallationId) (isDefault : Bool) (ownerUserId : UserId)
    (workspaceId : WorkspaceId) : InheritedMainIntegrationGrant where
  access := access
  alias_ := normalizedAuthorityAlias alias_
  connectionId := connectionId
  id := inheritedMainGrantId sha256 connectionId installationId ownerUserId workspaceId
  installationId := installationId
  isDefault := isDefault
  ownerUserId := ownerUserId
  workspaceId := workspaceId

/-! ## The two resolvers -/

def connectionById (input : ResolveEffectiveGrantsInput) :
    IntegrationConnectionId → Option EffectiveGrantConnection :=
  lookupBy (·.id) (input.connections.filter fun connection => connection.ownerUserId = input.ownerUserId)

/-- What an active grant gives of the inventory. -/
def storedTools (input : ResolveEffectiveGrantsInput) (grant : IntegrationGrant) : List ResolvedEffectiveGrantTool :=
  match lookupBy (·.id) input.installations grant.installationId with
  | none => []
  | some installation =>
    let connection := grant.connectionId.bind (connectionById input)
    let effectiveGrant := grantWithConnectionCeiling grant connection
    (input.tools.filter fun tool =>
      installation.status = .active && tool.installationId = grant.installationId && tool.serverStatus = .active &&
        tool.status = .active && accessCoversEffect effectiveGrant.access (integrationToolEffect tool.annotations) &&
        toolAuthorityIsCurrent tool connection).map fun tool => ⟨.stored effectiveGrant, tool⟩

def resolveStoredGrants (input : ResolveEffectiveGrantsInput) (activeGrants : List IntegrationGrant) :
    List ResolvedEffectiveGrantTool :=
  activeGrants.flatMap (storedTools input)

/-- The active grant of an installation and a connection; of several the last. -/
def overlayByScope (activeGrants : List IntegrationGrant) (installationId : IntegrationInstallationId)
    (connectionId : Option IntegrationConnectionId) : Option IntegrationGrant :=
  lookupBy (fun grant => (grant.installationId, grant.connectionId)) activeGrants (installationId, connectionId)

/-- The inherited grant of a tool that needs no connection. -/
def connectionlessGrant (input : ResolveEffectiveGrantsInput) (activeGrants : List IntegrationGrant)
    (installation : IntegrationInstallation) : InheritedMainIntegrationGrant :=
  let overlay := overlayByScope activeGrants installation.id none
  inheritedMainGrant sha256 .readWrite ((overlay.map (·.alias_)).getD installation.title) none installation.id
    ((overlay.map (·.isDefault)).getD false) input.ownerUserId input.workspaceId

/-- The inherited grant of a connection. -/
def connectionGrant (input : ResolveEffectiveGrantsInput) (activeGrants : List IntegrationGrant)
    (installation : IntegrationInstallation) (connection : EffectiveGrantConnection) : InheritedMainIntegrationGrant :=
  let overlay := overlayByScope activeGrants installation.id (some connection.id)
  inheritedMainGrant sha256 (effectiveIntegrationAccess .readWrite (some connection))
    ((overlay.map (·.alias_)).getD connection.displayName) (some connection.id) installation.id
    ((overlay.map (·.isDefault)).getD false) input.ownerUserId input.workspaceId

/-- What Main inherits of a tool. -/
def inheritedTools (input : ResolveEffectiveGrantsInput) (activeGrants : List IntegrationGrant)
    (tool : EffectiveGrantTool) : List ResolvedEffectiveGrantTool :=
  match lookupBy (·.id) (input.installations.filter fun installation => installation.status = .active)
      tool.installationId with
  | none => []
  | some installation =>
    if tool.serverStatus ≠ .active ∨ tool.status ≠ .active then []
    else
      (if tool.connectionRequirement = .none ∧ tool.connectionId = none then
        [⟨.inherited (connectionlessGrant sha256 input activeGrants installation), tool⟩]
      else []) ++
      (((matchingUsableConnections tool input.connections input.ownerUserId).map
        (connectionGrant sha256 input activeGrants installation)).filter fun grant =>
          accessCoversEffect grant.access (integrationToolEffect tool.annotations)).map
        fun grant => ⟨.inherited grant, tool⟩

def resolveInheritedMainGrants (input : ResolveEffectiveGrantsInput) (activeGrants : List IntegrationGrant) :
    List ResolvedEffectiveGrantTool :=
  input.tools.flatMap (inheritedTools sha256 input activeGrants)

def activeGrants (input : ResolveEffectiveGrantsInput) : List IntegrationGrant :=
  input.storedGrants.filter fun grant => grant.status = .active && grant.ownerUserId = input.ownerUserId

def resolveEffectiveGrants (input : ResolveEffectiveGrantsInput) : List ResolvedEffectiveGrantTool :=
  if input.inheritedMainAccess then resolveInheritedMainGrants sha256 input (activeGrants input)
  else resolveStoredGrants input (activeGrants input)

end Inherited

end Opensteer.IntegrationGrants
