import Opensteer.IntegrationGrants.Model

/-!
# What grants lend

A grant lends a tool by a connection that is the owner's, connected, eligible and the tool's own, or
by none where the tool needs none, at no more than the connection's ceiling (`Lends`), and what a
stored grant lends is inherited too. One kind of inventory breaks both: a grant that names a
connection its owner does not have is taken as one that names none, and lends the tools that need
none (`Lost`).
-/

namespace Opensteer.IntegrationGrants

variable {input : ResolveEffectiveGrantsInput} {lent : ResolvedEffectiveGrantTool} {grant : IntegrationGrant}
  {tool : EffectiveGrantTool} {connection : EffectiveGrantConnection} {grants : List IntegrationGrant}
  {access : IntegrationAccess} {effect : IntegrationToolEffect} {sha256 : List UInt8 → List UInt8}

/-! ## Access -/

/-- Access within a ceiling is what the ceiling leaves of it. -/
@[simp] theorem effectiveIntegrationAccess_idem (access : IntegrationAccess) (connection : Option EffectiveGrantConnection) :
    effectiveIntegrationAccess (effectiveIntegrationAccess access connection) connection =
      effectiveIntegrationAccess access connection := by
  unfold effectiveIntegrationAccess
  dsimp only
  generalize (connection.bind fun connection => _) = ceiling
  cases access <;> rcases ceiling with - | - | - | - <;> rfl

@[simp] theorem effectiveIntegrationAccess_none (access : IntegrationAccess) :
    effectiveIntegrationAccess access none = access := by
  cases access <;> rfl

/-- Below one ceiling all access is at least what some access is. -/
theorem covers_effectiveIntegrationAccess (access : IntegrationAccess) (connection : Option EffectiveGrantConnection) :
    integrationAccessCovers (effectiveIntegrationAccess .readWrite connection)
      (effectiveIntegrationAccess access connection) := by
  unfold effectiveIntegrationAccess
  dsimp only
  generalize (connection.bind fun connection => _) = ceiling
  cases access <;> rcases ceiling with - | - | - | - <;> rfl

theorem integrationAccessCovers_readWrite (wanted : IntegrationAccess) : integrationAccessCovers .readWrite wanted := by
  cases wanted <;> rfl

/-- What access covers, wider access covers. -/
theorem accessCoversEffect_mono {held wanted : IntegrationAccess} (h : integrationAccessCovers held wanted)
    (heffect : accessCoversEffect wanted effect) : accessCoversEffect held effect := by
  cases held <;> cases wanted <;> cases effect <;> simp_all [integrationAccessCovers, accessCoversEffect]

/-! ## Eligibility -/

theorem toolAuthorityIsCurrent_none :
    toolAuthorityIsCurrent tool none ↔ tool.connectionRequirement = .none ∧ tool.connectionId = none := by
  unfold toolAuthorityIsCurrent
  split <;> simp_all

theorem toolAuthorityIsCurrent_some : toolAuthorityIsCurrent tool (some connection) ↔
    tool.connectionRequirement ≠ .none ∧ (tool.connectionRequirement.isBound → tool.connectionId.isSome) ∧
      (∀ bound, tool.connectionId = some bound → bound = connection.id) ∧
      isIntegrationConnectionEligible connection tool.connectionRequirement tool.serverId := by
  unfold toolAuthorityIsCurrent
  cases tool.connectionId <;> by_cases hnone : tool.connectionRequirement = .none <;> simp [hnone]

theorem status_of_eligible {requirement : IntegrationConnectionRequirement} {serverId : IntegrationServerId}
    (h : isIntegrationConnectionEligible connection requirement serverId) : connection.status = .connected := by
  unfold isIntegrationConnectionEligible at h
  split at h
  · cases h
  · rename_i hstatus
    exact not_not.mp hstatus

theorem mem_matchingUsableConnections :
    connection ∈ matchingUsableConnections tool input.connections input.ownerUserId ↔
      connection ∈ input.connections ∧ connection.ownerUserId = input.ownerUserId ∧
        toolAuthorityIsCurrent tool (some connection) := by
  rw [matchingUsableConnections, List.mem_filter, toolAuthorityIsCurrent_some]
  cases hbound : tool.connectionId <;> simp [toolAuthorityIsCurrent_some, hbound] <;> grind

/-! ## What is lent -/

/-- What a grant may lend. -/
structure Lends (input : ResolveEffectiveGrantsInput) (lent : ResolvedEffectiveGrantTool) : Prop where
  tool : lent.tool ∈ input.tools ∧ lent.tool.status = .active ∧ lent.tool.serverStatus = .active
  installation : ∃ installation ∈ input.installations,
    installation.id = lent.tool.installationId ∧ installation.status = .active
  owner : lent.grant.ownerUserId = input.ownerUserId
  covers : accessCoversEffect lent.grant.access (integrationToolEffect lent.tool.annotations)
  connection : ∀ id, lent.grant.connectionId = some id → ∃ connection ∈ input.connections,
    connection.id = id ∧ connection.ownerUserId = input.ownerUserId ∧ connection.status = .connected ∧
      isIntegrationConnectionEligible connection lent.tool.connectionRequirement lent.tool.serverId ∧
      (∀ bound, lent.tool.connectionId = some bound → bound = id) ∧
      effectiveIntegrationAccess lent.grant.access (some connection) = lent.grant.access
  connectionless : lent.grant.connectionId = none → lent.tool.connectionRequirement = .none

/-- A grant names a connection its owner does not have, and its installation has a tool that needs none. -/
def Lost (input : ResolveEffectiveGrantsInput) : Prop :=
  ∃ grant ∈ activeGrants input, ∃ id, grant.connectionId = some id ∧
    (∀ connection ∈ input.connections, connection.ownerUserId = input.ownerUserId → connection.id ≠ id) ∧
    (∃ installation, lookupBy (·.id) input.installations grant.installationId = some installation ∧
      installation.status = .active) ∧
    ∃ tool ∈ input.tools, tool.installationId = grant.installationId ∧ tool.serverStatus = .active ∧
      tool.status = .active ∧ tool.connectionRequirement = .none ∧ tool.connectionId = none ∧
      accessCoversEffect grant.access (integrationToolEffect tool.annotations)

theorem connectionById_eq_some {id : IntegrationConnectionId} (h : connectionById input id = some connection) :
    connection ∈ input.connections ∧ connection.ownerUserId = input.ownerUserId ∧ connection.id = id := by
  have hmem := List.mem_filter.mp (mem_of_lookupBy h)
  exact ⟨hmem.1, by simpa using hmem.2, key_of_lookupBy h⟩

theorem connectionById_eq_none {id : IntegrationConnectionId} : connectionById input id = none ↔
    ∀ connection ∈ input.connections, connection.ownerUserId = input.ownerUserId → connection.id ≠ id := by
  simp [connectionById, lookupBy_eq_none]

theorem mem_activeGrants : grant ∈ activeGrants input ↔
    grant ∈ input.storedGrants ∧ grant.status = .active ∧ grant.ownerUserId = input.ownerUserId := by
  simp [activeGrants]

/-- What a stored grant gives. -/
theorem mem_storedTools : lent ∈ storedTools input grant ↔
    (∃ installation, lookupBy (·.id) input.installations grant.installationId = some installation ∧
      installation.status = .active) ∧
      lent.tool ∈ input.tools ∧ lent.tool.installationId = grant.installationId ∧ lent.tool.serverStatus = .active ∧
      lent.tool.status = .active ∧
      lent.grant = .stored (grantWithConnectionCeiling grant (grant.connectionId.bind (connectionById input))) ∧
      accessCoversEffect lent.grant.access (integrationToolEffect lent.tool.annotations) ∧
      toolAuthorityIsCurrent lent.tool (grant.connectionId.bind (connectionById input)) := by
  obtain ⟨lentGrant, tool⟩ := lent
  unfold storedTools
  cases hinstallation : lookupBy (·.id) input.installations grant.installationId with
  | none => simp
  | some installation =>
    simp only [List.mem_map, List.mem_filter, Bool.and_eq_true, decide_eq_true_eq, Option.some.injEq,
      exists_eq_left', ResolvedEffectiveGrantTool.mk.injEq]
    constructor
    · rintro ⟨found, ⟨hin, ⟨⟨⟨⟨hactive, hid⟩, hserver⟩, hstatus⟩, hcovers⟩, hcurrent⟩, rfl, rfl⟩
      exact ⟨hactive, hin, hid, hserver, hstatus, rfl, hcovers, hcurrent⟩
    · rintro ⟨hactive, hin, hid, hserver, hstatus, rfl, hcovers, hcurrent⟩
      exact ⟨tool, ⟨hin, ⟨⟨⟨⟨hactive, hid⟩, hserver⟩, hstatus⟩, hcovers⟩, hcurrent⟩, rfl, rfl⟩

/-- What Main inherits of a tool. -/
theorem mem_inheritedTools : lent ∈ inheritedTools sha256 input grants tool ↔ lent.tool = tool ∧
    ∃ installation, lookupBy (·.id) (input.installations.filter fun installation => installation.status = .active)
      tool.installationId = some installation ∧ tool.serverStatus = .active ∧ tool.status = .active ∧
      ((tool.connectionRequirement = .none ∧ tool.connectionId = none ∧
          lent.grant = .inherited (connectionlessGrant sha256 input grants installation)) ∨
        ∃ connection ∈ matchingUsableConnections tool input.connections input.ownerUserId,
          lent.grant = .inherited (connectionGrant sha256 input grants installation connection) ∧
          accessCoversEffect lent.grant.access (integrationToolEffect tool.annotations)) := by
  obtain ⟨lentGrant, lentTool⟩ := lent
  unfold inheritedTools
  cases lookupBy (·.id) (input.installations.filter fun installation => installation.status = .active)
    tool.installationId with
  | none => simp
  | some installation =>
    dsimp only
    split
    · rename_i hoff
      simp only [List.not_mem_nil, Option.some.injEq, exists_eq_left', false_iff, not_and]
      intro _ hserver hstatus
      rcases hoff with hoff | hoff
      · exact (hoff hserver).elim
      · exact (hoff hstatus).elim
    · rename_i hon
      obtain ⟨hserver, hstatus⟩ : tool.serverStatus = .active ∧ tool.status = .active := by
        simpa only [not_or, not_not] using hon
      simp only [List.mem_append, List.mem_ite_nil_right, List.mem_singleton, List.mem_map, List.mem_filter,
        ResolvedEffectiveGrantTool.mk.injEq, Option.some.injEq, exists_eq_left', hserver, hstatus, true_and]
      constructor
      · rintro (⟨⟨hnone, hid⟩, rfl, rfl⟩ | ⟨grant, ⟨⟨connection, hin, rfl⟩, hcovers⟩, rfl, rfl⟩)
        · exact ⟨rfl, .inl ⟨hnone, hid, rfl⟩⟩
        · exact ⟨rfl, .inr ⟨connection, hin, rfl, hcovers⟩⟩
      · rintro ⟨rfl, ⟨hnone, hid, rfl⟩ | ⟨connection, hin, rfl, hcovers⟩⟩
        · exact .inl ⟨⟨hnone, hid⟩, rfl, rfl⟩
        · exact .inr ⟨_, ⟨⟨connection, hin, rfl⟩, hcovers⟩, rfl, rfl⟩

/-! ## Stored grants -/

/-- What a grant whose connection, if it names one, is the owner's gives. -/
theorem lends_of_stored (hgrant : grant ∈ activeGrants input) (hlent : lent ∈ storedTools input grant)
    (hlost : ¬Lost input) : Lends input lent := by
  obtain ⟨⟨installation, hinstallation, hactive⟩, htool, hid, hserver, hstatus, hgiven, hcovers, hcurrent⟩ :=
    mem_storedTools.mp hlent
  have hrow : ∃ installation ∈ input.installations,
      installation.id = lent.tool.installationId ∧ installation.status = .active :=
    ⟨installation, mem_of_lookupBy hinstallation, (key_of_lookupBy hinstallation).trans hid.symm, hactive⟩
  have howner : lent.grant.ownerUserId = input.ownerUserId := by
    rw [hgiven]
    exact (mem_activeGrants.mp hgrant).2.2
  have hconnectionId : lent.grant.connectionId = grant.connectionId := by
    rw [hgiven]
    rfl
  refine ⟨⟨htool, hstatus, hserver⟩, hrow, howner, hcovers, fun id hnamed => ?_, fun hnone => ?_⟩
  · rw [hconnectionId] at hnamed
    rw [hnamed, Option.bind_some] at hcurrent hgiven
    cases hconnection : connectionById input id with
    | none =>
      -- A connection that is not the owner's leaves the tools that need none.
      rw [hconnection] at hcurrent hgiven
      obtain ⟨hnone, hunbound⟩ := toolAuthorityIsCurrent_none.mp hcurrent
      refine (hlost ⟨grant, hgrant, id, hnamed, connectionById_eq_none.mp hconnection,
        ⟨installation, hinstallation, hactive⟩, lent.tool, htool, hid, hserver, hstatus, hnone, hunbound, ?_⟩).elim
      rw [hgiven] at hcovers
      simpa [grantWithConnectionCeiling, EffectiveIntegrationGrant.access] using hcovers
    | some connection =>
      rw [hconnection] at hcurrent hgiven
      obtain ⟨hin, hconnectionOwner, hconnectionIdEq⟩ := connectionById_eq_some hconnection
      obtain ⟨-, -, hbound, heligible⟩ := toolAuthorityIsCurrent_some.mp hcurrent
      refine ⟨connection, hin, hconnectionIdEq, hconnectionOwner, status_of_eligible heligible, heligible,
        fun bound hb => (hbound bound hb).trans hconnectionIdEq, ?_⟩
      rw [hgiven]
      exact effectiveIntegrationAccess_idem _ _
  · rw [hconnectionId] at hnone
    rw [hnone, Option.bind_none] at hcurrent
    exact (toolAuthorityIsCurrent_none.mp hcurrent).1

/-! ## Inherited grants -/

/-- What Main inherits is lent whatever the stored grants. -/
theorem lends_of_inherited (htool : tool ∈ input.tools) (hlent : lent ∈ inheritedTools sha256 input grants tool) :
    Lends input lent := by
  obtain ⟨rfl, installation, hinstallation, hserver, hstatus, hgiven⟩ := mem_inheritedTools.mp hlent
  have hrow : ∃ installation ∈ input.installations,
      installation.id = lent.tool.installationId ∧ installation.status = .active := by
    have hmem := List.mem_filter.mp (mem_of_lookupBy hinstallation)
    exact ⟨installation, hmem.1, key_of_lookupBy hinstallation, by simpa using hmem.2⟩
  rcases hgiven with ⟨hnone, hunbound, hgrant⟩ | ⟨connection, hin, hgrant, hcovers⟩
  · have hconnectionId : lent.grant.connectionId = none := by rw [hgrant]; rfl
    refine ⟨⟨htool, hstatus, hserver⟩, hrow, by rw [hgrant]; rfl, by rw [hgrant]; rfl, fun id hnamed => ?_,
      fun _ => hnone⟩
    rw [hconnectionId] at hnamed
    cases hnamed
  · obtain ⟨hin, howner, hcurrent⟩ := mem_matchingUsableConnections.mp hin
    obtain ⟨-, -, hbound, heligible⟩ := toolAuthorityIsCurrent_some.mp hcurrent
    have hconnectionId : lent.grant.connectionId = some connection.id := by rw [hgrant]; rfl
    refine ⟨⟨htool, hstatus, hserver⟩, hrow, by rw [hgrant]; rfl, hcovers, fun id hnamed => ?_, fun hnone => ?_⟩
    · obtain rfl := Option.some.inj (hconnectionId.symm.trans hnamed)
      refine ⟨connection, hin, rfl, howner, status_of_eligible heligible, heligible, hbound, ?_⟩
      rw [hgrant]
      exact effectiveIntegrationAccess_idem _ _
    · rw [hconnectionId] at hnone
      cases hnone

/-- Of several installations with one ID the last that is active, where the last is. -/
theorem lookup_active {id : IntegrationInstallationId} {installation : IntegrationInstallation}
    (h : lookupBy (·.id) input.installations id = some installation) (hactive : installation.status = .active) :
    ∃ found, lookupBy (·.id) (input.installations.filter fun installation => installation.status = .active) id =
      some found := by
  rw [← Option.isSome_iff_exists, isSome_lookupBy]
  exact List.mem_map.mpr ⟨installation, List.mem_filter.mpr ⟨mem_of_lookupBy h, by simpa using hactive⟩,
    key_of_lookupBy h⟩

/-- A tool that a grant gives by a connection of its owner, or by none, is inherited so. -/
theorem inherited_of_stored (hgrant : grant ∈ activeGrants input) (hlent : lent ∈ storedTools input grant)
    (hlost : ¬Lost input) (grants : List IntegrationGrant) : ∃ inherited ∈ inheritedTools sha256 input grants lent.tool,
      inherited.tool = lent.tool ∧ inherited.grant.connectionId = lent.grant.connectionId ∧
        integrationAccessCovers inherited.grant.access lent.grant.access := by
  have hlends := lends_of_stored hgrant hlent hlost
  obtain ⟨⟨installation, hinstallation, hactive⟩, -, hid, hserver, hstatus, hgiven, hcovers, hcurrent⟩ :=
    mem_storedTools.mp hlent
  obtain ⟨found, hfound⟩ := lookup_active hinstallation hactive
  rw [← hid] at hfound
  have hconnectionId : lent.grant.connectionId = grant.connectionId := by
    rw [hgiven]
    rfl
  cases hnamed : grant.connectionId with
  | none =>
    rw [hnamed, Option.bind_none] at hcurrent
    obtain ⟨hnone, hunbound⟩ := toolAuthorityIsCurrent_none.mp hcurrent
    refine ⟨⟨.inherited (connectionlessGrant sha256 input grants found), lent.tool⟩, ?_, rfl, ?_, ?_⟩
    · exact mem_inheritedTools.mpr ⟨rfl, found, hfound, hserver, hstatus, .inl ⟨hnone, hunbound, rfl⟩⟩
    · rw [hconnectionId, hnamed]
      rfl
    · exact integrationAccessCovers_readWrite _
  | some id =>
    rw [hnamed, Option.bind_some] at hcurrent hgiven
    cases hconnection : connectionById input id with
    | none =>
      obtain ⟨connection, hin, heq, howner, -⟩ := hlends.connection id (hconnectionId.trans hnamed)
      exact (connectionById_eq_none.mp hconnection connection hin howner heq).elim
    | some connection =>
      rw [hconnection] at hcurrent hgiven
      obtain ⟨hin, howner, rfl⟩ := connectionById_eq_some hconnection
      have hwider : integrationAccessCovers (connectionGrant sha256 input grants found connection).access
          lent.grant.access := by
        rw [hgiven]
        exact covers_effectiveIntegrationAccess grant.access (some connection)
      refine ⟨⟨.inherited (connectionGrant sha256 input grants found connection), lent.tool⟩, ?_, rfl, ?_, hwider⟩
      · refine mem_inheritedTools.mpr ⟨rfl, found, hfound, hserver, hstatus, .inr ⟨connection, ?_, rfl, ?_⟩⟩
        · exact mem_matchingUsableConnections.mpr ⟨hin, howner, hcurrent⟩
        · exact accessCoversEffect_mono hwider hcovers
      · rw [hconnectionId, hnamed]
        rfl

/-- A tool lent on a connection that is not the owner's. -/
theorem Lost.stored (h : Lost input) : ∃ grant ∈ activeGrants input, ∃ lent ∈ storedTools input grant, ∃ id,
    lent.grant.connectionId = some id ∧
      ∀ connection ∈ input.connections, connection.ownerUserId = input.ownerUserId → connection.id ≠ id := by
  obtain ⟨grant, hgrant, id, hnamed, hnot, hinstallation, tool, htool, hid, hserver, hstatus, hnone, hunbound, hcovers⟩ := h
  have hbind : grant.connectionId.bind (connectionById input) = none := by
    rw [hnamed, Option.bind_some, connectionById_eq_none]
    exact hnot
  refine ⟨grant, hgrant, ⟨.stored (grantWithConnectionCeiling grant none), tool⟩, ?_, id, hnamed, hnot⟩
  rw [mem_storedTools, hbind]
  refine ⟨hinstallation, htool, hid, hserver, hstatus, rfl, ?_, toolAuthorityIsCurrent_none.mpr ⟨hnone, hunbound⟩⟩
  simpa [grantWithConnectionCeiling, EffectiveIntegrationGrant.access] using hcovers

/-! ## Authority -/

/-- What is lent, whoever asks. -/
def OnlyLends (sha256 : List UInt8 → List UInt8) (input : ResolveEffectiveGrantsInput) : Prop :=
  ∀ lent ∈ resolveEffectiveGrants sha256 input, Lends input lent

/-- Main inherits what the stored grants give, with access at least as wide. -/
def InheritsStored (sha256 : List UInt8 → List UInt8) (input : ResolveEffectiveGrantsInput) : Prop :=
  ∀ lent ∈ resolveEffectiveGrants sha256 { input with inheritedMainAccess := false },
    ∃ inherited ∈ resolveEffectiveGrants sha256 { input with inheritedMainAccess := true },
      inherited.tool = lent.tool ∧ inherited.grant.connectionId = lent.grant.connectionId ∧
        integrationAccessCovers inherited.grant.access lent.grant.access

/-- What the stored grants give does not depend on whether Main is inherited. -/
theorem mem_stored : lent ∈ resolveEffectiveGrants sha256 { input with inheritedMainAccess := false } ↔
    ∃ grant ∈ activeGrants input, lent ∈ storedTools input grant :=
  List.mem_flatMap

theorem mem_inherited : lent ∈ resolveEffectiveGrants sha256 { input with inheritedMainAccess := true } ↔
    ∃ tool ∈ input.tools, lent ∈ inheritedTools sha256 input (activeGrants input) tool :=
  List.mem_flatMap

/-- Authority is lent and inherited as it should be but where a grant names a connection that its
owner does not have and its installation has a tool that needs none. -/
theorem authority_iff (sha256 : List UInt8 → List UInt8) (input : ResolveEffectiveGrantsInput) :
    (OnlyLends sha256 input ∧ InheritsStored sha256 input) ↔ ¬Lost input := by
  constructor
  · rintro ⟨-, hinherits⟩ hlost
    obtain ⟨grant, hgrant, lent, hlent, id, hnamed, hnot⟩ := hlost.stored
    obtain ⟨inherited, hmem, -, hsame, -⟩ := hinherits lent (mem_stored.mpr ⟨grant, hgrant, hlent⟩)
    obtain ⟨tool, htool, hgives⟩ := mem_inherited.mp hmem
    obtain ⟨connection, hin, heq, howner, -⟩ := (lends_of_inherited htool hgives).connection id (hsame.trans hnamed)
    exact hnot connection hin howner heq
  · intro hlost
    refine ⟨fun lent hlent => ?_, fun lent hlent => ?_⟩
    · unfold resolveEffectiveGrants at hlent
      split at hlent
      · obtain ⟨tool, htool, hlent⟩ := List.mem_flatMap.mp hlent
        exact lends_of_inherited htool hlent
      · obtain ⟨grant, hgrant, hlent⟩ := List.mem_flatMap.mp hlent
        exact lends_of_stored hgrant hlent hlost
    · obtain ⟨grant, hgrant, hlent⟩ := mem_stored.mp hlent
      obtain ⟨inherited, hmem, hsame⟩ := inherited_of_stored hgrant hlent hlost (activeGrants input)
      exact ⟨inherited, mem_inherited.mpr ⟨lent.tool, (mem_storedTools.mp hlent).2.1, hmem⟩, hsame⟩

/-- An installation with one tool that needs no connection, and a grant of it by a connection that is
not in the inventory. -/
def goneConnection : ResolveEffectiveGrantsInput where
  connections := []
  inheritedMainAccess := false
  installations := [⟨⟨"iin_1"⟩, .active, units "Fixture"⟩]
  ownerUserId := ⟨"usr_1"⟩
  storedGrants := [⟨.read, units "Primary", some ⟨"con_1"⟩, ⟨"igr_1"⟩, ⟨"iin_1"⟩, false, ⟨"usr_1"⟩, .active, ⟨"wsp_1"⟩⟩]
  tools := [⟨[(units "readOnlyHint", .bool true)], none, .none, ⟨"itl_1"⟩, ⟨"iin_1"⟩, ⟨"isv_1"⟩, .active, .active⟩]
  workspaceId := ⟨"wsp_1"⟩

/-- The tool is lent by the grant although the connection it names is not there. -/
theorem not_authority : ¬∀ (sha256 : List UInt8 → List UInt8) (input : ResolveEffectiveGrantsInput),
    OnlyLends sha256 input ∧ InheritsStored sha256 input := by
  intro h
  have hlost : Lost goneConnection := by
    refine ⟨_, List.mem_cons_self, ⟨"con_1"⟩, rfl, by simp [goneConnection], ⟨_, rfl, rfl⟩, _, List.mem_cons_self, rfl,
      rfl, rfl, rfl, rfl, by decide⟩
  obtain ⟨grant, hgrant, lent, hlent, id, hnamed, hnot⟩ := hlost.stored
  have hlends := (h (fun bytes => bytes) goneConnection).1 lent (mem_stored.mpr ⟨grant, hgrant, hlent⟩)
  obtain ⟨connection, hin, heq, howner, -⟩ := hlends.connection id hnamed
  exact hnot connection hin howner heq

end Opensteer.IntegrationGrants
