import Mathlib.Logic.Function.Iterate
import Opensteer.Core.Ids
import Opensteer.Core.Json
import Opensteer.Framework.Lookup
import Opensteer.Framework.OrderedMap
import Opensteer.Framework.Worklist

/-!
# Live work

`liveWork` of `packages/client/src/host/surfaces.ts` with what it calls, in that module, `task-entries.ts` and
`waiting-requests.ts`. A session's profile, and so an item's identity, is left out.
-/

namespace Opensteer.LiveWork

/-- What the language does with texts. -/
structure Runtime where
  localeCompare : Text → Text → Ordering
  toLowerCase : Text → Text
  /-- `new URL(url).hostname`, if that does not throw. -/
  hostname : Text → Option Text

/-- `sort`, which is stable. -/
def sortBy {α : Type} (compare : α → α → Ordering) (l : List α) : List α := l.mergeSort fun a b => (compare a b).isLE

/-! ## The snapshot -/

inductive BrowserState
  | starting
  | ready
  | closing
  | closed
  | failed
deriving DecidableEq, Repr

/-- An ID as its schema accepts it: no colon is in one. -/
structure BrowserSessionId where
  text : Text
  plain : 0x3a ∉ text
deriving DecidableEq

abbrev BrowserSurfaceId := Text

structure Occupant where
  acting : Bool
  lastActiveAt : Text
deriving DecidableEq, Repr

structure CatalogTab where
  id : BrowserSurfaceId
  title : Text
  site : Text
  order : Int
  openerId : Option BrowserSurfaceId
  occupants : List Occupant
deriving DecidableEq, Repr

structure LiveTab where
  id : BrowserSurfaceId
  title : Text
  url : Text
  favicon : Option Text
deriving DecidableEq, Repr

structure BrowserSession where
  id : BrowserSessionId
  state : BrowserState
  createdAt : Option Text
  threadIds : Option (List ThreadId)
  /-- The conversations of the uses. -/
  uses : Option (List ThreadId)
  tabCatalog : Option (List CatalogTab)
  tabs : List LiveTab
deriving DecidableEq

structure ComputerApp where
  bundleId : Text
  displayName : Text
deriving DecidableEq, Repr

structure ComputerSession where
  sessionId : Text
  threadId : ThreadId
  display : Bool
  actingDisplay : Option Bool
  actingAppKeys : Option (List Text)
  apps : List ComputerApp
  openedAt : Text
deriving DecidableEq, Repr

structure ComputerUse where
  displayStreamSupported : Bool
  sessions : List ComputerSession
deriving DecidableEq, Repr

structure Machine where
  id : Text
  online : Bool
  computerUse : Option ComputerUse
deriving DecidableEq, Repr

structure Assignment where
  /-- Its status is `open`. -/
  isOpen : Bool
  parentThreadId : ThreadId
  workerThreadId : ThreadId
deriving DecidableEq, Repr

inductive ThreadStatus
  | idle
  | running
  | waiting
  | failed
  | archived
deriving DecidableEq, Repr

structure Thread where
  id : ThreadId
  askedAt : Text
  updatedAt : Text
  status : ThreadStatus
  title : Text
deriving DecidableEq, Repr

structure TaskEntry where
  thread : Thread
deriving DecidableEq, Repr

structure WaitingRequest where
  presentation : Option ThreadId
  originatingThreadId : ThreadId
  /-- The parents of the assignments that it holds up. -/
  parentThreadIds : List ThreadId
deriving DecidableEq, Repr

structure Snapshot where
  /-- `Object.values(snapshot.assignments)`. -/
  assignments : List Assignment
  browserSessions : List BrowserSession
  connected : Bool
  machines : List Machine
  tasks : Option (List TaskEntry)
  activeTasks : List TaskEntry
  waitingRequests : List WaitingRequest
deriving DecidableEq

/-! ## Surfaces -/

inductive Surface
  | browser (session : BrowserSession) (tabId : BrowserSurfaceId) (title : Text) (site favicon : Option Text)
  | app (app : ComputerApp) (appKey machineId computerSessionId : Text) (threadId : ThreadId)
  | phone (machineId computerSessionId : Text) (threadId : ThreadId)
deriving DecidableEq

structure SurfaceItem where
  key : Text
  acting : Bool
  openedAt : Text
  surface : Surface
deriving DecidableEq

/-- A tab of the catalog, or of the session where there is no catalog. -/
structure Tab where
  id : BrowserSurfaceId
  title : Text
  site : Text
  openerId : Option BrowserSurfaceId
deriving DecidableEq, Repr

section

variable (r : Runtime)

def hostName (url : Text) : Option Text :=
  if url = [] ∨ url = units "about:blank" then none else (r.hostname url).filter fun name => name ≠ []

def browserTabTitle (title url : Text) : Text :=
  if title ≠ [] then title
  else if url = [] ∨ url = units "about:blank" then units "New tab"
  else ((r.hostname url).filter fun name => name ≠ []).getD url

def isOpen (session : BrowserSession) : Bool := session.state ∈ [.starting, .ready, .closing]

/-- The tab of the occupant that acted last, the first of them if several did. -/
def browserActingTabId (session : BrowserSession) : Option BrowserSurfaceId :=
  if session.state ≠ .ready then none
  else
    let acting := (session.tabCatalog.getD []).flatMap fun tab => tab.occupants.filterMap fun occupant =>
      if occupant.acting then some (occupant.lastActiveAt, tab.id) else none
    (acting.foldl (fun latest (occupied : Text × BrowserSurfaceId) =>
      match latest with
      | none => some occupied
      | some at_ => if at_.1 < occupied.1 then some occupied else some at_) none).map Prod.snd

def browserUsedBy (session : BrowserSession) (threadId : ThreadId) : Bool :=
  (session.threadIds.any fun ids => threadId ∈ ids) || session.uses.any fun ids => threadId ∈ ids

def browserTabs (session : BrowserSession) : List Tab :=
  match session.tabCatalog with
  | some tabs =>
    (sortBy (fun left right => (compare left.order right.order).then (r.localeCompare left.id right.id)) tabs).map
      fun tab => ⟨tab.id, tab.title, tab.site, tab.openerId⟩
  | none => session.tabs.map fun tab => ⟨tab.id, tab.title, tab.url, none⟩

def children (tabs : List Tab) (tab : { tab // tab ∈ tabs }) : List { tab // tab ∈ tabs } :=
  tabs.attach.filter fun child => child.1.openerId = some tab.1.id

/-- `append`, with the tabs there are: a tab that is new goes to the end, and its children follow one after the other
(`append_eq`). -/
def append (tabs : List Tab) (items : List { tab // tab ∈ tabs }) (tab : { tab // tab ∈ tabs }) :
    List { tab // tab ∈ tabs } :=
  Worklist.collect (List.mem_attach tabs) (·.1.id) (children tabs) [tab] items

/-- The tab's opener, if it has one that is there. -/
def opener (tabs : List Tab) (tab : Tab) : Option BrowserSurfaceId :=
  tab.openerId.filter fun id => id ≠ [] ∧ id ∈ tabs.map Tab.id

/-- The tabs in the order they are shown in. -/
def shownTabs (tabs : List Tab) : List { tab // tab ∈ tabs } :=
  let roots := tabs.attach.filter fun tab => opener tabs tab.1 = none
  tabs.attach.foldl (append tabs) (roots.foldl (append tabs) [])

def browserKey (session : BrowserSession) (tabId : BrowserSurfaceId) : Text :=
  units "browser:" ++ session.id.text ++ 0x3a :: tabId

def browserItem (session : BrowserSession) (tab : Tab) : SurfaceItem where
  key := browserKey session tab.id
  acting := browserActingTabId session = some tab.id
  openedAt := session.createdAt.getD []
  surface := .browser session tab.id (browserTabTitle r tab.title tab.site) (hostName r tab.site)
    ((session.tabs.find? fun candidate => candidate.id = tab.id).bind (·.favicon))

def browserItems (session : BrowserSession) : List SurfaceItem :=
  (shownTabs (browserTabs r session)).map fun tab => browserItem r session tab.1

/-! ## Conversations -/

/-- One turn of the loop: the workers of the conversations that are there. -/
def addWorkers (assignments : List Assignment) (ids : List ThreadId) : List ThreadId :=
  assignments.foldl (fun ids assignment =>
    if assignment.isOpen && assignment.parentThreadId ∈ ids && assignment.workerThreadId ∉ ids then
      ids ++ [assignment.workerThreadId]
    else ids) ids

/-- A turn that adds nothing is the last; no more turns than there are assignments add something
(`addWorkers_conversationThreadIds`). -/
def conversationThreadIds (snapshot : Snapshot) (threadId : ThreadId) : List ThreadId :=
  Nat.iterate (addWorkers snapshot.assignments) snapshot.assignments.length [threadId]

def canWatchComputer (machine : Machine) : Bool := machine.online && machine.computerUse.any (·.displayStreamSupported)

def computerAppIdentityKey (app : ComputerApp) : Text := r.toLowerCase app.bundleId

def phoneItem (machine : Machine) (session : ComputerSession) : SurfaceItem where
  key := units "phone:" ++ machine.id
  acting := session.actingDisplay = some true
  openedAt := session.openedAt
  surface := .phone machine.id session.sessionId session.threadId

def appItem (machine : Machine) (session : ComputerSession) (app : ComputerApp) : SurfaceItem :=
  let appKey := computerAppIdentityKey r app
  { key := units "app:" ++ machine.id ++ 0x3a :: appKey
    acting := appKey ∈ session.actingAppKeys.getD []
    openedAt := session.openedAt
    surface := .app app appKey machine.id session.sessionId session.threadId }

/-- The item takes its key's place if none has it, or if it is to be shown before the one that does. -/
def hold (shownBefore : SurfaceItem → SurfaceItem → Bool) (byApp : OrderedMap Text SurfaceItem) (item : SurfaceItem) :
    OrderedMap Text SurfaceItem :=
  if (byApp.get item.key).all (shownBefore item) then byApp.set item.key item else byApp

def holdSession (byApp : OrderedMap Text SurfaceItem) (machine : Machine) (session : ComputerSession) :
    OrderedMap Text SurfaceItem :=
  if session.display then
    hold (fun item held => held.openedAt < item.openedAt) byApp (phoneItem machine session)
  else
    session.apps.foldl (fun byApp app =>
      hold (fun item held => (item.acting && !held.acting) || (item.acting == held.acting && held.openedAt < item.openedAt))
        byApp (appItem r machine session app)) byApp

def computerItems (snapshot : Snapshot) (included : ComputerSession → Bool) : List SurfaceItem :=
  if !snapshot.connected then []
  else
    let sessions := (snapshot.machines.filter canWatchComputer).flatMap fun machine =>
      ((machine.computerUse.elim [] (·.sessions)).filter included).map fun session => (machine, session)
    (sessions.foldl (fun byApp entry => holdSession r byApp entry.1 entry.2) .empty).values

def stableOrder (left right : SurfaceItem) : Ordering :=
  let key (item : SurfaceItem) : Text := match item.surface with
    | .browser session .. => units "browser:" ++ session.id.text
    | _ => item.key
  (r.localeCompare left.openedAt right.openedAt).then (r.localeCompare (key left) (key right))

def conversationSurfaces (snapshot : Snapshot) (threadId : ThreadId) : List SurfaceItem :=
  let browsers := (snapshot.browserSessions.filter fun session => isOpen session && browserUsedBy session threadId).flatMap
    (browserItems r)
  let threads := conversationThreadIds snapshot threadId
  sortBy (stableOrder r) (browsers ++ computerItems r snapshot fun session => session.threadId ∈ threads)

/-! ## Tasks -/

def compareTaskOrder (left right : Thread) : Ordering :=
  (r.localeCompare right.askedAt left.askedAt).then (r.localeCompare (units right.id.value) (units left.id.value))

def mergeTaskEntries (pages : List (List TaskEntry)) : List TaskEntry :=
  let byId := pages.flatten.foldl (fun (byId : OrderedMap ThreadId TaskEntry) entry =>
    if (byId.get entry.thread.id).all fun current => current.thread.updatedAt ≤ entry.thread.updatedAt then
      byId.set entry.thread.id entry
    else byId) .empty
  sortBy (fun left right => compareTaskOrder r left.thread right.thread) byId.values

def threadsWaitingOnReader (waiting : List WaitingRequest) : List ThreadId :=
  waiting.flatMap fun request =>
    request.presentation.toList ++ request.originatingThreadId :: request.parentThreadIds

end

/-- The loop of `threadDepth`. -/
def climb (assignments : List Assignment) (current : ThreadId) (seen : List ThreadId) (depth : Nat) : Nat :=
  match h : lookupBy Assignment.workerThreadId assignments current with
  | none => depth
  | some assignment =>
    if assignment.parentThreadId ∈ seen then depth
    else climb assignments assignment.parentThreadId (assignment.parentThreadId :: seen) (depth + 1)
termination_by (assignments.filter fun assignment => assignment.parentThreadId ∉ seen).length
decreasing_by
  rename_i hnew
  have hin := mem_of_lookupBy h
  have hfilter : (assignments.filter fun a => a.parentThreadId ∉ assignment.parentThreadId :: seen) =
      (assignments.filter fun a => a.parentThreadId ∉ seen).filter
        fun a => a.parentThreadId ≠ assignment.parentThreadId := by
    rw [List.filter_filter]
    exact List.filter_congr fun a _ => by simp
  rw [hfilter]
  exact List.length_filter_lt_length_iff_exists.mpr ⟨assignment, List.mem_filter.mpr ⟨hin, by simpa using hnew⟩, by simp⟩

def threadDepth (snapshot : Snapshot) (threadId : ThreadId) : Nat := climb snapshot.assignments threadId [threadId] 0

/-! ## The overview -/

inductive LiveWorkState
  | needsYou
  | working
  | waiting
  | idle
deriving DecidableEq, Repr

def stateRank : LiveWorkState → Nat
  | .needsYou => 0
  | .working => 1
  | .waiting => 2
  | .idle => 3

structure LiveWorkGroup where
  threadId : Option ThreadId
  title : Text
  state : LiveWorkState
  statusLine : Option Text
  surfaces : List SurfaceItem
deriving DecidableEq

section

variable (r : Runtime) (composingLabel : ThreadId → Option Text)

def statusLine (state : LiveWorkState) (threadId : ThreadId) (surfaces : List SurfaceItem) : Option Text :=
  match state with
  | .needsYou => some (units "Needs you")
  | .waiting => some (units "Waiting on someone")
  | .idle => none
  | .working =>
    match (surfaces.find? SurfaceItem.acting).map SurfaceItem.surface with
    | some (.browser _ _ title site _) =>
      some (site.elim (units "In " ++ title) fun site => units "On " ++ site)
    | some (.app app ..) => some (units "Using " ++ app.displayName)
    | _ => some ((composingLabel threadId).getD (units "Working"))

/-- The tasks that are listed. -/
def shown (snapshot : Snapshot) : List Thread :=
  (mergeTaskEntries r [snapshot.tasks.getD [], snapshot.activeTasks]).map TaskEntry.thread

/-- The surfaces that the conversations claim, and each one's own. -/
structure Claims where
  claimed : List Text := []
  surfacesByThread : OrderedMap ThreadId (List SurfaceItem) := .empty

def claim (snapshot : Snapshot) (claims : Claims) (thread : Thread) : Claims :=
  let own := (conversationSurfaces r snapshot thread.id).filter fun item => item.key ∉ claims.claimed
  { claimed := claims.claimed ++ own.map SurfaceItem.key
    surfacesByThread := claims.surfacesByThread.set thread.id own }

/-- The deepest conversations come first. -/
def byDepth (snapshot : Snapshot) (threads : List Thread) : List Thread :=
  sortBy (fun left right => compare (threadDepth snapshot right.id) (threadDepth snapshot left.id)) threads

def group (snapshot : Snapshot) (claims : Claims) (thread : Thread) : LiveWorkGroup :=
  let surfaces := (claims.surfacesByThread.get thread.id).getD []
  let state :=
    if thread.id ∈ threadsWaitingOnReader snapshot.waitingRequests then .needsYou
    else match thread.status with
      | .running => .working
      | .waiting => .waiting
      | _ => .idle
  { threadId := thread.id, title := thread.title, state, statusLine := statusLine composingLabel state thread.id surfaces
    surfaces }

/-- A browser that no conversation has claimed. -/
def unlistedGroup (session : BrowserSession) (item : SurfaceItem) : LiveWorkGroup :=
  let title := match item.surface with
    | .browser _ _ title .. => title
    | _ => []
  { threadId := session.threadIds.bind List.head?, title, state := .idle, statusLine := none, surfaces := [item] }

def liveWork (snapshot : Snapshot) : List LiveWorkGroup :=
  let shown := shown r snapshot
  let claims := (byDepth snapshot shown).foldl (claim r snapshot) {}
  let groups := (shown.map fun thread => (group composingLabel snapshot claims thread, thread.updatedAt)).filter
    fun entry => entry.1.state ≠ .idle || !entry.1.surfaces.isEmpty
  let listed := (sortBy (fun left right =>
      (compare (stateRank left.1.state) (stateRank right.1.state)).then (r.localeCompare right.2 left.2)) groups).map
    Prod.fst
  let unlisted := (snapshot.browserSessions.filter isOpen).flatMap fun session =>
    ((browserItems r session).filter fun item => item.key ∉ claims.claimed).map (unlistedGroup session)
  listed ++ unlisted

end

end Opensteer.LiveWork
