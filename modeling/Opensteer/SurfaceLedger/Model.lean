import Opensteer.Framework.Machine
import Opensteer.Framework.RecentMap

/-!
# Which navigation a commit is of

`packages/browser-runtime-core/src/browser/surface-ledger.ts`: `navigate`, and what the two handlers of commits
do on one page. A call of `navigate` is in flight until its `Page.navigate` answers or fails, in any order. The
object a call holds on to is known by the call's attempt, which no other call has, and a document's
`randomUUID` by a number. The log is what happened, for the theorems; of what is emitted it holds the
commits that are told of.
-/

namespace Opensteer.SurfaceLedger

abbrev NavigationId := String

structure NavigationBinding where
  url : String
  documentId : Nat
  sequence : Nat
  sameDocument : Bool
  /-- Undefined while awaiting the reply; null for a same-document navigation. -/
  loaderId : Option (Option String) := none
  /-- Whose object this is. -/
  attempt : Nat
deriving DecidableEq, Repr

structure NavigationCommit where
  documentId : Nat
  url : String
  sequence : Nat
  loaderId : Option String
deriving DecidableEq, Repr

/-- The answer of `Page.navigate`. -/
structure NavigateResult where
  frameId : Option String := none
  loaderId : Option String := none
  errorText : Option String := none
  isDownload : Option Bool := none
deriving DecidableEq, Repr

/-- Whether a string that may be undefined is truthy. -/
def truthy (s : Option String) : Bool := s.any (· ≠ "")

/-- `s || null`. -/
def orNull (s : Option String) : Option String := if truthy s then s else none

/-- The main frame of a `Page.frameNavigated`. -/
structure Frame where
  url : String
  urlFragment : Option String := none
  unreachableUrl : Option String := none
  loaderId : Option String := none
deriving DecidableEq, Repr

inductive Entry
  | began (navigationId : NavigationId) (attempt : Nat) (url : String) (documentId : Nat) (sequence : Nat)
  | answered (attempt : Nat) (result : NavigateResult)
  | failed (attempt : Nat)
  | committed (commit : NavigationCommit)
  /-- `navigation.committed`. -/
  | attributed (navigationId : NavigationId) (commit : NavigationCommit)
deriving DecidableEq, Repr

/-- A call in flight. -/
structure Call where
  attempt : Nat
  navigationId : Option NavigationId
deriving DecidableEq, Repr

structure State where
  commitSequence : Nat := 0
  pendingNavigations : OrderedMap NavigationId NavigationBinding := .empty
  recentCommits : OrderedMap String NavigationCommit := .empty
  navigationFailed : Bool := false
  navigationAttempt : Nat := 0
  loading : Bool := false
  committedUrl : String
  documentId : Nat := 0
  loaderId : Option String := none
  /-- `this.records.get(surfaceId) === record`. -/
  present : Bool := true
  calls : List Call := []
  log : List Entry := []

def State.push (s : State) (entry : Entry) : State := { s with log := s.log ++ [entry] }

/-- `url.split("#", 1)[0]`. -/
def withoutFragment (url : String) : List Char := url.toList.takeWhile (· ≠ '#')

def limit : Nat := 32

def setNavigationFailed (s : State) (failed : Bool) : State :=
  if !s.present || s.navigationFailed = failed then s
  else { s with navigationFailed := failed, loading := s.loading && !failed }

/-- An attempt that no other has followed has failed or not. -/
def attemptFailed (s : State) (attempt : Nat) (failed : Bool) : State :=
  if attempt = s.navigationAttempt then setNavigationFailed s failed else s

def forget (s : State) : Option NavigationId → State
  | none => s
  | some navigationId => { s with pendingNavigations := s.pendingNavigations.delete navigationId }

/-! ## Matching -/

/-- The commit that `matchNavigation` finds, and its key. -/
def matched (s : State) (pending : NavigationBinding) : Option (String × NavigationCommit) :=
  match pending.loaderId with
  | none => none
  | some none => s.recentCommits.entries.find? fun entry =>
      entry.2.loaderId = none && pending.sequence < entry.2.sequence &&
        entry.2.documentId = pending.documentId && entry.2.url = pending.url
  | some (some loaderId) => (s.recentCommits.get loaderId).map fun commit => (loaderId, commit)

def matchNavigation (s : State) (navigationId : NavigationId) (pending : NavigationBinding) : State :=
  match matched s pending with
  | none => s
  | some (key, commit) =>
    if commit.sequence ≤ pending.sequence then s
    else
      { s with
        recentCommits := s.recentCommits.delete key
        pendingNavigations := s.pendingNavigations.delete navigationId
        log := s.log ++ [Entry.attributed navigationId commit] }

/-- The key under which a commit is kept. -/
def commitKey (loaderId : Option String) (sequence : Nat) : String :=
  loaderId.getD ("same-document:" ++ toString sequence)

/-- What `navigationCommitted` does before it looks for the navigation. -/
def recordCommit (s : State) (loaderId : Option String) : State :=
  let commit := ⟨s.documentId, s.committedUrl, s.commitSequence + 1, loaderId⟩
  { s with
    commitSequence := s.commitSequence + 1
    recentCommits := s.recentCommits.setRecent limit (commitKey loaderId (s.commitSequence + 1)) commit
    log := s.log ++ [Entry.committed commit] }

def navigationCommitted (s : State) (loaderId : Option String) : State :=
  (recordCommit s loaderId).pendingNavigations.entries.foldl (fun s entry => matchNavigation s entry.1 entry.2)
    (recordCommit s loaderId)

/-! ## Calls -/

/-- `navigate`, up to its `Page.navigate`. -/
def navigate (s : State) (url : String) (navigationId : Option NavigationId) : State :=
  if !s.present then s
  else
    let attempt := s.navigationAttempt + 1
    let s := setNavigationFailed { s with navigationAttempt := attempt } false
    let s := { s with calls := s.calls ++ [⟨attempt, navigationId⟩] }
    match navigationId with
    | none => s
    | some navigationId =>
      let pending : NavigationBinding :=
        { url, documentId := s.documentId, sequence := s.commitSequence,
          sameDocument := withoutFragment url = withoutFragment s.committedUrl, attempt }
      { s with
        pendingNavigations := s.pendingNavigations.setRecent limit navigationId pending
        log := s.log ++ [Entry.began navigationId attempt url s.documentId s.commitSequence] }

/-- Whether an answer leaves nothing to wait for. -/
def settles (s : State) (pending : NavigationBinding) (result : NavigateResult) : Bool :=
  !s.present || truthy result.errorText || result.isDownload = some true ||
    !truthy result.loaderId && (!truthy result.frameId || !pending.sameDocument)

/-- The rest of `navigate`, once its `Page.navigate` has answered. -/
def answer (s : State) (call : Call) (result : NavigateResult) : State :=
  let s := (attemptFailed s call.attempt (truthy result.errorText)).push (.answered call.attempt result)
  match call.navigationId with
  | none => s
  | some navigationId =>
    match s.pendingNavigations.get navigationId with
    | none => s
    | some pending =>
      if pending.attempt ≠ call.attempt then s
      else if settles s pending result then forget s (some navigationId)
      else
        let pending := { pending with loaderId := some (orNull result.loaderId) }
        matchNavigation { s with pendingNavigations := s.pendingNavigations.set navigationId pending } navigationId pending

/-- The rest of `navigate`, once its `Page.navigate` has failed, or answered what is no such answer. -/
def fail (s : State) (call : Call) : State :=
  (attemptFailed (forget s call.navigationId) call.attempt true).push (.failed call.attempt)

/-! ## Commits -/

def frameNavigated (s : State) (frame : Frame) : State :=
  let committedUrl := frame.url ++ (frame.urlFragment.filter (·.startsWith "#")).getD ""
  let s :=
    { s with
      committedUrl
      documentId := s.documentId + 1
      loaderId := frame.loaderId
      navigationFailed := frame.unreachableUrl.isSome || committedUrl.startsWith "chrome-error://" }
  if truthy frame.loaderId then navigationCommitted s frame.loaderId else s

def navigatedWithinDocument (s : State) (url : String) (fragment : Bool) : State :=
  let s := { s with committedUrl := url }
  if fragment then navigationCommitted s none else s

/-- The page closes. -/
def disposeRecord (s : State) : State :=
  { s with present := false, pendingNavigations := .empty, recentCommits := .empty }

inductive Action
  | navigate (url : String) (navigationId : Option NavigationId)
  | answer (attempt : Nat) (result : NavigateResult)
  | fail (attempt : Nat)
  | frameNavigated (frame : Frame)
  | navigatedWithinDocument (url : String) (fragment : Bool)
  | close
deriving DecidableEq, Repr

/-- The call of an attempt, and the state without it in flight. -/
def takeCall (s : State) (attempt : Nat) : Option (Call × State) :=
  (s.calls.find? fun call => call.attempt = attempt).map fun call =>
    (call, { s with calls := s.calls.filter fun call => call.attempt ≠ attempt })

/-- The handlers of a page that has closed are off. -/
def step (s : State) : Action → Option State
  | .navigate url navigationId => some (navigate s url navigationId)
  | .answer attempt result => (takeCall s attempt).map fun (call, s) => answer s call result
  | .fail attempt => (takeCall s attempt).map fun (call, s) => fail s call
  | .frameNavigated frame => if s.present then some (frameNavigated s frame) else none
  | .navigatedWithinDocument url fragment => if s.present then some (navigatedWithinDocument s url fragment) else none
  | .close => if s.present then some (disposeRecord s) else none

def ledger : Machine State Action := ⟨step⟩

/-- A page at its first document. -/
def start (url : String) : State := { committedUrl := url }

/-- No two calls have one navigation id. -/
def Distinct (s : State) (a : Action) : Prop :=
  ∀ url navigationId, a = .navigate url (some navigationId) →
    ∀ attempt url documentId sequence, Entry.began navigationId attempt url documentId sequence ∉ s.log

end Opensteer.SurfaceLedger
