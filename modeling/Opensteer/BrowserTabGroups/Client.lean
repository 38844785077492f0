import Opensteer.BrowserTabGroups.Layout
import Opensteer.Framework.Machine

/-!
# Tab groups that are being edited

`BrowserTabGroupClient`: an edit is drawn over the newest layout at once, and sent when the one
before it has settled. What happens around the client is in its actions: a layout arrives, an edit's
turn comes (`begin_`), its answer arrives (`answer`), the signed-in person changes (`authority`), or
the open tabs do.

An edit is named by the number of them before it. `shown` is the layout last published or returned,
with the open tabs it was drawn for; `since` and `arrived`, which the client does not have, say how
many edits were made before the last empty layout, and which revisions arrived since, in this
authority.
-/

namespace Opensteer.BrowserTabGroups

open BrowserTabOrder

inductive Phase
  /-- Behind the edit before it. -/
  | waiting
  | sending
  | settled
deriving DecidableEq

/-- A call of `#change`. `based` is that there was a layout to draw it over, and `after` the edit
whose request was the tail. -/
structure Change (ι γ : Type) where
  scope : Nat
  patch : Option (LayoutPatch ι γ)
  based : Bool
  after : Option Nat
  phase : Phase := .waiting

structure World (ι γ : Type) where
  base : Option (BrowserTabLayout ι γ) := none
  /-- `none` is -1. -/
  scope : Option Nat := none
  pending : List (Nat × LayoutPatch ι γ) := []
  tail : Option Nat := none
  changes : List (Change ι γ) := []
  authority : Nat := 0
  tabs : List (BrowserTabOrderTab ι) := []
  shown : Option (BrowserTabLayout ι γ) := none
  shownTabs : List (BrowserTabOrderTab ι) := []
  since : Nat := 0
  arrived : List Nat := []

inductive Action (ι γ : Type)
  | receive (layout : Option (BrowserTabLayout ι γ))
  | project
  | change (edit : Edit ι γ)
  | begin_ (edit : Nat)
  /-- The answer of the Host, or none for an error. -/
  | answer (edit : Nat) (layout : Option (BrowserTabLayout ι γ))
  | removeClosed (tabIds : List ι)
  | authority (generation : Nat)
  | tabs (tabs : List (BrowserTabOrderTab ι))

variable {ι γ : Type}

namespace World

variable (w : World ι γ)

def project : Option (BrowserTabLayout ι γ) :=
  w.base.map fun layout => w.pending.foldl (fun layout entry => entry.2 layout w.tabs) layout

/-- `project()` is published, or returned. -/
def show_ : World ι γ := { w with shown := w.project, shownTabs := w.tabs }

/-- What `receive` does first. -/
def takeUp : World ι γ :=
  if w.scope = some w.authority then w
  else { w with
    scope := some w.authority
    pending := []
    base := none
    tail := none
    since := w.changes.length
    arrived := [] }

def receive (layout : Option (BrowserTabLayout ι γ)) : World ι γ :=
  let w := w.takeUp
  match layout with
  | none => { w with base := none, pending := [], since := w.changes.length, arrived := [] }.show_
  | some layout =>
    let arrived := w.arrived ++ [layout.revision]
    if w.base.all fun base => base.revision ≤ layout.revision then
      { w with base := some layout, arrived }.show_
    else { w with arrived }.show_

def change (patch : Option (LayoutPatch ι γ)) : World ι γ :=
  let token := w.changes.length
  let changed := { w with
    changes := w.changes ++ [⟨w.authority, patch, w.base.isSome, w.tail, .waiting⟩]
    tail := some token }
  match patch, w.base with
  | some patch, some _ => { changed with pending := w.pending ++ [(token, patch)] }.show_
  | _, _ => changed

def settled (edit : Nat) : Bool := (w.changes[edit]?).any (·.phase = .settled)

def put (edit : Nat) (c : Change ι γ) : World ι γ := { w with changes := w.changes.set edit c }

def forget (edit : Nat) : World ι γ := { w with pending := w.pending.filter (·.1 ≠ edit) }

end World

def step [LinearOrder ι] [DecidableEq γ] (w : World ι γ) : Action ι γ → Option (World ι γ)
  | .receive layout => some (w.receive layout)
  | .project => some w.show_
  | .change edit => some (w.change edit.patch)
  | .begin_ edit =>
    match w.changes[edit]? with
    | some c =>
      if c.phase = .waiting ∧ c.after.all w.settled then
        -- Another account's edit throws, and is not sent.
        some (w.put edit { c with phase := if c.scope = w.authority then .sending else .settled })
      else none
    | none => none
  | .answer edit layout =>
    match w.changes[edit]? with
    | some c =>
      if c.phase = .sending then
        let w := w.put edit { c with phase := .settled }
        some <|
          if c.scope = w.authority then
            match layout with
            | some layout =>
              let w := { w.forget edit with arrived := w.arrived ++ [layout.revision] }
              if w.base.all fun base => base.revision < layout.revision then
                { w with base := some layout }.show_
              else w.show_
            | none => (w.forget edit).show_
          else w
      else none
    | none => none
  | .removeClosed tabIds => some { w with base := w.base.map (withoutClosed · tabIds) }.show_
  | .authority generation =>
    if w.authority < generation then some { w with authority := generation } else none
  | .tabs tabs => some { w with tabs }

def machine [LinearOrder ι] [DecidableEq γ] : Machine (World ι γ) (Action ι γ) where
  step := step

/-- A change of authority is taken up by `receive` before another call, as the session's client does
in the step that changes it. -/
def TakenUp (w : World ι γ) : Action ι γ → Prop
  | .project | .change _ | .removeClosed _ => w.scope = some w.authority
  | _ => True

instance (w : World ι γ) : (a : Action ι γ) → Decidable (TakenUp w a)
  | .project | .change _ | .removeClosed _ =>
    inferInstanceAs (Decidable (w.scope = some w.authority))
  | .receive _ | .begin_ _ | .answer _ _ | .authority _ | .tabs _ => isTrue trivial

end Opensteer.BrowserTabGroups
