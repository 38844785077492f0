import Mathlib.Data.List.Sort
import Opensteer.Framework.Lookup
import Mathlib.Data.List.Dedup
import Mathlib.Order.Basic

/-!
# The order of a person's browser tabs

`packages/core/src/browser-tab-order.ts`: the saved tabs in their order, with their groups.
The IDs of tabs and groups are of any types, those of tabs with an order (`a.id < b.id`
compares strings); a timestamp is the number that `Date.parse` makes of it.
-/

namespace Opensteer.BrowserTabOrder

variable {ι γ : Type}

/-- A person's saved tabs in their order, with the group of each grouped tab. -/
structure BrowserTabArrangement (ι γ : Type) where
  order : List ι
  groupOf : ι → Option γ

/-- What placing a tab that has no saved place needs to know about it. -/
structure BrowserTabOrderTab (ι : Type) where
  id : ι
  openerId : Option ι
  createdAt : Int
  lineageCreatedAt : Int
  order : Int
deriving DecidableEq

inductive MoveItem (ι γ : Type)
  | tabs (tabIds : List ι)
  | group (groupId : γ)

inductive MoveAnchor (ι γ : Type)
  | tab (tabId : ι)
  | group (groupId : γ)

/-- A `BrowserTabMoveInput`; `groupId` and `before` are of its `to`. -/
structure BrowserTabMoveInput (ι γ : Type) where
  item : MoveItem ι γ
  groupId : Option γ
  before : Option (MoveAnchor ι γ)

inductive RefusalCode
  | badRequest | conflict | notFound
deriving DecidableEq, Repr

structure Refusal where
  code : RefusalCode
  message : String
deriving DecidableEq, Repr

def refuse {α : Type} (code : RefusalCode) (message : String) : Except Refusal α := .error ⟨code, message⟩

section Runs

variable [DecidableEq γ]

/-- Where a group's adjacent members start and end (exclusive), or none when none is present. -/
def groupRun (order : List ι) (group : γ) (groupOf : ι → Option γ) : Option (Nat × Nat) :=
  (order.findIdx? fun id => groupOf id = some group).map fun start =>
    (start, start + 1 + ((order.drop (start + 1)).takeWhile fun id => groupOf id = some group).length)

variable [DecidableEq ι]

/-- Past the tabs right after `at` that the same opener opened, never into another group. -/
def chainEnd (order : List ι) («at» : Nat) (openerId : Option ι) (group : Option γ)
    (byId : ι → Option (BrowserTabOrderTab ι)) (groupOf : ι → Option γ) : Nat :=
  «at» + 1 + ((order.drop («at» + 1)).takeWhile fun id =>
    groupOf id = group ∧ (byId id).map (·.openerId) = some openerId).length

end Runs

/-! ## Placing tabs -/

section Resolve

variable [LinearOrder ι] [DecidableEq γ]

/-- Right after the tab that opened it, after that tab's group when it is grouped, and after the
tabs it opened before, else at the end. -/
def topLevelPlace (order : List ι) (openerId : Option ι) (byId : ι → Option (BrowserTabOrderTab ι))
    (groupOf : ι → Option γ) : Nat :=
  match openerId.filter fun openerId => openerId ∈ order with
  | none => order.length
  | some opener =>
    let openerAt := order.idxOf opener
    let after := match groupOf opener with
      | none => openerAt
      | some openerGroup => ((groupRun order openerGroup groupOf).map fun run => run.2 - 1).getD openerAt
    chainEnd order after openerId none byId groupOf

def placeOf (order : List ι) (tab : BrowserTabOrderTab ι) (byId : ι → Option (BrowserTabOrderTab ι))
    (groupOf : ι → Option γ) : Nat :=
  match groupOf tab.id with
  | none => topLevelPlace order tab.openerId byId groupOf
  | some group =>
    match groupRun order group groupOf with
    | none => topLevelPlace order tab.openerId byId groupOf
    | some run =>
      match tab.openerId.filter fun openerId => openerId ∈ order with
      | none => run.2
      | some opener =>
        if groupOf opener = some group then
          chainEnd order (order.idxOf opener) tab.openerId (some group) byId groupOf
        else run.2

/-- `recorded`, as an order: what was recorded no later. -/
def recorded (a b : BrowserTabOrderTab ι) : Bool :=
  if a.createdAt ≠ b.createdAt then a.createdAt < b.createdAt
  else if a.lineageCreatedAt ≠ b.lineageCreatedAt then a.lineageCreatedAt < b.lineageCreatedAt
  else if a.order ≠ b.order then a.order < b.order
  else a.id ≤ b.id

/-- The tab with an ID; of tabs with one ID the last. -/
def byId (tabs : List (BrowserTabOrderTab ι)) (id : ι) : Option (BrowserTabOrderTab ι) := lookupBy (·.id) tabs id

/-- The saved places, each tab once. -/
def placed (saved : List ι) (tabs : List (BrowserTabOrderTab ι)) : List ι :=
  (saved.filter fun id => (byId tabs id).isSome).eraseDups

/-- The tabs that have no saved place, in the order they were recorded. -/
def unplacedTabs (saved : List ι) (tabs : List (BrowserTabOrderTab ι)) : List (BrowserTabOrderTab ι) :=
  (tabs.filter fun tab => tab.id ∉ placed saved tabs).mergeSort recorded

/-- `order.splice(placeOf(order, tab, byId, groupOf), 0, tab.id)`. -/
def place (byId : ι → Option (BrowserTabOrderTab ι)) (groupOf : ι → Option γ) (order : List ι)
    (tab : BrowserTabOrderTab ι) : List ι :=
  let index := placeOf order tab byId groupOf
  order.take index ++ tab.id :: order.drop index

def resolveBrowserTabOrder (saved : Option (List ι)) (tabs : List (BrowserTabOrderTab ι))
    (groupOf : ι → Option γ) : List ι :=
  let order := placed (saved.getD []) tabs
  let unplaced := (tabs.filter fun tab => tab.id ∉ order).mergeSort recorded
  unplaced.foldl (place (byId tabs) groupOf) order

end Resolve

/-! ## Moves -/

section Move

variable [DecidableEq ι] [DecidableEq γ]

def MoveItem.isGroup : MoveItem ι γ → γ → Bool
  | .group moved, groupId => moved = groupId
  | .tabs _, _ => false

/-- The tabs a move takes, in their order. -/
def movingTabs (arrangement : BrowserTabArrangement ι γ) (move : BrowserTabMoveInput ι γ) :
    Except Refusal (List ι) :=
  let order := arrangement.order
  match move.item with
  | .group group =>
    let moving := order.filter fun id => arrangement.groupOf id = some group
    if moving.isEmpty then refuse .notFound "Tab group not found."
    else if move.groupId.isSome then refuse .badRequest "A tab group can't go inside a group."
    else .ok moving
  | .tabs tabIds =>
    let moving := tabIds.eraseDups
    if moving.any fun id => id ∉ order then refuse .notFound "A tab is not one of your saved tabs."
    else .ok (moving.mergeSort fun a b => order.idxOf a ≤ order.idxOf b)

/-- How many of the tabs before a tab stay. -/
def staysBefore (order moving : List ι) : Nat :=
  let before := match moving with
    | first :: _ => order.take (order.idxOf first)
    | [] => order.dropLast
  (before.filter fun id => id ∉ moving).length

/-- Where among the tabs that stay the others land. -/
def landingIndex (arrangement : BrowserTabArrangement ι γ) (move : BrowserTabMoveInput ι γ)
    (moving rest : List ι) : Except Refusal Nat :=
  let order := arrangement.order
  let groupOf := arrangement.groupOf
  match move.before with
  | none =>
    match move.groupId with
    | none => .ok rest.length
    | some target =>
      match groupRun rest target groupOf with
      | some run => .ok run.2
      -- Every member is moving.
      | none => .ok (staysBefore order moving)
  | some (.tab tabId) =>
    if tabId ∈ moving then refuse .badRequest "A tab can't land before itself."
    else if tabId ∉ rest then
      if tabId ∈ order then
        refuse .badRequest "Tabs can't land before a tab of the group that is moving."
      else refuse .notFound "The tab to land before is not one of your saved tabs."
    else if groupOf tabId ≠ move.groupId then
      refuse .conflict "The tab to land before is no longer in that place."
    else .ok (rest.idxOf tabId)
  | some (.group groupId) =>
    if move.groupId.isSome then
      refuse .badRequest "Inside a group, tabs land before a tab, never a group."
    else if move.item.isGroup groupId then
      refuse .badRequest "A group can't land before itself."
    else
      match groupRun rest groupId groupOf with
      | some run => .ok run.1
      | none =>
        if order.any fun id => groupOf id = some groupId then
          refuse .badRequest "Tabs can't land before the group they are all leaving."
        else refuse .conflict "The group to land before is no longer there."

/-- The groups once tabs took the destination's, or left theirs for the top level. -/
def regroup (groupOf : ι → Option γ) (moving : List ι) (target : Option γ) (id : ι) : Option γ :=
  if id ∈ moving then target else groupOf id

def moveBrowserTabs (arrangement : BrowserTabArrangement ι γ) (move : BrowserTabMoveInput ι γ) :
    Except Refusal (BrowserTabArrangement ι γ) := do
  let order := arrangement.order
  let groupOf := arrangement.groupOf
  let moving ← movingTabs arrangement move
  if move.groupId.any fun target => !order.any fun id => groupOf id = some target then
    refuse .notFound "Tab group not found."
  else
    let rest := order.filter fun id => id ∉ moving
    let index ← landingIndex arrangement move moving rest
    let nextOrder := rest.take index ++ moving ++ rest.drop index
    match move.item with
    | .group _ => return ⟨nextOrder, groupOf⟩
    | .tabs _ => return ⟨nextOrder, regroup groupOf moving move.groupId⟩

/-- Where a new group forms: where its earliest tab was, or right after the group that tab
leaves when it sat inside one. -/
def formingIndex (arrangement : BrowserTabArrangement ι γ) (joining rest : List ι) : Nat :=
  let groupOf := arrangement.groupOf
  let index := staysBefore arrangement.order joining
  let split := if 0 < index ∧ index < rest.length then (rest[index - 1]?).bind groupOf else none
  match split with
  | none => index
  | some group =>
    if (rest[index]?).bind groupOf = some group then
      ((groupRun rest group groupOf).map Prod.snd).getD index
    else index

def groupBrowserTabs (arrangement : BrowserTabArrangement ι γ) (tabIds : List ι) (groupId : γ) :
    BrowserTabArrangement ι γ :=
  let order := arrangement.order
  let groupOf := arrangement.groupOf
  let joining := order.filter fun id => id ∈ tabIds ∧ groupOf id ≠ some groupId
  if joining.isEmpty then arrangement
  else if order.any fun id => groupOf id = some groupId then
    match moveBrowserTabs arrangement ⟨.tabs joining, some groupId, none⟩ with
    | .ok result => result
    | .error _ => arrangement
  else
    let rest := order.filter fun id => id ∉ joining
    let index := formingIndex arrangement joining rest
    ⟨rest.take index ++ joining ++ rest.drop index, regroup groupOf joining (some groupId)⟩

/-- What `ungroupBrowserTabs` does of one group. -/
def leaveGroup (leaving : List ι) (arrangement : BrowserTabArrangement ι γ) (group : γ) :
    BrowserTabArrangement ι γ :=
  let order := arrangement.order
  let members := order.filter fun id => arrangement.groupOf id = some group
  let out := members.filter fun id => id ∈ leaving
  let groupOf := regroup arrangement.groupOf out none
  if out.length = members.length then ⟨order, groupOf⟩
  else
    let rest := order.filter fun id => id ∉ out
    let stop := ((groupRun rest group groupOf).map Prod.snd).getD rest.length
    ⟨rest.take stop ++ out ++ rest.drop stop, groupOf⟩

def ungroupBrowserTabs (arrangement : BrowserTabArrangement ι γ) (tabIds : List ι) : BrowserTabArrangement ι γ :=
  let leaving := (tabIds.filter fun id => (arrangement.groupOf id).isSome).eraseDups
  let groups := (leaving.filterMap arrangement.groupOf).eraseDups
  groups.foldl (leaveGroup leaving) arrangement

end Move

end Opensteer.BrowserTabOrder
