import Mathlib
import Opensteer.BrowserTabOrder.Model

/-!
# Layouts of browser tabs

A person's tab groups, and what each edit makes of them before the Host answers: the patches of
`browser-tab-groups.ts`, over the arrangements of `browser-tab-order.ts`.
-/

namespace Opensteer.BrowserTabGroups

open BrowserTabOrder

variable {ι γ : Type}

structure BrowserTabGroup (ι γ : Type) where
  id : γ
  title : String
  color : String
  collapsed : Bool
  tabIds : List ι

structure BrowserTabLayout (ι γ : Type) where
  revision : Nat
  groups : List (BrowserTabGroup ι γ)
  order : Option (List ι)

abbrev LayoutPatch (ι γ : Type) :=
  BrowserTabLayout ι γ → List (BrowserTabOrderTab ι) → BrowserTabLayout ι γ

section

variable [DecidableEq ι]

/-- A group without the tabs that `keep` leaves out, if some are left. -/
def BrowserTabGroup.keeping (keep : ι → Bool) (group : BrowserTabGroup ι γ) :
    List (BrowserTabGroup ι γ) :=
  let ids := group.tabIds.filter keep
  if ids.length = group.tabIds.length then [group]
  else if ids.isEmpty then []
  else [{ group with tabIds := ids }]

def removeGroupedTabs (layout : BrowserTabLayout ι γ) (tabIds : List ι) : BrowserTabLayout ι γ :=
  { layout with groups := layout.groups.flatMap (·.keeping fun id => id ∉ tabIds) }

/-- What `removeClosed` makes of the base. -/
def withoutClosed (layout : BrowserTabLayout ι γ) (tabIds : List ι) : BrowserTabLayout ι γ :=
  { removeGroupedTabs layout tabIds with order := layout.order.map (·.filter fun id => id ∉ tabIds) }

/-- The group of each grouped tab; of two groups with one tab the last. -/
def BrowserTabLayout.groupOf (layout : BrowserTabLayout ι γ) (id : ι) : Option γ :=
  (lookupBy Prod.fst (layout.groups.flatMap fun group => group.tabIds.map (·, group.id)) id).map
    Prod.snd

/-- The layout with the order and the members of an arrangement. A grouped tab that has no place
comes after those that have one, as the layout lists it. -/
def arrangedBrowserTabLayout [DecidableEq γ] (layout : BrowserTabLayout ι γ)
    (arrangement : BrowserTabArrangement ι γ) : BrowserTabLayout ι γ :=
  let unplaced := (layout.groups.flatMap (·.tabIds)).eraseDups.filter fun id =>
    id ∉ arrangement.order
  let members group :=
    (arrangement.order ++ unplaced).filter fun id => arrangement.groupOf id = some group
  { layout with
    order := some arrangement.order
    groups := layout.groups.flatMap fun group =>
      if (members group.id).isEmpty then [] else [{ group with tabIds := members group.id }] }

/-- A group without the tabs that join a group, or with them where it is that group, if some are left. -/
def BrowserTabGroup.joined [DecidableEq γ] (group : BrowserTabGroup ι γ) (groupId : γ) (tabIds : List ι) :
    List (BrowserTabGroup ι γ) :=
  let left := group.tabIds.filter fun id => id ∉ tabIds
  let members := if group.id = groupId then left ++ tabIds else left
  if members.isEmpty then [] else [{ group with tabIds := members }]

end

variable [LinearOrder ι] [DecidableEq γ]

def browserTabArrangement (layout : BrowserTabLayout ι γ) (tabs : List (BrowserTabOrderTab ι)) :
    BrowserTabArrangement ι γ where
  order := resolveBrowserTabOrder layout.order tabs layout.groupOf
  groupOf := layout.groupOf

structure GroupUpdate where
  title : Option String
  color : Option String
  collapsed : Option Bool

/-- `{ ...group, ...update }` -/
def GroupUpdate.apply (update : GroupUpdate) (group : BrowserTabGroup ι γ) : BrowserTabGroup ι γ :=
  { group with
    title := update.title.getD group.title
    color := update.color.getD group.color
    collapsed := update.collapsed.getD group.collapsed }

/-- A call of the client that edits the groups. A group that is new has no ID yet. -/
inductive Edit (ι γ : Type)
  | moveBrowserTabs (move : BrowserTabMoveInput ι γ)
  | groupBrowserTabs (tabIds : List ι) (groupId : Option γ)
  | ungroupBrowserTabs (tabIds : List ι)
  | updateBrowserTabGroup (groupId : γ) (update : GroupUpdate)

def Edit.patch : Edit ι γ → Option (LayoutPatch ι γ)
  | .moveBrowserTabs move => some fun layout tabs =>
    if layout.order.isNone then layout
    else match BrowserTabOrder.moveBrowserTabs (browserTabArrangement layout tabs) move with
      | .ok arrangement => arrangedBrowserTabLayout layout arrangement
      | .error _ => layout
  | .groupBrowserTabs _ none => none
  | .groupBrowserTabs tabIds (some groupId) => some fun layout tabs =>
    if layout.groups.all fun group => group.id ≠ groupId then layout
    else if layout.order.isSome then
      arrangedBrowserTabLayout layout
        (BrowserTabOrder.groupBrowserTabs (browserTabArrangement layout tabs) tabIds groupId)
    else
      { layout with groups := layout.groups.flatMap (·.joined groupId tabIds) }
  | .ungroupBrowserTabs tabIds => some fun layout tabs =>
    if layout.order.isNone then removeGroupedTabs layout tabIds
    else arrangedBrowserTabLayout layout
      (BrowserTabOrder.ungroupBrowserTabs (browserTabArrangement layout tabs) tabIds)
  | .updateBrowserTabGroup groupId update => some fun layout _ =>
    { layout with
      groups := layout.groups.map fun group =>
        if group.id = groupId then update.apply group else group }

end Opensteer.BrowserTabGroups
