import Mathlib.Data.Fintype.Defs
import Mathlib.Order.WellFounded
import Mathlib.Order.Preorder.Finite
import Opensteer.LiveWork.Model

/-!
# The order of tabs

`append` is the recursion of the source (`append_eq`). Every tab is shown once (`nodup_shownTabs`,
`mem_map_id_shownTabs`), and after its opener where no tab has opened its own opener (`shownTabs_before`).
-/

namespace Opensteer.LiveWork

open Chronicle

variable {tabs : List Tab} {items : List { tab // tab ∈ tabs }} {tab : { tab // tab ∈ tabs }}

theorem foldl_append (l items : List { tab // tab ∈ tabs }) :
    l.foldl (append tabs) items = Worklist.collect (List.mem_attach tabs) (·.1.id) (children tabs) l items := by
  induction l generalizing items with
  | nil => rw [Worklist.collect, List.foldl_nil]
  | cons tab l ih =>
    rw [List.foldl_cons, ih, append, ← Worklist.collect_append]
    rfl

theorem append_eq : append tabs items tab =
    if tab.1.id ∈ items.map (·.1.id) then items else (children tabs tab).foldl (append tabs) (items ++ [tab]) := by
  rw [append, Worklist.collect, foldl_append, List.append_nil]
  split
  · rename_i hin
    rw [Worklist.collect]
    exact (if_pos hin).symm
  · rename_i hnew
    exact (if_neg hnew).symm

/-- A tab that is there has opened the other. -/
def Opens (tabs : List Tab) (parent child : BrowserSurfaceId) : Prop :=
  ∃ tab ∈ tabs, tab.id = child ∧ opener tabs tab = some parent

def Acyclic (tabs : List Tab) : Prop := ∀ id, ¬Relation.TransGen (Opens tabs) id id

/-- The tab's opener is among the tabs. -/
def Follows (tabs : List Tab) (pre : List { tab // tab ∈ tabs }) (tab : { tab // tab ∈ tabs }) : Prop :=
  ∀ id, opener tabs tab.1 = some id → id ∈ pre.map (·.1.id)

theorem opener_eq_some {tab : Tab} {id : BrowserSurfaceId} :
    opener tabs tab = some id ↔ tab.openerId = some id ∧ id ≠ [] ∧ id ∈ tabs.map Tab.id := by
  rw [opener, Option.filter_eq_some_iff, decide_eq_true_eq]

/-- Where openers are in no cycle, they lead to a tab that has none. -/
theorem Acyclic.induction (h : Acyclic tabs) {P : Tab → Prop}
    (hstep : ∀ tab ∈ tabs, (∀ parent ∈ tabs, opener tabs tab = some parent.id → P parent) → P tab) :
    ∀ tab ∈ tabs, P tab := by
  let R (a b : { id // id ∈ tabs.map Tab.id }) : Prop := Relation.TransGen (Opens tabs) a.1 b.1
  have htrans : IsTrans _ R := ⟨fun _ _ _ hab hbc => Relation.TransGen.trans hab hbc⟩
  have hirrefl : Std.Irrefl R := ⟨fun a => h a.1⟩
  have hfinite : Finite { id // id ∈ tabs.map Tab.id } := List.finite_toSet (tabs.map Tab.id)
  have hwf : WellFounded R := Finite.wellFounded_of_trans_of_irrefl R
  have hall (id : { id // id ∈ tabs.map Tab.id }) : ∀ tab ∈ tabs, tab.id = id.1 → P tab := by
    induction id using hwf.induction with
    | _ id ih =>
      refine fun tab htab hid => hstep tab htab fun parent hparent hopener => ?_
      exact ih ⟨parent.id, List.mem_map_of_mem hparent⟩ (.single ⟨tab, htab, hid, hopener⟩) parent hparent rfl
  exact fun tab htab => hall ⟨tab.id, List.mem_map_of_mem htab⟩ tab htab rfl

/-- The tabs without an opener, with those that follow them. -/
def rooted (tabs : List Tab) : List { tab // tab ∈ tabs } :=
  Worklist.collect (List.mem_attach tabs) (·.1.id) (children tabs)
    (tabs.attach.filter fun tab => opener tabs tab.1 = none) []

theorem shownTabs_eq : shownTabs tabs =
    Worklist.collect (List.mem_attach tabs) (·.1.id) (children tabs) tabs.attach (rooted tabs) := by
  rw [shownTabs, foldl_append, foldl_append]
  rfl

theorem nodup_shownTabs (tabs : List Tab) : ((shownTabs tabs).map (·.1.id)).Nodup := by
  rw [shownTabs_eq]
  exact Worklist.nodup_collect (Worklist.nodup_collect List.nodup_nil)

theorem has_rooted : (∀ tab, opener tabs tab.1 = none → Worklist.Has (·.1.id) (rooted tabs) tab) ∧
    ∀ parent ∈ rooted tabs, ∀ child ∈ children tabs parent, Worklist.Has (·.1.id) (rooted tabs) child := by
  obtain ⟨hroots, hclosed⟩ : (∀ tab ∈ tabs.attach.filter fun tab => opener tabs tab.1 = none,
      Worklist.Has (·.1.id) (rooted tabs) tab) ∧
      ∀ parent ∈ rooted tabs, ∀ child ∈ children tabs parent, Worklist.Has (·.1.id) (rooted tabs) child :=
    Worklist.has_collect nofun
  exact ⟨fun tab hnone => hroots tab (List.mem_filter.mpr ⟨List.mem_attach _ _, decide_eq_true hnone⟩), hclosed⟩

/-- Every tab's ID is shown. -/
theorem mem_map_id_shownTabs {tab : Tab} (htab : tab ∈ tabs) : tab.id ∈ (shownTabs tabs).map (·.1.id) := by
  have hall : ∀ shown ∈ tabs.attach, Worklist.Has (·.1.id) (shownTabs tabs) shown := by
    rw [shownTabs_eq]
    exact (Worklist.has_collect fun parent hparent child hchild => .inl (has_rooted.2 parent hparent child hchild)).1
  exact hall ⟨tab, htab⟩ (List.mem_attach _ _)

/-- Without a cycle, the tabs without an opener lead to all. -/
theorem Acyclic.has_rooted (h : Acyclic tabs) (tab : { tab // tab ∈ tabs }) :
    Worklist.Has (·.1.id) (rooted tabs) tab := by
  obtain ⟨hroots, hclosed⟩ := @LiveWork.has_rooted tabs
  refine h.induction (P := fun tab => tab.id ∈ (rooted tabs).map (·.1.id)) (fun tab htab ih => ?_) tab.1 tab.2
  cases hopener : opener tabs tab with
  | none => exact hroots ⟨tab, htab⟩ hopener
  | some id =>
    obtain ⟨hid, -, hin⟩ := opener_eq_some.mp hopener
    obtain ⟨parent, hparent, rfl⟩ := List.mem_map.mp hin
    obtain ⟨shown, hshown, heq⟩ := List.mem_map.mp (ih parent hparent hopener)
    refine hclosed shown hshown ⟨tab, htab⟩ (List.mem_filter.mpr ⟨List.mem_attach _ _, decide_eq_true ?_⟩)
    rw [heq]
    exact hid

/-- Without a cycle, each tab comes after its opener. -/
theorem shownTabs_before (h : Acyclic tabs) : Before (Follows tabs) (shownTabs tabs) := by
  rw [shownTabs_eq, Worklist.collect_of_has fun tab _ => h.has_rooted tab]
  refine Worklist.collect_before (fun pre a b hfollows id hid => ?_) (fun pre parent child hchild id hid => ?_)
    (fun root hroot id hid => ?_) (Before.nil _)
  · rw [List.map_append]
    exact List.mem_append_left _ (hfollows id hid)
  · have hopener := of_decide_eq_true (List.mem_filter.mp hchild).2
    rw [(opener_eq_some.mp hid).1] at hopener
    rw [Option.some.inj hopener, List.map_append]
    exact List.mem_append_right _ List.mem_cons_self
  · have hnone := of_decide_eq_true (List.mem_filter.mp hroot).2
    rw [hid] at hnone
    cases hnone

end Opensteer.LiveWork
