import Mathlib.Data.List.TakeWhile
import Opensteer.Framework.Runs
import Opensteer.Framework.Distinct
import Opensteer.BrowserTabOrder.Model

/-!
# Adjacent groups

Each group's members are one run of the order (`Adjacent`). Tabs of one place, a group or the
top level, fit at an index of it (`Fits`) next to a tab of that place, at the end of the order or,
in a group that has no member, where no group's members stand on both sides; put there they leave
every group adjacent (`Fits.adjacent`). `groupRun` finds a group's members.
-/

namespace Opensteer.BrowserTabOrder

open scoped List

variable {ι γ : Type} {groupOf groupOf' : ι → Option γ} {order order' rest moving : List ι} {id : ι} {group : γ}
  {place : Option γ} {index : Nat}

/-- Each group's members are adjacent. -/
def Adjacent (groupOf : ι → Option γ) (order : List ι) : Prop :=
  ∀ group, Contiguous (fun id => groupOf id = some group) order

theorem Adjacent.sublist (h : Adjacent groupOf order) (hs : order' <+ order) : Adjacent groupOf order' :=
  fun group => (h group).sublist hs

theorem Adjacent.congr (h : Adjacent groupOf order) (heq : ∀ id ∈ order, groupOf' id = groupOf id) :
    Adjacent groupOf' order :=
  fun group => (h group).congr fun id hid => by rw [heq id hid]

/-- Put in at `index`, tabs of a place keep the groups adjacent. -/
structure Fits (groupOf : ι → Option γ) (order : List ι) (index : Nat) (place : Option γ) : Prop where
  clear : ∀ group, place ≠ some group →
    Clear (fun id => groupOf id = some group) (order.take index) (order.drop index)
  trailing : ∀ group, place = some group → Trailing (fun id => groupOf id = some group) (order.take index)
  leading : ∀ group, place = some group → Leading (fun id => groupOf id = some group) (order.drop index)

namespace Fits

/-- Next to the tab before the cut, where it is. -/
theorem of_last (h : Adjacent groupOf order) (hlast : (order.take index).getLast? = some id) :
    Fits groupOf order index (groupOf id) := by
  have hcut : ∀ group, Contiguous (fun id => groupOf id = some group) (order.take index ++ order.drop index) := by
    intro group
    rw [List.take_append_drop]
    exact h group
  refine ⟨fun group hne => ?_, fun group heq => ?_, fun group heq => ?_⟩
  · exact (hcut group).clear_of_last hlast hne
  · exact (hcut group).of_append.1.trailing_of_last hlast heq
  · exact (hcut group).leading_of_last hlast heq

/-- Next to the tab after the cut, where it is. -/
theorem of_head (h : Adjacent groupOf order) (hhead : order.drop index = id :: rest) :
    Fits groupOf order index (groupOf id) := by
  have hcut : ∀ group, Contiguous (fun id => groupOf id = some group) (order.take index ++ id :: rest) := by
    intro group
    rw [← hhead, List.take_append_drop]
    exact h group
  refine ⟨fun group hne => ?_, fun group heq => ?_, fun group heq => ?_⟩
  · exact hhead ▸ (hcut group).clear_of_head hne
  · exact (hcut group).trailing_of_head heq
  · exact hhead ▸ (hcut group).of_append.2.1.leading_of_head heq

/-- At the end, out of all groups. -/
theorem of_end (h : order.drop index = []) : Fits groupOf order index none :=
  ⟨fun _ _ => .inr (by simp [h]), fun _ heq => (nomatch heq), fun _ heq => (nomatch heq)⟩

/-- Right before or after a whole group, out of all groups. -/
theorem leave (h : Fits groupOf order index (some group))
    (hside : Clear (fun id => groupOf id = some group) (order.take index) (order.drop index)) :
    Fits groupOf order index none := by
  classical
  refine ⟨fun other _ => ?_, fun _ heq => (nomatch heq), fun _ heq => (nomatch heq)⟩
  by_cases hother : group = other
  · exact hother ▸ hside
  · exact h.clear other fun heq => hother (Option.some.inj heq)

/-- Of a group without members. -/
theorem fresh (h : Fits groupOf order index none) (hnone : ∀ id ∈ order, groupOf id ≠ some group) :
    Fits groupOf order index (some group) := by
  refine ⟨fun other _ => h.clear other (by simp), fun other heq => ?_, fun other heq => ?_⟩ <;>
    obtain rfl := Option.some.inj heq
  · exact .of_none fun id hid => hnone id (List.mem_of_mem_take hid)
  · exact .of_none fun id hid => hnone id (List.mem_of_mem_drop hid)

/-- Where the groups of the tabs there are the same. -/
theorem congr (h : Fits groupOf order index place) (heq : ∀ id ∈ order, groupOf' id = groupOf id) :
    Fits groupOf' order index place := by
  have htake : ∀ id ∈ order.take index, groupOf' id = groupOf id := fun id hid => heq id (List.mem_of_mem_take hid)
  have hdrop : ∀ id ∈ order.drop index, groupOf' id = groupOf id := fun id hid => heq id (List.mem_of_mem_drop hid)
  refine ⟨fun group hne => ?_, fun group hg => ?_, fun group hg => ?_⟩
  · refine (h.clear group hne).imp (fun hu id hid => ?_) (fun hv id hid => ?_)
    · simpa only [htake id hid] using hu id hid
    · simpa only [hdrop id hid] using hv id hid
  · exact (h.trailing group hg).imp_of_mem fun hx hy himp => by simpa only [htake _ hx, htake _ hy] using himp
  · exact (h.leading group hg).imp_of_mem fun hx hy himp => by simpa only [hdrop _ hx, hdrop _ hy] using himp

/-- Tabs of a place put in where they fit. -/
theorem adjacent (h : Fits groupOf order index place) (hadj : Adjacent groupOf order)
    (hplace : ∀ id ∈ moving, groupOf id = place) :
    Adjacent groupOf (order.take index ++ moving ++ order.drop index) := by
  intro group
  have hcut : Contiguous (fun id => groupOf id = some group) (order.take index ++ order.drop index) := by
    rw [List.take_append_drop]
    exact hadj group
  by_cases heq : place = some group
  · exact hcut.insert_at (fun id hid => (hplace id hid).trans heq) (h.trailing group heq) (h.leading group heq)
  · exact hcut.insert_outside (fun id hid => by rwa [hplace id hid]) (h.clear group heq)

end Fits

/-! ## Finding a group's members -/

section Runs

variable [DecidableEq γ]

/-- `groupRun` cuts the order before and after the first members that stand together. -/
theorem groupRun_eq_some {run : Nat × Nat} (h : groupRun order group groupOf = some run) :
    ∃ before first members after, order = before ++ (first :: members) ++ after ∧ run.1 = before.length ∧
      run.2 = (before ++ first :: members).length ∧ (∀ id ∈ before, groupOf id ≠ some group) ∧
      (∀ id ∈ first :: members, groupOf id = some group) ∧ ∀ id ∈ after.head?, groupOf id ≠ some group := by
  obtain ⟨start, hstart, rfl⟩ := Option.map_eq_some_iff.mp h
  obtain ⟨hlt, hfirst, hbefore⟩ := List.findIdx?_eq_some_iff_getElem.mp hstart
  have hcut : order = order.take start ++ order[start] :: order.drop (start + 1) := by
    rw [← List.drop_eq_getElem_cons hlt, List.take_append_drop]
  have hlen : (order.take start).length = start := by simp [hlt.le]
  refine ⟨order.take start, order[start], (order.drop (start + 1)).takeWhile fun id => groupOf id = some group,
    (order.drop (start + 1)).dropWhile fun id => groupOf id = some group, ?_, hlen.symm, ?_, ?_, ?_, ?_⟩
  · conv_lhs => rw [hcut]
    simp [List.takeWhile_append_dropWhile]
  · simp only [List.length_append, List.length_cons, hlen]
    omega
  · intro id hid
    obtain ⟨i, hi, rfl⟩ := List.mem_take_iff_getElem.mp hid
    simpa using hbefore i (by omega)
  · intro id hid
    rcases List.mem_cons.mp hid with rfl | hid
    · simpa using hfirst
    · simpa using List.mem_takeWhile_imp hid
  · intro id hid
    have := List.head?_dropWhile_not (fun id => decide (groupOf id = some group)) (order.drop (start + 1))
    rw [Option.mem_def] at hid
    simpa [hid] using this

theorem groupRun_eq_none : groupRun order group groupOf = none ↔ ∀ id ∈ order, groupOf id ≠ some group := by
  simp [groupRun, List.findIdx?_eq_none_iff]

/-- Before a group stands none of its members, and right after its start its first. -/
theorem groupRun_start {run : Nat × Nat} (h : groupRun order group groupOf = some run) :
    (∀ id ∈ order.take run.1, groupOf id ≠ some group) ∧
      ∃ first after, groupOf first = some group ∧ order.drop run.1 = first :: after := by
  obtain ⟨before, first, members, after, rfl, hstart, -, hbefore, hmembers, -⟩ := groupRun_eq_some h
  rw [hstart, List.append_assoc, List.take_left, List.drop_left]
  exact ⟨hbefore, first, members ++ after, hmembers first (by simp), rfl⟩

/-- Before its end stands a member of a group, and after it none of an adjacent one. -/
theorem groupRun_stop {run : Nat × Nat} (h : groupRun order group groupOf = some run) :
    ∃ last, groupOf last = some group ∧ (order.take run.2).getLast? = some last ∧ run.2 ≤ order.length ∧
      (Contiguous (fun id => groupOf id = some group) order → ∀ id ∈ order.drop run.2, groupOf id ≠ some group) := by
  obtain ⟨before, first, members, after, rfl, -, hstop, -, hmembers, hafter⟩ := groupRun_eq_some h
  rw [hstop, List.take_left, List.drop_left]
  refine ⟨(first :: members).getLast (by simp), hmembers _ (List.getLast_mem _), ?_, by simp, fun hadj id hid hg => ?_⟩
  · rw [List.getLast?_append_of_ne_nil _ (by simp), List.getLast?_eq_some_getLast (by simp)]
  · cases after with
    | nil => simp at hid
    | cons next after =>
      rcases List.mem_cons.mp hid with rfl | hid
      · exact hafter id rfl hg
      · refine hafter next rfl (hadj (x := first) (z := id) ?_ (hmembers first (by simp)) hg)
        have hnext : [next, id] <+ next :: after := (List.singleton_sublist.mpr hid).cons_cons next
        have hfirst : [first] <+ before ++ first :: members := List.singleton_sublist.mpr (by simp)
        exact hfirst.append hnext

/-- Right after a group is a place of it. -/
theorem Fits.of_stop {run : Nat × Nat} (hadj : Adjacent groupOf order) (h : groupRun order group groupOf = some run) :
    Fits groupOf order run.2 (some group) := by
  obtain ⟨last, hlast, htake, -⟩ := groupRun_stop h
  exact hlast ▸ Fits.of_last hadj htake

/-- Right after a group is out of all groups. -/
theorem Fits.after_group {run : Nat × Nat} (hadj : Adjacent groupOf order)
    (h : groupRun order group groupOf = some run) : Fits groupOf order run.2 none := by
  obtain ⟨last, hlast, htake, -, hafter⟩ := groupRun_stop h
  exact (Fits.of_stop hadj h).leave (.inr (hafter (hadj group)))

/-- Right before a group is out of all groups. -/
theorem Fits.before_group {run : Nat × Nat} (hadj : Adjacent groupOf order)
    (h : groupRun order group groupOf = some run) : Fits groupOf order run.1 none := by
  obtain ⟨hbefore, first, after, hfirst, hdrop⟩ := groupRun_start h
  have hfits : Fits groupOf order run.1 (some group) := hfirst ▸ Fits.of_head hadj hdrop
  exact hfits.leave (.inl hbefore)

end Runs

/-! ## Tabs that change groups -/

section Regroup

variable [DecidableEq ι]

@[simp] theorem regroup_of_mem {target : Option γ} (h : id ∈ moving) : regroup groupOf moving target id = target :=
  if_pos h

@[simp] theorem regroup_of_notMem {target : Option γ} (h : id ∉ moving) :
    regroup groupOf moving target id = groupOf id :=
  if_neg h

/-- Of those that stay the group is the same. -/
theorem regroup_stays {target : Option γ} :
    ∀ id ∈ order.filter (fun id => id ∉ moving), regroup groupOf moving target id = groupOf id :=
  fun _ hid => regroup_of_notMem (by simpa using (List.mem_filter.mp hid).2)

end Regroup

end Opensteer.BrowserTabOrder
