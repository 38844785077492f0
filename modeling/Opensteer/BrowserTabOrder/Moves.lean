import Opensteer.BrowserTabOrder.Groups

/-!
# Moving and grouping tabs

A move takes tabs out of the order and puts them in again at an index of those that stay
(`moveBrowserTabs_eq_ok`), where they fit (`landing_fits`) but for one move: tabs taken to the end
of a group of which no tab stays are put where the first of them was, which may be inside
another group (`Splits`). `groupBrowserTabs` and `ungroupBrowserTabs` never split a group.
-/

namespace Opensteer.BrowserTabOrder

open scoped List

variable {ι γ : Type} [DecidableEq ι] [DecidableEq γ] {arrangement result : BrowserTabArrangement ι γ}
  {move : BrowserTabMoveInput ι γ} {groupOf : ι → Option γ} {order moving pre post rest : List ι} {id first : ι}
  {group : γ} {index : Nat}

/-- A duplicate-free order in which each group's members are adjacent. -/
structure BrowserTabArrangement.Tidy (arrangement : BrowserTabArrangement ι γ) : Prop where
  nodup : arrangement.order.Nodup
  adjacent : Adjacent arrangement.groupOf arrangement.order

/-! ## Tabs put in again -/

/-- What stays, with what was taken put in at an index, is the order again. -/
theorem insert_perm (hnodup : order.Nodup) (hmoving : moving.Nodup) (hsub : moving ⊆ order) (index : Nat) :
    ((order.filter fun id => id ∉ moving).take index ++ moving ++
      (order.filter fun id => id ∉ moving).drop index).Perm order := by
  refine List.Perm.trans ?_ (filter_notMem_perm hnodup hmoving hsub)
  rw [List.append_assoc]
  refine (List.perm_append_comm.append_left _).trans ?_
  rw [← List.append_assoc, List.take_append_drop]

/-- Without tabs picked by `p`, the order up to the first of them and the others after it. -/
theorem filter_notMem_cut {p : ι → Bool} (hpre : ∀ id ∈ pre, ¬p id) (hfirst : p first) :
    ((pre ++ first :: post).filter fun id => id ∉ (pre ++ first :: post).filter p) =
      pre ++ post.filter fun id => !p id := by
  have heq : ((pre ++ first :: post).filter fun id => id ∉ (pre ++ first :: post).filter p) =
      (pre ++ first :: post).filter fun id => !p id := by
    refine List.filter_congr fun id hid => ?_
    simp only [List.mem_filter, hid, true_and]
    cases p id <;> rfl
  rw [heq, List.filter_append, List.filter_cons_of_neg (by simp [hfirst]), List.filter_eq_self.mpr]
  intro id hid
  simpa using hpre id hid

/-- As many stay before the first tab taken as are before it. -/
theorem staysBefore_filter {p : ι → Bool} (hpre : ∀ id ∈ pre, ¬p id) (hfirst : p first) :
    staysBefore (pre ++ first :: post) ((pre ++ first :: post).filter p) = pre.length := by
  have hmoving : (pre ++ first :: post).filter p = first :: post.filter p := by
    rw [List.filter_append, List.filter_eq_nil_iff.mpr hpre, List.nil_append, List.filter_cons_of_pos hfirst]
  have hnot : first ∉ pre := fun hin => hpre first hin hfirst
  have hat : (pre ++ first :: post).idxOf first = pre.length := by
    rw [List.idxOf_append_of_notMem hnot, List.idxOf_cons_self, Nat.add_zero]
  simp only [staysBefore, hmoving, hat, List.take_left]
  rw [List.filter_eq_self.mpr]
  intro id hid
  have hne : id ≠ first := fun heq => hnot (heq ▸ hid)
  simp [hne, hpre id hid]

omit [DecidableEq ι] in
/-- The first tab of a list that `p` picks. -/
theorem exists_first {p : ι → Bool} (h : ∃ id ∈ order, p id) : ∃ pre first post, order = pre ++ first :: post ∧
    pre = order.takeWhile (fun id => !p id) ∧ first :: post = order.dropWhile (fun id => !p id) ∧ p first ∧
      ∀ id ∈ pre, ¬p id := by
  obtain ⟨id, hid, hp⟩ := h
  have hne : order.dropWhile (fun id => !p id) ≠ [] := by
    simp only [ne_eq, List.dropWhile_eq_nil_iff, not_forall]
    exact ⟨id, hid, by simp [hp]⟩
  obtain ⟨first, post, hcut⟩ := List.exists_cons_of_ne_nil hne
  refine ⟨_, first, post, ?_, rfl, hcut.symm, ?_, fun id hid => by simpa using List.mem_takeWhile_imp hid⟩
  · rw [← hcut, List.takeWhile_append_dropWhile]
  · have := List.head?_dropWhile_not (fun id => !p id) order
    rw [hcut] at this
    simpa using this

/-- An order without duplicates is in the order of its indices. -/
theorem pairwise_idxOf (h : order.Nodup) : order.Pairwise fun a b => order.idxOf a ≤ order.idxOf b := by
  rw [List.pairwise_iff_getElem]
  intro i j hi hj hij
  rw [h.idxOf_getElem i hi, h.idxOf_getElem j hj]
  exact hij.le

/-- Tabs of the order, sorted by their indices, are those of the order. -/
theorem mergeSort_idxOf (h : order.Nodup) (hmoving : moving.Nodup) (hsub : moving ⊆ order) :
    moving.mergeSort (fun a b => decide (order.idxOf a ≤ order.idxOf b)) = order.filter fun id => id ∈ moving := by
  have hsorted : (moving.mergeSort fun a b => decide (order.idxOf a ≤ order.idxOf b)).Pairwise fun a b =>
      decide (order.idxOf a ≤ order.idxOf b) = true := by
    refine List.pairwise_mergeSort (fun a b c hab hbc => ?_) (fun a b => ?_) _
    · exact decide_eq_true ((of_decide_eq_true hab).trans (of_decide_eq_true hbc))
    · simpa using le_total _ _
  refine List.Perm.eq_of_pairwise ?_ hsorted ?_ ?_
  · intro a b _ hb hab hba
    have hb' : b ∈ order := (List.mem_filter.mp hb).1
    exact ((List.idxOf_inj hb').mp (le_antisymm (of_decide_eq_true hba) (of_decide_eq_true hab))).symm
  · exact ((pairwise_idxOf h).imp fun hab => decide_eq_true hab).sublist List.filter_sublist
  · refine (List.mergeSort_perm _ _).trans ?_
    rw [List.perm_ext_iff_of_nodup hmoving (h.filter _)]
    intro id
    simpa using fun hid => hsub hid

/-- The tabs that an item names. -/
def Takes (arrangement : BrowserTabArrangement ι γ) : MoveItem ι γ → ι → Bool
  | .tabs tabIds, id => id ∈ tabIds
  | .group group, id => arrangement.groupOf id = some group

/-- A move takes the tabs that its item names, in their order. -/
theorem movingTabs_eq_ok (h : movingTabs arrangement move = .ok moving) (hnodup : arrangement.order.Nodup) :
    moving = arrangement.order.filter (Takes arrangement move.item) := by
  unfold movingTabs at h
  cases hitem : move.item with
  | group group =>
    simp only [hitem, refuse] at h
    split at h
    · cases h
    · split at h
      · cases h
      · exact (Except.ok.inj h).symm
  | tabs tabIds =>
    simp only [hitem, refuse] at h
    split at h
    · cases h
    · rename_i hin
      have hsub : tabIds.eraseDups ⊆ arrangement.order := by
        intro id hid
        by_contra hnot
        exact hin (List.any_eq_true.mpr ⟨id, hid, by simpa using hnot⟩)
      rw [← Except.ok.inj h, mergeSort_idxOf hnodup (nodup_eraseDups tabIds) hsub]
      exact List.filter_congr fun id _ => by simp [Takes, List.mem_eraseDups]

/-- A whole group moves among the tabs out of groups. -/
theorem groupId_of_group (h : movingTabs arrangement move = .ok moving) (hitem : move.item = .group group) :
    move.groupId = none := by
  simp only [movingTabs, hitem, refuse] at h
  split at h
  · cases h
  · split at h
    · cases h
    · rename_i hnone
      simpa using hnone

/-- What a move that is not refused does. -/
theorem moveBrowserTabs_eq_ok (h : moveBrowserTabs arrangement move = .ok result) : ∃ moving index,
    movingTabs arrangement move = .ok moving ∧
      (∀ target, move.groupId = some target → ∃ id ∈ arrangement.order, arrangement.groupOf id = some target) ∧
      landingIndex arrangement move moving (arrangement.order.filter fun id => id ∉ moving) = .ok index ∧
      result.order = (arrangement.order.filter fun id => id ∉ moving).take index ++ moving ++
        (arrangement.order.filter fun id => id ∉ moving).drop index ∧
      result.groupOf = match move.item with
        | .group _ => arrangement.groupOf
        | .tabs _ => regroup arrangement.groupOf moving move.groupId := by
  unfold moveBrowserTabs at h
  simp only [refuse, bind, Except.bind] at h
  split at h
  · cases h
  · rename_i moving hmoving
    split at h
    · cases h
    · rename_i htarget
      split at h
      · cases h
      · rename_i index hindex
        refine ⟨moving, index, hmoving, fun target heq => ?_, hindex, ?_⟩
        · simpa [heq] using htarget
        · cases hitem : move.item <;> simp only [hitem, pure, Except.pure] at h <;>
            rw [← Except.ok.inj h] <;> exact ⟨rfl, rfl⟩

/-! ## Where they fit -/

/-- Tabs are moved to the end of a group of which no tab stays, and tabs of one group stay before
the first of them and after it. -/
def Splits (arrangement : BrowserTabArrangement ι γ) (move : BrowserTabMoveInput ι γ) : Prop :=
  ∃ tabIds target group, move.item = .tabs tabIds ∧ move.groupId = some target ∧ move.before = none ∧
    (∀ id ∈ arrangement.order, arrangement.groupOf id = some target → id ∈ tabIds) ∧
    (∃ id ∈ arrangement.order.takeWhile (fun id => id ∉ tabIds), arrangement.groupOf id = some group) ∧
    ∃ id ∈ arrangement.order.dropWhile (fun id => id ∉ tabIds), id ∉ tabIds ∧ arrangement.groupOf id = some group

section Landing

variable (hnodup : arrangement.order.Nodup) (hmoving : movingTabs arrangement move = .ok moving)
  (hindex : landingIndex arrangement move moving (arrangement.order.filter fun id => id ∉ moving) = .ok index)
include hnodup hmoving

/-- The tabs taken are different tabs of the order. -/
theorem moving_nodup : moving.Nodup := by
  rw [movingTabs_eq_ok hmoving hnodup]
  exact hnodup.filter _

theorem moving_subset : moving ⊆ arrangement.order := by
  rw [movingTabs_eq_ok hmoving hnodup]
  exact List.filter_subset_self _

include hindex

/-- Where no tab of the group stays, tabs that go to its end stay where the first of them was. -/
theorem landing_cut {tabIds : List ι} {target : γ} (hitem : move.item = .tabs tabIds)
    (htarget : move.groupId = some target) (hbefore : move.before = none)
    (hin : ∃ id ∈ arrangement.order, arrangement.groupOf id = some target)
    (hall : ∀ id ∈ arrangement.order, arrangement.groupOf id = some target → id ∈ tabIds) :
    ∃ first post, arrangement.order.dropWhile (fun id => id ∉ tabIds) = first :: post ∧ first ∈ tabIds ∧
      (arrangement.order.filter fun id => id ∉ moving).take index = arrangement.order.takeWhile (fun id => id ∉ tabIds) ∧
      (arrangement.order.filter fun id => id ∉ moving).drop index = post.filter fun id => id ∉ tabIds := by
  have hpick : moving = arrangement.order.filter fun id => id ∈ tabIds := by
    have := movingTabs_eq_ok hmoving hnodup
    rwa [hitem] at this
  obtain ⟨member, hmember, hgroup⟩ := hin
  obtain ⟨pre, first, post, hcut, hpre, hpost, hfirst, hnot⟩ :=
    exists_first (p := fun id => decide (id ∈ tabIds)) ⟨member, hmember, by simpa using hall member hmember hgroup⟩
  have hrest : (arrangement.order.filter fun id => id ∉ moving) = pre ++ post.filter fun id => id ∉ tabIds := by
    rw [hpick, hcut, filter_notMem_cut hnot hfirst]
    simp
  have hnone : groupRun (arrangement.order.filter fun id => id ∉ moving) target arrangement.groupOf = none := by
    refine groupRun_eq_none.mpr fun id hid hg => ?_
    have hstays := List.mem_filter.mp hid
    have hmem : id ∈ moving := hpick ▸ List.mem_filter.mpr ⟨hstays.1, by simpa using hall id hstays.1 hg⟩
    simp [hmem] at hstays
  have hlen : index = pre.length := by
    simp only [landingIndex, hbefore, htarget, hnone] at hindex
    rw [← Except.ok.inj hindex, hpick, hcut, staysBefore_filter hnot hfirst]
  simp only [decide_not]
  refine ⟨first, post, hpost.symm, by simpa using hfirst, ?_, ?_⟩
  · simp only [decide_not] at hrest
    rw [hrest, hlen, List.take_left, ← hpre]
  · simp only [decide_not] at hrest
    rw [hrest, hlen, List.drop_left]

/-- A move's tabs fit where they land, but for one that splits a group. -/
theorem landing_fits (hadj : Adjacent arrangement.groupOf arrangement.order)
    (htarget : ∀ target, move.groupId = some target → ∃ id ∈ arrangement.order, arrangement.groupOf id = some target)
    (hsplits : ¬Splits arrangement move) :
    Fits arrangement.groupOf (arrangement.order.filter fun id => id ∉ moving) index move.groupId := by
  have hrest : Adjacent arrangement.groupOf (arrangement.order.filter fun id => id ∉ moving) :=
    hadj.sublist List.filter_sublist
  have hland := hindex
  unfold landingIndex at hland
  simp only [refuse] at hland
  split at hland
  · rename_i hbefore
    split at hland
    · -- Out of groups, to the end.
      rename_i hnone
      rw [hnone, ← Except.ok.inj hland]
      exact Fits.of_end List.drop_length
    · rename_i target hgroup
      split at hland
      · -- After those of the group that stay.
        rename_i run hrun
        rw [hgroup, ← Except.ok.inj hland]
        exact Fits.of_stop hrest hrun
      · -- Every member is moving.
        rename_i hnone
        have hstays := groupRun_eq_none.mp hnone
        rw [hgroup]
        refine Fits.fresh ⟨fun group _ => ?_, fun _ heq => (nomatch heq), fun _ heq => (nomatch heq)⟩ hstays
        cases hitem : move.item with
        | group moved =>
          rw [groupId_of_group hmoving hitem] at hgroup
          cases hgroup
        | tabs tabIds =>
          have hall : ∀ id ∈ arrangement.order, arrangement.groupOf id = some target → id ∈ tabIds := by
            intro id hid hg
            by_contra hnot
            refine hstays id (List.mem_filter.mpr ⟨hid, ?_⟩) hg
            rw [movingTabs_eq_ok hmoving hnodup, hitem]
            simp [Takes, hnot]
          obtain ⟨first, post, hdrop, hfirst, hbeforeCut, hafterCut⟩ :=
            landing_cut hnodup hmoving hindex hitem hgroup hbefore (htarget target hgroup) hall
          by_contra hclear
          obtain ⟨⟨x, hx, hgx⟩, z, hz, hgz⟩ := not_clear.mp hclear
          rw [hbeforeCut] at hx
          rw [hafterCut, List.mem_filter, decide_eq_true_eq] at hz
          exact hsplits ⟨tabIds, target, group, hitem, hgroup, hbefore, hall, ⟨x, hx, hgx⟩, z,
            hdrop ▸ List.mem_cons_of_mem first hz.1, hz.2, hgz⟩
  · -- Before a tab of the place.
    rename_i tabId hbefore
    split at hland
    · cases hland
    · split at hland
      · split at hland <;> cases hland
      · rename_i hin
        split at hland
        · cases hland
        · rename_i hplace
          have hlt := List.idxOf_lt_length_of_mem (not_not.mp hin)
          rw [← not_not.mp hplace, ← Except.ok.inj hland]
          have hdrop := List.drop_eq_getElem_cons hlt
          rw [List.getElem_idxOf] at hdrop
          exact Fits.of_head hrest hdrop
  · -- Before a group, out of groups.
    split at hland
    · cases hland
    · rename_i hnone
      split at hland
      · cases hland
      · split at hland
        · rename_i run hrun
          rw [Option.not_isSome_iff_eq_none.mp hnone, ← Except.ok.inj hland]
          exact Fits.before_group hrest hrun
        · split at hland <;> cases hland

end Landing

/-! ## Moves -/

theorem moveBrowserTabs_perm (h : moveBrowserTabs arrangement move = .ok result) (htidy : arrangement.Tidy) :
    result.order.Perm arrangement.order := by
  obtain ⟨moving, index, hmoving, -, -, horder, -⟩ := moveBrowserTabs_eq_ok h
  rw [horder]
  exact insert_perm htidy.nodup (moving_nodup htidy.nodup hmoving) (moving_subset htidy.nodup hmoving) index

theorem moveBrowserTabs_adjacent (h : moveBrowserTabs arrangement move = .ok result) (htidy : arrangement.Tidy)
    (hsplits : ¬Splits arrangement move) : Adjacent result.groupOf result.order := by
  obtain ⟨moving, index, hmoving, htarget, hindex, horder, hgroupOf⟩ := moveBrowserTabs_eq_ok h
  have hfits := landing_fits htidy.nodup hmoving hindex htidy.adjacent htarget hsplits
  have hrest : Adjacent arrangement.groupOf (arrangement.order.filter fun id => id ∉ moving) :=
    htidy.adjacent.sublist List.filter_sublist
  rw [horder]
  cases hitem : move.item with
  | group group =>
    have hmembers : moving = arrangement.order.filter fun id => arrangement.groupOf id = some group := by
      have := movingTabs_eq_ok hmoving htidy.nodup
      rwa [hitem] at this
    rw [groupId_of_group hmoving hitem] at hfits
    have hfresh : Fits arrangement.groupOf (arrangement.order.filter fun id => id ∉ moving) index (some group) := by
      refine hfits.fresh fun id hid hg => ?_
      have hstays := List.mem_filter.mp hid
      have hmem : id ∈ moving := hmembers ▸ List.mem_filter.mpr ⟨hstays.1, by simpa using hg⟩
      simp [hmem] at hstays
    simp only [hgroupOf, hitem]
    refine hfresh.adjacent hrest fun id hid => ?_
    rw [hmembers] at hid
    simpa using (List.mem_filter.mp hid).2
  | tabs tabIds =>
    simp only [hgroupOf, hitem]
    exact (hfits.congr regroup_stays).adjacent (hrest.congr regroup_stays) fun id hid => regroup_of_mem hid

theorem Splits.not_adjacent (hsplits : Splits arrangement move) (h : moveBrowserTabs arrangement move = .ok result)
    (htidy : arrangement.Tidy) : ¬Adjacent result.groupOf result.order := by
  obtain ⟨moving, index, hmoving, htarget, hindex, horder, hgroupOf⟩ := moveBrowserTabs_eq_ok h
  obtain ⟨tabIds, target, group, hitem, htargetEq, hbefore, hall, ⟨x, hx, hgx⟩, z, hz, hzout, hgz⟩ := hsplits
  obtain ⟨first, post, hdrop, hfirst, htake, hdropRest⟩ :=
    landing_cut htidy.nodup hmoving hindex hitem htargetEq hbefore (htarget target htargetEq) hall
  have hmem : ∀ id, id ∈ moving ↔ id ∈ arrangement.order ∧ id ∈ tabIds := by
    intro id
    rw [movingTabs_eq_ok hmoving htidy.nodup, hitem, List.mem_filter]
    simp [Takes]
  have hout : ∀ id, id ∉ tabIds → id ∉ moving := fun id hnot hin => hnot ((hmem id).mp hin).2
  have hne : target ≠ group := by
    rintro rfl
    exact hzout (hall z ((List.dropWhile_sublist _).subset hz) hgz)
  intro hadj
  have hcontiguous := hadj group
  rw [horder, htake, hdropRest] at hcontiguous
  simp only [hgroupOf, hitem, htargetEq] at hcontiguous
  have hclear := hcontiguous.clear_of_insert (fun id hid => by simpa [hid] using hne) (List.ne_nil_of_mem ((hmem first).mpr
    ⟨(List.dropWhile_sublist _).subset (hdrop ▸ List.mem_cons_self), hfirst⟩))
  refine not_clear.mpr ⟨⟨x, hx, ?_⟩, z, ?_, ?_⟩ hclear
  · have hxout : x ∉ tabIds := by simpa using List.mem_takeWhile_imp hx
    rw [regroup_of_notMem (hout x hxout), hgx]
  · rw [hdrop] at hz
    rcases List.mem_cons.mp hz with rfl | hz
    · exact (hzout hfirst).elim
    · exact List.mem_filter.mpr ⟨hz, by simpa using hzout⟩
  · rw [regroup_of_notMem (hout z hzout), hgz]

end Opensteer.BrowserTabOrder
