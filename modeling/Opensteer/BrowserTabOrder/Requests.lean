import Opensteer.BrowserTabOrder.Moves

/-!
# Requests on a person's tabs

Grouping and ungrouping tabs keep a tidy arrangement tidy, whatever the tabs and the group, and so
does a move that does not split a group (`answer_tidy_iff`).
-/

namespace Opensteer.BrowserTabOrder

open scoped List

variable {ι γ : Type} [DecidableEq ι] [DecidableEq γ] {arrangement result : BrowserTabArrangement ι γ}
  {groupOf : ι → Option γ} {order rest joining leaving tabIds : List ι} {id : ι} {group groupId : γ}

/-! ## Grouping tabs -/

/-- A new group forms out of all groups. -/
theorem formingIndex_fits (hrest : Adjacent arrangement.groupOf rest) :
    Fits arrangement.groupOf rest (formingIndex arrangement joining rest) none := by
  unfold formingIndex
  generalize staysBefore arrangement.order joining = index
  dsimp only
  by_cases hcut : 0 < index ∧ index < rest.length
  · have hat : rest[index - 1]? = some rest[index - 1] := List.getElem?_eq_getElem (by omega)
    have hlast : (rest.take index).getLast? = some rest[index - 1] := by
      rw [List.getLast?_take, if_neg (by omega), hat, Option.some_or]
    have hlastFits := Fits.of_last hrest hlast
    rw [if_pos hcut, hat, Option.bind_some]
    generalize hlastGroup : arrangement.groupOf rest[index - 1] = lastGroup at hlastFits
    cases lastGroup with
    | none => exact hlastFits
    | some group =>
      dsimp only
      rw [List.getElem?_eq_getElem hcut.2, Option.bind_some]
      by_cases hnext : arrangement.groupOf rest[index] = some group
      · rw [if_pos hnext]
        cases hrun : groupRun rest group arrangement.groupOf with
        | none => exact (groupRun_eq_none.mp hrun _ (List.getElem_mem hcut.2) hnext).elim
        | some run => exact Fits.after_group hrest hrun
      · rw [if_neg hnext]
        exact hlastFits.leave ((Fits.of_head hrest (List.drop_eq_getElem_cons hcut.2)).clear group hnext)
  · rw [if_neg hcut]
    rcases Nat.eq_zero_or_pos index with rfl | hpos
    · exact ⟨fun _ _ => .inl (by simp), fun _ heq => (nomatch heq), fun _ heq => (nomatch heq)⟩
    · exact Fits.of_end (List.drop_eq_nil_of_le (not_lt.mp fun hlt => hcut ⟨hpos, hlt⟩))

omit [DecidableEq γ] in
/-- Tabs that join a group of which others are tabs split no group. -/
theorem not_splits_of_stays (hmember : ∃ id ∈ arrangement.order, arrangement.groupOf id = some groupId)
    (hjoining : ∀ id ∈ joining, arrangement.groupOf id ≠ some groupId) :
    ¬Splits arrangement ⟨.tabs joining, some groupId, none⟩ := by
  rintro ⟨tabIds, target, group, htabs, htarget, -, hall, -⟩
  obtain ⟨id, hid, hg⟩ := hmember
  cases htabs
  cases htarget
  exact hjoining id (hall id hid hg) hg

theorem groupBrowserTabs_tidy (htidy : arrangement.Tidy) (tabIds : List ι) (groupId : γ) :
    (groupBrowserTabs arrangement tabIds groupId).order.Perm arrangement.order ∧
      Adjacent (groupBrowserTabs arrangement tabIds groupId).groupOf
        (groupBrowserTabs arrangement tabIds groupId).order := by
  unfold groupBrowserTabs
  dsimp only
  generalize hjoining : (arrangement.order.filter fun id => id ∈ tabIds ∧ arrangement.groupOf id ≠ some groupId) = joining
  have hin : ∀ id ∈ joining, arrangement.groupOf id ≠ some groupId := by
    intro id hid
    rw [← hjoining, List.mem_filter, decide_eq_true_eq] at hid
    exact hid.2.2
  split
  · exact ⟨.refl _, htidy.adjacent⟩
  · split
    · rename_i hmember
      split
      · rename_i result hmove
        refine ⟨moveBrowserTabs_perm hmove htidy, moveBrowserTabs_adjacent hmove htidy ?_⟩
        exact not_splits_of_stays (by simpa using hmember) hin
      · exact ⟨.refl _, htidy.adjacent⟩
    · rename_i hnew
      have hrest : Adjacent arrangement.groupOf (arrangement.order.filter fun id => id ∉ joining) :=
        htidy.adjacent.sublist List.filter_sublist
      have hfits : Fits arrangement.groupOf (arrangement.order.filter fun id => id ∉ joining)
          (formingIndex arrangement joining (arrangement.order.filter fun id => id ∉ joining)) (some groupId) := by
        refine (formingIndex_fits hrest).fresh fun id hid hg => hnew ?_
        exact List.any_eq_true.mpr ⟨id, (List.mem_filter.mp hid).1, by simpa using hg⟩
      refine ⟨?_, (hfits.congr regroup_stays).adjacent (hrest.congr regroup_stays) fun id hid => regroup_of_mem hid⟩
      exact insert_perm htidy.nodup (hjoining ▸ htidy.nodup.filter _)
        (hjoining ▸ List.filter_subset_self _) _

/-! ## Taking tabs out of their groups -/

/-- Once all of a group left, the other groups are as before. -/
theorem regroup_adjacent (hadj : Adjacent groupOf order)
    (hout : leaving = order.filter fun id => groupOf id = some group) :
    Adjacent (regroup groupOf leaving none) order := by
  intro other
  have hmem : ∀ id ∈ order, id ∈ leaving ↔ groupOf id = some group := by
    intro id hid
    rw [hout, List.mem_filter, decide_eq_true_eq]
    exact and_iff_right hid
  by_cases hother : group = other
  · refine .of_none fun id hid hg => ?_
    by_cases hin : id ∈ leaving
    · rw [regroup_of_mem hin] at hg
      cases hg
    · rw [regroup_of_notMem hin, ← hother] at hg
      exact hin ((hmem id hid).mpr hg)
  · refine (hadj other).congr fun id hid => ?_
    by_cases hin : id ∈ leaving
    · rw [regroup_of_mem hin, (hmem id hid).mp hin]
      simp [hother]
    · rw [regroup_of_notMem hin]

theorem leaveGroup_tidy (htidy : arrangement.Tidy) (leaving : List ι) (group : γ) :
    (leaveGroup leaving arrangement group).order.Perm arrangement.order ∧
      Adjacent (leaveGroup leaving arrangement group).groupOf (leaveGroup leaving arrangement group).order := by
  unfold leaveGroup
  dsimp only
  generalize hmembers : (arrangement.order.filter fun id => arrangement.groupOf id = some group) = members
  generalize hout : (members.filter fun id => id ∈ leaving) = out
  have hsub : out <+ members := hout ▸ List.filter_sublist
  have hsubOrder : out <+ arrangement.order := hsub.trans (hmembers ▸ List.filter_sublist)
  split
  · rename_i hlen
    exact ⟨.refl _, regroup_adjacent htidy.adjacent ((hsub.eq_of_length hlen).trans hmembers.symm)⟩
  · rename_i hlen
    have hrest : Adjacent (regroup arrangement.groupOf out none) (arrangement.order.filter fun id => id ∉ out) :=
      (htidy.adjacent.sublist List.filter_sublist).congr regroup_stays
    refine ⟨insert_perm htidy.nodup (htidy.nodup.sublist hsubOrder) hsubOrder.subset _, ?_⟩
    cases hrun : groupRun (arrangement.order.filter fun id => id ∉ out) group (regroup arrangement.groupOf out none) with
    | some run => exact (Fits.after_group hrest hrun).adjacent hrest fun id hid => regroup_of_mem hid
    | none => exact (Fits.of_end List.drop_length).adjacent hrest fun id hid => regroup_of_mem hid

theorem ungroupBrowserTabs_tidy (htidy : arrangement.Tidy) (tabIds : List ι) :
    (ungroupBrowserTabs arrangement tabIds).order.Perm arrangement.order ∧
      Adjacent (ungroupBrowserTabs arrangement tabIds).groupOf (ungroupBrowserTabs arrangement tabIds).order := by
  unfold ungroupBrowserTabs
  dsimp only
  generalize (List.filterMap arrangement.groupOf _).eraseDups = groups
  generalize (List.filter _ tabIds).eraseDups = leaving
  induction groups generalizing arrangement with
  | nil => exact ⟨.refl _, htidy.adjacent⟩
  | cons group groups ih =>
    have hleave := leaveGroup_tidy htidy leaving group
    have hnext := ih ⟨hleave.1.nodup_iff.mpr htidy.nodup, hleave.2⟩
    exact ⟨hnext.1.trans hleave.1, hnext.2⟩

/-! ## Requests -/

/-- What may be asked of a person's tabs. -/
inductive Request (ι γ : Type)
  | move (input : BrowserTabMoveInput ι γ)
  | group (tabIds : List ι) (groupId : γ)
  | ungroup (tabIds : List ι)

/-- The arrangement that a request makes, unless it is refused. -/
def Request.answer (arrangement : BrowserTabArrangement ι γ) :
    Request ι γ → Except Refusal (BrowserTabArrangement ι γ)
  | .move input => moveBrowserTabs arrangement input
  | .group tabIds groupId => .ok (groupBrowserTabs arrangement tabIds groupId)
  | .ungroup tabIds => .ok (ungroupBrowserTabs arrangement tabIds)

/-- A move that splits a group. -/
def Request.Splits (arrangement : BrowserTabArrangement ι γ) : Request ι γ → Prop
  | .move input => BrowserTabOrder.Splits arrangement input
  | .group _ _ => False
  | .ungroup _ => False

/-- A request keeps the tabs and each group adjacent but for a move of tabs to the end of a group
of which none stays, with tabs of one group staying before the first of them and after it. -/
theorem answer_tidy_iff (request : Request ι γ) (htidy : arrangement.Tidy)
    (h : request.answer arrangement = .ok result) :
    (result.order.Perm arrangement.order ∧ Adjacent result.groupOf result.order) ↔ ¬request.Splits arrangement := by
  cases request with
  | move input =>
    refine ⟨fun hkept hsplits => Splits.not_adjacent hsplits h htidy hkept.2, fun hsplits => ?_⟩
    exact ⟨moveBrowserTabs_perm h htidy, moveBrowserTabs_adjacent h htidy hsplits⟩
  | group tabIds groupId =>
    rw [← Except.ok.inj h]
    exact iff_of_true (groupBrowserTabs_tidy htidy tabIds groupId) not_false
  | ungroup tabIds =>
    rw [← Except.ok.inj h]
    exact iff_of_true (ungroupBrowserTabs_tidy htidy tabIds) not_false

/-- Four tabs, three of one group and the last alone in another. -/
def sample : BrowserTabArrangement ℕ ℕ := ⟨[1, 2, 3, 4], fun id => if id ≤ 3 then some 0 else some 1⟩

theorem sample_tidy : sample.Tidy :=
  ⟨by decide, fun group => by
    simp only [sample, contiguous_cons, Leading, Contiguous.nil, List.pairwise_cons, List.mem_cons]
    simp
    omega⟩

theorem movingTabs_sample (tabIds : List ℕ) (h : tabIds = [2, 4] ∨ tabIds = [4]) (groupId : Option ℕ) :
    movingTabs sample ⟨.tabs tabIds, groupId, none⟩ = .ok tabIds := by
  rcases h with rfl | rfl <;> simp [movingTabs, sample, List.eraseDups_cons, List.mergeSort]

/-- Moved to the end of the group of tab 4, tabs 2 and 4 come to stand between tabs 1 and 3 of the
other group. -/
theorem answer_not_tidy : ¬∀ (arrangement result : BrowserTabArrangement ℕ ℕ) (request : Request ℕ ℕ),
    arrangement.Tidy → request.answer arrangement = .ok result →
      result.order.Perm arrangement.order ∧ Adjacent result.groupOf result.order := by
  intro h
  have hanswer : (Request.move ⟨.tabs [2, 4], some 1, none⟩).answer sample =
      .ok ⟨[1, 2, 4, 3], regroup sample.groupOf [2, 4] (some 1)⟩ := by
    rw [Request.answer, moveBrowserTabs, movingTabs_sample _ (.inl rfl)]
    rfl
  have hkept := h _ _ _ sample_tidy hanswer
  have hgroup := hkept.2 0 (x := 1) (y := 2) (z := 3) (by decide) rfl rfl
  exact absurd hgroup (by decide)

/-- Tab 4 joins the group of the others. -/
theorem answer_tidy_join : Adjacent (regroup sample.groupOf [4] (some 0)) [1, 2, 3, 4] := by
  have hsplits : ¬(Request.move ⟨.tabs [4], some 0, none⟩).Splits sample :=
    not_splits_of_stays ⟨1, by decide, rfl⟩ (by decide)
  have hanswer : (Request.move ⟨.tabs [4], some 0, none⟩).answer sample =
      .ok ⟨[1, 2, 3, 4], regroup sample.groupOf [4] (some 0)⟩ := by
    rw [Request.answer, moveBrowserTabs, movingTabs_sample _ (.inr rfl)]
    rfl
  exact ((answer_tidy_iff _ sample_tidy hanswer).mpr hsplits).2

end Opensteer.BrowserTabOrder
