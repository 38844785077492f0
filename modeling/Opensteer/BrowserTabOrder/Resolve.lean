import Mathlib
import Opensteer.BrowserTabOrder.Groups

/-!
# Resolving an order

Each tab without a saved place is put in where it fits (`placeOf_fits`), so the order of the saved
tabs and the groups adjacent in it stay so. Tabs with different IDs are placed in one order,
whatever the order they come in (`resolveBrowserTabOrder_perm`), and tabs recorded later can be
placed in the order resolved without them (`resolveBrowserTabOrder_staged`).
-/

namespace Opensteer.BrowserTabOrder

open scoped List

variable {ι γ : Type} [LinearOrder ι] [DecidableEq γ] {groupOf : ι → Option γ} {order saved : List ι}
  {tabs tabs' known learned unplaced : List (BrowserTabOrderTab ι)} {tab a b : BrowserTabOrderTab ι}
  {lookup lookup' : ι → Option (BrowserTabOrderTab ι)} {id opener : ι} {group : γ}
  {target : Option γ}

/-! ## The order tabs were recorded in -/

def key (tab : BrowserTabOrderTab ι) : Int ×ₗ Int ×ₗ Int ×ₗ ι :=
  toLex (tab.createdAt, toLex (tab.lineageCreatedAt, toLex (tab.order, tab.id)))

/-- Tabs are recorded in the order of their keys. -/
theorem recorded_iff : recorded a b ↔ key a ≤ key b := by
  simp only [recorded, key, Prod.Lex.toLex_le_toLex]
  grind

theorem recorded_trans (a b c : BrowserTabOrderTab ι) (hab : recorded a b) (hbc : recorded b c) : recorded a c :=
  recorded_iff.mpr ((recorded_iff.mp hab).trans (recorded_iff.mp hbc))

theorem recorded_total (a b : BrowserTabOrderTab ι) : recorded a b || recorded b a := by
  simpa only [Bool.or_eq_true, recorded_iff] using le_total _ _

/-- Recorded no later than each other, two tabs have one ID. -/
theorem id_eq_of_recorded (hab : recorded a b) (hba : recorded b a) : a.id = b.id := by
  have heq := le_antisymm (recorded_iff.mp hab) (recorded_iff.mp hba)
  simp only [key, EmbeddingLike.apply_eq_iff_eq, Prod.mk.injEq] at heq
  exact heq.2.2.2

theorem eq_of_recorded (hids : (tabs.map (·.id)).Nodup) (ha : a ∈ tabs) (hb : b ∈ tabs) (hab : recorded a b)
    (hba : recorded b a) : a = b :=
  List.inj_on_of_nodup_map hids ha hb (id_eq_of_recorded hab hba)

/-! ## Looking tabs up -/

theorem byId_eq_some (hids : (tabs.map (·.id)).Nodup) : byId tabs id = some tab ↔ tab ∈ tabs ∧ tab.id = id :=
  lookupBy_eq_some hids

theorem isSome_byId : (byId tabs id).isSome ↔ id ∈ tabs.map (·.id) :=
  isSome_lookupBy

/-- Tabs with different IDs are looked up in any order of them. -/
theorem byId_perm (hids : (tabs.map (·.id)).Nodup) (h : tabs'.Perm tabs) : byId tabs' = byId tabs :=
  lookupBy_perm hids h

theorem mem_placed : id ∈ placed saved tabs ↔ id ∈ saved ∧ id ∈ tabs.map (·.id) := by
  rw [placed, List.mem_eraseDups, List.mem_filter, isSome_byId]

theorem placed_nodup (saved : List ι) (tabs : List (BrowserTabOrderTab ι)) : (placed saved tabs).Nodup :=
  nodup_eraseDups _

theorem placed_sublist (saved : List ι) (tabs : List (BrowserTabOrderTab ι)) : placed saved tabs <+ saved :=
  (eraseDups_sublist _).trans List.filter_sublist

theorem placed_congr (h : ∀ id ∈ saved, id ∈ tabs'.map (·.id) ↔ id ∈ tabs.map (·.id)) :
    placed saved tabs' = placed saved tabs := by
  rw [placed, placed, List.filter_congr fun id hid => ?_]
  rw [Bool.eq_iff_iff, isSome_byId, isSome_byId, h id hid]

/-! ## Where a tab goes -/

/-- A chain ends right after the tab it starts at, or after a tab of the group. -/
theorem chainEnd_last (openerId : Option ι) (target : Option γ) (lookup : ι → Option (BrowserTabOrderTab ι))
    (groupOf : ι → Option γ) {at' : Nat} (hat : order[at']? = some opener) :
    ∃ last, (order.take (chainEnd order at' openerId target lookup groupOf)).getLast? = some last ∧
      (last = opener ∧ chainEnd order at' openerId target lookup groupOf = at' + 1 ∨ groupOf last = target) := by
  unfold chainEnd
  generalize hchain : (List.takeWhile _ (order.drop (at' + 1))) = chain
  have hstarts : chain <+: order.drop (at' + 1) := hchain ▸ List.takeWhile_prefix _
  obtain ⟨hlt, rfl⟩ := List.getElem?_eq_some_iff.mp hat
  obtain ⟨after, hafter⟩ := hstarts
  have hcut : order = (order.take at' ++ order[at'] :: chain) ++ after := by
    rw [List.append_assoc, List.cons_append, hafter, ← List.drop_eq_getElem_cons hlt, List.take_append_drop]
  have htake : order.take (at' + 1 + chain.length) = order.take at' ++ order[at'] :: chain := by
    conv_lhs => rw [hcut]
    refine List.take_left' ?_
    simp only [List.length_append, List.length_take, List.length_cons]
    omega
  rw [htake]
  rcases List.eq_nil_or_concat' chain with hnil | ⟨init, last, hlast⟩
  · exact ⟨order[at'], by rw [hnil, List.getLast?_concat], .inl ⟨rfl, by simp [hnil]⟩⟩
  · refine ⟨last, by rw [hlast, ← List.cons_append, ← List.append_assoc, List.getLast?_concat], .inr ?_⟩
    have hmem : last ∈ chain := by simp [hlast]
    rw [← hchain] at hmem
    have := List.mem_takeWhile_imp hmem
    simp only [decide_eq_true_eq] at this
    exact this.1

/-- After a chain of tabs out of groups that starts at one. -/
theorem chainEnd_fits {openerId : Option ι} (hadj : Adjacent groupOf order) (hin : opener ∈ order)
    (hopener : groupOf opener = target) :
    Fits groupOf order (chainEnd order (order.idxOf opener) openerId target lookup groupOf) target := by
  obtain ⟨last, hlast, hwhere⟩ := chainEnd_last openerId target lookup groupOf (List.getElem?_idxOf hin)
  have htarget : groupOf last = target := by
    rcases hwhere with ⟨rfl, -⟩ | hwhere
    · exact hopener
    · exact hwhere
  have hfits := Fits.of_last hadj hlast
  rwa [htarget] at hfits

/-- After a group and a chain of tabs out of groups right after it. -/
theorem chainEnd_group_fits {openerId : Option ι} {run : Nat × Nat} (hadj : Adjacent groupOf order)
    (hrun : groupRun order group groupOf = some run) :
    Fits groupOf order (chainEnd order (run.2 - 1) openerId none lookup groupOf) none := by
  obtain ⟨member, hmember, htake, hle, -⟩ := groupRun_stop hrun
  have hpos : run.2 ≠ 0 := by
    intro hzero
    simp [hzero] at htake
  have hat : order[run.2 - 1]? = some member := by
    rw [List.getLast?_take, if_neg hpos, List.getElem?_eq_getElem (by omega), Option.some_or] at htake
    rw [List.getElem?_eq_getElem (by omega), htake]
  obtain ⟨last, hlast, ⟨-, hend⟩ | hout⟩ := chainEnd_last openerId none lookup groupOf hat
  · rw [hend, Nat.sub_add_cancel (Nat.pos_of_ne_zero hpos)]
    exact Fits.after_group hadj hrun
  · have hfits := Fits.of_last hadj hlast
    rwa [hout] at hfits

omit [DecidableEq γ] in
/-- An opener that is placed. -/
theorem mem_of_filter {openerId : Option ι} (h : openerId.filter (fun id => id ∈ order) = some opener) :
    opener ∈ order := by
  simpa using (Option.filter_eq_some_iff.mp h).2

theorem topLevelPlace_fits (hadj : Adjacent groupOf order) (openerId : Option ι) :
    Fits groupOf order (topLevelPlace order openerId lookup groupOf) none := by
  unfold topLevelPlace
  split
  · exact Fits.of_end List.drop_length
  · rename_i opener hopener
    dsimp only
    split
    · rename_i hgroup
      exact chainEnd_fits hadj (mem_of_filter hopener) hgroup
    · rename_i openerGroup hgroup
      cases hrun : groupRun order openerGroup groupOf with
      | none => exact (groupRun_eq_none.mp hrun opener (mem_of_filter hopener) hgroup).elim
      | some run => exact chainEnd_group_fits hadj hrun

/-- A tab goes where it fits. -/
theorem placeOf_fits (hadj : Adjacent groupOf order) (tab : BrowserTabOrderTab ι) :
    Fits groupOf order (placeOf order tab lookup groupOf) (groupOf tab.id) := by
  unfold placeOf
  split
  · rename_i hgroup
    exact hgroup ▸ topLevelPlace_fits hadj tab.openerId
  · rename_i group hgroup
    rw [hgroup]
    split
    · rename_i hrun
      exact (topLevelPlace_fits hadj tab.openerId).fresh (groupRun_eq_none.mp hrun)
    · rename_i run hrun
      split
      · exact Fits.of_stop hadj hrun
      · rename_i opener hopener
        split
        · rename_i hsame
          exact chainEnd_fits hadj (mem_of_filter hopener) hsame
        · exact Fits.of_stop hadj hrun

/-! ## Placing tabs one after another -/

theorem place_perm : (place lookup groupOf order tab).Perm (tab.id :: order) := by
  rw [place]
  exact List.perm_middle.trans (.of_eq (by rw [List.take_append_drop]))

theorem sublist_place : order <+ place lookup groupOf order tab := by
  conv_lhs => rw [← List.take_append_drop (placeOf order tab lookup groupOf) order]
  exact (List.Sublist.refl _).append (List.sublist_cons_self _ _)

theorem place_adjacent (hadj : Adjacent groupOf order) : Adjacent groupOf (place lookup groupOf order tab) := by
  have hsame : ∀ id ∈ [tab.id], groupOf id = groupOf tab.id := by simp
  have hfits : Fits groupOf order (placeOf order tab lookup groupOf) (groupOf tab.id) := placeOf_fits hadj tab
  have h := hfits.adjacent hadj hsame
  rwa [List.append_assoc, List.singleton_append] at h

theorem foldl_place_perm : (unplaced.foldl (place lookup groupOf) order).Perm (order ++ unplaced.map (·.id)) := by
  induction unplaced generalizing order with
  | nil => simp
  | cons tab unplaced ih =>
    refine ih.trans ((place_perm.append_right _).trans ?_)
    exact List.perm_middle.symm

theorem sublist_foldl_place : order <+ unplaced.foldl (place lookup groupOf) order := by
  induction unplaced generalizing order with
  | nil => exact .refl _
  | cons tab unplaced ih => exact sublist_place.trans ih

theorem foldl_place_adjacent (hadj : Adjacent groupOf order) :
    Adjacent groupOf (unplaced.foldl (place lookup groupOf) order) := by
  induction unplaced generalizing order with
  | nil => exact hadj
  | cons tab unplaced ih => exact ih (place_adjacent hadj)

/-! ## What is looked up -/

theorem takeWhile_congr {α : Type} {p q : α → Bool} {l : List α} (h : ∀ x ∈ l, p x = q x) :
    l.takeWhile p = l.takeWhile q := by
  induction l with
  | nil => rfl
  | cons x l ih =>
    rw [List.takeWhile_cons, List.takeWhile_cons, h x List.mem_cons_self,
      ih fun y hy => h y (List.mem_cons_of_mem x hy)]

/-- Only tabs already placed are looked up. -/
theorem chainEnd_congr {start : Nat} {openerId : Option ι} (h : ∀ id ∈ order, lookup' id = lookup id) :
    chainEnd order start openerId target lookup' groupOf = chainEnd order start openerId target lookup groupOf := by
  rw [chainEnd, chainEnd, takeWhile_congr]
  intro id hid
  rw [h id (List.mem_of_mem_drop hid)]

theorem placeOf_congr (h : ∀ id ∈ order, lookup' id = lookup id) :
    placeOf order tab lookup' groupOf = placeOf order tab lookup groupOf := by
  simp only [placeOf, topLevelPlace, chainEnd_congr h]

theorem foldl_place_congr (h : ∀ id ∈ order, lookup' id = lookup id)
    (htabs : ∀ tab ∈ unplaced, lookup' tab.id = lookup tab.id) :
    unplaced.foldl (place lookup' groupOf) order = unplaced.foldl (place lookup groupOf) order := by
  induction unplaced generalizing order with
  | nil => rfl
  | cons tab unplaced ih =>
    obtain ⟨htab, htabs⟩ := List.forall_mem_cons.mp htabs
    have hplace : place lookup' groupOf order tab = place lookup groupOf order tab := by
      rw [place, place, placeOf_congr h]
    rw [List.foldl_cons, List.foldl_cons, hplace]
    refine ih (fun id hid => ?_) htabs
    rcases List.mem_cons.mp (place_perm.mem_iff.mp hid) with rfl | hid
    · exact htab
    · exact h id hid

/-! ## Resolved orders -/

variable {savedOrder : Option (List ι)}

theorem resolveBrowserTabOrder_eq : resolveBrowserTabOrder savedOrder tabs groupOf =
    (unplacedTabs (savedOrder.getD []) tabs).foldl (place (byId tabs) groupOf) (placed (savedOrder.getD []) tabs) :=
  rfl

theorem resolveBrowserTabOrder_ids (hids : (tabs.map (·.id)).Nodup) :
    (resolveBrowserTabOrder savedOrder tabs groupOf).Perm (tabs.map (·.id)) := by
  rw [resolveBrowserTabOrder_eq]
  refine foldl_place_perm.trans ?_
  have hunplaced : ((unplacedTabs (savedOrder.getD []) tabs).map (·.id)).Perm
      ((tabs.map (·.id)).filter fun id => id ∉ placed (savedOrder.getD []) tabs) := by
    rw [List.filter_map]
    exact (List.mergeSort_perm _ _).map _
  refine (List.perm_append_comm.trans (hunplaced.append_right _)).trans ?_
  exact filter_notMem_perm hids (placed_nodup _ _) fun id hid => (mem_placed.mp hid).2

theorem resolveBrowserTabOrder_adjacent (hadj : Adjacent groupOf (savedOrder.getD [])) :
    Adjacent groupOf (resolveBrowserTabOrder savedOrder tabs groupOf) :=
  foldl_place_adjacent (hadj.sublist (placed_sublist _ _))

/-- The order of the tabs given does not matter. -/
theorem resolveBrowserTabOrder_perm (hids : (tabs.map (·.id)).Nodup) (h : tabs'.Perm tabs) :
    resolveBrowserTabOrder savedOrder tabs' groupOf = resolveBrowserTabOrder savedOrder tabs groupOf := by
  have hplaced : placed (savedOrder.getD []) tabs' = placed (savedOrder.getD []) tabs :=
    placed_congr fun id _ => (h.map _).mem_iff
  rw [resolveBrowserTabOrder_eq, resolveBrowserTabOrder_eq, byId_perm hids h, unplacedTabs, unplacedTabs, hplaced]
  rw [mergeSort_eq_of_perm recorded_trans recorded_total ?_ (h.filter _)]
  intro a ha b hb
  exact eq_of_recorded hids (List.mem_of_mem_filter ha) (List.mem_of_mem_filter hb)

section Staged

omit [LinearOrder ι] in
theorem known_nodup (hids : ((known ++ learned).map (·.id)).Nodup) : (known.map (·.id)).Nodup :=
  (List.nodup_append.mp (List.map_append ▸ hids)).1

omit [LinearOrder ι] in
theorem id_ne_of_learned (hids : ((known ++ learned).map (·.id)).Nodup) (ha : a ∈ known) (hb : b ∈ learned) :
    a.id ≠ b.id :=
  (List.nodup_append.mp (List.map_append ▸ hids)).2.2 _ (List.mem_map_of_mem ha) _ (List.mem_map_of_mem hb)

/-- Tabs without a saved place change no other tab's. -/
theorem placed_append (hlearned : ∀ tab ∈ learned, tab.id ∉ saved) :
    placed saved (known ++ learned) = placed saved known := by
  refine placed_congr fun id hid => ?_
  simp only [List.map_append, List.mem_append, or_iff_left_iff_imp]
  intro hin
  obtain ⟨tab, htab, rfl⟩ := List.mem_map.mp hin
  exact (hlearned tab htab hid).elim

variable (hids : ((known ++ learned).map (·.id)).Nodup)
include hids

/-- Among the tabs known, a tab is found as among all. -/
theorem byId_append (htab : tab ∈ known) : byId (known ++ learned) tab.id = byId known tab.id := by
  rw [(byId_eq_some hids).mpr ⟨List.mem_append_left _ htab, rfl⟩, (byId_eq_some (known_nodup hids)).mpr ⟨htab, rfl⟩]

/-- Tabs without a saved place that were recorded later are placed after the others. -/
theorem unplacedTabs_append (hlearned : ∀ tab ∈ learned, tab.id ∉ saved)
    (hlater : ∀ a ∈ known, a.id ∉ saved → ∀ b ∈ learned, recorded a b) :
    unplacedTabs saved (known ++ learned) = unplacedTabs saved known ++ learned.mergeSort recorded := by
  have hall : (learned.filter fun tab => tab.id ∉ placed saved known) = learned := by
    refine List.filter_eq_self.mpr fun tab htab => ?_
    simpa using fun hin => hlearned tab htab (mem_placed.mp hin).1
  rw [unplacedTabs, unplacedTabs, placed_append hlearned, List.filter_append, hall]
  refine mergeSort_append recorded_trans recorded_total (fun a ha b hb => ?_) fun a ha b hb => ?_
  · refine eq_of_recorded hids ?_ ?_
    · exact (List.filter_sublist.append_right learned).subset ha
    · exact (List.filter_sublist.append_right learned).subset hb
  · have hknown := List.mem_of_mem_filter ha
    refine hlater a hknown (fun hin => ?_) b hb
    have hmem : a.id ∈ placed saved known := mem_placed.mpr ⟨hin, List.mem_map_of_mem hknown⟩
    simpa [hmem] using (List.mem_filter.mp ha).2

/-- Tabs recorded later go in the order that was resolved without them. -/
theorem resolveBrowserTabOrder_staged (hlearned : ∀ tab ∈ learned, tab.id ∉ savedOrder.getD [])
    (hlater : ∀ a ∈ known, a.id ∉ savedOrder.getD [] → ∀ b ∈ learned, recorded a b) :
    resolveBrowserTabOrder (some (resolveBrowserTabOrder savedOrder known groupOf)) (known ++ learned) groupOf =
      resolveBrowserTabOrder savedOrder (known ++ learned) groupOf := by
  generalize hfirst : resolveBrowserTabOrder savedOrder known groupOf = first
  have hperm : first.Perm (known.map (·.id)) := hfirst ▸ resolveBrowserTabOrder_ids (known_nodup hids)
  have hkept : placed first (known ++ learned) = first := by
    rw [placed, List.filter_eq_self.mpr, eraseDups_eq_self (hperm.nodup_iff.mpr (known_nodup hids))]
    intro id hid
    rw [isSome_byId, List.map_append]
    exact List.mem_append_left _ (hperm.subset hid)
  have hout : ∀ tab ∈ learned, tab.id ∉ first := by
    intro tab htab hin
    obtain ⟨other, hother, heq⟩ := List.mem_map.mp (hperm.subset hin)
    exact id_ne_of_learned hids hother htab heq
  have hnone : placed first known = first := (placed_append hout).symm.trans hkept
  have hunplaced : unplacedTabs first known = [] := by
    rw [unplacedTabs, hnone, List.filter_eq_nil_iff.mpr, List.mergeSort_nil]
    intro tab htab
    simpa using hperm.symm.subset (List.mem_map_of_mem htab)
  have hstage : (unplacedTabs (savedOrder.getD []) known).foldl (place (byId (known ++ learned)) groupOf)
      (placed (savedOrder.getD []) known) = first := by
    rw [← hfirst, resolveBrowserTabOrder_eq]
    refine foldl_place_congr (fun id hid => ?_) fun tab htab => ?_
    · obtain ⟨tab, htab, rfl⟩ := List.mem_map.mp (mem_placed.mp hid).2
      exact byId_append hids htab
    · exact byId_append hids (List.mem_of_mem_filter (List.mem_mergeSort.mp htab))
  rw [resolveBrowserTabOrder_eq, resolveBrowserTabOrder_eq, Option.getD_some, hkept,
    unplacedTabs_append hids hlearned hlater, unplacedTabs_append hids hout, hunplaced, List.nil_append,
    placed_append hlearned, List.foldl_append, hstage]
  intro a ha hnot
  exact (hnot (hperm.symm.subset (List.mem_map_of_mem ha))).elim

end Staged

/-- Who resolves an order needs the tabs in no order, and may have resolved it before the last of
them were recorded; each tab is in it once, the saved tabs in their saved order and each group
adjacent that is so in it. -/
theorem resolveBrowserTabOrder_agrees (savedOrder : Option (List ι)) (tabs : List (BrowserTabOrderTab ι))
    (groupOf : ι → Option γ) (hids : (tabs.map (·.id)).Nodup) :
    (∀ tabs', tabs'.Perm tabs →
        resolveBrowserTabOrder savedOrder tabs' groupOf = resolveBrowserTabOrder savedOrder tabs groupOf) ∧
      (resolveBrowserTabOrder savedOrder tabs groupOf).Perm (tabs.map (·.id)) ∧
      placed (savedOrder.getD []) tabs <+ resolveBrowserTabOrder savedOrder tabs groupOf ∧
      (Adjacent groupOf (savedOrder.getD []) → Adjacent groupOf (resolveBrowserTabOrder savedOrder tabs groupOf)) ∧
      ∀ known learned, tabs = known ++ learned → (∀ tab ∈ learned, tab.id ∉ savedOrder.getD []) →
        (∀ a ∈ known, a.id ∉ savedOrder.getD [] → ∀ b ∈ learned, recorded a b) →
          resolveBrowserTabOrder (some (resolveBrowserTabOrder savedOrder known groupOf)) (known ++ learned) groupOf =
            resolveBrowserTabOrder savedOrder (known ++ learned) groupOf := by
  refine ⟨fun tabs' h => resolveBrowserTabOrder_perm hids h, resolveBrowserTabOrder_ids hids,
    sublist_foldl_place, resolveBrowserTabOrder_adjacent, ?_⟩
  rintro known learned rfl hlearned hlater
  exact resolveBrowserTabOrder_staged hids hlearned hlater

/-- Two tabs, the second with a saved place. -/
def knownTabs : List (BrowserTabOrderTab ℕ) := [⟨1, none, 5, 0, 0⟩, ⟨2, none, 4, 0, 0⟩]

/-- A tab that tab 2 opened later. -/
def learnedTabs : List (BrowserTabOrderTab ℕ) := [⟨3, some 2, 6, 0, 0⟩]

def noGroups : ℕ → Option ℕ := fun _ => none

/-- The later tab goes in the order that was resolved without it. -/
theorem resolveBrowserTabOrder_agrees_opened :
    resolveBrowserTabOrder (some (resolveBrowserTabOrder (some [2]) knownTabs noGroups)) (knownTabs ++ learnedTabs)
      noGroups = resolveBrowserTabOrder (some [2]) (knownTabs ++ learnedTabs) noGroups :=
  (resolveBrowserTabOrder_agrees (some [2]) (knownTabs ++ learnedTabs) noGroups (by decide)).2.2.2.2 knownTabs
    learnedTabs rfl (by decide) (by decide)

end Opensteer.BrowserTabOrder
