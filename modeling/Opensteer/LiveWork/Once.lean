import Mathlib.Data.List.Perm.Basic
import Opensteer.Core.Text
import Opensteer.LiveWork.Tabs

/-!
# Every surface is shown once

The deepest conversations claim first, so what one claims is what it uses and none before it does
(`mem_claimedBy`, `get_surfacesByThread`). What the groups show is what is claimed and the tabs of browsers that are
not (`keys_liveWork`).
-/

open scoped List

namespace Opensteer.LiveWork

open Chronicle

/-! ## Sorting -/

section Sorting

variable {α : Type} {compare : α → α → Ordering} {l m : List α} {a : α}

theorem sortBy_perm (compare : α → α → Ordering) (l : List α) : (sortBy compare l).Perm l := List.mergeSort_perm _ _

theorem mem_sortBy : a ∈ sortBy compare l ↔ a ∈ l := (sortBy_perm compare l).mem_iff

variable [Std.TransCmp compare]

theorem isLE_total (a b : α) : ((compare a b).isLE || (compare b a).isLE) = true := by
  rw [@Std.OrientedCmp.eq_swap α compare _ b a]
  cases compare a b <;> rfl

theorem pairwise_sortBy : (sortBy compare l).Pairwise fun a b => (compare a b).isLE :=
  List.pairwise_mergeSort (fun _ _ _ => Std.TransCmp.isLE_trans) isLE_total l

/-- What is in order stays in order. -/
theorem sublist_sortBy (hpair : m.Pairwise fun a b => (compare a b).isLE) (h : m <+ l) : m <+ sortBy compare l :=
  List.sublist_mergeSort (fun _ _ _ => Std.TransCmp.isLE_trans) isLE_total hpair h

end Sorting

theorem sublist_flatMap {α β : Type} {l : List α} {a : α} (f : α → List β) (h : a ∈ l) : f a <+ l.flatMap f := by
  rw [List.flatMap_def]
  exact List.sublist_flatten_of_mem (List.mem_map_of_mem h)

variable {r : Runtime}

theorem transCmp_on {α : Type} [Std.TransCmp r.localeCompare] (f : α → Text) :
    Std.TransCmp fun a b => r.localeCompare (f a) (f b) where
  eq_swap := Std.OrientedCmp.eq_swap
  isLE_trans := Std.TransCmp.isLE_trans

instance transCmp_stableOrder [Std.TransCmp r.localeCompare] : Std.TransCmp (stableOrder r) :=
  have := @transCmp_on r _ _ SurfaceItem.openedAt
  have := @transCmp_on r _ _ fun item : SurfaceItem => match item.surface with
    | .browser session .. => units "browser:" ++ session.id.text
    | _ => item.key
  inferInstanceAs (Std.TransCmp (compareLex _ _))

/-! ## Keys -/

variable {session session' : BrowserSession} {tabId tabId' : BrowserSurfaceId}

/-- Where a text first has a unit, it is split in one way. -/
theorem append_cons_inj {x x' y y' : Text} {unit : UInt16} (hx : unit ∉ x) (hx' : unit ∉ x')
    (h : x ++ unit :: y = x' ++ unit :: y') : x = x' ∧ y = y' := by
  rcases List.append_eq_append_iff.mp h with ⟨z, rfl, hz⟩ | ⟨z, rfl, hz⟩
  · cases z with
    | nil => exact ⟨(List.append_nil _).symm, (List.cons.inj hz).2⟩
    | cons d z =>
      obtain ⟨rfl, -⟩ := List.cons.inj hz
      simp at hx'
  · cases z with
    | nil => exact ⟨List.append_nil _, ((List.cons.inj hz).2).symm⟩
    | cons d z =>
      obtain ⟨rfl, -⟩ := List.cons.inj hz
      simp at hx

/-- The session's ID ends at the colon. -/
theorem browserKey_inj (h : browserKey session tabId = browserKey session' tabId') :
    session.id = session'.id ∧ tabId = tabId' := by
  simp only [browserKey, List.append_assoc] at h
  obtain ⟨hid, htab⟩ := append_cons_inj session.id.plain session'.id.plain (List.append_cancel_left h)
  exact ⟨by
    cases hs : session.id
    cases hs' : session'.id
    rw [hs, hs'] at hid
    simpa using hid, htab⟩

theorem map_key_browserItems : (browserItems r session).map SurfaceItem.key =
    ((shownTabs (browserTabs r session)).map (·.1.id)).map (browserKey session) := by
  rw [browserItems, List.map_map, List.map_map]
  rfl

theorem nodup_browserItems : ((browserItems r session).map SurfaceItem.key).Nodup := by
  rw [map_key_browserItems]
  exact (nodup_shownTabs _).map fun _ _ h => (browserKey_inj h).2

theorem mem_browserItems : browserKey session tabId ∈ (browserItems r session).map SurfaceItem.key ↔
    tabId ∈ (browserTabs r session).map Tab.id := by
  rw [map_key_browserItems, List.mem_map_of_injective fun _ _ h => (browserKey_inj h).2]
  constructor
  · intro h
    obtain ⟨tab, -, rfl⟩ := List.mem_map.mp h
    exact List.mem_map_of_mem tab.2
  · intro h
    obtain ⟨tab, htab, rfl⟩ := List.mem_map.mp h
    exact mem_map_id_shownTabs htab

theorem exists_of_mem_browserItems {key : Text} (h : key ∈ (browserItems r session).map SurfaceItem.key) :
    ∃ tabId, key = browserKey session tabId := by
  rw [map_key_browserItems] at h
  obtain ⟨tabId, -, rfl⟩ := List.mem_map.mp h
  exact ⟨tabId, rfl⟩

theorem head?_browserKey : (browserKey session tabId).head? = some 0x62 := rfl

/-- Items are kept by their keys, and none is a browser's. -/
def Keyed (byApp : OrderedMap Text SurfaceItem) : Prop :=
  ∀ key item, byApp.get key = some item → item.key = key ∧ key.head? ≠ some 0x62

theorem Keyed.hold {byApp : OrderedMap Text SurfaceItem} (h : Keyed byApp) (before : SurfaceItem → SurfaceItem → Bool)
    {item : SurfaceItem} (hitem : item.key.head? ≠ some 0x62) : Keyed (LiveWork.hold before byApp item) := by
  unfold LiveWork.hold
  split
  · intro key held hget
    rw [OrderedMap.get_set] at hget
    split at hget
    · rename_i hkey
      obtain rfl := Option.some.inj hget
      exact ⟨hkey, hkey ▸ hitem⟩
    · exact h key held hget
  · exact h

theorem Keyed.holdSession {byApp : OrderedMap Text SurfaceItem} (h : Keyed byApp) (machine : Machine)
    (session : ComputerSession) : Keyed (LiveWork.holdSession r byApp machine session) := by
  unfold LiveWork.holdSession
  split
  · exact h.hold _ (by simp [phoneItem, units])
  · exact List.foldlRecOn session.apps _ h fun byApp h app _ => h.hold _ (by simp [appItem, units])

variable {snapshot : Snapshot} {included : ComputerSession → Bool}

theorem computerItems_keys : ((computerItems r snapshot included).map SurfaceItem.key).Nodup ∧
    ∀ item ∈ computerItems r snapshot included, item.key.head? ≠ some 0x62 := by
  unfold computerItems
  split
  · exact ⟨List.nodup_nil, fun _ h => absurd h List.not_mem_nil⟩
  · dsimp only
    have hkeyed := List.foldlRecOn ((snapshot.machines.filter canWatchComputer).flatMap fun machine =>
      ((machine.computerUse.elim [] (·.sessions)).filter included).map fun session => (machine, session))
      (fun byApp entry => holdSession r byApp entry.1 entry.2) (motive := Keyed) (b := .empty) (fun _ _ h => by cases h)
      fun byApp h entry _ => h.holdSession entry.1 entry.2
    set byApp := ((snapshot.machines.filter canWatchComputer).flatMap fun machine =>
      ((machine.computerUse.elim [] (·.sessions)).filter included).map fun session => (machine, session)).foldl
      (fun byApp entry => holdSession r byApp entry.1 entry.2) .empty
    have hkeys : byApp.values.map SurfaceItem.key = byApp.keys := by
      rw [OrderedMap.values, OrderedMap.keys, List.map_map]
      exact List.map_congr_left fun entry hentry => (hkeyed entry.1 entry.2 (OrderedMap.mem_entries.mp hentry)).1
    refine ⟨hkeys ▸ byApp.nodup, fun item hitem => ?_⟩
    obtain ⟨key, hget⟩ := OrderedMap.mem_values.mp hitem
    obtain ⟨rfl, hhead⟩ := hkeyed key item hget
    exact hhead

/-! ## What conversations use -/

variable {threadId : ThreadId}

section Workers

variable {assignments : List Assignment} {ids : List ThreadId}

theorem addWorkers_spec (hids : ids.Nodup) : ids <+: addWorkers assignments ids ∧ (addWorkers assignments ids).Nodup ∧
    addWorkers assignments ids ⊆ ids ++ assignments.map Assignment.workerThreadId := by
  refine List.foldlRecOn assignments _ (motive := fun x => ids <+: x ∧ x.Nodup ∧
    x ⊆ ids ++ assignments.map Assignment.workerThreadId) ⟨List.prefix_rfl, hids, List.subset_append_left _ _⟩
    fun x ⟨hbefore, hnodup, hsub⟩ assignment hin => ?_
  split
  · rename_i hnew
    have hnot : assignment.workerThreadId ∉ x := of_decide_eq_true (Bool.and_eq_true_iff.mp hnew).2
    refine ⟨hbefore.trans (List.prefix_append _ _), ?_, List.append_subset.mpr ⟨hsub, ?_⟩⟩
    · refine List.nodup_append.mpr ⟨hnodup, List.nodup_singleton _, fun a ha b hb hab => ?_⟩
      rw [hab, List.mem_singleton.mp hb] at ha
      exact hnot ha
    · exact List.cons_subset.mpr ⟨List.mem_append_right _ (List.mem_map_of_mem hin), List.nil_subset _⟩
  · exact ⟨hbefore, hnodup, hsub⟩

/-- Each turn that is not the last adds a conversation, and there are no more of them than assignments. -/
theorem addWorkers_conversationThreadIds : addWorkers snapshot.assignments (conversationThreadIds snapshot threadId) =
    conversationThreadIds snapshot threadId := by
  have hturns (n : Nat) : ∃ ids, (addWorkers snapshot.assignments)^[n] [threadId] = ids ∧ ids.Nodup ∧
      ids ⊆ threadId :: snapshot.assignments.map Assignment.workerThreadId ∧
      (addWorkers snapshot.assignments ids = ids ∨ n + 1 ≤ ids.length) := by
    induction n with
    | zero => exact ⟨_, rfl, List.nodup_singleton _, by simp, .inr (Nat.le_refl _)⟩
    | succ n ih =>
      obtain ⟨ids, hids, hnodup, hsub, hlast⟩ := ih
      obtain ⟨hbefore, hnodup', hsub'⟩ := @addWorkers_spec snapshot.assignments ids hnodup
      rw [Function.iterate_succ_apply', hids]
      refine ⟨_, rfl, hnodup', fun id hid => ?_, ?_⟩
      · rcases List.mem_append.mp (hsub' hid) with hid | hid
        · exact hsub hid
        · exact List.mem_cons_of_mem _ hid
      · by_cases hsame : addWorkers snapshot.assignments ids = ids
        · exact .inl (by rw [hsame, hsame])
        · have hlt : ids.length < (addWorkers snapshot.assignments ids).length :=
            lt_of_le_of_ne hbefore.length_le fun heq => hsame (hbefore.eq_of_length heq).symm
          have hlong := hlast.resolve_left hsame
          exact .inr (by omega)
  obtain ⟨ids, hids, hnodup, hsub, hlast⟩ := hturns snapshot.assignments.length
  rw [conversationThreadIds, hids]
  by_contra hmore
  obtain ⟨hbefore, hnodup', hsub'⟩ := @addWorkers_spec snapshot.assignments ids hnodup
  have hlt : ids.length < (addWorkers snapshot.assignments ids).length :=
    lt_of_le_of_ne hbefore.length_le fun heq => hmore (hbefore.eq_of_length heq).symm
  have hin : addWorkers snapshot.assignments ids ⊆ threadId :: snapshot.assignments.map Assignment.workerThreadId := by
    refine fun id hid => ?_
    rcases List.mem_append.mp (hsub' hid) with hid | hid
    · exact hsub hid
    · exact List.mem_cons_of_mem _ hid
  have hle := (hnodup'.subperm hin).length_le
  rw [List.length_cons, List.length_map] at hle
  have hlong := hlast.resolve_left hmore
  omega

end Workers

/-- A conversation's surfaces, before they are sorted. -/
theorem conversationSurfaces_perm : (conversationSurfaces r snapshot threadId).Perm
    ((snapshot.browserSessions.filter fun session => isOpen session && browserUsedBy session threadId).flatMap
      (browserItems r) ++ computerItems r snapshot fun session =>
        session.threadId ∈ conversationThreadIds snapshot threadId) :=
  sortBy_perm _ _

/-- Browsers with different IDs have different keys. -/
theorem nodup_flatMap_browserItems {sessions : List BrowserSession} (hids : (sessions.map BrowserSession.id).Nodup)
    (kept : BrowserSession → SurfaceItem → Bool) :
    ((sessions.flatMap fun session => (browserItems r session).filter (kept session)).map SurfaceItem.key).Nodup := by
  rw [List.map_flatMap, List.nodup_flatMap]
  refine ⟨fun session _ => nodup_browserItems.sublist (List.filter_sublist.map _), ?_⟩
  refine (List.pairwise_map.mp hids).imp fun hne key hkey hkey' => ?_
  obtain ⟨tabId, rfl⟩ := exists_of_mem_browserItems ((List.filter_sublist.map _).subset hkey)
  obtain ⟨tabId', heq⟩ := exists_of_mem_browserItems ((List.filter_sublist.map _).subset hkey')
  exact hne (browserKey_inj heq).1

theorem nodup_conversationSurfaces (hids : (snapshot.browserSessions.map BrowserSession.id).Nodup) :
    ((conversationSurfaces r snapshot threadId).map SurfaceItem.key).Nodup := by
  rw [(conversationSurfaces_perm.map _).nodup_iff, List.map_append]
  have hsessions : ((snapshot.browserSessions.filter fun session =>
      isOpen session && browserUsedBy session threadId).map BrowserSession.id).Nodup :=
    hids.sublist (List.filter_sublist.map _)
  have hbrowsers := @nodup_flatMap_browserItems r _ hsessions fun _ _ => true
  simp only [List.filter_true] at hbrowsers
  refine List.nodup_append.mpr ⟨hbrowsers, computerItems_keys.1, fun key hkey key' hkey' heq => ?_⟩
  subst heq
  rw [List.map_flatMap] at hkey
  obtain ⟨session, -, hkey⟩ := List.mem_flatMap.mp hkey
  obtain ⟨tabId, rfl⟩ := exists_of_mem_browserItems hkey
  obtain ⟨item, hitem, heq⟩ := List.mem_map.mp hkey'
  exact computerItems_keys.2 item hitem (by rw [heq]; rfl)

/-- A conversation's tabs are those of the open browsers that it uses. -/
theorem mem_conversationSurfaces (hids : (snapshot.browserSessions.map BrowserSession.id).Nodup)
    (hsession : session ∈ snapshot.browserSessions) :
    browserKey session tabId ∈ (conversationSurfaces r snapshot threadId).map SurfaceItem.key ↔
      isOpen session ∧ browserUsedBy session threadId ∧ tabId ∈ (browserTabs r session).map Tab.id := by
  rw [(conversationSurfaces_perm.map _).mem_iff, List.map_append, List.mem_append, List.map_flatMap]
  constructor
  · rintro (hkey | hkey)
    · obtain ⟨session', hsession', hkey⟩ := List.mem_flatMap.mp hkey
      obtain ⟨hin, huses⟩ := List.mem_filter.mp hsession'
      obtain ⟨tabId', heq⟩ := exists_of_mem_browserItems hkey
      obtain rfl := List.inj_on_of_nodup_map hids hin hsession (browserKey_inj heq).1.symm
      rw [mem_browserItems] at hkey
      exact ⟨(Bool.and_eq_true_iff.mp huses).1, (Bool.and_eq_true_iff.mp huses).2, hkey⟩
    · obtain ⟨item, hitem, heq⟩ := List.mem_map.mp hkey
      exact absurd (by rw [heq]; rfl) (computerItems_keys.2 item hitem)
  · rintro ⟨hopen, huses, htab⟩
    refine .inl (List.mem_flatMap.mpr ⟨session, List.mem_filter.mpr ⟨hsession, ?_⟩, mem_browserItems.mpr htab⟩)
    rw [hopen, huses]
    rfl

/-- The tabs of one browser stay in their order. -/
theorem browserItems_sublist [Std.TransCmp r.localeCompare] (hsession : session ∈ snapshot.browserSessions)
    (hopen : isOpen session) (huses : browserUsedBy session threadId) :
    browserItems r session <+ conversationSurfaces r snapshot threadId := by
  have hin : session ∈ snapshot.browserSessions.filter fun session => isOpen session && browserUsedBy session threadId :=
    List.mem_filter.mpr ⟨hsession, Bool.and_eq_true_iff.mpr ⟨hopen, huses⟩⟩
  refine sublist_sortBy ?_ ((sublist_flatMap (browserItems r) hin).trans (List.sublist_append_left _ _))
  rw [browserItems, List.pairwise_map]
  refine List.pairwise_of_forall fun a b => ?_
  have hself : ∀ text, r.localeCompare text text = .eq := fun text => Std.ReflCmp.compare_self
  simp [stableOrder, browserItem, hself]

/-! ## Claims -/

variable {threads : List Thread} {thread : Thread} {key : Text}

/-- What the conversations claim, one after the other. -/
def claimedBy (r : Runtime) (snapshot : Snapshot) (threads : List Thread) : List Text :=
  (threads.foldl (claim r snapshot) {}).claimed

/-- What a conversation uses and none before it does. -/
def own (r : Runtime) (snapshot : Snapshot) (pre : List Thread) (thread : Thread) : List SurfaceItem :=
  (conversationSurfaces r snapshot thread.id).filter fun item => item.key ∉ claimedBy r snapshot pre

theorem claimedBy_snoc : claimedBy r snapshot (threads ++ [thread]) =
    claimedBy r snapshot threads ++ (own r snapshot threads thread).map SurfaceItem.key := by
  rw [claimedBy, List.foldl_append]
  rfl

theorem mem_claimedBy : key ∈ claimedBy r snapshot threads ↔
    ∃ thread ∈ threads, key ∈ (conversationSurfaces r snapshot thread.id).map SurfaceItem.key := by
  induction threads using List.reverseRecOn with
  | nil => simp [claimedBy]
  | append_singleton threads thread ih =>
    rw [claimedBy_snoc, List.mem_append]
    constructor
    · rintro (hold | hown)
      · obtain ⟨other, hother, hkey⟩ := ih.mp hold
        exact ⟨other, List.mem_append_left _ hother, hkey⟩
      · exact ⟨thread, List.mem_append_right _ List.mem_cons_self, (List.filter_sublist.map _).subset hown⟩
    · rintro ⟨other, hother, hkey⟩
      rcases List.mem_append.mp hother with hother | hother
      · exact .inl (ih.mpr ⟨other, hother, hkey⟩)
      · obtain rfl := List.mem_singleton.mp hother
        by_cases hclaimed : key ∈ claimedBy r snapshot threads
        · exact .inl hclaimed
        · obtain ⟨item, hitem, rfl⟩ := List.mem_map.mp hkey
          exact .inr (List.mem_map.mpr ⟨item, List.mem_filter.mpr ⟨hitem, decide_eq_true hclaimed⟩, rfl⟩)

theorem nodup_claimedBy (hids : (snapshot.browserSessions.map BrowserSession.id).Nodup) :
    (claimedBy r snapshot threads).Nodup := by
  induction threads using List.reverseRecOn with
  | nil => exact List.nodup_nil
  | append_singleton threads thread ih =>
    rw [claimedBy_snoc]
    refine List.nodup_append.mpr ⟨ih, (nodup_conversationSurfaces hids).sublist (List.filter_sublist.map _), ?_⟩
    rintro key hclaimed key' hown rfl
    obtain ⟨item, hitem, rfl⟩ := List.mem_map.mp hown
    exact of_decide_eq_true (List.mem_filter.mp hitem).2 hclaimed

theorem get_foldl_claim {claims : Claims} {threadId : ThreadId} (h : ∀ thread ∈ threads, thread.id ≠ threadId) :
    (threads.foldl (claim r snapshot) claims).surfacesByThread.get threadId = claims.surfacesByThread.get threadId := by
  induction threads generalizing claims with
  | nil => rfl
  | cons thread threads ih =>
    obtain ⟨hthread, hthreads⟩ := List.forall_mem_cons.mp h
    rw [List.foldl_cons, ih hthreads, claim, OrderedMap.get_set, if_neg hthread]

theorem get_surfacesByThread {pre post : List Thread} (hids : ((pre ++ thread :: post).map Thread.id).Nodup) :
    ((pre ++ thread :: post).foldl (claim r snapshot) {}).surfacesByThread.get thread.id =
      some (own r snapshot pre thread) := by
  rw [List.map_append, List.map_cons] at hids
  have hpost := (List.nodup_cons.mp (List.nodup_append.mp hids).2.1).1
  rw [List.foldl_append, List.foldl_cons, get_foldl_claim, claim, OrderedMap.get_set, if_pos rfl]
  · rfl
  · exact fun other hother heq => hpost (heq ▸ List.mem_map_of_mem hother)

/-- What the conversations have as their own is what they claim. -/
theorem flatMap_surfacesByThread (hids : (threads.map Thread.id).Nodup) :
    threads.flatMap (fun thread =>
      (((threads.foldl (claim r snapshot) {}).surfacesByThread.get thread.id).getD []).map SurfaceItem.key) =
    claimedBy r snapshot threads := by
  induction threads using List.reverseRecOn with
  | nil => rfl
  | append_singleton threads thread ih =>
    have hids' := hids
    rw [List.map_append, List.map_cons, List.map_nil] at hids'
    obtain ⟨hthreads, -, hne⟩ := List.nodup_append.mp hids'
    rw [claimedBy_snoc, ← ih hthreads, List.flatMap_append, List.flatMap_singleton, get_surfacesByThread hids]
    congr 1
    rw [List.flatMap_def, List.flatMap_def]
    refine congrArg List.flatten (List.map_congr_left fun other hother => ?_)
    rw [List.foldl_append, get_foldl_claim]
    intro last hlast heq
    rw [List.mem_singleton.mp hlast] at heq
    exact hne other.id (List.mem_map_of_mem hother) thread.id List.mem_cons_self heq.symm

/-! ## The overview -/

/-- A task has one row. -/
theorem nodup_shown : ((shown r snapshot).map Thread.id).Nodup := by
  have hkeyed := List.foldlRecOn [snapshot.tasks.getD [], snapshot.activeTasks].flatten
    (fun (byId : OrderedMap ThreadId TaskEntry) entry =>
      if (byId.get entry.thread.id).all fun current => current.thread.updatedAt ≤ entry.thread.updatedAt then
        byId.set entry.thread.id entry
      else byId)
    (motive := fun byId => ∀ id entry, byId.get id = some entry → entry.thread.id = id) (b := .empty)
    (fun _ _ h => by cases h) fun byId h entry _ id held hget => by
      split at hget
      · rw [OrderedMap.get_set] at hget
        split at hget
        · rename_i hid
          rw [← Option.some.inj hget, hid]
        · exact h id held hget
      · exact h id held hget
  rw [shown, List.map_map, mergeTaskEntries, ((sortBy_perm _ _).map _).nodup_iff]
  set byId := [snapshot.tasks.getD [], snapshot.activeTasks].flatten.foldl
    (fun (byId : OrderedMap ThreadId TaskEntry) entry =>
      if (byId.get entry.thread.id).all fun current => current.thread.updatedAt ≤ entry.thread.updatedAt then
        byId.set entry.thread.id entry
      else byId) .empty
  have hkeys : byId.values.map (Thread.id ∘ TaskEntry.thread) = byId.keys := by
    rw [OrderedMap.values, OrderedMap.keys, List.map_map]
    exact List.map_congr_left fun entry hentry => hkeyed entry.1 entry.2 (OrderedMap.mem_entries.mp hentry)
  exact hkeys ▸ byId.nodup

theorem byDepth_perm : (byDepth snapshot threads).Perm threads := sortBy_perm _ _

theorem nodup_byDepth : ((byDepth snapshot (shown r snapshot)).map Thread.id).Nodup :=
  ((byDepth_perm.map _).nodup_iff).mpr nodup_shown

theorem pairwise_byDepth : (byDepth snapshot threads).Pairwise fun thread other =>
    threadDepth snapshot other.id ≤ threadDepth snapshot thread.id := by
  have : Std.TransCmp fun left right : Thread =>
      compare (threadDepth snapshot right.id) (threadDepth snapshot left.id) :=
    { eq_swap := Std.OrientedCmp.eq_swap
      isLE_trans := fun h h' => Std.TransCmp.isLE_trans h' h }
  exact pairwise_sortBy.imp fun h => Nat.isLE_compare.mp h

/-- The keys that groups show, one group after the other. -/
def keys (groups : List LiveWorkGroup) : List Text := groups.flatMap fun group => group.surfaces.map SurfaceItem.key

variable {composingLabel : ThreadId → Option Text}

/-- The claims once every conversation has claimed. -/
def claims (r : Runtime) (snapshot : Snapshot) : Claims :=
  (byDepth snapshot (shown r snapshot)).foldl (claim r snapshot) {}

/-- The tabs of the open browsers that no conversation claims. -/
def unclaimed (r : Runtime) (snapshot : Snapshot) : List SurfaceItem :=
  (snapshot.browserSessions.filter isOpen).flatMap fun session =>
    (browserItems r session).filter fun item => item.key ∉ (claims r snapshot).claimed

/-- A conversation with surfaces has its group. -/
theorem mem_liveWork (hthread : thread ∈ shown r snapshot)
    (hsurfaces : (group composingLabel snapshot (claims r snapshot) thread).surfaces ≠ []) :
    group composingLabel snapshot (claims r snapshot) thread ∈ liveWork r composingLabel snapshot := by
  refine List.mem_append_left _ (List.mem_map.mpr ⟨(_, thread.updatedAt), mem_sortBy.mpr (List.mem_filter.mpr ⟨?_, ?_⟩), rfl⟩)
  · exact List.mem_map_of_mem hthread
  · simp [claims] at hsurfaces ⊢
    exact .inr hsurfaces

theorem flatMap_filter_of_nil {α β : Type} {p : α → Bool} {f : α → List β} {l : List α} (h : ∀ a, p a = false → f a = []) :
    (l.filter p).flatMap f = l.flatMap f := by
  induction l with
  | nil => rfl
  | cons a l ih =>
    cases hp : p a with
    | false => rw [List.filter_cons_of_neg (by simp [hp]), ih, List.flatMap_cons, h a hp, List.nil_append]
    | true => rw [List.filter_cons_of_pos hp, List.flatMap_cons, List.flatMap_cons, ih]

/-- The groups show what is claimed, in some order, and then the tabs that are not. -/
theorem keys_liveWork : ∃ listed, keys (liveWork r composingLabel snapshot) =
      listed ++ (unclaimed r snapshot).map SurfaceItem.key ∧
    listed.Perm (claimedBy r snapshot (byDepth snapshot (shown r snapshot))) := by
  refine ⟨_, List.flatMap_append.trans (congrArg _ ?_), ?_⟩
  · rw [unclaimed, List.map_flatMap, List.flatMap_assoc]
    refine congrArg List.flatten (List.map_congr_left fun session _ => ?_)
    rw [List.flatMap_map]
    exact List.map_eq_flatMap.symm
  · rw [List.flatMap_map]
    refine ((sortBy_perm _ _).flatMap_right _).trans ?_
    rw [flatMap_filter_of_nil fun entry hentry => ?_, List.flatMap_map]
    · exact (byDepth_perm.symm.flatMap_right _).trans (List.Perm.of_eq (flatMap_surfacesByThread nodup_byDepth))
    · have hnil : entry.1.surfaces = [] := by simpa using (Bool.or_eq_false_iff.mp hentry).2
      rw [hnil]
      rfl

/-- The first of the deepest conversations that use an open browser has all of its tabs as its own. -/
theorem exists_owner [Std.TransCmp r.localeCompare] (hids : (snapshot.browserSessions.map BrowserSession.id).Nodup)
    (hsession : session ∈ snapshot.browserSessions) (hopen : isOpen session) (hthread : thread ∈ shown r snapshot)
    (huses : browserUsedBy session thread.id) :
    ∃ owner ∈ shown r snapshot, browserUsedBy session owner.id ∧
      (∀ other ∈ shown r snapshot, browserUsedBy session other.id →
        threadDepth snapshot other.id ≤ threadDepth snapshot owner.id) ∧
      ∃ surfaces, (claims r snapshot).surfacesByThread.get owner.id = some surfaces ∧
        browserItems r session <+ surfaces := by
  have hin : thread ∈ byDepth snapshot (shown r snapshot) := byDepth_perm.mem_iff.mpr hthread
  obtain ⟨owner, hfind⟩ := Option.isSome_iff_exists.mp
    (List.find?_isSome.mpr ⟨thread, hin, huses⟩ :
      ((byDepth snapshot (shown r snapshot)).find? fun thread => browserUsedBy session thread.id).isSome)
  obtain ⟨howner, pre, post, hsplit, hpre⟩ := List.find?_eq_some_iff_append.mp hfind
  have hmem : owner ∈ byDepth snapshot (shown r snapshot) := by
    rw [hsplit]
    exact List.mem_append_right _ List.mem_cons_self
  -- No conversation before the owner claims any of the browser's tabs.
  have hunclaimed (item : SurfaceItem) (hitem : item ∈ browserItems r session) :
      item.key ∉ claimedBy r snapshot pre := by
    rw [mem_claimedBy]
    rintro ⟨other, hother, hkey⟩
    obtain ⟨tabId, heq⟩ := exists_of_mem_browserItems (List.mem_map_of_mem hitem)
    rw [heq, mem_conversationSurfaces hids hsession] at hkey
    have hno := hpre other hother
    rw [hkey.2.1] at hno
    cases hno
  refine ⟨owner, byDepth_perm.mem_iff.mp hmem, howner, fun other hother huses' => ?_, own r snapshot pre owner, ?_,
    ?_⟩
  · have hother' : other ∈ byDepth snapshot (shown r snapshot) := byDepth_perm.mem_iff.mpr hother
    rw [hsplit, List.mem_append, List.mem_cons] at hother'
    rcases hother' with hother' | rfl | hother'
    · have hno := hpre other hother'
      rw [huses'] at hno
      cases hno
    · exact Nat.le_refl _
    · have hpair := @pairwise_byDepth snapshot (shown r snapshot)
      rw [hsplit] at hpair
      exact (List.pairwise_cons.mp (List.pairwise_append.mp hpair).2.1).1 other hother'
  · have hnodup := @nodup_byDepth r snapshot
    rw [hsplit] at hnodup
    rw [claims, hsplit]
    exact get_surfacesByThread hnodup
  · have hkept : (browserItems r session).filter (fun item => item.key ∉ claimedBy r snapshot pre) =
        browserItems r session :=
      List.filter_eq_self.mpr fun item hitem => decide_eq_true (hunclaimed item hitem)
    rw [← hkept]
    exact (browserItems_sublist hsession hopen howner).filter _

/-- An open browser that a conversation uses is in the group of a deepest one, if it has a tab. -/
theorem exists_group [Std.TransCmp r.localeCompare] (composingLabel : ThreadId → Option Text)
    (hids : (snapshot.browserSessions.map BrowserSession.id).Nodup) (hsession : session ∈ snapshot.browserSessions)
    (hopen : isOpen session) (hitems : browserItems r session ≠ []) (hthread : thread ∈ shown r snapshot)
    (huses : browserUsedBy session thread.id) :
    ∃ group ∈ liveWork r composingLabel snapshot, browserItems r session <+ group.surfaces ∧
      ∃ owner ∈ shown r snapshot, group.threadId = some owner.id ∧ browserUsedBy session owner.id ∧
        ∀ other ∈ shown r snapshot, browserUsedBy session other.id →
          threadDepth snapshot other.id ≤ threadDepth snapshot owner.id := by
  obtain ⟨owner, howner, huses', hdeepest, surfaces, hget, hsublist⟩ :=
    exists_owner hids hsession hopen hthread huses
  have hsurfaces : (group composingLabel snapshot (claims r snapshot) owner).surfaces = surfaces := by
    rw [group, hget]
    rfl
  refine ⟨_, mem_liveWork howner ?_, by rwa [hsurfaces], owner, howner, rfl, huses', hdeepest⟩
  rw [hsurfaces]
  rintro rfl
  exact hitems (List.sublist_nil.mp hsublist)

/-- The tabs of a browser that no conversation uses are unclaimed. -/
theorem browserItems_sublist_unclaimed (hids : (snapshot.browserSessions.map BrowserSession.id).Nodup)
    (hsession : session ∈ snapshot.browserSessions) (hopen : isOpen session)
    (hunused : ∀ thread ∈ shown r snapshot, ¬browserUsedBy session thread.id) :
    browserItems r session <+ unclaimed r snapshot := by
  have hkept : (browserItems r session).filter (fun item => item.key ∉ (claims r snapshot).claimed) =
      browserItems r session := by
    refine List.filter_eq_self.mpr fun item hitem => decide_eq_true fun hkey => ?_
    obtain ⟨thread, hthread, hkey⟩ := mem_claimedBy.mp hkey
    obtain ⟨tabId, heq⟩ := exists_of_mem_browserItems (List.mem_map_of_mem hitem)
    rw [heq, mem_conversationSurfaces hids hsession] at hkey
    exact hunused thread (byDepth_perm.mem_iff.mp hthread) hkey.2.1
  have hin : session ∈ snapshot.browserSessions.filter isOpen := List.mem_filter.mpr ⟨hsession, hopen⟩
  rw [← hkept]
  exact sublist_flatMap (fun session => (browserItems r session).filter
    fun item => item.key ∉ (claims r snapshot).claimed) hin

theorem browserItems_sublist_keys [Std.TransCmp r.localeCompare] (composingLabel : ThreadId → Option Text)
    (hids : (snapshot.browserSessions.map BrowserSession.id).Nodup) (hsession : session ∈ snapshot.browserSessions)
    (hopen : isOpen session) :
    (browserItems r session).map SurfaceItem.key <+ keys (liveWork r composingLabel snapshot) := by
  by_cases hitems : browserItems r session = []
  · rw [hitems]
    exact List.nil_sublist _
  by_cases hused : ∃ thread ∈ shown r snapshot, browserUsedBy session thread.id
  · obtain ⟨thread, hthread, huses⟩ := hused
    obtain ⟨group, hgroup, hsublist, -⟩ := exists_group composingLabel hids hsession hopen hitems hthread huses
    exact (hsublist.map _).trans (sublist_flatMap (fun group => group.surfaces.map SurfaceItem.key) hgroup)
  · obtain ⟨listed, hkeys, -⟩ := @keys_liveWork r snapshot composingLabel
    rw [hkeys]
    refine ((browserItems_sublist_unclaimed hids hsession hopen fun thread hthread huses => ?_).map _).trans
      (List.sublist_append_right _ _)
    exact hused ⟨thread, hthread, huses⟩

/-- What the groups show of the snapshot. -/
structure ShowsOnce (r : Runtime) (snapshot : Snapshot) (groups : List LiveWorkGroup) : Prop where
  /-- No key is shown twice, in one group or in two. -/
  once : (keys groups).Nodup
  tab : ∀ session ∈ snapshot.browserSessions, isOpen session → ∀ tab ∈ browserTabs r session,
    browserKey session tab.id ∈ keys groups
  surface : ∀ thread ∈ shown r snapshot, ∀ item ∈ conversationSurfaces r snapshot thread.id, item.key ∈ keys groups
  /-- A tab that conversations use is in the group of a deepest of them. -/
  deepest : ∀ session ∈ snapshot.browserSessions, isOpen session → ∀ tab ∈ browserTabs r session,
    ∀ thread ∈ shown r snapshot, browserUsedBy session thread.id →
      ∃ group ∈ groups, ∃ owner ∈ shown r snapshot, group.threadId = some owner.id ∧
        browserKey session tab.id ∈ group.surfaces.map SurfaceItem.key ∧ browserUsedBy session owner.id ∧
        ∀ other ∈ shown r snapshot, browserUsedBy session other.id →
          threadDepth snapshot other.id ≤ threadDepth snapshot owner.id
  /-- The tabs of a browser are shown in an order, each after its opener where openers are in no cycle. -/
  order : ∀ session ∈ snapshot.browserSessions, isOpen session → ∃ order : List { tab // tab ∈ browserTabs r session },
    order.map (fun tab => browserKey session tab.1.id) <+ keys groups ∧ (order.map (·.1.id)).Nodup ∧
    (∀ tab ∈ browserTabs r session, tab.id ∈ order.map (·.1.id)) ∧
    (Acyclic (browserTabs r session) → Before (Follows (browserTabs r session)) order)

theorem liveWork_showsOnce [Std.TransCmp r.localeCompare] (composingLabel : ThreadId → Option Text)
    (hids : (snapshot.browserSessions.map BrowserSession.id).Nodup) :
    ShowsOnce r snapshot (liveWork r composingLabel snapshot) := by
  refine ⟨?_, fun session hsession hopen tab htab => ?_, fun thread hthread item hitem => ?_,
    fun session hsession hopen tab htab thread hthread huses => ?_, fun session hsession hopen => ?_⟩
  · obtain ⟨listed, hkeys, hperm⟩ := @keys_liveWork r snapshot composingLabel
    have hsessions : ((snapshot.browserSessions.filter isOpen).map BrowserSession.id).Nodup :=
      hids.sublist (List.filter_sublist.map _)
    rw [hkeys]
    refine List.nodup_append.mpr ⟨(hperm.nodup_iff).mpr (nodup_claimedBy hids),
      nodup_flatMap_browserItems hsessions _, ?_⟩
    rintro key hlisted key' hunclaimed rfl
    obtain ⟨item, hitem, rfl⟩ := List.mem_map.mp hunclaimed
    obtain ⟨session, -, hitem⟩ := List.mem_flatMap.mp hitem
    exact of_decide_eq_true (List.mem_filter.mp hitem).2 (hperm.mem_iff.mp hlisted)
  · exact (browserItems_sublist_keys (r := r) composingLabel hids hsession hopen).subset
      (mem_browserItems.mpr (List.mem_map_of_mem htab))
  · obtain ⟨listed, hkeys, hperm⟩ := @keys_liveWork r snapshot composingLabel
    rw [hkeys]
    refine List.mem_append_left _ (hperm.mem_iff.mpr (mem_claimedBy.mpr ⟨thread, ?_, List.mem_map_of_mem hitem⟩))
    exact byDepth_perm.mem_iff.mpr hthread
  · have hkey : browserKey session tab.id ∈ (browserItems r session).map SurfaceItem.key :=
      mem_browserItems.mpr (List.mem_map_of_mem htab)
    have hitems : browserItems r session ≠ [] := fun hnil => by
      rw [hnil] at hkey
      cases hkey
    obtain ⟨group, hgroup, hsublist, owner, howner, hid, huses', hdeepest⟩ :=
      exists_group (r := r) composingLabel hids hsession hopen hitems hthread huses
    exact ⟨group, hgroup, owner, howner, hid, (hsublist.map _).subset hkey, huses', hdeepest⟩
  · refine ⟨shownTabs (browserTabs r session), ?_, nodup_shownTabs _, fun tab htab => mem_map_id_shownTabs htab,
      shownTabs_before⟩
    have hsublist := browserItems_sublist_keys (r := r) composingLabel hids hsession hopen
    rwa [map_key_browserItems, List.map_map] at hsublist

/-! ## A task and the conversation that handed it out -/

/-- Texts are compared by their units. -/
def byUnits : Runtime := ⟨compare, Text.toLowerCase, fun _ => none⟩

instance : Std.TransCmp byUnits.localeCompare := inferInstanceAs (Std.TransCmp (compare : Text → Text → Ordering))

/-- The second tab has opened the first. -/
def shared : BrowserSession where
  id := ⟨units "bsn_1", by decide⟩
  state := .ready
  createdAt := some (units "2026-10-15T10:00:00.000Z")
  threadIds := some [⟨"home"⟩, ⟨"task"⟩]
  uses := none
  tabCatalog := some [⟨units "child", units "Child", units "https://a.example", 0, some (units "parent"), []⟩,
    ⟨units "parent", units "Parent", units "https://a.example", 1, none, []⟩]
  tabs := []

def handedOut : Snapshot where
  assignments := [⟨true, ⟨"home"⟩, ⟨"task"⟩⟩]
  browserSessions := [shared, { shared with id := ⟨units "bsn_2", by decide⟩, threadIds := none }]
  connected := true
  machines := []
  tasks := some [⟨⟨⟨"home"⟩, units "2", units "2", .idle, units "Home"⟩⟩, ⟨⟨⟨"task"⟩, units "1", units "1", .running, units "Task"⟩⟩]
  activeTasks := []
  waitingRequests := []

theorem liveWork_showsOnce_handedOut : ShowsOnce byUnits handedOut (liveWork byUnits (fun _ => none) handedOut) :=
  liveWork_showsOnce _ (by decide)

end Opensteer.LiveWork
