import Opensteer.Framework.Chronicle
import Opensteer.SurfaceLedger.Calls

/-!
# What stays

A navigation that began stays pending, and a commit stays among the recent ones, while no more than the limit
have been recorded since (`Held`, `Retained`, both of `Order`); and no navigation is pending along with a commit
that it waits for (`Quiet`).
-/

namespace Opensteer.SurfaceLedger

open Chronicle

variable {log : List Entry} {navigationId id : NavigationId} {attempt : Nat} {s : State}

/-- An answer after which nothing with a loader is waited for. -/
def Released (log : List Entry) (attempt : Nat) : Prop :=
  ∃ result, Entry.answered attempt result ∈ log ∧ ¬(Good result ∧ (orNull result.loaderId).isSome)

/-! ## What stays -/

/-- A navigation is pending while few others have begun since, if it has not been attributed or released. -/
def Held (s : State) (entry : Entry) (post : List Entry) : Prop :=
  ∀ navigationId attempt url documentId sequence, entry = .began navigationId attempt url documentId sequence →
    (begun post).length < limit →
    (∃ commit, Entry.attributed navigationId commit ∈ s.log) ∨ Released s.log attempt ∨ Entry.failed attempt ∈ s.log ∨
    ∃ pending, s.pendingNavigations.get navigationId = some pending ∧ pending.attempt = attempt ∧
      pending.sequence = sequence ∧ (pending.loaderId = none → attempt ∉ ended s.log)

/-- A commit of a loader that has none before is among the recent ones while there are few others since, if it
has not been attributed. -/
def Retained (s : State) : Prop :=
  ∀ pre post key, s.log = pre ++ post → key ∉ commitKeys pre → (commits post).length ≤ limit → key ∈ commitKeys post →
    (∃ navigationId commit, Entry.attributed navigationId commit ∈ s.log ∧
      commitKey commit.loaderId commit.sequence = key) ∨
    ∃ commit, s.recentCommits.get key = some commit ∧ (commits pre).length < commit.sequence

/-- A navigation knows how many commits there were when it began. -/
def Counted (pre : List Entry) (entry : Entry) : Prop :=
  ∀ navigationId attempt url documentId sequence, entry = .began navigationId attempt url documentId sequence →
    sequence = (commits pre).length

structure Order (s : State) : Prop where
  counted : Before Counted s.log
  pendingOrder : s.pendingNavigations.keys.Sublist (begun s.log)
  commitOrder : s.recentCommits.keys.Sublist (commitKeys s.log)
  held : s.present = true → Since (Held s) s.log
  retained : s.present = true → Retained s

theorem order_start (url : String) : Order (start url) where
  counted := Before.nil _
  pendingOrder := List.Sublist.refl _
  commitOrder := List.Sublist.refl _
  held := fun _ => Since.nil _
  retained := by
    intro _ pre post key hlog _ _ hin
    obtain ⟨rfl, rfl⟩ := List.append_eq_nil_iff.mp hlog.symm
    exact absurd hin List.not_mem_nil

/-- Of a state, `Order` is about its log and its maps while the page is there. -/
theorem Order.of_eq (h : Order s) {t : State} (hlog : t.log = s.log) (hpending : t.pendingNavigations = s.pendingNavigations)
    (hcommits : t.recentCommits = s.recentCommits) (hpresent : t.present = s.present) : Order t := by
  obtain ⟨hcounted, hpendingOrder, hcommitOrder, hheld, hretained⟩ := h
  refine ⟨by rwa [hlog], by rwa [hpending, hlog], by rwa [hcommits, hlog], fun hp => ?_, fun hp => ?_⟩
  · unfold Held
    rw [hlog, hpending]
    exact hheld (hpresent ▸ hp)
  · unfold Retained
    rw [hlog, hcommits]
    exact hretained (hpresent ▸ hp)

theorem length_commits (h : Sound s) : (commits s.log).length = s.commitSequence := by
  rw [← List.length_map NavigationCommit.sequence, h.sequences, List.length_range']

/-- What a new entry at the end of the log is part of. -/
theorem Retained.snoc (h : Retained s) {t : State} {entry : Entry} (hlog : t.log = s.log ++ [entry])
    (hcommit : entry.commit? = none)
    (hkept : ∀ key commit, s.recentCommits.get key = some commit → t.recentCommits.get key = some commit ∨
      ∃ navigationId, entry = .attributed navigationId commit ∧ commitKey commit.loaderId commit.sequence = key) :
    Retained t := by
  have hnone : commits [entry] = [] := List.filterMap_cons_none hcommit
  have hnoneKeys : commitKeys [entry] = [] := by
    rw [commitKeys, hnone, List.map_nil]
  intro pre post key hsplit hnew hfew hin
  rw [hlog] at hsplit
  cases post using List.reverseRecOn with
  | nil => exact absurd hin List.not_mem_nil
  | append_singleton post e _ =>
    rw [← List.append_assoc] at hsplit
    obtain ⟨hold, he⟩ := List.append_inj' hsplit rfl
    obtain rfl := List.singleton_inj.mp he
    rw [commits_append, hnone, List.append_nil] at hfew
    rw [commitKeys_append, hnoneKeys, List.append_nil] at hin
    rcases h pre post key hold hnew hfew hin with ⟨id, commit, hmem, hkey⟩ | ⟨commit, hget, hlt⟩
    · exact .inl ⟨id, commit, hlog ▸ List.mem_append_left _ hmem, hkey⟩
    · rcases hkept key commit hget with hget | ⟨id, rfl, hkey⟩
      · exact .inr ⟨commit, hget, hlt⟩
      · exact .inl ⟨id, commit, hlog ▸ List.mem_append_right _ (List.mem_singleton_self _), hkey⟩

/-- What was held is held with one entry more, if it still is pending or has been attributed or released. -/
theorem Held.snoc {t : State} {entry new : Entry} {post : List Entry} (h : Held s entry post)
    (hlog : t.log = s.log ++ [new])
    (hpending : ∀ navigationId attempt url documentId sequence pending,
      entry = .began navigationId attempt url documentId sequence → (begun (post ++ [new])).length < limit →
      s.pendingNavigations.get navigationId = some pending → pending.attempt = attempt → pending.sequence = sequence →
      (pending.loaderId = none → attempt ∉ ended s.log) →
      (∃ commit, Entry.attributed navigationId commit ∈ t.log) ∨ Released t.log attempt ∨ Entry.failed attempt ∈ t.log ∨
      ∃ pending, t.pendingNavigations.get navigationId = some pending ∧ pending.attempt = attempt ∧
        pending.sequence = sequence ∧ (pending.loaderId = none → attempt ∉ ended t.log)) :
    Held t entry (post ++ [new]) := by
  intro id attempt url documentId sequence hentry hfew
  have hfewer : (begun post).length < limit := by
    rw [begun_append, List.length_append] at hfew
    omega
  rcases h id attempt url documentId sequence hentry hfewer with
    ⟨commit, hmem⟩ | ⟨result, hmem, hreleased⟩ | hfailed | ⟨pending, hget, hattempt, hsequence, hopen⟩
  · exact .inl ⟨commit, hlog ▸ List.mem_append_left _ hmem⟩
  · exact .inr (.inl ⟨result, hlog ▸ List.mem_append_left _ hmem, hreleased⟩)
  · exact .inr (.inr (.inl (hlog ▸ List.mem_append_left _ hfailed)))
  · exact hpending id attempt url documentId sequence pending hentry hfew hget hattempt hsequence hopen

/-- An entry that begins nothing says nothing of what it is followed by. -/
theorem Held.of_begun_none {entry : Entry} (h : entry.begun? = none) : Held s entry [] := by
  rintro id attempt url documentId sequence rfl
  cases h

theorem Counted.of_begun_none {pre : List Entry} {entry : Entry} (h : entry.begun? = none) : Counted pre entry := by
  rintro id attempt url documentId sequence rfl
  cases h

/-! ## The changes -/

theorem Order.attribute (h : Order s) (hsound : Sound s) {key : String} {commit : NavigationCommit}
    (hcommit : s.recentCommits.get key = some commit) : Order (s.attribute navigationId key commit) where
  counted := h.counted.snoc (.of_begun_none rfl)
  pendingOrder := by
    rw [State.attribute, begun_append]
    exact ((s.pendingNavigations.keys_delete navigationId).trans h.pendingOrder).trans (List.sublist_append_left _ _)
  commitOrder := by
    rw [State.attribute, commitKeys_append]
    exact ((s.recentCommits.keys_delete key).trans h.commitOrder).trans (List.sublist_append_left _ _)
  held := fun hpresent => by
    refine (h.held hpresent).snoc (.of_begun_none rfl) fun entry post hheld => ?_
    refine hheld.snoc rfl fun id attempt url documentId sequence pending _ _ hget hattempt hsequence hopen => ?_
    by_cases hid : navigationId = id
    · exact .inl ⟨commit, hid ▸ List.mem_append_right _ (List.mem_singleton_self _)⟩
    · refine .inr (.inr (.inr ⟨pending, ?_, hattempt, hsequence, fun hnone => ?_⟩))
      · rw [State.attribute, OrderedMap.get_delete, if_neg hid]
        exact hget
      · rw [State.attribute, ended_append, List.mem_append]
        exact fun hin => hin.elim (hopen hnone) List.not_mem_nil
  retained := fun hpresent => by
    refine (h.retained hpresent).snoc rfl rfl fun key' commit' hget => ?_
    by_cases hkey : key = key'
    · subst hkey
      obtain rfl := Option.some.inj (hcommit.symm.trans hget)
      exact .inr ⟨navigationId, rfl, (hsound.kept key commit hcommit).2.1.symm⟩
    · refine .inl ?_
      rw [State.attribute, OrderedMap.get_delete, if_neg hkey]
      exact hget

theorem Order.matchNavigation (h : Order s) (hsound : Sound s) (pending : NavigationBinding) :
    Order (matchNavigation s navigationId pending) := by
  rcases matchNavigation_cases s navigationId pending with ⟨heq, -⟩ | ⟨key, commit, hcommit, -, heq⟩
  · rwa [heq]
  · rw [heq]
    exact h.attribute hsound hcommit

theorem Order.recordCommit (h : Order s) (hsound : Sound s) (loaderId : Option String) :
    Order (recordCommit s loaderId) where
  counted := h.counted.snoc (.of_begun_none rfl)
  pendingOrder := by
    rw [SurfaceLedger.recordCommit, begun_append]
    exact h.pendingOrder.trans (List.sublist_append_left _ _)
  commitOrder := by
    rw [SurfaceLedger.recordCommit, commitKeys_append]
    exact OrderedMap.keys_setRecent h.commitOrder
  held := fun hpresent => by
    refine (h.held hpresent).snoc (.of_begun_none rfl) fun entry post hheld => ?_
    refine hheld.snoc rfl fun id attempt url documentId sequence pending _ _ hget hattempt hsequence hopen => ?_
    refine .inr (.inr (.inr ⟨pending, hget, hattempt, hsequence, fun hnone => ?_⟩))
    rw [SurfaceLedger.recordCommit, ended_append, List.mem_append]
    exact fun hin => hin.elim (hopen hnone) List.not_mem_nil
  retained := fun hpresent => by
    intro pre post key hsplit hnew hfew hin
    cases post using List.reverseRecOn with
    | nil => exact absurd hin List.not_mem_nil
    | append_singleton post e _ =>
      rw [SurfaceLedger.recordCommit, ← List.append_assoc] at hsplit
      obtain ⟨hold, he⟩ := List.append_inj' hsplit rfl
      obtain rfl := List.singleton_inj.mp he
      have hkeys := OrderedMap.keys_set (k := commitKey loaderId (s.commitSequence + 1))
        (a := ⟨s.documentId, s.committedUrl, s.commitSequence + 1, loaderId⟩) h.commitOrder
      have hpost : (commits post).length + 1 ≤ limit := by
        rw [commits_append, List.length_append] at hfew
        exact hfew
      have hstays := (@OrderedMap.get_setRecent_of_recent _ _ _ _ _ key _ limit (commitKeys pre) (commitKeys post ++ [commitKey loaderId (s.commitSequence + 1)]))
        (by rw [← List.append_assoc, ← commitKeys_append, ← hold]; exact hkeys) hnew (by
          rw [List.length_append, commitKeys, List.length_map]
          exact hpost)
      rw [OrderedMap.get_set] at hstays
      by_cases hkey : commitKey loaderId (s.commitSequence + 1) = key
      · rw [if_pos hkey] at hstays
        refine .inr ⟨_, hstays, ?_⟩
        have hcount := length_commits hsound
        rw [hold, commits_append, List.length_append] at hcount
        show _ < s.commitSequence + 1
        omega
      · rw [if_neg hkey] at hstays
        rw [commitKeys_append, List.mem_append] at hin
        have hin := hin.resolve_right fun hlast => hkey (List.mem_singleton.mp hlast).symm
        rcases h.retained hpresent pre post key hold hnew (by omega) hin with ⟨id, commit, hmem, heq⟩ | ⟨commit, hget, hlt⟩
        · exact .inl ⟨id, commit, List.mem_append_left _ hmem, heq⟩
        · exact .inr ⟨commit, hstays.trans hget, hlt⟩

/-- Of a log that one entry follows, what was retained is. -/
theorem Retained.of_commits_eq (h : Retained s) {t : State} {entry : Entry} (hlog : t.log = s.log ++ [entry])
    (hcommit : entry.commit? = none) (hcommits : t.recentCommits = s.recentCommits) : Retained t :=
  h.snoc hlog hcommit fun _ _ hget => .inl (hcommits ▸ hget)

theorem Order.begin (h : Order s) (hsound : Sound s) (hcalls : Calls s) {t : State} {pending : NavigationBinding}
    (hlog : t.log = s.log ++ [Entry.began navigationId pending.attempt pending.url pending.documentId pending.sequence])
    (hpending : t.pendingNavigations = s.pendingNavigations.setRecent limit navigationId pending)
    (hcommits : t.recentCommits = s.recentCommits) (hpresent : t.present = s.present)
    (hattempt : pending.attempt = s.navigationAttempt + 1) (hsequence : pending.sequence = s.commitSequence)
    (hnew : navigationId ∉ begun s.log) : Order t := by
  have hended : ended t.log = ended s.log := by
    rw [hlog, ended_append]
    exact List.append_nil _
  have hset : (s.pendingNavigations.set navigationId pending).keys.Sublist (begun s.log ++ [navigationId]) :=
    OrderedMap.keys_set h.pendingOrder
  refine ⟨?_, ?_, ?_, fun hp => ?_, fun hp => ?_⟩
  · rw [hlog]
    refine h.counted.snoc ?_
    rintro id attempt url documentId sequence heq
    obtain ⟨-, -, -, -, rfl⟩ := Entry.began.inj heq
    rw [hsequence, length_commits hsound]
  · rw [hlog, hpending, begun_append]
    exact OrderedMap.keys_setRecent h.pendingOrder
  · rw [hlog, hcommits, commitKeys_append]
    exact h.commitOrder.trans (List.sublist_append_left _ _)
  · intro pre entry post hsplit
    rw [hlog] at hsplit
    rcases snoc_cases hsplit with ⟨rfl, rfl, rfl⟩ | ⟨post', rfl, hold⟩
    · rintro id attempt url documentId sequence heq -
      obtain ⟨rfl, rfl, -, -, rfl⟩ := Entry.began.inj heq
      refine .inr (.inr (.inr ⟨pending, ?_, rfl, rfl, fun _ hin => ?_⟩))
      · rw [hpending, OrderedMap.get_setRecent_of_recent hset hnew (Nat.le_of_ble_eq_true rfl), OrderedMap.get_set,
          if_pos rfl]
      · rw [hended, hattempt] at hin
        exact absurd (hcalls.counted _ (.inl hin)) (Nat.not_succ_le_self _)
    · refine (h.held (hpresent ▸ hp) pre entry post' hold).snoc hlog
        fun id attempt url documentId sequence pending' hentry hfew hget hattempt' hsequence' hopen => ?_
      refine .inr (.inr (.inr ⟨pending', ?_, hattempt', hsequence', fun hnone => by rw [hended]; exact hopen hnone⟩))
      have hbegun : begun s.log = begun pre ++ (id :: begun post') := by
        rw [hold, begun_append, hentry]
        rfl
      have hid : id ∉ begun pre := by
        have hnd := hcalls.distinct
        rw [hbegun] at hnd
        exact fun hin => (List.nodup_append.mp hnd).2.2 id hin id List.mem_cons_self rfl
      have hne : navigationId ≠ id := by
        rintro rfl
        exact hnew (hbegun ▸ List.mem_append_right _ List.mem_cons_self)
      have hlength : (id :: begun post' ++ [navigationId]).length ≤ limit := by
        rw [begun_append, List.length_append] at hfew
        rw [List.length_append, List.length_cons]
        have hone : (begun [Entry.began navigationId pending.attempt pending.url pending.documentId
          pending.sequence]).length = 1 := rfl
        rw [hone] at hfew
        exact hfew
      rw [hbegun, List.append_assoc] at hset
      rw [hpending, OrderedMap.get_setRecent_of_recent hset hid hlength, OrderedMap.get_set, if_neg hne]
      exact hget
  · exact (h.retained (hpresent ▸ hp)).of_commits_eq hlog rfl hcommits

/-- A call that ends leaves the other navigations as they are, and its own unless it is released or has failed. -/
theorem Order.ends (h : Order s) (hcalls : Calls s) {t : State} {call : Call} {entry : Entry} (hcall : call ∈ s.calls)
    (hlog : t.log = s.log ++ [entry]) (hattempt : entry.attempt? = some call.attempt)
    (hkeys : t.pendingNavigations.keys.Sublist s.pendingNavigations.keys)
    (hcommits : t.recentCommits = s.recentCommits) (hpresent : t.present = s.present)
    (hothers : ∀ id, call.navigationId ≠ some id → t.pendingNavigations.get id = s.pendingNavigations.get id)
    (hown : ∀ id pending, call.navigationId = some id → s.present = true → s.pendingNavigations.get id = some pending →
      pending.attempt = call.attempt →
      Released t.log call.attempt ∨ Entry.failed call.attempt ∈ t.log ∨
      ∃ pending', t.pendingNavigations.get id = some pending' ∧ pending'.attempt = pending.attempt ∧
        pending'.sequence = pending.sequence ∧ pending'.loaderId ≠ none) : Order t := by
  have hcommit : entry.commit? = none := by
    cases entry <;> first | rfl | cases hattempt
  have hbegun : entry.begun? = none := Entry.begun?_of_attempt? hattempt
  have hended : ended t.log = ended s.log ++ [call.attempt] := hlog ▸ ended_snoc_attempt hattempt
  refine ⟨?_, ?_, ?_, fun hp => ?_, fun hp => (h.retained (hpresent ▸ hp)).of_commits_eq hlog hcommit hcommits⟩
  · rw [hlog]
    exact h.counted.snoc (.of_begun_none hbegun)
  · rw [hlog, begun_append]
    exact (hkeys.trans h.pendingOrder).trans (List.sublist_append_left _ _)
  · rw [hlog, hcommits, commitKeys_append]
    exact h.commitOrder.trans (List.sublist_append_left _ _)
  · intro pre e post hsplit
    rw [hlog] at hsplit
    rcases snoc_cases hsplit with ⟨rfl, rfl, rfl⟩ | ⟨post', rfl, hold⟩
    · exact .of_begun_none hbegun
    · refine (h.held (hpresent ▸ hp) pre e post' hold).snoc hlog
        fun id attempt url documentId sequence pending hentry _ hget hattempt' hsequence hopen => ?_
      have hbegan : Entry.began id attempt url documentId sequence ∈ s.log := by
        rw [hold, hentry]
        exact List.mem_append_right _ List.mem_cons_self
      by_cases hid : call.navigationId = some id
      · have heq := hcalls.attempt_of_id hcall hid hbegan
        rcases hown id pending hid (hpresent ▸ hp) hget (hattempt'.trans heq) with hreleased | hfailed |
          ⟨pending', hget', hsame, hsequence', hloader⟩
        · exact .inr (.inl (heq ▸ hreleased))
        · exact .inr (.inr (.inl (heq ▸ hfailed)))
        · exact .inr (.inr (.inr ⟨pending', hget', hsame.trans hattempt', hsequence'.trans hsequence,
            fun hnone => absurd hnone hloader⟩))
      · refine .inr (.inr (.inr ⟨pending, (hothers id hid).trans hget, hattempt', hsequence, fun hnone => ?_⟩))
        rw [hended, List.mem_append, List.mem_singleton]
        rintro (hin | rfl)
        · exact hopen hnone hin
        · exact hid (hcalls.id_of_began hcall hbegan)

/-! ## Nothing to match -/

/-- A navigation that is pending waits for none of the commits. -/
def QuietAt (s : State) (navigationId : NavigationId) : Prop :=
  ∀ pending key commit, s.pendingNavigations.get navigationId = some pending →
    s.recentCommits.get key = some commit → ¬Matches pending key commit

def Quiet (s : State) : Prop := ∀ navigationId, QuietAt s navigationId

theorem QuietAt.of_fewer {t : State} (h : QuietAt s id)
    (hpending : ∀ pending, t.pendingNavigations.get id = some pending → s.pendingNavigations.get id = some pending)
    (hcommits : ∀ key commit, t.recentCommits.get key = some commit → s.recentCommits.get key = some commit) :
    QuietAt t id :=
  fun pending key commit hget hcommit => h pending key commit (hpending pending hget) (hcommits key commit hcommit)

theorem OrderedMap.get_of_delete {κ α : Type} [DecidableEq κ] {m : OrderedMap κ α} {k k' : κ} {a : α}
    (h : (m.delete k).get k' = some a) : m.get k' = some a := by
  rw [OrderedMap.get_delete] at h
  split at h
  · cases h
  · exact h

theorem QuietAt.matchNavigation {pending : NavigationBinding} (h : QuietAt s id) :
    QuietAt (matchNavigation s navigationId pending) id := by
  rcases matchNavigation_cases s navigationId pending with ⟨heq, -⟩ | ⟨key, commit, -, -, heq⟩
  · rwa [heq]
  · rw [heq]
    exact h.of_fewer (fun _ => OrderedMap.get_of_delete) fun _ _ => OrderedMap.get_of_delete

theorem quietAt_matchNavigation {pending : NavigationBinding}
    (hget : s.pendingNavigations.get navigationId = some pending) :
    QuietAt (matchNavigation s navigationId pending) navigationId := by
  rcases matchNavigation_cases s navigationId pending with ⟨heq, hnone⟩ | ⟨key, commit, -, -, heq⟩
  · rw [heq]
    intro pending' key commit hget' hcommit
    obtain rfl := Option.some.inj (hget.symm.trans hget')
    exact hnone key commit hcommit
  · rw [heq]
    intro pending' key' commit' hget'
    rw [State.attribute, OrderedMap.get_delete, if_pos rfl] at hget'
    cases hget'

theorem get_foldl_matchNavigation {es : List (NavigationId × NavigationBinding)} {pending : NavigationBinding}
    (h : (es.foldl (fun s e => matchNavigation s e.1 e.2) s).pendingNavigations.get id = some pending) :
    s.pendingNavigations.get id = some pending := by
  induction es generalizing s with
  | nil => exact h
  | cons e es ih =>
    have hnext : (SurfaceLedger.matchNavigation s e.1 e.2).pendingNavigations.get id = some pending := ih h
    rcases matchNavigation_cases s e.1 e.2 with ⟨heq, -⟩ | ⟨key, commit, -, -, heq⟩
    · rwa [heq] at hnext
    · rw [heq] at hnext
      exact OrderedMap.get_of_delete hnext

theorem quietAt_foldl {es : List (NavigationId × NavigationBinding)} (hnd : (es.map Prod.fst).Nodup)
    (hpending : ∀ e ∈ es, s.pendingNavigations.get e.1 = some e.2) (h : id ∈ es.map Prod.fst ∨ QuietAt s id) :
    QuietAt (es.foldl (fun s e => matchNavigation s e.1 e.2) s) id := by
  induction es generalizing s with
  | nil => exact h.resolve_left List.not_mem_nil
  | cons e es ih =>
    obtain ⟨hnot, hnd⟩ := List.nodup_cons.mp hnd
    obtain ⟨he, hes⟩ := List.forall_mem_cons.mp hpending
    refine ih hnd (fun e' he' => ?_) ?_
    · have hne : e.1 ≠ e'.1 := fun heq => hnot (List.mem_map.mpr ⟨e', he', heq.symm⟩)
      rw [pendingNavigations_matchNavigation hne]
      exact hes e' he'
    · rcases h with hin | hquiet
      · rcases List.mem_cons.mp hin with rfl | hin
        · exact .inr (quietAt_matchNavigation he)
        · exact .inl hin
      · exact .inr hquiet.matchNavigation

/-- Behind a commit none of the navigations that are pending waits for one. -/
theorem quiet_navigationCommitted (s : State) (loaderId : Option String) : Quiet (navigationCommitted s loaderId) := by
  intro id pending key commit hget
  have hmem := OrderedMap.mem_entries.mpr (get_foldl_matchNavigation hget)
  exact quietAt_foldl (OrderedMap.nodup _) (fun _ he => OrderedMap.mem_entries.mp he)
    (.inl (List.mem_map_of_mem hmem)) pending key commit hget

end Opensteer.SurfaceLedger
