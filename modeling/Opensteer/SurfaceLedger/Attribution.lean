import Opensteer.SurfaceLedger.Model

/-!
# What is attributed

`Sound` is the invariant: what is pending and what is kept of the commits is in the log and has not been
attributed, and what has been is explained by the log. Each step of the ledger is some of four changes of it
(`Sound.recordCommit`, `Sound.matchNavigation`, `Sound.navigate`, `Sound.answer`).
-/

namespace Opensteer.SurfaceLedger

/-! ## The log -/

def Entry.commit? : Entry → Option NavigationCommit
  | .committed commit => some commit
  | _ => none

def Entry.begun? : Entry → Option NavigationId
  | .began navigationId _ _ _ _ => some navigationId
  | _ => none

def Entry.attribution? : Entry → Option (NavigationId × NavigationCommit)
  | .attributed navigationId commit => some (navigationId, commit)
  | _ => none

/-- The commits recorded. -/
def commits (log : List Entry) : List NavigationCommit := log.filterMap Entry.commit?

/-- The navigations recorded. -/
def begun (log : List Entry) : List NavigationId := log.filterMap Entry.begun?

def attributions (log : List Entry) : List (NavigationId × NavigationCommit) := log.filterMap Entry.attribution?

section

variable (log log' : List Entry)

@[simp] theorem commits_append : commits (log ++ log') = commits log ++ commits log' := List.filterMap_append

@[simp] theorem begun_append : begun (log ++ log') = begun log ++ begun log' := List.filterMap_append

@[simp] theorem attributions_append : attributions (log ++ log') = attributions log ++ attributions log' :=
  List.filterMap_append

end

variable {log : List Entry} {navigationId : NavigationId} {commit : NavigationCommit}

theorem mem_commits : commit ∈ commits log ↔ Entry.committed commit ∈ log := by
  simp only [commits, List.mem_filterMap]
  constructor
  · rintro ⟨entry, hmem, hentry⟩
    cases entry <;> cases hentry
    exact hmem
  · exact fun hmem => ⟨_, hmem, rfl⟩

theorem mem_begun : navigationId ∈ begun log ↔
    ∃ attempt url documentId sequence, Entry.began navigationId attempt url documentId sequence ∈ log := by
  simp only [begun, List.mem_filterMap]
  constructor
  · rintro ⟨entry, hmem, hentry⟩
    cases entry <;> cases hentry
    exact ⟨_, _, _, _, hmem⟩
  · rintro ⟨attempt, url, documentId, sequence, hmem⟩
    exact ⟨_, hmem, rfl⟩

theorem mem_attributions : (navigationId, commit) ∈ attributions log ↔ Entry.attributed navigationId commit ∈ log := by
  simp only [attributions, List.mem_filterMap]
  constructor
  · rintro ⟨entry, hmem, hentry⟩
    cases entry <;> cases hentry
    exact hmem
  · exact fun hmem => ⟨_, hmem, rfl⟩

/-! ## Explanations -/

/-- An answer that a navigation waits for a commit with. -/
structure Good (result : NavigateResult) : Prop where
  noError : truthy result.errorText = false
  noDownload : result.isDownload ≠ some true

/-- The commit carries the loader id of the answer, or without one it is a same-document commit of the
document the navigation began on, with its url. -/
def Carries (result : NavigateResult) (url : String) (documentId : Nat) (commit : NavigationCommit) : Prop :=
  match orNull result.loaderId with
  | some loaderId => commitKey commit.loaderId commit.sequence = loaderId
  | none => commit.loaderId = none ∧ commit.documentId = documentId ∧ commit.url = url

/-- The commit happened after the navigation began, and is the one that its answer is of. -/
def Explained (log : List Entry) (navigationId : NavigationId) (commit : NavigationCommit) : Prop :=
  ∃ attempt url documentId sequence result,
    Entry.began navigationId attempt url documentId sequence ∈ log ∧ Entry.answered attempt result ∈ log ∧
    commit ∈ commits log ∧ sequence < commit.sequence ∧ Good result ∧ Carries result url documentId commit

theorem Explained.mono {log' : List Entry} (h : Explained log navigationId commit) (hlog : log ⊆ log') :
    Explained log' navigationId commit := by
  obtain ⟨attempt, url, documentId, sequence, result, hbegan, hanswered, hcommit, hrest⟩ := h
  exact ⟨attempt, url, documentId, sequence, result, hlog hbegan, hlog hanswered,
    mem_commits.mpr (hlog (mem_commits.mp hcommit)), hrest⟩

/-- What is pending is in the log, with its answer if it has one. -/
structure Waiting (log : List Entry) (navigationId : NavigationId) (pending : NavigationBinding) : Prop where
  began : Entry.began navigationId pending.attempt pending.url pending.documentId pending.sequence ∈ log
  unattributed : ∀ commit, Entry.attributed navigationId commit ∉ log
  answered : ∀ loaderId, pending.loaderId = some loaderId →
    ∃ result, Entry.answered pending.attempt result ∈ log ∧ Good result ∧ loaderId = orNull result.loaderId

structure Sound (s : State) : Prop where
  sequences : (commits s.log).map NavigationCommit.sequence = List.range' 1 s.commitSequence
  kept : ∀ key commit, s.recentCommits.get key = some commit → commit ∈ commits s.log ∧
    key = commitKey commit.loaderId commit.sequence ∧ ∀ navigationId, Entry.attributed navigationId commit ∉ s.log
  pending : ∀ navigationId pending, s.pendingNavigations.get navigationId = some pending →
    Waiting s.log navigationId pending
  explained : ∀ navigationId commit, Entry.attributed navigationId commit ∈ s.log →
    Explained s.log navigationId commit
  once : ((attributions s.log).map Prod.fst).Nodup
  distinct : ((attributions s.log).map Prod.snd).Nodup

variable {s : State}

theorem sound_start (url : String) : Sound (start url) where
  sequences := rfl
  kept := fun key commit h => by
    rw [start, OrderedMap.get_empty] at h
    cases h
  pending := fun navigationId pending h => by
    rw [start, OrderedMap.get_empty] at h
    cases h
  explained := fun _ _ h => absurd h List.not_mem_nil
  once := List.nodup_nil
  distinct := List.nodup_nil

/-! ## Changes of the log -/

/-- An entry that begins no navigation, records no commit and attributes none changes nothing but the log. -/
theorem Sound.push (h : Sound s) {entry : Entry} (hcommit : entry.commit? = none)
    (hattribution : entry.attribution? = none) : Sound (s.push entry) := by
  have hcommits : commits (s.log ++ [entry]) = commits s.log := by
    rw [commits_append, commits, commits, List.filterMap_cons_none hcommit, List.filterMap_nil, List.append_nil]
  have hattributions : attributions (s.log ++ [entry]) = attributions s.log := by
    rw [attributions_append, attributions, attributions, List.filterMap_cons_none hattribution, List.filterMap_nil,
      List.append_nil]
  have hold {navigationId commit} (hmem : Entry.attributed navigationId commit ∈ s.log ++ [entry]) :
      Entry.attributed navigationId commit ∈ s.log := by
    rw [← mem_attributions, hattributions] at hmem
    exact mem_attributions.mp hmem
  refine ⟨?_, fun key commit hget => ?_, fun navigationId pending hget => ?_, fun navigationId commit hmem => ?_, ?_, ?_⟩
  · rw [State.push, hcommits]
    exact h.sequences
  · obtain ⟨hmem, hkey, hunattributed⟩ := h.kept key commit hget
    exact ⟨by rwa [State.push, hcommits], hkey, fun navigationId hmem => hunattributed navigationId (hold hmem)⟩
  · obtain ⟨hbegan, hunattributed, hanswered⟩ := h.pending navigationId pending hget
    refine ⟨List.mem_append_left _ hbegan, fun commit hmem => hunattributed commit (hold hmem), fun loaderId hloader => ?_⟩
    obtain ⟨result, hmem, hrest⟩ := hanswered loaderId hloader
    exact ⟨result, List.mem_append_left _ hmem, hrest⟩
  · exact (h.explained navigationId commit (hold hmem)).mono (List.subset_append_left _ _)
  · rw [State.push, hattributions]
    exact h.once
  · rw [State.push, hattributions]
    exact h.distinct

theorem Sound.withPending (h : Sound s) {pending : OrderedMap NavigationId NavigationBinding}
    (hpending : ∀ navigationId b, pending.get navigationId = some b → Waiting s.log navigationId b) :
    Sound { s with pendingNavigations := pending } :=
  { h with pending := hpending }

/-! ## Matching -/

/-- The commit is one that the navigation waits for. -/
def Matches (pending : NavigationBinding) (key : String) (commit : NavigationCommit) : Prop :=
  pending.sequence < commit.sequence ∧
    match pending.loaderId with
    | none => False
    | some none => commit.loaderId = none ∧ commit.documentId = pending.documentId ∧ commit.url = pending.url
    | some (some loaderId) => key = loaderId

def State.attribute (s : State) (navigationId : NavigationId) (key : String) (commit : NavigationCommit) : State :=
  { s with
    recentCommits := s.recentCommits.delete key
    pendingNavigations := s.pendingNavigations.delete navigationId
    log := s.log ++ [Entry.attributed navigationId commit] }

/-- A navigation is matched if there is a commit that it waits for, and then with such a commit. -/
theorem matchNavigation_cases (s : State) (navigationId : NavigationId) (pending : NavigationBinding) :
    (matchNavigation s navigationId pending = s ∧
      ∀ key commit, s.recentCommits.get key = some commit → ¬Matches pending key commit) ∨
    ∃ key commit, s.recentCommits.get key = some commit ∧ Matches pending key commit ∧
      matchNavigation s navigationId pending = s.attribute navigationId key commit := by
  unfold matchNavigation matched Matches
  cases pending.loaderId with
  | none => exact .inl ⟨rfl, fun _ _ _ h => h.2⟩
  | some loaderId =>
    cases loaderId with
    | none =>
      dsimp only
      cases hfind : s.recentCommits.entries.find? fun entry =>
          entry.2.loaderId = none && pending.sequence < entry.2.sequence &&
            entry.2.documentId = pending.documentId && entry.2.url = pending.url with
      | none =>
        refine .inl ⟨rfl, fun key commit hget => ?_⟩
        rintro ⟨hsequence, hloader, hdocument, hurl⟩
        have hnot := List.find?_eq_none.mp hfind (key, commit) (OrderedMap.mem_entries.mpr hget)
        simp [hsequence, hloader, hdocument, hurl] at hnot
      | some entry =>
        have hmem := OrderedMap.mem_entries.mp (List.mem_of_find?_eq_some hfind)
        have hfound := List.find?_some hfind
        simp only [Bool.and_eq_true, decide_eq_true_eq] at hfound
        obtain ⟨⟨⟨hloader, hsequence⟩, hdocument⟩, hurl⟩ := hfound
        refine .inr ⟨entry.1, entry.2, hmem, ⟨hsequence, hloader, hdocument, hurl⟩, ?_⟩
        exact if_neg (Nat.not_le.mpr hsequence)
    | some loaderId =>
      dsimp only
      cases hget : s.recentCommits.get loaderId with
      | none =>
        refine .inl ⟨rfl, ?_⟩
        rintro key commit hkey ⟨-, rfl⟩
        rw [hget] at hkey
        cases hkey
      | some commit =>
        by_cases hsequence : commit.sequence ≤ pending.sequence
        · refine .inl ⟨if_pos hsequence, ?_⟩
          rintro key commit' hkey ⟨hlt, rfl⟩
          rw [hget] at hkey
          obtain rfl := Option.some.inj hkey
          exact absurd hsequence (Nat.not_le.mpr hlt)
        · exact .inr ⟨loaderId, commit, hget, ⟨Nat.not_le.mp hsequence, rfl⟩, if_neg hsequence⟩

theorem Sound.attribute (h : Sound s) {navigationId : NavigationId} {key : String} {commit : NavigationCommit}
    {pending : NavigationBinding} (hpending : s.pendingNavigations.get navigationId = some pending)
    (hcommit : s.recentCommits.get key = some commit) (hmatches : Matches pending key commit) :
    Sound (s.attribute navigationId key commit) := by
  obtain ⟨hbegan, hunattributed, hanswered⟩ := h.pending navigationId pending hpending
  obtain ⟨hmem, hkey, hfree⟩ := h.kept key commit hcommit
  have hcommits : commits (s.log ++ [Entry.attributed navigationId commit]) = commits s.log := by
    rw [commits_append]
    exact List.append_nil _
  have hcases {id c} (hmem : Entry.attributed id c ∈ s.log ++ [Entry.attributed navigationId commit]) :
      Entry.attributed id c ∈ s.log ∨ id = navigationId ∧ c = commit := by
    rcases List.mem_append.mp hmem with hold | hnew
    · exact .inl hold
    · exact .inr (Entry.attributed.inj (List.mem_singleton.mp hnew))
  refine ⟨?_, fun key' commit' hget => ?_, fun id b hget => ?_, fun id c hin => ?_, ?_, ?_⟩
  · rw [State.attribute, hcommits]
    exact h.sequences
  · rw [State.attribute, OrderedMap.get_delete] at hget
    split at hget
    · cases hget
    · rename_i hne
      obtain ⟨hmem', hkey', hfree'⟩ := h.kept key' commit' hget
      refine ⟨by rwa [State.attribute, hcommits], hkey', fun id hin => ?_⟩
      rcases hcases hin with hold | ⟨-, rfl⟩
      · exact hfree' id hold
      · exact hne (hkey.trans hkey'.symm)
  · rw [State.attribute, OrderedMap.get_delete] at hget
    split at hget
    · cases hget
    · rename_i hne
      obtain ⟨hbegan', hunattributed', hanswered'⟩ := h.pending id b hget
      refine ⟨List.mem_append_left _ hbegan', fun c hin => ?_, fun loaderId hloader => ?_⟩
      · rcases hcases hin with hold | ⟨rfl, -⟩
        · exact hunattributed' c hold
        · exact hne rfl
      · obtain ⟨result, hresult, hrest⟩ := hanswered' loaderId hloader
        exact ⟨result, List.mem_append_left _ hresult, hrest⟩
  · rcases hcases hin with hold | ⟨rfl, rfl⟩
    · exact (h.explained id c hold).mono (List.subset_append_left _ _)
    · obtain ⟨hlt, hloader⟩ := hmatches
      cases hwaits : pending.loaderId with
      | none =>
        rw [hwaits] at hloader
        exact hloader.elim
      | some loaderId =>
        rw [hwaits] at hloader
        obtain ⟨result, hresult, hgood, rfl⟩ := hanswered loaderId hwaits
        refine Explained.mono ⟨pending.attempt, pending.url, pending.documentId, pending.sequence, result, hbegan, hresult,
          hmem, hlt, hgood, ?_⟩ (List.subset_append_left _ _)
        unfold Carries
        cases horNull : orNull result.loaderId with
        | none =>
          rw [horNull] at hloader
          exact hloader
        | some loaderId =>
          rw [horNull] at hloader
          exact hkey.symm.trans hloader
  · rw [State.attribute, attributions_append, List.map_append, List.nodup_append]
    refine ⟨h.once, List.nodup_singleton _, fun id hin id' hin' heq => ?_⟩
    obtain ⟨⟨id₀, c⟩, hattribution, rfl⟩ := List.mem_map.mp hin
    have hid : id₀ = navigationId := heq.trans (List.mem_singleton.mp hin')
    exact hunattributed c (mem_attributions.mp (hid ▸ hattribution))
  · rw [State.attribute, attributions_append, List.map_append, List.nodup_append]
    refine ⟨h.distinct, List.nodup_singleton _, fun c hin c' hin' heq => ?_⟩
    obtain ⟨⟨id, c₀⟩, hattribution, rfl⟩ := List.mem_map.mp hin
    have hc : c₀ = commit := heq.trans (List.mem_singleton.mp hin')
    exact hfree id (mem_attributions.mp (hc ▸ hattribution))

theorem Sound.matchNavigation (h : Sound s) {navigationId : NavigationId} {pending : NavigationBinding}
    (hpending : s.pendingNavigations.get navigationId = some pending) : Sound (matchNavigation s navigationId pending) := by
  rcases matchNavigation_cases s navigationId pending with ⟨heq, -⟩ | ⟨key, commit, hcommit, hmatches, heq⟩
  · rwa [heq]
  · rw [heq]
    exact h.attribute hpending hcommit hmatches

theorem pendingNavigations_matchNavigation {navigationId id : NavigationId} {pending : NavigationBinding}
    (h : navigationId ≠ id) :
    (matchNavigation s navigationId pending).pendingNavigations.get id = s.pendingNavigations.get id := by
  rcases matchNavigation_cases s navigationId pending with ⟨heq, -⟩ | ⟨key, commit, -, -, heq⟩
  · rw [heq]
  · rw [heq, State.attribute, OrderedMap.get_delete, if_neg h]

/-- What is pending is gone through in its order, and stays what it is up to its turn. -/
theorem foldl_matchNavigation {P : State → Prop} {es : List (NavigationId × NavigationBinding)}
    (hnd : (es.map Prod.fst).Nodup) (hpending : ∀ e ∈ es, s.pendingNavigations.get e.1 = some e.2) (hs : P s)
    (hstep : ∀ s (e : NavigationId × NavigationBinding), P s → s.pendingNavigations.get e.1 = some e.2 → P (matchNavigation s e.1 e.2)) :
    P (es.foldl (fun s e => matchNavigation s e.1 e.2) s) := by
  induction es generalizing s with
  | nil => exact hs
  | cons e es ih =>
    obtain ⟨hnot, hnd⟩ := List.nodup_cons.mp hnd
    obtain ⟨he, hes⟩ := List.forall_mem_cons.mp hpending
    refine ih hnd (fun e' he' => ?_) (hstep s e hs he)
    have hne : e.1 ≠ e'.1 := fun heq => hnot (List.mem_map.mpr ⟨e', he', heq.symm⟩)
    rw [pendingNavigations_matchNavigation hne]
    exact hes e' he'

/-! ## Commits -/

theorem Sound.recordCommit (h : Sound s) (loaderId : Option String) : Sound (recordCommit s loaderId) := by
  obtain ⟨commit, hcommit⟩ : ∃ commit : NavigationCommit,
      commit = ⟨s.documentId, s.committedUrl, s.commitSequence + 1, loaderId⟩ := ⟨_, rfl⟩
  have hnew (id : NavigationId) : Entry.attributed id commit ∉ s.log := by
    intro hin
    obtain ⟨_, _, _, _, _, _, _, hmem, -⟩ := h.explained id commit hin
    have hsequence : commit.sequence ∈ List.range' 1 s.commitSequence := h.sequences ▸ List.mem_map_of_mem hmem
    have hlt := List.mem_range'_1.mp hsequence
    rw [hcommit] at hlt
    exact absurd hlt.2 (by show ¬s.commitSequence + 1 < 1 + s.commitSequence; omega)
  have hattributions : attributions (s.log ++ [Entry.committed commit]) = attributions s.log := by
    rw [attributions_append]
    exact List.append_nil _
  have hold {id c} (hin : Entry.attributed id c ∈ s.log ++ [Entry.committed commit]) : Entry.attributed id c ∈ s.log := by
    rw [← mem_attributions, hattributions] at hin
    exact mem_attributions.mp hin
  have hstate : SurfaceLedger.recordCommit s loaderId = { s with
      commitSequence := s.commitSequence + 1
      recentCommits := s.recentCommits.setRecent limit (commitKey loaderId (s.commitSequence + 1)) commit
      log := s.log ++ [Entry.committed commit] } := by
    rw [hcommit]
    rfl
  rw [hstate]
  refine ⟨?_, fun key c hget => ?_, fun id b hget => ?_, fun id c hin => ?_, ?_, ?_⟩
  · rw [commits_append, List.map_append, h.sequences, List.range'_1_concat, hcommit, Nat.add_comm 1]
    rfl
  · have hset := OrderedMap.get_setRecent_of_get hget
    rw [OrderedMap.get_set] at hset
    split at hset
    · obtain rfl := Option.some.inj hset
      refine ⟨mem_commits.mpr (List.mem_append_right _ (List.mem_singleton_self _)), ?_, fun id hin => hnew id (hold hin)⟩
      rename_i hkey
      rw [← hkey, hcommit]
    · obtain ⟨hmem, hkey, hfree⟩ := h.kept key c hset
      exact ⟨mem_commits.mpr (List.mem_append_left _ (mem_commits.mp hmem)), hkey, fun id hin => hfree id (hold hin)⟩
  · obtain ⟨hbegan, hunattributed, hanswered⟩ := h.pending id b hget
    refine ⟨List.mem_append_left _ hbegan, fun c hin => hunattributed c (hold hin), fun loaderId hloader => ?_⟩
    obtain ⟨result, hresult, hrest⟩ := hanswered loaderId hloader
    exact ⟨result, List.mem_append_left _ hresult, hrest⟩
  · exact (h.explained id c (hold hin)).mono (List.subset_append_left _ _)
  · rw [hattributions]
    exact h.once
  · rw [hattributions]
    exact h.distinct

theorem Sound.navigationCommitted (h : Sound s) (loaderId : Option String) : Sound (navigationCommitted s loaderId) :=
  foldl_matchNavigation (OrderedMap.nodup _) (fun _ he => OrderedMap.mem_entries.mp he) (h.recordCommit loaderId)
    fun _ _ hs hget => hs.matchNavigation hget

/-- Of a state, `Sound` is about its log and its maps. -/
theorem Sound.of_eq {t : State} (h : Sound s) (hlog : t.log = s.log) (hsequence : t.commitSequence = s.commitSequence)
    (hpending : t.pendingNavigations = s.pendingNavigations) (hcommits : t.recentCommits = s.recentCommits) : Sound t := by
  obtain ⟨hsequences, hkept, hwaiting, hexplained, honce, hdistinct⟩ := h
  refine ⟨?_, ?_, ?_, ?_, ?_, ?_⟩
  · rwa [hlog, hsequence]
  · rwa [hcommits, hlog]
  · rwa [hpending, hlog]
  · rwa [hlog]
  · rwa [hlog]
  · rwa [hlog]

/-! ## Calls -/

theorem Sound.setNavigationFailed (h : Sound s) (failed : Bool) : Sound (setNavigationFailed s failed) := by
  unfold SurfaceLedger.setNavigationFailed
  split
  · exact h
  · exact h.of_eq rfl rfl rfl rfl

theorem Sound.attemptFailed (h : Sound s) (attempt : Nat) (failed : Bool) : Sound (attemptFailed s attempt failed) := by
  unfold SurfaceLedger.attemptFailed
  split
  · exact h.setNavigationFailed failed
  · exact h

theorem Sound.forget (h : Sound s) (id : Option NavigationId) : Sound (forget s id) := by
  cases id with
  | none => exact h
  | some navigationId =>
    refine h.withPending fun id b hget => ?_
    rw [OrderedMap.get_delete] at hget
    split at hget
    · cases hget
    · exact h.pending id b hget

theorem Waiting.push {b : NavigationBinding} (h : Waiting log navigationId b) {entry : Entry}
    (hattribution : entry.attribution? = none) : Waiting (log ++ [entry]) navigationId b := by
  refine ⟨List.mem_append_left _ h.began, fun commit hin => ?_, fun loaderId hloader => ?_⟩
  · rcases List.mem_append.mp hin with hold | hnew
    · exact h.unattributed commit hold
    · rw [← List.mem_singleton.mp hnew] at hattribution
      cases hattribution
  · obtain ⟨result, hresult, hrest⟩ := h.answered loaderId hloader
    exact ⟨result, List.mem_append_left _ hresult, hrest⟩

/-- A navigation that begins is recorded and waits. -/
theorem Sound.begin (h : Sound s) {pending : NavigationBinding} (hloader : pending.loaderId = none)
    (hnew : navigationId ∉ begun s.log) :
    Sound { s with
      pendingNavigations := s.pendingNavigations.setRecent limit navigationId pending
      log := s.log ++ [Entry.began navigationId pending.attempt pending.url pending.documentId pending.sequence] } := by
  have hpush := (@Sound.push _ h (.began navigationId pending.attempt pending.url pending.documentId pending.sequence)) rfl rfl
  refine hpush.withPending fun id b hget => ?_
  have hset := OrderedMap.get_setRecent_of_get hget
  rw [OrderedMap.get_set] at hset
  split at hset
  · rename_i hid
    obtain rfl := Option.some.inj hset
    subst hid
    refine ⟨List.mem_append_right _ (List.mem_singleton_self _), fun commit hin => ?_, fun loaderId hsome => ?_⟩
    · have hin : Entry.attributed navigationId commit ∈ s.log :=
        (List.mem_append.mp hin).resolve_right fun hin => by cases List.mem_singleton.mp hin
      obtain ⟨attempt, url, documentId, sequence, _, hbegan, -⟩ := h.explained navigationId commit hin
      exact hnew (mem_begun.mpr ⟨attempt, url, documentId, sequence, hbegan⟩)
    · rw [hloader] at hsome
      cases hsome
  · exact (h.pending id b hset).push rfl

theorem Sound.navigate (h : Sound s) (url : String) {id : Option NavigationId} (hnew : ∀ navigationId ∈ id,
    navigationId ∉ begun s.log) : Sound (navigate s url id) := by
  unfold SurfaceLedger.navigate
  split
  · exact h
  · have hcounted : Sound { s with navigationAttempt := s.navigationAttempt + 1 } := h.of_eq rfl rfl rfl rfl
    have hfailed := hcounted.setNavigationFailed false
    have hlog : (SurfaceLedger.setNavigationFailed { s with navigationAttempt := s.navigationAttempt + 1 } false).log =
        s.log := by
      unfold SurfaceLedger.setNavigationFailed
      split <;> rfl
    dsimp only
    cases id with
    | none => exact hfailed.of_eq rfl rfl rfl rfl
    | some navigationId =>
      have hfree := hnew navigationId rfl
      rw [← hlog] at hfree
      exact Sound.of_eq ((@Sound.begin _ _ hfailed ⟨url, _, _, _, none, s.navigationAttempt + 1⟩) rfl hfree)
        rfl rfl rfl rfl

theorem good_of_not_settles {b : NavigationBinding} {result : NavigateResult} (h : settles s b result = false) :
    Good result := by
  simp only [settles, Bool.or_eq_false_iff, decide_eq_false_iff_not] at h
  exact ⟨h.1.1.2, h.1.2⟩

/-- A navigation that an answer is of waits for the commit the answer names. -/
theorem Sound.await (h : Sound s) {pending : NavigationBinding} {result : NavigateResult}
    (hget : s.pendingNavigations.get navigationId = some pending)
    (hanswered : Entry.answered pending.attempt result ∈ s.log) (hgood : Good result) :
    Sound { s with
      pendingNavigations :=
        s.pendingNavigations.set navigationId { pending with loaderId := some (orNull result.loaderId) } } := by
  refine h.withPending fun id b hb => ?_
  rw [OrderedMap.get_set] at hb
  split at hb
  · rename_i hid
    obtain rfl := Option.some.inj hb
    subst hid
    obtain ⟨hbegan, hunattributed, -⟩ := h.pending navigationId pending hget
    exact ⟨hbegan, hunattributed, fun loaderId hloader => ⟨result, hanswered, hgood, (Option.some.inj hloader).symm⟩⟩
  · exact h.pending id b hb

theorem Sound.answer (h : Sound s) (call : Call) (result : NavigateResult) : Sound (answer s call result) := by
  have hpush : Sound ((SurfaceLedger.attemptFailed s call.attempt (truthy result.errorText)).push
      (.answered call.attempt result)) := (h.attemptFailed _ _).push rfl rfl
  unfold SurfaceLedger.answer
  dsimp only
  split
  · exact hpush
  · rename_i navigationId _
    split
    · exact hpush
    · rename_i pending hget
      split
      · exact hpush
      split
      · exact hpush.forget (some navigationId)
      · rename_i hattempt hsettles
        have hgood := good_of_not_settles (Bool.eq_false_iff.mpr hsettles)
        have hanswered : Entry.answered pending.attempt result ∈ ((SurfaceLedger.attemptFailed s call.attempt
            (truthy result.errorText)).push (.answered call.attempt result)).log := by
          rw [not_not.mp hattempt]
          exact List.mem_append_right _ (List.mem_singleton_self _)
        exact (hpush.await hget hanswered hgood).matchNavigation (by rw [OrderedMap.get_set, if_pos rfl])

theorem Sound.fail (h : Sound s) (call : Call) : Sound (fail s call) :=
  ((h.forget call.navigationId).attemptFailed call.attempt true).push rfl rfl

theorem Sound.frameNavigated (h : Sound s) (frame : Frame) : Sound (frameNavigated s frame) := by
  unfold SurfaceLedger.frameNavigated
  dsimp only
  split
  · refine Sound.navigationCommitted ?_ frame.loaderId
    exact h.of_eq rfl rfl rfl rfl
  · exact h.of_eq rfl rfl rfl rfl

theorem Sound.navigatedWithinDocument (h : Sound s) (url : String) (fragment : Bool) :
    Sound (navigatedWithinDocument s url fragment) := by
  unfold SurfaceLedger.navigatedWithinDocument
  dsimp only
  split
  · refine Sound.navigationCommitted ?_ none
    exact h.of_eq rfl rfl rfl rfl
  · exact h.of_eq rfl rfl rfl rfl

theorem Sound.disposeRecord (h : Sound s) : Sound (disposeRecord s) where
  sequences := h.sequences
  kept := fun key commit hget => by
    rw [SurfaceLedger.disposeRecord, OrderedMap.get_empty] at hget
    cases hget
  pending := fun navigationId pending hget => by
    rw [SurfaceLedger.disposeRecord, OrderedMap.get_empty] at hget
    cases hget
  explained := h.explained
  once := h.once
  distinct := h.distinct

/-- What takes a call from those in flight. -/
theorem takeCall_eq_some {attempt : Nat} {call : Call} {t : State} (h : takeCall s attempt = some (call, t)) :
    call ∈ s.calls ∧ call.attempt = attempt ∧
      t = { s with calls := s.calls.filter fun call => call.attempt ≠ attempt } := by
  obtain ⟨call', hfind, heq⟩ := Option.map_eq_some_iff.mp h
  obtain ⟨rfl, rfl⟩ := Prod.mk.inj heq
  have hattempt := List.find?_some hfind
  exact ⟨List.mem_of_find?_eq_some hfind, of_decide_eq_true hattempt, rfl⟩

theorem Sound.step {a : Action} {t : State} (h : Sound s) (hdistinct : Distinct s a) (hstep : step s a = some t) :
    Sound t := by
  cases a with
  | navigate url id =>
    obtain rfl := Option.some.inj hstep
    refine h.navigate url fun navigationId hid hin => ?_
    obtain ⟨attempt, url', documentId, sequence, hbegan⟩ := mem_begun.mp hin
    rw [Option.mem_def] at hid
    exact hdistinct url navigationId (by rw [hid]) attempt url' documentId sequence hbegan
  | answer attempt result =>
    obtain ⟨⟨call, u⟩, hcall, rfl⟩ := Option.map_eq_some_iff.mp hstep
    obtain ⟨-, -, rfl⟩ := takeCall_eq_some hcall
    have hu : Sound { s with calls := s.calls.filter fun call => call.attempt ≠ attempt } := h.of_eq rfl rfl rfl rfl
    exact hu.answer call result
  | fail attempt =>
    obtain ⟨⟨call, u⟩, hcall, rfl⟩ := Option.map_eq_some_iff.mp hstep
    obtain ⟨-, -, rfl⟩ := takeCall_eq_some hcall
    have hu : Sound { s with calls := s.calls.filter fun call => call.attempt ≠ attempt } := h.of_eq rfl rfl rfl rfl
    exact hu.fail call
  | frameNavigated frame =>
    obtain ⟨-, heq⟩ := Option.ite_none_right_eq_some.mp hstep
    obtain rfl := Option.some.inj heq
    exact h.frameNavigated frame
  | navigatedWithinDocument url fragment =>
    obtain ⟨-, heq⟩ := Option.ite_none_right_eq_some.mp hstep
    obtain rfl := Option.some.inj heq
    exact h.navigatedWithinDocument url fragment
  | close =>
    obtain ⟨-, heq⟩ := Option.ite_none_right_eq_some.mp hstep
    obtain rfl := Option.some.inj heq
    exact h.disposeRecord

theorem sound_run {url : String} {as : List Action} (hmeets : ledger.Meets Distinct (start url) as)
    (hrun : ledger.run (start url) as = some s) : Sound s :=
  ledger.run_invariant (sound_start url) (fun _ _ _ hs hdistinct hstep => hs.step hdistinct hstep) hmeets hrun

end Opensteer.SurfaceLedger
