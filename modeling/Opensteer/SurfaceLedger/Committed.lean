import Opensteer.SurfaceLedger.Correlation

/-!
# Each navigation is attributed once

Every step of the ledger keeps what the last modules are about (`Correlated.step`), so that the commit an answer
names is attributed to the call it answers, whichever came first (`committed_once`).
-/

namespace Opensteer.SurfaceLedger

variable {s t : State} {navigationId id : NavigationId} {attempt : Nat}

structure Correlated (s : State) : Prop where
  sound : Sound s
  calls : Calls s
  order : Order s
  quiet : Quiet s

/-! ## Calls -/

theorem setNavigationFailed_eq (s : State) (failed : Bool) : ∃ navigationFailed loading,
    setNavigationFailed s failed = { s with navigationFailed, loading } := by
  unfold setNavigationFailed
  split
  · exact ⟨s.navigationFailed, s.loading, rfl⟩
  · exact ⟨_, _, rfl⟩

theorem attemptFailed_eq (s : State) (attempt : Nat) (failed : Bool) : ∃ navigationFailed loading,
    attemptFailed s attempt failed = { s with navigationFailed, loading } := by
  unfold attemptFailed
  split
  · exact setNavigationFailed_eq s failed
  · exact ⟨s.navigationFailed, s.loading, rfl⟩

theorem Calls.matchNavigation (h : Calls s) (navigationId : NavigationId) (pending : NavigationBinding) :
    Calls (matchNavigation s navigationId pending) := by
  rcases matchNavigation_cases s navigationId pending with ⟨heq, -⟩ | ⟨key, commit, -, -, heq⟩
  · rwa [heq]
  · rw [heq]
    exact h.grow rfl rfl rfl rfl rfl

theorem Calls.navigationCommitted (h : Calls s) (loaderId : Option String) : Calls (navigationCommitted s loaderId) := by
  have hrecord : Calls (recordCommit s loaderId) := h.grow rfl rfl rfl rfl rfl
  exact foldl_matchNavigation (OrderedMap.nodup _) (fun _ he => OrderedMap.mem_entries.mp he) hrecord
    fun _ e hs _ => hs.matchNavigation e.1 e.2

theorem Order.navigationCommitted (h : Order s) (hsound : Sound s) (loaderId : Option String) :
    Order (navigationCommitted s loaderId) := by
  have hrecord := And.intro (hsound.recordCommit loaderId) (h.recordCommit hsound loaderId)
  exact (foldl_matchNavigation (P := fun s => Sound s ∧ Order s) (OrderedMap.nodup _)
    (fun _ he => OrderedMap.mem_entries.mp he) hrecord
    fun _ e hs hget => ⟨hs.1.matchNavigation hget, hs.2.matchNavigation hs.1 e.2⟩).2

theorem Quiet.of_eq (h : Quiet s) (hpending : t.pendingNavigations = s.pendingNavigations)
    (hcommits : t.recentCommits = s.recentCommits) : Quiet t :=
  fun id => (h id).of_fewer (fun _ hget => hpending ▸ hget) fun _ _ hget => hcommits ▸ hget

/-- A navigation that is recorded waits for nothing yet. -/
theorem Quiet.begin (h : Quiet s) {pending : NavigationBinding} (hloader : pending.loaderId = none)
    (hpending : t.pendingNavigations = s.pendingNavigations.setRecent limit navigationId pending)
    (hcommits : t.recentCommits = s.recentCommits) : Quiet t := by
  intro id pending' key commit hget hcommit
  rw [hpending] at hget
  rw [hcommits] at hcommit
  have hset := OrderedMap.get_setRecent_of_get hget
  rw [OrderedMap.get_set] at hset
  split at hset
  · obtain rfl := Option.some.inj hset
    rintro ⟨-, hwaits⟩
    rw [hloader] at hwaits
    exact hwaits
  · exact h id pending' key commit hset hcommit

theorem Correlated.navigate (h : Correlated s) (url : String) {id : Option NavigationId}
    (hnew : ∀ navigationId ∈ id, navigationId ∉ begun s.log) : Correlated (navigate s url id) := by
  refine ⟨h.sound.navigate url hnew, ?_, ?_, ?_⟩ <;> unfold SurfaceLedger.navigate <;> split
  · exact h.calls
  · obtain ⟨failed, loading, heq⟩ := setNavigationFailed_eq { s with navigationAttempt := s.navigationAttempt + 1 } false
    dsimp only
    rw [heq]
    cases id with
    | none => exact h.calls.beginPlain rfl rfl rfl
    | some navigationId => exact h.calls.begin rfl rfl rfl (hnew navigationId rfl)
  · exact h.order
  · obtain ⟨failed, loading, heq⟩ := setNavigationFailed_eq { s with navigationAttempt := s.navigationAttempt + 1 } false
    dsimp only
    rw [heq]
    cases id with
    | none => exact h.order.of_eq rfl rfl rfl rfl
    | some navigationId => exact h.order.begin h.sound h.calls rfl rfl rfl rfl rfl rfl (hnew navigationId rfl)
  · exact h.quiet
  · obtain ⟨failed, loading, heq⟩ := setNavigationFailed_eq { s with navigationAttempt := s.navigationAttempt + 1 } false
    dsimp only
    rw [heq]
    cases id with
    | none => exact h.quiet.of_eq rfl rfl
    | some navigationId => exact h.quiet.begin rfl rfl rfl

/-! ## Answers -/

/-- An answer behind which nothing is waited for names no loader, of a page that is there. -/
theorem released_of_settles {pending : NavigationBinding} {result : NavigateResult} (hpresent : s.present = true)
    (h : settles s pending result = true) : ¬(Good result ∧ (orNull result.loaderId).isSome) := by
  rintro ⟨⟨hnoError, hnoDownload⟩, hsome⟩
  have htruthy : truthy result.loaderId = true := by
    unfold orNull at hsome
    split at hsome
    · assumption
    · cases hsome
  simp [settles, hpresent, hnoError, hnoDownload, htruthy] at h

/-- The state once the call has ended with the entry. -/
def State.endCall (s : State) (call : Call) (failed : Bool) (entry : Entry) : State :=
  (attemptFailed { s with calls := s.calls.filter fun call' => call'.attempt ≠ call.attempt } call.attempt failed).push
    entry

theorem endCall_eq (s : State) (call : Call) (failed : Bool) (entry : Entry) : ∃ navigationFailed loading,
    s.endCall call failed entry =
      { s with
        navigationFailed, loading
        calls := s.calls.filter fun call' => call'.attempt ≠ call.attempt
        log := s.log ++ [entry] } := by
  obtain ⟨navigationFailed, loading, heq⟩ := attemptFailed_eq
    { s with calls := s.calls.filter fun call' => call'.attempt ≠ call.attempt } call.attempt failed
  exact ⟨navigationFailed, loading, by rw [State.endCall, heq]; rfl⟩

/-- What an answer does: nothing where the navigation is no longer pending as it was, else it is forgotten or waits
for what the answer names. -/
theorem answer_cases (s : State) (call : Call) (result : NavigateResult) : ∃ u,
    u = s.endCall call (truthy result.errorText) (.answered call.attempt result) ∧
    ((answer { s with calls := s.calls.filter fun call' => call'.attempt ≠ call.attempt } call result = u ∧
        ∀ id pending, call.navigationId = some id → u.pendingNavigations.get id = some pending →
          pending.attempt ≠ call.attempt) ∨
    ∃ id pending, call.navigationId = some id ∧ u.pendingNavigations.get id = some pending ∧
      pending.attempt = call.attempt ∧
      ((settles u pending result = true ∧
        answer { s with calls := s.calls.filter fun call' => call'.attempt ≠ call.attempt } call result =
          { u with pendingNavigations := u.pendingNavigations.delete id }) ∨
      (Good result ∧
        answer { s with calls := s.calls.filter fun call' => call'.attempt ≠ call.attempt } call result =
          matchNavigation
            { u with
              pendingNavigations :=
                u.pendingNavigations.set id { pending with loaderId := some (orNull result.loaderId) } }
            id { pending with loaderId := some (orNull result.loaderId) }))) := by
  refine ⟨_, rfl, ?_⟩
  obtain ⟨u, hu⟩ : ∃ u, u = s.endCall call (truthy result.errorText) (.answered call.attempt result) := ⟨_, rfl⟩
  unfold State.endCall at hu
  unfold SurfaceLedger.answer State.endCall
  dsimp only
  rw [← hu]
  cases hid : call.navigationId with
  | none => exact .inl ⟨rfl, fun _ _ heq => by cases heq⟩
  | some id =>
    dsimp only
    cases hget : u.pendingNavigations.get id with
    | none =>
      refine .inl ⟨rfl, fun id' pending heq hsome => ?_⟩
      rw [← Option.some.inj heq, hget] at hsome
      cases hsome
    | some pending =>
      dsimp only
      by_cases hattempt : pending.attempt = call.attempt
      · rw [if_neg (not_not.mpr hattempt)]
        refine .inr ⟨id, pending, rfl, hget, hattempt, ?_⟩
        cases hsettles : settles u pending result with
        | true => exact .inl ⟨rfl, rfl⟩
        | false => exact .inr ⟨good_of_not_settles hsettles, rfl⟩
      · rw [if_pos hattempt]
        refine .inl ⟨rfl, fun id' pending' heq hsome => ?_⟩
        rw [← Option.some.inj heq, hget] at hsome
        rwa [← Option.some.inj hsome]

theorem Correlated.answer (h : Correlated s) {call : Call} (hcall : call ∈ s.calls) (result : NavigateResult) :
    Correlated
      (answer { s with calls := s.calls.filter fun call' => call'.attempt ≠ call.attempt } call result) := by
  have hended : Sound (SurfaceLedger.answer { s with calls := s.calls.filter fun call' => call'.attempt ≠ call.attempt } call result) := by
    refine Sound.answer ?_ call result
    exact h.sound.of_eq rfl rfl rfl rfl
  obtain ⟨failed, loading, hu⟩ :=
    endCall_eq s call (truthy result.errorText) (.answered call.attempt result)
  obtain ⟨u, rfl, hcases⟩ := answer_cases s call result
  have hsound : Sound (s.endCall call (truthy result.errorText) (.answered call.attempt result)) := by
    refine Sound.push (Sound.attemptFailed ?_ _ _) rfl rfl
    exact h.sound.of_eq rfl rfl rfl rfl
  rw [hu] at hcases hsound
  rcases hcases with ⟨heq, hnone⟩ | ⟨id, pending, hid, hget, hattempt, ⟨hsettles, heq⟩ | ⟨hgood, heq⟩⟩
  · rw [heq] at hended ⊢
    refine ⟨hended, h.calls.ends hcall rfl rfl rfl rfl, ?_, h.quiet.of_eq rfl rfl⟩
    refine h.order.ends h.calls hcall rfl rfl (List.Sublist.refl _) rfl rfl (fun _ _ => rfl) ?_
    exact fun id pending hid _ hget hattempt => absurd hattempt (hnone id pending hid hget)
  · rw [heq] at hended ⊢
    refine ⟨hended, h.calls.ends hcall rfl rfl rfl rfl, ?_, fun id' => ?_⟩
    · refine h.order.ends h.calls hcall rfl rfl (OrderedMap.keys_delete _ _) rfl rfl (fun id' hne => ?_) ?_
      · rw [OrderedMap.get_delete, if_neg]
        rintro rfl
        exact hne hid
      · intro _ _ _ hpresent _ _
        exact .inl ⟨result, List.mem_append_right _ (List.mem_singleton_self _), released_of_settles hpresent hsettles⟩
    · exact (h.quiet id').of_fewer (fun _ => OrderedMap.get_of_delete) fun _ _ hget => hget
  · rw [heq] at hended ⊢
    have hanswered : Entry.answered pending.attempt result ∈ s.log ++ [Entry.answered call.attempt result] := by
      rw [hattempt]
      exact List.mem_append_right _ (List.mem_singleton_self _)
    have hawait := hsound.await hget hanswered hgood
    refine ⟨hended, Calls.matchNavigation ?_ _ _, Order.matchNavigation ?_ hawait _, fun id' => ?_⟩
    · exact h.calls.ends hcall rfl rfl rfl rfl
    · refine h.order.ends h.calls hcall rfl rfl ?_ rfl rfl (fun id' hne => ?_) ?_
      · have hmem : id ∈ s.pendingNavigations.keys :=
          OrderedMap.mem_keys.mpr (Option.isSome_iff_exists.mpr ⟨pending, hget⟩)
        exact OrderedMap.keys_set_of_mem hmem ▸ List.Sublist.refl _
      · rw [OrderedMap.get_set, if_neg]
        rintro rfl
        exact hne hid
      · intro id' pending' hid' _ hget' _
        obtain rfl := Option.some.inj (hid.symm.trans hid')
        obtain rfl := Option.some.inj (hget.symm.trans hget')
        refine .inr (.inr ⟨{ pending with loaderId := some (orNull result.loaderId) }, ?_, rfl, rfl, Option.some_ne_none _⟩)
        rw [OrderedMap.get_set, if_pos rfl]
    · by_cases hne : id = id'
      · subst hne
        exact quietAt_matchNavigation (by rw [OrderedMap.get_set, if_pos rfl])
      · refine QuietAt.matchNavigation ((h.quiet id').of_fewer (fun pending' hget' => ?_) fun _ _ hget => hget)
        rwa [OrderedMap.get_set, if_neg hne] at hget'

theorem forget_get (s : State) (navigationId : Option NavigationId) {pending : NavigationBinding}
    (h : (forget s navigationId).pendingNavigations.get id = some pending) :
    s.pendingNavigations.get id = some pending := by
  cases navigationId with
  | none => exact h
  | some navigationId => exact OrderedMap.get_of_delete h

theorem Correlated.fail (h : Correlated s) {call : Call} (hcall : call ∈ s.calls) :
    Correlated (fail { s with calls := s.calls.filter fun call' => call'.attempt ≠ call.attempt } call) := by
  have hsound : Sound (SurfaceLedger.fail { s with calls := s.calls.filter fun call' => call'.attempt ≠ call.attempt } call) := by
    refine Sound.fail ?_ call
    exact h.sound.of_eq rfl rfl rfl rfl
  refine ⟨hsound, ?_, ?_, ?_⟩ <;> unfold SurfaceLedger.fail <;>
    obtain ⟨failed, loading, heq⟩ := attemptFailed_eq
      (forget { s with calls := s.calls.filter fun call' => call'.attempt ≠ call.attempt } call.navigationId)
      call.attempt true <;> rw [heq]
  · cases hid : call.navigationId <;> exact h.calls.ends hcall rfl rfl rfl rfl
  · cases hid : call.navigationId with
    | none =>
      refine h.order.ends h.calls hcall rfl rfl (List.Sublist.refl _) rfl rfl (fun _ _ => rfl) fun id _ heq => ?_
      rw [hid] at heq
      cases heq
    | some id =>
      refine h.order.ends h.calls hcall rfl rfl (OrderedMap.keys_delete _ _) rfl rfl (fun id' hne => ?_) ?_
      · refine (OrderedMap.get_delete _).trans (if_neg ?_)
        rintro rfl
        exact hne hid
      · exact fun _ _ _ _ _ _ => .inr (.inl (List.mem_append_right _ (List.mem_singleton_self _)))
  · intro id
    refine (h.quiet id).of_fewer (fun _ hget => ?_) fun _ _ hget => ?_
    · exact forget_get { s with calls := s.calls.filter fun call' => call'.attempt ≠ call.attempt } _ hget
    · cases hid : call.navigationId <;> rw [hid] at hget <;> exact hget

/-! ## Runs -/

theorem correlated_start (url : String) : Correlated (start url) where
  sound := sound_start url
  calls := calls_start url
  order := order_start url
  quiet := fun id pending key commit hget => by
    rw [start, OrderedMap.get_empty] at hget
    cases hget

theorem Correlated.of_eq (h : Correlated s) (hlog : t.log = s.log) (hsequence : t.commitSequence = s.commitSequence)
    (hpending : t.pendingNavigations = s.pendingNavigations) (hcommits : t.recentCommits = s.recentCommits)
    (hpresent : t.present = s.present) (hcalls : t.calls = s.calls)
    (hcount : t.navigationAttempt = s.navigationAttempt) : Correlated t where
  sound := h.sound.of_eq hlog hsequence hpending hcommits
  calls := h.calls.of_eq hlog hcalls hcount
  order := h.order.of_eq hlog hpending hcommits hpresent
  quiet := h.quiet.of_eq hpending hcommits

theorem Correlated.navigationCommitted (h : Correlated s) (loaderId : Option String) :
    Correlated (navigationCommitted s loaderId) where
  sound := h.sound.navigationCommitted loaderId
  calls := h.calls.navigationCommitted loaderId
  order := h.order.navigationCommitted h.sound loaderId
  quiet := quiet_navigationCommitted s loaderId

theorem Correlated.frameNavigated (h : Correlated s) (frame : Frame) : Correlated (frameNavigated s frame) := by
  unfold SurfaceLedger.frameNavigated
  dsimp only
  split
  · refine Correlated.navigationCommitted ?_ frame.loaderId
    exact h.of_eq rfl rfl rfl rfl rfl rfl rfl
  · exact h.of_eq rfl rfl rfl rfl rfl rfl rfl

theorem Correlated.navigatedWithinDocument (h : Correlated s) (url : String) (fragment : Bool) :
    Correlated (navigatedWithinDocument s url fragment) := by
  unfold SurfaceLedger.navigatedWithinDocument
  dsimp only
  split
  · refine Correlated.navigationCommitted ?_ none
    exact h.of_eq rfl rfl rfl rfl rfl rfl rfl
  · exact h.of_eq rfl rfl rfl rfl rfl rfl rfl

theorem Correlated.disposeRecord (h : Correlated s) : Correlated (disposeRecord s) where
  sound := h.sound.disposeRecord
  calls := h.calls.of_eq rfl rfl rfl
  order := ⟨h.order.counted, List.nil_sublist _, List.nil_sublist _, (nomatch ·), (nomatch ·)⟩
  quiet := fun id pending key commit hget => by
    rw [SurfaceLedger.disposeRecord, OrderedMap.get_empty] at hget
    cases hget

theorem Correlated.step {a : Action} (h : Correlated s) (hdistinct : Distinct s a) (hstep : step s a = some t) :
    Correlated t := by
  cases a with
  | navigate url id =>
    obtain rfl := Option.some.inj hstep
    refine h.navigate url fun navigationId hid hin => ?_
    obtain ⟨attempt, url', documentId, sequence, hbegan⟩ := mem_begun.mp hin
    rw [Option.mem_def] at hid
    exact hdistinct url navigationId (by rw [hid]) attempt url' documentId sequence hbegan
  | answer attempt result =>
    obtain ⟨⟨call, u⟩, htake, rfl⟩ := Option.map_eq_some_iff.mp hstep
    obtain ⟨hcall, rfl, rfl⟩ := takeCall_eq_some htake
    exact h.answer hcall result
  | fail attempt =>
    obtain ⟨⟨call, u⟩, htake, rfl⟩ := Option.map_eq_some_iff.mp hstep
    obtain ⟨hcall, rfl, rfl⟩ := takeCall_eq_some htake
    exact h.fail hcall
  | frameNavigated frame =>
    obtain ⟨-, heq⟩ := Option.ite_none_right_eq_some.mp hstep
    obtain rfl := Option.some.inj heq
    exact h.frameNavigated frame
  | navigatedWithinDocument url fragment =>
    obtain ⟨-, heq⟩ := Option.ite_none_right_eq_some.mp hstep
    obtain rfl := Option.some.inj heq
    exact h.navigatedWithinDocument url fragment
  | close =>
    obtain ⟨-, heq⟩ := Option.ite_none_right_eq_some.mp hstep
    obtain rfl := Option.some.inj heq
    exact h.disposeRecord

theorem correlated_run {url : String} {as : List Action} (hmeets : ledger.Meets Distinct (start url) as)
    (hrun : ledger.run (start url) as = some s) : Correlated s :=
  ledger.run_invariant (correlated_start url) (fun _ _ _ hs hdistinct hstep => hs.step hdistinct hstep) hmeets hrun

/-! ## Attributions -/

variable {log pre post : List Entry} {url loaderId : String} {documentId sequence : Nat} {commit : NavigationCommit}

/-- The attempt's answer is no error and no download, and names the loader. -/
def Names (log : List Entry) (attempt : Nat) (loaderId : String) : Prop :=
  ∃ result, Entry.answered attempt result ∈ log ∧ Good result ∧ orNull result.loaderId = some loaderId

/-- The commit is one since the navigation began, and carries the loader that its answer names, or where it names
none is a same-document commit of the document the navigation began on, with its url. -/
def Rightly (log : List Entry) (navigationId : NavigationId) (commit : NavigationCommit) : Prop :=
  ∃ pre attempt url documentId sequence post result,
    log = pre ++ Entry.began navigationId attempt url documentId sequence :: post ∧ commit ∈ commits post ∧
    Entry.answered attempt result ∈ log ∧ Good result ∧
    (∀ loaderId, orNull result.loaderId = some loaderId → (∀ n, loaderId ≠ commitKey none n) →
      commit.loaderId = some loaderId) ∧
    (orNull result.loaderId = none → commit.loaderId = none ∧ commit.documentId = documentId ∧ commit.url = url)

/-- The loader is of one navigation: no other attempt's answer names it, no commit before is of it, and it is not
written as the key of a same-document commit. -/
structure Identifies (log pre : List Entry) (attempt : Nat) (loaderId : String) : Prop where
  named : ∀ attempt', Names log attempt' loaderId → attempt' = attempt
  fresh : ∀ commit ∈ commits pre, commit.loaderId ≠ some loaderId
  plain : ∀ n, loaderId ≠ commitKey none n

theorem loaderId_of_commitKey {n : Nat} {loaderId : Option String} {key : String} (hkey : commitKey loaderId n = key)
    (hplain : ∀ n, key ≠ commitKey none n) : loaderId = some key := by
  cases loaderId with
  | none => exact absurd hkey.symm (hplain n)
  | some loaderId => rw [← hkey]; rfl

/-- A commit with a greater sequence than a navigation's is recorded behind it. -/
theorem Correlated.mem_post (h : Correlated s)
    (hlog : s.log = pre ++ Entry.began navigationId attempt url documentId sequence :: post)
    (hcommit : commit ∈ commits s.log) (hsequence : sequence < commit.sequence) : commit ∈ commits post := by
  have hcount : sequence = (commits pre).length := h.order.counted pre _ post hlog _ _ _ _ _ rfl
  have hsplit : commits s.log = commits pre ++ commits post := by
    rw [hlog, commits_append]
    rfl
  rw [hsplit, List.mem_append] at hcommit
  refine hcommit.resolve_left fun hpre => ?_
  have hrange := h.sound.sequences
  rw [hsplit, List.map_append] at hrange
  obtain ⟨n, -, hfirst, -⟩ := List.range'_eq_append_iff.mp hrange.symm
  have hlength := congrArg List.length hfirst
  rw [List.length_map, List.length_range'] at hlength
  have hmem := List.mem_map_of_mem (f := NavigationCommit.sequence) hpre
  rw [hfirst, List.mem_range'_1] at hmem
  omega

theorem Correlated.rightly (h : Correlated s) (hattributed : Entry.attributed navigationId commit ∈ s.log) :
    Rightly s.log navigationId commit := by
  obtain ⟨attempt, url, documentId, sequence, result, hbegan, hanswered, hcommit, hsequence, hgood, hcarries⟩ :=
    h.sound.explained navigationId commit hattributed
  obtain ⟨pre, post, hlog⟩ := List.append_of_mem hbegan
  refine ⟨pre, attempt, url, documentId, sequence, post, result, hlog, h.mem_post hlog hcommit hsequence, hanswered, hgood,
    fun loaderId hloader hplain => ?_, fun hloader => ?_⟩
  · rw [Carries, hloader] at hcarries
    exact loaderId_of_commitKey hcarries hplain
  · rw [Carries, hloader] at hcarries
    exact hcarries

/-- An attempt ends once. -/
theorem Calls.result_eq (h : Calls s) {result result' : NavigateResult} (hr : Entry.answered attempt result ∈ s.log)
    (hr' : Entry.answered attempt result' ∈ s.log) : result = result' :=
  (Entry.answered.inj (eq_of_nodup_filterMap h.once hr hr' rfl rfl)).2

theorem Calls.not_failed (h : Calls s) {result : NavigateResult} (hr : Entry.answered attempt result ∈ s.log) :
    Entry.failed attempt ∉ s.log := fun hf => by
  cases eq_of_nodup_filterMap h.once hr hf rfl rfl

/-- A navigation id is of one attempt. -/
theorem Calls.attempt_eq (h : Calls s) {attempt' : Nat} {url' : String} {documentId' sequence' : Nat}
    (hb : Entry.began id attempt url documentId sequence ∈ s.log)
    (hb' : Entry.began id attempt' url' documentId' sequence' ∈ s.log) : attempt' = attempt :=
  (Entry.began.inj (eq_of_nodup_filterMap h.distinct hb' hb rfl rfl)).2.1

/-- An attempt is of one navigation id. -/
theorem Calls.id_eq (h : Calls s) {id' : NavigationId} {url' : String} {documentId' sequence' : Nat}
    (hb : Entry.began id attempt url documentId sequence ∈ s.log)
    (hb' : Entry.began id' attempt url' documentId' sequence' ∈ s.log) : id' = id :=
  (Entry.began.inj (eq_of_nodup_filterMap h.begunOnce hb' hb rfl rfl)).1

/-- What is attributed to a call whose answer names a loader, or is of the loader, is its commit. -/
theorem Correlated.names_of_key (h : Correlated s) (hattributed : Entry.attributed navigationId commit ∈ s.log)
    (hkey : commitKey commit.loaderId commit.sequence = loaderId) (hplain : ∀ n, loaderId ≠ commitKey none n) :
    ∃ attempt url documentId sequence, Entry.began navigationId attempt url documentId sequence ∈ s.log ∧
      Names s.log attempt loaderId := by
  obtain ⟨attempt, url, documentId, sequence, result, hbegan, hanswered, -, -, hgood, hcarries⟩ :=
    h.sound.explained navigationId commit hattributed
  refine ⟨attempt, url, documentId, sequence, hbegan, result, hanswered, hgood, ?_⟩
  unfold Carries at hcarries
  cases hloader : orNull result.loaderId with
  | none =>
    rw [hloader] at hcarries
    rw [hcarries.1] at hkey
    exact absurd hkey.symm (hplain _)
  | some loaderId' =>
    rw [hloader] at hcarries
    rw [← hkey, hcarries]

/-- The commit that an answer names is attributed to the call it answers, whichever came first. -/
theorem Correlated.attributed (h : Correlated s)
    (hlog : s.log = pre ++ Entry.began id attempt url documentId sequence :: post) (hnames : Names s.log attempt loaderId)
    (hidentifies : Identifies s.log pre attempt loaderId) (hcommit : ∃ commit ∈ commits post, commit.loaderId = some loaderId)
    (hnavigations : (begun post).length < limit) (hcommits : (commits post).length ≤ limit) (hpresent : s.present = true) :
    ∃ commit, Entry.attributed id commit ∈ s.log ∧ commit.loaderId = some loaderId := by
  obtain ⟨result, hanswered, hgood, hloader⟩ := hnames
  have hbegan : Entry.began id attempt url documentId sequence ∈ s.log :=
    hlog ▸ List.mem_append_right _ List.mem_cons_self
  rcases h.order.held hpresent pre _ post hlog id attempt url documentId sequence rfl hnavigations with
    ⟨commit, hattributed⟩ | ⟨result', hanswered', hreleased⟩ | hfailed | ⟨pending, hget, hattempt, hsequence, hopen⟩
  · obtain ⟨pre', attempt', _, _, _, post', result', hlog', -, hanswered', -, hcarries, -⟩ := h.rightly hattributed
    obtain rfl := h.calls.attempt_eq hbegan (hlog' ▸ List.mem_append_right _ List.mem_cons_self)
    obtain rfl := h.calls.result_eq hanswered hanswered'
    exact ⟨commit, hattributed, hcarries loaderId hloader hidentifies.plain⟩
  · obtain rfl := h.calls.result_eq hanswered hanswered'
    exact absurd ⟨hgood, by rw [hloader]; rfl⟩ hreleased
  · exact absurd hfailed (h.calls.not_failed hanswered)
  · have hwaiting := h.sound.pending id pending hget
    have hwaits : pending.loaderId = some (some loaderId) := by
      cases hpending : pending.loaderId with
      | none => exact absurd (mem_ended_of_answered hanswered) (hopen hpending)
      | some waited =>
        obtain ⟨result', hanswered', -, rfl⟩ := hwaiting.answered waited hpending
        rw [hattempt] at hanswered'
        obtain rfl := h.calls.result_eq hanswered hanswered'
        rw [hloader]
    have hsplit : s.log = (pre ++ [Entry.began id attempt url documentId sequence]) ++ post := by
      rw [hlog, List.append_assoc, List.singleton_append]
    have hpre : commits (pre ++ [Entry.began id attempt url documentId sequence]) = commits pre := by
      rw [commits_append]
      exact List.append_nil _
    have hold : loaderId ∉ commitKeys (pre ++ [Entry.began id attempt url documentId sequence]) := by
      rw [commitKeys, hpre]
      intro hin
      obtain ⟨commit, hmem, hkey⟩ := List.mem_map.mp hin
      exact hidentifies.fresh commit hmem (loaderId_of_commitKey hkey hidentifies.plain)
    have hin : loaderId ∈ commitKeys post := by
      obtain ⟨commit, hmem, hsome⟩ := hcommit
      exact List.mem_map.mpr ⟨commit, hmem, by rw [hsome]; rfl⟩
    rcases h.order.retained hpresent _ post loaderId hsplit hold hcommits hin with
      ⟨id', commit, hattributed, hkey⟩ | ⟨commit, hrecent, hlater⟩
    · obtain ⟨attempt', _, _, _, hbegan', hnames⟩ := h.names_of_key hattributed hkey hidentifies.plain
      obtain rfl := hidentifies.named attempt' hnames
      obtain rfl := h.calls.id_eq hbegan hbegan'
      exact absurd hattributed (hwaiting.unattributed commit)
    · have hcount : sequence = (commits pre).length := h.order.counted pre _ post hlog _ _ _ _ _ rfl
      rw [hpre, ← hcount, ← hsequence] at hlater
      refine absurd ⟨hlater, ?_⟩ (h.quiet id pending loaderId commit hget hrecent)
      rw [hwaits]

/-- Over every run, each navigation id and each commit is attributed at most once, and rightly; and the commit that
an answer names is attributed to the call it answers while no more than the limit have been recorded since. -/
theorem committed_once {url₀ : String} {as : List Action} (hmeets : ledger.Meets Distinct (start url₀) as)
    (hrun : ledger.run (start url₀) as = some s) :
    ((attributions s.log).map Prod.fst).Nodup ∧ ((attributions s.log).map Prod.snd).Nodup ∧
    (∀ navigationId commit, Entry.attributed navigationId commit ∈ s.log → Rightly s.log navigationId commit) ∧
    ∀ pre id attempt url documentId sequence post loaderId,
      s.log = pre ++ Entry.began id attempt url documentId sequence :: post → Names s.log attempt loaderId →
      Identifies s.log pre attempt loaderId → (∃ commit ∈ commits post, commit.loaderId = some loaderId) →
      (begun post).length < limit → (commits post).length ≤ limit → s.present = true →
      ∃ commit, Entry.attributed id commit ∈ s.log ∧ commit.loaderId = some loaderId := by
  have h := correlated_run hmeets hrun
  exact ⟨h.sound.once, h.sound.distinct, fun _ _ => h.rightly,
    fun _ _ _ _ _ _ _ _ hlog hnames hidentifies hcommit hnavigations hcommits hpresent =>
      h.attributed hlog hnames hidentifies hcommit hnavigations hcommits hpresent⟩

instance (s : State) (a : Action) : Decidable (Distinct s a) :=
  decidable_of_iff
    (∀ navigationId ∈ (match a with | .navigate _ id => id | _ => none), navigationId ∉ begun s.log) <| by
    constructor
    · rintro h url id rfl attempt url' documentId sequence hmem
      exact h id rfl (mem_begun.mpr ⟨attempt, url', documentId, sequence, hmem⟩)
    · intro h id hid hin
      obtain ⟨attempt, url', documentId, sequence, hmem⟩ := mem_begun.mp hin
      cases a with
      | navigate url navigationId =>
        obtain rfl : navigationId = some id := hid
        exact h url id rfl attempt url' documentId sequence hmem
      | answer attempt result => cases hid
      | fail attempt => cases hid
      | frameNavigated frame => cases hid
      | navigatedWithinDocument url fragment => cases hid
      | close => cases hid

/-- The document commits before its answer comes. -/
theorem committed_once_before : ∃ s, ledger.run (start "")
    [.navigate "a" (some "n"), .frameNavigated { url := "a", loaderId := some "L" },
      .answer 1 { frameId := some "F", loaderId := some "L" }] = some s ∧
    ∃ commit, Entry.attributed "n" commit ∈ s.log ∧ commit.loaderId = some "L" := by
  obtain ⟨s, hrun, hlog, hpresent⟩ := ledger.exists_run_of_any (s := start "")
    (l := [.navigate "a" (some "n"), .frameNavigated { url := "a", loaderId := some "L" },
      .answer 1 { frameId := some "F", loaderId := some "L" }])
    (P := fun s => s.log = [.began "n" 1 "a" 0 0, .committed ⟨1, "a", 1, some "L"⟩,
      .answered 1 { frameId := some "F", loaderId := some "L" }, .attributed "n" ⟨1, "a", 1, some "L"⟩] ∧
      s.present = true) (by decide +kernel)
  have hmeets : ledger.Meets Distinct (start "")
      [.navigate "a" (some "n"), .frameNavigated { url := "a", loaderId := some "L" },
        .answer 1 { frameId := some "F", loaderId := some "L" }] := by decide +kernel
  have hanswered : Entry.answered 1 { frameId := some "F", loaderId := some "L" } ∈ s.log := by
    rw [hlog]
    decide
  have hnames : Names s.log 1 "L" := ⟨_, hanswered, ⟨rfl, by decide⟩, by decide⟩
  refine ⟨s, hrun, (committed_once hmeets hrun).2.2.2 [] "n" 1 "a" 0 0 _ "L" hlog hnames ?_ ?_ ?_ ?_ hpresent⟩
  · refine ⟨?_, fun _ hmem => absurd hmem List.not_mem_nil, fun n heq => ?_⟩
    · rintro attempt' ⟨result, hmem, -⟩
      rw [hlog] at hmem
      simp at hmem
      exact hmem.1
    · have hlength := congrArg String.length heq
      rw [commitKey, Option.getD_none, String.length_append] at hlength
      have hfixed : "L".length = 1 ∧ "same-document:".length = 14 := by decide
      omega
  · exact ⟨⟨1, "a", 1, some "L"⟩, by decide, rfl⟩
  · decide
  · decide

/-- Two calls whose answers name one loader: its commit is attributed to the first of them only. -/
theorem not_committed_second : ∃ s, ledger.Meets Distinct (start "")
      [.navigate "a" (some "n"), .navigate "a" (some "m"), .answer 1 { loaderId := some "L" },
        .answer 2 { loaderId := some "L" }, .frameNavigated { url := "a", loaderId := some "L" }] ∧
    ledger.run (start "")
      [.navigate "a" (some "n"), .navigate "a" (some "m"), .answer 1 { loaderId := some "L" },
        .answer 2 { loaderId := some "L" }, .frameNavigated { url := "a", loaderId := some "L" }] = some s ∧
    s.log = [.began "n" 1 "a" 0 0, .began "m" 2 "a" 0 0, .answered 1 { loaderId := some "L" },
      .answered 2 { loaderId := some "L" }, .committed ⟨1, "a", 1, some "L"⟩, .attributed "n" ⟨1, "a", 1, some "L"⟩] ∧
    s.present = true ∧ ∀ commit, Entry.attributed "m" commit ∉ s.log := by
  obtain ⟨s, hrun, hlog, hpresent⟩ := ledger.exists_run_of_any (s := start "")
    (l := [.navigate "a" (some "n"), .navigate "a" (some "m"), .answer 1 { loaderId := some "L" },
      .answer 2 { loaderId := some "L" }, .frameNavigated { url := "a", loaderId := some "L" }])
    (P := fun s => s.log = [.began "n" 1 "a" 0 0, .began "m" 2 "a" 0 0, .answered 1 { loaderId := some "L" },
      .answered 2 { loaderId := some "L" }, .committed ⟨1, "a", 1, some "L"⟩,
      .attributed "n" ⟨1, "a", 1, some "L"⟩] ∧ s.present = true) (by decide +kernel)
  refine ⟨s, by decide +kernel, hrun, hlog, hpresent, fun commit hmem => ?_⟩
  rw [hlog] at hmem
  simp at hmem

end Opensteer.SurfaceLedger
