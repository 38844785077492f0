import Opensteer.BrowserHistory.Log

/-!
# The reads and mutations in flight

`Sound` is the invariant: a read that is current is its profile's pending one (`Held.reads`), and what is known of
a pending read in each phase is `Reading`. Each operation changes what is of one profile and leaves the others
(`Sound.held_of`).
-/

namespace Opensteer.BrowserHistory

open Chronicle

/-- A pending read waits for the mutations in flight, or the Host was asked when there were none, and nothing has
cancelled it since; once it is over it has been installed or has failed. -/
structure Reading (log : List Event) (profileId : String) (state : ProfileHistory) (read : Read) : Prop where
  profileId_eq : read.profileId = profileId
  object : read.object = state.object
  version : read.version = state.version
  awaits : ∀ id ∈ state.mutations, id ∈ read.mutations
  made : ¬Owing log profileId
  asked : read.phase ≠ .waiting → state.mutations = [] ∧
    ∃ (pre post : List Event), log = pre ++ Event.dispatched read.id profileId :: post ∧ (∀ e ∈ post, e.cancels profileId = false) ∧
      (∀ read', Event.dispatched read' profileId ∉ post) ∧ (Event.noticed profileId ∈ post → state.stale = true) ∧
      (read.phase = .settled →
        (∃ (between since : List Event), post = between ++ Event.installed read.id profileId state.value :: since) ∨
        Event.readFailed read.id profileId ∈ post)

structure Held (s : State) (profileId : String) (state : ProfileHistory) : Prop where
  scope : s.scope.isSome = true
  profileId_ne : profileId ≠ ""
  object : state.object < s.objectCount
  mutations : ∀ id, id ∈ state.mutations ↔
    ∃ mutation ∈ s.mutations, mutation.id = id ∧ mutation.profileId = profileId ∧ mutation.object = state.object
  pending : ∀ id, state.pending = some id → ∃ read ∈ s.reads, read.id = id ∧ Reading s.log profileId state read
  reads : ∀ read ∈ s.reads, read.profileId = profileId → read.object = state.object →
    read.version ≤ state.version ∧ (read.version = state.version → state.pending = some read.id)

structure Sound (s : State) : Prop where
  held : ∀ profileId state, s.profiles.get profileId = some state → Held s profileId state
  reads : ∀ read ∈ s.reads, read.id < s.readCount ∧ read.object < s.objectCount
  readIds : (s.reads.map Read.id).Nodup
  mutations : ∀ mutation ∈ s.mutations, mutation.id < s.mutationCount ∧ mutation.object < s.objectCount
  mutationIds : (s.mutations.map Mutation.id).Nodup
  logged : ∀ id profileId change discards, Event.began id profileId change discards ∈ s.log →
    Event.settled id ∈ s.log ∨ ∃ mutation ∈ s.mutations, mutation.id = id ∧ mutation.profileId = profileId
  installed : Before Undisturbed s.log

variable {s t : State} {profileId : String} {state state' : ProfileHistory} {read : Read} {event : Event}
  {log events : List Event}

theorem sound_start (listeners : Nat) : Sound (start listeners) where
  held := fun profileId state h => by
    rw [start, OrderedMap.get_empty] at h
    cases h
  reads := fun _ h => absurd h List.not_mem_nil
  readIds := List.nodup_nil
  mutations := fun _ h => absurd h List.not_mem_nil
  mutationIds := List.nodup_nil
  logged := fun _ _ _ _ h => absurd h List.not_mem_nil
  installed := Before.nil _

/-! ## What one event more leaves -/

theorem Reading.push (h : Reading log profileId state read) (hobject : state'.object = state.object)
    (hversion : state'.version = state.version) (hmutations : state'.mutations = state.mutations)
    (hvalue : state'.value = state.value) (hstale : state.stale = true → state'.stale = true)
    (hcancels : event.cancels profileId = false) (hdispatched : ∀ read, event ≠ .dispatched read profileId)
    (hnoticed : event = .noticed profileId → state'.stale = true) : Reading (log ++ [event]) profileId state' read where
  profileId_eq := h.profileId_eq
  object := h.object.trans hobject.symm
  version := h.version.trans hversion.symm
  awaits := hmutations ▸ h.awaits
  made := by
    rw [owing_snoc]
    rintro (⟨_, _, rfl⟩ | ⟨howing, -⟩)
    · simp [Event.cancels] at hcancels
    · exact h.made howing
  asked := fun hphase => by
    obtain ⟨hnone, pre, post, rfl, hundisturbed, hlast, hnotice, hanswered⟩ := h.asked hphase
    refine ⟨hmutations.trans hnone, pre, post ++ [event], by rw [List.append_assoc, List.cons_append], fun e he => ?_,
      fun read' he => ?_, fun he => ?_, fun hsettled => ?_⟩
    · rcases List.mem_append.mp he with he | he
      · exact hundisturbed e he
      · exact List.mem_singleton.mp he ▸ hcancels
    · rcases List.mem_append.mp he with he | he
      · exact hlast read' he
      · exact hdispatched read' (List.mem_singleton.mp he).symm
    · rcases List.mem_append.mp he with he | he
      · exact hstale (hnotice he)
      · exact hnoticed (List.mem_singleton.mp he).symm
    · rcases hanswered hsettled with ⟨between, since, hpost⟩ | hfailed
      · exact .inl ⟨between, since ++ [event], by rw [hpost, hvalue, List.append_assoc, List.cons_append]⟩
      · exact .inr (List.mem_append_left _ hfailed)

theorem Event.cancels_of_not_about (h : event.about profileId = false) : event.cancels profileId = false := by
  cases event <;> first | rfl | exact h

theorem Reading.of_not_about (h : Reading log profileId state read) (habout : ∀ e ∈ events, e.about profileId = false) :
    Reading (log ++ events) profileId state read := by
  induction events generalizing log with
  | nil => rwa [List.append_nil]
  | cons e events ih =>
    obtain ⟨he, hrest⟩ := List.forall_mem_cons.mp habout
    rw [List.append_cons]
    refine ih (h.push rfl rfl rfl rfl id (Event.cancels_of_not_about he) ?_ ?_) hrest
    · rintro read' rfl
      simp [Event.about] at he
    · rintro rfl
      simp [Event.about] at he

/-- A read that waits is known by what it waits for. -/
theorem Reading.of_waiting (h : Reading log profileId state read) (hphase : read.phase = .waiting)
    (hobject : state'.object = state.object) (hversion : state'.version = state.version)
    (hmutations : ∀ id ∈ state'.mutations, id ∈ state.mutations) (habout : ∀ e ∈ events, e.about profileId = false) :
    Reading (log ++ events) profileId state' read where
  profileId_eq := h.profileId_eq
  object := h.object.trans hobject.symm
  version := h.version.trans hversion.symm
  awaits := fun id hid => h.awaits id (hmutations id hid)
  made := (h.of_not_about habout).made
  asked := fun hne => absurd hphase hne

/-- What is held stays so where nothing of it has changed. -/
theorem Held.frame (h : Held s profileId state) (hscope : t.scope = s.scope) (hobjects : s.objectCount ≤ t.objectCount)
    (hlog : t.log = s.log ++ events) (habout : ∀ e ∈ events, e.about profileId = false)
    (hmutations : ∀ mutation : Mutation, mutation.profileId = profileId → mutation.object = state.object →
      (mutation ∈ t.mutations ↔ mutation ∈ s.mutations))
    (hreads : ∀ read : Read, read.profileId = profileId → read.object = state.object →
      (read ∈ t.reads ↔ read ∈ s.reads)) : Held t profileId state where
  scope := hscope ▸ h.scope
  profileId_ne := h.profileId_ne
  object := Nat.lt_of_lt_of_le h.object hobjects
  mutations := fun id => by
    rw [h.mutations id]
    constructor
    · rintro ⟨mutation, hmem, hid, hprofile, hobject⟩
      exact ⟨mutation, (hmutations mutation hprofile hobject).mpr hmem, hid, hprofile, hobject⟩
    · rintro ⟨mutation, hmem, hid, hprofile, hobject⟩
      exact ⟨mutation, (hmutations mutation hprofile hobject).mp hmem, hid, hprofile, hobject⟩
  pending := fun id hpending => by
    obtain ⟨read, hmem, hid, hreading⟩ := h.pending id hpending
    exact ⟨read, (hreads read hreading.profileId_eq hreading.object).mpr hmem, hid, hlog ▸ hreading.of_not_about habout⟩
  reads := fun read hmem hprofile hobject => h.reads read ((hreads read hprofile hobject).mp hmem) hprofile hobject

/-- The other profiles. -/
theorem Sound.held_of (h : Sound s) (profileId : String) (hscope : t.scope = s.scope)
    (hobjects : s.objectCount ≤ t.objectCount) (hlog : t.log = s.log ++ events)
    (habout : ∀ profileId' ≠ profileId, ∀ e ∈ events, e.about profileId' = false)
    (hprofiles : ∀ profileId' ≠ profileId, t.profiles.get profileId' = s.profiles.get profileId')
    (hmutations : ∀ mutation : Mutation, mutation.profileId ≠ profileId →
      (mutation ∈ t.mutations ↔ mutation ∈ s.mutations))
    (hreads : ∀ read : Read, read.profileId ≠ profileId → (read ∈ t.reads ↔ read ∈ s.reads))
    (hheld : ∀ state, t.profiles.get profileId = some state → Held t profileId state) :
    ∀ profileId state, t.profiles.get profileId = some state → Held t profileId state := by
  intro profileId' state hget
  by_cases hne : profileId' = profileId
  · subst hne
    exact hheld state hget
  · rw [hprofiles profileId' hne] at hget
    exact (h.held profileId' state hget).frame hscope hobjects hlog (habout profileId' hne)
      (fun mutation hprofile _ => hmutations mutation (hprofile ▸ hne)) fun read hprofile _ => hreads read (hprofile ▸ hne)

theorem undisturbed_of_not_installed (h : ∀ read profileId value, event ≠ .installed read profileId value) :
    Undisturbed log event :=
  fun read profileId value heq => absurd heq (h read profileId value)

/-- Mutations that have begun are logged as over or in flight, behind an event that begins none. -/
theorem Sound.logged_push (h : Sound s) (hbegan : ∀ id profileId change discards, event ≠ .began id profileId change discards) :
    ∀ id profileId change discards, Event.began id profileId change discards ∈ s.log ++ [event] →
      Event.settled id ∈ s.log ++ [event] ∨
      ∃ mutation ∈ s.mutations, mutation.id = id ∧ mutation.profileId = profileId := by
  intro id profileId change discards hmem
  rcases List.mem_append.mp hmem with hmem | hmem
  · exact (h.logged id profileId change discards hmem).imp_left (List.mem_append_left _)
  · exact absurd (List.mem_singleton.mp hmem).symm (hbegan id profileId change discards)

/-! ## Reads -/

theorem Sound.create (h : Sound s) (hscope : s.scope.isSome = true) (hne : profileId ≠ "")
    (_ : s.profiles.get profileId = none) :
    Sound { s with
      profiles := s.profiles.set profileId { object := s.objectCount }, objectCount := s.objectCount + 1 } where
  held := by
    refine (@Sound.held_of _ _ []) h profileId rfl (Nat.le_succ _) (List.append_nil _).symm (by simp) (fun q hq => ?_)
      (fun _ _ => Iff.rfl) (fun _ _ => Iff.rfl) fun state hget => ?_
    · rw [OrderedMap.get_set, if_neg (Ne.symm hq)]
    · rw [OrderedMap.get_set, if_pos rfl] at hget
      obtain rfl := Option.some.inj hget
      refine ⟨hscope, hne, Nat.lt_succ_self _, fun id => iff_of_false List.not_mem_nil ?_, (fun _ hid => by cases hid), ?_⟩
      · rintro ⟨mutation, hmem, -, -, hobject⟩
        exact Nat.lt_irrefl _ (hobject ▸ (h.mutations mutation hmem).2)
      · intro read hmem _ hobject
        exact absurd (hobject ▸ (h.reads read hmem).2) (Nat.lt_irrefl _)
  reads := fun read hmem => ⟨(h.reads read hmem).1, Nat.lt_succ_of_lt (h.reads read hmem).2⟩
  readIds := h.readIds
  mutations := fun mutation hmem => ⟨(h.mutations mutation hmem).1, Nat.lt_succ_of_lt (h.mutations mutation hmem).2⟩
  mutationIds := h.mutationIds
  logged := h.logged
  installed := h.installed

/-- A read is made that waits for some mutations, those of the profile among them. -/
theorem Sound.startRead (h : Sound s) (hget : s.profiles.get profileId = some state) (hpending : state.pending = none)
    {ids : List Nat} (hids : ∀ id ∈ state.mutations, id ∈ ids) :
    Sound { s with
      profiles := s.profiles.set profileId { state with stale := false, pending := some s.readCount }
      reads := s.reads ++ [{
        id := s.readCount, profileId, object := state.object, version := state.version, mutations := ids }]
      readCount := s.readCount + 1
      log := s.log ++ [Event.loading profileId] } where
  held := by
    have hheld := h.held profileId state hget
    refine h.held_of profileId rfl (Nat.le_refl _) rfl (fun q hq e he => ?_) (fun q hq => ?_) (fun _ _ => Iff.rfl)
      (fun read hread => ?_) fun state' hget' => ?_
    · rw [List.mem_singleton.mp he, Event.about, decide_eq_false_iff_not]
      exact Ne.symm hq
    · rw [OrderedMap.get_set, if_neg (Ne.symm hq)]
    · rw [List.mem_append, List.mem_singleton, or_iff_left]
      rintro rfl
      exact hread rfl
    · rw [OrderedMap.get_set, if_pos rfl] at hget'
      obtain rfl := Option.some.inj hget'
      refine ⟨hheld.scope, hheld.profileId_ne, hheld.object, hheld.mutations, fun id hid => ?_, fun read hmem hprofile hobject => ?_⟩
      · obtain rfl := Option.some.inj hid
        exact ⟨_, List.mem_append_right _ (List.mem_singleton_self _), rfl, rfl, rfl, rfl, hids, not_owing_loading,
          fun hphase => absurd rfl hphase⟩
      · rcases List.mem_append.mp hmem with hmem | hmem
        · obtain ⟨hle, heq⟩ := h.held profileId state hget |>.reads read hmem hprofile hobject
          exact ⟨hle, fun hversion => by rw [heq hversion] at hpending; cases hpending⟩
        · rw [List.mem_singleton.mp hmem]
          exact ⟨Nat.le_refl _, fun _ => rfl⟩
  reads := fun read hmem => by
    rcases List.mem_append.mp hmem with hmem | hmem
    · exact ⟨Nat.lt_succ_of_lt (h.reads read hmem).1, (h.reads read hmem).2⟩
    · rw [List.mem_singleton.mp hmem]
      exact ⟨Nat.lt_succ_self _, (h.held profileId state hget).object⟩
  readIds := by
    rw [List.map_append, List.nodup_append]
    refine ⟨h.readIds, List.nodup_singleton _, fun id hid id' hid' => ?_⟩
    obtain ⟨read, hmem, rfl⟩ := List.mem_map.mp hid
    rw [List.mem_singleton.mp hid']
    exact Nat.ne_of_lt (h.reads read hmem).1
  mutations := h.mutations
  mutationIds := h.mutationIds
  logged := h.logged_push (fun _ _ _ _ heq => by cases heq)
  installed := h.installed.snoc (undisturbed_of_not_installed fun _ _ _ heq => by cases heq)

theorem profile_cases (s : State) (profileId : String) :
    (∃ state, s.profiles.get profileId = some state ∧ profile s profileId = (state, s)) ∨
    (s.profiles.get profileId = none ∧ profile s profileId = ({ object := s.objectCount },
      { s with profiles := s.profiles.set profileId { object := s.objectCount }, objectCount := s.objectCount + 1 })) := by
  unfold profile
  cases hget : s.profiles.get profileId with
  | none => exact .inr ⟨rfl, rfl⟩
  | some state => exact .inl ⟨state, rfl, rfl⟩

theorem Sound.load (h : Sound s) (profileId : String) : Sound (load s profileId) := by
  unfold BrowserHistory.load
  split
  · exact h
  · rename_i hguard
    simp only [Bool.or_eq_true, Option.isNone_iff_eq_none, decide_eq_true_eq, not_or] at hguard
    rcases profile_cases s profileId with ⟨state, hget, heq⟩ | ⟨hnone, heq⟩
    · rw [heq]
      dsimp only
      split
      · exact h
      · rename_i hpending
        exact h.startRead hget (Option.not_isSome_iff_eq_none.mp hpending) fun _ hid => hid
    · rw [heq]
      have hcreate := h.create (Option.isSome_iff_ne_none.mpr hguard.1) hguard.2 hnone
      refine Sound.startRead hcreate ?_ rfl fun _ hid => hid
      rw [OrderedMap.get_set, if_pos rfl]

theorem live_eq_some {object : Nat} : live s profileId object = some state ↔
    s.profiles.get profileId = some state ∧ state.object = object := by
  rw [live, Option.filter_eq_some_iff, decide_eq_true_eq]

theorem current_eq_some : current s read = some state ↔
    s.profiles.get read.profileId = some state ∧ state.object = read.object ∧ state.version = read.version := by
  rw [current, Option.filter_eq_some_iff, live_eq_some, decide_eq_true_eq, and_assoc]

theorem readIn_eq_some {id : Nat} {phase : Phase} (h : readIn s id phase = some read) :
    read ∈ s.reads ∧ read.id = id ∧ read.phase = phase := by
  have hfound := List.find?_some h
  simp only [Bool.and_eq_true, decide_eq_true_eq] at hfound
  exact ⟨List.mem_of_find?_eq_some h, hfound⟩

theorem mem_setPhase (hnd : (s.reads.map Read.id).Nodup) (hmem : read ∈ s.reads) {phase : Phase} {read' : Read} :
    read' ∈ (setPhase s read phase).reads ↔ read' ∈ s.reads ∧ read'.id ≠ read.id ∨ read' = { read with phase } := by
  rw [setPhase, List.mem_map]
  constructor
  · rintro ⟨read₀, hmem₀, rfl⟩
    split
    · rename_i hid
      obtain rfl := List.inj_on_of_nodup_map hnd hmem₀ hmem hid
      exact .inr rfl
    · rename_i hid
      exact .inl ⟨hmem₀, hid⟩
  · rintro (⟨hmem', hid⟩ | rfl)
    · exact ⟨read', hmem', if_neg hid⟩
    · exact ⟨read, hmem, if_pos rfl⟩

theorem readIds_setPhase (s : State) (read : Read) (phase : Phase) :
    (setPhase s read phase).reads.map Read.id = s.reads.map Read.id := by
  rw [setPhase, List.map_map]
  refine List.map_congr_left fun read' _ => ?_
  rw [Function.comp_apply]
  split <;> rfl

/-- A current read is the profile's pending one. -/
theorem Sound.pending_of_current (h : Sound s) (hmem : read ∈ s.reads) (hcurrent : current s read = some state) :
    state.pending = some read.id ∧ Reading s.log read.profileId state read := by
  obtain ⟨hget, hobject, hversion⟩ := current_eq_some.mp hcurrent
  have hheld := h.held read.profileId state hget
  have hpending := (hheld.reads read hmem rfl hobject.symm).2 hversion.symm
  obtain ⟨read', hmem', hid, hreading⟩ := hheld.pending read.id hpending
  obtain rfl := List.inj_on_of_nodup_map h.readIds hmem' hmem hid
  exact ⟨hpending, hreading⟩

theorem Sound.reads_setPhase (h : Sound s) (hmem : read ∈ s.reads) {phase : Phase} {read' : Read}
    (hmem' : read' ∈ (setPhase s read phase).reads) : read'.id < s.readCount ∧ read'.object < s.objectCount := by
  rcases (mem_setPhase h.readIds hmem).mp hmem' with ⟨hold, -⟩ | rfl
  · exact h.reads read' hold
  · exact h.reads read hmem

/-- A read that is not current goes on without effect. -/
theorem Sound.lapse (h : Sound s) (hmem : read ∈ s.reads) (hcurrent : current s read = none) (phase : Phase) :
    Sound (setPhase s read phase) where
  held := by
    refine (@Sound.held_of _ _ []) h read.profileId rfl (Nat.le_refl _) (List.append_nil _).symm (by simp) (fun _ _ => rfl)
      (fun _ _ => Iff.rfl) (fun read' hne => ?_) fun state hget => ?_
    · rw [mem_setPhase h.readIds hmem]
      constructor
      · rintro (⟨hold, -⟩ | rfl)
        · exact hold
        · exact absurd rfl hne
      · intro hold
        refine .inl ⟨hold, fun hid => hne ?_⟩
        rw [List.inj_on_of_nodup_map h.readIds hold hmem hid]
    · have hheld := h.held read.profileId state hget
      refine ⟨hheld.scope, hheld.profileId_ne, hheld.object, hheld.mutations, fun id hid => ?_,
        fun read' hmem' hprofile hobject => ?_⟩
      · obtain ⟨read', hmem', hid', hreading⟩ := hheld.pending id hid
        refine ⟨read', (mem_setPhase h.readIds hmem).mpr (.inl ⟨hmem', fun hsame => ?_⟩), hid', hreading⟩
        obtain rfl := List.inj_on_of_nodup_map h.readIds hmem' hmem hsame
        have hsome : current s read' = some state := current_eq_some.mpr ⟨hget, hreading.object.symm, hreading.version.symm⟩
        rw [hsome] at hcurrent
        cases hcurrent
      · rcases (mem_setPhase h.readIds hmem).mp hmem' with ⟨hold, -⟩ | rfl
        · exact hheld.reads read' hold hprofile hobject
        · exact hheld.reads read hmem hprofile hobject
  reads := fun _ hmem' => h.reads_setPhase hmem hmem'
  readIds := readIds_setPhase s read phase ▸ h.readIds
  mutations := h.mutations
  mutationIds := h.mutationIds
  logged := h.logged
  installed := h.installed

/-- A current read goes on to a phase, with what this makes of its profile. -/
theorem Sound.progress (h : Sound s) (hmem : read ∈ s.reads) (hcurrent : current s read = some state) {phase : Phase}
    (hreads : t.reads = (setPhase s read phase).reads) (hscope : t.scope = s.scope) (hobjects : t.objectCount = s.objectCount)
    (hreadCount : t.readCount = s.readCount) (hmutations : t.mutations = s.mutations)
    (hmutationCount : t.mutationCount = s.mutationCount) (hlog : t.log = s.log ++ [event])
    (hprofile : t.profiles.get read.profileId = some state')
    (hprofiles : ∀ profileId' ≠ read.profileId, t.profiles.get profileId' = s.profiles.get profileId')
    (hobject : state'.object = state.object) (hversion : state'.version = state.version)
    (hids : state'.mutations = state.mutations) (hpending : state'.pending = state.pending)
    (habout : ∀ profileId' ≠ read.profileId, event.about profileId' = false)
    (hbegan : ∀ id profileId change discards, event ≠ .began id profileId change discards)
    (hreading : Reading t.log read.profileId state' { read with phase }) (hinstalled : Undisturbed s.log event) : Sound t where
  held := by
    obtain ⟨hget, hobject₀, hversion₀⟩ := current_eq_some.mp hcurrent
    obtain ⟨hpending₀, -⟩ := h.pending_of_current hmem hcurrent
    have hheld := h.held read.profileId state hget
    refine (@Sound.held_of _ _ [event]) h read.profileId hscope (Nat.le_of_eq hobjects.symm) hlog
      (fun q hq e he => List.mem_singleton.mp he ▸ habout q hq) hprofiles (fun _ _ => by rw [hmutations])
      (fun read' hne => ?_) fun state'' hget'' => ?_
    · rw [hreads, mem_setPhase h.readIds hmem]
      constructor
      · rintro (⟨hold, -⟩ | rfl)
        · exact hold
        · exact absurd rfl hne
      · intro hold
        refine .inl ⟨hold, fun hid => hne ?_⟩
        rw [List.inj_on_of_nodup_map h.readIds hold hmem hid]
    · obtain rfl := Option.some.inj (hprofile.symm.trans hget'')
      refine ⟨hscope ▸ hheld.scope, hheld.profileId_ne, ?_, fun id => ?_, fun id hid => ?_,
        fun read' hmem' hprofile' hobject' => ?_⟩
      · rw [hobject, hobjects]
        exact hheld.object
      · rw [hids, hmutations, hobject]
        exact hheld.mutations id
      · rw [hpending, hpending₀] at hid
        refine ⟨{ read with phase }, ?_, Option.some.inj hid, hreading⟩
        rw [hreads]
        exact (mem_setPhase h.readIds hmem).mpr (.inr rfl)
      · rw [hobject] at hobject'
        rw [hversion, hpending]
        rw [hreads] at hmem'
        rcases (mem_setPhase h.readIds hmem).mp hmem' with ⟨hold, -⟩ | rfl
        · exact hheld.reads read' hold hprofile' hobject'
        · exact hheld.reads read hmem hprofile' hobject'
  reads := fun read' hmem' => by
    rw [hreads] at hmem'
    rw [hreadCount, hobjects]
    exact h.reads_setPhase hmem hmem'
  readIds := by
    rw [hreads, readIds_setPhase]
    exact h.readIds
  mutations := by
    rw [hmutations, hmutationCount, hobjects]
    exact h.mutations
  mutationIds := hmutations ▸ h.mutationIds
  logged := by
    rw [hlog, hmutations]
    exact h.logged_push hbegan
  installed := hlog ▸ h.installed.snoc hinstalled

theorem owing_of_not_began {profileId : String} (h : ∀ id change, event ≠ .began id profileId change true)
    (howing : ¬Owing log profileId) : ¬Owing (log ++ [event]) profileId := by
  rw [owing_snoc]
  rintro (⟨id, change, heq⟩ | ⟨hold, -⟩)
  · exact h id change heq
  · exact howing hold

theorem Sound.proceed (h : Sound s) (hmem : read ∈ s.reads)
    (hids : ∀ id ∈ read.mutations, ∀ mutation ∈ s.mutations, mutation.id ≠ id) : Sound (proceed s read) := by
  unfold BrowserHistory.proceed
  cases hcurrent : current s read with
  | none => exact h.lapse hmem hcurrent .settled
  | some state =>
    obtain ⟨-, hreading⟩ := h.pending_of_current hmem hcurrent
    obtain ⟨hget, -, -⟩ := current_eq_some.mp hcurrent
    have hnone : state.mutations = [] := by
      refine List.eq_nil_iff_forall_not_mem.mpr fun id hid => ?_
      obtain ⟨mutation, hmutation, rfl, -, -⟩ := ((h.held _ _ hget).mutations id).mp hid
      exact hids mutation.id (hreading.awaits _ hid) mutation hmutation rfl
    refine h.progress hmem hcurrent rfl rfl rfl rfl rfl rfl rfl hget (fun _ _ => rfl) rfl rfl rfl rfl (fun q hq => ?_)
      (fun _ _ _ _ heq => by cases heq) ?_ (undisturbed_of_not_installed fun _ _ _ heq => by cases heq)
    · exact decide_eq_false hq.symm
    · exact ⟨rfl, hreading.object, hreading.version, hreading.awaits,
        owing_of_not_began (fun _ _ heq => by cases heq) hreading.made,
        fun _ => ⟨hnone, s.log, [], rfl, by simp, by simp, by simp, fun heq => by cases heq⟩⟩

theorem Reading.answered (h : Reading log profileId state read) (hphase : read.phase = .dispatched)
    (hobject : state'.object = state.object) (hversion : state'.version = state.version)
    (hids : state'.mutations = state.mutations) (hstale : state'.stale = state.stale)
    (hevent : event = .readFailed read.id profileId ∨ event = .installed read.id profileId state'.value) :
    Reading (log ++ [event]) profileId state' { read with phase := .settled } := by
  obtain ⟨hnone, pre, post, rfl, hundisturbed, hlast, hnotice, -⟩ := h.asked (by rw [hphase]; decide)
  have hcancels : event.cancels profileId = false := by
    rcases hevent with rfl | rfl <;> rfl
  refine ⟨h.profileId_eq, h.object.trans hobject.symm, h.version.trans hversion.symm, hids ▸ h.awaits,
    owing_of_not_began (fun id change heq => ?_) h.made,
    fun _ => ⟨hids.trans hnone, pre, post ++ [event], by rw [List.append_assoc, List.cons_append], fun e he => ?_,
      fun read' he => ?_, fun he => ?_, fun _ => ?_⟩⟩
  · rcases hevent with rfl | rfl <;> cases heq
  · rcases List.mem_append.mp he with he | he
    · exact hundisturbed e he
    · exact List.mem_singleton.mp he ▸ hcancels
  · refine hlast read' ((List.mem_append.mp he).resolve_right fun he => ?_)
    rcases hevent with rfl | rfl <;> cases List.mem_singleton.mp he
  · refine hstale.trans (hnotice ((List.mem_append.mp he).resolve_right fun he => ?_))
    rcases hevent with rfl | rfl <;> cases List.mem_singleton.mp he
  · rcases hevent with rfl | rfl
    · exact .inr (List.mem_append_right _ (List.mem_singleton_self _))
    · exact .inl ⟨post, [], rfl⟩

theorem Sound.answer (h : Sound s) (hmem : read ∈ s.reads) (hphase : read.phase = .dispatched) (result : Option History) :
    Sound (answer s read result) := by
  have hsame : current (setPhase s read .settled) read = current s read := rfl
  unfold BrowserHistory.answer
  dsimp only
  rw [hsame]
  cases hcurrent : current s read with
  | none => exact h.lapse hmem hcurrent .settled
  | some state =>
    obtain ⟨-, hreading⟩ := h.pending_of_current hmem hcurrent
    cases result with
    | none =>
      refine (@Sound.progress _ _ _ { state with failed := true } _ (.readFailed read.id read.profileId)) h hmem hcurrent
        rfl rfl rfl rfl rfl rfl rfl ?_ (fun q hq => ?_) rfl rfl rfl rfl (fun q hq => decide_eq_false hq.symm)
        (fun _ _ _ _ heq => by cases heq) (hreading.answered hphase rfl rfl rfl rfl (.inl rfl))
        (undisturbed_of_not_installed fun _ _ _ heq => by cases heq)
      · rw [OrderedMap.get_set, if_pos rfl]
      · exact (OrderedMap.get_set _).trans (if_neg hq.symm)
    | some value =>
      refine (@Sound.progress _ _ _ { state with value, failed := false } _ (.installed read.id read.profileId value)) h
        hmem hcurrent rfl rfl rfl rfl rfl rfl rfl ?_ (fun q hq => ?_) rfl rfl rfl rfl (fun q hq => decide_eq_false hq.symm)
        (fun _ _ _ _ heq => by cases heq) (hreading.answered hphase rfl rfl rfl rfl (.inr rfl)) ?_
      · rw [OrderedMap.get_set, if_pos rfl]
      · exact (OrderedMap.get_set _).trans (if_neg hq.symm)
      · intro read' profileId value' heq
        obtain ⟨rfl, rfl, -⟩ := Event.installed.inj heq
        obtain ⟨-, pre, post, hlog, hundisturbed, -⟩ := hreading.asked (by rw [hphase]; decide)
        exact ⟨pre, post, hlog, hundisturbed⟩

/-! ## What is over -/

/-- A read is over, and its profile no longer waits for it. -/
theorem Sound.ended (h : Sound s) (hmem : read ∈ s.reads) {profiles : OrderedMap String ProfileHistory}
    (hprofile : ∀ state, profiles.get read.profileId = some state → state.pending ≠ some read.id ∧
      ∃ state₀, s.profiles.get read.profileId = some state₀ ∧ state.object = state₀.object ∧
        state.version = state₀.version ∧ state.mutations = state₀.mutations ∧
        (state.pending = none ∧ state₀.pending = some read.id ∨ state = state₀))
    (hprofiles : ∀ profileId' ≠ read.profileId, profiles.get profileId' = s.profiles.get profileId') :
    Sound { s with profiles, reads := s.reads.filter fun read' => read'.id ≠ read.id } where
  held := by
    have hreads {read' : Read} :
        read' ∈ s.reads.filter (fun read' => read'.id ≠ read.id) ↔ read' ∈ s.reads ∧ read'.id ≠ read.id := by
      rw [List.mem_filter, decide_eq_true_eq]
    refine (@Sound.held_of _ _ []) h read.profileId rfl (Nat.le_refl _) (List.append_nil _).symm (by simp) hprofiles
      (fun _ _ => Iff.rfl) (fun read' hne => hreads.trans ?_) fun state hget => ?_
    · refine ⟨And.left, fun hold => ⟨hold, fun hid => hne ?_⟩⟩
      rw [List.inj_on_of_nodup_map h.readIds hold hmem hid]
    · obtain ⟨hnot, state₀, hget₀, hobject, hversion, hids, hpending⟩ := hprofile state hget
      have hheld := h.held read.profileId state₀ hget₀
      refine ⟨hheld.scope, hheld.profileId_ne, hobject ▸ hheld.object, fun id => ?_, fun id hid => ?_,
        fun read' hmem' hprofile' hobject' => ?_⟩
      · rw [hids, hobject]
        exact hheld.mutations id
      · rcases hpending with ⟨hnone, -⟩ | rfl
        · rw [hnone] at hid
          cases hid
        · obtain ⟨read', hmem', hid', hreading⟩ := hheld.pending id hid
          refine ⟨read', hreads.mpr ⟨hmem', fun hsame => hnot ?_⟩, hid', hreading⟩
          rw [hid, ← hid', hsame]
      · obtain ⟨hold, hne⟩ := hreads.mp hmem'
        rw [hobject] at hobject'
        obtain ⟨hle, heq⟩ := hheld.reads read' hold hprofile' hobject'
        rw [hversion]
        refine ⟨hle, fun hsame => ?_⟩
        rcases hpending with ⟨-, hwas⟩ | rfl
        · exact absurd (Option.some.inj ((heq hsame).symm.trans hwas)) hne
        · exact heq hsame
  reads := fun read' hmem' => h.reads read' (List.mem_of_mem_filter hmem')
  readIds := List.Nodup.sublist (List.Sublist.map _ List.filter_sublist) h.readIds
  mutations := h.mutations
  mutationIds := h.mutationIds
  logged := h.logged
  installed := h.installed

theorem Sound.finished (h : Sound s) (hmem : read ∈ s.reads) (hget : s.profiles.get read.profileId = some state)
    (hpending : state.pending = some read.id) :
    Sound { s with
      profiles := s.profiles.set read.profileId { state with pending := none }
      reads := s.reads.filter fun read' => read'.id ≠ read.id } := by
  refine h.ended hmem (fun state' hget' => ?_) fun q hq => ?_
  · rw [OrderedMap.get_set, if_pos rfl] at hget'
    obtain rfl := Option.some.inj hget'
    exact ⟨(fun heq => by cases heq), state, hget, rfl, rfl, rfl, .inl ⟨rfl, hpending⟩⟩
  · rw [OrderedMap.get_set, if_neg hq.symm]

theorem Sound.finish (h : Sound s) (hmem : read ∈ s.reads) : Sound (finish s read) := by
  have hlive : live { s with reads := s.reads.filter fun read' => read'.id ≠ read.id } read.profileId read.object =
      live s read.profileId read.object := rfl
  have hother {state : ProfileHistory} (hget : s.profiles.get read.profileId = some state)
      (hlapsed : state.object = read.object → state.pending ≠ some read.id) : state.pending ≠ some read.id := by
    intro hpending
    obtain ⟨read', hmem', hid, hreading⟩ := (h.held _ _ hget).pending read.id hpending
    obtain rfl := List.inj_on_of_nodup_map h.readIds hmem' hmem hid
    exact hlapsed hreading.object.symm hpending
  unfold BrowserHistory.finish
  dsimp only
  rw [hlive]
  cases hcases : live s read.profileId read.object with
  | none =>
    refine h.ended hmem (fun state hget => ⟨hother hget fun hobject => ?_, state, hget, rfl, rfl, rfl, .inr rfl⟩) fun _ _ => rfl
    rw [live_eq_some.mpr ⟨hget, hobject⟩] at hcases
    cases hcases
  | some state =>
    obtain ⟨hget, hobject⟩ := live_eq_some.mp hcases
    dsimp only
    split
    · rename_i hpending
      refine h.ended hmem (fun state' hget' => ?_) fun _ _ => rfl
      obtain rfl := Option.some.inj (hget.symm.trans hget')
      exact ⟨hpending, state, hget, rfl, rfl, rfl, .inr rfl⟩
    · rename_i hpending
      have hfinished := h.finished hmem hget (not_not.mp hpending)
      split
      · exact hfinished.load read.profileId
      · exact hfinished

/-! ## Notices -/

theorem Sound.noticed (h : Sound s) (profileId : String) (hprofiles : ∀ state, s.profiles.get profileId ≠ some state) :
    Sound { s with log := s.log ++ [Event.noticed profileId] } where
  held := by
    refine h.held_of profileId rfl (Nat.le_refl _) rfl (fun q hq e he => ?_) (fun _ _ => rfl) (fun _ _ => Iff.rfl)
      (fun _ _ => Iff.rfl) fun state hget => absurd hget (hprofiles state)
    rw [List.mem_singleton.mp he]
    exact decide_eq_false hq.symm
  reads := h.reads
  readIds := h.readIds
  mutations := h.mutations
  mutationIds := h.mutationIds
  logged := h.logged_push fun _ _ _ _ heq => by cases heq
  installed := h.installed.snoc (undisturbed_of_not_installed fun _ _ _ heq => by cases heq)

theorem Sound.stale (h : Sound s) (hget : s.profiles.get profileId = some state) :
    Sound { s with
      profiles := s.profiles.set profileId { state with stale := true }, log := s.log ++ [Event.noticed profileId] } where
  held := by
    have hheld := h.held profileId state hget
    refine h.held_of profileId rfl (Nat.le_refl _) rfl (fun q hq e he => ?_) (fun q hq => ?_) (fun _ _ => Iff.rfl)
      (fun _ _ => Iff.rfl) fun state' hget' => ?_
    · rw [List.mem_singleton.mp he]
      exact decide_eq_false hq.symm
    · rw [OrderedMap.get_set, if_neg hq.symm]
    · rw [OrderedMap.get_set, if_pos rfl] at hget'
      obtain rfl := Option.some.inj hget'
      refine ⟨hheld.scope, hheld.profileId_ne, hheld.object, hheld.mutations, fun id hid => ?_, hheld.reads⟩
      obtain ⟨read, hmem, hid, hreading⟩ := hheld.pending id hid
      exact ⟨read, hmem, hid,
        hreading.push rfl rfl rfl rfl (fun _ => rfl) rfl (fun _ heq => by cases heq) fun _ => rfl⟩
  reads := h.reads
  readIds := h.readIds
  mutations := h.mutations
  mutationIds := h.mutationIds
  logged := h.logged_push fun _ _ _ _ heq => by cases heq
  installed := h.installed.snoc (undisturbed_of_not_installed fun _ _ _ heq => by cases heq)

theorem Sound.changed (h : Sound s) (profileId : String) : Sound (changed s profileId) := by
  unfold BrowserHistory.changed
  dsimp only
  cases hget : s.profiles.get profileId with
  | none => exact h.noticed profileId fun state hsome => by rw [hget] at hsome; cases hsome
  | some state =>
    dsimp only
    split
    · exact (h.stale hget).load profileId
    · exact h.stale hget

/-! ## Mutations -/

theorem Sound.begin (h : Sound s) (hget : s.profiles.get profileId = some state) (value : History) (change : Change)
    (discards : Bool) :
    Sound { s with
      profiles := s.profiles.set profileId
        { state with
          value
          version := state.version + 1
          pending := none
          mutations := state.mutations ++ [s.mutationCount] }
      mutations := s.mutations ++ [{ id := s.mutationCount, profileId, object := state.object }]
      mutationCount := s.mutationCount + 1
      log := s.log ++ [Event.began s.mutationCount profileId change discards] } where
  held := by
    have hheld := h.held profileId state hget
    refine h.held_of profileId rfl (Nat.le_refl _) rfl (fun q hq e he => ?_) (fun q hq => ?_) (fun mutation hne => ?_)
      (fun _ _ => Iff.rfl) fun state' hget' => ?_
    · rw [List.mem_singleton.mp he]
      exact decide_eq_false hq.symm
    · rw [OrderedMap.get_set, if_neg hq.symm]
    · rw [List.mem_append, List.mem_singleton, or_iff_left]
      rintro rfl
      exact hne rfl
    · rw [OrderedMap.get_set, if_pos rfl] at hget'
      obtain rfl := Option.some.inj hget'
      refine ⟨hheld.scope, hheld.profileId_ne, hheld.object, fun id => ?_, (fun _ hid => by cases hid),
        fun read hmem hprofile hobject => ?_⟩
      · rw [List.mem_append, List.mem_singleton, hheld.mutations id]
        constructor
        · rintro (⟨mutation, hmem, hid⟩ | rfl)
          · exact ⟨mutation, List.mem_append_left _ hmem, hid⟩
          · exact ⟨_, List.mem_append_right _ (List.mem_singleton_self _), rfl, rfl, rfl⟩
        · rintro ⟨mutation, hmem, hid⟩
          rcases List.mem_append.mp hmem with hmem | hmem
          · exact .inl ⟨mutation, hmem, hid⟩
          · rw [List.mem_singleton.mp hmem] at hid
            exact .inr hid.1.symm
      · have hle := (hheld.reads read hmem hprofile hobject).1
        exact ⟨Nat.le_succ_of_le hle, fun heq => absurd (heq ▸ hle) (Nat.not_succ_le_self _)⟩
  reads := h.reads
  readIds := h.readIds
  mutations := fun mutation hmem => by
    rcases List.mem_append.mp hmem with hmem | hmem
    · exact ⟨Nat.lt_succ_of_lt (h.mutations mutation hmem).1, (h.mutations mutation hmem).2⟩
    · rw [List.mem_singleton.mp hmem]
      exact ⟨Nat.lt_succ_self _, (h.held profileId state hget).object⟩
  mutationIds := by
    rw [List.map_append, List.nodup_append]
    refine ⟨h.mutationIds, List.nodup_singleton _, fun id hid id' hid' => ?_⟩
    obtain ⟨mutation, hmem, rfl⟩ := List.mem_map.mp hid
    rw [List.mem_singleton.mp hid']
    exact Nat.ne_of_lt (h.mutations mutation hmem).1
  logged := by
    intro id profileId' change' discards' hmem
    rcases List.mem_append.mp hmem with hmem | hmem
    · refine (h.logged id profileId' change' discards' hmem).imp (List.mem_append_left _) ?_
      rintro ⟨mutation, hmutation, hrest⟩
      exact ⟨mutation, List.mem_append_left _ hmutation, hrest⟩
    · obtain ⟨rfl, rfl, -, -⟩ := Event.began.inj (List.mem_singleton.mp hmem)
      exact .inr ⟨_, List.mem_append_right _ (List.mem_singleton_self _), rfl, rfl⟩
  installed := h.installed.snoc (undisturbed_of_not_installed fun _ _ _ heq => by cases heq)

theorem Sound.mutate (h : Sound s) (origin : String → String) (profileId : String) (change : Change) :
    Sound (mutate origin s profileId change) := by
  unfold BrowserHistory.mutate
  split
  · exact h
  · rename_i hguard
    simp only [Bool.or_eq_true, Option.isNone_iff_eq_none, decide_eq_true_eq, not_or] at hguard
    rcases profile_cases s profileId with ⟨state, hget, heq⟩ | ⟨hnone, heq⟩
    · rw [heq]
      exact h.begin hget _ change _
    · rw [heq]
      have hcreate := h.create (Option.isSome_iff_ne_none.mpr hguard.1) hguard.2 hnone
      refine Sound.begin hcreate ?_ _ change _
      rw [OrderedMap.get_set, if_pos rfl]

variable {mutation : Mutation}

theorem mutationIn_eq_some {id : Nat} {dispatched : Bool} (h : mutationIn s id dispatched = some mutation) :
    mutation ∈ s.mutations ∧ mutation.id = id ∧ mutation.dispatched = dispatched := by
  have hfound := List.find?_some h
  simp only [Bool.and_eq_true, decide_eq_true_eq] at hfound
  exact ⟨List.mem_of_find?_eq_some h, hfound⟩

theorem mem_settled (h : Sound s) (hmem : mutation ∈ s.mutations) {mutation' : Mutation} :
    mutation' ∈ (settled s mutation).mutations ↔ mutation' ∈ s.mutations ∧ mutation' ≠ mutation := by
  rw [settled, List.mem_filter, decide_eq_true_eq]
  refine and_congr_right fun hmem' => not_congr ⟨fun hid => ?_, fun heq => by rw [heq]⟩
  exact List.inj_on_of_nodup_map h.mutationIds hmem' hmem hid

/-- A mutation is over, and is no longer among its profile's. -/
theorem Sound.settled (h : Sound s) (hmem : mutation ∈ s.mutations) {profiles : OrderedMap String ProfileHistory}
    (hprofile : ∀ state, profiles.get mutation.profileId = some state → ∃ state₀,
      s.profiles.get mutation.profileId = some state₀ ∧ state.object = state₀.object ∧ state.version = state₀.version ∧
      state.pending = state₀.pending ∧
      (state.mutations = state₀.mutations.filter (fun id => id ≠ mutation.id) ∧ state₀.object = mutation.object ∨
        state = state₀ ∧ state₀.object ≠ mutation.object))
    (hprofiles : ∀ profileId' ≠ mutation.profileId, profiles.get profileId' = s.profiles.get profileId') :
    Sound { settled s mutation with profiles } where
  held := by
    refine (@Sound.held_of _ _ [.settled mutation.id]) h mutation.profileId rfl (Nat.le_refl _) rfl (fun q hq e he => ?_)
      hprofiles (fun mutation' hne => ?_) (fun _ _ => Iff.rfl) fun state hget => ?_
    · rw [List.mem_singleton.mp he]
      rfl
    · refine (mem_settled h hmem).trans ⟨And.left, fun hold => ⟨hold, ?_⟩⟩
      rintro rfl
      exact hne rfl
    · obtain ⟨state₀, hget₀, hobject, hversion, hpending, hcases⟩ := hprofile state hget
      have hheld := h.held _ _ hget₀
      rcases hcases with ⟨hids, hof⟩ | ⟨rfl, hof⟩
      · refine ⟨hheld.scope, hheld.profileId_ne, hobject ▸ hheld.object, fun id => ?_, fun id hid => ?_,
          fun read hread hprofile' hobject' => ?_⟩
        · rw [hids, List.mem_filter, decide_eq_true_eq, hheld.mutations id, hobject]
          constructor
          · rintro ⟨⟨mutation', hmem', rfl, hrest⟩, hne⟩
            refine ⟨mutation', (mem_settled h hmem).mpr ⟨hmem', ?_⟩, rfl, hrest⟩
            rintro rfl
            exact hne rfl
          · rintro ⟨mutation', hmem', rfl, hrest⟩
            obtain ⟨hold, hne⟩ := (mem_settled h hmem).mp hmem'
            exact ⟨⟨mutation', hold, rfl, hrest⟩,
              fun hid => hne (List.inj_on_of_nodup_map h.mutationIds hold hmem hid)⟩
        · obtain ⟨read, hread, hid', hreading⟩ := hheld.pending id (hpending ▸ hid)
          refine ⟨read, hread, hid', ?_⟩
          -- The mutation is in flight, so a read that waits for it has not been dispatched.
          have hphase : read.phase = .waiting := by
            by_contra hphase
            have hin := (hheld.mutations mutation.id).mpr ⟨mutation, hmem, rfl, rfl, hof.symm⟩
            rw [(hreading.asked hphase).1] at hin
            exact List.not_mem_nil hin
          refine hreading.of_waiting hphase hobject hversion (fun id' hin => ?_) fun e he => ?_
          · rw [hids] at hin
            exact List.mem_of_mem_filter hin
          · rw [List.mem_singleton.mp he]
            rfl
        · rw [hversion, hpending]
          exact hheld.reads read hread hprofile' (hobject ▸ hobject')
      · refine (@Held.frame _ _ _ _ [.settled mutation.id]) hheld rfl (Nat.le_refl _) rfl (fun e he => ?_)
          (fun mutation' _ hobject' => ?_) fun _ _ _ => Iff.rfl
        · rw [List.mem_singleton.mp he]
          rfl
        · refine (mem_settled h hmem).trans ⟨And.left, fun hold => ⟨hold, ?_⟩⟩
          rintro rfl
          exact hof hobject'.symm
  reads := h.reads
  readIds := h.readIds
  mutations := fun mutation' hmem' => h.mutations mutation' (List.mem_of_mem_filter hmem')
  mutationIds := List.Nodup.sublist (List.Sublist.map _ List.filter_sublist) h.mutationIds
  logged := by
    intro id profileId change discards hbegan
    have hbegan := (List.mem_append.mp hbegan).resolve_right fun heq => by cases List.mem_singleton.mp heq
    rcases h.logged id profileId change discards hbegan with hover | ⟨mutation', hmem', rfl, hprofile'⟩
    · exact .inl (List.mem_append_left _ hover)
    · by_cases heq : mutation' = mutation
      · exact .inl (heq ▸ List.mem_append_right _ (List.mem_singleton_self _))
      · exact .inr ⟨mutation', (mem_settled h hmem).mpr ⟨hmem', heq⟩, rfl, hprofile'⟩
  installed := h.installed.snoc (undisturbed_of_not_installed fun _ _ _ heq => by cases heq)

theorem mem_dispatched (h : Sound s) (hmem : mutation ∈ s.mutations) {mutation' : Mutation} :
    mutation' ∈ (s.mutations.map fun mutation' =>
        if mutation'.id = mutation.id then { mutation' with dispatched := true } else mutation') ↔
      mutation' ∈ s.mutations ∧ mutation' ≠ mutation ∨ mutation' = { mutation with dispatched := true } := by
  rw [List.mem_map]
  constructor
  · rintro ⟨mutation₀, hmem₀, rfl⟩
    split
    · rename_i hid
      obtain rfl := List.inj_on_of_nodup_map h.mutationIds hmem₀ hmem hid
      exact .inr rfl
    · rename_i hid
      exact .inl ⟨hmem₀, fun heq => hid (heq ▸ rfl)⟩
  · rintro (⟨hmem', hne⟩ | rfl)
    · exact ⟨mutation', hmem', if_neg fun hid => hne (List.inj_on_of_nodup_map h.mutationIds hmem' hmem hid)⟩
    · exact ⟨mutation, hmem, if_pos rfl⟩

theorem exists_dispatched (h : Sound s) (hmem : mutation ∈ s.mutations) {P : Mutation → Prop}
    (hP : P { mutation with dispatched := true } ↔ P mutation) :
    (∃ mutation' ∈ (s.mutations.map fun mutation' =>
        if mutation'.id = mutation.id then { mutation' with dispatched := true } else mutation'), P mutation') ↔
      ∃ mutation' ∈ s.mutations, P mutation' := by
  constructor
  · rintro ⟨mutation', hmem', hp⟩
    rcases (mem_dispatched h hmem).mp hmem' with ⟨hold, -⟩ | rfl
    · exact ⟨mutation', hold, hp⟩
    · exact ⟨mutation, hmem, hP.mp hp⟩
  · rintro ⟨mutation', hold, hp⟩
    by_cases heq : mutation' = mutation
    · exact ⟨_, (mem_dispatched h hmem).mpr (.inr rfl), hP.mpr (heq ▸ hp)⟩
    · exact ⟨mutation', (mem_dispatched h hmem).mpr (.inl ⟨hold, heq⟩), hp⟩

theorem live_eq_none {object : Nat} (h : live s profileId object = none) (hget : s.profiles.get profileId = some state) :
    state.object ≠ object := fun hobject => by
  rw [live_eq_some.mpr ⟨hget, hobject⟩] at h
  cases h

/-- A mutation of an object that is no longer its profile's. -/
theorem Sound.settled_of_not_live (h : Sound s) (hmem : mutation ∈ s.mutations)
    (hlive : live s mutation.profileId mutation.object = none) : Sound (BrowserHistory.settled s mutation) :=
  (@Sound.settled _ _ h hmem s.profiles)
    (fun state hget => ⟨state, hget, rfl, rfl, rfl, .inr ⟨rfl, live_eq_none hlive hget⟩⟩) fun _ _ => rfl

theorem Sound.dispatch (h : Sound s) (hmem : mutation ∈ s.mutations) : Sound (dispatch s mutation) := by
  unfold BrowserHistory.dispatch
  cases hlive : live s mutation.profileId mutation.object with
  | none => exact h.settled_of_not_live hmem hlive
  | some state =>
    refine ⟨?_, h.reads, h.readIds, fun mutation' hmem' => ?_, ?_, ?_, h.installed⟩
    · refine (@Sound.held_of _ _ []) h mutation.profileId rfl (Nat.le_refl _) (List.append_nil _).symm (by simp)
        (fun _ _ => rfl) (fun mutation' hne => ?_) (fun _ _ => Iff.rfl) fun state' hget => ?_
      · refine (mem_dispatched h hmem).trans ⟨?_, fun hold => .inl ⟨hold, fun heq => hne (heq ▸ rfl)⟩⟩
        rintro (⟨hold, -⟩ | rfl)
        · exact hold
        · exact absurd rfl hne
      · have hheld := h.held _ _ hget
        exact ⟨hheld.scope, hheld.profileId_ne, hheld.object,
          fun id => (hheld.mutations id).trans (exists_dispatched h hmem Iff.rfl).symm, hheld.pending, hheld.reads⟩
    · rcases (mem_dispatched h hmem).mp hmem' with ⟨hold, -⟩ | rfl
      · exact h.mutations mutation' hold
      · exact h.mutations mutation hmem
    · rw [List.map_map]
      refine (List.map_congr_left (g := Mutation.id) fun mutation' _ => ?_) ▸ h.mutationIds
      rw [Function.comp_apply]
      split <;> rfl
    · exact fun id profileId change discards hbegan =>
        (h.logged id profileId change discards hbegan).imp_right (exists_dispatched h hmem Iff.rfl).mpr

theorem load_of_held (hscope : s.scope.isSome = true) (hne : profileId ≠ "") (hget : s.profiles.get profileId = some state) :
    load s profileId = if state.pending.isSome then s else BrowserHistory.startRead s profileId state := by
  have hguard : (s.scope.isNone || decide (profileId = "")) = false := by
    rw [Bool.or_eq_false_iff, decide_eq_false_iff_not]
    exact ⟨by rw [Option.isNone_eq_false_iff]; exact hscope, hne⟩
  rw [BrowserHistory.load, if_neg (by rw [hguard]; exact Bool.false_ne_true), profile, hget]

theorem forget_of_held (state : ProfileHistory) (hget : s.profiles.get mutation.profileId = some state) (hobject : state.object = mutation.object) :
    forget s mutation = { s with
      profiles := s.profiles.set mutation.profileId
        { state with mutations := state.mutations.filter fun id => id ≠ mutation.id } } := by
  rw [forget, live_eq_some.mpr ⟨hget, hobject⟩]

/-- What a mutation leaves of its profile. -/
def concluded (s : State) (mutation : Mutation) (state : ProfileHistory) (value : History) : State :=
  { settled s mutation with
    profiles := s.profiles.set mutation.profileId
      { state with value, mutations := state.mutations.filter fun id => id ≠ mutation.id } }

/-- A mutation that fails makes a read if there is none, which waits for it too. -/
def reread (s : State) (mutation : Mutation) (state : ProfileHistory) : State :=
  { concluded s mutation state empty with
    profiles := (concluded s mutation state empty).profiles.set mutation.profileId
      { state with
        value := empty
        stale := false
        pending := some s.readCount
        mutations := state.mutations.filter fun id => id ≠ mutation.id }
    reads := s.reads ++ [{
      id := s.readCount, profileId := mutation.profileId, object := state.object, version := state.version
      mutations := state.mutations }]
    readCount := s.readCount + 1
    log := (concluded s mutation state empty).log ++ [Event.loading mutation.profileId] }

theorem conclude_cases (h : Sound s) (mutation : Mutation) (fulfilled : Bool) :
    (live s mutation.profileId mutation.object = none ∧ conclude s mutation fulfilled = settled s mutation) ∨
    ∃ state, live s mutation.profileId mutation.object = some state ∧
      ((fulfilled = true ∧ conclude s mutation fulfilled = concluded s mutation state state.value) ∨
      (fulfilled = false ∧ state.pending ≠ none ∧ conclude s mutation fulfilled = concluded s mutation state empty) ∨
      (fulfilled = false ∧ state.pending = none ∧ conclude s mutation fulfilled = reread s mutation state)) := by
  have hsame : live (settled s mutation) mutation.profileId mutation.object =
      live s mutation.profileId mutation.object := rfl
  unfold conclude
  dsimp only
  rw [hsame]
  cases hlive : live s mutation.profileId mutation.object with
  | none => exact .inl ⟨rfl, rfl⟩
  | some state =>
    obtain ⟨hget, hobject⟩ := live_eq_some.mp hlive
    have hheld := h.held _ _ hget
    refine .inr ⟨state, rfl, ?_⟩
    dsimp only
    cases fulfilled with
    | true => exact .inl ⟨rfl, (if_pos rfl).trans (forget_of_held state hget hobject)⟩
    | false =>
      have hset (value : ProfileHistory) : (s.profiles.set mutation.profileId value).get mutation.profileId = some value := by
        rw [OrderedMap.get_set, if_pos rfl]
      have hload := load_of_held (s := { settled s mutation with
        profiles := (settled s mutation).profiles.set mutation.profileId { state with value := empty } })
        hheld.scope hheld.profileId_ne (hset _)
      dsimp only at hload
      rw [if_neg Bool.false_ne_true, hload]
      refine .inr ?_
      by_cases hpending : state.pending = none
      · refine .inr ⟨rfl, hpending, ?_⟩
        rw [if_neg (by rw [hpending]; exact Bool.false_ne_true)]
        refine (forget_of_held { state with value := empty, stale := false, pending := some s.readCount }
          ((OrderedMap.get_set _).trans (if_pos rfl)) hobject).trans ?_
        unfold reread concluded startRead
        simp only [OrderedMap.set_set]
        rfl
      · refine .inl ⟨rfl, hpending, ?_⟩
        rw [if_pos (Option.isSome_iff_ne_none.mpr hpending)]
        refine (forget_of_held { state with value := empty } (hset _) hobject).trans ?_
        unfold concluded
        simp only [OrderedMap.set_set]
        rfl

theorem Sound.concluded (h : Sound s) (hmem : mutation ∈ s.mutations)
    (hlive : live s mutation.profileId mutation.object = some state) (value : History) :
    Sound (concluded s mutation state value) := by
  obtain ⟨hget, hobject⟩ := live_eq_some.mp hlive
  refine h.settled hmem (fun state' hget' => ?_) fun q hq => ?_
  · rw [OrderedMap.get_set, if_pos rfl] at hget'
    obtain rfl := Option.some.inj hget'
    exact ⟨state, hget, rfl, rfl, rfl, .inl ⟨rfl, hobject⟩⟩
  · rw [OrderedMap.get_set, if_neg hq.symm]

theorem Sound.conclude (h : Sound s) (hmem : mutation ∈ s.mutations) (fulfilled : Bool) :
    Sound (conclude s mutation fulfilled) := by
  rcases conclude_cases h mutation fulfilled with
    ⟨hlive, heq⟩ | ⟨state, hlive, ⟨-, heq⟩ | ⟨-, -, heq⟩ | ⟨-, hpending, heq⟩⟩
  · exact heq ▸ h.settled_of_not_live hmem hlive
  · exact heq ▸ h.concluded hmem hlive _
  · exact heq ▸ h.concluded hmem hlive _
  · rw [heq]
    refine (h.concluded hmem hlive empty).startRead (OrderedMap.get_set _ |>.trans (if_pos rfl)) hpending fun id hid => ?_
    exact List.mem_of_mem_filter hid

/-! ## Profiles -/

theorem Sound.drop (h : Sound s) (profileId : String) : Sound (drop s profileId) where
  held := by
    refine h.held_of profileId rfl (Nat.le_refl _) rfl (fun q hq e he => ?_) (fun q hq => ?_) (fun _ _ => Iff.rfl)
      (fun _ _ => Iff.rfl) fun state hget => ?_
    · rw [List.mem_singleton.mp he]
      exact decide_eq_false hq.symm
    · exact (OrderedMap.get_delete _).trans (if_neg hq.symm)
    · rw [BrowserHistory.drop, OrderedMap.get_delete, if_pos rfl] at hget
      cases hget
  reads := h.reads
  readIds := h.readIds
  mutations := h.mutations
  mutationIds := h.mutationIds
  logged := h.logged_push fun _ _ _ _ heq => by cases heq
  installed := h.installed.snoc (undisturbed_of_not_installed fun _ _ _ heq => by cases heq)

theorem Sound.setScope (h : Sound s) (scope : Option ViewerIdentity) : Sound (setScope s scope) := by
  unfold BrowserHistory.setScope
  split
  · exact h
  · refine ⟨fun profileId state hget => ?_, h.reads, h.readIds, h.mutations, h.mutationIds,
      h.logged_push fun _ _ _ _ heq => (by cases heq), h.installed.snoc (undisturbed_of_not_installed fun _ _ _ heq => by cases heq)⟩
    rw [OrderedMap.get_empty] at hget
    cases hget

theorem Sound.disconnect (h : Sound s) : Sound (disconnect s) where
  held := fun profileId state hget => by
    rw [BrowserHistory.disconnect, OrderedMap.get_mapValues] at hget
    obtain ⟨state₀, hget₀, rfl⟩ := Option.map_eq_some_iff.mp hget
    have hheld := h.held profileId state₀ hget₀
    refine ⟨hheld.scope, hheld.profileId_ne, hheld.object, hheld.mutations, (fun _ hid => by cases hid),
      fun read hmem hprofile hobject => ?_⟩
    have hle := (hheld.reads read hmem hprofile hobject).1
    exact ⟨Nat.le_succ_of_le hle, fun heq => absurd (heq ▸ hle) (Nat.not_succ_le_self _)⟩
  reads := h.reads
  readIds := h.readIds
  mutations := h.mutations
  mutationIds := h.mutationIds
  logged := h.logged_push fun _ _ _ _ heq => by cases heq
  installed := h.installed.snoc (undisturbed_of_not_installed fun _ _ _ heq => by cases heq)

theorem sound_foldl {f : State → String → State} (hf : ∀ s profileId, Sound s → Sound (f s profileId))
    (profileIds : List String) (h : Sound s) : Sound (profileIds.foldl f s) := by
  induction profileIds generalizing s with
  | nil => exact h
  | cons profileId profileIds ih => exact ih (hf s profileId h)

theorem Sound.of_connected (h : Sound s) (connected : Bool) : Sound { s with connected } :=
  ⟨fun profileId state hget => ⟨(h.held profileId state hget).scope, (h.held profileId state hget).profileId_ne,
    (h.held profileId state hget).object, (h.held profileId state hget).mutations, (h.held profileId state hget).pending,
    (h.held profileId state hget).reads⟩, h.reads, h.readIds, h.mutations, h.mutationIds, h.logged, h.installed⟩

theorem Sound.setConnected (h : Sound s) (connected : Bool) : Sound (setConnected s connected) := by
  unfold BrowserHistory.setConnected
  split
  · exact sound_foldl (fun s profileId hs => hs.load profileId) _ (h.of_connected true)
  split
  · exact h.disconnect
  · exact h

theorem Sound.step (h : Sound s) (origin : String → String) {a : Action} (hstep : step origin s a = some t) : Sound t := by
  cases a with
  | load profileId =>
    obtain rfl := Option.some.inj hstep
    cases profileId with
    | none => exact h
    | some profileId => exact h.load profileId
  | proceed id =>
    obtain ⟨read, hread, hproceed⟩ := Option.bind_eq_some_iff.mp hstep
    obtain ⟨hnone, heq⟩ := Option.ite_none_left_eq_some.mp hproceed
    obtain rfl := Option.some.inj heq
    refine h.proceed (readIn_eq_some hread).1 fun id hid mutation hmem heq => hnone ?_
    exact List.any_eq_true.mpr ⟨id, hid, List.any_eq_true.mpr ⟨mutation, hmem, decide_eq_true heq⟩⟩
  | answer id result =>
    obtain ⟨read, hread, rfl⟩ := Option.map_eq_some_iff.mp hstep
    obtain ⟨hmem, -, hphase⟩ := readIn_eq_some hread
    exact h.answer hmem hphase result
  | finish id =>
    obtain ⟨read, hread, rfl⟩ := Option.map_eq_some_iff.mp hstep
    exact h.finish (readIn_eq_some hread).1
  | changed profileId =>
    obtain rfl := Option.some.inj hstep
    exact h.changed profileId
  | changedAll =>
    obtain rfl := Option.some.inj hstep
    exact sound_foldl (fun s profileId hs => hs.changed profileId) _ h
  | mutate profileId change =>
    obtain rfl := Option.some.inj hstep
    cases profileId with
    | none => exact h
    | some profileId => exact h.mutate origin profileId change
  | dispatch id =>
    obtain ⟨mutation, hmutation, rfl⟩ := Option.map_eq_some_iff.mp hstep
    exact h.dispatch (mutationIn_eq_some hmutation).1
  | conclude id fulfilled =>
    obtain ⟨mutation, hmutation, rfl⟩ := Option.map_eq_some_iff.mp hstep
    exact h.conclude (mutationIn_eq_some hmutation).1 fulfilled
  | drop profileId =>
    obtain rfl := Option.some.inj hstep
    exact h.drop profileId
  | setScope scope =>
    obtain rfl := Option.some.inj hstep
    exact h.setScope scope
  | setConnected connected =>
    obtain rfl := Option.some.inj hstep
    exact h.setConnected connected

end Opensteer.BrowserHistory
