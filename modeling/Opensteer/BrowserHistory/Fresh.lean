import Opensteer.BrowserHistory.Sound

/-!
# Nothing stale

A value is installed rightly when no mutation of an object that is no longer its profile's is in flight where a read
is dispatched (`Fenced`); and a quiet profile's value comes from a read behind its last notice when a read that a
mutation discards has been made again by the time the mutation succeeds (`Remade`). Without that a notice is
forgotten (`not_fresh_discarded`).
-/

namespace Opensteer.BrowserHistory

open Chronicle

variable {s t u : State} {profileId : String} {state : ProfileHistory} {read : Read} {mutation : Mutation} {event : Event}
  {origin : String → String}

/-! ## Conditions -/

/-- Where a read is dispatched, the mutations of its profile that are in flight are of its object. -/
def Fenced (s : State) : Action → Prop
  | .proceed id => ∀ read ∈ readIn s id .waiting, (current s read).isSome = true →
    ∀ mutation ∈ s.mutations, mutation.profileId = read.profileId → mutation.object = read.object
  | _ => True

/-- Where a mutation succeeds as its profile's last one, with no read pending, no read of it is owing. -/
def Remade (s : State) : Action → Prop
  | .conclude id fulfilled => ∀ mutation ∈ mutationIn s id true,
    ∀ state ∈ live s mutation.profileId mutation.object, fulfilled = true → s.connected = true → state.pending = none →
      (∀ id ∈ state.mutations, id = mutation.id) → ¬Owing s.log mutation.profileId
  | _ => True

/-! ## What is of the other profiles -/

/-- What changes of a profile only. -/
structure Apart (profileId : String) (s t : State) : Prop where
  listeners : t.listeners = s.listeners
  connected : t.connected = s.connected
  profiles : ∀ profileId' ≠ profileId, t.profiles.get profileId' = s.profiles.get profileId'
  log : ∃ events, t.log = s.log ++ events ∧ ∀ profileId' ≠ profileId, ∀ e ∈ events, e.about profileId' = false

theorem Apart.trans (h : Apart profileId s t) (h' : Apart profileId t u) : Apart profileId s u where
  listeners := h'.listeners.trans h.listeners
  connected := h'.connected.trans h.connected
  profiles := fun q hq => (h'.profiles q hq).trans (h.profiles q hq)
  log := by
    obtain ⟨events, hlog, habout⟩ := h.log
    obtain ⟨events', hlog', habout'⟩ := h'.log
    refine ⟨events ++ events', by rw [hlog', hlog, List.append_assoc], fun q hq e he => ?_⟩
    exact (List.mem_append.mp he).elim (habout q hq e) (habout' q hq e)

theorem Apart.refl (profileId : String) (s : State) : Apart profileId s s :=
  ⟨rfl, rfl, fun _ _ => rfl, [], (List.append_nil _).symm, fun _ _ _ he => absurd he List.not_mem_nil⟩

theorem Apart.of_set (hlisteners : t.listeners = s.listeners) (hconnected : t.connected = s.connected)
    (hprofiles : t.profiles = s.profiles.set profileId state) (hlog : t.log = s.log) : Apart profileId s t :=
  ⟨hlisteners, hconnected, fun q hq => by rw [hprofiles, OrderedMap.get_set, if_neg hq.symm], [], by rw [hlog, List.append_nil],
    fun _ _ _ he => absurd he List.not_mem_nil⟩

theorem Apart.of_event (hlisteners : t.listeners = s.listeners) (hconnected : t.connected = s.connected)
    (hprofiles : ∀ profileId' ≠ profileId, t.profiles.get profileId' = s.profiles.get profileId')
    (hlog : t.log = s.log ++ [event]) (habout : ∀ profileId' ≠ profileId, event.about profileId' = false) :
    Apart profileId s t :=
  ⟨hlisteners, hconnected, hprofiles, [event], hlog, fun q hq _ he => List.mem_singleton.mp he ▸ habout q hq⟩

theorem apart_startRead (s : State) (profileId : String) (state : ProfileHistory) :
    Apart profileId s (startRead s profileId state) :=
  .of_event rfl rfl (fun _ hq => (OrderedMap.get_set _).trans (if_neg hq.symm)) rfl fun _ hq => decide_eq_false hq.symm

theorem apart_profile (s : State) (profileId : String) : Apart profileId s (profile s profileId).2 := by
  rcases profile_cases s profileId with ⟨state, -, heq⟩ | ⟨-, heq⟩
  · rw [heq]
    exact .refl _ _
  · rw [heq]
    exact .of_set rfl rfl rfl rfl

theorem apart_load (s : State) (profileId : String) : Apart profileId s (load s profileId) := by
  unfold load
  split
  · exact .refl _ _
  · dsimp only
    split
    · exact apart_profile s profileId
    · exact (apart_profile s profileId).trans (apart_startRead _ _ _)

theorem apart_changed (s : State) (profileId : String) : Apart profileId s (changed s profileId) := by
  have hnoticed : Apart profileId s { s with log := s.log ++ [Event.noticed profileId] } :=
    .of_event rfl rfl (fun _ _ => rfl) rfl fun _ hq => decide_eq_false hq.symm
  have hstale (state : ProfileHistory) : Apart profileId s
      { s with profiles := s.profiles.set profileId state, log := s.log ++ [Event.noticed profileId] } :=
    .of_event rfl rfl (fun _ hq => (OrderedMap.get_set _).trans (if_neg hq.symm)) rfl fun _ hq => decide_eq_false hq.symm
  unfold changed
  dsimp only
  split
  · exact hnoticed
  · split
    · exact (hstale _).trans (apart_load _ _)
    · exact hstale _

/-! ## What is kept -/

/-- A profile whose read is owing has a mutation in flight; otherwise one without a pending read is fresh. -/
def KeptAt (origin : String → String) (s : State) (profileId : String) : Prop :=
  ∀ state, s.profiles.get profileId = some state →
    (Owing s.log profileId → state.mutations ≠ []) ∧
    (¬Owing s.log profileId → state.pending = none → state.stale = false ∧ Fresh origin s.log profileId state.value)

def Kept (origin : String → String) (s : State) : Prop :=
  0 < s.listeners → s.connected = true → ∀ profileId, KeptAt origin s profileId

theorem owing_of_not_about' {log events : List Event} (h : ∀ e ∈ events, e.about profileId = false) :
    Owing (log ++ events) profileId ↔ Owing log profileId := by
  induction events generalizing log with
  | nil => rw [List.append_nil]
  | cons e events ih =>
    obtain ⟨he, hrest⟩ := List.forall_mem_cons.mp h
    rw [List.append_cons, ih hrest, owing_of_not_about he]

theorem Fresh.of_not_about' {log events : List Event} {value : History} (h : Fresh origin log profileId value)
    (habout : ∀ e ∈ events, e.about profileId = false) : Fresh origin (log ++ events) profileId value := by
  induction events generalizing log with
  | nil => rwa [List.append_nil]
  | cons e events ih =>
    obtain ⟨he, hrest⟩ := List.forall_mem_cons.mp habout
    rw [List.append_cons]
    exact ih (h.of_not_about he) hrest

theorem KeptAt.frame {events : List Event} (h : KeptAt origin s profileId)
    (hprofile : t.profiles.get profileId = s.profiles.get profileId) (hlog : t.log = s.log ++ events)
    (habout : ∀ e ∈ events, e.about profileId = false) : KeptAt origin t profileId := by
  intro state hget
  obtain ⟨howing, hfresh⟩ := h state (hprofile ▸ hget)
  rw [hlog, owing_of_not_about' habout]
  exact ⟨howing, fun hnot hpending => ⟨(hfresh hnot hpending).1, (hfresh hnot hpending).2.of_not_about' habout⟩⟩

/-- What changes of one profile is kept if that profile is. -/
theorem Kept.of_apart (h : Kept origin s) (hapart : Apart profileId s t)
    (hkept : 0 < t.listeners → t.connected = true → KeptAt origin s profileId → KeptAt origin t profileId) :
    Kept origin t := by
  intro hlisteners hconnected q
  have hs := h (hapart.listeners ▸ hlisteners) (hapart.connected ▸ hconnected)
  by_cases hq : q = profileId
  · exact hq ▸ hkept hlisteners hconnected (hs profileId)
  · obtain ⟨events, hlog, habout⟩ := hapart.log
    exact (hs q).frame (hapart.profiles q hq) hlog (habout q hq)

/-- A pending read is not owing. -/
theorem Sound.keptAt (h : Sound s) (hpending : ∀ state, s.profiles.get profileId = some state → state.pending ≠ none) :
    KeptAt origin s profileId := by
  intro state hget
  obtain ⟨id, hid⟩ := Option.ne_none_iff_exists'.mp (hpending state hget)
  obtain ⟨read, -, -, hreading⟩ := (h.held profileId state hget).pending id hid
  exact ⟨fun howing => absurd howing hreading.made, fun _ hnone => absurd hnone (hpending state hget)⟩

/-- A profile that is loaded has a pending read. -/
theorem pending_load (h : Sound s) (hget : s.profiles.get profileId = some state) :
    ∃ state', (load s profileId).profiles.get profileId = some state' ∧ state'.pending ≠ none := by
  have hheld := h.held profileId state hget
  rw [load_of_held hheld.scope hheld.profileId_ne hget]
  split
  · rename_i hpending
    exact ⟨state, hget, Option.isSome_iff_ne_none.mp hpending⟩
  · exact ⟨_, (OrderedMap.get_set _).trans (if_pos rfl), Option.some_ne_none _⟩

theorem load_cases (h : Sound s) (profileId : String) : load s profileId = s ∨
    ∃ state, (load s profileId).profiles.get profileId = some state ∧ state.pending ≠ none := by
  cases hget : s.profiles.get profileId with
  | some state => exact .inr (pending_load h hget)
  | none =>
    unfold load
    split
    · exact .inl rfl
    · refine .inr ?_
      rw [profile, hget]
      exact ⟨_, (OrderedMap.get_set _).trans (if_pos rfl), Option.some_ne_none _⟩

theorem Kept.load (h : Kept origin s) (hsound : Sound s) (profileId : String) : Kept origin (load s profileId) := by
  rcases load_cases hsound profileId with heq | ⟨state, hget, hpending⟩
  · rwa [heq]
  · refine h.of_apart (apart_load s profileId) fun _ _ _ => (hsound.load profileId).keptAt fun state' hget' => ?_
    obtain rfl := Option.some.inj (hget.symm.trans hget')
    exact hpending

theorem Kept.of_same (h : Kept origin s) (hlisteners : t.listeners = s.listeners) (hconnected : t.connected = s.connected)
    (hprofiles : t.profiles = s.profiles) (hlog : t.log = s.log) : Kept origin t := by
  unfold Kept KeptAt
  rw [hlisteners, hconnected, hprofiles, hlog]
  exact h

/-- A read that is current goes on, and is its profile's pending one still. -/
theorem keptAt_progress (hmem : read ∈ s.reads) (hsound : Sound s) (hsound' : Sound t) (hcurrent : current s read = some state)
    {state' : ProfileHistory} (hget : t.profiles.get read.profileId = some state') (hpending : state'.pending = state.pending) :
    KeptAt origin t read.profileId := by
  refine hsound'.keptAt fun state'' hget'' => ?_
  obtain rfl := Option.some.inj (hget.symm.trans hget'')
  rw [hpending, (hsound.pending_of_current hmem hcurrent).1]
  exact Option.some_ne_none _

theorem Kept.proceed (h : Kept origin s) (hsound : Sound s) (hsound' : Sound (proceed s read)) (hmem : read ∈ s.reads) :
    Kept origin (proceed s read) := by
  unfold BrowserHistory.proceed at hsound' ⊢
  cases hcurrent : current s read with
  | none => exact h.of_same rfl rfl rfl rfl
  | some state =>
    rw [hcurrent] at hsound'
    refine (@Kept.of_apart _ _ read.profileId) h
      (.of_event rfl rfl (fun _ _ => rfl) rfl fun _ hq => decide_eq_false hq.symm) fun _ _ _ => ?_
    exact keptAt_progress hmem hsound hsound' hcurrent (current_eq_some.mp hcurrent).1 rfl

theorem Kept.answer (h : Kept origin s) (hsound : Sound s) (result : Option History)
    (hsound' : Sound (answer s read result)) (hmem : read ∈ s.reads) : Kept origin (answer s read result) := by
  have hsame : current (setPhase s read .settled) read = current s read := rfl
  unfold BrowserHistory.answer at hsound' ⊢
  dsimp only at hsound' ⊢
  rw [hsame] at hsound' ⊢
  cases hcurrent : current s read with
  | none => exact h.of_same rfl rfl rfl rfl
  | some state =>
    rw [hcurrent] at hsound'
    cases result with
    | none =>
      refine (@Kept.of_apart _ _ read.profileId) h
        (.of_event rfl rfl (fun _ hq => (OrderedMap.get_set _).trans (if_neg hq.symm)) rfl fun _ hq => decide_eq_false hq.symm)
        fun _ _ _ => ?_
      exact keptAt_progress hmem hsound hsound' hcurrent ((OrderedMap.get_set _).trans (if_pos rfl)) rfl
    | some value =>
      refine (@Kept.of_apart _ _ read.profileId) h
        (.of_event rfl rfl (fun _ hq => (OrderedMap.get_set _).trans (if_neg hq.symm)) rfl fun _ hq => decide_eq_false hq.symm)
        fun _ _ _ => ?_
      exact keptAt_progress hmem hsound hsound' hcurrent ((OrderedMap.get_set _).trans (if_pos rfl)) rfl

/-- A read that is over, with no notice since its dispatch, leaves its profile fresh. -/
theorem Reading.fresh {log : List Event} (h : Reading log profileId state read) (hphase : read.phase = .settled)
    (hstale : state.stale = false) : Fresh origin log profileId state.value := by
  obtain ⟨-, pre, post, hlog, hundisturbed, hlast, hnotice, hanswered⟩ := h.asked (by rw [hphase]; decide)
  refine ⟨pre, read.id, post, hlog, fun hin => ?_, hlast, ?_⟩
  · rw [hnotice hin] at hstale
    cases hstale
  · refine (hanswered hphase).imp_left ?_
    rintro ⟨between, since, rfl⟩
    refine ⟨state.value, between, since, rfl, ?_⟩
    have hnone : changes profileId since = [] := by
      refine List.filterMap_eq_nil_iff.mpr fun e he => ?_
      have hcancels := hundisturbed e (List.mem_append_right _ (List.mem_cons_of_mem _ he))
      cases e with
      | began _ profileId' change _ => exact if_neg (of_decide_eq_false hcancels)
      | _ => rfl
    rw [hnone, List.foldl_nil]

theorem Kept.finish (h : Kept origin s) (hsound : Sound s) (hmem : read ∈ s.reads) (hphase : read.phase = .settled) :
    Kept origin (finish s read) := by
  have hsound' := hsound.finish hmem
  have hlive : live { s with reads := s.reads.filter fun read' => read'.id ≠ read.id } read.profileId read.object =
      live s read.profileId read.object := rfl
  unfold BrowserHistory.finish at hsound' ⊢
  dsimp only at hsound' ⊢
  rw [hlive] at hsound' ⊢
  cases hcases : live s read.profileId read.object with
  | none => exact h.of_same rfl rfl rfl rfl
  | some state =>
    obtain ⟨hget, -⟩ := live_eq_some.mp hcases
    rw [hcases] at hsound'
    dsimp only at hsound' ⊢
    split
    · exact h.of_same rfl rfl rfl rfl
    · rename_i hpending
      rw [if_neg hpending] at hsound'
      obtain ⟨read', hmem', hid, hreading⟩ := (hsound.held _ _ hget).pending read.id (not_not.mp hpending)
      obtain rfl := List.inj_on_of_nodup_map hsound.readIds hmem' hmem hid
      split
      · rename_i hstale
        rw [if_pos hstale] at hsound'
        have hset : Apart read'.profileId s { s with
            profiles := s.profiles.set read'.profileId { state with pending := none }
            reads := s.reads.filter fun read => read.id ≠ read'.id } := .of_set rfl rfl rfl rfl
        obtain ⟨state', hget', hpending'⟩ := pending_load (hsound.finished hmem hget (not_not.mp hpending))
          ((OrderedMap.get_set _).trans (if_pos rfl))
        refine h.of_apart (hset.trans (apart_load _ _)) fun _ _ _ => hsound'.keptAt fun state'' hget'' => ?_
        obtain rfl := Option.some.inj (hget'.symm.trans hget'')
        exact hpending'
      · rename_i hstale
        refine (@Kept.of_apart _ _ read'.profileId) h (.of_set rfl rfl rfl rfl) fun hlisteners _ _ state' hget' => ?_
        rw [OrderedMap.get_set, if_pos rfl] at hget'
        obtain rfl := Option.some.inj hget'
        have hstale' : state.stale = false := by
          by_contra hne
          exact hstale (by rw [(Bool.not_eq_false _).mp hne, decide_eq_true hlisteners]; rfl)
        exact ⟨fun howing => absurd howing hreading.made, fun _ _ => ⟨hstale', hreading.fresh hphase hstale'⟩⟩

theorem Kept.changed (h : Kept origin s) (hsound : Sound s) (profileId : String) : Kept origin (changed s profileId) := by
  refine h.of_apart (apart_changed s profileId) fun hlisteners _ _ => ?_
  have hlisteners : 0 < s.listeners := (apart_changed s profileId).listeners ▸ hlisteners
  have hsound' := hsound.changed profileId
  unfold BrowserHistory.changed at hsound' ⊢
  dsimp only at hsound' ⊢
  cases hget : s.profiles.get profileId with
  | none =>
    intro state hsome
    rw [hget] at hsome
    cases hsome
  | some state =>
    rw [hget] at hsound'
    dsimp only at hsound' ⊢
    rw [if_pos hlisteners] at hsound' ⊢
    obtain ⟨state', hget', hpending⟩ := pending_load (hsound.stale hget) ((OrderedMap.get_set _).trans (if_pos rfl))
    refine hsound'.keptAt fun state'' hget'' => ?_
    obtain rfl := Option.some.inj (hget'.symm.trans hget'')
    exact hpending

theorem apart_mutate (origin : String → String) (s : State) (profileId : String) (change : Change) :
    Apart profileId s (mutate origin s profileId change) := by
  unfold mutate
  split
  · exact .refl _ _
  · refine (apart_profile s profileId).trans ?_
    exact .of_event rfl rfl (fun _ hq => (OrderedMap.get_set _).trans (if_neg hq.symm)) rfl fun _ hq => decide_eq_false hq.symm

theorem Kept.mutate (h : Kept origin s) (profileId : String) (change : Change) :
    Kept origin (mutate origin s profileId change) := by
  refine h.of_apart (apart_mutate origin s profileId change) fun _ _ hkept => ?_
  unfold BrowserHistory.mutate
  split
  · exact hkept
  · intro state' hget'
    dsimp only at hget' ⊢
    rw [OrderedMap.get_set, if_pos rfl] at hget'
    obtain rfl := Option.some.inj hget'
    refine ⟨fun _ hnil => List.cons_ne_nil _ _ (List.append_eq_nil_iff.mp hnil).2, fun hnot _ => ?_⟩
    rcases profile_cases s profileId with ⟨state, hget, heq⟩ | ⟨hnone, heq⟩
    · rw [heq] at hnot ⊢
      dsimp only at hnot ⊢
      rw [hget, Option.all_some, owing_snoc] at hnot
      have hpending : state.pending = none := by
        by_contra hne
        refine hnot (.inl ⟨s.mutationCount, change, ?_⟩)
        rw [Option.isSome_iff_ne_none.mpr hne]
      have howing : ¬Owing s.log profileId := fun howing => hnot (.inr ⟨howing, fun heq => by cases heq⟩)
      obtain ⟨hstale, hfresh⟩ := (hkept state hget).2 howing hpending
      exact ⟨hstale, hfresh.began _ change _⟩
    · rw [heq] at hnot
      dsimp only at hnot
      rw [hnone, Option.all_none, owing_snoc] at hnot
      exact absurd (.inl ⟨s.mutationCount, change, rfl⟩) hnot

theorem Kept.settled (h : Kept origin s) (mutation : Mutation) : Kept origin (settled s mutation) :=
  fun hlisteners hconnected profileId => (@KeptAt.frame _ _ _ _ [.settled mutation.id]) (h hlisteners hconnected profileId) rfl rfl
    fun _ he => List.mem_singleton.mp he ▸ rfl

theorem Kept.dispatch (h : Kept origin s) (mutation : Mutation) : Kept origin (dispatch s mutation) := by
  unfold BrowserHistory.dispatch
  split
  · exact h.settled mutation
  · exact h.of_same rfl rfl rfl rfl

theorem apart_concluded (s : State) (mutation : Mutation) (state : ProfileHistory) (value : History) :
    Apart mutation.profileId s (concluded s mutation state value) :=
  .of_event rfl rfl (fun _ hq => (OrderedMap.get_set _).trans (if_neg hq.symm)) rfl fun _ _ => rfl

theorem Kept.conclude (h : Kept origin s) (hsound : Sound s) (hmem : mutation ∈ s.mutations) (fulfilled : Bool)
    (hremade : ∀ state ∈ live s mutation.profileId mutation.object, fulfilled = true → s.connected = true →
      state.pending = none → (∀ id ∈ state.mutations, id = mutation.id) → ¬Owing s.log mutation.profileId) :
    Kept origin (conclude s mutation fulfilled) := by
  have hsound' := hsound.conclude hmem fulfilled
  have hset (value : ProfileHistory) :
      (s.profiles.set mutation.profileId value).get mutation.profileId = some value := by
    rw [OrderedMap.get_set, if_pos rfl]
  rcases conclude_cases hsound mutation fulfilled with
    ⟨-, heq⟩ | ⟨state, hlive, ⟨hfulfilled, heq⟩ | ⟨-, hpending, heq⟩ | ⟨-, -, heq⟩⟩
  · rw [heq]
    exact h.settled mutation
  · obtain ⟨hget, -⟩ := live_eq_some.mp hlive
    rw [heq]
    refine h.of_apart (apart_concluded s mutation state _) fun _ hconnected hkept state' hget' => ?_
    obtain rfl := Option.some.inj ((hset _).symm.trans hget')
    have howing : Owing (concluded s mutation state state.value).log mutation.profileId ↔ Owing s.log mutation.profileId :=
      owing_of_not_about rfl
    obtain ⟨hkeptOwing, hkeptFresh⟩ := hkept state hget
    refine ⟨fun how hnil => ?_, fun hnot hpending => ?_⟩
    · have how := howing.mp how
      have hpending : state.pending = none := by
        by_contra hne
        obtain ⟨id, hid⟩ := Option.ne_none_iff_exists'.mp hne
        obtain ⟨read, -, -, hreading⟩ := (hsound.held _ _ hget).pending id hid
        exact hreading.made how
      refine hremade state hlive hfulfilled hconnected hpending (fun id hid => ?_) how
      by_contra hne
      have hin : id ∈ state.mutations.filter fun id => id ≠ mutation.id := List.mem_filter.mpr ⟨hid, decide_eq_true hne⟩
      rw [show state.mutations.filter (fun id => id ≠ mutation.id) = [] from hnil] at hin
      exact List.not_mem_nil hin
    · obtain ⟨hstale, hfresh⟩ := hkeptFresh (fun how => hnot (howing.mpr how)) hpending
      exact ⟨hstale, hfresh.of_not_about rfl⟩
  · rw [heq] at hsound' ⊢
    refine h.of_apart (apart_concluded s mutation state _) fun _ _ _ => hsound'.keptAt fun state' hget' => ?_
    obtain rfl := Option.some.inj ((hset _).symm.trans hget')
    exact hpending
  · rw [heq] at hsound' ⊢
    have hreread : Apart mutation.profileId (concluded s mutation state empty) (reread s mutation state) :=
      .of_event rfl rfl (fun _ hq => (OrderedMap.get_set _).trans (if_neg hq.symm)) rfl fun _ hq => decide_eq_false hq.symm
    refine h.of_apart ((apart_concluded s mutation state _).trans hreread) fun _ _ _ => hsound'.keptAt fun state' hget' => ?_
    obtain rfl := Option.some.inj (((OrderedMap.get_set _).trans (if_pos rfl)).symm.trans hget')
    exact Option.some_ne_none _

/-! ## Profiles -/

theorem Kept.drop (h : Kept origin s) (profileId : String) : Kept origin (drop s profileId) := by
  refine (@Kept.of_apart _ _ profileId) h (.of_event rfl rfl (fun _ hq => (OrderedMap.get_delete _).trans (if_neg hq.symm)) rfl
    fun _ hq => decide_eq_false hq.symm) fun _ _ _ state hget => ?_
  rw [BrowserHistory.drop, OrderedMap.get_delete, if_pos rfl] at hget
  cases hget

theorem Kept.setScope (h : Kept origin s) (scope : Option ViewerIdentity) : Kept origin (setScope s scope) := by
  unfold BrowserHistory.setScope
  split
  · exact h
  · intro _ _ profileId state hget
    rw [OrderedMap.get_empty] at hget
    cases hget

/-- Profiles that are loaded one after the other have pending reads. -/
theorem pending_foldl_load {profileIds : List String} (h : Sound s)
    (hheld : ∀ profileId state, s.profiles.get profileId = some state → state.pending ≠ none ∨ profileId ∈ profileIds)
    (hin : ∀ profileId ∈ profileIds, (s.profiles.get profileId).isSome = true) :
    ∀ profileId state, (profileIds.foldl load s).profiles.get profileId = some state → state.pending ≠ none := by
  induction profileIds generalizing s with
  | nil => exact fun profileId state hget => (hheld profileId state hget).resolve_right List.not_mem_nil
  | cons q profileIds ih =>
    obtain ⟨state, hget⟩ := Option.isSome_iff_exists.mp (hin q List.mem_cons_self)
    obtain ⟨state', hget', hpending⟩ := pending_load h hget
    refine ih (h.load q) (fun profileId state'' hget'' => ?_) fun profileId hmem => ?_
    · by_cases hq : profileId = q
      · subst hq
        obtain rfl := Option.some.inj (hget'.symm.trans hget'')
        exact .inl hpending
      · rw [(apart_load s q).profiles profileId hq] at hget''
        exact (hheld profileId state'' hget'').imp_right fun hmem => (List.mem_cons.mp hmem).resolve_left hq
    · by_cases hq : profileId = q
      · rw [hq, hget']
        rfl
      · rw [(apart_load s q).profiles profileId hq]
        exact hin profileId (List.mem_cons_of_mem _ hmem)

theorem Kept.setConnected (h : Kept origin s) (hsound : Sound s) (connected : Bool) :
    Kept origin (setConnected s connected) := by
  have hsound' := hsound.setConnected connected
  unfold BrowserHistory.setConnected at hsound' ⊢
  split
  · rename_i hreconnected
    rw [if_pos hreconnected] at hsound'
    intro _ _ profileId
    refine hsound'.keptAt fun state hget => ?_
    refine pending_foldl_load (hsound.of_connected true) (fun profileId state hget => .inr ?_) (fun profileId hmem => ?_)
      profileId state hget
    · exact OrderedMap.mem_keys.mpr (Option.isSome_iff_exists.mpr ⟨state, hget⟩)
    · exact OrderedMap.mem_keys.mp hmem
  split
  · exact fun _ hconnected => by cases hconnected
  · exact h

theorem kept_foldl_changed (profileIds : List String) (h : Kept origin s) (hsound : Sound s) :
    Kept origin (profileIds.foldl changed s) := by
  induction profileIds generalizing s with
  | nil => exact h
  | cons profileId profileIds ih => exact ih (h.changed hsound profileId) (hsound.changed profileId)

theorem Kept.step (h : Kept origin s) (hsound : Sound s) {a : Action} (hremade : Remade s a)
    (hstep : step origin s a = some t) : Kept origin t := by
  have hsound' := hsound.step origin hstep
  cases a with
  | load profileId =>
    obtain rfl := Option.some.inj hstep
    cases profileId with
    | none => exact h
    | some profileId => exact h.load hsound profileId
  | proceed id =>
    obtain ⟨read, hread, hproceed⟩ := Option.bind_eq_some_iff.mp hstep
    obtain ⟨-, heq⟩ := Option.ite_none_left_eq_some.mp hproceed
    obtain rfl := Option.some.inj heq
    exact h.proceed hsound hsound' (readIn_eq_some hread).1
  | answer id result =>
    obtain ⟨read, hread, rfl⟩ := Option.map_eq_some_iff.mp hstep
    exact h.answer hsound result hsound' (readIn_eq_some hread).1
  | finish id =>
    obtain ⟨read, hread, rfl⟩ := Option.map_eq_some_iff.mp hstep
    obtain ⟨hmem, -, hphase⟩ := readIn_eq_some hread
    exact h.finish hsound hmem hphase
  | changed profileId =>
    obtain rfl := Option.some.inj hstep
    exact h.changed hsound profileId
  | changedAll =>
    obtain rfl := Option.some.inj hstep
    exact kept_foldl_changed _ h hsound
  | mutate profileId change =>
    obtain rfl := Option.some.inj hstep
    cases profileId with
    | none => exact h
    | some profileId => exact h.mutate profileId change
  | dispatch id =>
    obtain ⟨mutation, -, rfl⟩ := Option.map_eq_some_iff.mp hstep
    exact h.dispatch mutation
  | conclude id fulfilled =>
    obtain ⟨mutation, hmutation, rfl⟩ := Option.map_eq_some_iff.mp hstep
    exact h.conclude hsound (mutationIn_eq_some hmutation).1 fulfilled (hremade mutation hmutation)
  | drop profileId =>
    obtain rfl := Option.some.inj hstep
    exact h.drop profileId
  | setScope scope =>
    obtain rfl := Option.some.inj hstep
    exact h.setScope scope
  | setConnected connected =>
    obtain rfl := Option.some.inj hstep
    exact h.setConnected hsound connected

/-! ## Dispatches -/

/-- What no dispatch of a read adds to the log. -/
def Adds (s t : State) : Prop :=
  ∃ events, t.log = s.log ++ events ∧ ∀ e ∈ events, ∀ read profileId, e ≠ .dispatched read profileId

theorem Adds.of_eq (h : t.log = s.log) : Adds s t :=
  ⟨[], h.trans (List.append_nil _).symm, fun _ he => absurd he List.not_mem_nil⟩

theorem Adds.of_event (hlog : t.log = s.log ++ [event]) (h : ∀ read profileId, event ≠ .dispatched read profileId) : Adds s t :=
  ⟨[event], hlog, fun _ he => List.mem_singleton.mp he ▸ h⟩

theorem Adds.trans (h : Adds s t) (h' : Adds t u) : Adds s u := by
  obtain ⟨events, hlog, hevents⟩ := h
  obtain ⟨events', hlog', hevents'⟩ := h'
  refine ⟨events ++ events', by rw [hlog', hlog, List.append_assoc], fun e he => ?_⟩
  exact (List.mem_append.mp he).elim (hevents e) (hevents' e)

theorem Adds.awaited (h : Adds s t) (hawaited : Before Awaited s.log) : Before Awaited t.log := by
  obtain ⟨events, hlog, hevents⟩ := h
  rw [hlog]
  clear hlog
  induction events using List.reverseRecOn with
  | nil => rwa [List.append_nil]
  | append_singleton events e ih =>
    rw [← List.append_assoc]
    refine (ih fun e' he' => hevents e' (List.mem_append_left _ he')).snoc fun read profileId heq => ?_
    exact absurd heq (hevents e (List.mem_append_right _ (List.mem_singleton_self _)) read profileId)

theorem adds_load (s : State) (profileId : String) : Adds s (load s profileId) := by
  have hprofile : Adds s (profile s profileId).2 := by
    rcases profile_cases s profileId with ⟨state, -, heq⟩ | ⟨-, heq⟩ <;> rw [heq] <;> exact .of_eq rfl
  unfold load
  split
  · exact .of_eq rfl
  · dsimp only
    split
    · exact hprofile
    · exact hprofile.trans (.of_event rfl fun _ _ heq => by cases heq)

theorem adds_changed (s : State) (profileId : String) : Adds s (changed s profileId) := by
  have hnoticed {profiles : OrderedMap String ProfileHistory} :
      Adds s { s with profiles, log := s.log ++ [Event.noticed profileId] } := .of_event rfl fun _ _ heq => by cases heq
  unfold changed
  dsimp only
  split
  · exact hnoticed
  · split
    · exact hnoticed.trans (adds_load _ _)
    · exact hnoticed

theorem adds_foldl {f : State → String → State} (hf : ∀ s profileId, Adds s (f s profileId)) (profileIds : List String)
    (s : State) : Adds s (profileIds.foldl f s) := by
  induction profileIds generalizing s with
  | nil => exact .of_eq rfl
  | cons profileId profileIds ih => exact (hf s profileId).trans (ih _)

theorem adds_answer (s : State) (read : Read) (result : Option History) : Adds s (answer s read result) := by
  unfold answer
  dsimp only
  split
  · exact .of_eq rfl
  · exact .of_event rfl fun _ _ heq => by cases heq
  · exact .of_event rfl fun _ _ heq => by cases heq

theorem adds_finish (s : State) (read : Read) : Adds s (finish s read) := by
  unfold finish
  dsimp only
  split
  · exact .of_eq rfl
  split
  · exact .of_eq rfl
  split
  · refine Adds.trans ?_ (adds_load _ _)
    exact .of_eq rfl
  · exact .of_eq rfl

theorem adds_mutate (origin : String → String) (s : State) (profileId : String) (change : Change) :
    Adds s (mutate origin s profileId change) := by
  unfold mutate
  split
  · exact .of_eq rfl
  · have hprofile : Adds s (profile s profileId).2 := by
      rcases profile_cases s profileId with ⟨state, -, heq⟩ | ⟨-, heq⟩ <;> rw [heq] <;> exact .of_eq rfl
    exact hprofile.trans (.of_event rfl fun _ _ heq => by cases heq)

theorem adds_settled (s : State) (mutation : Mutation) : Adds s (settled s mutation) :=
  .of_event rfl fun _ _ heq => by cases heq

theorem adds_dispatch (s : State) (mutation : Mutation) : Adds s (dispatch s mutation) := by
  unfold dispatch
  split
  · exact adds_settled s mutation
  · exact .of_eq rfl

theorem adds_conclude (hsound : Sound s) (mutation : Mutation) (fulfilled : Bool) : Adds s (conclude s mutation fulfilled) := by
  have hconcluded (state value) : Adds s (concluded s mutation state value) := .of_event rfl fun _ _ heq => by cases heq
  rcases conclude_cases hsound mutation fulfilled with ⟨-, heq⟩ | ⟨state, -, ⟨-, heq⟩ | ⟨-, -, heq⟩ | ⟨-, -, heq⟩⟩
  · exact heq ▸ adds_settled s mutation
  · exact heq ▸ hconcluded state _
  · exact heq ▸ hconcluded state _
  · exact heq ▸ (hconcluded state empty).trans (.of_event rfl fun _ _ heq => by cases heq)

theorem adds_setConnected (s : State) (connected : Bool) : Adds s (setConnected s connected) := by
  unfold setConnected
  split
  · refine Adds.trans ?_ (adds_foldl adds_load _ _)
    exact .of_eq rfl
  split
  · exact .of_event rfl fun _ _ heq => by cases heq
  · exact .of_eq rfl

/-- Where a read is dispatched, the mutations of its profile that have begun have settled. -/
theorem awaited_proceed (h : Sound s) (hawaited : Before Awaited s.log) (hmem : read ∈ s.reads)
    (hids : ∀ id ∈ read.mutations, ∀ mutation ∈ s.mutations, mutation.id ≠ id)
    (hfenced : (current s read).isSome = true →
      ∀ mutation ∈ s.mutations, mutation.profileId = read.profileId → mutation.object = read.object) :
    Before Awaited (proceed s read).log := by
  unfold BrowserHistory.proceed
  cases hcurrent : current s read with
  | none => exact hawaited
  | some state =>
    refine hawaited.snoc fun read' profileId heq mutation change discards hbegan => ?_
    obtain ⟨-, rfl⟩ := Event.dispatched.inj heq
    obtain ⟨hget, hobject, -⟩ := current_eq_some.mp hcurrent
    obtain ⟨-, hreading⟩ := h.pending_of_current hmem hcurrent
    refine (h.logged mutation _ change discards hbegan).resolve_right ?_
    rintro ⟨mutation', hmem', rfl, hprofile⟩
    have hobject' := hfenced (by rw [hcurrent]; rfl) mutation' hmem' hprofile
    have hin := ((h.held _ _ hget).mutations mutation'.id).mpr ⟨mutation', hmem', rfl, hprofile, hobject'.trans hobject.symm⟩
    exact hids mutation'.id (hreading.awaits _ hin) mutation' hmem' rfl

theorem awaited_step (h : Sound s) (hawaited : Before Awaited s.log) {a : Action} (hfenced : Fenced s a)
    (hstep : step origin s a = some t) : Before Awaited t.log := by
  cases a with
  | load profileId =>
    obtain rfl := Option.some.inj hstep
    cases profileId with
    | none => exact hawaited
    | some profileId => exact (adds_load s profileId).awaited hawaited
  | proceed id =>
    obtain ⟨read, hread, hproceed⟩ := Option.bind_eq_some_iff.mp hstep
    obtain ⟨hnone, heq⟩ := Option.ite_none_left_eq_some.mp hproceed
    obtain rfl := Option.some.inj heq
    refine awaited_proceed h hawaited (readIn_eq_some hread).1 (fun id hid mutation hmem heq => hnone ?_) (hfenced read hread)
    exact List.any_eq_true.mpr ⟨id, hid, List.any_eq_true.mpr ⟨mutation, hmem, decide_eq_true heq⟩⟩
  | answer id result =>
    obtain ⟨read, -, rfl⟩ := Option.map_eq_some_iff.mp hstep
    exact (adds_answer s read result).awaited hawaited
  | finish id =>
    obtain ⟨read, -, rfl⟩ := Option.map_eq_some_iff.mp hstep
    exact (adds_finish s read).awaited hawaited
  | changed profileId =>
    obtain rfl := Option.some.inj hstep
    exact (adds_changed s profileId).awaited hawaited
  | changedAll =>
    obtain rfl := Option.some.inj hstep
    exact (adds_foldl adds_changed _ s).awaited hawaited
  | mutate profileId change =>
    obtain rfl := Option.some.inj hstep
    cases profileId with
    | none => exact hawaited
    | some profileId => exact (adds_mutate origin s profileId change).awaited hawaited
  | dispatch id =>
    obtain ⟨mutation, -, rfl⟩ := Option.map_eq_some_iff.mp hstep
    exact (adds_dispatch s mutation).awaited hawaited
  | conclude id fulfilled =>
    obtain ⟨mutation, -, rfl⟩ := Option.map_eq_some_iff.mp hstep
    exact (adds_conclude h mutation fulfilled).awaited hawaited
  | drop profileId =>
    obtain rfl := Option.some.inj hstep
    exact Adds.awaited (.of_event rfl fun _ _ heq => by cases heq) hawaited
  | setScope scope =>
    obtain rfl := Option.some.inj hstep
    unfold setScope
    split
    · exact hawaited
    · exact Adds.awaited (.of_event rfl fun _ _ heq => by cases heq) hawaited
  | setConnected connected =>
    obtain rfl := Option.some.inj hstep
    exact (adds_setConnected s connected).awaited hawaited

/-! ## Runs -/

/-- What is installed is of a read that nothing has cancelled, dispatched when the mutations before it had settled;
and a profile that waits for nothing, of a client that is connected and has listeners, is fresh. -/
theorem nothing_stale {listeners : Nat} {as : List Action} (hrun : (client origin).run (start listeners) as = some s)
    (hmeets : (client origin).Meets (fun s a => Fenced s a ∧ Remade s a) (start listeners) as) :
    Before Undisturbed s.log ∧ Before Awaited s.log ∧
    (0 < s.listeners → s.connected = true → ∀ profileId state, s.profiles.get profileId = some state →
      state.pending = none → state.mutations = [] → Fresh origin s.log profileId state.value) := by
  have h : Sound s ∧ Before Awaited s.log ∧ Kept origin s := by
    refine (client origin).run_invariant (P := fun s => Sound s ∧ Before Awaited s.log ∧ Kept origin s)
      ⟨sound_start listeners, Before.nil _, fun _ hconnected => by cases hconnected⟩ ?_ hmeets hrun
    rintro s a t ⟨hsound, hawaited, hkept⟩ ⟨hfenced, hremade⟩ hstep
    exact ⟨hsound.step origin hstep, awaited_step hsound hawaited hfenced hstep, hkept.step hsound hremade hstep⟩
  obtain ⟨hsound, hawaited, hkept⟩ := h
  refine ⟨hsound.installed, hawaited, fun hlisteners hconnected profileId state hget hpending hids => ?_⟩
  obtain ⟨howing, hfresh⟩ := hkept hlisteners hconnected profileId state hget
  exact (hfresh (fun how => howing how hids) hpending).2

instance (s : State) : ∀ a, Decidable (Fenced s a)
  | .proceed id => inferInstanceAs (Decidable (∀ read ∈ readIn s id .waiting, (current s read).isSome = true →
      ∀ mutation ∈ s.mutations, mutation.profileId = read.profileId → mutation.object = read.object))
  | .load _ | .answer _ _ | .finish _ | .changed _ | .changedAll | .mutate _ _ | .dispatch _ | .conclude _ _ | .drop _
  | .setScope _ | .setConnected _ => isTrue trivial

instance (s : State) : ∀ a, Decidable (Remade s a)
  | .conclude id fulfilled => inferInstanceAs (Decidable (∀ mutation ∈ mutationIn s id true,
      ∀ state ∈ live s mutation.profileId mutation.object, fulfilled = true → s.connected = true → state.pending = none →
        (∀ id ∈ state.mutations, id = mutation.id) → ¬Owing s.log mutation.profileId))
  | .load _ | .proceed _ | .answer _ _ | .finish _ | .changed _ | .changedAll | .mutate _ _ | .dispatch _ | .drop _
  | .setScope _ | .setConnected _ => isTrue trivial

def visited : Entry := ⟨"https://a.example/", "A", 1, 1, ""⟩

/-- A notice, its read, and then a removal that succeeds. -/
def removed : List Action :=
  [.setScope (some ⟨"deployment", "person"⟩), .setConnected true, .changed "profile", .load (some "profile"), .proceed 0,
    .answer 0 (some ⟨[visited], []⟩), .finish 0, .mutate (some "profile") (.remove visited.url), .dispatch 0, .conclude 0 true]

theorem nothing_stale_removed : ∃ s state, (client id).run (start 1) removed = some s ∧
    s.profiles.get "profile" = some state ∧ Before Undisturbed s.log ∧ Before Awaited s.log ∧
    Fresh id s.log "profile" state.value := by
  obtain ⟨s, hrun, hlisteners, hconnected, hget⟩ := (client id).exists_run_of_any (s := start 1) (l := removed)
    (P := fun s => 0 < s.listeners ∧ s.connected = true ∧
      s.profiles.get "profile" = some { version := 1, object := 0 }) (by decide +kernel)
  obtain ⟨hundisturbed, hawaited, hfresh⟩ := nothing_stale hrun (by decide +kernel)
  exact ⟨s, _, hrun, hget, hundisturbed, hawaited, hfresh hlisteners hconnected "profile" _ hget rfl rfl⟩

/-- The read of a notice is discarded by a removal, which succeeds. -/
def discarded : List Action :=
  [.setScope (some ⟨"deployment", "person"⟩), .setConnected true, .load (some "profile"), .proceed 0,
    .answer 0 (some ⟨[visited], []⟩), .finish 0, .changed "profile", .proceed 1,
    .mutate (some "profile") (.remove visited.url), .dispatch 0, .conclude 0 true, .answer 1 (some ⟨[], []⟩), .finish 1]

/-- The client is connected with a listener, nothing is in flight any more, and the notice is forgotten. -/
theorem not_fresh_discarded : ∃ s state, (client id).run (start 1) discarded = some s ∧ s.connected = true ∧
    0 < s.listeners ∧ s.scope.isSome = true ∧ s.reads = [] ∧ s.mutations = [] ∧
    s.profiles.get "profile" = some state ∧ state.pending = none ∧ state.mutations = [] ∧
    ¬Fresh id s.log "profile" state.value := by
  obtain ⟨s, hrun, hconnected, hlisteners, hscope, hreads, hmutations, hget, hlog⟩ :=
    (client id).exists_run_of_any (s := start 1) (l := discarded)
    (P := fun s => s.connected = true ∧ 0 < s.listeners ∧ s.scope.isSome = true ∧ s.reads = [] ∧ s.mutations = [] ∧
      s.profiles.get "profile" = some { version := 1, object := 0 } ∧
      s.log = [.rescoped, .loading "profile", .dispatched 0 "profile", .installed 0 "profile" ⟨[visited], []⟩,
        .noticed "profile", .loading "profile", .dispatched 1 "profile", .began 0 "profile" (.remove visited.url) true,
        .settled 0]) (by decide +kernel)
  refine ⟨s, _, hrun, hconnected, hlisteners, hscope, hreads, hmutations, hget, rfl, rfl, ?_⟩
  rintro ⟨pre, read, post, hsplit, hnoticed, hlast, hvalue⟩
  rw [hlog] at hsplit
  have hin : Event.dispatched read "profile" ∈ [Event.rescoped, .loading "profile", .dispatched 0 "profile",
      .installed 0 "profile" ⟨[visited], []⟩, .noticed "profile", .loading "profile", .dispatched 1 "profile",
      .began 0 "profile" (.remove visited.url) true, .settled 0] := by
    rw [hsplit]
    exact List.mem_append_right _ List.mem_cons_self
  have hread : read = 0 ∨ read = 1 := by simpa using hin
  rcases hread with rfl | rfl
  · have hafter := ((@List.append_cons_inj_of_notMem _ [Event.rescoped, .loading "profile"] _ [.installed 0 "profile" ⟨[visited], []⟩, .noticed "profile", .loading "profile", .dispatched 1 "profile",
        .began 0 "profile" (.remove visited.url) true, .settled 0]) (by decide) (by decide)).mp hsplit
    exact hnoticed (hafter.2.2 ▸ (by decide))
  · have hmem {event : Event} (he : event ∈ post) : event ∈ [Event.rescoped, .loading "profile", .dispatched 0 "profile",
        .installed 0 "profile" ⟨[visited], []⟩, .noticed "profile", .loading "profile", .dispatched 1 "profile",
        .began 0 "profile" (.remove visited.url) true, .settled 0] := by
      rw [hsplit]
      exact List.mem_append_right _ (List.mem_cons_of_mem _ he)
    rcases hvalue with ⟨brought, between, since, rfl, -⟩ | hfailed
    · have hinstalled := hmem (List.mem_append_right between List.mem_cons_self)
      simp at hinstalled
    · have hfailed := hmem hfailed
      simp at hfailed

end Opensteer.BrowserHistory
