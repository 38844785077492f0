import Opensteer.Realtime.Passing
import Opensteer.Realtime.Synced

/-!
# Progress a client is given behind events it is not

A client without place events is given each frame of progress with the sequence
it follows put back to the last visible event, where no event it is given has
that sequence. No frame then waits for an event the client is not given, and none
comes before one that it follows (`live_remapped`).
-/

namespace Opensteer.Realtime

variable {o : Options} {s : Subscriber} {log : List AgentEvent} {n : Nat} {as : List Action}

/-! ## The sequences a client is given -/

def callMarks : SinkCall → List Nat
  | .send (.events events) => events.map AgentEvent.sequence
  | .send (.synchronized sequence) => [sequence]
  | _ => []

/-- The sequences of the events, and of `host.synchronized`, in order. -/
def marks (calls : List SinkCall) : List Nat := calls.flatMap callMarks

/-- The last sequence given to a client that had `cursor` at first. -/
def lastGiven (cursor : Nat) (calls : List SinkCall) : Nat := (marks calls).getLast?.getD cursor

theorem marks_append (calls more : List SinkCall) :
    marks (calls ++ more) = marks calls ++ marks more := List.flatMap_append

theorem marks_cons (call : SinkCall) (calls : List SinkCall) :
    marks (call :: calls) = callMarks call ++ marks calls := List.flatMap_cons

theorem marks_singleton (call : SinkCall) : marks [call] = callMarks call := by
  rw [marks_cons, marks, List.flatMap_nil, List.append_nil]

theorem lastGiven_append (cursor : Nat) (calls more : List SinkCall) :
    lastGiven cursor (calls ++ more) = (marks more).getLast?.getD (lastGiven cursor calls) := by
  rw [lastGiven, marks_append, List.getLast?_append, lastGiven]
  cases (marks more).getLast? <;> rfl

/-- Where the sequences ascend, the last is the highest. -/
theorem le_lastGiven {calls : List SinkCall} (h : (marks calls).Pairwise (· ≤ ·)) {x : Nat}
    (hx : x ∈ marks calls) (cursor : Nat) : x ≤ lastGiven cursor calls := by
  unfold lastGiven
  rcases List.eq_nil_or_concat (marks calls) with hm | ⟨init, last, hm⟩
  · simp [hm] at hx
  · rw [hm, List.concat_eq_append] at h hx ⊢
    rw [List.getLast?_concat, Option.getD_some]
    rcases List.mem_append.mp hx with hx | hx
    · exact (List.pairwise_append.mp h).2.2 x hx last (List.mem_singleton_self _)
    · exact (List.mem_singleton.mp hx).le

/-! ## What `#send` makes of a call -/

/-- The sequence a frame is sent with. -/
def remapped (s : Subscriber) (afterSequence : Nat) : Nat :=
  if s.visibleThrough < afterSequence ∧ afterSequence ≤ s.handedThrough then s.visibleThrough
  else afterSequence

/-- What the sink is handed of a call. -/
def shownCall (o : Options) (s : Subscriber) : SinkCall → List SinkCall
  | .send (.events events) =>
    if events.filter (isVisible o) = [] then [] else [.send (.events (events.filter (isVisible o)))]
  | .send (.live frame afterSequence) => [.send (.live frame (remapped s afterSequence))]
  | call => [call]

theorem passCall_sink (hplace : o.placeEvents = false) (s : Subscriber) (call : SinkCall) :
    (passCall o s call).sink = s.sink ++ shownCall o s call := by
  cases call with
  | close code => rfl
  | send m =>
    simp only [passCall, send, hplace, Bool.false_eq_true, if_false]
    cases m with
    | events events =>
      simp only [sendVisible, shownCall]
      split
      · simp
      · rfl
    | live frame afterSequence =>
      simp only [shownCall, remapped]
      split <;> rfl
    | snapshot sequence => rfl
    | synchronized sequence => rfl
    | resyncRequired reason => rfl
    | queued message => rfl

/-- Each of the two marks is the last sequence there was, of what is passed to
`#send` and of what goes through. -/
theorem passCall_marks (hplace : o.placeEvents = false) (s : Subscriber) (call : SinkCall) :
    (passCall o s call).handedThrough = (marks [call]).getLast?.getD s.handedThrough ∧
      (passCall o s call).visibleThrough =
        (marks (shownCall o s call)).getLast?.getD s.visibleThrough := by
  cases call with
  | close code => exact ⟨rfl, rfl⟩
  | send m =>
    simp only [passCall, send, hplace, Bool.false_eq_true, if_false]
    cases m with
    | events events =>
      have hlast : ∀ events : List AgentEvent, (marks [.send (.events events)]).getLast? =
          events.getLast?.map AgentEvent.sequence := fun events => by
        rw [marks_singleton, callMarks, List.getLast?_map]
      simp only [sendVisible, shownCall, hlast]
      split
      · rename_i hnil
        simp [hnil, marks]
      · rw [hlast]
        exact ⟨rfl, rfl⟩
    | live frame afterSequence =>
      dsimp only
      split <;> exact ⟨rfl, rfl⟩
    | snapshot sequence => exact ⟨rfl, rfl⟩
    | synchronized sequence => exact ⟨rfl, rfl⟩
    | resyncRequired reason => exact ⟨rfl, rfl⟩
    | queued message => exact ⟨rfl, rfl⟩

theorem passed_marks (hplace : o.placeEvents = false) (n : Nat) (calls : List SinkCall) :
    (passed o n calls).handedThrough = lastGiven n calls ∧
      (passed o n calls).visibleThrough = lastGiven n (passed o n calls).sink := by
  induction calls using List.reverseRecOn with
  | nil => exact ⟨rfl, rfl⟩
  | append_singleton calls call ih =>
    obtain ⟨hhanded, hvisible⟩ := passCall_marks hplace (passed o n calls) call
    rw [passed_concat, passCall_sink hplace, lastGiven_append, lastGiven_append, hhanded, hvisible,
      ih.1, ih.2]
    exact ⟨rfl, rfl⟩

theorem marks_shownCall (o : Options) (s : Subscriber) (call : SinkCall) :
    (marks (shownCall o s call)).Sublist (marks [call]) := by
  cases call with
  | close code => exact List.Sublist.refl _
  | send m =>
    cases m with
    | events events =>
      simp only [shownCall]
      split
      · exact List.nil_sublist _
      · rw [marks_singleton, marks_singleton]
        exact List.filter_sublist.map _
    | live frame afterSequence => exact List.Sublist.refl _
    | snapshot sequence => exact List.Sublist.refl _
    | synchronized sequence => exact List.Sublist.refl _
    | resyncRequired reason => exact List.Sublist.refl _
    | queued message => exact List.Sublist.refl _

/-- Of what is passed to `#send` the client is given some, in order. -/
theorem marks_passed (hplace : o.placeEvents = false) (n : Nat) (calls : List SinkCall) :
    (marks (passed o n calls).sink).Sublist (marks calls) := by
  induction calls using List.reverseRecOn with
  | nil => exact List.Sublist.refl _
  | append_singleton calls call ih =>
    rw [passed_concat, passCall_sink hplace, marks_append, marks_append]
    exact ih.append (marks_shownCall o _ call)

/-- What is shown of a call stays among what the client is given. -/
theorem mem_passed (hplace : o.placeEvents = false) (n : Nat) {calls : List SinkCall}
    {call : SinkCall} (h : call ∈ calls) :
    ∃ s, ∀ shown ∈ shownCall o s call, shown ∈ (passed o n calls).sink := by
  induction calls using List.reverseRecOn with
  | nil => cases h
  | append_singleton calls last ih =>
    rw [passed_concat, passCall_sink hplace]
    rcases List.mem_append.mp h with hc | hc
    · obtain ⟨s, hs⟩ := ih hc
      exact ⟨s, fun shown hm => List.mem_append_left _ (hs shown hm)⟩
    · obtain rfl := List.mem_singleton.mp hc
      exact ⟨_, fun shown hm => List.mem_append_right _ hm⟩

theorem synchronized_passed (hplace : o.placeEvents = false) (n : Nat) {calls : List SinkCall}
    {q : Nat} (h : .send (.synchronized q) ∈ calls) :
    .send (.synchronized q) ∈ (passed o n calls).sink := by
  obtain ⟨s, hs⟩ := mem_passed hplace n h
  exact hs _ (List.mem_singleton_self _)

theorem mem_marks_of_call {calls : List SinkCall} {call : SinkCall} (h : call ∈ calls) {x : Nat}
    (hx : x ∈ callMarks call) : x ∈ marks calls := List.mem_flatMap.mpr ⟨call, h, hx⟩

theorem mem_events_handed {calls : List SinkCall} {r : AgentEvent}
    (h : r ∈ CourseItem.events (handed calls)) :
    ∃ events, .send (.events events) ∈ calls ∧ r ∈ events := by
  obtain ⟨call, hc, hi⟩ := List.mem_flatMap.mp (CourseItem.mem_events.mp h)
  cases call with
  | close code => simp [callItems] at hi
  | send m =>
    cases m with
    | events events => exact ⟨events, hc, by simpa [callItems, messageItems] using hi⟩
    | live frame afterSequence => simp [callItems, messageItems] at hi
    | snapshot sequence => simp [callItems, messageItems] at hi
    | synchronized sequence => simp [callItems, messageItems] at hi
    | resyncRequired reason => simp [callItems, messageItems] at hi
    | queued message => simp [callItems, messageItems] at hi

theorem mem_marks_of_event {calls : List SinkCall} {r : AgentEvent}
    (h : r ∈ CourseItem.events (handed calls)) : r.sequence ∈ marks calls := by
  obtain ⟨events, hc, hr⟩ := mem_events_handed h
  exact mem_marks_of_call hc (List.mem_map_of_mem hr)

/-- The client has been given every event it may see of those passed to `#send`. -/
theorem mem_marks_passed (hplace : o.placeEvents = false) (n : Nat) {calls : List SinkCall}
    {r : AgentEvent} (h : r ∈ CourseItem.events (handed calls)) (hr : isVisible o r = true) :
    r.sequence ∈ marks (passed o n calls).sink := by
  obtain ⟨events, hc, hmem⟩ := mem_events_handed h
  obtain ⟨s, hs⟩ := mem_passed hplace n hc
  have hvisible : r ∈ events.filter (isVisible o) := List.mem_filter.mpr ⟨hmem, hr⟩
  have hshown := hs (.send (.events (events.filter (isVisible o)))) (by
    rw [shownCall, if_neg (List.ne_nil_of_mem hvisible)]
    exact List.mem_singleton_self _)
  exact mem_marks_of_call hshown (List.mem_map_of_mem hvisible)

/-- Each frame the client is given is one passed to `#send`, put back. -/
theorem live_passed (hplace : o.placeEvents = false) (n : Nat) {calls pre post : List SinkCall}
    {frame : LiveFrame} {a : Nat}
    (h : (passed o n calls).sink = pre ++ SinkCall.send (.live frame a) :: post) :
    ∃ (before : List SinkCall) (b : Nat) (after : List SinkCall), calls = before ++ SinkCall.send (.live frame b) :: after ∧
      (passed o n before).sink = pre ∧ a = remapped (passed o n before) b := by
  induction calls using List.reverseRecOn generalizing post with
  | nil => simp [passed, Subscriber.initial] at h
  | append_singleton calls call ih =>
    have hearlier : ∀ post,
        (passed o n calls).sink = pre ++ SinkCall.send (.live frame a) :: post →
        ∃ (before : List SinkCall) (b : Nat) (after : List SinkCall), calls ++ [call] = before ++ SinkCall.send (.live frame b) :: after ∧
          (passed o n before).sink = pre ∧ a = remapped (passed o n before) b := by
      intro post hc
      obtain ⟨before, b, after, rfl, hpre, ha⟩ := ih hc
      exact ⟨before, b, after ++ [call], by simp, hpre, ha⟩
    have hother : ∀ shown, shown ≠ .send (.live frame a) →
        (passed o n calls).sink ++ [shown] = pre ++ SinkCall.send (.live frame a) :: post →
        ∃ rest, (passed o n calls).sink = pre ++ SinkCall.send (.live frame a) :: rest :=
      fun shown hne hc => (append_singleton_eq hc).resolve_left fun hs => hne hs.2
    rw [passed_concat, passCall_sink hplace] at h
    cases call with
    | close code => obtain ⟨rest, hr⟩ := hother _ (by simp) h; exact hearlier rest hr
    | send m =>
      cases m with
      | events events =>
        simp only [shownCall] at h
        split at h
        · rw [List.append_nil] at h
          exact hearlier post h
        · obtain ⟨rest, hr⟩ := hother _ (by simp) h
          exact hearlier rest hr
      | live f b =>
        rcases append_singleton_eq h with ⟨hpre, hs⟩ | ⟨rest, hr⟩
        · cases hs
          exact ⟨calls, b, [], rfl, hpre, rfl⟩
        · exact hearlier rest hr
      | snapshot sequence => obtain ⟨rest, hr⟩ := hother _ (by simp) h; exact hearlier rest hr
      | synchronized sequence => obtain ⟨rest, hr⟩ := hother _ (by simp) h; exact hearlier rest hr
      | resyncRequired reason => obtain ⟨rest, hr⟩ := hother _ (by simp) h; exact hearlier rest hr
      | queued message => obtain ⟨rest, hr⟩ := hother _ (by simp) h; exact hearlier rest hr

/-! ## The order of the sequences -/

theorem marks_of_unsynchronized {calls : List SinkCall}
    (h : ∀ q, .send (.synchronized q) ∉ calls) :
    marks calls = (CourseItem.events (handed calls)).map AgentEvent.sequence := by
  induction calls with
  | nil => rfl
  | cons call calls ih =>
    have hrest := ih fun q hq => h q (List.mem_cons_of_mem _ hq)
    have hcons : handed (call :: calls) = callItems call ++ handed calls := List.flatMap_cons
    have hcall : callMarks call = (CourseItem.events (callItems call)).map AgentEvent.sequence := by
      cases call with
      | close code => rfl
      | send m =>
        cases m with
        | events events => simp [callMarks, callItems, messageItems]
        | live frame afterSequence => rfl
        | snapshot sequence => rfl
        | synchronized sequence => exact absurd (List.mem_cons_self ..) (h sequence)
        | resyncRequired reason => rfl
        | queued message => rfl
    rw [marks_cons, hrest, hcons, CourseItem.events_append, List.map_append, hcall]

/-- A synchronized subscriber that is sent all has handed over ascending
sequences, that of `host.synchronized` among them. -/
theorem marks_ascending (hlog : Ascending AgentEvent.sequence log) (h : Synced log s)
    (hwithin : CourseItem.events (handed s.sink) <+: above AgentEvent.sequence log s.start) {q : Nat}
    (hq : .send (.synchronized q) ∈ s.sink) :
    s.start ≤ q ∧ (marks s.sink).Pairwise (· ≤ ·) := by
  obtain ⟨pre, post, he⟩ := List.append_of_mem hq
  obtain ⟨hplain, hstart, hexact⟩ := h.synchronized pre q post he
  have hpre : ∀ q', .send (.synchronized q') ∉ pre := fun q' hm => by cases hplain _ hm
  have hpost : ∀ q', .send (.synchronized q') ∉ post := by
    intro q' hm
    obtain ⟨mid, rest, hmid⟩ := List.append_of_mem hm
    have hsecond := h.synchronized (pre ++ SinkCall.send (.synchronized q) :: mid) q' rest (by
      rw [he, hmid, List.append_assoc, List.cons_append])
    cases hsecond.1 (.send (.synchronized q)) (by simp)
  have hasc := (hlog.filter _).of_isPrefix hwithin
  have hsplit : CourseItem.events (handed s.sink) =
      CourseItem.events (handed pre) ++ CourseItem.events (handed post) := by
    have hcons : handed (.send (.synchronized q) :: post) = handed post := rfl
    rw [he, handed_append, hcons, CourseItem.events_append]
  rw [hsplit] at hasc hwithin
  obtain ⟨hasc₁, hasc₂, hlt⟩ := List.pairwise_append.mp hasc
  refine ⟨hstart, ?_⟩
  rw [he, marks_append, marks_cons, marks_of_unsynchronized hpre, marks_of_unsynchronized hpost]
  have hle : ∀ r ∈ CourseItem.events (handed pre), r.sequence ≤ q := fun r hr => by
    rw [hexact] at hr
    exact (mem_between.mp hr).2.2
  have hafter : ∀ r ∈ CourseItem.events (handed post), q ≤ r.sequence := fun r hr => by
    by_contra hlow
    obtain ⟨hmem, hs⟩ := mem_above.mp (hwithin.subset (List.mem_append_right _ hr))
    have hearly : r ∈ CourseItem.events (handed pre) := by
      rw [hexact]
      exact mem_between.mpr ⟨hmem, hs, by omega⟩
    exact absurd (hlt r hearly r hr) (Nat.lt_irrefl _)
  refine List.pairwise_append.mpr ⟨?_, List.pairwise_cons.mpr ⟨?_, ?_⟩, ?_⟩
  · exact List.pairwise_map.mpr (hasc₁.imp Nat.le_of_lt)
  · simpa using hafter
  · exact List.pairwise_map.mpr (hasc₂.imp Nat.le_of_lt)
  · intro x hx y hy
    obtain ⟨r, hr, rfl⟩ := List.mem_map.mp hx
    rcases List.mem_cons.mp hy with rfl | hy
    · exact hle r hr
    · obtain ⟨r', hr', rfl⟩ := List.mem_map.mp hy
      exact (hle r hr).trans (hafter r' hr')

/-! ## Progress -/

/-- A client without place events, after any run. Where a frame of progress that
follows a later event than those it was synchronized with follows a retained
one, the frame is given with a sequence no higher than the last the client has
been given, and no lower than that of any event the client may see which the
frame follows. -/
theorem live_remapped (hplace : o.placeEvents = false) (hlog : Ascending AgentEvent.sequence log)
    (hmeets : (machine o).Meets (Legal log) (.initial n) as)
    (hrun : (machine o).run (.initial n) as = some s) {pre post : List SinkCall}
    {frame : LiveFrame} {a : Nat} (he : s.sink = pre ++ SinkCall.send (.live frame a) :: post)
    (hretained : ∀ q, .send (.synchronized q) ∈ pre → q < frame.afterSequence →
      ∃ r ∈ log, r.sequence = frame.afterSequence) :
    a ≤ lastGiven n pre ∧
      ∀ r ∈ log, isVisible o r = true → r.sequence ≤ frame.afterSequence → r.sequence ≤ a := by
  -- The same run of a subscriber that is sent all.
  rw [run_withheld] at hrun
  obtain ⟨t, ht, rfl⟩ := Option.map_eq_some_iff.mp hrun
  have hmeets' : (machine o.withPlaces).Meets (Legal log) (.initial n) as :=
    Machine.meets_of_map (M := machine o.withPlaces) (N := machine o) (step_withheld o n)
      (fun s a hl => by cases a <;> exact hl) hmeets
  obtain ⟨hdelivered, hsynced⟩ := synced rfl hlog hmeets' ht
  have hvisible : ∀ r, isVisible o.withPlaces r = true := isVisible_of_placeEvents rfl
  obtain ⟨before, b, after, hsink, rfl, rfl⟩ := live_passed hplace n he
  obtain ⟨rfl, q, hq⟩ := hsynced.progress before frame b after hsink
  -- What was passed to `#send` before the frame, and what went through of it.
  have hwithin : CourseItem.events (handed t.sink) <+: above AgentEvent.sequence log t.start := by
    have := hdelivered.ok.events_prefix (handed_isPrefix _ t)
    rwa [List.filter_eq_self.mpr fun r _ => hvisible r] at this
  have hqt : .send (.synchronized q) ∈ t.sink := hsink ▸ List.mem_append_left _ hq
  obtain ⟨hstart, hall⟩ := marks_ascending hlog hsynced hwithin hqt
  rw [hsink, marks_append] at hall
  have hpassed := (List.pairwise_append.mp hall).1
  have hgiven := hpassed.sublist (marks_passed hplace n before)
  obtain ⟨hhanded, hshown⟩ := passed_marks hplace n before
  have hqHanded : q ≤ lastGiven n before :=
    le_lastGiven hpassed (mem_marks_of_call hq (List.mem_singleton_self q)) n
  have hqShown : q ≤ lastGiven n (passed o n before).sink :=
    le_lastGiven hgiven
      (mem_marks_of_call (synchronized_passed hplace n hq) (List.mem_singleton_self q)) n
  have hfollows : ∀ r ∈ log, t.start < r.sequence → r.sequence ≤ frame.afterSequence →
      r ∈ CourseItem.events (handed before) := by
    intro r hr hs hle
    have hsplit : handed t.sink = handed before ++ CourseItem.note frame :: handed after := by
      rw [hsink, handed_append]
      rfl
    exact CourseItem.mem_events.mpr
      (hdelivered.ok.note_follows (handed_isPrefix _ t) hsplit hr (hvisible r) hs hle)
  unfold remapped
  rw [hhanded, hshown]
  constructor
  · split
    · exact Nat.le_refl _
    · rename_i hkept
      -- A frame sent as it is follows no event that was passed on and not shown.
      by_contra hhigh
      have hbeyond : lastGiven n before < frame.afterSequence := by omega
      obtain ⟨r, hr, hseq⟩ := hretained q (synchronized_passed hplace n hq) (by omega)
      have hmem := hfollows r hr (by omega) (by omega)
      have := le_lastGiven hpassed (mem_marks_of_event hmem) n
      omega
  · intro r hr hv hle
    split
    · by_cases hs : t.start < r.sequence
      · exact le_lastGiven hgiven (mem_marks_passed hplace n (hfollows r hr hs hle) hv) n
      · omega
    · exact hle

/-- A client without place events, at 1; the log has a place event at 2. -/
def placelessOptions : Options := { exampleOptions with placeEvents := false }

def placeEvent (sequence : Nat) : AgentEvent :=
  ⟨sequence, ⟨"workspace"⟩, ⟨"thread"⟩, some exampleRun, .placeEntered⟩

def progressAfter (afterSequence : Nat) : LiveFrame :=
  ⟨afterSequence, exampleRun, ⟨"thread"⟩, ⟨"workspace"⟩, []⟩

def placeRun : List Action :=
  [.membershipResolves true, .headResolves 1, .viewerSnapshotResolves [], .offer (placeEvent 2),
    .offerLive (progressAfter 2), .jobSendResolves, .jobFinishes, .jobStarts, .jobSendResolves,
    .jobFinishes, .jobStarts]

/-- Progress that follows the place event is given as if it followed 1. -/
theorem live_remapped_place :
    ((machine placelessOptions).run (.initial 1) placeRun).map Subscriber.sink =
      some [.send (.synchronized 1), .send (.live (progressAfter 2) 1)] ∧
    1 ≤ lastGiven 1 [.send (.synchronized 1)] ∧
    ∀ r ∈ [placeEvent 2], isVisible placelessOptions r = true → r.sequence ≤ 2 →
      r.sequence ≤ 1 := by
  have hend : ((machine placelessOptions).run (.initial 1) placeRun).map Subscriber.sink =
      some [.send (.synchronized 1), .send (.live (progressAfter 2) 1)] := by decide
  obtain ⟨s, hrun, hsink⟩ := Option.map_eq_some_iff.mp hend
  have hsplit : s.sink = [SinkCall.send (.synchronized 1)] ++ SinkCall.send (.live (progressAfter 2) 1) :: [] :=
    hsink
  have hlog : Ascending AgentEvent.sequence [placeEvent 2] := by simp [Ascending]
  have hretained : ∃ r ∈ [placeEvent 2], r.sequence = (progressAfter 2).afterSequence :=
    ⟨placeEvent 2, List.mem_singleton_self _, rfl⟩
  exact ⟨hend, live_remapped rfl hlog (by decide) hrun hsplit fun _ _ _ => hretained⟩

end Opensteer.Realtime
