import Opensteer.LiveProgress.Ledger

/-!
# What each end makes of an item, a frame and an event

The ledger draws an item as a reader of the stream's feed reads it who never takes
a text back (`drawItems_spec`), so what the registry forwards takes the ledger's
views to the registry's (`forwarded_spec`). `apply_spec`, `completeEvent_spec` and
`observeEvent_spec` say what a frame and a durable event make of a Run.
-/

namespace Opensteer.LiveProgress

variable {o : MirrorOptions} {id : String} {R : RunId}

/-! ## Drawing items -/

def LedgerStream.view (s : LedgerStream) : Feed.View Text := ⟨s.length, s.tail⟩

def LedgerRun.view (run : LedgerRun) (id : String) : Option (Feed.View Text) :=
  (run.streams.get id).map LedgerStream.view

/-- What the ledger has of a stream. -/
def LiveStreamLedger.view (l : LiveStreamLedger) (R : RunId) (id : String) :
    Option (Feed.View Text) := (l.runs.get R).bind fun run => run.view id

/-- `run'` comes of `run` by drawing items after a sequence: its other fields stay,
and its streams follow what they did, or that sequence. -/
def DrawnFrom (afterSequence : Nat) (run run' : LedgerRun) : Prop :=
  (∃ streams, run' = { run with streams }) ∧
  ∀ id stream, run'.streams.get id = some stream → stream.openedAfter = afterSequence ∨
    ∃ before, run.streams.get id = some before ∧ stream.openedAfter = before.openedAfter

theorem DrawnFrom.refl (afterSequence : Nat) (run : LedgerRun) : DrawnFrom afterSequence run run :=
  ⟨⟨run.streams, rfl⟩, fun _ stream h => .inr ⟨stream, h, rfl⟩⟩

theorem DrawnFrom.trans {afterSequence : Nat} {run run' run'' : LedgerRun}
    (h : DrawnFrom afterSequence run run') (h' : DrawnFrom afterSequence run' run'') :
    DrawnFrom afterSequence run run'' := by
  obtain ⟨⟨_, rfl⟩, hopened⟩ := h
  obtain ⟨⟨_, rfl⟩, hopened'⟩ := h'
  refine ⟨⟨_, rfl⟩, fun id stream hs => ?_⟩
  rcases hopened' id stream hs with ha | ⟨before, hb, he⟩
  · exact .inl ha
  · rw [he]
    exact hopened id before hb

theorem view_setLedger (run : LedgerRun) (id id' : String) (s : LedgerStream) :
    LedgerRun.view { run with streams := run.streams.set id s } id' =
      if id = id' then some s.view else run.view id' := by
  simp only [LedgerRun.view, OrderedMap.get_set]
  split <;> rfl

/-- A stream is set that follows what it did, or the sequence. -/
theorem DrawnFrom.set {afterSequence : Nat} {run : LedgerRun} (id : String) (s : LedgerStream)
    (hs : s.openedAfter = afterSequence ∨
      ∃ before, run.streams.get id = some before ∧ s.openedAfter = before.openedAfter) :
    DrawnFrom afterSequence run { run with streams := run.streams.set id s } := by
  refine ⟨⟨_, rfl⟩, fun id' stream h => ?_⟩
  rw [OrderedMap.get_set] at h
  split at h
  · rename_i hid
    obtain rfl := Option.some.inj h
    exact hid ▸ hs
  · exact .inr ⟨stream, h, rfl⟩

/-- An item is drawn as a reader reads it who never takes a text back. -/
theorem drawItem_spec (afterSequence : Nat) (run : LedgerRun) (d : Drawn) (item : LiveItem)
    (htombs : ∀ id tombstone, run.tombstones.get id = some tombstone → tombstone ≤ afterSequence) :
    DrawnFrom afterSequence run (drawItem afterSequence run d item).1 ∧
    (∀ id, (drawItem afterSequence run d item).1.view id =
      if liveStreamKeyId item.key = id then Feed.readOn tails (run.view id) (toOp item)
      else run.view id) ∧
    (drawItem afterSequence run d item).2.gap =
      (d.gap || Feed.gapped tails (run.view (liveStreamKeyId item.key)) (toOp item)) := by
  have hnot : ¬ ((run.tombstones.get (liveStreamKeyId item.key)).any
      fun tombstone => afterSequence < tombstone) = true := by
    cases ht : run.tombstones.get (liveStreamKeyId item.key) with
    | none => simp
    | some tombstone =>
      have := htombs _ _ ht
      simp only [Option.any_some, decide_eq_true_eq]
      omega
  -- An item that is not drawn leaves every view as it is.
  have hskip : Feed.readOn tails (run.view (liveStreamKeyId item.key)) (toOp item) =
      run.view (liveStreamKeyId item.key) → ∀ id, run.view id =
        if liveStreamKeyId item.key = id then Feed.readOn tails (run.view id) (toOp item)
        else run.view id := by
    intro h id
    by_cases hid : liveStreamKeyId item.key = id
    · rw [if_pos hid, ← hid, h]
    · rw [if_neg hid]
  have hdraw : ∀ s : LedgerStream,
      Feed.readOn tails (run.view (liveStreamKeyId item.key)) (toOp item) = some s.view → ∀ id,
        LedgerRun.view { run with streams := run.streams.set (liveStreamKeyId item.key) s } id =
          if liveStreamKeyId item.key = id then Feed.readOn tails (run.view id) (toOp item)
          else run.view id := by
    intro s h id
    rw [view_setLedger]
    by_cases hid : liveStreamKeyId item.key = id
    · rw [if_pos hid, if_pos hid, ← hid, h]
    · rw [if_neg hid, if_neg hid]
  unfold drawItem
  rw [if_neg hnot]
  cases item with
  | replace key length text =>
    dsimp only [LiveItem.key, toOp] at hskip hdraw ⊢
    have hany : ((run.view (liveStreamKeyId key)).any fun v => length < v.length) =
        ((run.streams.get (liveStreamKeyId key)).any fun current => length < current.length) := by
      unfold LedgerRun.view
      cases run.streams.get (liveStreamKeyId key) <;> rfl
    split
    · rename_i hshort
      refine ⟨.refl _ _, hskip ?_, by simp [Feed.gapped]⟩
      rw [Feed.readOn, hany, if_pos hshort]
    · rename_i hlong
      refine ⟨.set _ _ ?_, hdraw _ ?_, by simp [Feed.gapped, Drawn.change]⟩
      · cases hs : run.streams.get (liveStreamKeyId key) with
        | none => exact .inl rfl
        | some before => exact .inr ⟨before, rfl, rfl⟩
      · rw [Feed.readOn, hany, if_neg hlong]
        rfl
  | append key at_ text =>
    dsimp only [LiveItem.key, toOp] at hskip hdraw ⊢
    have hopen : Feed.open_ tails (run.view (liveStreamKeyId key)) at_ =
        ((run.streams.get (liveStreamKeyId key)).or
          (if at_ = 0 then some ⟨key, 0, afterSequence, []⟩ else none)).map LedgerStream.view := by
      unfold LedgerRun.view Feed.open_
      cases run.streams.get (liveStreamKeyId key) with
      | some s => rfl
      | none =>
        by_cases h : at_ = 0
        · simp only [h, if_true]
          rfl
        · simp [h]
    cases hs : (run.streams.get (liveStreamKeyId key)).or
        (if at_ = 0 then some ⟨key, 0, afterSequence, []⟩ else none) with
    | none =>
      rw [hs, Option.map_none] at hopen
      exact ⟨.refl _ _, hskip (by rw [Feed.readOn, hopen]), by simp [Feed.gapped, hopen]⟩
    | some s =>
      rw [hs, Option.map_some] at hopen
      dsimp only
      split
      · rename_i hend
        have hend' : at_ + text.length ≤ s.view.length := hend
        refine ⟨.refl _ _, hskip ?_, ?_⟩
        · rw [Feed.readOn, hopen]
          exact if_pos (.inl hend')
        · have : ¬ s.view.length < at_ + text.length := by omega
          simp [Feed.gapped, hopen, this]
      · rename_i hend
        split
        · rename_i hgap
          have hgap' : s.view.length < at_ := hgap
          refine ⟨.refl _ _, hskip ?_, ?_⟩
          · rw [Feed.readOn, hopen]
            exact if_pos (.inr hgap')
          · have : s.view.length < at_ + text.length := by omega
            simp [Feed.gapped, hopen, this, hgap']
        · rename_i hgap
          have hread : ¬ (at_ + text.length ≤ s.view.length ∨ s.view.length < at_) := by
            simp only [LedgerStream.view]
            omega
          have hgap' : ¬ s.view.length < at_ := hgap
          refine ⟨.set _ _ ?_, hdraw _ ?_, ?_⟩
          · cases hget : run.streams.get (liveStreamKeyId key) with
            | some before =>
              rw [hget, Option.some_or] at hs
              exact .inr ⟨before, rfl, by rw [Option.some.inj hs]⟩
            | none =>
              rw [hget, Option.none_or] at hs
              split at hs
              · exact .inl (by rw [← Option.some.inj hs])
              · cases hs
          · rw [Feed.readOn, hopen]
            simp only [if_neg hread]
            rw [Feed.View.append, if_neg hread]
            rfl
          · simp [Feed.gapped, hopen, hgap', Drawn.change]

theorem drawItems_spec (afterSequence : Nat) (run : LedgerRun) (d : Drawn) (items : List LiveItem)
    (htombs : ∀ id tombstone, run.tombstones.get id = some tombstone → tombstone ≤ afterSequence) :
    DrawnFrom afterSequence run (drawItems afterSequence run d items).1 ∧
    (∀ id, (drawItems afterSequence run d items).1.view id =
      (opsOf id items).foldl (Feed.readOn tails) (run.view id)) ∧
    (d.gap = false → (∀ id, Feed.NoGaps tails (run.view id) (opsOf id items)) →
      (drawItems afterSequence run d items).2.gap = false) := by
  induction items generalizing run d with
  | nil => exact ⟨.refl _ _, fun _ => rfl, fun h _ => h⟩
  | cons item items ih =>
    obtain ⟨hdrawn, hview, hgap⟩ := drawItem_spec afterSequence run d item htombs
    have htombs' : ∀ id tombstone, (drawItem afterSequence run d item).1.tombstones.get id =
        some tombstone → tombstone ≤ afterSequence := by
      obtain ⟨⟨_, hsame⟩, -⟩ := hdrawn
      rw [hsame]
      exact htombs
    obtain ⟨hdrawn', hview', hgap'⟩ :=
      ih (drawItem afterSequence run d item).1 (drawItem afterSequence run d item).2 htombs'
    refine ⟨hdrawn.trans hdrawn', fun id => ?_, fun hd hno => hgap' ?_ fun id => ?_⟩
    · rw [drawItems, hview', hview, opsOf_cons]
      split
      · rfl
      · rfl
    · have hself := hno (liveStreamKeyId item.key)
      rw [opsOf_cons, if_pos rfl] at hself
      rw [hgap, hd, hself.1]
      rfl
    · have hops := hno id
      rw [opsOf_cons] at hops
      rw [hview]
      split
      · rename_i hid
        rw [if_pos hid] at hops
        exact hops.2
      · rename_i hid
        rw [if_neg hid] at hops
        exact hops

/-! ## What the registry forwards -/

/-- Items with something to read, that take no stream back, and for which there is
room. -/
def Admits (o : RegistryOptions) : LiveRunState → List LiveItem → Prop
  | _, [] => True
  | state, item :: items =>
    Fits o state item ∧ Feed.Admissible (state.view (liveStreamKeyId item.key)) (toOp item) ∧
      Admits o (applyItem o state item).1 items

/-- Reading on what is forwarded keeps up with the registry, without a gap. -/
theorem forwarded_spec (o : RegistryOptions) (state : LiveRunState) (items : List LiveItem)
    (h : Admits o state items) (id : String) :
    (opsOf id (applyItems o state items).2).foldl (Feed.readOn tails) (state.view id) =
      (applyItems o state items).1.view id ∧
    Feed.NoGaps tails (state.view id) (opsOf id (applyItems o state items).2) := by
  induction items generalizing state with
  | nil => exact ⟨rfl, trivial⟩
  | cons item items ih =>
    obtain ⟨hfits, hadmissible, hrest⟩ := h
    obtain ⟨hread, hnogap⟩ := ih (applyItem o state item).1 hrest
    obtain ⟨hforwards, hkey⟩ := applyItem_forwards o state item hfits
    obtain ⟨hpass, hgap⟩ := Feed.readOn_pass (S := tails) hadmissible
    have hview := view_applyItem o state item hfits id
    change (opsOf id ((applyItem o state item).2.toList ++
        (applyItems o (applyItem o state item).1 items).2)).foldl (Feed.readOn tails) _ =
        (applyItems o (applyItem o state item).1 items).1.view id ∧ Feed.NoGaps tails _ (opsOf id
        ((applyItem o state item).2.toList ++ (applyItems o (applyItem o state item).1 items).2))
    rw [← hforwards] at hpass hgap
    rw [opsOf_append]
    cases hf : (applyItem o state item).2 with
    | none =>
      rw [hf, Option.map_none, Option.elim_none] at hpass
      have hsame : (applyItem o state item).1.view id = state.view id := by
        rw [hview]
        split
        · rename_i hid
          rw [← hid]
          exact hpass.symm
        · rfl
      rw [hsame] at hread hnogap
      exact ⟨hread, hnogap⟩
    | some forwarded =>
      rw [hf, Option.map_some, Option.elim_some] at hpass hgap
      rw [Option.toList_some, opsOf_cons, opsOf_nil, hkey forwarded (by rw [hf]; rfl)]
      by_cases hid : liveStreamKeyId item.key = id
      · rw [if_pos hid] at hview
        subst hid
        rw [if_pos rfl, List.singleton_append, List.foldl_cons, hpass, ← hview]
        refine ⟨hread, by simpa using hgap, ?_⟩
        rw [hpass, ← hview]
        exact hnogap
      · rw [if_neg hid] at hview
        rw [hview] at hread hnogap
        rw [if_neg hid, List.nil_append]
        exact ⟨hread, hnogap⟩

/-! ## Frames -/

/-- The Run a frame is of, or a new one. -/
def openRun (l : LiveStreamLedger) (progress : LiveRunProgress) : LedgerRun :=
  (l.runs.get progress.runId).getD
    ⟨progress.runId, .empty, progress.threadId, .empty, progress.workspaceId⟩

theorem view_openRun (l : LiveStreamLedger) (progress : LiveRunProgress) (id : String) :
    (openRun l progress).view id = l.view progress.runId id := by
  unfold openRun LiveStreamLedger.view
  cases l.runs.get progress.runId <;> rfl

/-- A frame of a Run the ledger does not ignore is drawn. -/
theorem apply_spec (l : LiveStreamLedger) (frame : LiveFrame)
    (hended : frame.progress.runId ∉ l.endedRuns)
    (hthread : (openRun l frame.progress).threadId = frame.progress.threadId)
    (hworkspace : (openRun l frame.progress).workspaceId = frame.progress.workspaceId)
    (htombs : ∀ id tombstone, (openRun l frame.progress).tombstones.get id = some tombstone →
      tombstone ≤ frame.afterSequence) :
    (l.apply frame).1.endedRuns = l.endedRuns ∧
    (∃ run, DrawnFrom frame.afterSequence (openRun l frame.progress) run ∧
      (∀ R, (l.apply frame).1.runs.get R =
        if frame.progress.runId = R then some run else l.runs.get R) ∧
      ∀ id, run.view id = (opsOf id frame.progress.items).foldl (Feed.readOn tails)
        (l.view frame.progress.runId id)) ∧
    ((∀ id, Feed.NoGaps tails (l.view frame.progress.runId id) (opsOf id frame.progress.items)) →
      (l.apply frame).2.2 = false) := by
  obtain ⟨hdrawn, hview, hgap⟩ := drawItems_spec frame.afterSequence (openRun l frame.progress)
    ⟨[], false⟩ frame.progress.items htombs
  simp only [view_openRun] at hview hgap
  have happly : (l.apply frame).1.endedRuns = l.endedRuns ∧ (∀ R, (l.apply frame).1.runs.get R =
      if frame.progress.runId = R then
        some (drawItems frame.afterSequence (openRun l frame.progress) ⟨[], false⟩
          frame.progress.items).1
      else l.runs.get R) ∧ (l.apply frame).2.2 =
        (drawItems frame.afterSequence (openRun l frame.progress) ⟨[], false⟩
          frame.progress.items).2.gap := by
    unfold LiveStreamLedger.apply ledgerRun
    dsimp only
    rw [if_neg hended]
    unfold openRun at hthread hworkspace ⊢
    cases hs : l.runs.get frame.progress.runId with
    | some existing =>
      rw [hs, Option.getD_some] at hthread hworkspace
      simp only [hthread, hworkspace, and_self, if_true, Option.getD_some]
      exact ⟨trivial, fun R => OrderedMap.get_set l.runs, trivial⟩
    | none =>
      simp only [Option.getD_none]
      refine ⟨trivial, fun R => ?_, trivial⟩
      rw [OrderedMap.get_set, OrderedMap.get_set]
      split <;> rfl
  refine ⟨happly.1, ⟨_, hdrawn, happly.2.1, hview⟩, fun hno => ?_⟩
  rw [happly.2.2]
  exact hgap trivial hno

/-! ## Durable events -/

/-- The Runs once an event has let go of the one it restarts. -/
def restarted (r : LiveRunRegistry) (R : RunId) (event : AgentEvent) :
    OrderedMap RunId LiveRunState :=
  if event.data = .runRestarted then r.runs.delete R else r.runs

theorem get_restarted {r : LiveRunRegistry} {event : AgentEvent} {state : LiveRunState}
    (h : (restarted r R event).get R = some state) :
    r.runs.get R = some state ∧ event.data ≠ .runRestarted := by
  unfold restarted at h
  split at h
  · rw [OrderedMap.get_delete, if_pos rfl] at h
    cases h
  · exact ⟨h, ‹_›⟩

/-- A Run the event lets the registry learn has room. -/
def HasRoom (o : RegistryOptions) (r : LiveRunRegistry) (event : AgentEvent) : Prop :=
  ∀ R ∈ event.runId, isTerminal event.data = false → (restarted r R event).get R = none →
    (restarted r R event).size < o.maxRuns

/-- No event of a transaction makes the registry forget a Run for want of room. -/
def WithinRuns (o : RegistryOptions) (now sequence : Nat) : LiveRunRegistry → List AgentEvent → Prop
  | _, [] => True
  | r, event :: events =>
    HasRoom o r event ∧ WithinRuns o now sequence (observeEvent o now sequence r event) events

/-- Whether the event completes the stream. -/
def completes (event : AgentEvent) (id : String) : Bool :=
  (completedStreamKey event.data).any fun key => liveStreamKeyId key = id

/-- What observing an event of a Run that is not its end makes of its state. -/
structure Observed (sequence : Nat) (R : RunId) (event : AgentEvent)
    (before : Option LiveRunState) (state : LiveRunState) : Prop where
  runId : state.runId = R
  threadId : state.threadId = event.threadId
  workspaceId : state.workspaceId = event.workspaceId
  after : sequence ≤ state.afterSequence
  mono : ∀ b ∈ before, b.afterSequence ≤ state.afterSequence
  afterOr : state.afterSequence = sequence ∨ ∃ b ∈ before, state.afterSequence = b.afterSequence
  streams : ∀ id, state.streams.get id =
    if completes event id then none else before.bind fun b => b.streams.get id

theorem get_completeStream (state : LiveRunState) (event : AgentEvent) (id : String) :
    (completeStream state event).streams.get id =
      if completes event id then none else state.streams.get id := by
  unfold completeStream completes
  cases completedStreamKey event.data with
  | none => rfl
  | some key =>
    simp only [OrderedMap.get_delete, Option.any_some, decide_eq_true_eq]

theorem completeStream_fields (state : LiveRunState) (event : AgentEvent) :
    ∃ streams, completeStream state event = { state with streams } := by
  unfold completeStream
  split
  · exact ⟨_, rfl⟩
  · exact ⟨state.streams, rfl⟩

/-- The registry observes an event of a Run at home. -/
theorem observeEvent_spec (o : RegistryOptions) (now sequence : Nat) (r : LiveRunRegistry)
    (event : AgentEvent) {R : RunId} (hrun : event.runId = some R) (hroom : HasRoom o r event)
    (hids : ∀ state, r.runs.get R = some state → state.runId = R)
    (hhome : ∀ state, r.runs.get R = some state →
      state.threadId = event.threadId ∧ state.workspaceId = event.workspaceId) :
    ∃ after, (∀ R', (observeEvent o now sequence r event).runs.get R' =
        if R = R' then after else r.runs.get R') ∧
      (isTerminal event.data = true → after = none) ∧
      (isTerminal event.data = false → ∃ state, after = some state ∧
        Observed sequence R event ((restarted r R event).get R) state) := by
  have hother : ∀ R', R ≠ R' → (restarted r R event).get R' = r.runs.get R' := by
    intro R' hne
    unfold restarted
    split
    · rw [OrderedMap.get_delete, if_neg hne]
    · rfl
  have hbefore : ∀ state, (restarted r R event).get R = some state → r.runs.get R = some state :=
    fun state hs => (get_restarted hs).1
  have hterminates : isTerminal event.data = true → observeEvent o now sequence r event = ⟨r.runs.delete R⟩ := by
    intro hterminal
    unfold observeEvent
    simp only [hrun, hterminal, if_true]
  have hgoes : isTerminal event.data = false → ∀ r₁ state,
      ensureRun o now ⟨restarted r R event⟩ R event.threadId event.workspaceId = (r₁, some state) →
      observeEvent o now sequence r event = ⟨r₁.runs.set R (completeStream
        { state with afterSequence := max state.afterSequence sequence } event)⟩ := by
    intro hlive r₁ state hensured
    have hrestarted : (if event.data = .runRestarted then ⟨r.runs.delete R⟩ else r : LiveRunRegistry) =
        ⟨restarted r R event⟩ := (apply_ite LiveRunRegistry.mk _ _ _).symm
    unfold observeEvent
    simp only [hrun, hlive, Bool.false_eq_true, if_false, hrestarted, hensured]
  by_cases hterminal : isTerminal event.data = true
  · rw [hterminates hterminal]
    exact ⟨none, fun R' => OrderedMap.get_delete r.runs, fun _ => rfl,
      fun h => absurd (hterminal.symm.trans h) (by simp)⟩
  · have hlive : isTerminal event.data = false := by simpa using hterminal
    -- The state the event is observed in, and the Runs it is set in.
    have hset : ∀ (runs : OrderedMap RunId LiveRunState) (state : LiveRunState),
        (∀ R', R ≠ R' → runs.get R' = r.runs.get R') →
        Observed sequence R event ((restarted r R event).get R) (completeStream state event) →
        ∃ after, (∀ R', (runs.set R (completeStream state event)).get R' =
          if R = R' then after else r.runs.get R') ∧
          (isTerminal event.data = true → after = none) ∧
          (isTerminal event.data = false → ∃ state, after = some state ∧
            Observed sequence R event ((restarted r R event).get R) state) := by
      intro runs state hruns hobserved
      refine ⟨some (completeStream state event), fun R' => ?_, fun h => absurd h hterminal,
        fun _ => ⟨_, rfl, hobserved⟩⟩
      rw [OrderedMap.get_set]
      split
      · rfl
      · exact hruns R' ‹_›
    cases hs : (restarted r R event).get R with
    | some existing =>
      obtain ⟨hthread, hworkspace⟩ := hhome existing (hbefore existing hs)
      rw [hs] at hset
      have hensured : ensureRun o now ⟨restarted r R event⟩ R event.threadId event.workspaceId =
          (⟨(restarted r R event).set R { existing with touchedAt := now }⟩,
            some { existing with
              touchedAt := now, threadId := event.threadId, workspaceId := event.workspaceId }) := by
        simp only [ensureRun, hs, hthread, hworkspace, and_self, if_true]
      rw [hgoes hlive _ _ hensured]
      refine hset _ _ (fun R' hne => ?_) ?_
      · rw [OrderedMap.get_set, if_neg hne, hother R' hne]
      · obtain ⟨streams, hfields⟩ := completeStream_fields { existing with
          threadId := event.threadId, workspaceId := event.workspaceId
          touchedAt := now, afterSequence := max existing.afterSequence sequence } event
        refine ⟨?_, ?_, ?_, ?_, ?_, ?_, fun id => get_completeStream _ event id⟩
        all_goals rw [hfields]
        · exact hids existing (hbefore existing hs)
        · exact Nat.le_max_right _ _
        · rintro b ⟨⟩
          exact Nat.le_max_left _ _
        · rcases Nat.le_total existing.afterSequence sequence with h | h
          · exact .inl (Nat.max_eq_right h)
          · exact .inr ⟨existing, rfl, Nat.max_eq_left h⟩
    | none =>
      have hsize := hroom R hrun hlive hs
      rw [hs] at hset
      have hensured : ensureRun o now ⟨restarted r R event⟩ R event.threadId event.workspaceId =
          (⟨(restarted r R event).set R ⟨0, R, .empty, event.threadId, now, event.workspaceId⟩⟩,
            some ⟨0, R, .empty, event.threadId, now, event.workspaceId⟩) := by
        simp only [ensureRun, hs, if_neg (Nat.not_le_of_lt hsize)]
      rw [hgoes hlive _ _ hensured]
      refine hset _ _ (fun R' hne => ?_) ?_
      · rw [OrderedMap.get_set, if_neg hne, hother R' hne]
      · obtain ⟨streams, hfields⟩ := completeStream_fields
          ⟨max 0 sequence, R, .empty, event.threadId, now, event.workspaceId⟩ event
        refine ⟨?_, ?_, ?_, ?_, by simp, ?_, fun id => get_completeStream _ event id⟩
        all_goals rw [hfields]
        · exact Nat.le_max_right _ _
        · exact .inl (Nat.zero_max _)

theorem mem_rememberEnded {endedRuns : List RunId} {R R' : RunId}
    (h : R' ∈ rememberEnded endedRuns R) : R' ∈ endedRuns ∨ R' = R := by
  have hmem : ∀ runs : List RunId, R' ∈ (if endedRunMemory < runs.length then runs.drop 1 else runs) →
      R' ∈ runs := by
    intro runs h
    split at h
    · exact List.mem_of_mem_drop h
    · exact h
  have := hmem _ h
  split at this
  · exact .inl this
  · simpa using this

/-- The ledger after an event of its Workspace. -/
theorem completeEvent_spec (l : LiveStreamLedger) (event : AgentEvent) (hrun : event.runId = some R)
    (hended : isTerminal event.data = false → R ∉ l.endedRuns)
    (hhome : ∀ run, l.runs.get R = some run →
      run.threadId = event.threadId ∧ run.workspaceId = event.workspaceId) :
    (∀ R' ∈ (l.complete event).endedRuns, R' ∈ l.endedRuns ∨ R' = R ∧ isTerminal event.data = true) ∧
    ∃ drawn, (∀ R', (l.complete event).runs.get R' = if R = R' then drawn else l.runs.get R') ∧
      ((isTerminal event.data = true ∨ event.data = .runRestarted) ∧ drawn = none ∨
        isTerminal event.data = false ∧ event.data ≠ .runRestarted ∧
          (completedStreamKey event.data = none ∧ drawn = l.runs.get R ∨
            ∃ key, completedStreamKey event.data = some key ∧
              drawn = some (completeLedgerStream ((l.runs.get R).getD
                ⟨R, .empty, event.threadId, .empty, event.workspaceId⟩) (liveStreamKeyId key)
                event.sequence))) := by
  have hsame : ∀ R', l.runs.get R' = if R = R' then l.runs.get R else l.runs.get R' := by
    intro R'
    split
    · rename_i h
      rw [h]
    · rfl
  unfold LiveStreamLedger.complete
  rw [hrun]
  dsimp only
  split
  · rename_i hterminal
    refine ⟨fun R' h => ?_, none, fun R' => OrderedMap.get_delete l.runs, .inl ⟨.inl hterminal, rfl⟩⟩
    rcases mem_rememberEnded h with h | h
    · exact .inl h
    · exact .inr ⟨h, hterminal⟩
  · rename_i hterminal
    have hterminal : isTerminal event.data = false := by simpa using hterminal
    split
    · rename_i hrestart
      exact ⟨fun R' h => .inl h, none, fun R' => OrderedMap.get_delete l.runs,
        .inl ⟨.inr hrestart, rfl⟩⟩
    · rename_i hrestart
      cases hkey : completedStreamKey event.data with
      | none =>
        exact ⟨fun R' h => .inl h, l.runs.get R, hsame, .inr ⟨hterminal, hrestart, .inl ⟨rfl, rfl⟩⟩⟩
      | some key =>
        dsimp only
        rw [if_neg (hended hterminal)]
        unfold ledgerRun
        cases hs : l.runs.get R with
        | some run =>
          obtain ⟨hthread, hworkspace⟩ := hhome run hs
          simp only [hthread, hworkspace, and_self, if_true]
          exact ⟨fun R' h => .inl h, _, fun R' => OrderedMap.get_set l.runs,
            .inr ⟨hterminal, hrestart, .inr ⟨key, rfl, rfl⟩⟩⟩
        | none =>
          refine ⟨fun R' h => .inl h, _, fun R' => ?_,
            .inr ⟨hterminal, hrestart, .inr ⟨key, rfl, rfl⟩⟩⟩
          rw [OrderedMap.get_set, OrderedMap.get_set]
          split <;> rfl

end Opensteer.LiveProgress
