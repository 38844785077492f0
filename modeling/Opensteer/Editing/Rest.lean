import Opensteer.Editing.Writes

/-!
# Between two events

A reset is pending only while a composition that was interrupted is open, and the echo of a key is awaited
only outside of one, of the proxy as it is (`Rested`). Every event keeps both (`Rested.reduceEditing`).
-/

namespace Opensteer.Editing

variable {countGraphemes : Text → Nat} {r : EditingReduction} {s s' : EditingState} {proxy : EditingProxyState}

/-- No composition is open, and no reset is pending. -/
structure Idle (s : EditingState) : Prop where
  composition : s.composition = none
  settled : s.resetPending = false
  echo : ∀ e ∈ s.pendingEcho, s.proxy.selectionStart ≤ e.selectionEnd

/-- What holds between two events. -/
structure Rested (s : EditingState) : Prop where
  detached : s.resetPending = true → ∃ c, s.composition = some c ∧ c.detached = true
  closed : s.pendingEcho.isSome → s.composition = none ∧ s.compositionTail = none
  echo : ∀ e ∈ s.pendingEcho, s.proxy.selectionStart ≤ e.selectionEnd

theorem Rested.idle (h : Rested s) (hcomposition : s.composition = none) : Idle s := by
  refine ⟨hcomposition, Bool.eq_false_iff.mpr fun hpending => ?_, h.echo⟩
  obtain ⟨c, hc, -⟩ := h.detached hpending
  cases hcomposition.symm.trans hc

theorem Idle.rested (h : Idle s) (htail : s.pendingEcho.isSome → s.compositionTail = none) : Rested s where
  detached hpending := (nomatch h.settled.symm.trans hpending)
  closed hecho := ⟨h.composition, htail hecho⟩
  echo := h.echo

/-- With no echo awaited. -/
theorem Idle.rested_of_none (h : Idle s) (hnone : s.pendingEcho = none) : Rested s :=
  h.rested fun hecho => (nomatch hnone ▸ hecho)

theorem Rested.of_none (hnone : s.pendingEcho = none)
    (hdetached : s.resetPending = true → ∃ c, s.composition = some c ∧ c.detached = true) : Rested s where
  detached := hdetached
  closed hecho := (nomatch hnone ▸ hecho)
  echo _ he := (nomatch hnone ▸ he)

/-- What neither speaks of is written. -/
theorem Rested.set (h : Rested s) (hreset : s'.resetPending = s.resetPending) (hcomposition : s'.composition = s.composition)
    (hecho : s'.pendingEcho = s.pendingEcho) (htail : s.compositionTail = none → s'.compositionTail = none)
    (hproxy : s'.proxy = s.proxy) : Rested s' where
  detached := by rw [hreset, hcomposition]; exact h.detached
  closed hsome := by
    rw [hecho] at hsome
    exact ⟨hcomposition.trans (h.closed hsome).1, htail (h.closed hsome).2⟩
  echo := by rw [hecho, hproxy]; exact h.echo

theorem Idle.set (h : Idle s) (hreset : s'.resetPending = s.resetPending) (hcomposition : s'.composition = s.composition)
    (hecho : s'.pendingEcho = s.pendingEcho) (hproxy : s'.proxy = s.proxy) : Idle s' :=
  ⟨hcomposition.trans h.composition, hreset.trans h.settled, by rw [hecho, hproxy]; exact h.echo⟩

/-! ## Resets -/

theorem reset_pendingEcho (r : EditingReduction) : r.reset.state.pendingEcho = none := by
  unfold EditingReduction.reset
  dsimp only
  split <;> rfl

theorem idle_reset (h : r.state.composition = none) : Idle r.reset.state := by
  unfold EditingReduction.reset
  dsimp only
  rw [if_neg (by rw [h]; exact Bool.false_ne_true)]
  exact ⟨h, rfl, fun _ h => (nomatch h)⟩

theorem rested_reset (h : r.state.composition = none) : Rested r.reset.state :=
  (idle_reset h).rested_of_none (reset_pendingEcho r)

theorem rested_reset_detached {c : Composition} (h : r.state.composition = some c) (hdetached : c.detached = true) :
    Rested r.reset.state := by
  refine .of_none (reset_pendingEcho r) fun _ => ⟨c, ?_, hdetached⟩
  unfold EditingReduction.reset
  dsimp only
  split <;> exact h

theorem rested_interrupt (r : EditingReduction) : Rested r.interrupt.state := by
  unfold EditingReduction.interrupt
  split
  · exact rested_reset ‹_›
  · rename_i c hc
    split
    · exact rested_reset_detached hc ‹_›
    · exact rested_reset_detached rfl rfl

/-- After a reset that is made where one is pending. -/
theorem rested_mirrored (hcomposition : r.state.composition = none) (hecho : r.state.pendingEcho = none)
    (proxy : EditingProxyState) (caret : Nat) : Rested (r.mirrored proxy caret).state := by
  unfold EditingReduction.mirrored
  dsimp only
  split
  · exact rested_reset hcomposition
  · rename_i hsettled
    rw [Bool.not_eq_true, Bool.or_eq_false_iff] at hsettled
    exact Rested.of_none hecho fun hpending => (nomatch hsettled.2.symm.trans hpending)

theorem rested_ended (r : EditingReduction) (transaction : Composition) (proxy : EditingProxyState) (caret : Nat) :
    Rested (r.ended transaction proxy caret).state := by
  unfold EditingReduction.ended
  dsimp only
  split
  · exact rested_reset rfl
  · rename_i hsettled
    rw [Bool.not_eq_true, Bool.or_eq_false_iff, Bool.or_eq_false_iff] at hsettled
    exact Rested.of_none rfl fun hpending => (nomatch hsettled.1.2.symm.trans hpending)

/-! ## Compositions -/

/-- What a composition starts with is a selection, also where it takes over a key that is not echoed yet. -/
theorem Rested.selection_le (h : Rested s) (hselection : proxy.selectionStart ≤ proxy.selectionEnd) :
    (if (s.pendingEcho.filter fun _ => proxy.value = s.proxy.value).isSome then s.proxy.selectionStart
      else proxy.selectionStart) ≤
    match s.pendingEcho.filter fun _ => proxy.value = s.proxy.value with
    | some echo => echo.selectionEnd
    | none => proxy.selectionEnd := by
  cases hecho : s.pendingEcho with
  | none => exact hselection
  | some echo =>
    by_cases htaken : proxy.value = s.proxy.value
    · simpa [htaken, Option.filter] using h.echo echo hecho
    · simpa [htaken, Option.filter] using hselection

theorem rested_compositionstart (h : Rested r.state) (proxy : EditingProxyState) :
    Rested (r.compositionstart proxy).state := by
  unfold EditingReduction.compositionstart
  split
  · exact h
  · rename_i hopen
    refine Rested.of_none rfl fun hpending => ?_
    obtain ⟨c, hc, hdetached⟩ := h.detached hpending
    rw [hc] at hopen
    exact (hopen hdetached).elim

theorem publish_rested {transaction : Composition} (hsettled : r.state.resetPending = false) :
    (r.publishComposition transaction proxy).1.state.pendingEcho = r.state.pendingEcho ∧
      ((r.publishComposition transaction proxy).1.state.resetPending = true →
        (r.publishComposition transaction proxy).2.detached = true) := by
  have hunsettled : r.state.resetPending = true → transaction.detached = true := fun h => (nomatch hsettled.symm.trans h)
  unfold EditingReduction.publishComposition
  split
  · exact ⟨rfl, hunsettled⟩
  · split
    · exact ⟨rfl, hunsettled⟩
    · split
      · exact ⟨rfl, fun _ => rfl⟩
      · dsimp only
        split
        · exact ⟨by rw [EditingReduction.emit_state], by rw [EditingReduction.emit_state]; exact hunsettled⟩
        · refine ⟨?_, fun _ => rfl⟩
          show ((r.emit _).cancel transaction).state.pendingEcho = _
          rw [EditingReduction.cancel_state, EditingReduction.emit_state]

/-- A transaction that may echo its proxy. -/
theorem echoing_detached (c : Composition) (proxy : EditingProxyState) :
    (if c.sent then { c with echo := some proxy } else c).detached = c.detached := by
  split <;> rfl

/-- An open composition that was not interrupted. -/
theorem Rested.settled_of_open (h : Rested s) {c : Composition} (hopen : s.composition = some c)
    (hdetached : ¬c.detached = true) : s.resetPending = false ∧ s.pendingEcho = none := by
  constructor
  · refine Bool.eq_false_iff.mpr fun hpending => ?_
    obtain ⟨d, hd, hd'⟩ := h.detached hpending
    obtain rfl := Option.some.inj (hopen.symm.trans hd)
    exact hdetached hd'
  · by_contra hsome
    cases hopen.symm.trans (h.closed (Option.ne_none_iff_isSome.mp hsome)).1

theorem rested_compositionupdate (h : Rested r.state) (data : Text) (proxy : EditingProxyState) :
    Rested (r.compositionupdate data proxy).state := by
  unfold EditingReduction.compositionupdate
  split
  · exact h
  · rename_i c hopen
    split
    · exact h
    · rename_i hdetached
      obtain ⟨hsettled, hnone⟩ := h.settled_of_open hopen hdetached
      split
      · unfold EditingReduction.markedUpdate
        split
        · refine Rested.of_none ?_ fun _ => ⟨_, rfl, rfl⟩
          show ((r.refuse .rangeEdits).cancel c).state.pendingEcho = none
          rw [EditingReduction.cancel_state]
          exact hnone
        · rename_i range _
          have hpublished := (@publish_rested (r.setState { r.state with proxy }) proxy
            (compositionText c range.start range.stop range.text)) hsettled
          exact Rested.of_none (hpublished.1.trans hnone) fun hpending =>
            ⟨_, rfl, (echoing_detached _ proxy).trans (hpublished.2 hpending)⟩
      · exact Rested.of_none hnone fun hpending => (nomatch hsettled.symm.trans hpending)

theorem rested_composingInput (h : Rested r.state) {previous : Composition} (hopen : r.state.composition = some previous)
    (proxy : EditingProxyState) : Rested (r.composingInput previous proxy).state := by
  unfold EditingReduction.composingInput
  split
  · exact h
  · rename_i hdetached
    obtain ⟨hsettled, hnone⟩ := h.settled_of_open hopen hdetached
    dsimp only
    split
    · exact Rested.of_none hnone fun hpending => (nomatch hsettled.symm.trans hpending)
    · have hpublished := (@publish_rested (r.setState { r.state with proxy }) proxy
        { composingValue previous proxy none with echo := none }) hsettled
      exact Rested.of_none (hpublished.1.trans hnone) fun hpending => ⟨_, rfl, hpublished.2 hpending⟩

theorem rested_compositionend (h : Rested r.state) (data : Text) (proxy : EditingProxyState) :
    Rested (r.compositionend countGraphemes data proxy).state := by
  unfold EditingReduction.compositionend
  split
  · exact h
  · split
    · exact rested_ended ..
    · split
      · exact rested_ended ..
      · exact rested_ended ..

/-! ## Keys -/

theorem Idle.printableKey (h : Idle r.state) (key : EditingKeyState) : Idle (r.printableKey key).state := by
  refine ⟨h.composition, h.settled, ?_⟩
  rintro e ⟨rfl⟩
  exact Nat.le_add_right _ _

theorem Idle.nativeKeyInput (h : Idle r.state) (inputType : Text) (data : Option Text) :
    Idle (r.nativeKeyInput inputType data).state := by
  have hcleared : Idle (r.setState { r.state with nativeKey := none }).state := h.set rfl rfl rfl rfl
  unfold EditingReduction.nativeKeyInput
  dsimp only
  split
  · split
    · exact hcleared.printableKey _
    · exact hcleared
  · exact hcleared

/-- An input that is no key's. -/
theorem Rested.nativeKeyInput (h : Rested r.state) {inputType : Text} (hother : inputType ≠ units "insertText")
    (data : Option Text) : Rested (r.nativeKeyInput inputType data).state := by
  have hcleared : Rested (r.setState { r.state with nativeKey := none }).state := h.set rfl rfl rfl (fun h => h) rfl
  unfold EditingReduction.nativeKeyInput
  dsimp only
  split
  · rw [if_neg fun hinsert => hother hinsert.1]
    exact hcleared
  · exact hcleared

theorem rested_softReturn (h : r.state.composition = none) (before : Bool) : Rested (r.softReturn before).state := by
  have hreset : ∀ t : EditingReduction, t.state.composition = none →
      Rested { t.reset.state with suppressedInput := some (units "return") } :=
    fun t ht => (rested_reset ht).set rfl rfl rfl (fun h => h) rfl
  unfold EditingReduction.softReturn
  dsimp only
  refine hreset _ ?_
  split
  · exact h
  · exact h

theorem rested_namedKey (h : r.state.composition = none) (key : EditingKeyState) : Rested (r.namedKey key).state :=
  (rested_reset (r := r.prevent) h).set rfl rfl rfl (fun h => h) rfl

theorem rested_keyup (h : Rested r.state) (key : EditingKeyState) : Rested (r.keyup key).state := by
  have hchosen : Rested (r.chooseNative key).state := by
    unfold EditingReduction.chooseNative
    split
    · split
      · exact h.set rfl rfl rfl (fun h => h) rfl
      · exact h
    · exact h
  unfold EditingReduction.keyup EditingReduction.releaseKey
  split
  · exact hchosen.set rfl rfl rfl (fun h => h) rfl
  · exact hchosen

/-- A key that is not the platform's comes where no composition is open. -/
theorem composition_of_not_keeps {key : EditingKeyState} (h : ¬EditingReduction.keeps s key = true) : s.composition = none := by
  unfold EditingReduction.keeps at h
  simp only [Bool.or_eq_true, not_or, Bool.not_eq_true, Option.isSome_eq_false_iff, Option.isNone_iff_eq_none] at h
  exact h.1.1.2

theorem idle_dropStale (h : r.state.composition = none)
    (hecho : ∀ e ∈ r.state.pendingEcho, r.state.proxy.selectionStart ≤ e.selectionEnd) : Idle r.dropStale.state := by
  unfold EditingReduction.dropStale
  split
  · exact idle_reset h
  · rename_i hstale
    unfold EditingReduction.stale at hstale
    rw [Bool.not_eq_true, Bool.or_eq_false_iff, Bool.or_eq_false_iff] at hstale
    exact ⟨h, hstale.1.1, hecho⟩

theorem dropStale_compositionTail (r : EditingReduction) : r.dropStale.state.compositionTail = r.state.compositionTail := by
  unfold EditingReduction.dropStale EditingReduction.reset
  dsimp only
  split
  · split <;> rfl
  · rfl

theorem rested_chord (h : Idle r.state) (htail : r.state.compositionTail = none) (key : EditingKeyState) (text : Bool) :
    Rested (r.chord key text).state := by
  unfold EditingReduction.chord
  split
  · rw [EditingReduction.emit_state]
    exact rested_reset h.composition
  · exact h.rested fun _ => htail
  · split
    · split
      · exact (h.rested fun _ => htail).set rfl rfl rfl (fun h => h) rfl
      · exact (h.printableKey key).rested fun _ => htail
    · exact rested_namedKey h.composition key

theorem rested_keydown (h : Rested r.state) (key : EditingKeyState) : Rested (r.keydown countGraphemes key).state := by
  unfold EditingReduction.keydown
  split
  · exact h
  · rename_i hkeeps
    have hnone := composition_of_not_keeps hkeeps
    dsimp only
    generalize ht : (r.setState _).dropStale = t
    have hidle : Idle t.state := ht ▸ idle_dropStale hnone h.echo
    have htail : t.state.compositionTail = none := ht ▸ dropStale_compositionTail _
    have hrested : Rested t.state := hidle.rested fun _ => htail
    split
    · exact hrested
    · split
      · unfold EditingReduction.awaitNative
        split
        · exact hrested.set rfl rfl rfl (fun h => h) rfl
        · split
          · exact hrested.set rfl rfl rfl (fun h => h) rfl
          · exact hrested
      · exact rested_chord hidle htail key _

/-! ## Native input -/

theorem rested_deletes (h : Rested r.state) (hnone : r.state.composition = none) (inputType : Text) :
    Rested (r.deletes inputType).state := by
  unfold EditingReduction.deletes
  split
  · exact h
  · split
    · refine rested_reset ?_
      show (r.prevent.emit _).state.composition = none
      rw [EditingReduction.emit_state]
      exact hnone
    · exact h

theorem ne_insertText_of_composition {inputType : Text} (h : EditingReduction.isCompositionInput inputType = true) :
    inputType ≠ units "insertText" := by
  rintro rfl
  revert h
  decide

theorem rested_beforeinput (h : Rested r.state) (inputType : Text) (data : Option Text) :
    Rested (r.beforeinput inputType data).state := by
  unfold EditingReduction.beforeinput
  dsimp only
  generalize ht : r.setState _ = t
  have hrested : Rested t.state := ht ▸ h.set rfl rfl rfl (fun h => h) rfl
  split
  · exact hrested
  · rename_i hopen
    have hidle : Idle (t.nativeKeyInput inputType data).state :=
      (hrested.idle (Option.not_isSome_iff_eq_none.mp hopen)).nativeKeyInput inputType data
    split
    · exact rested_softReturn (r := (t.nativeKeyInput inputType data).prevent) hidle.composition true
    · unfold EditingReduction.keepTail
      split
      · rename_i hcomposition
        exact rested_deletes (hrested.nativeKeyInput (ne_insertText_of_composition hcomposition) data) hidle.composition _
      · have hcleared : Rested { (t.nativeKeyInput inputType data).state with compositionTail := none } :=
          ((@Idle.set _ { (t.nativeKeyInput inputType data).state with compositionTail := none }) hidle rfl rfl rfl rfl).rested
            fun _ => rfl
        exact rested_deletes (r := (t.nativeKeyInput inputType data).setState
          { (t.nativeKeyInput inputType data).state with compositionTail := none }) hcleared hidle.composition _

theorem idle_confirmKey (h : Idle r.state) (inputType : Text) (composing : Bool) (proxy : EditingProxyState) :
    Idle (r.confirmKey inputType composing proxy).state := by
  unfold EditingReduction.confirmKey
  split
  · split
    · exact h.nativeKeyInput _ _
    · exact h.set rfl rfl rfl rfl
  · exact h.set rfl rfl rfl rfl

theorem rested_confirmKey (h : Rested r.state) {inputType : Text} {composing : Bool}
    (hother : r.state.composition = none → composing = false → inputType ≠ units "insertText") (proxy : EditingProxyState) :
    Rested (r.confirmKey inputType composing proxy).state := by
  have hcleared : Rested (r.setState { r.state with nativeKey := none }).state := h.set rfl rfl rfl (fun h => h) rfl
  unfold EditingReduction.confirmKey
  split
  · split
    · rename_i hsettled
      rw [Bool.and_eq_true, Option.isNone_iff_eq_none, Bool.not_eq_true'] at hsettled
      refine h.nativeKeyInput ?_ _
      split
      · exact hother hsettled.1 hsettled.2
      · exact (nomatch ·)
    · exact hcleared
  · exact hcleared

theorem rested_tailInput (hcomposition : r.state.composition = none) (hnone : r.state.pendingEcho = none)
    (hsettled : r.state.resetPending = false) (proxy : EditingProxyState) (discard : Bool) :
    Rested (r.tailInput proxy discard).state := by
  unfold EditingReduction.tailInput
  dsimp only
  generalize ht : (if discard then _ else _ : EditingReduction) = t
  obtain ⟨htcomposition, htecho, htsettled⟩ :
      t.state.composition = none ∧ t.state.pendingEcho = none ∧ t.state.resetPending = false := by
    subst ht
    split
    · exact ⟨hcomposition, hnone, hsettled⟩
    · exact ⟨hcomposition, hnone, hsettled⟩
  split
  · exact rested_reset htcomposition
  · exact Rested.of_none htecho fun hpending => (nomatch htsettled.symm.trans hpending)

theorem missed_state (r : EditingReduction) (caret wanted : Nat) : (r.missed caret wanted).state.composition = r.state.composition ∧
    (r.missed caret wanted).state.pendingEcho = r.state.pendingEcho := by
  unfold EditingReduction.missed
  split <;> exact ⟨rfl, rfl⟩

/-- The edit of an input leaves no composition and no echo, and is reset where it is refused. -/
theorem sendEdit_state (hcomposition : r.state.composition = none) (hnone : r.state.pendingEcho = none)
    (edit : EditingTextEdit) (caret : Nat) (proxy : EditingProxyState) :
    (r.sendEdit countGraphemes edit caret proxy).1.state.composition = none ∧
      (r.sendEdit countGraphemes edit caret proxy).1.state.pendingEcho = none ∧
      ((r.sendEdit countGraphemes edit caret proxy).2 = none →
        Rested (r.sendEdit countGraphemes edit caret proxy).1.state) := by
  have hsent : (r.emit (.edit edit)).state.composition = none ∧ (r.emit (.edit edit)).state.pendingEcho = none := by
    rw [EditingReduction.emit_state]
    exact ⟨hcomposition, hnone⟩
  unfold EditingReduction.sendEdit
  split
  · split
    · exact ⟨(idle_reset hsent.1).composition, reset_pendingEcho _, fun _ => rested_reset hsent.1⟩
    · dsimp only
      split
      · refine ⟨?_, ?_, fun hreset => (nomatch hreset)⟩
        · rw [(missed_state ..).1, EditingReduction.move_state]
          exact hsent.1
        · rw [(missed_state ..).2, EditingReduction.move_state]
          exact hsent.2
      · exact ⟨hsent.1, hsent.2, fun hreset => (nomatch hreset)⟩
  · exact ⟨hcomposition, hnone, fun hreset => (nomatch hreset)⟩

theorem rested_edited (hcomposition : r.state.composition = none) (hnone : r.state.pendingEcho = none)
    (edit : EditingTextEdit) (caret : Nat) (proxy : EditingProxyState) :
    Rested (r.edited countGraphemes edit caret proxy).state := by
  obtain ⟨hsent, hsentEcho, hreset⟩ := (@sendEdit_state countGraphemes) hcomposition hnone edit caret proxy
  unfold EditingReduction.edited
  dsimp only
  cases hcaret : (r.sendEdit countGraphemes edit caret proxy).2 with
  | none => exact hreset hcaret
  | some remoteCaret => exact rested_mirrored hsent hsentEcho _ _

theorem rested_unedited (hcomposition : r.state.composition = none) (hnone : r.state.pendingEcho = none) (echoed : Bool)
    (proxy : EditingProxyState) : Rested (r.unedited countGraphemes echoed proxy).state := by
  unfold EditingReduction.unedited
  split
  · refine rested_mirrored ?_ ?_ _ _
    · rw [(missed_state ..).1, EditingReduction.move_state]
      exact hcomposition
    · rw [(missed_state ..).2, EditingReduction.move_state]
      exact hnone
  · exact rested_mirrored hcomposition hnone _ _

theorem rested_textInput (hcomposition : r.state.composition = none) (replacement : Option Text) (proxy : EditingProxyState) :
    Rested (r.textInput countGraphemes replacement proxy).state := by
  unfold EditingReduction.textInput
  dsimp only
  split
  · exact rested_reset hcomposition
  · exact rested_edited (r := r.setState { r.state with pendingEcho := none }) hcomposition rfl _ _ _
  · exact rested_unedited (r := r.setState { r.state with pendingEcho := none }) hcomposition rfl _ _

/-- An input outside of a composition, with the key that it confirms taken. -/
theorem rested_settledInput (h : Idle r.state) {inputType : Text}
    (htail : EditingReduction.isCompositionInput inputType = true → r.state.compositionTail.isSome →
      r.state.pendingEcho = none) (replacement : Option Text) (proxy : EditingProxyState) :
    Rested (r.settledInput countGraphemes inputType replacement proxy).state := by
  unfold EditingReduction.settledInput
  split
  · exact (rested_softReturn h.composition false).set rfl rfl rfl (fun h => h) rfl
  · split
    · rename_i hcommitted
      rw [Bool.and_eq_true] at hcommitted
      exact rested_tailInput h.composition (htail hcommitted.2 hcommitted.1) h.settled _ _
    · dsimp only
      split
      · have hcleared : Idle { r.state with compositionTail := none, suppressedInput := none } := h.set rfl rfl rfl rfl
        exact hcleared.rested fun _ => rfl
      · exact rested_textInput (r := r.setState { r.state with compositionTail := none }) h.composition _ _

/-- While a composition is open no key is awaited. -/
theorem confirmKey_of_open {inputType : Text} {composing : Bool} (hopen : r.state.composition.isSome) :
    r.confirmKey inputType composing proxy = r.setState { r.state with nativeKey := none } := by
  unfold EditingReduction.confirmKey
  split
  · exact if_neg (by rw [Option.isNone_eq_false_iff.mpr hopen]; simp)
  · rfl

/-- An input while a composition is open. -/
theorem input_of_open {inputType : Text} {composing : Bool} {previous : Composition}
    (hopen : r.state.composition = some previous) :
    r.input countGraphemes inputType composing proxy =
      (r.setState { r.state with nativeKey := none, replacement := none }).composingInput previous proxy := by
  unfold EditingReduction.input
  rw [confirmKey_of_open (Option.isSome_of_eq_some hopen)]
  simp only [EditingReduction.setState, hopen]

/-- An input outside of a composition. -/
theorem input_of_closed {inputType : Text} {composing : Bool}
    (hclosed : (r.confirmKey inputType composing proxy).state.composition = none) :
    r.input countGraphemes inputType composing proxy =
      let t := r.confirmKey inputType composing proxy
      let u := t.setState { t.state with replacement := none }
      if composing then u else u.settledInput countGraphemes inputType t.state.replacement proxy := by
  unfold EditingReduction.input
  generalize r.confirmKey inputType composing proxy = t at hclosed ⊢
  simp only [EditingReduction.setState, hclosed]

/-- An input that a composition commits confirms no key: none is echoed after it. -/
theorem confirmKey_pendingEcho (h : Rested r.state) {inputType : Text} {composing : Bool}
    (hcommitted : EditingReduction.isCompositionInput inputType = true)
    (htail : (r.confirmKey inputType composing proxy).state.compositionTail.isSome) :
    (r.confirmKey inputType composing proxy).state.pendingEcho = none := by
  have hrested := rested_confirmKey h
    (fun _ (_ : composing = false) => ne_insertText_of_composition hcommitted) proxy
  by_contra hecho
  have hnone := (hrested.closed (Option.ne_none_iff_isSome.mp hecho)).2
  cases hnone ▸ htail

theorem rested_input (h : Rested r.state) (inputType : Text) (composing : Bool) (proxy : EditingProxyState) :
    Rested (r.input countGraphemes inputType composing proxy).state := by
  cases hopen : r.state.composition with
  | some previous =>
    rw [input_of_open hopen]
    exact rested_composingInput (r := r.setState { r.state with nativeKey := none, replacement := none })
      (h.set rfl rfl rfl (fun h => h) rfl) hopen proxy
  | none =>
    have hidle := idle_confirmKey (h.idle hopen) inputType composing proxy
    rw [input_of_closed hidle.composition]
    dsimp only
    split
    · rename_i hcomposing
      have hrested : Rested (r.confirmKey inputType composing proxy).state :=
        rested_confirmKey h (fun _ hcomposing' => (nomatch hcomposing.symm.trans hcomposing')) proxy
      exact hrested.set rfl rfl rfl (fun h => h) rfl
    · have hcleared : Idle ((r.confirmKey inputType composing proxy).setState
          { (r.confirmKey inputType composing proxy).state with replacement := none }).state := hidle.set rfl rfl rfl rfl
      exact rested_settledInput hcleared (fun hcommitted hsome => confirmKey_pendingEcho h hcommitted hsome) _ _

theorem rested_selection (h : Rested r.state) (proxy : EditingProxyState) :
    Rested (r.selection countGraphemes proxy).state := by
  unfold EditingReduction.selection
  split
  · rename_i hquiet
    rw [Bool.and_eq_true, Bool.and_eq_true, Option.isNone_iff_eq_none, Option.isNone_iff_eq_none] at hquiet
    have hsettled := (h.idle hquiet.1.1).settled
    dsimp only
    split
    · refine Rested.of_none ?_ fun hpending => ?_
      · show (r.move countGraphemes _ _ _).state.pendingEcho = none
        rw [EditingReduction.move_state]
        exact hquiet.1.2
      · change (r.move countGraphemes _ _ _).state.resetPending = true at hpending
        rw [EditingReduction.move_state] at hpending
        cases hsettled.symm.trans hpending
    · exact Rested.of_none hquiet.1.2 fun hpending => (nomatch hsettled.symm.trans hpending)
  · exact h

/-! ## Every event -/

theorem rested_emit {operation : EditingOperation} (h : Rested r.state) : Rested (r.emit operation).state := by
  rw [EditingReduction.emit_state]
  exact h

theorem rested_paste (r : EditingReduction) (items : List EditingClipboardPayloadItem) : Rested (r.paste items).state := by
  unfold EditingReduction.paste
  dsimp only
  split
  · exact rested_interrupt _
  · split
    · exact rested_interrupt _
    · exact rested_emit (rested_interrupt _)

theorem rested_context (h : Rested r.state) (context : Option EditingContext) : Rested (r.context context).state := by
  unfold EditingReduction.context
  dsimp only
  split
  · exact (rested_interrupt r).set rfl rfl rfl (fun _ => rfl) rfl
  · exact h.set rfl rfl rfl (fun h => h) rfl

theorem rested_blur (r : EditingReduction) : Rested r.blur.state := by
  have hreleased : Rested (r.interrupt.releaseKeys r.interrupt.state.down).state := by
    rw [EditingReduction.releaseKeys_state]
    exact rested_interrupt r
  exact hreleased.set rfl rfl rfl (fun h => h) rfl

theorem Rested.reduceEditing (h : Rested s) (event : EditingProxyEvent) :
    Rested (reduceEditing countGraphemes s event).state := by
  cases event with
  | keydown key => exact rested_keydown (r := { state := s }) h key
  | keyup key => exact rested_keyup (r := { state := s }) h key
  | compositionstart proxy => exact rested_compositionstart (r := { state := s }) h proxy
  | compositionupdate data proxy => exact rested_compositionupdate (r := { state := s }) h data proxy
  | compositionend data proxy => exact rested_compositionend (r := { state := s }) h data proxy
  | beforeinput inputType data => exact rested_beforeinput (r := { state := s }) h inputType data
  | input inputType composing proxy => exact rested_input (r := { state := s }) h inputType composing proxy
  | selection proxy => exact rested_selection (r := { state := s }) h proxy
  | paste items => exact rested_paste _ items
  | copy => exact rested_emit (rested_interrupt _)
  | cut => exact rested_emit (rested_interrupt _)
  | pointerdown => exact rested_interrupt _
  | blur => exact rested_blur _
  | context context => exact rested_context (r := { state := s }) h context

/-- The reducer rests between any two events. -/
theorem rested_run {platform : EditingViewerPlatform} {abilities : EditingTargetAbilities} {events : List EditingProxyEvent}
    (h : (machine countGraphemes).run (createEditingState platform abilities) events = some s) : Rested s := by
  refine (machine countGraphemes).invariant ?_ ?_ h
  · exact Rested.of_none rfl fun hpending => (nomatch hpending)
  · rintro s event s' hs hstep
    obtain rfl := Option.some.inj hstep
    exact hs.reduceEditing event

end Opensteer.Editing
