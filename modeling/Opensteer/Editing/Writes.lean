import Opensteer.Editing.Model

/-!
# What an event writes

Every event is some writes to a reduction (`Writes`): to the state beside its keys and its abilities, of
what is said of the event, of an operation that is no key, of a key pressed, released or released on
blur, and of a soft Return. The invariants of the reducer are kept by each of these writes, and so by
every event (`Writes.reduceEditing`).
-/

namespace Opensteer.Editing

variable {countGraphemes : Text → Nat} {soft : List EditingKeyState → Prop} {r t : EditingReduction}
  {transaction : Composition}

/-! ## What the helpers leave as it is -/

namespace EditingReduction

@[simp] theorem emit_state (r : EditingReduction) (operation : EditingOperation) : (r.emit operation).state = r.state := by
  unfold emit
  split <;> rfl

@[simp] theorem emit_instruction (r : EditingReduction) (operation : EditingOperation) :
    (r.emit operation).instruction = r.instruction := by
  unfold emit
  split <;> rfl

@[simp] theorem cancel_state (r : EditingReduction) (transaction : Composition) : (r.cancel transaction).state = r.state := by
  unfold cancel
  split
  · rfl
  · split
    · exact r.emit_state _
    · rfl

@[simp] theorem cancel_instruction (r : EditingReduction) (transaction : Composition) :
    (r.cancel transaction).instruction = r.instruction := by
  unfold cancel
  split
  · rfl
  · split
    · exact r.emit_instruction _
    · rfl

@[simp] theorem commit_state (r : EditingReduction) (transaction : Composition) (text : Text) :
    (r.commit transaction text).state = r.state := by
  unfold commit commitEdit
  split
  · rfl
  · split
    · exact r.cancel_state transaction
    · split
      · rfl
      · split
        · rw [cancel_state, emit_state]
        · rw [emit_state]

@[simp] theorem commit_instruction (r : EditingReduction) (transaction : Composition) (text : Text) :
    (r.commit transaction text).instruction = r.instruction := by
  unfold commit commitEdit
  split
  · rfl
  · split
    · exact r.cancel_instruction transaction
    · split
      · rfl
      · split
        · rw [cancel_instruction, emit_instruction]
        · rw [emit_instruction]

@[simp] theorem moves_state (r : EditingReduction) (command : EditingCommand) (n : Nat) :
    (r.moves command n).state = r.state := by
  induction n generalizing r with
  | zero => rfl
  | succ n ih => rw [moves, ih, emit_state]

@[simp] theorem move_state (r : EditingReduction) (start stop : Nat) (text : Text) :
    (r.move countGraphemes start stop text).state = r.state := moves_state ..

@[simp] theorem releaseKeys_state (r : EditingReduction) (keys : List EditingKeyState) :
    (r.releaseKeys keys).state = r.state := by
  induction keys generalizing r with
  | nil => rfl
  | cons key keys ih => rw [releaseKeys, ih, emit_state]

@[simp] theorem releaseKeys_instruction (r : EditingReduction) (keys : List EditingKeyState) :
    (r.releaseKeys keys).instruction = r.instruction := by
  induction keys generalizing r with
  | nil => rfl
  | cons key keys ih => rw [releaseKeys, ih, emit_instruction]

theorem publishComposition_composition (r : EditingReduction) (transaction : Composition) (proxy : EditingProxyState) :
    (r.publishComposition transaction proxy).1.state.composition = r.state.composition := by
  unfold publishComposition
  split
  · rfl
  · split
    · rfl
    · split
      · rfl
      · dsimp only
        split
        · rw [emit_state]
        · show (((r.emit _).cancel transaction).state).composition = _
          rw [cancel_state, emit_state]

end EditingReduction

/-! ## Writes -/

def EditingOperation.isKey : EditingOperation → Bool
  | .key _ => true
  | _ => false

/-- What `emit` does not look at: what stands before it where it is called. -/
def Checked (abilities : EditingTargetAbilities) : EditingOperation → Prop
  | .compose composition =>
    composition.before.getD [] ≠ [] ∨ composition.after.getD [] ≠ [] → abilities.rangeEdits = true
  | .edit edit => edit.before ≠ [] ∨ edit.after ≠ [] → abilities.rangeEdits = true
  | .paste items => abilities.clipboard = .text → ∀ item ∈ items, item.type = units "text/plain"
  | _ => True

/-- A state that a reduction is given: of the same abilities, and with no composition opened where the
proxy is set. -/
structure Follows (r : EditingReduction) (s : EditingState) : Prop where
  abilities : s.abilities = r.state.abilities
  composition : r.instruction.set.isSome → r.state.composition = none → s.composition = none

/-- What is written to a reduction, soft Returns only while the keys down are of a kind. -/
inductive Writes (soft : List EditingKeyState → Prop) (r : EditingReduction) : EditingReduction → Prop
  | refl : Writes soft r r
  | setState {t : EditingReduction} {s : EditingState} (h : Writes soft r t) (hfollows : Follows t s)
    (hdown : s.down = t.state.down) : Writes soft r (t.setState s)
  | clear {t : EditingReduction} {s : EditingState} (h : Writes soft r t) (habilities : s.abilities = t.state.abilities)
    (hdown : s.down = t.state.down) (hcomposition : s.composition = none) :
    Writes soft r { t with state := s, instruction := { t.instruction with set := some blank } }
  | prevent {t : EditingReduction} (h : Writes soft r t) : Writes soft r t.prevent
  | refuse {t : EditingReduction} (h : Writes soft r t) (refusal : Refusal) : Writes soft r (t.refuse refusal)
  | emit {t : EditingReduction} (h : Writes soft r t) (operation : EditingOperation) (hkey : operation.isKey = false)
    (hchecked : Checked t.state.abilities operation) : Writes soft r (t.emit operation)
  | press {t : EditingReduction} {s : EditingState} {key : EditingKeyState} {k : EditingKeystroke}
    (h : Writes soft r t) (hfollows : Follows t s) (hdown : s.down = holding t.state.down key)
    (haction : k.action = .down) (hidentity : k.identity = key.identity) :
    Writes soft r ((t.emit (.key k)).setState s)
  | release {t : EditingReduction} {s : EditingState} {key : EditingKeyState} {k : EditingKeystroke}
    (h : Writes soft r t) (hfollows : Follows t s)
    (hheld : t.state.down.any fun held => held.identity = key.identity)
    (hdown : s.down = t.state.down.filter fun held => held.identity ≠ key.identity)
    (haction : k.action = .up) (hidentity : k.identity = key.identity) :
    Writes soft r ((t.emit (.key k)).setState s)
  | blur {t : EditingReduction} {s : EditingState} (h : Writes soft r t) (hfollows : Follows t s) (hdown : s.down = []) :
    Writes soft r ((t.releaseKeys t.state.down).setState s)
  | softReturn {t : EditingReduction} (h : Writes soft r t) (hsoft : soft t.state.down) :
    Writes soft r ((t.emit (.key (softReturnKey .down))).emit (.key (softReturnKey .up)))

/-- An event that sends a soft Return. -/
def SendsReturn (s : EditingState) : EditingProxyEvent → Prop
  | .beforeinput inputType _ => s.composition = none ∧ isReturn inputType = true ∧ s.sendsReturn true = true
  | .input inputType composing _ =>
    s.composition = none ∧ composing = false ∧ isReturn inputType = true ∧ s.sendsReturn false = true
  | _ => False

theorem ne_insertText_of_return {inputType : Text} (h : isReturn inputType = true) : inputType ≠ units "insertText" := by
  rintro rfl
  revert h
  decide

/-- A Return is no key that native input is awaited for. -/
theorem nativeKeyInput_of_return {inputType : Text} (h : isReturn inputType = true) (data : Option Text) :
    t.nativeKeyInput inputType data = t.setState { t.state with nativeKey := none } := by
  unfold EditingReduction.nativeKeyInput
  dsimp only
  split
  · exact if_neg fun hinsert => ne_insertText_of_return h hinsert.1
  · rfl

theorem confirmKey_of_return {inputType : Text} (h : isReturn inputType = true) (composing : Bool)
    (proxy : EditingProxyState) :
    t.confirmKey inputType composing proxy = t.setState { t.state with nativeKey := none } := by
  unfold EditingReduction.confirmKey
  split
  · split
    · dsimp only
      split
      · exact nativeKeyInput_of_return h _
      · unfold EditingReduction.nativeKeyInput
        dsimp only
        split
        · exact if_neg fun hinsert => (nomatch hinsert.1)
        · rfl
    · rfl
  · rfl

/-! ## Each helper -/

namespace Writes

theorem ite {c : Prop} [Decidable c] {u : EditingReduction} (ht : Writes soft r t) (hu : Writes soft r u) :
    Writes soft r (if c then t else u) := by
  split
  · exact ht
  · exact hu

/-- What is written beside the abilities, the keys and the composition. -/
theorem set (h : Writes soft r t) {s : EditingState} (habilities : s.abilities = t.state.abilities)
    (hdown : s.down = t.state.down) (hcomposition : s.composition = t.state.composition) : Writes soft r (t.setState s) :=
  h.setState ⟨habilities, fun _ hnone => hcomposition.trans hnone⟩ hdown

/-- The composition is closed. -/
theorem close (h : Writes soft r t) {s : EditingState} (habilities : s.abilities = t.state.abilities)
    (hdown : s.down = t.state.down) (hcomposition : s.composition = none) : Writes soft r (t.setState s) :=
  h.setState ⟨habilities, fun _ _ => hcomposition⟩ hdown

/-- One composition in place of another. -/
theorem setComposition (h : Writes soft r t) {s : EditingState} (hopen : t.state.composition.isSome)
    (habilities : s.abilities = t.state.abilities) (hdown : s.down = t.state.down) : Writes soft r (t.setState s) := by
  refine h.setState ⟨habilities, fun _ hnone => ?_⟩ hdown
  rw [hnone] at hopen
  cases hopen

theorem reset (h : Writes soft r t) : Writes soft r t.reset := by
  unfold EditingReduction.reset
  dsimp only
  split
  · exact h.set rfl rfl rfl
  · rename_i hnone
    exact h.clear rfl rfl (by simpa using hnone)

theorem cancel (h : Writes soft r t) (transaction : Composition) : Writes soft r (t.cancel transaction) := by
  unfold EditingReduction.cancel
  split
  · exact h
  · split
    · exact h.emit (.compose _) rfl (by simp [Checked])
    · exact h

/-- A range that the target was not found unable to edit. -/
theorem rangeEdits_of_ne {abilities : EditingTargetAbilities} {before after : Text}
    (hrange : ¬(!abilities.rangeEdits && (before ≠ [] || after ≠ [])) = true)
    (hne : before ≠ [] ∨ after ≠ []) : abilities.rangeEdits = true := by
  rcases hne with hne | hne <;>
  · by_contra hno
    simp [hno, hne] at hrange

theorem commit (h : Writes soft r t) (transaction : Composition) (text : Text) :
    Writes soft r (t.commit transaction text) := by
  unfold EditingReduction.commit EditingReduction.commitEdit
  split
  · exact h
  · split
    · exact h.cancel transaction
    · split
      · exact h.refuse _
      · rename_i hrange
        split
        · exact (h.emit (.edit _) rfl (rangeEdits_of_ne hrange)).cancel transaction
        · exact h.emit (.edit _) rfl (rangeEdits_of_ne hrange)

theorem interrupt (h : Writes soft r t) : Writes soft r t.interrupt := by
  unfold EditingReduction.interrupt
  split
  · exact h.reset
  · rename_i transaction hopen
    split
    · exact h.reset
    · refine reset (setComposition (h.commit transaction transaction.text) ?_ rfl rfl)
      rw [EditingReduction.commit_state, hopen]
      rfl

theorem sendReturn (h : Writes soft r t) {before : Bool} (hsoft : t.state.sendsReturn before = true → soft t.state.down) :
    Writes soft r (t.softReturn before) := by
  unfold EditingReduction.softReturn
  dsimp only
  refine set (reset ?_) rfl rfl rfl
  split
  · exact h.softReturn (hsoft ‹_›)
  · exact h

theorem printableKey (h : Writes soft r t) (key : EditingKeyState) : Writes soft r (t.printableKey key) :=
  h.press ⟨by simp, by simp⟩ (by simp) rfl rfl

theorem nativeKeyInput (h : Writes soft r t) (inputType : Text) (data : Option Text) :
    Writes soft r (t.nativeKeyInput inputType data) := by
  have hcleared : Writes soft r (t.setState { t.state with nativeKey := none }) := set h rfl rfl rfl
  unfold EditingReduction.nativeKeyInput
  dsimp only
  split
  · split
    · exact hcleared.printableKey _
    · exact hcleared
  · exact hcleared

theorem moves (h : Writes soft r t) (command : EditingCommand) (n : Nat) : Writes soft r (t.moves command n) := by
  induction n generalizing t with
  | zero => exact h
  | succ n ih => exact ih (h.emit (.command _) rfl trivial)

theorem move (h : Writes soft r t) (start stop : Nat) (text : Text) :
    Writes soft r (t.move countGraphemes start stop text) := h.moves _ _

theorem missed (h : Writes soft r t) (caret wanted : Nat) : Writes soft r (t.missed caret wanted) := by
  unfold EditingReduction.missed
  split
  · exact set h rfl rfl rfl
  · exact h

theorem publishComposition (h : Writes soft r t) (transaction : Composition) (proxy : EditingProxyState) :
    Writes soft r (t.publishComposition transaction proxy).1 := by
  unfold EditingReduction.publishComposition
  split
  · exact h
  · split
    · exact h
    · split
      · exact h.refuse _
      · rename_i contextId _ _ hrange
        have hchecked : Checked t.state.abilities (.compose (EditingReduction.composeOf transaction contextId proxy)) := by
          intro hne
          refine rangeEdits_of_ne hrange ?_
          simp only [EditingReduction.composeOf] at hne
          split at hne
          · simp at hne
          · exact hne
        dsimp only
        split
        · exact h.emit _ rfl hchecked
        · exact set ((h.emit _ rfl hchecked).cancel transaction) rfl rfl rfl

/-! ## Each event -/

theorem context (h : Writes soft r t) (context : Option EditingContext) : Writes soft r (t.context context) := by
  unfold EditingReduction.context
  dsimp only
  refine set ?_ rfl rfl rfl
  split
  · exact set h.interrupt rfl rfl rfl
  · exact h

theorem loseFocus (h : Writes soft r t) : Writes soft r t.blur :=
  h.interrupt.blur ⟨by simp, by simp⟩ rfl

theorem compositionstart (h : Writes soft r t) (hset : t.instruction.set = none) (proxy : EditingProxyState) :
    Writes soft r (t.compositionstart proxy) := by
  unfold EditingReduction.compositionstart
  split
  · exact h
  · exact h.setState ⟨rfl, fun hsome => (nomatch (hset ▸ hsome : (none : Option EditingProxyState).isSome = true))⟩ rfl

theorem markedUpdate (h : Writes soft r t) {previous : Composition} (hopen : t.state.composition = some previous)
    (proxy : EditingProxyState) (marked : MarkedRange) : Writes soft r (t.markedUpdate previous proxy marked) := by
  unfold EditingReduction.markedUpdate
  split
  · refine setComposition ((h.refuse _).cancel previous) ?_ rfl rfl
    rw [EditingReduction.cancel_state]
    exact Option.isSome_of_eq_some hopen
  · rename_i range _
    have hproxy : Writes soft r (t.setState { t.state with proxy }) := h.set rfl rfl rfl
    refine setComposition (hproxy.publishComposition (compositionText previous range.start range.stop range.text) proxy)
      ?_ rfl rfl
    rw [EditingReduction.publishComposition_composition]
    exact Option.isSome_of_eq_some hopen

theorem compositionupdate (h : Writes soft r t) (data : Text) (proxy : EditingProxyState) :
    Writes soft r (t.compositionupdate data proxy) := by
  unfold EditingReduction.compositionupdate
  split
  · exact h
  · rename_i previous hopen
    split
    · exact h
    · split
      · exact h.markedUpdate hopen proxy _
      · exact h.setComposition (Option.isSome_of_eq_some hopen) rfl rfl

theorem ended (h : Writes soft r t) (transaction : Composition) (proxy : EditingProxyState) (remoteCaret : Nat) :
    Writes soft r (t.ended transaction proxy remoteCaret) := by
  have hover : Writes soft r (t.setState (EditingReduction.endState t.state transaction proxy remoteCaret)) :=
    h.close rfl rfl rfl
  exact hover.reset.ite hover

theorem commitFinal (h : Writes soft r t) (final : Composition) (data : Text) (proxy : EditingProxyState) :
    Writes soft r (t.commitFinal countGraphemes final data proxy).1 := by
  unfold EditingReduction.commitFinal
  dsimp only
  split
  · exact ((h.commit final final.text).move _ _ _).missed _ _
  · exact h.commit final final.text

theorem compositionend (h : Writes soft r t) (data : Text) (proxy : EditingProxyState) :
    Writes soft r (t.compositionend countGraphemes data proxy) := by
  unfold EditingReduction.compositionend
  split
  · exact h
  · split
    · exact h.ended _ _ _
    · split
      · exact (h.cancel _).ended _ _ _
      · exact (h.commitFinal _ _ _).ended _ _ _

theorem chooseNative (h : Writes soft r t) (key : EditingKeyState) : Writes soft r (t.chooseNative key) := by
  unfold EditingReduction.chooseNative
  split
  · exact ite (set h rfl rfl rfl) h
  · exact h

theorem keyup (h : Writes soft r t) (key : EditingKeyState) : Writes soft r (t.keyup key) := by
  have hchosen := h.chooseNative key
  unfold EditingReduction.keyup EditingReduction.releaseKey
  split
  · exact hchosen.release ⟨by simp, by simp⟩ ‹_› (by simp) rfl rfl
  · exact hchosen

theorem namedKey (h : Writes soft r t) (key : EditingKeyState) : Writes soft r (t.namedKey key) :=
  h.prevent.reset.press ⟨by simp, by simp⟩ (by simp) rfl rfl

theorem chord (h : Writes soft r t) (key : EditingKeyState) (text : Bool) : Writes soft r (t.chord key text) := by
  unfold EditingReduction.chord
  split
  · exact h.reset.prevent.emit (.command _) rfl trivial
  · exact h
  · split
    · split
      · exact set h rfl rfl rfl
      · exact h.printableKey key
    · exact h.namedKey key

theorem dropStale (h : Writes soft r t) : Writes soft r t.dropStale := ite h.reset h

theorem awaitNative (h : Writes soft r t) (key : EditingKeyState) (text : Bool) :
    Writes soft r (t.awaitNative key text) :=
  ite (set h rfl rfl rfl) (ite (set h rfl rfl rfl) h)

theorem keydown (h : Writes soft r t) (key : EditingKeyState) : Writes soft r (t.keydown countGraphemes key) := by
  have hcleared : Writes soft r (t.setState { t.state with
    compositionTail := none, suppressedInput := none, replacement := none }) := set h rfl rfl rfl
  unfold EditingReduction.keydown
  split
  · exact h
  · have hfresh := hcleared.dropStale
    exact ite hfresh (ite (hfresh.awaitNative key _) (hfresh.chord key _))

theorem keepTail (h : Writes soft r t) (inputType : Text) : Writes soft r (t.keepTail inputType) :=
  ite h (set h rfl rfl rfl)

theorem deletes (h : Writes soft r t) (inputType : Text) : Writes soft r (t.deletes inputType) := by
  unfold EditingReduction.deletes
  split
  · exact h
  · exact ite (reset (set (h.prevent.emit (.command _) rfl trivial) rfl rfl rfl)) h

theorem beforeinput (h : Writes soft r t) {inputType : Text} {data : Option Text}
    (hsoft : SendsReturn t.state (.beforeinput inputType data) → soft t.state.down) :
    Writes soft r (t.beforeinput inputType data) := by
  unfold EditingReduction.beforeinput
  dsimp only
  generalize hs' : t.setState _ = s
  have hs : Writes soft r s := hs' ▸ set h rfl rfl rfl
  split
  · exact hs
  · rename_i hnone
    have hnative := hs.nativeKeyInput inputType data
    split
    · rename_i hreturn
      refine hnative.prevent.sendReturn fun hsends => ?_
      rw [nativeKeyInput_of_return hreturn] at hsends ⊢
      subst hs'
      exact hsoft ⟨Option.not_isSome_iff_eq_none.mp hnone, hreturn, hsends⟩
    · exact (hnative.keepTail inputType).deletes inputType

theorem confirmKey (h : Writes soft r t) (inputType : Text) (composing : Bool) (proxy : EditingProxyState) :
    Writes soft r (t.confirmKey inputType composing proxy) := by
  unfold EditingReduction.confirmKey
  split
  · split
    · exact h.nativeKeyInput _ _
    · exact set h rfl rfl rfl
  · exact set h rfl rfl rfl

theorem composingInput (h : Writes soft r t) {previous : Composition} (hopen : t.state.composition = some previous)
    (proxy : EditingProxyState) : Writes soft r (t.composingInput previous proxy) := by
  have hproxy : Writes soft r (t.setState { t.state with proxy }) := set h rfl rfl rfl
  unfold EditingReduction.composingInput
  split
  · exact h
  · dsimp only
    split
    · exact hproxy.setComposition (Option.isSome_of_eq_some hopen) rfl rfl
    · refine setComposition (hproxy.publishComposition _ proxy) ?_ rfl rfl
      rw [EditingReduction.publishComposition_composition]
      exact Option.isSome_of_eq_some hopen

theorem sendEdit (h : Writes soft r t) (edit : EditingTextEdit) (caret : Nat) (proxy : EditingProxyState) :
    Writes soft r (t.sendEdit countGraphemes edit caret proxy).1 := by
  unfold EditingReduction.sendEdit
  split
  · rename_i hrange
    have hchecked : Checked t.state.abilities (.edit edit) := by
      intro hne
      rcases Bool.or_eq_true_iff.mp hrange with hrange | hempty
      · exact hrange
      · simp only [Bool.and_eq_true, decide_eq_true_eq] at hempty
        exact (hne.elim (· hempty.1) (· hempty.2)).elim
    have hsent := h.emit (.edit edit) rfl hchecked
    split
    · exact hsent.reset
    · dsimp only
      split
      · exact (hsent.move _ _ _).missed _ _
      · exact hsent
  · exact set (h.refuse _) rfl rfl rfl

theorem mirrored (h : Writes soft r t) (proxy : EditingProxyState) (remoteCaret : Nat) :
    Writes soft r (t.mirrored proxy remoteCaret) := by
  have hproxy : Writes soft r (t.setState { t.state with proxy := proxy, caret := remoteCaret }) :=
    set h rfl rfl rfl
  exact hproxy.reset.ite hproxy

theorem edited (h : Writes soft r t) (edit : EditingTextEdit) (caret : Nat) (proxy : EditingProxyState) :
    Writes soft r (t.edited countGraphemes edit caret proxy) := by
  have hsent := (@Writes.sendEdit countGraphemes) h edit caret proxy
  unfold EditingReduction.edited
  generalize t.sendEdit countGraphemes edit caret proxy = sent at hsent
  obtain ⟨s, remoteCaret⟩ := sent
  cases remoteCaret with
  | none => exact hsent
  | some remoteCaret => exact hsent.mirrored proxy remoteCaret

theorem unedited (h : Writes soft r t) (echoed : Bool) (proxy : EditingProxyState) :
    Writes soft r (t.unedited countGraphemes echoed proxy) :=
  ite (((h.move _ _ _).missed _ _).mirrored _ _) (h.mirrored _ _)

theorem textInput (h : Writes soft r t) (replacement : Option Text) (proxy : EditingProxyState) :
    Writes soft r (t.textInput countGraphemes replacement proxy) := by
  unfold EditingReduction.textInput
  have hecho : Writes soft r (t.setState { t.state with pendingEcho := none }) := set h rfl rfl rfl
  dsimp only
  split
  · exact (hecho.refuse _).reset
  · exact hecho.edited _ _ _
  · exact hecho.unedited _ _

theorem tailInput (h : Writes soft r t) (proxy : EditingProxyState) (discard : Bool) :
    Writes soft r (t.tailInput proxy discard) := by
  have hs : Writes soft r (if discard then t.setState { t.state with compositionTail := none }
      else t.setState { t.state with compositionTail := none, proxy := proxy, caret := proxy.selectionEnd }) :=
    ite (set h rfl rfl rfl) (set h rfl rfl rfl)
  exact ite hs.reset hs

theorem settledInput (h : Writes soft r t) (inputType : Text) (replacement : Option Text) (proxy : EditingProxyState)
    (hsoft : isReturn inputType → t.state.sendsReturn false → soft t.state.down) :
    Writes soft r (t.settledInput countGraphemes inputType replacement proxy) := by
  have htail : Writes soft r (t.setState { t.state with compositionTail := none }) := set h rfl rfl rfl
  unfold EditingReduction.settledInput
  split
  · exact set (h.sendReturn (hsoft ‹_›)) rfl rfl rfl
  · split
    · exact h.tailInput proxy _
    · dsimp only
      split
      · exact set htail rfl rfl rfl
      · exact htail.textInput _ _

theorem input (h : Writes soft r t) {inputType : Text} {composing : Bool} {proxy : EditingProxyState}
    (hsoft : SendsReturn t.state (.input inputType composing proxy) → soft t.state.down) :
    Writes soft r (t.input countGraphemes inputType composing proxy) := by
  have hconfirmed : Writes soft r ((t.confirmKey inputType composing proxy).setState
      { (t.confirmKey inputType composing proxy).state with replacement := none }) :=
    set (h.confirmKey inputType composing proxy) rfl rfl rfl
  unfold EditingReduction.input
  dsimp only
  split
  · exact hconfirmed.composingInput ‹_› proxy
  · rename_i hnone
    split
    · exact hconfirmed
    · rename_i hcomposing
      refine hconfirmed.settledInput _ _ _ fun hreturn hsends => ?_
      rw [confirmKey_of_return hreturn] at hnone hsends ⊢
      exact hsoft ⟨hnone, by simpa using hcomposing, hreturn, hsends⟩

theorem selection (h : Writes soft r t) (proxy : EditingProxyState) :
    Writes soft r (t.selection countGraphemes proxy) := by
  unfold EditingReduction.selection
  split
  · dsimp only
    split
    · exact set (set (h.move _ _ _) rfl rfl rfl) rfl rfl rfl
    · exact set h rfl rfl rfl
  · exact h

theorem paste (h : Writes soft r t) (items : List EditingClipboardPayloadItem) : Writes soft r (t.paste items) := by
  have hover := h.prevent.interrupt
  unfold EditingReduction.paste
  dsimp only
  split
  · exact hover.refuse _
  · rename_i hplain
    split
    · exact hover
    · refine hover.emit (.paste items) rfl fun htext item hitem => ?_
      by_contra hne
      exact hplain ⟨htext, List.any_eq_true.mpr ⟨item, hitem, decide_eq_true hne⟩⟩

/-- Every event is some writes, with a soft Return only where the event sends one. -/
theorem reduceEditing (s : EditingState) (event : EditingProxyEvent) (hsoft : SendsReturn s event → soft s.down) :
    Writes soft { state := s } (Editing.reduceEditing countGraphemes s event) := by
  have h : Writes soft { state := s } { state := s } := .refl
  cases event with
  | context context => exact h.context context
  | pointerdown => exact h.interrupt
  | blur => exact h.loseFocus
  | compositionstart proxy => exact h.compositionstart rfl proxy
  | compositionupdate data proxy => exact h.compositionupdate data proxy
  | compositionend data proxy => exact h.compositionend data proxy
  | keydown key => exact h.keydown key
  | keyup key => exact h.keyup key
  | beforeinput inputType data => exact h.beforeinput hsoft
  | input inputType composing proxy => exact h.input hsoft
  | selection proxy => exact h.selection proxy
  | copy => exact h.prevent.interrupt.emit .copy rfl trivial
  | cut => exact h.prevent.interrupt.emit .cut rfl trivial
  | paste items => exact h.paste items

end Writes

end Opensteer.Editing
