import Opensteer.Editing.Writes

/-!
# Within the target's abilities

What `emit` lets through is what the target can apply, beside the checks that stand before it
(`allowed_of_refuses`). So every write keeps a reduction `Within` the target's abilities, and every event
asks of it only what it can apply (`within_abilities`).
-/

namespace Opensteer.Editing

variable {countGraphemes : Text → Nat} {abilities : EditingTargetAbilities} {soft : List EditingKeyState → Prop}
  {r t : EditingReduction} {operation : EditingOperation}

/-- The target can apply an operation. -/
def Allowed (abilities : EditingTargetAbilities) : EditingOperation → Prop
  | .key _ => True
  | .command _ => abilities.commands = true
  | .compose composition => abilities.composition = true ∧
    (composition.before.getD [] ≠ [] ∨ composition.after.getD [] ≠ [] → abilities.rangeEdits = true) ∧
    composition.text.length ≤ editingTextMaxLength ∧
    (composition.before.getD []).length ≤ editingTextMaxLength ∧
    (composition.after.getD []).length ≤ editingTextMaxLength
  | .edit edit => (edit.before ≠ [] ∨ edit.after ≠ [] → abilities.rangeEdits = true) ∧
    edit.text.length ≤ editingTextMaxLength ∧ edit.before.length ≤ editingTextMaxLength ∧
    edit.after.length ≤ editingTextMaxLength
  | .copy | .cut => abilities.clipboard ≠ .none
  | .paste items => abilities.clipboard ≠ .none ∧
    (abilities.clipboard = .text → ∀ item ∈ items, item.type = units "text/plain")

theorem texts_le (h : ¬operation.texts.any (editingTextMaxLength < ·.length) = true) :
    ∀ text ∈ operation.texts, text.length ≤ editingTextMaxLength := by
  simpa using h

theorem allowed_of_refuses (h : refuses abilities operation = none) (hchecked : Checked abilities operation) :
    Allowed abilities operation := by
  cases operation with
  | key => trivial
  | command => simpa [refuses, Allowed] using h
  | compose composition =>
    unfold refuses at h
    dsimp only at h
    split at h
    · cases h
    · rename_i hability
      split at h
      · cases h
      · have hlength := texts_le ‹_›
        simp only [EditingOperation.texts, List.mem_cons, List.not_mem_nil, or_false, forall_eq_or_imp, forall_eq] at hlength
        exact ⟨by simpa using hability, hchecked, hlength⟩
  | edit edit =>
    unfold refuses at h
    dsimp only at h
    split at h
    · cases h
    · have hlength := texts_le ‹_›
      simp only [EditingOperation.texts, List.mem_cons, List.not_mem_nil, or_false, forall_eq_or_imp, forall_eq] at hlength
      exact ⟨hchecked, hlength⟩
  | copy => simpa [refuses, Allowed] using h
  | cut => simpa [refuses, Allowed] using h
  | paste items =>
    have hclipboard : abilities.clipboard ≠ .none := by simpa [refuses] using h
    exact ⟨hclipboard, hchecked⟩

/-- A reduction asks of the target what it can apply, and sets the proxy if no composition is open. -/
structure Within (abilities : EditingTargetAbilities) (r : EditingReduction) : Prop where
  same : r.state.abilities = abilities
  allowed : ∀ operation ∈ r.operations, Allowed abilities operation
  settled : r.instruction.set.isSome → r.state.composition = none

namespace Within

theorem setState (h : Within abilities r) {s : EditingState} (hfollows : Follows r s) : Within abilities (r.setState s) :=
  ⟨hfollows.abilities.trans h.same, h.allowed, fun hset => hfollows.composition hset (h.settled hset)⟩

theorem emit (h : Within abilities r) (operation : EditingOperation) (hchecked : Checked abilities operation) :
    Within abilities (r.emit operation) := by
  refine ⟨r.emit_state _ ▸ h.same, fun op hop => ?_, r.emit_state _ ▸ r.emit_instruction _ ▸ h.settled⟩
  unfold EditingReduction.emit at hop
  split at hop
  · rename_i hnone
    rcases List.mem_append.mp hop with hop | hop
    · exact h.allowed op hop
    · obtain rfl := List.mem_singleton.mp hop
      exact allowed_of_refuses (h.same ▸ hnone) hchecked
  · exact h.allowed op hop
  · exact h.allowed op hop

/-- A key is within every target's abilities. -/
theorem emitKey (h : Within abilities r) (k : EditingKeystroke) : Within abilities (r.emit (.key k)) := h.emit _ trivial

theorem releaseKeys (h : Within abilities r) (keys : List EditingKeyState) : Within abilities (r.releaseKeys keys) := by
  induction keys generalizing r with
  | nil => exact h
  | cons key keys ih => exact ih (h.emitKey _)

theorem writes (h : Within abilities r) (hwrites : Writes soft r t) : Within abilities t := by
  induction hwrites with
  | refl => exact h
  | setState _ hfollows _ ih => exact ih.setState hfollows
  | clear _ habilities _ hcomposition ih => exact ⟨habilities.trans ih.same, ih.allowed, fun _ => hcomposition⟩
  | prevent _ ih => exact ⟨ih.same, ih.allowed, ih.settled⟩
  | refuse _ _ ih => exact ⟨ih.same, ih.allowed, ih.settled⟩
  | emit _ operation _ hchecked ih => exact ih.emit operation (ih.same ▸ hchecked)
  | press _ hfollows _ _ _ ih =>
    exact (ih.emitKey _).setState ⟨by simpa using hfollows.abilities, by simpa using hfollows.composition⟩
  | release _ hfollows _ _ _ _ ih =>
    exact (ih.emitKey _).setState ⟨by simpa using hfollows.abilities, by simpa using hfollows.composition⟩
  | blur _ hfollows _ ih =>
    exact (ih.releaseKeys _).setState ⟨by simpa using hfollows.abilities, by simpa using hfollows.composition⟩
  | softReturn _ _ ih => exact (ih.emitKey _).emitKey _

theorem reduceEditing (s : EditingState) (event : EditingProxyEvent) :
    Within s.abilities (Editing.reduceEditing countGraphemes s event) := by
  have h : Within s.abilities { state := s } := ⟨rfl, fun _ h => (nomatch h), fun h => (nomatch h)⟩
  exact (@Within.writes _ (fun _ => True)) h (Writes.reduceEditing s event fun _ => trivial)

end Within

theorem abilities_run {s : EditingState} {platform : EditingViewerPlatform} {events : List EditingProxyEvent}
    (hrun : (machine countGraphemes).run (createEditingState platform abilities) events = some s) :
    s.abilities = abilities :=
  (machine countGraphemes).invariant (P := fun s => s.abilities = abilities) rfl
    (fun s event _ h hstep => Option.some.inj hstep ▸ (Within.reduceEditing s event).same.trans h) hrun

/-- After every sequence of events, what the next one asks of the target is within its abilities, and it
sets the proxy only if no composition is open after it. -/
theorem within_abilities (countGraphemes : Text → Nat) (platform : EditingViewerPlatform)
    (abilities : EditingTargetAbilities) {events : List EditingProxyEvent} {s : EditingState}
    (hrun : (machine countGraphemes).run (createEditingState platform abilities) events = some s)
    (event : EditingProxyEvent) :
    (∀ operation ∈ (reduceEditing countGraphemes s event).operations, Allowed abilities operation) ∧
      ((reduceEditing countGraphemes s event).instruction.set.isSome →
        (reduceEditing countGraphemes s event).state.composition = none) := by
  have h := (@Within.reduceEditing countGraphemes) s event
  rw [abilities_run hrun] at h
  exact ⟨h.allowed, h.settled⟩

/-- A page that takes text only, and cannot be sent commands. -/
def plainPage : EditingTargetAbilities := ⟨true, true, false, .text⟩

/-- A word is typed, and its last letter composed again. -/
def recomposed : List EditingProxyEvent :=
  [.context (some ⟨units "field", true⟩), .input (units "insertText") false ⟨units "ab", 2, 2, none⟩,
    .compositionstart ⟨units "ab", 1, 2, none⟩]

theorem within_abilities_recomposed : ∃ s,
    (machine List.length).run (createEditingState .mac plainPage) recomposed = some s ∧
    (reduceEditing List.length s (.input (units "insertCompositionText") true ⟨units "ac", 2, 2, none⟩)).operations =
      [.compose ⟨units "field", units "c", 1, 1, some (units "b"), some []⟩] ∧
    ∀ operation ∈ (reduceEditing List.length s
      (.input (units "insertCompositionText") true ⟨units "ac", 2, 2, none⟩)).operations, Allowed plainPage operation := by
  obtain ⟨s, hrun, hcompose⟩ := (machine List.length).exists_run_of_any
    (s := createEditingState .mac plainPage) (l := recomposed)
    (P := fun s => (reduceEditing List.length s
      (.input (units "insertCompositionText") true ⟨units "ac", 2, 2, none⟩)).operations =
        [.compose ⟨units "field", units "c", 1, 1, some (units "b"), some []⟩]) (by decide +kernel)
  exact ⟨s, hrun, hcompose, (within_abilities List.length .mac plainPage hrun _).1⟩

end Opensteer.Editing
