import Opensteer.Framework.Splice
import Opensteer.Editing.Abilities
import Opensteer.Editing.Keys
import Opensteer.Editing.Rest

/-!
# A composition commits what was seen

The field of the target (`field`): a composition takes the place of what it names around the caret, the
next ones that of the marked text, and an edit that of either. While a composition of the reducer is
open, the field shows the base with the part that the first of them covered replaced (`Shown`), and the
text that is committed is that of the part that is covered then. The two are the same text where each
event covers what was covered when the first was sent (`KeepsRange`), and then what is committed is what
the proxy shows (`composed_text`).
-/

namespace Opensteer.Editing

variable {countGraphemes : Text → Nat} {r : EditingReduction} {t u : Composition} {base data : Text} {caret : Nat}
  {proxy : EditingProxyState}

/-! ## The target's field -/

/-- A field's text around its caret, and what is marked at it. -/
structure Field where
  around : Zipper UInt16
  marked : Option Text
deriving DecidableEq

def Field.text (f : Field) : Text := f.around.left ++ f.marked.getD [] ++ f.around.right

/-- A field that shows a text, with nothing marked. -/
def Field.showing (text : Text) (caret : Nat) : Field := ⟨.split text caret, none⟩

/-- What an operation makes of a field, if it stands as the operation says. -/
def fieldStep (f : Field) : EditingOperation → Option Field
  | .compose composition => match f.marked with
    | some _ => some { f with marked := some composition.text }
    | none => (f.around.without (composition.before.getD []) (composition.after.getD [])).map fun around =>
      ⟨around, some composition.text⟩
  | .edit edit => match f.marked with
    | some _ =>
      if edit.before = [] ∧ edit.after = [] then some ⟨{ f.around with left := f.around.left ++ edit.text }, none⟩ else none
    | none => (f.around.without edit.before edit.after).map fun around =>
      ⟨{ around with left := around.left ++ edit.text }, none⟩
  | _ => some f

def field : Machine Field EditingOperation := ⟨fieldStep⟩

/-- Events of which none is refused. -/
def unrefused (countGraphemes : Text → Nat) : Machine Typing EditingProxyEvent :=
  ⟨fun t event =>
    let r := reduceEditing countGraphemes t.state event
    if r.refusal = none then some ⟨r.state, t.operations ++ r.operations⟩ else none⟩

/-! ## Ranges of the base -/

theorem snapshotCompositionRange_spec {text : Text} {start stop : Int} {range : TextRange}
    (h : snapshotCompositionRange text proxy start stop = some range) :
    range.start ≤ range.stop ∧ range.stop ≤ text.length ∧ range.text = proxy.value.slice start stop := by
  unfold snapshotCompositionRange at h
  dsimp only at h
  split at h
  · cases h
  · rename_i hbounds
    obtain rfl := Option.some.inj h
    simp only [not_or, not_lt] at hbounds
    refine ⟨?_, ?_, rfl⟩
    · show start.toNat ≤ (stop + text.length - proxy.value.length : Int).toNat
      omega
    · show (stop + text.length - proxy.value.length : Int).toNat ≤ text.length
      omega

theorem difference_stop_le (before after : Text) : (difference before after).stop ≤ before.length := by
  unfold difference
  dsimp only
  split
  · rename_i h
    exact h.1
  · exact Nat.sub_le ..

/-- A transaction recast to a range of its base and a text for it. -/
def Recast (t u : Composition) (nativeText : Text) : Prop :=
  ∃ rawStart rawEnd echo, rawStart ≤ rawEnd ∧ rawEnd ≤ t.base.value.length ∧
    u = { compositionText t rawStart rawEnd nativeText with echo }

/-- A transaction whose ranges lie in its base. -/
structure Composition.Ranged (t : Composition) : Prop where
  raw_le : t.rawStart ≤ t.rawEnd
  rawEnd_le : t.rawEnd ≤ t.base.value.length
  selection_le : t.base.selectionStart ≤ t.base.selectionEnd
  selectionEnd_le : t.base.selectionEnd ≤ t.base.value.length

theorem nativeRange_spec {nativeText : Text} {range : TextRange} (h : nativeRange t proxy nativeText = some range) :
    range.start ≤ range.stop ∧ range.stop ≤ t.base.value.length := by
  unfold nativeRange at h
  split at h
  · cases h
  · obtain ⟨start, -, hrange⟩ := List.exists_of_findSome?_eq_some h
    dsimp only at hrange
    split at hrange
    · cases hrange
    · exact ⟨(snapshotCompositionRange_spec hrange).1, (snapshotCompositionRange_spec hrange).2.1⟩

theorem markedText_spec {commitText : Option Text} {range : TextRange} (h : markedText t proxy commitText = some range) :
    range.start ≤ range.stop ∧ range.stop ≤ t.base.value.length ∧ ∀ text ∈ commitText, range.text = text := by
  unfold markedText at h
  split at h
  · cases h
  · split at h
    · rename_i hcommit
      obtain ⟨hle, hlength, htext⟩ := snapshotCompositionRange_spec h
      refine ⟨hle, hlength, ?_⟩
      rintro text ⟨rfl⟩
      rw [htext]
      simpa using hcommit
    · cases h

/-- What the proxy shows is the base with a range of it replaced. -/
theorem composingValue_recast (h : t.Ranged) (proxy : EditingProxyState) :
    ∃ nativeText, Recast t (composingValue t proxy none) nativeText := by
  unfold composingValue
  split
  · rename_i range hrange
    obtain ⟨hle, hlength, -⟩ := markedText_spec hrange
    exact ⟨_, _, _, _, hle, hlength, rfl⟩
  · dsimp only
    split
    · rename_i range hrange
      exact ⟨_, _, _, _, (nativeRange_spec hrange).1, (nativeRange_spec hrange).2, rfl⟩
    · refine ⟨_, _, _, _, ?_, ?_, rfl⟩
      · exact (min_le_left _ _).trans (h.selection_le.trans (le_max_left _ _))
      · exact max_le h.selectionEnd_le (difference_stop_le _ _)

/-- And with the text to commit, where that is given. -/
theorem composingValue_recast_commit (h : t.Ranged) (proxy : EditingProxyState) (data : Text) :
    Recast t (composingValue t proxy (some data)) data := by
  unfold composingValue
  split
  · rename_i range hrange
    obtain ⟨hle, hlength, htext⟩ := markedText_spec hrange
    exact ⟨_, _, t.echo, hle, hlength, by rw [htext data rfl]; rfl⟩
  · dsimp only
    split
    · rename_i range hrange
      exact ⟨_, _, _, (nativeRange_spec hrange).1, (nativeRange_spec hrange).2, rfl⟩
    · exact ⟨_, _, _, h.raw_le, h.rawEnd_le, rfl⟩

/-- What a transaction recast has, beside its range and its text. -/
theorem Recast.same {nativeText : Text} (h : Recast t u nativeText) : u.contextId = t.contextId ∧ u.base = t.base ∧
    u.caret = t.caret ∧ u.sent = t.sent ∧ u.detached = t.detached := by
  obtain ⟨_, _, _, -, -, rfl⟩ := h
  exact ⟨rfl, rfl, rfl, rfl, rfl⟩

theorem Recast.ranged {nativeText : Text} (h : Recast t u nativeText) (ht : t.Ranged) : u.Ranged := by
  obtain ⟨_, _, _, hle, hlength, rfl⟩ := h
  exact ⟨hle, hlength, ht.selection_le, ht.selectionEnd_le⟩

/-- It covers the caret. -/
theorem Recast.covers {nativeText : Text} (h : Recast t u nativeText) :
    u.start ≤ u.caret ∧ u.start ≤ u.base.value.length ∧ u.caret ≤ u.stop := by
  obtain ⟨_, _, _, hle, hlength, rfl⟩ := h
  exact ⟨min_le_right _ _, (min_le_left _ _).trans (hle.trans hlength), le_max_right _ _⟩

/-- What it covers is named by what stands of it before the caret and after. -/
theorem Recast.around {nativeText : Text} (h : Recast t u nativeText) :
    (Zipper.split u.base.value u.caret).without u.before u.after =
      some ⟨u.base.value.take u.start, u.base.value.drop u.stop⟩ := by
  obtain ⟨hstart, hlength, hstop⟩ := h.covers
  have hbefore : u.before = (u.base.value.take u.caret).drop u.start := by
    obtain ⟨_, _, _, -, -, rfl⟩ := h
    exact Text.slice_natCast ..
  have hafter : u.after = (u.base.value.take u.stop).drop u.caret := by
    obtain ⟨_, _, _, -, -, rfl⟩ := h
    exact Text.slice_natCast ..
  rw [hbefore, hafter]
  exact Zipper.without_around _ hstart hlength hstop

/-- Its text in place of what it covers is the native text in place of its range. -/
theorem Recast.splice {nativeText : Text} (h : Recast t u nativeText) :
    Opensteer.splice u.base.value u.start u.stop u.text = EditingReduction.finalValue u nativeText := by
  obtain ⟨rawStart, rawEnd, _, -, -, rfl⟩ := h
  unfold compositionText EditingReduction.finalValue
  dsimp only
  rw [Text.slice_natCast, Text.slice_natCast, Text.slice_zero_natCast, Text.sliceFrom_natCast]
  exact splice_widen _ _ (min_le_left _ _) (le_max_left _ _)

/-! ## Without a refusal -/

theorem emit_of_unrefused {operation : EditingOperation} (h : (r.emit operation).refusal = none) :
    r.refusal = none ∧ (r.emits operation = true ∧
      r.emit operation = { r with operations := r.operations ++ [operation] } ∨
        refuses r.state.abilities operation = some none) := by
  unfold EditingReduction.emit EditingReduction.emits at *
  split at h
  · rename_i hnone
    exact ⟨h, .inl ⟨by rw [hnone]; rfl, rfl⟩⟩
  · exact ⟨h, .inr ‹_›⟩
  · cases h

theorem cancel_of_unrefused (h : (r.cancel t).refusal = none) : r.refusal = none := by
  unfold EditingReduction.cancel at h
  split at h
  · exact h
  · split at h
    · exact (emit_of_unrefused h).1
    · exact h

theorem moves_of_unrefused {command : EditingCommand} {n : Nat} (h : (r.moves command n).refusal = none) :
    r.refusal = none ∧ (n = 0 ∨ r.state.abilities.commands = true) ∧
      ∃ commands : List EditingCommand, (r.moves command n).operations = r.operations ++ commands.map .command := by
  induction n generalizing r with
  | zero => exact ⟨h, .inl rfl, [], (List.append_nil _).symm⟩
  | succ n ih =>
    obtain ⟨hunrefused, -, commands, hcommands⟩ := ih h
    obtain ⟨hr, hemit⟩ := emit_of_unrefused hunrefused
    have hability : r.state.abilities.commands = true := by
      rcases hemit with ⟨hemits, -⟩ | hemits
      · simpa [EditingReduction.emits, refuses] using hemits
      · simp [refuses] at hemits
    refine ⟨hr, .inr hability, command :: commands, ?_⟩
    rw [EditingReduction.moves, hcommands]
    rcases hemit with ⟨-, hemit⟩ | hemits
    · rw [hemit]
      exact List.append_assoc ..
    · simp [refuses] at hemits

theorem refuses_edit {abilities : EditingTargetAbilities} {edit : EditingTextEdit} :
    refuses abilities (.edit edit) ≠ some none := by
  unfold refuses
  dsimp only
  split <;> simp

/-- A text is committed by one edit. -/
theorem commit_of_unrefused {context text : Text} (hcontext : t.context = some context) (htext : text ≠ [])
    (hrange : r.state.abilities.rangeEdits = true) (h : (r.commit t text).refusal = none) :
    r.refusal = none ∧
      r.commit t text = { r with operations := r.operations ++ [EditingOperation.edit (t.editOf context text)] } := by
  have hcommit : r.commit t text = r.commitEdit t (t.editOf context text) := by
    unfold EditingReduction.commit
    rw [hcontext]
    exact if_neg htext
  rw [hcommit] at h ⊢
  unfold EditingReduction.commitEdit at h ⊢
  have hedits : ¬(!r.state.abilities.rangeEdits &&
      ((t.editOf context text).before ≠ [] || (t.editOf context text).after ≠ [])) = true := by simp [hrange]
  rw [if_neg hedits] at h ⊢
  split at h
  · rename_i hnot
    obtain ⟨-, hemit⟩ := emit_of_unrefused (cancel_of_unrefused h)
    rcases hemit with ⟨hemits, -⟩ | hemits
    · simp [hemits] at hnot
    · exact (refuses_edit hemits).elim
  · rename_i hnot
    obtain ⟨hr, hemit⟩ := emit_of_unrefused h
    rw [if_neg hnot]
    rcases hemit with ⟨-, hemit⟩ | hemits
    · exact ⟨hr, hemit⟩
    · exact (refuses_edit hemits).elim

/-- A transaction is shown, or the target shows none. -/
theorem publish_of_unrefused {context : Text} (hcontext : t.context = some context)
    (hrange : r.state.abilities.rangeEdits = true) (h : (r.publishComposition t proxy).1.refusal = none) :
    r.refusal = none ∧
      (r.publishComposition t proxy = (r, t) ∨
        r.publishComposition t proxy = ({ r with
          operations := r.operations ++ [EditingOperation.compose (EditingReduction.composeOf t context proxy)] }, { t with sent := true })) := by
  unfold EditingReduction.publishComposition at h ⊢
  rw [hcontext] at h ⊢
  dsimp only at h ⊢
  have hedits : ¬(!r.state.abilities.rangeEdits && (t.before ≠ [] || t.after ≠ [])) = true := by simp [hrange]
  rw [if_neg hedits] at h ⊢
  split at h
  · rename_i hability
    rw [if_pos hability]
    exact ⟨h, .inl rfl⟩
  · rename_i hability
    rw [if_neg hability]
    have hshown : refuses r.state.abilities (.compose (EditingReduction.composeOf t context proxy)) ≠ some none := by
      unfold refuses
      simp only [Bool.not_eq_true, Bool.not_eq_false'] at hability
      simp [hability]
    split at h
    · rename_i hemits
      rw [if_pos hemits]
      obtain ⟨hr, hemit⟩ := emit_of_unrefused h
      rcases hemit with ⟨-, hemit⟩ | hnone
      · exact ⟨hr, .inr (by rw [hemit])⟩
      · exact (hshown hnone).elim
    · rename_i hnot
      obtain ⟨-, hemit⟩ := emit_of_unrefused (cancel_of_unrefused h)
      rcases hemit with ⟨hemits, -⟩ | hnone
      · exact (hnot hemits).elim
      · exact (hshown hnone).elim

/-! ## While a composition is open -/

/-- A transaction after an update of it. -/
def updated (t : Composition) (data : Text) (proxy : EditingProxyState) : Composition :=
  match proxy.markedRange with
  | none => compositionText t t.rawStart t.rawEnd data
  | some marked =>
    (snapshotCompositionRange t.base.value proxy marked.start marked.stop).elim t fun range =>
      compositionText t range.start range.stop range.text

/-- What an event of a composition covers then. -/
def covered (t : Composition) : EditingProxyEvent → Composition
  | .compositionupdate data proxy => updated t data proxy
  | .compositionend data proxy => composingValue t proxy (some data)
  | .input _ _ proxy => composingValue t proxy none
  | _ => t

/-- Once a composition is sent an event covers what the one before it did. -/
def KeepsRange (t : Typing) (event : EditingProxyEvent) : Prop :=
  ∀ c ∈ t.state.composition, c.sent = true →
    (covered c event).start = c.start ∧ (covered c event).stop = c.stop

instance (t : Typing) (event : EditingProxyEvent) : Decidable (KeepsRange t event) :=
  inferInstanceAs (Decidable (∀ c ∈ t.state.composition, _))

/-- The field shows the base, with what the composition covers replaced if it is sent. -/
def Shown (base : Text) (caret : Nat) (operations : List EditingOperation) (c : Composition) : Prop :=
  ∃ f, field.run (.showing base caret) operations = some f ∧
    if c.sent then f.around = ⟨base.take c.start, base.drop c.stop⟩ ∧ f.marked.isSome
    else f = .showing base caret

/-- A composition of a base is open. -/
structure Composes (base : Text) (caret : Nat) (context : Text) (c : Composition) (s : EditingState) : Prop where
  composition : s.composition = some c
  context : c.context = some context
  base : c.base.value = base
  caret : c.caret = caret
  undetached : c.detached = false
  ranged : c.Ranged
  settled : s.resetPending = false
  rangeEdits : s.abilities.rangeEdits = true

theorem Recast.context {nativeText : Text} (h : Recast t u nativeText) : u.context = t.context := by
  rw [Composition.context, h.same.1]
  rfl

/-- What is shown first takes the place of what the transaction covers. -/
theorem fieldStep_compose_first {context nativeText : Text} (h : Recast t u nativeText) (hsent : u.sent = false) :
    fieldStep (.showing u.base.value u.caret) (.compose (EditingReduction.composeOf u context proxy)) =
      some ⟨⟨u.base.value.take u.start, u.base.value.drop u.stop⟩, some u.text⟩ := by
  show ((Zipper.split u.base.value u.caret).without
    ((if u.sent then none else some u.before).getD []) ((if u.sent then none else some u.after).getD [])).map _ = _
  rw [hsent]
  show ((Zipper.split u.base.value u.caret).without u.before u.after).map _ = _
  rw [h.around]
  rfl

theorem fieldStep_compose_next {f : Field} (hmarked : f.marked.isSome) (composition : EditingComposition) :
    fieldStep f (.compose composition) = some { f with marked := some composition.text } := by
  obtain ⟨text, htext⟩ := Option.isSome_iff_exists.mp hmarked
  unfold fieldStep
  dsimp only
  rw [htext]

/-- A transaction that covers what it covered before shows the same, if nothing is sent. -/
theorem Shown.keep {operations : List EditingOperation} {nativeText : Text} (h : Shown base caret operations t)
    (hu : Recast t u nativeText) (hkeeps : t.sent = true → u.start = t.start ∧ u.stop = t.stop) :
    Shown base caret operations u := by
  obtain ⟨f, hrun, hf⟩ := h
  refine ⟨f, hrun, ?_⟩
  rw [hu.same.2.2.2.1]
  split
  · rename_i hsent
    rw [if_pos hsent] at hf
    rw [(hkeeps hsent).1, (hkeeps hsent).2]
    exact hf
  · rename_i hsent
    rw [if_neg hsent] at hf
    exact hf

/-- Or if it is shown. -/
theorem Shown.compose {operations : List EditingOperation} {nativeText context : Text} {c : Composition}
    (h : Shown t.base.value t.caret operations t) (hu : Recast t u nativeText)
    (hkeeps : t.sent = true → u.start = t.start ∧ u.stop = t.stop) (hstart : c.start = u.start) (hstop : c.stop = u.stop)
    (hsent : c.sent = true) :
    Shown t.base.value t.caret (operations ++ [EditingOperation.compose (EditingReduction.composeOf u context proxy)]) c := by
  obtain ⟨f, hrun, hf⟩ := h
  obtain ⟨-, hbase, hcaret, husent, -⟩ := hu.same
  by_cases htsent : t.sent = true
  · rw [if_pos htsent] at hf
    refine ⟨_, field.run_snoc_eq_some.mpr ⟨f, hrun, fieldStep_compose_next hf.2 _⟩, ?_⟩
    rw [if_pos hsent, hstart, hstop, (hkeeps htsent).1, (hkeeps htsent).2]
    exact ⟨hf.1, rfl⟩
  · rw [if_neg htsent] at hf
    have hfirst := (@fieldStep_compose_first _ _ proxy context) hu
      (by rw [husent]; exact Bool.not_eq_true _ ▸ htsent)
    rw [hbase, hcaret] at hfirst
    refine ⟨_, field.run_snoc_eq_some.mpr ⟨f, hrun, hf ▸ hfirst⟩, ?_⟩
    rw [if_pos hsent, hstart, hstop]
    exact ⟨rfl, rfl⟩

/-! ## Each event of a composition -/

section Steps

variable {context : Text} {c : Composition} {s s' : EditingState} {operations : List EditingOperation}
  {event : EditingProxyEvent}

/-- A transaction recast is the composition. -/
theorem Composes.recast {nativeText : Text} (h : Composes base caret context c s) (hu : Recast c u nativeText) {sent : Bool}
    {echo : Option EditingProxyState} (hcomposition : s'.composition = some { u with sent, echo })
    (hsettled : s'.resetPending = s.resetPending) (habilities : s'.abilities = s.abilities) :
    Composes base caret context { u with sent, echo } s' where
  composition := hcomposition
  context := hu.context.trans h.context
  base := (congrArg (·.value) hu.same.2.1).trans h.base
  caret := hu.same.2.2.1.trans h.caret
  undetached := hu.same.2.2.2.2.trans h.undetached
  ranged := ⟨(hu.ranged h.ranged).raw_le, (hu.ranged h.ranged).rawEnd_le, (hu.ranged h.ranged).selection_le,
    (hu.ranged h.ranged).selectionEnd_le⟩
  settled := hsettled.trans h.settled
  rangeEdits := habilities ▸ h.rangeEdits

/-- What a reduction of an event leaves of a composition. -/
def Continues (base : Text) (caret : Nat) (context : Text) (operations : List EditingOperation) (r : EditingReduction) : Prop :=
  ∃ c, Composes base caret context c r.state ∧ Shown base caret (operations ++ r.operations) c

/-- A transaction is published. -/
theorem Composes.publish {nativeText : Text} (h : Composes base caret context c s) (hshown : Shown base caret operations c)
    (hu : Recast c u nativeText) (hkeeps : c.sent = true → u.start = c.start ∧ u.stop = c.stop)
    (hrefusal : (EditingReduction.publishComposition { state := s' } u proxy).1.refusal = none)
    (hsettled : s'.resetPending = s.resetPending) (habilities : s'.abilities = s.abilities) {c' : Composition}
    (hc' : ∃ echo, c' = { (EditingReduction.publishComposition { state := s' } u proxy).2 with echo }) :
    Continues base caret context operations ((EditingReduction.publishComposition { state := s' } u proxy).1.setState
      { (EditingReduction.publishComposition { state := s' } u proxy).1.state with composition := some c' }) := by
  have hrange : s'.abilities.rangeEdits = true := habilities ▸ h.rangeEdits
  obtain ⟨echo, rfl⟩ := hc'
  obtain ⟨-, hpublished⟩ := publish_of_unrefused (hu.context.trans h.context) hrange hrefusal
  rcases hpublished with hpublished | hpublished
  · rw [hpublished]
    refine ⟨_, (@Composes.recast _ _ _ _ _ _ _ _ h hu u.sent) rfl hsettled habilities, ?_⟩
    show Shown base caret (operations ++ []) u
    rw [List.append_nil]
    exact hshown.keep hu hkeeps
  · rw [hpublished]
    refine ⟨_, h.recast hu rfl hsettled habilities, ?_⟩
    obtain ⟨rfl, rfl⟩ := And.intro h.base h.caret
    exact hshown.compose hu hkeeps rfl rfl rfl

theorem exists_echo (c : Composition) (proxy : EditingProxyState) :
    ∃ echo, (if c.sent then { c with echo := some proxy } else c) = { c with echo } := by
  split
  · exact ⟨_, rfl⟩
  · exact ⟨_, rfl⟩

theorem Composes.compositionupdate (h : Composes base caret context c s) (hshown : Shown base caret operations c)
    (hkeeps : c.sent = true → (covered c (.compositionupdate data proxy)).start = c.start ∧
      (covered c (.compositionupdate data proxy)).stop = c.stop)
    (hrefusal : (EditingReduction.compositionupdate { state := s } data proxy).refusal = none) :
    Continues base caret context operations (EditingReduction.compositionupdate { state := s } data proxy) := by
  unfold EditingReduction.compositionupdate at hrefusal ⊢
  rw [show (⟨s, [], {}, none⟩ : EditingReduction).state.composition = some c from h.composition] at hrefusal ⊢
  dsimp only at hrefusal ⊢
  rw [if_neg (by rw [h.undetached]; exact Bool.false_ne_true)] at hrefusal ⊢
  dsimp only [covered] at hkeeps
  unfold updated at hkeeps
  split
  · rename_i marked hmarked
    rw [hmarked] at hrefusal hkeeps
    dsimp only at hrefusal hkeeps
    unfold EditingReduction.markedUpdate at hrefusal ⊢
    split
    · rename_i hnone
      rw [hnone] at hrefusal
      cases cancel_of_unrefused hrefusal
    · rename_i range hrange
      rw [hrange] at hrefusal hkeeps
      obtain ⟨hle, hlength, -⟩ := snapshotCompositionRange_spec hrange
      have hu : Recast c (compositionText c range.start range.stop range.text) range.text :=
        ⟨_, _, _, hle, hlength, rfl⟩
      have hunrefused : (EditingReduction.publishComposition { state := { s with proxy } }
        (compositionText c range.start range.stop range.text) proxy).1.refusal = none := hrefusal
      exact h.publish hshown hu hkeeps hunrefused rfl rfl (exists_echo _ _)
  · rename_i hmarked
    rw [hmarked] at hkeeps
    have hu : Recast c (compositionText c c.rawStart c.rawEnd data) data :=
      ⟨_, _, _, h.ranged.raw_le, h.ranged.rawEnd_le, rfl⟩
    refine ⟨_, (@Composes.recast _ _ _ _ _ _ _ _ h hu _ none) rfl rfl rfl, ?_⟩
    show Shown base caret (operations ++ []) (compositionText c c.rawStart c.rawEnd data)
    rw [List.append_nil]
    exact hshown.keep hu hkeeps

theorem Composes.input (h : Composes base caret context c s) (hshown : Shown base caret operations c)
    {inputType : Text} {composing : Bool}
    (hkeeps : c.sent = true → (composingValue c proxy none).start = c.start ∧ (composingValue c proxy none).stop = c.stop)
    (hrefusal : (EditingReduction.input countGraphemes { state := s } inputType composing proxy).refusal = none) :
    Continues base caret context operations
      (EditingReduction.input countGraphemes { state := s } inputType composing proxy) := by
  have hclosed : ¬c.detached = true := by simp [h.undetached]
  have hinput : EditingReduction.input countGraphemes { state := s } inputType composing proxy =
      EditingReduction.composingInput { state := { s with nativeKey := none, replacement := none } } c proxy :=
    input_of_open (r := { state := s }) h.composition
  rw [hinput] at hrefusal ⊢
  unfold EditingReduction.composingInput at hrefusal ⊢
  rw [if_neg hclosed] at hrefusal ⊢
  dsimp only [EditingReduction.setState] at hrefusal ⊢
  obtain ⟨nativeText, rawStart, rawEnd, echo, hle, hlength, hvalue⟩ := composingValue_recast h.ranged proxy
  have hu : Recast c { composingValue c proxy none with echo := none } nativeText :=
    ⟨rawStart, rawEnd, none, hle, hlength, by rw [hvalue]⟩
  split
  · rename_i hecho
    refine ⟨_, (@Composes.recast _ _ _ _ _ _ _ _ h hu _ none) rfl rfl rfl, ?_⟩
    show Shown base caret (operations ++ []) { composingValue c proxy none with echo := none }
    rw [List.append_nil]
    exact hshown.keep hu hkeeps
  · rename_i hecho
    rw [if_neg hecho] at hrefusal
    exact h.publish hshown hu hkeeps hrefusal rfl rfl ⟨_, rfl⟩

/-! ## Its end -/

/-- The target's caret after the text is committed is in what the proxy shows. -/
theorem Recast.applied_le {nativeText : Text} (h : Recast t u nativeText) :
    u.start + u.text.length ≤ (EditingReduction.finalValue u nativeText).length := by
  rw [← h.splice, Opensteer.splice, List.length_append, List.length_append, List.length_take, min_eq_left h.covers.2.1]
  exact Nat.le_add_right _ _

theorem finalProxy_value (u : Composition) (data : Text) (proxy : EditingProxyState) :
    (EditingReduction.finalProxy u data proxy).value = EditingReduction.finalValue u data := by
  unfold EditingReduction.finalProxy
  split
  · assumption
  · rfl

theorem finalProxy_selectionEnd_le (hu : u.Ranged) (hproper : proxy.selectionEnd ≤ proxy.value.length) :
    (EditingReduction.finalProxy u data proxy).selectionEnd ≤ (EditingReduction.finalValue u data).length := by
  unfold EditingReduction.finalProxy
  split
  · rename_i hvalue
    exact hvalue ▸ hproper
  · show u.rawStart + data.length ≤ _
    rw [EditingReduction.finalValue, Text.slice_zero_natCast, List.length_append, List.length_append, List.length_take,
      min_eq_left (hu.raw_le.trans hu.rawEnd_le)]
    exact Nat.le_add_right _ _

/-- A caret that is moved without a refusal is where it was wanted. -/
theorem missed_of_unrefused (hgraphemes : ∀ text ≠ [], 0 < countGraphemes text) {value : Text} {applied wanted : Nat}
    (happlied : applied ≤ value.length) (hwanted : wanted ≤ value.length)
    (h : (r.move countGraphemes applied wanted value).refusal = none) :
    (r.move countGraphemes applied wanted value).missed applied wanted = r.move countGraphemes applied wanted value := by
  obtain ⟨-, hcommands, -⟩ := moves_of_unrefused h
  refine if_neg fun hmissed => ?_
  rw [EditingReduction.move_state, Bool.and_eq_true, decide_eq_true_eq] at hmissed
  rcases hcommands with hnone | hcommands
  · rw [Text.slice_natCast] at hnone
    refine (hgraphemes _ fun hnil => ?_).ne' hnone
    have hlength := congrArg List.length hnil
    rw [List.length_drop, List.length_take, List.length_nil] at hlength
    omega
  · rw [hcommands] at hmissed
    exact Bool.false_ne_true hmissed.1

/-- The end of a composition that is not refused sends one edit, and commands. -/
theorem commitFinal_of_unrefused (hgraphemes : ∀ text ≠ [], 0 < countGraphemes text) {context : Text}
    (hu : Recast t u data) (hcontext : u.context = some context) (htext : u.text ≠ [])
    (hrange : r.state.abilities.rangeEdits = true)
    (hselection : proxy.selectionEnd ≤ (EditingReduction.finalValue u data).length)
    (h : (r.commitFinal countGraphemes u data proxy).1.refusal = none) :
    (r.commitFinal countGraphemes u data proxy).1.state = r.state ∧ ∃ commands : List EditingCommand,
      (r.commitFinal countGraphemes u data proxy).1.operations =
        r.operations ++ EditingOperation.edit (u.editOf context u.text) :: commands.map .command := by
  unfold EditingReduction.commitFinal at h ⊢
  dsimp only at h ⊢
  split
  · rename_i hcollapsed
    rw [if_pos hcollapsed] at h
    dsimp only at h ⊢
    have hmoved : ((r.commit u u.text).move countGraphemes (u.start + u.text.length) proxy.selectionEnd
        (EditingReduction.finalValue u data)).refusal = none := by
      unfold EditingReduction.missed at h
      split at h
      · exact h
      · exact h
    rw [missed_of_unrefused hgraphemes hu.applied_le hselection hmoved]
    obtain ⟨hunrefused, -, commands, hcommands⟩ := moves_of_unrefused hmoved
    obtain ⟨-, hcommit⟩ := commit_of_unrefused hcontext htext hrange hunrefused
    refine ⟨by rw [EditingReduction.move_state, EditingReduction.commit_state], commands, ?_⟩
    rw [EditingReduction.move, hcommands, hcommit]
    exact List.append_assoc ..
  · rename_i hcollapsed
    rw [if_neg hcollapsed] at h
    obtain ⟨-, hcommit⟩ := commit_of_unrefused hcontext htext hrange h
    refine ⟨EditingReduction.commit_state .., [], ?_⟩
    dsimp only
    rw [hcommit]
    rfl

theorem field_run_commands (f : Field) (commands : List EditingCommand) :
    field.run f (commands.map .command) = some f := by
  induction commands with
  | nil => rfl
  | cons command commands ih => exact ih

/-- The edit that commits leaves the base with its text in place of what is covered. -/
theorem Shown.commit (h : Shown t.base.value t.caret operations t) (hu : Recast t u data)
    (hkeeps : t.sent = true → u.start = t.start ∧ u.stop = t.stop) :
    ∃ f, field.run (.showing t.base.value t.caret) (operations ++ [EditingOperation.edit (u.editOf context u.text)]) = some f ∧
      f.text = EditingReduction.finalValue u data := by
  obtain ⟨f, hrun, hf⟩ := h
  obtain ⟨-, hbase, hcaret, hsent, -⟩ := hu.same
  rw [← hu.splice, hbase]
  by_cases htsent : t.sent = true
  · rw [if_pos htsent] at hf
    obtain ⟨text, htext⟩ := Option.isSome_iff_exists.mp hf.2
    refine ⟨⟨⟨f.around.left ++ u.text, f.around.right⟩, none⟩, field.run_snoc_eq_some.mpr ⟨f, hrun, ?_⟩, ?_⟩
    · show fieldStep f (.edit ⟨context, u.text, if u.sent then [] else u.before, if u.sent then [] else u.after⟩) = _
      rw [hsent, if_pos htsent, if_pos htsent]
      unfold fieldStep
      dsimp only
      rw [htext]
      exact if_pos ⟨rfl, rfl⟩
    · show f.around.left ++ u.text ++ [] ++ f.around.right = _
      rw [hf.1, List.append_nil, (hkeeps htsent).1, (hkeeps htsent).2]
      rfl
  · rw [if_neg htsent] at hf
    have haround := hu.around
    rw [hbase, hcaret] at haround
    refine ⟨⟨⟨t.base.value.take u.start ++ u.text, t.base.value.drop u.stop⟩, none⟩,
      field.run_snoc_eq_some.mpr ⟨f, hrun, ?_⟩, ?_⟩
    · rw [hf]
      show ((Zipper.split t.base.value t.caret).without (if u.sent then [] else u.before)
        (if u.sent then [] else u.after)).map _ = _
      rw [hsent, if_neg htsent, if_neg htsent, haround]
      rfl
    · show t.base.value.take u.start ++ u.text ++ [] ++ t.base.value.drop u.stop = _
      rw [List.append_nil]
      rfl

@[simp] theorem reset_refusal (r : EditingReduction) : r.reset.refusal = r.refusal := by
  unfold EditingReduction.reset
  dsimp only
  split <;> rfl

theorem ended_unrefused {remoteCaret : Nat} (h : (r.ended t proxy remoteCaret).refusal = none) : r.refusal = none := by
  unfold EditingReduction.ended at h
  dsimp only at h
  split at h
  · rw [reset_refusal] at h
    exact h
  · exact h

/-- An end after which nothing is reset. -/
theorem ended_of_settled {remoteCaret : Nat} (hdetached : t.detached = false) (hsettled : r.state.resetPending = false)
    (hrange : r.state.abilities.rangeEdits = true) :
    (r.ended t proxy remoteCaret).operations = r.operations ∧ (r.ended t proxy remoteCaret).state.proxy = proxy := by
  unfold EditingReduction.ended
  dsimp only
  rw [if_neg]
  · exact ⟨rfl, rfl⟩
  · show ¬(t.detached || r.state.resetPending || !r.state.abilities.rangeEdits) = true
    rw [hdetached, hsettled, hrange]
    exact Bool.false_ne_true

theorem Composes.compositionend (hgraphemes : ∀ text ≠ [], 0 < countGraphemes text)
    (h : Composes base caret context c s) (hshown : Shown base caret operations c) (hdata : data ≠ [])
    (hproper : proxy.selectionEnd ≤ proxy.value.length)
    (hkeeps : c.sent = true → (composingValue c proxy (some data)).start = c.start ∧
      (composingValue c proxy (some data)).stop = c.stop)
    (hrefusal : (EditingReduction.compositionend countGraphemes { state := s } data proxy).refusal = none) :
    ∃ f, field.run (.showing base caret)
        (operations ++ (EditingReduction.compositionend countGraphemes { state := s } data proxy).operations) = some f ∧
      f.text = (EditingReduction.compositionend countGraphemes { state := s } data proxy).state.proxy.value := by
  have hu := composingValue_recast_commit h.ranged proxy data
  have hclosed : ¬c.detached = true := by simp [h.undetached]
  unfold EditingReduction.compositionend at hrefusal ⊢
  rw [show (⟨s, [], {}, none⟩ : EditingReduction).state.composition = some c from h.composition] at hrefusal ⊢
  dsimp only at hrefusal ⊢
  rw [if_neg hclosed, if_neg hdata] at hrefusal ⊢
  generalize composingValue c proxy (some data) = u at hu hkeeps hrefusal ⊢
  have htext : u.text ≠ [] := by
    obtain ⟨_, _, _, -, -, rfl⟩ := hu
    simp [compositionText, hdata]
  have hselection := (@finalProxy_selectionEnd_le _ data) (hu.ranged h.ranged) hproper
  obtain ⟨hstate, commands, hoperations⟩ := commitFinal_of_unrefused (r := { state := s }) hgraphemes hu
    (hu.context.trans h.context) htext h.rangeEdits hselection (ended_unrefused hrefusal)
  obtain ⟨hended, hproxy⟩ := (@ended_of_settled (EditingReduction.commitFinal countGraphemes { state := s } u data
    (EditingReduction.finalProxy u data proxy)).1 c (EditingReduction.finalProxy u data proxy)) h.undetached
    (hstate ▸ h.settled) (hstate ▸ h.rangeEdits)
  rw [hended, hproxy, hoperations, finalProxy_value]
  obtain ⟨rfl, rfl⟩ := And.intro h.base h.caret
  obtain ⟨f, hrun, hf⟩ := (@Shown.commit _ _ _ context) hshown hu hkeeps
  refine ⟨f, ?_, hf⟩
  rw [List.nil_append, ← List.singleton_append, ← List.append_assoc]
  exact field.run_append_eq_some.mpr ⟨f, hrun, field_run_commands f commands⟩

/-! ## Whole compositions -/

/-- A composition can be opened: there is a field to send it to, and none that was interrupted is still open. -/
structure Opens (context : Text) (s : EditingState) : Prop where
  named : context ≠ []
  focused : s.context.map (·.contextId) = some context
  undetached : s.composition.any (·.detached) = false
  rangeEdits : s.abilities.rangeEdits = true

instance (context : Text) (s : EditingState) : Decidable (Opens context s) :=
  decidable_of_iff (context ≠ [] ∧ s.context.map (·.contextId) = some context ∧
      s.composition.any (·.detached) = false ∧ s.abilities.rangeEdits = true)
    ⟨fun h => ⟨h.1, h.2.1, h.2.2.1, h.2.2.2⟩, fun h => ⟨h.named, h.focused, h.undetached, h.rangeEdits⟩⟩

/-- What the proxy shows when a composition starts: a key that is sent already may not be echoed yet. -/
def EditingState.shown (s : EditingState) : Text := (s.pendingEcho.getD s.proxy).value

/-- An event while a composition goes on. -/
def EditingProxyEvent.updates : EditingProxyEvent → Bool
  | .compositionupdate .. | .input .. => true
  | _ => false

theorem Opens.compositionstart (h : Opens context s) (hrested : Rested s) (hselection : proxy.selectionStart ≤ proxy.selectionEnd) :
    Continues s.shown s.caret context [] (EditingReduction.compositionstart { state := s } proxy) := by
  have hsettled : s.resetPending = false := by
    refine Bool.eq_false_iff.mpr fun hpending => ?_
    obtain ⟨c, hc, hdetached⟩ := hrested.detached hpending
    have hundetached := h.undetached
    rw [hc, Option.any_some, hdetached] at hundetached
    cases hundetached
  unfold EditingReduction.compositionstart
  rw [if_neg (by rw [h.undetached]; exact Bool.false_ne_true)]
  dsimp only
  generalize hstart : min (s.pendingEcho.getD s.proxy).value.length _ = start
  generalize hstop : min (s.pendingEcho.getD s.proxy).value.length _ = stop
  have hle : start ≤ stop := by
    rw [← hstart, ← hstop]
    exact min_le_min_left _ (hrested.selection_le hselection)
  have hstop' : stop ≤ s.shown.length := hstop ▸ min_le_left ..
  refine ⟨_, ⟨rfl, ?_, rfl, rfl, rfl, ⟨hle, hstop', hle, hstop'⟩, hsettled, h.rangeEdits⟩, ?_⟩
  · show (s.context.map (·.contextId)).filter (· ≠ []) = some context
    rw [h.focused]
    simp [Option.filter, h.named]
  · exact ⟨_, rfl, rfl⟩

/-- A composition is open, and is shown as far as it was sent. -/
def Open (base : Text) (caret : Nat) (context : Text) (t : Typing) : Prop :=
  ∃ c, Composes base caret context c t.state ∧ Shown base caret t.operations c

theorem unrefused_step_eq_some {t u : Typing} : (unrefused countGraphemes).step t event = some u ↔
    (reduceEditing countGraphemes t.state event).refusal = none ∧
      u = ⟨(reduceEditing countGraphemes t.state event).state,
        t.operations ++ (reduceEditing countGraphemes t.state event).operations⟩ := by
  unfold unrefused
  dsimp only
  split
  · rename_i hrefusal
    exact ⟨fun h => ⟨hrefusal, (Option.some.inj h).symm⟩, fun h => congrArg some h.2.symm⟩
  · rename_i hrefusal
    exact ⟨fun h => (nomatch h), fun h => (hrefusal h.1).elim⟩

/-- An update that covers what is covered is shown. -/
theorem Open.step {t u : Typing} (h : Open base caret context t) (hupdates : event.updates = true) (hkeeps : KeepsRange t event)
    (hstep : (unrefused countGraphemes).step t event = some u) : Open base caret context u := by
  obtain ⟨c, hc, hshown⟩ := h
  obtain ⟨hrefusal, rfl⟩ := unrefused_step_eq_some.mp hstep
  have hkept := hkeeps c hc.composition
  cases event with
  | compositionupdate data proxy => exact hc.compositionupdate hshown hkept hrefusal
  | input inputType composing proxy => exact hc.input hshown hkept hrefusal
  | _ => cases hupdates

theorem Open.run {t u : Typing} {events : List EditingProxyEvent} (h : Open base caret context t)
    (hupdates : ∀ event ∈ events, event.updates = true) (hmeets : (unrefused countGraphemes).Meets KeepsRange t events)
    (hrun : (unrefused countGraphemes).run t events = some u) : Open base caret context u := by
  refine (unrefused countGraphemes).run_induction
    (P := fun events u => (∀ event ∈ events, event.updates = true) → Open base caret context u) (fun _ => h) ?_
    hmeets hrun hupdates
  intro events t event u _ ht hkeeps hstep hupdates
  exact (ht fun event hmem => hupdates event (List.mem_append_left _ hmem)).step
    (hupdates event (List.mem_append_right _ (List.mem_singleton_self event))) hkeeps hstep

end Steps

/-- After any events, a composition that is opened in a field, updated, and ended with a text, without a
refusal: if after it is sent no event covers another part of the base, the operations make of the field
what the proxy shows. -/
theorem composed_text (hgraphemes : ∀ text ≠ [], 0 < countGraphemes text) {platform : EditingViewerPlatform}
    {abilities : EditingTargetAbilities} {events : List EditingProxyEvent} {s : EditingState}
    (hs : (machine countGraphemes).run (createEditingState platform abilities) events = some s) {context : Text}
    (hopens : Opens context s) {first last : EditingProxyState} (hfirst : first.selectionStart ≤ first.selectionEnd)
    (hlast : last.selectionEnd ≤ last.value.length) {updates : List EditingProxyEvent}
    (hupdates : ∀ event ∈ updates, event.updates = true) (hdata : data ≠ []) {t : Typing}
    (hmeets : (unrefused countGraphemes).Meets KeepsRange ⟨s, []⟩
      (.compositionstart first :: (updates ++ [EditingProxyEvent.compositionend data last])))
    (hrun : (unrefused countGraphemes).run ⟨s, []⟩ (.compositionstart first :: (updates ++ [EditingProxyEvent.compositionend data last])) =
      some t) :
    ∃ f, field.run (.showing s.shown s.caret) t.operations = some f ∧ f.text = t.state.proxy.value := by
  obtain ⟨started, hstart, hrest⟩ := (unrefused countGraphemes).run_cons_eq_some.mp hrun
  obtain ⟨before, hbefore, hend⟩ := (unrefused countGraphemes).run_snoc_eq_some.mp hrest
  obtain ⟨hmeets, hkeeps⟩ := (unrefused countGraphemes).meets_snoc hbefore (hmeets.2 started hstart)
  have hopen : Open s.shown s.caret context started := by
    obtain ⟨-, rfl⟩ := unrefused_step_eq_some.mp hstart
    exact hopens.compositionstart (rested_run hs) hfirst
  obtain ⟨c, hc, hshown⟩ := hopen.run hupdates hmeets hbefore
  obtain ⟨hrefusal, rfl⟩ := unrefused_step_eq_some.mp hend
  exact hc.compositionend hgraphemes hshown hdata hlast (hkeeps c hc.composition) hrefusal

/-- A field in which a word stands. -/
def typed : List EditingProxyEvent :=
  [.context (some ⟨units "field", true⟩), .input (units "insertText") false ⟨units "hello", 5, 5, none⟩]

/-- Two letters are composed after the word. -/
def appending : List EditingProxyEvent :=
  [.compositionupdate (units "x") ⟨units "hellox", 6, 6, some ⟨5, 6⟩⟩,
    .input (units "insertCompositionText") true ⟨units "hellox", 6, 6, none⟩,
    .input (units "insertCompositionText") true ⟨units "helloxy", 7, 7, some ⟨5, 7⟩⟩]

theorem composed_text_appending : ∃ s, (machine List.length).run (createEditingState .mac fullPage) typed = some s ∧
    ∃ t, (unrefused List.length).run ⟨s, []⟩ (.compositionstart ⟨units "hello", 5, 5, none⟩ ::
      (appending ++ [EditingProxyEvent.compositionend (units "xyz") ⟨units "helloxyz", 8, 8, none⟩])) = some t ∧
    t.operations.length = 3 ∧
    ∃ f, field.run (.showing s.shown s.caret) t.operations = some f ∧ f.text = t.state.proxy.value := by
  obtain ⟨s, hs, hopens, hmeets, hcomposed⟩ := (machine List.length).exists_run_of_any
    (s := createEditingState .mac fullPage) (l := typed)
    (P := fun s => Opens (units "field") s ∧
      (unrefused List.length).Meets KeepsRange ⟨s, []⟩ (.compositionstart ⟨units "hello", 5, 5, none⟩ ::
        (appending ++ [EditingProxyEvent.compositionend (units "xyz") ⟨units "helloxyz", 8, 8, none⟩])) ∧
      ((unrefused List.length).run ⟨s, []⟩ (.compositionstart ⟨units "hello", 5, 5, none⟩ ::
        (appending ++ [EditingProxyEvent.compositionend (units "xyz") ⟨units "helloxyz", 8, 8, none⟩]))).any
          (fun t => t.operations.length = 3) = true) (by decide +kernel)
  obtain ⟨t, ht, hlength⟩ := (unrefused List.length).exists_run_of_any hcomposed
  exact ⟨s, hs, t, ht, hlength, composed_text (fun _ => List.length_pos_of_ne_nil) hs hopens (le_refl 5) (le_refl 8)
    (by decide) (by decide) hmeets ht⟩

/-- A letter is composed after the word, and then takes the place of the word's last one as well. -/
def growing : List EditingProxyEvent :=
  [.input (units "insertCompositionText") true ⟨units "hellox", 6, 6, none⟩,
    .input (units "insertCompositionText") true ⟨units "helly", 5, 5, some ⟨4, 5⟩⟩]

theorem not_composed_growing : ∃ s, (machine List.length).run (createEditingState .mac fullPage) typed = some s ∧
    Opens (units "field") s ∧ s.shown = units "hello" ∧
    ∃ t, (unrefused List.length).run ⟨s, []⟩ (.compositionstart ⟨units "hello", 5, 5, none⟩ ::
      (growing ++ [EditingProxyEvent.compositionend (units "y") ⟨units "helly", 5, 5, none⟩])) = some t ∧
    t.state.proxy.value = units "helly" ∧
    ∃ f, field.run (.showing s.shown s.caret) t.operations = some f ∧ f.text = units "helloy" := by
  obtain ⟨s, hs, hopens, hshown, hcomposed⟩ := (machine List.length).exists_run_of_any
    (s := createEditingState .mac fullPage) (l := typed)
    (P := fun s => Opens (units "field") s ∧ s.shown = units "hello" ∧
      ((unrefused List.length).run ⟨s, []⟩ (.compositionstart ⟨units "hello", 5, 5, none⟩ ::
        (growing ++ [EditingProxyEvent.compositionend (units "y") ⟨units "helly", 5, 5, none⟩]))).any
          (fun t => t.state.proxy.value = units "helly" ∧
            (field.run (.showing s.shown s.caret) t.operations).any (fun f => f.text = units "helloy") = true) = true)
    (by decide +kernel)
  obtain ⟨t, ht, hproxy, hfield⟩ := (unrefused List.length).exists_run_of_any hcomposed
  exact ⟨s, hs, hopens, hshown, t, ht, hproxy, (field.exists_run_of_any hfield)⟩

end Opensteer.Editing
