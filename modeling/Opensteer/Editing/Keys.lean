import Opensteer.Editing.Writes
import Opensteer.Framework.Tally

/-!
# The keys down at the target

The target's keyboard takes the keys that are sent (`keyboard`), and cannot take one up that is not down.
A write keeps the keys that the reducer holds those down at the target (`Held.writes`), unless it is a
soft Return sent while a key of the identity of Return is held: the reducer looks for the key `Enter`,
where it holds keys by their code. So they are the same in every run in which no such Return is sent, and
only in these (`held_iff`).
-/

namespace Opensteer.Editing

variable {countGraphemes : Text → Nat} {r t : EditingReduction} {key : EditingKeyState} {held : Finset Text}

/-- The keys down after an operation. -/
def keyStep (held : Finset Text) : EditingOperation → Option (Finset Text)
  | .key k => match k.action with
    | .down => some (Insert.insert k.identity held)
    | .up => if k.identity ∈ held then some (held.erase k.identity) else none
  | _ => some held

def keyboard : Machine (Finset Text) EditingOperation := ⟨keyStep⟩

/-- A reducer, and all that it has sent. -/
structure Typing where
  state : EditingState
  operations : List EditingOperation
deriving DecidableEq

def typing (countGraphemes : Text → Nat) : Machine Typing EditingProxyEvent :=
  ⟨fun t event =>
    let r := reduceEditing countGraphemes t.state event
    some ⟨r.state, t.operations ++ r.operations⟩⟩

def fresh (platform : EditingViewerPlatform) (abilities : EditingTargetAbilities) : Typing :=
  ⟨createEditingState platform abilities, []⟩

/-- The identities of the keys that the reducer holds. -/
def heldKeys (state : EditingState) : List Text := state.down.map EditingKeyState.identity

/-- The target has taken all that was sent, and the keys down there are those that the reducer holds, each
held once. -/
def Typing.Same (t : Typing) : Prop :=
  ∃ held, keyboard.run ∅ t.operations = some held ∧ IsKeySet held (heldKeys t.state)

/-- No soft Return is sent while a key of its identity is held. -/
def NoReturnHeld (t : Typing) (event : EditingProxyEvent) : Prop :=
  SendsReturn t.state event → units "Enter" ∉ heldKeys t.state

/-! ## What a write does to the keys -/

/-- From the keys that were down before a reduction those that it holds come to be down. -/
def Held (before : Finset Text) (r : EditingReduction) : Prop :=
  ∃ held, keyboard.run before r.operations = some held ∧ IsKeySet held (heldKeys r.state)

theorem emit_key (r : EditingReduction) (k : EditingKeystroke) :
    (r.emit (.key k)).operations = r.operations ++ [EditingOperation.key k] := rfl

theorem keyStep_down {k : EditingKeystroke} (h : k.action = .down) (held : Finset Text) :
    keyStep held (.key k) = some (Insert.insert k.identity held) := by
  rw [keyStep, h]

theorem keyStep_up {k : EditingKeystroke} (h : k.action = .up) (hheld : k.identity ∈ held) :
    keyStep held (.key k) = some (held.erase k.identity) := by
  rw [keyStep, h]
  exact if_pos hheld

theorem keyStep_other {operation : EditingOperation} (h : operation.isKey = false) (held : Finset Text) :
    keyStep held operation = some held := by
  cases operation with
  | key => cases h
  | _ => rfl

theorem heldKeys_holding (down : List EditingKeyState) (key : EditingKeyState) :
    (holding down key).map EditingKeyState.identity =
      if key.identity ∈ down.map EditingKeyState.identity then down.map EditingKeyState.identity
      else down.map EditingKeyState.identity ++ [key.identity] := by
  have hany : (down.any fun held => held.identity = key.identity) = true ↔
      key.identity ∈ down.map EditingKeyState.identity := by
    simp [List.any_eq_true]
  unfold holding
  by_cases hheld : key.identity ∈ down.map EditingKeyState.identity
  · rw [if_pos (hany.mpr hheld), if_pos hheld]
  · rw [if_neg (fun h => hheld (hany.mp h)), if_neg hheld, List.map_append, List.map_singleton]

theorem heldKeys_filter (down : List EditingKeyState) (identity : Text) :
    (down.filter fun held => held.identity ≠ identity).map EditingKeyState.identity =
      (down.map EditingKeyState.identity).filter (· ≠ identity) := by
  rw [List.filter_map]
  rfl

namespace Held

variable {before : Finset Text} {k : EditingKeystroke} {s : EditingState}

theorem emit (h : Held before r) {operation : EditingOperation} (hkey : operation.isKey = false) :
    Held before (r.emit operation) := by
  obtain ⟨held, hrun, hset⟩ := h
  unfold EditingReduction.emit
  split
  · exact ⟨held, keyboard.run_snoc_eq_some.mpr ⟨held, hrun, keyStep_other hkey held⟩, hset⟩
  · exact ⟨held, hrun, hset⟩
  · exact ⟨held, hrun, hset⟩

theorem press (h : Held before r) (hdown : s.down = holding r.state.down key) (haction : k.action = .down)
    (hidentity : k.identity = key.identity) : Held before ((r.emit (.key k)).setState s) := by
  obtain ⟨held, hrun, hset⟩ := h
  refine ⟨_, keyboard.run_snoc_eq_some.mpr ⟨held, hrun, keyStep_down haction held⟩, ?_⟩
  have hheld : heldKeys s = _ := (congrArg _ hdown).trans (heldKeys_holding r.state.down key)
  change IsKeySet _ (heldKeys s)
  rw [hheld, hidentity]
  convert hset.hold key.identity using 2 <;> rfl

theorem release (h : Held before r) (hheld : r.state.down.any fun held => held.identity = key.identity)
    (hdown : s.down = r.state.down.filter fun held => held.identity ≠ key.identity) (haction : k.action = .up)
    (hidentity : k.identity = key.identity) : Held before ((r.emit (.key k)).setState s) := by
  obtain ⟨held, hrun, hset⟩ := h
  have hmem : k.identity ∈ held := by
    obtain ⟨x, hx, hkey⟩ := List.any_eq_true.mp hheld
    rw [hset.mem_iff, hidentity]
    exact List.mem_map.mpr ⟨x, hx, of_decide_eq_true hkey⟩
  refine ⟨_, keyboard.run_snoc_eq_some.mpr ⟨held, hrun, keyStep_up haction hmem⟩, ?_⟩
  have hrest : heldKeys s = _ := (congrArg _ hdown).trans (heldKeys_filter r.state.down key.identity)
  change IsKeySet _ (heldKeys s)
  rw [hrest, hidentity]
  exact hset.drop key.identity

/-- Every key that is down is sent up, and no key is down. -/
theorem releaseKeys {keys : List EditingKeyState} (hrun : keyboard.run before r.operations = some held)
    (hset : IsKeySet held (keys.map EditingKeyState.identity)) :
    keyboard.run before (r.releaseKeys keys).operations = some ∅ := by
  induction keys generalizing r held with
  | nil =>
    rw [hset.eq] at hrun
    exact hrun
  | cons key keys ih =>
    have hmem : (releasedKey key).identity ∈ held := hset.mem_iff.mpr List.mem_cons_self
    refine ih (keyboard.run_snoc_eq_some.mpr ⟨held, hrun, keyStep_up rfl hmem⟩) ?_
    exact hset.erase

theorem blur (h : Held before r) (hdown : s.down = []) :
    Held before ((r.releaseKeys r.state.down).setState s) := by
  obtain ⟨held, hrun, hset⟩ := h
  refine ⟨∅, releaseKeys hrun hset, ?_⟩
  change IsKeySet ∅ (s.down.map EditingKeyState.identity)
  rw [hdown]
  exact .nil

/-- A soft Return, while no key of its identity is down. -/
theorem softReturn (h : Held before r) (hnot : units "Enter" ∉ heldKeys r.state) :
    Held before ((r.emit (.key (softReturnKey .down))).emit (.key (softReturnKey .up))) := by
  obtain ⟨held, hrun, hset⟩ := h
  have hdown : keyboard.run before (r.emit (.key (softReturnKey .down))).operations =
      some (Insert.insert (units "Enter") held) :=
    keyboard.run_snoc_eq_some.mpr ⟨held, hrun, rfl⟩
  refine ⟨(Insert.insert (units "Enter") held).erase (units "Enter"), ?_, ?_⟩
  · exact keyboard.run_snoc_eq_some.mpr ⟨_, hdown, keyStep_up (k := softReturnKey .up) rfl (Finset.mem_insert_self _ _)⟩
  · rw [Finset.erase_insert fun hmem => hnot (hset.mem_iff.mp hmem)]
    exact hset

theorem writes (h : Held before r) (hwrites : Writes (fun down => units "Enter" ∉ down.map EditingKeyState.identity) r t) :
    Held before t := by
  induction hwrites with
  | refl => exact h
  | @setState u s _ _ hdown ih =>
    obtain ⟨held, hrun, hset⟩ := ih
    refine ⟨held, hrun, ?_⟩
    change IsKeySet held (s.down.map EditingKeyState.identity)
    rw [hdown]
    exact hset
  | @clear u s _ _ hdown _ ih =>
    obtain ⟨held, hrun, hset⟩ := ih
    refine ⟨held, hrun, ?_⟩
    change IsKeySet held (s.down.map EditingKeyState.identity)
    rw [hdown]
    exact hset
  | prevent _ ih => exact ih
  | refuse _ _ ih => exact ih
  | emit _ _ hkey _ ih => exact ih.emit hkey
  | press _ _ hdown haction hidentity ih => exact ih.press hdown haction hidentity
  | release _ _ hheld hdown haction hidentity ih => exact ih.release hheld hdown haction hidentity
  | blur _ _ hdown ih => exact ih.blur hdown
  | softReturn _ hsoft ih => exact ih.softReturn hsoft

end Held

/-! ## A soft Return while its key is held -/

/-- A soft Return is sent, and changes no key that the reducer holds. -/
theorem softReturn_sends {before : Bool} (h : r.state.sendsReturn before = true) :
    (r.softReturn before).operations =
      r.operations ++ [EditingOperation.key (softReturnKey .down), .key (softReturnKey .up)] ∧
      (r.softReturn before).state.down = r.state.down := by
  unfold EditingReduction.softReturn
  rw [if_pos h]
  unfold EditingReduction.reset
  dsimp only
  split
  · exact ⟨List.append_assoc .., rfl⟩
  · exact ⟨List.append_assoc .., rfl⟩

theorem reduceEditing_return {s : EditingState} {event : EditingProxyEvent} (h : SendsReturn s event) :
    (reduceEditing countGraphemes s event).operations = [.key (softReturnKey .down), .key (softReturnKey .up)] ∧
      (reduceEditing countGraphemes s event).state.down = s.down := by
  cases event with
  | beforeinput inputType data =>
    obtain ⟨hnone, hreturn, hsends⟩ := h
    have hclosed : ¬s.composition.isSome = true := by simp [hnone]
    unfold reduceEditing EditingReduction.beforeinput
    dsimp only [EditingReduction.setState]
    rw [if_neg hclosed, if_pos hreturn, nativeKeyInput_of_return hreturn]
    exact softReturn_sends hsends
  | input inputType composing proxy =>
    obtain ⟨hnone, rfl, hreturn, hsends⟩ := h
    unfold reduceEditing EditingReduction.input
    dsimp only
    rw [confirmKey_of_return hreturn]
    split
    · rename_i hopen
      cases hnone.symm.trans hopen
    · rw [if_neg Bool.false_ne_true]
      unfold EditingReduction.settledInput
      rw [if_pos hreturn]
      exact softReturn_sends hsends
  | _ => exact h.elim

/-! ## Whole runs -/

variable {s u : Typing} {event : EditingProxyEvent}

theorem Typing.Same.step (h : s.Same) (hreturn : NoReturnHeld s event)
    (hstep : (typing countGraphemes).step s event = some u) : u.Same := by
  obtain ⟨held, hrun, hset⟩ := h
  obtain rfl := Option.some.inj hstep
  have hfirst : Held held { state := s.state } := ⟨held, rfl, hset⟩
  obtain ⟨held', hrun', hset'⟩ := hfirst.writes (Writes.reduceEditing s.state event hreturn)
  exact ⟨held', keyboard.run_append_eq_some.mpr ⟨held, hrun, hrun'⟩, hset'⟩

/-- A soft Return while a key of its identity is held takes that key up at the target. -/
theorem Typing.Same.not_step (h : s.Same) (hsends : SendsReturn s.state event) (hmem : units "Enter" ∈ heldKeys s.state)
    (hstep : (typing countGraphemes).step s event = some u) : ¬u.Same := by
  obtain ⟨held, hrun, hset⟩ := h
  obtain rfl := Option.some.inj hstep
  obtain ⟨hoperations, hdown⟩ := (@reduceEditing_return countGraphemes) hsends
  rintro ⟨held', hrun', hset'⟩
  obtain ⟨v, hv, hrun'⟩ := keyboard.run_append_eq_some.mp hrun'
  obtain rfl := Option.some.inj (hrun.symm.trans hv)
  rw [hoperations] at hrun'
  have hup : keyboard.run held [.key (softReturnKey .down), .key (softReturnKey .up)] =
      some ((Insert.insert (units "Enter") held).erase (units "Enter")) :=
    keyboard.run_cons_eq_some.mpr ⟨_, rfl, keyboard.run_cons_eq_some.mpr
      ⟨_, keyStep_up (k := softReturnKey .up) rfl (Finset.mem_insert_self _ _), rfl⟩⟩
  obtain rfl := Option.some.inj (hup.symm.trans hrun')
  have hkeys : heldKeys (reduceEditing countGraphemes s.state event).state = heldKeys s.state :=
    congrArg (List.map EditingKeyState.identity) hdown
  have habsent := (hset'.mem_iff (k := units "Enter")).mpr (hkeys ▸ hmem)
  exact Finset.notMem_erase _ _ habsent

theorem typing_isSome (s : Typing) (events : List EditingProxyEvent) :
    ∃ u, (typing countGraphemes).run s events = some u := by
  induction events generalizing s with
  | nil => exact ⟨s, rfl⟩
  | cons event events ih => exact ih _

/-- The target has taken all that was sent, its keys down are those that the reducer holds, and none is
down after a blur. -/
def Typing.Balanced (t : Typing) (last : Option EditingProxyEvent) : Prop :=
  ∃ held, keyboard.run ∅ t.operations = some held ∧ IsKeySet held (heldKeys t.state) ∧ (last = some .blur → held = ∅)

theorem Typing.Balanced.same {last : Option EditingProxyEvent} (h : s.Balanced last) : s.Same := by
  obtain ⟨held, hrun, hset, -⟩ := h
  exact ⟨held, hrun, hset⟩

theorem Typing.Same.balanced (h : u.Same) (hstep : (typing countGraphemes).step s event = some u) :
    u.Balanced (some event) := by
  obtain ⟨held, hrun, hset⟩ := h
  refine ⟨held, hrun, hset, fun hblur => ?_⟩
  obtain rfl := Option.some.inj hblur
  obtain rfl := Option.some.inj hstep
  exact hset.eq

/-- Every prefix of a run leaves the target with the keys that the reducer holds, if and only if no step of it
sends a soft Return while a key of its identity is held. -/
theorem held_iff (countGraphemes : Text → Nat) (platform : EditingViewerPlatform) (abilities : EditingTargetAbilities)
    (events : List EditingProxyEvent) :
    (∀ before t, before <+: events → (typing countGraphemes).run (fresh platform abilities) before = some t →
      t.Balanced before.getLast?) ↔
      (typing countGraphemes).Meets NoReturnHeld (fresh platform abilities) events := by
  induction events using List.reverseRecOn with
  | nil =>
    refine iff_of_true (fun before t hbefore hrun => ?_) trivial
    obtain rfl := List.prefix_nil.mp hbefore
    obtain rfl := Option.some.inj hrun
    exact ⟨∅, rfl, .nil, fun h => (nomatch h)⟩
  | append_singleton events event ih =>
    obtain ⟨t, ht⟩ := (@typing_isSome countGraphemes) (fresh platform abilities) events
    obtain ⟨u, hu⟩ : ∃ u, (typing countGraphemes).step t event = some u := ⟨_, rfl⟩
    rw [(typing countGraphemes).meets_snoc_iff ht, ← ih]
    constructor
    · intro hall
      refine ⟨fun before s hbefore => hall before s (hbefore.trans (List.prefix_append _ _)), fun hsends hmem => ?_⟩
      have hsame := (hall events t (List.prefix_append _ _) ht).same
      exact hsame.not_step hsends hmem hu (hall _ u List.prefix_rfl
        ((typing countGraphemes).run_snoc_eq_some.mpr ⟨t, ht, hu⟩)).same
    · rintro ⟨hall, hreturn⟩ before s hbefore hrun
      rcases List.prefix_concat_iff.mp hbefore with rfl | hbefore
      · obtain ⟨v, hv, hstep⟩ := (typing countGraphemes).run_snoc_eq_some.mp hrun
        obtain rfl := Option.some.inj (ht.symm.trans hv)
        rw [List.getLast?_concat]
        exact ((hall events t List.prefix_rfl ht).same.step hreturn hstep).balanced hstep
      · exact hall before s hbefore hrun

/-- A page that takes everything. -/
def fullPage : EditingTargetAbilities := ⟨true, true, true, .full⟩

/-- The key of the code of Return, where a layout makes it a Tab. -/
def tabOnReturn : EditingKeyState := ⟨units "Tab", units "Enter", false, false, false, false, false, 0, false, false⟩

/-- While the key is held a line break comes from elsewhere; then it is let go of. -/
theorem not_held_tabOnReturn : ∃ t, (typing List.length).run (fresh .linux fullPage)
    [.keydown tabOnReturn, .beforeinput (units "insertLineBreak") none, .keyup tabOnReturn] = some t ∧
      keyboard.run ∅ t.operations = none :=
  (typing List.length).exists_run_of_any (by decide +kernel)

end Opensteer.Editing
