import Opensteer.Framework.Machine

/-!
# Finger input to a streamed browser

`createBrowserTouchGesture`: what a finger does to the page is told by one held contact in one of
four modes, a timer that turns a still contact into a menu, and a fling that runs in animation
frames after a release. `performance.now()` and the answers of the surroundings come with each
event (`Answers`): within one event `usable` and `wheel` are asked at most once and `pointer` at
most once for an action.

What the page was told is the list of outputs. `Pressed.next` is what the other end makes of it, and
`followed` what that says of each button that went down; `Silent` is that a gesture has been
cancelled for good.
-/

namespace Opensteer.BrowserTouch

inductive Platform
  | ios
  | android
deriving DecidableEq, Repr

inductive Action
  | down
  | move
  | up
deriving DecidableEq, Repr

inductive Button
  | left
  | right
  | none
deriving DecidableEq, Repr

inductive Mode
  | tap
  | scroll
  | menu
  | drag
deriving DecidableEq, Repr

structure TouchStart (Point : Type) where
  point : Point
  x : Float
  y : Float
  scale : Float
  drag : Bool

structure Held (Point : Type) extends TouchStart Point where
  lastPoint : Point
  lastX : Float
  lastY : Float
  time : Float
  mode : Mode
  vx : Float := 0
  vy : Float := 0

/-- What the frames of a fling go on from. -/
structure Fling (Point : Type) where
  point : Point
  vx : Float
  vy : Float
  speed : Float
  bound : Float
  epoch : Nat
  start : Float
  previous : Float

inductive Output (Point : Type)
  | pointer (point : Point) (action : Action) (button : Button) (accepted : Bool)
  | wheel (point : Point) (dx dy : Float) (accepted : Bool)
  | cancelPointer (point : Point)
  | contact (shown : Option (Float × Float))
  | onTap
  | onScroll
  | onDragEnd

/-- The frames are those that are scheduled, each with its handle; `stopFrame` is the handle that
would be stopped. -/
structure Gesture (Point : Type) where
  held : Option (Held Point) := none
  blocked : Bool := false
  generation : Nat := 0
  longPress : Bool := false
  stopFrame : Option Nat := none
  frames : List (Nat × Fling Point) := []
  nextFrame : Nat := 0
  outputs : List (Output Point) := []

structure Answers (Point : Type) where
  usable : Bool
  pointer : Point → Action → Button → Bool
  wheel : Point → Float → Float → Bool
  now : Float
  /-- The reading after `now`. -/
  later : Float

inductive Event (Point : Type)
  | cancel
  | contacts (count : Int)
  | start (start : TouchStart Point) (answers : Answers Point)
  | move (point : Point) (x y : Float) (answers : Answers Point)
  | release (answers : Answers Point)
  | longPress (answers : Answers Point)
  | frame (handle : Nat) (answers : Answers Point)

variable {Point : Type}

namespace Gesture

variable (g : Gesture Point) (answers : Answers Point)

def emit (output : Output Point) : Gesture Point := { g with outputs := g.outputs ++ [output] }

/-- `options.pointer`, whose answer is `answers.pointer`. -/
def pointer (point : Point) (action : Action) (button : Button) : Gesture Point :=
  g.emit (.pointer point action button (answers.pointer point action button))

def wheel (point : Point) (dx dy : Float) : Gesture Point :=
  g.emit (.wheel point dx dy (answers.wheel point dx dy))

def stopLongPress : Gesture Point := { g with longPress := false }

/-- `stopFrame?.()` -/
def stopFrames : Gesture Point :=
  { g with frames := g.frames.filter fun frame => some frame.1 ≠ g.stopFrame, stopFrame := none }

/-- What is told when a contact is given up. -/
def letGo (previous : Option (Held Point)) : Gesture Point :=
  match previous with
  | some held =>
    if held.mode = .drag then (g.emit (.cancelPointer held.lastPoint)).emit .onDragEnd else g
  | none => g

def cancel : Gesture Point :=
  let g := { g with generation := g.generation + 1 }.stopLongPress.stopFrames
  let previous := g.held
  let g := { g with held := none }.emit (.contact none)
  g.letGo previous

def click (point : Point) (button : Button) : Gesture Point × Bool :=
  let g := g.pointer answers point .down button
  if answers.pointer point .down button then
    let g := g.pointer answers point .up button
    if answers.pointer point .up button then (g, true)
    else (g.emit (.cancelPointer point), false)
  else (g, false)

def schedule (fling : Fling Point) : Gesture Point :=
  { g with
    frames := g.frames ++ [(g.nextFrame, fling)], stopFrame := some g.nextFrame,
    nextFrame := g.nextFrame + 1 }

def hypot (x y : Float) : Float := Float.sqrt (x * x + y * y)

def least (x y : Float) : Float := if x < y then x else y

def greatest (x y : Float) : Float := if x < y then y else x

def fling (point : Point) (vx vy : Float) : Gesture Point :=
  let speed := hypot vx vy
  if speed < 0.05 then g
  else
    let bound := least 1 (6 / speed)
    g.schedule
      { point, vx := vx * bound, vy := vy * bound, speed, bound, epoch := g.generation,
        start := answers.later, previous := answers.later }

def decayMs : Platform → Float
  | .ios => 500
  | .android => 325

/-- A frame of a fling, which is no longer scheduled. -/
def flingStep (platform : Platform) (fling : Fling Point) : Gesture Point :=
  if fling.epoch ≠ g.generation then g
  else
    let g := { g with stopFrame := none }
    let now := answers.now
    let elapsed := least 1200 (now - fling.start)
    if !answers.usable || now - fling.previous > 80 || now ≤ fling.previous then g
    else
      let decay := decayMs platform
      let distance := decay *
        (Float.exp (-(fling.previous - fling.start) / decay) - Float.exp (-elapsed / decay))
      let dx := fling.vx * distance
      let dy := fling.vy * distance
      let g := g.wheel answers fling.point dx dy
      if !answers.wheel fling.point dx dy then g
      else if elapsed < 1200 && fling.speed * fling.bound * Float.exp (-elapsed / decay) ≥ 0.02 then
        g.schedule { fling with previous := now }
      else g

def contacts (count : Int) : Gesture Point :=
  if count > 1 then { g.cancel with blocked := true }
  else if count = 0 then { g with blocked := false }
  else g

def start (start : TouchStart Point) : Gesture Point :=
  let g := g.cancel
  if g.blocked || !answers.usable then g
  else
    let mode := if start.drag then Mode.drag else Mode.tap
    let g := { g with held := some { start with
      lastPoint := start.point, lastX := start.x, lastY := start.y, time := answers.now, mode } }
    let g := g.emit (.contact (some (start.x, start.y)))
    if start.drag then
      let g := g.pointer answers start.point .down .left
      if answers.pointer start.point .down .left then g else g.cancel
    else { g with longPress := true }

/-- The timer of a contact, which has run out. -/
def longPressed : Gesture Point :=
  let g := { g with longPress := false }
  match g.held with
  | none => g
  | some held =>
    if held.mode ≠ .tap then g
    else if !answers.usable then g.cancel
    else
      let g := { g with held := some { held with mode := .menu } }.emit (.contact none)
      (g.click answers held.point .right).1

/-- What a contact that scrolls keeps of a move. -/
def scrolled (current : Held Point) (now dx dy x y : Float) : Held Point :=
  let dt := now - current.time
  let current :=
    if dt > 0 then
      { current with vx := if dt ≤ 80 then dx / dt else 0, vy := if dt ≤ 80 then dy / dt else 0 }
    else current
  { current with time := now, lastX := x, lastY := y }

/-- The rest of a move, of a contact that scrolls. -/
def scrollTo (current : Held Point) (x y : Float) : Gesture Point :=
  let dx := (current.lastX - x) * current.scale
  let dy := (current.lastY - y) * current.scale
  let g := { g with held := some (scrolled current answers.now dx dy x y) }
  let dx := greatest (-100000) (least 100000 dx)
  let dy := greatest (-100000) (least 100000 dy)
  let g := g.wheel answers current.point dx dy
  if answers.wheel current.point dx dy then g else g.cancel

def move (point : Point) (x y : Float) : Gesture Point :=
  match g.held with
  | none => g
  | some current =>
    if !answers.usable then g.cancel
    else
      match current.mode with
      | .menu => g
      | .drag =>
        let g := { g with held := some { current with lastPoint := point } }
        let g := g.pointer answers point .move .none
        if answers.pointer point .move .none then g else g.cancel
      | .tap =>
        if hypot (x - current.x) (y - current.y) ≤ 8 then g
        else
          let current := { current with mode := .scroll }
          let g := { g with held := some current }.stopLongPress
          let g := (g.emit (.contact none)).emit .onScroll
          g.scrollTo answers current x y
      | .scroll => g.scrollTo answers current x y

def release : Gesture Point :=
  let current := g.held
  let g := { g with held := none }.stopLongPress.emit (.contact none)
  match current with
  | none => g
  | some current =>
    if !answers.usable then g.letGo (some current)
    else
      match current.mode with
      | .tap =>
        let (g, clicked) := g.click answers current.point .left
        if clicked then g.emit .onTap else g
      | .drag =>
        let g := g.pointer answers current.lastPoint .up .left
        let g :=
          if answers.pointer current.lastPoint .up .left then g
          else g.emit (.cancelPointer current.lastPoint)
        g.emit .onDragEnd
      | .scroll =>
        if answers.now - current.time ≤ 80 then g.fling answers current.point current.vx current.vy
        else g
      | .menu => g

end Gesture

/-- The gesture on one platform. The timer and a frame run once, where they are pending. -/
def gesture (platform : Platform) : Machine (Gesture Point) (Event Point) where
  step g
    | .cancel => some g.cancel
    | .contacts count => some (g.contacts count)
    | .start start answers => some (g.start answers start)
    | .move point x y answers => some (g.move answers point x y)
    | .release answers => some (g.release answers)
    | .longPress answers => if g.longPress then some (g.longPressed answers) else none
    | .frame handle answers =>
      (g.frames.find? fun frame => frame.1 = handle).map fun frame =>
        { g with frames := g.frames.filter fun frame => frame.1 ≠ handle }.flingStep answers
          platform frame.2

/-! ## What was told of the buttons -/

/-- What the other end has last been told of the buttons. -/
inductive Pressed
  | up
  /-- A button that went down was refused. -/
  | refused
  | down (button : Button)
  /-- A button is down, and was not let go when it should have been. -/
  | stuck (button : Button)
deriving DecidableEq, Repr

def Pressed.next : Pressed → Output Point → Option Pressed
  | .up, .pointer _ .down button accepted | .refused, .pointer _ .down button accepted =>
    some (if accepted then .down button else .refused)
  | .down button, .pointer _ .up other accepted =>
    if other = button then some (if accepted then .up else .stuck button) else none
  | .down button, .pointer _ .move _ _ => some (.down button)
  | .refused, .cancelPointer _ | .down _, .cancelPointer _ | .stuck _, .cancelPointer _ => some .up
  | .up, .wheel .. => some .up
  | .refused, .wheel .. => some .refused
  | pressed, .contact _ | pressed, .onTap | pressed, .onScroll | pressed, .onDragEnd => some pressed
  | _, _ => none

/-- What a list of outputs says of the buttons. -/
def pressedBy (outputs : List (Output Point)) (pressed : Pressed) : Option Pressed :=
  outputs.foldlM Pressed.next pressed

namespace Output

/-- The outputs that reach the page. -/
def isInput : Output Point → Bool
  | .pointer .. | .wheel .. | .cancelPointer _ => true
  | _ => false

def isDown : Output Point → Bool
  | .pointer _ .down _ _ => true
  | _ => false

def isMove : Output Point → Bool
  | .pointer _ .move _ _ => true
  | _ => false

def isRefusedUp (button : Button) : Output Point → Bool
  | .pointer _ .up other false => other = button
  | _ => false

/-- An accepted up of the button, or a cancelled pointer. -/
def lets (button : Button) : Output Point → Bool
  | .pointer _ .up other true => other = button
  | .cancelPointer _ => true
  | _ => false

/-- An accepted up of any button, or a cancelled pointer. -/
def isRelease : Output Point → Bool
  | .pointer _ .up _ true | .cancelPointer _ => true
  | _ => false

end Output

/-- What follows a button that went down: it is let go once before another goes down, and but for
moves it is only refused before that. -/
def LetGo (button : Button) (outputs : List (Output Point)) : Prop :=
  ∃ (before : List (Output Point)) (output : Output Point) (after : List (Output Point)),
    outputs = before ++ output :: after ∧ output.lets button ∧
    (∀ o ∈ before, o.isInput → o.isMove ∨ o.isRefusedUp button) ∧
    ∀ o ∈ after.takeWhile fun o => !o.isDown, o.isRelease = false

/-- Only moves follow a button that is held. -/
def StillDown (outputs : List (Output Point)) : Prop :=
  ∀ o ∈ outputs, o.isInput → o.isMove

section

variable {outputs : List (Output Point)} {output : Output Point} {pressed after : Pressed}
  {button : Button}

theorem pressedBy_cons : pressedBy (output :: outputs) pressed =
    (pressed.next output).bind (pressedBy outputs) := rfl

theorem pressedBy_append {more : List (Output Point)} :
    pressedBy (outputs ++ more) pressed = (pressedBy outputs pressed).bind (pressedBy more) :=
  List.foldlM_append

/-- Once nothing is down, nothing is let go before something goes down. -/
theorem not_isRelease_of_up (h : (pressedBy outputs .up).isSome) :
    ∀ o ∈ outputs.takeWhile fun o => !o.isDown, o.isRelease = false := by
  induction outputs with
  | nil => simp
  | cons output outputs ih =>
    rw [pressedBy_cons] at h
    intro o ho
    cases hdown : output.isDown with
    | true => simp [hdown] at ho
    | false =>
      rw [List.takeWhile_cons_of_pos (by simp [hdown])] at ho
      have hnext : Pressed.next .up output = some .up ∧ output.isRelease = false := by
        cases output with
        | pointer point action other accepted =>
          cases action <;> simp_all [Pressed.next, Output.isDown]
        | _ => simp_all [Pressed.next, Output.isRelease]
      obtain rfl | ho := List.mem_cons.mp ho
      · exact hnext.2
      · rw [hnext.1] at h
        exact ih h o ho

theorem letGo_cons (hnext : output.isInput → output.isMove ∨ output.isRefusedUp button)
    (h : LetGo button outputs) : LetGo button (output :: outputs) := by
  obtain ⟨before, o, after, rfl, ho, hbefore, hafter⟩ := h
  refine ⟨output :: before, o, after, rfl, ho, ?_, hafter⟩
  intro o ho
  obtain rfl | ho := List.mem_cons.mp ho
  · exact hnext
  · exact hbefore o ho

theorem letGo_of_lets (hlets : output.lets button) (h : (pressedBy outputs .up).isSome) :
    LetGo button (output :: outputs) :=
  ⟨[], output, outputs, rfl, hlets, by simp, not_isRelease_of_up h⟩

theorem letGo_of_stuck (h : pressedBy outputs (.stuck button) = some after) :
    after = .stuck button ∨ LetGo button outputs := by
  induction outputs with
  | nil => exact .inl (Option.some.inj h).symm
  | cons output outputs ih =>
    rw [pressedBy_cons] at h
    cases output with
    | pointer point action other accepted => cases action <;> cases h
    | wheel point dx dy accepted => cases h
    | cancelPointer point => exact .inr (letGo_of_lets rfl (Option.isSome_iff_exists.mpr ⟨_, h⟩))
    | contact | onTap | onScroll | onDragEnd =>
      exact (ih h).imp_right (letGo_cons (by simp [Output.isInput]))

/-- What becomes of a button that went down. -/
theorem followed_of_down (h : pressedBy outputs (.down button) = some after) :
    after = .down button ∧ StillDown outputs ∨ after = .stuck button ∨ LetGo button outputs := by
  induction outputs with
  | nil => exact .inl ⟨(Option.some.inj h).symm, by simp [StillDown]⟩
  | cons output outputs ih =>
    rw [pressedBy_cons] at h
    cases output with
    | pointer point action other accepted =>
      cases action with
      | down => cases h
      | move =>
        obtain ⟨rfl, hdown⟩ | hstuck | hlets := ih h
        · exact .inl ⟨rfl, List.forall_mem_cons.mpr ⟨fun _ => rfl, hdown⟩⟩
        · exact .inr (.inl hstuck)
        · exact .inr (.inr (letGo_cons (fun _ => .inl rfl) hlets))
      | up =>
        by_cases hother : other = button
        · subst hother
          simp only [Pressed.next, ↓reduceIte, Option.bind_some] at h
          cases accepted with
          | true =>
            exact .inr (.inr (letGo_of_lets (by simp [Output.lets])
              (Option.isSome_iff_exists.mpr ⟨_, h⟩)))
          | false =>
            obtain hstuck | hlets := letGo_of_stuck h
            · exact .inr (.inl hstuck)
            · exact .inr (.inr (letGo_cons (fun _ => .inr (by simp [Output.isRefusedUp])) hlets))
        · simp [Pressed.next, hother] at h
    | wheel point dx dy accepted => cases h
    | cancelPointer point =>
      exact .inr (.inr (letGo_of_lets rfl (Option.isSome_iff_exists.mpr ⟨_, h⟩)))
    | contact | onTap | onScroll | onDragEnd =>
      obtain ⟨rfl, hdown⟩ | hstuck | hlets := ih h
      · exact .inl ⟨rfl, List.forall_mem_cons.mpr ⟨by simp [Output.isInput], hdown⟩⟩
      · exact .inr (.inl hstuck)
      · exact .inr (.inr (letGo_cons (by simp [Output.isInput]) hlets))

end

/-! ## A gesture keeps the balance -/

def Gesture.dragging (g : Gesture Point) : Bool := g.held.any fun held => held.mode = .drag

def Told (g : Gesture Point) (pressed : Pressed) : Prop :=
  pressedBy g.outputs .up = some pressed

def Pressed.Idle (pressed : Pressed) : Prop := pressed = .up ∨ pressed = .refused

/-- The left button is down while a contact drags, and no button is otherwise. -/
def Balanced (g : Gesture Point) : Prop :=
  ∃ pressed, Told g pressed ∧ if g.dragging then pressed = .down .left else pressed.Idle

section

variable {g : Gesture Point} {answers : Answers Point} {pressed after : Pressed}
  {output : Output Point} {point : Point} {button : Button}

theorem Told.emit (h : Told g pressed) {o : Output Point} (hnext : pressed.next o = some after) :
    Told (g.emit o) after := by
  unfold Told at *
  rw [Gesture.emit, pressedBy_append, h, Option.bind_some, pressedBy_cons, hnext]
  rfl

theorem Told.congr (h : Told g pressed) {g' : Gesture Point} (houtputs : g'.outputs = g.outputs) :
    Told g' pressed := by
  rwa [Told, houtputs]

theorem Told.contact (h : Told g pressed) (shown : Option (Float × Float)) :
    Told (g.emit (.contact shown)) pressed :=
  h.emit (by cases pressed <;> rfl)

theorem Told.onScroll (h : Told g pressed) : Told (g.emit .onScroll) pressed :=
  h.emit (by cases pressed <;> rfl)

theorem Told.onTap (h : Told g pressed) : Told (g.emit .onTap) pressed :=
  h.emit (by cases pressed <;> rfl)

theorem Balanced.of_idle (h : Told g pressed) (hidle : pressed.Idle) (hheld : g.dragging = false) :
    Balanced g :=
  ⟨pressed, h, by rwa [hheld]⟩

theorem Told.wheel (h : Told g pressed) (hidle : pressed.Idle) (answers : Answers Point)
    (point : Point) (dx dy : Float) :
    Told (g.wheel answers point dx dy) pressed := by
  obtain rfl | rfl := hidle
  · exact h.emit rfl
  · exact h.emit rfl

theorem Told.down (h : Told g pressed) (hidle : pressed.Idle) (answers : Answers Point)
    (point : Point) (button : Button) :
    Told (g.pointer answers point .down button)
      (if answers.pointer point .down button then .down button else .refused) := by
  obtain rfl | rfl := hidle
  · exact h.emit rfl
  · exact h.emit rfl

theorem Told.letUp (h : Told g (.down button)) (answers : Answers Point) (point : Point) :
    Told (g.pointer answers point .up button)
      (if answers.pointer point .up button then .up else .stuck button) :=
  h.emit (by simp [Pressed.next])

/-- A contact that is let go leaves nothing down. -/
theorem Told.letGo (h : Told g pressed) {previous : Option (Held Point)}
    (hdrag : previous.any (fun held => held.mode = .drag) = true →
      pressed = .down .left ∨ pressed = .refused)
    (hidle : previous.any (fun held => held.mode = .drag) = false → pressed.Idle) :
    ∃ after, Told (g.letGo previous) after ∧ after.Idle := by
  unfold Gesture.letGo
  split
  · rename_i held
    split
    · rename_i hmode
      obtain rfl | rfl := hdrag (by simp [hmode])
      · exact ⟨.up, (h.emit rfl).emit rfl, .inl rfl⟩
      · exact ⟨.up, (h.emit rfl).emit rfl, .inl rfl⟩
    · rename_i hmode
      exact ⟨pressed, h, hidle (by simp [hmode])⟩
  · exact ⟨pressed, h, hidle rfl⟩

theorem letGo_held {previous : Option (Held Point)} : (g.letGo previous).held = g.held := by
  unfold Gesture.letGo
  split
  · split <;> rfl
  · rfl

theorem cancel_held : g.cancel.held = none := letGo_held

theorem cancel_blocked : g.cancel.blocked = g.blocked := by
  unfold Gesture.cancel Gesture.letGo
  dsimp only
  split
  · split <;> rfl
  · rfl

theorem Balanced.cancel' (h : Told g pressed)
    (hdrag : g.dragging = true → pressed = .down .left ∨ pressed = .refused)
    (hidle : g.dragging = false → pressed.Idle) : Balanced g.cancel := by
  unfold Gesture.cancel
  dsimp only
  have hstopped : Told
      { { g with generation := g.generation + 1 }.stopLongPress.stopFrames with held := none }
      pressed := h.congr rfl
  obtain ⟨after, hafter, hidle⟩ := (hstopped.contact none).letGo hdrag hidle
  exact .of_idle hafter hidle (by simp [Gesture.dragging, letGo_held, Gesture.emit])

theorem Balanced.cancel (h : Balanced g) : Balanced g.cancel := by
  obtain ⟨pressed, htold, hpressed⟩ := h
  refine Balanced.cancel' htold (fun hdrag => ?_) fun hdrag => ?_
  · rw [if_pos hdrag] at hpressed
    exact .inl hpressed
  · rwa [hdrag] at hpressed

/-- A click is over when it returns. -/
theorem Told.click (h : Told g pressed) (hidle : pressed.Idle) (answers : Answers Point)
    (point : Point) (button : Button) :
    ∃ after, Told (g.click answers point button).1 after ∧ after.Idle := by
  have hdown := h.down hidle answers point button
  unfold Gesture.click
  dsimp only
  cases hpointer : answers.pointer point .down button with
  | false =>
    rw [hpointer] at hdown
    exact ⟨.refused, hdown, .inr rfl⟩
  | true =>
    rw [hpointer] at hdown
    have hup := Told.letUp hdown answers point
    cases hlet : answers.pointer point .up button with
    | false =>
      rw [hlet] at hup
      exact ⟨.up, hup.emit rfl, .inl rfl⟩
    | true =>
      rw [hlet] at hup
      exact ⟨.up, hup, .inl rfl⟩

theorem click_held : (g.click answers point button).1.held = g.held := by
  unfold Gesture.click
  dsimp only
  split
  · split <;> rfl
  · rfl

theorem Balanced.contacts (h : Balanced g) (count : Int) : Balanced (g.contacts count) := by
  unfold Gesture.contacts
  split
  · exact h.cancel
  · split
    · exact h
    · exact h

theorem Balanced.start (h : Balanced g) (start : TouchStart Point) :
    Balanced (g.start answers start) := by
  obtain ⟨pressed, htold, hpressed⟩ := h.cancel
  have hidle : pressed.Idle := by simpa [Gesture.dragging, cancel_held] using hpressed
  unfold Gesture.start
  dsimp only
  split
  · exact h.cancel
  · split
    · rename_i hdrag
      have hdown : Told _ _ :=
        (htold.contact (some (start.x, start.y))).down hidle answers start.point .left
      split
      · rename_i hpointer
        rw [if_pos hpointer] at hdown
        exact ⟨_, hdown, by simp [Gesture.dragging, Gesture.pointer, Gesture.emit]⟩
      · rename_i hpointer
        rw [if_neg hpointer] at hdown
        exact Balanced.cancel' hdown (fun _ => .inr rfl) fun _ => .inr rfl
    · rename_i hdrag
      exact .of_idle (htold.contact _) hidle (by simp [Gesture.dragging, Gesture.emit])

theorem Balanced.longPressed (h : Balanced g) : Balanced (g.longPressed answers) := by
  unfold Gesture.longPressed
  dsimp only
  split
  · exact h
  · rename_i held hheld
    split
    · exact h
    · rename_i hmode
      split
      · exact Balanced.cancel h
      · obtain ⟨pressed, htold, hpressed⟩ := h
        have hidle : pressed.Idle := by
          simpa [Gesture.dragging, hheld, not_not.mp hmode] using hpressed
        have hmenu : Told { g with longPress := false, held := some { held with mode := .menu } }
            pressed := htold.congr rfl
        obtain ⟨after, hafter, hidle⟩ := (hmenu.contact none).click hidle answers held.point .right
        exact .of_idle hafter hidle (by simp [Gesture.dragging, click_held, Gesture.emit])

theorem scrolled_mode (current : Held Point) {now dx dy x y : Float} :
    (Gesture.scrolled current now dx dy x y).mode = current.mode := by
  unfold Gesture.scrolled
  dsimp only
  split <;> rfl

theorem Balanced.scrollTo {current : Held Point} (htold : Told g pressed) (hidle : pressed.Idle)
    (hmode : current.mode = .scroll) {x y : Float} :
    Balanced (g.scrollTo answers current x y) := by
  unfold Gesture.scrollTo
  dsimp only
  split
  · exact .of_idle (htold.wheel hidle _ _ _ _) hidle
      (by simp [Gesture.dragging, Gesture.wheel, Gesture.emit, scrolled_mode, hmode])
  · exact Balanced.cancel' (htold.wheel hidle _ _ _ _) (fun hdrag => by
      simp [Gesture.dragging, Gesture.wheel, Gesture.emit, scrolled_mode, hmode] at hdrag)
      fun _ => hidle

theorem Balanced.move (h : Balanced g) {x y : Float} : Balanced (g.move answers point x y) := by
  unfold Gesture.move
  split
  · exact h
  · rename_i current hheld
    split
    · exact h.cancel
    · obtain ⟨pressed, htold, hpressed⟩ := h
      split
      · rename_i hmode
        exact ⟨pressed, htold, hpressed⟩
      · rename_i hmode
        obtain rfl : pressed = .down .left := by
          simpa [Gesture.dragging, hheld, hmode] using hpressed
        have hmove : Told (g.pointer answers point .move .none) (.down .left) := htold.emit rfl
        dsimp only
        split
        · exact ⟨_, hmove, by simp [Gesture.dragging, Gesture.pointer, Gesture.emit, hmode]⟩
        · exact Balanced.cancel' hmove (fun _ => .inl rfl) fun hdrag => by
            simp [Gesture.dragging, Gesture.pointer, Gesture.emit, hmode] at hdrag
      · rename_i hmode
        have hidle : pressed.Idle := by simpa [Gesture.dragging, hheld, hmode] using hpressed
        split
        · exact .of_idle htold hidle (by simp [Gesture.dragging, hheld, hmode])
        · have hscroll : Told
              { g with longPress := false, held := some { current with mode := .scroll } }
              pressed := htold.congr rfl
          have hscroll : Told _ pressed := (hscroll.contact none).onScroll
          exact Balanced.scrollTo hscroll hidle rfl
      · rename_i hmode
        have hidle : pressed.Idle := by simpa [Gesture.dragging, hheld, hmode] using hpressed
        exact Balanced.scrollTo htold hidle hmode

theorem fling_outputs (answers : Answers Point) (point : Point) (vx vy : Float) :
    (g.fling answers point vx vy).outputs = g.outputs ∧
    (g.fling answers point vx vy).held = g.held := by
  unfold Gesture.fling
  dsimp only
  split
  · exact ⟨rfl, rfl⟩
  · exact ⟨rfl, rfl⟩

theorem Balanced.release (h : Balanced g) : Balanced (g.release answers) := by
  obtain ⟨pressed, htold, hpressed⟩ := h
  have htold' : Told ({ g with held := none }.stopLongPress.emit (.contact none)) pressed :=
    htold.contact none
  unfold Gesture.release
  dsimp only
  cases hheld : g.held with
  | none =>
    have hidle : pressed.Idle := by simpa [Gesture.dragging, hheld] using hpressed
    exact .of_idle htold' hidle rfl
  | some current =>
    dsimp only
    split
    · have hlet : ∃ after, Told ({ g with held := none }.stopLongPress.emit (.contact none)
          |>.letGo (some current)) after ∧ after.Idle :=
        htold'.letGo (fun hdrag => .inl (by simpa [Gesture.dragging, hheld, hdrag] using hpressed))
          fun hdrag => by simpa [Gesture.dragging, hheld, hdrag] using hpressed
      obtain ⟨after, hafter, hidle⟩ := hlet
      exact .of_idle hafter hidle (by simp [Gesture.dragging, letGo_held]; rfl)
    · split
      · rename_i hmode
        have hidle : pressed.Idle := by simpa [Gesture.dragging, hheld, hmode] using hpressed
        obtain ⟨after, hafter, hidle⟩ := htold'.click hidle answers current.point .left
        split
        · refine .of_idle hafter.onTap hidle ?_
          simp [Gesture.dragging, Gesture.emit, click_held, Gesture.stopLongPress]
        · exact .of_idle hafter hidle
            (by simp [Gesture.dragging, Gesture.emit, click_held, Gesture.stopLongPress])
      · rename_i hmode
        obtain rfl : pressed = .down .left := by
          simpa [Gesture.dragging, hheld, hmode] using hpressed
        have hup := htold'.letUp answers current.lastPoint
        cases hpointer : answers.pointer current.lastPoint .up .left with
        | true =>
          rw [hpointer] at hup
          exact .of_idle (hup.emit rfl) (.inl rfl) rfl
        | false =>
          rw [hpointer] at hup
          have hlet : Told _ .up := hup.emit (o := .cancelPointer current.lastPoint) rfl
          exact .of_idle (hlet.emit rfl) (.inl rfl) rfl
      · rename_i hmode
        have hidle : pressed.Idle := by simpa [Gesture.dragging, hheld, hmode] using hpressed
        split
        · obtain ⟨houtputs, hheld⟩ := fling_outputs
            (g := { g with held := none }.stopLongPress.emit (.contact none)) answers current.point
            current.vx current.vy
          exact .of_idle (htold'.congr houtputs) hidle (by rw [Gesture.dragging, hheld]; rfl)
        · exact .of_idle htold' hidle rfl
      · rename_i hmode
        have hidle : pressed.Idle := by simpa [Gesture.dragging, hheld, hmode] using hpressed
        exact .of_idle htold' hidle rfl

theorem Balanced.congr (h : Balanced g) {g' : Gesture Point} (houtputs : g'.outputs = g.outputs)
    (hheld : g'.held = g.held) : Balanced g' := by
  unfold Balanced Told Gesture.dragging at *
  rwa [houtputs, hheld]

/-- While a fling goes on nothing is held. -/
theorem Balanced.flingStep (h : Balanced g) {platform : Platform} {fling : Fling Point}
    (hheld : fling.epoch = g.generation → g.held = none) :
    Balanced (g.flingStep answers platform fling) := by
  unfold Gesture.flingStep
  split
  · exact h
  · rename_i hepoch
    have hnone := hheld (not_not.mp hepoch)
    obtain ⟨pressed, htold, hpressed⟩ := h
    have hidle : pressed.Idle := by simpa [Gesture.dragging, hnone] using hpressed
    have hstopped : Told { g with stopFrame := none } pressed := htold.congr rfl
    dsimp only
    split
    · exact .of_idle hstopped hidle (by simp [Gesture.dragging, hnone])
    · have hwheel := hstopped.wheel hidle answers fling.point
      split
      · exact .of_idle (hwheel _ _) hidle
          (by simp [Gesture.dragging, Gesture.wheel, Gesture.emit, hnone])
      · split
        · exact .of_idle ((hwheel _ _).congr rfl) hidle
            (by simp [Gesture.dragging, Gesture.wheel, Gesture.emit, Gesture.schedule, hnone])
        · exact .of_idle (hwheel _ _) hidle
            (by simp [Gesture.dragging, Gesture.wheel, Gesture.emit, hnone])

end

/-! ## A cancelled gesture is silent -/

/-- The frames are of flings that go on while nothing is held. -/
def Glides (g : Gesture Point) : Prop :=
  ∀ frame ∈ g.frames, frame.2.epoch ≤ g.generation ∧
    (frame.2.epoch = g.generation → g.held = none)

/-- The frames are of flings that are over. -/
def Past (g : Gesture Point) : Prop :=
  ∀ frame ∈ g.frames, frame.2.epoch < g.generation

/-- Nothing is held and no fling goes on. -/
structure Silent (g : Gesture Point) : Prop where
  held : g.held = none
  past : Past g

def inputs (g : Gesture Point) : List (Output Point) := g.outputs.filter Output.isInput

section

variable {g g' : Gesture Point} {answers : Answers Point} {point : Point} {button : Button}
  {output : Output Point} {platform : Platform}

theorem Past.glides (h : Past g) : Glides g :=
  fun frame hframe => ⟨Nat.le_of_lt (h frame hframe),
    fun hepoch => absurd hepoch (Nat.ne_of_lt (h frame hframe))⟩

theorem Glides.past (h : Glides g) {held : Held Point} (hheld : g.held = some held) : Past g :=
  fun frame hframe => Nat.lt_of_le_of_ne (h frame hframe).1 fun hepoch => by
    simp [(h frame hframe).2 hepoch] at hheld

theorem Past.congr (h : Past g) (hframes : g'.frames = g.frames)
    (hgeneration : g'.generation = g.generation) : Past g' := by
  unfold Past
  rwa [hframes, hgeneration]

theorem Past.glides_of (h : Past g) (hframes : g'.frames = g.frames)
    (hgeneration : g'.generation = g.generation) : Glides g' :=
  (h.congr hframes hgeneration).glides

theorem Glides.congr (h : Glides g) (hframes : g'.frames = g.frames)
    (hgeneration : g'.generation = g.generation) (hheld : g.held = none → g'.held = none) :
    Glides g' := by
  unfold Glides
  rw [hframes, hgeneration]
  exact fun frame hframe => ⟨(h frame hframe).1, fun hepoch => hheld ((h frame hframe).2 hepoch)⟩

theorem letGo_frames {previous : Option (Held Point)} :
    (g.letGo previous).frames = g.frames ∧ (g.letGo previous).generation = g.generation := by
  unfold Gesture.letGo
  split
  · split <;> exact ⟨rfl, rfl⟩
  · exact ⟨rfl, rfl⟩

theorem click_frames : (g.click answers point button).1.frames = g.frames ∧
    (g.click answers point button).1.generation = g.generation := by
  unfold Gesture.click
  dsimp only
  split
  · split <;> exact ⟨rfl, rfl⟩
  · exact ⟨rfl, rfl⟩

/-- What is cancelled is over, whatever was going on. -/
theorem Glides.cancel (h : Glides g) : Silent g.cancel := by
  refine ⟨cancel_held, fun frame hframe => ?_⟩
  unfold Gesture.cancel at hframe ⊢
  dsimp only at hframe ⊢
  rw [letGo_frames.1] at hframe
  rw [letGo_frames.2]
  have hframe : frame ∈ g.frames := (List.mem_filter.mp hframe).1
  exact Nat.lt_succ_of_le (h frame hframe).1

theorem Glides.cancelled (h : Glides g) : Glides g.cancel := h.cancel.past.glides

theorem Glides.schedule (h : Glides g) {fling : Fling Point} (hepoch : fling.epoch = g.generation)
    (hheld : g.held = none) : Glides (g.schedule fling) := by
  intro frame hframe
  obtain hframe | hframe := List.mem_append.mp hframe
  · exact h frame hframe
  · obtain rfl := List.mem_singleton.mp hframe
    exact ⟨Nat.le_of_eq hepoch, fun _ => hheld⟩

theorem Glides.contacts (h : Glides g) (count : Int) : Glides (g.contacts count) := by
  unfold Gesture.contacts
  split
  · exact h.cancelled
  · split
    · exact h
    · exact h

theorem Glides.start (h : Glides g) (start : TouchStart Point) :
    Glides (g.start answers start) := by
  have hpast := h.cancel.past
  unfold Gesture.start
  dsimp only
  split
  · exact hpast.glides
  · split
    · split
      · exact hpast.glides_of rfl rfl
      · exact Glides.cancelled (hpast.glides_of rfl rfl)
    · exact hpast.glides_of rfl rfl

theorem Glides.longPressed (h : Glides g) : Glides (g.longPressed answers) := by
  unfold Gesture.longPressed
  dsimp only
  split
  · exact h
  · rename_i held hheld
    split
    · exact h
    · split
      · exact Glides.cancelled h
      · exact (h.past hheld).glides_of click_frames.1 click_frames.2

theorem Glides.scrollTo (h : Past g) {current : Held Point} {x y : Float} :
    Glides (g.scrollTo answers current x y) := by
  unfold Gesture.scrollTo
  dsimp only
  split
  · exact h.glides_of rfl rfl
  · exact Glides.cancelled (h.glides_of rfl rfl)

theorem Glides.move (h : Glides g) {x y : Float} : Glides (g.move answers point x y) := by
  unfold Gesture.move
  split
  · exact h
  · rename_i current hheld
    have hpast := h.past hheld
    split
    · exact h.cancelled
    · split
      · exact h
      · dsimp only
        split
        · exact hpast.glides_of rfl rfl
        · exact Glides.cancelled (hpast.glides_of rfl rfl)
      · split
        · exact h
        · refine Glides.scrollTo ?_
          exact hpast.congr rfl rfl
      · exact Glides.scrollTo hpast

theorem Glides.release (h : Glides g) : Glides (g.release answers) := by
  have hlet : Glides ({ g with held := none }.stopLongPress.emit (.contact none)) :=
    h.congr rfl rfl fun _ => rfl
  unfold Gesture.release
  dsimp only
  split
  · exact hlet
  · rename_i current hheld
    split
    · exact hlet.congr letGo_frames.1 letGo_frames.2 fun _ => letGo_held
    · split
      · split
        · exact hlet.congr click_frames.1 click_frames.2 fun _ => click_held
        · exact hlet.congr click_frames.1 click_frames.2 fun _ => click_held
      · split
        · exact hlet.congr rfl rfl fun _ => rfl
        · exact hlet.congr rfl rfl fun _ => rfl
      · split
        · unfold Gesture.fling
          dsimp only
          split
          · exact hlet
          · exact hlet.schedule rfl rfl
        · exact hlet
      · exact hlet

theorem Glides.flingStep (h : Glides g) {fling : Fling Point}
    (hheld : fling.epoch = g.generation → g.held = none) :
    Glides (g.flingStep answers platform fling) := by
  unfold Gesture.flingStep
  split
  · exact h
  · rename_i hepoch
    have hnone := hheld (not_not.mp hepoch)
    have hstopped : Glides { g with stopFrame := none } := h.congr rfl rfl id
    dsimp only
    split
    · exact hstopped
    · have hwheel : ∀ dx dy,
          Glides ({ g with stopFrame := none }.wheel answers fling.point dx dy) :=
        fun _ _ => h.congr rfl rfl id
      split
      · exact hwheel _ _
      · split
        · exact (hwheel _ _).schedule (not_not.mp hepoch) hnone
        · exact hwheel _ _

theorem flingStep_of_past {fling : Fling Point} (hepoch : fling.epoch < g.generation) :
    g.flingStep answers platform fling = g := by
  rw [Gesture.flingStep, if_pos (Nat.ne_of_lt hepoch)]

theorem inputs_cancel (hheld : g.held = none) : inputs g.cancel = inputs g := by
  simp [inputs, Gesture.cancel, Gesture.letGo, Gesture.emit, Gesture.stopFrames,
    Gesture.stopLongPress, Output.isInput, hheld]

end

section

variable {platform : Platform} {g t : Gesture Point} {e : Event Point}

structure Sound (g : Gesture Point) : Prop where
  balanced : Balanced g
  glides : Glides g

theorem Sound.step (h : Sound g) (hstep : (gesture platform).step g e = some t) : Sound t := by
  obtain ⟨hbalanced, hglides⟩ := h
  cases e with
  | cancel =>
    obtain rfl := Option.some.inj hstep
    exact ⟨hbalanced.cancel, hglides.cancelled⟩
  | contacts count =>
    obtain rfl := Option.some.inj hstep
    exact ⟨hbalanced.contacts count, hglides.contacts count⟩
  | start start answers =>
    obtain rfl := Option.some.inj hstep
    exact ⟨hbalanced.start start, hglides.start start⟩
  | move point x y answers =>
    obtain rfl := Option.some.inj hstep
    exact ⟨hbalanced.move, hglides.move⟩
  | release answers =>
    obtain rfl := Option.some.inj hstep
    exact ⟨hbalanced.release, hglides.release⟩
  | longPress answers =>
    obtain ⟨-, ht⟩ := Option.ite_none_right_eq_some.mp hstep
    obtain rfl := Option.some.inj ht
    exact ⟨hbalanced.longPressed, hglides.longPressed⟩
  | frame handle answers =>
    obtain ⟨frame, hframe, rfl⟩ := Option.map_eq_some_iff.mp hstep
    have hheld := (hglides frame (List.mem_of_find?_eq_some hframe)).2
    refine ⟨Balanced.flingStep ?_ hheld, Glides.flingStep ?_ hheld⟩
    · exact hbalanced.congr rfl rfl
    · exact fun frame hframe => hglides frame (List.mem_filter.mp hframe).1

theorem sound_run {es : List (Event Point)} (hrun : (gesture platform).run {} es = some g) :
    Sound g :=
  (gesture platform).invariant ⟨⟨.up, rfl, .inl rfl⟩, by simp [Glides]⟩
    (fun _ _ _ h hstep => h.step hstep) hrun

/-- A start that is not blocked. -/
def Starts (g : Gesture Point) (e : Event Point) : Prop :=
  ∃ start answers, e = .start start answers ∧ g.blocked = false

/-- Until a start that is not blocked, a silent gesture stays silent. -/
theorem Silent.step (h : Silent g) (hstarts : ¬ Starts g e)
    (hstep : (gesture platform).step g e = some t) : Silent t ∧ inputs t = inputs g := by
  obtain ⟨hheld, hpast⟩ := h
  have hcancel := hpast.glides.cancel
  cases e with
  | cancel =>
    obtain rfl := Option.some.inj hstep
    exact ⟨hcancel, inputs_cancel hheld⟩
  | contacts count =>
    obtain rfl := Option.some.inj hstep
    unfold Gesture.contacts
    split
    · exact ⟨⟨hcancel.held, hcancel.past⟩, inputs_cancel hheld⟩
    · split
      · exact ⟨⟨hheld, hpast⟩, rfl⟩
      · exact ⟨⟨hheld, hpast⟩, rfl⟩
  | start start answers =>
    obtain rfl := Option.some.inj hstep
    have hblocked : g.cancel.blocked = true := by
      rw [cancel_blocked]
      by_contra hblocked
      exact hstarts ⟨start, answers, rfl, by simpa using hblocked⟩
    unfold Gesture.start
    dsimp only
    rw [hblocked, Bool.true_or, if_pos rfl]
    exact ⟨hcancel, inputs_cancel hheld⟩
  | move point x y answers =>
    obtain rfl := Option.some.inj hstep
    unfold Gesture.move
    rw [hheld]
    exact ⟨⟨hheld, hpast⟩, rfl⟩
  | release answers =>
    obtain rfl := Option.some.inj hstep
    unfold Gesture.release
    dsimp only
    rw [hheld]
    exact ⟨⟨rfl, hpast.congr rfl rfl⟩, by
      simp [inputs, Gesture.emit, Gesture.stopLongPress, Output.isInput]⟩
  | longPress answers =>
    obtain ⟨-, ht⟩ := Option.ite_none_right_eq_some.mp hstep
    obtain rfl := Option.some.inj ht
    unfold Gesture.longPressed
    dsimp only
    rw [hheld]
    exact ⟨⟨rfl, hpast.congr rfl rfl⟩, rfl⟩
  | frame handle answers =>
    obtain ⟨frame, hframe, rfl⟩ := Option.map_eq_some_iff.mp hstep
    have hepoch := hpast frame (List.mem_of_find?_eq_some hframe)
    rw [flingStep_of_past (by exact hepoch)]
    exact ⟨⟨hheld, fun frame hframe => hpast frame (List.mem_filter.mp hframe).1⟩, rfl⟩

theorem silent_run {more : List (Event Point)} (h : Silent g)
    (hmeets : (gesture platform).Meets (fun g e => ¬ Starts g e) g more)
    (hrun : (gesture platform).run g more = some t) : inputs t = inputs g :=
  ((gesture platform).run_invariant (P := fun t => Silent t ∧ inputs t = inputs g) ⟨h, rfl⟩
    (fun _ _ _ hs hstarts hstep =>
      (hs.1.step hstarts hstep).imp_right fun hinputs => hinputs.trans hs.2) hmeets hrun).2

/-- The events after which nothing is told until the next start. -/
def Ends : Event Point → Prop
  | .cancel => True
  | .contacts count => 1 < count
  | _ => False

theorem Sound.silent (h : Sound g) (hends : Ends e)
    (hstep : (gesture platform).step g e = some t) : Silent t := by
  cases e with
  | cancel =>
    obtain rfl := Option.some.inj hstep
    exact h.glides.cancel
  | contacts count =>
    obtain rfl := Option.some.inj hstep
    rw [Gesture.contacts, if_pos (show count > 1 from hends)]
    exact ⟨h.glides.cancel.held, h.glides.cancel.past⟩
  | _ => cases hends

/-- What becomes of each button that went down, and of a gesture that is cancelled. -/
theorem balances_pointer {es : List (Event Point)}
    (hrun : (gesture platform).run {} es = some g) :
    (∀ before point button after,
      g.outputs = before ++ Output.pointer point .down button true :: after →
        LetGo button after ∨ g.dragging ∧ button = .left ∧ StillDown after) ∧
    ∀ e t, Ends e → (gesture platform).step g e = some t →
      ∀ more u, (gesture platform).Meets (fun g e => ¬ Starts g e) t more →
        (gesture platform).run t more = some u → inputs u = inputs t := by
  have hsound := sound_run hrun
  refine ⟨fun before point button after houtputs => ?_, fun e t hends hstep more u => ?_⟩
  · obtain ⟨pressed, htold, hpressed⟩ := hsound.balanced
    rw [Told, houtputs, pressedBy_append, Option.bind_eq_some_iff] at htold
    obtain ⟨idle, -, hdown⟩ := htold
    rw [pressedBy_cons, Option.bind_eq_some_iff] at hdown
    obtain ⟨down, hnext, hafter⟩ := hdown
    obtain rfl : down = .down button := by
      cases idle <;> simp [Pressed.next] at hnext <;> exact hnext.symm
    obtain ⟨rfl, hstill⟩ | rfl | hlets := followed_of_down hafter
    · split at hpressed
      · rename_i hdrag
        exact .inr ⟨hdrag, by simpa using hpressed, hstill⟩
      · simp [Pressed.Idle] at hpressed
    · split at hpressed
      · cases hpressed
      · simp [Pressed.Idle] at hpressed
    · exact .inl hlets
  · exact silent_run (hsound.silent hends hstep)

/-- A drag that the page takes, and lets go of. -/
theorem balances_pointer_dragged : ∃ g : Gesture Unit,
    (gesture .ios).run {}
      [.start ⟨(), 0, 0, 1, true⟩ ⟨true, fun _ _ _ => true, fun _ _ _ => true, 0, 0⟩,
        .release ⟨true, fun _ _ _ => true, fun _ _ _ => true, 0, 0⟩] = some g ∧
      ∀ before point button after,
        g.outputs = before ++ Output.pointer point .down button true :: after →
          LetGo button after ∨ g.dragging ∧ button = .left ∧ StillDown after := by
  have hrun : (gesture .ios).run ({} : Gesture Unit)
      [.start ⟨(), 0, 0, 1, true⟩ ⟨true, fun _ _ _ => true, fun _ _ _ => true, 0, 0⟩,
        .release ⟨true, fun _ _ _ => true, fun _ _ _ => true, 0, 0⟩] = some _ := rfl
  exact ⟨_, hrun, (balances_pointer hrun).1⟩

end

end Opensteer.BrowserTouch
