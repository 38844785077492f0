import Mathlib.Algebra.BigOperators.Group.List.Basic
import Mathlib.Algebra.Order.BigOperators.Group.List
import Mathlib.Tactic.Linarith
import Opensteer.Framework.Machine

/-!
# A bounded inbox

`BoundedAsyncInbox`: values pushed by a source and read by `next`, with a ceiling in items and
bytes. A call of `next` with nothing queued waits, and the next push goes to the first that
waits. With `flow`, the source is paused at a high-water mark and resumed at half; `pause` and
`resume` are called when nothing more is changed, so what they call in turn comes after.

A promise of `next` is named by the number of calls before it, and `Effect` is what a call of the
inbox does outside it. `World` is an inbox with all that was done; `orderly` says what holds after
any calls.
-/

namespace Opensteer

namespace BoundedInbox

/-- `BoundedInboxItem`. -/
structure Item (T : Type*) where
  bytes : Int
  value : T

/-- The marks of a `BoundedInboxFlow`. -/
structure Flow where
  highWaterBytes : Nat
  highWaterItems : Nat

structure Options where
  flow : Option Flow := none
  maxBytes : Nat
  maxItems : Nat

/-- What a promise of `next` comes to. -/
inductive Answer (T ε : Type*)
  | value (value : T)
  | done
  | rejected (error : ε)

inductive Signal
  | pause
  | resume
deriving DecidableEq, Repr

inductive Effect (T ε : Type*)
  | answer (next : Nat) (answer : Answer T ε)
  | signal (signal : Signal)

structure BoundedInboxOverflowError where
  message : String := "The connection exceeded its bounded input queue."

end BoundedInbox

open BoundedInbox

/-- `closed` is `none` while it is undefined, and `some none` where it is null. -/
structure BoundedAsyncInbox (T ε : Type*) where
  queue : List (Item T) := []
  waiters : List Nat := []
  bytes : Int := 0
  closed : Option (Option ε) := none
  paused : Bool := false

namespace BoundedAsyncInbox

variable {T ε : Type*} (o : Options) (s : BoundedAsyncInbox T ε)

/-- The source has reached a mark. -/
def high (flow : Flow) : Prop :=
  (flow.highWaterBytes : Int) ≤ s.bytes ∨ flow.highWaterItems ≤ s.queue.length

/-- What is queued is at most half of each mark. -/
def low (flow : Flow) : Prop :=
  2 * s.bytes ≤ (flow.highWaterBytes : Int) ∧ 2 * s.queue.length ≤ flow.highWaterItems

instance (flow : Flow) : Decidable (s.high flow) := inferInstanceAs (Decidable (_ ∨ _))

instance (flow : Flow) : Decidable (s.low flow) := inferInstanceAs (Decidable (_ ∧ _))

/-- The end of `push`: a mark that is reached pauses the source. -/
def pauseIfHigh : BoundedAsyncInbox T ε × List (Effect T ε) :=
  if o.flow.any fun flow => !s.paused && s.high flow then
    ({ s with paused := true }, [.signal .pause])
  else (s, [])

/-- In `next`: half of the marks resumes the source. -/
def resumeIfLow : BoundedAsyncInbox T ε × List (Effect T ε) :=
  if o.flow.any fun flow => s.paused && s.low flow then
    ({ s with paused := false }, [.signal .resume])
  else (s, [])

def push (item : Item T) :
    Except BoundedInboxOverflowError (BoundedAsyncInbox T ε × List (Effect T ε)) :=
  if s.closed.isSome then .ok (s, [])
  else if item.bytes < 0 ∨ (o.maxBytes : Int) < item.bytes then .error {}
  else match s.waiters with
    | waiter :: waiters =>
      .ok ({ s with waiters }, [.answer waiter (.value item.value)])
    | [] =>
      if o.maxItems ≤ s.queue.length ∨ (o.maxBytes : Int) < s.bytes + item.bytes then .error {}
      else
        .ok (pauseIfHigh o
          { s with queue := s.queue ++ [item], bytes := s.bytes + item.bytes })

/-- The error is a value that may be falsy; `truthy` tells. -/
def close (truthy : ε → Bool) (error : Option ε) : BoundedAsyncInbox T ε × List (Effect T ε) :=
  if s.closed.isSome then (s, [])
  else
    ({ s with closed := some error, waiters := [] },
      s.waiters.map fun waiter =>
        match error.filter truthy with
        | some error => .answer waiter (.rejected error)
        | none => .answer waiter .done)

/-- `next`, whose promise is the one of the number. -/
def next (promise : Nat) : BoundedAsyncInbox T ε × List (Effect T ε) :=
  match s.queue with
  | item :: queue =>
    let (s, effects) := resumeIfLow o { s with queue, bytes := s.bytes - item.bytes }
    (s, effects ++ [Effect.answer promise (.value item.value)])
  | [] =>
    match s.closed with
    | some none => (s, [.answer promise .done])
    | some (some error) => (s, [.answer promise (.rejected error)])
    | none => ({ s with waiters := s.waiters ++ [promise] }, [])

end BoundedAsyncInbox

namespace BoundedInbox

open BoundedAsyncInbox

variable {T ε : Type*}

inductive Action (T ε : Type*)
  | push (item : Item T)
  | next
  | close (error : Option ε)

/-- An inbox with the number of calls of `next`, what was done, and the values of the pushes that
neither threw nor came after `close`. -/
structure World (T ε : Type*) where
  inbox : BoundedAsyncInbox T ε := {}
  nexts : Nat := 0
  effects : List (Effect T ε) := []
  accepted : List T := []

/-- The world, once the inbox has become another, with these effects. -/
def World.then (w : World T ε) (r : BoundedAsyncInbox T ε × List (Effect T ε)) : World T ε :=
  { w with inbox := r.1, effects := w.effects ++ r.2 }

def step (o : Options) (truthy : ε → Bool) (w : World T ε) : Action T ε → World T ε
  | .push item =>
    match w.inbox.push o item with
    | .error _ => w
    | .ok r =>
      if w.inbox.closed.isSome then w.then r
      else { w.then r with accepted := w.accepted ++ [item.value] }
  | .next => { w.then (w.inbox.next o w.nexts) with nexts := w.nexts + 1 }
  | .close error => w.then (w.inbox.close truthy error)

def run (o : Options) (truthy : ε → Bool) (as : List (Action T ε)) : World T ε :=
  as.foldl (step o truthy) {}

/-- The promises of `next` that were answered, in the order of the answers. -/
def answered (effects : List (Effect T ε)) : List Nat :=
  effects.filterMap fun
    | .answer promise _ => some promise
    | .signal _ => none

/-- The values that `next` gave. -/
def delivered (effects : List (Effect T ε)) : List T :=
  effects.filterMap fun
    | .answer _ (.value value) => some value
    | _ => none

/-- The calls of `pause` and `resume`. -/
def signals (effects : List (Effect T ε)) : List Signal :=
  effects.filterMap fun
    | .signal signal => some signal
    | .answer _ _ => none

/-- `pause` and `resume` by turns, `n` in all, the first a `pause`. -/
def alternating (n : Nat) : List Signal :=
  (List.range n).map fun i => if i % 2 = 0 then .pause else .resume

/-- What holds of an inbox after any calls, and in the midst of them. -/
structure Kept (o : Options) (w : World T ε) : Prop where
  accepted : w.accepted = delivered w.effects ++ w.inbox.queue.map (·.value)
  promises : answered w.effects ++ w.inbox.waiters = List.range w.nexts
  apart : w.inbox.waiters = [] ∨ w.inbox.queue = []
  bytes : w.inbox.bytes = (w.inbox.queue.map (·.bytes)).sum
  bytes_le : w.inbox.bytes ≤ o.maxBytes
  items_le : w.inbox.queue.length ≤ o.maxItems
  alternate : signals w.effects = alternating (signals w.effects).length
  paused : w.inbox.paused = true ↔ (signals w.effects).getLast? = some .pause
  unsignalled : o.flow = none → signals w.effects = []
  nonneg : ∀ item ∈ w.inbox.queue, 0 ≤ item.bytes
  closed : w.inbox.closed.isSome → w.inbox.waiters = []

/-- What holds of an inbox after any calls. The values pushed are those given and those queued;
the promises are answered in their order, and the others wait; a promise that waits and a value
that is queued never meet; the queue is within its ceiling; the source is paused and resumed by
turns, and is not left paused with nothing queued. -/
structure Orderly (o : Options) (w : World T ε) : Prop extends Kept o w where
  resumed : w.inbox.queue = [] → (signals w.effects).getLast? ≠ some .pause

variable {o : Options} {truthy : ε → Bool} {w : World T ε}

@[simp] theorem answered_append (as bs : List (Effect T ε)) :
    answered (as ++ bs) = answered as ++ answered bs := List.filterMap_append

@[simp] theorem delivered_append (as bs : List (Effect T ε)) :
    delivered (as ++ bs) = delivered as ++ delivered bs := List.filterMap_append

@[simp] theorem signals_append (as bs : List (Effect T ε)) :
    signals (as ++ bs) = signals as ++ signals bs := List.filterMap_append

@[simp] theorem answered_nil : answered ([] : List (Effect T ε)) = [] := rfl

@[simp] theorem delivered_nil : delivered ([] : List (Effect T ε)) = [] := rfl

@[simp] theorem signals_nil : signals ([] : List (Effect T ε)) = [] := rfl

@[simp] theorem answered_answer (promise : Nat) (answer : Answer T ε) (l : List (Effect T ε)) :
    answered (.answer promise answer :: l) = promise :: answered l := rfl

@[simp] theorem delivered_value (promise : Nat) (value : T) (l : List (Effect T ε)) :
    delivered (.answer promise (.value value) :: l) = value :: delivered l := rfl

@[simp] theorem signals_answer (promise : Nat) (answer : Answer T ε) (l : List (Effect T ε)) :
    signals (.answer promise answer :: l) = signals l := rfl

@[simp] theorem answered_signal (signal : Signal) (l : List (Effect T ε)) :
    answered (.signal signal :: l) = answered l := rfl

@[simp] theorem delivered_signal (signal : Signal) (l : List (Effect T ε)) :
    delivered (.signal signal :: l) = delivered l := rfl

@[simp] theorem signals_signal (signal : Signal) (l : List (Effect T ε)) :
    signals (.signal signal :: l) = signal :: signals l := rfl

theorem alternating_succ (n : Nat) :
    alternating (n + 1) = alternating n ++ [if n % 2 = 0 then Signal.pause else .resume] := by
  simp [alternating, List.range_succ]

theorem getLast?_alternating (n : Nat) :
    (alternating n).getLast? = some .pause ↔ n % 2 = 1 := by
  cases n with
  | zero => simp [alternating]
  | succ n =>
    rw [alternating_succ, List.getLast?_concat]
    split <;> simp <;> omega

/-- A signal that is not the one given last goes on by turns. -/
theorem alternating_concat {l : List Signal} (h : l = alternating l.length) {signal : Signal}
    (hlast : l.getLast? = some .pause ↔ signal = .resume) :
    l ++ [signal] = alternating (l ++ [signal]).length := by
  rw [List.length_append, List.length_singleton, alternating_succ, ← h]
  rw [h, getLast?_alternating] at hlast
  cases signal with
  | pause => rw [if_pos (by simp at hlast; omega)]
  | resume => rw [if_neg (by simp at hlast; omega)]

theorem pauseIfHigh_cases (s : BoundedAsyncInbox T ε) :
    s.pauseIfHigh o = (s, []) ∨ o.flow ≠ none ∧ s.paused = false ∧
      s.pauseIfHigh o = ({ s with paused := true }, [.signal .pause]) := by
  unfold pauseIfHigh
  split
  · rename_i h
    cases hflow : o.flow with
    | none => simp [hflow] at h
    | some flow =>
      simp only [hflow, Option.any_some, Bool.and_eq_true, Bool.not_eq_true'] at h
      exact .inr ⟨by simp, h.1, rfl⟩
  · exact .inl rfl

theorem resumeIfLow_cases (s : BoundedAsyncInbox T ε) :
    (s.resumeIfLow o = (s, []) ∧ ∀ flow, o.flow = some flow → s.paused = true → ¬s.low flow) ∨
      o.flow ≠ none ∧ s.paused = true ∧
        s.resumeIfLow o = ({ s with paused := false }, [.signal .resume]) := by
  unfold resumeIfLow
  split
  · rename_i h
    cases hflow : o.flow with
    | none => simp [hflow] at h
    | some flow =>
      simp only [hflow, Option.any_some, Bool.and_eq_true] at h
      exact .inr ⟨by simp, h.1, rfl⟩
  · rename_i h
    refine .inl ⟨rfl, fun flow hflow hpaused hlow => h ?_⟩
    simp [hflow, hpaused, hlow]

theorem pauseIfHigh_queue (s : BoundedAsyncInbox T ε) : (s.pauseIfHigh o).1.queue = s.queue := by
  obtain heq | ⟨-, -, heq⟩ := pauseIfHigh_cases (o := o) s <;> rw [heq]

/-- An inbox with nothing queued is below each mark. -/
theorem Kept.low (h : Kept o w) (hq : w.inbox.queue = []) (flow : Flow) : w.inbox.low flow := by
  have hbytes : w.inbox.bytes = 0 := by simp [h.bytes, hq]
  simp [BoundedAsyncInbox.low, hbytes, hq]

theorem Kept.pauseIfHigh (h : Kept o w) : Kept o (w.then (w.inbox.pauseIfHigh o)) := by
  obtain heq | ⟨hflow, hpaused, heq⟩ := pauseIfHigh_cases (o := o) w.inbox
  · simpa [World.then, heq] using h
  · rw [heq]
    have hlast : ¬(signals w.effects).getLast? = some .pause := by simp [← h.paused, hpaused]
    exact { h with
      accepted := by simpa [World.then] using h.accepted
      promises := by simpa [World.then] using h.promises
      alternate := by
        simpa [World.then] using (@alternating_concat _ h.alternate .pause) (by simp [hlast])
      paused := by simp [World.then]
      unsignalled := fun hnone => absurd hnone hflow }

theorem Kept.resumeIfLow (h : Kept o w) : Orderly o (w.then (w.inbox.resumeIfLow o)) := by
  obtain ⟨heq, hlow⟩ | ⟨hflow, hpaused, heq⟩ := resumeIfLow_cases (o := o) w.inbox
  · have heq' : w.then (w.inbox.resumeIfLow o) = w := by simp [World.then, heq]
    rw [heq']
    refine { h with resumed := fun hq hlast => ?_ }
    cases hflow : o.flow with
    | none => simp [h.unsignalled hflow] at hlast
    | some flow => exact hlow flow hflow (h.paused.mpr hlast) (h.low hq flow)
  · rw [heq]
    have hlast := h.paused.mp hpaused
    exact { h with
      accepted := by simpa [World.then] using h.accepted
      promises := by simpa [World.then] using h.promises
      alternate := by
        simpa [World.then] using (@alternating_concat _ h.alternate .resume) (by simp [hlast])
      paused := by simp [World.then]
      unsignalled := fun hnone => absurd hnone hflow
      resumed := by simp [World.then] }

/-- A value that is given to the first promise that waits. -/
theorem Orderly.hand (h : Orderly o w) {waiter : Nat} {waiters : List Nat}
    (hw : w.inbox.waiters = waiter :: waiters) (value : T) :
    Orderly o { w.then ({ w.inbox with waiters }, [.answer waiter (.value value)]) with
      accepted := w.accepted ++ [value] } := by
  have hq : w.inbox.queue = [] := h.apart.resolve_left (by simp [hw])
  exact { h with
    accepted := by simp [World.then, h.accepted, hq]
    promises := by simpa [World.then, hw] using h.promises
    apart := .inr hq
    alternate := by simpa [World.then] using h.alternate
    paused := by simpa [World.then] using h.paused
    unsignalled := by simpa [World.then] using h.unsignalled
    closed := fun hclosed => by simpa [hw] using h.closed hclosed
    resumed := by simpa [World.then] using h.resumed }

/-- A value that is queued, before the source is paused. -/
theorem Orderly.queued (h : Orderly o w) (hw : w.inbox.waiters = []) {item : Item T}
    (hnonneg : 0 ≤ item.bytes) (hitems : w.inbox.queue.length < o.maxItems)
    (hbytes : w.inbox.bytes + item.bytes ≤ o.maxBytes) :
    Kept o { w with
      inbox := { w.inbox with queue := w.inbox.queue ++ [item], bytes := w.inbox.bytes + item.bytes }
      accepted := w.accepted ++ [item.value] } where
  accepted := by simp [h.accepted]
  promises := h.promises
  apart := .inl hw
  bytes := by simp [h.bytes]
  bytes_le := hbytes
  items_le := by simpa [Nat.succ_le_iff] using hitems
  alternate := h.alternate
  paused := h.paused
  unsignalled := h.unsignalled
  nonneg := by
    intro x hx
    obtain hx | rfl := by simpa using hx
    · exact h.nonneg x hx
    · exact hnonneg
  closed := h.closed

/-- A push that finds room and nobody waiting. -/
theorem step_push_queued (hclosed : w.inbox.closed.isSome = false) (hw : w.inbox.waiters = [])
    {item : Item T} (hrange : ¬(item.bytes < 0 ∨ (o.maxBytes : Int) < item.bytes))
    (hroom : ¬(o.maxItems ≤ w.inbox.queue.length ∨
      (o.maxBytes : Int) < w.inbox.bytes + item.bytes)) :
    step o truthy w (.push item) =
      let inbox : BoundedAsyncInbox T ε :=
        { w.inbox with queue := w.inbox.queue ++ [item], bytes := w.inbox.bytes + item.bytes }
      { w.then (inbox.pauseIfHigh o) with accepted := w.accepted ++ [item.value] } := by
  simp only [step, BoundedAsyncInbox.push, hclosed, hw, if_neg hrange, if_neg hroom,
    Bool.false_eq_true, if_false]

theorem Orderly.push (h : Orderly o w) (item : Item T) : Orderly o (step o truthy w (.push item)) := by
  by_cases hclosed : w.inbox.closed.isSome
  · simpa [step, BoundedAsyncInbox.push, hclosed, World.then] using h
  by_cases hrange : item.bytes < 0 ∨ (o.maxBytes : Int) < item.bytes
  · simpa [step, BoundedAsyncInbox.push, hclosed, hrange] using h
  cases hw : w.inbox.waiters with
  | cons waiter waiters =>
    simpa [step, BoundedAsyncInbox.push, hclosed, hrange, hw] using h.hand hw item.value
  | nil =>
    by_cases hroom : o.maxItems ≤ w.inbox.queue.length ∨
        (o.maxBytes : Int) < w.inbox.bytes + item.bytes
    · simpa [step, BoundedAsyncInbox.push, hclosed, hrange, hw, hroom] using h
    · rw [step_push_queued (by simpa using hclosed) hw hrange hroom]
      simp only [not_or, not_le, not_lt] at hrange hroom
      have hkept := (h.queued hw hrange.1 hroom.1 hroom.2).pauseIfHigh
      refine { hkept with resumed := fun hq => ?_ }
      simp [World.then, pauseIfHigh_queue] at hq

theorem answered_all (waiters : List Nat) (answer : Answer T ε) :
    answered (waiters.map fun waiter => .answer waiter answer) = waiters := by
  simp [answered, List.filterMap_map]

theorem delivered_all (waiters : List Nat) {answer : Answer T ε}
    (h : ∀ value, answer ≠ .value value) :
    delivered (waiters.map fun waiter => .answer waiter answer) = [] := by
  cases answer with
  | value value => exact absurd rfl (h value)
  | done => simp [delivered, List.filterMap_map]
  | rejected error => simp [delivered, List.filterMap_map]

theorem signals_all (waiters : List Nat) (answer : Answer T ε) :
    signals (waiters.map fun waiter => .answer waiter answer) = [] := by
  simp [signals, List.filterMap_map]

/-- Every promise that waits is answered without a value. -/
theorem Orderly.turnAway (h : Orderly o w) (error : Option ε) {answer : Answer T ε}
    (hanswer : ∀ value, answer ≠ .value value) :
    Orderly o (w.then ({ w.inbox with closed := some error, waiters := [] },
      w.inbox.waiters.map fun waiter => .answer waiter answer)) :=
  { h with
    accepted := by simpa [World.then, delivered_all _ hanswer] using h.accepted
    promises := by simpa [World.then, answered_all] using h.promises
    apart := .inl rfl
    alternate := by simpa [World.then, signals_all] using h.alternate
    paused := by simpa [World.then, signals_all] using h.paused
    unsignalled := by simpa [World.then, signals_all] using h.unsignalled
    resumed := by simpa [World.then, signals_all] using h.resumed
    closed := fun _ => rfl }

theorem Orderly.close (h : Orderly o w) (error : Option ε) :
    Orderly o (step o truthy w (.close error)) := by
  unfold step BoundedAsyncInbox.close
  by_cases hclosed : w.inbox.closed.isSome
  · simpa [hclosed, World.then] using h
  · obtain ⟨answer, hanswer⟩ : ∃ answer : Answer T ε, (∀ value, answer ≠ .value value) ∧
        (fun waiter => match error.filter truthy with
          | some error => Effect.answer waiter (.rejected error)
          | none => Effect.answer waiter .done) = fun waiter => Effect.answer waiter answer := by
      cases error.filter truthy with
      | none => exact ⟨.done, nofun, rfl⟩
      | some error => exact ⟨.rejected error, nofun, rfl⟩
    simp only [hclosed, hanswer.2, Bool.false_eq_true, if_false]
    exact h.turnAway error hanswer.1

/-- The first of the queue is given to a promise, before the source is resumed. -/
theorem Orderly.taken (h : Orderly o w) {item : Item T} {queue : List (Item T)}
    (hq : w.inbox.queue = item :: queue) :
    Kept o { w with
      inbox := { w.inbox with queue, bytes := w.inbox.bytes - item.bytes }
      nexts := w.nexts + 1
      effects := w.effects ++ [Effect.answer w.nexts (.value item.value)] } := by
  have hw : w.inbox.waiters = [] := h.apart.resolve_right (by simp [hq])
  have hnonneg := h.nonneg item (by simp [hq])
  have hpromises := h.promises
  have hbytes := h.bytes
  have hbytes_le := h.bytes_le
  have hitems := h.items_le
  simp only [hw, List.append_nil] at hpromises
  simp only [hq, List.map_cons, List.sum_cons, List.length_cons] at hbytes hitems
  exact {
    accepted := by simp [h.accepted, hq]
    promises := by simp [hw, hpromises, List.range_succ]
    apart := .inl hw
    bytes := by simp [hbytes]
    bytes_le := by simp only; omega
    items_le := by simp only; omega
    alternate := by simpa using h.alternate
    paused := by simpa using h.paused
    unsignalled := by simpa using h.unsignalled
    nonneg := fun x hx => h.nonneg x (by simp [hq, hx])
    closed := fun _ => hw }

/-- The effects of a step may be told in another order of answers and signals. -/
theorem Orderly.reorder {effects : List (Effect T ε)} (h : Orderly o w)
    (hanswered : answered effects = answered w.effects)
    (hdelivered : delivered effects = delivered w.effects)
    (hsignals : signals effects = signals w.effects) : Orderly o { w with effects } where
  accepted := by simpa [hdelivered] using h.accepted
  promises := by simpa [hanswered] using h.promises
  apart := h.apart
  bytes := h.bytes
  bytes_le := h.bytes_le
  items_le := h.items_le
  alternate := by simpa [hsignals] using h.alternate
  paused := by simpa [hsignals] using h.paused
  unsignalled := by simpa [hsignals] using h.unsignalled
  nonneg := h.nonneg
  closed := h.closed
  resumed := by simpa [hsignals] using h.resumed

theorem resumeIfLow_effects (s : BoundedAsyncInbox T ε) :
    answered (s.resumeIfLow o).2 = [] ∧ delivered (s.resumeIfLow o).2 = [] := by
  obtain ⟨heq, -⟩ | ⟨-, -, heq⟩ := resumeIfLow_cases (o := o) s <;> rw [heq] <;> exact ⟨rfl, rfl⟩

/-- A promise with nothing queued, of a closed inbox. -/
theorem Orderly.nothingMore (h : Orderly o w) (hclosed : w.inbox.closed.isSome)
    {answer : Answer T ε} (hanswer : ∀ value, answer ≠ .value value) :
    Orderly o { w.then (w.inbox, [.answer w.nexts answer]) with nexts := w.nexts + 1 } := by
  have hdelivered := delivered_all [w.nexts] hanswer
  have hpromises := h.promises
  simp only [h.closed hclosed, List.append_nil] at hpromises
  simp only [List.map_cons, List.map_nil] at hdelivered
  exact { h with
    accepted := by simpa [World.then, hdelivered] using h.accepted
    promises := by simp [World.then, h.closed hclosed, hpromises, List.range_succ]
    alternate := by simpa [World.then] using h.alternate
    paused := by simpa [World.then] using h.paused
    unsignalled := by simpa [World.then] using h.unsignalled
    resumed := by simpa [World.then] using h.resumed }

/-- A promise that waits. -/
theorem Orderly.waits (h : Orderly o w) (hq : w.inbox.queue = [])
    (hclosed : w.inbox.closed = none) :
    Orderly o { w.then ({ w.inbox with waiters := w.inbox.waiters ++ [w.nexts] }, []) with
      nexts := w.nexts + 1 } :=
  { h with
    accepted := by simpa [World.then] using h.accepted
    promises := by simp [World.then, ← List.append_assoc, h.promises, List.range_succ]
    apart := .inr hq
    alternate := by simpa [World.then] using h.alternate
    paused := by simpa [World.then] using h.paused
    unsignalled := by simpa [World.then] using h.unsignalled
    resumed := by simpa [World.then] using h.resumed
    closed := fun hsome => by simp [World.then, hclosed] at hsome }

theorem Orderly.next (h : Orderly o w) : Orderly o (step o truthy w .next) := by
  cases hq : w.inbox.queue with
  | cons item queue =>
    simp only [step, BoundedAsyncInbox.next, hq]
    obtain ⟨hanswered, hdelivered⟩ := resumeIfLow_effects (o := o)
      { w.inbox with queue, bytes := w.inbox.bytes - item.bytes }
    refine (h.taken hq).resumeIfLow.reorder ?_ ?_ ?_
    · simp [World.then, hanswered]
    · simp [World.then, hdelivered]
    · simp [World.then]
  | nil =>
    cases hclosed : w.inbox.closed with
    | none =>
      have hnext : w.inbox.next o w.nexts =
          ({ w.inbox with waiters := w.inbox.waiters ++ [w.nexts] }, []) := by
        rw [BoundedAsyncInbox.next]
        simp only [hq, hclosed]
      rw [step, hnext]
      exact h.waits hq hclosed
    | some error =>
      obtain ⟨answer, hanswer, hnext⟩ : ∃ answer : Answer T ε, (∀ value, answer ≠ .value value) ∧
          w.inbox.next o w.nexts = (w.inbox, [.answer w.nexts answer]) := by
        rw [BoundedAsyncInbox.next]
        simp only [hq, hclosed]
        cases error with
        | none => exact ⟨.done, nofun, rfl⟩
        | some error => exact ⟨.rejected error, nofun, rfl⟩
      rw [step, hnext]
      exact h.nothingMore (by simp [hclosed]) hanswer

/-- After any calls of `push`, `next` and `close`. -/
theorem orderly (o : Options) (truthy : ε → Bool) (as : List (Action T ε)) :
    Orderly o (run o truthy as) := by
  induction as using List.reverseRecOn with
  | nil =>
    exact {
      accepted := rfl
      promises := rfl
      apart := .inl rfl
      bytes := rfl
      bytes_le := Int.natCast_nonneg _
      items_le := Nat.zero_le _
      alternate := rfl
      paused := by simp [run, signals]
      unsignalled := fun _ => rfl
      nonneg := nofun
      closed := nofun
      resumed := by simp [run, signals] }
  | append_singleton as a ih =>
    have hrun : run o truthy (as ++ [a]) = step o truthy (run o truthy as) a := by
      rw [run, List.foldl_append]
      rfl
    rw [hrun]
    cases a with
    | push item => exact ih.push item
    | next => exact ih.next
    | close error => exact ih.close error

end BoundedInbox

end Opensteer
