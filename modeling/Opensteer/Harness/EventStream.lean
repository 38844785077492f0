import Mathlib.Algebra.BigOperators.Group.List.Basic
import Mathlib.Algebra.Order.BigOperators.Group.List
import Mathlib.Data.Rat.Floor
import Mathlib.Tactic.Linarith

/-!
# A bounded event stream

`BoundedEventStream`: events published by a driver and read by `next`, within a ceiling in items
and bytes. A publish goes to the first call of `next` that waits, takes the place of a disposable
event of the same key, or is queued; an event that must be delivered may cost disposable ones, and
where that does not make room for it, it closes the stream.

A promise of `next` is named by the number of calls before it, a publish by the number of
publishes before it. `World` is a stream with what was done and a record of which publishes it
took; `Kept` says what holds after any calls, and `Overflows` what a publish that finds no room
leaves.
-/

namespace Opensteer

namespace EventStream

inductive Delivery
  | mustDeliver
  | disposable
deriving DecidableEq, Repr

structure PublishOptions where
  delivery : Delivery
  coalesceKey : Option String := none
deriving DecidableEq

/-- What `sizeOf` comes to: a finite number, another one, or an error it throws. -/
inductive Measured (ε : Type*)
  | number (size : ℚ)
  | notFinite
  | threw (error : ε)

/-- What `publish` throws. -/
inductive PublishError (ε : Type*)
  | closed
  | invalidSize
  | measure (error : ε)
  | overflow

/-- What a stream is closed with, where that is not undefined. -/
inductive StreamError (ε : Type*)
  | overflow
  | given (error : ε)

structure BufferedItem (T : Type*) where
  value : T
  bytes : Int
  delivery : Delivery
  coalesceKey : Option String

/-- `BoundedEventStreamOptions` that the constructor does not refuse. -/
structure Options (T ε : Type*) where
  maxBytes : Nat
  maxItems : Nat
  sizeOf : T → Measured ε
  maxBytes_pos : 1 ≤ maxBytes
  maxItems_pos : 1 ≤ maxItems

/-- What a promise of `next` comes to. -/
inductive Answer (T ε : Type*)
  | value (value : T)
  | done
  | rejected (error : StreamError ε)

/-- A promise of `next` is settled. -/
structure Effect (T ε : Type*) where
  next : Nat
  answer : Answer T ε

variable {T ε : Type*}

/-- `#safeSize` -/
def Options.safeSize (o : Options T ε) (value : T) : Except (PublishError ε) Int :=
  match o.sizeOf value with
  | .threw error => .error (.measure error)
  | .notFinite => .error .invalidSize
  | .number size => if size < 0 then .error .invalidSize else .ok ⌈size⌉

/-- `#fits`, of so many items queued with so many bytes. -/
def Options.fits (o : Options T ε) (items : Nat) (bufferedBytes bytes : Int) : Prop :=
  items < o.maxItems ∧ bufferedBytes + bytes ≤ o.maxBytes

instance (o : Options T ε) (items : Nat) (bufferedBytes bytes : Int) :
    Decidable (o.fits items bufferedBytes bytes) := inferInstanceAs (Decidable (_ ∧ _))

/-- The loop of `#evictDisposable`, with the items of `kept` before its index. -/
def Options.evictFrom (o : Options T ε) (bytes : Int) :
    List (BufferedItem T) → List (BufferedItem T) → Int → List (BufferedItem T) × Int
  | kept, [], bufferedBytes => (kept, bufferedBytes)
  | kept, item :: rest, bufferedBytes =>
    if o.fits (kept.length + (rest.length + 1)) bufferedBytes bytes then
      (kept ++ item :: rest, bufferedBytes)
    else if item.delivery = .disposable then
      o.evictFrom bytes kept rest (bufferedBytes - item.bytes)
    else o.evictFrom bytes (kept ++ [item]) rest bufferedBytes

end EventStream

open EventStream

/-- `closed` is `none` while the stream is open, and `some none` where it closed with no error. -/
structure BoundedEventStream (T ε : Type*) where
  queue : List (BufferedItem T) := []
  waiting : List Nat := []
  bufferedBytes : Int := 0
  closed : Option (Option (StreamError ε)) := none

namespace BoundedEventStream

variable {T ε : Type*} (o : Options T ε) (s : BoundedEventStream T ε)

/-- What a call of `publish` leaves, settles, and returns or throws. -/
structure Published (T ε : Type*) where
  stream : BoundedEventStream T ε
  effects : List (Effect T ε)
  outcome : Except (PublishError ε) Bool

/-- An empty key coalesces nothing. -/
def coalescesWith (options : PublishOptions) (item : BufferedItem T) : Bool :=
  options.delivery = .disposable ∧ options.coalesceKey.any (· ≠ "") ∧
    item.delivery = .disposable ∧ item.coalesceKey = options.coalesceKey

/-- `existingIndex` and `existing` -/
def existing (options : PublishOptions) : Option (Nat × BufferedItem T) :=
  (s.queue.findIdx? (coalescesWith options)).bind fun index => (s.queue[index]?).map (index, ·)

def close (error : Option (StreamError ε)) : BoundedEventStream T ε × List (Effect T ε) :=
  if s.closed.isSome then (s, [])
  else
    ({ s with closed := some error, waiting := [] },
      s.waiting.map fun consumer =>
        ⟨consumer, match error with
          | none => .done
          | some error => .rejected error⟩)

/-- `#evictDisposable` -/
def evictDisposable (bytes : Int) : BoundedEventStream T ε :=
  let (queue, bufferedBytes) := o.evictFrom bytes [] s.queue s.bufferedBytes
  { s with queue, bufferedBytes }

def append (item : BufferedItem T) : BoundedEventStream T ε :=
  { s with queue := s.queue ++ [item], bufferedBytes := s.bufferedBytes + item.bytes }

/-- `publish` of an event that takes no other's place. -/
def enqueue (item : BufferedItem T) : Published T ε :=
  if o.fits s.queue.length s.bufferedBytes item.bytes then ⟨s.append item, [], .ok true⟩
  else if item.delivery = .disposable then ⟨s, [], .ok false⟩
  else
    let s := s.evictDisposable o item.bytes
    if o.fits s.queue.length s.bufferedBytes item.bytes then ⟨s.append item, [], .ok true⟩
    else
      let (s, effects) := s.close (some .overflow)
      ⟨s, effects, .error .overflow⟩

def publish (value : T) (options : PublishOptions) : Published T ε :=
  if s.closed.isSome then ⟨s, [], .error .closed⟩
  else match s.waiting with
    | consumer :: waiting => ⟨{ s with waiting }, [⟨consumer, .value value⟩], .ok true⟩
    | [] =>
      match o.safeSize value with
      | .error error => ⟨s, [], .error error⟩
      | .ok bytes =>
        let item := ⟨value, bytes, options.delivery, options.coalesceKey⟩
        match s.existing options with
        | some (existingIndex, existing) =>
          let prospectiveBytes := s.bufferedBytes - existing.bytes + bytes
          if (o.maxBytes : Int) < prospectiveBytes then ⟨s, [], .ok false⟩
          else
            ⟨{ s with queue := s.queue.set existingIndex item, bufferedBytes := prospectiveBytes },
              [], .ok true⟩
        | none => s.enqueue o item

/-- `next`, whose promise is the one of the number. -/
def next (promise : Nat) : BoundedEventStream T ε × List (Effect T ε) :=
  match s.queue with
  | item :: queue =>
    ({ s with queue, bufferedBytes := s.bufferedBytes - item.bytes },
      [⟨promise, .value item.value⟩])
  | [] =>
    match s.closed with
    | some none => (s, [⟨promise, .done⟩])
    | some (some error) => (s, [⟨promise, .rejected error⟩])
    | none => ({ s with waiting := s.waiting ++ [promise] }, [])

end BoundedEventStream

namespace EventStream

open BoundedEventStream

variable {T ε : Type*}

/-- A value, with the call of `publish` it came with. -/
structure Publication (T : Type*) where
  number : Nat
  options : PublishOptions
  value : T

/-- The stream does not look into a value but for its size. -/
def Options.published (o : Options T ε) : Options (Publication T) ε :=
  { o with sizeOf := fun publication => o.sizeOf publication.value }

inductive Action (T ε : Type*)
  | publish (value : T) (options : PublishOptions)
  | next
  | close (error : Option ε)

/-- A stream with the numbers of calls of `publish` and `next`, what was settled, the publishes
that returned true, and the pairs of which the first was queued ahead of the second when the
second took its place. -/
structure World (T ε : Type*) where
  stream : BoundedEventStream (Publication T) ε := {}
  publishes : Nat := 0
  nexts : Nat := 0
  effects : List (Effect (Publication T) ε) := []
  accepted : List (Publication T) := []
  ahead : List (Nat × Nat) := []

/-- The numbers of what is queued. -/
def queued (s : BoundedEventStream (Publication T) ε) : List Nat :=
  s.queue.map (·.value.number)

/-- What was published with `number` has returned true. -/
def World.accept (w : World T ε) (publication : Publication T) : World T ε :=
  { w with
    accepted := w.accepted ++ [publication]
    ahead := w.ahead ++
      ((queued w.stream).takeWhile (· ≠ publication.number)).map (·, publication.number) }

/-- The world after a call of `publish`. -/
def World.landed (w : World T ε) (r : Published (Publication T) ε) (publication : Publication T) :
    World T ε :=
  let w := { w with
    stream := r.stream
    publishes := w.publishes + 1
    effects := w.effects ++ r.effects }
  match r.outcome with
  | .ok true => w.accept publication
  | _ => w

def step (o : Options T ε) (w : World T ε) : Action T ε → World T ε
  | .publish value options =>
    let publication := ⟨w.publishes, options, value⟩
    w.landed (w.stream.publish o.published publication options) publication
  | .next =>
    let (stream, effects) := w.stream.next w.nexts
    { w with stream, nexts := w.nexts + 1, effects := w.effects ++ effects }
  | .close error =>
    let (stream, effects) := w.stream.close (error.map .given)
    { w with stream, effects := w.effects ++ effects }

def run (o : Options T ε) (w : World T ε) (as : List (Action T ε)) : World T ε :=
  as.foldl (step o) w

end EventStream

end Opensteer
