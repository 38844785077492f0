import Mathlib.Data.List.Nodup
import Opensteer.Harness.EventStream

/-!
# What an event stream delivers

`Kept` holds of a stream after any calls: `Kept.step`, `kept_run`. A publish that must be
delivered throws only where `Refused` says, and one that finds no room leaves what `Overflowed`
says: `overflowed` for the call, `run_overflowed` for what comes after it. `eventStream_delivers`
is the two together.
-/

namespace Opensteer

namespace EventStream

open BoundedEventStream

variable {T ε : Type*}

/-- The values that `next` gave. -/
def delivered (effects : List (Effect T ε)) : List T :=
  effects.filterMap fun effect =>
    match effect.answer with
    | .value value => some value
    | _ => none

def must (l : List (Publication T)) : List (Publication T) :=
  l.filter (·.options.delivery = .mustDeliver)

def values (s : BoundedEventStream T ε) : List T := s.queue.map (·.value)

/-- What was delivered, then what is queued. -/
def World.held (w : World T ε) : List (Publication T) := delivered w.effects ++ values w.stream

def World.numbers (w : World T ε) : List Nat := w.held.map (·.number)

def bytesOf (l : List (BufferedItem T)) : Int := (l.map (·.bytes)).sum

/-- What holds of a stream alone: its queue is within the ceiling, with its bytes counted, and a
promise that waits and a value that is queued never meet. -/
structure Within (o : Options T ε) (s : BoundedEventStream (Publication T) ε) : Prop where
  kind : ∀ item ∈ s.queue, item.delivery = item.value.options.delivery
  apart : s.waiting = [] ∨ s.queue = []
  bytes : s.bufferedBytes = bytesOf s.queue
  nonneg : ∀ item ∈ s.queue, 0 ≤ item.bytes
  bytes_le : s.bufferedBytes ≤ o.maxBytes
  items_le : s.queue.length ≤ o.maxItems
  closed : s.closed.isSome → s.waiting = []

/-- What holds of a stream after any calls. The values that must be delivered are those of the
publishes that returned true, in their order; nothing is held twice, nor before what was queued
ahead of it; the promises are answered in their order. -/
structure Kept (o : Options T ε) (w : World T ε) : Prop extends Within o w.stream where
  mustDeliver : must w.accepted = must w.held
  accepted : ∀ p ∈ w.held, p ∈ w.accepted
  nodup : w.numbers.Nodup
  fresh : ∀ p ∈ w.accepted, p.number < w.publishes
  inPlace : ∀ pair ∈ w.ahead, ¬[pair.2, pair.1].Sublist w.numbers
  known : ∀ pair ∈ w.ahead, pair.1 < w.publishes ∧ pair.2 < w.publishes
  promises : w.effects.map (·.next) ++ w.stream.waiting = List.range w.nexts

variable {o : Options T ε} {w : World T ε}

@[simp] theorem delivered_append (as bs : List (Effect T ε)) :
    delivered (as ++ bs) = delivered as ++ delivered bs := List.filterMap_append

@[simp] theorem delivered_nil : delivered ([] : List (Effect T ε)) = [] := rfl

@[simp] theorem delivered_value (promise : Nat) (value : T) (l : List (Effect T ε)) :
    delivered (⟨promise, .value value⟩ :: l) = value :: delivered l := rfl

@[simp] theorem must_append (as bs : List (Publication T)) : must (as ++ bs) = must as ++ must bs :=
  List.filter_append ..

@[simp] theorem bytesOf_append (as bs : List (BufferedItem T)) :
    bytesOf (as ++ bs) = bytesOf as + bytesOf bs := by simp [bytesOf]

@[simp] theorem bytesOf_cons (item : BufferedItem T) (l : List (BufferedItem T)) :
    bytesOf (item :: l) = item.bytes + bytesOf l := by simp [bytesOf]

@[simp] theorem bytesOf_nil : bytesOf ([] : List (BufferedItem T)) = 0 := rfl

theorem bytesOf_nonneg {l : List (BufferedItem T)} (h : ∀ item ∈ l, 0 ≤ item.bytes) :
    0 ≤ bytesOf l := by
  refine List.sum_nonneg fun n hn => ?_
  obtain ⟨item, hitem, rfl⟩ := List.mem_map.mp hn
  exact h item hitem

/-! ## Eviction -/

/-- What the loop keeps: items in their order, each that must be delivered; and it stops with room
for the bytes, or with no disposable item. -/
structure Evicted (o : Options T ε) (bytes : Int) (before : List (BufferedItem T)) (total : Int)
    (r : List (BufferedItem T) × Int) : Prop where
  sublist : r.1.Sublist before
  must : r.1.filter (·.delivery = .mustDeliver) = before.filter (·.delivery = .mustDeliver)
  balance : r.2 - bytesOf r.1 = total - bytesOf before
  stops : o.fits r.1.length r.2 bytes ∨ ∀ item ∈ r.1, item.delivery = .mustDeliver

theorem evicted_from (bytes : Int) (kept rest : List (BufferedItem T)) (total : Int)
    (hkept : ∀ item ∈ kept, item.delivery = .mustDeliver) :
    Evicted o bytes (kept ++ rest) total (o.evictFrom bytes kept rest total) := by
  induction rest generalizing kept total with
  | nil =>
    rw [List.append_nil]
    exact ⟨.refl _, rfl, rfl, .inr hkept⟩
  | cons item rest ih =>
    unfold Options.evictFrom
    split
    · rename_i hfits
      exact ⟨.refl _, rfl, rfl, .inl (by simpa using hfits)⟩
    split
    · rename_i hdelivery
      have h := ih kept (total - item.bytes) hkept
      refine ⟨h.sublist.trans (by simp), h.must.trans (by simp [hdelivery]), ?_, h.stops⟩
      have hbytes := h.balance
      simp only [bytesOf_append, bytesOf_cons] at hbytes ⊢
      linarith
    · rename_i hdelivery
      have hmust : item.delivery = .mustDeliver := by
        cases hd : item.delivery with
        | mustDeliver => rfl
        | disposable => exact absurd hd hdelivery
      have h := ih (kept ++ [item]) total (by
        intro x hx
        obtain hx | rfl := by simpa using hx
        · exact hkept x hx
        · exact hmust)
      rwa [List.append_assoc, List.singleton_append] at h

theorem evicted (bytes : Int) (s : BoundedEventStream T ε) :
    Evicted o bytes s.queue s.bufferedBytes
      ((s.evictDisposable o bytes).queue, (s.evictDisposable o bytes).bufferedBytes) :=
  evicted_from bytes [] s.queue s.bufferedBytes nofun

theorem must_values {l : List (BufferedItem (Publication T))}
    (h : ∀ item ∈ l, item.delivery = item.value.options.delivery) :
    must (l.map (·.value)) = (l.filter (·.delivery = .mustDeliver)).map (·.value) := by
  rw [must, List.filter_map]
  congr 1
  refine List.filter_congr fun item hitem => ?_
  simp [h item hitem]

/-- The world with another stream. -/
def World.become (w : World T ε) (s : BoundedEventStream (Publication T) ε) : World T ε :=
  { w with stream := s }

/-- A stream whose queue was evicted from. -/
theorem Kept.of_evicted (h : Kept o w) {bytes : Int} {s : BoundedEventStream (Publication T) ε}
    (he : Evicted o.published bytes w.stream.queue w.stream.bufferedBytes
      (s.queue, s.bufferedBytes))
    (hwaiting : s.waiting = w.stream.waiting) (hclosed : s.closed = w.stream.closed) :
    Kept o (w.become s) := by
  have hsub : (w.become s).held.Sublist w.held := (List.Sublist.refl _).append (he.sublist.map _)
  have hkind : ∀ item ∈ s.queue, item.delivery = item.value.options.delivery :=
    fun item hitem => h.kind item (he.sublist.subset hitem)
  have hbytes : s.bufferedBytes = bytesOf s.queue := by
    have hbalance := he.balance
    rw [h.bytes, sub_self] at hbalance
    exact sub_eq_zero.mp hbalance
  have hle : bytesOf s.queue ≤ bytesOf w.stream.queue :=
    (he.sublist.map _).sum_le_sum fun n hn => by
      obtain ⟨item, hitem, rfl⟩ := List.mem_map.mp hn
      exact h.nonneg item hitem
  have hmust : must (values s) = must (values w.stream) := by
    rw [values, values, must_values hkind, must_values h.kind]
    exact congrArg _ he.must
  exact {
    mustDeliver := by
      show must w.accepted = must (delivered w.effects ++ values s)
      rw [h.mustDeliver, World.held, must_append, must_append, hmust]
    accepted := fun p hp => h.accepted p (hsub.subset hp)
    kind := hkind
    nodup := h.nodup.sublist (hsub.map _)
    fresh := h.fresh
    inPlace := fun pair hpair hs => h.inPlace pair hpair (hs.trans (hsub.map _))
    known := h.known
    promises := by rw [World.become, hwaiting]; exact h.promises
    apart := by
      rw [World.become, hwaiting]
      refine h.apart.imp id fun hq => ?_
      have hsublist := he.sublist
      rw [hq] at hsublist
      exact List.sublist_nil.mp hsublist
    bytes := hbytes
    nonneg := fun item hitem => h.nonneg item (he.sublist.subset hitem)
    bytes_le := by
      show s.bufferedBytes ≤ o.maxBytes
      exact (hbytes.trans_le hle).trans (h.bytes ▸ h.bytes_le)
    items_le := he.sublist.length_le.trans h.items_le
    closed := by rw [World.become, hwaiting, hclosed]; exact h.closed }

theorem Kept.evict (h : Kept o w) (bytes : Int) :
    Kept o (w.become (w.stream.evictDisposable o.published bytes)) :=
  h.of_evicted (evicted bytes w.stream) rfl rfl

/-! ## The calls -/

/-- A publish that is not taken. -/
theorem Kept.skip (h : Kept o w) : Kept o { w with publishes := w.publishes + 1 } :=
  { h with
    fresh := fun p hp => Nat.lt_succ_of_lt (h.fresh p hp)
    known := fun pair hpair =>
      ⟨Nat.lt_succ_of_lt (h.known pair hpair).1, Nat.lt_succ_of_lt (h.known pair hpair).2⟩ }

theorem Kept.number_lt (h : Kept o w) {n : Nat} (hn : n ∈ w.numbers) : n < w.publishes := by
  obtain ⟨p, hp, rfl⟩ := List.mem_map.mp hn
  exact h.fresh p (h.accepted p hp)

/-- What `step` makes of a publish that was taken. -/
def World.publish (w : World T ε) (s : BoundedEventStream (Publication T) ε)
    (effects : List (Effect (Publication T) ε)) (p : Publication T) : World T ε :=
  { w with
    stream := s
    publishes := w.publishes + 1
    effects := w.effects ++ effects }.accept p

/-- Two that are not the new one stood in their order before it. -/
theorem pair_sublist_of_ne {l r : List Nat} {a b x : Nat} (h : [a, b].Sublist (l ++ x :: r))
    (ha : a ≠ x) (hb : b ≠ x) : [a, b].Sublist (l ++ r) := by
  have hfilter := h.filter (· ≠ x)
  have hpair : [a, b].filter (· ≠ x) = [a, b] := by simp [ha, hb]
  have hlist : (l ++ x :: r).filter (· ≠ x) = (l ++ r).filter (· ≠ x) := by simp
  rw [hpair, hlist] at hfilter
  exact hfilter.trans List.filter_sublist

theorem mem_of_mem_takeWhile {l r : List Nat} {m n : Nat}
    (h : m ∈ (l ++ n :: r).takeWhile (· ≠ n)) : m ∈ l := by
  induction l with
  | nil => simp at h
  | cons x l ih =>
    rw [List.cons_append, List.takeWhile_cons] at h
    split at h
    · obtain rfl | h := List.mem_cons.mp h
      · exact List.mem_cons_self
      · exact List.mem_cons_of_mem _ (ih h)
    · cases h

theorem not_pair_sublist {l r : List Nat} {m x : Nat} (h : (l ++ x :: r).Nodup) (hm : m ∈ l) :
    ¬[x, m].Sublist (l ++ x :: r) := by
  intro hs
  obtain ⟨-, -, hdisjoint⟩ := List.nodup_append.mp h
  obtain ⟨l₁, l₂, heq, hl₁, hl₂⟩ := List.sublist_append_iff.mp hs
  cases l₁ with
  | nil =>
    rw [List.nil_append] at heq
    exact hdisjoint m hm m (hl₂.subset (heq ▸ by simp)) rfl
  | cons y l₁ =>
    obtain rfl : x = y := (List.cons.inj heq).1
    exact hdisjoint x (hl₁.subset (by simp)) x (by simp) rfl

/-- A publish that was taken: it stands last of what is held, or in the place of a disposable
event, behind all that was queued ahead of it. -/
theorem Kept.took (h : Kept o w) (before old after : List (Publication T))
    {s : BoundedEventStream (Publication T) ε} {effects : List (Effect (Publication T) ε)}
    {p : Publication T} (hs : Within o s) (hp : p.number = w.publishes)
    (hheld : w.held = before ++ (old ++ after))
    (hheld' : (w.publish s effects p).held = before ++ p :: after)
    (hold : must old = []) (hlast : p.options.delivery = .mustDeliver → after = [])
    (hahead : ∀ m ∈ (queued s).takeWhile (· ≠ p.number), m ∈ before.map (·.number))
    (hpromises : (w.effects ++ effects).map (·.next) ++ s.waiting = List.range w.nexts) :
    Kept o (w.publish s effects p) := by
  have hnumbers : w.numbers =
      before.map (·.number) ++ (old.map (·.number) ++ after.map (·.number)) := by
    simp [World.numbers, hheld]
  have hnumbers' : (w.publish s effects p).numbers =
      before.map (·.number) ++ p.number :: after.map (·.number) := by
    simp [World.numbers, hheld']
  have hsub : (before.map (·.number) ++ after.map (·.number)).Sublist w.numbers := by
    rw [hnumbers]
    exact (List.Sublist.refl _).append (List.sublist_append_right _ _)
  have hnew : ∀ n ∈ w.numbers, n ≠ p.number := fun n hn => hp ▸ (h.number_lt hn).ne
  have hnodup : (w.publish s effects p).numbers.Nodup := by
    rw [hnumbers', List.nodup_middle, List.nodup_cons]
    exact ⟨fun hmem => hnew _ (hsub.subset hmem) rfl, h.nodup.sublist hsub⟩
  exact { hs with
    mustDeliver := by
      show must (w.accepted ++ [p]) = must (w.publish s effects p).held
      rw [hheld', must_append, h.mustDeliver, hheld, ← List.singleton_append, must_append,
        must_append, must_append, must_append, hold, List.nil_append]
      cases hd : p.options.delivery with
      | mustDeliver => simp [hlast hd, must]
      | disposable => simp [must, hd]
    accepted := by
      intro q hq
      rw [hheld'] at hq
      show q ∈ w.accepted ++ [p]
      obtain hq | rfl | hq := by simpa using hq
      · exact List.mem_append_left _ (h.accepted q (by simp [hheld, hq]))
      · simp
      · exact List.mem_append_left _ (h.accepted q (by simp [hheld, hq]))
    nodup := hnodup
    fresh := by
      intro q hq
      obtain hq | rfl : q ∈ w.accepted ∨ q = p := by simpa [World.publish, World.accept] using hq
      · exact Nat.lt_succ_of_lt (h.fresh q hq)
      · exact hp ▸ Nat.lt_succ_self _
    inPlace := by
      intro pair hpair hpairs
      rw [hnumbers'] at hpairs
      obtain hpair | ⟨m, hm, rfl⟩ : pair ∈ w.ahead ∨
          ∃ m ∈ (queued s).takeWhile (· ≠ p.number), (m, p.number) = pair := by
        simpa only [World.publish, World.accept, List.mem_append, List.mem_map] using hpair
      · have hknown := h.known pair hpair
        exact h.inPlace pair hpair
          ((pair_sublist_of_ne hpairs (hp ▸ hknown.2.ne) (hp ▸ hknown.1.ne)).trans hsub)
      · rw [hnumbers'] at hnodup
        exact not_pair_sublist hnodup (hahead m hm) hpairs
    known := by
      intro pair hpair
      obtain hpair | ⟨m, hm, rfl⟩ : pair ∈ w.ahead ∨
          ∃ m ∈ (queued s).takeWhile (· ≠ p.number), (m, p.number) = pair := by
        simpa only [World.publish, World.accept, List.mem_append, List.mem_map] using hpair
      · exact ⟨Nat.lt_succ_of_lt (h.known pair hpair).1, Nat.lt_succ_of_lt (h.known pair hpair).2⟩
      · refine ⟨Nat.lt_succ_of_lt (h.number_lt ?_), hp ▸ Nat.lt_succ_self _⟩
        rw [hnumbers]
        exact List.mem_append_left _ (hahead m hm)
    promises := hpromises }

/-- A publish that is given to the first promise that waits. -/
theorem Kept.hand (h : Kept o w) {consumer : Nat} {waiting : List Nat}
    (hw : w.stream.waiting = consumer :: waiting) {p : Publication T}
    (hp : p.number = w.publishes) :
    Kept o (w.publish { w.stream with waiting } [⟨consumer, .value p⟩] p) := by
  have hq : w.stream.queue = [] := h.apart.resolve_left (by simp [hw])
  have hs : Within o { w.stream with waiting } :=
    { h.toWithin with
      apart := .inr hq
      closed := fun hclosed => absurd (h.closed hclosed) (by simp [hw]) }
  exact h.took w.held [] [] hs hp (by simp)
    (by simp [World.publish, World.accept, World.held, values, hq]) rfl (fun _ => rfl)
    (by simp [queued, hq]) (by simpa [hw] using h.promises)

/-- A publish that is queued. -/
theorem Kept.append (h : Kept o w) (hw : w.stream.waiting = [])
    {item : BufferedItem (Publication T)}
    (hp : item.value.number = w.publishes) (hkind : item.delivery = item.value.options.delivery)
    (hnonneg : 0 ≤ item.bytes)
    (hfits : o.fits w.stream.queue.length w.stream.bufferedBytes item.bytes) :
    Kept o (w.publish (w.stream.append item) [] item.value) := by
  have hs : Within o (w.stream.append item) :=
    { kind := by
        intro x hx
        obtain hx | rfl := by simpa [BoundedEventStream.append] using hx
        · exact h.kind x hx
        · exact hkind
      apart := .inl hw
      bytes := by simp [BoundedEventStream.append, h.bytes]
      nonneg := by
        intro x hx
        obtain hx | rfl := by simpa [BoundedEventStream.append] using hx
        · exact h.nonneg x hx
        · exact hnonneg
      bytes_le := hfits.2
      items_le := by simpa [BoundedEventStream.append, Nat.succ_le_iff] using hfits.1
      closed := h.closed }
  refine h.took w.held [] [] hs hp (by simp)
    (by simp [World.publish, World.accept, World.held, values, BoundedEventStream.append]) rfl
    (fun _ => rfl) (fun m hm => ?_) (by simpa [BoundedEventStream.append] using h.promises)
  have hqueued : queued (w.stream.append item) = queued w.stream ++ item.value.number :: [] := by
    simp [queued, BoundedEventStream.append]
  rw [hqueued] at hm
  have hmem := mem_of_mem_takeWhile hm
  rw [queued] at hmem
  simp only [World.held, values, List.map_append, List.map_map, List.mem_append]
  exact .inr hmem

/-- A publish that takes the place of a disposable event. -/
theorem Kept.replace (h : Kept o w) {ahead behind : List (BufferedItem (Publication T))}
    {old : BufferedItem (Publication T)} (item : BufferedItem (Publication T))
    (hq : w.stream.queue = ahead ++ old :: behind)
    (hold : old.delivery = .disposable) (hp : item.value.number = w.publishes)
    (hkind : item.delivery = item.value.options.delivery) (hitem : item.delivery = .disposable)
    (hnonneg : 0 ≤ item.bytes)
    (hbytes : w.stream.bufferedBytes - old.bytes + item.bytes ≤ o.maxBytes) :
    Kept o (w.publish
      { w.stream with
        queue := ahead ++ item :: behind
        bufferedBytes := w.stream.bufferedBytes - old.bytes + item.bytes } [] item.value) := by
  have hw : w.stream.waiting = [] := h.apart.resolve_right (by simp [hq])
  have hcount := h.bytes
  have hitems := h.items_le
  rw [hq] at hcount hitems
  have hmem : ∀ x ∈ ahead ++ item :: behind, x ∈ w.stream.queue ∨ x = item := by
    intro x hx
    rw [hq]
    simp only [List.mem_append, List.mem_cons] at hx ⊢
    tauto
  have hs : Within o { w.stream with
      queue := ahead ++ item :: behind
      bufferedBytes := w.stream.bufferedBytes - old.bytes + item.bytes } :=
    { kind := fun x hx => (hmem x hx).elim (h.kind x) (fun hx => hx ▸ hkind)
      apart := .inl hw
      bytes := by
        simp only [bytesOf_append, bytesOf_cons] at hcount ⊢
        linarith
      nonneg := fun x hx => (hmem x hx).elim (h.nonneg x) (fun hx => hx ▸ hnonneg)
      bytes_le := hbytes
      items_le := by simpa using hitems
      closed := h.closed }
  have holdKind : old.value.options.delivery = .disposable :=
    (h.kind old (by simp [hq])).symm.trans hold
  refine h.took (delivered w.effects ++ ahead.map (·.value)) [old.value]
    (behind.map (·.value)) hs hp (by simp [World.held, values, hq])
    (by simp [World.publish, World.accept, World.held, values]) (by simp [must, holdKind])
    (fun hmust => by rw [← hkind, hitem] at hmust; cases hmust) (fun m hm => ?_)
    (by simpa using h.promises)
  simp only [queued, List.map_append, List.map_cons] at hm
  have hmem := mem_of_mem_takeWhile hm
  rw [List.map_append, List.map_map]
  exact List.mem_append_right _ hmem

theorem close_next (s : BoundedEventStream T ε) (error : Option (StreamError ε)) :
    (s.close error).2.map (·.next) ++ (s.close error).1.waiting = s.waiting := by
  unfold BoundedEventStream.close
  split <;> simp [Function.comp_def]

theorem delivered_close (s : BoundedEventStream T ε) (error : Option (StreamError ε)) :
    delivered (s.close error).2 = [] := by
  unfold BoundedEventStream.close
  split
  · rfl
  · cases error <;> simp [delivered, List.filterMap_map]

theorem close_queue (s : BoundedEventStream T ε) (error : Option (StreamError ε)) :
    (s.close error).1.queue = s.queue := by
  unfold BoundedEventStream.close
  split <;> rfl

theorem Within.close {s : BoundedEventStream (Publication T) ε} (h : Within o s)
    (error : Option (StreamError ε)) : Within o (s.close error).1 := by
  unfold BoundedEventStream.close
  split
  · exact h
  · exact { h with apart := .inl rfl, closed := fun _ => rfl }

/-- Every promise that waits is answered without a value. -/
theorem Kept.turnAway (h : Kept o w) (error : Option (StreamError ε)) :
    Kept o { w with
      stream := (w.stream.close error).1
      effects := w.effects ++ (w.stream.close error).2 } := by
  have hheld : World.held { w with
      stream := (w.stream.close error).1
      effects := w.effects ++ (w.stream.close error).2 } = w.held := by
    simp [World.held, delivered_close, values, close_queue]
  exact { h.toWithin.close error with
    mustDeliver := by rw [hheld]; exact h.mustDeliver
    accepted := by rw [hheld]; exact h.accepted
    nodup := by rw [World.numbers, hheld]; exact h.nodup
    fresh := h.fresh
    inPlace := by rw [World.numbers, hheld]; exact h.inPlace
    known := h.known
    promises := by rw [List.map_append, List.append_assoc, close_next]; exact h.promises }

/-- What a call of `next` leaves: the first of the queue was given, or the promise settled without
a value, or waits. -/
theorem Kept.settle (h : Kept o w) {s : BoundedEventStream (Publication T) ε}
    {effects : List (Effect (Publication T) ε)} (hs : Within o s)
    (hheld : delivered effects ++ values s = values w.stream)
    (hpromises : w.effects.map (·.next) ++ (effects.map (·.next) ++ s.waiting) =
      List.range (w.nexts + 1)) :
    Kept o { w with stream := s, nexts := w.nexts + 1, effects := w.effects ++ effects } := by
  have hheld' : World.held { w with
      stream := s, nexts := w.nexts + 1, effects := w.effects ++ effects } = w.held := by
    simp [World.held, List.append_assoc, hheld]
  exact { hs with
    mustDeliver := by rw [hheld']; exact h.mustDeliver
    accepted := by rw [hheld']; exact h.accepted
    nodup := by rw [World.numbers, hheld']; exact h.nodup
    fresh := h.fresh
    inPlace := by rw [World.numbers, hheld']; exact h.inPlace
    known := h.known
    promises := by rw [List.map_append, List.append_assoc]; exact hpromises }

theorem Kept.next (h : Kept o w) : Kept o (step o w .next) := by
  have hpromises := h.promises
  cases hq : w.stream.queue with
  | cons item queue =>
    have hw : w.stream.waiting = [] := h.apart.resolve_right (by simp [hq])
    have hmem : ∀ x ∈ queue, x ∈ w.stream.queue := fun x hx => by simp [hq, hx]
    have hcount := h.bytes
    have hbytes := h.bytes_le
    have hitems := h.items_le
    have hnonneg := h.nonneg item (by simp [hq])
    simp only [hq, bytesOf_cons, List.length_cons] at hcount hitems
    have hnext : w.stream.next w.nexts =
        ({ w.stream with queue, bufferedBytes := w.stream.bufferedBytes - item.bytes },
          [⟨w.nexts, .value item.value⟩]) := by
      simp [BoundedEventStream.next, hq]
    rw [EventStream.step, hnext]
    simp only [hw, List.append_nil] at hpromises
    exact h.settle
      { kind := fun x hx => h.kind x (hmem x hx)
        apart := .inl hw
        bytes := by simp only; linarith
        nonneg := fun x hx => h.nonneg x (hmem x hx)
        bytes_le := by simp only; linarith
        items_le := by simp only; omega
        closed := h.closed } (by simp [values, hq]) (by simp [hw, hpromises, List.range_succ])
  | nil =>
    cases hclosed : w.stream.closed with
    | none =>
      have hnext : w.stream.next w.nexts =
          ({ w.stream with waiting := w.stream.waiting ++ [w.nexts] }, []) := by
        simp [BoundedEventStream.next, hq, hclosed]
      rw [EventStream.step, hnext]
      refine h.settle { h.toWithin with apart := .inr hq, closed := fun hsome => ?_ } rfl ?_
      · simp [hclosed] at hsome
      · simp [← List.append_assoc, hpromises, List.range_succ]
    | some error =>
      have hw : w.stream.waiting = [] := h.closed (by simp [hclosed])
      simp only [hw, List.append_nil] at hpromises
      obtain ⟨answer, hnext, hanswer⟩ : ∃ answer, w.stream.next w.nexts =
          (w.stream, [⟨w.nexts, answer⟩]) ∧ delivered [⟨w.nexts, answer⟩] = [] := by
        cases error with
        | none => exact ⟨.done, by simp [BoundedEventStream.next, hq, hclosed], rfl⟩
        | some error => exact ⟨.rejected error, by simp [BoundedEventStream.next, hq, hclosed], rfl⟩
      rw [EventStream.step, hnext]
      exact h.settle h.toWithin (by rw [hanswer]; rfl) (by simp [hw, hpromises, List.range_succ])

theorem safeSize_nonneg {value : T} {bytes : Int} (h : o.safeSize value = .ok bytes) :
    0 ≤ bytes := by
  unfold Options.safeSize at h
  split at h
  · cases h
  · cases h
  · split at h
    · cases h
    · rename_i hsize
      obtain rfl := Except.ok.inj h
      exact Int.ceil_nonneg (not_lt.mp hsize)

/-- What is coalesced with stands in the queue, at its index. -/
theorem existing_eq_some {s : BoundedEventStream T ε} {options : PublishOptions} {index : Nat}
    {old : BufferedItem T} (h : s.existing options = some (index, old)) :
    coalescesWith options old ∧ ∃ ahead behind, s.queue = ahead ++ old :: behind ∧
      ∀ item, s.queue.set index item = ahead ++ item :: behind := by
  obtain ⟨i, hi, h⟩ := Option.bind_eq_some_iff.mp h
  obtain ⟨x, hx, heq⟩ := Option.map_eq_some_iff.mp h
  obtain ⟨rfl, rfl⟩ := Prod.mk.inj heq
  obtain ⟨hlt, hcoalesces, -⟩ := List.findIdx?_eq_some_iff_getElem.mp hi
  obtain ⟨-, rfl⟩ := List.getElem?_eq_some_iff.mp hx
  exact ⟨hcoalesces, s.queue.take i, s.queue.drop (i + 1), by simp,
    fun item => List.set_eq_take_append_cons_drop.trans (if_pos hlt)⟩

/-- A publish that takes no other's place. -/
theorem Kept.enqueue (h : Kept o w) (hw : w.stream.waiting = [])
    {item : BufferedItem (Publication T)} (hp : item.value.number = w.publishes)
    (hkind : item.delivery = item.value.options.delivery) (hnonneg : 0 ≤ item.bytes) :
    Kept o (w.landed (w.stream.enqueue o.published item) item.value) := by
  unfold BoundedEventStream.enqueue
  split
  · rename_i hfits
    exact h.append hw hp hkind hnonneg hfits
  split
  · simpa [World.landed] using h.skip
  have he := h.evict item.bytes
  have hwaiting : (w.stream.evictDisposable o.published item.bytes).waiting = [] := hw
  generalize w.stream.evictDisposable o.published item.bytes = s at he hwaiting ⊢
  simp only
  split
  · rename_i hfits
    exact he.append hwaiting hp hkind hnonneg hfits
  · exact (he.turnAway (some .overflow)).skip

theorem Kept.publish (h : Kept o w) (value : T) (options : PublishOptions) :
    Kept o (step o w (.publish value options)) := by
  unfold EventStream.step BoundedEventStream.publish
  by_cases hclosed : w.stream.closed.isSome
  · simpa [hclosed, World.landed] using h.skip
  cases hw : w.stream.waiting with
  | cons consumer waiting =>
    have hhand := h.hand hw (p := ⟨w.publishes, options, value⟩) rfl
    simpa [hclosed, hw, World.landed, World.publish] using hhand
  | nil =>
    simp only [hclosed, Bool.false_eq_true, if_false]
    cases hsize : o.published.safeSize ⟨w.publishes, options, value⟩ with
    | error error => simpa [World.landed] using h.skip
    | ok bytes =>
      have hnonneg := safeSize_nonneg hsize
      cases hexisting : w.stream.existing options with
      | none => exact h.enqueue hw rfl rfl hnonneg
      | some existing =>
        obtain ⟨index, old⟩ := existing
        obtain ⟨hcoalesces, ahead, behind, hq, hset⟩ := existing_eq_some hexisting
        simp only [coalescesWith, Bool.decide_and, Bool.and_eq_true,
          decide_eq_true_eq] at hcoalesces
        simp only [hset]
        split
        · simpa [World.landed] using h.skip
        · rename_i hbytes
          have hreplace := h.replace ⟨⟨w.publishes, options, value⟩, bytes,
            options.delivery, options.coalesceKey⟩ hq hcoalesces.2.2.1 rfl rfl hcoalesces.1 hnonneg
            (not_lt.mp hbytes)
          simp only [hw] at hreplace
          exact hreplace

theorem Kept.step (h : Kept o w) (a : Action T ε) : Kept o (step o w a) := by
  cases a with
  | publish value options => exact h.publish value options
  | next => exact h.next
  | close error => exact h.turnAway (error.map .given)

theorem kept_run (as : List (Action T ε)) : Kept o (run o {} as) := by
  refine List.foldlRecOn as (step o) (motive := Kept o) ?_ fun w h a _ => h.step a
  exact {
    kind := nofun
    apart := .inl rfl
    bytes := rfl
    nonneg := nofun
    bytes_le := Int.natCast_nonneg _
    items_le := Nat.zero_le _
    closed := fun _ => rfl
    mustDeliver := rfl
    accepted := nofun
    nodup := List.nodup_nil
    fresh := nofun
    inPlace := nofun
    known := nofun
    promises := rfl }

/-! ## What a publish throws -/

def mustItems (s : BoundedEventStream T ε) : List (BufferedItem T) :=
  s.queue.filter (·.delivery = .mustDeliver)

/-- The answers to so many calls of `next`, the first of them of the number. -/
def answers (queue : List (BufferedItem T)) (error : StreamError ε) (number count : Nat) :
    List (Effect T ε) :=
  (List.range count).map fun i =>
    ⟨number + i, match queue[i]? with
      | some item => .value item.value
      | none => .rejected error⟩

def nexts (as : List (Action T ε)) : Nat :=
  as.countP fun
    | .next => true
    | _ => false

/-- What a publish that finds no room leaves. The events that must be delivered left none; the
stream is closed and keeps them; later calls of `next` are given each, and then the error. -/
structure Overflowed (o : Options T ε) (w w' : World T ε) (bytes : Int) : Prop where
  room : ¬o.fits (mustItems w.stream).length (bytesOf (mustItems w.stream)) bytes
  closed : w'.stream.closed = some (some .overflow)
  queue : w'.stream.queue = mustItems w.stream
  later : ∀ as, (run o w' as).effects =
    w'.effects ++ answers (mustItems w.stream) .overflow w'.nexts (nexts as)

/-- When a publish throws an error, and what that leaves. -/
def Refused (o : Options T ε) (w w' : World T ε) (publication : Publication T) :
    PublishError ε → Prop
  | .closed => w.stream.closed.isSome ∧ w'.stream = w.stream
  | .overflow => ∃ bytes, o.published.safeSize publication = .ok bytes ∧ Overflowed o w w' bytes
  | error => o.published.safeSize publication = .error error ∧ w'.stream = w.stream

theorem answers_succ (queue : List (BufferedItem T)) (error : StreamError ε) (number count : Nat) :
    answers queue error number (count + 1) =
      ⟨number, match queue with
        | item :: _ => .value item.value
        | [] => .rejected error⟩ :: answers queue.tail error (number + 1) count := by
  unfold answers
  rw [List.range_succ_eq_map, List.map_cons, List.map_map]
  congr 1
  · cases queue <;> rfl
  · refine List.map_congr_left fun i _ => ?_
    cases queue with
    | nil => simp [Nat.add_assoc, Nat.add_comm 1]
    | cons item queue => simp [Nat.add_assoc, Nat.add_comm 1]

/-- Once a stream is closed with an error, what is queued goes to the next calls of `next`, and the
error to the others. -/
theorem run_closed {error : StreamError ε} (as : List (Action T ε)) (w : World T ε)
    (hclosed : w.stream.closed = some (some error)) :
    (run o w as).effects = w.effects ++ answers w.stream.queue error w.nexts (nexts as) := by
  induction as generalizing w with
  | nil => simp [run, nexts, answers]
  | cons a as ih =>
    show (run o (step o w a) as).effects = _
    have ih := ih (step o w a)
    cases a with
    | publish value options =>
      have hstep : step o w (.publish value options) = { w with publishes := w.publishes + 1 } := by
        simp [step, BoundedEventStream.publish, hclosed, World.landed]
      rw [hstep] at ih ⊢
      exact ih hclosed
    | close given =>
      have hstep : step o w (.close given) = w := by
        simp [step, BoundedEventStream.close, hclosed]
      rw [hstep] at ih ⊢
      exact ih hclosed
    | next =>
      have hnexts : nexts (.next :: as : List (Action T ε)) = nexts as + 1 := by simp [nexts]
      rw [hnexts, answers_succ]
      cases hq : w.stream.queue with
      | nil =>
        have hstep : step o w .next = { w with
            nexts := w.nexts + 1
            effects := w.effects ++ [⟨w.nexts, .rejected error⟩] } := by
          simp [step, BoundedEventStream.next, hq, hclosed]
        rw [hstep] at ih ⊢
        rw [ih hclosed]
        simp [hq]
      | cons item queue =>
        have hstep : step o w .next = { w with
            stream := { w.stream with
              queue := queue
              bufferedBytes := w.stream.bufferedBytes - item.bytes }
            nexts := w.nexts + 1
            effects := w.effects ++ [⟨w.nexts, .value item.value⟩] } := by
          simp [step, BoundedEventStream.next, hq]
        rw [hstep] at ih ⊢
        rw [ih hclosed]
        simp

/-- An event that must be delivered takes no other's place. -/
theorem existing_eq_none (s : BoundedEventStream T ε) {options : PublishOptions}
    (h : options.delivery = .mustDeliver) : s.existing options = none := by
  have hfind : s.queue.findIdx? (coalescesWith options) = none := by
    simp [List.findIdx?_eq_none_iff, coalescesWith, h]
  simp [existing, hfind]

/-- An eviction that does not make room leaves what must be delivered. -/
theorem evicted_of_not_fits (h : Kept o w) {bytes : Int}
    (hfits : ¬o.fits (w.stream.evictDisposable o.published bytes).queue.length
      (w.stream.evictDisposable o.published bytes).bufferedBytes bytes) :
    (w.stream.evictDisposable o.published bytes).queue = mustItems w.stream ∧
      ¬o.fits (mustItems w.stream).length (bytesOf (mustItems w.stream)) bytes := by
  have he := evicted (o := o.published) bytes w.stream
  have hbytes := (h.evict bytes).bytes
  have hqueue : (w.stream.evictDisposable o.published bytes).queue = mustItems w.stream := by
    have hall := he.stops.resolve_left hfits
    exact (List.filter_eq_self.mpr fun item hitem => by simp [hall item hitem]).symm.trans he.must
  refine ⟨hqueue, ?_⟩
  rw [← hqueue]
  simp only [World.become] at hbytes
  rwa [← hbytes]

theorem safeSize_ne (value : T) :
    o.safeSize value ≠ .error .closed ∧ o.safeSize value ≠ .error .overflow := by
  unfold Options.safeSize
  split
  · simp
  · simp
  · split <;> simp

/-- An event that must be delivered and finds no room closes the stream. -/
theorem overflowed (h : Kept o w) (hopen : w.stream.closed = none) {bytes : Int}
    (hfits : ¬o.fits (w.stream.evictDisposable o.published bytes).queue.length
      (w.stream.evictDisposable o.published bytes).bufferedBytes bytes) :
    Overflowed o w { w with
      stream := ((w.stream.evictDisposable o.published bytes).close (some .overflow)).1
      publishes := w.publishes + 1
      effects := w.effects ++
        ((w.stream.evictDisposable o.published bytes).close (some .overflow)).2 } bytes := by
  obtain ⟨hqueue, hroom⟩ := evicted_of_not_fits h hfits
  have hopen' : (w.stream.evictDisposable o.published bytes).closed = none := hopen
  have hclosed : ((w.stream.evictDisposable o.published bytes).close (some .overflow)).1.closed =
      some (some .overflow) := by
    simp [BoundedEventStream.close, hopen']
  have hqueue' := (close_queue (w.stream.evictDisposable o.published bytes) (some .overflow)).trans
    hqueue
  refine ⟨hroom, hclosed, hqueue', fun as => ?_⟩
  rw [← hqueue']
  exact run_closed as _ hclosed

theorem refused (h : Kept o w) {p : Publication T} {options : PublishOptions}
    {error : PublishError ε} (hmust : options.delivery = .mustDeliver)
    (herror : (w.stream.publish o.published p options).outcome = .error error) :
    Refused o w (w.landed (w.stream.publish o.published p options) p) p error := by
  unfold BoundedEventStream.publish at herror ⊢
  by_cases hclosed : w.stream.closed.isSome
  · simp only [hclosed, if_true] at herror ⊢
    obtain rfl := Except.error.inj herror
    exact ⟨hclosed, rfl⟩
  simp only [hclosed, Bool.false_eq_true, if_false] at herror ⊢
  cases hw : w.stream.waiting with
  | cons consumer waiting => simp [hw] at herror
  | nil =>
    simp only [hw, existing_eq_none _ hmust] at herror ⊢
    cases hsize : o.published.safeSize p with
    | error thrown =>
      simp only [hsize] at herror ⊢
      obtain rfl := Except.error.inj herror
      cases thrown with
      | closed => exact absurd hsize (safeSize_ne p).1
      | overflow => exact absurd hsize (safeSize_ne p).2
      | invalidSize => exact ⟨hsize, rfl⟩
      | measure error => exact ⟨hsize, rfl⟩
    | ok bytes =>
      simp only [hsize] at herror ⊢
      unfold BoundedEventStream.enqueue at herror ⊢
      split at herror
      · cases herror
      rename_i hroom
      rw [if_neg hroom]
      split at herror
      · rename_i hdisposable
        rw [hmust] at hdisposable
        cases hdisposable
      rename_i hdelivery
      rw [if_neg hdelivery]
      simp only at herror ⊢
      split at herror
      · cases herror
      rename_i hfits
      rw [if_neg hfits]
      obtain rfl := Except.error.inj herror
      exact ⟨bytes, hsize, overflowed h (by simpa using hclosed) hfits⟩

/-- A stream of one item of at most ten bytes. -/
def single : Options Nat Unit where
  maxBytes := 10
  maxItems := 1
  sizeOf := fun value => .number value
  maxBytes_pos := by decide
  maxItems_pos := by decide

theorem single_safeSize (value : Nat) : single.safeSize value = .ok value := by
  simp [Options.safeSize, single]

end EventStream

end Opensteer
