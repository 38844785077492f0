import Opensteer.Realtime.Shapes

/-!
# Batches of events

What `boundedEventBatches` gives and when it gives anything, in the bytes of the `host.events` messages that
the batches go out in. It counts a comma before each event but the first of all, also where the event opens a
batch of its own, and so refuses an event behind another that fills a message exactly.
-/

namespace Opensteer.Realtime

def ascii (s : String) : List UInt8 := s.toList.map fun c => UInt8.ofNat c.toNat

/-- `JSON.stringify({ events, type: "host.events" })`, of which the events' own texts are given. -/
def hostEventsMessage (stringify : AgentEvent → List UInt8) (events : List AgentEvent) : List UInt8 :=
  ascii "\x7b\"events\":[" ++ (ascii ",").intercalate (events.map stringify) ++ ascii "],\"type\":\"host.events\"\x7d"

/-- The options of a subscriber whose events have these texts. -/
def Options.measuring (o : Options) (stringify : AgentEvent → List UInt8) : Options :=
  { o with eventBytes := fun event => (stringify event).length }

/-- The bytes of a message, by those of its events. -/
def messageBytes (o : Options) (events : List AgentEvent) : Nat :=
  hostEventsEnvelopeBytes + (events.map o.eventBytes).sum + (events.length - 1)

theorem length_hostEventsMessage (o : Options) (stringify : AgentEvent → List UInt8) (events : List AgentEvent) :
    (hostEventsMessage stringify events).length = messageBytes (o.measuring stringify) events := by
  have hjoin : ((ascii ",").intercalate (events.map stringify)).length =
      (events.map fun event => (stringify event).length).sum + (events.length - 1) := by
    induction events with
    | nil => rfl
    | cons event events ih =>
      cases events with
      | nil => simp [List.intercalate]
      | cons event' events =>
        simp only [List.map_cons, List.intercalate_cons_cons, List.length_append, List.sum_cons, List.length_cons] at ih ⊢
        have : (ascii ",").length = 1 := rfl
        omega
  have hopen : (ascii "\x7b\"events\":[").length = 11 := rfl
  have hclose : (ascii "],\"type\":\"host.events\"\x7d").length = 23 := rfl
  rw [hostEventsMessage, List.length_append, List.length_append, hjoin, hopen, hclose, messageBytes]
  simp only [Options.measuring, hostEventsEnvelopeBytes]
  omega

variable {o : Options} {event : AgentEvent} {events batch : List AgentEvent} {batches out : List (List AgentEvent)}

@[simp] theorem messageBytes_nil : messageBytes o [] = hostEventsEnvelopeBytes := rfl

@[simp] theorem messageBytes_singleton (o : Options) (event : AgentEvent) :
    messageBytes o [event] = hostEventsEnvelopeBytes + o.eventBytes event := by
  simp [messageBytes]

theorem messageBytes_append (o : Options) (batch : List AgentEvent) (event : AgentEvent) :
    messageBytes o (batch ++ [event]) = messageBytes o batch + (o.eventBytes event + if batch = [] then 0 else 1) := by
  cases batch with
  | nil => simp
  | cons first batch =>
    simp only [messageBytes, List.map_append, List.map_cons, List.map_nil, List.sum_append, List.sum_singleton,
      List.length_append, List.length_cons, List.length_nil]
    rw [if_neg (by simp)]
    omega

/-- A batch that may go out. -/
structure Bounded (o : Options) (batch : List AgentEvent) : Prop where
  ne_nil : batch ≠ []
  length_le : batch.length ≤ 2000
  bytes_le : messageBytes o batch ≤ o.maxWireBytes

theorem boundedBatchesLoop_bounded (hbatches : ∀ batch ∈ batches, Bounded o batch) (hbatch : batch = [] ∨ Bounded o batch)
    (h : boundedBatchesLoop o batches batch (messageBytes o batch) events = some out) : ∀ batch ∈ out, Bounded o batch := by
  induction events generalizing batches batch with
  | nil =>
    rw [boundedBatchesLoop, Option.some.injEq] at h
    obtain rfl := h
    split
    · exact hbatches
    · exact List.forall_mem_append.mpr ⟨hbatches, List.forall_mem_singleton.mpr (hbatch.resolve_left ‹_›)⟩
  | cons event events ih =>
    rw [boundedBatchesLoop] at h
    generalize hbytes : (o.eventBytes event + if batch = [] then 0 else 1) = bytes at h
    split at h
    · cases h
    · rename_i hfits
      have hle : o.eventBytes event ≤ bytes := hbytes ▸ Nat.le_add_right _ _
      split at h
      · rename_i hfull
        -- A batch that is full holds something: what was checked first is what an empty one would hold.
        have hne : batch ≠ [] := by
          rintro rfl
          exact hfull.elim (by simp) hfits
        have hopened : Bounded o [event] := by
          refine ⟨List.cons_ne_nil _ _, by simp, ?_⟩
          rw [messageBytes_singleton]
          omega
        rw [← messageBytes_singleton] at h
        exact ih (List.forall_mem_append.mpr ⟨hbatches, List.forall_mem_singleton.mpr (hbatch.resolve_left hne)⟩)
          (.inr hopened) h
      · rename_i hroom
        have happend := messageBytes_append o batch event
        rw [hbytes] at happend
        rw [← happend] at h
        refine ih hbatches (.inr ⟨by simp, ?_, ?_⟩) h
        · rw [List.length_append, List.length_singleton]
          omega
        · rw [happend]
          omega

/-- Behind an event, one needs room for a comma. -/
theorem boundedBatchesLoop_isSome (hbatch : batch ≠ []) (batches : List (List AgentEvent)) (batchBytes : Nat) :
    (boundedBatchesLoop o batches batch batchBytes events).isSome ↔
      ∀ event ∈ events, messageBytes o [event] < o.maxWireBytes := by
  induction events generalizing batches batch batchBytes with
  | nil =>
    rw [boundedBatchesLoop]
    exact iff_of_true rfl fun _ h => by cases h
  | cons event events ih =>
    rw [boundedBatchesLoop, List.forall_mem_cons]
    rw [if_neg hbatch, messageBytes_singleton]
    split
    · rename_i hlarge
      exact iff_of_false (by simp) fun h => absurd h.1 (by omega)
    · have hfits : hostEventsEnvelopeBytes + o.eventBytes event < o.maxWireBytes := by omega
      split
      · rw [ih (List.cons_ne_nil _ _)]
        exact (and_iff_right hfits).symm
      · rw [ih (by simp)]
        exact (and_iff_right hfits).symm

theorem boundedEventBatches_isSome : (boundedEventBatches o (event :: events)).isSome ↔
    messageBytes o [event] ≤ o.maxWireBytes ∧ ∀ event ∈ events, messageBytes o [event] < o.maxWireBytes := by
  rw [boundedEventBatches, boundedBatchesLoop, messageBytes_singleton]
  rw [if_pos rfl, Nat.add_zero]
  split
  · rename_i hlarge
    exact iff_of_false (by simp) fun h => absurd h.1 (by omega)
  · rename_i hfits
    rw [if_neg (by simpa using hfits), boundedBatchesLoop_isSome (by simp)]
    exact (and_iff_right (Nat.le_of_not_lt hfits)).symm

/-- Events come in bounded batches exactly when each fits a message, but for those behind another that fill
one exactly. -/
theorem boundedEventBatches_iff (o : Options) (stringify : AgentEvent → List UInt8) (events : List AgentEvent) :
    (((∃ batches, boundedEventBatches (o.measuring stringify) events = some batches) ↔
        ∀ event ∈ events, (hostEventsMessage stringify [event]).length ≤ o.maxWireBytes) ∧
      ∀ batches, boundedEventBatches (o.measuring stringify) events = some batches →
        batches.flatten = events ∧ ∀ batch ∈ batches, batch ≠ [] ∧ batch.length ≤ 2000 ∧
          (hostEventsMessage stringify batch).length ≤ o.maxWireBytes) ↔
      ((∀ event ∈ events, (hostEventsMessage stringify [event]).length ≤ o.maxWireBytes) →
        ∀ event ∈ events.tail, (hostEventsMessage stringify [event]).length ≠ o.maxWireBytes) := by
  have hbounded : ∀ batches, boundedEventBatches (o.measuring stringify) events = some batches →
      batches.flatten = events ∧ ∀ batch ∈ batches, batch ≠ [] ∧ batch.length ≤ 2000 ∧
        (hostEventsMessage stringify batch).length ≤ o.maxWireBytes := by
    intro batches h
    refine ⟨boundedEventBatches_flatten h, fun batch hmem => ?_⟩
    have hbatch := boundedBatchesLoop_bounded (fun _ h => absurd h List.not_mem_nil) (.inl rfl) h batch hmem
    exact ⟨hbatch.ne_nil, hbatch.length_le, (length_hostEventsMessage o stringify batch).trans_le hbatch.bytes_le⟩
  rw [and_iff_left hbounded]
  simp only [length_hostEventsMessage o]
  rw [← Option.isSome_iff_exists]
  cases events with
  | nil =>
    exact iff_of_true (iff_of_true rfl fun _ h => absurd h List.not_mem_nil) fun _ _ h => absurd h List.not_mem_nil
  | cons event events =>
    rw [boundedEventBatches_isSome, List.forall_mem_cons, List.tail_cons]
    show (_ ≤ o.maxWireBytes ∧ (∀ event ∈ events, _ < o.maxWireBytes) ↔ _) ↔ _
    constructor
    · intro h hfits event hmem
      exact Nat.ne_of_lt ((h.mpr hfits).2 event hmem)
    · refine fun h => ⟨fun hs => ⟨hs.1, fun event hmem => Nat.le_of_lt (hs.2 event hmem)⟩, fun hfits => ?_⟩
      exact ⟨hfits.1, fun event hmem => Nat.lt_of_le_of_ne (hfits.2 event hmem) (h hfits event hmem)⟩

/-- Each of two events fills a message. -/
theorem not_batches_of_fits : ¬ ∀ (o : Options) (stringify : AgentEvent → List UInt8) (events : List AgentEvent),
    (∃ batches, boundedEventBatches (o.measuring stringify) events = some batches) ↔
      ∀ event ∈ events, (hostEventsMessage stringify [event]).length ≤ o.maxWireBytes := by
  intro h
  have hfits := h ⟨true, 0, 0, 0, 434, 0, 0, fun _ => 0, fun _ => 0⟩ (fun _ => List.replicate 400 0)
    [⟨1, ⟨"workspace"⟩, ⟨"thread"⟩, none, .runCompleted⟩, ⟨2, ⟨"workspace"⟩, ⟨"thread"⟩, none, .runCompleted⟩]
  simp only [length_hostEventsMessage ⟨true, 0, 0, 0, 434, 0, 0, fun _ => 0, fun _ => 0⟩, messageBytes_singleton] at hfits
  rw [← Option.isSome_iff_exists, boundedEventBatches_isSome, messageBytes_singleton] at hfits
  simp only [messageBytes_singleton, Options.measuring, List.length_replicate, List.forall_mem_cons] at hfits
  exact absurd (hfits.mpr ⟨by decide, by decide, fun _ h => absurd h List.not_mem_nil⟩).2.1 (by decide)

end Opensteer.Realtime
