import Opensteer.ExecutionCoordinator.Invariant
import Opensteer.ExecutionCoordinator.Store
import Opensteer.Framework.Lookup

/-!
# The pacing of retries

What matters for the pacing of a command, without how the coordinator keeps its dispatches (`View`), changes in
a few ways (`Moves`), each of which keeps `Sound`: the entry of a command whose dispatches are rejected for
retry is as late as they make it, and a poll whose listing lacks the command finds it in dispatch or its entry
recorded since. Every step of `World.machine` is such moves, as long as no listing that is read lacks a pending
command that has an entry (`visible`).
-/

namespace Opensteer.ExecutionCoordinator

variable {threadOf : RunId → ThreadId}

/-- When the last dispatches of the command were rejected for retry, it being pending ever since, the last first. -/
def streak (id : CommandId) : List Event → List Nat
  | [] => []
  | .rejected other now :: log => if other = id then now :: streak id log else streak id log
  | .ended other :: log | .left other :: log => if other = id then [] else streak id log
  | .dispatched _ _ :: log => streak id log

/-- No dispatch begins before the time that its command's last `k` rejections ask for. -/
def Paced : List Event → Prop
  | [] => True
  | .dispatched id now :: log =>
    (∀ last ∈ (streak id log).head?, ∀ k, 0 < k → k ≤ (streak id log).length → last + min (1000 * 2 ^ (k - 1)) 30000 ≤ now) ∧
      Paced log
  | _ :: log => Paced log

/-- What the coordinator and its Store keep of the commands. -/
structure View where
  backoff : CommandId → Option DispatchBackoff
  records : Nat
  /-- The `recordedBefore` of the poll that waits for its listing. -/
  poll : Option Nat
  flight : CommandId → Option Phase
  pending : Finset CommandId
  claims : CommandId → Option Claim
  listed : Option (List CommandId)
  gone : CommandId → Bool
  log : List Event

/-- The dispatch may still be rejected for retry. -/
def Phase.live : Phase → Bool
  | .claiming | .dispatching | .retrying => true
  | _ => false

/-- The entry once another rejection is recorded. -/
def backedOff (entry : Option DispatchBackoff) (records now : Nat) : DispatchBackoff where
  attempts := (entry.getD ⟨0, 0, 0⟩).attempts + 1
  nextEligibleAt := now + min (dispatchBackoffBaseMs * 2 ^ (entry.getD ⟨0, 0, 0⟩).attempts) dispatchBackoffMaxMs
  recorded := records + 1

/-- A dispatch of the command may still be rejected for retry. -/
def View.live (v : View) (id : CommandId) : Bool := (v.flight id).any Phase.live

inductive Moves (v : View) : View → Prop
  | pollStarts : v.poll = none →
    Moves v { v with poll := some v.records, gone := fun id => id ∉ v.pending ∧ v.flight id = none }
  | reads (ids : List CommandId) : v.poll.isSome → v.listed = none → (∀ id ∈ ids, id ∈ v.pending) →
    (∀ id ∈ v.pending, (v.backoff id).isSome → id ∈ ids) → Moves v { v with listed := some ids }
  | polled (ids : List CommandId) (recordedBefore : Nat) : v.poll = some recordedBefore → v.listed = some ids →
    Moves v { v with
      poll := none
      listed := none
      backoff := fun id => (v.backoff id).filter fun backoff =>
        !(decide (id ∉ ids) && (v.flight id).isNone && decide (backoff.recorded ≤ recordedBefore)) }
  | begins (id : CommandId) (now : Nat) : v.flight id = none → (∀ b ∈ v.backoff id, b.nextEligibleAt ≤ now) →
    Moves v { v with flight := Function.update v.flight id (some .claiming), log := .dispatched id now :: v.log }
  | commits (id : CommandId) (claim : Claim) : v.flight id = some .claiming → v.claims id = none →
    (claim = .notPending ∨ id ∈ v.pending) →
    Moves v { v with
      pending := if claim = .notPending then v.pending else v.pending.erase id
      claims := Function.update v.claims id (some claim) }
  | claimed (id : CommandId) : v.flight id = some .claiming → v.claims id = some .claimed →
    Moves v { v with
      flight := Function.update v.flight id (some .dispatching)
      claims := Function.update v.claims id none }
  | ends (id : CommandId) (phase phase' : Phase) (claims : CommandId → Option Claim)
    (backoff : CommandId → Option DispatchBackoff) : v.flight id = some phase → phase'.live = false →
    (claims = Function.update v.claims id none ∨ claims = v.claims ∧ phase ≠ .claiming) →
    (∀ other ≠ id, backoff other = v.backoff other) → (∀ b ∈ backoff id, b ∈ v.backoff id) →
    Moves v { v with flight := Function.update v.flight id (some phase'), claims, backoff, log := .ended id :: v.log }
  | retries (id : CommandId) : v.flight id = some .dispatching →
    Moves v { v with flight := Function.update v.flight id (some .retrying) }
  | appears (id : CommandId) :
    Moves v { v with pending := insert id v.pending, gone := Function.update v.gone id false }
  | rejected (id : CommandId) (now : Nat) : v.flight id = some .retrying →
    Moves v { v with
      backoff := Function.update v.backoff id (some (backedOff (v.backoff id) v.records now))
      records := v.records + 1
      flight := Function.update v.flight id (some (.settled true))
      log := (if id ∈ v.pending then .rejected id now else .ended id) :: v.log }
  | settles (id : CommandId) (phase phase' : Phase) : v.flight id = some phase → phase.live = false →
    phase'.live = false → Moves v { v with flight := Function.update v.flight id (some phase') }
  | finishes (id : CommandId) (phase : Phase) : v.flight id = some phase → phase.live = false →
    Moves v { v with flight := Function.update v.flight id none }
  | leaves (id : CommandId) : Moves v { v with pending := v.pending.erase id, log := .left id :: v.log }

/-- What is kept of a command. -/
structure SoundAt (v : View) (id : CommandId) : Prop where
  recorded_le : ∀ b, v.backoff id = some b → b.recorded ≤ v.records
  /-- The entry is as late as the rejections make it. -/
  entry : ∀ last rest, streak id v.log = last :: rest → ∃ b, v.backoff id = some b ∧ rest.length + 1 ≤ b.attempts ∧
    last + min (1000 * 2 ^ rest.length) 30000 ≤ b.nextEligibleAt
  alive : streak id v.log ≠ [] → id ∈ v.pending ∨ v.live id = true
  /-- A listing that lacks the command was read while it was being dispatched. -/
  listed : ∀ ids n, v.listed = some ids → v.poll = some n → streak id v.log ≠ [] → id ∈ ids ∨
    (∃ b, v.backoff id = some b ∧ n < b.recorded) ∨ v.live id = true
  claims : v.claims id ≠ none → v.flight id = some .claiming
  gone_pending : v.gone id = true → id ∉ v.pending
  /-- A command that is gone is dispatched in vain. -/
  gone_flight : v.gone id = true → v.live id = true → v.flight id = some .claiming ∧ v.claims id ≠ some .claimed
  gone_recorded : ∀ n b, v.gone id = true → v.poll = some n → v.backoff id = some b → b.recorded ≤ n
  gone_listed : ∀ ids, v.gone id = true → v.listed = some ids → id ∉ ids

structure Sound (v : View) : Prop where
  poll_le : ∀ n, v.poll = some n → n ≤ v.records
  polling : v.listed.isSome → v.poll.isSome
  paced : Paced v.log
  command : ∀ id, SoundAt v id

/-- What a move that is about another command leaves. -/
theorem SoundAt.congr {v w : View} {id : CommandId} (h : SoundAt v id) (hbackoff : w.backoff id = v.backoff id)
    (hrecords : v.records ≤ w.records) (hpoll : w.poll = v.poll) (hflight : w.flight id = v.flight id)
    (hpending : id ∈ w.pending ↔ id ∈ v.pending) (hclaims : w.claims id = v.claims id) (hlisted : w.listed = v.listed)
    (hgone : w.gone id = v.gone id) (hstreak : streak id w.log = streak id v.log) : SoundAt w id := by
  have hlive : w.live id = v.live id := by simp only [View.live, hflight]
  refine ⟨?_, ?_, ?_, ?_, ?_, ?_, ?_, ?_, ?_⟩
  · intro b hb
    exact Nat.le_trans (h.recorded_le b (hbackoff ▸ hb)) hrecords
  · rw [hbackoff, hstreak]
    exact h.entry
  · rw [hstreak, hpending, hlive]
    exact h.alive
  · rw [hlisted, hpoll, hstreak, hbackoff, hlive]
    exact h.listed
  · rw [hclaims, hflight]
    exact h.claims
  · rw [hgone, hpending]
    exact h.gone_pending
  · rw [hgone, hlive, hflight, hclaims]
    exact h.gone_flight
  · rw [hgone, hpoll, hbackoff]
    exact h.gone_recorded
  · rw [hgone, hlisted]
    exact h.gone_listed

/-- The entry counts the rejections. -/
theorem SoundAt.length_streak_le {v : View} {id : CommandId} (h : SoundAt v id) :
    (streak id v.log).length ≤ ((v.backoff id).getD ⟨0, 0, 0⟩).attempts := by
  cases hstreak : streak id v.log with
  | nil => exact Nat.zero_le _
  | cons last rest =>
    obtain ⟨b, hb, hattempts, -⟩ := h.entry last rest hstreak
    simpa [hb] using hattempts

namespace Sound

variable {v : View} {id : CommandId}

theorem pollStarts (h : Sound v) (hpoll : v.poll = none) :
    Sound { v with poll := some v.records, gone := fun id => id ∉ v.pending ∧ v.flight id = none } := by
  have hlisted : v.listed = none := by
    have hpolling := h.polling
    rw [hpoll] at hpolling
    simpa using hpolling
  refine ⟨?_, ?_, h.paced, fun id => ?_⟩
  · rintro n ⟨⟩
    exact Nat.le_refl _
  · simp
  · have hid := h.command id
    refine { hid with listed := ?_, gone_pending := ?_, gone_flight := ?_, gone_recorded := ?_, gone_listed := ?_ }
    · intro ids n hids
      cases hlisted.symm.trans hids
    · intro hgone
      exact (of_decide_eq_true hgone).1
    · intro hgone hlive
      simp [View.live, (of_decide_eq_true hgone).2] at hlive
    · rintro n b - ⟨⟩ hb
      exact hid.recorded_le b hb
    · intro ids hgone hids
      cases hlisted.symm.trans hids

theorem reads (h : Sound v) {ids : List CommandId} (hpoll : v.poll.isSome) (hpending : ∀ id ∈ ids, id ∈ v.pending)
    (hvisible : ∀ id ∈ v.pending, (v.backoff id).isSome → id ∈ ids) : Sound { v with listed := some ids } := by
  refine { h with polling := fun _ => hpoll, command := fun id => ?_ }
  have hid := h.command id
  refine { hid with listed := ?_, gone_listed := ?_ }
  · rintro _ n ⟨⟩ - hstreak
    obtain hmem | hlive := hid.alive hstreak
    · obtain ⟨last, rest, heq⟩ := List.exists_cons_of_ne_nil hstreak
      obtain ⟨b, hb, -⟩ := hid.entry last rest heq
      exact .inl (hvisible id hmem (by simp [hb]))
    · exact .inr (.inr hlive)
  · rintro _ hgone ⟨⟩ hmem
    exact hid.gone_pending hgone (hpending id hmem)

theorem polled (h : Sound v) {ids : List CommandId} {recordedBefore : Nat} (hpoll : v.poll = some recordedBefore)
    (hlisted : v.listed = some ids) :
    Sound { v with
      poll := none
      listed := none
      backoff := fun id => (v.backoff id).filter fun backoff =>
        !(decide (id ∉ ids) && (v.flight id).isNone && decide (backoff.recorded ≤ recordedBefore)) } := by
  refine ⟨by simp, by simp, h.paced, fun id => ?_⟩
  have hid := h.command id
  refine { hid with recorded_le := ?_, entry := ?_, listed := by simp, gone_recorded := by simp, gone_listed := by simp }
  · intro b hb
    exact hid.recorded_le b (Option.filter_eq_some_iff.mp hb).1
  · intro last rest hstreak
    obtain ⟨b, hb, hattempts, hlast⟩ := hid.entry last rest hstreak
    refine ⟨b, Option.filter_eq_some_iff.mpr ⟨hb, ?_⟩, hattempts, hlast⟩
    -- the entry stays, for one of the three reasons that `listed` gives
    have hstreak' : streak id v.log = last :: rest := hstreak
    obtain hmem | ⟨b', hb', hlt⟩ | hlive := hid.listed ids recordedBefore hlisted hpoll (by simp [hstreak'])
    · simp [hmem]
    · obtain rfl := Option.some.inj (hb.symm.trans hb')
      simp [Nat.not_le.mpr hlt]
    · cases hflight : v.flight id with
      | none => simp [View.live, hflight] at hlive
      | some phase => simp

theorem begins (h : Sound v) {now : Nat} (hflight : v.flight id = none) (heligible : ∀ b ∈ v.backoff id, b.nextEligibleAt ≤ now) :
    Sound { v with flight := Function.update v.flight id (some .claiming), log := .dispatched id now :: v.log } := by
  have hid := h.command id
  have hclaims : v.claims id = none := by
    by_contra hsome
    cases hflight.symm.trans (hid.claims hsome)
  refine { h with paced := ⟨?_, h.paced⟩, command := fun other => ?_ }
  · intro last hlast k hk hle
    cases hstreak : streak id v.log with
    | nil =>
      rw [hstreak] at hlast
      cases hlast
    | cons last' rest =>
      rw [hstreak] at hlast hle
      obtain rfl := Option.some.inj hlast
      obtain ⟨b, hb, -, hlate⟩ := hid.entry last' rest hstreak
      have hpow : 2 ^ (k - 1) ≤ 2 ^ rest.length := Nat.pow_le_pow_right (by omega) (Nat.sub_le_of_le_add hle)
      have hnow := heligible b hb
      omega
  · by_cases heq : other = id
    · subst heq
      refine { hid with alive := fun _ => .inr ?_, listed := fun _ _ _ _ _ => .inr (.inr ?_), claims := ?_, gone_flight := ?_ }
      · simp [View.live, Phase.live]
      · simp [View.live, Phase.live]
      · simp
      · simp [hclaims]
    · exact (h.command other).congr rfl (Nat.le_refl _) rfl (Function.update_of_ne heq _ _) .rfl rfl rfl rfl rfl

theorem commits (h : Sound v) {claim : Claim} (hflight : v.flight id = some .claiming)
    (hclaim : claim = .notPending ∨ id ∈ v.pending) :
    Sound { v with
      pending := if claim = .notPending then v.pending else v.pending.erase id
      claims := Function.update v.claims id (some claim) } := by
  have hid := h.command id
  have hsub (other : CommandId) (hother : other ∈ if claim = .notPending then v.pending else v.pending.erase id) :
      other ∈ v.pending := by
    split at hother
    · exact hother
    · exact Finset.mem_of_mem_erase hother
  have hlive : v.live id = true := by simp [View.live, hflight, Phase.live]
  refine { h with command := fun other => ?_ }
  by_cases heq : other = id
  · subst heq
    refine { hid with alive := fun _ => .inr hlive, claims := fun _ => hflight, gone_pending := ?_, gone_flight := ?_ }
    · exact fun hgone hmem => hid.gone_pending hgone (hsub _ hmem)
    · intro hgone _
      refine ⟨hflight, ?_⟩
      obtain rfl := hclaim.resolve_right (hid.gone_pending hgone)
      simp
  · refine (h.command other).congr rfl (Nat.le_refl _) rfl rfl ?_ (Function.update_of_ne heq _ _) rfl rfl rfl
    split
    · rfl
    · simp [heq]

theorem claimed (h : Sound v) (hflight : v.flight id = some .claiming) (hclaim : v.claims id = some .claimed) :
    Sound { v with
      flight := Function.update v.flight id (some .dispatching)
      claims := Function.update v.claims id none } := by
  have hid := h.command id
  have hlive : v.live id = true := by simp [View.live, hflight, Phase.live]
  refine { h with command := fun other => ?_ }
  by_cases heq : other = id
  · subst heq
    refine { hid with alive := fun _ => .inr ?_, listed := fun _ _ _ _ _ => .inr (.inr ?_), claims := ?_, gone_flight := ?_ }
    · simp [View.live, Phase.live]
    · simp [View.live, Phase.live]
    · simp
    · exact fun hgone _ => absurd hclaim (hid.gone_flight hgone hlive).2
  · exact (h.command other).congr rfl (Nat.le_refl _) rfl (Function.update_of_ne heq _ _) .rfl (Function.update_of_ne heq _ _)
      rfl rfl rfl

theorem ends (h : Sound v) {phase phase' : Phase} {claims : CommandId → Option Claim}
    {backoff : CommandId → Option DispatchBackoff} (hflight : v.flight id = some phase) (hphase : phase'.live = false)
    (hclaims : claims = Function.update v.claims id none ∨ claims = v.claims ∧ phase ≠ .claiming)
    (hother : ∀ other ≠ id, backoff other = v.backoff other) (hbackoff : ∀ b ∈ backoff id, b ∈ v.backoff id) :
    Sound { v with flight := Function.update v.flight id (some phase'), claims, backoff, log := .ended id :: v.log } := by
  have hid := h.command id
  have hnone : claims id = none := by
    obtain rfl | ⟨rfl, hphase⟩ := hclaims
    · exact Function.update_self ..
    · by_contra hsome
      exact hphase (Option.some.inj (hflight.symm.trans (hid.claims hsome)))
  have hsame (other : CommandId) (hne : other ≠ id) : claims other = v.claims other := by
    obtain rfl | ⟨rfl, -⟩ := hclaims
    · exact Function.update_of_ne hne _ _
    · rfl
  refine { h with paced := h.paced, command := fun other => ?_ }
  by_cases heq : other = id
  · subst heq
    refine { hid with
      recorded_le := fun b hb => hid.recorded_le b (hbackoff b hb)
      entry := ?_
      alive := ?_
      listed := ?_
      claims := ?_
      gone_flight := ?_
      gone_recorded := fun n b hgone hn hb => hid.gone_recorded n b hgone hn (hbackoff b hb) }
    · simp [streak]
    · simp [streak]
    · simp [streak]
    · exact fun hsome => absurd hnone hsome
    · simp [View.live, hphase]
  · refine (h.command other).congr (hother other heq) (Nat.le_refl _) rfl (Function.update_of_ne heq _ _) .rfl
      (hsame other heq) rfl rfl ?_
    simp [streak, Ne.symm heq]

theorem retries (h : Sound v) (hflight : v.flight id = some .dispatching) :
    Sound { v with flight := Function.update v.flight id (some .retrying) } := by
  have hid := h.command id
  have hlive : v.live id = true := by simp [View.live, hflight, Phase.live]
  refine { h with command := fun other => ?_ }
  by_cases heq : other = id
  · subst heq
    refine { hid with alive := fun _ => .inr ?_, listed := fun _ _ _ _ _ => .inr (.inr ?_), claims := ?_, gone_flight := ?_ }
    · simp [View.live, Phase.live]
    · simp [View.live, Phase.live]
    · intro hsome
      cases hflight.symm.trans (hid.claims hsome)
    · intro hgone _
      cases hflight.symm.trans (hid.gone_flight hgone hlive).1
  · exact (h.command other).congr rfl (Nat.le_refl _) rfl (Function.update_of_ne heq _ _) .rfl rfl rfl rfl rfl

theorem appears (h : Sound v) (id : CommandId) :
    Sound { v with pending := insert id v.pending, gone := Function.update v.gone id false } := by
  have hid := h.command id
  refine { h with command := fun other => ?_ }
  by_cases heq : other = id
  · subst heq
    refine { hid with alive := fun _ => .inl (Finset.mem_insert_self _ _), gone_pending := ?_, gone_flight := ?_, gone_recorded := ?_, gone_listed := ?_ }
    all_goals simp
  · exact (h.command other).congr rfl (Nat.le_refl _) rfl rfl (by simp [heq]) rfl rfl (Function.update_of_ne heq _ _) rfl

/-- A rejection makes the entry later, and the record newer than any poll that is under way. -/
theorem rejected (h : Sound v) {now : Nat} (hflight : v.flight id = some .retrying) :
    Sound { v with
      backoff := Function.update v.backoff id (some (backedOff (v.backoff id) v.records now))
      records := v.records + 1
      flight := Function.update v.flight id (some (.settled true))
      log := (if id ∈ v.pending then .rejected id now else .ended id) :: v.log } := by
  have hid := h.command id
  have hlive : v.live id = true := by simp [View.live, hflight, Phase.live]
  have hgone : v.gone id = true → False := fun hgone => by cases hflight.symm.trans (hid.gone_flight hgone hlive).1
  have hclaims : v.claims id = none := by
    by_contra hsome
    cases hflight.symm.trans (hid.claims hsome)
  refine ⟨fun n hn => Nat.le_succ_of_le (h.poll_le n hn), h.polling, ?_, fun other => ?_⟩
  · split <;> exact h.paced
  by_cases heq : other = id
  · subst heq
    refine ⟨?_, ?_, ?_, ?_, ?_, ?_, ?_, ?_, ?_⟩
    · simp [backedOff]
    · intro last rest hstreak
      split at hstreak
      · simp only [streak, if_true, List.cons.injEq] at hstreak
        obtain ⟨rfl, rfl⟩ := hstreak
        have hpow := Nat.pow_le_pow_right (n := 2) (by omega) (hid.length_streak_le)
        refine ⟨_, Function.update_self .., Nat.succ_le_succ hid.length_streak_le, ?_⟩
        simp only [backedOff, dispatchBackoffBaseMs, dispatchBackoffMaxMs]
        omega
      · simp [streak] at hstreak
    · split
      · rename_i hmem
        exact fun _ => .inl hmem
      · simp [streak]
    · intro ids n _ hn _
      exact .inr (.inl ⟨_, Function.update_self .., Nat.lt_succ_of_le (h.poll_le n hn)⟩)
    · simp [hclaims]
    · exact fun h => (hgone h).elim
    · exact fun h => (hgone h).elim
    · exact fun _ _ h => (hgone h).elim
    · exact fun _ h => (hgone h).elim
  · refine (h.command other).congr (Function.update_of_ne heq _ _) (Nat.le_succ _) rfl (Function.update_of_ne heq _ _) .rfl rfl
      rfl rfl ?_
    split <;> simp [streak, Ne.symm heq]

/-- A dispatch that cannot be rejected any more goes on or is over. -/
theorem settles (h : Sound v) {phase : Phase} {phase' : Option Phase} (hflight : v.flight id = some phase)
    (hphase : phase.live = false) (hphase' : phase'.any Phase.live = false) :
    Sound { v with flight := Function.update v.flight id phase' } := by
  have hid := h.command id
  have hlive : v.live id = false := by simp [View.live, hflight, hphase]
  refine { h with command := fun other => ?_ }
  by_cases heq : other = id
  · subst heq
    refine { hid with alive := ?_, listed := ?_, claims := ?_, gone_flight := ?_ }
    · exact fun hstreak => .inl ((hid.alive hstreak).resolve_right (by simp [hlive]))
    · intro ids n hids hn hstreak
      obtain hmem | hrecorded | hlive' := hid.listed ids n hids hn hstreak
      · exact .inl hmem
      · exact .inr (.inl hrecorded)
      · cases hlive.symm.trans hlive'
    · intro hsome
      rw [hid.claims hsome] at hflight
      obtain rfl := Option.some.inj hflight
      cases hphase
    · simp [View.live, hphase']
  · exact (h.command other).congr rfl (Nat.le_refl _) rfl (Function.update_of_ne heq _ _) .rfl rfl rfl rfl rfl

theorem leaves (h : Sound v) (id : CommandId) :
    Sound { v with pending := v.pending.erase id, log := .left id :: v.log } := by
  have hid := h.command id
  refine { h with paced := h.paced, command := fun other => ?_ }
  by_cases heq : other = id
  · subst heq
    refine { hid with entry := ?_, alive := ?_, listed := ?_, gone_pending := ?_ }
    all_goals simp [streak]
  · refine (h.command other).congr rfl (Nat.le_refl _) rfl rfl (by simp [heq]) rfl rfl rfl ?_
    simp [streak, Ne.symm heq]

theorem moves {w : View} (h : Sound v) (hm : Moves v w) : Sound w := by
  cases hm with
  | pollStarts hpoll => exact h.pollStarts hpoll
  | reads ids hpoll _ hpending hvisible => exact h.reads hpoll hpending hvisible
  | polled ids recordedBefore hpoll hlisted => exact h.polled hpoll hlisted
  | begins id now hflight heligible => exact h.begins hflight heligible
  | commits id claim hflight _ hclaim => exact h.commits hflight hclaim
  | claimed id hflight hclaim => exact h.claimed hflight hclaim
  | ends id phase phase' claims backoff hflight hphase hclaims hother hbackoff =>
    exact h.ends hflight hphase hclaims hother hbackoff
  | retries id hflight => exact h.retries hflight
  | appears id => exact h.appears id
  | rejected id now hflight => exact h.rejected hflight
  | settles id phase phase' hflight hphase hphase' => exact h.settles hflight hphase (by simp [hphase'])
  | finishes id phase hflight hphase => exact h.settles hflight hphase rfl
  | leaves id => exact h.leaves id

end Sound

theorem Sound.run {v w : View} (h : Sound v) (hm : Relation.ReflTransGen Moves v w) : Sound w := by
  induction hm with
  | refl => exact h
  | tail _ hm ih => exact ih.moves hm

/-! ## The coordinator's steps -/

variable {o : Options} {c : Coordinator threadOf} {i : Nat} {d : Dispatch threadOf}

/-- The phase of each command's dispatch. -/
def flightOf (dispatches : List (Dispatch threadOf)) (id : CommandId) : Option Phase :=
  (lookupBy (fun d : Dispatch threadOf => d.command.id) dispatches id).map Dispatch.phase

/-- The `recordedBefore` of the poll that waits for its listing. -/
def recordedBefore (c : Coordinator threadOf) : Option Nat :=
  match c.reading with
  | some (.reading n) => some n
  | _ => none

def World.view (w : World threadOf) : View where
  backoff := w.coordinator.dispatchBackoff
  records := w.coordinator.backoffRecords
  poll := recordedBefore w.coordinator
  flight := flightOf w.coordinator.dispatches
  pending := w.pending
  claims := w.claims
  listed := w.listing.map (·.map PendingCommandRow.id)
  gone := w.gone
  log := w.log

theorem polls_eq (c : Coordinator threadOf) : World.polls c = (recordedBefore c).isSome := by
  unfold World.polls recordedBefore
  cases c.reading with
  | none => rfl
  | some pass => cases pass <;> rfl

theorem flightOf_middle {pre post : List (Dispatch threadOf)} (hnodup : ((pre ++ d :: post).map fun d => d.command.id).Nodup) :
    flightOf (pre ++ d :: post) = Function.update (flightOf (pre ++ post)) d.command.id (some d.phase) ∧
      flightOf (pre ++ post) d.command.id = none := by
  obtain ⟨hmiddle, hnone⟩ := lookupBy_middle hnodup
  constructor
  · funext id
    unfold flightOf
    rw [hmiddle, Function.update_apply, Function.update_apply]
    split <;> rfl
  · unfold flightOf
    rw [hnone]
    rfl

theorem flightOf_concat (dispatches : List (Dispatch threadOf)) (d : Dispatch threadOf) :
    flightOf (dispatches ++ [d]) = Function.update (flightOf dispatches) d.command.id (some d.phase) := by
  funext id
  unfold flightOf
  rw [lookupBy_concat, Function.update_apply]
  by_cases h : d.command.id = id
  · rw [if_pos h, if_pos h.symm]
    rfl
  · rw [if_neg h, if_neg (Ne.symm h)]

/-- A dispatch, with those before and after it. -/
theorem exists_of_getElem? {dispatches : List (Dispatch threadOf)} (hi : dispatches[i]? = some d) :
    ∃ pre post, dispatches = pre ++ d :: post ∧ (∀ f, dispatches.modify i f = pre ++ f d :: post) ∧
      dispatches.eraseIdx i = pre ++ post := by
  obtain ⟨hlt, rfl⟩ := List.getElem?_eq_some_iff.mp hi
  refine ⟨dispatches.take i, dispatches.drop (i + 1), ?_, fun f => ?_, List.eraseIdx_eq_take_drop_succ ..⟩
  · rw [List.getElem_cons_drop, List.take_append_drop]
  · exact List.modify_eq_take_cons_drop hlt

theorem nodup_dispatches (h : Balanced o (books c)) : (c.dispatches.map fun d => d.command.id).Nodup := by
  have hnodup := h.dispatchingIds.nodup
  simpa [books, inProgress, Function.comp_def] using hnodup

theorem flightOf_dispatch (h : Balanced o (books c)) (hi : c.dispatches[i]? = some d) :
    flightOf c.dispatches d.command.id = some d.phase := by
  obtain ⟨pre, post, heq, -⟩ := exists_of_getElem? hi
  have hnodup := nodup_dispatches h
  rw [heq] at hnodup ⊢
  rw [(flightOf_middle hnodup).1, Function.update_self]

theorem flightOf_setPhase (h : Balanced o (books c)) (hi : c.dispatches[i]? = some d) (phase : Phase) :
    flightOf (setPhase c i phase).dispatches = Function.update (flightOf c.dispatches) d.command.id (some phase) := by
  obtain ⟨pre, post, heq, hmodify, -⟩ := exists_of_getElem? hi
  have hnodup := nodup_dispatches h
  have hnodup' : ((pre ++ { d with phase } :: post).map fun d => d.command.id).Nodup := by
    rw [heq] at hnodup
    simpa using hnodup
  rw [heq] at hnodup
  have hmiddle := (flightOf_middle hnodup').1
  change flightOf (c.dispatches.modify i fun d => { d with phase }) = _
  rw [hmodify, hmiddle, heq, (flightOf_middle hnodup).1, Function.update_idem]

theorem flightOf_endDispatch (h : Balanced o (books c)) (hi : c.dispatches[i]? = some d) :
    flightOf (endDispatch c i d.command).dispatches = Function.update (flightOf c.dispatches) d.command.id none := by
  obtain ⟨pre, post, heq, -, herase⟩ := exists_of_getElem? hi
  have hnodup := nodup_dispatches h
  rw [heq] at hnodup
  obtain ⟨hmiddle, hnone⟩ := flightOf_middle hnodup
  change flightOf (c.dispatches.eraseIdx i) = _
  rw [herase, heq, hmiddle, Function.update_idem, ← hnone, Function.update_eq_self]

theorem flightOf_eq_none (h : Balanced o (books c)) {id : CommandId} :
    flightOf c.dispatches id = none ↔ id ∉ c.dispatchingIds := by
  have hids := h.dispatchingIds.mem_iff (k := id)
  simp only [books, inProgress] at hids
  rw [hids, flightOf, Option.map_eq_none_iff, lookupBy_eq_none]
  simp

/-- What dispatching and counting leave. -/
theorem countActive_same (c : Coordinator threadOf) (command : PendingCommandRow threadOf) (n : Int) :
    (countActive c command n).dispatchBackoff = c.dispatchBackoff ∧
      (countActive c command n).backoffRecords = c.backoffRecords ∧ (countActive c command n).reading = c.reading := by
  unfold countActive
  split
  · exact ⟨rfl, rfl, rfl⟩
  · split <;> exact ⟨rfl, rfl, rfl⟩

theorem pumpLoop_same (out : Outside threadOf) (fuel : Nat) (c : Coordinator threadOf) :
    (pumpLoop o out fuel c).dispatchBackoff = c.dispatchBackoff ∧
      (pumpLoop o out fuel c).backoffRecords = c.backoffRecords ∧ (pumpLoop o out fuel c).reading = c.reading := by
  induction fuel generalizing c with
  | zero => exact ⟨rfl, rfl, rfl⟩
  | succ fuel ih =>
    unfold pumpLoop
    split
    · split
      · exact ⟨rfl, rfl, rfl⟩
      · rename_i entry _
        obtain ⟨hbackoff, hrecords, hreading⟩ := countActive_same c entry.command 1
        obtain ⟨hbackoff', hrecords', hreading'⟩ := ih (startDispatch c entry (c.queue.eraseP (isEligible o out c)))
        exact ⟨hbackoff'.trans hbackoff, hrecords'.trans hrecords, hreading'.trans hreading⟩
    · exact ⟨rfl, rfl, rfl⟩

theorem pump_same (out : Outside threadOf) (c : Coordinator threadOf) :
    (pump o out c).dispatchBackoff = c.dispatchBackoff ∧ (pump o out c).backoffRecords = c.backoffRecords ∧
      (pump o out c).reading = c.reading := by
  unfold pump
  split
  · exact pumpLoop_same out _ c
  · exact ⟨rfl, rfl, rfl⟩

theorem eligible_of_isEligible {out : Outside threadOf} {entry : QueueEntry threadOf} (h : isEligible o out c entry = true) :
    ∀ b ∈ c.dispatchBackoff entry.command.id, b.nextEligibleAt ≤ out.now := by
  intro b hb
  simp only [isEligible, Bool.and_eq_true] at h
  have hnow := of_decide_eq_true h.1.2
  rw [Option.mem_def.mp hb] at hnow
  exact hnow

/-- The view, once those dispatches have begun. -/
def View.begun (v : View) (dispatches started : List (Dispatch threadOf)) (now : Nat) : View :=
  { v with
    flight := flightOf (dispatches ++ started)
    log := (started.map fun d => .dispatched d.command.id now).reverse ++ v.log }

theorem begun_nil {v : View} (hflight : v.flight = flightOf c.dispatches) (now : Nat) : v.begun c.dispatches [] now = v := by
  unfold View.begun
  rw [List.append_nil, ← hflight]
  rfl

/-- The dispatches that `#pump` begins, one after the other. -/
theorem pumpLoop_moves {out : Outside threadOf} (fuel : Nat) (h : Balanced o (books c)) {v : View}
    (hflight : v.flight = flightOf c.dispatches) (hbackoff : v.backoff = c.dispatchBackoff) :
    ∃ started, (pumpLoop o out fuel c).dispatches = c.dispatches ++ started ∧
      Relation.ReflTransGen Moves v (v.begun c.dispatches started out.now) := by
  induction fuel generalizing c v with
  | zero => exact ⟨[], (List.append_nil _).symm, (begun_nil hflight _).symm ▸ .refl⟩
  | succ fuel ih =>
    unfold pumpLoop
    split
    · split
      · exact ⟨[], (List.append_nil _).symm, (begun_nil hflight _).symm ▸ .refl⟩
      · rename_i entry hfind
        obtain ⟨helig, pre, post, hqueue, hpre⟩ := List.find?_eq_some_iff_append.mp hfind
        have herase : c.queue.eraseP (isEligible o out c) = pre ++ post := by
          rw [hqueue, List.eraseP_append_right _ (fun b hb => by simpa using hpre b hb), List.eraseP_cons_of_pos helig]
        rw [herase]
        have hidle : v.flight entry.command.id = none := by
          rw [hflight]
          exact (flightOf_eq_none h).mpr (of_isEligible helig).2.1
        have hbegins := Moves.begins (v := v) entry.command.id out.now hidle (hbackoff ▸ eligible_of_isEligible helig)
        have hflight' : Function.update v.flight entry.command.id (some .claiming) =
            flightOf (startDispatch c entry (pre ++ post)).dispatches := by
          rw [hflight]
          exact (flightOf_concat c.dispatches ⟨entry.command, .claiming⟩).symm
        have hbackoff' : v.backoff = (startDispatch c entry (pre ++ post)).dispatchBackoff :=
          hbackoff.trans (countActive_same c entry.command 1).1.symm
        obtain ⟨started, hdispatches, hmoves⟩ := ih (h.startDispatch hqueue helig)
          (v := { v with
            flight := Function.update v.flight entry.command.id (some .claiming)
            log := .dispatched entry.command.id out.now :: v.log }) hflight' hbackoff'
        have hconcat : (startDispatch c entry (pre ++ post)).dispatches ++ started =
            c.dispatches ++ ⟨entry.command, .claiming⟩ :: started := (List.append_cons _ _ _).symm
        refine ⟨⟨entry.command, .claiming⟩ :: started, hdispatches.trans hconcat, ?_⟩
        have hbegun := Relation.ReflTransGen.head hbegins hmoves
        simp only [View.begun, hconcat] at hbegun ⊢
        simpa using hbegun
    · exact ⟨[], (List.append_nil _).symm, (begun_nil hflight _).symm ▸ .refl⟩

theorem pump_moves {out : Outside threadOf} (h : Balanced o (books c)) {v : View} (hflight : v.flight = flightOf c.dispatches)
    (hbackoff : v.backoff = c.dispatchBackoff) :
    ∃ started, (pump o out c).dispatches = c.dispatches ++ started ∧
      Relation.ReflTransGen Moves v (v.begun c.dispatches started out.now) := by
  unfold pump
  split
  · exact pumpLoop_moves _ h hflight hbackoff
  · exact ⟨[], (List.append_nil _).symm, (begun_nil hflight _).symm ▸ .refl⟩

/-- What the coordinator does when it may start to poll. -/
structure Wakes (c c' : Coordinator threadOf) : Prop where
  dispatches : c'.dispatches = c.dispatches
  dispatchingIds : c'.dispatchingIds = c.dispatchingIds
  backoff : c'.dispatchBackoff = c.dispatchBackoff
  records : c'.backoffRecords = c.backoffRecords
  poll : recordedBefore c' = recordedBefore c ∨ recordedBefore c = none ∧ recordedBefore c' = some c.backoffRecords

theorem Wakes.refl (c : Coordinator threadOf) : Wakes c c := ⟨rfl, rfl, rfl, rfl, .inl rfl⟩

theorem wakes_wakeReads (c : Coordinator threadOf) : Wakes c (wakeReads c) := by
  unfold wakeReads
  split
  · exact ⟨rfl, rfl, rfl, rfl, .inl rfl⟩
  · rename_i hreading
    refine ⟨rfl, rfl, rfl, rfl, .inr ⟨?_, rfl⟩⟩
    have hnone : c.reading = none := by simpa using hreading
    simp [recordedBefore, hnone]

theorem wakes_wake (c : Coordinator threadOf) : Wakes c (wake c) := by
  unfold wake
  split
  · exact wakes_wakeReads c
  · exact .refl c

theorem wakes_schedulePoll (c : Coordinator threadOf) : Wakes c (schedulePoll c) := by
  unfold schedulePoll
  split
  · exact ⟨rfl, rfl, rfl, rfl, .inl rfl⟩
  · exact .refl c

theorem wakes_start (c : Coordinator threadOf) : Wakes c (start c) := by
  unfold start
  split
  · have h := wakes_wake { c with controller := .running }
    exact ⟨h.dispatches, h.dispatchingIds, h.backoff, h.records, h.poll⟩
  · exact .refl c

theorem wakes_passEnds (h : c.reading = some .settled) : Wakes c (passEnds c) := by
  have hnone : recordedBefore c = none := by simp [recordedBefore, h]
  have hended (c' : Coordinator threadOf) (hc' : c' = { c with reading := none } ∨ c' = { c with reading := none, readRequested := false })
      {c'' : Coordinator threadOf} (hw : Wakes c' c'') : Wakes c c'' := by
    obtain rfl | rfl := hc'
    · exact ⟨hw.dispatches, hw.dispatchingIds, hw.backoff, hw.records, by rw [hnone]; exact hw.poll⟩
    · exact ⟨hw.dispatches, hw.dispatchingIds, hw.backoff, hw.records, by rw [hnone]; exact hw.poll⟩
  unfold passEnds
  dsimp only
  split
  · exact hended _ (.inr rfl) (wakes_wakeReads _)
  · exact hended _ (.inl rfl) (wakes_schedulePoll _)

/-! ## The steps of the coordinator with its Store -/

variable {w w' : World threadOf}

theorem advance_moves {c' : Coordinator threadOf} (h : Balanced o (books c')) (hw : Wakes c c')
    (hpoll : recordedBefore c = recordedBefore w.coordinator) :
    Relation.ReflTransGen Moves ({ w with coordinator := c } : World threadOf).view (w.advance c').view := by
  have hflight : flightOf c'.dispatches = flightOf c.dispatches := by rw [hw.dispatches]
  unfold World.advance
  split
  · rename_i hstarts
    rw [polls_eq, polls_eq, ← hpoll] at hstarts
    obtain ⟨hpolls, hidle⟩ := hstarts
    have hnone : recordedBefore c = none := by simpa using hidle
    have hsome : recordedBefore c' = some c.backoffRecords := by
      obtain hsame | ⟨-, hsome⟩ := hw.poll
      · rw [hsame, hnone] at hpolls
        cases hpolls
      · exact hsome
    have hgone : (fun id => decide (id ∉ w.pending ∧ id ∉ c'.dispatchingIds)) =
        fun id => decide (id ∉ w.pending ∧ flightOf c.dispatches id = none) := by
      funext id
      rw [← hflight, decide_eq_decide, flightOf_eq_none h]
    have hmove := Moves.pollStarts (v := ({ w with coordinator := c } : World threadOf).view) hnone
    refine .single ?_
    simp only [World.view, hw.backoff, hw.records, hflight, hsome, hgone]
    exact hmove
  · rename_i hstays
    have hsame : recordedBefore c' = recordedBefore c := by
      obtain hsame | ⟨hnone, hsome⟩ := hw.poll
      · exact hsame
      · rw [polls_eq, polls_eq, ← hpoll, hnone, hsome] at hstays
        simp at hstays
    simp only [World.view, hw.backoff, hw.records, hflight, hsame]
    exact .refl

/-- No pending command that has an entry is hidden from a listing that is read. -/
def visible (w : World threadOf) : WorldAction threadOf → Bool
  | .reads _ => decide (∀ id ∈ w.pending, (w.coordinator.dispatchBackoff id).isSome → id ∉ w.hidden)
  | _ => true

theorem reads_moves {commands : List (PendingCommandRow threadOf)} (hvisible : visible w (.reads commands) = true)
    (hs : w.reads o commands = some w') : Relation.ReflTransGen Moves w.view w'.view := by
  obtain ⟨⟨hpolls, hlisting, -, hcommands⟩, hs⟩ := Option.ite_none_right_eq_some.mp hs
  obtain rfl := Option.some.inj hs
  have hids (id : CommandId) : id ∈ commands.map PendingCommandRow.id ↔ id ∈ w.pending ∧ id ∉ w.hidden := by
    rw [← List.mem_toFinset, hcommands, Finset.mem_sdiff]
  refine .single (.reads (commands.map PendingCommandRow.id) (polls_eq _ ▸ hpolls) ?_ (fun id hid => ((hids id).mp hid).1) ?_)
  · simp [World.view, hlisting]
  · exact fun id hid hentry => (hids id).mpr ⟨hid, of_decide_eq_true hvisible id hid hentry⟩

theorem enqueueListed_same (commands : List (PendingCommandRow threadOf)) (c : Coordinator threadOf) :
    (enqueueListed o c commands).dispatchBackoff = c.dispatchBackoff ∧
      (enqueueListed o c commands).backoffRecords = c.backoffRecords ∧
      (enqueueListed o c commands).dispatches = c.dispatches := by
  induction commands generalizing c with
  | nil => exact ⟨rfl, rfl, rfl⟩
  | cons command commands ih =>
    unfold enqueueListed
    split
    · exact ih c
    · split
      · exact ⟨rfl, rfl, rfl⟩
      · exact ih (enqueue c command)

theorem advance_of_not_polls (w : World threadOf) {c : Coordinator threadOf} (h : World.polls c = false) :
    w.advance c = { w with coordinator := c } := by
  unfold World.advance
  rw [h]
  simp

theorem advance_of_reading (w : World threadOf) {c : Coordinator threadOf} (h : c.reading = w.coordinator.reading) :
    w.advance c = { w with coordinator := c } := by
  have hpolls : World.polls c = World.polls w.coordinator := by
    unfold World.polls
    rw [h]
  unfold World.advance
  rw [hpolls]
  simp

/-- What a poll prunes, in terms of the view. -/
theorem pruneBackoff_eq (h : Balanced o (books c)) (recorded : Nat) (commands : List (PendingCommandRow threadOf)) :
    (pruneBackoff c recorded commands).dispatchBackoff = fun id => (c.dispatchBackoff id).filter fun backoff =>
      !(decide (id ∉ commands.map PendingCommandRow.id) && (flightOf c.dispatches id).isNone &&
        decide (backoff.recorded ≤ recorded)) := by
  funext id
  have hlisted : decide (id ∉ commands.map PendingCommandRow.id) = !commands.any fun command => command.id = id := by
    rw [Bool.eq_iff_iff]
    simp
  have hflight : (flightOf c.dispatches id).isNone = !decide (id ∈ c.dispatchingIds) := by
    rw [Bool.eq_iff_iff, Option.isNone_iff_eq_none, flightOf_eq_none h]
    simp
  rw [hlisted, hflight]
  rfl

theorem pollListed_moves {out : Outside threadOf} (h : Balanced o (books w.coordinator)) (hs : w.pollListed o out = some w') :
    Relation.ReflTransGen Moves w.view w'.view := by
  unfold World.pollListed at hs
  split at hs
  · cases hs
  rename_i commands hlisting
  obtain ⟨c', hstep, rfl⟩ := Option.map_eq_some_iff.mp hs
  simp only [step] at hstep
  split at hstep
  swap
  · cases hstep
  rename_i recorded hreading
  obtain rfl := Option.some.inj hstep
  have hpoll : recordedBefore w.coordinator = some recorded := by simp [recordedBefore, hreading]
  have hpolled : Moves w.view { w.view with
      poll := none
      listed := none
      backoff := (pruneBackoff w.coordinator recorded commands).dispatchBackoff } := by
    rw [pruneBackoff_eq h]
    exact .polled (commands.map PendingCommandRow.id) recorded hpoll (by simp [World.view, hlisting])
  obtain ⟨hbackoff, hrecords, hdispatches⟩ :=
    enqueueListed_same (o := o) commands (pruneBackoff w.coordinator recorded commands)
  replace hrecords : _ = w.coordinator.backoffRecords := hrecords
  replace hdispatches : _ = w.coordinator.dispatches := hdispatches
  have hbalanced : Balanced o (books (enqueueListed o (pruneBackoff w.coordinator recorded commands) commands)) :=
    Balanced.enqueueListed (c := pruneBackoff w.coordinator recorded commands) h
  obtain ⟨started, hstarted, hbegun⟩ := (@pump_moves _ _ _ out) hbalanced
    (v := { w.view with
      poll := none
      listed := none
      backoff := (pruneBackoff w.coordinator recorded commands).dispatchBackoff })
    (congrArg flightOf hdispatches.symm) hbackoff.symm
  refine (Relation.ReflTransGen.single hpolled).trans ?_
  obtain ⟨hbackoff', hrecords', -⟩ := pump_same (o := o) out (enqueueListed o (pruneBackoff w.coordinator recorded commands) commands)
  rw [hdispatches] at hstarted hbegun
  rw [advance_of_not_polls _ rfl]
  simp only [World.noteDispatches, World.view, pollListed, hbackoff', hrecords', hbackoff, hrecords, hstarted, List.drop_left]
  exact hbegun

theorem claimCommits_moves {claim : Claim} (h : Balanced o (books w.coordinator)) (hs : w.claimCommits i claim = some w') :
    Relation.ReflTransGen Moves w.view w'.view := by
  unfold World.claimCommits at hs
  split at hs
  swap
  · cases hs
  rename_i command hi
  have hflight : w.view.flight command.id = some .claiming := flightOf_dispatch h hi
  split at hs
  · cases hs
  rename_i hnone
  rw [not_not] at hnone
  cases claim with
  | rolledBack => cases hs
  | notPending =>
    obtain rfl := Option.some.inj hs
    exact .single (.commits (v := w.view) command.id .notPending hflight hnone (.inl rfl))
  | claimed =>
    obtain ⟨hpending, hs⟩ := Option.ite_none_right_eq_some.mp hs
    obtain rfl := Option.some.inj hs
    exact .single (.commits (v := w.view) command.id .claimed hflight hnone (.inr hpending))
  | terminalFailure =>
    obtain ⟨hpending, hs⟩ := Option.ite_none_right_eq_some.mp hs
    obtain rfl := Option.some.inj hs
    exact .single (.commits (v := w.view) command.id .terminalFailure hflight hnone (.inr hpending))

theorem claimSettles_moves (h : Balanced o (books w.coordinator)) (hs : w.claimSettles o i = some w') :
    Relation.ReflTransGen Moves w.view w'.view := by
  unfold World.claimSettles at hs
  split at hs
  swap
  · cases hs
  rename_i command hi
  have hflight : w.view.flight command.id = some .claiming := flightOf_dispatch h hi
  split at hs
  · cases hs
  rename_i claim hclaim
  obtain ⟨c', hstep, rfl⟩ := Option.map_eq_some_iff.mp hs
  simp only [step, hi, Option.some.injEq] at hstep
  subst hstep
  have hphase := flightOf_setPhase h hi (claimSettles claim)
  dsimp only
  rw [advance_of_reading]
  swap
  · rfl
  split
  · rename_i hclaimed
    subst hclaimed
    have hmove := Moves.claimed (v := w.view) command.id hflight hclaim
    refine .single ?_
    simp only [World.view, hphase]
    exact hmove
  · rename_i hclaimed
    have hover : (claimSettles claim).live = false := by
      cases claim with
      | claimed => exact absurd rfl hclaimed
      | rolledBack | notPending | terminalFailure => rfl
    have hmove := Moves.ends (v := w.view) command.id .claiming (claimSettles claim) _ w.coordinator.dispatchBackoff hflight
      hover (.inl rfl) (fun _ _ => rfl) fun _ hb => hb
    refine .single ?_
    simp only [World.view, World.note, hphase]
    exact hmove

theorem dispatchResolves_moves (h : Balanced o (books w.coordinator)) (hs : w.dispatchResolves o i = some w') :
    Relation.ReflTransGen Moves w.view w'.view := by
  unfold World.dispatchResolves at hs
  split at hs
  swap
  · cases hs
  rename_i command hi
  have hflight : w.view.flight command.id = some .dispatching := flightOf_dispatch h hi
  obtain ⟨c', hstep, rfl⟩ := Option.map_eq_some_iff.mp hs
  simp only [step, hi, Option.some.injEq] at hstep
  subst hstep
  have hmove := Moves.ends (v := w.view) command.id .dispatching (.settled true) w.claims
    (Function.update w.coordinator.dispatchBackoff command.id none) hflight rfl (.inr ⟨rfl, by simp⟩)
    (fun other hne => Function.update_of_ne hne _ _) (by simp)
  rw [advance_of_reading]
  swap
  · rfl
  refine .single ?_
  simp only [World.view, World.note, flightOf_setPhase h hi (.settled true)]
  exact hmove

theorem dispatchRejects_moves {error : DispatchError} (h : Balanced o (books w.coordinator))
    (hs : w.dispatchRejects o i error = some w') : Relation.ReflTransGen Moves w.view w'.view := by
  unfold World.dispatchRejects at hs
  split at hs
  swap
  · cases hs
  rename_i command hi
  have hflight : w.view.flight command.id = some .dispatching := flightOf_dispatch h hi
  obtain ⟨c', hstep, rfl⟩ := Option.map_eq_some_iff.mp hs
  simp only [step, hi, Option.some.injEq] at hstep
  subst hstep
  have hphase := flightOf_setPhase h hi (afterDispatchError command.type (normalizeDispatchError error))
  rw [advance_of_reading]
  swap
  · rfl
  refine .single ?_
  split
  · rename_i hretrying
    have hmove := Moves.retries (v := w.view) command.id hflight
    rw [hretrying] at hphase ⊢
    simp only [World.view, hphase]
    exact hmove
  · rename_i hretrying
    have hover : (afterDispatchError command.type (normalizeDispatchError error)).live = false := by
      unfold afterDispatchError at hretrying ⊢
      dsimp only at hretrying ⊢
      split at hretrying
      · exact absurd rfl hretrying
      · rename_i hretry
        rw [if_neg hretry]
        split
        · rfl
        · split <;> rfl
    have hmove := Moves.ends (v := w.view) command.id .dispatching _ w.claims w.coordinator.dispatchBackoff hflight hover
      (.inr ⟨rfl, by simp⟩) (fun _ _ => rfl) fun _ hb => hb
    simp only [World.view, World.note, hphase]
    exact hmove

theorem retryCommits_moves {pending : Bool} (hs : w.retryCommits i pending = some w') :
    Relation.ReflTransGen Moves w.view w'.view := by
  unfold World.retryCommits at hs
  split at hs
  swap
  · cases hs
  rename_i command hi
  split at hs
  · cases hs
  obtain rfl := Option.some.inj hs
  split
  · exact .single (.appears (v := w.view) command.id)
  · exact .refl

theorem retryResolves_moves {now : Nat} (h : Balanced o (books w.coordinator)) (hs : w.retryResolves o i now = some w') :
    Relation.ReflTransGen Moves w.view w'.view := by
  unfold World.retryResolves at hs
  split at hs
  swap
  · cases hs
  rename_i command hi
  have hflight : w.view.flight command.id = some .retrying := flightOf_dispatch h hi
  obtain ⟨-, hs⟩ := Option.ite_none_right_eq_some.mp hs
  obtain ⟨c', hstep, rfl⟩ := Option.map_eq_some_iff.mp hs
  simp only [step, hi, Option.some.injEq] at hstep
  subst hstep
  have hphase := flightOf_setPhase h hi (.settled true)
  have hmove := Moves.rejected (v := w.view) command.id now hflight
  rw [advance_of_reading]
  swap
  · rfl
  refine .single ?_
  have hphase' : flightOf (setPhase (backOff w.coordinator command.id now) i (.settled true)).dispatches =
      Function.update (flightOf w.coordinator.dispatches) command.id (some (.settled true)) := hphase
  simp only [World.view, World.note, hphase']
  exact hmove

theorem recordResolves_moves {c' : Coordinator threadOf} (h : Balanced o (books w.coordinator))
    (hs : step o w.coordinator (.recordResolves i) = some c') : Relation.ReflTransGen Moves w.view (w.advance c').view := by
  have hsettles {d : Dispatch threadOf} (hi : w.coordinator.dispatches[i]? = some d) (hphase : d.phase.live = false) :
      Relation.ReflTransGen Moves w.view (w.advance (setPhase w.coordinator i (.settled true))).view := by
    have hmove := Moves.settles (v := w.view) d.command.id d.phase (.settled true) (flightOf_dispatch h hi) hphase rfl
    rw [advance_of_reading]
    swap
    · rfl
    refine .single ?_
    simp only [World.view, flightOf_setPhase h hi (.settled true)]
    exact hmove
  simp only [step] at hs
  split at hs
  · rename_i hi
    obtain rfl := Option.some.inj hs
    exact hsettles hi rfl
  · rename_i hi
    obtain rfl := Option.some.inj hs
    exact hsettles hi rfl
  · rename_i hi
    obtain rfl := Option.some.inj hs
    exact hsettles hi rfl
  · cases hs

theorem executeRejects_moves (h : Balanced o (books w.coordinator)) (hs : w.executeRejects o i = some w') :
    Relation.ReflTransGen Moves w.view w'.view := by
  unfold World.executeRejects at hs
  split at hs
  · cases hs
  · cases hs
  rename_i command phase _ hi
  split at hs
  · cases hs
  obtain ⟨c', hstep, rfl⟩ := Option.map_eq_some_iff.mp hs
  have hc' : c' = setPhase w.coordinator i (.settled false) := by
    simp only [step, hi] at hstep
    split at hstep
    · cases hstep
    · cases hstep
    · exact (Option.some.inj hstep).symm
  subst hc'
  have hmove := Moves.ends (v := w.view) command.id phase (.settled false) _ w.coordinator.dispatchBackoff
    (flightOf_dispatch h hi) rfl (.inl rfl) (fun _ _ => rfl) fun _ hb => hb
  rw [advance_of_reading]
  swap
  · rfl
  refine .single ?_
  simp only [World.view, World.note, flightOf_setPhase h hi (.settled false)]
  exact hmove

theorem noteDispatches_advance (w : World threadOf) (c : Coordinator threadOf) (before now : Nat) :
    (w.advance c).noteDispatches before now = ({ w with
      log := ((c.dispatches.drop before).map fun d => .dispatched d.command.id now).reverse ++ w.log } :
        World threadOf).advance c := by
  unfold World.advance
  dsimp only
  split <;> rfl

theorem finallyRuns_moves {out : Outside threadOf} (h : Balanced o (books w.coordinator))
    (h' : Balanced o (books w'.coordinator)) (hs : w.finallyRuns o i out = some w') :
    Relation.ReflTransGen Moves w.view w'.view := by
  obtain ⟨c', hstep, rfl⟩ := Option.map_eq_some_iff.mp hs
  simp only [step] at hstep
  split at hstep
  swap
  · cases hstep
  rename_i command wakeImmediately hi
  have hend := flightOf_endDispatch h hi
  have hfinishes := Moves.finishes (v := w.view) command.id (.settled wakeImmediately) (flightOf_dispatch h hi) rfl
  obtain ⟨hbackoff, hrecords, hreading⟩ := countActive_same w.coordinator command (-1)
  obtain ⟨hbackoff', hrecords', hreading'⟩ := pump_same (o := o) out (endDispatch w.coordinator i command)
  obtain ⟨started, hstarted, hbegun⟩ := (@pump_moves _ _ _ out) (h.endDispatch hi)
    (v := { w.view with flight := Function.update w.view.flight command.id none }) hend.symm hbackoff.symm
  have hpumped : Wakes (pump o out (endDispatch w.coordinator i command)) c' := by
    obtain rfl := Option.some.inj hstep
    unfold finallyRuns
    dsimp only
    split
    · exact wakes_wake _
    · exact wakes_schedulePoll _
  have hlength : (endDispatch w.coordinator i command).dispatches.length = w.coordinator.dispatches.length - 1 := by
    obtain ⟨hlt, -⟩ := List.getElem?_eq_some_iff.mp hi
    exact List.length_eraseIdx_of_lt hlt
  have hbalanced : Balanced o (books c') := by
    rw [noteDispatches_advance] at h'
    simpa [World.advance, apply_ite] using h'
  have hpoll : recordedBefore (pump o out (endDispatch w.coordinator i command)) = recordedBefore w.coordinator := by
    unfold recordedBefore
    rw [hreading']
    exact congrArg (fun reading : Option Pass => match reading with | some (.reading n) => some n | _ => none) hreading
  have hadvance := advance_moves (w := { w with
    log := (started.map fun d => .dispatched d.command.id out.now).reverse ++ w.log }) hbalanced hpumped hpoll
  rw [noteDispatches_advance, hpumped.dispatches, hstarted, ← hlength, List.drop_left]
  have hrecords'' : (pump o out (endDispatch w.coordinator i command)).backoffRecords = w.coordinator.backoffRecords :=
    hrecords'.trans hrecords
  have hbackoff'' : (pump o out (endDispatch w.coordinator i command)).dispatchBackoff = w.coordinator.dispatchBackoff :=
    hbackoff'.trans hbackoff
  refine (Relation.ReflTransGen.head hfinishes hbegun).trans ?_
  simp only [World.view, hrecords'', hbackoff'', hstarted, hpoll] at hadvance
  exact hadvance

theorem World.balanced {a : WorldAction threadOf} (h : Balanced o (books w.coordinator))
    (hs : (World.machine o).step w a = some w') : Balanced o (books w'.coordinator) := by
  have hadvance {w : World threadOf} {c : Coordinator threadOf} : (w.advance c).coordinator = c := by
    unfold World.advance
    split <;> rfl
  have hstep {b : Action threadOf} {c : Coordinator threadOf} (hc : step o w.coordinator b = some c) :
      Balanced o (books c) := h.step hc
  have hmap {b : Action threadOf} (hb : (step o w.coordinator b).map w.advance = some w') : Balanced o (books w'.coordinator) := by
    obtain ⟨c, hc, rfl⟩ := Option.map_eq_some_iff.mp hb
    rw [hadvance]
    exact hstep hc
  cases a with
  | start => exact hmap (b := .start) hs
  | wake => exact hmap (b := .wake) hs
  | timerFires => exact hmap (b := .timerFires) hs
  | reads commands =>
    obtain ⟨-, hs⟩ := Option.ite_none_right_eq_some.mp hs
    obtain rfl := Option.some.inj hs
    exact h
  | pollListed out =>
    simp only [World.machine, World.pollListed] at hs
    split at hs
    · cases hs
    · obtain ⟨c, hc, rfl⟩ := Option.map_eq_some_iff.mp hs
      simp only [World.noteDispatches, hadvance]
      exact hstep hc
  | passEnds => exact hmap (b := .passEnds) hs
  | claimCommits i claim =>
    simp only [World.machine, World.claimCommits] at hs
    split at hs
    · split at hs
      · cases hs
      · split at hs
        · cases hs
        · cases hs
          exact h
        · split at hs <;> cases hs
          exact h
        · split at hs <;> cases hs
          exact h
    · cases hs
  | claimSettles i =>
    simp only [World.machine, World.claimSettles] at hs
    split at hs
    · split at hs
      · cases hs
      · obtain ⟨c, hc, rfl⟩ := Option.map_eq_some_iff.mp hs
        have hbalanced := hstep hc
        split <;> simpa only [World.note, hadvance] using hbalanced
    · cases hs
  | dispatchResolves i =>
    simp only [World.machine, World.dispatchResolves] at hs
    split at hs
    · obtain ⟨c, hc, rfl⟩ := Option.map_eq_some_iff.mp hs
      simp only [World.note, hadvance]
      exact hstep hc
    · cases hs
  | dispatchRejects i error =>
    simp only [World.machine, World.dispatchRejects] at hs
    split at hs
    · obtain ⟨c, hc, rfl⟩ := Option.map_eq_some_iff.mp hs
      have hbalanced := hstep hc
      split <;> simpa only [World.note, hadvance] using hbalanced
    · cases hs
  | retryCommits i pending =>
    simp only [World.machine, World.retryCommits] at hs
    split at hs
    · split at hs
      · cases hs
      · cases hs
        split <;> exact h
    · cases hs
  | retryResolves i now =>
    simp only [World.machine, World.retryResolves] at hs
    split at hs
    · obtain ⟨-, hs⟩ := Option.ite_none_right_eq_some.mp hs
      obtain ⟨c, hc, rfl⟩ := Option.map_eq_some_iff.mp hs
      simp only [World.note, hadvance]
      exact hstep hc
    · cases hs
  | recordResolves i => exact hmap (b := .recordResolves i) hs
  | executeRejects i =>
    simp only [World.machine, World.executeRejects] at hs
    split at hs
    · cases hs
    · cases hs
    · split at hs
      · cases hs
      · obtain ⟨c, hc, rfl⟩ := Option.map_eq_some_iff.mp hs
        simp only [World.note, hadvance]
        exact hstep hc
  | finallyRuns i out =>
    obtain ⟨c, hc, rfl⟩ := Option.map_eq_some_iff.mp hs
    simp only [World.noteDispatches, hadvance]
    exact hstep hc
  | appears id | leaves id | hides id | shows id =>
    cases hs
    exact h

/-- Every step is moves, unless it reads a listing that lacks a pending command with an entry. -/
theorem World.step_moves {a : WorldAction threadOf} (h : Balanced o (books w.coordinator)) (hvisible : visible w a = true)
    (hs : (World.machine o).step w a = some w') : Relation.ReflTransGen Moves w.view w'.view := by
  have h' := World.balanced h hs
  have hmap {b : Action threadOf} (hwakes : ∀ c, step o w.coordinator b = some c → Wakes w.coordinator c)
      (hb : (step o w.coordinator b).map w.advance = some w') : Relation.ReflTransGen Moves w.view w'.view := by
    obtain ⟨c, hc, rfl⟩ := Option.map_eq_some_iff.mp hb
    exact advance_moves (h.step hc) (hwakes c hc) rfl
  cases a with
  | start => exact hmap (b := .start) (fun c hc => Option.some.inj hc ▸ wakes_start _) hs
  | wake => exact hmap (b := .wake) (fun c hc => Option.some.inj hc ▸ wakes_wake _) hs
  | timerFires =>
    refine hmap (b := .timerFires) (fun c hc => ?_) hs
    obtain ⟨-, hc⟩ := Option.ite_none_right_eq_some.mp hc
    obtain rfl := Option.some.inj hc
    have hw := wakes_wake { w.coordinator with pollTimer := false }
    exact ⟨hw.dispatches, hw.dispatchingIds, hw.backoff, hw.records, hw.poll⟩
  | reads commands => exact reads_moves hvisible hs
  | pollListed out => exact pollListed_moves h hs
  | passEnds =>
    refine hmap (b := .passEnds) (fun c hc => ?_) hs
    simp only [step] at hc
    split at hc
    · rename_i hreading
      exact Option.some.inj hc ▸ wakes_passEnds hreading
    · cases hc
  | claimCommits i claim => exact claimCommits_moves h hs
  | claimSettles i => exact claimSettles_moves h hs
  | dispatchResolves i => exact dispatchResolves_moves h hs
  | dispatchRejects i error => exact dispatchRejects_moves h hs
  | retryCommits i pending => exact retryCommits_moves hs
  | retryResolves i now => exact retryResolves_moves h hs
  | recordResolves i =>
    obtain ⟨c, hc, rfl⟩ := Option.map_eq_some_iff.mp hs
    exact recordResolves_moves h hc
  | executeRejects i => exact executeRejects_moves h hs
  | finallyRuns i out => exact finallyRuns_moves h h' hs
  | appears id =>
    obtain rfl := Option.some.inj hs
    exact .single (.appears (v := w.view) id)
  | leaves id =>
    obtain rfl := Option.some.inj hs
    exact .single (.leaves (v := w.view) id)
  | hides id =>
    obtain rfl := Option.some.inj hs
    exact .refl
  | shows id =>
    obtain rfl := Option.some.inj hs
    exact .refl

/-! ## Every run -/

/-- No dispatch has begun before its time, and of a command that was neither pending nor being dispatched when
the poll started, nor pending since, and is not being dispatched, the poll leaves no entry. -/
structure KeepsPace (o : Options) (w : World threadOf) : Prop where
  paced : Paced w.log
  dropped : ∀ out w', w.pollListed o out = some w' → ∀ id, w.gone id = true → id ∉ w.coordinator.dispatchingIds →
    w'.coordinator.dispatchBackoff id = none

theorem Sound.dropped {out : Outside threadOf} {id : CommandId} (h : Sound w.view) (hs : w.pollListed o out = some w')
    (hgone : w.gone id = true) (hidle : id ∉ w.coordinator.dispatchingIds) : w'.coordinator.dispatchBackoff id = none := by
  unfold World.pollListed at hs
  split at hs
  · cases hs
  rename_i commands hlisting
  obtain ⟨c', hstep, rfl⟩ := Option.map_eq_some_iff.mp hs
  simp only [step] at hstep
  split at hstep
  swap
  · cases hstep
  rename_i recorded hreading
  obtain rfl := Option.some.inj hstep
  rw [advance_of_not_polls _ rfl]
  have hbackoff := (pump_same (o := o) out (enqueueListed o (pruneBackoff w.coordinator recorded commands) commands)).1.trans
    (enqueueListed_same commands _).1
  have hlisted := (h.command id).gone_listed (commands.map PendingCommandRow.id) hgone (by simp [World.view, hlisting])
  have hrecorded (b : DispatchBackoff) (hb : w.coordinator.dispatchBackoff id = some b) : b.recorded ≤ recorded :=
    (h.command id).gone_recorded recorded b hgone (by simp [World.view, recordedBefore, hreading]) hb
  refine (congrFun hbackoff id).trans (Option.filter_eq_none_iff.mpr fun b hb => ?_)
  have hnot : commands.any (fun command => command.id = id) = false := by
    rw [Bool.eq_false_iff]
    simpa using hlisted
  simp [hnot, hidle, hrecorded b hb]

theorem keepsPace {actions : List (WorldAction threadOf)} {w : World threadOf}
    (hvisible : (World.machine o).Meets (fun w a => visible w a = true) .initial actions)
    (hrun : (World.machine o).run .initial actions = some w) : KeepsPace o w := by
  have hinitial : Sound (World.initial : World threadOf).view := by
    refine ⟨fun n h => ?_, fun h => ?_, trivial, fun id => ?_⟩
    · cases h
    · cases h
    · refine ⟨fun b h => ?_, fun last rest h => ?_, fun h => ?_, fun ids n h => ?_, fun h => ?_, fun h => ?_, fun h => ?_,
        fun n b h => ?_, fun ids h => ?_⟩
      · cases h
      · cases h
      · exact absurd rfl h
      · cases h
      · exact absurd rfl h
      · cases h
      · cases h
      · cases h
      · cases h
  have hsound := (World.machine o).run_invariant (P := fun w => Balanced o (books w.coordinator) ∧ Sound w.view)
    ⟨.initial o, hinitial⟩
    (fun s a t h hv hs => ⟨World.balanced h.1 hs, h.2.run (World.step_moves h.1 hv hs)⟩) hvisible hrun
  exact ⟨hsound.2.paced, fun out w' hs id hgone hidle => hsound.2.dropped hs hgone hidle⟩

/-- A Run's command whose first dispatch is rejected for retry at 5. -/
def runCommand : PendingCommandRow fun _ => ⟨"t"⟩ :=
  ⟨⟨"c"⟩, some ⟨"e"⟩, some ⟨"t"⟩, some ⟨"r"⟩, .runExecute, 4, by decide⟩

def oneAtATime : Options := ⟨1, 1, 1, 10, 10, by decide, by decide, by decide, by decide, by decide⟩

def rejectedOnce : List (WorldAction fun _ => ⟨"t"⟩) :=
  [.appears ⟨"c"⟩, .start, .reads [runCommand], .pollListed ⟨0, fun _ _ => true⟩, .passEnds, .claimCommits 0 .claimed,
    .claimSettles 0, .dispatchRejects 0 (.command .retry), .retryCommits 0 true, .retryResolves 0 5,
    .finallyRuns 0 ⟨5, fun _ _ => true⟩]

/-- It is listed again, and is dispatched once it may be. -/
theorem keepsPace_rejectedOnce : ∃ w, (World.machine oneAtATime).run .initial
    (rejectedOnce ++ [WorldAction.reads [runCommand], .pollListed ⟨6, fun _ _ => true⟩, .passEnds, .timerFires, .reads [runCommand],
      .pollListed ⟨1005, fun _ _ => true⟩]) = some w ∧ KeepsPace oneAtATime w :=
  (World.machine oneAtATime).exists_run (by decide) fun _ hrun => keepsPace (by decide) hrun

/-- It is hidden from a listing that is read meanwhile. -/
def hiddenOnce : List (WorldAction fun _ => ⟨"t"⟩) :=
  rejectedOnce ++ [WorldAction.hides ⟨"c"⟩, .reads [], .pollListed ⟨6, fun _ _ => true⟩, .passEnds, .shows ⟨"c"⟩, .timerFires,
    .reads [runCommand], .pollListed ⟨506, fun _ _ => true⟩]

theorem not_keepsPace_hidden : ∃ w, (World.machine oneAtATime).run .initial hiddenOnce = some w ∧ ¬ KeepsPace oneAtATime w := by
  obtain ⟨w, hrun, hlog⟩ := (World.machine oneAtATime).exists_run_of_any (s := .initial) (l := hiddenOnce)
    (P := fun w => w.log = [.dispatched ⟨"c"⟩ 506, .rejected ⟨"c"⟩ 5, .dispatched ⟨"c"⟩ 0]) (by decide)
  refine ⟨w, hrun, fun h => ?_⟩
  have hpaced := h.paced
  rw [hlog] at hpaced
  have hlate := hpaced.1 5 rfl 1 Nat.one_pos (Nat.le_refl _)
  omega

end Opensteer.ExecutionCoordinator
