import Mathlib.Data.Finset.Card
import Opensteer.Core.Json
import Opensteer.Framework.JsonTree
import Opensteer.Framework.Machine
import Opensteer.Framework.OrderedMap

/-!
# The ledger of commands

`CommandLedger` of the Runner: the decision on a command is kept under its ID, so that the command
sent again gets the decision that was made, or is being made, and is not run again. Entries are
forgotten by age, by number, and where the decision is a rejection that may be retried.

An execution is a call of `execute` that makes a promise, named by the number of them before it.
A step of `machine` calls `execute`, or goes on with an execution: its operation is called, that
settles, and the last reaction decides. `Remembered` is that no entry is forgotten by number, and
that of the ID not by age; `commandLedger_runsOnce` says what then becomes of the ID's commands.
-/

namespace Opensteer

namespace CommandLedger

/-- The `code` of a `ProtocolError`. -/
inductive ErrorCode
  | badMessage | conflict | forbidden | internal | notFound
deriving DecidableEq

structure ProtocolError where
  code : ErrorCode
  message : Text
  reason : Option Text := none
  retryable : Bool
deriving DecidableEq

inductive CommandDecision
  | accepted (workspacePath : Option Text)
  | uncertain (message : Text)
  | rejected (error : ProtocolError)
deriving DecidableEq

/-- A `RunnerCommand`, as `JSON.parse` gives its JSON. -/
structure Command (ν : Type) where
  commandId : Text
  value : JsonTree Text ν

structure Options where
  maxEntries : Nat := 10000
  ttlMs : Nat := 24 * 60 * 60 * 1000
  maxEntries_pos : 1 ≤ maxEntries := by decide
  ttlMs_pos : 1 ≤ ttlMs := by decide

/-- `result` is the number of an execution. -/
structure LedgerEntry (φ : Type) where
  fingerprint : φ
  result : Nat
  touchedAt : Int

/-- What an operation throws or rejects with. -/
inductive Thrown
  | error (message : Text)
  | other

inductive Outcome
  | fulfilled (decision : CommandDecision)
  | rejected (error : Thrown)

/-- `JSON.stringify` of strings and numbers, and the digest, whose code is not here. -/
structure Runtime (ν φ : Type) where
  script : JsonTree.Script UInt16 Text ν
  sha256 : Text → φ

/-- What `execute` returns: a decision that is made, or the promise of an execution. -/
inductive Reply
  | decided (decision : CommandDecision)
  | result (execution : Nat)
deriving DecidableEq

variable {ν φ : Type}

/-- `canonicalJson`, of the value that `JSON.parse` gives. -/
def Runtime.canonicalJson (R : Runtime ν φ) (value : JsonTree Text ν) : Text :=
  (value.arranged [fun left right => decide (left ≤ right)]).spell R.script

def Runtime.fingerprintCommand (R : Runtime ν φ) (command : Command ν) : φ :=
  R.sha256 (R.canonicalJson command.value)

def safeErrorMessage (error : Thrown) : Text :=
  let message := match error with
    | .error message => message
    | .other => units "Runner command failed"
  if message.take 2000 = [] then units "Runner command failed" else message.take 2000

def toProtocolError (error : Thrown) : ProtocolError where
  code := .internal
  message := safeErrorMessage error
  retryable := false

/-- The decision an operation's outcome stands for. -/
def Outcome.decision : Outcome → CommandDecision
  | .fulfilled decision => decision
  | .rejected error => .rejected (toProtocolError error)

/-- A rejection that may be retried. -/
def CommandDecision.retryable : CommandDecision → Bool
  | .rejected error => error.retryable
  | _ => false

/-- `Command identity was reused with different content` -/
def reused : CommandDecision :=
  .rejected
    { code := .conflict
      message := units "Command identity was reused with different content"
      retryable := false }

abbrev Entries (φ : Type) := OrderedMap Text (LedgerEntry φ)

/-- The entries that are not older than `ttlMs`. -/
def withinTtl (o : Options) (now : Int) (entries : Entries φ) : Entries φ where
  entries := entries.entries.filter fun e => now - e.2.touchedAt ≤ o.ttlMs
  nodup := entries.nodup.sublist (List.filter_sublist.map _)

/-- The second loop of `#prune`, of at most so many turns; an empty ID stops it. -/
def dropOldest (o : Options) : Nat → Entries φ → Entries φ
  | 0, entries => entries
  | n + 1, entries =>
    if o.maxEntries ≤ entries.size then
      match entries.keys with
      | [] => entries
      | oldest :: _ => if oldest = [] then entries else dropOldest o n (entries.delete oldest)
    else entries

/-- `#prune` -/
def prune (o : Options) (now : Int) (entries : Entries φ) : Entries φ :=
  let entries := withinTtl o now entries
  dropOldest o entries.size entries

/-- `execute`, whose execution, if it makes one, is the one of the number. -/
def execute [DecidableEq φ] (o : Options) (R : Runtime ν φ) (entries : Entries φ)
    (command : Command ν) (now : Int) (execution : Nat) : Entries φ × Reply :=
  let entries := prune o now entries
  let fingerprint := R.fingerprintCommand command
  match entries.get command.commandId with
  | some existing =>
    let entries := entries.set command.commandId { existing with touchedAt := now }
    if existing.fingerprint ≠ fingerprint then (entries, .decided reused)
    else (entries, .result existing.result)
  | none =>
    (prune o now (entries.set command.commandId ⟨fingerprint, execution, now⟩), .result execution)

/-- The last reaction of an execution forgets its entry if its rejection may be retried. -/
def forgetRetryable (entries : Entries φ) (commandId : Text) (execution : Nat)
    (decision : CommandDecision) : Entries φ :=
  if decision.retryable && (entries.get commandId).any (·.result = execution) then
    entries.delete commandId
  else entries

/-! ## Runs -/

/-- How far an execution is: its operation has not been called, is running, has settled, or the
promise is resolved. -/
inductive Phase
  | queued
  | running
  | settled (decision : CommandDecision)
  | decided (decision : CommandDecision)
deriving DecidableEq

structure Execution (ν : Type) where
  command : Command ν
  phase : Phase

structure Call (ν : Type) where
  command : Command ν
  now : Int
  reply : Reply

/-- A ledger with its executions, the calls of `execute`, and the executions whose operations were
called. -/
structure World (ν φ : Type) where
  entries : Entries φ := .empty
  executions : List (Execution ν) := []
  calls : List (Call ν) := []
  starts : List Nat := []

inductive Action (ν : Type)
  | execute (command : Command ν) (now : Int)
  | start (execution : Nat)
  | settle (execution : Nat) (outcome : Outcome)
  | decide (execution : Nat)

/-- The world with an execution in another phase. -/
def World.enter (w : World ν φ) (execution : Nat) (phase : Phase) : World ν φ :=
  { w with executions := w.executions.modify execution fun e => { e with phase } }

def step [DecidableEq φ] (o : Options) (R : Runtime ν φ) (w : World ν φ) :
    Action ν → Option (World ν φ)
  | .execute command now =>
    let (entries, reply) := execute o R w.entries command now w.executions.length
    some { w with
      entries
      executions :=
        if reply = .result w.executions.length then w.executions ++ [⟨command, .queued⟩]
        else w.executions
      calls := w.calls ++ [⟨command, now, reply⟩] }
  | .start execution =>
    match w.executions[execution]? with
    | some ⟨_, .queued⟩ =>
      some { w.enter execution .running with starts := w.starts ++ [execution] }
    | _ => none
  | .settle execution outcome =>
    match w.executions[execution]? with
    | some ⟨_, .running⟩ => some (w.enter execution (.settled outcome.decision))
    | _ => none
  | .decide execution =>
    match w.executions[execution]? with
    | some ⟨command, .settled decision⟩ =>
      some { w.enter execution (.decided decision) with
        entries := forgetRetryable w.entries command.commandId execution decision }
    | _ => none

def machine [DecidableEq φ] (o : Options) (R : Runtime ν φ) : Machine (World ν φ) (Action ν) where
  step := step o R

/-- When an ID was given to `execute` last. -/
def lastCall (commandId : Text) (calls : List (Call ν)) : Option Int :=
  ((calls.filter (·.command.commandId = commandId)).getLast?).map (·.now)

/-- The IDs given to `execute` within one `ttlMs` up to now. -/
def used (o : Options) (w : World ν φ) (now : Int) : Finset Text :=
  ((w.calls.filter fun call => now - call.now ≤ o.ttlMs).map (·.command.commandId)).toFinset

/-- Fewer than `maxEntries` IDs are used within one `ttlMs`, and the ID was used last within it. -/
def Remembered (o : Options) (commandId : Text) (w : World ν φ) : Action ν → Prop
  | .execute command now =>
    (insert command.commandId (used o w now)).card < o.maxEntries ∧
      ∀ t ∈ lastCall commandId w.calls, now - t ≤ o.ttlMs
  | _ => True

instance (o : Options) (commandId : Text) (w : World ν φ) :
    ∀ a, Decidable (Remembered o commandId w a)
  | .execute _ _ => inferInstanceAs (Decidable (_ ∧ ∀ t ∈ lastCall commandId w.calls, _))
  | .start _ | .settle _ _ | .decide _ => isTrue trivial

def Phase.forgotten : Phase → Bool
  | .decided decision => decision.retryable
  | _ => false

/-- The executions of the ID whose operation was called. -/
def operations (commandId : Text) (w : World ν φ) : List Nat :=
  w.starts.filter fun r => (w.executions[r]?).any (·.command.commandId = commandId)

/-- The executions of the ID that were decided by a rejection that may be retried. -/
def rejections (commandId : Text) (w : World ν φ) : List Nat :=
  (List.range w.executions.length).filter fun r =>
    (w.executions[r]?).any fun x => x.command.commandId = commandId && x.phase.forgotten

/-- An execution of the ID that was not decided by a rejection that may be retried. -/
def Stands (commandId : Text) (w : World ν φ) (execution : Nat) (x : Execution ν) : Prop :=
  w.executions[execution]? = some x ∧ x.command.commandId = commandId ∧ x.phase.forgotten = false

/-! ## Pruning -/

section Prune

variable {o : Options} {entries : Entries φ} {now : Int} {commandId : Text} {entry : LedgerEntry φ}

theorem get_withinTtl : (withinTtl o now entries).get commandId = some entry ↔
    entries.get commandId = some entry ∧ now - entry.touchedAt ≤ o.ttlMs := by
  rw [← OrderedMap.mem_entries, ← OrderedMap.mem_entries]
  simp [withinTtl]

theorem dropOldest_eq (n : Nat) (h : entries.size < o.maxEntries) :
    dropOldest o n entries = entries := by
  cases n with
  | zero => rfl
  | succ n => rw [dropOldest, if_neg (by omega)]

theorem prune_eq (h : (withinTtl o now entries).size < o.maxEntries) :
    prune o now entries = withinTtl o now entries := dropOldest_eq _ h

theorem size_le_card {ids : Finset Text} (h : ∀ id e, entries.get id = some e → id ∈ ids) :
    entries.size ≤ ids.card := by
  have hkeys : entries.keys.toFinset ⊆ ids := by
    intro id hid
    obtain ⟨e, he⟩ := Option.isSome_iff_exists.mp
      (OrderedMap.mem_keys.mp (List.mem_toFinset.mp hid))
    exact h id e he
  calc entries.size = entries.keys.length := by simp [OrderedMap.size, OrderedMap.keys]
    _ = entries.keys.toFinset.card := (List.toFinset_card_of_nodup entries.nodup).symm
    _ ≤ ids.card := Finset.card_le_card hkeys

end Prune

/-! ## One call -/

variable {o : Options} {R : Runtime ν φ} {w w' : World ν φ} {commandId : Text}

/-- Every entry was touched by the last call with its ID, and has an execution. -/
def Touched (w : World ν φ) : Prop :=
  ∀ id e, w.entries.get id = some e →
    lastCall id w.calls = some e.touchedAt ∧ e.result < w.executions.length

theorem mem_used {now t : Int} (h : lastCall commandId w.calls = some t)
    (hnow : now - t ≤ o.ttlMs) : commandId ∈ used o w now := by
  obtain ⟨call, hlast, rfl⟩ := Option.map_eq_some_iff.mp h
  obtain ⟨hcall, hid⟩ := List.mem_filter.mp (List.mem_of_getLast? hlast)
  refine List.mem_toFinset.mpr (List.mem_map.mpr ⟨call, List.mem_filter.mpr ⟨hcall, ?_⟩, ?_⟩)
  · simpa using hnow
  · simpa using hid

theorem lastCall_concat (calls : List (Call ν)) (call : Call ν) :
    lastCall commandId (calls ++ [call]) =
      if call.command.commandId = commandId then some call.now else lastCall commandId calls := by
  unfold lastCall
  split
  · rename_i h
    simp [h]
  · rename_i h
    simp [h]

variable [DecidableEq φ]

/-- What `execute` does where no entry is forgotten by number. -/
theorem execute_spec (hw : Touched w) {command : Command ν} {now : Int}
    (hcount : (insert command.commandId (used o w now)).card < o.maxEntries) (n : Nat) :
    (∃ e, (withinTtl o now w.entries).get command.commandId = some e ∧
      execute o R w.entries command now n =
        ((withinTtl o now w.entries).set command.commandId { e with touchedAt := now },
          if e.fingerprint ≠ R.fingerprintCommand command then .decided reused
          else .result e.result)) ∨
    (withinTtl o now w.entries).get command.commandId = none ∧
      (execute o R w.entries command now n).2 = .result n ∧
      ∀ id, (execute o R w.entries command now n).1.get id =
        if command.commandId = id then some ⟨R.fingerprintCommand command, n, now⟩
        else (withinTtl o now w.entries).get id := by
  have hused : ∀ id e, (withinTtl o now w.entries).get id = some e →
      id ∈ insert command.commandId (used o w now) := by
    intro id e he
    obtain ⟨he, hnow⟩ := get_withinTtl.mp he
    exact Finset.mem_insert_of_mem (mem_used (hw id e he).1 hnow)
  have hprune := prune_eq ((size_le_card hused).trans_lt hcount)
  unfold execute
  rw [hprune]
  cases hget : (withinTtl o now w.entries).get command.commandId with
  | some e =>
    refine .inl ⟨e, rfl, ?_⟩
    simp only [hget]
    split <;> rfl
  | none =>
    simp only [hget]
    refine .inr ⟨trivial, trivial, fun id => ?_⟩
    have hnew : ∀ id e, (withinTtl o now ((withinTtl o now w.entries).set command.commandId
        ⟨R.fingerprintCommand command, n, now⟩)).get id = some e ↔
        ((withinTtl o now w.entries).set command.commandId
          ⟨R.fingerprintCommand command, n, now⟩).get id = some e := by
      intro id e
      rw [get_withinTtl]
      refine and_iff_left_of_imp fun he => ?_
      rw [OrderedMap.get_set] at he
      split at he
      · obtain rfl := Option.some.inj he
        simp
      · exact (get_withinTtl.mp he).2
    rw [prune_eq, Option.ext (fun e => hnew id e), OrderedMap.get_set]
    refine (size_le_card fun id e he => ?_).trans_lt hcount
    rw [hnew, OrderedMap.get_set] at he
    split at he
    · rename_i hid
      exact hid ▸ Finset.mem_insert_self _ _
    · exact hused id e he

/-! ## The executions of an ID -/

/-- What holds in every state: the executions of an ID that stand are one, which its entry names,
or none, and then it has no entry; an operation is called once. -/
structure Kept (R : Runtime ν φ) (commandId : Text) (w : World ν φ) : Prop where
  touched : Touched w
  entry : (∀ r x, ¬Stands commandId w r x) ∧ w.entries.get commandId = none ∨
    ∃ x e, w.entries.get commandId = some e ∧ Stands commandId w e.result x ∧
      (∀ r y, Stands commandId w r y → r = e.result) ∧
      e.fingerprint = R.fingerprintCommand x.command
  nodup : w.starts.Nodup
  started : ∀ r, r ∈ w.starts ↔ ∃ x, w.executions[r]? = some x ∧ x.phase ≠ .queued

omit [DecidableEq φ] in
theorem get_withinTtl_eq (h : Kept R commandId w) {now : Int}
    (hlast : ∀ t ∈ lastCall commandId w.calls, now - t ≤ o.ttlMs) :
    (withinTtl o now w.entries).get commandId = w.entries.get commandId := by
  refine Option.ext fun e => get_withinTtl.trans (and_iff_left_of_imp fun he => ?_)
  exact hlast _ (h.touched commandId e he).1

/-- A call that finds an entry. -/
def World.touch (w : World ν φ) (o : Options) (command : Command ν) (now : Int)
    (e : LedgerEntry φ) (reply : Reply) : World ν φ :=
  { w with
    entries := (withinTtl o now w.entries).set command.commandId { e with touchedAt := now }
    calls := w.calls ++ [⟨command, now, reply⟩] }

/-- What a call of `execute` leaves. -/
theorem step_execute (h : Kept R commandId w) {command : Command ν} {now : Int}
    (hG : Remembered o commandId w (.execute command now))
    (hstep : step o R w (.execute command now) = some w') :
    (∃ e, (withinTtl o now w.entries).get command.commandId = some e ∧
      w' = w.touch o command now e (if e.fingerprint ≠ R.fingerprintCommand command then
        .decided reused else .result e.result)) ∨
    (withinTtl o now w.entries).get command.commandId = none ∧
      w'.executions = w.executions ++ [⟨command, .queued⟩] ∧
      w'.calls = w.calls ++ [⟨command, now, .result w.executions.length⟩] ∧
      w'.starts = w.starts ∧
      ∀ id, w'.entries.get id = if command.commandId = id then
        some ⟨R.fingerprintCommand command, w.executions.length, now⟩
      else (withinTtl o now w.entries).get id := by
  have hspec := execute_spec (R := R) h.touched hG.1 w.executions.length
  simp only [step] at hstep
  generalize CommandLedger.execute o R w.entries command now w.executions.length = r at hspec hstep
  obtain rfl := Option.some.inj hstep
  obtain ⟨e, he, rfl⟩ | ⟨hnone, hreply, hentries⟩ := hspec
  · refine .inl ⟨e, he, ?_⟩
    have hlt := (h.touched _ e (get_withinTtl.mp he).1).2
    simp only [World.touch]
    rw [if_neg]
    split
    · simp
    · simpa using hlt.ne
  · exact .inr ⟨hnone, by simp [hreply], by simp [hreply], rfl, hentries⟩

theorem Kept.execute (h : Kept R commandId w) {command : Command ν} {now : Int}
    (hG : Remembered o commandId w (.execute command now))
    (hstep : step o R w (.execute command now) = some w') : Kept R commandId w' := by
  have hkept := get_withinTtl_eq h hG.2
  obtain ⟨e, he, rfl⟩ | ⟨hnone, hexecutions, hcalls, hstarts, hentries⟩ :=
    step_execute h hG hstep
  · have hold := (get_withinTtl.mp he).1
    exact {
      touched := by
        intro id e' he'
        simp only [World.touch, OrderedMap.get_set] at he' ⊢
        rw [lastCall_concat]
        split at he'
        · rename_i hid
          obtain rfl := Option.some.inj he'
          rw [if_pos hid]
          exact ⟨rfl, (h.touched _ e hold).2⟩
        · rename_i hid
          rw [if_neg hid]
          exact h.touched id e' (get_withinTtl.mp he').1
      entry := by
        obtain ⟨hno, hget⟩ | ⟨x, e', hget, hrest⟩ := h.entry
        · refine .inl ⟨hno, ?_⟩
          have hid : command.commandId ≠ commandId := fun hid => by
            rw [hid, hget] at hold
            cases hold
          simp only [World.touch, OrderedMap.get_set]
          rw [if_neg hid, hkept, hget]
        · by_cases hid : command.commandId = commandId
          · obtain rfl : e' = e := Option.some.inj (hget.symm.trans (hid ▸ hold))
            exact .inr ⟨x, { e' with touchedAt := now },
              by simp only [World.touch, OrderedMap.get_set, if_pos hid], hrest⟩
          · exact .inr ⟨x, e', by
              simp only [World.touch, OrderedMap.get_set]
              rw [if_neg hid, hkept, hget], hrest⟩
      nodup := h.nodup
      started := h.started }
  · have hold : ∀ (r : Nat) (x : Execution ν), w.executions[r]? = some x → w'.executions[r]? = some x := by
      intro r x hx
      rw [hexecutions, List.getElem?_append_left (List.getElem?_eq_some_iff.mp hx).1, hx]
    have hnew : w'.executions[w.executions.length]? = some ⟨command, .queued⟩ := by
      rw [hexecutions, List.getElem?_concat_length]
    have hcases : ∀ (r : Nat) (x : Execution ν), w'.executions[r]? = some x →
        w.executions[r]? = some x ∨ r = w.executions.length ∧ x = ⟨command, .queued⟩ := by
      intro r x hx
      rw [hexecutions, List.getElem?_append] at hx
      split at hx
      · exact .inl hx
      · obtain ⟨hr, rfl⟩ := List.getElem?_eq_some_iff.mp hx
        simp only [List.length_singleton] at hr
        exact .inr ⟨by omega, by simp⟩
    exact {
      touched := by
        intro id e he
        rw [hentries] at he
        rw [hcalls, lastCall_concat, hexecutions, List.length_append, List.length_singleton]
        split at he
        · rename_i hid
          obtain rfl := Option.some.inj he
          exact ⟨if_pos hid, Nat.lt_succ_self _⟩
        · rename_i hid
          have htouched := h.touched id e (get_withinTtl.mp he).1
          exact ⟨(if_neg hid).trans htouched.1, Nat.lt_succ_of_lt htouched.2⟩
      entry := by
        by_cases hid : command.commandId = commandId
        · have hget : w.entries.get commandId = none := by rw [← hkept, ← hid, hnone]
          have hno : ∀ r x, ¬Stands commandId w r x := by
            obtain ⟨hno, -⟩ | ⟨x, e, hsome, -⟩ := h.entry
            · exact hno
            · rw [hget] at hsome
              cases hsome
          refine .inr ⟨⟨command, .queued⟩, ⟨R.fingerprintCommand command, w.executions.length, now⟩,
            by rw [hentries, if_pos hid], ⟨hnew, hid, rfl⟩, fun r y hy => ?_, rfl⟩
          obtain hy' | ⟨rfl, -⟩ := hcases r y hy.1
          · exact absurd ⟨hy', hy.2⟩ (hno r y)
          · rfl
        · have hstands : ∀ r x, Stands commandId w' r x ↔ Stands commandId w r x := by
            refine fun r x => ⟨fun hx => ?_, fun hx => ⟨hold r x hx.1, hx.2⟩⟩
            obtain hx' | ⟨-, rfl⟩ := hcases r x hx.1
            · exact ⟨hx', hx.2⟩
            · exact absurd hx.2.1 hid
          simp only [hstands, hentries, if_neg hid, hkept]
          exact h.entry
      nodup := hstarts ▸ h.nodup
      started := by
        intro r
        rw [hstarts, h.started]
        constructor
        · rintro ⟨x, hx, hphase⟩
          exact ⟨x, hold r x hx, hphase⟩
        · rintro ⟨x, hx, hphase⟩
          obtain hx' | ⟨-, rfl⟩ := hcases r x hx
          · exact ⟨x, hx', hphase⟩
          · exact absurd rfl hphase }

omit [DecidableEq φ] in
/-- An execution that goes on is the one that was there, in another phase. -/
theorem getElem?_enter {r : Nat} {x : Execution ν} (hx : w.executions[r]? = some x) (phase : Phase)
    (k : Nat) (y : Execution ν) : (w.enter r phase).executions[k]? = some y ↔
      k ≠ r ∧ w.executions[k]? = some y ∨ k = r ∧ y = { x with phase } := by
  simp only [World.enter, List.getElem?_modify]
  by_cases hk : r = k
  · subst hk
    simp [hx, eq_comm]
  · simp [hk, Ne.symm hk]

omit [DecidableEq φ] in
/-- An execution goes on, and is not decided before; a rejection that may be retried forgets the
entry that names it. -/
theorem Kept.enter (h : Kept R commandId w) {r : Nat} {x : Execution ν} {phase : Phase}
    {entries : Entries φ} {starts : List Nat} (hx : w.executions[r]? = some x)
    (hphase : x.phase.forgotten = false)
    (hentries : entries = if phase.forgotten && (w.entries.get x.command.commandId).any (·.result = r)
      then w.entries.delete x.command.commandId else w.entries)
    (hnodup : starts.Nodup)
    (hstarted : ∀ k, k ∈ starts ↔ k ≠ r ∧ k ∈ w.starts ∨ k = r ∧ phase ≠ .queued) :
    Kept R commandId { w.enter r phase with entries, starts } := by
  have hget := getElem?_enter hx phase
  have hsub : ∀ id e, entries.get id = some e → w.entries.get id = some e := by
    intro id e he
    rw [hentries] at he
    split at he
    · rw [OrderedMap.get_delete] at he
      split at he
      · cases he
      · exact he
    · exact he
  have hother : x.command.commandId ≠ commandId →
      entries.get commandId = w.entries.get commandId := by
    intro hid
    rw [hentries]
    split
    · rw [OrderedMap.get_delete, if_neg hid]
    · rfl
  have hstands : ∀ k y, Stands commandId { w.enter r phase with entries, starts } k y ↔
      k ≠ r ∧ Stands commandId w k y ∨
        k = r ∧ y = { x with phase } ∧ x.command.commandId = commandId ∧ phase.forgotten = false := by
    intro k y
    simp only [Stands]
    rw [hget]
    constructor
    · rintro ⟨⟨hk, hy⟩ | ⟨rfl, rfl⟩, hid, hforgotten⟩
      · exact .inl ⟨hk, hy, hid, hforgotten⟩
      · exact .inr ⟨rfl, rfl, hid, hforgotten⟩
    · rintro (⟨hk, hy, hrest⟩ | ⟨rfl, rfl, hrest⟩)
      · exact ⟨.inl ⟨hk, hy⟩, hrest⟩
      · exact ⟨.inr ⟨rfl, rfl⟩, hrest⟩
  refine ⟨fun id e he => ?_, ?_, hnodup, fun k => ?_⟩
  · refine ⟨(h.touched id e (hsub id e he)).1, ?_⟩
    simpa [World.enter] using (h.touched id e (hsub id e he)).2
  · by_cases hid : x.command.commandId = commandId
    · obtain ⟨hno, -⟩ | ⟨x₀, e, hgete, hstand, honly, hfingerprint⟩ := h.entry
      · exact absurd ⟨hx, hid, hphase⟩ (hno r x)
      have hr : r = e.result := honly r x ⟨hx, hid, hphase⟩
      obtain rfl : x = x₀ := Option.some.inj (hx.symm.trans (hr ▸ hstand.1))
      cases hforgotten : phase.forgotten with
      | true =>
        refine .inl ⟨fun k y hy => ?_, ?_⟩
        · obtain ⟨hk, hy⟩ | ⟨-, -, -, hy⟩ := (hstands k y).mp hy
          · exact hk ((honly k y hy).trans hr.symm)
          · rw [hforgotten] at hy
            cases hy
        · rw [hentries, if_pos (by simp [hforgotten, hid, hgete, hr]), hid, OrderedMap.get_delete,
            if_pos rfl]
      | false =>
        rw [if_neg (by simp [hforgotten])] at hentries
        refine .inr ⟨{ x with phase }, e, by rw [hentries, hgete],
          (hstands _ _).mpr (.inr ⟨hr.symm, rfl, hid, hforgotten⟩), fun k y hy => ?_, hfingerprint⟩
        obtain ⟨-, hy⟩ | ⟨hk, -⟩ := (hstands k y).mp hy
        · exact honly k y hy
        · exact hk.trans hr
    · have hsame : ∀ k y, Stands commandId { w.enter r phase with entries, starts } k y ↔
          Stands commandId w k y := by
        intro k y
        rw [hstands]
        constructor
        · rintro (⟨-, hy⟩ | ⟨-, -, hy, -⟩)
          · exact hy
          · exact absurd hy hid
        · refine fun hy => .inl ⟨?_, hy⟩
          rintro rfl
          obtain rfl := Option.some.inj (hx.symm.trans hy.1)
          exact hid hy.2.1
      simp only [hsame, hother hid]
      exact h.entry
  · rw [hstarted, h.started]
    simp only [hget]
    constructor
    · rintro (⟨hk, y, hy, hphase⟩ | ⟨rfl, hphase⟩)
      · exact ⟨y, .inl ⟨hk, hy⟩, hphase⟩
      · exact ⟨_, .inr ⟨rfl, rfl⟩, hphase⟩
    · rintro ⟨y, ⟨hk, hy⟩ | ⟨rfl, rfl⟩, hphase⟩
      · exact .inl ⟨hk, y, hy, hphase⟩
      · exact .inr ⟨rfl, hphase⟩

omit [DecidableEq φ] in
/-- An execution that was started goes on. -/
theorem Kept.mem_starts (h : Kept R commandId w) {r : Nat} {x : Execution ν} {phase : Phase}
    (hx : w.executions[r]? = some x) (hold : x.phase ≠ .queued) (hnew : phase ≠ .queued) (k : Nat) :
    k ∈ w.starts ↔ k ≠ r ∧ k ∈ w.starts ∨ k = r ∧ phase ≠ .queued := by
  by_cases hk : k = r
  · subst hk
    simp only [ne_eq, not_true_eq_false, false_and, hnew, not_false_eq_true, and_true, or_true,
      iff_true]
    exact (h.started k).mpr ⟨x, hx, hold⟩
  · simp [hk]

theorem Kept.step (h : Kept R commandId w) {a : Action ν} (hG : Remembered o commandId w a)
    (hstep : step o R w a = some w') : Kept R commandId w' := by
  cases a with
  | execute command now => exact h.execute hG hstep
  | start r =>
    simp only [CommandLedger.step] at hstep
    split at hstep
    · rename_i command hx
      obtain rfl := Option.some.inj hstep
      have hnew : r ∉ w.starts := fun hr => by
        obtain ⟨x, hx', hphase⟩ := (h.started r).mp hr
        obtain rfl := Option.some.inj (hx.symm.trans hx')
        exact hphase rfl
      refine h.enter hx rfl (by simp [World.enter, Phase.forgotten]) ?_ fun k => ?_
      · exact List.nodup_append.mpr ⟨h.nodup, by simp, by
          rintro a ha b hb rfl
          exact hnew (List.mem_singleton.mp hb ▸ ha)⟩
      · by_cases hk : k = r <;> simp [hk]
    · cases hstep
  | settle r outcome =>
    simp only [CommandLedger.step] at hstep
    split at hstep
    · rename_i command hx
      obtain rfl := Option.some.inj hstep
      exact h.enter hx rfl (by simp [Phase.forgotten]) h.nodup
        (h.mem_starts hx (fun h => by cases h) (fun h => by cases h))
    · cases hstep
  | decide r =>
    simp only [CommandLedger.step] at hstep
    split at hstep
    · rename_i command decision hx
      obtain rfl := Option.some.inj hstep
      exact h.enter hx rfl rfl h.nodup
        (h.mem_starts hx (fun h => by cases h) (fun h => by cases h))
    · cases hstep

/-! ## Runs -/

theorem kept_run {as : List (Action ν)} (hmeets : (machine o R).Meets (Remembered o commandId) {} as)
    (hrun : (machine o R).run {} as = some w) : Kept R commandId w := by
  refine Machine.run_invariant (machine o R) ?_ (fun _ _ _ h hG hstep => h.step hG hstep) hmeets hrun
  exact {
    touched := nofun
    entry := .inl ⟨by simp [Stands], rfl⟩
    nodup := List.nodup_nil
    started := by simp }

/-- A decision that was made stays. -/
theorem decided_step {r : Nat} {command : Command ν} {decision : CommandDecision} {a : Action ν}
    (h : w.executions[r]? = some ⟨command, .decided decision⟩) (hstep : CommandLedger.step o R w a = some w') :
    w'.executions[r]? = some ⟨command, .decided decision⟩ := by
  have henter : ∀ {k : Nat} {x : Execution ν} (phase : Phase), w.executions[k]? = some x →
      x.phase ≠ .decided decision →
      (w.enter k phase).executions[r]? = some ⟨command, .decided decision⟩ := by
    intro k x phase hx hphase
    refine (getElem?_enter hx phase r _).mpr (.inl ⟨?_, h⟩)
    rintro rfl
    obtain rfl := Option.some.inj (hx.symm.trans h)
    exact hphase rfl
  cases a with
  | execute called now =>
    simp only [step] at hstep
    obtain rfl := Option.some.inj hstep
    simp only
    split
    · rw [List.getElem?_append_left (List.getElem?_eq_some_iff.mp h).1, h]
    · exact h
  | start k | settle k | decide k =>
    simp only [step] at hstep
    split at hstep
    · rename_i hx
      obtain rfl := Option.some.inj hstep
      exact henter _ hx nofun
    · cases hstep

/-- What becomes of the commands of an ID. Its operation runs once, and once more for each
rejection that may be retried. While an execution stands, the same content gets its decision, and
other content is refused; where none stands, the next call runs its operation. -/
structure RunsOnce (o : Options) (R : Runtime ν φ) (commandId : Text) (w : World ν φ) : Prop where
  nodup : (operations commandId w).Nodup
  once : (operations commandId w).length ≤ (rejections commandId w).length + 1
  repeated : ∀ r x command now w', Stands commandId w r x → command.commandId = commandId →
    (R.fingerprintCommand command = R.fingerprintCommand x.command →
      R.canonicalJson command.value = R.canonicalJson x.command.value) →
    Remembered o commandId w (.execute command now) →
    step o R w (.execute command now) = some w' →
    w'.executions = w.executions ∧
      w'.calls = w.calls ++ [⟨command, now,
        if R.canonicalJson command.value = R.canonicalJson x.command.value then .result r
        else .decided reused⟩]
  again : (∀ r x, ¬Stands commandId w r x) → ∀ command now w', command.commandId = commandId →
    Remembered o commandId w (.execute command now) →
    step o R w (.execute command now) = some w' →
    w'.executions = w.executions ++ [⟨command, .queued⟩] ∧
      w'.calls = w.calls ++ [⟨command, now, .result w.executions.length⟩] ∧
      (CommandLedger.step o R w' (.start w.executions.length)).isSome
  stays : ∀ (r : Nat) command decision,
    w.executions[r]? = some (⟨command, .decided decision⟩ : Execution ν) →
    ∀ as w', (machine o R).run w as = some w' →
      w'.executions[r]? = some (⟨command, .decided decision⟩ : Execution ν)

omit [DecidableEq φ] in
theorem Kept.once (h : Kept R commandId w) :
    (operations commandId w).length ≤ (rejections commandId w).length + 1 := by
  obtain ⟨r₀, hr₀⟩ : ∃ r₀, ∀ r x, Stands commandId w r x → r = r₀ := by
    obtain ⟨hno, -⟩ | ⟨x, e, -, -, honly, -⟩ := h.entry
    · exact ⟨0, fun r x hx => absurd hx (hno r x)⟩
    · exact ⟨e.result, honly⟩
  have hsub : operations commandId w ⊆ r₀ :: rejections commandId w := by
    intro r hr
    obtain ⟨hstart, hany⟩ := List.mem_filter.mp hr
    obtain ⟨x, hx, -⟩ := (h.started r).mp hstart
    have hid : x.command.commandId = commandId := by simpa [hx] using hany
    cases hforgotten : x.phase.forgotten with
    | true =>
      refine List.mem_cons_of_mem _ (List.mem_filter.mpr ⟨?_, by simp [hx, hid, hforgotten]⟩)
      exact List.mem_range.mpr (List.getElem?_eq_some_iff.mp hx).1
    | false => exact hr₀ r x ⟨hx, hid, hforgotten⟩ ▸ List.mem_cons_self
  exact ((h.nodup.sublist List.filter_sublist).subperm hsub).length_le

theorem Kept.repeated (h : Kept R commandId w) {r : Nat} {x : Execution ν} {command : Command ν}
    {now : Int} (hx : Stands commandId w r x) (hid : command.commandId = commandId)
    (hsha : R.fingerprintCommand command = R.fingerprintCommand x.command →
      R.canonicalJson command.value = R.canonicalJson x.command.value)
    (hG : Remembered o commandId w (.execute command now))
    (hstep : CommandLedger.step o R w (.execute command now) = some w') :
    w'.executions = w.executions ∧
      w'.calls = w.calls ++ [⟨command, now,
        if R.canonicalJson command.value = R.canonicalJson x.command.value then .result r
        else .decided reused⟩] := by
  obtain ⟨hno, -⟩ | ⟨x₀, e, hget, hstand, honly, hfingerprint⟩ := h.entry
  · exact absurd hx (hno r x)
  obtain rfl := honly r x hx
  obtain rfl : x = x₀ := Option.some.inj (hx.1.symm.trans hstand.1)
  have hwithin := (get_withinTtl_eq h hG.2).trans hget
  obtain ⟨e', he', rfl⟩ | ⟨hnone, -⟩ := step_execute h hG hstep
  · obtain rfl : e = e' := Option.some.inj (hwithin.symm.trans (hid ▸ he'))
    refine ⟨rfl, ?_⟩
    simp only [World.touch]
    by_cases hcontent : R.canonicalJson command.value = R.canonicalJson x.command.value
    · have heq : e.fingerprint = R.fingerprintCommand command := by
        rw [hfingerprint, Runtime.fingerprintCommand, Runtime.fingerprintCommand, hcontent]
      rw [if_neg (not_not.mpr heq), if_pos hcontent]
    · have hne : e.fingerprint ≠ R.fingerprintCommand command := fun heq =>
        hcontent (hsha (heq.symm.trans hfingerprint))
      rw [if_pos hne, if_neg hcontent]
  · rw [hid, hwithin] at hnone
    cases hnone

theorem Kept.again (h : Kept R commandId w) (hno : ∀ r x, ¬Stands commandId w r x)
    {command : Command ν} {now : Int} (hid : command.commandId = commandId)
    (hG : Remembered o commandId w (.execute command now))
    (hstep : CommandLedger.step o R w (.execute command now) = some w') :
    w'.executions = w.executions ++ [⟨command, .queued⟩] ∧
      w'.calls = w.calls ++ [⟨command, now, .result w.executions.length⟩] ∧
      (CommandLedger.step o R w' (.start w.executions.length)).isSome := by
  have hnone : w.entries.get commandId = none := by
    obtain ⟨-, hnone⟩ | ⟨x, e, -, hstand, -⟩ := h.entry
    · exact hnone
    · exact absurd hstand (hno _ _)
  have hwithin := (get_withinTtl_eq h hG.2).trans hnone
  obtain ⟨e, he, -⟩ | ⟨-, hexecutions, hcalls, -⟩ := step_execute h hG hstep
  · rw [hid, hwithin] at he
    cases he
  · refine ⟨hexecutions, hcalls, ?_⟩
    simp [CommandLedger.step, hexecutions]

/-- A ledger runs a command once, where fewer than `maxEntries` IDs are used within one `ttlMs`. -/
theorem commandLedger_runsOnce (o : Options) (R : Runtime ν φ) (commandId : Text)
    (as : List (Action ν)) (w : World ν φ)
    (hmeets : (machine o R).Meets (Remembered o commandId) {} as)
    (hrun : (machine o R).run {} as = some w) : RunsOnce o R commandId w := by
  have h := kept_run hmeets hrun
  exact {
    nodup := h.nodup.sublist List.filter_sublist
    once := h.once
    repeated := fun _ _ _ _ _ hx hid hsha hG hstep => h.repeated hx hid hsha hG hstep
    again := fun hno _ _ _ hid hG hstep => h.again hno hid hG hstep
    stays := fun _ _ _ hr _ _ hrun =>
      Machine.invariant (machine o R) hr (fun _ _ _ h hstep => decided_step h hstep) hrun }

/-- Strings stand as they are, and the text for its digest. -/
def plain : Runtime Nat Text where
  script := { mark := fun c => UInt16.ofNat c.toNat, quote := id, digits := fun n => [UInt16.ofNat n] }
  sha256 := id

/-- A command that is sent twice, rejected for now, and sent again. -/
def retried : List (Action Nat) :=
  [.execute ⟨units "a", .number 1⟩ 0, .start 0, .execute ⟨units "a", .number 1⟩ 5,
    .settle 0 (.fulfilled (.rejected ⟨.internal, units "busy", none, true⟩)), .decide 0,
    .execute ⟨units "a", .number 1⟩ 9, .start 1]

theorem commandLedger_runsOnce_retried : ∃ w,
    (machine ⟨3, 10, by decide, by decide⟩ plain).run {} retried = some w ∧
      RunsOnce ⟨3, 10, by decide, by decide⟩ plain (units "a") w :=
  Machine.exists_run (machine _ _) (by decide +kernel) fun w hrun =>
    commandLedger_runsOnce _ _ _ retried w (by decide +kernel) hrun

end CommandLedger

end Opensteer
