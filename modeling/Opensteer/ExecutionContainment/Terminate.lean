import Opensteer.ExecutionContainment.Members
import Opensteer.Framework.Machine

/-!
# Ending an execution

`note` and `terminate` of `ExecutionContainment` for one execution, and its two ways to reap a
boot, as a machine: any number of calls may be under way, and each goes on when what it waits for
has come, a listing or the end of the engine. `#noted` holds `Set` objects that calls share, so
the sets are named by the order they were made in. What the clock says when a call reads it is in
the action.

The fields `tables`, `everNoted`, `owed` and `last` are of no call: they tell what was listed,
whom a call has to account for, and by which listing it answered.
-/

namespace Opensteer.ExecutionContainment

def terminationGraceMs : Int := 2000
def killSettleMs : Int := 3000

inductive TerminationProof
  | proven
  | unknown
  | unverifiable
deriving DecidableEq, Repr

inductive Signal
  | SIGTERM
  | SIGKILL
deriving DecidableEq, Repr

/-- Whether the platform can list processes, and whose markers are meant. -/
structure Options where
  lists : Bool := true
  isMatch : String → Bool

/-- `scope`. -/
def scope (installation bootId executionId : String) : String :=
  installation ++ "." ++ bootId ++ "." ++ executionId

/-- The markers `terminate` and `note` mean. -/
def ofExecution (installation bootId executionId : String) : String → Bool :=
  fun candidate => candidate == scope installation bootId executionId

/-- The markers `reapBoot` means. -/
def ofBoot (installation bootId : String) : String → Bool :=
  fun candidate => candidate.startsWith (installation ++ "." ++ bootId ++ ".")

/-- The markers `reapEarlierBoots` means. -/
def ofEarlierBoots (installation bootId : String) : String → Bool :=
  fun candidate => candidate.startsWith (installation ++ ".") &&
    !candidate.startsWith (installation ++ "." ++ bootId ++ ".")

/-- Where a `terminate` stands: in its first look, or waiting for the engine to stop, for the
look after that, or for a look of `waitUntilGone`; or its `#terminate` has returned. -/
inductive Stage
  | looking
  | stopping
  | settling
  | waiting (deadline : Int) (kill : Bool)
  | returned (proof : TerminationProof)
  | answered (proof : TerminationProof)
  | failed
deriving DecidableEq, Repr

/-- A call of `terminate`. It owes an account of whom it was told of by the notes before it and of
the members of its tables; `last` is the last of these. -/
structure Call where
  stage : Stage
  found : List String
  owed : List String
  last : Table := []
deriving DecidableEq, Repr

/-- A call of `note`: the set it adds to, until it has ended. -/
structure Note where
  set : Nat
  ended : Bool := false
deriving DecidableEq, Repr

structure Signalled where
  table : Table
  process : ListedProcess
  signal : Signal
deriving DecidableEq, Repr

structure World where
  noted : Option Nat := none
  sets : List (List String) := []
  notes : List Note := []
  calls : List Call := []
  signals : List Signalled := []
  tables : List Table := []
  everNoted : List String := []
deriving DecidableEq, Repr

/-- `checked` is the time when `waitUntilGone` looks at the clock, and `started` when the next
call of it does. -/
inductive Action
  | noteBegins
  | noteLists (note : Nat) (table : Table)
  | noteFails (note : Nat)
  | terminateBegins (stopEngine : Bool)
  | lists (call : Nat) (table : Table) (checked started : Int)
  | listFails (call : Nat)
  | stopped (call : Nat) (ok : Bool)
  | returns (call : Nat)
deriving DecidableEq, Repr

variable (o : Options)

/-- The identities of `#noted.get(scope)`. -/
def World.notedNow (w : World) : List String :=
  match w.noted with
  | none => []
  | some set => w.sets.getD set []

def noteBegins (w : World) : World :=
  match w.noted with
  | some set => { w with notes := w.notes ++ [{ set }] }
  | none =>
    { w with sets := w.sets ++ [[]], notes := w.notes ++ [{ set := w.sets.length }] }

/-- The rest of `note`, once the processes are listed. -/
def noteLists (w : World) (note : Nat) (set : Nat) (table : Table) : World :=
  let noted := w.sets.getD set []
  let members := (membersOf table o.isMatch noted).map (·.identity)
  { w with
    sets := w.sets.set set (noted ++ members)
    noted := some set
    notes := w.notes.set note { set, ended := true }
    tables := w.tables ++ [table]
    everNoted := w.everNoted ++ members }

def terminateBegins (w : World) (stopEngine : Bool) : World :=
  let stage : Stage :=
    if !o.lists then if stopEngine then .stopping else .returned .unverifiable
    else if stopEngine then .looking else .settling
  { w with calls := w.calls ++ [{ stage, found := w.notedNow, owed := w.everNoted }] }

/-- `remaining`, once the processes are listed. -/
def Call.remaining (c : Call) (table : Table) : Call :=
  let members := (membersOf table o.isMatch c.found).map (·.identity)
  { c with found := members, owed := c.owed ++ members, last := table }

/-- What a call does when the processes are listed: where it goes on, and what it sends. -/
def Call.listed (c : Call) (processes : List ListedProcess) (checked started : Int) :
    Option (Stage × Option Signal) :=
  match c.stage with
  | .looking => some (.stopping, none)
  | .settling =>
    if processes.length = 0 then some (.returned .proven, none)
    else some (.waiting (started + terminationGraceMs) false, some .SIGTERM)
  | .waiting deadline kill =>
    if processes.length = 0 then some (.returned .proven, none)
    else if checked < deadline then
      some (.waiting deadline kill, if kill then some .SIGKILL else none)
    else if kill then some (.returned .unknown, none)
    else some (.waiting (started + killSettleMs) true, none)
  | _ => none

def World.put (w : World) (call : Nat) (c : Call) : World := { w with calls := w.calls.set call c }

/-- The call goes on with a listing. -/
def lists (w : World) (call : Nat) (c : Call) (table : Table) (stage : Stage)
    (sent : Option Signal) : World :=
  let processes := membersOf table o.isMatch c.found
  { w.put call { c.remaining o table with stage } with
    tables := w.tables ++ [table]
    signals := w.signals ++ sent.toList.flatMap fun signal =>
      processes.map fun process => { table, process, signal } }

/-- A listing that fails ends the call, but for the look before the engine is stopped. -/
def Call.listFails (c : Call) : Option Call :=
  match c.stage with
  | .looking => some { c with stage := .stopping }
  | .settling | .waiting _ _ => some { c with stage := .failed }
  | _ => none

def Call.stopped (c : Call) (ok : Bool) : Option Call :=
  if c.stage = .stopping then
    if !ok then some { c with stage := .failed }
    else some { c with stage := if o.lists then .settling else .returned .unverifiable }
  else none

/-- The end of `terminate`. -/
def returns (w : World) (call : Nat) (c : Call) : Option World :=
  match c.stage with
  | .returned proof =>
    let w := w.put call { c with stage := .answered proof }
    some (if proof = .proven then { w with noted := none } else w)
  | _ => none

def step (w : World) : Action → Option World
  | .noteBegins => if o.lists then some (noteBegins w) else some w
  | .noteLists note table =>
    match w.notes[note]? with
    | some ⟨set, false⟩ => some (noteLists o w note set table)
    | _ => none
  | .noteFails note =>
    match w.notes[note]? with
    | some ⟨set, false⟩ => some { w with notes := w.notes.set note { set, ended := true } }
    | _ => none
  | .terminateBegins stopEngine => some (terminateBegins o w stopEngine)
  | .lists call table checked started =>
    w.calls[call]?.bind fun c =>
      (c.listed (membersOf table o.isMatch c.found) checked started).map fun (stage, sent) =>
        lists o w call c table stage sent
  | .listFails call => w.calls[call]?.bind fun c => c.listFails.map (w.put call)
  | .stopped call ok => w.calls[call]?.bind fun c => (c.stopped o ok).map (w.put call)
  | .returns call => w.calls[call]?.bind (returns w call)

def containment : Machine World Action := ⟨step o⟩

/-! ## What the lister and the calls keep to -/

def Lists (table : Table) (identity : String) : Prop := ∃ p ∈ table, p.identity = identity

/-- Since it was first listed, the identity is in every table. -/
def Present (tables : List Table) (identity : String) : Prop :=
  tables.Pairwise fun table later => Lists table identity → Lists later identity

/-- The identity was listed with another execution's marker. -/
def ForeignIn (isMatch : String → Bool) (tables : List Table) (identity : String) : Prop :=
  ∃ table ∈ tables, ∃ p ∈ table, p.identity = identity ∧ Foreign isMatch p

instance (table : Table) (identity : String) : Decidable (Lists table identity) :=
  inferInstanceAs (Decidable (∃ p ∈ table, _))

instance (tables : List Table) (identity : String) : Decidable (Present tables identity) :=
  inferInstanceAs (Decidable (List.Pairwise _ _))

instance (isMatch : String → Bool) (p : ListedProcess) : Decidable (Foreign isMatch p) :=
  match h : p.scope with
  | none => isFalse fun hforeign => by
    obtain ⟨scope, hscope, -⟩ := hforeign
    simp [h] at hscope
  | some scope => decidable_of_iff (¬isMatch scope)
    ⟨fun hmatch => ⟨scope, h, hmatch⟩, fun hforeign => by
      obtain ⟨scope', hscope, hmatch⟩ := hforeign
      rwa [← Option.some.inj (h.symm.trans hscope)] at hmatch⟩

instance (isMatch : String → Bool) (tables : List Table) (identity : String) :
    Decidable (ForeignIn isMatch tables identity) :=
  inferInstanceAs (Decidable (∃ table ∈ tables, ∃ p ∈ table, _ ∧ _))

/-- The call has to account for the identity, or a note has found it. -/
def World.Owed (w : World) (identity : String) : Prop :=
  identity ∈ w.everNoted ∨ ∃ c ∈ w.calls, identity ∈ c.owed

instance (w : World) (identity : String) : Decidable (w.Owed identity) :=
  inferInstanceAs (Decidable (_ ∨ ∃ c ∈ w.calls, _))

/-- A table the lister can return: its pids are unique, and what was gone is not listed again. -/
def Listed (w : World) (table : Table) : Prop :=
  (table.map (·.pid)).Nodup ∧ ∀ p ∈ table, Present w.tables p.identity

instance (w : World) (table : Table) : Decidable (Listed w table) :=
  inferInstanceAs (Decidable (_ ∧ ∀ p ∈ table, _))

/-- What the lister keeps to. -/
def Lister (w : World) : Action → Prop
  | .noteLists _ table => Listed w table
  | .lists _ table _ _ => Listed w table
  | _ => True

instance (w : World) (a : Action) : Decidable (Lister w a) := by
  cases a <;> unfold Lister <;> infer_instance

/-- Nobody owed an account of who was listed with another execution's marker is listed without
one. -/
def Kept (w : World) (table : Table) : Prop :=
  ∀ p ∈ table, w.Owed p.identity → ForeignIn o.isMatch w.tables p.identity → p.scope ≠ none

instance (w : World) (table : Table) : Decidable (Kept o w table) :=
  inferInstanceAs (Decidable (∀ p ∈ table, _ → _ → _))

/-- A process does not drop another execution's marker, no other note has put its set in the
place of a note's when that ends, and a `terminate` that ends proven has seen who is noted. -/
def Undisturbed (w : World) : Action → Prop
  | .noteLists note table =>
    Kept o w table ∧ ∀ n ∈ w.notes[note]?, w.noted = none ∨ w.noted = some n.set
  | .lists _ table _ _ => Kept o w table
  | .returns call =>
    ∀ c ∈ w.calls[call]?, c.stage = .returned .proven → ∀ x ∈ w.notedNow, x ∈ c.owed
  | _ => True

instance (w : World) (a : Action) : Decidable (Undisturbed o w a) := by
  cases a <;> unfold Undisturbed <;> infer_instance

/-- Where a `terminate` has answered proven, everybody it owes an account of is absent from its
last table, or carries another execution's marker there. -/
def ProvesGone (w : World) : Prop :=
  ∀ c ∈ w.calls, c.stage = .answered .proven → ∀ x ∈ c.owed, ∀ p ∈ c.last, p.identity = x →
    Foreign o.isMatch p

instance (w : World) : Decidable (ProvesGone o w) :=
  inferInstanceAs (Decidable (∀ c ∈ w.calls, _ → ∀ x ∈ c.owed, ∀ p ∈ c.last, _ → _))

/-- No process of a table that carries another execution's marker is signalled by its pid. -/
def SignalsOwn (w : World) : Prop :=
  ∀ s ∈ w.signals, ∀ p ∈ s.table, p.pid = s.process.pid → ¬Foreign o.isMatch p

/-! ## Who is followed -/

variable {o}
variable {w : World} {tables : List Table} {table : Table} {found : List String} {x : String}

/-- The identity is out of sight: it was gone, or was another execution's. -/
def Dropped (isMatch : String → Bool) (tables : List Table) (identity : String) : Prop :=
  ¬Present tables identity ∨ ForeignIn isMatch tables identity

theorem present_concat : Present (tables ++ [table]) x ↔
    Present tables x ∧ ∀ t ∈ tables, Lists t x → Lists table x := by
  simp [Present, List.pairwise_append]

theorem Dropped.concat {isMatch : String → Bool} (h : Dropped isMatch tables x) (table : Table) :
    Dropped isMatch (tables ++ [table]) x := by
  obtain h | ⟨t, ht, h⟩ := h
  · exact .inl fun hpresent => h (present_concat.mp hpresent).1
  · exact .inr ⟨t, by simp [ht], h⟩

/-- A process that was found, or carries a marker that is meant, is a member. -/
theorem mem_members (hpids : (table.map (·.pid)).Nodup) {p : ListedProcess} (hp : p ∈ table)
    (h : p.identity ∈ found ∧ p.scope = none ∨ Marked o.isMatch p) :
    p.identity ∈ (membersOf table o.isMatch found).map (·.identity) := by
  refine List.mem_map.mpr ⟨p, (mem_membersOf_iff hpids).mpr ?_, rfl⟩
  obtain ⟨hfound, hscope⟩ | hmarked := h
  · exact .found hp hscope hfound
  · exact .marked hp hmarked

theorem foreign_or (isMatch : String → Bool) (p : ListedProcess) :
    Foreign isMatch p ∨ p.scope = none ∨ Marked isMatch p := by
  cases hscope : p.scope with
  | none => exact .inr (.inl rfl)
  | some scope =>
    by_cases hmatch : isMatch scope
    · exact .inr (.inr ⟨scope, hscope, hmatch⟩)
    · exact .inl ⟨scope, hscope, hmatch⟩

/-- Who was found is found by the next look, or is out of sight. -/
theorem dropped_of_not_member (hpids : (table.map (·.pid)).Nodup)
    (hlisted : ∃ t ∈ tables, Lists t x) (hfound : x ∈ found)
    (hx : x ∉ (membersOf table o.isMatch found).map (·.identity)) :
    Dropped o.isMatch (tables ++ [table]) x := by
  by_cases hin : Lists table x
  · obtain ⟨p, hp, rfl⟩ := hin
    obtain hforeign | hscope | hmarked := foreign_or o.isMatch p
    · exact .inr ⟨table, by simp, p, hp, rfl, hforeign⟩
    · exact absurd (mem_members hpids hp (.inl ⟨hfound, hscope⟩)) hx
    · exact absurd (mem_members hpids hp (.inr hmarked)) hx
  · obtain ⟨t, ht, hlists⟩ := hlisted
    exact .inl fun hpresent => hin ((present_concat.mp hpresent).2 t ht hlists)

/-- Where a look finds nobody, who is owed an account of is absent or another execution's. -/
theorem foreign_of_nobody (hlister : Listed w table) (hkept : Kept o w table)
    (hnobody : membersOf table o.isMatch found = []) (howed : w.Owed x)
    (h : x ∈ found ∨ Dropped o.isMatch w.tables x) :
    ∀ p ∈ table, p.identity = x → Foreign o.isMatch p := by
  rintro p hp rfl
  obtain hforeign | hscope | hmarked := foreign_or o.isMatch p
  · exact hforeign
  · obtain hfound | habsent | hforeign := h
    · have hmem : p.identity ∈ (membersOf table o.isMatch found).map (·.identity) :=
        mem_members hlister.1 hp (.inl ⟨hfound, hscope⟩)
      simp [hnobody] at hmem
    · exact absurd (hlister.2 p hp) habsent
    · exact absurd hscope (hkept p hp howed hforeign)
  · have hmem : p.identity ∈ (membersOf table o.isMatch found).map (·.identity) :=
      mem_members hlister.1 hp (.inr hmarked)
    simp [hnobody] at hmem

/-! ## The runs -/

/-- Who a call owes an account of, it follows, or they are out of sight. -/
structure Call.Sound (o : Options) (tables : List Table) (c : Call) : Prop where
  found : ∀ x ∈ c.found, x ∈ c.owed
  listed : ∀ x ∈ c.owed, ∃ t ∈ tables, Lists t x
  owed : ∀ x ∈ c.owed, x ∈ c.found ∨ Dropped o.isMatch tables x
  proven : c.stage = .returned .proven ∨ c.stage = .answered .proven →
    c.found = [] ∧ ∀ x ∈ c.owed, ∀ p ∈ c.last, p.identity = x → Foreign o.isMatch p

/-- Whom the notes found, `#noted` holds, or they are out of sight. -/
structure Sound (o : Options) (w : World) : Prop where
  noted_lt : ∀ set ∈ w.noted, set < w.sets.length
  notes_lt : ∀ n ∈ w.notes, n.set < w.sets.length
  sets : ∀ set ∈ w.sets, ∀ x ∈ set, x ∈ w.everNoted
  listed : ∀ x ∈ w.everNoted, ∃ t ∈ w.tables, Lists t x
  noted : ∀ x ∈ w.everNoted, x ∈ w.notedNow ∨ Dropped o.isMatch w.tables x
  calls : ∀ c ∈ w.calls, c.Sound o w.tables

variable {c : Call} {stage : Stage} {sent : Option Signal} {set note call : Nat}

theorem listed_concat (h : ∃ t ∈ tables, Lists t x) (table : Table) :
    ∃ t ∈ tables ++ [table], Lists t x := by
  obtain ⟨t, ht, h⟩ := h
  exact ⟨t, by simp [ht], h⟩

theorem lists_of_mem_members (hx : x ∈ (membersOf table o.isMatch found).map (·.identity))
    (hpids : (table.map (·.pid)).Nodup) : Lists table x := by
  obtain ⟨p, hp, rfl⟩ := List.mem_map.mp hx
  exact ⟨p, ((mem_membersOf_iff hpids).mp hp).mem, rfl⟩

theorem Call.Sound.concat (h : c.Sound o tables) (table : Table) :
    c.Sound o (tables ++ [table]) where
  found := h.found
  listed x hx := listed_concat (h.listed x hx) table
  owed x hx := (h.owed x hx).imp_right fun hdropped => hdropped.concat table
  proven := h.proven

/-- A call that goes on elsewhere, with no proof. -/
theorem Call.Sound.to (h : c.Sound o tables) (hstage : stage ≠ .returned .proven)
    (hstage' : stage ≠ .answered .proven) : Call.Sound o tables { c with stage } :=
  { h with proven := fun hproven => (hproven.elim hstage hstage').elim }

theorem mem_notedNow (hset : w.noted = some set) : w.notedNow = w.sets.getD set [] := by
  simp [World.notedNow, hset]

theorem Sound.mem_everNoted (h : Sound o w) (set : Nat) (hx : x ∈ w.sets.getD set []) :
    x ∈ w.everNoted := by
  rw [List.getD_eq_getElem?_getD] at hx
  cases hset : w.sets[set]? with
  | none => simp [hset] at hx
  | some noted =>
    simp only [hset, Option.getD_some] at hx
    exact h.sets noted (List.mem_of_getElem? hset) x hx

theorem Sound.notedNow_subset (h : Sound o w) (hx : x ∈ w.notedNow) : x ∈ w.everNoted := by
  unfold World.notedNow at hx
  cases hnoted : w.noted with
  | none => simp [hnoted] at hx
  | some set =>
    rw [hnoted] at hx
    exact h.mem_everNoted set hx

/-- A call that takes another's place. -/
theorem Sound.put (h : Sound o w) (call : Nat) (hc : c.Sound o w.tables) :
    Sound o (w.put call c) :=
  { h with
    calls := fun c' hc' => by
      obtain hc' | rfl := List.mem_or_eq_of_mem_set hc'
      · exact h.calls c' hc'
      · exact hc }

theorem Sound.noteBegins (h : Sound o w) : Sound o (noteBegins w) := by
  unfold ExecutionContainment.noteBegins
  cases hnoted : w.noted with
  | some set =>
    exact { h with
      noted_lt := by simpa [hnoted] using h.noted_lt
      notes_lt := by simpa [or_imp, forall_and] using ⟨h.notes_lt, h.noted_lt set hnoted⟩
      noted := by simpa [World.notedNow, hnoted] using h.noted }
  | none =>
    exact { h with
      noted_lt := by simp
      notes_lt := by
        simpa [or_imp, forall_and] using fun n hn => Nat.lt_succ_of_lt (h.notes_lt n hn)
      sets := by simpa [or_imp, forall_and] using h.sets
      noted := by simpa [World.notedNow, hnoted] using h.noted }

/-- A note that ends adds to the set that `#noted` holds. -/
theorem Sound.noteLists (h : Sound o w) (hlister : Listed w table) (hlt : set < w.sets.length)
    (hset : w.noted = none ∨ w.noted = some set) : Sound o (noteLists o w note set table) := by
  have hnow : (ExecutionContainment.noteLists o w note set table).notedNow =
      w.sets.getD set [] ++
        (membersOf table o.isMatch (w.sets.getD set [])).map (·.identity) := by
    simp [ExecutionContainment.noteLists, World.notedNow, hlt]
  have hsub : ∀ x ∈ w.notedNow, x ∈ w.sets.getD set [] := by
    obtain hset | hset := hset
    · simp [World.notedNow, hset]
    · simp [World.notedNow, hset]
  refine ⟨?_, ?_, ?_, ?_, ?_, fun c hc => (h.calls c hc).concat table⟩
  · simpa [ExecutionContainment.noteLists] using hlt
  · intro n hn
    simp only [ExecutionContainment.noteLists, List.length_set] at hn ⊢
    obtain hn | rfl := List.mem_or_eq_of_mem_set hn
    · exact h.notes_lt n hn
    · exact hlt
  · intro noted hnoted x hx
    obtain hnoted | rfl := List.mem_or_eq_of_mem_set hnoted
    · exact List.mem_append_left _ (h.sets noted hnoted x hx)
    · obtain hx | hx := List.mem_append.mp hx
      · exact List.mem_append_left _ (h.mem_everNoted set hx)
      · exact List.mem_append_right _ hx
  · intro x hx
    obtain hx | hx := List.mem_append.mp hx
    · exact listed_concat (h.listed x hx) table
    · exact ⟨table, List.mem_append_right _ (by simp), lists_of_mem_members hx hlister.1⟩
  · intro x hx
    rw [hnow]
    obtain hx | hx := List.mem_append.mp hx
    · obtain hnoted | hdropped := h.noted x hx
      · exact .inl (List.mem_append_left _ (hsub x hnoted))
      · exact .inr (hdropped.concat table)
    · exact .inl (List.mem_append_right _ hx)

theorem Sound.terminateBegins (h : Sound o w) (stopEngine : Bool) :
    Sound o (terminateBegins o w stopEngine) :=
  { h with
    calls := fun c hc => by
      obtain hc | rfl := List.mem_append.mp hc |>.imp_right List.mem_singleton.mp
      · exact h.calls c hc
      · exact {
          found := fun x hx => h.notedNow_subset hx
          listed := h.listed
          owed := h.noted
          proven := by
            intro hproven
            simp only at hproven
            split_ifs at hproven <;> simp at hproven } }

/-- A look of a call. -/
theorem Call.Sound.remaining (h : c.Sound o tables) (hpids : (table.map (·.pid)).Nodup)
    (hstage : stage ≠ .returned .proven) (hstage' : stage ≠ .answered .proven) :
    Call.Sound o (tables ++ [table]) { c.remaining o table with stage } where
  found x hx := List.mem_append_right _ hx
  listed x hx := by
    obtain hx | hx := List.mem_append.mp hx
    · exact listed_concat (h.listed x hx) table
    · exact ⟨table, by simp, lists_of_mem_members hx hpids⟩
  owed x hx := by
    by_cases hmember : x ∈ (membersOf table o.isMatch c.found).map (·.identity)
    · exact .inl hmember
    · obtain hx | hx := List.mem_append.mp hx
      · obtain hfound | hdropped := h.owed x hx
        · exact .inr (dropped_of_not_member hpids (h.listed x hx) hfound hmember)
        · exact .inr (hdropped.concat table)
      · exact absurd hx hmember
  proven hproven := (hproven.elim hstage hstage').elim

/-- A look that finds nobody. -/
theorem Sound.remaining_nobody (h : Sound o w) (hc : c ∈ w.calls) (hlister : Listed w table)
    (hkept : Kept o w table) (hnobody : membersOf table o.isMatch c.found = []) :
    Call.Sound o (w.tables ++ [table]) { c.remaining o table with stage } := by
  have hsound := h.calls c hc
  have howed : (c.remaining o table).owed = c.owed := by simp [Call.remaining, hnobody]
  have hfound : (c.remaining o table).found = [] := by simp [Call.remaining, hnobody]
  refine ⟨?_, ?_, ?_, ?_⟩ <;> simp only [howed, hfound]
  · simp
  · exact fun x hx => listed_concat (hsound.listed x hx) table
  · intro x hx
    obtain hx' | hdropped := hsound.owed x hx
    · exact .inr (dropped_of_not_member hlister.1 (hsound.listed x hx) hx' (by simp [hnobody]))
    · exact .inr (hdropped.concat table)
  · exact fun _ => ⟨trivial, fun x hx =>
      foreign_of_nobody hlister hkept hnobody (.inr ⟨c, hc, hx⟩) (hsound.owed x hx)⟩

/-- A call says proven where a look finds nobody, and nowhere else. -/
theorem Call.listed_proven {processes : List ListedProcess} {checked started : Int}
    (h : c.listed processes checked started = some (stage, sent)) :
    processes = [] ∨ stage ≠ .returned .proven ∧ stage ≠ .answered .proven := by
  unfold Call.listed at h
  cases hstage : c.stage with
  | looking =>
    simp only [hstage, Option.some.injEq, Prod.mk.injEq] at h
    obtain ⟨rfl, -⟩ := h
    exact .inr ⟨nofun, nofun⟩
  | settling =>
    simp only [hstage] at h
    split_ifs at h with hempty
    · exact .inl (List.length_eq_zero_iff.mp hempty)
    · simp only [Option.some.injEq, Prod.mk.injEq] at h
      obtain ⟨rfl, -⟩ := h
      exact .inr ⟨nofun, nofun⟩
  | waiting deadline kill =>
    simp only [hstage] at h
    split_ifs at h with hempty <;>
      first
      | exact .inl (List.length_eq_zero_iff.mp hempty)
      | (simp only [Option.some.injEq, Prod.mk.injEq] at h
         obtain ⟨rfl, -⟩ := h
         exact .inr ⟨nofun, nofun⟩)
  | stopping => simp [hstage] at h
  | returned proof => simp [hstage] at h
  | answered proof => simp [hstage] at h
  | failed => simp [hstage] at h

theorem Sound.lists (h : Sound o w) (hc : c ∈ w.calls) (hlister : Listed w table)
    (hkept : Kept o w table) {checked started : Int}
    (hlisted : c.listed (membersOf table o.isMatch c.found) checked started = some (stage, sent)) :
    Sound o (lists o w call c table stage sent) := by
  have hc' : Call.Sound o (w.tables ++ [table]) { c.remaining o table with stage } := by
    obtain hnobody | ⟨hstage, hstage'⟩ := Call.listed_proven hlisted
    · exact h.remaining_nobody hc hlister hkept hnobody
    · exact (h.calls c hc).remaining hlister.1 hstage hstage'
  refine { h with listed := ?_, noted := ?_, calls := ?_ }
  · exact fun x hx => listed_concat (h.listed x hx) table
  · exact fun x hx => (h.noted x hx).imp_right fun hdropped => hdropped.concat table
  · intro c' hmem
    obtain hmem | rfl := List.mem_or_eq_of_mem_set hmem
    · exact (h.calls c' hmem).concat table
    · exact hc'

/-- A call that has returned answers the same. -/
theorem Call.Sound.answers (h : c.Sound o tables) {proof : TerminationProof}
    (hstage : c.stage = .returned proof) :
    Call.Sound o tables { c with stage := .answered proof } :=
  { h with
    proven := fun hproven => h.proven (.inl (by
      obtain hproven | hproven := hproven
      · exact absurd hproven nofun
      · rw [hstage, Stage.answered.inj hproven])) }

theorem Sound.returns (h : Sound o w) (hc : c ∈ w.calls)
    (hnoted : c.stage = .returned .proven → ∀ x ∈ w.notedNow, x ∈ c.owed) {v : World}
    (hreturns : returns w call c = some v) : Sound o v := by
  unfold ExecutionContainment.returns at hreturns
  cases hstage : c.stage with
  | returned proof =>
    simp only [hstage, Option.some.injEq] at hreturns
    have hput := h.put call ((h.calls c hc).answers hstage)
    subst hreturns
    split
    · rename_i hproof
      rw [hproof] at hstage
      refine { hput with noted_lt := nofun, noted := fun x hx => .inr ?_ }
      obtain hx | hdropped := h.noted x hx
      · have hsound := h.calls c hc
        have hempty := (hsound.proven (.inl hstage)).1
        exact (hsound.owed x (hnoted hstage x hx)).resolve_left (by simp [hempty])
      · exact hdropped
    · exact hput
  | looking => simp [hstage] at hreturns
  | stopping => simp [hstage] at hreturns
  | settling => simp [hstage] at hreturns
  | waiting deadline kill => simp [hstage] at hreturns
  | answered proof => simp [hstage] at hreturns
  | failed => simp [hstage] at hreturns

/-- A call without a listing goes on with no proof. -/
theorem Call.Sound.listFails (h : c.Sound o tables) {c' : Call} (hs : c.listFails = some c') :
    c'.Sound o tables := by
  unfold Call.listFails at hs
  split at hs <;> first
    | (obtain rfl := Option.some.inj hs
       exact h.to nofun nofun)
    | exact absurd hs nofun

theorem Call.Sound.stopped (h : c.Sound o tables) {c' : Call} {ok : Bool}
    (hs : c.stopped o ok = some c') : c'.Sound o tables := by
  unfold Call.stopped at hs
  split_ifs at hs <;> obtain rfl := Option.some.inj hs
  · exact h.to nofun nofun
  · exact h.to nofun nofun
  · exact h.to nofun nofun

theorem Sound.step (h : Sound o w) {a : Action} {v : World} (hlister : Lister w a)
    (hundisturbed : Undisturbed o w a) (hs : step o w a = some v) : Sound o v := by
  cases a with
  | noteBegins =>
    simp only [ExecutionContainment.step] at hs
    split_ifs at hs <;> obtain rfl := Option.some.inj hs
    · exact h.noteBegins
    · exact h
  | noteLists note table =>
    simp only [ExecutionContainment.step] at hs
    split at hs
    · rename_i set hnote
      obtain rfl := Option.some.inj hs
      exact h.noteLists hlister (h.notes_lt _ (List.mem_of_getElem? hnote))
        (hundisturbed.2 _ hnote)
    · exact absurd hs nofun
  | noteFails note =>
    simp only [ExecutionContainment.step] at hs
    split at hs
    · rename_i set hnote
      obtain rfl := Option.some.inj hs
      refine { h with notes_lt := fun n hn => ?_ }
      obtain hn | rfl := List.mem_or_eq_of_mem_set hn
      · exact h.notes_lt n hn
      · have hlt := h.notes_lt _ (List.mem_of_getElem? hnote)
        exact hlt
    · exact absurd hs nofun
  | terminateBegins stopEngine =>
    obtain rfl := Option.some.inj hs
    exact h.terminateBegins stopEngine
  | lists call table checked started =>
    obtain ⟨c, hc, hs⟩ := Option.bind_eq_some_iff.mp hs
    obtain ⟨⟨stage, sent⟩, hlisted, rfl⟩ := Option.map_eq_some_iff.mp hs
    exact h.lists (List.mem_of_getElem? hc) hlister hundisturbed hlisted
  | listFails call =>
    obtain ⟨c, hc, hs⟩ := Option.bind_eq_some_iff.mp hs
    obtain ⟨c', hc', rfl⟩ := Option.map_eq_some_iff.mp hs
    exact h.put call ((h.calls c (List.mem_of_getElem? hc)).listFails hc')
  | stopped call ok =>
    obtain ⟨c, hc, hs⟩ := Option.bind_eq_some_iff.mp hs
    obtain ⟨c', hc', rfl⟩ := Option.map_eq_some_iff.mp hs
    exact h.put call ((h.calls c (List.mem_of_getElem? hc)).stopped hc')
  | returns call =>
    obtain ⟨c, hc, hs⟩ := Option.bind_eq_some_iff.mp hs
    exact h.returns (List.mem_of_getElem? hc) (hundisturbed c hc) hs

theorem Sound.fresh (o : Options) : Sound o {} where
  noted_lt := nofun
  notes_lt := nofun
  sets := nofun
  listed := nofun
  noted := nofun
  calls := nofun

/-- Whom a listing signals, it has found. -/
theorem SignalsOwn.lists (h : SignalsOwn o w) (hpids : (table.map (·.pid)).Nodup) :
    SignalsOwn o (lists o w call c table stage sent) := by
  intro s hs p hp hpid
  obtain hs | hs := List.mem_append.mp hs
  · exact h s hs p hp hpid
  · obtain ⟨signal, -, hs⟩ := List.mem_flatMap.mp hs
    obtain ⟨process, hprocess, rfl⟩ := List.mem_map.mp hs
    have hmember := (mem_membersOf_iff hpids).mp hprocess
    obtain rfl : p = process := List.inj_on_of_nodup_map hpids hp hmember.mem hpid
    exact hmember.not_foreign

theorem SignalsOwn.congr (h : SignalsOwn o w) {v : World} (hsignals : v.signals = w.signals) :
    SignalsOwn o v := fun s hs => h s (hsignals ▸ hs)

theorem signals_noteBegins (w : World) : (noteBegins w).signals = w.signals := by
  unfold noteBegins
  split <;> rfl

theorem signals_returns {v : World} (hs : returns w call c = some v) : v.signals = w.signals := by
  unfold returns at hs
  split at hs
  · obtain rfl := Option.some.inj hs
    split <;> rfl
  · exact absurd hs nofun

theorem SignalsOwn.step (h : SignalsOwn o w) {a : Action} {v : World} (hlister : Lister w a)
    (hs : step o w a = some v) : SignalsOwn o v := by
  cases a with
  | noteBegins =>
    simp only [ExecutionContainment.step] at hs
    split_ifs at hs <;> obtain rfl := Option.some.inj hs
    · exact h.congr (signals_noteBegins w)
    · exact h
  | noteLists note table =>
    simp only [ExecutionContainment.step] at hs
    split at hs
    · obtain rfl := Option.some.inj hs
      exact h.congr rfl
    · exact absurd hs nofun
  | noteFails note =>
    simp only [ExecutionContainment.step] at hs
    split at hs
    · obtain rfl := Option.some.inj hs
      exact h.congr rfl
    · exact absurd hs nofun
  | terminateBegins stopEngine =>
    obtain rfl := Option.some.inj hs
    exact h.congr rfl
  | lists call table checked started =>
    obtain ⟨c, -, hs⟩ := Option.bind_eq_some_iff.mp hs
    obtain ⟨⟨stage, sent⟩, -, rfl⟩ := Option.map_eq_some_iff.mp hs
    exact h.lists hlister.1
  | listFails call =>
    obtain ⟨c, -, hs⟩ := Option.bind_eq_some_iff.mp hs
    obtain ⟨c', -, rfl⟩ := Option.map_eq_some_iff.mp hs
    exact h.congr rfl
  | stopped call ok =>
    obtain ⟨c, -, hs⟩ := Option.bind_eq_some_iff.mp hs
    obtain ⟨c', -, rfl⟩ := Option.map_eq_some_iff.mp hs
    exact h.congr rfl
  | returns call =>
    obtain ⟨c, -, hs⟩ := Option.bind_eq_some_iff.mp hs
    exact h.congr (signals_returns hs)

/-- `membersOf` gives the least set there is. Where the lister returns tables that can be, nobody
else's process is signalled; and where besides no process drops another execution's marker, and
the notes and the proofs of the execution do not cross, a proof is one. -/
theorem proves_gone (o : Options) :
    (∀ processes isMatch found, (processes.map ListedProcess.pid).Nodup →
      ∀ p, p ∈ membersOf processes isMatch found ↔ Member processes isMatch found p) ∧
    (∀ as w, (containment o).Meets Lister {} as → (containment o).run {} as = some w →
      SignalsOwn o w) ∧
    ∀ as w, (containment o).Meets (fun w a => Lister w a ∧ Undisturbed o w a) {} as →
      (containment o).run {} as = some w → ProvesGone o w := by
  refine ⟨fun processes isMatch found hpids p => mem_membersOf_iff hpids, ?_, ?_⟩
  · intro as w hmeets hrun
    exact (containment o).run_invariant (P := SignalsOwn o)
      (fun _ hs => absurd hs List.not_mem_nil)
      (fun _ _ _ h hlister hs => h.step hlister hs) hmeets hrun
  · intro as w hmeets hrun c hc hstage
    have hsound := (containment o).run_invariant (Sound.fresh o)
      (fun _ _ _ h hG hs => h.step hG.1 hG.2 hs) hmeets hrun
    exact ((hsound.calls c hc).proven (.inr hstage)).2

/-- The processes of `e` that listings tell of. -/
def process (identity : String) (pid : Int) (scope : Option String) : ListedProcess :=
  { identity, pid, ppid := 1, scope }

/-- Two processes of `e`, one of which takes `f`'s marker while the other is stopped, and drops it. -/
def dropsMarker : List Action :=
  [.terminateBegins false,
    .lists 0 [process "p" 2 (some "e"), process "q" 3 (some "e")] 0 0,
    .lists 0 [process "p" 2 (some "f"), process "q" 3 (some "e")] 100 0,
    .lists 0 [process "p" 2 none] 200 0, .returns 0]

def ofE : Options := { isMatch := fun candidate => candidate == "e" }

/-- The process that took another marker for a while is lost, and the proof is none. -/
theorem dropsMarker_proven : (containment ofE).Meets Lister {} dropsMarker ∧
    ∃ w, (containment ofE).run {} dropsMarker = some w ∧ ¬ProvesGone ofE w :=
  ⟨by decide +kernel, (containment ofE).exists_run_of_any (by decide +kernel)⟩

/-- Of two notes that begin with no set, the one that ends last puts its own in the other's place,
without the process the other found. -/
def notesCross : List Action :=
  [.noteBegins, .noteBegins,
    .noteLists 0 [process "p" 2 (some "e"), { process "q" 3 none with ppid := 2 }],
    .noteLists 1 [process "q" 3 none], .terminateBegins false, .lists 0 [process "q" 3 none] 0 0,
    .returns 0]

example : ((containment ofE).run {} notesCross).any (fun w => ¬ProvesGone ofE w) = true := by
  decide +kernel

/-- A process noted before its parent exits, that takes a `SIGKILL`. -/
def killed : List Action :=
  [.noteBegins, .noteLists 0 [process "p" 2 (some "e"), { process "q" 3 none with ppid := 2 }],
    .terminateBegins true, .lists 0 [process "q" 3 none] 0 0, .stopped 0 true,
    .lists 0 [process "q" 3 none] 0 0, .lists 0 [process "q" 3 none] 2000 2000,
    .lists 0 [process "q" 3 none] 2000 2000, .lists 0 [] 2100 2000, .returns 0]

theorem proves_gone_killed :
    ∃ w, (containment ofE).run {} killed = some w ∧ ProvesGone ofE w :=
  (containment ofE).exists_run (by decide +kernel) fun w hrun =>
    (proves_gone ofE).2.2 killed w (by decide +kernel) hrun

example : ((containment ofE).run {} killed).any
    (fun w => w.calls.any (fun c => c.stage = .answered .proven)) = true := by decide +kernel

end Opensteer.ExecutionContainment
