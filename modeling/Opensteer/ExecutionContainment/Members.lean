import Mathlib.Data.List.Nodup
import Opensteer.Framework.Worklist

/-!
# The processes of an execution

`membersOf` of `execution-containment.ts`. An execution's processes are those that carry its
marker, those without one that were found before, and everything below them that carries no other
execution's marker (`Member`); `membersOf` gives exactly these (`mem_membersOf_iff`).
-/

namespace Opensteer.ExecutionContainment

structure ListedProcess where
  identity : String
  pid : Int
  ppid : Int
  scope : Option String
deriving DecidableEq, Repr

abbrev Table := List ListedProcess

/-- The process carries a marker the predicate names. -/
def Marked (isMatch : String → Bool) (p : ListedProcess) : Prop := ∃ scope, p.scope = some scope ∧ isMatch scope

/-- The process carries another execution's marker. -/
def Foreign (isMatch : String → Bool) (p : ListedProcess) : Prop :=
  ∃ scope, p.scope = some scope ∧ ¬isMatch scope

/-- What the first filter of `membersOf` lets through. -/
def isRoot (isMatch : String → Bool) (found : List String) (p : ListedProcess) : Bool :=
  match p.scope with
  | none => found.contains p.identity
  | some scope => isMatch scope

/-- Whether a child of a member is one. -/
def isFollowed (isMatch : String → Bool) (p : ListedProcess) : Bool :=
  match p.scope with
  | none => true
  | some scope => isMatch scope

/-- The children of a process that are pushed, the last first. -/
def childrenOf (processes : Table) (isMatch : String → Bool) (p : {p // p ∈ processes}) :
    List {p // p ∈ processes} :=
  (processes.attach.filter fun child =>
    child.1.ppid = p.1.pid ∧ isFollowed isMatch child.1).reverse

/-- `pending` is a stack, its top first. -/
def membersOf (processes : Table) (isMatch : String → Bool) (found : List String) :
    List ListedProcess :=
  let pending := (processes.attach.filter fun p => isRoot isMatch found p.1).reverse
  (Worklist.collect (List.mem_attach processes) (fun p => p.1.pid) (childrenOf processes isMatch)
    pending []).map Subtype.val

/-- The least set with every process that carries a matching marker and every unmarked one found
before, and with a process every child of it that carries no marker or a matching one. -/
inductive Member (processes : Table) (isMatch : String → Bool) (found : List String) :
    ListedProcess → Prop
  | marked {p : ListedProcess} (hp : p ∈ processes) (h : Marked isMatch p) :
    Member processes isMatch found p
  | found {p : ListedProcess} (hp : p ∈ processes) (hscope : p.scope = none)
    (h : p.identity ∈ found) : Member processes isMatch found p
  | child {p child : ListedProcess} (h : Member processes isMatch found p)
    (hchild : child ∈ processes) (hppid : child.ppid = p.pid)
    (hscope : child.scope = none ∨ Marked isMatch child) : Member processes isMatch found child

variable {processes : Table} {isMatch : String → Bool} {found : List String} {p : ListedProcess}

theorem isFollowed_iff : isFollowed isMatch p ↔ p.scope = none ∨ Marked isMatch p := by
  unfold isFollowed Marked
  cases p.scope with
  | none => simp
  | some scope => simp

theorem isRoot_iff :
    isRoot isMatch found p ↔ Marked isMatch p ∨ p.scope = none ∧ p.identity ∈ found := by
  unfold isRoot Marked
  cases p.scope with
  | none => simp
  | some scope => simp

theorem Member.mem (h : Member processes isMatch found p) : p ∈ processes := by
  cases h with
  | marked hp => exact hp
  | found hp => exact hp
  | child _ hchild => exact hchild

theorem Member.not_foreign (h : Member processes isMatch found p) : ¬Foreign isMatch p := by
  have hmarked (h : Marked isMatch p) : ¬Foreign isMatch p := by
    rintro ⟨scope, hscope, hmatch⟩
    obtain ⟨scope', hscope', hmatch'⟩ := h
    obtain rfl : scope' = scope := Option.some.inj (hscope'.symm.trans hscope)
    exact hmatch hmatch'
  have hnone (h : p.scope = none) : ¬Foreign isMatch p := by
    rintro ⟨scope, hscope, -⟩
    simp [h] at hscope
  cases h with
  | marked _ h => exact hmarked h
  | found _ h => exact hnone h
  | child _ _ _ h => exact h.elim hnone hmarked

/-- A process is what its pid says, where the pids are unique. -/
theorem injective_pid (hpids : (processes.map (·.pid)).Nodup) :
    Function.Injective fun p : {p // p ∈ processes} => p.1.pid := by
  intro p q h
  exact Subtype.ext (List.inj_on_of_nodup_map hpids p.2 q.2 h)

/-- What can be reached from the roots is the least such set. -/
theorem reaches_iff_member (p : {p // p ∈ processes}) :
    (∃ root ∈ (processes.attach.filter fun p => isRoot isMatch found p.1).reverse,
      Relation.ReflTransGen (fun p q => q ∈ childrenOf processes isMatch p) root p) ↔
    Member processes isMatch found p.1 := by
  constructor
  · rintro ⟨root, hroot, hreach⟩
    induction hreach with
    | refl =>
      have hroot : isRoot isMatch found root.1 = true := by simpa using hroot
      obtain hmarked | ⟨hscope, hfound⟩ := isRoot_iff.mp hroot
      · exact .marked root.2 hmarked
      · exact .found root.2 hscope hfound
    | @tail p child _ hchild ih =>
      obtain ⟨hppid, hfollowed⟩ : child.1.ppid = p.1.pid ∧ isFollowed isMatch child.1 = true := by
        simpa [childrenOf] using hchild
      exact .child ih child.2 hppid (isFollowed_iff.mp hfollowed)
  · intro h
    obtain ⟨p, hp⟩ := p
    simp only at h
    induction h with
    | marked _ hmarked =>
      exact ⟨⟨_, hp⟩, by simpa using isRoot_iff.mpr (.inl hmarked), .refl⟩
    | found _ hscope hfound =>
      exact ⟨⟨_, hp⟩, by simpa using isRoot_iff.mpr (.inr ⟨hscope, hfound⟩), .refl⟩
    | child h _ hppid hscope ih =>
      obtain ⟨root, hroot, hreach⟩ := ih h.mem
      exact ⟨root, hroot, hreach.tail (by simpa [childrenOf] using ⟨hppid, isFollowed_iff.mpr hscope⟩)⟩

/-- Where the pids are unique, `membersOf` gives exactly the members. -/
theorem mem_membersOf_iff (hpids : (processes.map (·.pid)).Nodup) :
    p ∈ membersOf processes isMatch found ↔ Member processes isMatch found p := by
  simp only [membersOf, List.mem_map, Worklist.mem_collect_iff (injective_pid hpids),
    reaches_iff_member]
  constructor
  · rintro ⟨p, h, rfl⟩
    exact h
  · exact fun h => ⟨⟨p, h.mem⟩, h, rfl⟩

end Opensteer.ExecutionContainment
