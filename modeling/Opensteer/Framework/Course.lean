import Opensteer.Framework.AscendingLog
import Mathlib.Logic.Relation

/-!
# Courses through a log

What a reader of an ascending log is given, in order: the members it may see
from where it starts, and notes, each of which follows some position of the
log. A course is intact while nothing given up for it has been lost; once cut
it gets nothing more. However its steps are mixed (`Course.Step`), its members
are those of the log from its start on, in order and without a hole, and each
note comes after all it follows (`Course.Ok`); so it is with any first part of
it (`Course.Ok.ascending`, `Course.Ok.complete`, `Course.Ok.note_follows`).
-/

namespace Opensteer

variable {α β : Type*}

inductive CourseItem (α β : Type*)
  | event (a : α)
  | note (b : β)

namespace CourseItem

/-- The members of the log among the items. -/
def events (items : List (CourseItem α β)) : List α :=
  items.filterMap fun | event a => some a | note _ => none

def notes (items : List (CourseItem α β)) : List β :=
  items.filterMap fun | event _ => none | note b => some b

@[simp] theorem events_nil : events ([] : List (CourseItem α β)) = [] := rfl

@[simp] theorem events_append (l l' : List (CourseItem α β)) :
    events (l ++ l') = events l ++ events l' := List.filterMap_append

@[simp] theorem events_map_event (l : List α) : events (l.map (event (β := β))) = l := by
  simp [events, List.filterMap_map]

@[simp] theorem events_note (b : β) : events [(note b : CourseItem α β)] = [] := rfl

@[simp] theorem notes_nil : notes ([] : List (CourseItem α β)) = [] := rfl

@[simp] theorem notes_append (l l' : List (CourseItem α β)) :
    notes (l ++ l') = notes l ++ notes l' := List.filterMap_append

@[simp] theorem notes_map_event (l : List α) : notes (l.map (event (β := β))) = [] := by
  simp [notes, List.filterMap_map]

@[simp] theorem notes_note (b : β) : notes [(note b : CourseItem α β)] = [b] := rfl

theorem mem_events {items : List (CourseItem α β)} {a : α} : a ∈ events items ↔ event a ∈ items := by
  simp only [events, List.mem_filterMap]
  constructor
  · rintro ⟨i, hi, h⟩
    cases i with
    | event b => exact Option.some.inj h ▸ hi
    | note b => cases h
  · exact fun h => ⟨_, h, rfl⟩

end CourseItem

structure Course (α β : Type*) where
  start : Nat
  through : Nat
  intact : Bool
  items : List (CourseItem α β)

namespace Course

variable (pos : α → Nat) (bound : β → Nat) (log : List α) (visible : α → Bool)

/-- What may happen to a course. -/
inductive Step : Course α β → Course α β → Prop
  | restart {c : Course α β} {n : Nat} (hitems : c.items = []) :
      Step c { c with start := n, through := n }
  | take {c : Course α β} {n : Nat} (hintact : c.intact = true) (hn : c.through ≤ n) :
      Step c { c with
        through := n
        items := c.items ++ ((between pos log c.through n).filter visible).map .event }
  | note {c : Course α β} {b : β} (hintact : c.intact = true) (hb : bound b ≤ c.through) :
      Step c { c with items := c.items ++ [CourseItem.note b] }
  | cut {c : Course α β} {pre : List (CourseItem α β)} {n : Nat} (hpre : pre <+: c.items) :
      Step c { c with items := pre, through := n, intact := false }

/-- What every step keeps. -/
structure Ok (c : Course α β) : Prop where
  start_le : c.intact = true → c.start ≤ c.through
  exact : c.intact = true →
    CourseItem.events c.items = (between pos log c.start c.through).filter visible
  within : CourseItem.events c.items <+: (above pos log c.start).filter visible
  notes : ∀ (pre : List (CourseItem α β)) b post, c.items = pre ++ CourseItem.note b :: post →
    ∀ a ∈ log, visible a = true → c.start < pos a → pos a ≤ bound b → .event a ∈ pre

variable {pos bound log visible} {c d : Course α β}

/-- The course of a reader that starts somewhere and has been given nothing. -/
theorem Ok.initial (n : Nat) : Ok pos bound log visible (⟨n, n, true, []⟩ : Course α β) where
  start_le _ := Nat.le_refl n
  exact _ := by simp [between_eq_nil (Nat.le_refl n)]
  within := List.nil_prefix
  notes pre b post h := by simp at h

/-- Notes among what is given stay behind what they follow when members of the
log, or notes that follow them, are added. -/
theorem Ok.notes_append (h : Ok pos bound log visible c) {more : List (CourseItem α β)}
    (hmore : ∀ (pre : List (CourseItem α β)) b post, more = pre ++ CourseItem.note b :: post →
      ∀ a ∈ log, visible a = true → c.start < pos a → pos a ≤ bound b →
        .event a ∈ c.items ++ pre) :
    ∀ (pre : List (CourseItem α β)) b post, c.items ++ more = pre ++ CourseItem.note b :: post →
      ∀ a ∈ log, visible a = true → c.start < pos a → pos a ≤ bound b → .event a ∈ pre := by
  intro pre b post he a ha hv hs hb
  rcases List.append_eq_append_iff.mp he with ⟨as, hpre, hm⟩ | ⟨as, hc, hm⟩
  · exact hpre ▸ hmore as b post hm a ha hv hs hb
  · cases as with
    | nil =>
      have := hmore [] b post (by simpa using hm.symm) a ha hv hs hb
      simpa [hc] using this
    | cons i as =>
      obtain ⟨rfl, -⟩ := List.cons_eq_cons.mp hm
      exact h.notes pre b as hc a ha hv hs hb

theorem Ok.step (hlog : Ascending pos log) (h : Ok pos bound log visible c)
    (hst : Step pos bound log visible c d) : Ok pos bound log visible d := by
  cases hst with
  | @restart n hitems =>
    exact {
      start_le := fun _ => Nat.le_refl n
      exact := fun _ => by simp [hitems, between_eq_nil (Nat.le_refl n)]
      within := by simp [hitems]
      notes := fun pre b post he => by simp [hitems] at he }
  | @take n hintact hn =>
    have hexact : CourseItem.events (c.items ++
        ((between pos log c.through n).filter visible).map (CourseItem.event (β := β))) =
        (between pos log c.start n).filter visible := by
      rw [CourseItem.events_append, CourseItem.events_map_event, h.exact hintact, ← List.filter_append,
        between_append hlog (h.start_le hintact) hn]
    refine ⟨fun _ => Nat.le_trans (h.start_le hintact) hn, fun _ => hexact, ?_,
      h.notes_append fun pre b post he => ?_⟩
    · exact hexact ▸ (between_prefix_above hlog).filter visible
    · have : CourseItem.note b ∈ ((between pos log c.through n).filter visible).map .event := by
        rw [he]; simp
      simp at this
  | @note b hintact hb =>
    refine ⟨h.start_le, fun hi => ?_, ?_, h.notes_append fun pre b' post he a ha hv hs hab => ?_⟩
    · simpa using h.exact hi
    · simpa using h.within
    · -- The note is last, and the course holds all that it follows.
      have hpre : pre = [] ∧ b = b' ∧ post = [] := by
        cases pre with
        | nil => simpa using he
        | cons i pre => simp at he
      obtain ⟨rfl, rfl, -⟩ := hpre
      rw [List.append_nil, ← CourseItem.mem_events, h.exact hintact]
      exact List.mem_filter.mpr ⟨mem_between.mpr ⟨ha, hs, Nat.le_trans hab hb⟩, hv⟩
  | @cut pre n hpre =>
    obtain ⟨rest, hrest⟩ := hpre
    refine ⟨fun hi => by simp at hi, fun hi => by simp at hi, ?_, fun p b post he => ?_⟩
    · refine List.IsPrefix.trans ?_ h.within
      exact ⟨CourseItem.events rest, by rw [← hrest, CourseItem.events_append]⟩
    · refine h.notes p b (post ++ rest) ?_
      rw [← hrest, show pre = p ++ CourseItem.note b :: post from he]
      simp

theorem Ok.of_steps (hlog : Ascending pos log) (h : Ok pos bound log visible c)
    (hst : Relation.ReflTransGen (Step pos bound log visible) c d) :
    Ok pos bound log visible d := by
  induction hst with
  | refl => exact h
  | tail _ hst ih => exact ih.step hlog hst

/-! ## A first part of a course -/

variable {given : List (CourseItem α β)}

theorem Ok.events_prefix (h : Ok pos bound log visible c) (hg : given <+: c.items) :
    CourseItem.events given <+: (above pos log c.start).filter visible := by
  obtain ⟨rest, hrest⟩ := hg
  exact List.IsPrefix.trans ⟨CourseItem.events rest, by rw [← hrest, CourseItem.events_append]⟩ h.within

theorem Ok.ascending (hlog : Ascending pos log) (h : Ok pos bound log visible c)
    (hg : given <+: c.items) : Ascending pos (CourseItem.events given) :=
  ((hlog.filter _).filter _).of_isPrefix (h.events_prefix hg)

/-- Before any member given, every member below it has been given. -/
theorem Ok.complete (hlog : Ascending pos log) (h : Ok pos bound log visible c)
    (hg : given <+: c.items) {pre post : List α} {a b : α}
    (he : CourseItem.events given = pre ++ a :: post) (hb : b ∈ log) (hv : visible b = true)
    (hs : c.start < pos b) (hba : pos b < pos a) : b ∈ pre :=
  ((hlog.filter _).filter visible).mem_of_isPrefix (h.events_prefix hg) he
    (List.mem_filter.mpr ⟨mem_above.mpr ⟨hb, hs⟩, hv⟩) hba

/-- Before any note given, every member that it follows has been given. -/
theorem Ok.note_follows (h : Ok pos bound log visible c) (hg : given <+: c.items)
    {pre post : List (CourseItem α β)} {b : β} (he : given = pre ++ CourseItem.note b :: post) {a : α}
    (ha : a ∈ log) (hv : visible a = true) (hs : c.start < pos a) (hb : pos a ≤ bound b) :
    .event a ∈ pre := by
  obtain ⟨rest, hrest⟩ := hg
  refine h.notes pre b (post ++ rest) ?_ a ha hv hs hb
  rw [← hrest, he]
  simp

end Course

end Opensteer
