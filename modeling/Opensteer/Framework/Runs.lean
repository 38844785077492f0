import Mathlib.Data.List.Basic
import Mathlib.Data.List.Infix

/-!
# Runs of a list

The elements of a list that are of a kind are one run of it where nothing of another kind
stands between two of them (`Contiguous`). A list cut in two is so if both parts are, and if
where a part holds one of them the other part holds the rest at the cut (`contiguous_append`).
So a block of another kind may be put in where no run goes over the cut
(`Contiguous.insert_outside`), and a block of this kind next to one of it
(`Contiguous.insert_inside`) or where there is none of it (`Contiguous.insert_first`).
-/

open scoped List

namespace Opensteer

variable {α : Type*} {p q : α → Prop} {l l' u m v : List α} {a : α}

/-- Nothing stands between two of a kind but what is of it. -/
def Contiguous (p : α → Prop) (l : List α) : Prop :=
  ∀ ⦃x y z⦄, [x, y, z] <+ l → p x → p z → p y

/-- Those of a kind are last. -/
def Trailing (p : α → Prop) (l : List α) : Prop := l.Pairwise fun x y => p x → p y

/-- Those of a kind are first. -/
def Leading (p : α → Prop) (l : List α) : Prop := l.Pairwise fun x y => p y → p x

/-- No two of a kind stand on different sides of a cut. -/
def Clear (p : α → Prop) (u v : List α) : Prop := (∀ x ∈ u, ¬p x) ∨ ∀ z ∈ v, ¬p z

theorem not_clear : ¬Clear p u v ↔ (∃ x ∈ u, p x) ∧ ∃ z ∈ v, p z := by
  simp [Clear]

theorem Trailing.of_all (h : ∀ x ∈ l, p x) : Trailing p l :=
  List.pairwise_of_forall_mem_list fun _ _ y hy _ => h y hy

theorem Trailing.of_none (h : ∀ x ∈ l, ¬p x) : Trailing p l :=
  List.pairwise_of_forall_mem_list fun x hx _ _ hpx => (h x hx hpx).elim

theorem Leading.of_all (h : ∀ x ∈ l, p x) : Leading p l :=
  List.pairwise_of_forall_mem_list fun x hx _ _ _ => h x hx

theorem Leading.of_none (h : ∀ x ∈ l, ¬p x) : Leading p l :=
  List.pairwise_of_forall_mem_list fun _ _ y hy hpy => (h y hy hpy).elim

theorem trailing_append : Trailing p (u ++ v) ↔
    Trailing p u ∧ Trailing p v ∧ ∀ x ∈ u, ∀ y ∈ v, p x → p y :=
  List.pairwise_append

theorem leading_append : Leading p (u ++ v) ↔
    Leading p u ∧ Leading p v ∧ ∀ x ∈ u, ∀ y ∈ v, p y → p x :=
  List.pairwise_append

namespace Contiguous

theorem nil (p : α → Prop) : Contiguous p [] := fun _ _ _ h => (nomatch h)

theorem sublist (h : Contiguous p l) (hs : l' <+ l) : Contiguous p l' :=
  fun _ _ _ hxyz => h (hxyz.trans hs)

theorem congr (h : Contiguous p l) (hpq : ∀ x ∈ l, q x ↔ p x) : Contiguous q l := by
  intro x y z hs hx hz
  have hmem := hs.subset
  refine (hpq y (hmem (by simp))).mpr (h hs ?_ ?_)
  · exact (hpq x (hmem (by simp))).mp hx
  · exact (hpq z (hmem (by simp))).mp hz

theorem of_none (h : ∀ x ∈ l, ¬p x) : Contiguous p l :=
  fun x _ _ hs hx => (h x (hs.subset (by simp)) hx).elim

end Contiguous

theorem contiguous_cons : Contiguous p (a :: l) ↔ Contiguous p l ∧ (p a → Leading p l) := by
  constructor
  · intro h
    refine ⟨h.sublist (List.sublist_cons_self a l), fun ha => List.pairwise_iff_forall_sublist.mpr ?_⟩
    intro y z hyz hz
    exact h (hyz.cons_cons a) ha hz
  · rintro ⟨hl, hlead⟩ x y z hs hx hz
    cases hs with
    | cons _ hs => exact hl hs hx hz
    | cons_cons _ hs => exact List.pairwise_iff_forall_sublist.mp (hlead hx) hs hz

/-- What is contiguous in both parts, and on both sides of the cut at the cut. -/
theorem contiguous_append : Contiguous p (u ++ v) ↔ Contiguous p u ∧ Contiguous p v ∧
    ((∃ x ∈ u, p x) → Leading p v) ∧ ((∃ z ∈ v, p z) → Trailing p u) := by
  induction u with
  | nil => simp [Contiguous.nil, Trailing]
  | cons a u ih =>
    rw [List.cons_append, contiguous_cons, contiguous_cons, ih, leading_append]
    simp only [List.mem_cons, Trailing, List.pairwise_cons]
    constructor
    · rintro ⟨⟨hu, hv, hlead, htrail⟩, ha⟩
      refine ⟨⟨hu, fun hpa => (ha hpa).1⟩, hv, ?_, fun ⟨z, hz, hpz⟩ => ⟨fun x hx hpa => ?_, htrail ⟨z, hz, hpz⟩⟩⟩
      · rintro ⟨x, rfl | hx, hpx⟩
        · exact (ha hpx).2.1
        · exact hlead ⟨x, hx, hpx⟩
      · exact (ha hpa).2.2 x hx z hz hpz
    · rintro ⟨⟨hu, hua⟩, hv, hlead, htrail⟩
      refine ⟨⟨hu, hv, fun ⟨x, hx, hpx⟩ => hlead ⟨x, .inr hx, hpx⟩, fun hz => (htrail hz).2⟩, fun hpa => ?_⟩
      exact ⟨hua hpa, hlead ⟨a, .inl rfl, hpa⟩, fun x hx y hy hpy => (htrail ⟨y, hy, hpy⟩).1 x hx hpa⟩

namespace Contiguous

theorem of_append (h : Contiguous p (u ++ v)) : Contiguous p u ∧ Contiguous p v ∧
    ((∃ x ∈ u, p x) → Leading p v) ∧ ((∃ z ∈ v, p z) → Trailing p u) :=
  contiguous_append.mp h

theorem append (hu : Contiguous p u) (hv : Contiguous p v) (hlead : (∃ x ∈ u, p x) → Leading p v)
    (htrail : (∃ z ∈ v, p z) → Trailing p u) : Contiguous p (u ++ v) :=
  contiguous_append.mpr ⟨hu, hv, hlead, htrail⟩

/-- Of which one stands at the cut, the rest to the left stand at it. -/
theorem trailing_of_head (h : Contiguous p (u ++ a :: v)) (ha : p a) : Trailing p u :=
  h.of_append.2.2.2 ⟨a, List.mem_cons_self, ha⟩

theorem leading_of_last (h : Contiguous p (u ++ v)) (hu : u.getLast? = some a) (ha : p a) : Leading p v :=
  h.of_append.2.2.1 ⟨a, List.mem_of_getLast? hu, ha⟩

theorem leading_of_head (h : Contiguous p (a :: v)) (ha : p a) : Leading p (a :: v) :=
  List.pairwise_cons.mpr ⟨fun _ _ _ => ha, (contiguous_cons.mp h).2 ha⟩

theorem trailing_of_last (h : Contiguous p u) (hu : u.getLast? = some a) (ha : p a) : Trailing p u := by
  obtain ⟨init, rfl⟩ := List.getLast?_eq_some_iff.mp hu
  exact trailing_append.mpr ⟨h.trailing_of_head ha, List.pairwise_singleton .., by simpa using fun _ _ _ => ha⟩

/-- Of which the last before a cut is not one, no two stand on different sides of it. -/
theorem clear_of_last (h : Contiguous p (u ++ v)) (hu : u.getLast? = some a) (ha : ¬p a) : Clear p u v := by
  by_contra hc
  obtain ⟨⟨x, hx, hpx⟩, z, hz, hpz⟩ := not_clear.mp hc
  have htrail := h.of_append.2.2.2 ⟨z, hz, hpz⟩
  obtain ⟨init, rfl⟩ := List.getLast?_eq_some_iff.mp hu
  have hlast := (trailing_append.mp htrail).2.2
  simp only [List.mem_append, List.mem_singleton] at hx
  rcases hx with hx | rfl
  · exact ha (hlast x hx a (by simp) hpx)
  · exact ha hpx

/-- Of which the first after a cut is not one, no two stand on different sides of it. -/
theorem clear_of_head (h : Contiguous p (u ++ a :: v)) (ha : ¬p a) : Clear p u (a :: v) := by
  by_contra hc
  obtain ⟨⟨x, hx, hpx⟩, z, hz, hpz⟩ := not_clear.mp hc
  have hlead := h.of_append.2.2.1 ⟨x, hx, hpx⟩
  rcases List.mem_cons.mp hz with rfl | hz
  · exact ha hpz
  · exact ha ((List.pairwise_cons.mp hlead).1 z hz hpz)

/-- A block of another kind is put in where no run goes over the cut. -/
theorem insert_outside (h : Contiguous p (u ++ v)) (hm : ∀ x ∈ m, ¬p x) (hc : Clear p u v) :
    Contiguous p (u ++ m ++ v) := by
  obtain ⟨hu, hv, hlead, htrail⟩ := h.of_append
  have hum : Contiguous p (u ++ m) :=
    hu.append (.of_none hm) (fun _ => .of_none hm) fun ⟨z, hz, hpz⟩ => (hm z hz hpz).elim
  refine hum.append hv (fun ⟨x, hx, hpx⟩ => ?_) fun ⟨z, hz, hpz⟩ => ?_
  · have hxu : x ∈ u := (List.mem_append.mp hx).resolve_right fun hx => hm x hx hpx
    exact hlead ⟨x, hxu, hpx⟩
  · have hnone := hc.resolve_right fun hv => hv z hz hpz
    exact .of_none fun x hx => (List.mem_append.mp hx).elim (hnone x) (hm x)

/-- A block of another kind that was put in leaves no run over the cut. -/
theorem clear_of_insert (h : Contiguous p (u ++ m ++ v)) (hm : ∀ x ∈ m, ¬p x) (hne : m ≠ []) : Clear p u v := by
  obtain ⟨init, a, rfl⟩ := (List.eq_nil_or_concat' m).resolve_left hne
  have hlast : (u ++ (init ++ [a])).getLast? = some a := by simp
  refine (h.clear_of_last hlast (hm a (by simp))).imp (fun hu x hx => hu x (by simp [hx])) id

/-- A block of this kind is put in where the run is on both sides at the cut. -/
theorem insert_at (h : Contiguous p (u ++ v)) (hm : ∀ x ∈ m, p x) (hu : Trailing p u) (hv : Leading p v) :
    Contiguous p (u ++ m ++ v) := by
  obtain ⟨hcu, hcv, -⟩ := h.of_append
  have hum : Trailing p (u ++ m) := trailing_append.mpr ⟨hu, .of_all hm, fun _ _ y hy _ => hm y hy⟩
  have hmc : Contiguous p m := fun x y z hs _ _ => hm y (hs.subset (by simp))
  have humc : Contiguous p (u ++ m) := hcu.append hmc (fun _ => .of_all hm) fun _ => hu
  exact humc.append hcv (fun _ => hv) fun _ => hum

/-- A block of this kind is put in after one of it. -/
theorem insert_after (h : Contiguous p (u ++ v)) (hm : ∀ x ∈ m, p x) (hu : u.getLast? = some a) (ha : p a) :
    Contiguous p (u ++ m ++ v) :=
  h.insert_at hm (h.of_append.1.trailing_of_last hu ha) (h.leading_of_last hu ha)

/-- A block of this kind is put in before one of it. -/
theorem insert_before (h : Contiguous p (u ++ a :: v)) (hm : ∀ x ∈ m, p x) (ha : p a) :
    Contiguous p (u ++ m ++ a :: v) :=
  h.insert_at hm (h.trailing_of_head ha) (h.of_append.2.1.leading_of_head ha)

/-- A block of a kind is put in where there is none of it. -/
theorem insert_first (h : ∀ x ∈ u ++ v, ¬p x) (hm : ∀ x ∈ m, p x) : Contiguous p (u ++ m ++ v) :=
  insert_at (.of_none h) hm (.of_none fun x hx => h x (List.mem_append_left v hx))
    (.of_none fun x hx => h x (List.mem_append_right u hx))

end Contiguous

end Opensteer
