import Mathlib.Data.List.Nodup
import Mathlib.Data.List.Perm.Subperm

/-!
# Maps in insertion order

A finite map that remembers the order its keys were first set in: setting a key
that is there keeps its place, one that is not goes to the end. `get` after each
operation is given by a simp lemma; the lists of entries are for what goes
through them in order.
-/

namespace Opensteer

/-- Entries in insertion order, one for each key. -/
structure OrderedMap (κ α : Type*) where
  entries : List (κ × α)
  nodup : (entries.map Prod.fst).Nodup
deriving DecidableEq

namespace OrderedMap

variable {κ α β : Type*} {k k' : κ} {a : α}

def empty : OrderedMap κ α := ⟨[], List.nodup_nil⟩

def keys (m : OrderedMap κ α) : List κ := m.entries.map Prod.fst

def values (m : OrderedMap κ α) : List α := m.entries.map Prod.snd

def size (m : OrderedMap κ α) : Nat := m.entries.length

variable [DecidableEq κ]

/-- The value of a key in a list of entries. -/
def find (k : κ) : List (κ × α) → Option α
  | [] => none
  | e :: es => if e.1 = k then some e.2 else find k es

def get (m : OrderedMap κ α) (k : κ) : Option α := find k m.entries

/-- The entries with the key set, in its place or at the end. -/
def put (k : κ) (a : α) : List (κ × α) → List (κ × α)
  | [] => [(k, a)]
  | e :: es => if e.1 = k then (k, a) :: es else e :: put k a es

theorem keys_put (k : κ) (a : α) (es : List (κ × α)) :
    (put k a es).map Prod.fst =
      es.map Prod.fst ++ if k ∈ es.map Prod.fst then [] else [k] := by
  induction es with
  | nil => simp [put]
  | cons e es ih =>
    by_cases h : e.1 = k
    · simp [put, h]
    · rw [put, if_neg h, List.map_cons, ih, List.map_cons, List.cons_append]
      simp only [List.mem_cons, Ne.symm h, false_or]

def set (m : OrderedMap κ α) (k : κ) (a : α) : OrderedMap κ α where
  entries := put k a m.entries
  nodup := by
    rw [keys_put]
    split
    · simpa using m.nodup
    · rename_i h
      refine List.nodup_append.mpr ⟨m.nodup, by simp, fun x hx y hy => ?_⟩
      rintro rfl
      exact h (List.mem_singleton.mp hy ▸ hx)

def delete (m : OrderedMap κ α) (k : κ) : OrderedMap κ α where
  entries := m.entries.filter fun e => e.1 ≠ k
  nodup := List.Nodup.sublist (List.Sublist.map _ List.filter_sublist) m.nodup

/-- The map with the key's value changed, if it has one. -/
def modify (m : OrderedMap κ α) (k : κ) (f : α → α) : OrderedMap κ α :=
  match m.get k with
  | some a => m.set k (f a)
  | none => m

/-- The same keys, in the same order, with other values. -/
def mapValues (f : α → β) (m : OrderedMap κ α) : OrderedMap κ β where
  entries := m.entries.map fun e => (e.1, f e.2)
  nodup := by
    rw [List.map_map]
    exact m.nodup

/-! ## What is there after each operation -/

theorem find_put (es : List (κ × α)) :
    find k' (put k a es) = if k = k' then some a else find k' es := by
  induction es with
  | nil => simp [put, find]
  | cons e es ih =>
    by_cases h : e.1 = k
    · rw [put, if_pos h, find, find]
      by_cases hk : k = k'
      · rw [if_pos hk, if_pos hk]
      · rw [if_neg hk, if_neg hk, if_neg (h ▸ hk)]
    · rw [put, if_neg h, find, find]
      by_cases he : e.1 = k'
      · rw [if_pos he, if_pos he, if_neg (fun hk => h (he.trans hk.symm))]
      · rw [if_neg he, if_neg he, ih]

theorem find_filter (es : List (κ × α)) :
    find k' (es.filter fun e => e.1 ≠ k) = if k = k' then none else find k' es := by
  induction es with
  | nil => simp [find]
  | cons e es ih =>
    by_cases h : e.1 = k
    · rw [List.filter_cons_of_neg (by simp [h]), ih, find]
      by_cases hk : k = k'
      · rw [if_pos hk, if_pos hk]
      · rw [if_neg hk, if_neg hk, if_neg (h ▸ hk)]
    · rw [List.filter_cons_of_pos (by simpa using h), find, find, ih]
      by_cases hk : k = k'
      · rw [if_pos hk, if_neg (hk ▸ h), if_pos hk]
      · rw [if_neg hk, if_neg hk]

@[simp] theorem get_empty : (empty : OrderedMap κ α).get k = none := rfl

@[simp] theorem get_set (m : OrderedMap κ α) :
    (m.set k a).get k' = if k = k' then some a else m.get k' := find_put m.entries

@[simp] theorem get_delete (m : OrderedMap κ α) :
    (m.delete k).get k' = if k = k' then none else m.get k' := find_filter m.entries

@[simp] theorem get_modify (m : OrderedMap κ α) (f : α → α) :
    (m.modify k f).get k' = if k = k' then (m.get k).map f else m.get k' := by
  cases hk : m.get k with
  | some a =>
    simp only [modify, hk, get_set, Option.map_some]
  | none =>
    simp only [modify, hk, Option.map_none]
    by_cases h : k = k'
    · rw [if_pos h, ← h, hk]
    · rw [if_neg h]

@[simp] theorem get_mapValues (f : α → β) (m : OrderedMap κ α) :
    (m.mapValues f).get k = (m.get k).map f := by
  obtain ⟨es, _⟩ := m
  simp only [get, mapValues]
  induction es with
  | nil => rfl
  | cons e es ih =>
    rw [List.map_cons, find, find]
    split
    · rfl
    · exact ih (List.nodup_cons.mp ‹_›).2

theorem get_foldl_delete (ks : List κ) (m : OrderedMap κ α) :
    (ks.foldl delete m).get k = if k ∈ ks then none else m.get k := by
  induction ks generalizing m with
  | nil => rfl
  | cons k' ks ih =>
    rw [List.foldl_cons, ih, get_delete]
    by_cases h : k' = k
    · simp [h]
    · simp [h, Ne.symm h]

omit [DecidableEq κ] in
@[simp] theorem size_mapValues (f : α → β) (m : OrderedMap κ α) : (m.mapValues f).size = m.size :=
  List.length_map _

theorem size_delete_le (m : OrderedMap κ α) (k : κ) : (m.delete k).size ≤ m.size :=
  List.length_filter_le _ _

theorem size_set (m : OrderedMap κ α) (k : κ) (a : α) :
    (m.set k a).size = if (m.get k).isSome then m.size else m.size + 1 := by
  obtain ⟨es, _⟩ := m
  simp only [size, set, get]
  induction es with
  | nil => rfl
  | cons e es ih =>
    simp only [put, find]
    split
    · rfl
    · rw [List.length_cons, ih (List.nodup_cons.mp ‹_›).2, List.length_cons]
      by_cases hs : (find k es).isSome = true <;> simp [hs]

/-! ## Entries -/

theorem find_eq_some {es : List (κ × α)} (h : (es.map Prod.fst).Nodup) :
    find k es = some a ↔ (k, a) ∈ es := by
  induction es with
  | nil => simp [find]
  | cons e es ih =>
    obtain ⟨hnot, hnd⟩ := List.nodup_cons.mp h
    by_cases he : e.1 = k
    · subst he
      rw [find, if_pos rfl]
      constructor
      · rintro ⟨rfl⟩
        exact List.mem_cons_self
      · intro hm
        rcases List.mem_cons.mp hm with he | hm
        · rw [← he]
        · exact absurd (List.mem_map_of_mem (f := Prod.fst) hm) hnot
    · rw [find, if_neg he, ih hnd, List.mem_cons]
      exact ⟨.inr, fun hm => hm.resolve_left fun h => he (h ▸ rfl)⟩

theorem mem_entries {m : OrderedMap κ α} : (k, a) ∈ m.entries ↔ m.get k = some a :=
  (find_eq_some m.nodup).symm

theorem mem_values {m : OrderedMap κ α} : a ∈ m.values ↔ ∃ k, m.get k = some a := by
  simp only [values, List.mem_map, Prod.exists, exists_eq_right, mem_entries]

theorem mem_keys {m : OrderedMap κ α} : k ∈ m.keys ↔ (m.get k).isSome := by
  simp only [keys, List.mem_map, Prod.exists, Option.isSome_iff_exists, mem_entries]
  simp

theorem entries_eq_nil_iff {m : OrderedMap κ α} : m.entries = [] ↔ ∀ k, m.get k = none := by
  refine ⟨fun h k => by rw [get, h]; rfl, fun h => List.eq_nil_iff_forall_not_mem.mpr fun e he => ?_⟩
  have hget := mem_entries.mp (show (e.1, e.2) ∈ m.entries from he)
  rw [h] at hget
  cases hget

theorem perm_filter_of_find {es : List (κ × α)} (hnd : (es.map Prod.fst).Nodup) (h : find k es = some a) :
    es.Perm ((k, a) :: es.filter fun e => e.1 ≠ k) := by
  induction es with
  | nil => cases h
  | cons e es ih =>
    obtain ⟨hnot, hnd⟩ := List.nodup_cons.mp hnd
    rw [find] at h
    by_cases he : e.1 = k
    · rw [if_pos he] at h
      obtain rfl := Option.some.inj h
      subst he
      have hall : es.filter (fun e' => decide (e'.1 ≠ e.1)) = es :=
        List.filter_eq_self.mpr fun e' he' => by
          have : e'.1 ≠ e.1 := fun heq => hnot (heq ▸ List.mem_map_of_mem he')
          simpa using this
      rw [List.filter_cons_of_neg (by simp), hall]
    · rw [if_neg he] at h
      rw [List.filter_cons_of_pos (by simpa using he)]
      exact ((ih hnd h).cons e).trans (.swap _ _ _)

/-- A key's value, and those of the others. -/
theorem values_perm_delete {m : OrderedMap κ α} (h : m.get k = some a) :
    m.values.Perm (a :: (m.delete k).values) :=
  (perm_filter_of_find m.nodup h).map Prod.snd

theorem size_delete {m : OrderedMap κ α} (h : m.get k = some a) : m.size = (m.delete k).size + 1 := by
  simpa [values, size] using (values_perm_delete h).length_eq

theorem entries_delete (m : OrderedMap κ α) (k : κ) : (m.delete k).entries.Sublist m.entries := List.filter_sublist

theorem entries_foldl_delete (ks : List κ) (m : OrderedMap κ α) : (ks.foldl delete m).entries.Sublist m.entries := by
  induction ks generalizing m with
  | nil => exact .refl _
  | cons k ks ih => exact (ih (m.delete k)).trans (m.entries_delete k)

theorem put_of_find_eq_none {es : List (κ × α)} (h : find k es = none) : put k a es = es ++ [(k, a)] := by
  induction es with
  | nil => rfl
  | cons e es ih =>
    rw [find] at h
    by_cases he : e.1 = k
    · rw [if_pos he] at h
      cases h
    · rw [if_neg he] at h
      rw [put, if_neg he, ih h, List.cons_append]

theorem put_put (k : κ) (a b : α) (es : List (κ × α)) : put k b (put k a es) = put k b es := by
  induction es with
  | nil => exact if_pos rfl
  | cons e es ih =>
    rw [put, put]
    split
    · rw [put, if_pos rfl]
    · rename_i hne
      rw [put, if_neg hne, ih]

theorem set_set (m : OrderedMap κ α) (k : κ) (a b : α) : (m.set k a).set k b = m.set k b := by
  rw [set, mk.injEq]
  exact put_put k a b m.entries

theorem values_set_of_get_eq_none {m : OrderedMap κ α} (h : m.get k = none) :
    (m.set k a).values = m.values ++ [a] := by
  change (put k a m.entries).map Prod.snd = _
  rw [put_of_find_eq_none h, List.map_append]
  rfl

/-- What is listed for each entry under its own key is, of one key, what is
listed for its value. -/
theorem filter_flatMap {γ : Type*} (m : OrderedMap κ α) (f : α → List γ) (p : γ → Bool)
    (h : ∀ k' a, m.get k' = some a → ∀ c ∈ f a, (p c = true ↔ k' = k)) :
    (m.values.flatMap f).filter p = (m.get k).elim [] f := by
  obtain ⟨es, hnd⟩ := m
  simp only [values, get] at h ⊢
  induction es with
  | nil => rfl
  | cons e es ih =>
    obtain ⟨hnot, hnd'⟩ := List.nodup_cons.mp hnd
    have he : ∀ c ∈ f e.2, (p c = true ↔ e.1 = k) := h e.1 e.2 (if_pos rfl)
    have hes : ∀ k' a, find k' es = some a → ∀ c ∈ f a, (p c = true ↔ k' = k) := by
      intro k' a hf
      refine h k' a ?_
      have hne : e.1 ≠ k' := by
        rintro rfl
        exact hnot (List.mem_map.mpr ⟨_, (find_eq_some hnd').mp hf, rfl⟩)
      rw [find, if_neg hne]
      exact hf
    have hrest := ih hnd' hes
    rw [List.map_cons, List.flatMap_cons, List.filter_append, hrest, find]
    by_cases hk : e.1 = k
    · have hnone : find k es = none := by
        cases hf : find k es with
        | none => rfl
        | some a => exact absurd (List.mem_map.mpr ⟨_, (find_eq_some hnd').mp hf, hk.symm⟩) hnot
      rw [if_pos hk, hnone, List.filter_eq_self.mpr fun c hc => (he c hc).mpr hk]
      exact List.append_nil _
    · rw [if_neg hk, List.filter_eq_nil_iff.mpr fun c hc hp => hk ((he c hc).mp hp)]
      rfl

/-- A map whose keys are all among another's has no more of them. -/
theorem size_le {m : OrderedMap κ α} {n : OrderedMap κ β}
    (h : ∀ k, (m.get k).isSome → (n.get k).isSome) : m.size ≤ n.size := by
  have hsub : m.keys ⊆ n.keys := fun k hk => mem_keys.mpr (h k (mem_keys.mp hk))
  have hle := (List.Nodup.subperm m.nodup hsub).length_le
  simpa [keys, size] using hle

/-- And fewer, when the other has a key it lacks. -/
theorem size_lt {m : OrderedMap κ α} {n : OrderedMap κ β}
    (h : ∀ k, (m.get k).isSome → (n.get k).isSome) (hnone : m.get k = none)
    (hsome : (n.get k).isSome) : m.size < n.size := by
  have hsub : k :: m.keys ⊆ n.keys :=
    List.cons_subset.mpr ⟨mem_keys.mpr hsome, fun k hk => mem_keys.mpr (h k (mem_keys.mp hk))⟩
  have hnd : (k :: m.keys).Nodup :=
    List.nodup_cons.mpr ⟨by simp [mem_keys, hnone], m.nodup⟩
  have hle := (List.Nodup.subperm hnd hsub).length_le
  simp only [keys, List.length_cons, List.length_map] at hle
  exact hle

end OrderedMap

end Opensteer
