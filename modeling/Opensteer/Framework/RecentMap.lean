import Opensteer.Framework.OrderedMap

/-!
# Maps of the recent

A map in insertion order of at most so many keys: when a key is set and there are more, the first goes
(`setRecent`). Where the keys are in the order of a log of the keys that were set (`keys_setRecent`), a key stays
while the log has grown by no more than the limit since it was first there (`get_setRecent_of_recent`).
-/

namespace Opensteer.OrderedMap

variable {κ α : Type*} [DecidableEq κ] {m : OrderedMap κ α} {k k' : κ} {a b : α} {limit : Nat} {log pre post : List κ}

/-- The map without its first key. -/
def dropFirst (m : OrderedMap κ α) : OrderedMap κ α :=
  match m.entries with
  | [] => m
  | e :: _ => m.delete e.1

/-- The map with the key set, without its first key if there are too many. -/
def setRecent (limit : Nat) (m : OrderedMap κ α) (k : κ) (a : α) : OrderedMap κ α :=
  if limit < (m.set k a).size then (m.set k a).dropFirst else m.set k a

theorem keys_delete (m : OrderedMap κ α) (k : κ) : (m.delete k).keys.Sublist m.keys := (m.entries_delete k).map Prod.fst

theorem keys_dropFirst (m : OrderedMap κ α) : m.dropFirst.keys.Sublist m.keys := by
  unfold dropFirst
  split
  · exact .refl _
  · exact m.keys_delete _

theorem get_dropFirst_of_get (h : m.dropFirst.get k = some a) : m.get k = some a := by
  unfold dropFirst at h
  split at h
  · exact h
  · rw [get_delete] at h
    split at h
    · cases h
    · exact h

theorem get_setRecent_of_get (h : (m.setRecent limit k a).get k' = some b) : (m.set k a).get k' = some b := by
  unfold setRecent at h
  split at h
  · exact get_dropFirst_of_get h
  · exact h

theorem keys_set_eq (m : OrderedMap κ α) : (m.set k a).keys = m.keys ++ if k ∈ m.keys then [] else [k] :=
  keys_put k a m.entries

theorem keys_set_of_mem (h : k ∈ m.keys) : (m.set k a).keys = m.keys := by
  rw [keys_set_eq, if_pos h, List.append_nil]

theorem keys_set (h : m.keys.Sublist log) : (m.set k a).keys.Sublist (log ++ [k]) := by
  rw [keys_set_eq]
  refine h.append ?_
  split
  · exact List.nil_sublist _
  · exact .refl _

theorem keys_setRecent (h : m.keys.Sublist log) : (m.setRecent limit k a).keys.Sublist (log ++ [k]) := by
  unfold setRecent
  split
  · exact (keys_dropFirst _).trans (keys_set h)
  · exact keys_set h

omit [DecidableEq κ] in
theorem cons_sublist_of_notMem (h : (k :: log).Sublist (pre ++ post)) (hk : k ∉ pre) : (k :: log).Sublist post := by
  obtain ⟨l₁, l₂, heq, hpre, hpost⟩ := List.sublist_append_iff.mp h
  cases l₁ with
  | nil =>
    rw [List.nil_append] at heq
    exact heq ▸ hpost
  | cons k' l₁ =>
    obtain ⟨rfl, -⟩ := List.cons.inj heq
    exact absurd (hpre.subset List.mem_cons_self) hk

/-- A key that was not set before, and no more than the limit have been since, is not the one that goes. -/
theorem get_setRecent_of_recent (hkeys : (m.set k a).keys.Sublist (pre ++ post)) (hnew : k' ∉ pre)
    (hlimit : post.length ≤ limit) : (m.setRecent limit k a).get k' = (m.set k a).get k' := by
  unfold setRecent
  split
  · rename_i hsize
    unfold dropFirst
    split
    · rfl
    · rename_i e es hentries
      rw [get_delete, if_neg]
      rintro rfl
      have hcons : (m.set k a).keys = e.1 :: es.map Prod.fst := by
        rw [keys, hentries, List.map_cons]
      have hlength : (m.set k a).size = (m.set k a).keys.length := (List.length_map _).symm
      rw [hcons] at hkeys hlength
      have hle := (cons_sublist_of_notMem hkeys hnew).length_le
      omega
  · rfl

end Opensteer.OrderedMap
