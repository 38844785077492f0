import Mathlib.Data.List.Basic
import Mathlib.Data.List.Infix
import Mathlib.Data.List.Chain

/-!
# Relays of a stream

What one who relays a stream of frames hands to a receiver is decodable if it is frames of
the stream, each a key, or directly after the frame handed just before it in the stream,
and joining it (`Decodable`). It stays so as the stream goes on, and as a frame is handed that
is a key (`Decodable.key`), that follows the last (`Decodable.next`), or that comes next
in a replay of what is kept of the stream (`Decodable.replay`). Where the stream holds no
frame twice, what is handed from each key on is a piece of the stream (`Decodable.run`).
-/

namespace Opensteer

variable {α : Type*} {isKey : α → Prop} {joins : α → α → Prop} {stream handed kept : List α} {a b : α}

/-- From each key on, what is handed is the stream, without a gap. -/
structure Decodable (isKey : α → Prop) (joins : α → α → Prop) (stream handed : List α) : Prop where
  subset : handed ⊆ stream
  head : ∀ a ∈ handed.head?, isKey a
  follows : handed.IsChain fun a b => isKey b ∨ (joins a b ∧ [a, b] <:+: stream)

/-! ## Pieces of a stream -/

/-- The frame that comes follows the last. -/
theorem infix_of_getLast? (h : stream.getLast? = some a) (b : α) : [a, b] <:+: stream ++ [b] := by
  obtain ⟨init, rfl⟩ := List.getLast?_eq_some_iff.mp h
  exact ⟨init, [], by simp⟩

/-- Two that stand side by side in the end of a stream do so in the stream. -/
theorem infix_of_suffix {before after : List α} (h : before ++ b :: after <:+ stream)
    (ha : before.getLast? = some a) : [a, b] <:+: stream := by
  obtain ⟨init, rfl⟩ := List.getLast?_eq_some_iff.mp ha
  exact List.IsInfix.trans ⟨init, after, by simp⟩ h.isInfix

theorem suffix_append_singleton (h : kept <:+ stream) (b : α) : kept ++ [b] <:+ stream ++ [b] := by
  obtain ⟨init, rfl⟩ := h
  exact ⟨init, by simp⟩

/-- The last of what is kept is the last of the stream. -/
theorem getLast?_of_suffix (h : kept <:+ stream) (hkept : kept ≠ []) : stream.getLast? = kept.getLast? := by
  obtain ⟨init, rfl⟩ := h
  rw [List.getLast?_append, Option.or_of_isSome (List.getLast?_isSome.mpr hkept)]

namespace Decodable

theorem nil (isKey : α → Prop) (joins : α → α → Prop) (stream : List α) :
    Decodable isKey joins stream [] :=
  ⟨List.nil_subset stream, fun _ h => (nomatch h), .nil⟩

/-- The stream goes on. -/
theorem extend (h : Decodable isKey joins stream handed) (more : List α) :
    Decodable isKey joins (stream ++ more) handed :=
  ⟨fun _ ha => List.mem_append_left more (h.subset ha), h.head, h.follows.imp fun _ _ hab => hab.imp_right fun hin =>
    ⟨hin.1, hin.2.trans (List.prefix_append stream more).isInfix⟩⟩

theorem head_append (h : Decodable isKey joins stream handed) (hb : handed = [] → isKey b) :
    ∀ a ∈ (handed ++ [b]).head?, isKey a := by
  cases handed with
  | nil =>
    intro a ha
    obtain rfl := Option.some.inj ha
    exact hb rfl
  | cons c cs => exact h.head

theorem subset_append (h : Decodable isKey joins stream handed) (hb : b ∈ stream) : handed ++ [b] ⊆ stream :=
  List.append_subset.mpr ⟨h.subset, List.cons_subset.mpr ⟨hb, List.nil_subset stream⟩⟩

/-- A key is handed. -/
theorem key (h : Decodable isKey joins stream handed) (hmem : b ∈ stream) (hb : isKey b) :
    Decodable isKey joins stream (handed ++ [b]) :=
  ⟨h.subset_append hmem, h.head_append fun _ => hb, List.isChain_append.mpr
    ⟨h.follows, .singleton b, fun _ _ c hc => by
      obtain rfl := Option.some.inj hc
      exact .inl hb⟩⟩

/-- The frame after the last that was handed is handed. -/
theorem next (h : Decodable isKey joins stream handed) (hlast : handed.getLast? = some a)
    (hjoins : joins a b) (hab : [a, b] <:+: stream) : Decodable isKey joins stream (handed ++ [b]) := by
  refine ⟨h.subset_append (hab.subset (by simp)), h.head_append fun hnil => ?_, List.isChain_append.mpr ⟨h.follows, .singleton b, fun c hc d hd => ?_⟩⟩
  · rw [hnil] at hlast
    cases hlast
  · obtain rfl := Option.some.inj hd
    obtain rfl := Option.some.inj (hlast.symm.trans hc)
    exact .inr ⟨hjoins, hab⟩

/-- A replay of what is kept of the stream goes on: what was replayed of it so far is
`before`, and what is handed now is `more`. -/
theorem replay {before after more : List α} (h : Decodable isKey joins stream handed)
    (hkept : before ++ after <:+ stream) (hkey : ∀ a ∈ (before ++ after).head?, isKey a)
    (hjoins : ∀ a ∈ before ++ after, ∀ b ∈ before ++ after, joins a b)
    (hlast : ∀ a ∈ before.getLast?, handed.getLast? = some a) (hmore : more <+: after) :
    Decodable isKey joins stream (handed ++ more) ∧
      ∀ a ∈ (before ++ more).getLast?, (handed ++ more).getLast? = some a := by
  induction more generalizing handed before after with
  | nil => simpa using ⟨h, hlast⟩
  | cons b more ih =>
    obtain ⟨after, rfl⟩ := hmore
    have hstep : Decodable isKey joins stream (handed ++ [b]) := by
      cases hbefore : before.getLast? with
      | none =>
        rw [List.getLast?_eq_none_iff] at hbefore
        subst hbefore
        exact h.key (hkept.subset (by simp)) (hkey b rfl)
      | some a =>
        have ha : a ∈ before := List.mem_of_getLast? hbefore
        exact h.next (hlast a hbefore) (hjoins a (by simp [ha]) b (by simp)) (infix_of_suffix hkept hbefore)
    have hrest := @ih (handed ++ [b]) (before ++ [b]) (more ++ after) hstep
      (by simpa using hkept) (by simpa using hkey) (by simpa using hjoins)
      (by simp) ⟨after, rfl⟩
    simpa using hrest

/-- The frames handed from a key up to the next are a piece of a stream that holds no
frame twice. -/
theorem run (h : Decodable isKey joins stream handed) (hnodup : stream.Nodup) {run : List α}
    (hrun : run <:+: handed) (hkeys : ∀ a ∈ run.tail, ¬isKey a) : run <:+: stream := by
  induction run with
  | nil => exact List.nil_infix
  | cons a run ih =>
    cases run with
    | nil => exact (List.singleton_infix_iff a stream).mpr (h.subset (hrun.subset (by simp)))
    | cons b run =>
      obtain ⟨before, after, hsplit⟩ := ih ((List.suffix_cons a _).isInfix.trans hrun) fun c hc =>
        hkeys c (List.mem_cons_of_mem b hc)
      obtain ⟨before', after', hsplit'⟩ : [a, b] <:+: stream := by
        have hchain := h.follows.infix hrun
        rw [List.isChain_cons_cons] at hchain
        exact (hchain.1.resolve_left (hkeys b (by simp))).2
      -- `b` is in one place only, so the two pieces overlap there.
      have hsame : before ++ b :: (run ++ after) = (before' ++ [a]) ++ b :: after' := by
        rw [show before ++ b :: (run ++ after) = stream by simpa using hsplit,
          show before' ++ [a] ++ b :: after' = stream by simpa using hsplit']
      have hnodup' : (before ++ b :: (run ++ after)).Nodup := by
        rw [show before ++ b :: (run ++ after) = stream by simpa using hsplit]
        exact hnodup
      obtain ⟨hleft, hright⟩ : b ∉ before ∧ b ∉ run ++ after := by
        rw [List.nodup_append] at hnodup'
        exact ⟨fun hb => hnodup'.2.2 b hb b (by simp) rfl, (List.nodup_cons.mp hnodup'.2.1).1⟩
      obtain ⟨rfl, -, -⟩ := (List.append_cons_inj_of_notMem hleft hright).mp hsame
      exact ⟨before', after, by simpa using hsplit⟩

end Decodable

end Opensteer
