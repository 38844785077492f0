import Mathlib.Data.List.Basic
import Mathlib.Data.List.Forall2
import Mathlib.Data.List.Infix

/-!
# Frames from a stream that comes in chunks

How frames stand in a stream is what is found at its start: a frame and what is behind it, a refusal, or
nothing yet, of which the first two do not change as more comes (`Framing`). All the frames of a text are
drained in order (`drain`), those of a text that more comes to before those behind them (`drain_append`). A
reader that drains what is left and each chunk gives the frames of the whole, if none of it is refused
(`reads_of_whole`); if it is, those of the chunks before the one that ends in the refusal (`reads_of_refused`).
-/

namespace Opensteer

structure Framing (α β ε : Type) where
  next : List α → Option (Except ε (β × List α))
  shorter {l r : List α} {b : β} : next l = some (.ok (b, r)) → r.length < l.length
  next_append {l : List α} {found : Except ε (β × List α)} (m : List α) : next l = some found →
    next (l ++ m) = some (found.map fun f => (f.1, f.2 ++ m))

/-- Frames, what is behind them, and a refusal of that. -/
structure Drained (α β ε : Type) where
  frames : List β
  rest : List α
  refusal : Option ε
deriving DecidableEq

namespace Framing

variable {α β ε : Type} (F : Framing α β ε) {l m : List α} {b : β} {r : List α} {e : ε}

def drain (l : List α) : Drained α β ε :=
  match _h : F.next l with
  | none => ⟨[], l, none⟩
  | some (.error e) => ⟨[], l, some e⟩
  | some (.ok (b, r)) => { drain r with frames := b :: (drain r).frames }
termination_by l.length
decreasing_by all_goals exact F.shorter _h

theorem drain_of_none (h : F.next l = none) : F.drain l = ⟨[], l, none⟩ := by
  rw [drain]
  split
  · rfl
  · rename_i h'
    cases h.symm.trans h'
  · rename_i h'
    cases h.symm.trans h'

theorem drain_of_error (h : F.next l = some (.error e)) : F.drain l = ⟨[], l, some e⟩ := by
  rw [drain]
  split
  · rename_i h'
    cases h.symm.trans h'
  · rename_i h'
    cases h.symm.trans h'
    rfl
  · rename_i h'
    cases h.symm.trans h'

theorem drain_of_ok (h : F.next l = some (.ok (b, r))) :
    F.drain l = ⟨b :: (F.drain r).frames, (F.drain r).rest, (F.drain r).refusal⟩ := by
  rw [drain]
  split
  · rename_i h'
    cases h.symm.trans h'
  · rename_i h'
    cases h.symm.trans h'
  · rename_i h'
    cases h.symm.trans h'
    rfl

/-- What is drained, by the frame at the start. -/
theorem drain_cases {motive : List α → Drained α β ε → Prop} (none : ∀ l, F.next l = none → motive l ⟨[], l, none⟩)
    (error : ∀ l e, F.next l = some (.error e) → motive l ⟨[], l, some e⟩)
    (ok : ∀ l b r, F.next l = some (.ok (b, r)) → motive r (F.drain r) →
      motive l ⟨b :: (F.drain r).frames, (F.drain r).rest, (F.drain r).refusal⟩) (l : List α) : motive l (F.drain l) := by
  induction hlength : l.length using Nat.strongRecOn generalizing l with
  | _ n ih =>
    cases h : F.next l with
    | none =>
      rw [F.drain_of_none h]
      exact none l h
    | some found =>
      cases found with
      | error e =>
        rw [F.drain_of_error h]
        exact error l e h
      | ok f =>
        obtain ⟨b, r⟩ := f
        rw [F.drain_of_ok h]
        exact ok l b r h (ih _ (hlength ▸ F.shorter h) r rfl)

/-- Where nothing is refused what is left is no frame, and where something is it does not change. -/
theorem next_rest (l : List α) :
    F.next (F.drain l).rest = (F.drain l).refusal.map Except.error := by
  refine F.drain_cases (motive := fun _ d => F.next d.rest = d.refusal.map Except.error) ?_ ?_ ?_ l
  · exact fun l h => h
  · exact fun l e h => h
  · exact fun l b r h ih => ih

theorem drain_append (l m : List α) : F.drain (l ++ m) =
    ⟨(F.drain l).frames ++ (F.drain ((F.drain l).rest ++ m)).frames, (F.drain ((F.drain l).rest ++ m)).rest,
      (F.drain ((F.drain l).rest ++ m)).refusal⟩ := by
  refine F.drain_cases (motive := fun l d => F.drain (l ++ m) = ⟨d.frames ++ (F.drain (d.rest ++ m)).frames,
    (F.drain (d.rest ++ m)).rest, (F.drain (d.rest ++ m)).refusal⟩) ?_ ?_ ?_ l
  · exact fun l _ => rfl
  · exact fun l e _ => rfl
  · intro l b r h ih
    have hnext : F.next (l ++ m) = some (.ok (b, r ++ m)) := F.next_append m h
    rw [F.drain_of_ok hnext, ih]
    rfl

/-- What is refused stays refused. -/
theorem refusal_append (h : (F.drain l).refusal = some e) (m : List α) :
    F.drain (l ++ m) = ⟨(F.drain l).frames, (F.drain l).rest ++ m, some e⟩ := by
  have hnext : F.next ((F.drain l).rest ++ m) = some (.error e) := by
    have hrest := F.next_rest l
    rw [h] at hrest
    exact F.next_append m hrest
  rw [F.drain_append, F.drain_of_error hnext, List.append_nil]

/-- Without a frame nothing is gone over. -/
theorem rest_of_frames_nil (h : (F.drain l).frames = []) : (F.drain l).rest = l := by
  revert h
  refine F.drain_cases (motive := fun l d => d.frames = [] → d.rest = l) ?_ ?_ ?_ l
  · exact fun l _ _ => rfl
  · exact fun l e _ _ => rfl
  · exact fun l b r _ _ h => (nomatch h)

/-- Frames stand in a stream one behind the other. -/
theorem drain_flatten {frames : List (List α)} {bodies : List β}
    (h : List.Forall₂ (fun frame body => ∀ m, F.next (frame ++ m) = some (.ok (body, m))) frames bodies) (m : List α) :
    F.drain (frames.flatten ++ m) = ⟨bodies ++ (F.drain m).frames, (F.drain m).rest, (F.drain m).refusal⟩ := by
  induction h with
  | nil => rfl
  | cons hframe _ ih =>
    rw [List.flatten_cons, List.append_assoc, F.drain_of_ok (hframe _), ih]
    rfl

/-! ## Readers -/

/-- What a reader gives for chunks, from what it holds, until one of them is refused: the frames of a chunk
that is refused are not given. -/
def reads : List α → List (List α) → Drained α β ε
  | held, [] => ⟨[], held, none⟩
  | held, chunk :: chunks =>
    let d := F.drain (held ++ chunk)
    match d.refusal with
    | none => { reads d.rest chunks with frames := d.frames ++ (reads d.rest chunks).frames }
    | some e => ⟨[], d.rest, some e⟩

/-- Where the whole is not refused the chunks do not matter. -/
theorem reads_of_whole {held : List α} {chunks : List (List α)} (hheld : F.next held = none)
    (h : (F.drain (held ++ chunks.flatten)).refusal = none) : F.reads held chunks = F.drain (held ++ chunks.flatten) := by
  induction chunks generalizing held with
  | nil =>
    rw [List.flatten_nil, List.append_nil, F.drain_of_none hheld]
    rfl
  | cons chunk chunks ih =>
    rw [List.flatten_cons, ← List.append_assoc] at h ⊢
    cases hrefusal : (F.drain (held ++ chunk)).refusal with
    | some e =>
      rw [F.refusal_append hrefusal] at h
      cases h
    | none =>
      have hrest := F.next_rest (held ++ chunk)
      rw [hrefusal] at hrest
      rw [F.drain_append] at h ⊢
      rw [reads]
      dsimp only
      rw [hrefusal]
      dsimp only
      rw [ih hrest h]

/-- Where it is refused the frames are given of the chunks before the one in which the refusal is. -/
theorem reads_of_refused {held chunk : List α} {before after : List (List α)} (hheld : F.next held = none)
    (hbefore : (F.drain (held ++ before.flatten)).refusal = none)
    (hchunk : (F.drain (held ++ before.flatten ++ chunk)).refusal = some e) :
    F.reads held (before ++ chunk :: after) =
      ⟨(F.drain (held ++ before.flatten)).frames, (F.drain (held ++ before.flatten ++ chunk)).rest, some e⟩ := by
  induction before generalizing held with
  | nil =>
    rw [List.flatten_nil, List.append_nil] at hbefore hchunk ⊢
    rw [List.nil_append, reads]
    dsimp only
    rw [hchunk, F.drain_of_none hheld]
  | cons c before ih =>
    rw [List.flatten_cons, ← List.append_assoc] at hbefore hchunk ⊢
    cases hrefusal : (F.drain (held ++ c)).refusal with
    | some e =>
      rw [F.refusal_append hrefusal] at hbefore
      cases hbefore
    | none =>
      have hrest := F.next_rest (held ++ c)
      rw [hrefusal] at hrest
      rw [List.append_assoc, F.drain_append] at hchunk
      rw [F.drain_append] at hbefore
      rw [List.cons_append, reads]
      dsimp only
      rw [hrefusal]
      dsimp only
      rw [← List.append_assoc] at hchunk
      rw [ih hrest hbefore hchunk, F.drain_append (held ++ c) before.flatten, List.append_assoc (held ++ c),
        F.drain_append (held ++ c) (before.flatten ++ chunk), ← List.append_assoc]

end Framing

/-! ## Where a stream is cut -/

namespace Cut

variable {α : Type} {chunks l m : List (List α)} {n : Nat}

theorem length_flatten_of_prefix (h : l <+: m) : l.flatten.length ≤ m.flatten.length := by
  obtain ⟨more, rfl⟩ := h
  rw [List.flatten_append, List.length_append]
  exact Nat.le_add_right _ _

/-- The chunk in which a place of the stream is. -/
theorem exists_chunk (hpos : 0 < n) (h : n ≤ chunks.flatten.length) : ∃ before chunk after,
    chunks = before ++ chunk :: after ∧ before.flatten.length < n ∧ n ≤ (before ++ [chunk]).flatten.length := by
  induction chunks using List.reverseRecOn with
  | nil => exact absurd h (Nat.not_le_of_lt hpos)
  | append_singleton before chunk ih =>
    by_cases hbefore : n ≤ before.flatten.length
    · obtain ⟨b, c, a, rfl, hlt, hle⟩ := ih hbefore
      exact ⟨b, c, a ++ [chunk], by simp, hlt, hle⟩
    · exact ⟨before, chunk, [], rfl, Nat.lt_of_not_le hbefore, h⟩

/-- It is behind the chunks that end before the place. -/
theorem prefix_of_length_lt {before after before' after' : List (List α)} {chunk chunk' : List α}
    (h : before ++ chunk :: after = before' ++ chunk' :: after')
    (hlt : before'.flatten.length < before.flatten.length) : before' ++ [chunk'] <+: before := by
  have hshorter : before'.length < before.length := by
    by_contra hnot
    have hprefix : before <+: before' :=
      List.prefix_of_prefix_length_le (h ▸ List.prefix_append before _) (List.prefix_append before' _) (by omega)
    have := length_flatten_of_prefix hprefix
    omega
  refine (@List.prefix_of_prefix_length_le _ _ _ (before' ++ chunk' :: after')) ⟨after', by simp⟩
    (h ▸ List.prefix_append before _) ?_
  rw [List.length_append, List.length_singleton]
  omega

end Cut

end Opensteer
