import Mathlib.Data.List.Forall2

/-!
# Errors

The errors the modelled code raises, with the data a caller can read of them
(`OpensteerError`, and JavaScript's `TypeError`).
-/

namespace Opensteer

/-- The `code` of an `OpensteerError`, as far as the modelled code raises it. -/
inductive ErrorCode
  | badRequest | conflict | forbidden | internal | timeout
deriving DecidableEq, Repr

structure OpensteerError where
  code : ErrorCode
  message : String
  retryable : Bool := false
  retryAfterMs : Option Nat := none
deriving DecidableEq, Repr

inductive HostError
  | opensteer (error : OpensteerError)
  | typeError (message : String)
deriving DecidableEq, Repr

/-- A check and what follows it succeed together. -/
theorem bind_eq_ok {ε α β : Type} {x : Except ε α} {f : α → Except ε β} {b : β} :
    (x >>= f) = .ok b ↔ ∃ a, x = .ok a ∧ f a = .ok b := by
  cases x with
  | ok a => exact ⟨fun h => ⟨a, rfl, h⟩, fun ⟨_, h, hf⟩ => Except.ok.inj h ▸ hf⟩
  | error e => exact ⟨(nomatch ·), fun ⟨_, h, _⟩ => nomatch h⟩

/-- A list is mapped where each of its elements is. -/
theorem mapM_eq_ok {ε α β : Type} {f : α → Except ε β} {xs : List α} {ys : List β} :
    xs.mapM f = .ok ys ↔ List.Forall₂ (fun x y => f x = .ok y) xs ys := by
  induction xs generalizing ys with
  | nil =>
    rw [List.mapM_nil, List.forall₂_nil_left_iff]
    exact ⟨fun h => (Except.ok.inj h).symm, fun h => h ▸ rfl⟩
  | cons x xs ih =>
    rw [List.mapM_cons, bind_eq_ok, List.forall₂_cons_left_iff]
    refine exists_congr fun y => ?_
    constructor
    · rintro ⟨hx, h⟩
      obtain ⟨rest, hxs, hys⟩ := bind_eq_ok.mp h
      exact ⟨rest, hx, ih.mp hxs, (Except.ok.inj hys).symm⟩
    · rintro ⟨rest, hx, hxs, rfl⟩
      exact ⟨hx, bind_eq_ok.mpr ⟨rest, ih.mpr hxs, rfl⟩⟩

theorem exists_mapM_eq_ok {ε α β : Type} {f : α → Except ε β} {xs : List α} (h : ∀ x ∈ xs, ∃ y, f x = .ok y) :
    ∃ ys, xs.mapM f = .ok ys := by
  induction xs with
  | nil => exact ⟨[], rfl⟩
  | cons x xs ih =>
    obtain ⟨y, hy⟩ := h x List.mem_cons_self
    obtain ⟨ys, hys⟩ := ih fun x' hx' => h x' (List.mem_cons_of_mem x hx')
    exact ⟨y :: ys, mapM_eq_ok.mpr (.cons hy (mapM_eq_ok.mp hys))⟩

theorem map_eq_ok {ε α β : Type} {x : Except ε α} {f : α → β} {b : β} :
    x.map f = .ok b ↔ ∃ a, x = .ok a ∧ f a = b := by
  cases x with
  | ok a => exact ⟨fun h => ⟨a, rfl, Except.ok.inj h⟩, fun ⟨_, h, hf⟩ => by rw [← hf, ← Except.ok.inj h]; rfl⟩
  | error e => exact ⟨(nomatch ·), fun ⟨_, h, _⟩ => nomatch h⟩

end Opensteer
