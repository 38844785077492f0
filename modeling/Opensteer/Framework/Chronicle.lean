import Mathlib.Data.List.Induction

/-!
# Chronicles

A log that grows at its end, and what is said of each entry together with what came after it
(`Since`) or before it (`Before`). A rule holds of a longer log if it holds of the new entry, with
nothing after it and the whole log before it, and goes over from the old entries
(`Since.snoc`, `Before.snoc`).
-/

namespace Opensteer.Chronicle

variable {α : Type*} {log : List α} {a : α}

/-- Every entry, with what came after it, meets `Q`. -/
def Since (Q : α → List α → Prop) (log : List α) : Prop :=
  ∀ pre a post, log = pre ++ a :: post → Q a post

/-- Every entry, with what came before it, meets `Q`. -/
def Before (Q : List α → α → Prop) (log : List α) : Prop :=
  ∀ pre a post, log = pre ++ a :: post → Q pre a

theorem snoc_cases {b : α} {pre post : List α} (h : log ++ [a] = pre ++ b :: post) :
    b = a ∧ pre = log ∧ post = [] ∨ ∃ post', post = post' ++ [a] ∧ log = pre ++ b :: post' := by
  cases post using List.reverseRecOn with
  | nil =>
    obtain ⟨hlog, hab⟩ := List.append_inj' h rfl
    exact .inl ⟨(List.singleton_inj.mp hab).symm, hlog.symm, rfl⟩
  | append_singleton post c _ =>
    rw [← List.cons_append, ← List.append_assoc] at h
    obtain ⟨hlog, hab⟩ := List.append_inj' h rfl
    exact .inr ⟨post, by rw [List.singleton_inj.mp hab], hlog⟩

theorem Since.nil (Q : α → List α → Prop) : Since Q [] := by
  intro pre a post h
  simp at h

theorem Before.nil (Q : List α → α → Prop) : Before Q [] := by
  intro pre a post h
  simp at h

theorem Since.snoc {Q Q' : α → List α → Prop} (h : Since Q log) (ha : Q' a [])
    (hold : ∀ b post, Q b post → Q' b (post ++ [a])) : Since Q' (log ++ [a]) := by
  intro pre b post hlog
  obtain ⟨rfl, -, rfl⟩ | ⟨post', rfl, hold'⟩ := snoc_cases hlog
  · exact ha
  · exact hold b post' (h pre b post' hold')

theorem Since.mono {Q Q' : α → List α → Prop} (h : Since Q log)
    (hold : ∀ b post, Q b post → Q' b post) : Since Q' log :=
  fun pre b post hlog => hold b post (h pre b post hlog)

theorem Before.snoc {Q : List α → α → Prop} (h : Before Q log) (ha : Q log a) :
    Before Q (log ++ [a]) := by
  intro pre b post hlog
  obtain ⟨rfl, rfl, -⟩ | ⟨post', -, hold⟩ := snoc_cases hlog
  · exact ha
  · exact h pre b post' hold

theorem Before.mono {Q Q' : List α → α → Prop} (h : Before Q log)
    (hold : ∀ pre b, Q pre b → Q' pre b) : Before Q' log :=
  fun pre b post hlog => hold pre b (h pre b post hlog)

end Opensteer.Chronicle
