import Mathlib.Data.List.Basic
import Mathlib.Data.List.TakeWhile

/-!
# Markers in a text

A marker stands between an opening and a closing sign, with a body of a kind in which neither
does (`Syntax`). Nothing but a body goes on over a sign that no body has, so the markers of a text
are those of its lines (`markers_join`), and those of a text between others without signs are its
own (`markers_append_left`, `markers_append_right`). Escaping a text, each marker's signs are
replaced, and none is left (`markers_escape`).
-/

namespace Opensteer.Markers

variable {α : Type*} [DecidableEq α]

/-- What opens and closes a marker, and what may stand between. -/
structure Syntax (α : Type*) where
  opening : α
  closing : α
  isBody : List α → Bool
  opening_ne_closing : opening ≠ closing
  opening_notMem : ∀ body, isBody body → opening ∉ body

variable {s : Syntax α} {text xs ys rest body : List α} {u sign : α}

/-- The body of the marker that a text starts with. -/
def bodyAt (s : Syntax α) : List α → Option (List α)
  | [] => none
  | u :: us =>
    let body := us.takeWhile (· ≠ s.closing)
    if u = s.opening ∧ s.closing ∈ us ∧ s.isBody body then some body else none

/-- The bodies of the markers of a text, in their order. -/
def markers (s : Syntax α) : List α → List (List α)
  | [] => []
  | u :: us => (bodyAt s (u :: us)).toList ++ markers s us

theorem bodyAt_eq_some : bodyAt s (u :: xs) = some body ↔
    u = s.opening ∧ s.isBody body ∧ s.closing ∉ body ∧ ∃ rest, xs = body ++ s.closing :: rest := by
  have hstop : ∀ {body rest : List α}, s.closing ∉ body →
      (body ++ s.closing :: rest).takeWhile (· ≠ s.closing) = body := by
    intro body rest hnot
    rw [List.takeWhile_append_of_pos, List.takeWhile_cons_of_neg (by simp), List.append_nil]
    intro x hx
    simpa using fun heq : x = s.closing => hnot (heq ▸ hx)
  simp only [bodyAt]
  split
  · rename_i h
    obtain ⟨hu, hin, hbody⟩ := h
    rw [Option.some.injEq]
    constructor
    · rintro rfl
      have hnot : s.closing ∉ xs.takeWhile (· ≠ s.closing) := fun hmem => by
        simpa using List.mem_takeWhile_imp hmem
      refine ⟨hu, hbody, hnot, ?_⟩
      cases hdrop : xs.dropWhile (· ≠ s.closing) with
      | nil =>
        have hall := List.dropWhile_eq_nil_iff.mp hdrop s.closing hin
        simp at hall
      | cons x rest =>
        have hx := List.head?_dropWhile_not (· ≠ s.closing) xs
        rw [hdrop] at hx
        have heq : x = s.closing := by simpa using hx
        refine ⟨rest, ?_⟩
        rw [heq] at hdrop
        rw [← hdrop, List.takeWhile_append_dropWhile]
    · rintro ⟨-, -, hnot, rest, rfl⟩
      exact hstop hnot
  · rename_i h
    refine ⟨fun hnone => (nomatch hnone), ?_⟩
    rintro ⟨hu, hbody, hnot, rest, rfl⟩
    exact (h ⟨hu, by simp, by rwa [hstop hnot]⟩).elim

@[simp] theorem markers_nil : markers s [] = [] := rfl

/-- Where no marker starts. -/
theorem markers_cons_of_none (h : bodyAt s (u :: xs) = none) : markers s (u :: xs) = markers s xs := by
  rw [markers, h]
  rfl

theorem bodyAt_of_ne (h : u ≠ s.opening) : bodyAt s (u :: xs) = none := by
  rw [Option.eq_none_iff_forall_ne_some]
  intro body hbody
  exact h (bodyAt_eq_some.mp hbody).1

/-! ## Parts of a text -/

/-- Before a marker's opening sign may stand what has none. -/
theorem markers_append_right (h : s.opening ∉ xs) : markers s (xs ++ ys) = markers s ys := by
  induction xs with
  | nil => rfl
  | cons u xs ih =>
    obtain ⟨hu, hxs⟩ := List.ne_and_not_mem_of_not_mem_cons h
    rw [List.cons_append, markers_cons_of_none (bodyAt_of_ne (Ne.symm hu)), ih hxs]

omit [DecidableEq α] in
/-- What ends before a text goes on ends in its first part. -/
theorem exists_of_append {closing : α} (hnot : closing ∉ ys) (h : xs ++ ys = body ++ closing :: rest) :
    ∃ rest, xs = body ++ closing :: rest := by
  induction body generalizing xs with
  | nil =>
    cases xs with
    | nil => exact (hnot (by rw [show ys = _ from h]; exact List.mem_cons_self)).elim
    | cons x xs => exact ⟨xs, by rw [(List.cons.inj h).1]; rfl⟩
  | cons b body ih =>
    cases xs with
    | nil => exact (hnot (by rw [show ys = _ from h]; simp)).elim
    | cons x xs =>
      obtain ⟨rfl, htail⟩ := List.cons.inj h
      obtain ⟨rest, rfl⟩ := ih htail
      exact ⟨rest, rfl⟩

omit [DecidableEq α] in
/-- What has none of a sign and ends otherwise ends before it. -/
theorem exists_of_append_cons {closing : α} (hbody : sign ∉ body) (hne : sign ≠ closing)
    (h : xs ++ sign :: ys = body ++ closing :: rest) : ∃ rest, xs = body ++ closing :: rest := by
  induction body generalizing xs with
  | nil =>
    cases xs with
    | nil => exact (hne (List.cons.inj h).1).elim
    | cons x xs => exact ⟨xs, by rw [(List.cons.inj h).1]; rfl⟩
  | cons b body ih =>
    obtain ⟨hb, htailBody⟩ := List.ne_and_not_mem_of_not_mem_cons hbody
    cases xs with
    | nil => exact (hb (List.cons.inj h).1).elim
    | cons x xs =>
      obtain ⟨rfl, htail⟩ := List.cons.inj h
      obtain ⟨rest, rfl⟩ := ih htailBody htail
      exact ⟨rest, rfl⟩

/-- Where a text goes on without a closing sign, its markers are those before. -/
theorem markers_append_left (h : s.closing ∉ ys) : markers s (xs ++ ys) = markers s xs := by
  induction xs with
  | nil =>
    induction ys with
    | nil => rfl
    | cons y ys ih =>
      rw [List.nil_append, markers_cons_of_none, ← List.nil_append ys, ih (List.ne_and_not_mem_of_not_mem_cons h).2]
      rw [Option.eq_none_iff_forall_ne_some]
      intro body hbody
      obtain ⟨-, -, -, rest, rfl⟩ := bodyAt_eq_some.mp hbody
      simp at h
  | cons u xs ih =>
    have hat : bodyAt s (u :: (xs ++ ys)) = bodyAt s (u :: xs) := by
      ext body
      rw [bodyAt_eq_some, bodyAt_eq_some]
      refine and_congr_right fun _ => and_congr_right fun _ => and_congr_right fun _ => ⟨?_, ?_⟩
      · rintro ⟨rest, heq⟩
        exact exists_of_append h heq
      · rintro ⟨rest, rfl⟩
        exact ⟨rest ++ ys, by simp⟩
    rw [List.cons_append, markers, hat, ih, markers]

/-- A sign that no marker has. -/
structure Breaks (s : Syntax α) (sign : α) : Prop where
  ne_opening : sign ≠ s.opening
  ne_closing : sign ≠ s.closing
  notMem : ∀ body, s.isBody body → sign ∉ body

/-- No marker goes on over a sign that no marker has. -/
theorem markers_append (hsign : Breaks s sign) : markers s (xs ++ sign :: ys) = markers s xs ++ markers s ys := by
  induction xs with
  | nil => exact markers_cons_of_none (bodyAt_of_ne hsign.ne_opening)
  | cons u xs ih =>
    have hat : bodyAt s (u :: (xs ++ sign :: ys)) = bodyAt s (u :: xs) := by
      ext body
      rw [bodyAt_eq_some, bodyAt_eq_some]
      refine and_congr_right fun _ => and_congr_right fun hbody => and_congr_right fun _ => ⟨?_, ?_⟩
      · rintro ⟨rest, heq⟩
        exact exists_of_append_cons (hsign.notMem body hbody) hsign.ne_closing heq
      · rintro ⟨rest, rfl⟩
        exact ⟨rest ++ sign :: ys, by simp⟩
    rw [List.cons_append, markers, hat, ih, markers, List.append_assoc]

/-- The markers of lines are those of each. -/
theorem markers_join {more : List α} (hsign : Breaks s sign) (hmore : s.opening ∉ more) (lines : List (List α)) :
    markers s (List.intercalate (sign :: more) lines) = lines.flatMap (markers s) := by
  match lines with
  | [] => rfl
  | [line] => simp [List.intercalate]
  | line :: next :: lines =>
    have hcut : List.intercalate (sign :: more) (line :: next :: lines) =
        line ++ sign :: (more ++ List.intercalate (sign :: more) (next :: lines)) := by
      simp [List.intercalate, List.intersperse]
    rw [hcut, markers_append hsign, markers_append_right hmore, markers_join hsign hmore (next :: lines),
      ← List.flatMap_cons]

/-! ## Escaping -/

/-- Each marker's signs replaced by others. -/
def escape (s : Syntax α) (opening closing : α) : List α → List α
  | [] => []
  | u :: us =>
    match bodyAt s (u :: us) with
    | some body => opening :: body ++ closing :: escape s opening closing (us.drop (body.length + 1))
    | none => u :: escape s opening closing us
termination_by text => text.length
decreasing_by
  all_goals simp only [List.length_drop, List.length_cons]
  all_goals omega

variable {opening closing : α}

/-- Up to a sign that was not there before, the text is as before. -/
theorem exists_of_escape (hbody : opening ∉ body) (hne : opening ≠ s.closing)
    (h : escape s opening closing xs = body ++ s.closing :: rest) : ∃ rest, xs = body ++ s.closing :: rest := by
  induction body generalizing xs with
  | nil =>
    cases xs with
    | nil => simp [escape] at h
    | cons u us =>
      rw [escape] at h
      split at h
      · exact (hne (List.cons.inj h).1).elim
      · exact ⟨us, by rw [(List.cons.inj h).1]; rfl⟩
  | cons b body ih =>
    obtain ⟨hb, htailBody⟩ := List.ne_and_not_mem_of_not_mem_cons hbody
    cases xs with
    | nil => simp [escape] at h
    | cons u us =>
      rw [escape] at h
      split at h
      · exact (hb (List.cons.inj h).1).elim
      · obtain ⟨rfl, htail⟩ := List.cons.inj h
        obtain ⟨rest, rfl⟩ := ih htailBody htail
        exact ⟨rest, rfl⟩

/-- Escaped, a text has no markers. -/
theorem markers_escape (hopening : Breaks s opening) (hclosing : closing ≠ s.opening) (text : List α) :
    markers s (escape s opening closing text) = [] := by
  induction h : text.length using Nat.strongRecOn generalizing text with
  | _ n ih =>
    cases text with
    | nil => rw [escape, markers]
    | cons u us =>
      rw [escape]
      split
      · rename_i body hbody
        obtain ⟨-, hisBody, -, -⟩ := bodyAt_eq_some.mp hbody
        have hrest := ih _ (by rw [← h, List.length_drop, List.length_cons]; omega) (us.drop (body.length + 1)) rfl
        have hnot : s.opening ∉ opening :: body ++ [closing] := by
          simp only [List.cons_append, List.mem_cons, List.mem_append, List.not_mem_nil, or_false, not_or]
          exact ⟨hopening.ne_opening.symm, s.opening_notMem body hisBody, hclosing.symm⟩
        rw [List.append_cons, markers_append_right hnot, hrest]
      · rename_i hnone
        have hrest := ih _ (by rw [← h]; exact Nat.lt_succ_self _) us rfl
        rw [markers_cons_of_none ?_, hrest]
        rw [Option.eq_none_iff_forall_ne_some]
        intro body hbody
        obtain ⟨hu, hisBody, hnot, rest, heq⟩ := bodyAt_eq_some.mp hbody
        obtain ⟨before, hbefore⟩ := exists_of_escape (hopening.notMem body hisBody) hopening.ne_closing heq
        rw [bodyAt_eq_some.mpr ⟨hu, hisBody, hnot, before, hbefore⟩] at hnone
        cases hnone

end Opensteer.Markers
