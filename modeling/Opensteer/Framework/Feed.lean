import Mathlib.Data.List.Basic

/-!
# Feeds of a growing text

A sender keeps readers at a text that grows by appends, which name the offset
they continue, and by replaces, which state what is known of it whole. A reader
keeps its length and a summary (`View`), such as its newest part. An append that
names no offset the reader is at is dropped (`read`).

`Leads T v ops w` is that reading `ops` takes a reader from `v` to `w`, and to
views of beginnings of `T` all the way: what a sender has to keep of what it
has not sent yet. It holds however far the text has grown since (`Leads.extend`),
and reading the first of `ops` leaves the rest leading on (`Leads.read`). A
relay that reads a feed passes on what takes its own readers along (`pass`).
-/

namespace Opensteer.Feed

variable {α β : Type*}

/-- A summary of texts that an append carries on, for the texts it fits. -/
structure Summary (α β : Type*) where
  empty : β
  push : β → List α → β
  Fits : List α → Prop
  fits_of_append : ∀ A B, Fits (A ++ B) → Fits A
  push_push : ∀ A B, Fits (A ++ B) → push (push empty A) B = push empty (A ++ B)

/-- What a reader keeps of a text. -/
structure View (β : Type*) where
  length : Nat
  summary : β
deriving DecidableEq, Repr

inductive Op (α β : Type*)
  | append (at_ : Nat) (xs : List α)
  | replace (length : Nat) (summary : β)

variable (S : Summary α β)

/-- An append the view does not reach, or is past, is dropped. -/
def View.append (v : View β) (at_ : Nat) (xs : List α) : View β :=
  if at_ + xs.length ≤ v.length ∨ v.length < at_ then v
  else ⟨at_ + xs.length, S.push v.summary (xs.drop (v.length - at_))⟩

/-- The view an append continues: one at offset 0 starts a text. -/
def open_ (v : Option (View β)) (at_ : Nat) : Option (View β) :=
  v.or (if at_ = 0 then some ⟨0, S.empty⟩ else none)

def read (v : Option (View β)) : Op α β → Option (View β)
  | .replace length summary => some ⟨length, summary⟩
  | .append at_ xs => (open_ S v at_).map fun v => v.append S at_ xs

/-- The view of a text's first `n` members; there is none of no member. -/
def viewAt (T : List α) (n : Nat) : Option (View β) :=
  if n = 0 then none else some ⟨n, S.push S.empty (T.take n)⟩

/-- Reading the operations leads from one view to another, by views of
beginnings of `T`. -/
inductive Leads (T : List α) : Option (View β) → List (Op α β) → Option (View β) → Prop
  | nil {v} : Leads T v [] v
  /-- An append to a text that is not open goes unread. -/
  | stray {at_ xs ops w} : 0 < at_ → Leads T none ops w → Leads T none (.append at_ xs :: ops) w
  | append {v m xs ops w} : v = viewAt S T m → xs ≠ [] → m + xs.length ≤ T.length →
      T.take (m + xs.length) = T.take m ++ xs → Leads T (viewAt S T (m + xs.length)) ops w →
      Leads T v (.append m xs :: ops) w
  | replace {v n b ops w} : 0 < n → n ≤ T.length → b = S.push S.empty (T.take n) →
      Leads T (viewAt S T n) ops w → Leads T v (.replace n b :: ops) w

variable {S} {T : List α} {u v w : Option (View β)} {op : Op α β} {ops : List (Op α β)}

theorem viewAt_append (X : List α) {n : Nat} (hn : n ≤ T.length) :
    viewAt S (T ++ X) n = viewAt S T n := by
  simp only [viewAt, List.take_append_of_le_length hn]

/-- An append at the reader's offset takes it on. -/
theorem read_append (hfits : S.Fits T) {m : Nat} {xs : List α} (hxs : xs ≠ [])
    (htake : T.take (m + xs.length) = T.take m ++ xs) :
    read S (viewAt S T m) (.append m xs) = viewAt S T (m + xs.length) := by
  have hpos : 0 < xs.length := List.length_pos_iff.mpr hxs
  have hprefix : S.Fits (T.take m ++ xs) := by
    rw [← htake]
    exact S.fits_of_append _ (T.drop (m + xs.length)) (by rwa [List.take_append_drop])
  have hnew : viewAt S T (m + xs.length) =
      some ⟨m + xs.length, S.push (S.push S.empty (T.take m)) xs⟩ := by
    rw [viewAt, if_neg (by omega), S.push_push _ _ hprefix, htake]
  have happend : ∀ v : View β, v.length = m → v.append S m xs =
      ⟨m + xs.length, S.push v.summary xs⟩ := by
    intro v hv
    rw [View.append, if_neg (by omega), hv, Nat.sub_self, List.drop_zero]
  rw [hnew]
  by_cases hm : m = 0
  · subst hm
    have hfirst := S.push_push (T.take 0) xs hprefix
    rw [List.take_zero, List.nil_append] at hfirst
    simp only [viewAt, read, open_, if_true, Option.none_or, Option.map_some]
    rw [happend _ rfl, List.take_zero, hfirst]
  · simp only [viewAt, if_neg hm, read, open_, Option.some_or, Option.map_some]
    rw [happend _ rfl]

theorem read_stray {at_ : Nat} (h : 0 < at_) (xs : List α) :
    read S none (.append at_ xs) = none := by
  simp only [read, open_, if_neg (by omega : ¬ at_ = 0), Option.none_or, Option.map_none]

theorem read_replace {n : Nat} (hn : 0 < n) :
    read S v (.replace n (S.push S.empty (T.take n)) : Op α β) = viewAt S T n := by
  rw [read, viewAt, if_neg (by omega)]

namespace Leads

/-- However far the text has grown since. -/
theorem extend (X : List α) (h : Leads S T v ops w) : Leads S (T ++ X) v ops w := by
  induction h with
  | nil => exact .nil
  | stray hat _ ih => exact .stray hat ih
  | @append v m xs ops w hv hxs hlen htake _ ih =>
    refine .append (hv.trans (viewAt_append X (by omega)).symm) hxs
      (by rw [List.length_append]; omega) ?_ ?_
    · rw [List.take_append_of_le_length hlen, List.take_append_of_le_length (by omega), htake]
    · rw [viewAt_append X hlen]
      exact ih
  | @replace v n b ops w hpos hn hb _ ih =>
    refine .replace hpos (by rw [List.length_append]; omega) ?_ ?_
    · rw [List.take_append_of_le_length hn, hb]
    · rw [viewAt_append X hn]
      exact ih

theorem trans {ops' : List (Op α β)} (h : Leads S T u ops v) (h' : Leads S T v ops' w) :
    Leads S T u (ops ++ ops') w := by
  induction h with
  | nil => exact h'
  | stray hat _ ih => exact .stray hat (ih h')
  | append hv hxs hlen htake _ ih => exact .append hv hxs hlen htake (ih h')
  | replace hpos hn hb _ ih => exact .replace hpos hn hb (ih h')

/-- Reading the first operation leaves the rest leading on. -/
theorem read (hfits : S.Fits T) (h : Leads S T v (op :: ops) w) :
    Leads S T (Feed.read S v op) ops w := by
  cases h with
  | stray hat hrest => rw [read_stray hat]; exact hrest
  | append hv hxs _ htake hrest => rw [hv, read_append hfits hxs htake]; exact hrest
  | replace hpos _ hb hrest => rw [hb, read_replace hpos]; exact hrest

/-- What reading the first operation gives is a view of a beginning of the text. -/
theorem isView_read (hfits : S.Fits T) (h : Leads S T v (op :: ops) w) :
    ∃ n ≤ T.length, Feed.read S v op = viewAt S T n := by
  cases h with
  | stray hat _ => exact ⟨0, Nat.zero_le _, read_stray hat _⟩
  | append hv hxs hlen htake _ => exact ⟨_, hlen, by rw [hv, read_append hfits hxs htake]⟩
  | replace hpos hn hb _ => exact ⟨_, hn, by rw [hb, read_replace hpos]⟩

/-- A reader with nothing left to read is where the operations lead. -/
theorem eq_of_nil (h : Leads S T v [] w) : v = w := by
  cases h
  rfl

/-- Of an empty text there is nothing to read but appends that go unread. -/
theorem eq_none (h : Leads S T v ops w) (hT : T = []) (hv : v = none) : w = none := by
  subst hT
  induction h with
  | nil => exact hv
  | stray _ _ ih => exact ih rfl
  | append _ hxs hlen _ _ =>
    simp only [List.length_nil] at hlen
    exact absurd (List.eq_nil_of_length_eq_zero (by omega)) hxs
  | replace hpos hn _ _ =>
    simp only [List.length_nil] at hn
    omega

/-- Appends to a text that is not open lead nowhere. -/
theorem strays {ops : List (Op α β)} (h : ∀ op ∈ ops, ∃ at_ xs, op = .append at_ xs ∧ 0 < at_) :
    Leads S T none ops none := by
  induction ops with
  | nil => exact .nil
  | cons op ops ih =>
    obtain ⟨⟨at_, xs, rfl, hat⟩, hrest⟩ := List.forall_mem_cons.mp h
    exact .stray hat (ih hrest)

/-- Appends of what follows the reader's offset, cut anywhere. -/
theorem append_one {m : Nat} {xs : List α} (hxs : xs ≠ []) (hrest : xs <+: T.drop m)
    (hm : m ≤ T.length) : Leads S T (viewAt S T m) [.append m xs] (viewAt S T (m + xs.length)) := by
  obtain ⟨ys, hys⟩ := hrest
  have hT : T = T.take m ++ (xs ++ ys) := by rw [hys, List.take_append_drop]
  have hlen : m + xs.length ≤ T.length := by
    have := congrArg List.length hys
    simp only [List.length_append, List.length_drop] at this
    omega
  refine .append rfl hxs hlen ?_ .nil
  rw [List.take_add, ← hys, List.take_left]

end Leads

/-! ## Relays -/

variable (S)

/-- What a relay with the view passes on of an operation: a replace, or what an
append adds to the view. -/
def pass (v : Option (View β)) : Op α β → Option (Op α β)
  | .replace length summary => some (.replace length summary)
  | .append at_ xs =>
    (open_ S v at_).bind fun v =>
      if at_ + xs.length ≤ v.length ∨ v.length < at_ then none
      else some (.append v.length (xs.drop (v.length - at_)))

/-- How a reader reads who keeps the longer of two texts, and opens one only with
something to read. -/
def readOn (v : Option (View β)) : Op α β → Option (View β)
  | .replace length summary =>
    if v.any fun v => length < v.length then v else some ⟨length, summary⟩
  | .append at_ xs =>
    match open_ S v at_ with
    | none => v
    | some w => if at_ + xs.length ≤ w.length ∨ w.length < at_ then v else some (w.append S at_ xs)

/-- The append is of a text the reader lacks the beginning of. -/
def gapped (v : Option (View β)) : Op α β → Bool
  | .replace _ _ => false
  | .append at_ xs =>
    match open_ S v at_ with
    | none => true
    | some w => w.length < at_ + xs.length && w.length < at_

/-- The operation has something to read, and takes no text back. -/
def Admissible (v : Option (View β)) : Op α β → Prop
  | .replace length _ => ∀ w ∈ v, w.length ≤ length
  | .append _ xs => xs ≠ []

/-- No operation is of a text the reader lacks the beginning of. -/
def NoGaps : Option (View β) → List (Op α β) → Prop
  | _, [] => True
  | v, op :: ops => gapped S v op = false ∧ NoGaps (readOn S v op) ops

variable {S}

/-- What a relay passes on takes a reader with its view along. -/
theorem readOn_pass (h : Admissible v op) :
    (pass S v op).elim v (readOn S v) = read S v op ∧
      (pass S v op).elim true (fun op => !gapped S v op) = true := by
  cases op with
  | replace length summary =>
    have hkeep : (v.any fun v => length < v.length) = false := by
      cases v with
      | none => rfl
      | some w =>
        have := h w rfl
        simp only [Option.any_some, decide_eq_false_iff_not]
        omega
    simp only [pass, Option.elim_some, readOn, hkeep, Bool.false_eq_true, if_false, read, gapped,
      Bool.not_false, and_self]
  | append at_ xs =>
    have hpos : 0 < xs.length := List.length_pos_iff.mpr h
    cases hopen : open_ S v at_ with
    | none =>
      have hv : v = none := by
        unfold open_ at hopen
        cases v with
        | none => rfl
        | some w => cases hopen
      simp only [pass, hopen, Option.bind_none, Option.elim_none, read, Option.map_none, and_true]
      exact hv
    | some w =>
      by_cases hdrop : at_ + xs.length ≤ w.length ∨ w.length < at_
      · have hv : v = some w := by
          unfold open_ at hopen
          cases v with
          | some w' => exact hopen
          | none =>
            simp only [Option.none_or] at hopen
            split at hopen
            · obtain rfl := Option.some.inj hopen
              simp only at hdrop
              omega
            · cases hopen
        simp only [pass, hopen, Option.bind_some, if_pos hdrop, Option.elim_none, read,
          Option.map_some, View.append, and_true]
        exact hv
      · have hopen' : open_ S v w.length = some w := by
          unfold open_ at hopen ⊢
          cases v with
          | some w' =>
            obtain rfl : w' = w := Option.some.inj hopen
            rfl
          | none =>
            simp only [Option.none_or] at hopen ⊢
            split at hopen
            · obtain rfl := Option.some.inj hopen
              rfl
            · cases hopen
        have hlen : w.length + (xs.drop (w.length - at_)).length = at_ + xs.length := by
          rw [List.length_drop]
          omega
        have hnew : ¬ (w.length + (xs.drop (w.length - at_)).length ≤ w.length ∨
            w.length < w.length) := by omega
        simp only [pass, hopen, Option.bind_some, if_neg hdrop, Option.elim_some, readOn, hopen',
          if_neg hnew, read, Option.map_some, gapped, View.append, Nat.sub_self, List.drop_zero]
        rw [hlen]
        simp

end Opensteer.Feed
