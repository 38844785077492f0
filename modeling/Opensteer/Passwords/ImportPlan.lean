import Mathlib.Data.Finset.Card
import Mathlib.Data.List.FinRange
import Mathlib.Data.List.Pairwise
import Mathlib.Data.List.Sort
import Mathlib.Data.String.Basic
import Mathlib.Logic.Function.Basic

/-!
# The plan of an import

`ImportPlan.swift`: how each row of a password export relates to the saved logins and to the other
rows. A string is compared as its UTF-8 bytes where the code compares bytes; origins are ASCII, so
they are strings. A row is told from the others by its place in the list of candidates, and a
dictionary keeps what was appended under a key in that order.

The rows with one key are gone through in three passes: against the saved items, against each
other, and by their passwords and seeds (`classifyGroup`). What comes of it is `Settled`, and
from this the theorems about the plan.
-/

namespace Opensteer.Passwords

abbrev Bytes := List UInt8

inductive TOTPAlgorithm
  | sha1
  | sha256
  | sha512
deriving DecidableEq, Repr

structure TOTPParameters where
  secret : Bytes
  algorithm : TOTPAlgorithm := .sha1
  digits : Int := 6
  period : Int := 30
deriving DecidableEq, Repr

structure ItemDraft where
  origins : List String
  loginURL : String
  username : Bytes
  password : Option Bytes
  totp : Option TOTPParameters := none
  label : Option String := none
deriving DecidableEq, Repr

/-- Its origins do not repeat (`validateLimits`). -/
structure ImportCandidate where
  origins : List String
  nodup : origins.Nodup
  loginURL : String
  username : Bytes
  password : Bytes
  totp : Option TOTPParameters
  label : Option String
  sourceRow : Int

def ImportCandidate.draft (c : ImportCandidate) : ItemDraft :=
  { origins := c.origins, loginURL := c.loginURL, username := c.username,
    password := some c.password, totp := c.totp, label := c.label }

/-- What the plan reads of a saved login. -/
structure Item where
  id : String
  origins : List String
  nodup : origins.Nodup
  username : Bytes
  password : Option Bytes
  totp : Option TOTPParameters

structure CredentialReplacement where
  itemID : String
  password : Bytes
  totp : Option TOTPParameters
deriving DecidableEq, Repr

/-- The changes a plan makes. -/
structure VaultChanges where
  add : List ItemDraft := []
  replace : List CredentialReplacement := []
deriving DecidableEq, Repr

namespace ImportPlan

inductive DuplicateSource
  | item (id : String)
  | sourceRow (row : Int)
deriving DecidableEq, Repr

inductive Classification
  | new
  | update (itemID : String)
  | duplicate (source : DuplicateSource)
  | conflict (existingItemID : Option String)
deriving DecidableEq, Repr

structure Entry where
  candidate : ImportCandidate
  classification : Classification
  group : Nat

inductive PlanError
  | conflictingSelection (rows : List Int)
  | duplicateSourceRow (row : Int)
deriving DecidableEq, Repr

structure Key where
  origins : List String
  username : Bytes
deriving DecidableEq, Repr

def Key.of (origins : List String) (username : Bytes) : Key :=
  { origins := origins.mergeSort (fun a b => a ≤ b), username }

def isSame (candidate : ImportCandidate) (item : Item) : Bool :=
  item.password = some candidate.password &&
    (candidate.totp.isNone || candidate.totp = item.totp)

section

variable (candidates : List ImportCandidate) (existing : List Item)

/-- The key of the row at a place. -/
def keyAt (i : Fin candidates.length) : Key :=
  .of candidates[i].origins candidates[i].username

/-- `existingByKey[key]`. -/
def matchesOf (key : Key) : List Item :=
  existing.filter fun item => Key.of item.origins item.username = key

def groupOrder : List Key :=
  ((List.finRange candidates.length).map (keyAt candidates)).foldl
    (fun order key => if key ∈ order then order else order ++ [key]) []

/-- `groups[key]`. -/
def membersOf (key : Key) : List (Fin candidates.length) :=
  (List.finRange candidates.length).filter fun i => keyAt candidates i = key

/-- What is written about the rows, and `distinct`. -/
structure Sorting (n : Nat) where
  classified : Fin n → Classification
  distinct : List (Fin n) := []

/-- The two rows have one password and one seed. -/
def sameRow (i j : Fin candidates.length) : Bool :=
  candidates[i].password = candidates[j].password && candidates[i].totp = candidates[j].totp

/-- One turn of the first loop over a group. -/
def sortMember (items : List Item) (s : Sorting candidates.length)
    (member : Fin candidates.length) : Sorting candidates.length :=
  match items.find? (isSame candidates[member]) with
  | some identical =>
    { s with
      classified := Function.update s.classified member (.duplicate (.item identical.id)) }
  | none =>
    match s.distinct.find? fun i => sameRow candidates i member with
    | some representative =>
      { s with
        classified := Function.update s.classified member
          (.duplicate (.sourceRow candidates[representative].sourceRow)) }
    | none => { s with distinct := s.distinct ++ [member] }

/-- The classification is written about each of the rows. -/
def writeAll {n : Nat} (classified : Fin n → Classification) (members : List (Fin n))
    (classification : Classification) : Fin n → Classification :=
  members.foldl (fun classified member => Function.update classified member classification)
    classified

/-- `seeds`. -/
def seedsOf (distinct : List (Fin candidates.length)) : List TOTPParameters :=
  distinct.foldl (fun seeds member =>
    match candidates[member].totp with
    | some seed => if seed ∈ seeds then seeds else seeds ++ [seed]
    | none => seeds) []

/-- The classification of the row that stands for a group that agrees. -/
def classifyRepresentative (items : List Item) (representative : Fin candidates.length) :
    Classification :=
  match items.find? (isSame candidates[representative]) with
  | some identical => .duplicate (.item identical.id)
  | none =>
    match items with
    | [item] => .update item.id
    | [] => .new
    | _ => .conflict none

/-- What comes after the first loop, with `distinct` as its first and the others. -/
def settle (items : List Item) (classified : Fin candidates.length → Classification)
    (first : Fin candidates.length) (others : List (Fin candidates.length)) :
    Fin candidates.length → Classification :=
  let distinct := first :: others
  let distinctPasswords := (distinct.map fun i => candidates[i].password).toFinset
  if 1 < distinctPasswords.card ∨ 1 < (seedsOf candidates distinct).length then
    let single := match items with
      | [item] => some item.id
      | _ => none
    writeAll classified distinct (.conflict single)
  else
    let representative :=
      (distinct.find? fun i => candidates[i].totp.isSome).getD first
    let classified := writeAll classified (distinct.filter fun i => i ≠ representative)
      (.duplicate (.sourceRow candidates[representative].sourceRow))
    Function.update classified representative
      (classifyRepresentative candidates items representative)

/-- One turn of the loop over the groups. -/
def classifyGroup (classified : Fin candidates.length → Classification) (key : Key) :
    Fin candidates.length → Classification :=
  let items := matchesOf existing key
  let sorted := (membersOf candidates key).foldl (sortMember candidates items) { classified }
  match sorted.distinct with
  | [] => sorted.classified
  | first :: others => settle candidates items sorted.classified first others

def classified : Fin candidates.length → Classification :=
  (groupOrder candidates).foldl (classifyGroup candidates existing) fun _ => .new

def groupOf (i : Fin candidates.length) : Nat :=
  (groupOrder candidates).idxOf (keyAt candidates i)

def entryAt (i : Fin candidates.length) : Entry :=
  { candidate := candidates[i], classification := classified candidates existing i,
    group := groupOf candidates i }

def entriesOf : List Entry := (List.finRange candidates.length).map (entryAt candidates existing)

/-- The row that is seen a second time first. -/
def firstRepeated : List Int → List Int → Option Int
  | _, [] => none
  | seen, row :: rows => if row ∈ seen then some row else firstRepeated (row :: seen) rows

end

end ImportPlan

open ImportPlan

structure ImportPlan where
  entries : List Entry

namespace ImportPlan

def init (candidates : List ImportCandidate) (existing : List Item) : Except PlanError ImportPlan :=
  match firstRepeated [] (candidates.map (·.sourceRow)) with
  | some row => .error (.duplicateSourceRow row)
  | none => .ok { entries := entriesOf candidates existing }

/-- The rows of each group of which a conflict is selected. -/
def selectedByConflict (entries : List Entry) : List (List Int) :=
  let conflicts := entries.filter fun entry => entry.classification matches .conflict _
  (conflicts.map (·.group)).dedup.map fun group =>
    (conflicts.filter fun entry => entry.group = group).map (·.candidate.sourceRow)

/-- What a selected entry adds. -/
def Entry.change (changes : VaultChanges) (entry : Entry) : VaultChanges :=
  match entry.classification with
  | .new | .conflict none => { changes with add := changes.add ++ [entry.candidate.draft] }
  | .update id | .conflict (some id) =>
    { changes with
      replace := changes.replace ++ [⟨id, entry.candidate.password, entry.candidate.totp⟩] }
  | .duplicate _ => changes

/-- The clash that is reported is the first there is; the dictionary may give another. -/
def changes (plan : ImportPlan) (rows : Finset Int) : Except PlanError VaultChanges :=
  let selected := plan.entries.filter fun entry => entry.candidate.sourceRow ∈ rows
  match (selectedByConflict selected).find? fun rows => 1 < rows.length with
  | some clash => .error (.conflictingSelection clash)
  | none => .ok (selected.foldl Entry.change {})

/-! ## The rows of one key -/

section

variable {candidates : List ImportCandidate} {existing : List Item} {items : List Item}
  {before after : Fin candidates.length → Classification}
  {done members : List (Fin candidates.length)} {s : Sorting candidates.length}
  {i j m : Fin candidates.length} {key : Key}

/-- What the first loop has done once it has gone through some rows: those that are not `distinct`
are written down as what they repeat, and those that are repeat nothing. -/
structure Sorted (items : List Item) (before : Fin candidates.length → Classification)
    (done : List (Fin candidates.length)) (s : Sorting candidates.length) : Prop where
  subset : ∀ i ∈ s.distinct, i ∈ done
  fresh : ∀ i ∈ s.distinct, ∀ item ∈ items, isSame candidates[i] item = false
  apart : s.distinct.Pairwise fun i j => sameRow candidates i j = false
  kept : ∀ i, i ∉ done ∨ i ∈ s.distinct → s.classified i = before i
  sorted : ∀ m ∈ done, m ∉ s.distinct →
    (∃ source, s.classified m = .duplicate source) ∧
      ((∃ item ∈ items, isSame candidates[m] item) ∨ ∃ i ∈ s.distinct, sameRow candidates i m)

theorem Sorted.sortMember (h : Sorted items before done s) (hm : m ∉ done) :
    Sorted items before (done ++ [m]) (sortMember candidates items s m) := by
  have hdistinct : ∀ i ∈ s.distinct, i ≠ m := fun i hi him => hm (him ▸ h.subset i hi)
  -- A row that repeats something is written down, and nothing else changes.
  have hwrite {source : DuplicateSource}
      (hsource : (∃ item ∈ items, isSame candidates[m] item) ∨
        ∃ i ∈ s.distinct, sameRow candidates i m) :
      Sorted items before (done ++ [m])
        { s with classified := Function.update s.classified m (.duplicate source) } :=
    { subset := fun i hi => List.mem_append_left _ (h.subset i hi)
      fresh := h.fresh
      apart := h.apart
      kept := fun i hi => by
        have him : i ≠ m := by
          obtain hi | hi := hi
          · exact fun him => hi (by simp [him])
          · exact hdistinct i hi
        simp only [Function.update_of_ne him]
        exact h.kept i (hi.imp_left fun hi hdone => hi (List.mem_append_left _ hdone))
      sorted := fun i hi hid => by
        by_cases him : i = m
        · subst him
          exact ⟨⟨source, by simp⟩, hsource⟩
        · simp only [Function.update_of_ne him]
          exact h.sorted i (by simpa [him] using hi) hid }
  unfold ImportPlan.sortMember
  split
  · rename_i identical hidentical
    exact hwrite (.inl ⟨identical, List.mem_of_find?_eq_some hidentical,
      List.find?_some hidentical⟩)
  · rename_i hitems
    split
    · rename_i representative hrepresentative
      have hsame : sameRow candidates representative m := by
        simpa using List.find?_some hrepresentative
      exact hwrite (.inr ⟨representative, List.mem_of_find?_eq_some hrepresentative, hsame⟩)
    · rename_i hrows
      simp only [List.find?_eq_none, Bool.not_eq_true] at hitems hrows
      refine ⟨?_, ?_, ?_, ?_, ?_⟩
      · intro i hi
        obtain hi | rfl := List.mem_append.mp hi |>.imp_right List.mem_singleton.mp
        · exact List.mem_append_left _ (h.subset i hi)
        · simp
      · intro i hi
        obtain hi | rfl := List.mem_append.mp hi |>.imp_right List.mem_singleton.mp
        · exact h.fresh i hi
        · exact hitems
      · exact List.pairwise_append.mpr ⟨h.apart, List.pairwise_singleton _ _, fun i hi j hj => by
          obtain rfl := List.mem_singleton.mp hj
          exact hrows i hi⟩
      · intro i hi
        refine h.kept i ?_
        obtain hi | hi := hi
        · exact .inl fun hdone => hi (List.mem_append_left _ hdone)
        · obtain hi | rfl := List.mem_append.mp hi |>.imp_right List.mem_singleton.mp
          · exact .inr hi
          · exact .inl hm
      · intro i hi hid
        simp only [List.mem_append, List.mem_singleton, not_or] at hi hid
        obtain ⟨hsource, hrepeats⟩ := h.sorted i (hi.resolve_right hid.2) hid.1
        exact ⟨hsource, hrepeats.imp_right fun ⟨d, hd, hsame⟩ =>
          ⟨d, List.mem_append_left _ hd, hsame⟩⟩

theorem sorted_members (hmembers : members.Nodup) :
    Sorted items before members
      (members.foldl (sortMember candidates items) { classified := before }) := by
  induction members using List.reverseRecOn with
  | nil => exact ⟨by simp, by simp, by simp, by simp, by simp⟩
  | append_singleton members m ih =>
    obtain ⟨hmembers, -, hm⟩ := List.nodup_append.mp hmembers
    rw [List.foldl_append]
    exact (ih hmembers).sortMember fun hin => hm m hin m (by simp) rfl

theorem writeAll_apply (classified : Fin candidates.length → Classification)
    (members : List (Fin candidates.length)) (x : Classification) (i : Fin candidates.length) :
    writeAll classified members x i = if i ∈ members then x else classified i := by
  unfold writeAll
  induction members using List.reverseRecOn with
  | nil => simp
  | append_singleton members m ih =>
    rw [List.foldl_append, List.foldl_cons, List.foldl_nil]
    by_cases him : i = m
    · simp [him]
    · simp [ih, him]

/-- What the loop over the groups leaves about the rows of one key. -/
structure Settled (items : List Item) (members : List (Fin candidates.length))
    (after : Fin candidates.length → Classification) : Prop where
  duplicate : ∀ m ∈ members, ∀ source, after m = .duplicate source →
    (∃ item ∈ items, isSame candidates[m] item) ∨
      ∃ r ∈ members, (∀ source, after r ≠ .duplicate source) ∧
        candidates[r].password = candidates[m].password ∧
        (candidates[m].totp = none ∨ candidates[r].totp = candidates[m].totp)
  replaces : ∀ m ∈ members, ∀ id, after m = .update id ∨ after m = .conflict (some id) →
    ∃ item, items = [item] ∧ item.id = id
  one : ∀ m ∈ members, ∀ r ∈ members, m ≠ r → (∀ source, after m ≠ .duplicate source) →
    (∀ source, after r ≠ .duplicate source) →
    (∃ id, after m = .conflict id) ∧ ∃ id, after r = .conflict id

theorem Settled.congr (h : Settled items members after)
    {after' : Fin candidates.length → Classification} (hafter : ∀ m ∈ members, after' m = after m) :
    Settled items members after' where
  duplicate m hm source hsource := by
    refine (h.duplicate m hm source (by rw [← hafter m hm, hsource])).imp_right ?_
    rintro ⟨r, hr, hrdup, hrest⟩
    exact ⟨r, hr, by rwa [hafter r hr], hrest⟩
  replaces m hm := by
    rw [hafter m hm]
    exact h.replaces m hm
  one m hm r hr := by
    rw [hafter m hm, hafter r hr]
    exact h.one m hm r hr

theorem mem_seedsOf {distinct : List (Fin candidates.length)} (hi : i ∈ distinct)
    {seed : TOTPParameters} (hseed : candidates[i].totp = some seed) :
    seed ∈ seedsOf candidates distinct := by
  unfold seedsOf
  induction distinct using List.reverseRecOn with
  | nil => simp at hi
  | append_singleton distinct d ih =>
    rw [List.foldl_append, List.foldl_cons, List.foldl_nil]
    obtain hi | rfl := List.mem_append.mp hi |>.imp_right List.mem_singleton.mp
    · split
      · split
        · exact ih hi
        · exact List.mem_append_left _ (ih hi)
      · exact ih hi
    · rw [hseed]
      dsimp only
      split
      · assumption
      · simp

theorem sameRow_comm : sameRow candidates i j = sameRow candidates j i := by
  unfold sameRow
  rw [decide_eq_decide.mpr (eq_comm (a := candidates[i].password)),
    decide_eq_decide.mpr (eq_comm (a := candidates[i].totp))]

/-- A row leads the others when they have its password and no seed of their own. -/
def Leads (distinct : List (Fin candidates.length)) (r : Fin candidates.length) : Prop :=
  r ∈ distinct ∧ ∀ i ∈ distinct, candidates[r].password = candidates[i].password ∧
    (i ≠ r → candidates[i].totp = none)

/-- The representative of rows with one password and at most one seed leads them. -/
theorem leads_representative {first : Fin candidates.length} {others : List (Fin candidates.length)}
    (hapart : (first :: others).Pairwise fun i j => sameRow candidates i j = false)
    (hpasswords : ((first :: others).map fun i => candidates[i].password).toFinset.card ≤ 1)
    (hseeds : (seedsOf candidates (first :: others)).length ≤ 1) :
    Leads (first :: others)
      (((first :: others).find? fun i => candidates[i].totp.isSome).getD first) := by
  have hpassword : ∀ i ∈ first :: others, ∀ j ∈ first :: others,
      candidates[i].password = candidates[j].password := by
    intro i hi j hj
    refine Finset.card_le_one.mp hpasswords _ ?_ _ ?_
    · exact List.mem_toFinset.mpr (List.mem_map_of_mem hi)
    · exact List.mem_toFinset.mpr (List.mem_map_of_mem hj)
  have hapart : ∀ i ∈ first :: others, ∀ j ∈ first :: others, i ≠ j →
      candidates[i].totp ≠ candidates[j].totp := by
    intro i hi j hj hij htotp
    have hsymm : Std.Symm fun i j => sameRow candidates i j = false :=
      ⟨fun i j h => by rwa [sameRow_comm]⟩
    have hdiff := hapart.forall hi hj hij
    simp only [sameRow, Bool.and_eq_false_iff, decide_eq_false_iff_not] at hdiff
    obtain hdiff | hdiff := hdiff
    · exact hdiff (hpassword i hi j hj)
    · exact hdiff htotp
  cases hfind : (first :: others).find? fun i => candidates[i].totp.isSome with
  | none =>
    refine ⟨by simp, fun i hi => ⟨hpassword _ (by simp) i hi, fun _ => ?_⟩⟩
    simpa using List.find?_eq_none.mp hfind i hi
  | some r =>
    have hr := List.mem_of_find?_eq_some hfind
    have hsome : candidates[r].totp.isSome := by simpa using List.find?_some hfind
    obtain ⟨seed, hseed⟩ := Option.isSome_iff_exists.mp hsome
    refine ⟨hr, fun i hi => ⟨hpassword r hr i hi, fun hir => ?_⟩⟩
    -- The seeds of the two rows would be one, and the rows the same.
    by_contra hseed'
    obtain ⟨seed', hseed'⟩ := Option.ne_none_iff_exists'.mp hseed'
    have hmem := mem_seedsOf hr hseed
    have hmem' := mem_seedsOf hi hseed'
    obtain ⟨x, hx⟩ := List.length_eq_one_iff.mp
      (Nat.le_antisymm hseeds (List.length_pos_of_mem hmem))
    rw [hx, List.mem_singleton] at hmem hmem'
    exact hapart i hi r hr hir (by rw [hseed', hseed, hmem, hmem'])

/-- A row that repeats one of the rows that are led is a duplicate of their leader. -/
theorem Leads.of_sameRow {distinct : List (Fin candidates.length)} {r : Fin candidates.length}
    (hr : Leads distinct r) (hi : i ∈ distinct) (hsame : sameRow candidates i m) :
    candidates[r].password = candidates[m].password ∧
      (candidates[m].totp = none ∨ candidates[r].totp = candidates[m].totp) := by
  simp only [sameRow, Bool.and_eq_true, decide_eq_true_eq] at hsame
  refine ⟨(hr.2 i hi).1.trans hsame.1, ?_⟩
  by_cases hir : i = r
  · exact .inr (hir ▸ hsame.2)
  · exact .inl (hsame.2 ▸ (hr.2 i hi).2 hir)

theorem classifyRepresentative_spec (hfresh : ∀ item ∈ items, isSame candidates[m] item = false) :
    (∀ source, classifyRepresentative candidates items m ≠ .duplicate source) ∧
      ∀ id, classifyRepresentative candidates items m = .update id ∨
        classifyRepresentative candidates items m = .conflict (some id) →
        ∃ item, items = [item] ∧ item.id = id := by
  have hnone : items.find? (isSame candidates[m]) = none := by
    simpa [List.find?_eq_none] using hfresh
  unfold classifyRepresentative
  rw [hnone]
  dsimp only
  split
  · simp
  · simp
  · simp

/-- Where every row repeats a saved item, there is nothing left to settle. -/
theorem Sorted.settled (h : Sorted items before members s) (hnil : s.distinct = []) :
    Settled items members s.classified := by
  have hsorted : ∀ m ∈ members, (∃ source, s.classified m = .duplicate source) ∧
      ∃ item ∈ items, isSame candidates[m] item := by
    intro m hm
    obtain ⟨hduplicate, hrepeats⟩ := h.sorted m hm (by simp [hnil])
    refine ⟨hduplicate, hrepeats.resolve_right ?_⟩
    rintro ⟨d, hd, -⟩
    simp [hnil] at hd
  refine ⟨fun m hm _ _ => .inl (hsorted m hm).2, fun m hm id hid => ?_, fun m hm _ _ _ hmd => ?_⟩
  · obtain ⟨⟨source, hsource⟩, -⟩ := hsorted m hm
    simp [hsource] at hid
  · obtain ⟨⟨source, hsource⟩, -⟩ := hsorted m hm
    exact absurd hsource (hmd source)

/-- Where the rows do not agree, each of them is a conflict. -/
theorem Sorted.conflicts (h : Sorted items before members s) {single : Option String}
    (hsingle : ∀ id, single = some id → ∃ item, items = [item] ∧ item.id = id) :
    Settled items members (writeAll s.classified s.distinct (.conflict single)) := by
  have hin : ∀ m ∈ s.distinct,
      writeAll s.classified s.distinct (.conflict single) m = .conflict single := by
    intro m hm
    rw [writeAll_apply, if_pos hm]
  have hout : ∀ m ∈ members, m ∉ s.distinct → ∃ source,
      writeAll s.classified s.distinct (.conflict single) m = .duplicate source := by
    intro m hm hd
    rw [writeAll_apply, if_neg hd]
    exact (h.sorted m hm hd).1
  refine ⟨fun m hm source hsource => ?_, fun m hm id hid => ?_, fun m hm r hr _ hmd hrd => ?_⟩
  · by_cases hd : m ∈ s.distinct
    · simp [hin m hd] at hsource
    · refine (h.sorted m hm hd).2.imp_right ?_
      rintro ⟨d, hd, hsame⟩
      simp only [sameRow, Bool.and_eq_true, decide_eq_true_eq] at hsame
      exact ⟨d, h.subset d hd, by simp [hin d hd], hsame.1, .inr hsame.2⟩
  · by_cases hd : m ∈ s.distinct
    · exact hsingle id (by simpa [hin m hd] using hid)
    · obtain ⟨source, hsource⟩ := hout m hm hd
      simp [hsource] at hid
  · have hconflict : ∀ m ∈ members,
        (∀ source, writeAll s.classified s.distinct (.conflict single) m ≠ .duplicate source) →
        ∃ id, writeAll s.classified s.distinct (.conflict single) m = .conflict id := by
      intro m hm hmd
      by_cases hd : m ∈ s.distinct
      · exact ⟨single, hin m hd⟩
      · obtain ⟨source, hsource⟩ := hout m hm hd
        exact absurd hsource (hmd source)
    exact ⟨hconflict m hm hmd, hconflict r hr hrd⟩

/-- Where one row leads the others, it alone is no duplicate. -/
theorem Sorted.led (h : Sorted items before members s) {r : Fin candidates.length}
    (hleads : Leads s.distinct r) {x : Classification} (hx : ∀ source, x ≠ .duplicate source)
    (hreplaces : ∀ id, x = .update id ∨ x = .conflict (some id) →
      ∃ item, items = [item] ∧ item.id = id) (source : DuplicateSource) :
    Settled items members (Function.update
      (writeAll s.classified (s.distinct.filter fun i => i ≠ r) (.duplicate source)) r x) := by
  have hother : ∀ m ∈ members, m ≠ r → ∃ source', Function.update
      (writeAll s.classified (s.distinct.filter fun i => i ≠ r) (.duplicate source)) r x m =
        .duplicate source' := by
    intro m hm hmr
    rw [Function.update_of_ne hmr, writeAll_apply]
    split
    · exact ⟨source, rfl⟩
    · rename_i hd
      exact (h.sorted m hm fun hd' => hd (List.mem_filter.mpr ⟨hd', by simpa using hmr⟩)).1
  refine ⟨fun m hm source' hsource => ?_, fun m hm id hid => ?_, fun m hm q hq hmq hmd hqd => ?_⟩
  · by_cases hmr : m = r
    · subst hmr
      exact absurd (by simpa using hsource) (hx source')
    · have hlead : (∃ item ∈ items, isSame candidates[m] item) ∨
          candidates[r].password = candidates[m].password ∧
            (candidates[m].totp = none ∨ candidates[r].totp = candidates[m].totp) := by
        by_cases hd : m ∈ s.distinct
        · exact .inr ⟨(hleads.2 m hd).1, .inl ((hleads.2 m hd).2 hmr)⟩
        · refine (h.sorted m hm hd).2.imp_right ?_
          rintro ⟨d, hd, hsame⟩
          exact hleads.of_sameRow hd hsame
      exact hlead.imp_right fun hlead => ⟨r, h.subset r hleads.1, by simpa using hx, hlead⟩
  · by_cases hmr : m = r
    · subst hmr
      exact hreplaces id (by simpa using hid)
    · obtain ⟨source', hsource⟩ := hother m hm hmr
      rw [hsource] at hid
      simp at hid
  · by_cases hmr : m = r
    · obtain ⟨source', hsource⟩ := hother q hq fun hqr => hmq (hmr.trans hqr.symm)
      exact absurd hsource (hqd source')
    · obtain ⟨source', hsource⟩ := hother m hm hmr
      exact absurd hsource (hmd source')

theorem settle_spec (h : Sorted items before members s) {first : Fin candidates.length}
    {others : List (Fin candidates.length)} (hdistinct : s.distinct = first :: others) :
    Settled items members (settle candidates items s.classified first others) ∧
      ∀ i ∉ members, settle candidates items s.classified first others i = before i := by
  have hframe : ∀ i ∉ members, i ∉ s.distinct ∧ s.classified i = before i :=
    fun i hi => ⟨fun hd => hi (h.subset i hd), h.kept i (.inl hi)⟩
  unfold settle
  dsimp only
  split
  · refine ⟨hdistinct ▸ h.conflicts fun id hid => ?_, fun i hi => ?_⟩
    · split at hid
      · exact ⟨_, rfl, Option.some.inj hid⟩
      · cases hid
    · rw [writeAll_apply, ← hdistinct, if_neg (hframe i hi).1, (hframe i hi).2]
  · rename_i hagree
    simp only [not_or, not_lt] at hagree
    have hleads := leads_representative (hdistinct ▸ h.apart) hagree.1 hagree.2
    obtain ⟨hx, hreplaces⟩ := classifyRepresentative_spec (h.fresh _ (hdistinct ▸ hleads.1))
    have hled := h.led (hdistinct ▸ hleads) hx hreplaces
    rw [hdistinct] at hled
    refine ⟨hled _, fun i hi => ?_⟩
    have hir : i ≠ ((first :: others).find? fun i => candidates[i].totp.isSome).getD first :=
      fun hir => (hframe i hi).1 (hdistinct ▸ hir ▸ hleads.1)
    rw [Function.update_of_ne hir, writeAll_apply, if_neg, (hframe i hi).2]
    exact fun hd => (hframe i hi).1 (hdistinct ▸ (List.mem_filter.mp hd).1)

/-! ## The loop over the groups -/

theorem mem_membersOf : i ∈ membersOf candidates key ↔ keyAt candidates i = key := by
  simp [membersOf]

theorem classifyGroup_spec (before : Fin candidates.length → Classification) (key : Key) :
    Settled (matchesOf existing key) (membersOf candidates key)
        (classifyGroup candidates existing before key) ∧
      ∀ i, keyAt candidates i ≠ key →
        classifyGroup candidates existing before key i = before i := by
  have hsorted : Sorted (matchesOf existing key) before (membersOf candidates key)
      ((membersOf candidates key).foldl (sortMember candidates (matchesOf existing key))
        { classified := before }) :=
    sorted_members ((List.nodup_finRange candidates.length).filter _)
  revert hsorted
  unfold classifyGroup
  dsimp only
  generalize (membersOf candidates key).foldl (sortMember candidates (matchesOf existing key))
    { classified := before } = s
  intro hsorted
  have hout : ∀ i, keyAt candidates i ≠ key → i ∉ membersOf candidates key :=
    fun i hi hm => hi (mem_membersOf.mp hm)
  cases hdistinct : s.distinct with
  | nil =>
    dsimp only
    exact ⟨hsorted.settled hdistinct, fun i hi => hsorted.kept i (.inl (hout i hi))⟩
  | cons first others =>
    dsimp only
    obtain ⟨hsettled, hframe⟩ := settle_spec hsorted hdistinct
    exact ⟨hsettled, fun i hi => hframe i (hout i hi)⟩

theorem groupOrder_spec (keys : List Key) :
    (keys.foldl (fun order key => if key ∈ order then order else order ++ [key]) []).Nodup ∧
      ∀ key, key ∈ keys.foldl (fun order key => if key ∈ order then order else order ++ [key]) [] ↔
        key ∈ keys := by
  induction keys using List.reverseRecOn with
  | nil => simp
  | append_singleton keys key ih =>
    obtain ⟨hnodup, hmem⟩ := ih
    rw [List.foldl_append, List.foldl_cons, List.foldl_nil]
    split
    · rename_i hin
      refine ⟨hnodup, fun k => ?_⟩
      rw [hmem k, List.mem_append, List.mem_singleton]
      exact ⟨.inl, fun hk => hk.elim id fun hk => hk ▸ (hmem key).mp hin⟩
    · rename_i hin
      refine ⟨List.nodup_append.mpr ⟨hnodup, List.nodup_singleton key, fun k hk j hj hkj => ?_⟩,
        fun k => ?_⟩
      · obtain rfl := List.mem_singleton.mp hj
        exact hin (hkj ▸ hk)
      · rw [List.mem_append, List.mem_append, hmem k]

theorem settled_foldl {keys : List Key} (hkeys : keys.Nodup)
    (before : Fin candidates.length → Classification) :
    ∀ key ∈ keys, Settled (matchesOf existing key) (membersOf candidates key)
      (keys.foldl (classifyGroup candidates existing) before) := by
  induction keys using List.reverseRecOn with
  | nil => simp
  | append_singleton keys last ih =>
    obtain ⟨hkeys, -, hlast⟩ := List.nodup_append.mp hkeys
    rw [List.foldl_append, List.foldl_cons, List.foldl_nil]
    intro key hkey
    obtain ⟨hsettled, hframe⟩ := (@classifyGroup_spec _ existing)
      (keys.foldl (classifyGroup candidates existing) before) last
    obtain hkey | rfl := List.mem_append.mp hkey |>.imp_right List.mem_singleton.mp
    · -- The rows of another key are not touched.
      refine (ih hkeys key hkey).congr fun m hm => hframe m ?_
      rw [mem_membersOf.mp hm]
      exact hlast key hkey last (by simp)
    · exact hsettled

theorem keyAt_mem (i : Fin candidates.length) : keyAt candidates i ∈ groupOrder candidates :=
  ((groupOrder_spec _).2 _).mpr (List.mem_map_of_mem (List.mem_finRange i))

theorem settled_classified (i : Fin candidates.length) :
    Settled (matchesOf existing (keyAt candidates i)) (membersOf candidates (keyAt candidates i))
      (classified candidates existing) :=
  settled_foldl (groupOrder_spec _).1 _ _ (keyAt_mem i)

/-- The rows of one group are the rows of one key. -/
theorem groupOf_eq_iff : groupOf candidates i = groupOf candidates j ↔
    keyAt candidates i = keyAt candidates j :=
  List.idxOf_inj (keyAt_mem i)

end

end ImportPlan

/-! ## Accounts -/

/-- What tells an account from the others. -/
abbrev Account := Finset String × Bytes

def ItemDraft.account (draft : ItemDraft) : Account := (draft.origins.toFinset, draft.username)

def ImportCandidate.account (c : ImportCandidate) : Account := (c.origins.toFinset, c.username)

def Item.account (item : Item) : Account := (item.origins.toFinset, item.username)

namespace ImportPlan

theorem mergeSort_eq_iff {xs ys : List String} (hxs : xs.Nodup) (hys : ys.Nodup) :
    xs.mergeSort (fun a b => a ≤ b) = ys.mergeSort (fun a b => a ≤ b) ↔
      xs.toFinset = ys.toFinset := by
  have hsorted : ∀ zs : List String,
      (zs.mergeSort fun a b => a ≤ b).Pairwise fun a b => a ≤ b := by
    intro zs
    have h := (@List.pairwise_mergeSort _ (fun a b : String => a ≤ b))
      (fun a b c hab hbc => by simpa using (le_trans (by simpa using hab) (by simpa using hbc)))
      (fun a b => by simpa using le_total a b) zs
    simpa using h
  have hperm : ∀ zs : List String, (zs.mergeSort fun a b => a ≤ b).Perm zs :=
    fun zs => List.mergeSort_perm zs _
  constructor
  · intro h
    have hp : xs.Perm ys := (hperm xs).symm.trans (h ▸ hperm ys)
    exact List.toFinset_eq_of_perm xs ys hp
  · intro h
    have hp : xs.Perm ys := List.perm_of_nodup_nodup_toFinset_eq hxs hys h
    exact (((hperm xs).trans hp).trans (hperm ys).symm).eq_of_pairwise
      (fun a b _ _ hab hba => le_antisymm hab hba) (hsorted xs) (hsorted ys)

theorem keyOf_eq_iff {xs ys : List String} {u v : Bytes} (hxs : xs.Nodup) (hys : ys.Nodup) :
    Key.of xs u = Key.of ys v ↔ (xs.toFinset, u) = (ys.toFinset, v) := by
  simp [Key.of, mergeSort_eq_iff hxs hys]

theorem keyAt_eq_iff {candidates : List ImportCandidate} {i j : Fin candidates.length} :
    keyAt candidates i = keyAt candidates j ↔ candidates[i].account = candidates[j].account :=
  keyOf_eq_iff candidates[i].nodup candidates[j].nodup

theorem matchesOf_keyAt {candidates : List ImportCandidate} {existing : List Item}
    (i : Fin candidates.length) : matchesOf existing (keyAt candidates i) =
      existing.filter fun item => item.account = candidates[i].account :=
  List.filter_congr fun item _ =>
    decide_eq_decide.mpr (keyOf_eq_iff item.nodup candidates[i].nodup)

/-! ## What a plan says and does -/

def Classification.isDuplicate : Classification → Bool
  | .duplicate _ => true
  | _ => false

theorem Classification.isDuplicate_eq_false {x : Classification} :
    x.isDuplicate = false ↔ ∀ source, x ≠ .duplicate source := by
  cases x <;> simp [isDuplicate]

/-- A row has what the other has, and a seed of its own only if the other has it too. -/
def Covers (password : Option Bytes) (totp : Option TOTPParameters) (c : ImportCandidate) : Prop :=
  password = some c.password ∧ (c.totp = none ∨ totp = c.totp)

theorem covers_of_isSame {c : ImportCandidate} {item : Item} (h : isSame c item) :
    Covers item.password item.totp c := by
  simp only [isSame, Bool.and_eq_true, Bool.or_eq_true, decide_eq_true_eq,
    Option.isNone_iff_eq_none] at h
  exact ⟨h.1, h.2.imp_right Eq.symm⟩

/-- The change that a row makes when it is selected. -/
def Entry.made (entry : Entry) : Option (ItemDraft ⊕ CredentialReplacement) :=
  match entry.classification with
  | .new | .conflict none => some (.inl entry.candidate.draft)
  | .update id | .conflict (some id) =>
    some (.inr ⟨id, entry.candidate.password, entry.candidate.totp⟩)
  | .duplicate _ => none

theorem Entry.made_eq_none {entry : Entry} :
    entry.made = none ↔ entry.classification.isDuplicate := by
  unfold Entry.made Classification.isDuplicate
  split <;> simp_all

theorem Entry.change_spec (entry : Entry) (ch : VaultChanges) :
    entry.change ch = { add := ch.add ++ (entry.made.bind Sum.getLeft?).toList,
                        replace := ch.replace ++ (entry.made.bind Sum.getRight?).toList } := by
  unfold Entry.change Entry.made
  split <;> simp

theorem foldl_change (entries : List Entry) : entries.foldl Entry.change {} =
    { add := (entries.filterMap Entry.made).filterMap Sum.getLeft?,
      replace := (entries.filterMap Entry.made).filterMap Sum.getRight? } := by
  induction entries using List.reverseRecOn with
  | nil => rfl
  | append_singleton entries entry ih =>
    rw [List.foldl_append, List.foldl_cons, List.foldl_nil, ih, Entry.change_spec]
    cases h : entry.made with
    | none => simp [h]
    | some made => cases made <;> simp [h]

/-- The saved items that are replaced. -/
def replacedItems (existing : List Item) (ch : VaultChanges) : List Item :=
  ch.replace.filterMap fun r => existing.find? fun item => item.id = r.itemID

/-- The changes are one for each selected row that is no duplicate; the accounts that are added and
replaced are all different, and a replaced item is the only saved one of the row's account. -/
structure Exact (existing : List Item) (selected : List Entry) (ch : VaultChanges) : Prop where
  one : ∀ entry ∈ selected, entry.made.isSome = !entry.classification.isDuplicate
  add : ch.add = (selected.filterMap Entry.made).filterMap Sum.getLeft?
  replace : ch.replace = (selected.filterMap Entry.made).filterMap Sum.getRight?
  ids : (ch.replace.map (·.itemID)).Nodup
  found : (replacedItems existing ch).map (·.id) = ch.replace.map (·.itemID)
  accounts : (ch.add.map (·.account) ++ (replacedItems existing ch).map (·.account)).Nodup
  only : ∀ entry ∈ selected, ∀ r, entry.made = some (.inr r) →
    ∃ item, existing.filter (fun item => item.account = entry.candidate.account) = [item] ∧
      item.id = r.itemID

section

variable {candidates : List ImportCandidate} {existing : List Item}

theorem firstRepeated_eq_none {seen rows : List Int} (hrows : rows.Nodup)
    (hseen : ∀ row ∈ rows, row ∉ seen) : firstRepeated seen rows = none := by
  induction rows generalizing seen with
  | nil => rfl
  | cons row rows ih =>
    obtain ⟨hrow, hrows⟩ := List.nodup_cons.mp hrows
    rw [firstRepeated, if_neg (hseen row (by simp))]
    refine ih hrows fun other hother => ?_
    rw [List.mem_cons, not_or]
    exact ⟨fun h => hrow (h ▸ hother), hseen other (List.mem_cons_of_mem _ hother)⟩

theorem init_eq_ok (hrows : (candidates.map (·.sourceRow)).Nodup) :
    init candidates existing = .ok { entries := entriesOf candidates existing } := by
  rw [init, firstRepeated_eq_none hrows (by simp)]

/-- A row that is written down as a duplicate is one of a saved item or of a row that is not. -/
theorem duplicate_covered (i : Fin candidates.length)
    (hdup : (classified candidates existing i).isDuplicate) :
    (∃ item ∈ existing, item.account = candidates[i].account ∧
        Covers item.password item.totp candidates[i]) ∨
      ∃ j, groupOf candidates j = groupOf candidates i ∧
        (classified candidates existing j).isDuplicate = false ∧
        candidates[j].account = candidates[i].account ∧
        Covers (some candidates[j].password) candidates[j].totp candidates[i] := by
  cases hsource : classified candidates existing i with
  | duplicate source =>
    have hi : i ∈ membersOf candidates (keyAt candidates i) := mem_membersOf.mpr rfl
    obtain ⟨item, hitem, hsame⟩ | ⟨r, hr, hrdup, hpassword, htotp⟩ :=
      ((@settled_classified _ existing) i).duplicate i hi source hsource
    · rw [matchesOf_keyAt, List.mem_filter, decide_eq_true_eq] at hitem
      exact .inl ⟨item, hitem.1, hitem.2, covers_of_isSame hsame⟩
    · have hkey := mem_membersOf.mp hr
      exact .inr ⟨r, groupOf_eq_iff.mpr hkey, Classification.isDuplicate_eq_false.mpr hrdup,
        keyAt_eq_iff.mp hkey, congrArg some hpassword, htotp⟩
  | new | update id | conflict id => simp [hsource, Classification.isDuplicate] at hdup

/-- A row that replaces a saved item replaces the only one of its account. -/
theorem replaced_only (i : Fin candidates.length) {id : String}
    (hid : classified candidates existing i = .update id ∨
      classified candidates existing i = .conflict (some id)) :
    ∃ item, existing.filter (fun item => item.account = candidates[i].account) = [item] ∧
      item.id = id := by
  rw [← matchesOf_keyAt]
  exact (settled_classified i).replaces i (mem_membersOf.mpr rfl) id hid

/-- Two rows of one account, neither of them a duplicate, are conflicts of one group. -/
theorem conflict_of_account {i j : Fin candidates.length} (hij : i ≠ j)
    (haccount : candidates[i].account = candidates[j].account)
    (hi : (classified candidates existing i).isDuplicate = false)
    (hj : (classified candidates existing j).isDuplicate = false) :
    groupOf candidates i = groupOf candidates j ∧
      (∃ id, classified candidates existing i = .conflict id) ∧
      ∃ id, classified candidates existing j = .conflict id := by
  have hkey := keyAt_eq_iff.mpr haccount
  refine ⟨groupOf_eq_iff.mpr hkey, ?_⟩
  exact (settled_classified i).one i (mem_membersOf.mpr rfl) j (mem_membersOf.mpr hkey.symm) hij
    (Classification.isDuplicate_eq_false.mp hi) (Classification.isDuplicate_eq_false.mp hj)

theorem mem_entriesOf {entry : Entry} : entry ∈ entriesOf candidates existing ↔
    ∃ i, entry = entryAt candidates existing i := by
  simp [entriesOf, eq_comm]

/-- Where no clash is found, the selected conflicts of one group are one row. -/
theorem sourceRow_eq_of_conflict {selected : List Entry}
    (hnone : (selectedByConflict selected).find? (fun rows => 1 < rows.length) = none)
    {e e' : Entry} (he : e ∈ selected) (he' : e' ∈ selected)
    (hconflict : ∃ id, e.classification = .conflict id)
    (hconflict' : ∃ id, e'.classification = .conflict id) (hgroup : e.group = e'.group) :
    e.candidate.sourceRow = e'.candidate.sourceRow := by
  obtain ⟨⟨id, hid⟩, id', hid'⟩ := And.intro hconflict hconflict'
  have hin : e ∈ selected.filter fun entry => entry.classification matches .conflict _ :=
    List.mem_filter.mpr ⟨he, by simp [hid]⟩
  have hin' : e' ∈ selected.filter fun entry => entry.classification matches .conflict _ :=
    List.mem_filter.mpr ⟨he', by simp [hid']⟩
  have hrows := List.find?_eq_none.mp hnone _ (List.mem_map_of_mem
    (List.mem_dedup.mpr (List.mem_map_of_mem hin)))
  simp only [decide_eq_true_eq, not_lt, List.length_map] at hrows
  have hmem : e ∈ List.filter (fun entry => entry.group = e.group) _ :=
    List.mem_filter.mpr ⟨hin, by simp⟩
  have hmem' : e' ∈ List.filter (fun entry => entry.group = e.group) _ :=
    List.mem_filter.mpr ⟨hin', by simp [hgroup]⟩
  obtain ⟨x, hx⟩ := List.length_eq_one_iff.mp
    (Nat.le_antisymm hrows (List.length_pos_of_mem hmem))
  rw [hx, List.mem_singleton] at hmem hmem'
  rw [hmem, hmem']

/-- The accounts that are added or replaced are those of the rows that change something. -/
theorem accounts_perm {selected : List Entry}
    (hfind : ∀ entry ∈ selected, ∀ r, entry.made = some (.inr r) → ∃ item,
      existing.find? (fun item => item.id = r.itemID) = some item ∧
        item.account = entry.candidate.account) :
    List.Perm (((selected.filterMap Entry.made).filterMap Sum.getLeft?).map (·.account) ++
        (((selected.filterMap Entry.made).filterMap Sum.getRight?).filterMap fun r =>
          existing.find? fun item => item.id = r.itemID).map (·.account))
      ((selected.filter (·.made.isSome)).map (·.candidate.account)) := by
  induction selected with
  | nil => rfl
  | cons entry selected ih =>
    have ih := ih fun e he => hfind e (List.mem_cons_of_mem _ he)
    cases hmade : entry.made with
    | none => simpa [hmade] using ih
    | some made =>
      cases made with
      | inl draft =>
        have haccount : draft.account = entry.candidate.account := by
          unfold Entry.made at hmade
          split at hmade <;> cases hmade <;> rfl
        simpa [List.filterMap_cons, hmade, haccount] using ih
      | inr r =>
        obtain ⟨item, hitem, haccount⟩ := hfind entry (by simp) r hmade
        simpa [List.filterMap_cons, hmade, hitem, haccount] using
          List.perm_middle.trans (ih.cons _)

theorem find_of_id (hids : (existing.map (·.id)).Nodup) {item : Item} (hitem : item ∈ existing) :
    existing.find? (fun other => other.id = item.id) = some item := by
  cases hfind : existing.find? fun other => other.id = item.id with
  | none => simpa using List.find?_eq_none.mp hfind item hitem
  | some other =>
    have hid : other.id = item.id := by simpa using List.find?_some hfind
    rw [List.inj_on_of_nodup_map hids (List.mem_of_find?_eq_some hfind) hitem hid]

theorem map_id_filterMap {rs : List CredentialReplacement}
    (hfind : ∀ r ∈ rs, (existing.find? fun item => item.id = r.itemID).isSome) :
    (rs.filterMap fun r => existing.find? fun item => item.id = r.itemID).map (·.id) =
      rs.map (·.itemID) := by
  induction rs with
  | nil => rfl
  | cons r rs ih =>
    obtain ⟨item, hitem⟩ := Option.isSome_iff_exists.mp (hfind r (by simp))
    have hid : item.id = r.itemID := by simpa using List.find?_some hitem
    have ih := ih fun r hr => hfind r (List.mem_cons_of_mem _ hr)
    simpa [List.filterMap_cons, hitem, hid] using ih

/-- The selected rows that change something are of different accounts. -/
theorem selected_apart (hrows : (candidates.map (·.sourceRow)).Nodup) {rows : Finset Int}
    (hnone : (selectedByConflict ((entriesOf candidates existing).filter fun entry =>
      entry.candidate.sourceRow ∈ rows)).find? (fun rows => 1 < rows.length) = none) :
    ((entriesOf candidates existing).filter fun entry =>
      entry.candidate.sourceRow ∈ rows).Pairwise fun e e' =>
        e.made.isSome → e'.made.isSome → e.candidate.account ≠ e'.candidate.account := by
  refine List.pairwise_filter.mpr (List.pairwise_map.mpr
    ((List.nodup_finRange candidates.length).imp ?_))
  intro i j hij hi hj hmade hmade' haccount
  refine hij ?_
  have hchanges : ∀ k, (entryAt candidates existing k).made.isSome →
      (classified candidates existing k).isDuplicate = false := by
    intro k hk
    cases hdup : (classified candidates existing k).isDuplicate with
    | false => rfl
    | true =>
      have hnone : (entryAt candidates existing k).made = none := Entry.made_eq_none.mpr hdup
      simp [hnone] at hk
  have hin : ∀ k, decide ((entryAt candidates existing k).candidate.sourceRow ∈ rows) = true →
      entryAt candidates existing k ∈ (entriesOf candidates existing).filter fun entry =>
        entry.candidate.sourceRow ∈ rows :=
    fun k hk => List.mem_filter.mpr ⟨mem_entriesOf.mpr ⟨k, rfl⟩, hk⟩
  obtain ⟨hgroup, hconflict, hconflict'⟩ :=
    conflict_of_account hij haccount (hchanges i hmade) (hchanges j hmade')
  have hrow : candidates[i].sourceRow = candidates[j].sourceRow :=
    sourceRow_eq_of_conflict hnone (hin i hi) (hin j hj) hconflict hconflict' hgroup
  have hi' : i.val < (candidates.map (·.sourceRow)).length := by simp
  have hj' : j.val < (candidates.map (·.sourceRow)).length := by simp
  have hget : (candidates.map (·.sourceRow))[i.val] = (candidates.map (·.sourceRow))[j.val] := by
    simpa using hrow
  exact Fin.ext ((hrows.getElem_inj_iff).mp hget)

theorem changes_exact (hrows : (candidates.map (·.sourceRow)).Nodup)
    (hids : (existing.map (·.id)).Nodup) {rows : Finset Int} {ch : VaultChanges}
    (h : changes { entries := entriesOf candidates existing } rows = .ok ch) :
    Exact existing ((entriesOf candidates existing).filter fun entry =>
      entry.candidate.sourceRow ∈ rows) ch := by
  unfold changes at h
  dsimp only at h
  split at h
  · cases h
  rename_i hnone
  have hin : ∀ entry ∈ (entriesOf candidates existing).filter fun entry =>
      entry.candidate.sourceRow ∈ rows, entry ∈ entriesOf candidates existing :=
    fun entry hentry => (List.mem_filter.mp hentry).1
  have hapart := selected_apart hrows hnone
  generalize (entriesOf candidates existing).filter (fun entry =>
    entry.candidate.sourceRow ∈ rows) = selected at *
  obtain rfl := (Except.ok.inj h).symm
  rw [foldl_change]
  have honly : ∀ entry ∈ selected, ∀ r, entry.made = some (.inr r) →
      ∃ item, existing.filter (fun item => item.account = entry.candidate.account) = [item] ∧
        item.id = r.itemID := by
    intro entry hentry r hr
    obtain ⟨i, rfl⟩ := mem_entriesOf.mp (hin entry hentry)
    refine replaced_only i ?_
    unfold Entry.made entryAt at hr
    dsimp only at hr
    split at hr <;> cases hr
    · exact .inl ‹_›
    · exact .inr ‹_›
  have hfind : ∀ entry ∈ selected, ∀ r, entry.made = some (.inr r) → ∃ item,
      existing.find? (fun item => item.id = r.itemID) = some item ∧
        item.account = entry.candidate.account := by
    intro entry hentry r hr
    obtain ⟨item, hitem, hid⟩ := honly entry hentry r hr
    have hmem : item ∈ existing.filter fun item => item.account = entry.candidate.account := by
      rw [hitem]
      exact List.mem_singleton_self item
    obtain ⟨hmem, haccount⟩ := List.mem_filter.mp hmem
    exact ⟨item, hid ▸ find_of_id hids hmem, by simpa using haccount⟩
  have haccounts := (accounts_perm hfind).nodup_iff.mpr (List.pairwise_map.mpr
    (List.pairwise_filter.mpr hapart))
  have hfound : (replacedItems existing { replace :=
      (selected.filterMap Entry.made).filterMap Sum.getRight? }).map (·.id) =
        ((selected.filterMap Entry.made).filterMap Sum.getRight?).map (·.itemID) := by
    refine map_id_filterMap fun r hr => ?_
    obtain ⟨made, hmade, hright⟩ := List.mem_filterMap.mp hr
    obtain ⟨entry, hentry, hmade⟩ := List.mem_filterMap.mp hmade
    obtain ⟨item, hitem, -⟩ := hfind entry hentry r
      (by rw [hmade, Sum.getRight?_eq_some_iff.mp hright])
    simp [hitem]
  exact
    { one := fun entry _ => by
        cases hmade : entry.made with
        | none => simp [Entry.made_eq_none.mp hmade]
        | some made =>
          have hdup : ¬ entry.classification.isDuplicate :=
            fun hdup => by simp [Entry.made_eq_none.mpr hdup] at hmade
          simpa using hdup
      add := rfl
      replace := rfl
      ids := by
        rw [← hfound]
        refine (List.Nodup.of_map _ (List.nodup_append.mp haccounts).2.1).map_on ?_
        intro item hitem item' hitem' hid
        obtain ⟨r, -, hr⟩ := List.mem_filterMap.mp hitem
        obtain ⟨r', -, hr'⟩ := List.mem_filterMap.mp hitem'
        exact List.inj_on_of_nodup_map hids (List.mem_of_find?_eq_some hr)
          (List.mem_of_find?_eq_some hr') hid
      found := hfound
      accounts := haccounts
      only := honly }

theorem neither_loses_nor_doubles (candidates : List ImportCandidate) (existing : List Item)
    (hrows : (candidates.map (·.sourceRow)).Nodup) (hids : (existing.map (·.id)).Nodup) :
    ∃ plan, init candidates existing = .ok plan ∧ plan.entries.map (·.candidate) = candidates ∧
      (∀ entry ∈ plan.entries, entry.classification.isDuplicate →
        (∃ item ∈ existing, item.account = entry.candidate.account ∧
          Covers item.password item.totp entry.candidate) ∨
        ∃ other ∈ plan.entries, other.group = entry.group ∧
          other.classification.isDuplicate = false ∧
          other.candidate.account = entry.candidate.account ∧
          Covers (some other.candidate.password) other.candidate.totp entry.candidate) ∧
      ∀ rows ch, changes plan rows = .ok ch →
        Exact existing (plan.entries.filter fun entry => entry.candidate.sourceRow ∈ rows) ch := by
  refine ⟨_, init_eq_ok hrows, ?_, fun entry hentry hdup => ?_, fun rows ch h => ?_⟩
  · rw [entriesOf, List.map_map]
    exact List.map_getElem_finRange candidates
  · obtain ⟨i, rfl⟩ := mem_entriesOf.mp hentry
    refine (duplicate_covered i hdup).imp_right ?_
    rintro ⟨j, hgroup, hother, haccount, hcovers⟩
    exact ⟨entryAt candidates existing j, mem_entriesOf.mpr ⟨j, rfl⟩, hgroup, hother, haccount,
      hcovers⟩
  · exact changes_exact hrows hids h

/-- A row without a seed, one with a seed, and a saved login of their account. -/
theorem neither_loses_nor_doubles_seeded :
    ∃ plan, init
      [⟨["https://a.com"], by decide, "https://a.com", [1], [2], none, none, 2⟩,
        ⟨["https://a.com"], by decide, "https://a.com", [1], [2], some ⟨[7], .sha1, 6, 30⟩, none,
          3⟩]
      [⟨"i", ["https://a.com"], by decide, [1], some [3], none⟩] = .ok plan ∧
      ∀ rows ch, changes plan rows = .ok ch → (ch.replace.map (·.itemID)).Nodup := by
  obtain ⟨plan, hplan, -, -, hexact⟩ := neither_loses_nor_doubles
    [⟨["https://a.com"], by decide, "https://a.com", [1], [2], none, none, 2⟩,
      ⟨["https://a.com"], by decide, "https://a.com", [1], [2], some ⟨[7], .sha1, 6, 30⟩, none, 3⟩]
    [⟨"i", ["https://a.com"], by decide, [1], some [3], none⟩] (by decide) (by decide)
  exact ⟨plan, hplan, fun rows ch h => (hexact rows ch h).ids⟩

end

end ImportPlan

end Opensteer.Passwords
