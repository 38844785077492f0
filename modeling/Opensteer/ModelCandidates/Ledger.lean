import Opensteer.Framework.Chronicle
import Opensteer.Framework.FlagSort
import Opensteer.ModelCandidates.Model

/-!
# Every choice is accounted for

The loops go through the pairs of a want and an account that it concerns, in their order. The ledger has an entry for
each of them, and its entries make up what `resolveModelCandidates` returns (`Accounted`).
-/

namespace Opensteer.ModelCandidates.ResolveModelCandidatesInput

open Chronicle

variable (input : ResolveModelCandidatesInput)

/-- The account is eligible, and its catalog offers the selection as that model. -/
structure Offers (account : AuthorizedModelAccountSnapshot) (selection : ModelSelection) (model : SelectionModelDescriptor) :
    Prop where
  eligible : automaticAccountEligibility account input.excludedAccounts input.canRun = .ok
  offered : ∃ catalog, account.catalog = some catalog ∧ model ∈ catalog.models ∧
    matchModelSelection catalog.models selection .refuse = .offered model

/-- The original can run on the account, as that model. -/
structure Usable (own : OriginalModelSelection) (account : AuthorizedModelAccountSnapshot) (model : SelectionModelDescriptor) :
    Prop where
  original : input.original = some own
  authorized : account ∈ input.accounts
  environmentId : account.environmentId = own.environmentId
  harnessInstanceId : account.harnessInstanceId = own.harnessInstanceId
  bound : own.fromPastRun = true → account.sourceId ≠ units "openai-compatible"
  offers : input.Offers account own.modelSelection model

/-- What a pair of a want and an account comes to. -/
inductive Outcome
  | candidate (candidate : ResolvedModelCandidate)
  /-- It would be a candidate whose key is there. -/
  | duplicate (candidate : ResolvedModelCandidate)
  | skipped (record : SkippedModelCandidate)

/-- The places of a want and an account in the input, and what they come to. -/
structure Entry where
  want : Nat
  account : Nat
  outcome : Outcome

namespace Entry

def candidate (entry : Entry) : Option ResolvedModelCandidate :=
  match entry.outcome with
  | .candidate found => some found
  | _ => none

def skipped (entry : Entry) : Option SkippedModelCandidate :=
  match entry.outcome with
  | .skipped record => some record
  | _ => none

def place (entry : Entry) : Nat × Nat := (entry.want, entry.account)

end Entry

def isDefaultAt (account : Nat) : Bool := input.accounts[account]?.any (·.isDefault)

/-- By want, and of one want the default accounts first, and else by account. -/
def Precedes (a b : Nat × Nat) : Prop :=
  a.1 < b.1 ∨ a.1 = b.1 ∧ ((input.isDefaultAt a.2 = true ∧ input.isDefaultAt b.2 = false) ∨
    input.isDefaultAt a.2 = input.isDefaultAt b.2 ∧ a.2 < b.2)

/-- The record is about the want and the account. -/
def Tells (record : SkippedModelCandidate) (want : Option ModelWant) (account : AuthorizedModelAccountSnapshot) : Prop :=
  record.want = want ∧ record.harnessInstanceId = account.harnessInstanceId

/-- The outcome is about the want and the account. -/
def About (want : ModelWant) (account : AuthorizedModelAccountSnapshot) : Outcome → Prop
  | .candidate candidate | .duplicate candidate => ∃ selection model, input.Offers account selection model ∧
      candidate = input.candidate account model selection false
  | .skipped record => Tells record (some want) account

def key (candidate : ResolvedModelCandidate) : Text := modelCandidateKey input.localeCompare candidate

/-- A duplicate's key is that of an earlier candidate, or of the original. -/
def Repeats (original : Option ResolvedModelCandidate) (pre : List Entry) (entry : Entry) : Prop :=
  ∀ candidate, entry.outcome = .duplicate candidate →
    ∃ first, input.key first = input.key candidate ∧ (original = some first ∨ ∃ e ∈ pre, e.outcome = .candidate first)

structure Accounted (result : Result) (original : Option ResolvedModelCandidate) (record : Option SkippedModelCandidate)
    (ledger : List Entry) : Prop where
  candidates : result.candidates = (ledger.filterMap Entry.candidate).filter (fun c => !c.usageLimited) ++
    (ledger.filterMap Entry.candidate).filter (·.usageLimited) ++ original.toList
  skipped : result.skipped = record.toList ++ ledger.filterMap Entry.skipped
  ordered : (ledger.map Entry.place).Pairwise input.Precedes
  /-- Each pair has one entry. -/
  entry : ∀ i j want account, input.wants[i]? = some want → input.accounts[j]? = some account → concerns want account →
    ∃! entry, entry ∈ ledger ∧ entry.place = (i, j)
  about : ∀ entry ∈ ledger, ∃ want account, input.wants[entry.want]? = some want ∧
    input.accounts[entry.account]? = some account ∧ concerns want account ∧ input.About want account entry.outcome
  repeats : Before (input.Repeats original) ledger
  distinct : (result.candidates.map input.key).Nodup
  sound : ∀ candidate ∈ result.candidates, candidate.account ∈ input.accounts ∧
    candidate.environmentId = candidate.account.environmentId ∧
    candidate.harnessInstanceId = candidate.account.harnessInstanceId ∧
    ∃ model, input.Offers candidate.account candidate.storedModelSelection model
  usable : ∀ candidate, original = some candidate ↔
    ∃ own account model, input.Usable own account model ∧ candidate = input.candidate account model own.modelSelection true
  /-- The original is the only candidate that is one. -/
  once : result.candidates.filter (·.original) = original.toList
  refused : record.isSome ↔ input.original.isSome ∧ original = none

/-! ## One pair -/

variable {input} {skipped : Skipped} {account : AuthorizedModelAccountSnapshot} {selection : ModelSelection}
  {want : ModelWant}

/-- An account without a catalog is not ready. -/
theorem catalog_of_eligible (h : automaticAccountEligibility account input.excludedAccounts input.canRun = .ok) :
    ∃ catalog, account.catalog = some catalog := by
  unfold automaticAccountEligibility at h
  split_ifs at h with _ _ _ _ hready
  · split at h <;> cases h
  · obtain ⟨catalog, hcatalog, -⟩ := Option.map_eq_some_iff.mp (not_not.mp hready)
    exact ⟨catalog, hcatalog⟩

theorem usable_cases (skipped : Skipped) (account : AuthorizedModelAccountSnapshot) (want : Option ModelWant) :
    (∃ catalog, input.usable skipped account want = (some catalog, skipped) ∧ account.catalog = some catalog ∧
      automaticAccountEligibility account input.excludedAccounts input.canRun = .ok) ∨
    ∃ record, input.usable skipped account want = (none, skipped ++ [record]) ∧ Tells record want account ∧
      automaticAccountEligibility account input.excludedAccounts input.canRun ≠ .ok := by
  unfold usable
  split
  · rename_i heligible
    obtain ⟨catalog, hcatalog⟩ := catalog_of_eligible heligible
    exact .inl ⟨catalog, by rw [hcatalog], hcatalog, heligible⟩
  · rename_i reason detail hrefused
    exact .inr ⟨_, rfl, ⟨rfl, rfl⟩, by rw [hrefused]; nofun⟩

theorem model_mem_of_offered {models : List SelectionModelDescriptor} {unlisted : Unlisted}
    {model : SelectionModelDescriptor} (h : matchModelSelection models selection unlisted = .offered model) :
    model ∈ models := by
  unfold matchModelSelection at h
  split at h
  · cases h
  · rename_i found hfind
    split at h
    · cases h
    · dsimp only at h
      split at h
      · cases h
      · rw [← ModelSelectionMatch.offered.inj h]
        exact List.mem_of_find?_eq_some hfind

theorem inspect_cases (skipped : Skipped) (account : AuthorizedModelAccountSnapshot) (selection : ModelSelection)
    (want : Option ModelWant) (original : Bool) :
    (∃ model, input.inspect skipped account selection want original =
        (some (input.candidate account model selection original), skipped) ∧ input.Offers account selection model) ∨
    ∃ record, input.inspect skipped account selection want original = (none, skipped ++ [record]) ∧
      Tells record want account ∧ ∀ model, ¬input.Offers account selection model := by
  unfold inspect
  rcases usable_cases skipped account want with ⟨catalog, husable, hcatalog, heligible⟩ | ⟨record, husable, htells, hno⟩
  · rw [husable]
    dsimp only
    have hunique {model : SelectionModelDescriptor} (h : input.Offers account selection model) :
        matchModelSelection catalog.models selection .refuse = .offered model := by
      obtain ⟨catalog', hcatalog', -, hoffered⟩ := h.offered
      rwa [← Option.some.inj (hcatalog.symm.trans hcatalog')] at hoffered
    split
    · rename_i hmatch
      exact .inr ⟨_, rfl, ⟨rfl, rfl⟩, fun model h => by cases hmatch.symm.trans (hunique h)⟩
    · rename_i hmatch
      exact .inr ⟨_, rfl, ⟨rfl, rfl⟩, fun model h => by cases hmatch.symm.trans (hunique h)⟩
    · rename_i model hmatch
      exact .inl ⟨model, rfl, heligible, catalog, hcatalog, model_mem_of_offered hmatch, hmatch⟩
  · rw [husable]
    exact .inr ⟨record, rfl, htells, fun model h => hno h.eligible⟩

variable (input) in
/-- A candidate, or one record. -/
def Finds (skipped : Skipped) (account : AuthorizedModelAccountSnapshot) (want : ModelWant)
    (found : Option ResolvedModelCandidate × Skipped) : Prop :=
  (∃ selection model, found = (some (input.candidate account model selection false), skipped) ∧
    input.Offers account selection model) ∨
  ∃ record, found = (none, skipped ++ [record]) ∧ Tells record (some want) account

theorem inspect_finds (selection : ModelSelection) :
    input.Finds skipped account want (input.inspect skipped account selection want false) := by
  rcases inspect_cases skipped account selection want false with ⟨model, heq, hoffers⟩ | ⟨record, heq, htells, -⟩
  · exact .inl ⟨selection, model, heq, hoffers⟩
  · exact .inr ⟨record, heq, htells⟩

theorem seekLight_finds : input.Finds skipped account want (input.seekLight skipped account want) := by
  unfold seekLight
  rcases usable_cases skipped account (some want) with ⟨catalog, husable, -, -⟩ | ⟨record, husable, htells, -⟩
  · rw [husable]
    dsimp only
    split
    · exact .inr ⟨_, rfl, rfl, rfl⟩
    · exact inspect_finds _
  · rw [husable]
    exact .inr ⟨record, rfl, htells⟩

/-- An account that a want concerns gives a candidate, or one record. -/
theorem seek_finds : input.Finds skipped account want (input.seek skipped account want) := by
  unfold seek
  split
  · exact .inr ⟨_, rfl, rfl, rfl⟩
  · cases want with
    | engine driverKind id => exact seekLight_finds
    | catalogLight driverKind => exact seekLight_finds
    | model driverKind providerId modelId options => exact inspect_finds _
    | exact driverKind model options id =>
      dsimp only
      split
      · split
        · exact inspect_finds _
        · rcases usable_cases skipped account (some (.exact driverKind model options id)) with
            ⟨catalog, husable, -, -⟩ | ⟨record, husable, htells, -⟩
          · rw [husable]
            exact .inr ⟨_, rfl, rfl, rfl⟩
          · rw [husable]
            exact .inr ⟨record, rfl, htells⟩
      · exact inspect_finds _
      · exact .inr ⟨_, rfl, rfl, rfl⟩

/-! ## The loops -/

variable (input) in
/-- What the loops have come to. -/
structure Booked (original : Option ResolvedModelCandidate) (record : Option SkippedModelCandidate) (s : Loop)
    (ledger : List Entry) : Prop where
  skipped : s.skipped = record.toList ++ ledger.filterMap Entry.skipped
  candidates : s.candidates = ledger.filterMap Entry.candidate
  seen : s.seen = original.toList.map input.key ++ s.candidates.map input.key
  distinct : s.seen.Nodup
  repeats : Before (input.Repeats original) ledger
  about : ∀ entry ∈ ledger, ∃ want account, input.wants[entry.want]? = some want ∧
    input.accounts[entry.account]? = some account ∧ concerns want account ∧ input.About want account entry.outcome

variable {original : Option ResolvedModelCandidate} {record : Option SkippedModelCandidate} {s : Loop}
  {ledger : List Entry}

/-- A pair that the want concerns has its entry. -/
theorem Booked.consider (h : input.Booked original record s ledger) {i j : Nat} (hwant : input.wants[i]? = some want)
    (haccount : input.accounts[j]? = some account) (hconcerns : concerns want account) :
    ∃ outcome, input.Booked original record (input.consider s want account) (ledger ++ [⟨i, j, outcome⟩]) := by
  have habout {outcome : Outcome} (hout : input.About want account outcome) : ∀ entry ∈ ledger ++ [⟨i, j, outcome⟩],
      ∃ want account, input.wants[entry.want]? = some want ∧ input.accounts[entry.account]? = some account ∧
        concerns want account ∧ input.About want account entry.outcome := by
    intro entry hentry
    rcases List.mem_append.mp hentry with hold | hnew
    · exact h.about entry hold
    · rw [List.mem_singleton.mp hnew]
      exact ⟨want, account, hwant, haccount, hconcerns, hout⟩
  unfold ResolveModelCandidatesInput.consider
  rw [if_pos hconcerns]
  rcases (@seek_finds input s.skipped account want) with
    ⟨selection, model, heq, hoffers⟩ | ⟨told, heq, htells⟩
  · rw [heq]
    dsimp only
    split
    · rename_i hin
      refine ⟨.duplicate (input.candidate account model selection false), ?_, ?_, h.seen, h.distinct, ?_, ?_⟩
      · rw [List.filterMap_append, h.skipped]
        simp [Entry.skipped]
      · rw [List.filterMap_append, h.candidates]
        simp [Entry.candidate]
      · refine h.repeats.snoc fun candidate hduplicate => ?_
        obtain rfl := Outcome.duplicate.inj hduplicate
        rw [h.seen, List.mem_append, List.mem_map, List.mem_map, h.candidates] at hin
        rcases hin with ⟨first, hfirst, hkey⟩ | ⟨first, hfirst, hkey⟩
        · exact ⟨first, hkey, .inl (Option.mem_toList.mp hfirst)⟩
        · obtain ⟨entry, hentry, hcandidate⟩ := List.mem_filterMap.mp hfirst
          refine ⟨first, hkey, .inr ⟨entry, hentry, ?_⟩⟩
          unfold Entry.candidate at hcandidate
          split at hcandidate
          · rename_i hout
            rw [hout, Option.some.inj hcandidate]
          · cases hcandidate
      · exact habout ⟨selection, model, hoffers, rfl⟩
    · rename_i hnot
      refine ⟨.candidate (input.candidate account model selection false), ?_, ?_, ?_, ?_, ?_, ?_⟩
      · rw [List.filterMap_append, h.skipped]
        simp [Entry.skipped]
      · rw [List.filterMap_append, h.candidates]
        simp [Entry.candidate]
      · rw [List.map_append, ← List.append_assoc, ← h.seen]
        rfl
      · refine List.nodup_append.mpr ⟨h.distinct, List.nodup_singleton _, fun a ha b hb hab => ?_⟩
        rw [hab, List.mem_singleton.mp hb] at ha
        exact hnot ha
      · exact h.repeats.snoc fun _ hduplicate => by cases hduplicate
      · exact habout ⟨selection, model, hoffers, rfl⟩
  · rw [heq]
    refine ⟨.skipped told, ?_, ?_, h.seen, h.distinct, ?_, habout htells⟩
    · rw [List.filterMap_append, h.skipped]
      simp [Entry.skipped]
    · rw [List.filterMap_append, h.candidates]
      simp [Entry.candidate]
    · exact h.repeats.snoc fun _ hduplicate => by cases hduplicate

theorem automaticAccountOrder_eq {T : Type} (isDefault : T → Bool) (accounts : List T) :
    automaticAccountOrder isDefault accounts = accounts.filter isDefault ++ accounts.filter fun a => !isDefault a := by
  have hle : (fun a b => decide ((isDefault b).toNat ≤ (isDefault a).toNat)) =
      fun a b => decide ((!isDefault a).toNat ≤ (!isDefault b).toNat) := by
    funext a b
    cases isDefault a <;> cases isDefault b <;> rfl
  rw [automaticAccountOrder, hle, mergeSort_flag fun a => !isDefault a]
  simp only [Bool.not_not]

/-- A want and an account with their places in the input. -/
abbrev Visit := (ModelWant × Nat) × (AuthorizedModelAccountSnapshot × Nat)

def Visit.place (visit : Visit) : Nat × Nat := (visit.1.2, visit.2.2)

variable (input) in
/-- The accounts in the order of the inner loop, with their places. -/
def accountsInOrder : List (AuthorizedModelAccountSnapshot × Nat) :=
  automaticAccountOrder (·.1.isDefault) input.accounts.zipIdx

variable (input) in
def visits : List Visit := input.wants.zipIdx.flatMap fun want => input.accountsInOrder.map fun account => (want, account)

theorem map_fst_accountsInOrder :
    input.accountsInOrder.map Prod.fst = automaticAccountOrder (·.isDefault) input.accounts := by
  rw [accountsInOrder, automaticAccountOrder_eq, automaticAccountOrder_eq, List.map_append]
  have hfilter (p : AuthorizedModelAccountSnapshot → Bool) :
      (input.accounts.zipIdx.filter fun a => p a.1).map Prod.fst = input.accounts.filter p := by
    have h := List.filter_map (f := Prod.fst) (p := p) (l := input.accounts.zipIdx)
    rw [List.zipIdx_map_fst] at h
    exact h.symm
  rw [hfilter (·.isDefault), hfilter fun a => !a.isDefault]

theorem mem_accountsInOrder {a : AuthorizedModelAccountSnapshot × Nat} :
    a ∈ input.accountsInOrder ↔ input.accounts[a.2]? = some a.1 := by
  rw [accountsInOrder, automaticAccountOrder, List.mem_mergeSort, List.mem_zipIdx_iff_getElem?]

theorem mem_visits {visit : Visit} : visit ∈ input.visits ↔
    input.wants[visit.1.2]? = some visit.1.1 ∧ input.accounts[visit.2.2]? = some visit.2.1 := by
  rw [visits, List.mem_flatMap, ← mem_accountsInOrder, ← List.mem_zipIdx_iff_getElem?]
  constructor
  · rintro ⟨want, hwant, hin⟩
    obtain ⟨account, haccount, rfl⟩ := List.mem_map.mp hin
    exact ⟨hwant, haccount⟩
  · exact fun ⟨hwant, haccount⟩ => ⟨visit.1, hwant, List.mem_map.mpr ⟨visit.2, haccount, rfl⟩⟩

/-- The loops go through the visits. -/
theorem foldl_visits (s : Loop) :
    input.wants.foldl (fun s want =>
      (automaticAccountOrder (·.isDefault) input.accounts).foldl (fun s account => input.consider s want account) s) s =
    input.visits.foldl (fun s visit => input.consider s visit.1.1 visit.2.1) s := by
  rw [visits, List.foldl_flatMap, ← map_fst_accountsInOrder]
  conv_lhs => rw [← List.zipIdx_map_fst 0 input.wants, List.foldl_map]
  simp only [List.foldl_map]

theorem zipIdx_pairwise {α : Type} (l : List α) : l.zipIdx.Pairwise fun a b => a.2 < b.2 := by
  have h := List.pairwise_lt_range' (s := 0) (n := l.length)
  rw [← List.zipIdx_map_snd, List.pairwise_map] at h
  exact h

theorem isDefaultAt_of {a : AuthorizedModelAccountSnapshot × Nat} (h : input.accounts[a.2]? = some a.1) :
    input.isDefaultAt a.2 = a.1.isDefault := by
  rw [isDefaultAt, h]
  rfl

theorem accountsInOrder_pairwise : input.accountsInOrder.Pairwise fun a b =>
    (input.isDefaultAt a.2 = true ∧ input.isDefaultAt b.2 = false) ∨
    input.isDefaultAt a.2 = input.isDefaultAt b.2 ∧ a.2 < b.2 := by
  have hdefault {a} (h : a ∈ input.accounts.zipIdx) : input.isDefaultAt a.2 = a.1.isDefault :=
    isDefaultAt_of (List.mem_zipIdx_iff_getElem?.mp h)
  have hflag {b : Bool} (h : (!b) = true) : b = false := by simpa using h
  rw [accountsInOrder, automaticAccountOrder_eq, List.pairwise_append]
  refine ⟨?_, ?_, fun a ha b hb => ?_⟩
  · refine ((zipIdx_pairwise _).filter _).imp_of_mem fun ha hb hlt => .inr ⟨?_, hlt⟩
    rw [hdefault (List.mem_of_mem_filter ha), hdefault (List.mem_of_mem_filter hb), (List.mem_filter.mp ha).2,
      (List.mem_filter.mp hb).2]
  · refine ((zipIdx_pairwise _).filter _).imp_of_mem fun ha hb hlt => .inr ⟨?_, hlt⟩
    rw [hdefault (List.mem_of_mem_filter ha), hdefault (List.mem_of_mem_filter hb),
      hflag (List.mem_filter.mp ha).2, hflag (List.mem_filter.mp hb).2]
  · refine .inl ⟨?_, ?_⟩
    · rw [hdefault (List.mem_of_mem_filter ha), (List.mem_filter.mp ha).2]
    · rw [hdefault (List.mem_of_mem_filter hb), hflag (List.mem_filter.mp hb).2]

theorem visits_pairwise : (input.visits.map Visit.place).Pairwise input.Precedes := by
  rw [visits, List.pairwise_map, List.pairwise_flatMap]
  constructor
  · intro want _
    rw [List.pairwise_map]
    exact accountsInOrder_pairwise.imp fun h => .inr ⟨rfl, h⟩
  · refine (zipIdx_pairwise _).imp fun hlt v hv w hw => ?_
    obtain ⟨a, -, rfl⟩ := List.mem_map.mp hv
    obtain ⟨b, -, rfl⟩ := List.mem_map.mp hw
    exact .inl hlt

/-- Each visit of a pair that the want concerns has its entry, in their order. -/
theorem booked_visits (hs : input.Booked original record s []) {l : List Visit} (hl : l ⊆ input.visits) :
    ∃ ledger, input.Booked original record (l.foldl (fun s visit => input.consider s visit.1.1 visit.2.1) s) ledger ∧
      ledger.map Entry.place = (l.filter fun visit => concerns visit.1.1 visit.2.1).map Visit.place := by
  induction l using List.reverseRecOn with
  | nil => exact ⟨[], hs, rfl⟩
  | append_singleton l visit ih =>
    obtain ⟨hsub, hvisit⟩ := List.append_subset.mp hl
    obtain ⟨ledger, hbooked, hplaces⟩ := ih hsub
    obtain ⟨hwant, haccount⟩ := mem_visits.mp (hvisit List.mem_cons_self)
    rw [List.foldl_append, List.foldl_cons, List.foldl_nil, List.filter_append]
    by_cases hconcerns : concerns visit.1.1 visit.2.1
    · obtain ⟨outcome, hnext⟩ := hbooked.consider hwant haccount hconcerns
      refine ⟨_, hnext, ?_⟩
      simp [hplaces, hconcerns, Entry.place, Visit.place]
    · refine ⟨ledger, ?_, ?_⟩
      · rw [ResolveModelCandidatesInput.consider, if_neg hconcerns]
        exact hbooked
      · simp [hplaces, hconcerns]

/-! ## The original -/

variable {own : OriginalModelSelection} {model : SelectionModelDescriptor}

theorem Usable.unique (hdistinct : (input.accounts.map fun a => (a.environmentId, a.harnessInstanceId)).Nodup)
    (h : input.Usable own account model) {own' account' model'} (h' : input.Usable own' account' model') :
    own' = own ∧ account' = account ∧ model' = model := by
  obtain rfl := Option.some.inj (h.original.symm.trans h'.original)
  obtain rfl : account' = account := by
    refine List.inj_on_of_nodup_map hdistinct h'.authorized h.authorized ?_
    rw [h.environmentId, h'.environmentId, h.harnessInstanceId, h'.harnessInstanceId]
  refine ⟨rfl, rfl, ?_⟩
  obtain ⟨catalog, hcatalog, -, hoffered⟩ := h.offers.offered
  obtain ⟨catalog', hcatalog', -, hoffered'⟩ := h'.offers.offered
  obtain rfl := Option.some.inj (hcatalog.symm.trans hcatalog')
  exact ModelSelectionMatch.offered.inj (hoffered'.symm.trans hoffered)

theorem inspectOriginal_cases (hdistinct : (input.accounts.map fun a => (a.environmentId, a.harnessInstanceId)).Nodup) :
    (∃ own account model, input.Usable own account model ∧
      input.inspectOriginal = (some (input.candidate account model own.modelSelection true), [])) ∨
    (input.original.isSome ∧ (∀ own account model, ¬input.Usable own account model) ∧
      ∃ record, input.inspectOriginal = (none, [record])) ∨
    input.original = none ∧ input.inspectOriginal = (none, []) := by
  unfold inspectOriginal
  cases horiginal : input.original with
  | none => exact .inr (.inr ⟨rfl, rfl⟩)
  | some own =>
    dsimp only
    have hown {own' account model} (h : input.Usable own' account model) : own' = own :=
      Option.some.inj (h.original.symm.trans horiginal)
    split
    · rename_i hnone
      refine .inr (.inl ⟨rfl, fun own' account model h => ?_, _, rfl⟩)
      obtain rfl := hown h
      have hmissing := List.find?_eq_none.mp hnone account h.authorized
      exact hmissing (decide_eq_true ⟨h.environmentId, h.harnessInstanceId⟩)
    · rename_i account hfind
      have hin := List.mem_of_find?_eq_some hfind
      have hids := List.find?_some hfind
      obtain ⟨henvironment, hharness⟩ := of_decide_eq_true hids
      have haccount {own' account' model} (h : input.Usable own' account' model) : account' = account := by
        obtain rfl := hown h
        refine List.inj_on_of_nodup_map hdistinct h.authorized hin ?_
        rw [h.environmentId, h.harnessInstanceId, henvironment, hharness]
      split
      · rename_i hpast
        obtain ⟨hfromPast, hsource⟩ := Bool.and_eq_true_iff.mp hpast
        refine .inr (.inl ⟨rfl, fun own' account' model h => ?_, _, rfl⟩)
        obtain rfl := hown h
        obtain rfl := haccount h
        exact h.bound hfromPast (of_decide_eq_true hsource)
      · rename_i hbound
        rcases inspect_cases [] account own.modelSelection none true with ⟨model, heq, hoffers⟩ | ⟨record, heq, -, hno⟩
        · refine .inl ⟨own, account, model, ⟨horiginal, hin, henvironment, hharness, fun hpast hsource => ?_, hoffers⟩, heq⟩
          exact hbound (Bool.and_eq_true_iff.mpr ⟨hpast, decide_eq_true hsource⟩)
        · refine .inr (.inl ⟨rfl, fun own' account' model h => ?_, record, heq⟩)
          obtain rfl := hown h
          obtain rfl := haccount h
          exact hno model h.offers

/-! ## The result -/

theorem Booked.mem_candidates (h : input.Booked original record s ledger) {candidate : ResolvedModelCandidate}
    (hin : candidate ∈ ledger.filterMap Entry.candidate) : ∃ account ∈ input.accounts, ∃ selection model,
      input.Offers account selection model ∧ candidate = input.candidate account model selection false := by
  obtain ⟨entry, hentry, hcandidate⟩ := List.mem_filterMap.mp hin
  obtain ⟨want, account, -, haccount, -, habout⟩ := h.about entry hentry
  unfold Entry.candidate at hcandidate
  split at hcandidate
  · rename_i found hout
    obtain rfl := Option.some.inj hcandidate
    rw [hout] at habout
    exact ⟨account, List.mem_of_getElem? haccount, habout⟩
  · cases hcandidate

/-- The keys of the candidates, with the original's, are those that the loops have seen. -/
theorem Booked.nodup_keys (h : input.Booked original record s ledger) :
    (((ledger.filterMap Entry.candidate).filter (fun c => !c.usageLimited) ++
      (ledger.filterMap Entry.candidate).filter (·.usageLimited) ++ original.toList).map input.key).Nodup := by
  have hperm := (List.perm_append_comm.trans
    (List.filter_append_perm (·.usageLimited) (ledger.filterMap Entry.candidate))).append_right original.toList
  refine (((hperm.trans List.perm_append_comm).map input.key).nodup_iff).mpr ?_
  rw [List.map_append, ← h.candidates, ← h.seen]
  exact h.distinct

/-- The sorts are by a flag. -/
theorem resolveModelCandidates_eq : input.resolveModelCandidates =
    let accounts := input.accounts.filter (·.isDefault) ++ input.accounts.filter fun account => !account.isDefault
    let original := input.inspectOriginal.1
    let s := input.wants.foldl (fun s want => accounts.foldl (fun s account => input.consider s want account) s)
      ⟨input.inspectOriginal.2, (original.map input.key).toList, []⟩
    ⟨s.candidates.filter (fun c => !c.usageLimited) ++ s.candidates.filter (·.usageLimited) ++ original.toList,
      s.skipped⟩ := by
  rw [resolveModelCandidates]
  dsimp only
  rw [mergeSort_flag, automaticAccountOrder_eq]
  rfl

def luna : SelectionModelDescriptor where
  providerId := units "openai"
  modelId := units "gpt-6-luna"
  nativeModelId := some (units "gateway/gpt-6-luna")
  displayName := units "Luna"
  unavailableReason := none
  options := [.select (units "effort") (some (units "low")) [units "low", units "high"]]

def codexAccount (id : String) (isDefault : Bool) (usage : List ModelUsageFact) : AuthorizedModelAccountSnapshot where
  environmentId := ⟨"env"⟩
  harnessInstanceId := ⟨id⟩
  harnessRevision := 1
  driverKind := units "codex"
  sourceId := units "codex"
  isDefault
  enabled := true
  removed := false
  available := true
  catalog := some ⟨units "ready", none, [luna], none⟩
  usage

/-- The default account and the original's are limited; the second want is for the engine's own small model. -/
def threeAccounts : ResolveModelCandidatesInput where
  wants := [.exact (units "codex") (units "gpt-6-luna") none none, .engine (units "codex") (some ⟨"second"⟩)]
  original := some ⟨⟨"env"⟩, ⟨"third"⟩, ⟨units "openai", units "gpt-6-luna", none, .empty⟩, true⟩
  accounts := [codexAccount "second" false [], codexAccount "default" true [⟨units "openai", none, true, none⟩],
    codexAccount "third" false [⟨units "openai", none, true, some 2000⟩]]
  excludedAccounts := []
  canRun := fun _ => .ok
  now := 1000
  localeCompare := fun _ _ => .eq

end Opensteer.ModelCandidates.ResolveModelCandidatesInput
