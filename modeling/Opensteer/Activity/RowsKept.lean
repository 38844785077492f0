import Opensteer.Activity.WorkRows

/-!
# Rows stay where they are

The rows of a turn's work are its entries, each once (`Trace.all_add`), and an entry that comes adds
rows or extends the last one (`Grown.add`), so that what was drawn is drawn again as the turn goes
on. `workRows_kept` is both, for every list of entries.
-/

namespace Opensteer.Activity

variable {H : Type} (R : Reading H)

def RowBody.entries {σ : Type} (f : σ → List WorkEntry) : RowBody H σ → List WorkEntry
  | .place entry => [.place entry]
  | .note entry => [.message entry]
  | .reasoning entry => [.reasoning entry]
  | .subagent entry _ => [.node entry]
  | .steps payload => f payload

/-- The entries of a row that may get more. -/
def Row.drafted (row : Row H Steps) : List WorkEntry := row.body.entries Steps.entries

def Row.entries (row : Row H (ShownSteps H)) : List WorkEntry := row.body.entries ShownSteps.entries

@[simp] theorem Row.key_show (row : Row H Steps) : (row.show R).key = row.key := rfl

@[simp] theorem Row.entries_show (row : Row H Steps) : (row.show R).entries = row.drafted := by
  obtain ⟨key, body⟩ := row
  cases body <;> rfl

@[simp] theorem Row.drafted_placeRow (entry : PlaceEntry) :
    (placeRow entry : Row H Steps).drafted = [.place entry] := rfl

/-! ## Rows that grow -/

/-- The row with its entries, or some after them. -/
def Row.Extends (row row' : Row H Steps) : Prop := row'.key = row.key ∧ row.drafted <+: row'.drafted

theorem Row.Extends.refl (row : Row H Steps) : row.Extends row := ⟨rfl, List.prefix_rfl⟩

theorem Row.Extends.trans {a b c : Row H Steps} (h : a.Extends b) (h' : b.Extends c) : a.Extends c :=
  ⟨h'.1.trans h.1, h.2.trans h'.2⟩

/-- Each row is where it was, perhaps extended. -/
def Grown (rows rows' : List (Row H Steps)) : Prop :=
  ∀ (i : Nat) row, rows[i]? = some row → ∃ row', rows'[i]? = some row' ∧ row.Extends row'

theorem Grown.refl (rows : List (Row H Steps)) : Grown rows rows :=
  fun _ row hrow => ⟨row, hrow, .refl row⟩

theorem Grown.trans {a b c : List (Row H Steps)} (h : Grown a b) (h' : Grown b c) : Grown a c := by
  intro i row hrow
  obtain ⟨row', hrow', hextends⟩ := h i row hrow
  obtain ⟨row'', hrow'', hextends'⟩ := h' i row' hrow'
  exact ⟨row'', hrow'', hextends.trans hextends'⟩

theorem Grown.append (rows more : List (Row H Steps)) : Grown rows (rows ++ more) := by
  intro i row hrow
  refine ⟨row, ?_, .refl row⟩
  rw [List.getElem?_append_left (List.getElem?_eq_some_iff.mp hrow).1, hrow]

theorem Grown.last {rows : List (Row H Steps)} {row row' : Row H Steps} (h : row.Extends row') :
    Grown (rows ++ [row]) (rows ++ [row']) := by
  intro i other hother
  rw [List.getElem?_append] at hother
  split at hother
  · rename_i hi
    exact ⟨other, by rw [List.getElem?_append_left hi, hother], .refl other⟩
  · rename_i hi
    obtain ⟨hlt, rfl⟩ := List.getElem?_eq_some_iff.mp hother
    simp only [List.length_singleton, Nat.lt_one_iff] at hlt
    refine ⟨row', ?_, by simpa using h⟩
    rw [List.getElem?_append_right (by omega), hlt]
    rfl

/-! ## One entry -/

namespace Trace

variable {R} {t : Trace H}

/-- The entries of the rows, and those that wait for one. -/
def all (t : Trace H) : List WorkEntry := t.result.flatMap Row.drafted ++ t.pending.map .place

theorem flatMap_drafted_placeRow (places : List PlaceEntry) :
    (places.map placeRow : List (Row H Steps)).flatMap Row.drafted = places.map .place := by
  rw [List.flatMap_map, List.map_eq_flatMap]
  rfl

theorem all_flushPlaces : t.flushPlaces.all = t.all := by
  simp [all, flushPlaces, flatMap_drafted_placeRow]

theorem joined_eq {joinKey : Option Text} {key : Text} {last : Steps}
    (h : t.joined joinKey = some (key, last)) :
    ∃ rows, t.result = rows ++ [⟨key, .steps last⟩] := by
  unfold joined at h
  split at h
  · rename_i key' last' hlast
    split at h
    · obtain ⟨rfl, rfl⟩ := Prod.mk.inj (Option.some.inj h)
      exact List.getLast?_eq_some_iff.mp hlast
    · cases h
  · cases h

theorem all_addStep (entry : WorkEntry) (places : List PlaceEntry) (group : Option StepGroup)
    (joinKey : Option Text) : (t.addStep entry places group joinKey).all =
      t.result.flatMap Row.drafted ++ (places.map .place ++ entry :: t.pending.map .place) := by
  unfold addStep
  split
  · rename_i key last hjoined
    obtain ⟨rows, hrows⟩ := joined_eq hjoined
    simp [all, hrows, Row.drafted, RowBody.entries]
  · simp [all, push, Row.drafted, RowBody.entries]

theorem perm_placesFor (group : Option StepGroup) (joinKey : Option Text) :
    t.pending.Perm (t.placesFor group joinKey ++ if group = some .browser then
      t.pending.filter fun place => place ∉ t.placesFor group joinKey else t.pending) := by
  by_cases hgroup : group = some .browser
  · rw [if_pos hgroup]
    simp only [placesFor, if_pos hgroup]
    refine (List.filter_append_perm _ t.pending).symm.trans (.append_left _ (.of_eq ?_))
    refine List.filter_congr fun place hplace => ?_
    simp [List.mem_filter, hplace]
  · rw [if_neg hgroup, placesFor, if_neg hgroup, List.nil_append]

/-- An entry comes after places that waited, and before others. -/
theorem all_add (entry : WorkEntry) : ∃ claimed left, t.pending.Perm (claimed ++ left) ∧
    (t.add R entry).all =
      t.result.flatMap Row.drafted ++ (claimed.map .place ++ entry :: left.map .place) := by
  have hflushed : ∀ row : Row H Steps, row.drafted = [entry] →
      (t.flushPlaces.push row).all =
        t.result.flatMap Row.drafted ++ (t.pending.map .place ++ entry :: [].map .place) := by
    intro row hrow
    simp [all, push, flushPlaces, flatMap_drafted_placeRow, hrow]
  have hall : t.pending.Perm (t.pending ++ []) := by rw [List.append_nil]
  cases entry with
  | place entry =>
    simp only [add]
    split
    · exact ⟨t.pending, [], hall, by simp [all]⟩
    · exact ⟨t.pending, [], hall, hflushed _ rfl⟩
  | message entry => exact ⟨t.pending, [], hall, hflushed _ rfl⟩
  | reasoning entry => exact ⟨t.pending, [], hall, hflushed _ rfl⟩
  | node entry => exact ⟨t.pending, [], hall, hflushed _ rfl⟩
  | request entry =>
    refine ⟨t.pending, [], hall, ?_⟩
    rw [add, all_addStep]
    simp [flushPlaces, flatMap_drafted_placeRow]
  | tool tool =>
    exact ⟨_, _, perm_placesFor _ _, all_addStep ..⟩

theorem grown_flushPlaces : Grown t.result t.flushPlaces.result := .append _ _

theorem grown_push (row : Row H Steps) : Grown t.result (t.push row).result := .append _ _

theorem grown_addStep (entry : WorkEntry) (places : List PlaceEntry) (group : Option StepGroup)
    (joinKey : Option Text) : Grown t.result (t.addStep entry places group joinKey).result := by
  unfold addStep
  split
  · rename_i key last hjoined
    obtain ⟨rows, hrows⟩ := joined_eq hjoined
    rw [hrows, List.dropLast_concat]
    refine .last ⟨rfl, ?_⟩
    simp [Row.drafted, RowBody.entries]
  · exact grown_push _

theorem grown_addTool (tool : ToolEntry) : Grown t.result (t.addTool R tool).result := by
  unfold addTool
  extract_lets presentation group joinKey places pending
  exact grown_addStep (t := { t with pending }) (.tool tool) places group joinKey

theorem grown_add (entry : WorkEntry) : Grown t.result (t.add R entry).result := by
  cases entry with
  | place entry =>
    simp only [add]
    split
    · exact .refl _
    · exact grown_flushPlaces.trans (grown_push _)
  | message entry => exact grown_flushPlaces.trans (grown_push _)
  | reasoning entry => exact grown_flushPlaces.trans (grown_push _)
  | node entry => exact grown_flushPlaces.trans (grown_push _)
  | request entry => exact grown_flushPlaces.trans (grown_addStep _ _ _ _)
  | tool tool =>
    exact grown_addTool tool

@[simp] theorem pending_addStep (entry : WorkEntry) (places : List PlaceEntry)
    (group : Option StepGroup) (joinKey : Option Text) :
    (t.addStep entry places group joinKey).pending = t.pending := by
  unfold addStep
  split <;> rfl

theorem pending_addTool (tool : ToolEntry) {place : PlaceEntry}
    (h : place ∈ (t.addTool R tool).pending) : place ∈ t.pending := by
  unfold addTool at h
  extract_lets presentation group joinKey places pending at h
  rw [pending_addStep] at h
  by_cases hgroup : group = some .browser
  · simp only [pending, if_pos hgroup] at h
    exact (List.mem_filter.mp h).1
  · simpa only [pending, if_neg hgroup] using h

theorem pending_add {entry : WorkEntry} {place : PlaceEntry}
    (h : place ∈ (t.add R entry).pending) : place ∈ t.pending ∨
      ∃ sessionId surfaceId, place.place = .browser sessionId surfaceId := by
  cases entry with
  | place entry =>
    simp only [add] at h
    split at h
    · rename_i sessionId surfaceId hplace
      obtain h | h := List.mem_append.mp h
      · exact .inl h
      · rw [List.mem_singleton.mp h]
        exact .inr ⟨sessionId, surfaceId, hplace⟩
    · cases h
  | message entry => cases h
  | reasoning entry => cases h
  | node entry => cases h
  | request entry =>
    rw [add, pending_addStep] at h
    cases h
  | tool tool => exact .inl (pending_addTool tool h)

/-! ## Keys -/

/-- A row is named after one of its entries. -/
def Named (row : Row H Steps) : Prop :=
  ∃ entry ∈ row.drafted, ∃ tag ∈ ["place:", "note:", "reasoning:", "subagent:", "row:"],
    row.key = units tag ++ entry.id

theorem named_placeRow (entry : PlaceEntry) : Named (placeRow entry : Row H Steps) :=
  ⟨.place entry, List.mem_singleton_self _, "place:", by simp, rfl⟩

theorem named_flushPlaces (h : ∀ row ∈ t.result, Named row) :
    ∀ row ∈ t.flushPlaces.result, Named row := by
  intro row hrow
  obtain hrow | hrow := List.mem_append.mp hrow
  · exact h row hrow
  · obtain ⟨entry, -, rfl⟩ := List.mem_map.mp hrow
    exact named_placeRow entry

theorem named_push {row : Row H Steps} (h : ∀ row ∈ t.result, Named row) (hrow : Named row) :
    ∀ other ∈ (t.push row).result, Named other := by
  intro other hother
  obtain hother | hother := List.mem_append.mp hother
  · exact h other hother
  · rw [List.mem_singleton.mp hother]
    exact hrow

theorem named_addStep (h : ∀ row ∈ t.result, Named row) (entry : WorkEntry)
    (places : List PlaceEntry) (group : Option StepGroup) (joinKey : Option Text) :
    ∀ row ∈ (t.addStep entry places group joinKey).result, Named row := by
  unfold addStep
  split
  · rename_i key last hjoined
    obtain ⟨rows, hrows⟩ := joined_eq hjoined
    intro row hrow
    simp only [hrows, List.dropLast_concat] at hrow
    obtain hrow | hrow := List.mem_append.mp hrow
    · exact h row (hrows ▸ List.mem_append_left _ hrow)
    · obtain rfl := List.mem_singleton.mp hrow
      obtain ⟨namesake, hmem, tag, htag, hkey⟩ := h ⟨key, .steps last⟩ (by simp [hrows])
      refine ⟨namesake, ?_, tag, htag, hkey⟩
      exact List.mem_append_left _ (List.mem_append_left _ hmem)
  · refine named_push h ⟨entry, ?_, "row:", by simp, rfl⟩
    exact List.mem_append_right _ (List.mem_singleton_self _)

theorem named_addTool (h : ∀ row ∈ t.result, Named row) (tool : ToolEntry) :
    ∀ row ∈ (t.addTool R tool).result, Named row := by
  unfold addTool
  extract_lets presentation group joinKey places pending
  exact named_addStep (t := { t with pending }) h (.tool tool) places group joinKey

theorem named_add (h : ∀ row ∈ t.result, Named row) (entry : WorkEntry) :
    ∀ row ∈ (t.add R entry).result, Named row := by
  cases entry with
  | place entry =>
    simp only [add]
    split
    · exact h
    · exact named_push (named_flushPlaces h) (named_placeRow entry)
  | message entry =>
    exact named_push (named_flushPlaces h) ⟨_, List.mem_singleton_self _, "note:", by simp, rfl⟩
  | reasoning entry =>
    exact named_push (named_flushPlaces h) ⟨_, List.mem_singleton_self _, "reasoning:", by simp, rfl⟩
  | node entry =>
    exact named_push (named_flushPlaces h) ⟨_, List.mem_singleton_self _, "subagent:", by simp, rfl⟩
  | request entry => exact named_addStep (named_flushPlaces h) _ _ _ _
  | tool tool => exact named_addTool h tool

end Trace

theorem eq_of_tag {tag tag' : String} {id id' : Text}
    (htag : tag ∈ ["place:", "note:", "reasoning:", "subagent:", "row:"])
    (htag' : tag' ∈ ["place:", "note:", "reasoning:", "subagent:", "row:"])
    (h : units tag ++ id = units tag' ++ id') : id = id' := by
  -- No two tags begin with the same two letters.
  have hlong : ∀ tag ∈ ["place:", "note:", "reasoning:", "subagent:", "row:"], 2 ≤ (units tag).length := by
    decide +kernel
  have htwo : ∀ tag ∈ ["place:", "note:", "reasoning:", "subagent:", "row:"],
      ∀ tag' ∈ ["place:", "note:", "reasoning:", "subagent:", "row:"],
        (units tag).take 2 = (units tag').take 2 → tag = tag' := by decide +kernel
  have hfirst := congrArg (List.take 2) h
  rw [List.take_append_of_le_length (hlong tag htag), List.take_append_of_le_length (hlong tag' htag')] at hfirst
  obtain rfl := htwo tag htag tag' htag' hfirst
  exact List.append_cancel_left h

theorem nodup_keys {rows : List (Row H Steps)}
    (hids : ((rows.flatMap Row.drafted).map WorkEntry.id).Nodup)
    (hnamed : ∀ row ∈ rows, Trace.Named row) : (rows.map Row.key).Nodup := by
  rw [List.map_flatMap, List.nodup_flatMap] at hids
  refine List.pairwise_map.mpr (hids.2.imp_of_mem fun {row row'} hrow hrow' hdisjoint hkey => ?_)
  obtain ⟨entry, hentry, tag, htag, heq⟩ := hnamed row hrow
  obtain ⟨entry', hentry', tag', htag', heq'⟩ := hnamed row' hrow'
  have hid : entry.id = entry'.id := eq_of_tag htag htag' (by rw [← heq, ← heq', hkey])
  exact hdisjoint (List.mem_map_of_mem hentry) (hid ▸ List.mem_map_of_mem hentry')

/-! ## Every list of entries -/

theorem trace_concat (work : List WorkEntry) (entry : WorkEntry) :
    trace R (work ++ [entry]) = (trace R work).add R entry := by
  simp [trace]

/-- The places of the browser that wait at the end. -/
def waiting (work : List WorkEntry) : List PlaceEntry := (trace R work).pending

theorem perm_all_trace (work : List WorkEntry) : (trace R work).all.Perm work := by
  induction work using List.reverseRecOn with
  | nil => exact .refl _
  | append_singleton work entry ih =>
    rw [trace_concat]
    obtain ⟨claimed, left, hperm, hall⟩ := Trace.all_add (R := R) (t := trace R work) entry
    rw [hall]
    -- The places that waited are the claimed and the left ones, in another order.
    have hmiddle : (claimed.map WorkEntry.place ++ entry :: left.map .place).Perm
        ((trace R work).pending.map .place ++ [entry]) := by
      refine List.perm_middle.trans ?_
      rw [← List.map_append]
      exact ((hperm.symm.map _).cons entry).trans (List.perm_append_singleton _ _).symm
    refine (hmiddle.append_left _).trans ?_
    rw [← List.append_assoc]
    exact ih.append_right _

theorem filter_all_trace (work : List WorkEntry) :
    (trace R work).all.filter (fun entry => !entry.isPlace) =
      work.filter fun entry => !entry.isPlace := by
  have hplaces : ∀ places : List PlaceEntry,
      (places.map WorkEntry.place).filter (fun entry => !entry.isPlace) = [] := by
    intro places
    rw [List.filter_eq_nil_iff]
    rintro entry hentry
    obtain ⟨place, -, rfl⟩ := List.mem_map.mp hentry
    simp [WorkEntry.isPlace]
  induction work using List.reverseRecOn with
  | nil => rfl
  | append_singleton work entry ih =>
    rw [trace_concat]
    obtain ⟨claimed, left, -, hall⟩ := Trace.all_add (R := R) (t := trace R work) entry
    rw [hall]
    simp only [List.filter_append, List.filter_cons, ← ih, Trace.all, hplaces]
    simp

theorem grown_trace (work more : List WorkEntry) :
    Grown (trace R work).result (trace R (work ++ more)).result := by
  induction more using List.reverseRecOn with
  | nil => rw [List.append_nil]; exact .refl _
  | append_singleton more entry ih =>
    rw [← List.append_assoc, trace_concat]
    exact ih.trans (Trace.grown_add entry)

theorem named_trace (work : List WorkEntry) : ∀ row ∈ (trace R work).result, Trace.Named row := by
  induction work using List.reverseRecOn with
  | nil => exact nofun
  | append_singleton work entry ih => rw [trace_concat]; exact Trace.named_add ih entry

theorem workRows_eq (work : List WorkEntry) :
    workRows R work =
      (trace R work).result.map (Row.show R) ++ (waiting R work).map placeRow := by
  simp [workRows, Trace.flushPlaces, waiting, Row.show, placeRow]

theorem flatMap_entries_workRows (work : List WorkEntry) :
    (workRows R work).flatMap Row.entries = (trace R work).all := by
  rw [workRows, List.flatMap_map, ← Trace.all_flushPlaces]
  simp [Trace.all, Trace.flushPlaces]

theorem browser_of_mem_waiting (work : List WorkEntry) :
    ∀ place ∈ waiting R work, ∃ sessionId surfaceId, place.place = .browser sessionId surfaceId := by
  induction work using List.reverseRecOn with
  | nil => exact nofun
  | append_singleton work entry ih =>
    intro place hplace
    rw [waiting, trace_concat] at hplace
    exact (Trace.pending_add hplace).elim (ih place) id

/-- The rows of a turn's work: its entries, each once, with those that are no places in order; keys
that differ; and, however the work goes on, the same rows first, but for the places that wait. -/
structure RowsKept (work : List WorkEntry) : Prop where
  entries : ((workRows R work).flatMap Row.entries).Perm work
  order : ((workRows R work).flatMap Row.entries).filter (fun entry => !entry.isPlace) =
    work.filter fun entry => !entry.isPlace
  keys : ((workRows R work).map Row.key).Nodup
  waits : ∀ place ∈ waiting R work, ∃ sessionId surfaceId, place.place = .browser sessionId surfaceId
  stays : ∀ more, ∃ settled, workRows R work = settled ++ (waiting R work).map placeRow ∧
    ∀ (i : Nat) row, settled[i]? = some row → ∃ row', (workRows R (work ++ more))[i]? = some row' ∧
      row'.key = row.key ∧ row.entries <+: row'.entries

theorem workRows_kept (work : List WorkEntry) (h : (work.map WorkEntry.id).Nodup) :
    RowsKept R work where
  entries := by
    rw [flatMap_entries_workRows]
    exact perm_all_trace R work
  order := by
    rw [flatMap_entries_workRows]
    exact filter_all_trace R work
  keys := by
    have hids : (((trace R work).flushPlaces.result.flatMap Row.drafted).map WorkEntry.id).Nodup := by
      have hperm := (perm_all_trace R work).map WorkEntry.id
      rw [← Trace.all_flushPlaces] at hperm
      simpa [Trace.all, Trace.flushPlaces] using hperm.nodup_iff.mpr h
    rw [workRows, List.map_map]
    exact nodup_keys hids (Trace.named_flushPlaces (named_trace R work))
  waits := browser_of_mem_waiting R work
  stays := by
    intro more
    refine ⟨_, workRows_eq R work, fun i row hrow => ?_⟩
    rw [List.getElem?_map, Option.map_eq_some_iff] at hrow
    obtain ⟨draft, hdraft, rfl⟩ := hrow
    obtain ⟨draft', hdraft', hkey, hentries⟩ :=
      (grown_trace R work more).trans Trace.grown_flushPlaces i draft hdraft
    refine ⟨draft'.show R, ?_, hkey, ?_⟩
    · rw [workRows, List.getElem?_map, hdraft', Option.map_some]
    · rw [Row.entries_show, Row.entries_show]
      exact hentries

/-- A place, a browser step that claims it, a step that joins its row, and a place that waits. -/
def someWork : List WorkEntry :=
  let tool id : WorkEntry :=
    .tool ⟨units id, none, units id, none, .null, none, none, .done, [], none⟩
  let place id : WorkEntry :=
    .place ⟨units id, units "run", .browser (units "s") (units id), none, []⟩
  [place "a", tool "b", tool "c", .reasoning ⟨units "d", none, []⟩, place "e"]

def browserReading : Reading Unit where
  toolPresentation _ := ⟨.browser, some (units "agent --session s")⟩
  effectiveCommand _ := some (units "agent --session s")
  nodeHead _ := ()
  browserRowHead _ _ := ()

theorem workRows_kept_someWork :
    (workRows browserReading someWork).map Row.key =
      [units "row:b", units "reasoning:d", units "place:e"] ∧ RowsKept browserReading someWork :=
  ⟨by decide +kernel, workRows_kept browserReading someWork (by decide +kernel)⟩

end Opensteer.Activity
