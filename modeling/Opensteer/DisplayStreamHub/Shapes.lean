import Opensteer.DisplayStreamHub.Model

/-!
# The cases of what a handler does

What `#demand` and `#endSource` come to in each of their cases (`Demands`,
`endSource_cases`), and which viewers are there after those of a source, or all of
them, are gone.
-/

namespace Opensteer.DisplayStreamHub

open Opensteer.DisplayStreamHub.Stream

variable {s s' : Stream} {w : World} {id : Nat}

/-! ## Viewers that go -/

@[simp] theorem viewers_resetInput (s : Stream) : s.resetInput.viewers = s.viewers := by
  unfold Stream.resetInput
  split <;> rfl

@[simp] theorem ended_resetInput (s : Stream) : s.resetInput.ended = s.ended := by
  unfold Stream.resetInput
  split <;> rfl

theorem viewers_removeViewer (s : Stream) (id other : Nat) :
    (s.removeViewer id).viewers.get other = if id = other then none else s.viewers.get other := by
  unfold Stream.removeViewer
  split
  · rename_i hnone
    split
    · rename_i heq
      rw [← heq, hnone]
    · rfl
  · rw [← OrderedMap.get_delete]
    dsimp only
    split
    · rw [viewers_resetInput]
    · rfl

theorem viewers_foldl_removeViewer (ids : List Nat) (s : Stream) (other : Nat) :
    (ids.foldl removeViewer s).viewers.get other = if other ∈ ids then none else s.viewers.get other := by
  induction ids generalizing s with
  | nil => rfl
  | cons id ids ih =>
    rw [List.foldl_cons, ih, viewers_removeViewer]
    by_cases h : id = other
    · simp [h]
    · simp [h, Ne.symm h]

/-- With each of its viewers gone, a stream has none. -/
theorem entries_foldl_removeViewer (s : Stream) : (s.viewers.keys.foldl removeViewer s).viewers.entries = [] := by
  rw [OrderedMap.entries_eq_nil_iff]
  intro id
  rw [viewers_foldl_removeViewer]
  split
  · rfl
  · rename_i hmem
    rwa [OrderedMap.mem_keys, Option.not_isSome_iff_eq_none] at hmem

/-! ## `#demand` -/

/-- Nobody is a source of no viewers. -/
theorem sourcesOf_eq_nil_iff (viewers : List Viewer) : sourcesOf viewers = [] ↔ viewers = [] := by
  refine ⟨fun h => ?_, fun h => by rw [h]; rfl⟩
  cases viewers using List.reverseRecOn with
  | nil => rfl
  | append_singleton viewers v _ =>
    rw [sourcesOf, List.foldl_append, OrderedMap.values, List.map_eq_nil_iff, OrderedMap.entries_eq_nil_iff] at h
    have hv := h v.source.key
    simp at hv

/-- Asked for nothing, a stream that is cleared. -/
def Stream.unasked (s : Stream) (key : DemandKey) : Stream := { s with demandKey := some key }.clearCache

/-- A Mac window that stays warm. -/
def Stream.warmed (s : Stream) (key : DemandKey) : Stream :=
  { s.unasked key with stopping := true }.publishState { s.state with state := .warming }

/-- A phone's stream that nobody views. -/
def Stream.unviewed (s : Stream) (key : DemandKey) : Stream :=
  { s.unasked key with withheldThrough := max s.withheldThrough s.generation }.publishState
    { s.state with state := .protected }

/-- The cases of `#demand`. -/
inductive Demands (s : Stream) : Stream → Prop
  | asked {stopping authorities key} (hkey : s.demandKey = some key)
      (hsources : key.sources = sourcesOf s.viewers.values) : Demands s { s with stopping, authorities }
  | asks {stopping authorities key} (hsources : key.sources = sourcesOf s.viewers.values)
      (hne : key.sources ≠ []) :
      Demands s ({ s with stopping, authorities, demandKey := some key }.send (.demand key.sources))
  | ends {key} (hsources : key.sources = sourcesOf s.viewers.values) (hnil : key.sources = [])
      (htarget : s.options.target.isSome = true) : Demands s ((s.unasked key).finish true)
  | warms {key} (evicts : Bool) (hsources : key.sources = sourcesOf s.viewers.values) (hnil : key.sources = [])
      (htarget : s.options.target.isSome = true) :
      Demands s ((if evicts then (s.warmed key).finish true else s.warmed key).send (.demand []))
  | withholds {key} (hsources : key.sources = sourcesOf s.viewers.values) (hnil : key.sources = [])
      (htarget : s.options.target = none) : Demands s ((s.unviewed key).send (.demand []))

theorem demands_demand (w : World) (s : Stream) : Demands s (s.demand w) := by
  unfold Stream.demand
  dsimp only
  generalize hsources : sourcesOf s.viewers.values = sources
  generalize (if (if s.options.target.isSome && sources.isEmpty then
    (s.authorities.values.filter fun e => w.live e.1 e.2).map Prod.fst else []).isEmpty then none
    else some _ : Option (List DisplaySource)) = warm
  cases sources with
  | cons source sources =>
    simp only [List.isEmpty_cons, Bool.false_eq_true, if_false, Bool.not_false, if_true]
    generalize hkey : (⟨source :: sources, warm, _, _⟩ : DemandKey) = key
    have hkeys : key.sources = source :: sources := by rw [← hkey]
    rw [← hkeys] at hsources ⊢
    split
    · rename_i hsame
      exact .asked hsame hsources.symm
    · exact .asks hsources.symm (hkeys ▸ List.cons_ne_nil _ _)
  | nil =>
    simp only [List.isEmpty_nil, if_true, Bool.not_true, Bool.false_eq_true, if_false]
    generalize hkey : (⟨[], warm, _, _⟩ : DemandKey) = key
    have hkeys : key.sources = [] := by rw [← hkey]
    split
    · rename_i hsame
      exact .asked hsame (hkeys.trans hsources.symm)
    · split
      · rename_i htarget
        split
        · exact .ends (hkeys.trans hsources.symm) hkeys htarget
        · exact .warms w.evicts (hkeys.trans hsources.symm) hkeys htarget
      · rename_i htarget
        rw [Bool.not_eq_true, Option.isSome_eq_false_iff, Option.isNone_iff_eq_none] at htarget
        exact .withholds (hkeys.trans hsources.symm) hkeys htarget

/-! ## `#endSource` -/

/-- What a source's viewers leave. -/
def Stream.withoutSource (s : Stream) (source : DisplaySource) : Stream :=
  ((s.viewers.entries.filter fun e => e.2.source.key = source.key).map Prod.fst).foldl removeViewer
    { s with authorities := s.authorities.delete source.key }

/-- The source's viewers are gone, and no other. -/
theorem viewers_withoutSource (s : Stream) (source : DisplaySource) (id : Nat) :
    (s.withoutSource source).viewers.get id =
      (s.viewers.get id).filter fun v => decide (v.source.key ≠ source.key) := by
  have hgone : id ∈ (s.viewers.entries.filter fun e => e.2.source.key = source.key).map Prod.fst ↔
      ∃ v, s.viewers.get id = some v ∧ v.source.key = source.key := by
    simp only [List.mem_map, List.mem_filter, Prod.exists, decide_eq_true_eq, exists_and_right,
      exists_eq_right, OrderedMap.mem_entries]
  unfold Stream.withoutSource
  rw [viewers_foldl_removeViewer]
  cases hv : s.viewers.get id with
  | none => simp
  | some v =>
    by_cases hkey : v.source.key = source.key
    · rw [if_pos (hgone.mpr ⟨v, hv, hkey⟩), Option.filter_some, if_neg (by simp [hkey])]
    · rw [if_neg (by simp [hgone, hv, hkey]), Option.filter_some, if_pos (by simp [hkey])]

/-- The cases of `#endSource`. -/
theorem endSource_cases (w : World) (s : Stream) (source : DisplaySource) :
    (s.ended = true ∧ s.endSource w source = s) ∨
    ((∀ id v, s.viewers.get id = some v → v.source.key ≠ source.key) ∧
      s.endSource w source = { s with authorities := s.authorities.delete source.key }) ∨
    s.endSource w source = (s.withoutSource source).finish true ∨
    s.endSource w source = (s.withoutSource source).demand w := by
  unfold Stream.endSource
  split
  · rename_i h
    exact .inl ⟨h, rfl⟩
  · refine .inr ?_
    dsimp only
    generalize hgone : (s.viewers.entries.filter fun e => decide (e.2.source.key = source.key)) = gone
    have hwithout : (gone.map Prod.fst).foldl removeViewer { s with authorities := s.authorities.delete source.key } =
        s.withoutSource source := by
      rw [← hgone]
      rfl
    rw [hwithout]
    split
    · rename_i hremoved
      have hnil : gone = [] := by
        cases gone with
        | nil => rfl
        | cons e gone => simp at hremoved
      refine .inl ⟨fun id v hv hkey => ?_, ?_⟩
      · have hmem : (id, v) ∈ gone := by
          rw [← hgone]
          exact List.mem_filter.mpr ⟨OrderedMap.mem_entries.mpr hv, by simpa using hkey⟩
        rw [hnil] at hmem
        cases hmem
      · rw [← hwithout, hnil]
        rfl
    · split
      · exact .inr (.inl rfl)
      · exact .inr (.inr rfl)

/-- The cases of `#viewerLive`. -/
theorem viewerLive_cases (w : World) (s : Stream) (id : Nat) :
    (s.viewers.get id = none ∧ s.viewerLive w id = (false, s)) ∨
    ∃ v, s.viewers.get id = some v ∧
      (s.viewerLive w id = (true, s) ∨ s.viewerLive w id = (false, s.endSource w v.source)) := by
  unfold Stream.viewerLive
  cases hv : s.viewers.get id with
  | none => exact .inl ⟨rfl, rfl⟩
  | some v =>
    refine .inr ⟨v, rfl, ?_⟩
    by_cases hlive : w.live v.source v.actor = true
    · exact .inl (if_pos hlive)
    · exact .inr (if_neg hlive)

/-! ## Media -/

/-- A frame came that is next. -/
def Stream.receives (s : Stream) (frame : MediaFrame) : Stream := { s with
  sent := s.sent ++ [frame], sequence := frame.sequence, mediaGeneration := frame.generation }

/-- It is of a newer generation. -/
def Stream.advances (s : Stream) (frame : MediaFrame) : Stream :=
  { (s.receives frame).clearCache with generation := frame.generation }.mapViewers Viewer.wait

/-- The cases of a frame on the data socket. -/
inductive Receives (w : World) (frame : MediaFrame) (s : Stream) : Stream → Prop
  | fails (htarget : s.options.target.isSome = true) :
      Receives w frame s ({ s with sent := s.sent ++ [frame] }.failCapture w "capture-failed")
  | ends (htarget : s.options.target = none) : Receives w frame s ({ s with sent := s.sent ++ [frame] }.finish false)
  | unviewed (htarget : s.options.target.isSome = true) (hviewers : s.viewers.entries = []) :
      Receives w frame s { s with sent := s.sent ++ [frame] }
  | unkeyed (hkey : s.firstKey = false) : Receives w frame s (s.receives frame)
  | advances (hnewer : s.generation < frame.generation) (hshown : s.withheldThrough < frame.generation)
      (hviewers : s.options.target.isSome = true → s.viewers.entries ≠ []) :
      Receives w frame s ((s.advances frame).publish w frame)
  | skips (hnewer : s.generation < frame.generation) (hwithheld : frame.generation ≤ s.withheldThrough) :
      Receives w frame s ((s.advances frame).clearCache.mapViewers Viewer.wait)
  | publishes (hsame : frame.generation = s.generation) (hshown : s.withheldThrough < frame.generation)
      (hviewers : s.options.target.isSome = true → s.viewers.entries ≠ []) :
      Receives w frame s ((s.receives frame).publish w frame)
  | withheld (hsame : frame.generation = s.generation) :
      Receives w frame s ((s.receives frame).clearCache.mapViewers Viewer.wait)
  | older (holder : frame.generation < s.generation) (hmedia : s.mediaGeneration ≤ frame.generation) :
      Receives w frame s (s.receives frame)

theorem receives_media (w : World) (s : Stream) (frame : MediaFrame) : Receives w frame s (s.media w frame) := by
  unfold Stream.media
  dsimp only
  split
  · split
    · rename_i htarget
      exact .fails htarget
    · rename_i htarget
      exact .ends (by simpa using htarget)
  · rename_i hnext
    rw [not_or, Nat.not_lt] at hnext
    split
    · rename_i hunviewed
      rw [Bool.and_eq_true, List.isEmpty_iff] at hunviewed
      exact .unviewed hunviewed.1 hunviewed.2
    · rename_i hviewed
      have hviewers : s.options.target.isSome = true → s.viewers.entries ≠ [] := fun htarget hnil => by
        simp [htarget, hnil] at hviewed
      split
      · rename_i hunkeyed
        exact .unkeyed (by simpa using (Bool.and_eq_true_iff.mp (Bool.and_eq_true_iff.mp hunkeyed).1).2)
      · by_cases hnewer : s.generation < frame.generation
        · rw [if_pos hnewer]
          change Receives w frame s (if frame.generation = (s.advances frame).generation ∧
            (s.advances frame).withheldThrough < frame.generation then (s.advances frame).publish w frame
            else if (s.advances frame).generation ≤ frame.generation then
              (s.advances frame).clearCache.mapViewers Viewer.wait else s.advances frame)
          by_cases hshown : s.withheldThrough < frame.generation
          · rw [if_pos ⟨rfl, hshown⟩]
            exact .advances hnewer hshown hviewers
          · rw [if_neg fun h => hshown h.2,
              if_pos (show (s.advances frame).generation ≤ frame.generation from Nat.le_refl _)]
            exact .skips hnewer (Nat.not_lt.mp hshown)
        · rw [if_neg hnewer]
          change Receives w frame s (if frame.generation = (s.receives frame).generation ∧
            (s.receives frame).withheldThrough < frame.generation then (s.receives frame).publish w frame
            else if (s.receives frame).generation ≤ frame.generation then
              (s.receives frame).clearCache.mapViewers Viewer.wait else s.receives frame)
          by_cases hsame : frame.generation = s.generation
          · by_cases hshown : s.withheldThrough < frame.generation
            · rw [if_pos ⟨hsame, hshown⟩]
              exact .publishes hsame hshown hviewers
            · rw [if_neg fun h => hshown h.2,
                if_pos (show (s.receives frame).generation ≤ frame.generation from Nat.le_of_eq hsame.symm)]
              exact .withheld hsame
          · have holder : frame.generation < s.generation := by omega
            rw [if_neg fun h => hsame h.1,
              if_neg (show ¬(s.receives frame).generation ≤ frame.generation from Nat.not_le.mpr holder)]
            exact .older holder hnext.2

end Opensteer.DisplayStreamHub
