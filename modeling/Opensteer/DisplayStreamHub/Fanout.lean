import Opensteer.DisplayStreamHub.Lanes

/-!
# Frames for every viewer

A frame the phone sent is cached, and each viewer has its turn at it (`relayed_deliver`,
`relayed_publish`). With what a state of the phone, a viewer that comes and what a viewer
says do, every handler keeps the viewers in their lanes.
-/

namespace Opensteer.DisplayStreamHub

open Opensteer.DisplayStreamHub.Stream

variable {s s' t : Stream} {w : World} {id : Nat} {v v' : Viewer} {sent old : List MediaFrame}
  {sentFor : Nat → List MediaFrame} {frame : MediaFrame}

/-! ## One frame -/

/-- It is the turn of a frame of the stream's generation. -/
structure Turn (frame : MediaFrame) (s : Stream) : Prop where
  generation : s.generation = frame.generation
  media : s.mediaGeneration = frame.generation
  key : frame.key = true → s.firstKey = true

theorem Turn.shows (h : Turn frame s) (hshows : Shows s s') : Turn frame s' where
  generation := hshows.generation.trans h.generation
  media := hshows.mediaGeneration.trans h.media
  key hkey := hshows.firstKey (h.key hkey)

/-- What is handed of the frame itself is of the stream's generation. -/
theorem Turn.shows_hands (h : Turn frame s) {frames : List MediaFrame} (hframes : frames ⊆ [frame]) :
    Shows s (s.hands id v frames) where
  options := rfl
  sent := rfl
  generation := rfl
  mediaGeneration := rfl
  firstKey := fun h => h
  ended := fun h => h
  withheld_le := Nat.le_refl _
  withheld_bound := Nat.le_max_left _ _
  handed := by
    refine ⟨_, rfl, fun p hp => ?_⟩
    obtain ⟨taken, htaken, rfl⟩ := List.mem_map.mp hp
    rw [List.mem_singleton.mp (hframes htaken)]
    exact h.generation.symm

/-- A viewer is handed the frame, if its socket takes it. -/
theorem Relayed.sends (h : Relayed (old ++ [frame]) sentFor s) (hid : sentFor id = old) (hturn : Turn frame s)
    (hv : s.viewers.get id = some v) (hnone : v.replayIndex = none)
    (hkey : v.waiting = true → frame.key = true) (roomy : Bool) :
    Relayed (old ++ [frame]) (Function.update sentFor id (old ++ [frame]))
      (s.hands id ({ v with waiting := false }.sendFrame roomy frame).1
        ({ v with waiting := false }.sendFrame roomy frame).2) := by
  by_cases htaken : (v.isOpen && roomy) = true
  · have hopen : v.isOpen = true := (Bool.and_eq_true_iff.mp htaken).1
    simp only [Viewer.sendFrame, htaken, if_true]
    have hmem : frame ∈ old ++ [frame] := List.mem_append_right _ (List.mem_singleton_self frame)
    have hlane := h.lanes id v hv hopen
    rw [hid] at hlane
    obtain ⟨hdecodable, hfirst⟩ : Decodable MediaFrame.IsKey MediaFrame.Joins (old ++ [frame])
        (s.handedTo id ++ [frame]) ∧ s.firstKey = true := by
      by_cases hframe : frame.key = true
      · exact ⟨(h.decodable id).key hmem hframe, hturn.key hframe⟩
      · cases hlane with
        | waits hwaiting => exact absurd (hkey hwaiting) hframe
        | replays _ hindex => cases hnone.symm.trans hindex
        | follows last _ _ hlast hsent hgeneration _ hfirst =>
          exact ⟨(h.decodable id).next hlast (hgeneration.trans hturn.generation)
            (infix_of_getLast? hsent frame), hfirst⟩
    refine h.hands hv hdecodable fun _ => .follows frame rfl hnone ?_ ?_ hturn.generation.symm
      (hturn.media.trans hturn.generation.symm) hfirst
    · rw [handedTo_hands, if_pos rfl]
      simp
    · simp
  · rw [Bool.not_eq_true] at htaken
    simp only [Viewer.sendFrame, htaken, Bool.false_eq_true, if_false]
    refine h.hands hv ?_ fun hopen => by cases hopen
    rw [List.append_nil]
    exact h.decodable id

/-- A viewer's turn at a frame. -/
theorem relayed_deliver (h : Relayed (old ++ [frame]) sentFor s) (hid : sentFor id = old) (hturn : Turn frame s)
    (w : World) : Relayed (old ++ [frame]) (Function.update sentFor id (old ++ [frame])) (s.deliver w frame id) ∧
      Shows s (s.deliver w frame id) := by
  unfold Stream.deliver
  dsimp only
  split
  · rename_i hlive
    exact ⟨h.unlive (by simpa using hlive), (quiet_viewerLive w s id).shows⟩
  · split
    · rename_i hnone
      exact ⟨h.passed fun v hv => (by cases hnone.symm.trans hv), (Quiet.refl s).shows⟩
    · rename_i v hv
      by_cases hindex : v.replayIndex = none
      · rw [if_neg (not_not.mpr hindex)]
        split
        · -- It waits for a key, and this is none.
          rename_i hwaits
          refine ⟨h.passed fun u hu _ => ?_, (Quiet.refl s).shows⟩
          obtain rfl := Option.some.inj (hv.symm.trans hu)
          exact .waits (Bool.and_eq_true_iff.mp hwaits).1 hindex
        · rename_i hwaits
          split
          · refine ⟨h.sends hid hturn hv hindex (fun hwaiting => ?_) _, hturn.shows_hands ?_⟩
            · simpa [hwaiting] using hwaits
            · unfold Viewer.sendFrame
              split
              · exact fun _ hf => hf
              · exact List.nil_subset _
          · -- It has no credit for the frame, and waits for a key.
            have hquiet : Quiet s (if v.displayWindow && w.rebudgets then s.demand w else s) := by
              split
              · exact quiet_demand w s
              · exact .refl s
            generalize (if v.displayWindow && w.rebudgets then s.demand w else s) = s₁ at hquiet
            have hskips := quiet_modify s₁ id (f := Viewer.skip) (stays_skip False)
            refine ⟨(h.quiet (hquiet.trans hskips)).passed fun u hu _ => ?_, (hquiet.trans hskips).shows⟩
            rw [OrderedMap.get_modify, if_pos rfl] at hu
            obtain ⟨v₁, -, rfl⟩ := Option.map_eq_some_iff.mp hu
            exact .waits rfl rfl
      · rw [if_pos hindex]
        exact relayed_drainCache h w 0 (.inr ⟨v, hv, hindex⟩)

/-- Each viewer's turn. -/
theorem relayed_fanout (ids : List Nat) (hnodup : ids.Nodup)
    (h : Relayed (old ++ [frame]) (fun id => if id ∈ ids then old else old ++ [frame]) s) (hturn : Turn frame s)
    (w : World) : Relayed (old ++ [frame]) (fun _ => old ++ [frame]) (ids.foldl (deliver w frame) s) ∧
      Shows s (ids.foldl (deliver w frame) s) := by
  induction ids generalizing s with
  | nil => exact ⟨by simpa using h, (Quiet.refl s).shows⟩
  | cons id ids ih =>
    obtain ⟨hnot, hnodup⟩ := List.nodup_cons.mp hnodup
    have hold : (if id ∈ id :: ids then old else old ++ [frame]) = old := if_pos List.mem_cons_self
    obtain ⟨hrelayed, hshows⟩ := relayed_deliver h hold hturn w
    have hnext : Function.update (fun other => if other ∈ id :: ids then old else old ++ [frame]) id
        (old ++ [frame]) = fun other => if other ∈ ids then old else old ++ [frame] := by
      funext other
      by_cases heq : other = id
      · subst heq
        rw [Function.update_self, if_neg hnot]
      · rw [Function.update_of_ne heq]
        simp [heq]
    rw [hnext] at hrelayed
    obtain ⟨hrest, hshows'⟩ := ih hnodup hrelayed (hturn.shows hshows)
    exact ⟨hrest, hshows.trans hshows'⟩

/-- With an empty cache a frame that is not cached is as if it had not come. -/
theorem Relayed.uncached (h : Relayed old sentFor s) (hcache : s.cache = []) (frame : MediaFrame) :
    Relayed (old ++ [frame]) sentFor s where
  cached _ := by
    refine ⟨?_, ?_, ?_, ?_, ?_⟩ <;> simp [hcache]
  deserted := h.deserted
  lanes := h.lanes
  decodable id := (h.decodable id).extend [frame]

theorem quiet_skips (ids : List Nat) (s : Stream) :
    Quiet s (ids.foldl (fun s id => { s with viewers := s.viewers.modify id Viewer.skip }) s) :=
  Quiet.foldl (fun s id => quiet_modify s id (stays_skip False)) ids s

/-- The frame is cached, and every viewer's turn at it is to come. -/
theorem relayed_cacheFrame (h : Relayed old sentFor s) (hturn : Turn frame s)
    (hwithheld : s.withheldThrough < s.generation) :
    Relayed (old ++ [frame]) sentFor (s.cacheFrame frame) ∧ Shows s (s.cacheFrame frame) := by
  unfold Stream.cacheFrame
  split
  · rename_i hcontinues
    split
    · -- The cache overflows.
      dsimp only
      have hskips := quiet_skips ((s.viewers.entries.filter fun e => e.2.replayIndex ≠ none).map Prod.fst) s.clearCache
      have hquiet := (quiet_clearCache s).trans hskips
      exact ⟨(h.quiet hquiet).uncached (hskips.cache_nil rfl) frame, hquiet.shows⟩
    · refine ⟨?_, rfl, rfl, rfl, rfl, fun h => h, fun h => h, Nat.le_refl _, Nat.le_max_left _ _, [], (List.append_nil _).symm,
        fun _ hp => nomatch hp⟩
      refine ⟨fun hs => ?_, h.deserted, fun id v hv hopen => ?_, fun id => (h.decodable id).extend [frame]⟩
      · have hcached := h.cached hs
        refine ⟨suffix_append_singleton hcached.suffix frame, ?_, fun taken htaken => ?_, fun _ => hwithheld, ?_⟩
        · cases hcache : s.cache with
          | nil =>
            rw [hcache] at hcontinues
            simpa [MediaFrame.IsKey, hcache] using hcontinues
          | cons first rest =>
            have hkey := hcached.key
            rw [hcache] at hkey
            simpa [hcache] using hkey
        · rcases List.mem_append.mp htaken with htaken | htaken
          · exact hcached.generation taken htaken
          · rw [List.mem_singleton.mp htaken]
            exact hturn.generation.symm
        · intro _
          refine ⟨hturn.media.trans hturn.generation.symm, ?_⟩
          by_cases hcache : s.cache = []
          · rw [hcache] at hcontinues
            exact hturn.key (by simpa using hcontinues)
          · exact (hcached.current hcache).2
      · cases h.lanes id v hv hopen with
        | waits hwaiting hnone => exact .waits hwaiting hnone
        | follows last hwaiting hnone hlast hsent hgeneration hmedia hkey =>
          exact .follows last hwaiting hnone hlast hsent hgeneration hmedia hkey
        | replays index hindex hwaiting hcache hle hlast =>
          refine .replays index hindex hwaiting (by simp) ?_ ?_
          · show index ≤ (s.cache ++ [frame]).length
            rw [List.length_append]
            omega
          · show ∀ last ∈ ((s.cache ++ [frame]).take index).getLast?, (s.handedTo id).getLast? = some last
            rw [List.take_append_of_le_length hle]
            exact hlast
  · rename_i hcontinues
    refine ⟨h.uncached ?_ frame, (Quiet.refl s).shows⟩
    rw [Bool.not_eq_true, Bool.or_eq_false_iff] at hcontinues
    simpa using hcontinues.2

theorem withheldThrough_publishState (s : Stream) (next : DisplayViewerState) :
    (s.publishState next).withheldThrough = s.withheldThrough := by
  unfold Stream.publishState
  split
  · rfl
  · dsimp only
    split
    · unfold Stream.resetInput
      split <;> rfl
    · rfl

/-- The first key comes. -/
theorem Relayed.firstKey (h : Relayed sent sentFor s) : Relayed sent sentFor { s with firstKey := true } where
  cached hs := by
    have hcached := h.cached hs
    exact ⟨hcached.suffix, hcached.key, hcached.generation, hcached.withheld,
      fun hne => ⟨(hcached.current hne).1, rfl⟩⟩
  deserted := h.deserted
  lanes id v hv hopen := by
    cases h.lanes id v hv hopen with
    | waits hwaiting hnone => exact .waits hwaiting hnone
    | replays index hindex hwaiting hcache hle hlast => exact .replays index hindex hwaiting hcache hle hlast
    | follows last hwaiting hnone hlast hsent hgeneration hmedia _ =>
      exact .follows last hwaiting hnone hlast hsent hgeneration hmedia rfl
  decodable := h.decodable

/-- A frame that is shown is handed on to the viewers in their lanes. -/
theorem relayed_publish (h : Relayed old (fun _ => old) s) (hgeneration : s.generation = frame.generation)
    (hmedia : s.mediaGeneration = frame.generation) (hwithheld : s.withheldThrough < s.generation) (w : World) :
    Relayed (old ++ [frame]) (fun _ => old ++ [frame]) (s.publish w frame) ∧ Shows s (s.publish w frame) := by
  unfold Stream.publish
  dsimp only
  obtain ⟨hkeyed, hshows₁⟩ : Relayed old (fun _ => old) (if frame.key then { s with firstKey := true } else s) ∧
      Shows s (if frame.key then { s with firstKey := true } else s) := by
    split
    · exact ⟨h.firstKey, rfl, rfl, rfl, rfl, fun _ => rfl, fun h => h, Nat.le_refl _, Nat.le_max_left _ _, [],
        (List.append_nil _).symm, fun _ hp => nomatch hp⟩
    · exact ⟨h, (Quiet.refl s).shows⟩
  have hturn₁ : Turn frame (if frame.key then { s with firstKey := true } else s) ∧
      (if frame.key then { s with firstKey := true } else s).withheldThrough = s.withheldThrough := by
    split
    · exact ⟨⟨hgeneration, hmedia, fun _ => rfl⟩, rfl⟩
    · rename_i hkey
      exact ⟨⟨hgeneration, hmedia, fun h => absurd h hkey⟩, rfl⟩
  generalize (if frame.key then { s with firstKey := true } else s) = s₁ at hkeyed hshows₁ hturn₁
  obtain ⟨hturn₁, hwithheld₁⟩ := hturn₁
  obtain ⟨hquiet₂, hwithheld₂⟩ : Quiet s₁ (if s₁.state.state ≠ .live ∨ s₁.state.generation ≠ frame.generation then
        s₁.publishState ⟨.live, frame.generation, frame.width, frame.height, none⟩ else s₁) ∧
      (if s₁.state.state ≠ .live ∨ s₁.state.generation ≠ frame.generation then
        s₁.publishState ⟨.live, frame.generation, frame.width, frame.height, none⟩ else s₁).withheldThrough =
          s.withheldThrough := by
    split
    · exact ⟨quiet_publishState s₁ _, (withheldThrough_publishState s₁ _).trans hwithheld₁⟩
    · exact ⟨.refl s₁, hwithheld₁⟩
  generalize (if s₁.state.state ≠ .live ∨ s₁.state.generation ≠ frame.generation then
    s₁.publishState ⟨.live, frame.generation, frame.width, frame.height, none⟩ else s₁) = s₂ at hquiet₂ hwithheld₂
  obtain ⟨hquiet₃, hwithheld₃⟩ : Quiet s₂ (if frame.key then s₂.clearCache else s₂) ∧
      (if frame.key then s₂.clearCache else s₂).withheldThrough = s.withheldThrough := by
    split
    · exact ⟨quiet_clearCache s₂, hwithheld₂⟩
    · exact ⟨.refl s₂, hwithheld₂⟩
  generalize (if frame.key then s₂.clearCache else s₂) = s₃ at hquiet₃ hwithheld₃
  have hquiet := hquiet₂.trans hquiet₃
  have hturn₃ := hturn₁.shows hquiet.shows
  obtain ⟨hcached, hshows₄⟩ := relayed_cacheFrame (hkeyed.quiet hquiet) hturn₃
    (by rw [hwithheld₃, hturn₃.generation, ← hgeneration]; exact hwithheld)
  generalize s₃.cacheFrame frame = s₄ at hcached hshows₄
  have hkeys : ∀ id v, s₄.viewers.get id = some v →
      (if id ∈ s₄.viewers.keys then old else old ++ [frame]) = old := fun id v hv =>
    if_pos (OrderedMap.mem_keys.mpr (by rw [hv]; rfl))
  obtain ⟨hrelayed, hshows₅⟩ := relayed_fanout s₄.viewers.keys s₄.viewers.nodup (hcached.congr hkeys)
    (hturn₃.shows hshows₄) w
  exact ⟨hrelayed, hshows₁.trans (hquiet.shows.trans (hshows₄.trans hshows₅))⟩

/-! ## What a handler hands on -/

/-- More is withheld, and what is handed on was not withheld before. -/
structure Hands (s s' : Stream) : Prop where
  withheld : s'.ended = true ∨ s.withheldThrough ≤ s'.withheldThrough
  handed : ∃ new, s'.handed = s.handed ++ new ∧ ∀ p ∈ new, s.withheldThrough < p.2.generation

theorem hands_of_eq (hwithheld : s'.ended = true ∨ s.withheldThrough ≤ s'.withheldThrough)
    (hhanded : s'.handed = s.handed) : Hands s s' :=
  ⟨hwithheld, [], by rw [hhanded, List.append_nil], fun _ hp => nomatch hp⟩

theorem Quiet.hands (h : Quiet s s') : Hands s s' := hands_of_eq (.inr h.withheld_le) h.handed

theorem Hands.quiet (h : Hands s s') (hquiet : Quiet s' t) : Hands s t where
  withheld := h.withheld.imp hquiet.ended fun hle => hle.trans hquiet.withheld_le
  handed := by
    rw [hquiet.handed]
    exact h.handed

/-- A handler leaves the viewers of a stream in their lanes, and shows what is not withheld. -/
structure Serves (s s' : Stream) : Prop where
  relays : Relays s'
  hands : Hands s s'

theorem Serves.quiet (h : Serves s s') (hquiet : Quiet s' t) : Serves s t :=
  ⟨h.relays.quiet hquiet, h.hands.quiet hquiet⟩

theorem Relays.serves (h : Relays s) (hquiet : Quiet s s') : Serves s s' := ⟨h.quiet hquiet, hquiet.hands⟩

/-- A stream that has ended has no viewers to be in a lane. -/
theorem relays_of_over (hended : s.ended = true) (hnil : s.viewers.entries = [])
    (hdecodable : ∀ id, Decodable MediaFrame.IsKey MediaFrame.Joins s.sent (s.handedTo id)) : Relays s where
  cached hs := nomatch hended.symm.trans hs
  deserted _ := hnil
  lanes id v hv := by
    rw [OrderedMap.entries_eq_nil_iff.mp hnil] at hv
    cases hv
  decodable := hdecodable

/-! ## Media and states -/

/-- The cache is cleared and every viewer waits. -/
theorem waits_cleared (s : Stream) (id : Nat) (v : Viewer)
    (hv : (s.clearCache.mapViewers Viewer.wait).viewers.get id = some v) :
    (∃ u, s.viewers.get id = some u ∧ (v.isOpen = true → u.isOpen = true)) ∧
      v.waiting = true ∧ v.replayIndex = none := by
  simp only [clearCache, mapViewers, OrderedMap.get_mapValues, Option.map_map] at hv
  obtain ⟨u, hu, rfl⟩ := Option.map_eq_some_iff.mp hv
  refine ⟨⟨u, hu, fun hopen => ?_⟩, rfl, ?_⟩
  · change u.dropReplay.isOpen = true at hopen
    exact (stays_dropReplay True u).isOpen hopen
  · show u.dropReplay.replayIndex = none
    unfold Viewer.dropReplay
    split
    · assumption
    · rfl

theorem quiet_wait (s : Stream) : Quiet s (s.clearCache.mapViewers Viewer.wait) := by
  refine .of_still ⟨rfl, rfl, rfl, rfl, rfl, rfl, .inl rfl, .inl rfl, fun id v hv => ?_⟩ rfl rfl
  obtain ⟨⟨u, hu, hopen⟩, hwaits⟩ := waits_cleared s id v hv
  exact ⟨u, hu, hopen, .inl hwaits⟩

/-- Media of the stream's own generation came. -/
theorem Relayed.received (h : Relayed sent sentFor s) (hgeneration : frame.generation = s.generation) :
    Relayed sent sentFor (s.receives frame) where
  cached hs := by
    have hcached := h.cached hs
    exact ⟨hcached.suffix, hcached.key, hcached.generation, hcached.withheld,
      fun hne => ⟨hgeneration, (hcached.current hne).2⟩⟩
  deserted := h.deserted
  lanes id v hv hopen := by
    cases h.lanes id v hv hopen with
    | waits hwaiting hnone => exact .waits hwaiting hnone
    | replays index hindex hwaiting hcache hle hlast => exact .replays index hindex hwaiting hcache hle hlast
    | follows last hwaiting hnone hlast hsent hlastGeneration _ hkey =>
      exact .follows last hwaiting hnone hlast hsent hlastGeneration hgeneration hkey
  decodable := h.decodable

/-- Media of a newer generation came, and everybody waits. -/
theorem relayed_advances (hs : s.ended = false) (frame : MediaFrame)
    (hdecodable : ∀ id, Decodable MediaFrame.IsKey MediaFrame.Joins sent (s.handedTo id)) :
    Relayed sent sentFor (s.advances frame) :=
  relayed_waiting rfl (fun hs' => nomatch hs.symm.trans hs') (fun id v hv _ => (waits_cleared _ id v hv).2) hdecodable

/-- A frame is published, of a stream in which nothing depends on it yet. -/
theorem Relayed.goesOn (h : Relayed old (fun _ => old) s) (hgeneration : s.generation = frame.generation)
    (hmedia : s.mediaGeneration = frame.generation) (hsent : s.sent = old ++ [frame]) (hs : t.handed = s.handed)
    (hle : t.withheldThrough = s.withheldThrough) (hwithheld : s.withheldThrough < frame.generation) (w : World) :
    Serves t (s.publish w frame) := by
  obtain ⟨hrelayed, hshows⟩ := relayed_publish h hgeneration hmedia (hgeneration ▸ hwithheld) w
  refine ⟨?_, .inr (hle ▸ hshows.withheld_le), ?_⟩
  · unfold Relays
    rw [hshows.sent, hsent]
    exact hrelayed
  · obtain ⟨new, hnew, hof⟩ := hshows.handed
    refine ⟨new, by rw [hnew, hs], fun p hp => ?_⟩
    rw [hof p hp, hgeneration, hle]
    exact hwithheld

theorem serves_media (h : Relays s) (hs : s.ended = false) (w : World) (frame : MediaFrame)
    (hidle : s.options.target.isSome = true → s.viewers.entries = [] → s.cache = []) :
    Serves s (s.media w frame) := by
  have hdecodable : ∀ id, Decodable MediaFrame.IsKey MediaFrame.Joins (s.sent ++ [frame]) (s.handedTo id) :=
    fun id => (h.decodable id).extend [frame]
  have hsame : ∀ t : Stream, t.handed = s.handed → t.withheldThrough = s.withheldThrough → Hands s t :=
    fun t hhanded hwithheld => hands_of_eq (.inr (Nat.le_of_eq hwithheld.symm)) hhanded
  have hmedia := receives_media w s frame
  generalize s.media w frame = s' at hmedia
  cases hmedia with
  | fails =>
    obtain ⟨hhanded, hsent, hnil⟩ := failCapture_over w { s with sent := s.sent ++ [frame] } "capture-failed" hs
    have hended := failCapture_ended w { s with sent := s.sent ++ [frame] } "capture-failed"
    refine ⟨relays_of_over hended hnil fun id => ?_, hands_of_eq (.inl hended) hhanded⟩
    rw [hsent, handedTo_eq (s := s) hhanded]
    exact hdecodable id
  | ends =>
    have hquiet := quiet_finish { s with sent := s.sent ++ [frame] } false
    have hended := ended_finish { s with sent := s.sent ++ [frame] } false
    have hnil := entries_finish (s := { s with sent := s.sent ++ [frame] }) hs false
    refine ⟨relays_of_over hended hnil fun id => ?_, hands_of_eq (.inl hended) hquiet.handed⟩
    rw [hquiet.sent, handedTo_eq (s := s) hquiet.handed]
    exact hdecodable id
  | unviewed htarget hviewers =>
    refine ⟨relayed_waiting (hidle htarget hviewers) (fun hs' => nomatch hs.symm.trans hs') (fun id v hv => ?_)
      hdecodable, hsame _ rfl rfl⟩
    rw [show ({ s with sent := s.sent ++ [frame] } : Stream).viewers = s.viewers from rfl,
      OrderedMap.entries_eq_nil_iff.mp hviewers] at hv
    cases hv
  | unkeyed hkey =>
    obtain ⟨hcache, hwait⟩ := Relayed.waits h hs fun hcurrent => nomatch hkey.symm.trans hcurrent.2
    exact ⟨relayed_waiting hcache (fun hs' => nomatch hs.symm.trans hs') hwait hdecodable, hsame _ rfl rfl⟩
  | advances _ hshown =>
    exact (relayed_advances hs frame h.decodable).goesOn (t := s) rfl rfl rfl rfl rfl hshown w
  | skips =>
    have hadvanced : Relays (s.advances frame) := relayed_advances hs frame hdecodable
    exact ⟨hadvanced.quiet (quiet_wait _), hsame _ rfl rfl⟩
  | publishes hgeneration hshown =>
    exact (Relayed.received h hgeneration).goesOn (t := s) hgeneration.symm rfl rfl rfl rfl hshown w
  | withheld =>
    -- What follows a frame that is withheld cannot be decoded.
    exact ⟨relayed_waiting rfl (fun hs' => nomatch hs.symm.trans hs')
      (fun id v hv _ => (waits_cleared _ id v hv).2) hdecodable, hsame _ rfl rfl⟩
  | older holder hmedia =>
    obtain ⟨hcache, hwait⟩ := Relayed.waits h hs fun hcurrent => by omega
    exact ⟨relayed_waiting hcache (fun hs' => nomatch hs.symm.trans hs') hwait hdecodable, hsame _ rfl rfl⟩

theorem serves_phoneState (h : Relays s) (w : World) (event : DisplayViewerState) :
    Serves s (s.phoneState w event) := by
  unfold Stream.phoneState
  split
  · exact h.serves (.refl s)
  split
  · exact h.serves (.refl s)
  split
  · exact h.serves (quiet_finish s false)
  dsimp only
  have hnext : Serves s { (if event.state.withholds then
      { (if event.generation ≠ s.generation ∨ event.state ≠ .live then
          s.clearCache.mapViewers Viewer.wait else s) with
        withheldThrough := max (if event.generation ≠ s.generation ∨ event.state ≠ .live then
          s.clearCache.mapViewers Viewer.wait else s).withheldThrough event.generation }
      else (if event.generation ≠ s.generation ∨ event.state ≠ .live then
          s.clearCache.mapViewers Viewer.wait else s)) with generation := event.generation } := by
    by_cases hbreaks : event.generation ≠ s.generation ∨ event.state ≠ .live
    · rw [if_pos hbreaks]
      split
      · exact ⟨relayed_waiting rfl (quiet_wait s |> Relayed.quiet h).deserted
          (fun id v hv _ => (waits_cleared s id v hv).2) h.decodable,
          hands_of_eq (.inr (Nat.le_max_left _ _)) rfl⟩
      · exact ⟨relayed_waiting rfl (quiet_wait s |> Relayed.quiet h).deserted
          (fun id v hv _ => (waits_cleared s id v hv).2) h.decodable,
          hands_of_eq (.inr (Nat.le_refl _)) rfl⟩
    · rw [if_neg hbreaks]
      rw [not_or, not_not, not_not] at hbreaks
      rw [hbreaks.2, hbreaks.1]
      exact ⟨h, hands_of_eq (.inr (Nat.le_refl _)) rfl⟩
  generalize ({ (if event.state.withholds then _ else _ : Stream) with
    generation := event.generation } : Stream) = s₁ at hnext ⊢
  have hpublished := hnext.quiet (quiet_publishState s₁ event)
  split
  · split
    · exact hpublished.quiet ((quiet_failOwnerSources w _).trans (quiet_finish _ true))
    · exact hpublished.quiet (quiet_finish _ true)
  · exact hpublished

end Opensteer.DisplayStreamHub
