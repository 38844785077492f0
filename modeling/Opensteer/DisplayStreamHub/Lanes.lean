import Opensteer.Framework.Relay
import Opensteer.DisplayStreamHub.Quiet

/-!
# The lanes of the viewers

A viewer whose socket is open waits for a key, is in a replay of the cache, or follows the
phone frame by frame (`Lane`). The cache is the end of what the phone sent, from a key on
(`Cached`). With the viewers in their lanes (`Relayed`), a frame that is handed to one is a
key or the next after the one it was handed last, and so they stay through what hands
nothing on (`Relayed.quiet`) and through a replay (`relayed_drainCache`, `relayed_replay`).
-/

namespace Opensteer.DisplayStreamHub

open Opensteer.DisplayStreamHub.Stream

def MediaFrame.IsKey (frame : MediaFrame) : Prop := frame.key = true

/-- Two frames of one generation. -/
def MediaFrame.Joins (frame next : MediaFrame) : Prop := frame.generation = next.generation

/-- What the cache holds of the frames `sent`. -/
structure Cached (sent : List MediaFrame) (s : Stream) : Prop where
  suffix : s.cache <:+ sent
  key : ∀ frame ∈ s.cache.head?, frame.IsKey
  generation : ∀ frame ∈ s.cache, frame.generation = s.generation
  withheld : s.cache ≠ [] → s.withheldThrough < s.generation
  current : s.cache ≠ [] → s.mediaGeneration = s.generation ∧ s.firstKey = true

/-- Where a viewer stands that has had its turn at the frames `sent`. -/
inductive Lane (s : Stream) (sent : List MediaFrame) (id : Nat) (v : Viewer) : Prop
  | waits (hwaiting : v.waiting = true) (hnone : v.replayIndex = none)
  | replays (index : Nat) (hindex : v.replayIndex = some index) (hwaiting : v.waiting = false)
      (hcache : s.cache ≠ []) (hle : index ≤ s.cache.length)
      (hlast : ∀ frame ∈ (s.cache.take index).getLast?, (s.handedTo id).getLast? = some frame)
  | follows (last : MediaFrame) (hwaiting : v.waiting = false) (hnone : v.replayIndex = none)
      (hlast : (s.handedTo id).getLast? = some last) (hsent : sent.getLast? = some last)
      (hgeneration : last.generation = s.generation) (hmedia : s.mediaGeneration = s.generation)
      (hkey : s.firstKey = true)

/-- Of the frames `sent`, each viewer is in a lane at those it has had its turn at. -/
structure Relayed (sent : List MediaFrame) (sentFor : Nat → List MediaFrame) (s : Stream) : Prop where
  cached : s.ended = false → Cached sent s
  deserted : s.ended = true → s.viewers.entries = []
  lanes : ∀ id v, s.viewers.get id = some v → v.isOpen = true → Lane s (sentFor id) id v
  decodable : ∀ id, Decodable MediaFrame.IsKey MediaFrame.Joins sent (s.handedTo id)

/-- What is handed on is of the stream's generation. -/
structure Shows (s s' : Stream) : Prop where
  options : s'.options = s.options
  sent : s'.sent = s.sent
  generation : s'.generation = s.generation
  mediaGeneration : s'.mediaGeneration = s.mediaGeneration
  firstKey : s.firstKey = true → s'.firstKey = true
  ended : s.ended = true → s'.ended = true
  withheld_le : s.withheldThrough ≤ s'.withheldThrough
  withheld_bound : s'.withheldThrough ≤ max s.withheldThrough s.generation
  handed : ∃ new, s'.handed = s.handed ++ new ∧ ∀ p ∈ new, p.2.generation = s.generation

variable {s s' t : Stream} {w : World} {id : Nat} {v v' : Viewer} {sent : List MediaFrame}
  {sentFor : Nat → List MediaFrame} {frame : MediaFrame}

theorem Shows.trans (h : Shows s s') (h' : Shows s' t) : Shows s t where
  options := h'.options.trans h.options
  sent := h'.sent.trans h.sent
  generation := h'.generation.trans h.generation
  mediaGeneration := h'.mediaGeneration.trans h.mediaGeneration
  firstKey hs := h'.firstKey (h.firstKey hs)
  ended hs := h'.ended (h.ended hs)
  withheld_le := h.withheld_le.trans h'.withheld_le
  withheld_bound := by
    refine h'.withheld_bound.trans ?_
    rw [h.generation]
    exact max_le h.withheld_bound (Nat.le_max_right _ _)
  handed := by
    obtain ⟨new, hnew, hgeneration⟩ := h.handed
    obtain ⟨new', hnew', hgeneration'⟩ := h'.handed
    refine ⟨new ++ new', by rw [hnew', hnew, List.append_assoc], fun p hp => ?_⟩
    rcases List.mem_append.mp hp with hp | hp
    · exact hgeneration p hp
    · exact (hgeneration' p hp).trans h.generation

theorem Quiet.shows (h : Quiet s s') : Shows s s' :=
  ⟨h.options, h.sent, h.generation, h.mediaGeneration, h.firstKey.trans, h.ended, h.withheld_le, h.withheld_bound,
    [], by rw [h.handed, List.append_nil], fun _ hp => nomatch hp⟩

theorem handedTo_eq (h : s'.handed = s.handed) (id : Nat) : s'.handedTo id = s.handedTo id := by
  unfold Stream.handedTo
  rw [h]

/-! ## What hands nothing on -/

theorem Cached.quiet (h : Cached sent s) (hquiet : Still s s') : Cached sent s' := by
  rcases hquiet.cache with hnil | hsame
  · refine ⟨?_, ?_, ?_, ?_, ?_⟩ <;> simp [hnil]
  · refine ⟨?_, ?_, ?_, fun hne => ?_, fun hne => ?_⟩
    · rw [hsame]
      exact h.suffix
    · rw [hsame]
      exact h.key
    · rw [hsame, hquiet.generation]
      exact h.generation
    · rcases hquiet.withheld with heq | ⟨-, hnil, -⟩
      · rw [heq, hquiet.generation]
        exact h.withheld (hsame ▸ hne)
      · exact absurd hnil hne
    · rw [hquiet.generation, hquiet.mediaGeneration, hquiet.firstKey]
      exact h.current (hsame ▸ hne)

theorem Lane.stays (h : Lane s sent id v) (hquiet : Still s s') (hstays : v.Stays (s'.cache ≠ s.cache) v') :
    Lane s' sent id v' := by
  rcases hstays.lane with ⟨hwaiting, hnone⟩ | ⟨hwaiting, hindex, hcache⟩
  · exact .waits hwaiting hnone
  · cases h with
    | waits hwaits hnone => exact .waits (hwaiting.trans hwaits) (hindex.trans hnone)
    | replays index hreplays hwaits hne hle hlast =>
      have hsame : s'.cache = s.cache := by
        simpa using hcache (by simp [hreplays])
      refine .replays index (hindex.trans hreplays) (hwaiting.trans hwaits) (hsame ▸ hne) (hsame ▸ hle) ?_
      rw [hsame, handedTo_eq hquiet.handed]
      exact hlast
    | follows last hwaits hnone hlast hsent hgeneration hmedia hkey =>
      refine .follows last (hwaiting.trans hwaits) (hindex.trans hnone) ?_ hsent ?_ ?_ ?_
      · rw [handedTo_eq hquiet.handed]
        exact hlast
      · rw [hquiet.generation]
        exact hgeneration
      · rw [hquiet.mediaGeneration, hquiet.generation]
        exact hmedia
      · rw [hquiet.firstKey]
        exact hkey

/-- What hands nothing on keeps the viewers in their lanes. -/
theorem Relayed.still (h : Relayed sent sentFor s) (hstill : Still s s')
    (hended : s.ended = true → s'.ended = true)
    (hdeserted : s'.ended = true → s.ended = true ∨ s'.viewers.entries = []) : Relayed sent sentFor s' where
  cached hs' := by
    refine (h.cached ?_).quiet hstill
    cases hs : s.ended with
    | false => rfl
    | true => rw [hended hs] at hs'; cases hs'
  deserted hs' := (hdeserted hs').elim (fun hs => hstill.entries_nil (h.deserted hs)) fun hnil => hnil
  lanes id v' hv' hopen := by
    obtain ⟨v, hv, hstays⟩ := hstill.viewers id v' hv'
    exact (h.lanes id v hv (hstays.isOpen hopen)).stays hstill hstays
  decodable id := by
    rw [handedTo_eq hstill.handed]
    exact h.decodable id

theorem Relayed.quiet (h : Relayed sent sentFor s) (hquiet : Quiet s s') : Relayed sent sentFor s' :=
  h.still hquiet.toStill hquiet.ended hquiet.deserted

/-- A viewer that is there is one of a stream that goes on. -/
theorem Relayed.ended_eq (h : Relayed sent sentFor s) (hv : s.viewers.get id = some v) : s.ended = false := by
  cases hs : s.ended with
  | false => rfl
  | true =>
    rw [OrderedMap.entries_eq_nil_iff.mp (h.deserted hs)] at hv
    cases hv

/-- Which lane a viewer is in does not matter when it is not there. -/
theorem Relayed.congr (h : Relayed sent sentFor s) {sentFor' : Nat → List MediaFrame}
    (heq : ∀ id v, s.viewers.get id = some v → sentFor' id = sentFor id) : Relayed sent sentFor' s where
  cached := h.cached
  deserted := h.deserted
  lanes id v hv hopen := by
    rw [heq id v hv]
    exact h.lanes id v hv hopen
  decodable := h.decodable

/-- With an empty cache and every viewer waiting, nothing depends on what was sent. -/
theorem relayed_waiting (hcache : s.cache = []) (hdeserted : s.ended = true → s.viewers.entries = [])
    (hwait : ∀ id v, s.viewers.get id = some v → v.isOpen = true → v.waiting = true ∧ v.replayIndex = none)
    (hdecodable : ∀ id, Decodable MediaFrame.IsKey MediaFrame.Joins sent (s.handedTo id)) :
    Relayed sent sentFor s where
  cached _ := by
    refine ⟨?_, ?_, ?_, ?_, ?_⟩ <;> simp [hcache]
  deserted := hdeserted
  lanes id v hv hopen := .waits (hwait id v hv hopen).1 (hwait id v hv hopen).2
  decodable := hdecodable

/-- A viewer that has its place in the media of a generation holds the stream to it. -/
theorem Relayed.waits (h : Relayed sent sentFor s) (hs : s.ended = false)
    (hpast : ¬(s.mediaGeneration = s.generation ∧ s.firstKey = true)) : s.cache = [] ∧
    ∀ id v, s.viewers.get id = some v → v.isOpen = true → v.waiting = true ∧ v.replayIndex = none := by
  have hcache : s.cache = [] := by
    by_contra hne
    exact hpast ((h.cached hs).current hne)
  refine ⟨hcache, fun id v hv hopen => ?_⟩
  cases h.lanes id v hv hopen with
  | waits hwaiting hnone => exact ⟨hwaiting, hnone⟩
  | replays _ _ _ hne => exact absurd hcache hne
  | follows _ _ _ _ _ _ hmedia hkey => exact absurd ⟨hmedia, hkey⟩ hpast

/-! ## Frames handed to one viewer -/

/-- The stream after a viewer was handed frames. -/
def Stream.hands (s : Stream) (id : Nat) (v : Viewer) (frames : List MediaFrame) : Stream :=
  { s.setViewer id v with handed := s.handed ++ frames.map fun frame => (id, frame) }

theorem handedTo_hands (s : Stream) (id : Nat) (v : Viewer) (frames : List MediaFrame) (other : Nat) :
    (s.hands id v frames).handedTo other =
      if other = id then s.handedTo id ++ frames else s.handedTo other := by
  simp only [Stream.handedTo, Stream.hands, List.filter_append, List.map_append, List.filter_map, List.map_map]
  split
  · rename_i heq
    subst heq
    simp [Function.comp_def]
  · rename_i hne
    simp [Function.comp_def, Ne.symm hne]

/-- Another viewer's lane. -/
theorem Lane.hands (h : Lane s sent id v) {other : Nat} (hne : id ≠ other) (u : Viewer)
    (frames : List MediaFrame) : Lane (s.hands other u frames) sent id v := by
  have hsame : (s.hands other u frames).handedTo id = s.handedTo id := by
    rw [handedTo_hands, if_neg hne]
  cases h with
  | waits hwaits hnone => exact .waits hwaits hnone
  | replays index hreplays hwaits hcache hle hlast =>
    exact .replays index hreplays hwaits hcache hle (by rw [hsame]; exact hlast)
  | follows last hwaits hnone hlast hsent hgeneration hmedia hkey =>
    exact .follows last hwaits hnone (by rw [hsame]; exact hlast) hsent hgeneration hmedia hkey

/-- A viewer has its turn. -/
theorem Relayed.hands (h : Relayed sent sentFor s) (hv : s.viewers.get id = some v) {frames : List MediaFrame}
    (hdecodable : Decodable MediaFrame.IsKey MediaFrame.Joins sent (s.handedTo id ++ frames))
    (hlane : v'.isOpen = true → Lane (s.hands id v' frames) sent id v') :
    Relayed sent (Function.update sentFor id sent) (s.hands id v' frames) where
  cached hs := have hc := h.cached hs; ⟨hc.suffix, hc.key, hc.generation, hc.withheld, hc.current⟩
  deserted hs := nomatch (h.ended_eq hv).symm.trans hs
  lanes other u hu hopen := by
    simp only [Stream.hands, setViewer, OrderedMap.get_set] at hu
    by_cases heq : id = other
    · rw [if_pos heq] at hu
      obtain rfl := Option.some.inj hu
      subst heq
      rw [Function.update_self]
      exact hlane hopen
    · rw [if_neg heq] at hu
      rw [Function.update_of_ne (Ne.symm heq)]
      exact (h.lanes other u hu hopen).hands (Ne.symm heq) v' frames
  decodable other := by
    rw [handedTo_hands]
    split
    · exact hdecodable
    · exact h.decodable other

/-- A viewer whose socket is closed is handed nothing. -/
theorem drain_closed (w : World) (attempt id : Nat) (frames : List MediaFrame) (v : Viewer)
    (hclosed : v.isOpen = false) :
    (v.drain w attempt id frames).1.isOpen = false ∧ (v.drain w attempt id frames).2 = [] := by
  induction frames generalizing v with
  | nil =>
    unfold Viewer.drain
    split <;> exact ⟨hclosed, rfl⟩
  | cons frame frames ih =>
    unfold Viewer.drain
    split
    · simpa [Viewer.sendFrame, hclosed] using ih _ rfl
    · exact ⟨hclosed, rfl⟩

/-- A replay hands the viewer the frames from its index on, as many as it has credit for. -/
theorem drain_spec (w : World) (attempt id : Nat) (frames : List MediaFrame) (v : Viewer) {index : Nat}
    (hindex : v.replayIndex = some index) :
    (v.drain w attempt id frames).2 <+: frames ∧
      ((v.drain w attempt id frames).1.isOpen = true → v.isOpen = true ∧
        (v.drain w attempt id frames).1.waiting = v.waiting ∧
        ((v.drain w attempt id frames).1.replayIndex = some (index + (v.drain w attempt id frames).2.length) ∨
          ((v.drain w attempt id frames).1.replayIndex = none ∧ (v.drain w attempt id frames).2 = frames))) := by
  induction frames generalizing v index with
  | nil =>
    unfold Viewer.drain
    split
    · exact ⟨List.prefix_rfl, fun hopen => ⟨hopen, rfl, .inr ⟨rfl, rfl⟩⟩⟩
    · exact ⟨List.prefix_rfl, fun hopen => ⟨hopen, rfl, .inl hindex⟩⟩
  | cons frame frames ih =>
    unfold Viewer.drain
    split
    · dsimp only
      by_cases htaken : (v.isOpen && w.roomy id frame.sequence) = true
      · have hopen : v.isOpen = true := by simp at htaken; exact htaken.1
        simp only [Viewer.sendFrame, htaken, if_true, hindex, Option.map_some]
        obtain ⟨hstarts, hrest⟩ := ih { v with
          outstanding := v.outstanding.set frame.sequence frame.bytes, bytes := v.bytes + frame.bytes,
          replayIndex := some (index + 1) } (show some (index + 1) = some (index + 1) from rfl)
        refine ⟨List.prefix_cons_inj frame |>.mpr hstarts, fun hopen' => ?_⟩
        obtain ⟨-, hwaiting, hlane⟩ := hrest hopen'
        refine ⟨hopen, hwaiting, hlane.imp (fun h => ?_) fun h => ⟨h.1, ?_⟩⟩
        · rw [h, List.singleton_append, List.length_cons]
          congr 1
          omega
        · rw [h.2]
          rfl
      · rw [Bool.not_eq_true] at htaken
        simp only [Viewer.sendFrame, htaken, Bool.false_eq_true, if_false, List.nil_append]
        obtain ⟨hclosed, hnil⟩ := drain_closed w attempt id frames { v with
          outstanding := v.outstanding.set frame.sequence frame.bytes, bytes := v.bytes + frame.bytes,
          isOpen := false, replayIndex := v.replayIndex.map (· + 1) } rfl
        rw [hnil, hclosed]
        exact ⟨List.nil_prefix, fun h => nomatch h⟩
    · exact ⟨List.nil_prefix, fun hopen => ⟨hopen, rfl, .inl hindex⟩⟩

/-- What was handed to a viewer in a replay, with what is handed to it now. -/
theorem Relayed.drained (h : Relayed sent sentFor s) (hv : s.viewers.get id = some v) {index : Nat}
    (hindex : v.replayIndex = some index) (hwaiting : v.waiting = false) (hcache : s.cache ≠ [])
    (hle : index ≤ s.cache.length)
    (hlast : ∀ frame ∈ (s.cache.take index).getLast?, (s.handedTo id).getLast? = some frame)
    (w : World) (attempt : Nat) :
    Relayed sent (Function.update sentFor id sent) (s.hands id (v.drain w attempt id (s.cache.drop index)).1
      (v.drain w attempt id (s.cache.drop index)).2) := by
  obtain ⟨hstarts, hrest⟩ := drain_spec w attempt id (s.cache.drop index) v hindex
  generalize v.drain w attempt id (s.cache.drop index) = drained at hstarts hrest
  have hcached := h.cached (h.ended_eq hv)
  have hkept : s.cache.take index ++ s.cache.drop index <:+ sent := by
    rw [List.take_append_drop]
    exact hcached.suffix
  obtain ⟨hdecodable, hhanded⟩ := (h.decodable id).replay hkept
    (by rw [List.take_append_drop]; exact hcached.key)
    (by
      rw [List.take_append_drop]
      exact fun a ha b hb => (hcached.generation a ha).trans (hcached.generation b hb).symm)
    hlast hstarts
  refine h.hands hv hdecodable fun hopen => ?_
  obtain ⟨-, hwaits, hlane⟩ := hrest hopen
  have hself : (s.hands id drained.1 drained.2).handedTo id = s.handedTo id ++ drained.2 := by
    rw [handedTo_hands, if_pos rfl]
  rcases hlane with hindex' | ⟨hnone, hall⟩
  · have hlength : drained.2.length ≤ s.cache.length - index := by
      simpa using hstarts.length_le
    refine .replays (index + drained.2.length) hindex' (hwaits.trans hwaiting) hcache ?_ ?_
    · show index + drained.2.length ≤ s.cache.length
      omega
    · show ∀ frame ∈ (s.cache.take (index + drained.2.length)).getLast?, _
      rw [List.take_add, ← List.prefix_iff_eq_take.mp hstarts, hself]
      exact hhanded
  · -- With the whole cache handed on, the viewer is where the phone is.
    have hcurrent := hcached.current hcache
    have hgetLast := List.getLast?_eq_some_getLast hcache
    refine .follows (s.cache.getLast hcache) (hwaits.trans hwaiting) hnone ?_ ?_
      (hcached.generation _ (List.getLast_mem hcache)) hcurrent.1 hcurrent.2
    · rw [hself]
      refine hhanded _ ?_
      rw [hall, List.take_append_drop]
      exact hgetLast
    · rw [getLast?_of_suffix hcached.suffix hcache]
      exact hgetLast

/-- What a viewer is handed in a replay is of the cache. -/
theorem Cached.shows_hands (h : Cached sent s) {frames : List MediaFrame} (hframes : frames ⊆ s.cache) :
    Shows s (s.hands id v frames) where
  options := rfl
  sent := rfl
  generation := rfl
  mediaGeneration := rfl
  firstKey := fun h => h
  ended := fun h => h
  withheld_le := Nat.le_refl _
  withheld_bound := Nat.le_max_left _ _
  handed := by
    refine ⟨_, rfl, fun p hp => ?_⟩
    obtain ⟨frame, hframe, rfl⟩ := List.mem_map.mp hp
    exact h.generation frame (hframes hframe)

/-- A viewer that is in its lane there has had its turn. -/
theorem Relayed.passed (h : Relayed sent sentFor s)
    (hlane : ∀ v, s.viewers.get id = some v → v.isOpen = true → Lane s sent id v) :
    Relayed sent (Function.update sentFor id sent) s where
  cached := h.cached
  deserted := h.deserted
  lanes other u hu hopen := by
    by_cases heq : other = id
    · subst heq
      rw [Function.update_self]
      exact hlane u hu hopen
    · rw [Function.update_of_ne heq]
      exact h.lanes other u hu hopen
  decodable := h.decodable

/-- A viewer that is not live has had its turn. -/
theorem Relayed.unlive (h : Relayed sent sentFor s) (hlive : (s.viewerLive w id).1 = false) :
    Relayed sent (Function.update sentFor id sent) (s.viewerLive w id).2 := by
  rcases viewerLive_cases w s id with ⟨hnone, heq⟩ | ⟨v, hv, heq | heq⟩
  · rw [heq]
    exact h.passed fun v hv => by rw [hnone] at hv; cases hv
  · rw [heq] at hlive
    cases hlive
  · rw [heq]
    refine (h.quiet (quiet_endSource w s v.source)).passed fun u hu => ?_
    rw [viewers_endSource w (h.ended_eq hv) hv] at hu
    cases hu

theorem relayed_drainCache (h : Relayed sent sentFor s) (w : World) (attempt : Nat)
    (hturn : sentFor id = sent ∨ ∃ v, s.viewers.get id = some v ∧ v.replayIndex ≠ none) :
    Relayed sent (Function.update sentFor id sent) (s.drainCache w attempt id) ∧
      Shows s (s.drainCache w attempt id) := by
  unfold Stream.drainCache
  cases hv : s.viewers.get id with
  | none => exact ⟨h.passed fun v hv' => (nomatch hv.symm.trans hv'), (Quiet.refl s).shows⟩
  | some v =>
    cases hindex : v.replayIndex with
    | none =>
      simp only [hindex]
      refine ⟨h.passed fun u hu hopen => ?_, (Quiet.refl s).shows⟩
      rcases hturn with hsent | ⟨u', hu', hne⟩
      · exact hsent ▸ h.lanes id u hu hopen
      · obtain rfl := Option.some.inj (hv.symm.trans hu')
        exact absurd hindex hne
    | some index =>
      simp only [hindex]
      split
      · change Relayed sent _ (s.hands id (v.drain w attempt id (s.cache.drop index)).1
          (v.drain w attempt id (s.cache.drop index)).2) ∧ Shows s (s.hands id _ _)
        refine ⟨?_, (h.cached (h.ended_eq hv)).shows_hands fun frame hframe =>
          List.mem_of_mem_drop ((drain_spec w attempt id _ v hindex).1.subset hframe)⟩
        cases hopen : v.isOpen with
        | true =>
          cases h.lanes id v hv hopen with
          | waits _ hnone => exact nomatch hnone.symm.trans hindex
          | follows _ _ hnone => exact nomatch hnone.symm.trans hindex
          | replays index' hindex' hwaiting hcache hle hlast =>
            obtain rfl := Option.some.inj (hindex'.symm.trans hindex)
            exact h.drained hv hindex hwaiting hcache hle hlast w attempt
        | false =>
          obtain ⟨hclosed, hnil⟩ := drain_closed w attempt id (s.cache.drop index) v hopen
          refine h.hands hv ?_ fun hopen' => nomatch hclosed.symm.trans hopen'
          rw [hnil, List.append_nil]
          exact h.decodable id
      · rename_i hlive
        exact ⟨h.unlive (by simpa using hlive), (quiet_viewerLive w s id).shows⟩

/-- Every viewer has had its turn at what the phone sent. -/
def Relays (s : Stream) : Prop := Relayed s.sent (fun _ => s.sent) s

theorem Relays.quiet (h : Relays s) (hquiet : Quiet s s') : Relays s' := by
  have hrelayed := Relayed.quiet h hquiet
  rw [← hquiet.sent] at hrelayed
  exact hrelayed

theorem relays_drainCache (h : Relays s) (w : World) (attempt id : Nat) :
    Relays (s.drainCache w attempt id) ∧ Shows s (s.drainCache w attempt id) := by
  obtain ⟨hrelayed, hshows⟩ : Relayed s.sent (Function.update _ id s.sent) (s.drainCache w attempt id) ∧
    Shows s (s.drainCache w attempt id) := relayed_drainCache h w attempt (.inl rfl)
  refine ⟨?_, hshows⟩
  rw [Function.update_eq_self, ← hshows.sent] at hrelayed
  exact hrelayed

/-- A viewer handed nothing. -/
theorem setViewer_eq_hands (s : Stream) (id : Nat) (v : Viewer) : s.setViewer id v = s.hands id v [] := by
  simp [Stream.hands, setViewer]

/-- A replay starts, of a cache that is not empty. -/
theorem relays_startReplay (h : Relays s) (hv : s.viewers.get id = some v) {last : MediaFrame}
    (hlast : s.cache.getLast? = some last) : Relays (s.setViewer id { v with
      replayIndex := some 0, replayThrough := some last.sequence, waiting := false }) := by
  rw [setViewer_eq_hands]
  have hturn : Relayed s.sent (Function.update _ id s.sent) (s.hands id { v with
      replayIndex := some 0, replayThrough := some last.sequence, waiting := false } []) := Relayed.hands h hv
    (by rw [List.append_nil]; exact h.decodable id) fun _ => by
      refine .replays 0 rfl rfl ?_ (Nat.zero_le _) fun frame hframe => ?_
      · show s.cache ≠ []
        rintro hcache
        rw [hcache] at hlast
        cases hlast
      · rw [List.take_zero] at hframe
        cases hframe
  rw [Function.update_eq_self] at hturn
  exact hturn

theorem relays_replay (h : Relays s) (w : World) (id : Nat) :
    Relays (s.replay w id) ∧ Shows s (s.replay w id) := by
  unfold Stream.replay
  dsimp only
  split
  · exact ⟨h.quiet (quiet_viewerLive w s id), (quiet_viewerLive w s id).shows⟩
  · split
    · rename_i v last hv hlast
      split
      · exact ⟨h, (Quiet.refl s).shows⟩
      · obtain ⟨hrelays, hshows⟩ := relays_drainCache (relays_startReplay h hv hlast) w 0 id
        refine ⟨hrelays, Shows.trans ?_ hshows⟩
        rw [setViewer_eq_hands]
        exact (h.cached (h.ended_eq hv)).shows_hands (List.nil_subset _)
    · exact ⟨h, (Quiet.refl s).shows⟩

end Opensteer.DisplayStreamHub
