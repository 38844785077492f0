import Opensteer.DisplayStreamHub.Fanout

/-!
# The audience of a stream

When the last viewer of a phone's stream goes, `#demand` withholds its generation; when
that of a Mac window does, the cache is cleared. It does neither if it asked for nothing
before, so a stream that has viewers asked for something (`Attended`). `Attends` is what a
handler keeps of this.
-/

namespace Opensteer.DisplayStreamHub

open Opensteer.DisplayStreamHub.Stream

variable {s s' t : Stream} {w : World} {id : Nat} {v : Viewer} {frame : MediaFrame}

/-- A Mac window that nobody views keeps no cache, and the demand for a stream with viewers
names a source. -/
def Attended (s : Stream) : Prop :=
  s.ended = true ∨
    ((s.options.target.isSome = true → s.viewers.entries = [] → s.cache = []) ∧
      (s.viewers.entries ≠ [] → ∀ key ∈ s.demandKey, key.sources ≠ []))

/-- No frame of the stream's generation can be shown. -/
def Dark (s : Stream) : Prop := s.ended = true ∨ s.generation ≤ s.withheldThrough

/-- A phone's stream whose last viewer goes is dark. -/
structure Attends (s s' : Stream) : Prop where
  options : s'.options = s.options
  dark : Dark s → Dark s'
  attended : Attended s → Attended s'
  emptied : Attended s → s.viewers.entries ≠ [] → s'.viewers.entries = [] → s.options.target = none → Dark s'

namespace Attends

theorem trans (h : Attends s s') (h' : Attends s' t) : Attends s t where
  options := h'.options.trans h.options
  dark hs := h'.dark (h.dark hs)
  attended hs := h'.attended (h.attended hs)
  emptied hs hne hnil htarget := by
    by_cases hgone : s'.viewers.entries = []
    · exact h'.dark (h.emptied hs hne hgone htarget)
    · exact h'.emptied (h.attended hs) hgone hnil (h.options ▸ htarget)

/-- What neither brings nor takes viewers. -/
theorem of_same (hoptions : s'.options = s.options) (hended : s.ended = true → s'.ended = true)
    (hgeneration : s'.generation = s.generation) (hwithheld : s.withheldThrough ≤ s'.withheldThrough)
    (hdemand : s'.demandKey = s.demandKey) (hcache : s'.cache = [] ∨ s'.cache = s.cache)
    (hviewers : s'.viewers.entries = [] ↔ s.viewers.entries = []) : Attends s s' where
  options := hoptions
  dark := Or.imp hended fun hle => hgeneration ▸ hle.trans hwithheld
  attended := Or.imp hended fun h => by
    refine ⟨fun htarget hnil => ?_, fun hne => hdemand ▸ h.2 (fun hs => hne (hviewers.mpr hs))⟩
    rcases hcache with hcache | hcache
    · exact hcache
    · rw [hcache]
      exact h.1 (hoptions ▸ htarget) (hviewers.mp hnil)
  emptied _ hne hnil := absurd (hviewers.mp hnil) hne

theorem of_ended (hoptions : s'.options = s.options) (hended : s'.ended = true) : Attends s s' :=
  ⟨hoptions, fun _ => .inl hended, fun _ => .inl hended, fun _ _ _ _ => .inl hended⟩

theorem of_quiet (h : Quiet s s') (hdemand : s'.demandKey = s.demandKey)
    (hviewers : s'.viewers.entries = [] → s.viewers.entries = []) : Attends s s' :=
  .of_same h.options h.ended h.generation h.withheld_le hdemand h.cache ⟨hviewers, h.entries_nil⟩

theorem refl (s : Stream) : Attends s s := .of_quiet (.refl s) rfl fun h => h

theorem foldl {β : Type} {f : Stream → β → Stream} (hf : ∀ s b, Attends s (f s b)) (bs : List β) (s : Stream) :
    Attends s (bs.foldl f s) := by
  induction bs generalizing s with
  | nil => exact refl s
  | cons b bs ih => exact (hf s b).trans (ih (f s b))

end Attends

/-! ## Each function -/

@[simp] theorem demandKey_resetInput (s : Stream) : s.resetInput.demandKey = s.demandKey := by
  unfold Stream.resetInput
  split <;> rfl

@[simp] theorem demandKey_publishState (s : Stream) (next : DisplayViewerState) :
    (s.publishState next).demandKey = s.demandKey := by
  unfold Stream.publishState
  split
  · rfl
  · dsimp only
    split
    · exact demandKey_resetInput s
    · rfl

@[simp] theorem viewers_publishState (s : Stream) (next : DisplayViewerState) :
    (s.publishState next).viewers = s.viewers := by
  unfold Stream.publishState
  split
  · rfl
  · dsimp only
    split
    · exact viewers_resetInput s
    · rfl

theorem demandKey_removeViewer (s : Stream) (id : Nat) : (s.removeViewer id).demandKey = s.demandKey := by
  unfold Stream.removeViewer
  split
  · rfl
  · dsimp only
    split
    · exact demandKey_resetInput _
    · rfl

theorem demandKey_foldl_removeViewer (ids : List Nat) (s : Stream) :
    (ids.foldl removeViewer s).demandKey = s.demandKey := by
  induction ids generalizing s with
  | nil => rfl
  | cons id ids ih => rw [List.foldl_cons, ih, demandKey_removeViewer]

theorem demandKey_withoutSource (s : Stream) (source : DisplaySource) :
    (s.withoutSource source).demandKey = s.demandKey := demandKey_foldl_removeViewer _ _

theorem attends_publishState (s : Stream) (next : DisplayViewerState) : Attends s (s.publishState next) :=
  .of_quiet (quiet_publishState s next) (demandKey_publishState s next) fun h => by
    rwa [viewers_publishState] at h

theorem attends_finish (s : Stream) (terminal : Bool) : Attends s (s.finish terminal) :=
  .of_ended (quiet_finish s terminal).options (ended_finish s terminal)

theorem entries_mapValues_eq_nil_iff (m : OrderedMap Nat Viewer) (f : Viewer → Viewer) :
    (m.mapValues f).entries = [] ↔ m.entries = [] := List.map_eq_nil_iff

theorem attends_clearCache (s : Stream) : Attends s s.clearCache :=
  .of_quiet (quiet_clearCache s) rfl (entries_mapValues_eq_nil_iff _ _).mp

theorem sourcesOf_values_eq_nil_iff (s : Stream) : sourcesOf s.viewers.values = [] ↔ s.viewers.entries = [] := by
  rw [sourcesOf_eq_nil_iff, OrderedMap.values, List.map_eq_nil_iff]

/-- A Mac window that asked for nothing keeps no cache. -/
def Asked (s : Stream) : Prop :=
  s.ended = true ∨ (s.options.target.isSome = true → (∃ key ∈ s.demandKey, key.sources = []) → s.cache = [])

theorem Attended.asked (h : Attended s) : Asked s := by
  refine h.imp_right fun h htarget ⟨key, hkey, hnil⟩ => ?_
  by_cases hviewers : s.viewers.entries = []
  · exact h.1 htarget hviewers
  · exact absurd hnil (h.2 hviewers key hkey)

/-- Whatever there was asked for, the demand is for the viewers that there are. -/
theorem attended_demand (h : Asked s) (w : World) : Attended (s.demand w) := by
  have hdemands := demands_demand w s
  have hquiet := quiet_demand w s
  generalize s.demand w = s' at hdemands hquiet
  rcases h with hended | hasked
  · exact .inl (hquiet.ended hended)
  cases hdemands with
  | @asked _ _ key hkey hsources =>
    refine .inr ⟨fun htarget hnil => ?_, fun hne key' hkey' hsourcesNil => ?_⟩
    · exact hasked htarget ⟨key, hkey, hsources.trans ((sourcesOf_values_eq_nil_iff s).mpr hnil)⟩
    · obtain rfl := Option.some.inj (hkey.symm.trans hkey')
      exact hne ((sourcesOf_values_eq_nil_iff s).mp (hsources.symm.trans hsourcesNil))
  | @asks _ _ key hsources hne =>
    refine .inr ⟨fun _ hnil => ?_, fun _ key' hkey' => ?_⟩
    · exact absurd (hsources.trans ((sourcesOf_values_eq_nil_iff s).mpr hnil)) hne
    · obtain rfl := Option.some.inj hkey'
      exact hne
  | ends => exact .inl (ended_finish _ _)
  | @warms key evicts hsources hnil _ =>
    have hviewers := (sourcesOf_values_eq_nil_iff s).mp (hsources.symm.trans hnil)
    refine .inr ⟨fun _ _ => ?_, fun hne => absurd (hquiet.entries_nil hviewers) hne⟩
    have hwarmed : (s.warmed key).cache = [] := (quiet_publishState _ _).cache_nil rfl
    refine (quiet_send _ _).cache_nil ?_
    split
    · exact (quiet_finish _ _).cache_nil hwarmed
    · exact hwarmed
  | withholds hsources hnil _ =>
    have hviewers := (sourcesOf_values_eq_nil_iff s).mp (hsources.symm.trans hnil)
    exact .inr ⟨fun _ _ => (quiet_publishState _ _).cache_nil rfl,
      fun hne => absurd (hquiet.entries_nil hviewers) hne⟩

/-- The viewers there are stay. -/
theorem viewers_demand (w : World) (hne : s.viewers.entries ≠ []) : (s.demand w).viewers = s.viewers := by
  have hdemands := demands_demand w s
  generalize s.demand w = s' at hdemands
  cases hdemands with
  | asked => rfl
  | asks => rfl
  | ends hsources hnil => exact absurd ((sourcesOf_values_eq_nil_iff s).mp (hsources.symm.trans hnil)) hne
  | warms _ hsources hnil => exact absurd ((sourcesOf_values_eq_nil_iff s).mp (hsources.symm.trans hnil)) hne
  | withholds hsources hnil => exact absurd ((sourcesOf_values_eq_nil_iff s).mp (hsources.symm.trans hnil)) hne

/-- Once viewers are gone, the demand is for what is left. -/
theorem attends_removed (hquiet : Quiet s t) (hdemand : t.demandKey = s.demandKey) (w : World) :
    Attends s (t.demand w) := by
  have hasked : Attended s → Asked t := fun h => by
    refine h.asked.imp hquiet.ended fun hasked htarget hkey => ?_
    exact hquiet.cache_nil (hasked (hquiet.options ▸ htarget) (hdemand ▸ hkey))
  have hattended : Attended s → Attended (t.demand w) := fun h => attended_demand (hasked h) w
  have hdemands := demands_demand w t
  have hnext := quiet_demand w t
  generalize t.demand w = s' at hdemands hnext hattended
  have hall := hquiet.trans hnext
  refine ⟨hall.options, Or.imp hall.ended fun hle => hall.generation ▸ hle.trans hall.withheld_le, hattended, ?_⟩
  · intro hattended hne hnil htarget
    rcases hattended with hended | ⟨-, hasked⟩
    · exact .inl (hall.ended hended)
    cases hdemands with
    | @asked _ _ key hkey hsources =>
      exact absurd (hsources.trans ((sourcesOf_values_eq_nil_iff t).mpr hnil)) (hasked hne key (hdemand ▸ hkey))
    | asks hsources hsourcesNe =>
      exact absurd (hsources.trans ((sourcesOf_values_eq_nil_iff t).mpr hnil)) hsourcesNe
    | ends => exact .inl (ended_finish _ _)
    | warms _ _ _ hsome =>
      rw [hquiet.options, htarget] at hsome
      cases hsome
    | @withholds key =>
      refine .inr ?_
      rw [hnext.generation]
      show t.generation ≤ (t.unviewed key).withheldThrough
      unfold Stream.unviewed
      rw [withheldThrough_publishState]
      exact Nat.le_max_right _ _

theorem attends_demand (w : World) (s : Stream) : Attends s (s.demand w) := attends_removed (.refl s) rfl w

theorem attends_withoutSource (w : World) (s : Stream) (source : DisplaySource) :
    Attends s ((s.withoutSource source).demand w) :=
  attends_removed (quiet_withoutSource s source) (demandKey_withoutSource s source) w

theorem attends_endSource (w : World) (s : Stream) (source : DisplaySource) : Attends s (s.endSource w source) := by
  rcases endSource_cases w s source with ⟨-, heq⟩ | ⟨-, heq⟩ | heq | heq
  · rw [heq]
    exact .refl s
  · rw [heq]
    exact .of_quiet (.of_still (.of_same rfl rfl rfl rfl rfl rfl rfl rfl rfl) rfl rfl) rfl fun h => h
  · rw [heq]
    exact .of_ended ((quiet_withoutSource s source).trans (quiet_finish _ true)).options (ended_finish _ _)
  · rw [heq]
    exact attends_withoutSource w s source

theorem attends_viewerLive (w : World) (s : Stream) (id : Nat) : Attends s (s.viewerLive w id).2 := by
  rcases viewerLive_cases w s id with ⟨-, heq⟩ | ⟨v, -, heq | heq⟩
  · rw [heq]
    exact .refl s
  · rw [heq]
    exact .refl s
  · rw [heq]
    exact attends_endSource w s v.source

/-- A viewer's record changes. -/
theorem entries_set_ne_nil (m : OrderedMap Nat Viewer) (id : Nat) (v : Viewer) : (m.set id v).entries ≠ [] := by
  intro hnil
  have hget := OrderedMap.entries_eq_nil_iff.mp hnil id
  rw [OrderedMap.get_set, if_pos rfl] at hget
  cases hget

theorem attends_hands (hv : s.viewers.get id = some v) (v' : Viewer) (frames : List MediaFrame) :
    Attends s (s.hands id v' frames) := by
  refine .of_same rfl (fun h => h) rfl (Nat.le_refl _) rfl (.inr rfl) ⟨fun hnil => ?_, fun hnil => ?_⟩
  · exact absurd hnil (entries_set_ne_nil _ _ _)
  · rw [OrderedMap.entries_eq_nil_iff.mp hnil] at hv
    cases hv

theorem attends_setViewer (hv : s.viewers.get id = some v) (v' : Viewer) : Attends s (s.setViewer id v') := by
  rw [setViewer_eq_hands]
  exact attends_hands hv v' []

theorem attends_modify (s : Stream) (id : Nat) (f : Viewer → Viewer) :
    Attends s { s with viewers := s.viewers.modify id f } := by
  unfold OrderedMap.modify
  cases hv : s.viewers.get id with
  | none => exact .refl s
  | some v => exact attends_setViewer hv (f v)

theorem attends_drainCache (w : World) (attempt : Nat) (s : Stream) (id : Nat) :
    Attends s (s.drainCache w attempt id) := by
  unfold Stream.drainCache
  cases hv : s.viewers.get id with
  | none => exact .refl s
  | some v =>
    dsimp only
    split
    · exact .refl s
    · split
      · exact attends_hands hv _ _
      · exact attends_viewerLive w s id

theorem attends_replay (w : World) (s : Stream) (id : Nat) : Attends s (s.replay w id) := by
  unfold Stream.replay
  dsimp only
  split
  · exact attends_viewerLive w s id
  · split
    · rename_i v last hv _
      split
      · exact .refl s
      · exact (attends_setViewer hv _).trans (attends_drainCache w 0 _ id)
    · exact .refl s

theorem attends_deliver (w : World) (frame : MediaFrame) (s : Stream) (id : Nat) :
    Attends s (s.deliver w frame id) := by
  unfold Stream.deliver
  dsimp only
  split
  · exact attends_viewerLive w s id
  · split
    · exact .refl s
    · rename_i v hv
      split
      · exact attends_drainCache w 0 s id
      · split
        · exact .refl s
        · split
          · exact attends_hands hv _ _
          · refine Attends.trans ?_ (attends_modify _ id Viewer.skip)
            split
            · exact attends_demand w s
            · exact .refl s

/-! ## Media and states -/

theorem attends_mapWait (s : Stream) : Attends s (s.clearCache.mapViewers Viewer.wait) :=
  .of_quiet (quiet_wait s) rfl fun hnil =>
    (entries_mapValues_eq_nil_iff _ _).mp ((entries_mapValues_eq_nil_iff _ _).mp hnil)

/-- A frame is cached only for viewers, or for those that come to a phone. -/
theorem attends_cacheFrame (s : Stream) (frame : MediaFrame)
    (hviewed : s.options.target.isSome = true → s.viewers.entries ≠ []) : Attends s (s.cacheFrame frame) := by
  unfold Stream.cacheFrame
  split
  · split
    · exact (attends_clearCache s).trans (Attends.foldl (fun s id => attends_modify s id Viewer.skip) _ _)
    · exact ⟨rfl, fun h => h, Or.imp_right fun h => ⟨fun htarget hnil => absurd hnil (hviewed htarget), h.2⟩,
        fun _ hne hnil => absurd hnil hne⟩
  · exact .refl s

theorem attends_publish (w : World) (s : Stream) (frame : MediaFrame)
    (hviewed : s.options.target.isSome = true → s.viewers.entries ≠ []) : Attends s (s.publish w frame) := by
  unfold Stream.publish
  dsimp only
  have hkeyed : Attends s (if frame.key then { s with firstKey := true } else s) ∧
      (if frame.key then { s with firstKey := true } else s).viewers = s.viewers := by
    split
    · exact ⟨.of_same rfl (fun h => h) rfl (Nat.le_refl _) rfl (.inr rfl) Iff.rfl, rfl⟩
    · exact ⟨.refl s, rfl⟩
  generalize (if frame.key then { s with firstKey := true } else s) = s₁ at hkeyed
  obtain ⟨hkeyed, hviewers₁⟩ := hkeyed
  have hlive : Attends s₁ (if s₁.state.state ≠ .live ∨ s₁.state.generation ≠ frame.generation then
        s₁.publishState ⟨.live, frame.generation, frame.width, frame.height, none⟩ else s₁) ∧
      (if s₁.state.state ≠ .live ∨ s₁.state.generation ≠ frame.generation then
        s₁.publishState ⟨.live, frame.generation, frame.width, frame.height, none⟩ else s₁).viewers = s.viewers := by
    split
    · exact ⟨attends_publishState s₁ _, (viewers_publishState s₁ _).trans hviewers₁⟩
    · exact ⟨.refl s₁, hviewers₁⟩
  generalize (if s₁.state.state ≠ .live ∨ s₁.state.generation ≠ frame.generation then
    s₁.publishState ⟨.live, frame.generation, frame.width, frame.height, none⟩ else s₁) = s₂ at hlive
  obtain ⟨hlive, hviewers₂⟩ := hlive
  have hcleared : Attends s₂ (if frame.key then s₂.clearCache else s₂) ∧
      ((if frame.key then s₂.clearCache else s₂).viewers.entries = [] → s.viewers.entries = []) := by
    split
    · refine ⟨attends_clearCache s₂, fun hnil => ?_⟩
      rw [← hviewers₂]
      exact (entries_mapValues_eq_nil_iff _ _).mp hnil
    · exact ⟨.refl s₂, fun hnil => hviewers₂ ▸ hnil⟩
  generalize (if frame.key then s₂.clearCache else s₂) = s₃ at hcleared
  obtain ⟨hcleared, hviewers₃⟩ := hcleared
  have hall := hkeyed.trans (hlive.trans hcleared)
  refine hall.trans ((attends_cacheFrame s₃ frame fun htarget hnil => ?_).trans
    (Attends.foldl (attends_deliver w frame) _ _))
  exact hviewed (hall.options ▸ htarget) (hviewers₃ hnil)

/-- What a handler keeps of the audience, whichever generation it leaves the stream at. -/
structure Follows (s s' : Stream) : Prop where
  attended : Attended s → Attended s'
  emptied : Attended s → s.viewers.entries ≠ [] → s'.viewers.entries = [] → s.options.target = none → Dark s'

theorem Attends.follows (h : Attends s s') : Follows s s' := ⟨h.attended, h.emptied⟩

theorem follows_of_ended (h : s'.ended = true) : Follows s s' := ⟨fun _ => .inl h, fun _ _ _ _ => .inl h⟩

/-- A stream at another generation, that may have been cleared. -/
theorem follows_of_same (hoptions : s'.options = s.options) (hended : s.ended = true → s'.ended = true)
    (hdemand : s'.demandKey = s.demandKey) (hcache : s'.cache = [] ∨ s'.cache = s.cache)
    (hviewers : s'.viewers.entries = [] ↔ s.viewers.entries = []) : Follows s s' where
  attended := Or.imp hended fun h => by
    refine ⟨fun htarget hnil => ?_, fun hne => hdemand ▸ h.2 (fun hs => hne (hviewers.mpr hs))⟩
    rcases hcache with hcache | hcache
    · exact hcache
    · rw [hcache]
      exact h.1 (hoptions ▸ htarget) (hviewers.mp hnil)
  emptied _ hne hnil := absurd (hviewers.mp hnil) hne

theorem Follows.trans (h : Follows s s') (hviewers : s'.viewers.entries = [] → s.viewers.entries = [])
    (hoptions : s'.options = s.options) (h' : Attends s' t) : Follows s t where
  attended hs := h'.attended (h.attended hs)
  emptied hs hne hnil htarget :=
    h'.emptied (h.attended hs) (fun hs' => hne (hviewers hs')) hnil (hoptions ▸ htarget)

theorem entries_wait_eq_nil_iff (s : Stream) :
    (s.clearCache.mapViewers Viewer.wait).viewers.entries = [] ↔ s.viewers.entries = [] :=
  (entries_mapValues_eq_nil_iff _ _).trans (entries_mapValues_eq_nil_iff _ _)

theorem follows_media (w : World) (s : Stream) (frame : MediaFrame) : Follows s (s.media w frame) := by
  have hmedia := receives_media w s frame
  have hreceived : Follows s (s.receives frame) := follows_of_same rfl (fun h => h) rfl (.inr rfl) Iff.rfl
  have hadvanced : Follows s (s.advances frame) :=
    follows_of_same rfl (fun h => h) rfl (.inl rfl) (entries_wait_eq_nil_iff s)
  generalize s.media w frame = s' at hmedia
  cases hmedia with
  | fails => exact follows_of_ended (failCapture_ended _ _ _)
  | ends => exact follows_of_ended (ended_finish _ _)
  | unviewed => exact follows_of_same rfl (fun h => h) rfl (.inr rfl) Iff.rfl
  | unkeyed => exact hreceived
  | advances _ _ hviewers =>
    refine hadvanced.trans (entries_wait_eq_nil_iff s).mp rfl (attends_publish w _ frame fun htarget hnil => ?_)
    exact hviewers htarget ((entries_wait_eq_nil_iff s).mp hnil)
  | skips => exact hadvanced.trans (entries_wait_eq_nil_iff s).mp rfl (attends_mapWait _)
  | publishes _ _ hviewers => exact hreceived.trans (fun h => h) rfl (attends_publish w _ frame hviewers)
  | withheld => exact hreceived.trans (fun h => h) rfl (attends_mapWait _)
  | older => exact hreceived

theorem follows_phoneState (w : World) (s : Stream) (event : DisplayViewerState) :
    Follows s (s.phoneState w event) := by
  unfold Stream.phoneState
  split
  · exact (Attends.refl s).follows
  split
  · exact (Attends.refl s).follows
  split
  · exact follows_of_ended (ended_finish _ _)
  dsimp only
  generalize hcleared : (if event.generation ≠ s.generation ∨ event.state ≠ .live then
    s.clearCache.mapViewers Viewer.wait else s) = s₁
  have hcleared' : s₁ = s ∨ s₁ = s.clearCache.mapViewers Viewer.wait := by
    rw [← hcleared]
    split
    · exact .inr rfl
    · exact .inl rfl
  generalize hmarked : ({ (if event.state.withholds then
    { s₁ with withheldThrough := max s₁.withheldThrough event.generation } else s₁ : Stream) with
      generation := event.generation } : Stream) = s₂
  have hviewers : s₂.viewers.entries = [] ↔ s.viewers.entries = [] := by
    subst hmarked
    rcases hcleared' with rfl | rfl
    · split <;> exact Iff.rfl
    · split <;> exact entries_wait_eq_nil_iff s
  have hoptions : s₂.options = s.options := by
    subst hmarked
    rcases hcleared' with rfl | rfl <;> split <;> rfl
  have hfollows : Follows s s₂ := by
    subst hmarked
    rcases hcleared' with rfl | rfl
    · split <;> exact follows_of_same rfl (fun h => h) rfl (.inr rfl) Iff.rfl
    · split <;> exact follows_of_same rfl (fun h => h) rfl (.inl rfl) (entries_wait_eq_nil_iff s)
  split
  · exact follows_of_ended (ended_finish _ _)
  · exact hfollows.trans hviewers.mp hoptions (attends_publishState s₂ event)

end Opensteer.DisplayStreamHub
