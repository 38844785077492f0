import Opensteer.DisplayStreamHub.Handlers

/-!
# What viewers are shown

Over every run of a stream, from its first viewer on: what is handed to a viewer can be
decoded (`viewers_decodable`), and nothing that was withheld is handed to anybody again
(`withheld_never_shown`).
-/

namespace Opensteer.DisplayStreamHub

open Opensteer.DisplayStreamHub.Stream

variable {s s' : Stream} {g : Nat}

/-- What holds of a stream in every run. -/
structure Viewed (s : Stream) : Prop where
  relays : Relays s
  attended : Attended s

theorem viewed_start (options : StreamOptions) (maxBitrate : Option Nat) {v : Viewer}
    (hwaiting : v.waiting = true) (hnone : v.replayIndex = none) : Viewed (start options maxBitrate v) := by
  refine ⟨relayed_waiting rfl (fun h => nomatch h) (fun id u hu _ => ?_) fun _ => .nil _ _ _,
    .inr ⟨fun _ _ => rfl, fun _ key hkey => ?_⟩⟩
  · simp only [start, OrderedMap.get_set, OrderedMap.get_empty] at hu
    split at hu
    · obtain rfl := Option.some.inj hu
      exact ⟨hwaiting, hnone⟩
    · cases hu
  · obtain rfl := Option.some.inj hkey
    exact List.cons_ne_nil _ _

/-- The last viewer of a phone's stream goes. -/
def LastLeaves (s : Stream) (action : Action) (s' : Stream) : Prop :=
  s.options.target = none ∧ (s.viewers.entries ≠ [] ∨ action.comes = true) ∧ s'.viewers.entries = []

/-- What one handler does of a stream that goes on. -/
theorem viewed_act (h : Viewed s) (hs : s.ended = false) (action : Action) : Viewed (s.act action) ∧
    Hands s (s.act action) ∧ (LastLeaves s action (s.act action) → Dark (s.act action)) := by
  cases hcomes : action.comes with
  | false =>
    have hhandled := handled_act s hs h.attended hcomes
    obtain ⟨hrelays, hhands⟩ := hhandled.serves h.relays
    refine ⟨⟨hrelays, hhandled.follows.attended h.attended⟩, hhands, fun ⟨htarget, hne, hnil⟩ => ?_⟩
    rw [hcomes] at hne
    exact hhandled.follows.emptied h.attended (hne.resolve_right Bool.false_ne_true) hnil htarget
  | true =>
    cases action with
    | attaches w source actor displayWindow link sharedInput phoneOwnerControl editing displayCut authorized =>
      have hserves : Serves s (s.act (.attaches w source actor displayWindow link sharedInput phoneOwnerControl
          editing displayCut authorized)) := serves_attaches h.relays hs w rfl rfl
      obtain ⟨hattended, hdark⟩ := attended_attaches h.attended w (newViewer source actor displayWindow link
        sharedInput phoneOwnerControl editing (editing && displayCut && s.options.target.isNone) authorized)
      exact ⟨⟨hserves.relays, hattended⟩, hserves.hands, fun hlast => hdark hlast.2.2 hlast.1⟩
    | _ => cases hcomes

theorem viewed_step (h : Viewed s) {action : Action} (hstep : machine.step s action = some s') : Viewed s' := by
  obtain rfl := Option.some.inj hstep
  split
  · exact h
  · rename_i hs
    exact (viewed_act h (by simpa using hs) action).1

theorem viewed_run {as : List Action} (h : Viewed s) (hrun : machine.run s as = some s') : Viewed s' :=
  machine.invariant h (fun _ _ _ h hstep => viewed_step h hstep) hrun

/-- Of a stream created for its first viewer, whatever comes, in any order: each viewer's
frames are the phone's, the first a key, and each after it a key or, of the same generation,
the frame the phone sent right after the one the viewer was handed before. As the phone's
sequences go up, from each key on the viewer has a piece of what the phone sent. -/
theorem viewers_decodable (options : StreamOptions) (maxBitrate : Option Nat) (source : DisplaySource)
    (actor : UserId) (displayWindow link sharedInput phoneOwnerControl editing displayCut authorized : Bool)
    {as : List Action}
    (hrun : machine.run (start options maxBitrate (newViewer source actor displayWindow link sharedInput
      phoneOwnerControl editing displayCut authorized)) as = some s) (id : Nat) :
    Decodable (fun frame => frame.key = true) (fun frame next => frame.generation = next.generation)
        s.sent (s.handedTo id) ∧
      (s.sent.Pairwise (fun frame next => frame.sequence < next.sequence) →
        ∀ run, run <:+: s.handedTo id → (∀ frame ∈ run.tail, frame.key = false) → run <:+: s.sent) := by
  have hdecodable := (viewed_run (viewed_start options maxBitrate rfl rfl) hrun).relays.decodable id
  refine ⟨hdecodable, fun hascends run hin hkeys => hdecodable.run ?_ hin fun frame hframe hkey => ?_⟩
  · exact hascends.imp fun hlt heq => absurd (heq ▸ hlt) (Nat.lt_irrefl _)
  · exact nomatch (hkeys frame hframe).symm.trans hkey

/-- Sources that are live, and sockets with room. -/
def openWorld : World where
  live := fun _ _ => true
  credit := fun _ _ _ => ⟨true, 1024⟩
  roomy := fun _ _ => true
  replayBudget := fun _ => none
  rebudgets := false
  maxBitrate := none
  evicts := false
  closesViews := false
  coalesces := false

/-- A phone's display, and a task that views it. -/
def phoneOptions : StreamOptions := ⟨none, true, true, true, true, true⟩

def taskSource : DisplaySource := .taskSession ⟨"session"⟩ none

def phoneStream : Stream :=
  start phoneOptions none (newViewer taskSource ⟨"owner"⟩ true true true true true true true)

/-- A frame of the phone, of a hundred bytes. -/
def phoneFrame (sequence generation : Nat) (key : Bool) : MediaFrame := ⟨sequence, generation, key, 390, 844, 100⟩

/-- A delta before any key, a key and its delta, and a second viewer that has them replayed. -/
def viewedRun : List Action :=
  [.media openWorld (phoneFrame 1 1 false), .media openWorld (phoneFrame 2 1 true),
    .media openWorld (phoneFrame 3 1 false), .attaches openWorld taskSource ⟨"owner"⟩ true true true true true true true,
    .viewerMessage openWorld 1 (.ack 2), .viewerMessage openWorld 1 (.ack 3),
    .media openWorld (phoneFrame 4 1 false)]

theorem viewers_decodable_run : ∃ s, machine.run phoneStream viewedRun = some s ∧
    (s.handedTo 1).map MediaFrame.sequence = [2, 3, 4] ∧
    Decodable (fun frame => frame.key = true) (fun frame next => frame.generation = next.generation)
      s.sent (s.handedTo 1) ∧ s.handedTo 1 <:+: s.sent := by
  obtain ⟨s, hrun, hhanded, hsent, htail⟩ := machine.exists_run_of_any
    (P := fun s => (s.handedTo 1).map MediaFrame.sequence = [2, 3, 4] ∧
      s.sent.Pairwise (fun frame next => frame.sequence < next.sequence) ∧
      ∀ frame ∈ (s.handedTo 1).tail, frame.key = false)
    (s := phoneStream) (l := viewedRun) (by decide +kernel)
  obtain ⟨hdecodable, hpiece⟩ := viewers_decodable phoneOptions none taskSource ⟨"owner"⟩ true true true true true
    true true hrun 1
  exact ⟨s, hrun, hhanded, hdecodable, hpiece hsent _ List.infix_rfl htail⟩

/-! ## What is withheld -/

/-- In a step the frames up to a generation are withheld for good: the phone says that the
generation is protected or over, the last viewer of the phone goes, or the stream ends, as
it does when the capture of a window fails (`failCapture_ended`). -/
inductive Withholds (s : Stream) (action : Action) (s' : Stream) (g : Nat) : Prop
  | state (w : World) (event : DisplayViewerState) (haction : action = .phoneState w event)
      (hstate : event.state.withholds = true) (hcurrent : s.generation ≤ event.generation)
      (hgeneration : g = event.generation)
  | unviewed (hlast : LastLeaves s action s') (hgeneration : g = s'.generation)
  | ends (hended : s'.ended = true)

/-- The frames up to a generation are withheld. -/
def Shut (g : Nat) (s : Stream) : Prop := s.ended = true ∨ g ≤ s.withheldThrough

theorem withheldThrough_le_phoneState (w : World) {event : DisplayViewerState}
    (hstate : event.state.withholds = true) (hcurrent : s.generation ≤ event.generation) :
    Shut event.generation (s.phoneState w event) := by
  unfold Stream.phoneState
  rw [if_neg (by omega), if_neg (fun h => by rw [h.1] at hstate; cases hstate)]
  split
  · exact .inl (ended_finish _ _)
  dsimp only
  split
  · exact .inl (ended_finish _ _)
  · refine .inr ?_
    rw [withheldThrough_publishState]
    exact Nat.le_max_right _ _

theorem shut_of_withholds (h : Viewed s) {action : Action} (hstep : machine.step s action = some s')
    (hwithholds : Withholds s action s' g) : Shut g s' := by
  have hstep' := Option.some.inj hstep
  cases hs : s.ended with
  | true =>
    rw [if_pos hs] at hstep'
    exact .inl (hstep' ▸ hs)
  | false =>
    rw [hs, if_neg Bool.false_ne_true] at hstep'
    subst hstep'
    cases hwithholds with
    | state w event haction hstate hcurrent hgeneration =>
      subst haction hgeneration
      exact withheldThrough_le_phoneState w hstate hcurrent
    | unviewed hlast hgeneration =>
      subst hgeneration
      exact (viewed_act h hs action).2.2 hlast
    | ends hended => exact .inl hended

/-- What was shut stays so, and what is handed on later is of a newer generation. -/
theorem shut_step (h : Viewed s) (hshut : Shut g s) {action : Action}
    (hstep : machine.step s action = some s') :
    Shut g s' ∧ ∃ new, s'.handed = s.handed ++ new ∧ ∀ p ∈ new, g < p.2.generation := by
  obtain rfl := Option.some.inj hstep
  split
  · exact ⟨hshut, [], (List.append_nil _).symm, fun _ hp => nomatch hp⟩
  · rename_i hs
    have hs : s.ended = false := by simpa using hs
    have hle : g ≤ s.withheldThrough := hshut.resolve_left (by simp [hs])
    obtain ⟨hwithheld, new, hnew, hof⟩ := (viewed_act h hs action).2.1
    exact ⟨hwithheld.imp_right hle.trans, new, hnew, fun p hp => hle.trans_lt (hof p hp)⟩

/-- Of a stream created for its first viewer, whatever comes, in any order: once the frames
up to a generation are withheld, no frame of it is handed to a viewer. -/
theorem withheld_never_shown (options : StreamOptions) (maxBitrate : Option Nat) (source : DisplaySource)
    (actor : UserId) (displayWindow link sharedInput phoneOwnerControl editing displayCut authorized : Bool)
    {as bs : List Action} {action : Action} {s₁ s₂ : Stream}
    (hrun : machine.run (start options maxBitrate (newViewer source actor displayWindow link sharedInput
      phoneOwnerControl editing displayCut authorized)) as = some s)
    (hstep : machine.step s action = some s₁) (hwithholds : Withholds s action s₁ g)
    (hrest : machine.run s₁ bs = some s₂) :
    ∃ later, s₂.handed = s₁.handed ++ later ∧ ∀ p ∈ later, g < p.2.generation := by
  have hviewed := viewed_run (viewed_start options maxBitrate rfl rfl) hrun
  have hshut := shut_of_withholds hviewed hstep hwithholds
  refine (machine.invariant (P := fun t => Viewed t ∧ Shut g t ∧
    ∃ later, t.handed = s₁.handed ++ later ∧ ∀ p ∈ later, g < p.2.generation)
    ⟨viewed_step hviewed hstep, hshut, [], (List.append_nil _).symm, fun _ hp => nomatch hp⟩ ?_ hrest).2.2
  rintro t a t' ⟨hviewed, hshut, later, hlater, hnewer⟩ hstep
  obtain ⟨hshut', new, hnew, hof⟩ := shut_step hviewed hshut hstep
  refine ⟨viewed_step hviewed hstep, hshut', later ++ new, by rw [hnew, hlater, List.append_assoc], fun p hp => ?_⟩
  exact (List.mem_append.mp hp).elim (hnewer p) (hof p)

/-- A key is shown, and then the phone's screen is protected. -/
def protectedRun : List Action := [.media openWorld (phoneFrame 1 1 true)]

def protects : Action := .phoneState openWorld ⟨.protected, 1, 0, 0, none⟩

/-- Media of the protected generation comes late, and then a key of the next. -/
def lateRun : List Action := [.media openWorld (phoneFrame 2 1 true), .media openWorld (phoneFrame 3 2 true)]

theorem withheld_never_shown_run : ∃ s s₁ s₂, machine.run phoneStream protectedRun = some s ∧
    machine.step s protects = some s₁ ∧ machine.run s₁ lateRun = some s₂ ∧
    s₁.handed.map (fun p => p.2.sequence) = [1] ∧ s₂.handed.map (fun p => p.2.sequence) = [1, 3] ∧
    ∃ later, s₂.handed = s₁.handed ++ later ∧ ∀ p ∈ later, 1 < p.2.generation := by
  obtain ⟨s, hrun, hgeneration, s₁, hstep, hhanded₁, s₂, hrest, hhanded₂⟩ := machine.exists_run_of_any
    (P := fun s => s.generation ≤ 1 ∧ ∃ s₁ ∈ machine.step s protects,
      s₁.handed.map (fun p => p.2.sequence) = [1] ∧ ∃ s₂ ∈ machine.run s₁ lateRun,
        s₂.handed.map (fun p => p.2.sequence) = [1, 3])
    (s := phoneStream) (l := protectedRun) (by decide +kernel)
  exact ⟨s, s₁, s₂, hrun, hstep, hrest, hhanded₁, hhanded₂,
    withheld_never_shown phoneOptions none taskSource ⟨"owner"⟩ true true true true true true true hrun hstep
      (.state openWorld _ rfl rfl hgeneration rfl) hrest⟩

end Opensteer.DisplayStreamHub
