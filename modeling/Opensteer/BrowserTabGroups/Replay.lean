import Opensteer.BrowserTabGroups.Client

/-!
# Edits are replayed over the newest layout

`Kept` holds of a client after any steps that take each authority up: in an authority it is known
what is pending (`heldOf`), what the base is the newest of, and which edit waits for which. From it,
`browserTabGroups_replays` says what is shown and sent, and what a step can do.
-/

namespace Opensteer.BrowserTabGroups

variable {ι γ : Type}

/-- The patch of an edit that is drawn: made in this authority, over a layout, since the last empty
one, and not settled. -/
def patchOf (w : World ι γ) (edit : Nat) : Option (LayoutPatch ι γ) :=
  (w.changes[edit]?).bind fun c =>
    if w.since ≤ edit ∧ c.scope = w.authority ∧ c.based ∧ c.phase ≠ .settled then c.patch else none

/-- The edits that are drawn, in order. -/
def heldOf (w : World ι γ) : List (Nat × LayoutPatch ι γ) :=
  (List.range w.changes.length).filterMap fun edit => (patchOf w edit).map (edit, ·)

def scopeOf (w : World ι γ) (edit : Nat) : Option Nat := (w.changes[edit]?).map (·.scope)

/-- What an edit waits for, if some before it are of its authority: one of those, and none of them
comes after it. -/
def Follows (w : World ι γ) (scope limit : Nat) (after : Option Nat) : Prop :=
  ∀ j < limit, scopeOf w j = some scope →
    ∃ p, after = some p ∧ j ≤ p ∧ p < limit ∧ scopeOf w p = some scope

/-- The base is the newest of the layouts that arrived. -/
def Newest (base : Option (BrowserTabLayout ι γ)) (arrived : List Nat) : Prop :=
  match base with
  | none => arrived = []
  | some base => base.revision ∈ arrived ∧ ∀ revision ∈ arrived, revision ≤ base.revision

/-- What holds of a client before it shows the layout. -/
structure Sound (w : World ι γ) : Prop where
  scope : ∀ s, w.scope = some s → s ≤ w.authority
  scopes : ∀ c ∈ w.changes, c.scope ≤ w.authority
  current : ∀ c ∈ w.changes, c.scope = w.authority → w.scope = some w.authority
  since : w.since ≤ w.changes.length
  pending : w.scope = some w.authority → w.pending = heldOf w
  newest : w.scope = some w.authority → Newest w.base w.arrived
  follows : ∀ (k : Nat) (c : Change ι γ), w.changes[k]? = some c → Follows w c.scope k c.after
  tail : w.scope = some w.authority → Follows w w.authority w.changes.length w.tail
  sent : ∀ (k : Nat) (c : Change ι γ), w.changes[k]? = some c → c.phase ≠ .waiting →
    ∀ (j : Nat) (d : Change ι γ), j < k → w.changes[j]? = some d → d.scope = c.scope →
      d.phase = .settled

/-- What holds of a client after any steps. -/
structure Kept (w : World ι γ) : Prop extends Sound w where
  shown : w.scope = some w.authority → w.shown =
    w.base.map fun layout => w.pending.foldl (fun layout entry => entry.2 layout w.shownTabs) layout

variable {w : World ι γ}

theorem kept_init : Kept ({} : World ι γ) where
  scope := nofun
  scopes := nofun
  current := nofun
  since := Nat.le_refl _
  pending := nofun
  newest := nofun
  follows := nofun
  tail := nofun
  sent := nofun
  shown := nofun

theorem Sound.show_ (h : Sound w) : Kept w.show_ :=
  { h with shown := fun _ => rfl }

/-! ## What is drawn -/

theorem patchOf_eq_none_of_scope {edit : Nat} (h : ∀ c ∈ w.changes, c.scope ≠ w.authority) :
    patchOf w edit = none := by
  unfold patchOf
  cases hc : w.changes[edit]? with
  | none => rfl
  | some c => exact if_neg fun hheld => h c (List.mem_of_getElem? hc) hheld.2.1

theorem heldOf_eq_nil (h : ∀ edit < w.changes.length, patchOf w edit = none) : heldOf w = [] := by
  rw [heldOf, List.filterMap_eq_nil_iff]
  intro edit hedit
  rw [h edit (List.mem_range.mp hedit), Option.map_none]

/-- An edit that is made. -/
theorem heldOf_append {w' : World ι γ} {c : Change ι γ} (hchanges : w'.changes = w.changes ++ [c])
    (hsince : w'.since = w.since) (hauthority : w'.authority = w.authority) :
    heldOf w' = heldOf w ++ ((patchOf w' w.changes.length).map (w.changes.length, ·)).toList := by
  have hbefore : ∀ edit < w.changes.length, patchOf w' edit = patchOf w edit := by
    intro edit hedit
    rw [patchOf, patchOf, hchanges, hsince, hauthority, List.getElem?_append_left hedit]
  rw [heldOf, hchanges, List.length_append, List.length_singleton, List.range_succ,
    List.filterMap_append, heldOf]
  congr 1
  refine List.filterMap_congr fun edit hedit => ?_
  rw [hbefore edit (List.mem_range.mp hedit)]

theorem patchOf_put {k edit : Nat} {c' : Change ι γ} (h : edit ≠ k) :
    patchOf (w.put k c') edit = patchOf w edit := by
  simp only [patchOf, World.put, List.getElem?_set_ne (Ne.symm h)]
  rfl

/-- An edit of this authority that goes on. -/
theorem patchOf_put_self {k : Nat} {c : Change ι γ} {phase : Phase} (hc : w.changes[k]? = some c)
    (h : phase ≠ .settled ∧ c.phase ≠ .settled) :
    patchOf (w.put k { c with phase }) k = patchOf w k := by
  simp only [patchOf, World.put, List.getElem?_set_self (List.getElem?_eq_some_iff.mp hc).1, hc,
    Option.bind_some, ne_eq, h.1, h.2]

/-- An edit of another authority. -/
theorem patchOf_put_other {k : Nat} {c : Change ι γ} {phase : Phase} (hc : w.changes[k]? = some c)
    (h : c.scope ≠ w.authority) : patchOf (w.put k { c with phase }) k = patchOf w k := by
  simp only [patchOf, World.put, List.getElem?_set_self (List.getElem?_eq_some_iff.mp hc).1, hc,
    Option.bind_some, h]
  simp

/-- An edit that goes on, and is drawn as before. -/
theorem heldOf_put {k : Nat} {c' : Change ι γ} (h : patchOf (w.put k c') k = patchOf w k) :
    heldOf (w.put k c') = heldOf w := by
  have hlength : (w.put k c').changes.length = w.changes.length := List.length_set
  rw [heldOf, heldOf, hlength]
  refine List.filterMap_congr fun edit _ => ?_
  obtain rfl | hedit := Decidable.eq_or_ne edit k
  · rw [h]
  · rw [patchOf_put hedit]

/-- An edit that settles. -/
theorem heldOf_settle {k : Nat} {c' : Change ι γ} (h : c'.phase = .settled) :
    heldOf (w.put k c') = (heldOf w).filter (·.1 ≠ k) := by
  have hlength : (w.put k c').changes.length = w.changes.length := List.length_set
  have hsettled : patchOf (w.put k c') k = none := by
    simp only [patchOf, World.put, List.getElem?_set_self']
    cases w.changes[k]? with
    | none => rfl
    | some c => exact if_neg fun hheld => hheld.2.2.2 h
  rw [heldOf, heldOf, hlength, List.filter_filterMap]
  refine List.filterMap_congr fun edit _ => ?_
  obtain rfl | hedit := Decidable.eq_or_ne edit k
  · rw [hsettled]
    cases patchOf w edit <;> simp [Option.filter_some]
  · rw [patchOf_put hedit]
    cases patchOf w edit <;> simp [hedit, Option.filter_some]

/-! ## What waits for what -/

theorem scopeOf_put {k : Nat} {c c' : Change ι γ} (hc : w.changes[k]? = some c)
    (hscope : c'.scope = c.scope) (edit : Nat) : scopeOf (w.put k c') edit = scopeOf w edit := by
  simp only [scopeOf, World.put]
  obtain rfl | hedit := Decidable.eq_or_ne edit k
  · rw [List.getElem?_set_self (List.getElem?_eq_some_iff.mp hc).1, hc]
    exact congrArg some hscope
  · rw [List.getElem?_set_ne (Ne.symm hedit)]

theorem Follows.congr {w' : World ι γ} {scope limit : Nat} {after : Option Nat}
    (h : Follows w scope limit after) (hscopes : ∀ j < limit, scopeOf w' j = scopeOf w j) :
    Follows w' scope limit after := by
  intro j hj hscope
  rw [hscopes j hj] at hscope
  obtain ⟨p, hafter, hle, hlt, hp⟩ := h j hj hscope
  exact ⟨p, hafter, hle, hlt, by rw [hscopes p hlt, hp]⟩

/-- Of the edits before one whose turn has come, those of its authority are settled. -/
theorem Sound.settled_before (h : Sound w) {k : Nat} {c : Change ι γ} (hc : w.changes[k]? = some c)
    (hturn : c.after.all w.settled = true) {j : Nat} {d : Change ι γ} (hj : j < k)
    (hd : w.changes[j]? = some d) (hscope : d.scope = c.scope) : d.phase = .settled := by
  obtain ⟨p, hafter, hle, hlt, hp⟩ := h.follows k c hc j hj (by rw [scopeOf, hd]; exact congrArg some hscope)
  rw [hafter, Option.all_some, World.settled] at hturn
  obtain ⟨b, hb, hphase⟩ := (Option.any_eq_true _ _).mp hturn
  rw [decide_eq_true_eq] at hphase
  obtain rfl | hlt := Nat.eq_or_lt_of_le hle
  · obtain rfl := Option.some.inj (hd.symm.trans hb)
    exact hphase
  · rw [scopeOf, hb] at hp
    exact h.sent p b hb (by rw [hphase]; decide) j d hlt hd (hscope.trans (Option.some.inj hp).symm)

/-- An edit that goes on. -/
theorem Sound.put (h : Sound w) {k : Nat} {c : Change ι γ} (hc : w.changes[k]? = some c)
    (phase : Phase) (pending : List (Nat × LayoutPatch ι γ)) (hphase : c.phase ≠ .settled)
    (hsettled : ∀ (j : Nat) (d : Change ι γ), j < k → w.changes[j]? = some d → d.scope = c.scope →
      d.phase = .settled)
    (hpending : w.scope = some w.authority → pending = heldOf (w.put k { c with phase })) :
    Sound { w.put k { c with phase } with pending } := by
  have hget : ∀ (j : Nat) (d : Change ι γ), (w.changes.set k { c with phase })[j]? = some d →
      j = k ∧ d = { c with phase } ∨ j ≠ k ∧ w.changes[j]? = some d := by
    intro j d hd
    rw [List.getElem?_set] at hd
    split at hd
    · rename_i hkj
      split at hd
      · exact .inl ⟨hkj.symm, (Option.some.inj hd).symm⟩
      · cases hd
    · rename_i hkj
      exact .inr ⟨Ne.symm hkj, hd⟩
  have hmem : ∀ d ∈ w.changes.set k { c with phase }, ∃ d' ∈ w.changes, d'.scope = d.scope := by
    intro d hd
    obtain ⟨j, hj⟩ := List.mem_iff_getElem?.mp hd
    obtain ⟨-, rfl⟩ | ⟨-, hj⟩ := hget j d hj
    · exact ⟨c, List.mem_of_getElem? hc, rfl⟩
    · exact ⟨d, List.mem_of_getElem? hj, rfl⟩
  have hscopes := (@scopeOf_put _ _ _ _ _ { c with phase }) hc rfl
  exact {
    scope := h.scope
    scopes := fun d hd => by
      obtain ⟨d', hd', hscope⟩ := hmem d hd
      exact hscope ▸ h.scopes d' hd'
    current := fun d hd heq => by
      obtain ⟨d', hd', hscope⟩ := hmem d hd
      exact h.current d' hd' (hscope.trans heq)
    since := by
      show w.since ≤ (w.changes.set k { c with phase }).length
      rw [List.length_set]
      exact h.since
    pending := hpending
    newest := h.newest
    follows := fun j d hd => by
      have hfollows : Follows w d.scope j d.after := by
        obtain ⟨rfl, rfl⟩ | ⟨-, hd⟩ := hget j d hd
        · exact h.follows j c hc
        · exact h.follows j d hd
      exact hfollows.congr fun i _ => hscopes i
    tail := fun hscope => by
      show Follows _ _ (w.changes.set k { c with phase }).length _
      rw [List.length_set]
      exact (h.tail hscope).congr fun i _ => hscopes i
    sent := by
      intro j d hd hsent i e hi he heq
      obtain ⟨rfl, rfl⟩ | ⟨hj, hd'⟩ := hget j d hd
      · obtain ⟨rfl, -⟩ | ⟨-, he'⟩ := hget i e he
        · exact absurd hi (Nat.lt_irrefl _)
        · exact hsettled i e hi he' heq
      · obtain ⟨rfl, rfl⟩ | ⟨-, he'⟩ := hget i e he
        · exact absurd (h.sent j d hd' hsent i c hi hc heq) hphase
        · exact h.sent j d hd' hsent i e hi he' heq }

/-! ## The steps -/

theorem Newest.take {base : Option (BrowserTabLayout ι γ)} {arrived : List Nat} (h : Newest base arrived)
    {layout : BrowserTabLayout ι γ} (hnewer : ∀ b, base = some b → b.revision ≤ layout.revision) :
    Newest (some layout) (arrived ++ [layout.revision]) := by
  refine ⟨by simp, fun revision hrevision => ?_⟩
  obtain hrevision | hrevision := List.mem_append.mp hrevision
  · cases base with
    | none =>
      obtain rfl : arrived = [] := h
      cases hrevision
    | some b => exact (h.2 revision hrevision).trans (hnewer b rfl)
  · exact Nat.le_of_eq (List.mem_singleton.mp hrevision)

theorem Newest.keep {base : Option (BrowserTabLayout ι γ)} {arrived : List Nat} (h : Newest base arrived)
    {revision : Nat} (holder : ∃ b, base = some b ∧ revision ≤ b.revision) :
    Newest base (arrived ++ [revision]) := by
  obtain ⟨b, rfl, hle⟩ := holder
  refine ⟨List.mem_append_left _ h.1, fun r hr => ?_⟩
  obtain hr | hr := List.mem_append.mp hr
  · exact h.2 r hr
  · rw [List.mem_singleton.mp hr]
    exact hle

theorem Kept.takeUp (h : Kept w) :
    Sound w.takeUp ∧ w.takeUp.scope = some w.authority ∧ w.takeUp.authority = w.authority := by
  unfold World.takeUp
  split
  · rename_i hscope
    exact ⟨h.toSound, hscope, rfl⟩
  · rename_i hscope
    have hnone : ∀ c ∈ w.changes, c.scope ≠ w.authority := fun c hc heq => hscope (h.current c hc heq)
    refine ⟨?_, rfl, rfl⟩
    exact {
      scope := fun s hs => by cases hs; exact Nat.le_refl _
      scopes := h.scopes
      current := fun _ _ _ => rfl
      since := Nat.le_refl _
      pending := fun _ => by
        symm
        apply heldOf_eq_nil
        intro edit _
        apply patchOf_eq_none_of_scope
        exact hnone
      newest := fun _ => rfl
      follows := h.follows
      tail := fun _ j hj hj' => by
        obtain ⟨c, hc, hscope'⟩ := Option.map_eq_some_iff.mp hj'
        exact absurd hscope' (hnone c (List.mem_of_getElem? hc))
      sent := h.sent }

theorem Kept.receive (h : Kept w) (layout : Option (BrowserTabLayout ι γ)) : Kept (w.receive layout) := by
  obtain ⟨hsound, hscope, hauthority⟩ := h.takeUp
  unfold World.receive
  generalize w.takeUp = w' at hsound hscope hauthority ⊢
  rw [← hauthority] at hscope
  cases layout with
  | none =>
    refine Sound.show_ { hsound with
      since := Nat.le_refl _
      pending := fun _ => (heldOf_eq_nil fun edit hedit => ?_).symm
      newest := fun _ => rfl }
    unfold patchOf
    cases w'.changes[edit]? with
    | none => rfl
    | some c => exact if_neg fun hheld => absurd hheld.1 (Nat.not_le.mpr hedit)
  | some layout =>
    dsimp only
    split
    · rename_i hnewer
      refine Sound.show_ { hsound with newest := fun _ => (hsound.newest hscope).take ?_ }
      intro b hb
      simpa [hb] using hnewer
    · rename_i holder
      refine Sound.show_ { hsound with newest := fun _ => (hsound.newest hscope).keep ?_ }
      simp only [Option.all_eq_true, not_forall, decide_eq_true_eq] at holder
      obtain ⟨b, hb, hlt⟩ := holder
      exact ⟨b, hb, by omega⟩

/-- An edit that is made. -/
theorem Sound.append (h : Sound w) (hscope : w.scope = some w.authority) {c : Change ι γ}
    (hc : c.scope = w.authority) (hafter : c.after = w.tail) (hphase : c.phase = .waiting)
    {pending : List (Nat × LayoutPatch ι γ)}
    (hpending : pending = heldOf w ++ ((patchOf { w with changes := w.changes ++ [c] }
      w.changes.length).map (w.changes.length, ·)).toList) :
    Sound { w with changes := w.changes ++ [c], tail := some w.changes.length, pending } := by
  have hget : ∀ (j : Nat) (d : Change ι γ), (w.changes ++ [c])[j]? = some d →
      w.changes[j]? = some d ∨ j = w.changes.length ∧ d = c := by
    intro j d hd
    rw [List.getElem?_append] at hd
    split at hd
    · exact .inl hd
    · obtain ⟨hj, rfl⟩ := List.getElem?_eq_some_iff.mp hd
      simp only [List.length_singleton] at hj
      exact .inr ⟨by omega, by simp⟩
  have hscopes : ∀ j < w.changes.length, ((w.changes ++ [c])[j]?).map (·.scope) = scopeOf w j := by
    intro j hj
    rw [List.getElem?_append_left hj, scopeOf]
  have hlt : ∀ {j : Nat} {d : Change ι γ}, w.changes[j]? = some d → j < w.changes.length :=
    fun hd => (List.getElem?_eq_some_iff.mp hd).1
  exact {
    scope := h.scope
    scopes := fun d hd => by
      obtain hd | hd := List.mem_append.mp hd
      · exact h.scopes d hd
      · rw [List.mem_singleton.mp hd]
        exact Nat.le_of_eq hc
    current := fun _ _ _ => hscope
    since := by
      show w.since ≤ (w.changes ++ [c]).length
      rw [List.length_append]
      exact h.since.trans (Nat.le_add_right _ _)
    pending := fun _ => by
      have happend : heldOf { w with
          changes := w.changes ++ [c], tail := some w.changes.length, pending } = _ :=
        heldOf_append (w := w) (c := c) rfl rfl rfl
      exact hpending.trans happend.symm
    newest := h.newest
    follows := fun k d hd => by
      obtain hd | ⟨rfl, rfl⟩ := hget k d hd
      · exact (h.follows k d hd).congr fun j hj => hscopes j (hj.trans (hlt hd))
      · rw [hc, hafter]
        exact (h.tail hscope).congr hscopes
    tail := fun _ j hj _ => by
      have hlength : (w.changes ++ [c]).length = w.changes.length + 1 := List.length_append
      have hj : j < w.changes.length + 1 := by
        rw [← hlength]
        exact hj
      refine ⟨w.changes.length, rfl, Nat.le_of_lt_succ hj, ?_, ?_⟩
      · show _ < (w.changes ++ [c]).length
        rw [hlength]
        exact Nat.lt_succ_self _
      · show ((w.changes ++ [c])[w.changes.length]?).map (·.scope) = _
        rw [List.getElem?_concat_length]
        exact congrArg some hc
    sent := by
      intro k d hd hsent j e hj he heq
      obtain hd | ⟨rfl, rfl⟩ := hget k d hd
      · obtain he | ⟨rfl, -⟩ := hget j e he
        · exact h.sent k d hd hsent j e hj he heq
        · exact absurd (hlt hd) (Nat.not_lt.mpr (Nat.le_of_lt hj))
      · exact absurd hphase hsent }

theorem Kept.change (h : Kept w) (patch : Option (LayoutPatch ι γ))
    (hscope : w.scope = some w.authority) : Kept (w.change patch) := by
  have hpending := h.pending hscope
  unfold World.change
  dsimp only
  split
  · rename_i patch base hbase
    refine Sound.show_ (h.toSound.append hscope rfl rfl rfl ?_)
    rw [hpending]
    congr 1
    simp [patchOf, h.since, hbase]
  · rename_i patch _ _ hnone
    refine { h.toSound.append hscope rfl rfl rfl ?_ with shown := h.shown }
    rw [hpending, patchOf, List.getElem?_concat_length, Option.bind_some]
    split
    · rename_i hheld
      obtain ⟨base, hbase⟩ := Option.isSome_iff_exists.mp hheld.2.2.1
      cases patch with
      | none => simp
      | some patch => exact absurd hbase (hnone patch base rfl)
    · simp

theorem Kept.removeClosed [DecidableEq ι] (h : Kept w) (tabIds : List ι) :
    Kept { w with base := w.base.map (withoutClosed · tabIds) }.show_ := by
  refine Sound.show_ { h.toSound with newest := fun hscope => ?_ }
  have hnewest := h.newest hscope
  cases hbase : w.base with
  | none => rwa [hbase] at hnewest
  | some base => rwa [hbase] at hnewest

theorem Kept.authority (h : Kept w) {generation : Nat} (hlt : w.authority < generation) :
    Kept { w with authority := generation } := by
  have hscope : w.scope ≠ some generation := fun hscope => by
    have := h.scope generation hscope
    omega
  exact {
    scope := fun s hs => (h.scope s hs).trans (Nat.le_of_lt hlt)
    scopes := fun c hc => (h.scopes c hc).trans (Nat.le_of_lt hlt)
    current := fun c hc heq => by
      have := h.scopes c hc
      simp only at heq
      omega
    since := h.since
    pending := fun hs => absurd hs hscope
    newest := fun hs => absurd hs hscope
    follows := h.follows
    tail := fun hs => absurd hs hscope
    sent := h.sent
    shown := fun hs => absurd hs hscope }

theorem Kept.begin_ [LinearOrder ι] [DecidableEq γ] (h : Kept w) (k : Nat) {w' : World ι γ}
    (hstep : step w (.begin_ k) = some w') : Kept w' := by
  simp only [step] at hstep
  split at hstep
  · rename_i c hc
    split at hstep
    · rename_i hturn
      obtain ⟨hwaiting, hafter⟩ := hturn
      obtain rfl := Option.some.inj hstep
      have hsound := h.toSound.put hc (if c.scope = w.authority then .sending else .settled) w.pending
        (by rw [hwaiting]; decide) (fun _ _ hj hd hscope => h.settled_before hc hafter hj hd hscope)
        fun hscope => by
          rw [h.pending hscope, heldOf_put]
          by_cases hown : c.scope = w.authority
          · exact patchOf_put_self hc (by simp [hown, hwaiting])
          · exact patchOf_put_other hc hown
      exact { hsound with shown := h.shown }
    · cases hstep
  · cases hstep

theorem Kept.answer [LinearOrder ι] [DecidableEq γ] (h : Kept w) (k : Nat)
    (layout : Option (BrowserTabLayout ι γ)) {w' : World ι γ}
    (hstep : step w (.answer k layout) = some w') : Kept w' := by
  simp only [step] at hstep
  split at hstep
  · rename_i c hc
    split at hstep
    · rename_i hsending
      obtain rfl := Option.some.inj hstep
      have hbefore := fun j d hj hd hscope =>
        h.sent k c hc (by rw [hsending]; decide) j d hj hd hscope
      split
      · rename_i hscope
        have hcurrent := h.current c (List.mem_of_getElem? hc) hscope
        have hsound := h.toSound.put hc .settled (w.pending.filter (·.1 ≠ k))
          (by rw [hsending]; decide) hbefore fun hscope => by
            rw [h.pending hscope, heldOf_settle rfl]
        cases layout with
        | none => exact hsound.show_
        | some layout =>
          dsimp only
          split
          · rename_i hnewer
            refine Sound.show_ { hsound with newest := fun _ => (h.newest hcurrent).take ?_ }
            intro b hb
            have hlt : b.revision < layout.revision := by simpa [World.forget, World.put, hb] using hnewer
            exact Nat.le_of_lt hlt
          · rename_i holder
            refine Sound.show_ { hsound with newest := fun _ => (h.newest hcurrent).keep ?_ }
            simp only [Option.all_eq_true, not_forall, decide_eq_true_eq] at holder
            obtain ⟨b, hb, hlt⟩ := holder
            exact ⟨b, hb, by omega⟩
      · rename_i hscope
        have hsound := h.toSound.put hc .settled w.pending (by rw [hsending]; decide) hbefore
          fun hcurrent => by
            rw [h.pending hcurrent, heldOf_put]
            exact patchOf_put_other hc hscope
        exact { hsound with shown := h.shown }
    · cases hstep
  · cases hstep

theorem Kept.step [LinearOrder ι] [DecidableEq γ] (h : Kept w) {a : Action ι γ} {w' : World ι γ}
    (hmeets : TakenUp w a) (hstep : step w a = some w') : Kept w' := by
  cases a with
  | receive layout =>
    obtain rfl := Option.some.inj hstep
    exact h.receive layout
  | project =>
    obtain rfl := Option.some.inj hstep
    exact h.toSound.show_
  | change edit =>
    obtain rfl := Option.some.inj hstep
    exact h.change edit.patch hmeets
  | begin_ edit => exact h.begin_ edit hstep
  | answer edit layout => exact h.answer edit layout hstep
  | removeClosed tabIds =>
    obtain rfl := Option.some.inj hstep
    exact h.removeClosed tabIds
  | authority generation =>
    simp only [BrowserTabGroups.step] at hstep
    split at hstep
    · rename_i hlt
      obtain rfl := Option.some.inj hstep
      exact h.authority hlt
    · cases hstep
  | tabs tabs =>
    obtain rfl := Option.some.inj hstep
    exact { h with }

/-- What is shown and sent once the authority is taken up. -/
structure Replays (w : World ι γ) : Prop where
  shown : w.scope = some w.authority → w.shown =
    w.base.map fun layout => (heldOf w).foldl (fun layout entry => entry.2 layout w.shownTabs) layout
  newest : w.scope = some w.authority → Newest w.base w.arrived
  inOrder : ∀ (k : Nat) (c : Change ι γ), w.changes[k]? = some c → c.phase ≠ .waiting →
    ∀ (j : Nat) (d : Change ι γ), j < k → w.changes[j]? = some d → d.scope = c.scope →
      d.phase = .settled
  settled : w.scope = some w.authority →
    (∀ c ∈ w.changes, c.scope = w.authority → c.phase = .settled) → w.shown = w.base

theorem Kept.replays (h : Kept w) : Replays w where
  shown hscope := by rw [h.shown hscope, h.pending hscope]
  newest := h.newest
  inOrder := h.sent
  settled hscope hsettled := by
    have hheld : heldOf w = [] := by
      apply heldOf_eq_nil
      intro edit _
      unfold patchOf
      cases hc : w.changes[edit]? with
      | none => rfl
      | some c => exact if_neg fun hheld =>
          hheld.2.2.2 (hsettled c (List.mem_of_getElem? hc) hheld.2.1)
    rw [h.shown hscope, h.pending hscope, hheld]
    cases w.base <;> rfl

/-! ## What a step does -/

/-- Between a change of authority and what is received next, the client draws nothing. -/
def Untouched (w w' : World ι γ) : Prop :=
  w'.base = w.base ∧ w'.shown = w.shown ∧ w'.shownTabs = w.shownTabs

/-- The base is at least as new. -/
def NoOlder (w w' : World ι γ) : Prop :=
  ∀ base, w.base = some base → ∃ base', w'.base = some base' ∧ base.revision ≤ base'.revision

theorem NoOlder.of_eq {w' : World ι γ} (h : w'.base = w.base) : NoOlder w w' :=
  fun base hbase => ⟨base, h.trans hbase, Nat.le_refl _⟩

/-- What is received is drawn as it is, where it takes the authority up. -/
theorem receive_other {layout : Option (BrowserTabLayout ι γ)} (h : w.scope ≠ some w.authority) :
    (w.receive layout).base = layout ∧ (w.receive layout).shown = layout := by
  cases layout <;> simp [World.receive, World.takeUp, h, World.show_, World.project]

theorem receive_noOlder {layout : BrowserTabLayout ι γ} (h : w.scope = some w.authority) :
    NoOlder w (w.receive (some layout)) := by
  simp only [World.receive, World.takeUp, if_pos h]
  split
  · rename_i hnewer
    intro base hbase
    exact ⟨layout, rfl, by simpa [hbase] using hnewer⟩
  · exact .of_eq rfl

theorem change_base (patch : Option (LayoutPatch ι γ)) : (w.change patch).base = w.base := by
  unfold World.change
  dsimp only
  split <;> rfl

variable [LinearOrder ι] [DecidableEq γ]

theorem step_begin {k : Nat} {w' : World ι γ} (hstep : step w (.begin_ k) = some w') :
    Untouched w w' := by
  simp only [step] at hstep
  split at hstep
  · split at hstep
    · obtain rfl := Option.some.inj hstep
      exact ⟨rfl, rfl, rfl⟩
    · cases hstep
  · cases hstep

/-- The answer to another authority's edit. -/
theorem step_answer_other {k : Nat} {c : Change ι γ} {layout : Option (BrowserTabLayout ι γ)}
    {w' : World ι γ} (hc : w.changes[k]? = some c) (hscope : c.scope ≠ w.authority)
    (hstep : step w (.answer k layout) = some w') : Untouched w w' := by
  simp only [step, hc] at hstep
  split at hstep
  · obtain rfl := Option.some.inj hstep
    split
    · rename_i heq
      exact absurd heq hscope
    · exact ⟨rfl, rfl, rfl⟩
  · cases hstep

theorem step_answer_noOlder {k : Nat} {layout : Option (BrowserTabLayout ι γ)} {w' : World ι γ}
    (hstep : step w (.answer k layout) = some w') : NoOlder w w' := by
  simp only [step] at hstep
  split at hstep
  · split at hstep
    · obtain rfl := Option.some.inj hstep
      split
      · cases layout with
        | none => exact .of_eq rfl
        | some layout =>
          dsimp only
          split
          · rename_i hnewer
            intro base hbase
            have hlt : base.revision < layout.revision := by
              simpa [World.forget, World.put, hbase] using hnewer
            exact ⟨layout, rfl, Nat.le_of_lt hlt⟩
          · exact .of_eq rfl
      · exact .of_eq rfl
    · cases hstep
  · cases hstep

theorem step_noOlder {a : Action ι γ} {w' : World ι γ} (hstep : step w a = some w')
    (hscope : w.scope = some w.authority) (ha : a ≠ .receive none) : NoOlder w w' := by
  cases a with
  | receive layout =>
    obtain rfl := Option.some.inj hstep
    cases layout with
    | none => exact absurd rfl ha
    | some layout => exact receive_noOlder hscope
  | project =>
    obtain rfl := Option.some.inj hstep
    exact .of_eq rfl
  | change edit =>
    obtain rfl := Option.some.inj hstep
    exact .of_eq (change_base _)
  | begin_ edit => exact .of_eq (step_begin hstep).1
  | answer edit layout => exact step_answer_noOlder hstep
  | removeClosed tabIds =>
    obtain rfl := Option.some.inj hstep
    intro base hbase
    exact ⟨withoutClosed base tabIds, by simp [World.show_, hbase], Nat.le_refl _⟩
  | authority generation =>
    simp only [step] at hstep
    split at hstep
    · obtain rfl := Option.some.inj hstep
      exact .of_eq rfl
    · cases hstep
  | tabs tabs =>
    obtain rfl := Option.some.inj hstep
    exact .of_eq rfl

theorem Kept.untouched (h : Kept w) {a : Action ι γ} {w' : World ι γ} (hmeets : TakenUp w a)
    (hstep : BrowserTabGroups.step w a = some w') (hscope : w.scope ≠ some w.authority)
    (ha : ∀ layout, a ≠ .receive layout) : Untouched w w' := by
  cases a with
  | receive layout => exact absurd rfl (ha layout)
  | project => exact absurd hmeets hscope
  | change edit => exact absurd hmeets hscope
  | begin_ edit => exact step_begin hstep
  | answer edit layout =>
    cases hc : w.changes[edit]? with
    | none => simp [BrowserTabGroups.step, hc] at hstep
    | some c =>
      exact step_answer_other hc (fun heq => hscope (h.current c (List.mem_of_getElem? hc) heq)) hstep
  | removeClosed tabIds => exact absurd hmeets hscope
  | authority generation =>
    simp only [BrowserTabGroups.step] at hstep
    split at hstep
    · obtain rfl := Option.some.inj hstep
      exact ⟨rfl, rfl, rfl⟩
    · cases hstep
  | tabs tabs =>
    obtain rfl := Option.some.inj hstep
    exact ⟨rfl, rfl, rfl⟩

/-! ## Over every run -/

/-- What a step from `w` does. -/
structure Moves (w : World ι γ) (a : Action ι γ) (w' : World ι γ) : Prop where
  noOlder : w.scope = some w.authority → a ≠ .receive none → NoOlder w w'
  untouched : w.scope ≠ some w.authority → (∀ layout, a ≠ .receive layout) → Untouched w w'
  received : w.scope ≠ some w.authority → ∀ layout, a = .receive layout →
    w'.base = layout ∧ w'.shown = layout
  ignored : ∀ (k : Nat) (c : Change ι γ) (layout : Option (BrowserTabLayout ι γ)),
    a = .answer k layout → w.changes[k]? = some c → c.scope ≠ w.authority → Untouched w w'

theorem Kept.moves (h : Kept w) {a : Action ι γ} {w' : World ι γ} (hmeets : TakenUp w a)
    (hstep : BrowserTabGroups.step w a = some w') : Moves w a w' where
  noOlder hscope ha := step_noOlder hstep hscope ha
  untouched := h.untouched hmeets hstep
  received hscope layout ha := by
    subst ha
    obtain rfl := Option.some.inj hstep
    exact receive_other hscope
  ignored k c layout ha hc hscope := by
    subst ha
    exact step_answer_other hc hscope hstep

theorem kept_run {as : List (Action ι γ)} (hmeets : machine.Meets TakenUp {} as)
    (hrun : machine.run {} as = some w) : Kept w :=
  machine.run_invariant kept_init (fun _ _ _ h hmeets hstep => h.step hmeets hstep) hmeets hrun

/-- Edits are replayed over the newest layout, and sent one after the other. -/
theorem browserTabGroups_replays {as : List (Action ι γ)} (hmeets : machine.Meets TakenUp {} as)
    (hrun : machine.run {} as = some w) :
    Replays w ∧ ∀ a w', TakenUp w a → step w a = some w' → Moves w a w' :=
  have h := kept_run hmeets hrun
  ⟨h.replays, fun _ _ htaken hstep => h.moves htaken hstep⟩

/-- A group that is renamed while another is, and a new group. -/
def renames : List (Action Nat Nat) :=
  [.receive (some ⟨1, [⟨1, "Mail", "blue", false, [1, 2]⟩], none⟩),
    .change (.updateBrowserTabGroup 1 ⟨some "Post", none, none⟩), .begin_ 0,
    .change (.updateBrowserTabGroup 1 ⟨none, none, some true⟩), .change (.groupBrowserTabs [3] none),
    .receive (some ⟨2, [⟨1, "Mail", "red", false, [1, 2]⟩], none⟩),
    .answer 0 (some ⟨3, [⟨1, "Post", "red", false, [1, 2]⟩], none⟩), .begin_ 1, .authority 1,
    .answer 1 (some ⟨4, [], none⟩), .receive (some ⟨9, [], none⟩)]

theorem browserTabGroups_replays_renames : ∃ w, machine.run {} renames = some w ∧
    Replays w ∧ ∀ a w', TakenUp w a → step w a = some w' → Moves w a w' :=
  Machine.exists_run machine (by decide +kernel) fun _ hrun =>
    browserTabGroups_replays (by decide +kernel) hrun

/-- An edit that is made before a layout is there, and a layout that arrives while it is sent. -/
def early : List (Action Nat Nat) :=
  [.receive none, .change (.updateBrowserTabGroup 1 ⟨some "Post", none, none⟩),
    .receive (some ⟨1, [⟨1, "Mail", "blue", false, [1, 2]⟩], none⟩)]

/-- It is not settled, and what is shown is without it. -/
theorem not_replays_early : ∃ w, machine.run {} early = some w ∧
    w.scope = some w.authority ∧ w.changes.map (·.phase) = [.waiting] ∧
    w.shown.map (fun layout => layout.groups.map (·.title)) = some ["Mail"] ∧
    w.base.map (fun layout => (w.changes.filterMap (·.patch)).foldl
      (fun layout patch => patch layout w.shownTabs) layout |>.groups.map (·.title)) = some ["Post"] :=
  Machine.exists_run_of_any machine (by decide +kernel)

end Opensteer.BrowserTabGroups
