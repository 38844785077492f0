import Opensteer.Harness.SessionRegistry

/-!
# No session is leaked

`Kept` holds of a registry after any steps: a session that came is returned and held, or was
stopped, or its open is still at it; `Kept.change` is for a step that one open takes. A call of
`close` that closed the registry has, once it is over, stopped every session of an open before it
but those released (`Done`); `sessionRegistry_leaksNone` is what follows for the sessions.
-/

namespace Opensteer

namespace SessionRegistry

variable {ρ ε S : Type} [DecidableEq ρ] [DecidableEq S] [HasReference ρ S]

def Phase.isReturned : Phase ε → Bool
  | .returned => true
  | _ => false

/-- An open that has not asked the registry yet. -/
def Phase.isAsking : Phase ε → Bool
  | .opening | .opened => true
  | _ => false

/-- An open that has not settled. -/
def Phase.isOpen : Phase ε → Bool
  | .refused | .returned | .rejected _ => false
  | _ => true

/-- What a call's phase says of its start and its session. -/
def Shaped (w : World ρ ε S) (c : Call ρ ε S) : Prop :=
  match c.phase with
  | .refused | .opening => c.outcome = none
  | .opened => c.outcome ≠ none
  | .returned => ∃ s, c.outcome = some (.ok s)
  | .yielding | .stopping _ => ∃ s, c.outcome = some (.ok s) ∧ s ∈ w.stops
  | .rejected _ => c.outcome ≠ none ∧ ∀ s, c.outcome = some (.ok s) → s ∈ w.stops
  | .catching _ => c.outcome ≠ none ∧
      (w.closed = false → ∀ s, c.outcome = some (.ok s) → s ∈ w.stops)

/-- The session of a call, if it came, was stopped or released. -/
def Done (w : World ρ ε S) (call : Nat) (c : Call ρ ε S) : Prop :=
  match c.outcome with
  | none => c.phase = .refused
  | some (.error _) => True
  | some (.ok s) => s ∈ w.stops ∨ call ∈ w.released

/-- The session of a call, if it came, was stopped or released, or is held. -/
def Safe (w : World ρ ε S) (call : Nat) (c : Call ρ ε S) : Prop :=
  Done w call c ∨ c.phase.isReturned ∧ ∃ s, c.outcome = some (.ok s) ∧
    w.sessions.get (World.key c.reference s) = some s

/-- What holds of a registry after any steps. -/
structure Kept (w : World ρ ε S) : Prop where
  keyed : w.closed = false → ∀ (k : Nat) (c : Call ρ ε S) r, w.calls[k]? = some c →
    c.reference = some r → c.phase.isOpen → w.keyedOpens.get r = some k
  anonymous : w.closed = false → ∀ (k : Nat) (c : Call ρ ε S), w.calls[k]? = some c →
    c.reference = none → c.phase.isAsking → k ∈ w.anonymousOpens
  shaped : ∀ (k : Nat) (c : Call ρ ε S), w.calls[k]? = some c → Shaped w c
  held : ∀ (k : Nat) (c : Call ρ ε S) s, w.calls[k]? = some c → c.phase.isReturned →
    c.outcome = some (.ok s) →
      w.sessions.get (World.key c.reference s) = some s ∨ k ∈ w.released ∨ w.closed ∧ s ∈ w.stops
  own : ∀ r s, w.sessions.get r = some s → ∃ (k : Nat) (c : Call ρ ε S),
    w.calls[k]? = some c ∧ c.phase.isReturned ∧ c.outcome = some (.ok s) ∧
      r = World.key c.reference s
  waiting : ∀ (j begun : Nat) opening, w.closes[j]? = some (.waiting begun opening) →
    w.closed ∧ begun ≤ w.calls.length ∧ ∀ (k : Nat) (c : Call ρ ε S), k < begun →
      w.calls[k]? = some c → k ∈ opening ∨ Safe w k c
  done : ∀ (j begun : Nat), w.closes[j]? = some (.stopping begun) ∨
      w.closes[j]? = some (.resolved begun true) →
    begun ≤ w.calls.length ∧ ∀ (k : Nat) (c : Call ρ ε S), k < begun → w.calls[k]? = some c →
      Done w k c

variable {w : World ρ ε S}

/-- A step of one open: what it leaves of the others, and what it becomes. -/
structure Change (w w' : World ρ ε S) (k : Nat) (c c' : Call ρ ε S) : Prop where
  calls : w'.calls = w.calls.set k c'
  closes : w'.closes = w.closes
  released : w'.released = w.released
  closed : w'.closed = w.closed
  stops : ∀ s ∈ w.stops, s ∈ w'.stops
  sessions : ∀ r s, w.sessions.get r = some s → w'.sessions.get r = some s
  keyed : w.closed = false → ∀ r j, w.keyedOpens.get r = some j → j ≠ k →
    w'.keyedOpens.get r = some j
  anonymous : ∀ j ∈ w.anonymousOpens, j ≠ k → j ∈ w'.anonymousOpens
  reference : c'.reference = c.reference
  outcome : c.phase ≠ .refused ∧ (c.outcome = none ∨ c'.outcome = c.outcome)
  unreturned : c.phase.isReturned = false
  stays : w.closed = false → ∀ r, c'.reference = some r → c'.phase.isOpen →
    w'.keyedOpens.get r = some k
  asks : w.closed = false → c'.reference = none → c'.phase.isAsking → k ∈ w'.anonymousOpens
  shaped : Shaped w' c'
  holds : c'.phase.isReturned → ∀ s, c'.outcome = some (.ok s) →
    w'.sessions.get (World.key c'.reference s) = some s
  own : ∀ r s, w'.sessions.get r = some s → w.sessions.get r = some s ∨
    c'.phase.isReturned ∧ c'.outcome = some (.ok s) ∧ r = World.key c'.reference s

omit [DecidableEq ρ] [DecidableEq S] [HasReference ρ S] in
theorem Shaped.mono {w' : World ρ ε S} {c : Call ρ ε S} (h : Shaped w c)
    (hclosed : w'.closed = false → w.closed = false) (hstops : ∀ s ∈ w.stops, s ∈ w'.stops) :
    Shaped w' c := by
  unfold Shaped at h ⊢
  split at h
  · exact h
  · exact h
  · exact h
  · exact h
  · obtain ⟨s, hs, hmem⟩ := h
    exact ⟨s, hs, hstops s hmem⟩
  · obtain ⟨s, hs, hmem⟩ := h
    exact ⟨s, hs, hstops s hmem⟩
  · exact ⟨h.1, fun s hs => hstops s (h.2 s hs)⟩
  · exact ⟨h.1, fun hopen s hs => hstops s (h.2 (hclosed hopen) s hs)⟩

omit [DecidableEq ρ] [DecidableEq S] [HasReference ρ S] in
theorem Done.mono {w' : World ρ ε S} {k : Nat} {c c' : Call ρ ε S} (h : Done w k c)
    (hphase : c.phase ≠ .refused ∧ (c.outcome = none ∨ c'.outcome = c.outcome) ∨ c' = c)
    (hstops : ∀ s ∈ w.stops, s ∈ w'.stops) (hreleased : ∀ k ∈ w.released, k ∈ w'.released) :
    Done w' k c' := by
  obtain ⟨hrefused, hnone | heq⟩ | rfl := hphase
  · rw [Done, hnone] at h
    exact absurd h hrefused
  · unfold Done at h ⊢
    rw [heq]
    split at h
    · exact absurd h hrefused
    · trivial
    · exact h.imp (hstops _) (hreleased _)
  · unfold Done at h ⊢
    split at h
    · exact h
    · trivial
    · exact h.imp (hstops _) (hreleased _)

omit [DecidableEq S] in
theorem Change.safe {w' : World ρ ε S} {k : Nat} {c c' : Call ρ ε S} (h : Change w w' k c c')
    {j : Nat} {x : Call ρ ε S} (hx : w.calls[j]? = some x) (hc : w.calls[k]? = some c)
    (hsafe : Safe w j x) {y : Call ρ ε S} (hy : w'.calls[j]? = some y) : Safe w' j y := by
  rw [h.calls, List.getElem?_set] at hy
  split at hy
  · rename_i hkj
    subst hkj
    obtain rfl := Option.some.inj (hc.symm.trans hx)
    split at hy
    · obtain rfl := Option.some.inj hy
      obtain hdone | ⟨hreturned, -⟩ := hsafe
      · exact .inl (hdone.mono (.inl h.outcome) h.stops (h.released ▸ fun _ => id))
      · rw [h.unreturned] at hreturned
        cases hreturned
    · cases hy
  · obtain rfl := Option.some.inj (hx.symm.trans hy)
    refine hsafe.imp (fun hdone => hdone.mono (.inr rfl) h.stops (h.released ▸ fun _ => id)) ?_
    rintro ⟨hreturned, s, hs, hget⟩
    exact ⟨hreturned, s, hs, h.sessions _ _ hget⟩

omit [DecidableEq S] in
theorem Kept.change (h : Kept w) {w' : World ρ ε S} {k : Nat} {c c' : Call ρ ε S}
    (hc : w.calls[k]? = some c) (hchange : Change w w' k c c') : Kept w' := by
  have hget : ∀ (j : Nat) (y : Call ρ ε S), w'.calls[j]? = some y →
      j = k ∧ y = c' ∨ j ≠ k ∧ w.calls[j]? = some y := by
    intro j y hy
    rw [hchange.calls, List.getElem?_set] at hy
    split at hy
    · rename_i hkj
      split at hy
      · exact .inl ⟨hkj.symm, (Option.some.inj hy).symm⟩
      · cases hy
    · rename_i hkj
      exact .inr ⟨Ne.symm hkj, hy⟩
  have hput : w'.calls[k]? = some c' := by
    rw [hchange.calls, List.getElem?_set_self (List.getElem?_eq_some_iff.mp hc).1]
  have hlength : w.calls.length = w'.calls.length := by rw [hchange.calls, List.length_set]
  exact {
    keyed := by
      intro hopen j y r hy hr hphase
      obtain ⟨rfl, rfl⟩ | ⟨hj, hy⟩ := hget j y hy
      · exact hchange.stays (hchange.closed ▸ hopen) r hr hphase
      · exact hchange.keyed (hchange.closed ▸ hopen) r j
          (h.keyed (hchange.closed ▸ hopen) j y r hy hr hphase) hj
    anonymous := by
      intro hopen j y hy hr hphase
      obtain ⟨rfl, rfl⟩ | ⟨hj, hy⟩ := hget j y hy
      · exact hchange.asks (hchange.closed ▸ hopen) hr hphase
      · exact hchange.anonymous j (h.anonymous (hchange.closed ▸ hopen) j y hy hr hphase) hj
    shaped := by
      intro j y hy
      obtain ⟨rfl, rfl⟩ | ⟨-, hy⟩ := hget j y hy
      · exact hchange.shaped
      · exact (h.shaped j y hy).mono (hchange.closed ▸ id) hchange.stops
    held := by
      intro j y s hy hphase hs
      obtain ⟨rfl, rfl⟩ | ⟨-, hy⟩ := hget j y hy
      · exact .inl (hchange.holds hphase s hs)
      · rw [hchange.released, hchange.closed]
        exact (h.held j y s hy hphase hs).imp (hchange.sessions _ s)
          (Or.imp_right (And.imp_right (hchange.stops s)))
    own := by
      intro r s hs
      obtain hs | hnew := hchange.own r s hs
      · obtain ⟨j, y, hy, hphase, hrest⟩ := h.own r s hs
        have hj : k ≠ j := by
          rintro rfl
          obtain rfl := Option.some.inj (hc.symm.trans hy)
          rw [hchange.unreturned] at hphase
          cases hphase
        refine ⟨j, y, ?_, hphase, hrest⟩
        rw [hchange.calls, List.getElem?_set_ne hj, hy]
      · exact ⟨k, c', hput, hnew⟩
    waiting := by
      intro j begun opening hj
      rw [hchange.closes] at hj
      obtain ⟨hclosed, hbegun, hcalls⟩ := h.waiting j begun opening hj
      refine ⟨hchange.closed ▸ hclosed, hlength ▸ hbegun, fun i y hi hy => ?_⟩
      obtain ⟨rfl, rfl⟩ | ⟨-, hold⟩ := hget i y hy
      · exact (hcalls i c hi hc).imp_right fun hsafe => hchange.safe hc hc hsafe hy
      · exact (hcalls i y hi hold).imp_right fun hsafe => hchange.safe hold hc hsafe hy
    done := by
      intro j begun hj
      rw [hchange.closes] at hj
      refine ⟨hlength ▸ (h.done j begun hj).1, fun i y hi hy => ?_⟩
      have hreleased : ∀ k ∈ w.released, k ∈ w'.released := hchange.released ▸ fun _ => id
      obtain ⟨rfl, rfl⟩ | ⟨-, hold⟩ := hget i y hy
      · exact ((h.done j begun hj).2 i c hi hc).mono (.inl hchange.outcome) hchange.stops hreleased
      · exact ((h.done j begun hj).2 i y hi hold).mono (.inr rfl) hchange.stops hreleased }

/-! ## The steps of an open -/

omit [DecidableEq S] in
theorem Safe.mono {w' : World ρ ε S} {k : Nat} {c : Call ρ ε S} (h : Safe w k c)
    (hstops : ∀ s ∈ w.stops, s ∈ w'.stops) (hreleased : ∀ k ∈ w.released, k ∈ w'.released)
    (hsessions : w'.sessions = w.sessions) : Safe w' k c :=
  h.imp (fun hdone => hdone.mono (.inr rfl) hstops hreleased) fun ⟨hreturned, s, hs, hget⟩ =>
    ⟨hreturned, s, hs, hsessions ▸ hget⟩

omit [DecidableEq S] in
/-- A call that is made. -/
theorem Kept.append (h : Kept w) {keyedOpens : OrderedMap ρ Nat} {anonymousOpens : List Nat}
    {c : Call ρ ε S} (houtcome : c.outcome = none)
    (hphase : c.phase = .refused ∨ c.phase = .opening)
    (hkeyed : ∀ r j, w.keyedOpens.get r = some j → keyedOpens.get r = some j)
    (hanonymous : ∀ j ∈ w.anonymousOpens, j ∈ anonymousOpens)
    (hstays : ∀ r, c.reference = some r → c.phase.isOpen → keyedOpens.get r = some w.calls.length)
    (hasks : c.reference = none → w.calls.length ∈ anonymousOpens) :
    Kept { w with keyedOpens, anonymousOpens, calls := w.calls ++ [c] } := by
  have hget : ∀ (j : Nat) (y : Call ρ ε S), (w.calls ++ [c])[j]? = some y →
      w.calls[j]? = some y ∨ j = w.calls.length ∧ y = c := by
    intro j y hy
    rw [List.getElem?_append] at hy
    split at hy
    · exact .inl hy
    · obtain ⟨hj, rfl⟩ := List.getElem?_eq_some_iff.mp hy
      simp only [List.length_singleton] at hj
      exact .inr ⟨by omega, by simp⟩
  have hbefore : ∀ {begun j : Nat} {y : Call ρ ε S}, begun ≤ w.calls.length → j < begun →
      (w.calls ++ [c])[j]? = some y → w.calls[j]? = some y := by
    intro begun j y hbegun hj hy
    rwa [List.getElem?_append_left (by omega)] at hy
  have hreturned : c.phase.isReturned = false := by
    obtain hphase | hphase := hphase <;> rw [hphase] <;> rfl
  exact {
    keyed := by
      intro hopen j y r hy hr hopened
      obtain hy | ⟨rfl, rfl⟩ := hget j y hy
      · exact hkeyed r j (h.keyed hopen j y r hy hr hopened)
      · exact hstays r hr hopened
    anonymous := by
      intro hopen j y hy hr hasking
      obtain hy | ⟨rfl, rfl⟩ := hget j y hy
      · exact hanonymous j (h.anonymous hopen j y hy hr hasking)
      · exact hasks hr
    shaped := by
      intro j y hy
      obtain hy | ⟨-, rfl⟩ := hget j y hy
      · exact (h.shaped j y hy).mono id fun _ => id
      · unfold Shaped
        obtain hphase | hphase := hphase <;> rw [hphase] <;> exact houtcome
    held := by
      intro j y s hy hphase' hs
      obtain hy | ⟨-, rfl⟩ := hget j y hy
      · exact h.held j y s hy hphase' hs
      · rw [hreturned] at hphase'
        cases hphase'
    own := by
      intro r s hs
      obtain ⟨j, y, hy, hrest⟩ := h.own r s hs
      refine ⟨j, y, ?_, hrest⟩
      show (w.calls ++ [c])[j]? = some y
      rw [List.getElem?_append_left (List.getElem?_eq_some_iff.mp hy).1, hy]
    waiting := by
      intro j begun opening hj
      obtain ⟨hclosed, hbegun, hcalls⟩ := h.waiting j begun opening hj
      refine ⟨hclosed, by simp only [List.length_append]; omega, fun i y hi hy => ?_⟩
      exact (hcalls i y hi (hbefore hbegun hi hy)).imp_right fun hsafe =>
        hsafe.mono (fun _ => id) (fun _ => id) rfl
    done := by
      intro j begun hj
      obtain ⟨hbegun, hcalls⟩ := h.done j begun hj
      refine ⟨by simp only [List.length_append]; omega, fun i y hi hy => ?_⟩
      exact (hcalls i y hi (hbefore hbegun hi hy)).mono (.inr rfl) (fun _ => id) fun _ => id }

theorem Kept.open_ (h : Kept w) (reference : ρ) {w' : World ρ ε S}
    (hstep : step w (.open_ reference) = some w') : Kept w' := by
  obtain rfl := Option.some.inj hstep
  split
  · exact h.append rfl (.inl rfl) (fun _ _ => id) (fun _ => id) (fun _ _ hopen => by cases hopen)
      (fun hnone => by cases hnone)
  · rename_i hholds
    simp only [World.holds, Bool.or_eq_true, not_or, Option.not_isSome_iff_eq_none] at hholds
    refine h.append rfl (.inr rfl) (fun r j hj => ?_) (fun _ => id) (fun r hr _ => ?_)
      (fun hnone => by cases hnone)
    · rw [OrderedMap.get_set, if_neg]
      · exact hj
      · rintro rfl
        rw [hholds.2] at hj
        cases hj
    · obtain rfl := Option.some.inj hr
      rw [OrderedMap.get_set, if_pos rfl]

theorem Kept.openUnreferenced (h : Kept w) {w' : World ρ ε S}
    (hstep : step w .openUnreferenced = some w') : Kept w' := by
  obtain rfl := Option.some.inj hstep
  exact h.append rfl (.inr rfl) (fun _ _ => id) (fun j hj => List.mem_append_left _ hj)
    (fun _ hr => nomatch hr) (fun _ => by simp)

omit [DecidableEq S] in
theorem Kept.stop (h : Kept w) (session : S) : Kept (w.stop session) := by
  have hstops : ∀ s ∈ w.stops, s ∈ (w.stop session).stops :=
    fun s hs => List.mem_append_left _ hs
  exact {
    keyed := h.keyed
    anonymous := h.anonymous
    shaped := fun k c hc => (h.shaped k c hc).mono id hstops
    held := fun k c s hc hphase hs =>
      (h.held k c s hc hphase hs).imp_right (Or.imp_right (And.imp_right (hstops s)))
    own := h.own
    waiting := fun j begun opening hj => by
      obtain ⟨hclosed, hbegun, hcalls⟩ := h.waiting j begun opening hj
      exact ⟨hclosed, hbegun, fun k c hk hc => (hcalls k c hk hc).imp_right fun hsafe =>
        hsafe.mono hstops (fun _ => id) rfl⟩
    done := fun j begun hj => by
      obtain ⟨hbegun, hcalls⟩ := h.done j begun hj
      exact ⟨hbegun, fun k c hk hc => (hcalls k c hk hc).mono (.inr rfl) hstops fun _ => id⟩ }

omit [DecidableEq S] in
/-- An open that goes on, and stays where it is kept. -/
theorem Kept.put (h : Kept w) {k : Nat} {c c' : Call ρ ε S} (hc : w.calls[k]? = some c)
    (hreference : c'.reference = c.reference)
    (houtcome : c.phase ≠ .refused ∧ (c.outcome = none ∨ c'.outcome = c.outcome))
    (hopen : c.phase.isOpen) (hasking : c'.phase.isAsking → c.phase.isAsking)
    (hreturned : c'.phase.isReturned = false) (hshaped : Shaped w c') : Kept (w.put k c') := by
  refine h.change hc
    { calls := rfl
      closes := rfl
      released := rfl
      closed := rfl
      stops := fun _ => id
      sessions := fun _ _ => id
      keyed := fun _ _ _ hget _ => hget
      anonymous := fun _ hj _ => hj
      reference := hreference
      outcome := houtcome
      unreturned := ?_
      stays := fun hclosed r hr _ => h.keyed hclosed k c r hc (hreference ▸ hr) hopen
      asks := fun hclosed hr hphase =>
        h.anonymous hclosed k c hc (hreference ▸ hr) (hasking hphase)
      shaped := hshaped.mono id fun _ => id
      holds := fun hphase => by rw [hreturned] at hphase; cases hphase
      own := fun _ _ => .inl }
  cases hphase : c.phase <;> simp_all [Phase.isOpen, Phase.isReturned]

omit [DecidableEq S] in
/-- An open that leaves where it is kept, with its session held or not. -/
theorem Kept.leavePut (h : Kept w) {k : Nat} {c c' : Call ρ ε S} (sessions : OrderedMap ρ S)
    (hc : w.calls[k]? = some c) (hreference : c'.reference = c.reference)
    (houtcome : c.outcome ≠ none ∧ c'.outcome = c.outcome) (hopen : c.phase.isOpen)
    (hopen' : c'.phase.isOpen → c.reference = none) (hasking : c'.phase.isAsking = false)
    (hsessions : ∀ r s, w.sessions.get r = some s → sessions.get r = some s)
    (hholds : c'.phase.isReturned → ∀ s, c'.outcome = some (.ok s) →
      sessions.get (World.key c'.reference s) = some s)
    (hown : ∀ r s, sessions.get r = some s → w.sessions.get r = some s ∨
      c'.phase.isReturned ∧ c'.outcome = some (.ok s) ∧ r = World.key c'.reference s)
    (hshaped : Shaped w c') :
    Kept (({ w with sessions }.leave k c.reference).put k c') := by
  have hrefused : c.phase ≠ .refused := fun hphase => by rw [hphase] at hopen; cases hopen
  have hreturned : c.phase.isReturned = false := by
    cases hphase : c.phase <;> simp_all [Phase.isOpen, Phase.isReturned]
  cases hr : c.reference with
  | some reference =>
    refine h.change hc
      { calls := rfl
        closes := rfl
        released := rfl
        closed := rfl
        stops := fun _ => id
        sessions := hsessions
        keyed := fun hclosed r j hget hj => ?_
        anonymous := fun _ hj _ => hj
        reference := hreference
        outcome := ⟨hrefused, .inr houtcome.2⟩
        unreturned := hreturned
        stays := fun _ _ _ hphase => by rw [hopen' hphase] at hr; cases hr
        asks := fun _ _ hphase => by rw [hasking] at hphase; cases hphase
        shaped := hshaped.mono id fun _ => id
        holds := hholds
        own := hown }
    show (w.keyedOpens.delete reference).get r = some j
    rw [OrderedMap.get_delete, if_neg]
    · exact hget
    · rintro rfl
      exact hj (Option.some.inj (hget.symm.trans (h.keyed hclosed k c _ hc hr hopen)))
  | none =>
    exact h.change hc
      { calls := rfl
        closes := rfl
        released := rfl
        closed := rfl
        stops := fun _ => id
        sessions := hsessions
        keyed := fun _ _ _ hget _ => hget
        anonymous := fun j hmem hj => (List.mem_erase_of_ne hj).mpr hmem
        reference := hreference
        outcome := ⟨hrefused, .inr houtcome.2⟩
        unreturned := hreturned
        stays := fun _ r hr' _ => by rw [hreference, hr] at hr'; cases hr'
        asks := fun _ _ hphase => by rw [hasking] at hphase; cases hphase
        shaped := hshaped.mono id fun _ => id
        holds := hholds
        own := hown }

omit [DecidableEq S] in
theorem Kept.take (h : Kept w) {k : Nat} {reference : Option ρ} {session : S}
    (hc : w.calls[k]? = some ⟨reference, some (.ok session), .opened⟩) :
    Kept (w.take k ⟨reference, some (.ok session), .opened⟩ session) := by
  have hstopped : session ∈ (w.stop session).stops := by simp [World.stop]
  by_cases hheld : (w.sessions.get (World.key reference session)).isSome
  · rw [World.take, if_pos hheld]
    cases reference with
    | some reference =>
      exact (h.stop session).put hc rfl ⟨nofun, .inr rfl⟩ rfl nofun rfl ⟨session, rfl, hstopped⟩
    | none =>
      exact (h.stop session).leavePut w.sessions hc rfl ⟨nofun, rfl⟩ rfl (fun _ => rfl) rfl
        (fun _ _ => id) nofun (fun _ _ => .inl) ⟨session, rfl, hstopped⟩
  · have hfree := Option.not_isSome_iff_eq_none.mp hheld
    rw [World.take, if_neg hheld]
    refine h.leavePut (w.sessions.set (World.key reference session) session) hc rfl ⟨nofun, rfl⟩ rfl
      nofun rfl (fun r s hs => ?_) (fun _ s hs => ?_) (fun r s hs => ?_) ⟨session, rfl⟩
    · rw [OrderedMap.get_set, if_neg]
      · exact hs
      · rintro rfl
        rw [hfree] at hs
        cases hs
    · cases hs
      rw [OrderedMap.get_set, if_pos rfl]
    · rw [OrderedMap.get_set] at hs
      split at hs
      · rename_i hkey
        obtain rfl := Option.some.inj hs
        exact .inr ⟨rfl, rfl, hkey.symm⟩
      · exact .inl hs

theorem Kept.goOn (h : Kept w) (k : Nat) {w' : World ρ ε S}
    (hstep : step w (.goOn k) = some w') : Kept w' := by
  simp only [step] at hstep
  split at hstep
  · rename_i reference session hc
    obtain rfl := Option.some.inj hstep
    split
    · rename_i hclosed
      refine h.put hc rfl ⟨nofun, .inr rfl⟩ rfl nofun rfl ⟨nofun, fun hopen => ?_⟩
      rw [hclosed] at hopen
      cases hopen
    · exact h.take hc
  · rename_i reference error hc
    obtain rfl := Option.some.inj hstep
    exact h.put hc rfl ⟨nofun, .inr rfl⟩ rfl nofun rfl ⟨nofun, fun _ _ => nofun⟩
  · rename_i reference session error hc
    obtain rfl := Option.some.inj hstep
    exact (h.stop session).put hc rfl ⟨nofun, .inr rfl⟩ rfl nofun rfl
      ⟨session, rfl, by simp [World.stop]⟩
  · rename_i reference thrown error hc
    obtain rfl := Option.some.inj hstep
    exact h.leavePut w.sessions hc rfl ⟨nofun, rfl⟩ rfl nofun rfl (fun _ _ => id) nofun
      (fun _ _ => .inl) ⟨nofun, fun _ => nofun⟩
  · cases hstep

theorem Kept.stopSettles (h : Kept w) (k : Nat) (outcome : Except ε Unit) {w' : World ρ ε S}
    (hstep : step w (.stopSettles k outcome) = some w') : Kept w' := by
  simp only [step] at hstep
  split at hstep
  · rename_i reference opened hc
    obtain rfl := Option.some.inj hstep
    obtain ⟨s, hs, hmem⟩ := h.shaped k _ hc
    obtain rfl : opened = some (.ok s) := hs
    cases reference with
    | some reference =>
      exact h.put hc rfl ⟨nofun, .inr rfl⟩ rfl nofun rfl
        ⟨nofun, fun _ _ heq => by cases heq; exact hmem⟩
    | none =>
      exact h.put hc rfl ⟨nofun, .inr rfl⟩ rfl nofun rfl
        ⟨nofun, fun _ heq => by cases heq; exact hmem⟩
  · rename_i reference opened error hc
    obtain rfl := Option.some.inj hstep
    obtain ⟨s, hs, hmem⟩ := h.shaped k _ hc
    obtain rfl : opened = some (.ok s) := hs
    exact h.leavePut w.sessions hc rfl ⟨nofun, rfl⟩ rfl nofun rfl (fun _ _ => id) nofun
      (fun _ _ => .inl) ⟨nofun, fun _ heq => by cases heq; exact hmem⟩
  · cases hstep

/-! ## Release and close -/

omit [HasReference ρ S] in
theorem get_release (w : World ρ ε S) (session : S) (r : ρ) :
    (((w.sessions.entries.filter (·.2 = session)).map (·.1)).foldl OrderedMap.delete w.sessions).get
      r = if w.sessions.get r = some session then none else w.sessions.get r := by
  rw [OrderedMap.get_foldl_delete]
  have hmem : r ∈ (w.sessions.entries.filter (·.2 = session)).map (·.1) ↔
      w.sessions.get r = some session := by
    rw [← OrderedMap.mem_entries]
    simp
  simp only [hmem]

omit [DecidableEq ρ] [DecidableEq S] [HasReference ρ S] in
theorem sessionOf_eq {k : Nat} {c : Call ρ ε S} {s : S} (hc : w.calls[k]? = some c)
    (hs : c.outcome = some (.ok s)) : w.sessionOf k = some s := by
  obtain ⟨reference, outcome, phase⟩ := c
  obtain rfl : outcome = _ := hs
  simp [World.sessionOf, hc]

theorem Kept.release (h : Kept w) (session : S) {w' : World ρ ε S}
    (hstep : step w (.release session) = some w') : Kept w' := by
  obtain rfl := Option.some.inj hstep
  have hnew : ∀ {k : Nat} {c : Call ρ ε S}, w.calls[k]? = some c → c.phase.isReturned →
      c.outcome = some (.ok session) →
      k ∈ w.released ++ (List.range w.calls.length).filter fun call =>
        (w.calls[call]?).any (fun c => match c.phase with
          | .returned => true
          | _ => false) && w.sessionOf call = some session := by
    intro k c hc hphase hs
    refine List.mem_append_right _ (List.mem_filter.mpr
      ⟨List.mem_range.mpr (List.getElem?_eq_some_iff.mp hc).1, ?_⟩)
    rw [hc, sessionOf_eq hc hs]
    simpa [Phase.isReturned] using hphase
  have hold : ∀ k ∈ w.released, k ∈ w.released ++ (List.range w.calls.length).filter fun call =>
        (w.calls[call]?).any (fun c => match c.phase with
          | .returned => true
          | _ => false) && w.sessionOf call = some session :=
    fun k hk => List.mem_append_left _ hk
  exact {
    keyed := h.keyed
    anonymous := h.anonymous
    shaped := fun k c hc => (h.shaped k c hc).mono id fun _ => id
    held := by
      intro k c s hc hphase hs
      simp only [get_release]
      obtain hget | hreleased | hstopped := h.held k c s hc hphase hs
      · by_cases heq : s = session
        · exact .inr (.inl (hnew hc hphase (heq ▸ hs)))
        · rw [hget, if_neg (by simpa using heq)]
          exact .inl rfl
      · exact .inr (.inl (hold k hreleased))
      · exact .inr (.inr hstopped)
    own := by
      intro r s hs
      simp only [get_release] at hs
      split at hs
      · cases hs
      · exact h.own r s hs
    waiting := by
      intro j begun opening hj
      obtain ⟨hclosed, hbegun, hcalls⟩ := h.waiting j begun opening hj
      refine ⟨hclosed, hbegun, fun k c hk hc => (hcalls k c hk hc).imp_right ?_⟩
      rintro (hdone | ⟨hphase, s, hs, hget⟩)
      · exact .inl (hdone.mono (.inr rfl) (fun _ => id) hold)
      · by_cases heq : s = session
        · refine .inl ?_
          rw [Done, hs]
          exact .inr (hnew hc hphase (heq ▸ hs))
        · refine .inr ⟨hphase, s, hs, ?_⟩
          simp only [get_release]
          rw [hget, if_neg (by simpa using heq)]
    done := fun j begun hj => by
      obtain ⟨hbegun, hcalls⟩ := h.done j begun hj
      exact ⟨hbegun, fun k c hk hc => (hcalls k c hk hc).mono (.inr rfl) (fun _ => id) hold⟩ }

omit [DecidableEq S] in
/-- A call that has not asked is kept somewhere, and another one's session is safe. -/
theorem Kept.opening_or_safe (h : Kept w) (hopen : w.closed = false) {k : Nat} {c : Call ρ ε S}
    (hc : w.calls[k]? = some c) :
    k ∈ w.keyedOpens.values ++ w.anonymousOpens ∨ Safe w k c := by
  have hshaped := h.shaped k c hc
  have hasking : c.phase.isAsking → k ∈ w.keyedOpens.values ++ w.anonymousOpens := by
    intro hphase
    cases hr : c.reference with
    | some r =>
      have hopened : c.phase.isOpen := by
        cases hp : c.phase <;> simp_all [Phase.isAsking, Phase.isOpen]
      have hget := h.keyed hopen k c r hc hr hopened
      exact List.mem_append_left _ (OrderedMap.mem_values.mpr ⟨r, hget⟩)
    | none => exact List.mem_append_right _ (h.anonymous hopen k c hc hr hphase)
  have hdone : c.outcome ≠ none → (∀ s, c.outcome = some (.ok s) → s ∈ w.stops) → Done w k c := by
    intro hne hstops
    unfold Done
    split
    · rename_i hnone
      exact absurd hnone hne
    · trivial
    · rename_i s hs
      exact .inl (hstops s hs)
  have hthe : ∀ {s}, c.outcome = some (.ok s) → s ∈ w.stops →
      ∀ s', c.outcome = some (.ok s') → s' ∈ w.stops := by
    intro s hs hmem s' hs'
    obtain rfl : s = s' := by simpa using hs.symm.trans hs'
    exact hmem
  cases hphase : c.phase with
  | opening => exact .inl (hasking (by rw [hphase]; rfl))
  | opened => exact .inl (hasking (by rw [hphase]; rfl))
  | refused =>
    simp only [Shaped, hphase] at hshaped
    refine .inr (.inl ?_)
    rw [Done, hshaped]
    exact hphase
  | returned =>
    simp only [Shaped, hphase] at hshaped
    obtain ⟨s, hs⟩ := hshaped
    obtain hget | hreleased | ⟨hclosed, -⟩ := h.held k c s hc (by rw [hphase]; rfl) hs
    · exact .inr (.inr ⟨by rw [hphase]; rfl, s, hs, hget⟩)
    · refine .inr (.inl ?_)
      rw [Done, hs]
      exact .inr hreleased
    · rw [hopen] at hclosed
      cases hclosed
  | yielding | stopping =>
    simp only [Shaped, hphase] at hshaped
    obtain ⟨s, hs, hmem⟩ := hshaped
    exact .inr (.inl (hdone (by rw [hs]; nofun) (hthe hs hmem)))
  | rejected =>
    simp only [Shaped, hphase] at hshaped
    exact .inr (.inl (hdone hshaped.1 hshaped.2))
  | catching =>
    simp only [Shaped, hphase] at hshaped
    exact .inr (.inl (hdone hshaped.1 (hshaped.2 hopen)))

omit [DecidableEq ρ] [DecidableEq S] [HasReference ρ S] in
theorem getElem?_closes_append {new x : Close} {j : Nat}
    (h : (w.closes ++ [new])[j]? = some x) : w.closes[j]? = some x ∨ x = new := by
  rw [List.getElem?_append] at h
  split at h
  · exact .inl h
  · exact .inr (by simpa using List.mem_of_getElem? h)

omit [DecidableEq ρ] [DecidableEq S] [HasReference ρ S] in
theorem getElem?_closes_set {new x : Close} {i j : Nat}
    (h : (w.closes.set i new)[j]? = some x) : w.closes[j]? = some x ∨ x = new := by
  rw [List.getElem?_set] at h
  split at h
  · split at h
    · exact .inr (Option.some.inj h).symm
    · cases h
  · exact .inl h

theorem Kept.close (h : Kept w) {w' : World ρ ε S} (hstep : step w .close = some w') :
    Kept w' := by
  obtain rfl := Option.some.inj hstep
  split
  · exact { h with
      waiting := fun j begun opening hj => by
        obtain hj | hnew := getElem?_closes_append hj
        · exact h.waiting j begun opening hj
        · cases hnew
      done := fun j begun hj => by
        obtain hj | hj := hj <;> obtain hj | hnew := getElem?_closes_append hj
        · exact h.done j begun (.inl hj)
        · cases hnew
        · exact h.done j begun (.inr hj)
        · cases hnew }
  · rename_i hopen
    have hopen := eq_false_of_ne_true hopen
    exact {
      keyed := nofun
      anonymous := nofun
      shaped := fun k c hc => (h.shaped k c hc).mono nofun fun _ => id
      held := fun k c s hc hphase hs => by
        obtain hget | hreleased | ⟨hclosed, -⟩ := h.held k c s hc hphase hs
        · exact .inl hget
        · exact .inr (.inl hreleased)
        · rw [hopen] at hclosed
          cases hclosed
      own := h.own
      waiting := fun j begun opening hj => by
        obtain hj | hnew := getElem?_closes_append hj
        · have hclosed := (h.waiting j begun opening hj).1
          rw [hopen] at hclosed
          cases hclosed
        · cases hnew
          exact ⟨rfl, Nat.le_refl _, fun k c _ hc => (h.opening_or_safe hopen hc).imp_right
            fun hsafe => hsafe.mono (fun _ => id) (fun _ => id) rfl⟩
      done := fun j begun hj => by
        obtain hj | hj := hj <;> obtain hj | hnew := getElem?_closes_append hj
        · exact h.done j begun (.inl hj)
        · cases hnew
        · exact h.done j begun (.inr hj)
        · cases hnew }

theorem Kept.closeGoesOn (h : Kept w) (j : Nat) {w' : World ρ ε S}
    (hstep : step w (.closeGoesOn j) = some w') : Kept w' := by
  simp only [step] at hstep
  split at hstep
  · rename_i begun opening hj
    split at hstep
    · rename_i hsettled
      obtain ⟨hclosed, hbegun, hcalls⟩ := h.waiting j begun opening hj
      obtain rfl := Option.some.inj hstep
      have hstops : ∀ s ∈ w.stops,
          s ∈ w.stops ++ (w.sessions.values ++ opening.filterMap w.sessionOf).eraseDups :=
        fun s hs => List.mem_append_left _ hs
      have hheld : ∀ {r s}, w.sessions.get r = some s →
          s ∈ w.stops ++ (w.sessions.values ++ opening.filterMap w.sessionOf).eraseDups := by
        intro r s hget
        exact List.mem_append_right _ (List.mem_eraseDups.mpr
          (List.mem_append_left _ (OrderedMap.mem_values.mpr ⟨r, hget⟩)))
      -- The sessions that were held are stopped, so that what was safe is done.
      have hsafe : ∀ {k : Nat} {c : Call ρ ε S}, Safe w k c → Done
          { w with
            sessions := .empty
            keyedOpens := .empty
            stops := w.stops ++ (w.sessions.values ++ opening.filterMap w.sessionOf).eraseDups
            closes := w.closes.set j (.stopping begun) } k c := by
        rintro k c (hdone | ⟨-, s, hs, hget⟩)
        · exact hdone.mono (.inr rfl) hstops fun _ => id
        · rw [Done, hs]
          exact .inl (hheld hget)
      exact {
        keyed := fun hopen => by rw [hclosed] at hopen; cases hopen
        anonymous := h.anonymous
        shaped := fun k c hc => (h.shaped k c hc).mono id hstops
        held := fun k c s hc hphase hs => by
          obtain hget | hreleased | ⟨-, hstopped⟩ := h.held k c s hc hphase hs
          · exact .inr (.inr ⟨hclosed, hheld hget⟩)
          · exact .inr (.inl hreleased)
          · exact .inr (.inr ⟨hclosed, hstops s hstopped⟩)
        own := fun r s hs => by cases hs
        waiting := fun i begun' opening' hi => by
          obtain hi | hnew := getElem?_closes_set hi
          · obtain ⟨-, hbegun', hcalls'⟩ := h.waiting i begun' opening' hi
            exact ⟨hclosed, hbegun', fun k c hk hc =>
              (hcalls' k c hk hc).imp_right fun hs => .inl (hsafe hs)⟩
          · cases hnew
        done := fun i begun' hi => by
          have hi : (w.closes[i]? = some (.stopping begun') ∨
              w.closes[i]? = some (.resolved begun' true)) ∨ begun' = begun := by
            obtain hi | hi := hi <;> obtain hi | hnew := getElem?_closes_set hi
            · exact .inl (.inl hi)
            · exact .inr (Close.stopping.inj hnew)
            · exact .inl (.inr hi)
            · cases hnew
          obtain hi | rfl := hi
          · obtain ⟨hbegun', hcalls'⟩ := h.done i begun' hi
            exact ⟨hbegun', fun k c hk hc =>
              (hcalls' k c hk hc).mono (.inr rfl) hstops fun _ => id⟩
          · refine ⟨hbegun, fun k c hk hc => ?_⟩
            obtain hopening | hs := hcalls k c hk hc
            · have houtcome := List.all_eq_true.mp hsettled k hopening
              rw [World.settled, hc] at houtcome
              unfold Done
              split
              · rename_i hnone
                simp [hnone] at houtcome
              · trivial
              · rename_i s hs
                exact .inl (List.mem_append_right _ (List.mem_eraseDups.mpr
                  (List.mem_append_right _ (List.mem_filterMap.mpr
                    ⟨k, hopening, sessionOf_eq hc hs⟩))))
            · exact hsafe hs }
    · cases hstep
  · cases hstep

theorem Kept.closeResolves (h : Kept w) (j : Nat) {w' : World ρ ε S}
    (hstep : step w (.closeResolves j) = some w') : Kept w' := by
  simp only [step] at hstep
  split at hstep
  · rename_i begun hj
    obtain rfl := Option.some.inj hstep
    exact { h with
      waiting := fun i begun' opening hi => by
        obtain hi | hnew := getElem?_closes_set hi
        · exact h.waiting i begun' opening hi
        · cases hnew
      done := fun i begun' hi => by
        obtain hi | hi := hi <;> obtain hi | hnew := getElem?_closes_set hi
        · exact h.done i begun' (.inl hi)
        · cases hnew
        · exact h.done i begun' (.inr hi)
        · cases hnew
          exact h.done j begun (.inl hj) }
  · cases hstep

theorem Kept.startSettles (h : Kept w) (k : Nat) (outcome : Except ε S) {w' : World ρ ε S}
    (hstep : step w (.startSettles k outcome) = some w') : Kept w' := by
  simp only [step] at hstep
  split at hstep
  · rename_i reference opened hc
    obtain rfl := Option.some.inj hstep
    have hnone : opened = none := h.shaped k _ hc
    exact h.put hc rfl ⟨nofun, .inl hnone⟩ rfl (fun _ => rfl) rfl nofun
  · cases hstep

/-! ## Every run -/

omit [DecidableEq S] in
theorem kept_init : Kept ({} : World ρ ε S) where
  keyed := nofun
  anonymous := nofun
  shaped := nofun
  held := nofun
  own := nofun
  waiting := nofun
  done := by
    rintro j begun (hj | hj) <;> cases hj

theorem Kept.step (h : Kept w) {action : Action ρ ε S} {w' : World ρ ε S}
    (hstep : SessionRegistry.step w action = some w') : Kept w' := by
  cases action with
  | open_ reference => exact h.open_ reference hstep
  | openUnreferenced => exact h.openUnreferenced hstep
  | startSettles call outcome => exact h.startSettles call outcome hstep
  | goOn call => exact h.goOn call hstep
  | stopSettles call outcome => exact h.stopSettles call outcome hstep
  | release session => exact h.release session hstep
  | close => exact h.close hstep
  | closeGoesOn close => exact h.closeGoesOn close hstep
  | closeResolves close => exact h.closeResolves close hstep

/-- No session is leaked: one session is held for each reference, a session that was returned is
held until it is released or the registry is closed, a session whose open was rejected was stopped,
and so was each one opened before the call of `close` that closed the registry, once that call is
over, if it was not released. -/
structure NoneLeaked (w : World ρ ε S) : Prop where
  oneEach : w.sessions.keys.Nodup
  oneEachOwn : (∀ c ∈ w.calls, ∀ r s, c.reference = some r → c.outcome = some (.ok s) →
      HasReference.providerSessionReference s = r) →
    ∀ r r' s s', w.sessions.get r = some s → w.sessions.get r' = some s' →
      HasReference.providerSessionReference (ρ := ρ) s =
        HasReference.providerSessionReference s' → r = r'
  returned : ∀ (k : Nat) (c : Call ρ ε S), w.calls[k]? = some c → c.phase = .returned →
    ∃ s, c.outcome = some (.ok s) ∧
      (w.sessions.get (World.key c.reference s) = some s ∨ k ∈ w.released ∨ w.closed)
  rejected : ∀ c ∈ w.calls, ∀ error, c.phase = .rejected error →
    ∀ s, c.outcome = some (.ok s) → s ∈ w.stops
  resolved : ∀ (j begun : Nat), w.closes[j]? = some (.resolved begun true) →
    ∀ (k : Nat) (c : Call ρ ε S), k < begun → w.calls[k]? = some c →
      (c.outcome = none → c.phase = .refused) ∧
        ∀ s, c.outcome = some (.ok s) → s ∈ w.stops ∨ k ∈ w.released

omit [DecidableEq S] in
theorem Kept.noneLeaked (h : Kept w) : NoneLeaked w where
  oneEach := w.sessions.nodup
  oneEachOwn := by
    intro hnamed r r' s s' hs hs' hreference
    have hkey : ∀ {r s}, w.sessions.get r = some s →
        r = HasReference.providerSessionReference s := by
      intro r s hs
      obtain ⟨k, c, hc, -, houtcome, rfl⟩ := h.own r s hs
      cases hr : c.reference with
      | none => rfl
      | some reference =>
        exact (hnamed c (List.mem_of_getElem? hc) reference s hr houtcome).symm
    rw [hkey hs, hkey hs', hreference]
  returned := by
    intro k c hc hphase
    have hshaped := h.shaped k c hc
    simp only [Shaped, hphase] at hshaped
    obtain ⟨s, hs⟩ := hshaped
    refine ⟨s, hs, ?_⟩
    obtain hget | hreleased | ⟨hclosed, -⟩ := h.held k c s hc (by rw [hphase]; rfl) hs
    · exact .inl hget
    · exact .inr (.inl hreleased)
    · exact .inr (.inr hclosed)
  rejected := by
    intro c hmem error hphase
    obtain ⟨k, hc⟩ := List.mem_iff_getElem?.mp hmem
    have hshaped := h.shaped k c hc
    simp only [Shaped, hphase] at hshaped
    exact hshaped.2
  resolved := by
    intro j begun hj k c hk hc
    have hdone := (h.done j begun (.inr hj)).2 k c hk hc
    constructor
    · intro hnone
      rwa [Done, hnone] at hdone
    · intro s hs
      rwa [Done, hs] at hdone

theorem sessionRegistry_leaksNone {actions : List (Action ρ ε S)}
    (hrun : machine.run {} actions = some w) : NoneLeaked w :=
  (machine.invariant kept_init (fun _ _ _ h hstep => h.step hstep) hrun).noneLeaked

/-- A session with its reference. -/
structure Named where
  providerSessionReference : Nat
  deriving DecidableEq

instance : HasReference Nat Named where
  providerSessionReference := Named.providerSessionReference

/-- A session that is released, opens that are rejected, and a close. -/
def someActions : List (Action Nat String Named) :=
  [.open_ 1, .openUnreferenced, .startSettles 0 (.ok ⟨1⟩), .goOn 0, .startSettles 1 (.ok ⟨1⟩),
    .goOn 1, .open_ 1, .stopSettles 1 (.ok ()), .release ⟨1⟩, .open_ 2, .close,
    .startSettles 3 (.ok ⟨2⟩), .closeGoesOn 0, .closeResolves 0, .goOn 3, .goOn 3,
    .stopSettles 3 (.ok ())]

theorem sessionRegistry_leaksNone_some :
    ∃ w, machine.run ({} : World Nat String Named) someActions = some w ∧ NoneLeaked w :=
  Machine.exists_run machine (by decide +kernel) fun _ hrun => sessionRegistry_leaksNone hrun

/-- A call of `close` after another one resolves at once, here with a session to stop. -/
theorem not_resolved_of_any :
    ¬ ∀ (actions : List (Action Nat String Named)) (w : World Nat String Named),
      machine.run {} actions = some w → ∀ (j begun : Nat) first,
        w.closes[j]? = some (.resolved begun first) → ∀ (k : Nat) (c : Call Nat String Named),
          k < begun → w.calls[k]? = some c → ∀ s, c.outcome = some (.ok s) →
            s ∈ w.stops ∨ k ∈ w.released := by
  intro h
  have hleft := h [.open_ 1, .startSettles 0 (.ok ⟨1⟩), .close, .close] _ rfl 1 1 false rfl 0 _
    (by decide) rfl ⟨1⟩ rfl
  exact absurd hleft (by decide)

end SessionRegistry

end Opensteer
