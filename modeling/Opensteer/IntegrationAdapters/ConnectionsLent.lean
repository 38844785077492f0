import Opensteer.Framework.Tally
import Opensteer.IntegrationAdapters.ConnectionPool

/-!
# Connections are lent to one call

`Kept` holds of a pool after any steps: each connection is used by one call, or idle, or was closed
once, and always under the key it was opened for. What `close` leaves open is what was used across
it and became idle after (`Spent`): without that, `Emptied` holds. `connectionPool_lends` is both.
-/

namespace Opensteer.McpConnectionPool

open scoped List

variable {κ : Type}

/-- The connection of a call that uses one. -/
def Phase.connection? : Phase → Option Nat
  | .uses connection _ => some connection
  | _ => none

def held (w : World κ) : List Nat := w.calls.filterMap (·.phase.connection?)

def idles (w : World κ) : List Nat := w.idle.values.map (·.connection)

variable [DecidableEq κ]

/-- What holds of a pool after any steps. -/
structure Kept (w : World κ) : Prop where
  /-- Each connection that was opened is used by one call, or idle, or was closed once. -/
  placed : (held w ++ (idles w ++ w.closed)).Perm (List.range w.opened.length)
  ownCall : ∀ c ∈ w.calls, ∀ connection, c.phase.connection? = some connection →
    w.opened[connection]? = some c.key
  ownIdle : ∀ key entry, w.idle.get key = some entry → w.opened[entry.connection]? = some key
  oneIdle : w.idle.keys.Nodup
  dead : w.dead ⊆ w.closed

/-- What holds once `close` was called and no call begun since, where nothing becomes idle. -/
structure Emptying (w : World κ) : Prop where
  overtaken : w.quiet → ∀ c ∈ w.calls, c.phase ≠ .settled → c.overtaken
  idle : w.quiet → ∀ key, w.idle.get key = none

/-- After a `close`, with no call begun since: once the calls are over, everything is closed. -/
def Emptied (w : World κ) : Prop :=
  w.quiet → (∀ c ∈ w.calls, c.phase = .settled) → w.closed.Perm (List.range w.opened.length)

variable {w : World κ} {call : Nat} {c : Call κ} {phase : Phase}

theorem kept_init : Kept ({} : World κ) where
  placed := .refl _
  ownCall := nofun
  ownIdle := nofun
  oneIdle := List.nodup_nil
  dead := List.nil_subset _

theorem emptying_init : Emptying ({} : World κ) := ⟨nofun, nofun⟩

/-! ## Where the connections are -/

omit [DecidableEq κ] in
theorem held_setPhase (hc : w.calls[call]? = some c) :
    (held (w.setPhase call c phase) ++ c.phase.connection?.toList).Perm
      (held w ++ phase.connection?.toList) := by
  have hbefore := filterMap_perm_of_getElem? (·.phase.connection?) hc
  have hafter := (List.set_perm_cons_eraseIdx (List.getElem?_eq_some_iff.mp hc).1
    { c with phase }).filterMap (·.phase.connection?)
  rw [filterMap_cons_toList] at hafter
  calc (w.calls.set call { c with phase }).filterMap (·.phase.connection?) ++ c.phase.connection?.toList
    _ ~ phase.connection?.toList ++ (w.calls.eraseIdx call).filterMap (·.phase.connection?) ++
        c.phase.connection?.toList := hafter.append_right _
    _ ~ phase.connection?.toList ++ (c.phase.connection?.toList ++
        (w.calls.eraseIdx call).filterMap (·.phase.connection?)) := by
      rw [List.append_assoc]
      exact List.perm_append_comm.append_left _
    _ ~ phase.connection?.toList ++ held w := hbefore.symm.append_left _
    _ ~ held w ++ phase.connection?.toList := List.perm_append_comm

omit [DecidableEq κ] in
theorem held_setPhase_none (hc : w.calls[call]? = some c) (hbefore : c.phase.connection? = none)
    (hafter : phase.connection? = none) : (held (w.setPhase call c phase)).Perm (held w) := by
  simpa [hbefore, hafter] using @held_setPhase _ _ _ _ phase hc

omit [DecidableEq κ] in
/-- The call no longer uses its connection. -/
theorem held_setPhase_gives {connection : Nat} (hc : w.calls[call]? = some c)
    (hbefore : c.phase.connection? = some connection) (hafter : phase.connection? = none) :
    (held (w.setPhase call c phase) ++ [connection]).Perm (held w) := by
  simpa [hbefore, hafter] using @held_setPhase _ _ _ _ phase hc

omit [DecidableEq κ] in
theorem held_setPhase_takes {connection : Nat} (hc : w.calls[call]? = some c)
    (hbefore : c.phase.connection? = none) (hafter : phase.connection? = some connection) :
    (held (w.setPhase call c phase)).Perm (held w ++ [connection]) := by
  simpa [hbefore, hafter] using @held_setPhase _ _ _ _ phase hc

omit [DecidableEq κ] in
theorem mem_setPhase {c' : Call κ} (h : c' ∈ (w.setPhase call c phase).calls) :
    c' ∈ w.calls ∨ c' = { c with phase } :=
  List.mem_or_eq_of_mem_set h

/-! ## The steps -/

theorem step_connects {idleTtlMs : Int} {w' : World κ} (hstep : step idleTtlMs w (.connects call) = some w') :
    ∃ c, w.calls[call]? = some c ∧ c.phase = .connecting ∧
      w' = { w.setPhase call c (.uses w.opened.length false) with opened := w.opened ++ [c.key] } := by
  simp only [step] at hstep
  split at hstep
  · rename_i c hc
    obtain ⟨hphase, hw'⟩ := Option.ite_none_right_eq_some.mp hstep
    exact ⟨c, hc, hphase, (Option.some.inj hw').symm⟩
  · cases hstep

theorem step_connectFails {idleTtlMs : Int} {w' : World κ}
    (hstep : step idleTtlMs w (.connectFails call) = some w') :
    ∃ c, w.calls[call]? = some c ∧ c.phase = .connecting ∧ w' = w.setPhase call c .settled := by
  simp only [step] at hstep
  split at hstep
  · rename_i c hc
    obtain ⟨hphase, hw'⟩ := Option.ite_none_right_eq_some.mp hstep
    exact ⟨c, hc, hphase, (Option.some.inj hw').symm⟩
  · cases hstep

theorem step_fulfils {idleTtlMs now : Int} {w' : World κ}
    (hstep : step idleTtlMs w (.fulfils call now) = some w') :
    ∃ c connection reused, w.calls[call]? = some c ∧ c.phase = .uses connection reused ∧
      w' = w.release call c connection false false now := by
  simp only [step] at hstep
  split at hstep
  · rename_i c hc
    split at hstep
    · rename_i connection reused hphase
      exact ⟨c, connection, reused, hc, hphase, (Option.some.inj hstep).symm⟩
    · cases hstep
  · cases hstep

theorem step_rejects {idleTtlMs now : Int} {cause : Cause} {w' : World κ}
    (hstep : step idleTtlMs w (.rejects call cause now) = some w') :
    ∃ c connection reused, w.calls[call]? = some c ∧ c.phase = .uses connection reused ∧
      w' = { w.release call c connection (isDeadMcpSessionFailure cause)
          (reused && mcpErrorStatus cause = some (.whole 404)) now with
        dead := if isDeadMcpSessionFailure cause then w.dead ++ [connection] else w.dead } := by
  simp only [step] at hstep
  split at hstep
  · rename_i c hc
    split at hstep
    · rename_i connection reused hphase
      exact ⟨c, connection, reused, hc, hphase, (Option.some.inj hstep).symm⟩
    · cases hstep
  · cases hstep

/-- A call that waits for a `close` goes on to another phase, with no connection before or after. -/
theorem step_closeSettles {idleTtlMs : Int} {w' : World κ}
    (hstep : step idleTtlMs w (.closeSettles call) = some w') :
    ∃ c phase, w.calls[call]? = some c ∧ c.phase ≠ .settled ∧ c.phase.connection? = none ∧
      phase.connection? = none ∧ w' = w.setPhase call c phase := by
  simp only [step] at hstep
  split at hstep
  · rename_i c hc
    split at hstep
    · rename_i hphase
      exact ⟨c, .connecting, hc, by rw [hphase]; nofun, by rw [hphase]; rfl, rfl, (Option.some.inj hstep).symm⟩
    · rename_i hphase
      exact ⟨c, .connecting, hc, by rw [hphase]; nofun, by rw [hphase]; rfl, rfl, (Option.some.inj hstep).symm⟩
    · rename_i hphase
      exact ⟨c, .settled, hc, by rw [hphase]; nofun, by rw [hphase]; rfl, rfl, (Option.some.inj hstep).symm⟩
    · cases hstep
  · cases hstep

theorem closed_release (connection : Nat) (drop retries : Bool) {now : Int} :
    w.closed <+: (w.release call c connection drop retries now).closed := by
  unfold World.release
  split
  · exact List.prefix_append _ _
  · exact List.prefix_rfl

theorem release_dead (connection : Nat) (drop retries : Bool) {now : Int} :
    (w.release call c connection drop retries now).dead = w.dead := by
  unfold World.release
  split <;> rfl

theorem Kept.setPhase (h : Kept w) (hc : w.calls[call]? = some c) (hbefore : c.phase.connection? = none)
    (hafter : phase.connection? = none) : Kept (w.setPhase call c phase) where
  placed := ((held_setPhase_none hc hbefore hafter).append_right _).trans h.placed
  ownCall c' hc' connection hconnection := by
    obtain hc' | rfl := mem_setPhase hc'
    · exact h.ownCall c' hc' connection hconnection
    · exact absurd (hafter.symm.trans hconnection) (by simp)
  ownIdle := h.ownIdle
  oneIdle := h.oneIdle
  dead := h.dead

/-- What is taken out of the idle ones, and what is left. -/
theorem idles_delete {key : κ} {entry : IdleConnection} (hget : w.idle.get key = some entry) :
    (idles w).Perm (entry.connection :: (w.idle.delete key).values.map (·.connection)) :=
  (OrderedMap.values_perm_delete hget).map IdleConnection.connection

/-- A call that begins, and may take what was idle. -/
theorem Kept.begun (h : Kept w) {w' : World κ} {key : κ}
    (hcalls : w'.calls = w.calls ++ [({ key, phase } : Call κ)]) (hopened : w'.opened = w.opened)
    (hidle : w'.idle = w.idle.delete key)
    (hown : ∀ connection, phase.connection? = some connection → w.opened[connection]? = some key)
    (hplaced : (phase.connection?.toList ++ (idles w' ++ w'.closed)).Perm (idles w ++ w.closed))
    (hdead : w'.dead = w.dead) (hclosed : w.closed ⊆ w'.closed) : Kept w' where
  placed := by
    have hheld : held w' = held w ++ phase.connection?.toList := by
      rw [held, hcalls, List.filterMap_append, filterMap_cons_toList, List.filterMap_nil, List.append_nil]
      rfl
    rw [hheld, hopened, List.append_assoc]
    exact (hplaced.append_left _).trans h.placed
  ownCall c hc := by
    rw [hopened]
    rw [hcalls] at hc
    obtain hc | hc := List.mem_append.mp hc
    · exact h.ownCall c hc
    · obtain rfl := List.mem_singleton.mp hc
      exact hown
  ownIdle key' entry hget := by
    rw [hidle, OrderedMap.get_delete] at hget
    rw [hopened]
    split at hget
    · cases hget
    · exact h.ownIdle key' entry hget
  oneIdle := w'.idle.nodup
  dead := by
    rw [hdead]
    exact List.Subset.trans h.dead hclosed

theorem Kept.acquire (h : Kept w) (idleTtlMs : Int) (key : κ) (now : Int) :
    Kept (w.acquire idleTtlMs key now) := by
  unfold World.acquire
  cases hget : w.idle.get key with
  | some entry =>
    have hidles := idles_delete hget
    dsimp only
    split
    · refine h.begun rfl rfl rfl (fun connection hconnection => ?_) ?_ rfl (List.Subset.refl _)
      · cases hconnection
        exact h.ownIdle key entry hget
      · exact hidles.symm.append_right _
    · refine h.begun rfl rfl rfl nofun ?_ rfl (List.subset_append_left _ _)
      show ((w.idle.delete key).values.map (·.connection) ++ (w.closed ++ [entry.connection])).Perm _
      rw [← List.append_assoc]
      exact (List.perm_append_singleton _ _).trans (hidles.symm.append_right _)
  | none =>
    refine h.begun rfl rfl rfl nofun ?_ rfl (List.Subset.refl _)
    have hdelete : (w.idle.delete key).values = w.idle.values := by
      rw [OrderedMap.values, OrderedMap.delete]
      refine congrArg (List.map Prod.snd) (List.filter_eq_self.mpr fun e he => ?_)
      have hne : e.1 ≠ key := fun heq => by
        have hmem := (OrderedMap.mem_entries (a := e.2)).mp he
        rw [heq, hget] at hmem
        cases hmem
      simpa using hne
    show ((w.idle.delete key).values.map (·.connection) ++ w.closed).Perm _
    rw [hdelete]
    exact .refl _

theorem Kept.connects (h : Kept w) (hc : w.calls[call]? = some c) (hphase : c.phase = .connecting) :
    Kept { w.setPhase call c (.uses w.opened.length false) with opened := w.opened ++ [c.key] } := by
  have hold : ∀ {connection : Nat} {key : κ}, w.opened[connection]? = some key →
      (w.opened ++ [c.key])[connection]? = some key := by
    intro connection key hkey
    rwa [List.getElem?_append_left (List.getElem?_eq_some_iff.mp hkey).1]
  refine ⟨?_, fun c' hc' connection hconnection => ?_, fun key entry hget => hold (h.ownIdle key entry hget),
    h.oneIdle, h.dead⟩
  · have htakes : (held (w.setPhase call c (.uses w.opened.length false))).Perm (held w ++ [w.opened.length]) :=
      held_setPhase_takes hc (by rw [hphase]; rfl) rfl
    rw [List.length_append, List.length_singleton, List.range_succ]
    refine (htakes.append_right _).trans ?_
    rw [List.append_assoc]
    refine .trans ?_ (h.placed.append_right _)
    rw [List.append_assoc]
    exact List.perm_append_comm.append_left _
  · obtain hc' | rfl := mem_setPhase hc'
    · exact hold (h.ownCall c' hc' connection hconnection)
    · cases hconnection
      exact List.getElem?_concat_length

theorem Kept.release (h : Kept w) {connection : Nat} {reused : Bool} (hc : w.calls[call]? = some c)
    (hphase : c.phase = .uses connection reused) (drop retries : Bool) (now : Int) :
    Kept (w.release call c connection drop retries now) := by
  have hbefore : c.phase.connection? = some connection := by rw [hphase]; rfl
  have hmem := List.mem_of_getElem? hc
  have hcall : ∀ {phase : Phase}, phase.connection? = none → ∀ c' ∈ (w.setPhase call c phase).calls,
      ∀ connection, c'.phase.connection? = some connection → w.opened[connection]? = some c'.key := by
    intro phase hafter c' hc' connection' hconnection
    obtain hc' | rfl := mem_setPhase hc'
    · exact h.ownCall c' hc' connection' hconnection
    · exact absurd (hafter.symm.trans hconnection) (by simp)
  unfold World.release
  split
  · refine ⟨?_, hcall rfl, h.ownIdle, h.oneIdle, List.subset_append_of_subset_left _ h.dead⟩
    have hgives : (held (w.setPhase call c (.closing retries)) ++ [connection]).Perm (held w) :=
      held_setPhase_gives hc hbefore rfl
    refine .trans ?_ ((hgives.append_right _).trans h.placed)
    rw [List.append_assoc]
    refine .append_left _ ?_
    rw [← List.append_assoc]
    exact List.perm_append_comm
  · rename_i hkeeps
    simp only [Bool.or_eq_true, not_or, Bool.not_eq_true, Option.isSome_eq_false_iff,
      Option.isNone_iff_eq_none] at hkeeps
    have hafter : (if retries then Phase.connecting else .settled).connection? = none := by
      cases retries <;> rfl
    refine ⟨?_, hcall hafter, fun key entry hget => ?_, (w.idle.set c.key _).nodup, h.dead⟩
    · have hgives := held_setPhase_gives hc hbefore hafter
      refine .trans ?_ ((hgives.append_right _).trans h.placed)
      rw [List.append_assoc, idles, OrderedMap.values_set_of_get_eq_none hkeeps.2, List.map_append]
      refine .append_left _ ?_
      exact List.perm_append_comm.append_right _
    · rw [OrderedMap.get_set] at hget
      split at hget
      · rename_i heq
        cases hget
        exact heq ▸ h.ownCall c hmem connection hbefore
      · exact h.ownIdle key entry hget

theorem Kept.close (h : Kept w) : Kept w.close where
  placed := by
    have hheld : held w.close = held w := by
      rw [held, held, World.close, List.filterMap_map]
      rfl
    rw [hheld]
    have hcomm : (w.closed ++ idles w).Perm (idles w ++ w.closed) := List.perm_append_comm
    exact (hcomm.append_left _).trans h.placed
  ownCall c hc := by
    obtain ⟨c', hc', rfl⟩ := List.mem_map.mp hc
    exact h.ownCall c' hc'
  ownIdle _ _ hget := by cases hget
  oneIdle := List.nodup_nil
  dead := List.subset_append_of_subset_left _ h.dead

theorem closed_release_of_drop {connection : Nat} {retries : Bool} {now : Int} :
    (w.release call c connection true retries now).closed = w.closed ++ [connection] := by
  rw [World.release, Bool.true_or, if_pos rfl]

theorem Kept.step (h : Kept w) {idleTtlMs : Int} {a : Action κ} {w' : World κ}
    (hstep : step idleTtlMs w a = some w') : Kept w' := by
  cases a with
  | withConnection key now =>
    obtain rfl := Option.some.inj hstep
    exact h.acquire idleTtlMs key now
  | connects call =>
    obtain ⟨c, hc, hphase, rfl⟩ := step_connects hstep
    exact h.connects hc hphase
  | connectFails call =>
    obtain ⟨c, hc, hphase, rfl⟩ := step_connectFails hstep
    exact h.setPhase hc (by rw [hphase]; rfl) rfl
  | fulfils call now =>
    obtain ⟨c, connection, reused, hc, hphase, rfl⟩ := step_fulfils hstep
    exact h.release hc hphase false false now
  | rejects call cause now =>
    obtain ⟨c, connection, reused, hc, hphase, rfl⟩ := step_rejects hstep
    have hrelease := h.release hc hphase (isDeadMcpSessionFailure cause)
      (reused && mcpErrorStatus cause = some (.whole 404)) now
    refine { hrelease with dead := ?_ }
    split
    · rename_i hdrop
      rw [hdrop, closed_release_of_drop]
      exact List.append_subset_of_subset_of_subset (List.subset_append_of_subset_left _ h.dead)
        (List.subset_append_right _ _)
    · have hdead := hrelease.dead
      rwa [release_dead] at hdead
  | closeSettles call =>
    obtain ⟨c, phase, hc, -, hbefore, hafter, rfl⟩ := step_closeSettles hstep
    exact h.setPhase hc hbefore hafter
  | close =>
    obtain rfl := Option.some.inj hstep
    exact h.close

/-! ## What is closed -/

theorem closed_step {idleTtlMs : Int} {a : Action κ} {w' : World κ}
    (hstep : step idleTtlMs w a = some w') : w.closed <+: w'.closed := by
  cases a with
  | withConnection key now =>
    obtain rfl := Option.some.inj hstep
    unfold World.acquire
    dsimp only
    split
    · split
      · exact List.prefix_rfl
      · exact List.prefix_append _ _
    · exact List.prefix_rfl
  | connects call =>
    obtain ⟨c, -, -, rfl⟩ := step_connects hstep
    exact List.prefix_rfl
  | connectFails call =>
    obtain ⟨c, -, -, rfl⟩ := step_connectFails hstep
    exact List.prefix_rfl
  | fulfils call now =>
    obtain ⟨c, connection, reused, -, -, rfl⟩ := step_fulfils hstep
    exact closed_release _ _ _
  | rejects call cause now =>
    obtain ⟨c, connection, reused, -, -, rfl⟩ := step_rejects hstep
    exact closed_release _ _ _
  | closeSettles call =>
    obtain ⟨c, phase, -, -, -, -, rfl⟩ := step_closeSettles hstep
    exact List.prefix_rfl
  | close =>
    obtain rfl := Option.some.inj hstep
    exact List.prefix_append _ _

theorem closed_run {idleTtlMs : Int} {as : List (Action κ)} {w' : World κ}
    (hrun : (machine idleTtlMs).run w as = some w') : w.closed <+: w'.closed :=
  (machine idleTtlMs).invariant (P := fun v => w.closed <+: v.closed) List.prefix_rfl
    (fun _ _ _ h hstep => h.trans (closed_step hstep)) hrun

/-! ## After a `close` -/

theorem Emptying.setPhase (h : Emptying w) (hc : w.calls[call]? = some c) (hbefore : c.phase ≠ .settled) :
    Emptying (w.setPhase call c phase) where
  overtaken hquiet c' hc' hphase := by
    obtain hc' | rfl := mem_setPhase hc'
    · exact h.overtaken hquiet c' hc' hphase
    · exact h.overtaken hquiet c (List.mem_of_getElem? hc) hbefore
  idle := h.idle

theorem Emptying.release (h : Emptying w) {connection : Nat} (hc : w.calls[call]? = some c)
    (hbefore : c.phase ≠ .settled) {drop : Bool} (retries : Bool) (now : Int)
    (hspent : c.overtaken → drop ∨ (w.idle.get c.key).isSome) :
    Emptying (w.release call c connection drop retries now) := by
  unfold World.release
  split
  · exact { h.setPhase hc hbefore with }
  · rename_i hkeeps
    have hset : Emptying (w.setPhase call c (if retries then .connecting else .settled)) :=
      h.setPhase hc hbefore
    refine { hset with idle := fun hquiet => ?_ }
    have hovertaken := h.overtaken hquiet c (List.mem_of_getElem? hc) hbefore
    exact absurd (hspent hovertaken) (by simpa using hkeeps)

theorem Emptying.step (h : Emptying w) {idleTtlMs : Int} {a : Action κ} {w' : World κ}
    (hspent : Spent w a) (hstep : step idleTtlMs w a = some w') : Emptying w' := by
  cases a with
  | withConnection key now =>
    obtain rfl := Option.some.inj hstep
    have hquiet : (w.acquire idleTtlMs key now).quiet = false := by
      unfold World.acquire
      dsimp only
      split
      · split <;> rfl
      · rfl
    exact ⟨fun hq => absurd (hquiet.symm.trans hq) nofun, fun hq => absurd (hquiet.symm.trans hq) nofun⟩
  | connects call =>
    obtain ⟨c, hc, hphase, rfl⟩ := step_connects hstep
    exact { h.setPhase hc (by rw [hphase]; decide) with }
  | connectFails call =>
    obtain ⟨c, hc, hphase, rfl⟩ := step_connectFails hstep
    exact h.setPhase hc (by rw [hphase]; decide)
  | fulfils call now =>
    obtain ⟨c, connection, reused, hc, hphase, rfl⟩ := step_fulfils hstep
    exact h.release hc (by rw [hphase]; nofun) false now fun hovertaken => .inr (hspent c hc hovertaken)
  | rejects call cause now =>
    obtain ⟨c, connection, reused, hc, hphase, rfl⟩ := step_rejects hstep
    exact { h.release hc (by rw [hphase]; nofun) _ now (hspent c hc) with }
  | closeSettles call =>
    obtain ⟨c, phase, hc, hopen, -, -, rfl⟩ := step_closeSettles hstep
    exact h.setPhase hc hopen
  | close =>
    obtain rfl := Option.some.inj hstep
    refine ⟨fun _ c hc hphase => ?_, fun _ _ => rfl⟩
    obtain ⟨c', -, rfl⟩ := List.mem_map.mp hc
    simp only [Bool.or_eq_true, decide_eq_true_eq]
    exact .inr hphase

theorem Emptying.emptied (h : Emptying w) (hkept : Kept w) : Emptied w := by
  intro hquiet hsettled
  have hheld : held w = [] := by
    rw [held, List.filterMap_eq_nil_iff]
    intro c hc
    rw [hsettled c hc]
    rfl
  have hidles : idles w = [] := by
    rw [idles, OrderedMap.values, OrderedMap.entries_eq_nil_iff.mpr (h.idle hquiet)]
    rfl
  have hplaced := hkept.placed
  rwa [hheld, hidles] at hplaced

/-! ## Over every run -/

theorem kept_run {idleTtlMs : Int} {as : List (Action κ)}
    (hrun : (machine idleTtlMs).run {} as = some w) : Kept w :=
  (machine idleTtlMs).invariant kept_init (fun _ _ _ h hstep => h.step hstep) hrun

/-- Two calls at once, a session that has gone, and a `close`. -/
def calls : List (Action Nat) :=
  [.withConnection 7 0, .connects 0, .withConnection 7 1, .connects 1, .fulfils 0 2, .fulfils 1 3,
    .closeSettles 1, .withConnection 7 4,
    .rejects 2 (.object { message := units "POST failed: HTTP 404" } .scalar) 5, .closeSettles 2,
    .connects 2, .fulfils 2 6, .close]

/-- A call that `close` finds in progress. -/
def overtakenCall : List (Action Nat) := [.withConnection 7 0, .connects 0, .close, .fulfils 0 1]

end Opensteer.McpConnectionPool
