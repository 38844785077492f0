import Mathlib.Data.List.Nodup
import Opensteer.WarmEnginePool.Model

/-!
# What the pool keeps

Where each engine is, and which retirement the entry of a Thread stands for, as one invariant with the engines
that a stretch of code has in hand (`Sound`): a lemma for each thing such a stretch does, and from them one for
each action. It is kept as long as each step is `Orderly`, and then the pool keeps what it is for (`Keeps`) at
every moment at which no `put` waits for the engine it replaces (`pool_keeps_iff`).
-/

namespace Opensteer.WarmEnginePool

variable {ThreadId Engine : Type} [DecidableEq ThreadId] [DecidableEq Engine] (threadId : Engine → ThreadId)
  (maxIdle : Nat)

/-- The engine that a call of `put` keeps until the one it replaces has been retired. -/
def Call.replacement : Call ThreadId Engine → Option Engine
  | .replacing engine _ => some engine
  | _ => none

/-- The Thread that a call of `take` waits for. -/
def Call.takes : Call ThreadId Engine → Option ThreadId
  | .taking threadId _ => some threadId
  | _ => none

namespace Pool

/-- The idle engines. -/
def warm (v : Pool ThreadId Engine) : List Engine := v.idle.values.map (·.engine)

/-- The engines given to `#retire`. -/
def retired (v : Pool ThreadId Engine) : List Engine := v.retirements.map (·.engine)

/-- The engines whose `put` still waits for the one it replaces. -/
def replacing (v : Pool ThreadId Engine) : List Engine := v.calls.filterMap Call.replacement

/-- What the pool is for: an engine is in one place, a Thread has one idle engine at most, `take` does not
resolve while one of the Thread's is being retired, `maxIdle` is respected, and a closed pool is empty. -/
structure Keeps (v : Pool ThreadId Engine) : Prop where
  once : ∀ engine ∈ v.given, v.warm.count engine + v.handedOut.count engine + v.retired.count engine = 1
  thread : ∀ thread, (v.warm.filter (threadId · = thread)).length ≤ 1
  taken : ∀ taken ∈ v.taken, taken.underWay = []
  room : v.idle.size ≤ maxIdle
  closed : v.closed = true → v.warm = []

/-- The engines that trimming the idle ones retires. -/
def overflow (idle : OrderedMap ThreadId (Idle Engine)) : List Engine :=
  if maxIdle < idle.size then (oldest idle.entries).toList.map (·.2.engine) else []

/-- The engines that an action gives to `#retire`. -/
def retires (v : Pool ThreadId Engine) : Action ThreadId Engine → List Engine
  | .put engine now =>
    if v.closed then [engine]
    else
      match v.idle.get (threadId engine) with
      | some previous => [previous.engine]
      | none => overflow maxIdle (v.idle.set (threadId engine) ⟨engine, v.nextTimer, now⟩)
  | .evict predicate => v.warm.filter predicate
  | .close => v.warm
  | .expire i =>
    (v.timers[i]?.toList.map (·.2)).filter fun engine => (v.idle.get (threadId engine)).map (·.engine) = some engine
  | .resume i now =>
    match v.calls[i]? with
    | some (.replacing engine _) => overflow maxIdle (v.idle.set (threadId engine) ⟨engine, v.nextTimer, now⟩)
    | some (.trimming _) => overflow maxIdle v.idle
    | _ => []
  | _ => []

/-- No engine of the Thread is being retired, and no `take` of it is waiting. -/
def Free (v : Pool ThreadId Engine) (thread : ThreadId) : Prop :=
  v.retiring thread = none ∧ ∀ call ∈ v.calls, call.takes ≠ some thread

/-- A `put` that has waited finds the pool as one does that need not wait: not closed, and without an idle
engine of the Thread. -/
def ready (v : Pool ThreadId Engine) : Action ThreadId Engine → Bool
  | .resume i _ =>
    match v.calls[i]? with
    | some (.replacing engine _) => !v.closed && (v.idle.get (threadId engine)).isNone
    | _ => true
  | _ => true

/-- The action retires engines of free Threads only, and goes on with a `put` only when that is ready. -/
def Orderly (v : Pool ThreadId Engine) (a : Action ThreadId Engine) : Prop :=
  (∀ engine ∈ v.retires threadId maxIdle a, v.Free (threadId engine)) ∧ v.ready threadId a

instance (v : Pool ThreadId Engine) (thread : ThreadId) : Decidable (v.Free thread) :=
  inferInstanceAs (Decidable (_ ∧ _))

instance (v : Pool ThreadId Engine) (a : Action ThreadId Engine) : Decidable (v.Orderly threadId maxIdle a) :=
  inferInstanceAs (Decidable (_ ∧ _))

/-- The places of the engines, with those that are in hand. -/
def places (v : Pool ThreadId Engine) (held : List Engine) : List Engine :=
  held ++ v.warm ++ v.handedOut ++ v.retired ++ v.replacing

/-- The invariant, while the engines of `held` are in hand. -/
structure Sound (v : Pool ThreadId Engine) (held : List Engine) : Prop where
  once : ∀ engine, (v.places held).count engine = if engine ∈ v.given then 1 else 0
  key : ∀ thread idle, v.idle.get thread = some idle → threadId idle.engine = thread
  tracked : ∀ n r, v.retirements[n]? = some r → r.phase ≠ .finished → v.retiring (threadId r.engine) = some n
  awaited : ∀ thread retiring, Call.taking thread retiring ∈ v.calls → ∀ n r, v.retirements[n]? = some r →
    r.phase ≠ .finished → threadId r.engine = thread → retiring = some n
  taken : ∀ taken ∈ v.taken, taken.underWay = []

/-- What is idle fits the pool. -/
structure Fits (v : Pool ThreadId Engine) : Prop where
  room : v.idle.size ≤ maxIdle
  closed : v.closed = true → v.idle.entries = []

/-! ## What a stretch of code does -/

section Stretch

variable {threadId maxIdle} {v w : Pool ThreadId Engine} {held held' : List Engine} {engine : Engine} {thread : ThreadId}

omit [DecidableEq Engine] in
theorem warm_remove {idle : Idle Engine} (h : v.idle.get thread = some idle) :
    v.warm.Perm (idle.engine :: (v.remove thread idle).warm) :=
  List.Perm.map Idle.engine (OrderedMap.values_perm_delete h)

omit [DecidableEq Engine] in
theorem warm_set {idle : Idle Engine} (h : v.idle.get thread = none) :
    ({ v with idle := v.idle.set thread idle } : Pool ThreadId Engine).warm = v.warm ++ [idle.engine] := by
  simp [warm, OrderedMap.values_set_of_get_eq_none h]

/-- Engines that move from one place to another. -/
theorem Sound.move (h : v.Sound threadId held) (hplaces : (v.places held).Perm (w.places held'))
    (hgiven : w.given = v.given) (engine : Engine) :
    (w.places held').count engine = if engine ∈ w.given then 1 else 0 := by
  rw [← hplaces.count_eq, hgiven]
  exact h.once engine

theorem Sound.perm (h : v.Sound threadId held) (hp : held.Perm held') : v.Sound threadId held' :=
  { h with
    once := h.move ((((hp.append_right _).append_right _).append_right _).append_right _) rfl }

theorem Sound.remove {idle : Idle Engine} (h : v.Sound threadId held) (hget : v.idle.get thread = some idle) :
    (v.remove thread idle).Sound threadId (idle.engine :: held) := by
  have hplaces : (v.places held).Perm ((v.remove thread idle).places (idle.engine :: held)) := by
    refine List.perm_iff_count.mpr fun x => ?_
    have hwarm := (warm_remove hget).count_eq x
    simp only [places, List.count_append, List.count_cons] at hwarm ⊢
    simp only [retired, replacing, Pool.remove] at hwarm ⊢
    omega
  refine { h with once := h.move hplaces rfl, key := fun t i hi => ?_ }
  have hi' : (v.idle.delete thread).get t = some i := hi
  rw [OrderedMap.get_delete] at hi'
  split at hi'
  · cases hi'
  · exact h.key t i hi'

omit [DecidableEq Engine] in
/-- A retirement that was there, or the one begun. -/
theorem getElem?_retireTracked {n : Nat} {r : Retirement Engine}
    (h : (v.retireTracked threadId engine).retirements[n]? = some r) :
    v.retirements[n]? = some r ∨ n = v.retirements.length ∧ r.engine = engine := by
  have h' : (v.retirements ++ [⟨engine, .running⟩])[n]? = some r := h
  rw [List.getElem?_append] at h'
  split at h'
  · exact .inl h'
  · rw [List.getElem?_singleton] at h'
    split at h'
    · obtain rfl := Option.some.inj h'
      exact .inr ⟨by omega, rfl⟩
    · cases h'

theorem Sound.retireTracked (h : v.Sound threadId (engine :: held)) (hfree : v.Free (threadId engine)) :
    (v.retireTracked threadId engine).Sound threadId held := by
  have hplaces : (v.places (engine :: held)).Perm ((v.retireTracked threadId engine).places held) := by
    refine List.perm_iff_count.mpr fun x => ?_
    have hretired : (v.retireTracked threadId engine).retired = v.retired ++ [engine] := by
      simp [retired, Pool.retireTracked]
    simp only [places, hretired, List.count_append, List.count_cons, List.count_nil]
    simp only [warm, replacing, Pool.retireTracked]
    omega
  refine { h with once := h.move hplaces rfl, tracked := fun n r hr hphase => ?_, awaited := fun t c hc n r hr hphase ht => ?_ }
  · obtain hr | ⟨rfl, rfl⟩ := getElem?_retireTracked hr
    · have htracked := h.tracked n r hr hphase
      have hne : threadId r.engine ≠ threadId engine := by
        intro heq
        rw [heq, hfree.1] at htracked
        cases htracked
      simpa [Pool.retireTracked, Function.update_of_ne hne] using htracked
    · simp [Pool.retireTracked]
  · obtain hr | ⟨rfl, rfl⟩ := getElem?_retireTracked hr
    · exact h.awaited t c hc n r hr hphase ht
    · exact absurd (congrArg some ht.symm) (hfree.2 _ hc)

/-- A call that waits, and neither takes nor replaces. -/
theorem Sound.trimming (h : v.Sound threadId held) (n : Nat) :
    ({ v with calls := v.calls ++ [Call.trimming n] } : Pool ThreadId Engine).Sound threadId held := by
  have hreplacing : ({ v with calls := v.calls ++ [Call.trimming n] } : Pool ThreadId Engine).replacing = v.replacing := by
    simp [replacing, Call.replacement, List.filterMap_append]
  refine { h with once := h.move (.of_eq ?_) rfl, awaited := fun t c hc => h.awaited t c (by simpa using hc) }
  exact congrArg (held ++ v.warm ++ v.handedOut ++ v.retired ++ ·) hreplacing.symm

theorem Sound.replacing (h : v.Sound threadId (engine :: held)) (n : Nat) :
    ({ v with calls := v.calls ++ [Call.replacing engine n] } : Pool ThreadId Engine).Sound threadId held := by
  have hreplacing : ({ v with calls := v.calls ++ [Call.replacing engine n] } : Pool ThreadId Engine).replacing =
      v.replacing ++ [engine] := by
    simp [Pool.replacing, Call.replacement, List.filterMap_append]
  refine { h with once := h.move (List.perm_iff_count.mpr fun x => ?_) rfl, awaited := fun t c hc => h.awaited t c ?_ }
  · simp only [places, hreplacing, List.count_append, List.count_cons, List.count_nil]
    simp only [warm, retired]
    omega
  · simpa using hc

theorem Sound.take (h : v.Sound threadId held) (thread : ThreadId) : (v.take thread).Sound threadId held := by
  have hreplacing : (v.take thread).replacing = v.replacing := by
    simp [Pool.replacing, Pool.take, Call.replacement, List.filterMap_append]
  refine { h with once := h.move (.of_eq ?_) rfl, awaited := fun t c hc n r hr hphase ht => ?_ }
  · exact congrArg (held ++ v.warm ++ v.handedOut ++ v.retired ++ ·) hreplacing.symm
  · have hc' : Call.taking t c ∈ v.calls ++ [Call.taking thread (v.retiring thread)] := hc
    obtain hc' | hc' := List.mem_append.mp hc'
    · exact h.awaited t c hc' n r hr hphase ht
    · simp only [List.mem_singleton, Call.taking.injEq] at hc'
      obtain ⟨rfl, rfl⟩ := hc'
      exact ht ▸ h.tracked n r hr hphase

/-- A call that goes on, with the engine it keeps. -/
theorem Sound.drop {i : Nat} {call : Call ThreadId Engine} (h : v.Sound threadId []) (hi : v.calls[i]? = some call) :
    ({ v with calls := v.calls.eraseIdx i } : Pool ThreadId Engine).Sound threadId call.replacement.toList := by
  have hperm : v.calls.Perm (call :: v.calls.eraseIdx i) := by
    obtain ⟨hlt, rfl⟩ := List.getElem?_eq_some_iff.mp hi
    exact (List.getElem_cons_eraseIdx_perm hlt).symm
  refine { h with once := h.move (List.perm_iff_count.mpr fun x => ?_) rfl, awaited := fun t c hc => h.awaited t c ?_ }
  · have hcount := (hperm.filterMap Call.replacement).count_eq x
    rw [List.filterMap_cons] at hcount
    simp only [places, List.count_append, List.count_nil, Pool.replacing, warm, retired]
    cases hcall : call.replacement with
    | none =>
      rw [hcall] at hcount
      dsimp only at hcount
      simp only [Option.toList_none, List.count_nil]
      omega
    | some e =>
      rw [hcall] at hcount
      simp only [Option.toList_some, List.count_cons, List.count_nil] at hcount ⊢
      omega
  · exact hperm.mem_iff.mpr (List.mem_cons_of_mem _ hc)

/-- A timer that is set or cleared. -/
theorem Sound.timers (h : v.Sound threadId held) (timers : List (Nat × Engine)) (nextTimer : Nat) :
    ({ v with timers, nextTimer } : Pool ThreadId Engine).Sound threadId held :=
  { h with once := h.once }

theorem Sound.store {idle : Idle Engine} (h : v.Sound threadId (idle.engine :: held))
    (hget : v.idle.get (threadId idle.engine) = none) :
    ({ v with idle := v.idle.set (threadId idle.engine) idle } : Pool ThreadId Engine).Sound threadId held := by
  refine { h with once := h.move (List.perm_iff_count.mpr fun x => ?_) rfl, key := fun t i hi => ?_ }
  · simp only [places, warm_set hget, List.count_append, List.count_cons, List.count_nil]
    simp only [retired, Pool.replacing]
    omega
  · have hi' : (v.idle.set (threadId idle.engine) idle).get t = some i := hi
    rw [OrderedMap.get_set] at hi'
    split at hi'
    · rename_i ht
      exact Option.some.inj hi' ▸ ht
    · exact h.key t i hi'

omit [DecidableEq ThreadId] [DecidableEq Engine] in
theorem oldest_mem {entries : List (ThreadId × Idle Engine)} {entry : ThreadId × Idle Engine}
    (h : oldest entries = some entry) : entry ∈ entries := by
  cases entries with
  | nil => cases h
  | cons first entries =>
    have hfold : ∀ (l : List (ThreadId × Idle Engine)) (first : ThreadId × Idle Engine),
        l.foldl (fun left right => if right.2.since < left.2.since then right else left) first ∈ first :: l := by
      intro l
      induction l with
      | nil => exact fun first => List.mem_cons_self
      | cons e l ih =>
        intro first
        rw [List.foldl_cons]
        obtain h | h := List.mem_cons.mp (ih (if e.2.since < first.2.since then e else first))
        · rw [h]
          split <;> simp
        · exact List.mem_cons_of_mem _ (List.mem_cons_of_mem _ h)
    exact Option.some.inj h ▸ hfold entries first

theorem Sound.trim (h : v.Sound threadId held) (hfree : ∀ engine ∈ overflow maxIdle v.idle, v.Free (threadId engine)) :
    (v.trim threadId maxIdle).Sound threadId held := by
  unfold Pool.trim
  split
  · rename_i hsize
    split
    · exact h
    · rename_i thread idle hold
      have hget : v.idle.get thread = some idle := OrderedMap.mem_entries.mp (oldest_mem hold)
      have hmem : idle.engine ∈ overflow maxIdle v.idle := by simp [overflow, hsize, hold]
      exact ((h.remove hget).retireTracked (hfree _ hmem)).trimming _
  · exact h

theorem Sound.insert {now : Int} (h : v.Sound threadId (engine :: held)) (hget : v.idle.get (threadId engine) = none)
    (hfree : ∀ e ∈ overflow maxIdle (v.idle.set (threadId engine) ⟨engine, v.nextTimer, now⟩), v.Free (threadId e)) :
    (v.insert threadId maxIdle engine now).Sound threadId held :=
  have hstore := (@Pool.Sound.store _ _ _ _ _ _ _ ⟨engine, v.nextTimer, now⟩) h hget
  (hstore.timers _ _).trim hfree

/-- The engine of a Run comes into the pool's hands. -/
theorem Sound.accept (h : v.Sound threadId []) (hput : engine ∈ v.given → engine ∈ v.handedOut) :
    ({ v with
      given := if engine ∈ v.given then v.given else v.given ++ [engine]
      handedOut := v.handedOut.erase engine } : Pool ThreadId Engine).Sound threadId [engine] := by
  refine { h with once := fun x => ?_ }
  have honce := h.once x
  simp only [places, List.count_append, List.count_nil, List.count_cons, List.count_erase, warm, retired,
    Pool.replacing] at honce ⊢
  by_cases hx : engine = x
  · subst hx
    by_cases hgiven : engine ∈ v.given
    · have hpos := List.count_pos_iff.mpr (hput hgiven)
      simp only [hgiven, if_true, beq_self_eq_true] at honce ⊢
      omega
    · simp only [hgiven, if_false, beq_self_eq_true, if_true] at honce ⊢
      simp
      omega
  · have hmem : (x ∈ if engine ∈ v.given then v.given else v.given ++ [engine]) ↔ x ∈ v.given := by
      split <;> simp [Ne.symm hx]
    simp only [hmem, beq_iff_eq, hx, if_false]
    omega

theorem Sound.put {now : Int} (h : v.Sound threadId []) (hput : engine ∈ v.given → engine ∈ v.handedOut)
    (hfree : ∀ e ∈ v.retires threadId maxIdle (.put engine now), v.Free (threadId e)) :
    (v.put threadId maxIdle engine now).Sound threadId [] := by
  have haccept := h.accept hput
  unfold Pool.put
  dsimp only [retires] at hfree
  dsimp only
  split
  · rename_i hclosed
    rw [if_pos hclosed] at hfree
    exact haccept.retireTracked (hfree engine List.mem_cons_self)
  · rename_i hclosed
    rw [if_neg hclosed] at hfree
    split
    · rename_i previous hget
      simp only [hget] at hfree
      have hremove := haccept.remove hget
      exact (hremove.retireTracked (hfree _ List.mem_cons_self)).replacing _
    · rename_i hget
      simp only [hget] at hfree
      exact haccept.insert hget hfree

/-- No engine of the Thread is being retired when `take` goes on. -/
theorem Sound.hand (h : v.Sound threadId held)
    (hended : ∀ (n : Nat) (r : Retirement Engine), v.retirements[n]? = some r → r.phase ≠ .finished → threadId r.engine ≠ thread) :
    (v.hand threadId thread).Sound threadId held := by
  have hunderWay : v.underWay threadId thread = [] := by
    simp only [underWay, List.map_eq_nil_iff, List.filter_eq_nil_iff, decide_eq_true_eq, not_and]
    intro r hr hphase
    obtain ⟨n, hn⟩ := List.getElem?_of_mem hr
    exact hended n r hn (by simp [hphase])
  have htaken (engine : Option Engine) : ∀ taken ∈ v.taken ++ [⟨thread, engine, v.underWay threadId thread⟩],
      taken.underWay = [] := by
    intro taken hmem
    obtain hmem | hmem := List.mem_append.mp hmem
    · exact h.taken taken hmem
    · rw [List.mem_singleton.mp hmem]
      exact hunderWay
  unfold Pool.hand
  split
  · exact { h with once := h.once, taken := htaken none }
  · rename_i idle hget
    have hremove := h.remove hget
    refine { hremove with once := hremove.move (List.perm_iff_count.mpr fun x => ?_) rfl, taken := htaken (some idle.engine) }
    simp only [places, List.count_append, List.count_cons]
    simp only [warm, retired, Pool.replacing]
    omega

/-- Entries of different Threads, one after the other. -/
theorem Sound.removeAll {entries : List (ThreadId × Idle Engine)} (h : v.Sound threadId held)
    (hnodup : (entries.map Prod.fst).Nodup) (hget : ∀ entry ∈ entries, v.idle.get entry.1 = some entry.2) :
    (entries.foldl (fun v entry => v.remove entry.1 entry.2) v).Sound threadId (entries.map (·.2.engine) ++ held) := by
  induction entries generalizing v held with
  | nil => exact h
  | cons entry entries ih =>
    obtain ⟨hnot, hnodup⟩ := List.nodup_cons.mp hnodup
    have hremove := h.remove (hget entry List.mem_cons_self)
    refine (ih hremove hnodup fun e he => ?_).perm List.perm_middle
    have hne : entry.1 ≠ e.1 := fun heq => hnot (heq ▸ List.mem_map_of_mem he)
    have hdelete : (v.idle.delete entry.1).get e.1 = v.idle.get e.1 := by rw [OrderedMap.get_delete, if_neg hne]
    exact hdelete.trans (hget e (List.mem_cons_of_mem _ he))

omit [DecidableEq Engine] in
theorem Free.retireTracked (h : v.Free thread) (hne : thread ≠ threadId engine) :
    (v.retireTracked threadId engine).Free thread :=
  ⟨(Function.update_of_ne hne _ _).trans h.1, h.2⟩

theorem Sound.retireAll {entries : List (ThreadId × Idle Engine)} (h : v.Sound threadId (entries.map (·.2.engine) ++ held))
    (hnodup : (entries.map Prod.fst).Nodup) (hkey : ∀ entry ∈ entries, threadId entry.2.engine = entry.1)
    (hfree : ∀ entry ∈ entries, v.Free entry.1) :
    (entries.foldl (fun v entry => v.retireTracked threadId entry.2.engine) v).Sound threadId held := by
  induction entries generalizing v with
  | nil => exact h
  | cons entry entries ih =>
    obtain ⟨hnot, hnodup⟩ := List.nodup_cons.mp hnodup
    have hentry := hkey entry List.mem_cons_self
    have hretire := h.retireTracked (hentry ▸ hfree entry List.mem_cons_self)
    refine ih hretire hnodup (fun e he => hkey e (List.mem_cons_of_mem _ he)) fun e he => ?_
    refine (hfree e (List.mem_cons_of_mem _ he)).retireTracked ?_
    rw [hentry]
    exact fun heq => hnot (heq ▸ List.mem_map_of_mem he)

omit [DecidableEq Engine] in
theorem free_foldl_remove (entries : List (ThreadId × Idle Engine)) (thread : ThreadId) :
    (entries.foldl (fun v entry => v.remove entry.1 entry.2) v).Free thread ↔ v.Free thread := by
  induction entries generalizing v with
  | nil => rfl
  | cons entry entries ih => exact ih

theorem Sound.evict {predicate : Engine → Bool} (h : v.Sound threadId [])
    (hfree : ∀ engine ∈ v.warm.filter predicate, v.Free (threadId engine)) : (v.evict threadId predicate).Sound threadId [] := by
  unfold Pool.evict
  generalize hentries : v.idle.entries.filter (fun entry => predicate entry.2.engine) = entries
  have hmem {entry} (he : entry ∈ entries) : entry ∈ v.idle.entries ∧ predicate entry.2.engine := by
    rw [← hentries] at he
    exact List.mem_filter.mp he
  have hnodup : (entries.map Prod.fst).Nodup := by
    rw [← hentries]
    exact v.idle.nodup.sublist (List.filter_sublist.map _)
  have hget : ∀ entry ∈ entries, v.idle.get entry.1 = some entry.2 := fun entry he => OrderedMap.mem_entries.mp (hmem he).1
  have hkey : ∀ entry ∈ entries, threadId entry.2.engine = entry.1 := fun entry he => h.key _ _ (hget entry he)
  refine (h.removeAll hnodup hget).retireAll hnodup hkey fun entry he => ?_
  rw [free_foldl_remove, ← hkey entry he]
  refine hfree _ (List.mem_filter.mpr ⟨?_, (hmem he).2⟩)
  exact List.mem_map_of_mem (List.mem_map_of_mem (hmem he).1)

theorem Sound.close (h : v.Sound threadId []) (hfree : ∀ engine ∈ v.warm, v.Free (threadId engine)) :
    (v.close threadId).Sound threadId [] := by
  have hclosed : ({ v with closed := true } : Pool ThreadId Engine).Sound threadId [] := { h with once := h.once }
  exact hclosed.evict fun engine hmem => hfree engine (List.mem_filter.mp hmem).1

theorem Sound.expire {i : Nat} (h : v.Sound threadId [])
    (hfree : ∀ e ∈ v.retires threadId maxIdle (.expire i), v.Free (threadId e)) (hs : v.expire threadId i = some w) :
    w.Sound threadId [] := by
  obtain ⟨⟨n, engine⟩, htimer, rfl⟩ := Option.map_eq_some_iff.mp hs
  have htimers := h.timers (v.timers.eraseIdx i) v.nextTimer
  dsimp only
  split
  · exact htimers
  · rename_i hengine
    rw [not_not] at hengine
    obtain ⟨idle, hget, rfl⟩ := Option.map_eq_some_iff.mp hengine
    have hretires : idle.engine ∈ v.retires threadId maxIdle (.expire i) := by simp [retires, htimer, hget]
    exact ((htimers.remove hget).timers (v.timers.eraseIdx i) v.nextTimer).retireTracked (hfree _ hretires)

/-- A retirement goes on. -/
theorem Sound.mark {i : Nat} {r r' : Retirement Engine} {retiring : ThreadId → Option Nat} (h : v.Sound threadId [])
    (hr : v.retirements[i]? = some r) (hengine : r'.engine = r.engine) (hphase : r'.phase ≠ .finished → r.phase ≠ .finished)
    (hretiring : ∀ (n : Nat) (s : Retirement Engine), (v.retirements.set i r')[n]? = some s → s.phase ≠ .finished → v.retiring (threadId s.engine) = some n →
      retiring (threadId s.engine) = some n) :
    ({ v with retirements := v.retirements.set i r', retiring } : Pool ThreadId Engine).Sound threadId [] := by
  have hset {n : Nat} {s : Retirement Engine} (hs : (v.retirements.set i r')[n]? = some s) (hunfinished : s.phase ≠ .finished) :
      ∃ s', v.retirements[n]? = some s' ∧ s'.engine = s.engine ∧ s'.phase ≠ .finished := by
    by_cases hn : i = n
    · subst hn
      obtain ⟨hlt, -⟩ := List.getElem?_eq_some_iff.mp hr
      rw [List.getElem?_set_self hlt] at hs
      obtain rfl := Option.some.inj hs
      exact ⟨r, hr, hengine.symm, hphase hunfinished⟩
    · rw [List.getElem?_set_ne hn] at hs
      exact ⟨s, hs, rfl, hunfinished⟩
  refine { h with once := h.move (.of_eq ?_) rfl, tracked := fun n s hs hunfinished => ?_, awaited := fun t c hc n s hs hunfinished ht => ?_ }
  · have hretired : (v.retirements.set i r').map (·.engine) = v.retirements.map (·.engine) := by
      obtain ⟨hlt, rfl⟩ := List.getElem?_eq_some_iff.mp hr
      rw [List.map_set, hengine, ← List.map_set, List.set_getElem_self]
    exact congrArg (([] : List Engine) ++ v.warm ++ v.handedOut ++ · ++ v.replacing) hretired.symm
  · obtain ⟨s', hs', hs'engine, hs'phase⟩ := hset hs hunfinished
    exact hretiring n s hs hunfinished (hs'engine ▸ h.tracked n s' hs' hs'phase)
  · obtain ⟨s', hs', hs'engine, hs'phase⟩ := hset hs hunfinished
    exact h.awaited t c hc n s' hs' hs'phase (hs'engine ▸ ht)

theorem Sound.settle {i : Nat} (h : v.Sound threadId []) (hs : v.settle i = some w) : w.Sound threadId [] := by
  unfold Pool.settle at hs
  split at hs
  · rename_i engine hr
    obtain rfl := Option.some.inj hs
    exact h.mark hr rfl (fun _ => by simp) fun n s _ _ htracked => htracked
  · cases hs

theorem Sound.finish {i : Nat} (h : v.Sound threadId []) (hs : v.finish threadId i = some w) : w.Sound threadId [] := by
  unfold Pool.finish at hs
  split at hs
  · rename_i engine hr
    obtain rfl := Option.some.inj hs
    refine h.mark hr rfl (fun hphase => absurd rfl hphase) fun n s hset hunfinished htracked => ?_
    split
    · rename_i hown
      by_cases ht : threadId s.engine = threadId engine
      · -- the retirement of the entry is the one that has finished
        rw [ht, hown] at htracked
        obtain rfl := Option.some.inj htracked
        obtain ⟨hlt, -⟩ := List.getElem?_eq_some_iff.mp hr
        rw [List.getElem?_set_self hlt] at hset
        obtain rfl := Option.some.inj hset
        exact absurd rfl hunfinished
      · rwa [Function.update_of_ne ht]
    · exact htracked
  · cases hs

omit [DecidableEq Engine] in
theorem of_ready {i retiring : Nat} {now : Int} (hcall : v.calls[i]? = some (.replacing engine retiring))
    (h : v.ready threadId (.resume i now) = true) : v.closed = false ∧ v.idle.get (threadId engine) = none := by
  simpa [ready, hcall] using h

theorem Sound.resume {i : Nat} {now : Int} (h : v.Sound threadId []) (horderly : v.Orderly threadId maxIdle (.resume i now))
    (hs : v.resume threadId maxIdle i now = some w) : w.Sound threadId [] := by
  obtain ⟨hfree, hready⟩ := horderly
  unfold Pool.resume at hs
  dsimp only [retires] at hfree
  have hrest {thread} (hthread : v.Free thread) : ({ v with calls := v.calls.eraseIdx i } : Pool ThreadId Engine).Free thread :=
    ⟨hthread.1, fun call hc => hthread.2 call (List.mem_of_mem_eraseIdx hc)⟩
  dsimp only at hs
  cases hcall : v.calls[i]? with
  | none =>
    rw [hcall] at hs
    cases hs
  | some call =>
    have hdrop := h.drop hcall
    rw [hcall] at hs
    simp only [hcall] at hfree
    cases call with
    | taking thread retiring =>
      obtain ⟨hended, hs⟩ := Option.ite_none_right_eq_some.mp hs
      obtain rfl := Option.some.inj hs
      refine hdrop.hand fun n r hr hphase ht => ?_
      -- what is not finished is what the call has waited for, and that has ended
      obtain rfl := h.awaited thread retiring (List.mem_of_getElem? hcall) n r hr hphase ht
      simp only [Option.all_some, ended, hr, Option.any_some, decide_eq_true_eq] at hended
      exact hphase hended
    | replacing engine retiring =>
      obtain ⟨-, hs⟩ := Option.ite_none_right_eq_some.mp hs
      obtain rfl := Option.some.inj hs
      exact hdrop.insert (of_ready hcall hready).2 fun e he => hrest (hfree e he)
    | trimming retiring =>
      obtain ⟨-, hs⟩ := Option.ite_none_right_eq_some.mp hs
      obtain rfl := Option.some.inj hs
      exact hdrop.trim fun e he => hrest (hfree e he)

/-- Every orderly action keeps the invariant. -/
theorem Sound.step {a : Action ThreadId Engine} (h : v.Sound threadId []) (horderly : v.Orderly threadId maxIdle a)
    (hs : (machine threadId maxIdle).step v a = some w) : w.Sound threadId [] := by
  cases a with
  | put engine now =>
    obtain ⟨hput, hs⟩ := Option.ite_none_right_eq_some.mp hs
    obtain rfl := Option.some.inj hs
    exact h.put hput horderly.1
  | take thread =>
    obtain rfl := Option.some.inj hs
    exact h.take thread
  | evict predicate =>
    obtain rfl := Option.some.inj hs
    exact h.evict horderly.1
  | close =>
    obtain rfl := Option.some.inj hs
    exact h.close horderly.1
  | expire i => exact h.expire horderly.1 hs
  | settle i => exact h.settle hs
  | finish i => exact h.finish hs
  | resume i now => exact h.resume horderly hs

/-! ## What is idle -/

omit [DecidableEq ThreadId] [DecidableEq Engine] in
/-- Idle engines that go leave what fits. -/
theorem Fits.shrink (h : v.Fits maxIdle) (hidle : w.idle.entries.Sublist v.idle.entries) (hclosed : w.closed = v.closed) :
    w.Fits maxIdle := by
  refine ⟨Nat.le_trans hidle.length_le h.room, fun hw => ?_⟩
  have hnil := h.closed (hclosed ▸ hw)
  rw [hnil] at hidle
  exact List.sublist_nil.mp hidle

omit [DecidableEq Engine] in
theorem fits_trim (hroom : v.idle.size ≤ maxIdle + 1) (hclosed : v.closed = true → v.idle.entries = []) :
    (v.trim threadId maxIdle).Fits maxIdle := by
  unfold Pool.trim
  split
  · rename_i hsize
    split
    · rename_i hold
      cases hentries : v.idle.entries with
      | nil => simp [OrderedMap.size, hentries] at hsize
      | cons entry entries => simp [oldest, hentries] at hold
    · rename_i thread idle hold
      have hget : v.idle.get thread = some idle := OrderedMap.mem_entries.mp (oldest_mem hold)
      have hdelete := OrderedMap.size_delete hget
      refine ⟨show (v.idle.delete thread).size ≤ maxIdle by omega, fun hw => ?_⟩
      have hsub := v.idle.entries_delete thread
      rw [hclosed hw] at hsub
      exact List.sublist_nil.mp hsub
  · exact ⟨by omega, hclosed⟩

omit [DecidableEq Engine] in
theorem Fits.insert {now : Int} (h : v.Fits maxIdle) (hopen : v.closed = false) :
    (v.insert threadId maxIdle engine now).Fits maxIdle := by
  have hsize := v.idle.size_set (threadId engine) ⟨engine, v.nextTimer, now⟩
  have hroom := h.room
  refine fits_trim (show (v.idle.set (threadId engine) ⟨engine, v.nextTimer, now⟩).size ≤ maxIdle + 1 from ?_)
    fun hclosed => ?_
  · split at hsize <;> omega
  · cases hopen.symm.trans hclosed

omit [DecidableEq Engine] in
theorem foldl_remove (entries : List (ThreadId × Idle Engine)) :
    (entries.foldl (fun v entry => v.remove entry.1 entry.2) v).idle = (entries.map Prod.fst).foldl OrderedMap.delete v.idle ∧
      (entries.foldl (fun v entry => v.remove entry.1 entry.2) v).closed = v.closed := by
  induction entries generalizing v with
  | nil => exact ⟨rfl, rfl⟩
  | cons entry entries ih => exact ih

omit [DecidableEq Engine] in
theorem foldl_retireTracked (entries : List (ThreadId × Idle Engine)) :
    (entries.foldl (fun v entry => v.retireTracked threadId entry.2.engine) v).idle = v.idle ∧
      (entries.foldl (fun v entry => v.retireTracked threadId entry.2.engine) v).closed = v.closed := by
  induction entries generalizing v with
  | nil => exact ⟨rfl, rfl⟩
  | cons entry entries ih => exact ih

omit [DecidableEq Engine] in
theorem idle_evict (v : Pool ThreadId Engine) (predicate : Engine → Bool) :
    (v.evict threadId predicate).idle =
        ((v.idle.entries.filter fun entry => predicate entry.2.engine).map Prod.fst).foldl OrderedMap.delete v.idle ∧
      (v.evict threadId predicate).closed = v.closed := by
  have hremove := foldl_remove (v := v) (v.idle.entries.filter fun entry => predicate entry.2.engine)
  exact ⟨(foldl_retireTracked _).1.trans hremove.1, (foldl_retireTracked _).2.trans hremove.2⟩

omit [DecidableEq Engine] in
theorem Fits.evict (h : v.Fits maxIdle) (predicate : Engine → Bool) : (v.evict threadId predicate).Fits maxIdle := by
  obtain ⟨hidle, hclosed⟩ := @idle_evict _ _ _ threadId v predicate
  exact h.shrink (hidle ▸ OrderedMap.entries_foldl_delete _ _) hclosed

omit [DecidableEq Engine] in
/-- A pool that is closed has nothing idle. -/
theorem fits_close : (v.close threadId).Fits maxIdle := by
  obtain ⟨hidle, -⟩ := @idle_evict _ _ _ threadId { v with closed := true } fun _ => true
  have hnil : (v.close threadId).idle.entries = [] := by
    refine OrderedMap.entries_eq_nil_iff.mpr fun t => ?_
    unfold Pool.close
    rw [hidle, OrderedMap.get_foldl_delete]
    split
    · rfl
    · rename_i hmem
      refine Option.not_isSome_iff_eq_none.mp fun hsome => hmem ?_
      rw [List.filter_true]
      exact OrderedMap.mem_keys.mpr hsome
  exact ⟨by simp [OrderedMap.size, hnil], fun _ => hnil⟩

theorem Fits.step {a : Action ThreadId Engine} (h : v.Fits maxIdle) (horderly : v.Orderly threadId maxIdle a)
    (hs : (machine threadId maxIdle).step v a = some w) : w.Fits maxIdle := by
  cases a with
  | put engine now =>
    obtain ⟨-, hs⟩ := Option.ite_none_right_eq_some.mp hs
    obtain rfl := Option.some.inj hs
    unfold Pool.put
    dsimp only
    split
    · exact h.shrink (.refl _) rfl
    · rename_i hopen
      split
      · exact h.shrink (OrderedMap.entries_delete _ _) rfl
      · have haccept : ({ v with
            given := if engine ∈ v.given then v.given else v.given ++ [engine]
            handedOut := v.handedOut.erase engine } : Pool ThreadId Engine).Fits maxIdle := h.shrink (.refl _) rfl
        exact haccept.insert (by simpa using hopen)
  | take thread =>
    obtain rfl := Option.some.inj hs
    exact h.shrink (.refl _) rfl
  | evict predicate =>
    obtain rfl := Option.some.inj hs
    exact h.evict predicate
  | close =>
    obtain rfl := Option.some.inj hs
    exact fits_close
  | expire i =>
    obtain ⟨⟨n, engine⟩, -, rfl⟩ := Option.map_eq_some_iff.mp hs
    dsimp only
    split
    · exact h.shrink (.refl _) rfl
    · exact h.shrink (OrderedMap.entries_delete _ _) rfl
  | settle i =>
    have hs : v.settle i = some w := hs
    unfold Pool.settle at hs
    split at hs
    · obtain rfl := Option.some.inj hs
      exact h.shrink (.refl _) rfl
    · cases hs
  | finish i =>
    have hs : v.finish threadId i = some w := hs
    unfold Pool.finish at hs
    split at hs
    · obtain rfl := Option.some.inj hs
      exact h.shrink (.refl _) rfl
    · cases hs
  | resume i now =>
    have hrest : ({ v with calls := v.calls.eraseIdx i } : Pool ThreadId Engine).Fits maxIdle := h.shrink (.refl _) rfl
    have hs : v.resume threadId maxIdle i now = some w := hs
    unfold Pool.resume at hs
    split at hs
    · obtain ⟨-, hs⟩ := Option.ite_none_right_eq_some.mp hs
      obtain rfl := Option.some.inj hs
      unfold Pool.hand
      split
      · exact h.shrink (.refl _) rfl
      · exact h.shrink (OrderedMap.entries_delete _ _) rfl
    · rename_i engine retiring hcall
      obtain ⟨-, hs⟩ := Option.ite_none_right_eq_some.mp hs
      obtain rfl := Option.some.inj hs
      exact hrest.insert (of_ready hcall horderly.2).1
    · obtain ⟨-, hs⟩ := Option.ite_none_right_eq_some.mp hs
      obtain rfl := Option.some.inj hs
      exact fits_trim (Nat.le_trans hrest.room (Nat.le_succ _)) hrest.closed
    · cases hs

end Stretch

end Pool

/-! ## Runs -/

open Pool

theorem Pool.Sound.keeps_iff {v : Pool ThreadId Engine} (hsound : v.Sound threadId []) (hfits : v.Fits maxIdle) :
    v.Keeps threadId maxIdle ↔ v.replacing = [] := by
  have honce (x : Engine) : v.warm.count x + v.handedOut.count x + v.retired.count x + v.replacing.count x =
      if x ∈ v.given then 1 else 0 := by
    simpa [places, List.count_append, Nat.add_assoc] using hsound.once x
  constructor
  · intro hkeeps
    refine List.eq_nil_iff_forall_not_mem.mpr fun x hx => ?_
    have hpos := List.count_pos_iff.mpr hx
    have hx' := honce x
    by_cases hgiven : x ∈ v.given
    · have hkept := hkeeps.once x hgiven
      rw [if_pos hgiven] at hx'
      omega
    · rw [if_neg hgiven] at hx'
      omega
  · intro hreplacing
    refine ⟨fun x hx => ?_, fun thread => ?_, hsound.taken, hfits.room, fun hclosed => ?_⟩
    · have hx' := honce x
      rw [if_pos hx, hreplacing, List.count_nil] at hx'
      exact hx'
    · have hfilter := v.idle.filter_flatMap (k := thread) (fun idle => [idle.engine]) (threadId · = thread) ?_
      · have hwarm : v.warm = v.idle.values.flatMap fun idle => [idle.engine] := List.map_eq_flatMap
        rw [hwarm, hfilter]
        cases v.idle.get thread <;> simp
      · intro t idle hget engine hmem
        rw [List.mem_singleton.mp hmem, hsound.key t idle hget]
        simp
    · simp [warm, OrderedMap.values, hfits.closed hclosed]

/-- In a run of orderly steps, the pool keeps what it is for at every moment at which no `put` waits for the
engine it replaces, and at no other. -/
theorem pool_keeps_iff {actions : List (Action ThreadId Engine)} {v : Pool ThreadId Engine}
    (horderly : (machine threadId maxIdle).Meets (Orderly threadId maxIdle) initial actions)
    (hrun : (machine threadId maxIdle).run initial actions = some v) : v.Keeps threadId maxIdle ↔ v.replacing = [] := by
  have hsound : (initial : Pool ThreadId Engine).Sound threadId [] := by
    refine ⟨fun x => ?_, fun t idle h => ?_, fun n r h => ?_, fun t c h => ?_, fun taken h => ?_⟩
    · rfl
    · cases h
    · cases h
    · exact absurd h List.not_mem_nil
    · exact absurd h List.not_mem_nil
  have hfits : (initial : Pool ThreadId Engine).Fits maxIdle := ⟨Nat.zero_le _, fun h => nomatch h⟩
  have hrun' := (machine threadId maxIdle).run_invariant (P := fun v => v.Sound threadId [] ∧ v.Fits maxIdle)
    ⟨hsound, hfits⟩ (fun s a t h ho hs => ⟨h.1.step ho hs, h.2.step ho hs⟩) horderly hrun
  exact hrun'.1.keeps_iff threadId maxIdle hrun'.2

/-- A Thread's engine that is taken, put again and replaced, with nothing else under way. -/
def replaced : List (Action Nat (Nat × Nat)) :=
  [.put (1, 1) 0, .take 1, .resume 0 0, .put (1, 1) 1, .put (1, 2) 2, .settle 0, .finish 0, .resume 0 3, .put (2, 1) 4, .close]

theorem pool_keeps_replaced : ∃ v, (machine Prod.fst 1).run initial replaced = some v ∧ v.Keeps Prod.fst 1 := by
  obtain ⟨v, hrun, hnil⟩ := (machine Prod.fst 1).exists_run_of_any (s := initial) (l := replaced)
    (P := fun v => v.replacing = []) (by decide)
  exact ⟨v, hrun, (pool_keeps_iff Prod.fst 1 (by decide) hrun).mpr hnil⟩

/-- An engine that is evicted while `take` waits for nothing. -/
def evicted : List (Action Nat (Nat × Nat)) := [.put (1, 1) 0, .take 1, .evict fun _ => true, .resume 0 0]

theorem not_keeps_evicted : ∃ v, (machine Prod.fst 8).run initial evicted = some v ∧ ¬ v.Keeps Prod.fst 8 := by
  obtain ⟨v, hrun, htaken⟩ := (machine Prod.fst 8).exists_run_of_any (s := initial) (l := evicted)
    (P := fun v => v.taken.map (·.underWay) = [[(1, 1)]]) (by decide)
  refine ⟨v, hrun, fun hkeeps => ?_⟩
  obtain ⟨taken, hmem, hunderWay⟩ := List.mem_map.mp (htaken ▸ List.mem_singleton.mpr rfl : [(1, 1)] ∈ v.taken.map (·.underWay))
  cases hunderWay.symm.trans (hkeeps.taken taken hmem)

end Opensteer.WarmEnginePool
