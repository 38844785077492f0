import Opensteer.SurfaceLedger.Attribution

/-!
# The calls in flight

`Calls` is the invariant: a call in flight has begun and has not ended, no attempt ends twice or begins twice, and
no navigation id is given twice.
-/

namespace Opensteer.SurfaceLedger

/-! ## The log -/

def Entry.attempt? : Entry → Option Nat
  | .answered attempt _ => some attempt
  | .failed attempt => some attempt
  | _ => none

def Entry.begunAttempt? : Entry → Option Nat
  | .began _ attempt _ _ _ => some attempt
  | _ => none

/-- The attempts that have ended. -/
def ended (log : List Entry) : List Nat := log.filterMap Entry.attempt?

/-- The attempts with a navigation id. -/
def attempts (log : List Entry) : List Nat := log.filterMap Entry.begunAttempt?

def commitKeys (log : List Entry) : List String :=
  (commits log).map fun commit => commitKey commit.loaderId commit.sequence

section

variable (log log' : List Entry)

@[simp] theorem ended_append : ended (log ++ log') = ended log ++ ended log' := List.filterMap_append

@[simp] theorem attempts_append : attempts (log ++ log') = attempts log ++ attempts log' := List.filterMap_append

@[simp] theorem commitKeys_append : commitKeys (log ++ log') = commitKeys log ++ commitKeys log' := by
  rw [commitKeys, commits_append, List.map_append, commitKeys, commitKeys]

end

variable {log : List Entry} {navigationId id : NavigationId} {attempt : Nat}

theorem mem_ended_of_answered {result : NavigateResult} (h : Entry.answered attempt result ∈ log) : attempt ∈ ended log :=
  List.mem_filterMap.mpr ⟨_, h, rfl⟩

theorem mem_ended_of_failed (h : Entry.failed attempt ∈ log) : attempt ∈ ended log :=
  List.mem_filterMap.mpr ⟨_, h, rfl⟩

theorem mem_attempts {url : String} {documentId sequence : Nat}
    (h : Entry.began navigationId attempt url documentId sequence ∈ log) : attempt ∈ attempts log :=
  List.mem_filterMap.mpr ⟨_, h, rfl⟩

section

variable {entry : Entry}

theorem Entry.begun?_of_attempt? (h : entry.attempt? = some attempt) : entry.begun? = none := by
  cases entry <;> first | rfl | cases h

theorem Entry.begunAttempt?_of_begun? (h : entry.begun? = none) : entry.begunAttempt? = none := by
  cases entry <;> first | rfl | cases h

theorem ended_snoc (h : entry.attempt? = none) : ended (log ++ [entry]) = ended log := by
  rw [ended_append, ended, ended, List.filterMap_cons_none h, List.filterMap_nil, List.append_nil]

theorem ended_snoc_attempt (h : entry.attempt? = some attempt) : ended (log ++ [entry]) = ended log ++ [attempt] := by
  rw [ended_append, ended, ended, List.filterMap_cons_some h, List.filterMap_nil]

theorem attempts_snoc (h : entry.begun? = none) : attempts (log ++ [entry]) = attempts log := by
  rw [attempts_append, attempts, attempts, List.filterMap_cons_none (Entry.begunAttempt?_of_begun? h), List.filterMap_nil,
    List.append_nil]

theorem begun_snoc (h : entry.begun? = none) : begun (log ++ [entry]) = begun log := by
  rw [begun_append, begun, begun, List.filterMap_cons_none h, List.filterMap_nil, List.append_nil]

theorem began_mem_snoc (h : entry.begun? = none) {url : String} {documentId sequence : Nat} :
    Entry.began id attempt url documentId sequence ∈ log ++ [entry] ↔
      Entry.began id attempt url documentId sequence ∈ log := by
  rw [List.mem_append, List.mem_singleton]
  refine ⟨fun hmem => hmem.resolve_right ?_, .inl⟩
  rintro rfl
  cases h

end

/-- Of entries that are listed once, two that are listed alike are one. -/
theorem eq_of_nodup_filterMap {α β : Type} {f : α → Option β} {l : List α} (h : (l.filterMap f).Nodup) {x y : α} {b : β}
    (hx : x ∈ l) (hy : y ∈ l) (hfx : f x = some b) (hfy : f y = some b) : x = y := by
  induction l with
  | nil => exact absurd hx List.not_mem_nil
  | cons z l ih =>
    have hnotin (hz : f z = some b) {w : α} (hw : w ∈ l) (hfw : f w = some b) : False := by
      rw [List.filterMap_cons_some hz] at h
      exact (List.nodup_cons.mp h).1 (List.mem_filterMap.mpr ⟨w, hw, hfw⟩)
    have htail : (l.filterMap f).Nodup := by
      cases hz : f z with
      | none => rwa [List.filterMap_cons_none hz] at h
      | some c =>
        rw [List.filterMap_cons_some hz] at h
        exact (List.nodup_cons.mp h).2
    rcases List.mem_cons.mp hx with rfl | hxl
    · rcases List.mem_cons.mp hy with rfl | hyl
      · rfl
      · exact (hnotin hfx hyl hfy).elim
    · rcases List.mem_cons.mp hy with rfl | hyl
      · exact (hnotin hfy hxl hfx).elim
      · exact ih htail hxl hyl

/-! ## Calls -/

/-- The calls in flight are those that have not ended, and each has the navigation id it began with. -/
structure Calls (s : State) : Prop where
  nodup : (s.calls.map Call.attempt).Nodup
  open_ : ∀ call ∈ s.calls, call.attempt ≤ s.navigationAttempt ∧ call.attempt ∉ ended s.log
  known : ∀ call ∈ s.calls, ∀ navigationId, call.navigationId = some navigationId ↔
    ∃ url documentId sequence, Entry.began navigationId call.attempt url documentId sequence ∈ s.log
  counted : ∀ attempt, attempt ∈ ended s.log ∨ attempt ∈ attempts s.log → attempt ≤ s.navigationAttempt
  once : (ended s.log).Nodup
  begunOnce : (attempts s.log).Nodup
  distinct : (begun s.log).Nodup

variable {s : State}

theorem calls_start (url : String) : Calls (start url) where
  nodup := List.nodup_nil
  open_ := fun _ h => absurd h List.not_mem_nil
  known := fun _ h => absurd h List.not_mem_nil
  counted := fun _ h => (h.elim (fun h => absurd h List.not_mem_nil) fun h => absurd h List.not_mem_nil)
  once := List.nodup_nil
  begunOnce := List.nodup_nil
  distinct := List.nodup_nil

/-- An entry that neither begins nor ends a call. -/
theorem Calls.grow (h : Calls s) {t : State} {entry : Entry} (hlog : t.log = s.log ++ [entry])
    (hcalls : t.calls = s.calls) (hcount : t.navigationAttempt = s.navigationAttempt) (hattempt : entry.attempt? = none)
    (hbegun : entry.begun? = none) : Calls t := by
  have hended : ended t.log = ended s.log := hlog ▸ ended_snoc hattempt
  have hattempts : attempts t.log = attempts s.log := hlog ▸ attempts_snoc hbegun
  have hbegunLog : begun t.log = begun s.log := hlog ▸ begun_snoc hbegun
  refine ⟨?_, ?_, ?_, ?_, ?_, ?_, ?_⟩
  · rw [hcalls]
    exact h.nodup
  · rw [hcalls, hcount, hended]
    exact h.open_
  · rw [hcalls]
    intro call hcall navigationId
    simp only [hlog, began_mem_snoc hbegun]
    exact h.known call hcall navigationId
  · rw [hended, hattempts, hcount]
    exact h.counted
  · rw [hended]
    exact h.once
  · rw [hattempts]
    exact h.begunOnce
  · rw [hbegunLog]
    exact h.distinct

/-- Of a state, `Calls` is about its log and its calls. -/
theorem Calls.of_eq (h : Calls s) {t : State} (hlog : t.log = s.log) (hcalls : t.calls = s.calls)
    (hcount : t.navigationAttempt = s.navigationAttempt) : Calls t := by
  obtain ⟨hnodup, hopen, hknown, hcounted, honce, hbegunOnce, hdistinct⟩ := h
  refine ⟨?_, ?_, ?_, ?_, ?_, ?_, ?_⟩
  · rwa [hcalls]
  · rwa [hcalls, hcount, hlog]
  · rwa [hcalls, hlog]
  · rwa [hlog, hcount]
  · rwa [hlog]
  · rwa [hlog]
  · rwa [hlog]

/-- A call that ends is no longer in flight. -/
theorem Calls.ends (h : Calls s) {t : State} {call : Call} {entry : Entry} (hcall : call ∈ s.calls)
    (hlog : t.log = s.log ++ [entry]) (hcalls : t.calls = s.calls.filter fun call' => call'.attempt ≠ call.attempt)
    (hcount : t.navigationAttempt = s.navigationAttempt) (hattempt : entry.attempt? = some call.attempt) : Calls t := by
  have hbegun : entry.begun? = none := Entry.begun?_of_attempt? hattempt
  have hended : ended t.log = ended s.log ++ [call.attempt] := hlog ▸ ended_snoc_attempt hattempt
  have hattempts : attempts t.log = attempts s.log := hlog ▸ attempts_snoc hbegun
  have hbegunLog : begun t.log = begun s.log := hlog ▸ begun_snoc hbegun
  have hfree := (h.open_ call hcall).2
  refine ⟨?_, fun call' hcall' => ?_, fun call' hcall' navigationId => ?_, fun attempt hmem => ?_, ?_, ?_, ?_⟩
  · rw [hcalls]
    exact List.Nodup.sublist (List.Sublist.map _ List.filter_sublist) h.nodup
  · rw [hcalls, List.mem_filter, decide_eq_true_eq] at hcall'
    obtain ⟨hmem, hne⟩ := hcall'
    rw [hcount, hended, List.mem_append, List.mem_singleton]
    exact ⟨(h.open_ call' hmem).1, fun hin => hin.elim (h.open_ call' hmem).2 hne⟩
  · rw [hcalls, List.mem_filter] at hcall'
    simp only [hlog, began_mem_snoc hbegun]
    exact h.known call' hcall'.1 navigationId
  · rw [hended, hattempts, List.mem_append, List.mem_singleton] at hmem
    rw [hcount]
    rcases hmem with (hmem | rfl) | hmem
    · exact h.counted attempt (.inl hmem)
    · exact (h.open_ call hcall).1
    · exact h.counted attempt (.inr hmem)
  · rw [hended, List.nodup_append]
    refine ⟨h.once, List.nodup_singleton _, fun n hn m hm heq => ?_⟩
    rw [heq, List.mem_singleton.mp hm] at hn
    exact hfree hn
  · rw [hattempts]
    exact h.begunOnce
  · rw [hbegunLog]
    exact h.distinct

theorem Calls.begin (h : Calls s) {t : State} {url : String} {documentId sequence : Nat}
    (hlog : t.log = s.log ++ [Entry.began navigationId (s.navigationAttempt + 1) url documentId sequence])
    (hcalls : t.calls = s.calls ++ [⟨s.navigationAttempt + 1, some navigationId⟩])
    (hcount : t.navigationAttempt = s.navigationAttempt + 1) (hnew : navigationId ∉ begun s.log) : Calls t := by
  have hended : ended t.log = ended s.log := by
    rw [hlog, ended_append]
    exact List.append_nil _
  have hattempts : attempts t.log = attempts s.log ++ [s.navigationAttempt + 1] := by
    rw [hlog, attempts_append]
    rfl
  have hbegun : begun t.log = begun s.log ++ [navigationId] := by
    rw [hlog, begun_append]
    rfl
  have hfresh {attempt : Nat} (hle : attempt ≤ s.navigationAttempt) : attempt ≠ s.navigationAttempt + 1 :=
    Nat.ne_of_lt (Nat.lt_succ_of_le hle)
  refine ⟨?_, fun call hcall => ?_, fun call hcall id => ?_, fun attempt hmem => ?_, ?_, ?_, ?_⟩
  · rw [hcalls, List.map_append, List.nodup_append]
    refine ⟨h.nodup, List.nodup_singleton _, fun n hn m hm => ?_⟩
    obtain ⟨call, hcall, rfl⟩ := List.mem_map.mp hn
    rw [List.mem_singleton.mp hm]
    exact hfresh (h.open_ call hcall).1
  · rw [hcalls, List.mem_append, List.mem_singleton] at hcall
    rw [hcount, hended]
    rcases hcall with hcall | rfl
    · exact ⟨Nat.le_succ_of_le (h.open_ call hcall).1, (h.open_ call hcall).2⟩
    · exact ⟨Nat.le_refl _, fun hin => absurd (h.counted _ (.inl hin)) (Nat.not_succ_le_self _)⟩
  · rw [hcalls, List.mem_append, List.mem_singleton] at hcall
    simp only [hlog, List.mem_append, List.mem_singleton]
    rcases hcall with hcall | rfl
    · rw [h.known call hcall id]
      constructor
      · rintro ⟨url', documentId', sequence', hmem⟩
        exact ⟨url', documentId', sequence', .inl hmem⟩
      · rintro ⟨url', documentId', sequence', hmem | heq⟩
        · exact ⟨url', documentId', sequence', hmem⟩
        · exact absurd (Entry.began.inj heq).2.1 (hfresh (h.open_ call hcall).1)
    · constructor
      · rintro heq
        rw [← Option.some.inj heq]
        exact ⟨url, documentId, sequence, .inr rfl⟩
      · rintro ⟨url', documentId', sequence', hmem | heq⟩
        · exact absurd (h.counted _ (.inr (mem_attempts hmem))) (Nat.not_succ_le_self _)
        · rw [(Entry.began.inj heq).1]
  · rw [hended, hattempts, List.mem_append, List.mem_singleton] at hmem
    rw [hcount]
    rcases hmem with hmem | hmem | rfl
    · exact Nat.le_succ_of_le (h.counted attempt (.inl hmem))
    · exact Nat.le_succ_of_le (h.counted attempt (.inr hmem))
    · exact Nat.le_refl _
  · rw [hended]
    exact h.once
  · rw [hattempts, List.nodup_append]
    refine ⟨h.begunOnce, List.nodup_singleton _, fun n hn m hm => ?_⟩
    rw [List.mem_singleton.mp hm]
    exact hfresh (h.counted n (.inr hn))
  · rw [hbegun, List.nodup_append]
    refine ⟨h.distinct, List.nodup_singleton _, fun x hx y hy heq => ?_⟩
    rw [heq, List.mem_singleton.mp hy] at hx
    exact hnew hx

/-- A call without a navigation id. -/
theorem Calls.beginPlain (h : Calls s) {t : State} (hlog : t.log = s.log)
    (hcalls : t.calls = s.calls ++ [⟨s.navigationAttempt + 1, none⟩])
    (hcount : t.navigationAttempt = s.navigationAttempt + 1) : Calls t := by
  have hfresh {attempt : Nat} (hle : attempt ≤ s.navigationAttempt) : attempt ≠ s.navigationAttempt + 1 :=
    Nat.ne_of_lt (Nat.lt_succ_of_le hle)
  refine ⟨?_, fun call hcall => ?_, fun call hcall id => ?_, fun attempt hmem => ?_, ?_, ?_, ?_⟩
  · rw [hcalls, List.map_append, List.nodup_append]
    refine ⟨h.nodup, List.nodup_singleton _, fun n hn m hm => ?_⟩
    obtain ⟨call, hcall, rfl⟩ := List.mem_map.mp hn
    rw [List.mem_singleton.mp hm]
    exact hfresh (h.open_ call hcall).1
  · rw [hcalls, List.mem_append, List.mem_singleton] at hcall
    rw [hcount, hlog]
    rcases hcall with hcall | rfl
    · exact ⟨Nat.le_succ_of_le (h.open_ call hcall).1, (h.open_ call hcall).2⟩
    · exact ⟨Nat.le_refl _, fun hin => absurd (h.counted _ (.inl hin)) (Nat.not_succ_le_self _)⟩
  · rw [hcalls, List.mem_append, List.mem_singleton] at hcall
    rw [hlog]
    rcases hcall with hcall | rfl
    · exact h.known call hcall id
    · refine iff_of_false (fun heq => by cases heq) ?_
      rintro ⟨url, documentId, sequence, hmem⟩
      exact absurd (h.counted _ (.inr (mem_attempts hmem))) (Nat.not_succ_le_self _)
  · rw [hlog] at hmem
    rw [hcount]
    exact Nat.le_succ_of_le (h.counted attempt hmem)
  · rw [hlog]
    exact h.once
  · rw [hlog]
    exact h.begunOnce
  · rw [hlog]
    exact h.distinct

/-- The call of an attempt has the navigation id that began with it. -/
theorem Calls.id_of_began (h : Calls s) {call : Call} (hcall : call ∈ s.calls) {url : String} {documentId sequence : Nat}
    (hbegan : Entry.began id call.attempt url documentId sequence ∈ s.log) : call.navigationId = some id :=
  (h.known call hcall id).mpr ⟨url, documentId, sequence, hbegan⟩

/-- No other attempt began with the navigation id of a call. -/
theorem Calls.attempt_of_id (h : Calls s) {call : Call} (hcall : call ∈ s.calls) (hid : call.navigationId = some id)
    {url : String} {documentId sequence : Nat} (hbegan : Entry.began id attempt url documentId sequence ∈ s.log) :
    attempt = call.attempt := by
  obtain ⟨url', documentId', sequence', hmem⟩ := (h.known call hcall id).mp hid
  have heq : Entry.begun? (.began id attempt url documentId sequence) = some id := rfl
  exact (Entry.began.inj (eq_of_nodup_filterMap h.distinct hbegan hmem heq rfl)).2.1

end Opensteer.SurfaceLedger
