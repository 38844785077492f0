import Mathlib.Algebra.Order.Group.Int
import Mathlib.Algebra.Order.BigOperators.Group.List
import Mathlib.Data.List.Nodup
import Opensteer.PersonInputLane.Model

/-!
# What the lane accounts for

What the lane has on the way and what it has called, without where its bodies are (`View`), changes in nine
ways (`Moves`), each of which keeps the bytes and events counted (`Counted`), the calls in their order
(`Numbered`), each batch and each `after` either settled or on the way (`Settled`), the sequences of a stream
(`InOrder`), and the fence of a reset (`Fenced`). A lane on its own comes to rest (`exists_rest`).
-/

namespace Opensteer.PersonInputLane

/-- The calls that an entry stands for, and those of them that are resets. -/
def Entry.calls : Entry → List Nat
  | .batch b => [b.call]
  | .reset r => r.calls

def Entry.resets : Entry → List Nat
  | .batch _ => []
  | .reset r => r.calls

structure View where
  line : List Entry
  counted : List Batch
  afters : List Nat
  log : List Event
  bytes : Int
  events : Int
  sequences : Nat → Int
  stamp : Nat
  nextCall : Nat

namespace View

abbrev waiting (v : View) : List Batch := v.line.filterMap Entry.batch?

abbrev calls (v : View) : List Nat := v.line.flatMap Entry.calls

abbrev resets (v : View) : List Nat := v.line.flatMap Entry.resets

end View

def Lane.view (s : Lane) : View :=
  ⟨s.line, s.counted, s.afters, s.log, s.bytes, s.events, s.sequences, s.stamp, s.nextCall⟩

/-- What an action makes of what the lane has on the way. -/
inductive Moves (v : View) : View → Prop
  | same : Moves v v
  | refuse (batch : Batch) (reason : String) (sequences : Nat → Int) : batch.call = v.nextCall → batch.stamp = v.stamp →
    (∀ stream, v.sequences stream ≤ sequences stream) →
    Moves v { v with sequences, nextCall := v.nextCall + 1, log := v.log ++ [Event.submitted batch, .refused batch reason] }
  | accept (batch : Batch) (size count : Size) : batch.call = v.nextCall → batch.stamp = v.stamp →
    batch.bytes = size → batch.events = count → v.sequences batch.stream < batch.sequence →
    int32 (v.bytes + size) ≤ 1048576 → int32 (v.events + count) ≤ 512 →
    Moves v { v with
      line := v.line ++ [Entry.batch batch]
      counted := v.counted ++ [batch]
      bytes := int32 (v.bytes + size)
      events := int32 (v.events + count)
      sequences := Function.update v.sequences batch.stream batch.sequence
      nextCall := v.nextCall + 1
      log := v.log ++ [Event.submitted batch] }
  | reset (busy queue : List Entry) (counted : List Batch) (after : Bool) : v.line = busy ++ queue →
    v.counted = counted ++ queue.filterMap Entry.batch? →
    Moves v { v with
      line := busy ++ Lane.joinReset (queue.filter (·.batch?.isNone)) v.nextCall (if after then [v.nextCall] else [])
      counted
      afters := v.afters ++ if after then [v.nextCall] else []
      bytes := (queue.filterMap Entry.batch?).foldl (fun n b => int32 (n - b.bytes)) v.bytes
      events := (queue.filterMap Entry.batch?).foldl (fun n b => int32 (n - b.events)) v.events
      stamp := v.stamp + 1
      nextCall := v.nextCall + 1
      log := v.log ++ Event.reset v.nextCall after :: ((queue.filterMap Entry.batch?).map (.refused · "unavailable") ++ [Event.interrupted]) }
  | start (batch : Batch) (line : List Entry) : v.line = .batch batch :: line →
    Moves v { v with log := v.log ++ [Event.started batch] }
  | settle (batch : Batch) (line : List Entry) (event : Event) : v.line = .batch batch :: line →
    (event = .ran batch ∨ event = .refused batch "unavailable") → Moves v { v with line, log := v.log ++ [event] }
  | release (batch : Batch) (counted : List Batch) : v.counted = batch :: counted →
    Moves v { v with counted, bytes := int32 (v.bytes - batch.bytes), events := int32 (v.events - batch.events) }
  | clean (reset : Reset) (line : List Entry) : v.line = .reset reset :: line →
    Moves v { v with line, log := v.log ++ [Event.cleaned reset.calls] }
  | answer (call : Nat) (afters : List Nat) : v.afters = call :: afters →
    Moves v { v with afters, log := v.log ++ [Event.after call] }

/-! ## The lane moves its view -/

/-- A call of `reset` is added to the queue, whatever stands at its end. -/
theorem flatMap_joinReset {f : Entry → List Nat} {g : Reset → List Nat} (hf : ∀ r, f (.reset r) = g r) {call : Nat}
    {after more : List Nat} (hjoin : ∀ r : Reset, g ⟨r.calls ++ [call], r.after ++ after⟩ = g r ++ more)
    (hnew : g ⟨[call], after⟩ = more) (queue : List Entry) :
    (Lane.joinReset queue call after).flatMap f = queue.flatMap f ++ more := by
  unfold Lane.joinReset
  split
  · rename_i reset h
    conv_rhs => rw [← List.dropLast_append_getLast? _ h]
    simp [hf, hjoin]
  · simp [hf, hnew]

theorem filterMap_joinReset (queue : List Entry) (call : Nat) (after : List Nat) :
    (Lane.joinReset queue call after).filterMap Entry.batch? = queue.filterMap Entry.batch? := by
  unfold Lane.joinReset
  split
  · rename_i reset h
    conv_rhs => rw [← List.dropLast_append_getLast? _ h]
    simp [List.filterMap_cons]
  · simp

/-- What has nothing of batches is not changed when they are dropped. -/
theorem flatMap_filter {f : Entry → List Nat} (hf : ∀ b, f (.batch b) = []) (queue : List Entry) :
    (queue.filter (·.batch?.isNone)).flatMap f = queue.flatMap f := by
  induction queue with
  | nil => rfl
  | cons entry queue ih =>
    cases entry with
    | batch b => simpa [hf] using ih
    | reset r => simpa [Entry.batch?] using ih

theorem filterMap_filter (queue : List Entry) : (queue.filter (·.batch?.isNone)).filterMap Entry.batch? = [] := by
  rw [List.filterMap_eq_nil_iff]
  intro entry h
  exact Option.isNone_iff_eq_none.mp (List.mem_filter.mp h).2

namespace Lane

variable {s s' : Lane}

theorem view_next (s : Lane) : (next s).view = s.view := by
  unfold next
  split
  · rfl
  · rename_i entry queue h
    split
    · rfl
    · have hcounted : Turn.counted (.queued entry) = entry.batch? := rfl
      cases hentry : entry.batch? with
      | none => simp [view, line, counted, afters, h, Turn.entry, Turn.after, hcounted, hentry]
      | some b => simp [view, line, counted, afters, h, Turn.entry, Turn.after, hcounted, hentry]

theorem foldl_drop (dropped : List Batch) (s : Lane) : dropped.foldl drop s =
    { s with
      bytes := dropped.foldl (fun n b => int32 (n - b.bytes)) s.bytes
      events := dropped.foldl (fun n b => int32 (n - b.events)) s.events
      log := s.log ++ dropped.map (.refused · "unavailable") } := by
  induction dropped generalizing s with
  | nil => simp
  | cons b dropped ih =>
    rw [List.foldl_cons, ih]
    simp [drop]

theorem view_submit (s : Lane) (stream : Nat) (sequence geometry currentGeometry : Int) (size count : Size) :
    Moves s.view (s.submit stream sequence geometry currentGeometry size count).view := by
  unfold submit
  dsimp only
  split
  · have h := Moves.refuse (v := s.view) ⟨s.nextCall, stream, sequence, s.stamp, size, count⟩ "stale" s.sequences rfl rfl
      fun _ => Int.le_refl _
    simpa [view, line, counted, afters, refuse] using h
  · rename_i hsequence
    have hlt : s.sequences stream < sequence := not_le.mp hsequence
    have hle (x : Nat) : s.sequences x ≤ Function.update s.sequences stream sequence x := by
      by_cases hx : x = stream
      · subst hx
        rw [Function.update_self]
        exact hlt.le
      · rw [Function.update_of_ne hx]
    split
    · have h := Moves.refuse (v := s.view) ⟨s.nextCall, stream, sequence, s.stamp, size, count⟩ "stale"
        (Function.update s.sequences stream sequence) rfl rfl hle
      simpa [view, line, counted, afters, refuse] using h
    · split
      · have h := Moves.refuse (v := s.view) ⟨s.nextCall, stream, sequence, s.stamp, size, count⟩ "too-large"
          (Function.update s.sequences stream sequence) rfl rfl hle
        simpa [view, line, counted, afters, refuse] using h
      · rename_i hroom
        rw [not_or, not_lt, not_lt] at hroom
        rw [view_next]
        have h := Moves.accept (v := s.view) ⟨s.nextCall, stream, sequence, s.stamp, size, count⟩ size count rfl rfl rfl rfl
          hlt hroom.1 hroom.2
        simpa [view, line, counted, afters, Entry.after] using h

theorem view_reset (s : Lane) (after : Bool) : Moves s.view (s.reset after).view := by
  unfold reset
  dsimp only
  rw [view_next, foldl_drop]
  have hafter := @flatMap_joinReset Entry.after Reset.after (fun _ => rfl) s.nextCall
    (if after then [s.nextCall] else []) _ (fun _ => rfl) rfl (s.queue.filter (·.batch?.isNone))
  rw [flatMap_filter (fun _ => rfl)] at hafter
  have h := Moves.reset (v := s.view) (s.turns.filterMap Turn.entry) s.queue (s.turns.filterMap Turn.counted) after rfl rfl
  simpa [view, line, counted, afters, filterMap_joinReset, filterMap_filter, hafter, List.append_assoc] using h

/-- The next stretch of the one body there is. -/
theorem view_turn {t : Turn} (hturns : s.turns = [t]) (h : s.turn 0 = some s') : Moves s.view s'.view := by
  obtain ⟨queue, stamp, running, bytes, events, sequences, turns, nextCall, log⟩ := s
  obtain rfl : turns = [t] := hturns
  cases t with
  | queued entry =>
    cases entry with
    | batch b =>
      obtain rfl := Option.some.inj h
      exact .start b queue rfl
    | reset r =>
      obtain rfl := Option.some.inj h
      exact .same
  | checked b current =>
    cases current with
    | true =>
      obtain rfl := Option.some.inj h
      exact .settle b queue (.ran b) rfl (.inl rfl)
    | false =>
      obtain rfl := Option.some.inj h
      exact .settle b queue (.refused b "unavailable") rfl (.inr rfl)
  | called b =>
    obtain rfl := Option.some.inj h
    exact .release b (queue.filterMap Entry.batch?) rfl
  | cleaning r =>
    obtain rfl := Option.some.inj h
    exact .clean r queue rfl
  | calling after =>
    cases after with
    | nil =>
      obtain rfl := Option.some.inj h
      exact .same
    | cons call after =>
      obtain rfl := Option.some.inj h
      exact .answer call ([Turn.calling after].flatMap Turn.after ++ queue.flatMap Entry.after) rfl
  | finishing =>
    obtain rfl := Option.some.inj h
    rw [finished, view_next]
    exact .same

/-- One body runs, or none and nothing is queued. -/
def Alone (s : Lane) : Prop := (s.running = false ∧ s.turns = [] ∧ s.queue = []) ∨ s.running = true ∧ ∃ t, s.turns = [t]

theorem alone_next (h : s.running = false ∧ s.turns = [] ∨ s.running = true ∧ ∃ t, s.turns = [t]) : Alone (next s) := by
  unfold next
  split
  · rename_i hqueue
    exact h.imp_left fun h => ⟨h.1, h.2, hqueue⟩
  · rename_i entry queue hqueue
    obtain ⟨hrunning, hturns⟩ | h := h
    · rw [hrunning, hturns]
      exact .inr ⟨rfl, _, rfl⟩
    · rw [if_pos h.1]
      exact .inr h

theorem alone_turn {t : Turn} (hrunning : s.running = true) (hturns : s.turns = [t]) (h : s.turn 0 = some s') : Alone s' := by
  unfold turn at h
  rw [hturns] at h
  cases t with
  | finishing =>
    obtain rfl := Option.some.inj h
    exact alone_next (.inl ⟨rfl, rfl⟩)
  | queued entry => cases entry <;> exact Option.some.inj h ▸ .inr ⟨hrunning, _, rfl⟩
  | checked b current => cases current <;> exact Option.some.inj h ▸ .inr ⟨hrunning, _, rfl⟩
  | called b => exact Option.some.inj h ▸ .inr ⟨hrunning, _, rfl⟩
  | cleaning r => exact Option.some.inj h ▸ .inr ⟨hrunning, _, rfl⟩
  | calling after => cases after <;> exact Option.some.inj h ▸ .inr ⟨hrunning, _, rfl⟩

theorem Alone.step {action : Action} (halone : Alone s) (h : machine.step s action = some s') :
    Alone s' ∧ Moves s.view s'.view := by
  have hbusy : s.running = false ∧ s.turns = [] ∨ s.running = true ∧ ∃ t, s.turns = [t] :=
    halone.imp_left fun h => ⟨h.1, h.2.1⟩
  cases action with
  | submit stream sequence geometry currentGeometry size count =>
    obtain rfl := Option.some.inj h
    refine ⟨?_, view_submit s stream sequence geometry currentGeometry size count⟩
    unfold submit
    dsimp only
    split
    · exact halone
    · split
      · exact halone
      · split
        · exact halone
        · exact alone_next hbusy
  | reset after =>
    obtain rfl := Option.some.inj h
    refine ⟨?_, view_reset s after⟩
    unfold reset
    dsimp only
    rw [foldl_drop]
    exact alone_next hbusy
  | turn i =>
    change s.turn i = some s' at h
    obtain ⟨-, hturns, -⟩ | ⟨hrunning, t, hturns⟩ := halone
    · unfold turn at h
      rw [hturns] at h
      cases h
    · cases i with
      | zero => exact ⟨alone_turn hrunning hturns h, view_turn hturns h⟩
      | succ i =>
        unfold turn at h
        rw [hturns] at h
        cases h

end Lane

/-! ## Bytes and events -/

theorem int32_eq {n : Int} (h : 0 ≤ n) (hlt : n < 2 ^ 31) : int32 n = n :=
  Int.bmod_eq_of_le (by omega) (by omega)

/-- A count of what batches take, none of which takes less than nothing. -/
structure Total (f : Batch → Int) (limit : Int) (batches : List Batch) (n : Int) : Prop where
  eq : n = (batches.map f).sum
  le : n ≤ limit
  nonneg : ∀ b ∈ batches, 0 ≤ f b

namespace Total

variable {f : Batch → Int} {limit n : Int} {batches kept : List Batch} {b : Batch}

theorem zero_le (h : Total f limit batches n) : 0 ≤ n := by
  rw [h.eq]
  refine List.sum_nonneg fun m hm => ?_
  obtain ⟨b, hb, rfl⟩ := List.mem_map.mp hm
  exact h.nonneg b hb

theorem snoc (h : Total f limit batches n) (hlimit : limit < 2 ^ 30) {size : Int} (hsize : 0 ≤ size) (hlt : size < 2 ^ 30)
    (hb : f b = size) (hroom : int32 (n + size) ≤ limit) : Total f limit (batches ++ [b]) (int32 (n + size)) := by
  have hn := h.zero_le
  have hle := h.le
  have hint : int32 (n + size) = n + size := int32_eq (by omega) (by omega)
  refine ⟨?_, hroom, List.forall_mem_append.mpr ⟨h.nonneg, List.forall_mem_singleton.mpr (hb ▸ hsize)⟩⟩
  rw [hint, h.eq, List.map_append, List.sum_append, List.map_singleton, List.sum_singleton, hb]

theorem tail (h : Total f limit (b :: batches) n) (hlimit : limit < 2 ^ 30) : Total f limit batches (int32 (n - f b)) := by
  have hrest : n - f b = (batches.map f).sum := by
    rw [h.eq, List.map_cons, List.sum_cons, add_sub_cancel_left]
  have hnonneg := List.forall_mem_cons.mp h.nonneg
  have hle : n - f b ≤ limit := by
    have := h.le
    have := hnonneg.1
    omega
  have htotal : Total f limit batches (n - f b) := ⟨hrest, hle, hnonneg.2⟩
  have hn := htotal.zero_le
  rw [int32_eq hn (by omega)]
  exact htotal

theorem of_perm {batches' : List Batch} (h : Total f limit batches n) (hperm : batches.Perm batches') :
    Total f limit batches' n :=
  ⟨h.eq.trans (hperm.map f).sum_eq, h.le, fun b hb => h.nonneg b (hperm.mem_iff.mpr hb)⟩

theorem drop (h : Total f limit (kept ++ batches) n) (hlimit : limit < 2 ^ 30) :
    Total f limit kept (batches.foldl (fun n b => int32 (n - f b)) n) := by
  induction batches generalizing n with
  | nil =>
    rw [List.append_nil] at h
    exact h
  | cons b batches ih => exact ih ((h.of_perm List.perm_middle).tail hlimit)

end Total

/-- The bytes and events of the batches that are queued or running. -/
structure Counted (v : View) : Prop where
  bytes : Total Batch.bytes 1048576 v.counted v.bytes
  events : Total Batch.events 512 v.counted v.events

theorem Counted.moves {v v' : View} (h : Counted v) (hmoves : Moves v v') : Counted v' := by
  cases hmoves with
  | same => exact h
  | refuse => exact ⟨h.bytes, h.events⟩
  | accept batch size count _ _ hbytes hevents _ hroom hroom' =>
    exact ⟨h.bytes.snoc (by decide) size.2.1 size.2.2 hbytes hroom, h.events.snoc (by decide) count.2.1 count.2.2 hevents hroom'⟩
  | reset busy queue counted after _ hcounted =>
    exact ⟨(hcounted ▸ h.bytes).drop (by decide), (hcounted ▸ h.events).drop (by decide)⟩
  | start => exact ⟨h.bytes, h.events⟩
  | settle => exact ⟨h.bytes, h.events⟩
  | release batch counted hcounted =>
    exact ⟨(hcounted ▸ h.bytes).tail (by decide), (hcounted ▸ h.events).tail (by decide)⟩
  | clean => exact ⟨h.bytes, h.events⟩
  | answer => exact ⟨h.bytes, h.events⟩

/-! ## The order of the calls -/

/-- What is not settled stands in the order of its calls, and so does the log. -/
structure Numbered (v : View) : Prop where
  calls : v.calls.Pairwise (· < ·)
  calls_lt : ∀ k ∈ v.calls, k < v.nextCall
  log : (v.log.filterMap Event.call).Pairwise (· < ·)
  log_lt : ∀ k ∈ v.log.filterMap Event.call, k < v.nextCall

/-- A call is behind all before it. -/
theorem pairwise_snoc {l : List Nat} {n : Nat} (h : l.Pairwise (· < ·)) (hlt : ∀ k ∈ l, k < n) :
    (l ++ [n]).Pairwise (· < ·) ∧ ∀ k ∈ l ++ [n], k < n + 1 := by
  refine ⟨List.pairwise_append.mpr ⟨h, List.pairwise_singleton _ _, fun k hk m hm => ?_⟩, ?_⟩
  · rw [List.mem_singleton.mp hm]
    exact hlt k hk
  · refine List.forall_mem_append.mpr ⟨fun k hk => (hlt k hk).trans (Nat.lt_succ_self n), ?_⟩
    exact List.forall_mem_singleton.mpr (Nat.lt_succ_self n)

theorem filter_calls_sublist (queue : List Entry) :
    ((queue.filter (·.batch?.isNone)).flatMap Entry.calls).Sublist (queue.flatMap Entry.calls) := by
  induction queue with
  | nil => exact List.Sublist.refl _
  | cons entry queue ih =>
    cases entry with
    | batch b => simpa using ih.trans (List.sublist_append_right _ _)
    | reset r =>
      rw [List.filter_cons_of_pos rfl, List.flatMap_cons, List.flatMap_cons]
      exact (List.Sublist.refl _).append ih

/-- Events that are no calls do not change the order of those that are. -/
theorem Numbered.of_log {v : View} (h : Numbered v) {log : List Event} (hlog : log.filterMap Event.call = v.log.filterMap Event.call)
    {line : List Entry} (hline : (line.flatMap Entry.calls).Sublist v.calls) : Numbered { v with line, log } :=
  ⟨h.calls.sublist hline, fun k hk => h.calls_lt k (hline.subset hk), hlog ▸ h.log, hlog ▸ h.log_lt⟩

theorem Numbered.moves {v v' : View} (h : Numbered v) (hmoves : Moves v v') : Numbered v' := by
  cases hmoves with
  | same => exact h
  | refuse batch reason sequences hcall =>
    obtain ⟨hlog, hlt⟩ := pairwise_snoc h.log h.log_lt
    refine ⟨h.calls, fun k hk => (h.calls_lt k hk).trans (Nat.lt_succ_self _), ?_, ?_⟩
    · simpa only [Event.call, List.filterMap_append, List.filterMap_cons, List.filterMap_nil, List.append_nil, hcall] using hlog
    · simpa only [Event.call, List.filterMap_append, List.filterMap_cons, List.filterMap_nil, List.append_nil, hcall] using hlt
  | accept batch size count hcall =>
    obtain ⟨hlog, hlt⟩ := pairwise_snoc h.log h.log_lt
    obtain ⟨hcalls, hcallsLt⟩ := pairwise_snoc h.calls h.calls_lt
    refine ⟨?_, ?_, ?_, ?_⟩
    · simpa only [View.calls, Entry.calls, hcall, List.flatMap_append, List.flatMap_cons, List.flatMap_nil, List.append_nil] using hcalls
    · simpa only [View.calls, Entry.calls, hcall, List.flatMap_append, List.flatMap_cons, List.flatMap_nil, List.append_nil] using hcallsLt
    · simpa only [Event.call, List.filterMap_append, List.filterMap_cons, List.filterMap_nil, List.append_nil, hcall] using hlog
    · simpa only [Event.call, List.filterMap_append, List.filterMap_cons, List.filterMap_nil, List.append_nil, hcall] using hlt
  | reset busy queue counted after hline =>
    obtain ⟨hlog, hlt⟩ := pairwise_snoc h.log h.log_lt
    have hsub : (busy.flatMap Entry.calls ++ (queue.filter (·.batch?.isNone)).flatMap Entry.calls).Sublist v.calls := by
      rw [View.calls, hline, List.flatMap_append]
      exact (List.Sublist.refl _).append (filter_calls_sublist queue)
    obtain ⟨hcalls, hcallsLt⟩ := pairwise_snoc (h.calls.sublist hsub) fun k hk => h.calls_lt k (hsub.subset hk)
    have hjoin := @flatMap_joinReset Entry.calls Reset.calls (fun _ => rfl) v.nextCall (if after then [v.nextCall] else [])
      [v.nextCall] (fun _ => rfl) rfl (queue.filter (·.batch?.isNone))
    refine ⟨?_, ?_, ?_, ?_⟩
    · simpa [View.calls, hjoin, List.append_assoc] using hcalls
    · simpa [View.calls, hjoin, List.append_assoc, or_assoc] using hcallsLt
    · simpa [Event.call, List.filterMap_cons, List.filterMap_map, Function.comp_def] using hlog
    · simpa [Event.call, List.filterMap_cons, List.filterMap_map, Function.comp_def] using hlt
  | start batch line => exact h.of_log (by simp only [Event.call, List.filterMap_append, List.filterMap_cons, List.filterMap_nil, List.append_nil]) (List.Sublist.refl _)
  | settle batch line event hline hevent =>
    refine h.of_log ?_ ?_
    · obtain rfl | rfl := hevent
      · simp only [Event.call, List.filterMap_append, List.filterMap_cons, List.filterMap_nil, List.append_nil]
      · simp only [Event.call, List.filterMap_append, List.filterMap_cons, List.filterMap_nil, List.append_nil]
    · rw [View.calls, hline, List.flatMap_cons]
      exact List.sublist_append_right _ _
  | release => exact ⟨h.calls, h.calls_lt, h.log, h.log_lt⟩
  | clean reset line hline =>
    refine h.of_log (by simp only [Event.call, List.filterMap_append, List.filterMap_cons, List.filterMap_nil, List.append_nil]) ?_
    rw [View.calls, hline, List.flatMap_cons]
    exact List.sublist_append_right _ _
  | answer call afters =>
    have := (@Numbered.of_log _ h (v.log ++ [Event.after call])) (by simp only [Event.call, List.filterMap_append, List.filterMap_cons, List.filterMap_nil, List.append_nil]) (List.Sublist.refl _)
    exact ⟨this.calls, this.calls_lt, this.log, this.log_lt⟩

/-! ## Outcomes -/

/-- A batch has had its outcome or waits for it, and an `after` that was given was called or waits. -/
structure Settled (v : View) : Prop where
  balance : (v.log.filterMap Event.submission).Perm (v.log.filterMap Event.outcome ++ v.waiting)
  answers : (v.log.filterMap Event.given).Perm (v.log.filterMap Event.answered ++ v.afters)

section Dropped

variable (dropped : List Batch)

theorem filterMap_dropped {α : Type} {f : Event → Option α} (hf : ∀ b reason, f (.refused b reason) = none) :
    dropped.filterMap (f ∘ fun b => Event.refused b "unavailable") = [] :=
  List.filterMap_eq_nil_iff.mpr fun b _ => hf b _

@[simp] theorem outcome_dropped : dropped.filterMap (Event.outcome ∘ fun b => Event.refused b "unavailable") = dropped :=
  List.filterMap_some

@[simp] theorem submission_dropped : dropped.filterMap (Event.submission ∘ fun b => Event.refused b "unavailable") = [] :=
  filterMap_dropped dropped fun _ _ => rfl

@[simp] theorem action_dropped : dropped.filterMap (Event.action ∘ fun b => Event.refused b "unavailable") = [] :=
  filterMap_dropped dropped fun _ _ => rfl

@[simp] theorem given_dropped : dropped.filterMap (Event.given ∘ fun b => Event.refused b "unavailable") = [] :=
  filterMap_dropped dropped fun _ _ => rfl

@[simp] theorem answered_dropped : dropped.filterMap (Event.answered ∘ fun b => Event.refused b "unavailable") = [] :=
  filterMap_dropped dropped fun _ _ => rfl

end Dropped

theorem Settled.moves {v v' : View} (h : Settled v) (hmoves : Moves v v') : Settled v' := by
  cases hmoves with
  | same => exact h
  | refuse batch reason =>
    have hbatch : (v.log.filterMap Event.submission ++ [batch]).Perm (v.log.filterMap Event.outcome ++ [batch] ++ v.waiting) := by
      refine (h.balance.append_right [batch]).trans ?_
      rw [List.append_assoc, List.append_assoc]
      exact List.perm_append_comm.append_left _
    refine ⟨?_, ?_⟩
    · simpa only [Event.submission, Event.outcome, List.filterMap_append, List.filterMap_cons, List.filterMap_nil,
        List.append_nil] using hbatch
    · simpa only [Event.given, Event.answered, List.filterMap_append, List.filterMap_cons, List.filterMap_nil, List.append_nil] using h.answers
  | accept batch =>
    refine ⟨?_, ?_⟩
    · simpa [View.waiting, Event.submission, Event.outcome, List.filterMap_cons] using h.balance.append_right [batch]
    · simpa only [Event.given, Event.answered, List.filterMap_append, List.filterMap_cons, List.filterMap_nil, List.append_nil] using h.answers
  | reset busy queue counted after hline =>
    refine ⟨?_, ?_⟩
    · have hwaiting : v.waiting = busy.filterMap Entry.batch? ++ queue.filterMap Entry.batch? := by
        rw [View.waiting, hline, List.filterMap_append]
      have hbalance := h.balance
      rw [hwaiting] at hbalance
      have hdropped := hbalance.trans (List.perm_append_comm.append_left _)
      simpa [View.waiting, Event.submission, Event.outcome, List.filterMap_cons, filterMap_joinReset, filterMap_filter] using hdropped
    · have hnone : ∀ f : Event → Option Nat, (∀ b reason, f (.refused b reason) = none) →
          ((queue.filterMap Entry.batch?).map (Event.refused · "unavailable")).filterMap f = [] := fun f hf => by
        rw [List.filterMap_map]
        exact filterMap_dropped _ hf
      have hgiven := hnone Event.given fun _ _ => rfl
      have hanswered := hnone Event.answered fun _ _ => rfl
      cases after with
      | false =>
        simpa only [Event.given, Event.answered, List.filterMap_append, List.filterMap_cons, List.filterMap_nil,
          hgiven, hanswered, List.append_nil, Bool.false_eq_true, if_false] using h.answers
      | true =>
        simpa only [Event.given, Event.answered, List.filterMap_append, List.filterMap_cons, List.filterMap_nil,
          hgiven, hanswered, List.append_nil, List.append_assoc, if_true] using h.answers.append_right [v.nextCall]
  | start batch =>
    refine ⟨?_, ?_⟩
    · simpa only [Event.submission, Event.outcome, List.filterMap_append, List.filterMap_cons, List.filterMap_nil,
        List.append_nil] using h.balance
    · simpa only [Event.given, Event.answered, List.filterMap_append, List.filterMap_cons, List.filterMap_nil,
        List.append_nil] using h.answers
  | settle batch line event hline hevent =>
    have hbalance : (v.log.filterMap Event.submission).Perm
        (v.log.filterMap Event.outcome ++ [batch] ++ line.filterMap Entry.batch?) := by
      have hwaiting : v.waiting = batch :: line.filterMap Entry.batch? := by
        rw [View.waiting, hline]
        rfl
      have hbalance := h.balance
      rw [hwaiting] at hbalance
      rw [List.append_assoc]
      exact hbalance
    obtain rfl | rfl := hevent
    · refine ⟨?_, ?_⟩
      · simpa only [Event.submission, Event.outcome, List.filterMap_append, List.filterMap_cons, List.filterMap_nil,
          List.append_nil] using hbalance
      · simpa only [Event.given, Event.answered, List.filterMap_append, List.filterMap_cons, List.filterMap_nil,
          List.append_nil] using h.answers
    · refine ⟨?_, ?_⟩
      · simpa only [Event.submission, Event.outcome, List.filterMap_append, List.filterMap_cons, List.filterMap_nil,
          List.append_nil] using hbalance
      · simpa only [Event.given, Event.answered, List.filterMap_append, List.filterMap_cons, List.filterMap_nil,
          List.append_nil] using h.answers
  | release => exact ⟨h.balance, h.answers⟩
  | clean reset line hline =>
    have hbalance : (v.log.filterMap Event.submission).Perm
        (v.log.filterMap Event.outcome ++ line.filterMap Entry.batch?) := by
      have hwaiting : v.waiting = line.filterMap Entry.batch? := by
        rw [View.waiting, hline]
        rfl
      exact hwaiting ▸ h.balance
    refine ⟨?_, ?_⟩
    · simpa only [Event.submission, Event.outcome, List.filterMap_append, List.filterMap_cons, List.filterMap_nil,
        List.append_nil] using hbalance
    · simpa only [Event.given, Event.answered, List.filterMap_append, List.filterMap_cons, List.filterMap_nil,
        List.append_nil] using h.answers
  | answer call afters hafters =>
    have hanswers := h.answers
    rw [hafters] at hanswers
    refine ⟨?_, ?_⟩
    · simpa only [Event.submission, Event.outcome, List.filterMap_append, List.filterMap_cons, List.filterMap_nil,
        List.append_nil] using h.balance
    · simpa only [Event.given, Event.answered, List.filterMap_append, List.filterMap_cons, List.filterMap_nil,
        List.append_nil, List.append_assoc, List.singleton_append] using hanswers

/-! ## The sequences of a stream -/

def Before (a b : Batch) : Prop := a.stream = b.stream → a.sequence < b.sequence

/-- The actions of a stream were run and will be in the order of its sequences. -/
structure InOrder (v : View) : Prop where
  ordered : (v.log.filterMap Event.action ++ v.waiting).Pairwise Before
  latest : ∀ b ∈ v.log.filterMap Event.action ++ v.waiting, b.sequence ≤ v.sequences b.stream

theorem InOrder.of_sublist {v v' : View} (h : InOrder v)
    (hsub : (v'.log.filterMap Event.action ++ v'.waiting).Sublist (v.log.filterMap Event.action ++ v.waiting))
    (hle : ∀ stream, v.sequences stream ≤ v'.sequences stream) : InOrder v' :=
  ⟨h.ordered.sublist hsub, fun b hb => (h.latest b (hsub.subset hb)).trans (hle b.stream)⟩

theorem InOrder.moves {v v' : View} (h : InOrder v) (hmoves : Moves v v') : InOrder v' := by
  cases hmoves with
  | same => exact h
  | refuse batch reason sequences _ _ hle => exact h.of_sublist (by simp [Event.action, List.filterMap_cons]) hle
  | accept batch size count _ _ _ _ hlt =>
    have hordered : (v.log.filterMap Event.action ++ v.waiting ++ [batch]).Pairwise Before := by
      refine List.pairwise_append.mpr ⟨h.ordered, List.pairwise_singleton _ _, fun a ha b hb hstream => ?_⟩
      obtain rfl := List.mem_singleton.mp hb
      exact (hstream ▸ h.latest a ha).trans_lt hlt
    refine ⟨?_, ?_⟩
    · simpa [View.waiting, Event.action, List.filterMap_cons] using hordered
    · intro b hb
      have hb : b ∈ v.log.filterMap Event.action ++ v.waiting ++ [batch] := by
        simpa [View.waiting, Event.action, List.filterMap_cons] using hb
      show b.sequence ≤ Function.update v.sequences batch.stream batch.sequence b.stream
      obtain hb | hb := List.mem_append.mp hb
      · by_cases hstream : b.stream = batch.stream
        · rw [hstream, Function.update_self]
          exact (hstream ▸ h.latest b hb).trans hlt.le
        · rw [Function.update_of_ne hstream]
          exact h.latest b hb
      · obtain rfl := List.mem_singleton.mp hb
        rw [Function.update_self]
  | reset busy queue counted after hline =>
    refine h.of_sublist ?_ fun _ => Int.le_refl _
    rw [View.waiting, View.waiting, hline]
    simp [Event.action, List.filterMap_cons, filterMap_joinReset, filterMap_filter]
  | start batch => exact h.of_sublist (by simp [Event.action, List.filterMap_cons]) fun _ => Int.le_refl _
  | settle batch line event hline hevent =>
    refine h.of_sublist ?_ fun _ => Int.le_refl _
    rw [View.waiting, View.waiting, hline]
    obtain rfl | rfl := hevent
    · simp [Event.action]
    · simp [Event.action, List.filterMap_cons]
  | release => exact ⟨h.ordered, h.latest⟩
  | clean reset line hline =>
    refine h.of_sublist ?_ fun _ => Int.le_refl _
    rw [View.waiting, View.waiting, hline]
    simp [Event.action, List.filterMap_cons]
  | answer => exact h.of_sublist (by simp [Event.action, List.filterMap_cons]) fun _ => Int.le_refl _

/-! ## The fence of a reset -/

/-- A batch from before a reset has no token any more, and none from behind one is started before it was
cleaned up. -/
structure Fenced (v : View) : Prop where
  stamp_le : ∀ b, .submitted b ∈ v.log → b.stamp ≤ v.stamp
  stamp_lt : ∀ b k after, .submitted b ∈ v.log → .reset k after ∈ v.log → b.call < k → b.stamp < v.stamp
  cleaned : ∀ k after, .reset k after ∈ v.log → k ∈ v.resets ∨ ∃ calls, .cleaned calls ∈ v.log ∧ k ∈ calls
  started_lt : ∀ b, .started b ∈ v.log → b.call < v.nextCall
  started : ∀ (l : List Event) b, l ++ [Event.started b] <+: v.log → ∀ k after, .reset k after ∈ v.log → k < b.call →
    ∃ calls, .cleaned calls ∈ l ∧ k ∈ calls

theorem mem_call_of_reset {log : List Event} {k : Nat} {after : Bool} (h : .reset k after ∈ log) :
    k ∈ log.filterMap Event.call :=
  List.mem_filterMap.mpr ⟨_, h, rfl⟩

/-- What a list with more at its end starts with. -/
theorem prefix_or_mem {l log more : List Event} {e : Event} (h : l ++ [e] <+: log ++ more) : l ++ [e] <+: log ∨ e ∈ more := by
  induction more using List.reverseRecOn with
  | nil => exact .inl (List.append_nil log ▸ h)
  | append_singleton more e' ih =>
    rw [← List.append_assoc, List.prefix_concat_iff] at h
    obtain h | h := h
    · obtain rfl : e = e' := List.singleton_inj.mp (List.append_inj' h rfl).2
      exact .inr (List.mem_append_right _ (List.mem_singleton.mpr rfl))
    · exact (ih h).imp_right fun h => List.mem_append_left _ h

/-- Events that are no calls and start nothing. -/
def Quiet (events : List Event) : Prop :=
  ∀ e ∈ events, (∀ b, e ≠ .submitted b) ∧ (∀ k after, e ≠ .reset k after) ∧ ∀ b, e ≠ .started b

theorem Fenced.quiet {v v' : View} (h : Fenced v) (more : List Event) (hmore : Quiet more) (hlog : v'.log = v.log ++ more)
    (hstamp : v'.stamp = v.stamp) (hnext : v'.nextCall = v.nextCall)
    (hresets : ∀ k ∈ v.resets, k ∈ v'.resets ∨ ∃ calls, .cleaned calls ∈ more ∧ k ∈ calls) : Fenced v' := by
  have hsubmitted {b : Batch} (hb : .submitted b ∈ v'.log) : .submitted b ∈ v.log := by
    rw [hlog] at hb
    exact (List.mem_append.mp hb).resolve_right fun hb => (hmore _ hb).1 b rfl
  have hreset {k : Nat} {after : Bool} (hk : .reset k after ∈ v'.log) : .reset k after ∈ v.log := by
    rw [hlog] at hk
    exact (List.mem_append.mp hk).resolve_right fun hk => (hmore _ hk).2.1 k after rfl
  refine ⟨fun b hb => hstamp ▸ h.stamp_le b (hsubmitted hb),
    fun b k after hb hk hlt => hstamp ▸ h.stamp_lt b k after (hsubmitted hb) (hreset hk) hlt, fun k after hk => ?_,
    fun b hb => ?_, fun l b hl k after hk hlt => ?_⟩
  · rw [hlog]
    obtain hk | ⟨calls, hcalls, hk⟩ := h.cleaned k after (hreset hk)
    · exact (hresets k hk).imp_right fun ⟨calls, hcalls, hk⟩ => ⟨calls, List.mem_append_right _ hcalls, hk⟩
    · exact .inr ⟨calls, List.mem_append_left _ hcalls, hk⟩
  · rw [hlog] at hb
    rw [hnext]
    exact h.started_lt b ((List.mem_append.mp hb).resolve_right fun hb => (hmore _ hb).2.2 b rfl)
  · rw [hlog] at hl
    exact h.started l b ((prefix_or_mem hl).resolve_right fun hb => (hmore _ hb).2.2 b rfl) k after (hreset hk) hlt

/-- A call of `submit`. -/
theorem Fenced.submitted {v v' : View} (h : Fenced v) (hnumbered : Numbered v) {batch : Batch} (hcall : batch.call = v.nextCall)
    (hbatch : batch.stamp = v.stamp) (hlog : v'.log = v.log ++ [Event.submitted batch]) (hstamp : v'.stamp = v.stamp)
    (hnext : v'.nextCall = v.nextCall + 1) (hresets : ∀ k ∈ v.resets, k ∈ v'.resets) : Fenced v' := by
  have hreset {k : Nat} {after : Bool} (hk : .reset k after ∈ v'.log) : .reset k after ∈ v.log := by
    rw [hlog] at hk
    exact (List.mem_append.mp hk).resolve_right fun hk => by cases List.mem_singleton.mp hk
  refine ⟨fun b hb => ?_, fun b k after hb hk hlt => ?_, fun k after hk => ?_, fun b hb => ?_, fun l b hl k after hk hlt => ?_⟩
  · rw [hlog] at hb
    rw [hstamp]
    obtain hb | hb := List.mem_append.mp hb
    · exact h.stamp_le b hb
    · obtain rfl := Event.submitted.inj (List.mem_singleton.mp hb)
      exact hbatch.le
  · rw [hlog] at hb
    rw [hstamp]
    obtain hb | hb := List.mem_append.mp hb
    · exact h.stamp_lt b k after hb (hreset hk) hlt
    · obtain rfl := Event.submitted.inj (List.mem_singleton.mp hb)
      have := hnumbered.log_lt k (mem_call_of_reset (hreset hk))
      omega
  · rw [hlog]
    exact (h.cleaned k after (hreset hk)).imp (hresets k) fun ⟨calls, hcalls, hk⟩ => ⟨calls, List.mem_append_left _ hcalls, hk⟩
  · rw [hlog] at hb
    have := h.started_lt b ((List.mem_append.mp hb).resolve_right fun hb => by cases List.mem_singleton.mp hb)
    omega
  · rw [hlog] at hl
    exact h.started l b ((prefix_or_mem hl).resolve_right fun hb => by cases List.mem_singleton.mp hb) k after (hreset hk) hlt

/-- A call of `reset`. -/
theorem Fenced.reset {v v' : View} (h : Fenced v) {after : Bool} (hlog : v'.log = v.log ++ [Event.reset v.nextCall after])
    (hstamp : v'.stamp = v.stamp + 1) (hnext : v'.nextCall = v.nextCall + 1) (hresets : ∀ k ∈ v.resets, k ∈ v'.resets)
    (hcall : v.nextCall ∈ v'.resets) : Fenced v' := by
  have hsubmitted {b : Batch} (hb : .submitted b ∈ v'.log) : .submitted b ∈ v.log := by
    rw [hlog] at hb
    exact (List.mem_append.mp hb).resolve_right fun hb => by cases List.mem_singleton.mp hb
  have hstarted {b : Batch} (hb : .started b ∈ v'.log) : b.call < v.nextCall := by
    rw [hlog] at hb
    exact h.started_lt b ((List.mem_append.mp hb).resolve_right fun hb => by cases List.mem_singleton.mp hb)
  refine ⟨fun b hb => ?_, fun b k _ hb _ _ => ?_, fun k after' hk => ?_, fun b hb => ?_, fun l b hl k after' hk hlt => ?_⟩
  · have := h.stamp_le b (hsubmitted hb)
    omega
  · have := h.stamp_le b (hsubmitted hb)
    omega
  · rw [hlog] at hk ⊢
    obtain hk | hk := List.mem_append.mp hk
    · exact (h.cleaned k after' hk).imp (hresets k) fun ⟨calls, hcalls, hk⟩ => ⟨calls, List.mem_append_left _ hcalls, hk⟩
    · obtain ⟨rfl, -⟩ := Event.reset.inj (List.mem_singleton.mp hk)
      exact .inl hcall
  · have := hstarted hb
    omega
  · have hb := hstarted (hl.subset (List.mem_append_right _ (List.mem_singleton.mpr rfl)))
    rw [hlog] at hk hl
    have hl := (prefix_or_mem hl).resolve_right fun hb => by cases List.mem_singleton.mp hb
    obtain hk | hk := List.mem_append.mp hk
    · exact h.started l b hl k after' hk hlt
    · obtain ⟨rfl, -⟩ := Event.reset.inj (List.mem_singleton.mp hk)
      omega

/-- A batch is started when it is the first that is not settled. -/
theorem Fenced.start {v : View} (h : Fenced v) (hnumbered : Numbered v) {batch : Batch} {line : List Entry}
    (hline : v.line = .batch batch :: line) : Fenced { v with log := v.log ++ [Event.started batch] } := by
  have hcalls : v.calls = batch.call :: line.flatMap Entry.calls := by
    rw [View.calls, hline]
    rfl
  have hresets : ∀ k ∈ v.resets, batch.call < k := by
    intro k hk
    rw [View.resets, hline] at hk
    have hpairwise := hnumbered.calls
    rw [hcalls] at hpairwise
    refine (List.pairwise_cons.mp hpairwise).1 k ?_
    obtain ⟨entry, hentry, hk⟩ := List.mem_flatMap.mp hk
    obtain _ | hentry := List.mem_cons.mp hentry
    · subst entry
      cases hk
    · refine List.mem_flatMap.mpr ⟨entry, hentry, ?_⟩
      cases entry with
      | batch b => cases hk
      | reset r => exact hk
  have hsubmitted {b : Batch} (hb : .submitted b ∈ v.log ++ [Event.started batch]) : .submitted b ∈ v.log :=
    (List.mem_append.mp hb).resolve_right fun hb => by cases List.mem_singleton.mp hb
  have hreset {k : Nat} {after : Bool} (hk : .reset k after ∈ v.log ++ [Event.started batch]) : .reset k after ∈ v.log :=
    (List.mem_append.mp hk).resolve_right fun hk => by cases List.mem_singleton.mp hk
  refine ⟨fun b hb => h.stamp_le b (hsubmitted hb), fun b k after hb hk => h.stamp_lt b k after (hsubmitted hb) (hreset hk),
    fun k after hk => (h.cleaned k after (hreset hk)).imp_right fun ⟨calls, hcleaned, hk⟩ => ⟨calls, List.mem_append_left _ hcleaned, hk⟩,
    fun b hb => ?_, fun l b hl k after hk hlt => ?_⟩
  · obtain hb | hb := List.mem_append.mp hb
    · exact h.started_lt b hb
    · obtain rfl := Event.started.inj (List.mem_singleton.mp hb)
      exact hnumbered.calls_lt _ (hcalls ▸ List.mem_cons_self)
  · obtain hl | hl := List.prefix_concat_iff.mp hl
    · obtain ⟨rfl, hb⟩ := List.append_inj' hl rfl
      obtain rfl := Event.started.inj (List.singleton_inj.mp hb)
      refine (h.cleaned k after (hreset hk)).resolve_left fun hk => ?_
      have := hresets k hk
      omega
    · exact h.started l b hl k after (hreset hk) hlt

theorem Fenced.moves {v v' : View} (h : Fenced v) (hnumbered : Numbered v) (hmoves : Moves v v') : Fenced v' := by
  cases hmoves with
  | same => exact h
  | refuse batch reason sequences hcall hstamp =>
    have hsubmitted : Fenced { v with sequences, nextCall := v.nextCall + 1, log := v.log ++ [Event.submitted batch] } :=
      h.submitted hnumbered hcall hstamp rfl rfl rfl fun _ hk => hk
    exact hsubmitted.quiet [.refused batch reason] (by simp [Quiet]) (by simp) rfl rfl fun k hk => .inl hk
  | accept batch size count hcall hstamp =>
    exact h.submitted hnumbered hcall hstamp rfl rfl rfl fun k hk => by simpa [View.resets, Entry.resets] using hk
  | reset busy queue counted after hline =>
    have hjoin := @flatMap_joinReset Entry.resets Reset.calls (fun _ => rfl) v.nextCall (if after then [v.nextCall] else [])
      [v.nextCall] (fun _ => rfl) rfl (queue.filter (·.batch?.isNone))
    rw [flatMap_filter fun _ => rfl] at hjoin
    have hline' : (busy ++ Lane.joinReset (queue.filter (·.batch?.isNone)) v.nextCall (if after then [v.nextCall] else [])).flatMap
        Entry.resets = v.resets ++ [v.nextCall] := by
      rw [List.flatMap_append, hjoin, View.resets, hline, List.flatMap_append, List.append_assoc]
    have hreset : Fenced { v with
        line := busy ++ Lane.joinReset (queue.filter (·.batch?.isNone)) v.nextCall (if after then [v.nextCall] else [])
        stamp := v.stamp + 1
        nextCall := v.nextCall + 1
        log := v.log ++ [Event.reset v.nextCall after] } := by
      refine h.reset rfl rfl rfl (fun k hk => ?_) ?_
      · rw [View.resets, hline']
        exact List.mem_append_left _ hk
      · rw [View.resets, hline']
        exact List.mem_append_right _ (List.mem_singleton.mpr rfl)
    refine hreset.quiet ((queue.filterMap Entry.batch?).map (.refused · "unavailable") ++ [Event.interrupted]) ?_ (by simp) rfl rfl
      fun k hk => .inl hk
    simp only [Quiet, List.forall_mem_append, List.forall_mem_map, List.forall_mem_singleton]
    exact ⟨fun b _ => by simp, by simp⟩
  | start batch line hline => exact h.start hnumbered hline
  | settle batch line event hline hevent =>
    refine h.quiet [event] ?_ rfl rfl rfl fun k hk => .inl ?_
    · obtain rfl | rfl := hevent
      · simp [Quiet]
      · simp [Quiet]
    · rw [View.resets, hline] at hk
      simpa [Entry.resets] using hk
  | release => exact ⟨h.stamp_le, h.stamp_lt, h.cleaned, h.started_lt, h.started⟩
  | clean reset line hline =>
    refine h.quiet [.cleaned reset.calls] (by simp [Quiet]) rfl rfl rfl fun k hk => ?_
    rw [View.resets, hline, List.flatMap_cons] at hk
    exact (List.mem_append.mp hk).elim (fun hk => .inr ⟨reset.calls, List.mem_singleton.mpr rfl, hk⟩) .inl
  | answer call afters => exact h.quiet [.after call] (by simp [Quiet]) rfl rfl rfl fun k hk => .inl hk

/-! ## Runs -/

theorem Moves.log_isPrefix {v v' : View} (h : Moves v v') : v.log <+: v'.log := by
  cases h with
  | same | release => exact List.prefix_refl _
  | refuse | accept | reset | start | settle | clean | answer => exact List.prefix_append _ _

structure Sound (s : Lane) : Prop where
  alone : s.Alone
  counted : Counted s.view
  numbered : Numbered s.view
  settled : Settled s.view
  inOrder : InOrder s.view
  fenced : Fenced s.view

theorem sound_initial : Sound Lane.initial where
  alone := .inl ⟨rfl, rfl, rfl⟩
  counted := ⟨⟨rfl, by decide, fun _ h => absurd h List.not_mem_nil⟩, ⟨rfl, by decide, fun _ h => absurd h List.not_mem_nil⟩⟩
  numbered := ⟨.nil, fun _ h => absurd h List.not_mem_nil, .nil, fun _ h => absurd h List.not_mem_nil⟩
  settled := ⟨.nil, .nil⟩
  inOrder := ⟨.nil, fun _ h => absurd h List.not_mem_nil⟩
  fenced := ⟨fun _ h => absurd h List.not_mem_nil, fun _ _ _ h => absurd h List.not_mem_nil, fun _ _ h => absurd h List.not_mem_nil,
    fun _ h => absurd h List.not_mem_nil, fun _ _ _ _ _ h => absurd h List.not_mem_nil⟩

theorem Sound.step {s s' : Lane} {action : Action} (h : Sound s) (hstep : machine.step s action = some s') : Sound s' := by
  obtain ⟨halone, hmoves⟩ := h.alone.step hstep
  exact ⟨halone, h.counted.moves hmoves, h.numbered.moves hmoves, h.settled.moves hmoves, h.inOrder.moves hmoves,
    h.fenced.moves h.numbered hmoves⟩

theorem sound_run {actions : List Action} {s : Lane} (h : machine.run .initial actions = some s) : Sound s :=
  machine.invariant sound_initial (fun _ _ _ h hstep => h.step hstep) h

/-! ## Rest -/

/-- How many stretches a body has before it. -/
def Turn.left : Turn → Nat
  | .queued (.batch _) => 4
  | .queued (.reset r) => r.after.length + 4
  | .checked _ _ => 3
  | .called _ => 2
  | .cleaning r => r.after.length + 3
  | .calling after => after.length + 2
  | .finishing => 1

namespace Lane

variable {s s' : Lane}

def work (s : Lane) : Nat := (s.turns.map Turn.left).sum + (s.queue.map fun entry => (Turn.queued entry).left).sum

theorem work_next (s : Lane) : (next s).work = s.work := by
  unfold next
  split
  · rfl
  · rename_i entry queue h
    split
    · rfl
    · simp [work, h, Nat.add_assoc]

theorem exists_turn {t : Turn} (hturns : s.turns = [t]) : ∃ s', s.turn 0 = some s' ∧ s.work = s'.work + 1 := by
  obtain ⟨queue, stamp, running, bytes, events, sequences, turns, nextCall, log⟩ := s
  obtain rfl : turns = [t] := hturns
  cases t with
  | queued entry =>
    cases entry with
    | batch b => exact ⟨_, rfl, by simp [work, Turn.left]; omega⟩
    | reset r => exact ⟨_, rfl, by simp [work, Turn.left]; omega⟩
  | checked b current =>
    cases current with
    | true => exact ⟨_, rfl, by simp [work, Turn.left]; omega⟩
    | false => exact ⟨_, rfl, by simp [work, Turn.left, refuse]; omega⟩
  | called b => exact ⟨_, rfl, by simp [work, Turn.left]; omega⟩
  | cleaning r => exact ⟨_, rfl, by simp [work, Turn.left]; omega⟩
  | calling after =>
    cases after with
    | nil => exact ⟨_, rfl, by simp [work, Turn.left]; omega⟩
    | cons call after => exact ⟨_, rfl, by simp [work, Turn.left]; omega⟩
  | finishing =>
    refine ⟨_, rfl, ?_⟩
    rw [finished, work_next]
    simp [work, Turn.left]
    omega

end Lane

/-- Bodies that go on leave nothing on the way. -/
theorem exists_rest {s : Lane} (h : Sound s) : ∃ t, machine.run s (List.replicate s.work (.turn 0)) = some t ∧
    Sound t ∧ s.log <+: t.log ∧ t.turns = [] ∧ t.queue = [] := by
  induction hwork : s.work generalizing s with
  | zero =>
    obtain ⟨-, hturns, hqueue⟩ | ⟨-, t, hturns⟩ := h.alone
    · exact ⟨s, rfl, h, List.prefix_refl _, hturns, hqueue⟩
    · obtain ⟨s', -, hleft⟩ := Lane.exists_turn hturns
      omega
  | succ n ih =>
    obtain ⟨-, hturns, hqueue⟩ | ⟨-, t, hturns⟩ := h.alone
    · rw [Lane.work, hturns, hqueue] at hwork
      cases hwork
    · obtain ⟨s', hturn, hleft⟩ := Lane.exists_turn hturns
      have hstep : machine.step s (.turn 0) = some s' := hturn
      obtain ⟨t, hrun, ht, hlog, hrest⟩ := ih (h.step hstep) (by omega)
      refine ⟨t, ?_, ht, (h.alone.step hstep).2.log_isPrefix.trans hlog, hrest⟩
      rw [List.replicate_succ, machine.run_cons_eq_some]
      exact ⟨s', hstep, hrun⟩

/-! ## What is accounted for -/

theorem submissions_sublist (log : List Event) :
    ((log.filterMap Event.submission).map Batch.call).Sublist (log.filterMap Event.call) := by
  induction log with
  | nil => exact List.Sublist.refl _
  | cons e log ih =>
    cases e with
    | submitted b => exact ih.cons_cons b.call
    | reset k after => exact ih.cons k
    | refused | started | ran | interrupted | cleaned | after => exact ih

theorem given_sublist (log : List Event) : (log.filterMap Event.given).Sublist (log.filterMap Event.call) := by
  induction log with
  | nil => exact List.Sublist.refl _
  | cons e log ih =>
    cases e with
    | submitted b => exact ih.cons b.call
    | reset k after =>
      cases after with
      | true => exact ih.cons_cons k
      | false => exact ih.cons k
    | refused | started | ran | interrupted | cleaned | after => exact ih

theorem Sound.outcomes {s : Lane} (h : Sound s) {b : Batch} (hb : .submitted b ∈ s.log) :
    (s.log.filterMap Event.outcome).count b + s.waiting.count b = 1 := by
  have hnodup : (s.log.filterMap Event.submission).Nodup :=
    List.Nodup.of_map Batch.call ((h.numbered.log.sublist (submissions_sublist s.log)).imp Nat.ne_of_lt)
  have hmem : b ∈ s.log.filterMap Event.submission := List.mem_filterMap.mpr ⟨_, hb, rfl⟩
  exact List.count_append.symm.trans ((h.settled.balance.count_eq b).symm.trans (List.count_eq_one_of_mem hnodup hmem))

theorem Sound.answers {s : Lane} (h : Sound s) {k : Nat} (hk : .reset k true ∈ s.log) :
    (s.log.filterMap Event.answered).count k + s.afters.count k = 1 := by
  have hnodup : (s.log.filterMap Event.given).Nodup := (h.numbered.log.sublist (given_sublist s.log)).imp Nat.ne_of_lt
  have hmem : k ∈ s.log.filterMap Event.given := List.mem_filterMap.mpr ⟨_, hk, rfl⟩
  exact List.count_append.symm.trans ((h.settled.answers.count_eq k).symm.trans (List.count_eq_one_of_mem hnodup hmem))

theorem Sound.token {s : Lane} (h : Sound s) {l l' : List Event} {k : Nat} {after : Bool} {b : Batch}
    (hlog : s.log = l ++ Event.reset k after :: l') (hb : .submitted b ∈ l) : s.current b.stamp = false := by
  have hcalls : (l.filterMap Event.call ++ k :: l'.filterMap Event.call).Pairwise (· < ·) := by
    have := h.numbered.log
    rw [show s.view.log = s.log from rfl, hlog, List.filterMap_append] at this
    exact this
  have hlt : b.call < k := (List.pairwise_append.mp hcalls).2.2 _ (List.mem_filterMap.mpr ⟨_, hb, rfl⟩) _ List.mem_cons_self
  have hsubmitted : .submitted b ∈ s.log := hlog ▸ List.mem_append_left _ hb
  have hreset : .reset k after ∈ s.log := hlog ▸ List.mem_append_right _ List.mem_cons_self
  have hstamp := h.fenced.stamp_lt b k after hsubmitted hreset hlt
  exact decide_eq_false (Nat.ne_of_gt hstamp)

theorem Sound.behind {s : Lane} (h : Sound s) {l m : List Event} {k : Nat} {after : Bool} {b : Batch}
    (hlog : l ++ Event.reset k after :: m ++ [Event.started b] <+: s.log) (hb : .submitted b ∈ m) :
    ∃ calls, .cleaned calls ∈ l ++ Event.reset k after :: m ∧ k ∈ calls := by
  have hsub : (l ++ Event.reset k after :: m).Sublist s.log := (List.sublist_append_left _ _).trans hlog.sublist
  have hcalls : (l.filterMap Event.call ++ k :: m.filterMap Event.call).Pairwise (· < ·) := by
    have := h.numbered.log.sublist (hsub.filterMap Event.call)
    rw [List.filterMap_append] at this
    exact this
  have hlt : k < b.call :=
    (List.pairwise_cons.mp (List.pairwise_append.mp hcalls).2.1).1 _ (List.mem_filterMap.mpr ⟨_, hb, rfl⟩)
  exact h.fenced.started _ b hlog k after (hsub.subset (List.mem_append_right _ List.mem_cons_self)) hlt

end Opensteer.PersonInputLane
