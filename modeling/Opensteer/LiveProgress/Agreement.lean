import Opensteer.LiveProgress.Buffer

/-!
# The Host's streams follow the Runner's

At any time reading what the buffer has taken and not yet handed over leads the
Host's view of each stream from a beginning of the stream's text to where the
unsent text goes on (`Held`). So once nothing is unsent the Host has every
stream as the buffer does, and before that each of its streams is a beginning
(`live_streams_agree`). The condition is that nothing a completed stream left
behind would open it again, which a replace does (`completed_stream_reopens`).
-/

namespace Opensteer.LiveProgress

variable {o : BufferOptions} {s : LiveProgressBuffer} {id : String} {v w : Option (Feed.View Text)}

/-! ## What holds of the buffer -/

/-- The items of a job that are not yet handed to `send`. -/
def Job.rest : Job → List LiveItem
  | ⟨items, .waiting⟩ => items
  | ⟨_, .sending next⟩ => next
  | ⟨_, .settled⟩ => []

/-- What has been taken and may still be handed to `send`. -/
def unhanded (s : LiveProgressBuffer) : List LiveItem :=
  if s.exhausted then [] else s.tail.flatMap Job.rest

/-- The text a stream has received. -/
def textOf (s : LiveProgressBuffer) (id : String) : Text :=
  ((s.streams.get id).map LiveStream.text).getD []

structure StreamOk (id : String) (stream : LiveStream) : Prop where
  key : liveStreamKeyId stream.key = id
  length : stream.length = stream.text.length
  tail : stream.tail = appendLiveStreamTail [] stream.text
  cuts : CutsWell stream.text
  nonempty : stream.text ≠ []
  pending : stream.pending <:+ stream.text
  resync : stream.resync = true → stream.pending = []

structure BufferOk (s : LiveProgressBuffer) : Prop where
  streams : ∀ id stream, s.streams.get id = some stream → StreamOk id stream
  closed : s.closed = false
  exhausted : s.exhausted = true → ∀ id stream, s.streams.get id = some stream → stream.pending = []
  waiting : ∀ job ∈ s.tail.tail, job.phase = .waiting
  running : s.exhausted = true → ∀ job ∈ s.tail, ∀ item rest, job.phase ≠ .sending (item :: rest)

/-- Where a stream's unsent text goes on. -/
def AimsAt (s : LiveProgressBuffer) (id : String) (w : Option (Feed.View Text)) : Prop :=
  ∀ stream, s.streams.get id = some stream → s.exhausted = false → stream.resync = false →
    w = Feed.viewAt tails stream.text (stream.text.length - stream.pending.length)

/-- The view is of a beginning of the stream's text, and what is unhanded leads it
to where the unsent text goes on. -/
structure Held (s : LiveProgressBuffer) (id : String) (v : Option (Feed.View Text)) : Prop where
  isView : ∃ n ≤ (textOf s id).length, v = Feed.viewAt tails (textOf s id) n
  leads : ∃ w, Feed.Leads tails (textOf s id) v (opsOf id (unhanded s)) w ∧ AimsAt s id w

theorem textOf_of_get {stream : LiveStream} (h : s.streams.get id = some stream) :
    textOf s id = stream.text := by
  rw [textOf, h]; rfl

theorem textOf_of_none (h : s.streams.get id = none) : textOf s id = [] := by
  rw [textOf, h]; rfl

/-! ## Taking what is unsent -/

theorem surrogateSafeCut_pos (text : Text) {n : Nat} (hn : 1 < n) : 0 < surrogateSafeCut text n := by
  unfold surrogateSafeCut
  split <;> omega

/-- The appends that pending text is cut into lead to the end of the text. -/
theorem leads_cutAppends {T : Text} (key : LiveStreamKey) (fuel at_ : Nat) (rest : Text)
    (hrest : T.drop at_ = rest) (hat : at_ ≤ T.length) (hfuel : rest.length ≤ fuel) :
    Feed.Leads tails T (Feed.viewAt tails T at_) ((cutAppends key fuel at_ rest).map toOp)
      (Feed.viewAt tails T T.length) := by
  have hdone : rest = [] → at_ = T.length := by
    rintro rfl
    have := congrArg List.length hrest
    simp only [List.length_drop, List.length_nil] at this
    omega
  induction fuel generalizing at_ rest with
  | zero =>
    rw [hdone (List.eq_nil_of_length_eq_zero (Nat.le_zero.mp hfuel))]
    exact .nil
  | succ fuel ih =>
    unfold cutAppends
    split
    · rename_i h
      rw [hdone h]
      exact .nil
    · rename_i hne
      have hpos : 0 < rest.length := List.length_pos_iff.mpr hne
      dsimp only
      generalize hcut : (if rest.length ≤ liveAppendTextMaxLength then rest.length
        else surrogateSafeCut rest liveAppendTextMaxLength) = cut
      have hcutpos : 0 < cut := by
        rw [← hcut]
        split
        · exact hpos
        · exact surrogateSafeCut_pos rest (by decide)
      have hchunk : rest.take cut ≠ [] := by
        rw [Ne, List.take_eq_nil_iff]
        rintro (h | h)
        · omega
        · exact hne h
      have hlen : (rest.take cut).length ≤ rest.length := List.length_take_le' ..
      have hchunkpos := List.length_pos_iff.mpr hchunk
      have htotal : T.length = at_ + rest.length := by
        rw [← hrest, List.length_drop]
        omega
      have hone := Feed.Leads.append_one (S := tails) hchunk
        (by rw [hrest]; exact List.take_prefix cut rest) hat
      refine hone.trans (ih _ _ ?_ (by omega) ?_ fun h => ?_)
      · rw [← List.drop_drop, hrest]
      · rw [List.length_drop]
        omega
      · have := congrArg List.length h
        simp only [List.length_drop, List.length_nil] at this
        omega

/-- What is taken of a stream leads to the end of its text. -/
theorem leads_pendingItems {stream : LiveStream} (h : StreamOk id stream)
    (hw : stream.resync = false →
      w = Feed.viewAt tails stream.text (stream.text.length - stream.pending.length)) :
    Feed.Leads tails stream.text w ((pendingItems stream).map toOp)
      (Feed.viewAt tails stream.text stream.text.length) := by
  unfold pendingItems
  cases hr : stream.resync with
  | true =>
    refine .replace ?_ (Nat.le_of_eq h.length) ?_ ?_
    · rw [h.length]
      exact List.length_pos_iff.mpr h.nonempty
    · rw [h.tail, h.length, List.take_length]
      rfl
    · rw [h.length]
      exact .nil
  | false =>
    obtain ⟨pre, hpre⟩ := h.pending
    have hlen := congrArg List.length hpre
    rw [List.length_append] at hlen
    have hat : stream.text.length - stream.pending.length = pre.length := by omega
    rw [hw hr, h.length, hat]
    refine leads_cutAppends stream.key _ _ _ ?_ (by omega) (Nat.le_refl _)
    rw [← hpre, List.drop_left]

theorem key_of_mem_cutAppends {key : LiveStreamKey} {fuel at_ : Nat} {rest : Text} {item : LiveItem}
    (h : item ∈ cutAppends key fuel at_ rest) : item.key = key := by
  induction fuel generalizing at_ rest with
  | zero => simp [cutAppends] at h
  | succ fuel ih =>
    unfold cutAppends at h
    split at h
    · simp at h
    · rcases List.mem_cons.mp h with rfl | h
      · rfl
      · exact ih h

theorem key_of_mem_pendingItems {stream : LiveStream} {item : LiveItem}
    (h : item ∈ pendingItems stream) : item.key = stream.key := by
  unfold pendingItems at h
  split at h
  · rw [List.mem_singleton.mp h]
    rfl
  · exact key_of_mem_cutAppends h

/-- Of one stream, what is taken is what is taken of it. -/
theorem opsOf_takePending (h : BufferOk s) (id : String) :
    opsOf id (takePending s).2 = ((s.streams.get id).elim [] pendingItems).map toOp := by
  unfold opsOf takePending
  rw [OrderedMap.filter_flatMap s.streams pendingItems]
  intro id' stream hs item hitem
  rw [decide_eq_true_iff, key_of_mem_pendingItems hitem, (h.streams id' stream hs).key]

/-! ## Flushing -/

/-- What `mapValues` may do to streams that it leaves in place. -/
structure KeepsStreams (f : LiveStream → LiveStream) : Prop where
  key : ∀ stream, (f stream).key = stream.key
  length : ∀ stream, (f stream).length = stream.length
  tail : ∀ stream, (f stream).tail = stream.tail
  text : ∀ stream, (f stream).text = stream.text
  pending : ∀ stream, (f stream).pending = [] ∨
    (f stream).pending = stream.pending ∧ (f stream).resync = stream.resync

variable {f : LiveStream → LiveStream}

theorem KeepsStreams.streamOk (hf : KeepsStreams f) {stream : LiveStream} (h : StreamOk id stream) :
    StreamOk id (f stream) where
  key := by rw [hf.key, h.key]
  length := by rw [hf.length, hf.text, h.length]
  tail := by rw [hf.tail, hf.text, h.tail]
  cuts := by rw [hf.text]; exact h.cuts
  nonempty := by rw [hf.text]; exact h.nonempty
  pending := by
    rcases hf.pending stream with hp | ⟨hp, -⟩
    · rw [hp]
      exact List.nil_suffix
    · rw [hp, hf.text]
      exact h.pending
  resync hr := by
    rcases hf.pending stream with hp | ⟨hp, hsame⟩
    · exact hp
    · rw [hp]
      exact h.resync (hsame ▸ hr)

/-- The streams are changed in place, and the jobs stay as they are. -/
theorem BufferOk.mapStreams (hf : KeepsStreams f) (h : BufferOk s) (pendingBytes : Int)
    (exhausted timer : Bool)
    (hpending : exhausted = true → ∀ id stream, s.streams.get id = some stream →
      (f stream).pending = [])
    (hrunning : exhausted = true → ∀ job ∈ s.tail, ∀ item rest, job.phase ≠ .sending (item :: rest)) :
    BufferOk { s with streams := s.streams.mapValues f, pendingBytes, exhausted, timer } where
  streams id stream hs := by
    simp only [OrderedMap.get_mapValues, Option.map_eq_some_iff] at hs
    obtain ⟨before, hb, rfl⟩ := hs
    exact hf.streamOk (h.streams id before hb)
  closed := h.closed
  exhausted he id stream hs := by
    simp only [OrderedMap.get_mapValues, Option.map_eq_some_iff] at hs
    obtain ⟨before, hb, rfl⟩ := hs
    exact hpending he id before hb
  waiting := h.waiting
  running := hrunning

theorem textOf_mapValues (hf : KeepsStreams f) (s : LiveProgressBuffer) (id : String)
    {t : LiveProgressBuffer} (ht : t.streams = s.streams.mapValues f) : textOf t id = textOf s id := by
  rw [textOf, textOf, ht, OrderedMap.get_mapValues]
  cases s.streams.get id with
  | none => rfl
  | some stream => exact hf.text stream

/-- A stream whose unsent text is dropped is to be replaced whole. -/
theorem Held.mapStreams (hf : KeepsStreams f) {t : LiveProgressBuffer}
    (ht : t.streams = s.streams.mapValues f) (hun : unhanded t = unhanded s)
    (hex : t.exhausted = s.exhausted)
    (haim : ∀ stream, (f stream).resync = false →
      stream.resync = false ∧ (f stream).pending = stream.pending)
    (h : Held s id v) : Held t id v := by
  have htext := textOf_mapValues hf s id ht
  obtain ⟨w, hleads, hat⟩ := h.leads
  refine ⟨htext ▸ h.isView, w, ?_, fun stream hs he hr => ?_⟩
  · rw [htext, hun]
    exact hleads
  · rw [ht, OrderedMap.get_mapValues, Option.map_eq_some_iff] at hs
    obtain ⟨before, hb, rfl⟩ := hs
    obtain ⟨hr', hp⟩ := haim before hr
    rw [hf.text, hp]
    exact hat before hb (hex ▸ he) hr'

theorem keeps_dropPending : KeepsStreams dropPending where
  key stream := by unfold dropPending; split <;> rfl
  length stream := by unfold dropPending; split <;> rfl
  tail stream := by unfold dropPending; split <;> rfl
  text stream := by unfold dropPending; split <;> rfl
  pending stream := by
    unfold dropPending
    split
    · exact .inr ⟨rfl, rfl⟩
    · exact .inl rfl

theorem keeps_taken : KeepsStreams taken where
  key _ := rfl
  length _ := rfl
  tail _ := rfl
  text _ := rfl
  pending _ := .inl rfl

/-- What is taken is queued behind what was taken before. -/
theorem Held.takePending (hok : BufferOk s) (h : Held s id v) {t : LiveProgressBuffer}
    (ht : t.streams = s.streams.mapValues taken) (hex : t.exhausted = s.exhausted)
    (hun : s.exhausted = false → unhanded t = unhanded s ++ (LiveProgress.takePending s).2) :
    Held t id v := by
  have htext := textOf_mapValues keeps_taken s id ht
  obtain ⟨w, hleads, hat⟩ := h.leads
  cases he : s.exhausted with
  | true =>
    refine ⟨htext ▸ h.isView, v, ?_, fun stream _ hno => ?_⟩
    · rw [unhanded, hex, he]
      exact .nil
    · rw [hex, he] at hno
      cases hno
  | false =>
    refine ⟨htext ▸ h.isView, ?_⟩
    rw [htext, hun he, opsOf_append, opsOf_takePending hok]
    cases hs : s.streams.get id with
    | none =>
      refine ⟨w, hleads.trans .nil, fun stream hst => ?_⟩
      rw [ht, OrderedMap.get_mapValues, hs] at hst
      cases hst
    | some stream =>
      rw [textOf_of_get hs] at hleads ⊢
      refine ⟨_, hleads.trans (leads_pendingItems (hok.streams id stream hs) fun hr =>
        hat stream hs he hr), fun after hst _ _ => ?_⟩
      rw [ht, OrderedMap.get_mapValues, hs] at hst
      obtain rfl := Option.some.inj hst
      rfl

theorem unhanded_of_not_exhausted (h : s.exhausted = false) :
    unhanded s = s.tail.flatMap Job.rest := by
  rw [unhanded, h]; rfl

theorem waiting_snoc {tail : List Job} (h : ∀ job ∈ tail.tail, job.phase = .waiting)
    (items : List LiveItem) :
    ∀ job ∈ (tail ++ [(⟨items, .waiting⟩ : Job)]).tail, job.phase = .waiting := by
  cases tail with
  | nil => simp
  | cons job rest =>
    intro j hj
    rcases List.mem_append.mp hj with hj | hj
    · exact h j hj
    · rw [List.mem_singleton.mp hj]

theorem flush_spec (o : BufferOptions) (hok : BufferOk s) :
    BufferOk (flush o s).1 ∧ ∀ id v, Held s id v → Held (flush o s).1 id v := by
  unfold flush
  dsimp only
  split
  · have hdrop := keeps_dropPending
    refine ⟨hok.mapStreams hdrop 0 s.exhausted false (fun he id stream hs => ?_) hok.running,
      fun id v h => h.mapStreams hdrop rfl rfl rfl fun stream hr => ?_⟩
    · rw [dropPending, if_pos (hok.exhausted he id stream hs)]
      exact hok.exhausted he id stream hs
    · unfold dropPending at hr ⊢
      split at hr
      · rw [if_pos ‹_›]
        exact ⟨hr, rfl⟩
      · cases hr
  · have htaken : ∀ tail : List Job, (∀ job ∈ tail.tail, job.phase = .waiting) →
        (s.exhausted = true → ∀ job ∈ tail, ∀ item rest, job.phase ≠ .sending (item :: rest)) →
        ∀ inFlightBytes, BufferOk { s with
          streams := s.streams.mapValues taken, pendingBytes := 0, timer := false, tail
          inFlightBytes } := by
      intro tail hwaiting hrunning inFlightBytes
      have h := hok.mapStreams keeps_taken 0 s.exhausted false (fun _ _ _ _ => rfl) hok.running
      exact ⟨h.streams, h.closed, h.exhausted, hwaiting, hrunning⟩
    split
    · rename_i hnil
      refine ⟨htaken s.tail hok.waiting hok.running s.inFlightBytes, fun id v h =>
        h.takePending hok rfl rfl fun _ => ?_⟩
      have hnone : (takePending s).2 = [] := hnil
      rw [hnone, List.append_nil]
      rfl
    · refine ⟨htaken _ (waiting_snoc hok.waiting _) (fun he => ?_) _, fun id v h =>
        h.takePending hok rfl rfl fun he => ?_⟩
      · refine List.forall_mem_append.mpr ⟨hok.running he, fun job hj item rest => ?_⟩
        rw [List.mem_singleton.mp hj]
        simp
      · rw [unhanded_of_not_exhausted he, unhanded_of_not_exhausted (by exact he)]
        simp [Job.rest, takePending]

/-- `BufferOk` and `Held` go by other fields than `flushes` and `timer`. -/
theorem BufferOk.other (h : BufferOk s) (flushes : List Flush) (timer : Bool) :
    BufferOk { s with flushes, timer } :=
  ⟨h.streams, h.closed, h.exhausted, h.waiting, h.running⟩

theorem Held.other (h : Held s id v) (flushes : List Flush) (timer : Bool) :
    Held { s with flushes, timer } id v := ⟨h.isView, h.leads⟩

theorem callFlush_spec (o : BufferOptions) (hok : BufferOk s) (completes : Option LiveStreamKey) :
    BufferOk (callFlush o s completes) ∧ ∀ id v, Held s id v → Held (callFlush o s completes) id v := by
  obtain ⟨hok', hheld⟩ := flush_spec o hok
  unfold callFlush
  dsimp only
  split
  · exact ⟨hok', hheld⟩
  · exact ⟨hok'.other _ _, fun id v h => (hheld id v h).other _ _⟩

/-! ## Receiving text -/

/-- The stream an append continues. -/
def openStream (s : LiveProgressBuffer) (key : LiveStreamKey) : LiveStream :=
  (s.streams.get (liveStreamKeyId key)).getD ⟨key, [], 0, false, [], []⟩

/-- The stream with the text it receives. -/
def received (stream : LiveStream) (text : Text) : LiveStream :=
  { stream with
    length := stream.length + text.length
    tail := appendLiveStreamTail stream.tail text
    text := stream.text ++ text }

theorem text_openStream (s : LiveProgressBuffer) (key : LiveStreamKey) :
    (openStream s key).text = textOf s (liveStreamKeyId key) := by
  unfold openStream textOf
  cases s.streams.get (liveStreamKeyId key) <;> rfl

theorem streamOk_received (hok : BufferOk s) {key : LiveStreamKey} {text : Text} (hne : text ≠ [])
    (hcuts : CutsWell (textOf s (liveStreamKeyId key) ++ text)) :
    ((openStream s key).pending = [] →
        StreamOk (liveStreamKeyId key) (received (openStream s key) text)) ∧
      ((openStream s key).resync = false → StreamOk (liveStreamKeyId key)
        { received (openStream s key) text with pending := (openStream s key).pending ++ text }) := by
  have hopen : liveStreamKeyId (openStream s key).key = liveStreamKeyId key ∧
      (openStream s key).length = (openStream s key).text.length ∧
      (openStream s key).tail = appendLiveStreamTail [] (openStream s key).text ∧
      (openStream s key).pending <:+ (openStream s key).text ∧
      ((openStream s key).resync = true → (openStream s key).pending = []) := by
    unfold openStream
    cases hs : s.streams.get (liveStreamKeyId key) with
    | none => exact ⟨rfl, rfl, rfl, List.suffix_rfl, fun _ => rfl⟩
    | some stream =>
      have h := hok.streams _ stream hs
      exact ⟨h.key, h.length, h.tail, h.pending, h.resync⟩
  obtain ⟨hkey, hlength, htail, hpending, hresync⟩ := hopen
  rw [← text_openStream] at hcuts
  have hnext : (received (openStream s key) text).tail =
      appendLiveStreamTail [] ((openStream s key).text ++ text) := by
    rw [← appendLiveStreamTail_append hcuts, ← htail]
    rfl
  have hlen : (received (openStream s key) text).length =
      ((openStream s key).text ++ text).length := by
    rw [List.length_append, ← hlength]
    rfl
  have hnonempty : (openStream s key).text ++ text ≠ [] := fun h =>
    hne (List.append_eq_nil_iff.mp h).2
  refine ⟨fun hnil => ⟨hkey, hlen, hnext, hcuts, hnonempty, ?_, hresync⟩,
    fun hr => ⟨hkey, hlen, hnext, hcuts, hnonempty, ?_, fun h => absurd (hr.symm.trans h) (by simp)⟩⟩
  · exact hnil ▸ List.nil_suffix
  · obtain ⟨pre, hpre⟩ := hpending
    exact ⟨pre, by rw [← List.append_assoc, hpre]; rfl⟩

/-- A stream that receives text is led on as before. -/
theorem Held.received {key : LiveStreamKey} {text pending : Text} {resync : Bool}
    {t : LiveProgressBuffer} (h : Held s id v)
    (ht : t.streams = s.streams.set (liveStreamKeyId key)
      { LiveProgress.received (openStream s key) text with pending, resync })
    (hun : unhanded t = unhanded s) (hex : t.exhausted = s.exhausted)
    (hpending : s.exhausted = false → resync = false → (openStream s key).resync = false ∧
      pending = (openStream s key).pending ++ text) : Held t id v := by
  by_cases hid : liveStreamKeyId key = id
  · have hget : t.streams.get id =
        some { LiveProgress.received (openStream s key) text with pending, resync } := by
      rw [ht, OrderedMap.get_set, if_pos hid]
    have htext : textOf t id = textOf s id ++ text := by
      rw [textOf_of_get hget, ← hid, ← text_openStream]
      rfl
    obtain ⟨n, hn, hv⟩ := h.isView
    obtain ⟨w, hleads, hat⟩ := h.leads
    refine ⟨⟨n, ?_, ?_⟩, w, ?_, fun stream hs he hr => ?_⟩
    · rw [htext, List.length_append]
      omega
    · rw [htext, Feed.viewAt_append text hn, hv]
    · rw [htext, hun]
      exact hleads.extend text
    · rw [hget] at hs
      obtain rfl := Option.some.inj hs
      obtain ⟨hbefore, hp⟩ := hpending (hex ▸ he) hr
      change w = Feed.viewAt tails ((openStream s key).text ++ text)
        (((openStream s key).text ++ text).length - pending.length)
      rw [text_openStream, hid, hp, List.length_append, List.length_append]
      cases hs : s.streams.get id with
      | none =>
        have hnone := textOf_of_none hs
        have hv : v = none := by
          rw [hnone, List.length_nil] at hn
          rw [hv, Nat.le_zero.mp hn]
          rfl
        rw [hnone, hleads.eq_none hnone hv]
        simp [Feed.viewAt]
      | some stream =>
        have hopen : openStream s key = stream := by rw [openStream, hid, hs]; rfl
        rw [hopen] at hbefore ⊢
        have hlen : (textOf s id).length + text.length - (stream.pending.length + text.length) =
            (textOf s id).length - stream.pending.length := by omega
        rw [hlen, Feed.viewAt_append text (by omega), hat stream hs (hex ▸ he) hbefore,
          textOf_of_get hs]
  · have hget : t.streams.get id = s.streams.get id := by
      rw [ht, OrderedMap.get_set, if_neg hid]
    have htext : textOf t id = textOf s id := by rw [textOf, textOf, hget]
    obtain ⟨w, hleads, hat⟩ := h.leads
    refine ⟨htext ▸ h.isView, w, ?_, fun stream hs he hr => ?_⟩
    · rw [htext, hun]
      exact hleads
    · exact hat stream (hget ▸ hs) (hex ▸ he) hr

/-- A stream is set. -/
theorem BufferOk.setStream (h : BufferOk s) {stream : LiveStream} (hs : StreamOk id stream)
    (hex : s.exhausted = true → stream.pending = []) (pendingBytes : Int) :
    BufferOk { s with streams := s.streams.set id stream, pendingBytes } where
  streams id' stream' hs' := by
    rw [OrderedMap.get_set] at hs'
    split at hs'
    · rename_i hid
      obtain rfl := Option.some.inj hs'
      exact hid ▸ hs
    · exact h.streams id' stream' hs'
  closed := h.closed
  exhausted he id' stream' hs' := by
    rw [OrderedMap.get_set] at hs'
    split at hs'
    · obtain rfl := Option.some.inj hs'
      exact hex he
    · exact h.exhausted he id' stream' hs'
  waiting := h.waiting
  running := h.running

/-- An append sends at once, or on the clock. -/
theorem sendOrSchedule_spec (o : BufferOptions) (hok : BufferOk s) :
    BufferOk (if (o.maxPendingBytes : Int) ≤ s.pendingBytes then callFlush o s none else schedule s) ∧
      ∀ id v, Held s id v → Held
        (if (o.maxPendingBytes : Int) ≤ s.pendingBytes then callFlush o s none else schedule s) id v := by
  split
  · exact callFlush_spec o hok none
  · unfold schedule
    split
    · exact ⟨hok, fun id v h => h⟩
    · exact ⟨hok.other _ _, fun id v h => h.other _ _⟩

theorem append_spec (o : BufferOptions) (hok : BufferOk s) {key : LiveStreamKey} {text : Text}
    (hcuts : CutsWell (textOf s (liveStreamKeyId key) ++ text)) :
    BufferOk (append o s key text) ∧ ∀ id v, Held s id v → Held (append o s key text) id v := by
  unfold append
  split
  · exact ⟨hok, fun id v h => h⟩
  · rename_i hopen
    push Not at hopen
    obtain ⟨hwhole, hmore⟩ := streamOk_received hok hopen.2 hcuts
    have hpending : s.exhausted = true → (openStream s key).pending = [] := by
      intro he
      unfold openStream
      cases hs : s.streams.get (liveStreamKeyId key) with
      | none => rfl
      | some stream => exact hok.exhausted he _ stream hs
    have hresync : (openStream s key).resync = true → (openStream s key).pending = [] := by
      unfold openStream
      cases hs : s.streams.get (liveStreamKeyId key) with
      | none => intro _; rfl
      | some stream => exact (hok.streams _ stream hs).resync
    split
    · rename_i he
      have hset := hok.setStream (hwhole (hpending he)) (fun _ => hpending he) s.pendingBytes
      refine ⟨hset, fun id v h => h.received rfl rfl rfl fun hno => ?_⟩
      rw [he] at hno
      cases hno
    · rename_i he
      -- The stream as it is set, before what may be flushed or scheduled.
      have hset : ∀ t, t = (if (openStream s key).resync then
            { s with streams := s.streams.set (liveStreamKeyId key) (received (openStream s key) text) }
          else { s with
            streams := s.streams.set (liveStreamKeyId key)
              { received (openStream s key) text with pending := (openStream s key).pending ++ text }
            pendingBytes := s.pendingBytes + o.utf8Bytes text }) →
          BufferOk t ∧ ∀ id v, Held s id v → Held t id v := by
        rintro t rfl
        split
        · rename_i hr
          refine ⟨hok.setStream (hwhole (hresync hr)) (fun he' => absurd he' he) _,
            fun id v h => h.received rfl rfl rfl fun _ hno => ?_⟩
          exact absurd (hr.symm.trans hno) (by simp)
        · rename_i hr
          have hr : (openStream s key).resync = false := by simpa using hr
          exact ⟨hok.setStream (hmore hr) (fun he' => absurd he' he) _,
            fun id v h => h.received rfl rfl rfl fun _ _ => ⟨hr, rfl⟩⟩
      obtain ⟨hok', hheld⟩ := hset _ rfl
      obtain ⟨hdone, hdone'⟩ := sendOrSchedule_spec o hok'
      exact ⟨hdone, fun id v h => hdone' id v (hheld id v h)⟩

/-! ## Completing and resynchronizing -/

/-- An item that opens no stream. -/
def isStray : LiveItem → Bool
  | .append _ at_ _ => 0 < at_
  | .replace .. => false

/-- Nothing that is unhanded would open the stream again. -/
def ClosesWell (s : LiveProgressBuffer) (key : LiveStreamKey) : Prop :=
  ∀ item ∈ unhanded s, item.key = key → isStray item = true

instance (s : LiveProgressBuffer) (key : LiveStreamKey) : Decidable (ClosesWell s key) := by
  unfold ClosesWell; infer_instance

theorem liveStreamKeyId_injective {k k' : LiveStreamKey}
    (h : liveStreamKeyId k = liveStreamKeyId k') : k = k' := by
  have hl := congrArg String.toList h
  cases k <;> cases k' <;> simp [liveStreamKeyId] at hl ⊢ <;> exact String.ext hl

theorem opsOf_strays {key : LiveStreamKey} (h : ClosesWell s key) :
    ∀ op ∈ opsOf (liveStreamKeyId key) (unhanded s), ∃ at_ xs,
      op = Feed.Op.append at_ xs ∧ 0 < at_ := by
  intro op hop
  obtain ⟨item, hitem, rfl⟩ := List.mem_map.mp hop
  obtain ⟨hmem, hid⟩ := List.mem_filter.mp hitem
  have hstray := h item hmem (liveStreamKeyId_injective (of_decide_eq_true hid))
  cases item with
  | append key at_ text => exact ⟨at_, text, rfl, of_decide_eq_true hstray⟩
  | replace key length text => cases hstray

theorem complete_spec (o : BufferOptions) (hok : BufferOk s) (key : LiveStreamKey)
    (hcloses : ClosesWell s key) :
    BufferOk (complete o s key) ∧ ∀ id v, Held s id v → Held (complete o s key) id
      (if liveStreamKeyId key = id then none else v) := by
  unfold complete
  cases hs : s.streams.get (liveStreamKeyId key) with
  | none =>
    refine ⟨hok, fun id v h => ?_⟩
    by_cases hid : liveStreamKeyId key = id
    · have hnone : textOf s id = [] := textOf_of_none (hid ▸ hs)
      obtain ⟨n, hn, hv⟩ := h.isView
      rw [hnone, List.length_nil] at hn
      obtain rfl : v = none := by rw [hv, Nat.le_zero.mp hn]; rfl
      rw [if_pos hid]
      exact h
    · rw [if_neg hid]
      exact h
  | some stream =>
    have hget : ∀ id, (s.streams.delete (liveStreamKeyId key)).get id =
        if liveStreamKeyId key = id then none else s.streams.get id := fun id =>
      OrderedMap.get_delete s.streams
    refine ⟨⟨fun id after h => ?_, hok.closed, fun he id after h => ?_, hok.waiting, hok.running⟩,
      fun id v h => ?_⟩
    · rw [hget] at h
      split at h
      · cases h
      · exact hok.streams id after h
    · rw [hget] at h
      split at h
      · cases h
      · exact hok.exhausted he id after h
    · obtain ⟨w, hleads, hat⟩ := h.leads
      by_cases hid : liveStreamKeyId key = id
      · have hgone := (hget id).trans (if_pos hid)
        rw [if_pos hid]
        refine ⟨⟨0, Nat.zero_le _, rfl⟩, none, ?_, fun after h => ?_⟩
        · rw [textOf_of_none hgone, ← hid]
          exact .strays (opsOf_strays hcloses)
        · exact absurd (hgone.symm.trans h) (by simp)
      · have hsame := (hget id).trans (if_neg hid)
        have htext : textOf { s with
            pendingBytes := s.pendingBytes - o.utf8Bytes stream.pending
            streams := s.streams.delete (liveStreamKeyId key) } id = textOf s id := by
          rw [textOf, textOf, hsame]
        rw [if_neg hid]
        refine ⟨htext ▸ h.isView, w, htext ▸ hleads, fun after h => ?_⟩
        exact hat after (hsame.symm.trans h)

theorem resynchronize_spec (o : BufferOptions) (hok : BufferOk s) :
    BufferOk (resynchronize o s) ∧ ∀ id v, Held s id v → Held (resynchronize o s) id v := by
  have hkeeps : KeepsStreams fun stream => { stream with pending := [], resync := true } :=
    ⟨fun _ => rfl, fun _ => rfl, fun _ => rfl, fun _ => rfl, fun _ => .inl rfl⟩
  unfold resynchronize
  split
  · exact ⟨hok, fun id v h => h⟩
  · obtain ⟨hok', hheld⟩ := callFlush_spec o
      (hok.mapStreams hkeeps 0 s.exhausted s.timer (fun _ _ _ _ => rfl) hok.running) none
    exact ⟨hok', fun id v h => hheld id v (h.mapStreams hkeeps rfl rfl rfl fun stream hr => by
      cases hr)⟩

/-! ## Sending -/

/-- A stream whose unsent text is given up. -/
def cleared (stream : LiveStream) : LiveStream := { stream with pending := [] }

theorem keeps_cleared : KeepsStreams cleared :=
  ⟨fun _ => rfl, fun _ => rfl, fun _ => rfl, fun _ => rfl, fun _ => .inl rfl⟩

theorem rest_afterBatch (items batch : List LiveItem) :
    Job.rest ⟨items, afterBatch batch []⟩ = [] := by
  unfold afterBatch
  split <;> rfl

theorem afterBatch_ne (batch : List LiveItem) :
    afterBatch batch [] ≠ .waiting ∧ ∀ item rest, afterBatch batch [] ≠ .sending (item :: rest) := by
  unfold afterBatch
  split <;> simp

/-- Of the batch in hand and the items, some are handed over and the others left for
later; or the Run has sent all it may, and the others are dropped. -/
theorem batchesLoop_spec (o : BufferOptions) (job : List LiveItem) (s : LiveProgressBuffer)
    (hex : s.exhausted = false) (hclosed : s.closed = false) (batch : List LiveItem)
    (batchBytes : Nat) (items : List LiveItem) :
    ∃ sentBytes, let r := batchesLoop o s batch batchBytes items
      (r.1 = { s with sentBytes } ∧ r.2.2 ++ Job.rest ⟨job, r.2.1⟩ = batch ++ items ∧
        r.2.1 ≠ .waiting) ∨
      (r.1 = { s with
          sentBytes, exhausted := true, streams := s.streams.mapValues cleared, pendingBytes := 0 } ∧
        r.2.2 <+: batch ++ items ∧ ∀ item rest, r.2.1 ≠ .sending (item :: rest)) := by
  induction items generalizing s batch batchBytes with
  | nil =>
    refine ⟨s.sentBytes, .inl ⟨rfl, ?_, (afterBatch_ne batch).1⟩⟩
    simp only [batchesLoop, rest_afterBatch]
  | cons item items ih =>
    unfold batchesLoop
    rw [if_neg (by simp [hex, hclosed])]
    split
    · exact ⟨s.sentBytes, .inr ⟨rfl, List.prefix_append _ _, (afterBatch_ne batch).2⟩⟩
    · split
      · exact ⟨s.sentBytes, .inl ⟨rfl, rfl, by simp⟩⟩
      · obtain ⟨sentBytes, h⟩ := ih { s with sentBytes := s.sentBytes + o.itemBytes item } hex
          hclosed (batch ++ [item]) (batchBytes + o.itemBytes item)
        refine ⟨sentBytes, ?_⟩
        rw [List.append_assoc] at h
        exact h

/-- A job that goes on. -/
theorem runJob_spec (o : BufferOptions) (hok : BufferOk s) {job : Job} {rest : List Job}
    (htail : s.tail = job :: rest) :
    ∃ sentBytes, let r := runJob o s job
      (r.1 = { s with sentBytes } ∧ s.exhausted = false ∧
        r.2.2 ++ Job.rest ⟨job.items, r.2.1⟩ = job.rest ∧ r.2.1 ≠ .waiting) ∨
      (r.1 = { s with
          sentBytes, exhausted := true, streams := s.streams.mapValues cleared, pendingBytes := 0 } ∧
        s.exhausted = false ∧ r.2.2 <+: job.rest ∧ ∀ item rest, r.2.1 ≠ .sending (item :: rest)) ∨
      (r.1 = s ∧ s.exhausted = true ∧ r.2.2 = [] ∧ r.2.1 = .settled) := by
  obtain ⟨items, phase⟩ := job
  by_cases hex : s.exhausted = true
  · have hphase := hok.running hex ⟨items, phase⟩ (htail ▸ List.mem_cons_self)
    refine ⟨s.sentBytes, .inr (.inr ?_)⟩
    cases phase with
    | waiting =>
      cases items with
      | nil => exact ⟨rfl, hex, rfl, rfl⟩
      | cons item items =>
        simp only [runJob, batchesLoop, hex, true_or, if_true, and_self]
    | sending next =>
      cases next with
      | nil => exact ⟨rfl, hex, rfl, rfl⟩
      | cons item next => exact absurd rfl (hphase item next)
    | settled => exact ⟨rfl, hex, rfl, rfl⟩
  · have hex : s.exhausted = false := by simpa using hex
    cases phase with
    | waiting =>
      obtain ⟨sentBytes, h⟩ := batchesLoop_spec o items s hex hok.closed [] 0 items
      exact ⟨sentBytes, h.imp (fun ⟨h₁, h₂, h₃⟩ => ⟨h₁, hex, h₂, h₃⟩)
        fun ⟨h₁, h₂, h₃⟩ => .inl ⟨h₁, hex, h₂, h₃⟩⟩
    | sending next =>
      cases next with
      | nil => exact ⟨s.sentBytes, .inl ⟨rfl, hex, rfl, by simp [runJob]⟩⟩
      | cons item next =>
        obtain ⟨sentBytes, h⟩ := batchesLoop_spec o items
          { s with sentBytes := s.sentBytes + o.itemBytes item } hex hok.closed [item]
          (o.itemBytes item) next
        exact ⟨sentBytes, h.imp (fun ⟨h₁, h₂, h₃⟩ => ⟨h₁, hex, h₂, h₃⟩)
          fun ⟨h₁, h₂, h₃⟩ => .inl ⟨h₁, hex, h₂, h₃⟩⟩
    | settled => exact ⟨s.sentBytes, .inl ⟨rfl, hex, rfl, by simp [runJob]⟩⟩

/-! ## Reading a batch -/

theorem cuts_textOf (hok : BufferOk s) (id : String) : CutsWell (textOf s id) := by
  cases hs : s.streams.get id with
  | none => rw [textOf_of_none hs]; exact .inl (Nat.zero_le _)
  | some stream => rw [textOf_of_get hs]; exact (hok.streams id stream hs).cuts

/-- Only a stream the buffer has open has a view. -/
theorem isSome_of_view {n : Nat} (hv : v = Feed.viewAt tails (textOf s id) n)
    (hn : n ≤ (textOf s id).length) (hsome : v ≠ none) : (s.streams.get id).isSome := by
  cases hs : s.streams.get id with
  | none =>
    rw [textOf_of_none hs, List.length_nil] at hn
    rw [hv, Nat.le_zero.mp hn] at hsome
    exact absurd rfl hsome
  | some stream => rfl

/-- The Host reads a batch: every view stays one of a beginning of its stream, and
what comes after the batch leads on. -/
theorem applyItems_spec (o : RegistryOptions) (hok : BufferOk s)
    (hroom : s.streams.size ≤ o.maxStreamsPerRun) (state : LiveRunState)
    (batch more : List LiveItem) (w : String → Option (Feed.View Text))
    (hviews : ∀ id, ∃ n ≤ (textOf s id).length, state.view id = Feed.viewAt tails (textOf s id) n)
    (hleads : ∀ id, Feed.Leads tails (textOf s id) (state.view id) (opsOf id (batch ++ more)) (w id)) :
    (∀ id, ∃ n ≤ (textOf s id).length,
      (applyItems o state batch).1.view id = Feed.viewAt tails (textOf s id) n) ∧
    ∀ id, Feed.Leads tails (textOf s id) ((applyItems o state batch).1.view id) (opsOf id more)
      (w id) := by
  induction batch generalizing state with
  | nil => exact ⟨hviews, hleads⟩
  | cons item batch ih =>
    have hself := hleads (liveStreamKeyId item.key)
    rw [List.cons_append, opsOf_cons, if_pos rfl] at hself
    have hread := hself.isView_read (cuts_textOf hok _)
    have hfits : Fits o state item := by
      intro hnone hopens
      obtain ⟨n, hn, hv⟩ := hread
      rw [hnone] at hv
      refine Nat.lt_of_lt_of_le (OrderedMap.size_lt (fun id hid => ?_) ?_
        (isSome_of_view hv hn hopens)) hroom
      · obtain ⟨n, hn, hv⟩ := hviews id
        refine isSome_of_view hv hn fun h => ?_
        rw [LiveRunState.view, Option.map_eq_none_iff] at h
        rw [h] at hid
        cases hid
      · rw [LiveRunState.view, Option.map_eq_none_iff] at hnone
        exact hnone
    have hview := view_applyItem o state item hfits
    refine ih (applyItem o state item).1 (fun id => ?_) fun id => ?_
    · rw [hview]
      split
      · rename_i hid
        rw [← hid]
        exact hread
      · exact hviews id
    · have hops := hleads id
      rw [List.cons_append, opsOf_cons] at hops
      rw [hview]
      split
      · rename_i hid
        rw [if_pos hid] at hops
        exact hops.read (cuts_textOf hok id)
      · rename_i hid
        rw [if_neg hid] at hops
        exact hops

/-! ## The link -/

/-- What holds after every run of the link. -/
structure Linked (o : Options) (s : Link) : Prop where
  buffer : BufferOk s.buffer
  room : s.buffer.streams.size ≤ o.host.maxStreamsPerRun
  host : ∃ state, s.host.runs.get o.runId = some state ∧ state.threadId = o.threadId ∧
    state.workspaceId = o.workspaceId ∧ ∀ id, Held s.buffer id (state.view id)

/-- A job that goes on hands over the first of what is unhanded, and where the rest
leads a view is held. -/
theorem held_goOn {o : BufferOptions} (hok : BufferOk s) {job : Job} {rest : List Job}
    (htail : s.tail = job :: rest) {phase : JobPhase} {batch : List LiveItem}
    {b : LiveProgressBuffer} (hrun : runJob o s job = (b, phase, batch)) :
    BufferOk { b with tail := ⟨job.items, phase⟩ :: rest } ∧
    b.streams.size = s.streams.size ∧
    (∃ more, unhanded s = batch ++ more) ∧
    ∀ more, unhanded s = batch ++ more → ∀ id v w,
      (∃ n ≤ (textOf s id).length, v = Feed.viewAt tails (textOf s id) n) →
      Feed.Leads tails (textOf s id) v (opsOf id more) w → AimsAt s id w →
      Held { b with tail := ⟨job.items, phase⟩ :: rest } id v := by
  obtain ⟨sentBytes, hspec⟩ := runJob_spec o hok htail
  rw [hrun] at hspec
  have hwaiting := hok.waiting
  rw [htail, List.tail_cons] at hwaiting
  rcases hspec with ⟨hb, hex, hitems, -⟩ | ⟨hb, hex, hprefix, hphase⟩ | ⟨hb, hex, hbatch, hphase⟩
  · simp only at hb hitems
    subst hb
    have hunhanded : unhanded s = batch ++ (Job.rest ⟨job.items, phase⟩ ++ rest.flatMap Job.rest) := by
      rw [unhanded_of_not_exhausted hex, htail, List.flatMap_cons, ← hitems, List.append_assoc]
    refine ⟨⟨hok.streams, hok.closed, hok.exhausted, hwaiting, fun he => absurd (hex.symm.trans he)
      (by simp)⟩, rfl, ⟨_, hunhanded⟩, fun more hmore id v w hview hleads hat => ⟨hview, w, ?_, hat⟩⟩
    rw [hunhanded] at hmore
    rw [← List.append_cancel_left hmore] at hleads
    have hafter : unhanded { s with sentBytes, tail := ⟨job.items, phase⟩ :: rest } =
        Job.rest ⟨job.items, phase⟩ ++ rest.flatMap Job.rest := by
      rw [unhanded_of_not_exhausted (by exact hex), List.flatMap_cons]
    rw [hafter]
    exact hleads
  · simp only at hb hprefix hphase
    subst hb
    obtain ⟨dropped, hdropped⟩ := hprefix
    refine ⟨⟨fun id stream hs => ?_, hok.closed, fun _ id stream hs => ?_, hwaiting, fun _ =>
      List.forall_mem_cons.mpr ⟨hphase, fun j hj item next => ?_⟩⟩, ?_, ⟨dropped ++
        rest.flatMap Job.rest, ?_⟩, fun more hmore id v w hview hleads hat => ⟨?_, v, ?_,
        fun stream _ he => by cases he⟩⟩
    · simp only [OrderedMap.get_mapValues, Option.map_eq_some_iff] at hs
      obtain ⟨before, hb, rfl⟩ := hs
      exact keeps_cleared.streamOk (hok.streams id before hb)
    · simp only [OrderedMap.get_mapValues, Option.map_eq_some_iff] at hs
      obtain ⟨before, hb, rfl⟩ := hs
      rfl
    · rw [hwaiting j hj]
      simp
    · exact OrderedMap.size_mapValues _ _
    · rw [unhanded_of_not_exhausted hex, htail, List.flatMap_cons, ← hdropped, List.append_assoc]
    · have htext : textOf { s with
          sentBytes, exhausted := true, streams := s.streams.mapValues cleared, pendingBytes := 0,
          tail := ⟨job.items, phase⟩ :: rest } id = textOf s id :=
        textOf_mapValues keeps_cleared s id rfl
      rw [htext]
      exact hview
    · exact .nil
  · simp only at hb hbatch hphase
    subst hb hbatch hphase
    refine ⟨⟨hok.streams, hok.closed, hok.exhausted, hwaiting, fun he => List.forall_mem_cons.mpr
      ⟨by simp, fun j hj item next => ?_⟩⟩, rfl, ⟨unhanded b, rfl⟩,
      fun more hmore id v w hview hleads hat => ⟨hview, w, ?_, hat⟩⟩
    · rw [hwaiting j hj]
      simp
    · have hnil : more = [] := by
        rw [List.nil_append] at hmore
        rw [← hmore, unhanded, hex]
        rfl
      rw [hnil] at hleads
      have hafter : unhanded { b with tail := ⟨job.items, .settled⟩ :: rest } = [] := by
        rw [unhanded, if_pos (by exact hex)]
      rw [hafter]
      exact hleads

theorem Linked.goOn {o : Options} {s : Link} (h : Linked o s) (now : Nat) {job : Job}
    {rest : List Job} (htail : s.buffer.tail = job :: rest) : Linked o (goOn o now s job rest) := by
  obtain ⟨state, hs, hthread, hworkspace, hheld⟩ := h.host
  obtain ⟨b, phase, batch, hrun⟩ : ∃ b phase batch,
      runJob o.buffer s.buffer job = (b, phase, batch) := ⟨_, _, _, rfl⟩
  obtain ⟨hok, hsize, ⟨more, hmore⟩, hafter⟩ := held_goOn h.buffer htail hrun
  have hroom := hsize ▸ h.room
  choose w hleads haim using fun id => (hheld id).leads
  rw [hmore] at hleads
  unfold LiveProgress.goOn deliver
  rw [hrun]
  dsimp only
  split
  · rename_i hnil
    subst hnil
    exact ⟨hok, hroom, state, hs, hthread, hworkspace, fun id =>
      hafter more hmore id _ (w id) (hheld id).isView (hleads id) (haim id)⟩
  · have happly := apply_known o.host now
      ⟨o.runId, o.threadId, o.workspaceId, batch⟩ hs hthread hworkspace
    obtain ⟨streams, hstreams⟩ := applyItems_streams o.host { state with touchedAt := now } batch
    obtain ⟨hviews, hreads⟩ := applyItems_spec o.host h.buffer h.room { state with touchedAt := now }
      batch more w (fun id => (hheld id).isView) hleads
    refine ⟨hok, hroom, (applyItems o.host { state with touchedAt := now } batch).1, ?_, ?_, ?_,
      fun id => hafter more hmore id _ (w id) (hviews id) (hreads id) (haim id)⟩
    · rw [happly, OrderedMap.get_set, if_pos rfl]
    · rw [hstreams]
      exact hthread
    · rw [hstreams]
      exact hworkspace

/-- A step of the buffer that keeps what is held. -/
theorem Linked.ofBuffer {o : Options} {s : Link} (h : Linked o s) {b : LiveProgressBuffer}
    (hb : BufferOk b ∧ ∀ id v, Held s.buffer id v → Held b id v)
    (hroom : b.streams.size ≤ o.host.maxStreamsPerRun) : Linked o { s with buffer := b } := by
  obtain ⟨state, hs, hthread, hworkspace, hheld⟩ := h.host
  exact ⟨hb.1, hroom, state, hs, hthread, hworkspace, fun id => hb.2 id _ (hheld id)⟩

theorem size_callFlush (o : BufferOptions) (s : LiveProgressBuffer)
    (completes : Option LiveStreamKey) : (callFlush o s completes).streams.size = s.streams.size := by
  have hflush : (flush o s).1.streams.size = s.streams.size := by
    unfold flush
    dsimp only
    split
    · exact OrderedMap.size_mapValues _ _
    · split <;> exact OrderedMap.size_mapValues _ _
  unfold callFlush
  dsimp only
  split <;> exact hflush

/-! ## Every step -/

/-- The stream bounds: an append opens no stream past them. -/
def InBounds (o : Options) (s : Link) : Action → Prop
  | .append key _ => (s.buffer.streams.get (liveStreamKeyId key)).isSome ∨
      s.buffer.streams.size < o.host.maxStreamsPerRun
  | .close => False
  | _ => True

/-- No text has two low surrogates in a row that its tail is cut between, and
nothing a completed stream left behind opens it again. -/
def Settles (s : Link) : Action → Prop
  | .append key text => CutsWell (textOf s.buffer (liveStreamKeyId key) ++ text)
  | .completes i _ _ => ∀ key ∈ s.buffer.flushes[i]?.bind Flush.completes, ClosesWell s.buffer key
  | _ => True

instance (o : Options) (s : Link) (a : Action) : Decidable (InBounds o s a) := by
  unfold InBounds
  cases a <;> dsimp only <;> infer_instance

instance (s : Link) (a : Action) : Decidable (Settles s a) := by
  unfold Settles
  cases a <;> dsimp only <;> infer_instance

theorem size_append_le {o : Options} {s : Link} (h : Linked o s) {key : LiveStreamKey} {text : Text}
    (hbound : InBounds o s (.append key text)) :
    (append o.buffer s.buffer key text).streams.size ≤ o.host.maxStreamsPerRun := by
  have hset : ∀ stream, (s.buffer.streams.set (liveStreamKeyId key) stream).size ≤
      o.host.maxStreamsPerRun := by
    intro stream
    have := h.room
    rw [OrderedMap.size_set]
    rcases hbound with hb | hb
    · rw [if_pos hb]
      exact h.room
    · split <;> omega
  have hdone : ∀ b : LiveProgressBuffer, b.streams.size ≤ o.host.maxStreamsPerRun →
      (if (o.buffer.maxPendingBytes : Int) ≤ b.pendingBytes then callFlush o.buffer b none
        else schedule b).streams.size ≤ o.host.maxStreamsPerRun := by
    intro b hb
    split
    · rw [size_callFlush]
      exact hb
    · unfold schedule
      split <;> exact hb
  unfold append
  split
  · exact h.room
  · split
    · exact hset _
    · refine hdone _ ?_
      split <;> exact hset _

theorem linked_step {o : Options} {s s' : Link} (h : Linked o s) {a : Action}
    (hbound : InBounds o s a) (hsettles : Settles s a) (hs : step o s a = some s') : Linked o s' := by
  have hcall : ∀ b completes, BufferOk b ∧ (∀ id v, Held s.buffer id v → Held b id v) →
      b.streams.size ≤ o.host.maxStreamsPerRun →
      Linked o { s with buffer := callFlush o.buffer b completes } := by
    intro b completes hb hroom
    obtain ⟨hok, hheld⟩ := callFlush_spec o.buffer hb.1 completes
    exact h.ofBuffer ⟨hok, fun id v hv => hheld id v (hb.2 id v hv)⟩
      (by rw [size_callFlush]; exact hroom)
  have hself : BufferOk s.buffer ∧ ∀ id v, Held s.buffer id v → Held s.buffer id v :=
    ⟨h.buffer, fun _ _ hv => hv⟩
  cases a with
  | append key text =>
    cases hs
    exact h.ofBuffer (append_spec o.buffer h.buffer hsettles) (size_append_le h hbound)
  | flush => cases hs; exact hcall _ _ hself h.room
  | flushToComplete key => cases hs; exact hcall _ _ hself h.room
  | timerFires =>
    simp only [step] at hs
    split at hs <;> cases hs
    exact hcall _ _ hself h.room
  | resynchronize =>
    cases hs
    refine h.ofBuffer (resynchronize_spec o.buffer h.buffer) ?_
    unfold resynchronize
    split
    · exact h.room
    · rw [size_callFlush]
      exact Nat.le_trans (Nat.le_of_eq (OrderedMap.size_mapValues _ _)) h.room
  | close => exact absurd hbound (by simp [InBounds])
  | flushesAgain i =>
    simp only [step] at hs
    split at hs <;> cases hs
    exact hcall _ _ ⟨h.buffer.other _ s.buffer.timer, fun id v hv => hv.other _ s.buffer.timer⟩ h.room
  | completes i sequence now =>
    simp only [step] at hs
    split at hs <;> cases hs
    rename_i key hflush
    have hcloses : ClosesWell s.buffer key := hsettles key (by rw [hflush]; rfl)
    obtain ⟨hok, hheld⟩ := complete_spec o.buffer
      (h.buffer.other (s.buffer.flushes.eraseIdx i) s.buffer.timer) key hcloses
    obtain ⟨state, hs, hthread, hworkspace, hviews⟩ := h.host
    obtain ⟨state', hs', hthread', hworkspace', hview⟩ := observe_completion o.host now
      (eventOf o sequence (completion key)) key rfl (by cases key <;> rfl) hs
      hthread hworkspace
    refine ⟨hok, ?_, state', hs', hthread'.trans hthread, hworkspace'.trans hworkspace, fun id => ?_⟩
    · unfold complete
      split
      · exact h.room
      · exact Nat.le_trans (OrderedMap.size_delete_le _ _) h.room
    · rw [hview]
      exact hheld id _ ((hviews id).other _ s.buffer.timer)
  | jobStarts now =>
    simp only [step] at hs
    split at hs <;> cases hs
    exact h.goOn now ‹_›
  | sendResolves now =>
    simp only [step] at hs
    split at hs <;> cases hs
    exact h.goOn now ‹_›
  | jobFinishes =>
    simp only [step] at hs
    split at hs <;> cases hs
    rename_i items rest htail
    have hwaiting := h.buffer.waiting
    rw [htail, List.tail_cons] at hwaiting
    have hun : (⟨items, .settled⟩ :: rest : List Job).flatMap Job.rest = rest.flatMap Job.rest := rfl
    -- A settled job has nothing left, so what is unhanded is the same without it.
    have hdone : ∀ flushes inFlightBytes timer, Linked o { s with buffer := { s.buffer with
        tail := rest, flushes, inFlightBytes, timer } } := by
      intro flushes inFlightBytes timer
      have hsame : unhanded { s.buffer with tail := rest, flushes, inFlightBytes, timer } =
          unhanded s.buffer := by
        simp only [unhanded, htail, hun]
      refine h.ofBuffer ⟨⟨h.buffer.streams, h.buffer.closed, h.buffer.exhausted,
        fun job hj => hwaiting job (List.mem_of_mem_tail hj), fun he job hj =>
          h.buffer.running he job (htail ▸ List.mem_cons_of_mem _ hj)⟩, fun id v hv => ?_⟩ h.room
      obtain ⟨w, hleads, hat⟩ := hv.leads
      exact ⟨hv.isView, w, hsame ▸ hleads, hat⟩
    unfold finishJob schedule
    dsimp only
    split
    · split
      · exact hdone _ _ _
      · exact hdone _ _ _
    · exact hdone _ _ _

/-! ## Agreement -/

/-- What the Host has of a stream of the Run. -/
def hostView (o : Options) (s : Link) (id : String) : Option (Feed.View Text) :=
  (s.host.runs.get o.runId).bind fun state => state.view id

/-- While nothing is unsent or unhanded, and the Run has not sent all it may, the
Host has the streams of the buffer, with their lengths and tails; and always
each of its streams is a beginning of the text the buffer's has received. -/
def Agree (o : Options) (s : Link) : Prop :=
  (s.buffer.exhausted = false → hasUnsent s.buffer = false → unhanded s.buffer = [] →
    ∀ id, hostView o s id =
      (s.buffer.streams.get id).map fun stream => ⟨stream.length, stream.tail⟩) ∧
  ∀ id view, hostView o s id = some view → ∃ stream, s.buffer.streams.get id = some stream ∧
    view.length ≤ stream.text.length ∧
    view.summary = appendLiveStreamTail [] (stream.text.take view.length)

theorem linked_initial (o : Options) : Linked o (.initial o) where
  buffer := ⟨by simp [Link.initial, LiveProgressBuffer.empty], rfl, by simp [Link.initial,
    LiveProgressBuffer.empty], by simp [Link.initial, LiveProgressBuffer.empty], by simp [Link.initial,
    LiveProgressBuffer.empty]⟩
  room := Nat.zero_le _
  host := by
    refine ⟨⟨1, o.runId, .empty, o.threadId, 0, o.workspaceId⟩, ?_, rfl, rfl, fun id => ?_⟩
    · simp [Link.initial, observeCommitted, observeEvent, eventOf, isTerminal, ensureRun,
        LiveRunRegistry.empty, completeStream, completedStreamKey]
    · exact ⟨⟨0, Nat.zero_le _, rfl⟩, none, .nil, by simp [AimsAt, Link.initial,
        LiveProgressBuffer.empty]⟩

theorem Linked.agree {o : Options} {s : Link} (h : Linked o s) : Agree o s := by
  obtain ⟨state, hs, -, -, hheld⟩ := h.host
  have hview : ∀ id, hostView o s id = state.view id := fun id => by rw [hostView, hs]; rfl
  refine ⟨fun hex hquiet hnone id => ?_, fun id view hv => ?_⟩
  · obtain ⟨n, hn, hv⟩ := (hheld id).isView
    obtain ⟨w, hleads, hat⟩ := (hheld id).leads
    rw [hnone] at hleads
    rw [hview]
    cases hstream : s.buffer.streams.get id with
    | none =>
      rw [textOf_of_none hstream, List.length_nil] at hn
      rw [hv, Nat.le_zero.mp hn]
      rfl
    | some stream =>
      have hok := h.buffer.streams id stream hstream
      have hmem := OrderedMap.mem_values.mpr ⟨id, hstream⟩
      simp only [hasUnsent, h.buffer.closed, hex, Bool.not_false, Bool.true_and, List.any_eq_false,
        Bool.or_eq_true, decide_eq_true_eq, not_or, not_not, Bool.not_eq_true] at hquiet
      obtain ⟨hr, hp⟩ := hquiet stream hmem
      rw [hleads.eq_of_nil, hat stream hstream hex hr, hp, List.length_nil, Nat.sub_zero,
        Feed.viewAt, if_neg (fun h => hok.nonempty (List.eq_nil_of_length_eq_zero h)),
        List.take_length, Option.map_some, hok.length, hok.tail]
      rfl
  · rw [hview] at hv
    obtain ⟨n, hn, hat⟩ := (hheld id).isView
    have hopen := isSome_of_view hat hn (by rw [hv]; simp)
    obtain ⟨stream, hstream⟩ := Option.isSome_iff_exists.mp hopen
    rw [hv, Feed.viewAt] at hat
    split at hat
    · cases hat
    · obtain rfl := Option.some.inj hat
      rw [textOf_of_get hstream] at hn ⊢
      exact ⟨stream, hstream, hn, rfl⟩

variable {o : Options} {s : Link} {as : List Action}

/-- The Host's streams follow the buffer's after any run within the stream bounds
in which no text is cut between two low surrogates and nothing opens a completed
stream again. -/
theorem live_streams_agree (o : Options)
    (hmeets : (machine o).Meets (fun s a => InBounds o s a ∧ Settles s a) (.initial o) as)
    (hrun : (machine o).run (.initial o) as = some s) : Agree o s :=
  ((machine o).run_invariant (P := Linked o) (linked_initial o)
    (fun _ _ _ h hG hs => linked_step h hG.1 hG.2 hs) hmeets hrun).agree

def exampleOptions : Options where
  buffer := ⟨100, 100, 100, List.length, fun _ => 1⟩
  host := ⟨4, 4, fun _ => 1⟩
  runId := ⟨"run"⟩
  threadId := ⟨"thread"⟩
  workspaceId := ⟨"workspace"⟩

/-- A stream is completed when the flush before its event has settled. -/
theorem live_streams_agree_run : ∃ s, (machine exampleOptions).run (.initial exampleOptions)
      [.append .assistant [97], .flushToComplete .assistant, .jobStarts 0, .sendResolves 0,
        .jobFinishes, .completes 0 2 0, .append .assistant [98], .timerFires, .jobStarts 0] =
      some s ∧ Agree exampleOptions s :=
  (machine _).exists_run (by decide) fun _ hs =>
    live_streams_agree exampleOptions (by decide) hs

/-- Resynchronized between that flush and its completion, the stream is stated to
the Host once more, after the event that ended it. -/
theorem completed_stream_reopens : ¬ ∀ (o : Options) (as : List Action) (s : Link),
    (machine o).Meets (InBounds o) (.initial o) as → (machine o).run (.initial o) as = some s →
      Agree o s := by
  intro h
  let as : List Action := [.append .assistant [97], .flushToComplete .assistant, .jobStarts 0,
    .sendResolves 0, .jobFinishes, .resynchronize, .completes 0 2 0, .jobStarts 0]
  obtain ⟨s, hs, hex, hquiet, hnone, hview, hstream⟩ : ∃ s,
      (machine exampleOptions).run (.initial exampleOptions) as = some s ∧
        s.buffer.exhausted = false ∧ hasUnsent s.buffer = false ∧ unhanded s.buffer = [] ∧
        hostView exampleOptions s "assistant" = some ⟨1, [97]⟩ ∧
        s.buffer.streams.get "assistant" = none :=
    (machine _).exists_run_of_any (by decide)
  have hagree := (h exampleOptions as s (by decide) hs).1 hex hquiet hnone "assistant"
  rw [hview, hstream] at hagree
  cases hagree

end Opensteer.LiveProgress
