import Mathlib.Algebra.Order.Ring.Int
import Opensteer.Framework.Framing

/-!
# Length-prefixed frames

`packages/shared/src/lengthPrefixedJson.ts`.
-/

namespace Opensteer.Shared

abbrev Buffer := List UInt8

def headerBytes : Nat := 4

inductive FrameError
  | exceeds (maxBodyBytes : Nat)
  | outOfRange
deriving DecidableEq, Repr

namespace FrameError

/-- The text, where it is not the runtime's. -/
def message : FrameError → Option String
  | .exceeds maxBodyBytes => some ("A length-prefixed JSON frame exceeds " ++ toString maxBodyBytes ++ " bytes")
  | .outOfRange => none

end FrameError

/-- `writeUInt32BE`, which takes no more than 32 bits. -/
def writeUInt32BE (n : Nat) : Except FrameError Buffer :=
  if n < 2 ^ 32 then
    .ok [UInt8.ofNat (n / 2 ^ 24), UInt8.ofNat (n / 2 ^ 16 % 2 ^ 8), UInt8.ofNat (n / 2 ^ 8 % 2 ^ 8), UInt8.ofNat (n % 2 ^ 8)]
  else .error .outOfRange

/-- `readUInt32BE(0)` of a buffer that holds four bytes. -/
def readUInt32BE (buffer : Buffer) : Nat := (buffer.take headerBytes).foldl (fun n byte => n * 2 ^ 8 + byte.toNat) 0

/-- `encodeLengthPrefixedJson` of a value of which the JSON is given. -/
def encodeLengthPrefixed (body : Buffer) (maxBodyBytes : Nat) : Except FrameError Buffer :=
  if maxBodyBytes < body.length then .error (.exceeds maxBodyBytes)
  else (writeUInt32BE body.length).map (· ++ body)

def encodeLengthPrefixedJson {α : Type} (stringify : α → Buffer) (value : α) (maxBodyBytes : Nat) :
    Except FrameError Buffer := encodeLengthPrefixed (stringify value) maxBodyBytes

/-- What one turn of the loop of `push` finds at the start of what is held. -/
def nextFrame (maxBodyBytes : Nat) (buffer : Buffer) : Option (Except FrameError (Buffer × Buffer)) :=
  if buffer.length < headerBytes then none
  else
    let length := readUInt32BE buffer
    if maxBodyBytes < length then some (.error (.exceeds maxBodyBytes))
    else if buffer.length < headerBytes + length then none
    else some (.ok ((buffer.drop headerBytes).take length, buffer.drop (headerBytes + length)))

theorem readUInt32BE_append {buffer : Buffer} (h : headerBytes ≤ buffer.length) (more : Buffer) :
    readUInt32BE (buffer ++ more) = readUInt32BE buffer := by
  rw [readUInt32BE, List.take_append_of_le_length h, readUInt32BE]

/-- The frames of a reader. -/
def framing (maxBodyBytes : Nat) : Framing UInt8 Buffer FrameError where
  next := nextFrame maxBodyBytes
  shorter h := by
    unfold nextFrame at h
    dsimp only at h
    split at h
    · cases h
    · split at h
      · cases h
      · split at h
        · cases h
        · obtain ⟨-, rfl⟩ := Prod.mk.inj (Except.ok.inj (Option.some.inj h))
          rw [List.length_drop]
          have : headerBytes = 4 := rfl
          omega
  next_append {l found} more h := by
    unfold nextFrame at h ⊢
    dsimp only at h ⊢
    split at h
    · cases h
    · rename_i hheader
      have hle : headerBytes ≤ l.length := Nat.le_of_not_lt hheader
      rw [if_neg (by rw [List.length_append]; omega), readUInt32BE_append hle]
      split at h
      · obtain rfl := Option.some.inj h
        rw [if_pos ‹_›]
        rfl
      · rename_i hlength
        rw [if_neg hlength]
        split at h
        · cases h
        · rename_i hbody
          obtain rfl := Option.some.inj h
          rw [if_neg (by rw [List.length_append]; omega), List.drop_append_of_le_length hle,
            List.take_append_of_le_length (by rw [List.length_drop]; omega),
            List.drop_append_of_le_length (Nat.le_of_not_lt hbody)]
          rfl

structure LengthPrefixedFrameReader where
  maxBodyBytes : Nat
  buffer : Buffer := []

namespace LengthPrefixedFrameReader

/-- `push`: where a header is refused the frames before it are lost. -/
def push (reader : LengthPrefixedFrameReader) (chunk : Buffer) :
    Except FrameError (List Buffer) × LengthPrefixedFrameReader :=
  let d := (framing reader.maxBodyBytes).drain (reader.buffer ++ chunk)
  (match d.refusal with
    | none => .ok d.frames
    | some error => .error error, { reader with buffer := d.rest })

/-- The results of `push` for chunks one after the other, up to the first that throws. -/
def pushes : LengthPrefixedFrameReader → List Buffer → List Buffer × Option FrameError
  | _, [] => ([], none)
  | reader, chunk :: chunks =>
    match reader.push chunk with
    | (.ok frames, reader) => (frames ++ (reader.pushes chunks).1, (reader.pushes chunks).2)
    | (.error error, _) => ([], some error)

theorem pushes_eq (reader : LengthPrefixedFrameReader) (chunks : List Buffer) : reader.pushes chunks =
    (((framing reader.maxBodyBytes).reads reader.buffer chunks).frames,
      ((framing reader.maxBodyBytes).reads reader.buffer chunks).refusal) := by
  induction chunks generalizing reader with
  | nil => rfl
  | cons chunk chunks ih =>
    rw [pushes, push, Framing.reads]
    dsimp only
    cases ((framing reader.maxBodyBytes).drain (reader.buffer ++ chunk)).refusal with
    | none =>
      dsimp only
      rw [ih]
    | some error => rfl

end LengthPrefixedFrameReader

/-! ## Streams of frames -/

/-- A frame that has not come whole, of which the header, if it has come, announces no more than is taken. -/
def Incomplete (maxBodyBytes : Nat) (tail : Buffer) : Prop :=
  tail.length < headerBytes ∨ readUInt32BE tail ≤ maxBodyBytes ∧ tail.length < headerBytes + readUInt32BE tail

/-- A header that announces more than is taken, and anything. -/
def Oversized (maxBodyBytes : Nat) (tail : Buffer) : Prop := headerBytes ≤ tail.length ∧ maxBodyBytes < readUInt32BE tail

instance (maxBodyBytes : Nat) (tail : Buffer) : Decidable (Incomplete maxBodyBytes tail) := inferInstanceAs (Decidable (_ ∨ _))

instance (maxBodyBytes : Nat) (tail : Buffer) : Decidable (Oversized maxBodyBytes tail) := inferInstanceAs (Decidable (_ ∧ _))

variable {maxBodyBytes : Nat} {body frame tail : Buffer}

theorem nextFrame_of_incomplete (h : Incomplete maxBodyBytes tail) : nextFrame maxBodyBytes tail = none := by
  unfold nextFrame
  dsimp only
  split
  · rfl
  · rename_i hheader
    obtain ⟨hmax, hbody⟩ := h.resolve_left hheader
    rw [if_neg (Nat.not_lt_of_le hmax), if_pos hbody]

theorem nextFrame_of_oversized (h : Oversized maxBodyBytes tail) :
    nextFrame maxBodyBytes tail = some (.error (.exceeds maxBodyBytes)) := by
  unfold nextFrame
  dsimp only
  rw [if_neg (Nat.not_lt_of_le h.1), if_pos h.2]

/-- A number is read from its four bytes. -/
theorem readUInt32BE_write {n : Nat} {header : Buffer} (h : writeUInt32BE n = .ok header) (more : Buffer) :
    header.length = headerBytes ∧ readUInt32BE (header ++ more) = n := by
  unfold writeUInt32BE at h
  split at h
  · rename_i hlt
    obtain rfl := Except.ok.inj h
    refine ⟨rfl, ?_⟩
    rw [readUInt32BE_append (by exact Nat.le_refl 4)]
    simp only [readUInt32BE, headerBytes, List.take, List.foldl]
    rw [UInt8.toNat_ofNat_of_lt' (by show _ < 256; omega), UInt8.toNat_ofNat_of_lt' (by show _ < 256; omega),
      UInt8.toNat_ofNat_of_lt' (by show _ < 256; omega), UInt8.toNat_ofNat_of_lt' (by show _ < 256; omega)]
    omega
  · cases h

theorem nextFrame_of_encoded (h : encodeLengthPrefixed body maxBodyBytes = .ok frame) (more : Buffer) :
    nextFrame maxBodyBytes (frame ++ more) = some (.ok (body, more)) := by
  unfold encodeLengthPrefixed at h
  split at h
  · cases h
  · rename_i hmax
    cases hheader : writeUInt32BE body.length with
    | error error =>
      rw [hheader] at h
      cases h
    | ok header =>
      rw [hheader] at h
      obtain rfl := Except.ok.inj h
      obtain ⟨hlength, hread⟩ := readUInt32BE_write hheader (body ++ more)
      unfold nextFrame
      dsimp only
      rw [List.append_assoc, hread, if_neg (by rw [List.length_append]; omega), if_neg hmax,
        if_neg (by simp only [List.length_append]; omega), ← hlength, List.drop_left, List.take_left, ← List.length_append,
        ← List.append_assoc, List.drop_left]

/-- The chunk in which a header that is refused ends starts behind the frames before it. -/
def StartsBehind (whole : Nat) (chunks : List Buffer) : Prop :=
  ∀ before chunk after, chunks = before ++ chunk :: after → before.flatten.length < whole →
    (before ++ [chunk]).flatten.length < whole + headerBytes

section Streams

variable {bodies frames chunks : List Buffer} {ending : Buffer}

theorem drain_stream (hframes : List.Forall₂ (fun frame body => encodeLengthPrefixed body maxBodyBytes = .ok frame) frames bodies)
    (tail : Buffer) : (framing maxBodyBytes).drain (frames.flatten ++ tail) =
      ⟨bodies ++ ((framing maxBodyBytes).drain tail).frames, ((framing maxBodyBytes).drain tail).rest,
        ((framing maxBodyBytes).drain tail).refusal⟩ :=
  (framing maxBodyBytes).drain_flatten (hframes.imp fun _ _ h more => nextFrame_of_encoded h more) tail

theorem incomplete_nil : Incomplete maxBodyBytes [] := .inl (by decide)

theorem drain_incomplete (h : Incomplete maxBodyBytes tail) : (framing maxBodyBytes).drain tail = ⟨[], tail, none⟩ :=
  (framing maxBodyBytes).drain_of_none (nextFrame_of_incomplete h)

theorem drain_oversized (h : Oversized maxBodyBytes tail) :
    (framing maxBodyBytes).drain tail = ⟨[], tail, some (.exceeds maxBodyBytes)⟩ :=
  (framing maxBodyBytes).drain_of_error (nextFrame_of_oversized h)

/-- Before the header that is refused has come nothing is. -/
theorem refusal_of_short (hframes : List.Forall₂ (fun frame body => encodeLengthPrefixed body maxBodyBytes = .ok frame) frames bodies)
    (hending : Oversized maxBodyBytes ending) {start more : Buffer} (h : start ++ more = frames.flatten ++ ending)
    (hshort : start.length < frames.flatten.length + headerBytes) : ((framing maxBodyBytes).drain start).refusal = none := by
  cases hrefusal : ((framing maxBodyBytes).drain start).refusal with
  | none => rfl
  | some error =>
    have hdrain := (framing maxBodyBytes).refusal_append hrefusal more
    have hrest : ((framing maxBodyBytes).drain start).rest ++ more = ending := by
      rw [h, drain_stream hframes, drain_oversized hending] at hdrain
      exact (congrArg Drained.rest hdrain).symm
    have hheader : headerBytes ≤ ((framing maxBodyBytes).drain start).rest.length := by
      have hnext := (framing maxBodyBytes).next_rest start
      rw [hrefusal] at hnext
      by_contra hnot
      have hnone : nextFrame maxBodyBytes ((framing maxBodyBytes).drain start).rest = none :=
        nextFrame_of_incomplete (.inl (Nat.lt_of_not_le hnot))
      cases hnone.symm.trans hnext
    have hlength := congrArg List.length h
    have hlength' := congrArg List.length hrest
    rw [List.length_append, List.length_append] at hlength
    rw [List.length_append] at hlength'
    omega

/-- What has come when its four bytes have. -/
theorem drain_of_long (hframes : List.Forall₂ (fun frame body => encodeLengthPrefixed body maxBodyBytes = .ok frame) frames bodies)
    (hending : Oversized maxBodyBytes ending) {start more : Buffer} (h : start ++ more = frames.flatten ++ ending)
    (hlong : frames.flatten.length + headerBytes ≤ start.length) :
    ((framing maxBodyBytes).drain start).refusal = some (.exceeds maxBodyBytes) := by
  obtain ⟨tail, rfl⟩ : frames.flatten <+: start :=
    List.prefix_of_prefix_length_le (List.prefix_append _ ending) (h ▸ List.prefix_append start more) (by omega)
  rw [List.append_assoc, List.append_cancel_left_eq] at h
  rw [List.length_append] at hlong
  have hheader : headerBytes ≤ tail.length := by omega
  have htail : Oversized maxBodyBytes tail := by
    refine ⟨hheader, ?_⟩
    rw [← readUInt32BE_append hheader more, h]
    exact hending.2
  rw [drain_stream hframes, drain_oversized htail]

/-- All frames are drained from the chunks before a chunk when none of them ends in it. -/
theorem frames_eq_iff (hframes : List.Forall₂ (fun frame body => encodeLengthPrefixed body maxBodyBytes = .ok frame) frames bodies)
    {start more : Buffer} (h : start ++ more = frames.flatten ++ ending)
    (hshort : start.length < frames.flatten.length + headerBytes) :
    ((framing maxBodyBytes).drain start).frames = bodies ↔ frames.flatten.length ≤ start.length := by
  constructor
  · intro hbodies
    by_contra hnot
    obtain ⟨missing, hmissing⟩ : start <+: frames.flatten :=
      List.prefix_of_prefix_length_le (h ▸ List.prefix_append start more) (List.prefix_append _ ending) (by omega)
    have hdrain := drain_stream hframes []
    rw [drain_incomplete incomplete_nil, List.append_nil, List.append_nil, ← hmissing, Framing.drain_append, hbodies] at hdrain
    have hnone : ((framing maxBodyBytes).drain (((framing maxBodyBytes).drain start).rest ++ missing)).frames = [] :=
      List.append_right_eq_self.mp (congrArg Drained.frames hdrain)
    have hrest : ((framing maxBodyBytes).drain start).rest ++ missing = [] :=
      ((framing maxBodyBytes).rest_of_frames_nil hnone).symm.trans (congrArg Drained.rest hdrain)
    rw [← hmissing, (List.append_eq_nil_iff.mp hrest).2, List.append_nil] at hnot
    exact hnot (Nat.le_refl _)
  · intro hle
    obtain ⟨tail, rfl⟩ : frames.flatten <+: start :=
      List.prefix_of_prefix_length_le (List.prefix_append _ ending) (h ▸ List.prefix_append start more) hle
    rw [List.length_append] at hshort
    rw [drain_stream hframes, drain_incomplete (.inl (by omega)), List.append_nil]

theorem startsBehind_iff {whole : Nat} {before after : List Buffer} {chunk : Buffer}
    (hbefore : before.flatten.length < whole + headerBytes) (hchunk : whole + headerBytes ≤ (before ++ [chunk]).flatten.length) :
    StartsBehind whole (before ++ chunk :: after) ↔ whole ≤ before.flatten.length := by
  constructor
  · intro h
    by_contra hnot
    have := h before chunk after rfl (Nat.lt_of_not_le hnot)
    omega
  · intro hle before' chunk' after' hchunks hlt
    have hstart : before' ++ [chunk'] <+: before := Cut.prefix_of_length_lt hchunks (by omega)
    have := Cut.length_flatten_of_prefix hstart
    omega

/-- The frames of a stream that ends in the middle of one are given, however it is cut; those before a header
that is refused are given exactly when the chunk in which it ends starts behind them. -/
theorem delivered_iff (hframes : List.Forall₂ (fun frame body => encodeLengthPrefixed body maxBodyBytes = .ok frame) frames bodies)
    (hchunks : chunks.flatten = frames.flatten ++ ending)
    (hending : Incomplete maxBodyBytes ending ∨ Oversized maxBodyBytes ending) :
    LengthPrefixedFrameReader.pushes ⟨maxBodyBytes, []⟩ chunks =
        (bodies, if Oversized maxBodyBytes ending then some (.exceeds maxBodyBytes) else none) ↔
      (Oversized maxBodyBytes ending → StartsBehind frames.flatten.length chunks) := by
  have hnone : (framing maxBodyBytes).next [] = none := nextFrame_of_incomplete (@incomplete_nil maxBodyBytes)
  rw [LengthPrefixedFrameReader.pushes_eq]
  dsimp only
  obtain hincomplete | hoversized := hending
  · have hnot : ¬ Oversized maxBodyBytes ending := by
      intro h
      cases (nextFrame_of_incomplete hincomplete).symm.trans (nextFrame_of_oversized h)
    have hdrain := drain_stream hframes ending
    rw [drain_incomplete hincomplete, List.append_nil, ← hchunks] at hdrain
    have hreads : (framing maxBodyBytes).reads [] chunks = (framing maxBodyBytes).drain ([] ++ chunks.flatten) :=
      (framing maxBodyBytes).reads_of_whole hnone (by rw [List.nil_append, hdrain])
    rw [List.nil_append, hdrain] at hreads
    rw [hreads, if_neg hnot]
    exact iff_of_true rfl fun h => absurd h hnot
  · obtain ⟨before, chunk, after, rfl, hbefore, hchunk⟩ :=
      Cut.exists_chunk (Nat.succ_pos (frames.flatten.length + 3)) (by
        rw [hchunks, List.length_append]
        exact Nat.add_le_add_left hoversized.1 _)
    have hstart : before.flatten ++ (chunk :: after).flatten = frames.flatten ++ ending := by
      rw [← hchunks, List.flatten_append]
    have hends : (before ++ [chunk]).flatten ++ after.flatten = frames.flatten ++ ending := by
      rw [← hchunks, ← List.flatten_append]
      simp
    have hrefusal := drain_of_long hframes hoversized hends hchunk
    rw [List.flatten_append, List.flatten_singleton] at hrefusal
    rw [(framing maxBodyBytes).reads_of_refused hnone (refusal_of_short hframes hoversized hstart hbefore) hrefusal,
      if_pos hoversized, startsBehind_iff hbefore hchunk, ← frames_eq_iff hframes hstart hbefore]
    exact ⟨fun h _ => congrArg Prod.fst h, fun h => congrArg (·, _) (h hoversized)⟩

theorem delivered_behind :
    LengthPrefixedFrameReader.pushes ⟨2, []⟩ [[0, 0, 0], [1, 7], [0, 0, 0, 3]] = ([[7]], some (.exceeds 2)) := by
  have hframes : List.Forall₂ (fun frame body => encodeLengthPrefixed body 2 = .ok frame) [[0, 0, 0, 1, 7]] [[7]] :=
    .cons rfl .nil
  have hoversized : Oversized 2 [0, 0, 0, 3] := by decide
  have hchunks : StartsBehind 5 ([[0, 0, 0], [1, 7]] ++ [0, 0, 0, 3] :: []) :=
    (startsBehind_iff (by decide) (by decide)).mpr (by decide)
  have h := (delivered_iff hframes rfl (.inr hoversized)).mpr fun _ => hchunks
  rw [if_pos hoversized] at h
  exact h

/-- A frame that the chunk of the header completes is lost. -/
theorem not_delivered_together : ¬ ∀ (maxBodyBytes : Nat) (bodies frames chunks : List Buffer) (ending : Buffer),
    List.Forall₂ (fun frame body => encodeLengthPrefixed body maxBodyBytes = .ok frame) frames bodies →
    chunks.flatten = frames.flatten ++ ending → Oversized maxBodyBytes ending →
    LengthPrefixedFrameReader.pushes ⟨maxBodyBytes, []⟩ chunks = (bodies, some (.exceeds maxBodyBytes)) := by
  intro h
  have hlost := h 2 [[7]] [[0, 0, 0, 1, 7]] [[0, 0, 0, 1, 7, 0, 0, 0, 3]] [0, 0, 0, 3] (.cons rfl .nil) rfl (by decide)
  have hrefusal : ((framing 2).drain [0, 0, 0, 1, 7, 0, 0, 0, 3]).refusal = some (.exceeds 2) :=
    @drain_of_long 2 [[7]] [[0, 0, 0, 1, 7]] [0, 0, 0, 3] (.cons rfl .nil) (by decide) _ [] rfl (by decide)
  rw [LengthPrefixedFrameReader.pushes, LengthPrefixedFrameReader.push] at hlost
  dsimp only at hlost
  rw [List.nil_append, hrefusal] at hlost
  cases congrArg Prod.fst hlost

end Streams

end Opensteer.Shared
