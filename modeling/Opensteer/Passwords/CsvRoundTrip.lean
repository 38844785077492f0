import Mathlib.Data.Bool.AllAny
import Opensteer.Passwords.CsvWriting

/-!
# A table that is written is read

`loop` goes over a field, a line end and so over a line as it is written, whatever comes behind them
(`loop_field`, `loop_fields`, `loop_lineEnd`), and `Detection.scan` over the header's fields (`scan_fields`).
`parse_written` is that a rendering is parsed to what it renders.
-/

namespace Opensteer.Passwords

namespace CSVParser

variable {repair : List UInt8 → Scalars} {d : Delimiter} {rest bytes : List UInt8} {s : Reading}

/-! ## The delimiter -/

namespace Detection

variable {detection : Detection}

theorem toggled_of_ne {byte : UInt8} (h : byte ≠ quote) : detection.toggled byte = detection := if_neg h

theorem saw_of_ne {byte : UInt8} (hcomma : byte ≠ comma) (hsemicolon : byte ≠ semicolon) :
    detection.saw byte = detection := by
  unfold saw
  rw [beq_eq_false_iff_ne.mpr hcomma, beq_eq_false_iff_ne.mpr hsemicolon, Bool.or_false, Bool.or_false]

theorem scan_plain (h : Plain bytes) (hquoted : detection.quoted = false) :
    scan (bytes ++ rest) detection = scan rest detection := by
  induction bytes with
  | nil => rfl
  | cons byte bytes ih =>
    obtain ⟨hbyte, hbytes⟩ := List.forall_mem_cons.mp h
    simp only [List.mem_cons, List.not_mem_nil, or_false, not_or] at hbyte
    obtain ⟨hquote, hcomma, hsemicolon, -, hlf⟩ := hbyte
    rw [List.cons_append, scan, toggled_of_ne hquote, hquoted, if_neg Bool.false_ne_true, if_neg hlf,
      saw_of_ne hcomma hsemicolon]
    exact ih hbytes

theorem scan_quoted (h : ∀ byte ∈ bytes, byte ≠ quote) (hquoted : detection.quoted = true) :
    scan (bytes ++ rest) detection = scan rest detection := by
  induction bytes with
  | nil => rfl
  | cons byte bytes ih =>
    obtain ⟨hbyte, hbytes⟩ := List.forall_mem_cons.mp h
    rw [List.cons_append, scan, toggled_of_ne hbyte, if_pos hquoted]
    exact ih hbytes

theorem scan_open (hquoted : detection.quoted = false) :
    scan (quote :: rest) detection = scan rest { detection with quoted := true } := by
  have htoggled : detection.toggled quote = { detection with quoted := true } := by
    rw [toggled, if_pos rfl, hquoted]
    rfl
  rw [scan, htoggled]
  rfl

theorem scan_close (hquoted : detection.quoted = true) :
    scan (quote :: rest) detection = scan rest { detection with quoted := false } := by
  have htoggled : detection.toggled quote = { detection with quoted := false } := by
    rw [toggled, if_pos rfl, hquoted]
    rfl
  rw [scan, htoggled, saw_of_ne (by decide) (by decide)]
  rfl

theorem scan_doubled {text : Scalars} (hquoted : detection.quoted = true) :
    scan (utf8 (text.flatMap doubled) ++ rest) detection = scan rest detection := by
  have hself : ({ detection with quoted := true } : Detection) = detection := by
    rw [← hquoted]
  induction text with
  | nil => rfl
  | cons c text ih =>
    rw [List.flatMap_cons, utf8_append, List.append_assoc]
    by_cases hc : c = '"'
    · subst hc
      show scan (quote :: quote :: _) detection = _
      rw [scan_close hquoted, scan_open rfl, hself]
      exact ih
    · rw [doubled, if_neg hc, scan_quoted (quote_not_mem hc) hquoted]
      exact ih

theorem scan_field (f : Field) (hquoted : detection.quoted = false) :
    scan (utf8 f.written ++ rest) detection = scan rest detection := by
  unfold Field.written
  split
  · rw [utf8_cons, utf8_append, List.append_assoc, List.append_assoc]
    have hself : ({ detection with quoted := false } : Detection) = detection := by
      rw [← hquoted]
    calc scan (quote :: (utf8 (f.text.flatMap doubled) ++ (quote :: rest))) detection
      _ = scan (quote :: rest) { detection with quoted := true } := by
        rw [scan_open hquoted, scan_doubled rfl]
      _ = scan rest detection := by
        rw [scan_close rfl, hself]
  · rename_i h
    exact scan_plain (plain_utf8 (f.proper (Bool.eq_false_iff.mpr h))) hquoted

theorem scan_delimiter (hquoted : detection.quoted = false) :
    scan (d.byte :: rest) detection = scan rest (detection.saw d.byte) := by
  have hquote : d.byte ≠ quote := by
    cases d <;> decide
  have hlf : d.byte ≠ lf := by
    cases d <;> decide
  rw [scan, toggled_of_ne hquote, hquoted, if_neg Bool.false_ne_true, if_neg hlf]

theorem utf8_delimiter (d : Delimiter) : utf8 [d.char] = [d.byte] := by
  cases d <;> decide

theorem scan_fields (fields : List Field) (hquoted : detection.quoted = false) :
    scan (utf8 (writeFields d fields) ++ rest) detection =
      scan rest (if 2 ≤ fields.length then detection.saw d.byte else detection) := by
  fun_induction writeFields d fields generalizing detection with
  | case1 => rfl
  | case2 f => exact scan_field f hquoted
  | case3 f fs hfs ih =>
    have htwo : 2 ≤ (f :: fs).length := by
      cases fs with
      | nil => exact absurd rfl hfs
      | cons => exact Nat.le_add_left 2 _
    have hsaw : (detection.saw d.byte).saw d.byte = detection.saw d.byte := by
      simp [saw]
    have hquoted' : (detection.saw d.byte).quoted = false := hquoted
    rw [utf8_append, utf8_cons, utf8_delimiter, List.append_assoc, List.append_assoc, scan_field f hquoted,
      List.singleton_append, scan_delimiter hquoted, ih hquoted', if_pos htwo, hsaw, ite_self]

theorem scan_lineEnd (e : LineEnd) (hquoted : detection.quoted = false) :
    scan (utf8 e.written ++ rest) detection = detection := by
  have hlf : scan (lf :: rest) detection = detection := by
    rw [scan, toggled_of_ne (by decide), hquoted]
    rfl
  cases e with
  | lf => exact hlf
  | crlf =>
    show scan (cr :: lf :: rest) detection = detection
    rw [scan, toggled_of_ne (by decide), hquoted, if_neg Bool.false_ne_true, if_neg (by decide),
      saw_of_ne (by decide) (by decide), hlf]

end Detection

/-- Behind a line there is nothing, or a line end. -/
theorem detectDelimiter_line {line : Line} (hend : line.ends = [] → rest = [])
    (hwide : d = .semicolon → 2 ≤ line.fields.length) :
    detectDelimiter (utf8 (line.written d) ++ rest) = d.byte := by
  have hscan : Detection.scan (utf8 (line.written d) ++ rest) {} =
      if 2 ≤ line.fields.length then Detection.saw d.byte {} else {} := by
    rw [Line.written, utf8_append, List.append_assoc, Detection.scan_fields _ rfl]
    have hquoted : (if 2 ≤ line.fields.length then Detection.saw d.byte {} else {}).quoted = false := by
      split <;> rfl
    cases hends : line.ends with
    | nil => rw [hend hends]; rfl
    | cons e ends =>
      rw [List.flatMap_cons, utf8_append, List.append_assoc, Detection.scan_lineEnd e hquoted]
  unfold detectDelimiter
  rw [hscan]
  cases d with
  | comma => split <;> rfl
  | semicolon => rw [if_pos (hwide rfl)]; rfl

/-! ## A field -/

theorem byte_ne_quote (d : Delimiter) : d.byte ≠ quote := by
  cases d <;> decide

theorem loop_plain (h : Plain bytes) (hquoted : s.quoted = false) (hbytes : bytes ≠ []) :
    loop repair d.byte (bytes ++ rest) s =
      loop repair d.byte rest { s with field := s.field ++ bytes, atFieldStart := false } := by
  induction bytes generalizing s with
  | nil => exact absurd rfl hbytes
  | cons byte bytes ih =>
    obtain ⟨hbyte, hplain⟩ := List.forall_mem_cons.mp h
    simp only [List.mem_cons, List.not_mem_nil, or_false, not_or] at hbyte
    obtain ⟨hquote, hcomma, hsemicolon, hcr, hlf⟩ := hbyte
    have hdelimiter : byte ≠ d.byte := by
      cases d
      · exact hcomma
      · exact hsemicolon
    have hstep : loop repair d.byte (byte :: (bytes ++ rest)) s =
        loop repair d.byte (bytes ++ rest) { s with field := s.field ++ [byte], atFieldStart := false } := by
      have hopen : ¬(s.atFieldStart = true ∧ byte = quote) := fun h => hquote h.2
      cases bytes ++ rest with
      | nil => simp only [loop, hquoted, if_neg Bool.false_ne_true, if_neg hopen, if_neg hdelimiter, if_neg hlf,
          Reading.append]
      | cons next tail => simp only [loop, hquoted, if_neg Bool.false_ne_true, if_neg hopen, if_neg hdelimiter,
          if_neg hlf, Reading.append, hcr, false_and, if_false]
    rw [List.cons_append, hstep]
    cases bytes with
    | nil => rfl
    | cons next bytes =>
      rw [ih (s := { s with field := s.field ++ [byte], atFieldStart := false }) hplain hquoted (List.cons_ne_nil _ _),
        List.append_assoc]
      rfl

theorem loop_quoted (h : ∀ byte ∈ bytes, byte ≠ quote) (hquoted : s.quoted = true) :
    loop repair d.byte (bytes ++ rest) s = loop repair d.byte rest { s with field := s.field ++ bytes } := by
  induction bytes generalizing s with
  | nil => rw [List.nil_append, List.append_nil]
  | cons byte bytes ih =>
    obtain ⟨hbyte, hbytes⟩ := List.forall_mem_cons.mp h
    rw [List.cons_append, loop_within repair _ hbyte hquoted, ih (s := s.append byte) hbytes hquoted, Reading.append,
      List.append_assoc]
    rfl

theorem loop_doubled {text : Scalars} (hquoted : s.quoted = true) :
    loop repair d.byte (utf8 (text.flatMap doubled) ++ rest) s =
      loop repair d.byte rest { s with field := s.field ++ utf8 text } := by
  induction text generalizing s with
  | nil => rw [List.flatMap_nil, utf8_nil, List.nil_append, List.append_nil]
  | cons c text ih =>
    rw [List.flatMap_cons, utf8_append, List.append_assoc, utf8_cons c text]
    by_cases hc : c = '"'
    · subst hc
      have hstep (tail : List UInt8) : loop repair d.byte (quote :: quote :: tail) s =
          loop repair d.byte tail (s.append quote) := by
        conv_lhs => unfold loop
        rw [if_pos hquoted, if_pos rfl]
        exact if_pos rfl
      show loop repair d.byte (quote :: quote :: (utf8 (text.flatMap doubled) ++ rest)) s = _
      rw [hstep, ih (s := s.append quote) hquoted, Reading.append, List.append_assoc]
      rfl
    · rw [doubled, if_neg hc, loop_quoted (quote_not_mem hc) hquoted,
        ih (s := { s with field := s.field ++ utf8 [c] }) hquoted, List.append_assoc]

theorem loop_close (hquoted : s.quoted = true) (hcloses : closes d.byte rest) :
    loop repair d.byte (quote :: rest) s = loop repair d.byte rest { s with quoted := false } := by
  conv_lhs => unfold loop
  rw [if_pos hquoted, if_pos rfl]
  cases rest with
  | nil => rfl
  | cons next rest =>
    have hnext : next ≠ quote := by
      rintro rfl
      have hne : (quote == d.byte) = false := beq_eq_false_iff_ne.mpr (byte_ne_quote d).symm
      rw [closes, hne] at hcloses
      exact Bool.false_ne_true hcloses
    show (if next = quote then _ else if closes d.byte (next :: rest) = true then _ else _) = _
    rw [if_neg hnext, if_pos hcloses]

/-- Behind a field comes what may stand behind a quote. An empty field may leave the parser at its start. -/
theorem loop_field (repair : List UInt8 → Scalars) (f : Field) (hquoted : s.quoted = false)
    (hstart : s.atFieldStart = true) (hfield : s.field = []) (hcloses : closes d.byte rest) :
    ∃ start, (start = true → f.text = []) ∧ loop repair d.byte (utf8 f.written ++ rest) s =
      loop repair d.byte rest { s with field := utf8 f.text, atFieldStart := start } := by
  unfold Field.written
  split
  · refine ⟨false, fun h => absurd h Bool.false_ne_true, ?_⟩
    have hopen (tail : List UInt8) : loop repair d.byte (quote :: tail) s =
        loop repair d.byte tail { s with quoted := true, atFieldStart := false } := by
      conv_lhs => unfold loop
      rw [if_neg (Bool.eq_false_iff.mp hquoted), if_pos ⟨hstart, rfl⟩]
    have hself : ({ s with quoted := false } : Reading) = s := by
      rw [← hquoted]
    rw [utf8_cons, utf8_append, List.append_assoc, List.append_assoc]
    show loop repair d.byte (quote :: (utf8 (f.text.flatMap doubled) ++ (quote :: rest))) s = _
    rw [hopen, loop_doubled rfl, loop_close rfl hcloses]
    show loop repair d.byte rest { s with
      quoted := false, field := s.field ++ utf8 f.text, atFieldStart := false } = _
    rw [hfield, List.nil_append, hquoted]
  · rename_i hplain
    by_cases htext : f.text = []
    · refine ⟨true, fun _ => htext, ?_⟩
      rw [htext, utf8_nil, List.nil_append, ← hfield, ← hstart]
    · refine ⟨false, fun h => absurd h Bool.false_ne_true, ?_⟩
      rw [loop_plain (plain_utf8 (f.proper (Bool.eq_false_iff.mpr hplain))) hquoted (mt utf8_eq_nil.mp htext), hfield,
        List.nil_append]

theorem loop_delimiter (hquoted : s.quoted = false) :
    loop repair d.byte (d.byte :: rest) s =
      ({ s with atFieldStart := false } : Reading).endField repair >>= fun s =>
        loop repair d.byte rest { s with atFieldStart := true } := by
  conv_lhs => unfold loop
  rw [if_neg (Bool.eq_false_iff.mp hquoted), if_neg fun h => byte_ne_quote d h.2]
  exact if_pos rfl

theorem loop_lineEnd (e : LineEnd) (hquoted : s.quoted = false) :
    loop repair d.byte (utf8 e.written ++ rest) s =
      ({ s with atFieldStart := false } : Reading).endRecord repair >>= fun s =>
        loop repair d.byte rest { s with atFieldStart := true } := by
  have hne {byte : UInt8} (h : byte ∈ [cr, lf]) : byte ≠ quote ∧ byte ≠ d.byte := by
    simp only [List.mem_cons, List.not_mem_nil, or_false] at h
    rcases h with rfl | rfl <;> cases d <;> decide
  cases e with
  | lf =>
    obtain ⟨hquote, hdelimiter⟩ := hne (List.mem_cons_of_mem cr (List.mem_singleton_self lf))
    show loop repair d.byte (lf :: rest) s = _
    conv_lhs => unfold loop
    rw [if_neg (Bool.eq_false_iff.mp hquoted), if_neg fun h => hquote h.2]
    exact (if_neg hdelimiter).trans (if_pos rfl)
  | crlf =>
    obtain ⟨hquote, hdelimiter⟩ := hne (List.mem_cons_self (a := cr) (l := [lf]))
    show loop repair d.byte (cr :: lf :: rest) s = _
    conv_lhs => unfold loop
    rw [if_neg (Bool.eq_false_iff.mp hquoted), if_neg fun h => hquote h.2]
    exact (if_neg hdelimiter).trans ((if_neg (by decide)).trans (if_pos ⟨rfl, rfl⟩))

/-! ## A line -/

/-- At the start of a field. -/
structure AtField (s : Reading) : Prop where
  quoted : s.quoted = false
  start : s.atFieldStart = true
  field : s.field = []

/-- A cell for which the record has room is kept. -/
theorem endField_of (repair : List UInt8 → Scalars) (text : Scalars) (hfield : s.field = utf8 text)
    (hcolumns : s.cellCount + 1 ≤ ImportLimits.maxColumns) (hwidth : ∀ header ∈ s.header, s.cellCount + 1 ≤ header.length) :
    s.endField repair =
      .ok { s with cellCount := s.cellCount + 1, record := s.record ++ [text], field := [] } := by
  have hroom : ¬(s.header.any fun header => header.length < s.cellCount + 1) = true := by
    intro h
    obtain ⟨header, hheader, hlt⟩ := (Option.any_eq_true _ _).mp h
    exact absurd (hwidth header hheader) (Nat.not_le.mpr (of_decide_eq_true hlt))
  unfold Reading.endField
  rw [if_neg (not_not.mpr hcolumns), if_neg hroom, hfield, decoding_utf8]

/-- Of a line that starts at `s` the cells are read, the last of which has not ended at `t`. -/
structure Pending (repair : List UInt8 → Scalars) (s t : Reading) (cells : List Scalars) : Prop where
  quoted : t.quoted = false
  count : s.cellCount ≤ t.cellCount
  alone : t.cellCount = 0 → t.field = [] → cells = [[]]
  ends (start : Bool) : ({ t with atFieldStart := start } : Reading).endField repair =
    .ok { s with record := s.record ++ cells, cellCount := s.cellCount + cells.length, atFieldStart := start }

theorem loop_fields (repair : List UInt8 → Scalars) {fields : List Field} (hne : fields ≠ []) (hs : AtField s)
    (hcloses : closes d.byte rest) (hcolumns : s.cellCount + fields.length ≤ ImportLimits.maxColumns)
    (hwidth : ∀ header ∈ s.header, s.cellCount + fields.length ≤ header.length) :
    ∃ t, Pending repair s t (fields.map Field.text) ∧
      loop repair d.byte (utf8 (writeFields d fields) ++ rest) s = loop repair d.byte rest t := by
  fun_induction writeFields d fields generalizing s with
  | case1 => exact absurd rfl hne
  | case2 f =>
    obtain ⟨start, -, hloop⟩ := loop_field repair f hs.quoted hs.start hs.field hcloses
    refine ⟨{ s with field := utf8 f.text, atFieldStart := start }, ⟨hs.quoted, Nat.le_refl _, fun _ hfield => ?_,
      fun start' => ?_⟩, hloop⟩
    · rw [List.map_singleton, utf8_eq_nil.mp hfield]
    · have hend := endField_of repair (s := { s with field := utf8 f.text, atFieldStart := start' }) f.text rfl
        hcolumns hwidth
      rw [hend, List.map_singleton, List.length_singleton, ← hs.field]
  | case3 f fs hfs ih =>
    have hdelimiter : closes d.byte (d.byte :: (utf8 (writeFields d fs) ++ rest)) = true := by
      rw [closes, beq_self_eq_true, Bool.true_or, Bool.true_or]
    obtain ⟨start, -, hloop⟩ := loop_field repair f hs.quoted hs.start hs.field hdelimiter
    have hlength : s.cellCount + (f :: fs).length = s.cellCount + 1 + fs.length := by
      rw [List.length_cons, Nat.add_assoc, Nat.add_comm 1]
    rw [hlength] at hcolumns hwidth
    have hend := endField_of repair (s := { s with field := utf8 f.text, atFieldStart := false }) f.text rfl
      (Nat.le_trans (Nat.le_add_right _ _) hcolumns)
      fun header hheader => Nat.le_trans (Nat.le_add_right _ fs.length) (hwidth header hheader)
    obtain ⟨t, ht, hrest⟩ := ih
      (s := { s with cellCount := s.cellCount + 1, record := s.record ++ [f.text], field := [], atFieldStart := true })
      hfs ⟨hs.quoted, rfl, rfl⟩ hcolumns hwidth
    refine ⟨t, ⟨ht.quoted, Nat.le_of_succ_le ht.count, fun hcount => ?_, fun start' => ?_⟩, ?_⟩
    · have hle : s.cellCount + 1 ≤ t.cellCount := ht.count
      omega
    · rw [ht.ends start', List.map_cons, List.append_assoc, List.singleton_append, List.length_cons, List.length_map,
        ← hs.field, Nat.add_assoc, Nat.add_comm 1]
    · rw [utf8_append, utf8_cons, Detection.utf8_delimiter, List.append_assoc, List.append_assoc, List.singleton_append,
        hloop,
        loop_delimiter (s := { s with field := utf8 f.text, atFieldStart := start }) hs.quoted, hend]
      exact hrest

/-! ## A record -/

/-- At the start of a record. -/
structure AtRecord (s : Reading) : Prop extends AtField s where
  record : s.record = []
  count : s.cellCount = 0

/-- A record, or before it the header, that takes some rows has been read. -/
def Reading.kept (cells : List Scalars) (rows : Nat) (s : Reading) : Reading :=
  match s.header with
  | none => { s with header := some cells, recordCount := s.recordCount + rows }
  | some _ => { s with
      body := s.body ++ [⟨s.recordCount + 1, cells, false⟩], recordCount := s.recordCount + rows,
      storedCells := s.storedCells + cells.length }

/-- There is room for the record. -/
structure Fits (cells : List Scalars) (rows : Nat) (s : Reading) : Prop where
  nonempty : cells ≠ []
  notBlank : cells ≠ [[]]
  columns : cells.length ≤ ImportLimits.maxColumns
  rows : s.recordCount + rows ≤ ImportLimits.maxRows + 1
  width : ∀ header ∈ s.header, cells.length = header.length ∧ s.storedCells + cells.length ≤ ImportLimits.maxCells

section

variable {t : Reading} {cells : List Scalars} {rows : Nat}

theorem AtRecord.kept (hs : AtRecord s) : AtRecord (s.kept cells rows) := by
  unfold Reading.kept
  split <;> exact ⟨⟨hs.quoted, hs.start, hs.field⟩, hs.record, hs.count⟩

theorem AtRecord.forget (hs : AtRecord s) (start : Bool) :
    ({ s with record := [], cellCount := 0, atFieldStart := start } : Reading) = { s with atFieldStart := start } := by
  rw [← hs.record, ← hs.count]

theorem endRecord_of {u v : Reading} (hend : t.endField repair = .ok u) (hrows : u.recordCount + 1 ≤ ImportLimits.maxRows + 1)
    (hkeep : Reading.keepRecord { u with recordCount := u.recordCount + 1 } = .ok v) :
    t.endRecord repair = .ok { v with record := [], cellCount := 0 } := by
  unfold Reading.endRecord
  rw [hend]
  show (if ¬ u.recordCount + 1 ≤ ImportLimits.maxRows + 1 then _ else _) = _
  rw [if_neg (not_not.mpr hrows)]
  show (Reading.keepRecord _ >>= _) = _
  rw [hkeep]
  rfl

/-- A record for which there is room is kept, before what was read of it is forgotten. -/
theorem keepRecord_of (hfits : Fits cells 1 s) (start : Bool) :
    Reading.keepRecord { s with
        record := cells, cellCount := cells.length, recordCount := s.recordCount + 1, atFieldStart := start } =
      .ok { s.kept cells 1 with record := cells, cellCount := cells.length, atFieldStart := start } := by
  unfold Reading.keepRecord Reading.kept
  cases hheader : s.header with
  | none => rfl
  | some header =>
    obtain ⟨hwidth, hcells⟩ := hfits.width header hheader
    have hblank : ¬(cells.length = 1 ∧ cells = [[]]) := fun h => hfits.notBlank h.2
    show (if _ then _ else if _ then _ else _) = _
    rw [if_neg hblank, if_neg (not_not.mpr hwidth)]
    exact if_neg (not_not.mpr hcells)

theorem Pending.endRecord (ht : Pending repair s t cells) (hs : AtRecord s) (hfits : Fits cells 1 s) (start : Bool) :
    ({ t with atFieldStart := start } : Reading).endRecord repair =
      .ok { s.kept cells 1 with atFieldStart := start } := by
  have hends := ht.ends start
  rw [hs.record, List.nil_append, hs.count, Nat.zero_add] at hends
  rw [endRecord_of hends hfits.rows (keepRecord_of hfits start)]
  exact congrArg Except.ok (hs.kept.forget start)

/-- A blank line is no record, but takes a row. -/
theorem endRecord_blank {header : List Scalars} (hs : AtRecord s) (hheader : s.header = some header) (hne : header ≠ [])
    (hrows : s.recordCount + 1 ≤ ImportLimits.maxRows + 1) (start : Bool) :
    ({ s with atFieldStart := start } : Reading).endRecord repair =
      .ok { s with recordCount := s.recordCount + 1, atFieldStart := start } := by
  have hend := endField_of repair (s := { s with atFieldStart := start }) [] hs.field
    (by rw [hs.count]; decide) fun header' hheader' => by
      rw [hheader, Option.mem_some_iff] at hheader'
      rw [← hheader', hs.count]
      exact List.length_pos_iff.mpr hne
  rw [hs.record, hs.count] at hend
  have hkeep : Reading.keepRecord { s with
      record := [[]], cellCount := 1, recordCount := s.recordCount + 1, field := [], atFieldStart := start } =
        .ok { s with record := [[]], cellCount := 1, recordCount := s.recordCount + 1, field := [],
                     atFieldStart := start } := by
    unfold Reading.keepRecord
    rw [hheader]
    exact if_pos ⟨rfl, rfl⟩
  rw [hs.record, hs.count, endRecord_of hend hrows hkeep]
  exact congrArg Except.ok (by rw [← hs.field])

theorem loop_blanks {header : List Scalars} (ends : List LineEnd) (hs : AtRecord s) (hheader : s.header = some header)
    (hne : header ≠ []) (hrows : s.recordCount + ends.length ≤ ImportLimits.maxRows + 1) :
    loop repair d.byte (utf8 (ends.flatMap LineEnd.written) ++ rest) s =
      loop repair d.byte rest { s with recordCount := s.recordCount + ends.length } := by
  induction ends generalizing s with
  | nil => rfl
  | cons e ends ih =>
    have hlength : s.recordCount + (e :: ends).length = s.recordCount + 1 + ends.length := by
      rw [List.length_cons, Nat.add_assoc, Nat.add_comm 1]
    rw [hlength] at hrows ⊢
    have hrow : s.recordCount + 1 ≤ ImportLimits.maxRows + 1 := Nat.le_trans (Nat.le_add_right _ _) hrows
    have hnext : AtRecord { s with recordCount := s.recordCount + 1 } :=
      ⟨⟨hs.quoted, hs.start, hs.field⟩, hs.record, hs.count⟩
    rw [List.flatMap_cons, utf8_append, List.append_assoc, loop_lineEnd e hs.quoted,
      endRecord_blank hs hheader hne hrow false]
    have hstart : ({ s with recordCount := s.recordCount + 1, atFieldStart := true } : Reading) =
        { s with recordCount := s.recordCount + 1 } := by
      rw [← hs.start]
    calc loop repair d.byte (utf8 (ends.flatMap LineEnd.written) ++ rest)
          { s with recordCount := s.recordCount + 1, atFieldStart := true }
      _ = loop repair d.byte (utf8 (ends.flatMap LineEnd.written) ++ rest)
          { s with recordCount := s.recordCount + 1 } := by rw [hstart]
      _ = _ := ih hnext hheader hrows

/-! ## Lines -/

/-- What `parse` does behind its loop. -/
def conclude (repair : List UInt8 → Scalars) (s : Reading) : Except ImportError CSVTable := finish repair s >>= table

theorem conclude_start (hs : AtRecord s) : conclude repair s = table s := by
  have hnothing : ¬(!s.atFieldStart || s.record ≠ [] || s.field ≠ [] || 0 < s.cellCount) = true := by
    rw [hs.start, hs.record, hs.field, hs.count]
    decide
  unfold conclude finish
  rw [if_neg (Bool.eq_false_iff.mp hs.quoted), if_neg hnothing]
  rfl

theorem conclude_pending (ht : Pending repair s t cells) (hs : AtRecord s) (hfits : Fits cells 1 s) :
    conclude repair t = table (s.kept cells 1) := by
  have hsome : (!t.atFieldStart || t.record ≠ [] || t.field ≠ [] || 0 < t.cellCount) = true := by
    by_cases hcount : t.cellCount = 0
    · have hfield : t.field ≠ [] := fun h => hfits.notBlank (ht.alone hcount h)
      simp [hfield]
    · simp [Nat.pos_of_ne_zero hcount]
  unfold conclude finish
  rw [if_neg (Bool.eq_false_iff.mp ht.quoted), if_pos hsome, ht.endRecord hs hfits t.atFieldStart]
  rfl

theorem kept_blanks (s : Reading) (cells : List Scalars) (n : Nat) :
    ({ s.kept cells 1 with recordCount := (s.kept cells 1).recordCount + n } : Reading) = s.kept cells (1 + n) := by
  unfold Reading.kept
  cases s.header with
  | none => rw [Nat.add_assoc]
  | some header => rw [Nat.add_assoc]

theorem kept_header (hfits : Fits cells rows s) : ∃ header, (s.kept cells rows).header = some header ∧ header ≠ [] := by
  unfold Reading.kept
  cases hheader : s.header with
  | none => exact ⟨cells, rfl, hfits.nonempty⟩
  | some header =>
    refine ⟨header, rfl, List.ne_nil_of_length_pos ?_⟩
    rw [← (hfits.width header hheader).1]
    exact List.length_pos_iff.mpr hfits.nonempty

theorem closes_ends {ends : List LineEnd} (hlast : ends = [] → rest = []) :
    closes d.byte (utf8 (ends.flatMap LineEnd.written) ++ rest) = true := by
  cases ends with
  | nil => rw [hlast rfl]; rfl
  | cons e ends => cases e <;> cases d <;> rfl

/-- Reading a line keeps its record. Without a line end it is the last. -/
theorem read_line (line : Line) (hs : AtRecord s) (hfits : Fits line.cells line.rows s) (hlast : line.ends = [] → rest = []) :
    (loop repair d.byte (utf8 (line.written d) ++ rest) s >>= conclude repair) =
      (loop repair d.byte rest (s.kept line.cells line.rows) >>= conclude repair) := by
  have hlength : line.cells.length = line.fields.length := List.length_map _
  have hfields : line.fields ≠ [] := fun h => hfits.nonempty (List.map_eq_nil_iff.mpr h)
  obtain ⟨t, ht, hloop⟩ := loop_fields repair hfields hs.toAtField (closes_ends (d := d) hlast)
    (by rw [hs.count, Nat.zero_add, ← hlength]; exact hfits.columns) fun header hheader => by
      rw [hs.count, Nat.zero_add, ← hlength]
      exact Nat.le_of_eq (hfits.width header hheader).1
  have hone : Fits line.cells 1 s := { hfits with
    rows := Nat.le_trans (Nat.add_le_add_left (Nat.le_max_left 1 _) _) hfits.rows }
  rw [Line.written, utf8_append, List.append_assoc, hloop]
  cases hends : line.ends with
  | nil =>
    have hrows : line.rows = 1 := by
      rw [Line.rows, hends]
      rfl
    rw [hlast hends, hrows]
    show conclude repair t = conclude repair (s.kept line.cells 1)
    rw [conclude_pending ht hs hone, conclude_start hs.kept]
    rfl
  | cons e blanks =>
    have hrows : line.rows = 1 + blanks.length := by
      rw [Line.rows, hends, List.length_cons, Nat.add_comm]
      exact Nat.max_eq_right (Nat.le_add_right 1 _)
    obtain ⟨header, hheader, hne⟩ := kept_header hone
    have hstart : ({ s.kept line.cells 1 with atFieldStart := true } : Reading) = s.kept line.cells 1 := by
      have hkept : AtRecord (s.kept line.cells 1) := hs.kept
      rw [← hkept.start]
    have hcount : (s.kept line.cells 1).recordCount + blanks.length ≤ ImportLimits.maxRows + 1 := by
      have hle := hfits.rows
      rw [hrows, ← Nat.add_assoc] at hle
      unfold Reading.kept
      split <;> exact hle
    rw [List.flatMap_cons, utf8_append, List.append_assoc, loop_lineEnd e ht.quoted, ht.endRecord hs hone false]
    show (loop repair d.byte (utf8 (blanks.flatMap LineEnd.written) ++ rest)
      { s.kept line.cells 1 with atFieldStart := true } >>= conclude repair) = _
    rw [hstart, loop_blanks blanks hs.kept hheader hne hcount, kept_blanks, hrows]

end

section

variable {header : List Scalars} {line : Line} {lines : List Line}

/-- There is room for records of the header's width, of which none is blank. -/
structure Room (header : List Scalars) (lines : List Line) (s : Reading) : Prop where
  found : s.header = some header
  named : header.any (· ≠ []) = true
  columns : header.length ≤ ImportLimits.maxColumns
  records : ∀ line ∈ lines, line.cells.length = header.length ∧ line.cells ≠ [[]]
  rows : s.recordCount + (lines.map Line.rows).sum ≤ ImportLimits.maxRows + 1
  cells : s.storedCells + lines.length * header.length ≤ ImportLimits.maxCells

theorem Room.fits (h : Room header (line :: lines) s) : Fits line.cells line.rows s := by
  obtain ⟨hwidth, hblank⟩ := h.records line List.mem_cons_self
  have hne : header ≠ [] := by
    rintro rfl
    exact Bool.false_ne_true h.named
  have hrows := h.rows
  have hcells := h.cells
  rw [List.map_cons, List.sum_cons] at hrows
  rw [List.length_cons, Nat.succ_mul] at hcells
  refine ⟨List.ne_nil_of_length_pos ?_, hblank, hwidth ▸ h.columns, by omega, fun header' hheader => ?_⟩
  · rw [hwidth]
    exact List.length_pos_iff.mpr hne
  · rw [h.found, Option.mem_some_iff] at hheader
    rw [← hheader]
    exact ⟨hwidth, by omega⟩

theorem Room.kept (h : Room header (line :: lines) s) :
    s.kept line.cells line.rows = { s with
      body := s.body ++ [⟨s.recordCount + 1, line.cells, false⟩], recordCount := s.recordCount + line.rows,
      storedCells := s.storedCells + line.cells.length } := by
  unfold Reading.kept
  split
  · rename_i hnone
    exact absurd (hnone.symm.trans h.found) (Option.some_ne_none header).symm
  · rfl

theorem Room.next (h : Room header (line :: lines) s) : Room header lines (s.kept line.cells line.rows) := by
  have hwidth := (h.records line List.mem_cons_self).1
  have hrows := h.rows
  have hcells := h.cells
  rw [List.map_cons, List.sum_cons, ← Nat.add_assoc] at hrows
  rw [List.length_cons, Nat.succ_mul] at hcells
  rw [h.kept]
  refine ⟨h.found, h.named, h.columns, fun line' hline => h.records line' (List.mem_cons_of_mem _ hline), hrows, ?_⟩
  show s.storedCells + line.cells.length + lines.length * header.length ≤ ImportLimits.maxCells
  omega

theorem ended_tail (h : ∀ line' ∈ (line :: lines).dropLast, line'.ends ≠ []) :
    ∀ line' ∈ lines.dropLast, line'.ends ≠ [] := by
  cases lines with
  | nil => exact fun _ hmem => absurd hmem List.not_mem_nil
  | cons line' lines => exact fun line'' hmem => h line'' (List.mem_cons_of_mem line hmem)

/-- Only the last line may have no line end. -/
theorem last_of_ended (h : ∀ line' ∈ (line :: lines).dropLast, line'.ends ≠ []) (hends : line.ends = []) :
    utf8 (lines.flatMap (Line.written d)) = [] := by
  cases lines with
  | nil => rfl
  | cons line' lines => exact absurd hends (h line List.mem_cons_self)

theorem read_lines (hs : AtRecord s) (hroom : Room header lines s) (hended : ∀ line ∈ lines.dropLast, line.ends ≠ []) :
    (loop repair d.byte (utf8 (lines.flatMap (Line.written d))) s >>= conclude repair) =
      .ok ⟨header, s.body ++ numbered (s.recordCount + 1) lines⟩ := by
  induction lines generalizing s with
  | nil =>
    show conclude repair s = _
    rw [conclude_start hs, table, hroom.found, numbered, List.append_nil]
    exact if_pos hroom.named
  | cons line lines ih =>
    rw [List.flatMap_cons, utf8_append, read_line line hs hroom.fits (last_of_ended hended),
      ih hs.kept hroom.next (ended_tail hended), hroom.kept, List.append_assoc]
    rw [numbered, Nat.add_right_comm]
    rfl

end

/-! ## A table -/

/-- The bytes behind the byte order mark are those of the lines. -/
theorem unmarked {r : Rendering} (h : r.Marked) :
    (if byteOrderMark.isPrefixOf (utf8 r.written) then (utf8 r.written).drop 3 else utf8 r.written) = utf8 r.lines := by
  by_cases hbom : r.bom = true
  · have hwritten : utf8 r.written = byteOrderMark ++ utf8 r.lines := by
      rw [Rendering.written, if_pos hbom, utf8_append]
      rfl
    have hmark : byteOrderMark.isPrefixOf (utf8 r.written) = true := by
      rw [List.isPrefixOf_iff_prefix, hwritten]
      exact List.prefix_append _ _
    rw [if_pos hmark, hwritten]
    rfl
  · have hwritten : r.written = r.lines := by
      rw [Rendering.written, if_neg hbom, List.nil_append]
    have hmark : ¬byteOrderMark.isPrefixOf (utf8 r.lines) = true := fun hmark =>
      (h.resolve_left hbom) (head?_of_byteOrderMark (List.isPrefixOf_iff_prefix.mp hmark))
    rw [hwritten, if_neg hmark]

theorem detectDelimiter_lines (r : Rendering) : detectDelimiter (utf8 r.lines) = r.delimiter.byte := by
  rw [Rendering.lines, List.flatMap_cons, utf8_append]
  exact detectDelimiter_line (last_of_ended r.ended) r.wide

theorem loop_lines (repair : List UInt8 → Scalars) {header : List Scalars} {records : List (List Scalars)} {r : Rendering}
    (hrenders : r.Renders header records) (hnamed : ∃ name ∈ header, name ≠ [])
    (hrecords : ∀ record ∈ records, record.length = header.length ∧ record ≠ [[]]) (hwithin : r.Within) :
    (loop repair r.delimiter.byte (utf8 r.lines) {} >>= conclude repair) = .ok ⟨header, r.records⟩ := by
  obtain ⟨rfl, rfl⟩ := hrenders
  obtain ⟨name, hmem, hname⟩ := hnamed
  have hstart : AtRecord {} := ⟨⟨rfl, rfl, rfl⟩, rfl, rfl⟩
  have hrows : r.header.rows + (r.body.map Line.rows).sum ≤ ImportLimits.maxRows + 1 := hwithin.rows
  have hfits : Fits r.header.cells r.header.rows {} := by
    refine ⟨List.ne_nil_of_mem hmem, fun hblank => ?_, hwithin.columns, ?_, fun header hheader => by cases hheader⟩
    · rw [hblank, List.mem_singleton] at hmem
      exact hname hmem
    · rw [Nat.zero_add]
      exact Nat.le_trans (Nat.le_add_right _ _) hrows
  have hroom : Room r.header.cells r.body (Reading.kept r.header.cells r.header.rows {}) := by
    refine ⟨rfl, List.any_eq_true.mpr ⟨name, hmem, decide_eq_true hname⟩, hwithin.columns, fun line hline =>
      hrecords line.cells (List.mem_map_of_mem hline), ?_, ?_⟩
    · show 0 + r.header.rows + _ ≤ _
      rw [Nat.zero_add]
      exact hrows
    · show 0 + _ ≤ _
      rw [Nat.zero_add]
      exact hwithin.cells
  rw [Rendering.lines, List.flatMap_cons, utf8_append, read_line r.header hstart hfits (last_of_ended r.ended),
    read_lines hstart.kept hroom (ended_tail r.ended)]
  show Except.ok (CSVTable.mk r.header.cells (numbered (0 + r.header.rows + 1) r.body)) = _
  rw [Nat.zero_add]
  rfl

/-- A table is parsed from every rendering of it. -/
theorem parse_written {header : List Scalars} {records : List (List Scalars)} {r : Rendering}
    (hrenders : r.Renders header records) (hnamed : ∃ name ∈ header, name ≠ [])
    (hrecords : ∀ record ∈ records, record.length = header.length ∧ record ≠ [[]]) (hwithin : r.Within)
    (hmarked : r.Marked) :
    parse repair (utf8 r.written) = .ok ⟨header, r.records⟩ := by
  have hdecode : ¬(UTF8Text.decode repair (utf8 r.lines)).isNone = true := by
    rw [decode_utf8]
    exact Bool.false_ne_true
  have hloop := loop_lines repair hrenders hnamed hrecords hwithin
  rw [← detectDelimiter_lines] at hloop
  unfold parse
  rw [if_neg (not_not.mpr hwithin.bytes), unmarked hmarked]
  exact (if_neg hdecode).trans hloop

theorem unreserved_of_all {text : Scalars} {quoted : Bool}
    (h : (quoted || text.all fun c => c ∉ reserved) = true) (hquoted : quoted = false) :
    ∀ c ∈ text, c ∉ reserved := by
  rw [hquoted, Bool.false_or] at h
  exact List.all_iff_forall_prop.mp h

/-- Two columns and two records, with a blank line between them and none of the line ends after the last. -/
def logins : Rendering where
  bom := false
  delimiter := .semicolon
  header := ⟨[⟨['u'], false, unreserved_of_all (by decide)⟩, ⟨['p'], false, unreserved_of_all (by decide)⟩], [.crlf]⟩
  body := [⟨[⟨['x', ';', '"', '\n'], true, unreserved_of_all (by decide)⟩, ⟨[], false, unreserved_of_all (by decide)⟩], [.lf, .lf]⟩,
    ⟨[⟨[], true, unreserved_of_all (by decide)⟩, ⟨['q'], false, unreserved_of_all (by decide)⟩], []⟩]
  ended := by decide
  wide := by decide

theorem parse_written_logins :
    parse (fun _ => []) (utf8 logins.written) =
      .ok ⟨[['u'], ['p']], [⟨2, [['x', ';', '"', '\n'], []], false⟩, ⟨4, [[], ['q']], false⟩]⟩ :=
  @parse_written _ [['u'], ['p']] [[['x', ';', '"', '\n'], []], [[], ['q']]] logins
    ⟨rfl, rfl⟩ ⟨['u'], by decide, by decide⟩ (by decide) ⟨by decide, by decide, by decide, by decide⟩ (.inr (by decide))

/-- A header whose first name begins with what a byte order mark is. -/
def markedName : Rendering where
  bom := false
  delimiter := .comma
  header := ⟨[⟨['\uFEFF', 'a'], false, unreserved_of_all (by decide)⟩], []⟩
  body := []
  ended := by decide
  wide := by decide

/-- Its name is read without that. -/
theorem not_parse_markedName : markedName.Renders [['\uFEFF', 'a']] [] ∧ markedName.Within ∧
    parse (fun _ => []) (utf8 markedName.written) = .ok ⟨[['a']], []⟩ ∧
    parse (fun _ => []) (utf8 markedName.written) ≠ .ok ⟨[['\uFEFF', 'a']], markedName.records⟩ :=
  ⟨⟨rfl, rfl⟩, ⟨by decide, by decide, by decide, by decide⟩, by decide +kernel, by decide +kernel⟩

end CSVParser

end Opensteer.Passwords
