import Opensteer.InputProjection.Model

/-!
# Envelopes

A header's markers are its own and those of its author label (`promptMarkers_header`), a label's those
of the name and the connection it shows (`promptMarkers_label`): these are shown as they are, and so
are an artifact's name and path in a sequence with images. Everything else that is not a person's text
is escaped, so what is told to an engine has no marker but the platform's own if and only if these
have none (`envelopes_iff`).
-/

namespace Opensteer.InputProjection

open Markers

variable {attachments : Text → Option ResolvedAttachment} {input : HarnessInput} {body text : Text} {unit : UInt16}
  {part : ContentPart} {reports : HarnessRunReports} {renderBody : HarnessInput → Text}

/-! ## Signs -/

theorem breaks_of {sign : UInt16} (hopening : sign ≠ 0x5b) (hclosing : sign ≠ 0x5d)
    (hbodies : ∀ folded ∈ promptMarkerBodies, fold sign ∉ folded) : Breaks promptMarker sign :=
  ⟨hopening, hclosing, fun _ hbody => notMem_of_isPromptMarkerBody hbody hbodies⟩

theorem breaks_newline : Breaks promptMarker 0xa := breaks_of (by decide) (by decide) (by decide +kernel)

theorem breaks_parenthesis : Breaks promptMarker 0x28 := breaks_of (by decide) (by decide) (by decide +kernel)

theorem breaks_fullwidth : Breaks promptMarker 0xff3b := breaks_of (by decide) (by decide) (by decide +kernel)

@[simp] theorem promptMarkers_escape (text : Text) : promptMarkers (escapeOpensteerPromptMarkers text) = [] :=
  markers_escape breaks_fullwidth (by decide) text

/-- A text without opening brackets before another. -/
theorem promptMarkers_append_right {x y : Text} (h : 0x5b ∉ x) : promptMarkers (x ++ y) = promptMarkers y :=
  markers_append_right h

/-- A text without closing brackets after another. -/
theorem promptMarkers_append_left {x y : Text} (h : 0x5d ∉ y) : promptMarkers (x ++ y) = promptMarkers x :=
  markers_append_left h

theorem promptMarkers_of_notMem (h : 0x5b ∉ text) : promptMarkers text = [] := by
  have := promptMarkers_append_right (y := []) h
  rwa [List.append_nil] at this

/-- Lines have their own markers. -/
theorem promptMarkers_append_line (xs ys : Text) :
    promptMarkers (xs ++ 0xa :: ys) = promptMarkers xs ++ promptMarkers ys :=
  markers_append breaks_newline

/-- A text of the source that is put together of two. -/
theorem promptMarkers_concatenated {s t : String} (hs : 0x5b ∉ units s) (ht : 0x5b ∉ units t) :
    promptMarkers (units (s ++ t)) = [] := by
  rw [units_append]
  exact promptMarkers_of_notMem fun h => (List.mem_append.mp h).elim hs ht

theorem promptMarkers_lines (lines : List Text) :
    promptMarkers (List.intercalate (units "\n") lines) = lines.flatMap promptMarkers :=
  markers_join breaks_newline (by simp) lines

theorem promptMarkers_paragraphs (lines : List Text) :
    promptMarkers (List.intercalate (units "\n\n") lines) = lines.flatMap promptMarkers :=
  markers_join breaks_newline (show 0x5b ∉ [0xa] by decide) lines

/-! ## Author labels -/

/-- The display name or cause that a label shows. -/
def MessageAuthor.name : MessageAuthor → Text
  | .human displayName _ _ | .agent displayName _ _ _ _ | .trigger displayName _ _ _ | .watch _ displayName _ _
  | .connection displayName _ => displayName
  | .platform cause _ => cause

/-- The connection that a label shows. -/
def MessageAuthor.shownConnection : MessageAuthor → Text
  | .connection _ connectionId => connectionId
  | _ => []

/-- A name, and what is in parentheses after it. -/
theorem promptMarkers_named {before : Text} (name after : Text) (hbefore : 0x5b ∉ before) :
    promptMarkers (before ++ (name ++ 0x20 :: 0x28 :: after)) = promptMarkers name ++ promptMarkers after := by
  rw [promptMarkers_append_right hbefore, List.append_cons]
  refine (markers_append breaks_parenthesis).trans (congrArg (· ++ _) ?_)
  exact promptMarkers_append_left (by decide)

/-- A name, and after it in parentheses what has an ID. -/
theorem promptMarkers_identified (before name what id : Text) (hbefore : 0x5b ∉ before) (hwhat : 0x5b ∉ what) :
    promptMarkers (before ++ name ++ 0x20 :: 0x28 :: what ++ id ++ units "; not the user)") =
      promptMarkers name ++ promptMarkers id := by
  have hafter : promptMarkers (what ++ (id ++ units "; not the user)")) = promptMarkers id := by
    rw [promptMarkers_append_right hwhat, promptMarkers_append_left (notMem_units (by decide) rfl)]
  rw [← hafter, ← promptMarkers_named _ _ hbefore]
  simp only [List.append_assoc, List.cons_append]

theorem promptMarkers_token (token : Token) : promptMarkers token.text = [] :=
  promptMarkers_of_notMem token.plain

theorem promptMarkers_label (author : MessageAuthor) : promptMarkers (harnessInputAuthorLabel author) =
    promptMarkers (headerText author.name) ++ promptMarkers author.shownConnection := by
  cases author with
  | human displayName principalId userId =>
    exact (promptMarkers_append_right (notMem_units (by decide) rfl)).trans (List.append_nil _).symm
  | agent displayName runId threadId workspaceId workspaceName =>
    have h := promptMarkers_identified (units "agent ") (headerText displayName)
      (units "Opensteer Thread ") threadId.text (notMem_units (by decide) rfl) (notMem_units (by decide) rfl)
    rwa [promptMarkers_token] at h
  | trigger displayName occurrenceId source triggerId =>
    have h := promptMarkers_identified (units "Trigger ") (headerText displayName)
      (units "occurrence ") occurrenceId.text (notMem_units (by decide) rfl) (notMem_units (by decide) rfl)
    rwa [promptMarkers_token] at h
  | watch activationId displayName revisionId triggerId =>
    have h := promptMarkers_identified (units "Watch ") (headerText displayName)
      (units "activation ") activationId.text (notMem_units (by decide) rfl) (notMem_units (by decide) rfl)
    rwa [promptMarkers_token] at h
  | platform cause referenceId =>
    have hplatform : 0x5b ∉ units "Opensteer platform event " :=
      notMem_units (by decide) rfl
    have hrest : promptMarkers (units "not the user)") = [] := promptMarkers_of_notMem (notMem_units (by decide) rfl)
    have h := promptMarkers_named (headerText cause) (units "not the user)") hplatform
    rw [hrest] at h
    rw [harnessInputAuthorLabel, List.append_assoc]
    exact h
  | connection displayName connectionId =>
    exact promptMarkers_identified (units "connected agent ") _ (units "connection ") _
      (notMem_units (by decide) rfl) (notMem_units (by decide) rfl)

/-! ## Headers -/

@[simp] theorem promptMarkers_quoteText (quote : Option MessageQuote) : promptMarkers (quoteText quote) = [] := by
  cases quote with
  | none => rfl
  | some quote =>
    rw [quoteText, List.append_assoc, promptMarkers_append_right (notMem_units (by decide) rfl),
      promptMarkers_append_left (notMem_units (by decide) rfl), promptMarkers_escape]

theorem notMem_kind (kind : MessageKind) : 0x5b ∉ units kind.value := by
  cases kind with
  | input =>
    show 0x5b ∉ units "input"
    exact notMem_units (by decide) rfl
  | runResult =>
    show 0x5b ∉ units "run-result"
    exact notMem_units (by decide) rfl
  | continuation =>
    show 0x5b ∉ units "continuation"
    exact notMem_units (by decide) rfl

/-- The body of the marker of an input. -/
def inputMarker : Text := units "Opensteer input"

theorem promptMarkers_header (input : HarnessInput) (body : Text) : promptMarkers (harnessInputHeader input body) =
    inputMarker :: (promptMarkers (harnessInputAuthorLabel input.author) ++
      promptMarkers (if input.author.isHuman then body else escapeOpensteerPromptMarkers body)) := by
  have hcut : harnessInputHeader input body = units "[Opensteer input]" ++ 0xa :: (units "Author: " ++
      harnessInputAuthorLabel input.author ++ 0xa :: (units "Kind: " ++ units input.kind.value ++ 0xa ::
        (quoteText input.quote ++ 0xa ::
          if input.author.isHuman then body else escapeOpensteerPromptMarkers body))) := by
    have h1 : units "[Opensteer input]\nAuthor: " = units "[Opensteer input]" ++ 0xa :: units "Author: " := by
      simp [units]
    have h2 : units "\nKind: " = 0xa :: units "Kind: " := by simp [units]
    have h3 : units "\n" = [0xa] := by simp [units]
    simp only [harnessInputHeader, h1, h2, h3, List.append_assoc, List.cons_append, List.nil_append]
  have hkind : promptMarkers (units "Kind: " ++ units input.kind.value) = [] := by
    rw [promptMarkers_append_right (notMem_units (by decide) rfl), promptMarkers_of_notMem (notMem_kind _)]
  have hown : promptMarkers (units "[Opensteer input]") = [inputMarker] := by decide
  rw [hcut, promptMarkers_append_line, promptMarkers_append_line, promptMarkers_append_line,
    promptMarkers_append_line, hown, hkind, promptMarkers_quoteText, promptMarkers_append_right (notMem_units (by decide) rfl)]
  rfl

/-- The markers of the header of an input that is not a person's. -/
theorem promptMarkers_header_of_not_human (h : input.author.isHuman = false) (body : Text) :
    promptMarkers (harnessInputHeader input body) = inputMarker :: promptMarkers (harnessInputAuthorLabel input.author) := by
  rw [promptMarkers_header, h, if_neg Bool.false_ne_true, promptMarkers_escape, List.append_nil]

theorem prefix_header (input : HarnessInput) (body : Text) :
    units "[Opensteer input]" <+: harnessInputHeader input body := by
  have h : units "[Opensteer input]\nAuthor: " = units "[Opensteer input]" ++ units "\nAuthor: " := by simp [units]
  simp only [harnessInputHeader, h, List.append_assoc]
  exact List.prefix_append _ _

/-! ## Artifacts -/

/-- A file that an artifact of some parts, with a name, stands for. -/
def Holds (attachments : Text → Option ResolvedAttachment) (parts : List ContentPart) (name : Text)
    (resolved : ResolvedAttachment) : Prop :=
  ∃ artifactId mediaType sizeBytes, .artifact artifactId mediaType name sizeBytes ∈ parts ∧
    resolveArtifact attachments artifactId mediaType name sizeBytes = .ok resolved

/-- Every artifact of some parts is there as it was accepted. -/
def Available (attachments : Text → Option ResolvedAttachment) (parts : List ContentPart) : Prop :=
  ∀ artifactId mediaType name sizeBytes, .artifact artifactId mediaType name sizeBytes ∈ parts →
    ∃ resolved, resolveArtifact attachments artifactId mediaType name sizeBytes = .ok resolved

theorem available_cons {parts : List ContentPart} :
    Available attachments (part :: parts) ↔ Available attachments [part] ∧ Available attachments parts := by
  simp only [Available, List.mem_cons, List.not_mem_nil, or_false]
  grind

theorem holds_cons {parts : List ContentPart} {name : Text} {resolved : ResolvedAttachment} :
    Holds attachments (part :: parts) name resolved ↔
      Holds attachments [part] name resolved ∨ Holds attachments parts name resolved := by
  simp only [Holds, List.mem_cons, List.not_mem_nil, or_false]
  grind

theorem available_singleton_artifact {artifactId mediaType name : Text} {sizeBytes : Option Nat} :
    Available attachments [.artifact artifactId mediaType name sizeBytes] ↔
      ∃ resolved, resolveArtifact attachments artifactId mediaType name sizeBytes = .ok resolved := by
  constructor
  · exact fun h => h artifactId mediaType name sizeBytes (List.mem_singleton.mpr rfl)
  · rintro h _ _ _ _ hin
    cases List.mem_singleton.mp hin
    exact h

theorem holds_singleton_artifact {artifactId mediaType name shown : Text} {sizeBytes : Option Nat}
    {resolved : ResolvedAttachment} : Holds attachments [.artifact artifactId mediaType name sizeBytes] shown resolved ↔
      shown = name ∧ resolveArtifact attachments artifactId mediaType name sizeBytes = .ok resolved := by
  simp only [Holds, List.mem_singleton, ContentPart.artifact.injEq]
  grind

/-- One of some files is an image. -/
def HasImage (attachments : Text → Option ResolvedAttachment) (parts : List ContentPart) : Prop :=
  ∃ name resolved, Holds attachments parts name resolved ∧ resolved.kind = .image

theorem hasImage_cons {parts : List ContentPart} :
    HasImage attachments (part :: parts) ↔ HasImage attachments [part] ∨ HasImage attachments parts := by
  constructor
  · rintro ⟨name, resolved, h, himage⟩
    exact (holds_cons.mp h).imp (fun h => ⟨name, resolved, h, himage⟩) fun h => ⟨name, resolved, h, himage⟩
  · rintro (⟨name, resolved, h, himage⟩ | ⟨name, resolved, h, himage⟩)
    · exact ⟨name, resolved, holds_cons.mpr (.inl h), himage⟩
    · exact ⟨name, resolved, holds_cons.mpr (.inr h), himage⟩

/-- A part is projected where its artifact is there. -/
theorem projectPart_ok_iff (input : HarnessInput) (projection : Projection) :
    (∃ next, projectPart attachments input projection part = .ok next) ↔ Available attachments [part] := by
  cases part with
  | artifact artifactId mediaType name sizeBytes =>
    simp only [projectPart, map_eq_ok, available_singleton_artifact]
    grind
  | _ => exact iff_of_true ⟨_, rfl⟩ (by simp [Available])

/-- There is an image where there was one or the part is one. -/
theorem projectPart_images {projection next : Projection} (h : projectPart attachments input projection part = .ok next) :
    next.images ≠ [] ↔ projection.images ≠ [] ∨ HasImage attachments [part] := by
  cases part with
  | artifact artifactId mediaType name sizeBytes =>
    obtain ⟨resolved, hresolved, rfl⟩ := map_eq_ok.mp h
    simp only [HasImage, holds_singleton_artifact, hresolved, Except.ok.injEq]
    split <;> simp_all
  | _ =>
    obtain rfl := Except.ok.inj h
    simp [HasImage, Holds]

theorem foldlM_projectPart_ok_iff (input : HarnessInput) (parts : List ContentPart) (projection : Projection) :
    (∃ last, parts.foldlM (projectPart attachments input) projection = .ok last) ↔ Available attachments parts := by
  induction parts generalizing projection with
  | nil => exact iff_of_true ⟨projection, rfl⟩ (by simp [Available])
  | cons part parts ih =>
    rw [available_cons, ← projectPart_ok_iff input projection]
    simp only [List.foldlM_cons, bind_eq_ok]
    constructor
    · rintro ⟨last, next, hnext, hlast⟩
      exact ⟨⟨next, hnext⟩, (ih next).mp ⟨last, hlast⟩⟩
    · rintro ⟨⟨next, hnext⟩, hrest⟩
      obtain ⟨last, hlast⟩ := (ih next).mpr hrest
      exact ⟨last, next, hnext, hlast⟩

theorem foldlM_projectPart_images {parts : List ContentPart} {projection last : Projection}
    (h : parts.foldlM (projectPart attachments input) projection = .ok last) :
    last.images ≠ [] ↔ projection.images ≠ [] ∨ HasImage attachments parts := by
  induction parts generalizing projection with
  | nil =>
    obtain rfl := Except.ok.inj h
    simp [HasImage, Holds]
  | cons part parts ih =>
    rw [List.foldlM_cons] at h
    obtain ⟨next, hnext, hlast⟩ := bind_eq_ok.mp h
    rw [ih hlast, projectPart_images hnext, or_assoc, ← hasImage_cons]

/-! ## Sequences -/

/-- What an artifact shows: its name, and the path of a file that is no image. -/
def Unmarked (attachments : Text → Option ResolvedAttachment) (parts : List ContentPart) : Prop :=
  ∀ name resolved, Holds attachments parts name resolved →
    promptMarkers (headerText name) = [] ∧ (resolved.kind ≠ .image → promptMarkers resolved.path = [])

theorem sequencePart_artifact (artifactId mediaType name : Text) (sizeBytes : Option Nat) :
    sequencePart attachments input (.artifact artifactId mediaType name sizeBytes) =
      (resolveArtifact attachments artifactId mediaType name sizeBytes).map fun resolved =>
        if resolved.kind = .image then [.text (units "Image: " ++ headerText name), .image resolved]
        else [.text (units "Attached file: " ++ headerText name ++ units "\nReadable path: " ++ resolved.path)] := by
  cases hresolved : resolveArtifact attachments artifactId mediaType name sizeBytes with
  | error e => simp [sequencePart, resolvedInputParts, projectParts, projectPart, hresolved, Except.map]
  | ok resolved =>
    by_cases himage : resolved.kind = .image <;>
      simp [sequencePart, resolvedInputParts, projectParts, projectPart, Projection.text, hresolved, himage, Except.map,
        List.intercalate]

/-- Each text of some elements has no marker. -/
def TextsUnmarked (elements : List SequenceElement) : Prop := ∀ text, .text text ∈ elements → promptMarkers text = []

@[simp] theorem textsUnmarked_singleton : TextsUnmarked [.text text] ↔ promptMarkers text = [] := by
  simp [TextsUnmarked]

/-- What a part of an input that is not a person's adds has no marker but those an artifact shows. -/
theorem sequencePart_unmarked {elements : List SequenceElement} (hauthor : input.author.isHuman = false)
    (h : sequencePart attachments input part = .ok elements) :
    TextsUnmarked elements ↔ Unmarked attachments [part] := by
  have hother : ∀ text, promptMarkers text = [] → (∀ artifactId mediaType name sizeBytes,
      part ≠ .artifact artifactId mediaType name sizeBytes) → (TextsUnmarked [.text text] ↔ Unmarked attachments [part]) := by
    intro text htext hpart
    refine iff_of_true (textsUnmarked_singleton.mpr htext) ?_
    rintro name resolved ⟨artifactId, mediaType, sizeBytes, hin, -⟩
    exact (hpart _ _ _ _ (List.mem_singleton.mp hin).symm).elim
  cases part with
  | text text =>
    obtain rfl := Except.ok.inj h
    rw [hauthor, if_neg Bool.false_ne_true]
    exact hother _ (promptMarkers_escape text) nofun
  | browserPage sessionId tabId title url =>
    obtain rfl := Except.ok.inj h
    exact hother _ (promptMarkers_escape _) nofun
  | computerApp machineId name displayName bundleId teamId =>
    obtain rfl := Except.ok.inj h
    exact hother _ (promptMarkers_escape _) nofun
  | phone machineId display name =>
    obtain rfl := Except.ok.inj h
    exact hother _ (promptMarkers_escape _) nofun
  | artifact artifactId mediaType name sizeBytes =>
    rw [sequencePart_artifact] at h
    obtain ⟨resolved, hresolved, rfl⟩ := map_eq_ok.mp h
    have hfile : units "\nReadable path: " = 0xa :: units "Readable path: " := by simp [units]
    have hpath : promptMarkers (units "Attached file: " ++ headerText name ++ units "\nReadable path: " ++ resolved.path) =
        promptMarkers (headerText name) ++ promptMarkers resolved.path := by
      rw [hfile, List.append_assoc, List.append_assoc, List.cons_append, promptMarkers_append_right (notMem_units (by decide) rfl),
        promptMarkers_append_line, promptMarkers_append_right (x := units "Readable path: ") (notMem_units (by decide) rfl)]
    have hname : promptMarkers (units "Image: " ++ headerText name) = promptMarkers (headerText name) :=
      promptMarkers_append_right (notMem_units (by decide) rfl)
    simp only [Unmarked, holds_singleton_artifact, hresolved, Except.ok.injEq]
    split
    · rename_i himage
      simp [TextsUnmarked, hname, himage]
    · rename_i himage
      rw [textsUnmarked_singleton, hpath, List.append_eq_nil_iff]
      constructor
      · rintro ⟨hshown, hread⟩ _ _ ⟨rfl, rfl⟩
        exact ⟨hshown, fun _ => hread⟩
      · intro hall
        have hshown := hall name resolved ⟨rfl, rfl⟩
        exact ⟨hshown.1, hshown.2 himage⟩

/-- The elements of all parts have no marker but those the artifacts show. -/
theorem elements_unmarked {parts : List ContentPart} {elements : List (List SequenceElement)}
    (hauthor : input.author.isHuman = false)
    (h : List.Forall₂ (fun part elements => sequencePart attachments input part = .ok elements) parts elements) :
    TextsUnmarked elements.flatten ↔ Unmarked attachments parts := by
  induction h with
  | nil => simp [TextsUnmarked, Unmarked, Holds]
  | cons hpart _ ih =>
    rename_i part first parts rest _
    have hfirst := sequencePart_unmarked hauthor hpart
    constructor
    · intro hall name resolved hholds
      rcases holds_cons.mp hholds with hholds | hholds
      · exact hfirst.mp (fun text htext => hall text (List.mem_append_left _ htext)) name resolved hholds
      · exact ih.mp (fun text htext => hall text (List.mem_append_right _ htext)) name resolved hholds
    · intro hall text htext
      rcases List.mem_append.mp htext with htext | htext
      · exact hfirst.mpr (fun name resolved hholds => hall name resolved (holds_cons.mpr (.inl hholds))) text htext
      · exact ih.mpr (fun name resolved hholds => hall name resolved (holds_cons.mpr (.inr hholds))) text htext

theorem sequencePart_ok (h : Available attachments [part]) :
    ∃ elements, sequencePart attachments input part = .ok elements := by
  cases part with
  | artifact artifactId mediaType name sizeBytes =>
    obtain ⟨resolved, hresolved⟩ := available_singleton_artifact.mp h
    exact ⟨_, (sequencePart_artifact ..).trans (map_eq_ok.mpr ⟨resolved, hresolved, rfl⟩)⟩
  | _ => exact ⟨_, rfl⟩

/-- A sequence is the header with the body, or without it before the elements of each part. -/
theorem resolvedInputSequence_eq_ok {sequence : List SequenceElement} :
    resolvedInputSequence attachments input = .ok sequence ↔ ∃ projection,
      projectParts attachments input = .ok projection ∧
      ((projection.images = [] ∧ sequence = [.text (harnessInputHeader input projection.text)]) ∨
        (projection.images ≠ [] ∧ ∃ elements,
          List.Forall₂ (fun part elements => sequencePart attachments input part = .ok elements) input.content elements ∧
            sequence = .text (harnessInputHeader input []) :: elements.flatten)) := by
  unfold resolvedInputSequence
  rw [bind_eq_ok]
  constructor
  · rintro ⟨parts, hparts, h⟩
    obtain ⟨projection, hprojection, rfl⟩ := map_eq_ok.mp hparts
    refine ⟨projection, hprojection, ?_⟩
    split at h
    · rename_i hempty
      exact .inl ⟨List.isEmpty_iff.mp hempty, (Except.ok.inj h).symm⟩
    · rename_i hempty
      obtain ⟨elements, helements, h⟩ := bind_eq_ok.mp h
      exact .inr ⟨fun hnil => hempty (List.isEmpty_iff.mpr hnil), elements, mapM_eq_ok.mp helements, (Except.ok.inj h).symm⟩
  · rintro ⟨projection, hprojection, hcases⟩
    refine ⟨_, map_eq_ok.mpr ⟨projection, hprojection, rfl⟩, ?_⟩
    rcases hcases with ⟨hempty, rfl⟩ | ⟨hempty, elements, helements, rfl⟩
    · rw [if_pos (List.isEmpty_iff.mpr hempty)]
      rfl
    · rw [if_neg fun h => hempty (List.isEmpty_iff.mp h)]
      exact bind_eq_ok.mpr ⟨elements, mapM_eq_ok.mpr helements, rfl⟩

/-! ## Inputs -/

/-- A header opens the envelope, once. -/
def OpensOnce (header : Text) : Prop := units "[Opensteer input]" <+: header ∧ promptMarkers header = [inputMarker]

/-- What is told of an input has no marker but the one that its header starts with. -/
def OnlyOpens (attachments : Text → Option ResolvedAttachment) (input : HarnessInput) : Prop :=
  (∀ body, OpensOnce (harnessInputHeader input body)) ∧
    ∀ sequence, resolvedInputSequence attachments input = .ok sequence →
      ∃ header rest, sequence = .text header :: rest ∧ OpensOnce header ∧ TextsUnmarked rest

/-- The name that an author's label shows has no marker, nor has its connection. -/
def PlainAuthor (author : MessageAuthor) : Prop :=
  promptMarkers (headerText author.name) = [] ∧ promptMarkers author.shownConnection = []

theorem label_unmarked_iff (author : MessageAuthor) :
    promptMarkers (harnessInputAuthorLabel author) = [] ↔ PlainAuthor author := by
  rw [promptMarkers_label, List.append_eq_nil_iff, PlainAuthor]

theorem opensOnce_iff (hauthor : input.author.isHuman = false) (body : Text) :
    OpensOnce (harnessInputHeader input body) ↔ PlainAuthor input.author := by
  rw [OpensOnce, and_iff_right (prefix_header input body), promptMarkers_header_of_not_human hauthor,
    ← label_unmarked_iff, List.cons.injEq, and_iff_right rfl]

/-- What artifacts show in a sequence with images has no marker. -/
def PlainArtifacts (attachments : Text → Option ResolvedAttachment) (input : HarnessInput) : Prop :=
  Available attachments input.content → HasImage attachments input.content → Unmarked attachments input.content

/-- The envelope of an input that is not a person's has no other marker where its author, and in a
sequence with images its artifacts, show none. -/
theorem onlyOpens_iff (hauthor : input.author.isHuman = false) :
    OnlyOpens attachments input ↔ PlainAuthor input.author ∧ PlainArtifacts attachments input := by
  constructor
  · rintro ⟨hheader, hsequence⟩
    refine ⟨(opensOnce_iff hauthor []).mp (hheader []), fun havailable himage => ?_⟩
    obtain ⟨projection, hprojection⟩ := (foldlM_projectPart_ok_iff input input.content ⟨[], []⟩).mpr havailable
    have himages : projection.images ≠ [] := (foldlM_projectPart_images hprojection).mpr (.inr himage)
    obtain ⟨elements, helements⟩ : ∃ elements, input.content.mapM (sequencePart attachments input) = .ok elements :=
      exists_mapM_eq_ok fun part hpart => sequencePart_ok fun artifactId mediaType name sizeBytes hin =>
        havailable artifactId mediaType name sizeBytes (List.mem_singleton.mp hin ▸ hpart)
    have hforall := mapM_eq_ok.mp helements
    obtain ⟨header, rest, heq, -, hrest⟩ := hsequence _
      (resolvedInputSequence_eq_ok.mpr ⟨projection, hprojection, .inr ⟨himages, elements, hforall, rfl⟩⟩)
    rw [← (List.cons.inj heq).2] at hrest
    exact (elements_unmarked hauthor hforall).mp hrest
  · rintro ⟨hplain, hartifacts⟩
    have hheader := fun body => (opensOnce_iff hauthor body).mpr hplain
    refine ⟨hheader, fun sequence hsequence => ?_⟩
    obtain ⟨projection, hprojection, ⟨-, rfl⟩ | ⟨himages, elements, hforall, rfl⟩⟩ :=
      resolvedInputSequence_eq_ok.mp hsequence
    · exact ⟨_, [], rfl, hheader _, fun _ h => (nomatch h)⟩
    · refine ⟨_, _, rfl, hheader _, (elements_unmarked hauthor hforall).mpr (hartifacts ?_ ?_)⟩
      · exact (foldlM_projectPart_ok_iff input input.content _).mp ⟨projection, hprojection⟩
      · exact ((foldlM_projectPart_images hprojection).mp himages).resolve_left (by simp)

/-! ## Reports -/

/-- A mark before each of some lists is all there is where they are empty. -/
theorem flatMap_cons_eq_replicate {α β : Type} {f : α → List β} {mark : β} {xs : List α} :
    (xs.flatMap fun x => mark :: f x) = List.replicate xs.length mark ↔ ∀ x ∈ xs, f x = [] := by
  constructor
  · intro h
    have hlength : ∀ ys : List α, (ys.flatMap fun x => mark :: f x).length = ys.length + (ys.flatMap f).length := by
      intro ys
      induction ys with
      | nil => rfl
      | cons y ys ih =>
        simp only [List.flatMap_cons, List.length_append, List.length_cons, ih]
        omega
    have hsum := congrArg List.length h
    rw [hlength, List.length_replicate, Nat.add_eq_left, List.length_eq_zero_iff, List.flatMap_eq_nil_iff] at hsum
    exact hsum
  · intro h
    induction xs with
    | nil => rfl
    | cons x xs ih =>
      obtain ⟨hx, hxs⟩ := List.forall_mem_cons.mp h
      rw [List.flatMap_cons, hx, ih hxs]
      rfl

theorem promptMarkers_reportText (input : HarnessInput) : promptMarkers (reportText renderBody input) =
    units "Opensteer report" :: promptMarkers (harnessInputAuthorLabel input.author) := by
  have hown : promptMarkers (units "[Opensteer report]") = [units "Opensteer report"] := by decide
  have hid : promptMarkers (units "Report-ID: " ++ input.messageId.text) = [] := by
    rw [promptMarkers_append_right (notMem_units (by decide) rfl), promptMarkers_token]
  have hcreated : promptMarkers (units "Created: " ++ input.createdAt.text) = [] := by
    rw [promptMarkers_append_right (notMem_units (by decide) rfl), promptMarkers_token]
  have hauthor : promptMarkers (units "Author: " ++ harnessInputAuthorLabel input.author) =
      promptMarkers (harnessInputAuthorLabel input.author) := promptMarkers_append_right (notMem_units (by decide) rfl)
  rw [reportText, promptMarkers_lines]
  simp [hown, hid, hcreated, hauthor, Markers.markers_nil]

theorem notMem_decimal (n : Nat) : 0x5b ∉ decimal n := by
  unfold decimal
  split
  · exact notMem_units (by decide) rfl
  · rename_i hn
    intro hin
    obtain ⟨digit, hdigit, hunit⟩ := List.mem_map.mp (List.mem_reverse.mp hin)
    have hlt := Nat.digits_lt_base (by omega) hdigit
    have := congrArg UInt16.toNat hunit
    rw [Decimal.toNat_ofDigit hlt] at this
    simp at this
    omega

theorem promptMarkers_reportsHeading (reports : HarnessRunReports) :
    promptMarkers (reportsHeading reports) = [units "Opensteer report context"] := by
  have hown : promptMarkers (units "[Opensteer report context]") = [units "Opensteer report context"] := by decide
  rw [reportsHeading, promptMarkers_lines, List.flatMap_append]
  refine (congrArg₂ (· ++ ·) ?_ (List.flatMap_eq_nil_iff.mpr fun line hline => ?_)).trans (List.append_nil _)
  · simp only [List.flatMap_cons, List.flatMap_nil]
    rw [hown, promptMarkers_concatenated (notMem_units (by decide) rfl) (notMem_units (by decide) rfl),
      promptMarkers_concatenated (notMem_units (by decide) rfl) (notMem_units (by decide) rfl)]
    rfl
  · split at hline
    · simp only [List.mem_cons, List.not_mem_nil, or_false] at hline
      rcases hline with rfl | rfl
      · rw [promptMarkers_append_right (notMem_decimal _)]
        exact promptMarkers_of_notMem (notMem_units (by decide) rfl)
      · split
        · exact promptMarkers_concatenated (notMem_units (by decide) rfl) (notMem_units (by decide) rfl)
        · rw [List.append_assoc, promptMarkers_append_right (notMem_units (by decide) rfl),
            promptMarkers_append_right (Token.plain _)]
          exact promptMarkers_concatenated (notMem_units (by decide) rfl) (notMem_units (by decide) rfl)
    · exact (List.not_mem_nil hline).elim

/-- What a turn's reports are told with. -/
def OnlyReports (reports : HarnessRunReports) (renderBody : HarnessInput → Text) : Prop :=
  ∀ prompt, harnessReportsPrompt reports renderBody = some prompt → promptMarkers prompt =
    [units "Opensteer report context"] ++ List.replicate reports.messages.length (units "Opensteer report") ++
      [units "End Opensteer report context"]

theorem onlyReports_iff : OnlyReports reports renderBody ↔ ∀ input ∈ reports.messages, PlainAuthor input.author := by
  have hend : promptMarkers (units "[End Opensteer report context]") = [units "End Opensteer report context"] := by
    decide
  have hmarkers : promptMarkers (List.intercalate (units "\n\n") ([reportsHeading reports] ++
      reports.messages.map (reportText renderBody) ++ [units "[End Opensteer report context]"])) =
      [units "Opensteer report context"] ++ (reports.messages.flatMap fun input =>
        units "Opensteer report" :: promptMarkers (harnessInputAuthorLabel input.author)) ++
          [units "End Opensteer report context"] := by
    rw [promptMarkers_paragraphs, List.flatMap_append, List.flatMap_append, List.flatMap_map]
    simp only [promptMarkers_reportText, List.flatMap_cons, List.flatMap_nil, List.append_nil, hend,
      promptMarkers_reportsHeading]
  unfold OnlyReports harnessReportsPrompt
  split
  · rename_i hnone
    refine iff_of_true (fun _ h => (nomatch h)) fun input hin => ?_
    rw [List.isEmpty_iff.mp hnone.1] at hin
    exact (List.not_mem_nil hin).elim
  · simp only [Option.some.injEq, forall_eq']
    rw [hmarkers, List.append_cancel_right_eq, List.append_cancel_left_eq, flatMap_cons_eq_replicate]
    exact forall₂_congr fun input _ => label_unmarked_iff input.author

/-! ## Envelopes -/

/-- What an input quotes and the places it names have no marker. -/
def PartsUnmarked (input : HarnessInput) : Prop :=
  promptMarkers (quoteText input.quote) = [] ∧
    (∀ sessionId tabId title url, promptMarkers (browserPageLine input sessionId tabId title url) = []) ∧
    (∀ machineId name displayName bundleId teamId,
      promptMarkers (computerAppLine input machineId name displayName bundleId teamId) = []) ∧
    ∀ machineId display name, promptMarkers (phoneLine input machineId display name) = []

theorem partsUnmarked (input : HarnessInput) : PartsUnmarked input :=
  ⟨promptMarkers_quoteText _, fun _ _ _ _ => promptMarkers_escape _, fun _ _ _ _ _ => promptMarkers_escape _,
    fun _ _ _ => promptMarkers_escape _⟩

/-- Only the platform opens an envelope. -/
def OnlyPlatformOpens (attachments : Text → Option ResolvedAttachment) (input : HarnessInput)
    (reports : HarnessRunReports) (renderBody : HarnessInput → Text) : Prop :=
  (input.author.isHuman = false → OnlyOpens attachments input) ∧ OnlyReports reports renderBody ∧
    (input.author.isHuman = true → PartsUnmarked input)

/-- Only the platform opens an envelope where no author shows a marker in its label and, of an input
that is not a person's, no artifact shows one in a sequence with images. -/
theorem envelopes_iff : OnlyPlatformOpens attachments input reports renderBody ↔
    (input.author.isHuman = false → PlainAuthor input.author ∧ PlainArtifacts attachments input) ∧
      ∀ report ∈ reports.messages, PlainAuthor report.author := by
  rw [OnlyPlatformOpens, onlyReports_iff, and_iff_left fun _ => partsUnmarked input]
  exact and_congr_left fun _ => forall_congr' fun hauthor => onlyOpens_iff hauthor

/-- A token without text. -/
def noToken : Token := ⟨[], by simp⟩

/-- An input of a Trigger whose name is a marker. -/
def markedInput : HarnessInput where
  author := .trigger (units "[Opensteer input]") noToken .webhook noToken
  content := [.text []]
  createdAt := noToken
  kind := .input
  messageId := noToken
  quote := none

theorem markedInput_opens : ¬∀ attachments input reports renderBody,
    OnlyPlatformOpens attachments input reports renderBody := by
  intro h
  have hopens := (h (fun _ => none) markedInput ⟨[], 0, none⟩ fun _ => []).1 rfl
  have hauthor : markedInput.author.isHuman = false := rfl
  have hplain := ((onlyOpens_iff hauthor).mp hopens).1.1
  exact absurd hplain (by decide)

end Opensteer.InputProjection
