import Opensteer.Editing.Bindings
import Opensteer.Framework.Machine

/-!
# The editing reducer

`packages/client/src/editing/reducer.ts`. Where a selection is in a text is a number of its UTF-16 units;
what a platform marks, and what is counted back from a selection, may lie outside of the text. How many
graphemes a text has (`countGraphemes`, of another package) is a parameter.

A reduction is threaded through the helpers of `reduceEditing` as they write to it (`EditingReduction`).
-/

namespace Opensteer.Editing

structure MarkedRange where
  start : Int
  stop : Int
deriving DecidableEq, Repr

structure EditingProxyState where
  value : Text
  selectionStart : Nat
  selectionEnd : Nat
  markedRange : Option MarkedRange := none
deriving DecidableEq, Repr

structure EditingClipboardPayloadItem where
  type : Text
  name : Option Text
  bytes : List UInt8
deriving DecidableEq, Repr

/-- Of the field in focus only whether there is one is read. -/
structure EditingContext where
  contextId : Text
  field : Bool
deriving DecidableEq, Repr

inductive EditingProxyEvent
  | keydown (key : EditingKeyState)
  | keyup (key : EditingKeyState)
  | compositionstart (proxy : EditingProxyState)
  | compositionupdate (data : Text) (proxy : EditingProxyState)
  | compositionend (data : Text) (proxy : EditingProxyState)
  | beforeinput (inputType : Text) (data : Option Text)
  | input (inputType : Text) (composing : Bool) (proxy : EditingProxyState)
  | selection (proxy : EditingProxyState)
  | paste (items : List EditingClipboardPayloadItem)
  | copy
  | cut
  | pointerdown
  | blur
  | context (context : Option EditingContext)
deriving DecidableEq, Repr

inductive KeyAction
  | down | up
deriving DecidableEq, Repr

structure EditingKeystroke where
  action : KeyAction
  key : Text
  code : Text
  modifiers : List EditingModifier
  location : Option (Fin 4) := none
  «repeat» : Option Bool := none
  text : Option Text := none
deriving DecidableEq, Repr

structure EditingComposition where
  contextId : Text
  text : Text
  selectionStart : Nat
  selectionEnd : Nat
  before : Option Text := none
  after : Option Text := none
deriving DecidableEq, Repr

structure EditingTextEdit where
  contextId : Text
  text : Text
  before : Text
  after : Text
deriving DecidableEq, Repr

inductive EditingOperation
  | key (keystroke : EditingKeystroke)
  | command (command : EditingCommand)
  | compose (composition : EditingComposition)
  | edit (edit : EditingTextEdit)
  | copy
  | cut
  | paste (items : List EditingClipboardPayloadItem)
deriving DecidableEq, Repr

inductive ClipboardAbility
  | full | text | none
deriving DecidableEq, Repr

structure EditingTargetAbilities where
  composition : Bool
  rangeEdits : Bool
  commands : Bool
  clipboard : ClipboardAbility
deriving DecidableEq, Repr

structure EditingProxyInstruction where
  preventDefault : Bool := false
  set : Option EditingProxyState := none
deriving DecidableEq, Repr

def editingTextMaxLength : Nat := 10000

def blank : EditingProxyState := ⟨[], 0, 0, none⟩

structure Composition where
  contextId : Option Text
  base : EditingProxyState
  caret : Nat
  text : Text
  nativeText : Text
  rawStart : Nat
  rawEnd : Nat
  echo : Option EditingProxyState
  before : Text
  after : Text
  start : Nat
  stop : Nat
  sent : Bool
  detached : Bool
deriving DecidableEq, Repr

/-- A context that a transaction can be sent to: `if (!transaction.contextId) return`. -/
def Composition.context (transaction : Composition) : Option Text := transaction.contextId.filter (· ≠ [])

/-- The edit that commits a transaction. -/
def Composition.editOf (transaction : Composition) (contextId text : Text) : EditingTextEdit where
  contextId := contextId
  text := text
  before := if transaction.sent then [] else transaction.before
  after := if transaction.sent then [] else transaction.after

inductive NativeKey
  | key (key : EditingKeyState)
  | choice
deriving DecidableEq, Repr

inductive CompositionTail
  | commit | discard
deriving DecidableEq, Repr

structure EditingState where
  platform : EditingViewerPlatform
  abilities : EditingTargetAbilities
  context : Option EditingContext
  proxy : EditingProxyState
  caret : Nat
  composition : Option Composition
  pendingEcho : Option EditingProxyState
  replacement : Option Text
  nativeKey : Option NativeKey
  compositionTail : Option CompositionTail
  suppressedInput : Option Text
  down : List EditingKeyState
  resetPending : Bool
deriving DecidableEq, Repr

inductive Refusal
  | commands | clipboard | rangeEdits | tooLarge
deriving DecidableEq, Repr

structure EditingReduction where
  state : EditingState
  operations : List EditingOperation := []
  instruction : EditingProxyInstruction := {}
  refusal : Option Refusal := none
deriving DecidableEq, Repr

def createEditingState (platform : EditingViewerPlatform) (abilities : EditingTargetAbilities) : EditingState where
  platform := platform
  abilities := abilities
  context := none
  proxy := blank
  caret := 0
  composition := none
  pendingEcho := none
  replacement := none
  nativeKey := none
  compositionTail := none
  suppressedInput := none
  down := []
  resetPending := false

/-- `key.code || key.key`. -/
def identity (key code : Text) : Text := if code = [] then key else code

def EditingKeyState.identity (key : EditingKeyState) : Text := Editing.identity key.key key.code

def EditingKeystroke.identity (keystroke : EditingKeystroke) : Text := Editing.identity keystroke.key keystroke.code

/-! ## Texts and ranges -/

/-- No unit of a pair of surrogates is a control, so the units are looked at and not the characters. -/
def printable (countGraphemes : Text → Nat) (key : Text) : Bool :=
  0 < key.length && key.length ≤ 64 && countGraphemes key = 1 && key.all fun unit => 0x20 ≤ unit && unit ≠ 0x7f

def insert (proxy : EditingProxyState) (text : Text) : EditingProxyState :=
  let value := proxy.value.slice 0 proxy.selectionStart ++ text ++ proxy.value.sliceFrom proxy.selectionEnd
  let selectionStart := proxy.selectionStart + text.length
  ⟨value, selectionStart, selectionStart, none⟩

structure TextRange where
  start : Nat
  stop : Nat
  text : Text
deriving DecidableEq, Repr

/-- Where the loop that counts `start` up ends. -/
def commonStart : Text → Text → Nat
  | x :: before, y :: after => if x = y then commonStart before after + 1 else 0
  | _, _ => 0

def isLowSurrogate (unit : UInt16) : Bool := 0xdc00 ≤ unit && unit ≤ 0xdfff

/-- Where a difference starts. A pair of surrogates is not cut. -/
def differenceStart (before after : Text) : Nat :=
  let start := commonStart before after
  if 0 < start ∧ start < before.length ∧ before[start]?.any isLowSurrogate then start - 1 else start

def difference (before after : Text) : TextRange :=
  let start := differenceStart before after
  let same := commonStart (before.drop start).reverse (after.drop start).reverse
  let stop := before.length - same
  let nextEnd := after.length - same
  if stop < before.length ∧ before[stop]?.any isLowSurrogate then
    ⟨start, stop + 1, after.slice start (nextEnd + 1 : Nat)⟩
  else ⟨start, stop, after.slice start nextEnd⟩

def snapshotCompositionRange (base : Text) (proxy : EditingProxyState) (start stop : Int) : Option TextRange :=
  let oldEnd := stop + base.length - proxy.value.length
  if start < 0 ∨ stop < start ∨ proxy.value.length < stop ∨ oldEnd < start ∨ base.length < oldEnd ∨
      base.slice 0 start ≠ proxy.value.slice 0 start ∨ base.sliceFrom oldEnd ≠ proxy.value.sliceFrom stop then none
  else some ⟨start.toNat, oldEnd.toNat, proxy.value.slice start stop⟩

/-- What `textEdit` answers. -/
inductive TextEdit
  | null
  | unverified
  | edit (edit : EditingTextEdit)
deriving DecidableEq, Repr

/-- The first of the starts that `replacement` may have been put at. -/
def replacedRange (old next : EditingProxyState) (diff : TextRange) (replacement : Text) : Option TextRange :=
  [(next.selectionEnd - replacement.length : Int), next.value.lastIndexOf replacement next.selectionEnd,
    diff.start].findSome? fun start : Int =>
      (snapshotCompositionRange old.value next start (start + replacement.length)).filter fun candidate =>
        candidate.text = replacement ∧
          (old.value = next.value ∨ candidate.start ≤ diff.start ∧ diff.stop ≤ candidate.stop)

/-- The edit that puts the text of a range around the caret. -/
def editOf (old : EditingProxyState) (caret : Nat) (contextId : Text) (diff : TextRange) : EditingTextEdit :=
  let start := min diff.start caret
  let stop := max diff.stop caret
  { contextId := contextId
    text := old.value.slice start diff.start ++ diff.text ++ old.value.slice diff.stop stop
    before := old.value.slice start caret
    after := old.value.slice caret stop }

def textEdit (old next : EditingProxyState) (caret : Nat) (contextId : Text) (replacement : Option Text) : TextEdit :=
  let diff := difference old.value next.value
  match replacement with
  | some replacement =>
    match replacedRange old next diff replacement with
    | none => .unverified
    | some range => .edit (editOf old caret contextId range)
  | none => if old.value = next.value then .null else .edit (editOf old caret contextId diff)

def compositionText (transaction : Composition) (rawStart rawEnd : Nat) (nativeText : Text) : Composition :=
  let start := min rawStart transaction.caret
  let stop := max rawEnd transaction.caret
  { transaction with
    rawStart := rawStart
    rawEnd := rawEnd
    nativeText := nativeText
    start := start
    stop := stop
    text := transaction.base.value.slice start rawStart ++ nativeText ++ transaction.base.value.slice rawEnd stop
    before := transaction.base.value.slice start transaction.caret
    after := transaction.base.value.slice transaction.caret stop }

/-- The range that is marked, if it is that of the text to commit. -/
def markedText (transaction : Composition) (proxy : EditingProxyState) (commitText : Option Text) : Option TextRange :=
  match proxy.markedRange with
  | none => none
  | some marked =>
    if commitText.all fun text => proxy.value.slice marked.start marked.stop = text then
      snapshotCompositionRange transaction.base.value proxy marked.start marked.stop
    else none

/-- The range of the native text, at the first of the starts where the selection lies in it. -/
def nativeRange (transaction : Composition) (proxy : EditingProxyState) (nativeText : Text) : Option TextRange :=
  if nativeText = [] then none
  else [(proxy.selectionEnd - nativeText.length : Int), transaction.rawStart,
    transaction.base.selectionStart].findSome? fun start : Int =>
      let stop := start + nativeText.length
      if proxy.selectionStart < start ∨ stop < proxy.selectionEnd ∨ proxy.value.slice start stop ≠ nativeText then none
      else snapshotCompositionRange transaction.base.value proxy start stop

def composingValue (transaction : Composition) (proxy : EditingProxyState) (commitText : Option Text) : Composition :=
  match markedText transaction proxy commitText with
  | some range => compositionText transaction range.start range.stop range.text
  | none =>
    let nativeText := commitText.getD transaction.nativeText
    match nativeRange transaction proxy nativeText with
    | some range => compositionText transaction range.start range.stop nativeText
    | none =>
      match commitText with
      | some text => compositionText transaction transaction.rawStart transaction.rawEnd text
      | none =>
        let diff := difference transaction.base.value proxy.value
        let start := min transaction.base.selectionStart diff.start
        let stop := max transaction.base.selectionEnd diff.stop
        compositionText transaction start stop
          (proxy.value.slice start (proxy.value.length - (transaction.base.value.length - stop : Int)))

/-! ## What a reduction is built with -/

/-- The texts of an edit or of a composition. -/
def EditingOperation.texts : EditingOperation → List Text
  | .edit e => [e.text, e.before, e.after]
  | .compose composition => [composition.text, composition.before.getD [], composition.after.getD []]
  | _ => []

/-- `emit` without its push: whether the target cannot apply an operation, and what is said of it. -/
def refuses (abilities : EditingTargetAbilities) (operation : EditingOperation) : Option (Option Refusal) :=
  match operation with
  | .compose _ =>
    if !abilities.composition then some none
    else if operation.texts.any (editingTextMaxLength < ·.length) then some (some .tooLarge) else none
  | .command _ => if !abilities.commands then some (some .commands) else none
  | .copy | .cut | .paste _ => if abilities.clipboard = .none then some (some .clipboard) else none
  | .edit _ => if operation.texts.any (editingTextMaxLength < ·.length) then some (some .tooLarge) else none
  | .key _ => none

namespace EditingReduction

def setState (r : EditingReduction) (state : EditingState) : EditingReduction := { r with state }

def prevent (r : EditingReduction) : EditingReduction :=
  { r with instruction := { r.instruction with preventDefault := true } }

def refuse (r : EditingReduction) (refusal : Refusal) : EditingReduction := { r with refusal := some refusal }

def emits (r : EditingReduction) (operation : EditingOperation) : Bool :=
  (refuses r.state.abilities operation).isNone

def emit (r : EditingReduction) (operation : EditingOperation) : EditingReduction :=
  match refuses r.state.abilities operation with
  | none => { r with operations := r.operations ++ [operation] }
  | some none => r
  | some (some refusal) => r.refuse refusal

def reset (r : EditingReduction) : EditingReduction :=
  let state := { r.state with pendingEcho := none, replacement := none, nativeKey := none }
  if state.composition.isSome then r.setState { state with resetPending := true }
  else
    { r with
      state := { state with proxy := blank, caret := 0, resetPending := false }
      instruction := { r.instruction with set := some blank } }

/-- `commit` of no text. -/
def cancel (r : EditingReduction) (transaction : Composition) : EditingReduction :=
  match transaction.context with
  | none => r
  | some contextId =>
    if transaction.sent then r.emit (.compose ⟨contextId, [], 0, 0, none, none⟩) else r

/-- `commit` of a text. -/
def commitEdit (r : EditingReduction) (transaction : Composition) (edit : EditingTextEdit) : EditingReduction :=
  if !r.state.abilities.rangeEdits && (edit.before ≠ [] || edit.after ≠ []) then r.refuse .rangeEdits
  else if !r.emits (.edit edit) && transaction.sent then (r.emit (.edit edit)).cancel transaction
  else r.emit (.edit edit)

def commit (r : EditingReduction) (transaction : Composition) (text : Text) : EditingReduction :=
  match transaction.context with
  | none => r
  | some contextId =>
    if text = [] then r.cancel transaction
    else r.commitEdit transaction (transaction.editOf contextId text)

def interrupt (r : EditingReduction) : EditingReduction :=
  match r.state.composition with
  | none => r.reset
  | some transaction =>
    if transaction.detached then r.reset
    else
      let r := r.commit transaction transaction.text
      (r.setState { r.state with composition := some { transaction with detached := true } }).reset

end EditingReduction

def isReturn (inputType : Text) : Bool := inputType = units "insertLineBreak" || inputType = units "insertParagraph"

def softReturnKey (action : KeyAction) : EditingKeystroke := ⟨action, units "Enter", units "Enter", [], none, none, none⟩

/-- What a key held down is sent up as on blur. -/
def releasedKey (key : EditingKeyState) : EditingKeystroke :=
  ⟨.up, key.key, key.code, [], some key.location, some false, none⟩

/-- A key as it is sent. -/
def keystroke (action : KeyAction) (key : EditingKeyState) (platform : EditingViewerPlatform) (text : Option Text) :
    EditingKeystroke :=
  ⟨action, key.key, key.code, editingModifiers key platform, some key.location, some key.repeat, text⟩

/-- The keys held down, and one more. -/
def holding (down : List EditingKeyState) (key : EditingKeyState) : List EditingKeyState :=
  if down.any fun held => held.identity = key.identity then down else down ++ [key]

/-- A soft Return is sent. -/
def EditingState.sendsReturn (state : EditingState) (before : Bool) : Bool :=
  (before || state.suppressedInput ≠ some (units "return")) && !state.down.any fun key => key.key = units "Enter"

namespace EditingReduction

def softReturn (r : EditingReduction) (before : Bool) : EditingReduction :=
  let r := if r.state.sendsReturn before then (r.emit (.key (softReturnKey .down))).emit (.key (softReturnKey .up)) else r
  let r := r.reset
  r.setState { r.state with suppressedInput := some (units "return") }

def printableKey (r : EditingReduction) (key : EditingKeyState) : EditingReduction :=
  let expected := insert r.state.proxy key.key
  let r := r.emit (.key (keystroke .down key r.state.platform (some key.key)))
  r.setState { r.state with
    pendingEcho := some expected
    caret := expected.selectionEnd
    down := holding r.state.down key }

def nativeKeyInput (r : EditingReduction) (inputType : Text) (data : Option Text) : EditingReduction :=
  let nativeKey := r.state.nativeKey
  let r := r.setState { r.state with nativeKey := none }
  match nativeKey with
  | some (.key key) => if inputType = units "insertText" ∧ data = some key.key then r.printableKey key else r
  | _ => r

def moves (r : EditingReduction) (command : EditingCommand) : Nat → EditingReduction
  | 0 => r
  | n + 1 => (r.emit (.command command)).moves command n

def move (countGraphemes : Text → Nat) (r : EditingReduction) (start stop : Nat) (text : Text) : EditingReduction :=
  let distance := countGraphemes (text.slice (min start stop : Nat) (max start stop : Nat))
  r.moves (if stop < start then .moveBackward else .moveForward) distance

/-- The composition that a transaction is shown as. -/
def composeOf (transaction : Composition) (contextId : Text) (proxy : EditingProxyState) : EditingComposition :=
  let selectionStart := min transaction.text.length (proxy.selectionStart - transaction.start)
  let selectionEnd := max selectionStart (min transaction.text.length (proxy.selectionEnd - transaction.start))
  { contextId := contextId
    text := transaction.text
    selectionStart := selectionStart
    selectionEnd := selectionEnd
    before := if transaction.sent then none else some transaction.before
    after := if transaction.sent then none else some transaction.after }

def publishComposition (r : EditingReduction) (transaction : Composition) (proxy : EditingProxyState) :
    EditingReduction × Composition :=
  match transaction.context with
  | none => (r, transaction)
  | some contextId =>
    if !r.state.abilities.composition then (r, transaction)
    else if !r.state.abilities.rangeEdits && (transaction.before ≠ [] || transaction.after ≠ []) then
      (r.refuse .rangeEdits, { transaction with detached := true })
    else
      let operation := .compose (composeOf transaction contextId proxy)
      if r.emits operation then (r.emit operation, { transaction with sent := true })
      else
        let r := (r.emit operation).cancel transaction
        (r.setState { r.state with resetPending := true }, { transaction with detached := true })

/-- After a caret that the target cannot be moved to. -/
def missed (r : EditingReduction) (caret wanted : Nat) : EditingReduction :=
  if !r.state.abilities.commands && caret ≠ wanted then r.setState { r.state with resetPending := true } else r

/-! ## The events -/

def context (r : EditingReduction) (context : Option EditingContext) : EditingReduction :=
  let r :=
    if r.state.context.map (·.contextId) ≠ context.map (·.contextId) then
      let r := r.interrupt
      r.setState { r.state with compositionTail := none }
    else r
  r.setState { r.state with context }

def releaseKeys (r : EditingReduction) : List EditingKeyState → EditingReduction
  | [] => r
  | key :: keys => (r.emit (.key (releasedKey key))).releaseKeys keys

def blur (r : EditingReduction) : EditingReduction :=
  let r := r.interrupt
  let r := r.releaseKeys r.state.down
  r.setState { r.state with down := [] }

def compositionstart (r : EditingReduction) (proxy : EditingProxyState) : EditingReduction :=
  if r.state.composition.any (·.detached) then r
  else
    let state := r.state
    let base := state.pendingEcho.getD state.proxy
    -- A key that is sent already may be taken over before its native echo.
    let takeover := state.pendingEcho.filter fun _ => proxy.value = state.proxy.value
    let start := min base.value.length (if takeover.isSome then state.proxy.selectionStart else proxy.selectionStart)
    let stop := min base.value.length (match takeover with
      | some echo => echo.selectionEnd
      | none => proxy.selectionEnd)
    r.setState { state with
      pendingEcho := none
      replacement := none
      nativeKey := none
      compositionTail := none
      proxy := base
      composition := some {
        contextId := state.context.map (·.contextId)
        base := { base with selectionStart := start, selectionEnd := stop }
        caret := state.caret
        text := []
        nativeText := []
        rawStart := start
        rawEnd := stop
        echo := none
        before := []
        after := []
        start := start
        stop := stop
        sent := false
        detached := false } }

/-- An update of a composition whose preedit is marked. -/
def markedUpdate (r : EditingReduction) (previous : Composition) (proxy : EditingProxyState) (marked : MarkedRange) :
    EditingReduction :=
  match snapshotCompositionRange previous.base.value proxy marked.start marked.stop with
  | none =>
    let r := (r.refuse .rangeEdits).cancel previous
    r.setState { r.state with composition := some { previous with detached := true }, resetPending := true }
  | some range =>
    let transaction := compositionText previous range.start range.stop range.text
    let r := r.setState { r.state with proxy }
    let (r, transaction) := r.publishComposition transaction proxy
    let transaction := if transaction.sent then { transaction with echo := some proxy } else transaction
    r.setState { r.state with composition := some transaction }

def compositionupdate (r : EditingReduction) (data : Text) (proxy : EditingProxyState) : EditingReduction :=
  match r.state.composition with
  | none => r
  | some previous =>
    if previous.detached then r
    else match proxy.markedRange with
      | some marked => r.markedUpdate previous proxy marked
      | none =>
        let transaction := { compositionText previous previous.rawStart previous.rawEnd data with echo := none }
        r.setState { r.state with composition := some transaction }

/-- The value that a composition's text stands in. -/
def finalValue (final : Composition) (data : Text) : Text :=
  final.base.value.slice 0 final.rawStart ++ data ++ final.base.value.sliceFrom final.rawEnd

/-- The proxy at the end of a composition that commits a text. -/
def finalProxy (final : Composition) (data : Text) (proxy : EditingProxyState) : EditingProxyState :=
  if proxy.value = finalValue final data then proxy
  else ⟨finalValue final data, final.rawStart + data.length, final.rawStart + data.length, none⟩

/-- A composition that commits a text, and where the target's caret is then. -/
def commitFinal (countGraphemes : Text → Nat) (r : EditingReduction) (final : Composition) (data : Text)
    (proxy : EditingProxyState) : EditingReduction × Nat :=
  let appliedCaret := final.start + final.text.length
  let r := r.commit final final.text
  if proxy.selectionStart = proxy.selectionEnd then
    ((r.move countGraphemes appliedCaret proxy.selectionEnd (finalValue final data)).missed appliedCaret
      proxy.selectionEnd, proxy.selectionEnd)
  else (r, appliedCaret)

/-- A state in which a composition is over. -/
def endState (state : EditingState) (transaction : Composition) (proxy : EditingProxyState) (remoteCaret : Nat) :
    EditingState :=
  { state with
    composition := none
    pendingEcho := none
    compositionTail := some (if transaction.detached then .discard else .commit)
    proxy := proxy
    caret := if proxy.selectionStart = proxy.selectionEnd then proxy.selectionEnd else remoteCaret }

def ended (r : EditingReduction) (transaction : Composition) (proxy : EditingProxyState) (remoteCaret : Nat) :
    EditingReduction :=
  let r := r.setState (endState r.state transaction proxy remoteCaret)
  if transaction.detached || r.state.resetPending || !r.state.abilities.rangeEdits then r.reset else r

def compositionend (countGraphemes : Text → Nat) (r : EditingReduction) (data : Text) (proxy : EditingProxyState) :
    EditingReduction :=
  match r.state.composition with
  | none => r
  | some transaction =>
    if transaction.detached then r.ended transaction proxy proxy.selectionEnd
    else if data = [] then (r.cancel transaction).ended transaction proxy proxy.selectionEnd
    else
      let final := composingValue transaction proxy (some data)
      let proxy := finalProxy final data proxy
      let (r, remoteCaret) := r.commitFinal countGraphemes final data proxy
      r.ended transaction proxy remoteCaret

/-- The key that native input is awaited for is up. -/
def chooseNative (r : EditingReduction) (key : EditingKeyState) : EditingReduction :=
  match r.state.nativeKey with
  | some (.key native) =>
    if native.identity = key.identity then r.setState { r.state with nativeKey := some .choice } else r
  | _ => r

def releaseKey (r : EditingReduction) (key : EditingKeyState) : EditingReduction :=
  if r.state.down.any fun held => held.identity = key.identity then
    let r := r.emit (.key (keystroke .up key r.state.platform none))
    r.setState { r.state with down := r.state.down.filter fun held => held.identity ≠ key.identity }
  else r

def keyup (r : EditingReduction) (key : EditingKeyState) : EditingReduction := (r.chooseNative key).releaseKey key

/-- A key that is not printable, or has a modifier. -/
def namedKey (r : EditingReduction) (key : EditingKeyState) : EditingReduction :=
  let r := r.prevent.reset
  let r := r.emit (.key (keystroke .down key r.state.platform none))
  r.setState { r.state with
    suppressedInput := if key.key = units "Enter" then some (units "return") else r.state.suppressedInput
    down := holding r.state.down key }

/-- `keydown` from where the chord is looked at. -/
def chord (r : EditingReduction) (key : EditingKeyState) (text : Bool) : EditingReduction :=
  match (resolveEditingBinding key r.state.platform).filter fun binding =>
      r.state.context.any (·.field) || (match binding with
        | .command _ => false
        | _ => true) with
  | some (.command command) => (r.reset.prevent).emit (.command command)
  | some _ => r
  | none =>
    if text then
      if key.repeat && r.state.platform = .mac then r.setState { r.state with nativeKey := some (.key key) }
      else r.printableKey key
    else r.namedKey key

/-- A mirror that is to be dropped before the next key. -/
def stale (state : EditingState) : Bool :=
  state.resetPending || (!state.abilities.rangeEdits && state.proxy.value ≠ []) ||
    editingTextMaxLength ≤ state.proxy.value.length

/-- A key that the platform keeps: of an input method, or of the Character Viewer. -/
def keeps (state : EditingState) (key : EditingKeyState) : Bool :=
  key.composing || state.composition.isSome || (["Dead", "Process", "Unidentified"].map units).contains key.key ||
    (state.platform = .mac && key.key = units " " && key.control && key.«meta» && !key.alt && !key.shift)

def dropStale (r : EditingReduction) : EditingReduction := if stale r.state then r.reset else r

/-- A key while native input is awaited for one. -/
def awaitNative (r : EditingReduction) (key : EditingKeyState) (text : Bool) : EditingReduction :=
  if text then r.setState { r.state with nativeKey := some (.key key) }
  else if key.key = units "Escape" then r.setState { r.state with nativeKey := none }
  else r

def keydown (countGraphemes : Text → Nat) (r : EditingReduction) (key : EditingKeyState) : EditingReduction :=
  if keeps r.state key then r
  else
    let r := r.setState { r.state with compositionTail := none, suppressedInput := none, replacement := none }
    let r := r.dropStale
    if (["Shift", "Control", "Meta", "Alt", "AltGraph", "CapsLock"].map units).contains key.key then r
    else
      let text := !key.«meta» && (!key.control || key.altGraph) && printable countGraphemes key.key
      if r.state.nativeKey.isSome then r.awaitNative key text else r.chord key text

/-- A platform sends an input after a composition that is already committed. -/
def isCompositionInput (inputType : Text) : Bool :=
  (["insertFromComposition", "insertCompositionText"].map units).contains inputType

def keepTail (r : EditingReduction) (inputType : Text) : EditingReduction :=
  if isCompositionInput inputType then r else r.setState { r.state with compositionTail := none }

/-- A deletion that is sent as a command. -/
def deletes (r : EditingReduction) (inputType : Text) : EditingReduction :=
  match deletionEditingCommand inputType with
  | none => r
  | some deletion =>
    if r.state.proxy.value = [] || !r.state.abilities.rangeEdits then
      let r := r.prevent.emit (.command deletion)
      (r.setState { r.state with suppressedInput := some inputType }).reset
    else r

def beforeinput (r : EditingReduction) (inputType : Text) (data : Option Text) : EditingReduction :=
  let r := r.setState { r.state with
    replacement :=
      if r.state.composition.isNone && inputType = units "insertReplacementText" then data else none }
  if r.state.composition.isSome then r
  else
    let r := r.nativeKeyInput inputType data
    if isReturn inputType then r.prevent.softReturn true
    else (r.keepTail inputType).deletes inputType

/-- The key that a native input confirms. -/
def confirmKey (r : EditingReduction) (inputType : Text) (composing : Bool) (proxy : EditingProxyState) :
    EditingReduction :=
  match r.state.nativeKey with
  | some (.key native) =>
    if r.state.composition.isNone && !composing then
      let expected := insert r.state.proxy native.key
      let confirmed := expected.value = proxy.value ∧ expected.selectionStart = proxy.selectionStart ∧
        expected.selectionEnd = proxy.selectionEnd
      r.nativeKeyInput (if confirmed then inputType else []) (some native.key)
    else r.setState { r.state with nativeKey := none }
  | _ => r.setState { r.state with nativeKey := none }

/-- A proxy is what an update has sent already. -/
def isEcho (previous : Composition) (proxy : EditingProxyState) : Bool :=
  previous.echo.any fun echo => echo.value = proxy.value && echo.selectionStart = proxy.selectionStart &&
    echo.selectionEnd = proxy.selectionEnd

/-- An input during a composition. -/
def composingInput (r : EditingReduction) (previous : Composition) (proxy : EditingProxyState) : EditingReduction :=
  if previous.detached then r
  else
    let transaction := { composingValue previous proxy none with echo := none }
    let r := r.setState { r.state with proxy }
    let (r, transaction) :=
      if isEcho previous proxy then (r, transaction) else r.publishComposition transaction proxy
    r.setState { r.state with composition := some transaction }

/-- The edit of an input is sent, with the caret, or is refused. -/
def sendEdit (countGraphemes : Text → Nat) (r : EditingReduction) (edit : EditingTextEdit) (caret : Nat)
    (proxy : EditingProxyState) : EditingReduction × Option Nat :=
  if r.state.abilities.rangeEdits || (edit.before = [] && edit.after = []) then
    if !r.emits (.edit edit) then ((r.emit (.edit edit)).reset, none)
    else
      let r := r.emit (.edit edit)
      let appliedCaret := caret - edit.before.length + edit.text.length
      if proxy.selectionStart = proxy.selectionEnd then
        ((r.move countGraphemes appliedCaret proxy.selectionEnd proxy.value).missed appliedCaret proxy.selectionEnd,
          some proxy.selectionEnd)
      else (r, some appliedCaret)
  else
    let r := r.refuse .rangeEdits
    (r.setState { r.state with resetPending := true }, some proxy.selectionEnd)

/-- The mirror is the proxy after an input. -/
def mirrored (r : EditingReduction) (proxy : EditingProxyState) (remoteCaret : Nat) : EditingReduction :=
  let r := r.setState { r.state with proxy := proxy, caret := remoteCaret }
  if !r.state.abilities.rangeEdits || r.state.resetPending then r.reset else r

/-- An input that edits. -/
def edited (countGraphemes : Text → Nat) (r : EditingReduction) (edit : EditingTextEdit) (caret : Nat)
    (proxy : EditingProxyState) : EditingReduction :=
  let (r, remoteCaret) := r.sendEdit countGraphemes edit caret proxy
  remoteCaret.elim r (r.mirrored proxy)

/-- An input that only moves the caret, or nothing. -/
def unedited (countGraphemes : Text → Nat) (r : EditingReduction) (echoed : Bool) (proxy : EditingProxyState) :
    EditingReduction :=
  if !echoed && proxy.value = r.state.proxy.value && proxy.selectionStart = proxy.selectionEnd then
    ((r.move countGraphemes r.state.caret proxy.selectionEnd proxy.value).missed r.state.caret
      proxy.selectionEnd).mirrored proxy proxy.selectionEnd
  else r.mirrored proxy proxy.selectionEnd

/-- What an input that is no key's and no composition's edits. -/
def inputEdit (state : EditingState) (replacement : Option Text) (proxy : EditingProxyState) (caret : Nat) : TextEdit :=
  match state.context with
  | none => .null
  | some context => textEdit (state.pendingEcho.getD state.proxy) proxy caret context.contextId replacement

def textInput (countGraphemes : Text → Nat) (r : EditingReduction) (replacement : Option Text)
    (proxy : EditingProxyState) : EditingReduction :=
  let echo := r.state.pendingEcho
  let caret := (echo.map (·.selectionEnd)).getD r.state.caret
  let edit := inputEdit r.state replacement proxy caret
  let r := r.setState { r.state with pendingEcho := none }
  match edit with
  | .unverified => (r.refuse .rangeEdits).reset
  | .edit edit => r.edited countGraphemes edit caret proxy
  | .null => r.unedited countGraphemes echo.isSome proxy

/-- An input of what a composition committed already, or was to discard. -/
def tailInput (r : EditingReduction) (proxy : EditingProxyState) (discard : Bool) : EditingReduction :=
  let r :=
    if discard then r.setState { r.state with compositionTail := none }
    else r.setState { r.state with compositionTail := none, proxy := proxy, caret := proxy.selectionEnd }
  if !r.state.abilities.rangeEdits then r.reset else r

/-- `input` outside of a composition. -/
def settledInput (countGraphemes : Text → Nat) (r : EditingReduction) (inputType : Text) (replacement : Option Text)
    (proxy : EditingProxyState) : EditingReduction :=
  if isReturn inputType then
    let r := r.softReturn false
    r.setState { r.state with suppressedInput := none }
  else if r.state.compositionTail.isSome && isCompositionInput inputType then
    r.tailInput proxy (r.state.compositionTail = some .discard)
  else
    let r := r.setState { r.state with compositionTail := none }
    if r.state.suppressedInput = some inputType then r.setState { r.state with suppressedInput := none }
    else r.textInput countGraphemes replacement proxy

def input (countGraphemes : Text → Nat) (r : EditingReduction) (inputType : Text) (composing : Bool)
    (proxy : EditingProxyState) : EditingReduction :=
  let r := r.confirmKey inputType composing proxy
  let replacement := r.state.replacement
  let r := r.setState { r.state with replacement := none }
  match r.state.composition with
  | some previous => r.composingInput previous proxy
  | none => if composing then r else r.settledInput countGraphemes inputType replacement proxy

def selection (countGraphemes : Text → Nat) (r : EditingReduction) (proxy : EditingProxyState) : EditingReduction :=
  if r.state.composition.isNone && r.state.pendingEcho.isNone && proxy.value = r.state.proxy.value then
    let r :=
      if proxy.selectionStart = proxy.selectionEnd then
        let r := r.move countGraphemes r.state.caret proxy.selectionEnd r.state.proxy.value
        r.setState { r.state with caret := proxy.selectionEnd }
      else r
    r.setState { r.state with proxy }
  else r

def paste (r : EditingReduction) (items : List EditingClipboardPayloadItem) : EditingReduction :=
  let r := r.prevent.interrupt
  if r.state.abilities.clipboard = .text ∧ items.any (fun item => item.type ≠ units "text/plain") then r.refuse .clipboard
  else if items = [] then r
  else r.emit (.paste items)

end EditingReduction

def reduceEditing (countGraphemes : Text → Nat) (previous : EditingState) (event : EditingProxyEvent) :
    EditingReduction :=
  let r : EditingReduction := { state := previous }
  match event with
  | .context context => r.context context
  | .pointerdown => r.interrupt
  | .blur => r.blur
  | .compositionstart proxy => r.compositionstart proxy
  | .compositionupdate data proxy => r.compositionupdate data proxy
  | .compositionend data proxy => r.compositionend countGraphemes data proxy
  | .keydown key => r.keydown countGraphemes key
  | .keyup key => r.keyup key
  | .beforeinput inputType data => r.beforeinput inputType data
  | .input inputType composing proxy => r.input countGraphemes inputType composing proxy
  | .selection proxy => r.selection countGraphemes proxy
  | .copy => r.prevent.interrupt.emit .copy
  | .cut => r.prevent.interrupt.emit .cut
  | .paste items => r.paste items

/-- The state after each event. -/
def machine (countGraphemes : Text → Nat) : Machine EditingState EditingProxyEvent :=
  ⟨fun s event => some (reduceEditing countGraphemes s event).state⟩

end Opensteer.Editing
