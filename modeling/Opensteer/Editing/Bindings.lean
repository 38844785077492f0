import Opensteer.Core.Json
import Opensteer.Core.Text

/-!
# What a chord means

`packages/client/src/editing/bindings.ts`, and of `types.ts` and of the protocol's `editing.ts` what it
and the reducer use of them.
-/

namespace Opensteer.Editing

inductive EditingModifier
  | alt | control | «meta» | shift | primary
deriving DecidableEq, Repr

/-- A command. A table of commands, being an object, also has what every object inherits. -/
inductive EditingCommand
  | selectAll | undo | redo | moveBackward | moveForward | moveUp | moveDown | moveWordLeft | moveWordRight
  | moveWordLeftAndModifySelection | moveWordRightAndModifySelection | moveToLeftEndOfLine | moveToRightEndOfLine
  | moveToLeftEndOfLineAndModifySelection | moveToRightEndOfLineAndModifySelection | moveToBeginningOfLine
  | moveToEndOfLine | moveToBeginningOfLineAndModifySelection | moveToEndOfLineAndModifySelection
  | moveToBeginningOfParagraph | moveToEndOfParagraph | moveToBeginningOfParagraphAndModifySelection
  | moveToEndOfParagraphAndModifySelection | moveToBeginningOfDocument | moveToEndOfDocument
  | moveToBeginningOfDocumentAndModifySelection | moveToEndOfDocumentAndModifySelection | deleteBackward
  | deleteForward | deleteWordBackward | deleteWordForward | deleteToBeginningOfLine | deleteToEndOfLine
  | deleteToEndOfParagraph | transpose | yank
  | inherited (name : Text)
deriving DecidableEq, Repr

inductive EditingViewerPlatform
  | mac | ios | windows | linux | chromeos | android
deriving DecidableEq, Repr

structure EditingKeyState where
  key : Text
  code : Text
  alt : Bool
  control : Bool
  «meta» : Bool
  shift : Bool
  altGraph : Bool
  location : Fin 4
  «repeat» : Bool
  composing : Bool
deriving DecidableEq, Repr

def appleEditingPlatform (platform : EditingViewerPlatform) : Bool := platform = .mac || platform = .ios

def editingModifiers (key : EditingKeyState) (platform : EditingViewerPlatform) : List EditingModifier :=
  (if key.alt && !key.altGraph then [EditingModifier.alt] else []) ++
  (if key.control && !key.altGraph then [if appleEditingPlatform platform then EditingModifier.control else .primary]
    else []) ++
  (if key.«meta» then [if appleEditingPlatform platform then EditingModifier.primary else .«meta»] else []) ++
  (if key.shift then [EditingModifier.shift] else [])

inductive Binding
  | command (command : EditingCommand)
  | copy
  | cut
  | paste
deriving DecidableEq, Repr

def selection : EditingCommand → Option EditingCommand
  | .moveWordLeft => some .moveWordLeftAndModifySelection
  | .moveWordRight => some .moveWordRightAndModifySelection
  | .moveToLeftEndOfLine => some .moveToLeftEndOfLineAndModifySelection
  | .moveToRightEndOfLine => some .moveToRightEndOfLineAndModifySelection
  | .moveToBeginningOfLine => some .moveToBeginningOfLineAndModifySelection
  | .moveToEndOfLine => some .moveToEndOfLineAndModifySelection
  | .moveToBeginningOfParagraph => some .moveToBeginningOfParagraphAndModifySelection
  | .moveToEndOfParagraph => some .moveToEndOfParagraphAndModifySelection
  | .moveToBeginningOfDocument => some .moveToBeginningOfDocumentAndModifySelection
  | .moveToEndOfDocument => some .moveToEndOfDocumentAndModifySelection
  | _ => none

abbrev CommandTable := List (String × EditingCommand)

/-- What `Object.prototype` has. -/
def objectPrototype : List String :=
  ["constructor", "__defineGetter__", "__defineSetter__", "hasOwnProperty", "__lookupGetter__", "__lookupSetter__",
    "isPrototypeOf", "propertyIsEnumerable", "toString", "valueOf", "__proto__", "toLocaleString"]

def CommandTable.get (table : CommandTable) (name : Text) : Option EditingCommand :=
  match table.find? fun e => units e.1 = name with
  | some e => some e.2
  | none => if name ∈ objectPrototype.map units then some (.inherited name) else none

def cocoaPrimary : CommandTable :=
  [("a", .selectAll), ("z", .undo), ("arrowleft", .moveToLeftEndOfLine), ("arrowright", .moveToRightEndOfLine),
    ("arrowup", .moveToBeginningOfDocument), ("arrowdown", .moveToEndOfDocument),
    ("backspace", .deleteToBeginningOfLine), ("delete", .deleteToEndOfLine)]

def cocoaOption : CommandTable :=
  [("arrowleft", .moveWordLeft), ("arrowright", .moveWordRight), ("arrowup", .moveToBeginningOfParagraph),
    ("arrowdown", .moveToEndOfParagraph), ("backspace", .deleteWordBackward), ("delete", .deleteWordForward)]

def cocoaControl : CommandTable :=
  [("a", .moveToBeginningOfLine), ("e", .moveToEndOfLine), ("b", .moveBackward), ("f", .moveForward),
    ("p", .moveUp), ("n", .moveDown), ("h", .deleteBackward), ("d", .deleteForward),
    ("k", .deleteToEndOfParagraph), ("t", .transpose), ("y", .yank)]

def pcControl : CommandTable :=
  [("a", .selectAll), ("z", .undo), ("y", .redo), ("arrowleft", .moveWordLeft), ("arrowright", .moveWordRight),
    ("arrowup", .moveToBeginningOfParagraph), ("arrowdown", .moveToEndOfParagraph),
    ("home", .moveToBeginningOfDocument), ("end", .moveToEndOfDocument), ("backspace", .deleteWordBackward),
    ("delete", .deleteWordForward)]

def unmodified : CommandTable :=
  [("arrowleft", .moveBackward), ("arrowright", .moveForward), ("arrowup", .moveUp), ("arrowdown", .moveDown),
    ("backspace", .deleteBackward), ("delete", .deleteForward), ("home", .moveToBeginningOfLine),
    ("end", .moveToEndOfLine)]

/-- The command of a chord, before Shift is looked at. -/
def chordCommand (key : EditingKeyState) (platform : EditingViewerPlatform) (name : Text) (primary : Bool) :
    Option EditingCommand :=
  if appleEditingPlatform platform then
    if primary && !key.alt then cocoaPrimary.get name
    else if key.alt && !key.«meta» && !key.control then cocoaOption.get name
    else if key.control && !key.«meta» && !key.alt then cocoaControl.get name
    else if !key.control && !key.alt && !key.«meta» then
      if name = units "home" then some .moveToBeginningOfDocument
      else if name = units "end" then some .moveToEndOfDocument
      else unmodified.get name
    else none
  else
    if primary && !key.alt then pcControl.get name
    else if !key.«meta» && !key.control && !key.alt then unmodified.get name
    else if platform = .windows && key.alt && !key.control && !key.«meta» && name = units "backspace" then
      some (if key.shift then .redo else .undo)
    else none

/-- What Shift makes of a command. -/
def shiftedCommand (command : EditingCommand) : Option EditingCommand :=
  if command = .undo then some .redo
  else match selection command with
    | some command => some command
    | none => if command = .selectAll ∨ command = .redo then some command else none

def resolveEditingBinding (key : EditingKeyState) (platform : EditingViewerPlatform) : Option Binding :=
  if key.altGraph || key.composing then none
  else
    let name := key.key.toLowerCase
    let primary := if appleEditingPlatform platform then key.«meta» && !key.control else key.control && !key.«meta»
    if primary && !key.alt && !key.shift && name ∈ ["c", "x", "v"].map units then
      some (if name = units "c" then .copy else if name = units "x" then .cut else .paste)
    else if !key.«meta» && !key.alt && name = units "insert" && key.control && !key.shift then some .copy
    else if !key.«meta» && !key.alt && name = units "insert" && key.shift && !key.control then some .paste
    else if !key.«meta» && !key.alt && !key.control && key.shift && name = units "delete" then some .cut
    else
      (chordCommand key platform name primary).bind fun command =>
        (if key.shift then shiftedCommand command else some command).map .command

def deletionCommands : CommandTable :=
  [("deleteContentBackward", .deleteBackward), ("deleteContentForward", .deleteForward),
    ("deleteWordBackward", .deleteWordBackward), ("deleteWordForward", .deleteWordForward),
    ("deleteSoftLineBackward", .deleteToBeginningOfLine), ("deleteSoftLineForward", .deleteToEndOfLine),
    ("deleteHardLineBackward", .deleteToBeginningOfLine), ("deleteHardLineForward", .deleteToEndOfParagraph)]

def deletionEditingCommand (inputType : Text) : Option EditingCommand := deletionCommands.get inputType

end Opensteer.Editing
