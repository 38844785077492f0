import Opensteer.Tools.Arguments

/-!
# A tool's arguments as one line

`integrationToolSignature`. A schema is a value of its own; how JavaScript writes a number is a
parameter. `typeText` takes the steps left where the source counts those taken: their sum is
`maximumSteps + 1`.
-/

namespace Opensteer.IntegrationCore

def definitionReferencePrefix : Text := units "#/$defs/"

def maximumObjectDepth : Nat := 2

def maximumSteps : Nat := 8

def maximumVariants : Nat := 5

/-- `record` of `record[key]`. -/
def record (schema : Fields) (key : String) : Fields := asRecord (schema.get? (units key))

def combined (schema : Fields) : Bool :=
  ["$ref", "allOf", "anyOf", "oneOf"].any fun keyword => (schema.get? (units keyword)).isSome

/-- What every object has from its prototype: truthy, and without a field that is read. -/
def inherited : List Text :=
  ["constructor", "toString", "toLocaleString", "valueOf", "hasOwnProperty", "isPrototypeOf",
    "propertyIsEnumerable", "__proto__", "__defineGetter__", "__defineSetter__",
    "__lookupGetter__", "__lookupSetter__"].map units

/-- `text.replaceAll` of two units by one. -/
def replaceAll (first second by_ : UInt16) : Text → Text
  | a :: b :: rest =>
    if a = first ∧ b = second then by_ :: replaceAll first second by_ rest
    else a :: replaceAll first second by_ (b :: rest)
  | text => text

def referenced (reference : Text) (definitions : Fields) : Option Json :=
  if definitionReferencePrefix.isPrefixOf reference then
    let name := (reference.drop definitionReferencePrefix.length).takeWhile (· ≠ 0x2f)
    let name := replaceAll 0x7e 0x30 0x7e (replaceAll 0x7e 0x31 0x2f name)
    (definitions.get? name).or (if name ∈ inherited then some (.object []) else none)
  else none

def truthy : Json → Bool
  | .null => false
  | .bool b => b
  | .number n => n ≠ 0
  | .string s => s ≠ []
  | .array _ | .object _ => true

/-- Whether a set takes the values for one; two objects are never one. -/
def identical : Json → Json → Bool
  | .null, .null => true
  | .bool b, .bool b' => b = b'
  | .number n, .number n' => n = n'
  | .string s, .string s' => s = s'
  | _, _ => false

/-- `new Set(items)`. -/
def newSet (items : List Json) : List Json :=
  items.foldl (fun set item => if set.any (identical item) then set else set ++ [item]) []

/-- `new Set(Array.isArray(schema.required) ? schema.required : [])`. -/
def requiredOf (schema : Fields) : List Json :=
  match schema.get? (units "required") with
  | some (.array items) => newSet items
  | _ => []

/-- `required.has(name)`. -/
def has (required : List Json) (name : Text) : Bool := required.any (identical (.string name))

/-- `texts.join(separator)`. -/
def join (separator : String) (texts : List Text) : Text := (units separator).intercalate texts

def objectType (typeText : Nat → Fields → Text) (schema : Fields) (objects : Nat) : Text :=
  let properties := record schema "properties"
  if properties.isEmpty then if combined schema then units "\x7b…\x7d" else units "\x7b\x7d"
  else if maximumObjectDepth ≤ objects then units "\x7b…\x7d"
  else
    let required := requiredOf schema
    let shown := (properties.filter fun property => has required property.1).map fun property =>
      property.1 ++ units ": " ++ typeText (objects + 1) (asRecord (some property.2))
    let cut := decide (shown.length < properties.length) || combined schema
    units "\x7b " ++ join "; " (shown ++ if cut then [units "…"] else []) ++ units " \x7d"

/-- `schema.oneOf ?? schema.anyOf`, if it has variants. -/
def variantsOf (schema : Fields) : Option (List Json) :=
  let variants := match schema.get? (units "oneOf") with
    | none | some .null => schema.get? (units "anyOf")
    | variants => variants
  match variants with
  | some (.array (variant :: variants)) => some (variant :: variants)
  | _ => none

/-- The type a schema names, which is `null` only besides another. -/
def typeOf (schema : Fields) : Option Json :=
  match schema.get? (units "type") with
  | some (.array types) => types.find? fun candidate => !identical candidate (.string (units "null"))
  | type => type

section

variable (numeral : Rat → List Char) (definitions : Fields)

def typeText : Nat → Nat → Fields → Text
  | 0, _, _ => units "unknown"
  | remaining + 1, objects, schema =>
    match schema.get? (units "$ref") with
    | some (.string reference) =>
      match referenced reference definitions with
      | some target =>
        if truthy target then typeText remaining objects (asRecord (some target)) else units "\x7b…\x7d"
      | none => units "\x7b…\x7d"
    | _ =>
      match schema.get? (units "const") with
      | some value => Tools.jsonText numeral value
      | none =>
        match schema.get? (units "enum") with
        | some (.array values) =>
          if values.length ≤ maximumVariants then join "|" (values.map (Tools.jsonText numeral))
          else units "string"
        | _ =>
          match variantsOf schema with
          | some variants =>
            if maximumVariants < variants.length then units "unknown"
            else join "|" (variants.map fun variant =>
              typeText remaining objects (asRecord (some variant))).eraseDups
          | none =>
            match typeOf schema, schema.get? (units "properties") with
            | some (.string type), properties =>
              if type = units "array" then
                typeText remaining objects (record schema "items") ++ units "[]"
              else if type = units "object" ∨ properties.isSome then
                objectType (typeText remaining) schema objects
              else if type = units "integer" then units "number"
              else type
            | _, some _ => objectType (typeText remaining) schema objects
            | _, none => units "unknown"

/-- `render` of `integrationToolSignature`. -/
def render (inputSchema : Fields) (shown : List Text) (cut : Bool) : Text :=
  units "\x7b " ++ join "; " (shown ++ if cut || combined inputSchema then [units "…"] else []) ++
    units " \x7d"

end

/-- The loop of `integrationToolSignature`: entries are dropped while more than `size` are shown that
do not fit. -/
def fit (fits : Nat → Bool) (size : Nat) : Nat → Nat
  | 0 => 0
  | shown + 1 => if size < shown + 1 ∧ !fits (shown + 1) then fit fits size shown else shown + 1

structure Input where
  definitions : Fields
  inputSchema : Fields

section

variable (numeral : Rat → List Char) (input : Input)

/-- A catalog's definitions, over the schema's own. -/
def Input.allDefinitions : Fields :=
  input.definitions.foldl (fun fields entry => fields.set entry.1 entry.2)
    (record input.inputSchema "$defs")

def Input.properties : Fields := record input.inputSchema "properties"

def Input.required : List Json := requiredOf input.inputSchema

def Input.typeText (value : Json) : Text :=
  IntegrationCore.typeText numeral input.allDefinitions maximumSteps 1 (asRecord (some value))

def requiredEntries : List Text :=
  (input.properties.filter fun property => has input.required property.1).map fun property =>
    property.1 ++ units ": " ++ input.typeText numeral property.2

def optionalEntries : List Text :=
  (input.properties.filter fun property => !has input.required property.1).map fun property =>
    property.1 ++ units "?: " ++ input.typeText numeral property.2

def integrationToolSignature (maximumBytes : Rat) : Text :=
  if input.properties.isEmpty then
    if combined input.inputSchema then units "\x7b…\x7d" else units "\x7b\x7d"
  else
    let entries := requiredEntries numeral input ++ optionalEntries numeral input
    let line shown := render input.inputSchema (entries.take shown) (decide (shown < entries.length))
    let fits shown := decide ((TextEncoder.encode (line shown)).length ≤ maximumBytes)
    line (fit fits input.required.length entries.length)

end

end Opensteer.IntegrationCore
