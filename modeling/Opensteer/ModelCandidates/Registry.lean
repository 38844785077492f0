import Opensteer.Core.Json
import Opensteer.Core.Text

/-!
# Model registry

`canonicalModelReference` of `packages/core/src/model-registry.ts`: the lab and the lab's own ID of a model, as one of
the sources spells it.
-/

namespace Opensteer.ModelCandidates

/-- What a record gives for a vendor: a lab, or what every object has under that name, by its JSON in an array. -/
inductive Lab
  | lab (providerId : Text)
  | inherited (json : Text)
deriving DecidableEq, Repr

structure ModelReference where
  modelId : Text
  providerId : Lab
deriving DecidableEq, Repr

def vendorTable : List (String × String) :=
  [("anthropic", "anthropic"), ("deepseek", "deepseek"), ("google", "google"), ("meta-llama", "meta"), ("meta", "meta"),
    ("minimax", "minimax"), ("mistral", "mistral"), ("mistralai", "mistral"), ("moonshot", "moonshot"),
    ("moonshotai", "moonshot"), ("openai", "openai"), ("qwen", "qwen"), ("x-ai", "xai"), ("xai", "xai"), ("z-ai", "zai"),
    ("zai", "zai")]

/-- `vendorAliases[vendor]` of a name without capitals. -/
def vendorAliases (vendor : Text) : Option Lab :=
  match vendorTable.find? fun entry => units entry.1 = vendor with
  | some entry => some (.lab (units entry.2))
  | none =>
    if vendor = units "constructor" then some (.inherited (units "null"))
    else if vendor = units "__proto__" then some (.inherited (units "\x7b\x7d"))
    else none

/-- `toLowerCase` as far as a pattern of ASCII sees it: a dotted capital I becomes two units. -/
def toLowerCase (text : Text) : Text :=
  text.flatMap fun unit => if unit = 0x130 then [0x69, 0x307] else [Text.lowerUnit unit]

def isDigit (unit : UInt16) : Bool := 0x30 ≤ unit && unit ≤ 0x39

def isSmall (unit : UInt16) : Bool := 0x61 ≤ unit && unit ≤ 0x7a

/-- `\w`. -/
def isWord (unit : UInt16) : Bool := isDigit unit || isSmall unit || (0x41 ≤ unit && unit ≤ 0x5a) || unit = 0x5f

/-- `/^(…)\b/u` for words that end in a letter or a digit. -/
def startsWithWord (words : List String) (lower : Text) : Bool :=
  words.any fun word => (units word).isPrefixOf lower && !(lower.drop (units word).length).head?.any isWord

def familyLabs : List (List String × String) :=
  [(["gpt", "o1", "o2", "o3", "o4", "o5", "o6", "o7", "o8", "o9", "chatgpt", "codex", "text-embedding", "davinci"], "openai"),
    (["claude"], "anthropic"), (["gemini", "gemma"], "google"), (["grok"], "xai"), (["llama", "muse"], "meta"),
    (["mistral", "mixtral", "codestral", "magistral", "devstral"], "mistral"), (["deepseek"], "deepseek"),
    (["qwen", "qwq"], "qwen"), (["kimi"], "moonshot"), (["glm"], "zai"), (["minimax"], "minimax")]

/-- `/^(?:auto$|composer(?:$|[-_.])|cursor-grok(?:$|[-_.]))/u`. -/
def isCursorFamily (lower : Text) : Bool :=
  lower = units "auto" || ["composer", "cursor-grok"].any fun word =>
    (units word).isPrefixOf lower && (lower.drop (units word).length).head?.all fun unit => unit ∈ units "-_."

def sourceFamilyLabs : List (String × (Text → Bool) × String) := [("cursor", isCursorFamily, "xai")]

/-- `/^-v\d+(?::\d+)?$/u`. -/
def isRevision (text : Text) : Bool :=
  let digits := (text.drop 2).takeWhile isDigit
  let rest := (text.drop 2).dropWhile isDigit
  text.take 2 = units "-v" && !digits.isEmpty &&
    (rest.isEmpty || (rest.head? = some 0x3a && !rest.tail.isEmpty && rest.tail.all isDigit))

/-- `/^([a-z][a-z0-9-]*)\.(.+?)(?:-v\d+(?::\d+)?)?$/u`, by its two groups. -/
def bedrock (trimmed : Text) : Option (Text × Text) :=
  let vendor := trimmed.takeWhile (· ≠ 0x2e)
  let rest := trimmed.drop (vendor.length + 1)
  if vendor.head?.any isSmall && vendor.all (fun unit => isSmall unit || isDigit unit || unit = 0x2d) &&
      rest.all fun unit => unit ∉ ([0xa, 0xd, 0x2028, 0x2029] : Text) then
    -- The second group is the shortest that leaves nothing, or a revision.
    ((List.range' 1 rest.length).find? fun n => n = rest.length || isRevision (rest.drop n)).map fun n =>
      (vendor, rest.take n)
  else none

def canonicalModelReference (rawId sourceId : Text) : ModelReference :=
  let trimmed := rawId.trim
  let lower := toLowerCase trimmed
  let slash := trimmed.idxOf 0x2f
  let bySlash :=
    if 0 < slash ∧ slash + 1 < trimmed.length then
      (vendorAliases (toLowerCase (trimmed.take slash))).map fun lab => ⟨trimmed.drop (slash + 1), lab⟩
    else none
  let byBedrock := (bedrock trimmed).bind fun groups => (vendorAliases groups.1).map fun lab => ⟨groups.2, lab⟩
  let byFamily := (familyLabs.find? fun family => startsWithWord family.1 lower).map fun family =>
    ⟨trimmed, .lab (units family.2)⟩
  let bySource := (sourceFamilyLabs.find? fun family => toLowerCase sourceId = units family.1 && family.2.1 lower).map
    fun family => ⟨trimmed, .lab (units family.2.2)⟩
  (bySlash.or (byBedrock.or (byFamily.or bySource))).getD ⟨trimmed, .lab sourceId⟩

/-- The spellings of two gateways, with a revision and with a route. -/
example : canonicalModelReference (units "anthropic.claude-sonnet-5-v1:0") (units "custom") =
      ⟨units "claude-sonnet-5", .lab (units "anthropic")⟩ ∧
    canonicalModelReference (units "OpenAI/gpt-5.2:nitro") (units "custom") =
      ⟨units "gpt-5.2:nitro", .lab (units "openai")⟩ ∧
    canonicalModelReference (units "composer-2") (units "Cursor") = ⟨units "composer-2", .lab (units "xai")⟩ := by
  decide +kernel

end Opensteer.ModelCandidates
