import DualModule.Decimal.Format
import DualModule.Json.Numeral
import DualModule.PassError
import DualModule.Procedure
import DualModule.Quoted
import DualModule.Target
/-!
# Target configuration

Targets can be named in a file: a JSON object whose field `targets` lists them.

**What is accepted.**  A target is an object with its fields in any order, or an array of them in
theirs.  Fields that mean nothing here are passed over, as long as they are JSON; known fields may
not be repeated.  `post_process` may be left out or `null`.

**The first problem decides**, in the order of the text: be it a defect of the JSON or a value that
is not what is expected there.

## Main Definitions

* `ConfigFault`, `Mismatch`, `Mismatch.message`
* `Config.targets`: the targets that a text names
* `LoadError`, `Config.load`
-/

namespace DualModule

/-- What was found where something else was expected. -/
inductive FoundValue where
  | null
  | boolean (b : Bool)
  | integer (n : Int)
  | float (shown : String)
  | string (text : Text)
  | sequence
  | map
deriving DecidableEq

/-- How a value is not what is expected. -/
inductive Mismatch where
  | invalidType (found : FoundValue) (expected : String)
  | invalidLength (length : Nat) (expected : String)
  | missingField (name : String)
  | duplicateField (name : String)
  | unknownVariant (name : Text) (expected : String)
deriving DecidableEq

/-- What is wrong with a configuration. -/
inductive ConfigFault where
  /-- the text is not JSON -/
  | defect (defect : Json.Defect)
  /-- the JSON does not describe targets -/
  | mismatch (mismatch : Mismatch)
deriving DecidableEq

/-- The wording of what was found. -/
def FoundValue.message : FoundValue → String
  | null => "null"
  | boolean b => s!"boolean `{b}`"
  | integer n => s!"integer `{n}`"
  | float shown => s!"floating point `{shown}`"
  | string text => s!"string {quotedText text}"
  | sequence => "sequence"
  | map => "map"

/-- The wording of a mismatch. -/
def Mismatch.message : Mismatch → String
  | invalidType found expected => s!"invalid type: {found.message}, expected {expected}"
  | invalidLength length expected => s!"invalid length {length}, expected {expected}"
  | missingField name => s!"missing field `{name}`"
  | duplicateField name => s!"duplicate field `{name}`"
  | unknownVariant name expected =>
    s!"unknown variant `{String.ofList name}`, expected `{expected}`"

namespace Config

open Json

/-- Reading a value, or its first problem. -/
abbrev Reading := Except ConfigFault

/-- Fails with a mismatch. -/
def mismatch {α : Type} (m : Mismatch) : Reading α := .error (.mismatch m)

/-- Fails with a defect. -/
def defect {α : Type} (d : Defect) : Reading α := .error (.defect d)

/-- The text of a string, all of whose surrogates have to be paired; `ending` is the defect that
ends the string, if one does. -/
def pairUp (ending : Option Defect) : List Element → Reading Text
  | [] => match ending with
    | none => .ok []
    | some d => defect d
  | .char c :: es => (c :: ·) <$> pairUp ending es
  | .surrogate a :: .surrogate b :: es =>
    if a < 0xDC00 ∧ 0xDC00 ≤ b then
      (Char.ofNat (0x10000 + (a - 0xD800) * 0x400 + (b - 0xDC00)) :: ·) <$> pairUp ending es
    else defect .malformed
  | [.surrogate a] => defect (if a < 0xDC00 then ending.getD .malformed else .malformed)
  | .surrogate _ :: _ => defect .malformed

/-- The problem of a value that is not of the expected type; a defect of the value comes first. -/
def unexpected {α : Type} (expected : String) (v : Value) : Reading α :=
  match v with
  | .null => mismatch (.invalidType .null expected)
  | .boolean b => mismatch (.invalidType (.boolean b) expected)
  | .number n =>
    match n.numeral with
    | .ok (.integer i) => mismatch (.invalidType (.integer i) expected)
    | .ok (.float x) => mismatch (.invalidType (.float (formatFloat x)) expected)
    | .error d => defect d
  | .string es => do mismatch (.invalidType (.string (← pairUp none es)) expected)
  | .brokenString es d => do mismatch (.invalidType (.string (← pairUp (some d) es)) expected)
  | .array _ _ => mismatch (.invalidType .sequence expected)
  | .object _ _ => mismatch (.invalidType .map expected)
  | .brokenNumber atEnd => defect (if atEnd then .truncated else .malformed)
  | .brokenWord d | .broken d => defect d

/-- The text of a string; `expected` says what is wanted. -/
def text (expected : String) (v : Value) : Reading Text :=
  match v with
  | .string es => pairUp none es
  | .brokenString es d => pairUp (some d) es
  | v => unexpected expected v

/-- Fails with the defect that ends a list, if one does. -/
def closed : Ending → Reading Unit
  | .closed => .ok ()
  | .defect _ d => defect d

/-- Checks that nothing follows what has been used of a list. -/
def nothingFollows {α : Type} (rest : List α) (ending : Ending) : Reading Unit :=
  match rest, ending with
  | [], .closed => .ok ()
  | [], .defect false d => defect d
  | _, _ => defect .malformed

/-- The items of an array. -/
def listOf {α : Type} (item : Value → Reading α) (v : Value) : Reading (List α) :=
  match v with
  | .array items ending => do
    let xs ← items.mapM item
    closed ending
    return xs
  | v => unexpected "a sequence" v

/-- The kind of post-processing that a name stands for. -/
def variant (name : Text) : Reading PostProcess :=
  if name = "dual_module".toList then .ok .dualModule
  else mismatch (.unknownVariant name "dual_module")

/-- The kind of post-processing, if there is to be any: its name, or an object with the name as its
only field and nothing in it. -/
def postProcess (v : Value) : Reading (Option PostProcess) :=
  match v with
  | .null => .ok none
  | .broken d => defect d
  | .string _ | .brokenString _ _ => do some <$> variant (← text "variant identifier" v)
  | .object [] .closed => defect .malformed
  | .object [] (.defect _ d) => defect d
  | .object ((key, value) :: rest) ending => do
    let kind ← variant (← text "variant identifier" key)
    match value with
    | .null => nothingFollows rest ending
    | value => unexpected "unit" value
    return some kind
  | _ => defect .malformed

/-- Passes over a value of which only the form matters. -/
def ignore (v : Value) : Reading Unit :=
  match v.defect? with
  | none => .ok ()
  | some d => defect d

/-- A field that is read once. -/
def once {α : Type} (name : String) (held : Option α) (read : Reading α) : Reading (Option α) :=
  if held.isSome then mismatch (.duplicateField name) else some <$> read

/-- A field that has to be there. -/
def required {α : Type} (name : String) (held : Option α) : Reading α :=
  match held with
  | some a => .ok a
  | none => mismatch (.missingField name)

/-- The key of a member. -/
def key (v : Value) : Reading Text :=
  match v with
  | .string _ | .brokenString _ _ => text "a string" v
  | _ => defect .malformed

/-- The next item of an array that stands for a record, of which `count` items have been read. -/
def nextItem {α : Type} (count : Nat) (expected : String) (items : List Value) (ending : Ending)
    (read : Value → Reading α) : Reading α :=
  match items, ending with
  | v :: _, _ => read v
  | [], .closed => mismatch (.invalidLength count expected)
  | [], .defect _ d => defect d

/-- The fields of a target as far as they have been read. -/
structure TargetFields where
  name : Option Text
  out : Option Path
  invocations : Option (List (List Text))
  postProcess : Option (Option PostProcess)

/-- The path that a string spells. -/
def path (v : Value) : Reading Path := .ofText <$> text "path string" v

/-- The argument groups of a target. -/
def invocations (v : Value) : Reading (List (List Text)) := listOf (listOf (text "a string")) v

/-- Reads one member of a target. -/
def targetMember (fields : TargetFields) (member : Value × Value) : Reading TargetFields := do
  let name ← key member.1
  if name = "name".toList then
    return { fields with name := ← once "name" fields.name (text "a string" member.2) }
  else if name = "out".toList then
    return { fields with out := ← once "out" fields.out (path member.2) }
  else if name = "invocations".toList then
    return { fields with
      invocations := ← once "invocations" fields.invocations (invocations member.2) }
  else if name = "post_process".toList then
    return { fields with
      postProcess := ← once "post_process" fields.postProcess (postProcess member.2) }
  else
    ignore member.2
    return fields

/-- A target. -/
def target (v : Value) : Reading Target :=
  let expected := "struct TargetConfig with 4 elements"
  match v with
  | .array items ending => do
    let name ← nextItem 0 expected items ending (text "a string")
    let out ← nextItem 1 expected (items.drop 1) ending path
    let invocations ← nextItem 2 expected (items.drop 2) ending invocations
    let postProcess ← match items.drop 3, ending with
      | [], .closed => pure none
      | rest, ending => nextItem 3 expected rest ending postProcess
    nothingFollows (items.drop 4) ending
    return { name, out, invocations, postProcess }
  | .object members ending => do
    let fields ← members.foldlM targetMember ⟨none, none, none, none⟩
    closed ending
    return {
      name := ← required "name" fields.name
      out := ← required "out" fields.out
      invocations := ← required "invocations" fields.invocations
      postProcess := fields.postProcess.join }
  | v => unexpected "struct TargetConfig" v

/-- Reads one member of a configuration. -/
def documentMember (held : Option (List Target)) (member : Value × Value) :
    Reading (Option (List Target)) := do
  if (← key member.1) = "targets".toList then once "targets" held (listOf target member.2)
  else
    ignore member.2
    return held

/-- A configuration. -/
def document (v : Value) : Reading (List Target) :=
  match v with
  | .array items ending => do
    let targets ← nextItem 0 "struct TargetFile with 1 element" items ending (listOf target)
    nothingFollows (items.drop 1) ending
    return targets
  | .object members ending => do
    let targets ← members.foldlM documentMember none
    closed ending
    required "targets" targets
  | v => unexpected "struct TargetFile" v

/-- The targets that a text names. -/
def targets (text : Text) : Reading (List Target) := do
  let (value, rest) := Value.read text
  let targets ← document value
  if (skipBlanks rest).isEmpty then return targets else defect .malformed

end Config

/-- Why targets could not be loaded from a file. -/
inductive LoadError where
  | read (file : Path) (cause : SystemError)
  | parse (file : Path) (fault : ConfigFault)
deriving DecidableEq

/-- The wording of a fault.  Where text is not JSON, only that much is said. -/
def ConfigFault.message : ConfigFault → String
  | defect .malformed => "malformed JSON"
  | defect .truncated => "unexpected end of JSON"
  | mismatch m => m.message

/-- The wording of what is behind a failure. -/
def LoadError.causeMessage : LoadError → String
  | read _ cause => cause.message
  | parse _ fault => fault.message

/-- The wording of a failure. -/
def LoadError.message : LoadError → String
  | read file cause => s!"failed to read target config {file.shown}: {cause.message}"
  | parse file fault => s!"invalid target config {file.shown}: {fault.message}"

/-- The targets that a file names, as its text is understood. -/
def Config.load (file : Path)
    (understand : Text → Except ConfigFault (List Target) := Config.targets) :
    Attempt LoadError (List Target) := do
  let content ← Attempt.explained (.request (.read file)) (.read file)
  match Utf8.decode? content with
  | none => throw (.read file .notUtf8)
  | some text =>
    match understand text with
    | .ok targets => return targets
    | .error fault => throw (.parse file fault)

end DualModule
