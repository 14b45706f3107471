/-
Reading a manifest from its text. Every setting may be left out. The engine's settings have to be
known ones, since a misspelt one would change how it runs; settings of the display that are not known
do not count.
-/
import Verdicts.Display.Choices
import Verdicts.Manifest.Basic
import Verdicts.Toml.Document
import Verdicts.Toml.Report

namespace Verdicts

namespace Toml

/-- The member under which the text of a date is known. -/
def momentKey : String := "datetime"

/-- A scalar as a JSON value. -/
def Scalar.toJson : Scalar → Json
  | .text value => .string value
  | .integer value => .number (.int value)
  | .float value => .number (.float value)
  | .boolean value => .bool value
  | .moment written => .object [(momentKey, .string written)]

/-- A value as JSON; arrays and tables without what they hold. -/
def Node.outline : Node → Json
  | .scalar value _ => value.toJson
  | .array .. => .array []
  | .table .. => .object []

end Toml

namespace Manifest

open Toml (Node Fault Extent)

/-- Reads a value of a document. -/
abbrev ReadNode (α : Type) := Node → Except Fault α

/-- Read a value that has no parts. -/
def scalar {α : Type} (read : Read α) : ReadNode α := fun node =>
  match read node.outline with
  | .ok a => .ok a
  | .error e => .error ⟨node.extent, e.message⟩

/-- Read a list. -/
def list {α : Type} (read : ReadNode α) : ReadNode (List α)
  | .array _ items _ => items.mapM read
  | node => .error ⟨node.extent, (DataError.wrongType node.outline "a sequence").message⟩

/-- A version, written in full. -/
def version : Read Version
  | .string text =>
    match Version.parse? text with
    | some v => .ok v
    | none => .error (.invalidValue ("string " ++ Text.quote text) "semver version")
  | value => .error (.wrongType value "semver version")

/-- A setting of a section: how its value is read and put in place. -/
structure Setting (σ : Type) where
  name : String
  read : ReadNode (σ → σ)

/-- A setting whose value is read so. -/
def setting {σ α : Type} (name : String) (read : ReadNode α) (put : α → σ → σ) : Setting σ :=
  ⟨name, fun node => (read node).map put⟩

/-- The settings of a section, and whether there may be no others. -/
structure Section (σ : Type) where
  name : String
  settings : List (Setting σ)
  closed : Bool
  blank : σ

namespace Section

variable {σ : Type}

/-- The names of the settings, as an error lists them. -/
def expected (s : Section σ) : String :=
  match s.settings.map fun setting => "`" ++ setting.name ++ "`" with
  | [a] => a
  | [a, b] => a ++ " or " ++ b
  | names => "one of " ++ String.intercalate ", " names

/-- The fault of a setting that is not known. -/
def unknown (s : Section σ) (name : String) (extent : Extent) : Fault :=
  ⟨extent, "unknown field `" ++ name ++ "`, expected " ++ s.expected⟩

/-- Take the entries of a table in order. -/
def takeEntries (s : Section σ) (value : σ) : Toml.Entries → Except Fault σ
  | [] => .ok value
  | (key, node) :: rest =>
    match s.settings.find? (·.name == key.text) with
    | some setting => do
      let put ← setting.read node
      takeEntries s (put value) rest
    | none => if s.closed then .error (s.unknown key.text key.extent) else takeEntries s value rest

/-- Take the items of an array in order, as far as there are settings. -/
def takeItems (value : σ) : List (Setting σ) → List Node → Except Fault σ
  | setting :: settings, node :: rest => do
    let put ← setting.read node
    takeItems (put value) settings rest
  | _, _ => .ok value

/-- The section that a value gives. A date counts as a table with one entry of its own. -/
def read (s : Section σ) : ReadNode σ
  | .table _ entries _ => s.takeEntries s.blank entries
  | .array _ items _ => takeItems s.blank s.settings items
  | .scalar (.moment _) extent =>
    if s.closed then .error (s.unknown Toml.momentKey extent) else .ok s.blank
  | node =>
    .error ⟨node.extent, (DataError.wrongType node.outline ("struct " ++ s.name)).message⟩

end Section

/-- The settings of the engine. -/
def engineSection : Section EngineSettings where
  name := "EngineConfig"
  closed := true
  blank := {}
  settings := [
    setting "path" (scalar Read.string) fun v s => { s with binary := some v },
    setting "base_args" (list (scalar Read.string)) fun v s => { s with baseArgs := v },
    setting "timeout" (scalar Read.natural) fun v s => { s with timeout := some v },
    setting "args" (list (scalar Read.string)) fun v s => { s with args := v },
    setting "poll_interval_ms" (scalar Read.natural) fun v s => { s with pollInterval := some v },
    setting "grace_period_ms" (scalar Read.natural) fun v s => { s with gracePeriod := some v },
    setting "termination_marker" (scalar Read.string)
      fun v s => { s with terminationMarker := some v },
    setting "minimum_version" (scalar version) fun v s => { s with minimumVersion := some v }]

/-- The settings of the display. -/
def displaySection : Section DisplaySettings where
  name := DisplaySettings.shape.name
  closed := false
  blank := DisplaySettings.shape.blank
  settings := DisplaySettings.shape.fields.map fun field => ⟨field.name, scalar field.read⟩

/-- The sections of a manifest. -/
def sections : Section Manifest where
  name := "KindlyManifest"
  closed := true
  blank := {}
  settings := [
    setting "engine" engineSection.read fun v m => { m with engine := v },
    setting "display" displaySection.read fun v m => { m with display := v }]

/-- The manifest that a text gives. -/
def parse (text : String) : Except Fault Manifest := do
  sections.takeEntries {} (← Toml.document text.toList)

end Manifest

end Verdicts
