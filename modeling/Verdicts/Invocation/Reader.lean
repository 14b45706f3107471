/-
Reading a command line. The words are taken from left to right; the first fault, or the first question
for help or the version, decides. A double dash makes all that follows arguments.
-/
import Verdicts.Invocation.Basic
import Verdicts.Text.Decimal

namespace Verdicts

/-- A word of a command line by its form. -/
inductive Word where
  /-- Two dashes on their own. -/
  | separator
  /-- An option by its name, perhaps with a value behind an equals sign. -/
  | long (name : String) (value : Option String)
  /-- Options by their letters. -/
  | short (letters : List Char)
  | plain (text : String)
  deriving DecidableEq, Repr, Inhabited

namespace Word

/-- The word of two dashes and a text. -/
def ofLong (text : List Char) : Word :=
  match text.dropWhile (· ≠ '=') with
  | [] => .long (String.ofList text) none
  | _ :: value => .long (String.ofList (text.takeWhile (· ≠ '='))) (some (String.ofList value))

/-- The form of a word. One dash on its own is plain. -/
def ofText (text : String) : Word :=
  match text.toList with
  | ['-', '-'] => .separator
  | '-' :: '-' :: rest => ofLong rest
  | '-' :: c :: rest => .short (c :: rest)
  | _ => .plain text

/-- Whether a word can be the value of the option before it. -/
def isValue (text : String) : Bool :=
  match ofText text with
  | plain _ => true
  | _ => false

end Word

/-- Options without a value. -/
inductive Flag where
  | verbose
  | help
  | version
  deriving DecidableEq, Repr, Inhabited

namespace Flag

/-- The name of a flag. -/
def name : Flag → String
  | verbose => "verbose"
  | help => "help"
  | version => "version"

/-- The letter of a flag. -/
def letter : Flag → Char
  | verbose => 'v'
  | help => 'h'
  | version => 'V'

/-- The flags that a command has. -/
def ofCommand : List Flag := [verbose, help]

/-- The flags in front of a command. -/
def leading : List Flag := [verbose, help, version]

/-- The first question that letters ask. -/
def question? (flags : List Flag) : List Char → Except UsageError (Option Flag)
  | [] => .ok none
  | c :: rest =>
    match flags.find? (·.letter == c) with
    | none => .error (.unknownOption (String.ofList ['-', c]))
    | some .verbose => question? flags rest
    | some flag => .ok (some flag)

/-- The question that a flag asks by its name, if it asks one; none if there is no such flag. -/
def named? (flags : List Flag) (name : String) (value : Option String) :
    Option (Except UsageError (Option Flag)) :=
  (flags.find? (·.name == name)).map fun flag =>
    match value, flag with
    | some value, _ => .error (.superfluousValue name value)
    | none, .verbose => .ok none
    | none, flag => .ok (some flag)

end Flag

/-- A place for a value: its name, and how the value is put in place if it is one that fits. -/
structure Slot (σ : Type) where
  name : String
  put : String → σ → Option σ

namespace Slot

/-- A slot for any text. -/
def text {σ : Type} (name : String) (put : String → σ → σ) : Slot σ :=
  ⟨name, fun value s => some (put value s)⟩

/-- A slot for a path, which may not be empty. -/
def path {σ : Type} (name : String) (put : Path → σ → σ) : Slot σ :=
  ⟨name, fun value s => if value.isEmpty then none else some (put value s)⟩

/-- A slot for a number below 2^64. -/
def natural {σ : Type} (name : String) (put : Nat → σ → σ) : Slot σ :=
  ⟨name, fun value s => (Decimal.unsigned? Decimal.limit64 value.toList).map (put · s)⟩

/-- Put a value in place. -/
def fill {σ : Type} (slot : Slot σ) (value : String) (s : σ) : Except UsageError σ :=
  match slot.put value s with
  | some s => .ok s
  | none => .error (.invalidValue slot.name value)

end Slot

/-- What may follow the name of a command. -/
structure Grammar (σ : Type) where
  blank : σ
  options : List (Slot σ) := []
  /-- The argument that has to be given, if there is one. -/
  argument : Option (Slot σ) := none
  /-- Takes what follows a double dash, if that is passed on. -/
  passOn : Option (List String → σ → σ) := none

namespace Grammar

variable {σ : Type}

/-- What was read: a request, or the wish for help. -/
abbrev Reading (σ : Type) := Except UsageError (Option σ)

/-- The words have ended. -/
def finish (g : Grammar σ) (given : Bool) (s : σ) : Reading σ :=
  match g.argument, given with
  | some slot, false => .error (.missingArgument slot.name)
  | _, _ => .ok (some s)

/-- Take an argument, of which there may be one. -/
def takeArgument (g : Grammar σ) (given : Bool) (value : String) (s : σ) : Except UsageError σ :=
  match g.argument, given with
  | some slot, false => slot.fill value s
  | _, _ => .error (.superfluousArgument value)

/-- Take the words behind a double dash as arguments. -/
def takeArguments (g : Grammar σ) (given : Bool) (s : σ) : List String → Reading σ
  | [] => g.finish given s
  | word :: rest =>
    match g.takeArgument given word s with
    | .ok s => takeArguments g true s rest
    | .error e => .error e

/-- The words behind a double dash. -/
def behindSeparator (g : Grammar σ) (given : Bool) (s : σ) (words : List String) : Reading σ :=
  match g.passOn with
  | some pass => g.finish given (pass words s)
  | none => g.takeArguments given s words

/-- Read the words behind the name of a command. `used` are the options seen so far, `given` whether
the argument was. -/
def read (g : Grammar σ) (used : List String) (given : Bool) (s : σ) : List String → Reading σ
  | [] => g.finish given s
  | word :: rest =>
    match Word.ofText word with
    | .separator => g.behindSeparator given s rest
    | .plain value =>
      match g.takeArgument given value s with
      | .ok s => read g used true s rest
      | .error e => .error e
    | .short letters =>
      match Flag.question? Flag.ofCommand letters with
      | .ok none => read g used given s rest
      | .ok (some _) => .ok none
      | .error e => .error e
    | .long name attached =>
      match Flag.named? Flag.ofCommand name attached with
      | some (.ok none) => read g used given s rest
      | some (.ok (some _)) => .ok none
      | some (.error e) => .error e
      | none =>
        match g.options.find? (·.name == name) with
        | none => .error (.unknownOption word)
        | some slot =>
          if used.contains name then .error (.repeatedOption name)
          else
            match attached, rest with
            | some value, rest =>
              match slot.fill value s with
              | .ok s => read g (name :: used) given s rest
              | .error e => .error e
            | none, [] => .error (.missingValue name)
            | none, value :: rest =>
              if Word.isValue value then
                match slot.fill value s with
                | .ok s => read g (name :: used) given s rest
                | .error e => .error e
              else .error (.missingValue name)

/-- The invocation that the words behind the name of a command give. -/
def invocation (g : Grammar σ) (topic : HelpTopic) (build : σ → Invocation) (words : List String) :
    Except UsageError Invocation :=
  (g.read [] false g.blank words).map fun
    | some request => build request
    | none => .help topic

end Grammar

namespace Invocation

/-- What may follow `check`. -/
def checkGrammar : Grammar CheckRequest where
  blank := {}
  options := [
    Slot.natural "timeout" fun value r => { r with timeout := some value },
    Slot.text "main" fun value r => { r with top := some value },
    Slot.text "report" fun value r => { r with report := some value },
    Slot.path "save-output" fun value r => { r with savedOutput := some value }]
  argument := some (Slot.path "PROGRAM" fun value r => { r with program := value })
  passOn := some fun words r => { r with engineArgs := words }

/-- What may follow `replay`. -/
def replayGrammar : Grammar ReplayRequest where
  blank := {}
  options := [Slot.text "report" fun value r => { r with report := some value }]
  argument := some (Slot.path "OUTPUT" fun value r => { r with output := value })

/-- What may follow `doctor`. -/
def doctorGrammar : Grammar Unit where
  blank := ()

/-- The name of a topic that is a command. -/
def topic? : String → Option HelpTopic
  | "check" => some .check
  | "replay" => some .replay
  | "doctor" => some .doctor
  | "help" => some .help
  | _ => none

/-- What is asked for by the words behind `help`. -/
def helpOn : List String → Except UsageError Invocation
  | [] => .ok (.help .overview)
  | [name] =>
    match topic? name with
    | some topic => .ok (.help topic)
    | none => .error (.unknownCommand name)
  | name :: other :: _ => .error (.unknownCommand (if (topic? name).isSome then other else name))

/-- The invocation of a command. -/
def ofCommand (name : String) (words : List String) : Except UsageError Invocation :=
  match topic? name with
  | some .check => checkGrammar.invocation .check .check words
  | some .replay => replayGrammar.invocation .replay .replay words
  | some .doctor => doctorGrammar.invocation .doctor (fun _ => .doctor) words
  | some .help => helpOn words
  | _ => .error (.unknownCommand name)

/-- The answer to a question that is asked in front of any command. -/
def ofQuestion : Flag → Invocation
  | .version => .version
  | _ => .help .overview

/-- What the words of a command line ask for. -/
def ofWords : List String → Except UsageError Invocation
  | [] => .error .noCommand
  | word :: rest =>
    match Word.ofText word with
    | .separator =>
      match rest with
      | [] => .error .noCommand
      | value :: _ => .error (.superfluousArgument value)
    | .plain name => ofCommand name rest
    | .short letters =>
      match Flag.question? Flag.leading letters with
      | .ok none => ofWords rest
      | .ok (some flag) => .ok (ofQuestion flag)
      | .error e => .error e
    | .long name attached =>
      match Flag.named? Flag.leading name attached with
      | some (.ok none) => ofWords rest
      | some (.ok (some flag)) => .ok (ofQuestion flag)
      | some (.error e) => .error e
      | none => .error (.unknownOption word)

end Invocation

end Verdicts
