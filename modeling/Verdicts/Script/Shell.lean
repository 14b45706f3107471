/-
What a shell knows while it runs a script, and the effects that its commands are made of.
-/
import Verdicts.Engine.Process
import Verdicts.Script.Command
import Verdicts.Script.Pattern
import Verdicts.Text.Decimal

namespace Verdicts.Script

/-- Where a file descriptor writes to. -/
inductive Target where
  | channel (channel : Channel)
  | file (path : Path)
  /-- Text that is collected to be used in the script. -/
  | buffer
  | nowhere
  deriving DecidableEq, Repr, Inhabited

/-- Where input comes from. -/
inductive Source where
  /-- The input of the process. -/
  | own
  | bytes (left : Bytes)
  deriving DecidableEq, Repr, Inhabited

/-- How a script goes on behind a command. -/
inductive Flow where
  | onward
  /-- Leave the shell. -/
  | leave
  /-- Leave a loop and some of those around it. -/
  | leaveLoop (outer : Nat)
  /-- Go on with the next round of a loop, or of one around it. -/
  | nextRound (outer : Nat)
  /-- Leave a function. -/
  | leaveFunction
  deriving DecidableEq, Repr, Inhabited

/-- A shell. -/
structure Shell where
  /-- The name that the script goes by. -/
  name : String := "sh"
  args : List String := []
  bindings : List (String × String) := []
  functions : List (String × Command) := []
  /-- The exit code of the last command. -/
  status : Nat := 0
  input : Source := .own
  targets : List (Nat × Target) := [(1, .channel .output), (2, .channel .diagnostics)]
  /-- The text collected so far. -/
  buffer : Bytes := []
  /-- What is run when a signal comes or the shell is left. -/
  traps : List (String × String) := []
  /-- The directory that paths are seen from, if it was changed. -/
  directory : Option Path := none
  /-- The process that was started last. -/
  lastChild : Option Nat := none
  /-- The variables that other programs see. -/
  exported : List String := []
  /-- The letters of the options that are on. -/
  options : List Char := []
  /-- How many loops are around the command at hand. -/
  loops : Nat := 0
  /-- Whether a failure of the command at hand is looked at. -/
  tested : Bool := false
  /-- The values that variables had before a function made them its own, newest first; none outside
  of functions. -/
  locals : Option (List (String × Option String)) := none
  deriving Repr, Inhabited

namespace Shell

/-- The number that the script takes for its process. -/
def processNumber : Nat := 4242

/-- The number of a process that was started. -/
def childNumber (child : Nat) : Nat := processNumber + 1 + child

/-- The process that was started of a number. -/
def child? (text : String) : Option Nat :=
  match Decimal.digits? text.toList with
  | some n => if processNumber < n then some (n - processNumber - 1) else none
  | none => none

/-- With an exit code. -/
def returning (s : Shell) (status : Nat) : Shell := { s with status }

/-- Give a variable a value. -/
def assign (s : Shell) (name value : String) : Shell :=
  { s with bindings := (name, value) :: s.bindings.filter (·.1 ≠ name) }

/-- Take a variable away. -/
def forget (s : Shell) (name : String) : Shell :=
  { s with bindings := s.bindings.filter (·.1 ≠ name) }

/-- Give a variable the value that it had. -/
def rebind (s : Shell) (name : String) : Option String → Shell
  | some value => s.assign name value
  | none => s.forget name

/-- Let other programs see a variable. -/
def expose (s : Shell) (name : String) : Shell := { s with exported := name :: s.exported }

/-- Whether an option is on. -/
def isOn (s : Shell) (letter : Char) : Bool := s.options.contains letter

/-- The options that have names. -/
def optionNames : List (String × Char) := [("errexit", 'e'), ("nounset", 'u'), ("xtrace", 'x'),
  ("noglob", 'f'), ("noexec", 'n'), ("verbose", 'v'), ("noclobber", 'C'), ("allexport", 'a')]

/-- Switch options on or off, and take what follows as arguments. -/
def configure (s : Shell) : List String → Shell
  | [] => s
  | "--" :: rest => { s with args := rest }
  | "-o" :: name :: rest => configure { s with options := (optionNames.lookup name).toList ++ s.options } rest
  | "+o" :: name :: rest =>
    configure { s with options := s.options.filter (some · ≠ optionNames.lookup name) } rest
  | arg :: rest =>
    match arg.toList with
    | '-' :: letters => configure { s with options := letters ++ s.options } rest
    | '+' :: letters => configure { s with options := s.options.filter (!letters.contains ·) } rest
    | _ => { s with args := arg :: rest }

/-- The shell of another script that is started from this one. -/
def offspring (s : Shell) (name : String) (args : List String) : Shell :=
  { s with
    name, args
    bindings := s.bindings.filter (s.exported.contains ·.1)
    functions := [], traps := [], options := [], loops := 0, tested := false, locals := none }

/-- Make a variable the own one of the function at hand. -/
def makeLocal (s : Shell) (name : String) : Shell :=
  { s with locals := s.locals.map ((name, s.bindings.lookup name) :: ·) }

/-- The shell that a function was called from, with the effects of the function. -/
def returned (before after : Shell) : Shell :=
  let s := (after.locals.getD []).foldl (fun s (name, value) => s.rebind name value) after
  { s with args := before.args, loops := before.loops, locals := before.locals }

/-- What stands between arguments that are put into one text. -/
def joiner (s : Shell) : String :=
  match s.bindings.lookup "IFS" with
  | some text => String.ofList (text.toList.take 1)
  | none => " "

/-- The value of a parameter. -/
def value? (s : Shell) (name : String) : Option String :=
  if name = "#" then some (Nat.repr s.args.length)
  else if name = "?" then some (Nat.repr s.status)
  else if name = "$" then some (Nat.repr processNumber)
  else if name = "0" then some s.name
  else if name = "!" then s.lastChild.map fun child => Nat.repr (childNumber child)
  else if name = "-" then some (String.ofList s.options)
  else if name = "@" then if s.args.isEmpty then none else some (String.intercalate " " s.args)
  else if name = "*" then if s.args.isEmpty then none else some (String.intercalate s.joiner s.args)
  else
    match Decimal.digits? name.toList with
    | some n => s.args[n - 1]?
    | none => s.bindings.lookup name

/-- The characters that split words. -/
def separators (s : Shell) : List Char :=
  match s.bindings.lookup "IFS" with
  | some text => text.toList
  | none => [' ', '\t', '\n']

/-- A path, seen from the directory of the shell. -/
def path (s : Shell) (p : Path) : Path :=
  match s.directory with
  | some directory => Path.join directory p
  | none => p

/-- Where a file descriptor writes to. -/
def target (s : Shell) (descriptor : Nat) : Target :=
  (s.targets.lookup descriptor).getD .nowhere

/-- Let a file descriptor write somewhere. -/
def withTarget (s : Shell) (descriptor : Nat) (target : Target) : Shell :=
  { s with targets := (descriptor, target) :: s.targets.filter (·.1 ≠ descriptor) }

end Shell

/-! ## Effects -/

/-- What a process does from a shell on. -/
abbrev Next := Shell → Process

/-- Add bytes at the end of a file. -/
def appendTo (path : Path) (bytes : Bytes) (files : Files) : Except FileError Files :=
  match files.read path with
  | .ok before => files.write path (before ++ bytes)
  | .error .notFound => files.write path bytes
  | .error e => .error e

/-- Write to a file descriptor. -/
def emit (descriptor : Nat) (bytes : Bytes) (s : Shell) (next : Next) : Process :=
  if bytes.isEmpty then next s
  else
    match s.target descriptor with
    | .channel channel => .write channel bytes fun _ => next s
    | .buffer => next { s with buffer := s.buffer ++ bytes }
    | .file path => .change (appendTo path bytes) fun _ => next s
    | .nowhere => next s

/-- Write a text to a file descriptor. -/
def emitText (descriptor : Nat) (text : String) (s : Shell) (next : Next) : Process :=
  emit descriptor (Utf8.encode text) s next

/-- Report a failure of a command. -/
def complain (text : String) (status : Nat) (s : Shell) (next : Next) : Process :=
  emitText 2 (text ++ "\n") s fun s => next (s.returning status)

/-- Report a failure of the shell itself. -/
def complainAsShell (text : String) (status : Nat) (s : Shell) (next : Next) : Process :=
  complain (s.name ++ ": 1: " ++ text) status s next

/-- Read all input up to its end. -/
def readAll (s : Shell) (next : Bytes → Next) : Process :=
  match s.input with
  | .bytes left => next left { s with input := .bytes [] }
  | .own => go (1 <<< 32) []
where
  /-- Read on; `taken` has been read, newest first. -/
  go : Nat → Bytes → Process
    | 0, _ => .spin
    | fuel + 1, taken => .read fun
      | some b => go fuel (b :: taken)
      | none => next taken.reverse s

/-- Read input up to the end of a line; also says whether the line has ended. -/
def readLine (s : Shell) (next : Bytes → Bool → Next) : Process :=
  match s.input with
  | .bytes left =>
    let line := left.takeWhile (· != 10)
    let rest := left.drop line.length
    next line (!rest.isEmpty) { s with input := .bytes (rest.drop 1) }
  | .own => go (1 <<< 32) []
where
  /-- Read on; `taken` has been read, newest first. -/
  go : Nat → Bytes → Process
    | 0, _ => .spin
    | fuel + 1, taken => .read fun
      | some b => if b = 10 then next taken.reverse true s else go fuel (b :: taken)
      | none => next taken.reverse false s

/-- What a path leads to. -/
def lookAt (path : Path) (s : Shell) (next : Except FileError Entry → Next) : Process :=
  .look (s.path path) fun found => next found s

/-- The wording of a file error, without its number. -/
def reasonText : FileError → String
  | .notFound => "No such file or directory"
  | .denied => "Permission denied"
  | .occupied => "File exists"
  | .notDirectory => "Not a directory"
  | .isDirectory => "Is a directory"

/-- Wait. -/
def pause (milliseconds : Nat) (s : Shell) (next : Next) : Process :=
  if milliseconds = 0 then next s else .pause milliseconds fun _ => next s

end Verdicts.Script
