/-
Running a script: a command becomes a process. A command is given what comes behind it, so that a
shell that is left early leaves that out.
-/
import Verdicts.Script.Arithmetic
import Verdicts.Script.Reader
import Verdicts.Script.Utility

namespace Verdicts.Script

/-- What comes behind a command. -/
abbrev Behind := Flow → Shell → Process

/-! ## Fields -/

/-- The fields that a word has given so far. -/
structure Fields where
  finished : List (List Cell) := []
  /-- The field that more may be added to, if one was begun. -/
  current : Option (List Cell) := none
  deriving Repr, Inhabited

namespace Fields

/-- Add text that is not split. -/
def add (f : Fields) (text : List Char) (quoted : Bool) : Fields :=
  { f with current := some (f.current.getD [] ++ text.map (⟨·, quoted⟩)) }

/-- End the field that was begun. -/
def close (f : Fields) : Fields :=
  match f.current with
  | some field => ⟨f.finished ++ [field], none⟩
  | none => f

/-- Add text that is split at separators. -/
def addSplit (separators : List Char) (f : Fields) (text : List Char) : Fields :=
  text.foldl (fun f c => if separators.contains c then f.close else f.add [c] false) f

/-- Add text in quotes, or split it. -/
def addText (s : Shell) (quoted : Bool) (f : Fields) (text : String) : Fields :=
  if quoted then f.add text.toList true else f.addSplit s.separators text.toList

/-- Add several texts, each in a field of its own; the first and the last may be joined with what
stands around them. -/
def addEach (s : Shell) (quoted : Bool) : List String → Fields → Fields
  | [], f => f
  | [text], f => f.addText s quoted text
  | text :: rest, f => addEach s quoted rest (f.addText s quoted text).close

/-- All fields. -/
def all (f : Fields) : List (List Cell) := f.close.finished

end Fields

/-- The text of cells. -/
def cellText (cells : List Cell) : String := String.ofList (cells.map (·.char))

/-- Cells of fields that are not to be apart. -/
def joined (fields : List (List Cell)) : List Cell := fields.flatten

/-- Collected output as it is put into a word: without line feeds at its end. -/
def outputText (bytes : Bytes) : String :=
  String.ofList ((Utf8.lossy bytes).toList.reverse.dropWhile (· == '\n')).reverse

/-- The number that the value of a variable denotes; no value counts as zero. -/
def variableNumber (s : Shell) (name : String) : Int :=
  (Utility.number? ((s.value? name).getD "0")).getD 0

/-- Whether a parameter has no value. -/
def lacksValue (orEmpty : Bool) (value : Option String) : Bool :=
  match value with
  | none => true
  | some text => orEmpty && text.isEmpty

/-- What an edit makes of a value and a pattern. -/
def cutValue (edit : Edit) (cells : List Cell) (value : String) : String :=
  match edit with
  | .cutFront longest => String.ofList (cutFront longest (pattern cells) value.toList)
  | .cutBack longest => String.ofList (cutBack longest (pattern cells) value.toList)
  | _ => value

/-- Whether a word holds the output of a command. -/
def runsCommand (words : List Word) : Bool :=
  words.any (·.any fun | .command .. => true | _ => false)

/-- Signals by name. -/
def signalNumber? (name : String) : Option Nat :=
  let name := if name.startsWith "SIG" then name.toList.drop 3 else name.toList
  match Decimal.digits? name with
  | some n => some n
  | none => (ExitStatus.signalNames.find? (·.2 == "SIG" ++ String.ofList name)).map (·.1)

/-- The name of a signal by which traps are known. -/
def trapKey (name : String) : String :=
  if name = "EXIT" then "0"
  else
    match signalNumber? name with
    | some n => Nat.repr n
    | none => name

/-- The signal that the arguments of `kill` name, and to which processes it goes. -/
def killArgs (args : List String) : Nat × List String :=
  match args with
  | "-s" :: name :: rest => ((signalNumber? name).getD 15, rest)
  | first :: rest =>
    match first.toList with
    | '-' :: name => ((signalNumber? (String.ofList name)).getD 15, rest)
    | _ => (15, args)
  | [] => (15, [])

/-- The number of loops that `break` or `continue` names, less one; there are no more than the shell
is in. -/
def outerLoops (args : List String) (s : Shell) : Nat :=
  match args with
  | n :: _ => min (Decimal.value n.toList) s.loops - 1
  | [] => 0

/-- Assign the fields of a line to variables; the last takes all that is left. -/
def assignFields (separators : List Char) : List String → List Char → Shell → Shell
  | [], _, s => s
  | name :: rest, text, s =>
    let isSeparator (c : Char) : Bool := separators.contains c
    let text := text.dropWhile isSeparator
    match rest with
    | [] => s.assign name (String.ofList (text.reverse.dropWhile isSeparator).reverse)
    | _ =>
      let field := text.takeWhile (!isSeparator ·)
      assignFields separators rest (text.drop field.length) (s.assign name (String.ofList field))

/-- A line without its backslashes. -/
def withoutBackslashes : List Char → List Char
  | '\\' :: c :: rest => c :: withoutBackslashes rest
  | c :: rest => c :: withoutBackslashes rest
  | [] => []

/-- Read a line into variables. -/
def readVariables (args : List String) (s : Shell) (next : Next) : Process :=
  let raw := args.head? == some "-r"
  let names := if raw then args.drop 1 else args
  readLine s fun line ended s =>
    let text := (Utf8.lossy line).toList
    let text := if raw then text else withoutBackslashes text
    next ((assignFields s.separators names text s).returning (if ended then 0 else 1))

/-- Remember commands for signals, or forget them. -/
def setTraps (args : List String) (s : Shell) : Shell :=
  match args with
  | action :: names =>
    let keys := names.map trapKey
    let others := s.traps.filter (!keys.contains ·.1)
    { s with traps := if action = "-" then others else keys.map (·, action) ++ others }
  | [] => s

/-- Declare variables by words such as `name` or `name=value`: `declare` is done with each name before
its value is put in place. -/
def declareWords (declare : Shell → String → Shell) (args : List String) (s : Shell) : Shell :=
  args.foldl (fun s arg =>
    let text := arg.toList
    let name := String.ofList (text.takeWhile (· != '='))
    match text.dropWhile (· != '=') with
    | '=' :: value => (declare s name).assign name (String.ofList value)
    | _ => declare s name) s

/-- The number that the first argument of a command of the shell denotes, if that is one. -/
def count? (standard : Nat) : List String → Option Nat
  | [] => some standard
  | n :: _ => Decimal.digits? n.toList

/-- The commands of the shell itself. -/
def ownCommands : List String :=
  [".", ":", "[", "break", "cd", "command", "continue", "echo", "eval", "exec", "exit", "export",
    "false", "kill", "local", "printf", "pwd", "read", "readonly", "return", "set", "shift", "test",
    "trap", "true", "type", "ulimit", "umask", "unset", "wait"]

/-- Commands behind which assignments in front of them stay. -/
def keepingCommands : List String :=
  [".", ":", "break", "continue", "eval", "exit", "export", "readonly", "return", "set", "shift",
    "trap", "unset"]

/-- The commands that are programs and steer others. -/
def steeringPrograms : List String := ["sh", "env", "nohup"]

/-- What a name of a command stands for: itself, or the path of a program. -/
def meaning? (s : Shell) (name : String) : Option String :=
  if (s.functions.lookup name).isSome || ownCommands.contains name then some name
  else if (Utility.named.lookup name).isSome || steeringPrograms.contains name then
    some ("/usr/bin/" ++ name)
  else none

/-- Behind a command: after a failure that nothing looks at, the shell is left if it is told to be. -/
def checked (before : Shell) (next : Behind) : Behind := fun flow after =>
  match flow with
  | .onward =>
    next (if after.isOn 'e' && !before.tested && after.status ≠ 0 then .leave else .onward) after
  | flow => next flow after

/-- Whether a cell makes a word a pattern of names. -/
def isWild (cell : Cell) : Bool :=
  !cell.quoted && (cell.char == '*' || cell.char == '?' || cell.char == '[')

/-- The fields of words as texts. A field that is a pattern of names gives the names in its directory
that it matches, if there are any. -/
def filenames : List (List Cell) → List String → Shell → (List String → Shell → Process) → Process
  | [], texts, s, next => next texts s
  | field :: rest, texts, s, next =>
    let name := (field.reverse.takeWhile (·.char != '/')).reverse
    let front := field.take (field.length - name.length)
    let plain : Process := filenames rest (texts ++ [cellText field]) s next
    if !name.any isWild || front.any isWild then plain
    else
      .list (s.path (if front.isEmpty then "." else cellText front)) fun names =>
        let visible (n : String) := !n.startsWith "." || (name.head?.map (·.char)) == some '.'
        let found := names.filter fun n => visible n && PatternItem.matchesAll (pattern name) n.toList
        if found.isEmpty then plain
        else filenames rest (texts ++ found.map (cellText front ++ ·)) s next

/-- Close what a command was redirected to, and keep what it left of the input. -/
def restore (before : Shell) (changesInput : Bool) (after : Shell) : Shell :=
  { after with
    targets := before.targets
    input := if changesInput then before.input else after.input }

/-- A shell whose output is collected. -/
def collecting (s : Shell) : Shell := { s.withTarget 1 .buffer with buffer := [] }

/-! ## Commands -/

mutual

/-- Expand the pieces of a word. -/
def expand (split : Bool) : Nat → Word → Fields → Shell → (Fields → Shell → Process) → Process
  | 0, _, _, _, _ => .spin
  | _, [], f, s, next => next f s
  | fuel + 1, piece :: rest, f, s, next =>
    let onward (f : Fields) (s : Shell) : Process := expand split fuel rest f s next
    match piece with
    | .text value quoted => onward (f.add value quoted) s
    | .loose value => onward (if split then f.addSplit s.separators value else f.add value false) s
    | .command source quoted =>
      match parse? source with
      | none => complainAsShell "Syntax error" 2 s fun _ => .exit (.code 2)
      | some command =>
        exec fuel command (collecting s) fun _ inner =>
          onward (f.addText s (quoted || !split) (outputText inner.buffer))
            { s with status := inner.status, input := inner.input }
    | .arithmetic source quoted =>
      match (Expr.parse? source).bind fun e => e.eval (variableNumber s) [] with
      | none =>
        let fault := if (Expr.parse? source).isSome then "division by zero" else "expecting primary"
        complainAsShell s!"arithmetic expression: {fault}: \"{String.ofList source}\"" 2 s
          fun _ => .exit (.code 2)
      | some (n, changes) =>
        let s := changes.reverse.foldl (fun s (name, value) => s.assign name (Decimal.int value)) s
        onward (f.addText s (quoted || !split) (Decimal.int n)) s
    | .parameter name edit operand quoted =>
      let quoted := quoted || !split
      let value := s.value? name
      let add (text : String) : Process := onward (f.addText s quoted text) s
      let addValue : Process :=
        if split ∧ (name = "@" ∨ (name = "*" ∧ !quoted)) then onward (f.addEach s quoted s.args) s
        else if name = "PWD" ∧ value.isNone then
          .whereabouts fun path => onward (f.addText s quoted (s.directory.getD path)) s
        else if value.isNone && s.isOn 'u' && name ≠ "@" && name ≠ "*" then
          complainAsShell (name ++ ": parameter not set") 2 s fun _ => .exit (.code 2)
        else add (value.getD "")
      let addOperand : Process := expand split fuel operand f s onward
      match edit with
      | .plain => addValue
      | .length => add (Nat.repr (value.getD "").utf8ByteSize)
      | .otherwise orEmpty => if lacksValue orEmpty value then addOperand else addValue
      | .instead orEmpty => if lacksValue orEmpty value then add "" else addOperand
      | .assign orEmpty =>
        if lacksValue orEmpty value then
          expand false fuel operand {} s fun inner s =>
            let text := cellText (joined inner.all)
            let s := s.assign name text
            onward (f.addText s quoted text) s
        else addValue
      | .demand orEmpty =>
        if lacksValue orEmpty value then
          expand false fuel operand {} s fun inner s =>
            let text := cellText (joined inner.all)
            complainAsShell (name ++ ": " ++ if text.isEmpty then "parameter not set" else text) 2 s
              fun _ => .exit (.code 2)
        else addValue
      | edit =>
        expand false fuel operand {} s fun inner s =>
          onward (f.addText s quoted (cutValue edit (joined inner.all) (value.getD ""))) s

/-- Expand a word that is not split. -/
def expandWhole : Nat → Word → Shell → (List Cell → Shell → Process) → Process
  | 0, _, _, _ => .spin
  | fuel + 1, word, s, next =>
    expand false fuel word {} s fun f s => next (joined f.all) s

/-- Expand words that are split. -/
def expandAll : Nat → List Word → List String → Shell → (List String → Shell → Process) → Process
  | 0, _, _, _, _ => .spin
  | _, [], texts, s, next => next texts s
  | fuel + 1, word :: rest, texts, s, next =>
    expand true fuel word {} s fun f s =>
      filenames f.all texts s fun texts s => expandAll fuel rest texts s next

/-- Make assignments. -/
def assignAll : Nat → List (String × Word) → Shell → Next → Process
  | 0, _, _, _ => .spin
  | _, [], s, next => next s
  | fuel + 1, (name, word) :: rest, s, next =>
    expandWhole fuel word s fun cells s => assignAll fuel rest (s.assign name (cellText cells)) next

/-- Redirect file descriptors; also says whether that was possible. -/
def redirect : Nat → List Redirection → Shell → (Bool → Next) → Process
  | 0, _, _, _ => .spin
  | _, [], s, next => next true s
  | fuel + 1, r :: rest, s, next =>
    let onward (s : Shell) : Process := redirect fuel rest s next
    expandWhole fuel r.target s fun cells s =>
      let text := cellText cells
      let path := s.path text
      let toFile (edit : Files → Except FileError Files) : Process :=
        if text = "/dev/null" then onward (s.withTarget r.descriptor .nowhere)
        else if text = "/dev/stderr" then onward (s.withTarget r.descriptor (s.target 2))
        else if text = "/dev/stdout" then onward (s.withTarget r.descriptor (s.target 1))
        else .change edit fun
          | none => onward (s.withTarget r.descriptor (.file path))
          | some .notFound =>
            complainAsShell ("cannot create " ++ text ++ ": Directory nonexistent") 2 s (next false)
          | some e => complainAsShell ("cannot create " ++ text ++ ": " ++ reasonText e) 2 s (next false)
      match r.kind with
      | .write => toFile (·.write path [])
      | .append => toFile (appendTo path [])
      | .here => onward { s with input := .bytes (Utf8.encode text) }
      | .duplicate =>
        if text = "-" then
          if r.descriptor = 0 then onward { s with input := .bytes [] }
          else onward (s.withTarget r.descriptor .nowhere)
        else if r.descriptor = 0 then onward s
        else onward (s.withTarget r.descriptor (s.target (Decimal.value text.toList)))
      | .read =>
        lookAt text s fun found s =>
          match found with
          | .ok (.file bytes) => onward { s with input := .bytes bytes }
          | .ok _ => onward { s with input := .bytes [] }
          | .error e =>
            complainAsShell ("cannot open " ++ text ++ ": "
              ++ if e = .notFound then "No such file" else reasonText e) 2 s (next false)

/-- Run a command. -/
def exec : Nat → Command → Shell → Behind → Process
  | 0, _, _, _ => .spin
  | fuel + 1, command, s, next =>
    match command with
    | .nothing => next .onward s
    | .sequence first second =>
      exec fuel first s fun
        | .onward, s => exec fuel second s next
        | flow, s => next flow s
    | .both first second =>
      probe first fuel s fun
        | .onward, s => if s.status = 0 then exec fuel second s next else next .onward s
        | flow, s => next flow s
    | .either first second =>
      probe first fuel s fun
        | .onward, s => if s.status = 0 then next .onward s else exec fuel second s next
        | flow, s => next flow s
    | .negation inner =>
      probe inner fuel s fun
        | .onward, s => next .onward (s.returning (if s.status = 0 then 1 else 0))
        | flow, s => next flow s
    | .pipe first second =>
      exec fuel first (collecting s) fun _ producer =>
        exec fuel second { s with input := .bytes producer.buffer } fun _ consumer =>
          checked s next .onward { s with
            status := consumer.status, input := producer.input, buffer := consumer.buffer }
    | .background inner =>
      .fork (exec fuel inner { s with input := .bytes [], traps := [] } fun _ inner =>
          .exit (.code inner.status))
        fun child => next .onward { s with status := 0, lastChild := some child }
    | .branch condition body otherwise =>
      probe condition fuel s fun
        | .onward, s =>
          if s.status = 0 then exec fuel body s next
          else exec fuel otherwise (s.returning 0) next
        | flow, s => next flow s
    | .loop untilSuccess condition body =>
      rounds untilSuccess condition body 0 fuel { s with loops := s.loops + 1 } fun flow after =>
        next flow { after with loops := s.loops }
    | .each name words body =>
      let running (texts : List String) (s : Shell) : Process :=
        roundsOf name texts body 0 fuel { s with loops := s.loops + 1 } fun flow after =>
          next flow { after with loops := s.loops }
      match words with
      | none => running s.args s
      | some words => expandAll fuel words [] s running
    | .choice word branches =>
      expandWhole fuel word s fun cells s =>
        choose (cells.map (·.char)) branches fuel s next
    | .subshell inner =>
      exec fuel inner { s with traps := [] } fun _ after =>
        checked s next .onward
          { s with status := after.status, input := after.input, buffer := after.buffer }
    | .redirected inner rs =>
      redirect fuel rs s fun ok inside =>
        if ok then
          exec fuel inner inside fun flow after =>
            next flow (restore s (rs.any (·.descriptor = 0)) after)
        else next .onward (restore s true inside)
    | .function name body => next .onward { s with functions := (name, body) :: s.functions, status := 0 }
    | .simple assignments words rs =>
      let next := checked s next
      expandAll fuel words [] s fun texts s =>
        match texts with
        | [] =>
          let status := if runsCommand words || assignments.any fun a => runsCommand [a.2] then none
            else some 0
          assignAll fuel assignments s fun s =>
            redirect fuel rs s fun ok inside =>
              next .onward
                { s with status := if ok then status.getD inside.status else inside.status }
        | name :: args =>
          (if s.isOn 'x' then emitText 2 ("+ " ++ String.intercalate " " texts ++ "\n") s else (· s))
            fun s =>
              redirect fuel rs s fun ok inside =>
                if !ok then next .onward (restore s true inside)
                else if name = "exec" ∧ args.isEmpty then next .onward (inside.returning 0)
                else
                  let changesInput := rs.any (·.descriptor = 0)
                  let given := assignments.map (·.1)
                  assignAll fuel assignments inside fun inside =>
                    let forget (after : Shell) : Shell :=
                      if keepingCommands.contains name then after
                      else given.foldl (fun after name => after.rebind name (s.bindings.lookup name))
                        { after with exported := after.exported.drop (given.length) }
                    let visible := { inside with exported := given ++ inside.exported }
                    invoke name args fuel (if given.isEmpty then inside else visible)
                      fun flow after =>
                        next flow (restore s changesInput (if given.isEmpty then after else forget after))

/-- Run a command whose failure is looked at. -/
def probe (command : Command) : Nat → Shell → Behind → Process
  | 0, _, _ => .spin
  | fuel + 1, s, next =>
    exec fuel command { s with tested := true } fun flow after =>
      next flow { after with tested := s.tested }

/-- Run a command by its name. -/
def invoke (name : String) (args : List String) : Nat → Shell → Behind → Process
  | 0, _, _ => .spin
  | fuel + 1, s, next =>
    let onward (s : Shell) : Process := next .onward s
    let fail (text : String) : Process := complainAsShell text 2 s fun s => next .leave s
    match s.functions.lookup name with
    | some body =>
      exec fuel body { s with args, loops := 0, locals := some [] } fun flow after =>
        match flow with
        | .leaveFunction => next .onward (s.returned after)
        | flow => next flow (s.returned after)
    | none =>
      match name with
      | "exit" =>
        match count? s.status args with
        | some n => next .leave (s.returning (n % 256))
        | none => fail ("exit: Illegal number: " ++ args.head?.getD "")
      | "return" =>
        match count? s.status args with
        | some n => next .leaveFunction (s.returning (n % 256))
        | none => fail ("return: Illegal number: " ++ args.head?.getD "")
      | "break" =>
        if s.loops = 0 then onward (s.returning 0)
        else next (.leaveLoop (outerLoops args s)) (s.returning 0)
      | "continue" =>
        if s.loops = 0 then onward (s.returning 0)
        else next (.nextRound (outerLoops args s)) (s.returning 0)
      | "read" => readVariables args s onward
      | "shift" =>
        match count? 1 args with
        | some n =>
          if n ≤ s.args.length then onward { s with args := s.args.drop n, status := 0 }
          else fail "shift: can't shift that many"
        | none => fail ("shift: Illegal number: " ++ args.head?.getD "")
      | "set" => onward ((s.configure args).returning 0)
      | "export" => onward ((declareWords Shell.expose args s).returning 0)
      | "readonly" => onward ((declareWords (fun s _ => s) args s).returning 0)
      | "local" =>
        if s.locals.isNone then fail "local: not in a function"
        else onward ((declareWords Shell.makeLocal args s).returning 0)
      | "unset" =>
        let names := args.filter fun a => !(a.startsWith "-")
        onward ((names.foldl Shell.forget
          { s with functions := s.functions.filter (!names.contains ·.1) }).returning 0)
      | "trap" => onward ((setTraps args s).returning 0)
      | "pwd" => .whereabouts fun path =>
          emitText 1 (s.directory.getD path ++ "\n") s fun s => onward (s.returning 0)
      | "." =>
        let path := args.head?.getD ""
        lookAt path s fun found s =>
          match found with
          | .ok (.file bytes) =>
            match parse? (Utf8.lossy bytes).toList with
            | some command => exec fuel command s fun flow after =>
                next (if flow = .leaveFunction then .onward else flow) after
            | none => complainAsShell "Syntax error" 2 s fun s => next .leave s
          | _ => fail (".: cannot open " ++ path ++ ": No such file")
      | "cd" =>
        lookAt (args.head?.getD ".") s fun found s =>
          match found with
          | .ok .directory => onward { s with directory := some (s.path (args.head?.getD ".")), status := 0 }
          | _ => complainAsShell ("cd: can't cd to " ++ args.head?.getD "") 2 s onward
      | "eval" =>
        match parse? (String.intercalate " " args).toList with
        | some command => exec fuel command s next
        | none => complainAsShell "Syntax error" 2 s fun s => next .leave s
      | "exec" =>
        match args with
        | name :: args =>
          if (meaning? { s with functions := [] } name).isSome then
            invoke name args fuel { s with functions := [] } fun _ s =>
              next .leave { s with traps := [] }
          else complainAsShell ("exec: " ++ name ++ ": not found") 127 s fun s => next .leave s
        | [] => onward s
      | "command" =>
        match args with
        | "-v" :: name :: _ =>
          match meaning? s name with
          | some text => emitText 1 (text ++ "\n") s fun s => onward (s.returning 0)
          | none => onward (s.returning 127)
        | name :: args => invoke name args fuel { s with functions := [] } fun flow after =>
            next flow { after with functions := s.functions }
        | [] => onward s
      | "type" =>
        let told (name : String) : String :=
          match meaning? s name with
          | some text =>
            if text ≠ name then name ++ " is " ++ text
            else if ownCommands.contains name then name ++ " is a shell builtin"
            else name ++ " is a shell function"
          | none => name ++ ": not found"
        emitText 1 (String.join (args.map (told · ++ "\n"))) s fun s =>
          onward (s.returning (if args.all fun name => (meaning? s name).isSome then 0 else 127))
      | "env" =>
        let given := args.takeWhile (·.toList.contains '=')
        match args.drop given.length with
        | name :: args => invoke name args fuel (declareWords Shell.expose given s) fun flow after =>
            next flow { after with bindings := s.bindings, exported := s.exported }
        | [] => onward s
      | "nohup" =>
        match args with
        | name :: args => invoke name args fuel s next
        | [] => onward s
      | "sh" =>
        match args with
        | "-c" :: source :: rest =>
          match parse? source.toList with
          | some command =>
            exec fuel command (s.offspring (rest.head?.getD "sh") (rest.drop 1)) fun _ after =>
              onward { s with status := after.status, input := after.input, buffer := after.buffer }
          | none => complainAsShell "Syntax error" 2 s onward
        | file :: rest =>
          lookAt file s fun found s =>
            match found with
            | .ok (.file bytes) =>
              match parse? (Utf8.lossy bytes).toList with
              | some command => exec fuel command (s.offspring file rest) fun _ after =>
                  onward { s with status := after.status, input := after.input, buffer := after.buffer }
              | none => complainAsShell "Syntax error" 2 s onward
            | _ => complain ("sh: 0: cannot open " ++ file ++ ": No such file") 2 s onward
        | [] => onward s
      | "wait" =>
        match args with
        | [] => .join none fun _ => onward (s.returning 0)
        | id :: _ =>
          match Shell.child? id with
          | none => onward (s.returning 127)
          | some child => .join (some child) fun
              | some (.code n) => onward (s.returning n.toNat)
              | some (.signal n) => onward (s.returning (128 + n))
              | none => onward (s.returning 127)
      | "kill" =>
        let (signal, ids) := killArgs args
        if !ids.contains (Nat.repr Shell.processNumber) then
          match (ids.findSome? Shell.child?).filter fun child => s.lastChild.any (child ≤ ·) with
          | some child =>
            if signal = 0 then onward (s.returning 0)
            else .halt child signal fun _ => onward (s.returning 0)
          | none => complainAsShell "kill: No such process\n" 1 s onward
        else if signal = 0 then onward (s.returning 0)
        else
          match if signal = 9 then none else s.traps.lookup (Nat.repr signal) with
          | none => .exit (.signal signal)
          | some action =>
            match parse? action.toList with
            | some command => exec fuel command s next
            | none => onward s
      | name =>
        match Utility.named.lookup name with
        | some utility => utility args s onward
        | none => complainAsShell (name ++ ": not found") 127 s onward

/-- The rounds of a loop. `last` is the exit code of the last round. -/
def rounds (untilSuccess : Bool) (condition body : Command) (last : Nat) : Nat → Shell → Behind → Process
  | 0, _, _ => .spin
  | fuel + 1, s, next =>
    probe condition fuel s fun
      | .onward, s =>
        if (s.status = 0) = untilSuccess then next .onward (s.returning last)
        else
          exec fuel body s fun
            | .onward, s => rounds untilSuccess condition body s.status fuel s next
            | .nextRound 0, s => rounds untilSuccess condition body s.status fuel s next
            | .nextRound (outer + 1), s => next (.nextRound outer) s
            | .leaveLoop 0, s => next .onward s
            | .leaveLoop (outer + 1), s => next (.leaveLoop outer) s
            | flow, s => next flow s
      | .leaveLoop 0, s => next .onward s
      | flow, s => next flow s

/-- The rounds of a loop over texts. -/
def roundsOf (name : String) (texts : List String) (body : Command) (last : Nat) :
    Nat → Shell → Behind → Process
  | 0, _, _ => .spin
  | fuel + 1, s, next =>
    match texts with
    | [] => next .onward (s.returning last)
    | text :: rest =>
      exec fuel body (s.assign name text) fun
        | .onward, s => roundsOf name rest body s.status fuel s next
        | .nextRound 0, s => roundsOf name rest body s.status fuel s next
        | .nextRound (outer + 1), s => next (.nextRound outer) s
        | .leaveLoop 0, s => next .onward s
        | .leaveLoop (outer + 1), s => next (.leaveLoop outer) s
        | flow, s => next flow s

/-- The first branch that a text belongs to. -/
def choose (text : List Char) (branches : List (List Word × Command)) : Nat → Shell → Behind → Process
  | 0, _, _ => .spin
  | fuel + 1, s, next =>
    match branches with
    | [] => next .onward (s.returning 0)
    | (words, body) :: rest =>
      anyMatches text words fuel s fun found s =>
        if found then exec fuel body s next else choose text rest fuel s next

/-- Whether a text is matched by any of some patterns. -/
def anyMatches (text : List Char) (words : List Word) : Nat → Shell → (Bool → Next) → Process
  | 0, _, _ => .spin
  | fuel + 1, s, next =>
    match words with
    | [] => next false s
    | word :: rest =>
      expandWhole fuel word s fun cells s =>
        if PatternItem.matchesAll (pattern cells) text then next true s
        else anyMatches text rest fuel s next

end

/-- How many rounds of loops and levels of nesting a script may go through without an end in sight. -/
def roundLimit : Nat := 100000

/-- Leave a shell: run what was to be run then, and end the process. -/
def leave (s : Shell) : Process :=
  match (s.traps.lookup "0").bind fun action => parse? action.toList with
  | some command => exec roundLimit command { s with traps := [] } fun flow after =>
      .exit (.code (if flow = .leave then after.status else s.status))
  | none => .exit (.code s.status)

/-- The process that runs a script under a name with arguments. -/
def process (source name : String) (args : List String) : Process :=
  match parse? source.toList with
  | some command => exec roundLimit command { name, args } fun _ s => leave s
  | none => complainAsShell "Syntax error" 2 { name, args } fun _ => .exit (.code 2)

/-- A shell as a program: it runs the script that stands behind the option for it, or in a file. -/
def shell : Process.Program := fun args =>
  match args with
  | "-c" :: source :: name :: rest => process source name rest
  | ["-c", source] => process source "sh" []
  | file :: rest =>
    .look file fun
      | .ok (.file bytes) => process (Utf8.lossy bytes) file rest
      | _ => complain ("sh: 0: cannot open " ++ file ++ ": No such file") 2 {} fun _ => .exit (.code 2)
  | [] => .exit (.code 0)

/-- A command of scripts as a program. -/
def ofUtility (utility : Utility) : Process.Program := fun args =>
  utility args {} fun s => .exit (.code s.status)

/-- The programs that scripts need, by their names. -/
def programs : List (String × Process.Program) :=
  ("sh", shell) :: Utility.named.map fun (name, utility) => (name, ofUtility utility)

end Verdicts.Script
