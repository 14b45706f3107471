/-
The commands that a script may use beside those that steer the shell.
-/
import Verdicts.Script.Editing
import Verdicts.Script.Format
import Verdicts.Script.Shell

namespace Verdicts.Script

/-- A command: what it does with its arguments. -/
abbrev Utility := List String → Shell → Next → Process

namespace Utility

/-- Finish with an exit code. -/
def finish (status : Nat) : Utility := fun _ s next => next (s.returning status)

/-! ## Files -/

/-- The name of a file in a message, in quotes if it would not be seen clearly. -/
def shownName (name : String) : String :=
  if name.isEmpty ∨ name.toList.any fun c => !(c.isAlphanum || "/._-+,:@%=".toList.contains c) then
    "'" ++ name ++ "'"
  else name

/-- Report that a command cannot use a file. -/
def cannotUse (command : String) (file : String) (e : FileError) (s : Shell) (next : Next) : Process :=
  complain (command ++ ": " ++ shownName file ++ ": " ++ reasonText e) 1 s next

/-- The bytes that a name gives: a file, or all input for a dash. -/
def withInput (command : String) (name : String) (s : Shell) (next : Option Bytes → Next) : Process :=
  if name = "-" ∨ name = "/dev/stdin" then readAll s fun bytes s => next (some bytes) s
  else lookAt name s fun found s =>
    match found with
    | .ok (.file bytes) => next (some bytes) s
    | .ok .sink => next (some []) s
    | .ok .directory => cannotUse command name .isDirectory s (next none)
    | .error e => cannotUse command name e s (next none)

/-- The bytes that several names give, each with its name; a name that gives none makes the command
fail. -/
def withInputs (command : String) (next : List (String × Bytes) → Bool → Next) :
    List String → List (String × Bytes) → Bool → Shell → Process
  | [], taken, ok, s => next taken ok s
  | name :: rest, taken, ok, s => withInput command name s fun found s =>
    match found with
    | some bytes => withInputs command next rest (taken ++ [(name, bytes)]) ok s
    | none => withInputs command next rest taken false s

/-- The names of the files that a command reads; without any it reads its input. -/
def sources (names : List String) : List String := if names.isEmpty then ["-"] else names

/-- A command that writes what it makes of the files that it reads. -/
def filter (command : String) (f : Bytes → Bytes) : Utility := fun names s next =>
  withInputs command (fun inputs ok s =>
    emit 1 (f (inputs.flatMap (·.2))) s fun s => next (s.returning (if ok then 0 else 1)))
    (sources names) [] true s

/-- Write files one behind the other. A file that cannot be read does not keep the others back. -/
def cat : Utility := fun args s next => go (sources (args.filter (· ≠ "-u"))) true s next
where
  go : List String → Bool → Shell → Next → Process
    | [], ok, s, next => next (s.returning (if ok then 0 else 1))
    | name :: rest, ok, s, next => withInput "cat" name s fun found s =>
      match found with
      | some bytes => emit 1 bytes s fun s => go rest ok s next
      | none => go rest false s next

/-- A count from an option such as `-n 3`, `-n3` or `-3`; also says whether it counts bytes. -/
def countOption : List String → Option (Bool × String × List String)
  | "-n" :: n :: rest => some (false, n, rest)
  | "-c" :: n :: rest => some (true, n, rest)
  | arg :: rest =>
    match arg.toList with
    | '-' :: 'n' :: c :: n => some (false, String.ofList (c :: n), rest)
    | '-' :: 'c' :: c :: n => some (true, String.ofList (c :: n), rest)
    | '-' :: c :: n => if c.isDigit then some (false, String.ofList (c :: n), rest) else none
    | _ => none
  | [] => none

/-- The beginning of files, or what is left without their end. -/
def head : Utility := fun args =>
  let (bytes, n, names) := (countOption args).getD (false, "10", args)
  let (fromEnd, digits) := match n.toList with
    | '-' :: digits => (true, digits)
    | digits => (false, digits)
  let n := Decimal.value digits
  if bytes ∧ names = ["/dev/zero"] then fun s next =>
    emit 1 (List.replicate n 0) s fun s => next (s.returning 0)
  else
    filter "head" (fun text =>
      let ls := lines text
      if bytes then text.take (if fromEnd then text.length - n else n)
      else (ls.take (if fromEnd then ls.length - n else n)).flatten) names

/-- The end of files, or what is left behind their beginning. -/
def tail : Utility := fun args =>
  let (bytes, n, names) := (countOption args).getD (false, "10", args)
  let (fromFront, digits) := match n.toList with
    | '+' :: digits => (true, digits)
    | digits => (false, digits)
  let n := Decimal.value digits
  filter "tail" (fun text =>
    if bytes then text.drop (if fromFront then n - 1 else text.length - n)
    else
      let ls := lines text
      (ls.drop (if fromFront then n - 1 else ls.length - n)).flatten) names

/-- How many words there are. -/
def wordCount (inside : Bool) : Bytes → Nat
  | [] => 0
  | b :: rest =>
    if b = 32 ∨ (9 ≤ b ∧ b ≤ 13) then wordCount false rest
    else (if inside then 0 else 1) + wordCount true rest

/-- Count lines, words and bytes. -/
def wc : Utility := fun args s next =>
  let options := args.filter fun a => a.startsWith "-" && a ≠ "-"
  let names := args.filter fun a => !(a.startsWith "-" && a ≠ "-")
  let asked (c : Char) := options.any (·.toList.contains c)
  let all := options.isEmpty
  withInputs "wc" (fun inputs ok s =>
    let widest := (Nat.repr ((inputs.map fun (_, text) => text.length).foldr (· + ·) 0)).length
    let shown := inputs.map fun (name, text) =>
      let counts := (if all || asked 'l' then [text.count 10] else [])
        ++ (if all || asked 'w' then [wordCount false text] else [])
        ++ (if all || asked 'c' then [text.length] else [])
      let width := if counts.length = 1 then 1 else if names.isEmpty then 7 else widest
      let numbers := counts.map fun n =>
        String.ofList (List.replicate (width - (Nat.repr n).length) ' ') ++ Nat.repr n
      String.intercalate " " numbers ++ (if name = "-" then "" else " " ++ name) ++ "\n"
    emitText 1 (String.join shown) s fun s => next (s.returning (if ok then 0 else 1)))
    (sources names) [] true s

/-- The characters of a set as `tr` writes it. -/
def charSet : Nat → List Char → List Char
  | 0, _ => []
  | _, [] => []
  | fuel + 1, '\\' :: 'n' :: rest => '\n' :: charSet fuel rest
  | fuel + 1, '\\' :: 't' :: rest => '\t' :: charSet fuel rest
  | fuel + 1, '\\' :: '\\' :: rest => '\\' :: charSet fuel rest
  | fuel + 1, '\\' :: '0' :: rest => '\x00' :: charSet fuel rest
  | fuel + 1, low :: '-' :: high :: rest =>
    (List.range (high.toNat + 1 - low.toNat)).map (fun i => Char.ofNat (low.toNat + i))
      ++ charSet fuel rest
  | fuel + 1, c :: rest => c :: charSet fuel rest

/-- Replace or delete characters. -/
def tr : Utility := fun args s next =>
  let set (text : String) := charSet (text.length + 1) text.toList
  let change (f : List Char → List Char) : Process :=
    filter "tr" (fun bytes => Utf8.encode (String.ofList (f (Utf8.lossy bytes).toList))) [] s next
  match args with
  | ["-d", a] => change (·.filter (!(set a).contains ·))
  | ["-s", a] => change fun text => text.foldr (fun c rest =>
      if rest.head? = some c && (set a).contains c then rest else c :: rest) []
  | [a, b] => change (·.map fun c =>
      match (set a).idxOf? c with
      | some i => (set b)[i]?.getD ((set b).getLast?.getD c)
      | none => c)
  | _ => complain "tr: missing operand" 1 s next

/-- Write input to the output and to files. -/
def tee : Utility := fun args s next =>
  readAll s fun bytes s => emit 1 bytes s fun s =>
    .change (fun files => args.foldlM (fun files name => files.write (s.path name) bytes) files)
      fun failure => next (s.returning (if failure.isNone then 0 else 1))

/-- Change a file for each of some names; names that begin with a dash are options. `purpose` says what
could not be done to a file. -/
def eachFile (purpose : String) (edit : Path → Files → Except FileError Files) : Utility :=
  fun args s next => go (args.filter fun a => !(a.startsWith "-")) true s next
where
  go : List String → Bool → Shell → Next → Process
    | [], ok, s, next => next (s.returning (if ok then 0 else 1))
    | name :: rest, ok, s, next => .change (edit (s.path name)) fun
      | none => go rest ok s next
      | some e => complain (purpose ++ " '" ++ name ++ "': " ++ reasonText e) 1 s fun s =>
          go rest false s next

/-- Make sure that files exist. -/
def touch : Utility := eachFile "touch: cannot touch" fun path files =>
  if files.hasPath path then .ok files else files.write path []

/-- Remove files. -/
def rm : Utility := fun args =>
  let asked (c : Char) := args.any fun a => a.startsWith "-" && a.toList.contains c
  eachFile "rm: cannot remove" (fun path files =>
    match files.find path with
    | .ok .directory =>
      if asked 'r' || asked 'R' then .ok (files.removeTree path) else .error .isDirectory
    | .ok _ => .ok (files.remove path)
    | .error e => if asked 'f' then .ok files else .error e) args

/-- Make directories, and with an option for it those on the way to them. -/
def mkdir : Utility := fun args =>
  let parents := args.any fun a => a.startsWith "-" && a.toList.contains 'p'
  eachFile "mkdir: cannot create directory" (fun path files =>
    let place := Path.place files.workingDirectory path
    match files.at? place, files.at? place.dropLast with
    | some .directory, _ => if parents then .ok files else .error .occupied
    | some _, _ => .error .occupied
    | none, some .directory => .ok (files.makeDirectory place)
    | none, _ => if parents then .ok (files.makeDirectory place) else .error .notFound) args

/-- Copy or move a file; into a directory it goes under its own name. -/
def copy (command : String) (keep : Bool) : Utility := fun args s next =>
  match args.filter fun a => !(a.startsWith "-") with
  | [source, target] => .change (fun files => do
      let content ← files.read (s.path source)
      let target := match files.find (s.path target) with
        | .ok .directory => Path.join (s.path target) (Path.name source)
        | _ => s.path target
      let files ← files.write target content
      return if keep then files else files.remove (s.path source)) fun
    | none => next (s.returning 0)
    | some e => complain (command ++ ": cannot stat '" ++ source ++ "': " ++ reasonText e) 1 s next
  | _ => complain (command ++ ": missing file operand") 1 s next

/-- Write the names in directories, or names of files. -/
def ls : Utility := fun args s next =>
  let hidden := args.any fun a => a.startsWith "-" && (a.toList.contains 'a' || a.toList.contains 'A')
  go hidden (match args.filter fun a => !(a.startsWith "-") with | [] => ["."] | names => names) true s next
where
  go (hidden : Bool) : List String → Bool → Shell → Next → Process
    | [], ok, s, next => next (s.returning (if ok then 0 else 2))
    | name :: rest, ok, s, next => lookAt name s fun found s =>
      match found with
      | .ok .directory => .list (s.path name) fun names =>
          let shown := names.filter fun n => hidden || !n.startsWith "."
          emitText 1 (String.join (shown.map (· ++ "\n"))) s fun s => go hidden rest ok s next
      | .ok _ => emitText 1 (name ++ "\n") s fun s => go hidden rest ok s next
      | .error e => complain ("ls: cannot access '" ++ name ++ "': " ++ reasonText e) 2 s fun s =>
          go hidden rest false s next

/-! ## Text -/

/-- Write the arguments. -/
def echo : Utility := fun args s next =>
  emit 1 (Script.echo args) s fun s => next (s.returning 0)

/-- Write the arguments in a format. -/
def printf : Utility := fun args s next =>
  match if args.head? == some "--" then args.drop 1 else args with
  | [] => complainAsShell "printf: usage: printf format [arg ...]" 2 s next
  | format :: rest =>
    let f := Script.printf format rest
    emit 1 f.bytes s fun s =>
      match f.complaints with
      | [] => next (s.returning 0)
      | complaints => complainAsShell
          (String.intercalate ("\n" ++ s.name ++ ": 1: ") (complaints.map ("printf: " ++ ·)))
          (if f.broken then 2 else 1) s next

/-- A number as an argument. -/
def intArg (text : String) : Int :=
  match text.toList with
  | '-' :: digits => -(Decimal.value digits)
  | digits => Decimal.value digits

/-- Write a sequence of numbers. -/
def seq : Utility := fun args s next =>
  let (first, step, last) : Int × Int × Int := match args with
    | [last] => (1, 1, intArg last)
    | [first, last] => (intArg first, 1, intArg last)
    | [first, step, last] => (intArg first, intArg step, intArg last)
    | _ => (1, 1, 0)
  let count := if step = 0 then 0 else ((last - first).fdiv step + 1).toNat
  let numbers := (List.range count).map fun (i : Nat) => Decimal.int (first + step * (i : Int)) ++ "\n"
  emitText 1 (String.join numbers) s fun s => next (s.returning 0)

/-- Write the last component of a path, without an ending if it has that. -/
def basename : Utility := fun args s next =>
  let name := (Path.components (args.head?.getD "")).getLast?.getD "/"
  let ending := args[1]?.getD ""
  let name := if ending ≠ "" && name ≠ ending && name.endsWith ending then
      String.ofList (name.toList.take (name.length - ending.length)) else name
  emitText 1 (name ++ "\n") s fun s => next (s.returning 0)

/-- Write the path of the directory of a path. -/
def dirname : Utility := fun args s next =>
  let parent := (Path.parent? (args.head?.getD "")).getD "."
  emitText 1 ((if parent.isEmpty then "." else parent) ++ "\n") s fun s => next (s.returning 0)

/-! ## Searching and editing -/

/-- Search for lines. -/
def grep : Utility := fun args s next =>
  let options := (args.takeWhile fun a => a.startsWith "-" && a.length > 1).flatMap (·.toList.drop 1)
  let args := args.dropWhile fun a => a.startsWith "-" && a.length > 1
  let asked (c : Char) := options.contains c
  match args with
  | [] => complain "Usage: grep [OPTION]... PATTERNS [FILE]..." 2 s next
  | sought :: names =>
    let lower (text : List Char) := if asked 'i' then text.map Char.toLower else text
    withInputs "grep" (fun inputs ok s =>
      let found := inputs.flatMap fun (name, text) =>
        ((lines text).zipIdx.filter fun (line, _) =>
          let shown := (Utf8.lossy (line.filter (· != 10))).toList
          asked 'v' != lineMatches (asked 'F') (asked 'E') (asked 'x') (lower sought.toList)
            (lower shown)).map fun (line, i) =>
              (if names.length > 1 && !asked 'h' then Utf8.encode (name ++ ":") else [])
                ++ (if asked 'n' then Utf8.encode (Nat.repr (i + 1) ++ ":") else [])
                ++ line.filter (· != 10) ++ [10]
      let status := if !ok then 2 else if found.isEmpty then 1 else 0
      let output := if asked 'q' then []
        else if asked 'c' then Utf8.encode (Nat.repr found.length ++ "\n")
        else found.flatten
      emit 1 output s fun s => next (s.returning status)) (sources names) [] true s

/-- The values of an option such as `-e x` or `-ex`, and the arguments without them. -/
def optionValues (letter : Char) : List String → List String × List String
  | [] => ([], [])
  | [arg] =>
    match arg.toList with
    | '-' :: c :: d :: value => if c = letter then ([String.ofList (d :: value)], []) else ([], [arg])
    | _ => ([], [arg])
  | arg :: value :: rest =>
    if arg.toList = ['-', letter] then
      let (values, others) := optionValues letter rest
      (value :: values, others)
    else
      let (values, others) := optionValues letter (value :: rest)
      match arg.toList with
      | '-' :: c :: d :: text =>
        if c = letter then (String.ofList (d :: text) :: values, others) else (values, arg :: others)
      | _ => (values, arg :: others)

/-- Edit lines. -/
def sed : Utility := fun args s next =>
  let (scripts, others) := optionValues 'e' args
  let plain := others.filter fun a => !(["-n", "-E", "-r"].contains a)
  let (scripts, names) := if scripts.isEmpty then (plain.take 1, plain.drop 1) else (scripts, plain)
  let extended := others.contains "-E" || others.contains "-r"
  match Editing.script? extended (String.intercalate "\n" scripts).toList with
  | none => complain "sed: -e expression #1, char 1: unknown command" 1 s next
  | some commands => filter "sed" (Editing.edit (others.contains "-n") commands) names s next

/-- Write some of the fields or characters of lines. -/
def cut : Utility := fun args s next =>
  let (delimiters, args) := optionValues 'd' args
  let (fields, args) := optionValues 'f' args
  let (chars, names) := optionValues 'c' args
  let mark := ((delimiters.head?.getD "\t").toList.head?).getD '\t'
  let line (text : List Char) : List Char :=
    match fields, chars with
    | which :: _, _ => Editing.cutFields mark (Editing.places which.toList) text
    | [], which :: _ => Editing.pick (Editing.places which.toList) text
    | [], [] => text
  filter "cut" (fun text => (lines text).flatMap (Editing.onLine line)) names s next

/-- Write lines in order. -/
def sort : Utility := fun args =>
  let asked (c : Char) := args.any fun a => a.startsWith "-" && a.toList.contains c
  filter "sort" (fun text =>
    let ordered := Editing.sortLines (asked 'n') ((lines text).map fun l => l.filter (· ≠ 10))
    let chosen := if asked 'u' then ordered.eraseDups else ordered
    ((if asked 'r' then chosen.reverse else chosen).map (· ++ [10])).flatten)
    (args.filter fun a => !(a.startsWith "-"))

/-- Compute with two operands. -/
def expr : Utility := fun args s next =>
  let tell (text : String) (ok : Bool) : Process :=
    emitText 1 (text ++ "\n") s fun s => next (s.returning (if ok then 0 else 1))
  let number (n : Int) : Process := tell (Decimal.int n) (n ≠ 0)
  match args with
  | [text] => tell text (!text.isEmpty && text ≠ "0")
  | [a, op, b] =>
    let x := (integerArg a).1
    let y := (integerArg b).1
    match op with
    | "+" => number (x + y)
    | "-" => number (x - y)
    | "*" => number (x * y)
    | "/" => number (x.tdiv y)
    | "%" => number (x.tmod y)
    | "=" => number (if a = b then 1 else 0)
    | "!=" => number (if a = b then 0 else 1)
    | "<" => number (if x < y then 1 else 0)
    | ">" => number (if y < x then 1 else 0)
    | _ => complain "expr: syntax error" 2 s next
  | _ => complain "expr: syntax error" 2 s next

/-! ## Conditions -/

/-- What a condition on a file asks. -/
def fileCondition? (op : String) (found : Except FileError Entry) : Option Bool :=
  match op with
  | "-e" => some found.toOption.isSome
  | "-f" => some (match found with | .ok (.file _) => true | _ => false)
  | "-d" => some (match found with | .ok .directory => true | _ => false)
  | "-s" => some (match found with | .ok (.file bytes) => !bytes.isEmpty | .ok .directory => true | _ => false)
  | "-r" => some found.toOption.isSome
  | "-w" => some found.toOption.isSome
  | "-x" => some (match found with | .ok .directory => true | _ => false)
  | _ => none

/-- Whether an operator is one on a file. -/
def asksFile (op : String) : Bool := ["-e", "-f", "-d", "-s", "-r", "-w", "-x"].contains op

/-- A number in a condition. -/
def number? (text : String) : Option Int :=
  match text.toList with
  | '-' :: digits => (Decimal.digits? digits).map fun n => -(n : Int)
  | digits => (Decimal.unsigned? Decimal.limit64 digits).map Int.ofNat

/-- The operators between numbers. -/
def numberOperators : List String := ["-eq", "-ne", "-lt", "-le", "-gt", "-ge"]

/-- What a condition on two words says; none if it cannot be decided. -/
def compareWords? (a op b : String) : Option (Option Bool) :=
  let numbers (f : Int → Int → Bool) : Option (Option Bool) :=
    some (match number? a, number? b with
      | some x, some y => some (f x y)
      | _, _ => none)
  match op with
  | "=" => some (some (a == b))
  | "!=" => some (some (a != b))
  | "<" => some (some (a < b))
  | ">" => some (some (b < a))
  | "-eq" => numbers (· == ·)
  | "-ne" => numbers (· != ·)
  | "-lt" => numbers (· < ·)
  | "-le" => numbers (· ≤ ·)
  | "-gt" => numbers (· > ·)
  | "-ge" => numbers (· ≥ ·)
  | _ => none

/-- Decide a condition; none if it cannot be decided. -/
def condition : Nat → List String → Shell → (Option Bool → Next) → Process
  | 0, _, s, next => next none s
  | _, [], s, next => next (some false) s
  | _, [text], s, next => next (some (!text.isEmpty)) s
  | fuel + 1, args, s, next =>
    let negated (rest : List String) : Process :=
      condition fuel rest s fun answer s => next (answer.map (!·)) s
    match args with
    | [op, operand] =>
      if op = "!" then negated [operand]
      else if op = "-n" then next (some (!operand.isEmpty)) s
      else if op = "-z" then next (some operand.isEmpty) s
      else if op = "-t" then next (some false) s
      else if asksFile op then lookAt operand s fun found s => next (fileCondition? op found) s
      else next none s
    | [a, op, b] =>
      match compareWords? a op b with
      | some answer => next answer s
      | none =>
        if op = "-a" then next (some (!a.isEmpty && !b.isEmpty)) s
        else if op = "-o" then next (some (!a.isEmpty || !b.isEmpty)) s
        else if a = "!" then negated [op, b]
        else if a = "(" ∧ b = ")" then condition fuel [op] s next
        else next none s
    | args =>
      match args.idxOf? "-o" with
      | some i =>
        condition fuel (args.take i) s fun first s => condition fuel (args.drop (i + 1)) s
          fun second s => next (do return (← first) || (← second)) s
      | none =>
        match args.idxOf? "-a" with
        | some i =>
          condition fuel (args.take i) s fun first s => condition fuel (args.drop (i + 1)) s
            fun second s => next (do return (← first) && (← second)) s
        | none =>
          match args with
          | "!" :: rest => negated rest
          | _ => next none s

/-- Why a condition cannot be decided. -/
def conditionFault (args : List String) : String :=
  match args with
  | [a, op, b] =>
    if numberOperators.contains op then
      "Illegal number: " ++ if (number? a).isNone then a else b
    else a ++ ": unexpected operator"
  | a :: _ => a ++ ": unexpected operator"
  | [] => "unexpected operator"

/-- Succeed if a condition holds. -/
def decideFor (name : String) : Utility := fun args s next =>
  condition (args.length + 1) args s fun
    | some answer, s => next (s.returning (if answer then 0 else 1))
    | none, s => complainAsShell (name ++ ": " ++ conditionFault args) 2 s next

/-- Succeed if a condition holds. -/
def test : Utility := decideFor "test"

/-- `test` with a closing bracket. -/
def bracket : Utility := fun args s next =>
  match args.getLast? with
  | some "]" => decideFor "[" args.dropLast s next
  | _ => complainAsShell "[: missing ]" 2 s next

/-! ## Time -/

/-- The milliseconds that a text of seconds, minutes or hours denotes. -/
def milliseconds? (text : List Char) : Option Nat :=
  let (digits, unit) : List Char × Nat := match text.reverse with
    | 's' :: rest => (rest.reverse, 1)
    | 'm' :: rest => (rest.reverse, 60)
    | 'h' :: rest => (rest.reverse, 3600)
    | _ => (text, 1)
  let whole := digits.takeWhile (· != '.')
  let fraction := (digits.drop whole.length).drop 1
  if (whole ++ fraction).all Char.isDigit ∧ whole ++ fraction ≠ [] then
    some (Decimal.value (whole ++ fraction) * unit * 1000 / Nat.pow 10 fraction.length)
  else none

/-- Wait for a time. -/
def sleep : Utility := fun args s next =>
  match args.mapM fun a => milliseconds? a.toList with
  | some (n :: rest) => pause ((n :: rest).foldr (· + ·) 0) (s.returning 0) next
  | _ => complain "sleep: missing operand\nTry 'sleep --help' for more information." 1 s next

/-- The commands by name. -/
def named : List (String × Utility) :=
  [(":", finish 0), ("true", finish 0), ("false", finish 1), ("cat", cat), ("head", head),
    ("tail", tail), ("wc", wc), ("tr", tr), ("tee", tee), ("touch", touch), ("rm", rm),
    ("mkdir", mkdir), ("cp", copy "cp" true), ("mv", copy "mv" false), ("ls", ls), ("echo", echo),
    ("printf", printf), ("seq", seq), ("basename", basename), ("dirname", dirname), ("grep", grep),
    ("sed", sed), ("cut", cut), ("sort", sort), ("expr", expr),
    ("test", test), ("[", bracket), ("sleep", sleep), ("umask", finish 0), ("chmod", finish 0),
    ("sync", finish 0), ("ulimit", finish 0), ("alias", finish 0), ("hash", finish 0),
    ("times", finish 0), ("jobs", finish 0)]

end Utility

end Verdicts.Script
