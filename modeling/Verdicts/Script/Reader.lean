/-
Reading the text of a shell script. A script that is not well formed is refused as a whole.
-/
import Verdicts.Script.Command

namespace Verdicts.Script

/-- A reader of part of a script; the state is what has not been read. -/
abbrev Reading := StateT (List Char) Option

namespace Reading

/-- The next character, which is taken if it is the one asked for. -/
def accept (c : Char) : Reading Bool := do
  match ← get with
  | d :: rest => if c = d then set rest; return true else return false
  | [] => return false

/-- The next characters, which are taken if they are the ones asked for. -/
def acceptAll (text : List Char) : Reading Bool := do
  match text.isPrefixOf? (← get) with
  | some rest => set rest; return true
  | none => return false

/-- The characters up to the first that does not satisfy `allowed`. -/
def takeWhile (allowed : Char → Bool) : Reading (List Char) := do
  let text ← get
  set (text.dropWhile allowed)
  return text.takeWhile allowed

/-- Whether a character ends a word. -/
def endsWord (c : Char) : Bool :=
  c == ' ' || c == '\t' || c == '\n' || c == ';' || c == '&' || c == '|' || c == '<' || c == '>'
    || c == '(' || c == ')'

/-- Whether a character may begin the name of a parameter. -/
def beginsName (c : Char) : Bool := c.isAlpha || c == '_'

/-- Whether a character may stand in the name of a parameter. -/
def isNameChar (c : Char) : Bool := c.isAlphanum || c == '_'

/-- Whether a character is the whole name of a parameter. -/
def isSpecialName (c : Char) : Bool :=
  c == '@' || c == '*' || c == '#' || c == '?' || c == '$' || c == '!' || c == '-'

/-- The backquote. -/
def backquote : Char := '\x60'

/-! ## Words -/

/-- What stands in front of the closing bracket of an opening one that was taken, and what stands
behind it. Brackets in quotes do not count. `quote` is the quote that is open. -/
def balanced (quote : Option Char) (depth : Nat) : List Char → Option (List Char × List Char)
  | [] => none
  | '\\' :: c :: rest =>
    (balanced quote depth rest).map fun (inside, rest) => ('\\' :: c :: inside, rest)
  | c :: rest =>
    let go (quote : Option Char) (depth : Nat) :=
      (balanced quote depth rest).map fun (inside, rest) => (c :: inside, rest)
    match quote with
    | some q => go (if c = q then none else some q) depth
    | none =>
      if c = '\'' ∨ c = '\"' then go (some c) depth
      else if c = '(' then go none (depth + 1)
      else if c = ')' then
        match depth with
        | 0 => some ([], rest)
        | depth + 1 => go none depth
      else go none depth

/-- What stands between two backquotes, where a backslash hides a backquote, a dollar sign and a
backslash. -/
def backquoted : List Char → Option (List Char × List Char)
  | [] => none
  | '\\' :: c :: rest =>
    (backquoted rest).map fun (inside, rest) =>
      (if c = backquote ∨ c = '\\' ∨ c = '$' then c :: inside else '\\' :: c :: inside, rest)
  | c :: rest =>
    if c = backquote then some ([], rest)
    else (backquoted rest).map fun (inside, rest) => (c :: inside, rest)

/-- Put a character in front of a word. -/
def consChar (c : Char) (quoted : Bool) : Word → Word
  | .text value q :: rest =>
    if q = quoted then .text (c :: value) q :: rest else .text [c] quoted :: .text value q :: rest
  | word => .text [c] quoted :: word

/-- The name of a parameter in braces. -/
def parameterName : Reading String := do
  match ← get with
  | c :: rest =>
    if beginsName c then return String.ofList (← takeWhile isNameChar)
    else if c.isDigit then return String.ofList (← takeWhile Char.isDigit)
    else if isSpecialName c then set rest; return String.ofList [c]
    else failure
  | [] => failure

/-- What is to be made of the value of a parameter in braces. -/
def edit : Reading Edit := do
  match ← get with
  | '#' :: '#' :: rest => set rest; return .cutFront true
  | '#' :: rest => set rest; return .cutFront false
  | '%' :: '%' :: rest => set rest; return .cutBack true
  | '%' :: rest => set rest; return .cutBack false
  | ':' :: '-' :: rest => set rest; return .otherwise true
  | '-' :: rest => set rest; return .otherwise false
  | ':' :: '=' :: rest => set rest; return .assign true
  | '=' :: rest => set rest; return .assign false
  | ':' :: '+' :: rest => set rest; return .instead true
  | '+' :: rest => set rest; return .instead false
  | ':' :: '?' :: rest => set rest; return .demand true
  | '?' :: rest => set rest; return .demand false
  | _ => return .plain

/-- Whether an edit takes a pattern. -/
def takesPattern : Edit → Bool
  | .cutFront _ | .cutBack _ => true
  | _ => false

/-- Whether an edit puts a word in the place of a value. -/
def givesWords : Edit → Bool
  | .otherwise _ | .instead _ => true
  | _ => false

/-- A piece of a word that stands in the place of a value. -/
def loosened : Piece → Piece
  | .text value false => .loose value
  | piece => piece

/-- A word in quotes, without those inside. -/
def withoutQuotes (word : Word) : Word :=
  word.map fun
    | .text value true => .text (value.filter (· != '\"')) true
    | piece => piece

mutual

/-- The pieces of a word up to a character that `stop` picks out. -/
def pieces (stop : Char → Bool) (quoted : Bool) : Nat → Reading Word
  | 0 => failure
  | fuel + 1 => do
    match ← get with
    | [] => return []
    | c :: rest =>
      if stop c then return []
      set rest
      if c = '\\' then
        match rest with
        | '\n' :: rest =>
          set rest
          pieces stop quoted fuel
        | d :: rest =>
          if quoted ∧ ¬(d = '$' ∨ d = backquote ∨ d = '\"' ∨ d = '\\') then
            return consChar '\\' true (← pieces stop quoted fuel)
          else
            set rest
            return consChar d true (← pieces stop quoted fuel)
        | [] => return [.text ['\\'] true]
      else if c = '\'' ∧ ¬quoted then
        let body ← takeWhile (· != '\'')
        if ← accept '\'' then
          return .text body true :: (← pieces stop quoted fuel)
        else failure
      else if c = '\"' ∧ ¬quoted then
        let body ← pieces (· == '\"') true fuel
        if ← accept '\"' then
          let body := if body.isEmpty then [.text [] true] else body
          return body ++ (← pieces stop quoted fuel)
        else failure
      else if c = '$' then
        let piece ← dollar quoted fuel
        return piece :: (← pieces stop quoted fuel)
      else if c = backquote then
        match backquoted rest with
        | none => failure
        | some (inside, rest) =>
          set rest
          return .command inside quoted :: (← pieces stop quoted fuel)
      else return consChar c quoted (← pieces stop quoted fuel)

/-- What a dollar sign begins. -/
def dollar (quoted : Bool) : Nat → Reading Piece
  | 0 => failure
  | fuel + 1 => do
    match ← get with
    | '(' :: '(' :: rest =>
      match balanced none 1 rest with
      | some (inside, rest) =>
        set rest
        return .arithmetic inside.dropLast quoted
      | none => failure
    | '(' :: rest =>
      match balanced none 0 rest with
      | some (inside, rest) =>
        set rest
        return .command inside quoted
      | none => failure
    | '\x7b' :: '#' :: '\x7d' :: rest =>
      set rest
      return .parameter "#" .plain [] quoted
    | '\x7b' :: '#' :: rest =>
      set rest
      let name ← parameterName
      if ← accept '\x7d' then return .parameter name .length [] quoted else failure
    | '\x7b' :: rest =>
      set rest
      let name ← parameterName
      let edit ← edit
      let operand ← pieces (· == '\x7d') (quoted && !takesPattern edit) fuel
      let operand := if quoted then withoutQuotes operand
        else if givesWords edit then operand.map loosened else operand
      if ← accept '\x7d' then return .parameter name edit operand quoted else failure
    | c :: rest =>
      if beginsName c then
        return .parameter (String.ofList (← takeWhile isNameChar)) .plain [] quoted
      else if c.isDigit ∨ isSpecialName c then
        set rest
        return .parameter (String.ofList [c]) .plain [] quoted
      else return .text ['$'] true
    | [] => return .text ['$'] true

end

/-- A word. -/
def word (fuel : Nat) : Reading Word := pieces endsWord false fuel

/-! ## Between words -/

/-- Blanks, comments and hidden line breaks. -/
def blanks : Nat → Reading Unit
  | 0 => return
  | fuel + 1 => do
    match ← get with
    | ' ' :: rest => set rest; blanks fuel
    | '\t' :: rest => set rest; blanks fuel
    | '\\' :: '\n' :: rest => set rest; blanks fuel
    | '#' :: rest => set (rest.dropWhile (· != '\n'))
    | _ => return

/-- Blanks and line breaks. -/
def lineBreaks : Nat → Reading Unit
  | 0 => return
  | fuel + 1 => do
    blanks fuel
    if ← accept '\n' then lineBreaks fuel

/-- Words that end a list of commands where a command could begin. -/
def closingWords : List String := ["then", "else", "elif", "fi", "do", "done", "esac", "\x7d"]

/-- The characters of the next word, if nothing in it is special. -/
def plainWord : Reading String := do
  return String.ofList ((← get).takeWhile fun c =>
    !endsWord c && c != '\'' && c != '\"' && c != '$' && c != '\\' && c != backquote)

/-- A reserved word, which is taken if it comes next. -/
def reserved (name : String) (fuel : Nat) : Reading Bool := do
  blanks fuel
  let text ← get
  let run := text.takeWhile (!endsWord ·)
  if run = name.toList then
    set (text.drop run.length)
    return true
  else return false

/-- A reserved word, which has to come next. -/
def demand (name : String) (fuel : Nat) : Reading Unit := do
  lineBreaks fuel
  unless ← reserved name fuel do failure

/-- Whether a list of commands ends here. -/
def atEnd (fuel : Nat) : Reading Bool := do
  blanks fuel
  match ← get with
  | [] => return true
  | ')' :: _ => return true
  | ';' :: ';' :: _ => return true
  | text => return closingWords.contains (String.ofList (text.takeWhile (!endsWord ·)))

/-! ## Commands -/

/-- The lines of a text up to one that is as given, and what stands behind that. With `tabs` the lines
are without tabs at their front. A text that ends first counts as well. -/
def linesUntil (ending : List Char) (tabs : Bool) : Nat → List Char → List Char × List Char
  | 0, text => ([], text)
  | _, [] => ([], [])
  | fuel + 1, text =>
    let line := text.takeWhile (· != '\n')
    let rest := (text.drop line.length).drop 1
    let shown := if tabs then line.dropWhile (· == '\t') else line
    if shown = ending then ([], rest)
    else
      let (body, rest) := linesUntil ending tabs fuel rest
      (shown ++ '\n' :: body, rest)

/-- The text that the word behind two smaller signs announces. It stands on the lines behind the one
that is read, and is taken out of there. It is expanded unless the word is quoted. -/
def hereText (tabs : Bool) (fuel : Nat) : Reading Word := do
  blanks fuel
  let ending ← word fuel
  let isQuoted := ending.any fun | .text _ quoted => quoted | _ => false
  let endingText := ending.flatMap fun | .text value _ => value | _ => []
  let text ← get
  let line := text.takeWhile (· != '\n')
  let (body, rest) := linesUntil endingText tabs (text.length + 1) ((text.drop line.length).drop 1)
  set (line ++ '\n' :: rest)
  if isQuoted then return [.text body true]
  else
    match (pieces (fun _ => false) true fuel).run body with
    | some (inside, _) => return .text [] true :: inside
    | none => failure

/-- A redirection, if one begins here. -/
def redirection? (fuel : Nat) : Reading (Option Redirection) := do
  let text ← get
  let digits := text.takeWhile Char.isDigit
  let given (standard : Nat) : Nat :=
    if digits.isEmpty then standard else digits.foldl (fun n c => n * 10 + (c.toNat - 48)) 0
  let target (descriptor : Nat) (kind : RedirectionKind) (rest : List Char) :
      Reading (Option Redirection) := do
    set rest
    blanks fuel
    let target ← word fuel
    if target.isEmpty then failure
    return some ⟨descriptor, kind, target⟩
  match text.dropWhile Char.isDigit with
  | '>' :: '>' :: rest => target (given 1) .append rest
  | '>' :: '&' :: rest => target (given 1) .duplicate rest
  | '>' :: '|' :: rest => target (given 1) .write rest
  | '>' :: rest => target (given 1) .write rest
  | '<' :: '<' :: '-' :: rest =>
    set rest
    return some ⟨given 0, .here, ← hereText true fuel⟩
  | '<' :: '<' :: rest =>
    set rest
    return some ⟨given 0, .here, ← hereText false fuel⟩
  | '<' :: '&' :: rest => target (given 0) .duplicate rest
  | '<' :: rest => target (given 0) .read rest
  | _ => return none

/-- The redirections that stand here. -/
def redirections : Nat → Reading (List Redirection)
  | 0 => return []
  | fuel + 1 => do
    blanks fuel
    match ← redirection? fuel with
    | some r => return r :: (← redirections fuel)
    | none => return []

/-- An assignment, if a word is one. -/
def assignment? : Word → Option (String × Word)
  | .text value false :: rest =>
    match value with
    | c :: _ =>
      let name := value.takeWhile isNameChar
      match beginsName c, value.dropWhile isNameChar with
      | true, '=' :: front =>
        some (String.ofList name, if front.isEmpty then rest else .text front false :: rest)
      | _, _ => none
    | [] => none
  | _ => none

/-- The words, assignments and redirections of a simple command. -/
def simple (assignments : List (String × Word)) (words : List Word) (rs : List Redirection) :
    Nat → Reading Command
  | 0 => failure
  | fuel + 1 => do
    blanks fuel
    match ← redirection? fuel with
    | some r => simple assignments words (rs ++ [r]) fuel
    | none =>
      match ← get with
      | [] => return .simple assignments words rs
      | c :: _ =>
        if endsWord c then return .simple assignments words rs
        else
          let w ← word fuel
          match words, assignment? w with
          | [], some entry => simple (assignments ++ [entry]) words rs fuel
          | _, _ => simple assignments (words ++ [w]) rs fuel

/-- The words of a loop up to the end of the command. -/
def loopWords : Nat → Reading (List Word)
  | 0 => failure
  | fuel + 1 => do
    blanks fuel
    match ← get with
    | [] => return []
    | c :: _ =>
      if endsWord c then return []
      else
        let w ← word fuel
        return w :: (← loopWords fuel)

/-- The patterns of a branch up to the closing bracket. -/
def patterns : Nat → Reading (List Word)
  | 0 => failure
  | fuel + 1 => do
    blanks fuel
    let w ← word fuel
    blanks fuel
    if ← accept '|' then return w :: (← patterns fuel)
    else if ← accept ')' then return [w]
    else failure

/-- Skip one separator of commands, if there is one. -/
def separator (fuel : Nat) : Reading Unit := do
  blanks fuel
  match ← get with
  | ';' :: ';' :: _ => return
  | ';' :: rest => set rest
  | '\n' :: rest => set rest
  | _ => return

mutual

/-- Commands up to where their list ends. -/
def list : Nat → Reading Command
  | 0 => failure
  | fuel + 1 => do
    lineBreaks fuel
    if ← atEnd fuel then return .nothing
    let first ← chain fuel
    blanks fuel
    match ← get with
    | '&' :: rest =>
      set rest
      return .sequence (.background first) (← list fuel)
    | ';' :: ';' :: _ => return first
    | ';' :: rest =>
      set rest
      return .sequence first (← list fuel)
    | '\n' :: rest =>
      set rest
      return .sequence first (← list fuel)
    | _ => if ← atEnd fuel then return first else failure

/-- Pipelines that depend on each other's success. -/
def chain : Nat → Reading Command
  | 0 => failure
  | fuel + 1 => do
    let first ← pipeline fuel
    chainRest first fuel

/-- The pipelines behind the first. -/
def chainRest (first : Command) : Nat → Reading Command
  | 0 => failure
  | fuel + 1 => do
    blanks fuel
    if ← acceptAll ['&', '&'] then
      lineBreaks fuel
      let second ← pipeline fuel
      chainRest (.both first second) fuel
    else if ← acceptAll ['|', '|'] then
      lineBreaks fuel
      let second ← pipeline fuel
      chainRest (.either first second) fuel
    else return first

/-- Commands joined by pipes, perhaps negated. -/
def pipeline : Nat → Reading Command
  | 0 => failure
  | fuel + 1 => do
    if ← reserved "!" fuel then return .negation (← pipeline fuel)
    let first ← command fuel
    blanks fuel
    match ← get with
    | '|' :: '|' :: _ => return first
    | '|' :: rest =>
      set rest
      lineBreaks fuel
      return .pipe first (← pipeline fuel)
    | _ => return first

/-- A command with its redirections. -/
def command : Nat → Reading Command
  | 0 => failure
  | fuel + 1 => do
    blanks fuel
    let plain ← plainWord
    if plain = "if" ∨ plain = "while" ∨ plain = "until" ∨ plain = "for" ∨ plain = "case"
        ∨ plain = "\x7b" ∨ (← get).head? = some '(' then
      let inner ← compound fuel
      match ← redirections fuel with
      | [] => return inner
      | rs => return .redirected inner rs
    else
      let text ← get
      match text.drop plain.length with
      | '(' :: ')' :: rest =>
        if plain.isEmpty then failure
        set rest
        lineBreaks fuel
        return .function plain (← command fuel)
      | _ =>
        let c ← simple [] [] [] fuel
        match c with
        | .simple [] [] [] => failure
        | c => return c

/-- A command with commands inside. -/
def compound : Nat → Reading Command
  | 0 => failure
  | fuel + 1 => do
    if ← accept '(' then
      let inner ← list fuel
      lineBreaks fuel
      if ← accept ')' then return .subshell inner else failure
    else if ← reserved "\x7b" fuel then
      let inner ← list fuel
      demand "\x7d" fuel
      return inner
    else if ← reserved "if" fuel then branch fuel
    else if ← reserved "while" fuel then
      let condition ← list fuel
      demand "do" fuel
      let body ← list fuel
      demand "done" fuel
      return .loop false condition body
    else if ← reserved "until" fuel then
      let condition ← list fuel
      demand "do" fuel
      let body ← list fuel
      demand "done" fuel
      return .loop true condition body
    else if ← reserved "for" fuel then
      blanks fuel
      let name ← takeWhile isNameChar
      lineBreaks fuel
      let words ←
        if ← reserved "in" fuel then
          let words ← loopWords fuel
          pure (some words)
        else pure none
      separator fuel
      demand "do" fuel
      let body ← list fuel
      demand "done" fuel
      return .each (String.ofList name) words body
    else if ← reserved "case" fuel then
      blanks fuel
      let subject ← word fuel
      demand "in" fuel
      return .choice subject (← branches fuel)
    else failure

/-- The rest of a conditional behind its first word. -/
def branch : Nat → Reading Command
  | 0 => failure
  | fuel + 1 => do
    let condition ← list fuel
    demand "then" fuel
    let body ← list fuel
    lineBreaks fuel
    if ← reserved "elif" fuel then return .branch condition body (← branch fuel)
    else if ← reserved "else" fuel then
      let otherwise ← list fuel
      demand "fi" fuel
      return .branch condition body otherwise
    else
      demand "fi" fuel
      return .branch condition body .nothing

/-- The branches of a choice and its end. -/
def branches : Nat → Reading (List (List Word × Command))
  | 0 => failure
  | fuel + 1 => do
    lineBreaks fuel
    if ← reserved "esac" fuel then return []
    let _ ← accept '('
    let ps ← patterns fuel
    let body ← list fuel
    lineBreaks fuel
    if ← acceptAll [';', ';'] then return (ps, body) :: (← branches fuel)
    else
      demand "esac" fuel
      return [(ps, body)]

end

end Reading

/-- The command that a text gives. -/
def parse? (text : List Char) : Option Command :=
  match (Reading.list (16 * text.length + 64)).run text with
  | some (command, []) => some command
  | _ => none

end Verdicts.Script
