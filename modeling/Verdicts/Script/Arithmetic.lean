/-
Arithmetic expressions of a shell script over integers.
-/
import Verdicts.Text.Decimal

namespace Verdicts.Script

/-- An operator between two operands. -/
inductive Operator where
  | or | and | bitOr | bitXor | bitAnd | equal | unequal | less | atMost | greater | atLeast
  | left | right | plus | minus | times | divide | modulo
  deriving DecidableEq, Repr, Inhabited

/-- An expression. -/
inductive Expr where
  | number (value : Int)
  | variable (name : String)
  | negative (e : Expr)
  | complement (e : Expr)
  | not (e : Expr)
  | binary (op : Operator) (a b : Expr)
  | choice (condition a b : Expr)
  /-- Give a variable a value, which may combine the old one with another. -/
  | assign (name : String) (op : Option Operator) (e : Expr)
  deriving Repr, Inhabited

namespace Expr

/-- The operators with their spellings and how tightly they bind; a spelling comes before those that
begin like it. -/
def operators : List (List Char × Nat × Operator) :=
  [(['|', '|'], 1, .or), (['&', '&'], 2, .and), (['=', '='], 6, .equal), (['!', '='], 6, .unequal),
    (['<', '<'], 8, .left), (['>', '>'], 8, .right), (['<', '='], 7, .atMost),
    (['>', '='], 7, .atLeast), (['<'], 7, .less), (['>'], 7, .greater), (['|'], 3, .bitOr),
    (['^'], 4, .bitXor), (['&'], 5, .bitAnd), (['+'], 9, .plus), (['-'], 9, .minus),
    (['*'], 10, .times), (['/'], 10, .divide), (['%'], 10, .modulo)]

/-- Whether a character is a blank. -/
def isBlank (c : Char) : Bool := c == ' ' || c == '\t' || c == '\n'

/-- The operator that a text begins with. -/
def operator? (text : List Char) : Option (Nat × Operator × List Char) :=
  operators.findSome? fun (spelling, level, op) =>
    (spelling.isPrefixOf? text).map fun rest => (level, op, rest)

/-- Whether a character may begin a name. -/
def beginsName (c : Char) : Bool := c.isAlpha || c == '_'

/-- Whether a character may stand in a name. -/
def isNameChar (c : Char) : Bool := c.isAlphanum || c == '_'

/-- The operator that an assignment combines with, and what stands behind it. -/
def assignment? (text : List Char) : Option (Option Operator × List Char) :=
  match text with
  | '=' :: '=' :: _ => none
  | '=' :: rest => some (none, rest)
  | '+' :: '=' :: rest => some (some .plus, rest)
  | '-' :: '=' :: rest => some (some .minus, rest)
  | '*' :: '=' :: rest => some (some .times, rest)
  | '/' :: '=' :: rest => some (some .divide, rest)
  | '%' :: '=' :: rest => some (some .modulo, rest)
  | _ => none

/-- The value of a hexadecimal digit. -/
def hexDigit? (c : Char) : Option Nat :=
  if c.isDigit then some (c.toNat - 48)
  else if 'a' ≤ c ∧ c ≤ 'f' then some (c.toNat - 87)
  else if 'A' ≤ c ∧ c ≤ 'F' then some (c.toNat - 55)
  else none

/-- The number that a text begins with: decimal, octal behind a zero, hexadecimal behind `0x`. -/
def leadingNumber (text : List Char) : Int × List Char :=
  match text with
  | '0' :: 'x' :: rest =>
    ((rest.takeWhile fun c => (hexDigit? c).isSome).foldl
      (fun n c => n * 16 + (hexDigit? c).getD 0) (0 : Nat),
      rest.dropWhile fun c => (hexDigit? c).isSome)
  | '0' :: rest =>
    ((rest.takeWhile Char.isDigit).foldl (fun n c => n * 8 + (c.toNat - 48)) (0 : Nat),
      rest.dropWhile Char.isDigit)
  | _ => (Decimal.value (text.takeWhile Char.isDigit), text.dropWhile Char.isDigit)

mutual

/-- An expression with a choice or an assignment at most. -/
def full : Nat → List Char → Option (Expr × List Char)
  | 0, _ => none
  | fuel + 1, text => do
    let (condition, rest) ← climb 1 fuel text
    match rest.dropWhile isBlank with
    | '?' :: rest =>
      let (a, rest) ← full fuel rest
      match rest.dropWhile isBlank with
      | ':' :: rest =>
        let (b, rest) ← full fuel rest
        return (.choice condition a b, rest)
      | _ => none
    | rest => return (condition, rest)

/-- An expression of operators that bind at least as tightly as `level`. -/
def climb (level : Nat) : Nat → List Char → Option (Expr × List Char)
  | 0, _ => none
  | fuel + 1, text => do
    let (first, rest) ← operand fuel text
    climbRest level first fuel rest

/-- What follows an operand. -/
def climbRest (level : Nat) (first : Expr) : Nat → List Char → Option (Expr × List Char)
  | 0, _ => none
  | fuel + 1, text => do
    let text := text.dropWhile isBlank
    match operator? text with
    | some (found, op, rest) =>
      if level ≤ found then
        let (second, rest) ← climb (found + 1) fuel rest
        climbRest level (.binary op first second) fuel rest
      else return (first, text)
    | none => return (first, text)

/-- An operand: a number, a variable, an assignment, or an expression in brackets. -/
def operand : Nat → List Char → Option (Expr × List Char)
  | 0, _ => none
  | fuel + 1, text =>
    match text.dropWhile isBlank with
    | '(' :: rest => do
      let (e, rest) ← full fuel rest
      match rest.dropWhile isBlank with
      | ')' :: rest => return (e, rest)
      | _ => none
    | '-' :: rest => do
      let (e, rest) ← operand fuel rest
      return (.negative e, rest)
    | '+' :: rest => operand fuel rest
    | '!' :: rest => do
      let (e, rest) ← operand fuel rest
      return (.not e, rest)
    | '~' :: rest => do
      let (e, rest) ← operand fuel rest
      return (.complement e, rest)
    | '$' :: '\x7b' :: rest =>
      match rest.dropWhile (· != '\x7d') with
      | _ :: behind => some (.variable (String.ofList (rest.takeWhile (· != '\x7d'))), behind)
      | [] => none
    | '$' :: c :: rest =>
      if beginsName c then
        some (.variable (String.ofList ((c :: rest).takeWhile isNameChar)),
          (c :: rest).dropWhile isNameChar)
      else some (.variable (String.ofList [c]), rest)
    | c :: rest =>
      if c.isDigit then
        let (n, rest) := leadingNumber (c :: rest)
        some (.number n, rest)
      else if beginsName c then
        let name := String.ofList ((c :: rest).takeWhile isNameChar)
        let rest := ((c :: rest).dropWhile isNameChar).dropWhile isBlank
        match assignment? rest with
        | some (op, rest) => do
          let (e, rest) ← full fuel rest
          return (.assign name op e, rest)
        | none => some (.variable name, rest)
      else none
    | [] => none

end

/-- The expression that a text gives; an empty one counts as zero. -/
def parse? (text : List Char) : Option Expr :=
  if text.all isBlank then some (.number 0)
  else
    match full (8 * text.length + 16) text with
    | some (e, rest) => if rest.all isBlank then some e else none
    | none => none

/-- Zero or one. -/
def truth (b : Bool) : Int := if b then 1 else 0

/-- The number of 64 bits with a sign that agrees with a number modulo 2^64. -/
def word (n : Int) : Int := n.bmod (1 <<< 64)

/-- A word of 64 bits made of the bits of two. -/
def bitwise (f : UInt64 → UInt64 → UInt64) (a b : Int) : Int :=
  (Int64.ofUInt64 (f (Int64.ofInt a).toUInt64 (Int64.ofInt b).toUInt64)).toInt

/-- The value of an operation; none for a division by zero. -/
def outcome? (op : Operator) (a b : Int) : Option Int :=
  match op with
  | .or => some (truth (a ≠ 0 || b ≠ 0))
  | .and => some (truth (a ≠ 0 && b ≠ 0))
  | .bitOr => some (bitwise (· ||| ·) a b)
  | .bitXor => some (bitwise (· ^^^ ·) a b)
  | .bitAnd => some (bitwise (· &&& ·) a b)
  | .equal => some (truth (a = b))
  | .unequal => some (truth (a ≠ b))
  | .less => some (truth (a < b))
  | .atMost => some (truth (a ≤ b))
  | .greater => some (truth (b < a))
  | .atLeast => some (truth (b ≤ a))
  | .left => some (word (a * Nat.pow 2 (b.toNat % 64)))
  | .right => some (a.fdiv (Nat.pow 2 (b.toNat % 64)))
  | .plus => some (word (a + b))
  | .minus => some (word (a - b))
  | .times => some (word (a * b))
  | .divide => if b = 0 then none else some (word (a.tdiv b))
  | .modulo => if b = 0 then none else some (a.tmod b)

/-- The values of variables. -/
abbrev Variables := List (String × Int)

/-- The value of an expression, and the values that it gives to variables, the latest first. -/
def eval (lookup : String → Int) : Expr → Variables → Option (Int × Variables)
  | .number n, changes => some (n, changes)
  | .variable name, changes => some ((changes.lookup name).getD (lookup name), changes)
  | .negative e, changes => do
    let (n, changes) ← eval lookup e changes
    return (-n, changes)
  | .complement e, changes => do
    let (n, changes) ← eval lookup e changes
    return (-n - 1, changes)
  | .not e, changes => do
    let (n, changes) ← eval lookup e changes
    return (truth (n = 0), changes)
  | .binary op a b, changes => do
    let (x, changes) ← eval lookup a changes
    let (y, changes) ← eval lookup b changes
    return (← outcome? op x y, changes)
  | .choice condition a b, changes => do
    let (n, changes) ← eval lookup condition changes
    if n ≠ 0 then eval lookup a changes else eval lookup b changes
  | .assign name op e, changes => do
    let (n, changes) ← eval lookup e changes
    let old := (changes.lookup name).getD (lookup name)
    let value ← match op with
      | none => some n
      | some op => outcome? op old n
    return (value, (name, value) :: changes)

end Expr

end Verdicts.Script
