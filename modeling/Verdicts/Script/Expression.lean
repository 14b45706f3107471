/-
Regular expressions of scripts, as far as they are made of characters, sets of characters and how
often these may come.
-/
import Verdicts.Script.Pattern

namespace Verdicts.Script

/-- How often a part of an expression may come. -/
inductive Repeat where
  | once
  | anyTimes
  | atLeastOnce
  | atMostOnce
  deriving DecidableEq, Repr, Inhabited

/-- A regular expression, and whether it has to match at the beginning and up to the end. -/
structure Expression where
  parts : List (PatternItem × Repeat)
  fromStart : Bool := false
  toEnd : Bool := false
  deriving Repr, Inhabited

namespace Expression

/-- How often the part in front of a mark may come. -/
def repeats (extended : Bool) (text : List Char) : Repeat × List Char :=
  match text with
  | '*' :: rest => (.anyTimes, rest)
  | '+' :: rest => if extended then (.atLeastOnce, rest) else (.once, text)
  | '?' :: rest => if extended then (.atMostOnce, rest) else (.once, text)
  | _ => (.once, text)

/-- The parts of an expression. -/
def ofText (extended : Bool) : Nat → List Char → List (PatternItem × Repeat)
  | 0, _ => []
  | _, [] => []
  | fuel + 1, text =>
    let (item, rest) : PatternItem × List Char := match text with
      | '.' :: rest => (.anyChar, rest)
      | '\\' :: 'n' :: rest => (.exactly '\n', rest)
      | '\\' :: 't' :: rest => (.exactly '\t', rest)
      | '\\' :: c :: rest => (.exactly c, rest)
      | '[' :: rest => (PatternItem.set? rest).getD (.exactly '[', rest)
      | c :: rest => (.exactly c, rest)
      | [] => (.anyChar, [])
    let (times, rest) := repeats extended rest
    (item, times) :: ofText extended fuel rest

/-- The expression that a text gives. -/
def parse (extended : Bool) (text : List Char) : Expression :=
  let (fromStart, text) := match text with
    | '^' :: rest => (true, rest)
    | _ => (false, text)
  let (toEnd, text) := match text.reverse with
    | '$' :: rest => (true, rest.reverse)
    | _ => (false, text)
  ⟨ofText extended (text.length + 1) text, fromStart, toEnd⟩

/-- The lengths of the fronts of a text that parts match. -/
def frontLengths : List (PatternItem × Repeat) → List Char → List Nat
  | [], _ => [0]
  | (item, times) :: rest, text =>
    let run := (text.takeWhile (PatternItem.accepts · item)).length
    let counts := match times with
      | .once => if run = 0 then [] else [1]
      | .anyTimes => List.range (run + 1)
      | .atLeastOnce => (List.range run).map (· + 1)
      | .atMostOnce => List.range (min run 1 + 1)
    counts.flatMap fun n => (frontLengths rest (text.drop n)).map (n + ·)

/-- The length of the longest match that begins in front of a text. -/
def matchLength? (e : Expression) (text : List Char) : Option Nat :=
  ((frontLengths e.parts text).filter fun n => !e.toEnd || n = text.length).max?

/-- Where the first match of a text begins, and how long it is. -/
def find? (e : Expression) (text : List Char) : Option (Nat × Nat) :=
  (if e.fromStart then [0] else List.range (text.length + 1)).findSome? fun start =>
    (e.matchLength? (text.drop start)).map (start, ·)

end Expression

/-- Whether a line holds what is searched for: a text as it is, or what an expression matches. -/
def lineMatches (fixed extended whole : Bool) (sought line : List Char) : Bool :=
  if fixed then
    if whole then sought == line
    else (List.range (line.length + 1)).any fun n => sought.isPrefixOf (line.drop n)
  else
    (if extended then sought.splitOn '|' else [sought]).any fun sought =>
      let e := Expression.parse extended sought
      (Expression.find? { e with fromStart := e.fromStart || whole, toEnd := e.toEnd || whole }
        line).isSome

end Verdicts.Script
