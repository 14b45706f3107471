/-
Commands of a shell script.
-/

namespace Verdicts.Script

/-- What is made of the value of a parameter before it is put in place. -/
inductive Edit where
  /-- The value as it is. -/
  | plain
  /-- How many characters it has. -/
  | length
  /-- Another word if there is no value; `orEmpty` counts an empty value as none. -/
  | otherwise (orEmpty : Bool)
  /-- The same, and the word becomes the value. -/
  | assign (orEmpty : Bool)
  /-- Another word if there is a value, and nothing if there is none. -/
  | instead (orEmpty : Bool)
  /-- The end of the script if there is no value. -/
  | demand (orEmpty : Bool)
  /-- The value without what a pattern matches at its front. -/
  | cutFront (longest : Bool)
  /-- The value without what a pattern matches at its end. -/
  | cutBack (longest : Bool)
  deriving DecidableEq, Repr, Inhabited

/-- A part of a word. Parts in quotes are not split. -/
inductive Piece where
  | text (value : List Char) (quoted : Bool)
  /-- Text that is split, since it stands in the place of a value. -/
  | loose (value : List Char)
  | parameter (name : String) (edit : Edit) (operand : List Piece) (quoted : Bool)
  /-- The output of another script. -/
  | command (source : List Char) (quoted : Bool)
  /-- The value of an arithmetic expression. -/
  | arithmetic (source : List Char) (quoted : Bool)
  deriving Repr, Inhabited

/-- A word before it is expanded. -/
abbrev Word := List Piece

/-- What is done to a file descriptor. -/
inductive RedirectionKind where
  | write
  | append
  | read
  /-- Take over another descriptor, or none. -/
  | duplicate
  /-- The word itself is the input. -/
  | here
  deriving DecidableEq, Repr, Inhabited

/-- A redirection of a file descriptor. -/
structure Redirection where
  descriptor : Nat
  kind : RedirectionKind
  target : Word
  deriving Repr, Inhabited

/-- A command. -/
inductive Command where
  | nothing
  | simple (assignments : List (String × Word)) (words : List Word)
      (redirections : List Redirection)
  | sequence (first second : Command)
  /-- The second only if the first succeeds. -/
  | both (first second : Command)
  /-- The second only if the first fails. -/
  | either (first second : Command)
  | negation (inner : Command)
  | pipe (first second : Command)
  | background (inner : Command)
  | branch (condition body otherwise : Command)
  /-- A body for as long as a condition succeeds, or fails. -/
  | loop (untilSuccess : Bool) (condition body : Command)
  /-- A body for each of some words, or for each argument. -/
  | each (name : String) (words : Option (List Word)) (body : Command)
  /-- The first branch with a pattern that a word matches. -/
  | choice (word : Word) (branches : List (List Word × Command))
  | subshell (inner : Command)
  | redirected (inner : Command) (redirections : List Redirection)
  | function (name : String) (body : Command)
  deriving Repr, Inhabited

end Verdicts.Script
