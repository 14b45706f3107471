/-
Versions of an engine: three numbers of 64 bits, perhaps with pre-release and build identifiers. A
version is read strictly where one is configured, and loosely where an engine announces itself.
-/
import Verdicts.Text.Blank
import Verdicts.Text.Decimal

namespace Verdicts

/-- Identifiers that are joined by dots. -/
abbrev Identifiers := List (List Char)

/-- A version. -/
structure Version where
  major : Nat
  minor : Nat
  patch : Nat
  /-- Identifiers of a pre-release; none for a release. -/
  preRelease : Identifiers := []
  /-- Identifiers of a build. -/
  build : Identifiers := []
  deriving DecidableEq, Repr, Inhabited

namespace Version

/-! ## Text -/

/-- Split a text at each character that `isSeparator` picks out; the parts may be empty. -/
def splitBy (isSeparator : Char → Bool) : List Char → List (List Char)
  | [] => [[]]
  | c :: rest =>
    match splitBy isSeparator rest with
    | [] => [[c]]
    | word :: words => if isSeparator c then [] :: word :: words else (c :: word) :: words

/-- Identifiers behind a mark; nothing if there are none. -/
def suffix (mark : Char) (identifiers : Identifiers) : String :=
  if identifiers.isEmpty then ""
  else String.ofList (mark :: List.intercalate ['.'] identifiers)

/-- The text of a version. -/
def text (v : Version) : String :=
  String.intercalate "." [Nat.repr v.major, Nat.repr v.minor, Nat.repr v.patch]
    ++ suffix '-' v.preRelease ++ suffix '+' v.build

/-- A number in a version: digits without a zero in front, below 2^64. -/
def number? (digits : List Char) : Option Nat :=
  match digits with
  | '0' :: _ :: _ => none
  | _ => (Decimal.digits? digits).filter (· < Decimal.limit64)

/-- Whether a character may stand in an identifier. -/
def isIdentifierChar (c : Char) : Bool := c.isAlphanum || c == '-'

/-- Whether a text is made of digits only. -/
def isNumeric (identifier : List Char) : Bool := identifier.all Char.isDigit

/-- Identifiers joined by dots, none of them empty and each fulfilling `allowed`. -/
def identifiers? (allowed : List Char → Bool) (text : List Char) : Option Identifiers :=
  let parts := splitBy (· == '.') text
  if parts.all fun part => part ≠ [] && part.all isIdentifierChar && allowed part then some parts
  else none

/-- Whether an identifier is one of a pre-release: a number has no zero in front. -/
def isPreRelease (identifier : List Char) : Bool :=
  !isNumeric identifier || (number? identifier).isSome || identifier.head? ≠ some '0'

/-- A text up to the first `mark`, and what stands behind that if there is one. -/
def cut (mark : Char) (text : List Char) : List Char × Option (List Char) :=
  match text.dropWhile (· ≠ mark) with
  | [] => (text, none)
  | _ :: rest => (text.takeWhile (· ≠ mark), some rest)

/-- Identifiers that may be left out. -/
def identifiersBehind? (allowed : List Char → Bool) : Option (List Char) → Option Identifiers
  | none => some []
  | some text => identifiers? allowed text

/-- The version that a text denotes, which has to be written in full. -/
def parse? (text : String) : Option Version := do
  let (front, build) := cut '+' text.toList
  let (core, preRelease) := cut '-' front
  match splitBy (· == '.') core with
  | [major, minor, patch] =>
    some
      { major := ← number? major
        minor := ← number? minor
        patch := ← number? patch
        preRelease := ← identifiersBehind? isPreRelease preRelease
        build := ← identifiersBehind? (fun _ => true) build }
  | _ => none

/-! ## Announcements -/

/-- Whether a character separates the words of an announcement. -/
def separatesWords (c : Char) : Bool :=
  Text.isBlank c || c == ',' || c == '(' || c == ')'

/-- A number below 2^64 in an announcement. -/
def field? (digits : List Char) : Option Nat :=
  Decimal.unsigned? Decimal.limit64 digits

/-- The version that a word begins with: at least two fields of digits, dots between and around
them. A third field that is no number counts as zero, and what follows does not count. -/
def ofWord? (word : List Char) : Option Version :=
  let core := (word.dropWhile (· == 'v')).takeWhile fun c => c.isDigit || c == '.'
  match (splitBy (· == '.') core).filter (· ≠ []) with
  | major :: minor :: rest =>
    match field? major, field? minor with
    | some major, some minor => some ⟨major, minor, (rest.head?.bind field?).getD 0, [], []⟩
    | _, _ => none
  | _ => none

/-- The version of the first word of an announcement that begins with one. -/
def ofBanner? (banner : String) : Option Version :=
  (splitBy separatesWords banner.toList).findSome? ofWord?

/-! ## Order -/

/-- Compare texts by their characters. -/
def compareText (a b : List Char) : Ordering := compare (String.ofList a) (String.ofList b)

/-- Compare two lists item by item; the shorter of two that agree so far is the smaller. -/
def compareItems {α : Type} (compareItem : α → α → Ordering) : List α → List α → Ordering
  | [], [] => .eq
  | [], _ :: _ => .lt
  | _ :: _, [] => .gt
  | a :: as, b :: bs => (compareItem a b).then (compareItems compareItem as bs)

/-- Compare identifiers: numbers come before texts and are compared by `compareNumber`. -/
def compareIdentifier (compareNumber : List Char → List Char → Ordering) (a b : List Char) :
    Ordering :=
  match isNumeric a, isNumeric b with
  | false, true => .gt
  | true, false => .lt
  | false, false => compareText a b
  | true, true => compareNumber a b

/-- Compare runs of digits without zeros in front. -/
def compareDigits (a b : List Char) : Ordering :=
  (compare a.length b.length).then (compareText a b)

/-- Compare runs of digits by their value, and those of one value by the zeros in front. -/
def compareNumber (a b : List Char) : Ordering :=
  (compareDigits (a.dropWhile (· == '0')) (b.dropWhile (· == '0'))).then
    (compare a.length b.length)

/-- Compare the pre-release identifiers: a release comes behind every pre-release of it. -/
def comparePreRelease : Identifiers → Identifiers → Ordering
  | [], [] => .eq
  | [], _ :: _ => .gt
  | _ :: _, [] => .lt
  | a, b => compareItems (compareIdentifier compareDigits) a b

/-- Compare versions by their numbers, then as pre-releases, then by their builds. -/
def order (a b : Version) : Ordering :=
  (compare a.major b.major).then <| (compare a.minor b.minor).then <|
    (compare a.patch b.patch).then <| (comparePreRelease a.preRelease b.preRelease).then <|
      compareItems (compareIdentifier compareNumber) a.build b.build

/-- Whether a version is no older than `least`. -/
def atLeast (v least : Version) : Bool := (v.order least).isGE

end Version

end Verdicts
