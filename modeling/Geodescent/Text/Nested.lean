import Geodescent.Text.Aligned

/-!
Words in nested brackets, one pair for every axis of an array. Words of the last axis stand on one
line and wrap where the line would grow too long; parts of an outer axis stand on lines of their
own, with a blank line more for every axis between them. Long axes of large arrays show only their
two ends.
-/
namespace Geodescent.Text

/-- What stands between words before the blank, how long a line may grow and how far its
continuation is indented. -/
structure Layout where
  mark : String
  width : Nat
  indent : Nat
deriving DecidableEq

namespace Layout

def standard : Layout := ⟨"", 75, 1⟩

def listed : Layout := ⟨",", 74, 7⟩

def inner (l : Layout) : Layout := { l with width := l.width - 1, indent := l.indent + 1 }

end Layout

structure Axis where
  shown : Nat
  cut : Bool
deriving DecidableEq

def entryCount (shape : List Nat) : Nat := shape.foldl (· * ·) 1

def isLong (shape : List Nat) : Bool := 1000 < entryCount shape

/-- An axis of a long array that has more than six parts shows three at each end. -/
def axes (shape : List Nat) : List Axis :=
  shape.map fun n => if isLong shape && 6 < n then ⟨6, true⟩ else ⟨n, false⟩

def rows {β : Type} (size : Nat) : Nat → List β → List (List β)
  | 0, _ => []
  | count + 1, entries => entries.take size :: rows size count (entries.drop size)

def ends {β : Type} (parts : List β) : List β :=
  if 6 < parts.length then parts.take 3 ++ parts.drop (parts.length - 3) else parts

def corners {β : Type} : List Nat → List β → List β
  | [], entries => entries
  | n :: shape, entries =>
    (ends (rows (entryCount shape) n entries)).flatMap (corners shape)

def excerpt {β : Type} (shape : List Nat) (entries : List β) : List β :=
  if isLong shape then corners shape entries else entries

def withGap (cut : Bool) (parts : List String) : List String :=
  if cut then parts.take 3 ++ "..." :: parts.drop 3 else parts

structure Page where
  done : String
  line : String

def blanks (count : Nat) : String := String.ofList (List.replicate count ' ')

def trimSpaces (text : String) : String :=
  String.ofList (text.toList.reverse.dropWhile (· == ' ')).reverse

/-- Add a word, on a new line when it does not fit and the line already holds a word. -/
def Page.add (l : Layout) (page : Page) (word : String) : Page :=
  if l.width - 1 < page.line.length + word.length && l.indent < page.line.length then
    ⟨page.done ++ trimSpaces page.line ++ "\n", blanks l.indent ++ word⟩
  else ⟨page.done, page.line ++ word⟩

def Page.addMarked (l : Layout) (page : Page) (word : String) : Page :=
  let next := page.add l word
  { next with line := next.line ++ l.mark ++ " " }

def bracketed (l : Layout) (words : List String) : String :=
  match words.getLast? with
  | none => "[]"
  | some word =>
    let page := words.dropLast.foldl (Page.addMarked l) ⟨"", blanks l.indent⟩
    let last := page.add l word
    "[" ++ String.ofList ((last.done ++ last.line).toList.drop l.indent) ++ "]"

def between (l : Layout) (depth : Nat) : String :=
  l.mark ++ String.ofList (List.replicate depth '\n') ++ blanks l.indent

def nested (l : Layout) : List Axis → List String → String
  | [], words => "".intercalate words
  | [axis], words => bracketed l (withGap axis.cut words)
  | axis :: rest, words =>
    let size := entryCount (rest.map Axis.shown)
    let parts := (rows size axis.shown words).map (nested l.inner rest)
    "[" ++ (between l rest.length).intercalate (withGap axis.cut parts) ++ "]"

def arranged (l : Layout) (shape : List Nat) (words : List String) : String :=
  if entryCount shape = 0 then "[]" else nested l (axes shape) words

end Geodescent.Text
