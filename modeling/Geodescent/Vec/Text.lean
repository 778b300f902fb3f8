import Geodescent.Text.Nested
import Geodescent.Vec

/-!
Arrays as text: the bare text, in which the entries stand between brackets, and the text that names
the kind of the entries as well.
-/
namespace Geodescent

namespace Entries
variable {α : Type} [Scalar α]

def words (places : Nat) (shape : List Nat) : Entries α → List String
  | .real xs => Text.numberWords places ((Text.excerpt shape xs).map Scalar.expansion)
  | .whole ns => Text.wholeWords (Text.excerpt shape ns)
  | .truth bs =>
    if shape.isEmpty then bs.map Text.truthWord else Text.truthWords (Text.excerpt shape bs)

def kindName : Entries α → String
  | .real _ => "float64"
  | .whole _ => "int64"
  | .truth _ => "bool"

end Entries

namespace Vec
variable {α : Type} [Scalar α]

def text (layout : Text.Layout) (places : Nat) (v : Vec α) : String :=
  Text.arranged layout v.shape (v.entries.words places v.shape)

def shapeText : List Nat → String
  | [n] => "(" ++ toString n ++ ",)"
  | shape => "(" ++ ", ".intercalate (shape.map toString) ++ ")"

def lastLine (text : String) : Nat := (text.toList.reverse.takeWhile (· != '\n')).length

/-- The text of an array with the kind of its entries, which is set off where the last line has no
room for it. -/
def written (v : Vec α) : String :=
  let kind := "dtype=" ++ v.entries.kindName ++ ")"
  let body :=
    if v.entries.length = 0 then "[], shape=" ++ shapeText v.shape else v.text .listed 8
  let gap := if 75 < lastLine body + 2 + kind.length + 1 then 6 else 1
  "Array(" ++ body ++ "," ++ Text.blanks gap ++ kind

def plain (v : Vec α) : String :=
  match v.shape, v.entries with
  | [], .real [x] => Scalar.standard x
  | _, _ => v.text .standard 8

end Vec
end Geodescent
