/-!
JSON as text. Numbers keep the figures they were written with and objects the order of their fields.
The reader answers a value and the rest of the text; its fuel is the length of the text.
-/
namespace Geodescent

inductive Json where
  | null
  | truth (b : Bool)
  | number (figures : String)
  | text (s : String)
  | array (items : List Json)
  | object (fields : List (String × Json))

instance : Inhabited Json := ⟨.null⟩

namespace Json

def isSpace (c : Char) : Bool := c = ' ' || c = '\n' || c = '\t' || c = '\r'

def skip (text : List Char) : List Char := text.dropWhile isSpace

def hexValue (c : Char) : Nat :=
  if c.isDigit then c.toNat - 48
  else if 'a' ≤ c && c ≤ 'f' then c.toNat - 87
  else if 'A' ≤ c && c ≤ 'F' then c.toNat - 55
  else 0

def unit (text : List Char) : Nat := (text.take 4).foldl (fun n c => 16 * n + hexValue c) 0

def joined (text : List Char) : Char × List Char :=
  let high := unit text
  let rest := text.drop 4
  if 0xD800 ≤ high && high < 0xDC00 then
    match rest with
    | '\\' :: 'u' :: more =>
      (Char.ofNat (0x10000 + (high - 0xD800) * 0x400 + (unit more - 0xDC00)), more.drop 4)
    | _ => (Char.ofNat 0xFFFD, rest)
  else (Char.ofNat high, rest)

def plainEscape (c : Char) : Char :=
  if c = 'n' then '\n'
  else if c = 't' then '\t'
  else if c = 'r' then '\r'
  else if c = 'b' then Char.ofNat 8
  else if c = 'f' then Char.ofNat 12
  else c

def readText : Nat → List Char → List Char → Option (String × List Char)
  | 0, _, _ => none
  | _, _, [] => none
  | _ + 1, before, '"' :: rest => some (String.ofList before.reverse, rest)
  | fuel + 1, before, '\\' :: 'u' :: rest =>
    let (c, rest) := joined rest
    readText fuel (c :: before) rest
  | fuel + 1, before, '\\' :: c :: rest => readText fuel (plainEscape c :: before) rest
  | fuel + 1, before, c :: rest => readText fuel (c :: before) rest

def isFigure (c : Char) : Bool :=
  c.isDigit || c = '-' || c = '+' || c = '.' || c = 'e' || c = 'E'

mutual
def read : Nat → List Char → Option (Json × List Char)
  | 0, _ => none
  | fuel + 1, cs =>
    match skip cs with
    | [] => none
    | '"' :: rest => (readText fuel [] rest).map fun (s, rest) => (.text s, rest)
    | '[' :: rest =>
      match skip rest with
      | ']' :: rest => some (.array [], rest)
      | rest => readItems fuel [] rest
    | '\x7b' :: rest =>
      match skip rest with
      | '\x7d' :: rest => some (.object [], rest)
      | rest => readFields fuel [] rest
    | 't' :: 'r' :: 'u' :: 'e' :: rest => some (.truth true, rest)
    | 'f' :: 'a' :: 'l' :: 's' :: 'e' :: rest => some (.truth false, rest)
    | 'n' :: 'u' :: 'l' :: 'l' :: rest => some (.null, rest)
    | cs =>
      let figures := cs.takeWhile isFigure
      if figures.isEmpty then none
      else some (.number (String.ofList figures), cs.drop figures.length)

def readItems : Nat → List Json → List Char → Option (Json × List Char)
  | 0, _, _ => none
  | fuel + 1, before, cs =>
    match read fuel cs with
    | none => none
    | some (item, rest) =>
      match skip rest with
      | ',' :: rest => readItems fuel (item :: before) rest
      | ']' :: rest => some (.array (item :: before).reverse, rest)
      | _ => none

def readFields : Nat → List (String × Json) → List Char → Option (Json × List Char)
  | 0, _, _ => none
  | fuel + 1, before, cs =>
    match skip cs with
    | '"' :: rest =>
      match readText fuel [] rest with
      | none => none
      | some (key, rest) =>
        match skip rest with
        | ':' :: rest =>
          match read fuel rest with
          | none => none
          | some (value, rest) =>
            match skip rest with
            | ',' :: rest => readFields fuel ((key, value) :: before) rest
            | '\x7d' :: rest => some (.object ((key, value) :: before).reverse, rest)
            | _ => none
        | _ => none
    | _ => none
end

def ofText? (text : String) : Option Json :=
  let characters := text.toList
  match read (2 * characters.length + 2) characters with
  | some (value, rest) => if (skip rest).isEmpty then some value else none
  | none => none

def unitText (n : Nat) : List Char :=
  let figures := Nat.toDigits 16 n
  ['\\', 'u'] ++ List.replicate (4 - figures.length) '0' ++ figures

def escaped (c : Char) : List Char :=
  if c = '"' || c = '\\' then ['\\', c]
  else if 32 ≤ c.toNat && c.toNat < 127 then [c]
  else if c.toNat < 0x10000 then unitText c.toNat
  else
    let n := c.toNat - 0x10000
    unitText (0xD800 + n / 0x400) ++ unitText (0xDC00 + n % 0x400)

def quoted (s : String) : String := String.ofList (['"'] ++ s.toList.flatMap escaped ++ ['"'])

mutual
def written : Json → String
  | .null => "null"
  | .truth b => if b then "true" else "false"
  | .number figures => figures
  | .text s => quoted s
  | .array items => "[" ++ ",".intercalate (writtenEach items) ++ "]"
  | .object fields => "\x7b" ++ ",".intercalate (writtenFields fields) ++ "\x7d"

def writtenEach : List Json → List String
  | [] => []
  | item :: items => written item :: writtenEach items

def writtenFields : List (String × Json) → List String
  | [] => []
  | (key, value) :: fields => (quoted key ++ ":" ++ written value) :: writtenFields fields
end

def get? (j : Json) (key : String) : Option Json :=
  match j with
  | .object fields => fields.lookup key
  | _ => none

def get (j : Json) (key : String) : Json := (j.get? key).getD .null

def has (j : Json) (key : String) : Bool := (j.get? key).isSome

def items : Json → List Json
  | .array items => items
  | _ => []

def fields : Json → List (String × Json)
  | .object fields => fields
  | _ => []

def string : Json → String
  | .text s => s
  | _ => ""

def string? : Json → Option String
  | .text s => some s
  | _ => none

def isNull : Json → Bool
  | .null => true
  | _ => false

def isTrue : Json → Bool
  | .truth b => b
  | _ => false

def int? : Json → Option Int
  | .number figures =>
    if figures.toList.any fun c => c = '.' || c = 'e' || c = 'E' then none else figures.toInt?
  | .truth b => some b.toInt
  | _ => none

def int (j : Json) : Int := j.int?.getD 0

def ofInt (n : Int) : Json := .number (toString n)

end Json
end Geodescent
