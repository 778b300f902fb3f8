import Geodescent.Text.Printable

/-!
A text between quotes. Single quotes are used unless the text holds one and no double quote;
backslash, the quote in use and what shows nothing when printed are escaped.
-/
namespace Geodescent.Text

def hexadecimal (width n : Nat) : List Char :=
  let figures := Nat.toDigits 16 n
  List.replicate (width - figures.length) '0' ++ figures

def escaped (quote c : Char) : List Char :=
  if c = quote || c = '\\' then ['\\', c]
  else if c = '\n' then ['\\', 'n']
  else if c = '\r' then ['\\', 'r']
  else if c = '\t' then ['\\', 't']
  else if isPrintable c then [c]
  else if c.toNat < 0x100 then '\\' :: 'x' :: hexadecimal 2 c.toNat
  else if c.toNat < 0x10000 then '\\' :: 'u' :: hexadecimal 4 c.toNat
  else '\\' :: 'U' :: hexadecimal 8 c.toNat

def quoteFor (text : List Char) : Char :=
  if text.contains '\'' && !text.contains '"' then '"' else '\''

def quoted (text : String) : String :=
  let quote := quoteFor text.toList
  String.ofList ([quote] ++ text.toList.flatMap (escaped quote) ++ [quote])

end Geodescent.Text
