import SysBytes.Text.Hex
import SysBytes.Text.Printable
import SysBytes.Text.GraphemeExtend

/-!
Quoted text as diagnostics write it: the text between double quotes, where NUL, tab, carriage
return, line feed, backslash and the double quote take a backslash form, and every character
that extends a grapheme or is not printable is written as `\u` followed by its code point in
lowercase hex between braces. The single quote stays as it is.
-/
namespace SysBytes.Text.Quoted

def codePoint (c : Char) : List Char :=
  ['\\', 'u', '\x7b'] ++ (Nat.toDigits 16 c.toNat) ++ ['\x7d']

def escapeChar (c : Char) : List Char :=
  if c = '\x00' then ['\\', '0']
  else if c = '\t' then ['\\', 't']
  else if c = '\r' then ['\\', 'r']
  else if c = '\n' then ['\\', 'n']
  else if c = '\\' then ['\\', '\\']
  else if c = '"' then ['\\', '"']
  else if GraphemeExtend.isExtending c || !Printable.isPrintable c then codePoint c
  else [c]

/-- The text of a string between double quotes, escaped. -/
def quote (s : String) : String :=
  String.ofList ('"' :: s.toList.flatMap escapeChar ++ ['"'])

end SysBytes.Text.Quoted
