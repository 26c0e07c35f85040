import Quorum.Text.Hex
import Quorum.Text.Printable
/-!
# Quoted text in messages

A message shows a piece of input between double quotes and a single character between single
quotes. The enclosing quote, backslashes and the usual controls are escaped by a letter, every
other character that does not show by its number.
-/
namespace Quorum.Text.Quoted

/-- A character as it is shown between quotes. Of the two quotes only the enclosing one is
escaped. -/
def escape (enclosing c : Char) : List Char :=
  if c = enclosing then ['\\', c]
  else if c = '\\' then ['\\', '\\']
  else if c = '\n' then ['\\', 'n']
  else if c = '\r' then ['\\', 'r']
  else if c = '\t' then ['\\', 't']
  else if c.toNat = 0 then ['\\', '0']
  else if isPrintable c then [c]
  else ("\\u\x7b" ++ Hex.ofNat c.toNat ++ "\x7d").toList

/-- A text as messages show it. -/
def quote (s : String) : String :=
  String.ofList ('"' :: s.toList.flatMap (escape '"') ++ ['"'])

def quoteChar (c : Char) : String := String.ofList ('\'' :: escape '\'' c ++ ['\''])

end Quorum.Text.Quoted
