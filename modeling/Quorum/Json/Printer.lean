import Quorum.Json.Basic
import Quorum.Text.Hex
/-!
# Writing JSON text

`compact` puts no space between tokens; `pretty` puts every item on a line of its own, indented by
two spaces a level. Strings escape quotes, backslashes and controls and nothing else.
-/
namespace Quorum.Json
open Quorum.Text

/-- A character within a string. Only the quote, the backslash and control characters are
escaped. -/
def escapeChar (c : Char) : List Char :=
  if c = '"' then ['\\', '"']
  else if c = '\\' then ['\\', '\\']
  else if c = '\n' then ['\\', 'n']
  else if c = '\r' then ['\\', 'r']
  else if c = '\t' then ['\\', 't']
  else if c = '\x08' then ['\\', 'b']
  else if c = '\x0c' then ['\\', 'f']
  else if c.toNat < 32 then
    ['\\', 'u', '0', '0', Hex.digit (c.toNat / 16), Hex.digit (c.toNat % 16)]
  else [c]

def stringChars (s : String) : List Char := '"' :: (s.toList.flatMap escapeChar ++ ['"'])

mutual
/-- A value without any blanks. No two values are printed alike this way, since the reader takes
each of them back. -/
def compactChars : Json → List Char
  | null => ['n', 'u', 'l', 'l']
  | bool true => ['t', 'r', 'u', 'e']
  | bool false => ['f', 'a', 'l', 's', 'e']
  | int n => (toString n).toList
  | float x => x.text.toList
  | string s => stringChars s
  | array [] => ['[', ']']
  | array (j :: js) => '[' :: (compactChars j ++ compactItems js)
  | object [] => ['\x7b', '\x7d']
  | object ((k, j) :: ms) =>
    '\x7b' :: (stringChars k ++ ':' :: (compactChars j ++ compactMembers ms))
def compactItems : List Json → List Char
  | [] => [']']
  | j :: js => ',' :: (compactChars j ++ compactItems js)
def compactMembers : List (String × Json) → List Char
  | [] => ['\x7d']
  | (k, j) :: ms => ',' :: (stringChars k ++ ':' :: (compactChars j ++ compactMembers ms))
end

/-- The text that is stored and sent. It is the one that results are stated about. -/
def compact (j : Json) : String := String.ofList (compactChars j)

def newline (depth : Nat) : List Char := '\n' :: List.replicate (2 * depth) ' '

mutual
/-- A value with each item and each member on a line of its own, two blanks to the right of what it
belongs to. Empty lists and objects stay on their line. -/
def prettyChars (depth : Nat) : Json → List Char
  | array (j :: js) =>
    '[' :: (newline (depth + 1) ++ prettyChars (depth + 1) j ++ prettyItems depth js)
  | object ((k, j) :: ms) =>
    '\x7b' :: (newline (depth + 1) ++ stringChars k ++ ':' :: ' ' ::
      (prettyChars (depth + 1) j ++ prettyMembers depth ms))
  | j => compactChars j
def prettyItems (depth : Nat) : List Json → List Char
  | [] => newline depth ++ [']']
  | j :: js => ',' :: (newline (depth + 1) ++ prettyChars (depth + 1) j ++ prettyItems depth js)
def prettyMembers (depth : Nat) : List (String × Json) → List Char
  | [] => newline depth ++ ['\x7d']
  | (k, j) :: ms =>
    ',' :: (newline (depth + 1) ++ stringChars k ++ ':' :: ' ' ::
      (prettyChars (depth + 1) j ++ prettyMembers depth ms))
end

/-- The text that is shown. -/
def pretty (j : Json) : String := String.ofList (prettyChars 0 j)

end Quorum.Json
