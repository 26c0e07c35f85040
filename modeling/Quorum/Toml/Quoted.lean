import Quorum.Text.Hex
/-!
# Quoted text

Text between double quotes has escapes, text between single quotes has none. Either kind may span
lines when its quote is written three times; then a line break right behind the opening is dropped
and up to two quotes may stand directly before the closing.
-/
namespace Quorum.Toml.Quoted
open Text

/-- Whether the character may stand in a string as it is. -/
def isPlain (c : Char) : Bool := c = '\t' || (0x20 ≤ c.toNat && c.toNat ≠ 0x7F)

def isSpace (c : Char) : Bool := c = ' ' || c = '\t'

/-- What follows a line break. -/
def lineBreak? : List Char → Option (List Char)
  | '\n' :: cs | '\r' :: '\n' :: cs => some cs
  | _ => none

def dropLineBreak (cs : List Char) : List Char := (lineBreak? cs).getD cs

/-- Spaces and line breaks taken off. -/
def dropGap : List Char → List Char
  | '\r' :: '\n' :: cs => dropGap cs
  | c :: cs => if isSpace c || c = '\n' then dropGap cs else c :: cs
  | [] => []

def namedEscape? : Char → Option Char
  | 'b' => some '\x08'
  | 'f' => some '\x0c'
  | 'n' => some '\n'
  | 'r' => some '\r'
  | 't' => some '\t'
  | '"' => some '"'
  | '\\' => some '\\'
  | _ => none

def codePoint? (digits : List Char) : Option Char := do
  let n ← Hex.number? digits
  if n.isValidChar then return Char.ofNat n else none

/-- The character of an escape behind its backslash, and how many characters name it. -/
def escaped? : List Char → Option (Char × Nat)
  | 'u' :: cs => if (cs.take 4).length = 4 then (·, 5) <$> codePoint? (cs.take 4) else none
  | 'U' :: cs => if (cs.take 8).length = 8 then (·, 9) <$> codePoint? (cs.take 8) else none
  | c :: _ => (·, 1) <$> namedEscape? c
  | [] => none

/-- A string on one line in which a backslash escapes. The first argument is what has been read, the
last character first. -/
def basic? (done : List Char) : List Char → Option (String × List Char)
  | '"' :: cs => some (String.ofList done.reverse, cs)
  | '\\' :: cs =>
    match escaped? cs with
    | some (c, n) => basic? (c :: done) (cs.drop n)
    | none => none
  | c :: cs => if isPlain c then basic? (c :: done) cs else none
  | [] => none
termination_by cs => cs.length
decreasing_by all_goals simp only [List.length_cons, List.length_drop]; omega

/-- A string on one line in which nothing escapes. -/
def literal? (done : List Char) : List Char → Option (String × List Char)
  | '\'' :: cs => some (String.ofList done.reverse, cs)
  | c :: cs => if isPlain c then literal? (c :: done) cs else none
  | [] => none

/-- Behind three quotes: those that still belong to the text, which is complete. -/
def close (quote : Char) (done : List Char) : List Char → String × List Char
  | a :: b :: cs =>
    if a = quote && b = quote then (String.ofList (quote :: quote :: done).reverse, cs)
    else if a = quote then (String.ofList (quote :: done).reverse, b :: cs)
    else (String.ofList done.reverse, a :: b :: cs)
  | [a] =>
    if a = quote then (String.ofList (quote :: done).reverse, [])
    else (String.ofList done.reverse, [a])
  | [] => (String.ofList done.reverse, [])

/-- What follows a backslash that stands at the end of its line. -/
def foldedLine? (cs : List Char) : Option (List Char) :=
  (lineBreak? (cs.dropWhile isSpace)).map dropGap

theorem length_dropGap (cs : List Char) : (dropGap cs).length ≤ cs.length := by
  fun_induction dropGap cs <;> simp_all <;> omega

theorem length_lineBreak? {cs rest : List Char} (h : lineBreak? cs = some rest) :
    rest.length < cs.length := by
  unfold lineBreak? at h
  split at h
  · cases h; simp only [List.length_cons]; omega
  · cases h; simp only [List.length_cons]; omega
  · cases h

theorem length_foldedLine? {cs rest : List Char} (h : foldedLine? cs = some rest) :
    rest.length < cs.length := by
  obtain ⟨tail, ht, rfl⟩ := Option.map_eq_some_iff.1 h
  have h₁ := length_lineBreak? ht
  have h₂ := length_dropGap tail
  have h₃ := (List.dropWhile_suffix isSpace (l := cs)).length_le
  omega

/-- A string of several lines in which a backslash escapes, and folds the lines that it ends. -/
def longBasic? (done : List Char) : List Char → Option (String × List Char)
  | '"' :: '"' :: '"' :: cs => some (close '"' done cs)
  | '\\' :: cs =>
    match _hf : foldedLine? cs with
    | some rest => longBasic? done rest
    | none =>
      match escaped? cs with
      | some (c, n) => longBasic? (c :: done) (cs.drop n)
      | none => none
  | '\r' :: '\n' :: cs => longBasic? ('\n' :: done) cs
  | c :: cs => if isPlain c || c = '\n' then longBasic? (c :: done) cs else none
  | [] => none
termination_by cs => cs.length
decreasing_by
  · have := length_foldedLine? _hf; simp only [List.length_cons]; omega
  all_goals simp only [List.length_cons, List.length_drop]; omega

/-- A string of several lines as they stand, with one kind of line break. -/
def longLiteral? (done : List Char) : List Char → Option (String × List Char)
  | '\'' :: '\'' :: '\'' :: cs => some (close '\'' done cs)
  | '\r' :: '\n' :: cs => longLiteral? ('\n' :: done) cs
  | c :: cs => if isPlain c || c = '\n' then longLiteral? (c :: done) cs else none
  | [] => none

/-- Text on one line, as it may stand for a key too. -/
def short? : List Char → Option (String × List Char)
  | '"' :: cs => basic? [] cs
  | '\'' :: cs => literal? [] cs
  | _ => none

/-- A string in any of its four forms, told apart by how it opens. -/
def read? : List Char → Option (String × List Char)
  | '"' :: '"' :: '"' :: cs => longBasic? [] (dropLineBreak cs)
  | '\'' :: '\'' :: '\'' :: cs => longLiteral? [] (dropLineBreak cs)
  | cs => short? cs

end Quorum.Toml.Quoted
