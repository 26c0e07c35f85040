/-!
# Blank text

A character is blank when Unicode gives it the property White_Space. Names made of blanks
alone count as missing, and numbers are read with the blanks around them removed.
-/
namespace Quorum.Text

/-- The characters that count as blank in names and numbers: white space in the sense of Unicode. -/
def isBlank (c : Char) : Bool :=
  let n := c.toNat
  (0x09 ≤ n && n ≤ 0x0D) || n = 0x20 || n = 0x85 || n = 0xA0 || n = 0x1680 ||
    (0x2000 ≤ n && n ≤ 0x200A) || n = 0x2028 || n = 0x2029 || n = 0x202F || n = 0x205F ||
    n = 0x3000

/-- Whether a text has nothing in it but blanks, the empty text included. -/
def blank (s : String) : Bool := s.toList.all isBlank

def trimLeft (cs : List Char) : List Char := cs.dropWhile isBlank

def trimRight (cs : List Char) : List Char := (cs.reverse.dropWhile isBlank).reverse

/-- A text without the blanks around it. Blanks inside it stay. -/
def trim (s : String) : String := String.ofList (trimRight (trimLeft s.toList))

end Quorum.Text
