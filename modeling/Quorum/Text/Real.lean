/-!
# Real numbers in text

A number is an optional sign with digits, which a point may divide or stand next to, and perhaps an
exponent, or else with the word for infinity or for no number.
-/
namespace Quorum.Text

/-- What follows an optional sign. -/
def skipSign : List Char → List Char
  | '+' :: cs | '-' :: cs => cs
  | cs => cs

def isExponent : List Char → Bool
  | [] => true
  | mark :: cs =>
    let digits := skipSign cs
    (mark = 'e' || mark = 'E') && !digits.isEmpty && digits.all Char.isDigit

def isUnsignedReal (cs : List Char) : Bool :=
  let whole := cs.takeWhile Char.isDigit
  match cs.dropWhile Char.isDigit with
  | '.' :: rest =>
    !(whole ++ rest.takeWhile Char.isDigit).isEmpty && isExponent (rest.dropWhile Char.isDigit)
  | rest => !whole.isEmpty && isExponent rest

/-- Whether a text is a decimal number, or one of the words for infinity and for no number in any
mixture of cases. -/
def isReal (cs : List Char) : Bool :=
  let size := skipSign cs
  ["inf", "infinity", "nan"].contains (String.ofList (size.map Char.toLower)) || isUnsignedReal size

end Quorum.Text
