import Transclusion.Text.Blank
import Transclusion.Text.Digit

namespace Transclusion.Text

-- Blanks around a number, of which the record separators are none.
def isPadding (c : Char) : Bool :=
  isBlank c && !(28 ≤ c.toNat && c.toNat ≤ 31)

def unpadded (s : Text) : Text :=
  ((s.dropWhile isPadding).reverse.dropWhile isPadding).reverse

def digitLimit : Nat := 4300

def natural? (s : Text) : Option Nat :=
  let runs := pieces '_' s
  if runs.all (fun r => !r.isEmpty && r.all isDigit) && runs.flatten.length ≤ digitLimit then
    some (numeral runs.flatten)
  else none

def integer? : Text → Option Int
  | '-' :: s => (natural? s).map fun n => -(n : Int)
  | '+' :: s => (natural? s).map fun n => (n : Int)
  | s => (natural? s).map fun n => (n : Int)

end Transclusion.Text
