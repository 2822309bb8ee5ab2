import Transclusion.Text.Basic

namespace Transclusion.Text

-- Line feed to form feed, carriage return, the three record separators, next line, and the line and
-- paragraph separators.
def isLineEnd (c : Char) : Bool :=
  let n := c.toNat
  10 ≤ n && n ≤ 13 || 28 ≤ n && n ≤ 30 || n == 133 || n == 8232 || n == 8233

def lines : Text → List Text
  | [] => []
  | '\r' :: '\n' :: s => ['\r', '\n'] :: lines s
  | c :: s =>
    if isLineEnd c then [c] :: lines s
    else
      match lines s with
      | [] => [[c]]
      | l :: ls => (c :: l) :: ls

theorem flatten_lines (s : Text) : (lines s).flatten = s := by
  fun_induction lines s with
  | case1 => rfl
  | case2 _ ih => simp [ih]
  | case3 _ _ _ _ ih => simp [ih]
  | case4 _ _ _ _ h ih => simpa [h] using ih
  | case5 _ _ _ _ _ _ h ih => simpa [h] using ih

-- The last line gets a line feed unless it already ends with one.
def completed : List Text → List Text
  | [] => []
  | [l] => if l.getLast? = some '\n' then [l] else [l ++ ['\n']]
  | l :: ls => l :: completed ls

theorem length_completed (ls : List Text) : (completed ls).length = ls.length := by
  fun_induction completed ls <;> simp_all

-- A line without the carriage returns and line feeds at its end.
def bare (line : Text) : Text :=
  (line.reverse.dropWhile fun c => c == '\r' || c == '\n').reverse

-- Both other ways to end a line become a line feed.
def unixLines : Text → Text
  | [] => []
  | '\r' :: '\n' :: s => '\n' :: unixLines s
  | '\r' :: s => '\n' :: unixLines s
  | c :: s => c :: unixLines s

end Transclusion.Text
