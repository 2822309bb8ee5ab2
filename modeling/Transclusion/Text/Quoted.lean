import Transclusion.Text.Printable

namespace Transclusion.Text

def hexDigits (width n : Nat) : Text :=
  let ds := Nat.toDigits 16 n
  List.replicate (width - ds.length) '0' ++ ds

namespace Quoted

-- Single quotes, unless the text holds single quotes and no double ones.
def mark (s : Text) : Char :=
  if s.contains '\'' && !s.contains '"' then '"' else '\''

def escape (quote c : Char) : Text :=
  if c = quote ∨ c = '\\' then ['\\', c]
  else if c = '\t' then ['\\', 't']
  else if c = '\n' then ['\\', 'n']
  else if c = '\r' then ['\\', 'r']
  else if isPrintable c then [c]
  else if c.toNat < 0x100 then '\\' :: 'x' :: hexDigits 2 c.toNat
  else if c.toNat < 0x10000 then '\\' :: 'u' :: hexDigits 4 c.toNat
  else '\\' :: 'U' :: hexDigits 8 c.toNat

end Quoted

def quoted (s : Text) : Text :=
  let q := Quoted.mark s
  q :: s.flatMap (Quoted.escape q) ++ [q]

end Transclusion.Text
