import Transclusion.Text.Quoted

namespace Transclusion.Text.Utf8

inductive Reason
  | start
  | continuation
  | truncated
  deriving DecidableEq, Repr

structure Malformed where
  position : Nat
  length : Nat
  first : Nat
  reason : Reason
  deriving DecidableEq, Repr

namespace Reason

def text : Reason → Text
  | start => "invalid start byte".toList
  | continuation => "invalid continuation byte".toList
  | truncated => "unexpected end of data".toList

end Reason

def Malformed.message (m : Malformed) : Text :=
  let place :=
    if m.length = 1 then "byte 0x".toList ++ hexDigits 2 m.first ++ " in position ".toList ++ ofNat m.position
    else "bytes in position ".toList ++ ofNat m.position ++ ['-'] ++ ofNat (m.position + m.length - 1)
  "'utf-8' codec can't decode ".toList ++ place ++ ": ".toList ++ m.reason.text

-- What a first octet above 127 promises: its payload and the range of each octet that has to follow.
-- The second octet's range leaves out overlong forms, surrogates and code points beyond the last.
def lead? (b : Nat) : Option (Nat × List (Nat × Nat)) :=
  let any := (0x80, 0xbf)
  if b < 0xc2 then none
  else if b < 0xe0 then some (b - 0xc0, [any])
  else if b = 0xe0 then some (0, [(0xa0, 0xbf), any])
  else if b = 0xed then some (0xd, [(0x80, 0x9f), any])
  else if b < 0xf0 then some (b - 0xe0, [any, any])
  else if b = 0xf0 then some (0, [(0x90, 0xbf), any, any])
  else if b < 0xf4 then some (b - 0xf0, [any, any, any])
  else if b = 0xf4 then some (4, [(0x80, 0x8f), any, any])
  else none

inductive Scan
  | scalar (code extra : Nat)
  | bad (reason : Reason) (length : Nat)

def follow (code extra : Nat) : List (Nat × Nat) → List UInt8 → Scan
  | [], _ => .scalar code extra
  | _ :: _, [] => .bad .truncated (extra + 1)
  | (low, high) :: ranges, b :: bs =>
    if low ≤ b.toNat ∧ b.toNat ≤ high then
      follow (64 * code + (b.toNat - 0x80)) (extra + 1) ranges bs
    else .bad .continuation (extra + 1)

def scan (b : UInt8) (bs : List UInt8) : Scan :=
  if b.toNat < 0x80 then .scalar b.toNat 0
  else
    match lead? b.toNat with
    | none => .bad .start 1
    | some (code, ranges) => follow code 0 ranges bs

def decodeFrom (position : Nat) : List UInt8 → Except Malformed Text
  | [] => .ok []
  | b :: bs =>
    match scan b bs with
    | .bad reason length => .error ⟨position, length, b.toNat, reason⟩
    | .scalar code extra =>
      (decodeFrom (position + 1 + extra) (bs.drop extra)).map (Char.ofNat code :: ·)
termination_by bs => bs.length
decreasing_by
  simp only [List.length_drop, List.length_cons]
  omega

def decode (bytes : List UInt8) : Except Malformed Text :=
  decodeFrom 0 bytes

end Transclusion.Text.Utf8
