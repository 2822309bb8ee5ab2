import Transclusion.Text.Basic

namespace Transclusion

namespace Decimal

-- A positive number is `m * 2 ^ q`. `narrow` says that the gap below it is half the gap above it.
structure Binary where
  m : Nat
  q : Int
  narrow : Bool

def Binary.ofFloat (x : Float) : Binary :=
  let bits := x.toBits.toNat % Nat.pow 2 63
  let e := bits / Nat.pow 2 52
  let f := bits % Nat.pow 2 52
  if e = 0 then { m := f, q := -1074, narrow := false }
  else { m := Nat.pow 2 52 + f, q := Int.ofNat e - 1075, narrow := f = 0 && 1 < e }

-- Four times the number and the ends of the interval that rounds to it, over one denominator.
structure Interval where
  low : Nat
  value : Nat
  high : Nat
  denominator : Nat
  closed : Bool

def Binary.interval (b : Binary) : Interval :=
  let s := Nat.pow 2 (b.q - 2).toNat
  { low := (4 * b.m - if b.narrow then 1 else 2) * s
    value := 4 * b.m * s
    high := (4 * b.m + 2) * s
    denominator := Nat.pow 2 (2 - b.q).toNat
    closed := b.m % 2 = 0 }

-- The digits `c` stand for the number `c * 10 ^ e`.
structure Digits where
  c : Nat
  e : Int

namespace Interval

variable (i : Interval)

def reads (d : Digits) : Bool :=
  let x := d.c * Nat.pow 10 d.e.toNat * i.denominator
  let unit := Nat.pow 10 (-d.e).toNat
  if i.closed then i.low * unit ≤ x && x ≤ i.high * unit else i.low * unit < x && x < i.high * unit

-- The least `k` such that the value is below `10 ^ k`.
def scale : Int :=
  let whole := i.value / i.denominator
  if 0 < whole then (Nat.toDigits 10 whole).length
  else
    match (List.range 400).find? fun j => i.denominator ≤ i.value * Nat.pow 10 j with
    | some j => 1 - j
    | none => 0

def below (e : Int) : Nat :=
  i.value * Nat.pow 10 (-e).toNat / (i.denominator * Nat.pow 10 e.toNat)

-- Of the two neighbours on a grid, the one that reads back and is nearer; a tie goes to the even one.
def onGrid? (e : Int) : Option Digits :=
  let a : Digits := ⟨i.below e, e⟩
  let b : Digits := ⟨i.below e + 1, e⟩
  match i.reads a, i.reads b with
  | true, false => some a
  | false, true => some b
  | false, false => none
  | true, true =>
    let twice := 2 * i.value * Nat.pow 10 (-e).toNat
    let middle := (a.c + b.c) * Nat.pow 10 e.toNat * i.denominator
    if twice < middle then some a
    else if middle < twice then some b
    else if a.c % 2 = 0 then some a else some b

def shortest : Digits :=
  let k := i.scale
  ((List.range 17).findSome? fun (n : Nat) => i.onGrid? (k - (n + 1 : Nat))).getD ⟨i.below (k - 17), k - 17⟩

end Interval

def stripZeros (ds : List Char) : List Char :=
  (ds.reverse.dropWhile (· == '0')).reverse

-- Positional between one ten-thousandth and ten to the sixteenth, and with an exponent beyond.
def layout (ds : List Char) (k : Int) : Text :=
  let exponent := k - 1
  if -4 ≤ exponent ∧ exponent < 16 then
    if k ≤ 0 then '0' :: '.' :: List.replicate (-k).toNat '0' ++ ds
    else
      let whole := ds.take k.toNat ++ List.replicate (k.toNat - ds.length) '0'
      let fraction := ds.drop k.toNat
      whole ++ '.' :: (if fraction.isEmpty then ['0'] else fraction)
  else
    let mantissa := match ds with
      | d :: r@(_ :: _) => d :: '.' :: r
      | _ => ds
    let size := Nat.toDigits 10 exponent.natAbs
    mantissa ++ 'e' :: (if exponent < 0 then '-' else '+') ::
      (List.replicate (2 - size.length) '0' ++ size)

end Decimal

def Text.ofFloat (x : Float) : Text :=
  if x.isNaN then "nan".toList
  else
    let sign := if x.toBits.toNat / Nat.pow 2 63 = 1 then ['-'] else []
    if x.isInf then sign ++ "inf".toList
    else if x == 0 then sign ++ "0.0".toList
    else
      let d := (Decimal.Binary.ofFloat x).interval.shortest
      let ds := Nat.toDigits 10 d.c
      sign ++ Decimal.layout (Decimal.stripZeros ds) (ds.length + d.e)

end Transclusion
