import Hygiene.Text.Digit
import Hygiene.Toml.Node

/-!
# Booleans, numbers, dates and times

What a bare word in value position means. An integer is decimal, with a sign and without leading
zeros, or unsigned in base 16, 8 or 2 behind a lower-case marker; underscores may stand between
digits. A number with a fraction or an exponent is a floating one. Dates and times follow the
calendar; a time may leave out its seconds, and the last second of a minute may be a leap second.
-/

namespace Hygiene.Toml.Scalar

open Text (digit? ofDigits)

/-- Further digits, each perhaps behind one underscore, and what follows them. -/
def moreDigits (base : Nat) : List Char → List Nat × List Char
  | '_' :: ch :: rest =>
    match digit? base ch with
    | some d =>
      let (ds, tail) := moreDigits base rest
      (d :: ds, tail)
    | none => ([], '_' :: ch :: rest)
  | ch :: rest =>
    match digit? base ch with
    | some d =>
      let (ds, tail) := moreDigits base rest
      (d :: ds, tail)
    | none => ([], ch :: rest)
  | [] => ([], [])

/-- One digit or more, with single underscores between them, and what follows. -/
def digitsFrom (base : Nat) : List Char → Option (List Nat × List Char)
  | ch :: rest =>
    (digit? base ch).map fun d =>
      let (ds, tail) := moreDigits base rest
      (d :: ds, tail)
  | [] => none

/-- A sign in front, and the word behind it. -/
def signed (cs : List Char) : Bool × List Char :=
  match cs with
  | '-' :: rest => (true, rest)
  | '+' :: rest => (false, rest)
  | _ => (false, cs)

def allDigits (base : Nat) (cs : List Char) : Option Nat :=
  match digitsFrom base cs with
  | some (ds, []) => some (ofDigits base ds)
  | _ => none

/-- The whole part of a decimal number: no zero in front of other digits. -/
def wholePart (cs : List Char) : Option (List Nat × List Char) :=
  match digitsFrom 10 cs with
  | some (0 :: _ :: _, _) => none
  | found => found

def integer? (cs : List Char) : Option Int :=
  match cs with
  | '0' :: 'x' :: rest => (allDigits 16 rest).map Int.ofNat
  | '0' :: 'o' :: rest => (allDigits 8 rest).map Int.ofNat
  | '0' :: 'b' :: rest => (allDigits 2 rest).map Int.ofNat
  | _ =>
    let (negative, rest) := signed cs
    match wholePart rest with
    | some (ds, []) => some (if negative then -(ofDigits 10 ds : Int) else ofDigits 10 ds)
    | _ => none

/-- An exponent behind its letter, up to the end of the word. -/
def exponent? (cs : List Char) : Option Int :=
  let (negative, rest) := signed cs
  (allDigits 10 rest).map fun n => if negative then -(n : Int) else n

/-- A number with a fraction or an exponent, its sign already read. -/
def fractional? (negative : Bool) (cs : List Char) : Option Floating := do
  let (whole, rest) ← wholePart cs
  match rest with
  | '.' :: rest =>
    let (places, rest) ← digitsFrom 10 rest
    let digits := ofDigits 10 (whole ++ places)
    match rest with
    | [] => some (.decimal negative digits (-places.length))
    | ch :: rest =>
      if ch = 'e' ∨ ch = 'E' then
        (exponent? rest).map fun e => .decimal negative digits (e - places.length)
      else none
  | ch :: rest =>
    if ch = 'e' ∨ ch = 'E' then
      (exponent? rest).map fun e => .decimal negative (ofDigits 10 whole) e
    else none
  | [] => none

def floating? (cs : List Char) : Option Floating :=
  let (negative, rest) := signed cs
  match rest with
  | ['i', 'n', 'f'] => some (.infinite negative)
  | ['n', 'a', 'n'] => some .nan
  | _ => fractional? negative rest

/-- A number of exactly so many decimal digits, and the rest of the word. -/
def fixed (count : Nat) (cs : List Char) : Option (Nat × List Char) := do
  let digits := cs.take count
  if digits.length = count then
    let ds ← digits.mapM (digit? 10)
    some (ofDigits 10 ds, cs.drop count)
  else none

def daysIn (year month : Nat) : Nat :=
  if month = 2 then
    if year % 4 = 0 ∧ (year % 100 ≠ 0 ∨ year % 400 = 0) then 29 else 28
  else if month = 4 ∨ month = 6 ∨ month = 9 ∨ month = 11 then 30
  else 31

/-- What follows a date at the front of a word. -/
def date? (cs : List Char) : Option (List Char) := do
  let (year, cs) ← fixed 4 cs
  match cs with
  | '-' :: cs =>
    let (month, cs) ← fixed 2 cs
    match cs with
    | '-' :: cs =>
      let (day, cs) ← fixed 2 cs
      if 1 ≤ month ∧ month ≤ 12 ∧ 1 ≤ day ∧ day ≤ daysIn year month then some cs else none
    | _ => none
  | _ => none

/-- What follows the fraction of a second, which may be missing. -/
def secondFraction? (cs : List Char) : Option (List Char) :=
  match cs with
  | '.' :: cs =>
    let rest := cs.dropWhile Char.isDigit
    if rest.length < cs.length then some rest else none
  | _ => some cs

/-- What follows a time at the front of a word. -/
def time? (cs : List Char) : Option (List Char) := do
  let (hour, cs) ← fixed 2 cs
  match cs with
  | ':' :: cs =>
    let (minute, cs) ← fixed 2 cs
    if hour < 24 ∧ minute < 60 then
      match cs with
      | ':' :: cs =>
        let (second, cs) ← fixed 2 cs
        if second ≤ 60 then secondFraction? cs else none
      | _ => some cs
    else none
  | _ => none

/-- Whether a word is an offset from universal time. -/
def isOffset (cs : List Char) : Bool :=
  match cs with
  | ['Z'] | ['z'] => true
  | sign :: rest =>
    (sign == '+' || sign == '-') &&
      match fixed 2 rest with
      | some (hour, ':' :: rest) =>
        match fixed 2 rest with
        | some (minute, []) => hour < 24 && minute < 60
        | _ => false
      | _ => false
  | [] => false

def isDate (cs : List Char) : Bool := date? cs == some []

/-- Whether a word is a date, a time, or a date with a time and perhaps an offset. A letter or one
space stands between the two. -/
def isMoment (cs : List Char) : Bool :=
  match date? cs with
  | some [] => true
  | some (separator :: rest) =>
    (separator == 'T' || separator == 't' || separator == ' ') &&
      match time? rest with
      | some [] => true
      | some offset => isOffset offset
      | none => false
  | none => time? cs == some []

/-- What a bare word means, read at its place. -/
def node? (place : Text.Span) (word : List Char) : Option Node :=
  if word = ['t', 'r', 'u', 'e'] then some (.boolean place true)
  else if word = ['f', 'a', 'l', 's', 'e'] then some (.boolean place false)
  else
    match integer? word with
    | some n => some (.integer place n)
    | none =>
      match floating? word with
      | some r => some (.floating place r)
      | none => if isMoment word then some (.moment place) else none

/-- Whether a character may stand in a bare word in value position. -/
def isWordChar (ch : Char) : Bool :=
  ch.isAlphanum || ch == '_' || ch == '+' || ch == '-' || ch == '.' || ch == ':'

end Hygiene.Toml.Scalar
