import DocTable.Number.Numeral
import DocTable.Value.Instant

/-!
# Timestamps

The written forms of a point in time that a plain scalar may have: a date, or a date and a time of
day with a `T`, a `t` or spaces between them; after a letter a zone must follow, after a space none
may.  The fields of a date and a time may lack a leading zero.
-/

namespace DocTable.Yaml.Timestamp

set_option autoImplicit false

open Number

/-- Reads a number of one or two digits. -/
def readShort? : List Char → Option (Nat × List Char)
  | a :: b :: rest =>
    if isDigit a then
      if isDigit b then some ((a.toNat - 48) * 10 + (b.toNat - 48), rest)
      else some (a.toNat - 48, b :: rest)
    else none
  | [a] => if isDigit a then some (a.toNat - 48, []) else none
  | [] => none

/-- Reads a number of exactly two digits. -/
def readPair? : List Char → Option (Nat × List Char)
  | a :: b :: rest =>
    if isDigit a && isDigit b then some ((a.toNat - 48) * 10 + (b.toNat - 48), rest) else none
  | _ => none

/-- Takes a character off the front. -/
def expect? (c : Char) : List Char → Option (List Char)
  | ch :: rest => if ch = c then some rest else none
  | [] => none

/-- Reads a year of four digits and the dash after it. -/
def readYear? (cs : List Char) : Option (Nat × List Char) := do
  let digits := cs.takeWhile isDigit
  if digits.length ≠ 4 then none
  else
    let rest ← expect? '-' (cs.drop 4)
    return (digits.foldl (fun n d => 10 * n + (d.toNat - 48)) 0, rest)

/-- Whether a year has a leap day. -/
def isLeap (year : Nat) : Bool := year % 4 == 0 && (year % 100 != 0 || year % 400 == 0)

/-- The number of days of a month. -/
def daysIn (year month : Nat) : Nat :=
  if month = 2 then if isLeap year then 29 else 28
  else if month = 4 ∨ month = 6 ∨ month = 9 ∨ month = 11 then 30
  else 31

/-- A number with at least four digits. -/
def pad4 (n : Nat) : String :=
  let t := toString n
  String.ofList (List.replicate (4 - t.length) '0') ++ t

/-- Reads a date and gives its standard form. -/
def readDate? (cs : List Char) : Option (String × List Char) := do
  let (year, cs) ← readYear? cs
  let (month, cs) ← readShort? cs
  let cs ← expect? '-' cs
  let (day, cs) ← readShort? cs
  if month = 0 ∨ 12 < month ∨ day = 0 ∨ daysIn year month < day then none
  else return (pad4 year ++ "-" ++ Instant.twoDigits month ++ "-" ++ Instant.twoDigits day, cs)

/-- A fraction of a second without trailing zeros, to nine digits. -/
def fraction (digits : List Char) : String :=
  let kept := ((digits.take 9).reverse.dropWhile (· == '0')).reverse
  if kept.isEmpty then "" else "." ++ String.ofList kept

/-- Reads an optional fraction of a second. -/
def readFraction : List Char → String × List Char
  | p :: d :: rest =>
    if (p == '.' || p == ',') && isDigit d then
      (fraction ((d :: rest).takeWhile isDigit), (d :: rest).dropWhile isDigit)
    else ("", p :: d :: rest)
  | cs => ("", cs)

/-- Reads a time of day and gives its standard form. -/
def readTime? (cs : List Char) : Option (String × List Char) := do
  let (hour, cs) ← readShort? cs
  let cs ← expect? ':' cs
  let (minute, cs) ← readShort? cs
  let cs ← expect? ':' cs
  let (second, cs) ← readShort? cs
  let (tail, cs) := readFraction cs
  if 23 < hour ∨ 59 < minute ∨ 59 < second then none
  else return (Instant.twoDigits hour ++ ":" ++ Instant.twoDigits minute ++ ":" ++ Instant.twoDigits second ++ tail, cs)

/-- Reads a zone: its minutes ahead of the standard zone. -/
def readZone? : List Char → Option (Int × List Char)
  | 'Z' :: rest => some (0, rest)
  | sign :: rest => do
    if sign ≠ '+' ∧ sign ≠ '-' then none
    else
      let (hours, rest) ← readPair? rest
      let rest ← expect? ':' rest
      let (minutes, rest) ← readPair? rest
      if 24 < hours ∨ 60 < minutes then none
      else
        let distance : Int := 60 * hours + minutes
        return (if sign = '-' then -distance else distance, rest)
  | [] => none

/-- The point in time that a text gives. -/
def read? (text : String) : Option Instant := do
  let (date, rest) ← readDate? text.toList
  match rest with
  | [] => return ⟨date, "00:00:00", 0⟩
  | separator :: rest =>
    let (time, rest) ← readTime? (if separator = ' ' then rest.dropWhile (· == ' ') else rest)
    if separator = ' ' then
      if rest.isEmpty then return ⟨date, time, 0⟩ else none
    else if separator = 'T' ∨ separator = 't' then
      let (zone, rest) ← readZone? rest
      if rest.isEmpty then return ⟨date, time, zone⟩ else none
    else none

end DocTable.Yaml.Timestamp
