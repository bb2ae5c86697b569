/-!
# Points in time

A point in time as it was written: a date, a time of day and the distance of its zone from the
standard one.  It has an interchange form and a form in messages.
-/

namespace DocTable

set_option autoImplicit false

/-- A point in time: its date and time of day, in standard writing, in a zone that is some minutes
ahead of the standard zone. -/
structure Instant where
  date : String
  time : String
  zone : Int
  deriving DecidableEq, Repr, Inhabited

namespace Instant

/-- A number with at least two digits. -/
def twoDigits (n : Nat) : String := if n < 10 then "0" ++ toString n else toString n

/-- The sign of a zone. -/
def sign (i : Instant) : String := if i.zone < 0 then "-" else "+"

/-- The hours of a zone. -/
def zoneHours (i : Instant) : Nat := i.zone.natAbs / 60

/-- The minutes of a zone beyond its hours. -/
def zoneMinutes (i : Instant) : Nat := i.zone.natAbs % 60

/-- The interchange form; a zone of a day or more has none. -/
def interchange? (i : Instant) : Option String :=
  if 24 ≤ i.zoneHours then none
  else
    let zone := if i.zone = 0 then "Z"
      else i.sign ++ twoDigits i.zoneHours ++ ":" ++ twoDigits i.zoneMinutes
    some (i.date ++ "T" ++ i.time ++ zone)

/-- The form in messages: the zone stands twice, the second time by its name if it is the standard
zone. -/
def display (i : Instant) : String :=
  let zone := i.sign ++ twoDigits i.zoneHours ++ twoDigits i.zoneMinutes
  i.date ++ " " ++ i.time ++ " " ++ zone ++ " " ++ if i.zone = 0 then "UTC" else zone

end Instant

end DocTable
