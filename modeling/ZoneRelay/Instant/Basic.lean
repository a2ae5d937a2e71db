/-!
# Instants

An instant is a date and a time of day in UTC, to the nanosecond. The last second of a minute may be
a leap second: then its nanoseconds run on from `10 ^ 9`.

* `Civil`: date and time fields, not yet checked.
* `Instant`: fields that name a moment between the years -262143 and 262142.
* `Civil.earlier`: fields moved back by less than a day.
* `Instant.le`: the order of time.
-/

namespace ZoneRelay

/-- A date and a time of day. -/
structure Civil where
  year : Int
  month : Nat
  day : Nat
  hour : Nat
  minute : Nat
  second : Nat
  nano : Nat
  deriving DecidableEq, Repr

namespace Civil

/-- Whether a year has a 29th of February. -/
def isLeap (year : Int) : Bool :=
  year % 4 == 0 && (year % 100 != 0 || year % 400 == 0)

/-- The number of days of a month; none if there is no such month. -/
def daysIn (year : Int) (month : Nat) : Nat :=
  match month with
  | 1 | 3 | 5 | 7 | 8 | 10 | 12 => 31
  | 4 | 6 | 9 | 11 => 30
  | 2 => if isLeap year then 29 else 28
  | _ => 0

/-- The first year there is. -/
def firstYear : Int := -262143

/-- The last year there is. -/
def lastYear : Int := 262142

/-- Whether the fields name a moment. -/
def isValid (c : Civil) : Bool :=
  firstYear ≤ c.year && c.year ≤ lastYear && 1 ≤ c.day && c.day ≤ daysIn c.year c.month &&
    c.hour < 24 && c.minute < 60 && c.second < 60 &&
    (c.nano < 1_000_000_000 || (c.second == 59 && c.nano < 2_000_000_000))

/-- The same time on the day before. -/
def dayBefore (c : Civil) : Civil :=
  if 1 < c.day then { c with day := c.day - 1 }
  else if 1 < c.month then { c with month := c.month - 1, day := daysIn c.year (c.month - 1) }
  else { c with year := c.year - 1, month := 12, day := 31 }

/-- The same time on the day after. -/
def dayAfter (c : Civil) : Civil :=
  if c.day < daysIn c.year c.month then { c with day := c.day + 1 }
  else if c.month < 12 then { c with month := c.month + 1, day := 1 }
  else { c with year := c.year + 1, month := 1, day := 1 }

/-- The same seconds at another minute of the day. -/
def atMinute (c : Civil) (minute : Nat) : Civil :=
  { c with hour := minute / 60, minute := minute % 60 }

/-- The fields `minutes` earlier, for less than a day. -/
def earlier (c : Civil) (minutes : Int) : Civil :=
  let m : Int := (60 * c.hour + c.minute : Nat) - minutes
  if m < 0 then (c.dayBefore).atMinute (m + 1440).toNat
  else if 1440 ≤ m then (c.dayAfter).atMinute (m - 1440).toNat
  else c.atMinute m.toNat

end Civil

/-- A moment in UTC. -/
structure Instant where
  civil : Civil
  valid : civil.isValid = true
  deriving DecidableEq, Repr

namespace Instant

/-- The moment that fields name. -/
def ofCivil? (c : Civil) : Option Instant :=
  if h : c.isValid then some ⟨c, h⟩ else none

/-- The fields from the greatest unit down, which are compared in this order. -/
def key (t : Instant) : List Int :=
  [t.civil.year, t.civil.month, t.civil.day, t.civil.hour, t.civil.minute, t.civil.second,
    t.civil.nano]

/-- Whether `t` is not after `u`. -/
def le (t u : Instant) : Bool :=
  !u.key.lex t.key fun a b => decide (a < b)

end Instant

end ZoneRelay
