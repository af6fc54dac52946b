import SchemaVersioning.Json.Reader
import SchemaVersioning.Yaml.Cursor

/-!
# Dates and times

A date is written `2001-12-14`; a time of day may follow it, with a fraction of a second and a time
zone.  A date written alone, without a tag, has two digits for the month and for the day.
-/

namespace SchemaVersioning.Yaml

/-- A time of day; a zone is its offset from Greenwich in minutes. -/
structure TimeOfDay where
  hour : Nat
  minute : Nat
  second : Nat
  micro : Nat
  zone : Option Int
deriving DecidableEq, Repr

/-- A date as it is written, with a time of day or without. -/
structure WrittenMoment where
  year : Nat
  month : Nat
  day : Nat
  time : Option TimeOfDay
deriving DecidableEq, Repr

namespace WrittenMoment

/-! ## Reading -/

/-- A number of at least `least` and at most `most` digits, and what follows it. -/
def number? (least most : Nat) (cs : List Char) : Option (Nat × List Char) :=
  let run := cs.takeWhile Json.isDigit
  if least ≤ run.length ∧ run.length ≤ most then
    some (Json.digitsNumber run, cs.drop run.length)
  else none

/-- What follows a mark. -/
def behind? (mark : Char) : List Char → Option (List Char)
  | c :: rest => if c = mark then some rest else none
  | [] => none

/-- The first six digits of a fraction, and what follows them all. -/
def fraction : List Char → Nat × List Char
  | '.' :: cs =>
    let run := cs.takeWhile Json.isDigit
    let six := (run ++ List.replicate 6 '0').take 6
    (Json.digitsNumber six, cs.drop run.length)
  | cs => (0, cs)

/-- A time zone at the end of the text; blanks may stand before it. -/
def zone? (cs : List Char) : Option (Option Int) :=
  if cs.isEmpty then some none
  else
    let signed (sign : Int) (cs : List Char) : Option (Option Int) := do
      let (hours, cs) ← number? 1 2 cs
      let (minutes, cs) ← if cs.isEmpty then some (0, cs) else (behind? ':' cs).bind (number? 2 2)
      if cs.isEmpty then some (some (sign * (60 * hours + minutes : Nat))) else none
    match cs.dropWhile isBlank with
    | ['Z'] => some (some 0)
    | '+' :: cs => signed 1 cs
    | '-' :: cs => signed (-1) cs
    | _ => none

/-- A time of day behind a date. -/
def time? (cs : List Char) : Option TimeOfDay := do
  let cs ← match cs with
    | 'T' :: cs => some cs
    | 't' :: cs => some cs
    | c :: cs => if isBlank c then some (cs.dropWhile isBlank) else none
    | [] => none
  let (hour, cs) ← number? 1 2 cs
  let (minute, cs) ← (behind? ':' cs).bind (number? 2 2)
  let (second, cs) ← (behind? ':' cs).bind (number? 2 2)
  let (micro, cs) := fraction cs
  some ⟨hour, minute, second, micro, ← zone? cs⟩

/-- A date, with a time of day or without. -/
def ofChars? (cs : List Char) : Option WrittenMoment := do
  let (year, cs) ← number? 4 4 cs
  let (month, cs) ← (behind? '-' cs).bind (number? 1 2)
  let (day, cs) ← (behind? '-' cs).bind (number? 1 2)
  if cs.isEmpty then some ⟨year, month, day, none⟩
  else some ⟨year, month, day, some (← time? cs)⟩

/-- Whether a plain scalar without a tag is a date. -/
def isPlain (cs : List Char) : Bool :=
  match ofChars? cs with
  | none => false
  | some m => m.time.isSome || cs.length = 10

/-! ## Meaning -/

def isLeap (year : Nat) : Bool := year % 4 = 0 && (year % 100 != 0 || year % 400 = 0)

/-- How many days a month has. -/
def daysIn (year month : Nat) : Nat :=
  if month = 2 then (if isLeap year then 29 else 28)
  else if month = 4 ∨ month = 6 ∨ month = 9 ∨ month = 11 then 30
  else 31

/-- The span of time of some minutes, in days and the seconds beyond them. -/
def minutesText (minutes : Int) : String :=
  let days := minutes.fdiv 1440
  let seconds := 60 * minutes.fmod 1440
  let parts := (if days = 0 then [] else [s!"days={days}"])
    ++ (if seconds = 0 then [] else [s!"seconds={seconds}"])
  "datetime.timedelta(" ++ ", ".intercalate parts ++ ")"

/-- Why there is no such date. -/
def dateFault? (m : WrittenMoment) : Option String :=
  if m.year = 0 then some "year 0 is out of range"
  else if m.month = 0 ∨ 12 < m.month then some "month must be in 1..12"
  else if m.day = 0 ∨ daysIn m.year m.month < m.day then some "day is out of range for month"
  else none

/-- Why there is no such zone. -/
def zoneFault? (t : TimeOfDay) : Option String :=
  match t.zone with
  | some z =>
    if z.natAbs < 1440 then none
    else
      some <| "offset must be a timedelta strictly between -timedelta(hours=24) and "
        ++ s!"timedelta(hours=24), not {minutesText z}."
  | none => none

/-- Why there is no such time of day. -/
def timeFault? (t : TimeOfDay) : Option String :=
  if 23 < t.hour then some "hour must be in 0..23"
  else if 59 < t.minute then some "minute must be in 0..59"
  else if 59 < t.second then some "second must be in 0..59"
  else none

/-- Why there is no such moment; of several reasons the zone comes first. -/
def fault? (m : WrittenMoment) : Option String :=
  (m.time.bind zoneFault?).or (m.dateFault?.or (m.time.bind timeFault?))

/-- The zone of a time as it is shown. -/
def zoneText (zone : Int) : String :=
  if zone = 0 then "datetime.timezone.utc" else s!"datetime.timezone({minutesText zone})"

/-- The moment as it is shown. -/
def shown (m : WrittenMoment) : String :=
  let date := [toString m.year, toString m.month, toString m.day]
  match m.time with
  | none => "datetime.date(" ++ ", ".intercalate date ++ ")"
  | some t =>
    let tail :=
      if t.micro ≠ 0 then [toString t.second, toString t.micro]
      else if t.second ≠ 0 then [toString t.second]
      else []
    let zone := t.zone.toList.map fun z => "tzinfo=" ++ zoneText z
    let parts := date ++ [toString t.hour, toString t.minute] ++ tail ++ zone
    "datetime.datetime(" ++ ", ".intercalate parts ++ ")"

/-! ## Order in time -/

/-- How many days the years before a year have, and the months of that year before a month. -/
def daysBefore (year month : Nat) : Nat :=
  let y := year - 1
  365 * y + y / 4 - y / 100 + y / 400
    + (List.range (month - 1)).foldl (fun n m => n + daysIn year (m + 1)) 0

/-- The microseconds since the first day of the first year, for a time with a zone. -/
def instant? (m : WrittenMoment) : Option Int := do
  let t ← m.time
  let zone ← t.zone
  let minutes : Int := (daysBefore m.year m.month + m.day) * 1440 + t.hour * 60 + t.minute - zone
  some ((minutes * 60 + t.second) * 1000000 + t.micro)

end WrittenMoment

end SchemaVersioning.Yaml
