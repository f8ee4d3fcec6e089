namespace DeploymentBackup

/-!
# Instants and their stamps

An instant is a number of seconds from the start of 1970, possibly within a leap second.
Artifacts are named after the instant of their backup and their records hold its start and
its finish.

* `Civil.ofInstant` — the calendar date and the time of day, in the Gregorian calendar.
* `Instant.compact` — `20240301T123005Z`, for directory names.
* `Instant.stamp` — `2024/03/01 12:30:05 UTC`, for records.
-/

/-- A point in time: seconds from the start of 1970, and whether the leap second that
    follows this second is meant. -/
structure Instant where
  seconds : Int
  leap : Bool
deriving DecidableEq, Repr

/-- A date and a time of day. -/
structure Civil where
  year : Int
  month : Nat
  day : Nat
  hour : Nat
  minute : Nat
  second : Nat
deriving DecidableEq, Repr

/-- The seconds of a day. -/
def secondsPerDay : Int := 86400

/-- Days of the 400 years in which the calendar repeats. -/
def daysPerEra : Int := 146097

/-- The date of a day, counted from the start of 1970. Years are counted from the first of
    March, so that a leap day is the last day of its year. -/
def dateOfDay (day : Int) : Int × Nat × Nat :=
  let shifted := day + 719468
  let era := Int.fdiv shifted daysPerEra
  let dayOfEra := (Int.fmod shifted daysPerEra).toNat
  let yearOfEra := (dayOfEra - dayOfEra / 1460 + dayOfEra / 36524 - dayOfEra / 146096) / 365
  let dayOfYear := dayOfEra - (365 * yearOfEra + yearOfEra / 4 - yearOfEra / 100)
  let shiftedMonth := (5 * dayOfYear + 2) / 153
  let day := dayOfYear - (153 * shiftedMonth + 2) / 5 + 1
  let month := if shiftedMonth < 10 then shiftedMonth + 3 else shiftedMonth - 9
  let year := yearOfEra + era * 400 + (if month ≤ 2 then 1 else 0)
  (year, month, day)

/-- The date and time of day of an instant; a leap second is the second 60. -/
def Civil.ofInstant (t : Instant) : Civil :=
  let (year, month, day) := dateOfDay (Int.fdiv t.seconds secondsPerDay)
  let time := (Int.fmod t.seconds secondsPerDay).toNat
  ⟨year, month, day, time / 3600, time / 60 % 60, time % 60 + if t.leap then 1 else 0⟩

/-- A number with zeros in front, at least `width` digits. -/
def zeroPadded (width n : Nat) : String :=
  let digits := toString n
  String.ofList (List.replicate (width - digits.length) '0') ++ digits

/-- A year: four digits up to 9999, with a sign before and after these years. -/
def yearText (year : Int) : String :=
  if 0 ≤ year ∧ year ≤ 9999 then zeroPadded 4 year.toNat
  else (if year < 0 then "-" else "+") ++ zeroPadded 4 year.natAbs

/-- The stamp of an instant in directory names. -/
def Instant.compact (t : Instant) : String :=
  let c := Civil.ofInstant t
  yearText c.year ++ zeroPadded 2 c.month ++ zeroPadded 2 c.day ++ "T" ++
    zeroPadded 2 c.hour ++ zeroPadded 2 c.minute ++ zeroPadded 2 c.second ++ "Z"

/-- The stamp of an instant in records. -/
def Instant.stamp (t : Instant) : String :=
  let c := Civil.ofInstant t
  yearText c.year ++ "/" ++ zeroPadded 2 c.month ++ "/" ++ zeroPadded 2 c.day ++ " " ++
    zeroPadded 2 c.hour ++ ":" ++ zeroPadded 2 c.minute ++ ":" ++ zeroPadded 2 c.second ++ " UTC"

/-- The directory of a new backup of a deployment. -/
def defaultDirectoryName (deployment : String) (at_ : Instant) : String :=
  deployment ++ "_" ++ at_.compact

end DeploymentBackup
