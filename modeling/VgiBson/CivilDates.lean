import VgiBson.CursorWalks

/-! # Dates as text

The civil-time formatter of the core crate, on the days and seconds of the proleptic Gregorian
calendar. Every sum, difference and product is checked, as `i64` arithmetic may overflow. -/

namespace VgiBson.CivilDates

open CursorWalks

variable {ε : Type}

/-- A result of `i64` arithmetic. -/
def i64 (x : ℤ) : Outcome ε ℤ :=
  if -(2 ^ 63) ≤ x ∧ x < 2 ^ 63 then .ok x else .error .panic

/-- `x as u32`. -/
def asU32 (x : ℤ) : ℕ := (x % 2 ^ 32).toNat

/-- An integer with zeros in front up to the given width, sign included. -/
def padded (width : ℕ) (x : ℤ) : String :=
  let sign := if x < 0 then "-" else ""
  let digits := toString x.natAbs
  sign ++ String.ofList (List.replicate (width - sign.length - digits.length) '0') ++ digits

/-- Convert a count of days since 1970-01-01 into a civil year, month and day. -/
def civilFromDays (z : ℤ) : Outcome ε (ℤ × ℕ × ℕ) := do
  let z ← i64 (z + 719468)
  let first ← if z ≥ 0 then pure z else i64 (z - 146096)
  let era := first.tdiv 146097
  let doe ← i64 (z - (← i64 (era * 146097)))
  let leaps ← i64 ((← i64 ((← i64 (doe - doe.tdiv 1460)) + doe.tdiv 36524)) - doe.tdiv 146096)
  let yoe := leaps.tdiv 365
  let y ← i64 (yoe + (← i64 (era * 400)))
  let yearDays ← i64 ((← i64 ((← i64 (365 * yoe)) + yoe.tdiv 4)) - yoe.tdiv 100)
  let doy ← i64 (doe - yearDays)
  let mp := (← i64 ((← i64 (5 * doy)) + 2)).tdiv 153
  let monthDays := (← i64 ((← i64 (153 * mp)) + 2)).tdiv 5
  let d := asU32 (← i64 ((← i64 (doy - monthDays)) + 1))
  let m := asU32 (← if mp < 10 then i64 (mp + 3) else i64 (mp - 9))
  let year ← if m ≤ 2 then i64 (y + 1) else pure y
  pure (year, m, d)

/-- Minimal civil-time formatter. -/
def formatRfc3339 (secs : ℤ) (nanos : ℕ) : Outcome ε String := do
  let days := secs / 86400
  let rem := secs % 86400
  let hh := rem.tdiv 3600
  let mm := (rem.tmod 3600).tdiv 60
  let ss := rem.tmod 60
  let (year, month, day) ← civilFromDays days
  let time := padded 4 year ++ "-" ++ padded 2 month ++ "-" ++ padded 2 day ++ "T" ++
    padded 2 hh ++ ":" ++ padded 2 mm ++ ":" ++ padded 2 ss
  if nanos = 0 then pure (time ++ "Z") else
  let millis := nanos / 1000000
  pure (time ++ "." ++ padded 3 millis ++ "Z")

/-- Format epoch milliseconds as an RFC 3339 UTC string. -/
def epochMillisToRfc3339 (millis : ℤ) : Outcome ε String := do
  let secs := millis / 1000
  let nanos := asU32 (← i64 (millis % 1000 * 1000000))
  formatRfc3339 secs nanos

/-- Format epoch seconds as an RFC 3339 UTC string. -/
def epochSecsToRfc3339 (secs : ℤ) : Outcome ε String := formatRfc3339 secs 0

example : epochMillisToRfc3339 (ε := Empty) 1416994483000 = .ok "2014-11-26T09:34:43Z" := by decide

end VgiBson.CivilDates
