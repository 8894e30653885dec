import DocQuery.Toml.Parser

/-! # Reading dates and times

* `datetime`: a date, a time of day, or a date and a time with an offset.
-/

set_option autoImplicit false

namespace DocQuery.Toml

open DocQuery.Toml.Parser

/-- A number of a fixed count of digits between two bounds. -/
def field (count low high : Nat) : Parser Nat :=
  checked (exactly count Char.isDigit) fun ds =>
    let n := Nat.ofDigitChars 10 ds 0
    if low ≤ n && n ≤ high then .ok n else .error (.because .outOfRange)

/-- A date. From the point after the year on there is no other reading. -/
def date : Parser Date := do
  let year ← field 4 0 9999
  char '-'
  let month ← commit (field 2 1 12)
  commit (char '-')
  let day ← enforced (commit (field 2 1 31)) fun day =>
    if day ≤ daysIn year month then .ok day else .error (.because .outOfRange)
  return ⟨year, month, day⟩

/-- Parts of a second, of which nine digits count. -/
def nanoseconds : Parser Nat := do
  char '.'
  let ds ← takeWhile1 Char.isDigit
  return Nat.ofDigitChars 10 ((ds ++ List.replicate 9 '0').take 9) 0

/-- A time of day. From the colon after the hour on there is no other reading. The last second of a
minute may be one too many. -/
def time : Parser Time := do
  let hour ← field 2 0 23
  char ':'
  commit do
    let minute ← field 2 0 59
    char ':'
    let second ← field 2 0 60
    return ⟨hour, minute, second, (← opt nanoseconds).getD 0⟩

/-- The offset of a time zone. -/
def offset : Parser Offset :=
  let byName : Parser Offset := do
    let _ ← satisfy fun c => c == 'Z' || c == 'z'
    return .universal
  let byMinutes : Parser Offset := do
    let s ← satisfy fun c => c == '+' || c == '-'
    commit do
      let hour ← field 2 0 23
      char ':'
      let minute ← field 2 0 59
      let n : Int := hour * 60 + minute
      return .minutes (if s = '-' then -n else n)
  within "time offset" (byName <|> byMinutes)

/-- A time after a date, with its offset if it has one. -/
def timeOfDate : Parser (Time × Option Offset) := do
  let _ ← satisfy fun c => c == 'T' || c == 't' || c == ' '
  let t ← time
  return (t, ← opt offset)

/-- A date, a time of day, or both. -/
def datetime : Parser Datetime :=
  let dated : Parser Datetime := do
    let d ← date
    match ← opt timeOfDate with
    | some (t, o) => return .both d t o
    | none => return .date d
  within "date-time" dated <|> within "time" (do return .time (← time))

end DocQuery.Toml
