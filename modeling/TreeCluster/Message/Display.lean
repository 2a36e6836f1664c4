import TreeCluster.Message
import TreeCluster.Text.Decimal
import TreeCluster.Text.Quoted
import TreeCluster.Text.Utf8

/-! # Messages as text

One line with the header fields and the quoted contents, read as UTF-8 as far as they are.

A count of nanoseconds since 1970 began is shown in UTC with milliseconds, as in
`2000-02-29T00:00:00.000Z`.  All roundings go towards the past. -/

namespace TreeCluster

open Text

namespace Timestamp

open Text.Decimal (padded)

/-- A day of the calendar. -/
structure Date where
  year : Int
  month : Nat
  day : Nat
  deriving DecidableEq

/-- The day that is `days` after 1 January 1970.  Years are counted from 1 March, so that the
leap day is the last of its year; four centuries hold 146097 days. -/
def dateOfDays (days : Int) : Date :=
  let shifted := days + 719468
  let era := shifted.fdiv 146097
  let dayOfEra := (shifted - era * 146097).toNat
  let yearOfEra := (dayOfEra - dayOfEra / 1460 + dayOfEra / 36524 - dayOfEra / 146096) / 365
  let dayOfYear := dayOfEra - (365 * yearOfEra + yearOfEra / 4 - yearOfEra / 100)
  let monthFromMarch := (5 * dayOfYear + 2) / 153
  let day := dayOfYear - (153 * monthFromMarch + 2) / 5 + 1
  let month := if monthFromMarch < 10 then monthFromMarch + 3 else monthFromMarch - 9
  ⟨yearOfEra + era * 400 + (if month ≤ 2 then 1 else 0), month, day⟩

/-- The date and time in UTC with milliseconds. -/
def text (nanos : Int) : String :=
  let millis := nanos.fdiv 1000000
  let days := millis.fdiv 86400000
  let ofDay := (millis - days * 86400000).toNat
  let date := dateOfDays days
  padded 4 date.year.toNat ++ "-" ++ padded 2 date.month ++ "-" ++ padded 2 date.day ++ "T" ++
    padded 2 (ofDay / 3600000) ++ ":" ++ padded 2 (ofDay / 60000 % 60) ++ ":" ++
    padded 2 (ofDay / 1000 % 60) ++ "." ++ padded 3 (ofDay % 1000) ++ "Z"

end Timestamp

namespace Message

/-- A frame as text, if it is UTF-8. -/
def contentText (m : Message) (index : Nat) : Option String :=
  (m.content index).bind fun frame => (Utf8.decode frame).toOption

/-- The line that describes a message. -/
def display (m : Message) : String :=
  "Message[action=" ++ m.action.text ++ " state=" ++ m.state.text ++
    " time=" ++ Timestamp.text m.time.toInt ++ " visits=" ++ Decimal.text m.visits.toNat ++
    " contents=[" ++
    ", ".intercalate (m.contents.map fun frame => Quoted.quoted (Utf8.lossy frame)) ++ "]]"

end Message
end TreeCluster
