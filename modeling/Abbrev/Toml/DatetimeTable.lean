import Abbrev.Toml.Value

/-! Dates and times as tables: under one key, a table has the text of a date or time. Wherever any
value may stand, such a table is read as the date or time. -/

namespace Abbrev.Toml

/-- The key of the text of a date or time. -/
def datetimeKey : String := "$__toml_private_datetime"

def Datetime.toTable (d : Datetime) : Value :=
  .table [(datetimeKey, .string (String.ofList d.text))]

/-- Whether a table stands for a date or time: its first key decides, the rest does not count. -/
def standsForDatetime : List (String × Value) → Bool
  | [] => false
  | (key, _) :: _ => key == datetimeKey

/-- The date or time written under the first key. -/
def Datetime.ofEntries? : List (String × Value) → Option Datetime
  | (_, .string s) :: _ => read? s.toList
  | _ => none

namespace Value

mutual

/-- A value in which every table that stands for a date or time has been read as that. -/
def withDatetimes? : Value → Option Value
  | array items => (itemsWithDatetimes? items).map array
  | table entries =>
    if standsForDatetime entries then (Datetime.ofEntries? entries).map datetime
    else (entriesWithDatetimes? entries).map table
  | v => some v

def itemsWithDatetimes? : List Value → Option (List Value)
  | [] => some []
  | v :: vs => do some ((← v.withDatetimes?) :: (← itemsWithDatetimes? vs))

def entriesWithDatetimes? : List (String × Value) → Option (List (String × Value))
  | [] => some []
  | (key, v) :: entries => do some ((key, ← v.withDatetimes?) :: (← entriesWithDatetimes? entries))

end

end Value

end Abbrev.Toml
