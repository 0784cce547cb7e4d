import ModuleGraph.Toml.Number

/-!
# Dates and times in TOML

A date, a time of day, or a date with a time of day, which may have an offset. Days are those of
the calendar, and a minute may have a leap second.
-/

namespace ModuleGraph.Toml

/-- What follows a character. -/
def after? (c : Char) : List Char → Option (List Char)
  | [] => none
  | d :: rest => if d = c then some rest else none

/-- The value of two digits within bounds, and what follows. -/
def twoDigits? (low high : Nat) : List Char → Option (Nat × List Char)
  | a :: b :: rest => do
    let n := 10 * (← digitBelow? 10 a) + (← digitBelow? 10 b)
    if low ≤ n ∧ n ≤ high then some (n, rest) else none
  | _ => none

/-- The year has a 29th of February. -/
def isLeapYear (year : Nat) : Bool :=
  year % 4 == 0 && (year % 100 != 0 || year % 400 == 0)

/-- The number of days in a month. -/
def daysIn (year month : Nat) : Nat :=
  if month = 2 then if isLeapYear year then 29 else 28
  else if [4, 6, 9, 11].contains month then 30
  else 31

/-- What follows a date. -/
def skipDate? (cs : List Char) : Option (List Char) := do
  let (century, cs) ← twoDigits? 0 99 cs
  let (year, cs) ← twoDigits? 0 99 cs
  let (month, cs) ← twoDigits? 1 12 (← after? '-' cs)
  let (_, cs) ← twoDigits? 1 (daysIn (100 * century + year) month) (← after? '-' cs)
  return cs

/-- What follows a time of day. -/
def skipTime? (cs : List Char) : Option (List Char) := do
  let (_, cs) ← twoDigits? 0 23 cs
  let (_, cs) ← twoDigits? 0 59 (← after? ':' cs)
  let (_, cs) ← twoDigits? 0 60 (← after? ':' cs)
  match cs with
  | c :: rest =>
    if c = '.' then
      if (rest.head?.bind (digitBelow? 10)).isSome then
        return rest.dropWhile fun d => (digitBelow? 10 d).isSome
      else none
    else return cs
  | [] => return []

/-- What follows an offset. -/
def skipOffset? : List Char → Option (List Char)
  | [] => none
  | c :: rest =>
    if c = 'Z' ∨ c = 'z' then some rest
    else if c = '+' ∨ c = '-' then do
      let (_, cs) ← twoDigits? 0 23 rest
      let (_, cs) ← twoDigits? 0 59 (← after? ':' cs)
      return cs
    else none

/-- What follows a time of day after a date, if one is there. -/
def skipTimeAfterDate (cs : List Char) : List Char :=
  match cs with
  | [] => []
  | c :: rest =>
    if c = 'T' ∨ c = 't' ∨ c = ' ' then
      match skipTime? rest with
      | some rest => (skipOffset? rest).getD rest
      | none => cs
    else cs

/-- What follows a date or a time. -/
def skipDateTime? (cs : List Char) : Option (List Char) :=
  match skipDate? cs with
  | some rest => some (skipTimeAfterDate rest)
  | none => skipTime? cs

/-- A date or a time, and what follows. -/
def dateTime? (cs : List Char) : Option (TomlValue × List Char) :=
  (skipDateTime? cs).map fun rest => (.dateTime (textUpTo cs rest), rest)

end ModuleGraph.Toml
