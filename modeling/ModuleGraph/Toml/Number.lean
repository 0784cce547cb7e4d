import ModuleGraph.Text.Hex
import ModuleGraph.Toml.Basic

/-!
# Numbers in TOML

Digits may be grouped by single underscores. An integer is decimal, without leading zeros, or
follows `0x`, `0o` or `0b`; it has to fit into 64 bits. A float has a fraction, an exponent or
both, or is one of the words `inf` and `nan`.
-/

namespace ModuleGraph.Toml

/-- The value of a digit in a base up to 16. -/
def digitBelow? (base : Nat) (c : Char) : Option Nat :=
  (Hex.digitValue? c).filter (· < base)

/-- The values of grouped digits, and what follows them. -/
def digits? (base : Nat) (cs : List Char) : Option (List Nat × List Char) :=
  let isPart (c : Char) := c == '_' || (digitBelow? base c).isSome
  let groups := (cs.takeWhile isPart).splitOn '_'
  if groups.any List.isEmpty then none
  else some (groups.flatten.filterMap (digitBelow? base), cs.dropWhile isPart)

/-- The number that digits write. -/
def ofDigits (base : Nat) (digits : List Nat) : Nat :=
  digits.foldl (fun n d => n * base + d) 0

/-- Whether a minus sign stands first, and what follows the sign. -/
def sign : List Char → Bool × List Char
  | [] => (false, [])
  | c :: rest =>
    if c = '-' then (true, rest) else if c = '+' then (false, rest) else (false, c :: rest)

/-- The value of a decimal integer with its sign, and what follows. -/
def decimal? (cs : List Char) : Option (Int × List Char) := do
  let (isNegative, cs) := sign cs
  let (digits, rest) ← digits? 10 cs
  if digits.head? = some 0 ∧ digits.length ≠ 1 then none
  else
    let n : Int := ofDigits 10 digits
    return (if isNegative then -n else n, rest)

/-- The base that two characters announce. -/
def baseOf? (a b : Char) : Option Nat :=
  if a ≠ '0' then none
  else if b = 'x' then some 16
  else if b = 'o' then some 8
  else if b = 'b' then some 2
  else none

/-- The value of an integer of any form, and what follows. -/
def anyInteger? (cs : List Char) : Option (Int × List Char) :=
  match cs with
  | a :: b :: rest =>
    match baseOf? a b with
    | some base => do
      let (digits, rest) ← digits? base rest
      return (ofDigits base digits, rest)
    | none => decimal? cs
  | _ => decimal? cs

/-- An integer of 64 bits, and what follows. -/
def integer? (cs : List Char) : Option (TomlValue × List Char) := do
  let (n, rest) ← anyInteger? cs
  if Int64.minValue.toInt ≤ n ∧ n ≤ Int64.maxValue.toInt then some (.integer n, rest) else none

/-- What follows a fraction. -/
def skipFraction? : List Char → Option (List Char)
  | [] => none
  | c :: rest => if c = '.' then (digits? 10 rest).map (·.2) else none

/-- What follows an exponent. -/
def skipExponent? : List Char → Option (List Char)
  | [] => none
  | c :: rest => if c = 'e' ∨ c = 'E' then (digits? 10 (sign rest).2).map (·.2) else none

/-- What follows the words `inf` and `nan`. -/
def skipWord? : List Char → Option (List Char)
  | a :: b :: c :: rest =>
    if [a, b, c] = ['i', 'n', 'f'] ∨ [a, b, c] = ['n', 'a', 'n'] then some rest else none
  | _ => none

/-- What follows a float. -/
def skipFloat? (cs : List Char) : Option (List Char) :=
  match decimal? cs with
  | none => skipWord? (sign cs).2
  | some (_, rest) =>
    match skipFraction? rest with
    | none => skipExponent? rest
    | some rest => some ((skipExponent? rest).getD rest)

/-- The text between a place and a later one. -/
def textUpTo (cs rest : List Char) : String :=
  String.ofList (cs.take (cs.length - rest.length))

/-- A float, and what follows. -/
def float? (cs : List Char) : Option (TomlValue × List Char) :=
  (skipFloat? cs).map fun rest => (.float (textUpTo cs rest), rest)

end ModuleGraph.Toml
