/-!
# Hexadecimal texts

A digest is shown as the lower-case hexadecimal digits of its bytes, two for each byte.
`digitValue?` reads one digit of either case.
-/

namespace ModuleGraph.Hex

/-- The lower-case digit of a number below 16. -/
def digit (n : Nat) : Char :=
  if n < 10 then Char.ofNat (48 + n) else Char.ofNat (87 + n)

/-- The upper-case digit of a number below 16. -/
def upperDigit (n : Nat) : Char :=
  if n < 10 then Char.ofNat (48 + n) else Char.ofNat (55 + n)

/-- The value of a hexadecimal digit of either case. -/
def digitValue? (c : Char) : Option Nat :=
  let n := c.toNat
  if 48 ≤ n ∧ n ≤ 57 then some (n - 48)
  else if 97 ≤ n ∧ n ≤ 102 then some (n - 87)
  else if 65 ≤ n ∧ n ≤ 70 then some (n - 55)
  else none

/-- The two digits of a byte. -/
def ofByte (b : UInt8) : List Char :=
  [digit (b.toNat / 16), digit (b.toNat % 16)]

/-- The digits of a list of bytes. -/
def ofBytes (bs : List UInt8) : String :=
  String.ofList (bs.flatMap ofByte)

/-- A digit reads back. -/
theorem digitValue?_digit : ∀ n < 16, digitValue? (digit n) = some n := by
  decide

end ModuleGraph.Hex
