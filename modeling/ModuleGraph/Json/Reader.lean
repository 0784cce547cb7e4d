import ModuleGraph.Json.Basic

/-!
# Reading JSON

`JsonValue.parse?` reads one JSON value, with nothing but white space around it, from bytes.
Arrays and objects may be nested to any depth: the records that are read from JSON are shallow, and
what stands beside their fields is skipped however deep it is. A string whose bytes or escapes make
no text is read all the same and has no text.

There are at most two calls for a byte, one for the array or object that the byte opens and one for
its first value, so that twice the number of bytes bounds the depth of calls.
-/

namespace ModuleGraph.JsonValue

/-- The bytes from the first one that is no white space. -/
def skipBlank (bs : List UInt8) : List UInt8 :=
  bs.dropWhile fun b => b == 0x20 || b == 0x0A || b == 0x0D || b == 0x09

/-- The byte of an ASCII character. -/
def byteOf (c : Char) : UInt8 := UInt8.ofNat c.toNat

/-- What follows a word. -/
def after? (word : String) (bs : List UInt8) : Option (List UInt8) :=
  let w := Utf8.bytesOf word
  if w.isPrefixOf bs then some (bs.drop w.length) else none

/-! ## Numbers -/

/-- The byte is a decimal digit. -/
def isDigit (b : UInt8) : Bool :=
  0x30 ≤ b && b ≤ 0x39

/-- What follows one digit or more. -/
def skipDigits? (bs : List UInt8) : Option (List UInt8) :=
  if bs.head?.any isDigit then some (bs.dropWhile isDigit) else none

/-- A fraction and an exponent, where they stand: whether one does, and what follows. -/
def skipFraction? (bs : List UInt8) : Option (Bool × List UInt8) := do
  let (hasPoint, bs) ←
    match bs with
    | b :: rest => if b = byteOf '.' then (skipDigits? rest).map (true, ·) else some (false, bs)
    | [] => some (false, [])
  match bs with
  | b :: rest =>
    if b = byteOf 'e' ∨ b = byteOf 'E' then
      let rest :=
        if rest.head?.any (fun s => s == byteOf '+' || s == byteOf '-') then rest.drop 1 else rest
      (skipDigits? rest).map (true, ·)
    else some (hasPoint, bs)
  | [] => some (hasPoint, [])

/-- The number that decimal digits write. -/
def decimal (bs : List UInt8) : Nat :=
  bs.foldl (fun n b => n * 10 + (b.toNat - 0x30)) 0

/-- The number that bytes start with, and what follows. -/
def number? (bs : List UInt8) : Option (JsonValue × List UInt8) := do
  let isNegative := bs.head? == some (byteOf '-')
  let bs := if isNegative then bs.drop 1 else bs
  let digits := bs.takeWhile isDigit
  if digits.isEmpty || (digits.head? == some 0x30 && digits.length != 1) then failure
  let (isFraction, rest) ← skipFraction? (bs.dropWhile isDigit)
  return (.number (if isNegative || isFraction then none else some (decimal digits)), rest)

/-! ## Strings -/

/-- The value of four hexadecimal digits, and what follows. -/
def unit? : List UInt8 → Option (Nat × List UInt8)
  | a :: b :: c :: d :: rest => do
    let digits ← [a, b, c, d].mapM fun x => Hex.digitValue? (Char.ofNat x.toNat)
    return (digits.foldl (· * 16 + ·) 0, rest)
  | _ => none

/-- The byte that a one-letter escape stands for. -/
def escaped? (b : UInt8) : Option UInt8 :=
  if b = byteOf '"' ∨ b = byteOf '\x5c' ∨ b = byteOf '/' then some b
  else if b = byteOf 'b' then some 0x08
  else if b = byteOf 'f' then some 0x0C
  else if b = byteOf 'n' then some 0x0A
  else if b = byteOf 'r' then some 0x0D
  else if b = byteOf 't' then some 0x09
  else none

/-- The bytes that escaped UTF-16 units stand for, and what follows. A unit that is half of a
character and lacks the other half stands for nothing. -/
def unicodeEscape? (bs : List UInt8) : Option (Option (List UInt8) × List UInt8) := do
  let (n, rest) ← unit? bs
  if 0xD800 ≤ n ∧ n ≤ 0xDBFF then
    match (after? "\\u" rest).bind unit? with
    | some (low, more) =>
      if 0xDC00 ≤ low ∧ low ≤ 0xDFFF then
        let c := Char.ofNat (0x10000 + (n - 0xD800) * 0x400 + (low - 0xDC00))
        return (some (String.utf8EncodeChar c), more)
      else return (none, rest)
    | none => return (none, rest)
  else if 0xDC00 ≤ n ∧ n ≤ 0xDFFF then return (none, rest)
  else return (some (String.utf8EncodeChar (Char.ofNat n)), rest)

/-- The bytes of a string after its opening quote, last one first in `read`, and what follows the
closing quote. -/
def stringFrom? : (fuel : Nat) → (read : Option (List UInt8)) → List UInt8 →
    Option (Option (List UInt8) × List UInt8)
  | 0, _, _ => none
  | _ + 1, _, [] => none
  | fuel + 1, read, b :: rest =>
    if b = byteOf '"' then some (read.map List.reverse, rest)
    else if b < 0x20 then none
    else if b = byteOf '\x5c' then
      match rest with
      | [] => none
      | e :: rest =>
        if e = byteOf 'u' then
          match unicodeEscape? rest with
          | none => none
          | some (bytes, rest) =>
            stringFrom? fuel (read.bind fun r => bytes.map (·.reverse ++ r)) rest
        else
          match escaped? e with
          | none => none
          | some x => stringFrom? fuel (read.map (x :: ·)) rest
    else stringFrom? fuel (read.map (b :: ·)) rest

/-- The text of a string after its opening quote, if it is one, and what follows. -/
def stringBody? (bs : List UInt8) : Option (Option String × List UInt8) :=
  (stringFrom? (bs.length + 1) (some []) bs).map fun (read, rest) =>
    (read.bind Utf8.string?, rest)

/-! ## Values -/

mutual

/-- The value that bytes start with, and what follows. -/
def valueFrom? : (fuel : Nat) → List UInt8 → Option (JsonValue × List UInt8)
  | 0, _ => none
  | fuel + 1, bs =>
    match skipBlank bs with
    | [] => none
    | b :: rest =>
      if b = byteOf 'n' then (after? "ull" rest).map (.null, ·)
      else if b = byteOf 't' then (after? "rue" rest).map (.bool true, ·)
      else if b = byteOf 'f' then (after? "alse" rest).map (.bool false, ·)
      else if b = byteOf '"' then (stringBody? rest).map fun (s, rest) => (.string s, rest)
      else if b = byteOf '[' then
        match skipBlank rest with
        | [] => none
        | c :: more =>
          if c = byteOf ']' then some (.array [], more)
          else (elementsFrom? fuel rest).map fun (xs, rest) => (.array xs, rest)
      else if b = byteOf '\x7b' then
        match skipBlank rest with
        | [] => none
        | c :: more =>
          if c = byteOf '\x7d' then some (.object [], more)
          else (membersFrom? fuel rest).map fun (ms, rest) => (.object ms, rest)
      else number? (b :: rest)

/-- The elements of an array up to its end, and what follows. -/
def elementsFrom? : (fuel : Nat) → List UInt8 → Option (List JsonValue × List UInt8)
  | 0, _ => none
  | fuel + 1, bs =>
    match valueFrom? fuel bs with
    | none => none
    | some (x, rest) =>
      match skipBlank rest with
      | [] => none
      | c :: more =>
        if c = byteOf ']' then some ([x], more)
        else if c = byteOf ',' then
          (elementsFrom? fuel more).map fun (xs, rest) => (x :: xs, rest)
        else none

/-- The members of an object up to its end, and what follows. -/
def membersFrom? : (fuel : Nat) → List UInt8 →
    Option (List (Option String × JsonValue) × List UInt8)
  | 0, _ => none
  | fuel + 1, bs =>
    match (after? "\"" (skipBlank bs)).bind stringBody? with
    | none => none
    | some (key, rest) =>
      match (after? ":" (skipBlank rest)).bind (valueFrom? fuel) with
      | none => none
      | some (v, rest) =>
        match skipBlank rest with
        | [] => none
        | c :: more =>
          if c = byteOf '\x7d' then some ([(key, v)], more)
          else if c = byteOf ',' then
            (membersFrom? fuel more).map fun (ms, rest) => ((key, v) :: ms, rest)
          else none

end

/-- The value that bytes write. -/
def parse? (bs : List UInt8) : Option JsonValue := do
  let (v, rest) ← valueFrom? (2 * bs.length + 2) bs
  if (skipBlank rest).isEmpty then some v else none

end ModuleGraph.JsonValue
