import ModuleGraph.Text.Alphanumeric
import ModuleGraph.Text.Utf8
import ModuleGraph.Url.Error
import ModuleGraph.Url.Punycode

/-!
# Domain names

The host of a URL with one of the special schemes is a domain name, and is kept in its ASCII
form: letters in lower case, and every label that holds other characters in Punycode behind the
mark `xn--`. A name is refused when it holds a character that ends or structures a URL, when a
label claims to be encoded and is not, or when a character has no place in a name.

Outside ASCII a name's characters are letters and digits in composed form, and symbols. Capital
letters of the Latin, Greek and Cyrillic blocks are folded, full-width forms and mathematical
alphabets are made ASCII, ideographic full stops are label separators, and soft hyphens and
variation selectors are left out.
-/

namespace ModuleGraph.Domain

/-- An ASCII character that no domain name holds. -/
def isForbidden (c : Char) : Bool :=
  c.toNat ≤ 0x20 || c.toNat == 0x7F || "%#/:<>?@[\\]^|".toList.contains c

/-- The ranges of punctuation, arrows, mathematical and technical symbols, dingbats, and pictures
that may stand in a name. -/
def symbolRanges : List (Nat × Nat) :=
  [(0xA1, 0xA7), (0xA9, 0xA9), (0xAB, 0xAC), (0xAE, 0xAE), (0xB0, 0xB1), (0xB6, 0xB7),
    (0xBB, 0xBB), (0xBF, 0xBF), (0xD7, 0xD7), (0xF7, 0xF7), (0x2010, 0x2010), (0x2012, 0x2016),
    (0x2018, 0x2023), (0x2027, 0x2027), (0x2030, 0x2032), (0x2038, 0x203B), (0x203F, 0x2046),
    (0x204A, 0x2056), (0x2058, 0x205E), (0x20A0, 0x20A7), (0x20A9, 0x20C0), (0x2190, 0x222B),
    (0x2231, 0x2328), (0x232B, 0x2426), (0x2440, 0x244A), (0x2500, 0x2775), (0x2794, 0x2A0B),
    (0x2A0D, 0x2A73), (0x2A77, 0x2ADB), (0x2ADD, 0x2B73), (0x2B76, 0x2B95), (0x2B97, 0x2BFF),
    (0x3001, 0x3001), (0x3003, 0x3004), (0x3008, 0x3020), (0x30FB, 0x30FB), (0x1F000, 0x1F02B),
    (0x1F030, 0x1F093), (0x1F1E6, 0x1F1FF), (0x1F300, 0x1F6D7), (0x1F6DD, 0x1F6EC),
    (0x1F6F0, 0x1F6FC), (0x1F780, 0x1F7D8), (0x1F7E0, 0x1F7EB), (0x1F900, 0x1FA53),
    (0x1FA70, 0x1FA74), (0x1FA78, 0x1FA7C), (0x1FA80, 0x1FA86), (0x1FA90, 0x1FAAC),
    (0x1FAB0, 0x1FABA), (0x1FAC0, 0x1FAC5), (0x1FAD0, 0x1FAD9), (0x1FAE0, 0x1FAE7),
    (0x1FAF0, 0x1FAF6)]

/-- A symbol that may stand in a name. -/
def isSymbol (n : Nat) : Bool :=
  symbolRanges.any fun r => r.1 ≤ n && n ≤ r.2

/-- The letter or the digit of a mathematical alphabet, in lower case. Each alphabet has the 26
capital letters and then the 26 small ones. -/
def mathematical? (n : Nat) : Option Char :=
  if 0x1D400 ≤ n ∧ n ≤ 0x1D6A3 ∧ Text.isAlphanumeric (Char.ofNat n) then
    some (Char.ofNat (0x61 + (n - 0x1D400) % 26))
  else if 0x1D7CE ≤ n ∧ n ≤ 0x1D7FF then some (Char.ofNat (0x30 + (n - 0x1D7CE) % 10))
  else none

/-- A character outside ASCII as it stands in a name: folded, left out, or refused. -/
def foldExtended? (n : Nat) : Option (List Char) :=
  if n = 0xAD ∨ n = 0x200B ∨ n = 0x2060 ∨ (0xFE00 ≤ n ∧ n ≤ 0xFE0F) then some []
  else if n = 0x3002 ∨ n = 0xFF0E ∨ n = 0xFF61 then some ['.']
  else if 0xFF01 ≤ n ∧ n ≤ 0xFF5E then some [(Char.ofNat (n - 0xFEE0)).toLower]
  else if (mathematical? n).isSome then (mathematical? n).map ([·])
  else if (0xC0 ≤ n ∧ n ≤ 0xDE ∧ n ≠ 0xD7) ∨ (0x391 ≤ n ∧ n ≤ 0x3A9 ∧ n ≠ 0x3A2) ∨
      (0x410 ≤ n ∧ n ≤ 0x42F) then some [Char.ofNat (n + 0x20)]
  else if 0x400 ≤ n ∧ n ≤ 0x40F then some [Char.ofNat (n + 0x50)]
  else if ((0x100 ≤ n ∧ n ≤ 0x137 ∧ n ≠ 0x130 ∧ n ≠ 0x131) ∨ (0x14A ≤ n ∧ n ≤ 0x177)) ∧ n % 2 = 0
    then some [Char.ofNat (n + 1)]
  else if ((0x139 ≤ n ∧ n ≤ 0x148) ∨ (0x179 ≤ n ∧ n ≤ 0x17E)) ∧ n % 2 = 1 then
    some [Char.ofNat (n + 1)]
  else if Text.isAlphanumeric (Char.ofNat n) ∨ (0x300 ≤ n ∧ n ≤ 0x36F) ∨ isSymbol n then
    some [Char.ofNat n]
  else none

/-- A character as it stands in a name. -/
def fold? (c : Char) : Option (List Char) :=
  if c.toNat < 0x80 then some [c.toLower] else foldExtended? c.toNat

/-- The mark of an encoded label. -/
def mark : List Char := "xn--".toList

/-- The ASCII form of a folded label. An encoded label has to hold something to encode, in the
form that folding gives. -/
def asciiLabel? (label : List Char) : Option (List Char) :=
  if label.all (·.toNat < 0x80) then
    if mark.isPrefixOf label then
      match Punycode.decode? (label.drop mark.length) with
      | some inner =>
        if inner.any (0x80 ≤ ·.toNat) && inner.all (fun c => fold? c == some [c]) then some label
        else none
      | none => none
    else some label
  else some (mark ++ Punycode.encode label)

/-- The ASCII form of a domain name given as bytes. -/
def toAscii (bytes : List UInt8) : Except UrlError (List Char) :=
  let labels? := do
    let name ← Utf8.decode? bytes
    let folded ← name.mapM fold?
    (folded.flatten.splitOn '.').mapM asciiLabel?
  match labels? with
  | some labels =>
    let name := ['.'].intercalate labels
    if name.any isForbidden then .error .invalidDomainName else .ok name
  | none => .error .invalidDomainName

end ModuleGraph.Domain
