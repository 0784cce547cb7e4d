import ModuleGraph.Text.Hex
import ModuleGraph.Text.Utf8

/-!
# Percent encoding

In a URL a byte is written as `%` and two upper-case hexadecimal digits when its part of the URL
reserves it. Every part reserves the control characters and everything outside ASCII; the sets
below add to that. The set of a file name's characters is the one that keeps a name apart from
its neighbours in a path: it reserves `/`, `\` and `%` as well. Decoding gives bytes back that
were written with `%` reserved (`decode_encodeBytes`).

`decode` turns every well-formed triple into its byte and leaves the rest as it is.
-/

namespace ModuleGraph.Percent

/-- A control character of ASCII, which every part of a URL reserves. -/
def control (c : Char) : Bool :=
  c.toNat < 0x20 || c.toNat == 0x7F

/-- What a fragment reserves. -/
def fragment (c : Char) : Bool :=
  control c || c == ' ' || c == '"' || c == '<' || c == '>' || c == '\x60'

/-- What a path reserves. -/
def path (c : Char) : Bool :=
  fragment c || c == '#' || c == '?' || c == '\x7b' || c == '\x7d'

/-- What one segment of a path reserves when it stands for a file name. -/
def fileName (c : Char) : Bool :=
  path c || c == '/' || c == '%' || c == '\x5c'

/-- What a user name and a password reserve. -/
def userInfo (c : Char) : Bool :=
  path c || c == '/' || c == ':' || c == ';' || c == '=' || c == '@' || c == '[' || c == '\x5c' ||
    c == ']' || c == '^' || c == '|'

/-- What a query reserves. -/
def query (c : Char) : Bool :=
  control c || c == ' ' || c == '"' || c == '#' || c == '<' || c == '>'

/-- What a query reserves in a URL of one of the special schemes. -/
def specialQuery (c : Char) : Bool :=
  query c || c == '\x27'

/-- A byte as `%` and two digits. -/
def triple (b : UInt8) : List Char :=
  ['%', Hex.upperDigit (b.toNat / 16), Hex.upperDigit (b.toNat % 16)]

/-- A text with the reserved characters and those outside ASCII written as triples. -/
def encode (reserved : Char → Bool) (cs : List Char) : List Char :=
  cs.flatMap fun c =>
    if reserved c || 0x80 ≤ c.toNat then (String.utf8EncodeChar c).flatMap triple else [c]

/-- A byte as itself, or as a triple when it is reserved or not ASCII. -/
def encodeByte (reserved : Char → Bool) (b : UInt8) : List Char :=
  let c := Char.ofNat b.toNat
  if 0x80 ≤ b.toNat || reserved c then triple b else [c]

/-- Bytes written with reserved ones as triples. -/
def encodeBytes (reserved : Char → Bool) (bs : List UInt8) : List Char :=
  bs.flatMap (encodeByte reserved)

/-- The bytes of a text in which every well-formed triple is the byte it stands for. -/
def decode : List Char → List UInt8
  | [] => []
  | [c] => String.utf8EncodeChar c
  | [c, d] => String.utf8EncodeChar c ++ String.utf8EncodeChar d
  | c :: d :: e :: rest =>
    match c == '%', Hex.digitValue? d, Hex.digitValue? e with
    | true, some h, some l => UInt8.ofNat (16 * h + l) :: decode rest
    | _, _, _ => String.utf8EncodeChar c ++ decode (d :: e :: rest)

/-! ## Reading back -/

theorem digitValue?_upperDigit : ∀ n < 16, Hex.digitValue? (Hex.upperDigit n) = some n := by
  decide

theorem decode_triple (b : UInt8) (rest : List Char) :
    decode (triple b ++ rest) = b :: decode rest := by
  have hb := b.toNat_lt
  simp only [triple, List.cons_append, List.nil_append, decode, beq_self_eq_true,
    digitValue?_upperDigit _ (show b.toNat / 16 < 16 by omega),
    digitValue?_upperDigit _ (show b.toNat % 16 < 16 by omega)]
  rw [Nat.div_add_mod]
  simp

theorem decode_cons_of_ne {c : Char} (h : c ≠ '%') (rest : List Char) :
    decode (c :: rest) = String.utf8EncodeChar c ++ decode rest := by
  match rest with
  | [] => simp [decode]
  | [d] => simp [decode]
  | d :: e :: more =>
    have hc : (c == '%') = false := by simpa using h
    rw [decode, hc]

/-- A byte below 128 is the one byte of its character. -/
theorem utf8EncodeChar_ofNat :
    ∀ n < 0x80, String.utf8EncodeChar (Char.ofNat n) = [UInt8.ofNat n] := by
  decide

/-- Bytes written with `%` reserved are read back. -/
theorem decode_encodeBytes {reserved : Char → Bool} (h : reserved '%' = true) (bs : List UInt8) :
    decode (encodeBytes reserved bs) = bs := by
  induction bs with
  | nil => rfl
  | cons b bs ih =>
    rw [show encodeBytes reserved (b :: bs) = encodeByte reserved b ++ encodeBytes reserved bs
      from rfl, encodeByte]
    by_cases hb : (0x80 ≤ b.toNat || reserved (Char.ofNat b.toNat)) = true
    · simp only [hb, if_true]
      rw [decode_triple, ih]
    · rw [if_neg hb]
      simp only [Bool.or_eq_true, decide_eq_true_eq, not_or, Nat.not_le] at hb
      have hne : Char.ofNat b.toNat ≠ '%' := fun he => hb.2 (he ▸ h)
      rw [List.cons_append, List.nil_append, decode_cons_of_ne hne,
        utf8EncodeChar_ofNat _ hb.1, ih]
      simp

end ModuleGraph.Percent
