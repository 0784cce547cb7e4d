/-!
# Bytes of a text

Offsets into a source file count the bytes of its UTF-8 form, and file names and file contents
are bytes that need not be UTF-8 at all. `encode` gives a text's bytes and `size` their number.

`decode?` reads bytes back and answers only for well-formed UTF-8: no overlong form, no
surrogate, nothing above U+10FFFF. `decodeLossy` answers always: it puts U+FFFD in place of every
maximal ill-formed part, that is, of the longest run that begins a character and is not
continued, or of a single byte that begins none.
-/

namespace ModuleGraph.Utf8

/-- The bytes of a text. -/
def encode (cs : List Char) : List UInt8 :=
  cs.flatMap String.utf8EncodeChar

/-- The number of bytes of a text. -/
def size : List Char → Nat
  | [] => 0
  | c :: cs => c.utf8Size + size cs

@[simp] theorem size_nil : size [] = 0 := rfl

@[simp] theorem size_cons (c : Char) (cs : List Char) : size (c :: cs) = c.utf8Size + size cs :=
  rfl

@[simp] theorem size_append (as bs : List Char) : size (as ++ bs) = size as + size bs := by
  induction as with
  | nil => simp
  | cons a as ih => simp [ih, Nat.add_assoc]

@[simp] theorem encode_append (as bs : List Char) : encode (as ++ bs) = encode as ++ encode bs := by
  simp [encode]

/-- The size of a text is the number of its bytes. -/
theorem length_encode (cs : List Char) : (encode cs).length = size cs := by
  induction cs with
  | nil => rfl
  | cons c cs ih =>
    rw [show encode (c :: cs) = String.utf8EncodeChar c ++ encode cs from rfl]
    simp [ih]

/-- Every character has a byte. -/
theorem length_le_size (cs : List Char) : cs.length ≤ size cs := by
  induction cs with
  | nil => exact Nat.le_refl 0
  | cons c cs ih =>
    have hpos := c.utf8Size_pos
    rw [List.length_cons, size_cons]
    omega

/-- A character begun and not yet complete: how many bytes it still needs, the bounds of the next
one, and the value of the bits read. -/
structure Partial where
  owed : Nat
  low : UInt8
  high : UInt8
  bits : Nat

/-- What a byte between two characters does: it is a character, begins one, or neither. -/
inductive Lead where
  | whole (c : Char)
  | begins (p : Partial)
  | stray

/-- The table of first bytes. A second byte is bounded so that no overlong form, no surrogate and
nothing above U+10FFFF can follow. -/
def lead (b : UInt8) : Lead :=
  let n := b.toNat
  if n < 0x80 then .whole (Char.ofNat n)
  else if 0xC2 ≤ n ∧ n ≤ 0xDF then .begins ⟨1, 0x80, 0xBF, n - 0xC0⟩
  else if n = 0xE0 then .begins ⟨2, 0xA0, 0xBF, n - 0xE0⟩
  else if n = 0xED then .begins ⟨2, 0x80, 0x9F, n - 0xE0⟩
  else if 0xE1 ≤ n ∧ n ≤ 0xEF then .begins ⟨2, 0x80, 0xBF, n - 0xE0⟩
  else if n = 0xF0 then .begins ⟨3, 0x90, 0xBF, n - 0xF0⟩
  else if n = 0xF4 then .begins ⟨3, 0x80, 0x8F, n - 0xF0⟩
  else if 0xF1 ≤ n ∧ n ≤ 0xF3 then .begins ⟨3, 0x80, 0xBF, n - 0xF0⟩
  else .stray

/-- What a byte does to a character begun: it completes it, carries it on, or breaks it off. -/
def Partial.next (p : Partial) (b : UInt8) : Lead :=
  if p.low ≤ b ∧ b ≤ p.high then
    let bits := p.bits * 64 + (b.toNat - 0x80)
    if p.owed ≤ 1 then .whole (Char.ofNat bits)
    else .begins ⟨p.owed - 1, 0x80, 0xBF, bits⟩
  else .stray

/-- The characters that are decided, `none` for an ill-formed part, and the character begun. -/
def Lead.decided : Lead → List (Option Char) × Option Partial
  | whole c => ([some c], none)
  | begins p => ([], some p)
  | stray => ([none], none)

/-- What a byte decides. A byte that breaks a character off is read again as a first byte. -/
def step (state : Option Partial) (b : UInt8) : List (Option Char) × Option Partial :=
  match state with
  | none => (lead b).decided
  | some p =>
    match p.next b with
    | .stray =>
      let (out, next) := (lead b).decided
      (none :: out, next)
    | l => l.decided

/-- The characters of the bytes, with `none` in place of each ill-formed part. -/
def parts : Option Partial → List UInt8 → List (Option Char)
  | none, [] => []
  | some _, [] => [none]
  | state, b :: bs =>
    let (out, next) := step state b
    out ++ parts next bs

/-- The text of well-formed bytes. -/
def decode? (bs : List UInt8) : Option (List Char) :=
  (parts none bs).mapM id

/-- The character that stands for an ill-formed part. -/
def replacement : Char := '\uFFFD'

/-- The text of any bytes, with U+FFFD for every ill-formed part. -/
def decodeLossy (bs : List UInt8) : List Char :=
  (parts none bs).map (·.getD replacement)

/-- The bytes of a string. -/
def bytesOf (s : String) : List UInt8 :=
  encode s.toList

/-- The string of well-formed bytes. -/
def string? (bs : List UInt8) : Option String :=
  (decode? bs).map String.ofList

/-- The string of any bytes, with U+FFFD for every ill-formed part. -/
def stringLossy (bs : List UInt8) : String :=
  String.ofList (decodeLossy bs)

end ModuleGraph.Utf8
