import ModuleGraph.Text.Hex
import ModuleGraph.Url.Error

/-!
# IPv6 hosts

The text between the brackets of a host is eight pieces of up to four hexadecimal digits with
colons between them. `::` stands once for one piece of zeros or more, and the last two pieces may
be written as an IPv4 address.

`render` writes the pieces in lower case without leading zeros, the first of the longest runs of
at least two zero pieces as `::`.
-/

namespace ModuleGraph.Ipv6

/-- The pieces read so far, last one first, and how many of them stood before the end of `::`.
The `::` itself counts as one piece of zeros. -/
structure Progress where
  pieces : List Nat
  gap : Option Nat

/-- The value of the first digits, at most `n` of them, and what follows. -/
def takeHex : Nat → Nat → List Char → Nat × List Char
  | 0, value, cs => (value, cs)
  | _ + 1, value, [] => (value, [])
  | n + 1, value, c :: cs =>
    match Hex.digitValue? c with
    | some d => takeHex n (value * 16 + d) cs
    | none => (value, c :: cs)

/-- What follows the digits is no longer than the text. -/
theorem length_takeHex (n value : Nat) (cs : List Char) :
    (takeHex n value cs).2.length ≤ cs.length := by
  fun_induction takeHex n value cs with
  | case1 => simp
  | case2 => simp
  | case3 _ _ _ _ _ _ ih => simp only [List.length_cons]; omega
  | case4 => simp

/-- A decimal number up to 255 without leading zeros. -/
def byte? (cs : List Char) : Option Nat :=
  let value := cs.foldl (fun n c => n * 10 + (c.toNat - 48)) 0
  if cs.isEmpty || !cs.all Char.isDigit || (2 ≤ cs.length && cs.head? == some '0') || 255 < value
  then none
  else some value

/-- The two pieces of an IPv4 address that ends the text. -/
def embedded? (cs : List Char) : Option (Nat × Nat) :=
  match (cs.splitOn '.').mapM byte? with
  | some [a, b, c, d] => some (a * 256 + b, c * 256 + d)
  | _ => none

/-- Reads pieces to the end of the text. -/
def pieces? (p : Progress) (cs : List Char) : Option Progress :=
  match _hcs : cs with
  | [] => some p
  | c :: rest =>
    if 8 ≤ p.pieces.length then none
    else if c = ':' then
      if p.gap.isSome then none
      else pieces? ⟨0 :: p.pieces, some (p.pieces.length + 1)⟩ rest
    else
      match _hr : takeHex 4 0 cs with
      | (value, []) => some { p with pieces := value :: p.pieces }
      | (value, d :: more) =>
        if d = '.' then
          if p.pieces.length ≤ 6 && more.length + 1 < cs.length then
            (embedded? cs).map fun (high, low) =>
              { p with pieces := low :: high :: p.pieces }
          else none
        else if d = ':' && !more.isEmpty then
          pieces? { p with pieces := value :: p.pieces } more
        else none
termination_by cs.length
decreasing_by
  · simp
  · have := length_takeHex 4 0 cs
    rw [_hr] at this
    subst _hcs
    simp only [List.length_cons] at this ⊢
    omega

/-- The eight pieces, the gap filled with zeros. -/
def expand (p : Progress) : Option (List Nat) :=
  let ps := p.pieces.reverse
  match p.gap with
  | none => if ps.length = 8 then some ps else none
  | some k => some (ps.take k ++ List.replicate (8 - ps.length) 0 ++ ps.drop k)

/-- The pieces of an address written between brackets. -/
def parse (cs : List Char) : Except UrlError (List Nat) :=
  let read :=
    match cs with
    | ':' :: ':' :: rest => pieces? ⟨[0], some 1⟩ rest
    | ':' :: _ => none
    | [] => none
    | [_] => none
    | _ => pieces? ⟨[], none⟩ cs
  match read.bind expand with
  | some ps => .ok ps
  | none => .error .invalidIpv6

/-- A piece without leading zeros. -/
def renderPiece (n : Nat) : List Char :=
  Nat.toDigits 16 n

/-- The length of the run of zeros at the start. -/
def zeroRun (ps : List Nat) : Nat :=
  (ps.takeWhile (· == 0)).length

/-- Where the first of the longest runs of zeros starts, and its length. -/
def longestZeroRun : Nat → List Nat → Nat × Nat
  | _, [] => (0, 0)
  | i, p :: ps =>
    let here := zeroRun (p :: ps)
    let later := longestZeroRun (i + 1) ps
    if here = 0 ∨ here < later.2 then later else (i, here)

/-- Pieces with colons between them. -/
def joinPieces (ps : List Nat) : List Char :=
  [':'].intercalate (ps.map renderPiece)

/-- The text of an address, with its brackets. -/
def render (ps : List Nat) : String :=
  let (start, run) := longestZeroRun 0 ps
  let body :=
    if run < 2 then joinPieces ps
    else joinPieces (ps.take start) ++ [':', ':'] ++ joinPieces (ps.drop (start + run))
  String.ofList ('[' :: body ++ [']'])

end ModuleGraph.Ipv6
