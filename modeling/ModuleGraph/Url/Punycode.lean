/-!
# Punycode

The ASCII form of a label that holds other characters (RFC 3492). A label's ASCII characters come
first, then a hyphen, then the others as gaps: each gap tells how far the next insertion is from
the previous one, counted over all positions of all code points in between. Gaps are written in a
mixed radix whose digit thresholds follow a bias that adapts to the gaps seen.

Every loop has a measure of its own: a gap shrinks with each digit, the code points to insert
run out, and decoding consumes its input.
-/

namespace ModuleGraph.Punycode

/-- The character of a digit below 36. -/
def digitChar (d : Nat) : Char :=
  if d < 26 then Char.ofNat (97 + d) else Char.ofNat (22 + d)

/-- The value of a digit, a letter of either case. -/
def digitValue? (c : Char) : Option Nat :=
  let n := c.toNat
  if 97 ≤ n ∧ n ≤ 122 then some (n - 97)
  else if 65 ≤ n ∧ n ≤ 90 then some (n - 65)
  else if 48 ≤ n ∧ n ≤ 57 then some (n - 22)
  else none

/-- The threshold of the digit at position `k`, where positions go up by 36. -/
def threshold (k bias : Nat) : Nat :=
  if k ≤ bias then 1 else if bias + 26 ≤ k then 26 else k - bias

theorem threshold_bounds (k bias : Nat) : 1 ≤ threshold k bias ∧ threshold k bias ≤ 26 := by
  unfold threshold
  split
  · omega
  · split <;> omega

/-- Divides by 35 until the gap is small, counting the position up. -/
def reduceGap (gap k : Nat) : Nat × Nat :=
  if 455 < gap then reduceGap (gap / 35) (k + 36) else (gap, k)
termination_by gap
decreasing_by omega

/-- The bias after a gap, when `count` code points have been placed. -/
def adapt (gap count : Nat) (isFirst : Bool) : Nat :=
  let scaled := if isFirst then gap / 700 else gap / 2
  let (rest, k) := reduceGap (scaled + scaled / count) 0
  k + 36 * rest / (rest + 38)

/-- A gap as digits. -/
def gapDigits (bias k gap : Nat) : List Char :=
  let t := threshold k bias
  if gap < t then [digitChar gap]
  else digitChar (t + (gap - t) % (36 - t)) :: gapDigits bias (k + 36) ((gap - t) / (36 - t))
termination_by gap
decreasing_by
  have h := threshold_bounds k bias
  calc (gap - threshold k bias) / (36 - threshold k bias)
      ≤ gap - threshold k bias := Nat.div_le_self _ _
    _ < gap := by omega

/-- The state of encoding: the digits so far, the gap since the last insertion, the bias, and how
many code points have been placed. -/
structure Encoding where
  digits : List Char
  gap : Nat
  bias : Nat
  placed : Nat

/-- Passes one character of the label while the code point `point` is being inserted. -/
def Encoding.pass (basic point : Nat) (s : Encoding) (c : Char) : Encoding :=
  if c.toNat < point then { s with gap := s.gap + 1 }
  else if c.toNat = point then
    ⟨s.digits ++ gapDigits s.bias 36 s.gap, 0, adapt s.gap (s.placed + 1) (s.placed == basic),
      s.placed + 1⟩
  else s

/-- Inserts the code points listed, none of which is below `start`. -/
def Encoding.insertAll (label : List Char) (basic : Nat) : List Nat → Nat → Encoding → Encoding
  | [], _, s => s
  | point :: points, start, s =>
    let s := { s with gap := s.gap + (point - start) * (s.placed + 1) }
    let s := label.foldl (Encoding.pass basic point) s
    insertAll label basic points (point + 1) { s with gap := s.gap + 1 }

/-- The code points outside ASCII, each once and in ascending order. -/
def extended (label : List Char) : List Nat :=
  let points := (label.map Char.toNat).filter (0x80 ≤ ·)
  points.eraseDups.mergeSort

/-- The encoded label, without its prefix. -/
def encode (label : List Char) : List Char :=
  let basic := label.filter (·.toNat < 0x80)
  let start : Encoding := ⟨[], 0, 72, basic.length⟩
  basic ++ (if basic.isEmpty then [] else ['-']) ++
    (Encoding.insertAll label basic.length (extended label) 0x80 start).digits

/-- Reads one gap: its value added to `value`, and what follows. -/
def readGap? (bias : Nat) : Nat → Nat → Nat → List Char → Option (Nat × List Char)
  | _, _, _, [] => none
  | k, weight, value, c :: rest =>
    (digitValue? c).bind fun d =>
      let t := threshold k bias
      if d < t then some (value + d * weight, rest)
      else readGap? bias (k + 36) (weight * (36 - t)) (value + d * weight) rest

/-- What follows a gap is shorter. -/
theorem length_readGap? {bias k weight value : Nat} {cs : List Char} {r : Nat × List Char}
    (h : readGap? bias k weight value cs = some r) : r.2.length < cs.length := by
  induction cs generalizing k weight value with
  | nil => simp [readGap?] at h
  | cons c cs ih =>
    rw [readGap?] at h
    obtain ⟨d, _, h⟩ := Option.bind_eq_some_iff.1 h
    dsimp only at h
    split at h
    · simp only [Option.some.injEq] at h
      subst h
      simp
    · have := ih h
      simp only [List.length_cons]
      omega

/-- Inserts the code points that the gaps tell: `point` is the last one inserted, `index` the
position after it. -/
def insertGaps? (point index bias : Nat) (out cs : List Char) : Option (List Char) :=
  if cs.isEmpty then some out
  else
    match h : readGap? bias 36 1 index cs with
    | none => none
    | some (position, rest) =>
      have := length_readGap? h
      let count := out.length + 1
      let next := point + position / count
      let place := position % count
      if 0x10FFFF < next ∨ (0xD800 ≤ next ∧ next ≤ 0xDFFF) then none
      else
        insertGaps? next (place + 1) (adapt (position - index) count (index == 0))
          (out.take place ++ Char.ofNat next :: out.drop place) rest
termination_by cs.length

/-- The label that a text encodes, given without its prefix. -/
def decode? (cs : List Char) : Option (List Char) :=
  let tail := (cs.reverse.takeWhile (· != '-')).reverse
  let basic := (cs.take (cs.length - tail.length)).dropLast
  if cs.all (·.toNat < 0x80) then insertGaps? 0x80 0 72 basic tail else none

end ModuleGraph.Punycode
