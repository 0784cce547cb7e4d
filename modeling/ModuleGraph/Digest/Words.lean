/-!
# Words and blocks

The two digests of this library work on 32-bit words and cut their input into blocks of one
size. `pieces n` cuts a list into runs of `n + 1` elements, the last one possibly shorter;
`flatten_pieces` says that nothing is lost or added. `littleEndian` and `bigEndian` are the bytes
of a word.
-/

namespace ModuleGraph.Digest

/-- The list cut into runs of `n + 1` elements. -/
def pieces {α : Type} (n : Nat) : List α → List (List α)
  | [] => []
  | x :: xs => (x :: xs.take n) :: pieces n (xs.drop n)
termination_by xs => xs.length
decreasing_by
  simp only [List.length_drop, List.length_cons]
  omega

/-- The runs put together again are the list. -/
theorem flatten_pieces {α : Type} (n : Nat) (xs : List α) : (pieces n xs).flatten = xs := by
  fun_induction pieces n xs with
  | case1 => rfl
  | case2 x xs ih => simp [ih]

/-- The four bytes of a word, the low one first. -/
def littleEndian (w : UInt32) : List UInt8 :=
  [w.toUInt8, (w >>> 8).toUInt8, (w >>> 16).toUInt8, (w >>> 24).toUInt8]

/-- The four bytes of a word, the high one first. -/
def bigEndian (w : UInt32) : List UInt8 :=
  (littleEndian w).reverse

/-- A word turned right by `n` bits, for `0 < n < 32`. -/
def rotateRight (w : UInt32) (n : UInt32) : UInt32 :=
  (w >>> n) ||| (w <<< (32 - n))

/-- The word at `4 * i` of a block, its low byte first; a byte past the end counts as zero. -/
def wordAt (block : Array UInt8) (i : Nat) : UInt32 :=
  (block.getD (4 * i) 0).toUInt32 ||| ((block.getD (4 * i + 1) 0).toUInt32 <<< 8) |||
    ((block.getD (4 * i + 2) 0).toUInt32 <<< 16) ||| ((block.getD (4 * i + 3) 0).toUInt32 <<< 24)

/-- The word at `4 * i` of a block, its high byte first; a byte past the end counts as zero. -/
def wordAtBigEndian (block : Array UInt8) (i : Nat) : UInt32 :=
  ((block.getD (4 * i) 0).toUInt32 <<< 24) ||| ((block.getD (4 * i + 1) 0).toUInt32 <<< 16) |||
    ((block.getD (4 * i + 2) 0).toUInt32 <<< 8) ||| (block.getD (4 * i + 3) 0).toUInt32

/-- The first eight words of the fractional parts of the square roots of the primes, from which
both digests start. -/
def initialWords : Vector UInt32 8 :=
  #v[0x6A09E667, 0xBB67AE85, 0x3C6EF372, 0xA54FF53A,
    0x510E527F, 0x9B05688C, 0x1F83D9AB, 0x5BE0CD19]

end ModuleGraph.Digest
