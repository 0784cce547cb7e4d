import ModuleGraph.Digest.Words

/-!
# BLAKE3

The digest that names the content of a source file. The input is cut into chunks of 1024 bytes
and each chunk into blocks of 64; a chunk is a chain of compressions, and the chunks are the
leaves of a binary tree whose left subtree is always full. The digest is the compression at the
root, marked as such.

Only the plain 32-byte hash is here: no key, no key derivation, no longer output.
-/

namespace ModuleGraph.Digest.Blake3

/-- The sixteen words of a compression state or of a message block. -/
abbrev Words := Vector UInt32 16

/-- One quarter of a round: mixes two message words into four state words. -/
def mix (v : Words) (a b c d : Fin 16) (x y : UInt32) : Words :=
  let va := v[a] + v[b] + x
  let vd := rotateRight (v[d] ^^^ va) 16
  let vc := v[c] + vd
  let vb := rotateRight (v[b] ^^^ vc) 12
  let va := va + vb + y
  let vd := rotateRight (vd ^^^ va) 8
  let vc := vc + vd
  let vb := rotateRight (vb ^^^ vc) 7
  (((v.set a va).set b vb).set c vc).set d vd

/-- A round: the four columns, then the four diagonals. -/
def round (message v : Words) : Words :=
  let m := message.get
  let v := mix v 0 4 8 12 (m 0) (m 1)
  let v := mix v 1 5 9 13 (m 2) (m 3)
  let v := mix v 2 6 10 14 (m 4) (m 5)
  let v := mix v 3 7 11 15 (m 6) (m 7)
  let v := mix v 0 5 10 15 (m 8) (m 9)
  let v := mix v 1 6 11 12 (m 10) (m 11)
  let v := mix v 2 7 8 13 (m 12) (m 13)
  mix v 3 4 9 14 (m 14) (m 15)

/-- The order in which the next round takes the message words. -/
def permute (message : Words) : Words :=
  let m := message.get
  #v[m 2, m 6, m 3, m 10, m 7, m 0, m 4, m 13, m 1, m 11, m 12, m 5, m 9, m 14, m 15, m 8]

/-- The given number of rounds, the message words permuted in between. -/
def rounds : Nat → Words → Words → Words
  | 0, _, v => v
  | n + 1, m, v => rounds n (permute m) (round m v)

/-- The domain flags of a compression. -/
structure Flags where
  chunkStart : Bool
  chunkEnd : Bool
  parent : Bool
  root : Bool

/-- The flags as the word that enters the compression. -/
def Flags.word (f : Flags) : UInt32 :=
  (if f.chunkStart then 1 else 0) + (if f.chunkEnd then 2 else 0) +
    (if f.parent then 4 else 0) + (if f.root then 8 else 0)

/-- A compression that is still to be made: the last one of a chunk, or that of a parent. -/
structure Node where
  chain : Vector UInt32 8
  block : Words
  counter : Nat
  length : Nat
  flags : Flags

/-- The eight words that a compression yields. -/
def Node.compress (n : Node) : Vector UInt32 8 :=
  let h := n.chain.get
  let iv := initialWords.get
  let start : Words :=
    #v[h 0, h 1, h 2, h 3, h 4, h 5, h 6, h 7,
      iv 0, iv 1, iv 2, iv 3,
      UInt32.ofNat n.counter, UInt32.ofNat (n.counter >>> 32),
      UInt32.ofNat n.length, n.flags.word]
  let v := rounds 7 n.block start
  Vector.ofFn fun i : Fin 8 => v[i] ^^^ v[i.val + 8]

/-- The words of a block of at most 64 bytes, filled up with zeros. -/
def blockWords (bytes : List UInt8) : Words :=
  let block := bytes.toArray
  Vector.ofFn fun i : Fin 16 => wordAt block i

/-- The last compression of a chunk whose blocks still to come are given. -/
def chainBlocks (counter : Nat) (chain : Vector UInt32 8) (isFirst : Bool) :
    List (List UInt8) → Node
  | [] => ⟨chain, blockWords [], counter, 0, ⟨isFirst, true, false, false⟩⟩
  | [b] => ⟨chain, blockWords b, counter, b.length, ⟨isFirst, true, false, false⟩⟩
  | b :: rest =>
    let node : Node := ⟨chain, blockWords b, counter, b.length, ⟨isFirst, false, false, false⟩⟩
    chainBlocks counter node.compress false rest

/-- The last compression of the chunk with the given number. -/
def chunk (counter : Nat) (bytes : List UInt8) : Node :=
  chainBlocks counter initialWords true (pieces 63 bytes)

/-- The compression above two subtrees. -/
def parent (left right : Node) : Node :=
  let words := left.compress ++ right.compress
  ⟨initialWords, words, 0, 64, ⟨false, false, true, false⟩⟩

/-- How many of `n` chunks stand in the left subtree: the largest power of two below `n`. -/
def leftSize (n : Nat) : Nat :=
  1 <<< (n - 1).log2

/-- Both subtrees of two chunks or more have a chunk. -/
theorem leftSize_bounds {n : Nat} (h : 2 ≤ n) : 0 < leftSize n ∧ leftSize n < n := by
  rw [leftSize, Nat.one_shiftLeft]
  have hle : 2 ^ (n - 1).log2 ≤ n - 1 := Nat.log2_self_le (by omega)
  exact ⟨Nat.two_pow_pos _, by omega⟩

/-- The last compression of the tree over the given chunks, the first of which has the given
number. -/
def tree (first : Nat) (chunks : List (List UInt8)) : Node :=
  if h : 2 ≤ chunks.length then
    let n := leftSize chunks.length
    have := leftSize_bounds h
    parent (tree first (chunks.take n)) (tree (first + n) (chunks.drop n))
  else chunk first (chunks.headD [])
termination_by chunks.length
decreasing_by
  all_goals simp only [List.length_take, List.length_drop]; omega

/-- The 32 bytes of the digest. -/
def hash (bytes : List UInt8) : List UInt8 :=
  let top := tree 0 (pieces 1023 bytes)
  let root : Node := { top with counter := 0, flags := { top.flags with root := true } }
  root.compress.toList.flatMap littleEndian

end ModuleGraph.Digest.Blake3
