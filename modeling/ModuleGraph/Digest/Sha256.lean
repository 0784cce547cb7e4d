import ModuleGraph.Digest.Words

/-!
# SHA-256

The digest by which an artifact's manifest names its layer (FIPS 180-4). A message is padded to
whole blocks of 64 bytes, and every block is folded into eight words by 64 rounds. The message
schedule is kept as a window of sixteen words that slides on by one word in each round.
-/

namespace ModuleGraph.Digest.Sha256

/-- The constant of each round: the fractional parts of the cube roots of the first primes. -/
def constants : List UInt32 :=
  [0x428A2F98, 0x71374491, 0xB5C0FBCF, 0xE9B5DBA5, 0x3956C25B, 0x59F111F1, 0x923F82A4, 0xAB1C5ED5,
    0xD807AA98, 0x12835B01, 0x243185BE, 0x550C7DC3, 0x72BE5D74, 0x80DEB1FE, 0x9BDC06A7, 0xC19BF174,
    0xE49B69C1, 0xEFBE4786, 0x0FC19DC6, 0x240CA1CC, 0x2DE92C6F, 0x4A7484AA, 0x5CB0A9DC, 0x76F988DA,
    0x983E5152, 0xA831C66D, 0xB00327C8, 0xBF597FC7, 0xC6E00BF3, 0xD5A79147, 0x06CA6351, 0x14292967,
    0x27B70A85, 0x2E1B2138, 0x4D2C6DFC, 0x53380D13, 0x650A7354, 0x766A0ABB, 0x81C2C92E, 0x92722C85,
    0xA2BFE8A1, 0xA81A664B, 0xC24B8B70, 0xC76C51A3, 0xD192E819, 0xD6990624, 0xF40E3585, 0x106AA070,
    0x19A4C116, 0x1E376C08, 0x2748774C, 0x34B0BCB5, 0x391C0CB3, 0x4ED8AA4A, 0x5B9CCA4F, 0x682E6FF3,
    0x748F82EE, 0x78A5636F, 0x84C87814, 0x8CC70208, 0x90BEFFFA, 0xA4506CEB, 0xBEF9A3F7, 0xC67178F2]

/-- The window on the message schedule, and the eight working words. -/
structure Work where
  window : Vector UInt32 16
  words : Vector UInt32 8

/-- The window moved on by one word. -/
def slide (w : Vector UInt32 16) : Vector UInt32 16 :=
  let s0 := rotateRight w[1] 7 ^^^ rotateRight w[1] 18 ^^^ (w[1] >>> 3)
  let s1 := rotateRight w[14] 17 ^^^ rotateRight w[14] 19 ^^^ (w[14] >>> 10)
  #v[w[1], w[2], w[3], w[4], w[5], w[6], w[7], w[8], w[9], w[10], w[11], w[12], w[13], w[14], w[15],
    w[0] + s0 + w[9] + s1]

/-- One round, with its constant. -/
def round (s : Work) (k : UInt32) : Work :=
  let v := s.words
  let s1 := rotateRight v[4] 6 ^^^ rotateRight v[4] 11 ^^^ rotateRight v[4] 25
  let choice := (v[4] &&& v[5]) ^^^ ((~~~v[4]) &&& v[6])
  let t1 := v[7] + s1 + choice + k + s.window[0]
  let s0 := rotateRight v[0] 2 ^^^ rotateRight v[0] 13 ^^^ rotateRight v[0] 22
  let majority := (v[0] &&& v[1]) ^^^ (v[0] &&& v[2]) ^^^ (v[1] &&& v[2])
  ⟨slide s.window, #v[t1 + s0 + majority, v[0], v[1], v[2], v[3] + t1, v[4], v[5], v[6]]⟩

/-- One block folded into the state. -/
def compress (state : Vector UInt32 8) (bytes : List UInt8) : Vector UInt32 8 :=
  let block := bytes.toArray
  let window := Vector.ofFn fun i : Fin 16 => wordAtBigEndian block i
  let done := constants.foldl round ⟨window, state⟩
  Vector.ofFn fun i : Fin 8 => state[i] + done.words[i]

/-- The eight bytes of a message's length in bits, the high one first. -/
def lengthBytes (size : Nat) : List UInt8 :=
  [56, 48, 40, 32, 24, 16, 8, 0].map fun shift => UInt8.ofNat ((8 * size) >>> shift)

/-- The message with a one bit, zeros and its length, in whole blocks. -/
def pad (bytes : List UInt8) : List UInt8 :=
  let zeros := (119 - bytes.length % 64) % 64
  bytes ++ [0x80] ++ List.replicate zeros 0 ++ lengthBytes bytes.length

/-- The 32 bytes of the digest. -/
def hash (bytes : List UInt8) : List UInt8 :=
  let final := (pieces 63 (pad bytes)).foldl compress initialWords
  final.toList.flatMap bigEndian

/-- A padded message is made of whole blocks. -/
theorem length_pad_mod (bytes : List UInt8) : (pad bytes).length % 64 = 0 := by
  simp only [pad, lengthBytes, List.length_append, List.length_replicate, List.length_map,
    List.length_cons, List.length_nil]
  omega

end ModuleGraph.Digest.Sha256
