import Argot.Text.Basic

set_option autoImplicit false

/-!
# Digests

The BLAKE2b hash function without a key and with a digest of eight bytes, read as a
little-endian number.  The text is cut into blocks of 128 bytes, the last one filled up
with zeros, and each block is mixed into a state of eight words in twelve rounds.

Normative source: SPEC_FULL §12 (parse cache key).
-/

namespace Argot.Digest

/-- The initial words: the fractional parts of the square roots of the first primes. -/
def initial : Vector UInt64 8 :=
  #v[0x6A09E667F3BCC908, 0xBB67AE8584CAA73B, 0x3C6EF372FE94F82B, 0xA54FF53A5F1D36F1,
    0x510E527FADE682D1, 0x9B05688C2B3E6C1F, 0x1F83D9ABFB41BD6B, 0x5BE0CD19137E2179]

/-- In which order the rounds take the words of a block; after ten rounds the first two
orders come again. -/
def orders : List (Vector (Fin 16) 16) :=
  [#v[0, 1, 2, 3, 4, 5, 6, 7, 8, 9, 10, 11, 12, 13, 14, 15],
   #v[14, 10, 4, 8, 9, 15, 13, 6, 1, 12, 0, 2, 11, 7, 5, 3],
   #v[11, 8, 12, 0, 5, 2, 15, 13, 10, 14, 3, 6, 7, 1, 9, 4],
   #v[7, 9, 3, 1, 13, 12, 11, 14, 2, 6, 5, 10, 4, 0, 15, 8],
   #v[9, 0, 5, 7, 2, 4, 10, 15, 14, 1, 11, 12, 6, 8, 3, 13],
   #v[2, 12, 6, 10, 0, 11, 8, 3, 4, 13, 7, 5, 15, 14, 1, 9],
   #v[12, 5, 1, 15, 14, 13, 4, 10, 0, 7, 6, 3, 9, 2, 8, 11],
   #v[13, 11, 7, 14, 12, 1, 3, 9, 5, 0, 15, 4, 8, 6, 2, 10],
   #v[6, 15, 14, 9, 11, 3, 0, 8, 12, 2, 13, 7, 1, 4, 10, 5],
   #v[10, 2, 8, 4, 7, 6, 1, 5, 15, 11, 9, 14, 3, 12, 13, 0],
   #v[0, 1, 2, 3, 4, 5, 6, 7, 8, 9, 10, 11, 12, 13, 14, 15],
   #v[14, 10, 4, 8, 9, 15, 13, 6, 1, 12, 0, 2, 11, 7, 5, 3]]

/-- Rotation to the right. -/
def rotate (x : UInt64) (n : UInt64) : UInt64 := (x >>> n) ||| (x <<< (64 - n))

/-- Mixes two words of the block into four words of the working vector. -/
def mix (w : Vector UInt64 16) (a b c d : Fin 16) (x y : UInt64) : Vector UInt64 16 :=
  let w := w.set a (w[a] + w[b] + x)
  let w := w.set d (rotate (w[d] ^^^ w[a]) 32)
  let w := w.set c (w[c] + w[d])
  let w := w.set b (rotate (w[b] ^^^ w[c]) 24)
  let w := w.set a (w[a] + w[b] + y)
  let w := w.set d (rotate (w[d] ^^^ w[a]) 16)
  let w := w.set c (w[c] + w[d])
  w.set b (rotate (w[b] ^^^ w[c]) 63)

/-- One round: the columns of the working vector and then its diagonals. -/
def round (block w : Vector UInt64 16) (order : Vector (Fin 16) 16) : Vector UInt64 16 :=
  let m (i : Fin 16) : UInt64 := block[order[i]]
  let w := mix w 0 4 8 12 (m 0) (m 1)
  let w := mix w 1 5 9 13 (m 2) (m 3)
  let w := mix w 2 6 10 14 (m 4) (m 5)
  let w := mix w 3 7 11 15 (m 6) (m 7)
  let w := mix w 0 5 10 15 (m 8) (m 9)
  let w := mix w 1 6 11 12 (m 10) (m 11)
  let w := mix w 2 7 8 13 (m 12) (m 13)
  mix w 3 4 9 14 (m 14) (m 15)

/-- The number that bytes spell, the least significant one first. -/
def littleEndian : Text → UInt64
  | [] => 0
  | b :: t => b.toUInt64 ||| (littleEndian t <<< 8)

/-- The sixteen words of a block; missing bytes are zeros. -/
def blockWords (block : Text) : Vector UInt64 16 :=
  Vector.ofFn fun i => littleEndian ((block.drop (8 * i)).take 8)

/-- Mixes a block into the state.  `count` is the number of bytes up to its end. -/
def compress (h : Vector UInt64 8) (block : Text) (count : Nat) (last : Bool) :
    Vector UInt64 8 :=
  let start : Vector UInt64 16 := h ++ initial
  let start := start.set 12 (start[12] ^^^ UInt64.ofNat count)
  let start := if last then start.set 14 (start[14] ^^^ 0xFFFFFFFFFFFFFFFF) else start
  let w := orders.foldl (round (blockWords block)) start
  Vector.ofFn fun i => h[i] ^^^ w[i.val] ^^^ w[i.val + 8]

/-- Mixes all blocks of a text into the state. -/
def absorb : (fuel : Nat) → (h : Vector UInt64 8) → (count : Nat) → Text → Vector UInt64 8
  | 0, h, count, t => compress h t (count + t.length) true
  | fuel + 1, h, count, t =>
    if t.length ≤ 128 then compress h t (count + t.length) true
    else absorb fuel (compress h (t.take 128) (count + 128) false) (count + 128) (t.drop 128)

end Argot.Digest

namespace Argot

/-- The first eight bytes of the BLAKE2b digest of a text, as a number. -/
def digest (t : Text) : UInt64 :=
  let start := Digest.initial.set 0 (Digest.initial[0] ^^^ 0x01010008)
  (Digest.absorb (t.length / 128) start 0 t)[0]

end Argot
