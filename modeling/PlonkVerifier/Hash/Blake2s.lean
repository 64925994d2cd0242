import PlonkVerifier.Bytes

/-!
# Hash/Blake2s — unkeyed BLAKE2s with 32-byte digests

A message is cut into 64-byte blocks, the last of them filled with zeros and flagged; an empty message
has one block of zeros.  Each block is compressed together with the number of message bytes read so far.
-/

namespace PlonkVerifier

namespace Blake2s

/-- The initialisation vector. -/
def iv : Vector UInt32 8 :=
  #v[0x6a09e667, 0xbb67ae85, 0x3c6ef372, 0xa54ff53a, 0x510e527f, 0x9b05688c, 0x1f83d9ab, 0x5be0cd19]

/-- The message schedule, one row a round. -/
def schedule : List (Vector (Fin 16) 16) :=
  [#v[0, 1, 2, 3, 4, 5, 6, 7, 8, 9, 10, 11, 12, 13, 14, 15],
    #v[14, 10, 4, 8, 9, 15, 13, 6, 1, 12, 0, 2, 11, 7, 5, 3],
    #v[11, 8, 12, 0, 5, 2, 15, 13, 10, 14, 3, 6, 7, 1, 9, 4],
    #v[7, 9, 3, 1, 13, 12, 11, 14, 2, 6, 5, 10, 4, 0, 15, 8],
    #v[9, 0, 5, 7, 2, 4, 10, 15, 14, 1, 11, 12, 6, 8, 3, 13],
    #v[2, 12, 6, 10, 0, 11, 8, 3, 4, 13, 7, 5, 15, 14, 1, 9],
    #v[12, 5, 1, 15, 14, 13, 4, 10, 0, 7, 6, 3, 9, 2, 8, 11],
    #v[13, 11, 7, 14, 12, 1, 3, 9, 5, 0, 15, 4, 8, 6, 2, 10],
    #v[6, 15, 14, 9, 11, 3, 0, 8, 12, 2, 13, 7, 1, 4, 10, 5],
    #v[10, 2, 8, 4, 7, 6, 1, 5, 15, 11, 9, 14, 3, 12, 13, 0]]

/-- The positions mixed together in a round: columns, then diagonals. -/
def lines : List (Fin 16 × Fin 16 × Fin 16 × Fin 16) :=
  [(0, 4, 8, 12), (1, 5, 9, 13), (2, 6, 10, 14), (3, 7, 11, 15),
    (0, 5, 10, 15), (1, 6, 11, 12), (2, 7, 8, 13), (3, 4, 9, 14)]

/-- Rotation to the right. -/
def rotate (w : UInt32) (k : UInt32) : UInt32 := w >>> k ||| w <<< (32 - k)

/-- Mixes two message words into one line of the working vector. -/
def mix (v : Vector UInt32 16) (line : Fin 16 × Fin 16 × Fin 16 × Fin 16) (m₁ m₂ : UInt32) :
    Vector UInt32 16 :=
  let (i, j, k, l) := line
  let a := v[i] + v[j] + m₁
  let d := rotate (v[l] ^^^ a) 16
  let c := v[k] + d
  let b := rotate (v[j] ^^^ c) 12
  let a := a + b + m₂
  let d := rotate (d ^^^ a) 8
  let c := c + d
  let b := rotate (b ^^^ c) 7
  (((v.set i a).set j b).set k c).set l d

/-- One round: the eight lines take the message words in the order of `row`. -/
def round (m v : Vector UInt32 16) (row : Vector (Fin 16) 16) : Vector UInt32 16 :=
  lines.zipIdx.foldl
    (fun v (line, i) => mix v line m[row[(2 * i) % 16]] m[row[(2 * i + 1) % 16]]) v

/-- Compresses one block after `count` message bytes. -/
def compress (h : Vector UInt32 8) (block : Bytes) (count : Nat) (last : Bool) : Vector UInt32 8 :=
  let m : Vector UInt32 16 := Vector.ofFn fun i =>
    UInt32.ofNat (Bytes.toNat ((block.drop (4 * i.val)).take 4))
  let v : Vector UInt32 16 := h ++ iv
  let v := v.set 12 (v[12] ^^^ UInt32.ofNat count)
  let v := v.set 13 (v[13] ^^^ UInt32.ofNat (count >>> 32))
  let v := if last then v.set 14 (~~~ v[14]) else v
  let v := schedule.foldl (round m) v
  Vector.ofFn fun i : Fin 8 => h[i] ^^^ v[i.val] ^^^ v[i.val + 8]

/-- The number of bytes compressed at once. -/
def blockSize : Nat := 64

/-- The state before the first block: the parameters are a 32-byte digest and no key. -/
def initial : Vector UInt32 8 := iv.set 0 (iv[0] ^^^ 0x01010020)

/-- The 32-byte digest of `message`. -/
def digest (message : Bytes) : Bytes :=
  let final := (message.length - 1) / blockSize
  let h := (List.range (final + 1)).foldl
    (fun h i =>
      let block := (message.drop (i * blockSize)).take blockSize
      compress h block (if i = final then message.length else (i + 1) * blockSize) (i = final))
    initial
  h.toList.flatMap fun word => Bytes.ofNat 4 word.toNat

end Blake2s

end PlonkVerifier
