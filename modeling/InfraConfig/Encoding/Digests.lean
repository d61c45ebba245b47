import InfraConfig.Encoding.Bytes

/-!
# Digests of messages
-/

namespace InfraConfig

/-! ## MD5 -/

namespace Md5

/-- Amounts of the rotations: four for each of the four rounds. -/
def shifts : Array UInt32 :=
  #[7, 12, 17, 22, 5, 9, 14, 20, 4, 11, 16, 23, 6, 10, 15, 21]

/-- The integer parts of `2 ^ 32 · |sin i|` for `i` from 1 to 64. -/
def sines : Array UInt32 :=
  #[0xd76aa478, 0xe8c7b756, 0x242070db, 0xc1bdceee, 0xf57c0faf, 0x4787c62a, 0xa8304613, 0xfd469501,
    0x698098d8, 0x8b44f7af, 0xffff5bb1, 0x895cd7be, 0x6b901122, 0xfd987193, 0xa679438e, 0x49b40821,
    0xf61e2562, 0xc040b340, 0x265e5a51, 0xe9b6c7aa, 0xd62f105d, 0x02441453, 0xd8a1e681, 0xe7d3fbc8,
    0x21e1cde6, 0xc33707d6, 0xf4d50d87, 0x455a14ed, 0xa9e3e905, 0xfcefa3f8, 0x676f02d9, 0x8d2a4c8a,
    0xfffa3942, 0x8771f681, 0x6d9d6122, 0xfde5380c, 0xa4beea44, 0x4bdecfa9, 0xf6bb4b60, 0xbebfbc70,
    0x289b7ec6, 0xeaa127fa, 0xd4ef3085, 0x04881d05, 0xd9d4d039, 0xe6db99e5, 0x1fa27cf8, 0xc4ac5665,
    0xf4292244, 0x432aff97, 0xab9423a7, 0xfc93a039, 0x655b59c3, 0x8f0ccc92, 0xffeff47d, 0x85845dd1,
    0x6fa87e4f, 0xfe2ce6e0, 0xa3014314, 0x4e0811a1, 0xf7537e82, 0xbd3af235, 0x2ad7d2bb, 0xeb86d391]

structure State where
  a : UInt32
  b : UInt32
  c : UInt32
  d : UInt32

def initial : State := ⟨0x67452301, 0xefcdab89, 0x98badcfe, 0x10325476⟩

def rotateLeft (x n : UInt32) : UInt32 :=
  (x <<< n) ||| (x >>> (32 - n))

/-- Step `i` of 64 on the words of a block. -/
def step (words : Array UInt32) (s : State) (i : Nat) : State :=
  let (f, g) :=
    if i < 16 then ((s.b &&& s.c) ||| (~~~s.b &&& s.d), i)
    else if i < 32 then ((s.d &&& s.b) ||| (~~~s.d &&& s.c), (5 * i + 1) % 16)
    else if i < 48 then (s.b ^^^ s.c ^^^ s.d, (3 * i + 5) % 16)
    else (s.c ^^^ (s.b ||| ~~~s.d), (7 * i) % 16)
  let sum := s.a + f + sines.getD i 0 + words.getD g 0
  ⟨s.d, s.b + rotateLeft sum (shifts.getD (4 * (i / 16) + i % 4) 0), s.b, s.c⟩

def block (s : State) (bytes : List UInt8) : State :=
  let words := ((chunksOf 4 bytes).map fun w => UInt32.ofNat (natOfLow w)).toArray
  let t := (List.range 64).foldl (step words) s
  ⟨s.a + t.a, s.b + t.b, s.c + t.c, s.d + t.d⟩

/-- The 16 bytes of the digest. -/
def digest (message : List UInt8) : List UInt8 :=
  let s := (chunksOf 64 (padMessage 64 8 (bytesLow 8) message)).foldl block initial
  [s.a, s.b, s.c, s.d].flatMap fun w => bytesLow 4 w.toNat

end Md5

/-! ## SHA-256 -/

namespace Sha256

/-- Fractional parts of the cube roots of the first 64 primes. -/
def roots : Array UInt32 :=
  #[0x428a2f98, 0x71374491, 0xb5c0fbcf, 0xe9b5dba5, 0x3956c25b, 0x59f111f1, 0x923f82a4, 0xab1c5ed5,
    0xd807aa98, 0x12835b01, 0x243185be, 0x550c7dc3, 0x72be5d74, 0x80deb1fe, 0x9bdc06a7, 0xc19bf174,
    0xe49b69c1, 0xefbe4786, 0x0fc19dc6, 0x240ca1cc, 0x2de92c6f, 0x4a7484aa, 0x5cb0a9dc, 0x76f988da,
    0x983e5152, 0xa831c66d, 0xb00327c8, 0xbf597fc7, 0xc6e00bf3, 0xd5a79147, 0x06ca6351, 0x14292967,
    0x27b70a85, 0x2e1b2138, 0x4d2c6dfc, 0x53380d13, 0x650a7354, 0x766a0abb, 0x81c2c92e, 0x92722c85,
    0xa2bfe8a1, 0xa81a664b, 0xc24b8b70, 0xc76c51a3, 0xd192e819, 0xd6990624, 0xf40e3585, 0x106aa070,
    0x19a4c116, 0x1e376c08, 0x2748774c, 0x34b0bcb5, 0x391c0cb3, 0x4ed8aa4a, 0x5b9cca4f, 0x682e6ff3,
    0x748f82ee, 0x78a5636f, 0x84c87814, 0x8cc70208, 0x90befffa, 0xa4506ceb, 0xbef9a3f7, 0xc67178f2]

/-- Fractional parts of the square roots of the first eight primes. -/
def initial : List UInt32 :=
  [0x6a09e667, 0xbb67ae85, 0x3c6ef372, 0xa54ff53a, 0x510e527f, 0x9b05688c, 0x1f83d9ab, 0x5be0cd19]

def rotateRight (x n : UInt32) : UInt32 :=
  (x >>> n) ||| (x <<< (32 - n))

/-- The message schedule: the words of the block, and further words from those 2, 7, 15 and 16 before. -/
def schedule (words : Array UInt32) : Nat → Array UInt32
  | 0 => words
  | n + 1 =>
    let ws := schedule words n
    let back (k : Nat) := ws.getD (ws.size - k) 0
    let x := back 15
    let low := rotateRight x 7 ^^^ rotateRight x 18 ^^^ (x >>> 3)
    let y := back 2
    let high := rotateRight y 17 ^^^ rotateRight y 19 ^^^ (y >>> 10)
    ws.push (back 16 + low + back 7 + high)

/-- One step with a scheduled word and its root. -/
def step (s : List UInt32) (w k : UInt32) : List UInt32 :=
  match s with
  | [a, b, c, d, e, f, g, h] =>
    let high := rotateRight e 6 ^^^ rotateRight e 11 ^^^ rotateRight e 25
    let t := h + high + ((e &&& f) ^^^ (~~~e &&& g)) + k + w
    let low := rotateRight a 2 ^^^ rotateRight a 13 ^^^ rotateRight a 22
    let u := low + ((a &&& b) ^^^ (a &&& c) ^^^ (b &&& c))
    [t + u, a, b, c, d + t, e, f, g]
  | _ => s

def block (s : List UInt32) (bytes : List UInt8) : List UInt32 :=
  let words := ((chunksOf 4 bytes).map fun w => UInt32.ofNat (natOfHigh w)).toArray
  let ws := schedule words 48
  let t := (List.range 64).foldl (fun s i => step s (ws.getD i 0) (roots.getD i 0)) s
  (s.zip t).map fun (a, b) => a + b

/-- The 32 bytes of the digest. -/
def digest (message : List UInt8) : List UInt8 :=
  let s := (chunksOf 64 (padMessage 64 8 (bytesHigh 8) message)).foldl block initial
  s.flatMap fun w => bytesHigh 4 w.toNat

end Sha256

/-! ## SHA-512 -/

namespace Sha512

/-- Fractional parts of the cube roots of the first 80 primes. -/
def roots : Array UInt64 :=
  #[0x428a2f98d728ae22, 0x7137449123ef65cd, 0xb5c0fbcfec4d3b2f, 0xe9b5dba58189dbbc,
    0x3956c25bf348b538, 0x59f111f1b605d019, 0x923f82a4af194f9b, 0xab1c5ed5da6d8118,
    0xd807aa98a3030242, 0x12835b0145706fbe, 0x243185be4ee4b28c, 0x550c7dc3d5ffb4e2,
    0x72be5d74f27b896f, 0x80deb1fe3b1696b1, 0x9bdc06a725c71235, 0xc19bf174cf692694,
    0xe49b69c19ef14ad2, 0xefbe4786384f25e3, 0x0fc19dc68b8cd5b5, 0x240ca1cc77ac9c65,
    0x2de92c6f592b0275, 0x4a7484aa6ea6e483, 0x5cb0a9dcbd41fbd4, 0x76f988da831153b5,
    0x983e5152ee66dfab, 0xa831c66d2db43210, 0xb00327c898fb213f, 0xbf597fc7beef0ee4,
    0xc6e00bf33da88fc2, 0xd5a79147930aa725, 0x06ca6351e003826f, 0x142929670a0e6e70,
    0x27b70a8546d22ffc, 0x2e1b21385c26c926, 0x4d2c6dfc5ac42aed, 0x53380d139d95b3df,
    0x650a73548baf63de, 0x766a0abb3c77b2a8, 0x81c2c92e47edaee6, 0x92722c851482353b,
    0xa2bfe8a14cf10364, 0xa81a664bbc423001, 0xc24b8b70d0f89791, 0xc76c51a30654be30,
    0xd192e819d6ef5218, 0xd69906245565a910, 0xf40e35855771202a, 0x106aa07032bbd1b8,
    0x19a4c116b8d2d0c8, 0x1e376c085141ab53, 0x2748774cdf8eeb99, 0x34b0bcb5e19b48a8,
    0x391c0cb3c5c95a63, 0x4ed8aa4ae3418acb, 0x5b9cca4f7763e373, 0x682e6ff3d6b2b8a3,
    0x748f82ee5defb2fc, 0x78a5636f43172f60, 0x84c87814a1f0ab72, 0x8cc702081a6439ec,
    0x90befffa23631e28, 0xa4506cebde82bde9, 0xbef9a3f7b2c67915, 0xc67178f2e372532b,
    0xca273eceea26619c, 0xd186b8c721c0c207, 0xeada7dd6cde0eb1e, 0xf57d4f7fee6ed178,
    0x06f067aa72176fba, 0x0a637dc5a2c898a6, 0x113f9804bef90dae, 0x1b710b35131c471b,
    0x28db77f523047d84, 0x32caab7b40c72493, 0x3c9ebe0a15c9bebc, 0x431d67c49c100d4c,
    0x4cc5d4becb3e42b6, 0x597f299cfc657e2a, 0x5fcb6fab3ad6faec, 0x6c44198c4a475817]

/-- Fractional parts of the square roots of the first eight primes. -/
def initial : List UInt64 :=
  [0x6a09e667f3bcc908, 0xbb67ae8584caa73b, 0x3c6ef372fe94f82b, 0xa54ff53a5f1d36f1,
    0x510e527fade682d1, 0x9b05688c2b3e6c1f, 0x1f83d9abfb41bd6b, 0x5be0cd19137e2179]

def rotateRight (x n : UInt64) : UInt64 :=
  (x >>> n) ||| (x <<< (64 - n))

/-- The message schedule: the words of the block, and further words from those 2, 7, 15 and 16 before. -/
def schedule (words : Array UInt64) : Nat → Array UInt64
  | 0 => words
  | n + 1 =>
    let ws := schedule words n
    let back (k : Nat) := ws.getD (ws.size - k) 0
    let x := back 15
    let low := rotateRight x 1 ^^^ rotateRight x 8 ^^^ (x >>> 7)
    let y := back 2
    let high := rotateRight y 19 ^^^ rotateRight y 61 ^^^ (y >>> 6)
    ws.push (back 16 + low + back 7 + high)

/-- One step with a scheduled word and its root. -/
def step (s : List UInt64) (w k : UInt64) : List UInt64 :=
  match s with
  | [a, b, c, d, e, f, g, h] =>
    let high := rotateRight e 14 ^^^ rotateRight e 18 ^^^ rotateRight e 41
    let t := h + high + ((e &&& f) ^^^ (~~~e &&& g)) + k + w
    let low := rotateRight a 28 ^^^ rotateRight a 34 ^^^ rotateRight a 39
    let u := low + ((a &&& b) ^^^ (a &&& c) ^^^ (b &&& c))
    [t + u, a, b, c, d + t, e, f, g]
  | _ => s

def block (s : List UInt64) (bytes : List UInt8) : List UInt64 :=
  let words := ((chunksOf 8 bytes).map fun w => UInt64.ofNat (natOfHigh w)).toArray
  let ws := schedule words 64
  let t := (List.range 80).foldl (fun s i => step s (ws.getD i 0) (roots.getD i 0)) s
  (s.zip t).map fun (a, b) => a + b

/-- The 64 bytes of the digest. -/
def digest (message : List UInt8) : List UInt8 :=
  let s := (chunksOf 128 (padMessage 128 16 (bytesHigh 16) message)).foldl block initial
  s.flatMap fun w => bytesHigh 8 w.toNat

end Sha512

end InfraConfig
