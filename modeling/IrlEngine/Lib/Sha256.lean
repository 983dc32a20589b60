import Mathlib.Data.List.Nodup
import Mathlib.Data.Set.Function

/-!
# SHA-256, as an executable function on byte lists

The hash of FIPS 180-4, written so that it runs inside the kernel: words are
natural numbers kept below `2 ^ 32`, every loop is a structural recursion, and
the result is a list of exactly 32 bytes (`length_hash`).

Collision resistance is never assumed of the whole function, which would be
false: a result that needs it names the finite set of messages it needs it for
(`CollisionFree`).
-/

namespace Sha256

/-! ## Words -/

/-- A sum of words, reduced to 32 bits. -/
def wrap (n : ℕ) : ℕ := n % 0x100000000

/-- Rotation of a 32-bit word to the right. -/
def rotr (k x : ℕ) : ℕ := (x >>> k) ||| wrap (x <<< (32 - k))

/-- The function that the digest standard calls big sigma 0. -/
def bigSigma0 (x : ℕ) : ℕ := rotr 2 x ^^^ rotr 13 x ^^^ rotr 22 x

/-- Big sigma 1. -/
def bigSigma1 (x : ℕ) : ℕ := rotr 6 x ^^^ rotr 11 x ^^^ rotr 25 x

/-- Small sigma 0. -/
def smallSigma0 (x : ℕ) : ℕ := rotr 7 x ^^^ rotr 18 x ^^^ (x >>> 3)

/-- Small sigma 1. -/
def smallSigma1 (x : ℕ) : ℕ := rotr 17 x ^^^ rotr 19 x ^^^ (x >>> 10)

/-- `(x ∧ y) ⊕ (¬x ∧ z)` on 32-bit words. -/
def ch (x y z : ℕ) : ℕ := (x &&& y) ^^^ ((x ^^^ 0xffffffff) &&& z)

/-- The majority of three bits, at each place of a word. -/
def maj (x y z : ℕ) : ℕ := (x &&& y) ^^^ (x &&& z) ^^^ (y &&& z)

/-- The 64 round constants. -/
def roundConstants : List ℕ :=
  [0x428a2f98, 0x71374491, 0xb5c0fbcf, 0xe9b5dba5, 0x3956c25b, 0x59f111f1, 0x923f82a4, 0xab1c5ed5,
   0xd807aa98, 0x12835b01, 0x243185be, 0x550c7dc3, 0x72be5d74, 0x80deb1fe, 0x9bdc06a7, 0xc19bf174,
   0xe49b69c1, 0xefbe4786, 0x0fc19dc6, 0x240ca1cc, 0x2de92c6f, 0x4a7484aa, 0x5cb0a9dc, 0x76f988da,
   0x983e5152, 0xa831c66d, 0xb00327c8, 0xbf597fc7, 0xc6e00bf3, 0xd5a79147, 0x06ca6351, 0x14292967,
   0x27b70a85, 0x2e1b2138, 0x4d2c6dfc, 0x53380d13, 0x650a7354, 0x766a0abb, 0x81c2c92e, 0x92722c85,
   0xa2bfe8a1, 0xa81a664b, 0xc24b8b70, 0xc76c51a3, 0xd192e819, 0xd6990624, 0xf40e3585, 0x106aa070,
   0x19a4c116, 0x1e376c08, 0x2748774c, 0x34b0bcb5, 0x391c0cb3, 0x4ed8aa4a, 0x5b9cca4f, 0x682e6ff3,
   0x748f82ee, 0x78a5636f, 0x84c87814, 0x8cc70208, 0x90befffa, 0xa4506ceb, 0xbef9a3f7, 0xc67178f2]

/-! ## The compression function -/

/-- The eight working words. -/
structure State where
  a : ℕ
  b : ℕ
  c : ℕ
  d : ℕ
  e : ℕ
  f : ℕ
  g : ℕ
  h : ℕ
  deriving DecidableEq, Repr

/-- The initial hash value. -/
def initial : State :=
  ⟨0x6a09e667, 0xbb67ae85, 0x3c6ef372, 0xa54ff53a, 0x510e527f, 0x9b05688c, 0x1f83d9ab, 0x5be0cd19⟩

/-- One round, with its constant `k` and its schedule word `w`. -/
def round (s : State) (k w : ℕ) : State :=
  let t1 := s.h + bigSigma1 s.e + ch s.e s.f s.g + k + w
  let t2 := bigSigma0 s.a + maj s.a s.b s.c
  ⟨wrap (t1 + t2), s.a, s.b, s.c, wrap (s.d + t1), s.e, s.f, s.g⟩

/-- The message schedule after `n` extension steps, latest word first. -/
def extend : ℕ → List ℕ → List ℕ
  | 0, w => w
  | n + 1, w =>
      extend n (wrap (smallSigma1 (w.getD 1 0) + w.getD 6 0 + smallSigma0 (w.getD 14 0)
        + w.getD 15 0) :: w)

/-- The first `n` big-endian words of a byte list. -/
def words : ℕ → List ℕ → List ℕ
  | 0, _ => []
  | n + 1, b0 :: b1 :: b2 :: b3 :: rest =>
      (((b0 * 256 + b1) * 256 + b2) * 256 + b3) :: words n rest
  | _ + 1, _ => []

/-- All 64 words of the message schedule of one block. -/
def schedule (block : List ℕ) : List ℕ := (extend 48 (words 16 block).reverse).reverse

/-- The rounds of a block. -/
def rounds : List ℕ → List ℕ → State → State
  | k :: ks, w :: ws, s => rounds ks ws (round s k w)
  | _, _, s => s

/-- One block: run the 64 rounds and add the result to the chaining value. -/
def compress (s : State) (block : List ℕ) : State :=
  let t := rounds roundConstants (schedule block) s
  ⟨wrap (s.a + t.a), wrap (s.b + t.b), wrap (s.c + t.c), wrap (s.d + t.d),
   wrap (s.e + t.e), wrap (s.f + t.f), wrap (s.g + t.g), wrap (s.h + t.h)⟩

/-- Compress the first `n` 64-byte blocks. -/
def blocks : ℕ → List ℕ → State → State
  | 0, _, s => s
  | n + 1, bytes, s => blocks n (bytes.drop 64) (compress s (bytes.take 64))

/-! ## Padding and output -/

/-- The four big-endian bytes of a word. -/
def wordBytes (w : ℕ) : List UInt8 :=
  [UInt8.ofNat (w >>> 24), UInt8.ofNat (w >>> 16), UInt8.ofNat (w >>> 8), UInt8.ofNat w]

/-- The message followed by `0x80`, zeros and its bit length in eight bytes. -/
def pad (message : List UInt8) : List ℕ :=
  let n := message.length
  message.map UInt8.toNat ++ 0x80 :: List.replicate ((119 - n % 64) % 64) 0
    ++ (List.range 8).map (fun i => (8 * n) >>> (8 * (7 - i)) % 256)

/-- The digest that a state stands for. -/
def State.bytes (s : State) : List UInt8 :=
  wordBytes s.a ++ wordBytes s.b ++ wordBytes s.c ++ wordBytes s.d
    ++ wordBytes s.e ++ wordBytes s.f ++ wordBytes s.g ++ wordBytes s.h

/-- The SHA-256 digest of a byte string. -/
def hash (message : List UInt8) : List UInt8 :=
  let padded := pad message
  (blocks (padded.length / 64) padded initial).bytes

/-- A digest is 32 bytes long. -/
theorem length_hash (message : List UInt8) : (hash message).length = 32 := by
  simp [hash, State.bytes, wordBytes]

/-- No two messages of `S` share a digest. -/
def CollisionFree (S : Set (List UInt8)) : Prop := Set.InjOn hash S

/-- Messages with pairwise different digests do not collide. -/
theorem CollisionFree.of_nodup {l : List (List UInt8)} (h : (l.map hash).Nodup) :
    CollisionFree {m | m ∈ l} := by
  intro a ha b hb hab
  exact List.inj_on_of_nodup_map h ha hb hab

theorem CollisionFree.pair {x y : List UInt8} (h : hash x ≠ hash y) :
    CollisionFree {m | m ∈ [x, y]} := by
  intro a ha b hb hab
  have hmem : ∀ m : List UInt8, m ∈ [x, y] → m = x ∨ m = y := by simp
  rcases hmem a ha with rfl | rfl <;> rcases hmem b hb with rfl | rfl
  · rfl
  · exact absurd hab h
  · exact absurd hab.symm h
  · rfl

/-- The FIPS 180-4 test vector for the message `abc`. -/
example : hash [0x61, 0x62, 0x63] =
    [0xba, 0x78, 0x16, 0xbf, 0x8f, 0x01, 0xcf, 0xea, 0x41, 0x41, 0x40, 0xde, 0x5d, 0xae, 0x22, 0x23,
     0xb0, 0x03, 0x61, 0xa3, 0x96, 0x17, 0x7a, 0x9c, 0xb4, 0x10, 0xff, 0x61, 0xf2, 0x00, 0x15,
     0xad] := by
  decide +kernel

end Sha256
