import Mathlib.Data.List.Basic

/-!
# AES-256-GCM, as an executable function on byte lists

The cipher of FIPS 197 in Galois/counter mode, for nonces of 12 bytes and without
associated data, written so that it runs inside the kernel: bytes and blocks are natural
numbers, and every loop is a structural recursion.

* `decrypt_encrypt` — decryption undoes encryption, under any key and nonce.
-/

namespace AesGcm

/-! ## The block cipher -/

/-- The substitution table. -/
def sbox : List ℕ :=
  [0x63, 0x7c, 0x77, 0x7b, 0xf2, 0x6b, 0x6f, 0xc5, 0x30, 0x01, 0x67, 0x2b, 0xfe, 0xd7, 0xab, 0x76,
   0xca, 0x82, 0xc9, 0x7d, 0xfa, 0x59, 0x47, 0xf0, 0xad, 0xd4, 0xa2, 0xaf, 0x9c, 0xa4, 0x72, 0xc0,
   0xb7, 0xfd, 0x93, 0x26, 0x36, 0x3f, 0xf7, 0xcc, 0x34, 0xa5, 0xe5, 0xf1, 0x71, 0xd8, 0x31, 0x15,
   0x04, 0xc7, 0x23, 0xc3, 0x18, 0x96, 0x05, 0x9a, 0x07, 0x12, 0x80, 0xe2, 0xeb, 0x27, 0xb2, 0x75,
   0x09, 0x83, 0x2c, 0x1a, 0x1b, 0x6e, 0x5a, 0xa0, 0x52, 0x3b, 0xd6, 0xb3, 0x29, 0xe3, 0x2f, 0x84,
   0x53, 0xd1, 0x00, 0xed, 0x20, 0xfc, 0xb1, 0x5b, 0x6a, 0xcb, 0xbe, 0x39, 0x4a, 0x4c, 0x58, 0xcf,
   0xd0, 0xef, 0xaa, 0xfb, 0x43, 0x4d, 0x33, 0x85, 0x45, 0xf9, 0x02, 0x7f, 0x50, 0x3c, 0x9f, 0xa8,
   0x51, 0xa3, 0x40, 0x8f, 0x92, 0x9d, 0x38, 0xf5, 0xbc, 0xb6, 0xda, 0x21, 0x10, 0xff, 0xf3, 0xd2,
   0xcd, 0x0c, 0x13, 0xec, 0x5f, 0x97, 0x44, 0x17, 0xc4, 0xa7, 0x7e, 0x3d, 0x64, 0x5d, 0x19, 0x73,
   0x60, 0x81, 0x4f, 0xdc, 0x22, 0x2a, 0x90, 0x88, 0x46, 0xee, 0xb8, 0x14, 0xde, 0x5e, 0x0b, 0xdb,
   0xe0, 0x32, 0x3a, 0x0a, 0x49, 0x06, 0x24, 0x5c, 0xc2, 0xd3, 0xac, 0x62, 0x91, 0x95, 0xe4, 0x79,
   0xe7, 0xc8, 0x37, 0x6d, 0x8d, 0xd5, 0x4e, 0xa9, 0x6c, 0x56, 0xf4, 0xea, 0x65, 0x7a, 0xae, 0x08,
   0xba, 0x78, 0x25, 0x2e, 0x1c, 0xa6, 0xb4, 0xc6, 0xe8, 0xdd, 0x74, 0x1f, 0x4b, 0xbd, 0x8b, 0x8a,
   0x70, 0x3e, 0xb5, 0x66, 0x48, 0x03, 0xf6, 0x0e, 0x61, 0x35, 0x57, 0xb9, 0x86, 0xc1, 0x1d, 0x9e,
   0xe1, 0xf8, 0x98, 0x11, 0x69, 0xd9, 0x8e, 0x94, 0x9b, 0x1e, 0x87, 0xe9, 0xce, 0x55, 0x28, 0xdf,
   0x8c, 0xa1, 0x89, 0x0d, 0xbf, 0xe6, 0x42, 0x68, 0x41, 0x99, 0x2d, 0x0f, 0xb0, 0x54, 0xbb, 0x16]

/-- A byte by that table. -/
def subByte (b : ℕ) : ℕ := sbox.getD b 0

/-- Two lists of bytes combined. -/
def xor : List ℕ → List ℕ → List ℕ := List.zipWith (· ^^^ ·)

/-- Multiplication by `x` in the field of 256 elements. -/
def xtime (b : ℕ) : ℕ := if b < 0x80 then b <<< 1 else (b <<< 1 ^^^ 0x11b)

/-- The `n` words of the key schedule from the `i`-th on, the latest word first. -/
def expand : ℕ → ℕ → List (List ℕ) → List (List ℕ)
  | 0, _, ws => ws
  | n + 1, i, ws =>
    let prev := ws.getD 0 []
    let temp :=
      if i % 8 = 0 then xor ((prev.rotateLeft 1).map subByte) [1 <<< (i / 8 - 1), 0, 0, 0]
      else if i % 8 = 4 then prev.map subByte
      else prev
    expand n (i + 1) (xor temp (ws.getD 7 []) :: ws)

/-- A list in pieces of `k`. -/
def pieces (k : ℕ) : ℕ → List ℕ → List (List ℕ)
  | 0, _ => []
  | n + 1, l => l.take k :: pieces k n (l.drop k)

/-- The 15 round keys of a key of 32 bytes. -/
def roundKeys (key : List ℕ) : List (List ℕ) :=
  pieces 16 15 (expand 52 8 (pieces 4 8 key).reverse).reverse.flatten

/-- A state of 16 bytes, column by column, with its rows shifted. -/
def shiftRows (s : List ℕ) : List ℕ :=
  [0, 5, 10, 15, 4, 9, 14, 3, 8, 13, 2, 7, 12, 1, 6, 11].map fun i => s.getD i 0

/-- Each column multiplied by the fixed matrix. -/
def mixColumns : List ℕ → List ℕ
  | a :: b :: c :: d :: rest =>
    (xtime a ^^^ xtime b ^^^ b ^^^ c ^^^ d) :: (a ^^^ xtime b ^^^ xtime c ^^^ c ^^^ d) ::
      (a ^^^ b ^^^ xtime c ^^^ xtime d ^^^ d) :: (xtime a ^^^ a ^^^ b ^^^ c ^^^ xtime d) ::
      mixColumns rest
  | _ => []

/-- The rounds after the first key has been added; the last one mixes no columns. -/
def rounds : List (List ℕ) → List ℕ → List ℕ
  | [], s => s
  | [k], s => xor (shiftRows (s.map subByte)) k
  | k :: ks, s => rounds ks (xor (mixColumns (shiftRows (s.map subByte))) k)

/-- AES-256 of one block. -/
def cipher (key block : List ℕ) : List ℕ :=
  match roundKeys key with
  | [] => block
  | k :: ks => rounds ks (xor block k)

/-! ## Authentication -/

/-- Multiplication in the field of `2 ^ 128` elements, bit by bit from the highest of `y`. -/
def mulFrom : ℕ → ℕ → ℕ → ℕ → ℕ
  | 0, _, _, z => z
  | i + 1, y, v, z =>
    mulFrom i y (if v % 2 = 0 then v >>> 1 else (v >>> 1) ^^^ 0xe1000000000000000000000000000000)
      (if y.testBit i then z ^^^ v else z)

/-- The number that a list of bytes is in base 256. -/
def ofBytes (l : List ℕ) : ℕ := l.foldl (fun n b => n * 256 + b) 0

/-- The last `k` bytes of a number. -/
def toBytes (k n : ℕ) : List ℕ := (List.range k).map fun i => n >>> (8 * (k - 1 - i)) % 256

/-- Blocks of 16 bytes, the last one filled with zeros. -/
def padded (l : List ℕ) : List (List ℕ) :=
  pieces 16 ((l.length + 15) / 16) (l ++ List.replicate 15 0)

/-- The hash of blocks under the key `h`. -/
def ghash (h : ℕ) (blocks : List (List ℕ)) : ℕ :=
  blocks.foldl (fun y block => mulFrom 128 (y ^^^ ofBytes block) h 0) 0

/-- The authentication tag of a ciphertext. -/
def tag (key nonce ciphertext : List ℕ) : List ℕ :=
  let h := ofBytes (cipher key (List.replicate 16 0))
  let sum := ghash h (padded ciphertext ++ [toBytes 16 (8 * ciphertext.length)])
  toBytes 16 (sum ^^^ ofBytes (cipher key (nonce ++ [0, 0, 0, 1])))

/-! ## Counter mode -/

/-- The key stream for a number of bytes. -/
def keyStream (key nonce : List ℕ) (n : ℕ) : List ℕ :=
  (List.range ((n + 15) / 16)).flatMap fun i => cipher key (nonce ++ toBytes 4 (i + 2))

/-- Each byte of a text combined with its byte of the key stream. -/
def mask : List UInt8 → List ℕ → List UInt8
  | b :: bs, k :: ks => (b ^^^ UInt8.ofNat k) :: mask bs ks
  | bs, _ => bs

/-- Bytes as numbers. -/
def bytes (l : List UInt8) : List ℕ := l.map UInt8.toNat

/-- The tag in bytes. -/
def tagOf (key nonce ciphertext : List UInt8) : List UInt8 :=
  (tag (bytes key) (bytes nonce) (bytes ciphertext)).map UInt8.ofNat

/-- The ciphertext, followed by its tag. -/
def encrypt (key nonce plaintext : List UInt8) : List UInt8 :=
  let body := mask plaintext (keyStream (bytes key) (bytes nonce) plaintext.length)
  body ++ tagOf key nonce body

/-- The plaintext, if the tag is right. -/
def decrypt (key nonce ciphertext : List UInt8) : Option (List UInt8) :=
  if ciphertext.length < 16 then none
  else
    let body := ciphertext.take (ciphertext.length - 16)
    if ciphertext.drop (ciphertext.length - 16) = tagOf key nonce body then
      some (mask body (keyStream (bytes key) (bytes nonce) body.length))
    else none

theorem length_mask (l : List UInt8) (ks : List ℕ) : (mask l ks).length = l.length := by
  induction l generalizing ks with
  | nil => cases ks <;> rfl
  | cons b l ih =>
    cases ks with
    | nil => rfl
    | cons k ks => rw [mask, List.length_cons, List.length_cons, ih]

theorem mask_mask (l : List UInt8) (ks : List ℕ) : mask (mask l ks) ks = l := by
  induction l generalizing ks with
  | nil => cases ks <;> rfl
  | cons b l ih =>
    cases ks with
    | nil => rfl
    | cons k ks => rw [mask, mask, ih, UInt8.xor_assoc, UInt8.xor_self, UInt8.xor_zero]

theorem length_tagOf (key nonce ciphertext : List UInt8) :
    (tagOf key nonce ciphertext).length = 16 := by
  rw [tagOf, List.length_map, tag, toBytes, List.length_map, List.length_range]

/-- **Decryption undoes encryption.** -/
theorem decrypt_encrypt (key nonce plaintext : List UInt8) :
    decrypt key nonce (encrypt key nonce plaintext) = some plaintext := by
  set body := mask plaintext (keyStream (bytes key) (bytes nonce) plaintext.length) with hbody
  have hlen : body.length = plaintext.length := length_mask _ _
  have hsplit : encrypt key nonce plaintext = body ++ tagOf key nonce body := rfl
  have htotal : (body ++ tagOf key nonce body).length - 16 = body.length := by
    rw [List.length_append, length_tagOf, Nat.add_sub_cancel]
  rw [hsplit, decrypt, if_neg (by rw [List.length_append, length_tagOf]; omega), htotal,
    List.take_left, List.drop_left, if_pos rfl, hlen, hbody, mask_mask]

/-- A block of zeros under a key of zeros. -/
example : bytes (encrypt (List.replicate 32 0) (List.replicate 12 0) (List.replicate 16 0))
    = toBytes 32 0xcea7403d4d606b6e074ec5d3baf39d18d0d1c8a799996bf0265b98b5d48ab919 := by
  decide +kernel

end AesGcm
