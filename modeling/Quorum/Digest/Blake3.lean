/-!
# The BLAKE3 hash in key derivation mode

A text is cut into chunks of 1024 octets and a chunk into blocks of 64. Each chunk is folded block
by block into a chaining value, and chaining values are joined in a binary tree whose left side
holds the largest power of two of chunks. Key derivation hashes a context string first and uses
the result as the key for the material.
-/
namespace Quorum.Blake3

/-- The hash works on words of 32 bits, some number of them at a time. -/
abbrev Words (n : Nat) := Vector UInt32 n

/-- The words that a hash without a key starts from. -/
def initial : Words 8 :=
  #v[0x6A09E667, 0xBB67AE85, 0x3C6EF372, 0xA54FF53A, 0x510E527F, 0x9B05688C, 0x1F83D9AB, 0x5BE0CD19]

/-- Marks the first block of a chunk. The flags below mark where a block stands and what is
hashed. -/
def chunkStart : UInt32 := 1
def chunkEnd : UInt32 := 2
def parent : UInt32 := 4
def root : UInt32 := 8
def contextMode : UInt32 := 32
def materialMode : UInt32 := 64

def rotateRight (x n : UInt32) : UInt32 := (x >>> n) ||| (x <<< (32 - n))

/-- The mixing of four of the sixteen words with two words of the message. -/
def quarter (s : Words 16) (a b c d : Fin 16) (x y : UInt32) : Words 16 :=
  let s := s.set a (s[a] + s[b] + x)
  let s := s.set d (rotateRight (s[d] ^^^ s[a]) 16)
  let s := s.set c (s[c] + s[d])
  let s := s.set b (rotateRight (s[b] ^^^ s[c]) 12)
  let s := s.set a (s[a] + s[b] + y)
  let s := s.set d (rotateRight (s[d] ^^^ s[a]) 8)
  let s := s.set c (s[c] + s[d])
  s.set b (rotateRight (s[b] ^^^ s[c]) 7)

/-- The four columns, then the four diagonals. The words of the message are used up in their order,
two for each. -/
def round (s m : Words 16) : Words 16 :=
  let s := quarter s 0 4 8 12 m[0] m[1]
  let s := quarter s 1 5 9 13 m[2] m[3]
  let s := quarter s 2 6 10 14 m[4] m[5]
  let s := quarter s 3 7 11 15 m[6] m[7]
  let s := quarter s 0 5 10 15 m[8] m[9]
  let s := quarter s 1 6 11 12 m[10] m[11]
  let s := quarter s 2 7 8 13 m[12] m[13]
  quarter s 3 4 9 14 m[14] m[15]

/-- The order in which the next round takes the words of the message. -/
def permute (m : Words 16) : Words 16 :=
  #v[m[2], m[6], m[3], m[10], m[7], m[0], m[4], m[13], m[1], m[11], m[12], m[5], m[9], m[14], m[15],
    m[8]]

/-- A number of rounds, the message permuted between them. -/
def rounds : Nat → Words 16 → Words 16 → Words 16
  | 0, s, _ => s
  | n + 1, s, m => rounds n (round s m) (permute m)

/-- A block that still has to be compressed, and what it is compressed with. -/
structure Input where
  chaining : Words 8
  block : Words 16
  counter : Nat
  length : Nat
  flags : UInt32

/-- The words that a block leaves for what comes after it. -/
def Input.compress (i : Input) : Words 8 :=
  let h := i.chaining
  let s : Words 16 :=
    #v[h[0], h[1], h[2], h[3], h[4], h[5], h[6], h[7],
      initial[0], initial[1], initial[2], initial[3],
      i.counter.toUInt32, (i.counter >>> 32).toUInt32, i.length.toUInt32, i.flags]
  let s := rounds 7 s i.block
  #v[s[0] ^^^ s[8], s[1] ^^^ s[9], s[2] ^^^ s[10], s[3] ^^^ s[11], s[4] ^^^ s[12], s[5] ^^^ s[13],
    s[6] ^^^ s[14], s[7] ^^^ s[15]]

/-- Four octets as a word, the least first. -/
def wordOfOctets (bytes : List UInt8) : UInt32 :=
  bytes.foldr (fun b w => (w <<< 8) ||| b.toUInt32) 0

/-- Octets in groups of four, the lowest first, filled up with zeros. -/
def words (n : Nat) (bytes : List UInt8) : Words n :=
  Vector.ofFn fun i => wordOfOctets ((bytes.drop (4 * i.val)).take 4)

/-- The last block of a chunk, all blocks before it being compressed. -/
def chunkInput (key : Words 8) (flags : UInt32) (counter : Nat) (first : Bool)
    (bytes : List UInt8) :
    Input :=
  let flags' := if first then flags ||| chunkStart else flags
  let block : Input := ⟨key, words 16 (bytes.take 64), counter, min bytes.length 64, flags'⟩
  if _h : bytes.length ≤ 64 then { block with flags := flags' ||| chunkEnd }
  else chunkInput block.compress flags counter false (bytes.drop 64)
termination_by bytes.length
decreasing_by simp; omega

/-- The largest power of two of whole chunks that leaves something for the right side. -/
def leftLength (length : Nat) : Nat := 1024 <<< ((length - 1) / 1024).log2

theorem leftLength_pos (length : Nat) : 0 < leftLength length := by
  rw [leftLength, Nat.shiftLeft_eq]
  exact Nat.mul_pos (by omega) (Nat.two_pow_pos _)

theorem leftLength_lt {length : Nat} (h : 1024 < length) : leftLength length < length := by
  have pos : (length - 1) / 1024 ≠ 0 := by omega
  have := Nat.log2_self_le pos
  rw [leftLength, Nat.shiftLeft_eq]
  omega

/-- The input that joins two halves of a tree. -/
def joinInput (key : Words 8) (flags : UInt32) (left right : Words 8) : Input :=
  ⟨key, (left ++ right).cast rfl, 0, 64, flags ||| parent⟩

/-- The root of the tree over `bytes`, whose first chunk has the number `counter`. -/
def treeInput (key : Words 8) (flags : UInt32) (counter : Nat) (bytes : List UInt8) : Input :=
  if _h : bytes.length ≤ 1024 then chunkInput key flags counter true bytes
  else
    let n := leftLength bytes.length
    let left := treeInput key flags counter (bytes.take n)
    let right := treeInput key flags (counter + n / 1024) (bytes.drop n)
    joinInput key flags left.compress right.compress
termination_by bytes.length
decreasing_by
  all_goals
    have := leftLength_lt (Nat.lt_of_not_le _h)
    have := leftLength_pos bytes.length
    simp only [List.length_take, List.length_drop]
    omega

/-- The words of the whole tree over the octets, its root marked as such. -/
def hash (key : Words 8) (mode : UInt32) (bytes : List UInt8) : Words 8 :=
  let i := treeInput key mode 0 bytes
  { i with flags := i.flags ||| root }.compress

def octetsOfWord (w : UInt32) : List UInt8 :=
  [w.toUInt8, (w >>> 8).toUInt8, (w >>> 16).toUInt8, (w >>> 24).toUInt8]

/-- The key derived from `material` in a context: 32 octets. -/
def deriveKey (context material : List UInt8) : List UInt8 :=
  (hash (hash initial contextMode context) materialMode material).toList.flatMap octetsOfWord

end Quorum.Blake3
