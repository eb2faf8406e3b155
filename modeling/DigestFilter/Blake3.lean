import DigestFilter.Bytes.LittleEndian

/-!
# BLAKE3

The 32-byte BLAKE3 digest of a byte string. The input is cut into chunks of 1024 bytes and each
chunk is compressed block by block. The chunks are the leaves of a binary tree in which every left
subtree is full and as large as possible; the digest is the compression of its root.
-/

namespace DigestFilter.Blake3

/-- The value that one compression hands to the next. -/
abbrev Chain := Vector UInt32 8

abbrev Words := Vector UInt32 16

def chunkSize : Nat := 1024

def blockSize : Nat := 64

def initial : Chain :=
  #v[0x6A09E667, 0xBB67AE85, 0x3C6EF372, 0xA54FF53A,
     0x510E527F, 0x9B05688C, 0x1F83D9AB, 0x5BE0CD19]

/-- Where each message word of the next round comes from. -/
def permutation : Vector (Fin 16) 16 :=
  #v[2, 6, 3, 10, 7, 0, 4, 13, 1, 11, 12, 5, 9, 14, 15, 8]

/-! ## Compression -/

def rotateRight (x : UInt32) (n : UInt32) : UInt32 := x >>> n ||| x <<< (32 - n)

def mix (s : Words) (a b c d : Fin 16) (x y : UInt32) : Words :=
  let va := s[a] + s[b] + x
  let vd := rotateRight (s[d] ^^^ va) 16
  let vc := s[c] + vd
  let vb := rotateRight (s[b] ^^^ vc) 12
  let va := va + vb + y
  let vd := rotateRight (vd ^^^ va) 8
  let vc := vc + vd
  let vb := rotateRight (vb ^^^ vc) 7
  (((s.set a va).set b vb).set c vc).set d vd

def round (m : Words) (s : Words) : Words :=
  let s := mix s 0 4 8 12 m[0] m[1]
  let s := mix s 1 5 9 13 m[2] m[3]
  let s := mix s 2 6 10 14 m[4] m[5]
  let s := mix s 3 7 11 15 m[6] m[7]
  let s := mix s 0 5 10 15 m[8] m[9]
  let s := mix s 1 6 11 12 m[10] m[11]
  let s := mix s 2 7 8 13 m[12] m[13]
  mix s 3 4 9 14 m[14] m[15]

def permute (m : Words) : Words := Vector.ofFn fun i => m[permutation[i]]

def rounds : Nat → Words → Words → Words
  | 0, _, s => s
  | n + 1, m, s => rounds n (permute m) (round m s)

/-- A compression that is still to be done: of a block, or of the chains of two subtrees. -/
structure Node where
  chain : Chain
  message : Words
  counter : UInt64
  used : UInt32
  flags : UInt32

def chunkStart : UInt32 := 1

def chunkEnd : UInt32 := 2

def parent : UInt32 := 4

def root : UInt32 := 8

def Node.compress (n : Node) : Chain :=
  let h := n.chain
  let s := rounds 7 n.message
    #v[h[0], h[1], h[2], h[3], h[4], h[5], h[6], h[7],
       initial[0], initial[1], initial[2], initial[3],
       n.counter.toUInt32, (n.counter >>> 32).toUInt32, n.used, n.flags]
  #v[s[0] ^^^ s[8], s[1] ^^^ s[9], s[2] ^^^ s[10], s[3] ^^^ s[11],
     s[4] ^^^ s[12], s[5] ^^^ s[13], s[6] ^^^ s[14], s[7] ^^^ s[15]]

/-! ## Chunks and the tree -/

/-- The words of a block. A short block is filled up with zeros. -/
def blockWords (block : List UInt8) : Words :=
  Vector.ofFn fun i => UInt32.ofNat (LittleEndian.value ((block.drop (4 * i)).take 4))

/-- The last compression of a chunk, after those of all blocks before its last one. -/
def chunkNode (index : Nat) (chain : Chain) (flags : UInt32) (data : List UInt8) : Node :=
  let node (block : List UInt8) (flags : UInt32) : Node :=
    ⟨chain, blockWords block, UInt64.ofNat index, UInt32.ofNat block.length, flags⟩
  if data.length ≤ blockSize then node data (flags ||| chunkEnd)
  else chunkNode index (node (data.take blockSize) flags).compress 0 (data.drop blockSize)
termination_by data.length
decreasing_by
  simp only [List.length_drop, blockSize] at *
  omega

def parentNode (left right : Chain) : Node :=
  ⟨initial, left ++ right, 0, 64, parent⟩

/-- The size of the left subtree over `n` bytes: the largest full tree that leaves some bytes. -/
def leftSize (n : Nat) : Nat := chunkSize <<< ((n - 1) / chunkSize).log2

theorem leftSize_lt {n : Nat} (h : chunkSize < n) : leftSize n < n := by
  have hpos : (n - 1) / chunkSize ≠ 0 := by
    have : 0 < (n - 1) / chunkSize := Nat.div_pos (by omega) (by simp [chunkSize])
    omega
  calc leftSize n = chunkSize * 2 ^ ((n - 1) / chunkSize).log2 := Nat.shiftLeft_eq _ _
    _ ≤ chunkSize * ((n - 1) / chunkSize) := Nat.mul_le_mul_left _ (Nat.log2_self_le hpos)
    _ ≤ n - 1 := Nat.mul_div_le _ _
    _ < n := by omega

theorem leftSize_pos (n : Nat) : 0 < leftSize n := by
  rw [leftSize, Nat.shiftLeft_eq]
  exact Nat.mul_pos (by simp [chunkSize]) (Nat.two_pow_pos _)

/-- The last compression over `data`, whose first chunk has this index. -/
def treeNode (index : Nat) (data : List UInt8) : Node :=
  if data.length ≤ chunkSize then chunkNode index initial chunkStart data
  else
    let left := leftSize data.length
    parentNode
      (treeNode index (data.take left)).compress
      (treeNode (index + left / chunkSize) (data.drop left)).compress
termination_by data.length
decreasing_by
  · have := leftSize_lt (n := data.length) (by omega)
    simp only [List.length_take]
    omega
  · have := leftSize_pos data.length
    simp only [List.length_drop]
    omega

def chainBytes (c : Chain) : List UInt8 :=
  c.toList.flatMap fun w => LittleEndian.bytes 4 w.toNat

def digest (data : List UInt8) : List UInt8 :=
  let top := treeNode 0 data
  chainBytes { top with flags := top.flags ||| root }.compress

theorem length_chainBytes (c : Chain) : (chainBytes c).length = 32 := by
  simp [chainBytes, List.length_flatMap, List.map_const']

@[simp] theorem length_digest (data : List UInt8) : (digest data).length = 32 :=
  length_chainBytes _

theorem digest_ne_nil (data : List UInt8) : digest data ≠ [] := by
  intro h
  have := length_digest data
  simp [h] at this

end DigestFilter.Blake3
