/-!
# The BLAKE3 digest

The input is cut into chunks of 1024 bytes and each chunk into blocks of 64 bytes.  The blocks of a
chunk are compressed one after another, and the chunks are the leaves of a binary tree whose left
subtrees are as large a power of two as leaves something for the right.  The last compression, at
the root, gives the digest.
-/

namespace AuditTrail.Blake3

/-- The eight words that a compression hands on. -/
abbrev Chaining := Vector UInt32 8

/-- Sixteen words: a block of the message, or the state of a compression. -/
abbrev Block := Vector UInt32 16

/-- The initial chaining words. -/
def initial : Chaining :=
  #v[0x6A09E667, 0xBB67AE85, 0x3C6EF372, 0xA54FF53A, 0x510E527F, 0x9B05688C, 0x1F83D9AB,
    0x5BE0CD19]

/-- Rotation of a word to the right. -/
def rotated (word count : UInt32) : UInt32 := (word >>> count) ||| (word <<< (32 - count))

/-- Mix two message words into four state words. -/
def mix (state : Block) (a b c d : Fin 16) (x y : UInt32) : Block :=
  let state := state.set a (state[a] + state[b] + x)
  let state := state.set d (rotated (state[d] ^^^ state[a]) 16)
  let state := state.set c (state[c] + state[d])
  let state := state.set b (rotated (state[b] ^^^ state[c]) 12)
  let state := state.set a (state[a] + state[b] + y)
  let state := state.set d (rotated (state[d] ^^^ state[a]) 8)
  let state := state.set c (state[c] + state[d])
  state.set b (rotated (state[b] ^^^ state[c]) 7)

/-- Mix the whole message into the columns and then into the diagonals of the state. -/
def mixAll (state message : Block) : Block :=
  let state := mix state 0 4 8 12 message[0] message[1]
  let state := mix state 1 5 9 13 message[2] message[3]
  let state := mix state 2 6 10 14 message[4] message[5]
  let state := mix state 3 7 11 15 message[6] message[7]
  let state := mix state 0 5 10 15 message[8] message[9]
  let state := mix state 1 6 11 12 message[10] message[11]
  let state := mix state 2 7 8 13 message[12] message[13]
  mix state 3 4 9 14 message[14] message[15]

/-- Order in which one round takes the words of the round before. -/
def permutation : Vector (Fin 16) 16 :=
  #v[2, 6, 3, 10, 7, 0, 4, 13, 1, 11, 12, 5, 9, 14, 15, 8]

/-- The message as the next round sees it. -/
def permuted (message : Block) : Block := permutation.map fun position => message[position]

/-- Rounds of mixing, the message permuted after each. -/
def rounds : Nat → Block → Block → Block
  | 0, state, _ => state
  | count + 1, state, message => rounds count (mixAll state message) (permuted message)

/-- What a compression needs to know besides the chaining words. -/
structure Compression where
  /-- Chaining words so far. -/
  chaining : Chaining
  /-- The message. -/
  block : Block
  /-- Number of the chunk, zero for inner nodes. -/
  counter : Nat
  /-- Number of message bytes. -/
  length : Nat
  /-- Place of the block in its chunk and in the tree. -/
  flags : UInt32

/-- The first block of a chunk. -/
def chunkStart : UInt32 := 1

/-- The last block of a chunk. -/
def chunkEnd : UInt32 := 2

/-- A node above the chunks. -/
def parent : UInt32 := 4

/-- The node at the root. -/
def root : UInt32 := 8

/-- Compress a node, with further flags, to eight words. -/
def Compression.run (node : Compression) (flags : UInt32) : Chaining :=
  let state : Block :=
    node.chaining ++
      (#v[initial[0], initial[1], initial[2], initial[3], UInt32.ofNat node.counter,
        UInt32.ofNat (node.counter / Nat.pow 2 32), UInt32.ofNat node.length,
        node.flags ||| flags] : Vector UInt32 8)
  let mixed := rounds 7 state node.block
  Vector.ofFn fun i : Fin 8 => mixed[i.val] ^^^ mixed[i.val + 8]

/-- Words from bytes, four at a time, the least significant byte first; zero bytes fill up. -/
def blockOf (bytes : List UInt8) : Block :=
  let bytes := bytes.toArray
  Vector.ofFn fun i : Fin 16 =>
    let byte (k : Nat) : UInt32 := (bytes.getD (4 * i.val + k) 0).toUInt32
    byte 0 ||| (byte 1 <<< 8) ||| (byte 2 <<< 16) ||| (byte 3 <<< 24)

/-- Cut into pieces of `size` items; an empty list is one empty piece. -/
def pieces {α : Type} (size : Nat) : Nat → List α → List (List α)
  | 0, items => [items]
  | fuel + 1, items =>
    if items.length ≤ size then [items]
    else items.take size :: pieces size fuel (items.drop size)

/-- Compress the blocks of a chunk up to its last one, which is left as a node. -/
def chunkNode (counter : Nat) : UInt32 → Chaining → List (List UInt8) → Compression
  | flags, chaining, [] => ⟨chaining, blockOf [], counter, 0, flags ||| chunkEnd⟩
  | flags, chaining, [last] =>
    ⟨chaining, blockOf last, counter, last.length, flags ||| chunkEnd⟩
  | flags, chaining, block :: rest =>
    let node : Compression := ⟨chaining, blockOf block, counter, block.length, flags⟩
    chunkNode counter 0 (node.run 0) rest

/-- The node of a chunk. -/
def leaf (counter : Nat) (chunk : List UInt8) : Compression :=
  chunkNode counter chunkStart initial (pieces 64 chunk.length chunk)

/-- The node above two subtrees. -/
def join (left right : Compression) : Compression :=
  ⟨initial, left.run 0 ++ right.run 0, 0, 64, parent⟩

/-- Number of chunks in the left subtree: the largest power of two below `count`. -/
def leftCount (count : Nat) : Nat := Nat.pow 2 (count - 1).log2

theorem leftCount_pos (count : Nat) : 0 < leftCount count := Nat.two_pow_pos _

theorem leftCount_lt {count : Nat} (two : 2 ≤ count) : leftCount count < count := by
  have below : leftCount count ≤ count - 1 := Nat.log2_self_le (Nat.sub_ne_zero_of_lt two)
  exact Nat.lt_of_le_of_lt below (Nat.sub_lt (Nat.lt_of_lt_of_le Nat.two_pos two) Nat.one_pos)

/-- The node of the tree over some chunks, the first of which has number `counter`. -/
def tree (counter : Nat) (chunks : List (List UInt8)) : Compression :=
  if _two : 2 ≤ chunks.length then
    let count := leftCount chunks.length
    join (tree counter (chunks.take count)) (tree (counter + count) (chunks.drop count))
  else leaf counter (chunks.headD [])
termination_by chunks.length
decreasing_by
  all_goals
    have below := leftCount_lt _two
    have positive := leftCount_pos chunks.length
    simp only [List.length_take, List.length_drop]
    omega

/-- The first eight words of the output, which are the digest. -/
def digest (bytes : List UInt8) : Chaining :=
  (tree 0 (pieces 1024 bytes.length bytes)).run root

/-- A byte as two hexadecimal digits. -/
def hexByte (byte : UInt8) : List Char :=
  [Nat.digitChar (byte.toNat / 16), Nat.digitChar (byte.toNat % 16)]

/-- A word as eight hexadecimal digits, its least significant byte first. -/
def hexWord (word : UInt32) : List Char :=
  ([0, 8, 16, 24] : List UInt32).flatMap fun shift => hexByte (word >>> shift).toUInt8

/-- The digest of a text as 64 hexadecimal digits. -/
def hexDigest (text : String) : String :=
  String.ofList ((digest text.toUTF8.toList).toList.flatMap hexWord)

end AuditTrail.Blake3
