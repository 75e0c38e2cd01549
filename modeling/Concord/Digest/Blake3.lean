/-!
# The hash function BLAKE3

Hashing of byte strings in the mode that derives a key from a context: the context is hashed first,
and its digest keys the hash of the data, so the same bytes under two contexts have unrelated
digests. Data is cut into chunks of 1024 bytes, each chunk into blocks of 64 bytes, and the chunks
are joined by a binary tree whose left subtrees are complete.
-/

namespace Concord.Blake3

/-- Four words side by side. -/
structure Row where
  w0 : UInt32
  w1 : UInt32
  w2 : UInt32
  w3 : UInt32

namespace Row

/-- Apply a function to every word. -/
def map (f : UInt32 → UInt32) (x : Row) : Row := ⟨f x.w0, f x.w1, f x.w2, f x.w3⟩

/-- Combine two rows word by word. -/
def zip (f : UInt32 → UInt32 → UInt32) (x y : Row) : Row :=
  ⟨f x.w0 y.w0, f x.w1 y.w1, f x.w2 y.w2, f x.w3 y.w3⟩

instance : Add Row := ⟨zip (· + ·)⟩

instance : XorOp Row := ⟨zip (· ^^^ ·)⟩

/-- The row with its first word put last. -/
def turn (x : Row) : Row := ⟨x.w1, x.w2, x.w3, x.w0⟩

/-- The words in order. -/
def words (x : Row) : List UInt32 := [x.w0, x.w1, x.w2, x.w3]

/-- The words in even positions of two rows. -/
def evens (x y : Row) : Row := ⟨x.w0, x.w2, y.w0, y.w2⟩

/-- The words in odd positions of two rows. -/
def odds (x y : Row) : Row := ⟨x.w1, x.w3, y.w1, y.w3⟩

end Row

/-- The eight words a compression starts from and hands on. -/
structure Words where
  low : Row
  high : Row

/-- Sixteen words: the state of a compression, or a message block. -/
structure Square where
  a : Row
  b : Row
  c : Row
  d : Row

/-- The initial chaining value of an unkeyed hash. -/
def initial : Words :=
  ⟨⟨0x6A09E667, 0xBB67AE85, 0x3C6EF372, 0xA54FF53A⟩,
    ⟨0x510E527F, 0x9B05688C, 0x1F83D9AB, 0x5BE0CD19⟩⟩

/-! The domain flags of a compression say which part of the tree it belongs to. -/

namespace Flags

/-- The first block of a chunk. -/
def chunkStart : UInt32 := 1

/-- The last block of a chunk. -/
def chunkEnd : UInt32 := 2

/-- A node above two others. -/
def parent : UInt32 := 4

/-- The top of the tree. -/
def root : UInt32 := 8

/-- Hashing a context. -/
def deriveKeyContext : UInt32 := 32

/-- Hashing data under the key of a context. -/
def deriveKeyMaterial : UInt32 := 64

end Flags

/-- The message of the next round. -/
def permute (m : Square) : Square where
  a := ⟨m.a.w2, m.b.w2, m.a.w3, m.c.w2⟩
  b := ⟨m.b.w3, m.a.w0, m.b.w0, m.d.w1⟩
  c := ⟨m.a.w1, m.c.w3, m.d.w0, m.b.w1⟩
  d := ⟨m.c.w1, m.d.w2, m.d.w3, m.c.w0⟩

/-- Rotate a word to the right. -/
def rotr (n x : UInt32) : UInt32 := (x >>> n) ||| (x <<< (32 - n))

/-- Mix two message words into each of the four columns of a state. -/
def mix (s : Square) (x y : Row) : Square :=
  let a := s.a + s.b + x
  let d := (s.d ^^^ a).map (rotr 16)
  let c := s.c + d
  let b := (s.b ^^^ c).map (rotr 12)
  let a := a + b + y
  let d := (d ^^^ a).map (rotr 8)
  let c := c + d
  let b := (b ^^^ c).map (rotr 7)
  ⟨a, b, c, d⟩

/-- One round: the columns are mixed with the first half of the message and the diagonals, turned
into columns and back, with the second half. -/
def round (m s : Square) : Square :=
  let s := mix s (m.a.evens m.b) (m.a.odds m.b)
  let s := mix ⟨s.a, s.b.turn, s.c.turn.turn, s.d.turn.turn.turn⟩ (m.c.evens m.d) (m.c.odds m.d)
  ⟨s.a, s.b.turn.turn.turn, s.c.turn.turn, s.d.turn⟩

/-- `n` rounds, the message permuted between them. -/
def rounds : Nat → Square → Square → Square
  | 0, _, s => s
  | n + 1, m, s => rounds n (permute m) (round m s)

/-- One compression; the result is the next chaining value. -/
def compress (chaining : Words) (block : Square) (counter : UInt64) (length flags : UInt32) :
    Words :=
  let s := rounds 7 block ⟨chaining.low, chaining.high, initial.low,
    ⟨counter.toUInt32, (counter >>> 32).toUInt32, length, flags⟩⟩
  ⟨s.a ^^^ s.c, s.b ^^^ s.d⟩

/-- The word of the first four bytes, low byte first, filled up with zeros. -/
def word (bytes : List UInt8) : UInt32 :=
  (bytes.take 4).foldr (fun b w => (w <<< 8) ||| b.toUInt32) 0

/-- The words of the first 16 bytes. -/
def row (bytes : List UInt8) : Row :=
  ⟨word bytes, word (bytes.drop 4), word (bytes.drop 8), word (bytes.drop 12)⟩

/-- The words of a block of at most 64 bytes. -/
def blockWords (bytes : List UInt8) : Square :=
  ⟨row bytes, row (bytes.drop 16), row (bytes.drop 32), row (bytes.drop 48)⟩

/-- Cut a list into pieces of `size`, the last one perhaps shorter; the empty list is one empty
piece. -/
def pieces (size : Nat) (bytes : List UInt8) : List (List UInt8) :=
  let rec go : Nat → List UInt8 → List (List UInt8)
    | 0, rest => [rest]
    | n + 1, rest =>
      if rest.length ≤ size then [rest] else rest.take size :: go n (rest.drop size)
  go (bytes.length / size) bytes

/-- A compression that is still to be made, so that the last one can be marked as the root. -/
structure Output where
  chaining : Words
  block : Square
  counter : UInt64
  length : UInt32
  flags : UInt32

namespace Output

/-- The chaining value of an inner node. -/
def value (o : Output) : Words := compress o.chaining o.block o.counter o.length o.flags

/-- The digest words when the node is the root. -/
def rootValue (o : Output) : Words :=
  compress o.chaining o.block 0 o.length (o.flags ||| Flags.root)

end Output

/-- The blocks of a chunk in order: all but the last are compressed, the last is handed out. -/
def chunkBlocks (flags : UInt32) (counter : UInt64) :
    Words → UInt32 → List (List UInt8) → Output
  | chaining, start, [] => ⟨chaining, blockWords [], counter, 0, flags ||| start ||| Flags.chunkEnd⟩
  | chaining, start, [last] =>
    ⟨chaining, blockWords last, counter, UInt32.ofNat last.length,
      flags ||| start ||| Flags.chunkEnd⟩
  | chaining, start, block :: rest =>
    chunkBlocks flags counter
      (compress chaining (blockWords block) counter 64 (flags ||| start)) 0 rest

/-- The output of one chunk. -/
def chunkOutput (key : Words) (flags : UInt32) (counter : Nat) (bytes : List UInt8) : Output :=
  chunkBlocks flags (UInt64.ofNat counter) key Flags.chunkStart (pieces 64 bytes)

/-- The output of the node above two others. -/
def parentOutput (key : Words) (flags : UInt32) (left right : Words) : Output :=
  ⟨key, ⟨left.low, left.high, right.low, right.high⟩, 0, 64, flags ||| Flags.parent⟩

/-- The greatest power of two below `n`, for `n` at least 2. -/
def leftSize (n : Nat) : Nat := Nat.pow 2 (n - 1).log2

/-- The output of the tree over the chunks from number `counter` on. Every level halves the number
of chunks at least roughly, so their number bounds the depth. -/
def treeOutput (key : Words) (flags : UInt32) : Nat → Nat → List (List UInt8) → Output
  | _, counter, [] => chunkOutput key flags counter []
  | _, counter, [chunk] => chunkOutput key flags counter chunk
  | 0, counter, chunk :: _ => chunkOutput key flags counter chunk
  | depth + 1, counter, chunks =>
    let n := leftSize chunks.length
    parentOutput key flags
      (treeOutput key flags depth counter (chunks.take n)).value
      (treeOutput key flags depth (counter + n) (chunks.drop n)).value

/-- The digest words of a byte string. -/
def digestWords (key : Words) (flags : UInt32) (bytes : List UInt8) : Words :=
  let chunks := pieces 1024 bytes
  (treeOutput key flags chunks.length 0 chunks).rootValue

/-- The bytes of words, low byte first. -/
def wordBytes (ws : Words) : List UInt8 :=
  (ws.low.words ++ ws.high.words).flatMap fun (w : UInt32) =>
    [w.toUInt8, (w >>> 8).toUInt8, (w >>> 16).toUInt8, (w >>> 24).toUInt8]

/-- The 32 bytes of the digest of `data` under a key derived from `context`. -/
def deriveKey (context data : List UInt8) : List UInt8 :=
  let key := digestWords initial Flags.deriveKeyContext context
  wordBytes (digestWords key Flags.deriveKeyMaterial data)

end Concord.Blake3
