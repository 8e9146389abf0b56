/-!
# BLAKE3

The 256-bit BLAKE3 hash of a byte string.

* `compress`: seven rounds of mixing on sixteen words.
* `Node`: a compression that is not done yet; at the root of the tree it gets one more flag.
* `chunkNode`: up to 1024 bytes, in blocks of 64.
* `treeNode`: neighbours are paired level by level until one node is left.
* `hexDigest`: the hash as 64 hexadecimal digits.
-/

namespace CodeAtlas.Hash.Blake3

/-- The initial chaining value. -/
def iv : Array UInt32 :=
  #[0x6A09E667, 0xBB67AE85, 0x3C6EF372, 0xA54FF53A, 0x510E527F, 0x9B05688C, 0x1F83D9AB, 0x5BE0CD19]

/-- How the message words move from one round to the next. -/
def permutation : List Nat := [2, 6, 3, 10, 7, 0, 4, 13, 1, 11, 12, 5, 9, 14, 15, 8]

/-- A word rotated to the right. -/
def rotateRight (x : UInt32) (n : UInt32) : UInt32 := (x >>> n) ||| (x <<< (32 - n))

/-- The word at an index; there is a zero behind the end. -/
def word (v : Array UInt32) (i : Nat) : UInt32 := v.getD i 0

/-- Mixes two message words into four state words. -/
def mix (v : Array UInt32) (a b c d : Nat) (x y : UInt32) : Array UInt32 :=
  let va := word v a + word v b + x
  let vd := rotateRight (word v d ^^^ va) 16
  let vc := word v c + vd
  let vb := rotateRight (word v b ^^^ vc) 12
  let va := va + vb + y
  let vd := rotateRight (vd ^^^ va) 8
  let vc := vc + vd
  let vb := rotateRight (vb ^^^ vc) 7
  (((v.setIfInBounds a va).setIfInBounds b vb).setIfInBounds c vc).setIfInBounds d vd

/-- One round: the columns of the state, then its diagonals. -/
def round (v m : Array UInt32) : Array UInt32 :=
  let v := mix v 0 4 8 12 (word m 0) (word m 1)
  let v := mix v 1 5 9 13 (word m 2) (word m 3)
  let v := mix v 2 6 10 14 (word m 4) (word m 5)
  let v := mix v 3 7 11 15 (word m 6) (word m 7)
  let v := mix v 0 5 10 15 (word m 8) (word m 9)
  let v := mix v 1 6 11 12 (word m 10) (word m 11)
  let v := mix v 2 7 8 13 (word m 12) (word m 13)
  mix v 3 4 9 14 (word m 14) (word m 15)

/-- `n` rounds, the message words being moved between them. -/
def rounds : Nat → Array UInt32 → Array UInt32 → Array UInt32
  | 0, v, _ => v
  | n + 1, v, m => rounds n (round v m) (permutation.map (word m)).toArray

/-- A compression that is not done yet. -/
structure Node where
  chain : Array UInt32
  block : Array UInt32
  counter : Nat
  length : Nat
  flags : UInt32

/-- Flags of a compression: first and last block of a chunk, inner node, and root. -/
def chunkStart : UInt32 := 1
@[inherit_doc chunkStart] def chunkEnd : UInt32 := 2
@[inherit_doc chunkStart] def parent : UInt32 := 4
@[inherit_doc chunkStart] def root : UInt32 := 8

/-- The chaining value of a node. -/
def compress (n : Node) : Array UInt32 :=
  let v := n.chain ++ #[word iv 0, word iv 1, word iv 2, word iv 3,
    UInt32.ofNat (n.counter % 0x100000000), UInt32.ofNat (n.counter / 0x100000000),
    UInt32.ofNat n.length, n.flags]
  let v := rounds 7 v n.block
  ((List.range 8).map fun i => word v i ^^^ word v (i + 8)).toArray

/-- The word that the four bytes at an offset write, the lowest first; bytes behind `stop` are zero. -/
def wordAt (bytes : ByteArray) (stop i : Nat) : UInt32 :=
  let byte (j : Nat) : UInt32 := if j < stop then (bytes.data.getD j 0).toUInt32 else 0
  byte i ||| (byte (i + 1) <<< 8) ||| (byte (i + 2) <<< 16) ||| (byte (i + 3) <<< 24)

/-- The sixteen words of the block at an offset. -/
def blockAt (bytes : ByteArray) (stop start : Nat) : Array UInt32 :=
  ((List.range 16).map fun i => wordAt bytes stop (start + 4 * i)).toArray

/-- The blocks of a chunk from `start` to `stop`; the last one is left as a node. -/
def blocks (bytes : ByteArray) (counter stop : Nat) : Nat → Array UInt32 → Nat → UInt32 → Node
  | 0, chain, start, first =>
    ⟨chain, blockAt bytes stop start, counter, stop - start, first ||| chunkEnd⟩
  | n + 1, chain, start, first =>
    if start + 64 < stop then
      let chain := compress ⟨chain, blockAt bytes stop start, counter, 64, first⟩
      blocks bytes counter stop n chain (start + 64) 0
    else ⟨chain, blockAt bytes stop start, counter, stop - start, first ||| chunkEnd⟩

/-- The chunk with the given number. -/
def chunkNode (bytes : ByteArray) (counter : Nat) : Node :=
  let start := 1024 * counter
  blocks bytes counter (min (start + 1024) bytes.size) 16 iv start chunkStart

/-- The node above two nodes. -/
def parentNode (a b : Node) : Node := ⟨iv, compress a ++ compress b, 0, 64, parent⟩

/-- Pairs neighbours; the last of an odd number goes up as it is. -/
def pairUp : List Node → List Node
  | a :: b :: rest => parentNode a b :: pairUp rest
  | rest => rest

/-- Pairs level by level until one node is left. -/
def treeNode : Nat → List Node → Option Node
  | _, [] => none
  | _, [a] => some a
  | 0, a :: _ => some a
  | n + 1, nodes => treeNode n (pairUp nodes)

/-- The hash of a byte string as eight words. -/
def hash (bytes : ByteArray) : Array UInt32 :=
  let chunks := max 1 ((bytes.size + 1023) / 1024)
  match treeNode chunks ((List.range chunks).map (chunkNode bytes)) with
  | some n => compress { n with flags := n.flags ||| root }
  | none => #[]

/-- A byte as two hexadecimal digits. -/
def hexByte (b : UInt32) : List Char :=
  let digit (n : Nat) : Char := if n < 10 then Char.ofNat (48 + n) else Char.ofNat (87 + n)
  [digit (b.toNat / 16), digit (b.toNat % 16)]

/-- A word as eight hexadecimal digits, the lowest byte first. -/
def hexWord (w : UInt32) : List Char :=
  [w &&& 0xFF, (w >>> 8) &&& 0xFF, (w >>> 16) &&& 0xFF, w >>> 24].flatMap hexByte

/-- The hash of a byte string as 64 hexadecimal digits. -/
def hexDigest (bytes : ByteArray) : String := .ofList ((hash bytes).toList.flatMap hexWord)

end CodeAtlas.Hash.Blake3
