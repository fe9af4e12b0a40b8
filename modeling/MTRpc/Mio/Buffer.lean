import MTRpc.Lib.PieceRing

/-!
# The piecewise ring buffers of `mio/mio_buffer`

An `IOBuffer` owns `MAX_BUFFER_PIECES` blocks of `DEFAULT_BUFFER_SIZE` bytes and two
iterators into them.  Each piece has a current size, which the header serialiser lowers
when it leaves the rest of a piece unused.  `ReadBuffer` and `WriteBuffer` add the
zero-copy stream interfaces of protobuf.

The array `que` of pieces is modelled as a function of the index, of which only the values
below `MAX_BUFFER_PIECES` are used; an iterator is a position of the ring, and the pieces
it refers to (`_que` in the source) are passed along.  Differences of iterators and the
sizes that the stream interfaces report are C `int`s and appear as integers; lengths that
go into an `iovec` are `size_t` and wrap modulo `2 ^ 64`.
-/

namespace MTRpc

open PieceRing (Pos between)

/-- Byte strings: the contents of buffers, headers and messages. -/
abbrev Bytes := List UInt8

/-- `DEFAULT_BUFFER_SIZE` -/
def defaultBufferSize : ℕ := 1024 * 512

/-- `MAX_BUFFER_PIECES` -/
def maxBufferPieces : ℕ := 16

lemma maxBufferPieces_pos : 0 < maxBufferPieces := by decide

/-- One block of memory, with the size currently used of it. -/
structure BufferPieces where
  /-- The bytes of the block. -/
  buffer : ℕ → UInt8
  /-- The buffer current used max size. -/
  size : ℕ

/-- `IOBuffer::Iterator`: a piece and an offset in it. -/
abbrev Iterator := Pos

/-- The pieces of a buffer. -/
abbrev Que := ℕ → BufferPieces

namespace Que

/-- The byte at a position. -/
def load (que : Que) (it : Iterator) : UInt8 := (que it.idx).buffer it.pos

/-- Write one byte. -/
def store (que : Que) (it : Iterator) (c : UInt8) : Que :=
  Function.update que it.idx
    { que it.idx with buffer := Function.update (que it.idx).buffer it.pos c }

/-- Write bytes at the given positions, in order, until one of the two runs out. -/
def storeAll (que : Que) : List Iterator → Bytes → Que
  | it :: its, c :: cs => storeAll (que.store it c) its cs
  | _, _ => que

/-- Set the current size of a piece. -/
def setSize (que : Que) (i n : ℕ) : Que := Function.update que i { que i with size := n }

end Que

/-- The pieces that `for (tidx = MOD_PIECES(start_idx+1); tidx != end_idx;
tidx = MOD_PIECES(tidx+1))` visits.  The source has this loop in the difference of
iterators, in both gathering functions and in `Reset`. -/
def tidxLoop (start_idx end_idx : ℕ) : List ℕ :=
  between maxBufferPieces end_idx maxBufferPieces ((start_idx + 1) % maxBufferPieces)

namespace Iterator

variable (que : Que)

/-- `operator -` -/
def sub (a it : Iterator) : ℤ :=
  if a.idx = it.idx ∧ it.pos ≤ a.pos then (a.pos : ℤ) - it.pos
  else ((que it.idx).size - it.pos : ℤ)
    + ((tidxLoop it.idx a.idx).map fun idx => (que idx).size).sum + a.pos

/-- The loop of `operator +=` and of `ReadBuffer::Skip`: carry an offset that exceeds its
piece over to the following pieces. -/
def carry : ℕ → Iterator → Iterator
  | 0, it => it
  | fuel + 1, it =>
      if (que it.idx).size ≤ it.pos then
        carry fuel ⟨(it.idx + 1) % maxBufferPieces, it.pos - (que it.idx).size⟩
      else it

/-- `operator +=` -/
def add (it : Iterator) (size : ℕ) : Iterator :=
  carry que ((it.pos + size + 1) * maxBufferPieces) ⟨it.idx, it.pos + size⟩

/-- The loop of `operator -=`: the offset has become negative, and each round adds the
size of the piece that is left and moves to the one before. -/
def borrow : ℕ → ℕ → ℤ → Iterator
  | 0, idx, pos => ⟨idx, pos.toNat⟩
  | fuel + 1, idx, pos =>
      if pos < 0 then
        borrow fuel ((idx + (maxBufferPieces - 1)) % maxBufferPieces) (pos + (que idx).size)
      else ⟨idx, pos.toNat⟩

/-- `operator -=` -/
def subAssign (it : Iterator) (size : ℕ) : Iterator :=
  borrow que ((size + 1) * maxBufferPieces) it.idx ((it.pos : ℤ) - size)

/-- `operator ++` -/
def incr (it : Iterator) : Iterator :=
  if it.pos + 1 < (que it.idx).size then ⟨it.idx, it.pos + 1⟩
  else ⟨(it.idx + 1) % maxBufferPieces, 0⟩

end Iterator

/-- An entry of a scatter/gather array: `len` bytes from offset `pos` of piece `idx`. -/
structure Iovec where
  idx : ℕ
  pos : ℕ
  /-- `iov_len` -/
  len : ℕ
deriving DecidableEq, Repr

namespace Iovec

/-- The cells that an entry refers to. -/
def cells (v : Iovec) : List Iterator := PieceRing.cells v.idx v.pos v.len

end Iovec

/-- The difference of two `int`s stored in `iov_len`, a `size_t`. -/
def iovLen (size pos : ℕ) : ℕ := (size + 2 ^ 64 - pos) % 2 ^ 64

/-- The common part of the buffers. -/
structure IOBuffer where
  que : Que
  readpos : Iterator
  writepos : Iterator

namespace IOBuffer

/-- The constructor: all pieces have the default size and nothing is stored. -/
def init : IOBuffer where
  que := fun _ => ⟨fun _ => 0, defaultBufferSize⟩
  readpos := ⟨0, 0⟩
  writepos := ⟨0, 0⟩

variable (b : IOBuffer)

/-- `isFull`: the write position is just before the read position, in the same piece. -/
def isFull : Prop := b.writepos.idx = b.readpos.idx ∧ b.writepos.pos + 1 = b.readpos.pos

instance : Decidable b.isFull := inferInstanceAs (Decidable (_ ∧ _))

/-- `isEmpty` -/
def isEmpty : Prop := b.readpos = b.writepos

instance : Decidable b.isEmpty := inferInstanceAs (Decidable (_ = _))

/-- `AlignWritePos` moves the write position to the start of the next piece. -/
def alignWritePos : IOBuffer :=
  { b with writepos := ⟨(b.writepos.idx + 1) % maxBufferPieces, 0⟩ }

/-- `Reserve`: the returned flag and the buffer afterwards. -/
def reserve (size : ℕ) : Bool × IOBuffer :=
  if b.writepos.idx = b.readpos.idx ∧ b.writepos.pos < b.readpos.pos then (false, b)
  else if ((b.que b.writepos.idx).size + 2 ^ 32 - b.writepos.pos) % 2 ^ 32 < size then
    (true, { b with
      que := b.que.setSize b.writepos.idx b.writepos.pos
      writepos := ⟨(b.writepos.idx + 1) % maxBufferPieces, 0⟩ })
  else (true, b)

/-- `GetReciveBuffer`: the entries it stores in `iov`, in the order of their indices;
`none` when it returns `false`. -/
def getReciveBuffer : Option (List Iovec) :=
  let w := b.writepos
  let r := b.readpos
  if b.isFull then none
  else if r.idx = w.idx ∧ w.pos < r.pos then some [⟨w.idx, w.pos, iovLen r.pos w.pos⟩]
  else
    some (⟨w.idx, w.pos, iovLen (b.que w.idx).size w.pos⟩
      :: (tidxLoop w.idx r.idx).map (fun tidx => ⟨tidx, 0, (b.que tidx).size⟩)
      ++ if 0 < r.pos then [⟨r.idx, 0, r.pos⟩] else [])

/-- `MoveRecivePtr` -/
def moveRecivePtr (size : ℕ) : IOBuffer :=
  { b with writepos := Iterator.add b.que b.writepos size }

/-- `GetSendBuffer(iov, iov_num, end)` -/
def getSendBufferTo (stop : Iterator) : Option (List Iovec) :=
  let r := b.readpos
  if stop = r then none
  else if stop.idx = r.idx ∧ r.pos < stop.pos then
    some [⟨r.idx, r.pos, iovLen stop.pos r.pos⟩]
  else
    some (⟨r.idx, r.pos, iovLen (b.que r.idx).size r.pos⟩
      :: (tidxLoop r.idx stop.idx).map (fun tidx => ⟨tidx, 0, (b.que tidx).size⟩)
      ++ if 0 < stop.pos then [⟨stop.idx, 0, stop.pos⟩] else [])

/-- `GetSendBuffer(iov, iov_num)` -/
def getSendBuffer : Option (List Iovec) := b.getSendBufferTo b.writepos

/-- `MoveSendPtr` -/
def moveSendPtr (size : ℕ) : IOBuffer :=
  { b with readpos := Iterator.add b.que b.readpos size }

/-- `GetBufferLeft` -/
def getBufferLeft : ℤ :=
  if b.isEmpty then maxBufferPieces * defaultBufferSize
  else Iterator.sub b.que b.readpos b.writepos

/-- `GetBufferUsed`, a `uint32_t`. -/
def getBufferUsed : ℕ := (Iterator.sub b.que b.writepos b.readpos % 2 ^ 32).toNat

/-- `Reset` gives the pieces that are not in use their default size again. -/
def reset : IOBuffer :=
  if b.isFull then b
  else if b.readpos.idx = b.writepos.idx ∧ b.writepos.pos < b.readpos.pos then b
  else
    { b with
      que := (tidxLoop b.writepos.idx b.readpos.idx ++ [b.readpos.idx]).foldl
        (fun que tidx => que.setSize tidx defaultBufferSize) b.que }

/-- The kernel's part of `readv`: the received bytes are stored in the offered segments,
in order. -/
def readv (iov : List Iovec) (bs : Bytes) : IOBuffer :=
  { b with que := b.que.storeAll (iov.flatMap Iovec.cells) bs }

/-- What one successful round of the loop in `OnReadable` does to the buffer: `readv` into
the offered segments and `MoveRecivePtr` by the count. -/
def recive (bs : Bytes) : IOBuffer :=
  (b.readv (b.getReciveBuffer.getD []) bs).moveRecivePtr bs.length

end IOBuffer

/-- A block handed out by the zero-copy interfaces: `size` bytes from offset `pos` of piece
`idx`. -/
structure Block where
  idx : ℕ
  pos : ℕ
  size : ℤ
deriving DecidableEq, Repr

namespace Block

/-- The cells of a block. -/
def cells (d : Block) : List Iterator := PieceRing.cells d.idx d.pos d.size.toNat

end Block

/-- `ReadBuffer`, the input stream. -/
structure ReadBuffer extends IOBuffer where
  beginRead : Iterator

namespace ReadBuffer

/-- The constructor. -/
def init : ReadBuffer := { IOBuffer.init with beginRead := ⟨0, 0⟩ }

variable (b : ReadBuffer)

/-- `ReadBuffer::Next`: the block it hands out, or `none` when it returns `false`. -/
def next : Option (Block × ReadBuffer) :=
  if b.isEmpty then none
  else if b.readpos.idx = b.writepos.idx ∧ b.readpos.pos < b.writepos.pos then
    some (⟨b.readpos.idx, b.readpos.pos, (b.writepos.pos : ℤ) - b.readpos.pos⟩,
      { b with readpos := ⟨b.readpos.idx, b.writepos.pos⟩ })
  else
    some (⟨b.readpos.idx, b.readpos.pos, ((b.que b.readpos.idx).size : ℤ) - b.readpos.pos⟩,
      { b with readpos := ⟨(b.readpos.idx + 1) % maxBufferPieces, 0⟩ })

/-- `ReadBuffer::BackUp` -/
def backUp (count : ℕ) : ReadBuffer :=
  { b with readpos := Iterator.subAssign b.que b.readpos count }

/-- `ReadBuffer::Skip`, which always returns `true`. -/
def skip (count : ℕ) : ReadBuffer :=
  { b with readpos := Iterator.add b.que b.readpos count }

/-- `ReadBuffer::ByteCount` -/
def byteCount : ℤ := Iterator.sub b.que b.readpos b.beginRead

/-- `BeginPacket` -/
def beginPacket : ReadBuffer := { b with beginRead := b.readpos }

/-- `Reset` on the read buffer. -/
def reset : ReadBuffer := { b with toIOBuffer := b.toIOBuffer.reset }

/-- One round of `readv` into the read buffer. -/
def recive (bs : Bytes) : ReadBuffer := { b with toIOBuffer := b.toIOBuffer.recive bs }

/-- The header parser consumes one byte: `++begin` on the read position. -/
def advance : ReadBuffer := { b with readpos := Iterator.incr b.que b.readpos }

@[simp] lemma readpos_advance : b.advance.readpos = Iterator.incr b.que b.readpos := rfl

@[simp] lemma writepos_advance : b.advance.writepos = b.writepos := rfl

end ReadBuffer

/-- `WriteBuffer`, the output stream. -/
structure WriteBuffer extends IOBuffer where
  beginWrite : Iterator

namespace WriteBuffer

/-- The constructor. -/
def init : WriteBuffer := { IOBuffer.init with beginWrite := ⟨0, 0⟩ }

variable (b : WriteBuffer)

/-- `WriteBuffer::Next`: the block it hands out, or `none` when it returns `false`. -/
def next : Option (Block × WriteBuffer) :=
  if b.isFull then none
  else if b.readpos.idx = b.writepos.idx ∧ b.writepos.pos + 1 < b.readpos.pos then
    some (⟨b.writepos.idx, b.writepos.pos, (b.readpos.pos : ℤ) - 1 - b.writepos.pos⟩,
      { b with writepos := ⟨b.writepos.idx, b.readpos.pos - 1⟩ })
  else
    some (⟨b.writepos.idx, b.writepos.pos,
        ((b.que b.writepos.idx).size : ℤ) - b.writepos.pos⟩,
      { b with writepos := ⟨(b.writepos.idx + 1) % maxBufferPieces, 0⟩ })

/-- `WriteBuffer::BackUp` -/
def backUp (count : ℕ) : WriteBuffer :=
  { b with writepos := Iterator.subAssign b.que b.writepos count }

/-- `WriteBuffer::ByteCount` -/
def byteCount : ℤ := Iterator.sub b.que b.writepos b.beginWrite

/-- `BeginPacket`, which records the read position. -/
def beginPacket : WriteBuffer := { b with beginWrite := b.readpos }

/-- `Reset` on the write buffer. -/
def reset : WriteBuffer := { b with toIOBuffer := b.toIOBuffer.reset }

/-- `Reserve` on the write buffer. -/
def reserve (size : ℕ) : Bool × WriteBuffer :=
  ((b.toIOBuffer.reserve size).1, { b with toIOBuffer := (b.toIOBuffer.reserve size).2 })

/-- `AlignWritePos` on the write buffer. -/
def alignWritePos : WriteBuffer := { b with toIOBuffer := b.toIOBuffer.alignWritePos }

/-- `MoveSendPtr` on the write buffer. -/
def moveSendPtr (size : ℕ) : WriteBuffer :=
  { b with toIOBuffer := b.toIOBuffer.moveSendPtr size }

end WriteBuffer

end MTRpc
