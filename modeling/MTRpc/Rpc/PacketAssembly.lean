import MTRpc.Mio.Reserve
import MTRpc.Mio.OutputStream
import MTRpc.Rpc.ChannelImpl
import MTRpc.Rpc.ServerConnect

/-!
# Assembling a packet

A request and a response go into the write buffer in the same way (`assemble`): behind a hole for
the header protobuf serialises the body from the start of the next piece on, and then the header,
with the length of the body, is printed into the hole and its piece is cut behind it.

From an empty buffer there are two layouts.  With `MAX_HEADER_SIZE` bytes left in its piece, the
hole is at the read position, and the body has the other fifteen pieces; otherwise that piece is
cut at the read position, the hole is the next one, and the body has the other fourteen.  Then the
body goes on in front of the read position.  `assemble_iff` says when the packet is what it should
be: the body may not meet a read position at the start of a piece, may not be backed up over the
piece that was cut, and the text of the header has to be shorter than the hole, which nobody
checks.  `sendToServer_assemble` and `sendResponse_assemble` say that the two callers do this.
-/

namespace MTRpc

open PieceRing (Shape cells)

namespace WriteBuffer

/-- protobuf serialises `m`: it fills the blocks that `Next` returns, one after the other, and gives
the unused tail of the last one back.  It fails when `Next` returns `false` before all is
written. -/
def Serializes (b : WriteBuffer) (m : Bytes) (r : Bool × WriteBuffer) : Prop :=
  (∃ k count : ℕ, ((b.nexts k).1.map Block.size).sum = (m.length : ℤ) + count ∧
    (count = 0 ∨ ∃ d, (b.nexts k).1.getLast? = some d ∧ count ≤ d.size) ∧
    r = (true, (b.filled k m).backUp count)) ∨
  r.1 = false ∧ ∃ k, (b.nexts k).2.next = none ∧ ((b.nexts k).1.map Block.size).sum < m.length

end WriteBuffer

/-- What is known of a packet when it is assembled. -/
structure OutPacket where
  buf : WriteBuffer
  /-- The headers that are printed. -/
  headers : Headers
  /-- What `SerializeHeader` returns; the callers do not look at it. -/
  ret : ℤ
  /-- `_req_pack_size` or `_res_pack_size` -/
  size : UInt32

namespace WriteBuffer

/-- The second half of `SendToServer` and of `SendMessage`: `Content-Length` is set, the header is
printed in front of the serialised body, and the size of the packet is stored. -/
def putHeader (b : WriteBuffer) (first : Bytes) (headers : Headers)
    (packetStart bodyStart : Iterator) : OutPacket :=
  let contentLength := (Iterator.sub b.que b.writepos bodyStart % 2 ^ 32).toNat
  let headers := headers.insert HttpHeader.contentLengthKey (decimal (contentLength % 2 ^ 32))
  let que := (serializeHeader first headers b.que packetStart).2
  { buf := { b with que := que }
    headers := headers
    ret := (serializeHeader first headers b.que packetStart).1
    size := UInt32.ofInt (Iterator.sub que b.writepos packetStart) }

/-- The buffer when the hole is found, and when protobuf gets it. -/
def holeBuffer (b : WriteBuffer) : WriteBuffer := (b.reset.reserve maxHeaderSize).2

def bodyBuffer (b : WriteBuffer) : WriteBuffer := b.holeBuffer.alignWritePos.beginPacket

/-- `Reset`, `Reserve`, `AlignWritePos`, the body and the header; `none` is one of the two error
exits. -/
def assemble (b : WriteBuffer) (first : Bytes) (headers : Headers)
    (serialize : WriteBuffer → Bool × WriteBuffer) : Option OutPacket :=
  if (b.reset.reserve maxHeaderSize).1 = false then none
  else if (serialize b.bodyBuffer).1 = false then none
  else some ((serialize b.bodyBuffer).2.putHeader first headers b.holeBuffer.writepos
    b.bodyBuffer.writepos)

end WriteBuffer

/-- The packet is the text of its header and the message, and both lengths are right. -/
structure OutPacket.Assembled (first m : Bytes) (p : OutPacket) : Prop where
  content : p.buf.gathered p.buf.writepos = headerText first p.headers ++ m
  contentLength : p.headers[HttpHeader.contentLengthKey]? = some (decimal m.length)
  size : p.size.toNat = (headerText first p.headers).length + m.length

namespace OutPacket

/-- The length of the text with this `Content-Length`. -/
def textLength (first : Bytes) (headers : Headers) (n : ℕ) : ℕ :=
  (headerText first (headers.insert HttpHeader.contentLengthKey (decimal n))).length

/-- The size of the hole, for an empty buffer with its positions at the offset `pos`. -/
def room (pos : ℕ) : ℕ :=
  if pos + maxHeaderSize ≤ defaultBufferSize then defaultBufferSize - pos else defaultBufferSize

/-- The pieces that protobuf gets before it comes to the read position. -/
def bodyPieces (pos : ℕ) : ℕ := if pos + maxHeaderSize ≤ defaultBufferSize then 15 else 14

/-- The body of `n` bytes meets the read position. -/
def Meets (pos n : ℕ) : Prop := pos = 0 ∧ 15 * defaultBufferSize ≤ n

/-- Its end is backed up over a piece that was cut. -/
def BacksOver (pos n : ℕ) : Prop :=
  defaultBufferSize < pos + maxHeaderSize ∧ 13 * defaultBufferSize ≤ n ∧
    n < 14 * defaultBufferSize

/-- Every packet is right that takes no error exit of the callers: there are none, or the text is
shorter than the hole and the body is at none of the two places. -/
def Safe (pos : ℕ) (len : ℕ → ℕ) (n : ℕ) : Prop :=
  0 < pos ∧ bodyPieces pos * defaultBufferSize + pos ≤ n ∨
    len n < room pos ∧ ¬ Meets pos n ∧ ¬ BacksOver pos n

/-- When `-1` from `SerializeHeader` is an error exit too, the body may be there with a header that
does not fit, which has the wrong length in it then. -/
def SafeChecked (pos : ℕ) (len : ℕ → ℕ) (n : ℕ) : Prop :=
  (Meets pos n → room pos ≤ len (n % (16 * defaultBufferSize))) ∧
    (BacksOver pos n → room pos ≤ len (n - (defaultBufferSize - pos)))

end OutPacket

/-! ## Rows of pieces -/

/-- The cell `n` cells behind the start of the piece `s`, when all pieces have the default size. -/
def row (s n : ℕ) : Iterator :=
  ⟨(s + n / defaultBufferSize) % maxBufferPieces, n % defaultBufferSize⟩

/-- The pieces that the loop visits from the piece behind `h` on, for the end in a row. -/
lemma tidxLoop_row {h c : ℕ} (hc : c < maxBufferPieces) :
    tidxLoop h (((h + 1) % maxBufferPieces + c) % maxBufferPieces)
      = (List.range c).map fun x => ((h + 1) % maxBufferPieces + x) % maxBufferPieces :=
  Shape.between_eq_map (Nat.mod_lt _ (by decide)) hc hc.le

section

variable {que : Que} {h s n : ℕ}

/-- Whole pieces and the beginning of one more are the walk over a row. -/
lemma cells_row (hs : s < maxBufferPieces)
    (hsize : ∀ x < n / defaultBufferSize,
      (que ((s + x) % maxBufferPieces)).size = defaultBufferSize) :
    ((List.range (n / defaultBufferSize)).map
        (fun x => (⟨(s + x) % maxBufferPieces, 0,
          (que ((s + x) % maxBufferPieces)).size⟩ : Iovec))).flatMap Iovec.cells
      ++ (if 0 < (row s n).pos then [(⟨(row s n).idx, 0, (row s n).pos⟩ : Iovec)] else []).flatMap
        Iovec.cells = pieces.walk ⟨s, 0⟩ n := by
  have hpos : 0 < defaultBufferSize := by decide
  have hwalk := Shape.walk_equal (S := pieces) (d := defaultBufferSize) (fun _ _ => rfl) hs
    (n / defaultBufferSize) (Nat.mod_lt n hpos).le
  rw [Nat.div_add_mod'] at hwalk
  rw [hwalk, List.flatMap_map]
  refine congrArg₂ (· ++ ·) ?_ ?_
  · refine List.flatMap_congr fun x hx => ?_
    rw [Iovec.cells, hsize x (List.mem_range.mp hx)]
    rfl
  · split
    · rw [List.flatMap_singleton]
      rfl
    · next h0 =>
      have hmod : n % defaultBufferSize = 0 := Nat.eq_zero_of_not_pos h0
      rw [hmod]
      rfl

/-- The difference of a cell in a row and a position in the piece in front of the row. -/
lemma sub_row {q : ℕ} (hc : n / defaultBufferSize < maxBufferPieces)
    (hsize : ∀ x < n / defaultBufferSize,
      (que (((h + 1) % maxBufferPieces + x) % maxBufferPieces)).size = defaultBufferSize)
    (hne : ¬ ((row ((h + 1) % maxBufferPieces) n).idx = h ∧
      q ≤ (row ((h + 1) % maxBufferPieces) n).pos)) :
    Iterator.sub que (row ((h + 1) % maxBufferPieces) n) ⟨h, q⟩
      = ((que h).size - q : ℤ) + n := by
  have hsum : ((List.range (n / defaultBufferSize)).map
      ((fun idx => (que idx).size) ∘
        fun x => ((h + 1) % maxBufferPieces + x) % maxBufferPieces)).sum
      = n / defaultBufferSize * defaultBufferSize := by
    have hconst : (List.range (n / defaultBufferSize)).map ((fun idx => (que idx).size) ∘
        fun x => ((h + 1) % maxBufferPieces + x) % maxBufferPieces)
        = (List.range (n / defaultBufferSize)).map fun _ => defaultBufferSize :=
      List.map_congr_left fun x hx => hsize x (List.mem_range.mp hx)
    rw [hconst, List.map_const', List.sum_replicate_nat, List.length_range]
  rw [Iterator.sub, if_neg hne]
  simp only [row, tidxLoop_row hc, List.map_map, hsum]
  have := Nat.div_add_mod' n defaultBufferSize
  omega

/-- The difference to the start of the row. -/
lemma sub_row_start (hs : s < maxBufferPieces) (hc : n / defaultBufferSize < maxBufferPieces)
    (hsize : ∀ x < n / defaultBufferSize,
      (que ((s + x) % maxBufferPieces)).size = defaultBufferSize) :
    Iterator.sub que (row s n) ⟨s, 0⟩ = n := by
  have hn : maxBufferPieces = 16 := rfl
  have hd : defaultBufferSize = 524288 := rfl
  by_cases hin : n < defaultBufferSize
  · have hrow : row s n = ⟨s, n⟩ := by
      rw [row, Nat.div_eq_of_lt hin, Nat.mod_eq_of_lt hin, Nat.add_zero, Nat.mod_eq_of_lt hs]
    rw [hrow, Iterator.sub, if_pos ⟨rfl, Nat.zero_le _⟩]
    simp
  · -- the row from the next piece on
    have hrow : row s n = row ((s + 1) % maxBufferPieces) (n - defaultBufferSize) := by
      rw [row, row, PieceRing.Pos.mk.injEq, hn, hd]
      rw [hd] at hin
      omega
    have hfirst := hsize 0 (by rw [hd] at hin ⊢; omega)
    rw [Nat.add_zero, Nat.mod_eq_of_lt hs] at hfirst
    have hsub := @sub_row que s (n - defaultBufferSize) 0 (by rw [hd] at hc ⊢; omega)
      (fun x hx => by
        have := hsize (x + 1) (by rw [hd] at hx ⊢; rw [hd] at hin; omega)
        rwa [Nat.mod_add_mod, Nat.add_assoc, Nat.add_comm 1 x])
      (by rw [row, hn, hd]; rw [hn] at hs; rw [hd, hn] at hc; rw [hd] at hin; simp only; omega)
    rw [hrow, hsub, hfirst]
    omega

end

/-! ## The blocks of the body -/

namespace WriteBuffer

/-- The buffer that protobuf gets: the write position is at the start of the piece `s`, and there
are `t` pieces of the default size from there to the piece of the read position.  That one has the
default size or ends at the read position. -/
structure Aligned (b : WriteBuffer) (s t : ℕ) : Prop where
  write : b.writepos = ⟨s, 0⟩
  start_lt : s < maxBufferPieces
  last : (s + t) % maxBufferPieces = b.readpos.idx
  two_le : 2 ≤ t
  lt : t < maxBufferPieces
  pos_lt : b.readpos.pos < defaultBufferSize
  size : ∀ x < t, (b.que ((s + x) % maxBufferPieces)).size = defaultBufferSize
  size_read : (b.que b.readpos.idx).size = defaultBufferSize ∨
    (b.que b.readpos.idx).size = b.readpos.pos
  turn : b.readpos.pos = 0 → t + 1 = maxBufferPieces ∧
    (b.que b.readpos.idx).size = defaultBufferSize

section

variable {b : WriteBuffer} {s t k count : ℕ} (ha : b.Aligned s t)

include ha

/-- The pieces in front of the read position have the default size, and all when it is at the start
of its piece. -/
lemma Aligned.size_row {x : ℕ} (hx : x < t ∨ b.readpos.pos = 0) :
    (b.que ((s + x) % maxBufferPieces)).size = defaultBufferSize := by
  rcases hx with hx | hpos
  · exact ha.size x hx
  obtain ⟨hturn, hsize⟩ := ha.turn hpos
  have hmod : (s + x) % maxBufferPieces = (s + x % maxBufferPieces) % maxBufferPieces :=
    (Nat.add_mod_mod _ _ _).symm
  have hlt : x % maxBufferPieces < maxBufferPieces := Nat.mod_lt _ (by decide)
  rw [hmod]
  by_cases hin : x % maxBufferPieces < t
  · exact ha.size _ hin
  · rw [show x % maxBufferPieces = t by omega, ha.last]
    exact hsize

/-- As long as the piece of the read position is not reached, every `Next` hands out a whole piece,
and for ever when the read position is at the start of its piece. -/
lemma nexts_row (hk : k ≤ t ∨ b.readpos.pos = 0) :
    b.nexts k = ((List.range k).map fun x => ⟨(s + x) % maxBufferPieces, 0, defaultBufferSize⟩,
      { b with writepos := ⟨(s + k) % maxBufferPieces, 0⟩ }) := by
  have hn : maxBufferPieces = 16 := rfl
  induction k with
  | zero =>
    have hstart : b.writepos = ⟨(s + 0) % maxBufferPieces, 0⟩ := by
      rw [ha.write, Nat.add_zero, Nat.mod_eq_of_lt ha.start_lt]
    rw [nexts, List.range_zero, List.map_nil, ← hstart]
  | succ k ih =>
    have hx : k < t ∨ b.readpos.pos = 0 := hk.imp_left Nat.lt_of_succ_le
    have hsize := ha.size_row hx
    -- the read position is not ahead in this piece
    have hout : (s + k) % maxBufferPieces = b.readpos.idx → b.readpos.pos = 0 := by
      intro heq
      refine hx.resolve_left fun hlt => ?_
      have hlast := ha.last
      have := ha.lt
      rw [hn] at *
      omega
    have hnext : ({ b with writepos := ⟨(s + k) % maxBufferPieces, 0⟩ } : WriteBuffer).next
        = some (⟨(s + k) % maxBufferPieces, 0, defaultBufferSize⟩,
          { b with writepos := ⟨(s + (k + 1)) % maxBufferPieces, 0⟩ }) := by
      rw [next, if_neg (fun hf => by have := hout hf.1; have := hf.2; simp only at this; omega),
        if_neg (fun hf => by have := hout hf.1.symm; have := hf.2; simp only at this; omega)]
      simp only [hsize, Nat.mod_add_mod, Nat.add_assoc, Int.natCast_zero, Int.sub_zero]
    rw [nexts, ih (hk.imp_left Nat.le_of_succ_le), hnext, List.range_succ, List.map_append]
    rfl

/-- The call after that hands out the bytes in front of the read position, up to the last. -/
lemma nexts_full (hpos : 0 < b.readpos.pos) (hk : t < k) :
    (b.nexts k).2 = { b with writepos := ⟨b.readpos.idx, b.readpos.pos - 1⟩ } ∧
      ((b.nexts k).1 = (b.nexts t).1 ∧ b.readpos.pos = 1 ∨
        (b.nexts k).1 = (b.nexts t).1 ++ [⟨b.readpos.idx, 0, (b.readpos.pos : ℤ) - 1⟩]) := by
  have hrow := nexts_row ha (Or.inl (le_refl t))
  rw [ha.last] at hrow
  have hbuf : (b.nexts t).2 = { b with writepos := ⟨b.readpos.idx, 0⟩ } := by rw [hrow]
  rcases Nat.lt_or_ge 1 b.readpos.pos with hgt | hle
  · have hnext : (b.nexts t).2.next = some (⟨b.readpos.idx, 0, (b.readpos.pos : ℤ) - 1⟩,
        { b with writepos := ⟨b.readpos.idx, b.readpos.pos - 1⟩ }) := by
      rw [hbuf, next, if_neg fun hf => by have := hf.2; simp only at this; omega,
        if_pos ⟨rfl, by simp only; omega⟩]
      simp only [Int.natCast_zero, Int.sub_zero]
    have hlast : b.nexts (t + 1)
        = ((b.nexts t).1 ++ [⟨b.readpos.idx, 0, (b.readpos.pos : ℤ) - 1⟩],
          { b with writepos := ⟨b.readpos.idx, b.readpos.pos - 1⟩ }) := by
      rw [nexts, hnext]
    have hfull : (b.nexts (t + 1)).2.isFull := by
      rw [hlast]
      exact ⟨rfl, by simp only; omega⟩
    rw [nexts_of_isFull hfull hk, hlast]
    exact ⟨rfl, Or.inr rfl⟩
  · have hone : b.readpos.pos = 1 := by omega
    have hfull : (b.nexts t).2.isFull := by
      rw [hbuf]
      exact ⟨rfl, by rw [hone]⟩
    rw [nexts_of_isFull hfull hk.le, hbuf, hone]
    exact ⟨rfl, Or.inl ⟨rfl, rfl⟩⟩

/-- The blocks of a row are the walk over it. -/
lemma blocks_row (hk : k ≤ t ∨ b.readpos.pos = 0) :
    ((b.nexts k).1.map Block.size).sum = (k * defaultBufferSize : ℕ) ∧
      (b.nexts k).1.flatMap Block.cells = pieces.walk ⟨s, 0⟩ (k * defaultBufferSize) := by
  have hwalk := Shape.walk_equal (S := pieces) (d := defaultBufferSize) (fun _ _ => rfl)
    ha.start_lt k (Nat.zero_le _)
  rw [Nat.add_zero, PieceRing.cells_zero, List.append_nil] at hwalk
  rw [nexts_row ha hk, hwalk, List.map_map, List.flatMap_map]
  refine ⟨?_, rfl⟩
  have hconst : (List.range k).map (Block.size ∘ fun x =>
      (⟨(s + x) % maxBufferPieces, 0, defaultBufferSize⟩ : Block))
      = List.replicate k (defaultBufferSize : ℤ) := by
    rw [← List.length_range (n := k), ← List.map_const', List.length_range]
    rfl
  rw [hconst, List.sum_replicate_int, Int.natCast_mul]

/-- With the bytes in front of the read position too. -/
lemma blocks_full (hpos : 0 < b.readpos.pos) (hk : t < k) :
    ((b.nexts k).1.map Block.size).sum = (t * defaultBufferSize + (b.readpos.pos - 1) : ℕ) ∧
      (b.nexts k).1.flatMap Block.cells
        = pieces.walk ⟨s, 0⟩ (t * defaultBufferSize + (b.readpos.pos - 1)) := by
  obtain ⟨hsum, hcells⟩ := blocks_row ha (Or.inl (le_refl t))
  have hwalk := Shape.walk_equal (S := pieces) (d := defaultBufferSize) (fun _ _ => rfl)
    ha.start_lt t (show b.readpos.pos - 1 ≤ defaultBufferSize by have := ha.pos_lt; omega)
  have hfront := Shape.walk_equal (S := pieces) (d := defaultBufferSize) (fun _ _ => rfl)
    ha.start_lt t (Nat.zero_le _)
  rw [Nat.add_zero, PieceRing.cells_zero, List.append_nil] at hfront
  rw [← hfront, ← hcells] at hwalk
  rw [hwalk]
  rcases (nexts_full ha hpos hk).2 with ⟨hsame, hone⟩ | hmore
  · rw [hsame, hone, hsum, Nat.sub_self, Nat.add_zero, PieceRing.cells_zero, List.append_nil]
    exact ⟨rfl, rfl⟩
  · rw [hmore, List.map_append, List.sum_append, hsum, List.flatMap_append]
    refine ⟨?_, ?_⟩
    · simp only [List.map_cons, List.map_nil, List.sum_cons, List.sum_nil]
      omega
    · rw [List.flatMap_singleton, Block.cells]
      simp only
      rw [show ((b.readpos.pos : ℤ) - 1).toNat = b.readpos.pos - 1 by omega, ← ha.last]
      rfl

/-! ## The end of the body -/

omit ha in
/-- Backing up from the start of a piece: the size of that piece counts, not of the one before. -/
lemma subAssign_row {que : Que} {n : ℕ} (hcount : 0 < count)
    (hle : count ≤ defaultBufferSize)
    (hown : (que ((s + k) % maxBufferPieces)).size ≤ defaultBufferSize)
    (hbefore : (que ((s + (k - 1)) % maxBufferPieces)).size = defaultBufferSize)
    (hk : 2 ≤ k ∨ 1 ≤ k ∧ (que ((s + k) % maxBufferPieces)).size = defaultBufferSize)
    (hland : n + count + defaultBufferSize
      = k * defaultBufferSize + (que ((s + k) % maxBufferPieces)).size) :
    Iterator.subAssign que ⟨(s + k) % maxBufferPieces, 0⟩ count = row s n := by
  have hn : maxBufferPieces = 16 := rfl
  have hd : defaultBufferSize = 524288 := rfl
  obtain ⟨fuel, hfuel⟩ : ∃ fuel, (count + 1) * maxBufferPieces = fuel + 3 :=
    ⟨(count + 1) * maxBufferPieces - 3, by rw [hn]; omega⟩
  have hprev : ((s + k) % maxBufferPieces + (maxBufferPieces - 1)) % maxBufferPieces
      = (s + (k - 1)) % maxBufferPieces := by
    rw [hn]
    omega
  have hprev' : ((s + (k - 1)) % maxBufferPieces + (maxBufferPieces - 1)) % maxBufferPieces
      = (s + (k + 14)) % maxBufferPieces := by
    rw [hn]
    omega
  rw [Iterator.subAssign, hfuel, Iterator.borrow, if_pos (by simp only; omega), hprev,
    Iterator.borrow, hprev', hbefore]
  generalize (que ((s + k) % maxBufferPieces)).size = e at hown hk hland ⊢
  rw [hd] at hle hown hk hland
  simp only [row, hn, hd]
  by_cases hneg : e < count
  · rw [if_pos (by omega), Iterator.borrow, if_neg (by omega), PieceRing.Pos.mk.injEq]
    omega
  · rw [if_neg (by omega), PieceRing.Pos.mk.injEq]
    omega

omit ha in
/-- What was written is read again. -/
lemma load_filled {m : Bytes} {u : ℕ} (hs : s < maxBufferPieces)
    (hcells : (b.nexts k).1.flatMap Block.cells = pieces.walk ⟨s, 0⟩ u) (hlen : m.length ≤ u)
    (hu : u ≤ maxBufferPieces * defaultBufferSize) :
    (pieces.walk ⟨s, 0⟩ m.length).map ((b.filled k m).backUp count).que.load = m := by
  have hload := @Que.map_load_storeAll b.que (pieces.walk ⟨s, 0⟩ u) m
    (Shape.nodup_walk (Shape.valid_start hs) (by rwa [cap_pieces]))
    (by rwa [Shape.length_walk])
  rw [Shape.take_walk, Nat.min_eq_left hlen] at hload
  have hque : ((b.filled k m).backUp count).que
      = b.que.storeAll (pieces.walk ⟨s, 0⟩ u) m := by rw [← hcells]; rfl
  rw [hque]
  exact hload

end

/-- protobuf has written `m` and left the write position `n` bytes behind the start of the piece
`s`. -/
structure Filled (b c : WriteBuffer) (s n : ℕ) (m : Bytes) : Prop where
  readpos : c.readpos = b.readpos
  writepos : c.writepos = row s n
  size : ∀ i, (c.que i).size = (b.que i).size
  load : 0 < b.readpos.pos ∨ m.length < 15 * defaultBufferSize →
    (pieces.walk ⟨s, 0⟩ m.length).map c.que.load = m

section

variable {b c : WriteBuffer} {s t k count n : ℕ} {m : Bytes} (ha : b.Aligned s t)

include ha

/-- The last block is the rest of a piece. -/
lemma filled_row (hk : k ≤ t ∨ b.readpos.pos = 0) (hcount : count ≤ defaultBufferSize)
    (hlen : m.length + count = k * defaultBufferSize)
    (hn : count = 0 ∧ n = m.length ∨ 0 < count ∧ 0 < k ∧
      n + defaultBufferSize = m.length + (b.que ((s + k) % maxBufferPieces)).size) :
    b.Filled ((b.filled k m).backUp count) s n m := by
  have hd : defaultBufferSize = 524288 := rfl
  have h16 : maxBufferPieces = 16 := rfl
  have hlt := ha.lt
  have hrow := nexts_row ha hk
  have hsize : ∀ i, ((b.filled k m).que i).size = (b.que i).size :=
    fun i => Que.size_storeAll _ _ _
  have hwrite : (b.filled k m).writepos = ⟨(s + k) % maxBufferPieces, 0⟩ := by
    rw [filled, hrow]
  refine ⟨by change (b.nexts k).2.readpos = _; rw [hrow], ?_, hsize, ?_⟩
  · change Iterator.subAssign (b.filled k m).que (b.filled k m).writepos count = _
    rw [subAssign_congr hsize, hwrite]
    rcases hn with ⟨rfl, rfl⟩ | ⟨hpos, hk0, hn⟩
    · rw [Nat.add_zero] at hlen
      rw [subAssign_of_le _ le_rfl, row, PieceRing.Pos.mk.injEq, hlen,
        Nat.mul_div_cancel _ (by decide), Nat.mul_mod_left]
      exact ⟨rfl, rfl⟩
    · -- only the piece of the read position has another size
      have hown : (b.que ((s + k) % maxBufferPieces)).size = defaultBufferSize ∨
          2 ≤ k ∧ (b.que ((s + k) % maxBufferPieces)).size ≤ defaultBufferSize := by
        by_cases hx : k < t ∨ b.readpos.pos = 0
        · exact Or.inl (ha.size_row hx)
        · obtain rfl : k = t := by omega
          rw [ha.last]
          have := ha.pos_lt
          have := ha.two_le
          rcases ha.size_read with h | h <;> omega
      exact subAssign_row hpos hcount (by omega)
        (ha.size_row (hk.imp_left fun h => by omega)) (by omega) (by omega)
  · intro hfit
    refine load_filled ha.start_lt (blocks_row ha hk).2 (by omega) ?_
    rcases hk with hk | hk
    · rw [h16] at hlt ⊢
      exact Nat.mul_le_mul_right _ (by omega)
    · rw [hd] at hlen hcount hfit ⊢
      omega

/-- The last block ends in front of the read position. -/
lemma filled_full (hpos : 0 < b.readpos.pos) (hk : t < k)
    (hlen : m.length + count = t * defaultBufferSize + (b.readpos.pos - 1))
    (hcount : count ≤ b.readpos.pos - 1) :
    b.Filled ((b.filled k m).backUp count) s m.length m := by
  have hd : defaultBufferSize = 524288 := rfl
  have h16 : maxBufferPieces = 16 := rfl
  have hlt := ha.lt
  have hpos_lt := ha.pos_lt
  obtain ⟨hbuf, -⟩ := nexts_full ha hpos hk
  have hsize : ∀ i, ((b.filled k m).que i).size = (b.que i).size :=
    fun i => Que.size_storeAll _ _ _
  have hwrite : (b.filled k m).writepos = ⟨b.readpos.idx, b.readpos.pos - 1⟩ := by
    rw [filled, hbuf]
  refine ⟨by change (b.nexts k).2.readpos = _; rw [hbuf], ?_, hsize, ?_⟩
  · change Iterator.subAssign (b.filled k m).que (b.filled k m).writepos count = _
    rw [hwrite, subAssign_of_le _ hcount, row, PieceRing.Pos.mk.injEq, ← ha.last]
    rw [hd] at hlen hpos_lt ⊢
    rw [h16]
    omega
  · intro _
    refine load_filled ha.start_lt (blocks_full ha hpos hk).2 (by omega) ?_
    rw [h16] at hlt ⊢
    rw [hd] at *
    omega

/-- The places at which `BackUp` can leave the write position: behind the message, or nearer by what
the piece of the read position is shorter than the others, when the last block is the piece in front
of it. -/
def Lands (b : WriteBuffer) (t n len : ℕ) : Prop :=
  n = len ∨ (t - 1) * defaultBufferSize ≤ len ∧ len < t * defaultBufferSize ∧
    n + defaultBufferSize = len + (b.que b.readpos.idx).size

/-- Whole pieces, with a tail of the last one. -/
lemma lands_row (hk : k ≤ t ∨ b.readpos.pos = 0)
    (hlen : m.length + count = k * defaultBufferSize)
    (htail : count = 0 ∨ ∃ d, (b.nexts k).1.getLast? = some d ∧ count ≤ d.size) :
    (b.readpos.pos = 0 ∨ m.length < t * defaultBufferSize + b.readpos.pos) ∧
      ∃ n, b.Filled ((b.filled k m).backUp count) s n m ∧ b.Lands t n m.length := by
  have hd : defaultBufferSize = 524288 := rfl
  constructor
  · by_cases hpos : b.readpos.pos = 0
    · exact Or.inl hpos
    · have := Nat.mul_le_mul_right defaultBufferSize (hk.resolve_right hpos)
      right
      omega
  rcases Nat.eq_zero_or_pos count with rfl | hcount
  · exact ⟨_, filled_row ha hk (Nat.zero_le _) hlen (Or.inl ⟨rfl, rfl⟩), Or.inl rfl⟩
  obtain ⟨d, hlast, hle⟩ := htail.resolve_left hcount.ne'
  have hsize : d.size = defaultBufferSize := by
    have hmem := List.mem_of_getLast? hlast
    rw [nexts_row ha hk] at hmem
    obtain ⟨x, -, rfl⟩ := List.mem_map.mp hmem
    rfl
  have hk0 : 0 < k := by
    refine Nat.pos_of_ne_zero fun h0 => ?_
    rw [h0] at hlen
    omega
  by_cases hx : k < t ∨ b.readpos.pos = 0
  · refine ⟨_, filled_row ha hk (by omega) hlen (Or.inr ⟨hcount, hk0, ?_⟩), Or.inl rfl⟩
    rw [ha.size_row hx]
  · -- the last piece in front of the read position
    obtain rfl : k = t := by omega
    have htwo := ha.two_le
    have hrange : (k - 1) * defaultBufferSize ≤ m.length ∧ m.length < k * defaultBufferSize ∧
        defaultBufferSize ≤ m.length := by
      rw [hd] at hlen hsize ⊢
      omega
    have hland : m.length + (b.que b.readpos.idx).size - defaultBufferSize + defaultBufferSize
        = m.length + (b.que b.readpos.idx).size := Nat.sub_add_cancel (by omega)
    refine ⟨_, filled_row ha hk (by omega) hlen (Or.inr ⟨hcount, hk0, ?_⟩),
      Or.inr ⟨hrange.1, hrange.2.1, hland⟩⟩
    rw [ha.last]
    exact hland

/-- What protobuf leaves. -/
theorem Serializes.lands (h : b.Serializes m (true, c)) :
    (b.readpos.pos = 0 ∨ m.length < t * defaultBufferSize + b.readpos.pos) ∧
      ∃ n, b.Filled c s n m ∧ b.Lands t n m.length := by
  obtain ⟨k, count, hsum, htail, hret⟩ := h.resolve_right fun hfail => absurd hfail.1 (by simp)
  obtain rfl : c = (b.filled k m).backUp count := congrArg Prod.snd hret
  by_cases hk : k ≤ t ∨ b.readpos.pos = 0
  · have hblocks := (blocks_row ha hk).1
    exact lands_row ha hk (by omega) htail
  have hpos : 0 < b.readpos.pos := by omega
  have hblocks := (blocks_full ha hpos (show t < k by omega)).1
  obtain ⟨hbuf, ⟨hsame, hone⟩ | hmore⟩ := nexts_full ha hpos (show t < k by omega)
  · -- the calls behind the last piece hand out nothing
    have hrow := nexts_row ha (Or.inl (le_refl t))
    have hcalls : b.nexts k = b.nexts t := by
      refine Prod.ext hsame ?_
      rw [hbuf, hrow, hone, ha.last]
    have hfilled : b.filled k m = b.filled t m := by rw [filled, filled, hcalls]
    rw [hcalls] at htail
    rw [hfilled]
    exact lands_row ha (Or.inl le_rfl) (by omega) htail
  · have hcount : count ≤ b.readpos.pos - 1 := by
      rcases htail with rfl | ⟨d, hlast, hle⟩
      · exact Nat.zero_le _
      · rw [hmore, List.getLast?_concat, Option.some.injEq] at hlast
        subst hlast
        simp only at hle
        omega
    exact ⟨Or.inr (by omega), _, filled_full ha hpos (show t < k by omega) (by omega) hcount,
      Or.inl rfl⟩

/-- A message that ends in a whole piece can be serialised so that a part of that is given back. -/
lemma exists_serializes_row (hin : m.length < t * defaultBufferSize ∨ b.readpos.pos = 0) :
    ∃ c n, b.Serializes m (true, c) ∧ b.Filled c s n m ∧ b.Lands t n m.length ∧
      ((t - 1) * defaultBufferSize ≤ m.length → m.length < t * defaultBufferSize →
        n + defaultBufferSize = m.length + (b.que b.readpos.idx).size) := by
  have hd : defaultBufferSize = 524288 := rfl
  have htwo := ha.two_le
  obtain ⟨k, count, hlen, hpos, hle, hk0⟩ : ∃ k count, m.length + count = k * defaultBufferSize ∧
      0 < count ∧ count ≤ defaultBufferSize ∧ 0 < k := by
    refine ⟨m.length / defaultBufferSize + 1,
      defaultBufferSize - m.length % defaultBufferSize, ?_⟩
    rw [hd]
    omega
  have hk : k ≤ t ∨ b.readpos.pos = 0 := by
    rw [hd] at hlen hle hin
    omega
  have hserial : b.Serializes m (true, (b.filled k m).backUp count) := by
    refine Or.inl ⟨k, count, ?_, Or.inr ⟨⟨(s + (k - 1)) % maxBufferPieces, 0, defaultBufferSize⟩,
      ?_, by simp only; omega⟩, rfl⟩
    · rw [(blocks_row ha hk).1, ← hlen, Int.natCast_add]
    · obtain ⟨j, rfl⟩ : ∃ j, k = j + 1 := ⟨k - 1, by omega⟩
      rw [nexts_row ha hk, List.range_succ, List.map_append]
      exact List.getLast?_concat
  by_cases hx : k < t ∨ b.readpos.pos = 0
  · refine ⟨_, m.length, hserial, filled_row ha hk hle hlen (Or.inr ⟨hpos, hk0, ?_⟩), Or.inl rfl,
      ?_⟩
    · rw [ha.size_row hx]
    · intro hlow hhigh
      -- then all pieces have the default size
      have hzero : b.readpos.pos = 0 := by
        refine hx.resolve_left fun hlt => ?_
        rw [hd] at hlen hle hlow
        omega
      rw [(ha.turn hzero).2]
  · obtain rfl : k = t := by omega
    have hrange : (k - 1) * defaultBufferSize ≤ m.length ∧ m.length < k * defaultBufferSize ∧
        defaultBufferSize ≤ m.length := by
      rw [hd] at hlen hle ⊢
      omega
    have hland : m.length + (b.que b.readpos.idx).size - defaultBufferSize + defaultBufferSize
        = m.length + (b.que b.readpos.idx).size := Nat.sub_add_cancel (by omega)
    refine ⟨_, _, hserial, filled_row ha hk hle hlen (Or.inr ⟨hpos, hk0, ?_⟩),
      Or.inr ⟨hrange.1, hrange.2.1, hland⟩, fun _ _ => hland⟩
    rw [ha.last]
    exact hland

/-- A message that is not too long can be serialised, and one that ends in the last piece in front
of the read position so that a part of that is given back. -/
theorem exists_serializes
    (hlen : b.readpos.pos = 0 ∨ m.length < t * defaultBufferSize + b.readpos.pos) :
    ∃ c n, b.Serializes m (true, c) ∧ b.Filled c s n m ∧ b.Lands t n m.length ∧
      ((t - 1) * defaultBufferSize ≤ m.length → m.length < t * defaultBufferSize →
        n + defaultBufferSize = m.length + (b.que b.readpos.idx).size) := by
  by_cases hin : m.length < t * defaultBufferSize ∨ b.readpos.pos = 0
  · exact exists_serializes_row ha hin
  have hpos : 0 < b.readpos.pos := by omega
  obtain ⟨count, hcount⟩ : ∃ count, m.length + count
      = t * defaultBufferSize + (b.readpos.pos - 1) :=
    ⟨t * defaultBufferSize + (b.readpos.pos - 1) - m.length, by omega⟩
  refine ⟨_, m.length, Or.inl ⟨t + 1, count, ?_, ?_, rfl⟩,
    filled_full ha hpos (Nat.lt_succ_self t) hcount (by omega), Or.inl rfl, ?_⟩
  · rw [(blocks_full ha hpos (Nat.lt_succ_self t)).1, ← hcount, Int.natCast_add]
  · rcases (nexts_full ha hpos (Nat.lt_succ_self t)).2 with ⟨-, hone⟩ | hmore
    · left
      omega
    · right
      rw [hmore]
      exact ⟨_, List.getLast?_concat, by simp only; omega⟩
  · intro _ hlt
    exact absurd (Or.inl hlt) hin

end

/-! ## The header in front of the body -/

/-- The hole in front of the body: in the piece of the read position, behind it, or the whole piece
behind that one, which ends at the read position then. -/
structure Hole (b : WriteBuffer) (h q t : ℕ) : Prop extends b.Aligned ((h + 1) % maxBufferPieces) t
    where
  idx_lt : h < maxBufferPieces
  offset_lt : q < defaultBufferSize
  size_hole : (b.que h).size = defaultBufferSize
  layout : h = b.readpos.idx ∧ q = b.readpos.pos ∨
    h = (b.readpos.idx + 1) % maxBufferPieces ∧ q = 0 ∧ 0 < b.readpos.pos ∧
      (b.que b.readpos.idx).size = b.readpos.pos

/-- A body of `n` bytes ends in front of the read position. -/
def Before (b : WriteBuffer) (t n : ℕ) : Prop :=
  n < t * defaultBufferSize + b.readpos.pos

/-- What `putHeader` prints into a hole of the size `room`, in bytes that stay in the packet. -/
def printed (room : ℕ) (first : Bytes) (headers : Headers) : ℕ :=
  min room (headerText first headers).length

section

variable {b c : WriteBuffer} {h q t n : ℕ} {m first : Bytes} {headers : Headers}
  (hh : b.Hole h q t) (hc : b.Filled c ((h + 1) % maxBufferPieces) n m)

include hh

/-- The pieces of the body that are in front of the read position. -/
lemma Hole.layout_eq : h = b.readpos.idx ∧ q = b.readpos.pos ∧ t = 15 ∨
    h = (b.readpos.idx + 1) % 16 ∧ h ≠ b.readpos.idx ∧ q = 0 ∧ t = 14 ∧ 0 < b.readpos.pos ∧
      (b.que b.readpos.idx).size = b.readpos.pos := by
  have hlast := hh.last
  have hlt := hh.lt
  have hidx := hh.idx_lt
  have htwo := hh.two_le
  rw [show maxBufferPieces = 16 from rfl] at hlast hlt hidx
  rcases hh.layout with hl | ⟨hl, hl'⟩
  · exact Or.inl ⟨hl.1, hl.2, by omega⟩
  · rw [show maxBufferPieces = 16 from rfl] at hl
    exact Or.inr ⟨hl, by omega, hl'.1, by omega, hl'.2⟩

include hc

/-- The length of the body, as `putHeader` finds it. -/
lemma sub_body (hn : n / defaultBufferSize < maxBufferPieces)
    (ht : n / defaultBufferSize ≤ t ∨ b.readpos.pos = 0) :
    Iterator.sub c.que c.writepos ⟨(h + 1) % maxBufferPieces, 0⟩ = n := by
  rw [hc.writepos]
  refine sub_row_start (Nat.mod_lt _ (by decide)) hn fun x hx => ?_
  rw [hc.size]
  exact hh.size_row (ht.imp_left fun hle => by omega)

/-- The sizes of the pieces behind the header. -/
lemma size_serializeHeader (i : ℕ) :
    ((serializeHeader first headers c.que ⟨h, q⟩).2 i).size
      = if i = h then q + printed (defaultBufferSize - q) first headers else (b.que i).size := by
  have hsize := hh.size_hole
  have hq := hh.offset_lt
  by_cases hroom : q + (headerText first headers).length < (c.que h).size
  · have hret := (@serializeHeader_eq_zero_iff c.que first headers ⟨h, q⟩).mpr hroom
    obtain ⟨-, hown, -, hother, -⟩ := serializeHeader_spec hret
    rw [hc.size, hsize] at hroom
    split
    · next heq =>
      rw [heq, hown, printed, Nat.min_eq_right (by omega)]
    · next hne => rw [hother i hne, hc.size]
  · have hall := (@serializeHeader_full c.que first headers ⟨h, q⟩ (Nat.not_lt.mp hroom)).1 i
    rw [hc.size, hsize] at hroom
    rw [hall, hc.size]
    split
    · next heq =>
      rw [heq, hsize, printed, Nat.min_eq_left (by omega)]
      omega
    · rfl

/-- The size of the packet, as `putHeader` finds it. -/
lemma sub_packet (hn : n / defaultBufferSize < maxBufferPieces)
    (ht : n / defaultBufferSize ≤ t ∨ b.readpos.pos = 0)
    (hne : ¬ ((row ((h + 1) % maxBufferPieces) n).idx = h ∧
      q ≤ (row ((h + 1) % maxBufferPieces) n).pos)) :
    Iterator.sub (serializeHeader first headers c.que ⟨h, q⟩).2 c.writepos ⟨h, q⟩
      = (printed (defaultBufferSize - q) first headers + n : ℕ) := by
  have hidx := hh.idx_lt
  rw [hc.writepos, sub_row hn _ hne, size_serializeHeader hh hc, if_pos rfl]
  · omega
  · intro x hx
    have hother : ((h + 1) % maxBufferPieces + x) % maxBufferPieces ≠ h := by
      rw [show maxBufferPieces = 16 from rfl] at hidx hn ⊢
      omega
    rw [size_serializeHeader hh hc, if_neg hother]
    exact hh.size_row (ht.imp_left fun hle => by omega)

omit hc in
/-- A body that ends in front of the read position does not come to the hole. -/
lemma Hole.row_before (hn : b.Before t n) :
    n / defaultBufferSize ≤ t ∧ n / defaultBufferSize < maxBufferPieces ∧
      ((row ((h + 1) % maxBufferPieces) n).idx = h →
        (row ((h + 1) % maxBufferPieces) n).pos < q) ∧
      ((row ((h + 1) % maxBufferPieces) n).idx = b.readpos.idx →
        (row ((h + 1) % maxBufferPieces) n).pos < b.readpos.pos) := by
  have hlayout := hh.layout_eq
  have hidx := hh.idx_lt
  have hpos := hh.pos_lt
  rw [Before] at hn
  rw [show defaultBufferSize = 524288 from rfl] at hn hpos ⊢
  rw [show maxBufferPieces = 16 from rfl] at hidx
  simp only [row, show maxBufferPieces = 16 from rfl, show defaultBufferSize = 524288 from rfl]
  omega

/-- The segments that are offered then: the header and the body. -/
lemma segments_packet (hn : b.Before t n) :
    ((({ c with que := (serializeHeader first headers c.que ⟨h, q⟩).2 } : WriteBuffer
      ).getSendBufferTo c.writepos).getD []).flatMap Iovec.cells
      = cells h q (printed (defaultBufferSize - q) first headers)
        ++ pieces.walk ⟨(h + 1) % maxBufferPieces, 0⟩ n := by
  obtain ⟨hle, hlt, hhole, hread⟩ := hh.row_before hn
  have hs : (h + 1) % maxBufferPieces < maxBufferPieces := Nat.mod_lt _ (by decide)
  have hq := hh.offset_lt
  have hidx := hh.idx_lt
  have hsize := @size_serializeHeader b c h q t n m first headers hh hc
  have hprinted : printed (defaultBufferSize - q) first headers ≤ defaultBufferSize - q :=
    Nat.min_le_left _ _
  have hcells := @cells_row (serializeHeader first headers c.que ⟨h, q⟩).2 _ n hs
    fun x hx => by
      have hother : ((h + 1) % maxBufferPieces + x) % maxBufferPieces ≠ h := by
        rw [show maxBufferPieces = 16 from rfl] at hidx hlt ⊢
        omega
      rw [hsize, if_neg hother]
      exact hh.size x (by omega)
  have hstop : row ((h + 1) % maxBufferPieces) n ≠ b.readpos := by
    intro heq
    have := hread (by rw [heq])
    rw [heq] at this
    omega
  rw [hc.writepos, IOBuffer.getSendBufferTo]
  simp only [hc.readpos, if_neg hstop]
  rw [if_neg (fun hin => by have := hread hin.1; omega), Option.getD_some, List.cons_append,
    List.flatMap_cons, List.flatMap_append]
  rcases hh.layout_eq with ⟨hi, hp, -⟩ | ⟨hi, hne, hq0, ht, -, hcut⟩
  · -- the header is at the read position
    have hloop := tidxLoop_row (h := h) hlt
    rw [← hi, ← hp, hsize, if_pos rfl, Iovec.cells,
      IOBuffer.iovLen_eq (by omega) (by omega), Nat.add_sub_cancel_left, row, hloop, List.map_map]
    exact congrArg _ hcells
  · -- in front of it there is the empty rest of a piece
    rw [show (16 : ℕ) = maxBufferPieces from rfl] at hi
    have hloop : tidxLoop b.readpos.idx (row ((h + 1) % maxBufferPieces) n).idx
        = h :: (List.range (n / defaultBufferSize)).map fun x =>
          ((h + 1) % maxBufferPieces + x) % maxBufferPieces := by
      have hrow := tidxLoop_row (h := b.readpos.idx) (c := n / defaultBufferSize + 1)
        (by rw [show maxBufferPieces = 16 from rfl]; omega)
      rw [← hi, List.range_succ_eq_map, List.map_cons, List.map_map,
        show (h + 0) % maxBufferPieces = h from Nat.mod_eq_of_lt hidx] at hrow
      have hstep : ∀ x, (h + (x + 1)) % maxBufferPieces
          = ((h + 1) % maxBufferPieces + x) % maxBufferPieces := fun x => by
        rw [Nat.mod_add_mod, Nat.add_assoc, Nat.add_comm 1 x]
      rw [row, ← hstep, hrow]
      refine congrArg _ (List.map_congr_left fun x _ => ?_)
      exact hstep x
    have hempty : iovLen ((serializeHeader first headers c.que ⟨h, q⟩).2 b.readpos.idx).size
        b.readpos.pos = 0 := by
      rw [hsize, if_neg hne.symm, hcut, IOBuffer.iovLen_eq le_rfl hh.pos_lt.le, Nat.sub_self]
    rw [hempty, Iovec.cells, PieceRing.cells_zero, List.nil_append, hloop, List.map_cons,
      List.flatMap_cons, List.map_map, Iovec.cells, hsize, if_pos rfl, hq0, Nat.zero_add,
      List.append_assoc]
    rw [hq0] at hcells
    exact congrArg _ hcells

end

/-! ## The packet -/

section

variable {b c : WriteBuffer} {h q t n : ℕ} {m first : Bytes} {headers : Headers}
  (hh : b.Hole h q t)

include hh

/-- With the length that `putHeader` finds, what it prints. -/
lemma putHeader_eq (hc : b.Filled c ((h + 1) % maxBufferPieces) n m)
    (hn : n / defaultBufferSize < maxBufferPieces)
    (ht : n / defaultBufferSize ≤ t ∨ b.readpos.pos = 0) :
    (c.putHeader first headers ⟨h, q⟩ ⟨(h + 1) % maxBufferPieces, 0⟩).headers
        = headers.insert HttpHeader.contentLengthKey (decimal n) ∧
      ((c.putHeader first headers ⟨h, q⟩ ⟨(h + 1) % maxBufferPieces, 0⟩).ret = 0 ↔
        OutPacket.textLength first headers n < defaultBufferSize - q) := by
  have hsub := sub_body hh hc hn ht
  have hsize := hh.size_hole
  have hq := hh.offset_lt
  have hlt : n < 2 ^ 32 := by
    rw [show defaultBufferSize = 524288 from rfl, show maxBufferPieces = 16 from rfl] at hn
    omega
  have hlength : ((n : ℤ) % 2 ^ 32).toNat % 2 ^ 32 = n := by omega
  simp only [putHeader, hsub, hlength, true_and, serializeHeader_eq_zero_iff, hc.size, hsize,
    OutPacket.textLength]
  omega

/-- The packet has the size of what was printed and of the body, up to where the write position
is. -/
lemma putHeader_size (hc : b.Filled c ((h + 1) % maxBufferPieces) n m)
    (hn : n / defaultBufferSize < maxBufferPieces)
    (ht : n / defaultBufferSize ≤ t ∨ b.readpos.pos = 0)
    (hne : ¬ ((row ((h + 1) % maxBufferPieces) n).idx = h ∧
      q ≤ (row ((h + 1) % maxBufferPieces) n).pos)) :
    (c.putHeader first headers ⟨h, q⟩ ⟨(h + 1) % maxBufferPieces, 0⟩).size.toNat
      = printed (defaultBufferSize - q) first
          (c.putHeader first headers ⟨h, q⟩ ⟨(h + 1) % maxBufferPieces, 0⟩).headers + n := by
  have hsub := @sub_packet b c h q t n m first
    (c.putHeader first headers ⟨h, q⟩ ⟨(h + 1) % maxBufferPieces, 0⟩).headers hh hc hn ht hne
  have hle : printed (defaultBufferSize - q) first
      (c.putHeader first headers ⟨h, q⟩ ⟨(h + 1) % maxBufferPieces, 0⟩).headers
      ≤ defaultBufferSize - q := Nat.min_le_left _ _
  rw [show defaultBufferSize = 524288 from rfl, show maxBufferPieces = 16 from rfl] at hn
  rw [show defaultBufferSize = 524288 from rfl] at hle
  refine Eq.trans (congrArg (fun z => (UInt32.ofInt z).toNat) hsub) (toNat_ofInt ?_)
  rw [show defaultBufferSize = 524288 from rfl]
  omega

omit hh in
/-- The text of a header ends with a line feed. -/
lemma getLast_headerText (first : Bytes) (headers : Headers) :
    (headerText first headers).getLast? = some 10 := by
  rw [headerText, show ascii "\r\n" = [13] ++ [10] from rfl, ← List.append_assoc]
  exact List.getLast?_concat

omit hh in
lemma getLast_cells {k : ℕ} (hk : 0 < k) : (cells h q k).getLast? = some ⟨h, q + k - 1⟩ := by
  obtain ⟨j, rfl⟩ : ∃ j, k = j + 1 := ⟨k - 1, by omega⟩
  rw [PieceRing.cells_add]
  exact List.getLast?_concat

/-- The body is where it was. -/
lemma load_body (hc : b.Filled c ((h + 1) % maxBufferPieces) m.length m)
    (hbefore : b.Before t m.length)
    (hroom : q + (headerText first headers).length < (c.que h).size) :
    (pieces.walk ⟨(h + 1) % maxBufferPieces, 0⟩ m.length).map
      (serializeHeader first headers c.que ⟨h, q⟩).2.load = m := by
  have hret := (@serializeHeader_eq_zero_iff c.que first headers ⟨h, q⟩).mpr hroom
  obtain ⟨-, -, -, -, hframe⟩ := serializeHeader_spec hret
  have hfit : 0 < b.readpos.pos ∨ m.length < 15 * defaultBufferSize := by
    have hlayout := hh.layout_eq
    rw [Before] at hbefore
    rcases Nat.eq_zero_or_pos b.readpos.pos with hpos | hpos
    · right
      have ht : t = 15 := by omega
      rwa [ht, hpos, Nat.add_zero] at hbefore
    · exact Or.inl hpos
  refine Eq.trans (List.map_congr_left fun it hit => hframe it fun hmem => ?_) (hc.load hfit)
  -- the cells of the body in the piece of the hole are in front of it
  obtain ⟨j, hj, rfl⟩ := Shape.mem_walk.mp hit
  have hrow : pieces.next^[j] ⟨(h + 1) % maxBufferPieces, 0⟩ = row ((h + 1) % maxBufferPieces) j :=
    Shape.iterate_equal (S := pieces) (d := defaultBufferSize) (fun _ _ => rfl)
      (Nat.mod_lt _ (by decide)) j
  rw [hrow] at hmem
  obtain ⟨hidx, hlow, -⟩ := PieceRing.mem_cells.mp hmem
  have hbj : b.Before t j := hj.trans hbefore
  have := (hh.row_before hbj).2.2.1 hidx
  simp only at hlow
  omega

/-- A body that ends in front of the read position is right when the text of the header is shorter
than the hole, and only then. -/
theorem assembled_iff (hc : b.Filled c ((h + 1) % maxBufferPieces) m.length m)
    (hbefore : b.Before t m.length) :
    (c.putHeader first headers ⟨h, q⟩ ⟨(h + 1) % maxBufferPieces, 0⟩).Assembled first m ↔
      OutPacket.textLength first headers m.length < defaultBufferSize - q := by
  obtain ⟨hle, hlt, hhole, -⟩ := hh.row_before hbefore
  obtain ⟨hheaders, -⟩ := @putHeader_eq b c h q t _ m first headers hh hc hlt (Or.inl hle)
  have hsize := @putHeader_size b c h q t _ m first headers hh hc hlt (Or.inl hle)
    fun hin => by have := hhole hin.1; omega
  have hgathered : ∀ hs : Headers, (c.putHeader first headers ⟨h, q⟩
      ⟨(h + 1) % maxBufferPieces, 0⟩).headers = hs → (c.putHeader first headers ⟨h, q⟩
      ⟨(h + 1) % maxBufferPieces, 0⟩).buf.gathered (c.putHeader first headers ⟨h, q⟩
      ⟨(h + 1) % maxBufferPieces, 0⟩).buf.writepos
      = (cells h q (printed (defaultBufferSize - q) first hs)
        ++ pieces.walk ⟨(h + 1) % maxBufferPieces, 0⟩ m.length).map
          (serializeHeader first hs c.que ⟨h, q⟩).2.load := by
    rintro hs rfl
    exact congrArg _ (segments_packet hh hc hbefore)
  have hgathered := hgathered _ hheaders
  rw [hheaders] at hsize
  have hhole_size : (c.que h).size = defaultBufferSize := by rw [hc.size, hh.size_hole]
  have hq := hh.offset_lt
  rw [OutPacket.textLength]
  generalize hdef : headers.insert HttpHeader.contentLengthKey (decimal m.length) = hs at *
  rw [printed] at hsize hgathered
  constructor
  · intro hpacket
    have hlen := hpacket.size
    rw [hheaders, hsize] at hlen
    by_contra hfull
    have hexact : (headerText first hs).length = defaultBufferSize - q := by omega
    -- the NUL is in the place of the last byte
    have hnul := (@serializeHeader_full c.que first hs ⟨h, q⟩ (by simp only; omega)).2
      (by simp only; omega)
    have hcontent := hpacket.content
    rw [hgathered, hheaders, hexact, Nat.min_self, List.map_append] at hcontent
    have htext := (List.append_inj hcontent (by rw [List.length_map, PieceRing.length_cells,
      hexact])).1
    have hlast := congrArg List.getLast? htext
    rw [getLast_headerText, List.getLast?_map, getLast_cells (by omega), Option.map_some] at hlast
    simp only [hhole_size] at hnul
    rw [show q + (defaultBufferSize - q) - 1 = defaultBufferSize - 1 by omega, hnul] at hlast
    exact absurd hlast (by decide)
  · intro hroom
    have hmin : min (defaultBufferSize - q) (headerText first hs).length
        = (headerText first hs).length := Nat.min_eq_right hroom.le
    have hfits : q + (headerText first hs).length < (c.que h).size := by omega
    have hret := (@serializeHeader_eq_zero_iff c.que first hs ⟨h, q⟩).mpr hfits
    obtain ⟨htext, hown, -⟩ := serializeHeader_spec hret
    rw [Que.textFrom] at htext
    simp only [hown, Nat.add_sub_cancel_left] at htext
    refine ⟨?_, ?_, ?_⟩
    · rw [hgathered, hheaders, hmin, List.map_append, htext, load_body hh hc hbefore hfits]
    · rw [hheaders, ← hdef]
      exact Std.ExtTreeMap.getElem?_insert_self
    · rw [hsize, hheaders, hmin]


/-- A write position that does not follow the message gives the wrong size. -/
theorem not_assembled_of_lt (hc : b.Filled c ((h + 1) % maxBufferPieces) n m)
    (hbefore : b.Before t n) (hn : n < m.length) :
    ¬ (c.putHeader first headers ⟨h, q⟩ ⟨(h + 1) % maxBufferPieces, 0⟩).Assembled first m := by
  obtain ⟨hle, hlt, hhole, -⟩ := hh.row_before hbefore
  intro hpacket
  have hsize := hpacket.size
  rw [putHeader_size hh hc hlt (Or.inl hle) fun hin => by have := hhole hin.1; omega] at hsize
  have hprinted : printed (defaultBufferSize - q) first
      (c.putHeader first headers ⟨h, q⟩ ⟨(h + 1) % maxBufferPieces, 0⟩).headers
      ≤ (headerText first (c.putHeader first headers ⟨h, q⟩
        ⟨(h + 1) % maxBufferPieces, 0⟩).headers).length := Nat.min_le_right _ _
  omega

omit hh in
/-- So many bytes that the positions meet: every turn of the ring is lost. -/
lemma Filled.turn {s : ℕ} (hc : b.Filled c s n m) :
    b.Filled c s (n % (maxBufferPieces * defaultBufferSize)) m := by
  refine ⟨hc.readpos, ?_, hc.size, hc.load⟩
  rw [hc.writepos, row, row, PieceRing.Pos.mk.injEq, show defaultBufferSize = 524288 from rfl,
    show maxBufferPieces = 16 from rfl]
  omega

/-- With the read position at the start of its piece, a body that meets it gives the wrong size. -/
theorem not_assembled_of_meets (hpos : b.readpos.pos = 0)
    (hc : b.Filled c ((h + 1) % maxBufferPieces) m.length m)
    (hmeets : 15 * defaultBufferSize ≤ m.length) :
    ¬ (c.putHeader first headers ⟨h, q⟩ ⟨(h + 1) % maxBufferPieces, 0⟩).Assembled first m := by
  have hturn := hc.turn
  have hlayout := hh.layout_eq
  have hmod : m.length % (maxBufferPieces * defaultBufferSize)
      < maxBufferPieces * defaultBufferSize := Nat.mod_lt _ (by decide)
  have hle := Nat.mod_le m.length (maxBufferPieces * defaultBufferSize)
  by_cases hbefore : b.Before t (m.length % (maxBufferPieces * defaultBufferSize))
  · -- at least one turn
    refine not_assembled_of_lt hh hturn hbefore (Nat.lt_of_le_of_ne hle fun heq => ?_)
    rw [heq, Before] at hbefore
    have ht : t = 15 := by omega
    rw [ht] at hbefore
    omega
  · intro hpacket
    have hsize := hpacket.size
    have hidx := hh.idx_lt
    have hend : c.writepos = ⟨h, m.length % defaultBufferSize⟩ := by
      rw [Before] at hbefore
      rw [hc.writepos, row, PieceRing.Pos.mk.injEq]
      rw [show defaultBufferSize = 524288 from rfl] at *
      rw [show maxBufferPieces = 16 from rfl] at *
      omega
    -- the difference stays inside the piece
    have hsub : Iterator.sub (c.putHeader first headers ⟨h, q⟩
        ⟨(h + 1) % maxBufferPieces, 0⟩).buf.que c.writepos ⟨h, q⟩
        = (m.length % defaultBufferSize : ℕ) := by
      rw [hend, Iterator.sub, if_pos ⟨rfl, by simp only; omega⟩]
      simp only
      omega
    have hrest := Nat.mod_lt m.length (show 0 < defaultBufferSize by decide)
    rw [show (c.putHeader first headers ⟨h, q⟩ ⟨(h + 1) % maxBufferPieces, 0⟩).size
      = UInt32.ofInt _ from congrArg UInt32.ofInt hsub, toNat_ofInt (by
        rw [show defaultBufferSize = 524288 from rfl] at hrest ⊢
        omega)] at hsize
    rw [show defaultBufferSize = 524288 from rfl] at hrest hsize hmeets
    omega

end

/-! ## An empty buffer -/

section

variable {b : WriteBuffer} (hempty : b.isEmpty) (hidx : b.writepos.idx < maxBufferPieces)
  (hpos : b.writepos.pos < defaultBufferSize)

include hempty hidx

/-- `Reset` on an empty buffer gives all pieces their default size. -/
lemma size_reset_of_isEmpty {i : ℕ} (hi : i < maxBufferPieces) :
    (b.reset.que i).size = defaultBufferSize := by
  have hread : b.readpos = b.writepos := hempty
  have hreset : b.reset.toIOBuffer = _ := IOBuffer.reset_eq (b := b.toIOBuffer)
    fun hw => by rw [hread] at hw; exact absurd hw.2 (Nat.lt_irrefl _)
  rw [hreset]
  simp only [hread, Que.size_resize]
  rw [if_pos]
  rw [List.mem_append, List.mem_singleton, mem_tidxLoop hidx hi hidx]
  omega

omit hidx in
lemma positions_reset : b.reset.readpos = b.writepos ∧ b.reset.writepos = b.writepos := by
  have hread : b.readpos = b.writepos := hempty
  have hreset : b.reset.toIOBuffer = _ := IOBuffer.reset_eq (b := b.toIOBuffer)
    fun hw => by rw [hread] at hw; exact absurd hw.2 (Nat.lt_irrefl _)
  rw [hreset]
  exact ⟨hread, rfl⟩

include hpos

/-- Where the hole is, and what protobuf gets. -/
theorem hole_bodyBuffer :
    (b.reset.reserve maxHeaderSize).1 = true ∧
      b.bodyBuffer.readpos = b.writepos ∧
      (b.bodyBuffer.que b.writepos.idx).size
        = (if b.writepos.pos + maxHeaderSize ≤ defaultBufferSize then defaultBufferSize
          else b.writepos.pos) ∧
      ∃ h q, b.holeBuffer.writepos = ⟨h, q⟩ ∧
        b.bodyBuffer.writepos = ⟨(h + 1) % maxBufferPieces, 0⟩ ∧
        b.bodyBuffer.Hole h q (OutPacket.bodyPieces b.writepos.pos) ∧
        defaultBufferSize - q = OutPacket.room b.writepos.pos := by
  have hd : defaultBufferSize = 524288 := rfl
  have h16 : maxBufferPieces = 16 := rfl
  have hm : maxHeaderSize = 1024 := rfl
  obtain ⟨hread, hwrite⟩ := positions_reset hempty
  have hsize := fun i => @size_reset_of_isEmpty b hempty hidx i
  have hwrap : ¬ (b.reset.writepos.idx = b.reset.readpos.idx ∧
      b.reset.writepos.pos < b.reset.readpos.pos) := by
    rw [hread, hwrite]
    exact fun hw => Nat.lt_irrefl _ hw.2
  have htest : ((b.reset.que b.reset.writepos.idx).size + 2 ^ 32 - b.reset.writepos.pos) % 2 ^ 32
      < maxHeaderSize ↔ ¬ b.writepos.pos + maxHeaderSize ≤ defaultBufferSize := by
    rw [hwrite, hsize _ hidx]
    omega
  by_cases hroom : b.writepos.pos + maxHeaderSize ≤ defaultBufferSize
  · have hreserve : b.reset.reserve maxHeaderSize = (true, b.reset) := by
      rw [reserve, IOBuffer.reserve, if_neg hwrap, if_neg (htest.not.mpr (not_not.mpr hroom))]
    have hbody : b.bodyBuffer = b.reset.alignWritePos.beginPacket := by
      rw [bodyBuffer, holeBuffer, hreserve]
    have hque : b.bodyBuffer.que = b.reset.que := by rw [hbody]; rfl
    have hbr : b.bodyBuffer.readpos = b.writepos := by rw [hbody]; exact hread
    have hbw : b.bodyBuffer.writepos = ⟨(b.writepos.idx + 1) % maxBufferPieces, 0⟩ := by
      rw [hbody, ← hwrite]
      rfl
    refine ⟨by rw [hreserve], hbr, by rw [hque, hsize _ hidx, if_pos hroom], b.writepos.idx,
      b.writepos.pos, ?_, hbw, ?_, ?_⟩
    · rw [holeBuffer, hreserve, hwrite]
    · rw [OutPacket.bodyPieces, if_pos hroom]
      refine
        { write := hbw
          start_lt := Nat.mod_lt _ (by decide)
          last := by rw [hbr]; rw [h16] at hidx ⊢; omega
          two_le := by decide
          lt := by decide
          pos_lt := by rw [hbr]; exact hpos
          size := fun x _ => by rw [hque]; exact hsize _ (Nat.mod_lt _ (by decide))
          size_read := Or.inl (by rw [hbr, hque]; exact hsize _ hidx)
          turn := fun _ => ⟨rfl, by rw [hbr, hque]; exact hsize _ hidx⟩
          idx_lt := hidx
          offset_lt := hpos
          size_hole := by rw [hque]; exact hsize _ hidx
          layout := Or.inl ⟨by rw [hbr], by rw [hbr]⟩ }
    · rw [OutPacket.room, if_pos hroom]
  · have hreserve : b.reset.reserve maxHeaderSize
        = (true, { b.reset with toIOBuffer := b.reset.toIOBuffer.moveOn }) := by
      rw [reserve, IOBuffer.reserve, if_neg hwrap, if_pos (htest.mpr hroom)]
      rfl
    have hbody : b.bodyBuffer
        = WriteBuffer.beginPacket (alignWritePos
          { b.reset with toIOBuffer := b.reset.toIOBuffer.moveOn }) := by
      rw [bodyBuffer, holeBuffer, hreserve]
    have hque : b.bodyBuffer.que = b.reset.que.setSize b.writepos.idx b.writepos.pos := by
      rw [hbody, ← hwrite]
      rfl
    have hbr : b.bodyBuffer.readpos = b.writepos := by rw [hbody]; exact hread
    have hbw : b.bodyBuffer.writepos
        = ⟨((b.writepos.idx + 1) % maxBufferPieces + 1) % maxBufferPieces, 0⟩ := by
      rw [hbody, ← hwrite]
      rfl
    have hother : ∀ i, i < maxBufferPieces → i ≠ b.writepos.idx →
        (b.bodyBuffer.que i).size = defaultBufferSize := by
      intro i hi hne
      rw [hque, Que.size_setSize, if_neg hne]
      exact hsize i hi
    have hcut : (b.bodyBuffer.que b.writepos.idx).size = b.writepos.pos := by
      rw [hque, Que.size_setSize, if_pos rfl]
    refine ⟨by rw [hreserve], hbr, by rw [hcut, if_neg hroom],
      (b.writepos.idx + 1) % maxBufferPieces, 0, ?_, hbw, ?_, ?_⟩
    · rw [holeBuffer, hreserve, ← hwrite]
      rfl
    · rw [OutPacket.bodyPieces, if_neg hroom]
      have hnext : (b.writepos.idx + 1) % maxBufferPieces ≠ b.writepos.idx := by
        rw [h16] at hidx ⊢
        omega
      refine
        { write := hbw
          start_lt := Nat.mod_lt _ (by decide)
          last := by rw [hbr]; rw [h16] at hidx ⊢; omega
          two_le := by decide
          lt := by decide
          pos_lt := by rw [hbr]; exact hpos
          size := fun x hx => hother _ (Nat.mod_lt _ (by decide)) (by rw [h16] at hidx ⊢; omega)
          size_read := Or.inr (by rw [hbr]; exact hcut)
          turn := fun h0 => by rw [hbr] at h0; omega
          idx_lt := Nat.mod_lt _ (by decide)
          offset_lt := by decide
          size_hole := hother _ (Nat.mod_lt _ (by decide)) hnext
          layout := Or.inr ⟨by rw [hbr], rfl, by rw [hbr]; omega, by rw [hbr]; exact hcut⟩ }
    · rw [OutPacket.room, if_neg hroom, Nat.sub_zero]

omit hempty hidx in
/-- A packet after protobuf has succeeded: the body is behind the header, or it was backed up over
the piece that was cut, or it meets the read position. -/
lemma putHeader_cases {first m : Bytes} {headers : Headers} {c : WriteBuffer} {h q n : ℕ}
    (hread : b.bodyBuffer.readpos = b.writepos)
    (hsize : (b.bodyBuffer.que b.writepos.idx).size
      = (if b.writepos.pos + maxHeaderSize ≤ defaultBufferSize then defaultBufferSize
        else b.writepos.pos))
    (hh : b.bodyBuffer.Hole h q (OutPacket.bodyPieces b.writepos.pos))
    (hc : b.bodyBuffer.Filled c ((h + 1) % maxBufferPieces) n m)
    (hlands : b.bodyBuffer.Lands (OutPacket.bodyPieces b.writepos.pos) n m.length)
    (hlen : b.writepos.pos = 0 ∨
      m.length < OutPacket.bodyPieces b.writepos.pos * defaultBufferSize + b.writepos.pos) :
    let p := c.putHeader first headers ⟨h, q⟩ ⟨(h + 1) % maxBufferPieces, 0⟩
    (n = m.length ∧ ¬ OutPacket.Meets b.writepos.pos m.length ∧
      (p.Assembled first m ↔
        OutPacket.textLength first headers m.length < defaultBufferSize - q) ∧
      (p.ret = 0 ↔ OutPacket.textLength first headers m.length < defaultBufferSize - q)) ∨
    (n ≠ m.length ∧ OutPacket.BacksOver b.writepos.pos m.length ∧ ¬ p.Assembled first m ∧
      (p.ret = 0 ↔ OutPacket.textLength first headers
        (m.length - (defaultBufferSize - b.writepos.pos)) < defaultBufferSize - q)) ∨
    (OutPacket.Meets b.writepos.pos m.length ∧ ¬ p.Assembled first m ∧
      (p.ret = 0 ↔ OutPacket.textLength first headers
        (m.length % (maxBufferPieces * defaultBufferSize)) < defaultBufferSize - q)) := by
  intro p
  have hm : maxHeaderSize = 1024 := rfl
  have hd : defaultBufferSize = 524288 := rfl
  have hret : ∀ {n'}, b.bodyBuffer.Filled c ((h + 1) % maxBufferPieces) n' m →
      n' / defaultBufferSize < maxBufferPieces →
      (n' / defaultBufferSize ≤ OutPacket.bodyPieces b.writepos.pos ∨
        b.bodyBuffer.readpos.pos = 0) →
      (p.ret = 0 ↔ OutPacket.textLength first headers n' < defaultBufferSize - q) :=
    fun hc' hn ht => (putHeader_eq hh hc' hn ht).2
  have hbefore : ¬ OutPacket.Meets b.writepos.pos m.length →
      b.bodyBuffer.Before (OutPacket.bodyPieces b.writepos.pos) m.length := by
    intro hmeets
    rw [Before, hread]
    by_cases hpos0 : b.writepos.pos = 0
    · have hlt : m.length < 15 * defaultBufferSize := by
        by_contra hge
        exact hmeets ⟨hpos0, Nat.le_of_not_lt hge⟩
      rw [OutPacket.bodyPieces, if_pos (by rw [hpos0]; decide), hpos0]
      exact hlt
    · exact hlen.resolve_left hpos0
  by_cases hmeets : OutPacket.Meets b.writepos.pos m.length
  · -- the positions meet
    have hpos0 : b.bodyBuffer.readpos.pos = 0 := by rw [hread]; exact hmeets.1
    have hn : n = m.length := by
      refine hlands.resolve_right fun hback => ?_
      have hlt := hback.2.1
      rw [OutPacket.bodyPieces, if_pos (by rw [hmeets.1]; decide)] at hlt
      exact Nat.lt_irrefl _ (hlt.trans_le hmeets.2)
    subst hn
    refine Or.inr (Or.inr ⟨hmeets, not_assembled_of_meets hh hpos0 hc hmeets.2,
      hret hc.turn ?_ (Or.inr hpos0)⟩)
    exact Nat.div_lt_of_lt_mul ((Nat.mod_lt _ (by decide)).trans_eq (Nat.mul_comm _ _))
  by_cases hn : n = m.length
  · subst hn
    obtain ⟨hle, hlt, -⟩ := hh.row_before (hbefore hmeets)
    exact Or.inl ⟨rfl, hmeets, assembled_iff hh hc (hbefore hmeets), hret hc hlt (Or.inl hle)⟩
  · -- the piece of the read position was cut
    obtain ⟨hlow, hhigh, hback⟩ := hlands.resolve_left hn
    rw [hread, hsize] at hback
    have hroom : ¬ b.writepos.pos + maxHeaderSize ≤ defaultBufferSize := fun hroom => by
      rw [if_pos hroom] at hback
      omega
    rw [if_neg hroom] at hback
    rw [OutPacket.bodyPieces, if_neg hroom] at hlow hhigh
    have hless : n < m.length := by omega
    have hbn := hless.trans (hbefore hmeets)
    obtain ⟨hle, hlt, -⟩ := hh.row_before hbn
    refine Or.inr (Or.inl ⟨hn, ⟨Nat.lt_of_not_le hroom, hlow, hhigh⟩,
      not_assembled_of_lt hh hc hbn hless, ?_⟩)
    rw [show m.length - (defaultBufferSize - b.writepos.pos) = n by omega]
    exact hret hc hlt (Or.inl hle)

end

end WriteBuffer

namespace WriteBuffer

section

variable {b : WriteBuffer} {first m : Bytes} {headers : Headers} {h q : ℕ}

/-- The packets of a message are those of the successful runs of protobuf. -/
lemma forall_assemble_iff (hreserve : (b.reset.reserve maxHeaderSize).1 = true)
    (hstart : b.holeBuffer.writepos = ⟨h, q⟩)
    (hbody : b.bodyBuffer.writepos = ⟨(h + 1) % maxBufferPieces, 0⟩) (good : OutPacket → Prop) :
    (∀ serialize p, b.bodyBuffer.Serializes m (serialize b.bodyBuffer) →
        b.assemble first headers serialize = some p → good p) ↔
      ∀ c, b.bodyBuffer.Serializes m (true, c) →
        good (c.putHeader first headers ⟨h, q⟩ ⟨(h + 1) % maxBufferPieces, 0⟩) := by
  constructor
  · intro hall c hc
    refine hall (fun _ => (true, c)) _ hc ?_
    rw [assemble, hreserve, hstart, hbody]
    rfl
  · intro hall serialize p hserial hp
    rw [assemble, hreserve, if_neg Bool.noConfusion, hstart, hbody] at hp
    by_cases hok : (serialize b.bodyBuffer).1 = false
    · rw [if_pos hok] at hp
      exact absurd hp (by simp)
    · rw [if_neg hok, Option.some.injEq] at hp
      rw [← hp]
      refine hall _ ?_
      rw [← Bool.eq_true_of_not_eq_false hok]
      exact hserial

end

end WriteBuffer

/-- **Assembling a packet.**  On every empty buffer, at any piece and offset and with any sizes of
the pieces, for every header and every message, all packets that take no error exit are right
exactly when `Safe` holds; with the return value of `SerializeHeader` for a third exit, exactly
when `SafeChecked` does. -/
theorem assemble_iff {b : WriteBuffer} (hempty : b.isEmpty)
    (hidx : b.writepos.idx < maxBufferPieces) (hpos : b.writepos.pos < defaultBufferSize)
    (first : Bytes) (headers : Headers) (m : Bytes) :
    ((∀ serialize p, b.bodyBuffer.Serializes m (serialize b.bodyBuffer) →
        b.assemble first headers serialize = some p → p.Assembled first m) ↔
      OutPacket.Safe b.writepos.pos (OutPacket.textLength first headers) m.length) ∧
    ((∀ serialize p, b.bodyBuffer.Serializes m (serialize b.bodyBuffer) →
        b.assemble first headers serialize = some p → p.ret = 0 → p.Assembled first m) ↔
      OutPacket.SafeChecked b.writepos.pos (OutPacket.textLength first headers) m.length) := by
  obtain ⟨hreserve, hread, hsize, h, q, hstart, hbody, hh, hroom⟩ :=
    WriteBuffer.hole_bodyBuffer hempty hidx hpos
  have hm : maxHeaderSize = 1024 := rfl
  have hd : defaultBufferSize = 524288 := rfl
  rw [WriteBuffer.forall_assemble_iff hreserve hstart hbody,
    WriteBuffer.forall_assemble_iff hreserve hstart hbody]
  -- a run of protobuf that gives a part of the last piece back when it can
  have hrun : (b.writepos.pos = 0 ∨ m.length
      < OutPacket.bodyPieces b.writepos.pos * defaultBufferSize + b.writepos.pos) →
      ∃ c n, b.bodyBuffer.Serializes m (true, c) ∧
        b.bodyBuffer.Filled c ((h + 1) % maxBufferPieces) n m ∧
        b.bodyBuffer.Lands (OutPacket.bodyPieces b.writepos.pos) n m.length ∧
        (OutPacket.BacksOver b.writepos.pos m.length → n ≠ m.length) := by
    intro hlen
    obtain ⟨c, n, hserial, hc, hlands, hback⟩ :=
      WriteBuffer.exists_serializes (m := m) hh.toAligned (by rw [hread]; exact hlen)
    refine ⟨c, n, hserial, hc, hlands, ?_⟩
    intro hover
    have hcut : ¬ b.writepos.pos + maxHeaderSize ≤ defaultBufferSize := Nat.not_le.mpr hover.1
    rw [OutPacket.bodyPieces, if_neg hcut, hread, hsize, if_neg hcut] at hback
    have := hback hover.2.1 hover.2.2
    omega
  have hcases := fun c n =>
    @WriteBuffer.putHeader_cases b hpos first m headers c h q n hread hsize hh
  rw [OutPacket.Safe, OutPacket.SafeChecked, ← hroom]
  constructor
  · constructor
    · intro hall
      by_contra hunsafe
      obtain ⟨hlen, hbad⟩ := not_or.mp hunsafe
      obtain ⟨c, n, hserial, hc, hlands, hback⟩ := hrun (by omega)
      have hright := hall c hserial
      obtain ⟨hn, hmeets, hiff, -⟩ | ⟨-, -, hwrong, -⟩ | ⟨-, hwrong, -⟩ :=
        hcases c n hc hlands (by omega)
      · exact hbad ⟨hiff.mp hright, hmeets, fun hover => hback hover hn⟩
      · exact hwrong hright
      · exact hwrong hright
    · intro hsafe c hserial
      obtain ⟨hlen, n, hc, hlands⟩ := hserial.lands hh.toAligned
      rw [hread] at hlen
      obtain ⟨hshort, hmeets, hover⟩ := hsafe.resolve_left fun hlong => by omega
      obtain ⟨-, -, hiff, -⟩ | ⟨-, hback, -⟩ | ⟨hmeet, -⟩ := hcases c n hc hlands hlen
      · exact hiff.mpr hshort
      · exact absurd hback hover
      · exact absurd hmeet hmeets
  · constructor
    · intro hall
      constructor
      · intro hmeets
        obtain ⟨c, n, hserial, hc, hlands, -⟩ := hrun (Or.inl hmeets.1)
        obtain ⟨-, hno, -⟩ | ⟨-, hover, -⟩ | ⟨-, hwrong, hret⟩ :=
          hcases c n hc hlands (Or.inl hmeets.1)
        · exact absurd hmeets hno
        · have := hover.1
          have := hmeets.1
          omega
        · exact Nat.le_of_not_lt fun hlt => hwrong (hall c hserial (hret.mpr hlt))
      · intro hover
        have hcut : ¬ b.writepos.pos + maxHeaderSize ≤ defaultBufferSize :=
          Nat.not_le.mpr hover.1
        have hlen : b.writepos.pos = 0 ∨ m.length
            < OutPacket.bodyPieces b.writepos.pos * defaultBufferSize + b.writepos.pos := by
          rw [OutPacket.bodyPieces, if_neg hcut]
          have := hover.2.2
          omega
        obtain ⟨c, n, hserial, hc, hlands, hback⟩ := hrun hlen
        obtain ⟨hn, -⟩ | ⟨-, -, hwrong, hret⟩ | ⟨hmeets, -⟩ := hcases c n hc hlands hlen
        · exact absurd hn (hback hover)
        · exact Nat.le_of_not_lt fun hlt => hwrong (hall c hserial (hret.mpr hlt))
        · have := hover.1
          have := hmeets.1
          omega
    · rintro ⟨hmeets, hover⟩ c hserial hzero
      obtain ⟨hlen, n, hc, hlands⟩ := hserial.lands hh.toAligned
      rw [hread] at hlen
      obtain ⟨-, -, hiff, hret⟩ | ⟨-, hback, -, hret⟩ | ⟨hmeet, -, hret⟩ :=
        hcases c n hc hlands hlen
      · exact hiff.mpr (hret.mp hzero)
      · exact absurd (hret.mp hzero) (Nat.not_lt.mpr (hover hback))
      · exact absurd (hret.mp hzero) (Nat.not_lt.mpr (hmeets hmeet))

/-- Three bytes into a fresh buffer. -/
theorem assemble_init :
    ((∀ serialize p, WriteBuffer.init.bodyBuffer.Serializes [1, 2, 3]
          (serialize WriteBuffer.init.bodyBuffer) →
        WriteBuffer.init.assemble (ascii "POST /s.m HTTP/1.1\r\n") ∅ serialize = some p →
          p.Assembled (ascii "POST /s.m HTTP/1.1\r\n") [1, 2, 3]) ↔
      OutPacket.Safe 0 (OutPacket.textLength (ascii "POST /s.m HTTP/1.1\r\n") ∅) 3) ∧
    ((∀ serialize p, WriteBuffer.init.bodyBuffer.Serializes [1, 2, 3]
          (serialize WriteBuffer.init.bodyBuffer) →
        WriteBuffer.init.assemble (ascii "POST /s.m HTTP/1.1\r\n") ∅ serialize = some p →
          p.ret = 0 → p.Assembled (ascii "POST /s.m HTTP/1.1\r\n") [1, 2, 3]) ↔
      OutPacket.SafeChecked 0 (OutPacket.textLength (ascii "POST /s.m HTTP/1.1\r\n") ∅) 3) :=
  assemble_iff (b := WriteBuffer.init) rfl (by decide) (by decide)
    (ascii "POST /s.m HTTP/1.1\r\n") ∅ [1, 2, 3]

/-- Fifteen pieces full of bytes into a fresh buffer, whose positions meet then. -/
theorem not_assemble :
    ¬ ∀ (b : WriteBuffer) (first m : Bytes) (headers : Headers)
      (serialize : WriteBuffer → Bool × WriteBuffer) (p : OutPacket), b.isEmpty →
      b.writepos.idx < maxBufferPieces → b.writepos.pos < defaultBufferSize →
      b.bodyBuffer.Serializes m (serialize b.bodyBuffer) →
      b.assemble first headers serialize = some p → p.ret = 0 → p.Assembled first m := by
  intro hall
  obtain ⟨hreserve, hread, hsize, h, q, hstart, hbody, hh, hroom⟩ :=
    WriteBuffer.hole_bodyBuffer (b := WriteBuffer.init) rfl (by decide) (by decide)
  have hlen : (List.replicate (15 * defaultBufferSize) (0 : UInt8)).length
      = 15 * defaultBufferSize := List.length_replicate
  obtain ⟨c, n, hserial, hc, hlands, -⟩ := WriteBuffer.exists_serializes
    (m := List.replicate (15 * defaultBufferSize) 0) hh.toAligned (Or.inl (by rw [hread]; rfl))
  have hgood := (@WriteBuffer.forall_assemble_iff _ (ascii "POST /s.m HTTP/1.1\r\n") _ ∅ h q
    hreserve hstart hbody fun p => p.ret = 0 → p.Assembled (ascii "POST /s.m HTTP/1.1\r\n")
      (List.replicate (15 * defaultBufferSize) 0)).mp
    (fun serialize p hs hp => hall WriteBuffer.init _ _ ∅ serialize p rfl (by decide) (by decide)
      hs hp) c hserial
  obtain ⟨-, hno, -⟩ | ⟨-, hover, -⟩ | ⟨-, hwrong, hret⟩ :=
    @WriteBuffer.putHeader_cases WriteBuffer.init (by decide)
      (ascii "POST /s.m HTTP/1.1\r\n") _ ∅ c h q n hread hsize hh hc hlands (Or.inl rfl)
  · exact hno ⟨rfl, hlen.ge⟩
  · exact absurd hover.1 (by decide)
  · refine hwrong (hgood (hret.mpr ?_))
    rw [hlen, hroom]
    decide +kernel

/-! ## The callers -/

/-- What `SerializeHeader` prints first. -/
def HttpRequestHeader.firstLine (h : HttpRequestHeader) : Bytes :=
  cstr h.method ++ ascii " " ++ cstr h.path ++ ascii " " ++ cstr h.version ++ ascii "\r\n"

def HttpReponseHeader.firstLine (h : HttpReponseHeader) : Bytes :=
  cstr h.version ++ ascii " " ++ decimal h.status ++ ascii " " ++ cstr h.statusMsg ++ ascii "\r\n"

namespace WriteBuffer

/-- The two tests that `assemble` passes. -/
lemma assemble_eq_some {b : WriteBuffer} {first : Bytes} {headers : Headers}
    {serialize : WriteBuffer → Bool × WriteBuffer} {p : OutPacket}
    (h : b.assemble first headers serialize = some p) :
    (b.reset.reserve maxHeaderSize).1 = true ∧ (serialize b.bodyBuffer).1 = true ∧
      p = (serialize b.bodyBuffer).2.putHeader first headers b.holeBuffer.writepos
        b.bodyBuffer.writepos := by
  rw [assemble] at h
  split at h
  · exact absurd h (by simp)
  split at h
  · exact absurd h (by simp)
  · next hreserve hok =>
    exact ⟨Bool.eq_true_of_not_eq_false hreserve, Bool.eq_true_of_not_eq_false hok,
      (Option.some.inj h).symm⟩

end WriteBuffer

/-- The header that `SendToServer` prepares. -/
def RpcChannelImpl.requestHeader {Req : Type} (env : ChannelEnv Req) (id : ℕ)
    (w : ChannelWorld Req) : HttpRequestHeader :=
  (w.reqheader.reset.setPath (ascii "/" ++ (w.owner.cntl id).method)).setSeq env.generateSeq

namespace RpcChannelImpl

variable {Req : Type}

lemma putRequest_putHeader (id : ℕ) (packetStart bodyStart : Iterator) (w : ChannelWorld Req) :
    (putRequest id packetStart bodyStart w).stream.writebuf
        = (w.stream.writebuf.putHeader w.reqheader.firstLine w.reqheader.headers packetStart
          bodyStart).buf ∧
      ((putRequest id packetStart bodyStart w).owner.cntl id).reqPackSize
        = (w.stream.writebuf.putHeader w.reqheader.firstLine w.reqheader.headers packetStart
          bodyStart).size := by
  refine ⟨rfl, ?_⟩
  simp only [putRequest, modifyCntl, World.owner_modifyStream, World.owner_modifyOwner,
    Function.update_self]
  rfl

/-- `SendToServer` assembles a packet with it. -/
theorem sendToServer_assemble (env : ChannelEnv Req) (id : ℕ) (w : ChannelWorld Req) {p : OutPacket}
    (hp : w.stream.writebuf.assemble (requestHeader env id w).firstLine
      (requestHeader env id w).headers (env.serialize (w.owner.cntl id).request) = some p) :
    (sendToServer env id w).stream.writebuf = p.buf ∧
      ((sendToServer env id w).owner.cntl id).reqPackSize = p.size := by
  obtain ⟨hreserve, hok, rfl⟩ := WriteBuffer.assemble_eq_some hp
  have hcntl : (w.owner.modifyCntl id fun c => { c with seq := env.generateSeq }).cntl id
      = { w.owner.cntl id with seq := env.generateSeq } := Function.update_self ..
  have hrequest := congrArg RpcClientController.request hcntl
  have hmethod := congrArg RpcClientController.method hcntl
  rw [requestHeader, ← hmethod, ← hrequest]
  rw [← hrequest] at hok
  rw [sendToServer]
  dsimp only
  split
  · next hfull => exact absurd (hreserve.symm.trans hfull) Bool.noConfusion
  split
  · next hfail => exact absurd (hok.symm.trans hfail) Bool.noConfusion
  · exact putRequest_putHeader id _ _ _

end RpcChannelImpl

/-- Headers with different keys can be set in either order. -/
lemma insert_comm (headers : Headers) {k k' : Bytes} (v v' : Bytes) (hne : k ≠ k') :
    (headers.insert k v).insert k' v' = (headers.insert k' v').insert k v := by
  refine Std.ExtTreeMap.ext_getElem? fun a => ?_
  simp only [Std.ExtTreeMap.getElem?_insert, Std.LawfulEqCmp.compare_eq_iff_eq]
  by_cases hk : k = a
  · rw [if_pos hk, if_pos hk, if_neg fun hk' => hne (hk.trans hk'.symm)]
  · rw [if_neg hk, if_neg hk]

/-- The header that `SendMessage` prepares, with the type of a response. -/
def ServerConnect.responseHeader {Req Res : Type} (w : ServerWorld Req Res) : HttpReponseHeader :=
  w.resheader.setHeader (ascii "Content-Type") (ascii " application/x-protobuf")

namespace ServerConnect

variable {Req Res : Type}

lemma putResponse_putHeader (id : ℕ) (packetStart bodyStart : Iterator)
    (w : ServerWorld Req Res) :
    (putResponse id packetStart bodyStart w).stream.writebuf
        = (w.stream.writebuf.putHeader (responseHeader w).firstLine (responseHeader w).headers
          packetStart bodyStart).buf ∧
      ((putResponse id packetStart bodyStart w).owner.cntl id).resPackSize
        = (w.stream.writebuf.putHeader (responseHeader w).firstLine (responseHeader w).headers
          packetStart bodyStart).size := by
  -- the length is set before the type in the source
  have hcomm := fun n : ℕ => @insert_comm w.resheader.headers HttpHeader.contentLengthKey
    (ascii "Content-Type") (decimal n) (ascii " application/x-protobuf") (by decide)
  have hque : ∀ n : ℕ, ((w.resheader.setContentLength n).setHeader (ascii "Content-Type")
      (ascii " application/x-protobuf")).serializeHeader w.stream.writebuf.que packetStart
      = serializeHeader (responseHeader w).firstLine
        ((responseHeader w).headers.insert HttpHeader.contentLengthKey (decimal (n % 2 ^ 32)))
        w.stream.writebuf.que packetStart :=
    fun n => congrArg (fun hs => serializeHeader (responseHeader w).firstLine hs
      w.stream.writebuf.que packetStart) (hcomm (n % 2 ^ 32))
  constructor
  · exact congrArg (fun r : ℤ × Que => { w.stream.writebuf with que := r.2 }) (hque _)
  · simp only [putResponse, modifyCntl, record, World.owner_modifyStream, World.owner_modifyOwner,
      Function.update_self]
    exact congrArg (fun r : ℤ × Que => UInt32.ofInt (Iterator.sub r.2 _ packetStart)) (hque _)

/-- `SendMessage` assembles a packet with it, in the part behind `Reset`. -/
theorem sendResponse_assemble (env : ServerEnv Req Res) (id : ℕ) (response : Res)
    (w : ServerWorld Req Res) {p : OutPacket}
    (hp : w.stream.writebuf.assemble (responseHeader w).firstLine (responseHeader w).headers
      (env.serialize response) = some p) :
    (sendResponse env id response (w.modifyBuf (·.reset))).stream.writebuf = p.buf ∧
      ((sendResponse env id response (w.modifyBuf (·.reset))).owner.cntl id).resPackSize
        = p.size := by
  obtain ⟨hreserve, hok, rfl⟩ := WriteBuffer.assemble_eq_some hp
  rw [sendResponse]
  dsimp only
  split
  · next hfull => exact absurd (hreserve.symm.trans hfull) Bool.noConfusion
  split
  · next hfail => exact absurd (hok.symm.trans hfail) Bool.noConfusion
  · exact putResponse_putHeader id _ _ _

end ServerConnect

end MTRpc
