import MTRpc.Lib.Exec
import MTRpc.Mio.BufferRing

/-!
# Runs of the buffers

A read buffer is filled by `readv` and emptied by the header parser and by protobuf; a
write buffer is filled by the header and body serialisers and by protobuf and emptied by
`writev`.  Here every operation of the program on a buffer is a step, and the buffers that
the program can reach are those at the end of a run.

The steps of a read buffer keep it a ring whose pieces all have the default size
(`ReadBuffer.Reachable.isRing`); of a write buffer only the indices are needed here
(`WriteBuffer.Reachable.idx_lt`).  The two results are the exact conditions under which the
scatter/gather arrays are long enough (`iovec_inArray_iff`) and under which receiving
appends to the unread bytes (`recive_appends_iff`).
-/

namespace MTRpc

open PieceRing (Shape between cells)

/-- The ring of a buffer whose pieces all have the default size. -/
def pieces : Shape where
  n := maxBufferPieces
  size := fun _ => defaultBufferSize
  n_pos := maxBufferPieces_pos
  size_pos := fun _ _ => by decide

lemma cap_pieces : pieces.cap = maxBufferPieces * defaultBufferSize := by
  rw [Shape.cap, Shape.before]
  exact (Finset.sum_const_nat fun _ _ => rfl).trans (by rw [Finset.card_range]; rfl)

/-! ## Runs of a read buffer -/

/-- What the program does to a read buffer. -/
inductive ReadOp
  /-- A round of `OnReadable`: `readv` stores the bytes, `MoveRecivePtr` counts them. -/
  | recive (bs : Bytes)
  /-- The header parser consumes a byte. -/
  | advance
  /-- protobuf takes a block. -/
  | next
  | backUp (count : ℕ)
  | skip (count : ℕ)
  | beginPacket
  | reset

/-- The steps of a read buffer.  `readv` fills at most what was offered, and the parser
advances only while it has not reached the write position. -/
def ReadBuffer.Step (b : ReadBuffer) : ReadOp → ReadBuffer → Prop
  | .recive bs, b' => ∃ iov, b.getReciveBuffer = some iov ∧ 0 < bs.length ∧
      bs.length ≤ (iov.flatMap Iovec.cells).length ∧ b' = b.recive bs
  | .advance, b' => ¬ b.isEmpty ∧ b' = b.advance
  | .next, b' => ∃ d, b.next = some (d, b')
  | .backUp count, b' => b' = b.backUp count
  | .skip count, b' => b' = b.skip count
  | .beginPacket, b' => b' = b.beginPacket
  | .reset, b' => b' = b.reset

/-- The read buffers that a run of the program reaches. -/
def ReadBuffer.Reachable (b : ReadBuffer) : Prop :=
  ∃ h, Exec.Run ReadBuffer.Step ReadBuffer.init h b

namespace Que

lemma size_setSize (que : Que) (i n j : ℕ) :
    (que.setSize i n j).size = if j = i then n else (que j).size := by
  by_cases h : j = i
  · subst h; simp [setSize]
  · simp [setSize, h]

/-- Giving pieces the default size keeps pieces of the default size. -/
lemma fits_resize {que : Que} (hf : que.Fits pieces) (is : List ℕ) :
    (is.foldl (fun que i => que.setSize i defaultBufferSize) que).Fits pieces := by
  induction is generalizing que with
  | nil => exact hf
  | cons i is ih =>
    refine ih ⟨rfl, fun j hj => ?_⟩
    rw [size_setSize]
    split
    · rfl
    · exact hf.size_eq j hj

end Que

namespace ReadBuffer

/-- Backing up over pieces of the default size ends inside a piece. -/
lemma valid_borrow {que : Que} (hf : que.Fits pieces) {fuel idx : ℕ} {pos : ℤ}
    (hidx : idx < maxBufferPieces) (hpos : pos < defaultBufferSize) (hfuel : -pos ≤ fuel) :
    pieces.Valid (Iterator.borrow que fuel idx pos) := by
  have hd : defaultBufferSize = 524288 := rfl
  induction fuel generalizing idx pos with
  | zero => exact ⟨hidx, show pos.toNat < defaultBufferSize by omega⟩
  | succ fuel ih =>
    rw [Iterator.borrow]
    by_cases h : pos < 0
    · have hsize : (que idx).size = defaultBufferSize := (hf.size_eq idx hidx).symm
      rw [if_pos h, hsize]
      exact ih (Nat.mod_lt _ (by decide)) (by omega) (by push_cast at hfuel; omega)
    · rw [if_neg h]
      exact ⟨hidx, show pos.toNat < defaultBufferSize by omega⟩

lemma isRing_init : init.IsRing pieces where
  n_eq := rfl
  size_eq := fun _ _ => rfl
  size_le := fun _ _ => le_refl _
  read_valid := by decide
  write_valid := by decide

variable {b b' : ReadBuffer}

/-- A step that moves the read position to a cell keeps the ring. -/
lemma isRing_readpos (hr : b.IsRing pieces) {it : Iterator} (hit : pieces.Valid it) :
    IOBuffer.IsRing pieces { b.toIOBuffer with readpos := it } where
  toFits := hr.toFits
  size_le := hr.size_le
  read_valid := hit
  write_valid := hr.write_valid

/-- Every step keeps the read buffer a ring with pieces of the default size. -/
lemma Step.isRing {o : ReadOp} (hr : b.IsRing pieces) (h : b.Step o b') :
    b'.IsRing pieces := by
  cases o with
  | recive bs =>
    obtain ⟨iov, hiov, -, -, rfl⟩ := h
    exact IOBuffer.isRing_recive hr hiov bs
  | advance =>
    obtain ⟨-, rfl⟩ := h
    refine isRing_readpos hr ?_
    rw [Iterator.incr_eq hr.toFits hr.read_valid]
    exact Shape.valid_next hr.read_valid
  | next =>
    obtain ⟨d, h⟩ := h
    rw [next] at h
    split at h
    · exact absurd h (by simp)
    · split at h
      · next hin =>
        -- the block ends at the write position
        obtain ⟨-, rfl⟩ := by simpa using h
        have hw : (⟨b.readpos.idx, b.writepos.pos⟩ : Iterator) = b.writepos := by rw [hin.1]
        exact isRing_readpos hr (by rw [hw]; exact hr.write_valid)
      · obtain ⟨-, rfl⟩ := by simpa using h
        exact isRing_readpos hr (Shape.valid_start (Nat.mod_lt _ (by decide)))
  | backUp count =>
    subst h
    refine isRing_readpos hr (valid_borrow hr.toFits hr.read_valid.1 ?_ ?_)
    · have : b.readpos.pos < defaultBufferSize := hr.read_valid.2
      omega
    · rw [show maxBufferPieces = 16 from rfl]
      push_cast
      omega
  | skip count =>
    subst h
    refine isRing_readpos hr ?_
    rw [Iterator.add_eq hr.toFits hr.read_valid]
    exact Shape.valid_iterate hr.read_valid count
  | beginPacket =>
    subst h
    exact hr
  | reset =>
    subst h
    change (b.toIOBuffer.reset).IsRing pieces
    rw [IOBuffer.reset]
    split
    · exact hr
    · split
      · exact hr
      · exact { toFits := Que.fits_resize hr.toFits _
                size_le := hr.size_le
                read_valid := hr.read_valid
                write_valid := hr.write_valid }

/-- Every reachable read buffer is a ring with pieces of the default size. -/
theorem Reachable.isRing (h : b.Reachable) : b.IsRing pieces := by
  obtain ⟨_, hrun⟩ := h
  exact hrun.invariant_all (fun b => b.IsRing pieces) isRing_init
    (fun _ _ _ hr hst => hst.isRing hr)

lemma reachable_init : init.Reachable := ⟨[], .nil⟩

lemma Reachable.step {o : ReadOp} (h : b.Reachable) (hst : b.Step o b') : b'.Reachable := by
  obtain ⟨l, hrun⟩ := h
  exact ⟨_, hrun.snoc hst⟩

end ReadBuffer

/-! ## Runs of a write buffer -/

/-- What the program does to a write buffer. -/
inductive WriteOp
  | reset
  | reserve (size : ℕ)
  | alignWritePos
  | beginPacket
  /-- protobuf takes a block. -/
  | next
  | backUp (count : ℕ)
  /-- A serialiser or protobuf writes bytes. -/
  | fill (its : List Iterator) (bs : Bytes)
  /-- `SerializeHeader` gives a piece the size of the bytes it wrote. -/
  | truncate (idx size : ℕ)
  /-- `SerializeBody` moves the write position, and a failed serialisation puts it back. -/
  | place (it : Iterator)
  /-- `writev` has sent bytes. -/
  | send (size : ℕ)

/-- The steps of a write buffer. -/
def WriteBuffer.Step (b : WriteBuffer) : WriteOp → WriteBuffer → Prop
  | .reset, b' => b' = b.reset
  | .reserve size, b' => b' = (b.reserve size).2
  | .alignWritePos, b' => b' = b.alignWritePos
  | .beginPacket, b' => b' = b.beginPacket
  | .next, b' => ∃ d, b.next = some (d, b')
  | .backUp count, b' => b' = b.backUp count
  | .fill its bs, b' => b' = { b with que := b.que.storeAll its bs }
  | .truncate idx size, b' => b' = { b with que := b.que.setSize idx size }
  | .place it, b' => it.idx < maxBufferPieces ∧ b' = { b with writepos := it }
  | .send size, b' => b' = b.moveSendPtr size

/-- The write buffers that a run of the program reaches. -/
def WriteBuffer.Reachable (b : WriteBuffer) : Prop :=
  ∃ h, Exec.Run WriteBuffer.Step WriteBuffer.init h b

/-- Both positions are in pieces of the buffer. -/
def IOBuffer.IdxLt (b : IOBuffer) : Prop :=
  b.readpos.idx < maxBufferPieces ∧ b.writepos.idx < maxBufferPieces

namespace Iterator

variable {que : Que}

lemma idx_carry_lt (fuel : ℕ) {it : Iterator} (h : it.idx < maxBufferPieces) :
    (carry que fuel it).idx < maxBufferPieces := by
  induction fuel generalizing it with
  | zero => exact h
  | succ fuel ih =>
    rw [carry]
    split
    · exact ih (Nat.mod_lt _ (by decide))
    · exact h

lemma idx_borrow_lt (fuel : ℕ) {idx : ℕ} (pos : ℤ) (h : idx < maxBufferPieces) :
    (borrow que fuel idx pos).idx < maxBufferPieces := by
  induction fuel generalizing idx pos with
  | zero => exact h
  | succ fuel ih =>
    rw [borrow]
    split
    · exact ih _ (Nat.mod_lt _ (by decide))
    · exact h

end Iterator

namespace WriteBuffer

variable {b b' : WriteBuffer}

lemma Step.idx_lt {op : WriteOp} (hb : b.IdxLt) (h : b.Step op b') : b'.IdxLt := by
  have hmod : ∀ i, (i + 1) % maxBufferPieces < maxBufferPieces := fun i =>
    Nat.mod_lt _ (by decide)
  cases op with
  | reset =>
    subst h
    change (b.toIOBuffer.reset).IdxLt
    rw [IOBuffer.reset]
    split
    · exact hb
    · split <;> exact hb
  | reserve size =>
    subst h
    change ((b.toIOBuffer.reserve size).2).IdxLt
    rw [IOBuffer.reserve]
    split
    · exact hb
    · split
      · exact ⟨hb.1, hmod _⟩
      · exact hb
  | alignWritePos =>
    subst h
    exact ⟨hb.1, hmod _⟩
  | beginPacket =>
    subst h
    exact hb
  | next =>
    obtain ⟨d, h⟩ := h
    rw [next] at h
    split at h
    · exact absurd h (by simp)
    · split at h
      · obtain ⟨-, rfl⟩ := by simpa using h
        exact ⟨hb.1, hb.2⟩
      · obtain ⟨-, rfl⟩ := by simpa using h
        exact ⟨hb.1, hmod _⟩
  | backUp count =>
    subst h
    exact ⟨hb.1, Iterator.idx_borrow_lt _ _ hb.2⟩
  | fill its bs =>
    subst h
    exact hb
  | truncate idx size =>
    subst h
    exact hb
  | place it =>
    obtain ⟨hit, rfl⟩ := h
    exact ⟨hb.1, hit⟩
  | send size =>
    subst h
    exact ⟨Iterator.idx_carry_lt _ hb.1, hb.2⟩

theorem Reachable.idx_lt (h : b.Reachable) : b.IdxLt := by
  obtain ⟨_, hrun⟩ := h
  exact hrun.invariant_all (fun b => b.IdxLt) ⟨by decide, by decide⟩
    (fun _ _ _ hb hst => hst.idx_lt hb)

end WriteBuffer

/-! ## The scatter/gather arrays -/

/-- The buffers of the program: read buffers and write buffers. -/
def IOBuffer.Reachable (b : IOBuffer) : Prop :=
  (∃ r : ReadBuffer, r.Reachable ∧ r.toIOBuffer = b) ∨
    ∃ w : WriteBuffer, w.Reachable ∧ w.toIOBuffer = b

lemma IOBuffer.Reachable.idx_lt {b : IOBuffer} (h : b.Reachable) : b.IdxLt := by
  rcases h with ⟨r, hr, rfl⟩ | ⟨w, hw, rfl⟩
  · exact ⟨hr.isRing.read_valid.1, hr.isRing.write_valid.1⟩
  · exact hw.idx_lt

/-- The entries go to the indices `0, 1, …` of an array of `MAX_BUFFER_PIECES` entries, and
their number is reported as `iov_num`; a call that returns `false` stores none. -/
def InArray (iov : Option (List Iovec)) : Prop :=
  (∀ i < (iov.getD []).length, i < maxBufferPieces) ∧ (iov.getD []).length ≤ maxBufferPieces

/-- The loop between two pieces visits all others, or stops short of the second piece. -/
lemma length_tidxLoop {i e : ℕ} (hi : i < maxBufferPieces) (he : e < maxBufferPieces) :
    (tidxLoop i e).length = if i < e then e - i - 1 else e + 15 - i := by
  have hi' : i < 16 := hi
  have he' : e < 16 := he
  have hg : PieceRing.gap 16 ((i + 1) % 16) e = if i < e then e - i - 1 else e + 15 - i := by
    rw [PieceRing.gap]
    split <;> split <;> omega
  have hfuel : PieceRing.gap 16 ((i + 1) % 16) e < 16 := by
    rw [hg]
    split <;> omega
  rw [← hg]
  exact Shape.length_between (S := pieces) (Nat.mod_lt _ (by decide)) he hfuel

namespace IOBuffer

variable {b : IOBuffer}

lemma inArray_iff (iov : List Iovec) : InArray (some iov) ↔ iov.length ≤ maxBufferPieces := by
  constructor
  · intro h
    exact h.2
  · intro h
    exact ⟨fun i hi => lt_of_lt_of_le hi h, h⟩

lemma inArray_none : InArray none := ⟨by simp, by decide⟩

/-- `GetReciveBuffer` stays inside the array unless both positions share a piece, the write
position is not before the read position and the read position is not at its start. -/
lemma getReciveBuffer_inArray (hb : b.IdxLt) :
    InArray b.getReciveBuffer ↔
      ¬ (b.readpos.idx = b.writepos.idx ∧ 0 < b.readpos.pos ∧ b.readpos.pos ≤ b.writepos.pos) := by
  have hn : maxBufferPieces = 16 := rfl
  have hlen := length_tidxLoop hb.2 hb.1
  have hread := hb.1
  have hwrite := hb.2
  by_cases hfull : b.isFull
  · rw [getReciveBuffer_eq_none.mpr hfull]
    refine iff_of_true inArray_none fun hc => ?_
    have := hfull.2
    omega
  · simp only [getReciveBuffer, if_neg hfull]
    by_cases hin : b.readpos.idx = b.writepos.idx ∧ b.writepos.pos < b.readpos.pos
    · rw [if_pos hin, inArray_iff]
      exact iff_of_true (by simp [hn]) fun hc => by omega
    · rw [if_neg hin, inArray_iff, List.length_append, List.length_cons, List.length_map, hlen]
      by_cases h0 : 0 < b.readpos.pos
      · simp only [if_pos h0, List.length_singleton]
        split <;> omega
      · simp only [if_neg h0, List.length_nil]
        split <;> omega

/-- `GetSendBuffer` stays inside the array unless the unsent bytes wrap around and end in
the piece in which they start. -/
lemma getSendBuffer_inArray (hb : b.IdxLt) :
    InArray b.getSendBuffer ↔
      ¬ (b.readpos.idx = b.writepos.idx ∧ 0 < b.writepos.pos ∧
        b.writepos.pos < b.readpos.pos) := by
  have hn : maxBufferPieces = 16 := rfl
  have hlen := length_tidxLoop hb.1 hb.2
  have hread := hb.1
  have hwrite := hb.2
  simp only [getSendBuffer, getSendBufferTo]
  by_cases heq : b.writepos = b.readpos
  · rw [if_pos heq]
    refine iff_of_true inArray_none fun hc => ?_
    rw [heq] at hc
    omega
  · have hpos : b.writepos.idx = b.readpos.idx → b.writepos.pos ≠ b.readpos.pos :=
      fun hi hp => heq (PieceRing.Pos.ext hi hp)
    rw [if_neg heq]
    by_cases hin : b.writepos.idx = b.readpos.idx ∧ b.readpos.pos < b.writepos.pos
    · rw [if_pos hin, inArray_iff]
      exact iff_of_true (by simp [hn]) fun hc => by omega
    · rw [if_neg hin, inArray_iff, List.length_append, List.length_cons, List.length_map, hlen]
      by_cases h0 : 0 < b.writepos.pos
      · simp only [if_pos h0, List.length_singleton]
        split <;> omega
      · simp only [if_neg h0, List.length_nil]
        split <;> omega

end IOBuffer

/-- **When the scatter/gather arrays are long enough.**  In every reachable buffer the two
gathering functions stay inside an array of `MAX_BUFFER_PIECES` entries exactly when the
positions are not in the configuration that needs one entry more. -/
theorem iovec_inArray_iff {b : IOBuffer} (h : b.Reachable) :
    (InArray b.getReciveBuffer ↔
      ¬ (b.readpos.idx = b.writepos.idx ∧ 0 < b.readpos.pos ∧
        b.readpos.pos ≤ b.writepos.pos)) ∧
    (InArray b.getSendBuffer ↔
      ¬ (b.readpos.idx = b.writepos.idx ∧ 0 < b.writepos.pos ∧
        b.writepos.pos < b.readpos.pos)) :=
  ⟨IOBuffer.getReciveBuffer_inArray h.idx_lt, IOBuffer.getSendBuffer_inArray h.idx_lt⟩

/-- The fresh read buffer with one byte received. -/
def oneByteRecived : ReadBuffer := ReadBuffer.init.recive [71]

/-- The buffer of a fresh connection that has received one byte and parsed it. -/
def oneByteParsed : ReadBuffer := oneByteRecived.advance

lemma used_init : ReadBuffer.init.used pieces = 0 :=
  (IOBuffer.isEmpty_iff ReadBuffer.isRing_init).mp (by decide)

lemma oneByteRecived_writepos : oneByteRecived.writepos = ⟨0, 1⟩ := by
  change (ReadBuffer.init.toIOBuffer.recive [71]).writepos = _
  rw [IOBuffer.writepos_recive ReadBuffer.isRing_init rfl, used_init]
  rfl

lemma step_oneByteRecived : ReadBuffer.init.Step (.recive [71]) oneByteRecived := by
  refine ⟨_, rfl, by decide, ?_, rfl⟩
  rw [IOBuffer.length_offer ReadBuffer.isRing_init rfl, used_init, cap_pieces]
  decide

lemma oneByteParsed_readpos : oneByteParsed.readpos = ⟨0, 1⟩ := by
  have hr : oneByteRecived.IsRing pieces := step_oneByteRecived.isRing ReadBuffer.isRing_init
  rw [oneByteParsed, ReadBuffer.readpos_advance, Iterator.incr_eq hr.toFits hr.read_valid]
  rfl

lemma oneByteParsed_writepos : oneByteParsed.writepos = ⟨0, 1⟩ := by
  rw [oneByteParsed, ReadBuffer.writepos_advance]
  exact oneByteRecived_writepos

lemma reachable_oneByteParsed : oneByteParsed.Reachable := by
  have hadvance : oneByteRecived.Step .advance oneByteParsed := by
    refine ⟨?_, rfl⟩
    intro hempty
    have heq : oneByteRecived.readpos = oneByteRecived.writepos := hempty
    rw [oneByteRecived_writepos] at heq
    exact absurd heq (by decide)
  exact (ReadBuffer.reachable_init.step step_oneByteRecived).step hadvance

/-- There `GetReciveBuffer` stores 17 entries. -/
theorem iovec_not_inArray :
    ¬ ∀ b : IOBuffer, b.Reachable → InArray b.getReciveBuffer ∧ InArray b.getSendBuffer := by
  intro h
  have hreach : IOBuffer.Reachable oneByteParsed.toIOBuffer :=
    Or.inl ⟨oneByteParsed, reachable_oneByteParsed, rfl⟩
  have hbad := (IOBuffer.getReciveBuffer_inArray hreach.idx_lt).mp (h _ hreach).1
  rw [oneByteParsed_readpos, oneByteParsed_writepos] at hbad
  exact hbad (by decide)

/-- At the start nothing is stored and both arrays suffice. -/
theorem iovec_inArray_init :
    (InArray IOBuffer.init.getReciveBuffer ↔
      ¬ (IOBuffer.init.readpos.idx = IOBuffer.init.writepos.idx ∧
        0 < IOBuffer.init.readpos.pos ∧
        IOBuffer.init.readpos.pos ≤ IOBuffer.init.writepos.pos)) ∧
    (InArray IOBuffer.init.getSendBuffer ↔
      ¬ (IOBuffer.init.readpos.idx = IOBuffer.init.writepos.idx ∧
        0 < IOBuffer.init.writepos.pos ∧
        IOBuffer.init.writepos.pos < IOBuffer.init.readpos.pos)) :=
  iovec_inArray_iff (Or.inl ⟨ReadBuffer.init, ReadBuffer.reachable_init, rfl⟩)

/-! ## Receiving -/

namespace ReadBuffer

/-- Receiving `bs` appends: the unread bytes are the old ones followed by `bs`,
`GetBufferUsed` grows by their number and the buffer is not empty. -/
def Appends (b : ReadBuffer) (bs : Bytes) : Prop :=
  (b.recive bs).unread = b.unread ++ bs ∧
    (b.recive bs).getBufferUsed = b.getBufferUsed + bs.length ∧ ¬ (b.recive bs).isEmpty

variable {b : ReadBuffer} (hr : b.IsRing pieces)

include hr

/-- A full buffer holds all bytes but one. -/
lemma used_of_isFull (hfull : b.isFull) : b.used pieces + 1 = pieces.cap := by
  have hlt := Shape.off_lt_cap hr.read_valid
  have hoff : pieces.off b.readpos = pieces.off b.writepos + 1 := by
    rw [Shape.off_eq, Shape.off_eq, hfull.1, ← hfull.2, Nat.add_assoc]
  rw [IOBuffer.used, Shape.dist, if_neg (by omega)]
  omega

/-- Receiving appends exactly when it leaves a byte free. -/
lemma appends_iff {iov : List Iovec} (hiov : b.getReciveBuffer = some iov) {bs : Bytes}
    (hpos : 0 < bs.length) (hle : bs.length ≤ (iov.flatMap Iovec.cells).length) :
    b.Appends bs ↔ b.getBufferUsed + bs.length < maxBufferPieces * defaultBufferSize := by
  have hr' := IOBuffer.isRing_recive hr hiov bs
  have hlen := IOBuffer.length_offer hr hiov
  have hlt := IOBuffer.used_lt hr
  rw [IOBuffer.getBufferUsed_eq hr, ← cap_pieces]
  constructor
  · rintro ⟨-, -, hne⟩
    by_contra hc
    exact hne (IOBuffer.recive_all hr hiov (by omega))
  · intro hfit
    obtain ⟨hused, hunread⟩ := IOBuffer.recive_spec hr hiov hfit
    refine ⟨hunread, ?_, ?_⟩
    · rw [IOBuffer.getBufferUsed_eq hr]
      exact (IOBuffer.getBufferUsed_eq hr').trans hused
    · intro hempty
      rw [show (b.recive bs).toIOBuffer = b.toIOBuffer.recive bs from rfl,
        IOBuffer.isEmpty_iff hr', hused] at hempty
      omega

end ReadBuffer

/-- **Receiving.**  What a reachable read buffer offers is disjoint from its unread bytes,
and receiving into the offer appends exactly as long as one byte of the ring stays free.
When nothing is offered that last byte is the only free one: with it the write position
would meet the read position. -/
theorem recive_appends_iff {b : ReadBuffer} (h : b.Reachable) :
    (∀ iov, b.getReciveBuffer = some iov →
      (iov.flatMap Iovec.cells).Disjoint b.unreadCells ∧
      ∀ bs : Bytes, 0 < bs.length → bs.length ≤ (iov.flatMap Iovec.cells).length →
        (b.Appends bs ↔
          b.getBufferUsed + bs.length < maxBufferPieces * defaultBufferSize)) ∧
    (b.getReciveBuffer = none →
      b.getBufferUsed + 1 = maxBufferPieces * defaultBufferSize ∧
        (b.moveRecivePtr 1).isEmpty) := by
  have hr := h.isRing
  refine ⟨fun iov hiov => ⟨IOBuffer.offer_disjoint hr hiov,
    fun bs hpos hle => ReadBuffer.appends_iff hr hiov hpos hle⟩, ?_⟩
  intro hnone
  have hall := ReadBuffer.used_of_isFull hr (IOBuffer.getReciveBuffer_eq_none.mp hnone)
  constructor
  · rw [IOBuffer.getBufferUsed_eq hr, hall, cap_pieces]
  · change b.readpos = Iterator.add b.que b.writepos 1
    have hstep := Function.iterate_add_apply pieces.next 1 (b.used pieces) b.readpos
    rw [Nat.add_comm, hall, Shape.iterate_cap hr.read_valid, IOBuffer.iterate_used hr] at hstep
    rw [Iterator.add_eq hr.toFits hr.write_valid]
    exact hstep

/-- A read that fills the whole offer of a fresh buffer leaves it empty. -/
theorem recive_not_appends :
    ¬ ∀ b : ReadBuffer, b.Reachable →
      (∀ iov, b.getReciveBuffer = some iov →
        (iov.flatMap Iovec.cells).Disjoint b.unreadCells ∧
        ∀ bs : Bytes, 0 < bs.length → bs.length ≤ (iov.flatMap Iovec.cells).length →
          b.Appends bs) ∧
      (b.getReciveBuffer = none →
        b.getBufferUsed + 1 = maxBufferPieces * defaultBufferSize ∧
          (b.moveRecivePtr 1).isEmpty) := by
  intro h
  have hr := ReadBuffer.isRing_init
  obtain ⟨iov, hiov⟩ : ∃ iov, ReadBuffer.init.getReciveBuffer = some iov := ⟨_, rfl⟩
  have hlen := IOBuffer.length_offer hr hiov
  have hused : ReadBuffer.init.used pieces = 0 := (IOBuffer.isEmpty_iff hr).mp (by decide)
  rw [hused, Nat.sub_zero, cap_pieces] at hlen
  have hbs : (List.replicate (maxBufferPieces * defaultBufferSize) (0 : UInt8)).length
      = maxBufferPieces * defaultBufferSize := List.length_replicate
  have happ := ((h ReadBuffer.init ReadBuffer.reachable_init).1 iov hiov).2
    (List.replicate (maxBufferPieces * defaultBufferSize) 0) (by rw [hbs]; decide)
    (by rw [hbs, hlen])
  refine happ.2.2 (IOBuffer.recive_all hr hiov ?_)
  rw [hused, hbs, Nat.zero_add, cap_pieces]

/-- The fresh read buffer. -/
theorem recive_appends_init :
    (∀ iov, ReadBuffer.init.getReciveBuffer = some iov →
      (iov.flatMap Iovec.cells).Disjoint ReadBuffer.init.unreadCells ∧
      ∀ bs : Bytes, 0 < bs.length → bs.length ≤ (iov.flatMap Iovec.cells).length →
        (ReadBuffer.init.Appends bs ↔
          ReadBuffer.init.getBufferUsed + bs.length < maxBufferPieces * defaultBufferSize)) ∧
    (ReadBuffer.init.getReciveBuffer = none →
      ReadBuffer.init.getBufferUsed + 1 = maxBufferPieces * defaultBufferSize ∧
        (ReadBuffer.init.moveRecivePtr 1).isEmpty) :=
  recive_appends_iff ReadBuffer.reachable_init

end MTRpc
