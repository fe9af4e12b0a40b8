import Mathlib.Algebra.Ring.Int.Defs
import MTRpc.Mio.BufferRuns
import MTRpc.Mio.Gather

/-!
# The write buffer as an output stream

protobuf serialises into a `WriteBuffer` by calls of `Next`, each of which hands out a block, and
gives back the end of the last block with `BackUp`.  `BeginPacket` and `ByteCount` are meant to
count what was written in between.

`Next` and a `BackUp` that is right keep the ring (`nexts_spec`, `Delivered`): the blocks are the
walk from the write position.  Three things go wrong otherwise.  `BeginPacket` records the read
position, so that `ByteCount` counts the unsent bytes too; `Next` leaves a byte free only when the
positions share a piece; and `BackUp` measures the piece that it leaves instead of the piece that
it enters.  `outputStream_iff` says when none of them does.
-/

namespace MTRpc

open PieceRing (Shape)

namespace WriteBuffer

/-- The blocks that `k` calls of `Next` hand out, in order, and the buffer behind them.  A call
that returns `false` hands out nothing and changes nothing. -/
def nexts (b : WriteBuffer) : ℕ → List Block × WriteBuffer
  | 0 => ([], b)
  | k + 1 =>
      match (nexts b k).2.next with
      | none => nexts b k
      | some (d, b') => ((nexts b k).1 ++ [d], b')

/-- The client has written `bs` into the blocks that `k` calls of `Next` handed out. -/
def filled (b : WriteBuffer) (k : ℕ) (bs : Bytes) : WriteBuffer :=
  { (b.nexts k).2 with que := b.que.storeAll ((b.nexts k).1.flatMap Block.cells) bs }

/-- None of `k` calls of `Next` makes the write position meet the read position. -/
def NeverMeets (b : WriteBuffer) (k : ℕ) : Prop :=
  ∀ j < k, ∀ d b', (b.nexts j).2.next = some (d, b') → ¬ b'.isEmpty

/-- The contract of an output stream, for a `BeginPacket`, `k` calls of `Next` and a
`BackUp(count)`. -/
structure Contract (b : WriteBuffer) (k count : ℕ) : Prop where
  /-- No unsent byte is handed out. -/
  disjoint : ((b.nexts k).1.flatMap Block.cells).Disjoint
    (Iterator.upTo b.que b.writepos (maxBufferPieces * defaultBufferSize) b.readpos)
  /-- The unsent bytes are the old ones and what was written, without the end given back. -/
  content : ∀ bs : Bytes, (bs.length : ℤ) = ((b.nexts k).1.map Block.size).sum →
    ((b.filled k bs).backUp count).unsent = b.unsent ++ bs.take (bs.length - count)
  byteCount : ((b.beginPacket.nexts k).2.backUp count).byteCount
    = ((b.nexts k).1.map Block.size).sum - count
  neverMeets : b.NeverMeets k

end WriteBuffer

/-! ## What `Next` does -/

variable {S : Shape}

/-- A walk that stops before its bound has reached its end. -/
lemma Iterator.upTo_reaches {que : Que} (hf : que.Fits S) {fuel : ℕ} {it stop : Iterator}
    (hit : S.Valid it) (h : (upTo que stop fuel it).length < fuel) :
    S.next^[(upTo que stop fuel it).length] it = stop := by
  induction fuel generalizing it with
  | zero => exact absurd h (Nat.not_lt_zero _)
  | succ fuel ih =>
    rw [upTo] at h ⊢
    by_cases heq : it = stop
    · rw [if_pos heq]
      exact heq
    · rw [if_neg heq, List.length_cons, Iterator.incr_eq hf hit] at h ⊢
      rw [Function.iterate_succ_apply]
      exact ih (Shape.valid_next hit) (by omega)

namespace WriteBuffer

variable {b b' : WriteBuffer} {d : Block} {k count : ℕ} (hr : b.IsRing S)

/-- The ring with another write position. -/
lemma isRing_writepos (hr : b.IsRing S) {it : Iterator} (hit : S.Valid it) :
    IOBuffer.IsRing S { b.toIOBuffer with writepos := it } where
  toFits := hr.toFits
  size_le := hr.size_le
  read_valid := hr.read_valid
  write_valid := hit

include hr

/-- `Next` hands out a walk from the write position, which does not pass the read position. -/
lemma next_spec (h : b.next = some (d, b')) :
    ∃ t : ℕ, d.size = t ∧ d.cells = S.walk b.writepos t ∧
      b' = { b with writepos := S.next^[t] b.writepos } ∧ b.used S + t ≤ S.cap := by
  have hw := hr.write_valid
  have hsize := hr.size_eq _ hw.1
  have hwlt := hw.2
  have hoffr := Shape.off_lt_cap hr.read_valid
  have hoffw := Shape.off_lt_cap hw
  rw [next] at h
  by_cases hfull : b.isFull
  · rw [if_pos hfull] at h
    exact absurd h (by simp)
  rw [if_neg hfull] at h
  by_cases hin : b.readpos.idx = b.writepos.idx ∧ b.writepos.pos + 1 < b.readpos.pos
  · -- the block ends a byte before the read position
    rw [if_pos hin] at h
    obtain ⟨rfl, rfl⟩ := by simpa using h
    have hrlt := hr.read_valid.2
    rw [hin.1] at hrlt
    have hcells := Shape.walk_piece (S := S) (i := b.writepos.idx) (p := b.writepos.pos)
      (k := b.readpos.pos - 1 - b.writepos.pos) (by omega)
    have hreach := Shape.iterate_piece (S := S) (i := b.writepos.idx) (p := b.writepos.pos)
      (k := b.readpos.pos - 1 - b.writepos.pos) (by omega)
    refine ⟨b.readpos.pos - 1 - b.writepos.pos, by simp only; omega, ?_, ?_, ?_⟩
    · rw [Block.cells, show ((b.readpos.pos : ℤ) - 1 - b.writepos.pos).toNat
        = b.readpos.pos - 1 - b.writepos.pos by omega]
      exact hcells.symm
    · rw [hreach, show b.writepos.pos + (b.readpos.pos - 1 - b.writepos.pos)
        = b.readpos.pos - 1 by omega]
    · have hoff : S.off b.readpos = S.before b.writepos.idx + b.readpos.pos := by
        rw [Shape.off_eq, hin.1]
      rw [Shape.off_eq b.writepos] at hoffw
      rw [IOBuffer.used, Shape.dist, Shape.off_eq b.writepos, hoff, if_neg (by omega)]
      omega
  · -- the block is the rest of the piece
    rw [if_neg hin] at h
    obtain ⟨rfl, rfl⟩ := by simpa using h
    have hcells := Shape.walk_piece (S := S) (i := b.writepos.idx) (p := b.writepos.pos)
      (k := S.size b.writepos.idx - b.writepos.pos) (by omega)
    have hreach := Shape.iterate_piece_end hw.2
    refine ⟨S.size b.writepos.idx - b.writepos.pos, by simp only; omega, ?_, ?_, ?_⟩
    · rw [Block.cells, ← hsize, show ((S.size b.writepos.idx : ℤ) - b.writepos.pos).toNat
        = S.size b.writepos.idx - b.writepos.pos by omega]
      exact hcells.symm
    · rw [hreach, hr.n_eq]
    · -- the read position is not in the rest of the piece
      have hle := Shape.before_add_size_le_cap hw.1
      have hout : S.off b.readpos ≤ S.off b.writepos ∨
          S.before b.writepos.idx + S.size b.writepos.idx ≤ S.off b.readpos := by
        rcases Nat.lt_trichotomy b.readpos.idx b.writepos.idx with hlt | heq | hgt
        · have hmono := S.before_mono (Nat.succ_le_of_lt hlt)
          rw [Nat.succ_eq_add_one, Shape.before_succ] at hmono
          have := hr.read_valid.2
          left
          rw [Shape.off_eq, Shape.off_eq]
          omega
        · have hpos : b.readpos.pos ≤ b.writepos.pos := by
            by_contra hc
            rcases Nat.lt_or_ge (b.writepos.pos + 1) b.readpos.pos with hlt | hge
            · exact hin ⟨heq, hlt⟩
            · exact hfull ⟨heq.symm, by omega⟩
          left
          rw [Shape.off_eq, Shape.off_eq, heq]
          omega
        · have hmono := S.before_mono (Nat.succ_le_of_lt hgt)
          rw [Nat.succ_eq_add_one, Shape.before_succ] at hmono
          right
          rw [Shape.off_eq]
          omega
      rw [Shape.off_eq b.writepos] at hout hoffw
      rw [IOBuffer.used, Shape.dist, Shape.off_eq b.writepos]
      split <;> omega

/-- As long as the positions do not meet, the blocks are the walk from the write position, and a
cell stays free. -/
lemma nexts_spec (hno : b.NeverMeets k) :
    ∃ t : ℕ, ((b.nexts k).1.map Block.size).sum = t ∧
      (b.nexts k).1.flatMap Block.cells = S.walk b.writepos t ∧
      (b.nexts k).2 = { b with writepos := S.next^[t] b.writepos } ∧ b.used S + t < S.cap ∧
      ∀ d, (b.nexts k).1.getLast? = some d → d.size ≤ t := by
  induction k with
  | zero => exact ⟨0, rfl, rfl, rfl, IOBuffer.used_lt hr, by simp [nexts]⟩
  | succ k ih =>
    obtain ⟨t, hsum, hcells, hbuf, hlt, hlast⟩ := ih fun j hj => hno j (by omega)
    cases hnext : (b.nexts k).2.next with
    | none => exact ⟨t, by rw [nexts, hnext]; exact ⟨hsum, hcells, hbuf, hlt, hlast⟩⟩
    | some r =>
      obtain ⟨d, b'⟩ := r
      have hmeet := hno k (by omega) d b' hnext
      rw [hbuf] at hnext
      have hring := isRing_writepos hr (Shape.valid_iterate hr.write_valid t)
      obtain ⟨t', hsize, hblock, rfl, hle⟩ := next_spec hring hnext
      have hused : IOBuffer.used S
          { b.toIOBuffer with writepos := S.next^[t] b.writepos } = b.used S + t := by
        change S.dist b.readpos (S.next^[t] b.writepos) = _
        rw [← IOBuffer.iterate_used hr, ← Function.iterate_add_apply, Nat.add_comm,
          Shape.dist_iterate hr.read_valid hlt]
      have hreach : S.next^[t'] (S.next^[t] b.writepos) = S.next^[t + t'] b.writepos := by
        rw [← Function.iterate_add_apply, Nat.add_comm]
      change IOBuffer.used S { b.toIOBuffer with writepos := S.next^[t] b.writepos } + t'
        ≤ S.cap at hle
      rw [hused] at hle
      refine ⟨t + t', ?_, ?_, ?_, ?_, ?_⟩
      · rw [nexts, hbuf, hnext]
        simp [hsum, hsize]
      · rw [nexts, hbuf, hnext, Shape.walk_add]
        simp only [List.flatMap_append, List.flatMap_singleton, hcells]
        rw [hblock]
      · rw [nexts, hbuf, hnext, ← hreach]
      · -- with all cells in use the positions would meet
        by_contra hc
        refine hmeet ?_
        change b.readpos = S.next^[t'] (S.next^[t] b.writepos)
        rw [hreach, ← IOBuffer.iterate_used hr, ← Function.iterate_add_apply,
          show t + t' + b.used S = S.cap by omega, Shape.iterate_cap hr.read_valid]
      · intro e he
        rw [nexts, hbuf, hnext, List.getLast?_concat, Option.some.injEq] at he
        rw [← he, hsize]
        omega

omit hr in
/-- `BeginPacket` changes nothing for `Next`. -/
lemma nexts_beginPacket (k : ℕ) :
    b.beginPacket.nexts k = ((b.nexts k).1, { (b.nexts k).2 with beginWrite := b.readpos }) := by
  have hnext : ∀ w : WriteBuffer, { w with beginWrite := b.readpos }.next
      = w.next.map fun r => (r.1, { r.2 with beginWrite := b.readpos }) := by
    intro w
    simp only [next]
    split
    · rfl
    · split <;> rfl
  induction k with
  | zero => rfl
  | succ k ih =>
    rw [nexts, nexts, ih, hnext]
    cases (b.nexts k).2.next <;> rfl

/-! ## What `BackUp` does -/

omit hr in
/-- Backing up needs the sizes of the pieces only. -/
lemma subAssign_congr {que que' : Que} (h : ∀ i, (que i).size = (que' i).size) (it : Iterator)
    (n : ℕ) : Iterator.subAssign que it n = Iterator.subAssign que' it n := by
  have hborrow : ∀ fuel idx pos,
      Iterator.borrow que fuel idx pos = Iterator.borrow que' fuel idx pos := by
    intro fuel
    induction fuel with
    | zero => intro idx pos; rfl
    | succ fuel ih => intro idx pos; rw [Iterator.borrow, Iterator.borrow, ih, h]
  rw [Iterator.subAssign, Iterator.subAssign, hborrow]

omit hr in
/-- Backing up inside a piece. -/
lemma subAssign_of_le (que : Que) {idx pos n : ℕ} (h : n ≤ pos) :
    Iterator.subAssign que ⟨idx, pos⟩ n = ⟨idx, pos - n⟩ := by
  rw [Iterator.subAssign, show (n + 1) * maxBufferPieces = (n + 1) * maxBufferPieces - 1 + 1 by
    rw [show maxBufferPieces = 16 from rfl]; omega, Iterator.borrow, if_neg (by simp only; omega)]
  congr 1
  simp only
  omega

/-- Backing up from the start of a piece ends at the right cell of the piece before it exactly
when the two pieces have the same size. -/
lemma subAssign_start_iff {j n : ℕ} (hj : j < maxBufferPieces) (hpos : 0 < n)
    (hle : n ≤ (b.que ((j + 15) % 16)).size) :
    Iterator.subAssign b.que ⟨j, 0⟩ n = ⟨(j + 15) % 16, (b.que ((j + 15) % 16)).size - n⟩ ↔
      (b.que j).size = (b.que ((j + 15) % 16)).size := by
  have hn : maxBufferPieces = 16 := rfl
  obtain ⟨fuel, hfuel⟩ : ∃ fuel, (n + 1) * maxBufferPieces = fuel + 3 :=
    ⟨(n + 1) * maxBufferPieces - 3, by rw [hn]; omega⟩
  have hsize := S.size_pos j (by rw [hr.n_eq]; exact hj)
  rw [hr.size_eq j (by rw [hr.n_eq]; exact hj)] at hsize
  have hfirst : Iterator.subAssign b.que ⟨j, 0⟩ n
      = Iterator.borrow b.que (fuel + 2) ((j + 15) % 16) ((b.que j).size - n : ℤ) := by
    rw [Iterator.subAssign, hfuel, Iterator.borrow, if_pos (by simp only; omega)]
    congr 1
    simp only
    omega
  rw [hfirst, Iterator.borrow]
  by_cases hneg : ((b.que j).size - n : ℤ) < 0
  · -- the size of one piece more is added
    rw [if_pos hneg, Iterator.borrow, if_neg (by omega), PieceRing.Pos.mk.injEq]
    refine iff_of_false (fun h => ?_) (by omega)
    have := h.1
    omega
  · rw [if_neg hneg, PieceRing.Pos.mk.injEq]
    omega

/-! ## The contract -/

/-- A `BackUp` that ends at the right cell. -/
lemma backUp_lands {t : ℕ} {z : Iterator} (hz : S.Valid z) (hle : count ≤ t)
    (hreach : S.next^[count] z = S.next^[t] b.writepos) : z = S.next^[t - count] b.writepos := by
  refine Shape.iterate_cancel hz (Shape.valid_iterate hr.write_valid _) (hreach.trans ?_)
  rw [← Function.iterate_add_apply, Nat.add_sub_cancel' hle]

/-- The unsent bytes, when the write position is put somewhere on the walk over the blocks. -/
lemma unsent_filled {t n : ℕ} {w : WriteBuffer} {bs : Bytes} (hlt : b.used S + t < S.cap)
    (hlen : bs.length = t) (hn : n ≤ t) (hque : w.que = b.que.storeAll (S.walk b.writepos t) bs)
    (hread : w.readpos = b.readpos) (hwrite : w.writepos = S.next^[n] b.writepos) :
    w.unsent = b.unsent ++ bs.take n := by
  have hreach : w.writepos = S.next^[b.used S + n] b.readpos := by
    rw [hwrite, Nat.add_comm, Function.iterate_add_apply, IOBuffer.iterate_used hr]
  have hring : w.IsRing S :=
    { toFits := hque ▸ hr.toFits.storeAll _ _
      size_le := hr.size_le
      read_valid := hread ▸ hr.read_valid
      write_valid := hwrite ▸ Shape.valid_iterate hr.write_valid n }
  have hdist : S.dist b.readpos (S.next^[b.used S + n] b.readpos) = b.used S + n :=
    Shape.dist_iterate hr.read_valid (by omega)
  have hload := IOBuffer.load_walk_storeAll hr (show b.used S + t ≤ S.cap by omega)
    (show bs.length ≤ t by omega) (show n ≤ bs.length by omega)
  rw [IOBuffer.unsent, IOBuffer.bytesTo_eq hring hring.write_valid, hreach, hread, hdist, hque,
    hload, IOBuffer.unsent, IOBuffer.bytesTo_eq hr hr.write_valid]
  rfl

/-- When no `Next` makes the positions meet, the contract holds for an empty buffer and a
`BackUp` that ends at the right cell, and only then. -/
lemma contract_iff_of_neverMeets (hno : b.NeverMeets k) {d : Block}
    (hlast : (b.nexts k).1.getLast? = some d) (hle : count ≤ d.size) :
    b.Contract k count ↔ b.isEmpty ∧ ∃ z, S.Valid z ∧
      S.next^[count] z = (b.nexts k).2.writepos ∧
      Iterator.subAssign b.que (b.nexts k).2.writepos count = z := by
  obtain ⟨t, hsum, hcells, hbuf, hlt, hsize⟩ := nexts_spec hr hno
  have hcount : count ≤ t := by
    have := hsize d hlast
    omega
  have hque : ∀ bs, (b.filled k bs).que = b.que.storeAll (S.walk b.writepos t) bs := fun bs => by
    rw [filled, hcells]
  -- the write position behind the `BackUp`, with and without the bytes of the client
  have hback : ∀ bs, ((b.filled k bs).backUp count).writepos
      = Iterator.subAssign b.que (S.next^[t] b.writepos) count := fun bs => by
    change Iterator.subAssign (b.filled k bs).que (b.nexts k).2.writepos count = _
    rw [hbuf]
    exact subAssign_congr (fun i => by rw [hque, Que.size_storeAll]) _ _
  have hbytes : ((b.beginPacket.nexts k).2.backUp count).byteCount
      = Iterator.sub b.que (Iterator.subAssign b.que (S.next^[t] b.writepos) count)
        b.readpos := by
    rw [nexts_beginPacket, hbuf]
    rfl
  have hright : ∀ {z}, z = S.next^[t - count] b.writepos →
      Iterator.sub b.que z b.readpos = (b.used S + (t - count) : ℕ) := by
    rintro z rfl
    rw [Iterator.sub_eq hr.toFits hr.read_valid (Shape.valid_iterate hr.write_valid _),
      ← IOBuffer.iterate_used hr, ← Function.iterate_add_apply, Nat.add_comm,
      Shape.dist_iterate hr.read_valid (by omega)]
  rw [hbuf]
  constructor
  · intro hc
    have hzeros := hc.content (List.replicate t 0) (by rw [hsum, List.length_replicate])
    have hlen := congrArg List.length hzeros
    -- the number of unsent bytes puts the write position at the right cell
    have hstop : Iterator.subAssign b.que (S.next^[t] b.writepos) count
        = S.next^[t - count] b.writepos := by
      have hunsent : (b.unsent ++ (List.replicate t (0 : UInt8)).take
          ((List.replicate t (0 : UInt8)).length - count)).length = b.used S + (t - count) := by
        rw [List.length_append, IOBuffer.unsent, IOBuffer.length_bytesTo hr hr.write_valid]
        simp [IOBuffer.used]
      rw [hunsent, IOBuffer.unsent, IOBuffer.bytesTo, List.length_map, hback] at hlen
      have hfits : ((b.filled k (List.replicate t 0)).backUp count).que.Fits S := by
        change (b.filled k (List.replicate t 0)).que.Fits S
        rw [hque]
        exact hr.toFits.storeAll _ _
      have hread : ((b.filled k (List.replicate t 0)).backUp count).readpos = b.readpos := by
        change (b.nexts k).2.readpos = b.readpos
        rw [hbuf]
      have hcap := IOBuffer.cap_le hr
      rw [hread] at hlen
      have hreach := Iterator.upTo_reaches hfits hr.read_valid (by rw [hlen]; omega)
      rw [hlen, Nat.add_comm, Function.iterate_add_apply, IOBuffer.iterate_used hr] at hreach
      exact hreach.symm
    have hempty : b.used S = 0 := by
      have hb := hc.byteCount
      rw [hbytes, hright hstop, hsum] at hb
      omega
    refine ⟨(IOBuffer.isEmpty_iff hr).mpr hempty, _, Shape.valid_iterate hr.write_valid _, ?_,
      hstop⟩
    rw [← Function.iterate_add_apply, Nat.add_sub_cancel' hcount]
  · rintro ⟨hempty, z, hz, hreach, hstop⟩
    have hused := (IOBuffer.isEmpty_iff hr).mp hempty
    have hland := hstop.trans (backUp_lands hr hz hcount hreach)
    refine ⟨?_, ?_, ?_, hno⟩
    · rw [hcells, Iterator.upTo_eq hr.toFits hr.read_valid hr.write_valid
        (by have := IOBuffer.cap_le hr; have := IOBuffer.used_lt hr; rw [IOBuffer.used] at this;
            omega)]
      have hdis := Shape.walk_disjoint hr.read_valid (show b.used S + t ≤ S.cap by omega)
      rw [IOBuffer.iterate_used hr] at hdis
      exact hdis.symm
    · intro bs hbs
      have hlen : bs.length = t := by
        rw [hsum] at hbs
        omega
      rw [hlen]
      refine unsent_filled hr hlt hlen (Nat.sub_le _ _) (hque bs) ?_ ((hback bs).trans hland)
      change (b.nexts k).2.readpos = b.readpos
      rw [hbuf]
    · rw [hbytes, hright hland, hsum, hused]
      omega

/-! ## An empty buffer -/

section

variable (hempty : b.isEmpty)

include hempty

/-- From an empty buffer the first sixteen calls hand out the pieces one after the other. -/
lemma nexts_pieces {j : ℕ} (hj : j < 16) :
    (b.nexts (j + 1)).2 = { b with writepos := ⟨(b.readpos.idx + j + 1) % 16, 0⟩ } ∧
      ∃ q, (b.nexts (j + 1)).1.getLast?
        = some ⟨(b.readpos.idx + j) % 16, q, (b.que ((b.readpos.idx + j) % 16)).size - q⟩ := by
  have hsame : b.readpos = b.writepos := hempty
  have hidx : b.readpos.idx < 16 := by
    have := hr.read_valid.1
    rwa [hr.n_eq] at this
  induction j with
  | zero =>
    have hfull : ¬ b.isFull := fun h => by
      have := h.2
      rw [hsame] at this
      omega
    have hnext : b.next = some (⟨b.writepos.idx, b.writepos.pos,
        ((b.que b.writepos.idx).size : ℤ) - b.writepos.pos⟩,
        { b with writepos := ⟨(b.writepos.idx + 1) % maxBufferPieces, 0⟩ }) := by
      rw [next, if_neg hfull, if_neg (by rw [hsame]; omega)]
    rw [nexts, show (b.nexts 0).2 = b from rfl, hnext]
    simp only [Nat.add_zero, Nat.mod_eq_of_lt hidx]
    exact ⟨by rw [hsame]; rfl, b.writepos.pos, by rw [hsame]; rfl⟩
  | succ j ih =>
    obtain ⟨hbuf, -⟩ := ih (by omega)
    have hne : b.readpos.idx ≠ (b.readpos.idx + j + 1) % 16 := by omega
    have hnext : (b.nexts (j + 1)).2.next = some (⟨(b.readpos.idx + j + 1) % 16, 0,
        ((b.que ((b.readpos.idx + j + 1) % 16)).size : ℤ) - (0 : ℕ)⟩,
        { b with writepos := ⟨((b.readpos.idx + j + 1) % 16 + 1) % maxBufferPieces, 0⟩ }) := by
      rw [hbuf, next, if_neg fun h => hne h.1.symm, if_neg fun h => hne h.1]
    rw [nexts, hnext]
    refine ⟨?_, 0, ?_⟩
    · simp only [show maxBufferPieces = 16 from rfl, Nat.mod_add_mod, Nat.add_assoc]
    · rw [List.getLast?_concat]
      rfl

omit hr hempty in
/-- A full buffer hands out nothing more. -/
lemma nexts_of_isFull {m : ℕ} (hfull : (b.nexts m).2.isFull) (h : m ≤ k) :
    b.nexts k = b.nexts m := by
  induction k, h using Nat.le_induction with
  | base => rfl
  | succ k _ ih => rw [nexts, ih, next, if_pos hfull]

/-- After sixteen calls the write position is at the start of the piece of the read position. -/
lemma nexts_turn : (b.nexts 16).2 = { b with writepos := ⟨b.readpos.idx, 0⟩ } := by
  have hidx := hr.read_valid.1
  rw [hr.n_eq, show maxBufferPieces = 16 from rfl] at hidx
  rw [(nexts_pieces hr hempty (show 15 < 16 by omega)).1,
    show (b.readpos.idx + 15 + 1) % 16 = b.readpos.idx by omega]

/-- The call after that fills the piece up to the byte before the read position. -/
lemma nexts_last (hpos : 2 ≤ b.readpos.pos) (hk : 17 ≤ k) :
    (b.nexts k).2 = { b with writepos := ⟨b.readpos.idx, b.readpos.pos - 1⟩ } ∧
      (b.nexts k).1.getLast? = some ⟨b.readpos.idx, 0, (b.readpos.pos : ℤ) - 1 - (0 : ℕ)⟩ := by
  have hturn := nexts_turn hr hempty
  have hnext : (b.nexts 16).2.next = some (⟨b.readpos.idx, 0, (b.readpos.pos : ℤ) - 1 - (0 : ℕ)⟩,
      { b with writepos := ⟨b.readpos.idx, b.readpos.pos - 1⟩ }) := by
    rw [hturn, next, if_neg fun h => by have := h.2; simp only at this; omega,
      if_pos ⟨rfl, by simp only; omega⟩]
  have hlast : b.nexts 17
      = ((b.nexts 16).1 ++ [⟨b.readpos.idx, 0, (b.readpos.pos : ℤ) - 1 - (0 : ℕ)⟩],
        { b with writepos := ⟨b.readpos.idx, b.readpos.pos - 1⟩ }) := by
    rw [nexts, hnext]
  have hfull : (b.nexts 17).2.isFull := by
    rw [hlast]
    exact ⟨rfl, by simp only; omega⟩
  rw [nexts_of_isFull hfull hk, hlast]
  exact ⟨rfl, List.getLast?_concat⟩

/-- With one byte in front of the read position the buffer is full after sixteen calls. -/
lemma isFull_turn (hpos : b.readpos.pos = 1) : (b.nexts 16).2.isFull := by
  rw [nexts_turn hr hempty]
  exact ⟨rfl, by rw [hpos]⟩

/-- Behind the last call a `BackUp` ends at the right cell. -/
lemma lands_last (hpos : 2 ≤ b.readpos.pos) (hk : 17 ≤ k) {d : Block}
    (hlast : (b.nexts k).1.getLast? = some d) (hle : count ≤ d.size) :
    ∃ z, S.Valid z ∧ S.next^[count] z = (b.nexts k).2.writepos ∧
      Iterator.subAssign b.que (b.nexts k).2.writepos count = z := by
  obtain ⟨hbuf, hblock⟩ := nexts_last hr hempty hpos hk
  rw [hlast, Option.some.injEq] at hblock
  subst hblock
  replace hle : count ≤ b.readpos.pos - 1 := by
    simp only at hle
    omega
  have hsize := hr.read_valid.2
  rw [hbuf]
  refine ⟨⟨b.readpos.idx, b.readpos.pos - 1 - count⟩, ⟨hr.read_valid.1, ?_⟩, ?_,
    subAssign_of_le _ hle⟩
  · simp only
    omega
  · rw [Shape.iterate_piece (by omega), Nat.sub_add_cancel hle]

/-- Behind one of the first sixteen calls it does so exactly when the next piece has the size of
the last one. -/
lemma lands_piece_iff {j : ℕ} (hj : j < 16) {d : Block}
    (hlast : (b.nexts (j + 1)).1.getLast? = some d) (hpos : 0 < count) (hle : count ≤ d.size) :
    (∃ z, S.Valid z ∧ S.next^[count] z = (b.nexts (j + 1)).2.writepos ∧
        Iterator.subAssign b.que (b.nexts (j + 1)).2.writepos count = z) ↔
      (b.que ((b.readpos.idx + j + 1) % 16)).size = (b.que ((b.readpos.idx + j) % 16)).size := by
  obtain ⟨hbuf, q, hblock⟩ := nexts_pieces hr hempty hj
  rw [hlast, Option.some.injEq] at hblock
  subst hblock
  have hn : maxBufferPieces = 16 := rfl
  have hbefore : ((b.readpos.idx + j + 1) % 16 + 15) % 16 = (b.readpos.idx + j) % 16 := by omega
  have hmod : (b.readpos.idx + j) % 16 < 16 := Nat.mod_lt _ (by decide)
  generalize hi : (b.readpos.idx + j) % 16 = i at *
  have hnext : (b.readpos.idx + j + 1) % 16 = (i + 1) % 16 := by omega
  rw [hnext] at hbefore hbuf ⊢
  replace hle : count ≤ (b.que i).size := by
    simp only at hle
    omega
  have hpiece : i < S.n := by rwa [hr.n_eq]
  have hstart := subAssign_start_iff hr
    (show (i + 1) % 16 < maxBufferPieces from Nat.mod_lt _ (by decide)) hpos (by rwa [hbefore])
  rw [hbefore] at hstart
  rw [← hstart, hbuf]
  -- one cell is so many steps in front of the next piece
  have hsize := hr.size_eq _ hpiece
  have hvalid : S.Valid ⟨i, (b.que i).size - count⟩ := ⟨hpiece, by simp only; omega⟩
  have hreach : S.next^[count] ⟨i, (b.que i).size - count⟩ = ⟨(i + 1) % 16, 0⟩ := by
    have hend := Shape.iterate_piece_end hvalid.2
    simp only at hend
    rwa [hsize, Nat.sub_sub_self hle, hr.n_eq, hn] at hend
  constructor
  · rintro ⟨z, hz, hzreach, rfl⟩
    exact Shape.iterate_cancel hz hvalid (hzreach.trans hreach.symm)
  · intro hstop
    exact ⟨_, hvalid, hreach, hstop⟩

/-- The positions meet only in the sixteenth call, and only at the start of a piece. -/
lemma neverMeets_iff : b.NeverMeets k ↔ (b.readpos.pos = 0 → k < 16) := by
  constructor
  · intro hno hpos
    by_contra hk
    have hnext : ∃ d, (b.nexts 15).2.next = some (d, (b.nexts 16).2) := by
      cases hn : (b.nexts 15).2.next with
      | none =>
        -- otherwise the sixteenth call would leave the position where it was
        have hidle : b.nexts 16 = b.nexts 15 := by rw [nexts, hn]
        have h15 := (nexts_pieces hr hempty (show 14 < 16 by omega)).1
        have h16 := nexts_turn hr hempty
        rw [hidle, h15] at h16
        have hidx : (b.readpos.idx + 14 + 1) % 16 = b.readpos.idx :=
          congrArg (fun w : WriteBuffer => w.writepos.idx) h16
        have hlt := hr.read_valid.1
        rw [hr.n_eq, show maxBufferPieces = 16 from rfl] at hlt
        omega
      | some r => exact ⟨r.1, by rw [nexts, hn]⟩
    obtain ⟨d, hd⟩ := hnext
    refine hno 15 (by omega) d _ hd ?_
    rw [nexts_turn hr hempty]
    exact PieceRing.Pos.ext rfl hpos
  · intro hk j hj d b' hnext hmeet
    have hb' : (b.nexts (j + 1)).2 = b' := by rw [nexts, hnext]
    have hmeet : b'.readpos = b'.writepos := hmeet
    have hidx := hr.read_valid.1
    rw [hr.n_eq, show maxBufferPieces = 16 from rfl] at hidx
    rcases Nat.lt_or_ge j 16 with hlt | hge
    · rw [← hb', (nexts_pieces hr hempty hlt).1] at hmeet
      have hpos : b.readpos.pos = 0 := congrArg PieceRing.Pos.pos hmeet
      have hpiece : b.readpos.idx = (b.readpos.idx + j + 1) % 16 := congrArg PieceRing.Pos.idx hmeet
      have := hk hpos
      omega
    · rcases Nat.lt_trichotomy b.readpos.pos 1 with h0 | h1 | h2
      · have := hk (by omega)
        omega
      · -- the buffer is full before
        have hfull := isFull_turn hr hempty h1
        rw [nexts_of_isFull hfull hge, next, if_pos hfull] at hnext
        exact absurd hnext (by simp)
      · rw [← hb', (nexts_last hr hempty h2 (show 17 ≤ j + 1 by omega)).1] at hmeet
        have hpos : b.readpos.pos = b.readpos.pos - 1 := congrArg PieceRing.Pos.pos hmeet
        omega

end

end WriteBuffer

/-- **The output stream.**  On every ring, for any number of calls of `Next` and a `BackUp` of at
most the last block, the contract holds exactly when the buffer is empty at the start, the calls
do not go all the way round to a read position at the start of a piece, and the last block ends
in front of the read position or lies in a piece of the same size as the following one. -/
theorem outputStream_iff {b : WriteBuffer} (hr : b.IsRing S) {k count : ℕ} (hcount : 0 < count)
    (hle : ∃ d, (b.nexts k).1.getLast? = some d ∧ count ≤ d.size) :
    b.Contract k count ↔ b.isEmpty ∧ (b.readpos.pos = 0 → k < maxBufferPieces) ∧
      (2 ≤ b.readpos.pos ∧ maxBufferPieces < k ∨
        (b.que ((b.readpos.idx + min k maxBufferPieces) % maxBufferPieces)).size
          = (b.que ((b.readpos.idx + min k maxBufferPieces - 1) % maxBufferPieces)).size) := by
  obtain ⟨d, hlast, hle⟩ := hle
  have hn : maxBufferPieces = 16 := rfl
  have hk : k ≠ 0 := by
    rintro rfl
    exact absurd hlast (by simp [WriteBuffer.nexts])
  have hidx := hr.read_valid.1
  rw [hr.n_eq, hn] at hidx
  by_cases hempty : b.isEmpty
  · have hmeets := WriteBuffer.neverMeets_iff (k := k) hr hempty
    by_cases hno : b.NeverMeets k
    · have hk16 := hmeets.mp hno
      rw [WriteBuffer.contract_iff_of_neverMeets hr hno hlast hle, hn]
      refine and_congr_right fun _ => ?_
      rw [and_iff_right hk16]
      by_cases hin : 2 ≤ b.readpos.pos ∧ 16 < k
      · -- the last block ends in front of the read position
        exact iff_of_true (WriteBuffer.lands_last hr hempty hin.1 hin.2 hlast hle) (Or.inl hin)
      · -- the last block is the rest of a piece
        have hcalls : b.nexts k = b.nexts (min k 16) := by
          rcases Nat.lt_or_ge 16 k with hgt | hge
          · have hone : b.readpos.pos = 1 := by omega
            rw [Nat.min_eq_right hgt.le]
            exact WriteBuffer.nexts_of_isFull (WriteBuffer.isFull_turn hr hempty hone) hgt.le
          · rw [Nat.min_eq_left hge]
        obtain ⟨j, hj⟩ : ∃ j, min k 16 = j + 1 := Nat.exists_eq_succ_of_ne_zero (by omega)
        rw [or_iff_right hin, hcalls, hj, ← Nat.add_assoc, Nat.add_sub_cancel]
        rw [hcalls, hj] at hlast
        exact WriteBuffer.lands_piece_iff hr hempty (by omega) hlast hcount hle
    · exact iff_of_false (fun h => hno h.neverMeets) fun h => hno (hmeets.mpr h.2.1)
  · refine iff_of_false (fun h => ?_) fun h => hempty h.1
    exact hempty ((WriteBuffer.contract_iff_of_neverMeets hr h.neverMeets hlast hle).mp h).1

/-- A fresh buffer, two calls of `Next` and a `BackUp` of five bytes. -/
theorem outputStream_init :
    WriteBuffer.init.Contract 2 5 ↔ WriteBuffer.init.isEmpty ∧
      (WriteBuffer.init.readpos.pos = 0 → 2 < maxBufferPieces) ∧
      (2 ≤ WriteBuffer.init.readpos.pos ∧ maxBufferPieces < 2 ∨
        (WriteBuffer.init.que ((0 + min 2 maxBufferPieces) % maxBufferPieces)).size
          = (WriteBuffer.init.que ((0 + min 2 maxBufferPieces - 1) % maxBufferPieces)).size) :=
  outputStream_iff ReadBuffer.isRing_init (by decide) ⟨⟨1, 0, 524288⟩, rfl, by decide⟩

/-- The ring in which the piece 2 still has the size that a header gave it. -/
def shortenedPieces : Shape where
  n := maxBufferPieces
  size := fun i => if i = 2 then 100 else defaultBufferSize
  n_pos := maxBufferPieces_pos
  size_pos := fun i _ => by split <;> decide

/-- An empty write buffer in front of the shortened piece. -/
def shortenedBuffer : WriteBuffer where
  que := fun i => ⟨fun _ => 0, shortenedPieces.size i⟩
  readpos := ⟨1, 0⟩
  writepos := ⟨1, 0⟩
  beginWrite := ⟨1, 0⟩

lemma isRing_shortenedBuffer : shortenedBuffer.IsRing shortenedPieces where
  n_eq := rfl
  size_eq := fun _ _ => rfl
  size_le := by decide
  read_valid := by decide
  write_valid := by decide

/-- There a `BackUp` of ten bytes takes all but 90 of the 524288 bytes back. -/
theorem not_outputStream :
    ¬ ∀ (S : Shape) (b : WriteBuffer), b.IsRing S → ∀ k count : ℕ, 0 < count →
      (∃ d, (b.nexts k).1.getLast? = some d ∧ count ≤ d.size) → b.Contract k count := by
  intro hall
  have hcontract := hall _ _ isRing_shortenedBuffer 1 10 (by decide)
    ⟨⟨1, 0, 524288⟩, rfl, by decide⟩
  exact absurd hcontract.byteCount (by decide +kernel)

end MTRpc
