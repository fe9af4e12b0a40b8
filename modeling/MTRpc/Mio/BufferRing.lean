import MTRpc.Mio.Buffer

/-!
# The buffers as rings

The iterators of a buffer whose pieces are not empty move on a ring of pieces: `++`, `+=`
and the difference of iterators are the step, the iterated step and the distance of the
ring (`incr_eq`, `add_eq`, `sub_eq`).  The unread bytes of a buffer are the bytes on the
walk from the read position to the write position (`unread_eq`), and the segments that
`GetReciveBuffer` offers are the walk from the write position over everything else
(`getReciveBuffer_walk`).  The main result, `recive_spec`, is what receiving does to the
unread bytes.
-/

namespace MTRpc

open PieceRing (Shape between cells)

/-! ## Memory -/

namespace Que

variable {que : Que} {it jt : Iterator} {c : UInt8}

@[simp] lemma size_store (i : ℕ) : (que.store it c i).size = (que i).size := by
  by_cases h : i = it.idx
  · subst h; simp [store]
  · simp [store, h]

@[simp] lemma load_store_self : (que.store it c).load it = c := by simp [store, load]

lemma load_store_ne (h : jt ≠ it) : (que.store it c).load jt = que.load jt := by
  by_cases hi : jt.idx = it.idx
  · have hp : jt.pos ≠ it.pos := fun hp => h (PieceRing.Pos.ext hi hp)
    simp [store, load, hi, hp]
  · simp [store, load, hi]

@[simp] lemma size_storeAll (its : List Iterator) (cs : Bytes) (i : ℕ) :
    (que.storeAll its cs i).size = (que i).size := by
  induction its generalizing que cs with
  | nil => simp [storeAll]
  | cons it its ih =>
    cases cs with
    | nil => simp [storeAll]
    | cons c cs => rw [storeAll, ih, size_store]

/-- Positions that are not written keep their byte. -/
lemma load_storeAll_of_notMem {its : List Iterator} (cs : Bytes) (h : jt ∉ its) :
    (que.storeAll its cs).load jt = que.load jt := by
  induction its generalizing que cs with
  | nil => simp [storeAll]
  | cons it its ih =>
    obtain ⟨hne, hmem⟩ : jt ≠ it ∧ jt ∉ its := by simpa using h
    cases cs with
    | nil => simp [storeAll]
    | cons c cs => rw [storeAll, ih cs hmem, load_store_ne hne]

/-- Bytes written at different positions can be read back in order. -/
lemma map_load_storeAll {its : List Iterator} {cs : Bytes} (hnd : its.Nodup)
    (hlen : cs.length ≤ its.length) :
    (its.take cs.length).map (que.storeAll its cs).load = cs := by
  induction its generalizing que cs with
  | nil =>
    have : cs = [] := List.eq_nil_of_length_eq_zero (by simpa using hlen)
    subst this
    rfl
  | cons it its ih =>
    cases cs with
    | nil => rfl
    | cons c cs =>
      obtain ⟨hni, hnd⟩ := List.nodup_cons.mp hnd
      have hlen' : cs.length ≤ its.length := by simpa using hlen
      rw [List.length_cons, List.take_succ_cons, List.map_cons, storeAll,
        load_storeAll_of_notMem cs hni, load_store_self, ih hnd hlen']

end Que

/-! ## Iterators -/

/-- The sizes of the pieces are those of the ring `S`. -/
structure Que.Fits (S : Shape) (que : Que) : Prop where
  n_eq : S.n = maxBufferPieces
  size_eq : ∀ i < S.n, S.size i = (que i).size

lemma Que.Fits.storeAll {S : Shape} {que : Que} (h : que.Fits S) (its : List Iterator)
    (cs : Bytes) : (que.storeAll its cs).Fits S :=
  ⟨h.n_eq, fun i hi => by rw [h.size_eq i hi, Que.size_storeAll]⟩

namespace Iterator

variable {S : Shape} {que : Que} {a b : Iterator}

lemma incr_eq (hf : que.Fits S) (ha : S.Valid a) : incr que a = S.next a := by
  rw [incr, Shape.next, hf.size_eq _ ha.1, hf.n_eq]

/-- A position whose offset may exceed its piece stands for the cell that many steps from
the start of the piece. -/
lemma carry_eq (hf : que.Fits S) {fuel : ℕ} (ha : a.idx < S.n) (hfuel : a.pos < fuel) :
    carry que fuel a = S.next^[a.pos] ⟨a.idx, 0⟩ := by
  induction fuel generalizing a with
  | zero => omega
  | succ fuel ih =>
    have hsize := hf.size_eq _ ha
    have hpos := S.size_pos _ ha
    rw [carry]
    by_cases h : (que a.idx).size ≤ a.pos
    · have hend := Shape.iterate_piece_end (S := S) (i := a.idx) (p := 0) hpos
      rw [Nat.sub_zero] at hend
      have hsplit : a.pos = (a.pos - S.size a.idx) + S.size a.idx := by omega
      rw [if_pos h, ih (by rw [← hf.n_eq]; exact Shape.succ_mod_lt _) (by simp only; omega)]
      conv_rhs => rw [hsplit, Function.iterate_add_apply, hend]
      rw [hf.n_eq, hsize]
    · rw [if_neg h, Shape.iterate_piece (by omega), Nat.zero_add]

/-- `it += n` is `n` times `++it`. -/
theorem add_eq (hf : que.Fits S) (ha : S.Valid a) (n : ℕ) : add que a n = S.next^[n] a := by
  have hfuel : a.pos + n < (a.pos + n + 1) * maxBufferPieces := by
    rw [show maxBufferPieces = 16 from rfl]
    omega
  have hstart : S.next^[a.pos] ⟨a.idx, 0⟩ = a := by
    rw [Shape.iterate_piece (by have := ha.2; omega), Nat.zero_add]
  have hcarry := carry_eq (a := ⟨a.idx, a.pos + n⟩) hf ha.1 hfuel
  rw [add, hcarry, Nat.add_comm a.pos n, Function.iterate_add_apply, hstart]

/-- The loop over the pieces adds up their sizes. -/
lemma tidxLoop_eq (hf : que.Fits S) (i e : ℕ) :
    tidxLoop i e = between S.n e S.n ((i + 1) % S.n) := by
  rw [tidxLoop, hf.n_eq]

lemma sum_tidxLoop (hf : que.Fits S) (i e : ℕ) :
    ((tidxLoop i e).map fun idx => (que idx).size).sum = S.span e S.n ((i + 1) % S.n) := by
  rw [tidxLoop_eq hf, Shape.span]
  congr 1
  refine List.map_congr_left fun j hj => ?_
  exact (hf.size_eq j (Shape.between_lt (Shape.succ_mod_lt i) j hj)).symm

/-- `b - a` is the distance from `a` to `b`. -/
theorem sub_eq (hf : que.Fits S) (ha : S.Valid a) (hb : S.Valid b) :
    sub que b a = (S.dist a b : ℤ) := by
  have hsize := hf.size_eq _ ha.1
  have hlt := ha.2
  rw [sub]
  by_cases h : b.idx = a.idx ∧ a.pos ≤ b.pos
  · rw [if_pos h]
    have hle : S.off a ≤ S.off b := by rw [Shape.off_eq, Shape.off_eq, h.1]; omega
    rw [Shape.dist, if_pos hle, Shape.off_eq, Shape.off_eq, h.1]
    omega
  · have hne : ¬ (a.idx = b.idx ∧ a.pos < b.pos) := fun hc => h ⟨hc.1.symm, hc.2.le⟩
    have hround := Shape.around_eq ha hb (le_refl S.n) hne
    have hoff : S.dist a b = S.cap - S.dist b a := by
      have hab : S.off a ≠ S.off b := by
        intro hc
        have := Shape.off_inj ha hb hc
        exact h ⟨by rw [this], by rw [this]⟩
      have h1 := Shape.off_lt_cap ha
      have h2 := Shape.off_lt_cap hb
      rw [Shape.dist, Shape.dist]
      split <;> split <;> omega
    rw [if_neg h, sum_tidxLoop hf, hoff, ← hround, Shape.around, ← hsize]
    push_cast
    omega

end Iterator

/-! ## Buffers -/

/-- The buffer is a ring of shape `S`: no piece is empty or longer than its block, and both
positions name cells. -/
structure IOBuffer.IsRing (S : Shape) (b : IOBuffer) : Prop extends b.que.Fits S where
  size_le : ∀ i < S.n, S.size i ≤ defaultBufferSize
  read_valid : S.Valid b.readpos
  write_valid : S.Valid b.writepos

namespace IOBuffer

variable {S : Shape} {b : IOBuffer}

lemma iovLen_eq {size pos : ℕ} (h : pos ≤ size) (hs : size ≤ defaultBufferSize) :
    iovLen size pos = size - pos := by
  have hd : defaultBufferSize = 524288 := rfl
  rw [iovLen, show size + 2 ^ 64 - pos = (size - pos) + 2 ^ 64 by omega, Nat.add_mod_right]
  exact Nat.mod_eq_of_lt (by omega)

/-- A segment inside a piece is the walk between its ends. -/
lemma segment_walk (hle : ∀ i < S.n, S.size i ≤ defaultBufferSize) {a z : Iterator}
    (hz : S.Valid z) (h : a.idx = z.idx ∧ a.pos < z.pos) :
    [(⟨a.idx, a.pos, iovLen z.pos a.pos⟩ : Iovec)].flatMap Iovec.cells
      = S.walk a (S.dist a z) := by
  have hsize := hz.2
  have hdist : S.dist a z = z.pos - a.pos := by
    rw [Shape.dist, Shape.off_eq, Shape.off_eq, h.1, if_pos (by omega)]
    omega
  have hpiece : a.pos + (z.pos - a.pos) ≤ S.size a.idx := by
    rw [h.1]
    omega
  rw [List.flatMap_singleton, Iovec.cells, iovLen_eq h.2.le (hsize.le.trans (hle _ hz.1)), hdist]
  exact (Shape.walk_piece hpiece).symm

/-- The rest of a piece, whole pieces and the beginning of a piece are the walk over them. -/
lemma segments_walk {que : Que} (hf : que.Fits S) (hle : ∀ i < S.n, S.size i ≤ defaultBufferSize)
    {a z : Iterator} (ha : S.Valid a) (hz : S.Valid z) :
    (⟨a.idx, a.pos, iovLen (que a.idx).size a.pos⟩
        :: (tidxLoop a.idx z.idx).map (fun tidx => ⟨tidx, 0, (que tidx).size⟩)
        ++ (if 0 < z.pos then [⟨z.idx, 0, z.pos⟩] else []) : List Iovec).flatMap Iovec.cells
      = S.walk a (S.around S.n a z) := by
  have hsize := hf.size_eq _ ha.1
  have hfirst : Iovec.cells ⟨a.idx, a.pos, iovLen (que a.idx).size a.pos⟩
      = cells a.idx a.pos (S.size a.idx - a.pos) := by
    rw [Iovec.cells, ← hsize, iovLen_eq ha.2.le (hle _ ha.1)]
  have hmid : ((tidxLoop a.idx z.idx).map
        (fun tidx => (⟨tidx, 0, (que tidx).size⟩ : Iovec))).flatMap Iovec.cells
      = (between S.n z.idx S.n ((a.idx + 1) % S.n)).flatMap (fun i => cells i 0 (S.size i)) := by
    rw [Iterator.tidxLoop_eq hf, List.flatMap_map]
    refine List.flatMap_congr fun i hi => ?_
    rw [Iovec.cells, hf.size_eq i (Shape.between_lt (Shape.succ_mod_lt _) i hi)]
  have hlast : (if 0 < z.pos then [(⟨z.idx, 0, z.pos⟩ : Iovec)] else []).flatMap Iovec.cells
      = cells z.idx 0 z.pos := by
    by_cases h0 : 0 < z.pos
    · rw [if_pos h0, List.flatMap_singleton, Iovec.cells]
    · have : z.pos = 0 := by omega
      simp [this]
  rw [(Shape.walk_around ha hz (le_refl S.n)).1, List.cons_append, List.flatMap_cons,
    List.flatMap_append, hfirst, hmid, hlast, List.append_assoc]

/-- The number of unread bytes. -/
def used (S : Shape) (b : IOBuffer) : ℕ := S.dist b.readpos b.writepos

/-- The unread bytes, in the order in which `++` visits them from the read position. -/
def unread (b : IOBuffer) : Bytes :=
  (List.iterate (Iterator.incr b.que) b.readpos b.getBufferUsed).map b.que.load

/-- The cells of the unread bytes. -/
def unreadCells (b : IOBuffer) : List Iterator :=
  List.iterate (Iterator.incr b.que) b.readpos b.getBufferUsed

variable (hr : b.IsRing S)

include hr

lemma cap_le : S.cap ≤ maxBufferPieces * defaultBufferSize := by
  have h : S.before S.n ≤ ∑ _j ∈ Finset.range S.n, defaultBufferSize :=
    Finset.sum_le_sum fun i hi => hr.size_le i (Finset.mem_range.mp hi)
  rw [Finset.sum_const_nat (fun _ _ => rfl), Finset.card_range, hr.n_eq] at h
  rw [Shape.cap, hr.n_eq]
  exact h

lemma used_lt : b.used S < S.cap := Shape.dist_lt hr.read_valid hr.write_valid

/-- `GetBufferUsed` is the number of unread bytes. -/
lemma getBufferUsed_eq : b.getBufferUsed = b.used S := by
  have hlt := used_lt hr
  have hcap := cap_le hr
  have hconst : maxBufferPieces * defaultBufferSize = 8388608 := rfl
  rw [getBufferUsed, Iterator.sub_eq hr.toFits hr.read_valid hr.write_valid]
  change ((b.used S : ℤ) % 2 ^ 32).toNat = b.used S
  omega

lemma isEmpty_iff : b.isEmpty ↔ b.used S = 0 :=
  (Shape.dist_eq_zero hr.read_valid hr.write_valid).symm

omit hr in
/-- Iterating `++` on the buffer is walking on the ring. -/
lemma iterate_incr {que : Que} (hf : que.Fits S) {a : Iterator} (ha : S.Valid a) (k : ℕ) :
    List.iterate (Iterator.incr que) a k = S.walk a k := by
  induction k generalizing a with
  | zero => rfl
  | succ k ih =>
    rw [Shape.walk_succ, List.iterate, Iterator.incr_eq hf ha, ih (Shape.valid_next ha)]

lemma unreadCells_eq : b.unreadCells = S.walk b.readpos (b.used S) := by
  rw [unreadCells, getBufferUsed_eq hr, iterate_incr hr.toFits hr.read_valid]

lemma unread_eq : b.unread = (S.walk b.readpos (b.used S)).map b.que.load :=
  congrArg _ (unreadCells_eq hr)

lemma length_unread : b.unread.length = b.used S := by
  rw [unread_eq hr, List.length_map, Shape.length_walk]

/-- The write position is reached from the read position over the unread bytes. -/
lemma iterate_used : S.next^[b.used S] b.readpos = b.writepos :=
  Shape.iterate_dist hr.read_valid hr.write_valid

/-! ### Receiving -/

omit hr in
lemma getReciveBuffer_eq_none : b.getReciveBuffer = none ↔ b.isFull := by
  rw [getReciveBuffer]
  by_cases h : b.isFull
  · simp [h]
  · by_cases h' : b.readpos.idx = b.writepos.idx ∧ b.writepos.pos < b.readpos.pos <;>
      simp [h, h']

/-- The offered segments are the walk from the write position over all bytes that are not
in use. -/
theorem getReciveBuffer_walk {iov : List Iovec} (h : b.getReciveBuffer = some iov) :
    iov.flatMap Iovec.cells = S.walk b.writepos (S.cap - b.used S) := by
  have hfull : ¬ b.isFull := fun hc => by
    rw [getReciveBuffer_eq_none.mpr hc] at h
    exact absurd h (by simp)
  simp only [getReciveBuffer, if_neg hfull] at h
  by_cases hin : b.readpos.idx = b.writepos.idx ∧ b.writepos.pos < b.readpos.pos
  · -- the free bytes lie inside one piece
    rw [if_pos hin, Option.some.injEq] at h
    have hfree : S.cap - b.used S = S.dist b.writepos b.readpos := by
      have h1 := Shape.off_lt_cap hr.read_valid
      have hoff : S.off b.readpos = S.off b.writepos + (b.readpos.pos - b.writepos.pos) := by
        rw [Shape.off_eq, Shape.off_eq, hin.1]
        omega
      rw [used, Shape.dist, Shape.dist, if_neg (by omega), if_pos (by omega)]
      omega
    rw [← h, hfree]
    exact segment_walk hr.size_le hr.read_valid ⟨hin.1.symm, hin.2⟩
  · -- the free bytes run from the write position over the following pieces
    rw [if_neg hin, Option.some.injEq] at h
    have hne : ¬ (b.writepos.idx = b.readpos.idx ∧ b.writepos.pos < b.readpos.pos) :=
      fun hc => hin ⟨hc.1.symm, hc.2⟩
    have hwalk := segments_walk hr.toFits hr.size_le hr.write_valid hr.read_valid
    rw [Shape.around_eq hr.write_valid hr.read_valid (le_refl S.n) hne] at hwalk
    rw [← h, used]
    exact hwalk

/-- The number of bytes that `GetReciveBuffer` offers. -/
lemma length_offer {iov : List Iovec} (h : b.getReciveBuffer = some iov) :
    (iov.flatMap Iovec.cells).length = S.cap - b.used S := by
  rw [getReciveBuffer_walk hr h, Shape.length_walk]

/-- The offered segments contain no unread byte. -/
theorem offer_disjoint {iov : List Iovec} (h : b.getReciveBuffer = some iov) :
    (iov.flatMap Iovec.cells).Disjoint b.unreadCells := by
  have hlt := used_lt hr
  have hdis := Shape.walk_disjoint hr.read_valid (j := b.used S) (k := S.cap - b.used S)
    (by omega)
  rw [iterate_used hr] at hdis
  rw [getReciveBuffer_walk hr h, unreadCells_eq hr]
  exact hdis.symm

omit hr in
/-- Receiving stores the bytes in the offered cells and moves the write position. -/
lemma recive_eq {iov : List Iovec} (h : b.getReciveBuffer = some iov) (bs : Bytes) :
    b.recive bs =
      { que := b.que.storeAll (iov.flatMap Iovec.cells) bs
        readpos := b.readpos
        writepos := Iterator.add (b.que.storeAll (iov.flatMap Iovec.cells) bs) b.writepos
          bs.length } := by
  rw [recive, h]
  rfl

lemma writepos_recive {iov : List Iovec} (h : b.getReciveBuffer = some iov) (bs : Bytes) :
    (b.recive bs).writepos = S.next^[b.used S + bs.length] b.readpos := by
  have hf := hr.toFits.storeAll (iov.flatMap Iovec.cells) bs
  rw [recive_eq h]
  simp only
  rw [Iterator.add_eq hf hr.write_valid, Nat.add_comm, Function.iterate_add_apply,
    iterate_used hr]

/-- The buffer after bytes were stored in the offer and the write position was moved over
them is again a ring. -/
lemma isRing_recive {iov : List Iovec} (h : b.getReciveBuffer = some iov) (bs : Bytes) :
    (b.recive bs).IsRing S where
  toFits := by
    rw [recive_eq h]
    exact hr.toFits.storeAll _ _
  size_le := hr.size_le
  read_valid := hr.read_valid
  write_valid := by
    rw [writepos_recive hr h]
    exact Shape.valid_iterate hr.read_valid _

/-- Bytes stored on the walk from the write position follow the unread ones. -/
lemma load_walk_storeAll {t n : ℕ} (ht : b.used S + t ≤ S.cap) {bs : Bytes}
    (hbs : bs.length ≤ t) (hn : n ≤ bs.length) :
    (S.walk b.readpos (b.used S + n)).map (b.que.storeAll (S.walk b.writepos t) bs).load
      = (S.walk b.readpos (b.used S)).map b.que.load ++ bs.take n := by
  rw [Shape.walk_add, List.map_append, iterate_used hr]
  congr 1
  · -- the old bytes are not overwritten
    have hdis := Shape.walk_disjoint hr.read_valid ht
    rw [iterate_used hr] at hdis
    exact List.map_congr_left fun it hit =>
      Que.load_storeAll_of_notMem bs fun hmem => hdis hit hmem
  · -- the new bytes follow in the order of the walk
    have hall := @Que.map_load_storeAll b.que (S.walk b.writepos t) bs
      (Shape.nodup_walk hr.write_valid (by omega)) (by rwa [Shape.length_walk])
    have hwalk : S.walk b.writepos n = ((S.walk b.writepos t).take bs.length).take n := by
      rw [Shape.take_walk, Shape.take_walk, Nat.min_eq_left hbs, Nat.min_eq_left hn]
    rw [hwalk, List.map_take, hall]

/-- Receiving fewer bytes than are free adds them to the unread bytes. -/
theorem recive_spec {iov : List Iovec} (h : b.getReciveBuffer = some iov) {bs : Bytes}
    (hlt : b.used S + bs.length < S.cap) :
    (b.recive bs).used S = b.used S + bs.length ∧ (b.recive bs).unread = b.unread ++ bs := by
  have hused : (b.recive bs).used S = b.used S + bs.length := by
    change S.dist b.readpos (b.recive bs).writepos = _
    rw [writepos_recive hr h, Shape.dist_iterate hr.read_valid hlt]
  refine ⟨hused, ?_⟩
  have hque : (b.recive bs).que = b.que.storeAll (iov.flatMap Iovec.cells) bs := by
    rw [recive_eq h]
  have hload := @load_walk_storeAll S b hr (S.cap - b.used S) bs.length (by omega) bs (by omega)
    le_rfl
  rw [List.take_length, ← getReciveBuffer_walk hr h] at hload
  rw [unread_eq (isRing_recive hr h bs), hused, unread_eq hr, hque]
  exact hload

/-- Receiving exactly as many bytes as are free brings the write position to the read
position. -/
theorem recive_all {iov : List Iovec} (h : b.getReciveBuffer = some iov) {bs : Bytes}
    (hall : b.used S + bs.length = S.cap) : (b.recive bs).isEmpty := by
  change b.readpos = (b.recive bs).writepos
  rw [writepos_recive hr h, hall, Shape.iterate_cap hr.read_valid]

end IOBuffer

end MTRpc
