import MTRpc.Mio.BufferReset

/-!
# The room that `Reserve` finds

A packet is serialised behind a hole for its header: `Reserve` looks for the room of the hole at
the write position, and gives the rest of its piece up when there is too little of it;
`AlignWritePos` moves the write position to the start of the next piece, where the body begins.
Neither of the two compares the piece it moves to with the piece of the read position.
`reserve_iff` says when the hole and the piece of the body are free of unsent bytes.
-/

namespace MTRpc

open PieceRing (Shape)

namespace IOBuffer

/-- The cells of the unsent bytes, in the segments that `GetSendBuffer` produces. -/
def unsentCells (b : IOBuffer) : List Iterator :=
  (b.getSendBuffer.getD []).flatMap Iovec.cells

/-- The `size` cells from the write position on. -/
def hole (b : IOBuffer) (size : ℕ) : List Iterator :=
  PieceRing.cells b.writepos.idx b.writepos.pos size

/-- The rest of its piece given up, as `Reserve` does it. -/
def moveOn (b : IOBuffer) : IOBuffer :=
  { b with
    que := b.que.setSize b.writepos.idx b.writepos.pos
    writepos := ⟨(b.writepos.idx + 1) % maxBufferPieces, 0⟩ }

/-- Whatever is stored in the hole of `b`, or in the piece in which the write position is after
`AlignWritePos`, the unsent bytes `u` are the first of the content then. -/
def Separates (b : IOBuffer) (size : ℕ) (u : Bytes) : Prop :=
  ∀ (its : List Iterator) (bs : Bytes),
    (∀ it ∈ its, it ∈ b.hole size ∨ it.idx = b.alignWritePos.writepos.idx) →
      u <+: { b.alignWritePos with que := b.que.storeAll its bs }.gathered b.alignWritePos.writepos

/-- The piece that `AlignWritePos` moves to holds no unsent byte. -/
structure AlignContract (b : IOBuffer) : Prop where
  apart : ¬ b.HoldsUnsent b.alignWritePos.writepos.idx
  kept : b.Separates 0 (b.gathered b.writepos)

/-- When `Reserve` returns `true`, there are `size` cells at the write position, all in one piece
and none with an unsent byte, and the piece that `AlignWritePos` moves to then holds none either.
When it returns `false`, it has changed nothing. -/
structure ReserveContract (b : IOBuffer) (size : ℕ) : Prop where
  room : (b.reserve size).1 = true → ∀ it ∈ (b.reserve size).2.hole size,
    it.pos < ((b.reserve size).2.que it.idx).size ∧ it ∉ b.unsentCells
  apart : (b.reserve size).1 = true →
    ¬ b.HoldsUnsent (b.reserve size).2.alignWritePos.writepos.idx
  kept : (b.reserve size).1 = true → (b.reserve size).2.Separates size (b.gathered b.writepos)
  refused : (b.reserve size).1 = false → (b.reserve size).2 = b

/-- The content runs all the way round, to the piece of the read position again. -/
def Wraps (b : IOBuffer) : Prop :=
  b.writepos.idx = b.readpos.idx ∧ b.writepos.pos < b.readpos.pos

/-- `AlignWritePos` does not come to the piece of the read position. -/
def AlignSafe (b : IOBuffer) : Prop :=
  b.isEmpty ∨ ¬ b.Wraps ∧ (b.writepos.idx + 1) % maxBufferPieces ≠ b.readpos.idx

/-- `Reserve` refuses, or finds the room at the write position, or in the next piece, and neither
that nor the one after it is the piece of the read position. -/
def ReserveSafe (b : IOBuffer) (size : ℕ) : Prop :=
  b.Wraps ∨
    if b.writepos.pos + size ≤ (b.que b.writepos.idx).size then
      b.isEmpty ∨ (b.writepos.idx + 1) % maxBufferPieces ≠ b.readpos.idx
    else
      size ≤ (b.que ((b.writepos.idx + 1) % maxBufferPieces)).size ∧
        (b.isEmpty ∨ (b.writepos.idx + 1) % maxBufferPieces ≠ b.readpos.idx ∧
          (b.writepos.idx + 2) % maxBufferPieces ≠ b.readpos.idx)

instance (b : IOBuffer) : Decidable b.Wraps := inferInstanceAs (Decidable (_ ∧ _))

instance (b : IOBuffer) : Decidable b.AlignSafe := inferInstanceAs (Decidable (_ ∨ _))

instance (b : IOBuffer) (size : ℕ) : Decidable (b.ReserveSafe size) :=
  inferInstanceAs (Decidable (_ ∨ _))

/-! ## The cells behind the write position -/

/-- One piece further the same pieces and the one that was left lie in between. -/
lemma tidxLoop_succ {i j : ℕ} (hi : i < maxBufferPieces) (hj : j < maxBufferPieces) (hij : i ≠ j)
    (hne : (i + 1) % maxBufferPieces ≠ j) :
    tidxLoop j ((i + 1) % maxBufferPieces) = tidxLoop j i ++ [i] := by
  have hall : ∀ j < 16, ∀ i < 16, i ≠ j → (i + 1) % 16 ≠ j →
      tidxLoop j ((i + 1) % 16) = tidxLoop j i ++ [i] := by decide +kernel
  exact hall j hj i hi hij hne

lemma tidxLoop_next {i : ℕ} (hi : i < maxBufferPieces) :
    tidxLoop i ((i + 1) % maxBufferPieces) = [] := by
  have hall : ∀ i < 16, tidxLoop i ((i + 1) % 16) = [] := by decide +kernel
  exact hall i hi

section

variable {b : IOBuffer}

/-- A cell of the content lies in a piece that holds a byte. -/
lemma holdsUnsent_of_mem {it : Iterator} (h : it ∈ b.unsentCells) : b.HoldsUnsent it.idx := by
  obtain ⟨v, hv, hit⟩ := List.mem_flatMap.mp h
  obtain ⟨hidx, hpos, hlt⟩ := PieceRing.mem_cells.mp hit
  exact ⟨v, hv, hidx.symm, by omega⟩

/-- In its own piece the content ends at the write position. -/
lemma pos_lt_of_mem (hb : b.IdxLt) (hwrap : ¬ b.Wraps) {it : Iterator} (h : it ∈ b.unsentCells)
    (hle : b.writepos.pos ≤ defaultBufferSize) (hidx : it.idx = b.writepos.idx) :
    it.pos < b.writepos.pos := by
  have hd : defaultBufferSize = 524288 := rfl
  obtain ⟨v, hv, hit⟩ := List.mem_flatMap.mp h
  obtain ⟨hvidx, hpos, hlt⟩ := PieceRing.mem_cells.mp hit
  rw [getSendBuffer, getSendBufferTo] at hv
  split at hv
  · simp at hv
  split at hv
  · rename_i hin
    obtain rfl : v = _ := by simpa using hv
    dsimp only at hlt hpos
    rw [iovLen_eq hin.2.le hle] at hlt
    omega
  · rename_i hne hin
    have hij : b.readpos.idx ≠ b.writepos.idx := by
      intro heq
      have hle' : b.readpos.pos ≤ b.writepos.pos := by
        by_contra hgt
        exact hwrap ⟨heq.symm, by omega⟩
      have hge : ¬ b.readpos.pos < b.writepos.pos := fun hlt => hin ⟨heq.symm, hlt⟩
      exact hne (PieceRing.Pos.ext heq.symm (by omega))
    rw [Option.getD_some] at hv
    rcases List.mem_append.mp hv with hv | hv
    · rcases List.mem_cons.mp hv with rfl | hv
      · exact absurd (hvidx.symm.trans hidx) hij
      · obtain ⟨t, ht, rfl⟩ := List.mem_map.mp hv
        have hti : t = b.writepos.idx := hvidx.symm.trans hidx
        rw [hti, mem_tidxLoop hb.2 hb.2 hb.1] at ht
        omega
    · split at hv
      · obtain rfl : v = _ := by simpa using hv
        dsimp only at hlt
        omega
      · simp at hv

/-- One piece further the content has the rest of the piece that was left in addition. -/
lemma unsentCells_advance (hb : b.IdxLt) {que : Que} (hwrap : ¬ b.Wraps)
    (hne : (b.writepos.idx + 1) % maxBufferPieces ≠ b.readpos.idx)
    (hsize : ∀ k, k ≠ b.writepos.idx → (que k).size = (b.que k).size)
    (hpos : b.writepos.pos ≤ (que b.writepos.idx).size)
    (hle : (que b.writepos.idx).size ≤ defaultBufferSize) :
    IOBuffer.unsentCells { b with
        que := que, writepos := ⟨(b.writepos.idx + 1) % maxBufferPieces, 0⟩ }
      = b.unsentCells ++ PieceRing.cells b.writepos.idx b.writepos.pos
          ((que b.writepos.idx).size - b.writepos.pos) := by
  have hsplit : PieceRing.cells b.writepos.idx 0 (que b.writepos.idx).size
      = PieceRing.cells b.writepos.idx 0 b.writepos.pos ++ PieceRing.cells b.writepos.idx
          b.writepos.pos ((que b.writepos.idx).size - b.writepos.pos) := by
    have hsum := PieceRing.cells_add b.writepos.idx 0 b.writepos.pos
      ((que b.writepos.idx).size - b.writepos.pos)
    rwa [Nat.add_sub_cancel' hpos, Nat.zero_add] at hsum
  have hstop : (⟨(b.writepos.idx + 1) % maxBufferPieces, 0⟩ : Iterator) ≠ b.readpos :=
    fun heq => hne (congrArg PieceRing.Pos.idx heq)
  have hin : ¬ ((b.writepos.idx + 1) % maxBufferPieces = b.readpos.idx ∧ b.readpos.pos < 0) :=
    fun h => hne h.1
  simp only [unsentCells, getSendBuffer, getSendBufferTo, if_neg hstop, if_neg hin,
    Option.getD_some, lt_irrefl, if_false, List.append_nil]
  by_cases hij : b.readpos.idx = b.writepos.idx
  · -- the content lies in one piece
    have hqp : b.readpos.pos ≤ b.writepos.pos := by
      by_contra hgt
      exact hwrap ⟨hij.symm, by omega⟩
    rw [hij, tidxLoop_next hb.2, List.map_nil, List.flatMap_singleton, Iovec.cells,
      iovLen_eq (hqp.trans hpos) hle]
    have hcells : PieceRing.cells b.writepos.idx b.readpos.pos
          ((que b.writepos.idx).size - b.readpos.pos)
        = PieceRing.cells b.writepos.idx b.readpos.pos (b.writepos.pos - b.readpos.pos)
          ++ PieceRing.cells b.writepos.idx b.writepos.pos
            ((que b.writepos.idx).size - b.writepos.pos) := by
      have hsum := PieceRing.cells_add b.writepos.idx b.readpos.pos
        (b.writepos.pos - b.readpos.pos) ((que b.writepos.idx).size - b.writepos.pos)
      rw [Nat.add_sub_cancel' hqp] at hsum
      rw [← hsum]
      congr 1
      omega
    dsimp only
    rw [hcells]
    congr 1
    by_cases hempty : b.writepos = b.readpos
    · rw [if_pos hempty, hempty, Nat.sub_self]
      rfl
    · have hlt : b.readpos.pos < b.writepos.pos := by
        refine Nat.lt_of_le_of_ne hqp fun heq => hempty ?_
        exact PieceRing.Pos.ext hij.symm heq.symm
      rw [if_neg hempty, if_pos ⟨rfl, hlt⟩, Option.getD_some, List.flatMap_singleton, Iovec.cells,
        iovLen_eq hqp (hpos.trans hle)]
  · have hempty : b.writepos ≠ b.readpos := fun heq => hij (congrArg PieceRing.Pos.idx heq.symm)
    have hsame : ¬ (b.writepos.idx = b.readpos.idx ∧ b.readpos.pos < b.writepos.pos) :=
      fun h => hij h.1.symm
    rw [if_neg hempty, if_neg hsame, Option.getD_some, tidxLoop_succ hb.2 hb.1 (Ne.symm hij) hne,
      hsize _ hij]
    -- the pieces in between are the same
    have hmid : (tidxLoop b.readpos.idx b.writepos.idx).map
          (fun tidx => (⟨tidx, 0, (que tidx).size⟩ : Iovec))
        = (tidxLoop b.readpos.idx b.writepos.idx).map fun tidx => ⟨tidx, 0, (b.que tidx).size⟩ := by
      refine List.map_congr_left fun t ht => ?_
      have hti : t ≠ b.writepos.idx := by
        rintro rfl
        rw [mem_tidxLoop hb.2 hb.2 hb.1] at ht
        omega
      rw [hsize t hti]
    have hlast : (if 0 < b.writepos.pos then
          [(⟨b.writepos.idx, 0, b.writepos.pos⟩ : Iovec)] else []).flatMap Iovec.cells
        = PieceRing.cells b.writepos.idx 0 b.writepos.pos := by
      by_cases h0 : 0 < b.writepos.pos
      · rw [if_pos h0, List.flatMap_singleton, Iovec.cells]
      · rw [if_neg h0, Nat.eq_zero_of_not_pos h0]
        rfl
    rw [List.map_append, hmid, List.map_singleton]
    simp only [List.flatMap_append, List.flatMap_cons, List.flatMap_nil, List.cons_append, hlast,
      List.append_assoc, List.append_nil]
    rw [Iovec.cells, Iovec.cells, hsplit]

/-- Bytes that are stored elsewhere leave the content in front of them. -/
lemma separates_of_apart {c : IOBuffer} {size : ℕ} {u : List Iterator} {v : Bytes}
    (hv : v = u.map c.que.load) (hrest : ∃ rest, ∀ que : Que, (∀ k, (que k).size = (c.que k).size) →
      IOBuffer.unsentCells { c.alignWritePos with que := que } = u ++ rest)
    (hhole : ∀ it ∈ c.hole size, it ∉ u)
    (hpiece : ∀ it ∈ u, it.idx ≠ c.alignWritePos.writepos.idx) : c.Separates size v := by
  obtain ⟨rest, hrest⟩ := hrest
  intro its bs hits
  have hcells := hrest (c.que.storeAll its bs) (fun k => Que.size_storeAll _ _ _)
  have hload : u.map (c.que.storeAll its bs).load = u.map c.que.load := by
    refine List.map_congr_left fun it hit => Que.load_storeAll_of_notMem _ fun hmem => ?_
    rcases hits it hmem with h | h
    · exact hhole it h hit
    · exact hpiece it hit h
  have hgathered : IOBuffer.gathered { c.alignWritePos with que := c.que.storeAll its bs }
      c.alignWritePos.writepos = (u ++ rest).map (c.que.storeAll its bs).load := by
    rw [← hcells]
    rfl
  rw [hgathered, List.map_append, hload, hv]
  exact List.prefix_append _ _

end

section

variable {S : Shape} {b : IOBuffer} (hr : b.IsRing S)

include hr

lemma placed_of_isRing : b.Placed where
  idx_lt := by
    rw [IdxLt, ← hr.n_eq]
    exact ⟨hr.read_valid.1, hr.write_valid.1⟩
  size_le i hi := by
    rw [← hr.n_eq] at hi
    rw [← hr.size_eq i hi]
    exact hr.size_le i hi
  read_le := hr.read_valid.2.le.trans (hr.size_le _ hr.read_valid.1)
  write_le := hr.write_valid.2.le.trans (hr.size_le _ hr.write_valid.1)

/-- The pieces that hold a byte: from the piece of the read position on up to that of the write
position, which may hold none, or all when the content runs all the way round. -/
lemma holdsUnsent_ring_iff {k : ℕ} (hk : k < maxBufferPieces) :
    b.HoldsUnsent k ↔ ¬ b.isEmpty ∧ (k = b.readpos.idx ∨ b.Wraps ∧ k ≠ b.readpos.idx ∨
      k = b.writepos.idx ∧ 0 < b.writepos.pos ∨
      b.readpos.idx ≠ b.writepos.idx ∧ k ∈ tidxLoop b.readpos.idx b.writepos.idx) := by
  have hb := placed_of_isRing hr
  obtain ⟨hj, hi⟩ := hb.idx_lt
  by_cases hempty : b.writepos = b.readpos
  · refine iff_of_false ?_ fun h => h.1 hempty.symm
    rintro ⟨v, hv, -⟩
    rw [getSendBuffer, getSendBufferTo, if_pos hempty] at hv
    exact absurd hv (by simp)
  have hne : ¬ b.isEmpty := fun h => hempty h.symm
  rw [and_iff_right hne]
  by_cases hsame : b.readpos.idx = b.writepos.idx ∧ b.readpos.pos ≤ b.writepos.pos
  · -- in one piece
    have hlt : b.readpos.pos < b.writepos.pos :=
      Nat.lt_of_le_of_ne hsame.2 fun heq => hne (PieceRing.Pos.ext hsame.1 heq)
    have hlen := iovLen_eq hsame.2 hb.write_le
    have hholds : b.HoldsUnsent k ↔ k = b.readpos.idx := by
      rw [HoldsUnsent, getSendBuffer, getSendBufferTo, if_neg hempty, if_pos ⟨hsame.1.symm, hlt⟩]
      simp only [Option.getD_some, List.mem_singleton, exists_eq_left, hlen]
      exact ⟨fun h => h.1.symm, fun h => ⟨h.symm, by omega⟩⟩
    rw [hholds, Wraps]
    omega
  · rw [holdsUnsent_iff hb hsame]
    have hread : b.readpos.pos ≠ (b.que b.readpos.idx).size := by
      rw [← hr.size_eq _ hr.read_valid.1]
      exact hr.read_valid.2.ne
    have hsize : 0 < (b.que k).size := by
      rw [← hr.n_eq] at hk
      rw [← hr.size_eq k hk]
      exact S.size_pos k hk
    rw [mem_tidxLoop hi hk hj, Wraps]
    constructor
    · rintro (⟨rfl, -⟩ | h | h) <;> omega
    · rintro (rfl | h | h | h)
      · exact Or.inl ⟨rfl, hread⟩
      all_goals omega

/-- The content reaches the next piece exactly when `AlignWritePos` is not safe. -/
lemma holdsUnsent_next_iff :
    b.HoldsUnsent b.alignWritePos.writepos.idx ↔ ¬ b.AlignSafe := by
  have hn : maxBufferPieces = 16 := rfl
  obtain ⟨hj, hi⟩ := (placed_of_isRing hr).idx_lt
  have hk : (b.writepos.idx + 1) % maxBufferPieces < maxBufferPieces := Nat.mod_lt _ (by decide)
  rw [alignWritePos, holdsUnsent_ring_iff hr hk, mem_tidxLoop hi hk hj, AlignSafe, Wraps]
  by_cases hempty : b.isEmpty
  · simp [hempty]
  · simp only [hempty, not_false_eq_true, true_and, false_or]
    rw [hn]
    omega

/-- The piece behind that one. -/
lemma holdsUnsent_second_iff (hwrap : ¬ b.Wraps) :
    b.HoldsUnsent ((b.writepos.idx + 2) % maxBufferPieces) ↔
      ¬ b.isEmpty ∧ ((b.writepos.idx + 1) % maxBufferPieces = b.readpos.idx ∨
        (b.writepos.idx + 2) % maxBufferPieces = b.readpos.idx) := by
  have hn : maxBufferPieces = 16 := rfl
  obtain ⟨hj, hi⟩ := (placed_of_isRing hr).idx_lt
  have hk : (b.writepos.idx + 2) % maxBufferPieces < maxBufferPieces := Nat.mod_lt _ (by decide)
  rw [Wraps] at hwrap
  rw [holdsUnsent_ring_iff hr hk, mem_tidxLoop hi hk hj, Wraps]
  refine and_congr_right fun _ => ?_
  rw [hn]
  omega

omit hr in
lemma gathered_of_isEmpty (h : b.isEmpty) : b.gathered b.writepos = [] := by
  rw [gathered, getSendBufferTo, if_pos h.symm]
  rfl

/-- Where `AlignWritePos` is safe, only what is stored in a free hole has to be looked at. -/
lemma separates_of_alignSafe {size : ℕ} (hsafe : b.AlignSafe)
    (hfree : ∀ it ∈ b.hole size, it ∉ b.unsentCells) :
    b.Separates size (b.gathered b.writepos) := by
  rcases hsafe with hempty | ⟨hwrap, hne⟩
  · intro its bs _
    rw [gathered_of_isEmpty hempty]
    exact List.nil_prefix
  have hb := placed_of_isRing hr
  have hsize := hr.size_eq _ hr.write_valid.1
  have hpos : b.writepos.pos ≤ (b.que b.writepos.idx).size := hsize ▸ hr.write_valid.2.le
  refine separates_of_apart (u := b.unsentCells) rfl
    ⟨PieceRing.cells b.writepos.idx b.writepos.pos
      ((b.que b.writepos.idx).size - b.writepos.pos), fun que hque => ?_⟩ hfree ?_
  · have hadvance := unsentCells_advance hb.idx_lt hwrap hne (fun k _ => hque k)
      (by rw [hque]; exact hpos) (by rw [hque]; exact hb.size_le _ hb.idx_lt.2)
    rw [hque] at hadvance
    exact hadvance
  · intro it hit hidx
    have hholds := holdsUnsent_of_mem hit
    rw [hidx] at hholds
    exact (holdsUnsent_next_iff hr).mp hholds (Or.inr ⟨hwrap, hne⟩)

/-- `AlignWritePos` without `Reserve`. -/
lemma alignContract_iff : b.AlignContract ↔ b.AlignSafe := by
  have hnext := holdsUnsent_next_iff hr
  constructor
  · intro h
    by_contra hno
    exact h.apart (hnext.mpr hno)
  · intro h
    exact ⟨fun hholds => hnext.mp hholds h, separates_of_alignSafe hr h (by simp [hole])⟩

omit hr in
lemma succ_succ_mod (i : ℕ) :
    ((i + 1) % maxBufferPieces + 1) % maxBufferPieces = (i + 2) % maxBufferPieces := by
  rw [Nat.mod_add_mod]

/-- The test of `Reserve`, in an unsigned difference. -/
lemma reserve_test (size : ℕ) :
    ((b.que b.writepos.idx).size + 2 ^ 32 - b.writepos.pos) % 2 ^ 32 < size ↔
      ¬ b.writepos.pos + size ≤ (b.que b.writepos.idx).size := by
  have hb := placed_of_isRing hr
  have hle := hb.size_le _ hb.idx_lt.2
  have hlt := hr.write_valid.2
  rw [hr.size_eq _ hr.write_valid.1] at hlt
  have hd : defaultBufferSize = 524288 := rfl
  omega

/-- There is room at the write position. -/
lemma reserveContract_stay {size : ℕ} (hwrap : ¬ b.Wraps)
    (hroom : b.writepos.pos + size ≤ (b.que b.writepos.idx).size) :
    b.ReserveContract size ↔ b.AlignSafe := by
  have hreserve : b.reserve size = (true, b) := by
    have hfirst : ¬ (b.writepos.idx = b.readpos.idx ∧ b.writepos.pos < b.readpos.pos) := hwrap
    rw [reserve]
    rw [if_neg hfirst, if_neg ((reserve_test hr size).not.mpr (not_not.mpr hroom))]
  have hb := placed_of_isRing hr
  have hnext := holdsUnsent_next_iff hr
  constructor
  · intro h
    have hapart := h.apart (by rw [hreserve])
    rw [hreserve] at hapart
    by_contra hno
    exact hapart (hnext.mpr hno)
  · intro hsafe
    have hfree : ∀ it ∈ b.hole size, it.pos < (b.que it.idx).size ∧ it ∉ b.unsentCells := by
      intro it hit
      obtain ⟨hidx, hpos, hlt⟩ := PieceRing.mem_cells.mp hit
      refine ⟨by rw [hidx]; omega, ?_⟩
      intro hmem
      have hbefore := pos_lt_of_mem hb.idx_lt hwrap hmem hb.write_le hidx
      omega
    refine ⟨fun _ => by rwa [hreserve], ?_, ?_, ?_⟩
    · intro _
      rw [hreserve]
      exact fun hholds => hnext.mp hholds hsafe
    · intro _
      rw [hreserve]
      exact separates_of_alignSafe hr hsafe fun it hit => (hfree it hit).2
    · intro h
      rw [hreserve] at h
      exact absurd h Bool.noConfusion

/-- The piece behind the write position keeps its size. -/
lemma size_moveOn_next :
    (b.moveOn.que b.moveOn.writepos.idx).size
      = (b.que ((b.writepos.idx + 1) % maxBufferPieces)).size := by
  have hn : maxBufferPieces = 16 := rfl
  have hi := (placed_of_isRing hr).idx_lt.2
  have hother : (b.writepos.idx + 1) % maxBufferPieces ≠ b.writepos.idx := by
    rw [hn] at hi ⊢
    omega
  rw [moveOn]
  simp only [Que.size_setSize, if_neg hother]

/-- When `Reserve` moves on, the unsent bytes stay what they were. -/
lemma separates_moveOn {size : ℕ} (hwrap : ¬ b.Wraps)
    (hne : (b.writepos.idx + 1) % maxBufferPieces ≠ b.readpos.idx)
    (hne' : (b.writepos.idx + 2) % maxBufferPieces ≠ b.readpos.idx)
    (hfree : ∀ it ∈ b.moveOn.hole size, it ∉ b.unsentCells) :
    b.moveOn.Separates size (b.gathered b.writepos) := by
  have hb := placed_of_isRing hr
  have hk : (b.writepos.idx + 1) % maxBufferPieces < maxBufferPieces := Nat.mod_lt _ (by decide)
  have hload : b.moveOn.que.load = b.que.load := Que.load_setSize _ _ _
  have hown : (b.moveOn.que b.writepos.idx).size = b.writepos.pos := by
    rw [moveOn]
    simp only [Que.size_setSize, if_true]
  -- the piece that is given up ends with the content
  have hfirst : b.moveOn.unsentCells = b.unsentCells := by
    have hadvance := @unsentCells_advance b hb.idx_lt b.moveOn.que hwrap hne
      (fun k hk => by rw [moveOn]; simp only [Que.size_setSize, if_neg hk])
      hown.ge (hown.le.trans hb.write_le)
    rw [hown, Nat.sub_self] at hadvance
    exact hadvance.trans (List.append_nil _)
  refine separates_of_apart (u := b.unsentCells) (by rw [hload]; rfl)
    ⟨PieceRing.cells b.moveOn.writepos.idx 0 (b.moveOn.que b.moveOn.writepos.idx).size,
      fun que hque => ?_⟩ hfree ?_
  · have hlt : ((b.moveOn.que b.moveOn.writepos.idx).size) ≤ defaultBufferSize := by
      rw [size_moveOn_next hr]
      exact hb.size_le _ hk
    have hadvance := @unsentCells_advance b.moveOn ⟨hb.idx_lt.1, hk⟩ que
      (fun h => hne h.1) (by rw [moveOn, succ_succ_mod]; exact hne') (fun k _ => hque k)
      (Nat.zero_le _) (by rw [hque]; exact hlt)
    rw [hque, hfirst] at hadvance
    exact hadvance
  · intro it hit hidx
    have hholds := holdsUnsent_of_mem hit
    rw [hidx, alignWritePos, moveOn, succ_succ_mod, holdsUnsent_second_iff hr hwrap] at hholds
    exact not_or.mpr ⟨hne, hne'⟩ hholds.2

/-- There is not, and the rest of the piece is given up. -/
lemma reserveContract_move {size : ℕ} (hwrap : ¬ b.Wraps)
    (hroom : ¬ b.writepos.pos + size ≤ (b.que b.writepos.idx).size) :
    b.ReserveContract size ↔
      size ≤ (b.que ((b.writepos.idx + 1) % maxBufferPieces)).size ∧
        (b.isEmpty ∨ (b.writepos.idx + 1) % maxBufferPieces ≠ b.readpos.idx ∧
          (b.writepos.idx + 2) % maxBufferPieces ≠ b.readpos.idx) := by
  have hlt := hr.write_valid.2
  rw [hr.size_eq _ hr.write_valid.1] at hlt
  have hreserve : b.reserve size = (true, b.moveOn) := by
    have hfirst : ¬ (b.writepos.idx = b.readpos.idx ∧ b.writepos.pos < b.readpos.pos) := hwrap
    rw [reserve]
    rw [if_neg hfirst, if_pos ((reserve_test hr size).mpr hroom)]
    rfl
  have hsecond : b.HoldsUnsent b.moveOn.alignWritePos.writepos.idx ↔
      ¬ b.isEmpty ∧ ((b.writepos.idx + 1) % maxBufferPieces = b.readpos.idx ∨
        (b.writepos.idx + 2) % maxBufferPieces = b.readpos.idx) := by
    rw [alignWritePos, moveOn, succ_succ_mod]
    exact holdsUnsent_second_iff hr hwrap
  constructor
  · intro h
    have hroom' := h.room (by rw [hreserve])
    have hapart := h.apart (by rw [hreserve])
    rw [hreserve] at hroom' hapart
    rw [hsecond] at hapart
    constructor
    · -- the last cell of the hole
      have hlast := (hroom' ⟨b.moveOn.writepos.idx, size - 1⟩
        (PieceRing.mem_cells.mpr ⟨rfl, Nat.zero_le _, by rw [moveOn]; simp only; omega⟩)).1
      have hnext := size_moveOn_next hr
      dsimp only at hlast hnext
      omega
    · by_contra hno
      refine hapart ⟨fun hempty => hno (Or.inl hempty), ?_⟩
      by_contra hno'
      exact hno (Or.inr (not_or.mp hno'))
  · rintro ⟨hsize, hsafe⟩
    -- the piece of the hole holds no byte
    have hfree : ∀ it ∈ b.moveOn.hole size, it ∉ b.unsentCells := by
      intro it hit hmem
      obtain ⟨hidx, -, -⟩ := PieceRing.mem_cells.mp hit
      have hholds := holdsUnsent_of_mem hmem
      rw [hidx] at hholds
      refine (holdsUnsent_next_iff hr).mp hholds ?_
      exact hsafe.imp_right fun h => ⟨hwrap, h.1⟩
    refine ⟨?_, ?_, ?_, ?_⟩
    · intro _
      rw [hreserve]
      intro it hit
      obtain ⟨hidx, -, hlt'⟩ := PieceRing.mem_cells.mp hit
      refine ⟨?_, hfree it hit⟩
      have hnext := size_moveOn_next hr
      rw [hidx]
      dsimp only at hlt' hnext ⊢
      rw [show b.moveOn.writepos.pos = 0 from rfl] at hlt'
      omega
    · intro _
      rw [hreserve, hsecond]
      rintro ⟨hne, hmeets⟩
      exact not_or.mpr (hsafe.resolve_left hne) hmeets
    · intro _
      rw [hreserve]
      by_cases hempty : b.isEmpty
      · intro its bs _
        rw [gathered_of_isEmpty hempty]
        exact List.nil_prefix
      · obtain ⟨hne, hne'⟩ := hsafe.resolve_left hempty
        exact separates_moveOn hr hwrap hne hne' hfree
    · intro h
      rw [hreserve] at h
      exact absurd h Bool.noConfusion

end

end IOBuffer

/-- A write buffer whose content fills the pieces in front of `i`. -/
def filledUpTo (i : ℕ) : WriteBuffer := { WriteBuffer.init with writepos := ⟨i, 0⟩ }

lemma reachable_filledUpTo {i : ℕ} (hi : i < maxBufferPieces) : (filledUpTo i).Reachable := by
  induction i with
  | zero => exact ⟨[], .nil⟩
  | succ i ih =>
    obtain ⟨h, hrun⟩ := ih (by omega)
    have hstep : (filledUpTo i).Step .alignWritePos (filledUpTo (i + 1)) := by
      rw [WriteBuffer.Step, filledUpTo, filledUpTo, WriteBuffer.alignWritePos,
        IOBuffer.alignWritePos, Nat.mod_eq_of_lt hi]
    exact ⟨_, hrun.snoc hstep⟩

end MTRpc
