import MTRpc.Http.HeaderSerial
import MTRpc.Mio.Gather

/-!
# Resetting the pieces of a buffer

A header ends in the middle of its piece, and `SerializeHeader` and `Reserve` give that piece the
size up to there.  `Reset` gives the pieces from the one behind the write position on, up to and
with the piece of the read position, their default size again.  The last of them is the one that
is being sent: when it was shortened, the bytes behind its end become content.

The buffers are those that a run of the program reaches (`Served`); in all of them pieces and
offsets are within a block (`Placed`).  `reset_frame_iff` says when `Reset` leaves
the unsent bytes alone.
-/

namespace MTRpc

/-- What the program heeds when it works on a write buffer: `SerializeHeader` stays inside its
piece, the write position is put at a byte of a piece, and the loop of `+=` in `MoveSendPtr` comes
to an end only when some piece is not empty. -/
def WriteBuffer.Heeds (b : WriteBuffer) : WriteOp → Prop
  | .truncate idx size => size ≤ (b.que idx).size
  | .place it => it.pos ≤ defaultBufferSize
  | .send _ => ∃ i < maxBufferPieces, 0 < (b.que i).size
  | _ => True

namespace IOBuffer

/-- The buffers that the program reaches. -/
def Served (b : IOBuffer) : Prop :=
  (∃ r : ReadBuffer, r.Reachable ∧ r.toIOBuffer = b) ∨
    ∃ (w : WriteBuffer) (h : List (WriteBuffer × WriteOp)),
      Exec.Run WriteBuffer.Step .init h w ∧ Exec.Admits WriteBuffer.Heeds h ∧ w.toIOBuffer = b

/-- A byte of the piece is in the segments that `GetSendBuffer` produces. -/
def HoldsUnsent (b : IOBuffer) (i : ℕ) : Prop :=
  ∃ v ∈ b.getSendBuffer.getD [], v.idx = i ∧ 0 < v.len

/-- `Reset` leaves the content alone, and gives every piece without content its default size. -/
structure ResetFrame (b : IOBuffer) : Prop where
  segments : b.reset.getSendBuffer = b.getSendBuffer
  content : b.reset.gathered b.reset.writepos = b.gathered b.writepos
  used : b.reset.getBufferUsed = b.getBufferUsed
  sizes : ∀ i < maxBufferPieces, ¬ b.HoldsUnsent i → (b.reset.que i).size = defaultBufferSize

/-- When both positions share a piece and the write position is the later one, nothing else is
asked.  When the content runs all the way round, no piece is empty.  Otherwise the piece that is
being sent has the default size, as has that of the write position when it holds nothing yet, and
no piece in between is empty. -/
def ResetSafe (b : IOBuffer) : Prop :=
  if b.readpos.idx = b.writepos.idx then
    b.readpos.pos ≤ b.writepos.pos ∨
      (∀ i < maxBufferPieces, i ≠ b.readpos.idx → 0 < (b.que i).size) ∧
        (b.readpos.pos ≠ (b.que b.readpos.idx).size ∨ 0 < b.writepos.pos ∨
          (b.que b.readpos.idx).size = defaultBufferSize)
  else
    (b.que b.readpos.idx).size = defaultBufferSize ∧
      (0 < b.writepos.pos ∨ (b.que b.writepos.idx).size = defaultBufferSize) ∧
      ∀ i ∈ tidxLoop b.readpos.idx b.writepos.idx, 0 < (b.que i).size

/-- Pieces and offsets are at most as large as a block. -/
structure Placed (b : IOBuffer) : Prop where
  idx_lt : b.IdxLt
  size_le : ∀ i < maxBufferPieces, (b.que i).size ≤ defaultBufferSize
  read_le : b.readpos.pos ≤ defaultBufferSize
  write_le : b.writepos.pos ≤ defaultBufferSize

end IOBuffer

/-! ## The pieces that `Reset` visits -/

/-- The pieces strictly between two pieces, or all others. -/
lemma mem_tidxLoop {a e i : ℕ} (he : e < maxBufferPieces) (hi : i < maxBufferPieces)
    (ha : a < maxBufferPieces) :
    i ∈ tidxLoop a e ↔ a < e ∧ a < i ∧ i < e ∨ e ≤ a ∧ (a < i ∨ i < e) := by
  have hn : maxBufferPieces = 16 := rfl
  have hloop := PieceRing.Shape.mem_between (S := pieces) (t := (a + 1) % 16)
    (Nat.mod_lt _ (by decide)) he hi (by
      change PieceRing.gap 16 _ _ ≤ 16
      unfold PieceRing.gap
      split <;> omega)
  refine hloop.trans ?_
  change PieceRing.gap 16 _ _ < PieceRing.gap 16 _ _ ↔ _
  unfold PieceRing.gap
  split <;> split <;> omega

lemma lt_of_mem_tidxLoop {a e i : ℕ} (h : i ∈ tidxLoop a e) : i < maxBufferPieces :=
  PieceRing.Shape.between_lt (S := pieces) (Nat.mod_lt _ (by decide)) i h

lemma Que.size_resize (que : Que) (is : List ℕ) (i : ℕ) :
    (is.foldl (fun que j => que.setSize j defaultBufferSize) que i).size
      = if i ∈ is then defaultBufferSize else (que i).size := by
  induction is generalizing que with
  | nil => simp
  | cons j is ih =>
    rw [List.foldl_cons, ih, Que.size_setSize]
    by_cases hi : i ∈ is
    · simp [hi]
    · by_cases hj : i = j <;> simp [hi, hj]

lemma Que.load_resize (que : Que) (is : List ℕ) :
    (is.foldl (fun que j => que.setSize j defaultBufferSize) que).load = que.load := by
  induction is generalizing que with
  | nil => rfl
  | cons j is ih => rw [List.foldl_cons, ih, Que.load_setSize]

/-! ## Runs -/

namespace Iterator

variable {que : Que}

/-- The loop of `+=` ends inside a piece: from one time at the piece `i`, which is not empty, to
the next the offset falls. -/
lemma pos_carry_lt {i : ℕ} (hi : i < 16) (hsize : 0 < (que i).size) (fuel : ℕ) {it : Iterator}
    (hit : it.idx < 16) (hfuel : 16 * it.pos + (i + 16 - it.idx) % 16 < fuel) :
    (carry que fuel it).pos < (que (carry que fuel it).idx).size := by
  induction fuel generalizing it with
  | zero => omega
  | succ fuel ih =>
    rw [carry]
    split
    · next hle =>
      refine ih (Nat.mod_lt _ (by decide)) ?_
      have hn : maxBufferPieces = 16 := rfl
      simp only [hn]
      by_cases heq : it.idx = i
      · rw [heq] at hle ⊢
        omega
      · have : (i + 16 - (it.idx + 1) % 16) % 16 + 1 = (i + 16 - it.idx) % 16 := by omega
        omega
    · next hlt => exact Nat.lt_of_not_le hlt

/-- Backing up ends at an offset of at most the default size. -/
lemma pos_borrow_le (hle : ∀ i < maxBufferPieces, (que i).size ≤ defaultBufferSize) (fuel : ℕ)
    {idx : ℕ} {pos : ℤ} (hidx : idx < maxBufferPieces) (hpos : pos ≤ defaultBufferSize) :
    (borrow que fuel idx pos).pos ≤ defaultBufferSize := by
  induction fuel generalizing idx pos with
  | zero => exact Int.toNat_le.mpr hpos
  | succ fuel ih =>
    rw [borrow]
    split
    · have := hle idx hidx
      exact ih (Nat.mod_lt _ (by decide)) (by omega)
    · exact Int.toNat_le.mpr hpos

end Iterator

namespace IOBuffer

lemma Placed.reset {b : IOBuffer} (hb : b.Placed) : b.reset.Placed := by
  rw [IOBuffer.reset]
  split
  · exact hb
  split
  · exact hb
  refine ⟨hb.idx_lt, ?_, hb.read_le, hb.write_le⟩
  intro i hi
  simp only [Que.size_resize]
  split
  · exact le_rfl
  · exact hb.size_le i hi

/-- `Reserve` shortens a piece to the offset of the write position. -/
lemma Placed.reserve {b : IOBuffer} (hb : b.Placed) (size : ℕ) : (b.reserve size).2.Placed := by
  rw [IOBuffer.reserve]
  split
  · exact hb
  split
  · refine ⟨⟨hb.idx_lt.1, Nat.mod_lt _ (by decide)⟩, ?_, hb.read_le, Nat.zero_le _⟩
    intro i hi
    simp only [Que.size_setSize]
    split
    · exact hb.write_le
    · exact hb.size_le i hi
  · exact hb

/-- `SerializeHeader` heeds the rule. -/
lemma heeds_serializeHeader {b : WriteBuffer} {first : Bytes} {headers : Headers} {it : Iterator}
    (hret : (serializeHeader first headers b.que it).1 = 0) :
    b.Heeds (.truncate it.idx (((serializeHeader first headers b.que it).2 it.idx).size)) := by
  obtain ⟨-, hsize, hroom, -⟩ := serializeHeader_spec hret
  rw [hsize]
  exact hroom.le

end IOBuffer

namespace WriteBuffer

variable {b b' : WriteBuffer}

/-- Every step that heeds the rules keeps pieces and offsets within a block. -/
lemma Step.placed {op : WriteOp} (hb : b.Placed) (hop : b.Heeds op) (h : b.Step op b') :
    b'.Placed := by
  have hidx := h.idx_lt hb.idx_lt
  cases op with
  | reset =>
    subst h
    exact hb.reset
  | reserve size =>
    subst h
    exact hb.reserve size
  | alignWritePos =>
    subst h
    exact ⟨hidx, hb.size_le, hb.read_le, Nat.zero_le _⟩
  | beginPacket =>
    subst h
    exact hb
  | next =>
    obtain ⟨d, h⟩ := h
    have hread := hb.read_le
    rw [next] at h
    split at h
    · exact absurd h (by simp)
    · split at h
      · obtain ⟨-, rfl⟩ := by simpa using h
        exact ⟨hidx, hb.size_le, hread, by simp only; omega⟩
      · obtain ⟨-, rfl⟩ := by simpa using h
        exact ⟨hidx, hb.size_le, hread, Nat.zero_le _⟩
  | backUp count =>
    subst h
    have hwrite := hb.write_le
    exact ⟨hidx, hb.size_le, hb.read_le,
      Iterator.pos_borrow_le hb.size_le _ hb.idx_lt.2 (by omega)⟩
  | fill its bs =>
    subst h
    refine ⟨hidx, ?_, hb.read_le, hb.write_le⟩
    intro i hi
    simp only [Que.size_storeAll]
    exact hb.size_le i hi
  | truncate idx size =>
    subst h
    refine ⟨hidx, ?_, hb.read_le, hb.write_le⟩
    intro i hi
    simp only [Que.size_setSize]
    split
    · next heq =>
      subst heq
      exact le_trans hop (hb.size_le i hi)
    · exact hb.size_le i hi
  | place it =>
    obtain ⟨-, rfl⟩ := h
    exact ⟨hidx, hb.size_le, hb.read_le, hop⟩
  | send size =>
    subst h
    obtain ⟨i, hi, hpos⟩ := hop
    refine ⟨hidx, hb.size_le, ?_, hb.write_le⟩
    have hcarry := Iterator.pos_carry_lt hi hpos
      ((b.readpos.pos + size + 1) * maxBufferPieces)
      (show (⟨b.readpos.idx, b.readpos.pos + size⟩ : Iterator).idx < 16 from hb.idx_lt.1)
      (by rw [show maxBufferPieces = 16 from rfl]; simp only; omega)
    exact hcarry.le.trans (hb.size_le _ hidx.1)

end WriteBuffer

namespace IOBuffer

variable {b : IOBuffer}

/-- In every buffer that the program reaches pieces and offsets are within a block. -/
theorem Served.placed (h : b.Served) : b.Placed := by
  rcases h with ⟨r, hr, rfl⟩ | ⟨w, h, hrun, hheeds, rfl⟩
  · have hring := hr.isRing
    have hread := hring.read_valid.2
    have hwrite := hring.write_valid.2
    refine ⟨⟨hring.read_valid.1, hring.write_valid.1⟩, ?_, hread.le, hwrite.le⟩
    intro i hi
    rw [← hring.size_eq i hi]
    exact hring.size_le i hi
  · have hinit : WriteBuffer.init.Placed :=
      ⟨⟨by decide, by decide⟩, fun _ _ => le_rfl, Nat.zero_le _, Nat.zero_le _⟩
    exact @Exec.Run.invariant _ _ _ _ h w _ (fun w => w.Placed) hinit
      (fun _ _ _ hb hop hst => WriteBuffer.Step.placed hb hop hst) hrun hheeds

variable (hb : b.Placed)

include hb

/-! ## What `Reset` changes -/

omit hb in
/-- With the positions in one piece, the later one behind it or not, nothing is shortened that
holds a byte. -/
lemma reset_of_wrap (hidx : b.readpos.idx = b.writepos.idx)
    (hpos : b.writepos.pos < b.readpos.pos) : b.reset = b := by
  rw [reset]
  split
  · rfl
  · rw [if_pos ⟨hidx, hpos⟩]

omit hb in
/-- Otherwise the visited pieces get their default size. -/
lemma reset_eq (h : ¬ (b.readpos.idx = b.writepos.idx ∧ b.writepos.pos < b.readpos.pos)) :
    b.reset = { b with
      que := (tidxLoop b.writepos.idx b.readpos.idx ++ [b.readpos.idx]).foldl
        (fun que tidx => que.setSize tidx defaultBufferSize) b.que } := by
  have hfull : ¬ b.isFull := fun hf => h ⟨hf.1.symm, by have := hf.2; omega⟩
  rw [reset, if_neg hfull, if_neg h]

/-- With the positions in different pieces `Reset` does not visit the piece of the write position
and those in front of it. -/
lemma mem_visited (hne : b.readpos.idx ≠ b.writepos.idx) {i : ℕ} (hi : i < maxBufferPieces) :
    i ∈ tidxLoop b.writepos.idx b.readpos.idx ++ [b.readpos.idx] ↔
      i = b.readpos.idx ∨ i ≠ b.writepos.idx ∧ i ∉ tidxLoop b.readpos.idx b.writepos.idx := by
  have hr := hb.idx_lt.1
  have hw := hb.idx_lt.2
  rw [List.mem_append, List.mem_singleton, mem_tidxLoop hr hi hw, mem_tidxLoop hw hi hr]
  omega

/-- The content that lies in one piece does not depend on sizes. -/
lemma frame_of_same (hidx : b.readpos.idx = b.writepos.idx)
    (hpos : b.readpos.pos ≤ b.writepos.pos) : b.ResetFrame := by
  have hreset := reset_eq (b := b) fun h => absurd h.2 (by omega)
  have hsegments : b.reset.getSendBuffer = b.getSendBuffer := by
    rw [hreset]
    simp only [getSendBuffer, getSendBufferTo]
    by_cases hempty : b.writepos = b.readpos
    · rw [if_pos hempty, if_pos hempty]
    · have hlt : b.readpos.pos < b.writepos.pos := by
        refine Nat.lt_of_le_of_ne hpos fun heq => hempty ?_
        exact PieceRing.Pos.ext hidx.symm heq.symm
      rw [if_neg hempty, if_neg hempty, if_pos ⟨hidx.symm, hlt⟩, if_pos ⟨hidx.symm, hlt⟩]
  refine ⟨hsegments, ?_, ?_, ?_⟩
  · change ((b.reset.getSendBuffer.getD []).flatMap Iovec.cells).map b.reset.que.load = _
    rw [hsegments, hreset]
    simp only [Que.load_resize]
    rfl
  · rw [hreset]
    simp only [getBufferUsed, Iterator.sub, if_pos (show b.writepos.idx = b.readpos.idx ∧
      b.readpos.pos ≤ b.writepos.pos from ⟨hidx.symm, hpos⟩)]
  · intro i hi _
    rw [hreset]
    have hmem : i ∈ tidxLoop b.writepos.idx b.readpos.idx ++ [b.readpos.idx] := by
      have hw := hb.idx_lt.2
      rw [List.mem_append, List.mem_singleton, hidx, mem_tidxLoop hw hi hw]
      omega
    rw [Que.size_resize, if_pos hmem]

/-- The pieces that hold a byte when it does not lie in one piece. -/
lemma holdsUnsent_iff (h : ¬ (b.readpos.idx = b.writepos.idx ∧ b.readpos.pos ≤ b.writepos.pos))
    (i : ℕ) :
    b.HoldsUnsent i ↔ i = b.readpos.idx ∧ b.readpos.pos ≠ (b.que i).size ∨
      i = b.writepos.idx ∧ 0 < b.writepos.pos ∨
      i ∈ tidxLoop b.readpos.idx b.writepos.idx ∧ 0 < (b.que i).size := by
  have hne : b.writepos ≠ b.readpos := fun heq => h (by rw [heq]; exact ⟨rfl, le_rfl⟩)
  have hin : ¬ (b.writepos.idx = b.readpos.idx ∧ b.readpos.pos < b.writepos.pos) :=
    fun hc => h ⟨hc.1.symm, hc.2.le⟩
  have hlen : 0 < iovLen (b.que b.readpos.idx).size b.readpos.pos ↔
      b.readpos.pos ≠ (b.que b.readpos.idx).size := by
    have hread := hb.read_le
    have hsize := hb.size_le _ hb.idx_lt.1
    have hd : defaultBufferSize = 524288 := rfl
    rw [iovLen]
    omega
  simp only [HoldsUnsent, getSendBuffer, getSendBufferTo, if_neg hne, if_neg hin,
    Option.getD_some]
  constructor
  · rintro ⟨v, hv, rfl, hpos⟩
    rcases List.mem_append.mp hv with hv | hv
    · rcases List.mem_cons.mp hv with rfl | hv
      · exact Or.inl ⟨rfl, hlen.mp hpos⟩
      · obtain ⟨t, ht, rfl⟩ := List.mem_map.mp hv
        exact Or.inr (Or.inr ⟨ht, hpos⟩)
    · by_cases h0 : 0 < b.writepos.pos
      · rw [if_pos h0, List.mem_singleton] at hv
        subst hv
        exact Or.inr (Or.inl ⟨rfl, h0⟩)
      · rw [if_neg h0] at hv
        exact absurd hv (List.not_mem_nil)
  · rintro (⟨rfl, hpos⟩ | ⟨rfl, hpos⟩ | ⟨hi, hpos⟩)
    · exact ⟨_, List.mem_append_left _ List.mem_cons_self, rfl, hlen.mpr hpos⟩
    · refine ⟨⟨b.writepos.idx, 0, b.writepos.pos⟩, List.mem_append_right _ ?_, rfl, hpos⟩
      rw [if_pos hpos]
      exact List.mem_singleton_self _
    · exact ⟨⟨i, 0, (b.que i).size⟩,
        List.mem_append_left _ (List.mem_cons_of_mem _ (List.mem_map.mpr ⟨i, hi, rfl⟩)), rfl, hpos⟩

/-- Content that runs all the way round: nothing is changed, and every piece has to be in use. -/
lemma frame_iff_of_wrap (hidx : b.readpos.idx = b.writepos.idx)
    (hpos : b.writepos.pos < b.readpos.pos) :
    b.ResetFrame ↔ (∀ i < maxBufferPieces, i ≠ b.readpos.idx → 0 < (b.que i).size) ∧
      (b.readpos.pos ≠ (b.que b.readpos.idx).size ∨ 0 < b.writepos.pos ∨
        (b.que b.readpos.idx).size = defaultBufferSize) := by
  have hreset := reset_of_wrap hidx hpos
  have hholds := holdsUnsent_iff hb (fun h => by have := h.2; omega)
  have hr := hb.idx_lt.1
  have hother : ∀ i < maxBufferPieces, i ≠ b.readpos.idx →
      (b.HoldsUnsent i ↔ 0 < (b.que i).size) := by
    intro i hi hne
    rw [hholds, ← hidx, mem_tidxLoop hr hi hr]
    omega
  have hown : b.HoldsUnsent b.readpos.idx ↔
      b.readpos.pos ≠ (b.que b.readpos.idx).size ∨ 0 < b.writepos.pos := by
    rw [hholds, ← hidx, mem_tidxLoop hr hr hr]
    omega
  constructor
  · intro hframe
    have hsizes := hframe.sizes
    rw [hreset] at hsizes
    constructor
    · intro i hi hne
      by_contra hzero
      have hdefault := hsizes i hi fun h => hzero ((hother i hi hne).mp h)
      rw [hdefault] at hzero
      exact hzero (by decide)
    · by_contra hc
      refine hc (Or.inr (Or.inr (hsizes _ hr fun h => hc ?_)))
      exact (hown.mp h).imp_right Or.inl
  · rintro ⟨hall, hread⟩
    refine ⟨by rw [hreset], by rw [hreset], by rw [hreset], ?_⟩
    intro i hi hno
    rw [hreset]
    by_cases hne : i = b.readpos.idx
    · subst hne
      rw [hown] at hno
      exact (or_assoc.mpr hread).resolve_left hno
    · exact absurd ((hother i hi hne).mpr (hall i hi hne)) hno

/-- Content in more than one piece, but not all the way round. -/
lemma frame_iff_of_ne (hne : b.readpos.idx ≠ b.writepos.idx) :
    b.ResetFrame ↔ (b.que b.readpos.idx).size = defaultBufferSize ∧
      (0 < b.writepos.pos ∨ (b.que b.writepos.idx).size = defaultBufferSize) ∧
      ∀ i ∈ tidxLoop b.readpos.idx b.writepos.idx, 0 < (b.que i).size := by
  have hreset := reset_eq (b := b) fun h => hne h.1
  have hholds := holdsUnsent_iff hb fun h => hne h.1
  have hr := hb.idx_lt.1
  have hw := hb.idx_lt.2
  have hvisited := fun {i} hi => mem_visited hb hne (i := i) hi
  have hin : ¬ (b.writepos.idx = b.readpos.idx ∧ b.readpos.pos ≤ b.writepos.pos) :=
    fun hc => hne hc.1.symm
  -- the sizes that `Reset` leaves
  have hsize : ∀ i < maxBufferPieces, (b.reset.que i).size
      = if i = b.readpos.idx ∨ i ≠ b.writepos.idx ∧
          i ∉ tidxLoop b.readpos.idx b.writepos.idx then defaultBufferSize
        else (b.que i).size := by
    intro i hi
    rw [hreset]
    simp only [Que.size_resize, hvisited hi]
  have hread : (b.reset.que b.readpos.idx).size = defaultBufferSize := by
    rw [hsize _ hr, if_pos (Or.inl rfl)]
  have hmid : ∀ i ∈ tidxLoop b.readpos.idx b.writepos.idx,
      (b.reset.que i).size = (b.que i).size := by
    intro i hi
    have hlt := lt_of_mem_tidxLoop hi
    have hmem := (mem_tidxLoop hw hlt hr).mp hi
    rw [hsize i hlt, if_neg]
    rintro (heq | ⟨-, hout⟩)
    · omega
    · exact hout hi
  have hsum : (tidxLoop b.readpos.idx b.writepos.idx).map (fun idx => (b.reset.que idx).size)
      = (tidxLoop b.readpos.idx b.writepos.idx).map fun idx => (b.que idx).size :=
    List.map_congr_left hmid
  have hpos : b.reset.readpos = b.readpos ∧ b.reset.writepos = b.writepos := by
    rw [hreset]
    exact ⟨rfl, rfl⟩
  constructor
  · intro hframe
    have hused := hframe.used
    refine ⟨?_, ?_, ?_⟩
    · -- the rest of the piece that is being sent is counted
      rw [getBufferUsed, getBufferUsed, Iterator.sub, Iterator.sub, hpos.1, hpos.2, if_neg hin,
        if_neg hin, hsum, hread] at hused
      have hle := hb.size_le _ hr
      have hd : defaultBufferSize = 524288 := rfl
      omega
    · by_contra hc
      have hno : ¬ b.HoldsUnsent b.writepos.idx := by
        rw [hholds, mem_tidxLoop hw hw hr]
        omega
      have hdefault := hframe.sizes _ hw hno
      rw [hsize _ hw, if_neg (by rw [mem_tidxLoop hw hw hr]; omega)] at hdefault
      exact hc (Or.inr hdefault)
    · intro i hi
      by_contra hzero
      have hlt := lt_of_mem_tidxLoop hi
      have hmem := (mem_tidxLoop hw hlt hr).mp hi
      have hno : ¬ b.HoldsUnsent i := by
        rw [hholds]
        omega
      have hdefault := hframe.sizes i hlt hno
      rw [hmid i hi] at hdefault
      rw [hdefault] at hzero
      exact hzero (by decide)
  · rintro ⟨hfull, hwrite, hall⟩
    -- no piece of the content gets another size
    have hsegments : b.reset.getSendBuffer = b.getSendBuffer := by
      have hsegment : (tidxLoop b.readpos.idx b.writepos.idx).map
            (fun tidx => (⟨tidx, 0, (b.reset.que tidx).size⟩ : Iovec))
          = (tidxLoop b.readpos.idx b.writepos.idx).map
            fun tidx => ⟨tidx, 0, (b.que tidx).size⟩ :=
        List.map_congr_left fun i hi => by rw [hmid i hi]
      rw [getSendBuffer, getSendBuffer, getSendBufferTo, getSendBufferTo, hpos.1, hpos.2]
      simp only [hsegment, hread, hfull]
    refine ⟨hsegments, ?_, ?_, ?_⟩
    · change ((b.reset.getSendBuffer.getD []).flatMap Iovec.cells).map b.reset.que.load = _
      rw [hsegments, hreset]
      simp only [Que.load_resize]
      rfl
    · rw [getBufferUsed, getBufferUsed, Iterator.sub, Iterator.sub, hpos.1, hpos.2, if_neg hin,
        if_neg hin, hsum, hread, hfull]
    · intro i hi hno
      rw [hsize i hi]
      split
      · rfl
      · next hout =>
        rw [hholds] at hno
        by_cases hiw : i = b.writepos.idx
        · subst hiw
          rcases hwrite with hpos | hdefault
          · exact absurd (Or.inr (Or.inl ⟨rfl, hpos⟩)) hno
          · exact hdefault
        · have hin' : i ∈ tidxLoop b.readpos.idx b.writepos.idx := by
            by_contra hc
            exact hout (Or.inr ⟨hiw, hc⟩)
          exact absurd (Or.inr (Or.inr ⟨hin', hall i hin'⟩)) hno

end IOBuffer

/-- **Reset.**  In every buffer that the program reaches, `Reset` leaves the unsent bytes alone
and gives all other pieces their default size exactly when the buffer is in a safe state. -/
theorem reset_frame_iff {b : IOBuffer} (h : b.Served) : b.ResetFrame ↔ b.ResetSafe := by
  have hb := h.placed
  rw [IOBuffer.ResetSafe]
  split
  · next hidx =>
    rcases Nat.lt_or_ge b.writepos.pos b.readpos.pos with hlt | hge
    · exact (IOBuffer.frame_iff_of_wrap hb hidx hlt).trans (or_iff_right (by omega)).symm
    · exact iff_of_true (IOBuffer.frame_of_same hb hidx hge) (Or.inl hge)
  · next hne => exact IOBuffer.frame_iff_of_ne hb hne

/-- The fresh buffers. -/
theorem reset_frame_init : WriteBuffer.init.ResetFrame ↔ WriteBuffer.init.ResetSafe :=
  reset_frame_iff (Or.inr ⟨WriteBuffer.init, [], .nil, Exec.admits_nil, rfl⟩)

/-- The header of a packet without a body. -/
def headerBytes : Bytes := List.replicate 100 65

/-- A fresh write buffer in which that header stands. -/
def writtenHeader : WriteBuffer :=
  { WriteBuffer.init.alignWritePos with
    que := WriteBuffer.init.que.storeAll (PieceRing.cells 0 0 100) headerBytes }

/-- The same, with the piece shortened to it. -/
def queuedHeader : WriteBuffer := { writtenHeader with que := writtenHeader.que.setSize 0 100 }

lemma served_queuedHeader : queuedHeader.Served := by
  have halign : WriteBuffer.init.Step .alignWritePos WriteBuffer.init.alignWritePos := rfl
  have hfill : WriteBuffer.init.alignWritePos.Step (.fill (PieceRing.cells 0 0 100) headerBytes)
      writtenHeader := rfl
  have htruncate : writtenHeader.Step (.truncate 0 100) queuedHeader := rfl
  refine Or.inr ⟨queuedHeader, _, ((Exec.Run.nil.snoc halign).snoc hfill).snoc htruncate, ?_, rfl⟩
  have hsize : (writtenHeader.que 0).size = defaultBufferSize := Que.size_storeAll _ _ _
  refine Exec.admits_snoc.mpr ⟨Exec.admits_snoc.mpr ⟨Exec.admits_snoc.mpr
    ⟨Exec.admits_nil, trivial⟩, trivial⟩, ?_⟩
  rw [WriteBuffer.Heeds, hsize]
  decide

/-- There `Reset` makes 524288 bytes of the 100. -/
theorem not_reset_frame : ¬ ∀ b : IOBuffer, b.Served → b.ResetFrame := by
  intro hall
  exact absurd (hall _ served_queuedHeader).used (by decide +kernel)

end MTRpc
