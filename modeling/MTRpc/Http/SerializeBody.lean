import MTRpc.Http.Header
import MTRpc.Mio.Gather

/-!
# Serialising a body

`SerializeBody` copies the body of a response into the pieces of a write buffer.  It keeps a
pointer beside the iterator, and where it has filled up a piece it adds this pointer to the
iterator's offset (`it._pos += bufptr`): the sum is cut to an `int`, and `++it` leaves the piece
only when the `int` is not in front of the piece's end.  So the result depends on the addresses of
the pieces.

A last part that fills up its piece leaves the iterator behind the end of that piece.
`serializeBody_iff` has both.
-/

namespace MTRpc

open PieceRing (Shape)

namespace HttpHeader

/-- The offset behind `it._pos += bufptr; ++it`, with the pointer at the end of the piece. -/
def nextPos (que : Que) (addr : ℕ → ℤ) (idx pos : ℕ) : ℤ :=
  toInt32 (pos + toInt32 (addr idx + (que idx).size)) + 1

/-- From `start` up to the resulting iterator, following the sizes of the pieces, the bytes are the
body, and the iterator is inside a piece. -/
def Serialized (start : Iterator) (body : Bytes) (r : Option (Que × Iterator)) : Prop :=
  ∃ que it, r = some (que, it) ∧
    (Iterator.upTo que it (maxBufferPieces * defaultBufferSize) start).map que.load = body ∧
    it.pos < (que it.idx).size

/-- `it._pos += bufptr; ++it` moves to the next piece: the low half of the address of the end of
the piece, as an `int`, is neither negative nor an offset of the piece. -/
def Carries (que : Que) (addr : ℕ → ℤ) (idx : ℕ) : Prop :=
  ((que idx).size : ℤ) ≤ nextPos que addr idx 0

/-- The cells of the first `c` pieces from the piece `idx` on. -/
def piecesSize (que : Que) (idx c : ℕ) : ℕ :=
  ∑ k ∈ Finset.range c, (que ((idx + k) % maxBufferPieces)).size

/-- A body of `n` bytes, from the start of the piece `idx` on, does not end with a piece, and every
piece that it fills up is left. -/
def BodySafe (que : Que) (addr : ℕ → ℤ) (idx n : ℕ) : Prop :=
  ∀ c < maxBufferPieces, n ≠ piecesSize que idx (c + 1) ∧
    (piecesSize que idx (c + 1) < n → Carries que addr ((idx + c) % maxBufferPieces))

/-! ## The loop -/

section

variable {S : Shape} {que que' : Que} {addr : ℕ → ℤ} {it : Iterator} {body : Bytes} {i c : ℕ}

lemma piecesSize_eq (hf : que.Fits S) (i c : ℕ) : piecesSize que i c = S.ahead i c := by
  refine Finset.sum_congr rfl fun k _ => ?_
  rw [hf.size_eq _ (Nat.mod_lt _ S.n_pos), hf.n_eq]

/-- A round of the loop, with the pointer where the iterator is. -/
lemma serializeBodyLoop_eq {fuel pos : ℕ} (hpos : pos ≤ (que i).size) :
    serializeBodyLoop addr (fuel + 1) que ⟨i, pos⟩ pos pos body =
      if body = [] then some (que, ⟨i, 0⟩)
      else if body.length ≤ (que i).size - pos then
        serializeBodyLoop addr fuel (que.storeAll (PieceRing.cells i pos body.length) body) ⟨i, pos⟩
          pos (pos + body.length) []
      else
        let que' := que.storeAll (PieceRing.cells i pos ((que i).size - pos))
          (body.take ((que i).size - pos))
        let rest := body.drop ((que i).size - pos)
        if ((que i).size : ℤ) ≤ nextPos que addr i pos then
          serializeBodyLoop addr fuel que' ⟨(i + 1) % maxBufferPieces, 0⟩ 0 0 rest
        else if nextPos que addr i pos < 0 then none
        else serializeBodyLoop addr fuel que' ⟨i, (nextPos que addr i pos).toNat⟩
          (nextPos que addr i pos).toNat (nextPos que addr i pos).toNat rest := by
  have hend : addr i + (pos : ℤ) + (((que i).size - pos : ℕ) : ℤ) = addr i + (que i).size := by
    omega
  rw [serializeBodyLoop]
  simp only [Nat.sub_self, Que.size_storeAll, hend, nextPos]
  exact if_congr List.length_eq_zero_iff rfl rfl

/-- The end of the loop. -/
lemma serializeBodyLoop_nil (fuel src dst : ℕ) :
    serializeBodyLoop addr (fuel + 1) que it src dst [] = some (que, ⟨it.idx, dst - src⟩) := by
  rw [serializeBodyLoop, List.length_nil]
  simp only [if_true]

lemma eq_of_serializeBodyLoop_nil {fuel src dst : ℕ} {it' : Iterator}
    (h : serializeBodyLoop addr fuel que it src dst [] = some (que', it')) :
    que' = que ∧ it' = ⟨it.idx, dst - src⟩ := by
  cases fuel with
  | zero => exact absurd h (by simp [serializeBodyLoop])
  | succ fuel =>
    rw [serializeBodyLoop_nil] at h
    obtain ⟨rfl, rfl⟩ := by simpa using h
    exact ⟨rfl, rfl⟩

/-- Where a piece is not left, its rest is written again, and the iterator falls behind. -/
lemma serializeBodyLoop_behind {fuel pos : ℕ} (hf : que.Fits S)
    (hpos : pos < S.size ((i + c) % S.n))
    (h : serializeBodyLoop addr fuel que ⟨(i + c) % S.n, pos⟩ pos pos body = some (que', it)) :
    que'.Fits S ∧ ∃ c', it.idx = (i + c') % S.n ∧
      S.ahead i c' + it.pos ≤ S.ahead i c + pos + body.length := by
  induction fuel generalizing body que c pos with
  | zero => exact absurd h (by simp [serializeBodyLoop])
  | succ fuel ih =>
    have hsize : (que ((i + c) % S.n)).size = S.size ((i + c) % S.n) :=
      (hf.size_eq _ (Nat.mod_lt _ S.n_pos)).symm
    rw [serializeBodyLoop_eq (by omega)] at h
    split at h
    · obtain ⟨rfl, rfl⟩ := by simpa using h
      exact ⟨hf, c, rfl, by simp only; omega⟩
    rw [hsize] at h
    split at h
    · obtain ⟨rfl, rfl⟩ := eq_of_serializeBodyLoop_nil h
      exact ⟨hf.storeAll _ _, c, rfl, by simp only; omega⟩
    · rename_i hlong
      have hdrop : (body.drop (S.size ((i + c) % S.n) - pos)).length
          = body.length - (S.size ((i + c) % S.n) - pos) := List.length_drop
      dsimp only at h
      split at h
      · rw [← hf.n_eq, Nat.mod_add_mod, Nat.add_assoc] at h
        obtain ⟨hf', c', hidx, hle⟩ := ih (hf.storeAll _ _)
          (S.size_pos _ (Nat.mod_lt _ S.n_pos)) h
        have hahead := Shape.ahead_succ (S := S) i c
        exact ⟨hf', c', hidx, by omega⟩
      split at h
      · exact absurd h (by simp)
      · -- the same piece again
        obtain ⟨hf', c', hidx, hle⟩ := ih (hf.storeAll _ _) (by omega) h
        exact ⟨hf', c', hidx, by omega⟩

/-- From the start of a piece up to a cell of the ring, by whole pieces and an offset. -/
lemma dist_ahead (hi : i < S.n) (hidx : it.idx = (i + c) % S.n) (hpos : it.pos < S.size it.idx)
    (hlt : S.ahead i c + it.pos < S.cap) :
    S.Valid it ∧ S.dist ⟨i, 0⟩ it = S.ahead i c + it.pos := by
  have hstart : S.Valid ⟨i, 0⟩ := Shape.valid_start hi
  have hvalid : S.Valid it := ⟨hidx ▸ Nat.mod_lt _ S.n_pos, hpos⟩
  have hstep : S.next^[S.ahead i c + it.pos] ⟨i, 0⟩ = it := by
    rw [Nat.add_comm, Function.iterate_add_apply, Shape.iterate_ahead hi,
      Shape.iterate_piece (by rw [Nat.zero_add, ← hidx]; exact hpos), Nat.zero_add]
    exact PieceRing.Pos.ext hidx.symm rfl
  have hdist := Shape.dist_iterate hstart hlt
  rw [hstep] at hdist
  exact ⟨hvalid, hdist⟩

/-- The bytes up to such a cell. -/
lemma upTo_ahead (hf : que.Fits S) (hcap : S.cap ≤ maxBufferPieces * defaultBufferSize)
    (hi : i < S.n) (hidx : it.idx = (i + c) % S.n) (hpos : it.pos < S.size it.idx)
    (hlt : S.ahead i c + it.pos < S.cap) :
    Iterator.upTo que it (maxBufferPieces * defaultBufferSize) ⟨i, 0⟩
      = S.walk ⟨i, 0⟩ (S.ahead i c + it.pos) := by
  obtain ⟨hvalid, hdist⟩ := dist_ahead hi hidx hpos hlt
  rw [Iterator.upTo_eq hf (Shape.valid_start hi) hvalid (by omega), hdist]

lemma carries_storeAll (its : List Iterator) (bs : Bytes) (k : ℕ) :
    Carries (que.storeAll its bs) addr k ↔ Carries que addr k := by
  rw [Carries, Carries, nextPos, nextPos, Que.size_storeAll]

/-- Bytes written behind a walk leave it alone. -/
lemma map_load_append (hi : i < S.n) {rest : Bytes} {pos : ℕ} (hpos : rest.length = pos)
    (hle : pos ≤ S.size ((i + c) % S.n)) (hcap : S.ahead i c + pos ≤ S.cap) :
    (S.walk ⟨i, 0⟩ (S.ahead i c + pos)).map
        (que.storeAll (PieceRing.cells ((i + c) % S.n) 0 pos) rest).load
      = (S.walk ⟨i, 0⟩ (S.ahead i c)).map que.load ++ rest := by
  have hpiece : S.walk ⟨(i + c) % S.n, 0⟩ pos = PieceRing.cells ((i + c) % S.n) 0 pos :=
    Shape.walk_piece (by omega)
  have hdisjoint := Shape.walk_disjoint (Shape.valid_start hi) hcap
  rw [Shape.iterate_ahead hi, hpiece] at hdisjoint
  rw [Shape.walk_add, Shape.iterate_ahead hi, hpiece, List.map_append]
  congr 1
  · refine List.map_congr_left fun it hit => Que.load_storeAll_of_notMem _ fun hmem => ?_
    exact hdisjoint hit hmem
  · have hfits : rest.length ≤ (PieceRing.cells ((i + c) % S.n) 0 pos).length := by
      rw [PieceRing.length_cells]
      exact hpos.le
    have hwritten := @Que.map_load_storeAll que _ _ (PieceRing.nodup_cells _ _ _) hfits
    rwa [hpos, List.take_of_length_le (by rw [PieceRing.length_cells])] at hwritten

/-- The loop from a piece on: what has been written is in front of it. -/
lemma serialized_iff_from {fuel : ℕ} {u w : Bytes} (hf : que.Fits S)
    (hcap : S.cap ≤ maxBufferPieces * defaultBufferSize) (hi : i < S.n) (hc : c < S.n)
    (hfuel : w.length + 1 < fuel)
    (hbefore : (S.walk ⟨i, 0⟩ (S.ahead i c)).map que.load = u)
    (hlen : (u ++ w).length ≤ S.cap) :
    Serialized ⟨i, 0⟩ (u ++ w)
      (serializeBodyLoop addr fuel que ⟨(i + c) % S.n, 0⟩ 0 0 w) ↔
      ∀ c', c ≤ c' → c' < S.n → (u ++ w).length ≠ S.ahead i (c' + 1) ∧
        (S.ahead i (c' + 1) < (u ++ w).length → Carries que addr ((i + c') % S.n)) := by
  induction fuel generalizing que c u w with
  | zero => exact absurd hfuel (Nat.not_lt_zero _)
  | succ fuel ih =>
    have hsize : (que ((i + c) % S.n)).size = S.size ((i + c) % S.n) :=
      (hf.size_eq _ (Nat.mod_lt _ S.n_pos)).symm
    have hpos := S.size_pos _ (Nat.mod_lt (i + c) S.n_pos)
    have hahead := Shape.ahead_succ (S := S) i c
    have hturn := Shape.ahead_turn hi
    have hbound := Shape.ahead_mono (S := S) (i := i) (show c + 1 ≤ S.n from hc)
    have hfront : u.length = S.ahead i c := by
      rw [← hbefore, List.length_map, Shape.length_walk]
    rw [List.length_append] at hlen ⊢
    -- the loop ends in this piece
    have hends : ∀ {que' : Que}, que'.Fits S → w.length < S.size ((i + c) % S.n) →
        (S.walk ⟨i, 0⟩ (S.ahead i c + w.length)).map que'.load = u ++ w →
          Serialized ⟨i, 0⟩ (u ++ w) (some (que', ⟨(i + c) % S.n, w.length⟩)) := by
      intro que' hf' hlt hload
      refine ⟨que', _, rfl, ?_, ?_⟩
      · rw [upTo_ahead (c := c) hf' hcap hi rfl hlt (by simp only; omega)]
        exact hload
      · rw [← hf'.size_eq _ (Nat.mod_lt _ S.n_pos)]
        exact hlt
    have hlater : w.length < S.size ((i + c) % S.n) → ∀ c', c ≤ c' → c' < S.n →
        u.length + w.length ≠ S.ahead i (c' + 1) ∧
          (S.ahead i (c' + 1) < u.length + w.length → Carries que addr ((i + c') % S.n)) := by
      intro hlt c' hle _
      have hmono := Shape.ahead_mono (S := S) (i := i) (show c + 1 ≤ c' + 1 by omega)
      exact ⟨by omega, fun h => by omega⟩
    obtain ⟨fuel, rfl⟩ : ∃ n, fuel = n + 1 := ⟨fuel - 1, by omega⟩
    rw [serializeBodyLoop_eq (Nat.zero_le _), Nat.sub_zero, hsize]
    split
    · rename_i hnil
      subst hnil
      refine iff_of_true ?_ (hlater hpos)
      refine hends hf hpos ?_
      rw [List.length_nil, Nat.add_zero, List.append_nil]
      exact hbefore
    split
    · rename_i hfit
      rw [serializeBodyLoop_nil, Nat.sub_zero, Nat.zero_add]
      rcases hfit.lt_or_eq with hlt | hfull
      · refine iff_of_true (hends (hf.storeAll _ _) hlt ?_) (hlater hlt)
        rw [map_load_append hi rfl hfit (by omega), hbefore]
      · -- behind the end of the piece
        refine iff_of_false ?_ fun h => (h c le_rfl hc).1 (by omega)
        rintro ⟨que', it, hret, -, hin⟩
        obtain ⟨rfl, rfl⟩ := by simpa using hret
        rw [Que.size_storeAll, hsize] at hin
        exact hin.ne hfull
    · rename_i hlong
      dsimp only
      by_cases hcarries : Carries que addr ((i + c) % S.n)
      · -- the next piece
        have hmoves : (S.size ((i + c) % S.n) : ℤ) ≤ nextPos que addr ((i + c) % S.n) 0 :=
          hsize ▸ hcarries
        rw [if_pos hmoves, ← hf.n_eq, Nat.mod_add_mod, Nat.add_assoc]
        have hnext : c + 1 < S.n := by
          by_contra hlast
          have hend := Shape.ahead_mono (S := S) (i := i) (show S.n ≤ c + 1 by omega)
          omega
        have htake : (w.take (S.size ((i + c) % S.n))).length = S.size ((i + c) % S.n) := by
          rw [List.length_take]
          omega
        have hwritten := @map_load_append _ que _ _ hi _ _ htake le_rfl (by omega)
        rw [hbefore, ← hahead] at hwritten
        have hrest := ih (c := c + 1) (u := u ++ w.take (S.size ((i + c) % S.n)))
          (w := w.drop (S.size ((i + c) % S.n)))
          (hf.storeAll (PieceRing.cells ((i + c) % S.n) 0 (S.size ((i + c) % S.n)))
            (w.take (S.size ((i + c) % S.n)))) hnext (by rw [List.length_drop]; omega) hwritten
          (by rw [List.append_assoc, List.take_append_drop, List.length_append]; exact hlen)
        rw [List.append_assoc, List.take_append_drop, List.length_append] at hrest
        simp only [carries_storeAll] at hrest
        refine hrest.trans ⟨fun h c' hle hc' => ?_, fun h c' hle hc' => h c' (by omega) hc'⟩
        rcases hle.lt_or_eq with hlt | rfl
        · exact h c' hlt hc'
        · exact ⟨by omega, fun _ => hcarries⟩
      · -- the same piece again
        refine iff_of_false ?_ fun h => hcarries ((h c le_rfl hc).2 (by omega))
        have hlow : ¬ (S.size ((i + c) % S.n) : ℤ) ≤ nextPos que addr ((i + c) % S.n) 0 :=
          hsize ▸ hcarries
        rintro ⟨que', it, hret, hload, hin⟩
        rw [if_neg hlow] at hret
        split at hret
        · exact absurd hret (by simp)
        obtain ⟨hf', c', hidx, hle⟩ := serializeBodyLoop_behind (hf.storeAll _ _) (by omega) hret
        rw [List.length_drop] at hle
        rw [← hf'.size_eq _ (hidx ▸ Nat.mod_lt _ S.n_pos)] at hin
        have hlength := congrArg List.length hload
        rw [upTo_ahead hf' hcap hi hidx hin (by omega), List.length_map, Shape.length_walk,
          List.length_append] at hlength
        omega

end

end HttpHeader

/-- **SerializeBody.**  On every ring, from the start of any piece on, the bytes up to the
resulting iterator are the body and the iterator is inside a piece exactly when the body does not
end with a piece and every piece that it fills up lies at an address with which the iterator
leaves it. -/
theorem serializeBody_iff {S : Shape} {b : WriteBuffer} (hr : b.IsRing S) (addr : ℕ → ℤ) {i : ℕ}
    (hi : i < maxBufferPieces) {body : Bytes} (hlen : body.length ≤ S.cap) :
    HttpHeader.Serialized ⟨i, 0⟩ body (serializeBody addr body b.que ⟨i, 0⟩) ↔
      HttpHeader.BodySafe b.que addr i body.length := by
  have hcap := IOBuffer.cap_le hr
  rw [← hr.n_eq] at hi
  have hfrom := @HttpHeader.serialized_iff_from S b.que addr i 0 (body.length + 2) [] body hr.toFits
    hcap hi S.n_pos (Nat.lt_succ_self _) rfl hlen
  rw [show (i + 0) % S.n = i from Nat.mod_eq_of_lt hi, List.nil_append] at hfrom
  refine hfrom.trans ?_
  simp only [HttpHeader.BodySafe, HttpHeader.piecesSize_eq hr.toFits, ← hr.n_eq, Nat.zero_le,
    true_implies]

/-- An empty write buffer with pieces of different sizes. -/
def emptyUneven : WriteBuffer :=
  { unevenBuffer with readpos := ⟨15, 1⟩, writepos := ⟨15, 1⟩ }

lemma isRing_emptyUneven : emptyUneven.IsRing unevenPieces where
  n_eq := rfl
  size_eq := fun _ _ => rfl
  size_le := by decide
  read_valid := by decide
  write_valid := by decide

/-- Seven bytes into a piece of six and the next one, at an address with a low half that is a
positive `int`. -/
theorem serializeBody_low :
    HttpHeader.Serialized ⟨0, 0⟩ (ascii "content") (serializeBody (fun _ => 0x7f3104000010)
        (ascii "content") emptyUneven.que ⟨0, 0⟩) ↔
      HttpHeader.BodySafe emptyUneven.que (fun _ => 0x7f3104000010) 0 (ascii "content").length :=
  serializeBody_iff isRing_emptyUneven _ (by decide) (by decide)

/-- When it is negative, the seventh byte goes in front of the first piece. -/
theorem not_serializeBody :
    ¬ ∀ (S : Shape) (b : WriteBuffer), b.IsRing S → ∀ (addr : ℕ → ℤ) (i : ℕ) (body : Bytes),
      i < maxBufferPieces → body.length ≤ S.cap →
        HttpHeader.Serialized ⟨i, 0⟩ body (serializeBody addr body b.que ⟨i, 0⟩) := by
  intro hall
  obtain ⟨que, it, hret, -⟩ := hall _ _ isRing_emptyUneven (fun _ => 0x7f3184000010) 0
    (ascii "content") (by decide) (by decide)
  have hnone : (serializeBody (fun _ => 0x7f3184000010) (ascii "content") emptyUneven.que
      ⟨0, 0⟩).isNone := by decide +kernel
  rw [hret] at hnone
  exact absurd hnone (by simp)

end MTRpc
