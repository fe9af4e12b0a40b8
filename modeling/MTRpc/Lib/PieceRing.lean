import Mathlib.Algebra.BigOperators.Group.Finset.Basic
import Mathlib.Algebra.Order.BigOperators.Group.Finset
import Mathlib.Data.List.Iterate
import Mathlib.Data.Finset.Range
import Mathlib.Data.Nat.ModEq

/-!
# Rings made of pieces

A buffer is often kept as a fixed number of pieces, each with its own size, visited in a
circle.  A position is a piece together with an offset in it, and `next` moves to the
following cell, from the last cell of the last piece back to the first cell of the first.

Everything about such a ring follows from one number: the *offset* `off a` of a position,
the cells before it when the pieces are laid out in a row.  Stepping adds one to it modulo
the capacity (`off_next`), and a position is determined by it (`off_inj`).  From this come
the distance between two positions (`dist`), the walk from one to the other (`walk`), and
the fact that a walk of at most the capacity visits every cell at most once.

The second half is about loops over whole pieces: a gathering loop that starts in the
middle of a piece, runs over the pieces in between and ends in the middle of a piece
(`around`) visits exactly the cells of the walk.
-/

namespace PieceRing

/-- A position: a piece and an offset in it. -/
@[ext] structure Pos where
  /-- The piece. -/
  idx : ℕ
  /-- The offset in the piece. -/
  pos : ℕ
deriving DecidableEq, Repr

/-- The shape of a ring: a positive number of pieces, none of them empty. -/
structure Shape where
  /-- The number of pieces. -/
  n : ℕ
  /-- The size of each piece. -/
  size : ℕ → ℕ
  n_pos : 0 < n
  size_pos : ∀ i < n, 0 < size i

/-- `len` consecutive cells of the piece `idx`, from offset `pos` on. -/
def cells (idx pos len : ℕ) : List Pos := (List.range len).map fun j => ⟨idx, pos + j⟩

@[simp] lemma length_cells (i p k : ℕ) : (cells i p k).length = k := by simp [cells]

@[simp] lemma cells_zero (i p : ℕ) : cells i p 0 = [] := rfl

lemma cells_succ (i p k : ℕ) : cells i p (k + 1) = ⟨i, p⟩ :: cells i (p + 1) k := by
  simp only [cells, List.range_succ_eq_map, List.map_cons, List.map_map, Nat.add_zero]
  congr 1
  refine List.map_congr_left fun j _ => ?_
  simp [Nat.add_assoc, Nat.add_comm 1 j]

lemma cells_add (i p k l : ℕ) : cells i p (k + l) = cells i p k ++ cells i (p + k) l := by
  induction k generalizing p with
  | zero => simp
  | succ k ih =>
    rw [Nat.succ_add, cells_succ, cells_succ, ih, List.cons_append, Nat.add_assoc,
      Nat.add_comm 1 k]

lemma mem_cells {i p k : ℕ} {a : Pos} :
    a ∈ cells i p k ↔ a.idx = i ∧ p ≤ a.pos ∧ a.pos < p + k := by
  obtain ⟨j, q⟩ := a
  simp only [cells, List.mem_map, List.mem_range, Pos.mk.injEq]
  constructor
  · rintro ⟨m, hm, rfl, rfl⟩
    omega
  · rintro ⟨rfl, hle, hlt⟩
    exact ⟨q - p, by omega, rfl, by omega⟩

lemma nodup_cells (i p k : ℕ) : (cells i p k).Nodup := by
  refine List.Nodup.map (fun a b h => ?_) List.nodup_range
  simpa using h

namespace Shape

open Finset (range sum_range_succ)

variable (S : Shape)

/-- The positions that name a cell. -/
def Valid (a : Pos) : Prop := a.idx < S.n ∧ a.pos < S.size a.idx

instance (a : Pos) : Decidable (S.Valid a) := inferInstanceAs (Decidable (_ ∧ _))

/-- The following cell. -/
def next (a : Pos) : Pos :=
  if a.pos + 1 < S.size a.idx then ⟨a.idx, a.pos + 1⟩ else ⟨(a.idx + 1) % S.n, 0⟩

/-- The cells in the pieces before piece `i`. -/
def before (i : ℕ) : ℕ := ∑ j ∈ range i, S.size j

/-- The number of cells of the ring. -/
def cap : ℕ := S.before S.n

/-- The offset of a position when the pieces are laid out in a row. -/
def off (a : Pos) : ℕ := S.before a.idx + a.pos

@[simp] lemma before_zero : S.before 0 = 0 := by simp [before]

lemma before_succ (i : ℕ) : S.before (i + 1) = S.before i + S.size i := sum_range_succ _ _

lemma before_mono {i j : ℕ} (h : i ≤ j) : S.before i ≤ S.before j :=
  Finset.sum_le_sum_of_subset (Finset.range_mono h)

variable {S} {a b : Pos}

lemma off_mk (i p : ℕ) : S.off ⟨i, p⟩ = S.before i + p := rfl

lemma off_eq (a : Pos) : S.off a = S.before a.idx + a.pos := rfl

lemma before_add_size_le_cap {i : ℕ} (hi : i < S.n) : S.before i + S.size i ≤ S.cap := by
  rw [← before_succ]
  exact S.before_mono hi

lemma off_lt_cap (ha : S.Valid a) : S.off a < S.cap := by
  have h1 := before_add_size_le_cap ha.1
  have h2 := ha.2
  unfold off
  omega

lemma cap_pos : 0 < S.cap := by
  have h1 := before_add_size_le_cap S.n_pos
  have h2 := S.size_pos 0 S.n_pos
  omega

lemma size_le_cap {i : ℕ} (hi : i < S.n) : S.size i ≤ S.cap := by
  have := before_add_size_le_cap hi
  omega

/-- A valid position is determined by its offset. -/
lemma off_inj (ha : S.Valid a) (hb : S.Valid b) (h : S.off a = S.off b) : a = b := by
  have key : ∀ {c d : Pos}, S.Valid c → c.idx < d.idx → S.off c < S.off d := by
    intro c d hc hlt
    have h1 : S.before (c.idx + 1) ≤ S.before d.idx := S.before_mono hlt
    rw [before_succ] at h1
    have h2 := hc.2
    unfold off
    omega
  rcases Nat.lt_trichotomy a.idx b.idx with hlt | heq | hgt
  · exact absurd h (key ha hlt).ne
  · have hpos : a.pos = b.pos := by
      unfold off at h
      rw [heq] at h
      omega
    exact Pos.ext heq hpos
  · exact absurd h (key hb hgt).ne'

lemma valid_start {i : ℕ} (hi : i < S.n) : S.Valid ⟨i, 0⟩ := ⟨hi, S.size_pos i hi⟩

lemma succ_mod_lt (i : ℕ) : (i + 1) % S.n < S.n := Nat.mod_lt _ S.n_pos

lemma valid_next (ha : S.Valid a) : S.Valid (S.next a) := by
  unfold next
  split
  · next h => exact ⟨ha.1, h⟩
  · exact valid_start (succ_mod_lt _)

/-- The following piece is the next one in the row, except after the last. -/
lemma succ_mod {i : ℕ} (hi : i < S.n) :
    (i + 1) % S.n = if i + 1 = S.n then 0 else i + 1 := by
  split
  · next h => rw [h, Nat.mod_self]
  · next h => exact Nat.mod_eq_of_lt (by omega)

/-- The offset of the start of the following piece. -/
lemma before_succ_mod {i : ℕ} (hi : i < S.n) :
    S.before ((i + 1) % S.n) + (if i + 1 = S.n then S.cap else 0)
      = S.before i + S.size i := by
  rw [succ_mod hi, ← before_succ]
  split
  · next h => simp [h, cap]
  · rfl

/-- The cells of the last piece reach up to the capacity. -/
lemma before_last {i : ℕ} (hl : i + 1 = S.n) : S.before i + S.size i = S.cap := by
  rw [← before_succ, hl, cap]

/-- One step forward adds one to the offset, modulo the capacity. -/
lemma off_next (ha : S.Valid a) :
    S.off (S.next a) = if S.off a + 1 = S.cap then 0 else S.off a + 1 := by
  have h2 := ha.2
  have hle := before_add_size_le_cap ha.1
  by_cases h : a.pos + 1 < S.size a.idx
  · have hn : S.next a = ⟨a.idx, a.pos + 1⟩ := if_pos h
    rw [hn, if_neg (by unfold off; omega)]
    simp only [off, Nat.add_assoc]
  · have hn : S.next a = ⟨(a.idx + 1) % S.n, 0⟩ := if_neg h
    have hb := before_succ_mod ha.1
    rw [hn]
    by_cases hl : a.idx + 1 = S.n
    · have hlast := before_last hl
      rw [if_pos (by unfold off; omega), succ_mod ha.1, if_pos hl]
      simp [off]
    · rw [if_neg hl] at hb
      have hlt := off_lt_cap (valid_start (succ_mod_lt (S := S) a.idx))
      rw [off_mk] at hlt ⊢
      rw [off_eq a, if_neg (by omega)]
      omega

lemma valid_iterate (ha : S.Valid a) (k : ℕ) : S.Valid (S.next^[k] a) := by
  induction k with
  | zero => exact ha
  | succ k ih => rw [Function.iterate_succ_apply']; exact valid_next ih

lemma off_iterate (ha : S.Valid a) (k : ℕ) : S.off (S.next^[k] a) = (S.off a + k) % S.cap := by
  induction k with
  | zero => exact (Nat.mod_eq_of_lt (off_lt_cap ha)).symm
  | succ k ih =>
    have hlt := Nat.mod_lt (S.off a + k) (cap_pos (S := S))
    have hmod : (S.off a + (k + 1)) % S.cap = ((S.off a + k) % S.cap + 1) % S.cap := by
      rw [Nat.mod_add_mod, Nat.add_assoc]
    rw [Function.iterate_succ_apply', off_next (valid_iterate ha k), ih, hmod]
    by_cases h : (S.off a + k) % S.cap + 1 = S.cap
    · rw [if_pos h, h, Nat.mod_self]
    · rw [if_neg h]
      exact (Nat.mod_eq_of_lt (by omega)).symm

/-- For steps that stay below two turns the offset is a single subtraction away. -/
lemma off_iterate_of_lt (ha : S.Valid a) {k : ℕ} (hk : k ≤ S.cap) :
    S.off (S.next^[k] a)
      = if S.off a + k < S.cap then S.off a + k else S.off a + k - S.cap := by
  rw [off_iterate ha]
  have h := off_lt_cap ha
  split
  · next h' => exact Nat.mod_eq_of_lt h'
  · next h' =>
    rw [Nat.mod_eq_sub_mod (by omega)]
    exact Nat.mod_eq_of_lt (by omega)

@[simp] lemma iterate_cap (ha : S.Valid a) : S.next^[S.cap] a = a := by
  refine off_inj (valid_iterate ha _) ha ?_
  rw [off_iterate ha, Nat.add_mod_right, Nat.mod_eq_of_lt (off_lt_cap ha)]

/-- As many steps from different cells lead to different cells. -/
lemma iterate_cancel (ha : S.Valid a) (hb : S.Valid b) {k : ℕ}
    (h : S.next^[k] a = S.next^[k] b) : a = b := by
  have hmod := congrArg S.off h
  rw [off_iterate ha, off_iterate hb] at hmod
  have hoff : S.off a ≡ S.off b [MOD S.cap] := Nat.ModEq.add_right_cancel' k hmod
  refine off_inj ha hb ?_
  rwa [Nat.ModEq, Nat.mod_eq_of_lt (off_lt_cap ha), Nat.mod_eq_of_lt (off_lt_cap hb)] at hoff

/-- Steps below the capacity lead to different cells. -/
lemma iterate_inj (ha : S.Valid a) {j k : ℕ} (hj : j < S.cap) (hk : k < S.cap)
    (h : S.next^[j] a = S.next^[k] a) : j = k := by
  have hoff := congrArg S.off h
  rw [off_iterate_of_lt ha hj.le, off_iterate_of_lt ha hk.le] at hoff
  have := off_lt_cap ha
  split at hoff <;> split at hoff <;> omega

/-! ## Distance -/

variable (S) in
/-- The steps from `a` to `b`. -/
def dist (a b : Pos) : ℕ :=
  if S.off a ≤ S.off b then S.off b - S.off a else S.off b + S.cap - S.off a

lemma dist_lt (ha : S.Valid a) (hb : S.Valid b) : S.dist a b < S.cap := by
  have h1 := off_lt_cap ha
  have h2 := off_lt_cap hb
  unfold dist
  split <;> omega

@[simp] lemma dist_self : S.dist a a = 0 := by simp [dist]

/-- The distance is the number of steps that lead from `a` to `b`. -/
lemma iterate_dist (ha : S.Valid a) (hb : S.Valid b) : S.next^[S.dist a b] a = b := by
  refine off_inj (valid_iterate ha _) hb ?_
  rw [off_iterate_of_lt ha (dist_lt ha hb).le]
  have h1 := off_lt_cap ha
  have h2 := off_lt_cap hb
  unfold dist
  split <;> split <;> omega

lemma dist_iterate (ha : S.Valid a) {k : ℕ} (hk : k < S.cap) :
    S.dist a (S.next^[k] a) = k :=
  iterate_inj ha (dist_lt ha (valid_iterate ha k)) hk
    (iterate_dist ha (valid_iterate ha k))

lemma dist_eq_zero (ha : S.Valid a) (hb : S.Valid b) : S.dist a b = 0 ↔ a = b := by
  constructor
  · intro h
    have := iterate_dist ha hb
    rwa [h] at this
  · rintro rfl
    exact dist_self

/-- A step towards `b` brings it one nearer. -/
lemma dist_next (ha : S.Valid a) (hb : S.Valid b) (hne : a ≠ b) :
    S.dist a b = S.dist (S.next a) b + 1 := by
  obtain ⟨k, hk⟩ : ∃ k, S.dist a b = k + 1 :=
    Nat.exists_eq_succ_of_ne_zero fun h => hne ((dist_eq_zero ha hb).mp h)
  have hlt := dist_lt ha hb
  have hreach := iterate_dist ha hb
  rw [hk, Function.iterate_succ_apply] at hreach
  rw [hk, ← hreach, dist_iterate (valid_next ha) (by omega)]

/-- Steps towards `b` that do not pass it bring it nearer by their number. -/
lemma dist_iterate_left (ha : S.Valid a) (hb : S.Valid b) {k : ℕ} (hk : k ≤ S.dist a b) :
    S.dist (S.next^[k] a) b = S.dist a b - k := by
  have hlt := dist_lt ha hb
  have hsplit : S.next^[S.dist a b - k] (S.next^[k] a) = b := by
    rw [← Function.iterate_add_apply, Nat.sub_add_cancel hk, iterate_dist ha hb]
  conv_lhs => rw [← hsplit]
  exact dist_iterate (valid_iterate ha k) (by omega)

/-! ## Walks -/

variable (S) in
/-- The `k` cells from `a` on. -/
def walk (a : Pos) (k : ℕ) : List Pos := List.iterate S.next a k

@[simp] lemma walk_zero : S.walk a 0 = [] := rfl

@[simp] lemma length_walk (k : ℕ) : (S.walk a k).length = k := List.length_iterate _ _ _

lemma walk_succ (k : ℕ) : S.walk a (k + 1) = a :: S.walk (S.next a) k := rfl

lemma walk_add (j k : ℕ) : S.walk a (j + k) = S.walk a j ++ S.walk (S.next^[j] a) k :=
  List.iterate_add _ _ _ _

lemma mem_walk {k : ℕ} {c : Pos} : c ∈ S.walk a k ↔ ∃ j < k, c = S.next^[j] a :=
  List.mem_iterate

lemma take_walk (j k : ℕ) : (S.walk a k).take j = S.walk a (min j k) := List.take_iterate ..

/-- What is left of a walk behind its first cells. -/
lemma drop_walk {j k : ℕ} (h : j ≤ k) : (S.walk a k).drop j = S.walk (S.next^[j] a) (k - j) := by
  obtain ⟨l, rfl⟩ := Nat.exists_eq_add_of_le h
  rw [walk_add, List.drop_append_of_le_length (by simp), Nat.add_sub_cancel_left,
    List.drop_eq_nil_of_le (by simp), List.nil_append]

/-- A walk of at most the capacity visits no cell twice. -/
lemma nodup_walk (ha : S.Valid a) {k : ℕ} (hk : k ≤ S.cap) : (S.walk a k).Nodup := by
  rw [List.nodup_iff_injective_getElem]
  rintro ⟨i, hi⟩ ⟨j, hj⟩ h
  have hi' : i < k := by simpa using hi
  have hj' : j < k := by simpa using hj
  simp only [walk, List.getElem_iterate] at h
  exact Fin.ext (iterate_inj ha (hi'.trans_le hk) (hj'.trans_le hk) h)

/-- The walk from `a` and the walk that continues it share no cell, as long as the two
together stay within the capacity. -/
lemma walk_disjoint (ha : S.Valid a) {j k : ℕ} (h : j + k ≤ S.cap) :
    (S.walk a j).Disjoint (S.walk (S.next^[j] a) k) := by
  have hnd := nodup_walk ha h
  rw [walk_add] at hnd
  exact List.disjoint_of_nodup_append hnd

/-! ## Segments of a piece -/

/-- Inside a piece a walk is a segment of it. -/
lemma walk_piece {i p k : ℕ} (h : p + k ≤ S.size i) : S.walk ⟨i, p⟩ k = cells i p k := by
  induction k generalizing p with
  | zero => rfl
  | succ k ih =>
    rw [walk_succ, cells_succ]
    congr 1
    cases k with
    | zero => rfl
    | succ k =>
      have hn : S.next ⟨i, p⟩ = ⟨i, p + 1⟩ := by
        unfold next
        exact if_pos (by simp only; omega)
      rw [hn]
      exact ih (by omega)

lemma iterate_piece {i p k : ℕ} (h : p + k < S.size i) : S.next^[k] ⟨i, p⟩ = ⟨i, p + k⟩ := by
  induction k with
  | zero => rfl
  | succ k ih =>
    rw [Function.iterate_succ_apply', ih (by omega), next]
    exact if_pos (by simp only; omega)

/-- The steps that leave a piece. -/
lemma iterate_piece_end {i p : ℕ} (h : p < S.size i) :
    S.next^[S.size i - p] ⟨i, p⟩ = ⟨(i + 1) % S.n, 0⟩ := by
  obtain ⟨k, hk⟩ : ∃ k, S.size i - p = k + 1 := ⟨S.size i - p - 1, by omega⟩
  rw [hk, Function.iterate_succ_apply', iterate_piece (by omega), next]
  exact if_neg (by simp only; omega)

end Shape

/-! ## Loops over whole pieces -/

/-- The pieces that the loop `for (t = start; t != e; t = (t + 1) % n)` visits; the first
argument bounds the number of rounds. -/
def between (n e : ℕ) : ℕ → ℕ → List ℕ
  | 0, _ => []
  | fuel + 1, t => if t = e then [] else t :: between n e fuel ((t + 1) % n)

/-- The rounds of the loop from `t` to `e`. -/
def gap (n t e : ℕ) : ℕ := if t ≤ e then e - t else e + n - t

namespace Shape

variable {S : Shape} {t e fuel : ℕ}

lemma gap_succ (ht : t < S.n) (he : e < S.n) (hne : t ≠ e) :
    gap S.n t e = gap S.n ((t + 1) % S.n) e + 1 := by
  rw [succ_mod ht]
  unfold gap
  split <;> split <;> split <;> omega

/-- Enough rounds: the loop visits as many pieces as lie between `t` and `e`. -/
lemma length_between (ht : t < S.n) (he : e < S.n) (hf : gap S.n t e < fuel) :
    (between S.n e fuel t).length = gap S.n t e := by
  induction fuel generalizing t with
  | zero => omega
  | succ fuel ih =>
    unfold between
    split
    · next h => subst h; simp [gap]
    · next h =>
      have hg := gap_succ ht he h
      rw [List.length_cons, ih (succ_mod_lt t) (by omega), hg]

/-- The loop visits the pieces that it reaches before `e`. -/
lemma mem_between {i : ℕ} (ht : t < S.n) (he : e < S.n) (hi : i < S.n) (hf : gap S.n t e ≤ fuel) :
    i ∈ between S.n e fuel t ↔ gap S.n t i < gap S.n t e := by
  induction fuel generalizing t with
  | zero => simp [between, Nat.le_zero.mp hf]
  | succ fuel ih =>
    unfold between
    split
    · next h =>
      subst h
      simp [gap]
    · next h =>
      have hg := gap_succ ht he h
      rw [List.mem_cons, ih (succ_mod_lt t) (by omega)]
      by_cases hit : i = t
      · subst hit
        have hzero : gap S.n i i = 0 := by simp [gap]
        exact iff_of_true (Or.inl rfl) (by omega)
      · have hgi := gap_succ ht hi fun h => hit h.symm
        rw [or_iff_right hit]
        omega

lemma between_lt (ht : t < S.n) : ∀ i ∈ between S.n e fuel t, i < S.n := by
  induction fuel generalizing t with
  | zero => simp [between]
  | succ fuel ih =>
    intro i hi
    unfold between at hi
    split at hi
    · simp at hi
    · rcases List.mem_cons.mp hi with rfl | hi
      · exact ht
      · exact ih (succ_mod_lt t) i hi

variable (S) in
/-- The cells of the pieces that the loop visits. -/
def span (e fuel t : ℕ) : ℕ := ((between S.n e fuel t).map S.size).sum

/-- The offsets tell how many cells the loop runs over. -/
lemma before_add_span (ht : t < S.n) (he : e < S.n) (hf : gap S.n t e < fuel) :
    S.before t + S.span e fuel t = S.before e + (if t ≤ e then 0 else S.cap) := by
  induction fuel generalizing t with
  | zero => omega
  | succ fuel ih =>
    unfold span between
    split
    · next h => subst h; simp
    · next h =>
      have hg := gap_succ ht he h
      have hih := ih (succ_mod_lt t) (by omega)
      have hb := before_succ_mod ht
      rw [List.map_cons, List.sum_cons]
      unfold span at hih
      rw [succ_mod ht] at hih hb ⊢
      by_cases hl : t + 1 = S.n
      · simp only [if_pos hl, Nat.zero_le, if_true] at hih hb ⊢
        rw [if_neg (by omega)]
        omega
      · simp only [if_neg hl] at hih hb ⊢
        split at hih <;> split <;> omega

lemma iterate_between (ht : t < S.n) (he : e < S.n) (hf : gap S.n t e < fuel) :
    S.next^[S.span e fuel t] ⟨t, 0⟩ = ⟨e, 0⟩ := by
  induction fuel generalizing t with
  | zero => omega
  | succ fuel ih =>
    unfold span between
    split
    · next h => subst h; simp
    · next h =>
      have hg := gap_succ ht he h
      rw [List.map_cons, List.sum_cons, Nat.add_comm, Function.iterate_add_apply]
      have hend := iterate_piece_end (S := S) (i := t) (p := 0) (S.size_pos t ht)
      rw [Nat.sub_zero] at hend
      rw [hend]
      exact ih (succ_mod_lt t) (by omega)

lemma walk_between (ht : t < S.n) (he : e < S.n) (hf : gap S.n t e < fuel) :
    S.walk ⟨t, 0⟩ (S.span e fuel t)
      = (between S.n e fuel t).flatMap fun i => cells i 0 (S.size i) := by
  induction fuel generalizing t with
  | zero => omega
  | succ fuel ih =>
    unfold span between
    split
    · rfl
    · next h =>
      have hg := gap_succ ht he h
      rw [List.map_cons, List.sum_cons, walk_add, List.flatMap_cons]
      have hend := iterate_piece_end (S := S) (i := t) (p := 0) (S.size_pos t ht)
      rw [Nat.sub_zero] at hend
      rw [hend, walk_piece (by omega)]
      congr 1
      exact ih (succ_mod_lt t) (by omega)

/-! ## From the middle of a piece to the middle of a piece -/

variable {a b : Pos}

variable (S) in
/-- The cells from `a` on to the end of its piece, then whole pieces, then the piece of `b`
up to `b`. -/
def around (fuel : ℕ) (a b : Pos) : ℕ :=
  (S.size a.idx - a.pos) + S.span b.idx fuel ((a.idx + 1) % S.n) + b.pos

/-- The walk that a gathering loop makes over the pieces from `a` to `b`. -/
theorem walk_around (ha : S.Valid a) (hb : S.Valid b) (hf : S.n ≤ fuel) :
    S.walk a (S.around fuel a b)
        = cells a.idx a.pos (S.size a.idx - a.pos)
          ++ (between S.n b.idx fuel ((a.idx + 1) % S.n)).flatMap
              (fun i => cells i 0 (S.size i))
          ++ cells b.idx 0 b.pos
      ∧ S.next^[S.around fuel a b] a = b := by
  have hg : gap S.n ((a.idx + 1) % S.n) b.idx < fuel := by
    have h1 := succ_mod_lt (S := S) a.idx
    have h2 := hb.1
    unfold gap
    split <;> omega
  have hsz := ha.2
  have hend : S.next^[S.size a.idx - a.pos] a = ⟨(a.idx + 1) % S.n, 0⟩ := iterate_piece_end ha.2
  have hmid := iterate_between (succ_mod_lt a.idx) hb.1 hg
  constructor
  · have hfirst : S.walk a (S.size a.idx - a.pos) = cells a.idx a.pos (S.size a.idx - a.pos) :=
      walk_piece (by omega)
    have hlast : S.walk ⟨b.idx, 0⟩ b.pos = cells b.idx 0 b.pos :=
      walk_piece (by have := hb.2; omega)
    rw [around, Nat.add_assoc, walk_add, hfirst, hend, walk_add,
      walk_between (succ_mod_lt a.idx) hb.1 hg, hmid, hlast, List.append_assoc]
  · have hlast : S.next^[b.pos] ⟨b.idx, 0⟩ = b := by
      rw [iterate_piece (by have := hb.2; omega), Nat.zero_add]
    rw [around, Nat.add_comm, Function.iterate_add_apply, Nat.add_comm (S.size a.idx - a.pos),
      Function.iterate_add_apply, hend, hmid, hlast]

/-- The length of that walk: the distance, or the whole capacity when `a = b`. -/
theorem around_eq (ha : S.Valid a) (hb : S.Valid b) (hf : S.n ≤ fuel)
    (hne : ¬ (a.idx = b.idx ∧ a.pos < b.pos)) :
    S.around fuel a b = S.cap - S.dist b a := by
  have hg : gap S.n ((a.idx + 1) % S.n) b.idx < fuel := by
    have h1 := succ_mod_lt (S := S) a.idx
    have h2 := hb.1
    unfold gap
    split <;> omega
  have hspan := before_add_span (succ_mod_lt a.idx) hb.1 hg
  have hmod := before_succ_mod ha.1
  have hoa := off_lt_cap ha
  have hob := off_lt_cap hb
  have hsz := ha.2
  have hsb := hb.2
  -- the order of the pieces decides the order of the offsets
  have hlt : a.idx < b.idx → S.off a < S.off b := by
    intro h
    have h1 : S.before (a.idx + 1) ≤ S.before b.idx := S.before_mono h
    rw [before_succ] at h1
    unfold off
    omega
  have hge : b.idx ≤ a.idx → S.off b ≤ S.off a := by
    intro h
    rcases Nat.lt_or_eq_of_le h with h | h
    · have h1 : S.before (b.idx + 1) ≤ S.before a.idx := S.before_mono h
      rw [before_succ] at h1
      unfold off
      omega
    · have : b.pos ≤ a.pos := by
        by_contra hc
        exact hne ⟨h.symm, by omega⟩
      unfold off
      rw [h]
      omega
  have hb1 := hb.1
  unfold around dist
  unfold off at *
  rw [succ_mod ha.1] at hspan hmod ⊢
  by_cases hl : a.idx + 1 = S.n
  · have hba : b.idx ≤ a.idx := by omega
    have := hge hba
    simp only [if_pos hl, Nat.zero_le, if_true] at hspan hmod ⊢
    split <;> omega
  · simp only [if_neg hl] at hspan hmod ⊢
    by_cases hba : b.idx ≤ a.idx
    · have := hge hba
      rw [if_neg (by omega)] at hspan
      split <;> omega
    · have := hlt (by omega)
      rw [if_pos (by omega)] at hspan
      split <;> omega

/-! ## Whole pieces ahead -/

variable (S) in
/-- The cells of the first `c` pieces from the piece `i` on. -/
def ahead (i c : ℕ) : ℕ := ∑ k ∈ Finset.range c, S.size ((i + k) % S.n)

lemma ahead_succ (i c : ℕ) : S.ahead i (c + 1) = S.ahead i c + S.size ((i + c) % S.n) :=
  Finset.sum_range_succ _ _

lemma ahead_mono {i c c' : ℕ} (h : c ≤ c') : S.ahead i c ≤ S.ahead i c' :=
  Finset.sum_le_sum_of_subset (Finset.range_mono h)

lemma iterate_ahead {i : ℕ} (hi : i < S.n) (c : ℕ) :
    S.next^[S.ahead i c] ⟨i, 0⟩ = ⟨(i + c) % S.n, 0⟩ := by
  induction c with
  | zero => simp [ahead, Nat.mod_eq_of_lt hi]
  | succ c ih =>
    have hend := iterate_piece_end (S := S) (i := (i + c) % S.n) (p := 0)
      (S.size_pos _ (Nat.mod_lt _ S.n_pos))
    rw [Nat.sub_zero, Nat.mod_add_mod, Nat.add_assoc] at hend
    rw [ahead_succ, Nat.add_comm, Function.iterate_add_apply, ih, hend]

/-- The pieces of one turn are all pieces. -/
lemma ahead_turn {i : ℕ} (hi : i < S.n) : S.ahead i S.n = S.cap := by
  have hfront : ∀ c ≤ S.n - i, S.before i + S.ahead i c = S.before (i + c) := by
    intro c hc
    induction c with
    | zero => simp [ahead]
    | succ c ih =>
      have hlt : i + c < S.n := by omega
      rw [ahead_succ, Nat.mod_eq_of_lt hlt, ← Nat.add_assoc, ih (by omega), ← Nat.add_assoc,
        before_succ]
  have hback : ∀ c ≤ i, S.before i + S.ahead i (S.n - i + c) = S.cap + S.before c := by
    intro c hc
    induction c with
    | zero =>
      have hfront := hfront (S.n - i) le_rfl
      rw [Nat.add_sub_cancel' hi.le] at hfront
      exact hfront
    | succ c ih =>
      have hmod : (i + (S.n - i + c)) % S.n = c := by
        rw [show i + (S.n - i + c) = S.n + c by omega, Nat.add_mod_left]
        exact Nat.mod_eq_of_lt (by omega)
      rw [← Nat.add_assoc, ahead_succ, hmod, ← Nat.add_assoc, ih (by omega), Nat.add_assoc,
        ← before_succ]
  have hturn := hback i le_rfl
  rw [Nat.sub_add_cancel hi.le] at hturn
  omega

/-! ## Rings of equal pieces -/

/-- The pieces that the loop visits, by their distance from the first. -/
lemma between_eq_map {n c fuel t : ℕ} (ht : t < n) (hc : c < n) (hf : c ≤ fuel) :
    between n ((t + c) % n) fuel t = (List.range c).map fun x => (t + x) % n := by
  induction c generalizing fuel t with
  | zero =>
    cases fuel with
    | zero => rfl
    | succ fuel => simp [between, Nat.mod_eq_of_lt ht]
  | succ c ih =>
    obtain ⟨fuel, rfl⟩ : ∃ k, fuel = k + 1 := ⟨fuel - 1, by omega⟩
    have hne : t ≠ (t + (c + 1)) % n := by
      rcases Nat.lt_or_ge (t + (c + 1)) n with h | h
      · rw [Nat.mod_eq_of_lt h]
        omega
      · rw [Nat.mod_eq_sub_mod h, Nat.mod_eq_of_lt (by omega)]
        omega
    have hnext := @ih fuel _ (Nat.mod_lt (t + 1) (by omega)) (by omega) (by omega)
    rw [Nat.mod_add_mod, Nat.add_assoc, Nat.add_comm 1 c] at hnext
    have hfirst : (t + 0) % n = t := Nat.mod_eq_of_lt ht
    rw [between, if_neg hne, hnext, List.range_succ_eq_map, List.map_cons, List.map_map, hfirst]
    congr 1
    refine List.map_congr_left fun x _ => ?_
    simp only [Nat.mod_add_mod, Function.comp_apply]
    congr 1
    omega

section

variable {d : ℕ} (hd : ∀ i < S.n, S.size i = d)

include hd

lemma iterate_pieces (ht : t < S.n) (c : ℕ) : S.next^[c * d] ⟨t, 0⟩ = ⟨(t + c) % S.n, 0⟩ := by
  induction c with
  | zero => simp [Nat.mod_eq_of_lt ht]
  | succ c ih =>
    have hlt := Nat.mod_lt (t + c) S.n_pos
    have hend := iterate_piece_end (S := S) (i := (t + c) % S.n) (p := 0) (S.size_pos _ hlt)
    rw [Nat.sub_zero, hd _ hlt, Nat.mod_add_mod, Nat.add_assoc] at hend
    rw [Nat.succ_mul, Nat.add_comm, Function.iterate_add_apply, ih, hend]

/-- The cell that many steps from the start of a piece. -/
lemma iterate_equal (ht : t < S.n) (k : ℕ) :
    S.next^[k] ⟨t, 0⟩ = ⟨(t + k / d) % S.n, k % d⟩ := by
  have hpos : 0 < d := by
    rw [← hd t ht]
    exact S.size_pos t ht
  have hmod := Nat.mod_lt k hpos
  conv_lhs => rw [← Nat.mod_add_div' k d, Function.iterate_add_apply, iterate_pieces hd ht]
  rw [iterate_piece (by rw [hd _ (Nat.mod_lt _ S.n_pos)]; omega), Nat.zero_add]

/-- A walk over whole pieces and a part of one more. -/
lemma walk_equal (ht : t < S.n) (c : ℕ) {q : ℕ} (hq : q ≤ d) :
    S.walk ⟨t, 0⟩ (c * d + q)
      = ((List.range c).flatMap fun x => cells ((t + x) % S.n) 0 d)
        ++ cells ((t + c) % S.n) 0 q := by
  have hlast : ∀ x q, q ≤ d → S.walk ⟨(t + x) % S.n, 0⟩ q = cells ((t + x) % S.n) 0 q :=
    fun x q hq => walk_piece (by rw [hd _ (Nat.mod_lt _ S.n_pos)]; omega)
  have hwhole : S.walk ⟨t, 0⟩ (c * d)
      = (List.range c).flatMap fun x => cells ((t + x) % S.n) 0 d := by
    induction c with
    | zero => simp
    | succ c ih =>
      rw [Nat.succ_mul, walk_add, ih, iterate_pieces hd ht, hlast c d le_rfl, List.range_succ,
        List.flatMap_append, List.flatMap_singleton]
  rw [walk_add, hwhole, iterate_pieces hd ht, hlast c q hq]

end

end Shape

end PieceRing
