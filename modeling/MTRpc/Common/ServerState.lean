import Mathlib.Algebra.BigOperators.Field
import Mathlib.Algebra.Order.Field.Rat
import Mathlib.Tactic.NormNum
import Std.Data.ExtTreeMap
import MTRpc.Lib.CasLoop
import MTRpc.Mio.Buffer

/-!
# The statistics of the methods

`ServerState` keeps the least, the greatest and the mean value of each registered key, with the
number of values, in two words that are changed by compare-and-swap loops of their own.  With
exact numbers no value is lost in any interleaving of concurrent calls.  But an entry begins with
the least value 0, and no value is below that: `minvalue` stays 0.
-/

namespace MTRpc

open CasLoop
open Exec (Run)

/-- The numbers that are recorded and the values that are reported, with the operations on them. -/
structure Numbers (F V : Type*) where
  zero : F
  toFloat : V → F
  less : F → F → Bool
  average : F → UInt32 → V → F
  tooLarge : V → Bool

/-- `Status`: the two halves of the union. -/
structure Status (F : Type*) where
  a : F × F
  b : F × UInt32
deriving DecidableEq, Repr

namespace Status

variable {F : Type*} (st : Status F)

def minvalue : F := st.a.1

def maxvalue : F := st.a.2

def avgvalue : F := st.b.1

def num : UInt32 := st.b.2

end Status

namespace ServerState

variable {F V : Type*} (N : Numbers F V)

/-- The entry that `registerStatus` and `Clear` leave. -/
def zeros : Status F := ⟨(N.zero, N.zero), (N.zero, 0)⟩

/-- The first loop of `state`. -/
def stateA (value : V) : Op (F × F) where
  wants _ := true
  next old :=
    (if N.less (N.toFloat value) old.1 then N.toFloat value else old.1,
      if N.less old.2 (N.toFloat value) then N.toFloat value else old.2)
  again _ swapped := !swapped

/-- The second loop of `state`. -/
def stateB (value : V) : Op (F × UInt32) where
  wants _ := true
  next old := (N.average old.1 old.2 value, old.2 + 1)
  again _ swapped := !swapped

/-- `statusmap` -/
abbrev StatusMap (F : Type*) := Std.ExtTreeMap Bytes (Status F) compare

/-- `registerStatus` -/
def registerStatus (statusmap : StatusMap F) (key : Bytes) : StatusMap F :=
  statusmap.insert key (zeros N)

/-- What `Clear` does with `statusmap`. -/
def clear (statusmap : StatusMap F) : StatusMap F := statusmap.map fun _ _ => zeros N

/-- `state`, when no other call is in progress. -/
def state (statusmap : StatusMap F) (key : Bytes) (value : V) : StatusMap F :=
  if N.tooLarge value then statusmap
  else match statusmap[key]? with
    | none => statusmap
    | some old =>
      statusmap.insert key ⟨(stateA N value).apply old.a, (stateB N value).apply old.b⟩

end ServerState

/-! ## Concurrent calls -/

open ServerState

/-- Calls of `state` for one entry: the word that each loop changes, and where each call stands in
the two loops.  Each loop reads the whole entry and uses its own half of what it has read. -/
structure StateCalls (ι F : Type*) where
  loopA : CasLoop.State ι (F × F)
  loopB : CasLoop.State ι (F × UInt32)

namespace StateCalls

variable {F V ι : Type*}

/-- The entry. -/
def status (s : StateCalls ι F) : Status F := ⟨s.loopA.value, s.loopB.value⟩

/-- No call has begun. -/
def init (st : Status F) : StateCalls ι F := ⟨CasLoop.init st.a, CasLoop.init st.b⟩

/-- The call has returned. -/
def Returned (s : StateCalls ι F) (i : ι) : Prop := s.loopA.pc i = .done ∧ s.loopB.pc i = .done

variable [DecidableEq ι] [DecidableEq F] (N : Numbers F V) (x : ι → V)

/-- The next step of the call with the value `x i`: the second loop follows the first. -/
def act (s : StateCalls ι F) (i : ι) : StateCalls ι F :=
  if s.loopA.pc i = .done then { s with loopB := CasLoop.act (fun i => stateB N (x i)) s.loopB i }
  else { s with loopA := CasLoop.act (fun i => stateA N (x i)) s.loopA i }

/-- A call that has not returned takes its next step. -/
def step (s : StateCalls ι F) (i : ι) (t : StateCalls ι F) : Prop :=
  ¬ s.Returned i ∧ t = act N x s i

variable {N x} {s : StateCalls ι F} {st : Status F} {h : List (StateCalls ι F × ι)}

/-- The steps of the first loops are an execution of their own. -/
lemma run_loopA (hrun : Run (step N x) (init st) h s) :
    ∃ h', Run (CasLoop.step fun i => stateA N (x i)) (CasLoop.init st.a) h' s.loopA := by
  induction hrun with
  | nil => exact ⟨[], .nil⟩
  | @snoc h s t i hr hst ih =>
    obtain ⟨h', hrun⟩ := ih
    obtain ⟨-, rfl⟩ := hst
    rw [act]
    split_ifs with hpc
    · exact ⟨h', hrun⟩
    · exact ⟨_, hrun.snoc ⟨hpc, rfl⟩⟩

/-- The steps of the second loops are an execution of their own. -/
lemma run_loopB (hrun : Run (step N x) (init st) h s) :
    ∃ h', Run (CasLoop.step fun i => stateB N (x i)) (CasLoop.init st.b) h' s.loopB := by
  induction hrun with
  | nil => exact ⟨[], .nil⟩
  | @snoc h s t i hr hst ih =>
    obtain ⟨h', hrun⟩ := ih
    obtain ⟨hgo, rfl⟩ := hst
    rw [act]
    split_ifs with hpc
    · exact ⟨_, hrun.snoc ⟨fun hdone => hgo ⟨hpc, hdone⟩, rfl⟩⟩
    · exact ⟨h', hrun⟩

end StateCalls

/-! ## Exact numbers -/

/-- `MAX_NUM` -/
def maxNum : ℕ := 200000000

/-- Exact numbers in place of `float` and `double`. -/
def exact : Numbers ℚ ℚ where
  zero := 0
  toFloat value := value
  less p q := p < q
  average avg num value := (avg * num.toNat + value) / (num + 1).toNat
  tooLarge value := maxNum < value

/-- A value that `state` records, above 0. -/
abbrev Sample := {v : ℚ // 0 < v ∧ v ≤ maxNum}

/-- What the values `x` should leave in an entry. -/
structure RightStatistics {ι : Type*} [Fintype ι] (x : ι → Sample) (st : Status ℚ) : Prop where
  num_eq : st.num.toNat = Fintype.card ι
  max_eq : IsGreatest (Set.range fun i => (x i).val) st.maxvalue
  min_eq : IsLeast (Set.range fun i => (x i).val) st.minvalue
  avg_eq : st.avgvalue = (∑ i, (x i).val) / Fintype.card ι

section

variable {ι : Type*} (x : ι → Sample)

/-- The least and the greatest value after the calls one after the other, from 0. -/
lemma foldl_stateA (order : List ι) :
    order.foldl (fun w i => (stateA exact (x i).val).apply w) (0, 0)
      = (0, order.foldl (fun v i => max v (x i).val) 0) := by
  induction order using List.reverseRecOn with
  | nil => rfl
  | append_singleton order i ih =>
    simp only [List.foldl_append, List.foldl_cons, List.foldl_nil, ih]
    have hpos : ¬ (x i).val < 0 := not_lt.mpr (x i).property.1.le
    simp only [Op.apply, stateA, exact, if_true, decide_eq_true_eq, if_neg hpos, Prod.mk.injEq,
      true_and]
    exact (max_def_lt _ _).symm

/-- The mean and the number after the calls one after the other, from 0. -/
lemma foldl_stateB (order : List ι) (hlen : order.length < 2 ^ 32) :
    (order.foldl (fun w i => (stateB exact (x i).val).apply w) (0, 0)).2.toNat = order.length ∧
      (order.foldl (fun w i => (stateB exact (x i).val).apply w) (0, 0)).1 * order.length
        = (order.map fun i => (x i).val).sum := by
  induction order using List.reverseRecOn with
  | nil => simp
  | append_singleton order i ih =>
    rw [List.length_append, List.length_singleton] at hlen ⊢
    obtain ⟨hnum, havg⟩ := ih (by omega)
    simp only [List.foldl_append, List.foldl_cons, List.foldl_nil]
    generalize order.foldl (fun w i => (stateB exact (x i).val).apply w) (0, 0) = w at hnum havg ⊢
    have hnext : (w.2 + 1).toNat = order.length + 1 := by
      rw [UInt32.toNat_add, hnum]
      exact Nat.mod_eq_of_lt hlen
    refine ⟨hnext, ?_⟩
    have hne : ((order.length + 1 : ℕ) : ℚ) ≠ 0 := Nat.cast_ne_zero.mpr (Nat.succ_ne_zero _)
    simp only [Op.apply, stateB, exact, if_true, hnext, hnum, List.map_append, List.sum_append,
      List.map_singleton, List.sum_singleton, ← havg]
    exact div_mul_cancel₀ _ hne

end

section

variable {ι : Type*} [Fintype ι] [DecidableEq ι] {x : ι → Sample} {st : Status ℚ}
variable {s : StateCalls ι ℚ} {h : List (StateCalls ι ℚ × ι)}

/-- An entry as `registerStatus` or `Clear` leaves it. -/
def Fresh {F V : Type*} (N : Numbers F V) (st : Status F) : Prop :=
  ∃ (m : StatusMap F) (key : Bytes),
    (registerStatus N m key)[key]? = some st ∨ (clear N m)[key]? = some st

lemma Fresh.eq_zeros {F V : Type*} {N : Numbers F V} {st : Status F} (h : Fresh N st) :
    st = zeros N := by
  obtain ⟨m, key, h | h⟩ := h
  · rw [registerStatus, Std.ExtTreeMap.getElem?_insert_self] at h
    exact (Option.some.inj h).symm
  · rw [clear, Std.ExtTreeMap.getElem?_map, Option.map_eq_some_iff] at h
    obtain ⟨-, -, heq⟩ := h
    exact heq.symm

/-- An order in which all calls have finished. -/
lemma sum_order {order : List ι} (hnodup : order.Nodup) (hall : ∀ i, i ∈ order) :
    order.length = Fintype.card ι ∧
      (order.map fun i => (x i).val).sum = ∑ i, (x i).val := by
  have huniv : order.toFinset = Finset.univ := by
    ext i
    simp [hall i]
  rw [← List.sum_toFinset _ hnodup, huniv, ← List.toFinset_card_of_nodup hnodup, huniv]
  exact ⟨rfl, rfl⟩

/-- When all calls have returned, the greatest value is right, and so are the number and the mean
when the number fits; the least value is 0. -/
lemma statistics_of_returned (hfresh : Fresh exact st)
    (hrun : Run (StateCalls.step exact fun i => (x i).val) (StateCalls.init st) h s)
    (hreturned : ∀ i, s.Returned i) :
    s.status.minvalue = 0 ∧
      IsGreatest (insert 0 (Set.range fun i => (x i).val)) s.status.maxvalue ∧
      (Fintype.card ι < 2 ^ 32 → s.status.num.toNat = Fintype.card ι ∧
        s.status.avgvalue * Fintype.card ι = ∑ i, (x i).val) := by
  obtain rfl := hfresh.eq_zeros
  obtain ⟨hA, hrunA⟩ := StateCalls.run_loopA hrun
  obtain ⟨hB, hrunB⟩ := StateCalls.run_loopB hrun
  obtain ⟨orderA, hlinA⟩ := linearizable (fun _ _ _ => rfl) hrunA
  obtain ⟨orderB, hlinB⟩ := linearizable (fun _ _ _ => rfl) hrunB
  have hallA : {i | i ∈ orderA} = Set.univ := by
    ext i
    simp [hlinA.mem_iff i, (hreturned i).1]
  have hallB : ∀ i, i ∈ orderB := fun i => (hlinB.mem_iff i).mpr (hreturned i).2
  have hvalueA := hlinA.value_eq
  have hvalueB := hlinB.value_eq
  rw [show (zeros exact).a = (0, 0) from rfl, foldl_stateA] at hvalueA
  rw [show (zeros exact).b = (0, 0) from rfl] at hvalueB
  refine ⟨congrArg Prod.fst hvalueA, ?_, ?_⟩
  · have hgreatest := isGreatest_foldl_max (fun i => (x i).val) 0 orderA
    rw [hallA, Set.image_univ] at hgreatest
    have hmax : s.status.maxvalue = orderA.foldl (fun v i => max v (x i).val) 0 :=
      congrArg Prod.snd hvalueA
    rwa [← hmax] at hgreatest
  · intro hcard
    obtain ⟨hlength, hsum⟩ := @sum_order ι _ _ x orderB hlinB.nodup hallB
    obtain ⟨hnum, havg⟩ := foldl_stateB x orderB (by omega)
    rw [← hvalueB, hlength] at hnum havg
    exact ⟨hnum, havg.trans hsum⟩

/-- The least value is never right: for at least one value, all of them above 0, it is 0.  The
greatest value always is; the number and the mean are, as long as the number fits. -/
theorem minvalue_never_right [Nonempty ι] (hfresh : Fresh exact st)
    (hrun : Run (StateCalls.step exact fun i => (x i).val) (StateCalls.init st) h s)
    (hreturned : ∀ i, s.Returned i) :
    ¬ RightStatistics x s.status ∧
      IsGreatest (Set.range fun i => (x i).val) s.status.maxvalue ∧
      (Fintype.card ι < 2 ^ 32 → s.status.num.toNat = Fintype.card ι ∧
        s.status.avgvalue = (∑ i, (x i).val) / Fintype.card ι) := by
  obtain ⟨hmin, hmax, hrest⟩ := statistics_of_returned hfresh hrun hreturned
  refine ⟨?_, ?_, ?_⟩
  · intro hright
    obtain ⟨i, hi⟩ := hright.min_eq.1
    exact (x i).property.1.ne' (hi.trans hmin)
  · rcases hmax.1 with h0 | hmem
    · have i := Classical.arbitrary ι
      have hle := hmax.2 (Or.inr ⟨i, rfl⟩)
      rw [h0] at hle
      exact absurd (x i).property.1 (not_lt.mpr hle)
    · exact ⟨hmem, fun y hy => hmax.2 (Or.inr hy)⟩
  · intro hcard
    obtain ⟨hnum, havg⟩ := hrest hcard
    have hne : (Fintype.card ι : ℚ) ≠ 0 := Nat.cast_ne_zero.mpr Fintype.card_ne_zero
    exact ⟨hnum, eq_div_of_mul_eq hne havg⟩

/-- An entry behind `registerStatus`. -/
lemma fresh_zeros : Fresh exact (zeros exact) :=
  ⟨∅, [], Or.inl Std.ExtTreeMap.getElem?_insert_self⟩

/-- One call with the value 5. -/
def five : Unit → Sample := fun _ => ⟨5, by norm_num, by rw [maxNum]; norm_num⟩

/-- The two loops read and swap. -/
lemma five_run : ∃ h s, Run (StateCalls.step exact fun i => (five i).val)
    (StateCalls.init (zeros exact)) h s ∧ (∀ i, s.Returned i) := by
  let next := fun s => StateCalls.act exact (fun i => (five i).val) s ()
  let s₀ : StateCalls Unit ℚ := StateCalls.init (zeros exact)
  have h₁ : ¬ s₀.Returned () := fun hret => nomatch hret.1
  have h₂ : ¬ (next s₀).Returned () := fun hret => nomatch hret.1
  have h₃ : ¬ (next (next s₀)).Returned () := fun hret => nomatch hret.2
  have h₄ : ¬ (next (next (next s₀))).Returned () := fun hret => nomatch hret.2
  exact ⟨_, next (next (next (next s₀))),
    (((Run.nil.snoc ⟨h₁, rfl⟩).snoc ⟨h₂, rfl⟩).snoc ⟨h₃, rfl⟩).snoc ⟨h₄, rfl⟩, fun _ => ⟨rfl, rfl⟩⟩

theorem minvalue_five : ∃ h s, Run (StateCalls.step exact fun i => (five i).val)
    (StateCalls.init (zeros exact)) h s ∧ ¬ RightStatistics five s.status := by
  obtain ⟨h, s, hrun, hreturned⟩ := five_run
  exact ⟨h, s, hrun, (minvalue_never_right fresh_zeros hrun hreturned).1⟩

/-- Behind the one call `minvalue` is 0 and not 5. -/
theorem not_rightStatistics :
    ¬ ∀ h s, Run (StateCalls.step exact fun i => (five i).val) (StateCalls.init (zeros exact)) h s →
      (∀ i, s.Returned i) → RightStatistics five s.status := by
  intro hright
  obtain ⟨h, s, hrun, hreturned⟩ := five_run
  have hmin := (statistics_of_returned fresh_zeros hrun hreturned).1
  obtain ⟨i, hi⟩ := (hright h s hrun hreturned).min_eq.1
  exact (five i).property.1.ne' (hi.trans hmin)

end

end MTRpc
