import Mathlib.Data.List.Induction
import Mathlib.Data.List.Nodup
import Mathlib.Logic.Function.Iterate
import Mathlib.Order.Bounds.Basic
import MTRpc.Lib.Exec

/-!
# Compare-and-swap loops

Several operations change one shared value.  Each reads the value, leaves its loop when the value
is not one that it wants to change, and otherwise tries to swap the value read for a new one; what
the swap found decides whether it goes on.  The reads and the swaps of different operations
interleave in any order.

When each operation goes on exactly as long as its swap fails, every execution has the effect of
the finished operations one after the other (`linearizable`).  An operation that runs alone
finishes (`solo`).
-/

namespace CasLoop

open Exec (Run)

/-- A loop: which values it wants to change, what it writes for them, and whether it goes on,
given what the swap found and whether it succeeded. -/
structure Op (V : Type*) where
  wants : V → Bool
  next : V → V
  again : V → Bool → Bool

/-- Where an operation stands. -/
inductive Pc (V : Type*)
  | start
  | loaded (old : V)
  | done
deriving DecidableEq, Repr

/-- The shared value and the operations in progress. -/
structure State (ι V : Type*) where
  value : V
  pc : ι → Pc V

variable {ι V : Type*}

/-- No operation has begun. -/
def init (v : V) : State ι V := ⟨v, fun _ => .start⟩

/-- The effect of an operation that nothing interrupts. -/
def Op.apply (op : Op V) (v : V) : V := if op.wants v then op.next v else v

variable [DecidableEq ι] [DecidableEq V] (op : ι → Op V)

/-- The next step of the operation `i`: the read with the test, or the swap. -/
def act (s : State ι V) (i : ι) : State ι V :=
  match s.pc i with
  | .start =>
    ⟨s.value, Function.update s.pc i (if (op i).wants s.value then .loaded s.value else .done)⟩
  | .loaded old =>
    ⟨if s.value = old then (op i).next old else s.value,
      Function.update s.pc i (if (op i).again s.value (s.value = old) then .start else .done)⟩
  | .done => s

/-- An operation in progress takes its next step. -/
def step (s : State ι V) (i : ι) (t : State ι V) : Prop := s.pc i ≠ .done ∧ t = act op s i

variable {op} {s t : State ι V} {i j : ι} {v₀ : V} {h : List (State ι V × ι)}

lemma act_start_of_wants (hpc : s.pc i = .start) (hwants : (op i).wants s.value = true) :
    act op s i = ⟨s.value, Function.update s.pc i (.loaded s.value)⟩ := by
  simp only [act, hpc, hwants, if_true]

lemma act_start_of_not_wants (hpc : s.pc i = .start) (hwants : (op i).wants s.value = false) :
    act op s i = ⟨s.value, Function.update s.pc i .done⟩ := by
  simp only [act, hpc, hwants, Bool.false_eq_true, if_false]

lemma act_swap (hpc : s.pc i = .loaded s.value) :
    act op s i = ⟨(op i).next s.value,
      Function.update s.pc i (if (op i).again s.value true then .start else .done)⟩ := by
  simp only [act, hpc, if_true, decide_true]

lemma act_fail {old : V} (hpc : s.pc i = .loaded old) (hne : s.value ≠ old) :
    act op s i = ⟨s.value,
      Function.update s.pc i (if (op i).again s.value false then .start else .done)⟩ := by
  simp only [act, hpc, hne, if_false, decide_false]

lemma act_done (hpc : s.pc i = .done) : act op s i = s := by
  simp only [act, hpc]

/-- What a step can do. -/
lemma step_cases (hst : step op s i t) :
    (s.pc i = .start ∧ (op i).wants s.value = true ∧
        t = ⟨s.value, Function.update s.pc i (.loaded s.value)⟩) ∨
      (s.pc i = .start ∧ (op i).wants s.value = false ∧
        t = ⟨s.value, Function.update s.pc i .done⟩) ∨
      (s.pc i = .loaded s.value ∧ t = ⟨(op i).next s.value,
        Function.update s.pc i (if (op i).again s.value true then .start else .done)⟩) ∨
      ∃ old, s.pc i = .loaded old ∧ s.value ≠ old ∧ t = ⟨s.value,
        Function.update s.pc i (if (op i).again s.value false then .start else .done)⟩ := by
  obtain ⟨hne, rfl⟩ := hst
  cases hpc : s.pc i with
  | start =>
    cases hwants : (op i).wants s.value with
    | true => exact Or.inl ⟨rfl, rfl, act_start_of_wants hpc hwants⟩
    | false => exact Or.inr (Or.inl ⟨rfl, rfl, act_start_of_not_wants hpc hwants⟩)
  | loaded old =>
    by_cases heq : s.value = old
    · subst heq
      exact Or.inr (Or.inr (Or.inl ⟨rfl, act_swap hpc⟩))
    · exact Or.inr (Or.inr (Or.inr ⟨old, rfl, heq, act_fail hpc heq⟩))
  | done => exact absurd hpc hne

/-! ## One after the other -/

omit [DecidableEq V] in
lemma loaded_update {pc : Pc V} {v old : V}
    (hj : (⟨v, Function.update s.pc i pc⟩ : State ι V).pc j = .loaded old) :
    (j = i ∧ pc = .loaded old) ∨ s.pc j = .loaded old := by
  by_cases hji : j = i
  · subst hji
    exact Or.inl ⟨rfl, by simpa using hj⟩
  · exact Or.inr (by simpa [hji] using hj)

/-- A value that an operation has read is one that it wants to change. -/
lemma wants_of_loaded (hrun : Run (step op) (init v₀) h s) :
    ∀ j old, s.pc j = .loaded old → (op j).wants old = true := by
  induction hrun with
  | nil =>
    intro j old hpc
    cases hpc
  | @snoc h s t i hr hst ih =>
    intro j old hj
    rcases step_cases hst with ⟨hpc, hw, rfl⟩ | ⟨hpc, hw, rfl⟩ | ⟨hpc, rfl⟩ | ⟨v, hpc, hne, rfl⟩
    · rcases loaded_update hj with ⟨rfl, heq⟩ | hj
      · cases heq
        exact hw
      · exact ih j old hj
    · rcases loaded_update hj with ⟨rfl, heq⟩ | hj
      · cases heq
      · exact ih j old hj
    all_goals
      rcases loaded_update hj with ⟨rfl, heq⟩ | hj
      · split_ifs at heq
      · exact ih j old hj

/-- The operations finished so far, in the order in which they finished, account for the value. -/
structure Linear (op : ι → Op V) (v₀ : V) (s : State ι V) (order : List ι) : Prop where
  nodup : order.Nodup
  mem_iff : ∀ i, i ∈ order ↔ s.pc i = .done
  value_eq : s.value = order.foldl (fun v i => (op i).apply v) v₀

omit [DecidableEq V] in
/-- An operation that finishes. -/
lemma Linear.snoc {order : List ι} (hlin : Linear op v₀ s order) (hne : s.pc i ≠ .done) {v : V}
    (hv : v = (op i).apply s.value) :
    Linear op v₀ ⟨v, Function.update s.pc i .done⟩ (order ++ [i]) := by
  have hnot : i ∉ order := fun hi => hne ((hlin.mem_iff i).mp hi)
  refine ⟨?_, ?_, ?_⟩
  · rw [← List.concat_eq_append]
    exact hlin.nodup.concat hnot
  · intro j
    by_cases hj : j = i
    · simp [hj]
    · simp [hj, hlin.mem_iff j]
  · rw [List.foldl_append, ← hlin.value_eq]
    exact hv

omit [DecidableEq V] in
/-- An operation that goes on. -/
lemma Linear.update {order : List ι} (hlin : Linear op v₀ s order) (hne : s.pc i ≠ .done)
    {pc : Pc V} (hpc : pc ≠ .done) :
    Linear op v₀ ⟨s.value, Function.update s.pc i pc⟩ order := by
  refine ⟨hlin.nodup, ?_, hlin.value_eq⟩
  intro j
  by_cases hj : j = i
  · subst hj
    simp [hpc, hlin.mem_iff, hne]
  · simp [hj, hlin.mem_iff j]

/-- When each operation goes on exactly as long as its swap fails, the value is what the finished
operations make of the first value, one after the other. -/
theorem linearizable (hagain : ∀ i v swapped, (op i).again v swapped = !swapped)
    (hrun : Run (step op) (init v₀) h s) : ∃ order, Linear op v₀ s order := by
  induction hrun with
  | nil => exact ⟨[], List.nodup_nil, by simp [init], rfl⟩
  | @snoc h s t i hr hst ih =>
    obtain ⟨order, hlin⟩ := ih
    rcases step_cases hst with ⟨hpc, hw, rfl⟩ | ⟨hpc, hw, rfl⟩ | ⟨hpc, rfl⟩ | ⟨old, hpc, hne, rfl⟩
    · exact ⟨order, hlin.update hst.1 (by simp)⟩
    · exact ⟨_, hlin.snoc hst.1 (by simp [Op.apply, hw])⟩
    · have hw := wants_of_loaded hr i _ hpc
      rw [hagain, if_neg (by simp)]
      exact ⟨_, hlin.snoc hst.1 (by simp [Op.apply, hw])⟩
    · rw [hagain, if_pos (by simp)]
      exact ⟨order, hlin.update hst.1 (by simp)⟩

omit [DecidableEq ι] [DecidableEq V] in
/-- The greatest of a value and those that are compared with it one after the other. -/
lemma isGreatest_foldl_max [LinearOrder V] (x : ι → V) (v : V) (order : List ι) :
    IsGreatest (insert v (Set.image x {i | i ∈ order}))
      (order.foldl (fun v i => max v (x i)) v) := by
  induction order using List.reverseRecOn with
  | nil => simp
  | append_singleton order i ih =>
    have hset : insert v (Set.image x {j | j ∈ order ++ [i]})
        = insert (x i) (insert v (Set.image x {j | j ∈ order})) := by
      rw [Set.insert_comm, ← Set.image_insert_eq]
      congr 2
      ext j
      simp [or_comm]
    rw [List.foldl_append, List.foldl_cons, List.foldl_nil, hset, max_comm]
    exact ih.insert _

/-! ## Steps that keep the value -/

/-- Different operations take one step each, none of which changes the value. -/
lemma sweep {v : V} {p q : ι → Pc V} {is : List ι} (hnodup : is.Nodup)
    (hact : ∀ i ∈ is, ∀ s : State ι V, s.value = v → s.pc i = p i →
      step op s i ⟨v, Function.update s.pc i (q i)⟩)
    (hvalue : s.value = v) (hpc : ∀ i ∈ is, s.pc i = p i) :
    ∃ h t, Run (step op) s h t ∧ t.value = v ∧ (∀ i ∈ is, t.pc i = q i) ∧
      ∀ i, i ∉ is → t.pc i = s.pc i := by
  induction is generalizing s with
  | nil => exact ⟨[], s, .nil, hvalue, by simp, fun _ _ => rfl⟩
  | cons i is ih =>
    obtain ⟨hnot, hnodup⟩ := List.nodup_cons.mp hnodup
    have hst := hact i (List.mem_cons_self ..) s hvalue (hpc i (List.mem_cons_self ..))
    have hne : ∀ j ∈ is, j ≠ i := fun j hj heq => hnot (heq ▸ hj)
    obtain ⟨h, t, hrun, hv, hin, hout⟩ := @ih ⟨v, Function.update s.pc i (q i)⟩ hnodup
      (fun j hj => hact j (List.mem_cons_of_mem _ hj)) rfl fun j hj =>
        (Function.update_of_ne (hne j hj) _ _).trans (hpc j (List.mem_cons_of_mem _ hj))
    refine ⟨_, t, (Run.nil.snoc hst).trans hrun, hv, ?_, ?_⟩
    · intro j hj
      rcases List.mem_cons.mp hj with rfl | hj
      · rw [hout j hnot]
        simp
      · exact hin j hj
    · intro j hj
      obtain ⟨hji, hj⟩ := not_or.mp (mt List.mem_cons.mpr hj)
      rw [hout j hj]
      exact Function.update_of_ne hji _ _

/-! ## An operation that runs alone -/

/-- The operation `i` has finished, or does not want the value any more. -/
def Over (op : ι → Op V) (i : ι) (s : State ι V) : Prop :=
  s.pc i = .done ∨ s.pc i = .start ∧ (op i).wants s.value = false

/-- A swap that succeeds is the last one. -/
lemma over_swap (hstop : ∀ v, (op i).again v true = true → (op i).wants ((op i).next v) = false)
    (hpc : s.pc i = .loaded s.value) : Over op i (act op s i) := by
  rw [act_swap hpc]
  by_cases hagain : (op i).again s.value true = true
  · exact Or.inr ⟨by simp [hagain], hstop _ hagain⟩
  · exact Or.inl (by simp [hagain])

lemma Over.done (hover : Over op i s) : (act op s i).pc i = .done := by
  rcases hover with hpc | ⟨hpc, hwants⟩
  · rw [act_done hpc, hpc]
  · rw [act_start_of_not_wants hpc hwants]
    simp

/-- An operation that does not want what it has just written finishes alone within four steps. -/
theorem solo (hstop : ∀ v, (op i).again v true = true → (op i).wants ((op i).next v) = false)
    (s : State ι V) : ∃ n ≤ 4, ((act op · i)^[n] s).pc i = .done := by
  have hstart : ∀ s : State ι V, s.pc i = .start → ∃ n ≤ 3, ((act op · i)^[n] s).pc i = .done := by
    intro s hpc
    cases hwants : (op i).wants s.value with
    | false => exact ⟨1, by omega, Over.done (Or.inr ⟨hpc, hwants⟩)⟩
    | true =>
      refine ⟨3, Nat.le_refl 3, ?_⟩
      show (act op (act op (act op s i) i) i).pc i = .done
      rw [act_start_of_wants hpc hwants]
      exact (over_swap hstop (by simp)).done
  cases hpc : s.pc i with
  | start =>
    obtain ⟨n, hn, hdone⟩ := hstart s hpc
    exact ⟨n, by omega, hdone⟩
  | done => exact ⟨0, by omega, hpc⟩
  | loaded old =>
    by_cases heq : s.value = old
    · subst heq
      exact ⟨2, by omega, (over_swap hstop hpc).done⟩
    · cases hagain : (op i).again s.value false with
      | false =>
        refine ⟨1, by omega, ?_⟩
        show (act op s i).pc i = .done
        rw [act_fail hpc heq]
        simp [hagain]
      | true =>
        obtain ⟨n, hn, hdone⟩ := hstart (act op s i) (by rw [act_fail hpc heq]; simp [hagain])
        exact ⟨n + 1, by omega, hdone⟩

end CasLoop
