import Mathlib.Algebra.Ring.Int.Defs
import Mathlib.Data.Fintype.Basic
import MTRpc.Lib.CasLoop

/-!
# The greatest and the least value set by concurrent calls

`largerSet` and `smallerSet` of `AtomicIntegerT` are compare-and-swap loops.  `largerSet` goes on
while its swap fails, so that the value ends up as the greatest of all.  `smallerSet` goes on
while the swap finds a value other than 0: after a swap that fails on a 0 the call returns, and
the value stays above its argument unless that is not negative.
-/

namespace MTRpc

open CasLoop
open Exec (Run)

variable {T ι : Type*} [LinearOrder T]

namespace AtomicIntegerT

/-- `largerSet`, with `__sync_bool_compare_and_swap` in the condition. -/
def largerSet (newValue : T) : Op T where
  wants oldvalue := oldvalue < newValue
  next _ := newValue
  again _ swapped := !swapped

/-- `smallerSet`, with `__sync_val_compare_and_swap` in the condition, which gives the value that
it found. -/
def smallerSet [Zero T] (newValue : T) : Op T where
  wants oldvalue := newValue < oldvalue
  next _ := newValue
  again found _ := found ≠ 0

end AtomicIntegerT

open AtomicIntegerT

/-! ## `largerSet` -/

section

variable (x : ι → T)

lemma largerSet_apply (v newValue : T) : (largerSet newValue).apply v = max v newValue := by
  rw [Op.apply]
  by_cases hlt : v < newValue
  · rw [if_pos (by simpa [largerSet] using hlt), max_eq_right hlt.le]
    rfl
  · rw [if_neg (by simpa [largerSet] using hlt), max_eq_left (not_lt.mp hlt)]

/-- Concurrent calls of `largerSet` that have all returned have set the greatest value. -/
lemma isGreatest_largerSet [DecidableEq ι] {v : T} {h : List (State ι T × ι)} {s : State ι T}
    (hrun : Run (step fun i => largerSet (x i)) (init v) h s) (hdone : ∀ i, s.pc i = .done) :
    IsGreatest (insert v (Set.range x)) s.value := by
  obtain ⟨order, hlin⟩ := linearizable (fun _ _ _ => rfl) hrun
  have hall : {i | i ∈ order} = Set.univ := by
    ext i
    simp [hlin.mem_iff i, hdone i]
  have hgreatest := isGreatest_foldl_max x v order
  have hvalue := hlin.value_eq
  simp only [largerSet_apply] at hvalue
  rwa [hall, Set.image_univ, ← hvalue] at hgreatest

end

/-! ## `smallerSet` -/

section

variable [DecidableEq ι] [Zero T] {x : ι → T} {v : T} {h : List (State ι T × ι)} {s : State ι T}

/-- What the calls of `smallerSet` keep: the value only falls, and stays below what the calls in
progress have read and below the arguments of the calls that have returned. -/
structure Falling (x : ι → T) (v : T) (s : State ι T) : Prop where
  le_init : s.value ≤ v
  mem : s.value = v ∨ ∃ i, s.value = x i
  loaded : ∀ i old, s.pc i = .loaded old → x i < old ∧ s.value ≤ old ∧ old ≤ v
  done : ∀ i, s.pc i = .done → s.value ≤ x i

/-- A value above 0, a call with 0 and a call with a negative value. -/
def Skips (v : T) (x : ι → T) : Prop := 0 < v ∧ (∃ i, x i = 0) ∧ ∃ i, x i < 0

omit [Zero T] in
/-- A step of a call whose next position is `pc`. -/
lemma Falling.update (hfall : Falling x v s) {i : ι} {w : T} {pc : Pc T} (hle : w ≤ s.value)
    (hmem : w = s.value ∨ w = x i)
    (hloaded : ∀ old, pc = .loaded old → x i < old ∧ w ≤ old ∧ old ≤ v)
    (hdone : pc = .done → w ≤ x i) : Falling x v ⟨w, Function.update s.pc i pc⟩ := by
  refine ⟨hle.trans hfall.le_init, ?_, ?_, ?_⟩
  · rcases hmem with rfl | rfl
    · exact hfall.mem
    · exact Or.inr ⟨i, rfl⟩
  · intro j old hj
    rcases loaded_update hj with ⟨rfl, rfl⟩ | hj
    · exact hloaded old rfl
    · obtain ⟨hlt, hvalue, hold⟩ := hfall.loaded j old hj
      exact ⟨hlt, hle.trans hvalue, hold⟩
  · intro j hj
    by_cases hji : j = i
    · subst hji
      exact hdone (by simpa using hj)
    · exact hle.trans (hfall.done j (by simpa [hji] using hj))

lemma falling_run (hskip : ¬ Skips v x)
    (hrun : Run (step fun i => smallerSet (x i)) (init v) h s) : Falling x v s := by
  refine hrun.invariant_all (Falling x v) ?_ ?_
  · refine ⟨le_rfl, Or.inl rfl, ?_, ?_⟩
    · intro i old hpc
      cases hpc
    · intro i hpc
      cases hpc
  · rintro s i t hfall hst
    rcases step_cases hst with ⟨hpc, hw, rfl⟩ | ⟨hpc, hw, rfl⟩ | ⟨hpc, rfl⟩ | ⟨old, hpc, hne, rfl⟩
    · refine hfall.update le_rfl (Or.inl rfl) ?_ (by simp)
      rintro old heq
      cases heq
      exact ⟨by simpa [smallerSet] using hw, le_rfl, hfall.le_init⟩
    · exact hfall.update le_rfl (Or.inl rfl) (by simp) fun _ => by simpa [smallerSet] using hw
    · have hlt := (hfall.loaded i _ hpc).1
      refine hfall.update hlt.le (Or.inr rfl) ?_ fun _ => le_rfl
      rintro old heq
      split_ifs at heq
    · refine hfall.update le_rfl (Or.inl rfl) ?_ ?_
      · rintro v heq
        split_ifs at heq
      · -- the call returns although its swap failed: it has found a 0
        intro heq
        have hzero : s.value = 0 := by
          by_contra hne
          simp [smallerSet, hne] at heq
        obtain ⟨-, hle, hold⟩ := hfall.loaded i old hpc
        have hpos : 0 < v := by
          rw [← hzero]
          exact (lt_of_le_of_ne hle hne).trans_le hold
        rcases hfall.mem with hv | ⟨k, hk⟩
        · exact absurd (hv.symm.trans hzero) hpos.ne'
        · rw [hzero]
          by_contra hneg
          exact hskip ⟨hpos, ⟨k, hk.symm.trans hzero⟩, i, not_le.mp hneg⟩

/-- Concurrent calls of `smallerSet` that have all returned have set the least value, unless a
call can miss its swap at a 0. -/
lemma isLeast_smallerSet (hskip : ¬ Skips v x)
    (hrun : Run (step fun i => smallerSet (x i)) (init v) h s) (hdone : ∀ i, s.pc i = .done) :
    IsLeast (insert v (Set.range x)) s.value := by
  have hfall := falling_run hskip hrun
  constructor
  · rcases hfall.mem with heq | ⟨i, heq⟩
    · exact Or.inl heq
    · exact Or.inr ⟨i, heq.symm⟩
  · rintro y (rfl | ⟨i, rfl⟩)
    · exact hfall.le_init
    · exact hfall.done i (hdone i)

/-- A call with 0 that finds a value above 0 sets it, and returns when it reads the 0. -/
lemma zero_run {z : ι} (hz : x z = 0) (hpc : s.pc z = .start) (hpos : 0 < s.value) :
    ∃ h, Run (step fun i => smallerSet (x i)) s h ⟨0, Function.update s.pc z .done⟩ := by
  let s₁ : State ι T := ⟨s.value, Function.update s.pc z (.loaded s.value)⟩
  let s₂ : State ι T := ⟨0, Function.update s.pc z .start⟩
  have h₁ : step (fun i => smallerSet (x i)) s z s₁ := by
    refine ⟨by simp [hpc], (act_start_of_wants hpc ?_).symm⟩
    simpa [smallerSet, hz] using hpos
  have h₂ : step (fun i => smallerSet (x i)) s₁ z s₂ := by
    refine ⟨by simp [s₁], ?_⟩
    rw [act_swap (by simp [s₁])]
    simp [smallerSet, s₁, s₂, hz, hpos.ne']
  have h₃ : step (fun i => smallerSet (x i)) s₂ z ⟨0, Function.update s.pc z .done⟩ := by
    refine ⟨by simp [s₂], ?_⟩
    rw [act_start_of_not_wants (by simp [s₂]) (by simp [smallerSet, s₂, hz])]
    simp [s₂]
  exact ⟨_, ((Run.nil.snoc h₁).snoc h₂).snoc h₃⟩

/-- The run in which every call with a negative value reads the first value, the call with 0 sets
it, and the other swaps find that 0. -/
lemma skips_run [Fintype ι] (hskip : Skips v x) :
    ∃ h s, Run (step fun i => smallerSet (x i)) (init v) h s ∧ (∀ i, s.pc i = .done) ∧
      s.value = 0 := by
  obtain ⟨hpos, ⟨z, hz⟩, -⟩ := hskip
  let below := (Finset.univ.filter fun i => x i < 0).toList
  let above := (Finset.univ.filter fun i => 0 ≤ x i ∧ i ≠ z).toList
  have hbelow : ∀ i, i ∈ below ↔ x i < 0 := by simp [below]
  have habove : ∀ i, i ∈ above ↔ 0 ≤ x i ∧ i ≠ z := by simp [above]
  have hzb : z ∉ below := by simp [hbelow, hz]
  have hread : ∀ i ∈ below, ∀ s : State ι T, s.value = v → s.pc i = .start →
      step (fun i => smallerSet (x i)) s i ⟨v, Function.update s.pc i (.loaded v)⟩ := by
    rintro i hi s rfl hpc
    refine ⟨by simp [hpc], (act_start_of_wants hpc ?_).symm⟩
    simpa [smallerSet] using ((hbelow i).mp hi).trans hpos
  have hmiss : ∀ i ∈ below, ∀ s : State ι T, s.value = 0 → s.pc i = .loaded v →
      step (fun i => smallerSet (x i)) s i ⟨0, Function.update s.pc i .done⟩ := by
    intro i _ s hs hpc
    refine ⟨by simp [hpc], ?_⟩
    rw [act_fail hpc (by rw [hs]; exact hpos.ne), hs]
    simp [smallerSet]
  have hleave : ∀ i ∈ above, ∀ s : State ι T, s.value = 0 → s.pc i = .start →
      step (fun i => smallerSet (x i)) s i ⟨0, Function.update s.pc i .done⟩ := by
    intro i hi s hs hpc
    refine ⟨by simp [hpc], ?_⟩
    rw [act_start_of_not_wants hpc (by simpa [smallerSet, hs] using ((habove i).mp hi).1), hs]
  obtain ⟨h₁, s₁, hrun₁, hv₁, hin₁, hout₁⟩ := @sweep ι T _ _ _ (init v) v _ _ below
    (Finset.nodup_toList _) hread rfl fun _ _ => rfl
  obtain ⟨h₂, hrun₂⟩ := @zero_run T ι _ _ _ x s₁ z hz (hout₁ z hzb) (by rw [hv₁]; exact hpos)
  obtain ⟨h₃, s₃, hrun₃, hv₃, hin₃, hout₃⟩ := @sweep ι T _ _ _
    ⟨0, Function.update s₁.pc z .done⟩ 0 _ _ below (Finset.nodup_toList _) hmiss rfl fun i hi =>
      (Function.update_of_ne (ne_of_mem_of_not_mem hi hzb) _ _).trans (hin₁ i hi)
  have hz₃ : s₃.pc z = .done := (hout₃ z hzb).trans (Function.update_self ..)
  obtain ⟨h₄, s₄, hrun₄, hv₄, hin₄, hout₄⟩ := @sweep ι T _ _ _ s₃ 0 _ _ above
    (Finset.nodup_toList _) hleave hv₃ fun i hi => by
      have hnot : i ∉ below := fun hb => not_lt.mpr ((habove i).mp hi).1 ((hbelow i).mp hb)
      rw [hout₃ i hnot]
      exact (Function.update_of_ne ((habove i).mp hi).2 _ _).trans (hout₁ i hnot)
  refine ⟨_, s₄, ((hrun₁.trans hrun₂).trans hrun₃).trans hrun₄, ?_, hv₄⟩
  intro i
  by_cases hi : i ∈ above
  · exact hin₄ i hi
  · rw [hout₄ i hi]
    by_cases hiz : i = z
    · rw [hiz, hz₃]
    · refine hin₃ i ((hbelow i).mpr (not_le.mp fun hle => hi ((habove i).mpr ⟨hle, hiz⟩)))

end

/-- `largerSet` always sets the greatest value.  `smallerSet` sets the least value in every
interleaving if and only if there are not a value above 0, a call with 0 and a call with a
negative value together.  A call that runs alone returns within four of its steps. -/
theorem atomic_maximum_minimum [Zero T] [DecidableEq ι] [Fintype ι] (v : T) (x : ι → T) :
    (∀ h s, Run (step fun i => largerSet (x i)) (init v) h s → (∀ i, s.pc i = .done) →
      IsGreatest (insert v (Set.range x)) s.value) ∧
      ((∀ h s, Run (step fun i => smallerSet (x i)) (init v) h s → (∀ i, s.pc i = .done) →
        IsLeast (insert v (Set.range x)) s.value) ↔
          ¬ (0 < v ∧ (∃ i, x i = 0) ∧ ∃ i, x i < 0)) ∧
      ∀ (s : State ι T) i,
        (∃ n ≤ 4, ((act (fun i => largerSet (x i)) · i)^[n] s).pc i = .done) ∧
          ∃ n ≤ 4, ((act (fun i => smallerSet (x i)) · i)^[n] s).pc i = .done := by
  refine ⟨fun h s hrun hdone => isGreatest_largerSet x hrun hdone, ⟨?_, ?_⟩, fun s i => ⟨?_, ?_⟩⟩
  · rintro hleast ⟨hpos, hzero, j, hj⟩
    obtain ⟨h, s, hrun, hdone, hvalue⟩ := skips_run ⟨hpos, hzero, j, hj⟩
    have hle := (hleast h s hrun hdone).2 (Or.inr ⟨j, rfl⟩)
    rw [hvalue] at hle
    exact not_lt.mpr hle hj
  · intro hskip h s hrun hdone
    exact isLeast_smallerSet hskip hrun hdone
  · exact solo (by simp [largerSet]) s
  · exact solo (by simp [smallerSet]) s

/-- From 5, `smallerSet(-1)` reads the 5, `smallerSet(0)` sets the 0, and the swap of the first
finds it: both calls return and the value is 0. -/
theorem smallerSet_misses :
    ¬ ∀ h s, Run (step fun i : Bool => smallerSet (if i then (-1 : ℤ) else 0)) (init 5) h s →
      (∀ i, s.pc i = .done) →
        IsLeast (insert 5 (Set.range fun i : Bool => if i then (-1 : ℤ) else 0)) s.value := by
  intro hleast
  obtain ⟨h, s, hrun, hdone, hvalue⟩ := skips_run (x := fun i : Bool => if i then (-1 : ℤ) else 0)
    (v := 5) ⟨by decide, ⟨false, rfl⟩, true, by decide⟩
  have hle := (hleast h s hrun hdone).2 (Or.inr ⟨true, rfl⟩)
  rw [hvalue] at hle
  exact absurd hle (by decide)

end MTRpc
