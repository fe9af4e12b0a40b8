import Mathlib.Algebra.Order.BigOperators.Group.List
import Mathlib.Algebra.Order.Group.Int
import Mathlib.Data.Int.ModEq
import Mathlib.Data.List.Induction
import Mathlib.Logic.Function.Basic

/-!
# The statistics of the last slots

A `MethodBoard` counts the processed requests of each second in a slot; the slots stand in a ring
of `STAT_SLOT_COUNT`, and `NextSlot` clears the slot that it enters.  `LatestStats` goes back from
the slot before the current one.

The ring holds the current slot and the `STAT_SLOT_COUNT - 1` slots before it
(`MethodBoard.Holds`).  But `LatestStats` accepts `STAT_SLOT_COUNT`, and then the last step leads
to the current slot in place of a completed one.
-/

namespace MTRpc

/-- `STAT_SLOT_COUNT` -/
def statSlotCount : ℕ := 602

/-- One half of `StatSlot`, for the requests that succeeded or for those that failed. -/
structure Tally where
  count : Int64
  processTime : Int64
  maxProcessTime : Int64
deriving DecidableEq, Repr

/-- `StatSlot` -/
structure StatSlot where
  succeed : Tally
  failed : Tally
deriving DecidableEq, Repr

/-- `MethodBoard`, as far as statistics are concerned. -/
structure MethodBoard where
  statSlots : ℕ → StatSlot
  slotIndex : ℕ

namespace Tally

/-- A cleared half. -/
def zero : Tally := ⟨0, 0, 0⟩

/-- One more request. -/
def add (y : Tally) (timeInUs : Int64) : Tally :=
  ⟨y.count + 1, y.processTime + timeInUs,
    if y.maxProcessTime < timeInUs then timeInUs else y.maxProcessTime⟩

/-- The sum of two halves. -/
def merge (out y : Tally) : Tally :=
  ⟨out.count + y.count, out.processTime + y.processTime,
    if out.maxProcessTime < y.maxProcessTime then y.maxProcessTime else out.maxProcessTime⟩

end Tally

namespace MethodBoard

/-- A cleared slot. -/
def cleared : StatSlot := ⟨.zero, .zero⟩

/-- The constructor. -/
def init : MethodBoard := ⟨fun _ => cleared, 0⟩

variable (b : MethodBoard)

/-- `ReportProcessEnd` -/
def reportProcessEnd (succeed : Bool) (timeInUs : Int64) : MethodBoard :=
  let slot := b.statSlots b.slotIndex
  let slot := if succeed then { slot with succeed := slot.succeed.add timeInUs }
    else { slot with failed := slot.failed.add timeInUs }
  { b with statSlots := Function.update b.statSlots b.slotIndex slot }

/-- `NextSlot` -/
def nextSlot : MethodBoard :=
  let slotIndex := if b.slotIndex + 1 = statSlotCount then 0 else b.slotIndex + 1
  ⟨Function.update b.statSlots slotIndex cleared, slotIndex⟩

/-- `index == 0 ? STAT_SLOT_COUNT - 1 : index - 1` -/
def previous (index : ℕ) : ℕ := if index = 0 then statSlotCount - 1 else index - 1

/-- The loop of `LatestStats`. -/
def latestLoop : ℕ → ℕ → StatSlot → StatSlot
  | 0, _, statOut => statOut
  | slotCount + 1, index, statOut =>
    let slot := b.statSlots index
    latestLoop slotCount (previous index)
      ⟨statOut.succeed.merge slot.succeed, statOut.failed.merge slot.failed⟩

/-- `LatestStats`; its checks only write a warning. -/
def latestStats (slotCount : ℤ) : StatSlot :=
  b.latestLoop slotCount.toNat (previous b.slotIndex) cleared

end MethodBoard

/-! ## Histories -/

/-- A processed request, with a time that is not negative. -/
structure Report where
  succeed : Bool
  time : Int64
  nonneg : 0 ≤ time.toInt

/-- What happens to a board. -/
inductive BoardEvent
  | processEnd (report : Report)
  | nextSlot

/-- The requests of the slot in progress and those of the completed slots, the last one first. -/
structure SlotHistory where
  current : List Report
  completed : List (List Report)

/-- The board behind an event. -/
def MethodBoard.event (b : MethodBoard) : BoardEvent → MethodBoard
  | .processEnd report => b.reportProcessEnd report.succeed report.time
  | .nextSlot => b.nextSlot

/-- The history behind an event. -/
def SlotHistory.event (s : SlotHistory) : BoardEvent → SlotHistory
  | .processEnd report => { s with current := s.current ++ [report] }
  | .nextSlot => ⟨[], s.current :: s.completed⟩

/-- The board behind all events. -/
def boardAfter (events : List BoardEvent) : MethodBoard := events.foldl MethodBoard.event .init

/-- The history of all events. -/
def slotsAfter (events : List BoardEvent) : SlotHistory := events.foldl SlotHistory.event ⟨[], []⟩

/-- The times of the requests that succeeded, or of those that failed. -/
def timesOf (succeed : Bool) (reports : List Report) : List ℤ :=
  (reports.filter (·.succeed = succeed)).map (·.time.toInt)

/-- The greatest time, 0 when there is none. -/
def greatest (times : List ℤ) : ℤ := times.foldl max 0

/-- The half of a slot has exactly the number, the sum and the maximum of the times. -/
structure Tally.Exact (y : Tally) (times : List ℤ) : Prop where
  count_eq : y.count.toInt = times.length
  processTime_eq : y.processTime.toInt = times.sum
  max_eq : y.maxProcessTime.toInt = greatest times

/-- The slot is right for the requests. -/
def StatSlot.Exact (slot : StatSlot) (reports : List Report) : Prop :=
  slot.succeed.Exact (timesOf true reports) ∧ slot.failed.Exact (timesOf false reports)

/-- The number and the sum fit `int64`. -/
def FitsInt64 (times : List ℤ) : Prop := (times.length : ℤ) < 2 ^ 63 ∧ times.sum < 2 ^ 63

/-- In the sum with `times`, `us` and `ts` cannot be told apart. -/
def AlikeBehind (times us ts : List ℤ) : Prop :=
  us.length ≡ ts.length [MOD 2 ^ 64] ∧ us.sum ≡ ts.sum [ZMOD 2 ^ 64] ∧
    max (greatest times) (greatest us) = max (greatest times) (greatest ts)

/-! ## Sums -/

/-- The half of a slot counts the times, up to the overflow of `int64`. -/
structure Tally.Counts (y : Tally) (times : List ℤ) : Prop where
  count_eq : y.count.toInt = (times.length : ℤ).bmod (2 ^ 64)
  processTime_eq : y.processTime.toInt = times.sum.bmod (2 ^ 64)
  max_eq : y.maxProcessTime.toInt = greatest times

lemma greatest_append (ts us : List ℤ) : greatest (ts ++ us) = max (greatest ts) (greatest us) := by
  have hfold : ∀ m : ℤ, 0 ≤ m → us.foldl max m = max m (greatest us) := by
    intro m hm
    induction us using List.reverseRecOn with
    | nil => exact (max_eq_left hm).symm
    | append_singleton us u ih =>
      rw [greatest, List.foldl_append, List.foldl_append, ih, ← greatest]
      exact max_assoc _ _ _
  have hpos : 0 ≤ greatest ts := by
    rw [greatest]
    induction ts using List.reverseRecOn with
    | nil => exact le_rfl
    | append_singleton ts t ih =>
      rw [List.foldl_append]
      exact le_max_of_le_left ih
  rw [greatest, List.foldl_append]
  exact hfold _ hpos

namespace Tally

lemma counts_zero : zero.Counts [] := ⟨rfl, rfl, rfl⟩

/-- The greater one of two times. -/
lemma toInt_ite (s t : Int64) : (if s < t then t else s).toInt = max s.toInt t.toInt := by
  split_ifs with hlt
  · exact (max_eq_right (Int64.lt_iff_toInt_lt.mp hlt).le).symm
  · exact (max_eq_left (not_lt.mp (mt Int64.lt_iff_toInt_lt.mpr hlt))).symm

lemma Counts.merge {out y : Tally} {us ts : List ℤ} (hout : out.Counts us) (hy : y.Counts ts) :
    (out.merge y).Counts (us ++ ts) := by
  refine ⟨?_, ?_, ?_⟩
  · rw [Tally.merge, Int64.toInt_add, hout.count_eq, hy.count_eq, List.length_append]
    simp
  · rw [Tally.merge, Int64.toInt_add, hout.processTime_eq, hy.processTime_eq, List.sum_append]
    simp
  · rw [Tally.merge, toInt_ite, hout.max_eq, hy.max_eq, greatest_append]

lemma Counts.add {y : Tally} {ts : List ℤ} (hy : y.Counts ts) (t : Int64) (ht : 0 ≤ t.toInt) :
    (y.add t).Counts (ts ++ [t.toInt]) := by
  refine hy.merge (y := ⟨1, t, t⟩) ⟨?_, ?_, ?_⟩
  · exact (by decide : (1 : Int64).toInt = ((1 : ℕ) : ℤ).bmod (2 ^ 64))
  · simp
  · exact (max_eq_right ht).symm

end Tally

/-- The slot counts the requests, up to the overflow of `int64`. -/
def StatSlot.Counts (slot : StatSlot) (reports : List Report) : Prop :=
  slot.succeed.Counts (timesOf true reports) ∧ slot.failed.Counts (timesOf false reports)

lemma timesOf_append (succeed : Bool) (L M : List Report) :
    timesOf succeed (L ++ M) = timesOf succeed L ++ timesOf succeed M := by
  simp [timesOf]

lemma sum_timesOf_nonneg (succeed : Bool) (L : List Report) : 0 ≤ (timesOf succeed L).sum := by
  refine List.sum_nonneg fun t ht => ?_
  obtain ⟨report, -, rfl⟩ := List.mem_map.mp ht
  exact report.nonneg

/-- One more request. -/
lemma StatSlot.Counts.report {slot : StatSlot} {L : List Report} (h : slot.Counts L)
    (report : Report) :
    StatSlot.Counts (if report.succeed then { slot with succeed := slot.succeed.add report.time }
      else { slot with failed := slot.failed.add report.time }) (L ++ [report]) := by
  rw [StatSlot.Counts, timesOf_append, timesOf_append]
  cases hsucceed : report.succeed with
  | true =>
    have htrue : timesOf true [report] = [report.time.toInt] := by simp [timesOf, hsucceed]
    have hfalse : timesOf false [report] = [] := by simp [timesOf, hsucceed]
    rw [htrue, hfalse, List.append_nil]
    exact ⟨h.1.add _ report.nonneg, h.2⟩
  | false =>
    have htrue : timesOf true [report] = [] := by simp [timesOf, hsucceed]
    have hfalse : timesOf false [report] = [report.time.toInt] := by simp [timesOf, hsucceed]
    rw [htrue, hfalse, List.append_nil]
    exact ⟨h.1, h.2.add _ report.nonneg⟩

/-- The requests of two slots. -/
lemma StatSlot.Counts.merge {out slot : StatSlot} {L M : List Report} (hout : out.Counts L)
    (hslot : slot.Counts M) :
    StatSlot.Counts ⟨out.succeed.merge slot.succeed, out.failed.merge slot.failed⟩ (L ++ M) := by
  rw [StatSlot.Counts, timesOf_append, timesOf_append]
  exact ⟨hout.1.merge hslot.1, hout.2.merge hslot.2⟩

/-! ## The ring -/

namespace MethodBoard

/-- The place of the slot completed `j + 1` slots ago. -/
def back (index j : ℕ) : ℕ := (index + (2 * statSlotCount - 1) - j) % statSlotCount

/-- The board represents the history, as far back as it goes. -/
structure Holds (b : MethodBoard) (s : SlotHistory) : Prop where
  lt : b.slotIndex < statSlotCount
  current : (b.statSlots b.slotIndex).Counts s.current
  completed : ∀ j < statSlotCount - 1,
    (b.statSlots (back b.slotIndex j)).Counts (s.completed.getD j [])

lemma counts_cleared : cleared.Counts [] := ⟨Tally.counts_zero, Tally.counts_zero⟩

lemma holds_init : init.Holds ⟨[], []⟩ :=
  ⟨by decide, counts_cleared, fun _ _ => counts_cleared⟩

variable {b : MethodBoard} {s : SlotHistory}

lemma back_ne (h : b.slotIndex < statSlotCount) {j : ℕ} (hj : j < statSlotCount - 1) :
    back b.slotIndex j ≠ b.slotIndex := by
  rw [back, statSlotCount] at *
  omega

lemma Holds.reportProcessEnd (h : b.Holds s) (report : Report) :
    (b.event (.processEnd report)).Holds (s.event (.processEnd report)) := by
  refine ⟨h.lt, ?_, ?_⟩
  · show (Function.update b.statSlots b.slotIndex _ b.slotIndex).Counts (s.current ++ [report])
    rw [Function.update_self]
    exact h.current.report report
  · intro j hj
    show (Function.update b.statSlots b.slotIndex _ (back b.slotIndex j)).Counts _
    rw [Function.update_of_ne (back_ne h.lt hj)]
    exact h.completed j hj

lemma Holds.nextSlot (h : b.Holds s) : (b.event .nextSlot).Holds (s.event .nextSlot) := by
  have hlt := h.lt
  have hindex : b.nextSlot.slotIndex = (b.slotIndex + 1) % statSlotCount := by
    show (if b.slotIndex + 1 = statSlotCount then 0 else b.slotIndex + 1) = _
    rw [statSlotCount] at *
    split_ifs <;> omega
  have hslots : b.nextSlot.statSlots
      = Function.update b.statSlots b.nextSlot.slotIndex cleared := rfl
  have hlt' : b.nextSlot.slotIndex < statSlotCount := hindex ▸ Nat.mod_lt _ (by decide)
  show b.nextSlot.Holds ⟨[], s.current :: s.completed⟩
  refine ⟨hlt', ?_, ?_⟩
  · rw [hslots, Function.update_self]
    exact counts_cleared
  · intro j hj
    rw [hslots, Function.update_of_ne (back_ne hlt' hj), hindex]
    cases j with
    | zero =>
      have hback : back ((b.slotIndex + 1) % statSlotCount) 0 = b.slotIndex := by
        rw [back, statSlotCount] at *
        omega
      rw [hback]
      exact h.current
    | succ j =>
      have hback : back ((b.slotIndex + 1) % statSlotCount) (j + 1) = back b.slotIndex j := by
        rw [back, back, statSlotCount] at *
        omega
      rw [hback]
      exact h.completed j (by omega)

lemma holds_after (events : List BoardEvent) : (boardAfter events).Holds (slotsAfter events) := by
  induction events using List.reverseRecOn with
  | nil => exact holds_init
  | append_singleton events event ih =>
    rw [boardAfter, slotsAfter, List.foldl_append, List.foldl_append]
    cases event with
    | processEnd report => exact ih.reportProcessEnd report
    | nextSlot => exact ih.nextSlot

/-- The slots that `LatestStats` adds up: `STAT_SLOT_COUNT - 1` completed ones, and then the
current one. -/
def visited (s : SlotHistory) (j : ℕ) : List Report :=
  if j < statSlotCount - 1 then s.completed.getD j [] else s.current

lemma Holds.counts_visited (h : b.Holds s) {j : ℕ} (hj : j < statSlotCount) :
    (b.statSlots (back b.slotIndex j)).Counts (visited s j) := by
  rw [visited]
  split_ifs with hlt
  · exact h.completed j hlt
  · have hback : back b.slotIndex j = b.slotIndex := by
      have hindex := h.lt
      rw [back, statSlotCount] at *
      omega
    rw [hback]
    exact h.current

/-- The loop adds up the visited slots. -/
lemma Holds.latestLoop (h : b.Holds s) {n j : ℕ} (hn : j + n ≤ statSlotCount) {out : StatSlot}
    {L : List Report} (hout : out.Counts L) :
    (b.latestLoop n (back b.slotIndex j) out).Counts
      (L ++ (List.range' j n).flatMap (visited s)) := by
  induction n generalizing j out L with
  | zero => simpa [MethodBoard.latestLoop] using hout
  | succ n ih =>
    have hprevious : previous (back b.slotIndex j) = back b.slotIndex (j + 1) := by
      have hindex := h.lt
      rw [previous, back, back, statSlotCount] at *
      split_ifs <;> omega
    rw [MethodBoard.latestLoop, hprevious, List.range'_succ, List.flatMap_cons,
      ← List.append_assoc]
    exact ih (by omega) (hout.merge (h.counts_visited (by omega)))

end MethodBoard

/-! ## The statistics -/

/-- The requests of the last `n` completed slots. -/
def SlotHistory.last (s : SlotHistory) (n : ℕ) : List Report := (s.completed.take n).flatten

/-- The half of a slot that counts `us`, compared with `ts`. -/
lemma Tally.Counts.exact_iff {y : Tally} {us ts : List ℤ} (hy : y.Counts us) (hts : 0 ≤ ts.sum) :
    y.Exact ts ↔ FitsInt64 ts ∧ us.length ≡ ts.length [MOD 2 ^ 64] ∧
      us.sum ≡ ts.sum [ZMOD 2 ^ 64] ∧ greatest us = greatest ts := by
  have hbmod : ∀ {u t : ℤ}, 0 ≤ t → (u.bmod (2 ^ 64) = t ↔ t < 2 ^ 63 ∧ u ≡ t [ZMOD 2 ^ 64]) := by
    intro u t ht
    rw [Int.bmod_def, Int.ModEq]
    split_ifs <;> omega
  constructor
  · rintro ⟨hcount, hsum, hmax⟩
    rw [hy.count_eq, hbmod (by omega)] at hcount
    rw [hy.processTime_eq, hbmod hts] at hsum
    rw [hy.max_eq] at hmax
    exact ⟨⟨hcount.1, hsum.1⟩, by exact_mod_cast hcount.2, hsum.2, hmax⟩
  · rintro ⟨hfits, hcount, hsum, hmax⟩
    refine ⟨?_, ?_, ?_⟩
    · rw [hy.count_eq, hbmod (by omega)]
      exact ⟨hfits.1, by exact_mod_cast hcount⟩
    · rw [hy.processTime_eq, hbmod hts]
      exact ⟨hfits.2, hsum⟩
    · rw [hy.max_eq, hmax]

lemma SlotHistory.last_succ (s : SlotHistory) (n : ℕ) :
    s.last (n + 1) = s.last n ++ s.completed.getD n [] := by
  rw [last, last, List.take_add_one, List.flatten_append, List.getD_eq_getElem?_getD]
  cases s.completed[n]? <;> simp

/-- The visited slots are the last completed ones, as far as they go. -/
lemma flatMap_visited (s : SlotHistory) {n : ℕ} (hn : n ≤ statSlotCount - 1) :
    (List.range' 0 n).flatMap (MethodBoard.visited s) = s.last n := by
  induction n with
  | zero => rfl
  | succ n ih =>
    have hvisited : MethodBoard.visited s (0 + n) = s.completed.getD n [] := by
      rw [Nat.zero_add]
      exact if_pos hn
    rw [List.range'_1_concat, List.flatMap_append, ih (by omega), List.flatMap_singleton, hvisited,
      s.last_succ]

/-- What `LatestStats` counts. -/
lemma counts_latestStats (events : List BoardEvent) {slotCount : ℤ}
    (hle : slotCount ≤ statSlotCount) :
    ((boardAfter events).latestStats slotCount).Counts
      ((List.range' 0 slotCount.toNat).flatMap (MethodBoard.visited (slotsAfter events))) := by
  have hholds := MethodBoard.holds_after events
  have hprevious : MethodBoard.previous (boardAfter events).slotIndex
      = MethodBoard.back (boardAfter events).slotIndex 0 := by
    have hlt := hholds.lt
    rw [MethodBoard.previous, MethodBoard.back, statSlotCount] at *
    split_ifs <;> omega
  rw [MethodBoard.latestStats, hprevious]
  exact hholds.latestLoop (by omega) MethodBoard.counts_cleared

/-- Right is the slot whose halves are right. -/
lemma StatSlot.Counts.exact_iff {slot : StatSlot} {L M : List Report} (h : slot.Counts L) :
    slot.Exact M ↔ (∀ succeed, FitsInt64 (timesOf succeed M)) ∧
      ∀ succeed, (timesOf succeed L).length ≡ (timesOf succeed M).length [MOD 2 ^ 64] ∧
        (timesOf succeed L).sum ≡ (timesOf succeed M).sum [ZMOD 2 ^ 64] ∧
        greatest (timesOf succeed L) = greatest (timesOf succeed M) := by
  rw [StatSlot.Exact, h.1.exact_iff (sum_timesOf_nonneg true M),
    h.2.exact_iff (sum_timesOf_nonneg false M), Bool.forall_bool, Bool.forall_bool]
  constructor
  · rintro ⟨⟨hfits, hsame⟩, hfits', hsame'⟩
    exact ⟨⟨hfits', hfits⟩, hsame', hsame⟩
  · rintro ⟨⟨hfits', hfits⟩, hsame', hsame⟩
    exact ⟨⟨hfits, hsame⟩, hfits', hsame'⟩

/-- The slots accepted below `STAT_SLOT_COUNT`. -/
lemma exact_iff_of_lt (events : List BoardEvent) {slotCount : ℤ} (hlt : slotCount < statSlotCount) :
    ((boardAfter events).latestStats slotCount).Exact
        ((slotsAfter events).last slotCount.toNat) ↔
      ∀ succeed, FitsInt64 (timesOf succeed ((slotsAfter events).last slotCount.toNat)) := by
  have hcounts := counts_latestStats events hlt.le
  rw [flatMap_visited _ (by rw [statSlotCount] at *; omega)] at hcounts
  rw [hcounts.exact_iff]
  exact and_iff_left fun succeed => ⟨rfl, rfl, rfl⟩

/-- All slots: the current one stands in the place of the last completed one. -/
lemma exact_iff_of_eq (events : List BoardEvent) :
    ((boardAfter events).latestStats statSlotCount).Exact ((slotsAfter events).last statSlotCount) ↔
      (∀ succeed, FitsInt64 (timesOf succeed ((slotsAfter events).last statSlotCount))) ∧
        ∀ succeed, AlikeBehind (timesOf succeed ((slotsAfter events).last (statSlotCount - 1)))
          (timesOf succeed (slotsAfter events).current)
          (timesOf succeed ((slotsAfter events).completed.getD (statSlotCount - 1) [])) := by
  have hcounts := counts_latestStats events (Int.le_refl statSlotCount)
  have hvisited : (List.range' 0 statSlotCount).flatMap (MethodBoard.visited (slotsAfter events))
      = (slotsAfter events).last (statSlotCount - 1) ++ (slotsAfter events).current := by
    rw [show statSlotCount = statSlotCount - 1 + 1 from rfl, List.range'_1_concat,
      List.flatMap_append, flatMap_visited _ (Nat.le_refl _), List.flatMap_singleton]
    rfl
  rw [Int.toNat_natCast, hvisited] at hcounts
  rw [hcounts.exact_iff]
  refine and_congr_right fun _ => forall_congr' fun succeed => ?_
  rw [show (slotsAfter events).last statSlotCount = (slotsAfter events).last (statSlotCount - 1) ++
      (slotsAfter events).completed.getD (statSlotCount - 1) [] from
    (slotsAfter events).last_succ (statSlotCount - 1), timesOf_append, timesOf_append, AlikeBehind,
    greatest_append, greatest_append, List.length_append, List.length_append, List.sum_append,
    List.sum_append]
  refine and_congr ?_ (and_congr ?_ Iff.rfl)
  · exact ⟨Nat.ModEq.add_left_cancel' _, Nat.ModEq.add_left _⟩
  · exact ⟨Int.ModEq.add_left_cancel' _, Int.ModEq.add_left _⟩

/-- For every history and every number of slots that the check of `LatestStats` accepts: the
statistics are exactly those of the last completed slots if and only if these fit `int64` and,
when all slots are asked for, the slot in progress cannot be told from the completed slot in whose
place it stands. -/
theorem latestStats_iff (events : List BoardEvent) (slotCount : ℤ)
    (haccepted : 0 < slotCount ∧ slotCount ≤ statSlotCount) :
    ((boardAfter events).latestStats slotCount).Exact
        ((slotsAfter events).last slotCount.toNat) ↔
      (∀ succeed, FitsInt64 (timesOf succeed ((slotsAfter events).last slotCount.toNat))) ∧
        (slotCount < statSlotCount ∨
          ∀ succeed, AlikeBehind (timesOf succeed ((slotsAfter events).last (statSlotCount - 1)))
            (timesOf succeed (slotsAfter events).current)
            (timesOf succeed ((slotsAfter events).completed.getD (statSlotCount - 1) []))) := by
  rcases Int.lt_or_eq_of_le haccepted.2 with hlt | rfl
  · rw [exact_iff_of_lt events hlt]
    exact (and_iff_left (Or.inl hlt)).symm
  · rw [Int.toNat_natCast, exact_iff_of_eq events]
    exact and_congr_right fun _ => (or_iff_right (Int.lt_irrefl _)).symm

/-- A slot with one request, and the last slot asked for. -/
theorem latestStats_one : ∃ events : List BoardEvent, (slotsAfter events).last 1 ≠ [] ∧
    ((boardAfter events).latestStats 1).Exact ((slotsAfter events).last 1) := by
  refine ⟨[.processEnd ⟨true, 5, by decide⟩, .nextSlot], ?_, (latestStats_iff _ 1 ?_).mpr ⟨?_, ?_⟩⟩
  · simp [slotsAfter, SlotHistory.event, SlotHistory.last]
  · decide
  · intro succeed
    cases succeed <;> exact ⟨by decide, by decide⟩
  · exact Or.inl (by decide)

/-- One request in the slot in progress, and all slots asked for: it is counted. -/
theorem latestStats_current :
    ¬ ∀ (events : List BoardEvent) (slotCount : ℤ), 0 < slotCount ∧ slotCount ≤ statSlotCount →
      ((boardAfter events).latestStats slotCount).Exact
        ((slotsAfter events).last slotCount.toNat) := by
  intro hexact
  have hall := hexact [.processEnd ⟨true, 5, by decide⟩] statSlotCount (by decide)
  rw [Int.toNat_natCast, exact_iff_of_eq] at hall
  have halike := (hall.2 true).1
  exact absurd halike (by decide)

end MTRpc
