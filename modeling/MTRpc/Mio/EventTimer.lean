import Mathlib.Data.Int.Notation
import Mathlib.Data.List.Nodup
import Mathlib.Tactic.Ring
import MTRpc.Lib.Exec

/-!
# The event timer

`EventTimer` keeps its tasks twice: in `timertasks`, a priority queue with the earliest deadline at
the top, and in `timerindex`, by their ids.  `runTimerAt` and `runTimerAfter` put a task into both.
`stopTimer` takes it out of the index, and out of the queue only when it is at the top; otherwise it
clears the interval and leaves the rest to `onTimer`.  `onTimer` takes the due tasks from the top,
calls them, and puts the periodic ones back.

The callbacks of `onTimer` can use the timer themselves, as can anyone between its steps.  Which of
several tasks with the same deadline is at the top is left open, and so is what is read through the
pointer of a deleted task.  What `updateTimer` tells the timer descriptor is left out.

The two containers agree as long as no task without an interval expires before it is stopped, for
`onTimer` deletes it and leaves its entry in the index, and no task expires after it was stopped
(`eventTimer_agrees`).
-/

namespace MTRpc

open Exec (Run Admits)

/-- `struct timespec` -/
structure Timespec where
  tv_sec : ℤ
  tv_nsec : ℤ
deriving DecidableEq, Repr

/-- The milliseconds `ms`, as the constructor of `TimerTask` splits them. -/
def Timespec.ofMs (ms : ℕ) : Timespec := ⟨ms / 1000, ms % 1000 * 1000000⟩

/-- `class TimerTask`.  A call of the callback is told by the pointer of the task. -/
structure TimerTask where
  value : Timespec
  interval : Timespec
  timer_id : ℕ
deriving DecidableEq, Repr

namespace TimerTask

/-- `updateToNext` -/
def updateToNext (t : TimerTask) : TimerTask :=
  let nsec := t.value.tv_nsec + t.interval.tv_nsec
  let sec := t.value.tv_sec + (t.interval.tv_sec + nsec.tdiv 1000000000)
  { t with value := ⟨sec, nsec.tmod 1000000000⟩ }

/-- `isPeriod` -/
def isPeriod (t : TimerTask) : Bool := t.interval.tv_nsec ≠ 0 || t.interval.tv_sec ≠ 0

/-- `stop` -/
def stop (t : TimerTask) : TimerTask := { t with interval := ⟨0, 0⟩ }

/-- `isBefore` -/
def isBefore (t : TimerTask) (now : Timespec) : Bool :=
  if t.value.tv_sec < now.tv_sec then true
  else if now.tv_sec < t.value.tv_sec then false
  else if t.value.tv_nsec < now.tv_nsec then true
  else false

@[simp] lemma updateToNext_timer_id (t : TimerTask) : t.updateToNext.timer_id = t.timer_id := rfl

@[simp] lemma stop_timer_id (t : TimerTask) : t.stop.timer_id = t.timer_id := rfl

end TimerTask

/-- `TimerTaskCmp`: whether the first task is further from the top. -/
def timerTaskCmp (t₁ t₂ : TimerTask) : Bool :=
  if t₁.value.tv_sec < t₂.value.tv_sec then false
  else if t₂.value.tv_sec < t₁.value.tv_sec then true
  else if t₁.value.tv_nsec < t₂.value.tv_nsec then false
  else if t₂.value.tv_nsec < t₁.value.tv_nsec then true
  else false

/-- Where `onTimer` stands: in no call, at the head of its loop, or in the callback of `sp`. -/
inductive TimerPc
  | idle
  | loop (now : Timespec)
  | called (sp : ℕ) (now : Timespec)
deriving DecidableEq, Repr

/-- The tasks in memory with the pointer that the next `new` gives, `TimerTask::TimerCount`, the
pointers in the queue in no order, the index, and `onTimer`. -/
structure EventTimer where
  mem : ℕ → Option TimerTask
  fresh : ℕ
  timerCount : ℕ
  timertasks : List ℕ
  timerindex : ℕ → Option ℕ
  pc : TimerPc

/-- What is called, with what the clock says.  `stopTimer` and the loop of `onTimer` also get the
pointer at the top of the queue, and `stopTimer` what it reads through the pointer of a task that it
has deleted; another `EventTimer` counts its tasks with the same counter. -/
inductive TimerAction
  | runTimerAt (nowms starttimems internalms : ℕ)
  | runTimerAfter (nowms starttimems internalms : ℕ)
  | elsewhere
  | stopTimer (timerid top reads : ℕ)
  | onTimer (now : Timespec)
  | loop (top : ℕ)
  | finish
deriving DecidableEq, Repr

namespace EventTimer

/-- `EventTimer()` -/
def init : EventTimer where
  mem _ := none
  fresh := 0
  timerCount := 0
  timertasks := []
  timerindex _ := none
  pc := .idle

/-- The id that `TimerCount.addAndGet(1)` gives. -/
def newId (s : EventTimer) : ℕ := (s.timerCount + 1) % 2 ^ 32

/-- `new TimerTask(starttimems, internalms, t)`, and both insertions. -/
def runTimer (s : EventTimer) (starttimems internalms : ℕ) : EventTimer :=
  { s with
    mem := Function.update s.mem s.fresh
      (some ⟨.ofMs starttimems, .ofMs internalms, s.newId⟩)
    fresh := s.fresh + 1
    timerCount := s.newId
    timertasks := s.fresh :: s.timertasks
    timerindex :=
      if (s.timerindex s.newId).isSome then s.timerindex
      else Function.update s.timerindex s.newId (some s.fresh) }

/-- The first deadline of a periodic task is not in the past. -/
def adjustStart (nowms starttimems internalms : ℕ) : ℕ :=
  if 0 < internalms ∧ starttimems < nowms then
    (starttimems + ((nowms - starttimems) / internalms + 1) * internalms) % 2 ^ 64
  else starttimems

/-- `stopTimer` -/
def stopTimer (s : EventTimer) (timerid top reads : ℕ) : EventTimer :=
  match s.timerindex timerid with
  | none => s
  | some tt =>
    if top = tt then
      { s with
        timertasks := s.timertasks.erase tt
        mem := Function.update s.mem tt none
        timerindex := Function.update s.timerindex reads none }
    else
      { s with
        mem := Function.update s.mem tt ((s.mem tt).map TimerTask.stop)
        timerindex :=
          Function.update s.timerindex (((s.mem tt).map TimerTask.timer_id).getD reads) none }

/-- What `stopTimer` returns. -/
def stopTimerResult (s : EventTimer) (timerid : ℕ) : ℤ :=
  if (s.timerindex timerid).isSome then 0 else -1

/-- `sp->isBefore(now)` -/
def due (s : EventTimer) (now : Timespec) (sp : ℕ) : Bool := (s.mem sp).any (·.isBefore now)

/-- `sp->isPeriod()` -/
def periodic (s : EventTimer) (sp : ℕ) : Bool := (s.mem sp).any TimerTask.isPeriod

/-- The head of the loop of `onTimer`, up to the callback. -/
def loopHead (s : EventTimer) (now : Timespec) (sp : ℕ) : EventTimer :=
  if s.timertasks = [] then { s with pc := .idle }
  else if s.due now sp then { s with timertasks := s.timertasks.erase sp, pc := .called sp now }
  else { s with pc := .idle }

/-- The rest of the body, after the callback. -/
def loopEnd (s : EventTimer) (sp : ℕ) (now : Timespec) : EventTimer :=
  if s.periodic sp then
    { s with
      mem := Function.update s.mem sp ((s.mem sp).map TimerTask.updateToNext)
      timertasks := sp :: s.timertasks
      pc := .loop now }
  else { s with mem := Function.update s.mem sp none, pc := .loop now }

/-- The effect of an action. -/
def act (s : EventTimer) : TimerAction → EventTimer
  | .runTimerAt nowms starttimems internalms =>
    s.runTimer (adjustStart nowms starttimems internalms) internalms
  | .runTimerAfter nowms starttimems internalms =>
    s.runTimer ((starttimems + nowms) % 2 ^ 64) internalms
  | .elsewhere => { s with timerCount := s.newId }
  | .stopTimer timerid top reads => s.stopTimer timerid top reads
  | .onTimer now => if s.timertasks = [] then s else { s with pc := .loop now }
  | .loop top =>
    match s.pc with
    | .loop now => s.loopHead now top
    | _ => s
  | .finish =>
    match s.pc with
    | .called sp now => s.loopEnd sp now
    | _ => s

/-- `TimerTaskCmp` on the tasks of two pointers. -/
def cmp (s : EventTimer) (p q : ℕ) : Bool :=
  match s.mem p, s.mem q with
  | some t, some u => timerTaskCmp t u
  | _, _ => false

/-- `timertasks.top()` is a greatest element of the queue; for an empty queue it is anything. -/
def IsTop (s : EventTimer) (top : ℕ) : Prop :=
  s.timertasks ≠ [] → top ∈ s.timertasks ∧ ∀ q ∈ s.timertasks, s.cmp top q = false

instance (s : EventTimer) : DecidablePred s.IsTop :=
  fun _ => inferInstanceAs (Decidable (_ → _))

/-- When an action can be taken: `onTimer` is not called again before it has returned, and the
others are at any time. -/
def Enabled (s : EventTimer) : TimerAction → Prop
  | .runTimerAt _ _ _ => True
  | .runTimerAfter _ _ _ => True
  | .elsewhere => True
  | .stopTimer _ top _ => s.IsTop top
  | .onTimer _ => s.pc = .idle
  | .loop top => (∃ now, s.pc = .loop now) ∧ s.IsTop top
  | .finish => ∃ sp now, s.pc = .called sp now

instance : DecidablePred fun pc : TimerPc => ∃ now, pc = .loop now
  | .loop now => isTrue ⟨now, rfl⟩
  | .idle => isFalse (by simp)
  | .called _ _ => isFalse (by simp)

instance : DecidablePred fun pc : TimerPc => ∃ sp now, pc = .called sp now
  | .called sp now => isTrue ⟨sp, now, rfl⟩
  | .idle => isFalse (by simp)
  | .loop _ => isFalse (by simp)

instance (s : EventTimer) : DecidablePred s.Enabled
  | .runTimerAt _ _ _ => isTrue trivial
  | .runTimerAfter _ _ _ => isTrue trivial
  | .elsewhere => isTrue trivial
  | .stopTimer _ top _ => inferInstanceAs (Decidable (s.IsTop top))
  | .onTimer _ => inferInstanceAs (Decidable (s.pc = .idle))
  | .loop top =>
    inferInstanceAs (Decidable ((fun pc => ∃ now, pc = .loop now) s.pc ∧ s.IsTop top))
  | .finish => inferInstanceAs (Decidable ((fun pc => ∃ sp now, pc = .called sp now) s.pc))

/-- A step. -/
def step (s : EventTimer) (a : TimerAction) (t : EventTimer) : Prop := s.Enabled a ∧ t = s.act a

/-! ### What a run has done -/

/-- The task that `stopTimer` stops. -/
def stops (s : EventTimer) : TimerAction → Option ℕ
  | .stopTimer timerid _ _ => s.timerindex timerid
  | _ => none

/-- The task that is deleted. -/
def deletes (s : EventTimer) : TimerAction → Option ℕ
  | .stopTimer timerid top _ => if s.timerindex timerid = some top then some top else none
  | .finish =>
    match s.pc with
    | .called sp _ => if s.periodic sp then none else some sp
    | _ => none
  | _ => none

/-- The task whose callback is called. -/
def calls (s : EventTimer) : TimerAction → Option ℕ
  | .loop top =>
    match s.pc with
    | .loop now => if s.timertasks ≠ [] ∧ s.due now top then some top else none
    | _ => none
  | _ => none

/-- The tasks of a history, in its order. -/
def tasks (f : EventTimer → TimerAction → Option ℕ) (h : List (EventTimer × TimerAction)) :
    List ℕ :=
  h.filterMap fun p => f p.1 p.2

/-- The task whose callback runs is not in the queue. -/
def firing : TimerPc → List ℕ
  | .called sp _ => [sp]
  | _ => []

/-- The tasks of the timer: those in the queue, and the one whose callback runs. -/
def held (s : EventTimer) : List ℕ := firing s.pc ++ s.timertasks

/-- The id of a task that is not deleted. -/
def idOf (s : EventTimer) (p : ℕ) : Option ℕ := (s.mem p).map TimerTask.timer_id

/-- Whether a task has its entry in the index. -/
def indexed (s : EventTimer) (p : ℕ) : Bool :=
  (s.idOf p).any fun timerid => s.timerindex timerid = some p

/-- The id of a new task is not in use, and `stopTimer` looks for the top of a queue that is not
empty and reads back the id of the task that it has deleted. -/
def Defined (s : EventTimer) : TimerAction → Prop
  | .runTimerAt _ _ _ => s.timerindex s.newId = none
  | .runTimerAfter _ _ _ => s.timerindex s.newId = none
  | .stopTimer timerid top reads =>
    ∀ tt, s.timerindex timerid = some tt → s.timertasks ≠ [] ∧ (top = tt → reads = timerid)
  | _ => True

instance (s : EventTimer) : DecidablePred s.Defined
  | .runTimerAt _ _ _ => inferInstanceAs (Decidable (s.timerindex s.newId = none))
  | .runTimerAfter _ _ _ => inferInstanceAs (Decidable (s.timerindex s.newId = none))
  | .stopTimer timerid top reads =>
    inferInstanceAs (Decidable
      (∀ tt ∈ s.timerindex timerid, s.timertasks ≠ [] ∧ (top = tt → reads = timerid)))
  | .elsewhere => isTrue trivial
  | .onTimer _ => isTrue trivial
  | .loop _ => isTrue trivial
  | .finish => isTrue trivial

/-- A task that is called is in the index, and one that is deleted after its call is not. -/
def Timely (s : EventTimer) : TimerAction → Prop
  | .loop top => ∀ p ∈ s.calls (.loop top), s.indexed p
  | .finish => ∀ p ∈ s.deletes .finish, s.indexed p = false
  | _ => True

instance (s : EventTimer) : DecidablePred s.Timely
  | .loop top => inferInstanceAs (Decidable (∀ p ∈ s.calls (.loop top), s.indexed p))
  | .finish => inferInstanceAs (Decidable (∀ p ∈ s.deletes .finish, s.indexed p = false))
  | .runTimerAt _ _ _ => isTrue trivial
  | .runTimerAfter _ _ _ => isTrue trivial
  | .stopTimer _ _ _ => isTrue trivial
  | .elsewhere => isTrue trivial
  | .onTimer _ => isTrue trivial

/-! ### The invariant -/

variable {s t : EventTimer} {stopped deleted : List ℕ} {p q : ℕ}

/-- The tasks in memory are those of the timer, and the index has those that are not stopped. -/
structure Inv (stopped deleted : List ℕ) (s : EventTimer) : Prop where
  nodup : s.held.Nodup
  held : ∀ p, p ∈ s.held ↔ (s.mem p).isSome
  fresh : ∀ p, (s.mem p).isSome → p < s.fresh
  index : ∀ timerid p, s.timerindex timerid = some p ↔ p ∉ stopped ∧ s.idOf p = some timerid
  deleted : deleted.Nodup ∧ ∀ p ∈ deleted, p < s.fresh ∧ s.mem p = none
  stopped : ∀ p ∈ stopped, p < s.fresh

lemma init_inv : Inv [] [] init where
  nodup := List.nodup_nil
  held p := by simp [EventTimer.held, init, firing]
  fresh p hp := by cases hp
  index timerid p := by simp [init, idOf]
  deleted := ⟨List.nodup_nil, by simp⟩
  stopped := by simp

lemma held_loop {now : Timespec} (hpc : s.pc = .loop now) : s.held = s.timertasks := by
  rw [EventTimer.held, hpc]
  rfl

lemma held_called {sp : ℕ} {now : Timespec} (hpc : s.pc = .called sp now) :
    s.held = sp :: s.timertasks := by
  rw [EventTimer.held, hpc]
  rfl

lemma Inv.held_of_idOf (h : Inv stopped deleted s) {timerid : ℕ} (hid : s.idOf p = some timerid) :
    p ∈ s.held := by
  obtain ⟨t, ht, -⟩ := Option.map_eq_some_iff.mp hid
  rw [h.held, ht]
  rfl

/-- Which tasks have an entry. -/
lemma Inv.indexed_iff (h : Inv stopped deleted s) (hp : p ∈ s.held) :
    s.indexed p ↔ p ∉ stopped := by
  obtain ⟨t, ht⟩ := Option.isSome_iff_exists.mp ((h.held p).mp hp)
  have hid : s.idOf p = some t.timer_id := by rw [idOf, ht]; rfl
  rw [indexed, hid, Option.any_some, decide_eq_true_iff, h.index, hid]
  exact and_iff_left rfl

/-- The tasks in the queue and the task that is called are the same as before. -/
lemma Inv.move (h : Inv stopped deleted s) {pc : TimerPc} {l : List ℕ}
    (hl : (firing pc ++ l).Perm s.held) :
    Inv stopped deleted { s with timertasks := l, pc := pc } where
  nodup := hl.nodup_iff.mpr h.nodup
  held p := hl.mem_iff.trans (h.held p)
  fresh := h.fresh
  index := h.index
  deleted := h.deleted
  stopped := h.stopped

/-- A new task. -/
lemma Inv.runTimer (h : Inv stopped deleted s) (hid : s.timerindex s.newId = none)
    (starttimems internalms : ℕ) : Inv stopped deleted (s.runTimer starttimems internalms) := by
  have hnew : s.fresh ∉ s.held := fun hmem => Nat.lt_irrefl _ (h.fresh _ ((h.held _).mp hmem))
  have hmem : ∀ p, p ≠ s.fresh → (s.runTimer starttimems internalms).mem p = s.mem p :=
    fun p hp => Function.update_of_ne hp _ _
  have hself : (s.runTimer starttimems internalms).idOf s.fresh = some s.newId := by
    simp [EventTimer.runTimer, idOf]
  have hperm : (s.runTimer starttimems internalms).held.Perm (s.fresh :: s.held) :=
    List.perm_middle
  refine ⟨hperm.nodup_iff.mpr (h.nodup.cons hnew), ?_, ?_, ?_, ⟨h.deleted.1, fun p hp => ?_⟩,
    fun p hp => Nat.lt_succ_of_lt (h.stopped p hp)⟩
  · intro p
    rw [hperm.mem_iff, List.mem_cons]
    rcases eq_or_ne p s.fresh with rfl | hp
    · simp [EventTimer.runTimer]
    · rw [hmem p hp, ← h.held, or_iff_right hp]
  · intro p hp
    rcases eq_or_ne p s.fresh with rfl | hne
    · exact Nat.lt_succ_self _
    · rw [hmem p hne] at hp
      exact Nat.lt_succ_of_lt (h.fresh p hp)
  · intro timerid p
    have hindex : (s.runTimer starttimems internalms).timerindex =
        Function.update s.timerindex s.newId (some s.fresh) := by
      simp [EventTimer.runTimer, hid]
    rw [hindex]
    rcases eq_or_ne p s.fresh with rfl | hp
    · have hout : s.fresh ∉ stopped := fun hmem => Nat.lt_irrefl _ (h.stopped _ hmem)
      rw [hself]
      rcases eq_or_ne timerid s.newId with rfl | hne
      · simp [hout]
      · rw [Function.update_of_ne hne, h.index]
        simp only [hout, not_false_eq_true, true_and, Option.some.injEq, hne.symm, iff_false]
        exact fun hid => hnew (h.held_of_idOf hid)
    · rw [idOf, hmem p hp, ← idOf, ← h.index]
      rcases eq_or_ne timerid s.newId with rfl | hne
      · rw [Function.update_self, hid]
        simp [hp.symm]
      · rw [Function.update_of_ne hne]
  · obtain ⟨hlt, hnone⟩ := h.deleted.2 p hp
    exact ⟨Nat.lt_succ_of_lt hlt, (hmem p hlt.ne).trans hnone⟩

/-- The entry of a stopped task is taken out of the index. -/
lemma Inv.unindex (h : Inv stopped deleted s) {timerid tt : ℕ}
    (htt : s.timerindex timerid = some tt) :
    Inv (stopped ++ [tt]) deleted
      { s with timerindex := Function.update s.timerindex timerid none } := by
  have hid := ((h.index _ _).mp htt).2
  refine ⟨h.nodup, h.held, h.fresh, ?_, h.deleted, ?_⟩
  · intro id' p
    change Function.update s.timerindex timerid none id' = some p ↔ _ ∧ s.idOf p = some id'
    rw [List.mem_append, List.mem_singleton, not_or, and_right_comm]
    rcases eq_or_ne id' timerid with rfl | hne
    · rw [Function.update_self, ← h.index, htt, Option.some.injEq]
      exact ⟨fun hp => (by cases hp), fun hp => absurd hp.1.symm hp.2⟩
    · rw [Function.update_of_ne hne, h.index]
      refine ⟨fun hp => ⟨hp, ?_⟩, And.left⟩
      rintro rfl
      exact hne (Option.some.inj (hp.2.symm.trans hid))
  · intro p hp
    rcases List.mem_append.mp hp with hp | hp
    · exact h.stopped p hp
    · rw [List.mem_singleton.mp hp]
      exact h.fresh tt ((h.held tt).mp (h.held_of_idOf hid))

/-- A task is deleted that is not in the index any more. -/
lemma Inv.delete (h : Inv stopped deleted s) {l : List ℕ} {pc : TimerPc}
    (hl : s.held.Perm (p :: (firing pc ++ l))) (hp : p ∈ stopped) :
    Inv stopped (deleted ++ [p])
      { s with mem := Function.update s.mem p none, timertasks := l, pc := pc } := by
  have hheld : p ∈ s.held := hl.mem_iff.mpr (List.mem_cons_self ..)
  have hsome := (h.held p).mp hheld
  obtain ⟨hout, hnodup⟩ := List.nodup_cons.mp (hl.nodup_iff.mp h.nodup)
  have hmem : ∀ q, q ≠ p → Function.update s.mem p none q = s.mem q :=
    fun q hq => Function.update_of_ne hq _ _
  refine ⟨hnodup, ?_, ?_, ?_, ⟨?_, fun q hq => ?_⟩, h.stopped⟩
  · intro q
    change q ∈ firing pc ++ l ↔ (Function.update s.mem p none q).isSome
    rcases eq_or_ne q p with rfl | hq
    · simp [hout]
    · rw [hmem q hq, ← h.held, hl.mem_iff, List.mem_cons, or_iff_right hq]
  · intro q hq
    change (Function.update s.mem p none q).isSome at hq
    rcases eq_or_ne q p with rfl | hne
    · simp at hq
    · rw [hmem q hne] at hq
      exact h.fresh q hq
  · intro timerid q
    change s.timerindex timerid = some q ↔
      q ∉ stopped ∧ (Function.update s.mem p none q).map TimerTask.timer_id = some timerid
    rw [h.index, idOf]
    rcases eq_or_ne q p with rfl | hq
    · simp [hp]
    · rw [hmem q hq]
  · refine h.deleted.1.append (List.nodup_singleton _) fun q hq hqp => ?_
    rw [List.mem_singleton.mp hqp] at hq
    rw [(h.deleted.2 p hq).2] at hsome
    cases hsome
  · change q < s.fresh ∧ Function.update s.mem p none q = none
    rcases eq_or_ne q p with rfl | hne
    · exact ⟨h.fresh q hsome, Function.update_self ..⟩
    · rw [hmem q hne]
      refine h.deleted.2 q ((List.mem_append.mp hq).resolve_right fun hqp => ?_)
      exact hne (List.mem_singleton.mp hqp)

/-- A task is changed, but not its id. -/
lemma Inv.change (h : Inv stopped deleted s) {f : TimerTask → TimerTask}
    (hf : ∀ t, (f t).timer_id = t.timer_id) (p : ℕ) :
    Inv stopped deleted { s with mem := Function.update s.mem p ((s.mem p).map f) } := by
  have hsome : ∀ q, (Function.update s.mem p ((s.mem p).map f) q).isSome = (s.mem q).isSome := by
    intro q
    rcases eq_or_ne q p with rfl | hq
    · rw [Function.update_self, Option.isSome_map]
    · rw [Function.update_of_ne hq]
  have hid : ∀ q, (Function.update s.mem p ((s.mem p).map f) q).map TimerTask.timer_id =
      s.idOf q := by
    intro q
    rcases eq_or_ne q p with rfl | hq
    · rw [Function.update_self, Option.map_map, idOf]
      exact congrArg (fun g => (s.mem q).map g) (funext hf)
    · rw [Function.update_of_ne hq, idOf]
  refine ⟨h.nodup, fun q => (h.held q).trans (by rw [hsome]), ?_, ?_,
    ⟨h.deleted.1, fun q hq => ⟨(h.deleted.2 q hq).1, ?_⟩⟩, h.stopped⟩
  · intro q hq
    exact h.fresh q (hsome q ▸ hq)
  · intro timerid q
    exact (h.index timerid q).trans (by rw [← hid q]; rfl)
  · have hnone := hsome q
    rw [(h.deleted.2 q hq).2, Option.isSome_none, Option.isSome_eq_false_iff,
      Option.isNone_iff_eq_none] at hnone
    exact hnone

/-! ### The steps -/

/-- Taking a task out of the queue. -/
lemma held_perm_erase (hmem : p ∈ s.timertasks) :
    s.held.Perm (p :: (firing s.pc ++ s.timertasks.erase p)) :=
  ((List.perm_cons_erase hmem).append_left _).trans List.perm_middle

lemma Inv.stopTimer (h : Inv stopped deleted s) {timerid top reads : ℕ} (htop : s.IsTop top)
    (hdef : s.Defined (.stopTimer timerid top reads)) :
    Inv (stopped ++ (s.stops (.stopTimer timerid top reads)).toList)
      (deleted ++ (s.deletes (.stopTimer timerid top reads)).toList)
      (s.stopTimer timerid top reads) := by
  simp only [EventTimer.stopTimer, stops, deletes]
  cases htt : s.timerindex timerid with
  | none => simpa using h
  | some tt =>
    obtain ⟨hne, hreads⟩ := hdef tt htt
    by_cases heq : top = tt
    · obtain rfl := heq
      obtain rfl := hreads rfl
      simp only [if_true, Option.toList_some]
      exact (h.unindex htt).delete (held_perm_erase (htop hne).1) (by simp)
    · have hid : (s.mem tt).map TimerTask.timer_id = some timerid := ((h.index _ _).mp htt).2
      simp only [if_neg heq, Option.some.injEq, Ne.symm heq, if_false, Option.toList_some,
        Option.toList_none, List.append_nil, hid, Option.getD_some]
      exact (h.unindex htt).change TimerTask.stop_timer_id tt

lemma Inv.loopHead (h : Inv stopped deleted s) {now : Timespec} {top : ℕ} (htop : s.IsTop top)
    (hpc : s.pc = .loop now) : Inv stopped deleted (s.loopHead now top) := by
  have hheld := held_loop hpc
  rw [EventTimer.loopHead]
  split
  · exact h.move (hheld ▸ .refl _)
  · rename_i hne
    split
    · exact h.move (hheld ▸ (List.perm_cons_erase (htop hne).1).symm)
    · exact h.move (hheld ▸ .refl _)

lemma Inv.loopEnd (h : Inv stopped deleted s) {now : Timespec} {sp : ℕ}
    (hpc : s.pc = .called sp now) (htimely : s.Timely .finish) :
    Inv stopped (deleted ++ (s.deletes .finish).toList) (s.loopEnd sp now) := by
  have hheld := held_called hpc
  simp only [EventTimer.loopEnd, deletes, hpc]
  split
  · simp only [Option.toList_none, List.append_nil]
    exact (h.change TimerTask.updateToNext_timer_id sp).move (hheld ▸ .refl _)
  · rename_i hperiodic
    have hout := htimely sp (by simp [deletes, hpc, hperiodic])
    refine h.delete (hheld ▸ .refl _) (by_contra fun hstop => ?_)
    rw [(h.indexed_iff (hheld ▸ List.mem_cons_self ..)).mpr hstop] at hout
    cases hout

/-- A step in time adds to the tasks stopped and to the tasks deleted what it stops and deletes. -/
theorem Inv.step (h : Inv stopped deleted s) {a : TimerAction} (hdef : s.Defined a)
    (htimely : s.Timely a) (hst : s.step a t) :
    Inv (stopped ++ (s.stops a).toList) (deleted ++ (s.deletes a).toList) t := by
  obtain ⟨hen, rfl⟩ := hst
  cases a with
  | stopTimer timerid top reads => exact h.stopTimer hen hdef
  | runTimerAt nowms starttimems internalms =>
    simp only [stops, deletes, Option.toList_none, List.append_nil]
    exact h.runTimer hdef _ _
  | runTimerAfter nowms starttimems internalms =>
    simp only [stops, deletes, Option.toList_none, List.append_nil]
    exact h.runTimer hdef _ _
  | elsewhere =>
    simp only [stops, deletes, Option.toList_none, List.append_nil]
    exact ⟨h.nodup, h.held, h.fresh, h.index, h.deleted, h.stopped⟩
  | onTimer now =>
    simp only [stops, deletes, Option.toList_none, List.append_nil, act]
    split
    · exact h
    · refine h.move ?_
      rw [EventTimer.held, show s.pc = .idle from hen]
      exact .refl _
  | loop top =>
    obtain ⟨⟨now, hpc⟩, htop⟩ := hen
    simp only [stops, deletes, Option.toList_none, List.append_nil, act, hpc]
    exact h.loopHead htop hpc
  | finish =>
    obtain ⟨sp, now, hpc⟩ := hen
    simp only [stops, Option.toList_none, List.append_nil, act, hpc]
    exact h.loopEnd hpc htimely

/-! ### Executions -/

variable {h : List (EventTimer × TimerAction)} {a : TimerAction}

lemma tasks_snoc {f : EventTimer → TimerAction → Option ℕ} :
    tasks f (h ++ [(s, a)]) = tasks f h ++ (f s a).toList := by
  cases hf : f s a <;> simp [tasks, hf]

theorem run_inv (hrun : Run step init h s) (hdef : Admits Defined h) (htimely : Admits Timely h) :
    Inv (tasks stops h) (tasks deletes h) s := by
  induction hrun with
  | nil => exact init_inv
  | snoc _ hst ih =>
    obtain ⟨hdef, hd⟩ := Exec.admits_snoc.mp hdef
    obtain ⟨htimely, ht⟩ := Exec.admits_snoc.mp htimely
    rw [tasks_snoc, tasks_snoc]
    exact (ih hdef htimely).step hd ht hst

/-- The index has the ids of the tasks that are not stopped, and no task that is deleted; no task is
deleted twice; `stopTimer` returns 0 for the id of a task that is neither deleted nor stopped, and
for no other; and after that the task is not called. -/
structure Agrees (h : List (EventTimer × TimerAction)) (s : EventTimer) : Prop where
  keys : ∀ timerid, (s.timerindex timerid).isSome ↔
    ∃ p ∈ s.held, p ∉ tasks stops h ∧ s.idOf p = some timerid
  live : ∀ timerid p, s.timerindex timerid = some p → (s.mem p).isSome ∧ p ∉ tasks deletes h
  once : (tasks deletes h).Nodup
  result : ∀ timerid, s.stopTimerResult timerid = 0 ↔
    ∃ p, (s.mem p).isSome ∧ p ∉ tasks stops h ∧ s.idOf p = some timerid
  silent : ∀ h₁ s₁ timerid top reads h₂ p, h = h₁ ++ (s₁, .stopTimer timerid top reads) :: h₂ →
    s₁.timerindex timerid = some p → p ∉ tasks calls h₂

/-- A task that is called at a step in time was not stopped before. -/
lemma Inv.calls (h : Inv stopped deleted s) (hen : s.Enabled a) (htimely : s.Timely a)
    (hp : s.calls a = some p) : p ∉ stopped := by
  cases a with
  | loop top =>
    have hidx := htimely p hp
    obtain ⟨⟨now, hpc⟩, htop⟩ := hen
    simp only [EventTimer.calls, hpc, Option.ite_none_right_eq_some, Option.some.injEq] at hp
    obtain ⟨⟨hne, -⟩, rfl⟩ := hp
    exact (h.indexed_iff (List.mem_append_right _ (htop hne).1)).mp hidx
  | _ => cases hp

/-- What a run in time has stopped, it does not call. -/
lemma run_silent (hrun : Run step init h s) (hdef : Admits Defined h) (htimely : Admits Timely h)
    {h₁ h₂ : List (EventTimer × TimerAction)} {s₁ : EventTimer} {timerid top reads : ℕ}
    (heq : h = h₁ ++ (s₁, .stopTimer timerid top reads) :: h₂)
    (hp : s₁.timerindex timerid = some p) : p ∉ tasks calls h₂ := by
  intro hmem
  obtain ⟨⟨s₂, b⟩, hb, hcall⟩ := List.mem_filterMap.mp hmem
  obtain ⟨h₃, h₄, rfl⟩ := List.append_of_mem hb
  rw [← List.cons_append, ← List.append_assoc] at heq
  have hpre := hrun.before heq
  have hen := (hrun.enabled (s₂, b) (by simp [heq])).choose_spec.1
  have hsub : ∀ e ∈ h₁ ++ (s₁, .stopTimer timerid top reads) :: h₃, e ∈ h := by
    intro e he
    rw [heq]
    exact List.mem_append_left _ he
  have hinv := run_inv hpre (fun e he => hdef e (hsub e he)) fun e he => htimely e (hsub e he)
  refine hinv.calls hen (htimely (s₂, b) (by simp [heq])) hcall ?_
  simp [tasks, stops, hp]

/-- A run in time. -/
lemma run_agrees (hrun : Run step init h s) (hdef : Admits Defined h)
    (htimely : Admits Timely h) : Agrees h s := by
  have hinv := run_inv hrun hdef htimely
  have hkeys : ∀ timerid, (s.timerindex timerid).isSome ↔
      ∃ p, (s.mem p).isSome ∧ p ∉ tasks stops h ∧ s.idOf p = some timerid := by
    intro timerid
    rw [Option.isSome_iff_exists]
    refine exists_congr fun p => ?_
    rw [hinv.index, iff_and_self]
    exact fun hp => (hinv.held p).mp (hinv.held_of_idOf hp.2)
  refine ⟨?_, ?_, hinv.deleted.1, ?_,
    fun h₁ s₁ timerid top reads h₂ p heq hp => run_silent hrun hdef htimely heq hp⟩
  · intro timerid
    simp only [hkeys, hinv.held]
  · intro timerid p hp
    have hsome := (hinv.held p).mp (hinv.held_of_idOf ((hinv.index _ _).mp hp).2)
    refine ⟨hsome, ?_⟩
    intro hmem
    rw [(hinv.deleted.2 p hmem).2] at hsome
    cases hsome
  · intro timerid
    rw [← hkeys, stopTimerResult]
    split <;> simp_all

/-- A step that is not in time breaks the agreement: it calls a task that is stopped, or leaves the
entry of a task that it deletes. -/
lemma not_agrees_of_not_timely (hinv : Inv (tasks stops h) (tasks deletes h) s)
    (hen : s.Enabled a) (hbad : ¬ s.Timely a) : ¬ Agrees (h ++ [(s, a)]) (s.act a) := by
  intro hagrees
  cases a with
  | loop top =>
    obtain ⟨⟨now, hpc⟩, htop⟩ := hen
    simp only [Timely, not_forall] at hbad
    obtain ⟨p, hcall, hout⟩ := hbad
    have hp := hcall
    simp only [calls, hpc, Option.mem_def, Option.ite_none_right_eq_some, Option.some.injEq] at hp
    obtain ⟨⟨hne, -⟩, rfl⟩ := hp
    have hheld : top ∈ s.held := List.mem_append_right _ (htop hne).1
    have hstop := not_not.mp (mt (hinv.indexed_iff hheld).mpr hout)
    obtain ⟨⟨s₁, b⟩, hb, hp⟩ := List.mem_filterMap.mp hstop
    obtain ⟨h₁, h₂, rfl⟩ := List.append_of_mem hb
    cases b with
    | stopTimer timerid top' reads =>
      refine hagrees.silent h₁ s₁ timerid top' reads (h₂ ++ [(s, .loop top)]) top (by simp) hp ?_
      rw [tasks_snoc, Option.mem_def.mp hcall]
      simp
    | _ => cases hp
  | finish =>
    obtain ⟨sp, now, hpc⟩ := hen
    simp only [Timely, not_forall, Bool.not_eq_false] at hbad
    obtain ⟨p, hdel, hidx⟩ := hbad
    simp only [deletes, hpc, Option.mem_def, Option.ite_none_left_eq_some,
      Option.some.injEq] at hdel
    obtain ⟨hperiodic, rfl⟩ := hdel
    obtain ⟨timerid, -, hentry⟩ := (Option.any_eq_true _ _).mp hidx
    have hact : s.act .finish =
        { s with mem := Function.update s.mem sp none, pc := .loop now } := by
      simp only [act, hpc, loopEnd, if_neg hperiodic]
    have hsome := (hagrees.live timerid sp (by rw [hact]; exact of_decide_eq_true hentry)).1
    rw [hact] at hsome
    simp at hsome
  | _ => exact hbad trivial

end EventTimer

open EventTimer in
/-- In a run in which `stopTimer` and the ids of the tasks do what they should, the queue and the
index agree all along if and only if no task is called that is stopped, and no task is deleted after
its call that is not. -/
theorem eventTimer_agrees {h : List (EventTimer × TimerAction)} {s : EventTimer}
    (hrun : Run EventTimer.step init h s) (hdef : Admits Defined h) :
    (∀ h₁ h₂ s₁, h = h₁ ++ h₂ → Run EventTimer.step init h₁ s₁ → Agrees h₁ s₁) ↔
      Admits Timely h := by
  constructor
  · induction hrun with
    | nil => exact fun _ => Exec.admits_nil
    | @snoc h s t a hr hst ih =>
      intro hall
      obtain ⟨hdef, hd⟩ := Exec.admits_snoc.mp hdef
      have htimely := ih hdef fun h₁ h₂ s₁ heq hr₁ =>
        hall h₁ (h₂ ++ [(s, a)]) s₁ (by rw [heq, List.append_assoc]) hr₁
      refine Exec.admits_snoc.mpr ⟨htimely, by_contra fun hbad => ?_⟩
      refine not_agrees_of_not_timely (run_inv hr hdef htimely) hst.1 hbad ?_
      exact hall _ [] _ (by simp) (hr.snoc ⟨hst.1, rfl⟩)
  · rintro htimely h₁ h₂ s₁ rfl hr₁
    exact run_agrees hr₁ (fun e he => hdef e (List.mem_append_left _ he))
      fun e he => htimely e (List.mem_append_left _ he)

namespace EventTimer

/-- A task that is called every second, and stopped after its first call. -/
def periodicRun : List (EventTimer → TimerAction) :=
  [.runTimerAt 500 1000 1000, .onTimer ⟨1, 1⟩, .loop 0, .finish, .loop 0, .stopTimer 1 0 1].map
    fun a _ => a

/-- A task that is called once. -/
def oneShotRun : List (EventTimer → TimerAction) :=
  [.runTimerAfter 0 5 0, .onTimer ⟨1, 0⟩, .loop 0, .finish].map fun a _ => a

/-- Two periodic tasks, of which the one with the later deadline is stopped, and then the other. -/
def stoppedRun : List (EventTimer → TimerAction) :=
  [.runTimerAfter 0 5 1000, .runTimerAfter 0 10 1000, .stopTimer 2 0 0, .stopTimer 1 0 1,
    .onTimer ⟨1, 0⟩, .loop 1].map fun a _ => a

end EventTimer

open EventTimer in
theorem eventTimer_agrees_periodicRun :
    ∃ h s, Run EventTimer.step init h s ∧ tasks EventTimer.calls h = [0] ∧ tasks deletes h = [0] ∧
      Agrees h s := by
  have hrun : Run EventTimer.step init (Exec.trace act init periodicRun)
      (Exec.final act init periodicRun) :=
    Run.script periodicRun (by rw [Exec.Admits]; decide +kernel)
  refine ⟨_, _, hrun, by decide +kernel, by decide +kernel, ?_⟩
  refine (eventTimer_agrees hrun (by rw [Exec.Admits]; decide +kernel)).mpr ?_ _ [] _ (by simp) hrun
  rw [Exec.Admits]
  decide +kernel

/-- The actions of a script can be taken, and after them the queue and the index disagree. -/
def EventTimer.Breaks (fs : List (EventTimer → TimerAction)) : Prop :=
  Run step init (Exec.trace act init fs) (Exec.final act init fs) ∧
    Admits Defined (Exec.trace act init fs) ∧
      ¬ Agrees (Exec.trace act init fs) (Exec.final act init fs)

open EventTimer in
/-- A task without an interval expires, and its entry is left with the pointer of a deleted task; a
task is stopped below the top of the queue, and called afterwards. -/
theorem eventTimer_disagrees : Breaks oneShotRun ∧ Breaks stoppedRun := by
  refine ⟨⟨Run.script _ ?_, ?_, fun h => ?_⟩, Run.script _ ?_, ?_, ?_⟩
  · rw [Exec.Admits]
    decide +kernel
  · rw [Exec.Admits]
    decide +kernel
  · exact absurd (h.live 1 0 (by decide +kernel)).1 (by decide +kernel)
  · rw [Exec.Admits]
    decide +kernel
  · rw [Exec.Admits]
    decide +kernel
  · intro h
    exact absurd (h.silent [_, _] _ 2 0 0 _ 1 rfl (by decide +kernel)) (by decide +kernel)

end MTRpc
