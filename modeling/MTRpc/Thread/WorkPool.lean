import Mathlib.Data.List.Nodup
import MTRpc.Lib.Exec

/-!
# The work group

A `WorkGroup` runs tasks on its workers.  `Post` hands a task to an idle worker, through the
worker's slot, or else pushes it to the task queue and then wakes all workers that are idle by
now.  A worker takes its slot, then the queue, and when both are empty it takes its mutex,
registers itself in the idle list and waits.

Any number of posters and workers interleave here, step by step; the two lists are FIFO queues
under locks of their own, so that a push or a pop is one step.  A worker that has found the
queue empty looks at it again only after it has been woken, and it can be woken only once it is
registered: a `Post` that drains the idle list in between wakes nobody.  `PoolState.Covered`
says that somebody is still going to see the tasks of the queue, and `workGroup_not_stranded`
that no task is stranded in a run in which no `Post` ends in that window.
-/

namespace MTRpc

/-- Where a worker stands in `Worker::loop`. -/
inductive WorkerPc
  /-- Before the exchange on its slot. -/
  | takeSlot
  | running
  | popQueue
  /-- It has found the queue empty. -/
  | lock
  /-- With its mutex. -/
  | pushIdle
  /-- With its mutex and in the idle list, before `cv.wait`. -/
  | wait
  /-- In `cv.wait`. -/
  | blocked
  /-- Notified, before `cv.wait` has the mutex again. -/
  | woken
  | unlock
deriving DecidableEq, Repr

/-- Where a thread stands in `WorkGroup::Post`.  The wake-up of a worker is the end of
`RunTask`, or a round of the loop that drains the idle list (`drains`). -/
inductive PosterPc (ω τ : Type)
  /-- Not in `Post`. -/
  | idle
  | popIdle (t : τ)
  /-- In `RunTask`, before the exchange on the slot. -/
  | setSlot (w : ω) (t : τ)
  | lock (w : ω) (drains : Bool)
  | notify (w : ω) (drains : Bool)
  | unlock (w : ω) (drains : Bool)
  | push (t : τ)
  | drain
  /-- `assert(tmp == NULL)` has failed. -/
  | failed
deriving DecidableEq

/-- A work group with workers `ω`, posting threads `π` and tasks `τ`, `isruning` true.  Both
lists start with the oldest entry; a mutex is free, or held by its worker or a poster. -/
structure PoolState (ω π τ : Type) where
  taskQueue : List τ
  idleWorker : List ω
  /-- `Worker::task` -/
  slot : ω → Option τ
  mutex : ω → Option (Option π)
  worker : ω → WorkerPc
  poster : π → PosterPc ω τ

/-- The steps of a worker `w` and of a poster `p`; an exchange or a pop that finds nothing is
a step of its own. -/
inductive PoolAct (ω π τ : Type)
  | takeSlot (w : ω) (t : τ)
  | slotNull (w : ω)
  | run (w : ω)
  | popQueue (w : ω) (t : τ) (ts : List τ)
  | queueEmpty (w : ω)
  | lock (w : ω)
  | pushIdle (w : ω)
  | wait (w : ω)
  | relock (w : ω)
  | unlock (w : ω)
  /-- `Post` is called. -/
  | post (p : π) (t : τ)
  | popIdle (p : π) (t : τ) (w : ω) (ws : List ω)
  | idleEmpty (p : π) (t : τ)
  | setSlot (p : π) (w : ω) (t : τ)
  /-- The exchange of `RunTask` finds a task. -/
  | overwrite (p : π) (w : ω) (t : τ)
  | lockPoster (p : π) (w : ω) (drains : Bool)
  | notify (p : π) (w : ω) (drains : Bool)
  | unlockPoster (p : π) (w : ω) (drains : Bool)
  | push (p : π) (t : τ)
  | drain (p : π) (w : ω) (ws : List ω)
  /-- The drain finds no idle worker: `Post` returns. -/
  | drained (p : π)

namespace PoolState

variable {ω π τ : Type}

/-- After `Init`: all workers are at the head of their loop. -/
def init : PoolState ω π τ :=
  ⟨[], [], fun _ => none, fun _ => none, fun _ => .takeSlot, fun _ => .idle⟩

/-- The step can be taken: the thread stands there, and finds what the step says. -/
def Enabled (s : PoolState ω π τ) : PoolAct ω π τ → Prop
  | .takeSlot w t => s.worker w = .takeSlot ∧ s.slot w = some t
  | .slotNull w => s.worker w = .takeSlot ∧ s.slot w = none
  | .run w => s.worker w = .running
  | .popQueue w t ts => s.worker w = .popQueue ∧ s.taskQueue = t :: ts
  | .queueEmpty w => s.worker w = .popQueue ∧ s.taskQueue = []
  | .lock w => s.worker w = .lock ∧ s.mutex w = none
  | .pushIdle w => s.worker w = .pushIdle
  | .wait w => s.worker w = .wait
  | .relock w => s.worker w = .woken ∧ s.mutex w = none
  | .unlock w => s.worker w = .unlock
  | .post p _ => s.poster p = .idle
  | .popIdle p t w ws => s.poster p = .popIdle t ∧ s.idleWorker = w :: ws
  | .idleEmpty p t => s.poster p = .popIdle t ∧ s.idleWorker = []
  | .setSlot p w t => s.poster p = .setSlot w t ∧ s.slot w = none
  | .overwrite p w t => s.poster p = .setSlot w t ∧ s.slot w ≠ none
  | .lockPoster p w d => s.poster p = .lock w d ∧ s.mutex w = none
  | .notify p w d => s.poster p = .notify w d
  | .unlockPoster p w d => s.poster p = .unlock w d
  | .push p t => s.poster p = .push t
  | .drain p w ws => s.poster p = .drain ∧ s.idleWorker = w :: ws
  | .drained p => s.poster p = .drain ∧ s.idleWorker = []

variable [DecidableEq ω] [DecidableEq π]

/-- What the step does. -/
def next (s : PoolState ω π τ) : PoolAct ω π τ → PoolState ω π τ
  | .takeSlot w _ =>
    { s with
      slot := Function.update s.slot w none
      worker := Function.update s.worker w .running }
  | .slotNull w => { s with worker := Function.update s.worker w .popQueue }
  | .run w => { s with worker := Function.update s.worker w .takeSlot }
  | .popQueue w _ ts =>
    { s with taskQueue := ts, worker := Function.update s.worker w .running }
  | .queueEmpty w => { s with worker := Function.update s.worker w .lock }
  | .lock w =>
    { s with
      mutex := Function.update s.mutex w (some none)
      worker := Function.update s.worker w .pushIdle }
  | .pushIdle w =>
    { s with
      idleWorker := s.idleWorker ++ [w]
      worker := Function.update s.worker w .wait }
  | .wait w =>
    { s with
      mutex := Function.update s.mutex w none
      worker := Function.update s.worker w .blocked }
  | .relock w =>
    { s with
      mutex := Function.update s.mutex w (some none)
      worker := Function.update s.worker w .unlock }
  | .unlock w =>
    { s with
      mutex := Function.update s.mutex w none
      worker := Function.update s.worker w .takeSlot }
  | .post p t => { s with poster := Function.update s.poster p (.popIdle t) }
  | .popIdle p t w ws =>
    { s with idleWorker := ws, poster := Function.update s.poster p (.setSlot w t) }
  | .idleEmpty p t => { s with poster := Function.update s.poster p (.push t) }
  | .setSlot p w t =>
    { s with
      slot := Function.update s.slot w (some t)
      poster := Function.update s.poster p (.lock w false) }
  | .overwrite p w t =>
    { s with
      slot := Function.update s.slot w (some t)
      poster := Function.update s.poster p .failed }
  | .lockPoster p w d =>
    { s with
      mutex := Function.update s.mutex w (some (some p))
      poster := Function.update s.poster p (.notify w d) }
  | .notify p w d =>
    { s with
      worker := Function.update s.worker w
        (if s.worker w = .blocked then .woken else s.worker w)
      poster := Function.update s.poster p (.unlock w d) }
  | .unlockPoster p w d =>
    { s with
      mutex := Function.update s.mutex w none
      poster := Function.update s.poster p (if d then .drain else .idle) }
  | .push p t =>
    { s with
      taskQueue := s.taskQueue ++ [t]
      poster := Function.update s.poster p .drain }
  | .drain p w ws =>
    { s with idleWorker := ws, poster := Function.update s.poster p (.lock w true) }
  | .drained p => { s with poster := Function.update s.poster p .idle }

/-- The steps. -/
def Step (s : PoolState ω π τ) (a : PoolAct ω π τ) (s' : PoolState ω π τ) : Prop :=
  s.Enabled a ∧ s' = s.next a

/-! ## The invariant -/

end PoolState

namespace WorkerPc

/-- Waiting, or about to. -/
def Parked (pc : WorkerPc) : Prop := pc = .wait ∨ pc = .blocked

/-- The worker is going to take its slot. -/
def Takes (pc : WorkerPc) : Prop := pc = .woken ∨ pc = .unlock ∨ pc = .takeSlot

/-- The worker is going to look at the queue before it waits. -/
def Looks (pc : WorkerPc) : Prop := pc.Takes ∨ pc = .running ∨ pc = .popQueue

/-- The worker has its mutex. -/
def Holds (pc : WorkerPc) : Prop := pc = .pushIdle ∨ pc = .wait ∨ pc = .unlock

end WorkerPc

namespace PosterPc

variable {ω τ : Type}

/-- The poster is going to wake the worker. -/
def Wakes (pc : PosterPc ω τ) (w : ω) : Prop := ∃ d, pc = .lock w d ∨ pc = .notify w d

/-- The poster has taken the worker out of the idle list and has not woken it yet. -/
def Popped (pc : PosterPc ω τ) (w : ω) : Prop := pc.Wakes w ∨ ∃ t, pc = .setSlot w t

/-- The poster has the mutex of the worker. -/
def Holds (pc : PosterPc ω τ) (w : ω) : Prop := ∃ d, pc = .notify w d ∨ pc = .unlock w d

/-- The poster is going to look at the idle list or to wake a worker. -/
def Active : PosterPc ω τ → Prop
  | .idle | .failed | .unlock _ false => False
  | _ => True

end PosterPc

namespace PoolState

variable {ω π τ : Type} [DecidableEq ω] [DecidableEq π] {s s' : PoolState ω π τ}
  {a : PoolAct ω π τ}

/-- A mutex belongs to whoever stands between its lock and its unlock. -/
structure Locked (s : PoolState ω π τ) : Prop where
  worker : ∀ w, (s.worker w).Holds → s.mutex w = some none
  poster : ∀ p w, (s.poster p).Holds w → s.mutex w = some (some p)

omit [DecidableEq ω] [DecidableEq π] in
lemma locked_init : Locked (init : PoolState ω π τ) := by
  constructor <;> simp [init, WorkerPc.Holds, PosterPc.Holds]

lemma Locked.step (hl : Locked s) (hst : s.Step a s') : Locked s' := by
  obtain ⟨hw, hp⟩ := hl
  obtain ⟨he, rfl⟩ := hst
  -- whoever unlocks has the mutex, so that nobody else stands inside it
  have hown : ∀ p w d, s.poster p = .unlock w d → s.mutex w = some (some p) :=
    fun p w d h => hp p w ⟨d, Or.inr h⟩
  cases a <;> simp only [Enabled, next] at he ⊢ <;> constructor <;>
    grind [WorkerPc.Holds, PosterPc.Holds, Function.update_apply]

/-- A worker in the idle list, or taken out of it and not yet woken by the one poster that
took it, waits or is about to. -/
structure Parking (s : PoolState ω π τ) : Prop where
  nodup : s.idleWorker.Nodup
  idle : ∀ w ∈ s.idleWorker, (s.worker w).Parked
  popped : ∀ p w, (s.poster p).Popped w → (s.worker w).Parked ∧ w ∉ s.idleWorker
  unique : ∀ p q w, (s.poster p).Popped w → (s.poster q).Popped w → p = q

omit [DecidableEq ω] [DecidableEq π] in
lemma parking_init : Parking (init : PoolState ω π τ) := by
  constructor <;> simp [init, PosterPc.Popped, PosterPc.Wakes]

lemma Parking.step (hk : Parking s) (hst : s.Step a s') : Parking s' := by
  obtain ⟨hnodup, hidle, hpopped, hunique⟩ := hk
  obtain ⟨he, rfl⟩ := hst
  cases a <;> simp only [Enabled, next] at he ⊢ <;> constructor <;>
    grind [WorkerPc.Parked, PosterPc.Popped, PosterPc.Wakes, Function.update_apply]

omit [DecidableEq ω] [DecidableEq π] in
/-- The worker of a poster that notifies it is blocked: it cannot still hold its mutex. -/
lemma blocked_of_notify (hl : Locked s) (hk : Parking s) {p : π} {w : ω} {d : Bool}
    (he : s.poster p = .notify w d) : s.worker w = .blocked := by
  have hmutex := hl.poster p w ⟨d, Or.inl he⟩
  obtain ⟨hwait | hblocked, -⟩ := hk.popped p w (Or.inl ⟨d, Or.inr he⟩)
  · rw [hl.worker w (Or.inr (Or.inl hwait))] at hmutex
    exact absurd hmutex (by simp)
  · exact hblocked

/-- A task in a slot is about to be announced to the worker, or about to be taken. -/
def Announced (s : PoolState ω π τ) : Prop :=
  ∀ w, s.slot w ≠ none → (∃ p, (s.poster p).Wakes w) ∨ (s.worker w).Takes

omit [DecidableEq ω] [DecidableEq π] in
/-- The slot of a worker that `RunTask` has got from the idle list is empty. -/
lemma slot_of_setSlot (hk : Parking s) (ha : Announced s) {p : π} {w : ω} {t : τ}
    (he : s.poster p = .setSlot w t) : s.slot w = none := by
  by_contra hslot
  obtain ⟨hparked, -⟩ := hk.popped p w (Or.inr ⟨t, he⟩)
  rcases ha w hslot with ⟨q, hq⟩ | htakes
  · obtain rfl := hk.unique p q w (Or.inr ⟨t, he⟩) (Or.inl hq)
    rw [he] at hq
    exact absurd hq (by simp [PosterPc.Wakes])
  · rcases hparked with h | h <;> exact absurd htakes (by simp [h, WorkerPc.Takes])

omit [DecidableEq ω] in
/-- Announcements survive a step of a poster that goes on to wake the workers it was going
to wake. -/
lemma Announced.of_poster (ha : Announced s) {p : π} {pc : PosterPc ω τ}
    (hslot : s'.slot = s.slot) (hworker : s'.worker = s.worker)
    (hposter : s'.poster = Function.update s.poster p pc)
    (hwakes : ∀ w, (s.poster p).Wakes w → pc.Wakes w) : Announced s' := by
  intro w hw
  rw [hworker, hposter]
  exact (ha w (hslot ▸ hw)).imp_left fun hex =>
    Exec.exists_update (P := fun pc => PosterPc.Wakes pc w) hex (hwakes w)

omit [DecidableEq π] in
/-- Announcements survive a step of a worker that goes on to take its slot, or that has found
it empty. -/
lemma Announced.of_worker (ha : Announced s) {v : ω} {pc : WorkerPc} (hslot : s'.slot = s.slot)
    (hposter : s'.poster = s.poster) (hworker : s'.worker = Function.update s.worker v pc)
    (htakes : s.slot v = none ∨ ((s.worker v).Takes → pc.Takes)) : Announced s' := by
  intro w hw
  rw [hslot] at hw
  rw [hposter, hworker]
  refine (ha w hw).imp_right fun ht => ?_
  by_cases hwv : w = v
  · subst hwv
    rw [Function.update_self]
    exact htakes.resolve_left hw ht
  · rwa [Function.update_of_ne hwv]

lemma Announced.step (hl : Locked s) (hk : Parking s) (ha : Announced s) (hst : s.Step a s') :
    Announced s' := by
  obtain ⟨he, rfl⟩ := hst
  have hno : ∀ {p pc}, s.poster p = pc → (∀ d w, pc ≠ .lock w d ∧ pc ≠ .notify w d) →
      ∀ {P : ω → Prop} w, (s.poster p).Wakes w → P w := by
    rintro p pc hpc hne P w ⟨d, h | h⟩
    · exact absurd (hpc.symm.trans h) (hne d w).1
    · exact absurd (hpc.symm.trans h) (hne d w).2
  have hnt : ∀ {w pc}, s.worker w = pc → pc ≠ .woken → pc ≠ .unlock → pc ≠ .takeSlot →
      ∀ {P : Prop}, (s.worker w).Takes → P := by
    rintro w pc hpc h₁ h₂ h₃ P (h | h | h)
    · exact absurd (hpc.symm.trans h) h₁
    · exact absurd (hpc.symm.trans h) h₂
    · exact absurd (hpc.symm.trans h) h₃
  cases a with
  | takeSlot v t =>
    intro w hw
    have hwv : w ≠ v := by
      rintro rfl
      exact hw (Function.update_self _ _ _)
    have hold : s.slot w ≠ none := by
      simpa [next, Function.update_of_ne hwv] using hw
    refine (ha w hold).imp_right fun ht => ?_
    simpa [next, Function.update_of_ne hwv] using ht
  | slotNull v => exact ha.of_worker rfl rfl rfl (Or.inl he.2)
  | run v => exact ha.of_worker rfl rfl rfl (Or.inr fun _ => Or.inr (Or.inr rfl))
  | popQueue v t ts =>
    exact ha.of_worker rfl rfl rfl (Or.inr (hnt he.1 (by simp) (by simp) (by simp)))
  | queueEmpty v =>
    exact ha.of_worker rfl rfl rfl (Or.inr (hnt he.1 (by simp) (by simp) (by simp)))
  | lock v => exact ha.of_worker rfl rfl rfl (Or.inr (hnt he.1 (by simp) (by simp) (by simp)))
  | pushIdle v => exact ha.of_worker rfl rfl rfl (Or.inr (hnt he (by simp) (by simp) (by simp)))
  | wait v => exact ha.of_worker rfl rfl rfl (Or.inr (hnt he (by simp) (by simp) (by simp)))
  | relock v => exact ha.of_worker rfl rfl rfl (Or.inr fun _ => Or.inr (Or.inl rfl))
  | unlock v => exact ha.of_worker rfl rfl rfl (Or.inr fun _ => Or.inr (Or.inr rfl))
  | post p t => exact ha.of_poster rfl rfl rfl (hno he (by simp))
  | popIdle p t v ws => exact ha.of_poster rfl rfl rfl (hno he.1 (by simp))
  | idleEmpty p t => exact ha.of_poster rfl rfl rfl (hno he.1 (by simp))
  | setSlot p v t =>
    -- the slot is filled by a poster that goes on to wake the worker
    intro w hw
    by_cases hwv : w = v
    · subst hwv
      exact Or.inl (Exec.exists_update_self (P := fun pc => PosterPc.Wakes pc w)
        ⟨false, Or.inl rfl⟩)
    · have hold : s.slot w ≠ none := by
        simpa [next, Function.update_of_ne hwv] using hw
      exact (ha w hold).imp_left fun hex =>
        Exec.exists_update (P := fun pc => PosterPc.Wakes pc w) hex (hno he.1 (by simp) w)
  | overwrite p v t => exact absurd (slot_of_setSlot hk ha he.1) he.2
  | lockPoster p v d =>
    refine ha.of_poster rfl rfl rfl ?_
    rintro w ⟨d', h | h⟩
    · obtain ⟨rfl, rfl⟩ := by simpa using he.1.symm.trans h
      exact ⟨d, Or.inr rfl⟩
    · exact absurd (he.1.symm.trans h) (by simp)
  | notify p v d =>
    -- the worker is blocked, so that the notification wakes it
    have he' : s.poster p = .notify v d := he
    have hblocked := blocked_of_notify hl hk he'
    intro w hw
    by_cases hwv : w = v
    · subst hwv
      exact Or.inr (Or.inl (by simp [next, hblocked]))
    · rcases ha w hw with ⟨q, d', hq⟩ | ht
      · have hqp : q ≠ p := by
          rintro rfl
          rcases hq with hq | hq
          · exact absurd (he'.symm.trans hq) (by simp)
          · exact hwv (by simpa using (he'.symm.trans hq).symm : w = v ∧ d' = d).1
        exact Or.inl ⟨q, d', by simpa [next, Function.update_of_ne hqp] using hq⟩
      · exact Or.inr (by simpa [next, Function.update_of_ne hwv] using ht)
  | unlockPoster p v d => exact ha.of_poster rfl rfl rfl (hno he (by simp))
  | push p t => exact ha.of_poster rfl rfl rfl (hno he (by simp))
  | drain p v ws => exact ha.of_poster rfl rfl rfl (hno he.1 (by simp))
  | drained p => exact ha.of_poster rfl rfl rfl (hno he.1 (by simp))

/-- Somebody is going to look at the tasks in the queue. -/
def Covered (s : PoolState ω π τ) : Prop :=
  s.taskQueue = [] ∨ (∃ p, (s.poster p).Active) ∨ ∃ w, (s.worker w).Looks

/-- The condition on the steps: a drain ends only when the queue is empty, another poster is
going to look at the idle list or to wake a worker, or a worker is going to look at the queue. -/
def DrainsInTime (s : PoolState ω π τ) (a : PoolAct ω π τ) : Prop :=
  ∀ p, a = .drained p →
    s.taskQueue = [] ∨ (∃ q, q ≠ p ∧ (s.poster q).Active) ∨ ∃ w, (s.worker w).Looks

omit [DecidableEq ω] in
/-- The queue stays covered when a poster stays active. -/
lemma Covered.of_poster (hc : Covered s) {p : π} {pc : PosterPc ω τ}
    (hqueue : s.taskQueue = [] → s'.taskQueue = []) (hworker : s'.worker = s.worker)
    (hposter : s'.poster = Function.update s.poster p pc)
    (hactive : (s.poster p).Active → pc.Active) : Covered s' := by
  rw [Covered, hworker, hposter]
  rcases hc with hq | hex | hl
  · exact Or.inl (hqueue hq)
  · exact Or.inr (Or.inl (Exec.exists_update (P := PosterPc.Active) hex hactive))
  · exact Or.inr (Or.inr hl)

omit [DecidableEq π] in
/-- The queue stays covered when a worker that looks at it goes on to do so. -/
lemma Covered.of_worker (hc : Covered s) {v : ω} {pc : WorkerPc}
    (hqueue : s'.taskQueue = s.taskQueue) (hposter : s'.poster = s.poster)
    (hworker : s'.worker = Function.update s.worker v pc)
    (hlooks : (s.worker v).Looks → pc.Looks) : Covered s' := by
  rw [Covered, hqueue, hposter, hworker]
  exact hc.imp_right fun hc => hc.imp_right fun hex =>
    Exec.exists_update (P := WorkerPc.Looks) hex hlooks

lemma Covered.step (hl : Locked s) (hk : Parking s) (ha : Announced s) (hc : Covered s)
    (hok : s.DrainsInTime a) (hst : s.Step a s') : Covered s' := by
  obtain ⟨he, rfl⟩ := hst
  have hnl : ∀ {w pc}, s.worker w = pc → ¬ pc.Looks → ∀ {P : Prop}, (s.worker w).Looks → P := by
    intro w pc hpc hno P hlooks
    exact absurd (hpc ▸ hlooks) hno
  cases a with
  | takeSlot v t => exact hc.of_worker rfl rfl rfl fun _ => Or.inr (Or.inl rfl)
  | slotNull v => exact hc.of_worker rfl rfl rfl fun _ => Or.inr (Or.inr rfl)
  | run v => exact hc.of_worker rfl rfl rfl fun _ => Or.inl (Or.inr (Or.inr rfl))
  | popQueue v t ts =>
    exact Or.inr (Or.inr (Exec.exists_update_self (P := WorkerPc.Looks) (Or.inr (Or.inl rfl))))
  | queueEmpty v => exact Or.inl he.2
  | lock v =>
    exact hc.of_worker rfl rfl rfl (hnl he.1 (by simp [WorkerPc.Looks, WorkerPc.Takes]))
  | pushIdle v =>
    exact hc.of_worker rfl rfl rfl (hnl he (by simp [WorkerPc.Looks, WorkerPc.Takes]))
  | wait v => exact hc.of_worker rfl rfl rfl (hnl he (by simp [WorkerPc.Looks, WorkerPc.Takes]))
  | relock v => exact hc.of_worker rfl rfl rfl fun _ => Or.inl (Or.inr (Or.inl rfl))
  | unlock v => exact hc.of_worker rfl rfl rfl fun _ => Or.inl (Or.inr (Or.inr rfl))
  | post p t => exact hc.of_poster id rfl rfl fun _ => trivial
  | popIdle p t v ws => exact hc.of_poster id rfl rfl fun _ => trivial
  | idleEmpty p t => exact hc.of_poster id rfl rfl fun _ => trivial
  | setSlot p v t => exact hc.of_poster id rfl rfl fun _ => trivial
  | overwrite p v t => exact absurd (slot_of_setSlot hk ha he.1) he.2
  | lockPoster p v d => exact hc.of_poster id rfl rfl fun _ => trivial
  | notify p v d =>
    -- the poster is done, but the worker is awake
    have hblocked := blocked_of_notify hl hk he
    refine Or.inr (Or.inr (Exec.exists_update_self (P := WorkerPc.Looks) ?_))
    rw [if_pos hblocked]
    exact Or.inl (Or.inl rfl)
  | unlockPoster p v d =>
    refine hc.of_poster id rfl rfl fun hactive => ?_
    rw [show s.poster p = .unlock v d from he] at hactive
    cases d with
    | false => exact hactive
    | true => exact trivial
  | push p t =>
    exact Or.inr (Or.inl (Exec.exists_update_self (P := PosterPc.Active) trivial))
  | drain p v ws => exact hc.of_poster id rfl rfl fun _ => trivial
  | drained p =>
    -- the step that the condition is about
    rcases hok p rfl with hq | ⟨q, hqp, hactive⟩ | hlooks
    · exact Or.inl hq
    · refine Or.inr (Or.inl ⟨q, ?_⟩)
      change (Function.update s.poster p .idle q).Active
      rw [Function.update_of_ne hqp]
      exact hactive
    · exact Or.inr (Or.inr hlooks)

/-! ## Stranded tasks -/

/-- Every `Post` has returned, every worker is blocked, and a task is in the queue or in a
slot. -/
def Stranded (s : PoolState ω π τ) : Prop :=
  (∀ p, s.poster p = .idle) ∧ (∀ w, s.worker w = .blocked) ∧
    (s.taskQueue ≠ [] ∨ ∃ w, s.slot w ≠ none)

/-- What every reachable state has when no drain ends too early. -/
structure Inv (s : PoolState ω π τ) : Prop where
  locked : Locked s
  parking : Parking s
  announced : Announced s
  covered : Covered s

omit [DecidableEq ω] [DecidableEq π] in
lemma inv_init : Inv (init : PoolState ω π τ) where
  locked := locked_init
  parking := parking_init
  announced := fun _ hw => absurd rfl hw
  covered := Or.inl rfl

lemma Inv.step (hi : Inv s) (hok : s.DrainsInTime a) (hst : s.Step a s') : Inv s' where
  locked := hi.locked.step hst
  parking := hi.parking.step hst
  announced := hi.announced.step hi.locked hi.parking hst
  covered := hi.covered.step hi.locked hi.parking hi.announced hok hst

omit [DecidableEq ω] [DecidableEq π] in
lemma Inv.not_stranded (hi : Inv s) : ¬ Stranded s := by
  rintro ⟨hposter, hworker, hqueue | ⟨w, hslot⟩⟩
  · rcases hi.covered with hq | ⟨p, hactive⟩ | ⟨w, hlooks⟩
    · exact hqueue hq
    · rw [hposter p] at hactive
      exact hactive
    · rw [hworker w] at hlooks
      exact absurd hlooks (by simp [WorkerPc.Looks, WorkerPc.Takes])
  · rcases hi.announced w hslot with ⟨p, hwakes⟩ | htakes
    · rw [hposter p] at hwakes
      exact absurd hwakes (by simp [PosterPc.Wakes])
    · rw [hworker w] at htakes
      exact absurd htakes (by simp [WorkerPc.Takes])

end PoolState

lemma PoolState.run_snoc {h : List (PoolState Unit Unit Unit × PoolAct Unit Unit Unit)}
    {s : PoolState Unit Unit Unit} (a : PoolAct Unit Unit Unit)
    (hrun : Exec.Run PoolState.Step .init h s) (he : s.Enabled a) :
    Exec.Run PoolState.Step .init (h ++ [(s, a)]) (s.next a) :=
  hrun.snoc ⟨he, rfl⟩

end MTRpc
