import MTRpc.Thread.TaskSlot

/-!
# How a work group stops

`WorkGroup::Stop` calls `Worker::Stop` for one worker after the other, which takes the mutex of the
worker, clears its `isruning` and notifies its condition variable.  `Worker::loop` tests `isruning`
at its head, and again with the mutex before it registers itself and waits.

`StopAct` adds these steps to those of the work group, the returns of `cv.wait` without a
notification included.  Once `WorkGroup::Stop` has returned, every worker runs one task more at
most and leaves the loop after at most five steps of its own, and nobody keeps it from taking them
(`workGroup_stops`): the join comes to an end when the tasks do, whatever else is posted or stopped.
-/

namespace MTRpc

/-- Where a thread stands in `WorkGroup::Stop`, with the worker and the ones behind it. -/
inductive StopPc (ω : Type)
  | idle
  | lock (w : ω) (ws : List ω)
  /-- With the mutex, before `isruning = false`. -/
  | store (w : ω) (ws : List ω)
  | notifyAll (w : ω) (ws : List ω)
  | unlock (w : ω) (ws : List ω)
deriving DecidableEq, Repr

/-- Where a worker stands in its loop. -/
inductive LoopPc
  /-- Before the test at the head. -/
  | head
  | body
  /-- Behind the `break`, with the mutex. -/
  | unlock
  | left
deriving DecidableEq, Repr

/-- A work group whose workers can be stopped. -/
structure StopState (ω π τ : Type) where
  pool : PoolState ω π τ
  isruning : ω → Bool
  loop : ω → LoopPc
  stopper : π → StopPc ω

/-- The steps of the work group, and those of the loop and of `Stop`. -/
inductive StopAct (ω π τ : Type)
  | act (a : PoolAct ω π τ)
  | interrupt (w : ω)
  /-- `for(;isruning;)` -/
  | test (w : ω)
  /-- `break` -/
  | break (w : ω)
  | unlock (w : ω)
  /-- `WorkGroup::Stop` is called, for these workers. -/
  | stop (p : π) (ws : List ω)
  | lockStop (p : π) (w : ω) (ws : List ω)
  | store (p : π) (w : ω) (ws : List ω)
  | notifyAll (p : π) (w : ω) (ws : List ω)
  | unlockStop (p : π) (w : ω) (ws : List ω)

namespace PoolAct

variable {ω π τ : Type}

/-- The worker that takes the step. -/
def worker : PoolAct ω π τ → Option ω
  | .takeSlot w _ | .slotNull w | .run w | .popQueue w _ _ | .queueEmpty w | .lock w | .pushIdle w
  | .wait w | .relock w | .unlock w => some w
  | _ => none

/-- The poster that takes the step. -/
def poster : PoolAct ω π τ → Option π
  | .post p _ | .popIdle p _ _ _ | .idleEmpty p _ | .setSlot p _ _ | .overwrite p _ _
  | .lockPoster p _ _ | .notify p _ _ | .unlockPoster p _ _ | .push p _ | .drain p _ _
  | .drained p => some p
  | _ => none

/-- The worker that goes back to the head of its loop. -/
def loops : PoolAct ω π τ → Option ω
  | .run w | .unlock w => some w
  | _ => none

end PoolAct

namespace StopState

variable {ω π τ : Type}

/-- After `Init`. -/
def init : StopState ω π τ := ⟨.init, fun _ => true, fun _ => .head, fun _ => .idle⟩

/-- The thread stands there, and finds what the step says. -/
def Enabled (s : StopState ω π τ) : StopAct ω π τ → Prop
  | .act a =>
      s.pool.Enabled a ∧ (∀ w, a.worker = some w → s.loop w = .body) ∧
        (∀ w, a = .pushIdle w → s.isruning w = true) ∧ ∀ p, a.poster = some p → s.stopper p = .idle
  | .interrupt w => s.pool.worker w = .blocked
  | .test w => s.loop w = .head
  | .break w => s.loop w = .body ∧ s.pool.worker w = .pushIdle ∧ s.isruning w = false
  | .unlock w => s.loop w = .unlock
  | .stop p _ => s.stopper p = .idle ∧ s.pool.poster p = .idle
  | .lockStop p w ws => s.stopper p = .lock w ws ∧ s.pool.mutex w = none
  | .store p w ws => s.stopper p = .store w ws
  | .notifyAll p w ws => s.stopper p = .notifyAll w ws
  | .unlockStop p w ws => s.stopper p = .unlock w ws

variable [DecidableEq ω] [DecidableEq π]

/-- `while(w)` -/
def stopNext : List ω → StopPc ω
  | [] => .idle
  | w :: ws => .lock w ws

/-- What the step does. -/
def next (s : StopState ω π τ) : StopAct ω π τ → StopState ω π τ
  | .act a =>
    { s with
      pool := s.pool.next a
      loop := a.loops.elim s.loop fun w => Function.update s.loop w .head }
  | .interrupt w => { s with pool := s.pool.interrupt w }
  | .test w =>
    { s with loop := Function.update s.loop w (if s.isruning w then .body else .left) }
  | .break w => { s with loop := Function.update s.loop w .unlock }
  | .unlock w =>
    { s with
      pool := { s.pool with mutex := Function.update s.pool.mutex w none }
      isruning := Function.update s.isruning w false
      loop := Function.update s.loop w .left }
  | .stop p ws => { s with stopper := Function.update s.stopper p (stopNext ws) }
  | .lockStop p w ws =>
    { s with
      pool := { s.pool with mutex := Function.update s.pool.mutex w (some (some p)) }
      stopper := Function.update s.stopper p (.store w ws) }
  | .store p w ws =>
    { s with
      isruning := Function.update s.isruning w false
      stopper := Function.update s.stopper p (.notifyAll w ws) }
  | .notifyAll p w ws =>
    { s with
      pool := { s.pool with
        worker := Function.update s.pool.worker w
          (if s.pool.worker w = .blocked then .woken else s.pool.worker w) }
      stopper := Function.update s.stopper p (.unlock w ws) }
  | .unlockStop p w ws =>
    { s with
      pool := { s.pool with mutex := Function.update s.pool.mutex w none }
      stopper := Function.update s.stopper p (stopNext ws) }

/-- The steps. -/
def Step (s : StopState ω π τ) (a : StopAct ω π τ) (s' : StopState ω π τ) : Prop :=
  s.Enabled a ∧ s' = s.next a

end StopState

namespace StopPc

variable {ω : Type}

/-- The thread has the mutex of the worker. -/
def Holds (pc : StopPc ω) (w : ω) : Prop :=
  ∃ ws, pc = .store w ws ∨ pc = .notifyAll w ws ∨ pc = .unlock w ws

/-- The thread is about to notify the worker. -/
def Notifies (pc : StopPc ω) (w : ω) : Prop := ∃ ws, pc = .notifyAll w ws

/-- The workers whose `isruning` the thread has not cleared yet. -/
def rest : StopPc ω → List ω
  | .lock w ws | .store w ws => w :: ws
  | .notifyAll _ ws | .unlock _ ws => ws
  | .idle => []

end StopPc

namespace StopState

variable {ω π τ : Type} [DecidableEq ω] [DecidableEq π] {s s' : StopState ω π τ}
variable {a : StopAct ω π τ} {w : ω}

/-! ## The invariants -/

/-- Where a worker stands that is not in the body of its loop. -/
structure Placed (s : StopState ω π τ) : Prop where
  head : ∀ w, s.loop w = .head → s.pool.worker w = .takeSlot
  unlock : ∀ w, s.loop w = .unlock → s.pool.worker w = .pushIdle
  left : ∀ w, s.loop w = .left → s.pool.worker w = .takeSlot ∨ s.pool.worker w = .pushIdle

omit [DecidableEq ω] [DecidableEq π] in
lemma placed_init : Placed (init : StopState ω π τ) := by
  constructor <;> simp [init, PoolState.init]

lemma Placed.step (hp : Placed s) (hst : s.Step a s') : Placed s' := by
  obtain ⟨hhead, hunlock, hleft⟩ := hp
  obtain ⟨he, rfl⟩ := hst
  cases a with
  | act a =>
    obtain ⟨he, hbody, -, -⟩ := he
    cases a <;> simp only [PoolState.Enabled] at he <;>
      simp only [next, PoolState.next, PoolAct.loops, PoolAct.worker, Option.elim] at hbody ⊢ <;>
      constructor <;> grind [Function.update_apply]
  | _ =>
    simp only [Enabled] at he
    simp only [next, PoolState.interrupt]
    constructor <;> grind [Function.update_apply]

/-- A thread is in `Post` or in `Stop`. -/
def OneCall (s : StopState ω π τ) : Prop :=
  ∀ p, s.stopper p ≠ .idle → s.pool.poster p = .idle

omit [DecidableEq ω] [DecidableEq π] in
lemma oneCall_init : OneCall (init : StopState ω π τ) := fun _ h => absurd rfl h

lemma OneCall.step (ho : OneCall s) (hst : s.Step a s') : OneCall s' := by
  obtain ⟨he, rfl⟩ := hst
  intro p
  have hp := ho p
  cases a with
  | act a =>
    obtain ⟨he, -, -, hidle⟩ := he
    cases a <;> simp only [PoolState.Enabled] at he <;>
      simp only [next, PoolState.next, PoolAct.poster] at hidle ⊢ <;>
      grind [Function.update_apply]
  | _ =>
    simp only [Enabled] at he
    simp only [next, PoolState.interrupt]
    grind [Function.update_apply]

omit [DecidableEq ω] in
@[grind .] lemma not_holds_stopNext {ws : List ω} : ¬ (stopNext ws).Holds w := by
  cases ws <;> simp [stopNext, StopPc.Holds]

/-- A mutex belongs to whoever stands between its lock and its unlock. -/
structure Locked (s : StopState ω π τ) : Prop where
  worker : ∀ w, s.pool.mutex w = some none ↔ s.loop w ≠ .left ∧ (s.pool.worker w).Holds
  thread : ∀ p w, s.pool.mutex w = some (some p) ↔
    (s.pool.poster p).Holds w ∨ (s.stopper p).Holds w

omit [DecidableEq ω] [DecidableEq π] in
lemma locked_init : Locked (init : StopState ω π τ) := by
  constructor <;> simp [init, PoolState.init, WorkerPc.Holds, PosterPc.Holds, StopPc.Holds]

lemma Locked.step (hl : Locked s) (hp : Placed s) (ho : OneCall s) (hst : s.Step a s') :
    Locked s' := by
  obtain ⟨hworker, hthread⟩ := hl
  obtain ⟨hhead, hunlock, hleft⟩ := hp
  obtain ⟨he, rfl⟩ := hst
  -- whoever unlocks has the mutex, so that nobody else stands inside it
  have hown : ∀ p w d, s.pool.poster p = .unlock w d → s.pool.mutex w = some (some p) :=
    fun p w d h => (hthread p w).mpr (Or.inl ⟨d, Or.inr h⟩)
  have hstop : ∀ p w ws, s.stopper p = .unlock w ws → s.pool.mutex w = some (some p) :=
    fun p w ws h => (hthread p w).mpr (Or.inr ⟨ws, Or.inr (Or.inr h)⟩)
  cases a with
  | act a =>
    obtain ⟨he, hbody, -, hidle⟩ := he
    cases a <;> simp only [PoolState.Enabled] at he <;>
      simp only [next, PoolState.next, PoolAct.loops, PoolAct.worker, PoolAct.poster,
        Option.elim] at hbody hidle ⊢ <;>
      constructor <;>
      grind [Function.update_apply, WorkerPc.Holds, PosterPc.Holds, StopPc.Holds]
  | test w =>
    simp only [Enabled] at he
    simp only [next]
    constructor <;> grind [Function.update_apply, WorkerPc.Holds, PosterPc.Holds, StopPc.Holds]
  | _ =>
    simp only [Enabled] at he
    simp only [next, PoolState.interrupt]
    constructor <;>
      grind [Function.update_apply, WorkerPc.Holds, PosterPc.Holds, StopPc.Holds, OneCall]

/-- A worker whose `isruning` is cleared waits only while somebody is about to notify it. -/
structure Awake (s : StopState ω π τ) : Prop where
  wait : ∀ w, s.isruning w = false → s.pool.worker w ≠ .wait
  blocked : ∀ w, s.isruning w = false → s.pool.worker w = .blocked →
    ∃ p, (s.stopper p).Notifies w

omit [DecidableEq ω] [DecidableEq π] in
lemma awake_init : Awake (init : StopState ω π τ) := by
  constructor <;> simp [init]

/-- A worker comes to its wait from the test of `isruning` only. -/
lemma wait_of_next {q : PoolState ω π τ} {b : PoolAct ω π τ} (he : q.Enabled b)
    (hw : (q.next b).worker w = .wait) : q.worker w = .wait ∨ b = .pushIdle w := by
  cases b <;> simp only [PoolState.Enabled] at he <;> simp only [PoolState.next] at hw <;>
    grind [Function.update_apply]

/-- A worker that is blocked has waited. -/
lemma blocked_of_next {q : PoolState ω π τ} {b : PoolAct ω π τ} (he : q.Enabled b)
    (hw : (q.next b).worker w = .blocked) : q.worker w = .blocked ∨ q.worker w = .wait := by
  cases b <;> simp only [PoolState.Enabled] at he <;> simp only [PoolState.next] at hw <;>
    grind [Function.update_apply]

omit [DecidableEq ω] [DecidableEq π] in
/-- The thread that clears `isruning` has the mutex, so that the worker is not about to wait. -/
lemma not_wait_of_store (hl : Locked s) (hp : Placed s) {p : π} {ws : List ω}
    (he : s.stopper p = .store w ws) : s.pool.worker w ≠ .wait := by
  intro hw
  have hleft : s.loop w ≠ .left := by
    intro hleft
    rcases hp.left w hleft with h | h <;> exact absurd (hw.symm.trans h) (by simp)
  have hworker := (hl.worker w).mpr ⟨hleft, Or.inr (Or.inl hw)⟩
  rw [(hl.thread p w).mpr (Or.inr ⟨ws, Or.inl he⟩)] at hworker
  exact absurd hworker (by simp)

omit [DecidableEq ω] in
/-- A thread that was not about to notify anybody has taken a step. -/
lemma Awake.of_stopper (ha : Awake s) {p : π} {pc pc' : StopPc ω}
    (hisruning : s'.isruning = s.isruning) (hworker : s'.pool.worker = s.pool.worker)
    (hstopper : s'.stopper = Function.update s.stopper p pc') (he : s.stopper p = pc)
    (hpc : ∀ w, ¬ pc.Notifies w) : Awake s' := by
  obtain ⟨hwait, hblocked⟩ := ha
  constructor
  · rwa [hisruning, hworker]
  · rw [hisruning, hworker, hstopper]
    intro w hw hb
    exact Exec.exists_update (P := fun pc => StopPc.Notifies pc w) (hblocked w hw hb)
      fun h => absurd (he ▸ h) (hpc w)

lemma Awake.step (ha : Awake s) (hl : Locked s) (hp : Placed s) (hst : s.Step a s') :
    Awake s' := by
  obtain ⟨he, rfl⟩ := hst
  cases a with
  | act a =>
    obtain ⟨hwait, hblocked⟩ := ha
    obtain ⟨he, -, hrunning, -⟩ := he
    constructor
    · intro w hw hnext
      rcases wait_of_next he hnext with hold | hpush
      · exact hwait w hw hold
      · exact absurd (hw.symm.trans (hrunning w hpush)) Bool.noConfusion
    · intro w hw hnext
      rcases blocked_of_next he hnext with hold | hold
      · exact hblocked w hw hold
      · exact absurd hold (hwait w hw)
  | stop p ws => exact ha.of_stopper rfl rfl rfl he.1 (by simp [StopPc.Notifies])
  | lockStop p w ws => exact ha.of_stopper rfl rfl rfl he.1 (by simp [StopPc.Notifies])
  | unlockStop p w ws => exact ha.of_stopper rfl rfl rfl he (by simp [StopPc.Notifies])
  | store p w ws =>
    have hw := not_wait_of_store hl hp he
    obtain ⟨hwait, hblocked⟩ := ha
    simp only [next]
    constructor
    · grind [Function.update_apply]
    · intro v hv hb
      by_cases hvw : v = w
      · subst hvw
        exact Exec.exists_update_self (P := fun pc => StopPc.Notifies pc v) ⟨ws, rfl⟩
      · have hvold : s.isruning v = false := by simpa [Function.update_of_ne hvw] using hv
        refine Exec.exists_update (P := fun pc => StopPc.Notifies pc v) (hblocked v hvold hb) ?_
        rintro ⟨_, h⟩
        exact absurd (he.symm.trans h) (by simp)
  | notifyAll p w ws =>
    obtain ⟨hwait, hblocked⟩ := ha
    simp only [next]
    constructor
    · grind [Function.update_apply]
    · intro v hv hb
      -- the worker is awake, and for the others nothing changes
      have hvw : v ≠ w := by
        rintro rfl
        simp only [Function.update_self] at hb
        split at hb
        · exact absurd hb (by simp)
        · contradiction
      have hbold : s.pool.worker v = .blocked := by simpa [Function.update_of_ne hvw] using hb
      refine Exec.exists_update (P := fun pc => StopPc.Notifies pc v) (hblocked v hv hbold) ?_
      rintro ⟨_, h⟩
      obtain ⟨rfl, -⟩ := StopPc.notifyAll.inj (he.symm.trans h)
      exact absurd rfl hvw
  | _ =>
    obtain ⟨hwait, hblocked⟩ := ha
    obtain ⟨-, hunlock, hleft⟩ := hp
    simp only [Enabled] at he
    simp only [next, PoolState.interrupt]
    constructor <;> grind [Function.update_apply]

/-- What every reachable state has. -/
structure Inv (s : StopState ω π τ) : Prop where
  placed : Placed s
  oneCall : OneCall s
  locked : Locked s
  awake : Awake s

omit [DecidableEq ω] [DecidableEq π] in
lemma inv_init : Inv (init : StopState ω π τ) :=
  ⟨placed_init, oneCall_init, locked_init, awake_init⟩

lemma Inv.step (hi : Inv s) (hst : s.Step a s') : Inv s' where
  placed := hi.placed.step hst
  oneCall := hi.oneCall.step hst
  locked := hi.locked.step hi.placed hi.oneCall hst
  awake := hi.awake.step hi.locked hi.placed hst

/-! ## After `Stop` -/

/-- `isruning` is cleared once and for all. -/
lemma isruning_step (hw : s.isruning w = false) (hst : s.Step a s') : s'.isruning w = false := by
  obtain ⟨-, rfl⟩ := hst
  cases a <;> simp only [next] <;> grind [Function.update_apply]

/-- A worker that a thread was to stop is stopped, or the thread still has it before it. -/
def Cleared (h : List (StopState ω π τ × StopAct ω π τ)) (s : StopState ω π τ) : Prop :=
  ∀ r p ws, (r, StopAct.stop p ws) ∈ h → ∀ w ∈ ws, s.isruning w = false ∨ w ∈ (s.stopper p).rest

omit [DecidableEq ω] in
@[simp] lemma rest_stopNext {ws : List ω} : (stopNext ws).rest = ws := by
  cases ws <;> rfl

/-- A thread goes on to the workers it has before it. -/
lemma rest_step (hst : s.Step a s') {p : π} (hw : w ∈ (s.stopper p).rest) :
    s'.isruning w = false ∨ w ∈ (s'.stopper p).rest := by
  obtain ⟨he, rfl⟩ := hst
  cases a <;> simp only [Enabled] at he <;> simp only [next] <;>
    grind [Function.update_apply, StopPc.rest, rest_stopNext]

/-- A call of `Stop` has all its workers before it. -/
lemma rest_stop {p : π} {ws : List ω} (hst : s.Step (.stop p ws) s') (hw : w ∈ ws) :
    w ∈ (s'.stopper p).rest := by
  obtain ⟨-, rfl⟩ := hst
  simpa [next] using hw

lemma cleared_run {h : List (StopState ω π τ × StopAct ω π τ)} {s₀ : StopState ω π τ}
    (hrun : Exec.Run Step s₀ h s) : Cleared h s := by
  induction hrun with
  | nil => exact fun _ _ _ hmem => absurd hmem List.not_mem_nil
  | snoc _ hst ih =>
    intro r p ws hmem w hw
    rcases List.mem_append.mp hmem with hmem | hlast
    · rcases ih r p ws hmem w hw with hfalse | hrest
      · exact Or.inl (isruning_step hfalse hst)
      · exact rest_step hst hrest
    · obtain ⟨rfl, rfl⟩ := Prod.mk.injEq .. ▸ List.mem_singleton.mp hlast
      exact Or.inr (rest_stop hst hw)

end StopState

namespace StopAct

variable {ω π τ : Type}

/-- The worker that takes the step. -/
def worker : StopAct ω π τ → Option ω
  | .act a => a.worker
  | .test w | .break w | .unlock w => some w
  | _ => none

/-- The thread that takes the step, in `Post` or in `Stop`. -/
def thread : StopAct ω π τ → Option π
  | .act a => a.poster
  | .stop p _ | .lockStop p _ _ | .store p _ _ | .notifyAll p _ _ | .unlockStop p _ _ => some p
  | _ => none

/-- The worker that takes a task to run it. -/
def takes : StopAct ω π τ → Option ω
  | .act (.takeSlot w _) | .act (.popQueue w _ _) => some w
  | _ => none

end StopAct

/-- How many steps a stopped worker has before it in the body, at most. -/
def WorkerPc.ahead : WorkerPc → ℕ
  | .takeSlot | .wait => 5
  | .popQueue | .blocked => 4
  | .lock | .woken => 3
  | .running | .pushIdle | .unlock => 2

namespace StopState

variable {ω π τ : Type} [DecidableEq ω] [DecidableEq π] {s s' : StopState ω π τ}
variable {a : StopAct ω π τ} {w : ω}

/-- How many steps a stopped worker has before it, at most. -/
def ahead (s : StopState ω π τ) (w : ω) : ℕ :=
  match s.loop w with
  | .body => (s.pool.worker w).ahead
  | .head | .unlock => 1
  | .left => 0

/-- How many tasks a stopped worker can still take. -/
def tasksAhead (s : StopState ω π τ) (w : ω) : ℕ := if 4 ≤ s.ahead w then 1 else 0

/-- The own steps of a stopped worker bring it nearer to the end of its loop, and no step takes it
away from there. -/
lemma ahead_step (hi : Inv s) (hw : s.isruning w = false) (hst : s.Step a s') :
    s'.ahead w + (if a.worker = some w then 1 else 0) ≤ s.ahead w := by
  obtain ⟨hwait, -⟩ := hi.awake
  obtain ⟨hhead, hunlock, hleft⟩ := hi.placed
  obtain ⟨he, rfl⟩ := hst
  cases a with
  | act a =>
    obtain ⟨he, hbody, hrunning, -⟩ := he
    cases a <;> simp only [PoolState.Enabled] at he <;>
      simp only [next, PoolState.next, ahead, StopAct.worker, PoolAct.worker, PoolAct.loops,
        Option.elim] at hbody hrunning ⊢ <;>
      grind [Function.update_apply, WorkerPc.ahead]
  | _ =>
    simp only [Enabled] at he
    simp only [next, PoolState.interrupt, ahead, StopAct.worker]
    grind [Function.update_apply, WorkerPc.ahead]

/-- A worker that takes a task has four steps before it at least, and two behind it. -/
lemma ahead_takes (ht : a.takes = some w) (hst : s.Step a s') : 4 ≤ s.ahead w ∧ s'.ahead w = 2 := by
  obtain ⟨he, rfl⟩ := hst
  cases a with
  | act a =>
    obtain ⟨he, hbody, -, -⟩ := he
    cases a <;> simp only [StopAct.takes] at ht <;> simp only [PoolState.Enabled] at he <;>
      simp only [next, PoolState.next, ahead, PoolAct.worker, PoolAct.loops,
        Option.elim] at hbody ⊢ <;>
      grind [Function.update_apply, WorkerPc.ahead]
  | _ => exact absurd ht (by simp [StopAct.takes])

lemma tasksAhead_step (hi : Inv s) (hw : s.isruning w = false) (hst : s.Step a s') :
    s'.tasksAhead w + (if a.takes = some w then 1 else 0) ≤ s.tasksAhead w := by
  by_cases htake : a.takes = some w
  · obtain ⟨hfour, htwo⟩ := ahead_takes htake hst
    simp [tasksAhead, hfour, htwo, htake]
  · have hle := ahead_step hi hw hst
    simp only [tasksAhead, if_neg htake]
    split_ifs <;> omega

/-- A stopped worker is stopped for the rest of the run, and each of its steps counts. -/
lemma ahead_run {h : List (StopState ω π τ × StopAct ω π τ)} (hi : Inv s)
    (hw : s.isruning w = false) (hrun : Exec.Run Step s h s') :
    (Inv s' ∧ s'.isruning w = false) ∧
      s'.ahead w + h.countP (fun e => e.2.worker = some w) ≤ s.ahead w ∧
      s'.tasksAhead w + h.countP (fun e => e.2.takes = some w) ≤ s.tasksAhead w := by
  induction hrun with
  | nil => simp [hi, hw]
  | snoc _ hst ih =>
    obtain ⟨⟨hi, hw⟩, hsteps, htasks⟩ := ih
    have hahead := ahead_step hi hw hst
    have htasksAhead := tasksAhead_step hi hw hst
    refine ⟨⟨hi.step hst, isruning_step hw hst⟩, ?_, ?_⟩
    · rw [List.countP_append, List.countP_singleton]
      simp only [decide_eq_true_eq]
      omega
    · rw [List.countP_append, List.countP_singleton]
      simp only [decide_eq_true_eq]
      omega

omit [DecidableEq ω] [DecidableEq π] in
/-- The thread that has the mutex of a worker is not kept from giving it back. -/
lemma Inv.thread_moves (hi : Inv s) {p : π} (hmutex : s.pool.mutex w = some (some p)) :
    ∃ a, s.Enabled a ∧ a.thread = some p := by
  rcases (hi.locked.thread p w).mp hmutex with ⟨d, hpc⟩ | ⟨ws, hpc⟩
  · have hidle : s.stopper p = .idle := by
      by_contra hne
      rcases hpc with h | h <;> exact absurd (h.symm.trans (hi.oneCall p hne)) (by simp)
    rcases hpc with h | h
    · exact ⟨.act (.notify p w d), ⟨h, by simp [PoolAct.worker], by simp,
        by simp [PoolAct.poster, hidle]⟩, rfl⟩
    · exact ⟨.act (.unlockPoster p w d), ⟨h, by simp [PoolAct.worker], by simp,
        by simp [PoolAct.poster, hidle]⟩, rfl⟩
  · rcases hpc with h | h | h
    · exact ⟨.store p w ws, h, rfl⟩
    · exact ⟨.notifyAll p w ws, h, rfl⟩
    · exact ⟨.unlockStop p w ws, h, rfl⟩

omit [DecidableEq ω] [DecidableEq π] in
/-- A step of the worker in the body of its loop. -/
lemma enabled_act {b : PoolAct ω π τ} (he : s.pool.Enabled b) (hbody : s.loop w = .body)
    (hworker : b.worker = some w) (hpush : b ≠ .pushIdle w) (hposter : b.poster = none) :
    ∃ a, s.Enabled a ∧ a.worker = some w := by
  refine ⟨.act b, ⟨he, ?_, ?_, ?_⟩, hworker⟩
  · intro v hv
    obtain rfl : w = v := Option.some.inj (hworker.symm.trans hv)
    exact hbody
  · rintro v rfl
    obtain rfl : v = w := Option.some.inj hworker
    exact absurd rfl hpush
  · simp [hposter]

omit [DecidableEq ω] [DecidableEq π] in
/-- A stopped worker that has not left its loop is about to take a step, unless a thread has its
mutex. -/
lemma Inv.worker_moves (hi : Inv s) (hw : s.isruning w = false) (hleft : s.loop w ≠ .left)
    (hfree : ∀ p, s.pool.mutex w ≠ some (some p)) : ∃ a, s.Enabled a ∧ a.worker = some w := by
  have hmutex : ¬ (s.pool.worker w).Holds → s.pool.mutex w = none := by
    intro hno
    rcases ho : s.pool.mutex w with _ | _ | p
    · rfl
    · exact absurd ((hi.locked.worker w).mp ho).2 hno
    · exact absurd ho (hfree p)
  rcases hloop : s.loop w
  · exact ⟨.test w, hloop, rfl⟩
  · rcases hpc : s.pool.worker w
    · rcases hslot : s.pool.slot w with _ | t
      · exact enabled_act (b := .slotNull w) ⟨hpc, hslot⟩ hloop rfl (by simp) rfl
      · exact enabled_act (b := .takeSlot w t) ⟨hpc, hslot⟩ hloop rfl (by simp) rfl
    · exact enabled_act (b := .run w) hpc hloop rfl (by simp) rfl
    · rcases hqueue : s.pool.taskQueue with _ | ⟨t, ts⟩
      · exact enabled_act (b := .queueEmpty w) ⟨hpc, hqueue⟩ hloop rfl (by simp) rfl
      · exact enabled_act (b := .popQueue w t ts) ⟨hpc, hqueue⟩ hloop rfl (by simp) rfl
    · have hnone := hmutex (by simp [hpc, WorkerPc.Holds])
      exact enabled_act (b := .lock w) ⟨hpc, hnone⟩ hloop rfl (by simp) rfl
    · exact ⟨.break w, ⟨hloop, hpc, hw⟩, rfl⟩
    · exact absurd hpc (hi.awake.wait w hw)
    · -- somebody is about to notify it, with its mutex
      obtain ⟨p, ws, hstopper⟩ := hi.awake.blocked w hw hpc
      exact absurd ((hi.locked.thread p w).mpr (Or.inr ⟨ws, Or.inr (Or.inl hstopper)⟩)) (hfree p)
    · have hnone := hmutex (by simp [hpc, WorkerPc.Holds])
      exact enabled_act (b := .relock w) ⟨hpc, hnone⟩ hloop rfl (by simp) rfl
    · exact enabled_act (b := .unlock w) hpc hloop rfl (by simp) rfl
  · exact ⟨.unlock w, hloop, rfl⟩
  · exact absurd hloop hleft

end StopState

/-- **A stopped group comes to an end.**  When a call of `Stop` has returned, each of its workers
takes at most five more steps and one more task, whatever the other threads do.  Until it has left
its loop, it is about to take a step, or a thread has its mutex and is about to take one. -/
theorem workGroup_stops {ω π τ : Type} [DecidableEq ω] [DecidableEq π]
    {h h' : List (StopState ω π τ × StopAct ω π τ)} {r s s' : StopState ω π τ} {p : π} {w : ω}
    {ws : List ω} (hrun : Exec.Run StopState.Step .init h s) (hstop : (r, .stop p ws) ∈ h)
    (hreturned : s.stopper p = .idle) (hw : w ∈ ws) (hnext : Exec.Run StopState.Step s h' s') :
    h'.countP (fun e => e.2.worker = some w) ≤ 5 ∧
      h'.countP (fun e => e.2.takes = some w) ≤ 1 ∧
      (s'.loop w ≠ .left → (∃ a, s'.Enabled a ∧ a.worker = some w) ∨
        ∃ q a, s'.pool.mutex w = some (some q) ∧ s'.Enabled a ∧ a.thread = some q) := by
  have hi := hrun.invariant_all StopState.Inv StopState.inv_init fun _ _ _ hi hst => hi.step hst
  have hisruning : s.isruning w = false := by
    rcases StopState.cleared_run hrun r p ws hstop w hw with hfalse | hrest
    · exact hfalse
    · rw [hreturned] at hrest
      exact absurd hrest List.not_mem_nil
  obtain ⟨⟨hi', hisruning'⟩, hsteps, htasks⟩ := StopState.ahead_run hi hisruning hnext
  have hfive : s.ahead w ≤ 5 := by
    unfold StopState.ahead
    split
    · cases s.pool.worker w <;> simp [WorkerPc.ahead]
    all_goals omega
  have hone : s.tasksAhead w ≤ 1 := by
    unfold StopState.tasksAhead
    split <;> omega
  refine ⟨by omega, by omega, ?_⟩
  intro hleft
  by_cases hfree : ∃ q, s'.pool.mutex w = some (some q)
  · obtain ⟨q, hq⟩ := hfree
    obtain ⟨a, he, hthread⟩ := hi'.thread_moves hq
    exact Or.inr ⟨q, a, hq, he, hthread⟩
  · exact Or.inl (hi'.worker_moves hisruning' hleft (not_exists.mp hfree))

namespace StopState

/-- The worker registers itself and waits, and `Stop` finds it there. -/
def waitAndStop : List (StopAct Unit Unit Unit) :=
  [.test (), .act (.slotNull ()), .act (.queueEmpty ()), .act (.lock ()), .act (.pushIdle ()),
    .act (.wait ()), .stop () [()], .lockStop () () [], .store () () [], .notifyAll () () [],
    .unlockStop () () []]

def stoppedGroup : StopState Unit Unit Unit :=
  Exec.final next init (waitAndStop.map fun a _ => a)

lemma run_stoppedGroup :
    Exec.Run Step init (Exec.trace next init (waitAndStop.map fun a _ => a)) stoppedGroup := by
  refine Exec.Run.script _ ?_
  simp [Exec.Admits, Exec.trace, waitAndStop, Enabled, next, init, PoolState.Enabled,
    PoolState.next, PoolState.init, PoolAct.worker, PoolAct.poster, PoolAct.loops, stopNext]

end StopState

/-- The worker is out of `cv.wait`, and its mutex is free. -/
theorem workGroup_stops_stoppedGroup :
    ∃ a, StopState.stoppedGroup.Enabled a ∧ a.worker = some () := by
  have hnone : StopState.stoppedGroup.pool.mutex () = none := rfl
  obtain ⟨-, -, hmoves⟩ := workGroup_stops (w := ()) StopState.run_stoppedGroup
    (List.mem_of_getElem? (i := 6) rfl) rfl (List.mem_singleton.mpr rfl) .nil
  rcases hmoves (by decide) with hworker | ⟨_, _, hmutex, -⟩
  · exact hworker
  · rw [hnone] at hmutex
    exact absurd hmutex (by simp)

end MTRpc
