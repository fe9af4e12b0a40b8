import MTRpc.Lib.Held
import MTRpc.Thread.WorkPool

/-!
# The task slot of a worker

`RunTask` asserts that the slot of the worker that `Post` has taken out of the idle list is empty.
A registration in the idle list is good for one task: it passes from the list to a poster, from the
poster to the slot, and ends when the worker takes its slot.  `cv.wait` may return without a
notification, though, and `Worker::loop` does not look whether its registration is still there: it
registers itself again.

`InterruptAct` adds these returns to the steps of the work group.  `taskSlot_notOverwritten` says
that the slot is never overwritten in a run in which no worker registers itself while an earlier
registration is good, which is so in every run without such returns
(`registersOnce_of_notified`).  No task runs more often than it is posted, in any run
(`ran_le_posted`).
-/

namespace MTRpc

open Held

/-- The steps of the work group, and a return of `cv.wait` without a notification. -/
inductive InterruptAct (ω π τ : Type)
  | act (a : PoolAct ω π τ)
  | interrupt (w : ω)

namespace PoolState

variable {ω π τ : Type} [DecidableEq ω] [DecidableEq π]

/-- `cv.wait` goes on to take the mutex again. -/
def interrupt (s : PoolState ω π τ) (w : ω) : PoolState ω π τ :=
  { s with worker := Function.update s.worker w .woken }

/-- The steps, with interrupts. -/
def InterruptStep (s : PoolState ω π τ) : InterruptAct ω π τ → PoolState ω π τ → Prop
  | .act a, s' => s.Step a s'
  | .interrupt w, s' => s.worker w = .blocked ∧ s' = s.interrupt w

/-- No worker is twice in the idle list, and no assertion of `RunTask` has failed. -/
structure SlotSafe (s : PoolState ω π τ) : Prop where
  nodup : s.idleWorker.Nodup
  asserted : ∀ p, s.poster p ≠ .failed

/-- The condition on the steps: a worker registers itself only when it is not in the idle list, no
poster has taken it out of the list without filling its slot, and its slot is empty. -/
def RegistersOnce (s : PoolState ω π τ) (a : InterruptAct ω π τ) : Prop :=
  ∀ w, a = .act (.pushIdle w) →
    w ∉ s.idleWorker ∧ s.slot w = none ∧ ∀ p t, s.poster p ≠ .setSlot w t

/-! ## A registration is good for one task -/

/-- What has become of the registrations of a worker: at most one is in the idle list, in the hands
of a poster or a task in the slot. -/
structure Registered (s : PoolState ω π τ) : Prop extends SlotSafe s where
  idle : ∀ w ∈ s.idleWorker, s.slot w = none ∧ ∀ p t, s.poster p ≠ .setSlot w t
  claimed : ∀ p w t, s.poster p = .setSlot w t → s.slot w = none
  unique : ∀ p q w t t', s.poster p = .setSlot w t → s.poster q = .setSlot w t' → p = q

variable {s s' : PoolState ω π τ} {a : InterruptAct ω π τ}

omit [DecidableEq ω] [DecidableEq π] in
lemma registered_init : Registered (init : PoolState ω π τ) where
  nodup := List.nodup_nil
  asserted := by simp [init]
  idle := by simp [init]
  claimed := by simp [init]
  unique := by simp [init]

lemma Registered.step (hr : Registered s) (hok : s.RegistersOnce a) (hst : s.InterruptStep a s') :
    Registered s' := by
  obtain ⟨⟨hnodup, hasserted⟩, hidle, hclaimed, hunique⟩ := hr
  cases a with
  | interrupt w =>
    obtain ⟨-, rfl⟩ := hst
    exact ⟨⟨hnodup, hasserted⟩, hidle, hclaimed, hunique⟩
  | act a =>
    obtain ⟨he, rfl⟩ := hst
    -- the condition is about one of the steps
    have hpush : ∀ w, a = .pushIdle w → w ∉ s.idleWorker ∧ s.slot w = none ∧
        ∀ p t, s.poster p ≠ .setSlot w t := fun w h => hok w (congrArg _ h)
    cases a <;> simp only [Enabled, next] at he ⊢ <;> refine ⟨⟨?_, ?_⟩, ?_, ?_, ?_⟩ <;>
      grind [Function.update_apply]

/-! ## Without interrupts -/

omit [DecidableEq ω] [DecidableEq π] in
/-- A worker that has been notified has no registration that is good. -/
lemma registersOnce_of_parking (hk : Parking s) (ha : Announced s) {w : ω}
    (he : s.worker w = .pushIdle) :
    w ∉ s.idleWorker ∧ s.slot w = none ∧ ∀ p t, s.poster p ≠ .setSlot w t := by
  have hparked : ¬ (s.worker w).Parked := by simp [he, WorkerPc.Parked]
  refine ⟨fun hmem => hparked (hk.idle w hmem), ?_, ?_⟩
  · by_contra hslot
    rcases ha w hslot with ⟨p, hwakes⟩ | htakes
    · exact hparked (hk.popped p w (Or.inl hwakes)).1
    · exact absurd htakes (by simp [he, WorkerPc.Takes])
  · intro p t hp
    exact hparked (hk.popped p w (Or.inr ⟨t, hp⟩)).1

/-- What a run without interrupts preserves. -/
structure Notified (s : PoolState ω π τ) : Prop where
  locked : Locked s
  parking : Parking s
  announced : Announced s

/-- `cv.wait` returns only after a notification. -/
def NoInterrupt (_ : PoolState ω π τ) : InterruptAct ω π τ → Prop
  | .act _ => True
  | .interrupt _ => False

lemma Notified.step (hn : Notified s) (hok : NoInterrupt s a) (hst : s.InterruptStep a s') :
    Notified s' := by
  cases a with
  | interrupt w => exact absurd hok not_false
  | act a =>
    exact ⟨hn.locked.step hst, hn.parking.step hst, hn.announced.step hn.locked hn.parking hst⟩

/-- Without interrupts, each worker registers itself once. -/
theorem registersOnce_of_notified {h : List (PoolState ω π τ × InterruptAct ω π τ)}
    (hrun : Exec.Run InterruptStep .init h s) (hok : Exec.Admits NoInterrupt h) :
    Exec.Admits RegistersOnce h := by
  have hinit : Notified (init : PoolState ω π τ) :=
    ⟨locked_init, parking_init, fun _ hw => absurd rfl hw⟩
  have hinv := hrun.always hinit (fun _ _ _ hn hok hst => hn.step hok hst) hok
  rintro ⟨u, a⟩ hmem w rfl
  obtain ⟨_, hst⟩ := hrun.enabled _ hmem
  have hn := hinv.1 _ hmem
  exact registersOnce_of_parking hn.parking hn.announced hst.1

/-! ## Each task runs once -/

end PoolState

namespace InterruptAct

variable {ω π τ : Type}

/-- The task that the step takes to run it. -/
def runs : InterruptAct ω π τ → List τ
  | .act (.takeSlot _ t) => [t]
  | .act (.popQueue _ t _) => [t]
  | _ => []

/-- The task that the step posts. -/
def posts : InterruptAct ω π τ → List τ
  | .act (.post _ t) => [t]
  | _ => []

end InterruptAct

/-- The task that a poster is about to hand on. -/
def PosterPc.carried {ω τ : Type} : PosterPc ω τ → Option τ
  | .popIdle t | .push t | .setSlot _ t => some t
  | _ => none

/-- Where a task can be outside the queue. -/
inductive PoolPlace (ω π : Type)
  | slot (w : ω)
  | poster (p : π)
deriving DecidableEq

namespace PoolState

variable {ω π τ : Type}

/-- The tasks that the workers have run, one entry for each time. -/
def ran (h : List (PoolState ω π τ × InterruptAct ω π τ)) : List τ := h.flatMap fun p => p.2.runs

/-- The tasks for which `Post` has been called, one entry for each call. -/
def posted (h : List (PoolState ω π τ × InterruptAct ω π τ)) : List τ :=
  h.flatMap fun p => p.2.posts

/-- The tasks outside the queue. -/
def content (s : PoolState ω π τ) : PoolPlace ω π → Option τ
  | .slot w => s.slot w
  | .poster p => (s.poster p).carried

variable [DecidableEq τ] {s s' : PoolState ω π τ} {a : InterruptAct ω π τ}
  {h : List (PoolState ω π τ × InterruptAct ω π τ)}

/-- The runs of a task, its places in the queue and those outside make no more than the calls of
`Post`. -/
def Accounted (h : List (PoolState ω π τ × InterruptAct ω π τ)) (s : PoolState ω π τ) : Prop :=
  ∀ t, ((ran h).count t : ℕ∞) + (s.taskQueue.count t + held s.content t) ≤ (posted h).count t

/-- A step that accounts for what it runs and posts. -/
lemma Accounted.snoc (hacc : Accounted h s)
    (hstep : ∀ t, (a.runs.count t : ℕ∞) + (s'.taskQueue.count t + held s'.content t)
      ≤ s.taskQueue.count t + held s.content t + a.posts.count t) :
    Accounted (h ++ [(s, a)]) s' := by
  intro t
  have hran : (ran (h ++ [(s, a)])).count t = (ran h).count t + a.runs.count t := by
    rw [ran, List.flatMap_append, List.flatMap_singleton, List.count_append]
    rfl
  have hposted : (posted (h ++ [(s, a)])).count t = (posted h).count t + a.posts.count t := by
    rw [posted, List.flatMap_append, List.flatMap_singleton, List.count_append]
    rfl
  rw [hran, hposted, Nat.cast_add, Nat.cast_add, add_assoc]
  calc ((ran h).count t : ℕ∞) + (a.runs.count t + (s'.taskQueue.count t + held s'.content t))
      ≤ (ran h).count t + (s.taskQueue.count t + held s.content t + a.posts.count t) :=
        add_le_add_right (hstep t) _
    _ = (ran h).count t + (s.taskQueue.count t + held s.content t) + a.posts.count t :=
        (add_assoc _ _ _).symm
    _ ≤ (posted h).count t + a.posts.count t := add_le_add_left (hacc t) _

/-- No task moves. -/
lemma Accounted.keep (hacc : Accounted h s) (hqueue : s'.taskQueue = s.taskQueue)
    (hcontent : s'.content = s.content) (hruns : a.runs = []) : Accounted (h ++ [(s, a)]) s' := by
  refine hacc.snoc fun t => ?_
  rw [hqueue, hcontent, hruns, List.count_nil, Nat.cast_zero, zero_add]
  exact le_self_add

variable [DecidableEq ω] [DecidableEq π]

omit [DecidableEq τ] in
lemma content_slot {w : ω} {o : Option τ} (hslot : s'.slot = Function.update s.slot w o)
    (hposter : s'.poster = s.poster) :
    s'.content = Function.update s.content (.slot w) o := by
  funext x
  cases x with
  | slot v =>
    by_cases hv : v = w
    · subst hv
      simp [content, hslot]
    · simp [content, hslot, hv]
  | poster p => simp [content, hposter]

omit [DecidableEq τ] in
lemma content_poster {p : π} {pc : PosterPc ω τ} (hslot : s'.slot = s.slot)
    (hposter : s'.poster = Function.update s.poster p pc) :
    s'.content = Function.update s.content (.poster p) pc.carried := by
  funext x
  cases x with
  | slot w => simp [content, hslot]
  | poster q =>
    by_cases hq : q = p
    · subst hq
      simp [content, hposter]
    · simp [content, hposter, hq]

/-- A poster that goes on with the task it has. -/
lemma Accounted.poster (hacc : Accounted h s) {p : π} {pc : PosterPc ω τ}
    (hslot : s'.slot = s.slot) (hposter : s'.poster = Function.update s.poster p pc)
    (hcarried : pc.carried = (s.poster p).carried) (hqueue : s'.taskQueue = s.taskQueue)
    (hruns : a.runs = []) : Accounted (h ++ [(s, a)]) s' := by
  refine hacc.keep hqueue ?_ hruns
  rw [content_poster hslot hposter, hcarried]
  exact Function.update_eq_self (.poster p) s.content

/-- A worker takes the task in its slot. -/
lemma Accounted.takeSlot (hacc : Accounted h s) {w : ω} {u : τ} (hu : s.slot w = some u)
    (hslot : s'.slot = Function.update s.slot w none) (hposter : s'.poster = s.poster)
    (hqueue : s'.taskQueue = s.taskQueue) (hruns : a.runs = [u]) :
    Accounted (h ++ [(s, a)]) s' := by
  refine hacc.snoc fun t => ?_
  have htake := held_take s.content (.slot w) t
  rw [show s.content (.slot w) = some u from hu, one_some] at htake
  rw [hruns, hqueue, content_slot hslot hposter, ← htake, add_left_comm, add_comm (held _ t)]
  exact le_self_add

/-- A poster puts its task into a slot, empty or not. -/
lemma Accounted.fill (hacc : Accounted h s) {p : π} {w : ω} {u : τ} {pc : PosterPc ω τ}
    (hu : s.poster p = .setSlot w u) (hslot : s'.slot = Function.update s.slot w (some u))
    (hposter : s'.poster = Function.update s.poster p pc) (hpc : pc.carried = none)
    (hqueue : s'.taskQueue = s.taskQueue) (hruns : a.runs = []) :
    Accounted (h ++ [(s, a)]) s' := by
  -- first the poster gives its task away, then the slot is filled
  let m : PoolState ω π τ := { s with poster := s'.poster }
  have hm : m.content = Function.update s.content (.poster p) none := by
    rw [← hpc]
    exact content_poster rfl hposter
  have hcontent : s'.content = Function.update (Function.update s.content (.poster p) none)
      (.slot w) (s.content (.poster p)) := by
    rw [← hm, content, hu]
    exact content_slot hslot rfl
  refine hacc.snoc fun t => ?_
  rw [hruns, hqueue, hcontent, List.count_nil, Nat.cast_zero, zero_add]
  exact (add_le_add_right (held_move_le _ _ _ t) _).trans le_self_add

/-- A poster pushes its task to the queue. -/
lemma Accounted.push (hacc : Accounted h s) {p : π} {u : τ} (hu : s.poster p = .push u)
    (hslot : s'.slot = s.slot) (hposter : s'.poster = Function.update s.poster p .drain)
    (hqueue : s'.taskQueue = s.taskQueue ++ [u]) (hruns : a.runs = []) :
    Accounted (h ++ [(s, a)]) s' := by
  refine hacc.snoc fun t => ?_
  have htake := held_take s.content (.poster p) t
  rw [show s.content (.poster p) = some u by rw [content, hu]; rfl, one_some] at htake
  rw [hruns, hqueue, content_poster hslot hposter, ← htake, List.count_append, List.count_nil,
    Nat.cast_zero, zero_add, Nat.cast_add, add_assoc, add_comm (held _ t)]
  exact le_self_add

/-- A task is posted. -/
lemma Accounted.post (hacc : Accounted h s) {p : π} {u : τ} (hidle : s.poster p = .idle)
    (hslot : s'.slot = s.slot) (hposter : s'.poster = Function.update s.poster p (.popIdle u))
    (hqueue : s'.taskQueue = s.taskQueue) (hruns : a.runs = []) (hposts : a.posts = [u]) :
    Accounted (h ++ [(s, a)]) s' := by
  refine hacc.snoc fun t => ?_
  have hempty : s.content (.poster p) = none := by rw [content, hidle]; rfl
  rw [hruns, hqueue, hposts, content_poster hslot hposter, held_put hempty, List.count_nil,
    Nat.cast_zero, zero_add, ← add_assoc, ← one_some]
  exact le_rfl

/-- One step. -/
lemma Accounted.step (hacc : Accounted h s) (hst : s.InterruptStep a s') :
    Accounted (h ++ [(s, a)]) s' := by
  cases a with
  | interrupt w =>
    obtain ⟨-, rfl⟩ := hst
    exact hacc.keep rfl rfl rfl
  | act a =>
    obtain ⟨he, rfl⟩ := hst
    cases a with
    | takeSlot w u => exact hacc.takeSlot he.2 rfl rfl rfl rfl
    | popQueue w u us =>
      -- the task leaves the queue
      refine hacc.snoc fun t => ?_
      change (([u].count t : ℕ) : ℕ∞) + (us.count t + held s.content t) ≤ _
      rw [he.2, ← add_assoc, ← Nat.cast_add, ← List.count_append, List.singleton_append]
      exact le_self_add
    | slotNull w => exact hacc.keep rfl rfl rfl
    | run w => exact hacc.keep rfl rfl rfl
    | queueEmpty w => exact hacc.keep rfl rfl rfl
    | lock w => exact hacc.keep rfl rfl rfl
    | pushIdle w => exact hacc.keep rfl rfl rfl
    | wait w => exact hacc.keep rfl rfl rfl
    | relock w => exact hacc.keep rfl rfl rfl
    | unlock w => exact hacc.keep rfl rfl rfl
    | post p u => exact hacc.post he rfl rfl rfl rfl rfl
    | popIdle p u w ws => exact hacc.poster rfl rfl (by rw [he.1]; rfl) rfl rfl
    | idleEmpty p u => exact hacc.poster rfl rfl (by rw [he.1]; rfl) rfl rfl
    | setSlot p w u => exact hacc.fill he.1 rfl rfl rfl rfl rfl
    | overwrite p w u => exact hacc.fill he.1 rfl rfl rfl rfl rfl
    | lockPoster p w d => exact hacc.poster rfl rfl (by rw [he.1]; rfl) rfl rfl
    | notify p w d => exact hacc.poster rfl rfl (by rw [show s.poster p = _ from he]; rfl) rfl rfl
    | unlockPoster p w d =>
      refine hacc.poster rfl rfl ?_ rfl rfl
      rw [show s.poster p = .unlock w d from he]
      cases d <;> rfl
    | push p u => exact hacc.push he rfl rfl rfl rfl
    | drain p w ws => exact hacc.poster rfl rfl (by rw [he.1]; rfl) rfl rfl
    | drained p => exact hacc.poster rfl rfl (by rw [he.1]; rfl) rfl rfl

/-- Along every run, a task is run no more often than it is posted. -/
theorem ran_le_posted (hrun : Exec.Run InterruptStep .init h s) (t : τ) :
    (ran h).count t ≤ (posted h).count t := by
  have hacc : Accounted h s := by
    induction hrun with
    | nil =>
      intro t
      rw [held_empty]
      · exact le_rfl
      · intro x
        cases x <;> rfl
    | snoc _ hst ih => exact ih.step hst
  have hle : ((ran h).count t : ℕ∞) ≤ (posted h).count t := le_self_add.trans (hacc t)
  exact_mod_cast hle

end PoolState

/-! ## The claim for the slot -/

open PoolState

/-- In every run with any number of workers and posters, and with interrupts, in which each worker
registers itself once: no worker is twice in the idle list, no assertion fails, and no task is run
more often than it is posted. -/
theorem taskSlot_notOverwritten {ω π τ : Type} [DecidableEq ω] [DecidableEq π] [DecidableEq τ]
    {h : List (PoolState ω π τ × InterruptAct ω π τ)} {s : PoolState ω π τ}
    (hrun : Exec.Run InterruptStep .init h s) (hok : Exec.Admits RegistersOnce h) :
    Exec.Always SlotSafe h s ∧ ∀ t, (ran h).count t ≤ (posted h).count t := by
  have hinv := hrun.always registered_init (fun _ _ _ hr hok hst => hr.step hok hst) hok
  exact ⟨⟨fun p hp => (hinv.1 p hp).toSlotSafe, hinv.last.toSlotSafe⟩, ran_le_posted hrun⟩

/-- A step of the work group, in a run with interrupts. -/
lemma PoolState.interruptRun_act {ω π τ : Type} [DecidableEq ω] [DecidableEq π]
    {h : List (PoolState ω π τ × InterruptAct ω π τ)} {s : PoolState ω π τ} (a : PoolAct ω π τ)
    (hrun : Exec.Run InterruptStep .init h s) (he : s.Enabled a) :
    Exec.Run InterruptStep .init (h ++ [(s, .act a)]) (s.next a) :=
  hrun.snoc ⟨he, rfl⟩

lemma PoolState.interruptRun_interrupt {ω π τ : Type} [DecidableEq ω] [DecidableEq π]
    {h : List (PoolState ω π τ × InterruptAct ω π τ)} {s : PoolState ω π τ} (w : ω)
    (hrun : Exec.Run InterruptStep .init h s) (he : s.worker w = .blocked) :
    Exec.Run InterruptStep .init (h ++ [(s, .interrupt w)]) (s.interrupt w) :=
  hrun.snoc ⟨he, rfl⟩

/-- The one worker registers itself, is interrupted and registers itself again, and each of two
posters takes one of the registrations. -/
theorem taskSlot_overwritten :
    ¬ ∀ (h : List (PoolState Unit Bool Unit × InterruptAct Unit Bool Unit))
      (s : PoolState Unit Bool Unit), Exec.Run InterruptStep .init h s →
        Exec.Always SlotSafe h s := by
  intro hall
  have h₀ : Exec.Run InterruptStep .init [] (.init : PoolState Unit Bool Unit) := .nil
  have h₁ := interruptRun_act (.slotNull ()) h₀ ⟨rfl, rfl⟩
  have h₂ := interruptRun_act (.queueEmpty ()) h₁ ⟨rfl, rfl⟩
  have h₃ := interruptRun_act (.lock ()) h₂ ⟨rfl, rfl⟩
  have h₄ := interruptRun_act (.pushIdle ()) h₃ rfl
  have h₅ := interruptRun_act (.wait ()) h₄ rfl
  have h₆ := interruptRun_interrupt () h₅ rfl
  have h₇ := interruptRun_act (.relock ()) h₆ ⟨rfl, rfl⟩
  have h₈ := interruptRun_act (.unlock ()) h₇ rfl
  have h₉ := interruptRun_act (.slotNull ()) h₈ ⟨rfl, rfl⟩
  have h₁₀ := interruptRun_act (.queueEmpty ()) h₉ ⟨rfl, rfl⟩
  have h₁₁ := interruptRun_act (.lock ()) h₁₀ ⟨rfl, rfl⟩
  have h₁₂ := interruptRun_act (.pushIdle ()) h₁₁ rfl
  -- the first poster fills the slot
  have h₁₃ := interruptRun_act (.post false ()) h₁₂ rfl
  have h₁₄ := interruptRun_act (.popIdle false () () [()]) h₁₃ ⟨rfl, rfl⟩
  have h₁₅ := interruptRun_act (.setSlot false () ()) h₁₄ ⟨rfl, rfl⟩
  -- the second one finds it full
  have h₁₆ := interruptRun_act (.post true ()) h₁₅ rfl
  have h₁₇ := interruptRun_act (.popIdle true () () []) h₁₆ ⟨rfl, rfl⟩
  have h₁₈ := interruptRun_act (.overwrite true () ()) h₁₇ ⟨rfl, Option.some_ne_none ()⟩
  exact (hall _ _ h₁₈).last.asserted true rfl

/-- An interrupted worker finds its task, and runs it. -/
theorem taskSlot_notOverwritten_interrupted :
    ∃ (h : List (PoolState Unit Unit Unit × InterruptAct Unit Unit Unit))
      (s : PoolState Unit Unit Unit), ran h = [()] ∧ Exec.Always SlotSafe h s ∧
        ∀ t, (ran h).count t ≤ (posted h).count t := by
  have h₀ : Exec.Run InterruptStep .init [] (.init : PoolState Unit Unit Unit) := .nil
  have h₁ := interruptRun_act (.slotNull ()) h₀ ⟨rfl, rfl⟩
  have h₂ := interruptRun_act (.queueEmpty ()) h₁ ⟨rfl, rfl⟩
  have h₃ := interruptRun_act (.lock ()) h₂ ⟨rfl, rfl⟩
  have h₄ := interruptRun_act (.pushIdle ()) h₃ rfl
  have h₅ := interruptRun_act (.wait ()) h₄ rfl
  have h₆ := interruptRun_act (.post () ()) h₅ rfl
  have h₇ := interruptRun_act (.popIdle () () () []) h₆ ⟨rfl, rfl⟩
  have h₈ := interruptRun_act (.setSlot () () ()) h₇ ⟨rfl, rfl⟩
  have h₉ := interruptRun_interrupt () h₈ rfl
  have h₁₀ := interruptRun_act (.relock ()) h₉ ⟨rfl, rfl⟩
  have h₁₁ := interruptRun_act (.unlock ()) h₁₀ rfl
  have h₁₂ := interruptRun_act (.takeSlot () ()) h₁₁ ⟨rfl, rfl⟩
  refine ⟨_, _, rfl, taskSlot_notOverwritten h₁₂ ?_⟩
  -- the worker registers itself in the first state only
  simp [Exec.Admits, RegistersOnce, next, init]

end MTRpc
