import MTRpc.Http.Text
import MTRpc.Lib.Exec
import MTRpc.Lib.Held

/-!
# The queue without locks

`NoLockQueue` is an array of entries.  `Put` draws a ticket from `producer_id`, stores its task in
the entry with this number and, when a worker is registered there, hands the entry's task to that
worker's slot (`RunTask`).  `Get` draws a ticket from `cusume_id` and takes the entry's task or,
when there is none, registers its worker there and waits.

Nothing is ever cleared: a task that was handed over stays in its entry, and so does the registered
worker.  Neither does `Put` look whether the entry is free, and the tickets are `int`s, which become
negative.  `handsOutOnce` says that each task is handed out once in the runs in which none of this
matters, step by step (`Unharmed`).
-/

namespace MTRpc

open Held

/-- `TaskEntry` -/
structure TaskEntry (ω τ : Type) where
  task : Option τ
  worker : Option ω
  /-- The task has been read for `RunTask`; the source does not record it. -/
  handed : Bool

/-- Where a worker stands in `NoLockWorker::loop`. -/
inductive NoLockWorkerPc
  /-- Before the exchange on its own slot. -/
  | takeTask
  | running
  /-- In `NoLockQueue::Get`, before its ticket. -/
  | fetchAdd
  /-- In `TaskEntry::Get`, before the exchange on the entry's task. -/
  | takeEntry (idx : ℤ)
  /-- The entry was empty; before the exchange on the entry's worker. -/
  | register (idx : ℤ)
  | lock
  | wait
  | blocked
  /-- `cv.wait` is going to take the mutex again. -/
  | woken
  | unlock
deriving DecidableEq

/-- Where a thread stands in `NoLockQueue::Put`. -/
inductive NoLockPosterPc (ω τ : Type)
  /-- Not in `Put`. -/
  | idle
  /-- Before its ticket. -/
  | fetchAdd (t : τ)
  /-- In `TaskEntry::Put`, before the exchange on the entry's task. -/
  | setTask (idx : ℤ) (t : τ)
  /-- Before it reads the entry's worker. -/
  | readWorker (idx : ℤ)
  /-- Before it reads the entry's task, for `RunTask`. -/
  | readTask (idx : ℤ) (w : ω)
  /-- In `RunTask`, before the exchange on the worker's slot. -/
  | runTask (w : ω) (t : Option τ)
  | lock (w : ω)
  | notify (w : ω)
  | unlock (w : ω)
  /-- `assert(tmp == NULL)` has failed. -/
  | failed
deriving DecidableEq

/-- A queue with workers `ω`, posting threads `π` and tasks `τ`, `isruning` true.  An index that
lies outside the array is undefined in the source; here it has an entry of its own. -/
structure NoLockState (ω π τ : Type) where
  taskList : ℤ → TaskEntry ω τ
  cusumeId : ℤ
  producerId : ℤ
  /-- `NoLockWorker::task` -/
  task : ω → Option τ
  mutex : ω → Option (Option π)
  worker : ω → NoLockWorkerPc
  poster : π → NoLockPosterPc ω τ

/-- The steps of a worker `w` and of a poster `p`. -/
inductive NoLockAct (ω π τ : Type)
  | takeTask (w : ω) (t : τ)
  | taskNull (w : ω)
  | run (w : ω)
  | getTicket (w : ω)
  | takeEntry (w : ω) (idx : ℤ) (t : τ)
  | entryNull (w : ω) (idx : ℤ)
  | register (w : ω) (idx : ℤ)
  | lock (w : ω)
  | wait (w : ω)
  /-- `cv.wait` returns without a notification. -/
  | interrupt (w : ω)
  | relock (w : ω)
  | unlock (w : ω)
  /-- `Put` is called. -/
  | post (p : π) (t : τ)
  | putTicket (p : π) (t : τ)
  | setTask (p : π) (idx : ℤ) (t : τ)
  | readWorker (p : π) (idx : ℤ) (w : ω)
  /-- No worker is registered: `Put` returns. -/
  | workerNull (p : π) (idx : ℤ)
  | readTask (p : π) (idx : ℤ) (w : ω)
  | runTask (p : π) (w : ω) (t : Option τ)
  /-- The exchange of `RunTask` finds a task. -/
  | overwrite (p : π) (w : ω) (t : Option τ)
  | lockPoster (p : π) (w : ω)
  | notify (p : π) (w : ω)
  | unlockPoster (p : π) (w : ω)

/-- `NoLockQueue::capacity`, an `int` made from a `uint32_t`. -/
def capacity (blockSize : UInt32) : ℤ := toInt32 blockSize.toNat

/-- `__sync_fetch_and_add(&id, 1) % capacity`, from the old value of the counter. -/
def ticketIndex (blockSize : UInt32) (id : ℤ) : ℤ := id.tmod (capacity blockSize)

namespace NoLockState

variable {ω π τ : Type}

/-- An empty queue, and all workers at the head of their loop. -/
def init : NoLockState ω π τ :=
  ⟨fun _ => ⟨none, none, false⟩, 0, 0, fun _ => none, fun _ => none, fun _ => .takeTask,
    fun _ => .idle⟩

/-- The step can be taken: the thread stands there, and finds what the step says. -/
def Enabled (s : NoLockState ω π τ) : NoLockAct ω π τ → Prop
  | .takeTask w t => s.worker w = .takeTask ∧ s.task w = some t
  | .taskNull w => s.worker w = .takeTask ∧ s.task w = none
  | .run w => s.worker w = .running
  | .getTicket w => s.worker w = .fetchAdd
  | .takeEntry w idx t => s.worker w = .takeEntry idx ∧ (s.taskList idx).task = some t
  | .entryNull w idx => s.worker w = .takeEntry idx ∧ (s.taskList idx).task = none
  | .register w idx => s.worker w = .register idx
  | .lock w => s.worker w = .lock ∧ s.mutex w = none
  | .wait w => s.worker w = .wait
  | .interrupt w => s.worker w = .blocked
  | .relock w => s.worker w = .woken ∧ s.mutex w = none
  | .unlock w => s.worker w = .unlock
  | .post p _ => s.poster p = .idle
  | .putTicket p t => s.poster p = .fetchAdd t
  | .setTask p idx t => s.poster p = .setTask idx t
  | .readWorker p idx w => s.poster p = .readWorker idx ∧ (s.taskList idx).worker = some w
  | .workerNull p idx => s.poster p = .readWorker idx ∧ (s.taskList idx).worker = none
  | .readTask p idx w => s.poster p = .readTask idx w
  | .runTask p w t => s.poster p = .runTask w t ∧ s.task w = none
  | .overwrite p w t => s.poster p = .runTask w t ∧ s.task w ≠ none
  | .lockPoster p w => s.poster p = .lock w ∧ s.mutex w = none
  | .notify p w => s.poster p = .notify w
  | .unlockPoster p w => s.poster p = .unlock w

variable [DecidableEq ω] [DecidableEq π]

section

variable (s : NoLockState ω π τ)

def setEntry (idx : ℤ) (e : TaskEntry ω τ) : NoLockState ω π τ :=
  { s with taskList := Function.update s.taskList idx e }

def setSlot (w : ω) (t : Option τ) : NoLockState ω π τ :=
  { s with task := Function.update s.task w t }

def setMutex (w : ω) (m : Option (Option π)) : NoLockState ω π τ :=
  { s with mutex := Function.update s.mutex w m }

def setWorker (w : ω) (pc : NoLockWorkerPc) : NoLockState ω π τ :=
  { s with worker := Function.update s.worker w pc }

def setPoster (p : π) (pc : NoLockPosterPc ω τ) : NoLockState ω π τ :=
  { s with poster := Function.update s.poster p pc }

end

/-- What the step does, in a queue that was made for `blockSize` entries. -/
def next (blockSize : UInt32) (s : NoLockState ω π τ) : NoLockAct ω π τ → NoLockState ω π τ
  | .takeTask w _ => (s.setSlot w none).setWorker w .running
  | .taskNull w => s.setWorker w .fetchAdd
  | .run w => s.setWorker w .takeTask
  | .getTicket w =>
      { s with cusumeId := toInt32 (s.cusumeId + 1) }.setWorker w
        (.takeEntry (ticketIndex blockSize s.cusumeId))
  | .takeEntry w idx _ =>
      (s.setEntry idx { s.taskList idx with task := none, handed := false }).setWorker w .running
  | .entryNull w idx => s.setWorker w (.register idx)
  | .register w idx => (s.setEntry idx { s.taskList idx with worker := some w }).setWorker w .lock
  | .lock w => (s.setMutex w (some none)).setWorker w .wait
  | .wait w => (s.setMutex w none).setWorker w .blocked
  | .interrupt w => s.setWorker w .woken
  | .relock w => (s.setMutex w (some none)).setWorker w .unlock
  | .unlock w => (s.setMutex w none).setWorker w .takeTask
  | .post p t => s.setPoster p (.fetchAdd t)
  | .putTicket p t =>
      { s with producerId := toInt32 (s.producerId + 1) }.setPoster p
        (.setTask (ticketIndex blockSize s.producerId) t)
  | .setTask p idx t =>
      (s.setPoster p (.readWorker idx)).setEntry idx
        { s.taskList idx with task := some t, handed := false }
  | .readWorker p idx w => s.setPoster p (.readTask idx w)
  | .workerNull p _ => s.setPoster p .idle
  | .readTask p idx w =>
      -- the task stays in the entry
      (s.setEntry idx { s.taskList idx with handed := true }).setPoster p
        (.runTask w (s.taskList idx).task)
  | .runTask p w t => (s.setPoster p (.lock w)).setSlot w t
  | .overwrite p w t => (s.setPoster p .failed).setSlot w t
  | .lockPoster p w => (s.setMutex w (some (some p))).setPoster p (.notify w)
  | .notify p w =>
      (s.setWorker w (if s.worker w = .blocked then .woken else s.worker w)).setPoster p (.unlock w)
  | .unlockPoster p w => (s.setMutex w none).setPoster p .idle

/-- The steps. -/
def Step (blockSize : UInt32) (s : NoLockState ω π τ) (a : NoLockAct ω π τ)
    (s' : NoLockState ω π τ) : Prop :=
  s.Enabled a ∧ s' = s.next blockSize a

/-! ## The claim -/

end NoLockState

/-- The task that a poster is going to store. -/
def NoLockPosterPc.carried {ω τ : Type} : NoLockPosterPc ω τ → Option τ
  | .fetchAdd t | .setTask _ t => some t
  | .runTask _ t => t
  | _ => none

/-- The index of the entry that the thread uses. -/
def NoLockPosterPc.index {ω τ : Type} : NoLockPosterPc ω τ → Option ℤ
  | .setTask idx _ | .readWorker idx | .readTask idx _ => some idx
  | _ => none

def NoLockWorkerPc.index : NoLockWorkerPc → Option ℤ
  | .takeEntry idx | .register idx => some idx
  | _ => none

/-- Where a task can be. -/
inductive NoLockPlace (ω π : Type)
  | poster (p : π)
  | entry (idx : ℤ)
  | slot (w : ω)
deriving DecidableEq

namespace NoLockAct

variable {ω π τ : Type}

/-- The task that a worker is handed by the step: it takes the task to run it. -/
def takes : NoLockAct ω π τ → List τ
  | .takeTask _ t | .takeEntry _ _ t => [t]
  | _ => []

/-- The task that is put by the step. -/
def puts : NoLockAct ω π τ → List τ
  | .post _ t => [t]
  | _ => []

end NoLockAct

namespace NoLockState

variable {ω π τ : Type}

/-- The tasks that workers have been handed, one entry for each time. -/
def taken (h : List (NoLockState ω π τ × NoLockAct ω π τ)) : List τ := h.flatMap fun p => p.2.takes

/-- The tasks that were put, one entry for each call of `Put`. -/
def put (h : List (NoLockState ω π τ × NoLockAct ω π τ)) : List τ := h.flatMap fun p => p.2.puts

/-- The task that can be found in a place. -/
def found (s : NoLockState ω π τ) : NoLockPlace ω π → Option τ
  | .poster p => (s.poster p).carried
  | .entry idx => (s.taskList idx).task
  | .slot w => s.task w

/-- The indices in use are those of entries. -/
def InRange (blockSize : UInt32) (s : NoLockState ω π τ) : Prop :=
  (∀ w, ∀ idx ∈ (s.worker w).index, 0 ≤ idx ∧ idx < blockSize.toNat) ∧
    ∀ p, ∀ idx ∈ (s.poster p).index, 0 ≤ idx ∧ idx < blockSize.toNat

/-- Every index lies in the array, a task that was put is somewhere until a worker has taken it, and
no task is taken more often than it was put. -/
structure HandsOutOnce [DecidableEq τ] (blockSize : UInt32)
    (h : List (NoLockState ω π τ × NoLockAct ω π τ)) (s : NoLockState ω π τ) : Prop where
  index : Exec.Always (InRange blockSize) h s
  kept : ∀ t, ((put h).count t : ℕ∞) ≤ (taken h).count t + held s.found t
  once : ∀ t, (taken h).count t ≤ (put h).count t

/-- The condition on the steps: a counter is not negative when a ticket is drawn (or it is a
multiple of the capacity); `Put` stores its task in an entry that is empty, or whose task was handed
over; a task is not taken from an entry, nor read for `RunTask`, after it was handed over; and
`RunTask` finds the worker's slot empty. -/
def Unharmed (blockSize : UInt32) (s : NoLockState ω π τ) : NoLockAct ω π τ → Prop
  | .getTicket _ => 0 ≤ s.cusumeId ∨ capacity blockSize ∣ s.cusumeId
  | .putTicket _ _ => 0 ≤ s.producerId ∨ capacity blockSize ∣ s.producerId
  | .setTask _ idx _ => (s.taskList idx).task = none ∨ (s.taskList idx).handed = true
  | .takeEntry _ idx _ => (s.taskList idx).handed = false
  | .readTask _ idx _ => (s.taskList idx).task = none ∨ (s.taskList idx).handed = false
  | .overwrite _ w _ => s.task w = none
  | _ => True

/-! ## Where the tasks are -/

/-- The tasks that are still to be taken: without those that were handed over. -/
def content (s : NoLockState ω π τ) : NoLockPlace ω π → Option τ
  | .poster p => (s.poster p).carried
  | .entry idx => if (s.taskList idx).handed then none else (s.taskList idx).task
  | .slot w => s.task w

lemma found_of_content {s : NoLockState ω π τ} {x : NoLockPlace ω π} {t : τ}
    (h : s.content x = some t) : s.found x = some t := by
  cases x with
  | poster p => exact h
  | slot w => exact h
  | entry idx =>
    rw [content] at h
    split at h
    · exact absurd h (by simp)
    · exact h

section

variable [DecidableEq ω] [DecidableEq π] (s : NoLockState ω π τ)

omit [DecidableEq π] in
@[simp] lemma content_setMutex (w : ω) (m : Option (Option π)) :
    (s.setMutex w m).content = s.content := rfl

omit [DecidableEq π] in
@[simp] lemma content_setWorker (w : ω) (pc : NoLockWorkerPc) :
    (s.setWorker w pc).content = s.content := rfl

@[simp] lemma content_setPoster (p : π) (pc : NoLockPosterPc ω τ) :
    (s.setPoster p pc).content = Function.update s.content (.poster p) pc.carried := by
  funext x
  cases x with
  | poster q =>
    by_cases hq : q = p
    · subst hq
      simp [content, setPoster]
    · simp [content, setPoster, hq]
  | entry idx => rfl
  | slot w => rfl

@[simp] lemma content_setSlot (w : ω) (t : Option τ) :
    (s.setSlot w t).content = Function.update s.content (.slot w) t := by
  funext x
  cases x with
  | slot v =>
    by_cases hv : v = w
    · subst hv
      simp [content, setSlot]
    · simp [content, setSlot, hv]
  | entry idx => rfl
  | poster p => rfl

@[simp] lemma content_setEntry (idx : ℤ) (e : TaskEntry ω τ) :
    (s.setEntry idx e).content
      = Function.update s.content (.entry idx) (if e.handed then none else e.task) := by
  funext x
  cases x with
  | entry i =>
    by_cases hi : i = idx
    · subst hi
      simp [content, setEntry]
    · simp [content, setEntry, hi]
  | slot w => rfl
  | poster p => rfl

lemma content_setPoster_of_carried {p : π} {pc : NoLockPosterPc ω τ}
    (hcarried : pc.carried = (s.poster p).carried) : (s.setPoster p pc).content = s.content := by
  rw [content_setPoster, hcarried]
  exact Function.update_eq_self _ _

end

variable [DecidableEq τ] {blockSize : UInt32} {s s' : NoLockState ω π τ} {a : NoLockAct ω π τ}
  {h : List (NoLockState ω π τ × NoLockAct ω π τ)}

/-- Each task is in as many places as it was put and not yet taken. -/
def Accounted (h : List (NoLockState ω π τ × NoLockAct ω π τ)) (s : NoLockState ω π τ) : Prop :=
  ∀ t, ((taken h).count t : ℕ∞) + held s.content t = (put h).count t

lemma count_taken_snoc (t : τ) :
    (taken (h ++ [(s, a)])).count t = (taken h).count t + a.takes.count t := by
  rw [taken, List.flatMap_append, List.flatMap_singleton, List.count_append]
  rfl

lemma count_put_snoc (t : τ) :
    (put (h ++ [(s, a)])).count t = (put h).count t + a.puts.count t := by
  rw [put, List.flatMap_append, List.flatMap_singleton, List.count_append]
  rfl

/-- No task is put or taken, and none is lost. -/
lemma Accounted.keep (hacc : Accounted h s) (hheld : ∀ t, held s'.content t = held s.content t)
    (htakes : a.takes = []) (hputs : a.puts = []) : Accounted (h ++ [(s, a)]) s' := by
  intro t
  rw [count_taken_snoc, count_put_snoc, htakes, hputs, hheld]
  exact hacc t

/-- A task goes to an empty place. -/
lemma Accounted.move (hacc : Accounted h s) {x y : NoLockPlace ω π} [DecidableEq ω] [DecidableEq π]
    (hyx : y ≠ x) (hy : s.content y = none)
    (hcontent : s'.content = Function.update (Function.update s.content x none) y (s.content x))
    (htakes : a.takes = []) (hputs : a.puts = []) : Accounted (h ++ [(s, a)]) s' :=
  hacc.keep (fun t => by rw [hcontent, held_move hyx hy]) htakes hputs

/-- A worker takes the task of a place. -/
lemma Accounted.take (hacc : Accounted h s) {x : NoLockPlace ω π} [DecidableEq ω] [DecidableEq π]
    {t : τ} (hx : s.content x = some t) (hcontent : s'.content = Function.update s.content x none)
    (htakes : a.takes = [t]) (hputs : a.puts = []) : Accounted (h ++ [(s, a)]) s' := by
  intro u
  have htake := held_take s.content x u
  rw [hx, one_some] at htake
  rw [count_taken_snoc, count_put_snoc, htakes, hputs, hcontent, Nat.cast_add, add_right_comm,
    add_assoc, htake]
  exact hacc u

/-- A task is put. -/
lemma Accounted.post (hacc : Accounted h s) {x : NoLockPlace ω π} [DecidableEq ω] [DecidableEq π]
    {t : τ} (hx : s.content x = none)
    (hcontent : s'.content = Function.update s.content x (some t))
    (htakes : a.takes = []) (hputs : a.puts = [t]) : Accounted (h ++ [(s, a)]) s' := by
  intro u
  rw [count_taken_snoc, count_put_snoc, htakes, hputs, hcontent, held_put hx, one_some,
    List.count_nil, Nat.add_zero, Nat.cast_add, ← add_assoc, hacc u]

lemma Accounted.step [DecidableEq ω] [DecidableEq π] (hacc : Accounted h s)
    (hok : Unharmed blockSize s a) (hst : Step blockSize s a s') :
    Accounted (h ++ [(s, a)]) s' := by
  obtain ⟨he, rfl⟩ := hst
  -- a poster that goes on with the task it has
  have hposter : ∀ p pc, a.takes = [] → a.puts = [] → pc.carried = (s.poster p).carried →
      (s.next blockSize a).content = (s.setPoster p pc).content →
      Accounted (h ++ [(s, a)]) (s.next blockSize a) := by
    intro p pc htakes hputs hcarried hcontent
    refine hacc.keep (fun t => ?_) htakes hputs
    rw [hcontent, content_setPoster_of_carried s hcarried]
  cases a with
  | takeTask w t => exact hacc.take (x := .slot w) he.2 (by simp [next]) rfl rfl
  | takeEntry w idx t =>
    have hentry : s.content (.entry idx) = some t := by
      rw [content, if_neg (by simpa [Unharmed] using hok)]
      exact he.2
    exact hacc.take hentry (by simp [next]) rfl rfl
  | register w idx =>
    refine hacc.keep (fun t => ?_) rfl rfl
    rw [next, content_setWorker, content_setEntry]
    exact congrArg (held · t) (Function.update_eq_self (.entry idx) s.content)
  | post p t =>
    refine hacc.post (x := .poster p) ?_ (content_setPoster s p (.fetchAdd t)) rfl rfl
    rw [content, show s.poster p = .idle from he]
    rfl
  | setTask p idx t =>
    have hposter : s.content (.poster p) = some t := by
      rw [content, show s.poster p = _ from he]
      rfl
    refine hacc.move (x := .poster p) (y := .entry idx) (by simp) ?_ ?_ rfl rfl
    · rw [content]
      rcases hok with hnone | hhanded
      · rw [hnone, ite_self]
      · rw [if_pos hhanded]
    · rw [hposter, next, content_setEntry, content_setPoster]
      rfl
  | readTask p idx w =>
    have hentry : s.content (.entry idx) = (s.taskList idx).task := by
      rw [content]
      rcases hok with hnone | hhanded
      · rw [hnone, ite_self]
      · rw [if_neg (by simp [hhanded])]
    refine hacc.move (x := .entry idx) (y := .poster p) (by simp) ?_ ?_ rfl rfl
    · rw [content, show s.poster p = _ from he]
      rfl
    · rw [hentry, next, content_setPoster, content_setEntry]
      rfl
  | runTask p w t =>
    have hposter : s.content (.poster p) = t := by rw [content, he.1]; rfl
    refine hacc.move (x := .poster p) (y := .slot w) (by simp) he.2 ?_ rfl rfl
    rw [hposter, next, content_setSlot, content_setPoster]
    rfl
  | overwrite p w t => exact absurd hok he.2
  | putTicket p t =>
    refine hposter p (.setTask (ticketIndex blockSize s.producerId) t) rfl rfl ?_ rfl
    rw [show s.poster p = .fetchAdd t from he]
    rfl
  | readWorker p idx w =>
    refine hposter p (.readTask idx w) rfl rfl ?_ rfl
    rw [he.1]
    rfl
  | workerNull p idx =>
    refine hposter p .idle rfl rfl ?_ rfl
    rw [he.1]
    rfl
  | lockPoster p w =>
    refine hposter p (.notify w) rfl rfl ?_ rfl
    rw [he.1]
    rfl
  | notify p w =>
    refine hposter p (.unlock w) rfl rfl ?_ rfl
    rw [show s.poster p = .notify w from he]
    rfl
  | unlockPoster p w =>
    refine hposter p .idle rfl rfl ?_ rfl
    rw [show s.poster p = .unlock w from he]
    rfl
  | taskNull w => exact hacc.keep (fun _ => rfl) rfl rfl
  | run w => exact hacc.keep (fun _ => rfl) rfl rfl
  | getTicket w => exact hacc.keep (fun _ => rfl) rfl rfl
  | entryNull w idx => exact hacc.keep (fun _ => rfl) rfl rfl
  | lock w => exact hacc.keep (fun _ => rfl) rfl rfl
  | wait w => exact hacc.keep (fun _ => rfl) rfl rfl
  | interrupt w => exact hacc.keep (fun _ => rfl) rfl rfl
  | relock w => exact hacc.keep (fun _ => rfl) rfl rfl
  | unlock w => exact hacc.keep (fun _ => rfl) rfl rfl

/-! ## The indices -/

omit [DecidableEq τ]

/-- The index that belongs to a ticket. -/
lemma ticketIndex_inRange {id : ℤ} (hpos : 0 < blockSize)
    (hid : 0 ≤ id ∨ capacity blockSize ∣ id) :
    0 ≤ ticketIndex blockSize id ∧ ticketIndex blockSize id < blockSize.toNat := by
  have hsize : 0 < blockSize.toNat := UInt32.lt_iff_toNat_lt.mp hpos
  have hlt : blockSize.toNat < 2 ^ 32 := blockSize.toNat_lt
  -- from 2 ^ 31 on, the capacity is negative
  have hcap : capacity blockSize ≠ 0 ∧ (capacity blockSize).natAbs ≤ blockSize.toNat := by
    rw [capacity, toInt32]
    omega
  rw [ticketIndex]
  rcases hid with hid | hdvd
  · rw [Int.tmod_eq_emod_of_nonneg hid]
    exact ⟨Int.emod_nonneg _ hcap.1, (Int.emod_lt _ hcap.1).trans_le (by exact_mod_cast hcap.2)⟩
  · rw [Int.tmod_eq_zero_of_dvd hdvd]
    exact ⟨le_rfl, by exact_mod_cast hsize⟩

lemma inRange_init : InRange blockSize (init : NoLockState ω π τ) := by
  constructor <;> simp [init, NoLockWorkerPc.index, NoLockPosterPc.index]

section

variable [DecidableEq ω] [DecidableEq π]

omit [DecidableEq π] in
lemma InRange.setWorker (hr : InRange blockSize s) {w : ω} {pc : NoLockWorkerPc}
    (hpc : ∀ idx ∈ pc.index, 0 ≤ idx ∧ idx < blockSize.toNat) :
    InRange blockSize (s.setWorker w pc) := by
  refine ⟨?_, hr.2⟩
  intro v idx hidx
  change idx ∈ (Function.update s.worker w pc v).index at hidx
  by_cases hv : v = w
  · subst hv
    rw [Function.update_self] at hidx
    exact hpc idx hidx
  · rw [Function.update_of_ne hv] at hidx
    exact hr.1 v idx hidx

omit [DecidableEq ω] in
lemma InRange.setPoster (hr : InRange blockSize s) {p : π} {pc : NoLockPosterPc ω τ}
    (hpc : ∀ idx ∈ pc.index, 0 ≤ idx ∧ idx < blockSize.toNat) :
    InRange blockSize (s.setPoster p pc) := by
  refine ⟨hr.1, ?_⟩
  intro q idx hidx
  change idx ∈ (Function.update s.poster p pc q).index at hidx
  by_cases hq : q = p
  · subst hq
    rw [Function.update_self] at hidx
    exact hpc idx hidx
  · rw [Function.update_of_ne hq] at hidx
    exact hr.2 q idx hidx

/-- A thread leaves the entry, or goes on with the same one. -/
lemma InRange.step (hpos : 0 < blockSize) (hr : InRange blockSize s)
    (hok : Unharmed blockSize s a) (hst : Step blockSize s a s') : InRange blockSize s' := by
  obtain ⟨he, rfl⟩ := hst
  have hnone : ∀ idx ∈ (none : Option ℤ), 0 ≤ idx ∧ idx < blockSize.toNat := by simp
  have hsame : ∀ {i : ℤ}, (0 ≤ i ∧ i < blockSize.toNat) →
      ∀ idx ∈ some i, 0 ≤ idx ∧ idx < blockSize.toNat := by
    rintro i hi idx ⟨⟩
    exact hi
  cases a with
  | takeTask w t => exact InRange.setWorker hr hnone
  | taskNull w => exact InRange.setWorker hr hnone
  | run w => exact InRange.setWorker hr hnone
  | getTicket w => exact InRange.setWorker hr (hsame (ticketIndex_inRange hpos hok))
  | takeEntry w idx t => exact InRange.setWorker hr hnone
  | entryNull w idx =>
    exact InRange.setWorker hr (hsame (hr.1 w idx (by rw [he.1]; rfl)))
  | register w idx => exact InRange.setWorker hr hnone
  | lock w => exact InRange.setWorker hr hnone
  | wait w => exact InRange.setWorker hr hnone
  | interrupt w => exact InRange.setWorker hr hnone
  | relock w => exact InRange.setWorker hr hnone
  | unlock w => exact InRange.setWorker hr hnone
  | post p t => exact InRange.setPoster hr hnone
  | putTicket p t => exact InRange.setPoster hr (hsame (ticketIndex_inRange hpos hok))
  | setTask p idx t =>
    exact InRange.setPoster hr (hsame (hr.2 p idx (by rw [show s.poster p = _ from he]; rfl)))
  | readWorker p idx w =>
    exact InRange.setPoster hr (hsame (hr.2 p idx (by rw [he.1]; rfl)))
  | workerNull p idx => exact InRange.setPoster hr hnone
  | readTask p idx w => exact InRange.setPoster hr hnone
  | runTask p w t => exact InRange.setPoster hr hnone
  | overwrite p w t => exact InRange.setPoster hr hnone
  | lockPoster p w => exact InRange.setPoster hr hnone
  | notify p w =>
    refine InRange.setPoster (InRange.setWorker hr ?_) hnone
    split
    · exact hnone
    · exact hr.1 w
  | unlockPoster p w => exact InRange.setPoster hr hnone

end

end NoLockState

/-! ## Runs -/

open NoLockState

variable {ω π τ : Type} [DecidableEq ω] [DecidableEq π] [DecidableEq τ]

/-- Along every run of a queue with at least one entry, with any number of workers and posters, in
which each step meets the condition, each task is handed out once. -/
theorem handsOutOnce {blockSize : UInt32} (hpos : 0 < blockSize)
    {h : List (NoLockState ω π τ × NoLockAct ω π τ)} {s : NoLockState ω π τ}
    (hrun : Exec.Run (Step blockSize) .init h s) (hok : Exec.Admits (Unharmed blockSize) h) :
    HandsOutOnce blockSize h s := by
  have hacc : Accounted h s := by
    induction hrun with
    | nil =>
      intro t
      rw [held_empty]
      · rfl
      · intro x
        cases x <;> rfl
    | snoc _ hst ih =>
      obtain ⟨hok, hlast⟩ := Exec.admits_snoc.mp hok
      exact (ih hok).step hlast hst
  refine ⟨?_, ?_, ?_⟩
  · exact hrun.always inRange_init (fun _ _ _ hr hok hst => hr.step hpos hok hst) hok
  · intro t
    rw [← hacc t]
    exact add_le_add_right (Set.encard_le_encard fun _ hx => found_of_content hx) _
  · intro t
    have hle : ((taken h).count t : ℕ∞) ≤ (put h).count t := hacc t ▸ le_self_add
    exact_mod_cast hle

omit [DecidableEq τ] in
lemma NoLockState.run_snoc {blockSize : UInt32} {h : List (NoLockState ω π τ × NoLockAct ω π τ)}
    {s : NoLockState ω π τ} (a : NoLockAct ω π τ) (hrun : Exec.Run (Step blockSize) .init h s)
    (he : s.Enabled a) :
    Exec.Run (Step blockSize) .init (h ++ [(s, a)]) (s.next blockSize a) :=
  hrun.snoc ⟨he, rfl⟩

/-- One entry, one worker and one task: the worker registers itself and is handed the task, and then
finds it in the entry once more. -/
theorem not_handsOutOnce :
    ¬ ∀ (h : List (NoLockState Unit Unit Unit × NoLockAct Unit Unit Unit))
      (s : NoLockState Unit Unit Unit), Exec.Run (Step 1) .init h s → HandsOutOnce 1 h s := by
  intro hall
  have h₀ : Exec.Run (Step 1) .init [] (.init : NoLockState Unit Unit Unit) := .nil
  -- the worker waits at the entry
  have h₁ := run_snoc (.taskNull ()) h₀ ⟨rfl, rfl⟩
  have h₂ := run_snoc (.getTicket ()) h₁ rfl
  have h₃ := run_snoc (.entryNull () 0) h₂ ⟨rfl, rfl⟩
  have h₄ := run_snoc (.register () 0) h₃ rfl
  have h₅ := run_snoc (.lock ()) h₄ ⟨rfl, rfl⟩
  have h₆ := run_snoc (.wait ()) h₅ rfl
  -- the task is put and handed over
  have h₇ := run_snoc (.post () ()) h₆ rfl
  have h₈ := run_snoc (.putTicket () ()) h₇ rfl
  have h₉ := run_snoc (.setTask () 0 ()) h₈ rfl
  have h₁₀ := run_snoc (.readWorker () 0 ()) h₉ ⟨rfl, rfl⟩
  have h₁₁ := run_snoc (.readTask () 0 ()) h₁₀ rfl
  have h₁₂ := run_snoc (.runTask () () (some ())) h₁₁ ⟨rfl, rfl⟩
  have h₁₃ := run_snoc (.lockPoster () ()) h₁₂ ⟨rfl, rfl⟩
  have h₁₄ := run_snoc (.notify () ()) h₁₃ rfl
  have h₁₅ := run_snoc (.unlockPoster () ()) h₁₄ rfl
  -- the worker runs it
  have h₁₆ := run_snoc (.relock ()) h₁₅ ⟨rfl, rfl⟩
  have h₁₇ := run_snoc (.unlock ()) h₁₆ rfl
  have h₁₈ := run_snoc (.takeTask () ()) h₁₇ ⟨rfl, rfl⟩
  have h₁₉ := run_snoc (.run ()) h₁₈ rfl
  -- and comes to the same entry
  have h₂₀ := run_snoc (.taskNull ()) h₁₉ ⟨rfl, rfl⟩
  have h₂₁ := run_snoc (.getTicket ()) h₂₀ rfl
  have h₂₂ := run_snoc (.takeEntry () 0 ()) h₂₁ ⟨rfl, rfl⟩
  exact absurd ((hall _ _ h₂₂).once ()) (by decide)

/-- A worker that is handed a task. -/
theorem handsOutOnce_registered :
    ∃ (h : List (NoLockState Unit Unit Unit × NoLockAct Unit Unit Unit))
      (s : NoLockState Unit Unit Unit), taken h = [()] ∧ HandsOutOnce 1 h s := by
  have h₀ : Exec.Run (Step 1) .init [] (.init : NoLockState Unit Unit Unit) := .nil
  have h₁ := run_snoc (.taskNull ()) h₀ ⟨rfl, rfl⟩
  have h₂ := run_snoc (.getTicket ()) h₁ rfl
  have h₃ := run_snoc (.entryNull () 0) h₂ ⟨rfl, rfl⟩
  have h₄ := run_snoc (.register () 0) h₃ rfl
  have h₅ := run_snoc (.lock ()) h₄ ⟨rfl, rfl⟩
  have h₆ := run_snoc (.wait ()) h₅ rfl
  have h₇ := run_snoc (.post () ()) h₆ rfl
  have h₈ := run_snoc (.putTicket () ()) h₇ rfl
  have h₉ := run_snoc (.setTask () 0 ()) h₈ rfl
  have h₁₀ := run_snoc (.readWorker () 0 ()) h₉ ⟨rfl, rfl⟩
  have h₁₁ := run_snoc (.readTask () 0 ()) h₁₀ rfl
  have h₁₂ := run_snoc (.runTask () () (some ())) h₁₁ ⟨rfl, rfl⟩
  have h₁₃ := run_snoc (.lockPoster () ()) h₁₂ ⟨rfl, rfl⟩
  have h₁₄ := run_snoc (.notify () ()) h₁₃ rfl
  have h₁₅ := run_snoc (.relock ()) (run_snoc (.unlockPoster () ()) h₁₄ rfl) ⟨rfl, rfl⟩
  have h₁₆ := run_snoc (.unlock ()) h₁₅ rfl
  have h₁₇ := run_snoc (.takeTask () ()) h₁₆ ⟨rfl, rfl⟩
  refine ⟨_, _, rfl, handsOutOnce (by decide) h₁₇ ?_⟩
  simp [Exec.Admits, Unharmed, next, init, setPoster, setWorker, setEntry, setSlot, setMutex]

end MTRpc
