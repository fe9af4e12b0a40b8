import Mathlib.Data.Prod.Lex
import MTRpc.Lib.Endless
import MTRpc.Mio.Event

/-!
# The poller and its tasks

`Poll` waits in `epoll_wait`, reports the events to their objects, and runs the tasks that were
posted.  `PostTask` pushes a task and then writes to the event descriptor `_notify`, and so does
`Stop` after it has cleared `isruning`.  The descriptor is registered edge-triggered, and `Poll`
never reads it: every write is reported once, also when the descriptor was readable before, until
its counter is full.

Any number of threads post and stop, step by step, while the poller runs.  `poller_keeps` says that
no task is lost or run twice or out of order, and that the poller does not sleep on a task, and
`poller_stops` that the poller returns after a `Stop`, if `Poll` has begun when it clears
`isruning`.  An earlier `Stop` is forgotten, since `Poll` begins with `isruning = true`.

What a task does to the timers and to `epoll` is left out here, and `SpinList` is a queue.
-/

namespace MTRpc

/-! ## Events of `epoll` -/

def epollIn : BitVec 32 := 0x1
def epollPri : BitVec 32 := 0x2
def epollOut : BitVec 32 := 0x4
def epollErr : BitVec 32 := 0x8
def epollHup : BitVec 32 := 0x10
def epollRdHup : BitVec 32 := 0x2000

/-- `EventToMask` -/
def eventToMask (events : BitVec 32) : BitVec 32 :=
  let flag (c : Prop) [Decidable c] (mask : BitVec 32) := if c then mask else 0
  flag (Has events (epollIn ||| epollPri)) eventRead
    ||| flag (Has events epollOut) eventWrite
    ||| flag (Has events (epollHup ||| epollRdHup)) eventClose
    ||| flag (Has events writeTimeOut) writeTimeOut
    ||| flag (Has events readTimeOut) readTimeOut
    ||| flag (Has events epollErr) eventErr

/-! ## The steps -/

/-- Where a thread stands in `PostTask` or in `Stop`.  A task can be `NULL`. -/
inductive NotifierPc (τ : Type)
  /-- In neither of them. -/
  | idle
  | push (t : Option τ)
  /-- In `Stop`, before `isruning = false`. -/
  | store
  /-- Before `_notify->Notify(1)`. -/
  | notify
deriving DecidableEq, Repr

/-- Where the poller stands in `Poll`.  An entry of `ev_arr` without an event is `_notify`. -/
inductive PollPc (ε τ : Type)
  /-- Before `isruning = true`. -/
  | start
  | processTimeOut
  | epollWait (waittime : ℤ)
  | dispatch (ev_arr : List (Option ε × BitVec 32))
  /-- In `ProcessPendingTask`, before `tasklist.empty()`. -/
  | empty
  | moveTo
  | run (tmp : List (Option τ))
  /-- Before `while(isruning)`. -/
  | isruning
  | returned
deriving DecidableEq, Repr

/-- A poller and the threads that use it.  The descriptor is to be reported when it is `due`; the
oldest task is the first one. -/
structure Poller (ι ε τ : Type) where
  isruning : Bool
  tasklist : List (Option τ)
  counter : ℕ
  due : Bool
  poll : PollPc ε τ
  notifier : ι → NotifierPc τ

/-- The steps of a thread `i` and of the poller. -/
inductive PollerAct (ι ε τ : Type)
  /-- `PostTask` is called. -/
  | postTask (i : ι) (t : Option τ)
  /-- `Stop` is called. -/
  | stop (i : ι)
  | push (i : ι) (t : Option τ)
  | store (i : ι)
  | notify (i : ι)
  | start
  | processTimeOut (waittime : ℤ)
  /-- `epoll_wait` returns events. -/
  | epollWait (ev_arr : List (Option ε × BitVec 32))
  /-- The time is over, or there was a signal. -/
  | noEvent
  | dispatch (ev : Option ε) (revents : BitVec 32) (ev_arr : List (Option ε × BitVec 32))
  | dispatched
  /-- `tasklist` is empty. -/
  | noTask
  | tasks
  | moveTo
  | run (t : τ) (tmp : List (Option τ))
  /-- The end of the loop, at the end of the list or at a task that is `NULL`. -/
  | ran
  | again
  | leave
deriving DecidableEq, Repr

/-- `EFD` counters end here: a further write fails. -/
def counterMax : ℕ := 2 ^ 64 - 2

namespace Poller

variable {ι ε τ : Type}

/-- What the constructor leaves, which does not set `isruning`. -/
def init (isruning : Bool) : Poller ι ε τ :=
  ⟨isruning, [], 0, false, .start, fun _ => .idle⟩

/-- The thread stands there, and finds what the step says. -/
def Enabled (s : Poller ι ε τ) : PollerAct ι ε τ → Prop
  | .postTask i _ | .stop i => s.notifier i = .idle
  | .push i t => s.notifier i = .push t
  | .store i => s.notifier i = .store
  | .notify i => s.notifier i = .notify
  | .start => s.poll = .start
  | .processTimeOut _ => s.poll = .processTimeOut
  | .epollWait arr =>
      (∃ waittime, s.poll = .epollWait waittime) ∧ arr ≠ [] ∧
        ((∃ revents, (none, revents) ∈ arr) → s.due = true)
  | .noEvent => ∃ waittime, s.poll = .epollWait waittime
  | .dispatch ev revents arr => s.poll = .dispatch ((ev, revents) :: arr)
  | .dispatched => s.poll = .dispatch []
  | .noTask => s.poll = .empty ∧ s.tasklist = []
  | .tasks => s.poll = .empty ∧ s.tasklist ≠ []
  | .moveTo => s.poll = .moveTo
  | .run t tmp => s.poll = .run (some t :: tmp)
  | .ran => s.poll = .run [] ∨ ∃ tmp, s.poll = .run (none :: tmp)
  | .again => s.poll = .isruning ∧ s.isruning = true
  | .leave => s.poll = .isruning ∧ s.isruning = false

variable [DecidableEq ι]

/-- `EventNotify::Notify` -/
def write (s : Poller ι ε τ) : Poller ι ε τ :=
  if s.counter < counterMax then { s with counter := s.counter + 1, due := true } else s

/-- What the step does. -/
def next (s : Poller ι ε τ) : PollerAct ι ε τ → Poller ι ε τ
  | .postTask i t => { s with notifier := Function.update s.notifier i (.push t) }
  | .stop i => { s with notifier := Function.update s.notifier i .store }
  | .push i t =>
    { s with
      tasklist := s.tasklist ++ [t]
      notifier := Function.update s.notifier i .notify }
  | .store i =>
    { s with
      isruning := false
      notifier := Function.update s.notifier i .notify }
  | .notify i => { s.write with notifier := Function.update s.notifier i .idle }
  | .start => { s with isruning := true, poll := .processTimeOut }
  | .processTimeOut waittime => { s with poll := .epollWait waittime }
  | .epollWait arr =>
    { s with
      due := s.due && !arr.any fun e => e.1.isNone
      poll := .dispatch arr }
  | .noEvent => { s with poll := .isruning }
  | .dispatch _ _ arr => { s with poll := .dispatch arr }
  | .dispatched => { s with poll := .empty }
  | .noTask => { s with poll := .isruning }
  | .tasks => { s with poll := .moveTo }
  | .moveTo => { s with tasklist := [], poll := .run s.tasklist }
  | .run _ tmp => { s with poll := .run tmp }
  | .ran => { s with poll := .isruning }
  | .again => { s with poll := .processTimeOut }
  | .leave => { s with poll := .returned }

/-- The steps. -/
def Step (s : Poller ι ε τ) (a : PollerAct ι ε τ) (s' : Poller ι ε τ) : Prop :=
  s.Enabled a ∧ s' = s.next a

end Poller

/-! ## What a run has done -/

/-- The event that is to be reported for an entry of `ev_arr`, with its mask. -/
def report {ε : Type} (e : Option ε × BitVec 32) : Option (ε × BitVec 32) :=
  e.1.map (·, eventToMask e.2)

namespace PollerAct

variable {ι ε τ : Type}

/-- The task that a step pushes. -/
def posts : PollerAct ι ε τ → List (Option τ)
  | .push _ t => [t]
  | _ => []

/-- The task that a step runs. -/
def runs : PollerAct ι ε τ → List τ
  | .run t _ => [t]
  | _ => []

/-- The events that `epoll_wait` returns. -/
def returns : PollerAct ι ε τ → List (ε × BitVec 32)
  | .epollWait arr => arr.filterMap report
  | _ => []

/-- The call of `OnEventAsync`. -/
def reports : PollerAct ι ε τ → List (ε × BitVec 32)
  | .dispatch ev revents _ => (report (ev, revents)).toList
  | _ => []

end PollerAct

namespace PollPc

variable {ε τ : Type}

/-- The tasks that the poller has taken out of `tasklist` and not run yet. -/
def tmp : PollPc ε τ → List (Option τ)
  | .run tmp => tmp
  | _ => []

/-- The entries of `ev_arr` that are left. -/
def evArr : PollPc ε τ → List (Option ε × BitVec 32)
  | .dispatch arr => arr
  | _ => []

/-- The poller is going to look at `tasklist` before it waits. -/
def Looks (pc : PollPc ε τ) : Prop := (∃ arr, pc = .dispatch arr) ∨ pc = .empty ∨ pc = .moveTo

/-- The poller is going to look at `isruning` before it waits, or has returned. -/
def Checks (pc : PollPc ε τ) : Prop :=
  pc.Looks ∨ (∃ tmp, pc = .run tmp) ∨ pc = .isruning ∨ pc = .returned

end PollPc

namespace Poller

variable {ι ε τ : Type} {s s' : Poller ι ε τ} {a : PollerAct ι ε τ}
variable {h : List (Poller ι ε τ × PollerAct ι ε τ)}

/-- What the steps of a run do, one after the other. -/
def total {β : Type} (f : PollerAct ι ε τ → List β) (h : List (Poller ι ε τ × PollerAct ι ε τ)) :
    List β :=
  h.flatMap fun p => f p.2

lemma total_snoc {β : Type} (f : PollerAct ι ε τ → List β) :
    total f (h ++ [(s, a)]) = total f h ++ f a := by
  rw [total, List.flatMap_append, List.flatMap_singleton]
  rfl

/-- The descriptor is going to be reported. -/
def Woken (s : Poller ι ε τ) : Prop := s.due = true ∨ ∃ i, s.notifier i = .notify

/-- The poller waits, and there is nothing to report. -/
def Asleep (s : Poller ι ε τ) : Prop :=
  (∃ waittime, s.poll = .epollWait waittime) ∧ s.due = false

/-- The counter of the descriptor has room for a notification. -/
def HasRoom (s : Poller ι ε τ) : PollerAct ι ε τ → Prop
  | .notify _ => s.counter < counterMax
  | _ => True

/-- No `NULL` is posted. -/
def NotNull (_ : Poller ι ε τ) (a : PollerAct ι ε τ) : Prop := none ∉ a.posts

/-! ### No task is lost -/

variable [DecidableEq ι]

omit [DecidableEq ι] in
lemma poll_write : s.write.poll = s.poll ∧ s.write.tasklist = s.tasklist := by
  rw [write]
  split <;> exact ⟨rfl, rfl⟩

/-- A step leaves the tasks in their order. -/
lemma tasks_step (hnull : none ∉ s.poll.tmp) (hst : s.Step a s') :
    s.poll.tmp ++ s.tasklist ++ a.posts = a.runs.map some ++ s'.poll.tmp ++ s'.tasklist := by
  obtain ⟨he, rfl⟩ := hst
  cases a with
  | notify i =>
    obtain ⟨hpoll, htasks⟩ := poll_write (s := s)
    simp [next, PollerAct.posts, PollerAct.runs, hpoll, htasks]
  | ran =>
    obtain he | ⟨tmp, he⟩ := he
    · simp [next, PollerAct.posts, PollerAct.runs, he, PollPc.tmp]
    · -- no task in `tmp` is `NULL`
      rw [he] at hnull
      exact absurd List.mem_cons_self hnull
  | epollWait arr =>
    obtain ⟨⟨waittime, he⟩, -⟩ := he
    simp [next, PollerAct.posts, PollerAct.runs, he, PollPc.tmp]
  | noEvent =>
    obtain ⟨waittime, he⟩ := he
    simp [next, PollerAct.posts, PollerAct.runs, he, PollPc.tmp]
  | _ =>
    simp only [Enabled] at he
    simp [next, PollerAct.posts, PollerAct.runs, he, PollPc.tmp]

/-- A step leaves the events in their order. -/
lemma events_step (hst : s.Step a s') :
    s.poll.evArr.filterMap report ++ a.returns
      = a.reports ++ s'.poll.evArr.filterMap report := by
  obtain ⟨he, rfl⟩ := hst
  cases a with
  | notify i => simp [next, PollerAct.returns, PollerAct.reports, poll_write.1]
  | epollWait arr =>
    obtain ⟨⟨waittime, he⟩, -⟩ := he
    simp [next, PollerAct.returns, PollerAct.reports, he, PollPc.evArr]
  | noEvent =>
    obtain ⟨waittime, he⟩ := he
    simp [next, PollerAct.returns, PollerAct.reports, he, PollPc.evArr]
  | ran =>
    obtain he | ⟨tmp, he⟩ := he
    all_goals simp [next, PollerAct.returns, PollerAct.reports, he, PollPc.evArr]
  | dispatch ev revents arr =>
    have he : s.poll = .dispatch ((ev, revents) :: arr) := he
    simp only [next, PollerAct.returns, PollerAct.reports, he, PollPc.evArr, List.append_nil]
    cases hr : report (ev, revents) with
    | none => rw [List.filterMap_cons_none hr]; rfl
    | some r => rw [List.filterMap_cons_some hr]; rfl
  | _ =>
    simp only [Enabled] at he
    simp [next, PollerAct.returns, PollerAct.reports, he, PollPc.evArr]

/-- The tasks and the events that a run leaves. -/
lemma run_total {isruning : Bool} (hrun : Exec.Run Step (init isruning) h s)
    (hnull : Exec.Admits NotNull h) :
    total PollerAct.posts h = (total PollerAct.runs h).map some ++ s.poll.tmp ++ s.tasklist ∧
      total PollerAct.returns h
        = total PollerAct.reports h ++ s.poll.evArr.filterMap report := by
  induction hrun with
  | nil => exact ⟨rfl, rfl⟩
  | @snoc h s s' a hr hst ih =>
    obtain ⟨hnull, ha⟩ := Exec.admits_snoc.mp hnull
    obtain ⟨htasks, hevents⟩ := ih hnull
    have htmp : none ∉ s.poll.tmp := by
      intro hmem
      have hmem : none ∈ total PollerAct.posts h := by
        rw [htasks]
        exact List.mem_append_left _ (List.mem_append_right _ hmem)
      obtain ⟨p, hp, hmem⟩ := List.mem_flatMap.mp hmem
      exact hnull p hp hmem
    constructor
    · rw [total_snoc, total_snoc, htasks, List.map_append, List.append_assoc, List.append_assoc,
        ← List.append_assoc s.poll.tmp, tasks_step htmp hst]
      simp only [List.append_assoc]
    · rw [total_snoc, total_snoc, hevents, List.append_assoc, events_step hst, List.append_assoc]

/-! ### The poller does not sleep on a task -/

/-- Somebody is going to see what is left in `tasklist`, and that `isruning` is false. -/
structure Covered (s : Poller ι ε τ) : Prop where
  tasks : s.tasklist ≠ [] → s.Woken ∨ s.poll.Looks
  stop : s.isruning = false → s.poll = .start ∨ s.Woken ∨ s.poll.Checks

/-- A thread that is not about to notify takes a step. -/
lemma Woken.update {i : ι} {pc : NotifierPc τ} (hw : s.Woken) (hi : s.notifier i ≠ .notify)
    (hdue : s'.due = s.due) (hn : s'.notifier = Function.update s.notifier i pc) : s'.Woken := by
  rw [Woken, hdue, hn]
  exact hw.imp_right fun hex =>
    Exec.exists_update (P := fun pc => pc = NotifierPc.notify) hex fun hno => absurd hno hi

omit [DecidableEq ι] in
lemma Covered.of_woken (hw : s.Woken) : Covered s := ⟨fun _ => .inl hw, fun _ => .inr (.inl hw)⟩

omit [DecidableEq ι] in
lemma Covered.of_looks (hl : s.poll.Looks) : Covered s :=
  ⟨fun _ => .inr hl, fun _ => .inr (.inr (.inl hl))⟩

omit [DecidableEq ι] in
/-- The poller goes on where it does not look at `tasklist`. -/
lemma Covered.tasks_of_not (hc : Covered s) (hl : ¬ s.poll.Looks) (hne : s.tasklist ≠ []) :
    s.Woken :=
  (hc.tasks hne).resolve_right hl

lemma Covered.step (hc : Covered s) (hroom : s.HasRoom a) (hst : s.Step a s') : Covered s' := by
  obtain ⟨he, rfl⟩ := hst
  cases a with
  | postTask i t | stop i =>
    have hi : s.notifier i ≠ .notify := by simp [show s.notifier i = .idle from he]
    constructor
    · intro hne
      exact (hc.tasks hne).imp_left fun hw => hw.update hi rfl rfl
    · intro hr
      exact (hc.stop hr).imp_right (Or.imp_left fun hw => hw.update hi rfl rfl)
  | push i t | store i => exact .of_woken (.inr ⟨i, by simp [next]⟩)
  | notify i =>
    have hroom : s.counter < counterMax := hroom
    exact .of_woken (.inl (by simp [next, write, hroom]))
  | epollWait arr | dispatch ev revents arr | dispatched | tasks =>
    exact .of_looks (by simp [next, PollPc.Looks])
  | moveTo => exact ⟨fun hne => absurd rfl hne, fun _ => by simp [next, PollPc.Checks]⟩
  | start =>
    have hl : ¬ s.poll.Looks := by simp [show s.poll = .start from he, PollPc.Looks]
    exact ⟨fun hne => .inl (hc.tasks_of_not hl hne), fun hr => Bool.noConfusion hr⟩
  | processTimeOut waittime =>
    have he : s.poll = .processTimeOut := he
    have hl : ¬ s.poll.Looks := by simp [he, PollPc.Looks]
    refine ⟨fun hne => .inl (hc.tasks_of_not hl hne), fun hr => ?_⟩
    have hw : s.Woken := by simpa [he, PollPc.Checks, PollPc.Looks] using hc.stop hr
    exact .inr (.inl hw)
  | again =>
    obtain ⟨he, hr⟩ := he
    have hl : ¬ s.poll.Looks := by simp [he, PollPc.Looks]
    exact ⟨fun hne => .inl (hc.tasks_of_not hl hne), fun hno => Bool.noConfusion (hr.symm.trans hno)⟩
  | noTask => exact ⟨fun hne => absurd he.2 hne, fun _ => by simp [next, PollPc.Checks]⟩
  | noEvent =>
    obtain ⟨waittime, he⟩ := he
    have hl : ¬ s.poll.Looks := by simp [he, PollPc.Looks]
    exact ⟨fun hne => .inl (hc.tasks_of_not hl hne), fun _ => by simp [next, PollPc.Checks]⟩
  | ran =>
    have hl : ¬ s.poll.Looks := by
      obtain he | ⟨tmp, he⟩ := he
      all_goals simp [he, PollPc.Looks]
    exact ⟨fun hne => .inl (hc.tasks_of_not hl hne), fun _ => by simp [next, PollPc.Checks]⟩
  | run t tmp | leave =>
    have hl : ¬ s.poll.Looks := by
      simp only [Enabled] at he
      simp [he, PollPc.Looks]
    exact ⟨fun hne => .inl (hc.tasks_of_not hl hne), fun _ => by simp [next, PollPc.Checks]⟩

omit [DecidableEq ι] in
lemma covered_init (isruning : Bool) : Covered (init isruning : Poller ι ε τ) :=
  ⟨fun hne => absurd rfl hne, fun _ => .inl rfl⟩

omit [DecidableEq ι] in
/-- Somebody wakes the poller. -/
lemma Covered.asleep (hc : Covered s) (ha : s.Asleep) :
    (s.tasklist = [] ∨ ∃ i, s.notifier i = .notify) ∧
      (s.isruning = true ∨ ∃ i, s.notifier i = .notify) := by
  obtain ⟨⟨waittime, he⟩, hdue⟩ := ha
  have hl : ¬ s.poll.Checks ∧ ¬ s.poll.Looks := by simp [he, PollPc.Checks, PollPc.Looks]
  have hnotify : s.Woken → ∃ i, s.notifier i = .notify := by
    intro hw
    exact hw.resolve_left fun h => Bool.noConfusion (hdue.symm.trans h)
  constructor
  · by_cases hne : s.tasklist = []
    · exact .inl hne
    · exact .inr (hnotify (hc.tasks_of_not hl.2 hne))
  · cases hr : s.isruning with
    | true => exact .inl rfl
    | false =>
      refine .inr (hnotify ?_)
      rcases hc.stop hr with hstart | hw | hchecks
      · rw [he] at hstart
        cases hstart
      · exact hw
      · exact absurd hchecks hl.1

/-- In every run in which no `NULL` is posted and the counter of the descriptor does not become full:
the tasks are run in the order in which they were pushed, each once, and those that have not been
run are in `tasklist` or in the list that the poller has taken; `OnEventAsync` is called for the
events in the order in which `epoll_wait` returns them, each once; and while the poller sleeps,
`tasklist` is empty or a thread is about to notify it. -/
theorem poller_keeps {isruning : Bool} (hrun : Exec.Run Step (init isruning) h s)
    (hnull : Exec.Admits NotNull h) (hroom : Exec.Admits HasRoom h) :
    total PollerAct.posts h = (total PollerAct.runs h).map some ++ s.poll.tmp ++ s.tasklist ∧
      total PollerAct.returns h = total PollerAct.reports h ++ s.poll.evArr.filterMap report ∧
        (s.Asleep → s.tasklist = [] ∨ ∃ i, s.notifier i = .notify) := by
  obtain ⟨htasks, hevents⟩ := run_total hrun hnull
  have hc := hrun.invariant (covered_init isruning) (fun _ _ _ hc hok hst => hc.step hok hst) hroom
  exact ⟨htasks, hevents, fun ha => (hc.asleep ha).1⟩

/-! ### `Stop` -/

/-- A step of the poller. -/
def Polls : PollerAct ι ε τ → Prop
  | .postTask _ _ | .stop _ | .push _ _ | .store _ | .notify _ => False
  | _ => True

/-- `Stop` has cleared `isruning` after `Poll` had set it. -/
def Stopped (h : List (Poller ι ε τ × PollerAct ι ε τ)) : Prop :=
  ∃ p ∈ h, (∃ i, p.2 = .store i) ∧ p.1.poll ≠ .start

/-- What the poller has ahead when `isruning` is false: the rest of a turn. -/
def rank : PollPc ε τ → ℕ ×ₗ ℕ
  | .start => toLex (8, 0)
  | .processTimeOut => toLex (7, 0)
  | .epollWait _ => toLex (6, 0)
  | .dispatch arr => toLex (5, arr.length)
  | .empty => toLex (4, 0)
  | .moveTo => toLex (3, 0)
  | .run tmp => toLex (2, tmp.length)
  | .isruning => toLex (1, 0)
  | .returned => toLex (0, 0)

omit [DecidableEq ι] in
lemma isruning_write : s.write.isruning = s.isruning := by
  rw [write]
  split
  · rfl
  · rfl

/-- The other threads leave the poller where it is. -/
lemma next_of_not_polls (ha : ¬ Polls a) :
    (s.next a).poll = s.poll ∧ ((s.next a).isruning = s.isruning ∨ (s.next a).isruning = false) := by
  cases a with
  | notify i => exact ⟨poll_write.1, .inl isruning_write⟩
  | postTask i t | stop i | push i t => exact ⟨rfl, .inl rfl⟩
  | store i => exact ⟨rfl, .inr rfl⟩
  | _ => exact absurd trivial ha

/-- A stopped poller stays stopped, and every step of it brings it nearer to the end. -/
lemma rank_step (hpoll : s.poll ≠ .start) (hr : s.isruning = false) (hst : s.Step a s') :
    s'.poll ≠ .start ∧ s'.isruning = false ∧ rank s'.poll ≤ rank s.poll ∧
      (Polls a → rank s'.poll < rank s.poll) := by
  obtain ⟨he, rfl⟩ := hst
  have hlt : Polls a → (s.next a).poll ≠ .start ∧ (s.next a).isruning = false ∧
      rank (s.next a).poll < rank s.poll := by
    intro hpolls
    cases a with
    | start => exact absurd he hpoll
    | again => exact Bool.noConfusion (hr.symm.trans he.2)
    | epollWait arr =>
      obtain ⟨⟨waittime, he⟩, -⟩ := he
      simp [next, rank, he, hr, Prod.Lex.toLex_lt_toLex]
    | noEvent =>
      obtain ⟨waittime, he⟩ := he
      simp [next, rank, he, hr, Prod.Lex.toLex_lt_toLex]
    | ran =>
      obtain he | ⟨tmp, he⟩ := he
      all_goals simp [next, rank, he, hr, Prod.Lex.toLex_lt_toLex]
    | postTask | stop | push | store | notify => exact absurd hpolls id
    | _ =>
      simp only [Enabled] at he
      simp [next, rank, he, hr, Prod.Lex.toLex_lt_toLex]
  by_cases hpolls : Polls a
  · obtain ⟨hpoll', hr', hlt⟩ := hlt hpolls
    exact ⟨hpoll', hr', hlt.le, fun _ => hlt⟩
  · obtain ⟨hsame, hr'⟩ := next_of_not_polls hpolls
    rw [hsame]
    exact ⟨hpoll, hr'.elim (·.trans hr) id, le_rfl, fun h => absurd h hpolls⟩

/-- `isruning` is false in the loop when a `Stop` has cleared it there. -/
lemma isruning_iff {isruning : Bool} (hrun : Exec.Run Step (init isruning) h s) :
    (s.poll ≠ .start ∧ s.isruning = false ↔ Stopped h) ∧
      (s.poll = .returned → s.isruning = false) := by
  induction hrun with
  | nil =>
    refine ⟨iff_of_false (fun h => h.1 rfl) ?_, fun h => by cases h⟩
    rintro ⟨p, hp, -⟩
    exact absurd hp List.not_mem_nil
  | @snoc h s s' a hr hst ih =>
    obtain ⟨hiff, hret⟩ := ih
    have hsnoc : Stopped (h ++ [(s, a)]) ↔ Stopped h ∨ (∃ i, a = .store i) ∧ s.poll ≠ .start := by
      simp [Stopped, or_and_right, exists_or]
    rw [hsnoc, ← hiff]
    obtain ⟨he, rfl⟩ := hst
    cases a with
    | store i => simp +contextual [next]
    | notify i => simpa [next, poll_write.1, isruning_write] using hret
    | start => simp [next, show s.poll = .start from he]
    | epollWait arr =>
      obtain ⟨⟨waittime, he⟩, -⟩ := he
      simp [next, he]
    | noEvent =>
      obtain ⟨waittime, he⟩ := he
      simp [next, he]
    | ran =>
      obtain he | ⟨tmp, he⟩ := he
      all_goals simp [next, he]
    | postTask i t | stop i | push i t => simpa [next] using hret
    | _ =>
      simp only [Enabled] at he
      simp [next, he]

/-- A stopped poller that has not returned can go on, or somebody wakes it. -/
lemma Covered.goes_on (hc : Covered s) (hpoll : s.poll ≠ .start) (hr : s.isruning = false) :
    s.poll = .returned ∨ (∃ i, s.notifier i = .notify) ∨
      ∃ a t, Polls a ∧ a ≠ .noEvent ∧ s.Step a t := by
  by_cases ha : s.Asleep
  · refine .inr (.inl ((hc.asleep ha).2.resolve_left ?_))
    rw [hr]
    exact Bool.noConfusion
  have hgo : ∀ a, s.Enabled a → Polls a → a ≠ .noEvent →
      ∃ a t, Polls a ∧ a ≠ .noEvent ∧ s.Step a t :=
    fun a he hpolls hne => ⟨a, _, hpolls, hne, he, rfl⟩
  cases he : s.poll with
  | start => exact absurd he hpoll
  | returned => exact .inl rfl
  | processTimeOut => exact .inr (.inr (hgo (.processTimeOut 0) he trivial (by simp)))
  | epollWait waittime =>
    have hdue : s.due = true := by
      by_contra hdue
      exact ha ⟨⟨waittime, he⟩, by simpa using hdue⟩
    have hen : s.Enabled (.epollWait [(none, epollIn)]) :=
      ⟨⟨waittime, he⟩, by simp, fun _ => hdue⟩
    exact .inr (.inr (hgo _ hen trivial (by simp)))
  | dispatch arr =>
    cases arr with
    | nil => exact .inr (.inr (hgo .dispatched he trivial (by simp)))
    | cons e arr => exact .inr (.inr (hgo (.dispatch e.1 e.2 arr) he trivial (by simp)))
  | empty =>
    by_cases hne : s.tasklist = []
    · exact .inr (.inr (hgo .noTask ⟨he, hne⟩ trivial (by simp)))
    · exact .inr (.inr (hgo .tasks ⟨he, hne⟩ trivial (by simp)))
  | moveTo => exact .inr (.inr (hgo .moveTo he trivial (by simp)))
  | run tmp =>
    cases tmp with
    | nil => exact .inr (.inr (hgo .ran (.inl he) trivial (by simp)))
    | cons t tmp =>
      cases t with
      | none => exact .inr (.inr (hgo .ran (.inr ⟨tmp, he⟩) trivial (by simp)))
      | some t => exact .inr (.inr (hgo (.run t tmp) he trivial (by simp)))
  | isruning => exact .inr (.inr (hgo .leave ⟨he, hr⟩ trivial (by simp)))

/-- A `Stop` that clears `isruning` after `Poll` has begun ends it, and nothing else does: the poller
takes finitely many steps more, whatever the other threads do, and until it has returned it can go on
without waiting, or a thread is about to notify it, unless the counter of the descriptor is full. -/
theorem poller_stops {isruning : Bool} (hrun : Exec.Run Step (init isruning) h s)
    (hroom : Exec.Admits HasRoom h) :
    (s.poll = .returned → Stopped h) ∧
      (Stopped h → ∀ states acts, states 0 = s → Exec.Endless Step states acts →
        (∃ n, ∀ m, n ≤ m → ¬ Polls (acts m)) ∧
          ((∀ n, (states n).HasRoom (acts n)) → ∀ n,
            (states n).poll = .returned ∨ (∃ i, (states n).notifier i = .notify) ∨
              ∃ a t, Polls a ∧ a ≠ .noEvent ∧ (states n).Step a t)) := by
  obtain ⟨hiff, hret⟩ := isruning_iff hrun
  have hc := hrun.invariant (covered_init isruning) (fun _ _ _ hc hok hst => hc.step hok hst) hroom
  constructor
  · intro he
    exact hiff.mp ⟨by simp [he], hret he⟩
  · rintro hstopped states acts rfl hend
    have h0 : (states 0).poll ≠ .start ∧ (states 0).isruning = false := hiff.mpr hstopped
    have hinv := hend.invariant_all (fun s => s.poll ≠ .start ∧ s.isruning = false) h0
      fun s a t hs hst => by
        obtain ⟨hpoll, hr, -⟩ := rank_step hs.1 hs.2 hst
        exact ⟨hpoll, hr⟩
    have hrank := fun n => rank_step (hinv n).1 (hinv n).2 (hend n)
    let ahead (n : ℕ) := rank (states n).poll
    have hle : ∀ n, ahead (n + 1) ≤ ahead n := fun n => (hrank n).2.2.1
    have hlt : ∀ n, Polls (acts n) → ahead (n + 1) < ahead n := fun n => (hrank n).2.2.2
    refine ⟨Exec.finitely_many hle hlt, ?_⟩
    intro hroom' n
    have hcovered := hend.invariant Covered hc hroom' fun s a t hc hok hst => hc.step hok hst
    exact (hcovered n).goes_on (hinv n).1 (hinv n).2

/-! ### A task and a `Stop` -/

/-- A task is posted before `Poll` begins, and `Stop` is called while it runs. -/
def taskAndStop : List (PollerAct Unit Unit ℕ) :=
  [.postTask () (some 7), .push () (some 7), .notify (), .start, .processTimeOut (-1),
    .epollWait [(none, epollIn)], .dispatch none epollIn [], .dispatched, .tasks, .moveTo, .run 7 [],
    .stop (), .store (), .notify (), .ran]

/-- The run. -/
def taskAndStopRun : List (Poller Unit Unit ℕ × PollerAct Unit Unit ℕ) :=
  Exec.trace next (init false) (taskAndStop.map fun a _ => a)

def stoppedPoller : Poller Unit Unit ℕ := Exec.final next (init false) (taskAndStop.map fun a _ => a)

lemma run_stoppedPoller : Exec.Run Step (init false) taskAndStopRun stoppedPoller := by
  refine Exec.Run.script _ ?_
  simp [Exec.Admits, Exec.trace, taskAndStop, Enabled, next, init, write, counterMax]

lemma hasRoom_taskAndStopRun : Exec.Admits HasRoom taskAndStopRun := by
  simp [Exec.Admits, taskAndStopRun, Exec.trace, taskAndStop, HasRoom, next, init, write, counterMax]

theorem poller_keeps_stoppedPoller :
    [some 7] = (total PollerAct.runs taskAndStopRun).map some ++ stoppedPoller.poll.tmp ++
      stoppedPoller.tasklist :=
  (poller_keeps run_stoppedPoller
    (by simp [Exec.Admits, taskAndStopRun, Exec.trace, taskAndStop, NotNull, PollerAct.posts])
    hasRoom_taskAndStopRun).1

lemma stopped_taskAndStopRun : Stopped taskAndStopRun := by
  simp [Stopped, taskAndStopRun, Exec.trace, taskAndStop, next, init, write, counterMax]

theorem poller_stops_stoppedPoller :
    ¬ ∃ states acts, states 0 = stoppedPoller ∧ Exec.Endless Step states acts ∧
      ∀ n, ∃ m, n ≤ m ∧ Polls (acts m) := by
  rintro ⟨states, acts, h0, hend, hall⟩
  obtain ⟨-, hstops⟩ := poller_stops run_stoppedPoller hasRoom_taskAndStopRun
  obtain ⟨⟨n, hn⟩, -⟩ := hstops stopped_taskAndStopRun states acts h0 hend
  obtain ⟨m, hm, hpolls⟩ := hall n
  exact hn m hm hpolls

end Poller

end MTRpc
