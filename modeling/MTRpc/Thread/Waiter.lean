import Mathlib.Data.Int.Notation
import MTRpc.Lib.Exec

/-!
# Waiting for a flag

`RpcClientController::Wait`, `ConnectStream::Wait` and `Reply::Wait` share one pattern: while
a flag is not set, take the mutex and wait on the condition variable.  The other side
(`SetStatus`, `OnConnect` and `OnClose`, `Reply::Run`) takes the mutex, sets the flag and
notifies.  The waiter tests the flag without the mutex, so that the whole critical section of
a setter fits between its test and its wait.

One model, over what differs between the three (`Waitable`), has one waiter and any number of
setters; the waiter is stuck when it waits for a flag that is set and nobody is left to notify
it.  `Waitable.always_iff` says in which runs that never happens.
-/

namespace MTRpc

/-- What differs between the three uses of the pattern. -/
structure Waitable (V : Type) where
  /-- The condition of the waiter's loop: the flag is not set. -/
  unset : V → Bool
  /-- A setter tests the same condition before it takes the mutex. -/
  guarded : Bool
  /-- The values that setters write. -/
  value : V → Bool

/-- `RpcClientController`: the flag is `_status`, which `SetStatus` sets to any status. -/
def rpcClientController : Waitable ℤ where
  unset status := status = -1
  guarded := false
  value _ := true

/-- `_ConnectStatus` -/
inductive ConnectStatus
  /-- `CLIENT_CONNECT_OK` -/
  | ok
  /-- `CLIENT_CONNECT_FAIL` -/
  | fail
  /-- `CLIENT_CONNECT_IPROCESS` -/
  | inProcess
deriving DecidableEq, Repr

/-- `ConnectStream`: `OnConnect` and `OnClose` end a connect that is in process. -/
def connectStream : Waitable ConnectStatus where
  unset status := status = .inProcess
  guarded := true
  value status := status ≠ .inProcess

/-- `Reply`: `Run` sets `isdone`. -/
def reply : Waitable Bool where
  unset isdone := !isdone
  guarded := false
  value isdone := isdone

/-- Where the waiter stands in `Wait`. -/
inductive WaiterPc
  | out
  /-- Before the test of the loop. -/
  | test
  | lock
  /-- With the mutex, before `cv.wait`. -/
  | wait
  /-- In `cv.wait`. -/
  | blocked
  /-- Woken, before `cv.wait` has the mutex again. -/
  | woken
  | unlock
deriving DecidableEq, Repr

/-- Where a setter stands. -/
inductive SetterPc (V : Type)
  /-- Not called yet, or finished. -/
  | idle
  | lock (v : V)
  /-- With the mutex, before it sets the flag. -/
  | set (v : V)
  | notify
  | unlock
deriving DecidableEq, Repr

/-- The setter is going to notify. -/
def SetterPc.notifies {V : Type} : SetterPc V → Bool
  | .lock _ | .set _ | .notify => true
  | .idle | .unlock => false

/-- The flag, the mutex (free, or held by the waiter or a setter) and the threads. -/
structure WaitState (V ι : Type) where
  flag : V
  mutex : Option (Option ι)
  waiter : WaiterPc
  setter : ι → SetterPc V

/-- The steps of the waiter and of a setter. -/
inductive WaitAct (V ι : Type)
  /-- `Wait` is called. -/
  | call
  | test
  | lock
  /-- `cv.wait` releases the mutex and blocks. -/
  | wait
  /-- `cv.wait` returns without a notification. -/
  | interrupt
  | relock
  | unlock
  /-- A setter is called with a value, and tests the flag if it is guarded. -/
  | start (i : ι) (v : V)
  | lockSetter (i : ι)
  | set (i : ι)
  | notify (i : ι)
  | unlockSetter (i : ι)

namespace Waitable

variable {V ι : Type} [DecidableEq ι] (W : Waitable V)

/-- Nobody waits and no setter has been called. -/
def init (v : V) : WaitState V ι := ⟨v, none, .out, fun _ => .idle⟩

/-- The steps. -/
def Step (s : WaitState V ι) : WaitAct V ι → WaitState V ι → Prop
  | .call, s' => s.waiter = .out ∧ s' = { s with waiter := .test }
  | .test, s' => s.waiter = .test ∧
      s' = { s with waiter := if W.unset s.flag then .lock else .out }
  | .lock, s' => s.waiter = .lock ∧ s.mutex = none ∧
      s' = { s with waiter := .wait, mutex := some none }
  | .wait, s' => s.waiter = .wait ∧ s' = { s with waiter := .blocked, mutex := none }
  | .interrupt, s' => s.waiter = .blocked ∧ s' = { s with waiter := .woken }
  | .relock, s' => s.waiter = .woken ∧ s.mutex = none ∧
      s' = { s with waiter := .unlock, mutex := some none }
  | .unlock, s' => s.waiter = .unlock ∧ s' = { s with waiter := .test, mutex := none }
  | .start i v, s' => s.setter i = .idle ∧ W.value v = true ∧
      s' = if W.guarded = true ∧ W.unset s.flag = false then s
        else { s with setter := Function.update s.setter i (.lock v) }
  | .lockSetter i, s' => ∃ v, s.setter i = .lock v ∧ s.mutex = none ∧
      s' = { s with setter := Function.update s.setter i (.set v), mutex := some (some i) }
  | .set i, s' => ∃ v, s.setter i = .set v ∧
      s' = { s with setter := Function.update s.setter i .notify, flag := v }
  | .notify i, s' => s.setter i = .notify ∧
      s' = { s with
        setter := Function.update s.setter i .unlock
        waiter := if s.waiter = .blocked then .woken else s.waiter }
  | .unlockSetter i, s' => s.setter i = .unlock ∧
      s' = { s with setter := Function.update s.setter i .idle, mutex := none }

/-- A setter is going to notify. -/
def Notified (s : WaitState V ι) : Prop := ∃ i, (s.setter i).notifies = true

/-- The waiter is blocked, the flag is set and no notification is left to arrive. -/
def Stuck (s : WaitState V ι) : Prop :=
  s.waiter = .blocked ∧ W.unset s.flag = false ∧ ¬ Notified s

/-- The condition on the steps: the waiter enters `cv.wait` only while the flag is not set, or
while a setter is still going to notify. -/
def WaitsInTime (s : WaitState V ι) (a : WaitAct V ι) : Prop :=
  a = .wait → W.unset s.flag = true ∨ Notified s

variable {W} {s s' : WaitState V ι} {a : WaitAct V ι}

/-- A step that waits in time leaves no stuck waiter behind. -/
lemma not_stuck_step (hs : ¬ W.Stuck s) (hok : W.WaitsInTime s a) (hst : W.Step s a s') :
    ¬ W.Stuck s' := by
  rintro ⟨hblocked, hflag, hnot⟩
  cases a with
  | call => exact absurd hblocked (by simp [hst.2])
  | test =>
    rw [hst.2] at hblocked
    exact absurd hblocked (by dsimp only; split <;> simp)
  | lock => exact absurd hblocked (by simp [hst.2.2])
  | wait =>
    rw [hst.2] at hflag hnot
    rcases hok rfl with hunset | hn
    · exact absurd hunset (by simp [show W.unset s.flag = false from hflag])
    · exact hnot hn
  | interrupt => exact absurd hblocked (by simp [hst.2])
  | relock => exact absurd hblocked (by simp [hst.2.2])
  | unlock => exact absurd hblocked (by simp [hst.2])
  | start i v =>
    obtain ⟨hidle, -, rfl⟩ := hst
    split at hblocked
    case isTrue hg =>
      rw [if_pos hg] at hflag hnot
      exact hs ⟨hblocked, hflag, hnot⟩
    case isFalse hg =>
      rw [if_neg hg] at hnot
      exact hnot ⟨i, by simp [SetterPc.notifies]⟩
  | lockSetter i =>
    obtain ⟨v, -, -, rfl⟩ := hst
    exact hnot ⟨i, by simp [SetterPc.notifies]⟩
  | set i =>
    obtain ⟨v, -, rfl⟩ := hst
    exact hnot ⟨i, by simp [SetterPc.notifies]⟩
  | notify i =>
    -- the notification wakes the waiter
    rw [hst.2] at hblocked
    exact absurd hblocked (by dsimp only; split <;> simp_all)
  | unlockSetter i =>
    obtain ⟨hi, rfl⟩ := hst
    refine hs ⟨hblocked, hflag, fun hn => hnot ?_⟩
    refine Exec.exists_update (P := fun pc => SetterPc.notifies pc = true) hn fun hc => ?_
    exact absurd hc (by simp [hi, SetterPc.notifies])

/-- **Lost wakeups.**  In a run the waiter is never stuck exactly when it never enters
`cv.wait` with the flag set and nobody left to notify it. -/
lemma always_iff {v : V} {h : List (WaitState V ι × WaitAct V ι)}
    (hrun : Exec.Run W.Step (init v) h s) :
    Exec.Always (fun s => ¬ W.Stuck s) h s ↔ Exec.Admits W.WaitsInTime h := by
  refine hrun.always_iff (P := fun s => ¬ W.Stuck s) ?_ (fun _ hs => hs)
    (fun _ _ _ hs hok hst => not_stuck_step hs hok hst) ?_
  · rintro ⟨hblocked, -, -⟩
    exact absurd hblocked (by simp [init])
  · intro s a t _ hlate hst hns
    obtain ⟨rfl, hflag, hnot⟩ : a = .wait ∧ W.unset s.flag = false ∧ ¬ Notified s := by
      simpa [WaitsInTime, not_or] using hlate
    refine hns ⟨by rw [hst.2], ?_, ?_⟩
    · rw [hst.2]
      exact hflag
    · rw [hst.2]
      exact hnot

/-- A state in which one setter has been called. -/
def oneSetter (i : ι) (flag : V) (mutex : Option (Option ι)) (waiter : WaiterPc)
    (pc : SetterPc V) : WaitState V ι :=
  ⟨flag, mutex, waiter, Function.update (fun _ => .idle) i pc⟩

/-- The setter's whole critical section falls between the test and the lock of the waiter. -/
lemma exists_stuck (i : ι) (v₀ v : V) (h₀ : W.unset v₀ = true) (hv : W.value v = true)
    (hset : W.unset v = false) :
    ∃ h, Exec.Run W.Step (init v₀) h (oneSetter i v none .blocked .idle) ∧
      W.Stuck (oneSetter i v none .blocked .idle) := by
  have hcall : W.Step (init v₀) .call (oneSetter i v₀ none .test .idle) :=
    ⟨rfl, by simp [init, oneSetter]⟩
  have htest : W.Step (oneSetter i v₀ none .test .idle) .test
      (oneSetter i v₀ none .lock .idle) := ⟨rfl, by simp [oneSetter, h₀]⟩
  have hstart : W.Step (oneSetter i v₀ none .lock .idle) (.start i v)
      (oneSetter i v₀ none .lock (.lock v)) :=
    ⟨by simp [oneSetter], hv, by simp [oneSetter, h₀]⟩
  have hlockSetter : W.Step (oneSetter i v₀ none .lock (.lock v)) (.lockSetter i)
      (oneSetter i v₀ (some (some i)) .lock (.set v)) :=
    ⟨v, by simp [oneSetter], rfl, by simp [oneSetter]⟩
  have hsetFlag : W.Step (oneSetter i v₀ (some (some i)) .lock (.set v)) (.set i)
      (oneSetter i v (some (some i)) .lock .notify) :=
    ⟨v, by simp [oneSetter], by simp [oneSetter]⟩
  have hnotify : W.Step (oneSetter i v (some (some i)) .lock .notify) (.notify i)
      (oneSetter i v (some (some i)) .lock .unlock) :=
    ⟨by simp [oneSetter], by simp [oneSetter]⟩
  have hunlock : W.Step (oneSetter i v (some (some i)) .lock .unlock) (.unlockSetter i)
      (oneSetter i v none .lock .idle) :=
    ⟨by simp [oneSetter], by simp [oneSetter]⟩
  have hlock : W.Step (oneSetter i v none .lock .idle) .lock
      (oneSetter i v (some none) .wait .idle) := ⟨rfl, rfl, rfl⟩
  have hwait : W.Step (oneSetter i v (some none) .wait .idle) .wait
      (oneSetter i v none .blocked .idle) := ⟨rfl, rfl⟩
  have hrun := (((Exec.Run.nil.snoc hcall).snoc htest).snoc hstart).snoc hlockSetter
  refine ⟨_, ((((hrun.snoc hsetFlag).snoc hnotify).snoc hunlock).snoc hlock).snoc hwait, ?_⟩
  refine ⟨rfl, hset, ?_⟩
  rintro ⟨j, hj⟩
  exact absurd hj (by simp [oneSetter, SetterPc.notifies])

end Waitable

/-- **Synchronous waiters.**  In every run of each of the three waits, with any number of
setters, the waiter is never stuck exactly when it never enters `cv.wait` after the flag has
been set and the setters have notified. -/
theorem waiters_never_stuck_iff {ι : Type} [DecidableEq ι] :
    (∀ v h s, Exec.Run rpcClientController.Step (Waitable.init v : WaitState ℤ ι) h s →
      (Exec.Always (fun s => ¬ rpcClientController.Stuck s) h s ↔
        Exec.Admits rpcClientController.WaitsInTime h)) ∧
    (∀ v h s, Exec.Run connectStream.Step (Waitable.init v : WaitState ConnectStatus ι) h s →
      (Exec.Always (fun s => ¬ connectStream.Stuck s) h s ↔
        Exec.Admits connectStream.WaitsInTime h)) ∧
    ∀ v h s, Exec.Run reply.Step (Waitable.init v : WaitState Bool ι) h s →
      (Exec.Always (fun s => ¬ reply.Stuck s) h s ↔ Exec.Admits reply.WaitsInTime h) :=
  ⟨fun _ _ _ hrun => Waitable.always_iff hrun, fun _ _ _ hrun => Waitable.always_iff hrun,
    fun _ _ _ hrun => Waitable.always_iff hrun⟩

/-- Each of the three waiters can be left waiting by a single setter. -/
theorem waiters_stuck :
    (¬ ∀ v h s, Exec.Run rpcClientController.Step (Waitable.init v : WaitState ℤ ℕ) h s →
      ¬ rpcClientController.Stuck s) ∧
    (¬ ∀ v h s, Exec.Run connectStream.Step (Waitable.init v : WaitState ConnectStatus ℕ) h s →
      ¬ connectStream.Stuck s) ∧
    ¬ ∀ v h s, Exec.Run reply.Step (Waitable.init v : WaitState Bool ℕ) h s → ¬ reply.Stuck s := by
  refine ⟨?_, ?_, ?_⟩
  · intro hall
    obtain ⟨h, hrun, hstuck⟩ := Waitable.exists_stuck (W := rpcClientController) (0 : ℕ)
      (-1) 0 (by decide) rfl (by decide)
    exact hall _ h _ hrun hstuck
  · intro hall
    obtain ⟨h, hrun, hstuck⟩ := Waitable.exists_stuck (W := connectStream) (0 : ℕ)
      .inProcess .ok (by decide) rfl (by decide)
    exact hall _ h _ hrun hstuck
  · intro hall
    obtain ⟨h, hrun, hstuck⟩ := Waitable.exists_stuck (W := reply) (0 : ℕ)
      false true (by decide) rfl (by decide)
    exact hall _ h _ hrun hstuck

/-- The history of a single call of `Wait`. -/
def oneCall {V : Type} (v : V) : List (WaitState V ℕ × WaitAct V ℕ) := [(Waitable.init v, .call)]

/-- The state after it. -/
def called {V : Type} (v : V) : WaitState V ℕ := { Waitable.init v with waiter := .test }

lemma run_oneCall {V : Type} (W : Waitable V) (v : V) :
    Exec.Run W.Step (Waitable.init v) (oneCall v) (called v) := by
  have hcall : W.Step (Waitable.init v) .call (called v) := ⟨rfl, rfl⟩
  exact Exec.Run.nil.snoc hcall

/-- A call of each `Wait`. -/
theorem waiters_never_stuck_call :
    (Exec.Always (fun s => ¬ rpcClientController.Stuck s) (oneCall (-1)) (called (-1)) ↔
      Exec.Admits rpcClientController.WaitsInTime (oneCall (-1))) ∧
    (Exec.Always (fun s => ¬ connectStream.Stuck s) (oneCall .inProcess) (called .inProcess) ↔
      Exec.Admits connectStream.WaitsInTime (oneCall .inProcess)) ∧
    (Exec.Always (fun s => ¬ reply.Stuck s) (oneCall false) (called false) ↔
      Exec.Admits reply.WaitsInTime (oneCall false)) := by
  obtain ⟨hcontroller, hconnect, hreply⟩ := waiters_never_stuck_iff (ι := ℕ)
  exact ⟨hcontroller _ _ _ (run_oneCall _ _), hconnect _ _ _ (run_oneCall _ _),
    hreply _ _ _ (run_oneCall _ _)⟩

end MTRpc
