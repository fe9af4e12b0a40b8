import MTRpc.Rpc.EventOps

/-!
# The wake-up of a queued call

`CallMethod` pushes its call to `sendcall` and posts `ModEvent(true, true)`; the stream's `OnEvent`
looks at `sendcall` on a WRITE and after a response.  Between the two is the poller, which runs the
tasks in order and asks epoll for EPOLLOUT, edge-triggered: a `ModEvent` that changes nothing wakes
nobody.

`not_forgotten` says that no call is left in `sendcall` while nothing is going to look at it, as
long as `OnWriteable` does not disable write behind its look while a call waits that it has not
seen (`LosesWake`).  This can only happen when a response is taken for a request that has not been
sent completely (`not_forgotten_of_answersSent`).
-/

namespace MTRpc

/-! ## EPOLLOUT -/

/-- What epoll has of EPOLLOUT for a stream. -/
structure WriteInterest where
  /-- `ev.events` asks for it. -/
  asked : Bool
  /-- An event is to be reported, when the socket is writable. -/
  due : Bool
deriving DecidableEq, Repr

namespace WriteInterest

/-- `Epoller::ModEvent`: `epoll_ctl` when `SetEvent` changes the events.  `keep` says whether an
event that is due is reported though it is not asked for any more. -/
def modEvent (keep writeable : Bool) (x : WriteInterest) : WriteInterest :=
  if x.asked = writeable then x
  else if writeable then ⟨true, true⟩
  else ⟨false, x.due && keep⟩

/-- A task of the poller. -/
def task (keep : Bool) : PollerTask → WriteInterest → WriteInterest
  | .modEvent _ writeable, x => x.modEvent keep writeable
  | _, x => x

/-- When all tasks have run and nothing was reported. -/
def settled (tasks : List PollerTask) (x : WriteInterest) : WriteInterest :=
  tasks.foldl (fun x t => x.task false t) x

/-- The same is asked, and what is due is due. -/
def Le (x y : WriteInterest) : Prop := x.asked = y.asked ∧ (x.due = true → y.due = true)

variable {x y : WriteInterest} {tasks : List PollerTask}

lemma Le.refl (x : WriteInterest) : x.Le x := ⟨rfl, id⟩

lemma Le.modEvent (h : x.Le y) (keep writeable : Bool) :
    (x.modEvent false writeable).Le (y.modEvent keep writeable) := by
  rw [WriteInterest.modEvent, WriteInterest.modEvent, h.1]
  split
  · exact h
  split
  · exact ⟨rfl, id⟩
  · exact ⟨rfl, by simp⟩

lemma Le.task (h : x.Le y) (keep : Bool) (t : PollerTask) :
    (x.task false t).Le (y.task keep t) := by
  cases t with
  | modEvent _ writeable => exact h.modEvent keep writeable
  | _ => exact h

lemma Le.settled (h : x.Le y) : (x.settled tasks).Le (y.settled tasks) := by
  induction tasks generalizing x y with
  | nil => exact h
  | cons t tasks ih => exact ih (h.task false t)

lemma settled_append (t : PollerTask) :
    x.settled (tasks ++ [t]) = (x.settled tasks).task false t := by
  rw [settled, List.foldl_append]
  rfl

/-- After a `ModEvent(true, true)` EPOLLOUT is asked for, and an event is due when it was not. -/
lemma modEvent_true (keep : Bool) :
    (x.modEvent keep true).asked = true ∧
      (x.asked = false ∨ x.due = true → (x.modEvent keep true).due = true) := by
  rw [modEvent]
  cases hx : x.asked with
  | true => simp [hx]
  | false => simp

lemma modEvent_false (keep : Bool) : (x.modEvent keep false).asked = false := by
  rw [modEvent]
  cases hx : x.asked with
  | true => simp
  | false => simp [hx]

end WriteInterest

/-! ## Runs -/

/-- A stream and its channel, with the threads that call. -/
structure CallWakeup (ι Req : Type) where
  /-- With the tasks that the poller has to run. -/
  world : ChannelWorld Req
  /-- The threads in `CallMethod`, between the push and the post. -/
  posting : ι → Bool
  out : WriteInterest
  /-- The bits READ and WRITE of `_events`. -/
  readEvent : Bool
  writeEvent : Bool
  /-- What is left of the `OnEvent` that runs. -/
  todo : List EventOp

/-- What can happen. -/
inductive WakeupAct (ι Req : Type)
  /-- A thread calls, up to the push. -/
  | push (i : ι) (controller : RpcClientController Req) (method : Bytes) (request : Req)
      (done : Bool)
  /-- It posts. -/
  | post (i : ι)
  /-- The poller runs a task. -/
  | runTask (keep : Bool)
  /-- It passes on what epoll reports. -/
  | report (read write : Bool)
  /-- `OnEvent` is called. -/
  | begin
  | op (io : OpInput Req)

namespace CallWakeup

variable {ι Req : Type}

/-- A stream that has been added to the poller; `connecting` says that its connect is in process
and `AddEvent` has asked for EPOLLOUT. -/
def init (options : RpcChannelOptions) (cntl : ℕ → RpcClientController Req) (connecting : Bool) :
    CallWakeup ι Req :=
  { world := .init options cntl
    posting := fun _ => false
    out := ⟨connecting, connecting⟩
    readEvent := false
    writeEvent := false
    todo := [] }

/-- One step. -/
def act [DecidableEq ι] (s : CallWakeup ι Req) : WakeupAct ι Req → CallWakeup ι Req
  | .push i controller method request done =>
      { s with
        world := pushCall controller method request done s.world
        posting := Function.update s.posting i true }
  | .post i =>
      { s with world := postModEvent true s.world, posting := Function.update s.posting i false }
  | .runTask keep =>
      match s.world.stream.tasks with
      | [] => s
      | t :: tasks =>
          { s with
            world := s.world.modifyStream fun st => { st with tasks := tasks }
            out := s.out.task keep t }
  | .report read write =>
      { s with
        readEvent := s.readEvent || read
        writeEvent := s.writeEvent || write
        out := { s.out with due := s.out.due && !write } }
  | .begin =>
      { s with
        readEvent := false
        writeEvent := false
        todo := eventOps s.readEvent s.writeEvent }
  | .op io =>
      { s with todo := (perform io s.todo s.world).1, world := (perform io s.todo s.world).2 }

section

variable (s : CallWakeup ι Req)

/-- The tasks that the poller has to run. -/
abbrev tasks : List PollerTask := s.world.stream.tasks

/-- When it can happen.  epoll reports a WRITE when it is due, or with another event as long as it
is asked for. -/
def Enabled : WakeupAct ι Req → Prop
  | .push i _ _ _ _ => s.posting i = false
  | .post i => s.posting i = true
  | .runTask _ => s.tasks ≠ []
  | .report _ write => write = true → s.out.asked = true ∨ s.out.due = true
  | .begin => s.todo = [] ∧ (s.readEvent = true ∨ s.writeEvent = true)
  | .op _ => s.todo ≠ []

/-- The stream is open, and no error occurred. -/
def NoError : Prop := s.world.stream.isClosed = false ∧ s.world.stream.closeWhenEmpty = false

/-- No task is queued, no event is due, pending or running, no thread is in `CallMethod`, and there
is nothing to send. -/
structure Quiet : Prop where
  posting : ∀ i, s.posting i = false
  tasks : s.tasks = []
  due : s.out.due = false
  readEvent : s.readEvent = false
  writeEvent : s.writeEvent = false
  todo : s.todo = []
  empty : s.world.stream.writebuf.isEmpty

/-- In a quiet state a call waits in `sendcall`, and no other is on its way. -/
def Forgotten : Prop :=
  s.Quiet ∧ s.world.owner.sendcall ≠ [] ∧ s.world.owner.waitcall = [] ∧ s.world.owner.donecall = []

/-- What epoll has when the tasks have run. -/
def settled : WriteInterest := s.out.settled s.tasks

/-- `OnWriteable` is to disable write behind its look, and a call waits in `sendcall` that no other
call, thread or event is going to wake. -/
structure LosesWake : Prop where
  disables : s.todo.head? = some .disableLast
  empty : s.world.stream.writebuf.isEmpty
  sendcall : s.world.owner.sendcall ≠ []
  waitcall : s.world.owner.waitcall = []
  donecall : s.world.owner.donecall = []
  posting : ∀ i, s.posting i = false
  writeEvent : s.writeEvent = false
  due : (s.settled.modEvent false false).due = false

end

/-- The steps of runs without errors. -/
def Step [DecidableEq ι] (s : CallWakeup ι Req) (a : WakeupAct ι Req) (s' : CallWakeup ι Req) :
    Prop :=
  (s.Enabled a ∧ (s.act a).NoError) ∧ s' = s.act a

/-- No operation loses a wake-up. -/
def KeepsWake (s : CallWakeup ι Req) : WakeupAct ι Req → Prop
  | .op _ => ¬ s.LosesWake
  | _ => True

/-- A response is taken for a call only when its request has been sent. -/
def AnswersSent (s : CallWakeup ι Req) : WakeupAct ι Req → Prop
  | .op _ => s.todo.head? = some .recived → s.world.owner.donecall ≠ [] →
      s.world.stream.writebuf.isEmpty
  | _ => True

section

variable (s : CallWakeup ι Req)

instance : Decidable s.NoError := inferInstanceAs (Decidable (_ ∧ _))

instance : (a : WakeupAct ι Req) → Decidable (s.Enabled a)
  | .push _ _ _ _ _ | .post _ => inferInstanceAs (Decidable (_ = _))
  | .runTask _ | .op _ => inferInstanceAs (Decidable (_ ≠ _))
  | .report _ _ => inferInstanceAs (Decidable (_ → _))
  | .begin => inferInstanceAs (Decidable (_ ∧ _))

instance [Fintype ι] : Decidable s.LosesWake :=
  decidable_of_iff (s.todo.head? = some .disableLast ∧ s.world.stream.writebuf.isEmpty ∧
      s.world.owner.sendcall ≠ [] ∧ s.world.owner.waitcall = [] ∧ s.world.owner.donecall = [] ∧
      (∀ i, s.posting i = false) ∧ s.writeEvent = false ∧
      (s.settled.modEvent false false).due = false)
    ⟨fun ⟨h₁, h₂, h₃, h₄, h₅, h₆, h₇, h₈⟩ => ⟨h₁, h₂, h₃, h₄, h₅, h₆, h₇, h₈⟩,
      fun ⟨h₁, h₂, h₃, h₄, h₅, h₆, h₇, h₈⟩ => ⟨h₁, h₂, h₃, h₄, h₅, h₆, h₇, h₈⟩⟩

instance [Fintype ι] : (a : WakeupAct ι Req) → Decidable (s.KeepsWake a)
  | .op _ => inferInstanceAs (Decidable (¬ _))
  | .push _ _ _ _ _ | .post _ | .runTask _ | .report _ _ | .begin => .isTrue trivial

end

/-! ## The invariant -/

/-- A call that waits alone will be seen. -/
def Woken (s : CallWakeup ι Req) : Prop :=
  s.world.owner.sendcall ≠ [] → s.world.owner.waitcall = [] → s.world.owner.donecall = [] →
    ¬ InHand s.todo →
      (∃ i, s.posting i = true) ∨ s.writeEvent = true ∨ LooksAhead s.todo ∨ LastAhead s.todo ∨
        s.settled.due = true ∨ ¬ s.world.stream.writebuf.isEmpty

/-- Where EPOLLOUT is asked for, a WRITE is under way, or there is something to send. -/
def Armed (s : CallWakeup ι Req) : Prop :=
  s.settled.asked = true →
    s.settled.due = true ∨ s.writeEvent = true ∨ .writeable ∈ s.todo ∨ LastAhead s.todo ∨
      ¬ s.world.stream.writebuf.isEmpty ∨ s.world.owner.waitcall ≠ [] ∨ InHand s.todo

/-- The invariant. -/
structure Inv (s : CallWakeup ι Req) : Prop where
  woken : Woken s
  armed : Armed s

variable {s s' : CallWakeup ι Req}

lemma inv_init (options : RpcChannelOptions) (cntl : ℕ → RpcClientController Req)
    (connecting : Bool) : Inv (init options cntl connecting : CallWakeup ι Req) where
  woken h := absurd rfl h
  armed h := Or.inl h

/-- No call is forgotten where the invariant holds. -/
lemma Inv.noneForgotten (h : Inv s) : ¬ s.Forgotten := by
  rintro ⟨hq, hsend, hwait, hdone⟩
  have hnil : s.settled = s.out := by rw [settled, hq.tasks]; rfl
  have htodo := hq.todo
  rcases h.woken hsend hwait hdone (by simp [htodo, InHand]) with
    ⟨i, hi⟩ | hevent | hlooks | hlast | hdue | hempty
  · exact Bool.false_ne_true ((hq.posting i).symm.trans hi)
  · exact Bool.false_ne_true (hq.writeEvent.symm.trans hevent)
  · simp [htodo, LooksAhead] at hlooks
  · simp [htodo, LastAhead] at hlast
  · rw [hnil] at hdue
    exact Bool.false_ne_true (hq.due.symm.trans hdue)
  · exact hempty hq.empty

/-- What is ahead is not lost. -/
structure Ahead (s s' : CallWakeup ι Req) : Prop where
  le : s.settled.Le s'.settled
  buf : s'.world.stream.writebuf = s.world.stream.writebuf
  writeEvent : s.writeEvent = true → s'.writeEvent = true ∨ .writeable ∈ s'.todo
  writeable : .writeable ∈ s.todo → .writeable ∈ s'.todo
  last : LastAhead s.todo → LastAhead s'.todo
  hand : InHand s.todo → InHand s'.todo

lemma Armed.mono (h : Armed s) (ha : Ahead s s')
    (hwait : s'.world.owner.waitcall = s.world.owner.waitcall) : Armed s' := by
  intro hasked
  rw [ha.buf, hwait]
  rcases h (ha.le.1.trans hasked) with hdue | hevent | hwr | hlast | hempty | hw | hin
  · exact Or.inl (ha.le.2 hdue)
  · exact Or.inr ((ha.writeEvent hevent).imp id Or.inl)
  · exact Or.inr (Or.inr (Or.inl (ha.writeable hwr)))
  · exact Or.inr (Or.inr (Or.inr (Or.inl (ha.last hlast))))
  · exact Or.inr (Or.inr (Or.inr (Or.inr (Or.inl hempty))))
  · exact Or.inr (Or.inr (Or.inr (Or.inr (Or.inr (Or.inl hw)))))
  · exact Or.inr (Or.inr (Or.inr (Or.inr (Or.inr (Or.inr (ha.hand hin))))))

lemma Woken.mono (h : Woken s) (ha : Ahead s s') (hlooks : LooksAhead s.todo → LooksAhead s'.todo)
    (hposting : s'.posting = s.posting)
    (howner : s'.world.owner.sendcall = s.world.owner.sendcall ∧
      s'.world.owner.waitcall = s.world.owner.waitcall ∧
      s'.world.owner.donecall = s.world.owner.donecall) : Woken s' := by
  intro hsend hwait hdone hhand
  rw [howner.1] at hsend
  rw [howner.2.1] at hwait
  rw [howner.2.2] at hdone
  rw [ha.buf, hposting]
  rcases h hsend hwait hdone (fun hin => hhand (ha.hand hin)) with
    hpost | hevent | hl | hlast | hdue | hempty
  · exact Or.inl hpost
  · exact Or.inr ((ha.writeEvent hevent).imp id fun hwr => Or.inl (Or.inl hwr))
  · exact Or.inr (Or.inr (Or.inl (hlooks hl)))
  · exact Or.inr (Or.inr (Or.inr (Or.inl (ha.last hlast))))
  · exact Or.inr (Or.inr (Or.inr (Or.inr (Or.inl (ha.le.2 hdue)))))
  · exact Or.inr (Or.inr (Or.inr (Or.inr (Or.inr hempty))))

/-- Nothing that matters is touched. -/
lemma Inv.mono (h : Inv s) (ha : Ahead s s') (hlooks : LooksAhead s.todo → LooksAhead s'.todo)
    (hposting : s'.posting = s.posting)
    (howner : s'.world.owner.sendcall = s.world.owner.sendcall ∧
      s'.world.owner.waitcall = s.world.owner.waitcall ∧
      s'.world.owner.donecall = s.world.owner.donecall) : Inv s' :=
  ⟨h.woken.mono ha hlooks hposting howner, h.armed.mono ha howner.2.1⟩

/-! ### Threads, tasks and events -/

section

variable [DecidableEq ι]

lemma Inv.push (h : Inv s) (i : ι) (controller : RpcClientController Req) (method : Bytes)
    (request : Req) (done : Bool) : Inv (s.act (.push i controller method request done)) where
  woken _ _ _ _ := Or.inl ⟨i, Function.update_self ..⟩
  armed hasked := h.armed hasked

/-- The post wakes the stream, or something is under way that looks at `sendcall` anyway. -/
lemma Inv.post (h : Inv s) (i : ι) : Inv (s.act (.post i)) := by
  have hsettled : (s.act (.post i)).settled = s.settled.modEvent false true :=
    WriteInterest.settled_append (.modEvent true true)
  obtain ⟨-, hdue⟩ := s.settled.modEvent_true false
  constructor
  · intro hsend hwait hdone hhand
    rw [hsettled]
    cases hasked : s.settled.asked with
    | false => exact Or.inr (Or.inr (Or.inr (Or.inr (Or.inl (hdue (Or.inl hasked))))))
    | true =>
      rcases h.armed hasked with hd | hevent | hwr | hlast | hempty | hw | hin
      · exact Or.inr (Or.inr (Or.inr (Or.inr (Or.inl (hdue (Or.inr hd))))))
      · exact Or.inr (Or.inl hevent)
      · exact Or.inr (Or.inr (Or.inl (Or.inl hwr)))
      · exact Or.inr (Or.inr (Or.inr (Or.inl hlast)))
      · exact Or.inr (Or.inr (Or.inr (Or.inr (Or.inr hempty))))
      · exact absurd hwait hw
      · exact absurd hin hhand
  · intro _
    rw [hsettled]
    cases hasked : s.settled.asked with
    | false => exact Or.inl (hdue (Or.inl hasked))
    | true => exact (h.armed hasked).imp (fun hd => hdue (Or.inr hd)) id

lemma Inv.runTask (h : Inv s) (keep : Bool) : Inv (s.act (.runTask keep)) := by
  rw [act]
  cases ht : s.world.stream.tasks with
  | nil => exact h
  | cons t tasks =>
    have hsettled : s.settled = (s.out.task false t).settled tasks := by
      rw [settled, CallWakeup.tasks, ht]
      rfl
    refine h.mono ⟨?_, rfl, Or.inl, id, id, id⟩ id rfl ⟨rfl, rfl, rfl⟩
    rw [hsettled]
    exact ((WriteInterest.Le.refl _).task keep t).settled

lemma Inv.report (h : Inv s) (read write : Bool) : Inv (s.act (.report read write)) := by
  cases write with
  | true =>
    have hevent : (s.act (.report read true)).writeEvent = true := Bool.or_true _
    exact ⟨fun _ _ _ _ => Or.inr (Or.inl hevent), fun _ => Or.inr (Or.inl hevent)⟩
  | false =>
    have hout : (s.act (.report read false)).out = s.out := by simp [act]
    have hevent : s.writeEvent = true → (s.act (.report read false)).writeEvent = true := by
      intro hevent
      simp [act, hevent]
    have hahead : Ahead s (s.act (.report read false)) := by
      refine ⟨?_, rfl, fun he => Or.inl (hevent he), id, id, id⟩
      rw [settled, settled, hout]
      exact WriteInterest.Le.refl _
    exact h.mono hahead id rfl ⟨rfl, rfl, rfl⟩

/-- What the bits ask for is begun. -/
lemma Inv.begin (h : Inv s) (hidle : s.todo = []) : Inv (s.act .begin) := by
  have hwr : s.writeEvent = true → .writeable ∈ (s.act .begin).todo := by
    intro hevent
    simp [act, eventOps, hevent]
  refine h.mono (⟨WriteInterest.Le.refl _, rfl, fun he => Or.inr (hwr he), ?_, ?_, ?_⟩ :
    Ahead s (s.act .begin)) ?_ rfl ⟨rfl, rfl, rfl⟩
  · simp [hidle]
  · simp [hidle, LastAhead]
  · simp [hidle, InHand]
  · simp [hidle, LooksAhead]

end

/-! ### Operations -/

/-- What an operation leaves. -/
def after (s : CallWakeup ι Req) (p : List EventOp × ChannelWorld Req) : CallWakeup ι Req :=
  { s with todo := p.1, world := p.2 }

/-- An operation that is no look, and leaves what matters. -/
lemma Inv.pass {op : EventOp} {rest : List EventOp} {p : List EventOp × ChannelWorld Req}
    (h : Inv s) (htodo : s.todo = op :: rest)
    (hplain : ¬ LooksAhead [op] ∧ ¬ LastAhead [op] ∧ ¬ InHand [op]) (hrest : ∀ o ∈ rest, o ∈ p.1)
    (hsettled : s.out.settled p.2.stream.tasks = s.settled)
    (hbuf : p.2.stream.writebuf = s.world.stream.writebuf)
    (hwait : p.2.owner.waitcall = s.world.owner.waitcall) :
    Armed (s.after p) ∧
      (p.2.owner.sendcall = s.world.owner.sendcall ∧
        p.2.owner.donecall = s.world.owner.donecall → Inv (s.after p)) := by
  obtain ⟨hlooks, hlast, hhand⟩ := hplain
  have hmem : ∀ o, o ≠ op → o ∈ s.todo → o ∈ p.1 := by
    intro o hne ho
    rw [htodo, List.mem_cons] at ho
    exact hrest o (ho.resolve_left hne)
  simp only [LooksAhead, List.mem_singleton, not_or] at hlooks
  obtain ⟨hwr, hlook, hnext⟩ := hlooks
  have ha : Ahead s (s.after p) := by
    refine ⟨?_, hbuf, Or.inl, hmem _ hwr, ?_, ?_⟩
    · rw [show (s.after p).settled = s.settled from hsettled]
      exact WriteInterest.Le.refl _
    · rw [htodo, lastAhead_cons]
      exact fun h => absurd h hlast
    · rw [htodo, inHand_cons]
      exact fun h => absurd h hhand
  refine ⟨h.armed.mono ha hwait, fun ⟨hsend, hdone⟩ => h.mono ha ?_ rfl ⟨hsend, hwait, hdone⟩⟩
  rintro (h | h | h)
  · exact Or.inl (hmem _ hwr h)
  · exact Or.inr (Or.inl (hmem _ hlook h))
  · exact Or.inr (Or.inr (hmem _ hnext h))

/-- A call that has been popped is on its way. -/
lemma inv_of_inHand {p : List EventOp × ChannelWorld Req} (hhand : InHand p.1) :
    Inv (s.after p) :=
  ⟨fun _ _ _ h => absurd hhand h,
    fun _ => Or.inr (Or.inr (Or.inr (Or.inr (Or.inr (Or.inr hhand)))))⟩

/-- Where the last test is ahead, nothing is claimed. -/
lemma inv_of_lastAhead {p : List EventOp × ChannelWorld Req} (hlast : LastAhead p.1) :
    Inv (s.after p) :=
  ⟨fun _ _ _ _ => Or.inr (Or.inr (Or.inr (Or.inl hlast))),
    fun _ => Or.inr (Or.inr (Or.inr (Or.inl hlast)))⟩

lemma parseResponse_tasks (env : ChannelEnv Req) (w : ChannelWorld Req) :
    (RpcChannelImpl.parseResponse env w).2.stream.tasks = w.stream.tasks := by
  rw [RpcChannelImpl.parseResponse]
  dsimp only
  split <;> rfl

/-- `OnMessageRecived` takes a call out of `donecall`, and looks at `sendcall` afterwards. -/
lemma Inv.recived (h : Inv s) {io : OpInput Req} {rest : List EventOp}
    (htodo : s.todo = .recived :: rest)
    (herror : (perform io (.recived :: rest) s.world).2.stream.closeWhenEmpty = false) :
    Inv (s.after (perform io (.recived :: rest) s.world)) := by
  have hplain : ¬ LooksAhead [.recived] ∧ ¬ LastAhead [.recived] ∧ ¬ InHand [.recived] := by
    simp [LooksAhead, LastAhead, InHand]
  have hdel : s.out.settled (s.world.stream.delReadTimeOutAsync).tasks = s.settled :=
    WriteInterest.settled_append .delReadTimeOut
  rw [perform] at herror ⊢
  dsimp only at herror ⊢
  cases hd : (s.world.modifyStream (·.delReadTimeOutAsync)).owner.donecall with
  | nil =>
    exact (h.pass htodo hplain (fun _ ho => ho) hdel rfl rfl).2 ⟨rfl, rfl⟩
  | cons id ids =>
    rw [hd] at herror
    dsimp only at herror ⊢
    obtain ⟨-, hext, hbuf⟩ := RpcChannelImpl.parseResponse_spec io.env
      ((s.world.modifyStream (·.delReadTimeOutAsync)).modifyOwner fun s =>
        { s with donecall := ids })
    have htasks := parseResponse_tasks io.env
      ((s.world.modifyStream (·.delReadTimeOutAsync)).modifyOwner fun s =>
        { s with donecall := ids })
    rcases hp : RpcChannelImpl.parseResponse io.env
      ((s.world.modifyStream (·.delReadTimeOutAsync)).modifyOwner fun s =>
        { s with donecall := ids }) with ⟨_ | _, w⟩
    · rw [hp] at herror
      exact absurd herror Bool.noConfusion
    · rw [hp] at hext hbuf htasks
      dsimp only at hext hbuf htasks ⊢
      refine ⟨fun _ _ _ _ => Or.inr (Or.inr (Or.inl (Or.inr (Or.inr ?_)))), ?_⟩
      · exact List.mem_cons_self
      · refine (h.pass (p := (.lookNext :: rest, _)) htodo hplain
          (fun _ ho => List.mem_cons_of_mem _ ho) ?_ ?_ ?_).1
        · cases (w.owner.cntl id).done <;> exact htasks ▸ hdel
        · cases (w.owner.cntl id).done <;> exact hbuf
        · have hwait : w.owner.waitcall = s.world.owner.waitcall :=
            congrArg (fun e => e.owner.waitcall) hext
          cases (w.owner.cntl id).done <;> exact hwait

lemma settled_postModEvent (w : Bool) (rest : List EventOp) :
    (s.after (rest, postModEvent w s.world)).settled = s.settled.modEvent false w :=
  WriteInterest.settled_append (.modEvent true w)

/-- The first test of `OnWriteable` disables write before the look. -/
lemma inv_writeable (io : OpInput Req) (rest : List EventOp) :
    Inv (s.after (perform io (.writeable :: rest) s.world)) := by
  have hlooks : LooksAhead (.look :: .testEmpty :: rest) := Or.inr (Or.inl List.mem_cons_self)
  refine ⟨fun _ _ _ _ => Or.inr (Or.inr (Or.inl hlooks)), ?_⟩
  rw [perform]
  split
  · intro hasked
    rw [settled_postModEvent, WriteInterest.modEvent_false] at hasked
    exact absurd hasked Bool.false_ne_true
  · rename_i hempty
    exact fun _ => Or.inr (Or.inr (Or.inr (Or.inr (Or.inl hempty))))

/-- The look of `OnWriteable` finds no call, pops one, or a call is on its way. -/
lemma Inv.look (h : Inv s) (io : OpInput Req) {rest : List EventOp}
    (htodo : s.todo = .look :: rest) : Inv (s.after (perform io (.look :: rest) s.world)) := by
  have ha : Armed (s.after (rest, s.world)) := by
    refine h.armed.mono ⟨WriteInterest.Le.refl _, rfl, Or.inl, ?_, ?_, ?_⟩ rfl
    · simp [htodo, after]
    · simp [htodo, LastAhead]
    · simp [htodo, InHand]
  rw [perform]
  cases hs : s.world.owner.sendcall with
  | nil => exact ⟨fun hsend => absurd hs hsend, ha⟩
  | cons id ids =>
    dsimp only
    split
    · exact inv_of_inHand trivial
    · rename_i hflying
      exact ⟨fun _ hwait hdone => absurd ⟨hwait, hdone⟩ hflying, ha⟩

/-- So does the look of `OnMessageRecived`. -/
lemma Inv.lookNext (h : Inv s) (io : OpInput Req) {rest : List EventOp}
    (htodo : s.todo = .lookNext :: rest) :
    Inv (s.after (perform io (.lookNext :: rest) s.world)) := by
  rw [perform]
  cases hs : s.world.owner.sendcall with
  | nil =>
    refine ⟨fun hsend => absurd hs hsend, h.armed.mono ⟨WriteInterest.Le.refl _, rfl, Or.inl, ?_,
      ?_, ?_⟩ rfl⟩
    · simp [htodo, after]
    · simp [htodo, LastAhead]
    · simp [htodo, InHand]
  | cons id ids => exact inv_of_inHand trivial

/-- The last test of `OnWriteable`. -/
lemma inv_disableLast (io : OpInput Req) {rest : List EventOp}
    (htodo : s.todo = .disableLast :: rest) (hok : ¬ s.LosesWake) :
    Inv (s.after (perform io (.disableLast :: rest) s.world)) := by
  rw [perform]
  split
  · rename_i hempty
    constructor
    · intro hsend hwait hdone _
      -- otherwise the wake-up is lost
      by_cases hpost : ∃ i, s.posting i = true
      · exact Or.inl hpost
      by_cases hevent : s.writeEvent = true
      · exact Or.inr (Or.inl hevent)
      by_cases hdue : (s.settled.modEvent false false).due = true
      · rw [settled_postModEvent]
        exact Or.inr (Or.inr (Or.inr (Or.inr (Or.inl hdue))))
      refine absurd ⟨by rw [htodo]; rfl, hempty, hsend, hwait, hdone, fun i => ?_, ?_, ?_⟩ hok
      · exact Bool.eq_false_iff.mpr fun hi => hpost ⟨i, hi⟩
      · exact Bool.eq_false_iff.mpr hevent
      · exact Bool.eq_false_iff.mpr hdue
    · intro hasked
      rw [settled_postModEvent, WriteInterest.modEvent_false] at hasked
      exact absurd hasked Bool.false_ne_true
  · rename_i hempty
    exact ⟨fun _ _ _ _ => Or.inr (Or.inr (Or.inr (Or.inr (Or.inr hempty)))),
      fun _ => Or.inr (Or.inr (Or.inr (Or.inr (Or.inl hempty))))⟩

/-- An operation keeps the invariant, unless it loses a wake-up. -/
lemma Inv.op [DecidableEq ι] (h : Inv s) {io : OpInput Req} (hne : s.todo ≠ [])
    (hok : ¬ s.LosesWake) (herror : (s.act (.op io)).NoError) : Inv (s.act (.op io)) := by
  obtain ⟨op, rest, htodo⟩ := List.exists_cons_of_ne_nil hne
  have hact : s.act (.op io) = s.after (perform io (op :: rest) s.world) := by
    rw [act, htodo]
    rfl
  rw [hact] at herror ⊢
  cases op with
  | connect =>
    exact (h.pass htodo (by simp [LooksAhead, LastAhead, InHand]) (fun _ ho => ho) rfl rfl rfl).2
      ⟨rfl, rfl⟩
  | read =>
    refine (h.pass htodo (by simp [LooksAhead, LastAhead, InHand]) ?_ rfl rfl rfl).2 ⟨rfl, rfl⟩
    intro o ho
    rw [perform]
    dsimp only
    split
    · simp [ho]
    · exact ho
  | recived => exact h.recived htodo herror.2
  | lookNext => exact h.lookNext io htodo
  | packetDone =>
    exact (h.pass htodo (by simp [LooksAhead, LastAhead, InHand]) (fun _ ho => ho) rfl rfl rfl).2
      ⟨rfl, rfl⟩
  | writeable => exact inv_writeable io rest
  | look => exact h.look io htodo
  | send id next => exact inv_of_inHand trivial
  | pushWait id next =>
    have hwait : (s.after (perform io (.pushWait id next :: rest) s.world)).world.owner.waitcall
        ≠ [] := by
      rw [after, perform]
      simp
    exact ⟨fun _ h _ _ => absurd h hwait,
      fun _ => Or.inr (Or.inr (Or.inr (Or.inr (Or.inr (Or.inl hwait)))))⟩
  | testEmpty =>
    rw [perform]
    split
    · exact (h.pass htodo (by simp [LooksAhead, LastAhead, InHand]) (fun _ ho => ho) rfl rfl rfl).2
        ⟨rfl, rfl⟩
    · exact inv_of_lastAhead trivial
  | write writeSize =>
    rw [perform]
    split
    · exact inv_of_lastAhead trivial
    · split <;> exact inv_of_lastAhead trivial
  | sended writeSize => exact inv_of_lastAhead trivial
  | disableLast => exact inv_disableLast io htodo hok

/-- Other tasks, and what epoll has then. -/
def withTasks (s : CallWakeup ι Req) (tasks : List PollerTask) (out : WriteInterest) :
    CallWakeup ι Req :=
  { s with world := s.world.modifyStream fun st => { st with tasks := tasks }, out := out }

/-! ### What has been sent -/

/-- A call has been sent, or is being sent. -/
def Flying (s : CallWakeup ι Req) : Prop :=
  s.world.owner.waitcall ≠ [] ∨ s.world.owner.donecall ≠ []

/-- What is in the write buffer is of a call, and so is what `OnWriteable` writes. -/
structure Sent (s : CallWakeup ι Req) : Prop where
  buf : ¬ s.world.stream.writebuf.isEmpty → s.Flying ∨ InHand s.todo
  last : LastAhead s.todo → s.Flying

lemma Flying.sent (h : s.Flying) : Sent s := ⟨fun _ => Or.inl h, fun _ => h⟩

/-- A call that flies cannot be overlooked. -/
lemma Sent.keepsWake (h : Sent s) (a : WakeupAct ι Req) : s.KeepsWake a := by
  cases a with
  | op io =>
    intro hlost
    obtain ⟨rest, hrest⟩ := List.head?_eq_some_iff.mp hlost.disables
    rcases h.last (by rw [hrest]; trivial) with hwait | hdone
    · exact hwait hlost.waitcall
    · exact hdone hlost.donecall
  | _ => trivial

/-- The buffer and the calls are left, and the operations that follow write nothing. -/
lemma Sent.pass {p : List EventOp × ChannelWorld Req} (h : Sent s)
    (hbuf : p.2.stream.writebuf = s.world.stream.writebuf)
    (hwait : p.2.owner.waitcall = s.world.owner.waitcall)
    (hdone : p.2.owner.donecall = s.world.owner.donecall)
    (hhand : InHand s.todo → InHand p.1) (hlast : ¬ LastAhead p.1) : Sent (s.after p) where
  buf hempty := by
    have hempty : ¬ p.2.stream.writebuf.isEmpty := hempty
    rw [hbuf] at hempty
    rw [Flying, show (s.after p).world = p.2 from rfl, hwait, hdone]
    exact (h.buf hempty).imp id hhand
  last hl := absurd hl hlast

/-- `OnMessageSended` takes no call away. -/
lemma flying_onMessageSended (bufferSize : ℤ) {w : ChannelWorld Req}
    (h : w.owner.waitcall ≠ [] ∨ w.owner.donecall ≠ []) :
    (RpcChannelImpl.onMessageSended bufferSize w).owner.waitcall ≠ [] ∨
      (RpcChannelImpl.onMessageSended bufferSize w).owner.donecall ≠ [] := by
  have hperm := (RpcChannelImpl.sendedLoop_queues (2 ^ 32 * (w.owner.waitcall.length + 1))
    bufferSize w).2
  by_contra hnil
  rw [not_or, not_not, not_not, RpcChannelImpl.onMessageSended] at hnil
  rw [hnil.1, hnil.2] at hperm
  obtain ⟨hwait, hdone⟩ := List.append_eq_nil_iff.mp (List.perm_nil.mp hperm.symm)
  exact h.elim (fun h => h hwait) fun h => h hdone

/-- `OnMessageRecived` takes the last call away only when everything is sent. -/
lemma Sent.recived (h : Sent s) {io : OpInput Req} {rest : List EventOp}
    (htodo : s.todo = .recived :: rest) (hfollow : CanFollow rest)
    (hok : s.world.owner.donecall ≠ [] → s.world.stream.writebuf.isEmpty)
    (herror : (perform io (.recived :: rest) s.world).2.stream.closeWhenEmpty = false) :
    Sent (s.after (perform io (.recived :: rest) s.world)) := by
  have hhand : ¬ InHand s.todo := by rw [htodo]; exact id
  rw [perform] at herror ⊢
  dsimp only at herror ⊢
  cases hd : (s.world.modifyStream (·.delReadTimeOutAsync)).owner.donecall with
  | nil => exact h.pass rfl rfl rfl (fun hin => absurd hin hhand) hfollow.shaped.2.1
  | cons id ids =>
    rw [hd] at herror
    dsimp only at herror ⊢
    have hempty : s.world.stream.writebuf.isEmpty := by
      refine hok ?_
      rw [show s.world.owner.donecall = id :: ids from hd]
      exact List.cons_ne_nil _ _
    have hbuf := (RpcChannelImpl.parseResponse_spec io.env
      ((s.world.modifyStream (·.delReadTimeOutAsync)).modifyOwner fun s =>
        { s with donecall := ids })).2.2
    rcases hp : RpcChannelImpl.parseResponse io.env
      ((s.world.modifyStream (·.delReadTimeOutAsync)).modifyOwner fun s =>
        { s with donecall := ids }) with ⟨_ | _, w⟩
    · rw [hp] at herror
      exact absurd herror Bool.noConfusion
    · rw [hp] at hbuf
      have hbuf : w.stream.writebuf.isEmpty := by
        rw [show w.stream.writebuf = s.world.stream.writebuf from hbuf]
        exact hempty
      refine ⟨fun hne => absurd ?_ hne, False.elim⟩
      dsimp only [after]
      cases (w.owner.cntl id).done <;> exact hbuf

/-! ## Runs without a lost wake-up -/

section

variable [DecidableEq ι] {options : RpcChannelOptions} {cntl : ℕ → RpcClientController Req}
  {connecting : Bool} {a : WakeupAct ι Req} {h : List (CallWakeup ι Req × WakeupAct ι Req)}

/-- A step that loses no wake-up keeps the invariant. -/
lemma inv_act (hs : Inv s) (hok : s.KeepsWake a) (hen : s.Enabled a)
    (herror : (s.act a).NoError) : Inv (s.act a) := by
  cases a with
  | push i controller method request done => exact hs.push i controller method request done
  | post i => exact hs.post i
  | runTask keep => exact hs.runTask keep
  | report read write => exact hs.report read write
  | begin => exact hs.begin hen.1
  | op io => exact hs.op hen hok herror

/-- As long as the stream is open and no error occurs, no run in which `OnWriteable` loses no
wake-up comes to a quiet state in which a call waits in `sendcall` and no other is on its way. -/
theorem not_forgotten (hrun : Exec.Run Step (init options cntl connecting) h s)
    (hok : Exec.Admits KeepsWake h) : Exec.Always (fun s => ¬ s.Forgotten) h s := by
  have halways := hrun.always (inv_init options cntl connecting) (fun s a t hs hok hst => by
    obtain ⟨⟨hen, herror⟩, rfl⟩ := hst
    exact inv_act hs hok hen herror) hok
  exact ⟨fun p hp => (halways.1 p hp).noneForgotten, halways.2.noneForgotten⟩

/-! ### Responses to what has been sent -/

/-- An operation keeps that, unless it is such a response. -/
lemma Sent.op (h : Sent s) (hshaped : Shaped s.todo) {io : OpInput Req} (hne : s.todo ≠ [])
    (hok : s.AnswersSent (.op io)) (herror : (s.act (.op io)).NoError) :
    Sent (s.act (.op io)) := by
  obtain ⟨op, rest, htodo⟩ := List.exists_cons_of_ne_nil hne
  have hact : s.act (.op io) = s.after (perform io (op :: rest) s.world) := by
    rw [act, htodo]
    rfl
  have hfollow : CanFollow rest := by
    rw [htodo] at hshaped
    exact hshaped.2
  obtain ⟨-, hlast, -⟩ := hfollow.shaped
  rw [hact] at herror ⊢
  cases op with
  | connect => exact h.pass rfl rfl rfl (by rw [htodo]; exact False.elim) hlast
  | read =>
    refine h.pass rfl rfl rfl (by rw [htodo]; exact False.elim) ?_
    rw [perform]
    dsimp only
    split
    · exact id
    · exact hlast
  | recived => exact h.recived htodo hfollow (hok (by rw [htodo]; rfl)) herror.2
  | lookNext =>
    rw [perform]
    split
    · exact h.pass rfl rfl rfl (by rw [htodo]; exact False.elim) hlast
    · exact ⟨fun _ => Or.inr trivial, False.elim⟩
  | packetDone => exact h.pass rfl rfl rfl (by rw [htodo]; exact False.elim) hlast
  | writeable =>
    rw [perform]
    split <;> exact h.pass rfl rfl rfl (by rw [htodo]; exact False.elim) id
  | look =>
    rw [perform]
    split
    · exact h.pass rfl rfl rfl (by rw [htodo]; exact False.elim) hlast
    · split
      · exact ⟨fun _ => Or.inr trivial, False.elim⟩
      · exact h.pass rfl rfl rfl (by rw [htodo]; exact False.elim) hlast
  | send id next => exact ⟨fun _ => Or.inr trivial, False.elim⟩
  | pushWait id next =>
    refine Flying.sent (Or.inl ?_)
    rw [after, perform]
    simp
  | testEmpty =>
    rw [perform]
    split
    · exact h.pass rfl rfl rfl (by rw [htodo]; exact False.elim) hlast
    · rename_i hempty
      have hfly : s.Flying := by
        refine (h.buf hempty).resolve_right ?_
        rw [htodo]
        exact id
      exact Flying.sent hfly
  | write writeSize =>
    have hfly : s.Flying := h.last (by rw [htodo]; trivial)
    rw [perform]
    split
    · exact Flying.sent hfly
    · split <;> exact Flying.sent hfly
  | sended writeSize =>
    have hfly : s.Flying := h.last (by rw [htodo]; trivial)
    rw [perform]
    split
    · exact Flying.sent (flying_onMessageSended _ hfly)
    · exact Flying.sent hfly
  | disableLast =>
    have hfly : s.Flying := h.last (by rw [htodo]; trivial)
    rw [perform]
    split <;> exact Flying.sent hfly

lemma shaped_act (hs : Shaped s.todo) : Shaped (s.act a).todo := by
  cases a with
  | runTask keep =>
    rw [act]
    split <;> exact hs
  | begin => exact shaped_eventOps _ _
  | op io => exact shaped_perform io hs _
  | _ => exact hs

/-- Every step keeps that, unless it is such a response. -/
lemma Sent.act (h : Sent s) (hshaped : Shaped s.todo) (hok : s.AnswersSent a) (hen : s.Enabled a)
    (herror : (s.act a).NoError) : Sent (s.act a) := by
  cases a with
  | runTask keep =>
    rw [CallWakeup.act]
    split <;> exact ⟨h.buf, h.last⟩
  | begin =>
    obtain ⟨hidle, -⟩ := hen
    refine ⟨fun hempty => Or.inl ((h.buf hempty).resolve_right ?_), False.elim⟩
    rw [hidle]
    exact id
  | op io => exact h.op hshaped hen hok herror
  | _ => exact ⟨h.buf, h.last⟩

/-- Where no response is taken for a request of which a part is still to be sent, no call is
forgotten. -/
theorem not_forgotten_of_answersSent
    (hrun : Exec.Run Step (init options cntl connecting) h s)
    (hok : Exec.Admits AnswersSent h) : Exec.Always (fun s => ¬ s.Forgotten) h s := by
  have h0 : Sent (init options cntl connecting : CallWakeup ι Req) :=
    ⟨fun hempty => absurd rfl hempty, False.elim⟩
  have hstep : ∀ (s : CallWakeup ι Req) a t, (Inv s ∧ Sent s ∧ Shaped s.todo) →
      AnswersSent s a → Step s a t → Inv t ∧ Sent t ∧ Shaped t.todo := by
    rintro s a _ ⟨hinv, hsent, hshaped⟩ hok ⟨⟨hen, herror⟩, rfl⟩
    exact ⟨inv_act hinv (hsent.keepsWake a) hen herror, hsent.act hshaped hok hen herror,
      shaped_act hshaped⟩
  have halways := Exec.Run.always (I := fun s => Inv s ∧ Sent s ∧ Shaped s.todo)
    ⟨inv_init options cntl connecting, h0, trivial⟩ hstep hrun hok
  exact ⟨fun p hp => (halways.1 p hp).1.noneForgotten, halways.2.1.noneForgotten⟩

/-! ### What is left of a wake-up that is lost -/

/-- The first of the tasks run. -/
lemma run_tasks (hs : s.NoError) (pre suf : List PollerTask) (htasks : s.tasks = pre ++ suf) :
    ∃ h, Exec.Run Step s h (s.withTasks suf (s.out.settled pre)) := by
  induction pre using List.reverseRecOn generalizing suf with
  | nil =>
    have hsame : s.withTasks suf (s.out.settled []) = s := by
      rw [← show s.tasks = suf from htasks]
      rfl
    exact ⟨[], hsame ▸ .nil⟩
  | append_singleton pre t ih =>
    obtain ⟨h, hrun⟩ := ih (t :: suf) (by rw [htasks, List.append_assoc]; rfl)
    have hen : (s.withTasks (t :: suf) (s.out.settled pre)).Enabled (.runTask false) :=
      List.cons_ne_nil t suf
    have hnext : ((s.withTasks (t :: suf) (s.out.settled pre)).act (.runTask false)).NoError := hs
    refine ⟨_, hrun.snoc ⟨⟨hen, hnext⟩, ?_⟩⟩
    rw [WriteInterest.settled_append]
    rfl

/-- An event in which nothing is complete. -/
lemma run_read (hs : s.NoError) (hidle : s.todo = []) (hread : s.readEvent = true)
    (hwrite : s.writeEvent = false) (io : OpInput Req) (hio : io.complete = false) :
    ∃ h s', Exec.Run Step s h s' ∧ s'.todo = [] ∧ s'.readEvent = false ∧ s'.writeEvent = false ∧
      s'.out = s.out ∧ s'.posting = s.posting ∧ s'.tasks = s.tasks ∧
      s'.world.stream.writebuf = s.world.stream.writebuf ∧ s'.world.owner = s.world.owner := by
  have hbegin : s.act .begin
      = { s with readEvent := false, writeEvent := false, todo := [.connect, .read] } := by
    rw [act, hread, hwrite]
    rfl
  generalize hs₁ : ({ s with readEvent := false, writeEvent := false, todo := [.connect, .read] } :
    CallWakeup ι Req) = s₁ at hbegin
  have hfirst : Exec.Run Step s ([] ++ [(s, .begin)]) s₁ :=
    .snoc .nil ⟨⟨⟨hidle, Or.inl hread⟩, hbegin ▸ hs₁ ▸ hs⟩, hbegin.symm⟩
  have hen₁ : s₁.Enabled (.op io) := hs₁ ▸ List.cons_ne_nil _ _
  have hnext₁ : (s₁.act (.op io)).NoError := hs₁ ▸ hs
  have hen₂ : (s₁.act (.op io)).Enabled (.op io) := hs₁ ▸ List.cons_ne_nil EventOp.read []
  have hnext₂ : ((s₁.act (.op io)).act (.op io)).NoError := hs₁ ▸ hs
  refine ⟨_, _, (hfirst.snoc ⟨⟨hen₁, hnext₁⟩, rfl⟩).snoc ⟨⟨hen₂, hnext₂⟩, rfl⟩, ?_⟩
  rw [← hs₁]
  refine ⟨?_, rfl, rfl, rfl, rfl, rfl, rfl, rfl⟩
  change (if io.complete then EventOp.recived :: .packetDone :: .read :: [] else []) = []
  rw [hio]
  rfl

/-- Where `OnWriteable` loses a wake-up, the run can go on so that a call is forgotten: the event
ends, the tasks run, and nothing is received. -/
theorem forgotten_of_losesWake (hrun : Exec.Run Step (init options cntl connecting) h s)
    (hlost : s.LosesWake) (hs : s.NoError) (io : OpInput Req) :
    ∃ h' s', Exec.Run Step (s.act (.op io)) h' s' ∧ s'.Forgotten := by
  have hnil : Shaped (init options cntl connecting : CallWakeup ι Req).todo := trivial
  have hshaped : Shaped s.todo := by
    refine hrun.invariant_all (fun s => Shaped s.todo) hnil ?_
    rintro s a _ hs ⟨-, rfl⟩
    exact shaped_act hs
  -- the last test is the last operation
  have htodo : s.todo = [.disableLast] := by
    obtain ⟨rest, hrest⟩ := List.head?_eq_some_iff.mp hlost.disables
    rw [hrest] at hshaped ⊢
    rw [hshaped.1 trivial]
  have hact : s.act (.op io) = s.after ([], postModEvent false s.world) := by
    rw [act, htodo, perform, if_pos hlost.empty]
    rfl
  have hdue : (s.after ([], postModEvent false s.world)).settled.due = false := by
    rw [settled_postModEvent]
    exact hlost.due
  rw [hact]
  obtain ⟨h₁, hrun₁⟩ := run_tasks (s := s.after ([], postModEvent false s.world)) hs _ []
    (List.append_nil _).symm
  cases hread : s.readEvent with
  | false =>
    exact ⟨h₁, _, hrun₁, ⟨hlost.posting, rfl, hdue, hread, hlost.writeEvent, rfl, hlost.empty⟩,
      hlost.sendcall, hlost.waitcall, hlost.donecall⟩
  | true =>
    obtain ⟨h₂, s', hrun₂, htodo', hread', hwrite', hout, hposting, htasks, hbuf, howner⟩ :=
      run_read (s := (s.after ([], postModEvent false s.world)).withTasks [] _) hs rfl hread
        hlost.writeEvent { io with complete := false } rfl
    refine ⟨h₁ ++ h₂, s', hrun₁.trans hrun₂, ⟨?_, htasks, ?_, hread', hwrite', htodo', ?_⟩, ?_⟩
    · rw [hposting]
      exact hlost.posting
    · rw [hout]
      exact hdue
    · rw [hbuf]
      exact hlost.empty
    · rw [howner]
      exact ⟨hlost.sendcall, hlost.waitcall, hlost.donecall⟩

end

/-! ### A call that is forgotten -/

/-- What the parser makes of a response that comes first. -/
def firstResponse (bs : Bytes) : ParserRet × HttpReponseHeader × ReadBuffer :=
  HttpReponseHeader.init.parserHeader (ReadBuffer.init.recive bs)

/-- The scan that this is. -/
def firstScan (bs : Bytes) : Scanner.Res HttpReponseHeader ParserLocals ParserRet :=
  HttpReponseHeader.parser.machine.scan .init .fresh
    ((pieces.walk ReadBuffer.init.readpos bs.length).zip bs)

/-- A response without a body. -/
def response : Bytes := ascii "HTTP/1.1 200 OK\r\nContent-Length: 0\r\n\r\n"

/-- The scan leaves what the parser leaves in the buffer of the connection. -/
lemma firstResponse_eq (bs : Bytes) (hfit : bs.length < pieces.cap) :
    (firstResponse bs).1 = (firstScan bs).ret ∧ (firstResponse bs).2.1 = (firstScan bs).obj := by
  obtain ⟨hret, hobj, -⟩ := HttpReponseHeader.parser.parse_recive (h := .init)
    ReadBuffer.isRing_init rfl bs hfit
  have hparse : firstResponse bs
      = HttpReponseHeader.parser.parse .init (ReadBuffer.init.recive bs) := rfl
  rw [hparse]
  exact ⟨hret, hobj⟩

/-- The response is complete, and the header that the run below goes on with is the parser's. -/
lemma firstResponse_response :
    (firstResponse response).1 = .finish ∧
      (firstResponse response).2.1 = (firstScan response).obj := by
  obtain ⟨hret, hobj⟩ := firstResponse_eq response (by rw [cap_pieces]; decide)
  refine ⟨hret.trans ?_, hobj⟩
  decide +kernel

/-- A controller that is new. -/
def newCntl : RpcClientController Unit := ⟨0, -1, 0, 0, [], (), false⟩

def start : CallWakeup Unit Unit := init {} (fun _ => newCntl) false

/-- The thread calls. -/
def call : List (WakeupAct Unit Unit) := [.push () newCntl (ascii "m") () false, .post ()]

/-- An operation that reads and writes nothing, one that writes, and one that reads the
response. -/
def plain : WakeupAct Unit Unit :=
  .op ⟨emptyEnv, (firstResponse response).2.2.reset, .init, false, 0⟩

def write (written : ℕ) : WakeupAct Unit Unit :=
  .op ⟨emptyEnv, (firstResponse response).2.2.reset, .init, false, written⟩

def respond : WakeupAct Unit Unit :=
  .op ⟨emptyEnv, (firstResponse response).2.2, (firstScan response).obj, true, 0⟩

/-- A call is made, and 48 of the 49 bytes of its request are written. -/
def firstCall : List (WakeupAct Unit Unit) :=
  call ++ [.runTask false, .report false true, .begin] ++ List.replicate 6 plain ++ [write 48] ++
    List.replicate 3 plain

/-- The response comes, with a WRITE; the thread calls again before the last byte is written. -/
def secondCall : List (WakeupAct Unit Unit) :=
  List.replicate 3 (.runTask false) ++ [.report true true, .begin, plain, respond] ++
    List.replicate 7 plain ++ call ++ [write 1] ++ List.replicate 3 plain ++
      List.replicate 3 (.runTask false)

/-- The script of these actions. -/
def script (as : List (WakeupAct Unit Unit)) : List (CallWakeup Unit Unit → WakeupAct Unit Unit) :=
  as.map fun a _ => a

/-- The first write has counted the 48 bytes twice.  So the response ends the call, the second one
is pushed behind the look of `OnWriteable`, and the post behind it asks for nothing new. -/
theorem forgotten_secondCall :
    ¬ ∀ (options : RpcChannelOptions) (cntl : ℕ → RpcClientController Unit) (connecting : Bool) h s,
      Exec.Run Step (init options cntl connecting : CallWakeup Unit Unit) h s →
        Exec.Always (fun s => ¬ s.Forgotten) h s := by
  intro hall
  have hrun : Exec.Run Step start (Exec.trace act start (script (firstCall ++ secondCall))) _ :=
    Exec.Run.script _ (by rw [Exec.Admits]; decide +kernel)
  refine (hall _ _ _ _ _ hrun).last ⟨⟨?_, ?_, ?_, ?_, ?_, ?_, ?_⟩, ?_, ?_, ?_⟩ <;> decide +kernel

/-- The first call alone. -/
theorem not_forgotten_firstCall :
    Exec.Always (fun s => ¬ s.Forgotten) (Exec.trace act start (script firstCall))
      (Exec.final act start (script firstCall)) :=
  not_forgotten (Exec.Run.script _ (by rw [Exec.Admits]; decide +kernel))
    (by rw [Exec.Admits]; decide +kernel)

end CallWakeup

end MTRpc
