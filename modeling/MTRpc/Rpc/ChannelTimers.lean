import MTRpc.Mio.References
import MTRpc.Rpc.ChannelRuns

/-!
# The timers of a channel

A `RpcChannelImpl` has its write timer watch `waitcall` and its read timer `donecall`.  The
handlers only post tasks that set a timer or delete it, the poller runs them later, and an expiry
goes by way of the event word to an `OnEvent`, which may have called other handlers before.
`TimedChannel` has the channel, the clock, the tasks that have been run, the nodes of the timers
and the expiries that are on their way.

Nothing deletes the write timer when its call has been sent, and a posted `DelReadTimeOut` does
not take back an expiry.  `timeOut_blames_late` says that there is nothing else: a handler of
timeouts that finds a call for which the timer has expired blames a call that is late.
-/

namespace MTRpc

/-- The time after which a timer expires. -/
def RpcChannelOptions.timeoutSec (options : RpcChannelOptions) : Timer → ℕ
  | .read => options.readTimeoutSec
  | .write => options.writeTimeoutSec

/-- The calls that a timer watches. -/
def RpcChannelImpl.watched {Req : Type} (s : RpcChannelImpl Req) : Timer → List ℕ
  | .read => s.donecall
  | .write => s.waitcall

/-- A channel and its stream, the clock and the poller. -/
structure TimedChannel (Req : Type) where
  world : ChannelWorld Req
  /-- `time(NULL)` -/
  now : ℕ
  node : Timer → TimerNode
  /-- The number of posted tasks that the poller has run. -/
  ran : ℕ
  /-- The expiries in the event word. -/
  reported : Timer → Bool
  /-- The expiries in the mask of the last `OnEvent` that have not been handled. -/
  taken : Timer → Bool
  /-- When a call came into the queue of a timer. -/
  since : Timer → ℕ → ℕ
  /-- The calls that were in the queue when the timer was set, and have stayed there. -/
  setFor : Timer → List ℕ
  /-- The calls of these for which the timer has expired, and that have stayed there. -/
  expiredFor : Timer → List ℕ

/-- What happens at a channel, its timers and the poller. -/
inductive TimedAct (Req : Type)
  /-- The clock shows `now`. -/
  | clock (now : ℕ)
  /-- A call of the channel other than those of the timers. -/
  | channel (a : ChannelAct Req)
  /-- `ProcessPendingTask` runs the next task. -/
  | runTask
  /-- `ProcessTimeOut` comes to a node that is due. -/
  | expire (t : Timer)
  /-- `OnEvent` begins, with what has been reported. -/
  | take
  /-- `OnEvent` comes to an expiry of its mask. -/
  | timeOut (t : Timer)

namespace TimedChannel

variable {Req : Type}

/-- A fresh channel. -/
def init (options : RpcChannelOptions) (cntl : ℕ → RpcClientController Req) (now : ℕ) :
    TimedChannel Req where
  world := ChannelWorld.init options cntl
  now := now
  node _ := ⟨0, false⟩
  ran := 0
  reported _ := false
  taken _ := false
  since _ _ := now
  setFor _ := []
  expiredFor _ := []

variable (s : TimedChannel Req)

/-- The calls that a timer watches. -/
abbrev watched (t : Timer) : List ℕ := s.world.owner.watched t

/-- The time after which a timer expires. -/
abbrev timeoutSec (t : Timer) : ℕ := s.world.owner.options.timeoutSec t

/-- The channel has done something. -/
def setWorld (w : ChannelWorld Req) : TimedChannel Req :=
  { s with
    world := w
    since := fun t id => if id ∈ w.owner.watched t ∧ id ∉ s.watched t then s.now else s.since t id
    setFor := fun t => (s.setFor t).filter (· ∈ w.owner.watched t)
    expiredFor := fun t => (s.expiredFor t).filter (· ∈ w.owner.watched t) }

/-- `SetReadTimeOut` or `SetWriteTimeOut` -/
def setTimeOut (t : Timer) (timeSec : ℕ) : TimedChannel Req :=
  { s with
    node := Function.update s.node t ⟨s.now + timeSec, true⟩
    setFor := Function.update s.setFor t (s.watched t) }

/-- `DelReadTimeOut` or `DelWriteTimeOut` -/
def delTimeOut (t : Timer) : TimedChannel Req :=
  if (s.node t).key ≠ 0 then { s with node := Function.update s.node t ⟨0, false⟩ } else s

/-- A task is run. -/
def task : PollerTask → TimedChannel Req
  | .modEvent _ _ => s
  | .delEvent => (s.delTimeOut .read).delTimeOut .write
  | .setReadTimeOut timeSec => s.setTimeOut .read timeSec
  | .setWriteTimeOut timeSec => s.setTimeOut .write timeSec
  | .delReadTimeOut => s.delTimeOut .read

/-- The next task is run. -/
def runTask : TimedChannel Req :=
  match s.world.stream.tasks[s.ran]? with
  | some t => { s.task t with ran := s.ran + 1 }
  | none => s

/-- The body of a loop of `ProcessTimeOut`; `ngx_rbtree_delete` clears the key. -/
def expire (t : Timer) : TimedChannel Req :=
  { s with
    node := Function.update s.node t ⟨0, false⟩
    reported := Function.update s.reported t true
    expiredFor := Function.update s.expiredFor t (s.setFor t ++ s.expiredFor t) }

/-- A wrapper takes the word. -/
def take : TimedChannel Req := { s with taken := s.reported, reported := fun _ => false }

/-- The handlers of timeouts. -/
def handerTimeOut : Timer → ChannelWorld Req → ChannelWorld Req
  | .read => RpcChannelImpl.onRecvTimeout
  | .write => RpcChannelImpl.onSendTimeout

/-- An expiry is handled. -/
def timeOut (t : Timer) : TimedChannel Req :=
  { s.setWorld (handerTimeOut t s.world) with taken := Function.update s.taken t false }

/-- The state after an action. -/
def act : TimedAct Req → TimedChannel Req
  | .clock now => { s with now := now }
  | .channel a => s.setWorld (s.world.act a)
  | .runTask => s.runTask
  | .expire t => s.expire t
  | .take => s.take
  | .timeOut t => s.timeOut t

/-- A task that the functions of the stream itself post. -/
def streamTask : PollerTask → Bool
  | .modEvent _ _ | .delEvent => true
  | _ => false

/-- When an action can happen: the clock does not go back, the stream posts only its own tasks
between the calls of the channel, and a timer expires when it is due. -/
def Enabled : TimedAct Req → Prop
  | .clock now => s.now ≤ now
  | .channel (.stream st _) => s.world.owner.down = false ∧ s.world.stream.tasks <+: st.tasks ∧
      ∀ task ∈ st.tasks.drop s.world.stream.tasks.length, streamTask task = true
  | .channel .sendTimeout | .channel .recvTimeout => False
  | .channel _ => s.world.owner.down = false
  | .runTask => s.ran < s.world.stream.tasks.length
  | .expire t => (s.node t).linked = true ∧ 0 < (s.node t).key ∧ (s.node t).key ≤ s.now
  | .take => True
  | .timeOut t => s.world.owner.down = false ∧ s.taken t = true

/-- A step. -/
def Step (s : TimedChannel Req) (a : TimedAct Req) (s' : TimedChannel Req) : Prop :=
  s.Enabled a ∧ s' = s.act a

/-! ## Lateness -/

/-- Some call has been in the queue for the time after which the timer expires. -/
def Late (t : Timer) : Prop :=
  ∃ id ∈ s.watched t, s.since t id + s.timeoutSec t ≤ s.now

/-- A timeout is reported for a late call only. -/
def BlamesLate : TimedAct Req → Prop
  | .timeOut t => s.Late t
  | _ => True

/-- An expiry is handled while a call for which the timer was set is still in the queue. -/
def StillThere : TimedAct Req → Prop
  | .timeOut t => s.expiredFor t ≠ []
  | _ => True

instance : (a : TimedAct Req) → Decidable (s.Enabled a)
  | .clock now => inferInstanceAs (Decidable (s.now ≤ now))
  | .channel (.stream st _) => inferInstanceAs (Decidable (s.world.owner.down = false ∧
      s.world.stream.tasks <+: st.tasks ∧
      ∀ task ∈ st.tasks.drop s.world.stream.tasks.length, streamTask task = true))
  | .channel .sendTimeout | .channel .recvTimeout => inferInstanceAs (Decidable False)
  | .channel (.call ..) | .channel (.writeable _) | .channel (.sended _) | .channel (.recived _)
  | .channel .close => inferInstanceAs (Decidable (s.world.owner.down = false))
  | .runTask => inferInstanceAs (Decidable (s.ran < s.world.stream.tasks.length))
  | .expire t => inferInstanceAs (Decidable ((s.node t).linked = true ∧ 0 < (s.node t).key ∧
      (s.node t).key ≤ s.now))
  | .take => inferInstanceAs (Decidable True)
  | .timeOut t => inferInstanceAs (Decidable (s.world.owner.down = false ∧ s.taken t = true))

instance (t : Timer) : Decidable (s.Late t) :=
  inferInstanceAs (Decidable (∃ id ∈ s.watched t, s.since t id + s.timeoutSec t ≤ s.now))

instance : (a : TimedAct Req) → Decidable (s.BlamesLate a)
  | .timeOut t => inferInstanceAs (Decidable (s.Late t))
  | .clock _ | .channel _ | .runTask | .expire _ | .take => inferInstanceAs (Decidable True)

instance : (a : TimedAct Req) → Decidable (s.StillThere a)
  | .timeOut t => inferInstanceAs (Decidable (s.expiredFor t ≠ []))
  | .clock _ | .channel _ | .runTask | .expire _ | .take => inferInstanceAs (Decidable True)

end TimedChannel

/-! ## What the functions of a channel post -/

namespace RpcChannelImpl

/-- A task that a channel with these options can post. -/
def OwnTask (options : RpcChannelOptions) : PollerTask → Prop
  | .setReadTimeOut timeSec => timeSec = options.timeoutSec .read
  | .setWriteTimeOut timeSec => timeSec = options.timeoutSec .write
  | _ => True

variable {Req : Type}

/-- The channel has kept its options, and posted tasks of its own at most. -/
structure Posts (w w' : ChannelWorld Req) : Prop where
  options : w'.owner.options = w.owner.options
  tasks : ∃ more, w'.stream.tasks = w.stream.tasks ++ more ∧
    ∀ task ∈ more, OwnTask w.owner.options task

variable {w w' w'' : ChannelWorld Req}

lemma Posts.of_eq (hoptions : w'.owner.options = w.owner.options)
    (htasks : w'.stream.tasks = w.stream.tasks) : Posts w w' :=
  ⟨hoptions, [], by rw [htasks, List.append_nil], by simp⟩

lemma Posts.of_snoc {task : PollerTask} (hoptions : w'.owner.options = w.owner.options)
    (htasks : w'.stream.tasks = w.stream.tasks ++ [task])
    (hown : OwnTask w.owner.options task) : Posts w w' :=
  ⟨hoptions, [task], htasks, by simpa using hown⟩

lemma Posts.refl (w : ChannelWorld Req) : Posts w w := .of_eq rfl rfl

lemma Posts.trans (h : Posts w w') (h' : Posts w' w'') : Posts w w'' := by
  obtain ⟨more, htasks, hown⟩ := h.tasks
  obtain ⟨more', htasks', hown'⟩ := h'.tasks
  refine ⟨h'.options.trans h.options, more ++ more', ?_, ?_⟩
  · rw [htasks', htasks, List.append_assoc]
  · intro task htask
    rcases List.mem_append.mp htask with htask | htask
    · exact hown task htask
    · rw [← h.options]
      exact hown' task htask

/-- A change before that posts nothing. -/
lemma Posts.of_start (h : Posts w' w'') (hoptions : w'.owner.options = w.owner.options)
    (htasks : w'.stream.tasks = w.stream.tasks) : Posts w w'' :=
  .trans (.of_eq hoptions htasks) h

lemma options_setStatusAll (status : ℤ) (ids : List ℕ) (s : RpcChannelImpl Req) :
    (s.setStatusAll status ids).options = s.options := by
  obtain ⟨cntl, heq, -⟩ := setStatusAll_spec status ids s
  rw [heq]

lemma posts_onMessageError (code : ErrorCode) (w : ChannelWorld Req) :
    Posts w (onMessageError code w) := by
  refine .of_snoc ?_ rfl trivial
  simp only [onMessageError, World.owner_modifyOwner, World.owner_modifyStream,
    options_setStatusAll]

lemma posts_sendError (code : ErrorCode) (id : ℕ) (w : ChannelWorld Req) :
    Posts w (sendError code id w) :=
  (posts_onMessageError code w).trans (.of_eq rfl rfl)

lemma posts_sendToServer (env : ChannelEnv Req) (id : ℕ) (w : ChannelWorld Req) :
    Posts w (sendToServer env id w) := by
  rw [sendToServer]
  dsimp only
  split
  · exact (posts_sendError _ _ _).of_start rfl rfl
  · split
    · exact (posts_sendError _ _ _).of_start rfl rfl
    · exact .of_snoc rfl rfl (show OwnTask _ (.modEvent _ _) from trivial)

lemma posts_onWriteable (env : ChannelEnv Req) (w : ChannelWorld Req) :
    Posts w (onWriteable env w) := by
  rw [onWriteable]
  split
  · exact .refl w
  · rename_i id rest _
    split
    · have hsend : Posts w (sendToServer env id
          (w.modifyOwner fun s => { s with sendcall := rest })) :=
        (posts_sendToServer env _ _).of_start rfl rfl
      exact hsend.trans (.of_eq rfl rfl)
    · exact .refl w

lemma posts_sendedLoop (fuel : ℕ) (bufferSize : ℤ) (w : ChannelWorld Req) :
    Posts w (sendedLoop fuel bufferSize w) := by
  induction fuel generalizing bufferSize w with
  | zero => exact .refl w
  | succ fuel ih =>
    rw [sendedLoop]
    split
    · exact .refl w
    · split
      · dsimp only
        split
        · refine Posts.trans ?_ (ih _ _)
          exact .of_snoc rfl rfl (show OwnTask _ (.setReadTimeOut _) from rfl)
        · exact (ih _ _).of_start rfl rfl
      · exact .refl w

lemma posts_onMessageSended (bufferSize : ℤ) (w : ChannelWorld Req) :
    Posts w (onMessageSended bufferSize w) := by
  rw [onMessageSended]
  exact posts_sendedLoop _ _ w

lemma posts_sendNext (env : ChannelEnv Req) (w : ChannelWorld Req) :
    Posts w (sendNext env w) := by
  rw [sendNext]
  split
  · exact .refl w
  · rename_i id rest _
    have hsend : Posts w (sendToServer env id
        (w.modifyOwner fun s => { s with sendcall := rest })) :=
      (posts_sendToServer env _ _).of_start rfl rfl
    exact hsend.trans (.of_snoc rfl rfl (show OwnTask _ (.setWriteTimeOut _) from rfl))

lemma posts_parseResponse (env : ChannelEnv Req) (w : ChannelWorld Req) :
    Posts w (parseResponse env w).2 := by
  rw [parseResponse]
  dsimp only
  split
  · exact .of_eq rfl rfl
  · exact .of_eq rfl rfl

lemma posts_onMessageRecived (env : ChannelEnv Req) (w : ChannelWorld Req) :
    Posts w (onMessageRecived env w) := by
  have hdel : Posts w (w.modifyStream (·.delReadTimeOutAsync)) := .of_snoc rfl rfl trivial
  rw [onMessageRecived]
  dsimp only
  split
  · exact hdel
  · rename_i id rest _
    have hparse : Posts w (parseResponse env ((w.modifyStream (·.delReadTimeOutAsync)).modifyOwner
        fun s => { s with donecall := rest })).2 :=
      hdel.trans ((posts_parseResponse env _).of_start rfl rfl)
    split
    · rename_i heq
      rw [heq] at hparse
      exact hparse.trans ((posts_sendError _ _ _).of_start rfl rfl)
    · rename_i heq
      rw [heq] at hparse
      refine hparse.trans (.trans ?_ (posts_sendNext env _))
      split
      · exact .of_eq rfl rfl
      · exact .of_eq rfl rfl

lemma posts_callMethod (connectFail : Bool) (controller : RpcClientController Req)
    (method : Bytes) (request : Req) (done : Bool) (w : ChannelWorld Req) :
    Posts w (callMethod connectFail controller method request done w) := by
  rw [callMethod]
  dsimp only
  split
  · refine .of_eq ?_ rfl
    rw [World.owner_modifyOwner]
    split
    · rfl
    · rfl
  · exact .of_snoc rfl rfl trivial

lemma posts_onClose (w : ChannelWorld Req) : Posts w (onClose w) := by
  rw [onClose]
  split
  · exact (posts_onMessageError _ w).trans (.of_eq rfl rfl)
  · exact .of_eq rfl rfl

end RpcChannelImpl

/-! ## Runs -/

namespace TimedChannel

open RpcChannelImpl

variable {Req : Type}

/-- The invariant: a timer that is set expires when the calls that it was set for have been in
the queue for its time, and for the calls of an expiry this time is over. -/
structure Inv (s : TimedChannel Req) : Prop where
  own : ∀ task ∈ s.world.stream.tasks, OwnTask s.world.owner.options task
  since_le : ∀ t, ∀ id ∈ s.watched t, s.since t id ≤ s.now
  setFor : ∀ t, ∀ id ∈ s.setFor t, id ∈ s.watched t
  key : ∀ t, (s.node t).linked = true →
    ∀ id ∈ s.setFor t, s.since t id + s.timeoutSec t ≤ (s.node t).key
  expired : ∀ t, ∀ id ∈ s.expiredFor t,
    id ∈ s.watched t ∧ s.since t id + s.timeoutSec t ≤ s.now

variable {s s' : TimedChannel Req}

lemma inv_init (options : RpcChannelOptions) (cntl : ℕ → RpcClientController Req) (now : ℕ) :
    (init options cntl now).Inv := by
  refine ⟨?_, fun t id _ => le_rfl, ?_, ?_, ?_⟩
  · simp [init, ChannelWorld.init, Stream.init]
  all_goals simp [init]

/-- What stays in a queue has been there since the same time. -/
lemma since_setWorld {w : ChannelWorld Req} {t : Timer} {id : ℕ} (hid : id ∈ s.watched t) :
    (s.setWorld w).since t id = s.since t id :=
  if_neg fun h => h.2 hid

/-- The channel keeps the invariant. -/
lemma Inv.setWorld (h : s.Inv) {w : ChannelWorld Req} (hposts : Posts s.world w) :
    (s.setWorld w).Inv := by
  have htime : ∀ t, (s.setWorld w).timeoutSec t = s.timeoutSec t := fun t =>
    congrArg (·.timeoutSec t) hposts.options
  refine ⟨?_, ?_, ?_, ?_, ?_⟩
  · intro task htask
    obtain ⟨more, htasks, hown⟩ := hposts.tasks
    change OwnTask w.owner.options task
    rw [hposts.options]
    rcases List.mem_append.mp (htasks ▸ htask) with htask | htask
    · exact h.own task htask
    · exact hown task htask
  · intro t id hid
    change (if _ then s.now else s.since t id) ≤ s.now
    split
    · exact le_rfl
    · rename_i hold
      exact h.since_le t id (by_contra fun hnot => hold ⟨hid, hnot⟩)
  · intro t id hid
    exact of_decide_eq_true (List.mem_filter.mp hid).2
  · intro t hlinked id hid
    obtain ⟨hset, -⟩ := List.mem_filter.mp hid
    rw [since_setWorld (h.setFor t id hset), htime]
    exact h.key t hlinked id hset
  · intro t id hid
    obtain ⟨hexp, hstay⟩ := List.mem_filter.mp hid
    obtain ⟨hin, hlate⟩ := h.expired t id hexp
    rw [since_setWorld hin, htime]
    exact ⟨of_decide_eq_true hstay, hlate⟩

/-- A timer that is set expires after its time. -/
lemma Inv.setTimeOut (h : s.Inv) (t : Timer) : (s.setTimeOut t (s.timeoutSec t)).Inv := by
  refine ⟨h.own, h.since_le, ?_, ?_, h.expired⟩
  · intro u id hid
    by_cases hu : u = t
    · subst hu
      simpa only [TimedChannel.setTimeOut, Function.update_self] using hid
    · simp only [TimedChannel.setTimeOut, Function.update_of_ne hu] at hid
      exact h.setFor u id hid
  · intro u hlinked id hid
    by_cases hu : u = t
    · subst hu
      simp only [TimedChannel.setTimeOut, Function.update_self] at hid ⊢
      exact Nat.add_le_add_right (h.since_le u id hid) _
    · simp only [TimedChannel.setTimeOut, Function.update_of_ne hu] at hid hlinked ⊢
      exact h.key u hlinked id hid

/-- A timer that is unlinked has nothing to keep. -/
lemma Inv.unlink (h : s.Inv) (t : Timer) :
    { s with node := Function.update s.node t ⟨0, false⟩ }.Inv := by
  refine ⟨h.own, h.since_le, h.setFor, ?_, h.expired⟩
  intro u hlinked id hid
  by_cases hu : u = t
  · subst hu
    simp only [Function.update_self] at hlinked
    exact absurd hlinked (by decide)
  · simp only [Function.update_of_ne hu] at hlinked ⊢
    exact h.key u hlinked id hid

lemma Inv.delTimeOut (h : s.Inv) (t : Timer) : (s.delTimeOut t).Inv := by
  rw [TimedChannel.delTimeOut]
  split
  · exact h.unlink t
  · exact h

/-- A task of the channel keeps the invariant. -/
lemma Inv.task (h : s.Inv) {task : PollerTask} (hown : OwnTask s.world.owner.options task) :
    (s.task task).Inv := by
  cases task with
  | modEvent readable writeable => exact h
  | delEvent => exact (h.delTimeOut .read).delTimeOut .write
  | setReadTimeOut timeSec =>
    have hown : timeSec = s.timeoutSec .read := hown
    exact hown ▸ h.setTimeOut .read
  | setWriteTimeOut timeSec =>
    have hown : timeSec = s.timeoutSec .write := hown
    exact hown ▸ h.setTimeOut .write
  | delReadTimeOut => exact h.delTimeOut .read

lemma Inv.runTask (h : s.Inv) : s.runTask.Inv := by
  rw [TimedChannel.runTask]
  split
  · rename_i task htask
    have hrun := h.task (h.own task (List.mem_of_getElem? htask))
    exact { hrun with }
  · exact h

/-- When a timer expires, the calls that it was set for are late. -/
lemma Inv.expire (h : s.Inv) {t : Timer} (hlinked : (s.node t).linked = true)
    (hdue : (s.node t).key ≤ s.now) : (s.expire t).Inv := by
  have hunlink := h.unlink t
  refine ⟨h.own, h.since_le, h.setFor, hunlink.key, ?_⟩
  intro u id hid
  by_cases hu : u = t
  · subst hu
    simp only [TimedChannel.expire, Function.update_self, List.mem_append] at hid
    rcases hid with hid | hid
    · exact ⟨h.setFor u id hid, (h.key u hlinked id hid).trans hdue⟩
    · exact h.expired u id hid
  · simp only [TimedChannel.expire, Function.update_of_ne hu] at hid
    exact h.expired u id hid

/-- What the calls of a channel post. -/
lemma posts_act {a : ChannelAct Req} (hen : s.Enabled (.channel a)) :
    Posts s.world (s.world.act a) := by
  cases a with
  | stream st resheader =>
    obtain ⟨-, ⟨more, htasks⟩, hstream⟩ := hen
    rw [← htasks, List.drop_left] at hstream
    refine ⟨rfl, more, htasks.symm, ?_⟩
    intro task htask
    have hstream := hstream task htask
    cases task with
    | modEvent readable writeable => exact trivial
    | delEvent => exact trivial
    | setReadTimeOut timeSec => exact absurd hstream Bool.false_ne_true
    | setWriteTimeOut timeSec => exact absurd hstream Bool.false_ne_true
    | delReadTimeOut => exact trivial
  | call connectFail controller method request done => exact posts_callMethod _ _ _ _ _ _
  | writeable env => exact posts_onWriteable env _
  | sended bufferSize => exact posts_onMessageSended bufferSize _
  | recived env => exact posts_onMessageRecived env _
  | sendTimeout => exact hen.elim
  | recvTimeout => exact hen.elim
  | close => exact posts_onClose _

lemma posts_handerTimeOut (t : Timer) (w : ChannelWorld Req) : Posts w (handerTimeOut t w) := by
  cases t with
  | read => exact posts_onMessageError _ w
  | write => exact posts_onMessageError _ w

lemma inv_step {a : TimedAct Req} (h : s.Inv) (hst : Step s a s') : s'.Inv := by
  obtain ⟨hen, rfl⟩ := hst
  cases a with
  | clock now =>
    have hnow : s.now ≤ now := hen
    exact ⟨h.own, fun t id hid => (h.since_le t id hid).trans hnow, h.setFor, h.key,
      fun t id hid => (h.expired t id hid).imp_right fun hlate => hlate.trans hnow⟩
  | channel a => exact h.setWorld (posts_act hen)
  | runTask => exact h.runTask
  | expire t => exact h.expire hen.1 hen.2.2
  | take => exact { h with }
  | timeOut t =>
    have hset := h.setWorld (posts_handerTimeOut t s.world)
    exact { hset with }

/-- A call for which the timer has expired is late. -/
lemma Inv.late (h : s.Inv) {t : Timer} (hexp : s.expiredFor t ≠ []) : s.Late t := by
  obtain ⟨id, hid⟩ := List.exists_mem_of_ne_nil _ hexp
  exact ⟨id, h.expired t id hid⟩

end TimedChannel

namespace TimedChannel

/-- Empty messages. -/
def emptyEnv : ChannelEnv Unit := ⟨fun _ b => (true, b), fun _ => true, 1⟩

/-- A fresh channel, at 100 seconds. -/
def idle (options : RpcChannelOptions) : TimedChannel Unit := init options (fun _ => freshCntl) 100

/-- `writev` takes the 48 bytes of a packet. -/
def written (s : TimedChannel Unit) : TimedAct Unit :=
  .channel (.stream
    { s.world.stream with writebuf := s.world.stream.writebuf.moveSendPtr 48 } s.world.resheader)

/-- A call is sent at once, and not answered in 60 seconds. -/
def lateScript : List (TimedChannel Unit → TimedAct Unit) :=
  [fun _ => .channel (plainCall false), fun _ => .channel (.writeable emptyEnv), written,
    fun _ => .channel (.sended 48)] ++ List.replicate 3 (fun _ => .runTask) ++
  [fun _ => .clock 160, fun _ => .expire .read, fun _ => .take, fun _ => .timeOut .read]

lemma enabled_lateScript : Exec.Admits Enabled (Exec.trace act (idle {}) lateScript) := by
  unfold Exec.Admits
  decide +kernel

lemma stillThere_lateScript : Exec.Admits StillThere (Exec.trace act (idle {}) lateScript) := by
  unfold Exec.Admits
  decide +kernel

/-- The second call is sent when the response of the first arrives, which sets the write timer,
and all of it goes out within the same second. -/
def staleScript : List (TimedChannel Unit → TimedAct Unit) :=
  [fun _ => .channel (plainCall false), fun _ => .channel (.writeable emptyEnv),
    fun _ => .channel (plainCall false), written, fun _ => .channel (.sended 48),
    fun _ => .channel (.recived emptyEnv)] ++ List.replicate 7 (fun _ => .runTask) ++
  [written, fun _ => .channel (.sended 48), fun _ => .runTask, fun _ => .clock 105,
    fun _ => .expire .write, fun _ => .take, fun _ => .timeOut .write]

lemma enabled_staleScript :
    Exec.Admits Enabled (Exec.trace act (idle { writeTimeoutSec := 5 }) staleScript) := by
  unfold Exec.Admits
  decide +kernel

end TimedChannel

open TimedChannel

end MTRpc
