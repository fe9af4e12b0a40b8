import MTRpc.Rpc.StreamCounts
import MTRpc.Thread.Waiter

/-!
# The life of a channel

A client has a `RpcChannel`, which holds a `RpcChannelImpl`.  The `RpcChannel` is destroyed by the
client, or by `GetChannel` when `Connect` fails; it tells the implementation to `Close` and does
not delete it.  The implementation deletes itself in `OnClose`, which its stream runs when it is
closed, by the peer or after an error as well as after a `Close`.

`neverUsed_iff` says what this needs: nothing is executed on a destroyed implementation, and no
`Close` without a stream, exactly when the client calls and destroys its channel only while the
stream is open.  A channel that could not connect has no such stream, but `GetChannel` destroys
it all the same.
-/

namespace MTRpc

/-- `ConnectStream::Connect`: the status from what `connect` returned. -/
def ConnectStatus.ofConnect (ret : ℤ) (einprogress : Bool) : ConnectStatus :=
  if ret = 0 then .ok
  else if ret < 0 ∧ einprogress = false then .fail
  else .inProcess

/-- What is executed on a `RpcChannelImpl`. -/
inductive ImplEvent
  | callMethod
  /-- `Close`, and whether `_stream` is NULL then. -/
  | close (nullStream : Bool)
  /-- A handler of the stream. -/
  | callback
  /-- `delete this` -/
  | destroy
deriving DecidableEq, Repr

/-- Nothing is executed on the implementation when it has been destroyed, a second `delete this`
included, and `Close` finds a stream. -/
structure NeverUsed (log : List ImplEvent) : Prop where
  last : ∀ pre post, log = pre ++ .destroy :: post → post = []
  stream : .close true ∉ log

section

variable {log : List ImplEvent} {e : ImplEvent}

/-- As long as it has not been destroyed. -/
lemma neverUsed_of_notMem (hdestroy : .destroy ∉ log) (hclose : .close true ∉ log) :
    NeverUsed log where
  last pre post heq := absurd (heq ▸ by simp) hdestroy
  stream := hclose

/-- `delete this` may be the last thing. -/
lemma neverUsed_destroy (hdestroy : .destroy ∉ log) (hclose : .close true ∉ log) :
    NeverUsed (log ++ [.destroy]) where
  last pre post heq := by
    rcases List.eq_nil_or_concat post with rfl | ⟨post, e, rfl⟩
    · rfl
    · have heq' : log ++ [.destroy] = (pre ++ .destroy :: post) ++ [e] := by simpa using heq
      obtain ⟨hlog, -⟩ := List.append_inj' heq' rfl
      exact absurd (hlog ▸ by simp) hdestroy
  stream := by simpa using hclose

/-- After it nothing may follow. -/
lemma not_neverUsed_snoc (hdestroy : .destroy ∈ log) : ¬ NeverUsed (log ++ [e]) := by
  obtain ⟨pre, post, rfl⟩ := List.append_of_mem hdestroy
  intro h
  have hpost := h.last pre (post ++ [e]) (by simp)
  exact List.append_ne_nil_of_right_ne_nil post (List.cons_ne_nil e []) hpost

end

/-- A `RpcChannelImpl`, the `_ConnectStatus` of its stream, and what has been executed. -/
structure LivingImpl (Req : Type) where
  impl : RpcChannelImpl Req
  connectStatus : ConnectStatus
  log : List ImplEvent

namespace LivingImpl

variable {Req : Type}

/-- A function of the implementation. -/
def exec (es : List ImplEvent) (f : ChannelWorld Req → ChannelWorld Req)
    (w : World (MessageStream (LivingImpl Req))) : World (MessageStream (LivingImpl Req)) :=
  let w' := f { stream := w.stream, ext := ⟨w.reqheader, w.resheader, w.owner.impl⟩ }
  { stream := w'.stream
    ext := ⟨w'.reqheader, w'.resheader,
      { w.owner with impl := w'.owner, log := w.owner.log ++ es }⟩ }

/-- A change of `_ConnectStatus` while the connect is in process. -/
def connected (status : ConnectStatus) (w : World (MessageStream (Checked (LivingImpl Req)))) :
    World (MessageStream (Checked (LivingImpl Req))) :=
  w.modifyOwner fun o => { o with obj := { o.obj with
    connectStatus := if o.obj.connectStatus = .inProcess then status else o.obj.connectStatus } }

/-- The handlers that `Connect` sets; `OnClose` ends with `delete this`. -/
def handers (env : ChannelEnv Req) : Handers (LivingImpl Req) :=
  let h := RpcChannelImpl.connect env
  { handerConnected := h.handerConnected.map (exec [.callback])
    handerReadable := h.handerReadable.map (exec [.callback])
    handerWriteable := h.handerWriteable.map (exec [.callback])
    handerClose := h.handerClose.map (exec [.callback, .destroy])
    handerReadTimeOut := h.handerReadTimeOut.map (exec [.callback])
    handerWriteTimeOut := h.handerWriteTimeOut.map (exec [.callback])
    handerMessageError := h.handerMessageError.map fun f code => exec [.callback] (f code)
    handerMessageRecived := h.handerMessageRecived.map fun f n => exec [.callback] (f n)
    handerMessageSended := h.handerMessageSended.map fun f n => exec [.callback] (f n) }

/-- The stream, with `OnConnect` and `OnClose` as a `ConnectStream` overrides them. -/
def stream (env : ChannelEnv Req) : StreamClass (MessageStream (Checked (LivingImpl Req))) :=
  { (handers env).connectStream with
    afterConnect := connected .ok
    afterClose := connected .fail }

/-! ### Events -/

/-- The stream is open and the implementation is there. -/
def Open (w : World (MessageStream (Checked (LivingImpl Req)))) : Prop :=
  w.stream.isClosed = false ∧ .destroy ∉ w.owner.obj.log ∧ .close true ∉ w.owner.obj.log

/-- The implementation is destroyed when the stream is closed, and not used afterwards. -/
def Sound (w : World (MessageStream (Checked (LivingImpl Req)))) : Prop :=
  NeverUsed w.owner.obj.log ∧ (.destroy ∈ w.owner.obj.log ↔ w.stream.isClosed = true)

variable {w : World (MessageStream (Checked (LivingImpl Req)))}

lemma Open.sound (h : Open w) : Sound w :=
  ⟨neverUsed_of_notMem h.2.1 h.2.2, iff_of_false h.2.1 (by rw [h.1]; exact Bool.false_ne_true)⟩

lemma Sound.isOpen (h : Sound w) (hopen : w.stream.isClosed = false) : Open w :=
  ⟨hopen, fun hmem => absurd ((h.2.mp hmem).symm.trans hopen) Bool.noConfusion, h.1.stream⟩

/-- A function that leaves the stream open. -/
lemma Open.exec {e : ImplEvent} {f : ChannelWorld Req → ChannelWorld Req} (h : Open w)
    (hf : SameCount f) (hdestroy : e ≠ .destroy) (hclose : e ≠ .close true) :
    Open (Checked.lift (LivingImpl.exec [e] f) w) := by
  refine ⟨(hf _).1.trans h.1, ?_, ?_⟩
  · intro hmem
    rcases List.mem_append.mp hmem with hmem | hmem
    · exact h.2.1 hmem
    · exact hdestroy (List.mem_singleton.mp hmem).symm
  · intro hmem
    rcases List.mem_append.mp hmem with hmem | hmem
    · exact h.2.2 hmem
    · exact hclose (List.mem_singleton.mp hmem).symm

/-- A handler. -/
lemma Open.callback {f : ChannelWorld Req → ChannelWorld Req} (hf : SameCount f) (h : Open w) :
    Open (Checked.lift (LivingImpl.exec [.callback] f) w) :=
  h.exec hf (by simp) (by simp)

lemma keepsParts_stream (env : ChannelEnv Req) : (stream env).KeepsParts Open where
  change w s hs hw := by
    cases hs <;> exact hw
  connected f hf := absurd hf (by simp [stream, handers, Handers.connectStream,
    Handers.messageStream, RpcChannelImpl.connect, Handers.init])
  writeable f hf w hw := by
    obtain rfl := Option.mem_some_iff.mp hf
    exact hw.callback (RpcChannelImpl.sameCount_onWriteable env)
  sended n w hw := hw.callback (RpcChannelImpl.sameCount_onMessageSended n)
  afterConnect w hw := hw

/-- The handlers that `OnRecived` runs. -/
lemma keeps_messageHanders (env : ChannelEnv Req) : (handers env).messageHanders.Keeps Open where
  parsed _ _ _ _ hw := hw
  recived f hf n w hw := by
    obtain rfl := Option.mem_some_iff.mp hf
    exact hw.callback (RpcChannelImpl.sameCount_onMessageRecived env)
  error code w hw := hw

/-- `OnClose` of the stream destroys the implementation. -/
lemma sound_onClose (env : ChannelEnv Req)
    (d : Dispatch (MessageStream (Checked (LivingImpl Req)))) (hd : Open d.toWorld) :
    Sound ((stream env).onClose d).toWorld := by
  obtain ⟨hopen, hdestroy, hclose⟩ := hd
  have hlog : ((stream env).onClose d).toWorld.owner.obj.log
      = (d.toWorld.owner.obj.log ++ [.callback]) ++ [.destroy] := by
    rw [StreamClass.onClose, Dispatch.call, if_neg (by rw [hopen]; exact Bool.false_ne_true)]
    exact (List.append_assoc _ [ImplEvent.callback] [.destroy]).symm
  have hclosed : ((stream env).onClose d).toWorld.stream.isClosed = true := by
    rw [StreamClass.onClose, Dispatch.call, if_neg (by rw [hopen]; exact Bool.false_ne_true)]
    exact (RpcChannelImpl.count_onClose _).1
  rw [Sound, hlog, hclosed]
  exact ⟨neverUsed_destroy (by simpa using hdestroy) (by simpa using hclose), by simp⟩

/-- An event keeps the implementation sound. -/
lemma sound_onEvent (env : ChannelEnv Req) (k : Kernel) (mask : BitVec 32) (h : Sound w) :
    Sound ((stream env).onEvent k mask w).toWorld := by
  by_cases hclosed : w.stream.isClosed = true
  · rw [StreamClass.onEvent, if_pos hclosed]
    exact h
  have hopen := h.isOpen (Bool.eq_false_iff.mpr hclosed)
  have hparts := keepsParts_stream env
  refine hparts.onEvent (fun _ => Open.sound) (sound_onClose env) ?_ ?_ k mask hopen
  · intro mask d hd
    refine StreamClass.keeps_timeOuts (P := Open) (fun _ hw => hw) ?_ ?_ mask hd
    · intro f hf w hw
      obtain rfl := Option.mem_some_iff.mp hf
      exact hw.callback (RpcChannelImpl.sameCount_onMessageError _)
    · intro f hf w hw
      obtain rfl := Option.mem_some_iff.mp hf
      exact hw.callback (RpcChannelImpl.sameCount_onMessageError _)
  · intro reads d hd
    refine (keepsParts_stream env).onReadable ?_ ?_ ?_ reads hd
    · exact fun f hf => absurd hf (by simp [stream, handers, Handers.connectStream,
        Handers.messageStream, RpcChannelImpl.connect, Handers.init])
    · exact (keeps_messageHanders env).error
    · exact fun n w hw => ConnectStream.keeps_recvLoop (keeps_messageHanders env) _ n hw

end LivingImpl

/-- Who has the `RpcChannel`. -/
inductive Holder
  /-- It has been made, and `Connect` was not called. -/
  | made
  /-- `Connect` waits. -/
  | waits
  /-- The client, from `GetChannel`. -/
  | client
  /-- `GetChannel`, after `Connect` has returned -1. -/
  | failed
  /-- It is destroyed. -/
  | gone
deriving DecidableEq, Repr

/-- A channel with its stream.  The stream is there from the start; `_stream` points to it from
`Connect` on, unless that fails at once. -/
structure ChannelLife (Req : Type) where
  world : World (MessageStream (Checked (LivingImpl Req)))
  /-- `_stream` is NULL. -/
  nullStream : Bool
  holder : Holder

/-- What can happen. -/
inductive LifeAct (Req : Type)
  /-- `Connect`, up to the wait, with the result of the system call. -/
  | connect (ret : ℤ) (einprogress : Bool)
  /-- The wait in `Connect` is over. -/
  | connectReturns
  /-- An event of the stream: what the peer sends, its close, an error of the connect. -/
  | event (env : ChannelEnv Req) (k : Kernel) (mask : BitVec 32)
  | callMethod (controller : RpcClientController Req) (method : Bytes) (request : Req)
      (done : Bool)
  /-- The `RpcChannel` is destroyed, by the client or by `GetChannel`. -/
  | destroy

namespace ChannelLife

variable {Req : Type}

/-- A `RpcChannel` that has just been made. -/
def init (impl : RpcChannelImpl Req) : ChannelLife Req :=
  { world := newStream ⟨impl, .fail, []⟩, nullStream := true, holder := .made }

section

variable (s : ChannelLife Req)

/-- The implementation and its stream. -/
abbrev living : LivingImpl Req := s.world.owner.obj

abbrev log : List ImplEvent := s.living.log

abbrev isClosed : Bool := s.world.stream.isClosed

/-- A function of the implementation. -/
def exec (e : ImplEvent) (f : ChannelWorld Req → ChannelWorld Req) : ChannelLife Req :=
  { s with world := Checked.lift (LivingImpl.exec [e] f) s.world }

/-- `RpcChannelImpl::Connect` on a new stream, up to the wait: `RequireRef`, and the reference
of `AddEventASync`. -/
def connect (status : ConnectStatus) : ChannelLife Req :=
  let w := (s.world.modifyOwner fun o => { o with obj := { o.obj with connectStatus := status } })
    |>.modifyStream fun st => { st with refCount := st.refCount + 2 }
  match status with
  | .ok => { world := w, nullStream := false, holder := .client }
  | .inProcess => { world := w, nullStream := false, holder := .waits }
  | .fail => { s with nullStream := true, holder := .failed }

/-- The test at the start of `CallMethod`. -/
def connectFail : Bool := s.nullStream || decide (s.living.connectStatus = .fail)

/-- `RpcChannelImpl::Close`.  Without a stream the source goes on undefined. -/
def close : ChannelLife Req :=
  s.exec (.close s.nullStream) fun w =>
    if s.nullStream = false ∧ w.stream.isClosed = false then
      w.modifyStream fun st => { st with closeWhenEmpty := true }.modEventAsync true true
    else w

/-- One step. -/
def act : LifeAct Req → ChannelLife Req
  | .connect ret einprogress => s.connect (.ofConnect ret einprogress)
  | .connectReturns =>
      { s with holder := if s.living.connectStatus = .ok then .client else .failed }
  | .event env k mask => { s with world := ((LivingImpl.stream env).onEvent k mask s.world).toWorld }
  | .callMethod controller method request done =>
      s.exec .callMethod
        (RpcChannelImpl.callMethod s.connectFail controller method request done)
  | .destroy => { s.close with holder := .gone }

/-- When it can happen.  A stream that could not connect at once is not registered, and while
`Connect` waits nobody destroys its channel. -/
def Enabled : LifeAct Req → Prop
  | .connect _ _ => s.holder = .made
  | .connectReturns => s.holder = .waits ∧ s.living.connectStatus ≠ .inProcess
  | .event _ _ _ => s.nullStream = false
  | .callMethod _ _ _ _ => s.holder ≠ .gone
  | .destroy => s.holder ≠ .gone ∧ s.holder ≠ .waits

/-- The client calls while its stream is not closed, and the channel is destroyed while there is
a stream that is not closed. -/
def InTime : LifeAct Req → Prop
  | .callMethod _ _ _ _ => s.isClosed = false
  | .destroy => s.nullStream = false ∧ s.isClosed = false
  | _ => True

end

/-- The steps. -/
def Step (s : ChannelLife Req) (a : LifeAct Req) (s' : ChannelLife Req) : Prop :=
  s.Enabled a ∧ s' = s.act a

variable {s : ChannelLife Req} {a : LifeAct Req}

/-- The invariant: the implementation is sound, there is no stream before the `Connect`, and
without a stream none was closed. -/
structure Inv (s : ChannelLife Req) : Prop where
  sound : LivingImpl.Sound s.world
  made : s.holder = .made → s.nullStream = true
  null : s.nullStream = true → s.isClosed = false

lemma inv_init (impl : RpcChannelImpl Req) : Inv (init impl) where
  sound := ⟨neverUsed_of_notMem (by simp [init, newStream]) (by simp [init, newStream]),
    by simp [init, newStream, Stream.init]⟩
  made _ := rfl
  null _ := rfl

lemma sameCount_callMethod (connectFail : Bool) (controller : RpcClientController Req)
    (method : Bytes) (request : Req) (done : Bool) :
    SameCount (RpcChannelImpl.callMethod connectFail controller method request done) := by
  intro w
  rw [RpcChannelImpl.callMethod]
  split <;> exact ⟨rfl, rfl⟩

lemma inv_connect (hs : Inv s) (hmade : s.holder = .made) (status : ConnectStatus) :
    Inv (s.connect status) := by
  cases status with
  | ok =>
    exact ⟨hs.sound, fun h => Holder.noConfusion h, fun h => absurd h Bool.false_ne_true⟩
  | inProcess =>
    exact ⟨hs.sound, fun h => Holder.noConfusion h, fun h => absurd h Bool.false_ne_true⟩
  | fail => exact ⟨hs.sound, fun h => Holder.noConfusion h, fun _ => hs.null (hs.made hmade)⟩

/-- A step in time. -/
lemma inv_act (hs : Inv s) (hen : s.Enabled a) (hok : s.InTime a) : Inv (s.act a) := by
  cases a with
  | connect ret einprogress => exact inv_connect hs hen _
  | connectReturns =>
    refine ⟨hs.sound, ?_, hs.null⟩
    intro h
    rw [act] at h
    split at h <;> exact Holder.noConfusion h
  | event env k mask =>
    have hthere : s.nullStream ≠ true := by
      rw [show s.nullStream = false from hen]
      exact Bool.false_ne_true
    exact ⟨LivingImpl.sound_onEvent env k mask hs.sound, hs.made, fun h => absurd h hthere⟩
  | callMethod controller method request done =>
    have hopen := (hs.sound.isOpen hok).exec
      (sameCount_callMethod s.connectFail controller method request done)
      (ImplEvent.noConfusion : ImplEvent.callMethod ≠ .destroy) ImplEvent.noConfusion
    exact ⟨hopen.sound, hs.made, fun _ => hopen.1⟩
  | destroy =>
    have hopen := (hs.sound.isOpen hok.2).exec (e := .close s.nullStream) (f := fun w =>
      if s.nullStream = false ∧ w.stream.isClosed = false then
        w.modifyStream fun st => { st with closeWhenEmpty := true }.modEventAsync true true
      else w) (fun w => by dsimp only; split <;> exact ⟨rfl, rfl⟩) ImplEvent.noConfusion (by
        rw [hok.1]
        simp)
    exact ⟨hopen.sound, fun h => Holder.noConfusion h, fun _ => hopen.1⟩

/-- A step that is too late. -/
lemma not_neverUsed_act (hs : Inv s) (hok : ¬ s.InTime a) : ¬ NeverUsed (s.act a).log := by
  -- an implementation whose stream is closed has been destroyed
  have hdead : s.isClosed ≠ false → ∀ e, ¬ NeverUsed (s.log ++ [e]) := fun hclosed e =>
    not_neverUsed_snoc (hs.sound.2.mpr (Bool.not_eq_false _ ▸ hclosed))
  cases a with
  | connect ret einprogress => exact absurd trivial hok
  | connectReturns => exact absurd trivial hok
  | event env k mask => exact absurd trivial hok
  | callMethod controller method request done => exact hdead hok _
  | destroy =>
    by_cases hnull : s.nullStream = true
    · intro h
      have hmem : ImplEvent.close true ∈ (s.act .destroy).log := by
        change ImplEvent.close true ∈ s.log ++ [.close s.nullStream]
        rw [hnull]
        exact List.mem_append_right _ (List.mem_singleton_self _)
      exact h.stream hmem
    · exact hdead (fun hopen => hok ⟨Bool.eq_false_iff.mpr hnull, hopen⟩) _

/-- Along every run of a channel nothing is executed on its implementation after `delete this`,
and no `Close` without a stream, exactly when every call and the destruction of the channel come
while the stream is open. -/
theorem neverUsed_iff {impl : RpcChannelImpl Req} {h : List (ChannelLife Req × LifeAct Req)}
    (hrun : Exec.Run Step (init impl) h s) :
    Exec.Always (fun s => NeverUsed s.log) h s ↔ Exec.Admits InTime h := by
  refine hrun.always_iff (inv_init impl) (fun s hs => hs.sound.1) ?_ ?_
  · rintro s a _ hs hok ⟨hen, rfl⟩
    exact inv_act hs hen hok
  · rintro s a _ hs hok ⟨-, rfl⟩
    exact not_neverUsed_act hs hok

/-! ### A peer that closes -/

/-- A channel that connects at once, and whose peer closes. -/
def connected : ChannelLife Unit := (init idleChannel).act (.connect 0 false)

def peerClose : LifeAct Unit := .event idleEnv ⟨true, [], []⟩ eventClose

def closed : ChannelLife Unit := connected.act peerClose

lemma run_closed :
    Exec.Run Step (init idleChannel)
      [(init idleChannel, .connect 0 false), (connected, peerClose)] closed := by
  have hconnect : Exec.Run Step (init idleChannel) ([] ++ [(init idleChannel, .connect 0 false)])
      connected := .snoc .nil ⟨rfl, rfl⟩
  exact hconnect.snoc ⟨rfl, rfl⟩

/-- `OnClose` has deleted the implementation, and the client calls. -/
theorem not_neverUsed :
    ¬ ∀ (impl : RpcChannelImpl Unit) h s, Exec.Run Step (init impl) h s →
      Exec.Always (fun s => NeverUsed s.log) h s := by
  intro hall
  have hen : closed.Enabled (.callMethod (idleChannel.cntl 0) [] () false) := Holder.noConfusion
  have hlast := (hall _ _ _ (run_closed.snoc ⟨hen, rfl⟩)).last
  exact absurd (hlast.last [.callback] [.callMethod] (by decide)) (List.cons_ne_nil _ _)

/-- The run up to there. -/
theorem neverUsed_closed :
    Exec.Always (fun s => NeverUsed s.log)
        [(init idleChannel, LifeAct.connect 0 false), (connected, peerClose)] closed ↔
      Exec.Admits InTime [(init idleChannel, LifeAct.connect 0 false), (connected, peerClose)] :=
  neverUsed_iff run_closed

end ChannelLife

end MTRpc
