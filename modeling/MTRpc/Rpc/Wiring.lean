import MTRpc.Http.HeaderChunks
import MTRpc.Lib.Exec
import MTRpc.Mio.ConnectStream
import MTRpc.Mio.Keeps
import MTRpc.Rpc.ChannelImpl
import MTRpc.Rpc.ServerConnect

/-!
# The handlers of a stream

`ServerConnect::Start` and `RpcChannelImpl::Connect` set the handler pointers of their streams
(`Handers`).  The streams run some of them without a test; a pointer that is NULL then is
recorded (`Checked`), since the source goes on undefined.

A server's stream never runs a NULL pointer.  `Connect` forgets `handerMessageError`;
`handers_set_iff` says in which events a client's stream runs it.
-/

namespace MTRpc

/-- The object that the handlers of a stream belong to, and whether one of the pointers was run
while it was NULL. -/
structure Checked (O : Type) where
  obj : O
  nullRun : Bool

namespace Checked

variable {O : Type}

/-- A function of the object's own. -/
def lift (f : World (MessageStream O) → World (MessageStream O))
    (w : World (MessageStream (Checked O))) : World (MessageStream (Checked O)) :=
  let w' := f { stream := w.stream, ext := ⟨w.reqheader, w.resheader, w.owner.obj⟩ }
  { stream := w'.stream, ext := ⟨w'.reqheader, w'.resheader, ⟨w'.owner, w.owner.nullRun⟩⟩ }

/-- `handler->Run(...)` without a test. -/
def run (f : Option (World (MessageStream O) → World (MessageStream O)))
    (w : World (MessageStream (Checked O))) : World (MessageStream (Checked O)) :=
  match f with
  | some f => lift f w
  | none => w.modifyOwner fun o => { o with nullRun := true }

@[simp] lemma nullRun_lift (f : World (MessageStream O) → World (MessageStream O))
    (w : World (MessageStream (Checked O))) : (lift f w).owner.nullRun = w.owner.nullRun := rfl

@[simp] lemma nullRun_run_some (f : World (MessageStream O) → World (MessageStream O))
    (w : World (MessageStream (Checked O))) :
    (run (some f) w).owner.nullRun = w.owner.nullRun := rfl

@[simp] lemma nullRun_run_none (w : World (MessageStream (Checked O))) :
    (run none w).owner.nullRun = true := rfl

end Checked

/-- The handler pointers of a `MessageStream` or a `ConnectStream`. -/
structure Handers (O : Type) where
  handerConnected : Option (World (MessageStream O) → World (MessageStream O))
  handerReadable : Option (World (MessageStream O) → World (MessageStream O))
  handerWriteable : Option (World (MessageStream O) → World (MessageStream O))
  handerClose : Option (World (MessageStream O) → World (MessageStream O))
  handerReadTimeOut : Option (World (MessageStream O) → World (MessageStream O))
  handerWriteTimeOut : Option (World (MessageStream O) → World (MessageStream O))
  handerMessageError : Option (ErrorCode → World (MessageStream O) → World (MessageStream O))
  handerMessageRecived : Option (ℤ → World (MessageStream O) → World (MessageStream O))
  handerMessageSended : Option (ℤ → World (MessageStream O) → World (MessageStream O))

namespace Handers

variable {O : Type}

/-- After the constructors. -/
def init : Handers O := ⟨none, none, none, none, none, none, none, none, none⟩

variable (h : Handers O)

/-- The handlers that `OnRecived` uses; `handerMessageError` is run without a test. -/
def messageHanders : MessageHanders (Checked O) where
  handerMessageRecived := h.handerMessageRecived.map fun f n => Checked.lift (f n)
  handerMessageError code := Checked.run (h.handerMessageError.map fun f => f code)

/-- A `MessageStream` with these pointers.  `OnSended` runs its handler without a test. -/
def messageStream : StreamClass (MessageStream (Checked O)) where
  handerConnected := h.handerConnected.map Checked.lift
  handerReadable := h.handerReadable.map Checked.lift
  handerWriteable := h.handerWriteable.map Checked.lift
  handerClose := h.handerClose.map Checked.lift
  handerReadTimeOut := h.handerReadTimeOut.map Checked.lift
  handerWriteTimeOut := h.handerWriteTimeOut.map Checked.lift
  handerMessageError := h.messageHanders.handerMessageError
  onRecived n w := (h.messageHanders.onRecived n w).2
  onSended n := Checked.run (h.handerMessageSended.map fun f => f n)
  afterConnect := id
  connectReturnsZero := false
  afterClose := id

/-- A `ConnectStream` with these pointers.  Its overrides of `OnConnect` and `OnClose` set the
`_ConnectStatus`, which is not part of the world. -/
def connectStream : StreamClass (MessageStream (Checked O)) :=
  { h.messageStream with
    onRecived := fun n w => (ConnectStream.onRecived h.messageHanders n w).2
    onSended := fun n => ((h.handerMessageSended.map fun f => f n).map Checked.lift).getD id
    connectReturnsZero := true }

end Handers

/-- `ServerConnect::Start`: the pointers that it sets. -/
def ServerConnect.start {Req Res : Type} (env : ServerEnv Req Res) :
    Handers (ServerConnect Req Res) :=
  { Handers.init with
    handerMessageRecived := some fun _ => onMessageRecived env
    handerClose := some onClose
    handerMessageSended := some (onMessageSended env)
    handerMessageError := some onMessageError }

/-- `RpcChannelImpl::Connect`: the pointers that it sets. -/
def RpcChannelImpl.connect {Req : Type} (env : ChannelEnv Req) : Handers (RpcChannelImpl Req) :=
  { Handers.init with
    handerMessageRecived := some fun _ => onMessageRecived env
    handerMessageSended := some onMessageSended
    handerClose := some onClose
    handerWriteable := some (onWriteable env)
    handerReadTimeOut := some onRecvTimeout
    handerWriteTimeOut := some onSendTimeout }

/-- The streams of the two. -/
def ServerConnect.stream {Req Res : Type} (env : ServerEnv Req Res) :
    StreamClass (MessageStream (Checked (ServerConnect Req Res))) :=
  (start env).messageStream

def RpcChannelImpl.stream {Req : Type} (env : ChannelEnv Req) :
    StreamClass (MessageStream (Checked (RpcChannelImpl Req))) :=
  (connect env).connectStream

/-! ## Runs -/

/-- What happens to a stream: an event, with what the handlers find outside the source, or its
object does something by itself. -/
inductive StreamAct (E O : Type)
  | event (env : E) (k : Kernel) (mask : BitVec 32)
  | other (f : World (MessageStream O) → World (MessageStream O))

/-- One such step. -/
def StreamStep {E O : Type} (c : E → StreamClass (MessageStream (Checked O)))
    (w : World (MessageStream (Checked O))) :
    StreamAct E O → World (MessageStream (Checked O)) → Prop
  | .event env k mask, w' => w' = ((c env).onEvent k mask w).toWorld
  | .other f, w' => w' = Checked.lift f w

/-- The run of one event. -/
lemma run_event {E O : Type} (c : E → StreamClass (MessageStream (Checked O))) (env : E)
    (k : Kernel) (mask : BitVec 32) (w : World (MessageStream (Checked O))) :
    Exec.Run (StreamStep c) w [(w, .event env k mask)] ((c env).onEvent k mask w).toWorld := by
  rw [← List.nil_append [(w, StreamAct.event env k mask)]]
  exact .snoc .nil rfl

/-- No pointer was run while it was NULL. -/
def AllSet {O : Type} (w : World (MessageStream (Checked O))) : Prop := w.owner.nullRun = false

/-! ### The server's stream -/

section

variable {O : Type} {h : Handers O} {b : Bool}

/-- Handlers that are there do not run a NULL pointer. -/
lemma lift_keeps {f : Option (World (MessageStream O) → World (MessageStream O))} :
    ∀ g ∈ f.map Checked.lift, ∀ w : World (MessageStream (Checked O)),
      w.owner.nullRun = b → (g w).owner.nullRun = b := by
  intro g hg w hw
  obtain ⟨f, -, rfl⟩ := Option.map_eq_some_iff.mp hg
  exact hw

lemma keeps_messageStream (hsended : h.handerMessageSended.isSome) :
    h.messageStream.Keeps fun w => w.owner.nullRun = b where
  stream _ _ _ _ hw := hw
  connected := lift_keeps
  writeable := lift_keeps
  sended n w hw := by
    obtain ⟨f, hf⟩ := Option.isSome_iff_exists.mp hsended
    simpa [Handers.messageStream, hf] using hw
  afterConnect _ hw := hw
  onClose _ hd := StreamClass.keeps_onClose
    (P := fun w : World (MessageStream (Checked O)) => w.owner.nullRun = b)
    (fun _ hw => hw) (fun _ hw => hw) lift_keeps (fun _ hw => hw) hd

/-- What `OnRecived` calls runs no NULL pointer. -/
lemma keeps_messageHanders (herror : h.handerMessageError.isSome) :
    h.messageHanders.Keeps fun w => w.owner.nullRun = b where
  parsed _ _ _ _ hw := hw
  recived g hg n w hw := by
    obtain ⟨f, -, rfl⟩ := Option.map_eq_some_iff.mp hg
    exact hw
  error code w hw := by
    obtain ⟨f, hf⟩ := Option.isSome_iff_exists.mp herror
    simpa [Handers.messageHanders, hf] using hw

end

/-- An event of a server's stream. -/
lemma allSet_onEvent {O : Type} {h : Handers O} (herror : h.handerMessageError.isSome)
    (hsended : h.handerMessageSended.isSome) {w : World (MessageStream (Checked O))} (hw : AllSet w)
    (k : Kernel) (mask : BitVec 32) : AllSet (h.messageStream.onEvent k mask w).toWorld := by
  have hkeeps := (keeps_messageStream (b := false) hsended).changes
  by_cases hearly : h.messageStream.ReturnsEarly k mask w
  · exact hkeeps.onEvent_early hearly hw
  · rw [StreamClass.onEvent_eq_process hearly]
    refine hkeeps.process hkeeps k mask
      (fun _ hd => StreamClass.keeps_timeOuts
        (P := fun w : World (MessageStream (Checked O)) => w.owner.nullRun = false)
        (fun _ hw => hw) lift_keeps lift_keeps mask hd) ?_
    have hconnect := hkeeps.connectFirst k mask (d := ⟨w, []⟩) hw
    split
    · exact hkeeps.onReadable lift_keeps
        (keeps_messageHanders herror).error
        (fun n _ hw => (keeps_messageHanders herror).recvLoop _ n hw) _ hconnect
    · exact hconnect

/-! ### The client's stream -/

/-- The world when `OnRecived` is called. -/
def delivered {σ : Type} (rets : List ReadvRet) (w : World (MessageStream σ)) :
    World (MessageStream σ) :=
  w.modifyStream fun s => { s with readbuf := readInto rets s.readbuf }

/-- The reading reports an error: the read buffer is full, or the bytes are delivered and a
header among them is refused.  Before it `n` bytes were read. -/
def ReportsError {O : Type} (h : Handers O) (rets : List ReadvRet) (n : ℕ)
    (w : World (MessageStream (Checked O))) : Prop :=
  (readRounds rets w.stream.readbuf).2 = .full ∨
    (readRounds rets w.stream.readbuf).2 = .wouldBlock ∧
      0 < toInt32 (n + (readRounds rets w.stream.readbuf).1.sum : ℕ) ∧
      ∃ w' ∈ ConnectStream.recvRounds h.messageHanders
          ((readInto rets w.stream.readbuf).getBufferUsed + 1)
          (toInt32 (n + (readRounds rets w.stream.readbuf).1.sum : ℕ)) (delivered rets w),
        w'.resheader.Refused w'.stream.readbuf

section

variable {O : Type} {h : Handers O} {b : Bool}

/-- The header is refused in the first round. -/
lemma reportsError_of_refused {rets : List ReadvRet} {n : ℕ} {counts : List ℕ}
    {w : World (MessageStream (Checked O))}
    (hrounds : readRounds rets w.stream.readbuf = (counts, .wouldBlock))
    (hpos : 0 < toInt32 (n + counts.sum : ℕ))
    (hrefused : w.resheader.Refused (readInto rets w.stream.readbuf)) :
    ReportsError h rets n w := by
  refine Or.inr ⟨by rw [hrounds], by rwa [hrounds], delivered rets w, ?_, hrefused⟩
  rw [ConnectStream.recvRounds]
  exact List.mem_cons_self

lemma keeps_connectStream : h.connectStream.Keeps fun w => w.owner.nullRun = b where
  stream _ _ _ _ hw := hw
  connected := lift_keeps
  writeable := lift_keeps
  sended _ _ hw := StreamClass.keeps_getD lift_keeps hw
  afterConnect _ hw := hw
  onClose _ hd := StreamClass.keeps_onClose
    (P := fun w : World (MessageStream (Checked O)) => w.owner.nullRun = b)
    (fun _ hw => hw) (fun _ hw => hw) lift_keeps (fun _ hw => hw) hd

/-- What follows the reading runs no NULL pointer. -/
lemma nullRun_connectProcess_of_read {k : Kernel} {mask : BitVec 32}
    {d : Dispatch (MessageStream (Checked O))}
    (hread : (if Has mask eventRead then h.connectStream.onReadable k.reads d
      else (0, d)).2.toWorld.owner.nullRun = b) :
    (h.connectStream.process k mask d).toWorld.owner.nullRun = b :=
  keeps_connectStream.changes.process keeps_connectStream.changes k mask
    (fun _ hd => StreamClass.keeps_timeOuts
      (P := fun w : World (MessageStream (Checked O)) => w.owner.nullRun = b)
      (fun _ hw => hw) lift_keeps lift_keeps mask hd) hread

variable (herror : h.handerMessageError = none)

include herror

/-- A round runs a NULL pointer when the header is refused. -/
lemma nullRun_connectPacket (n : ℤ) (w : World (MessageStream (Checked O))) :
    (ConnectStream.recvPacket h.messageHanders n w).2.owner.nullRun
      = (w.owner.nullRun || decide (w.resheader.Refused w.stream.readbuf)) := by
  have hmessage : ∀ code w, (h.messageHanders.handerMessageError code w).owner.nullRun = true := by
    intro code w
    simp [Handers.messageHanders, herror]
  rw [ConnectStream.recvPacket]
  dsimp only
  split
  · rename_i hret
    have hrefused : w.resheader.Refused w.stream.readbuf := Or.inl hret
    rw [hmessage, decide_eq_true hrefused, Bool.or_true]
  · rename_i hret
    rw [decide_eq_false, Bool.or_false]
    simp [HttpReponseHeader.Refused, World.resheader, hret]
  · rename_i hret
    rw [decide_eq_false, Bool.or_false]
    simp [HttpReponseHeader.Refused, World.resheader, hret]
  · rename_i hret
    split
    · rename_i hlen
      have hrefused : w.resheader.Refused w.stream.readbuf := Or.inr ⟨hret, hlen⟩
      rw [hmessage, decide_eq_true hrefused, Bool.or_true]
    · rename_i hlen
      have hnot : ¬ w.resheader.Refused w.stream.readbuf := by
        rintro (hfail | ⟨-, hneg⟩)
        · exact absurd (hret.symm.trans hfail) (by decide)
        · exact hlen hneg
      rw [decide_eq_false hnot, Bool.or_false]
      split <;> rfl

omit herror in
lemma nullRun_connectProcess (n : ℤ) (w : World (MessageStream (Checked O))) :
    (ConnectStream.processPacket h.messageHanders n w).2.owner.nullRun = w.owner.nullRun := by
  rw [ConnectStream.processPacket, Handers.messageHanders]
  cases h.handerMessageRecived <;> rfl

/-- The loop runs one when a round does. -/
lemma nullRun_connectLoop (fuel : ℕ) (n : ℤ) (w : World (MessageStream (Checked O))) :
    (ConnectStream.recvLoop h.messageHanders fuel n w).2.owner.nullRun = true ↔
      w.owner.nullRun = true ∨ ∃ w' ∈ ConnectStream.recvRounds h.messageHanders fuel n w,
        w'.resheader.Refused w'.stream.readbuf := by
  induction fuel generalizing n w with
  | zero => simp [ConnectStream.recvLoop, ConnectStream.recvRounds]
  | succ fuel ih =>
    have hrecv := nullRun_connectPacket herror n w
    rw [ConnectStream.recvLoop, ConnectStream.recvRounds]
    rcases hpacket : ConnectStream.recvPacket h.messageHanders n w with ⟨ret | m, w'⟩ <;>
      rw [hpacket] at hrecv
    · replace hrecv : w'.owner.nullRun = _ := hrecv
      simp only [hrecv, Bool.or_eq_true, decide_eq_true_eq, List.mem_singleton,
        exists_eq_left]
    · have hprocess := (nullRun_connectProcess (h := h) m w').trans hrecv
      dsimp only
      split
      · simp only [hprocess, Bool.or_eq_true, decide_eq_true_eq, List.mem_singleton,
          exists_eq_left]
      · split
        · simp only [ih, hprocess, Bool.or_eq_true, decide_eq_true_eq, List.mem_cons,
            exists_eq_or_imp, or_assoc]
        · simp only [hprocess, Bool.or_eq_true, decide_eq_true_eq, List.mem_singleton,
            exists_eq_left]

/-- A full buffer is reported through a NULL pointer. -/
lemma nullRun_bufferFull (d : Dispatch (MessageStream (Checked O))) :
    (d.call (.messageError .serverReadbufferFull)
      (h.connectStream.handerMessageError .serverReadbufferFull)).toWorld.owner.nullRun = true := by
  change (Checked.run _ d.toWorld).owner.nullRun = true
  rw [herror]
  rfl

/-- Bytes that are delivered run one when a round does. -/
lemma nullRun_deliver (n : ℕ) (d : Dispatch (MessageStream (Checked O))) :
    (h.connectStream.deliver n d).toWorld.owner.nullRun = true ↔
      d.toWorld.owner.nullRun = true ∨ 0 < toInt32 n ∧
        ∃ w' ∈ ConnectStream.recvRounds h.messageHanders (d.stream.readbuf.getBufferUsed + 1)
          (toInt32 n) d.toWorld, w'.resheader.Refused w'.stream.readbuf := by
  rw [StreamClass.deliver]
  by_cases hn : 0 < toInt32 n
  · rw [if_pos hn]
    simp only [hn, true_and]
    exact nullRun_connectLoop herror _ _ _
  · rw [if_neg hn]
    simp [hn]

/-- The read loop runs one when the buffer is full, or when the bytes are delivered and a round
runs one. -/
lemma nullRun_readLoop (rets : List ReadvRet) (n : ℕ) (d : Dispatch (MessageStream (Checked O))) :
    (h.connectStream.readLoop rets n d).2.toWorld.owner.nullRun = true ↔
      d.toWorld.owner.nullRun = true ∨ ReportsError h rets n d.toWorld := by
  induction rets generalizing n d with
  | nil =>
    rw [StreamClass.readLoop.eq_def, ReportsError, readRounds.eq_def]
    dsimp only
    cases d.stream.readbuf.getReciveBuffer with
    | none => exact iff_of_true (nullRun_bufferFull herror d) (Or.inr (Or.inl rfl))
    | some iov =>
      simp only [reduceCtorEq, false_or, true_and, List.sum_nil, Nat.add_zero]
      exact nullRun_deliver herror n d
  | cons ret rets ih =>
    rw [StreamClass.readLoop.eq_def, ReportsError, readRounds.eq_def]
    dsimp only
    cases hg : d.stream.readbuf.getReciveBuffer with
    | none => exact iff_of_true (nullRun_bufferFull herror d) (Or.inr (Or.inl rfl))
    | some iov =>
      cases ret with
      | data bs ne =>
        have hinto : readInto (.data bs ne :: rets) d.stream.readbuf
            = readInto rets (d.stream.readbuf.recive bs) := by
          rw [readInto, hg]
        have hdelivered : delivered (.data bs ne :: rets) d.toWorld
            = delivered rets (d.modify fun s => { s with readbuf := s.readbuf.recive bs }).toWorld := by
          simp only [delivered, World.modifyStream, hinto, Dispatch.modify,
            Dispatch.run]
        refine (ih _ _).trans ?_
        rw [ReportsError, hdelivered, hinto]
        simp only [List.sum_cons, ← Nat.add_assoc]
        rfl
      | again =>
        simp only [reduceCtorEq, false_or, true_and, List.sum_nil, Nat.add_zero]
        exact nullRun_deliver herror n d
      | eof => simp
      | error => simp

end

/-- The event reads, and the reading reports an error. -/
def ReadsError {O : Type} (h : Handers O) (k : Kernel) (mask : BitVec 32)
    (w : World (MessageStream (Checked O))) : Prop :=
  w.stream.isClosed = false ∧ ¬ Has mask eventClose ∧ ¬ Has mask eventErr ∧ Has mask eventRead ∧
    ReportsError h k.reads 0 (w.modifyStream fun s => { s with isConnected := true })

/-- The step is no such event. -/
def NoError {E O : Type} (h : E → Handers O) (w : World (MessageStream (Checked O))) :
    StreamAct E O → Prop
  | .event env k mask => ¬ ReadsError (h env) k mask w
  | .other _ => True

section

variable {O : Type} {h : Handers O}

/-- The connect of a client's stream has nothing to run, and does not fail. -/
lemma connectFirst_connectStream (hconnected : h.handerConnected = none) (k : Kernel)
    {mask : BitVec 32} (hread : Has mask eventRead) (w : World (MessageStream (Checked O))) :
    (h.connectStream.connectFirst k mask ⟨w, []⟩).1 = 0 ∧
      (h.connectStream.connectFirst k mask ⟨w, []⟩).2.toWorld
        = w.modifyStream fun s => { s with isConnected := true } := by
  have hrun : h.connectStream.handerConnected = none := by
    simp [Handers.connectStream, Handers.messageStream, hconnected]
  rw [StreamClass.connectFirst]
  by_cases hc : w.stream.isConnected = false
  · rw [if_pos ⟨hc, Or.inl hread⟩, StreamClass.onConnect, hrun]
    split <;> exact ⟨rfl, rfl⟩
  · rw [if_neg fun h => hc h.1]
    refine ⟨rfl, ?_⟩
    have hconn : w.stream.isConnected = true := by simpa using hc
    rw [World.modifyStream, ← hconn]

/-- An event of a client's stream runs a NULL pointer when its reading reports an error. -/
lemma nullRun_onEvent (herror : h.handerMessageError = none)
    (hconnected : h.handerConnected = none) (hreadable : h.handerReadable = none)
    {w : World (MessageStream (Checked O))} (hw : AllSet w) (k : Kernel) (mask : BitVec 32) :
    (h.connectStream.onEvent k mask w).toWorld.owner.nullRun = true ↔
      ReadsError h k mask w := by
  have hstart : ∀ d : Dispatch (MessageStream (Checked O)),
      h.connectStream.onReadable k.reads d = h.connectStream.readLoop k.reads 0 d := by
    intro d
    rw [StreamClass.onReadable, Dispatch.runHander,
      show h.connectStream.handerReadable = none by
        simp [Handers.connectStream, Handers.messageStream, hreadable]]
    rfl
  by_cases hearly : h.connectStream.ReturnsEarly k mask w
  · -- nothing is read
    have hset := (keeps_connectStream (h := h) (b := false)).changes.onEvent_early hearly hw
    refine iff_of_false (by rw [hset]; decide) ?_
    rintro ⟨hopen, hclose, herr, -⟩
    rcases hearly with hclosed | hclose' | herr' | hfails
    · exact absurd (hopen.symm.trans hclosed) (by decide)
    · exact hclose hclose'
    · exact herr herr'
    · exact absurd hfails.2.2.2 (by simp [Handers.connectStream])
  rw [StreamClass.onEvent_eq_process hearly]
  simp only [StreamClass.ReturnsEarly, not_or, Bool.not_eq_true] at hearly
  obtain ⟨hopen, hclose, herr, -⟩ := hearly
  by_cases hread : Has mask eventRead
  · obtain ⟨-, hworld⟩ := connectFirst_connectStream hconnected k hread w
    have hloop := nullRun_readLoop herror k.reads 0 (h.connectStream.connectFirst k mask ⟨w, []⟩).2
    rw [hworld] at hloop
    -- the reading decides
    have hprocess : ∀ b, (h.connectStream.readLoop k.reads 0
        (h.connectStream.connectFirst k mask ⟨w, []⟩).2).2.toWorld.owner.nullRun = b →
          (h.connectStream.process k mask
            (h.connectStream.connectFirst k mask ⟨w, []⟩).2).toWorld.owner.nullRun = b := by
      intro b hb
      refine nullRun_connectProcess_of_read ?_
      rw [if_pos hread, hstart]
      exact hb
    rw [hprocess _ rfl, hloop]
    exact ⟨fun h => ⟨hopen, hclose, herr, hread,
      h.resolve_left (by rw [World.owner_modifyStream, hw]; decide)⟩, fun h => Or.inr h.2.2.2.2⟩
  · have hset : (h.connectStream.process k mask
        (h.connectStream.connectFirst k mask ⟨w, []⟩).2).toWorld.owner.nullRun = false := by
      refine nullRun_connectProcess_of_read ?_
      rw [if_neg hread]
      exact keeps_connectStream.changes.connectFirst k mask hw
    exact iff_of_false (by rw [hset]; decide) fun h => hread h.2.2.2.1

end

/-! ### Both -/

/-- A server's stream never runs a pointer that is NULL.  A client's stream does so in the
events whose reading reports an error, since `Connect` does not set `handerMessageError`, and
only in these. -/
theorem handers_set_iff {Req Res Req' : Type} :
    (∀ w₀ acts w, AllSet w₀ →
      Exec.Run (StreamStep (@ServerConnect.stream Req Res)) w₀ acts w →
      Exec.Always AllSet acts w) ∧
    ∀ w₀ acts w, AllSet w₀ →
      Exec.Run (StreamStep (@RpcChannelImpl.stream Req')) w₀ acts w →
      (Exec.Always AllSet acts w ↔ Exec.Admits (NoError RpcChannelImpl.connect) acts) := by
  constructor
  · intro w₀ acts w h0 hrun
    refine hrun.always_all h0 ?_
    rintro s (⟨env, k, mask⟩ | f) t hs rfl
    · exact allSet_onEvent rfl rfl hs k mask
    · exact hs
  · intro w₀ acts w h0 hrun
    have hnull := fun (env : ChannelEnv Req') w (hw : AllSet w) k mask =>
      nullRun_onEvent (h := RpcChannelImpl.connect env) rfl rfl rfl hw k mask
    refine hrun.always_iff h0 (fun _ hs => hs) ?_ ?_
    · rintro s (⟨env, k, mask⟩ | f) t hs hok rfl
      · exact Bool.eq_false_iff.mpr ((hnull env s hs k mask).not.mpr hok)
      · exact hs
    · rintro s (⟨env, k, mask⟩ | f) t hs hbad rfl
      · have hrun := (hnull env s hs k mask).mpr (not_not.mp hbad)
        exact Bool.eq_false_iff.not.mpr (not_not.mpr hrun)
      · exact absurd trivial hbad

/-! ### A broken response -/

/-- The status line ends with CR and something else. -/
def brokenResponse : Bytes := ascii "H 200 OK\rX"

/-- It arrives. -/
def brokenKernel : Kernel := ⟨true, [.data brokenResponse (by decide)], []⟩

/-- A client's stream before the connect, and its object. -/
def newStream {O : Type} (o : O) : World (MessageStream (Checked O)) :=
  ⟨.init, ⟨.init, .init, ⟨o, false⟩⟩⟩

lemma allSet_newStream {O : Type} (o : O) : AllSet (newStream o) := rfl

/-- `ParserHeader` fails on it. -/
lemma refused_brokenResponse :
    HttpReponseHeader.init.Refused (ReadBuffer.init.recive brokenResponse) := by
  obtain ⟨hr, -, htape⟩ := ReadBuffer.recive_empty ReadBuffer.isRing_init rfl brokenResponse
    (by decide +kernel)
  have hparse := HttpReponseHeader.parser.parse_eq (h := .init) hr
  refine Or.inl ((congrArg Prod.fst hparse).trans ?_)
  rw [htape]
  decide +kernel

/-- Its arrival is such an event, for any object. -/
lemma readsError_brokenKernel {O : Type} (h : Handers O) (o : O) :
    ReadsError h brokenKernel eventRead (newStream o) := by
  obtain ⟨iov, hiov⟩ := exists_getReciveBuffer (show ReadBuffer.init.readpos.pos = 0 from rfl)
  obtain ⟨iov', hiov'⟩ := exists_getReciveBuffer
    (show (ReadBuffer.init.recive brokenResponse).readpos.pos = 0 from rfl)
  have hrounds : readRounds brokenKernel.reads ReadBuffer.init = ([10], .wouldBlock) := by
    simp only [brokenKernel, readRounds, hiov, hiov']
    decide
  have hinto : readInto brokenKernel.reads ReadBuffer.init
      = ReadBuffer.init.recive brokenResponse := by
    simp only [brokenKernel, readInto, hiov]
  exact ⟨rfl, by decide, by decide, by decide,
    reportsError_of_refused hrounds (by decide) (hinto ▸ refused_brokenResponse)⟩

/-- An environment that is never asked. -/
def idleEnv : ChannelEnv Unit := ⟨fun _ b => (true, b), fun _ => true, 0⟩

/-- A channel without calls. -/
def idleChannel : RpcChannelImpl Unit :=
  ⟨{}, [], [], [], fun _ => ⟨0, -1, 0, 0, [], (), false⟩, 0, false, []⟩

/-- The event. -/
def brokenAct : StreamAct (ChannelEnv Unit) (RpcChannelImpl Unit) :=
  .event idleEnv brokenKernel eventRead

/-- Then a client's stream runs a NULL pointer. -/
theorem handers_not_set :
    ¬ ∀ w₀ acts w, AllSet w₀ →
      Exec.Run (StreamStep (@RpcChannelImpl.stream Unit)) w₀ acts w →
      Exec.Always AllSet acts w := by
  intro hall
  have h0 := allSet_newStream idleChannel
  have hset := (hall _ _ _ h0 (run_event _ idleEnv brokenKernel eventRead _)).last
  have hnull := readsError_brokenKernel (RpcChannelImpl.connect idleEnv) idleChannel
  rw [← nullRun_onEvent rfl rfl rfl h0] at hnull
  rw [AllSet, RpcChannelImpl.stream, hnull] at hset
  exact absurd hset (by decide)

/-- The run of this event alone. -/
theorem handers_set_iff_broken :
    Exec.Always AllSet [(newStream idleChannel, brokenAct)]
        ((RpcChannelImpl.stream idleEnv).onEvent brokenKernel eventRead
          (newStream idleChannel)).toWorld ↔
      Exec.Admits (NoError RpcChannelImpl.connect) [(newStream idleChannel, brokenAct)] :=
  (@handers_set_iff Unit Unit Unit).2 _ _ _
    (allSet_newStream idleChannel) (run_event _ idleEnv brokenKernel eventRead _)

end MTRpc
