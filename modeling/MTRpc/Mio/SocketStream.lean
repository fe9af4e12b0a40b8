import MTRpc.Http.Text
import MTRpc.Mio.BufferRing
import MTRpc.Mio.Event

/-!
# Socket streams

`SocketStream::OnEvent` and what it calls.  The handlers of a stream and the virtual functions
that its subclasses override are parameters (`StreamClass`); they can change the stream and
whatever else there is (`World`).  The results of the system calls made in one `OnEvent` are an
argument (`Kernel`), and the calls that `OnEvent` makes are recorded in order (`Call`).

The read loop of `OnReadable` adds up what it reads and passes the sum on after the loop, by
way of `OnRecived`.  Two of its four exits return before that: `onEvent_delivers_iff` says when
the bytes are delivered.
-/

namespace MTRpc

/-- A task posted to the poller by the asynchronous functions of `IOEvent`. -/
inductive PollerTask
  | modEvent (readable writeable : Bool)
  | delEvent
  | setReadTimeOut (timeSec : ℕ)
  | setWriteTimeOut (timeSec : ℕ)
  | delReadTimeOut
deriving DecidableEq, Repr

/-- The fields of a `SocketStream` that its functions use. -/
structure Stream where
  isConnected : Bool
  isClosed : Bool
  closeWhenEmpty : Bool
  readbuf : ReadBuffer
  writebuf : WriteBuffer
  /-- What has been posted to the poller. -/
  tasks : List PollerTask
  refCount : ℤ

namespace Stream

/-- After the constructor. -/
def init : Stream := ⟨false, false, false, .init, .init, [], 0⟩

variable (s : Stream)

/-- `ModEventAsync` -/
def modEventAsync (readable writeable : Bool) : Stream :=
  { s with tasks := s.tasks ++ [.modEvent readable writeable] }

/-- `DelEventAsync` -/
def delEventAsync : Stream := { s with tasks := s.tasks ++ [.delEvent] }

/-- `SetReadTimeOutAsync` -/
def setReadTimeOutAsync (timeSec : ℕ) : Stream :=
  { s with tasks := s.tasks ++ [.setReadTimeOut timeSec] }

/-- `SetWriteTimeOutAsync` -/
def setWriteTimeOutAsync (timeSec : ℕ) : Stream :=
  { s with tasks := s.tasks ++ [.setWriteTimeOut timeSec] }

/-- `DelReadTimeOutAsync` -/
def delReadTimeOutAsync : Stream := { s with tasks := s.tasks ++ [.delReadTimeOut] }

/-- `ReleaseRef` -/
def releaseRef : Stream := { s with refCount := s.refCount - 1 }

end Stream

/-- What a `readv` returns. -/
inductive ReadvRet
  /-- A positive count: the bytes read. -/
  | data (bs : Bytes) (ne : bs ≠ [])
  /-- -1 with `EAGAIN`, `EWOULDBLOCK` or `EINTR`. -/
  | again
  /-- 0 -/
  | eof
  /-- -1 with another error. -/
  | error
deriving DecidableEq

/-- What a `writev` returns. -/
inductive WritevRet
  /-- A positive count. -/
  | sent (count : ℕ) (pos : 0 < count)
  /-- -1 with `EAGAIN`, `EWOULDBLOCK` or `EINTR`. -/
  | again
  /-- 0, or -1 with another error. -/
  | error
deriving DecidableEq

/-- What the system calls of one `OnEvent` return; when a list ends, the call would block. -/
structure Kernel where
  /-- `getlocal` and `getpeer` find an address. -/
  names : Bool
  reads : List ReadvRet
  writes : List WritevRet

/-- The stream, and everything else that its handlers use. -/
structure World (σ : Type) where
  stream : Stream
  ext : σ

/-- A call that `OnEvent` makes. -/
inductive Call
  /-- A `readv` that read `count` bytes. -/
  | readv (count : ℕ)
  | onRecived (size : ℤ)
  | writev (count : ℕ)
  | onSended (size : ℤ)
  | messageError (code : ErrorCode)
  | onReadTimeOut
  | onWriteTimeOut
  /-- `_close_when_empty` is set. -/
  | mark
  | onClose
deriving DecidableEq, Repr

/-- The world, with the calls made so far. -/
structure Dispatch (σ : Type) extends World σ where
  calls : List Call

/-- The handlers of a stream and its virtual functions. -/
structure StreamClass (σ : Type) where
  handerConnected : Option (World σ → World σ)
  handerReadable : Option (World σ → World σ)
  handerWriteable : Option (World σ → World σ)
  handerClose : Option (World σ → World σ)
  handerReadTimeOut : Option (World σ → World σ)
  handerWriteTimeOut : Option (World σ → World σ)
  /-- Called without a test: without a handler the source goes on undefined. -/
  handerMessageError : ErrorCode → World σ → World σ
  /-- `OnRecived` -/
  onRecived : ℤ → World σ → World σ
  /-- `OnSended` -/
  onSended : ℤ → World σ → World σ
  /-- What an override of `OnConnect` does after the function of the base, and whether it
  returns 0 whatever that returned. -/
  afterConnect : World σ → World σ
  connectReturnsZero : Bool
  /-- What an override of `OnClose` does after the function of the base. -/
  afterClose : World σ → World σ

namespace Dispatch

variable {σ : Type} (d : Dispatch σ)

/-- A function that is not recorded. -/
def run (f : World σ → World σ) : Dispatch σ := { toWorld := f d.toWorld, calls := d.calls }

/-- `if (handler) handler->Run(...)` -/
def runHander (f : Option (World σ → World σ)) : Dispatch σ := d.run (f.getD id)

/-- A change of the stream alone. -/
def modify (f : Stream → Stream) : Dispatch σ := d.run fun w => { w with stream := f w.stream }

/-- A recorded call. -/
def call (c : Call) (f : World σ → World σ) : Dispatch σ :=
  { toWorld := f d.toWorld, calls := d.calls ++ [c] }

@[simp] lemma calls_run (f : World σ → World σ) : (d.run f).calls = d.calls := rfl

@[simp] lemma calls_runHander (f : Option (World σ → World σ)) :
    (d.runHander f).calls = d.calls := rfl

@[simp] lemma calls_modify (f : Stream → Stream) : (d.modify f).calls = d.calls := rfl

@[simp] lemma calls_call (c : Call) (f : World σ → World σ) :
    (d.call c f).calls = d.calls ++ [c] := rfl

end Dispatch

namespace StreamClass

variable {σ : Type} (c : StreamClass σ)

/-- `OnConnect` -/
def onConnect (names : Bool) (d : Dispatch σ) : ℤ × Dispatch σ :=
  if names then (0, (d.runHander c.handerConnected).run c.afterConnect)
  else (if c.connectReturnsZero then 0 else -1, d.run c.afterConnect)

/-- `OnClose`: on a stream that is open, the handler, and then the poller forgets it. -/
def onClose (d : Dispatch σ) : Dispatch σ :=
  d.call .onClose fun w =>
    c.afterClose <|
      if w.stream.isClosed then w
      else
        let w := { w with stream := { w.stream with isClosed := true, isConnected := false } }
        let w := (c.handerClose.getD id) w
        { w with stream := w.stream.delEventAsync }

/-- `if (read_size > 0) OnRecived(read_size)`, where the counts are added in an `int`. -/
def deliver (readSize : ℕ) (d : Dispatch σ) : Dispatch σ :=
  if 0 < toInt32 readSize then
    d.call (.onRecived (toInt32 readSize)) (c.onRecived (toInt32 readSize))
  else d

/-- The loop of `OnReadable`, with the bytes read so far, and what follows it. -/
def readLoop : List ReadvRet → ℕ → Dispatch σ → ℤ × Dispatch σ
  | rets, readSize, d =>
    match d.stream.readbuf.getReciveBuffer with
    | none => (-1, d.call (.messageError .serverReadbufferFull)
        (c.handerMessageError .serverReadbufferFull))
    | some _ =>
      match rets with
      | .data bs _ :: rets =>
          readLoop rets (readSize + bs.length)
            (d.call (.readv bs.length)
              fun w => { w with stream := { w.stream with readbuf := w.stream.readbuf.recive bs } })
      | .eof :: _ | .error :: _ => (-1, d)
      | .again :: _ | [] => (0, c.deliver readSize d)

/-- `OnReadable` -/
def onReadable (reads : List ReadvRet) (d : Dispatch σ) : ℤ × Dispatch σ :=
  c.readLoop reads 0 (d.runHander c.handerReadable)

/-- The loop of `OnWriteable`: whether it broke off with an error, and the bytes written. -/
def writeLoop : List WritevRet → ℕ → Dispatch σ → Bool × ℕ × Dispatch σ
  | rets, writeSize, d =>
    match d.stream.writebuf.getSendBuffer with
    | none => (false, writeSize, d)
    | some _ =>
      match rets with
      | .sent count _ :: rets =>
          writeLoop rets (writeSize + count)
            (d.call (.writev count) fun w =>
              { w with stream := { w.stream with writebuf := w.stream.writebuf.moveSendPtr count } })
      | .error :: _ => (true, writeSize, d)
      | .again :: _ | [] => (false, writeSize, d)

/-- No buffer to send: disable write. -/
def disableWrite (d : Dispatch σ) : Dispatch σ :=
  if d.stream.writebuf.isEmpty then d.modify (·.modEventAsync true false) else d

/-- `if (write_size > 0) OnSended(write_size)` -/
def sended (writeSize : ℕ) (d : Dispatch σ) : Dispatch σ :=
  if 0 < toInt32 writeSize then
    d.call (.onSended (toInt32 writeSize)) (c.onSended (toInt32 writeSize))
  else d

/-- `OnWriteable` -/
def onWriteable (writes : List WritevRet) (d : Dispatch σ) : ℤ × Dispatch σ :=
  let d := (disableWrite d).runHander c.handerWriteable
  if d.stream.writebuf.isEmpty then (0, d)
  else
    match writeLoop writes 0 d with
    | (true, _, d) => (-1, d)
    | (false, writeSize, d) =>
        (0, disableWrite (c.sended writeSize d))

/-- `OnConnect` as `OnEvent` calls it: on a stream that is not connected, for a READ or a
WRITE. -/
def connectFirst (k : Kernel) (mask : BitVec 32) (d : Dispatch σ) : ℤ × Dispatch σ :=
  if d.stream.isConnected = false ∧ (Has mask eventRead ∨ Has mask eventWrite) then
    let r := c.onConnect k.names d
    if r.1 < 0 then r else (0, r.2.modify fun s => { s with isConnected := true })
  else (0, d)

/-- The end of `OnEvent`: close at once, or when the write buffer is empty. -/
def closeOrMark (d : Dispatch σ) : Dispatch σ :=
  if d.stream.writebuf.isEmpty then c.onClose d
  else
    d.call .mark fun w =>
      { w with stream := ({ w.stream with closeWhenEmpty := true }).modEventAsync true true }

/-- The time-outs of `OnEvent`: each has taken a reference. -/
def timeOuts (mask : BitVec 32) (d : Dispatch σ) : Dispatch σ :=
  let d := if Has mask readTimeOut then
    (d.call .onReadTimeOut (c.handerReadTimeOut.getD id)).modify Stream.releaseRef else d
  if Has mask writeTimeOut then
    (d.call .onWriteTimeOut (c.handerWriteTimeOut.getD id)).modify Stream.releaseRef
  else d

/-- `OnEvent`, behind the tests for CLOSE and ERR and the connect: whether `OnReadable` and
`OnWriteable` ask for a close is added to the mask. -/
def process (k : Kernel) (mask : BitVec 32) (d : Dispatch σ) : Dispatch σ :=
  let r := if Has mask eventRead then c.onReadable k.reads d else (0, d)
  let w := if Has mask eventWrite then c.onWriteable k.writes r.2 else (0, r.2)
  let d := c.timeOuts mask w.2
  if r.1 ≠ 0 ∨ w.1 ≠ 0 ∨ d.stream.closeWhenEmpty = true then c.closeOrMark d else d

/-- `OnEvent` -/
def onEvent (k : Kernel) (mask : BitVec 32) (w : World σ) : Dispatch σ :=
  let d : Dispatch σ := { toWorld := w, calls := [] }
  if w.stream.isClosed then d
  else if Has mask eventClose then c.closeOrMark d
  else if Has mask eventErr then c.onClose d
  else
    let r := c.connectFirst k mask d
    if r.1 < 0 then c.onClose r.2 else c.process k mask r.2

end StreamClass

/-! ## What a dispatch calls -/

/-- How the read loop ends. -/
inductive ReadExit
  /-- `GetReciveBuffer` finds no room. -/
  | full
  | wouldBlock
  /-- The end of the stream or an error. -/
  | closed
deriving DecidableEq, Repr

/-- The positive counts that `readv` returns in one `OnReadable`, and what ends them. -/
def readRounds : List ReadvRet → ReadBuffer → List ℕ × ReadExit
  | rets, rb =>
    match rb.getReciveBuffer with
    | none => ([], .full)
    | some _ =>
      match rets with
      | .data bs _ :: rets =>
          (bs.length :: (readRounds rets (rb.recive bs)).1, (readRounds rets (rb.recive bs)).2)
      | .eof :: _ | .error :: _ => ([], .closed)
      | .again :: _ | [] => ([], .wouldBlock)

/-- When a call of `readv` has read something, the bytes are delivered: right after the calls
of `readv`, before the stream is marked or closed, `OnRecived` is called with the sum of the
counts, and nothing is read later. -/
def Delivers (calls : List Call) : Prop :=
  (∃ n, .readv n ∈ calls) →
    ∃ (pre : List Call) (counts : List ℕ) (post : List Call),
      calls = pre ++ counts.map .readv ++ .onRecived (counts.sum : ℕ) :: post ∧
      (∀ n, .readv n ∉ pre ∧ .readv n ∉ post) ∧ .mark ∉ pre ∧ .onClose ∉ pre

/-- No read and no delivery among the calls. -/
def Quiet (calls : List Call) : Prop := ∀ c ∈ calls, (∀ n, c ≠ .readv n) ∧ ∀ z, c ≠ .onRecived z

/-- The call with which `readSize` bytes are delivered, if there is one. -/
def delivery (readSize : ℕ) : List Call :=
  if 0 < toInt32 readSize then [.onRecived (toInt32 readSize)] else []

/-- What follows the calls of `readv`, when `readSize` bytes were read. -/
def ReadExit.calls : ReadExit → ℕ → List Call
  | .full, _ => [.messageError .serverReadbufferFull]
  | .closed, _ => []
  | .wouldBlock, readSize => delivery readSize

/-- What the read loop adds to the calls, behind `readSize` bytes read before. -/
def readCalls (rounds : List ℕ × ReadExit) (readSize : ℕ) : List Call :=
  rounds.1.map .readv ++ rounds.2.calls (readSize + rounds.1.sum)

@[simp] lemma readCalls_nil (e : ReadExit) (readSize : ℕ) :
    readCalls ([], e) readSize = e.calls readSize := by
  simp [readCalls]

@[simp] lemma readCalls_cons (n : ℕ) (ns : List ℕ) (e : ReadExit) (readSize : ℕ) :
    readCalls (n :: ns, e) readSize = .readv n :: readCalls (ns, e) (readSize + n) := by
  simp [readCalls, Nat.add_assoc]

namespace StreamClass

variable {σ : Type} {c : StreamClass σ}

lemma calls_deliver (readSize : ℕ) (d : Dispatch σ) :
    (c.deliver readSize d).calls = d.calls ++ delivery readSize := by
  rw [deliver, delivery]
  split
  · rw [Dispatch.calls_call]
  · rw [List.append_nil]

lemma calls_readLoop (rets : List ReadvRet) (readSize : ℕ) (d : Dispatch σ) :
    (c.readLoop rets readSize d).2.calls
      = d.calls ++ readCalls (readRounds rets d.stream.readbuf) readSize := by
  induction rets generalizing readSize d with
  | nil =>
    rw [readLoop.eq_def, readRounds.eq_def]
    dsimp only
    cases d.stream.readbuf.getReciveBuffer with
    | none => simp [ReadExit.calls]
    | some iov => simp [ReadExit.calls, calls_deliver]
  | cons r rets ih =>
    rw [readLoop.eq_def, readRounds.eq_def]
    dsimp only
    cases d.stream.readbuf.getReciveBuffer with
    | none => simp [ReadExit.calls]
    | some iov =>
      cases r with
      | data bs ne =>
        dsimp only
        rw [ih, Dispatch.calls_call, readCalls_cons, List.append_assoc]
        rfl
      | again => simp [ReadExit.calls, calls_deliver]
      | eof => simp [ReadExit.calls]
      | error => simp [ReadExit.calls]

/-- The calls from `d` to `d'` neither read nor deliver. -/
def Adds (d d' : Dispatch σ) : Prop := ∃ cs, d'.calls = d.calls ++ cs ∧ Quiet cs

variable {d d' d'' : Dispatch σ}

lemma adds_of_eq (h : d'.calls = d.calls) : Adds d d' :=
  ⟨[], by rw [h, List.append_nil], by simp [Quiet]⟩

lemma Adds.trans (h : Adds d d') (h' : Adds d' d'') : Adds d d'' := by
  obtain ⟨cs, hcs, hq⟩ := h
  obtain ⟨cs', hcs', hq'⟩ := h'
  refine ⟨cs ++ cs', by rw [hcs', hcs, List.append_assoc], ?_⟩
  intro e he
  rcases List.mem_append.mp he with he | he
  · exact hq e he
  · exact hq' e he

lemma adds_call {e : Call} (f : World σ → World σ)
    (he : (∀ n, e ≠ .readv n) ∧ ∀ z, e ≠ .onRecived z) : Adds d (d.call e f) := by
  refine ⟨[e], rfl, ?_⟩
  intro e' he'
  rw [List.mem_singleton.mp he']
  exact he

lemma adds_writeLoop (rets : List WritevRet) (writeSize : ℕ) (d : Dispatch σ) :
    Adds d (writeLoop rets writeSize d).2.2 := by
  induction rets generalizing writeSize d with
  | nil =>
    rw [writeLoop.eq_def]
    dsimp only
    split <;> exact adds_of_eq rfl
  | cons r rets ih =>
    rw [writeLoop.eq_def]
    dsimp only
    split
    · exact adds_of_eq rfl
    · cases r with
      | sent count pos => exact (adds_call _ (by simp)).trans (ih _ _)
      | again => exact adds_of_eq rfl
      | error => exact adds_of_eq rfl

lemma adds_disableWrite (d : Dispatch σ) : Adds d (disableWrite d) := by
  rw [disableWrite]
  split <;> exact adds_of_eq rfl

variable (c) in
lemma adds_sended (writeSize : ℕ) (d : Dispatch σ) : Adds d (c.sended writeSize d) := by
  rw [sended]
  split
  · exact adds_call _ (by simp)
  · exact adds_of_eq rfl

lemma adds_onWriteable (writes : List WritevRet) (d : Dispatch σ) :
    Adds d (c.onWriteable writes d).2 := by
  have hhander : Adds (disableWrite d) ((disableWrite d).runHander c.handerWriteable) :=
    adds_of_eq rfl
  refine ((adds_disableWrite d).trans hhander).trans ?_
  rw [onWriteable]
  generalize (disableWrite d).runHander c.handerWriteable = e
  by_cases hempty : e.stream.writebuf.isEmpty
  · simp only [hempty, if_true]
    exact adds_of_eq rfl
  · simp only [hempty, if_false]
    have hloop := adds_writeLoop writes 0 e
    rcases hw : writeLoop writes 0 e with ⟨_ | _, writeSize, e'⟩
    · rw [hw] at hloop
      dsimp only at hloop ⊢
      exact (hloop.trans (adds_sended c _ _)).trans (adds_disableWrite _)
    · rw [hw] at hloop
      exact hloop

lemma adds_closeOrMark (d : Dispatch σ) : Adds d (c.closeOrMark d) := by
  rw [closeOrMark]
  split
  · exact adds_call _ (by simp)
  · exact adds_call _ (by simp)

lemma calls_connectFirst (k : Kernel) (mask : BitVec 32) (d : Dispatch σ) :
    (c.connectFirst k mask d).2.calls = d.calls := by
  have honConnect : ∀ names, (c.onConnect names d).2.calls = d.calls := by
    intro names
    rw [onConnect]
    split <;> rfl
  rw [connectFirst]
  split
  · dsimp only
    split
    · exact honConnect _
    · exact honConnect _
  · rfl

/-- The read buffer with which the loop of `OnReadable` starts: the handlers of the connect and
of `OnReadable` have run. -/
def readStart (c : StreamClass σ) (k : Kernel) (mask : BitVec 32) (w : World σ) : ReadBuffer :=
  ((c.connectFirst k mask ⟨w, []⟩).2.runHander c.handerReadable).stream.readbuf

variable (c) in
lemma adds_timeOuts (mask : BitVec 32) (d : Dispatch σ) : Adds d (c.timeOuts mask d) := by
  have hcall : ∀ (e : Call) (f : World σ → World σ) (flag : BitVec 32) (d : Dispatch σ),
      ((∀ n, e ≠ .readv n) ∧ ∀ z, e ≠ .onRecived z) →
        Adds d (if Has mask flag then (d.call e f).modify Stream.releaseRef else d) := by
    intro e f flag d he
    split
    · exact adds_call f he
    · exact adds_of_eq rfl
  exact (hcall _ _ _ _ (by simp)).trans (hcall _ _ _ _ (by simp))

/-- In an event with a READ the read loop comes first; what follows neither reads nor
delivers. -/
lemma calls_process {k : Kernel} {mask : BitVec 32} (hread : Has mask eventRead)
    (d : Dispatch σ) :
    ∃ cs, (c.process k mask d).calls = d.calls ++
      readCalls (readRounds k.reads (d.runHander c.handerReadable).stream.readbuf) 0 ++ cs ∧
        Quiet cs := by
  have hadds : Adds (c.onReadable k.reads d).2 (c.process k mask d) := by
    rw [process, if_pos hread]
    generalize c.onReadable k.reads d = r
    have hw :
        Adds r.2 (if Has mask eventWrite then c.onWriteable k.writes r.2 else (0, r.2)).2 := by
      split
      · exact adds_onWriteable _ _
      · exact adds_of_eq rfl
    refine hw.trans ?_
    generalize (if Has mask eventWrite then c.onWriteable k.writes r.2 else (0, r.2)) = w
    refine (adds_timeOuts c mask w.2).trans ?_
    split
    · exact adds_closeOrMark _
    · exact adds_of_eq rfl
  obtain ⟨cs, hcs, hq⟩ := hadds
  refine ⟨cs, ?_, hq⟩
  rw [hcs, onReadable, calls_readLoop, Dispatch.calls_runHander]

/-- What an event with a READ does on an open stream, when the connect does not fail. -/
lemma calls_onEvent (k : Kernel) (mask : BitVec 32) (w : World σ)
    (hopen : w.stream.isClosed = false) (hread : Has mask eventRead)
    (hclose : ¬ Has mask eventClose) (herr : ¬ Has mask eventErr)
    (hconnect : ¬ (c.connectFirst k mask ⟨w, []⟩).1 < 0) :
    ∃ cs, (c.onEvent k mask w).calls
      = readCalls (readRounds k.reads (c.readStart k mask w)) 0 ++ cs ∧ Quiet cs := by
  obtain ⟨cs, hcs, hq⟩ :=
    calls_process (c := c) (k := k) hread (c.connectFirst k mask ⟨w, []⟩).2
  refine ⟨cs, ?_, hq⟩
  rw [onEvent, if_neg (by simp [hopen]), if_neg hclose, if_neg herr, if_neg hconnect, hcs,
    calls_connectFirst]
  rfl

/-- A connect that fails closes the stream, and nothing is read. -/
lemma quiet_onEvent {k : Kernel} {mask : BitVec 32} {w : World σ}
    (hopen : w.stream.isClosed = false) (hclose : ¬ Has mask eventClose)
    (herr : ¬ Has mask eventErr) (hconnect : (c.connectFirst k mask ⟨w, []⟩).1 < 0) :
    Quiet (c.onEvent k mask w).calls := by
  rw [onEvent, if_neg (by simp [hopen]), if_neg hclose, if_neg herr, if_pos hconnect, onClose,
    Dispatch.calls_call, calls_connectFirst]
  simp [Quiet]

/-- The connect fails on a stream that is not connected when the socket has no names and
`OnConnect` says so. -/
lemma connectFirst_neg {k : Kernel} {mask : BitVec 32} (hread : Has mask eventRead)
    (d : Dispatch σ) : (c.connectFirst k mask d).1 < 0 ↔
      d.stream.isConnected = false ∧ k.names = false ∧ c.connectReturnsZero = false := by
  rw [connectFirst]
  by_cases hc : d.stream.isConnected = false
  · rw [if_pos ⟨hc, Or.inl hread⟩, onConnect]
    cases hn : k.names <;> cases hz : c.connectReturnsZero <;> simp [hc]
  · rw [if_neg (fun h => hc h.1)]
    simp [hc]

end StreamClass

/-! ## Delivery -/

lemma readRounds_pos (rets : List ReadvRet) (rb : ReadBuffer) :
    ∀ n ∈ (readRounds rets rb).1, 0 < n := by
  induction rets generalizing rb with
  | nil =>
    rw [readRounds.eq_def]
    dsimp only
    cases rb.getReciveBuffer <;> simp
  | cons r rets ih =>
    rw [readRounds.eq_def]
    dsimp only
    cases rb.getReciveBuffer with
    | none => simp
    | some iov =>
      cases r with
      | data bs ne =>
        intro n hn
        rcases List.mem_cons.mp hn with rfl | hn
        · exact List.length_pos_of_ne_nil ne
        · exact ih _ n hn
      | again => simp
      | eof => simp
      | error => simp

/-- A buffer whose read position is at the start of a piece is never full. -/
lemma exists_getReciveBuffer {rb : ReadBuffer} (hr : rb.readpos.pos = 0) :
    ∃ iov, rb.toIOBuffer.getReciveBuffer = some iov := by
  rw [← Option.ne_none_iff_exists', Ne, IOBuffer.getReciveBuffer_eq_none]
  rintro ⟨-, hpos⟩
  omega

lemma readRounds_data_eof {rb : ReadBuffer} (hr : rb.readpos.pos = 0) {bs : Bytes}
    (ne : bs ≠ []) : readRounds [.data bs ne, .eof] rb = ([bs.length], .closed) := by
  obtain ⟨iov, hiov⟩ := exists_getReciveBuffer hr
  obtain ⟨iov', hiov'⟩ := exists_getReciveBuffer (show (rb.recive bs).readpos.pos = 0 from hr)
  simp only [readRounds, hiov, hiov']

/-- The counts of the calls of `readv`. -/
def readCounts (calls : List Call) : List ℕ :=
  calls.filterMap fun | .readv n => some n | _ => none

lemma readCounts_map (counts : List ℕ) : readCounts (counts.map .readv) = counts := by
  induction counts with
  | nil => rfl
  | cons n counts ih => exact congrArg (n :: ·) ih

lemma readCounts_append (calls calls' : List Call) :
    readCounts (calls ++ calls') = readCounts calls ++ readCounts calls' :=
  List.filterMap_append

lemma readCounts_eq_nil {calls : List Call} (h : ∀ n, .readv n ∉ calls) :
    readCounts calls = [] := by
  rw [readCounts, List.filterMap_eq_nil_iff]
  intro e he
  cases e with
  | readv n => exact absurd he (h n)
  | _ => rfl

lemma Quiet.readv_notMem {calls : List Call} (h : Quiet calls) (n : ℕ) : .readv n ∉ calls :=
  fun hn => (h _ hn).1 n rfl

lemma Quiet.onRecived_notMem {calls : List Call} (h : Quiet calls) (z : ℤ) :
    .onRecived z ∉ calls :=
  fun hz => (h _ hz).2 z rfl

lemma ReadExit.readv_notMem (e : ReadExit) (readSize n : ℕ) : .readv n ∉ e.calls readSize := by
  cases e with
  | full => simp [calls]
  | closed => simp [calls]
  | wouldBlock =>
    rw [calls, delivery]
    split <;> simp

/-- The bytes are handed over only behind a read that would block, as an `int`. -/
lemma ReadExit.onRecived_mem {e : ReadExit} {readSize : ℕ} {z : ℤ}
    (h : .onRecived z ∈ e.calls readSize) : e = .wouldBlock ∧ z = toInt32 readSize := by
  cases e with
  | full => simp [calls] at h
  | closed => simp [calls] at h
  | wouldBlock =>
    rw [calls, delivery] at h
    split at h
    · exact ⟨rfl, by simpa using h⟩
    · simp at h

lemma toInt32_lt (z : ℤ) : toInt32 z < 2 ^ 31 := by
  rw [toInt32]
  omega

lemma toInt32_natCast {n : ℕ} (h : n < 2 ^ 31) : toInt32 n = n := by
  rw [toInt32]
  omega

/-- When the read loop comes first and the rest is quiet, the bytes are delivered exactly
when there are none, or the last read would block and the counts add up in an `int`. -/
lemma delivers_readCalls {rounds : List ℕ × ReadExit} {cs : List Call}
    (hpos : ∀ n ∈ rounds.1, 0 < n) (hq : Quiet cs) :
    Delivers (readCalls rounds 0 ++ cs) ↔
      rounds.1 = [] ∨ rounds.2 = .wouldBlock ∧ rounds.1.sum < 2 ^ 31 := by
  obtain ⟨counts, e⟩ := rounds
  have htail := ReadExit.readv_notMem e (0 + counts.sum)
  rw [Delivers, readCalls]
  dsimp only at *
  rcases counts with _ | ⟨n, ns⟩
  · simp only [List.map_nil, List.nil_append, List.mem_append, true_or, iff_true]
    rintro ⟨n, hn | hn⟩
    · exact absurd hn (htail n)
    · exact absurd hn (hq.readv_notMem n)
  generalize hcounts : n :: ns = counts at *
  have hne : counts ≠ [] := by rw [← hcounts]; exact List.cons_ne_nil _ _
  constructor
  · intro h
    obtain ⟨pre, counts', post, heq, hnone, -⟩ :=
      h ⟨n, by simp [← hcounts]⟩
    -- the counts of the delivery are all counts
    have hsame : counts' = counts := by
      have hread := congrArg readCounts heq
      have hpost : ∀ m, .readv m ∉ Call.onRecived (counts'.sum : ℕ) :: post := by
        simp [fun m => (hnone m).2]
      simp only [readCounts_append, readCounts_map, readCounts_eq_nil htail,
        readCounts_eq_nil hq.readv_notMem, readCounts_eq_nil fun m => (hnone m).1,
        readCounts_eq_nil hpost, List.append_nil, List.nil_append] at hread
      exact hread.symm
    subst hsame
    have hmem : .onRecived (counts'.sum : ℤ) ∈
        counts'.map Call.readv ++ e.calls (0 + counts'.sum) ++ cs := by
      rw [heq]
      simp
    simp only [List.mem_append, List.mem_map, reduceCtorEq, and_false, exists_false,
      false_or] at hmem
    rcases hmem with hmem | hmem
    · obtain ⟨he, hsum⟩ := ReadExit.onRecived_mem hmem
      have hlt := toInt32_lt ((0 + counts'.sum : ℕ) : ℤ)
      exact Or.inr ⟨he, by omega⟩
    · exact absurd hmem (hq.onRecived_notMem _)
  · rintro (h | ⟨rfl, hsum⟩)
    · exact absurd h hne
    · intro _
      refine ⟨[], counts, cs, ?_, fun m => ⟨List.not_mem_nil, hq.readv_notMem m⟩,
        List.not_mem_nil, List.not_mem_nil⟩
      have hsumpos : 0 < counts.sum := by
        rw [← hcounts, List.sum_cons]
        have := hpos n (by simp [← hcounts])
        omega
      rw [ReadExit.calls, delivery, Nat.zero_add, toInt32_natCast hsum, if_pos (by omega)]
      simp

/-- In an event with a READ, what was read is delivered exactly when the connect failed,
nothing was read, or the reads ended because the last would block, with less than `2 ^ 31`
bytes. -/
theorem onEvent_delivers_iff {σ : Type} (c : StreamClass σ) (k : Kernel) (mask : BitVec 32)
    (w : World σ) (hopen : w.stream.isClosed = false) (hread : Has mask eventRead)
    (hclose : ¬ Has mask eventClose) (herr : ¬ Has mask eventErr) :
    Delivers (c.onEvent k mask w).calls ↔
      (w.stream.isConnected = false ∧ k.names = false ∧ c.connectReturnsZero = false) ∨
      (readRounds k.reads (c.readStart k mask w)).1 = [] ∨
      (readRounds k.reads (c.readStart k mask w)).2 = .wouldBlock ∧
        (readRounds k.reads (c.readStart k mask w)).1.sum < 2 ^ 31 := by
  have hneg := StreamClass.connectFirst_neg (c := c) (k := k) hread ⟨w, []⟩
  by_cases hconnect : (c.connectFirst k mask ⟨w, []⟩).1 < 0
  · have hq := StreamClass.quiet_onEvent hopen hclose herr hconnect
    exact iff_of_true (fun ⟨n, hn⟩ => absurd hn (hq.readv_notMem n)) (Or.inl (hneg.mp hconnect))
  · obtain ⟨cs, hcs, hq⟩ := StreamClass.calls_onEvent k mask w hopen hread hclose herr hconnect
    rw [hcs, delivers_readCalls (readRounds_pos _ _) hq]
    exact ⟨Or.inr, fun h => h.resolve_left fun hc => hconnect (hneg.mpr hc)⟩

/-- The functions of `SocketStream` itself, without handlers. -/
def bareClass : StreamClass Unit where
  handerConnected := none
  handerReadable := none
  handerWriteable := none
  handerClose := none
  handerReadTimeOut := none
  handerWriteTimeOut := none
  handerMessageError := fun _ w => w
  onRecived := fun _ w => w
  onSended := fun _ w => w
  afterConnect := id
  connectReturnsZero := false
  afterClose := id

/-- A connected stream with nothing in its buffers. -/
def bareWorld : World Unit := ⟨{ Stream.init with isConnected := true }, ()⟩

/-- One byte is read, and then the results `rets`. -/
def oneByteThen (rets : List ReadvRet) : Kernel := ⟨true, .data [71] (by simp) :: rets, []⟩

/-- A byte that arrives together with the end of the stream is not delivered. -/
theorem onEvent_not_delivers :
    ¬ ∀ (σ : Type) (c : StreamClass σ) (k : Kernel) (mask : BitVec 32) (w : World σ),
      w.stream.isClosed = false → Has mask eventRead → ¬ Has mask eventClose →
        ¬ Has mask eventErr → Delivers (c.onEvent k mask w).calls := by
  intro h
  have hconnect : ¬ (bareClass.connectFirst (oneByteThen [.eof]) eventRead ⟨bareWorld, []⟩).1
      < 0 := by
    rw [StreamClass.connectFirst_neg (by decide)]
    simp [bareWorld]
  obtain ⟨cs, hcs, hq⟩ := StreamClass.calls_onEvent (oneByteThen [.eof]) eventRead bareWorld rfl
    (by decide) (by decide) (by decide) hconnect
  have hrounds : readRounds (oneByteThen [.eof]).reads
      (bareClass.readStart (oneByteThen [.eof]) eventRead bareWorld) = ([1], .closed) :=
    readRounds_data_eof rfl _
  have hdeliver := h Unit bareClass (oneByteThen [.eof]) eventRead bareWorld rfl (by decide)
    (by decide) (by decide)
  rw [hcs, hrounds, delivers_readCalls (by simp) hq] at hdeliver
  simp at hdeliver

/-- The byte without the end of the stream. -/
theorem onEvent_delivers_oneByte :
    Delivers (bareClass.onEvent (oneByteThen []) eventRead bareWorld).calls ↔
      (bareWorld.stream.isConnected = false ∧ (oneByteThen []).names = false ∧
        bareClass.connectReturnsZero = false) ∨
      (readRounds (oneByteThen []).reads
        (bareClass.readStart (oneByteThen []) eventRead bareWorld)).1 = [] ∨
      (readRounds (oneByteThen []).reads
        (bareClass.readStart (oneByteThen []) eventRead bareWorld)).2 = .wouldBlock ∧
        (readRounds (oneByteThen []).reads
          (bareClass.readStart (oneByteThen []) eventRead bareWorld)).1.sum < 2 ^ 31 :=
  onEvent_delivers_iff bareClass (oneByteThen []) eventRead bareWorld rfl (by decide)
    (by decide) (by decide)

end MTRpc
