import MTRpc.Rpc.StreamCounts

/-!
# A socket that cannot be written to

When a `writev` fails for good, `OnWriteable` returns -1 and `OnEvent` asks for a close.  The close
comes at once only when nothing is left to send, though: otherwise the stream is marked and write
is enabled, to close when the buffer is empty.  That is right for a peer that has stopped to send,
but what could not be written is still in the buffer then, and nothing takes it out.

`onEvent_writeFails_iff` says when the event closes the stream all the same.
-/

namespace MTRpc

namespace StreamClass

variable {σ : Type} (c : StreamClass σ) (k : Kernel) (mask : BitVec 32) (w : World σ)

/-- The stream of a WRITE when `OnWriteable` is called. -/
def beforeWrite : Dispatch σ :=
  let d := (c.connectFirst k mask ⟨w, []⟩).2
  if Has mask eventRead then (c.onReadable k.reads d).2 else d

/-- When the loop of `OnWriteable` starts. -/
def writeStart : Dispatch σ := (disableWrite (c.beforeWrite k mask w)).runHander c.handerWriteable

/-- A `writev` of `OnWriteable` returns 0, or fails for good. -/
def WriteFails : Prop :=
  ¬ (c.writeStart k mask w).stream.writebuf.isEmpty ∧
    (writeLoop k.writes 0 (c.writeStart k mask w)).1 = true

/-- When that `writev` has returned. -/
def writeFailed : Dispatch σ := (writeLoop k.writes 0 (c.writeStart k mask w)).2.2

/-- When the time-outs of the event have run. -/
def afterTimeOuts : Dispatch σ := c.timeOuts mask (c.writeFailed k mask w)

/-- The stream is closed: the event ends with `OnClose`, which runs `handerClose` and posts
`DelEvent` on an open stream, or the stream has been closed before. -/
def Closes (d : Dispatch σ) : Prop := (∃ d', d = c.onClose d') ∨ d.stream.isClosed = true

/-- The stream is left open with something to send, to close when nothing is left. -/
structure LeftOpen (d : Dispatch σ) : Prop where
  isOpen : d.stream.isClosed = false
  marked : d.stream.closeWhenEmpty = true
  unsent : ¬ d.stream.writebuf.isEmpty

/-- A handler of the event has closed the stream, or the time-outs have emptied the buffer. -/
def HandersClose : Prop :=
  (c.afterTimeOuts k mask w).stream.writebuf.isEmpty ∨
    (c.afterTimeOuts k mask w).stream.isClosed = true

variable {c k mask w}

/-- There is something to send when a `writev` is made. -/
lemma not_isEmpty_of_fails {rets : List WritevRet} {n : ℕ} {d : Dispatch σ}
    (hfail : (writeLoop rets n d).1 = true) :
    ¬ (writeLoop rets n d).2.2.stream.writebuf.isEmpty := by
  induction rets generalizing n d with
  | nil =>
    rw [writeLoop.eq_def] at hfail
    dsimp only at hfail
    split at hfail <;> exact absurd hfail Bool.noConfusion
  | cons r rets ih =>
    rw [writeLoop.eq_def] at hfail ⊢
    dsimp only at hfail ⊢
    cases hiov : d.stream.writebuf.getSendBuffer with
    | none =>
      rw [hiov] at hfail
      exact absurd hfail Bool.noConfusion
    | some iov =>
      rw [hiov] at hfail
      cases r with
      | sent count hpos => exact ih hfail
      | again => exact absurd hfail Bool.noConfusion
      | error =>
        -- an empty buffer has no segments
        intro hempty
        have hnone : d.stream.writebuf.getSendBuffer = none := if_pos (Eq.symm hempty)
        exact absurd (hnone.symm.trans hiov) (Option.some_ne_none iov).symm

/-- An event in which a write fails ends with the close or the mark. -/
lemma onEvent_eq_closeOrMark (hopen : w.stream.isClosed = false)
    (hconnected : w.stream.isConnected = true) (hwrite : Has mask eventWrite)
    (hclose : ¬ Has mask eventClose) (herr : ¬ Has mask eventErr) (hfail : c.WriteFails k mask w) :
    c.onEvent k mask w = c.closeOrMark (c.afterTimeOuts k mask w) := by
  have hearly : ¬ c.ReturnsEarly k mask w := by
    rintro (h | h | h | h)
    · exact absurd (hopen.symm.trans h) Bool.noConfusion
    · exact hclose h
    · exact herr h
    · exact absurd (hconnected.symm.trans h.1) Bool.noConfusion
  obtain ⟨hne, hloop⟩ := hfail
  have hret : c.onWriteable k.writes (c.beforeWrite k mask w) = (-1, c.writeFailed k mask w) := by
    rw [onWriteable]
    rw [if_neg (show ¬ ((disableWrite (c.beforeWrite k mask w)).runHander
      c.handerWriteable).stream.writebuf.isEmpty from hne), writeFailed]
    rw [writeStart] at hloop ⊢
    rcases heq : writeLoop k.writes 0 ((disableWrite (c.beforeWrite k mask w)).runHander
      c.handerWriteable) with ⟨failed, n, d⟩
    rw [heq] at hloop
    obtain rfl : failed = true := hloop
    rfl
  have hread : (if Has mask eventRead then c.onReadable k.reads (c.connectFirst k mask ⟨w, []⟩).2
      else (0, (c.connectFirst k mask ⟨w, []⟩).2)).2 = c.beforeWrite k mask w := by
    rw [beforeWrite]
    split <;> rfl
  rw [onEvent_eq_process hearly, process, if_pos hwrite, hread, hret]
  exact if_pos (Or.inr (Or.inl (show (-1 : ℤ) ≠ 0 by decide)))

/-- The time-outs leave the write buffer alone. -/
structure KeepsUnsent (c : StreamClass σ) : Prop where
  readTimeOut : ∀ f ∈ c.handerReadTimeOut, ∀ w : World σ,
    (f w).stream.writebuf = w.stream.writebuf
  writeTimeOut : ∀ f ∈ c.handerWriteTimeOut, ∀ w : World σ,
    (f w).stream.writebuf = w.stream.writebuf

lemma KeepsUnsent.timeOuts (hc : c.KeepsUnsent) (mask : BitVec 32) (d : Dispatch σ) :
    (c.timeOuts mask d).stream.writebuf = d.stream.writebuf :=
  keeps_timeOuts (P := fun w => w.stream.writebuf = d.stream.writebuf) (fun _ hw => hw)
    (fun f hf w hw => (hc.readTimeOut f hf w).trans hw)
    (fun f hf w hw => (hc.writeTimeOut f hf w).trans hw) mask rfl

/-- No handler closes a stream by itself. -/
lemma Counts.keepsParts_isOpen (hc : c.Counts) :
    c.KeepsParts fun w => w.stream.isClosed = false where
  change w s hs hw := by
    cases hs <;> exact hw
  connected f hf w hw := (hc.connected f hf w).1.trans hw
  writeable f hf w hw := (hc.writeable f hf w).1.trans hw
  sended n w hw := (hc.sended n w).1.trans hw
  afterConnect w hw := (hc.afterConnect w).1.trans hw

lemma Counts.isOpen_afterTimeOuts (hc : c.Counts) (hopen : w.stream.isClosed = false) :
    (c.afterTimeOuts k mask w).stream.isClosed = false := by
  have hparts := hc.keepsParts_isOpen
  have hconnect := hparts.connectFirst k mask (d := ⟨w, []⟩) hopen
  have hbefore : (c.beforeWrite k mask w).stream.isClosed = false := by
    rw [beforeWrite]
    split
    · exact hparts.onReadable (fun f hf w hw => (hc.readable f hf w).1.trans hw)
        (fun code w hw => (hc.messageError code w).1.trans hw)
        (fun n w hw => (hc.recived n w).1.trans hw) k.reads hconnect
    · exact hconnect
  have hstart : (c.writeStart k mask w).stream.isClosed = false :=
    keeps_getD hparts.writeable (hparts.disableWrite hbefore)
  exact keeps_timeOuts (P := fun w => w.stream.isClosed = false) (fun _ hw => hw)
    (fun f hf w hw => (hc.readTimeOut f hf w).1.trans hw)
    (fun f hf w hw => (hc.writeTimeOut f hf w).1.trans hw) mask
    (hparts.writeLoop k.writes 0 hstart)

/-- With such handlers the event leaves the stream open, to wait for a buffer that nothing takes
out. -/
lemma leftOpen_of_writeFails (hc : c.Counts) (hkeep : c.KeepsUnsent)
    (hopen : w.stream.isClosed = false) (hconnected : w.stream.isConnected = true)
    (hwrite : Has mask eventWrite) (hclose : ¬ Has mask eventClose) (herr : ¬ Has mask eventErr)
    (hfail : c.WriteFails k mask w) : LeftOpen (c.onEvent k mask w) := by
  have hne : ¬ (c.afterTimeOuts k mask w).stream.writebuf.isEmpty := by
    rw [afterTimeOuts, hkeep.timeOuts]
    exact not_isEmpty_of_fails hfail.2
  rw [onEvent_eq_closeOrMark hopen hconnected hwrite hclose herr hfail, closeOrMark, if_neg hne]
  exact ⟨hc.isOpen_afterTimeOuts hopen, rfl, hne⟩

end StreamClass

/-- **A failed write.**  When a `writev` fails for good on a stream that is open and connected, the
stream is closed at the end of the event exactly when the handlers have seen to it. -/
theorem onEvent_writeFails_iff {σ : Type} (c : StreamClass σ) (k : Kernel) (mask : BitVec 32)
    (w : World σ) (hopen : w.stream.isClosed = false) (hconnected : w.stream.isConnected = true)
    (hwrite : Has mask eventWrite) (hclose : ¬ Has mask eventClose) (herr : ¬ Has mask eventErr)
    (hfail : c.WriteFails k mask w) :
    c.Closes (c.onEvent k mask w) ↔ c.HandersClose k mask w := by
  rw [StreamClass.onEvent_eq_closeOrMark hopen hconnected hwrite hclose herr hfail,
    StreamClass.HandersClose, StreamClass.closeOrMark]
  generalize c.afterTimeOuts k mask w = d
  by_cases hempty : d.stream.writebuf.isEmpty
  · rw [if_pos hempty]
    exact iff_of_true (Or.inl ⟨d, rfl⟩) (Or.inl hempty)
  · rw [if_neg hempty]
    constructor
    · rintro (⟨d', heq⟩ | h)
      · -- the last call tells the mark from the close
        have hlast := congrArg (fun d => d.calls.getLast?) heq
        simp [StreamClass.onClose] at hlast
      · exact Or.inr h
    · rintro (h | h)
      · exact absurd h hempty
      · exact Or.inr h

/-! ## The two kinds of streams -/

/-- The stream of a server with a response that cannot be sent is left open. -/
theorem ServerConnect.leftOpen_of_writeFails {Req Res : Type} (env : ServerEnv Req Res) {k : Kernel}
    {mask : BitVec 32} {w : World (MessageStream (Checked (ServerConnect Req Res)))}
    (hopen : w.stream.isClosed = false) (hconnected : w.stream.isConnected = true)
    (hwrite : Has mask eventWrite) (hclose : ¬ Has mask eventClose) (herr : ¬ Has mask eventErr)
    (hfail : (ServerConnect.stream env).WriteFails k mask w) :
    StreamClass.LeftOpen ((ServerConnect.stream env).onEvent k mask w) :=
  StreamClass.leftOpen_of_writeFails (counts_start env).messageStream
    ⟨fun _ hf => absurd hf (by simp [stream, start, Handers.messageStream, Handers.init]),
      fun _ hf => absurd hf (by simp [stream, start, Handers.messageStream, Handers.init])⟩
    hopen hconnected hwrite hclose herr hfail

/-- The stream of a channel with a request that cannot be sent is left open, also when a time-out
is due. -/
theorem RpcChannelImpl.leftOpen_of_writeFails {Req : Type} (env : ChannelEnv Req) {k : Kernel}
    {mask : BitVec 32} {w : World (MessageStream (Checked (RpcChannelImpl Req)))}
    (hopen : w.stream.isClosed = false) (hconnected : w.stream.isConnected = true)
    (hwrite : Has mask eventWrite) (hclose : ¬ Has mask eventClose) (herr : ¬ Has mask eventErr)
    (hfail : (RpcChannelImpl.stream env).WriteFails k mask w) :
    StreamClass.LeftOpen ((RpcChannelImpl.stream env).onEvent k mask w) := by
  refine StreamClass.leftOpen_of_writeFails (counts_connect env).connectStream ⟨?_, ?_⟩ hopen
    hconnected hwrite hclose herr hfail
  · intro f hf w
    obtain rfl := Option.mem_some_iff.mp hf
    rfl
  · intro f hf w
    obtain rfl := Option.mem_some_iff.mp hf
    rfl

/-! ## A reset -/

/-- A connected stream with one byte to send. -/
def oneUnsent : World Unit :=
  ⟨{ Stream.init with
      isConnected := true
      writebuf := { WriteBuffer.init with writepos := ⟨0, 1⟩ } }, ()⟩

/-- The peer has reset the connection: `writev` fails. -/
def writeReset : Kernel := ⟨true, [], [.error]⟩

lemma writeFails_oneUnsent : bareClass.WriteFails writeReset eventWrite oneUnsent := by
  refine ⟨?_, ?_⟩
  · decide
  · decide

/-- The event leaves that stream open. -/
theorem onEvent_not_closed :
    ¬ ∀ (σ : Type) (c : StreamClass σ) (k : Kernel) (mask : BitVec 32) (w : World σ),
      w.stream.isClosed = false → w.stream.isConnected = true → Has mask eventWrite →
        ¬ Has mask eventClose → ¬ Has mask eventErr → c.WriteFails k mask w →
          c.Closes (c.onEvent k mask w) := by
  intro hall
  rcases hall Unit bareClass writeReset eventWrite oneUnsent rfl rfl (by decide) (by decide)
    (by decide) writeFails_oneUnsent with ⟨d, hd⟩ | hclosed
  · have hlast := congrArg (fun d => d.calls.getLast?) hd
    have hmark : (bareClass.onEvent writeReset eventWrite oneUnsent).calls = [.mark] := by decide
    simp [StreamClass.onClose, hmark] at hlast
  · exact absurd hclosed (by decide)

/-- The byte that cannot be written, and no time-out. -/
theorem onEvent_writeFails_oneUnsent :
    bareClass.Closes (bareClass.onEvent writeReset eventWrite oneUnsent) ↔
      bareClass.HandersClose writeReset eventWrite oneUnsent :=
  onEvent_writeFails_iff bareClass writeReset eventWrite oneUnsent rfl rfl (by decide) (by decide)
    (by decide) writeFails_oneUnsent

end MTRpc
