import MTRpc.Rpc.OneInFlight
import MTRpc.Rpc.Wiring

/-!
# `OnEvent` in operations

The threads of a client share two things with the `OnEvent` of a stream: the queue `sendcall` and
the tasks of the poller.  For what happens between its accesses to them, `OnEvent` is divided into
operations (`EventOp`), each with one access at most.  `perform` does the first of the operations
that are left, with the statements of `SocketStream`, `ConnectStream` and `RpcChannelImpl`.
-/

namespace MTRpc

/-- An operation of a running `OnEvent`. -/
inductive EventOp
  /-- `OnConnect`, which sets `_isConnected`. -/
  | connect
  /-- `OnReadable` and the parser in `OnRecived`, up to the next response. -/
  | read
  /-- `OnMessageRecived` up to its look at `sendcall`. -/
  | recived
  /-- That look, and the pop. -/
  | lookNext
  /-- The end of a round of `OnRecived`. -/
  | packetDone
  /-- `SocketStream::OnWriteable` up to the handler. -/
  | writeable
  /-- `RpcChannelImpl::OnWriteable`: its look at `sendcall`, and the pop. -/
  | look
  /-- `SendToServer`; `next` says that it is called by `OnMessageRecived`. -/
  | send (id : ℕ) (next : Bool)
  /-- `waitcall.push`; `OnMessageRecived` sets the write time-out before. -/
  | pushWait (id : ℕ) (next : Bool)
  /-- Return when there is nothing to send. -/
  | testEmpty
  /-- A round of the write loop, after `writeSize` bytes. -/
  | write (writeSize : ℕ)
  /-- `OnSended` -/
  | sended (writeSize : ℕ)
  /-- The last test of `SocketStream::OnWriteable`. -/
  | disableLast
deriving DecidableEq, Repr

/-- What an operation finds outside. -/
structure OpInput (Req : Type) where
  env : ChannelEnv Req
  /-- What the parser leaves, and whether a response is complete. -/
  readbuf : ReadBuffer
  resheader : HttpReponseHeader
  complete : Bool
  /-- What `writev` writes; 0 when it would block. -/
  written : ℕ

section

variable {Req : Type}

/-- The push of `CallMethod`. -/
def pushCall (controller : RpcClientController Req) (method : Bytes) (request : Req) (done : Bool)
    (w : ChannelWorld Req) : ChannelWorld Req :=
  w.modifyOwner fun s =>
    let id := s.next
    let s := s.newCntl { controller with method := method, request := request, done := done }
    { s with sendcall := s.sendcall ++ [id], log := s.log ++ [.accept id] }

/-- `ModEventAsync(_poller, true, writeable)` -/
def postModEvent (writeable : Bool) (w : ChannelWorld Req) : ChannelWorld Req :=
  w.modifyStream (·.modEventAsync true writeable)

/-- The first of the operations that are left: those that are left then, and the world. -/
def perform (io : OpInput Req) : List EventOp → ChannelWorld Req → List EventOp × ChannelWorld Req
  | [], w => ([], w)
  | .connect :: rest, w => (rest, w.modifyStream fun s => { s with isConnected := true })
  | .read :: rest, w =>
      let w := (w.modifyStream fun s => { s with readbuf := io.readbuf }).modifyRes
        fun _ => io.resheader
      (if io.complete then .recived :: .packetDone :: .read :: rest else rest, w)
  | .recived :: rest, w =>
      let w := w.modifyStream (·.delReadTimeOutAsync)
      match w.owner.donecall with
      | [] => (rest, w)
      | id :: ids =>
          let w := w.modifyOwner fun s => { s with donecall := ids }
          match RpcChannelImpl.parseResponse io.env w with
          | (false, w) =>
              (rest, RpcChannelImpl.sendError .serverReqParserFailed id (w.modifyRes (·.reset)))
          | (true, w) =>
              let w := if (w.owner.cntl id).done then w.modifyOwner (·.runDone id) else w
              let w := w.modifyOwner (·.setStatus w.resheader.status id)
              (.lookNext :: rest, w.modifyRes (·.reset))
  | .lookNext :: rest, w =>
      match w.owner.sendcall with
      | [] => (rest, w)
      | id :: ids => (.send id true :: rest, w.modifyOwner fun s => { s with sendcall := ids })
  | .packetDone :: rest, w =>
      (rest, (w.modifyStream fun s => { s with readbuf := s.readbuf.reset }).modifyRes (·.reset))
  | .writeable :: rest, w =>
      (.look :: .testEmpty :: rest,
        if w.stream.writebuf.isEmpty then postModEvent false w else w)
  | .look :: rest, w =>
      match w.owner.sendcall with
      | [] => (rest, w)
      | id :: ids =>
          if w.owner.waitcall = [] ∧ w.owner.donecall = [] then
            (.send id false :: rest, w.modifyOwner fun s => { s with sendcall := ids })
          else (rest, w)
  | .send id next :: rest, w =>
      (.pushWait id next :: rest, RpcChannelImpl.sendToServer io.env id w)
  | .pushWait id next :: rest, w =>
      let w := if next then
        w.modifyStream (·.setWriteTimeOutAsync w.owner.options.writeTimeoutSec) else w
      (rest, w.modifyOwner fun s => { s with waitcall := s.waitcall ++ [id] })
  | .testEmpty :: rest, w => (if w.stream.writebuf.isEmpty then rest else .write 0 :: rest, w)
  | .write writeSize :: rest, w =>
      match w.stream.writebuf.getSendBuffer with
      | none => (.sended writeSize :: rest, w)
      | some _ =>
          if io.written = 0 then (.sended writeSize :: rest, w)
          else (.write (writeSize + io.written) :: rest,
            w.modifyBuf (·.moveSendPtr io.written))
  | .sended writeSize :: rest, w =>
      (.disableLast :: rest,
        if 0 < toInt32 writeSize then RpcChannelImpl.onMessageSended (toInt32 writeSize) w else w)
  | .disableLast :: rest, w =>
      (rest, if w.stream.writebuf.isEmpty then postModEvent false w else w)

/-- What an event with these bits does: `OnEvent` of a stream that is open, when there is no
error. -/
def eventOps (read write : Bool) : List EventOp :=
  .connect :: (if read then [.read] else []) ++ if write then [.writeable] else []

/-! ### What is ahead -/

/-- `OnWriteable` is past its look, and has the last test ahead. -/
def LastAhead : List EventOp → Prop
  | .write _ :: _ | .sended _ :: _ | .disableLast :: _ => True
  | _ => False

/-- A call has been popped and is not yet in `waitcall`. -/
def InHand : List EventOp → Prop
  | .send _ _ :: _ | .pushWait _ _ :: _ => True
  | _ => False

/-- There will be a look at `sendcall`. -/
def LooksAhead (todo : List EventOp) : Prop :=
  .writeable ∈ todo ∨ .look ∈ todo ∨ .lookNext ∈ todo

/-- The first two depend on the first operation only. -/
lemma lastAhead_cons (op : EventOp) (rest : List EventOp) :
    LastAhead (op :: rest) ↔ LastAhead [op] := by
  cases op <;> rfl

lemma inHand_cons (op : EventOp) (rest : List EventOp) : InHand (op :: rest) ↔ InHand [op] := by
  cases op <;> rfl

/-- What can stand behind the operation that is next: the rest of the reading, and one of
`OnWriteable`, which comes last. -/
def CanFollow : List EventOp → Prop
  | [] | [.writeable] | [.testEmpty] => True
  | .read :: rest | .packetDone :: rest => CanFollow rest
  | _ => False

/-- The operations that come last. -/
def EventOp.IsLast : EventOp → Prop
  | .writeable | .testEmpty | .write _ | .sended _ | .disableLast => True
  | _ => False

/-- The operations that are left of an event. -/
def Shaped : List EventOp → Prop
  | [] => True
  | op :: rest => (op.IsLast → rest = []) ∧ CanFollow rest

lemma CanFollow.shaped {todo : List EventOp} (h : CanFollow todo) :
    Shaped todo ∧ ¬ LastAhead todo ∧ ¬ InHand todo := by
  rcases todo with _ | ⟨op, rest⟩
  · exact ⟨trivial, id, id⟩
  cases op with
  | read => exact ⟨⟨False.elim, h⟩, id, id⟩
  | packetDone => exact ⟨⟨False.elim, h⟩, id, id⟩
  | writeable =>
    cases rest with
    | nil => exact ⟨⟨fun _ => rfl, trivial⟩, id, id⟩
    | cons _ _ => exact h.elim
  | testEmpty =>
    cases rest with
    | nil => exact ⟨⟨fun _ => rfl, trivial⟩, id, id⟩
    | cons _ _ => exact h.elim
  | _ => exact h.elim

lemma shaped_eventOps (read write : Bool) : Shaped (eventOps read write) := by
  cases read <;> cases write <;> exact ⟨False.elim, trivial⟩

lemma shaped_perform (io : OpInput Req) {todo : List EventOp} (h : Shaped todo)
    (w : ChannelWorld Req) : Shaped (perform io todo w).1 := by
  rcases todo with _ | ⟨op, rest⟩
  · trivial
  obtain ⟨hlast, hfollow⟩ := h
  have hrest := hfollow.shaped.1
  cases op with
  | connect => exact hrest
  | read =>
    rw [perform]
    dsimp only
    split
    · exact ⟨False.elim, hfollow⟩
    · exact hrest
  | recived =>
    rw [perform]
    dsimp only
    split
    · exact hrest
    · split
      · exact hrest
      · exact ⟨False.elim, hfollow⟩
  | lookNext =>
    rw [perform]
    split
    · exact hrest
    · exact ⟨False.elim, hfollow⟩
  | packetDone => exact hrest
  | writeable =>
    obtain rfl := hlast trivial
    exact ⟨False.elim, trivial⟩
  | look =>
    rw [perform]
    split
    · exact hrest
    · split
      · exact ⟨False.elim, hfollow⟩
      · exact hrest
  | send id next => exact ⟨False.elim, hfollow⟩
  | pushWait id next => exact hrest
  | testEmpty =>
    rw [perform]
    split
    · exact hrest
    · exact ⟨fun _ => hlast trivial, hfollow⟩
  | write writeSize =>
    rw [perform]
    split
    · exact ⟨fun _ => hlast trivial, hfollow⟩
    · split <;> exact ⟨fun _ => hlast trivial, hfollow⟩
  | sended writeSize => exact ⟨fun _ => hlast trivial, hfollow⟩
  | disableLast => exact hrest

end

end MTRpc
