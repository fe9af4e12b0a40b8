import MTRpc.Lib.Exec
import MTRpc.Mio.MessageStream

/-!
# The client side of a connection

`RpcChannelImpl` takes calls (`CallMethod`) into `sendcall`, serialises one at a time into the
write buffer of its stream (`SendToServer`), keeps it in `waitcall` until all of its packet is
sent and in `donecall` until the response arrives.  A call is finished when the status of its
controller is set; its `done` closure tells the client.

protobuf is not part of the source (`ChannelEnv`).  Calls are named by numbers, in the order in
which they are made; a controller that is used again for another call has another number then,
and comes with the fields that the last call left.
What a `done` closure does is not modelled: when it makes a call, that is a later step.
-/

namespace MTRpc

/-- `RpcClientController`, with the fields that the channel uses; the defaults are those of its
constructor. -/
structure RpcClientController (Req : Type) where
  seq : ℕ := 0
  status : ℤ := -1
  reqSendSize : UInt32 := 0
  reqPackSize : UInt32 := 0
  /-- `_method->full_name()` -/
  method : Bytes
  request : Req
  /-- `_done` is not NULL. -/
  done : Bool

/-- What a `RpcChannelImpl` calls outside the source: protobuf, and the counter of sequence
numbers that all channels share. -/
structure ChannelEnv (Req : Type) where
  /-- `SerializeToZeroCopyStream` -/
  serialize : Req → WriteBuffer → Bool × WriteBuffer
  /-- Whether the bytes are a valid message of the type of the response. -/
  parse : Bytes → Bool
  /-- `GenerateSeq` -/
  generateSeq : ℕ

/-- `RpcChannelOptions`, as far as the times are used. -/
structure RpcChannelOptions where
  readTimeoutSec : ℕ := 60
  writeTimeoutSec : ℕ := 60

/-- What the log of a channel records. -/
inductive ChannelEvent
  /-- `CallMethod` takes a call. -/
  | accept (call : ℕ)
  /-- `SetStatus` on the controller of a call. -/
  | setStatus (call : ℕ) (status : ℤ)
  /-- `done->Run()` -/
  | runDone (call : ℕ)
deriving DecidableEq, Repr

/-- `RpcChannelImpl` without its stream. -/
structure RpcChannelImpl (Req : Type) where
  options : RpcChannelOptions
  sendcall : List ℕ
  waitcall : List ℕ
  donecall : List ℕ
  /-- The controllers of the calls; those from `next` on have not been made. -/
  cntl : ℕ → RpcClientController Req
  next : ℕ
  /-- `delete this` -/
  down : Bool
  log : List ChannelEvent

/-- A `RpcChannelImpl` with its stream. -/
abbrev ChannelWorld (Req : Type) := World (MessageStream (RpcChannelImpl Req))

namespace HttpRequestHeader

variable (h : HttpRequestHeader)

/-- `SetPath`, `SetSeq` and `SetContentLength` on a request. -/
def setPath (path : Bytes) : HttpRequestHeader := { h with path := path }

def setSeq (seq : ℕ) : HttpRequestHeader := { h with toHttpHeader := h.toHttpHeader.setSeq seq }

def setContentLength (length : ℕ) : HttpRequestHeader :=
  { h with toHttpHeader := h.toHttpHeader.setContentLength length }

end HttpRequestHeader

namespace RpcChannelImpl

variable {Req : Type}

section

variable (s : RpcChannelImpl Req)

/-- The calls in the three queues. -/
def queued : List ℕ := s.sendcall ++ s.waitcall ++ s.donecall

/-- A call gets the next number. -/
def newCntl (controller : RpcClientController Req) : RpcChannelImpl Req :=
  { s with cntl := Function.update s.cntl s.next controller, next := s.next + 1 }

/-- A change of one controller. -/
def modifyCntl (id : ℕ) (f : RpcClientController Req → RpcClientController Req) :
    RpcChannelImpl Req :=
  { s with cntl := Function.update s.cntl id (f (s.cntl id)) }

/-- `cntl->SetStatus(status)` -/
def setStatus (status : ℤ) (id : ℕ) : RpcChannelImpl Req :=
  { s.modifyCntl id fun c => { c with status := status } with
    log := s.log ++ [.setStatus id status] }

/-- `cntl->_done->Run()` -/
def runDone (id : ℕ) : RpcChannelImpl Req := { s with log := s.log ++ [.runDone id] }

/-- `SetStatus` on all calls of a queue, from its front on. -/
def setStatusAll (status : ℤ) (ids : List ℕ) : RpcChannelImpl Req :=
  ids.foldl (·.setStatus status ·) s

end

/-- `CallMethod`, up to the wait of a call without a closure; `connectFail` says that there is
no stream or that it could not connect. -/
def callMethod (connectFail : Bool) (controller : RpcClientController Req) (method : Bytes)
    (request : Req) (done : Bool) (w : ChannelWorld Req) : ChannelWorld Req :=
  let id := w.owner.next
  if connectFail then
    w.modifyOwner fun s =>
      let s := (s.newCntl controller).setStatus ErrorCode.clientConnectFail.code id
      if done then s.runDone id else s
  else
    (w.modifyOwner fun s =>
      let s := s.newCntl { controller with method := method, request := request, done := done }
      { s with sendcall := s.sendcall ++ [id], log := s.log ++ [.accept id] }).modifyStream
      (·.modEventAsync true true)

/-- `OnMessageError` -/
def onMessageError (code : ErrorCode) (w : ChannelWorld Req) : ChannelWorld Req :=
  let w := w.modifyOwner fun s =>
    { s.setStatusAll ErrorCode.clientCancelByError.code s.sendcall with sendcall := [] }
  let w := w.modifyOwner fun s => { s.setStatusAll code.code s.waitcall with waitcall := [] }
  let w := w.modifyOwner fun s => { s.setStatusAll code.code s.donecall with donecall := [] }
  w.modifyStream fun s => { s.modEventAsync true true with closeWhenEmpty := true }

/-- A call that cannot be sent. -/
def sendError (code : ErrorCode) (id : ℕ) (w : ChannelWorld Req) : ChannelWorld Req :=
  (onMessageError code w).modifyOwner (·.setStatus code.code id)

/-- The end of `SendToServer`: the header goes in front of the serialised body, and the size of
the packet is stored. -/
def putRequest (id : ℕ) (packetStart bodyStart : Iterator) (w : ChannelWorld Req) :
    ChannelWorld Req :=
  let buf := w.stream.writebuf
  let contentLength := (Iterator.sub buf.que buf.writepos bodyStart % 2 ^ 32).toNat
  let w := w.modifyReq (·.setContentLength contentLength)
  let que := (w.reqheader.serializeHeader buf.que packetStart).2
  let w := w.modifyBuf fun b => { b with que := que }
  let w := w.modifyOwner fun s => s.modifyCntl id fun c =>
    { c with reqPackSize := UInt32.ofInt (Iterator.sub que buf.writepos packetStart) }
  w.modifyStream (·.modEventAsync true true)

/-- `SendToServer`, whose return value nobody uses. -/
def sendToServer (env : ChannelEnv Req) (id : ℕ) (w : ChannelWorld Req) : ChannelWorld Req :=
  let w := w.modifyBuf (·.reset)
  let w := w.modifyOwner fun s => s.modifyCntl id fun c => { c with seq := env.generateSeq }
  let w := w.modifyReq fun h =>
    (h.reset.setPath (ascii "/" ++ (w.owner.cntl id).method)).setSeq env.generateSeq
  let reserved := w.stream.writebuf.reserve maxHeaderSize
  let w := w.modifyBuf fun _ => reserved.2
  if reserved.1 = false then sendError .serverWriebufferFull id w
  else
    let packetStart := w.stream.writebuf.writepos
    let w := w.modifyBuf fun b => b.alignWritePos.beginPacket
    let bodyStart := w.stream.writebuf.writepos
    let serialized := env.serialize (w.owner.cntl id).request w.stream.writebuf
    let w := w.modifyBuf fun _ => serialized.2
    if serialized.1 = false then
      -- roll back
      sendError .serverResSeriaFailed id (w.modifyBuf fun b => { b with writepos := packetStart })
    else putRequest id packetStart bodyStart w

/-- `OnWriteable` -/
def onWriteable (env : ChannelEnv Req) (w : ChannelWorld Req) : ChannelWorld Req :=
  match w.owner.sendcall with
  | [] => w
  | id :: rest =>
      if w.owner.waitcall = [] ∧ w.owner.donecall = [] then
        (sendToServer env id (w.modifyOwner fun s => { s with sendcall := rest })).modifyOwner
          fun s => { s with waitcall := s.waitcall ++ [id] }
      else w

/-- The loop of `OnMessageSended`; the first argument bounds the number of rounds.  A round in
which the front packet stays incomplete leaves `buffer_size` as it is, so that the same bytes
are counted again. -/
def sendedLoop : ℕ → ℤ → ChannelWorld Req → ChannelWorld Req
  | 0, _, w => w
  | fuel + 1, bufferSize, w =>
      match w.owner.waitcall with
      | [] => w
      | id :: rest =>
          if 0 < bufferSize then
            let w := w.modifyOwner fun s => s.modifyCntl id fun c =>
              { c with reqSendSize := c.reqSendSize + UInt32.ofInt bufferSize }
            let c := w.owner.cntl id
            if c.reqPackSize ≤ c.reqSendSize then
              sendedLoop fuel (toInt32 (c.reqSendSize - c.reqPackSize).toNat)
                ((w.modifyOwner fun s =>
                  { s with waitcall := rest, donecall := s.donecall ++ [id] }).modifyStream
                  (·.setReadTimeOutAsync w.owner.options.readTimeoutSec))
            else sendedLoop fuel bufferSize w
          else w

/-- `OnMessageSended`.  As long as the sizes stay below `2 ^ 31`, every `2 ^ 32` rounds take a
call away. -/
def onMessageSended (bufferSize : ℤ) (w : ChannelWorld Req) : ChannelWorld Req :=
  sendedLoop (2 ^ 32 * (w.owner.waitcall.length + 1)) bufferSize w

/-- The end of `OnMessageRecived`: the next call is sent. -/
def sendNext (env : ChannelEnv Req) (w : ChannelWorld Req) : ChannelWorld Req :=
  match w.owner.sendcall with
  | [] => w
  | id :: rest =>
      let w := sendToServer env id (w.modifyOwner fun s => { s with sendcall := rest })
      (w.modifyStream (·.setWriteTimeOutAsync w.owner.options.writeTimeoutSec)).modifyOwner
        fun s => { s with waitcall := s.waitcall ++ [id] }

/-- The bytes of the response that a parse reads: none without a `Content-Length`. -/
def parseResponse (env : ChannelEnv Req) (w : ChannelWorld Req) : Bool × ChannelWorld Req :=
  let w := w.modifyStream fun s => { s with readbuf := s.readbuf.beginPacket }
  if 0 < w.resheader.getContentLength then
    let (bs, readbuf) := w.stream.readbuf.parseFromZeroCopyStream
    (env.parse bs, w.modifyStream fun s => { s with readbuf := readbuf })
  else (true, w)

/-- `OnMessageRecived` -/
def onMessageRecived (env : ChannelEnv Req) (w : ChannelWorld Req) : ChannelWorld Req :=
  let w := w.modifyStream (·.delReadTimeOutAsync)
  match w.owner.donecall with
  | [] => w
  | id :: rest =>
      let w := w.modifyOwner fun s => { s with donecall := rest }
      match parseResponse env w with
      | (false, w) => sendError .serverReqParserFailed id (w.modifyRes (·.reset))
      | (true, w) =>
          let w := if (w.owner.cntl id).done then w.modifyOwner (·.runDone id) else w
          let w := w.modifyOwner (·.setStatus w.resheader.status id)
          sendNext env (w.modifyRes (·.reset))

/-- `OnSendTimeout` -/
def onSendTimeout (w : ChannelWorld Req) : ChannelWorld Req := onMessageError .clientSendTimeout w

/-- `OnRecvTimeout` -/
def onRecvTimeout (w : ChannelWorld Req) : ChannelWorld Req := onMessageError .clientRecvTimeout w

/-- `OnClose` -/
def onClose (w : ChannelWorld Req) : ChannelWorld Req :=
  let w := if w.owner.sendcall ≠ [] ∨ w.owner.waitcall ≠ [] ∨ w.owner.donecall ≠ [] then
    onMessageError .clientCancelByClose w else w
  (w.modifyStream (·.releaseRef)).modifyOwner fun s => { s with down := true }

end RpcChannelImpl

end MTRpc
