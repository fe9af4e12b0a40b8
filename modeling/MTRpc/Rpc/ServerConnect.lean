import MTRpc.Lib.Exec
import MTRpc.Mio.MessageStream

/-!
# The server side of a connection

A `ServerConnect` takes the requests that arrive on its message stream, has the registered
service answer them and serialises the responses into the write buffer of the stream, one
after the other: `pending` holds the calls whose response has not been sent completely.
`SendMessage` puts a call behind the others or, when there are none, serialises its response;
`OnMessageSended` counts the bytes sent, takes the front call away when all of its packet is
out and calls `SendMessage` for the next one.

Services and protobuf messages are not part of the source (`ServerEnv`).  Controllers are named
by numbers, in the order of their creation.  A controller keeps its contents when it is deleted;
the source does not promise that, and a run that uses a deleted controller goes on undefined
there.
-/

namespace MTRpc

/-- `RpcServerController`, with the fields that the server uses, as its constructor sets them. -/
structure RpcServerController (Req Res : Type) where
  seq : ℕ := 0
  body : Bytes := []
  resSendSize : UInt32 := 0
  resPackSize : UInt32 := 0
  /-- `_request` and `_response`, of which both or none are set. -/
  messages : Option (Req × Res) := none

/-- A registered method. -/
structure ServiceMethod (Req Res : Type) where
  /-- The request's message type: the message that the bytes are, if they are valid. -/
  parse : Bytes → Option Req
  /-- `service->CallMethod`: the response, or `none` when the controller has failed. -/
  callMethod : Req → Option Res

/-- What a `ServerConnect` calls outside the source, and the places of the pieces in memory. -/
structure ServerEnv (Req Res : Type) where
  /-- `handlerGetServiceAndMethod` -/
  getServiceAndMethod : Bytes → Option (ServiceMethod Req Res)
  /-- `handlerGetServiceList` -/
  getServiceList : List Bytes
  /-- `SerializeToZeroCopyStream` -/
  serialize : Res → WriteBuffer → Bool × WriteBuffer
  addr : ℕ → ℤ

/-- What the log of a connect records. -/
inductive ServerEvent
  /-- The request parser has read these bytes. -/
  | parse (bs : Bytes)
  /-- A controller with this sequence number is made for a request and goes to `SendMessage`. -/
  | dispatch (cntl seq : ℕ)
  /-- `SendMessage` puts a packet for a controller into the write buffer: its response or, when
  there is no room or the response cannot be serialised, the error instead of it. -/
  | packet (cntl : ℕ) (headers : Headers)

/-- `ServerConnect` without its stream. -/
structure ServerConnect (Req Res : Type) where
  pending : List ℕ
  /-- The controllers; those from `next` on have not been created. -/
  cntl : ℕ → RpcServerController Req Res
  next : ℕ
  /-- The controllers that were deleted, in order. -/
  deleted : List ℕ
  /-- `delete this` -/
  down : Bool
  log : List ServerEvent

/-- A `ServerConnect` with its stream. -/
abbrev ServerWorld (Req Res : Type) := World (MessageStream (ServerConnect Req Res))

namespace HttpReponseHeader

variable (h : HttpReponseHeader)

/-- `SetSeq`, `SetHeader` and `SetContentLength` on a response. -/
def setSeq (seq : ℕ) : HttpReponseHeader := { h with toHttpHeader := h.toHttpHeader.setSeq seq }

def setHeader (key value : Bytes) : HttpReponseHeader :=
  { h with toHttpHeader := h.toHttpHeader.setHeader key value }

def setContentLength (length : ℕ) : HttpReponseHeader :=
  { h with toHttpHeader := h.toHttpHeader.setContentLength length }

end HttpReponseHeader

namespace ServerConnect

variable {Req Res : Type}

/-- After the constructor and `Start`. -/
def init : ServerConnect Req Res := ⟨[], fun _ => {}, 0, [], false, []⟩

section

variable (s : ServerConnect Req Res)

/-- `new RpcServerController()`, filled in; it is called `s.next`. -/
def newCntl (c : RpcServerController Req Res) : ServerConnect Req Res :=
  { s with cntl := Function.update s.cntl s.next c, next := s.next + 1 }

/-- A change of one controller. -/
def modifyCntl (id : ℕ) (f : RpcServerController Req Res → RpcServerController Req Res) :
    ServerConnect Req Res :=
  { s with cntl := Function.update s.cntl id (f (s.cntl id)) }

/-- `delete cntl->_request; delete cntl->_response; delete cntl` -/
def delete (id : ℕ) : ServerConnect Req Res := { s with deleted := s.deleted ++ [id] }

/-- `pending.push(cntl)` -/
def push (id : ℕ) : ServerConnect Req Res := { s with pending := s.pending ++ [id] }

/-- An entry of the log. -/
def record (e : ServerEvent) : ServerConnect Req Res := { s with log := s.log ++ [e] }

end

/-- `OnMessageError`: a header without a body, with the number of the front call, and the
stream is going to be closed. -/
def onMessageError (code : ErrorCode) (w : ServerWorld Req Res) : ServerWorld Req Res :=
  let seq := match w.owner.pending with
    | [] => 0
    | id :: _ => (w.owner.cntl id).seq
  let packetStart := w.stream.writebuf.writepos
  let w := w.modifyBuf (·.alignWritePos)
  let w := w.modifyRes fun _ =>
    ((w.resheader.reset.setSeq seq).setStatus code.code code.errorString).setContentLength 0
  let w := w.modifyBuf fun b =>
    { b with que := (w.resheader.serializeHeader b.que packetStart).2 }
  w.modifyStream fun s => { s.modEventAsync true true with closeWhenEmpty := true }

/-- The error that takes the place of a response: the call is deleted, and stays in `pending`. -/
def sendError (code : ErrorCode) (id : ℕ) (w : ServerWorld Req Res) : ServerWorld Req Res :=
  let w := onMessageError code w
  w.modifyOwner fun s => (s.record (.packet id w.resheader.headers)).delete id

/-- The end of `SendMessage` for a serialised response: the header goes in front of the body,
and the size of the packet is stored. -/
def putResponse (id : ℕ) (packetStart bodyStart : Iterator) (w : ServerWorld Req Res) :
    ServerWorld Req Res :=
  let buf := w.stream.writebuf
  let contentLength := (Iterator.sub buf.que buf.writepos bodyStart % 2 ^ 32).toNat
  let w := w.modifyRes fun h =>
    (h.setContentLength contentLength).setHeader (ascii "Content-Type")
      (ascii " application/x-protobuf")
  let que := (w.resheader.serializeHeader buf.que packetStart).2
  let w := w.modifyBuf fun b => { b with que := que }
  let w := w.modifyOwner fun s => s.modifyCntl id fun c =>
    { c with resPackSize := UInt32.ofInt (Iterator.sub que buf.writepos packetStart) }
  (w.modifyOwner (·.record (.packet id w.resheader.headers))).modifyStream
    (·.modEventAsync true true)

/-- The part of `SendMessage` for a response of a service, behind the reset of the buffer and
of the header: the body is serialised from the next piece on. -/
def sendResponse (env : ServerEnv Req Res) (id : ℕ) (response : Res) (w : ServerWorld Req Res) :
    ServerWorld Req Res :=
  let reserved := w.stream.writebuf.reserve maxHeaderSize
  let w := w.modifyBuf fun _ => reserved.2
  if reserved.1 = false then sendError .serverWriebufferFull id w
  else
    let packetStart := w.stream.writebuf.writepos
    let w := w.modifyBuf fun b => b.alignWritePos.beginPacket
    let bodyStart := w.stream.writebuf.writepos
    let serialized := env.serialize response w.stream.writebuf
    let w := w.modifyBuf fun _ => serialized.2
    if serialized.1 = false then
      -- roll back
      sendError .serverResSeriaFailed id (w.modifyBuf fun b => { b with writepos := packetStart })
    else putResponse id packetStart bodyStart w

/-- The headers of the list of services. -/
def listHeader (body : Bytes) (h : HttpReponseHeader) : HttpReponseHeader :=
  ((({ h with bodySize := body.length }.setHeader (ascii "Server") (ascii " MTRpc 1.0.0")).setHeader
    (ascii "Content-Type") (ascii " text/plain")).setHeader
    (ascii "Connection") (ascii " keep-alive")).setContentLength body.length

/-- The end of `SendMessage` for the list of services.  The size of the packet is not stored
here. -/
def putList (env : ServerEnv Req Res) (id : ℕ) (packetStart : Iterator) (body : Bytes)
    (w : ServerWorld Req Res) : ServerWorld Req Res :=
  let w := w.modifyBuf fun b =>
    match serializeBody env.addr body b.que b.writepos with
    | some (que, it) => { b with que := que, writepos := it }
    | none => b
  let w := w.modifyBuf fun b =>
    { b with que := (w.resheader.serializeHeader b.que packetStart).2 }
  (w.modifyOwner (·.record (.packet id w.resheader.headers))).modifyStream
    (·.modEventAsync true true)

/-- The part of `SendMessage` for the list of services. -/
def sendList (env : ServerEnv Req Res) (id : ℕ) (w : ServerWorld Req Res) :
    ServerWorld Req Res :=
  let body := (w.owner.cntl id).body
  let w := w.modifyRes (listHeader body)
  let reserved := w.stream.writebuf.reserve maxHeaderSize
  let w := w.modifyBuf fun _ => reserved.2
  if reserved.1 = false then sendError .serverWriebufferFull id w
  else
    let packetStart := w.stream.writebuf.writepos
    putList env id packetStart body (w.modifyBuf (·.alignWritePos))

/-- `HTTP_MAX_REQUEST_PENDING` -/
def httpMaxRequestPending : ℕ := 5

/-- `SendMessage`.  The second test comes too late to be true. -/
def sendMessage (env : ServerEnv Req Res) (id : ℕ) (messages : Option (Req × Res))
    (w : ServerWorld Req Res) : ServerWorld Req Res :=
  if w.owner.pending ≠ [] then
    (w.modifyOwner (·.push id)).modifyStream (·.modEventAsync true true)
  else if httpMaxRequestPending < w.owner.pending.length then
    onMessageError .httpRequestOverflow w
  else
    let w := w.modifyOwner (·.push id)
    let w := w.modifyBuf (·.reset)
    let w := w.modifyRes fun h =>
      (h.reset.setSeq (w.owner.cntl id).seq).setStatus ErrorCode.ok.code (ascii "OK")
    match messages with
    | some (_, response) => sendResponse env id response w
    | none => sendList env id w

/-- `OnListServer` -/
def onListServer (env : ServerEnv Req Res) (w : ServerWorld Req Res) : ServerWorld Req Res :=
  let servers := env.getServiceList
  let seq := w.reqheader.getSeq
  let body := if servers = [] then ascii "No Serves find\r\n" else servers.flatten
  let id := w.owner.next
  sendMessage env id none
    (w.modifyOwner fun s => (s.newCntl { seq := seq, body := body }).record (.dispatch id seq))

/-- `OnMessageRecived` -/
def onMessageRecived (env : ServerEnv Req Res) (w : ServerWorld Req Res) : ServerWorld Req Res :=
  let path := w.reqheader.path
  if path.length ≤ 1 then onListServer env w
  else
    let methodFullName := path.drop 1
    if methodFullName.length = 0 then onMessageError .httpServerNotfound w
    else
      match env.getServiceAndMethod methodFullName with
      | none => onMessageError .httpMethodNotfound w
      | some method =>
          let (bs, readbuf) := w.stream.readbuf.beginPacket.parseFromZeroCopyStream
          let w := (w.modifyStream fun s => { s with readbuf := readbuf }).modifyOwner
            (·.record (.parse bs))
          match method.parse bs with
          | none => onMessageError .serverReqParserFailed w
          | some request =>
              let seq := w.reqheader.getSeq
              let id := w.owner.next
              match method.callMethod request with
              | none =>
                  onMessageError .serverReqParserFailed
                    (w.modifyOwner fun s => (s.newCntl { seq := seq }).delete id)
              | some response =>
                  sendMessage env id (some (request, response)) (w.modifyOwner fun s =>
                    (s.newCntl { seq := seq, messages := some (request, response) }).record
                      (.dispatch id seq))

/-- `OnMessageSended` -/
def onMessageSended (env : ServerEnv Req Res) (bufferSize : ℤ) (w : ServerWorld Req Res) :
    ServerWorld Req Res :=
  match w.owner.pending with
  | [] => w.modifyStream (·.modEventAsync true false)
  | id :: rest =>
      if w.stream.closeWhenEmpty then w
      else
        let w := w.modifyOwner fun s => s.modifyCntl id fun c =>
          { c with resSendSize := c.resSendSize + UInt32.ofInt bufferSize }
        if (w.owner.cntl id).resSendSize < (w.owner.cntl id).resPackSize then w
        else
          let w := w.modifyOwner fun s => { s.delete id with pending := rest }
          match rest with
          | [] => w.modifyStream (·.modEventAsync true false)
          | next :: _ => sendMessage env next (w.owner.cntl next).messages w

/-- `OnClose` -/
def onClose (w : ServerWorld Req Res) : ServerWorld Req Res :=
  let w := w.modifyOwner fun s => { s with pending := [], deleted := s.deleted ++ s.pending }
  (w.modifyStream (·.releaseRef)).modifyOwner fun s => { s with down := true }

/-! ## What the functions do to the connect -/

/-- The dispatched calls, in order, with their sequence numbers. -/
def dispatched (s : ServerConnect Req Res) : List (ℕ × ℕ) :=
  s.log.filterMap fun | .dispatch cntl seq => some (cntl, seq) | _ => none

/-- The packets, in order: the calls they are for and the text of their `Seq` header. -/
def packets (s : ServerConnect Req Res) : List (ℕ × Option Bytes) :=
  s.log.filterMap fun | .packet cntl headers => some (cntl, headers[HttpHeader.seqKey]?) | _ => none

/-- The text of the `Seq` header. -/
def seqHeader (h : HttpReponseHeader) : Option Bytes := h.headers[HttpHeader.seqKey]?

section

variable (h : HttpReponseHeader)

@[simp] lemma seqHeader_setSeq (seq : ℕ) : seqHeader (h.setSeq seq) = some (decimal seq) :=
  Std.ExtTreeMap.getElem?_insert_self

lemma seqHeader_setHeader {key : Bytes} (value : Bytes) (hk : compare key HttpHeader.seqKey ≠ .eq) :
    seqHeader (h.setHeader key value) = seqHeader h :=
  (Std.ExtTreeMap.getElem?_insert ..).trans (if_neg hk)

@[simp] lemma seqHeader_setContentLength (length : ℕ) :
    seqHeader (h.setContentLength length) = seqHeader h :=
  seqHeader_setHeader h _ (by decide)

@[simp] lemma seqHeader_setStatus (status : ℕ) (msg : Bytes) :
    seqHeader (h.setStatus status msg) = seqHeader h := rfl

end

lemma onMessageError_owner (code : ErrorCode) (w : ServerWorld Req Res) :
    (onMessageError code w).owner = w.owner := by
  simp [onMessageError]

/-- The error carries the number of the front call. -/
lemma onMessageError_seq (code : ErrorCode) {w : ServerWorld Req Res} {id : ℕ} {rest : List ℕ}
    (hp : w.owner.pending = id :: rest) :
    seqHeader (onMessageError code w).resheader = some (decimal (w.owner.cntl id).seq) := by
  have hheader : (onMessageError code w).resheader
      = ((w.resheader.reset.setSeq (w.owner.cntl id).seq).setStatus code.code
          code.errorString).setContentLength 0 := by
    rw [onMessageError, hp]
    rfl
  rw [hheader, seqHeader_setContentLength, seqHeader_setStatus, seqHeader_setSeq]

/-- One packet for `id` was put into the write buffer, with its number, and no other call is
touched. -/
def Packs (id : ℕ) (s s' : ServerConnect Req Res) : Prop :=
  s'.packets = s.packets ++ [(id, some (decimal (s.cntl id).seq))] ∧
    s'.dispatched = s.dispatched ∧ s'.pending = s.pending ∧ s'.next = s.next ∧ s'.down = s.down

lemma packs_of_log {id : ℕ} {h : HttpReponseHeader} {s s' : ServerConnect Req Res}
    (hseq : seqHeader h = some (decimal (s.cntl id).seq))
    (hlog : s'.log = s.log ++ [.packet id h.headers]) (hpending : s'.pending = s.pending)
    (hnext : s'.next = s.next) (hdown : s'.down = s.down) : Packs id s s' := by
  rw [seqHeader] at hseq
  refine ⟨?_, ?_, hpending, hnext, hdown⟩
  · simp [packets, hlog, hseq]
  · simp [dispatched, hlog]

lemma sendError_packs {code : ErrorCode} {id : ℕ} {w : ServerWorld Req Res}
    (hp : w.owner.pending = [id]) : Packs id w.owner (sendError code id w).owner := by
  have howner := onMessageError_owner code w
  refine packs_of_log (onMessageError_seq code hp) ?_ ?_ ?_ ?_
  all_goals simp [sendError, howner, record, delete]

lemma putResponse_packs {id : ℕ} (packetStart bodyStart : Iterator) {w : ServerWorld Req Res}
    (hseq : seqHeader w.resheader = some (decimal (w.owner.cntl id).seq)) :
    Packs id w.owner (putResponse id packetStart bodyStart w).owner := by
  refine packs_of_log (h := (putResponse id packetStart bodyStart w).resheader) ?_ ?_ ?_ ?_ ?_
  · rw [← hseq]
    exact (seqHeader_setHeader _ _ (by decide)).trans (seqHeader_setContentLength _ _)
  all_goals rfl

lemma putList_packs (env : ServerEnv Req Res) {id : ℕ} (packetStart : Iterator) (body : Bytes)
    {w : ServerWorld Req Res}
    (hseq : seqHeader w.resheader = some (decimal (w.owner.cntl id).seq)) :
    Packs id w.owner (putList env id packetStart body w).owner :=
  packs_of_log hseq rfl rfl rfl rfl

lemma sendResponse_packs (env : ServerEnv Req Res) {id : ℕ} (response : Res)
    {w : ServerWorld Req Res} (hp : w.owner.pending = [id])
    (hseq : seqHeader w.resheader = some (decimal (w.owner.cntl id).seq)) :
    Packs id w.owner (sendResponse env id response w).owner := by
  rw [sendResponse]
  split
  · exact sendError_packs (w := w.modifyBuf _) hp
  · dsimp only
    split
    · exact sendError_packs (w := (((w.modifyBuf _).modifyBuf _).modifyBuf _).modifyBuf _) hp
    · exact putResponse_packs _ _ (w := ((w.modifyBuf _).modifyBuf _).modifyBuf _) hseq

lemma seqHeader_listHeader (body : Bytes) (h : HttpReponseHeader) :
    seqHeader (listHeader body h) = seqHeader h := by
  refine (seqHeader_setContentLength _ _).trans ?_
  refine (seqHeader_setHeader _ _ (by decide)).trans ?_
  refine (seqHeader_setHeader _ _ (by decide)).trans ?_
  exact seqHeader_setHeader _ _ (by decide)

lemma sendList_packs (env : ServerEnv Req Res) {id : ℕ} {w : ServerWorld Req Res}
    (hp : w.owner.pending = [id])
    (hseq : seqHeader w.resheader = some (decimal (w.owner.cntl id).seq)) :
    Packs id w.owner (sendList env id w).owner := by
  rw [sendList]
  split
  · exact sendError_packs (w := (w.modifyRes _).modifyBuf _) hp
  · refine putList_packs env _ _ (w := ((w.modifyRes _).modifyBuf _).modifyBuf _) ?_
    exact (seqHeader_listHeader _ _).trans hseq

/-- With others in the queue, `SendMessage` puts the call behind them. -/
lemma sendMessage_waits (env : ServerEnv Req Res) (id : ℕ) (messages : Option (Req × Res))
    {w : ServerWorld Req Res} (hp : w.owner.pending ≠ []) :
    (sendMessage env id messages w).owner
      = w.owner.push id := by
  rw [sendMessage, if_pos hp]
  rfl

/-- Alone, it is serialised at once. -/
lemma sendMessage_packs (env : ServerEnv Req Res) (id : ℕ) (messages : Option (Req × Res))
    {w : ServerWorld Req Res} (hp : w.owner.pending = []) :
    Packs id (w.owner.push id) (sendMessage env id messages w).owner := by
  rw [sendMessage, if_neg (by simp [hp]), if_neg (by simp [hp])]
  have hpending : w.owner.pending ++ [id] = [id] := by rw [hp, List.nil_append]
  cases messages with
  | none => exact sendList_packs env (w := ((w.modifyOwner _).modifyBuf _).modifyRes _) hpending rfl
  | some messages =>
    exact sendResponse_packs env _ (w := ((w.modifyOwner _).modifyBuf _).modifyRes _) hpending rfl

end ServerConnect

end MTRpc
