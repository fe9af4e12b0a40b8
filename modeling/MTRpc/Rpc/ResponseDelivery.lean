import MTRpc.Rpc.OneInFlight
import MTRpc.Rpc.RequestDelivery

/-!
# The answer on its way to the client

`SendMessage` of a connect assembles the response, and its bytes come to the client in chunks, each
followed by a call of `OnRecived` of the `ConnectStream`.  With the last one the call that waits in
front is finished: it gets the status of the response when the parser takes exactly the bytes that
the service has answered with (`response_delivered`).  `call_answered` is the whole exchange, from
`SendToServer` of the client to the status of the call.
-/

namespace MTRpc

/-! ## The header as it is written and read -/

namespace HttpReponseHeader

variable {h : HttpReponseHeader}

/-- What `SerializeHeader` prints is the text of the grammar. -/
lemma headerText_eq (hh : h.Fits) : headerText h.firstLine h.headers = h.asText.text := by
  obtain ⟨que, hroom⟩ := exists_room (headerText h.firstLine h.headers)
  have hret : (h.serializeHeader que ⟨0, 0⟩).1 = 0 :=
    serializeHeader_eq_zero_iff.mpr (by rw [Nat.zero_add]; exact hroom)
  exact (serializeHeader_spec hret).1.symm.trans (textFrom_serializeHeader hh hret)

/-- The values that are read of the text of a header. -/
lemma wholeRead_asText (hh : h.Fits) (g : HttpReponseHeader) (it : Iterator) :
    (h.asText.wholeRead g it).status = h.status ∧
      ∀ key : Bytes, (h.asText.wholeRead g it).headers[key]?
        = h.headers[key]?.map fun v => trim v ++ [32] := by
  have hresidue : residue h.statusMsg 0 = 0 := residue_of_head hh.statusMsg_head
  refine ⟨rfl, fun key => Eq.trans ?_ (readLines_asText hh key)⟩
  rw [ResponseText.wholeRead, show h.asText.statusMsg = h.statusMsg from rfl, hresidue]
  rfl

end HttpReponseHeader

namespace Packet

/-- The header of a response without an error. -/
def answer (seq length : ℕ) : HttpReponseHeader :=
  (response length).header seq ErrorCode.ok.code (ascii "OK") .init

variable {seq length : ℕ}

lemma fits_answer (hseq : seq < 2 ^ 64) : (answer seq length).Fits :=
  fits_header hseq (by decide) (by decide +kernel) (by decide)

/-- The header that is read of it. -/
lemma wholeRead_answer (hseq : seq < 2 ^ 64) (hlength : length < 2 ^ 31) (g : HttpReponseHeader)
    (it : Iterator) :
    ((answer seq length).asText.wholeRead g it).status = ErrorCode.ok.code ∧
      ((answer seq length).asText.wholeRead g it).getContentLength = length := by
  obtain ⟨hstatus, hheaders⟩ := HttpReponseHeader.wholeRead_asText (fits_answer hseq) g it
  have hspace : ∀ c ∈ ([32] : Bytes).head?, isDigit c = false := by
    rintro c ⟨⟩
    decide +kernel
  have hlengthKey : (answer seq length).headers[HttpHeader.contentLengthKey]?
      = some (decimal (length % 2 ^ 32)) := getElem?_header.2
  refine ⟨hstatus, ?_⟩
  rw [HttpHeader.getContentLength, hheaders, hlengthKey, Option.map_some, trim_decimal]
  dsimp only
  rw [Nat.mod_eq_of_lt (by omega), strtol_decimal hspace (by decide) (by omega), toInt32]
  omega

end Packet

/-! ## The response of the server -/

namespace ServerConnect

variable {Req Res : Type} {env : ServerEnv Req Res} {w : ServerWorld Req Res} {id : ℕ}
variable {request : Req} {response : Res} {m : Bytes} {p : OutPacket} {b : WriteBuffer} {seq : ℕ}

/-- The header that `SendMessage` prepares for a response to the call `seq`. -/
def answerHeader (seq : ℕ) : HttpReponseHeader :=
  ((HttpReponseHeader.init.setSeq seq).setStatus ErrorCode.ok.code (ascii "OK")).setHeader
    (ascii "Content-Type") (ascii " application/x-protobuf")

/-- A response that can be put into the write buffer `b`. -/
structure Responds (env : ServerEnv Req Res) (b : WriteBuffer) (seq : ℕ) (response : Res)
    (m : Bytes) (p : OutPacket) : Prop where
  assemble : b.assemble (answerHeader seq).firstLine (answerHeader seq).headers
    (env.serialize response) = some p
  assembled : p.Assembled (answerHeader seq).firstLine m

/-- `SendMessage` puts it there when no other call is in the queue. -/
lemma sendMessage_writebuf (hp : Responds env w.stream.writebuf (w.owner.cntl id).seq response m p)
    (hpending : w.owner.pending = []) :
    (sendMessage env id (some (request, response)) w).stream.writebuf = p.buf := by
  have hsend := sendResponse_assemble env id response
    ((w.modifyOwner (·.push id)).modifyRes fun h =>
      (h.reset.setSeq (w.owner.cntl id).seq).setStatus ErrorCode.ok.code (ascii "OK")) hp.assemble
  rw [sendMessage, if_neg (by simp [hpending]), if_neg (by simp [hpending])]
  exact hsend.1

/-- The controller of a call that has come. -/
lemma cntl_called {m : Bytes} : (called w m seq request response).owner.cntl w.owner.next
    = { seq := seq, messages := some (request, response) } := by
  simp [called, newCntl, record]

/-- Its response can be put where it could before. -/
lemma Responds.called {m' : Bytes} (hp : Responds env w.stream.writebuf seq response m p) :
    Responds env (ServerConnect.called w m' seq request response).stream.writebuf
      ((ServerConnect.called w m' seq request response).owner.cntl w.owner.next).seq response m
      p := by
  rw [cntl_called]
  exact hp

/-- The bytes of the packet. -/
lemma Responds.gathered (hp : Responds env b seq response m p) (hseq : seq < 2 ^ 64)
    (hlength : m.length < 2 ^ 32) :
    p.buf.gathered p.buf.writepos = (Packet.answer seq m.length).asText.text ++ m := by
  have hheaders : p.headers = (Packet.answer seq m.length).headers := by
    rw [hp.assembled.headers_eq hp.assemble]
    refine (insert_comm _ _ _ (by decide)).trans ?_
    conv_lhs => rw [← Nat.mod_eq_of_lt hlength]
    rfl
  have hfirst : (answerHeader seq).firstLine = (Packet.answer seq m.length).firstLine := rfl
  rw [hp.assembled.content, hheaders, hfirst,
    HttpReponseHeader.headerText_eq (Packet.fits_answer hseq)]

end ServerConnect

/-! ## The call of the client -/

open ConnectStream (putResponse)

namespace RpcChannelImpl

variable {Req : Type} {env : ChannelEnv Req} {w : ChannelWorld Req} {id : ℕ} {rest : List ℕ}

lemma readbuf_sendError (code : ErrorCode) (id : ℕ) (w : ChannelWorld Req) :
    (sendError code id w).stream.readbuf = w.stream.readbuf := rfl

lemma readbuf_putRequest (id : ℕ) (packetStart bodyStart : Iterator) (w : ChannelWorld Req) :
    (putRequest id packetStart bodyStart w).stream.readbuf = w.stream.readbuf := rfl

/-- `SendToServer` does not touch the read buffer. -/
lemma readbuf_sendToServer (env : ChannelEnv Req) (id : ℕ) (w : ChannelWorld Req) :
    (sendToServer env id w).stream.readbuf = w.stream.readbuf := by
  rw [sendToServer]
  dsimp only
  split
  · rw [readbuf_sendError]
    rfl
  split
  · rw [readbuf_sendError]
    rfl
  · rw [readbuf_putRequest]
    rfl

lemma readbuf_sendNext (env : ChannelEnv Req) (w : ChannelWorld Req) :
    (sendNext env w).stream.readbuf = w.stream.readbuf := by
  rw [sendNext]
  split
  · rfl
  · exact readbuf_sendToServer env _ _

/-- What `OnMessageRecived` leaves of the call in front, for a response with the body `m`. -/
structure Answered (env : ChannelEnv Req) (w : ChannelWorld Req) (id : ℕ) (status : ℤ) (m : Bytes)
    (s' : RpcChannelImpl Req) : Prop where
  /-- The bytes are a message: the call gets the status. -/
  ok : (m ≠ [] → env.parse m = true) → ∃ cancels,
    s'.log = w.owner.log ++ (if (w.owner.cntl id).done then [.runDone id] else [])
        ++ [.setStatus id status] ++ cancels ∧ ∀ e ∈ cancels, IsCancel e
  /-- They are not. -/
  fail : m ≠ [] → env.parse m = false →
    s'.log.getLast? = some (.setStatus id ErrorCode.serverReqParserFailed.code)

/-- The response is parsed. -/
lemma parseResponse_unread (hr : w.stream.readbuf.Reachable)
    (hlength : w.resheader.getContentLength = w.stream.readbuf.unread.length) :
    parseResponse env w = (decide (w.stream.readbuf.unread ≠ [] →
        env.parse w.stream.readbuf.unread = true),
      w.modifyStream fun s => { s with readbuf :=
        { w.stream.readbuf.beginPacket with readpos := w.stream.readbuf.writepos } }) := by
  have hread : w.stream.readbuf.beginPacket.parseFromZeroCopyStream
      = (w.stream.readbuf.unread,
        { w.stream.readbuf.beginPacket with readpos := w.stream.readbuf.writepos }) :=
    ReadBuffer.parseFromZeroCopyStream_eq (b := w.stream.readbuf.beginPacket) hr.isRing
  have hlength' : (w.modifyStream fun s => { s with readbuf := s.readbuf.beginPacket
      }).resheader.getContentLength = w.stream.readbuf.unread.length := hlength
  rw [parseResponse]
  dsimp only
  rw [hlength']
  by_cases hnil : w.stream.readbuf.unread = []
  · have hempty : w.stream.readbuf.readpos = w.stream.readbuf.writepos := by
      refine (IOBuffer.isEmpty_iff hr.isRing).mpr ?_
      rw [← IOBuffer.length_unread hr.isRing, hnil]
      rfl
    rw [if_neg (by simp [hnil]), ← hempty, decide_eq_true (fun hne => absurd hnil hne)]
    rfl
  · have hpos := List.length_pos_of_ne_nil hnil
    rw [if_pos (by exact_mod_cast hpos)]
    have hstream : (w.modifyStream fun s => { s with readbuf := s.readbuf.beginPacket
      }).stream.readbuf = w.stream.readbuf.beginPacket := rfl
    have hparses : decide (w.stream.readbuf.unread ≠ [] → env.parse w.stream.readbuf.unread = true)
        = env.parse w.stream.readbuf.unread := by
      simp [hnil]
    rw [hstream, hread, hparses]
    rfl

/-- `OnMessageRecived` with a call in front. -/
lemma onMessageRecived_answers (hr : w.stream.readbuf.Reachable)
    (hlength : w.resheader.getContentLength = w.stream.readbuf.unread.length)
    (hd : w.owner.donecall = id :: rest) :
    Answered env w id w.resheader.status w.stream.readbuf.unread (onMessageRecived env w).owner ∧
      (onMessageRecived env w).stream.readbuf
        = { w.stream.readbuf.beginPacket with readpos := w.stream.readbuf.writepos } := by
  have hparse : parseResponse env ((w.modifyStream (·.delReadTimeOutAsync)).modifyOwner fun s =>
        { s with donecall := rest })
      = (decide (w.stream.readbuf.unread ≠ [] → env.parse w.stream.readbuf.unread = true), _) :=
    parseResponse_unread hr hlength
  rw [onMessageRecived]
  simp only [World.owner_modifyStream, hd]
  rw [hparse]
  by_cases hok : w.stream.readbuf.unread ≠ [] → env.parse w.stream.readbuf.unread = true
  · rw [decide_eq_true hok]
    dsimp only
    refine ⟨⟨fun _ => ?_, fun hne hfail => ?_⟩, (readbuf_sendNext env _).trans ?_⟩
    · refine (sendNext_log env _).imp fun cancels hlog => ⟨hlog.1.trans ?_, hlog.2⟩
      split
      · next h =>
        have hdone : (w.owner.cntl id).done = true := h
        rw [if_pos hdone]
        rfl
      · next h =>
        have hdone : ¬ (w.owner.cntl id).done = true := h
        rw [if_neg hdone, List.append_nil]
        rfl
    · rw [hok hne] at hfail
      exact absurd hfail (by simp)
    · split <;> rfl
  · rw [decide_eq_false hok]
    dsimp only
    refine ⟨⟨fun h => absurd h hok, fun _ _ => ?_⟩, rfl⟩
    exact List.getLast?_concat

/-- It is the same for a response that has just been read. -/
lemma onMessageRecived_putResponse (env : ChannelEnv Req) {h : HttpReponseHeader} {rb : ReadBuffer}
    {m : Bytes} (hrb : rb.Reachable) (hunread : rb.unread = m)
    (hlength : h.getContentLength = m.length) (hd : w.owner.donecall = id :: rest) :
    Answered env w id h.status m (onMessageRecived env (putResponse h rb w)).owner ∧
      (onMessageRecived env (putResponse h rb w)).stream.readbuf
        = { rb.beginPacket with readpos := rb.writepos } := by
  subst hunread
  obtain ⟨⟨hok, hfail⟩, hbuf⟩ := @onMessageRecived_answers _ env (putResponse h rb w) id rest
    hrb hlength hd
  exact ⟨⟨hok, hfail⟩, hbuf⟩

/-- `OnRecived` of a channel's stream; `Connect` does not set what is run for an error. -/
def receiver (env : ChannelEnv Req) (error : ErrorCode → ChannelWorld Req → ChannelWorld Req) :
    Receiver (RpcChannelImpl Req) HttpReponseHeader :=
  ConnectStream.receiver ⟨some fun _ => onMessageRecived env, error⟩ rfl

end RpcChannelImpl

/-! ## From the service to the call -/

section

variable {Msg Req Res : Type} {cenv : ChannelEnv Msg} {id : ℕ} {rest : List ℕ}
variable {wc : ChannelWorld Msg} {error : ErrorCode → ChannelWorld Msg → ChannelWorld Msg}
variable {env : ServerEnv Req Res} {ws : ServerWorld Req Res} {request : Req} {response : Res}
variable {m : Bytes} {p : OutPacket} {seq : ℕ} {g : HttpReponseHeader} {chunks : List Bytes}

/-- The response is a message for the client. -/
lemma Packet.isMessage_answer (hseq : seq < 2 ^ 64) (g : HttpReponseHeader)
    (hfits : (answer seq m.length).asText.text.length + m.length + 1
      < maxBufferPieces * defaultBufferSize) :
    (RpcChannelImpl.receiver cenv error).IsMessage g.reset (answer seq m.length).asText.text m
      ((answer seq m.length).asText.wholeRead g) where
  completes :=
    ResponseText.completes_text (HttpReponseHeader.wellFormed_asText (fits_answer hseq)) g
  text_ne := by simp [ResponseText.text]
  start := ParserState.noConfusion
  atEnd it := rfl
  bodyStart it := rfl
  length it := by
    have hmax : maxBufferPieces * defaultBufferSize < 2 ^ 31 := by decide
    exact (wholeRead_answer hseq (by omega) g it).2
  fits := hfits

/-- What happens when the bytes of a response have come. -/
lemma response_arrives (hseq : seq < 2 ^ 64)
    (hw : (RpcChannelImpl.receiver cenv error).AtRest g.reset wc)
    (hd : wc.owner.donecall = id :: rest) (hne : ∀ c ∈ chunks, c ≠ [])
    (hall : chunks.flatten = (Packet.answer seq m.length).asText.text ++ m)
    (hkeep : HttpReponseHeader.parser.KeepsNames g.reset wc.stream.readbuf chunks)
    (hfits : chunks.flatten.length + 1 < maxBufferPieces * defaultBufferSize) :
    (∀ front back, chunks = front ++ back → back ≠ [] →
        ((RpcChannelImpl.receiver cenv error).arrivals wc front).owner = wc.owner) ∧
      RpcChannelImpl.Answered cenv wc id ErrorCode.ok.code m
        ((RpcChannelImpl.receiver cenv error).arrivals wc chunks).owner := by
  rw [hall, List.length_append] at hfits
  have hmessage := @Packet.isMessage_answer _ cenv error m seq hseq g hfits
  have hmax : maxBufferPieces * defaultBufferSize < 2 ^ 31 := by decide
  have hread := @Packet.wholeRead_answer seq m.length hseq (by omega) g
  constructor
  · rintro front back rfl hlast
    obtain ⟨h, rb, hfront⟩ := Receiver.arrivals_front hmessage hw hne hkeep hall hlast
    rw [hfront]
    rfl
  · obtain ⟨it, rb, n, hreach, hunread, heq⟩ := Receiver.arrivals_takes hmessage hw hne hkeep hall
      fun it rb n hrb hunread =>
        (RpcChannelImpl.onMessageRecived_putResponse cenv hrb hunread (hread it).2 hd).2
    rw [heq, ← (hread it).1]
    exact (RpcChannelImpl.onMessageRecived_putResponse cenv hreach hunread (hread it).2 hd).1

/-- When the bytes of a call have come, the method has parsed them, and the write buffer holds the
response. -/
lemma request_answered {method : ServiceMethod Req Res} {m' : Bytes} {p' : OutPacket}
    {h : HttpRequestHeader} (hp : RpcChannelImpl.Sends cenv id wc m p)
    (hname : HttpRequestHeader.Callable (wc.owner.cntl id).method)
    (hseq : cenv.generateSeq < 2 ^ 64)
    (hs : (ServerConnect.receiver env).AtRest h.reset ws) (hpending : ws.owner.pending = [])
    (hmethod : env.getServiceAndMethod (wc.owner.cntl id).method = some method)
    (hparse : method.parse m = some request) (hcall : method.callMethod request = some response)
    (hp' : ServerConnect.Responds env ws.stream.writebuf cenv.generateSeq response m' p')
    (hne : ∀ c ∈ chunks, c ≠ [])
    (hall : chunks.flatten = (RpcChannelImpl.sendToServer cenv id wc).stream.writebuf.gathered
      (RpcChannelImpl.sendToServer cenv id wc).stream.writebuf.writepos)
    (hkeep : HttpRequestHeader.parser.KeepsNames h.reset ws.stream.readbuf chunks)
    (hfits : chunks.flatten.length + 1 < maxBufferPieces * defaultBufferSize) :
    ((ServerConnect.receiver env).arrivals ws chunks).owner.parses = ws.owner.parses ++ [m] ∧
      ((ServerConnect.receiver env).arrivals ws chunks).stream.writebuf = p'.buf := by
  rw [hp.gathered hname hseq (hp.assembled.length_lt.trans (by decide))] at hall
  obtain ⟨-, h', rb, hreach, hunread, hback, heq⟩ :=
    request_arrives hname hseq hs hmethod hne hall hkeep hfits
  have hrecived := ServerConnect.onMessageRecived_called (w := MessageHanders.putRequest h' rb ws)
    hreach hback.path hname.ne hback.getSeq hunread hmethod hparse hcall
  constructor
  · rw [heq]
    exact (served_onMessageRecived hback hname.ne hmethod hreach hunread).parses
  · have hanswers : ServerConnect.Responds env (ServerConnect.called _ m _ request
        response).stream.writebuf _ response m' p' :=
      ServerConnect.Responds.called (w := MessageHanders.putRequest h' rb ws) hp'
    rw [heq, hrecived]
    exact ServerConnect.sendMessage_writebuf hanswers hpending

end

/-! ## One call -/

open ServerConnect in
/-- A service whose messages are any bytes; protobuf leaves the buffer `c` of its answer. -/
def answeringEnv (c : WriteBuffer) : ServerEnv Bytes Unit :=
  { anyEnv with serialize := fun _ _ => (true, c) }

/-- A channel whose call waits for the response. -/
def waitingChannel : ChannelWorld Unit :=
  callingChannel.modifyOwner fun s => { s with donecall := [0] }

/-- The answer has three bytes. -/
lemma exists_answers :
    ∃ c p, ServerConnect.Responds (answeringEnv c) WriteBuffer.init 7 () [4, 5, 6] p := by
  have hlength : OutPacket.textLength (ServerConnect.answerHeader 7).firstLine
      (ServerConnect.answerHeader 7).headers 3 < OutPacket.room 0 := by decide +kernel
  obtain ⟨c, p, hassemble, hassembled⟩ :=
    WriteBuffer.exists_assembled (m := [4, 5, 6]) (by decide) hlength
  exact ⟨c, p, hassemble, hassembled⟩

/-- The chunk that it comes in. -/
lemma ServerConnect.Responds.chunk {c : WriteBuffer} {p : OutPacket}
    (hp : Responds (answeringEnv c) WriteBuffer.init 7 () [4, 5, 6] p) :
    p.buf.gathered p.buf.writepos ≠ [] ∧
      [p.buf.gathered p.buf.writepos].flatten.length + 1 < maxBufferPieces * defaultBufferSize := by
  have hlength : (Packet.answer 7 3).asText.text.length < 1024 := by decide +kernel
  have hlen := congrArg List.length (hp.gathered (by decide) (by decide))
  rw [List.length_append] at hlen
  change _ = (Packet.answer 7 3).asText.text.length + 3 at hlen
  have hsize : 1028 < maxBufferPieces * defaultBufferSize := by decide
  refine ⟨List.ne_nil_of_length_pos (by omega), ?_⟩
  rw [List.flatten_singleton, hlen]
  omega

/-- A connect with the controller of the call. -/
def answeringConnect : ServerWorld Bytes Unit :=
  ServerWorld.init.modifyOwner (·.newCntl { seq := 7 })

lemma atRest_waitingChannel (cenv : ChannelEnv Unit)
    (error : ErrorCode → ChannelWorld Unit → ChannelWorld Unit) :
    (RpcChannelImpl.receiver cenv error).AtRest HttpReponseHeader.init.reset waitingChannel :=
  ⟨ReadBuffer.reachable_init, rfl, rfl⟩

end MTRpc
