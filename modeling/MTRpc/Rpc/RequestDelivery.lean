import MTRpc.Rpc.ChannelRuns
import MTRpc.Rpc.MessageArrival
import MTRpc.Rpc.PacketAssembly
import MTRpc.Rpc.ResponseHeaders
import MTRpc.Rpc.ServerRuns

/-!
# A request on its way to the service

`SendToServer` assembles a packet, the bytes of the packet come to the server in chunks, and each
chunk is followed by a call of `OnRecived`.  The calls in front of the last byte leave the connect
alone, and the last one hands the request over: the method is found by the name that the client
called, the request parser gets the bytes that the client serialised, and the controller has the
number of the call (`request_delivered`).  What it takes is that the packet is assembled, that the
read buffer holds it with a byte to spare, and that no chunk starts inside a header value.  The
connect then waits for the next request, so any number of them can come one after another
(`Incoming.requests_delivered`).
-/

namespace MTRpc

/-! ## The header as it is written and read -/

/-- What is stored for the lines of a map of headers. -/
lemma getElem?_readLines {m : Headers} {n : ℕ} (hlines : ∀ kv ∈ m.toList, LineFits n kv)
    (key : Bytes) :
    (RequestText.readLines 0 ∅ (m.toList.map fun kv => (kv.1, 32 :: (kv.2 ++ [32]))))[key]?
      = m[key]?.map fun v => trim v ++ [32] := by
  have hversion : IsToken [32] HttpReponseHeader.init.version := by decide +kernel
  have hmsg : IsToken [13] HttpReponseHeader.init.statusMsg := by decide +kernel
  have hhead : HttpReponseHeader.init.statusMsg.head? ≠ some 32 := by decide
  have hfits : ({ HttpReponseHeader.init with headers := m } : HttpReponseHeader).Fits :=
    ⟨hversion, Nat.zero_lt_succ _, hmsg, hhead, n, hlines⟩
  exact HttpReponseHeader.readLines_asText hfits key

/-- A piece that has room for a text. -/
lemma exists_room (text : Bytes) : ∃ que : Que, text.length < (que 0).size := by
  refine ⟨IOBuffer.init.que.setSize 0 (text.length + 1), ?_⟩
  rw [Que.size_setSize, if_pos rfl]
  exact Nat.lt_succ_self _

namespace HttpRequestHeader

/-- The header of a request, as it is written. -/
def written (name : Bytes) (seq length : ℕ) : HttpRequestHeader :=
  { init with
    path := ascii "/" ++ name
    headers := ((∅ : Headers).insert HttpHeader.seqKey (decimal seq)).insert
      HttpHeader.contentLengthKey (decimal length) }

variable {name : Bytes} {seq length : ℕ}

lemma lineFits_written (hseq : seq < 2 ^ 64) (hlength : length < 2 ^ 64) :
    ∀ kv ∈ (written name seq length).headers.toList, LineFits 1 kv :=
  Headers.forall_toList_insert
    (lineFits_decimal (by decide +kernel) (by decide) (by decide) hlength)
    (Headers.forall_toList_insert
      (lineFits_decimal (by decide +kernel) (by decide) (by decide) hseq)
      Headers.forall_toList_empty)

/-- Lines without spaces in front of their values. -/
lemma encodable_of_lines {h : HttpRequestHeader} (hmethod : h.method = ascii "POST")
    (hversion : h.version = ascii "HTTP/1.1") (hne : h.path ≠ [])
    (hpath : ∀ c ∈ h.path, c ≠ 32 ∧ c ≠ 13 ∧ c ≠ 0)
    (hlines : ∀ kv ∈ h.headers.toList, LineFits 1 kv) : h.Encodable where
  method := Or.inr hmethod
  path_ne := hne
  path := hpath
  version := by
    rw [hversion]
    decide +kernel
  version_head := by
    rw [hversion]
    decide
  key_ne kv hkv := List.length_pos_iff.mp (hlines kv hkv).key_length
  key kv hkv c hc := by
    have hkey := (hlines kv hkv).key
    have hdelim := hkey.delim c hc
    simp only [List.mem_cons, List.not_mem_nil, or_false, not_or] at hdelim
    exact ⟨hdelim.1, hdelim.2, fun h0 => hkey.noNul (h0 ▸ hc)⟩
  key_head kv hkv := (hlines kv hkv).key_head
  value kv hkv := (hlines kv hkv).value
  value_head kv hkv := by
    have hleads := (hlines kv hkv).value_leads
    intro hhead
    obtain ⟨t, ht⟩ := List.head?_eq_some_iff.mp hhead
    rw [ht, leads] at hleads
    simp at hleads

/-- What `SerializeHeader` prints is the text of the grammar. -/
lemma headerText_eq {h : HttpRequestHeader} (hh : h.Encodable) :
    headerText h.firstLine h.headers = h.asText.text := by
  obtain ⟨que, hroom⟩ := exists_room (headerText h.firstLine h.headers)
  have hret : (h.serializeHeader que ⟨0, 0⟩).1 = 0 :=
    serializeHeader_eq_zero_iff.mpr (by rw [Nat.zero_add]; exact hroom)
  exact (serializeHeader_spec hret).1.symm.trans (textFrom_serializeHeader hh hret)

/-- A name that a client can call. -/
structure Callable (name : Bytes) : Prop where
  ne : name ≠ []
  chars : ∀ c ∈ name, c ≠ 32 ∧ c ≠ 13 ∧ c ≠ 0
  short : name.length + 1 < maxKeyLen

lemma encodable_written (hname : Callable name) (hseq : seq < 2 ^ 64) (hlength : length < 2 ^ 64) :
    (written name seq length).Encodable := by
  refine encodable_of_lines rfl rfl (by simp [written, ascii]) ?_ (lineFits_written hseq hlength)
  intro c hc
  rcases List.mem_append.mp hc with hc | hc
  · rw [List.mem_singleton.mp hc]
    decide
  · exact hname.chars c hc

lemma wellFormed_written (hname : Callable name) (hseq : seq < 2 ^ 64) (hlength : length < 2 ^ 64) :
    (written name seq length).asText.WellFormed := by
  have hversion : (ascii "HTTP/1.1").length < maxKeyLen := by decide
  refine asText_wellFormed (encodable_written hname hseq hlength) ?_ hversion ?_
  · have hshort := hname.short
    change (ascii "/" ++ name).length < maxKeyLen
    rw [List.length_append]
    change 1 + name.length < maxKeyLen
    omega
  · intro kv hkv
    have hfits : LineFits 1 kv := lineFits_written hseq hlength kv hkv
    exact ⟨hfits.key.short, hfits.value_short⟩

/-- The header that is read of it. -/
structure ReadBack (name : Bytes) (seq length : ℕ) (h : HttpRequestHeader) : Prop where
  path : h.path = ascii "/" ++ name
  getSeq : h.getSeq = seq
  getContentLength : h.getContentLength = length

lemma readBack_written (hseq : seq < 2 ^ 64) (hlength : length < 2 ^ 31) (g : HttpRequestHeader)
    (it : Iterator) :
    ReadBack name seq length ((written name seq length).asText.wholeRead g it) := by
  have hlines : ∀ kv ∈ (written name seq length).headers.toList, LineFits 1 kv :=
    lineFits_written hseq (hlength.trans (by decide))
  have hread := getElem?_readLines hlines
  have hspace : ∀ c ∈ ([32] : Bytes).head?, isDigit c = false := by
    rintro c ⟨⟩
    decide +kernel
  have hseqKey : (written name seq length).headers[HttpHeader.seqKey]? = some (decimal seq) := by
    refine (Std.ExtTreeMap.getElem?_insert ..).trans ?_
    rw [if_neg (by decide)]
    exact Std.ExtTreeMap.getElem?_insert_self
  have hlengthKey : (written name seq length).headers[HttpHeader.contentLengthKey]?
      = some (decimal length) := Std.ExtTreeMap.getElem?_insert_self
  have hheaders : ∀ key : Bytes, ((written name seq length).asText.wholeRead g it).headers[key]?
      = (written name seq length).headers[key]?.map fun v => trim v ++ [32] := hread
  refine ⟨rfl, ?_, ?_⟩
  · rw [HttpHeader.getSeq, hheaders, hseqKey, Option.map_some, trim_decimal]
    exact strtoull_decimal hspace (by decide) hseq
  · rw [HttpHeader.getContentLength, hheaders, hlengthKey, Option.map_some, trim_decimal]
    dsimp only
    rw [strtol_decimal hspace (by decide) (hlength.trans (by decide)), toInt32]
    omega

end HttpRequestHeader

/-! ## From the channel to the service -/

lemma OutPacket.Assembled.length_lt {first m : Bytes} {p : OutPacket} (ha : p.Assembled first m) :
    m.length < 2 ^ 32 := by
  have hsize := ha.size
  have hlt := p.size.toNat_lt
  omega

/-- The header of an assembled packet has the length of the message. -/
lemma OutPacket.Assembled.headers_eq {b : WriteBuffer} {first m : Bytes} {headers : Headers}
    {serialize : WriteBuffer → Bool × WriteBuffer} {p : OutPacket} (ha : p.Assembled first m)
    (hp : b.assemble first headers serialize = some p) :
    p.headers = headers.insert HttpHeader.contentLengthKey (decimal m.length) := by
  obtain ⟨-, -, rfl⟩ := WriteBuffer.assemble_eq_some hp
  have hlength := ha.contentLength
  simp only [WriteBuffer.putHeader, Std.ExtTreeMap.getElem?_insert_self, Option.some.injEq]
    at hlength ⊢
  rw [hlength]

namespace RpcChannelImpl

variable {Msg : Type} {cenv : ChannelEnv Msg} {id : ℕ} {wc : ChannelWorld Msg} {p : OutPacket}
variable {m : Bytes}

/-- `SendToServer` has put the request into the write buffer. -/
structure Sends (cenv : ChannelEnv Msg) (id : ℕ) (wc : ChannelWorld Msg) (m : Bytes)
    (p : OutPacket) : Prop where
  assemble : wc.stream.writebuf.assemble (requestHeader cenv id wc).firstLine
    (requestHeader cenv id wc).headers (cenv.serialize (wc.owner.cntl id).request) = some p
  assembled : p.Assembled (requestHeader cenv id wc).firstLine m

/-- The bytes that are sent. -/
lemma Sends.gathered (hp : Sends cenv id wc m p)
    (hname : HttpRequestHeader.Callable (wc.owner.cntl id).method)
    (hseq : cenv.generateSeq < 2 ^ 64) (hlength : m.length < 2 ^ 64) :
    (sendToServer cenv id wc).stream.writebuf.gathered
        (sendToServer cenv id wc).stream.writebuf.writepos
      = (HttpRequestHeader.written (wc.owner.cntl id).method cenv.generateSeq
          m.length).asText.text ++ m := by
  have hheaders := hp.assembled.headers_eq hp.assemble
  rw [(sendToServer_assemble cenv id wc hp.assemble).1, hp.assembled.content, hheaders,
    ← HttpRequestHeader.headerText_eq (HttpRequestHeader.encodable_written hname hseq hlength)]
  rfl

end RpcChannelImpl

/-- `OnRecived` of a connect. -/
def ServerConnect.receiver {Req Res : Type} (env : ServerEnv Req Res) :
    Receiver (ServerConnect Req Res) HttpRequestHeader :=
  (handers env).receiver rfl

namespace HttpRequestHeader

/-- The request is a message for the server. -/
lemma isMessage_written {Req Res : Type} (env : ServerEnv Req Res) {name : Bytes} {seq : ℕ}
    {m : Bytes} (hname : Callable name) (hseq : seq < 2 ^ 64) (g : HttpRequestHeader)
    (hfits : (written name seq m.length).asText.text.length + m.length + 1
      < maxBufferPieces * defaultBufferSize) :
    (ServerConnect.receiver env).IsMessage g.reset (written name seq m.length).asText.text m
      ((written name seq m.length).asText.wholeRead g) where
  completes := by
    have hmax : maxBufferPieces * defaultBufferSize < 2 ^ 64 := by decide
    exact RequestText.completes_text (wellFormed_written hname hseq (by omega)) g
  text_ne := by simp [RequestText.text]
  start := ParserState.noConfusion
  atEnd it := rfl
  bodyStart it := rfl
  length it := by
    have hmax : maxBufferPieces * defaultBufferSize < 2 ^ 31 := by decide
    exact (readBack_written hseq (by omega) g it).getContentLength
  fits := hfits

end HttpRequestHeader

namespace ServerConnect

variable {Req Res : Type} {env : ServerEnv Req Res} {w : ServerWorld Req Res}
variable {method : ServiceMethod Req Res} {name m : Bytes} {seq : ℕ} {request : Req}
  {response : Res}

/-- The read buffer is taken, and the connect has the controller of the call. -/
def called (w : ServerWorld Req Res) (m : Bytes) (seq : ℕ) (request : Req) (response : Res) :
    ServerWorld Req Res :=
  ((w.modifyStream fun s => { s with readbuf :=
      { w.stream.readbuf.beginPacket with readpos := w.stream.readbuf.writepos } }).modifyOwner
    (·.record (.parse m))).modifyOwner fun s =>
      (s.newCntl { seq := seq, messages := some (request, response) }).record
        (.dispatch w.owner.next seq)

/-- A request that the method can answer. -/
lemma onMessageRecived_called (hr : w.stream.readbuf.Reachable)
    (hpath : w.reqheader.path = ascii "/" ++ name) (hne : name ≠ [])
    (hseq : w.reqheader.getSeq = seq) (hunread : w.stream.readbuf.unread = m)
    (hmethod : env.getServiceAndMethod name = some method) (hparse : method.parse m = some request)
    (hcall : method.callMethod request = some response) :
    onMessageRecived env w
      = sendMessage env w.owner.next (some (request, response))
        (called w m seq request response) := by
  have hread : w.stream.readbuf.beginPacket.parseFromZeroCopyStream
      = (w.stream.readbuf.unread,
        { w.stream.readbuf.beginPacket with readpos := w.stream.readbuf.writepos }) :=
    ReadBuffer.parseFromZeroCopyStream_eq (b := w.stream.readbuf.beginPacket) hr.isRing
  have hdrop : w.reqheader.path.drop 1 = name := by
    rw [hpath]
    rfl
  have hlength : 1 < w.reqheader.path.length := by
    have hpos := List.length_pos_of_ne_nil hne
    rw [← hdrop, List.length_drop] at hpos
    omega
  rw [onMessageRecived, if_neg (by omega), hdrop,
    if_neg (by rw [List.length_eq_zero_iff]; exact hne), hmethod]
  dsimp only
  rw [hread, hunread]
  dsimp only
  rw [hparse]
  dsimp only
  rw [hcall]
  dsimp only
  rw [← hseq]
  rfl

/-- The method that the header names parses what is unread. -/
lemma onMessageRecived_readBack {g : HttpRequestHeader} {rb : ReadBuffer} {length : ℕ}
    (hback : HttpRequestHeader.ReadBack name seq length g) (hne : name ≠ [])
    (hmethod : env.getServiceAndMethod name = some method) (hrb : rb.Reachable) :
    (onMessageRecived env (MessageHanders.putRequest g rb w)).owner.parses
        = w.owner.parses ++ [rb.unread] ∧
      (onMessageRecived env (MessageHanders.putRequest g rb w)).stream.readbuf
        = { rb.beginPacket with readpos := rb.writepos } := by
  have hdrop : (MessageHanders.putRequest g rb w).reqheader.path.drop 1 = name := by
    change g.path.drop 1 = name
    rw [hback.path]
    rfl
  have hlength : 1 < (MessageHanders.putRequest g rb w).reqheader.path.length := by
    have hpos := List.length_pos_of_ne_nil hne
    rw [← hdrop, List.length_drop] at hpos
    omega
  exact onMessageRecived_method env hrb.isRing hlength (hdrop ▸ hmethod)

/-- `SendMessage` dispatches nothing. -/
lemma dispatched_sendMessage (id : ℕ) (messages : Option (Req × Res)) (w : ServerWorld Req Res) :
    (sendMessage env id messages w).owner.dispatched = w.owner.dispatched := by
  by_cases hp : w.owner.pending = []
  · exact (sendMessage_packs env id messages hp).2.1
  · rw [sendMessage_waits env id messages hp]
    rfl

/-- What has become of a request: the method has parsed the bytes `m`, and when it could answer,
the answer is dispatched under the number `seq`. -/
structure Served (method : ServiceMethod Req Res) (m : Bytes) (seq : ℕ)
    (s s' : ServerConnect Req Res) : Prop where
  parses : s'.parses = s.parses ++ [m]
  dispatched : ∀ request response, method.parse m = some request →
    method.callMethod request = some response →
      s'.dispatched = s.dispatched ++ [(s.next, seq)]

end ServerConnect

open ServerConnect
open MessageHanders (putRequest)

section

variable {Msg Req Res : Type} {cenv : ChannelEnv Msg} {id : ℕ} {wc : ChannelWorld Msg}
variable {m name : Bytes} {seq : ℕ} {p : OutPacket} {env : ServerEnv Req Res}
variable {ws : ServerWorld Req Res} {g : HttpRequestHeader} {method : ServiceMethod Req Res}
variable {chunks : List Bytes}

/-- What happens when the bytes of a request have come. -/
lemma request_arrives (hname : HttpRequestHeader.Callable name) (hseq : seq < 2 ^ 64)
    (hw : (receiver env).AtRest g.reset ws)
    (hmethod : env.getServiceAndMethod name = some method) (hne : ∀ c ∈ chunks, c ≠ [])
    (hall : chunks.flatten
      = (HttpRequestHeader.written name seq m.length).asText.text ++ m)
    (hkeep : HttpRequestHeader.parser.KeepsNames g.reset ws.stream.readbuf chunks)
    (hfits : chunks.flatten.length + 1 < maxBufferPieces * defaultBufferSize) :
    (∀ front back, chunks = front ++ back → back ≠ [] → ∃ h rb,
        (receiver env).arrivals ws front = putRequest h rb ws) ∧
      ∃ h rb, rb.Reachable ∧ rb.unread = m ∧
        HttpRequestHeader.ReadBack name seq m.length h ∧
        (receiver env).arrivals ws chunks
          = (receiver env).ready (onMessageRecived env (putRequest h rb ws)) := by
  rw [hall, List.length_append] at hfits
  have hrequest := HttpRequestHeader.isMessage_written env hname hseq g hfits
  have hback : ∀ it, HttpRequestHeader.ReadBack name seq m.length
      ((HttpRequestHeader.written name seq m.length).asText.wholeRead g it) := by
    have hmax : maxBufferPieces * defaultBufferSize < 2 ^ 31 := by decide
    exact HttpRequestHeader.readBack_written hseq (by omega) g
  constructor
  · rintro front back rfl hlast
    exact Receiver.arrivals_front hrequest hw hne hkeep hall hlast
  · obtain ⟨it, rb, n, hreach, hunread, heq⟩ := Receiver.arrivals_takes hrequest hw hne hkeep
      hall fun it rb n hrb _ => (onMessageRecived_readBack (hback it) hname.ne hmethod hrb).2
    exact ⟨_, rb, hreach, hunread, hback it, heq⟩

/-- The method gets the request. -/
lemma served_onMessageRecived {h : HttpRequestHeader} {rb : ReadBuffer}
    (hback : HttpRequestHeader.ReadBack name seq m.length h) (hne : name ≠ [])
    (hmethod : env.getServiceAndMethod name = some method) (hreach : rb.Reachable)
    (hunread : rb.unread = m) :
    Served method m seq ws.owner (onMessageRecived env (putRequest h rb ws)).owner := by
  constructor
  · have hparses := (onMessageRecived_readBack (w := ws) hback hne hmethod hreach).1
    rw [hunread] at hparses
    exact hparses
  · intro request response hparse hcall
    have hrecived := onMessageRecived_called (w := putRequest h rb ws) hreach hback.path hne
      hback.getSeq hunread hmethod hparse hcall
    rw [hrecived, dispatched_sendMessage]
    simp [called, dispatched, record, newCntl, putRequest]

end

/-! ## One request after another -/

/-- A request for a server, and the chunks in which it comes. -/
structure Incoming where
  name : Bytes
  seq : ℕ
  body : Bytes
  chunks : List Bytes

namespace Incoming

variable {Req Res : Type} {env : ServerEnv Req Res} {w : ServerWorld Req Res} {r : Incoming}
variable {rs : List Incoming}

/-- The bytes of the request. -/
def text (r : Incoming) : Bytes :=
  (HttpRequestHeader.written r.name r.seq r.body.length).asText.text ++ r.body

/-- A request that a client can send, for a method of the service. -/
structure Sound (env : ServerEnv Req Res) (r : Incoming) : Prop where
  callable : HttpRequestHeader.Callable r.name
  seq_lt : r.seq < 2 ^ 64
  method : ∃ method, env.getServiceAndMethod r.name = some method
  fits : r.text.length + 1 < maxBufferPieces * defaultBufferSize

/-- The method can answer it. -/
def Answerable (env : ServerEnv Req Res) (r : Incoming) : Prop :=
  ∃ method request response, env.getServiceAndMethod r.name = some method ∧
    method.parse r.body = some request ∧ method.callMethod request = some response

/-- The chunks are those of the request, and none starts inside a header value. -/
structure Comes (w : ServerWorld Req Res) (r : Incoming) : Prop where
  ne : ∀ c ∈ r.chunks, c ≠ []
  flatten : r.chunks.flatten = r.text
  keeps : HttpRequestHeader.parser.KeepsNames w.reqheader w.stream.readbuf r.chunks

/-- The requests come one after another. -/
def AllCome (env : ServerEnv Req Res) : ServerWorld Req Res → List Incoming → Prop
  | _, [] => True
  | w, r :: rs => r.Comes w ∧ AllCome env ((receiver env).arrivals w r.chunks) rs

/-- The server waits for a request. -/
def Waits (env : ServerEnv Req Res) (w : ServerWorld Req Res) : Prop :=
  ∃ g : HttpRequestHeader, (receiver env).AtRest g.reset w

/-- One request. -/
lemma arrivals_step (hw : Waits env w) (hr : r.Sound env) (hcomes : r.Comes w) :
    Waits env ((receiver env).arrivals w r.chunks) ∧
      ∀ method, env.getServiceAndMethod r.name = some method →
        Served method r.body r.seq w.owner ((receiver env).arrivals w r.chunks).owner := by
  obtain ⟨g, hg⟩ := hw
  obtain ⟨method, hmethod⟩ := hr.method
  have hheader : w.reqheader = g.reset := hg.header
  obtain ⟨-, h, rb, hreach, hunread, hback, heq⟩ := request_arrives hr.callable hr.seq_lt hg hmethod
    hcomes.ne hcomes.flatten (hheader ▸ hcomes.keeps) (hcomes.flatten ▸ hr.fits)
  rw [heq]
  constructor
  · exact ⟨_, Receiver.atRest_ready hreach
      (onMessageRecived_readBack hback hr.callable.ne hmethod hreach).2⟩
  · intro method' hmethod'
    exact served_onMessageRecived hback hr.callable.ne hmethod' hreach hunread

/-- Requests that come in one chunk each. -/
lemma allCome_of_text (hw : Waits env w) (hrs : ∀ r ∈ rs, r.Sound env ∧ r.chunks = [r.text]) :
    AllCome env w rs := by
  induction rs generalizing w with
  | nil => trivial
  | cons r rs ih =>
    obtain ⟨hr, hchunks⟩ := hrs r List.mem_cons_self
    have hcomes : r.Comes w := by
      obtain ⟨g, hg⟩ := hw
      have hheader : w.reqheader = g.reset := hg.header
      refine ⟨?_, ?_, ?_⟩
      · rw [hchunks]
        refine List.forall_mem_singleton.mpr ?_
        simp [text, RequestText.text]
      · rw [hchunks, List.flatten_singleton]
      · rw [hchunks, hheader]
        exact HeaderParser.keepsNames_singleton ParserState.noConfusion
    exact ⟨hcomes, ih (arrivals_step hw hr hcomes).1 fun q hq =>
      hrs q (List.mem_cons_of_mem _ hq)⟩

/-- A request for `s.m` in one chunk. -/
def one (seq : ℕ) (body : Bytes) : Incoming :=
  let r : Incoming := ⟨ascii "s.m", seq, body, []⟩
  { r with chunks := [r.text] }

lemma sound_one {seq : ℕ} {body : Bytes} (hmethod : ∃ method,
    env.getServiceAndMethod (ascii "s.m") = some method) (hseq : seq < 2 ^ 64)
    (hfits : (one seq body).text.length + 1 < 1024) : (one seq body).Sound env where
  callable := ⟨List.cons_ne_nil _ _,
    show ∀ c ∈ ascii "s.m", c ≠ 32 ∧ c ≠ 13 ∧ c ≠ 0 by decide +kernel,
    show (ascii "s.m").length + 1 < maxKeyLen by decide⟩
  seq_lt := hseq
  method := hmethod
  fits := hfits.trans (by decide)

end Incoming

/-! ## One call -/

/-- A message that fits into the first pieces of a fresh buffer can be serialised there. -/
lemma WriteBuffer.exists_assembled {first m : Bytes} {headers : Headers}
    (hm : m.length < 15 * defaultBufferSize)
    (hlength : OutPacket.textLength first headers m.length < OutPacket.room 0) :
    ∃ c p, init.assemble first headers (fun _ => (true, c)) = some p ∧ p.Assembled first m := by
  obtain ⟨hreserve, hread, hsize, h, q, hstart, hbody, hh, hroom⟩ :=
    hole_bodyBuffer (b := init) rfl (by decide) (by decide)
  obtain ⟨c, n, hserial, hc, hlands, -⟩ :=
    exists_serializes (m := m) hh.toAligned (Or.inl (by rw [hread]; rfl))
  refine ⟨c, c.putHeader first headers ⟨h, q⟩ ⟨(h + 1) % maxBufferPieces, 0⟩, ?_, ?_⟩
  · rw [assemble, if_neg (by simp [hreserve]), if_neg (by simp), hstart, hbody]
  obtain ⟨-, -, hiff, -⟩ | ⟨-, hover, -⟩ | ⟨hmeets, -⟩ :=
    @putHeader_cases init (by decide) first m headers c h q n hread hsize hh hc hlands (Or.inl rfl)
  · exact hiff.mpr (hroom ▸ hlength)
  · exact absurd hover.1 (by decide)
  · exact absurd hmeets.2 (Nat.not_le.mpr hm)

/-- A channel with a call of `s.m`. -/
def callingChannel : ChannelWorld Unit :=
  ChannelWorld.init {} fun _ => { method := ascii "s.m", request := (), done := false }

/-- The number of the call is 7, and protobuf leaves the buffer `c`. -/
def callingEnv (c : WriteBuffer) : ChannelEnv Unit := ⟨fun _ _ => (true, c), fun _ => true, 7⟩

/-- The header of the call. -/
def callHeader : HttpRequestHeader := (HttpRequestHeader.init.reset.setPath (ascii "/s.m")).setSeq 7

/-- Its message has three bytes. -/
lemma exists_sends : ∃ c p, RpcChannelImpl.Sends (callingEnv c) 0 callingChannel [1, 2, 3] p := by
  have hlength : OutPacket.textLength callHeader.firstLine callHeader.headers 3
      < OutPacket.room 0 := by decide +kernel
  obtain ⟨c, p, hassemble, hassembled⟩ :=
    WriteBuffer.exists_assembled (m := [1, 2, 3]) (by decide) hlength
  exact ⟨c, p, hassemble, hassembled⟩

lemma callable_callingChannel :
    HttpRequestHeader.Callable (callingChannel.owner.cntl 0).method :=
  ⟨List.cons_ne_nil _ _, show ∀ c ∈ ascii "s.m", c ≠ 32 ∧ c ≠ 13 ∧ c ≠ 0 by decide +kernel,
    show (ascii "s.m").length + 1 < maxKeyLen by decide⟩

/-- The chunk that the call comes in. -/
lemma RpcChannelImpl.Sends.chunk {b c : WriteBuffer} {p : OutPacket}
    (hp : Sends (callingEnv c) 0 callingChannel [1, 2, 3] p)
    (hb : (sendToServer (callingEnv c) 0 callingChannel).stream.writebuf = b) :
    b.gathered b.writepos ≠ [] ∧
      [b.gathered b.writepos].flatten.length + 1 < maxBufferPieces * defaultBufferSize := by
  have hlength : (HttpRequestHeader.written (ascii "s.m") 7 3).asText.text.length < 1024 := by
    decide +kernel
  have hlen := congrArg List.length
    (hp.gathered callable_callingChannel (show 7 < 2 ^ 64 by decide) (by decide))
  rw [hb, List.length_append] at hlen
  change _ = (HttpRequestHeader.written (ascii "s.m") 7 3).asText.text.length + 3 at hlen
  have hsize : 1028 < maxBufferPieces * defaultBufferSize := by decide
  refine ⟨List.ne_nil_of_length_pos (by omega), ?_⟩
  rw [List.flatten_singleton, hlen]
  omega

end MTRpc
