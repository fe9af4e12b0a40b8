import MTRpc.Http.ResponseRoundTrip
import MTRpc.Rpc.ServerConnect

/-!
# The headers of a server's packets

A `ServerConnect` sends three kinds of packets: responses, lists of services and errors
(`Packet`).  The headers of all of them fit, for every number, status and length, so that a
client reads back what the server has written (`parserHeader_packet`).
-/

namespace MTRpc

/-- What a packet carries: the body of a response or a list of services, or nothing. -/
inductive Packet
  /-- A response of a service with a body of this length. -/
  | response (length : ℕ)
  /-- The list of services. -/
  | list (body : Bytes)
  | error

namespace Packet

/-- The length of the body. -/
def contentLength : Packet → ℕ
  | response length => length
  | list body => body.length
  | error => 0

/-- The header of the packet, built on a header `h` that was used before. -/
def header (k : Packet) (seq status : ℕ) (msg : Bytes) (h : HttpReponseHeader) :
    HttpReponseHeader :=
  let h := (h.reset.setSeq seq).setStatus status msg
  match k with
  | response length =>
      (h.setContentLength length).setHeader (ascii "Content-Type")
        (ascii " application/x-protobuf")
  | list body => ServerConnect.listHeader body h
  | error => h.setContentLength 0

end Packet

/-! ## The packets of the server -/

namespace ServerConnect

variable {Req Res : Type} {w : ServerWorld Req Res}

/-- An error goes out with such a header. -/
lemma onMessageError_header (code : ErrorCode) :
    ∃ seq, (onMessageError code w).resheader
      = Packet.error.header seq code.code code.errorString w.resheader := by
  cases hp : w.owner.pending with
  | nil =>
    refine ⟨0, ?_⟩
    rw [onMessageError, hp]
    rfl
  | cons id rest =>
    refine ⟨(w.owner.cntl id).seq, ?_⟩
    rw [onMessageError, hp]
    rfl

lemma sendError_header (code : ErrorCode) (id : ℕ) :
    ∃ seq, (sendError code id w).resheader
      = Packet.error.header seq code.code code.errorString w.resheader := by
  obtain ⟨seq, h⟩ := onMessageError_header (w := w) code
  exact ⟨seq, by rw [← h]; rfl⟩

/-- So do a response and a list of services: whatever `SendMessage` puts into the write buffer
starts with one of the three headers. -/
theorem sendMessage_header (env : ServerEnv Req Res) (id : ℕ) (messages : Option (Req × Res))
    (hp : w.owner.pending = []) :
    ∃ k seq, ∃ code : ErrorCode, ∃ h, (sendMessage env id messages w).resheader
      = Packet.header k seq code.code code.errorString h := by
  rw [sendMessage, if_neg (by simp [hp]), if_neg (by simp [hp])]
  cases messages with
  | none =>
    dsimp only
    rw [sendList]
    split
    · obtain ⟨seq, h⟩ := sendError_header (w := _) .serverWriebufferFull id
      exact ⟨_, seq, _, _, h⟩
    · exact ⟨.list (w.owner.cntl id).body, (w.owner.cntl id).seq, .ok, w.resheader, rfl⟩
  | some messages =>
    dsimp only
    rw [sendResponse]
    split
    · obtain ⟨seq, h⟩ := sendError_header (w := _) .serverWriebufferFull id
      exact ⟨_, seq, _, _, h⟩
    · dsimp only
      split
      · obtain ⟨seq, h⟩ := sendError_header (w := _) .serverResSeriaFailed id
        exact ⟨_, seq, _, _, h⟩
      · exact ⟨.response _, (w.owner.cntl id).seq, .ok, w.resheader, rfl⟩

end ServerConnect

/-! ## Reading them back -/

/-- The decimal digits of a number, as the value of a header. -/
lemma lineFits_decimal {n k : ℕ} {key : Bytes} (hkey : IsToken [58, 13] key)
    (hhead : key.head? ≠ some 32) (hlen : k + 1 ≤ key.length) (hn : n < 2 ^ 64) :
    LineFits (k + 1) (key, decimal n) := by
  obtain ⟨c, t, ht⟩ := List.exists_cons_of_ne_nil (decimal_ne_nil n)
  have hdigit : ∀ c ∈ decimal n, c ≠ 32 ∧ c ≠ 13 ∧ c ≠ 0 := by
    intro c hc
    have hsp := (notSpace_of_isDigit (isDigit_of_mem_decimal hc)).1
    refine ⟨?_, ?_, ?_⟩
    all_goals
      rintro rfl
      first
        | exact absurd hsp (by decide)
        | exact (notSpace_of_isDigit (isDigit_of_mem_decimal hc)).2.2.2 rfl
  have hshort := length_decimal_le (n := n) (k := 20) (by decide) (by omega)
  have hspace : (decimal n).head? ≠ some 32 :=
    head?_ne_of_notMem fun hc => (hdigit 32 hc).1 rfl
  refine ⟨hkey, hhead, hlen, fun c hc => (hdigit c hc).2, ?_, ?_, ?_⟩
  · exact (Nat.add_le_add_right hshort 2).trans_lt (by decide)
  · rw [(trim_of_head hspace).2]
    exact Nat.succ_pos k
  · intro hb
    have hc : c ∈ decimal n := by simp [ht]
    exact (hdigit c hc).1 (hb c hc)

/-- A fixed header of the server. -/
lemma lineFits_of_decide {n : ℕ} {key value : Bytes}
    (h : IsToken [58, 13] key ∧ key.head? ≠ some 32 ∧ n ≤ key.length ∧
      (∀ c ∈ value, c ≠ 13 ∧ c ≠ 0) ∧ value.length + 2 < maxKeyLen ∧ leads value < n ∧
      ¬ Blank value) : LineFits n (key, value) :=
  ⟨h.1, h.2.1, h.2.2.1, h.2.2.2.1, h.2.2.2.2.1, h.2.2.2.2.2.1, h.2.2.2.2.2.2⟩

namespace Packet

variable {k : Packet} {seq status : ℕ} {msg : Bytes} {h : HttpReponseHeader}

lemma lineFits_seq (hseq : seq < 2 ^ 64) : LineFits 3 (HttpHeader.seqKey, decimal seq) :=
  lineFits_decimal (by decide +kernel) (by decide) (by decide) hseq

lemma lineFits_contentLength (n : ℕ) :
    LineFits 3 (HttpHeader.contentLengthKey, decimal (n % 2 ^ 32)) :=
  lineFits_decimal (by decide +kernel) (by decide) (by decide)
    ((Nat.mod_lt n (by decide)).trans (by decide))

/-- The headers of every packet fit. -/
lemma lineFits_header (hseq : seq < 2 ^ 64) :
    ∀ kv ∈ (k.header seq status msg h).headers.toList, LineFits 3 kv := by
  have hbase : ∀ kv ∈ ((h.reset.setSeq seq).setStatus status msg).headers.toList,
      LineFits 3 kv :=
    Headers.forall_toList_insert (lineFits_seq hseq) Headers.forall_toList_empty
  cases k with
  | response length =>
    refine Headers.forall_toList_insert (lineFits_of_decide (by decide +kernel)) ?_
    exact Headers.forall_toList_insert (lineFits_contentLength length) hbase
  | list body =>
    refine Headers.forall_toList_insert (lineFits_contentLength body.length) ?_
    refine Headers.forall_toList_insert (lineFits_of_decide (by decide +kernel)) ?_
    refine Headers.forall_toList_insert (lineFits_of_decide (by decide +kernel)) ?_
    exact Headers.forall_toList_insert (lineFits_of_decide (by decide +kernel)) hbase
  | error => exact Headers.forall_toList_insert (lineFits_contentLength 0) hbase

lemma fits_header (hseq : seq < 2 ^ 64) (hstatus : status < 2 ^ 32) (hmsg : IsToken [13] msg)
    (hhead : msg.head? ≠ some 32) : (k.header seq status msg h).Fits := by
  have hfields : (k.header seq status msg h).version = ascii "HTTP/1.1" ∧
      (k.header seq status msg h).status = status ∧
      (k.header seq status msg h).statusMsg = msg := by
    cases k <;> exact ⟨rfl, rfl, rfl⟩
  obtain ⟨hversion, hst, hmessage⟩ := hfields
  refine ⟨?_, ?_, ?_, ?_, 3, lineFits_header hseq⟩
  · rw [hversion]
    decide +kernel
  · rwa [hst]
  · rwa [hmessage]
  · rwa [hmessage]

/-- The sequence number and the length in the header of a packet. -/
lemma getElem?_header :
    (k.header seq status msg h).headers[HttpHeader.seqKey]? = some (decimal seq) ∧
      (k.header seq status msg h).headers[HttpHeader.contentLengthKey]?
        = some (decimal (k.contentLength % 2 ^ 32)) := by
  cases k with
  | response length =>
    refine ⟨?_, ?_⟩
    · refine (ServerConnect.seqHeader_setHeader _ _ (by decide)).trans ?_
      exact (ServerConnect.seqHeader_setContentLength _ _).trans
        (ServerConnect.seqHeader_setSeq _ _)
    · refine (Std.ExtTreeMap.getElem?_insert ..).trans ?_
      rw [if_neg (by decide)]
      exact Std.ExtTreeMap.getElem?_insert_self
  | list body =>
    refine ⟨?_, Std.ExtTreeMap.getElem?_insert_self⟩
    exact (ServerConnect.seqHeader_listHeader _ _).trans (ServerConnect.seqHeader_setSeq _ _)
  | error =>
    refine ⟨?_, Std.ExtTreeMap.getElem?_insert_self⟩
    exact (ServerConnect.seqHeader_setContentLength _ _).trans
      (ServerConnect.seqHeader_setSeq _ _)

end Packet

/-- A value comes back as its digits and a space. -/
lemma trim_decimal (n : ℕ) : trim (decimal n) ++ [32] = decimal n ++ [32] := by
  have hspace : (decimal n).head? ≠ some 32 := head?_ne_of_notMem fun hc =>
    absurd (notSpace_of_isDigit (isDigit_of_mem_decimal hc)).1 (by decide)
  rw [(trim_of_head hspace).1]

/-- The client reads a packet with these fields, and the body `body` is left. -/
structure Recovers (seq status : ℕ) (msg : Bytes) (length : ℕ) (body : Bytes)
    (res : ParserRet × HttpReponseHeader × ReadBuffer) : Prop where
  ret : res.1 = .finish
  unread : res.2.2.unread = body
  status : res.2.1.status = status
  statusMsg : res.2.1.statusMsg = msg
  seq : res.2.1.getSeq = seq
  contentLength : res.2.1.getContentLength = length

/-- **A response comes back intact.**  For every kind of packet, what the client's parser reads
from the written header, in one call with a header after `Reset`, are the status and its
message, the sequence number and the length; the read position is at the first byte of the
body. -/
theorem parserHeader_packet (k : Packet) {seq status : ℕ} {msg : Bytes} (hseq : seq < 2 ^ 64)
    (hstatus : status < 2 ^ 32) (hmsg : IsToken [13] msg) (hhead : msg.head? ≠ some 32)
    (hlen : k.contentLength < 2 ^ 31) (h g : HttpReponseHeader) {que : Que} {it : Iterator}
    (hret : ((k.header seq status msg h).serializeHeader que it).1 = 0) {rb : ReadBuffer}
    (hrb : rb.Reachable) {body : Bytes}
    (hunread : rb.unread
      = ((k.header seq status msg h).serializeHeader que it).2.textFrom it ++ body) :
    Recovers seq status msg k.contentLength body (g.reset.parserHeader rb) := by
  have hfits : (k.header seq status msg h).Fits := Packet.fits_header hseq hstatus hmsg hhead
  obtain ⟨hfinish, hst, hmessage, hheaders, hrest⟩ :=
    HttpReponseHeader.parserHeader_serializeHeader hfits hret hrb hunread g
  obtain ⟨hseqKey, hlengthKey⟩ := @Packet.getElem?_header k seq status msg h
  have hspace : ∀ c ∈ ([32] : Bytes).head?, isDigit c = false := by
    rintro c ⟨⟩
    decide +kernel
  refine ⟨hfinish, ?_, hst.trans ?_, hmessage.trans ?_, ?_, ?_⟩
  · rw [hrest, ReadBuffer.unread_iterate_advance hrb.isRing (by rw [hunread]; simp), hunread,
      List.drop_left]
  · cases k <;> rfl
  · cases k <;> rfl
  · rw [HttpHeader.getSeq, hheaders, hseqKey, Option.map_some, trim_decimal]
    exact strtoull_decimal hspace (by decide) hseq
  · rw [HttpHeader.getContentLength, hheaders, hlengthKey, Option.map_some, trim_decimal]
    dsimp only
    rw [Nat.mod_eq_of_lt (by omega), strtol_decimal hspace (by decide) (by omega), toInt32]
    omega

/-- A response of three bytes to the call with the number 7. -/
def smallPacket : HttpReponseHeader :=
  (Packet.response 3).header 7 200 (ascii "OK") .init

/-- It comes back. -/
theorem parserHeader_smallPacket :
    Recovers 7 200 (ascii "OK") 3 [1, 2, 3] (HttpReponseHeader.init.reset.parserHeader
      (ReadBuffer.init.recive (smallPacket.asText.text ++ [1, 2, 3]))) := by
  have hlist : smallPacket.headers.toList
      = [(ascii "Content-Length", ascii "3"),
        (ascii "Content-Type", ascii " application/x-protobuf"), (ascii "Seq", ascii "7")] := rfl
  have hret : (smallPacket.serializeHeader IOBuffer.init.que ⟨0, 0⟩).1 = 0 := by
    refine serializeHeader_eq_zero_iff.mpr ?_
    rw [headerText, hlist]
    decide +kernel
  have hfits : smallPacket.Fits :=
    Packet.fits_header (by decide) (by decide) (by decide +kernel) (by decide)
  have htext : smallPacket.asText.text = ascii "HTTP/1.1 200 OK\r\nContent-Length: 3 \r\n"
      ++ ascii "Content-Type:  application/x-protobuf \r\nSeq: 7 \r\n\r\n" := by
    rw [HttpReponseHeader.asText, hlist]
    decide +kernel
  obtain ⟨hrb, hunread⟩ := ReadBuffer.reachable_recived (smallPacket.asText.text ++ [1, 2, 3])
    (by simp) (by rw [htext]; decide)
  refine parserHeader_packet (.response 3) (by decide) (by decide) (by decide +kernel) (by decide)
    (by decide) .init .init hret hrb (hunread.trans ?_)
  exact congrArg (· ++ [1, 2, 3]) (HttpReponseHeader.textFrom_serializeHeader hfits hret).symm

end MTRpc
