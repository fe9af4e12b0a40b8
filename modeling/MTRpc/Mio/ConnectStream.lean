import MTRpc.Mio.MessageStream

/-!
# Connect streams

A `ConnectStream` is the client's end of a connection, a socket stream on which HTTP responses
arrive.  Its `OnRecived` differs from that of a `MessageStream` in the tests: a negative length is
an error, and a length is not too large.
-/

namespace MTRpc

namespace ConnectStream

variable {σ : Type} (h : MessageHanders σ)

/-- The first half of a round of `OnRecived`, as for a `MessageStream`. -/
def recvPacket (bufferSize : ℤ) (w : World (MessageStream σ)) :
    (ℤ ⊕ ℤ) × World (MessageStream σ) :=
  let beginParser := w.stream.readbuf.readpos
  let (ret, resheader, readbuf) := w.ext.resheader.parserHeader w.stream.readbuf
  let w : World (MessageStream σ) :=
    { stream := { w.stream with readbuf := readbuf }, ext := { w.ext with resheader := resheader } }
  let bufferSize := bufferSize - Iterator.sub readbuf.que readbuf.readpos beginParser
  match ret with
  | .fail => (.inl (-1), h.handerMessageError .httpParserFail w)
  | .half => (.inl 0, w)
  | .overrun => (.inl (-1), w)
  | .finish =>
      if resheader.getContentLength < 0 then
        (.inl (-1), h.handerMessageError .httpReqNolength w)
      else
        let bodySize := Iterator.sub readbuf.que readbuf.writepos resheader.bodyStart - 1
        if bodySize < resheader.getContentLength then (.inl 0, w) else (.inr bufferSize, w)

/-- The second half. -/
def processPacket (bufferSize : ℤ) (w : World (MessageStream σ)) :
    ℤ × World (MessageStream σ) :=
  let beginpacket := w.stream.readbuf.readpos
  let w :=
    match h.handerMessageRecived with
    | none => w
    | some run =>
        let w := run bufferSize w
        { stream := { w.stream with readbuf := w.stream.readbuf.reset }
          ext := { w.ext with resheader := w.ext.resheader.reset } }
  (bufferSize - Iterator.sub w.stream.readbuf.que w.stream.readbuf.readpos beginpacket, w)

/-- The loop of `OnRecived`; the first argument bounds the number of rounds. -/
def recvLoop : ℕ → ℤ → World (MessageStream σ) → ℤ × World (MessageStream σ)
  | 0, _, w => (0, w)
  | fuel + 1, bufferSize, w =>
      match recvPacket h bufferSize w with
      | (.inl ret, w) => (ret, w)
      | (.inr bufferSize, w) =>
          let (bufferSize, w) := processPacket h bufferSize w
          if w.stream.closeWhenEmpty then (0, w)
          else if 0 < bufferSize then recvLoop fuel bufferSize w
          else (0, w)

/-- `OnRecived`.  Every round but the last one consumes a header, and a header is not empty. -/
def onRecived (bufferSize : ℤ) (w : World (MessageStream σ)) : ℤ × World (MessageStream σ) :=
  recvLoop h (w.stream.readbuf.getBufferUsed + 1) bufferSize w

/-! ### What `OnRecived` keeps -/

section

variable {h} {P : World (MessageStream σ) → Prop} {w : World (MessageStream σ)}

lemma keeps_recvPacket (hk : h.Keeps P) (n : ℤ) (hw : P w) : P (recvPacket h n w).2 := by
  rw [recvPacket]
  dsimp only
  have hparsed := hk.parsed w (w.ext.resheader.parserHeader w.stream.readbuf).2.2 w.ext.reqheader
    (w.ext.resheader.parserHeader w.stream.readbuf).2.1 hw
  split
  · exact hk.error _ _ hparsed
  · exact hparsed
  · exact hparsed
  · split
    · exact hk.error _ _ hparsed
    · split <;> exact hparsed

lemma keeps_processPacket (hk : h.Keeps P) (n : ℤ) (hw : P w) : P (processPacket h n w).2 := by
  rw [processPacket]
  cases hrun : h.handerMessageRecived with
  | none => exact hw
  | some f => exact hk.parsed _ _ _ _ (hk.recived f hrun n w hw)

lemma keeps_recvLoop (hk : h.Keeps P) (fuel : ℕ) (n : ℤ) (hw : P w) :
    P (recvLoop h fuel n w).2 := by
  induction fuel generalizing n w with
  | zero => exact hw
  | succ fuel ih =>
    have hpacket := keeps_recvPacket hk n hw
    rw [recvLoop]
    rcases heq : recvPacket h n w with ⟨ret | m, w'⟩ <;> rw [heq] at hpacket
    · exact hpacket
    · have hprocess := keeps_processPacket hk m hpacket
      dsimp only
      split
      · exact hprocess
      · split
        · exact ih _ hprocess
        · exact hprocess

end

/-- The rounds of the loop: the worlds in which they start. -/
def recvRounds : ℕ → ℤ → World (MessageStream σ) → List (World (MessageStream σ))
  | 0, _, _ => []
  | fuel + 1, bufferSize, w =>
      w :: match recvPacket h bufferSize w with
        | (.inl _, _) => []
        | (.inr bufferSize, w) =>
            let (bufferSize, w) := processPacket h bufferSize w
            if w.stream.closeWhenEmpty then []
            else if 0 < bufferSize then recvRounds fuel bufferSize w
            else []

end ConnectStream

/-- A header that `ConnectStream::OnRecived` reports as an error: it cannot be parsed, or its
length is negative. -/
def HttpReponseHeader.Refused (h : HttpReponseHeader) (rb : ReadBuffer) : Prop :=
  (h.parserHeader rb).1 = .fail ∨
    (h.parserHeader rb).1 = .finish ∧ (h.parserHeader rb).2.1.getContentLength < 0

instance (h : HttpReponseHeader) (rb : ReadBuffer) : Decidable (h.Refused rb) :=
  inferInstanceAs (Decidable (_ ∨ _))

/-- The read buffer when the read loop ends. -/
def readInto : List ReadvRet → ReadBuffer → ReadBuffer
  | .data bs _ :: rets, rb =>
      match rb.getReciveBuffer with
      | none => rb
      | some _ => readInto rets (rb.recive bs)
  | _, rb => rb

/-- The world when the read loop ends, before anything is delivered. -/
def World.reads {σ : Type} (rets : List ReadvRet) (w : World σ) : World σ :=
  { w with stream := { w.stream with readbuf := readInto rets w.stream.readbuf } }

/-- What the read loop does with what it has read. -/
lemma StreamClass.readLoop_toWorld {σ : Type} (c : StreamClass σ) (rets : List ReadvRet) (n : ℕ)
    (d : Dispatch σ) :
    (c.readLoop rets n d).2.toWorld =
      match (readRounds rets d.stream.readbuf).2 with
      | .full => c.handerMessageError .serverReadbufferFull (d.toWorld.reads rets)
      | .closed => d.toWorld.reads rets
      | .wouldBlock =>
          let size := toInt32 (n + (readRounds rets d.stream.readbuf).1.sum : ℕ)
          if 0 < size then c.onRecived size (d.toWorld.reads rets) else d.toWorld.reads rets := by
  have hdeliver : ∀ (n : ℕ) (d : Dispatch σ), (c.deliver n d).toWorld =
      if 0 < toInt32 n then c.onRecived (toInt32 n) d.toWorld else d.toWorld := by
    intro n d
    rw [StreamClass.deliver]
    split
    · rfl
    · rfl
  induction rets generalizing n d with
  | nil =>
    rw [StreamClass.readLoop.eq_def, readRounds.eq_def]
    dsimp only
    cases hg : d.stream.readbuf.getReciveBuffer with
    | none => rfl
    | some iov => exact hdeliver n d
  | cons ret rets ih =>
    rw [StreamClass.readLoop.eq_def, readRounds.eq_def]
    dsimp only
    cases hg : d.stream.readbuf.getReciveBuffer with
    | none =>
      have hsame : readInto (ret :: rets) d.stream.readbuf = d.stream.readbuf := by
        cases ret <;> simp [readInto, hg]
      rw [World.reads, hsame]
      rfl
    | some iov =>
      cases ret with
      | data bs ne =>
        have hreads : d.toWorld.reads (.data bs ne :: rets)
            = (d.modify fun s => { s with readbuf := s.readbuf.recive bs }).toWorld.reads rets := by
          simp only [World.reads, readInto, hg, Dispatch.modify, Dispatch.run]
        rw [hreads]
        simp only [List.sum_cons, ← Nat.add_assoc]
        exact ih _ _
      | again => exact hdeliver n d
      | eof => rfl
      | error => rfl

end MTRpc
