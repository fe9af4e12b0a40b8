import MTRpc.Http.HeaderArrival
import MTRpc.Mio.ConnectStream
import MTRpc.Rpc.ReceiveLoop

/-!
# The message that arrives on a stream

A message comes to a stream in chunks, and each chunk is followed by a call of `OnRecived`, that of
a `MessageStream` or that of a `ConnectStream` (`Receiver`).  The calls in front of the last byte
only change the read buffer and the header (`arrivals_waits`), and the last one hands the message
over once, with exactly its body unread (`arrivals_takes`).
-/

namespace MTRpc

open PieceRing (Shape)

variable {σ η : Type}

/-- When all that is unread is taken, the read position has moved over it. -/
lemma ReadBuffer.sub_taken {rb : ReadBuffer} (hrb : rb.Reachable) :
    Iterator.sub ({ rb.beginPacket with readpos := rb.writepos } : ReadBuffer).reset.que
      ({ rb.beginPacket with readpos := rb.writepos } : ReadBuffer).reset.readpos rb.readpos
      = rb.unread.length := by
  have hr := hrb.isRing
  have hmoved : IOBuffer.IsRing pieces
      ({ rb.beginPacket with readpos := rb.writepos } : ReadBuffer).toIOBuffer :=
    ReadBuffer.isRing_readpos hr hr.write_valid
  obtain ⟨hreadpos, hr', -⟩ := ReadBuffer.reset_spec hmoved
  rw [hreadpos, Iterator.sub_eq hr'.toFits hr.read_valid hr.write_valid, IOBuffer.length_unread hr]
  rfl

/-- The distance that `OnRecived` takes for the size of the body, in a buffer that is not full. -/
lemma ReadBuffer.sub_bodyStart {rb : ReadBuffer} {it : Iterator} (hrb : rb.Reachable)
    (hvalid : pieces.Valid it) (hpos : rb.readpos = Iterator.incr rb.que it) (hroomy : Roomy rb) :
    Iterator.sub rb.que rb.writepos it - 1 = rb.unread.length := by
  have ha : AfterHeader { HttpRequestHeader.init with state := .atEnd, bodyStart := it } rb :=
    ⟨hrb, rfl, hvalid, hpos⟩
  have hsize := bodySize_eq (w := (⟨{ Stream.init with readbuf := rb },
    ⟨{ HttpRequestHeader.init with state := .atEnd, bodyStart := it }, .init, ()⟩⟩ :
      World (MessageStream Unit))) ha
  exact hsize.trans (if_pos hroomy)

/-- What a chunk brings is consumed by the parser or is behind its read position. -/
lemma HeaderParser.length_le_of_arrive {P : HeaderParser η} {s : ParserRet × η × ReadBuffer}
    {r' : ParserRet} {h' : η} {rb' : ReadBuffer} {c : Bytes} (hs : s.2.2.Reachable) (hcne : c ≠ [])
    (hfit : s.2.2.unread.length + c.length < pieces.cap) (harrive : P.arrive s c = (r', h', rb')) :
    (c.length : ℤ) ≤ Iterator.sub rb'.que rb'.readpos s.2.2.readpos + rb'.unread.length := by
  obtain ⟨hreach, hunread⟩ := hs.recive hcne hfit
  have hr := hs.isRing
  have hrr := hreach.isRing
  rw [HeaderParser.arrive, HeaderParser.parse_eq _ hrr] at harrive
  have hrb : rb' = ReadBuffer.advance^[_] (s.2.2.recive c) :=
    (Prod.mk.inj (Prod.mk.inj harrive).2).2.symm
  have hr' : rb'.IsRing pieces := by
    rw [hrb]
    exact ReadBuffer.isRing_iterate_advance hrr _
  have hwrite : rb'.writepos = (s.2.2.recive c).writepos := by
    rw [hrb, ReadBuffer.writepos_iterate_advance]
  -- both ways lead to the write position
  have hlength : (s.2.2.recive c).used pieces = s.2.2.unread.length + c.length := by
    rw [← IOBuffer.length_unread hrr, hunread, List.length_append]
  have hends : pieces.next^[rb'.used pieces + pieces.dist s.2.2.readpos rb'.readpos] s.2.2.readpos
      = pieces.next^[s.2.2.unread.length + c.length] s.2.2.readpos := by
    rw [Function.iterate_add_apply, Shape.iterate_dist hr.read_valid hr'.read_valid,
      IOBuffer.iterate_used hr', hwrite, ← hlength]
    exact (IOBuffer.iterate_used hrr).symm
  rw [Iterator.sub_eq hr'.toFits hr.read_valid hr'.read_valid, IOBuffer.length_unread hr']
  by_contra hlt
  have heq := Shape.iterate_inj hr.read_valid (by omega) hfit hends
  omega

/-! ## `OnRecived` -/

/-- An `OnRecived`, as far as one message is concerned that its tests admit: its header parser, the
header object of the stream, and the handler. -/
structure Receiver (σ η : Type) where
  parser : HeaderParser η
  header : World (MessageStream σ) → η
  /-- The stream with another header and another read buffer. -/
  put : η → ReadBuffer → World (MessageStream σ) → World (MessageStream σ)
  bodyStart : η → Iterator
  getContentLength : η → ℤ
  /-- `Reset` on the header. -/
  reset : η → η
  /-- `handerMessageRecived` -/
  run : ℤ → World (MessageStream σ) → World (MessageStream σ)
  onRecived : ℤ → World (MessageStream σ) → World (MessageStream σ)
  put_header : ∀ w, put (header w) w.stream.readbuf w = w
  header_put : ∀ h rb w, header (put h rb w) = h
  readbuf_put : ∀ h rb w, (put h rb w).stream.readbuf = rb
  put_put : ∀ h rb h' rb' w, put h' rb' (put h rb w) = put h' rb' w
  recived_put : ∀ h rb w c, (put h rb w).recived c = put h (rb.recive c) w
  /-- The parser asks for more. -/
  half : ∀ {n h rb h' rb' w}, parser.parse h rb = (.half, h', rb') →
    onRecived n (put h rb w) = put h' rb' w
  /-- Not all of the body is there. -/
  part : ∀ {n h rb h' rb' w} {length : ℕ}, parser.parse h rb = (.finish, h', rb') →
    getContentLength h' = length → length ≤ maxBufferPieces * defaultBufferSize →
    Iterator.sub rb'.que rb'.writepos (bodyStart h') - 1 < length →
    onRecived n (put h rb w) = put h' rb' w
  /-- The handler runs, and nothing is left behind it. -/
  whole : ∀ {n h rb h' rb' w} {length : ℕ}, parser.parse h rb = (.finish, h', rb') →
    getContentLength h' = length → length ≤ maxBufferPieces * defaultBufferSize →
    length ≤ Iterator.sub rb'.que rb'.writepos (bodyStart h') - 1 →
    n - Iterator.sub rb'.que rb'.readpos rb.readpos
      ≤ Iterator.sub (run (n - Iterator.sub rb'.que rb'.readpos rb.readpos)
          (put h' rb' w)).stream.readbuf.reset.que
        (run (n - Iterator.sub rb'.que rb'.readpos rb.readpos)
          (put h' rb' w)).stream.readbuf.reset.readpos rb'.readpos →
    onRecived n (put h rb w) = put
      (reset (header (run (n - Iterator.sub rb'.que rb'.readpos rb.readpos) (put h' rb' w))))
      (run (n - Iterator.sub rb'.que rb'.readpos rb.readpos) (put h' rb' w)).stream.readbuf.reset
      (run (n - Iterator.sub rb'.que rb'.readpos rb.readpos) (put h' rb' w))

namespace Receiver

variable (R : Receiver σ η)

/-- A chunk is received, and `OnRecived` is called. -/
def arrive (w : World (MessageStream σ)) (c : Bytes) : World (MessageStream σ) :=
  R.onRecived c.length (w.recived c)

/-- The calls for a sequence of chunks. -/
def arrivals (w : World (MessageStream σ)) (chunks : List Bytes) : World (MessageStream σ) :=
  chunks.foldl R.arrive w

/-- The read buffer and the header are made ready for the next message. -/
def ready (w : World (MessageStream σ)) : World (MessageStream σ) :=
  R.put (R.reset (R.header w)) w.stream.readbuf.reset w

/-- A message: the text of its header, which the parser reads from `g` on, and its body. -/
structure IsMessage (g : η) (text body : Bytes) (ends : Iterator → η) : Prop where
  completes : R.parser.Completes g text ends
  text_ne : text ≠ []
  start : R.parser.state g ≠ .atEnd
  atEnd : ∀ it, R.parser.state (ends it) = .atEnd
  bodyStart : ∀ it, R.bodyStart (ends it) = it
  length : ∀ it, R.getContentLength (ends it) = body.length
  fits : text.length + body.length + 1 < maxBufferPieces * defaultBufferSize

/-- Between two messages: nothing is unread, and the parser starts from `g`. -/
structure AtRest (g : η) (w : World (MessageStream σ)) : Prop where
  reachable : w.stream.readbuf.Reachable
  isEmpty : w.stream.readbuf.isEmpty
  header : R.header w = g

variable {R} {w : World (MessageStream σ)} {n : ℤ} {g : η} {text body : Bytes}
variable {ends : Iterator → η} {chunks : List Bytes} {c : Bytes}

lemma arrivals_append (front back : List Bytes) :
    R.arrivals w (front ++ back) = R.arrivals (R.arrivals w front) back :=
  List.foldl_append

lemma arrivals_snoc : R.arrivals w (chunks ++ [c]) = R.arrive (R.arrivals w chunks) c :=
  List.foldl_concat ..

lemma arrive_put {h : η} {rb : ReadBuffer} :
    R.arrive (R.put h rb w) c = R.onRecived c.length (R.put h (rb.recive c) w) := by
  rw [arrive, R.recived_put]

/-- What the calls for a part of a message leave. -/
lemma parser_arrivals (hm : R.IsMessage g text body ends) (hw : R.AtRest g w)
    (hne : ∀ c ∈ chunks, c ≠ []) (hkeep : R.parser.KeepsNames g w.stream.readbuf chunks)
    (hpart : chunks.flatten <+: text ++ body) :
    (chunks.flatten.length < text.length →
        HeaderParser.Before (R.parser.arrivals g w.stream.readbuf chunks)) ∧
      (text.length ≤ chunks.flatten.length →
        HeaderParser.Behind ends (chunks.flatten.drop text.length)
          (R.parser.arrivals g w.stream.readbuf chunks)) := by
  have hfits := hm.fits
  have hle := hpart.length_le
  rw [List.length_append] at hle
  obtain ⟨hbefore, hbehind⟩ := HeaderParser.arrivals_spec hm.completes hm.text_ne hm.start hm.atEnd
    hw.reachable hw.isEmpty hne (by rw [cap_pieces]; omega) hkeep hpart
  exact ⟨fun hlt => (hbefore hlt).2, hbehind⟩

/-- Behind the header, the distance to the write position is what has come of the body. -/
lemma bodySize_behind (hm : R.IsMessage g text body ends) {got : Bytes} (hgot : got <+: body)
    {h' : η} {rb' : ReadBuffer} {r' : ParserRet} (hs : HeaderParser.Behind ends got (r', h', rb')) :
    R.getContentLength h' = body.length ∧
      Iterator.sub rb'.que rb'.writepos (R.bodyStart h') - 1 = got.length := by
  obtain ⟨-, hreach, hunread, it, hobj, hvalid, hpos⟩ := hs
  simp only at hreach hunread hobj hpos
  subst hobj
  have hfits := hm.fits
  have hle := hgot.length_le
  have hroomy : Roomy rb' := by
    rw [Roomy, hunread]
    omega
  refine ⟨hm.length it, ?_⟩
  rw [hm.bodyStart it, ReadBuffer.sub_bodyStart hreach hvalid hpos hroomy, hunread]

/-- The read buffer then holds no more than what has come. -/
lemma reachable_arrivals (hm : R.IsMessage g text body ends) (hw : R.AtRest g w)
    (hne : ∀ c ∈ chunks, c ≠ []) (hkeep : R.parser.KeepsNames g w.stream.readbuf chunks)
    (hpart : chunks.flatten <+: text ++ body) :
    (R.parser.arrivals g w.stream.readbuf chunks).2.2.Reachable ∧
      (R.parser.arrivals g w.stream.readbuf chunks).2.2.unread.length ≤ chunks.flatten.length := by
  obtain ⟨hbefore, hbehind⟩ := parser_arrivals hm hw hne hkeep hpart
  rcases Nat.lt_or_ge chunks.flatten.length text.length with hlt | hge
  · obtain ⟨-, hreach, hempty⟩ := hbefore hlt
    refine ⟨hreach, ?_⟩
    rw [IOBuffer.length_unread hreach.isRing, (IOBuffer.isEmpty_iff hreach.isRing).mp hempty]
    exact Nat.zero_le _
  · refine ⟨(hbehind hge).reachable, ?_⟩
    rw [(hbehind hge).unread, List.length_drop]
    exact Nat.sub_le _ _

/-- **A part of a message waits.**  It leaves everything alone but the read buffer and the
header. -/
theorem arrivals_waits (hm : R.IsMessage g text body ends) (hw : R.AtRest g w)
    (hne : ∀ c ∈ chunks, c ≠ []) (hkeep : R.parser.KeepsNames g w.stream.readbuf chunks)
    (hpart : chunks.flatten <+: text ++ body)
    (hlt : chunks.flatten.length < text.length + body.length) :
    R.arrivals w chunks = R.put (R.parser.arrivals g w.stream.readbuf chunks).2.1
      (R.parser.arrivals g w.stream.readbuf chunks).2.2 w := by
  induction chunks using List.reverseRecOn with
  | nil =>
    rw [← hw.header]
    exact (R.put_header w).symm
  | append_singleton chunks c ih =>
    obtain ⟨hbefore, hbehind⟩ := parser_arrivals hm hw hne hkeep hpart
    have hflat : (chunks ++ [c]).flatten = chunks.flatten ++ c := by simp
    have hlen : (chunks.flatten ++ c).length = chunks.flatten.length + c.length :=
      List.length_append
    rw [hflat] at hbefore hbehind hpart hlt
    have hstep := ih (fun d hd => hne d (by simp [hd])) hkeep.of_append
      ((List.prefix_append _ _).trans hpart) (by omega)
    rw [HeaderParser.arrivals_snoc] at hbefore hbehind ⊢
    rw [arrivals_snoc, hstep, arrive_put]
    rcases hparse : R.parser.arrive (R.parser.arrivals g w.stream.readbuf chunks) c
      with ⟨r', h', rb'⟩
    rw [hparse] at hbefore hbehind
    rcases Nat.lt_or_ge (chunks.flatten ++ c).length text.length with hshort | hlong
    · obtain rfl : r' = .half := (hbefore hshort).ret
      exact R.half hparse
    · obtain rfl : r' = .finish := (hbehind hlong).ret
      have hgot : (chunks.flatten ++ c).drop text.length <+: body := by
        obtain ⟨rest, hrest⟩ := hpart
        refine ⟨rest, ?_⟩
        rw [← List.drop_append_of_le_length hlong, hrest, List.drop_left]
      have hfits := hm.fits
      obtain ⟨hlength, hsize⟩ := bodySize_behind hm hgot (hbehind hlong)
      refine R.part hparse hlength (by omega) ?_
      rw [hsize, List.length_drop]
      omega

/-- The chunks in front of others of the message. -/
lemma arrivals_front {front back : List Bytes} (hm : R.IsMessage g text body ends)
    (hw : R.AtRest g w) (hne : ∀ c ∈ front ++ back, c ≠ [])
    (hkeep : R.parser.KeepsNames g w.stream.readbuf (front ++ back))
    (hall : (front ++ back).flatten = text ++ body) (hback : back ≠ []) :
    ∃ h rb, R.arrivals w front = R.put h rb w := by
  obtain ⟨c, back, rfl⟩ := List.exists_cons_of_ne_nil hback
  have hcpos := List.length_pos_of_ne_nil (hne c (by simp))
  rw [List.flatten_append, List.flatten_cons] at hall
  have hlen := congrArg List.length hall
  simp only [List.length_append] at hlen
  exact ⟨_, _, arrivals_waits hm hw (fun d hd => hne d (by simp [hd])) hkeep.of_append
    (hall ▸ List.prefix_append _ _) (by omega)⟩

/-- **A whole message is handed over.**  The handler runs once, with the header as it was read and
exactly the body unread; when it takes all that is unread, `OnRecived` then returns. -/
theorem arrivals_takes (hm : R.IsMessage g text body ends) (hw : R.AtRest g w)
    (hne : ∀ c ∈ chunks, c ≠ []) (hkeep : R.parser.KeepsNames g w.stream.readbuf chunks)
    (hall : chunks.flatten = text ++ body)
    (hreads : ∀ it rb n, rb.Reachable → rb.unread = body →
      (R.run n (R.put (ends it) rb w)).stream.readbuf
        = { rb.beginPacket with readpos := rb.writepos }) :
    ∃ it rb n, rb.Reachable ∧ rb.unread = body ∧
      R.arrivals w chunks = R.ready (R.run n (R.put (ends it) rb w)) := by
  obtain ⟨chunks, c, rfl⟩ : ∃ front c, chunks = front ++ [c] := by
    refine (List.eq_nil_or_concat' chunks).resolve_left ?_
    rintro rfl
    exact hm.text_ne (List.append_eq_nil_iff.mp hall.symm).1
  have hflat : (chunks ++ [c]).flatten = chunks.flatten ++ c := by simp
  have hcne := hne c (by simp)
  have hcpos := List.length_pos_of_ne_nil hcne
  have hpart : (chunks ++ [c]).flatten <+: text ++ body := hall ▸ List.prefix_rfl
  have hfits := hm.fits
  obtain ⟨-, hbehind⟩ := parser_arrivals hm hw hne hkeep hpart
  rw [hflat] at hall hpart hbehind
  have hlen := congrArg List.length hall
  rw [List.length_append, List.length_append] at hlen
  -- the chunks in front of the last one
  have hfront : ∀ d ∈ chunks, d ≠ [] := fun d hd => hne d (by simp [hd])
  have hpart' := (List.prefix_append chunks.flatten c).trans hpart
  have hwaits := arrivals_waits hm hw hfront hkeep.of_append hpart' (by omega)
  obtain ⟨hold, hheld⟩ := reachable_arrivals hm hw hfront hkeep.of_append hpart'
  -- the last one
  have hs := hbehind (by rw [hall, List.length_append]; omega)
  rw [hall, List.drop_left, HeaderParser.arrivals_snoc] at hs
  rcases hparse : R.parser.arrive (R.parser.arrivals g w.stream.readbuf chunks) c
    with ⟨r', h', rb'⟩
  rw [hparse] at hs
  obtain rfl : r' = .finish := hs.ret
  obtain ⟨hlength, hsize⟩ := bodySize_behind hm List.prefix_rfl hs
  have hle := HeaderParser.length_le_of_arrive hold hcne (by rw [cap_pieces]; omega) hparse
  obtain ⟨-, hreach, hunread, it, hobj, -⟩ := hs
  simp only at hreach hunread hobj
  subst hobj
  rw [hunread] at hle
  have hread : (R.parser.arrivals g w.stream.readbuf chunks).2.2.readpos
      = ((R.parser.arrivals g w.stream.readbuf chunks).2.2.recive c).readpos :=
    (ReadBuffer.readpos_recive _ _).symm
  refine ⟨it, rb', c.length - Iterator.sub rb'.que rb'.readpos
    ((R.parser.arrivals g w.stream.readbuf chunks).2.2.recive c).readpos, hreach, hunread, ?_⟩
  rw [arrivals_snoc, hwaits, arrive_put]
  refine R.whole hparse hlength (by omega) (by rw [hsize]) ?_
  -- nothing is left behind the handler
  rw [hreads it rb' _ hreach hunread, ReadBuffer.sub_taken hreach, hunread, ← hread]
  omega

/-- A handler that takes all that is unread leaves the stream at rest. -/
lemma atRest_ready {rb : ReadBuffer} (hrb : rb.Reachable)
    (hreads : w.stream.readbuf = { rb.beginPacket with readpos := rb.writepos }) :
    R.AtRest (R.reset (R.header w)) (R.ready w) where
  reachable := by
    rw [ready, R.readbuf_put, hreads]
    exact hrb.taken.step (o := .reset) rfl
  isEmpty := by
    rw [ready, R.readbuf_put, hreads]
    exact ReadBuffer.isEmpty_reset rfl
  header := R.header_put _ _ _

end Receiver

/-! ## The two streams -/

namespace MessageHanders

variable {h : MessageHanders σ} {run : ℤ → World (MessageStream σ) → World (MessageStream σ)}
variable {w : World (MessageStream σ)} {n : ℤ}

/-- The stream with another header of requests and another read buffer. -/
def putRequest (reqheader : HttpRequestHeader) (rb : ReadBuffer) (w : World (MessageStream σ)) :
    World (MessageStream σ) :=
  { stream := { w.stream with readbuf := rb }, ext := { w.ext with reqheader := reqheader } }

lemma recvPacket_finish {g h' : HttpRequestHeader} {rb rb' : ReadBuffer} {length : ℕ}
    (hparse : HttpRequestHeader.parser.parse g rb = (.finish, h', rb'))
    (hlength : h'.getContentLength = length) (hle : length ≤ maxBufferPieces * defaultBufferSize) :
    h.recvPacket n (putRequest g rb w)
      = if Iterator.sub rb'.que rb'.writepos h'.bodyStart - 1 < length then
          (.inl 0, putRequest h' rb' w)
        else (.inr (n - Iterator.sub rb'.que rb'.readpos rb.readpos), putRequest h' rb' w) := by
  have hparser : (putRequest g rb w).ext.reqheader.parserHeader (putRequest g rb w).stream.readbuf
      = (.finish, h', rb') := hparse
  rw [recvPacket, hparser]
  dsimp only
  rw [hlength, if_neg (by omega)]
  rfl

lemma processPacket_run (hrun : h.handerMessageRecived = some run) {g : HttpRequestHeader}
    {rb : ReadBuffer} :
    h.processPacket n (putRequest g rb w)
      = (n - Iterator.sub (run n (putRequest g rb w)).stream.readbuf.reset.que
            (run n (putRequest g rb w)).stream.readbuf.reset.readpos rb.readpos,
          putRequest (run n (putRequest g rb w)).reqheader.reset
            (run n (putRequest g rb w)).stream.readbuf.reset (run n (putRequest g rb w))) := by
  rw [processPacket, hrun]
  rfl

lemma onRecived_half {g h' : HttpRequestHeader} {rb rb' : ReadBuffer}
    (hparse : HttpRequestHeader.parser.parse g rb = (.half, h', rb')) :
    (h.onRecived n (putRequest g rb w)).2 = putRequest h' rb' w := by
  have hparser : (putRequest g rb w).ext.reqheader.parserHeader (putRequest g rb w).stream.readbuf
      = (.half, h', rb') := hparse
  rw [onRecived, recvLoop, recvPacket, hparser]
  rfl

lemma onRecived_part {g h' : HttpRequestHeader} {rb rb' : ReadBuffer} {length : ℕ}
    (hparse : HttpRequestHeader.parser.parse g rb = (.finish, h', rb'))
    (hlength : h'.getContentLength = length)
    (hle : length ≤ maxBufferPieces * defaultBufferSize)
    (hsub : Iterator.sub rb'.que rb'.writepos h'.bodyStart - 1 < length) :
    (h.onRecived n (putRequest g rb w)).2 = putRequest h' rb' w := by
  rw [onRecived, recvLoop, recvPacket_finish hparse hlength hle, if_pos hsub]

lemma onRecived_whole (hrun : h.handerMessageRecived = some run) {g h' : HttpRequestHeader}
    {rb rb' : ReadBuffer} {length : ℕ}
    (hparse : HttpRequestHeader.parser.parse g rb = (.finish, h', rb'))
    (hlength : h'.getContentLength = length)
    (hle : length ≤ maxBufferPieces * defaultBufferSize)
    (hsub : length ≤ Iterator.sub rb'.que rb'.writepos h'.bodyStart - 1)
    (hleft : n - Iterator.sub rb'.que rb'.readpos rb.readpos
      ≤ Iterator.sub (run (n - Iterator.sub rb'.que rb'.readpos rb.readpos)
          (putRequest h' rb' w)).stream.readbuf.reset.que
        (run (n - Iterator.sub rb'.que rb'.readpos rb.readpos)
          (putRequest h' rb' w)).stream.readbuf.reset.readpos rb'.readpos) :
    (h.onRecived n (putRequest g rb w)).2 = putRequest
      (run (n - Iterator.sub rb'.que rb'.readpos rb.readpos) (putRequest h' rb' w)).reqheader.reset
      (run (n - Iterator.sub rb'.que rb'.readpos rb.readpos)
        (putRequest h' rb' w)).stream.readbuf.reset
      (run (n - Iterator.sub rb'.que rb'.readpos rb.readpos) (putRequest h' rb' w)) := by
  rw [onRecived, recvLoop, recvPacket_finish hparse hlength hle, if_neg (not_lt.mpr hsub)]
  dsimp only
  rw [processPacket_run hrun]
  dsimp only
  rw [if_neg (not_lt.mpr (sub_nonpos.mpr hleft)), ite_self]

/-- `MessageStream::OnRecived` with this handler. -/
def receiver (h : MessageHanders σ) (hrun : h.handerMessageRecived = some run) :
    Receiver σ HttpRequestHeader where
  parser := HttpRequestHeader.parser
  header w := w.reqheader
  put := putRequest
  bodyStart h' := h'.bodyStart
  getContentLength h' := h'.getContentLength
  reset h' := h'.reset
  run := run
  onRecived n w := (h.onRecived n w).2
  put_header _ := rfl
  header_put _ _ _ := rfl
  readbuf_put _ _ _ := rfl
  put_put _ _ _ _ _ := rfl
  recived_put _ _ _ _ := rfl
  half := onRecived_half
  part hparse hlength hle := onRecived_part hparse hlength hle
  whole hparse hlength hle := onRecived_whole hrun hparse hlength hle

end MessageHanders

namespace ConnectStream

variable {h : MessageHanders σ} {run : ℤ → World (MessageStream σ) → World (MessageStream σ)}
variable {w : World (MessageStream σ)} {n : ℤ}

/-- The stream with another header of responses and another read buffer. -/
def putResponse (resheader : HttpReponseHeader) (rb : ReadBuffer) (w : World (MessageStream σ)) :
    World (MessageStream σ) :=
  { stream := { w.stream with readbuf := rb }, ext := { w.ext with resheader := resheader } }

lemma recvPacket_finish {g h' : HttpReponseHeader} {rb rb' : ReadBuffer} {length : ℕ}
    (hparse : HttpReponseHeader.parser.parse g rb = (.finish, h', rb'))
    (hlength : h'.getContentLength = length) :
    recvPacket h n (putResponse g rb w)
      = if Iterator.sub rb'.que rb'.writepos h'.bodyStart - 1 < length then
          (.inl 0, putResponse h' rb' w)
        else (.inr (n - Iterator.sub rb'.que rb'.readpos rb.readpos), putResponse h' rb' w) := by
  have hparser : (putResponse g rb w).ext.resheader.parserHeader
      (putResponse g rb w).stream.readbuf = (.finish, h', rb') := hparse
  rw [recvPacket, hparser]
  dsimp only
  rw [hlength, if_neg (by omega)]
  rfl

lemma processPacket_run (hrun : h.handerMessageRecived = some run) {g : HttpReponseHeader}
    {rb : ReadBuffer} :
    processPacket h n (putResponse g rb w)
      = (n - Iterator.sub (run n (putResponse g rb w)).stream.readbuf.reset.que
            (run n (putResponse g rb w)).stream.readbuf.reset.readpos rb.readpos,
          putResponse (run n (putResponse g rb w)).resheader.reset
            (run n (putResponse g rb w)).stream.readbuf.reset (run n (putResponse g rb w))) := by
  rw [processPacket, hrun]
  rfl

lemma onRecived_half {g h' : HttpReponseHeader} {rb rb' : ReadBuffer}
    (hparse : HttpReponseHeader.parser.parse g rb = (.half, h', rb')) :
    (onRecived h n (putResponse g rb w)).2 = putResponse h' rb' w := by
  have hparser : (putResponse g rb w).ext.resheader.parserHeader (putResponse g rb w).stream.readbuf
      = (.half, h', rb') := hparse
  rw [onRecived, recvLoop, recvPacket, hparser]
  rfl

lemma onRecived_part {g h' : HttpReponseHeader} {rb rb' : ReadBuffer} {length : ℕ}
    (hparse : HttpReponseHeader.parser.parse g rb = (.finish, h', rb'))
    (hlength : h'.getContentLength = length)
    (hsub : Iterator.sub rb'.que rb'.writepos h'.bodyStart - 1 < length) :
    (onRecived h n (putResponse g rb w)).2 = putResponse h' rb' w := by
  rw [onRecived, recvLoop, recvPacket_finish hparse hlength, if_pos hsub]

lemma onRecived_whole (hrun : h.handerMessageRecived = some run) {g h' : HttpReponseHeader}
    {rb rb' : ReadBuffer} {length : ℕ}
    (hparse : HttpReponseHeader.parser.parse g rb = (.finish, h', rb'))
    (hlength : h'.getContentLength = length)
    (hsub : length ≤ Iterator.sub rb'.que rb'.writepos h'.bodyStart - 1)
    (hleft : n - Iterator.sub rb'.que rb'.readpos rb.readpos
      ≤ Iterator.sub (run (n - Iterator.sub rb'.que rb'.readpos rb.readpos)
          (putResponse h' rb' w)).stream.readbuf.reset.que
        (run (n - Iterator.sub rb'.que rb'.readpos rb.readpos)
          (putResponse h' rb' w)).stream.readbuf.reset.readpos rb'.readpos) :
    (onRecived h n (putResponse g rb w)).2 = putResponse
      (run (n - Iterator.sub rb'.que rb'.readpos rb.readpos) (putResponse h' rb' w)).resheader.reset
      (run (n - Iterator.sub rb'.que rb'.readpos rb.readpos)
        (putResponse h' rb' w)).stream.readbuf.reset
      (run (n - Iterator.sub rb'.que rb'.readpos rb.readpos) (putResponse h' rb' w)) := by
  rw [onRecived, recvLoop, recvPacket_finish hparse hlength, if_neg (not_lt.mpr hsub)]
  dsimp only
  rw [processPacket_run hrun]
  dsimp only
  rw [if_neg (not_lt.mpr (sub_nonpos.mpr hleft)), ite_self]

/-- `ConnectStream::OnRecived` with this handler. -/
def receiver (h : MessageHanders σ) (hrun : h.handerMessageRecived = some run) :
    Receiver σ HttpReponseHeader where
  parser := HttpReponseHeader.parser
  header w := w.resheader
  put := putResponse
  bodyStart h' := h'.bodyStart
  getContentLength h' := h'.getContentLength
  reset h' := h'.reset
  run := run
  onRecived n w := (onRecived h n w).2
  put_header _ := rfl
  header_put _ _ _ := rfl
  readbuf_put _ _ _ := rfl
  put_put _ _ _ _ _ := rfl
  recived_put _ _ _ _ := rfl
  half := onRecived_half
  part hparse hlength _ := onRecived_part hparse hlength
  whole hparse hlength _ := onRecived_whole hrun hparse hlength

end ConnectStream

end MTRpc
