import MTRpc.Rpc.RequestBoundary

/-!
# When a request is dispatched

The bytes of a request come in chunks, each followed by a call of `OnRecived`, and the call with
the last byte of the body should take the request.  `Arriving` is a request that waits, with the
number of bytes that have come behind its header.

`OnRecived` compares `Content-Length` as an `int`, so that a length from `2 ^ 31` on can look
small or negative; it admits a length of as many bytes as the ring has, which the ring does not
hold; and it takes a buffer with one free byte left for one without a body.
`dispatch_exact_iff` says that there is nothing else, as long as no chunk fills the ring up.
-/

namespace MTRpc

open PieceRing (Shape)

/-! ## The announced length -/

/-- A decimal number with white space around it. -/
def IsDecimal (v : Bytes) (length : ℕ) : Prop :=
  ∃ s ds u, v = s ++ (ds ++ u) ∧ (∀ c ∈ s ++ u, isSpace c = true) ∧ ds ≠ [] ∧
    (∀ c ∈ ds, isDigit c = true) ∧ digitsValue ds = length

lemma isDecimal_digitsValue {ds : Bytes} (hne : ds ≠ []) (hds : ∀ c ∈ ds, isDigit c = true) :
    IsDecimal ds (digitsValue ds) :=
  ⟨[], ds, [], (List.append_nil _).symm, by simp, hne, hds, rfl⟩

lemma notDigit_of_isSpace {c : UInt8} (h : isSpace c = true) : isDigit c = false ∧ c ≠ 0 := by
  constructor
  · by_contra hd
    rw [(notSpace_of_isDigit (by simpa using hd)).1] at h
    exact Bool.false_ne_true h
  · rintro rfl
    exact absurd h (by decide)

/-- `strtol` reads a decimal number, up to the largest `long`. -/
lemma strtol_isDecimal {v : Bytes} {length : ℕ} (h : IsDecimal v length) :
    strtol v = min (length : ℤ) (2 ^ 63 - 1) := by
  obtain ⟨s, ds, u, rfl, hspace, hne, hds, rfl⟩ := h
  have hs : ∀ c ∈ s, isSpace c = true := fun c hc => hspace c (List.mem_append_left _ hc)
  have hu : ∀ c ∈ u, isSpace c = true := fun c hc => hspace c (List.mem_append_right _ hc)
  have hcstr : cstr (s ++ (ds ++ u)) = s ++ (ds ++ u) := by
    rw [cstr, List.takeWhile_eq_self_iff]
    intro c hc
    simp only [List.mem_append] at hc
    rcases hc with hc | hc | hc
    · simpa using (notDigit_of_isSpace (hs c hc)).2
    · simpa using (notSpace_of_isDigit (hds c hc)).2.2.2
    · simpa using (notDigit_of_isSpace (hu c hc)).2
  have hsign : splitSign (s ++ (ds ++ u)) = (false, ds ++ u) := by
    obtain ⟨c, t, rfl⟩ := List.exists_cons_of_ne_nil hne
    obtain ⟨hc, hminus, hplus, -⟩ := notSpace_of_isDigit (hds c (by simp))
    rw [splitSign, List.dropWhile_append_of_pos hs, List.cons_append,
      List.dropWhile_cons_of_neg (by simp [hc])]
    split
    · rename_i heq
      exact absurd (List.cons.inj heq).1 hminus
    · rename_i heq
      exact absurd (List.cons.inj heq).1 hplus
    · rfl
  have hvalue : digitsValue (ds ++ u) = digitsValue ds := by
    rw [digitsValue, digitsValue, List.takeWhile_append_of_pos hds,
      List.takeWhile_eq_self_iff.mpr hds]
    cases u with
    | nil => simp
    | cons c u => simp [(notDigit_of_isSpace (hu c (by simp))).1]
  rw [strtol, hcstr, hsign]
  simp only [hvalue]
  rfl

namespace HttpRequestHeader

/-- The length of the body that a header announces. -/
def Announces (h : HttpRequestHeader) (length : ℕ) : Prop :=
  match h.headers[HttpHeader.contentLengthKey]? with
  | none => length = 0
  | some v => IsDecimal v length

/-- The length as an `int`. -/
lemma getContentLength_announces {h : HttpRequestHeader} {length : ℕ} (ha : h.Announces length) :
    h.getContentLength = toInt32 (min (length : ℤ) (2 ^ 63 - 1)) := by
  rw [Announces] at ha
  rw [HttpHeader.getContentLength]
  rcases hv : h.headers[HttpHeader.contentLengthKey]? with - | v
  · simp only [hv] at ha ⊢
    rw [ha]
    rfl
  · simp only [hv] at ha ⊢
    exact congrArg toInt32 (strtol_isDecimal ha)

/-- A length above the admitted maximum that is also above it as an `int`. -/
def SeenTooLong (length : ℕ) : Prop :=
  length < 2 ^ 63 ∧ maxBufferPieces * defaultBufferSize < length % 2 ^ 32 ∧
    length % 2 ^ 32 < 2 ^ 31

lemma getContentLength_admitted {h : HttpRequestHeader} {length : ℕ} (ha : h.Announces length)
    (hle : length ≤ maxBufferPieces * defaultBufferSize) : h.getContentLength = length := by
  have hmax : maxBufferPieces * defaultBufferSize = 8388608 := rfl
  rw [getContentLength_announces ha, toInt32]
  omega

lemma tooLong_iff {h : HttpRequestHeader} {length : ℕ} (ha : h.Announces length)
    (hlt : maxBufferPieces * defaultBufferSize < length) :
    ((maxBufferPieces * defaultBufferSize : ℕ) : ℤ) < h.getContentLength ↔ SeenTooLong length := by
  have hmax : maxBufferPieces * defaultBufferSize = 8388608 := rfl
  rw [getContentLength_announces ha, toInt32, SeenTooLong]
  omega

end HttpRequestHeader

/-! ## Calls of `OnRecived` -/

variable {σ : Type}

namespace World

variable (w : World (MessageStream σ))

/-- Bytes have been received. -/
def recived (bs : Bytes) : World (MessageStream σ) :=
  { w with stream := { w.stream with readbuf := w.stream.readbuf.recive bs } }

/-- What the header parser leaves. -/
def parsed : World (MessageStream σ) :=
  { stream := { w.stream with readbuf := (w.reqheader.parserHeader w.stream.readbuf).2.2 }
    ext := { w.ext with reqheader := (w.reqheader.parserHeader w.stream.readbuf).2.1 } }

/-- The header is there. -/
def HeaderDone : Prop := (w.reqheader.parserHeader w.stream.readbuf).1 = .finish

end World

namespace MessageHanders

variable (h : MessageHanders σ)

/-- `OnRecived` takes the request at the front of the buffer. -/
def Dispatches (bufferSize : ℤ) (w : World (MessageStream σ)) : Prop :=
  (h.recvPacket bufferSize w).1.isRight = true

/-- `OnRecived` reports that the request is too long. -/
def Refuses (bufferSize : ℤ) (w : World (MessageStream σ)) : Prop :=
  h.recvPacket bufferSize w = (.inl (-1), h.handerMessageError .httpRequestOverflow w.parsed)

/-- A call that takes no request ends with the first half of the first round. -/
lemma onRecived_waits {bufferSize ret : ℤ} {w w' : World (MessageStream σ)}
    (hp : h.recvPacket bufferSize w = (.inl ret, w')) : h.onRecived bufferSize w = (ret, w') := by
  rw [onRecived, recvLoop, hp]

end MessageHanders

/-- A request whose bytes come in chunks. -/
structure Arriving (σ : Type) where
  world : World (MessageStream σ)
  /-- The number of bytes that have come and that the header parser has not consumed. -/
  arrived : ℕ
  /-- The request has neither been taken nor been refused. -/
  waiting : Bool

namespace Arriving

/-- A request whose header is not complete. -/
def start (w : World (MessageStream σ)) : Arriving σ := ⟨w, w.stream.readbuf.unread.length, true⟩

variable (h : MessageHanders σ) (s : Arriving σ) (bs : Bytes)

/-- A chunk and a call of `OnRecived`. -/
def onRecived : Arriving σ :=
  let w := s.world.recived bs
  { world := (h.onRecived bs.length w).2
    arrived := s.arrived + bs.length -
      (w.stream.readbuf.unread.length - w.parsed.stream.readbuf.unread.length)
    waiting := decide ((h.recvPacket bs.length w).1 = .inl 0) }

/-- A chunk comes that `readv` can store. -/
def Step (s : Arriving σ) (bs : Bytes) (s' : Arriving σ) : Prop :=
  s.waiting = true ∧ s.world.stream.readbuf.Step (.recive bs) (s.world.stream.readbuf.recive bs) ∧
    s' = s.onRecived h bs

/-- The call does what it should: without a complete header nothing is taken; a request that is
too long is refused; and another one is taken when its body is there, and when it is not taken,
what is missing of it can come. -/
structure Exact : Prop where
  header : ¬ (s.world.recived bs).HeaderDone → ¬ h.Dispatches bs.length (s.world.recived bs)
  tooLong : (s.world.recived bs).HeaderDone →
    ∀ length, (s.world.recived bs).parsed.reqheader.Announces length →
      maxBufferPieces * defaultBufferSize < length → h.Refuses bs.length (s.world.recived bs)
  admitted : (s.world.recived bs).HeaderDone →
    ∀ length, (s.world.recived bs).parsed.reqheader.Announces length →
      length ≤ maxBufferPieces * defaultBufferSize →
      (h.Dispatches bs.length (s.world.recived bs) ↔ length ≤ (s.onRecived h bs).arrived) ∧
      (¬ h.Dispatches bs.length (s.world.recived bs) →
        (s.world.recived bs).parsed.stream.readbuf.unread.length
          + (length - (s.onRecived h bs).arrived) < maxBufferPieces * defaultBufferSize)

/-- The chunk does not fill the ring up. -/
def Fits (s : Arriving σ) (bs : Bytes) : Prop :=
  s.world.stream.readbuf.unread.length + bs.length < maxBufferPieces * defaultBufferSize

/-- The length is one that the ring holds, and there is a free byte besides the one that is
always kept free; or the length is seen to be too long. -/
def Countable (s : Arriving σ) (bs : Bytes) : Prop :=
  (s.world.recived bs).HeaderDone →
    ∀ length, (s.world.recived bs).parsed.reqheader.Announces length →
      length < maxBufferPieces * defaultBufferSize ∧
        Roomy (s.world.recived bs).parsed.stream.readbuf ∨
      maxBufferPieces * defaultBufferSize < length ∧ HttpRequestHeader.SeenTooLong length

end Arriving

/-! ## The first half of a round -/

namespace HttpRequestHeader

/-- The parser consumes bytes, and asks for more only in front of the end of a header. -/
lemma parserLoop_spec {fuel : ℕ} {h : HttpRequestHeader} {l : ParserLocals} {b : ReadBuffer}
    (hb : b.Reachable) :
    (parserLoop step (·.state) fuel h l b).2.2.Reachable ∧
      (parserLoop step (·.state) fuel h l b).2.2.used pieces ≤ b.used pieces ∧
      ((parserLoop step (·.state) fuel h l b).1 = .half →
        (parserLoop step (·.state) fuel h l b).2.1.state ≠ .atEnd) := by
  have hret : ∀ h : HttpRequestHeader,
      (if h.state = .atEnd then ParserRet.finish else .half) = .half → h.state ≠ .atEnd := by
    intro h hhalf
    split at hhalf
    · exact absurd hhalf (by decide)
    · assumption
  induction fuel generalizing h l b with
  | zero => exact ⟨hb, le_rfl, hret h⟩
  | succ fuel ih =>
    rw [parserLoop]
    by_cases hstop : b.isEmpty ∨ h.state = .atEnd
    · rw [if_pos hstop]
      exact ⟨hb, le_rfl, hret h⟩
    · rw [if_neg hstop]
      cases ho : h.step l (b.readpos, b.que.load b.readpos) with
      | stop r h₁ =>
        refine ⟨hb, le_rfl, ?_⟩
        intro hhalf
        change r = .half at hhalf
        exact absurd hhalf
          (parser.machine.step_ne_half h l (b.readpos, b.que.load b.readpos) r h₁ ho)
      | go h₁ l₁ =>
        have hempty : ¬ b.isEmpty := fun hempty => hstop (Or.inl hempty)
        obtain ⟨hreach, hused, hhalf⟩ := @ih h₁ l₁ _
          (@ReadBuffer.Reachable.step _ _ .advance hb ⟨hempty, rfl⟩)
        obtain ⟨k, hk⟩ : ∃ k, b.used pieces = k + 1 := by
          refine Nat.exists_eq_succ_of_ne_zero fun hzero => hempty ?_
          exact (IOBuffer.isEmpty_iff hb.isRing).mpr hzero
        refine ⟨hreach, hused.trans ?_, hhalf⟩
        rw [ReadBuffer.used_advance hb.isRing hk, hk]
        exact Nat.le_succ k

end HttpRequestHeader

/-- The buffer is a ring, and a complete header ends at its read position. -/
structure BetweenCalls (w : World (MessageStream σ)) : Prop where
  reachable : w.stream.readbuf.Reachable
  header : w.reqheader.state = .atEnd → AfterHeader w.reqheader w.stream.readbuf

section

variable {w : World (MessageStream σ)} {bs : Bytes}

/-- Receiving leaves a complete header alone. -/
lemma BetweenCalls.recived (hw : BetweenCalls w)
    (hst : w.stream.readbuf.Step (.recive bs) (w.stream.readbuf.recive bs)) :
    BetweenCalls (w.recived bs) := by
  have hnext := hw.reachable.step hst
  refine ⟨hnext, ?_⟩
  intro hend
  have ha := hw.header hend
  refine ⟨hnext, ha.state, ha.bodyStart, ?_⟩
  have hbefore := Iterator.incr_eq hw.reachable.isRing.toFits ha.bodyStart
  have hafter := Iterator.incr_eq hnext.isRing.toFits ha.bodyStart
  exact ha.readpos.trans (hbefore.trans hafter.symm)

/-- What the parser leaves. -/
lemma BetweenCalls.parsed (hw : BetweenCalls w) :
    w.parsed.stream.readbuf.Reachable ∧
      w.parsed.stream.readbuf.unread.length ≤ w.stream.readbuf.unread.length ∧
      (w.HeaderDone → AfterHeader w.parsed.reqheader w.parsed.stream.readbuf) ∧
      ((w.reqheader.parserHeader w.stream.readbuf).1 = .half →
        w.parsed.reqheader.state ≠ .atEnd) := by
  have hr := hw.reachable.isRing
  by_cases hend : w.reqheader.state = .atEnd
  · have hsame : w.reqheader.parserHeader w.stream.readbuf
        = (.finish, w.reqheader, w.stream.readbuf) := HttpRequestHeader.parserLoop_atEnd hend _ _ _
    have hparsed : w.parsed = w := by rw [World.parsed, hsame]
    rw [hparsed, hsame]
    exact ⟨hw.reachable, le_rfl, fun _ => hw.header hend, fun hhalf => ParserRet.noConfusion hhalf⟩
  · obtain ⟨hreach, hused, hhalf⟩ : w.parsed.stream.readbuf.Reachable ∧
        w.parsed.stream.readbuf.used pieces ≤ w.stream.readbuf.used pieces ∧
        ((w.reqheader.parserHeader w.stream.readbuf).1 = .half →
          w.parsed.reqheader.state ≠ .atEnd) :=
      HttpRequestHeader.parserLoop_spec hw.reachable
    refine ⟨hreach, ?_, ?_, hhalf⟩
    · rwa [IOBuffer.length_unread hr, IOBuffer.length_unread hreach.isRing]
    · intro hdone
      exact HttpRequestHeader.parserHeader_finish hw.reachable hend (Prod.ext hdone rfl)

variable {h : MessageHanders σ} {n : ℤ}

/-- The cases of the first half of a round. -/
lemma recvPacket_cases (h : MessageHanders σ) (n : ℤ) (w : World (MessageStream σ)) :
    (¬ w.HeaderDone ∧ ¬ h.Dispatches n w ∧
      ((h.recvPacket n w).1 = .inl 0 → (w.reqheader.parserHeader w.stream.readbuf).1 = .half ∧
        (h.recvPacket n w).2 = w.parsed)) ∨
    w.HeaderDone ∧ ∃ left, h.recvPacket n w =
      if (maxBufferPieces * defaultBufferSize : ℕ) < w.parsed.reqheader.getContentLength then
        (.inl (-1), h.handerMessageError .httpRequestOverflow w.parsed)
      else if Iterator.sub w.parsed.stream.readbuf.que w.parsed.stream.readbuf.writepos
          w.parsed.reqheader.bodyStart - 1 < w.parsed.reqheader.getContentLength then
        (.inl 0, w.parsed)
      else (.inr left, w.parsed) := by
  rw [MessageHanders.Dispatches, MessageHanders.recvPacket, World.HeaderDone, World.parsed]
  rcases hp : w.reqheader.parserHeader w.stream.readbuf with ⟨ret, h', b'⟩
  cases ret with
  | fail => exact Or.inl ⟨by simp, by simp, by simp⟩
  | half => exact Or.inl ⟨by simp, by simp, fun _ => ⟨rfl, rfl⟩⟩
  | overrun => exact Or.inl ⟨by simp, by simp, by simp⟩
  | finish => exact Or.inr ⟨rfl, _, rfl⟩

/-- When a request with an admitted length is taken. -/
lemma dispatches_iff (hw : BetweenCalls w) (hdone : w.HeaderDone) {length : ℕ}
    (ha : w.parsed.reqheader.Announces length)
    (hle : length ≤ maxBufferPieces * defaultBufferSize) :
    h.Dispatches n w ↔
      Roomy w.parsed.stream.readbuf ∧ length ≤ w.parsed.stream.readbuf.unread.length := by
  obtain ⟨-, -, hafter, -⟩ := hw.parsed
  have hsize := bodySize_eq (hafter hdone)
  have hlength := HttpRequestHeader.getContentLength_admitted ha hle
  rcases recvPacket_cases h n w with ⟨hnot, -⟩ | ⟨-, left, heq⟩
  · exact absurd hdone hnot
  rw [MessageHanders.Dispatches, heq, hlength, if_neg (by exact_mod_cast hle.not_gt), hsize]
  by_cases hroom : Roomy w.parsed.stream.readbuf
  · rw [if_pos hroom]
    by_cases hall : length ≤ w.parsed.stream.readbuf.unread.length
    · rw [if_neg (by exact_mod_cast hall.not_gt)]
      simp [hroom, hall]
    · rw [if_pos (by exact_mod_cast not_le.mp hall)]
      simp [hall]
  · rw [if_neg hroom, if_pos (by omega)]
    simp [hroom]

/-- When a request that is too long is refused. -/
lemma refuses_iff (hdone : w.HeaderDone) {length : ℕ}
    (ha : w.parsed.reqheader.Announces length)
    (hlt : maxBufferPieces * defaultBufferSize < length) :
    h.Refuses n w ↔ HttpRequestHeader.SeenTooLong length := by
  rcases recvPacket_cases h n w with ⟨hnot, -⟩ | ⟨-, left, heq⟩
  · exact absurd hdone hnot
  rw [MessageHanders.Refuses, heq, ← HttpRequestHeader.tooLong_iff ha hlt]
  by_cases hlong : (maxBufferPieces * defaultBufferSize : ℕ) < w.parsed.reqheader.getContentLength
  · rw [if_pos hlong]
    exact iff_of_true rfl hlong
  · rw [if_neg hlong]
    refine iff_of_false (fun heq => ?_) hlong
    split at heq
    · simp at heq
    · simp at heq

end

namespace Arriving

variable {h : MessageHanders σ} {s s' : Arriving σ} {bs : Bytes}

/-- The invariant: while the request waits, its buffer is in order, and has all that came. -/
def Inv (s : Arriving σ) : Prop :=
  s.waiting = true →
    BetweenCalls s.world ∧ s.arrived = s.world.stream.readbuf.unread.length

lemma inv_start {w : World (MessageStream σ)} (hb : w.stream.readbuf.Reachable)
    (hstate : w.reqheader.state ≠ .atEnd) : (start w).Inv :=
  fun _ => ⟨⟨hb, fun hend => absurd hend hstate⟩, rfl⟩

/-- What came stays in the buffer until the parser consumes it. -/
lemma arrived_onRecived (hinv : s.Inv) (hfits : s.Fits bs) (hst : s.Step h bs s') :
    (s.onRecived h bs).arrived = (s.world.recived bs).parsed.stream.readbuf.unread.length := by
  obtain ⟨hwait, hrecive, -⟩ := hst
  obtain ⟨hw, harrived⟩ := hinv hwait
  have hr := hw.reachable.isRing
  have hoffer := hrecive
  obtain ⟨iov, hiov, -⟩ := hoffer
  have hlen : (s.world.recived bs).stream.readbuf.unread.length
      = s.world.stream.readbuf.unread.length + bs.length := by
    rw [Fits, IOBuffer.length_unread hr, ← cap_pieces] at hfits
    exact (congrArg List.length (IOBuffer.recive_spec hr hiov hfits).2).trans List.length_append
  obtain ⟨-, hle, -⟩ := (hw.recived hrecive).parsed
  change s.arrived + bs.length - ((s.world.recived bs).stream.readbuf.unread.length
    - (s.world.recived bs).parsed.stream.readbuf.unread.length) = _
  omega

lemma inv_step (hinv : s.Inv) (hfits : s.Fits bs) (hst : s.Step h bs s') : s'.Inv := by
  have harrived := arrived_onRecived hinv hfits hst
  obtain ⟨hwait, hrecive, rfl⟩ := hst
  have hw := ((hinv hwait).1).recived hrecive
  obtain ⟨hreach, -, hafter, hhalf⟩ := hw.parsed
  intro hwait'
  have hzero : (h.recvPacket bs.length (s.world.recived bs)).1 = .inl 0 := of_decide_eq_true hwait'
  suffices hworld : (s.onRecived h bs).world = (s.world.recived bs).parsed ∧
      BetweenCalls (s.world.recived bs).parsed by
    rw [hworld.1]
    exact ⟨hworld.2, harrived⟩
  have hend : (s.onRecived h bs).world = (h.recvPacket bs.length (s.world.recived bs)).2 :=
    congrArg Prod.snd (h.onRecived_waits (Prod.ext hzero rfl))
  rw [hend]
  rcases recvPacket_cases h bs.length (s.world.recived bs) with ⟨-, -, hall⟩ | ⟨hdone, left, heq⟩
  · obtain ⟨hret, hparsed⟩ := hall hzero
    exact ⟨hparsed, hreach, fun hc => absurd hc (hhalf hret)⟩
  · refine ⟨?_, hreach, fun _ => hafter hdone⟩
    rw [heq] at hzero ⊢
    by_cases hlong : (maxBufferPieces * defaultBufferSize : ℕ) <
        (s.world.recived bs).parsed.reqheader.getContentLength
    · rw [if_pos hlong] at hzero
      simp at hzero
    · rw [if_neg hlong]
      split
      · rfl
      · rfl

/-- A call does what it should when the length is counted right. -/
lemma exact_iff (hinv : s.Inv) (hfits : s.Fits bs) (hst : s.Step h bs s') :
    s.Exact h bs ↔ s.Countable bs := by
  have harrived := arrived_onRecived hinv hfits hst
  have hw := ((hinv hst.1).1).recived hst.2.1
  have hcap : ∀ b : ReadBuffer, b.Reachable →
      b.unread.length < maxBufferPieces * defaultBufferSize := by
    intro b hb
    rw [IOBuffer.length_unread hb.isRing, ← cap_pieces]
    exact IOBuffer.used_lt hb.isRing
  have hlt := hcap _ hw.parsed.1
  constructor
  · intro hexact hdone length ha
    rcases Nat.lt_or_ge (maxBufferPieces * defaultBufferSize) length with hlong | hle
    · exact Or.inr ⟨hlong, (refuses_iff hdone ha hlong).mp (hexact.tooLong hdone length ha hlong)⟩
    · obtain ⟨htaken, hrest⟩ := hexact.admitted hdone length ha hle
      rw [dispatches_iff hw hdone ha hle, harrived] at htaken
      rw [dispatches_iff hw hdone ha hle, harrived] at hrest
      rw [Roomy] at htaken hrest ⊢
      omega
  · intro hcount
    refine ⟨?_, ?_, ?_⟩
    · intro hnot
      rcases recvPacket_cases h bs.length (s.world.recived bs) with ⟨-, hno, -⟩ | ⟨hdone, -⟩
      · exact hno
      · exact absurd hdone hnot
    · intro hdone length ha hlong
      rcases hcount hdone length ha with ⟨hshort, -⟩ | ⟨-, hseen⟩
      · omega
      · exact (refuses_iff hdone ha hlong).mpr hseen
    · intro hdone length ha hle
      rcases hcount hdone length ha with ⟨hshort, hroom⟩ | ⟨hlong, -⟩
      · rw [dispatches_iff hw hdone ha hle, harrived]
        refine ⟨and_iff_right hroom, ?_⟩
        intro hno
        have hpart := fun hc => hno ⟨hroom, hc⟩
        omega
      · omega

end Arriving

/-- A fresh stream. -/
def freshStream : World (MessageStream Unit) := ⟨.init, ⟨.init, .init, ()⟩⟩

/-- Handlers that do nothing. -/
def idleHanders : MessageHanders Unit := ⟨some fun _ w => w, fun _ w => w⟩

/-- The header of a request with this `Content-Length`. -/
def requestOf (length : String) : Bytes :=
  ascii "POST /m HTTP/1.1\r\nContent-Length:" ++ ascii length ++ ascii "\r\n\r\n"

/-- A chunk that comes to a fresh stream. -/
lemma run_freshStream (h : MessageHanders Unit) {bs : Bytes} (hne : bs ≠ [])
    (hfit : bs.length < maxBufferPieces * defaultBufferSize) :
    Exec.Run (Arriving.Step h) (Arriving.start freshStream) [(Arriving.start freshStream, bs)]
        ((Arriving.start freshStream).onRecived h bs) ∧
      Exec.Admits Arriving.Fits [(Arriving.start freshStream, bs)] := by
  have hr := ReadBuffer.isRing_init
  obtain ⟨iov, hiov⟩ : ∃ iov, ReadBuffer.init.getReciveBuffer = some iov := ⟨_, rfl⟩
  have hoffer := IOBuffer.length_offer hr hiov
  have hnil : freshStream.stream.readbuf.unread = [] := by
    rw [← List.length_eq_zero_iff]
    exact (IOBuffer.length_unread hr).trans used_init
  have hst : (Arriving.start freshStream).Step h bs
      ((Arriving.start freshStream).onRecived h bs) := by
    refine ⟨rfl, ⟨iov, hiov, List.length_pos_of_ne_nil hne, ?_, rfl⟩, rfl⟩
    rw [hoffer, used_init, cap_pieces]
    omega
  refine ⟨Exec.Run.nil.snoc hst, ?_⟩
  rw [Exec.Admits, List.forall_mem_singleton]
  change freshStream.stream.readbuf.unread.length + bs.length < _
  rw [hnil, List.length_nil, Nat.zero_add]
  exact hfit

/-- What the parser reads of a chunk that comes to an empty buffer. -/
lemma parsed_recived {w : World (MessageStream σ)} (hr : w.stream.readbuf.IsRing pieces)
    (hempty : w.stream.readbuf.isEmpty) {bs : Bytes} (hfit : bs.length < pieces.cap) :
    ((w.recived bs).reqheader.parserHeader (w.recived bs).stream.readbuf).1
        = (HttpRequestHeader.parser.machine.scan w.reqheader .fresh
          ((pieces.walk w.stream.readbuf.readpos bs.length).zip bs)).ret ∧
      (w.recived bs).parsed.reqheader
        = (HttpRequestHeader.parser.machine.scan w.reqheader .fresh
          ((pieces.walk w.stream.readbuf.readpos bs.length).zip bs)).obj := by
  obtain ⟨hret, hobj, -⟩ :=
    HttpRequestHeader.parser.parse_recive (h := w.reqheader) hr hempty bs hfit
  exact ⟨hret, hobj⟩

/-- What a countable length is. -/
lemma Arriving.Countable.of_value {s : Arriving σ} {bs v : Bytes} {length : ℕ}
    (hcount : s.Countable bs) (hdone : (s.world.recived bs).HeaderDone)
    (hvalue : (s.world.recived bs).parsed.reqheader.headers[HttpHeader.contentLengthKey]? = some v)
    (hdecimal : IsDecimal v length) :
    length < maxBufferPieces * defaultBufferSize ∨
      maxBufferPieces * defaultBufferSize < length ∧ HttpRequestHeader.SeenTooLong length := by
  refine (hcount hdone length ?_).imp_left And.left
  rw [HttpRequestHeader.Announces, hvalue]
  exact hdecimal

end MTRpc
