import MTRpc.Mio.SocketStream

/-!
# Sending out of a buffer

The unsent bytes of a buffer are those that `++` visits from the read position on up to the
write position (`bytesTo`).  `GetSendBuffer` gathers them in segments, `MoveSendPtr` takes away
what `writev` has sent, and the loop of `OnWriteable` repeats the two (`transmit`).  All three
walk the ring in their own way; `gather_exact` says that they agree on every ring and for every
two positions, so that the loop sends each byte once and in order whatever part of the segments
a `writev` takes.
-/

namespace MTRpc

open PieceRing (Shape)

/-- The positions from `it` on that `++` visits before `stop`; the first argument bounds their
number. -/
def Iterator.upTo (que : Que) (stop : Iterator) : ℕ → Iterator → List Iterator
  | 0, _ => []
  | fuel + 1, it =>
      if it = stop then [] else it :: upTo que stop fuel (Iterator.incr que it)

namespace IOBuffer

variable (b : IOBuffer)

/-- The bytes from the read position on up to `stop`. -/
def bytesTo (stop : Iterator) : Bytes :=
  (Iterator.upTo b.que stop (maxBufferPieces * defaultBufferSize) b.readpos).map b.que.load

/-- The bytes that have not been sent. -/
def unsent : Bytes := b.bytesTo b.writepos

/-- The bytes in the segments that `GetSendBuffer` produces for the end `stop`, one segment
after the other. -/
def gathered (stop : Iterator) : Bytes :=
  (((b.getSendBufferTo stop).getD []).flatMap Iovec.cells).map b.que.load

/-- The bytes that calls of `writev` with these results take, each from the segments that
`GetSendBuffer` produces then, and the buffer behind the last `MoveSendPtr`. -/
def transmit : List ℕ → WriteBuffer → Bytes × WriteBuffer
  | [], wb => ([], wb)
  | count :: counts, wb =>
      ((wb.gathered wb.writepos).take count ++ (transmit counts (wb.moveSendPtr count)).1,
        (transmit counts (wb.moveSendPtr count)).2)

/-- Results that `writev` can have in the loop: it writes no more than it is offered, and is not
called when nothing is offered. -/
def CanSend : List WritevRet → WriteBuffer → Prop
  | .sent count _ :: rets, wb =>
      wb.isEmpty ∨
        count ≤ (wb.gathered wb.writepos).length ∧ CanSend rets (wb.moveSendPtr count)
  | _, _ => True

end IOBuffer

/-! ## The three walks -/

variable {S : Shape}

/-- Up to a cell of the ring the positions are a walk. -/
lemma Iterator.upTo_eq {que : Que} (hf : que.Fits S) {fuel : ℕ} {it stop : Iterator}
    (hit : S.Valid it) (hstop : S.Valid stop) (hfuel : S.dist it stop ≤ fuel) :
    upTo que stop fuel it = S.walk it (S.dist it stop) := by
  induction fuel generalizing it with
  | zero => rw [Nat.le_zero.mp hfuel, upTo, Shape.walk_zero]
  | succ fuel ih =>
    rw [upTo]
    by_cases h : it = stop
    · rw [if_pos h, h, Shape.dist_self, Shape.walk_zero]
    · have hnext := Shape.dist_next hit hstop h
      rw [if_neg h, hnext, Shape.walk_succ, Iterator.incr_eq hf hit,
        ih (Shape.valid_next hit) (by omega)]

namespace IOBuffer

variable {b : IOBuffer} {stop : Iterator} (hr : b.IsRing S)

include hr

section

variable (hstop : S.Valid stop)

include hstop

lemma bytesTo_eq :
    b.bytesTo stop = (S.walk b.readpos (S.dist b.readpos stop)).map b.que.load := by
  have hlt := Shape.dist_lt hr.read_valid hstop
  have hcap := cap_le hr
  rw [bytesTo, Iterator.upTo_eq hr.toFits hr.read_valid hstop (by omega)]

lemma length_bytesTo : (b.bytesTo stop).length = S.dist b.readpos stop := by
  rw [bytesTo_eq hr hstop, List.length_map, Shape.length_walk]

/-- The segments are the walk from the read position to the end. -/
lemma getSendBufferTo_walk :
    ((b.getSendBufferTo stop).getD []).flatMap Iovec.cells
      = S.walk b.readpos (S.dist b.readpos stop) := by
  rw [getSendBufferTo]
  by_cases heq : stop = b.readpos
  · -- nothing is offered
    simp [heq]
  by_cases hin : stop.idx = b.readpos.idx ∧ b.readpos.pos < stop.pos
  · simp only [if_neg heq, if_pos hin, Option.getD_some]
    exact segment_walk hr.size_le hstop ⟨hin.1.symm, hin.2⟩
  · have hne : ¬ (b.readpos.idx = stop.idx ∧ b.readpos.pos < stop.pos) :=
      fun hc => hin ⟨hc.1.symm, hc.2⟩
    have hwalk := segments_walk hr.toFits hr.size_le hr.read_valid hstop
    have haround := Shape.around_eq hr.read_valid hstop (le_refl S.n) hne
    -- the whole turn less the way back is the way there
    have hback : S.dist b.readpos stop = S.cap - S.dist stop b.readpos := by
      have hoff : S.off b.readpos ≠ S.off stop :=
        fun h => heq (Shape.off_inj hr.read_valid hstop h).symm
      have h1 := Shape.off_lt_cap hr.read_valid
      have h2 := Shape.off_lt_cap hstop
      rw [Shape.dist, Shape.dist]
      split <;> split <;> omega
    rw [haround, ← hback] at hwalk
    simp only [if_neg heq, if_neg hin, Option.getD_some]
    exact hwalk

lemma gathered_eq : b.gathered stop = b.bytesTo stop := by
  rw [gathered, getSendBufferTo_walk hr hstop, bytesTo_eq hr hstop]

end

lemma isRing_moveSendPtr (n : ℕ) : (b.moveSendPtr n).IsRing S where
  toFits := hr.toFits
  size_le := hr.size_le
  read_valid := by
    change S.Valid (Iterator.add b.que b.readpos n)
    rw [Iterator.add_eq hr.toFits hr.read_valid]
    exact Shape.valid_iterate hr.read_valid n
  write_valid := hr.write_valid

/-- `MoveSendPtr` takes the first bytes away. -/
lemma bytesTo_moveSendPtr (hstop : S.Valid stop) {n : ℕ} (hn : n ≤ (b.bytesTo stop).length) :
    (b.moveSendPtr n).bytesTo stop = (b.bytesTo stop).drop n := by
  have hreadpos : (b.moveSendPtr n).readpos = S.next^[n] b.readpos :=
    Iterator.add_eq hr.toFits hr.read_valid n
  rw [length_bytesTo hr hstop] at hn
  rw [bytesTo_eq (isRing_moveSendPtr hr n) hstop, hreadpos,
    Shape.dist_iterate_left hr.read_valid hstop hn, bytesTo_eq hr hstop, ← List.map_drop,
    Shape.drop_walk hn]
  rfl

/-- `MoveSendPtr` reaches the end with the last byte. -/
lemma readpos_moveSendPtr_eq_iff (hstop : S.Valid stop) {n : ℕ}
    (hn : n ≤ (b.bytesTo stop).length) :
    (b.moveSendPtr n).readpos = stop ↔ n = (b.bytesTo stop).length := by
  have hring := isRing_moveSendPtr hr n
  rw [← Shape.dist_eq_zero hring.read_valid hstop, ← length_bytesTo hring hstop,
    bytesTo_moveSendPtr hr hstop hn, List.length_drop]
  omega

end IOBuffer

/-! ## The loop of `OnWriteable` -/

namespace StreamClass

variable {σ : Type}

/-- The loop sends a beginning of the unsent bytes and leaves the rest. -/
lemma writeLoop_transmits {rets : List WritevRet} {writeSize : ℕ} {d : Dispatch σ}
    (hr : d.stream.writebuf.IsRing S) (hsend : IOBuffer.CanSend rets d.stream.writebuf) :
    ∃ counts : List ℕ,
      (writeLoop rets writeSize d).2.2.calls = d.calls ++ counts.map .writev ∧
      (writeLoop rets writeSize d).2.1 = writeSize + counts.sum ∧
      (IOBuffer.transmit counts d.stream.writebuf).2
        = (writeLoop rets writeSize d).2.2.stream.writebuf ∧
      (IOBuffer.transmit counts d.stream.writebuf).1
          ++ (writeLoop rets writeSize d).2.2.stream.writebuf.unsent
        = d.stream.writebuf.unsent := by
  induction rets generalizing writeSize d with
  | nil =>
    refine ⟨[], ?_⟩
    rw [writeLoop.eq_def]
    dsimp only
    split <;> simp [IOBuffer.transmit]
  | cons ret rets ih =>
    rw [writeLoop.eq_def]
    dsimp only
    cases hoffer : d.stream.writebuf.getSendBuffer with
    | none => exact ⟨[], by simp [IOBuffer.transmit]⟩
    | some iov =>
      cases ret with
      | again => exact ⟨[], by simp [IOBuffer.transmit]⟩
      | error => exact ⟨[], by simp [IOBuffer.transmit]⟩
      | sent count pos =>
        have hempty : ¬ d.stream.writebuf.isEmpty := by
          intro hempty
          have hstop : d.stream.writebuf.writepos = d.stream.writebuf.readpos := hempty.symm
          rw [IOBuffer.getSendBuffer, IOBuffer.getSendBufferTo, if_pos hstop] at hoffer
          exact absurd hoffer (by simp)
        obtain ⟨hcount, hrest⟩ := hsend.resolve_left hempty
        have hall := IOBuffer.gathered_eq hr hr.write_valid
        rw [hall] at hcount
        obtain ⟨counts, hcalls, hsize, hbuf, hbytes⟩ :=
          @ih (writeSize + count) (d.call (.writev count) fun w =>
            { w with stream := { w.stream with
                writebuf := w.stream.writebuf.moveSendPtr count } })
            (IOBuffer.isRing_moveSendPtr hr count) hrest
        refine ⟨count :: counts, ?_, ?_, hbuf, ?_⟩
        · rw [hcalls, Dispatch.calls_call, List.map_cons, List.append_assoc]
          rfl
        · rw [hsize, List.sum_cons, Nat.add_assoc]
        · -- the bytes of this round are those that `MoveSendPtr` takes away
          have hdrop := IOBuffer.bytesTo_moveSendPtr hr hr.write_valid hcount
          rw [IOBuffer.transmit, hall, List.append_assoc]
          exact (congrArg _ (hbytes.trans hdrop)).trans (List.take_append_drop _ _)

end StreamClass

/-- **Gathering.**  On every ring and for every two positions the segments of `GetSendBuffer` are
the bytes from the read position to the end, their number is the difference of the two, and
`MoveSendPtr` takes the first of them away and empties the buffer with the last.  Whatever part
of the segments each `writev` takes, the loop of `OnWriteable` sends a beginning of the unsent
bytes and keeps the rest, and all of them when it ends with an empty buffer. -/
theorem gather_exact {b : IOBuffer} (hr : b.IsRing S) :
    (∀ stop, S.Valid stop →
      b.gathered stop = b.bytesTo stop ∧
      ((b.gathered stop).length : ℤ) = Iterator.sub b.que stop b.readpos ∧
      ∀ n ≤ (b.gathered stop).length,
        (b.moveSendPtr n).bytesTo stop = (b.bytesTo stop).drop n ∧
        ((b.moveSendPtr n).readpos = stop ↔ n = (b.gathered stop).length)) ∧
    (∀ n ≤ (b.gathered b.writepos).length,
      (b.moveSendPtr n).isEmpty ↔ n = (b.gathered b.writepos).length) ∧
    ∀ {σ : Type} (rets : List WritevRet) (writeSize : ℕ) (d : Dispatch σ),
      d.stream.writebuf.toIOBuffer = b → IOBuffer.CanSend rets d.stream.writebuf →
      ∃ counts : List ℕ,
        (StreamClass.writeLoop rets writeSize d).2.2.calls = d.calls ++ counts.map .writev ∧
        (IOBuffer.transmit counts d.stream.writebuf).2
          = (StreamClass.writeLoop rets writeSize d).2.2.stream.writebuf ∧
        (IOBuffer.transmit counts d.stream.writebuf).1
            ++ (StreamClass.writeLoop rets writeSize d).2.2.stream.writebuf.unsent = b.unsent ∧
        ((StreamClass.writeLoop rets writeSize d).2.2.stream.writebuf.isEmpty →
          (IOBuffer.transmit counts d.stream.writebuf).1 = b.unsent) := by
  refine ⟨fun stop hstop => ⟨IOBuffer.gathered_eq hr hstop, ?_, fun n hn => ?_⟩, ?_, ?_⟩
  · rw [IOBuffer.gathered_eq hr hstop, IOBuffer.length_bytesTo hr hstop,
      Iterator.sub_eq hr.toFits hr.read_valid hstop]
  · rw [IOBuffer.gathered_eq hr hstop] at hn ⊢
    exact ⟨IOBuffer.bytesTo_moveSendPtr hr hstop hn,
      IOBuffer.readpos_moveSendPtr_eq_iff hr hstop hn⟩
  · intro n hn
    rw [IOBuffer.gathered_eq hr hr.write_valid] at hn ⊢
    exact IOBuffer.readpos_moveSendPtr_eq_iff hr hr.write_valid hn
  · rintro σ rets writeSize d rfl hsend
    obtain ⟨counts, hcalls, -, hbuf, hbytes⟩ :=
      @StreamClass.writeLoop_transmits S σ rets writeSize d hr hsend
    refine ⟨counts, hcalls, hbuf, hbytes, ?_⟩
    intro hempty
    -- an empty buffer has no byte left
    have hnil : (StreamClass.writeLoop rets writeSize d).2.2.stream.writebuf.unsent = [] := by
      have hstop : (StreamClass.writeLoop rets writeSize d).2.2.stream.writebuf.readpos
          = (StreamClass.writeLoop rets writeSize d).2.2.stream.writebuf.writepos := hempty
      rw [IOBuffer.unsent, IOBuffer.bytesTo,
        show maxBufferPieces * defaultBufferSize = 8388607 + 1 from rfl, Iterator.upTo,
        if_pos hstop, List.map_nil]
    rw [hnil, List.append_nil] at hbytes
    exact hbytes

/-- Pieces of six, seven and two bytes. -/
def unevenPieces : Shape where
  n := maxBufferPieces
  size := fun i => if i = 0 then 6 else if i = 1 then 7 else 2
  n_pos := maxBufferPieces_pos
  size_pos := fun i _ => by split <;> [decide; (split <;> decide)]

/-- A write buffer with such pieces, whose unsent bytes begin and end in the second one and run
all the way round in between. -/
def unevenBuffer : WriteBuffer where
  que := fun i => ⟨fun j => UInt8.ofNat (10 * i + j), unevenPieces.size i⟩
  readpos := ⟨1, 3⟩
  writepos := ⟨1, 1⟩
  beginWrite := ⟨1, 3⟩

lemma isRing_unevenBuffer : unevenBuffer.IsRing unevenPieces where
  n_eq := rfl
  size_eq := fun _ _ => rfl
  size_le := by decide
  read_valid := by decide
  write_valid := by decide

/-- Two calls of `writev` send 5 and 2 of the 39 unsent bytes. -/
theorem gather_exact_uneven :
    unevenBuffer.gathered ⟨1, 1⟩ = unevenBuffer.bytesTo ⟨1, 1⟩ ∧
    ((unevenBuffer.gathered ⟨1, 1⟩).length : ℤ)
      = Iterator.sub unevenBuffer.que ⟨1, 1⟩ unevenBuffer.readpos ∧
    ((unevenBuffer.moveSendPtr 5).isEmpty ↔
      5 = (unevenBuffer.gathered unevenBuffer.writepos).length) ∧
    ∃ counts : List ℕ,
      (StreamClass.writeLoop [.sent 5 (by decide), .sent 2 (by decide), .again] 0
        (⟨⟨{ Stream.init with writebuf := unevenBuffer }, ()⟩, []⟩ : Dispatch Unit)).2.2.calls
          = [] ++ counts.map .writev := by
  have hgather := gather_exact isRing_unevenBuffer
  obtain ⟨hsame, hlength, -⟩ := hgather.1 ⟨1, 1⟩ (by decide)
  obtain ⟨counts, hcalls, -⟩ := hgather.2.2
    [.sent 5 (by decide), .sent 2 (by decide), .again] 0
    (⟨⟨{ Stream.init with writebuf := unevenBuffer }, ()⟩, []⟩ : Dispatch Unit) rfl
    (Or.inr ⟨by decide, Or.inr ⟨by decide, trivial⟩⟩)
  exact ⟨hsame, hlength, hgather.2.1 5 (by decide), counts, hcalls⟩

end MTRpc
