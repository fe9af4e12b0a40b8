import MTRpc.Http.Header
import MTRpc.Mio.BufferRuns

/-!
# Header parsing and the arrival of the bytes

A header can arrive in any number of pieces: each is appended to the read buffer, and
`ParserHeader` is called until it does not ask for more.

A call on a ring is a scan of the tape of its unread bytes (`HeaderParser.parse_eq`), and the
calls for a sequence of chunks are the feed of the tapes of the chunks
(`HeaderParser.feedChunks_eq`).  So the library's comparison of a feed with one scan applies:
outside a header value the locals of a call are as at its start and nothing is lost, and
inside a header value the locals hold the name of the header, which the next call does not
know.  The result is the exact condition under which the way the bytes arrive makes no
difference (`parserHeader_chunks_iff`).
-/

namespace MTRpc

open PieceRing (Shape)
open Scanner (Outcome Machine)

/-! ## The tape of a read buffer -/

namespace ReadBuffer

/-- The unread bytes with their cells. -/
def tape (b : ReadBuffer) : Tape := b.unreadCells.map fun it => (it, b.que.load it)

variable {b : ReadBuffer} (hr : b.IsRing pieces)

include hr

lemma isRing_advance : b.advance.IsRing pieces := by
  refine isRing_readpos hr ?_
  rw [Iterator.incr_eq hr.toFits hr.read_valid]
  exact Shape.valid_next hr.read_valid

lemma readpos_advance_eq : b.advance.readpos = pieces.next b.readpos := by
  rw [readpos_advance, Iterator.incr_eq hr.toFits hr.read_valid]

/-- Consuming a byte of a buffer that has one. -/
lemma used_advance {n : ℕ} (hn : b.used pieces = n + 1) : b.advance.used pieces = n := by
  have hlt := IOBuffer.used_lt hr
  have hra := isRing_advance hr
  have hwrite : b.writepos = pieces.next^[n] (pieces.next b.readpos) := by
    rw [← IOBuffer.iterate_used hr, hn, Function.iterate_succ_apply]
  rw [IOBuffer.used, readpos_advance_eq hr, writepos_advance, hwrite]
  exact Shape.dist_iterate (Shape.valid_next hr.read_valid) (by omega)

lemma tape_nil (h0 : b.used pieces = 0) : b.tape = [] := by
  rw [tape, IOBuffer.unreadCells_eq hr, h0]
  rfl

lemma tape_cons {n : ℕ} (hn : b.used pieces = n + 1) :
    b.tape = (b.readpos, b.que.load b.readpos) :: b.advance.tape := by
  rw [tape, tape, IOBuffer.unreadCells_eq hr, IOBuffer.unreadCells_eq (isRing_advance hr), hn,
    used_advance hr hn, readpos_advance_eq hr, Shape.walk_succ, List.map_cons]
  rfl

lemma isRing_iterate_advance (n : ℕ) : (advance^[n] b).IsRing pieces := by
  induction n generalizing b with
  | zero => exact hr
  | succ n ih => exact ih (isRing_advance hr)

lemma readpos_iterate_advance (n : ℕ) :
    (advance^[n] b).readpos = pieces.next^[n] b.readpos := by
  induction n generalizing b with
  | zero => rfl
  | succ n ih =>
    rw [Function.iterate_succ_apply, Function.iterate_succ_apply, ih (isRing_advance hr),
      readpos_advance_eq hr]

omit hr in
lemma writepos_iterate_advance (n : ℕ) : (advance^[n] b).writepos = b.writepos := by
  induction n generalizing b with
  | zero => rfl
  | succ n ih => rw [Function.iterate_succ_apply, ih, writepos_advance]

/-- A buffer whose unread bytes have all been consumed is empty. -/
lemma isEmpty_iterate_advance {n : ℕ} (hn : b.used pieces = n) : (advance^[n] b).isEmpty := by
  change (advance^[n] b).readpos = (advance^[n] b).writepos
  rw [readpos_iterate_advance hr, writepos_iterate_advance, ← hn, IOBuffer.iterate_used hr]

/-- The unread bytes with the cells in which they are. -/
lemma tape_eq : b.tape = (pieces.walk b.readpos (b.used pieces)).zip b.unread := by
  rw [tape, List.map_prod_left_eq_zip, IOBuffer.unread_eq hr, IOBuffer.unreadCells_eq hr]

/-- What is consumed is gone. -/
lemma tape_iterate_advance {n : ℕ} (hn : n ≤ b.used pieces) :
    (advance^[n] b).tape = b.tape.drop n ∧ (advance^[n] b).used pieces = b.used pieces - n := by
  induction n generalizing b with
  | zero => exact ⟨rfl, rfl⟩
  | succ n ih =>
    obtain ⟨m, hm⟩ : ∃ m, b.used pieces = m + 1 := Nat.exists_eq_succ_of_ne_zero (by omega)
    have hused := used_advance hr hm
    obtain ⟨htape, hrest⟩ := ih (isRing_advance hr) (by omega)
    rw [Function.iterate_succ_apply, htape, hrest, tape_cons hr hm, List.drop_succ_cons, hused]
    exact ⟨rfl, by omega⟩

lemma exists_iov (hroom : b.used pieces + 1 < pieces.cap) :
    ∃ iov, b.getReciveBuffer = some iov := by
  rw [← Option.ne_none_iff_exists', Ne, IOBuffer.getReciveBuffer_eq_none]
  intro hfull
  have hused := used_of_isFull hr hfull
  omega

/-- What is received, short of filling the buffer, comes behind what is unread. -/
lemma tape_recive (bs : Bytes) (hroom : b.used pieces + 1 < pieces.cap)
    (hfit : b.used pieces + bs.length < pieces.cap) :
    (b.recive bs).IsRing pieces ∧ (b.recive bs).used pieces = b.used pieces + bs.length ∧
      (b.recive bs).tape = b.tape ++ (pieces.walk b.writepos bs.length).zip bs := by
  obtain ⟨iov, hiov⟩ := exists_iov hr hroom
  have hrr : (b.recive bs).IsRing pieces := IOBuffer.isRing_recive hr hiov bs
  obtain ⟨hused, hunread⟩ : (b.recive bs).used pieces = b.used pieces + bs.length ∧
      (b.recive bs).unread = b.unread ++ bs := IOBuffer.recive_spec hr hiov hfit
  have hlength : (pieces.walk b.readpos (b.used pieces)).length = b.unread.length := by
    rw [Shape.length_walk, IOBuffer.length_unread hr]
  refine ⟨hrr, hused, ?_⟩
  rw [tape_eq hrr, tape_eq hr, hused, hunread]
  change (pieces.walk b.readpos _).zip _ = _
  rw [Shape.walk_add, IOBuffer.iterate_used hr, List.zip_append hlength]

/-- What is received into an empty buffer, short of filling it. -/
lemma recive_empty (hempty : b.isEmpty) (bs : Bytes) (hfit : bs.length < pieces.cap) :
    (b.recive bs).IsRing pieces ∧ (b.recive bs).used pieces = bs.length ∧
      (b.recive bs).tape = (pieces.walk b.readpos bs.length).zip bs := by
  have h0 : b.used pieces = 0 := (IOBuffer.isEmpty_iff hr).mp hempty
  have hroom : b.used pieces + 1 < pieces.cap := by
    rw [h0, cap_pieces]
    decide
  obtain ⟨hrr, hused, htape⟩ := tape_recive hr bs hroom (by omega)
  rw [h0, Nat.zero_add] at hused
  refine ⟨hrr, hused, ?_⟩
  rw [htape, tape_nil hr h0, List.nil_append]
  have hsame : b.writepos = b.readpos := hempty.symm
  exact congrArg (fun a => (pieces.walk a bs.length).zip bs) hsame

end ReadBuffer

/-- The tapes of chunks that are received one after the other, from the cell `a` on. -/
def tapes (a : Iterator) : List Bytes → List Tape
  | [] => []
  | c :: cs => (pieces.walk a c.length).zip c :: tapes (pieces.next^[c.length] a) cs

lemma flatten_tapes (a : Iterator) (cs : List Bytes) :
    (tapes a cs).flatten = (pieces.walk a cs.flatten.length).zip cs.flatten := by
  induction cs generalizing a with
  | nil => rfl
  | cons c cs ih =>
    rw [tapes, List.flatten_cons, ih, List.flatten_cons, List.length_append, Shape.walk_add,
      List.zip_append (Shape.length_walk _)]

lemma map_snd_flatten_tapes (a : Iterator) (cs : List Bytes) :
    (tapes a cs).flatten.map Prod.snd = cs.flatten := by
  rw [flatten_tapes, List.map_snd_zip (by rw [Shape.length_walk])]

lemma tapes_append (a : Iterator) (cs ds : List Bytes) :
    tapes a (cs ++ ds) = tapes a cs ++ tapes (pieces.next^[cs.flatten.length] a) ds := by
  induction cs generalizing a with
  | nil => rfl
  | cons c cs ih =>
    rw [List.cons_append, tapes, ih, tapes, List.cons_append, List.flatten_cons,
      List.length_append, Nat.add_comm, Function.iterate_add_apply]

/-- A cut of the tapes is a cut of the chunks. -/
lemma tapes_eq_append {a : Iterator} {cs : List Bytes} {pre post : List Tape}
    (h : tapes a cs = pre ++ post) : ∃ ds es, cs = ds ++ es ∧ tapes a ds = pre ∧
      tapes (pieces.next^[ds.flatten.length] a) es = post := by
  induction pre generalizing a cs with
  | nil => exact ⟨[], cs, rfl, rfl, h⟩
  | cons t pre ih =>
    rcases cs with _ | ⟨c, cs⟩
    · exact absurd h (by simp [tapes])
    · rw [tapes, List.cons_append, List.cons.injEq] at h
      obtain ⟨ht, h⟩ := h
      obtain ⟨ds, es, rfl, hds, hes⟩ := ih h
      refine ⟨c :: ds, es, rfl, by rw [tapes, ht, hds], ?_⟩
      rw [List.flatten_cons, List.length_append, Nat.add_comm, Function.iterate_add_apply]
      exact hes

/-! ## What the two parsers have in common -/

/-- A header parser, as far as header values are concerned.  In the state `value` the bytes
up to `'\r'` go to the scratch array and are then stored under the name that the locals hold;
in all other states the locals are as at the start of a call. -/
structure HeaderParser (η : Type) where
  step : η → ParserLocals → Iterator × UInt8 → Outcome ParserRet η ParserLocals
  state : η → ParserState
  scratch : η → Scratch
  headers : η → Headers
  /-- The state inside a header value. -/
  value : ParserState
  /-- The length of a token is tested, and a header without a name is refused. -/
  checked : Bool
  /-- The object with another scratch array. -/
  put : η → Scratch → η
  /-- The object after a value is complete. -/
  store : η → ParserLocals → Bytes → Scratch → η
  value_ne_atEnd : value ≠ .atEnd
  state_put : ∀ h s, state (put h s) = state h
  scratch_put : ∀ h s, scratch (put h s) = s
  headers_put : ∀ h s, headers (put h s) = headers h
  state_store : ∀ h l tok s, state (store h l tok s) ≠ value
  headers_store : ∀ h l tok s,
    headers (store h l tok s) = (headers h).insert l.key (l.value ++ tok)
  step_value : ∀ h l it c, state h = value → step h l (it, c) =
    if checked = true ∧ maxKeyLen ≤ (scratch h).pos then .stop .fail h
    else if c = 13 then
      match (scratch h).moveBufTo with
      | none => .stop .overrun h
      | some (tok, s) => .go (store h l tok s) .fresh
    else
      match (scratch h).put c with
      | none => .stop .overrun h
      | some s => .go (put h s) l
  /-- A step that ends the call returns no HALF and stores nothing. -/
  step_all : ∀ h l a, (step h l a).All
    (fun r h' => r ≠ .half ∧ headers h' = headers h ∧ state h' = state h)
    (fun h' l' => state h ≠ value → l = .fresh → headers h' = headers h ∧
      (state h' ≠ value ∧ l' = .fresh ∨
        state h' = value ∧ l'.value = [] ∧ (checked = true → l'.key ≠ [])))

namespace HttpRequestHeader

variable {h : HttpRequestHeader} {l : ParserLocals} {c : UInt8}
variable {S : ParserRet → HttpRequestHeader → Prop} {G : HttpRequestHeader → ParserLocals → Prop}

lemma all_put (hS : S .overrun h) (hG : ∀ s, G { h with scratch := s } l) :
    (h.put l c).All S G := by
  rw [put]
  cases h.scratch.put c with
  | none => exact hS
  | some s => exact hG s

lemma all_moveBufTo {k : Bytes → HttpRequestHeader → Step} (hS : S .overrun h)
    (hk : ∀ tok s, (k tok { h with scratch := s }).All S G) : (h.moveBufTo k).All S G := by
  rw [moveBufTo]
  cases h.scratch.moveBufTo with
  | none => exact hS
  | some r => exact hk r.1 r.2

lemma all_expect {want : UInt8} {next : HttpRequestHeader} (hS : S .fail h) (hG : G next l) :
    (h.expect l want c next).All S G := by
  rw [expect]
  split
  · exact hG
  · exact hS

/-- What a step of the request parser does, state by state. -/
lemma step_all (h : HttpRequestHeader) (l : ParserLocals) (a : Iterator × UInt8) :
    (h.step l a).All (fun r h' => r ≠ .half ∧ h'.headers = h.headers ∧ h'.state = h.state)
      (fun h' l' => h.state ≠ .reqValueR → l = .fresh → h'.headers = h.headers ∧
        (h'.state ≠ .reqValueR ∧ l' = .fresh ∨
          h'.state = .reqValueR ∧ l'.value = [] ∧ (true = true → l'.key ≠ []))) := by
  obtain ⟨it, c⟩ := a
  have hover : (ParserRet.overrun ≠ .half) ∧ h.headers = h.headers ∧ h.state = h.state :=
    ⟨by decide, rfl, rfl⟩
  have hfail : (ParserRet.fail ≠ .half) ∧ h.headers = h.headers ∧ h.state = h.state :=
    ⟨by decide, rfl, rfl⟩
  rw [step]
  split
  · exact hfail
  split
  case h_1 hs =>
    rcases h.scratch.isMethodFound c with _ | ⟨_ | _, s⟩
    · exact hover
    · exact fun _ hl => ⟨rfl, Or.inl ⟨by simp [hs], hl⟩⟩
    · exact all_moveBufTo hover fun _ _ _ hl => ⟨rfl, Or.inl ⟨by simp, hl⟩⟩
  case h_2 hs =>
    split
    · refine all_moveBufTo hover fun tok s => ?_
      dsimp only
      split
      · exact hfail
      · exact fun _ hl => ⟨rfl, Or.inl ⟨by simp, hl⟩⟩
    · exact all_put hover fun s _ hl => ⟨rfl, Or.inl ⟨by simp [hs], hl⟩⟩
  case h_3 hs =>
    split
    · exact all_moveBufTo hover fun _ _ _ hl => ⟨rfl, Or.inl ⟨by simp, hl⟩⟩
    · exact all_put hover fun s _ hl => ⟨rfl, Or.inl ⟨by simp [hs], hl⟩⟩
  case h_4 => exact all_expect hfail fun _ hl => ⟨rfl, Or.inl ⟨by simp, hl⟩⟩
  case h_5 hs =>
    split
    · refine all_moveBufTo hover fun tok s => ?_
      dsimp only
      split
      · exact hfail
      · -- the name of the header is in the locals
        next hkey =>
        refine fun _ hl => ⟨rfl, Or.inr ⟨rfl, by rw [hl]; rfl, fun _ hnil => hkey ?_⟩⟩
        exact List.length_eq_zero_iff.mpr hnil
    · split
      · exact fun _ hl => ⟨rfl, Or.inl ⟨by simp, hl⟩⟩
      · exact all_put hover fun s _ hl => ⟨rfl, Or.inl ⟨by simp [hs], hl⟩⟩
  case h_6 hs =>
    split
    · exact all_moveBufTo hover fun _ _ hne => absurd hs hne
    · exact all_put hover fun _ hne => absurd hs hne
  case h_7 => exact all_expect hfail fun _ hl => ⟨rfl, Or.inl ⟨by simp, hl⟩⟩
  case h_8 => exact all_expect hfail fun _ hl => ⟨rfl, Or.inl ⟨by simp, hl⟩⟩
  case h_9 => exact fun hne hl => ⟨rfl, Or.inl ⟨hne, hl⟩⟩

/-- The request parser. -/
def parser : HeaderParser HttpRequestHeader where
  step := step
  state := (·.state)
  scratch := (·.scratch)
  headers := (·.headers)
  value := .reqValueR
  checked := true
  put h s := { h with scratch := s }
  store h l tok s :=
    { h with
      scratch := s, headers := h.headers.insert l.key (l.value ++ tok), state := .reqValueN }
  value_ne_atEnd := by decide
  state_put _ _ := rfl
  scratch_put _ _ := rfl
  headers_put _ _ := rfl
  state_store _ _ _ _ := by simp
  headers_store _ _ _ _ := rfl
  step_value h l it c hv := by
    have hstep : h.step l (it, c) = if maxKeyLen ≤ h.scratch.pos then .stop .fail h
        else if c = 13 then
          h.moveBufTo fun tok h =>
            .go { h with headers := h.headers.insert l.key (l.value ++ tok), state := .reqValueN }
              .fresh
        else h.put l c := by
      simp only [step, hv]
    by_cases hfull : maxKeyLen ≤ h.scratch.pos
    · rw [hstep, if_pos hfull, if_pos ⟨rfl, hfull⟩]
    · have hopen : ¬ (true = true ∧ maxKeyLen ≤ h.scratch.pos) := fun hboth => hfull hboth.2
      rw [hstep, if_neg hfull, if_neg hopen]
      rfl
  step_all := step_all

end HttpRequestHeader

namespace HttpReponseHeader

variable {h : HttpReponseHeader} {l : ParserLocals} {c : UInt8}
variable {S : ParserRet → HttpReponseHeader → Prop} {G : HttpReponseHeader → ParserLocals → Prop}

lemma all_put (hS : S .overrun h) (hG : ∀ s, G { h with scratch := s } l) :
    (h.put l c).All S G := by
  rw [put]
  cases h.scratch.put c with
  | none => exact hS
  | some s => exact hG s

lemma all_moveBufTo {k : Bytes → HttpReponseHeader → Step} (hS : S .overrun h)
    (hk : ∀ tok s, (k tok { h with scratch := s }).All S G) : (h.moveBufTo k).All S G := by
  rw [moveBufTo]
  cases h.scratch.moveBufTo with
  | none => exact hS
  | some r => exact hk r.1 r.2

lemma all_expect {want : UInt8} {next : HttpReponseHeader} (hS : S .fail h) (hG : G next l) :
    (h.expect l want c next).All S G := by
  rw [expect]
  split
  · exact hG
  · exact hS

/-- What a step of the response parser does, state by state. -/
lemma step_all (h : HttpReponseHeader) (l : ParserLocals) (a : Iterator × UInt8) :
    (h.step l a).All (fun r h' => r ≠ .half ∧ h'.headers = h.headers ∧ h'.state = h.state)
      (fun h' l' => h.state ≠ .resValueR → l = .fresh → h'.headers = h.headers ∧
        (h'.state ≠ .resValueR ∧ l' = .fresh ∨
          h'.state = .resValueR ∧ l'.value = [] ∧ (false = true → l'.key ≠ []))) := by
  obtain ⟨it, c⟩ := a
  have hover : (ParserRet.overrun ≠ .half) ∧ h.headers = h.headers ∧ h.state = h.state :=
    ⟨by decide, rfl, rfl⟩
  have hfail : (ParserRet.fail ≠ .half) ∧ h.headers = h.headers ∧ h.state = h.state :=
    ⟨by decide, rfl, rfl⟩
  rw [step]
  split
  case h_1 hs =>
    split
    · exact all_moveBufTo hover fun _ _ _ hl => ⟨rfl, Or.inl ⟨by simp, by rw [hl]; rfl⟩⟩
    · exact all_put hover fun s _ hl => ⟨rfl, Or.inl ⟨by simp [hs], hl⟩⟩
  case h_2 hs =>
    split
    · split
      · exact hover
      · exact fun _ hl => ⟨rfl, Or.inl ⟨by simp, hl⟩⟩
    · exact all_put hover fun s _ hl => ⟨rfl, Or.inl ⟨by simp [hs], hl⟩⟩
  case h_3 hs =>
    split
    · exact all_moveBufTo hover fun _ _ _ hl => ⟨rfl, Or.inl ⟨by simp, hl⟩⟩
    · exact all_put hover fun s _ hl => ⟨rfl, Or.inl ⟨by simp [hs], hl⟩⟩
  case h_4 => exact all_expect hfail fun _ hl => ⟨rfl, Or.inl ⟨by simp, hl⟩⟩
  case h_5 hs =>
    split
    · refine all_moveBufTo hover fun tok s _ hl => ?_
      exact ⟨rfl, Or.inr ⟨rfl, by rw [hl]; rfl, fun hc => absurd hc (by decide)⟩⟩
    · split
      · exact fun _ hl => ⟨rfl, Or.inl ⟨by simp, hl⟩⟩
      · exact all_put hover fun s _ hl => ⟨rfl, Or.inl ⟨by simp [hs], hl⟩⟩
  case h_6 hs =>
    split
    · exact all_moveBufTo hover fun _ _ hne => absurd hs hne
    · exact all_put hover fun _ hne => absurd hs hne
  case h_7 => exact all_expect hfail fun _ hl => ⟨rfl, Or.inl ⟨by simp, hl⟩⟩
  case h_8 => exact all_expect hfail fun _ hl => ⟨rfl, Or.inl ⟨by simp, hl⟩⟩
  case h_9 => exact fun hne hl => ⟨rfl, Or.inl ⟨hne, hl⟩⟩

/-- The response parser. -/
def parser : HeaderParser HttpReponseHeader where
  step := step
  state := (·.state)
  scratch := (·.scratch)
  headers := (·.headers)
  value := .resValueR
  checked := false
  put h s := { h with scratch := s }
  store h l tok s :=
    { h with
      scratch := s, headers := h.headers.insert l.key (l.value ++ tok), state := .resValueN }
  value_ne_atEnd := by decide
  state_put _ _ := rfl
  scratch_put _ _ := rfl
  headers_put _ _ := rfl
  state_store _ _ _ _ := by simp
  headers_store _ _ _ _ := rfl
  step_value h l it c hv := by
    have hstep : h.step l (it, c) = if c = 13 then
          h.moveBufTo fun tok h =>
            .go { h with headers := h.headers.insert l.key (l.value ++ tok), state := .resValueN }
              .fresh
        else h.put l c := by
      simp only [step, hv]
    have hopen : ¬ (false = true ∧ maxKeyLen ≤ h.scratch.pos) := fun hboth => nomatch hboth.1
    rw [hstep, if_neg hopen]
    rfl
  step_all := step_all

end HttpReponseHeader

/-! ## Calls as scans -/

/-- The calls of `ParserHeader` for a sequence of chunks: each chunk is appended to the read
buffer, and the calls end with the first that does not ask for more. -/
def feedChunks {η : Type} (parse : η → ReadBuffer → ParserRet × η × ReadBuffer) :
    η → ReadBuffer → List Bytes → ParserRet × η × ReadBuffer
  | h, rb, [] => (.half, h, rb)
  | h, rb, c :: cs =>
      let r := parse h (rb.recive c)
      if r.1 = .half ∧ cs ≠ [] then feedChunks parse r.2.1 r.2.2 cs else r

namespace HeaderParser

variable {η : Type} (P : HeaderParser η)

/-- The parser as a resumable scanner. -/
def machine : Machine (Iterator × UInt8) η ParserLocals ParserRet where
  step := P.step
  done h := P.state h = .atEnd
  fresh := .fresh
  half := .half
  finish := .finish
  half_ne_finish := by decide
  step_ne_half h l a r h' hs := by
    have hall := P.step_all h l a
    rw [hs] at hall
    exact hall.1

/-- `ParserHeader` of the parser. -/
def parse (h : η) (rb : ReadBuffer) : ParserRet × η × ReadBuffer :=
  parserLoop P.step P.state rb.getBufferUsed h .fresh rb

variable {h : η} {l : ParserLocals} {rb : ReadBuffer}

lemma machine_done_iff : P.machine.done h = true ↔ P.state h = .atEnd := by
  simp [machine]

/-- The loop over the ring is the scan of its tape. -/
lemma parserLoop_eq (hr : rb.IsRing pieces) {n : ℕ} (hn : rb.used pieces = n) :
    parserLoop P.step P.state n h l rb =
      ((P.machine.scan h l rb.tape).ret, (P.machine.scan h l rb.tape).obj,
        ReadBuffer.advance^[(P.machine.scan h l rb.tape).used] rb) := by
  have hend : ∀ (t : Tape) (l : ParserLocals) (h : η), P.state h = .atEnd →
      P.machine.scan h l t = ⟨.finish, h, l, 0⟩ :=
    fun t l h hd => Machine.scan_done ((P.machine_done_iff).mpr hd)
  induction n generalizing rb h l with
  | zero =>
    rw [ReadBuffer.tape_nil hr hn, parserLoop]
    by_cases hd : P.state h = .atEnd
    · rw [hend _ _ _ hd, if_pos hd]
      rfl
    · rw [Machine.scan_nil (by simpa [machine] using hd), if_neg hd]
      rfl
  | succ n ih =>
    have hne : ¬ rb.isEmpty := fun hempty => by
      have := (IOBuffer.isEmpty_iff hr).mp hempty
      omega
    rw [parserLoop]
    by_cases hd : P.state h = .atEnd
    · rw [hend _ _ _ hd, if_pos (Or.inr hd), if_pos hd]
      rfl
    · have hdone : P.machine.done h = false := by simpa [machine] using hd
      rw [if_neg (by simp [hne, hd]), ReadBuffer.tape_cons hr hn]
      rcases hs : P.step h l (rb.readpos, rb.que.load rb.readpos) with ⟨r, h'⟩ | ⟨h', l'⟩
      · rw [Machine.scan_stop hdone hs]
        rfl
      · rw [Machine.scan_go hdone hs]
        dsimp only
        rw [ih (ReadBuffer.isRing_advance hr) (ReadBuffer.used_advance hr hn),
          Scanner.Res.shift_used, Nat.add_comm, Function.iterate_succ_apply]
        rfl

lemma parse_eq (hr : rb.IsRing pieces) :
    P.parse h rb =
      ((P.machine.scan h .fresh rb.tape).ret, (P.machine.scan h .fresh rb.tape).obj,
        ReadBuffer.advance^[(P.machine.scan h .fresh rb.tape).used] rb) := by
  rw [parse, IOBuffer.getBufferUsed_eq hr]
  exact P.parserLoop_eq hr rfl

/-- What a caller of `ParserHeader` sees of the end of a scan that started at the cell `a`. -/
def Sees (r : ParserRet × η × ReadBuffer) (a : Iterator)
    (s : Scanner.Res η ParserLocals ParserRet) : Prop :=
  r.1 = s.ret ∧ r.2.1 = s.obj ∧ r.2.2.readpos = pieces.next^[s.used] a

/-- One call on bytes received into an empty buffer. -/
lemma parse_recive (hr : rb.IsRing pieces) (hempty : rb.isEmpty) (bs : Bytes)
    (hfit : bs.length < pieces.cap) :
    Sees (P.parse h (rb.recive bs)) rb.readpos
      (P.machine.scan h .fresh ((pieces.walk rb.readpos bs.length).zip bs)) := by
  obtain ⟨hrr, -, htape⟩ := ReadBuffer.recive_empty hr hempty bs hfit
  rw [P.parse_eq hrr, htape]
  exact ⟨rfl, rfl, ReadBuffer.readpos_iterate_advance hrr _⟩

/-- The calls for a sequence of chunks are the feed of their tapes. -/
lemma feedChunks_eq (hr : rb.IsRing pieces) (hempty : rb.isEmpty) (chunks : List Bytes)
    (hfit : chunks.flatten.length < pieces.cap) :
    Sees (feedChunks P.parse h rb chunks) rb.readpos
      (P.machine.feed h (tapes rb.readpos chunks)) := by
  induction chunks generalizing h rb with
  | nil => exact ⟨rfl, rfl, rfl⟩
  | cons c cs ih =>
    rw [List.flatten_cons, List.length_append] at hfit
    obtain ⟨hret, hobj, hpos⟩ := P.parse_recive (h := h) hr hempty c (by omega)
    have hne : tapes (pieces.next^[c.length] rb.readpos) cs ≠ [] ↔ cs ≠ [] := by
      cases cs <;> simp [tapes]
    rw [feedChunks, tapes, Machine.feed]
    by_cases hhalf : (P.parse h (rb.recive c)).1 = .half ∧ cs ≠ []
    · -- the call has consumed the chunk, so that the buffer is empty again
      have hhalf' := hhalf.1
      rw [hret] at hhalf'
      have hused := Machine.used_of_half (M := P.machine) hhalf'
      rw [List.length_zip, Shape.length_walk, Nat.min_self] at hused
      obtain ⟨hrr, hlen, htape⟩ := ReadBuffer.recive_empty hr hempty c (by omega)
      rw [if_pos hhalf, if_pos ⟨hhalf', hne.mpr hhalf.2⟩]
      have hnext := P.parse_eq (h := h) hrr
      rw [htape, hused] at hnext
      have hr' : (P.parse h (rb.recive c)).2.2.IsRing pieces := by
        rw [hnext]
        exact ReadBuffer.isRing_iterate_advance hrr _
      have hempty' : (P.parse h (rb.recive c)).2.2.isEmpty := by
        rw [hnext]
        exact ReadBuffer.isEmpty_iterate_advance hrr hlen
      obtain ⟨hret', hobj', hpos'⟩ :=
        ih (h := (P.parse h (rb.recive c)).2.1) hr' hempty' (by omega)
      rw [hpos, hused, hobj] at hret' hobj' hpos'
      refine ⟨?_, ?_, ?_⟩
      · rw [hobj]
        exact hret'
      · rw [hobj]
        exact hobj'
      · rw [hobj, hpos', Scanner.Res.shift_used, show (P.machine.scan h P.machine.fresh _).used
          = c.length from hused, Nat.add_comm, Function.iterate_add_apply]
        rfl
    · rw [if_neg hhalf, if_neg]
      · exact ⟨hret, hobj, hpos⟩
      · rintro ⟨hh, hcs⟩
        exact hhalf ⟨hret.trans hh, hne.mp hcs⟩

/-! ## Header values -/

/-- The bytes complete the value that the scratch array has the start of: they go on to a
`'\r'` and the token can be moved. -/
def completesValue (checked : Bool) : Scratch → Bytes → Bool
  | _, [] => false
  | s, c :: rest =>
      if checked = true ∧ maxKeyLen ≤ s.pos then false
      else if c = 13 then s.moveBufTo.isSome
      else
        match s.put c with
        | none => false
        | some s => completesValue checked s rest

variable {a : Iterator × UInt8} {t : Tape}

/-- Outside a header value the locals are as at the start of a call. -/
def Good (h : η) (l : ParserLocals) : Prop := P.state h ≠ P.value → l = .fresh

/-- What a step of either parser does: the headers stay, or a value is stored. -/
lemma step_spec (hg : P.Good h l) (a : Iterator × UInt8) :
    (P.step h l a).All (fun _ h' => P.Good h' l ∧ P.headers h' = P.headers h ∧
      P.state h' = P.state h) fun h' l' =>
      P.Good h' l' ∧
        (P.headers h' = P.headers h ∧ (P.state h = P.value → l' = l) ∧
            (P.state h ≠ P.value → P.state h' = P.value →
              l'.value = [] ∧ (P.checked = true → l'.key ≠ [])) ∨
          P.state h = P.value ∧ P.state h' ≠ P.value ∧
            ∃ tok, P.headers h' = (P.headers h).insert l.key (l.value ++ tok)) := by
  obtain ⟨it, c⟩ := a
  by_cases hv : P.state h = P.value
  · rw [P.step_value h l it c hv]
    split
    · exact ⟨hg, rfl, rfl⟩
    split
    · rcases (P.scratch h).moveBufTo with _ | ⟨tok, s⟩
      · exact ⟨hg, rfl, rfl⟩
      · exact ⟨fun _ => rfl, Or.inr ⟨hv, P.state_store _ _ _ _, tok, P.headers_store _ _ _ _⟩⟩
    · rcases (P.scratch h).put c with _ | s
      · exact ⟨hg, rfl, rfl⟩
      · refine ⟨fun hne => absurd ((P.state_put h s).trans hv) hne, Or.inl ?_⟩
        exact ⟨P.headers_put h s, fun _ => rfl, fun hne => absurd hv hne⟩
  · have hall := P.step_all h l (it, c)
    rcases hs : P.step h l (it, c) with ⟨r, h'⟩ | ⟨h', l'⟩
    · rw [hs] at hall
      exact ⟨fun _ => hg hv, hall.2⟩
    · rw [hs] at hall
      obtain ⟨hheaders, ⟨hne, hl⟩ | ⟨hv', hl⟩⟩ := hall hv (hg hv)
      · exact ⟨fun _ => hl, Or.inl ⟨hheaders, fun hc => absurd hc hv, fun _ hc => absurd hc hne⟩⟩
      · exact ⟨fun hne => absurd hv' hne, Or.inl ⟨hheaders, fun hc => absurd hc hv, fun _ _ => hl⟩⟩

lemma good_fresh (h : η) : P.Good h .fresh := fun _ => rfl

lemma good_go {h' : η} {l' : ParserLocals} (hg : P.Good h l) (hs : P.step h l a = .go h' l') :
    P.Good h' l' := by
  have hspec := P.step_spec hg a
  rw [hs] at hspec
  exact hspec.1

lemma good_stop {r : ParserRet} {h' : η} (hg : P.Good h l) (hs : P.step h l a = .stop r h') :
    P.Good h' l := by
  have hspec := P.step_spec hg a
  rw [hs] at hspec
  exact hspec.1

lemma good_feed (ts : List Tape) : P.Good (P.machine.feed h ts).obj (P.machine.feed h ts).loc :=
  Machine.feed_invariant (fun _ _ _ _ _ => P.good_go) (fun _ _ _ _ _ => P.good_stop)
    (fun h _ _ => P.good_fresh h) (P.good_fresh h)

/-- A header that is there stays there. -/
def Holds (key : Bytes) (h : η) (l : ParserLocals) : Prop := P.Good h l ∧ key ∈ P.headers h

variable {key : Bytes}

lemma holds_go {h' : η} {l' : ParserLocals} (hh : P.Holds key h l)
    (hs : P.step h l a = .go h' l') : P.Holds key h' l' := by
  have hspec := P.step_spec hh.1 a
  rw [hs] at hspec
  obtain ⟨hg, ⟨hheaders, -⟩ | ⟨-, -, tok, hheaders⟩⟩ := hspec
  · exact ⟨hg, by rw [hheaders]; exact hh.2⟩
  · exact ⟨hg, by rw [hheaders]; exact Std.ExtTreeMap.mem_insert.mpr (Or.inr hh.2)⟩

lemma holds_stop {r : ParserRet} {h' : η} (hh : P.Holds key h l)
    (hs : P.step h l a = .stop r h') : P.Holds key h' l := by
  have hspec := P.step_spec hh.1 a
  rw [hs] at hspec
  exact ⟨hspec.1, by rw [hspec.2.1]; exact hh.2⟩

lemma holds_scan (hh : P.Holds key h l) :
    P.Holds key (P.machine.scan h l t).obj (P.machine.scan h l t).loc :=
  Machine.scan_invariant (fun _ _ _ _ _ => P.holds_go) (fun _ _ _ _ _ => P.holds_stop) hh

lemma holds_feed (ts : List Tape) (hh : P.Holds key h .fresh) :
    P.Holds key (P.machine.feed h ts).obj (P.machine.feed h ts).loc :=
  Machine.feed_invariant (fun _ _ _ _ _ => P.holds_go) (fun _ _ _ _ _ => P.holds_stop)
    (fun h _ hh => ⟨P.good_fresh h, hh.2⟩) hh

/-- A parser that refuses headers without a name stores none in one call. -/
lemma nil_notMem_scan (hc : P.checked = true) (h0 : [] ∉ P.headers h) (hv : P.state h ≠ P.value) :
    [] ∉ P.headers (P.machine.scan h .fresh t).obj := by
  have hinv : P.Good (P.machine.scan h .fresh t).obj (P.machine.scan h .fresh t).loc ∧
      [] ∉ P.headers (P.machine.scan h .fresh t).obj ∧
      (P.state (P.machine.scan h .fresh t).obj = P.value →
        (P.machine.scan h .fresh t).loc.key ≠ []) := by
    refine Machine.scan_invariant
      (P := fun h l => P.Good h l ∧ [] ∉ P.headers h ∧ (P.state h = P.value → l.key ≠ []))
      ?_ ?_ ⟨P.good_fresh h, h0, fun hc => absurd hc hv⟩
    · rintro h l a h' l' ⟨hg, hnil, hkey⟩ hs
      have hspec := P.step_spec hg a
      rw [show P.step h l a = .go h' l' from hs] at hspec
      obtain ⟨hg', ⟨hheaders, hsame, hnew⟩ | ⟨hval, hne, tok, hheaders⟩⟩ := hspec
      · refine ⟨hg', by rwa [hheaders], ?_⟩
        intro hval'
        by_cases hval : P.state h = P.value
        · rw [hsame hval]
          exact hkey hval
        · exact (hnew hval hval').2 hc
      · refine ⟨hg', ?_, fun hval' => absurd hval' hne⟩
        rw [hheaders, Std.ExtTreeMap.mem_insert, not_or]
        exact ⟨fun heq => hkey hval (Std.LawfulEqCmp.eq_of_compare heq), hnil⟩
    · rintro h l a r h' ⟨hg, hnil, hkey⟩ hs
      have hspec := P.step_spec hg a
      rw [show P.step h l a = .stop r h' from hs] at hspec
      obtain ⟨hg', hheaders, hstate⟩ := hspec
      exact ⟨hg', by rwa [hheaders], fun hval => hkey (hstate ▸ hval)⟩
  exact hinv.2.1

/-- Inside a value that the input does not complete the locals make no difference. -/
lemma scan_agree {l' : ParserLocals} (hv : P.state h = P.value)
    (hno : completesValue P.checked (P.scratch h) (t.map Prod.snd) = false) :
    (P.machine.scan h l t).Agree (P.machine.scan h l' t) := by
  induction t generalizing h with
  | nil => exact ⟨rfl, rfl, rfl⟩
  | cons a t ih =>
    obtain ⟨it, c⟩ := a
    have hdone : P.machine.done h = false := by
      simpa [machine, hv] using P.value_ne_atEnd
    have hstep := fun l => P.step_value h l it c hv
    have hstop : ∀ {r}, (∀ l, P.step h l (it, c) = .stop r h) →
        (P.machine.scan h l ((it, c) :: t)).Agree (P.machine.scan h l' ((it, c) :: t)) := by
      intro r hs
      rw [Machine.scan_stop hdone (hs l), Machine.scan_stop hdone (hs l')]
      exact ⟨rfl, rfl, rfl⟩
    rw [List.map_cons, completesValue] at hno
    by_cases hfull : P.checked = true ∧ maxKeyLen ≤ (P.scratch h).pos
    · exact hstop fun l => by rw [hstep, if_pos hfull]
    rw [if_neg hfull] at hno
    by_cases hc : c = 13
    · rw [if_pos hc] at hno
      have hnone : (P.scratch h).moveBufTo = none := by simpa using hno
      exact hstop fun l => by rw [hstep, if_neg hfull, if_pos hc, hnone]
    rw [if_neg hc] at hno
    rcases hput : (P.scratch h).put c with _ | s
    · exact hstop fun l => by rw [hstep, if_neg hfull, if_neg hc, hput]
    · have hgo : ∀ l, P.step h l (it, c) = .go (P.put h s) l := fun l => by
        rw [hstep, if_neg hfull, if_neg hc, hput]
      rw [Machine.scan_go hdone (hgo l), Machine.scan_go hdone (hgo l')]
      rw [hput] at hno
      refine Scanner.Res.Agree.shift (ih ((P.state_put h s).trans hv) ?_) 1
      rw [P.scratch_put]
      exact hno

/-- Inside a value whose name is lost, an input that completes it stores it without a name,
or leaves it to the rest of the input to do so. -/
lemma scan_completes {u : Bytes} (hv : P.state h = P.value) (hkey : l.key = [])
    (hcomp : completesValue P.checked (P.scratch h) (t.map Prod.snd ++ u) = true) :
    P.Holds [] (P.machine.scan h l t).obj (P.machine.scan h l t).loc ∨
      (P.machine.scan h l t).ret = .half ∧
        P.state (P.machine.scan h l t).obj = P.value ∧
        completesValue P.checked (P.scratch (P.machine.scan h l t).obj) u = true := by
  have hdone : ∀ {h : η}, P.state h = P.value → P.machine.done h = false := fun hv => by
    simpa [machine, hv] using P.value_ne_atEnd
  induction t generalizing h with
  | nil =>
    right
    rw [Machine.scan_nil (hdone hv)]
    exact ⟨rfl, hv, hcomp⟩
  | cons a t ih =>
    obtain ⟨it, c⟩ := a
    have hstep := P.step_value h l it c hv
    rw [List.map_cons, List.cons_append, completesValue] at hcomp
    by_cases hfull : P.checked = true ∧ maxKeyLen ≤ (P.scratch h).pos
    · rw [if_pos hfull] at hcomp
      exact absurd hcomp (by decide)
    rw [if_neg hfull] at hcomp hstep
    by_cases hc : c = 13
    · -- the value is stored
      left
      rw [if_pos hc] at hcomp hstep
      obtain ⟨⟨tok, s⟩, hmove⟩ := Option.isSome_iff_exists.mp hcomp
      rw [hmove] at hstep
      rw [Machine.scan_go (hdone hv) hstep]
      refine P.holds_scan ⟨fun _ => rfl, ?_⟩
      rw [P.headers_store, hkey]
      exact Std.ExtTreeMap.mem_insert_self
    rw [if_neg hc] at hcomp hstep
    rcases hput : (P.scratch h).put c with _ | s
    · rw [hput] at hcomp
      exact absurd hcomp Bool.false_ne_true
    · rw [hput] at hcomp hstep
      rw [Machine.scan_go (hdone hv) hstep]
      refine ih ((P.state_put h s).trans hv) ?_
      rw [P.scratch_put]
      exact hcomp

/-- When calls start inside a value and their input completes it, it is stored without a
name. -/
lemma feed_completes {ts : List Tape} (hv : P.state h = P.value)
    (hcomp : completesValue P.checked (P.scratch h) (ts.flatten.map Prod.snd) = true) :
    [] ∈ P.headers (P.machine.feed h ts).obj := by
  induction ts generalizing h with
  | nil => exact absurd hcomp (by simp [completesValue])
  | cons t ts ih =>
    rw [List.flatten_cons, List.map_append] at hcomp
    rcases P.scan_completes (l := .fresh) hv rfl hcomp with hholds | ⟨hhalf, hv', hcomp'⟩
    · rw [Machine.feed]
      split
      · exact (P.holds_feed ts ⟨P.good_fresh _, hholds.2⟩).2
      · exact hholds.2
    · have hne : ts ≠ [] := by
        rintro rfl
        exact absurd hcomp' (by simp [completesValue])
      rw [Machine.feed_cons_of_half hhalf hne]
      exact ih hv' hcomp'

/-! ## Chunks -/

/-- The calls have ended inside a header value, with a call that asks for more, and the rest
of the input completes the value. -/
def CutsValue (r : ParserRet × η × ReadBuffer) (rest : Bytes) : Prop :=
  r.1 = .half ∧ P.state r.2.1 = P.value ∧
    completesValue P.checked (P.scratch r.2.1) rest = true

/-- No call for the chunks starts inside a header value that the chunks complete. -/
def KeepsNames (h : η) (rb : ReadBuffer) (chunks : List Bytes) : Prop :=
  ∀ pre post, chunks = pre ++ post → ¬ P.CutsValue (feedChunks P.parse h rb pre) post.flatten

variable {chunks : List Bytes} (hr : rb.IsRing pieces) (hempty : rb.isEmpty)
  (hfit : chunks.flatten.length < pieces.cap)

include hr hempty hfit

/-- Chunks that keep the names are parsed like the whole. -/
lemma same_of_keepsNames (hstart : P.state h ≠ .atEnd) (hkeep : P.KeepsNames h rb chunks) :
    (feedChunks P.parse h rb chunks).1 = (P.parse h (rb.recive chunks.flatten)).1 ∧
      (feedChunks P.parse h rb chunks).2.1 = (P.parse h (rb.recive chunks.flatten)).2.1 ∧
      (feedChunks P.parse h rb chunks).2.2.readpos
        = (P.parse h (rb.recive chunks.flatten)).2.2.readpos := by
  obtain ⟨hret, hobj, hpos⟩ := P.feedChunks_eq (h := h) hr hempty _ hfit
  obtain ⟨hret', hobj', hpos'⟩ := P.parse_recive (h := h) hr hempty _ hfit
  rw [← flatten_tapes] at hret' hobj' hpos'
  have hagree : (P.machine.feed h (tapes rb.readpos chunks)).Agree
      (P.machine.scan h .fresh (tapes rb.readpos chunks).flatten) := by
    by_cases hne : tapes rb.readpos chunks = []
    · rw [hne, List.flatten_nil, Machine.scan_nil (by simpa [machine] using hstart)]
      exact ⟨rfl, rfl, rfl⟩
    · refine Machine.feed_eq_scan hne fun pre post hcut _ hhalf => ?_
      obtain ⟨ds, es, rfl, rfl, rfl⟩ := tapes_eq_append hcut
      rw [List.flatten_append, List.length_append] at hfit
      obtain ⟨hdret, hdobj, -⟩ := P.feedChunks_eq (h := h) hr hempty ds (by omega)
      by_cases hv : P.state (P.machine.feed h (tapes rb.readpos ds)).obj = P.value
      · refine P.scan_agree hv ?_
        rw [map_snd_flatten_tapes]
        by_contra hcomp
        refine hkeep ds es rfl ⟨hdret.trans hhalf, ?_, ?_⟩
        · rw [hdobj]
          exact hv
        · rw [hdobj]
          simpa using hcomp
      · rw [P.good_feed (tapes rb.readpos ds) hv]
        exact Scanner.Res.Agree.refl _
  exact ⟨by rw [hret, hret', hagree.1], by rw [hobj, hobj', hagree.2.1],
    by rw [hpos, hpos', hagree.2.2]⟩

/-- Chunks that lose a name leave a header without a name. -/
lemma nil_mem_of_not_keepsNames (hkeep : ¬ P.KeepsNames h rb chunks) :
    [] ∈ P.headers (feedChunks P.parse h rb chunks).2.1 := by
  obtain ⟨pre, post, rfl, hhalf, hv, hcomp⟩ :
      ∃ pre post, chunks = pre ++ post ∧
        P.CutsValue (feedChunks P.parse h rb pre) post.flatten := by
    simpa [KeepsNames] using hkeep
  obtain ⟨-, hobj, -⟩ := P.feedChunks_eq (h := h) hr hempty _ hfit
  rw [List.flatten_append, List.length_append] at hfit
  obtain ⟨hdret, hdobj, -⟩ := P.feedChunks_eq (h := h) hr hempty pre (by omega)
  rw [hdret] at hhalf
  rw [hdobj] at hv hcomp
  have hne : tapes (pieces.next^[pre.flatten.length] rb.readpos) post ≠ [] := by
    cases post with
    | nil => exact absurd hcomp (by simp [completesValue])
    | cons c cs => simp [tapes]
  rw [hobj, tapes_append, Machine.feed_append_of_half hne hhalf]
  refine P.feed_completes hv ?_
  rw [map_snd_flatten_tapes]
  exact hcomp

end HeaderParser

/-! ## The two headers -/

/-- The same end of a request header, as far as the program looks at it. -/
def HttpRequestHeader.Same (r r' : ParserRet × HttpRequestHeader × ReadBuffer) : Prop :=
  r.1 = r'.1 ∧ r.2.1.method = r'.2.1.method ∧ r.2.1.path = r'.2.1.path ∧
    r.2.1.version = r'.2.1.version ∧ r.2.1.headers = r'.2.1.headers ∧
    r.2.1.state = r'.2.1.state ∧ r.2.2.readpos = r'.2.2.readpos

/-- The same end of a response header. -/
def HttpReponseHeader.Same (r r' : ParserRet × HttpReponseHeader × ReadBuffer) : Prop :=
  r.1 = r'.1 ∧ r.2.1.status = r'.2.1.status ∧ r.2.1.statusMsg = r'.2.1.statusMsg ∧
    r.2.1.version = r'.2.1.version ∧ r.2.1.headers = r'.2.1.headers ∧
    r.2.1.state = r'.2.1.state ∧ r.2.2.readpos = r'.2.2.readpos

section

variable {rb : ReadBuffer} (hr : rb.IsRing pieces) (hempty : rb.isEmpty) {chunks : List Bytes}
  (hfit : chunks.flatten.length < pieces.cap)

include hr hempty hfit

lemma HttpRequestHeader.same_iff (h : HttpRequestHeader) :
    Same (feedChunks parserHeader h.reset rb chunks)
        (h.reset.parserHeader (rb.recive chunks.flatten)) ↔
      parser.KeepsNames h.reset rb chunks := by
  have hstate : parser.state h.reset = .start := rfl
  constructor
  · intro hsame
    by_contra hkeep
    have hnil := parser.nil_mem_of_not_keepsNames hr hempty hfit hkeep
    have hheaders := hsame.2.2.2.2.1
    -- one call stores no header without a name
    have hnot : [] ∉ (h.reset.parserHeader (rb.recive chunks.flatten)).2.1.headers := by
      obtain ⟨-, hobj, -⟩ := parser.parse_recive (h := h.reset) hr hempty _ hfit
      change [] ∉ parser.headers (parser.parse h.reset (rb.recive chunks.flatten)).2.1
      rw [hobj]
      exact parser.nil_notMem_scan rfl Std.ExtTreeMap.not_mem_empty (by rw [hstate]; decide)
    exact hnot (hheaders ▸ hnil)
  · intro hkeep
    obtain ⟨hret, hobj, hpos⟩ :=
      parser.same_of_keepsNames hr hempty hfit (by rw [hstate]; decide) hkeep
    exact ⟨hret, congrArg method hobj, congrArg path hobj, congrArg (·.version) hobj,
      congrArg (·.headers) hobj, congrArg (·.state) hobj, hpos⟩

lemma HttpReponseHeader.same_of_keepsNames (h : HttpReponseHeader)
    (hkeep : parser.KeepsNames h.reset rb chunks) :
    Same (feedChunks parserHeader h.reset rb chunks)
      (h.reset.parserHeader (rb.recive chunks.flatten)) := by
  have hstate : parser.state h.reset = .start := rfl
  obtain ⟨hret, hobj, hpos⟩ :=
    parser.same_of_keepsNames hr hempty hfit (by rw [hstate]; decide) hkeep
  exact ⟨hret, congrArg status hobj, congrArg statusMsg hobj, congrArg (·.version) hobj,
    congrArg (·.headers) hobj, congrArg (·.state) hobj, hpos⟩

lemma HttpReponseHeader.keepsNames_of_same (h : HttpReponseHeader)
    (hnot : [] ∉ (h.reset.parserHeader (rb.recive chunks.flatten)).2.1.headers)
    (hsame : Same (feedChunks parserHeader h.reset rb chunks)
      (h.reset.parserHeader (rb.recive chunks.flatten))) :
    parser.KeepsNames h.reset rb chunks := by
  by_contra hkeep
  have hnil := parser.nil_mem_of_not_keepsNames hr hempty hfit hkeep
  have hheaders := hsame.2.2.2.2.1
  exact hnot (hheaders ▸ hnil)

end

/-- **Header parsing and the arrival of the bytes.**  Bytes that fit into an empty read buffer
are parsed from chunks as in one call exactly when no call starts inside a header value that
the chunks complete; for a response this is exact unless it has a header without a name. -/
theorem parserHeader_chunks_iff {rb : ReadBuffer} (hrb : rb.Reachable) (hempty : rb.isEmpty)
    {chunks : List Bytes} (hfit : chunks.flatten.length < maxBufferPieces * defaultBufferSize) :
    (∀ h : HttpRequestHeader,
      HttpRequestHeader.Same (feedChunks HttpRequestHeader.parserHeader h.reset rb chunks)
          (h.reset.parserHeader (rb.recive chunks.flatten)) ↔
        HttpRequestHeader.parser.KeepsNames h.reset rb chunks) ∧
    ∀ h : HttpReponseHeader,
      (HttpReponseHeader.parser.KeepsNames h.reset rb chunks →
        HttpReponseHeader.Same (feedChunks HttpReponseHeader.parserHeader h.reset rb chunks)
          (h.reset.parserHeader (rb.recive chunks.flatten))) ∧
      ([] ∉ (h.reset.parserHeader (rb.recive chunks.flatten)).2.1.headers →
        HttpReponseHeader.Same (feedChunks HttpReponseHeader.parserHeader h.reset rb chunks)
          (h.reset.parserHeader (rb.recive chunks.flatten)) →
        HttpReponseHeader.parser.KeepsNames h.reset rb chunks) := by
  have hr := hrb.isRing
  rw [← cap_pieces] at hfit
  exact ⟨HttpRequestHeader.same_iff hr hempty hfit, fun h =>
    ⟨HttpReponseHeader.same_of_keepsNames hr hempty hfit h,
      HttpReponseHeader.keepsNames_of_same hr hempty hfit h⟩⟩

/-- A request whose only header is cut behind the name. -/
def cutRequest : List Bytes := [ascii "GET /a H\r\nK:", ascii "v\r\n\r\n"]

/-- Its value is stored without a name. -/
theorem parserHeader_chunks_ne :
    ¬ ∀ rb : ReadBuffer, rb.Reachable → rb.isEmpty → ∀ chunks : List Bytes,
      chunks.flatten.length < maxBufferPieces * defaultBufferSize →
      (∀ h : HttpRequestHeader,
        HttpRequestHeader.Same (feedChunks HttpRequestHeader.parserHeader h.reset rb chunks)
          (h.reset.parserHeader (rb.recive chunks.flatten))) ∧
      ∀ h : HttpReponseHeader,
        HttpReponseHeader.Same (feedChunks HttpReponseHeader.parserHeader h.reset rb chunks)
          (h.reset.parserHeader (rb.recive chunks.flatten)) := by
  intro hall
  have hr := ReadBuffer.isRing_init
  have hempty : ReadBuffer.init.isEmpty := rfl
  have hfit : cutRequest.flatten.length < pieces.cap := by
    rw [cap_pieces]
    decide
  have hsame := (hall _ ReadBuffer.reachable_init hempty cutRequest (by decide)).1 .init
  refine (HttpRequestHeader.same_iff hr hempty hfit .init).mp hsame [ascii "GET /a H\r\nK:"]
    [ascii "v\r\n\r\n"] rfl ?_
  obtain ⟨hret, hobj, -⟩ := HttpRequestHeader.parser.feedChunks_eq
    (h := HttpRequestHeader.init.reset) hr hempty [ascii "GET /a H\r\nK:"]
    (by rw [cap_pieces]; decide)
  refine ⟨?_, ?_, ?_⟩
  · rw [hret]
    decide +kernel
  · rw [hobj]
    decide +kernel
  · rw [hobj]
    decide +kernel

/-- The cut request in a fresh buffer. -/
theorem parserHeader_chunks_init :
    (∀ h : HttpRequestHeader,
      HttpRequestHeader.Same
          (feedChunks HttpRequestHeader.parserHeader h.reset ReadBuffer.init cutRequest)
          (h.reset.parserHeader (ReadBuffer.init.recive cutRequest.flatten)) ↔
        HttpRequestHeader.parser.KeepsNames h.reset ReadBuffer.init cutRequest) ∧
    ∀ h : HttpReponseHeader,
      (HttpReponseHeader.parser.KeepsNames h.reset ReadBuffer.init cutRequest →
        HttpReponseHeader.Same
          (feedChunks HttpReponseHeader.parserHeader h.reset ReadBuffer.init cutRequest)
          (h.reset.parserHeader (ReadBuffer.init.recive cutRequest.flatten))) ∧
      ([] ∉ (h.reset.parserHeader (ReadBuffer.init.recive cutRequest.flatten)).2.1.headers →
        HttpReponseHeader.Same
          (feedChunks HttpReponseHeader.parserHeader h.reset ReadBuffer.init cutRequest)
          (h.reset.parserHeader (ReadBuffer.init.recive cutRequest.flatten)) →
        HttpReponseHeader.parser.KeepsNames h.reset ReadBuffer.init cutRequest) :=
  parserHeader_chunks_iff ReadBuffer.reachable_init rfl (by decide)

end MTRpc
