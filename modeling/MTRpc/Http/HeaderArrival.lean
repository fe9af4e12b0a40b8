import MTRpc.Http.RequestRoundTrip
import MTRpc.Http.ResponseRoundTrip

/-!
# A message that arrives in chunks

A message is the text of a header and a body, and comes in chunks, each followed by a call of
`ParserHeader`.  In front of the end of the header every call consumes its chunk and asks for more;
behind it the calls return at once, and the body gathers in the read buffer (`arrivals_spec`).
-/

namespace MTRpc

open PieceRing (Shape)
open Scanner (Machine)
open Scratch (holding)

namespace ReadBuffer

variable {b : ReadBuffer} {bs : Bytes}

/-- A chunk that does not fill the buffer up. -/
lemma Reachable.recive (hb : b.Reachable) (hne : bs ≠ [])
    (hfit : b.unread.length + bs.length < pieces.cap) :
    (b.recive bs).Reachable ∧ (b.recive bs).unread = b.unread ++ bs := by
  have hr := hb.isRing
  have hpos := List.length_pos_of_ne_nil hne
  rw [IOBuffer.length_unread hr] at hfit
  obtain ⟨iov, hiov⟩ := exists_iov hr (by omega)
  have hoffer := IOBuffer.length_offer hr hiov
  have hst : b.Step (.recive bs) (b.recive bs) := ⟨iov, hiov, hpos, by rw [hoffer]; omega, rfl⟩
  exact ⟨hb.step hst, (IOBuffer.recive_spec hr hiov hfit).2⟩

lemma Reachable.iterate_advance (hb : b.Reachable) {n : ℕ} (hn : n ≤ b.used pieces) :
    (advance^[n] b).Reachable := by
  induction n generalizing b with
  | zero => exact hb
  | succ n ih =>
    have hr := hb.isRing
    obtain ⟨k, hk⟩ : ∃ k, b.used pieces = k + 1 := Nat.exists_eq_succ_of_ne_zero (by omega)
    have hadvance : b.Step .advance b.advance := by
      refine ⟨?_, rfl⟩
      intro hempty
      have hzero := (IOBuffer.isEmpty_iff hr).mp hempty
      omega
    exact ih (hb.step hadvance) (by rw [used_advance hr hk]; omega)

end ReadBuffer

/-! ## Chunks of a header -/

/-- More bytes complete a value that fewer complete. -/
lemma HeaderParser.completesValue_append {checked : Bool} {s : Scratch} {u v : Bytes}
    (h : HeaderParser.completesValue checked s u = true) :
    HeaderParser.completesValue checked s (u ++ v) = true := by
  induction u generalizing s with
  | nil => exact absurd h (by simp [HeaderParser.completesValue])
  | cons c u ih =>
    rw [HeaderParser.completesValue] at h
    rw [List.cons_append, HeaderParser.completesValue]
    split at h
    · exact absurd h (by simp)
    · next hopen =>
      rw [if_neg hopen]
      split at h
      · next hcr => rwa [if_pos hcr]
      · next hcr =>
        rw [if_neg hcr]
        cases hput : s.put c with
        | none => rw [hput] at h; exact absurd h (by simp)
        | some s' => rw [hput] at h; exact ih h

/-- One more chunk, when the calls before it have asked for more. -/
lemma feedChunks_snoc {η : Type} {parse : η → ReadBuffer → ParserRet × η × ReadBuffer} {h : η}
    {rb : ReadBuffer} {chunks : List Bytes} (hhalf : (feedChunks parse h rb chunks).1 = .half)
    (c : Bytes) :
    feedChunks parse h rb (chunks ++ [c]) = parse (feedChunks parse h rb chunks).2.1
      ((feedChunks parse h rb chunks).2.2.recive c) := by
  induction chunks generalizing h rb with
  | nil => simp [feedChunks]
  | cons d ds ih =>
    rw [List.cons_append, feedChunks]
    by_cases hd : (parse h (rb.recive d)).1 = .half
    · rw [if_pos ⟨hd, by simp⟩]
      by_cases hds : ds = []
      · subst hds
        simp [feedChunks]
      · have hfeed : feedChunks parse h rb (d :: ds)
            = feedChunks parse (parse h (rb.recive d)).2.1 (parse h (rb.recive d)).2.2 ds := by
          rw [feedChunks, if_pos ⟨hd, hds⟩]
        rw [hfeed] at hhalf ⊢
        exact ih hhalf
    · rw [feedChunks, if_neg fun hc => hd hc.1] at hhalf
      exact absurd hhalf hd

namespace HeaderParser

variable {η : Type} (P : HeaderParser η)

/-- The text takes the parser from `h` to the end of a header: `ends` is the object then, for the
cell of the last byte. -/
def Completes (h : η) (text : Bytes) (ends : Iterator → η) : Prop :=
  ∀ (t : Tape) (a : Iterator × UInt8) (u : Tape), (t ++ [a]).map Prod.snd = text →
    P.machine.scan h .fresh (t ++ a :: u) = ⟨.finish, ends a.1, .fresh, t.length + 1⟩

/-- A chunk is received, and the parser is called. -/
def arrive (s : ParserRet × η × ReadBuffer) (c : Bytes) : ParserRet × η × ReadBuffer :=
  P.parse s.2.1 (s.2.2.recive c)

/-- The calls for a sequence of chunks, behind the end of the header too. -/
def arrivals (h : η) (rb : ReadBuffer) (chunks : List Bytes) : ParserRet × η × ReadBuffer :=
  chunks.foldl P.arrive (.half, h, rb)

/-- In front of the end of the header, all that has come is consumed. -/
structure Before (s : ParserRet × η × ReadBuffer) : Prop where
  ret : s.1 = .half
  reachable : s.2.2.Reachable
  isEmpty : s.2.2.isEmpty

/-- Behind the end of the header, the buffer holds what has come of the body. -/
structure Behind (ends : Iterator → η) (body : Bytes) (s : ParserRet × η × ReadBuffer) : Prop where
  ret : s.1 = .finish
  reachable : s.2.2.Reachable
  unread : s.2.2.unread = body
  obj : ∃ it, s.2.1 = ends it ∧ pieces.Valid it ∧ s.2.2.readpos = Iterator.incr s.2.2.que it

variable {P} {h : η} {rb : ReadBuffer} {text : Bytes} {ends : Iterator → η} {chunks : List Bytes}

lemma KeepsNames.of_append {post : List Bytes} (hkeep : P.KeepsNames h rb (chunks ++ post)) :
    P.KeepsNames h rb chunks := by
  rintro pre mid rfl ⟨hhalf, hvalue, hcomp⟩
  refine hkeep pre (mid ++ post) (List.append_assoc _ _ _) ⟨hhalf, hvalue, ?_⟩
  rw [List.flatten_append]
  exact completesValue_append hcomp

/-- One chunk, for a parser that is not inside a header value. -/
lemma keepsNames_singleton {c : Bytes} (hstate : P.state h ≠ P.value) :
    P.KeepsNames h rb [c] := by
  rintro front back hcut ⟨-, hvalue, hcomp⟩
  rcases List.singleton_eq_append_iff.mp hcut with ⟨rfl, -⟩ | ⟨-, rfl⟩
  · exact hstate hvalue
  · exact absurd hcomp (by simp [completesValue])

lemma arrivals_snoc (c : Bytes) :
    P.arrivals h rb (chunks ++ [c]) = P.arrive (P.arrivals h rb chunks) c :=
  List.foldl_concat ..

/-- A part of the text that is not the whole of it does not end the call. -/
lemma Completes.half (hc : P.Completes h text ends) {t : Tape}
    (ht : t.map Prod.snd <+: text) (hlen : t.length < text.length) :
    (P.machine.scan h .fresh t).ret = .half := by
  by_contra hne
  obtain ⟨rest, hrest⟩ := ht
  obtain ⟨init, last, rfl⟩ : ∃ init last, rest = init ++ [last] := by
    refine (List.eq_nil_or_concat' rest).resolve_left ?_
    rintro rfl
    rw [List.append_nil] at hrest
    rw [← hrest, List.length_map] at hlen
    exact absurd hlen (lt_irrefl _)
  -- the call ignores what follows, whose last byte it should consume
  have hscan := hc (t ++ init.map fun c => (⟨0, 0⟩, c)) (⟨0, 0⟩, last) [] (by
    rw [← hrest]
    simp [Function.comp_def])
  have hsame := Machine.scan_append_of_ne_half (M := P.machine) (h := h) (l := .fresh) (t := t)
    (u := (init.map fun c => ((⟨0, 0⟩ : Iterator), c)) ++ [(⟨0, 0⟩, last)]) hne
  rw [← List.append_assoc, hscan] at hsame
  have hused := Machine.used_le (M := P.machine) (h := h) (l := .fresh) (t := t)
  rw [← hsame, List.length_append] at hused
  simp only at hused
  omega

/-- A call on the whole text, with its cells. -/
lemma Completes.scan (hc : P.Completes h text ends) (htext : text ≠ []) (a : Iterator)
    (more : Bytes) :
    P.machine.scan h .fresh ((pieces.walk a (text ++ more).length).zip (text ++ more))
      = ⟨.finish, ends (pieces.next^[text.length - 1] a), .fresh, text.length⟩ := by
  obtain ⟨init, last, rfl⟩ : ∃ init last, text = init ++ [last] :=
    (List.eq_nil_or_concat' text).resolve_left htext
  have hzip : (pieces.walk a ((init ++ [last]) ++ more).length).zip ((init ++ [last]) ++ more)
      = (pieces.walk a init.length).zip init ++ (pieces.next^[init.length] a, last)
        :: (pieces.walk (pieces.next (pieces.next^[init.length] a)) more.length).zip more := by
    rw [List.append_assoc, List.length_append, Shape.walk_add,
      List.zip_append (Shape.length_walk _), List.singleton_append, List.length_cons,
      Shape.walk_succ, List.zip_cons_cons]
  have hmap : ((pieces.walk a init.length).zip init ++ [(pieces.next^[init.length] a, last)]).map
      Prod.snd = init ++ [last] := by
    rw [List.map_append, List.map_snd_zip (by rw [Shape.length_walk])]
    rfl
  rw [hzip, hc _ _ _ hmap, List.length_zip, Shape.length_walk, Nat.min_self, List.length_append]
  rfl

/-- A chunk for a parser that has finished. -/
lemma Behind.arrive {body c : Bytes} {s : ParserRet × η × ReadBuffer}
    (hends : ∀ it, P.state (ends it) = .atEnd) (hs : Behind ends body s) (hne : c ≠ [])
    (hfit : body.length + c.length < pieces.cap) :
    Behind ends (body ++ c) (P.arrive s c) := by
  obtain ⟨-, hreach, hunread, it, hobj, hvalid, hpos⟩ := hs
  obtain ⟨hreach', hunread'⟩ := hreach.recive hne (by rwa [hunread])
  have hscan := Machine.scan_done (M := P.machine) (l := .fresh) (t := (s.2.2.recive c).tape)
    ((P.machine_done_iff).mpr (hends it))
  have harrive : P.arrive s c = (.finish, ends it, s.2.2.recive c) := by
    rw [HeaderParser.arrive, hobj, P.parse_eq hreach'.isRing, hscan]
    rfl
  rw [harrive]
  refine ⟨rfl, hreach', hunread'.trans (by rw [hunread]), it, rfl, hvalid, ?_⟩
  have hbefore := Iterator.incr_eq hreach.isRing.toFits hvalid
  have hafter := Iterator.incr_eq hreach'.isRing.toFits hvalid
  exact hpos.trans (hbefore.trans hafter.symm)

/-- Chunks that keep the names end as one call on all their bytes does. -/
lemma sees_feedChunks (hrb : rb.Reachable) (hempty : rb.isEmpty)
    (hfit : chunks.flatten.length < pieces.cap) (hstart : P.state h ≠ .atEnd)
    (hkeep : P.KeepsNames h rb chunks) :
    Sees (feedChunks P.parse h rb chunks) rb.readpos (P.machine.scan h .fresh
      ((pieces.walk rb.readpos chunks.flatten.length).zip chunks.flatten)) := by
  obtain ⟨hret, hobj, hpos⟩ := P.same_of_keepsNames hrb.isRing hempty hfit hstart hkeep
  obtain ⟨hret', hobj', hpos'⟩ := P.parse_recive (h := h) hrb.isRing hempty _ hfit
  exact ⟨hret.trans hret', hobj.trans hobj', hpos.trans hpos'⟩

/-- A chunk in front of the end of the header: all of it is consumed, or up to the end. -/
lemma Before.arrive {body c : Bytes} (hc : P.Completes h text ends) (htext : text ≠ [])
    (hstart : P.state h ≠ .atEnd) (hrb : rb.Reachable) (hempty : rb.isEmpty) (hne : c ≠ [])
    (hfit : chunks.flatten.length + c.length < pieces.cap)
    (hkeep : P.KeepsNames h rb (chunks ++ [c])) (hpart : chunks.flatten ++ c <+: text ++ body)
    (hlt : chunks.flatten.length < text.length)
    (hs : Before (feedChunks P.parse h rb chunks)) :
    (chunks.flatten.length + c.length < text.length →
        Before (feedChunks P.parse h rb (chunks ++ [c]))) ∧
      (text.length ≤ chunks.flatten.length + c.length →
        Behind ends ((chunks.flatten ++ c).drop text.length)
          (feedChunks P.parse h rb (chunks ++ [c]))) := by
  have hflat : (chunks ++ [c]).flatten = chunks.flatten ++ c := by simp
  have hlen : (chunks ++ [c]).flatten.length = chunks.flatten.length + c.length := by
    rw [hflat, List.length_append]
  obtain ⟨-, -, hread⟩ := sees_feedChunks hrb hempty (by omega) hstart hkeep.of_append
  obtain ⟨hret, hobj, hpos⟩ := sees_feedChunks hrb hempty (by omega) hstart hkeep
  have hzip : ∀ bs : Bytes, ((pieces.walk rb.readpos bs.length).zip bs).length = bs.length := by
    intro bs
    rw [List.length_zip, Shape.length_walk, Nat.min_self]
  have hsnd : ∀ bs : Bytes, ((pieces.walk rb.readpos bs.length).zip bs).map Prod.snd = bs :=
    fun bs => List.map_snd_zip (by rw [Shape.length_walk])
  have hhalf : ∀ bs : Bytes, bs <+: text ++ body → bs.length < text.length →
      (P.machine.scan h .fresh ((pieces.walk rb.readpos bs.length).zip bs)).ret = .half := by
    intro bs hbs hshort
    refine hc.half ?_ (by rwa [hzip])
    rw [hsnd]
    exact List.prefix_of_prefix_length_le hbs (List.prefix_append _ _) hshort.le
  -- what has come before is consumed
  rw [Machine.used_of_half (hhalf _ ((List.prefix_append _ _).trans hpart) hlt), hzip] at hread
  -- the call for the chunk
  have hnil : (feedChunks P.parse h rb chunks).2.2.unread = [] := by
    rw [← List.length_eq_zero_iff, IOBuffer.length_unread hs.reachable.isRing]
    exact (IOBuffer.isEmpty_iff hs.reachable.isRing).mp hs.isEmpty
  obtain ⟨hreach, hunread⟩ := hs.reachable.recive hne (by rw [hnil, List.length_nil]; omega)
  rw [hnil, List.nil_append] at hunread
  have hsnoc := (feedChunks_snoc hs.ret c).trans (P.parse_eq hreach.isRing)
  have htape : ((feedChunks P.parse h rb chunks).2.2.recive c).tape.length = c.length := by
    rw [← List.length_map (f := Prod.snd), ReadBuffer.map_snd_tape, hunread]
  have hused : ((feedChunks P.parse h rb chunks).2.2.recive c).used pieces = c.length := by
    rw [← IOBuffer.length_unread hreach.isRing, hunread]
  have hk := Machine.used_le (M := P.machine) (h := (feedChunks P.parse h rb chunks).2.1)
    (l := .fresh) (t := ((feedChunks P.parse h rb chunks).2.2.recive c).tape)
  rw [htape] at hk
  rw [hsnoc] at hret hobj hpos ⊢
  constructor
  · intro hshort
    rw [hhalf _ (by rwa [hflat]) (by omega)] at hret
    have hall := Machine.used_of_half hret
    rw [htape] at hall
    refine ⟨hret, hreach.iterate_advance (by rw [hused]; exact hk), ?_⟩
    exact ReadBuffer.isEmpty_iterate_advance hreach.isRing (hused.trans hall.symm)
  · intro hle
    obtain ⟨more, hmore⟩ := List.prefix_of_prefix_length_le (List.prefix_append text body) hpart
      (by rw [List.length_append]; exact hle)
    rw [hflat, ← hmore, hc.scan htext] at hret hobj hpos
    -- the bytes of the chunk up to the end of the header are consumed
    generalize P.machine.scan (feedChunks P.parse h rb chunks).2.1 .fresh
      ((feedChunks P.parse h rb chunks).2.2.recive c).tape = r at hret hobj hpos hk ⊢
    have hcount : r.used + chunks.flatten.length = text.length := by
      refine Shape.iterate_inj hrb.isRing.read_valid (by omega) (by omega) ?_
      rw [Function.iterate_add_apply, ← hread, ← hpos]
      exact (ReadBuffer.readpos_iterate_advance hreach.isRing _).symm
    refine ⟨hret, hreach.iterate_advance (by rw [hused]; exact hk), ?_, _, hobj,
      Shape.valid_iterate hrb.isRing.read_valid _, ?_⟩
    · rw [ReadBuffer.unread_iterate_advance hreach.isRing (by rw [hunread]; exact hk), hunread,
        ← hcount, Nat.add_comm, List.drop_length_add_append]
    · refine hpos.trans ?_
      have hvalid := Shape.valid_iterate (S := pieces) hrb.isRing.read_valid (text.length - 1)
      rw [Iterator.incr_eq (ReadBuffer.isRing_iterate_advance hreach.isRing _).toFits hvalid,
        ← Function.iterate_succ_apply' (f := pieces.next),
        Nat.succ_eq_add_one, Nat.sub_add_cancel (List.length_pos_of_ne_nil htext)]

/-- **The calls for the chunks of a message.**  When no chunk starts inside a header value, every
call in front of the end of the header has consumed what has come, and every call behind it has
finished with the object that one call on the whole text gives, and the body is kept. -/
theorem arrivals_spec {body : Bytes} (hc : P.Completes h text ends) (htext : text ≠ [])
    (hstart : P.state h ≠ .atEnd) (hends : ∀ it, P.state (ends it) = .atEnd)
    (hrb : rb.Reachable) (hempty : rb.isEmpty) (hne : ∀ c ∈ chunks, c ≠ [])
    (hfit : chunks.flatten.length < pieces.cap) (hkeep : P.KeepsNames h rb chunks)
    (hpart : chunks.flatten <+: text ++ body) :
    (chunks.flatten.length < text.length → P.arrivals h rb chunks = feedChunks P.parse h rb chunks ∧
        Before (P.arrivals h rb chunks)) ∧
      (text.length ≤ chunks.flatten.length →
        Behind ends (chunks.flatten.drop text.length) (P.arrivals h rb chunks)) := by
  induction chunks using List.reverseRecOn with
  | nil =>
    have hpos := List.length_pos_of_ne_nil htext
    refine ⟨fun _ => ⟨rfl, rfl, hrb, hempty⟩, fun hle => ?_⟩
    rw [List.flatten_nil, List.length_nil] at hle
    omega
  | append_singleton chunks c ih =>
    have hflat : (chunks ++ [c]).flatten = chunks.flatten ++ c := by simp
    rw [hflat] at hpart
    rw [hflat, List.length_append] at hfit
    obtain ⟨hbefore, hbehind⟩ := ih (fun d hd => hne d (by simp [hd])) (by omega) hkeep.of_append
      ((List.prefix_append _ _).trans hpart)
    have hcne := hne c (by simp)
    rw [arrivals_snoc, hflat, List.length_append]
    rcases Nat.lt_or_ge chunks.flatten.length text.length with hlt | hle
    · obtain ⟨hfeed, hs⟩ := hbefore hlt
      have hsnoc : P.arrive (P.arrivals h rb chunks) c
          = feedChunks P.parse h rb (chunks ++ [c]) := by
        rw [hfeed] at hs
        rw [hfeed, feedChunks_snoc hs.ret]
        rfl
      rw [hfeed] at hs
      obtain ⟨hbefore', hbehind'⟩ :=
        hs.arrive hc htext hstart hrb hempty hcne hfit hkeep hpart hlt
      rw [hsnoc]
      exact ⟨fun hlt' => ⟨rfl, hbefore' hlt'⟩, hbehind'⟩
    · -- the header has come before
      have hsplit : (chunks.flatten ++ c).drop text.length
          = chunks.flatten.drop text.length ++ c := List.drop_append_of_le_length hle
      refine ⟨fun hlt => ?_, fun _ => ?_⟩
      · omega
      · rw [hsplit]
        refine (hbehind hle).arrive hends hcne ?_
        rw [List.length_drop]
        omega

/-- A text that ends with a blank line: the parser reads what is in front of it, and finishes with
the blank line. -/
lemma completes_of_reads {h' : η} {front : Bytes}
    (hreads : P.machine.Reads Prod.snd h .fresh front h' .fresh)
    (hblank : ∀ (a b : Iterator × UInt8) (u : Tape), a.2 = 13 → b.2 = 10 →
      P.machine.scan h' .fresh (a :: b :: u) = ⟨.finish, ends b.1, .fresh, 2⟩) :
    P.Completes h (front ++ [13, 10]) ends := by
  intro t b u ht
  obtain ⟨t₁, t₂, heq, h₁, h₂⟩ := List.map_eq_append_iff.mp ht
  obtain ⟨a, t₃, rfl, ha, h₃⟩ := List.map_eq_cons_iff.mp h₂
  obtain ⟨b', t₄, rfl, hb, h₄⟩ := List.map_eq_cons_iff.mp h₃
  have hsplit : t ++ [b] = (t₁ ++ [a]) ++ [b'] := by
    rw [heq, List.map_eq_nil_iff.mp h₄, List.append_assoc]
    rfl
  obtain ⟨rfl, hlast⟩ := List.append_inj' hsplit rfl
  obtain rfl := List.cons.inj hlast |>.1
  rw [List.append_assoc, List.singleton_append, hreads t₁ h₁, hblank a b u ha hb,
    List.length_append]
  rfl

end HeaderParser

namespace RequestText

open HttpRequestHeader

variable {r : RequestText}

/-- The object when the first line has been read, after `Reset`. -/
def firstLineRead (r : RequestText) (g : HttpRequestHeader) : HttpRequestHeader :=
  { g.reset with
    scratch := holding [] (leads r.version), method := r.method ++ [32], path := r.path
    version := trim r.version, state := .reqKey }

/-- The object behind the blank line. -/
def wholeRead (r : RequestText) (g : HttpRequestHeader) (it : Iterator) : HttpRequestHeader :=
  { r.firstLineRead g with
    scratch := holding [] (leftBehind (leads r.version) (lineTokens r.lines))
    headers := readLines (leads r.version) ∅ r.lines
    state := .atEnd, bodyStart := it }

lemma reads_method_reset (g : HttpRequestHeader)
    (h : r.method = ascii "GET" ∨ r.method = ascii "POST") :
    parser.machine.Reads Prod.snd g.reset .fresh (r.method ++ [32])
      { g.reset with scratch := holding [] 0, method := r.method ++ [32], state := .reqPath }
      .fresh := by
  rcases h with h | h
  · have hsearch := reads_search (h := g.reset) (l := .fresh) (u := []) (t := ascii "GET") rfl rfl
      (by decide) (by decide)
    have hfound := hsearch.trans (reads_found (c := 32) rfl rfl (by decide) (by decide) (by decide))
    rw [h]
    exact hfound
  · have hsearch := reads_search (h := g.reset) (l := .fresh) (u := []) (t := ascii "POST") rfl rfl
      (by decide) (by decide)
    have hfound := hsearch.trans (reads_found (c := 32) rfl rfl (by decide) (by decide) (by decide))
    rw [h]
    exact hfound

lemma reads_firstLine_reset (hr : r.WellFormed) (g : HttpRequestHeader) :
    parser.machine.Reads Prod.snd g.reset .fresh r.firstLine (r.firstLineRead g) .fresh := by
  have hpath := (reads_method_reset g hr.method).trans
    (reads_path rfl rfl rfl hr.path hr.path_ne)
  have hversion := hpath.trans (reads_version rfl rfl (Nat.zero_lt_succ _) hr.version)
  rw [padded_zero, ← leads_padded, padded_zero] at hversion
  have htext : r.method ++ [32] ++ (r.path ++ [32]) ++ (r.version ++ [13, 10]) = r.firstLine := by
    simp [firstLine]
  rw [htext] at hversion
  exact hversion

/-- After `Reset`, the text of a request is read up to its end. -/
theorem completes_text (hr : r.WellFormed) (g : HttpRequestHeader) :
    parser.Completes g.reset r.text (r.wholeRead g) := by
  have hlead : leads r.version < maxKeyLen := (leads_le _).trans_lt hr.version.short
  have hreads := (reads_firstLine_reset hr g).trans
    (reads_lines (h := r.firstLineRead g) hr.key hr.key_notBlank hr.value rfl rfl hlead)
  rw [text, ← List.append_assoc]
  exact HeaderParser.completes_of_reads hreads fun a b u ha hb =>
    scan_blankLine rfl (Nat.zero_lt_succ _) ha hb

end RequestText

namespace ResponseText

open HttpReponseHeader

variable {r : ResponseText}

/-- The object behind the blank line. -/
def wholeRead (r : ResponseText) (g : HttpReponseHeader) (it : Iterator) : HttpReponseHeader :=
  { r.betweenLines g
      (RequestText.leftBehind (residue r.statusMsg 0) (RequestText.lineTokens r.lines))
      (RequestText.readLines (residue r.statusMsg 0) ∅ r.lines) with
    state := .atEnd, bodyStart := it }

/-- After `Reset`, the text of a response is read up to its end. -/
theorem completes_text (hr : r.WellFormed) (g : HttpReponseHeader) :
    parser.Completes g.reset r.text (r.wholeRead g) := by
  have hreads := (reads_firstLine (h := g) hr).trans (reads_lines hr)
  rw [text, ← List.append_assoc]
  exact HeaderParser.completes_of_reads hreads fun a b u ha hb => scan_blankLine rfl ha hb

end ResponseText

end MTRpc
