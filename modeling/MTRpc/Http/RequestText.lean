import MTRpc.Http.HeaderTokens

/-!
# The text of a request

`RequestText` is a request header as the grammar has it: a method, a path, a version and header
lines.  The parser goes through its text token by token (`reads_firstLine`, `reads_lines`); what
it stores for a token is the token without its leading spaces, and with the spaces behind it
that an earlier token has left in the array.

So the parser computes what the grammar says, each token from its own bytes, exactly when every
token covers the spaces that are left (`parserHeader_grammar_iff`).
-/

namespace MTRpc

open Scanner (Machine)
open Scratch (holding cells EndsMethod)

/-- A request header as the grammar has it. -/
structure RequestText where
  method : Bytes
  path : Bytes
  version : Bytes
  lines : List (Bytes × Bytes)

namespace RequestText

variable (r : RequestText)

/-- `key:value` and CRLF. -/
def lineText (line : Bytes × Bytes) : Bytes := line.1 ++ 58 :: (line.2 ++ [13, 10])

def firstLine : Bytes := r.method ++ 32 :: (r.path ++ 32 :: (r.version ++ [13, 10]))

/-- The bytes of the request. -/
def text : Bytes := r.firstLine ++ (r.lines.flatMap lineText ++ [13, 10])

/-- The tokens of header lines. -/
def lineTokens (lines : List (Bytes × Bytes)) : List Bytes :=
  lines.flatMap fun line => [line.1, line.2]

/-- The bytes are those of a request. -/
structure WellFormed : Prop where
  method : r.method = ascii "GET" ∨ r.method = ascii "POST"
  path : IsToken [32] r.path
  path_ne : r.path ≠ []
  version : IsToken [13] r.version
  key : ∀ line ∈ r.lines, IsToken [58, 13] line.1
  key_notBlank : ∀ line ∈ r.lines, ¬ Blank line.1
  value : ∀ line ∈ r.lines, IsToken [13] line.2

/-- The headers that the lines say: of lines with one key the last one counts. -/
def headers : Headers :=
  r.lines.foldl (fun m line => m.insert (trim line.1) (trim line.2)) ∅

/-- What `ParserHeader` should return for the request. -/
structure Computes (res : ParserRet × HttpRequestHeader × ReadBuffer) : Prop where
  ret : res.1 = .finish
  path : res.2.1.path = r.path
  version : res.2.1.version = trim r.version
  headers : res.2.1.headers = r.headers

/-- What `MoveBufTo` gives for a token at the end of the bytes `bs`. -/
def tokenRead (bs : Bytes) : Option Bytes :=
  (HttpRequestHeader.parser.machine.scan .init .fresh (bs.map fun c => (⟨0, 0⟩, c))).obj.scratch
    |>.moveBufTo.map Prod.fst

/-- The bytes of earlier tokens make no difference for a key or a value. -/
def ReadsAlone : Prop :=
  ∀ before line after, r.lines = before ++ line :: after →
    tokenRead (r.firstLine ++ before.flatMap lineText ++ line.1) = some (trim line.1) ∧
      tokenRead (r.firstLine ++ before.flatMap lineText ++ (line.1 ++ [58]) ++ line.2)
        = some (trim line.2)

end RequestText

namespace HttpRequestHeader

/-! ## Token by token -/

lemma collects {st : ParserState} {ds : List UInt8} (hne : st ≠ .atEnd)
    (hstep : ∀ (h : HttpRequestHeader) l it c, h.state = st → c ∉ ds → ¬ maxKeyLen ≤ h.scratch.pos →
      h.step l (it, c) = h.put l c) : parser.Collects st ds where
  ne_atEnd := hne
  step h l it c hst hc hpos := by
    refine (hstep h l it c hst hc (Nat.not_le.mpr hpos)).trans ?_
    rw [put]
    rfl
  put_put _ _ _ := rfl
  put_scratch _ := rfl

lemma collects_reqPath : parser.Collects .reqPath [32] := by
  refine collects (by decide) fun h l it c hst hc hpos => ?_
  simp only [step, hst, if_neg hpos, if_neg (List.ne_of_not_mem_cons hc)]

lemma collects_reqVesionR : parser.Collects .reqVesionR [13] := by
  refine collects (by decide) fun h l it c hst hc hpos => ?_
  simp only [step, hst, if_neg hpos, if_neg (List.ne_of_not_mem_cons hc)]

lemma collects_reqKey : parser.Collects .reqKey [58, 13] := by
  refine collects (by decide) fun h l it c hst hc hpos => ?_
  have hcr : c ≠ 13 := List.ne_of_not_mem_cons (List.not_mem_of_not_mem_cons hc)
  simp only [step, hst, if_neg hpos, if_neg (List.ne_of_not_mem_cons hc), if_neg hcr]

lemma collects_reqValueR : parser.Collects .reqValueR [13] := by
  refine collects (by decide) fun h l it c hst hc hpos => ?_
  simp only [step, hst, if_neg hpos, if_neg (List.ne_of_not_mem_cons hc)]

variable {h : HttpRequestHeader} {l : ParserLocals} {t : Bytes} {r : ℕ}

/-- A delimiter. -/
lemma reads_delim {d : UInt8} {h' : HttpRequestHeader} {l' : ParserLocals} (hst : h.state ≠ .atEnd)
    (hpos : h.scratch.pos < maxKeyLen)
    (hstep : ∀ it, ¬ maxKeyLen ≤ h.scratch.pos → h.step l (it, d) = .go h' l') :
    parser.machine.Reads Prod.snd h l [d] h' l' := by
  refine .single (HeaderParser.machine_done hst) ?_
  rintro ⟨it, c⟩ rfl
  exact hstep it (Nat.not_le.mpr hpos)

/-- A token is collected, and the delimiter moves it. -/
lemma reads_token {st : ParserState} {ds : List UInt8} {d : UInt8} {h' : HttpRequestHeader}
    {l' : ParserLocals} (hc : parser.Collects st ds) (hst : h.state = st)
    (hs : h.scratch = holding [] r) (ht : IsToken ds t)
    (hstep : ∀ it, ¬ maxKeyLen ≤ (holding t r).pos →
      step { h with scratch := holding t r } l (it, d) = .go h' l') :
    parser.machine.Reads Prod.snd h l (t ++ [d]) h' l' := by
  refine hc.reads_token hst hs ht fun it => ?_
  exact hstep it (Nat.not_le.mpr ht.short)

lemma reads_lf (hst : h.state = .reqVesionN ∨ h.state = .reqValueN)
    (hpos : h.scratch.pos < maxKeyLen) :
    parser.machine.Reads Prod.snd h l [10] { h with state := .reqKey } l := by
  rcases hst with hst | hst
  · refine reads_delim (by simp [hst]) hpos fun it hpos => ?_
    simp only [step, hst, if_neg hpos, expect, if_true]
  · refine reads_delim (by simp [hst]) hpos fun it hpos => ?_
    simp only [step, hst, if_neg hpos, expect, if_true]

lemma reads_path (hst : h.state = .reqPath) (hpath : h.path = [])
    (hs : h.scratch = holding [] 0) (ht : IsToken [32] t) (hne : t ≠ []) :
    parser.machine.Reads Prod.snd h l (t ++ [32])
      { h with scratch := holding [] 0, path := t, state := .reqVesionR } l := by
  have hhead : t.head? ≠ some 32 := head?_ne_of_notMem fun h => ht.delim 32 h (by simp)
  have hmove := Scratch.moveBufTo_holding (r := 0) ht (by decide)
  rw [padded_zero, (trim_of_head hhead).1, residue_of_head hhead] at hmove
  have hlen : t.length ≠ 0 := fun h => hne (List.length_eq_zero_iff.mp h)
  refine reads_token collects_reqPath hst hs ht fun it hpos => ?_
  simp only [step, hst, if_neg hpos, moveBufTo, hmove, hpath, List.nil_append, if_neg hlen,
    if_true]

lemma reads_version (hst : h.state = .reqVesionR) (hs : h.scratch = holding [] r)
    (hr : r < maxKeyLen) (ht : IsToken [13] t) :
    parser.machine.Reads Prod.snd h l (t ++ [13, 10])
      { h with scratch := holding [] (residue t r), version := trim (padded t r), state := .reqKey }
      l := by
  have hmove := Scratch.moveBufTo_holding ht hr
  have hcr : parser.machine.Reads Prod.snd h l (t ++ [13])
      { h with
        scratch := holding [] (residue t r), version := trim (padded t r), state := .reqVesionN }
      l := by
    refine reads_token collects_reqVesionR hst hs ht fun it hpos => ?_
    simp only [step, hst, if_neg hpos, moveBufTo, hmove, if_true]
  have hlf := hcr.trans (reads_lf (Or.inl rfl) (Nat.zero_lt_succ _))
  rw [List.append_assoc] at hlf
  exact hlf

lemma reads_key (hst : h.state = .reqKey) (hs : h.scratch = holding [] r) (hr : r < maxKeyLen)
    (ht : IsToken [58, 13] t) (hne : ¬ Blank t) :
    parser.machine.Reads Prod.snd h .fresh (t ++ [58])
      { h with scratch := holding [] (residue t r), state := .reqValueR }
      ⟨trim (padded t r), []⟩ := by
  have hmove := Scratch.moveBufTo_holding ht hr
  have hlen : (trim (padded t r)).length ≠ 0 := by
    intro hlen
    have hnil := List.length_eq_zero_iff.mp hlen
    rw [padded, (trim_append hne _).1, List.append_eq_nil_iff] at hnil
    exact hne (trim_eq_nil_iff.mp hnil.1)
  refine reads_token collects_reqKey hst hs ht fun it hpos => ?_
  simp only [step, hst, if_neg hpos, moveBufTo, hmove, ParserLocals.fresh, List.nil_append,
    if_neg hlen, if_true]

lemma reads_value (hst : h.state = .reqValueR) (hs : h.scratch = holding [] r)
    (hr : r < maxKeyLen) (ht : IsToken [13] t) (key : Bytes) :
    parser.machine.Reads Prod.snd h ⟨key, []⟩ (t ++ [13, 10])
      { h with
        scratch := holding [] (residue t r)
        headers := h.headers.insert key (trim (padded t r)), state := .reqKey }
      .fresh := by
  have hmove := Scratch.moveBufTo_holding ht hr
  have hcr : parser.machine.Reads Prod.snd h ⟨key, []⟩ (t ++ [13])
      { h with
        scratch := holding [] (residue t r)
        headers := h.headers.insert key (trim (padded t r)), state := .reqValueN }
      .fresh := by
    refine reads_token collects_reqValueR hst hs ht fun it hpos => ?_
    simp only [step, hst, if_neg hpos, moveBufTo, hmove, List.nil_append, if_true]
  have hlf := hcr.trans (reads_lf (Or.inr rfl) (Nat.zero_lt_succ _))
  rw [List.append_assoc] at hlf
  exact hlf

/-- Bytes in which no method ends are kept while a method is looked for. -/
lemma reads_search {u : Bytes} (hst : h.state = .start) (hs : h.scratch = holding u 0)
    (hlen : u.length + t.length < maxKeyLen) (hno : ∀ v ∈ t.inits, ¬ EndsMethod (u ++ v)) :
    parser.machine.Reads Prod.snd h l t { h with scratch := holding (u ++ t) 0 } l := by
  induction t generalizing h u with
  | nil =>
    rw [List.append_nil, ← hs]
    exact .refl h l
  | cons c t ih =>
    rw [List.length_cons] at hlen
    have hpos : u.length < maxKeyLen := by omega
    have hc : ¬ EndsMethod (u ++ [c]) := hno [c] (by simp)
    have hfound := Scratch.isMethodFound_holding (t := u) c (by omega)
    rw [if_neg hc] at hfound
    have hone : parser.machine.Reads Prod.snd h l [c]
        { h with scratch := holding (u ++ [c]) 0 } l := by
      refine reads_delim (by simp [hst]) (by rw [hs]; exact hpos) fun it hpos => ?_
      rw [hs] at hpos
      simp only [step, hst, hs, if_neg hpos, hfound]
    have hrest := ih (h := { h with scratch := holding (u ++ [c]) 0 }) (u := u ++ [c]) hst rfl
      (by rw [List.length_append, List.length_singleton]; omega) fun v hv => by
        rw [List.append_assoc]
        exact hno (c :: v) (by simpa using hv)
    rw [List.append_assoc] at hrest
    exact hone.trans hrest

/-- The last byte of a method: all that was read becomes the method. -/
lemma reads_found {c : UInt8} (hst : h.state = .start) (hs : h.scratch = holding t 0)
    (hlen : t.length + 1 < maxKeyLen) (hends : EndsMethod (t ++ [c])) (h0 : 0 ∉ t ++ [c]) :
    parser.machine.Reads Prod.snd h l [c]
      { h with
        scratch := holding [] (leads (t ++ [c])), method := trim (t ++ [c]), state := .reqPath }
      l := by
  have hfound := Scratch.isMethodFound_holding c hlen
  rw [if_pos hends] at hfound
  have hmove := Scratch.moveBufTo_cells (t := t ++ [c]) (by simpa using hlen) h0 0
  rw [← Scratch.holding_nil] at hmove
  refine reads_delim (by simp [hst]) ?_ fun it hpos => ?_
  · rw [hs]
    exact Nat.lt_of_succ_lt hlen
  · rw [hs] at hpos
    simp only [step, hst, hs, if_neg hpos, hfound, moveBufTo, hmove]

end HttpRequestHeader

namespace RequestText

open HttpRequestHeader

variable {r : RequestText}

/-- The object when the method has been read. -/
def afterMethod (r : RequestText) : HttpRequestHeader :=
  { HttpRequestHeader.init with
    scratch := holding [] 0, method := r.method ++ [32], state := .reqPath }

lemma reads_method (h : r.method = ascii "GET" ∨ r.method = ascii "POST") :
    parser.machine.Reads Prod.snd .init .fresh (r.method ++ [32]) r.afterMethod .fresh := by
  rcases h with h | h
  · have hsearch := reads_search (h := .init) (l := .fresh) (u := []) (t := ascii "GET") rfl rfl
      (by decide) (by decide)
    have hfound := hsearch.trans (reads_found (c := 32) rfl rfl (by decide) (by decide) (by decide))
    rw [afterMethod, h]
    exact hfound
  · have hsearch := reads_search (h := .init) (l := .fresh) (u := []) (t := ascii "POST") rfl rfl
      (by decide) (by decide)
    have hfound := hsearch.trans (reads_found (c := 32) rfl rfl (by decide) (by decide) (by decide))
    rw [afterMethod, h]
    exact hfound

/-! ## The whole text -/

/-- The headers that the parser stores for lines that come over `r` spaces. -/
def readLines : ℕ → Headers → List (Bytes × Bytes) → Headers
  | _, m, [] => m
  | r, m, (key, value) :: lines =>
      readLines (residue value (residue key r))
        (m.insert (trim (padded key r)) (trim (padded value (residue key r)))) lines

/-- The spaces that are left behind tokens that came over `r` spaces. -/
def leftBehind (r : ℕ) (ts : List Bytes) : ℕ := ts.foldl (fun r t => residue t r) r

/-- A parser that reads header lines one by one reads many.  The object between two lines is
known by the spaces left and the headers stored. -/
lemma reads_eachLine {η : Type} {P : HeaderParser η} {between : ℕ → Headers → η}
    {Ok : Bytes × Bytes → Prop} (hshort : ∀ line, Ok line →
      line.1.length < maxKeyLen ∧ line.2.length < maxKeyLen)
    (hline : ∀ line r m, Ok line → r < maxKeyLen →
      P.machine.Reads Prod.snd (between r m) .fresh (lineText line)
        (between (residue line.2 (residue line.1 r))
          (m.insert (trim (padded line.1 r)) (trim (padded line.2 (residue line.1 r))))) .fresh)
    {lines : List (Bytes × Bytes)} (hok : ∀ line ∈ lines, Ok line) {r : ℕ} (hr : r < maxKeyLen)
    (m : Headers) :
    P.machine.Reads Prod.snd (between r m) .fresh (lines.flatMap lineText)
      (between (leftBehind r (lineTokens lines)) (readLines r m lines)) .fresh := by
  induction lines generalizing r m with
  | nil => exact .refl _ _
  | cons line lines ih =>
    obtain ⟨hkey, hvalue⟩ := hshort line (hok line (by simp))
    have hone := hline line r m (hok line (by simp)) hr
    exact hone.trans (ih (fun line hl => hok line (by simp [hl]))
      (residue_lt hvalue (residue_lt hkey hr)) _)

/-- The object when the first line has been read. -/
def afterFirstLine (r : RequestText) : HttpRequestHeader :=
  { HttpRequestHeader.init with
    scratch := holding [] (leads r.version), method := r.method ++ [32], path := r.path
    version := trim r.version, state := .reqKey }

lemma reads_firstLine (hr : r.WellFormed) :
    parser.machine.Reads Prod.snd .init .fresh r.firstLine r.afterFirstLine .fresh := by
  have hpath := (reads_method hr.method).trans (reads_path rfl rfl rfl hr.path hr.path_ne)
  have hversion := hpath.trans (reads_version rfl rfl (Nat.zero_lt_succ _) hr.version)
  rw [padded_zero, ← leads_padded, padded_zero] at hversion
  have htext : r.method ++ [32] ++ (r.path ++ [32]) ++ (r.version ++ [13, 10]) = r.firstLine := by
    simp [firstLine]
  rw [htext] at hversion
  exact hversion

/-- Header lines. -/
lemma reads_lines {h : HttpRequestHeader} {k : ℕ} {lines : List (Bytes × Bytes)}
    (hkey : ∀ line ∈ lines, IsToken [58, 13] line.1) (hne : ∀ line ∈ lines, ¬ Blank line.1)
    (hvalue : ∀ line ∈ lines, IsToken [13] line.2) (hst : h.state = .reqKey)
    (hs : h.scratch = holding [] k) (hk : k < maxKeyLen) :
    parser.machine.Reads Prod.snd h .fresh (lines.flatMap lineText)
      { h with
        scratch := holding [] (leftBehind k (lineTokens lines))
        headers := readLines k h.headers lines, state := .reqKey } .fresh := by
  have hlines := @reads_eachLine _ parser
    (fun k m => { h with scratch := holding [] k, headers := m, state := .reqKey })
    (fun line => IsToken [58, 13] line.1 ∧ ¬ Blank line.1 ∧ IsToken [13] line.2)
    (fun line hl => ⟨hl.1.short, hl.2.2.short⟩) (fun line k m hl hk => ?_) lines
    (fun line hl => ⟨hkey line hl, hne line hl, hvalue line hl⟩) k hk h.headers
  · rwa [show ({ h with scratch := holding [] k, headers := h.headers, state := .reqKey } :
      HttpRequestHeader) = h by rw [← hs, ← hst]] at hlines
  · have hkey := reads_key (h := { h with scratch := holding [] k, headers := m, state := .reqKey })
      rfl rfl hk hl.1 hl.2.1
    have hone := hkey.trans (reads_value rfl rfl (residue_lt hl.1.short hk) hl.2.2 _)
    rw [List.append_assoc, List.singleton_append] at hone
    exact hone

/-- The blank line. -/
lemma scan_blankLine {h : HttpRequestHeader} {l : ParserLocals} {a b : Iterator × UInt8} {u : Tape}
    (hst : h.state = .reqKey) (hpos : h.scratch.pos < maxKeyLen) (ha : a.2 = 13) (hb : b.2 = 10) :
    parser.machine.scan h l (a :: b :: u)
      = ⟨.finish, { h with state := .atEnd, bodyStart := b.1 }, l, 2⟩ := by
  obtain ⟨ia, ca⟩ := a
  obtain ⟨ib, cb⟩ := b
  have hpos := Nat.not_le.mpr hpos
  have hcr : parser.machine.step h l (ia, ca) = .go { h with state := .reqEndR } l := by
    change h.step l (ia, ca) = _
    simp only [step, hst, if_neg hpos, show ca = 13 from ha]
    rfl
  have hlf : parser.machine.step { h with state := .reqEndR } l (ib, cb)
      = .go { h with state := .atEnd, bodyStart := ib } l := by
    change step _ l (ib, cb) = _
    simp only [step, if_neg hpos, expect, show cb = 10 from hb, if_true]
  rw [Machine.scan_go (HeaderParser.machine_done (hst.trans_ne (by decide))) hcr,
    Machine.scan_go (HeaderParser.machine_done (by simp [parser])) hlf,
    Machine.scan_done (HeaderParser.machine_done_iff _ |>.mpr rfl)]
  rfl

/-- The call on a text: it finishes, and stores what `readLines` says. -/
lemma scan_text (hr : r.WellFormed) {t : Tape} (ht : t.map Prod.snd = r.text) (u : Tape) :
    ∃ it, parser.machine.scan .init .fresh (t ++ u) =
      ⟨.finish, { r.afterFirstLine with
        scratch := holding [] (leftBehind (leads r.version) (lineTokens r.lines))
        headers := readLines (leads r.version) ∅ r.lines
        state := .atEnd, bodyStart := it }, .fresh, t.length⟩ := by
  rw [text, ← List.append_assoc] at ht
  obtain ⟨t₁, t₂, rfl, h₁, h₂⟩ := List.map_eq_append_iff.mp ht
  obtain ⟨a, t₃, rfl, ha, h₃⟩ := List.map_eq_cons_iff.mp h₂
  obtain ⟨b, t₄, rfl, hb, h₄⟩ := List.map_eq_cons_iff.mp h₃
  rw [List.map_eq_nil_iff.mp h₄]
  have hlead : leads r.version < maxKeyLen := (leads_le _).trans_lt hr.version.short
  have hreads := (reads_firstLine hr).trans
    (reads_lines (h := r.afterFirstLine) hr.key hr.key_notBlank hr.value rfl rfl hlead)
  have hend := scan_blankLine (l := .fresh) (u := u) (h := { r.afterFirstLine with
    scratch := holding [] (leftBehind (leads r.version) (lineTokens r.lines))
    headers := readLines (leads r.version) ∅ r.lines, state := .reqKey }) rfl
    (Nat.zero_lt_succ _) ha hb
  refine ⟨b.1, ?_⟩
  rw [List.append_assoc, hreads t₁ h₁]
  refine (congrArg (Scanner.Res.shift t₁.length) hend).trans ?_
  rw [List.length_append]
  rfl

/-- The call on a buffer that holds the request. -/
lemma parserHeader_text (hr : r.WellFormed) {rb : ReadBuffer} (hrb : rb.IsRing pieces)
    (rest : Bytes) (hunread : rb.unread = r.text ++ rest) :
    ∃ it, HttpRequestHeader.init.parserHeader rb =
      (.finish, { r.afterFirstLine with
        scratch := holding [] (leftBehind (leads r.version) (lineTokens r.lines))
        headers := readLines (leads r.version) ∅ r.lines
        state := .atEnd, bodyStart := it }, ReadBuffer.advance^[r.text.length] rb) := by
  have htape := rb.map_snd_tape
  rw [hunread] at htape
  obtain ⟨t, u, ht, htext, -⟩ := List.map_eq_append_iff.mp htape
  obtain ⟨it, hscan⟩ := scan_text hr htext u
  have hlen := congrArg List.length htext
  rw [List.length_map] at hlen
  refine ⟨it, (parser.parse_eq hrb).trans ?_⟩
  rw [ht, show parser.machine.scan .init .fresh (t ++ u) = _ from hscan, hlen]

/-- The lines are stored as they are when every token covers the spaces left. -/
lemma readLines_of_overwrites {k : ℕ} {m : Headers} {lines : List (Bytes × Bytes)}
    (h : Overwrites k (lineTokens lines)) : readLines k m lines
      = lines.foldl (fun m line => m.insert (trim line.1) (trim line.2)) m := by
  induction lines generalizing k m with
  | nil => rfl
  | cons line lines ih =>
    obtain ⟨key, value⟩ := line
    obtain ⟨hkey, hvalue, hrest⟩ := h
    rw [readLines, (trim_padded_iff key k).mpr hkey, (trim_padded_iff value _).mpr hvalue,
      ih hrest]
    rfl

lemma computes_of_overwrites (hr : r.WellFormed) {rb : ReadBuffer} (hrb : rb.IsRing pieces)
    (hunread : rb.unread = r.text) (h : Overwrites (leads r.version) (lineTokens r.lines)) :
    r.Computes (HttpRequestHeader.init.parserHeader rb) := by
  obtain ⟨it, heq⟩ := parserHeader_text hr hrb [] (by rw [hunread, List.append_nil])
  rw [heq]
  exact ⟨rfl, rfl, rfl, readLines_of_overwrites h⟩

lemma tokenRead_of_reads {bs : Bytes} {h : HttpRequestHeader} {l : ParserLocals}
    (hreads : parser.machine.Reads Prod.snd .init .fresh bs h l) :
    tokenRead bs = h.scratch.moveBufTo.map Prod.fst := by
  have hscan := hreads (bs.map fun c => (⟨0, 0⟩, c)) (by simp) []
  rw [List.append_nil] at hscan
  rw [tokenRead, show parser.machine.scan .init .fresh _ = _ from hscan]
  rfl

lemma leftBehind_lt {k : ℕ} {ts : List Bytes} (hk : k < maxKeyLen)
    (hts : ∀ t ∈ ts, t.length < maxKeyLen) : leftBehind k ts < maxKeyLen := by
  induction ts generalizing k with
  | nil => exact hk
  | cons t ts ih =>
    exact ih (residue_lt (hts t (by simp)) hk) fun t ht => hts t (by simp [ht])

/-- What is read of a key and a value behind other lines. -/
lemma tokenRead_line (hr : r.WellFormed) {before after : List (Bytes × Bytes)}
    {line : Bytes × Bytes} (hlines : r.lines = before ++ line :: after) {k : ℕ}
    (hk : leftBehind (leads r.version) (lineTokens before) = k) :
    tokenRead (r.firstLine ++ before.flatMap lineText ++ line.1) = some (trim (padded line.1 k)) ∧
      tokenRead (r.firstLine ++ before.flatMap lineText ++ (line.1 ++ [58]) ++ line.2)
        = some (trim (padded line.2 (residue line.1 k))) := by
  have hmem : line ∈ r.lines := by simp [hlines]
  have hbefore : ∀ b ∈ before, b ∈ r.lines := fun b hb => by simp [hlines, hb]
  have hlead : leads r.version < maxKeyLen := (leads_le _).trans_lt hr.version.short
  have hkey := hr.key line hmem
  have hvalue := hr.value line hmem
  have hk' : k < maxKeyLen := by
    rw [← hk]
    refine leftBehind_lt hlead fun t ht => ?_
    obtain ⟨b, hb, ht⟩ := List.mem_flatMap.mp ht
    rcases List.mem_pair.mp ht with rfl | rfl
    · exact (hr.key b (hbefore b hb)).short
    · exact (hr.value b (hbefore b hb)).short
  have hlines' := (reads_firstLine hr).trans (reads_lines (h := r.afterFirstLine)
    (fun b hb => hr.key b (hbefore b hb)) (fun b hb => hr.key_notBlank b (hbefore b hb))
    (fun b hb => hr.value b (hbefore b hb)) rfl rfl hlead)
  rw [hk] at hlines'
  constructor
  · have hreads := hlines'.trans (collects_reqKey.reads (t := line.1) (u := []) .fresh rfl rfl
      (by simpa using hkey.short.le) hkey.delim)
    rw [tokenRead_of_reads hreads]
    exact congrArg (Option.map Prod.fst) (Scratch.moveBufTo_holding hkey hk')
  · have hreads := (hlines'.trans (reads_key rfl rfl hk' hkey (hr.key_notBlank line hmem))).trans
      (collects_reqValueR.reads (t := line.2) (u := []) _ rfl rfl
        (by simpa using hvalue.short.le) hvalue.delim)
    rw [tokenRead_of_reads hreads]
    exact congrArg (Option.map Prod.fst)
      (Scratch.moveBufTo_holding hvalue (residue_lt hkey.short hk'))

/-- Every token covers the spaces left, line by line. -/
lemma overwrites_iff {k : ℕ} {lines : List (Bytes × Bytes)} :
    Overwrites k (lineTokens lines) ↔ ∀ before line after, lines = before ++ line :: after →
      (Blank line.1 ∨ leftBehind k (lineTokens before) ≤ line.1.length) ∧
        (Blank line.2 ∨ residue line.1 (leftBehind k (lineTokens before)) ≤ line.2.length) := by
  induction lines generalizing k with
  | nil => exact iff_of_true trivial fun before line after h => by simp at h
  | cons line lines ih =>
    constructor
    · rintro ⟨hkey, hvalue, hrest⟩ before line' after h
      cases before with
      | nil =>
        obtain ⟨rfl, -⟩ := List.cons.inj h
        exact ⟨hkey, hvalue⟩
      | cons b before =>
        obtain ⟨rfl, htail⟩ := List.cons.inj h
        exact ih.mp hrest before line' after htail
    · intro h
      obtain ⟨hkey, hvalue⟩ := h [] line lines rfl
      refine ⟨hkey, hvalue, ih.mpr fun before line' after heq => ?_⟩
      exact h (line :: before) line' after (by rw [heq]; rfl)

lemma readsAlone_iff (hr : r.WellFormed) :
    r.ReadsAlone ↔ Overwrites (leads r.version) (lineTokens r.lines) := by
  rw [overwrites_iff]
  refine forall_congr' fun before => forall_congr' fun line => forall_congr' fun after => ?_
  refine forall_congr' fun hlines => ?_
  obtain ⟨hkey, hvalue⟩ := tokenRead_line hr hlines rfl
  rw [hkey, hvalue, Option.some.injEq, Option.some.injEq, trim_padded_iff, trim_padded_iff]

end RequestText

open RequestText

/-- **The request parser and the grammar.**  One call computes what the grammar says, every
token from its own bytes, if and only if every token covers the spaces that the tokens before it
have left in the array, or is blank. -/
theorem parserHeader_grammar_iff {r : RequestText} (hr : r.WellFormed) {rb : ReadBuffer}
    (hrb : rb.Reachable) (hunread : rb.unread = r.text) :
    r.Computes (HttpRequestHeader.init.parserHeader rb) ∧ r.ReadsAlone ↔
      Overwrites (leads r.version) (lineTokens r.lines) := by
  rw [readsAlone_iff hr]
  exact ⟨And.right, fun h => ⟨computes_of_overwrites hr hrb.isRing hunread h, h⟩⟩

/-- A request with two spaces in front of the version and a key of one letter. -/
def spacedRequest : RequestText := ⟨ascii "GET", ascii "/a", ascii "  H", [(ascii "K", ascii "v")]⟩

/-- The key is read with a space behind it. -/
theorem parserHeader_not_grammar :
    ¬ ∀ (r : RequestText) (rb : ReadBuffer), r.WellFormed → rb.Reachable → rb.unread = r.text →
      r.Computes (HttpRequestHeader.init.parserHeader rb) ∧ r.ReadsAlone := by
  intro hall
  have hwf : spacedRequest.WellFormed :=
    ⟨Or.inl rfl, by decide +kernel, by decide, by decide +kernel, by decide +kernel, by decide,
      by decide +kernel⟩
  obtain ⟨hrb, hunread⟩ := ReadBuffer.reachable_recived spacedRequest.text (by decide) (by decide)
  have halone := (hall _ _ hwf hrb hunread).2
  rw [readsAlone_iff hwf] at halone
  exact absurd halone (by decide)

/-- A request without spaces in front of the version. -/
def plainRequest : RequestText := ⟨ascii "GET", ascii "/a", ascii "H", [(ascii "K", ascii "v")]⟩

/-- It is read as it is. -/
theorem parserHeader_grammar_plain :
    plainRequest.Computes (HttpRequestHeader.init.parserHeader
        (ReadBuffer.init.recive plainRequest.text)) ∧ plainRequest.ReadsAlone ↔
      Overwrites (leads plainRequest.version) (lineTokens plainRequest.lines) := by
  obtain ⟨hrb, hunread⟩ := ReadBuffer.reachable_recived plainRequest.text (by decide) (by decide)
  exact parserHeader_grammar_iff
    ⟨Or.inl rfl, by decide +kernel, by decide, by decide +kernel, by decide +kernel, by decide,
      by decide +kernel⟩ hrb hunread

end MTRpc
