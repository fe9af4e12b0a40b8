import MTRpc.Http.RequestText

/-!
# The text of a response

`ResponseText` is a response header as the grammar has it: a version, a status, its message and
header lines.  The response parser goes through its text token by token like the parser for
requests (`parserHeader_text`).  It does not test the length of a token, so that the tokens have
to fit into the array (`WellFormed`).
-/

namespace MTRpc

open Scanner (Machine)
open Scratch (holding)
open RequestText (lineText lineTokens readLines leftBehind reads_eachLine)

/-- A response header as the grammar has it. -/
structure ResponseText where
  version : Bytes
  status : ℕ
  statusMsg : Bytes
  lines : List (Bytes × Bytes)

namespace ResponseText

variable (r : ResponseText)

def firstLine : Bytes := r.version ++ 32 :: (decimal r.status ++ 32 :: (r.statusMsg ++ [13, 10]))

/-- The bytes of the response, up to the blank line. -/
def text : Bytes := r.firstLine ++ (r.lines.flatMap lineText ++ [13, 10])

/-- The bytes are those of a response. -/
structure WellFormed : Prop where
  version : IsToken [32] r.version
  status : r.status < 2 ^ 32
  statusMsg : IsToken [13] r.statusMsg
  key : ∀ line ∈ r.lines, IsToken [58, 13] line.1
  value : ∀ line ∈ r.lines, IsToken [13] line.2

end ResponseText

/-- A number is moved out of an array without spaces. -/
lemma Scratch.moveBufToUint_holding {ds : List UInt8} {t : Bytes} (ht : IsToken ds t) (v : ℕ) :
    (holding t 0).moveBufToUint v = some (sscanfU (trim t) v, holding [] 0) := by
  have htake := takeText_cells [] t ht.short ht.noNul
  rw [List.nil_append, List.length_nil] at htake
  rw [moveBufToUint, holding, padded_zero, htake]
  rfl

namespace HttpReponseHeader

/-! ## Token by token -/

lemma collects {st : ParserState} {ds : List UInt8} (hne : st ≠ .atEnd)
    (hstep : ∀ (h : HttpReponseHeader) l it c, h.state = st → c ∉ ds →
      h.step l (it, c) = h.put l c) : parser.Collects st ds where
  ne_atEnd := hne
  step h l it c hst hc _ := by
    refine (hstep h l it c hst hc).trans ?_
    rw [put]
    rfl
  put_put _ _ _ := rfl
  put_scratch _ := rfl

lemma collects_start : parser.Collects .start [32] := by
  refine collects (by decide) fun h l it c hst hc => ?_
  simp only [step, hst, if_neg (List.ne_of_not_mem_cons hc)]

lemma collects_resStatus : parser.Collects .resStatus [32] := by
  refine collects (by decide) fun h l it c hst hc => ?_
  simp only [step, hst, if_neg (List.ne_of_not_mem_cons hc)]

lemma collects_resStatusMessageR : parser.Collects .resStatusMessageR [13] := by
  refine collects (by decide) fun h l it c hst hc => ?_
  simp only [step, hst, if_neg (List.ne_of_not_mem_cons hc)]

lemma collects_resKey : parser.Collects .resKey [58, 13] := by
  refine collects (by decide) fun h l it c hst hc => ?_
  have hcr : c ≠ 13 := List.ne_of_not_mem_cons (List.not_mem_of_not_mem_cons hc)
  simp only [step, hst, if_neg (List.ne_of_not_mem_cons hc), if_neg hcr]

lemma collects_resValueR : parser.Collects .resValueR [13] := by
  refine collects (by decide) fun h l it c hst hc => ?_
  simp only [step, hst, if_neg (List.ne_of_not_mem_cons hc)]

variable {h : HttpReponseHeader} {l : ParserLocals} {t : Bytes} {r : ℕ}

lemma reads_lf (hst : h.state = .resStatusMessageN ∨ h.state = .resValueN) :
    parser.machine.Reads Prod.snd h l [10] { h with state := .resKey } l := by
  refine .single (HeaderParser.machine_done ?_) ?_
  · rcases hst with hst | hst
    · exact hst.trans_ne (by decide)
    · exact hst.trans_ne (by decide)
  · rintro ⟨it, c⟩ rfl
    change h.step l (it, 10) = _
    rcases hst with hst | hst
    · simp only [step, hst, expect, if_true]
    · simp only [step, hst, expect, if_true]

/-- The version is read and forgotten. -/
lemma reads_version (hst : h.state = .start) (hs : h.scratch = holding [] 0)
    (ht : IsToken [32] t) :
    parser.machine.Reads Prod.snd h .fresh (t ++ [32])
      { h with scratch := holding [] 0, state := .resStatus } .fresh := by
  have hhead : t.head? ≠ some 32 := head?_ne_of_notMem fun h => ht.delim 32 h (by simp)
  have hmove := Scratch.moveBufTo_holding (r := 0) ht (by decide)
  rw [residue_of_head hhead] at hmove
  refine collects_start.reads_token hst hs ht fun it => ?_
  change step { h with scratch := holding t 0 } _ (it, 32) = _
  simp only [step, hst, moveBufTo, hmove, if_true]
  rfl

lemma reads_status (hst : h.state = .resStatus) (hs : h.scratch = holding [] 0) {n : ℕ}
    (hn : n < 2 ^ 32) :
    parser.machine.Reads Prod.snd h l (decimal n ++ [32])
      { h with scratch := holding [] 0, status := n, state := .resStatusMessageR } l := by
  have ht : IsToken [32] (decimal n) := by
    refine ⟨?_, ?_, ?_⟩
    · intro c hc
      have := (notSpace_of_isDigit (isDigit_of_mem_decimal hc)).1
      rintro (_ | ⟨_, ⟨⟩⟩)
      exact absurd this (by decide)
    · intro h0
      exact (notSpace_of_isDigit (isDigit_of_mem_decimal h0)).2.2.2 rfl
    · exact (length_decimal_le (k := 10) (by decide) (by omega)).trans_lt (by decide)
  have hhead : (decimal n).head? ≠ some 32 := head?_ne_of_notMem fun h => ht.delim 32 h (by simp)
  have hmove := Scratch.moveBufToUint_holding ht h.status
  have hscan := sscanfU_decimal (n := n) (u := []) (by simp) (by simp) hn h.status
  rw [List.append_nil] at hscan
  rw [(trim_of_head hhead).1, hscan] at hmove
  refine collects_resStatus.reads_token hst hs ht fun it => ?_
  change step { h with scratch := holding (decimal n) 0 } _ (it, 32) = _
  simp only [step, hst, hmove, if_true]

lemma reads_statusMsg (hst : h.state = .resStatusMessageR) (hs : h.scratch = holding [] 0)
    (hmsg : h.statusMsg = []) (ht : IsToken [13] t) :
    parser.machine.Reads Prod.snd h l (t ++ [13, 10])
      { h with scratch := holding [] (residue t 0), statusMsg := trim t, state := .resKey } l := by
  have hmove := Scratch.moveBufTo_holding (r := 0) ht (by decide)
  rw [padded_zero] at hmove
  have hcr : parser.machine.Reads Prod.snd h l (t ++ [13])
      { h with
        scratch := holding [] (residue t 0), statusMsg := trim t, state := .resStatusMessageN }
      l := by
    refine collects_resStatusMessageR.reads_token hst hs ht fun it => ?_
    change step { h with scratch := holding t 0 } _ (it, 13) = _
    simp only [step, hst, moveBufTo, hmove, hmsg, List.nil_append, if_true]
  have hlf := hcr.trans (reads_lf (Or.inl rfl))
  rw [List.append_assoc] at hlf
  exact hlf

lemma reads_key (hst : h.state = .resKey) (hs : h.scratch = holding [] r) (hr : r < maxKeyLen)
    (ht : IsToken [58, 13] t) :
    parser.machine.Reads Prod.snd h .fresh (t ++ [58])
      { h with scratch := holding [] (residue t r), state := .resValueR }
      ⟨trim (padded t r), []⟩ := by
  have hmove := Scratch.moveBufTo_holding ht hr
  refine collects_resKey.reads_token hst hs ht fun it => ?_
  change step { h with scratch := holding t r } _ (it, 58) = _
  simp only [step, hst, moveBufTo, hmove, ParserLocals.fresh, List.nil_append, if_true]

lemma reads_value (hst : h.state = .resValueR) (hs : h.scratch = holding [] r)
    (hr : r < maxKeyLen) (ht : IsToken [13] t) (key : Bytes) :
    parser.machine.Reads Prod.snd h ⟨key, []⟩ (t ++ [13, 10])
      { h with
        scratch := holding [] (residue t r)
        headers := h.headers.insert key (trim (padded t r)), state := .resKey }
      .fresh := by
  have hmove := Scratch.moveBufTo_holding ht hr
  have hcr : parser.machine.Reads Prod.snd h ⟨key, []⟩ (t ++ [13])
      { h with
        scratch := holding [] (residue t r)
        headers := h.headers.insert key (trim (padded t r)), state := .resValueN }
      .fresh := by
    refine collects_resValueR.reads_token hst hs ht fun it => ?_
    change step { h with scratch := holding t r } _ (it, 13) = _
    simp only [step, hst, moveBufTo, hmove, List.nil_append, if_true]
  have hlf := hcr.trans (reads_lf (Or.inr rfl))
  rw [List.append_assoc] at hlf
  exact hlf

/-- The blank line. -/
lemma scan_blankLine {a b : Iterator × UInt8} {u : Tape} (hst : h.state = .resKey)
    (ha : a.2 = 13) (hb : b.2 = 10) :
    parser.machine.scan h l (a :: b :: u)
      = ⟨.finish, { h with state := .atEnd, bodyStart := b.1 }, l, 2⟩ := by
  obtain ⟨ia, ca⟩ := a
  obtain ⟨ib, cb⟩ := b
  have hcr : parser.machine.step h l (ia, ca) = .go { h with state := .resEndR } l := by
    change h.step l (ia, ca) = _
    simp only [step, hst, show ca = 13 from ha]
    rfl
  have hlf : parser.machine.step { h with state := .resEndR } l (ib, cb)
      = .go { h with state := .atEnd, bodyStart := ib } l := by
    change step { h with state := .resEndR } l (ib, cb) = _
    simp only [step, expect, show cb = 10 from hb, if_true]
  rw [Machine.scan_go (HeaderParser.machine_done (hst.trans_ne (by decide))) hcr,
    Machine.scan_go (HeaderParser.machine_done (by simp [parser])) hlf,
    Machine.scan_done (HeaderParser.machine_done_iff _ |>.mpr rfl)]
  rfl

end HttpReponseHeader

/-! ## The whole text -/

namespace ResponseText

open HttpReponseHeader

variable {r : ResponseText} {h : HttpReponseHeader}

/-- The object when the first line has been read, between header lines: `k` spaces are left, and
the headers `m` are stored. -/
def betweenLines (r : ResponseText) (h : HttpReponseHeader) (k : ℕ) (m : Headers) :
    HttpReponseHeader :=
  { h.reset with
    scratch := holding [] k, status := r.status, statusMsg := trim r.statusMsg, headers := m
    state := .resKey }

lemma reads_firstLine (hr : r.WellFormed) :
    parser.machine.Reads Prod.snd h.reset .fresh r.firstLine
      (r.betweenLines h (residue r.statusMsg 0) ∅) .fresh := by
  have hversion := reads_version (h := h.reset) rfl rfl hr.version
  have hstatus := hversion.trans (reads_status rfl rfl hr.status)
  have hmsg := hstatus.trans (reads_statusMsg rfl rfl rfl hr.statusMsg)
  have htext : r.version ++ [32] ++ (decimal r.status ++ [32]) ++ (r.statusMsg ++ [13, 10])
      = r.firstLine := by
    simp [firstLine]
  rw [htext] at hmsg
  exact hmsg

lemma reads_lines (hr : r.WellFormed) :
    parser.machine.Reads Prod.snd (r.betweenLines h (residue r.statusMsg 0) ∅) .fresh
      (r.lines.flatMap lineText)
      (r.betweenLines h (leftBehind (residue r.statusMsg 0) (lineTokens r.lines))
        (readLines (residue r.statusMsg 0) ∅ r.lines)) .fresh := by
  refine @reads_eachLine _ parser (r.betweenLines h)
    (fun line => IsToken [58, 13] line.1 ∧ IsToken [13] line.2)
    (fun line hl => ⟨hl.1.short, hl.2.short⟩) (fun line k m hl hk => ?_) _
    (fun line hl => ⟨hr.key line hl, hr.value line hl⟩)
    _ (residue_lt hr.statusMsg.short (by decide)) ∅
  have hkey := reads_key (h := r.betweenLines h k m) rfl rfl hk hl.1
  have hline := hkey.trans (reads_value rfl rfl (residue_lt hl.1.short hk) hl.2 _)
  rw [List.append_assoc, List.singleton_append] at hline
  exact hline

/-- The call on a buffer that holds the response: it finishes behind the blank line, and stores
what `readLines` says. -/
theorem parserHeader_text (hr : r.WellFormed) {rb : ReadBuffer} (hrb : rb.IsRing pieces)
    {rest : Bytes} (hunread : rb.unread = r.text ++ rest) :
    ∃ it, h.reset.parserHeader rb =
      (.finish, { r.betweenLines h (leftBehind (residue r.statusMsg 0) (lineTokens r.lines))
          (readLines (residue r.statusMsg 0) ∅ r.lines) with
        state := .atEnd, bodyStart := it }, ReadBuffer.advance^[r.text.length] rb) := by
  have htape := rb.map_snd_tape
  rw [hunread, text, ← List.append_assoc, List.append_assoc] at htape
  obtain ⟨t₁, t₂, htape, h₁, h₂⟩ := List.map_eq_append_iff.mp htape
  obtain ⟨a, t₃, rfl, ha, h₃⟩ := List.map_eq_cons_iff.mp h₂
  obtain ⟨b, t₄, rfl, hb, -⟩ := List.map_eq_cons_iff.mp h₃
  have hreads := (reads_firstLine (h := h) hr).trans (reads_lines hr)
  have hend := scan_blankLine (l := .fresh) (u := t₄)
    (h := r.betweenLines h (leftBehind (residue r.statusMsg 0) (lineTokens r.lines))
      (readLines (residue r.statusMsg 0) ∅ r.lines)) rfl ha hb
  have hscan := (hreads t₁ h₁ (a :: b :: t₄)).trans (congrArg (Scanner.Res.shift t₁.length) hend)
  have hlen := congrArg List.length h₁
  rw [List.length_map] at hlen
  refine ⟨b.1, (parser.parse_eq hrb).trans ?_⟩
  rw [htape, show parser.machine.scan h.reset .fresh (t₁ ++ a :: b :: t₄) = _ from hscan]
  simp only [Scanner.Res.shift_ret, Scanner.Res.shift_obj, Scanner.Res.shift_used, hlen]
  rw [text, ← List.append_assoc, @List.length_append _ _ [13, 10]]
  rfl

end ResponseText

end MTRpc
