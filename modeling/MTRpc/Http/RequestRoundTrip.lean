import MTRpc.Http.HeaderSerial
import MTRpc.Http.RequestText

/-!
# A request that is written and read again

`SerializeHeader` writes a request that the grammar knows (`asText`), and the parser reads it
(`parserHeader_serializeHeader`).  But the two differ about the spaces.  The parser takes the
space behind the method as a part of it, and the writer puts a space behind every value.  So the
method is never the one that was written (`parserHeader_not_roundTrips`).
-/

namespace MTRpc

open Scanner (Outcome Machine)
open Scratch (holding)

lemma cstr_eq {s : Bytes} (h : 0 ∉ s) : cstr s = s := by
  rw [cstr, List.takeWhile_eq_self_iff]
  exact fun c hc => by simpa using ne_of_mem_of_not_mem hc h

namespace HttpRequestHeader

/-- A header that can be told from its text. -/
structure Encodable (h : HttpRequestHeader) : Prop where
  method : h.method = ascii "GET" ∨ h.method = ascii "POST"
  path_ne : h.path ≠ []
  path : ∀ c ∈ h.path, c ≠ 32 ∧ c ≠ 13 ∧ c ≠ 0
  version : ∀ c ∈ h.version, c ≠ 13 ∧ c ≠ 0
  version_head : h.version.head? ≠ some 32
  key_ne : ∀ kv ∈ h.headers.toList, kv.1 ≠ []
  key : ∀ kv ∈ h.headers.toList, ∀ c ∈ kv.1, c ≠ 58 ∧ c ≠ 13 ∧ c ≠ 0
  key_head : ∀ kv ∈ h.headers.toList, kv.1.head? ≠ some 32
  value : ∀ kv ∈ h.headers.toList, ∀ c ∈ kv.2, c ≠ 13 ∧ c ≠ 0
  value_head : ∀ kv ∈ h.headers.toList, kv.2.head? ≠ some 32

/-- The call on `rb` gives the header `h` back. -/
structure RoundTrips (h : HttpRequestHeader) (rb : ReadBuffer)
    (res : ParserRet × HttpRequestHeader × ReadBuffer) : Prop where
  ret : res.1 = .finish
  readpos : res.2.2 = ReadBuffer.advance^[rb.unread.length] rb
  method : res.2.1.method = h.method
  path : res.2.1.path = h.path
  version : res.2.1.version = h.version
  headers : res.2.1.headers = h.headers

/-- The text of the header, as the grammar has it: every value has a space on both sides. -/
def asText (h : HttpRequestHeader) : RequestText where
  method := h.method
  path := h.path
  version := h.version
  lines := h.headers.toList.map fun kv => (kv.1, 32 :: (kv.2 ++ [32]))

variable {h : HttpRequestHeader} {que : Que} {it : Iterator}

/-- What `SerializeHeader` writes. -/
lemma textFrom_serializeHeader (hh : h.Encodable) (hret : (h.serializeHeader que it).1 = 0) :
    (h.serializeHeader que it).2.textFrom it = h.asText.text := by
  have hmethod : cstr h.method = h.method := by
    rcases hh.method with hm | hm <;> rw [hm] <;> decide
  have hpath := cstr_eq fun h0 => (hh.path 0 h0).2.2 rfl
  have hversion := cstr_eq fun h0 => (hh.version 0 h0).2 rfl
  have hlines : (h.headers.toList.flatMap fun kv =>
      cstr kv.1 ++ ascii ": " ++ cstr kv.2 ++ ascii " \r\n")
      = h.asText.lines.flatMap RequestText.lineText := by
    rw [asText, List.flatMap_map]
    refine List.flatMap_congr fun kv hkv => ?_
    rw [cstr_eq fun h0 => (hh.key kv hkv 0 h0).2.2 rfl,
      cstr_eq fun h0 => (hh.value kv hkv 0 h0).2 rfl]
    simp [RequestText.lineText, ascii]
  refine (serializeHeader_spec hret).1.trans ?_
  rw [headerText, hlines, hmethod, hpath, hversion]
  simp [RequestText.text, RequestText.firstLine, asText, ascii]

/-- The written text is one of the grammar when its tokens are short. -/
lemma asText_wellFormed (hh : h.Encodable) (hpath : h.path.length < maxKeyLen)
    (hversion : h.version.length < maxKeyLen)
    (hshort : ∀ kv ∈ h.headers.toList, kv.1.length < maxKeyLen ∧ kv.2.length + 2 < maxKeyLen) :
    h.asText.WellFormed where
  method := hh.method
  path := ⟨fun c hc => by simpa using (hh.path c hc).1, fun h0 => (hh.path 0 h0).2.2 rfl, hpath⟩
  path_ne := hh.path_ne
  version := ⟨fun c hc => by simpa using (hh.version c hc).1, fun h0 => (hh.version 0 h0).2 rfl,
    hversion⟩
  key line hl := by
    obtain ⟨kv, hkv, rfl⟩ := List.mem_map.mp hl
    refine ⟨?_, fun h0 => (hh.key kv hkv 0 h0).2.2 rfl, (hshort kv hkv).1⟩
    intro c hc
    have := hh.key kv hkv c hc
    simp [this.1, this.2.1]
  key_notBlank line hl := by
    obtain ⟨kv, hkv, rfl⟩ := List.mem_map.mp hl
    intro hblank
    cases hk : kv.1 with
    | nil => exact hh.key_ne kv hkv hk
    | cons c k =>
      refine hh.key_head kv hkv ?_
      rw [hk, List.head?_cons, hblank c (by simp [hk])]
  value line hl := by
    obtain ⟨kv, hkv, rfl⟩ := List.mem_map.mp hl
    refine ⟨?_, ?_, ?_⟩
    · intro c hc
      simp only [List.mem_cons, List.mem_append, List.not_mem_nil, or_false] at hc
      rcases hc with rfl | hc | rfl
      · decide
      · simpa using (hh.value kv hkv c hc).1
      · decide
    · intro h0
      simp only [List.mem_cons, List.mem_append, List.not_mem_nil, or_false] at h0
      rcases h0 with h0 | h0 | h0
      · exact absurd h0 (by decide)
      · exact (hh.value kv hkv 0 h0).2 rfl
      · exact absurd h0 (by decide)
    · have := (hshort kv hkv).2
      simpa using this

/-- **A request that is written and read again.**  With short tokens the parser finishes behind
the blank line with the path and the version; the method has a space behind it, and the headers
are those of the written lines. -/
theorem parserHeader_serializeHeader (hh : h.Encodable)
    (hret : (h.serializeHeader que it).1 = 0) (hpath : h.path.length < maxKeyLen)
    (hversion : h.version.length < maxKeyLen)
    (hshort : ∀ kv ∈ h.headers.toList, kv.1.length < maxKeyLen ∧ kv.2.length + 2 < maxKeyLen)
    {rb : ReadBuffer} (hrb : rb.Reachable)
    (hunread : rb.unread = (h.serializeHeader que it).2.textFrom it) :
    (init.parserHeader rb).1 = .finish ∧
      (init.parserHeader rb).2.2 = ReadBuffer.advance^[rb.unread.length] rb ∧
      (init.parserHeader rb).2.1.method = h.method ++ [32] ∧
      (init.parserHeader rb).2.1.path = h.path ∧
      (init.parserHeader rb).2.1.version = h.version ∧
      (init.parserHeader rb).2.1.headers = RequestText.readLines 0 ∅ h.asText.lines := by
  rw [textFrom_serializeHeader hh hret] at hunread
  obtain ⟨it, heq⟩ := RequestText.parserHeader_text (asText_wellFormed hh hpath hversion hshort)
    hrb.isRing [] (by rw [hunread, List.append_nil])
  obtain ⟨htrim, hleads⟩ := trim_of_head hh.version_head
  rw [heq, hunread]
  refine ⟨rfl, rfl, rfl, rfl, htrim, ?_⟩
  rw [← hleads]
  rfl

/-! ## The method -/

/-- Behind the method no step changes it. -/
lemma step_method {l : ParserLocals} (a : Iterator × UInt8) (hst : h.state ≠ .start) :
    (h.step l a).All (fun _ h' => h'.state ≠ .start ∧ h'.method = h.method)
      (fun h' _ => h'.state ≠ .start ∧ h'.method = h.method) := by
  obtain ⟨i, c⟩ := a
  have hsame : h.state ≠ .start ∧ h.method = h.method := ⟨hst, rfl⟩
  rw [step]
  split
  · exact hsame
  split
  case h_1 hs => exact absurd hs hst
  case h_2 hs =>
    split
    · refine all_moveBufTo hsame fun tok s => ?_
      dsimp only
      split
      · exact hsame
      · exact ⟨by simp, rfl⟩
    · exact all_put hsame fun s => hsame
  case h_3 hs =>
    split
    · exact all_moveBufTo hsame fun tok s => ⟨by simp, rfl⟩
    · exact all_put hsame fun s => hsame
  case h_4 => exact all_expect hsame ⟨by simp, rfl⟩
  case h_5 hs =>
    split
    · refine all_moveBufTo hsame fun tok s => ?_
      dsimp only
      split
      · exact hsame
      · exact ⟨by simp, rfl⟩
    · split
      · exact ⟨by simp, rfl⟩
      · exact all_put hsame fun s => hsame
  case h_6 hs =>
    split
    · exact all_moveBufTo hsame fun tok s => ⟨by simp, rfl⟩
    · exact all_put hsame fun s => hsame
  case h_7 => exact all_expect hsame ⟨by simp, rfl⟩
  case h_8 => exact all_expect hsame ⟨by simp, rfl⟩
  case h_9 => exact hsame

lemma scan_method {m : Bytes} {l : ParserLocals} {t : Tape} (hst : h.state ≠ .start)
    (hm : h.method = m) : (parser.machine.scan h l t).obj.method = m := by
  refine (Machine.scan_invariant (P := fun h _ => h.state ≠ .start ∧ h.method = m)
    (M := parser.machine) (fun h l a h' l' hP hs => ?_) (fun h l a r h' hP hs => ?_) ⟨hst, hm⟩).2
  · have hall := step_method (l := l) a hP.1
    rw [show h.step l a = _ from hs] at hall
    exact ⟨hall.1, hall.2.trans hP.2⟩
  · have hall := step_method (l := l) a hP.1
    rw [show h.step l a = _ from hs] at hall
    exact ⟨hall.1, hall.2.trans hP.2⟩

/-- A text that starts with a method gives it with the space behind it. -/
lemma parserHeader_method {m : Bytes} (rest : Bytes) (hm : m = ascii "GET" ∨ m = ascii "POST")
    {rb : ReadBuffer} (hrb : rb.IsRing pieces) (hunread : rb.unread = m ++ 32 :: rest) :
    (init.parserHeader rb).2.1.method = m ++ [32] := by
  have htape := rb.map_snd_tape
  rw [hunread, ← List.singleton_append, ← List.append_assoc] at htape
  obtain ⟨t, u, ht, hmethod, -⟩ := List.map_eq_append_iff.mp htape
  have hreads := RequestText.reads_method (r := ⟨m, [], [], []⟩) hm t hmethod u
  rw [show init.parserHeader rb = _ from parser.parse_eq hrb, ht]
  dsimp only
  rw [show parser.machine.scan init .fresh (t ++ u) = _ from hreads, Scanner.Res.shift_obj]
  exact scan_method (by simp [RequestText.afterMethod]) rfl

/-- The text of a header starts with its method. -/
lemma text_asText (h : HttpRequestHeader) : ∃ rest, h.asText.text = h.method ++ 32 :: rest :=
  ⟨h.path ++ 32 :: (h.version ++ [13, 10])
    ++ (h.asText.lines.flatMap RequestText.lineText ++ [13, 10]), by
    simp [RequestText.text, RequestText.firstLine, asText]⟩

end HttpRequestHeader

open HttpRequestHeader

/-- **No request survives.**  Whatever `SerializeHeader` writes, the parser does not give the
same header back: its method has a space behind it. -/
theorem parserHeader_not_roundTrips {h : HttpRequestHeader} (hh : h.Encodable) {que : Que}
    {it : Iterator} (hret : (h.serializeHeader que it).1 = 0) {rb : ReadBuffer}
    (hrb : rb.Reachable) (hunread : rb.unread = (h.serializeHeader que it).2.textFrom it) :
    ¬ h.RoundTrips rb (HttpRequestHeader.init.parserHeader rb) := by
  intro hround
  obtain ⟨rest, hrest⟩ := text_asText h
  rw [textFrom_serializeHeader hh hret, hrest] at hunread
  have hmethod := parserHeader_method rest hh.method hrb.isRing hunread
  rw [hround.method] at hmethod
  simpa using congrArg List.length hmethod

/-- A request for `/a` without headers. -/
def bareRequest : HttpRequestHeader :=
  { HttpRequestHeader.init with method := ascii "GET", path := ascii "/a" }

lemma toList_bareRequest : bareRequest.headers.toList = [] := rfl

lemma encodable_bareRequest : bareRequest.Encodable where
  method := Or.inl rfl
  path_ne := by decide
  path := by decide +kernel
  version := by decide +kernel
  version_head := by decide
  key_ne := by simp [toList_bareRequest]
  key := by simp [toList_bareRequest]
  key_head := by simp [toList_bareRequest]
  value := by simp [toList_bareRequest]
  value_head := by simp [toList_bareRequest]

lemma serializeHeader_bareRequest :
    (bareRequest.serializeHeader IOBuffer.init.que ⟨0, 0⟩).1 = 0 := by
  refine serializeHeader_eq_zero_iff.mpr ?_
  rw [headerText, toList_bareRequest]
  decide

lemma recived_bareRequest :
    (ReadBuffer.init.recive bareRequest.asText.text).Reachable ∧
      (ReadBuffer.init.recive bareRequest.asText.text).unread
        = (bareRequest.serializeHeader IOBuffer.init.que ⟨0, 0⟩).2.textFrom ⟨0, 0⟩ := by
  rw [textFrom_serializeHeader encodable_bareRequest serializeHeader_bareRequest]
  exact ReadBuffer.reachable_recived _ (by decide) (by decide)

/-- It does not survive. -/
theorem parserHeader_bareRequest :
    ¬ bareRequest.RoundTrips (ReadBuffer.init.recive bareRequest.asText.text)
      (HttpRequestHeader.init.parserHeader
        (ReadBuffer.init.recive bareRequest.asText.text)) :=
  parserHeader_not_roundTrips encodable_bareRequest serializeHeader_bareRequest
    recived_bareRequest.1 recived_bareRequest.2

/-- So not every request does. -/
theorem not_parserHeader_roundTrips :
    ¬ ∀ (h : HttpRequestHeader) (que : Que) (it : Iterator) (rb : ReadBuffer), h.Encodable →
      (h.serializeHeader que it).1 = 0 → rb.Reachable →
      rb.unread = (h.serializeHeader que it).2.textFrom it →
      h.RoundTrips rb (HttpRequestHeader.init.parserHeader rb) := by
  intro hall
  obtain ⟨hrb, hunread⟩ := recived_bareRequest
  have hround := hall bareRequest IOBuffer.init.que ⟨0, 0⟩ _ encodable_bareRequest
    serializeHeader_bareRequest hrb hunread
  obtain ⟨rest, hrest⟩ := text_asText bareRequest
  have htext := textFrom_serializeHeader encodable_bareRequest serializeHeader_bareRequest
  have hmethod := parserHeader_method rest encodable_bareRequest.method hrb.isRing
    (hunread.trans (htext.trans hrest))
  rw [hround.method] at hmethod
  simpa using congrArg List.length hmethod

end MTRpc
