import MTRpc.Http.HeaderSerial
import MTRpc.Http.ResponseText

/-!
# A response that is written and read again

`SerializeHeader` puts a space in front of every value and behind it, and the parser takes the
one in front away again.  A header map comes back with the values padded like that, when no
value leaves more spaces in the array than the shortest key covers
(`parserHeader_serializeHeader`).
-/

namespace MTRpc

open RequestText (lineText lineTokens readLines)

/-! ## Header maps -/

lemma cstr_of_token {ds : List UInt8} {s : Bytes} (h : IsToken ds s) : cstr s = s := by
  rw [cstr, List.takeWhile_eq_self_iff]
  exact fun c hc => by simpa using ne_of_mem_of_not_mem hc h.noNul

namespace Headers

variable {m : Headers} {key value : Bytes}

/-- What holds of the old entries and of the new one holds of all. -/
lemma forall_toList_insert {P : Bytes × Bytes → Prop} (hnew : P (key, value))
    (hold : ∀ kv ∈ m.toList, P kv) : ∀ kv ∈ (m.insert key value).toList, P kv := by
  rintro ⟨k, v⟩ hkv
  rw [Std.ExtTreeMap.mem_toList_iff_getElem?_eq_some, Std.ExtTreeMap.getElem?_insert] at hkv
  split at hkv
  · rename_i heq
    obtain rfl : key = k := Std.LawfulEqCmp.eq_of_compare heq
    obtain rfl : value = v := Option.some.inj hkv
    exact hnew
  · exact hold (k, v) (Std.ExtTreeMap.mem_toList_iff_getElem?_eq_some.mpr hkv)

lemma forall_toList_empty {P : Bytes × Bytes → Prop} :
    ∀ kv ∈ (∅ : Headers).toList, P kv := by
  rintro ⟨k, v⟩ hkv
  rw [Std.ExtTreeMap.mem_toList_iff_getElem?_eq_some] at hkv
  simp at hkv

variable (f : Bytes → Bytes) {l : List (Bytes × Bytes)}

lemma getElem?_insertAll_of_notMem (h : ∀ kv ∈ l, kv.1 ≠ key) :
    (l.foldl (fun m kv => m.insert kv.1 (f kv.2)) m)[key]? = m[key]? := by
  induction l generalizing m with
  | nil => rfl
  | cons kv l ih =>
    rw [List.foldl_cons, ih fun kv hkv => h kv (by simp [hkv]), Std.ExtTreeMap.getElem?_insert,
      if_neg]
    exact fun heq => h kv (by simp) (Std.LawfulEqCmp.eq_of_compare heq)

lemma getElem?_insertAll_of_mem (hl : l.Pairwise fun a b => a.1 ≠ b.1) (h : (key, value) ∈ l) :
    (l.foldl (fun m kv => m.insert kv.1 (f kv.2)) m)[key]? = some (f value) := by
  induction l generalizing m with
  | nil => simp at h
  | cons kv l ih =>
    obtain ⟨hkv, hl⟩ := List.pairwise_cons.mp hl
    rw [List.foldl_cons]
    rcases List.mem_cons.mp h with rfl | h
    · rw [getElem?_insertAll_of_notMem f fun b hb => (hkv b hb).symm]
      exact Std.ExtTreeMap.getElem?_insert_self
    · exact ih hl h

/-- The entries of a map, inserted one by one with other values. -/
lemma getElem?_insertAll_toList (m : Headers) (key : Bytes) :
    (m.toList.foldl (fun m kv => m.insert kv.1 (f kv.2)) (∅ : Headers))[key]?
      = m[key]?.map f := by
  have hdistinct : m.toList.Pairwise fun a b => a.1 ≠ b.1 := by
    refine Std.ExtTreeMap.distinct_keys_toList.imp fun {a b} hab heq => hab ?_
    rw [heq]
    exact Std.ReflCmp.compare_self
  cases h : m[key]? with
  | some value =>
    exact getElem?_insertAll_of_mem f hdistinct
      (Std.ExtTreeMap.mem_toList_iff_getElem?_eq_some.mpr h)
  | none =>
    rw [getElem?_insertAll_of_notMem]
    · simp
    · rintro ⟨k, v⟩ hkv rfl
      rw [Std.ExtTreeMap.mem_toList_iff_getElem?_eq_some.mp hkv] at h
      exact absurd h (by simp)

end Headers

/-! ## The round trip -/

/-- A header whose value leaves at most `n` spaces, which its key covers. -/
structure LineFits (n : ℕ) (kv : Bytes × Bytes) : Prop where
  key : IsToken [58, 13] kv.1
  key_head : kv.1.head? ≠ some 32
  key_length : n ≤ kv.1.length
  value : ∀ c ∈ kv.2, c ≠ 13 ∧ c ≠ 0
  value_short : kv.2.length + 2 < maxKeyLen
  value_leads : leads kv.2 < n
  value_notBlank : ¬ Blank kv.2

lemma LineFits.isToken_value {n : ℕ} {kv : Bytes × Bytes} (h : LineFits n kv) :
    IsToken [13] (32 :: (kv.2 ++ [32])) := by
  have hmem : ∀ c ∈ 32 :: (kv.2 ++ [32]), c ≠ 13 ∧ c ≠ 0 := by
    intro c hc
    simp only [List.mem_cons, List.mem_append, List.not_mem_nil, or_false] at hc
    rcases hc with rfl | hc | rfl
    · decide
    · exact h.value c hc
    · decide
  refine ⟨fun c hc => by simpa using (hmem c hc).1, fun h0 => (hmem 0 h0).2 rfl, ?_⟩
  have := h.value_short
  simpa using this

/-- The spaces around a value. -/
lemma LineFits.trim_value {n : ℕ} {kv : Bytes × Bytes} (h : LineFits n kv) :
    trim (32 :: (kv.2 ++ [32])) = trim kv.2 ++ [32] ∧ ¬ Blank (32 :: (kv.2 ++ [32])) ∧
      leads (32 :: (kv.2 ++ [32])) = leads kv.2 + 1 := by
  obtain ⟨htrim, hleads⟩ := trim_append h.value_notBlank [32]
  refine ⟨?_, fun hb => h.value_notBlank fun c hc => hb c (by simp [hc]), ?_⟩
  · rw [← htrim]
    simp [trim]
  · rw [← hleads]
    simp [leads]

/-- The lines are stored one by one: a key covers what the value before it has left. -/
lemma overwrites_of_fits {n : ℕ} {l : List (Bytes × Bytes)} (hl : ∀ kv ∈ l, LineFits n kv) {r : ℕ}
    (hr : r ≤ n) : Overwrites r (lineTokens (l.map fun kv => (kv.1, 32 :: (kv.2 ++ [32])))) := by
  induction l generalizing r with
  | nil => trivial
  | cons kv l ih =>
    have hkv := hl kv (by simp)
    obtain ⟨-, hnb, hleads⟩ := hkv.trim_value
    have hkey : ¬ Blank kv.1 := by
      intro hb
      have := leads_of_blank hb
      rw [(trim_of_head hkv.key_head).2] at this
      have := hkv.key_length
      have := hkv.value_leads
      omega
    have hresidue : residue kv.1 r = 0 := by
      rw [residue, if_neg hkey, (trim_of_head hkv.key_head).2]
    refine ⟨Or.inr (hr.trans hkv.key_length), ?_⟩
    rw [hresidue]
    refine ⟨Or.inr (Nat.zero_le _), ih (fun kv hkv => hl kv (by simp [hkv])) ?_⟩
    dsimp only
    rw [residue, if_neg hnb, hleads]
    exact hkv.value_leads

namespace HttpReponseHeader

/-- A header that comes back from its text. -/
structure Fits (h : HttpReponseHeader) : Prop where
  version : IsToken [32] h.version
  status : h.status < 2 ^ 32
  statusMsg : IsToken [13] h.statusMsg
  statusMsg_head : h.statusMsg.head? ≠ some 32
  lines : ∃ n, ∀ kv ∈ h.headers.toList, LineFits n kv

/-- The text of the header, as the grammar has it: every value has a space on both sides. -/
def asText (h : HttpReponseHeader) : ResponseText where
  version := h.version
  status := h.status
  statusMsg := h.statusMsg
  lines := h.headers.toList.map fun kv => (kv.1, 32 :: (kv.2 ++ [32]))

variable {h : HttpReponseHeader} {que : Que} {it : Iterator}

lemma textFrom_serializeHeader (hh : h.Fits) (hret : (h.serializeHeader que it).1 = 0) :
    (h.serializeHeader que it).2.textFrom it = h.asText.text := by
  obtain ⟨n, hlines⟩ := hh.lines
  have hflat : (h.headers.toList.flatMap fun kv =>
      cstr kv.1 ++ ascii ": " ++ cstr kv.2 ++ ascii " \r\n")
      = h.asText.lines.flatMap lineText := by
    rw [asText, List.flatMap_map]
    refine List.flatMap_congr fun kv hkv => ?_
    have hkv := hlines kv hkv
    have hvalue : IsToken [13] kv.2 :=
      ⟨fun c hc => by simpa using (hkv.value c hc).1, fun h0 => (hkv.value 0 h0).2 rfl,
        (Nat.le_add_right _ 2).trans_lt hkv.value_short⟩
    rw [cstr_of_token hkv.key, cstr_of_token hvalue]
    simp [lineText, ascii]
  refine (serializeHeader_spec hret).1.trans ?_
  rw [headerText, hflat, cstr_of_token hh.version, cstr_of_token hh.statusMsg]
  simp [ResponseText.text, ResponseText.firstLine, asText, ascii]

lemma wellFormed_asText (hh : h.Fits) : h.asText.WellFormed := by
  obtain ⟨n, hlines⟩ := hh.lines
  refine ⟨hh.version, hh.status, hh.statusMsg, ?_, ?_⟩
  · intro line hl
    obtain ⟨kv, hkv, rfl⟩ := List.mem_map.mp hl
    exact (hlines kv hkv).key
  · intro line hl
    obtain ⟨kv, hkv, rfl⟩ := List.mem_map.mp hl
    exact (hlines kv hkv).isToken_value

/-- What is stored for the lines of a header. -/
lemma readLines_asText (hh : h.Fits) (key : Bytes) :
    (readLines 0 ∅ h.asText.lines)[key]? = h.headers[key]?.map fun v => trim v ++ [32] := by
  obtain ⟨n, hlines⟩ := hh.lines
  rw [asText, RequestText.readLines_of_overwrites (overwrites_of_fits hlines (Nat.zero_le n)),
    List.foldl_map, ← Headers.getElem?_insertAll_toList (fun v => trim v ++ [32])]
  congr 1
  refine List.foldl_ext _ _ _ fun m kv hkv => ?_
  have hkv := hlines kv hkv
  rw [hkv.trim_value.1, (trim_of_head hkv.key_head).1]

/-- **A response that is written and read again.**  The parser finishes behind the blank line
with the status and its message, and every header has its value without the spaces in front and
with one behind it. -/
theorem parserHeader_serializeHeader (hh : h.Fits) (hret : (h.serializeHeader que it).1 = 0)
    {rb : ReadBuffer} (hrb : rb.Reachable) {body : Bytes}
    (hunread : rb.unread = (h.serializeHeader que it).2.textFrom it ++ body)
    (g : HttpReponseHeader) :
    (g.reset.parserHeader rb).1 = .finish ∧
      (g.reset.parserHeader rb).2.1.status = h.status ∧
      (g.reset.parserHeader rb).2.1.statusMsg = h.statusMsg ∧
      (∀ key : Bytes, (g.reset.parserHeader rb).2.1.headers[key]?
        = h.headers[key]?.map fun v => trim v ++ [32]) ∧
      (g.reset.parserHeader rb).2.2
        = ReadBuffer.advance^[((h.serializeHeader que it).2.textFrom it).length] rb := by
  rw [textFrom_serializeHeader hh hret] at hunread ⊢
  have hresidue : residue h.statusMsg 0 = 0 := residue_of_head hh.statusMsg_head
  obtain ⟨bodyStart, heq⟩ := ResponseText.parserHeader_text (h := g) (wellFormed_asText hh)
    hrb.isRing hunread
  rw [heq]
  refine ⟨rfl, rfl, (trim_of_head hh.statusMsg_head).1, ?_, rfl⟩
  intro key
  refine Eq.trans ?_ (readLines_asText hh key)
  rw [ResponseText.betweenLines, show h.asText.statusMsg = h.statusMsg from rfl, hresidue]

end HttpReponseHeader

end MTRpc
