import MTRpc.Http.Header
import MTRpc.Mio.BufferRuns

/-!
# What the serialisers write

`SerializeHeader` prints the first line, the headers and the blank line one after the other
into a piece, each with a NUL behind it, which the next one overwrites.  When it returns 0 the
piece ends behind the text (`serializeHeader_spec`).
-/

namespace MTRpc

open PieceRing (cells mem_cells cells_add nodup_cells)

/-- The text of a header: the first line, the headers in the order of their keys, and the
blank line. -/
def headerText (first : Bytes) (headers : Headers) : Bytes :=
  first ++ (headers.toList.flatMap fun kv =>
    cstr kv.1 ++ ascii ": " ++ cstr kv.2 ++ ascii " \r\n") ++ ascii "\r\n"

/-- The bytes of a piece from a position to its end. -/
def Que.textFrom (que : Que) (it : Iterator) : Bytes :=
  (cells it.idx it.pos ((que it.idx).size - it.pos)).map que.load

@[simp] lemma Que.load_setSize (que : Que) (i n : ℕ) : (que.setSize i n).load = que.load := by
  funext it
  by_cases h : it.idx = i
  · simp [load, setSize, h]
  · simp [load, setSize, Function.update_of_ne h]

variable {que que' : Que} {idx pos pos' : ℕ} {size : ℤ} {texts : List Bytes}

/-- A text for which there is room is printed as it is. -/
lemma snprintf_spec {text : Bytes} (hroom : 0 < size - text.length) :
    (cells idx pos text.length).map (snprintf que idx pos size text).load = text ∧
      (∀ it, it ∉ cells idx pos (text.length + 1) →
        (snprintf que idx pos size text).load it = que.load it) ∧
      ∀ i, (snprintf que idx pos size text i).size = (que i).size := by
  have htake : text.take (size.toNat - 1) = text := List.take_of_length_le (by omega)
  have hprint : snprintf que idx pos size text
      = que.storeAll (cells idx pos (text.length + 1)) (text ++ [0]) := by
    rw [snprintf]
    simp only [if_pos (show 0 < size by omega), htake, List.length_append, List.length_singleton]
  rw [hprint]
  refine ⟨?_, fun it hit => Que.load_storeAll_of_notMem _ hit, fun i => Que.size_storeAll _ _ _⟩
  have hall := @Que.map_load_storeAll que _ (text ++ [0])
    (nodup_cells idx pos (text.length + 1)) (by simp)
  rw [List.take_of_length_le (by simp)] at hall
  generalize que.storeAll (cells idx pos (text.length + 1)) (text ++ [0]) = printed at hall ⊢
  rw [cells_add, List.map_append] at hall
  exact (List.append_inj hall (by simp)).1

/-- Texts for which there is room stand one behind the other. -/
lemma snprintfAll_spec (h : snprintfAll idx que pos size texts = (0, que', pos'))
    (hsize : 0 < size ∨ texts ≠ []) :
    0 < size - texts.flatten.length ∧ pos' = pos + texts.flatten.length ∧
      (cells idx pos texts.flatten.length).map que'.load = texts.flatten ∧
      (∀ it, it ∉ cells idx pos (texts.flatten.length + 1) → que'.load it = que.load it) ∧
      ∀ i, (que' i).size = (que i).size := by
  induction texts generalizing que pos size with
  | nil =>
    simp only [snprintfAll, Prod.mk.injEq, true_and] at h
    obtain ⟨rfl, rfl⟩ := h
    simpa using hsize
  | cons text texts ih =>
    rw [snprintfAll] at h
    split at h
    · simp at h
    rename_i hroom
    have hroom : 0 < size - text.length := by omega
    obtain ⟨hload, hframe, hsizes⟩ := @snprintf_spec que idx pos size text hroom
    obtain ⟨hroom', hpos, hload', hframe', hsizes'⟩ := ih h (Or.inl hroom)
    have hlen : (text :: texts).flatten.length = text.length + texts.flatten.length := by simp
    refine ⟨by rw [hlen]; omega, by rw [hpos, hlen, Nat.add_assoc], ?_, ?_,
      fun i => (hsizes' i).trans (hsizes i)⟩
    · rw [hlen, cells_add, List.map_append, hload', List.flatten_cons]
      congr 1
      refine Eq.trans (List.map_congr_left fun it hit => hframe' it fun hit' => ?_) hload
      have := mem_cells.mp hit
      have := mem_cells.mp hit'
      omega
    · intro it hit
      rw [hlen] at hit
      have hnot := mt mem_cells.mpr hit
      rw [hframe' it fun hit' => hnot ?_, hframe it fun hit' => hnot ?_]
      · have := mem_cells.mp hit'
        omega
      · have := mem_cells.mp hit'
        omega

/-- `snprintfAll` returns 0 when there is room for all texts and a NUL. -/
lemma snprintfAll_of_room (que : Que) (idx pos : ℕ) (hroom : 0 < size - texts.flatten.length) :
    (snprintfAll idx que pos size texts).1 = 0 := by
  induction texts generalizing que pos size with
  | nil => rfl
  | cons text texts ih =>
    rw [List.flatten_cons, List.length_append] at hroom
    rw [snprintfAll]
    split
    · rename_i hfull
      omega
    · exact ih _ _ (by omega)

lemma flatten_headerText (first : Bytes) (headers : Headers) :
    (first :: (headers.toList.map fun kv =>
      cstr kv.1 ++ ascii ": " ++ cstr kv.2 ++ ascii " \r\n") ++ [ascii "\r\n"]).flatten
      = headerText first headers := by
  simp [headerText, List.flatMap_def]

/-- The two exits of `SerializeHeader`. -/
lemma serializeHeader_eq {first : Bytes} {headers : Headers} {it : Iterator} {ret : ℤ}
    (hall : snprintfAll it.idx que it.pos ((que it.idx).size - it.pos)
      (first :: (headers.toList.map fun kv =>
        cstr kv.1 ++ ascii ": " ++ cstr kv.2 ++ ascii " \r\n") ++ [ascii "\r\n"])
      = (ret, que', pos')) :
    serializeHeader first headers que it
      = if ret = 0 then (0, que'.setSize it.idx pos') else (ret, que') := by
  rw [serializeHeader]
  simp only [hall]
  split
  · rename_i heq
    simp only [Prod.mk.injEq] at heq
    obtain ⟨rfl, rfl, rfl⟩ := heq
    rfl
  · rename_i hne heq
    simp only [Prod.mk.injEq] at heq
    obtain ⟨rfl, rfl, rfl⟩ := heq
    rw [if_neg hne]

/-- `SerializeHeader` that returns 0: the piece holds the text from the position on and ends
behind it; the other pieces and the bytes before the position are as they were. -/
theorem serializeHeader_spec {first : Bytes} {headers : Headers} {it : Iterator}
    (hret : (serializeHeader first headers que it).1 = 0) :
    (serializeHeader first headers que it).2.textFrom it = headerText first headers ∧
      ((serializeHeader first headers que it).2 it.idx).size
        = it.pos + (headerText first headers).length ∧
      it.pos + (headerText first headers).length < (que it.idx).size ∧
      (∀ i, i ≠ it.idx → ((serializeHeader first headers que it).2 i).size = (que i).size) ∧
      ∀ jt, jt ∉ cells it.idx it.pos ((headerText first headers).length + 1) →
        (serializeHeader first headers que it).2.load jt = que.load jt := by
  rcases hall : snprintfAll it.idx que it.pos ((que it.idx).size - it.pos)
    (first :: (headers.toList.map fun kv =>
      cstr kv.1 ++ ascii ": " ++ cstr kv.2 ++ ascii " \r\n") ++ [ascii "\r\n"])
    with ⟨ret, que', pos'⟩
  have hheader := serializeHeader_eq hall
  rw [hheader] at hret
  obtain rfl : ret = 0 := by
    by_contra h
    rw [if_neg h] at hret
    exact h hret
  rw [hheader, if_pos rfl]
  obtain ⟨hroom, hpos, hload, hframe, hsizes⟩ := snprintfAll_spec hall (Or.inr (by simp))
  rw [flatten_headerText] at hroom hpos hload hframe
  subst hpos
  refine ⟨?_, ?_, by omega, ?_, ?_⟩
  · rw [Que.textFrom, Que.size_setSize, if_pos rfl, Nat.add_sub_cancel_left, Que.load_setSize,
      hload]
  · rw [Que.size_setSize, if_pos rfl]
  · intro i hi
    rw [Que.size_setSize, if_neg hi, hsizes]
  · intro jt hjt
    rw [Que.load_setSize, hframe jt hjt]

/-- `SerializeHeader` returns 0 exactly when there is room for the text and a NUL. -/
theorem serializeHeader_eq_zero_iff {first : Bytes} {headers : Headers} {it : Iterator} :
    (serializeHeader first headers que it).1 = 0 ↔
      it.pos + (headerText first headers).length < (que it.idx).size := by
  refine ⟨fun h => (serializeHeader_spec h).2.2.1, ?_⟩
  intro h
  rcases hall : snprintfAll it.idx que it.pos ((que it.idx).size - it.pos)
    (first :: (headers.toList.map fun kv =>
      cstr kv.1 ++ ascii ": " ++ cstr kv.2 ++ ascii " \r\n") ++ [ascii "\r\n"])
    with ⟨ret, que', pos'⟩
  have hret : ret = 0 := by
    refine (congrArg Prod.fst hall).symm.trans (snprintfAll_of_room que it.idx it.pos ?_)
    rw [flatten_headerText]
    omega
  rw [serializeHeader_eq hall, if_pos hret]

/-! ## Without room -/

lemma size_snprintfAll (i : ℕ) :
    ((snprintfAll idx que pos size texts).2.1 i).size = (que i).size := by
  induction texts generalizing que pos size with
  | nil => rfl
  | cons text texts ih =>
    rw [snprintfAll]
    split
    · exact Que.size_storeAll _ _ _
    · exact ih.trans (Que.size_storeAll _ _ _)

/-- When the space ends with the last text, the NUL takes the place of its last byte. -/
lemma load_snprintfAll_full {c d : UInt8} (hsize : size = (texts.flatten.length + 2 : ℕ)) :
    (snprintfAll idx que pos size (texts ++ [[c, d]])).2.1.load
      ⟨idx, pos + texts.flatten.length + 1⟩ = 0 := by
  induction texts generalizing que pos size with
  | nil =>
    have hprint : snprintf que idx pos size [c, d]
        = que.storeAll [⟨idx, pos⟩, ⟨idx, pos + 1⟩] [c, 0] := by
      subst hsize
      rfl
    rw [List.nil_append, snprintfAll, if_pos (by subst hsize; simp), hprint]
    simp only [List.flatten_nil, List.length_nil, Nat.add_zero, Que.storeAll]
    exact Que.load_store_self
  | cons text texts ih =>
    rw [List.flatten_cons, List.length_append] at hsize ⊢
    rw [List.cons_append, snprintfAll, if_neg (by omega), ← Nat.add_assoc]
    exact ih (by omega)

/-- `SerializeHeader` without room for the text and a NUL leaves the sizes as they are; when only
the NUL does not fit, it takes the place of the last byte. -/
theorem serializeHeader_full {first : Bytes} {headers : Headers} {it : Iterator}
    (hfull : (que it.idx).size ≤ it.pos + (headerText first headers).length) :
    (∀ i, ((serializeHeader first headers que it).2 i).size = (que i).size) ∧
      ((que it.idx).size = it.pos + (headerText first headers).length →
        (serializeHeader first headers que it).2.load ⟨it.idx, (que it.idx).size - 1⟩ = 0) := by
  have hzero := mt (@serializeHeader_eq_zero_iff que first headers it).mp
    (Nat.not_lt.mpr hfull)
  rcases hall : snprintfAll it.idx que it.pos ((que it.idx).size - it.pos)
    (first :: (headers.toList.map fun kv =>
      cstr kv.1 ++ ascii ": " ++ cstr kv.2 ++ ascii " \r\n") ++ [ascii "\r\n"])
    with ⟨ret, que', pos'⟩
  have hheader := serializeHeader_eq hall
  have hret : ret ≠ 0 := by
    rintro rfl
    rw [hheader, if_pos rfl] at hzero
    exact hzero rfl
  rw [if_neg hret] at hheader
  have hque := congrArg (fun r => r.2.1) hall
  simp only at hque
  rw [hheader]
  constructor
  · intro i
    rw [← hque]
    exact size_snprintfAll i
  · intro heq
    have hlen : (headerText first headers).length = (first :: (headers.toList.map fun kv =>
        cstr kv.1 ++ ascii ": " ++ cstr kv.2 ++ ascii " \r\n")).flatten.length + 2 := by
      rw [← flatten_headerText, List.flatten_append, List.length_append]
      rfl
    have hload := @load_snprintfAll_full que it.idx it.pos ((que it.idx).size - it.pos)
      (first :: (headers.toList.map fun kv =>
        cstr kv.1 ++ ascii ": " ++ cstr kv.2 ++ ascii " \r\n")) 13 10 (by omega)
    have hlast : (que it.idx).size - 1 = it.pos + (first :: (headers.toList.map fun kv =>
        cstr kv.1 ++ ascii ": " ++ cstr kv.2 ++ ascii " \r\n")).flatten.length + 1 := by omega
    rw [hlast, ← hque]
    exact hload

end MTRpc
