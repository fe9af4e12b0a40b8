import MTRpc.Http.RequestText
import MTRpc.Http.ScratchBounds

/-!
# Resynchronisation

Outside a request the parser looks for the next method, and skips what is in front of it.  The
skipped bytes stay in the scratch array, though: the search puts `pos` back to the start of the
array and not to the start of the method, so `MoveBufTo` takes the method with the skipped bytes in
front of it, and leaves the spaces at the front of them for the next token.

`parserHeader_resync` says for which skipped bytes this makes no difference.
-/

namespace MTRpc

open Scanner (Outcome Machine)
open Scratch (holding cells EndsMethod HasMethod Searched methodGet methodPost)

/-- A method is in `j` followed by `r` for the first time at the start of `r`. -/
structure FirstMethodAt (j r : Bytes) : Prop where
  start : methodGet <+: r ∨ methodPost <+: r
  first : ∀ k < j.length, ¬ methodGet <+: (j ++ r).drop k ∧ ¬ methodPost <+: (j ++ r).drop k

/-- The method at the start of a request, with its space. -/
def methodAt (r : Bytes) : Bytes := if methodGet <+: r then methodGet else methodPost

/-- The path behind it. -/
def pathAt (r : Bytes) : Bytes := (r.drop (methodAt r).length).takeWhile (· ≠ 32)

/-- The skipped bytes are spaces, the array takes them and the method, and the path covers them. -/
structure Skippable (j r : Bytes) : Prop where
  blank : Blank j
  short : j.length + (methodAt r).length < maxKeyLen
  covered : j.length ≤ (pathAt r).length

/-- The same request, and the same bytes left unread. -/
structure SameRequest (res res' : ParserRet × HttpRequestHeader × ReadBuffer) : Prop where
  ret : res.1 = res'.1
  method : res.2.1.method = res'.2.1.method
  path : res.2.1.path = res'.2.1.path
  version : res.2.1.version = res'.2.1.version
  headers : res.2.1.headers = res'.2.1.headers
  unread : res.2.2.unread = res'.2.2.unread

namespace FirstMethodAt

variable {j r : Bytes}

lemma methodAt_cases (r : Bytes) : methodAt r = methodGet ∨ methodAt r = methodPost := by
  rw [methodAt]
  split
  · exact Or.inl rfl
  · exact Or.inr rfl

lemma alone (hfirst : FirstMethodAt j r) : FirstMethodAt [] r where
  start := hfirst.start
  first k hk := absurd hk (Nat.not_lt_zero k)

lemma eq_append (hfirst : FirstMethodAt j r) : r = methodAt r ++ r.drop (methodAt r).length := by
  have hprefix : methodAt r <+: r := by
    rw [methodAt]
    split
    · assumption
    · exact hfirst.start.resolve_left ‹_›
  exact (List.prefix_iff_eq_append.mp hprefix).symm

/-- The method without its space contains none. -/
lemma not_hasMethod (hfirst : FirstMethodAt j r) : ¬ HasMethod (j ++ (methodAt r).dropLast) := by
  have hin : j ++ (methodAt r).dropLast <+: j ++ r := by
    rw [List.prefix_append_right_inj]
    exact (List.dropLast_prefix _).trans ⟨_, hfirst.eq_append.symm⟩
  have hnone : ∀ m, m = methodGet ∨ m = methodPost → ¬ m <:+: j ++ (methodAt r).dropLast := by
    rintro m hm ⟨u, v, huv⟩
    have hu : m <+: (j ++ (methodAt r).dropLast).drop u.length := by
      rw [← huv, List.append_assoc, List.drop_left]
      exact List.prefix_append _ _
    by_cases hlt : u.length < j.length
    · -- the place is in front of the request
      have hk := hfirst.first u.length hlt
      have hm' := hu.trans (hin.drop u.length)
      rcases hm with rfl | rfl
      · exact hk.1 hm'
      · exact hk.2 hm'
    · rw [List.drop_append, List.drop_of_length_le (Nat.le_of_not_lt hlt), List.nil_append] at hu
      have hmid : m <:+: (methodAt r).dropLast := hu.isInfix.trans (List.drop_suffix _ _).isInfix
      have hall : ∀ m ∈ [methodGet, methodPost], ∀ m' ∈ [methodGet, methodPost],
          ¬ m <:+: m'.dropLast := by decide
      exact hall m (by simpa using hm) (methodAt r) (by simpa using methodAt_cases r) hmid
  rintro (h | h)
  · exact hnone _ (Or.inl rfl) h
  · exact hnone _ (Or.inr rfl) h

end FirstMethodAt

/-! ## What is moved -/

namespace Scratch

/-- What is moved is the text up to its first NUL. -/
lemma eq_of_takeText {n : ℕ} {s t tok : Bytes} {buf : ℕ → UInt8} (hn : t.length < n)
    (h : takeText (cells (s ++ t)) n s.length = some (tok, buf)) : tok = t.takeWhile (· ≠ 0) := by
  induction t generalizing n s tok with
  | nil =>
    obtain ⟨n, rfl⟩ := Nat.exists_eq_succ_of_ne_zero (Nat.ne_of_gt (Nat.zero_lt_of_lt hn))
    rw [takeText, List.append_nil, cells_length, if_pos rfl] at h
    exact (Prod.mk.inj (Option.some.inj h)).1.symm
  | cons c t ih =>
    obtain ⟨n, rfl⟩ := Nat.exists_eq_succ_of_ne_zero (Nat.ne_of_gt (Nat.zero_lt_of_lt hn))
    rw [takeText, cells_append_length] at h
    by_cases hc : c = 0
    · rw [if_pos hc] at h
      rw [List.takeWhile_cons_of_neg (by simpa using hc)]
      exact (Prod.mk.inj (Option.some.inj h)).1.symm
    · rw [if_neg hc, update_cells, List.tail_cons] at h
      obtain ⟨⟨tok', buf'⟩, hrest, heq⟩ := Option.map_eq_some_iff.mp h
      obtain ⟨rfl, rfl⟩ := Prod.mk.inj heq
      have htok : tok' = t.takeWhile (· ≠ 0) := ih (s := s ++ [0]) (n := n) (by simpa using hn) (by
        rw [List.append_assoc, List.singleton_append, List.length_append, ← hrest,
          List.length_singleton])
      rw [htok, List.takeWhile_cons_of_pos (by simpa using hc)]

lemma eq_of_moveBufTo {t tok : Bytes} {s : Scratch} {pos : ℕ} (ht : t.length < maxKeyLen)
    (h : (⟨cells t, pos⟩ : Scratch).moveBufTo = some (tok, s)) :
    tok = (trim t).takeWhile (· ≠ 0) := by
  have hsplit := replicate_append_trim t
  have hlen := congrArg List.length hsplit
  rw [List.length_append, List.length_replicate] at hlen
  have hskip := skipSpaces_cells [] t (n := maxKeyLen) (by omega)
  rw [List.nil_append, List.length_nil, Nat.zero_add] at hskip
  rw [moveBufTo] at h
  dsimp only at h
  rw [hskip] at h
  obtain ⟨⟨tok', buf⟩, htake, heq⟩ := Option.map_eq_some_iff.mp h
  obtain ⟨rfl, -⟩ := Prod.mk.inj heq
  have htext : takeText (cells (List.replicate (leads t) 32 ++ trim t)) (maxKeyLen - leads t)
      (List.replicate (leads t) (32 : UInt8)).length = some (tok', buf) := by
    rw [hsplit, List.length_replicate]
    exact htake
  refine eq_of_takeText ?_ htext
  omega

end Scratch

/-- The method that is moved is the one at the start of the request when nothing but spaces is in
front of it. -/
lemma FirstMethodAt.blank_of_takeWhile {j r : Bytes} (hfirst : FirstMethodAt j r)
    (h : methodAt r = (trim (j ++ methodAt r)).takeWhile (· ≠ 0)) : Blank j := by
  by_contra hblank
  have hprefix : methodAt r <+: trim j ++ methodAt r := by
    have hmoved := List.takeWhile_prefix (p := (· ≠ (0 : UInt8))) (l := trim (j ++ methodAt r))
    rw [← h] at hmoved
    rwa [← (trim_append hblank _).1]
  have hlead : leads j < j.length := by
    refine lt_of_le_of_ne (leads_le j) fun heq => hblank (trim_eq_nil_iff.mp ?_)
    have hlen := congrArg List.length (replicate_append_trim j)
    rw [List.length_append, List.length_replicate] at hlen
    exact List.length_eq_zero_iff.mp (by omega)
  have hdrop : trim j ++ methodAt r <+: (j ++ r).drop (leads j) := by
    have hj : j.drop (leads j) = trim j := by
      have hspaces : (List.replicate (leads j) 32 ++ trim j).drop
          (List.replicate (leads j) (32 : UInt8)).length = trim j := List.drop_left
      rwa [List.length_replicate, replicate_append_trim] at hspaces
    rw [List.drop_append_of_le_length hlead.le, hj, List.prefix_append_right_inj]
    exact ⟨_, hfirst.eq_append.symm⟩
  have hk := hfirst.first (leads j) hlead
  rcases methodAt_cases r with hm | hm
  · exact hk.1 (hm ▸ hprefix.trans hdrop)
  · exact hk.2 (hm ▸ hprefix.trans hdrop)

namespace HttpRequestHeader

/-! ## The search -/

variable {h : HttpRequestHeader} {l : ParserLocals} {u t : Bytes}

/-- Bytes without a method are read while a method is looked for. -/
lemma reads_searched (hst : h.state = .start) (hs : Searched u h.scratch)
    (hno : ¬ HasMethod (u ++ t)) :
    ∃ s, Searched (u ++ t) s ∧
      parser.machine.Reads Prod.snd h l t { h with scratch := s } l := by
  induction t generalizing h u with
  | nil => exact ⟨h.scratch, by rwa [List.append_nil], .refl h l⟩
  | cons c t ih =>
    have hsplit : u ++ c :: t = (u ++ [c]) ++ t := by simp
    rw [hsplit] at hno ⊢
    have hends : ¬ EndsMethod (u ++ [c]) := fun hends => hno
      (Scratch.hasMethod_mono (Scratch.hasMethod_concat.mpr (Or.inl hends))
        (List.prefix_append _ _).isInfix)
    have hfound := hs.isMethodFound c
    rw [if_neg hends] at hfound
    obtain ⟨s, hs', hrest⟩ := ih (h := { h with scratch := h.scratch.shifted c }) hst
      (hs.shifted c) hno
    have hone : parser.machine.Reads Prod.snd h l [c]
        { h with scratch := h.scratch.shifted c } l := by
      refine reads_delim (by simp [hst]) hs.pos_lt fun it hpos => ?_
      simp only [step, hst, if_neg hpos, hfound]
    exact ⟨s, hs', hone.trans hrest⟩

/-- The object behind the method, with what was moved and what was left. -/
def foundMethod (tok : Bytes) (s : Scratch) : HttpRequestHeader :=
  { init with scratch := s, method := tok, state := .reqPath }

/-- What was read is moved when the method is there, out of the array or not. -/
lemma reads_methodAt {j r : Bytes} (hfirst : FirstMethodAt j r) :
    ∃ s, Searched (j ++ methodAt r) s ∧
      (∀ tok s', (⟨s.buf, 0⟩ : Scratch).moveBufTo = some (tok, s') →
        parser.machine.Reads Prod.snd .init .fresh (j ++ methodAt r) (foundMethod tok s') .fresh) ∧
      ((⟨s.buf, 0⟩ : Scratch).moveBufTo = none → ∀ t u : Tape, t.map Prod.snd = j ++ methodAt r →
        (parser.machine.scan .init .fresh (t ++ u)).ret = .overrun) := by
  obtain ⟨s, hs, hreads⟩ := reads_searched (h := .init) (l := .fresh) rfl Scratch.searched_zero
    (by rw [List.nil_append]; exact hfirst.not_hasMethod)
  rw [List.nil_append] at hs
  have hlast : (methodAt r).dropLast ++ [32] = methodAt r := by
    rcases FirstMethodAt.methodAt_cases r with h | h
    · rw [h]; rfl
    · rw [h]; rfl
  have hends : EndsMethod (j ++ (methodAt r).dropLast ++ [32]) := by
    rw [List.append_assoc, hlast]
    rcases FirstMethodAt.methodAt_cases r with h | h
    · exact Or.inl (h ▸ List.suffix_append _ _)
    · exact Or.inr (h ▸ List.suffix_append _ _)
  have hfound := hs.isMethodFound 32
  rw [if_pos hends] at hfound
  have hpos := Nat.not_le.mpr hs.pos_lt
  have hstep : ∀ it, step { init with scratch := s } .fresh (it, 32) =
      moveBufTo { init with scratch := ⟨(s.shifted 32).buf, 0⟩ } fun tok h =>
        .go { h with method := tok, state := .reqPath } .fresh := by
    intro it
    simp only [step, show HttpRequestHeader.init.state = .start from rfl, if_neg hpos, hfound]
  have hshifted := hs.shifted 32
  rw [List.append_assoc, hlast] at hshifted
  refine ⟨_, hshifted, ?_, ?_⟩
  · intro tok s' hmove
    have hone : parser.machine.Reads Prod.snd { init with scratch := s } .fresh [32]
        (foundMethod tok s') .fresh := by
      refine reads_delim (show ParserState.start ≠ .atEnd by decide) hs.pos_lt fun it _ => ?_
      rw [hstep, moveBufTo, hmove]
      rfl
    have hall := hreads.trans hone
    rwa [List.append_assoc, hlast] at hall
  · intro hmove t u ht
    rw [← hlast, ← List.append_assoc] at ht
    obtain ⟨t₁, t₂, rfl, h₁, h₂⟩ := List.map_eq_append_iff.mp ht
    obtain ⟨⟨it, c⟩, t₃, rfl, hc, -⟩ := List.map_eq_cons_iff.mp h₂
    obtain rfl : c = 32 := hc
    have hstop : parser.machine.step { init with scratch := s } .fresh (it, 32)
        = .stop .overrun { init with scratch := ⟨(s.shifted 32).buf, 0⟩ } := by
      refine (hstep it).trans ?_
      rw [moveBufTo, hmove]
    have hopen : ParserState.start ≠ .atEnd := by decide
    rw [List.append_assoc, hreads t₁ h₁, List.cons_append,
      Machine.scan_stop (HeaderParser.machine_done hopen) hstop]
    rfl

/-! ## Behind the method -/

/-- `h'` comes behind `h`: a method that was found stays, and a path that was read stays. -/
def Behind (h h' : HttpRequestHeader) : Prop :=
  h.state ≠ .start → h'.state ≠ .start ∧ h'.method = h.method ∧
    (h.state ≠ .reqPath → h'.state ≠ .reqPath ∧ h'.path = h.path)

lemma Behind.refl (h : HttpRequestHeader) : Behind h h :=
  fun hst => ⟨hst, rfl, fun hne => ⟨hne, rfl⟩⟩

lemma Behind.trans {h h' h'' : HttpRequestHeader} (hh : Behind h h') (hh' : Behind h' h'') :
    Behind h h'' := by
  intro hst
  obtain ⟨hst', hmethod, hpath⟩ := hh hst
  obtain ⟨hst'', hmethod', hpath'⟩ := hh' hst'
  refine ⟨hst'', hmethod'.trans hmethod, ?_⟩
  intro hne
  obtain ⟨hne', heq⟩ := hpath hne
  obtain ⟨hne'', heq'⟩ := hpath' hne'
  exact ⟨hne'', heq'.trans heq⟩

/-- A step. -/
lemma behind_step (h : HttpRequestHeader) (l : ParserLocals) (a : Iterator × UInt8) :
    (h.step l a).All (fun _ h' => Behind h h') (fun h' _ => Behind h h') := by
  obtain ⟨it, c⟩ := a
  have hself := Behind.refl h
  rw [step]
  split
  · exact hself
  split
  case h_1 hs =>
    rcases h.scratch.isMethodFound c with _ | ⟨_ | _, s⟩
    · exact hself
    · exact fun hst => absurd hs hst
    · refine all_moveBufTo (fun hst => absurd hs hst) fun _ _ hst => absurd hs hst
  case h_2 hs =>
    split
    · refine all_moveBufTo hself fun tok s => ?_
      dsimp only
      split
      · exact fun hst => ⟨hst, rfl, fun hne => absurd hs hne⟩
      · exact fun _ => ⟨by simp, rfl, fun hne => absurd hs hne⟩
    · exact all_put hself fun s => hself
  case h_3 =>
    split
    · exact all_moveBufTo hself fun tok s _ => ⟨by simp, rfl, fun _ => ⟨by simp, rfl⟩⟩
    · exact all_put hself fun s => hself
  case h_4 => exact all_expect hself fun _ => ⟨by simp, rfl, fun _ => ⟨by simp, rfl⟩⟩
  case h_5 =>
    split
    · refine all_moveBufTo hself fun tok s => ?_
      dsimp only
      split
      · exact hself
      · exact fun _ => ⟨by simp, rfl, fun _ => ⟨by simp, rfl⟩⟩
    · split
      · exact fun _ => ⟨by simp, rfl, fun _ => ⟨by simp, rfl⟩⟩
      · exact all_put hself fun s => hself
  case h_6 =>
    split
    · exact all_moveBufTo hself fun tok s _ => ⟨by simp, rfl, fun _ => ⟨by simp, rfl⟩⟩
    · exact all_put hself fun s => hself
  case h_7 => exact all_expect hself fun _ => ⟨by simp, rfl, fun _ => ⟨by simp, rfl⟩⟩
  case h_8 => exact all_expect hself fun _ => ⟨by simp, rfl, fun _ => ⟨by simp, rfl⟩⟩
  case h_9 => exact hself

/-- A call. -/
lemma behind_scan (h : HttpRequestHeader) (l : ParserLocals) (t : Tape) :
    Behind h (parser.machine.scan h l t).obj := by
  refine Machine.scan_invariant (M := parser.machine) (P := fun h' _ => Behind h h')
    (fun h₁ l₁ a h₂ l₂ hb hs => hb.trans ?_) (fun h₁ l₁ a r h₂ hb hs => hb.trans ?_) (.refl h)
  · have hstep := behind_step h₁ l₁ a
    rwa [show h₁.step l₁ a = .go h₂ l₂ from hs] at hstep
  · have hstep := behind_step h₁ l₁ a
    rwa [show h₁.step l₁ a = .stop r h₂ from hs] at hstep

/-! ### The same bytes in other cells -/

/-- The same object, up to the place where the body starts. -/
def SameUpToBody (h h' : HttpRequestHeader) : Prop := { h with bodyStart := h'.bodyStart } = h'

section

variable {k k' : Bytes → HttpRequestHeader → Step} {c : UInt8} {b : Iterator}

lemma sim_put : (h.put l c).Sim SameUpToBody (put { h with bodyStart := b } l c) := by
  rw [put, put]
  cases h.scratch.put c with
  | none => exact ⟨rfl, rfl⟩
  | some s => exact ⟨rfl, rfl⟩

lemma sim_moveBufTo (hk : ∀ tok s, (k tok { h with scratch := s }).Sim SameUpToBody
    (k' tok { h with scratch := s, bodyStart := b })) :
    (h.moveBufTo k).Sim SameUpToBody (moveBufTo { h with bodyStart := b } k') := by
  rw [moveBufTo, moveBufTo]
  cases h.scratch.moveBufTo with
  | none => exact ⟨rfl, rfl⟩
  | some r => exact hk r.1 r.2

lemma sim_expect {want : UInt8} {next next' : HttpRequestHeader} (hnext : SameUpToBody next next') :
    (h.expect l want c next).Sim SameUpToBody
      (expect { h with bodyStart := b } l want c next') := by
  rw [expect, expect]
  split
  · exact ⟨hnext, rfl⟩
  · exact ⟨rfl, rfl⟩

/-- A byte does the same wherever it is. -/
lemma sim_step (h : HttpRequestHeader) (b : Iterator) (l : ParserLocals) (it it' : Iterator) :
    (h.step l (it, c)).Sim SameUpToBody (step { h with bodyStart := b } l (it', c)) := by
  rw [step, step]
  dsimp only
  split
  · exact ⟨rfl, rfl⟩
  split
  case h_1 =>
    rcases h.scratch.isMethodFound c with _ | ⟨_ | _, s⟩
    · exact ⟨rfl, rfl⟩
    · exact ⟨rfl, rfl⟩
    · exact sim_moveBufTo fun _ _ => ⟨rfl, rfl⟩
  case h_2 =>
    split
    · refine sim_moveBufTo fun tok s => ?_
      dsimp only
      split
      · exact ⟨rfl, rfl⟩
      · exact ⟨rfl, rfl⟩
    · exact sim_put
  case h_3 =>
    split
    · exact sim_moveBufTo fun tok s => ⟨rfl, rfl⟩
    · exact sim_put
  case h_4 => exact sim_expect rfl
  case h_5 =>
    split
    · refine sim_moveBufTo fun tok s => ?_
      dsimp only
      split
      · exact ⟨rfl, rfl⟩
      · exact ⟨rfl, rfl⟩
    · split
      · exact ⟨rfl, rfl⟩
      · exact sim_put
  case h_6 =>
    split
    · exact sim_moveBufTo fun tok s => ⟨rfl, rfl⟩
    · exact sim_put
  case h_7 => exact sim_expect rfl
  case h_8 => exact sim_expect rfl
  case h_9 => exact ⟨rfl, rfl⟩

end

/-- A call does the same with the same bytes in other cells. -/
lemma sim_scan (h : HttpRequestHeader) (l : ParserLocals) {t t' : Tape}
    (ht : t.map Prod.snd = t'.map Prod.snd) :
    (parser.machine.scan h l t).ret = (parser.machine.scan h l t').ret ∧
      SameUpToBody (parser.machine.scan h l t).obj (parser.machine.scan h l t').obj ∧
      (parser.machine.scan h l t).used = (parser.machine.scan h l t').used := by
  refine Machine.scan_sim (fun h h' hsame => ?_) (fun h h' l a a' hsame ha => ?_) rfl ht
  · rw [← hsame]
    rfl
  · obtain ⟨it, c⟩ := a
    obtain ⟨it', c'⟩ := a'
    obtain rfl : c = c' := ha
    rw [← hsame]
    exact sim_step h h'.bodyStart l it it'

/-! ## The two calls -/

section

variable {j r : Bytes} {t t' : Tape}

lemma length_methodAt_lt (r : Bytes) : (methodAt r).length < maxKeyLen := by
  rcases FirstMethodAt.methodAt_cases r with h | h
  · rw [h]
    decide
  · rw [h]
    decide

lemma zero_notMem_methodAt (r : Bytes) : (0 : UInt8) ∉ methodAt r := by
  rcases FirstMethodAt.methodAt_cases r with h | h
  · rw [h]
    decide
  · rw [h]
    decide

lemma methodAt_not_blank (r : Bytes) : ¬ Blank (methodAt r) ∧ trim (methodAt r) = methodAt r := by
  rcases FirstMethodAt.methodAt_cases r with h | h
  · rw [h]
    decide
  · rw [h]
    decide

/-- Spaces in front of a method stay in the array. -/
lemma reads_blank (hfirst : FirstMethodAt j r) (hj : Blank j)
    (hlen : j.length + (methodAt r).length < maxKeyLen) :
    parser.machine.Reads Prod.snd .init .fresh (j ++ methodAt r)
      (foundMethod (methodAt r) (holding [] j.length)) .fresh := by
  obtain ⟨s, hs, hreads, -⟩ := reads_methodAt hfirst
  obtain ⟨hm, htrim⟩ := methodAt_not_blank r
  have hjs : j = List.replicate j.length 32 := List.eq_replicate_iff.mpr ⟨rfl, hj⟩
  have hlead : leads (j ++ methodAt r) = j.length ∧ trim (j ++ methodAt r) = methodAt r := by
    rw [hjs, List.length_replicate]
    generalize j.length = n
    induction n with
    | zero =>
      have hsplit := congrArg List.length (replicate_append_trim (methodAt r))
      rw [List.length_append, List.length_replicate, htrim] at hsplit
      exact ⟨by rw [List.replicate_zero, List.nil_append]; omega, htrim⟩
    | succ n ih =>
      rw [List.replicate_succ, List.cons_append]
      exact ⟨by simpa [leads] using ih.1, by simpa [trim] using ih.2⟩
  refine hreads _ _ ?_
  rw [hs.short (by rwa [List.length_append]), holding, padded_zero]
  have h0 : (0 : UInt8) ∉ j ++ methodAt r := by
    intro h
    rcases List.mem_append.mp h with h | h
    · exact absurd (hj 0 h) (by decide)
    · exact zero_notMem_methodAt r h
  refine (Scratch.moveBufTo_cells (by rwa [List.length_append]) h0 0).trans ?_
  rw [hlead.1, hlead.2, Scratch.holding_nil]

lemma reads_alone (hfirst : FirstMethodAt j r) :
    parser.machine.Reads Prod.snd .init .fresh (methodAt r)
      (foundMethod (methodAt r) (holding [] 0)) .fresh := by
  have hread := reads_blank hfirst.alone (fun c hc => absurd hc List.not_mem_nil)
    (by simpa using length_methodAt_lt r)
  rwa [List.nil_append] at hread

/-- The bytes of the path come over the spaces. -/
lemma reads_pathBytes {p tok : Bytes} {k : ℕ} (hp : ∀ c ∈ p, c ≠ 32) (hlen : p.length ≤ maxKeyLen) :
    parser.machine.Reads Prod.snd (foundMethod tok (holding [] k)) .fresh p
      (foundMethod tok (holding p k)) .fresh := by
  refine collects_reqPath.reads .fresh rfl (t := p) (u := []) rfl (by simpa using hlen) ?_
  intro c hc
  simpa using hp c hc

lemma mem_pathAt {c : UInt8} (hc : c ∈ pathAt r) : c ≠ 32 := by
  simpa using List.mem_takeWhile_imp hc

/-- The same call when the skipped bytes make no difference. -/
lemma scan_skippable (hfirst : FirstMethodAt j r) (hskip : Skippable j r)
    (ht : t.map Prod.snd = j ++ r) (ht' : t'.map Prod.snd = r) :
    (parser.machine.scan .init .fresh t).ret = (parser.machine.scan .init .fresh t').ret ∧
      SameUpToBody (parser.machine.scan .init .fresh t).obj
        (parser.machine.scan .init .fresh t').obj ∧
      (parser.machine.scan .init .fresh t).used
        = j.length + (parser.machine.scan .init .fresh t').used := by
  obtain ⟨hj, hshort, hcovered⟩ := hskip
  -- the first bytes of the path cover the spaces
  let p := (pathAt r).take j.length
  have hp : ∀ c ∈ p, c ≠ 32 := fun c hc => mem_pathAt (List.mem_of_mem_take hc)
  have hlen : p.length = j.length := by
    rw [List.length_take]
    omega
  obtain ⟨w, hw⟩ : p <+: r.drop (methodAt r).length :=
    (List.take_prefix _ _).trans (List.takeWhile_prefix _)
  have hr : r = methodAt r ++ p ++ w := by
    rw [List.append_assoc, hw]
    exact hfirst.eq_append
  have hread := (reads_blank hfirst hj hshort).trans
    (@reads_pathBytes p (methodAt r) j.length hp (by omega))
  have hread' := (reads_alone hfirst).trans
    (@reads_pathBytes p (methodAt r) 0 hp (by omega))
  have hsame : holding p j.length = holding p 0 := by
    rw [holding, holding, padded, padded, hlen, Nat.sub_self, Nat.zero_sub]
  rw [hsame] at hread
  rw [hr, ← List.append_assoc, ← List.append_assoc] at ht
  rw [hr] at ht'
  obtain ⟨t₁, t₂, rfl, h₁, h₂⟩ := List.map_eq_append_iff.mp ht
  obtain ⟨t₁', t₂', rfl, h₁', h₂'⟩ := List.map_eq_append_iff.mp ht'
  obtain ⟨hret, hobj, hused⟩ := sim_scan (foundMethod (methodAt r) (holding p 0)) .fresh
    (h₂.trans h₂'.symm)
  have hl := congrArg List.length h₁
  have hl' := congrArg List.length h₁'
  simp only [List.length_map, List.length_append] at hl hl'
  rw [hread t₁ h₁, hread' t₁' h₁']
  refine ⟨hret, hobj, ?_⟩
  rw [Scanner.Res.shift_used, Scanner.Res.shift_used, hused]
  omega

/-- A method that is found is the method of the request. -/
lemma scan_reads_method {tok : Bytes} {s : Scratch} {bs w : Bytes}
    (hread : parser.machine.Reads Prod.snd .init .fresh bs (foundMethod tok s) .fresh)
    (ht : t.map Prod.snd = bs ++ w) :
    (parser.machine.scan .init .fresh t).obj.method = tok := by
  obtain ⟨t₁, t₂, rfl, h₁, -⟩ := List.map_eq_append_iff.mp ht
  rw [hread t₁ h₁]
  exact (behind_scan (foundMethod tok s) .fresh t₂ (by simp [foundMethod])).2.1

/-- The array takes the skipped bytes, or the call leaves it. -/
lemma short_of_ret (hfirst : FirstMethodAt j r) (ht : t.map Prod.snd = j ++ r)
    (h0 : 0 ∉ j ∨ j.length + (methodAt r).length < maxKeyLen)
    (hret : (parser.machine.scan .init .fresh t).ret ≠ .overrun) :
    j.length + (methodAt r).length < maxKeyLen := by
  by_contra hlong
  have h0 := h0.resolve_right hlong
  obtain ⟨s, hs, -, hover⟩ := reads_methodAt hfirst
  have hnone : (⟨s.buf, 0⟩ : Scratch).moveBufTo = none := by
    refine Scratch.moveBufTo_full (hs.full ?_ fun h => ?_)
    · rw [List.length_append]
      omega
    · rcases List.mem_append.mp h with h | h
      · exact h0 h
      · exact zero_notMem_methodAt r h
  rw [hfirst.eq_append, ← List.append_assoc] at ht
  obtain ⟨t₁, t₂, rfl, h₁, -⟩ := List.map_eq_append_iff.mp ht
  exact hret (hover hnone t₁ t₂ h₁)

/-- The skipped bytes are spaces, or the method is another. -/
lemma blank_of_method (hfirst : FirstMethodAt j r) (ht : t.map Prod.snd = j ++ r)
    (hshort : j.length + (methodAt r).length < maxKeyLen)
    (hret : (parser.machine.scan .init .fresh t).ret ≠ .overrun)
    (hmethod : (parser.machine.scan .init .fresh t).obj.method = methodAt r) : Blank j := by
  obtain ⟨s, hs, hreads, hover⟩ := reads_methodAt hfirst
  rw [hfirst.eq_append, ← List.append_assoc] at ht
  cases hmove : (⟨s.buf, 0⟩ : Scratch).moveBufTo with
  | none =>
    obtain ⟨t₁, t₂, rfl, h₁, -⟩ := List.map_eq_append_iff.mp ht
    exact absurd (hover hmove t₁ t₂ h₁) hret
  | some p =>
    have htok := scan_reads_method (hreads p.1 p.2 hmove) ht
    rw [hs.short (by rwa [List.length_append]), holding, padded_zero] at hmove
    have hmoved := Scratch.eq_of_moveBufTo (by rwa [List.length_append]) hmove
    rw [← htok, hmethod] at hmoved
    exact hfirst.blank_of_takeWhile hmoved

/-- The path of a request that is read behind spaces. -/
lemma scan_path {k : ℕ} (hk : k < maxKeyLen) (h0 : 0 ∉ pathAt r)
    (hlen : (pathAt r).length < maxKeyLen)
    (hret : (parser.machine.scan (foundMethod (methodAt r) (holding [] k)) .fresh t).ret = .finish)
    (ht : t.map Prod.snd = r.drop (methodAt r).length) :
    (parser.machine.scan (foundMethod (methodAt r) (holding [] k)) .fresh t).obj.path
      = trim (padded (pathAt r) k) ∧ trim (padded (pathAt r) k) ≠ [] := by
  have hp : ∀ c ∈ pathAt r, c ≠ 32 := fun c hc => mem_pathAt hc
  have hread := @reads_pathBytes (pathAt r) (methodAt r) k hp hlen.le
  have hsplit := List.takeWhile_append_dropWhile (p := (· ≠ (32 : UInt8)))
    (l := r.drop (methodAt r).length)
  rw [← hsplit] at ht
  obtain ⟨t₁, t₂, rfl, h₁, h₂⟩ := List.map_eq_append_iff.mp ht
  rw [hread t₁ h₁] at hret ⊢
  rcases t₂ with _ | ⟨⟨it, c⟩, t₂⟩
  · -- without a space behind it the request is not complete
    rw [Machine.scan_nil (HeaderParser.machine_done (show ParserState.reqPath ≠ .atEnd by decide))]
      at hret
    exact absurd hret (show ParserRet.half ≠ .finish by decide)
  have hc : c = 32 := by
    have hhead := List.head?_dropWhile_not (p := (· ≠ (32 : UInt8)))
      (r.drop (methodAt r).length)
    rw [← h₂] at hhead
    simpa using hhead
  subst hc
  have htoken : IsToken [32] (pathAt r) := ⟨fun c hc => by simpa using hp c hc, h0, hlen⟩
  have hmove := Scratch.moveBufTo_holding htoken hk
  have hpos := Nat.not_le.mpr hlen
  have hopen : ParserState.reqPath ≠ .atEnd := by decide
  have hdone := HeaderParser.machine_done (P := parser)
    (h := foundMethod (methodAt r) (holding (pathAt r) k)) hopen
  by_cases hnil : (trim (padded (pathAt r) k)).length = 0
  · have hstep :
        parser.machine.step (foundMethod (methodAt r) (holding (pathAt r) k)) .fresh (it, 32)
        = .stop .fail { foundMethod (methodAt r) (holding [] (residue (pathAt r) k)) with
            path := trim (padded (pathAt r) k) } := by
      change (foundMethod (methodAt r) (holding (pathAt r) k)).step .fresh (it, 32) = _
      simp only [step, foundMethod, moveBufTo, hmove, if_neg hpos, Scratch.pos_holding, if_true,
        show HttpRequestHeader.init.path = [] from rfl, List.nil_append, if_pos hnil]
    rw [Machine.scan_stop hdone hstep] at hret
    exact absurd hret (show ParserRet.fail ≠ .finish by decide)
  · have hstep :
        parser.machine.step (foundMethod (methodAt r) (holding (pathAt r) k)) .fresh (it, 32)
        = .go { foundMethod (methodAt r) (holding [] (residue (pathAt r) k)) with
            path := trim (padded (pathAt r) k), state := .reqVesionR } .fresh := by
      change (foundMethod (methodAt r) (holding (pathAt r) k)).step .fresh (it, 32) = _
      simp only [step, foundMethod, moveBufTo, hmove, if_neg hpos, Scratch.pos_holding, if_true,
        show HttpRequestHeader.init.path = [] from rfl, List.nil_append, if_neg hnil]
    rw [Machine.scan_go hdone hstep]
    refine ⟨?_, fun h => hnil (by rw [h]; rfl)⟩
    exact (((behind_scan _ .fresh t₂) (by simp)).2.2 (by simp)).2

/-- The path covers the spaces, or another path is read. -/
lemma covered_of_path (hfirst : FirstMethodAt j r) (hj : Blank j)
    (hshort : j.length + (methodAt r).length < maxKeyLen) (h0 : 0 ∉ pathAt r)
    (ht : t.map Prod.snd = j ++ r) (ht' : t'.map Prod.snd = r)
    (hret : (parser.machine.scan .init .fresh t).ret = .finish)
    (hret' : (parser.machine.scan .init .fresh t').ret = .finish)
    (hpath : (parser.machine.scan .init .fresh t).obj.path
      = (parser.machine.scan .init .fresh t').obj.path) : j.length ≤ (pathAt r).length := by
  by_contra hlt
  have hlen : (pathAt r).length < maxKeyLen := by omega
  have hread := reads_blank hfirst hj hshort
  have hread' := reads_alone hfirst
  rw [hfirst.eq_append, ← List.append_assoc] at ht
  rw [hfirst.eq_append] at ht'
  obtain ⟨t₁, t₂, rfl, h₁, h₂⟩ := List.map_eq_append_iff.mp ht
  obtain ⟨t₁', t₂', rfl, h₁', h₂'⟩ := List.map_eq_append_iff.mp ht'
  rw [hread t₁ h₁] at hret hpath
  rw [hread' t₁' h₁'] at hret' hpath
  obtain ⟨hp, -⟩ := scan_path (by omega) h0 hlen hret h₂
  obtain ⟨hp', hne⟩ := scan_path (k := 0) (by decide) h0 hlen hret' h₂'
  -- both paths end at the space, and the spaces that are not covered come in front of it
  have heq : trim (padded (pathAt r) j.length) = trim (pathAt r) := by
    rw [← padded_zero (pathAt r), ← hp', padded_zero]
    exact hp.symm.trans hpath
  rcases (trim_padded_iff _ _).mp heq with hblank | hle
  · rw [padded_zero] at hne
    exact hne (trim_eq_nil_iff.mpr hblank)
  · exact hlt hle

end

end HttpRequestHeader

/-- **Resynchronisation.**  A fresh parser that finishes on `r` gets the same request from `j`
followed by `r` when `j` consists of spaces, of which the path covers all.  Where no NUL hides the
bytes that are left in the array it gets the same request only then. -/
theorem parserHeader_resync {j r : Bytes} (hfirst : FirstMethodAt j r) {rb rb' : ReadBuffer}
    (hrb : rb.IsRing pieces) (hrb' : rb'.IsRing pieces) (hunread : rb.unread = j ++ r)
    (hunread' : rb'.unread = r)
    (hfinish : (HttpRequestHeader.init.parserHeader rb').1 = .finish) :
    (Skippable j r → SameRequest (HttpRequestHeader.init.parserHeader rb)
      (HttpRequestHeader.init.parserHeader rb')) ∧
    ((0 ∉ j ∨ j.length + (methodAt r).length < maxKeyLen) → 0 ∉ pathAt r →
      SameRequest (HttpRequestHeader.init.parserHeader rb)
        (HttpRequestHeader.init.parserHeader rb') → Skippable j r) := by
  have ht := rb.map_snd_tape.trans hunread
  have ht' := rb'.map_snd_tape.trans hunread'
  have hparse : HttpRequestHeader.init.parserHeader rb = _ := HttpRequestHeader.parser.parse_eq hrb
  have hparse' : HttpRequestHeader.init.parserHeader rb' = _ :=
    HttpRequestHeader.parser.parse_eq hrb'
  rw [hparse'] at hfinish
  rw [hparse, hparse']
  constructor
  · intro hskip
    obtain ⟨hret, hobj, hused⟩ := HttpRequestHeader.scan_skippable hfirst hskip ht ht'
    have hle : (HttpRequestHeader.parser.machine.scan .init .fresh rb'.tape).used ≤ r.length := by
      have hused' := Machine.used_le (M := HttpRequestHeader.parser.machine) (h := .init)
        (l := .fresh) (t := rb'.tape)
      have hmap : (rb'.tape.map Prod.snd).length = rb'.tape.length := List.length_map _
      rwa [← hmap, ht'] at hused'
    refine ⟨hret, ?_, ?_, ?_, ?_, ?_⟩
    · rw [← hobj]
    · rw [← hobj]
    · rw [← hobj]
    · rw [← hobj]
    · dsimp only
      rw [ReadBuffer.unread_iterate_advance hrb, ReadBuffer.unread_iterate_advance hrb', hused,
        hunread, hunread', List.drop_length_add_append]
      · rw [hunread']
        exact hle
      · rw [hunread, hused, List.length_append]
        exact Nat.add_le_add_left hle _
  · intro h0 hpath0 hsame
    have hret := hsame.ret.trans hfinish
    have hne : (HttpRequestHeader.parser.machine.scan .init .fresh rb.tape).ret ≠ .overrun := by
      intro hover
      rw [hover] at hret
      exact ParserRet.noConfusion hret
    have hshort := HttpRequestHeader.short_of_ret hfirst ht h0 hne
    have hmethod := HttpRequestHeader.scan_reads_method (HttpRequestHeader.reads_alone hfirst)
      (ht'.trans hfirst.eq_append)
    have hblank := HttpRequestHeader.blank_of_method hfirst ht hshort hne
      (hsame.method.trans hmethod)
    exact ⟨hblank, hshort, HttpRequestHeader.covered_of_path hfirst hblank hshort hpath0 ht ht'
      hret hfinish hsame.path⟩

/-- A short request. -/
def requestBytes : Bytes := ascii "GET /a H\r\n\r\n"

/-- The request behind other bytes. -/
def afterJunk (j : Bytes) : ReadBuffer := ReadBuffer.init.recive (j ++ requestBytes)

lemma afterJunk_spec {j : Bytes} (hfit : j.length < maxKeyLen) :
    (afterJunk j).Reachable ∧ (afterJunk j).unread = j ++ requestBytes := by
  have hlen : requestBytes.length = 12 := by decide
  have hcap : maxBufferPieces * defaultBufferSize = 8388608 := by decide
  have hkey : maxKeyLen = 256 := rfl
  refine ReadBuffer.reachable_recived _ (fun h => ?_) ?_
  · rw [List.append_eq_nil_iff] at h
    exact absurd h.2 (by decide)
  · rw [List.length_append]
    omega

/-- What a call returns is a matter of the bytes. -/
lemma parserHeader_bytes {rb : ReadBuffer} (hrb : rb.IsRing pieces) {bs : Bytes}
    (hunread : rb.unread = bs) :
    (HttpRequestHeader.init.parserHeader rb).1 = (HttpRequestHeader.parser.machine.scan .init .fresh
        (bs.map fun c => (⟨0, 0⟩, c))).ret ∧
      (HttpRequestHeader.init.parserHeader rb).2.1.method =
        (HttpRequestHeader.parser.machine.scan .init .fresh
          (bs.map fun c => (⟨0, 0⟩, c))).obj.method := by
  have hparse : HttpRequestHeader.init.parserHeader rb = _ := HttpRequestHeader.parser.parse_eq hrb
  have hbytes : rb.tape.map Prod.snd = (bs.map fun c => ((⟨0, 0⟩ : Iterator), c)).map Prod.snd := by
    rw [rb.map_snd_tape, hunread, List.map_map]
    exact (List.map_id bs).symm
  obtain ⟨hret, hobj, -⟩ := HttpRequestHeader.sim_scan .init .fresh hbytes
  rw [hparse]
  exact ⟨hret, by rw [← hobj]⟩

lemma finishes_requestBytes {rb : ReadBuffer} (hrb : rb.IsRing pieces)
    (hunread : rb.unread = requestBytes) :
    (HttpRequestHeader.init.parserHeader rb).1 = .finish := by
  rw [(parserHeader_bytes hrb hunread).1]
  decide +kernel

/-- A space in front of a request makes no difference. -/
theorem parserHeader_resync_space :
    (Skippable (ascii " ") requestBytes →
      SameRequest (HttpRequestHeader.init.parserHeader (afterJunk (ascii " ")))
        (HttpRequestHeader.init.parserHeader (afterJunk []))) ∧
    ((0 ∉ ascii " " ∨ (ascii " ").length + (methodAt requestBytes).length < maxKeyLen) →
      0 ∉ pathAt requestBytes →
      SameRequest (HttpRequestHeader.init.parserHeader (afterJunk (ascii " ")))
        (HttpRequestHeader.init.parserHeader (afterJunk [])) →
      Skippable (ascii " ") requestBytes) := by
  obtain ⟨hrb, hunread⟩ := afterJunk_spec (j := ascii " ") (by decide)
  obtain ⟨hrb', hunread'⟩ := afterJunk_spec (j := []) (by decide)
  exact parserHeader_resync ⟨by decide, by decide⟩ hrb.isRing hrb'.isRing hunread hunread'
    (finishes_requestBytes hrb'.isRing hunread')

/-- Another byte becomes a part of the method. -/
theorem not_parserHeader_resync :
    ¬ ∀ j r : Bytes, FirstMethodAt j r → ∀ rb rb' : ReadBuffer, rb.Reachable → rb'.Reachable →
      rb.unread = j ++ r → rb'.unread = r →
        (HttpRequestHeader.init.parserHeader rb').1 = .finish →
          SameRequest (HttpRequestHeader.init.parserHeader rb)
            (HttpRequestHeader.init.parserHeader rb') := by
  intro hall
  obtain ⟨hrb, hunread⟩ := afterJunk_spec (j := ascii "x") (by decide)
  obtain ⟨hrb', hunread'⟩ := afterJunk_spec (j := []) (by decide)
  have hsame := hall (ascii "x") requestBytes ⟨by decide, by decide⟩ _ _ hrb hrb' hunread hunread'
    (finishes_requestBytes hrb'.isRing hunread')
  have hmethod := hsame.method
  rw [(parserHeader_bytes hrb.isRing hunread).2, (parserHeader_bytes hrb'.isRing hunread').2]
    at hmethod
  exact absurd hmethod (by decide +kernel)

end MTRpc
