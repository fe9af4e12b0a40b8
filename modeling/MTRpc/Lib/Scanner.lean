import Mathlib.Data.List.Basic

/-!
# Resumable scanners

A scanner reads symbols one by one and keeps an object `η`, which survives between calls,
and locals `κ`, which start afresh in every call.  A call ends when the object is done, when
a symbol stops it, or when its input ends; in the last case it can be called again with the
symbols that follow.

`feed` is the sequence of calls that a stream of chunks gives rise to.  It agrees with one
call on the whole input as long as, at every cut, the locals that the next call has lost make
no difference to what it does with the rest (`feed_eq_scan`).
-/

namespace Scanner

/-- What a symbol does: it ends the call with a return value, or the call goes on. -/
inductive Outcome (ρ η κ : Type*)
  | stop (ret : ρ) (obj : η)
  | go (obj : η) (loc : κ)

/-- What holds of the end of the call, or of its going on. -/
def Outcome.All {ρ η κ : Type*} (S : ρ → η → Prop) (G : η → κ → Prop) :
    Outcome ρ η κ → Prop
  | .stop ret obj => S ret obj
  | .go obj loc => G obj loc

lemma Outcome.All.imp {ρ η κ : Type*} {S S' : ρ → η → Prop} {G G' : η → κ → Prop}
    {x : Outcome ρ η κ} (h : x.All S G) (hS : ∀ r o, S r o → S' r o) (hG : ∀ o l, G o l → G' o l) :
    x.All S' G' := by
  cases x with
  | stop ret obj => exact hS ret obj h
  | go obj loc => exact hG obj loc h

/-- Two outcomes alike, up to a relation of the objects. -/
def Outcome.Sim {ρ η κ : Type*} (R : η → η → Prop) : Outcome ρ η κ → Outcome ρ η κ → Prop
  | .stop ret obj, .stop ret' obj' => ret = ret' ∧ R obj obj'
  | .go obj loc, .go obj' loc' => R obj obj' ∧ loc = loc'
  | _, _ => False

/-- A scanner over symbols `α` with objects `η`, locals `κ` and return values `ρ`. -/
structure Machine (α η κ ρ : Type*) where
  step : η → κ → α → Outcome ρ η κ
  /-- The object has read all it wants. -/
  done : η → Bool
  /-- The locals at the start of a call. -/
  fresh : κ
  /-- The return value of a call that ran out of input. -/
  half : ρ
  /-- The return value of a call that found the object done. -/
  finish : ρ
  half_ne_finish : half ≠ finish
  step_ne_half : ∀ h l a r h', step h l a = .stop r h' → r ≠ half

/-- The end of a call: the return value, the object and the locals, and how many symbols
were consumed. -/
@[ext] structure Res (η κ ρ : Type*) where
  ret : ρ
  obj : η
  loc : κ
  used : ℕ

namespace Res

variable {η κ ρ : Type*}

/-- The same end after `n` more symbols. -/
def shift (n : ℕ) (r : Res η κ ρ) : Res η κ ρ := { r with used := n + r.used }

@[simp] lemma shift_ret (n : ℕ) (r : Res η κ ρ) : (r.shift n).ret = r.ret := rfl
@[simp] lemma shift_obj (n : ℕ) (r : Res η κ ρ) : (r.shift n).obj = r.obj := rfl
@[simp] lemma shift_loc (n : ℕ) (r : Res η κ ρ) : (r.shift n).loc = r.loc := rfl
@[simp] lemma shift_used (n : ℕ) (r : Res η κ ρ) : (r.shift n).used = n + r.used := rfl

lemma shift_shift (m n : ℕ) (r : Res η κ ρ) : (r.shift n).shift m = r.shift (m + n) := by
  ext <;> simp [Nat.add_assoc]

/-- Two ends that a caller cannot tell apart. -/
def Agree (r r' : Res η κ ρ) : Prop := r.ret = r'.ret ∧ r.obj = r'.obj ∧ r.used = r'.used

lemma Agree.refl (r : Res η κ ρ) : r.Agree r := ⟨rfl, rfl, rfl⟩

lemma Agree.symm {r r' : Res η κ ρ} (h : r.Agree r') : r'.Agree r :=
  ⟨h.1.symm, h.2.1.symm, h.2.2.symm⟩

lemma Agree.trans {r r' r'' : Res η κ ρ} (h : r.Agree r') (h' : r'.Agree r'') :
    r.Agree r'' :=
  ⟨h.1.trans h'.1, h.2.1.trans h'.2.1, h.2.2.trans h'.2.2⟩

lemma Agree.shift {r r' : Res η κ ρ} (h : r.Agree r') (n : ℕ) :
    (r.shift n).Agree (r'.shift n) :=
  ⟨h.1, h.2.1, congrArg (n + ·) h.2.2⟩

end Res

namespace Machine

variable {α η κ ρ : Type*} (M : Machine α η κ ρ)

/-- One call, from the object `h` and the locals `l`. -/
def scan : η → κ → List α → Res η κ ρ
  | h, l, [] => ⟨if M.done h then M.finish else M.half, h, l, 0⟩
  | h, l, a :: t =>
      if M.done h then ⟨M.finish, h, l, 0⟩
      else
        match M.step h l a with
        | .stop r h' => ⟨r, h', l, 0⟩
        | .go h' l' => (scan h' l' t).shift 1

/-- The calls for a sequence of chunks, until one does not ask for more. -/
def feed [DecidableEq ρ] : η → List (List α) → Res η κ ρ
  | h, [] => ⟨M.half, h, M.fresh, 0⟩
  | h, t :: ts =>
      let r := M.scan h M.fresh t
      if r.ret = M.half ∧ ts ≠ [] then (feed r.obj ts).shift r.used else r

variable {M} {h h' : η} {l l' : κ} {a : α} {t u : List α}

lemma scan_done (hd : M.done h = true) : M.scan h l t = ⟨M.finish, h, l, 0⟩ := by
  cases t with
  | nil => rw [scan, if_pos hd]
  | cons a t => rw [scan, if_pos hd]

lemma scan_nil (hd : M.done h = false) : M.scan h l [] = ⟨M.half, h, l, 0⟩ := by
  rw [scan, hd]
  rfl

lemma scan_go (hd : M.done h = false) (hs : M.step h l a = .go h' l') :
    M.scan h l (a :: t) = (M.scan h' l' t).shift 1 := by
  rw [scan, hd, hs]
  rfl

lemma scan_stop {r : ρ} (hd : M.done h = false) (hs : M.step h l a = .stop r h') :
    M.scan h l (a :: t) = ⟨r, h', l, 0⟩ := by
  rw [scan, hd, hs]
  rfl

/-- A call that asks for more began with an object that was not done. -/
lemma not_done_of_half (hr : (M.scan h l t).ret = M.half) : M.done h = false := by
  cases hd : M.done h with
  | false => rfl
  | true =>
    rw [scan_done hd] at hr
    exact absurd hr.symm M.half_ne_finish

/-- A call that asks for more has gone on after its first symbol. -/
lemma go_of_half (hr : (M.scan h l (a :: t)).ret = M.half) :
    ∃ h' l', M.step h l a = .go h' l' ∧ (M.scan h' l' t).ret = M.half := by
  have hd := not_done_of_half hr
  cases hs : M.step h l a with
  | stop r h' =>
    rw [scan_stop hd hs] at hr
    exact absurd hr (M.step_ne_half _ _ _ _ _ hs)
  | go h' l' =>
    rw [scan_go hd hs] at hr
    exact ⟨h', l', rfl, hr⟩

/-- A call that asks for more has consumed its input. -/
lemma used_of_half (hr : (M.scan h l t).ret = M.half) : (M.scan h l t).used = t.length := by
  induction t generalizing h l with
  | nil => rfl
  | cons a t ih =>
    obtain ⟨h', l', hs, hrest⟩ := go_of_half hr
    rw [scan_go (not_done_of_half hr) hs, Res.shift_used, ih hrest, List.length_cons,
      Nat.add_comm]

lemma used_le : (M.scan h l t).used ≤ t.length := by
  induction t generalizing h l with
  | nil => exact Nat.le_refl 0
  | cons a t ih =>
    cases hd : M.done h with
    | true =>
      rw [scan_done hd]
      exact Nat.zero_le _
    | false =>
      cases hs : M.step h l a with
      | stop r h' =>
        rw [scan_stop hd hs]
        exact Nat.zero_le _
      | go h' l' =>
        rw [scan_go hd hs, Res.shift_used, List.length_cons, Nat.add_comm]
        exact Nat.succ_le_succ ih

/-- A call on a longer input goes on where the call on the prefix ran out of it. -/
lemma scan_append_of_half (hr : (M.scan h l t).ret = M.half) :
    M.scan h l (t ++ u)
      = (M.scan (M.scan h l t).obj (M.scan h l t).loc u).shift t.length := by
  have hd := not_done_of_half hr
  induction t generalizing h l with
  | nil =>
    rw [scan_nil hd, List.nil_append]
    ext <;> simp
  | cons a t ih =>
    obtain ⟨h', l', hs, hrest⟩ := go_of_half hr
    rw [List.cons_append, scan_go hd hs, scan_go hd hs, ih hrest (not_done_of_half hrest),
      Res.shift_shift, Res.shift_obj, Res.shift_loc, List.length_cons, Nat.add_comm]

/-- A call that stopped or finished ignores what follows. -/
lemma scan_append_of_ne_half (hr : (M.scan h l t).ret ≠ M.half) :
    M.scan h l (t ++ u) = M.scan h l t := by
  induction t generalizing h l with
  | nil =>
    cases hd : M.done h with
    | true => rw [scan_done hd, scan_done hd]
    | false =>
      rw [scan_nil hd] at hr
      exact absurd rfl hr
  | cons a t ih =>
    cases hd : M.done h with
    | true => rw [scan_done hd, scan_done hd]
    | false =>
      cases hs : M.step h l a with
      | stop r h' => rw [List.cons_append, scan_stop hd hs, scan_stop hd hs]
      | go h' l' =>
        rw [scan_go hd hs] at hr ⊢
        rw [List.cons_append, scan_go hd hs, ih hr]

/-- What every step of a machine preserves is preserved by a call. -/
lemma scan_invariant {P : η → κ → Prop}
    (hgo : ∀ h l a h' l', P h l → M.step h l a = .go h' l' → P h' l')
    (hstop : ∀ h l a r h', P h l → M.step h l a = .stop r h' → P h' l)
    (h0 : P h l) : P (M.scan h l t).obj (M.scan h l t).loc := by
  induction t generalizing h l with
  | nil => exact h0
  | cons a t ih =>
    cases hd : M.done h with
    | true =>
      rw [scan_done hd]
      exact h0
    | false =>
      cases hs : M.step h l a with
      | stop r h' =>
        rw [scan_stop hd hs]
        exact hstop _ _ _ _ _ h0 hs
      | go h' l' =>
        rw [scan_go hd hs]
        exact ih (hgo _ _ _ _ _ h0 hs)

/-- A property of the object and of the input to come, which every step keeps until the call
stops as `S` says, holds of what a call leaves. -/
lemma scan_rest {I : η → List α → Prop} {S : ρ → Prop}
    (hdone : ∀ h t, I h t → M.done h = true → S M.finish)
    (hstep : ∀ h l a t, I h (a :: t) → M.done h = false →
      (M.step h l a).All (fun r _ => S r) fun h' _ => I h' t)
    (h0 : I h (t ++ u)) :
    ((M.scan h l t).ret = M.half → I (M.scan h l t).obj u) ∧
      ((M.scan h l t).ret ≠ M.half → S (M.scan h l t).ret) := by
  induction t generalizing h l with
  | nil =>
    cases hd : M.done h with
    | true =>
      rw [scan_done hd]
      exact ⟨fun hr => absurd hr.symm M.half_ne_finish, fun _ => hdone h u h0 hd⟩
    | false =>
      rw [scan_nil hd]
      exact ⟨fun _ => h0, fun hr => absurd rfl hr⟩
  | cons a t ih =>
    cases hd : M.done h with
    | true =>
      rw [scan_done hd]
      exact ⟨fun hr => absurd hr.symm M.half_ne_finish, fun _ => hdone h _ h0 hd⟩
    | false =>
      have hall := hstep h l a (t ++ u) h0 hd
      cases hs : M.step h l a with
      | stop r h' =>
        rw [hs] at hall
        rw [scan_stop hd hs]
        exact ⟨fun hr => absurd hr (M.step_ne_half h l a r h' hs), fun _ => hall⟩
      | go h' l' =>
        rw [hs] at hall
        rw [scan_go hd hs]
        exact ih hall

/-! ### Reading a text

The symbols carry labels, and what a step does is mostly a matter of the label. -/

section

variable {β : Type*} {label : α → β} {b : β} {bs cs : List β} {h'' : η} {l'' : κ}

variable (M label) in
/-- Reading symbols with the labels `bs` takes the call from `h`, `l` to `h'`, `l'`. -/
def Reads (h : η) (l : κ) (bs : List β) (h' : η) (l' : κ) : Prop :=
  ∀ t : List α, t.map label = bs → ∀ u, M.scan h l (t ++ u) = (M.scan h' l' u).shift t.length

lemma Reads.refl (h : η) (l : κ) : M.Reads label h l [] h l := by
  intro t ht u
  rw [List.map_eq_nil_iff.mp ht]
  ext <;> simp

lemma Reads.trans (hr : M.Reads label h l bs h' l') (hr' : M.Reads label h' l' cs h'' l'') :
    M.Reads label h l (bs ++ cs) h'' l'' := by
  intro t ht u
  obtain ⟨t₁, t₂, rfl, h₁, h₂⟩ := List.map_eq_append_iff.mp ht
  rw [List.append_assoc, hr t₁ h₁, hr' t₂ h₂, Res.shift_shift, List.length_append]

lemma Reads.single (hd : M.done h = false)
    (hs : ∀ a, label a = b → M.step h l a = .go h' l') : M.Reads label h l [b] h' l' := by
  intro t ht u
  obtain ⟨a, t', rfl, ha, ht'⟩ := List.map_eq_cons_iff.mp ht
  rw [List.map_eq_nil_iff.mp ht', List.cons_append, List.nil_append, scan_go hd (hs a ha)]
  rfl

end

/-- Calls on symbols with the same labels end alike when every step does. -/
lemma scan_sim {β : Type*} {label : α → β} {R : η → η → Prop}
    (hdone : ∀ h h', R h h' → M.done h = M.done h')
    (hstep : ∀ h h' l a a', R h h' → label a = label a' → (M.step h l a).Sim R (M.step h' l a'))
    (hR : R h h') (ht : t.map label = u.map label) :
    (M.scan h l t).ret = (M.scan h' l u).ret ∧ R (M.scan h l t).obj (M.scan h' l u).obj ∧
      (M.scan h l t).used = (M.scan h' l u).used := by
  induction t generalizing h h' l u with
  | nil =>
    rw [List.map_eq_nil_iff.mp ht.symm, scan, scan, hdone h h' hR]
    exact ⟨rfl, hR, rfl⟩
  | cons a t ih =>
    obtain ⟨a', u, rfl, ha, hu⟩ := List.map_eq_cons_iff.mp ht.symm
    have hd := hdone h h' hR
    have hone := hstep h h' l a a' hR ha.symm
    rw [scan, scan, ← hd]
    cases hdone : M.done h with
    | true => exact ⟨rfl, hR, rfl⟩
    | false =>
      cases hs : M.step h l a with
      | stop r k =>
        cases hs' : M.step h' l a' with
        | stop r' k' =>
          rw [hs, hs'] at hone
          exact ⟨hone.1, hone.2, rfl⟩
        | go k' l' =>
          rw [hs, hs'] at hone
          exact hone.elim
      | go k m =>
        cases hs' : M.step h' l a' with
        | stop r' k' =>
          rw [hs, hs'] at hone
          exact hone.elim
        | go k' m' =>
          rw [hs, hs'] at hone
          obtain ⟨hrel, rfl⟩ := hone
          obtain ⟨hret, hobj, hused⟩ := ih (l := m) hrel hu.symm
          exact ⟨hret, hobj, congrArg (1 + ·) hused⟩

variable [DecidableEq ρ] {ts us : List (List α)}

lemma feed_singleton : M.feed h [t] = M.scan h M.fresh t := by
  simp [feed]

lemma feed_cons_of_half (hr : (M.scan h M.fresh t).ret = M.half) (hne : ts ≠ []) :
    M.feed h (t :: ts) = (M.feed (M.scan h M.fresh t).obj ts).shift t.length := by
  rw [feed, if_pos ⟨hr, hne⟩, used_of_half hr]

lemma feed_cons_of_ne_half (hr : (M.scan h M.fresh t).ret ≠ M.half) :
    M.feed h (t :: ts) = M.scan h M.fresh t := by
  rw [feed, if_neg (fun hc => hr hc.1)]

/-- The calls for a longer sequence of chunks go on from the object that the calls for the
first chunks left. -/
lemma feed_append_of_half (hne : us ≠ []) (hr : (M.feed h ts).ret = M.half) :
    (M.feed h (ts ++ us)).obj = (M.feed (M.feed h ts).obj us).obj := by
  induction ts generalizing h with
  | nil => rfl
  | cons t ts ih =>
    by_cases hh : (M.scan h M.fresh t).ret = M.half
    · have hne' : ts ++ us ≠ [] := by simp [hne]
      rw [List.cons_append, feed_cons_of_half hh hne', Res.shift_obj]
      by_cases hts : ts = []
      · subst hts
        rw [feed_singleton, List.nil_append]
      · rw [feed_cons_of_half hh hts, Res.shift_obj, Res.shift_ret] at *
        exact ih hr
    · rw [feed_cons_of_ne_half hh] at hr
      exact absurd hr hh

/-- What every step of a machine preserves, and the loss of the locals too, is preserved
by the calls for a sequence of chunks. -/
lemma feed_invariant {P : η → κ → Prop}
    (hgo : ∀ h l a h' l', P h l → M.step h l a = .go h' l' → P h' l')
    (hstop : ∀ h l a r h', P h l → M.step h l a = .stop r h' → P h' l)
    (hcut : ∀ h l, P h l → P h M.fresh) (h0 : P h M.fresh) :
    P (M.feed h ts).obj (M.feed h ts).loc := by
  induction ts generalizing h with
  | nil => exact h0
  | cons t ts ih =>
    have hscan : P (M.scan h M.fresh t).obj (M.scan h M.fresh t).loc :=
      scan_invariant hgo hstop h0
    by_cases hh : (M.scan h M.fresh t).ret = M.half ∧ ts ≠ []
    · rw [feed_cons_of_half hh.1 hh.2]
      exact ih (hcut _ _ hscan)
    · rw [feed, if_neg hh]
      exact hscan

/-- The same for the calls for a sequence of chunks. -/
lemma feed_rest {I : η → List α → Prop} {S : ρ → Prop} (hend : ∀ h, I h [] → S M.half)
    (hdone : ∀ h t, I h t → M.done h = true → S M.finish)
    (hstep : ∀ h l a t, I h (a :: t) → M.done h = false →
      (M.step h l a).All (fun r _ => S r) fun h' _ => I h' t)
    (h0 : I h ts.flatten) : S (M.feed h ts).ret := by
  induction ts generalizing h with
  | nil => exact hend h h0
  | cons t ts ih =>
    rw [List.flatten_cons] at h0
    obtain ⟨hhalf, hstop⟩ := scan_rest (l := M.fresh) hdone hstep h0
    by_cases hr : (M.scan h M.fresh t).ret = M.half
    · by_cases hts : ts = []
      · subst hts
        rw [feed_singleton, hr]
        exact hend _ (hhalf hr)
      · rw [feed_cons_of_half hr hts, Res.shift_ret]
        exact ih (hhalf hr)
    · rw [feed_cons_of_ne_half hr]
      exact hstop hr

/-- **Chunks and one call.**  If at every cut the locals of the interrupted call make no
difference to what the machine does with the rest of the input, the calls for the chunks end
as the one call on the whole input does. -/
theorem feed_eq_scan (hne : ts ≠ [])
    (hcut : ∀ pre post, ts = pre ++ post → pre ≠ [] → (M.feed h pre).ret = M.half →
      (M.scan (M.feed h pre).obj (M.feed h pre).loc post.flatten).Agree
        (M.scan (M.feed h pre).obj M.fresh post.flatten)) :
    (M.feed h ts).Agree (M.scan h M.fresh ts.flatten) := by
  induction ts generalizing h with
  | nil => exact absurd rfl hne
  | cons t ts ih =>
    by_cases hts : ts = []
    · subst hts
      simp only [feed_singleton, List.flatten_cons, List.flatten_nil, List.append_nil]
      exact Res.Agree.refl _
    · by_cases hr : (M.scan h M.fresh t).ret = M.half
      · rw [feed_cons_of_half hr hts, List.flatten_cons, scan_append_of_half hr]
        refine Res.Agree.shift ?_ t.length
        -- the chunks that follow, then the cut after the first chunk
        have hrest := ih (h := (M.scan h M.fresh t).obj) hts fun pre post hpp hpre hhalf => by
          have hcut' := hcut (t :: pre) post (by rw [hpp]; rfl) (by simp)
          rw [feed_cons_of_half hr hpre] at hcut'
          exact hcut' hhalf
        have hfirst := hcut [t] ts rfl (by simp)
        rw [feed_singleton] at hfirst
        exact hrest.trans (hfirst hr).symm
      · rw [feed_cons_of_ne_half hr, List.flatten_cons, scan_append_of_ne_half hr]
        exact Res.Agree.refl _

end Machine

end Scanner
