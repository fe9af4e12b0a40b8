import Mathlib.Data.List.Nodup

/-!
# Accesses to objects

A trace of accesses (`Touch`) to objects that are created, used and deleted.  It is safe when
each object is created once, and is used and deleted only after that and before it is deleted
(`Touch.Safe`).  A safe trace deletes no object twice.
-/

/-- An access to the object `i`. -/
inductive Touch (ι : Type*)
  | create (i : ι)
  | use (i : ι)
  | delete (i : ι)
deriving DecidableEq, Repr

namespace Touch

variable {ι : Type*} {made dead : List ι} {tr tr' : List (Touch ι)}

/-- The objects that a trace creates, in order. -/
def created (tr : List (Touch ι)) : List ι :=
  tr.filterMap fun | .create i => some i | _ => none

/-- The objects that a trace deletes, in order. -/
def deleted (tr : List (Touch ι)) : List ι :=
  tr.filterMap fun | .delete i => some i | _ => none

@[simp] lemma created_nil : created ([] : List (Touch ι)) = [] := rfl

@[simp] lemma deleted_nil : deleted ([] : List (Touch ι)) = [] := rfl

@[simp] lemma created_create (i : ι) : created (.create i :: tr) = i :: created tr := rfl

@[simp] lemma created_use (i : ι) : created (.use i :: tr) = created tr := rfl

@[simp] lemma created_delete (i : ι) : created (.delete i :: tr) = created tr := rfl

@[simp] lemma deleted_create (i : ι) : deleted (.create i :: tr) = deleted tr := rfl

@[simp] lemma deleted_use (i : ι) : deleted (.use i :: tr) = deleted tr := rfl

@[simp] lemma deleted_delete (i : ι) : deleted (.delete i :: tr) = i :: deleted tr := rfl

@[simp] lemma created_append : created (tr ++ tr') = created tr ++ created tr' :=
  List.filterMap_append

@[simp] lemma deleted_append : deleted (tr ++ tr') = deleted tr ++ deleted tr' :=
  List.filterMap_append

/-- Behind a trace that has created `made` and deleted `dead`, every access is allowed. -/
def Safe : List ι → List ι → List (Touch ι) → Prop
  | _, _, [] => True
  | made, dead, .create i :: tr => i ∉ made ∧ Safe (made ++ [i]) dead tr
  | made, dead, .use i :: tr => (i ∈ made ∧ i ∉ dead) ∧ Safe made dead tr
  | made, dead, .delete i :: tr => (i ∈ made ∧ i ∉ dead) ∧ Safe made (dead ++ [i]) tr

@[simp] lemma safe_nil : Safe made dead [] := trivial

@[simp] lemma safe_create (i : ι) :
    Safe made dead (.create i :: tr) ↔ i ∉ made ∧ Safe (made ++ [i]) dead tr := .rfl

@[simp] lemma safe_use (i : ι) :
    Safe made dead (.use i :: tr) ↔ (i ∈ made ∧ i ∉ dead) ∧ Safe made dead tr := .rfl

@[simp] lemma safe_delete (i : ι) :
    Safe made dead (.delete i :: tr) ↔ (i ∈ made ∧ i ∉ dead) ∧ Safe made (dead ++ [i]) tr := .rfl

lemma safe_append :
    Safe made dead (tr ++ tr') ↔
      Safe made dead tr ∧ Safe (made ++ created tr) (dead ++ deleted tr) tr' := by
  induction tr generalizing made dead with
  | nil => simp
  | cons t tr ih =>
    cases t with
    | create i => simp [ih, and_assoc]
    | use i => simp [ih, and_assoc]
    | delete i => simp [ih, and_assoc]

/-- Uses of objects that are there. -/
lemma safe_uses {is : List ι} (h : ∀ i ∈ is, i ∈ made ∧ i ∉ dead) :
    Safe made dead (is.map .use) := by
  induction is with
  | nil => trivial
  | cons i is ih =>
    rw [List.forall_mem_cons] at h
    exact ⟨h.1, ih h.2⟩

@[simp] lemma created_uses (is : List ι) : created (is.map .use) = [] := by
  simp [created]

@[simp] lemma deleted_uses (is : List ι) : deleted (is.map .use) = [] := by
  simp [deleted]

/-- Objects that are used and then deleted, one after the other. -/
lemma safe_release {is : List ι} (h : ∀ i ∈ is, i ∈ made ∧ i ∉ dead) (hn : is.Nodup) :
    Safe made dead (is.flatMap fun i => [.use i, .delete i]) := by
  induction is generalizing dead with
  | nil => trivial
  | cons i is ih =>
    rw [List.forall_mem_cons] at h
    rw [List.nodup_cons] at hn
    refine ⟨h.1, h.1, ih (fun j hj => ⟨(h.2 j hj).1, fun hmem => ?_⟩) hn.2⟩
    rcases List.mem_append.mp hmem with hmem | hmem
    · exact (h.2 j hj).2 hmem
    · exact hn.1 (List.mem_singleton.mp hmem ▸ hj)

@[simp] lemma created_release (is : List ι) :
    created (is.flatMap fun i => [.use i, .delete i]) = [] := by
  induction is with
  | nil => rfl
  | cons i is ih => simpa [List.flatMap_cons] using ih

@[simp] lemma deleted_release (is : List ι) :
    deleted (is.flatMap fun i => [.use i, .delete i]) = is := by
  induction is with
  | nil => rfl
  | cons i is ih => simpa [List.flatMap_cons] using ih

end Touch
