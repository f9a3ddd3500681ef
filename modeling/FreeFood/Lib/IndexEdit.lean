/-
Lists kept up to date by indices.

An `IndexEdit` takes the element at one index out of a list and puts one in at an index
of what is left. A list kept by edits stays element by element as another one is, if both
take the same edits and start so (`forall₂_applyAll`). Where a list is known by its
comparator alone, `forall₂_of_ascends` says when it is element by element as another.
-/
import FreeFood.Lib.Leading

set_option autoImplicit false

/-- One element taken out of a list, and one put in where the rest then stands. -/
structure IndexEdit (α : Type*) where
  oldIndex : Option ℕ
  newIndex : Option ℕ
  value : α

namespace IndexEdit

open Std Leading

variable {α : Type*}

/-- What is left without the old index. -/
def remove (l : List α) : Option ℕ → List α
  | none => l
  | some i => l.eraseIdx i

def apply (l : List α) (e : IndexEdit α) : List α :=
  match e.newIndex with
  | none => remove l e.oldIndex
  | some i => (remove l e.oldIndex).insertIdx i e.value

def applyAll (l : List α) (es : List (IndexEdit α)) : List α := es.foldl apply l

@[simp] theorem applyAll_nil (l : List α) : applyAll l [] = l := rfl

@[simp] theorem applyAll_cons (l : List α) (e : IndexEdit α) (es : List (IndexEdit α)) :
    applyAll l (e :: es) = applyAll (apply l e) es := rfl

/-! ## 1. At a split -/

theorem remove_split (b a : List α) (x : α) : remove (b ++ x :: a) (some b.length) = b ++ a := by
  rw [remove, List.eraseIdx_append_of_length_le (Nat.le_refl _), Nat.sub_self,
    List.eraseIdx_cons_zero]

theorem insertIdx_split (b a : List α) (x : α) : (b ++ a).insertIdx b.length x = b ++ x :: a := by
  induction b with
  | nil => rw [List.nil_append, List.length_nil, List.insertIdx_zero, List.nil_append]
  | cons y b ih => rw [List.cons_append, List.length_cons, List.insertIdx_succ_cons, ih,
      List.cons_append]

/-! ## 2. Element by element -/

section Forall₂

variable {R : α → α → Prop} {l l' : List α}

theorem forall₂_remove (h : List.Forall₂ R l l') (i : Option ℕ) :
    List.Forall₂ R (remove l i) (remove l' i) := by
  cases i with
  | none => exact h
  | some i =>
      rw [remove, remove, List.eraseIdx_eq_take_drop_succ, List.eraseIdx_eq_take_drop_succ]
      exact List.rel_append (List.forall₂_take i h) (List.forall₂_drop (i + 1) h)

theorem forall₂_insertIdx (h : List.Forall₂ R l l') (i : ℕ) {x : α} (hx : R x x) :
    List.Forall₂ R (l.insertIdx i x) (l'.insertIdx i x) := by
  induction h generalizing i with
  | nil =>
      cases i with
      | zero => exact List.Forall₂.cons hx List.Forall₂.nil
      | succ i => exact List.Forall₂.nil
  | cons hab h ih =>
      cases i with
      | zero => exact List.Forall₂.cons hx (List.Forall₂.cons hab h)
      | succ i => exact List.Forall₂.cons hab (ih i)

/-- Each element of the one list has its counterpart in the other. -/
theorem exists_mem_of_forall₂ (h : List.Forall₂ R l l') {a : α} (ha : a ∈ l) :
    ∃ b ∈ l', R a b := by
  induction h with
  | nil => cases ha
  | cons hab _ ih =>
      rcases List.mem_cons.mp ha with rfl | hmem
      · exact ⟨_, List.mem_cons_self, hab⟩
      · obtain ⟨b, hb, hR⟩ := ih hmem
        exact ⟨b, List.mem_cons_of_mem _ hb, hR⟩

/-- **The same edits keep lists as they are to each other.** -/
theorem forall₂_applyAll (hrefl : ∀ a, R a a) (h : List.Forall₂ R l l')
    (es : List (IndexEdit α)) : List.Forall₂ R (applyAll l es) (applyAll l' es) := by
  induction es generalizing l l' with
  | nil => exact h
  | cons e es ih =>
      refine ih ?_
      have hremove := forall₂_remove h e.oldIndex
      unfold apply
      split
      · exact hremove
      · exact forall₂_insertIdx hremove _ (hrefl e.value)

end Forall₂

/-- **Two lists in one strict order are element by element in a relation, where the
relation says of their elements what the comparator does.** -/
theorem forall₂_of_ascends {cmp : α → α → Ordering} [TransCmp cmp] {R : α → α → Prop}
    {l l' : List α} (hl : Ascends cmp l) (hl' : Ascends cmp l')
    (hsub : ∀ a ∈ l, ∃ b ∈ l', cmp a b = .eq) (hsub' : ∀ b ∈ l', ∃ a ∈ l, cmp a b = .eq)
    (hR : ∀ a ∈ l, ∀ b ∈ l', cmp a b = .eq → R a b) : List.Forall₂ R l l' := by
  have hwindow := Leading.forall₂_take (n := l.length + l'.length) hl hl' hsub
    (Nat.le_add_right _ _) fun b hb => Or.inl (hsub' b hb)
  rw [List.take_of_length_le (Nat.le_add_left _ _), List.forall₂_iff_zip] at hwindow
  rw [List.forall₂_iff_zip]
  refine ⟨hwindow.1, fun {a b} hab => ?_⟩
  obtain ⟨ha, hb⟩ := List.of_mem_zip hab
  exact hR a ha b hb (hwindow.2 hab)

end IndexEdit
