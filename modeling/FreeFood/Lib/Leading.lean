/-
Lists in strict order, known up to what their comparator tells apart.

A window on the first `n` elements of an ordered list can be checked without the list at
hand: it is in order, has what the list has, and what it leaves out comes after all it
has. `forall₂_take` is that fact. It is stated for a comparator under which different
elements may compare the same, as two versions of one record do.
-/
import Mathlib.Data.List.Forall2
import Mathlib.Data.List.Basic
import Mathlib.Data.List.Pairwise

set_option autoImplicit false

namespace Leading

open Std

variable {α : Type*} {cmp : α → α → Ordering} {l shown all : List α} {n : ℕ}

/-- A list in strict order. -/
def Ascends (cmp : α → α → Ordering) (l : List α) : Prop := l.Pairwise fun a b => cmp a b = .lt

/-- A strict order read backwards. -/
theorem Ascends.reverse (h : Ascends cmp l) : Ascends (fun a b => cmp b a) l.reverse :=
  List.pairwise_reverse.mpr h

theorem Ascends.take (h : Ascends cmp l) (n : ℕ) : Ascends cmp (l.take n) :=
  List.Pairwise.sublist (List.take_sublist n l) h

/-- What is taken is before what is left. -/
theorem Ascends.lt_of_take_drop (h : Ascends cmp l) {a b : α} (ha : a ∈ l.take n)
    (hb : b ∈ l.drop n) : cmp a b = .lt := by
  rw [Ascends, ← List.take_append_drop n l, List.pairwise_append] at h
  exact h.2.2 a ha b hb

variable [TransCmp cmp]

/-- Where enough elements are not after `x`, the first ones are not. -/
theorem Ascends.not_gt_of_mem_take (h : Ascends cmp l) {x : α}
    (hn : n ≤ (l.filter fun a => cmp a x != .gt).length) {a : α} (ha : a ∈ l.take n) :
    cmp a x ≠ .gt := by
  induction l generalizing n with
  | nil =>
      rw [List.take_nil] at ha
      cases ha
  | cons b l ih =>
      have hrest := List.pairwise_cons.mp h
      by_cases hb : cmp b x = .gt
      · -- then all that follows is after `x` too
        have hnone : (List.filter (fun a => cmp a x != .gt) (b :: l)).length = 0 := by
          rw [List.length_eq_zero_iff, List.filter_eq_nil_iff]
          intro c hc
          rcases List.mem_cons.mp hc with rfl | hmem
          · simp [hb]
          · have hgt : cmp c x = .gt :=
              TransCmp.gt_trans (OrientedCmp.gt_of_lt (hrest.1 c hmem)) hb
            simp [hgt]
        rw [hnone] at hn
        rw [Nat.le_zero.mp hn, List.take_zero] at ha
        cases ha
      · cases n with
        | zero => cases ha
        | succ n =>
            rw [List.take_succ_cons, List.mem_cons] at ha
            rcases ha with rfl | hmem
            · exact hb
            · rw [List.filter_cons_of_pos (by simpa using hb), List.length_cons] at hn
              exact ih hrest.2 (Nat.le_of_succ_le_succ hn) hmem

/-- **A window on the first elements of an ordered list.** -/
theorem forall₂_take (hshown : Ascends cmp shown) (hall : Ascends cmp all)
    (hsub : ∀ a ∈ shown, ∃ b ∈ all, cmp a b = .eq) (hlength : shown.length ≤ n)
    (hrest : ∀ b ∈ all, (∃ a ∈ shown, cmp a b = .eq) ∨
      (shown.length = n ∧ ∀ a ∈ shown, cmp a b = .lt)) :
    List.Forall₂ (fun a b => cmp a b = .eq) shown (all.take n) := by
  induction shown generalizing all n with
  | nil =>
      have hnil : all.take n = [] := by
        cases all with
        | nil => exact List.take_nil
        | cons b all =>
            rcases hrest b List.mem_cons_self with ⟨a, ha, -⟩ | ⟨hn, -⟩
            · cases ha
            · rw [← hn]
              rfl
      rw [hnil]
      exact List.Forall₂.nil
  | cons a shown ih =>
      obtain ⟨b, hb, hab⟩ := hsub a List.mem_cons_self
      have hafter := List.pairwise_cons.mp hshown
      cases all with
      | nil => cases hb
      | cons b₀ all =>
          have hbefore := List.pairwise_cons.mp hall
          -- the first elements are the same to the comparator
          have hfirst : cmp a b₀ = .eq := by
            rcases List.mem_cons.mp hb with rfl | hmem
            · exact hab
            · have hlt : cmp b₀ a = .lt :=
                TransCmp.lt_of_lt_of_eq (hbefore.1 b hmem) (OrientedCmp.eq_symm hab)
              have hgt := OrientedCmp.gt_of_lt hlt
              rcases hrest b₀ List.mem_cons_self with ⟨a', ha', heq⟩ | ⟨-, hless⟩
              · rcases List.mem_cons.mp ha' with rfl | hmem'
                · exact heq
                · have hlt' := TransCmp.lt_of_lt_of_eq (hafter.1 a' hmem') heq
                  rw [hlt'] at hgt
                  cases hgt
              · rw [hless a List.mem_cons_self] at hgt
                cases hgt
          cases n with
          | zero => exact absurd hlength (Nat.not_succ_le_zero _)
          | succ n =>
              rw [List.take_succ_cons]
              refine List.Forall₂.cons hfirst (ih hafter.2 hbefore.2 ?_
                (Nat.le_of_succ_le_succ hlength) ?_)
              · intro a' ha'
                obtain ⟨b', hb', heq⟩ := hsub a' (List.mem_cons_of_mem _ ha')
                rcases List.mem_cons.mp hb' with rfl | hmem
                · have hlt := TransCmp.lt_of_eq_of_lt (OrientedCmp.eq_symm hfirst)
                    (hafter.1 a' ha')
                  rw [OrientedCmp.eq_symm heq] at hlt
                  cases hlt
                · exact ⟨b', hmem, heq⟩
              · intro b' hb'
                rcases hrest b' (List.mem_cons_of_mem _ hb') with ⟨a', ha', heq⟩ | ⟨hn, hless⟩
                · rcases List.mem_cons.mp ha' with rfl | hmem
                  · have hlt := TransCmp.lt_of_eq_of_lt hfirst (hbefore.1 b' hb')
                    rw [heq] at hlt
                    cases hlt
                  · exact Or.inl ⟨a', hmem, heq⟩
                · refine Or.inr ⟨Nat.succ.inj hn, fun a' ha' => ?_⟩
                  exact hless a' (List.mem_cons_of_mem _ ha')

end Leading
