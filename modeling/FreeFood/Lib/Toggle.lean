/-
A selection that items are toggled into and out of.

A tap on a selected item drops it, and a tap on any other puts it at the end. A
selection that starts empty is therefore made by the list of its taps, and `Toggled`
is what it has to do with them: its items are those tapped an odd number of times, the
least recently tapped one first. `Toggled.toggle` is the step, in which each branch of
`toggle` keeps both facts together, and `toggled_foldl` is the run.

The two facts leave no choice of the selection (`Toggled.eq`), so it can be read off
the list of taps without toggling anything (`foldl_toggle`).
-/
import Mathlib.Algebra.Ring.Parity
import Mathlib.Data.List.Dedup
import Mathlib.Data.List.Infix
import Mathlib.Data.List.Sort

set_option autoImplicit false

namespace Toggle

variable {α : Type*} [DecidableEq α]

/-- A tap on `a`. -/
def toggle (l : List α) (a : α) : List α :=
  if a ∈ l then l.filter (fun b => !(b == a)) else l ++ [a]

theorem mem_toggle_self (l : List α) (a : α) : a ∈ toggle l a ↔ a ∉ l := by
  unfold toggle
  split_ifs with ha
  · simp [ha]
  · simp [ha]

theorem mem_toggle_of_ne {l : List α} {a b : α} (h : b ≠ a) : b ∈ toggle l a ↔ b ∈ l := by
  unfold toggle
  split_ifs with ha
  · simp [h]
  · simp [h]

/-! ## How recently an item was tapped -/

/-- How many taps there were since the last one on `a`. -/
def tapsSince (taps : List α) (a : α) : ℕ := taps.reverse.idxOf a

/-- The last tap on `a` was before the last one on `b`. -/
def LastTappedBefore (taps : List α) (a b : α) : Prop := tapsSince taps b < tapsSince taps a

instance (taps : List α) : Std.Irrefl (LastTappedBefore taps) where
  irrefl _ := Nat.lt_irrefl _

instance (taps : List α) : Std.Antisymm (LastTappedBefore taps) where
  antisymm _ _ hab hba := absurd hab (Nat.lt_asymm hba)

@[simp] theorem tapsSince_concat_self (taps : List α) (a : α) :
    tapsSince (taps ++ [a]) a = 0 := by
  rw [tapsSince, List.reverse_append, List.reverse_singleton, List.singleton_append,
    List.idxOf_cons_self]

theorem tapsSince_concat_of_ne (taps : List α) {a b : α} (h : b ≠ a) :
    tapsSince (taps ++ [a]) b = tapsSince taps b + 1 := by
  rw [tapsSince, List.reverse_append, List.reverse_singleton, List.singleton_append,
    List.idxOf_cons_ne _ h.symm]
  rfl

/-- One tap more changes nothing between items that it is not on. -/
theorem LastTappedBefore.concat {taps : List α} {a b c : α} (h : LastTappedBefore taps a b)
    (ha : a ≠ c) (hb : b ≠ c) : LastTappedBefore (taps ++ [c]) a b := by
  unfold LastTappedBefore at h ⊢
  rw [tapsSince_concat_of_ne taps ha, tapsSince_concat_of_ne taps hb]
  omega

/-- What is tapped now was tapped after everything else. -/
theorem lastTappedBefore_concat_self (taps : List α) {a c : α} (ha : a ≠ c) :
    LastTappedBefore (taps ++ [c]) a c := by
  unfold LastTappedBefore
  rw [tapsSince_concat_self, tapsSince_concat_of_ne taps ha]
  omega

/-! ## The selection and its taps -/

theorem mem_of_odd_count {taps : List α} {a : α} (h : Odd (taps.count a)) : a ∈ taps := by
  obtain ⟨k, hk⟩ := h
  have hpos : 0 < taps.count a := by omega
  exact List.count_pos_iff.mp hpos

/-- The selection has the items tapped an odd number of times, in the order of their
last taps. -/
structure Toggled (taps l : List α) : Prop where
  mem_iff : ∀ a, a ∈ l ↔ Odd (taps.count a)
  ordered : l.Pairwise (LastTappedBefore taps)

namespace Toggled

variable {taps l : List α}

theorem nil : Toggled ([] : List α) [] where
  mem_iff := by simp
  ordered := List.Pairwise.nil

/-- No item is selected twice: it was not tapped before itself. -/
theorem nodup (h : Toggled taps l) : l.Nodup := h.ordered.nodup

theorem subset (h : Toggled taps l) : l ⊆ taps := by
  intro a ha
  exact mem_of_odd_count ((h.mem_iff a).mp ha)

/-- The items of a selection are in the same order after a tap on another item. -/
theorem ordered_concat (h : Toggled taps l) {a : α} {l' : List α} (hsub : l'.Sublist l)
    (ha : a ∉ l') : l'.Pairwise (LastTappedBefore (taps ++ [a])) := by
  refine (h.ordered.sublist hsub).imp_of_mem ?_
  intro b c hb hc hbc
  exact hbc.concat (ne_of_mem_of_not_mem hb ha) (ne_of_mem_of_not_mem hc ha)

/-- **One tap.** -/
theorem toggle (h : Toggled taps l) (a : α) : Toggled (taps ++ [a]) (toggle l a) where
  mem_iff := by
    intro b
    rw [List.count_append]
    by_cases hb : b = a
    · -- the tap changes the parity of its own item, and whether that item is selected
      subst hb
      rw [mem_toggle_self, h.mem_iff, List.count_singleton_self, Nat.odd_add_one]
    · rw [mem_toggle_of_ne hb, h.mem_iff, List.count_singleton,
        beq_eq_false_iff_ne.mpr (Ne.symm hb), if_neg Bool.false_ne_true, Nat.add_zero]
  ordered := by
    unfold Toggle.toggle
    split_ifs with ha
    · exact h.ordered_concat List.filter_sublist (by simp)
    · rw [List.pairwise_append]
      refine ⟨h.ordered_concat (List.Sublist.refl l) ha, List.pairwise_singleton _ _, ?_⟩
      intro b hb c hc
      rw [List.mem_singleton.mp hc]
      exact lastTappedBefore_concat_self taps (ne_of_mem_of_not_mem hb ha)

/-- The taps determine the selection. -/
theorem eq (h : Toggled taps l) {l' : List α} (h' : Toggled taps l') : l = l' :=
  h.ordered.eq_of_mem_iff h'.ordered fun a => (h.mem_iff a).trans (h'.mem_iff a).symm

end Toggled

/-- **The selection that any list of taps makes.** -/
theorem toggled_foldl (taps : List α) : Toggled taps (taps.foldl toggle []) := by
  -- taken apart from the right, so that the induction has the selection before the last tap
  induction taps using List.reverseRecOn with
  | nil => exact .nil
  | append_singleton taps a ih =>
      rw [List.foldl_append, List.foldl_cons, List.foldl_nil]
      exact ih.toggle a

/-! ## The selection without toggling -/

/-- A tap that is not the last one on its item does not count for the order. -/
theorem tapsSince_cons_of_mem {taps : List α} {a b : α} (hb : b ∈ taps) :
    tapsSince (a :: taps) b = tapsSince taps b := by
  rw [tapsSince, List.reverse_cons, List.idxOf_append_of_mem (List.mem_reverse.mpr hb)]
  rfl

theorem tapsSince_lt_length {taps : List α} {a : α} (ha : a ∈ taps) :
    tapsSince taps a < taps.length := by
  rw [← List.length_reverse]
  exact List.idxOf_lt_length_iff.mpr (List.mem_reverse.mpr ha)

theorem tapsSince_cons_self {taps : List α} {a : α} (ha : a ∉ taps) :
    tapsSince (a :: taps) a = taps.length := by
  rw [tapsSince, List.reverse_cons, List.idxOf_append_of_notMem (by simpa using ha)]
  simp

/-- `List.dedup` keeps each item where it occurs last. -/
theorem dedup_ordered (taps : List α) : taps.dedup.Pairwise (LastTappedBefore taps) := by
  induction taps with
  | nil => exact List.Pairwise.nil
  | cons a taps ih =>
      have hrest : taps.dedup.Pairwise (LastTappedBefore (a :: taps)) := by
        refine ih.imp_of_mem ?_
        intro b c hb hc hbc
        unfold LastTappedBefore at hbc ⊢
        rw [tapsSince_cons_of_mem (List.mem_dedup.mp hb),
          tapsSince_cons_of_mem (List.mem_dedup.mp hc)]
        exact hbc
      by_cases ha : a ∈ taps
      · rw [List.dedup_cons_of_mem ha]
        exact hrest
      · rw [List.dedup_cons_of_notMem ha]
        refine List.pairwise_cons.mpr ⟨?_, hrest⟩
        intro b hb
        have hmem : b ∈ taps := List.mem_dedup.mp hb
        unfold LastTappedBefore
        rw [tapsSince_cons_self ha, tapsSince_cons_of_mem hmem]
        exact tapsSince_lt_length hmem

theorem toggled_dedup (taps : List α) :
    Toggled taps (taps.dedup.filter (fun a => Odd (taps.count a))) where
  mem_iff := by
    intro a
    rw [List.mem_filter, List.mem_dedup, decide_eq_true_eq]
    exact ⟨And.right, fun hodd => ⟨mem_of_odd_count hodd, hodd⟩⟩
  ordered := (dedup_ordered taps).filter _

/-- **Toggling is counting:** the selection is the items tapped an odd number of times,
each at the place of its last tap. -/
theorem foldl_toggle (taps : List α) :
    taps.foldl toggle [] = taps.dedup.filter (fun a => Odd (taps.count a)) :=
  (toggled_foldl taps).eq (toggled_dedup taps)

/-- Items tapped once each are selected in the order of the taps. -/
theorem foldl_toggle_of_nodup {taps : List α} (h : taps.Nodup) : taps.foldl toggle [] = taps := by
  rw [foldl_toggle, h.dedup, List.filter_eq_self]
  intro a ha
  rw [List.count_eq_one_of_mem h ha]
  decide

example : [3, 1, 2, 3, 1, 3].foldl toggle [] = [2, 3] := by decide

end Toggle
