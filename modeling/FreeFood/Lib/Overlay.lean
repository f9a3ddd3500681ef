/-
A log of changes that are still to be made.

What is kept under keys has a log of changes over it, and what is read under a key is what
is kept there with the changes of the log made to it, one after the other. A change touches
some of the keys. To read a key it is then enough to know the changes that touch it, in
their order, and a log that ends in a change that does not depend on what was there hides
all that is below.
-/
import Mathlib.Data.List.Basic

set_option autoImplicit false

namespace Overlay

variable {K S B : Type*} (apply : B → K → S → S)

/-- What is read under a key. -/
def read (log : List B) (k : K) (s : S) : S := log.foldl (fun s b => apply b k s) s

/-- Changes leave alone what they do not touch. -/
def Local (touches : B → K → Bool) : Prop := ∀ b k s, touches b k = false → apply b k s = s

variable {apply}

@[simp] theorem read_nil (k : K) (s : S) : read apply [] k s = s := rfl

@[simp] theorem read_cons (b : B) (log : List B) (k : K) (s : S) :
    read apply (b :: log) k s = read apply log k (apply b k s) := rfl

theorem read_append (log later : List B) (k : K) (s : S) :
    read apply (log ++ later) k s = read apply later k (read apply log k s) :=
  List.foldl_append ..

theorem read_concat (log : List B) (b : B) (k : K) (s : S) :
    read apply (log ++ [b]) k s = apply b k (read apply log k s) := by
  rw [read_append, read_cons, read_nil]

section Local

variable {touches : B → K → Bool}

/-- A log is as good as what of it touches the key. -/
theorem read_filter (h : Local apply touches) {log : List B} {k : K} {p : B → Bool}
    (hp : ∀ b ∈ log, touches b k = true → p b = true) (s : S) :
    read apply (log.filter p) k s = read apply log k s := by
  induction log generalizing s with
  | nil => rfl
  | cons b log ih =>
      have hlog : ∀ b ∈ log, touches b k = true → p b = true :=
        fun b hb => hp b (List.mem_cons_of_mem _ hb)
      by_cases hb : p b = true
      · rw [List.filter_cons_of_pos hb, read_cons, read_cons, ih hlog]
      · have huntouched : touches b k = false := by
          rw [Bool.eq_false_iff]
          exact fun htouches => hb (hp b List.mem_cons_self htouches)
        rw [List.filter_cons_of_neg hb, read_cons, h b k s huntouched, ih hlog]

/-- A log that does not touch the key. -/
theorem read_of_untouched (h : Local apply touches) {log : List B} {k : K}
    (hlog : ∀ b ∈ log, touches b k = false) (s : S) : read apply log k s = s := by
  have hfilter : log.filter (fun b => touches b k) = [] := by
    rw [List.filter_eq_nil_iff]
    intro b hb htouches
    rw [hlog b hb] at htouches
    exact Bool.false_ne_true htouches
  rw [← read_filter h (p := fun b => touches b k) (fun _ _ hb => hb), hfilter, read_nil]

/-- The last change that touches the key decides what there is in the end. -/
theorem read_of_last (h : Local apply touches) {log later : List B} {b : B} {k : K} {I : S → Prop}
    (hb : ∀ s, I (apply b k s)) (hlater : ∀ b ∈ later, touches b k = false) (s : S) :
    I (read apply (log ++ b :: later) k s) := by
  rw [read_append, read_cons, read_of_untouched h hlater]
  exact hb _

end Local

/-- What is alike stays alike. -/
theorem read_related {R : S → S → Prop} {k : K} {log : List B}
    (hR : ∀ b ∈ log, ∀ s t, R s t → R (apply b k s) (apply b k t)) {s t : S} (hst : R s t) :
    R (read apply log k s) (read apply log k t) := by
  induction log generalizing s t with
  | nil => exact hst
  | cons b log ih =>
      refine ih (fun b hb => hR b (List.mem_cons_of_mem _ hb)) ?_
      exact hR b List.mem_cons_self s t hst

/-- What every change of the log keeps, the log keeps. -/
theorem read_invariant {I : S → Prop} {k : K} {log : List B}
    (hI : ∀ b ∈ log, ∀ s, I s → I (apply b k s)) {s : S} (hs : I s) : I (read apply log k s) := by
  induction log generalizing s with
  | nil => exact hs
  | cons b log ih =>
      refine ih (fun b hb => hI b (List.mem_cons_of_mem _ hb)) ?_
      exact hI b List.mem_cons_self s hs

end Overlay
