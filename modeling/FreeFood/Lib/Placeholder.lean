/-
A text box that keeps its placeholder in the same variable as the user's text.

The box starts with the placeholder in it. A tap takes the placeholder out of the
box, or puts it into an empty one; a `normalize` only takes it out. What is typed is
added to whatever is there, so the box can tell the placeholder from the user's text
only by looking at it, and there are two ways of losing count: to type behind a
placeholder that is in the box, and to have typed the placeholder and lose it.

`Clean` is that neither happens, stated of the operations alone. The main result is
that the box, normalized, then holds what was typed, and never otherwise
(`normal_text_iff_clean`).
-/
import Mathlib.Data.List.Infix

set_option autoImplicit false

namespace Placeholder

variable {α : Type*}

/-- What is done to the box. -/
inductive Op (α : Type*) where
  | tap
  | type (a : α)
  | normalize

/-- What was typed. -/
def typed (ops : List (Op α)) : List α :=
  ops.filterMap fun
    | .type a => some a
    | _ => none

/-- The placeholder is in the box, or was typed last, if nothing else is in it. -/
def prompting (ops : List (Op α)) : Bool :=
  ops.foldl (fun b op =>
    match op with
    | .tap => !b
    | .type _ => true
    | .normalize => false) true

variable [DecidableEq α] (p : List α)

/-- The text without the placeholder. -/
def normal (t : List α) : List α := if t = p then [] else t

/-- What an operation does to the text. -/
def apply (t : List α) : Op α → List α
  | .tap => if t = p then [] else if t = [] then p else t
  | .type a => t ++ [a]
  | .normalize => normal p t

/-- The text after the operations, starting with the placeholder. -/
def text (ops : List (Op α)) : List α := ops.foldl (apply p) p

/-- The box holds what was typed: the placeholder is out of it if nothing was typed, and
in it if the placeholder was. -/
def Ready (ops : List (Op α)) : Prop :=
  (typed ops = [] → prompting ops = false) ∧ (typed ops = p → prompting ops = true)

/-- Nothing is typed but when the box is ready. -/
def Clean (ops : List (Op α)) : Prop :=
  ∀ pre a post, ops = pre ++ .type a :: post → Ready p pre

/-! ## One operation more -/

omit [DecidableEq α] in
theorem typed_concat (ops : List (Op α)) (op : Op α) :
    typed (ops ++ [op]) = typed ops ++ typed [op] := by
  rw [typed, typed, typed, List.filterMap_append]

omit [DecidableEq α] in
theorem prompting_concat (ops : List (Op α)) (op : Op α) :
    prompting (ops ++ [op]) = match op with
      | .tap => !prompting ops
      | .type _ => true
      | .normalize => false := by
  rw [prompting, List.foldl_append]
  rfl

theorem text_concat (ops : List (Op α)) (op : Op α) :
    text p (ops ++ [op]) = apply p (text p ops) op := by
  rw [text, List.foldl_append]
  rfl

variable {p}

omit [DecidableEq α] in
/-- Only typing can end a clean list. -/
theorem clean_concat {ops : List (Op α)} {op : Op α} :
    Clean p (ops ++ [op]) ↔ Clean p ops ∧ ∀ a, op = .type a → Ready p ops := by
  constructor
  · intro hclean
    constructor
    · intro pre a post hops
      exact hclean pre a (post ++ [op]) (by rw [hops, List.append_assoc, List.cons_append])
    · intro a hop
      exact hclean ops a [] (by rw [hop])
  · rintro ⟨hclean, hlast⟩ pre a post hops
    -- the typing is the last operation, or one of those before it
    rcases List.eq_nil_or_concat post with rfl | ⟨post, last, rfl⟩
    · obtain ⟨rfl, hop⟩ := List.append_inj' hops rfl
      exact hlast a (List.singleton_injective hop)
    · rw [List.concat_eq_append, ← List.cons_append, ← List.append_assoc] at hops
      obtain ⟨hpre, -⟩ := List.append_inj' hops rfl
      exact hclean pre a post hpre

/-! ## What the text is -/

variable (p) in
/-- The text of a clean list: what was typed, or where that is nothing or the
placeholder, whichever of the two the box is at. -/
def expected (ops : List (Op α)) : List α :=
  if typed ops = [] ∨ typed ops = p then
    if prompting ops then p else []
  else typed ops

/-- Text and typing have parted for good: one of them is longer than the placeholder,
so that no operation but typing reaches it. -/
def Parted (p t d : List α) : Prop :=
  t.length ≠ d.length ∧ p.length < max t.length d.length

omit [DecidableEq α] in
/-- Typing to a text of another length parts the two as soon as one is as long as the
placeholder. -/
theorem parted_concat {t d : List α} (hne : t.length ≠ d.length)
    (hle : p.length ≤ max t.length d.length) (a : α) : Parted p (t ++ [a]) (d ++ [a]) := by
  unfold Parted
  rw [List.length_append, List.length_append, List.length_singleton]
  omega

omit [DecidableEq α] in
theorem Parted.type {t d : List α} (h : Parted p t d) (a : α) :
    Parted p (t ++ [a]) (d ++ [a]) := by
  obtain ⟨hne, hlt⟩ := h
  exact parted_concat hne (Nat.le_of_lt hlt) a

omit [DecidableEq α] in
/-- Where the text is short, any other short text has parted from the typing too. -/
theorem Parted.replace {t d : List α} (h : Parted p t d) {t' : List α}
    (ht : t.length ≤ p.length) (ht' : t'.length ≤ p.length) : Parted p t' d := by
  obtain ⟨hne, hlt⟩ := h
  unfold Parted
  omega

/-- Neither a tap nor a `normalize` brings them together again. -/
theorem Parted.apply {t d : List α} (h : Parted p t d) (op : Op α) :
    Parted p (Placeholder.apply p t op) (d ++ typed [op]) := by
  rcases op with _ | a | _
  · rw [typed, List.filterMap_cons_none rfl, List.filterMap_nil, List.append_nil]
    rw [Placeholder.apply]
    split_ifs with hp hnil
    · exact h.replace (by rw [hp]) (by simp)
    · exact h.replace (by simp [hnil]) (le_refl _)
    · exact h
  · exact h.type a
  · rw [typed, List.filterMap_cons_none rfl, List.filterMap_nil, List.append_nil]
    rw [Placeholder.apply, normal]
    split_ifs with hp
    · exact h.replace (by rw [hp]) (by simp)
    · exact h

theorem Parted.normal_ne {t d : List α} (h : Parted p t d) : normal p t ≠ normal p d := by
  obtain ⟨hne, hlt⟩ := h
  intro heq
  have hlen : (normal p t).length = (normal p d).length := by rw [heq]
  unfold normal at hlen
  -- only one of the two can be the placeholder, and then the other is longer
  split_ifs at hlen with ht hd hd
  · exact hne (by rw [ht, hd])
  · rw [List.length_nil] at hlen
    rw [ht] at hlt
    omega
  · rw [List.length_nil] at hlen
    rw [hd] at hlt
    omega
  · exact hne hlen

/-- The expected text of a box that is ready is what was typed. -/
theorem expected_of_ready {ops : List (Op α)} (hready : Ready p ops) :
    expected p ops = typed ops := by
  rw [expected]
  split_ifs with hd hb
  · rcases hd with hd | hd
    · rw [hready.1 hd] at hb
      exact absurd hb (by simp)
    · exact hd.symm
  · rcases hd with hd | hd
    · exact hd.symm
    · exact absurd (hready.2 hd) hb
  · rfl

/-- Typing to it adds to what was typed. -/
theorem expected_type {ops : List (Op α)} (hready : Ready p ops) (a : α) :
    expected p ops ++ [a] = expected p (ops ++ [.type a]) := by
  have hlast : prompting (ops ++ [.type a]) = true := prompting_concat ops (.type a)
  have htyped : typed (ops ++ [.type a]) = typed ops ++ [a] := typed_concat ops (.type a)
  rw [expected_of_ready hready, expected, htyped, hlast, if_pos rfl]
  split_ifs with hd
  · rcases hd with hd | hd
    · exact absurd hd (by simp)
    · exact hd
  · rfl

/-- The other operations take the placeholder out of the box, or put it in. -/
theorem apply_expected (hp : p ≠ []) (ops : List (Op α)) {op : Op α}
    (hop : ∀ a, op ≠ .type a) : apply p (expected p ops) op = expected p (ops ++ [op]) := by
  have htyped : typed (ops ++ [op]) = typed ops := by
    rw [typed_concat]
    rcases op with _ | a | _
    · exact List.append_nil _
    · exact absurd rfl (hop a)
    · exact List.append_nil _
  rw [expected, expected, htyped, prompting_concat]
  by_cases hd : typed ops = [] ∨ typed ops = p
  · rw [if_pos hd, if_pos hd]
    rcases op with _ | a | _
    · rcases prompting ops with _ | _
      · simp [apply, hp.symm]
      · simp [apply]
    · exact absurd rfl (hop a)
    · rcases prompting ops with _ | _
      · simp [apply, normal]
      · simp [apply, normal]
  · -- what was typed is neither, so nothing is taken or put
    obtain ⟨hnil, hne⟩ := not_or.mp hd
    rw [if_neg hd, if_neg hd]
    rcases op with _ | a | _
    · rw [apply, if_neg hne, if_neg hnil]
    · exact absurd rfl (hop a)
    · rw [apply, normal, if_neg hne]

/-- Typing to a box that is not ready parts the text from what was typed. -/
theorem parted_type (hp : p ≠ []) {ops : List (Op α)} (hready : ¬ Ready p ops) (a : α) :
    Parted p (expected p ops ++ [a]) (typed ops ++ [a]) := by
  have hlen : 0 < p.length := List.length_pos_of_ne_nil hp
  rw [Ready, not_and_or, Classical.not_imp, Classical.not_imp, Bool.not_eq_false,
    Bool.not_eq_true] at hready
  rcases hready with ⟨hd, hb⟩ | ⟨hd, hb⟩
  · -- behind the placeholder
    have hnow : expected p ops = p := by
      rw [expected, hb, if_pos (Or.inl hd)]
      rfl
    rw [hnow, hd]
    refine parted_concat ?_ (Nat.le_max_left _ _) a
    rw [List.length_nil]
    omega
  · -- to nothing, instead of to the placeholder
    have hnow : expected p ops = [] := by
      rw [expected, hb, if_pos (Or.inr hd)]
      rfl
    rw [hnow, hd]
    refine parted_concat ?_ (Nat.le_max_right _ _) a
    rw [List.length_nil]
    omega

/-- **The invariant.** After a clean list the text is the expected one, and after any
other it has parted from what was typed. -/
theorem text_cases (hp : p ≠ []) (ops : List (Op α)) :
    (Clean p ops ∧ text p ops = expected p ops)
      ∨ (¬ Clean p ops ∧ Parted p (text p ops) (typed ops)) := by
  induction ops using List.reverseRecOn with
  | nil =>
      left
      constructor
      · intro pre a post hops
        exact absurd hops (by simp)
      · rfl
  | append_singleton ops op ih =>
      rw [text_concat, typed_concat, clean_concat]
      rcases ih with ⟨hclean, htext⟩ | ⟨hclean, hparted⟩
      · rw [htext]
        by_cases hop : ∃ a, op = .type a
        · obtain ⟨a, rfl⟩ := hop
          by_cases hready : Ready p ops
          · exact Or.inl ⟨⟨hclean, fun _ _ => hready⟩, expected_type hready a⟩
          · exact Or.inr ⟨fun h => hready (h.2 a rfl), parted_type hp hready a⟩
        · have hne : ∀ a, op ≠ .type a := fun a ha => hop ⟨a, ha⟩
          exact Or.inl ⟨⟨hclean, fun a ha => absurd ha (hne a)⟩, apply_expected hp ops hne⟩
      · exact Or.inr ⟨fun h => hclean h.1, hparted.apply op⟩

/-- **The box holds what was typed exactly after clean operations.** -/
theorem normal_text_iff_clean (hp : p ≠ []) (ops : List (Op α)) :
    normal p (text p ops) = normal p (typed ops) ↔ Clean p ops := by
  rcases text_cases hp ops with ⟨hclean, htext⟩ | ⟨hclean, hparted⟩
  · refine iff_of_true ?_ hclean
    rw [htext, expected]
    split_ifs with hd hb
    · rcases hd with hd | hd
      · simp [normal, hd]
      · rw [hd]
    · rcases hd with hd | hd
      · rw [hd]
      · simp [normal, hd]
    · rfl
  · exact iff_of_false hparted.normal_ne hclean

end Placeholder
