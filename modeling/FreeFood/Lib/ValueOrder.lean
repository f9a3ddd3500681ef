/-
The order of document values, given an order of their scalars.

A value is written out as a word over tokens: its scalars, the names of its fields, and
the beginnings and ends of its arrays and maps. No word is the beginning of another one
(`tokens_append_inj`), and a lexicographic comparison of values that looks at them from
left to right is the lexicographic comparison of their words. Words over an ordered
alphabet are ordered, so such a comparison is an order however deep the values are nested.
-/
import FreeFood.Lib.Document
import Mathlib.Order.Compare
import Mathlib.Order.Defs.LinearOrder

set_option autoImplicit false

namespace Document

open Std

/-! ## 1. Orders made of orders -/

section Orders

variable {α β : Type*}

/-- An order of what is read of things is an order of the things. -/
theorem transCmp_comap (f : α → β) (cmp : β → β → Ordering) [TransCmp cmp] :
    TransCmp fun a b => cmp (f a) (f b) where
  eq_swap := OrientedCmp.eq_swap
  isLE_trans := TransCmp.isLE_trans

/-- Things of different kinds in the order of the kinds, and those of one kind in an order
of that kind. -/
theorem transCmp_byKind (kind : α → ℕ) (within : ℕ → α → α → Ordering)
    [∀ n, TransCmp (within n)] :
    TransCmp fun a b => (compare (kind a) (kind b)).then (within (kind a) a b) where
  eq_swap {a b} := by
    have hkind : compare (kind a) (kind b) = (compare (kind b) (kind a)).swap :=
      OrientedCmp.eq_swap
    rw [hkind, Ordering.swap_then]
    cases hcmp : compare (kind b) (kind a) with
    | lt => rfl
    | gt => rfl
    | eq =>
        have hwithin : within (kind a) a b = (within (kind a) b a).swap := OrientedCmp.eq_swap
        rw [Nat.compare_eq_eq.mp hcmp, hwithin]
  isLE_trans {a b c} hab hbc := by
    rw [Ordering.isLE_then_iff_or] at hab hbc ⊢
    simp only [Nat.compare_eq_lt, Nat.compare_eq_eq] at hab hbc ⊢
    rcases hab with hlt | ⟨heq, hle⟩
    · left
      rcases hbc with hlt' | ⟨heq', -⟩ <;> omega
    · rcases hbc with hlt' | ⟨heq', hle'⟩
      · left
        omega
      · refine Or.inr ⟨by omega, ?_⟩
        rw [← heq] at hle'
        exact TransCmp.isLE_trans hle hle'

/-- An order of options, where nothing is before anything. -/
def compareOptions (cmp : α → α → Ordering) : Option α → Option α → Ordering
  | none, none => .eq
  | none, some _ => .lt
  | some _, none => .gt
  | some a, some b => cmp a b

instance (cmp : α → α → Ordering) [TransCmp cmp] : TransCmp (compareOptions cmp) where
  eq_swap {a b} := by
    cases a <;> cases b <;> simp only [compareOptions, Ordering.swap_lt, Ordering.swap_gt,
      Ordering.swap_eq]
    exact OrientedCmp.eq_swap
  isLE_trans {a b c} hab hbc := by
    match a, b, c with
    | none, _, none | none, _, some _ => rfl
    | some a, some b, some c =>
        have htrans : (cmp a c).isLE := TransCmp.isLE_trans (b := b) hab hbc
        exact htrans
    | some _, none, _ => cases hab
    | some _, some _, none => cases hbc

end Orders

/-! ## 2. Tokens -/

variable {L : Type*}

/-- A token of the word of a value. -/
inductive Token (L : Type*) where
  | stop
  | name (key : String)
  | leaf (l : L)
  | array
  | map
deriving DecidableEq

namespace Token

/-- The place of a token's kind. -/
def kind : Token L → ℕ
  | stop => 0
  | name _ => 1
  | leaf _ => 2
  | array => 3
  | map => 4

/-- Tokens of one kind are compared by what they hold. -/
def compareBy (cmp : L → L → Ordering) : Token L → Token L → Ordering
  | name k, name k' => compare k k'
  | leaf l, leaf l' => cmp l l'
  | a, b => compare a.kind b.kind

def key? : Token L → Option String
  | name key => some key
  | _ => none

def leaf? : Token L → Option L
  | leaf l => some l
  | _ => none

/-- The order of tokens of one kind. -/
def compareWithin (cmp : L → L → Ordering) (n : ℕ) (a b : Token L) : Ordering :=
  match n with
  | 1 => compareOn key? a b
  | 2 => compareOptions cmp a.leaf? b.leaf?
  | _ => .eq

theorem compareBy_eq (cmp : L → L → Ordering) (a b : Token L) :
    a.compareBy cmp b = (compare a.kind b.kind).then (compareWithin cmp a.kind a b) := by
  cases a <;> cases b <;> rfl

instance (cmp : L → L → Ordering) [TransCmp cmp] (n : ℕ) :
    TransCmp (compareWithin cmp n : Token L → Token L → Ordering) := by
  unfold compareWithin
  split
  · infer_instance
  · exact transCmp_comap leaf? (compareOptions cmp)
  · exact { eq_swap := rfl, isLE_trans := fun _ _ => rfl }

instance (cmp : L → L → Ordering) [TransCmp cmp] : TransCmp (Token.compareBy cmp) := by
  have heq : Token.compareBy cmp
      = fun a b => (compare a.kind b.kind).then (compareWithin cmp a.kind a b) := by
    funext a b
    exact compareBy_eq cmp a b
  rw [heq]
  exact transCmp_byKind kind (compareWithin cmp)

end Token

/-! ## 3. The word of a value -/

namespace Value

mutual

def tokens : Value L → List (Token L)
  | leaf l => [.leaf l]
  | array vs => .array :: arrayTokens vs
  | map fields => .map :: fieldTokens fields

/-- The words of the elements, up to the end of the array. -/
def arrayTokens : List (Value L) → List (Token L)
  | [] => [.stop]
  | v :: vs => tokens v ++ arrayTokens vs

/-- The names and words of the fields, up to the end of the map. -/
def fieldTokens : List (String × Value L) → List (Token L)
  | [] => [.stop]
  | (key, v) :: fields => .name key :: (tokens v ++ fieldTokens fields)

end

/-- A word begins with a token that neither ends an array nor names a field. -/
theorem exists_tokens_eq (v : Value L) : ∃ t ts, v.tokens = t :: ts ∧ 2 ≤ t.kind := by
  cases v with
  | leaf l => exact ⟨_, _, rfl, Nat.le_refl 2⟩
  | array vs => exact ⟨_, _, rfl, Nat.le_succ 2⟩
  | map fields => exact ⟨_, _, rfl, Nat.le_add_right 2 2⟩

mutual

/-- **A word can be read off the beginning of what it is the beginning of.** -/
theorem tokens_append_inj (v w : Value L) {r s : List (Token L)}
    (h : v.tokens ++ r = w.tokens ++ s) : v = w ∧ r = s := by
  match v, w with
  | leaf l, leaf l' =>
      simpa [tokens] using h
  | array vs, array ws =>
      simp only [tokens, List.cons_append, List.cons.injEq, true_and] at h
      have hrest := arrayTokens_append_inj vs ws h
      exact ⟨congrArg array hrest.1, hrest.2⟩
  | map fields, map fields' =>
      simp only [tokens, List.cons_append, List.cons.injEq, true_and] at h
      have hrest := fieldTokens_append_inj fields fields' h
      exact ⟨congrArg map hrest.1, hrest.2⟩
  | leaf _, array _ | leaf _, map _ | array _, leaf _ | array _, map _ | map _, leaf _
  | map _, array _ => simp [tokens] at h

theorem arrayTokens_append_inj (vs ws : List (Value L)) {r s : List (Token L)}
    (h : arrayTokens vs ++ r = arrayTokens ws ++ s) : vs = ws ∧ r = s := by
  match vs, ws with
  | [], [] => exact ⟨rfl, List.tail_eq_of_cons_eq h⟩
  | v :: vs, w :: ws =>
      simp only [arrayTokens, List.append_assoc] at h
      have hfirst := tokens_append_inj v w h
      have hrest := arrayTokens_append_inj vs ws hfirst.2
      exact ⟨by rw [hfirst.1, hrest.1], hrest.2⟩
  | [], w :: ws =>
      obtain ⟨t, ts, htokens, hkind⟩ := exists_tokens_eq w
      simp only [arrayTokens, htokens, List.cons_append, List.cons.injEq] at h
      rw [← h.1] at hkind
      exact absurd hkind (Nat.not_succ_le_zero 1)
  | v :: vs, [] =>
      obtain ⟨t, ts, htokens, hkind⟩ := exists_tokens_eq v
      simp only [arrayTokens, htokens, List.cons_append, List.cons.injEq] at h
      rw [h.1] at hkind
      exact absurd hkind (Nat.not_succ_le_zero 1)

theorem fieldTokens_append_inj (l l' : List (String × Value L)) {r s : List (Token L)}
    (h : fieldTokens l ++ r = fieldTokens l' ++ s) : l = l' ∧ r = s := by
  match l, l' with
  | [], [] => exact ⟨rfl, List.tail_eq_of_cons_eq h⟩
  | (key, v) :: l, (key', w) :: l' =>
      simp only [fieldTokens, List.cons_append, List.append_assoc, List.cons.injEq,
        Token.name.injEq] at h
      have hfirst := tokens_append_inj v w h.2
      have hrest := fieldTokens_append_inj l l' hfirst.2
      exact ⟨by rw [h.1, hfirst.1, hrest.1], hrest.2⟩
  | [], (key', w) :: l' | (key, v) :: l, [] => simp [fieldTokens] at h

end

theorem tokens_inj {v w : Value L} : v.tokens = w.tokens ↔ v = w := by
  constructor
  · intro h
    exact (tokens_append_inj v w (congrArg (· ++ []) h)).1
  · intro h
    rw [h]

instance [DecidableEq L] : DecidableEq (Value L) :=
  fun _ _ => decidable_of_iff _ tokens_inj

/-! ## 4. The order of words -/

/-- The order of the words of values. -/
def compareWords (cmp : L → L → Ordering) : List (Token L) → List (Token L) → Ordering :=
  List.compareLex (Token.compareBy cmp)

instance (cmp : L → L → Ordering) [TransCmp cmp] : TransCmp (compareWords cmp) :=
  inferInstanceAs (TransCmp (List.compareLex (Token.compareBy cmp)))

variable {cmp : L → L → Ordering}

@[simp] theorem compareWords_cons (a b : Token L) (r s : List (Token L)) :
    compareWords cmp (a :: r) (b :: s) = (a.compareBy cmp b).then (compareWords cmp r s) :=
  List.compareLex_cons_cons

@[simp] theorem compareWords_nil : compareWords cmp [] [] = .eq := rfl

/-- The end of an array is before the elements of a longer one. -/
theorem compareWords_stop_tokens (v : Value L) (r s : List (Token L)) :
    compareWords cmp (.stop :: r) (v.tokens ++ s) = .lt := by
  obtain ⟨t, ts, htokens, hkind⟩ := exists_tokens_eq v
  rw [htokens, List.cons_append, compareWords_cons]
  cases t with
  | stop => exact absurd hkind (Nat.not_succ_le_zero 1)
  | name key => rfl
  | leaf l => rfl
  | array => rfl
  | map => rfl

theorem compareWords_tokens_stop (v : Value L) (r s : List (Token L)) :
    compareWords cmp (v.tokens ++ r) (.stop :: s) = .gt := by
  obtain ⟨t, ts, htokens, hkind⟩ := exists_tokens_eq v
  rw [htokens, List.cons_append, compareWords_cons]
  cases t with
  | stop => exact absurd hkind (Nat.not_succ_le_zero 1)
  | name key => rfl
  | leaf l => rfl
  | array => rfl
  | map => rfl

end Value

end Document
