/-
Scans of an ordered list.

A scan starts at a key, reads what comes, and stops at the first entry without some
property. It reads all entries with the property if none of them is before the key, and if
an entry without the property has only such entries after it. Both hold of the scans for
one key of a pair, and of the scans for what is below a path: compared segment by segment,
the paths that continue a path are next to one another.
-/
import FreeFood.Lib.OrderedList
import Mathlib.Data.List.Infix
import Mathlib.Data.List.TakeWhile

set_option autoImplicit false

namespace OrderedList

open Std

/-! ## 1. Scans -/

section Scans

variable {K V : Type*} {cmp : K → K → Ordering} {k : K} {l : List (K × V)}

/-- What is read of a list up to the first entry without a property is all that has the
property, where no entry that has it comes after one that has not. -/
theorem takeWhile_eq_filter {α : Type*} {p : α → Bool} {l : List α}
    (hstop : l.Pairwise fun a b => p b = true → p a = true) : l.takeWhile p = l.filter p := by
  induction l with
  | nil => rfl
  | cons a l ih =>
      obtain ⟨ha, hl⟩ := List.pairwise_cons.mp hstop
      by_cases hp : p a = true
      · rw [List.takeWhile_cons_of_pos hp, List.filter_cons_of_pos hp, ih hl]
      · rw [List.takeWhile_cons_of_neg hp, List.filter_cons_of_neg hp, eq_comm,
          List.filter_eq_nil_iff]
        exact fun b hb hpb => hp (ha b hb hpb)

/-- The entries from a key on. -/
def startingAt (cmp : K → K → Ordering) (k : K) (l : List (K × V)) : List (K × V) :=
  l.filter fun e => cmp e.1 k != .lt

theorem mem_startingAt {e : K × V} : e ∈ startingAt cmp k l ↔ e ∈ l ∧ cmp e.1 k ≠ .lt := by
  rw [startingAt, List.mem_filter, bne_iff_ne]

theorem startingAt_eq [TransCmp cmp] (hs : Sorted cmp l) :
    startingAt cmp k l = level cmp k l ++ above cmp k l := by
  have hbelow : startingAt cmp k (below cmp k l) = [] := by
    rw [startingAt, List.filter_eq_nil_iff]
    intro e he hne
    rw [(mem_below.mp he).2] at hne
    exact absurd hne (by decide)
  have hrest : startingAt cmp k (level cmp k l ++ above cmp k l)
      = level cmp k l ++ above cmp k l := by
    rw [startingAt, List.filter_eq_self]
    intro e he
    rw [bne_iff_ne]
    rcases List.mem_append.mp he with h | h
    · rw [(mem_level.mp h).2]
      decide
    · rw [(mem_above.mp h).2]
      decide
  calc startingAt cmp k l
      = startingAt cmp k (below cmp k l ++ (level cmp k l ++ above cmp k l)) := by
        rw [append_cuts hs]
    _ = startingAt cmp k (below cmp k l)
          ++ startingAt cmp k (level cmp k l ++ above cmp k l) := List.filter_append ..
    _ = level cmp k l ++ above cmp k l := by rw [hbelow, hrest, List.nil_append]

/-- **The rule of scans.** -/
theorem takeWhile_startingAt (hs : Sorted cmp l) {p : K × V → Bool}
    (hfrom : ∀ e ∈ l, p e = true → cmp e.1 k ≠ .lt)
    (hstop : ∀ a ∈ l, ∀ b ∈ l, cmp a.1 k ≠ .lt → cmp a.1 b.1 = .lt → p b = true → p a = true) :
    (startingAt cmp k l).takeWhile p = l.filter p := by
  have hpairwise : (startingAt cmp k l).Pairwise fun a b => p b = true → p a = true := by
    refine (List.Pairwise.sublist List.filter_sublist hs).imp_of_mem ?_
    intro a b ha hb hlt
    obtain ⟨hmem, hge⟩ := mem_startingAt.mp ha
    exact hstop a hmem b (mem_startingAt.mp hb).1 hge hlt
  rw [takeWhile_eq_filter hpairwise, startingAt, List.filter_filter]
  refine List.filter_congr fun e he => ?_
  by_cases hp : p e = true
  · rw [hp, Bool.true_and, bne_iff_ne]
    exact hfrom e he hp
  · rw [Bool.not_eq_true] at hp
    rw [hp, Bool.false_and]

end Scans

/-! ## 2. What is below a path -/

section Paths

variable {α : Type*} {cmp : α → α → Ordering} [TransCmp cmp] {p a b : List α}

/-- A path is not after those that continue it. -/
theorem compareLex_ne_lt_of_prefix (h : p <+: a) : List.compareLex cmp a p ≠ .lt := by
  induction p generalizing a with
  | nil =>
      cases a with
      | nil => exact fun h => nomatch h
      | cons x a =>
          rw [List.compareLex_cons_nil]
          exact fun h => nomatch h
  | cons x p ih =>
      obtain ⟨r, rfl⟩ := h
      have hself : cmp x x = .eq := ReflCmp.compare_self
      rw [List.cons_append, List.compareLex_cons_cons, hself, Ordering.eq_then]
      exact ih (List.prefix_append p r)

/-- Nor is the path of a least segment more. -/
theorem compareLex_ne_lt_of_prefix_of_ne {least : α} (hleast : ∀ x, cmp x least ≠ .lt)
    (h : p <+: a) (hne : a ≠ p) : List.compareLex cmp a (p ++ [least]) ≠ .lt := by
  induction p generalizing a with
  | nil =>
      cases a with
      | nil => exact absurd rfl hne
      | cons x a =>
          rw [List.nil_append, List.compareLex_cons_cons]
          cases hx : cmp x least with
          | lt => exact absurd hx (hleast x)
          | gt => exact fun h => nomatch h
          | eq => exact compareLex_ne_lt_of_prefix List.nil_prefix
  | cons x p ih =>
      obtain ⟨r, rfl⟩ := h
      have hself : cmp x x = .eq := ReflCmp.compare_self
      rw [List.cons_append, List.cons_append, List.compareLex_cons_cons, hself, Ordering.eq_then]
      refine ih (List.prefix_append p r) fun heq => hne ?_
      rw [List.cons_append, heq]

omit [TransCmp cmp] in
/-- What is between a path and one that continues it continues it too. -/
theorem prefix_of_between [LawfulEqCmp cmp] (hfrom : List.compareLex cmp a p ≠ .lt)
    (hlt : List.compareLex cmp a b = .lt) (h : p <+: b) : p <+: a := by
  induction p generalizing a b with
  | nil => exact List.nil_prefix
  | cons x p ih =>
      obtain ⟨r, rfl⟩ := h
      cases a with
      | nil =>
          rw [List.compareLex_nil_cons] at hfrom
          exact absurd rfl hfrom
      | cons y a =>
          rw [List.cons_append, List.compareLex_cons_cons] at hlt
          rw [List.compareLex_cons_cons] at hfrom
          cases hyx : cmp y x with
          | lt =>
              rw [hyx] at hfrom
              exact absurd rfl hfrom
          | gt =>
              rw [hyx] at hlt
              exact nomatch hlt
          | eq =>
              rw [hyx, Ordering.eq_then] at hfrom hlt
              rw [LawfulEqCmp.eq_of_compare hyx, List.cons_prefix_cons]
              exact ⟨rfl, ih hfrom hlt (List.prefix_append p r)⟩

end Paths

end OrderedList
