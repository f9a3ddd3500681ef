/-
The text of a UUID: 32 hexadecimal digits in groups of 8, 4, 4, 4 and 12.

Writing uses the upper-case digits and reading accepts both cases, so a text that
was read is not always the text that is written back; what is written is always
read back to the same 128 bits (`parse_uuidString`).

Digits and grouping are independent of each other and are proved separately:
`value_digits` is positional notation at a fixed width, and `ungroup_group` undoes
the dashes for any list of group sizes.
-/
import Mathlib.Data.List.Basic
import Mathlib.Tactic.Ring

set_option autoImplicit false

namespace UuidText

/-! ## Digits -/

/-- The last `k` base-16 digits of a number, the most significant first. -/
def digits : ℕ → ℕ → List ℕ
  | 0, _ => []
  | k + 1, n => digits k (n / 16) ++ [n % 16]

/-- The number that a list of base-16 digits denotes. -/
def value (ds : List ℕ) : ℕ := ds.foldl (fun acc d => 16 * acc + d) 0

theorem length_digits (k n : ℕ) : (digits k n).length = k := by
  induction k generalizing n with
  | zero => rfl
  | succ k ih => rw [digits, List.length_append, ih, List.length_singleton]

theorem digits_lt {k n d : ℕ} (h : d ∈ digits k n) : d < 16 := by
  induction k generalizing n with
  | zero => exact absurd h List.not_mem_nil
  | succ k ih =>
      rw [digits, List.mem_append, List.mem_singleton] at h
      rcases h with h | rfl
      · exact ih h
      · exact Nat.mod_lt _ (by decide)

theorem value_digits (k n : ℕ) : value (digits k n) = n % 16 ^ k := by
  induction k generalizing n with
  | zero => rw [pow_zero, Nat.mod_one]; rfl
  | succ k ih =>
      -- the last digit is the remainder by 16, the others are the digits of the quotient
      have hstep : value (digits (k + 1) n) = 16 * value (digits k (n / 16)) + n % 16 := by
        rw [digits, value, List.foldl_append]
        rfl
      rw [hstep, ih, pow_succ, Nat.mul_comm (16 ^ k) 16, Nat.mod_mul]
      ring

/-- The character of a digit. -/
def digitChar (d : ℕ) : Char := "0123456789ABCDEF".toList.getD d '0'

/-- The digit of a character, of either case. -/
def charDigit (c : Char) : Option ℕ :=
  "0123456789ABCDEF".toList.findIdx? (fun u => u == c.toUpper)

theorem charDigit_digitChar : ∀ d < 16, charDigit (digitChar d) = some d := by decide

/-! ## Groups -/

/-- Puts a dash between the groups. -/
def group : List ℕ → List Char → List Char
  | [], cs => cs
  | [_], cs => cs
  | n :: m :: sizes, cs => cs.take n ++ '-' :: group (m :: sizes) (cs.drop n)

/-- Takes the dashes out again; `none` where a group has another size. -/
def ungroup : List ℕ → List Char → Option (List Char)
  | [], cs => if cs = [] then some [] else none
  | [n], cs => if cs.length = n then some cs else none
  | n :: m :: sizes, cs =>
      if (cs.take n).length = n ∧ (cs.drop n).head? = some '-' then
        (ungroup (m :: sizes) (cs.drop (n + 1))).map (fun rest => cs.take n ++ rest)
      else none

theorem ungroup_group (sizes : List ℕ) (cs : List Char) (h : cs.length = sizes.sum) :
    ungroup sizes (group sizes cs) = some cs := by
  induction sizes generalizing cs with
  | nil =>
      obtain rfl := List.length_eq_zero_iff.mp h
      rfl
  | cons n sizes ih =>
      cases sizes with
      | nil =>
          rw [group, ungroup, if_pos (by simpa using h)]
      | cons m sizes =>
          rw [List.sum_cons] at h
          -- a dash follows the first group, and the rest begins right behind it
          have hn : (cs.take n).length = n := by
            rw [List.length_take]
            omega
          have htail : (cs.drop n).length = (m :: sizes).sum := by
            rw [List.length_drop]
            omega
          rw [group, ungroup, List.take_left' hn, List.drop_left' hn, if_pos ⟨hn, rfl⟩,
            ← List.drop_drop, List.drop_left' hn, List.drop_one, List.tail_cons,
            ih (cs.drop n) htail, Option.map_some, List.take_append_drop]

/-! ## The text -/

/-- The sizes of the groups of a UUID. -/
def sizes : List ℕ := [8, 4, 4, 4, 12]

/-- The text of a UUID. -/
def uuidString (u : BitVec 128) : String :=
  String.ofList (group sizes ((digits 32 u.toNat).map digitChar))

/-- The UUID of a text. -/
def parse (s : String) : Option (BitVec 128) :=
  (ungroup sizes s.toList).bind fun cs =>
    (cs.mapM charDigit).map fun ds => BitVec.ofNat 128 (value ds)

theorem mapM_charDigit (ds : List ℕ) (h : ∀ d ∈ ds, d < 16) :
    (ds.map digitChar).mapM charDigit = some ds := by
  induction ds with
  | nil => rfl
  | cons d ds ih =>
      have hd := charDigit_digitChar d (h d (List.mem_cons_self ..))
      have hds := ih fun d' hd' => h d' (List.mem_cons_of_mem _ hd')
      rw [List.map_cons, List.mapM_cons, hd, hds]
      rfl

/-- **The round trip.** -/
theorem parse_uuidString (u : BitVec 128) : parse (uuidString u) = some u := by
  have hlen : ((digits 32 u.toNat).map digitChar).length = sizes.sum := by
    rw [List.length_map, length_digits]
    rfl
  have hval : value (digits 32 u.toNat) = u.toNat := by
    rw [value_digits]
    exact Nat.mod_eq_of_lt (by simpa using u.isLt)
  rw [parse, uuidString, String.toList_ofList, ungroup_group sizes _ hlen, Option.bind_some,
    mapM_charDigit _ (fun d hd => digits_lt hd), Option.map_some, hval, BitVec.ofNat_toNat,
    BitVec.setWidth_eq]

/-- A text in lower case is read, and written back in upper case. -/
example : (parse "00000000-0000-0000-0000-0000000000ff").map uuidString
    = some "00000000-0000-0000-0000-0000000000FF" := by decide +kernel

end UuidText
