/-
Association lists in the order of a comparator.

A comparator is a function into `Ordering` that is transitive (`Std.TransCmp`). It
need not tell any two keys apart: two keys that compare as the same are one key here,
and which of the two a list holds is up to the operation that puts an entry in.

A list is cut at a key into the entries before it, those under it and those after it.
Everything else is said through the cuts: `insert` and `erase` put them together again,
`get` and `rank` read them. An implementation that goes left or right at an entry is
compared with these by what the cuts of `l ++ e :: r` are (`cut_of_lt`, `cut_of_gt`,
`cut_of_eq`), whatever it makes of the entries in between.
-/
import Mathlib.Data.List.Basic
import Mathlib.Data.List.Pairwise

set_option autoImplicit false

namespace OrderedList

open Std

variable {K V : Type*} (cmp : K → K → Ordering)

/-- The keys ascend strictly. -/
def Sorted (l : List (K × V)) : Prop := l.Pairwise fun a b => cmp a.1 b.1 = .lt

/-- The entries before a key. -/
def below (k : K) (l : List (K × V)) : List (K × V) := l.filter fun e => cmp e.1 k == .lt

/-- The entries under a key. -/
def level (k : K) (l : List (K × V)) : List (K × V) := l.filter fun e => cmp e.1 k == .eq

/-- The entries after a key. -/
def above (k : K) (l : List (K × V)) : List (K × V) := l.filter fun e => cmp e.1 k == .gt

/-- The value under a key. -/
def get (k : K) (l : List (K × V)) : Option V := (level cmp k l).head?.map Prod.snd

/-- The number of entries before a key. -/
def rank (k : K) (l : List (K × V)) : ℕ := (below cmp k l).length

/-- An entry put in under a key. `new` makes it, of the entry that is there. -/
def insert (new : Option (K × V) → K × V) (k : K) (l : List (K × V)) : List (K × V) :=
  below cmp k l ++ new (level cmp k l).head? :: above cmp k l

/-- The entry under a key taken out. -/
def erase (k : K) (l : List (K × V)) : List (K × V) := below cmp k l ++ above cmp k l

/-! ## The cuts of a list that is put together -/

section Cuts

variable {cmp}

@[simp] theorem below_nil (k : K) : below cmp k ([] : List (K × V)) = [] := rfl

@[simp] theorem level_nil (k : K) : level cmp k ([] : List (K × V)) = [] := rfl

@[simp] theorem above_nil (k : K) : above cmp k ([] : List (K × V)) = [] := rfl

theorem below_append (k : K) (l r : List (K × V)) :
    below cmp k (l ++ r) = below cmp k l ++ below cmp k r := List.filter_append ..

theorem level_append (k : K) (l r : List (K × V)) :
    level cmp k (l ++ r) = level cmp k l ++ level cmp k r := List.filter_append ..

theorem above_append (k : K) (l r : List (K × V)) :
    above cmp k (l ++ r) = above cmp k l ++ above cmp k r := List.filter_append ..

theorem mem_below {k : K} {e : K × V} {l : List (K × V)} :
    e ∈ below cmp k l ↔ e ∈ l ∧ cmp e.1 k = .lt := by
  rw [below, List.mem_filter, beq_iff_eq]

theorem mem_level {k : K} {e : K × V} {l : List (K × V)} :
    e ∈ level cmp k l ↔ e ∈ l ∧ cmp e.1 k = .eq := by
  rw [level, List.mem_filter, beq_iff_eq]

theorem mem_above {k : K} {e : K × V} {l : List (K × V)} :
    e ∈ above cmp k l ↔ e ∈ l ∧ cmp e.1 k = .gt := by
  rw [above, List.mem_filter, beq_iff_eq]

/-- Entries that are all before a key are cut nowhere else. -/
theorem cut_of_forall_lt {k : K} {l : List (K × V)} (h : ∀ e ∈ l, cmp e.1 k = .lt) :
    below cmp k l = l ∧ level cmp k l = [] ∧ above cmp k l = [] := by
  refine ⟨?_, ?_, ?_⟩
  · rw [below, List.filter_eq_self]
    exact fun e he => beq_iff_eq.mpr (h e he)
  · rw [level, List.filter_eq_nil_iff]
    intro e he
    rw [h e he]
    decide
  · rw [above, List.filter_eq_nil_iff]
    intro e he
    rw [h e he]
    decide

/-- Entries that are all after a key are cut nowhere else. -/
theorem cut_of_forall_gt {k : K} {l : List (K × V)} (h : ∀ e ∈ l, cmp e.1 k = .gt) :
    below cmp k l = [] ∧ level cmp k l = [] ∧ above cmp k l = l := by
  refine ⟨?_, ?_, ?_⟩
  · rw [below, List.filter_eq_nil_iff]
    intro e he
    rw [h e he]
    decide
  · rw [level, List.filter_eq_nil_iff]
    intro e he
    rw [h e he]
    decide
  · rw [above, List.filter_eq_self]
    exact fun e he => beq_iff_eq.mpr (h e he)

/-- Nothing before or after a key is under it. -/
@[simp] theorem level_below (k : K) (l : List (K × V)) : level cmp k (below cmp k l) = [] :=
  (cut_of_forall_lt fun _ he => (mem_below.mp he).2).2.1

@[simp] theorem level_above (k : K) (l : List (K × V)) : level cmp k (above cmp k l) = [] :=
  (cut_of_forall_gt fun _ he => (mem_above.mp he).2).2.1

theorem Sorted.left {l r : List (K × V)} (h : Sorted cmp (l ++ r)) : Sorted cmp l :=
  (List.pairwise_append.mp h).1

theorem Sorted.right {l r : List (K × V)} (h : Sorted cmp (l ++ r)) : Sorted cmp r :=
  (List.pairwise_append.mp h).2.1

theorem Sorted.lt {l r : List (K × V)} (h : Sorted cmp (l ++ r)) {a b : K × V} (ha : a ∈ l)
    (hb : b ∈ r) : cmp a.1 b.1 = .lt := (List.pairwise_append.mp h).2.2 a ha b hb

end Cuts

/-! ## The cuts at an entry -/

section Entry

variable {cmp} [TransCmp cmp] {k : K} {e : K × V} {l r : List (K × V)}

/-- The list is sorted on both sides of an entry, which is between them. -/
theorem sorted_append_cons_iff :
    Sorted cmp (l ++ e :: r) ↔ Sorted cmp l ∧ Sorted cmp r
      ∧ (∀ a ∈ l, cmp a.1 e.1 = .lt) ∧ ∀ b ∈ r, cmp e.1 b.1 = .lt := by
  constructor
  · intro h
    have hcons := List.pairwise_cons.mp h.right
    exact ⟨h.left, hcons.2, fun a ha => h.lt ha (List.mem_cons_self ..), hcons.1⟩
  · rintro ⟨hl, hr, hle, her⟩
    refine List.pairwise_append.mpr ⟨hl, List.pairwise_cons.mpr ⟨her, hr⟩, ?_⟩
    intro a ha b hb
    rcases List.mem_cons.mp hb with rfl | hb
    · exact hle a ha
    · exact TransCmp.lt_trans (hle a ha) (her b hb)

/-- Behind an entry that is before the key, the cut is a cut of what follows it. -/
theorem cut_of_lt (hs : Sorted cmp (l ++ e :: r)) (h : cmp e.1 k = .lt) :
    below cmp k (l ++ e :: r) = l ++ e :: below cmp k r
      ∧ level cmp k (l ++ e :: r) = level cmp k r
      ∧ above cmp k (l ++ e :: r) = above cmp k r := by
  have hfront : ∀ a ∈ l ++ [e], cmp a.1 k = .lt := by
    intro a ha
    rcases List.mem_append.mp ha with ha | ha
    · exact TransCmp.lt_trans (hs.lt ha (List.mem_cons_self ..)) h
    · exact List.mem_singleton.mp ha ▸ h
  obtain ⟨hbelow, hlevel, habove⟩ := cut_of_forall_lt hfront
  rw [List.append_cons l e r, below_append, level_append, above_append, hbelow, hlevel, habove]
  exact ⟨by rw [List.append_assoc, List.singleton_append], rfl, rfl⟩

/-- In front of an entry that is after the key, the cut is a cut of what it follows. -/
theorem cut_of_gt (hs : Sorted cmp (l ++ e :: r)) (h : cmp e.1 k = .gt) :
    below cmp k (l ++ e :: r) = below cmp k l
      ∧ level cmp k (l ++ e :: r) = level cmp k l
      ∧ above cmp k (l ++ e :: r) = above cmp k l ++ e :: r := by
  have hback : ∀ b ∈ e :: r, cmp b.1 k = .gt := by
    intro b hb
    rcases List.mem_cons.mp hb with rfl | hb
    · exact h
    · have heb : cmp b.1 e.1 = .gt :=
        OrientedCmp.gt_of_lt ((List.pairwise_cons.mp hs.right).1 b hb)
      exact TransCmp.gt_trans heb h
  obtain ⟨hbelow, hlevel, habove⟩ := cut_of_forall_gt hback
  rw [below_append, level_append, above_append, hbelow, hlevel, habove]
  exact ⟨List.append_nil _, List.append_nil _, rfl⟩

/-- At an entry under the key, the cut is on both sides of it. -/
theorem cut_of_eq (hs : Sorted cmp (l ++ e :: r)) (h : cmp e.1 k = .eq) :
    below cmp k (l ++ e :: r) = l ∧ level cmp k (l ++ e :: r) = [e]
      ∧ above cmp k (l ++ e :: r) = r := by
  obtain ⟨-, -, hle, her⟩ := sorted_append_cons_iff.mp hs
  have hfront : ∀ a ∈ l, cmp a.1 k = .lt := fun a ha => TransCmp.lt_of_lt_of_eq (hle a ha) h
  have hback : ∀ b ∈ r, cmp b.1 k = .gt := fun b hb =>
    TransCmp.gt_of_gt_of_eq (OrientedCmp.gt_of_lt (her b hb)) h
  obtain ⟨hbl, hll, hal⟩ := cut_of_forall_lt hfront
  obtain ⟨hbr, hlr, har⟩ := cut_of_forall_gt hback
  have hentry : below cmp k [e] = [] ∧ level cmp k [e] = [e] ∧ above cmp k [e] = [] := by
    simp [below, level, above, h]
  rw [List.append_cons l e r]
  simp only [below_append, level_append, above_append, hbl, hll, hal, hbr, hlr, har, hentry,
    List.append_nil, List.nil_append, and_self]

section Operations

variable (new : Option (K × V) → K × V)

theorem insert_of_lt (hs : Sorted cmp (l ++ e :: r)) (h : cmp e.1 k = .lt) :
    insert cmp new k (l ++ e :: r) = l ++ e :: insert cmp new k r := by
  obtain ⟨hbelow, hlevel, habove⟩ := cut_of_lt hs h
  rw [insert, hbelow, hlevel, habove, insert, List.append_assoc, List.cons_append]

theorem insert_of_gt (hs : Sorted cmp (l ++ e :: r)) (h : cmp e.1 k = .gt) :
    insert cmp new k (l ++ e :: r) = insert cmp new k l ++ e :: r := by
  obtain ⟨hbelow, hlevel, habove⟩ := cut_of_gt hs h
  rw [insert, hbelow, hlevel, habove, insert, List.append_assoc, List.cons_append]

theorem insert_of_eq (hs : Sorted cmp (l ++ e :: r)) (h : cmp e.1 k = .eq) :
    insert cmp new k (l ++ e :: r) = l ++ new (some e) :: r := by
  obtain ⟨hbelow, hlevel, habove⟩ := cut_of_eq hs h
  rw [insert, hbelow, hlevel, habove, List.head?_cons]

end Operations

theorem erase_of_lt (hs : Sorted cmp (l ++ e :: r)) (h : cmp e.1 k = .lt) :
    erase cmp k (l ++ e :: r) = l ++ e :: erase cmp k r := by
  obtain ⟨hbelow, -, habove⟩ := cut_of_lt hs h
  rw [erase, hbelow, habove, erase, List.append_assoc, List.cons_append]

theorem erase_of_gt (hs : Sorted cmp (l ++ e :: r)) (h : cmp e.1 k = .gt) :
    erase cmp k (l ++ e :: r) = erase cmp k l ++ e :: r := by
  obtain ⟨hbelow, -, habove⟩ := cut_of_gt hs h
  rw [erase, hbelow, habove, erase, List.append_assoc]

theorem erase_of_eq (hs : Sorted cmp (l ++ e :: r)) (h : cmp e.1 k = .eq) :
    erase cmp k (l ++ e :: r) = l ++ r := by
  obtain ⟨hbelow, -, habove⟩ := cut_of_eq hs h
  rw [erase, hbelow, habove]

theorem get_of_lt (hs : Sorted cmp (l ++ e :: r)) (h : cmp e.1 k = .lt) :
    get cmp k (l ++ e :: r) = get cmp k r := by
  rw [get, (cut_of_lt hs h).2.1, get]

theorem get_of_gt (hs : Sorted cmp (l ++ e :: r)) (h : cmp e.1 k = .gt) :
    get cmp k (l ++ e :: r) = get cmp k l := by
  rw [get, (cut_of_gt hs h).2.1, get]

theorem get_of_eq (hs : Sorted cmp (l ++ e :: r)) (h : cmp e.1 k = .eq) :
    get cmp k (l ++ e :: r) = some e.2 := by
  rw [get, (cut_of_eq hs h).2.1]
  rfl

theorem rank_of_lt (hs : Sorted cmp (l ++ e :: r)) (h : cmp e.1 k = .lt) :
    rank cmp k (l ++ e :: r) = l.length + 1 + rank cmp k r := by
  rw [rank, (cut_of_lt hs h).1, List.length_append, List.length_cons, rank]
  omega

theorem rank_of_gt (hs : Sorted cmp (l ++ e :: r)) (h : cmp e.1 k = .gt) :
    rank cmp k (l ++ e :: r) = rank cmp k l := by
  rw [rank, (cut_of_gt hs h).1, rank]

theorem rank_of_eq (hs : Sorted cmp (l ++ e :: r)) (h : cmp e.1 k = .eq) :
    rank cmp k (l ++ e :: r) = l.length := by
  rw [rank, (cut_of_eq hs h).1]

end Entry

/-! ## The laws of the operations -/

section Laws

variable {cmp} [TransCmp cmp] {k k' : K} {l : List (K × V)}

/-- A sorted list is its three cuts. -/
theorem append_cuts (hs : Sorted cmp l) :
    below cmp k l ++ (level cmp k l ++ above cmp k l) = l := by
  induction l with
  | nil => rfl
  | cons e l ih =>
      have hs' : Sorted cmp ([] ++ e :: l) := hs
      have hl := (List.pairwise_cons.mp hs).2
      rw [← List.nil_append (e :: l)]
      cases h : cmp e.1 k with
      | lt =>
          obtain ⟨hbelow, hlevel, habove⟩ := cut_of_lt hs' h
          rw [hbelow, hlevel, habove, List.nil_append, List.cons_append, ih hl]
          rfl
      | eq =>
          obtain ⟨hbelow, hlevel, habove⟩ := cut_of_eq hs' h
          rw [hbelow, hlevel, habove]
          rfl
      | gt =>
          obtain ⟨hbelow, hlevel, habove⟩ := cut_of_gt hs' h
          rw [hbelow, hlevel, habove]
          rfl

/-- There is one entry under a key at most. -/
theorem level_eq_toList (hs : Sorted cmp l) : level cmp k l = (level cmp k l).head?.toList := by
  have hsub : (level cmp k l).Pairwise fun a b => cmp a.1 b.1 = .lt :=
    List.Pairwise.sublist List.filter_sublist hs
  match hlevel : level cmp k l with
  | [] => rfl
  | [e] => rfl
  | a :: b :: m =>
      -- two entries under the key compare as the same and as ascending
      have hmem : ∀ c ∈ a :: b :: m, cmp c.1 k = .eq := by
        intro c hc
        rw [← hlevel] at hc
        exact (mem_level.mp hc).2
      have ha : cmp a.1 k = .eq := hmem a (List.mem_cons_self ..)
      have hb : cmp b.1 k = .eq := hmem b (List.mem_cons_of_mem a (List.mem_cons_self ..))
      have heq : cmp a.1 b.1 = .eq := TransCmp.eq_trans ha (OrientedCmp.eq_symm hb)
      rw [hlevel] at hsub
      have hlt := (List.pairwise_cons.mp hsub).1 b (List.mem_cons_self ..)
      rw [heq] at hlt
      exact absurd hlt (by decide)

/-- The entry under a key is as far from the first as there are entries before it. -/
theorem getElem?_rank (hs : Sorted cmp l) {e : K × V} (h : (level cmp k l).head? = some e) :
    l[rank cmp k l]? = some e := by
  have hcuts := append_cuts (k := k) hs
  rw [level_eq_toList hs, h, Option.toList_some, List.singleton_append] at hcuts
  rw [rank]
  generalize below cmp k l = b at hcuts ⊢
  rw [← hcuts, List.getElem?_append_right (Nat.le_refl _), Nat.sub_self, List.getElem?_cons_zero]

theorem level_congr (h : cmp k k' = .eq) (l : List (K × V)) : level cmp k l = level cmp k' l := by
  have hkey : ∀ e : K × V, cmp e.1 k = cmp e.1 k' := fun e => TransCmp.congr_right h
  simp only [level, hkey]

theorem get_congr (h : cmp k k' = .eq) (l : List (K × V)) : get cmp k l = get cmp k' l := by
  rw [get, level_congr h, get]

/-- What is put in under `k` is between what is before `k` and what is after it. -/
theorem sorted_insert (hs : Sorted cmp l) {new : Option (K × V) → K × V}
    (hnew : cmp (new (level cmp k l).head?).1 k = .eq) : Sorted cmp (insert cmp new k l) := by
  refine sorted_append_cons_iff.mpr ⟨?_, ?_, ?_, ?_⟩
  · exact List.Pairwise.sublist List.filter_sublist hs
  · exact List.Pairwise.sublist List.filter_sublist hs
  · intro a ha
    exact TransCmp.lt_of_lt_of_eq (mem_below.mp ha).2 (OrientedCmp.eq_symm hnew)
  · intro b hb
    exact TransCmp.lt_of_eq_of_lt hnew (OrientedCmp.lt_of_gt (mem_above.mp hb).2)

theorem erase_eq_filter (hs : Sorted cmp l) : erase cmp k l = l.filter fun e => cmp e.1 k != .eq := by
  have hcut : ∀ m : List (K × V), (∀ e ∈ m, cmp e.1 k ≠ .eq) →
      m.filter (fun e => cmp e.1 k != .eq) = m := by
    intro m hm
    rw [List.filter_eq_self]
    exact fun e he => bne_iff_ne.mpr (hm e he)
  have hlevel : (level cmp k l).filter (fun e => cmp e.1 k != .eq) = [] := by
    rw [List.filter_eq_nil_iff]
    intro e he
    simp [(mem_level.mp he).2]
  conv_rhs => rw [← append_cuts (k := k) hs]
  rw [List.filter_append, List.filter_append, hlevel, List.nil_append, erase]
  congr 1
  · exact (hcut _ fun e he => by simp [(mem_below.mp he).2]).symm
  · exact (hcut _ fun e he => by simp [(mem_above.mp he).2]).symm

theorem sorted_erase (hs : Sorted cmp l) : Sorted cmp (erase cmp k l) := by
  rw [erase_eq_filter hs]
  exact List.Pairwise.sublist List.filter_sublist hs

theorem mem_erase (hs : Sorted cmp l) {e : K × V} :
    e ∈ erase cmp k l ↔ e ∈ l ∧ cmp e.1 k ≠ .eq := by
  rw [erase_eq_filter hs, List.mem_filter, bne_iff_ne]

/-- Away from `k` the entry under it plays no part. -/
theorem level_append_of_ne (hs : Sorted cmp l) (h : cmp k' k ≠ .eq) :
    level cmp k' (below cmp k l) ++ level cmp k' (above cmp k l) = level cmp k' l := by
  have hnone : level cmp k' (level cmp k l) = [] := by
    rw [level, List.filter_eq_nil_iff]
    intro e he hk'
    have hk := (mem_level.mp he).2
    exact h (TransCmp.eq_trans (OrientedCmp.eq_symm (beq_iff_eq.mp hk')) hk)
  conv_rhs => rw [← append_cuts (k := k) hs]
  rw [level_append, level_append, hnone, List.nil_append]

theorem level_insert_of_ne (hs : Sorted cmp l) {new : Option (K × V) → K × V}
    (hnew : cmp (new (level cmp k l).head?).1 k = .eq) (h : cmp k' k ≠ .eq) :
    level cmp k' (insert cmp new k l) = level cmp k' l := by
  have hentry : level cmp k' [new (level cmp k l).head?] = [] := by
    rw [level, List.filter_eq_nil_iff]
    intro e he hk'
    rw [List.mem_singleton.mp he] at hk'
    exact h (TransCmp.eq_trans (OrientedCmp.eq_symm (beq_iff_eq.mp hk')) hnew)
  rw [insert, List.append_cons, level_append, level_append, hentry, List.append_nil,
    level_append_of_ne hs h]

omit [TransCmp cmp] in
theorem level_insert_self {new : Option (K × V) → K × V}
    (hnew : cmp (new (level cmp k l).head?).1 k = .eq) :
    level cmp k (insert cmp new k l) = [new (level cmp k l).head?] := by
  have hentry : level cmp k [new (level cmp k l).head?] = [new (level cmp k l).head?] :=
    List.filter_cons_of_pos (beq_iff_eq.mpr hnew)
  rw [insert, List.append_cons, level_append, level_append, level_below, level_above, hentry,
    List.nil_append, List.append_nil]

/-- **An insertion is an assignment**, to the key and to those that compare as it. -/
theorem get_insert (hs : Sorted cmp l) {new : Option (K × V) → K × V} {v : V}
    (hnew : cmp (new (level cmp k l).head?).1 k = .eq) (hv : (new (level cmp k l).head?).2 = v) :
    get cmp k' (insert cmp new k l) = if cmp k' k = .eq then some v else get cmp k' l := by
  by_cases h : cmp k' k = .eq
  · rw [if_pos h, get_congr h, get, level_insert_self hnew, List.head?_cons, Option.map_some, hv]
  · rw [if_neg h, get, level_insert_of_ne hs hnew h, get]

theorem get_erase (hs : Sorted cmp l) :
    get cmp k' (erase cmp k l) = if cmp k' k = .eq then none else get cmp k' l := by
  by_cases h : cmp k' k = .eq
  · rw [if_pos h, get_congr h, get, erase, level_append, level_below, level_above]
    rfl
  · rw [if_neg h, get, erase, level_append, level_append_of_ne hs h, get]

theorem get_eq_some_iff (hs : Sorted cmp l) {v : V} :
    get cmp k l = some v ↔ ∃ e ∈ l, cmp e.1 k = .eq ∧ e.2 = v := by
  constructor
  · intro h
    rw [get, Option.map_eq_some_iff] at h
    obtain ⟨e, he, rfl⟩ := h
    have hmem := mem_level.mp (List.mem_of_mem_head? he)
    exact ⟨e, hmem.1, hmem.2, rfl⟩
  · rintro ⟨e, he, hk, rfl⟩
    obtain ⟨a, b, rfl⟩ := List.append_of_mem he
    exact get_of_eq hs hk

theorem get_eq_none_iff (hs : Sorted cmp l) : get cmp k l = none ↔ ∀ e ∈ l, cmp e.1 k ≠ .eq := by
  rw [Option.eq_none_iff_forall_ne_some]
  constructor
  · intro h e he hk
    exact h e.2 ((get_eq_some_iff hs).mpr ⟨e, he, hk, rfl⟩)
  · intro h v hv
    obtain ⟨e, he, hk, -⟩ := (get_eq_some_iff hs).mp hv
    exact h e he hk

theorem length_insert (hs : Sorted cmp l) (new : Option (K × V) → K × V) :
    (insert cmp new k l).length = if (get cmp k l).isSome then l.length else l.length + 1 := by
  have hcuts := congrArg List.length (append_cuts (k := k) hs)
  have hlevel := level_eq_toList (k := k) hs
  rw [insert, get, Option.isSome_map]
  simp only [List.length_append, List.length_cons] at hcuts ⊢
  cases hhead : (level cmp k l).head? with
  | none =>
      rw [hhead] at hlevel
      rw [hlevel] at hcuts
      simp only [Option.toList_none, List.length_nil] at hcuts
      simp only [Option.isSome_none, Bool.false_eq_true, if_false]
      omega
  | some e =>
      rw [hhead] at hlevel
      rw [hlevel] at hcuts
      simp only [Option.toList_some, List.length_singleton] at hcuts
      simp only [Option.isSome_some, if_true]
      omega

end Laws

end OrderedList
