/-
`immutable/sorted_map.h` and `immutable/sorted_set.h`: the ordered maps and sets of the
Firestore client.

A sorted map is an array of up to `kFixedSize` entries until one more is put in, and a
tree from then on, until that is empty again. Both representations carry their
invariants, so that the assertions of `FixedArray` and the balance of the tree are
discharged where a map is made. `toList` is what an iterator reads, and the laws of the
operations are those of `Lib.OrderedList`: `run_spec` puts them together for every
sequence of operations, whichever representation it goes through.
-/
import FreeFood.Firestore.LlrbNode
import FreeFood.Lib.Scan

set_option autoImplicit false

namespace FreeFood.Firestore

open Std OrderedList

/-! ## 1. Iterators of a tree -/

/-- `LlrbNodeIterator`: the nodes still to be visited after what is on the left of them,
the next one first. -/
structure LlrbNodeIterator (K V : Type) where
  stack : List (LlrbNode K V)

namespace LlrbNodeIterator

variable {K V : Type}

/-- `AccumulateLeft`. -/
def accumulateLeft : LlrbNode K V → List (LlrbNode K V) → List (LlrbNode K V)
  | .empty _, stack => stack
  | .node e c s l r, stack => accumulateLeft l (.node e c s l r :: stack)

def begin (root : LlrbNode K V) : LlrbNodeIterator K V := ⟨accumulateLeft root []⟩

/-- The loop of `LowerBound`. -/
def descend (cmp : K → K → Ordering) (k : K) :
    LlrbNode K V → List (LlrbNode K V) → List (LlrbNode K V)
  | .empty _, stack => stack
  | .node e c s l r, stack =>
      match cmp k e.1 with
      | .eq => .node e c s l r :: stack
      | .lt => descend cmp k l (.node e c s l r :: stack)
      | .gt => descend cmp k r stack

def lowerBound (cmp : K → K → Ordering) (root : LlrbNode K V) (k : K) : LlrbNodeIterator K V :=
  ⟨descend cmp k root []⟩

/-- `operator*`, of an iterator that is not at its end. -/
def current (it : LlrbNodeIterator K V) : Option (K × V) :=
  match it.stack with
  | .node e _ _ _ _ :: _ => some e
  | _ => none

/-- What is read of a node on the stack: its entry and what is on the right of it. -/
def fromNode : LlrbNode K V → List (K × V)
  | .empty _ => []
  | .node e _ _ _ r => e :: r.toList

/-- What is read of the stack. -/
def pending (it : LlrbNodeIterator K V) : List (K × V) := it.stack.flatMap fromNode

/-- A stack has no empty nodes. -/
def Proper (it : LlrbNodeIterator K V) : Prop := ∀ n ∈ it.stack, n.isEmpty = false

theorem accumulateLeft_pending (n : LlrbNode K V) (stack : List (LlrbNode K V)) :
    (accumulateLeft n stack).flatMap fromNode = n.toList ++ stack.flatMap fromNode := by
  induction n generalizing stack with
  | empty c => rfl
  | node e c s l r ihl _ =>
      rw [accumulateLeft, ihl, List.flatMap_cons, fromNode, LlrbNode.toList_node,
        List.append_assoc]

theorem accumulateLeft_proper (n : LlrbNode K V) (stack : List (LlrbNode K V))
    (h : ∀ m ∈ stack, m.isEmpty = false) : ∀ m ∈ accumulateLeft n stack, m.isEmpty = false := by
  induction n generalizing stack with
  | empty c => exact h
  | node e c s l r ihl _ =>
      apply ihl
      exact List.forall_mem_cons.mpr ⟨rfl, h⟩

/-- An iterator from the first node reads the tree in its order. -/
theorem pending_begin (root : LlrbNode K V) : (begin root).pending = root.toList := by
  rw [pending, begin, accumulateLeft_pending, List.flatMap_nil, List.append_nil]

theorem current_eq_head? {it : LlrbNodeIterator K V} (h : it.Proper) :
    it.current = it.pending.head? := by
  obtain ⟨stack⟩ := it
  match stack with
  | [] => rfl
  | .empty c :: _ => exact Bool.noConfusion (h (.empty c) (List.mem_cons_self ..))
  | .node e c s l r :: _ => rfl

variable {cmp : K → K → Ordering}

/-- The loop keeps the nodes of the key and after it on the stack. -/
theorem descend_pending [TransCmp cmp] (k : K) (n : LlrbNode K V)
    (stack : List (LlrbNode K V)) (hs : Sorted cmp n.toList) :
    (descend cmp k n stack).flatMap fromNode
      = level cmp k n.toList ++ above cmp k n.toList ++ stack.flatMap fromNode := by
  induction n generalizing stack with
  | empty c => rfl
  | node e c s l r ihl ihr =>
      rw [LlrbNode.toList_node] at hs ⊢
      rw [descend]
      cases h : cmp k e.1 with
      | lt =>
          obtain ⟨-, hlevel, habove⟩ := cut_of_gt hs (OrientedCmp.gt_of_lt h)
          simp only [hlevel, habove, ihl _ hs.left, List.flatMap_cons, fromNode, List.append_assoc]
      | eq =>
          obtain ⟨-, hlevel, habove⟩ := cut_of_eq hs (OrientedCmp.eq_symm h)
          simp only [hlevel, habove, List.flatMap_cons, fromNode, List.singleton_append]
      | gt =>
          obtain ⟨-, hlevel, habove⟩ := cut_of_lt hs (OrientedCmp.lt_of_gt h)
          simp only [hlevel, habove, ihr _ (sorted_append_cons_iff.mp hs).2.1]

/-- `LowerBound` reads the entry under the key, if there is one, and those after it. -/
theorem pending_lowerBound [TransCmp cmp] (k : K) {root : LlrbNode K V}
    (hs : Sorted cmp root.toList) :
    (lowerBound cmp root k).pending = level cmp k root.toList ++ above cmp k root.toList := by
  rw [pending, lowerBound, descend_pending k root [] hs, List.flatMap_nil, List.append_nil]

theorem lowerBound_proper (k : K) (root : LlrbNode K V) : (lowerBound cmp root k).Proper := by
  have hdescend : ∀ (n : LlrbNode K V) (stack : List (LlrbNode K V)),
      (∀ m ∈ stack, m.isEmpty = false) → ∀ m ∈ descend cmp k n stack, m.isEmpty = false := by
    intro n
    induction n with
    | empty c => exact fun stack h => h
    | node e c s l r ihl ihr =>
        intro stack h
        have hcons : ∀ m ∈ LlrbNode.node e c s l r :: stack, m.isEmpty = false :=
          List.forall_mem_cons.mpr ⟨rfl, h⟩
        rw [descend]
        split
        · exact hcons
        · exact ihl _ hcons
        · exact ihr _ h
  exact hdescend root [] (by simp)

end LlrbNodeIterator

/-! ## 2. The array -/

/-- The largest number of entries that an array holds. -/
def kFixedSize : ℕ := 25

/-- `ArraySortedMap`. That the entries fit is what `FixedArray` asserts. -/
structure ArraySortedMap (K V : Type) (cmp : K → K → Ordering) where
  contents : List (K × V)
  fits : contents.length ≤ kFixedSize
  sorted : Sorted cmp contents

namespace ArraySortedMap

variable {K V : Type} {cmp : K → K → Ordering}

/-- `lower_bound`: the position of the first entry that is not before the key. -/
def lowerBound (cmp : K → K → Ordering) (l : List (K × V)) (k : K) : ℕ :=
  l.findIdx fun e => cmp e.1 k != .lt

/-- The entries that `insert` leaves: a copy up to the position, the new entry, and a
copy of the rest, less the entry that is replaced. Where a value is there that `==` finds
the same, the map is left as it is. -/
def insertInto [BEq V] (cmp : K → K → Ordering) (l : List (K × V)) (k : K) (v : V) :
    List (K × V) :=
  let pos := lowerBound cmp l k
  match l.drop pos with
  | [] => l.take pos ++ [(k, v)]
  | e :: rest =>
      if cmp k e.1 = .eq then
        if v == e.2 then l else l.take pos ++ (k, v) :: rest
      else l.take pos ++ (k, v) :: e :: rest

/-- The position that `find` finds, by going through all entries. -/
def find (cmp : K → K → Ordering) (l : List (K × V)) (k : K) : Option ℕ :=
  l.findIdx? fun e => cmp k e.1 == .eq

/-- The entries that `erase` leaves. -/
def eraseFrom (cmp : K → K → Ordering) (l : List (K × V)) (k : K) : List (K × V) :=
  match find cmp l k with
  | none => l
  | some pos => if l.length ≤ 1 then [] else l.take pos ++ l.drop (pos + 1)

/-- What `insert` writes. -/
def written [BEq V] (k : K) (v : V) : Option (K × V) → K × V
  | none => (k, v)
  | some e => if v == e.2 then e else (k, v)

/-- The lower bound is where the list is cut. -/
theorem lowerBound_eq [TransCmp cmp] {l : List (K × V)} (hs : Sorted cmp l) (k : K) :
    l.take (lowerBound cmp l k) = below cmp k l
      ∧ l.drop (lowerBound cmp l k) = level cmp k l ++ above cmp k l := by
  induction l with
  | nil => exact ⟨rfl, rfl⟩
  | cons e l ih =>
      have hs' : Sorted cmp ([] ++ e :: l) := hs
      rw [lowerBound, List.findIdx_cons]
      cases h : cmp e.1 k with
      | lt =>
          obtain ⟨hbelow, hlevel, habove⟩ := cut_of_lt hs' h
          rw [List.nil_append, List.nil_append] at hbelow
          rw [List.nil_append] at hlevel habove
          obtain ⟨htake, hdrop⟩ := ih (List.pairwise_cons.mp hs).2
          rw [hbelow, hlevel, habove, ← htake, ← hdrop]
          exact ⟨rfl, rfl⟩
      | eq =>
          obtain ⟨hbelow, hlevel, habove⟩ := cut_of_eq hs' h
          rw [List.nil_append] at hbelow hlevel habove
          rw [hbelow, hlevel, habove]
          exact ⟨rfl, rfl⟩
      | gt =>
          obtain ⟨hbelow, hlevel, habove⟩ := cut_of_gt hs' h
          rw [List.nil_append] at hbelow hlevel habove
          rw [hbelow, hlevel, habove]
          exact ⟨rfl, rfl⟩

theorem written_key [TransCmp cmp] [BEq V] (k : K) (v : V) (l : List (K × V)) :
    cmp (written k v (level cmp k l).head?).1 k = .eq := by
  cases hhead : (level cmp k l).head? with
  | none => exact ReflCmp.compare_self
  | some e =>
      have heq : cmp e.1 k = .eq := (mem_level.mp (List.mem_of_mem_head? hhead)).2
      rw [written]
      split
      · exact heq
      · exact ReflCmp.compare_self

theorem insertInto_eq [TransCmp cmp] [BEq V] {l : List (K × V)} (hs : Sorted cmp l)
    (k : K) (v : V) : insertInto cmp l k v = OrderedList.insert cmp (written k v) k l := by
  obtain ⟨htake, hdrop⟩ := lowerBound_eq hs k
  have hcuts := append_cuts (k := k) hs
  have hlevel := level_eq_toList (k := k) hs
  unfold insertInto OrderedList.insert
  dsimp only
  rw [htake, hdrop]
  cases hhead : (level cmp k l).head? with
  | none =>
      rw [hhead, Option.toList_none] at hlevel
      rw [hlevel, List.nil_append, written]
      cases habove : above cmp k l with
      | nil => rfl
      | cons e rest =>
          have hgt : cmp e.1 k = .gt := (mem_above.mp (habove ▸ List.mem_cons_self ..)).2
          have hne : cmp k e.1 ≠ .eq := by
            rw [OrientedCmp.lt_of_gt hgt]
            decide
          dsimp only
          rw [if_neg hne]
  | some e =>
      have heq : cmp k e.1 = .eq := OrientedCmp.eq_symm (mem_level.mp (List.mem_of_mem_head? hhead)).2
      rw [hhead, Option.toList_some] at hlevel
      rw [hlevel, List.singleton_append] at hcuts ⊢
      dsimp only
      rw [if_pos heq, written]
      by_cases hv : (v == e.2) = true
      · rw [if_pos hv, if_pos hv, hcuts]
      · rw [if_neg hv, if_neg hv]

/-- The search through all entries finds the one the list is cut at. -/
theorem find_eq [TransCmp cmp] {l : List (K × V)} (hs : Sorted cmp l) (k : K) :
    find cmp l k = if (get cmp k l).isSome then some (rank cmp k l) else none := by
  induction l with
  | nil => rfl
  | cons e l ih =>
      have hs' : Sorted cmp ([] ++ e :: l) := hs
      rw [find, List.findIdx?_cons]
      cases h : cmp k e.1 with
      | lt =>
          -- the key is before all entries, and the search goes on in vain
          have hnone : get cmp k (e :: l) = none := get_of_gt hs' (OrientedCmp.gt_of_lt h)
          have hrest : get cmp k l = none := by
            rw [get_eq_none_iff hs] at hnone
            rw [get_eq_none_iff (List.pairwise_cons.mp hs).2]
            exact fun a ha => hnone a (List.mem_cons_of_mem e ha)
          have hfind := ih (List.pairwise_cons.mp hs).2
          rw [hrest, find] at hfind
          rw [hnone, hfind]
          rfl
      | eq =>
          have hget : get cmp k (e :: l) = some e.2 := get_of_eq hs' (OrientedCmp.eq_symm h)
          have hrank : rank cmp k (e :: l) = 0 := rank_of_eq hs' (OrientedCmp.eq_symm h)
          rw [hget, hrank]
          rfl
      | gt =>
          have hget : get cmp k (e :: l) = get cmp k l := get_of_lt hs' (OrientedCmp.lt_of_gt h)
          have hrank : rank cmp k (e :: l) = rank cmp k l + 1 := by
            have hcut := rank_of_lt hs' (OrientedCmp.lt_of_gt h)
            rw [List.nil_append, List.length_nil] at hcut
            omega
          have hfind := ih (List.pairwise_cons.mp hs).2
          rw [find] at hfind
          rw [hget, hrank, hfind]
          cases (get cmp k l).isSome <;> rfl

theorem eraseFrom_eq [TransCmp cmp] {l : List (K × V)} (hs : Sorted cmp l) (k : K) :
    eraseFrom cmp l k = OrderedList.erase cmp k l := by
  have hcuts := append_cuts (k := k) hs
  have hlevel := level_eq_toList (k := k) hs
  unfold eraseFrom
  rw [find_eq hs, OrderedList.get, Option.isSome_map, OrderedList.erase]
  cases hhead : (level cmp k l).head? with
  | none =>
      rw [hhead, Option.toList_none] at hlevel
      rw [hlevel, List.nil_append] at hcuts
      exact hcuts.symm
  | some e =>
      rw [hhead, Option.toList_some] at hlevel
      rw [hlevel, List.singleton_append] at hcuts
      simp only [Option.isSome_some, if_true]
      by_cases hone : l.length ≤ 1
      · -- the entry is the only one
        have hlen := congrArg List.length hcuts
        rw [List.length_append, List.length_cons] at hlen
        have hbelow : below cmp k l = [] := List.eq_nil_of_length_eq_zero (by omega)
        have habove : above cmp k l = [] := List.eq_nil_of_length_eq_zero (by omega)
        rw [if_pos hone, hbelow, habove]
        rfl
      · rw [if_neg hone, rank]
        generalize below cmp k l = b at hcuts ⊢
        generalize above cmp k l = a at hcuts ⊢
        rw [← hcuts, List.take_left' rfl, List.drop_append, List.drop_eq_nil_of_le (by omega)]
        simp

/-- The keys that `find` compares a key with. -/
def searched (cmp : K → K → Ordering) (k : K) : List (K × V) → List K
  | [] => []
  | e :: l => e.1 :: if cmp k e.1 = .eq then [] else searched cmp k l

theorem length_searched_le (k : K) (l : List (K × V)) : (searched cmp k l).length ≤ l.length := by
  induction l with
  | nil => exact Nat.le_refl 0
  | cons e l ih =>
      rw [searched, List.length_cons, List.length_cons]
      split
      · exact Nat.le_add_left 1 _
      · exact Nat.succ_le_succ ih

/-- No other comparison decides what is found. -/
theorem find_congr {cmp' : K → K → Ordering} {k : K} {l : List (K × V)}
    (h : ∀ x ∈ searched cmp k l, cmp' k x = cmp k x) : find cmp' l k = find cmp l k := by
  induction l with
  | nil => rfl
  | cons e l ih =>
      rw [searched, List.forall_mem_cons] at h
      rw [find, find, List.findIdx?_cons, List.findIdx?_cons, h.1]
      by_cases heq : cmp k e.1 = .eq
      · rw [heq]
        rfl
      · rw [if_neg heq] at h
        have hrest := ih h.2
        rw [find, find] at hrest
        rw [hrest]

protected def empty : ArraySortedMap K V cmp := ⟨[], Nat.zero_le _, List.Pairwise.nil⟩

variable [TransCmp cmp]

/-- `insert`, of a map that has room for one more. -/
protected def insert [BEq V] (a : ArraySortedMap K V cmp) (k : K) (v : V)
    (room : a.contents.length < kFixedSize) : ArraySortedMap K V cmp where
  contents := insertInto cmp a.contents k v
  fits := by
    rw [insertInto_eq a.sorted, length_insert a.sorted]
    split <;> omega
  sorted := by
    rw [insertInto_eq a.sorted]
    exact sorted_insert a.sorted (written_key k v a.contents)

protected def erase (a : ArraySortedMap K V cmp) (k : K) : ArraySortedMap K V cmp where
  contents := eraseFrom cmp a.contents k
  fits := by
    rw [eraseFrom_eq a.sorted, erase_eq_filter a.sorted]
    exact (List.length_filter_le _ _).trans a.fits
  sorted := by
    rw [eraseFrom_eq a.sorted]
    exact sorted_erase a.sorted

end ArraySortedMap

/-! ## 3. The tree -/

namespace LlrbNode

variable {K V : Type} (cmp : K → K → Ordering)

/-- The loop of `TreeSortedMap::contains`. -/
def contains (k : K) : LlrbNode K V → Bool
  | empty _ => false
  | node e _ _ l r =>
      match cmp k e.1 with
      | .eq => true
      | .lt => contains k l
      | .gt => contains k r

/-- The loop of `TreeSortedMap::find_index`, with the number of pruned nodes. -/
def findIndex (k : K) : LlrbNode K V → ℕ → Option ℕ
  | empty _, _ => none
  | node e _ _ l r, pruned =>
      match cmp k e.1 with
      | .eq => some (pruned + l.size)
      | .lt => findIndex k l pruned
      | .gt => findIndex k r (pruned + (l.size + 1))

/-- The keys that a search compares a key with, from the root down. -/
def searched (k : K) : LlrbNode K V → List K
  | empty _ => []
  | node e _ _ l r =>
      e.1 :: match cmp k e.1 with
        | .eq => []
        | .lt => searched k l
        | .gt => searched k r

theorem length_searched_le (k : K) (n : LlrbNode K V) : (n.searched cmp k).length ≤ n.height := by
  induction n with
  | empty c => exact Nat.le_refl 0
  | node e c s l r ihl ihr =>
      rw [searched, height, List.length_cons]
      cases cmp k e.1 with
      | eq => exact Nat.le_add_left 1 _
      | lt => exact Nat.succ_le_succ (ihl.trans (Nat.le_max_left ..))
      | gt => exact Nat.succ_le_succ (ihr.trans (Nat.le_max_right ..))

variable {cmp} {cmp' : K → K → Ordering}

/-- No other comparison decides where the loops of a search go. -/
theorem search_congr {k : K} {n : LlrbNode K V}
    (h : ∀ x ∈ n.searched cmp k, cmp' k x = cmp k x) :
    n.contains cmp' k = n.contains cmp k
      ∧ (∀ pruned, n.findIndex cmp' k pruned = n.findIndex cmp k pruned)
      ∧ ∀ stack, LlrbNodeIterator.descend cmp' k n stack
          = LlrbNodeIterator.descend cmp k n stack := by
  induction n with
  | empty c => exact ⟨rfl, fun _ => rfl, fun _ => rfl⟩
  | node e c s l r ihl ihr =>
      rw [searched, List.forall_mem_cons] at h
      obtain ⟨hroot, hrest⟩ := h
      simp only [contains, findIndex, LlrbNodeIterator.descend, hroot]
      cases hcmp : cmp k e.1 with
      | eq => exact ⟨rfl, fun _ => rfl, fun _ => rfl⟩
      | lt =>
          rw [hcmp] at hrest
          obtain ⟨hcontains, hindex, hdescend⟩ := ihl hrest
          exact ⟨hcontains, hindex, fun stack => hdescend _⟩
      | gt =>
          rw [hcmp] at hrest
          obtain ⟨hcontains, hindex, hdescend⟩ := ihr hrest
          exact ⟨hcontains, fun pruned => hindex _, hdescend⟩

/-- The lower bound is one of the nodes that its key was compared with. -/
theorem current_descend {k : K} {n : LlrbNode K V} {stack : List (LlrbNode K V)} {e : K × V}
    (h : (LlrbNodeIterator.mk (LlrbNodeIterator.descend cmp k n stack)).current = some e) :
    e.1 ∈ n.searched cmp k ∨ (LlrbNodeIterator.mk stack).current = some e := by
  induction n generalizing stack with
  | empty c => exact Or.inr h
  | node root c s l r ihl ihr =>
      rw [searched, List.mem_cons]
      rw [LlrbNodeIterator.descend] at h
      cases hcmp : cmp k root.1 with
      | eq =>
          rw [hcmp] at h
          exact Or.inl (Or.inl (congrArg Prod.fst (Option.some.inj h)).symm)
      | lt =>
          rw [hcmp] at h
          rcases ihl h with hmem | hroot
          · exact Or.inl (Or.inr hmem)
          · exact Or.inl (Or.inl (congrArg Prod.fst (Option.some.inj hroot)).symm)
      | gt =>
          rw [hcmp] at h
          exact (ihr h).imp Or.inr id

variable [TransCmp cmp]

theorem contains_eq (k : K) (n : LlrbNode K V) (hs : Sorted cmp n.toList) :
    n.contains cmp k = (get cmp k n.toList).isSome := by
  induction n with
  | empty c => rfl
  | node e c s l r ihl ihr =>
      rw [toList_node] at hs ⊢
      rw [contains]
      cases h : cmp k e.1 with
      | lt => rw [get_of_gt hs (OrientedCmp.gt_of_lt h)]; exact ihl hs.left
      | eq => rw [get_of_eq hs (OrientedCmp.eq_symm h)]; rfl
      | gt =>
          rw [get_of_lt hs (OrientedCmp.lt_of_gt h)]
          exact ihr (sorted_append_cons_iff.mp hs).2.1

/-- The sizes stored in a balanced tree count the entries that are passed. -/
theorem findIndex_eq (k : K) {n : LlrbNode K V} {c : Color} {h : ℕ} (hn : Balanced c h n)
    (hs : Sorted cmp n.toList) (pruned : ℕ) :
    n.findIndex cmp k pruned
      = if (get cmp k n.toList).isSome then some (pruned + rank cmp k n.toList) else none := by
  induction n generalizing c h pruned with
  | empty c => rfl
  | node e c s l r ihl ihr =>
      obtain ⟨⟨cl, hl, hbl⟩, ⟨cr, hr, hbr⟩⟩ := hn.children
      rw [toList_node] at hs ⊢
      rw [findIndex]
      cases h : cmp k e.1 with
      | lt =>
          rw [get_of_gt hs (OrientedCmp.gt_of_lt h), rank_of_gt hs (OrientedCmp.gt_of_lt h)]
          exact ihl hbl hs.left pruned
      | eq =>
          rw [get_of_eq hs (OrientedCmp.eq_symm h), rank_of_eq hs (OrientedCmp.eq_symm h),
            hbl.size_eq]
          rfl
      | gt =>
          have hright := ihr hbr (sorted_append_cons_iff.mp hs).2.1 (pruned + (l.size + 1))
          rw [get_of_lt hs (OrientedCmp.lt_of_gt h), rank_of_lt hs (OrientedCmp.lt_of_gt h)]
          dsimp only
          rw [hright, hbl.size_eq]
          congr 2
          omega

end LlrbNode

/-- `TreeSortedMap`. -/
structure TreeSortedMap (K V : Type) (cmp : K → K → Ordering) where
  root : LlrbNode K V
  balanced : ∃ h, LlrbNode.Balanced .black h root
  sorted : Sorted cmp root.toList

namespace TreeSortedMap

variable {K V : Type} {cmp : K → K → Ordering}

protected def empty : TreeSortedMap K V cmp :=
  ⟨.empty .black, ⟨0, .empty⟩, List.Pairwise.nil⟩

theorem written_key [TransCmp cmp] (k : K) (v : V) (l : List (K × V)) :
    cmp (LlrbNode.written k v (level cmp k l).head?).1 k = .eq := by
  cases hhead : (level cmp k l).head? with
  | none => exact ReflCmp.compare_self
  | some e => exact (mem_level.mp (List.mem_of_mem_head? hhead)).2

variable [TransCmp cmp]

protected def insert (t : TreeSortedMap K V cmp) (k : K) (v : V) : TreeSortedMap K V cmp where
  root := t.root.insert cmp k v
  balanced := by
    obtain ⟨h, hroot⟩ := t.balanced
    exact LlrbNode.balanced_insert cmp k v hroot
  sorted := by
    rw [LlrbNode.toList_insert cmp k v t.sorted]
    exact sorted_insert t.sorted (written_key k v _)

protected def erase (t : TreeSortedMap K V cmp) (k : K) : TreeSortedMap K V cmp where
  root := t.root.erase cmp k
  balanced := by
    obtain ⟨h, hroot⟩ := t.balanced
    exact LlrbNode.balanced_erase k hroot t.sorted
  sorted := by
    obtain ⟨h, hroot⟩ := t.balanced
    rw [LlrbNode.toList_erase k hroot t.sorted]
    exact sorted_erase t.sorted

/-- `Create`: the entries inserted one after the other. -/
def create (l : List (K × V)) : TreeSortedMap K V cmp :=
  l.foldl (fun t e => t.insert e.1 e.2) TreeSortedMap.empty

theorem toList_insert (t : TreeSortedMap K V cmp) (k : K) (v : V) :
    (t.insert k v).root.toList
      = OrderedList.insert cmp (LlrbNode.written k v) k t.root.toList :=
  LlrbNode.toList_insert cmp k v t.sorted

theorem toList_erase (t : TreeSortedMap K V cmp) (k : K) :
    (t.erase k).root.toList = OrderedList.erase cmp k t.root.toList := by
  obtain ⟨h, hroot⟩ := t.balanced
  exact LlrbNode.toList_erase k hroot t.sorted

/-- A tree is created with the entries it is created from. -/
theorem toList_create {l : List (K × V)} (hs : Sorted cmp l) :
    (create l : TreeSortedMap K V cmp).root.toList = l := by
  have hfold : ∀ (l : List (K × V)) (t : TreeSortedMap K V cmp), Sorted cmp (t.root.toList ++ l) →
      (l.foldl (fun t e => t.insert e.1 e.2) t).root.toList = t.root.toList ++ l := by
    intro l
    induction l with
    | nil => exact fun t _ => (List.append_nil _).symm
    | cons e l ih =>
        intro t hs
        -- an entry after all others is put in at the end
        have hbelow : ∀ a ∈ t.root.toList, cmp a.1 e.1 = .lt :=
          fun a ha => hs.lt ha (List.mem_cons_self ..)
        obtain ⟨hb, hl, ha⟩ := cut_of_forall_lt hbelow
        have hinsert : (t.insert e.1 e.2).root.toList = t.root.toList ++ [e] := by
          rw [toList_insert, OrderedList.insert, hb, hl, ha]
          rfl
        rw [List.append_cons, ← hinsert] at hs
        rw [List.foldl_cons, ih _ hs, hinsert, List.append_assoc, List.singleton_append]
  exact hfold l TreeSortedMap.empty hs

end TreeSortedMap

/-! ## 4. The map -/

/-- `SortedMap`, in one of its two representations. -/
inductive SortedMap (K V : Type) (cmp : K → K → Ordering) where
  | array (a : ArraySortedMap K V cmp)
  | tree (t : TreeSortedMap K V cmp)

namespace SortedMap

variable {K V : Type} {cmp : K → K → Ordering}

/-- What an iterator of the map reads. -/
def toList : SortedMap K V cmp → List (K × V)
  | array a => a.contents
  | tree t => t.root.toList

@[simp] theorem toList_array (a : ArraySortedMap K V cmp) : (array a).toList = a.contents := rfl

@[simp] theorem toList_tree (t : TreeSortedMap K V cmp) : (tree t).toList = t.root.toList := rfl

protected def empty : SortedMap K V cmp := array ArraySortedMap.empty

def size : SortedMap K V cmp → ℕ
  | array a => a.contents.length
  | tree t => t.root.size

def isEmpty (m : SortedMap K V cmp) : Bool := m.size == 0

def contains (m : SortedMap K V cmp) (k : K) : Bool :=
  match m with
  | array a => (ArraySortedMap.find cmp a.contents k).isSome
  | tree t => t.root.contains cmp k

/-- `find`: the entry of the iterator it returns. In a tree it is the lower bound, if
that is under the key. -/
def find (m : SortedMap K V cmp) (k : K) : Option (K × V) :=
  match m with
  | array a => (ArraySortedMap.find cmp a.contents k).bind fun pos => a.contents[pos]?
  | tree t => (LlrbNodeIterator.lowerBound cmp t.root k).current.filter fun e => cmp k e.1 == .eq

def get (m : SortedMap K V cmp) (k : K) : Option V := (m.find k).map Prod.snd

/-- `find_index`, `none` for `npos`. -/
def findIndex (m : SortedMap K V cmp) (k : K) : Option ℕ :=
  match m with
  | array a => ArraySortedMap.find cmp a.contents k
  | tree t => t.root.findIndex cmp k 0

/-- `lower_bound` and `values_from`: what an iterator reads that starts at a key. -/
def entriesFrom (m : SortedMap K V cmp) (k : K) : List (K × V) :=
  match m with
  | array a => a.contents.drop (ArraySortedMap.lowerBound cmp a.contents k)
  | tree t => (LlrbNodeIterator.lowerBound cmp t.root k).pending

def min? : SortedMap K V cmp → Option (K × V)
  | array a => a.contents.head?
  | tree t => (LlrbNodeIterator.begin t.root).current

def max? : SortedMap K V cmp → Option (K × V)
  | array a => a.contents.getLast?
  | tree t => t.root.max?

variable [TransCmp cmp]

/-- `insert`: an array that is full becomes a tree first, even if the key is there. -/
protected def insert [BEq V] (m : SortedMap K V cmp) (k : K) (v : V) :
    SortedMap K V cmp :=
  match m with
  | array a =>
      if room : a.contents.length < kFixedSize then array (a.insert k v room)
      else tree ((TreeSortedMap.create a.contents).insert k v)
  | tree t => tree (t.insert k v)

/-- `erase`: a tree that is empty becomes an array again. -/
protected def erase (m : SortedMap K V cmp) (k : K) : SortedMap K V cmp :=
  match m with
  | array a => array (a.erase k)
  | tree t => if (t.erase k).root.isEmpty then SortedMap.empty else tree (t.erase k)

/-! ## 5. The laws of the map -/

omit [TransCmp cmp] in
theorem sorted (m : SortedMap K V cmp) : Sorted cmp m.toList := by
  cases m with
  | array a => exact a.sorted
  | tree t => exact t.sorted

omit [TransCmp cmp] in
@[simp] theorem toList_empty : (SortedMap.empty : SortedMap K V cmp).toList = [] := rfl

omit [TransCmp cmp] in
theorem size_eq (m : SortedMap K V cmp) : m.size = m.toList.length := by
  cases m with
  | array a => rfl
  | tree t =>
      obtain ⟨h, hroot⟩ := t.balanced
      exact hroot.size_eq

/-- What an insertion writes: a new entry, or one with the new value for the one that is
there. An array replaces its key, and a tree keeps it. An array keeps an entry whose value
is the same. -/
structure Writes [BEq V] (cmp : K → K → Ordering) (k : K) (v : V)
    (new : Option (K × V) → K × V) : Prop where
  none : new none = (k, v)
  key : ∀ e, cmp e.1 k = .eq → cmp (new (some e)).1 k = .eq
  value : ∀ e, (new (some e)).2 = v ∨ (new (some e)).2 = e.2 ∧ (v == e.2) = true

theorem Writes.level [BEq V] {k : K} {v : V} {new : Option (K × V) → K × V}
    (h : Writes cmp k v new) (l : List (K × V)) :
    cmp (new (level cmp k l).head?).1 k = .eq ∧
      ((new (level cmp k l).head?).2 = v ∨
        OrderedList.get cmp k l = some (new (level cmp k l).head?).2 ∧
          (v == (new (level cmp k l).head?).2) = true) := by
  cases hhead : (OrderedList.level cmp k l).head? with
  | none =>
      rw [h.none]
      exact ⟨ReflCmp.compare_self, Or.inl rfl⟩
  | some e =>
      refine ⟨h.key e (mem_level.mp (List.mem_of_mem_head? hhead)).2, (h.value e).imp id ?_⟩
      rintro ⟨hkept, hsame⟩
      rw [hkept, OrderedList.get, hhead]
      exact ⟨rfl, hsame⟩

theorem writes_array [BEq V] (k : K) (v : V) :
    Writes cmp k v (ArraySortedMap.written k v) where
  none := rfl
  key := by
    intro e he
    rw [ArraySortedMap.written]
    split
    · exact he
    · exact ReflCmp.compare_self
  value := by
    intro e
    rw [ArraySortedMap.written]
    split
    · next h => exact Or.inr ⟨rfl, h⟩
    · exact Or.inl rfl

omit [TransCmp cmp] in
theorem writes_tree [BEq V] (k : K) (v : V) : Writes cmp k v (LlrbNode.written k v) where
  none := rfl
  key := fun _ he => he
  value := fun _ => Or.inl rfl

/-- In either representation an insertion is one into the list. -/
theorem exists_toList_insert [BEq V] (m : SortedMap K V cmp) (k : K) (v : V) :
    ∃ new, Writes cmp k v new ∧ (m.insert k v).toList = OrderedList.insert cmp new k m.toList := by
  cases m with
  | array a =>
      rw [SortedMap.insert]
      split
      · exact ⟨_, writes_array k v, ArraySortedMap.insertInto_eq a.sorted k v⟩
      · refine ⟨_, writes_tree k v, ?_⟩
        rw [toList_tree, TreeSortedMap.toList_insert, TreeSortedMap.toList_create a.sorted,
          toList_array]
  | tree t => exact ⟨_, writes_tree k v, TreeSortedMap.toList_insert t k v⟩

theorem toList_erase (m : SortedMap K V cmp) (k : K) :
    (m.erase k).toList = OrderedList.erase cmp k m.toList := by
  cases m with
  | array a => exact ArraySortedMap.eraseFrom_eq a.sorted k
  | tree t =>
      rw [SortedMap.erase]
      split
      · next hempty =>
          rw [toList, ← TreeSortedMap.toList_erase, LlrbNode.toList_eq_nil_iff.mpr hempty,
            toList_empty]
      · exact TreeSortedMap.toList_erase t k

theorem find_eq (m : SortedMap K V cmp) (k : K) : m.find k = (level cmp k m.toList).head? := by
  have hlevel := level_eq_toList (k := k) m.sorted
  cases m with
  | array a =>
      rw [find, ArraySortedMap.find_eq a.sorted, OrderedList.get, Option.isSome_map, toList_array]
      cases hhead : (level cmp k a.contents).head? with
      | none => rfl
      | some e => exact getElem?_rank a.sorted hhead
  | tree t =>
      rw [find, LlrbNodeIterator.current_eq_head? (LlrbNodeIterator.lowerBound_proper k t.root),
        LlrbNodeIterator.pending_lowerBound k t.sorted]
      rw [toList_tree] at hlevel ⊢
      cases hhead : (level cmp k t.root.toList).head? with
      | none =>
          rw [hhead, Option.toList_none] at hlevel
          rw [hlevel, List.nil_append]
          cases habove : above cmp k t.root.toList with
          | nil => rfl
          | cons e rest =>
              have hgt : cmp e.1 k = .gt := (mem_above.mp (habove ▸ List.mem_cons_self ..)).2
              simp [Option.filter, OrientedCmp.lt_of_gt hgt]
      | some e =>
          have heq : cmp e.1 k = .eq := (mem_level.mp (List.mem_of_mem_head? hhead)).2
          rw [hhead, Option.toList_some] at hlevel
          simp [hlevel, Option.filter, OrientedCmp.eq_symm heq]

theorem get_eq (m : SortedMap K V cmp) (k : K) : m.get k = OrderedList.get cmp k m.toList := by
  rw [get, find_eq, OrderedList.get]

theorem contains_eq (m : SortedMap K V cmp) (k : K) : m.contains k = (m.get k).isSome := by
  rw [get_eq]
  cases m with
  | array a =>
      rw [contains, ArraySortedMap.find_eq a.sorted, toList]
      cases (OrderedList.get cmp k a.contents).isSome <;> rfl
  | tree t => exact LlrbNode.contains_eq k t.root t.sorted

/-- The index of a key is the number of entries before it. -/
theorem findIndex_eq (m : SortedMap K V cmp) (k : K) :
    m.findIndex k = if (m.get k).isSome then some (rank cmp k m.toList) else none := by
  rw [get_eq]
  cases m with
  | array a => exact ArraySortedMap.find_eq a.sorted k
  | tree t =>
      obtain ⟨h, hroot⟩ := t.balanced
      rw [findIndex, LlrbNode.findIndex_eq k hroot t.sorted 0, Nat.zero_add, toList]

omit [TransCmp cmp] in
theorem min?_eq (m : SortedMap K V cmp) : m.min? = m.toList.head? := by
  cases m with
  | array a => rfl
  | tree t =>
      have hproper : (LlrbNodeIterator.begin t.root).Proper :=
        LlrbNodeIterator.accumulateLeft_proper t.root [] (by simp)
      rw [min?, LlrbNodeIterator.current_eq_head? hproper, LlrbNodeIterator.pending_begin, toList]

omit [TransCmp cmp] in
theorem max?_eq (m : SortedMap K V cmp) : m.max? = m.toList.getLast? := by
  cases m with
  | array a => rfl
  | tree t => exact LlrbNode.max?_eq_getLast? t.root

theorem entriesFrom_eq (m : SortedMap K V cmp) (k : K) :
    m.entriesFrom k = startingAt cmp k m.toList := by
  rw [startingAt_eq m.sorted]
  cases m with
  | array a => exact (ArraySortedMap.lowerBound_eq a.sorted k).2
  | tree t => exact LlrbNodeIterator.pending_lowerBound k t.sorted

/-- **An insertion.** The key has the value from then on, or the one that it had, if that is
the same. -/
theorem get_insert [BEq V] (m : SortedMap K V cmp) (k : K) (v : V) :
    ∃ w, (w = v ∨ m.get k = some w ∧ (v == w) = true) ∧
      ∀ k', (m.insert k v).get k' = if cmp k' k = .eq then some w else m.get k' := by
  obtain ⟨new, hnew, hlist⟩ := m.exists_toList_insert k v
  obtain ⟨hkey, hvalue⟩ := hnew.level m.toList
  refine ⟨(new (level cmp k m.toList).head?).2, ?_, fun k' => ?_⟩
  · rw [get_eq]
    exact hvalue
  · rw [get_eq, get_eq, hlist, OrderedList.get_insert m.sorted hkey rfl]

theorem get_erase (m : SortedMap K V cmp) (k k' : K) :
    (m.erase k).get k' = if cmp k' k = .eq then none else m.get k' := by
  rw [get_eq, get_eq, toList_erase, OrderedList.get_erase m.sorted]

/-- Where only equal keys compare as the same, a search is for a key itself. -/
theorem get_insert_of_same [BEq V] [DecidableEq K] [LawfulEqCmp cmp] {m : SortedMap K V cmp}
    {k : K} {v : V} (hsame : ∀ w, m.get k = some w → (v == w) = true → w = v) (k' : K) :
    (m.insert k v).get k' = if k' = k then some v else m.get k' := by
  obtain ⟨w, hw, hget⟩ := m.get_insert k v
  have hv : w = v := hw.elim id fun ⟨hold, heq⟩ => hsame w hold heq
  rw [hget, hv]
  by_cases h : k' = k
  · rw [if_pos h, if_pos (LawfulEqCmp.compare_eq_iff_eq.mpr h)]
  · rw [if_neg h, if_neg fun heq => h (LawfulEqCmp.eq_of_compare heq)]

theorem get_insert_of_ne [BEq V] [LawfulEqCmp cmp] (m : SortedMap K V cmp) {k k' : K}
    (h : k' ≠ k) (v : V) : (m.insert k v).get k' = m.get k' := by
  obtain ⟨w, -, hget⟩ := m.get_insert k v
  rw [hget, if_neg fun heq => h (LawfulEqCmp.eq_of_compare heq)]

/-- What there is under a key that was put in: the value, or the one before if that is the
same. -/
theorem get_insert_self [BEq V] (m : SortedMap K V cmp) (k : K) (v : V) :
    ∃ w, (m.insert k v).get k = some w ∧ (w = v ∨ m.get k = some w ∧ (v == w) = true) := by
  obtain ⟨w, hw, hget⟩ := m.get_insert k v
  refine ⟨w, ?_, hw⟩
  rw [hget, if_pos ReflCmp.compare_self]

theorem get_insert_of_lawful [BEq V] [LawfulBEq V] [DecidableEq K] [LawfulEqCmp cmp]
    (m : SortedMap K V cmp) (k k' : K) (v : V) :
    (m.insert k v).get k' = if k' = k then some v else m.get k' :=
  get_insert_of_same (fun _ _ h => (eq_of_beq h).symm) k'

theorem get_insert_of_get_eq_none [BEq V] [DecidableEq K] [LawfulEqCmp cmp]
    {m : SortedMap K V cmp} {k : K} (h : m.get k = none) (v : V) (k' : K) :
    (m.insert k v).get k' = if k' = k then some v else m.get k' := by
  refine get_insert_of_same (fun w hw => ?_) k'
  rw [h] at hw
  cases hw

theorem get_erase_of_lawful [DecidableEq K] [LawfulEqCmp cmp] (m : SortedMap K V cmp) (k k' : K) :
    (m.erase k).get k' = if k' = k then none else m.get k' := by
  rw [get_erase]
  by_cases h : k' = k
  · rw [if_pos h, if_pos (LawfulEqCmp.compare_eq_iff_eq.mpr h)]
  · rw [if_neg h, if_neg fun heq => h (LawfulEqCmp.eq_of_compare heq)]

/-- The assignment of a map that replaces what there is, whether it is the same or not. -/
protected def put [BEq V] (m : SortedMap K V cmp) (k : K) (v : V) : SortedMap K V cmp :=
  (m.erase k).insert k v

theorem get_put [BEq V] [DecidableEq K] [LawfulEqCmp cmp] (m : SortedMap K V cmp) (k k' : K)
    (v : V) : (m.put k v).get k' = if k' = k then some v else m.get k' := by
  have hgone : (m.erase k).get k = none := by
    rw [get_erase_of_lawful, if_pos rfl]
  rw [SortedMap.put, get_insert_of_get_eq_none hgone]
  split
  · rfl
  · next hne => rw [get_erase_of_lawful, if_neg hne]

theorem get_eq_some_iff_mem [LawfulEqCmp cmp] {m : SortedMap K V cmp} {k : K} {v : V} :
    m.get k = some v ↔ (k, v) ∈ m.toList := by
  rw [get_eq, get_eq_some_iff m.sorted]
  constructor
  · rintro ⟨e, he, hk, hv⟩
    rwa [← hv, ← LawfulEqCmp.eq_of_compare hk]
  · exact fun h => ⟨_, h, ReflCmp.compare_self, rfl⟩

theorem nodup_keys (m : SortedMap K V cmp) : (m.toList.map Prod.fst).Nodup := by
  rw [List.Nodup, List.pairwise_map]
  refine m.sorted.imp ?_
  intro a b hlt heq
  have hself : cmp b.1 b.1 = .eq := ReflCmp.compare_self
  rw [heq, hself] at hlt
  cases hlt

theorem mem_keys_iff [LawfulEqCmp cmp] {m : SortedMap K V cmp} {k : K} :
    k ∈ m.toList.map Prod.fst ↔ (m.get k).isSome := by
  rw [List.mem_map, Option.isSome_iff_exists]
  constructor
  · rintro ⟨e, he, rfl⟩
    exact ⟨e.2, get_eq_some_iff_mem.mpr he⟩
  · rintro ⟨v, hv⟩
    exact ⟨(k, v), get_eq_some_iff_mem.mp hv, rfl⟩

/-- Entries of different new keys put into a map one after the other. -/
theorem get_foldl_insert [BEq V] [DecidableEq K] [LawfulEqCmp cmp] (l : List (K × V))
    (hl : (l.map Prod.fst).Nodup) (m : SortedMap K V cmp)
    (hfresh : ∀ e ∈ l, m.get e.1 = none) :
    (∀ e ∈ l, (l.foldl (fun m e => m.insert e.1 e.2) m).get e.1 = some e.2) ∧
      ∀ k, k ∉ l.map Prod.fst → (l.foldl (fun m e => m.insert e.1 e.2) m).get k = m.get k := by
  induction l generalizing m with
  | nil => exact ⟨fun e he => absurd he List.not_mem_nil, fun _ _ => rfl⟩
  | cons entry l ih =>
      rw [List.map_cons, List.nodup_cons] at hl
      have hinsert := get_insert_of_get_eq_none (hfresh entry List.mem_cons_self) entry.2
      obtain ⟨hmem, hother⟩ := ih hl.2 (m.insert entry.1 entry.2) fun e he => by
        have hne : e.1 ≠ entry.1 := fun heq => hl.1 (heq ▸ List.mem_map_of_mem he)
        rw [hinsert, if_neg hne]
        exact hfresh e (List.mem_cons_of_mem _ he)
      rw [List.foldl_cons]
      constructor
      · intro e he
        rcases List.mem_cons.mp he with rfl | hin
        · rw [hother _ hl.1, hinsert, if_pos rfl]
        · exact hmem e hin
      · intro k hk
        rw [List.map_cons, List.mem_cons, not_or] at hk
        rw [hother k hk.2, hinsert, if_neg hk.1]

/-- What is in a set after a list of insertions. -/
theorem contains_foldl_insert {α : Type} [DecidableEq K] [LawfulEqCmp cmp] (f : α → K)
    (l : List α) (m : SortedMap K Unit cmp) (k : K) :
    (l.foldl (fun m a => m.insert (f a) ()) m).contains k = true
      ↔ m.contains k = true ∨ ∃ a ∈ l, f a = k := by
  induction l generalizing m with
  | nil => simp
  | cons a l ih =>
      rw [List.foldl_cons, ih, contains_eq, get_insert_of_lawful, List.exists_mem_cons_iff,
        contains_eq]
      by_cases hk : k = f a
      · simp [hk]
      · have hk' : ¬ f a = k := fun h => hk h.symm
        rw [if_neg hk]
        simp only [hk', false_or]

/-- What is left of a map after a list of erasures. -/
theorem get_foldl_erase [DecidableEq K] [LawfulEqCmp cmp] (l : List K) (m : SortedMap K V cmp)
    (k : K) :
    (l.foldl (fun m key => m.erase key) m).get k = if k ∈ l then none else m.get k := by
  induction l generalizing m with
  | nil => exact (if_neg List.not_mem_nil).symm
  | cons key l ih =>
      rw [List.foldl_cons, ih, get_erase_of_lawful]
      by_cases hl : k ∈ l
      · rw [if_pos hl, if_pos (List.mem_cons_of_mem key hl)]
      · by_cases hk : k = key
        · rw [if_neg hl, if_pos hk, if_pos (List.mem_cons.mpr (Or.inl hk))]
        · have hnot : k ∉ key :: l := fun h => (List.mem_cons.mp h).elim hk hl
          rw [if_neg hl, if_neg hk, if_neg hnot]

/-- What is left in a set after a list of erasures. -/
theorem contains_foldl_erase {α : Type} [DecidableEq K] [LawfulEqCmp cmp] (f : α → K)
    (l : List α) (m : SortedMap K Unit cmp) (k : K) :
    (l.foldl (fun m a => m.erase (f a)) m).contains k = true
      ↔ m.contains k = true ∧ ∀ a ∈ l, f a ≠ k := by
  induction l generalizing m with
  | nil => simp
  | cons a l ih =>
      rw [List.foldl_cons, ih, contains_eq, get_erase_of_lawful, List.forall_mem_cons,
        contains_eq]
      by_cases hk : k = f a
      · simp [hk]
      · have hk' : f a ≠ k := fun h => hk h.symm
        rw [if_neg hk]
        simp only [hk', true_and, ne_eq, not_false_eq_true]

/-- The entries where the key is not there yet. -/
theorem toList_insert_of_get_eq_none [BEq V] {m : SortedMap K V cmp} {k : K}
    (h : m.get k = none) (v : V) :
    (m.insert k v).toList = below cmp k m.toList ++ (k, v) :: above cmp k m.toList := by
  obtain ⟨new, hnew, hlist⟩ := m.exists_toList_insert k v
  rw [get_eq, OrderedList.get, Option.map_eq_none_iff] at h
  rw [hlist, OrderedList.insert, h, hnew.none]

theorem mem_insert_of_get_eq_none [BEq V] {m : SortedMap K V cmp} {k : K}
    (h : m.get k = none) (v : V) {e : K × V} :
    e ∈ (m.insert k v).toList ↔ e = (k, v) ∨ e ∈ m.toList := by
  have hcuts := append_cuts (k := k) m.sorted
  rw [toList_insert_of_get_eq_none h]
  rw [get_eq, OrderedList.get, Option.map_eq_none_iff, List.head?_eq_none_iff] at h
  rw [h, List.nil_append] at hcuts
  conv_rhs => rw [← hcuts]
  simp only [List.mem_append, List.mem_cons]
  exact or_left_comm

/-! ## 6. Sequences of operations -/

/-- An operation on a map. -/
inductive Op (K V : Type) where
  | insert (k : K) (v : V)
  | erase (k : K)

def apply [BEq V] (m : SortedMap K V cmp) : Op K V → SortedMap K V cmp
  | .insert k v => m.insert k v
  | .erase k => m.erase k

/-- A map as a function, and what an operation does to it. -/
def assign (cmp : K → K → Ordering) (f : K → Option V) : Op K V → K → Option V
  | .insert k v => fun k' => if cmp k' k = .eq then some v else f k'
  | .erase k => fun k' => if cmp k' k = .eq then none else f k'

/-- What a search finds: nothing where there is nothing, and else the value or one that is
the same. -/
inductive Same [BEq V] : Option V → Option V → Prop
  | none : Same none none
  | value (v : V) : Same (some v) (some v)
  | kept {v w : V} (h : (v == w) = true) : Same (some v) (some w)

theorem Same.isSome_eq [BEq V] {a b : Option V} (h : Same a b) : a.isSome = b.isSome := by
  cases h <;> rfl

/-- Where `==` is equality, it is the value. -/
theorem Same.eq [BEq V] [LawfulBEq V] {a b : Option V} (h : Same a b) : a = b := by
  cases h with
  | none => rfl
  | value v => rfl
  | kept heq => rw [eq_of_beq heq]

theorem same_apply [BEq V] {m : SortedMap K V cmp} {f : K → Option V}
    (h : ∀ k, Same (f k) (m.get k)) (op : Op K V) (k : K) :
    Same (assign cmp f op k) ((m.apply op).get k) := by
  cases op with
  | insert key v =>
      obtain ⟨w, hw, hget⟩ := m.get_insert key v
      rw [apply, hget, assign]
      dsimp only
      split
      · rcases hw with rfl | ⟨-, hsame⟩
        · exact Same.value w
        · exact Same.kept hsame
      · exact h k
  | erase key =>
      rw [apply, get_erase, assign]
      dsimp only
      split
      · exact Same.none
      · exact h k

/-- The searches of a map, by any comparator. -/
def findBy (cmp' : K → K → Ordering) (m : SortedMap K V cmp) (k : K) : Option (K × V) :=
  match m with
  | array a => (ArraySortedMap.find cmp' a.contents k).bind fun pos => a.contents[pos]?
  | tree t =>
      (LlrbNodeIterator.lowerBound cmp' t.root k).current.filter fun e => cmp' k e.1 == .eq

def containsBy (cmp' : K → K → Ordering) (m : SortedMap K V cmp) (k : K) : Bool :=
  match m with
  | array a => (ArraySortedMap.find cmp' a.contents k).isSome
  | tree t => t.root.contains cmp' k

def findIndexBy (cmp' : K → K → Ordering) (m : SortedMap K V cmp) (k : K) : Option ℕ :=
  match m with
  | array a => ArraySortedMap.find cmp' a.contents k
  | tree t => t.root.findIndex cmp' k 0

/-- The keys that a search compares its key with. -/
def searched (m : SortedMap K V cmp) (k : K) : List K :=
  match m with
  | array a => ArraySortedMap.searched cmp k a.contents
  | tree t => t.root.searched cmp k

omit [TransCmp cmp] in
theorem length_searched_le (m : SortedMap K V cmp) (k : K) :
    (m.searched k).length ≤ max kFixedSize (2 * Nat.log 2 (m.size + 1)) := by
  cases m with
  | array a =>
      have hlength : (ArraySortedMap.searched cmp k a.contents).length ≤ a.contents.length :=
        ArraySortedMap.length_searched_le k a.contents
      exact hlength.trans (a.fits.trans (Nat.le_max_left _ _))
  | tree t =>
      obtain ⟨h, hroot⟩ := t.balanced
      have hlength : (t.root.searched cmp k).length ≤ t.root.height :=
        t.root.length_searched_le cmp k
      exact hlength.trans (hroot.height_le_log.trans (Nat.le_max_right _ _))

omit [TransCmp cmp] in
/-- **A search depends on no other comparison**, in either representation. -/
theorem search_congr (m : SortedMap K V cmp) {cmp' : K → K → Ordering} {k : K}
    (h : ∀ x ∈ m.searched k, cmp' k x = cmp k x) :
    m.findBy cmp' k = m.find k ∧ m.containsBy cmp' k = m.contains k
      ∧ m.findIndexBy cmp' k = m.findIndex k := by
  cases m with
  | array a =>
      have hfind := ArraySortedMap.find_congr h
      refine ⟨?_, ?_, hfind⟩
      · rw [findBy, find, hfind]
      · rw [containsBy, contains, hfind]
  | tree t =>
      obtain ⟨hcontains, hindex, hdescend⟩ := LlrbNode.search_congr h
      refine ⟨?_, hcontains, hindex 0⟩
      rw [findBy, find, LlrbNodeIterator.lowerBound, LlrbNodeIterator.lowerBound, hdescend]
      cases hcurrent : (LlrbNodeIterator.mk
          (LlrbNodeIterator.descend cmp k t.root [])).current with
      | none => rfl
      | some e =>
          have hmem : e.1 ∈ t.root.searched cmp k := (LlrbNode.current_descend hcurrent).elim id
            fun hnil => nomatch hnil
          rw [Option.filter, Option.filter, h e.1 hmem]

/-- **A sorted map is a map.** After any sequence of operations, through whatever
representations it has gone, every search finds what the last operation on its key has
left, up to the `==` of the values, the keys are read in their order, an index is the
number of the keys before, and a search compares its key with no more keys than an array
has or twice the logarithm of the size. -/
theorem run_spec [BEq V] (ops : List (Op K V)) :
    let m := ops.foldl apply (SortedMap.empty : SortedMap K V cmp)
    let f := ops.foldl (assign cmp) fun _ => none
    (∀ k, Same (f k) (m.get k) ∧ m.contains k = (f k).isSome)
      ∧ (∀ k v, m.get k = some v ↔ ∃ e ∈ m.toList, cmp e.1 k = .eq ∧ e.2 = v)
      ∧ Sorted cmp m.toList
      ∧ m.size = m.toList.length
      ∧ (∀ k, m.findIndex k
          = if (f k).isSome then some (m.toList.countP fun e => cmp e.1 k == .lt) else none)
      ∧ ∀ k, (m.searched k).length ≤ max kFixedSize (2 * Nat.log 2 (m.size + 1))
          ∧ ∀ cmp', (∀ x ∈ m.searched k, cmp' k x = cmp k x) → m.findBy cmp' k = m.find k
              ∧ m.containsBy cmp' k = m.contains k ∧ m.findIndexBy cmp' k = m.findIndex k := by
  intro m f
  have hsame : ∀ k, Same (f k) (m.get k) := by
    have hfold : ∀ (ops : List (Op K V)) (m : SortedMap K V cmp) (f : K → Option V),
        (∀ k, Same (f k) (m.get k)) →
        ∀ k, Same (ops.foldl (assign cmp) f k) ((ops.foldl apply m).get k) := by
      intro ops
      induction ops with
      | nil => exact fun _ _ h => h
      | cons op ops ih => exact fun m f h => ih (m.apply op) (assign cmp f op) (same_apply h op)
    exact hfold ops SortedMap.empty _ fun _ => Same.none
  refine ⟨fun k => ⟨hsame k, ?_⟩, fun k v => ?_, m.sorted, m.size_eq, fun k => ?_,
    fun k => ⟨m.length_searched_le k, fun cmp' => m.search_congr⟩⟩
  · rw [(hsame k).isSome_eq, contains_eq]
  · rw [get_eq, get_eq_some_iff m.sorted]
  · rw [(hsame k).isSome_eq, findIndex_eq, rank, below, List.countP_eq_length_filter]

/-- Two keys are written, and the smaller one is left. -/
theorem run_spec_threeOps :
    let m := [Op.insert 7 "b", Op.insert 4 "a", Op.erase 7].foldl apply
      (SortedMap.empty : SortedMap ℕ String compare)
    m.get 4 = some "a" ∧ m.contains 7 = false ∧ m.findIndex 4 = some 0 := by
  have hspec := @run_spec ℕ String compare _ _ [Op.insert 7 "b", Op.insert 4 "a", Op.erase 7]
  exact ⟨(hspec.1 4).1.eq.symm, (hspec.1 7).2, (hspec.2.2.2.2.1 4).trans (by decide)⟩

end SortedMap

end FreeFood.Firestore
