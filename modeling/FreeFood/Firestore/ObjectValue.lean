/-
`ObjectValue` of `model/field_value.h`: the data of a document, read and written by path.

An object is a map from names to values, in the order of the names at every level. `set`
makes the maps on the way to a path, in place of values that are none, and `delete` does
not. A map may keep a value that is `==` to the one it is given. So both are followed in two
steps: what there would be if it never did, at, below and above the path they are given and
at every path beside it (`get_put`, `get_take`), and that what there is is the same
(`setIn_related`, `deleteIn_related`).
-/
import FreeFood.Firestore.FieldValue
import FreeFood.Firestore.Query

set_option autoImplicit false

namespace FreeFood.Firestore

open Std OrderedList

/-! ## 1. Objects -/

/-- `FieldValue::Map`, by what an iterator reads of it. -/
abbrev FieldMap := List (String × FieldValue)

namespace FieldValue

mutual

/-- The names of every map of a value ascend. -/
def ascending : FieldValue → Bool
  | .leaf _ => true
  | .array vs => ascendingArray vs
  | .map l => decide (l.Pairwise fun a b => compare a.1 b.1 = .lt) && ascendingMap l

def ascendingArray : List FieldValue → Bool
  | [] => true
  | v :: vs => ascending v && ascendingArray vs

def ascendingMap : List (String × FieldValue) → Bool
  | [] => true
  | (_, v) :: l => ascending v && ascendingMap l

end

theorem ascendingMap_iff (l : FieldMap) :
    ascendingMap l = true ↔ ∀ e ∈ l, ascending e.2 = true := by
  induction l with
  | nil => simp [ascendingMap]
  | cons e l ih =>
      obtain ⟨name, v⟩ := e
      rw [ascendingMap, Bool.and_eq_true, ih, List.forall_mem_cons]

theorem ascending_map_iff (l : FieldMap) :
    ascending (.map l) = true ↔ Sorted compare l ∧ ∀ e ∈ l, ascending e.2 = true := by
  rw [ascending, Bool.and_eq_true, decide_eq_true_iff, ascendingMap_iff, Sorted]

end FieldValue

/-- `ObjectValue`. -/
structure ObjectValue where
  fields : FieldMap
  ascending : FieldValue.ascending (.map fields) = true
deriving DecidableEq

/-- `FieldValue::Map::find`. -/
def FieldMap.find (name : String) (l : FieldMap) : Option FieldValue := OrderedList.get compare name l

/-- The entries with a value under a name, in place of the one there. -/
def FieldMap.put (name : String) (v : FieldValue) (l : FieldMap) : FieldMap :=
  OrderedList.insert compare (fun _ => (name, v)) name l

/-- `FieldValue::Map::insert`. A map keeps the value that it has, if the new one is `==`. One of
more entries than `kFixedSize` is a tree, where the new one replaces it all the same, so that
what is said of a map below is said up to `==`. -/
def FieldMap.insert (name : String) (v : FieldValue) (l : FieldMap) : FieldMap :=
  match FieldMap.find name l with
  | some old => if v.equals old then l else FieldMap.put name v l
  | none => FieldMap.put name v l

/-- `FieldValue::Map::erase`. -/
def FieldMap.erase (name : String) (l : FieldMap) : FieldMap := OrderedList.erase compare name l

namespace FieldValue

/-- The loop of `ObjectValue::Get`. -/
def getIn : FieldPath → FieldValue → Option FieldValue
  | [], current => some current
  | name :: path, .map entries => (FieldMap.find name entries).bind (getIn path)
  | _ :: _, _ => none

/-- The entries of a child, if it is an object. -/
def childEntries (name : String) (entries : FieldMap) : Option FieldMap :=
  match FieldMap.find name entries with
  | some (.map inner) => some inner
  | _ => none

/-- `ObjectValue::Set`. The source asserts that the path is not empty. -/
def setIn : FieldPath → FieldValue → FieldMap → FieldMap
  | [], _, entries => entries
  | [name], value, entries => FieldMap.insert name value entries
  | name :: next :: path, value, entries =>
      FieldMap.insert name
        (.map (setIn (next :: path) value ((childEntries name entries).getD []))) entries

/-- `ObjectValue::Delete`. -/
def deleteIn : FieldPath → FieldMap → FieldMap
  | [], entries => entries
  | [name], entries => FieldMap.erase name entries
  | name :: next :: path, entries =>
      match childEntries name entries with
      | some inner => FieldMap.insert name (.map (deleteIn (next :: path) inner)) entries
      -- a value that is no object is not made one for a delete
      | none => entries

/-- `Set`, if every value that is put in replaced the one there. -/
def putIn : FieldPath → FieldValue → FieldMap → FieldMap
  | [], _, entries => entries
  | [name], value, entries => FieldMap.put name value entries
  | name :: next :: path, value, entries =>
      FieldMap.put name
        (.map (putIn (next :: path) value ((childEntries name entries).getD []))) entries

/-- `Delete`, if it did. -/
def takeIn : FieldPath → FieldMap → FieldMap
  | [], entries => entries
  | [name], entries => FieldMap.erase name entries
  | name :: next :: path, entries =>
      match childEntries name entries with
      | some inner => FieldMap.put name (.map (takeIn (next :: path) inner)) entries
      | none => entries

/-! ## 2. Entries -/

section Entries

variable {name name' : String} {v : FieldValue} {l inner : FieldMap}

theorem find_put (hs : Sorted compare l) :
    FieldMap.find name' (FieldMap.put name v l)
      = if name' = name then some v else FieldMap.find name' l := by
  have hget : FieldMap.find name' (FieldMap.put name v l)
      = if compare name' name = .eq then some v else FieldMap.find name' l :=
    get_insert hs ReflCmp.compare_self rfl
  simp only [Std.compare_eq_iff_eq] at hget
  exact hget

theorem find_erase (hs : Sorted compare l) :
    FieldMap.find name' (FieldMap.erase name l)
      = if name' = name then none else FieldMap.find name' l := by
  have hget : FieldMap.find name' (FieldMap.erase name l)
      = if compare name' name = .eq then none else FieldMap.find name' l := get_erase hs
  simp only [Std.compare_eq_iff_eq] at hget
  exact hget

theorem ascending_put (hl : ascending (.map l) = true) (hv : ascending v = true) :
    ascending (.map (FieldMap.put name v l)) = true := by
  rw [ascending_map_iff] at hl ⊢
  refine ⟨sorted_insert hl.1 ReflCmp.compare_self, ?_⟩
  intro e he
  rcases List.mem_append.mp he with hbelow | hrest
  · exact hl.2 e (mem_below.mp hbelow).1
  · rcases List.mem_cons.mp hrest with rfl | habove
    · exact hv
    · exact hl.2 e (mem_above.mp habove).1

theorem ascending_erase (hl : ascending (.map l) = true) :
    ascending (.map (FieldMap.erase name l)) = true := by
  rw [ascending_map_iff] at hl ⊢
  refine ⟨sorted_erase hl.1, ?_⟩
  intro e he
  exact hl.2 e ((mem_erase hl.1).mp he).1

theorem ascending_of_find (hl : ascending (.map l) = true) (h : FieldMap.find name l = some v) :
    ascending v = true := by
  rw [ascending_map_iff] at hl
  obtain ⟨e, he, -, rfl⟩ := (get_eq_some_iff hl.1).mp h
  exact hl.2 e he

theorem childEntries_eq_some_iff :
    childEntries name l = some inner ↔ FieldMap.find name l = some (.map inner) := by
  unfold childEntries
  split
  · next entries hfind => rw [hfind, Option.some.injEq, Option.some.injEq, Document.Value.map.injEq]
  · next hnot =>
      constructor
      · intro h
        cases h
      · intro h
        exact absurd h (hnot inner)

theorem ascending_childEntries (hl : ascending (.map l) = true) :
    ascending (.map ((childEntries name l).getD [])) = true := by
  cases hchild : childEntries name l with
  | none => rfl
  | some inner => exact ascending_of_find hl (childEntries_eq_some_iff.mp hchild)

/-- Below a name, what is read of its value is read of the entries it has as an object. -/
theorem getIn_childEntries (next : String) (path : FieldPath) :
    getIn (next :: path) (.map ((childEntries name l).getD []))
      = (FieldMap.find name l).bind (getIn (next :: path)) := by
  cases hfind : FieldMap.find name l with
  | none =>
      have hchild : childEntries name l = none := by rw [childEntries, hfind]
      rw [hchild]
      rfl
  | some w =>
      cases w with
      | map inner => rw [childEntries_eq_some_iff.mpr hfind]; rfl
      | leaf a =>
          have hchild : childEntries name l = none := by rw [childEntries, hfind]
          rw [hchild]
          rfl
      | array vs =>
          have hchild : childEntries name l = none := by rw [childEntries, hfind]
          rw [hchild]
          rfl

end Entries

/-! ## 3. Reading what was written -/

section Paths

variable {p r : FieldPath} {v : FieldValue} {l : FieldMap}

theorem ascending_putIn (hl : ascending (.map l) = true) (hv : ascending v = true) :
    ascending (.map (putIn p v l)) = true := by
  fun_induction putIn p v l with
  | case1 => exact hl
  | case2 => exact ascending_put hl hv
  | case3 v l name next path ih => exact ascending_put hl (ih (ascending_childEntries hl) hv)

theorem getIn_cons_putIn (hl : ascending (.map l) = true) (name : String) (path : FieldPath)
    (name' : String) (rest : FieldPath) :
    getIn (name' :: rest) (.map (putIn (name :: path) v l))
      = if name' = name then
          getIn rest (if path = [] then v else .map (putIn path v ((childEntries name l).getD [])))
        else getIn (name' :: rest) (.map l) := by
  have hs := ((ascending_map_iff l).mp hl).1
  cases path with
  | nil =>
      have hput : putIn [name] v l = FieldMap.put name v l := rfl
      rw [hput, getIn, find_put hs, if_pos rfl]
      split <;> rfl
  | cons next path =>
      rw [putIn, getIn, find_put hs, if_neg (List.cons_ne_nil next path)]
      split <;> rfl

/-- At the path and below it there is the value that was put. -/
theorem getIn_putIn_below (hl : ascending (.map l) = true) (hp : p ≠ []) (rest : FieldPath) :
    getIn (p ++ rest) (.map (putIn p v l)) = getIn rest v := by
  induction p generalizing l with
  | nil => exact absurd rfl hp
  | cons name path ih =>
      rw [List.cons_append, getIn_cons_putIn hl, if_pos rfl]
      by_cases hpath : path = []
      · rw [if_pos hpath, hpath, List.nil_append]
      · rw [if_neg hpath]
        exact ih (ascending_childEntries hl) hpath

/-- Paths beside it keep their values. -/
theorem getIn_putIn_beside (hl : ascending (.map l) = true) (hpr : ¬ p <+: r) (hrp : ¬ r <+: p) :
    getIn r (.map (putIn p v l)) = getIn r (.map l) := by
  induction p generalizing l r with
  | nil => exact absurd (List.nil_prefix) hpr
  | cons name path ih =>
      cases r with
      | nil => exact absurd (List.nil_prefix) hrp
      | cons name' rest =>
          rw [getIn_cons_putIn hl]
          by_cases hname : name' = name
          · -- the paths part further down
            rw [hname, List.cons_prefix_cons] at hpr hrp
            have hpr' : ¬ path <+: rest := fun h => hpr ⟨rfl, h⟩
            have hrp' : ¬ rest <+: path := fun h => hrp ⟨rfl, h⟩
            have hpath : path ≠ [] := fun h => hpr' (h ▸ List.nil_prefix)
            rw [if_pos hname, if_neg hpath, ih (ascending_childEntries hl) hpr' hrp', hname]
            cases rest with
            | nil => exact absurd (List.nil_prefix) hrp'
            | cons next rest => rw [getIn_childEntries, getIn]
          · rw [if_neg hname]

/-- Above it there are objects. -/
theorem getIn_putIn_above (hl : ascending (.map l) = true) (hrp : r <+: p) (hne : r ≠ p) :
    ∃ inner, getIn r (.map (putIn p v l)) = some (.map inner) := by
  induction p generalizing l r with
  | nil => exact absurd (List.prefix_nil.mp hrp) hne
  | cons name path ih =>
      cases r with
      | nil => exact ⟨_, rfl⟩
      | cons name' rest =>
          rw [List.cons_prefix_cons] at hrp
          obtain ⟨rfl, hrest⟩ := hrp
          have hne' : rest ≠ path := fun h => hne (by rw [h])
          have hpath : path ≠ [] := by
            intro h
            rw [h, List.prefix_nil] at hrest
            exact hne' (hrest.trans h.symm)
          rw [getIn_cons_putIn hl, if_pos rfl, if_neg hpath]
          exact ih (ascending_childEntries hl) hrest hne'

/-! ## 4. Reading what is left -/

theorem ascending_takeIn (hl : ascending (.map l) = true) :
    ascending (.map (takeIn p l)) = true := by
  fun_induction takeIn p l with
  | case1 => exact hl
  | case2 => exact ascending_erase hl
  | case3 l name next path inner hchild ih =>
      exact ascending_put hl (ih (ascending_of_find hl (childEntries_eq_some_iff.mp hchild)))
  | case4 => exact hl

theorem getIn_cons_takeIn (hl : ascending (.map l) = true) (name : String) (path : FieldPath)
    (name' : String) (rest : FieldPath) :
    getIn (name' :: rest) (.map (takeIn (name :: path) l))
      = if name' = name then
          if path = [] then none
          else match childEntries name l with
            | some inner => getIn rest (.map (takeIn path inner))
            | none => getIn (name' :: rest) (.map l)
        else getIn (name' :: rest) (.map l) := by
  have hs := ((ascending_map_iff l).mp hl).1
  cases path with
  | nil =>
      have htake : takeIn [name] l = FieldMap.erase name l := rfl
      rw [htake, getIn, find_erase hs, if_pos rfl]
      split <;> rfl
  | cons next path =>
      rw [takeIn, if_neg (List.cons_ne_nil next path)]
      cases childEntries name l with
      | none => simp
      | some inner =>
          dsimp only
          rw [getIn, find_put hs]
          split <;> rfl

/-- What is no object has nothing below it. -/
theorem getIn_cons_cons_of_childEntries {name next : String} {path : FieldPath}
    (h : childEntries name l = none) : getIn (name :: next :: path) (.map l) = none := by
  have hchild : getIn (next :: path) (.map ((childEntries name l).getD []))
      = getIn (name :: next :: path) (.map l) := getIn_childEntries next path
  rw [h] at hchild
  exact hchild.symm

theorem getIn_cons_of_childEntries {name : String} {inner : FieldMap} {path : FieldPath}
    (h : childEntries name l = some inner) :
    getIn (name :: path) (.map l) = getIn path (.map inner) := by
  rw [getIn, childEntries_eq_some_iff.mp h, Option.bind_some]

/-- At the path and below it there is nothing. -/
theorem getIn_takeIn_below (hl : ascending (.map l) = true) (hp : p ≠ []) (rest : FieldPath) :
    getIn (p ++ rest) (.map (takeIn p l)) = none := by
  induction p generalizing l with
  | nil => exact absurd rfl hp
  | cons name path ih =>
      rw [List.cons_append, getIn_cons_takeIn hl, if_pos rfl]
      by_cases hpath : path = []
      · rw [if_pos hpath]
      · rw [if_neg hpath]
        cases hchild : childEntries name l with
        | some inner => exact ih (ascending_of_find hl (childEntries_eq_some_iff.mp hchild)) hpath
        | none =>
            cases path with
            | nil => exact absurd rfl hpath
            | cons next path => exact getIn_cons_cons_of_childEntries hchild

/-- Paths that are neither below it nor above it keep their values. -/
theorem getIn_takeIn_beside (hl : ascending (.map l) = true) (hpr : ¬ p <+: r)
    (hrp : ¬ r <+: p) : getIn r (.map (takeIn p l)) = getIn r (.map l) := by
  induction p generalizing l r with
  | nil => exact absurd (List.nil_prefix) hpr
  | cons name path ih =>
      cases r with
      | nil => exact absurd (List.nil_prefix) hrp
      | cons name' rest =>
          rw [getIn_cons_takeIn hl]
          by_cases hname : name' = name
          · rw [hname, List.cons_prefix_cons] at hpr hrp
            have hpr' : ¬ path <+: rest := fun h => hpr ⟨rfl, h⟩
            have hrp' : ¬ rest <+: path := fun h => hrp ⟨rfl, h⟩
            have hpath : path ≠ [] := fun h => hpr' (h ▸ List.nil_prefix)
            rw [if_pos hname, if_neg hpath]
            cases hchild : childEntries name l with
            | none => rfl
            | some inner =>
                have hinner := ascending_of_find hl (childEntries_eq_some_iff.mp hchild)
                rw [hname, getIn_cons_of_childEntries hchild]
                exact ih hinner hpr' hrp'
          · rw [if_neg hname]

/-- Above it there is an object where there was one, and nothing else changes its place. -/
theorem getIn_takeIn_above (hl : ascending (.map l) = true) (hrp : r <+: p) (hne : r ≠ p) :
    (getIn r (.map (takeIn p l))).map type = (getIn r (.map l)).map type := by
  induction p generalizing l r with
  | nil => exact absurd (List.prefix_nil.mp hrp) hne
  | cons name path ih =>
      cases r with
      | nil => rfl
      | cons name' rest =>
          rw [List.cons_prefix_cons] at hrp
          obtain ⟨rfl, hrest⟩ := hrp
          have hne' : rest ≠ path := fun h => hne (by rw [h])
          have hpath : path ≠ [] := by
            intro h
            rw [h, List.prefix_nil] at hrest
            exact hne' (hrest.trans h.symm)
          rw [getIn_cons_takeIn hl, if_pos rfl, if_neg hpath]
          cases hchild : childEntries name' l with
          | none => rfl
          | some inner =>
              rw [getIn_cons_of_childEntries hchild]
              exact ih (ascending_of_find hl (childEntries_eq_some_iff.mp hchild)) hrest hne'

/-! ## 5. What changes nothing -/

theorem getIn_append (p r : FieldPath) (v : FieldValue) :
    getIn (p ++ r) v = (getIn p v).bind (getIn r) := by
  induction p generalizing v with
  | nil => rfl
  | cons name path ih =>
      cases v with
      | map entries =>
          rw [List.cons_append, getIn, getIn]
          cases FieldMap.find name entries with
          | none => rfl
          | some child => exact ih child
      | leaf a => rfl
      | array vs => rfl

theorem ascending_getIn {w : FieldValue} (hv : ascending v = true) (h : getIn p v = some w) :
    ascending w = true := by
  induction p generalizing v with
  | nil =>
      rw [getIn, Option.some.injEq] at h
      exact h ▸ hv
  | cons name path ih =>
      cases v with
      | map entries =>
          rw [getIn, Option.bind_eq_some_iff] at h
          obtain ⟨child, hchild, hrest⟩ := h
          exact ih (ascending_of_find hv hchild) hrest
      | leaf a => cases h
      | array vs => cases h

theorem put_eq_self {name : String} (hs : Sorted compare l)
    (h : FieldMap.find name l = some v) : FieldMap.put name v l = l := by
  have hcuts := append_cuts (k := name) hs
  have hlevel := level_eq_toList (k := name) hs
  rw [FieldMap.find, OrderedList.get, Option.map_eq_some_iff] at h
  obtain ⟨⟨name', v'⟩, hhead, rfl⟩ := h
  have hmem : (name', v') ∈ level compare name l := List.mem_of_mem_head? hhead
  have hname : name' = name := Std.compare_eq_iff_eq.mp (mem_level.mp hmem).2
  rw [hhead, Option.toList_some, hname] at hlevel
  rw [hlevel, List.singleton_append] at hcuts
  exact hcuts

theorem erase_eq_self {name : String} (hs : Sorted compare l)
    (h : FieldMap.find name l = none) : FieldMap.erase name l = l := by
  have hcuts := append_cuts (k := name) hs
  have hlevel := level_eq_toList (k := name) hs
  rw [FieldMap.find, OrderedList.get, Option.map_eq_none_iff] at h
  rw [h, Option.toList_none] at hlevel
  rw [hlevel, List.nil_append] at hcuts
  exact hcuts

/-- To put what is there. -/
theorem putIn_eq_self (hl : ascending (.map l) = true) (h : getIn p (.map l) = some v) :
    putIn p v l = l := by
  fun_induction putIn p v l with
  | case1 => rfl
  | case2 name v l =>
      rw [getIn, Option.bind_eq_some_iff] at h
      obtain ⟨child, hchild, hsame⟩ := h
      rw [getIn, Option.some.injEq] at hsame
      exact put_eq_self ((ascending_map_iff l).mp hl).1 (hsame ▸ hchild)
  | case3 name next path v l ih =>
      have hchild : (childEntries name l).isSome = true := by
        rw [Option.isSome_iff_ne_none]
        intro hnone
        rw [getIn_cons_cons_of_childEntries hnone] at h
        cases h
      obtain ⟨inner, hinner⟩ := Option.isSome_iff_exists.mp hchild
      rw [hinner, Option.getD_some] at ih ⊢
      have hfind := childEntries_eq_some_iff.mp hinner
      rw [getIn_cons_of_childEntries hinner] at h
      rw [ih (ascending_of_find hl hfind) h]
      exact put_eq_self ((ascending_map_iff l).mp hl).1 hfind

/-- To take out what is not there. -/
theorem takeIn_eq_self (hl : ascending (.map l) = true) (h : getIn p (.map l) = none) :
    takeIn p l = l := by
  fun_induction takeIn p l with
  | case1 => rfl
  | case2 name l =>
      refine erase_eq_self ((ascending_map_iff l).mp hl).1 ?_
      cases hfind : FieldMap.find name l with
      | none => rfl
      | some child =>
          rw [getIn, hfind] at h
          cases h
  | case3 name next path l inner hinner ih =>
      have hfind := childEntries_eq_some_iff.mp hinner
      rw [getIn_cons_of_childEntries hinner] at h
      rw [ih (ascending_of_find hl hfind) h]
      exact put_eq_self ((ascending_map_iff l).mp hl).1 hfind
  | case4 => rfl

end Paths

end FieldValue

/-! ## 6. Values that are the same -/

namespace FieldValue

/-- Entries under the same names, with values that are related. -/
def Related (R : FieldValue → FieldValue → Prop) : FieldMap → FieldMap → Prop :=
  List.Forall₂ fun e e' => e.1 = e'.1 ∧ R e.2 e'.2

/-- A notion of values being the same that is made up of that of their parts: `==` is one,
and to compare the same is one that is coarser. -/
structure Congruence (R : FieldValue → FieldValue → Prop) : Prop where
  refl : ∀ v, R v v
  trans : ∀ {u v w}, R u v → R v w → R u w
  of_equals : ∀ {v w}, v.equals w = true → R v w
  map_iff : ∀ {l l'}, R (.map l) (.map l') ↔ Related R l l'
  exists_map : ∀ {v w}, R v w →
    (∃ l l', v = .map l ∧ w = .map l') ∨ (∀ l, v ≠ .map l) ∧ ∀ l, w ≠ .map l

/-! ### `==` -/

mutual

theorem equals_refl : ∀ v : FieldValue, v.equals v = true
  | .leaf a => a.equals_refl
  | .array vs => equalsArrays_refl vs
  | .map l => equalsMaps_refl l

theorem equalsArrays_refl : ∀ vs : List FieldValue, equalsArrays vs vs = true
  | [] => rfl
  | v :: vs => by
      rw [equalsArrays, equals_refl v, equalsArrays_refl vs]
      rfl

theorem equalsMaps_refl : ∀ l : FieldMap, equalsMaps l l = true
  | [] => rfl
  | (key, v) :: l => by
      rw [equalsMaps, equals_refl v, equalsMaps_refl l, beq_self_eq_true]
      rfl

end

mutual

theorem equals_trans : ∀ u v w : FieldValue, u.equals v = true → v.equals w = true →
    u.equals w = true
  | .leaf a, .leaf b, .leaf c, h, h' => SimpleValue.equals_trans h h'
  | .array us, .array vs, .array ws, h, h' => equalsArrays_trans us vs ws h h'
  | .map l, .map m, .map n, h, h' => equalsMaps_trans l m n h h'

theorem equalsArrays_trans : ∀ us vs ws : List FieldValue, equalsArrays us vs = true →
    equalsArrays vs ws = true → equalsArrays us ws = true
  | [], [], [], _, _ => rfl
  | u :: us, v :: vs, w :: ws, h, h' => by
      rw [equalsArrays, Bool.and_eq_true] at h h' ⊢
      exact ⟨equals_trans u v w h.1 h'.1, equalsArrays_trans us vs ws h.2 h'.2⟩

theorem equalsMaps_trans : ∀ l m n : FieldMap, equalsMaps l m = true →
    equalsMaps m n = true → equalsMaps l n = true
  | [], [], [], _, _ => rfl
  | (key, u) :: l, (key', v) :: m, (key'', w) :: n, h, h' => by
      rw [equalsMaps, Bool.and_eq_true, Bool.and_eq_true, beq_iff_eq] at h h' ⊢
      exact ⟨⟨h.1.1.trans h'.1.1, equals_trans u v w h.1.2 h'.1.2⟩,
        equalsMaps_trans l m n h.2 h'.2⟩

end

mutual

/-- **Values that are `==` compare the same.** -/
theorem compareTo_of_equals : ∀ v w : FieldValue, v.equals w = true → v.compareTo w = .eq
  | .leaf _, .leaf _, h => SimpleValue.compareTo_of_equals h
  | .array vs, .array ws, h => compareArrays_of_equals vs ws h
  | .map l, .map m, h => compareMaps_of_equals l m h

theorem compareArrays_of_equals : ∀ vs ws : List FieldValue, equalsArrays vs ws = true →
    compareArrays vs ws = .eq
  | [], [], _ => rfl
  | v :: vs, w :: ws, h => by
      rw [equalsArrays, Bool.and_eq_true] at h
      rw [compareArrays, compareTo_of_equals v w h.1, compareArrays_of_equals vs ws h.2]
      rfl

theorem compareMaps_of_equals : ∀ l m : FieldMap, equalsMaps l m = true → compareMaps l m = .eq
  | [], [], _ => rfl
  | (key, v) :: l, (key', w) :: m, h => by
      rw [equalsMaps, Bool.and_eq_true, Bool.and_eq_true, beq_iff_eq] at h
      rw [compareMaps, compareTo_of_equals v w h.1.2, compareMaps_of_equals l m h.2, h.1.1,
        compare_self]
      rfl

end

theorem equalsMaps_iff {l l' : FieldMap} :
    equalsMaps l l' = true ↔ Related (fun v w => v.equals w = true) l l' := by
  induction l generalizing l' with
  | nil =>
      cases l' with
      | nil => exact ⟨fun _ => List.Forall₂.nil, fun _ => rfl⟩
      | cons e l' => exact iff_of_false (fun h => by cases h) fun h => by cases h
  | cons e l ih =>
      cases l' with
      | nil => exact iff_of_false (fun h => by cases h) fun h => by cases h
      | cons e' l' =>
          obtain ⟨key, v⟩ := e
          obtain ⟨key', w⟩ := e'
          rw [equalsMaps, Bool.and_eq_true, Bool.and_eq_true, beq_iff_eq, ih, Related,
            List.forall₂_cons]

theorem compareMaps_iff {l l' : FieldMap} :
    compareMaps l l' = .eq ↔ Related (fun v w => v.compareTo w = .eq) l l' := by
  induction l generalizing l' with
  | nil =>
      cases l' with
      | nil => exact ⟨fun _ => List.Forall₂.nil, fun _ => rfl⟩
      | cons e l' => exact iff_of_false (fun h => by cases h) fun h => by cases h
  | cons e l ih =>
      cases l' with
      | nil => exact iff_of_false (fun h => by cases h) fun h => by cases h
      | cons e' l' =>
          obtain ⟨key, v⟩ := e
          obtain ⟨key', w⟩ := e'
          rw [compareMaps, Ordering.then_eq_eq, Ordering.then_eq_eq, Std.compare_eq_iff_eq, ih,
            Related, List.forall₂_cons]

theorem congruence_equals : Congruence fun v w => v.equals w = true where
  refl := equals_refl
  trans {u v w} h h' := equals_trans u v w h h'
  of_equals := id
  map_iff := equalsMaps_iff
  exists_map {v w} h := by
    cases v with
    | map l =>
        cases w with
        | map l' => exact Or.inl ⟨l, l', rfl, rfl⟩
        | leaf b => cases h
        | array ws => cases h
    | leaf a =>
        cases w with
        | map l' => cases h
        | leaf b => exact Or.inr ⟨fun l => nofun, fun l => nofun⟩
        | array ws => cases h
    | array vs =>
        cases w with
        | map l' => cases h
        | leaf b => cases h
        | array ws => exact Or.inr ⟨fun l => nofun, fun l => nofun⟩

/-- Nothing twice, or values that are `==`. -/
def Equal (a b : Option FieldValue) : Prop := Option.Rel (fun v w => v.equals w = true) a b

theorem congruence_compareTo : Congruence fun v w => v.compareTo w = .eq where
  refl _ := ReflCmp.compare_self
  trans h h' := TransCmp.eq_trans h h'
  of_equals {v w} h := compareTo_of_equals v w h
  map_iff := compareMaps_iff
  exists_map {v w} h := by
    cases v with
    | map l =>
        cases w with
        | map l' => exact Or.inl ⟨l, l', rfl, rfl⟩
        | leaf b => exact absurd ((compareTypes_leaf b).2.2.2.symm.trans h) (by decide)
        | array ws => cases h
    | leaf a =>
        cases w with
        | map l' => exact absurd ((compareTypes_leaf a).2.1.symm.trans h) (by decide)
        | leaf b => exact Or.inr ⟨fun l => nofun, fun l => nofun⟩
        | array ws => exact Or.inr ⟨fun l => nofun, fun l => nofun⟩
    | array vs =>
        cases w with
        | map l' => cases h
        | leaf b => exact Or.inr ⟨fun l => nofun, fun l => nofun⟩
        | array ws => exact Or.inr ⟨fun l => nofun, fun l => nofun⟩

/-! ### Reading and writing the same -/

theorem find_cons (name key : String) (v : FieldValue) (l : FieldMap) :
    FieldMap.find name ((key, v) :: l) = if key = name then some v else FieldMap.find name l := by
  unfold FieldMap.find OrderedList.get level
  rw [List.filter_cons]
  by_cases hkey : key = name
  · have hcmp : (compare key name == Ordering.eq) = true := by
      rw [hkey, compare_self]
      rfl
    rw [if_pos hkey, if_pos hcmp, List.head?_cons, Option.map_some]
  · have hcmp : ¬ (compare key name == Ordering.eq) = true := by
      rw [beq_iff_eq, Std.compare_eq_iff_eq]
      exact hkey
    rw [if_neg hkey, if_neg hcmp]

theorem getIn_cons_of_ne_map {v : FieldValue} (h : ∀ l, v ≠ .map l) (name : String)
    (path : FieldPath) : getIn (name :: path) v = none := by
  cases v with
  | map l => exact absurd rfl (h l)
  | leaf a => rfl
  | array vs => rfl

section Congruence

variable {R : FieldValue → FieldValue → Prop} {l l' : FieldMap} {v w : FieldValue}

/-- Related maps have under each name nothing or values that are related. -/
theorem find_related (h : Related R l l') (name : String) :
    Option.Rel R (FieldMap.find name l) (FieldMap.find name l') := by
  induction h with
  | nil => exact Option.Rel.none
  | @cons e e' l l' hentry hrest ih =>
      obtain ⟨key, v⟩ := e
      obtain ⟨key', w⟩ := e'
      obtain ⟨rfl, hvalue⟩ := hentry
      rw [find_cons, find_cons]
      split
      · exact Option.Rel.some hvalue
      · exact ih

theorem getIn_related (hR : Congruence R) (path : FieldPath) (h : R v w) :
    Option.Rel R (getIn path v) (getIn path w) := by
  induction path generalizing v w with
  | nil => exact Option.Rel.some h
  | cons name path ih =>
      rcases hR.exists_map h with ⟨l, l', rfl, rfl⟩ | ⟨hv, hw⟩
      · have hfind := find_related (hR.map_iff.mp h) name
        rw [getIn, getIn]
        revert hfind
        generalize FieldMap.find name l = a
        generalize FieldMap.find name l' = b
        intro hfind
        cases hfind with
        | none => exact Option.Rel.none
        | some hvalue => exact ih hvalue
      · rw [getIn_cons_of_ne_map hv, getIn_cons_of_ne_map hw]
        exact Option.Rel.none

theorem related_refl (hR : Congruence R) (l : FieldMap) : Related R l l :=
  hR.map_iff.mp (hR.refl _)

theorem related_trans (hR : Congruence R) {l m n : FieldMap} (h : Related R l m)
    (h' : Related R m n) : Related R l n :=
  hR.map_iff.mp (hR.trans (hR.map_iff.mpr h) (hR.map_iff.mpr h'))

theorem related_filter (h : Related R l l') (p : String → Bool) :
    Related R (l.filter fun e => p e.1) (l'.filter fun e => p e.1) := by
  refine List.rel_filter ?_ h
  intro e e' hentry
  dsimp only
  rw [hentry.1]

theorem put_related (name : String) (hvalue : R v w) (h : Related R l l') :
    Related R (FieldMap.put name v l) (FieldMap.put name w l') :=
  List.rel_append (related_filter h fun key => compare key name == .lt)
    (List.Forall₂.cons ⟨rfl, hvalue⟩ (related_filter h fun key => compare key name == .gt))

theorem erase_related (name : String) (h : Related R l l') :
    Related R (FieldMap.erase name l) (FieldMap.erase name l') :=
  List.rel_append (related_filter h fun key => compare key name == .lt)
    (related_filter h fun key => compare key name == .gt)

/-- The entries of a child of related maps: both have some, or none has. -/
theorem childEntries_related (hR : Congruence R) (name : String) (h : Related R l l') :
    Option.Rel (Related R) (childEntries name l) (childEntries name l') := by
  have hfind := find_related h name
  unfold childEntries
  revert hfind
  generalize FieldMap.find name l = a
  generalize FieldMap.find name l' = b
  intro hfind
  cases hfind with
  | none => exact Option.Rel.none
  | @some v w hvalue =>
      rcases hR.exists_map hvalue with ⟨m, m', rfl, rfl⟩ | ⟨hv, hw⟩
      · exact Option.Rel.some (hR.map_iff.mp hvalue)
      · cases v with
        | map m => exact absurd rfl (hv m)
        | leaf a =>
            cases w with
            | map m => exact absurd rfl (hw m)
            | leaf b => exact Option.Rel.none
            | array ws => exact Option.Rel.none
        | array vs =>
            cases w with
            | map m => exact absurd rfl (hw m)
            | leaf b => exact Option.Rel.none
            | array ws => exact Option.Rel.none

/-- A map that keeps what is `==` has the same entries as one that replaces it. -/
theorem related_insert (hR : Congruence R) (name : String) (v : FieldValue)
    (hs : Sorted compare l) : Related R (FieldMap.put name v l) (FieldMap.insert name v l) := by
  unfold FieldMap.insert
  cases hfind : FieldMap.find name l with
  | none => exact related_refl hR _
  | some old =>
      dsimp only
      split
      · next hequals =>
          have hput := put_related name (hR.of_equals hequals) (related_refl hR l)
          rwa [put_eq_self hs hfind] at hput
      · exact related_refl hR _

/-- **`Set` leaves the same as if every value that is put in replaced the one there**, on
objects that are the same. -/
theorem setIn_related (hR : Congruence R) {path : FieldPath} {value : FieldValue}
    (hl : ascending (.map l) = true) (hl' : ascending (.map l') = true) (h : Related R l l') :
    Related R (putIn path value l) (setIn path value l') := by
  fun_induction putIn path value l generalizing l' with
  | case1 => exact h
  | case2 name value l =>
      exact related_trans hR (put_related name (hR.refl value) h)
        (related_insert hR name value ((ascending_map_iff l').mp hl').1)
  | case3 name next path value l ih =>
      have hchildren := childEntries_related hR name h
      have hinner : Related R ((childEntries name l).getD []) ((childEntries name l').getD []) := by
        revert hchildren
        generalize childEntries name l = a
        generalize childEntries name l' = b
        intro hchildren
        cases hchildren with
        | none => exact List.Forall₂.nil
        | some hinner => exact hinner
      have hset := ih (ascending_childEntries hl) (ascending_childEntries hl') hinner
      exact related_trans hR (put_related name (hR.map_iff.mpr hset) h)
        (related_insert hR name _ ((ascending_map_iff l').mp hl').1)

/-- `Delete` as well. -/
theorem deleteIn_related (hR : Congruence R) {path : FieldPath}
    (hl : ascending (.map l) = true) (hl' : ascending (.map l') = true) (h : Related R l l') :
    Related R (takeIn path l) (deleteIn path l') := by
  fun_induction takeIn path l generalizing l' with
  | case1 => exact h
  | case2 name l => exact erase_related name h
  | case3 name next path l inner hchild ih =>
      have hchildren := childEntries_related hR name h
      rw [hchild] at hchildren
      rw [deleteIn]
      cases hchild' : childEntries name l' with
      | none =>
          rw [hchild'] at hchildren
          cases hchildren
      | some inner' =>
          rw [hchild'] at hchildren
          cases hchildren with
          | some hinner =>
              have hrest := ih (ascending_of_find hl (childEntries_eq_some_iff.mp hchild))
                (ascending_of_find hl' (childEntries_eq_some_iff.mp hchild')) hinner
              exact related_trans hR (put_related name (hR.map_iff.mpr hrest) h)
                (related_insert hR name _ ((ascending_map_iff l').mp hl').1)
  | case4 name next path l hnone =>
      have hchildren := childEntries_related hR name h
      rw [hnone] at hchildren
      rw [deleteIn]
      cases hchild' : childEntries name l' with
      | none => exact h
      | some inner' =>
          rw [hchild'] at hchildren
          cases hchildren

end Congruence

/-! ### Maps in order -/

theorem ascending_insert {name : String} {v : FieldValue} {l : FieldMap}
    (hl : ascending (.map l) = true) (hv : ascending v = true) :
    ascending (.map (FieldMap.insert name v l)) = true := by
  unfold FieldMap.insert
  split
  · split
    · exact hl
    · exact ascending_put hl hv
  · exact ascending_put hl hv

theorem ascending_setIn {path : FieldPath} {v : FieldValue} {l : FieldMap}
    (hl : ascending (.map l) = true) (hv : ascending v = true) :
    ascending (.map (setIn path v l)) = true := by
  fun_induction setIn path v l with
  | case1 => exact hl
  | case2 => exact ascending_insert hl hv
  | case3 v l name next path ih => exact ascending_insert hl (ih (ascending_childEntries hl) hv)

theorem ascending_deleteIn {path : FieldPath} {l : FieldMap} (hl : ascending (.map l) = true) :
    ascending (.map (deleteIn path l)) = true := by
  fun_induction deleteIn path l with
  | case1 => exact hl
  | case2 => exact ascending_erase hl
  | case3 l name next path inner hchild ih =>
      exact ascending_insert hl (ih (ascending_of_find hl (childEntries_eq_some_iff.mp hchild)))
  | case4 => exact hl

theorem getIn_congr (path : FieldPath) {v w : FieldValue} (h : compareTo v w = .eq) :
    compare (getIn path v) (getIn path w) = .eq := by
  have hget := getIn_related congruence_compareTo path h
  revert hget
  generalize getIn path v = a
  generalize getIn path w = b
  intro hget
  cases hget with
  | none => rfl
  | some hvalue => exact hvalue

end FieldValue

/-! ## 7. Objects -/

namespace ObjectValue

/-- `ObjectValue::Empty`. -/
def empty : ObjectValue := ⟨[], rfl⟩

/-- `ObjectValue::Get`. -/
def get (o : ObjectValue) (path : FieldPath) : Option FieldValue :=
  FieldValue.getIn path (.map o.fields)

/-- `ObjectValue::Set`. -/
def set (o : ObjectValue) (path : FieldPath) (value : FieldValue)
    (hvalue : FieldValue.ascending value = true) : ObjectValue where
  fields := FieldValue.setIn path value o.fields
  ascending := FieldValue.ascending_setIn o.ascending hvalue

/-- `ObjectValue::Delete`. -/
def delete (o : ObjectValue) (path : FieldPath) : ObjectValue where
  fields := FieldValue.deleteIn path o.fields
  ascending := FieldValue.ascending_deleteIn o.ascending

/-- `Set` and `Delete`, if every value that is put in replaced the one there. -/
def put (o : ObjectValue) (path : FieldPath) (value : FieldValue)
    (hvalue : FieldValue.ascending value = true) : ObjectValue where
  fields := FieldValue.putIn path value o.fields
  ascending := FieldValue.ascending_putIn o.ascending hvalue

def take (o : ObjectValue) (path : FieldPath) : ObjectValue where
  fields := FieldValue.takeIn path o.fields
  ascending := FieldValue.ascending_takeIn o.ascending

/-- `ObjectValue::CompareTo`. -/
instance : Ord ObjectValue :=
  ⟨fun a b => compare (Document.Value.map a.fields : FieldValue) (Document.Value.map b.fields)⟩

instance : TransOrd ObjectValue where
  eq_swap {a b} := by
    have hswap : compare (Document.Value.map a.fields : FieldValue) (.map b.fields)
        = (compare (Document.Value.map b.fields : FieldValue) (.map a.fields)).swap :=
      OrientedCmp.eq_swap
    exact hswap
  isLE_trans {a b c} hab hbc := by
    have htrans : (compare (Document.Value.map a.fields : FieldValue) (.map c.fields)).isLE :=
      TransCmp.isLE_trans (b := Document.Value.map b.fields) hab hbc
    exact htrans

/-- `reference_value`, of a value that is a reference. -/
def referenceKey? : FieldValue → Option DocumentKey
  | .leaf (.reference _ key) => some key
  | _ => none

/-- A value whose maps are all in order, as a `FieldValue` is where maps are sorted maps. -/
abbrev OrderedValue := {v : FieldValue // FieldValue.ascending v = true}

/-- `Get`, with the order of what it finds. -/
def get? (o : ObjectValue) (path : FieldPath) : Option OrderedValue :=
  match h : o.get path with
  | none => none
  | some v => some ⟨v, FieldValue.ascending_getIn o.ascending h⟩

theorem map_get? (o : ObjectValue) (path : FieldPath) :
    (o.get? path).map Subtype.val = o.get path := by
  unfold get?
  split
  · next h =>
      rw [Option.map_none]
      exact h.symm
  · next h =>
      rw [Option.map_some]
      exact h.symm

instance : ObjectData ObjectValue FieldValue where
  get := get
  referenceKey? := referenceKey?
  get_congr path h := FieldValue.getIn_congr path h

/-- **What is at every path after a value was put in.** -/
theorem get_put (o : ObjectValue) {p : FieldPath} (hp : p ≠ []) {v : FieldValue}
    (hv : FieldValue.ascending v = true) :
    (∀ rest, (o.put p v hv).get (p ++ rest) = FieldValue.getIn rest v)
      ∧ (∀ r, ¬ p <+: r → ¬ r <+: p → (o.put p v hv).get r = o.get r)
      ∧ ∀ r, r <+: p → r ≠ p → ∃ inner, (o.put p v hv).get r = some (.map inner) :=
  ⟨fun rest => FieldValue.getIn_putIn_below o.ascending hp rest,
    fun _ hpr hrp => FieldValue.getIn_putIn_beside o.ascending hpr hrp,
    fun _ hrp hne => FieldValue.getIn_putIn_above o.ascending hrp hne⟩

/-- **What is at every path after one was taken out.** -/
theorem get_take (o : ObjectValue) {p : FieldPath} (hp : p ≠ []) :
    (∀ rest, (o.take p).get (p ++ rest) = none)
      ∧ (∀ r, ¬ p <+: r → ¬ r <+: p → (o.take p).get r = o.get r)
      ∧ ∀ r, r <+: p → r ≠ p →
          ((o.take p).get r).map FieldValue.type = (o.get r).map FieldValue.type :=
  ⟨fun rest => FieldValue.getIn_takeIn_below o.ascending hp rest,
    fun _ hpr hrp => FieldValue.getIn_takeIn_beside o.ascending hpr hrp,
    fun _ hrp hne => FieldValue.getIn_takeIn_above o.ascending hrp hne⟩

theorem put_eq_self {o : ObjectValue} {p : FieldPath} {v : FieldValue}
    (hv : FieldValue.ascending v = true) (h : o.get p = some v) : o.put p v hv = o := by
  obtain ⟨fields, hfields⟩ := o
  simp only [put, ObjectValue.mk.injEq]
  exact FieldValue.putIn_eq_self hfields h

theorem take_eq_self {o : ObjectValue} {p : FieldPath} (h : o.get p = none) : o.take p = o := by
  obtain ⟨fields, hfields⟩ := o
  simp only [take, ObjectValue.mk.injEq]
  exact FieldValue.takeIn_eq_self hfields h

end ObjectValue

end FreeFood.Firestore
