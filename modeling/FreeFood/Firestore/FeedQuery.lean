/-
The query of `FoodEventViewModel.fetchData`, as the SDK has it: the documents of one
collection that have a `dateCreated`, the latest first.

`order(by:descending:)` asks for one order. The SDK adds the key to it, in the same
direction, so that two submissions of one time have places of their own as well.
-/
import FreeFood.Firestore.ObjectValue

set_option autoImplicit false

namespace FreeFood.Firestore

open Std

/-- `db.collection("Food Submissions").order(by: "dateCreated", descending: true)`. -/
def feedQuery : Query ObjectValue where
  path := ["Food Submissions"]
  collectionGroup := none
  filters := []
  explicitOrderBys := [⟨["dateCreated"], .descending⟩]
  limit := kNoLimit
  limitType := .none
  startAt := none
  endAt := none
  firstOrderBy _ hf := nomatch hf

/-- What the feed orders its documents by. -/
def Document.dateCreated (doc : Document ObjectValue) : Option FieldValue := doc.field ["dateCreated"]

/-- **What the feed shows**: the documents right in the collection that have the field. -/
theorem matchesDoc_feedQuery_iff (doc : Document ObjectValue) :
    feedQuery.matchesDoc doc = true ↔
      (∃ id, doc.key.path = ["Food Submissions", id]) ∧ doc.dateCreated.isSome := by
  have hbounds : feedQuery.matchesBounds doc = true := rfl
  have hfilters : feedQuery.matchesFilters doc = true := rfl
  have horder : feedQuery.matchesOrderBy doc = doc.dateCreated.isSome := by
    have hfield : ((["dateCreated"] : FieldPath) == keyFieldPath) = false := by decide
    rw [Query.matchesOrderBy, feedQuery, List.all_cons, List.all_nil, Bool.and_true, hfield,
      Bool.false_or]
    rfl
  have hpath : feedQuery.matchesPathAndCollectionGroup doc = true ↔
      ∃ id, doc.key.path = ["Food Submissions", id] := by
    have hparent : feedQuery.matchesPathAndCollectionGroup doc
        = isImmediateParentOf ["Food Submissions"] doc.key.path := rfl
    rw [hparent, isImmediateParentOf, Bool.and_eq_true, beq_iff_eq, List.isPrefixOf_iff_prefix]
    constructor
    · rintro ⟨hlength, rest, hrest⟩
      rw [← hrest, List.length_append] at hlength
      obtain ⟨id, rfl⟩ := List.length_eq_one_iff.mp (Nat.add_left_cancel hlength).symm
      exact ⟨id, hrest.symm⟩
    · rintro ⟨id, hid⟩
      rw [hid]
      exact ⟨rfl, [id], rfl⟩
  rw [Query.matchesDoc, hbounds, hfilters, horder, Bool.and_true, Bool.and_true, Bool.and_eq_true,
    hpath]

/-- The feed compares times first and keys where the times are the same, both backwards. -/
theorem comparator_feedQuery (a b : Document ObjectValue) :
    feedQuery.comparator a b
      = (compare a.dateCreated b.dateCreated).swap.then (compareKeys a.key b.key).swap := by
  have horders : feedQuery.orderBys
      = [⟨["dateCreated"], .descending⟩, ⟨keyFieldPath, .descending⟩] := by decide
  have hfield : ¬ (["dateCreated"] : FieldPath) = keyFieldPath := by decide
  rw [Query.comparator, horders, compareByOrders, List.foldr_cons, List.foldr_cons, List.foldr_nil,
    OrderBy.compare, OrderBy.compare, if_neg hfield, if_pos rfl, Ordering.then_eq]
  rfl

/-- A submission as the SDK has it, of the time that it is given. -/
def submission (id : String) (seconds : Int64) (state : DocumentState) : Document ObjectValue where
  key := ⟨["Food Submissions", id], Nat.mod_self 2⟩
  version := 1
  data := ⟨[("dateCreated", .leaf (.timestamp ⟨seconds, 0⟩))], rfl⟩
  state := state

/-- Two submissions that the backend has sent. -/
def twoSubmissions : List (Document ObjectValue) :=
  [submission "pizza" 5 .synced, submission "salad" 3 .synced]

end FreeFood.Firestore
