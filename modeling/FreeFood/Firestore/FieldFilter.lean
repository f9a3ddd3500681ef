/-
`core/field_filter.h` and the filters under it.

A query with an inequality is ordered by the field of it, and `OrderBy::Compare` asserts that
every document has the fields it is ordered by. What keeps that is in the filters: all of them
but those on the key find no document that does not have their field, `!=` and `not-in` with
the rest (`order_fields_exist`).
-/
import FreeFood.Firestore.FeedQuery

set_option autoImplicit false

namespace FreeFood.Firestore

open Std

/-! ## 1. The filters -/

/-- `Filter::Operator`. -/
inductive Operator where
  | lessThan
  | lessThanOrEqual
  | equal
  | notEqual
  | greaterThanOrEqual
  | greaterThan
  | arrayContains
  | in
  | arrayContainsAny
  | notIn
deriving DecidableEq

namespace Operator

/-- `IsArrayOperator`. -/
def isArrayOperator (op : Operator) : Bool := op == arrayContains || op == arrayContainsAny

/-- The operators that `MatchesComparison` is for. -/
def isComparison (op : Operator) : Bool :=
  !op.isArrayOperator && op != .in && op != notIn

/-- `MatchesComparison`. The source fails with the operators that are left, which no filter
has that gets here (`compares_of_create`). -/
def matchesComparison (op : Operator) (comparison : Ordering) : Bool :=
  match op with
  | lessThan => comparison == .lt
  | lessThanOrEqual => comparison == .lt || comparison == .eq
  | equal => comparison == .eq
  | greaterThanOrEqual => comparison == .gt || comparison == .eq
  | greaterThan => comparison == .gt
  | notEqual => comparison != .eq
  | _ => false

theorem isComparison_of_ne {op : Operator} (hcontains : op ≠ arrayContains) (hin : op ≠ .in)
    (hany : op ≠ arrayContainsAny) (hnotIn : op ≠ notIn) : op.isComparison = true := by
  cases op with
  | arrayContains => exact absurd rfl hcontains
  | «in» => exact absurd rfl hin
  | arrayContainsAny => exact absurd rfl hany
  | notIn => exact absurd rfl hnotIn
  | lessThan => rfl
  | lessThanOrEqual => rfl
  | equal => rfl
  | notEqual => rfl
  | greaterThanOrEqual => rfl
  | greaterThan => rfl

end Operator

/-- `FieldFilter`, by its classes. -/
inductive FieldFilter where
  | comparison (field : FieldPath) (op : Operator) (value : FieldValue)
  | arrayContains (field : FieldPath) (value : FieldValue)
  | in (field : FieldPath) (values : List FieldValue)
  | arrayContainsAny (field : FieldPath) (values : List FieldValue)
  | notIn (field : FieldPath) (values : List FieldValue)
  | key (op : Operator) (key : DocumentKey)
  | keyIn (keys : List DocumentKey)
  | keyNotIn (keys : List DocumentKey)

namespace FieldFilter

/-- `is_nan`. -/
def isNaN : FieldValue → Bool
  | .leaf (.double d) => d.isNaN
  | _ => false

/-- `FieldFilter::Create`, `none` where it throws or an assertion fails. -/
def create (path : FieldPath) (op : Operator) (value : FieldValue) : Option FieldFilter :=
  if path = keyFieldPath then
    match op, value with
    | .in, .array values => (values.mapM ObjectValue.referenceKey?).map keyIn
    | .notIn, .array values => (values.mapM ObjectValue.referenceKey?).map keyNotIn
    | .in, _ => none
    | .notIn, _ => none
    | op, value =>
        if op.isArrayOperator then none else (ObjectValue.referenceKey? value).map (key op)
  else if FieldValue.type value == .null || isNaN value then
    if op == .equal || op == .notEqual then some (comparison path op value) else none
  else
    match op, value with
    | .arrayContains, value => some (arrayContains path value)
    | .in, .array values => some (.in path values)
    | .arrayContainsAny, .array values => some (arrayContainsAny path values)
    | .notIn, .array values => some (notIn path values)
    | .in, _ => none
    | .arrayContainsAny, _ => none
    | .notIn, _ => none
    | op, value => some (comparison path op value)

/-- `field`. -/
def field : FieldFilter → FieldPath
  | comparison path _ _ => path
  | arrayContains path _ => path
  | .in path _ => path
  | arrayContainsAny path _ => path
  | notIn path _ => path
  | key _ _ => keyFieldPath
  | keyIn _ => keyFieldPath
  | keyNotIn _ => keyFieldPath

/-- The operator. -/
def op : FieldFilter → Operator
  | comparison _ op _ => op
  | arrayContains _ _ => .arrayContains
  | .in _ _ => .in
  | arrayContainsAny _ _ => .arrayContainsAny
  | notIn _ _ => .notIn
  | key op _ => op
  | keyIn _ => .in
  | keyNotIn _ => .notIn

/-- `IsInequality`. -/
def isInequality (f : FieldFilter) : Bool :=
  f.op == .lessThan || f.op == .lessThanOrEqual || f.op == .greaterThan ||
    f.op == .greaterThanOrEqual || f.op == .notEqual || f.op == .notIn

/-- `absl::c_linear_search`. -/
def linearSearch (values : List FieldValue) (value : FieldValue) : Bool :=
  values.any fun v => v.equals value

/-- `FieldFilter::Rep::Matches`, of a document that has the field. -/
def matchesValue (op : Operator) (value lhs : FieldValue) : Bool :=
  if op = .notEqual then op.matchesComparison (lhs.compareTo value)
  else (FieldValue.type lhs).comparable (FieldValue.type value)
    && op.matchesComparison (lhs.compareTo value)

/-- `Matches`. -/
def matchesDocument (f : FieldFilter) (doc : Document ObjectValue) : Bool :=
  match f with
  | comparison path op value => (doc.field path).any (matchesValue op value)
  | arrayContains path value =>
      match doc.field path with
      | some (.array contents) => linearSearch contents value
      | _ => false
  | .in path values => (doc.field path).any (linearSearch values)
  | arrayContainsAny path values =>
      match doc.field path with
      | some (.array contents) => contents.any (linearSearch values)
      | _ => false
  | notIn path values =>
      if linearSearch values (.leaf .null) then false
      else (doc.field path).any fun lhs => !linearSearch values lhs
  | key op rhsKey => op.matchesComparison (compareKeys doc.key rhsKey)
  | keyIn keys => keys.any fun rhs => doc.key == rhs
  | keyNotIn keys => !keys.any fun rhs => doc.key == rhs

/-! ## 2. What they ask of a document -/

variable {f : FieldFilter} {doc doc' : Document ObjectValue}

theorem isSome_of_any {α : Type} {p : α → Bool} {a : Option α} (h : a.any p = true) :
    a.isSome = true := by
  cases a with
  | none => cases h
  | some a => rfl

/-- **A filter on a field finds documents that have it.** -/
theorem field_isSome (h : f.matchesDocument doc = true) (hkey : f.field ≠ keyFieldPath) :
    (doc.field f.field).isSome = true := by
  cases f with
  | comparison path op value => exact isSome_of_any h
  | arrayContains path value =>
      rw [matchesDocument] at h
      split at h
      · next hfield =>
          rw [field, hfield]
          rfl
      · cases h
  | «in» path values => exact isSome_of_any h
  | arrayContainsAny path values =>
      rw [matchesDocument] at h
      split at h
      · next hfield =>
          rw [field, hfield]
          rfl
      · cases h
  | notIn path values =>
      rw [matchesDocument] at h
      split at h
      · cases h
      · exact isSome_of_any h
  | key op rhsKey => exact absurd rfl hkey
  | keyIn keys => exact absurd rfl hkey
  | keyNotIn keys => exact absurd rfl hkey

/-- A filter as a query has it. -/
def toFilter (f : FieldFilter) : Filter ObjectValue where
  field := f.field
  isInequality := f.isInequality
  accepts := f.matchesDocument
  field_isSome _ h hkey := field_isSome h hkey

/-- Filters that compare do it by an operator that `MatchesComparison` is for. -/
def Compares : FieldFilter → Prop
  | comparison _ op _ => op.isComparison = true
  | key op _ => op.isComparison = true
  | _ => True

/-- **No filter that is created fails in `MatchesComparison`.** -/
theorem compares_of_create {path : FieldPath} {op : Operator} {value : FieldValue}
    (h : create path op value = some f) : f.Compares := by
  unfold create at h
  split at h
  -- On the key, where the array operators are an assertion's.
  · split at h
    · obtain ⟨keys, -, rfl⟩ := Option.map_eq_some_iff.mp h
      trivial
    · obtain ⟨keys, -, rfl⟩ := Option.map_eq_some_iff.mp h
      trivial
    · cases h
    · cases h
    · next hin hnotIn _ _ =>
        split at h
        · cases h
        · next harray =>
            obtain ⟨key, -, rfl⟩ := Option.map_eq_some_iff.mp h
            rw [Operator.isArrayOperator, Bool.or_eq_true, beq_iff_eq, beq_iff_eq] at harray
            exact Operator.isComparison_of_ne (fun hop => harray (.inl hop)) hin
              (fun hop => harray (.inr hop)) hnotIn
  -- On a field. Null and NaN have the two operators that ask whether values are the same.
  · split at h
    · split at h
      · next hop =>
          rw [Bool.or_eq_true, beq_iff_eq, beq_iff_eq] at hop
          cases h
          rcases hop with rfl | rfl <;> rfl
      · cases h
    · split at h <;> cases h
      · trivial
      · trivial
      · trivial
      · trivial
      · next hcontains hin hany hnotIn _ _ _ =>
          exact Operator.isComparison_of_ne hcontains hin hany hnotIn

/-- Filters that go by the order of values, and those on the key. -/
def GoesByOrder : FieldFilter → Prop
  | comparison _ _ _ => True
  | key _ _ => True
  | keyIn _ => True
  | keyNotIn _ => True
  | _ => False

theorem comparable_leaf_congr {a b : SimpleValue} (h : a.compareTo b = .eq) (type : FieldType) :
    a.type.comparable type = b.type.comparable type := by
  cases a <;> cases b <;> first | rfl | cases h

/-- Values that compare the same are of types that are comparable to the same types. -/
theorem comparable_congr {v w : FieldValue} (h : v.compareTo w = .eq) (type : FieldType) :
    (FieldValue.type v).comparable type = (FieldValue.type w).comparable type := by
  cases v with
  | leaf a =>
      cases w with
      | leaf b => exact comparable_leaf_congr h type
      | array ws => exact absurd ((FieldValue.compareTypes_leaf a).1.symm.trans h) (by decide)
      | map l => exact absurd ((FieldValue.compareTypes_leaf a).2.1.symm.trans h) (by decide)
  | array vs =>
      cases w with
      | leaf b => exact absurd ((FieldValue.compareTypes_leaf b).2.2.1.symm.trans h) (by decide)
      | array ws => rfl
      | map l => cases h
  | map l =>
      cases w with
      | leaf b => exact absurd ((FieldValue.compareTypes_leaf b).2.2.2.symm.trans h) (by decide)
      | array ws => cases h
      | map l' => rfl

theorem matchesValue_congr (op : Operator) (value : FieldValue) {v w : FieldValue}
    (h : v.compareTo w = .eq) : matchesValue op value v = matchesValue op value w := by
  have hcompare : v.compareTo value = w.compareTo value := TransCmp.congr_left h
  rw [matchesValue, matchesValue, hcompare, comparable_congr h]

/-- **A filter that goes by the order of values finds documents of one key alike whose data
compares the same.** The others tell 1 from 1.0. -/
theorem matchesDocument_congr (hf : f.GoesByOrder) (hkey : doc.key = doc'.key)
    (hdata : compare doc.data doc'.data = .eq) :
    f.matchesDocument doc = f.matchesDocument doc' := by
  cases f with
  | comparison path op value =>
      have hfield : compare (doc.field path) (doc'.field path) = .eq :=
        ObjectData.get_congr path hdata
      rw [matchesDocument, matchesDocument]
      cases h : doc.field path with
      | none =>
          cases h' : doc'.field path with
          | none => rfl
          | some w =>
              rw [h, h'] at hfield
              cases hfield
      | some v =>
          cases h' : doc'.field path with
          | none =>
              rw [h, h'] at hfield
              cases hfield
          | some w =>
              rw [h, h'] at hfield
              exact matchesValue_congr op value hfield
  | key op rhsKey =>
      rw [matchesDocument, matchesDocument]
      rw [hkey]
  | keyIn keys =>
      rw [matchesDocument, matchesDocument]
      rw [hkey]
  | keyNotIn keys =>
      rw [matchesDocument, matchesDocument]
      rw [hkey]
  | arrayContains path value => exact hf.elim
  | «in» path values => exact hf.elim
  | arrayContainsAny path values => exact hf.elim
  | notIn path values => exact hf.elim

/-! ## 3. The orders of a query -/

/-- **The fields that a query is ordered by exist**, in every document that has the fields of
the orders asked for and that the filters find, before any bound is looked at. -/
theorem order_fields_exist {q : Query ObjectValue} {filters : List FieldFilter}
    (hfilters : q.filters = filters.map toFilter) (horder : q.matchesOrderBy doc = true)
    (hmatches : ∀ f ∈ filters, f.matchesDocument doc = true) {o : OrderBy} (ho : o ∈ q.orderBys)
    (hkey : o.field ≠ keyFieldPath) : (doc.field o.field).isSome = true := by
  refine Query.field_isSome horder ?_ ho hkey
  rw [Query.matchesFilters, hfilters, List.all_map, List.all_eq_true]
  exact hmatches

/-- The submissions that have a time. -/
def timedFilter : FieldFilter := comparison ["dateCreated"] .notEqual (.leaf .null)

/-- The query of them. It is ordered by the time, as it has an inequality there. -/
def timedQuery : Query ObjectValue where
  path := ["Food Submissions"]
  collectionGroup := none
  filters := [timedFilter.toFilter]
  explicitOrderBys := []
  limit := kNoLimit
  limitType := .none
  startAt := none
  endAt := none
  firstOrderBy _ _ _ ho := absurd ho (Option.not_mem_none _)

/-- The filter is one that is created, and a submission has the field that it orders by. -/
theorem order_fields_exist_submission :
    create ["dateCreated"] .notEqual (.leaf .null) = some timedFilter
      ∧ ((submission "pizza" 5 .synced).field ["dateCreated"]).isSome = true := by
  have hmatches : ∀ f ∈ [timedFilter],
      f.matchesDocument (submission "pizza" 5 .synced) = true := by decide +kernel
  have horder : (⟨["dateCreated"], .ascending⟩ : OrderBy) ∈ timedQuery.orderBys := by decide
  exact ⟨rfl, order_fields_exist (q := timedQuery) rfl rfl hmatches horder (by decide)⟩

end FieldFilter

end FreeFood.Firestore
