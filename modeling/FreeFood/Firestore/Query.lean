/-
`core/query.h`, `core/order_by.h` and `core/bound.h`: what a query asks of a document and
the order it reads documents in.

A query's order is made of the orders asked for and of those the SDK adds: the field of
an inequality, and the key. With the key in it, no two documents of different keys
compare the same, which is what a `DocumentSet` needs of its comparator. `OrderBy` asserts
that the documents it compares have its field; that is a fact about what `Query` matches,
and `field_isSome` below is its proof.
-/
import FreeFood.Firestore.DocumentSet

set_option autoImplicit false

namespace FreeFood.Firestore

open Std

/-! ## 1. What is read of a document -/

/-- `ObjectValue::Get` and `FieldValue::reference_value`, with the comparison of values.
Objects that compare the same have fields that compare the same. -/
class ObjectData (D : Type) (V : outParam Type) [Ord D] [Ord V] where
  get : D → FieldPath → Option V
  referenceKey? : V → Option DocumentKey
  get_congr : ∀ {a b : D} (path : FieldPath), compare a b = .eq →
    compare (get a path) (get b path) = .eq

/-- `FieldPath::KeyFieldPath`. -/
def keyFieldPath : FieldPath := ["__name__"]

/-- `BasePath::IsPrefixOf`. -/
def isPrefixPath (path other : ResourcePath) : Bool := path.isPrefixOf other

/-- `BasePath::IsImmediateParentOf`. -/
def isImmediateParentOf (path child : ResourcePath) : Bool :=
  path.length + 1 == child.length && path.isPrefixOf child

/-- `DocumentKey::IsDocumentKey`. -/
def isDocumentKey (path : ResourcePath) : Bool := path.length % 2 == 0

/-- `DocumentKey::HasCollectionId`. -/
def DocumentKey.hasCollectionId (k : DocumentKey) (collectionId : String) : Bool :=
  decide (2 ≤ k.path.length) && k.path[k.path.length - 2]? == some collectionId

variable {D V : Type} [Ord D] [Ord V] [ObjectData D V]

/-- `Document::field`. -/
def Document.field (doc : Document D) (path : FieldPath) : Option V := ObjectData.get doc.data path

/-! ## 2. Orders -/

inductive Direction where
  | ascending
  | descending
deriving DecidableEq

/-- `Direction::ApplyTo`. -/
def Direction.applyTo : Direction → Ordering → Ordering
  | ascending, result => result
  | descending, result => result.swap

structure OrderBy where
  field : FieldPath
  direction : Direction
deriving DecidableEq

/-- `OrderBy::Compare`. Where the source asserts that both fields exist, a document
without the field is below. -/
def OrderBy.compare (o : OrderBy) (a b : Document D) : Ordering :=
  o.direction.applyTo
    (if o.field = keyFieldPath then compareKeys a.key b.key
     else Ord.compare (a.field o.field) (b.field o.field))

/-- The comparison that `Query::Comparator` makes of a list of orders: the first that
tells the documents apart decides. -/
def compareByOrders (orders : List OrderBy) (a b : Document D) : Ordering :=
  orders.foldr (fun o rest => (o.compare a b).then rest) .eq

theorem compareByOrders_cons (o : OrderBy) (orders : List OrderBy) :
    (compareByOrders (o :: orders) : Document D → Document D → Ordering)
      = compareLex o.compare (compareByOrders orders) := rfl

theorem compareByOrders_eq_eq_iff {orders : List OrderBy} {a b : Document D} :
    compareByOrders orders a b = .eq ↔ ∀ o ∈ orders, o.compare a b = .eq := by
  induction orders with
  | nil => simp [compareByOrders]
  | cons o orders ih =>
      rw [compareByOrders_cons, compareLex_eq_eq, ih, List.forall_mem_cons]

/-- The direction turns an order around and keeps it an order. -/
theorem transCmp_applyTo {α : Type} (d : Direction) (cmp : α → α → Ordering) [TransCmp cmp] :
    TransCmp fun a b => d.applyTo (cmp a b) := by
  cases d with
  | ascending => exact inferInstanceAs (TransCmp cmp)
  | descending =>
      have hswap : (fun a b => Direction.descending.applyTo (cmp a b)) = fun a b => cmp b a := by
        funext a b
        exact OrientedCmp.eq_swap.symm
      rw [hswap]
      infer_instance

theorem Direction.applyTo_eq_eq_iff {d : Direction} {result : Ordering} :
    d.applyTo result = .eq ↔ result = .eq := by
  cases d with
  | ascending => rfl
  | descending => exact Ordering.swap_eq_eq

section Orders

variable [TransOrd V]

instance OrderBy.transCmp (o : OrderBy) :
    TransCmp (o.compare : Document D → Document D → Ordering) := by
  by_cases hkey : o.field = keyFieldPath
  · have heq : (o.compare : Document D → Document D → Ordering)
        = fun a b => o.direction.applyTo (compareKeys a.key b.key) := by
      funext a b
      rw [OrderBy.compare, if_pos hkey]
    have hcmp : TransCmp fun a b : Document D => compareKeys a.key b.key :=
      { eq_swap := OrientedCmp.eq_swap
        isLE_trans := TransCmp.isLE_trans }
    rw [heq]
    exact transCmp_applyTo o.direction _
  · have heq : (o.compare : Document D → Document D → Ordering)
        = fun a b => o.direction.applyTo (compareOn (fun doc => doc.field o.field) a b) := by
      funext a b
      rw [OrderBy.compare, if_neg hkey, compareOn]
    rw [heq]
    exact transCmp_applyTo o.direction _

instance compareByOrders.transCmp (orders : List OrderBy) :
    TransCmp (compareByOrders orders : Document D → Document D → Ordering) := by
  induction orders with
  | nil =>
      exact { eq_swap := rfl, isLE_trans := fun _ _ => rfl }
  | cons o orders ih =>
      rw [compareByOrders_cons]
      infer_instance

omit [TransOrd V] in
/-- Where the key is among the orders, documents that compare the same have one key. -/
theorem key_eq_of_compareByOrders {orders : List OrderBy} {a b : Document D}
    (hkey : ∃ o ∈ orders, o.field = keyFieldPath) (h : compareByOrders orders a b = .eq) :
    a.key = b.key := by
  obtain ⟨o, ho, hfield⟩ := hkey
  have hsame := compareByOrders_eq_eq_iff.mp h o ho
  rw [OrderBy.compare, if_pos hfield, Direction.applyTo_eq_eq_iff] at hsame
  exact LawfulEqCmp.eq_of_compare hsame

omit [TransOrd V] in
/-- Documents of one key whose data compares the same are the same to every order. -/
theorem compareByOrders_eq_eq {orders : List OrderBy} {a b : Document D} (hkey : a.key = b.key)
    (hdata : Ord.compare a.data b.data = .eq) : compareByOrders orders a b = .eq := by
  rw [compareByOrders_eq_eq_iff]
  intro o _
  rw [OrderBy.compare, Direction.applyTo_eq_eq_iff]
  split
  · rw [hkey]
    exact ReflCmp.compare_self
  · exact ObjectData.get_congr o.field hdata

end Orders

/-! ## 3. Filters and bounds -/

/-- `Filter`, as a query sees it. A filter on a field matches documents that have it, which is
proved of each class of filters where it is made one (`FieldFilter.toFilter`). -/
structure Filter (D : Type) {V : Type} [Ord D] [Ord V] [ObjectData D V] where
  field : FieldPath
  isInequality : Bool
  accepts : Document D → Bool
  field_isSome : ∀ doc, accepts doc = true → field ≠ keyFieldPath → (doc.field field).isSome

/-- `Bound`: a position among the orders, and whether it is before what is there. -/
structure Bound (V : Type) where
  position : List V
  before : Bool

/-- The comparison in `Bound::SortsBeforeDocument` of a component with the document. The
source asserts that a component at the key is a reference and that the field exists. -/
def Bound.compareComponent (value : V) (o : OrderBy) (doc : Document D) : Ordering :=
  o.direction.applyTo
    (if o.field = keyFieldPath then
       match ObjectData.referenceKey? (D := D) value with
       | some key => compareKeys key doc.key
       | none => .lt
     else Ord.compare (some value) (doc.field o.field))

/-- `Bound::SortsBeforeDocument`. -/
def Bound.sortsBeforeDocument (b : Bound V) (orders : List OrderBy) (doc : Document D) : Bool :=
  let result := (b.position.zip orders).foldr
    (fun c rest => (compareComponent c.1 c.2 doc).then rest) .eq
  if b.before then result.isLE else result == .lt

/-! ## 4. Queries -/

inductive LimitType where
  | none
  | first
  | last
deriving DecidableEq

/-- `Target::kNoLimit`. -/
def kNoLimit : ℕ := 2147483647

/-- `InequalityFilterField`. -/
def inequalityField (filters : List (Filter D)) : Option FieldPath :=
  (filters.find? Filter.isInequality).map Filter.field

/-- `Query`. `firstOrderBy` is what `order_bys` asserts of the orders asked for. -/
structure Query (D : Type) {V : Type} [Ord D] [Ord V] [ObjectData D V] where
  path : ResourcePath
  collectionGroup : Option String
  filters : List (Filter D)
  explicitOrderBys : List OrderBy
  limit : ℕ
  limitType : LimitType
  startAt : Option (Bound V)
  endAt : Option (Bound V)
  firstOrderBy : ∀ f ∈ inequalityField filters, ∀ o ∈ explicitOrderBys.head?, f = o.field

namespace Query

def inequalityFilterField (q : Query D) : Option FieldPath := inequalityField q.filters

def firstOrderByField (q : Query D) : Option FieldPath :=
  q.explicitOrderBys.head?.map OrderBy.field

def hasLimitToFirst (q : Query D) : Bool := q.limitType == .first && q.limit != kNoLimit

def hasLimitToLast (q : Query D) : Bool := q.limitType == .last && q.limit != kNoLimit

/-- `order_bys`. -/
def orderBys (q : Query D) : List OrderBy :=
  match q.inequalityFilterField, q.firstOrderByField with
  | some field, none =>
      if field = keyFieldPath then [⟨keyFieldPath, .ascending⟩]
      else [⟨field, .ascending⟩, ⟨keyFieldPath, .ascending⟩]
  | _, _ =>
      if q.explicitOrderBys.any fun o => o.field == keyFieldPath then q.explicitOrderBys
      else q.explicitOrderBys ++
        [⟨keyFieldPath, (q.explicitOrderBys.getLast?.map OrderBy.direction).getD .ascending⟩]

/-- `Comparator`. -/
def comparator (q : Query D) : Document D → Document D → Ordering := compareByOrders q.orderBys

def matchesPathAndCollectionGroup (q : Query D) (doc : Document D) : Bool :=
  match q.collectionGroup with
  | some group => doc.key.hasCollectionId group && isPrefixPath q.path doc.key.path
  | none =>
      if isDocumentKey q.path then q.path == doc.key.path
      else isImmediateParentOf q.path doc.key.path

def matchesOrderBy (q : Query D) (doc : Document D) : Bool :=
  q.explicitOrderBys.all fun o => o.field == keyFieldPath || (doc.field o.field).isSome

def matchesFilters (q : Query D) (doc : Document D) : Bool := q.filters.all fun f => f.accepts doc

def matchesBounds (q : Query D) (doc : Document D) : Bool :=
  (q.startAt.all fun b => b.sortsBeforeDocument q.orderBys doc) &&
    q.endAt.all fun b => !b.sortsBeforeDocument q.orderBys doc

/-- `Matches`. -/
def matchesDoc (q : Query D) (doc : Document D) : Bool :=
  q.matchesPathAndCollectionGroup doc && q.matchesOrderBy doc && q.matchesFilters doc &&
    q.matchesBounds doc

/-! ## 5. The order of a query -/

/-- `Comparator` asserts that the orders have the key among them. -/
theorem exists_key_orderBy (q : Query D) : ∃ o ∈ q.orderBys, o.field = keyFieldPath := by
  unfold orderBys
  split
  · split
    · exact ⟨_, List.mem_singleton_self _, rfl⟩
    · exact ⟨_, List.mem_cons_of_mem _ (List.mem_singleton_self _), rfl⟩
  · split
    · next hany =>
        obtain ⟨o, ho, hfield⟩ := List.any_eq_true.mp hany
        exact ⟨o, ho, beq_iff_eq.mp hfield⟩
    · exact ⟨_, List.mem_append_right _ (List.mem_singleton_self _), rfl⟩

instance (q : Query D) [TransOrd V] : DocumentComparator q.comparator where
  toTransCmp := compareByOrders.transCmp q.orderBys
  key_eq h := key_eq_of_compareByOrders q.exists_key_orderBy h

/-- Data that compares the same does not move a document. -/
theorem comparator_eq_eq (q : Query D) {a b : Document D} (hkey : a.key = b.key)
    (hdata : compare a.data b.data = .eq) : q.comparator a b = .eq :=
  compareByOrders_eq_eq hkey hdata

/-- **`OrderBy::Compare` and `Bound::SortsBeforeDocument` assert that the documents have
the fields of the orders, and what passed the orders and the filters has them.** -/
theorem field_isSome {q : Query D} {doc : Document D} (horder : q.matchesOrderBy doc = true)
    (hfilters : q.matchesFilters doc = true) {o : OrderBy} (ho : o ∈ q.orderBys)
    (hkey : o.field ≠ keyFieldPath) : (doc.field o.field).isSome := by
  have hexplicit : o ∈ q.explicitOrderBys → (doc.field o.field).isSome := by
    intro hmem
    have hall := List.all_eq_true.mp horder o hmem
    rw [Bool.or_eq_true, beq_iff_eq] at hall
    exact hall.resolve_left hkey
  unfold orderBys at ho
  split at ho
  · next field hineq hfirst =>
      split at ho
      · rw [List.mem_singleton.mp ho] at hkey
        exact absurd rfl hkey
      · -- the field is that of an inequality among the filters
        rcases List.mem_cons.mp ho with rfl | hlast
        · rw [inequalityFilterField, inequalityField, Option.map_eq_some_iff] at hineq
          obtain ⟨f, hfind, hfield⟩ := hineq
          have haccepts := List.all_eq_true.mp hfilters f (List.mem_of_find?_eq_some hfind)
          have hsome := f.field_isSome doc haccepts (hfield ▸ hkey)
          rw [hfield] at hsome
          exact hsome
        · rw [List.mem_singleton.mp hlast] at hkey
          exact absurd rfl hkey
  · split at ho
    · exact hexplicit ho
    · rcases List.mem_append.mp ho with hmem | hlast
      · exact hexplicit hmem
      · rw [List.mem_singleton.mp hlast] at hkey
        exact absurd rfl hkey

/-- Documents of one key whose data compares the same are matched alike, if the filters do
not tell them apart. -/
theorem matchesDoc_congr [TransOrd V] {q : Query D} {a b : Document D} (hkey : a.key = b.key)
    (hdata : Ord.compare a.data b.data = .eq) (hfilters : q.matchesFilters a = q.matchesFilters b) :
    q.matchesDoc a = q.matchesDoc b := by
  have hfield : ∀ path, Ord.compare (a.field path) (b.field path) = .eq :=
    fun path => ObjectData.get_congr path hdata
  have hpath : q.matchesPathAndCollectionGroup a = q.matchesPathAndCollectionGroup b := by
    rw [matchesPathAndCollectionGroup, matchesPathAndCollectionGroup, hkey]
  have horder : q.matchesOrderBy a = q.matchesOrderBy b := by
    have hsome : ∀ path, (a.field path).isSome = (b.field path).isSome := by
      intro path
      have h := hfield path
      cases ha : a.field path <;> cases hb : b.field path
      · rfl
      · rw [ha, hb] at h
        cases h
      · rw [ha, hb] at h
        cases h
      · rfl
    rw [matchesOrderBy, matchesOrderBy]
    simp only [hsome]
  have hcomponent : ∀ (value : V) (o : OrderBy),
      Bound.compareComponent value o a = Bound.compareComponent value o b := by
    intro value o
    unfold Bound.compareComponent
    rw [hkey, TransCmp.congr_right (hfield o.field)]
  have hbound : ∀ bound : Bound V,
      bound.sortsBeforeDocument q.orderBys a = bound.sortsBeforeDocument q.orderBys b := by
    intro bound
    unfold Bound.sortsBeforeDocument
    simp only [hcomponent]
  rw [matchesDoc, matchesDoc, hpath, horder, hfilters, matchesBounds, matchesBounds]
  simp only [hbound]

end Query

end FreeFood.Firestore
