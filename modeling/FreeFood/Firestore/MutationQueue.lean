/-
`local/memory_mutation_queue.h` and `local/document_key_reference.h`: the writes that the
backend has not answered yet.

The batches are in a vector, and found by their position: their ids are consecutive. Beside
it is an ordered index of pairs of a document and the id of a batch that mutates it, which is
scanned for one document or for the documents of a collection. `lookups_exact` says of every
run that what is found is what a walk through the whole vector would find, and that the
queue answers in order: a batch leaves it at its head only.
-/
import FreeFood.Firestore.Mutation
import FreeFood.Lib.Transition
import Mathlib.Data.List.Sort

set_option autoImplicit false

namespace FreeFood.Firestore

open Std OrderedList Transition

/-! ## 1. References -/

/-- `DocumentKeyReference`. -/
structure DocumentKeyReference where
  key : DocumentKey
  refId : ℤ
deriving DecidableEq

namespace DocumentKeyReference

/-- `ByKey`: by key, and by id under one key. -/
def compareByKey : DocumentKeyReference → DocumentKeyReference → Ordering :=
  compareLex (fun a b => compareKeys a.key b.key) fun a b => compare a.refId b.refId

instance : TransCmp compareByKey := by
  have hkey : TransCmp fun a b : DocumentKeyReference => compareKeys a.key b.key :=
    Document.transCmp_comap key compareKeys
  have hid : TransCmp fun a b : DocumentKeyReference => compare a.refId b.refId :=
    Document.transCmp_comap refId compare
  unfold compareByKey
  infer_instance

theorem compareByKey_eq (a b : DocumentKeyReference) :
    compareByKey a b = (compareKeys a.key b.key).then (compare a.refId b.refId) := rfl

instance : LawfulEqCmp compareByKey where
  compare_self := ReflCmp.compare_self
  eq_of_compare {a b} h := by
    obtain ⟨hkey, hid⟩ := compareLex_eq_eq.mp h
    obtain ⟨ka, ia⟩ := a
    obtain ⟨kb, ib⟩ := b
    rw [DocumentKeyReference.mk.injEq]
    exact ⟨LawfulEqCmp.eq_of_compare hkey, Std.compare_eq_iff_eq.mp hid⟩

end DocumentKeyReference

/-- `DocumentKeyReferenceSet`. -/
abbrev DocumentKeyReferenceSet :=
  SortedMap DocumentKeyReference Unit DocumentKeyReference.compareByKey

/-- `std::set<BatchId>`. -/
abbrev BatchIdSet := SortedMap ℤ Unit compare

/-- `kBatchIdUnknown`. -/
def kBatchIdUnknown : ℤ := -1

/-! ## 2. The queue -/

/-- `MemoryMutationQueue`. A `BatchId` has 32 bits, and the ids of a client do not come near
the end of them: here they are all integers. -/
structure MutationQueue where
  queue : List MutationBatch
  nextBatchId : ℤ
  batchesByDocumentKey : DocumentKeyReferenceSet

namespace MutationQueue

protected def empty : MutationQueue := ⟨[], 1, SortedMap.empty⟩

def isEmpty (q : MutationQueue) : Bool := q.queue.isEmpty

/-- `Start`, of a queue that may have been used before. -/
def start (q : MutationQueue) : MutationQueue :=
  if q.isEmpty then { q with nextBatchId := 1 } else q

/-- The index with the references of a batch. -/
def addReferences (refs : DocumentKeyReferenceSet) (batch : MutationBatch) :
    DocumentKeyReferenceSet :=
  batch.mutations.foldl (fun refs m => refs.insert ⟨m.key, batch.batchId⟩ ()) refs

/-- The index without them. -/
def removeReferences (refs : DocumentKeyReferenceSet) (batch : MutationBatch) :
    DocumentKeyReferenceSet :=
  batch.mutations.foldl (fun refs m => refs.erase ⟨m.key, batch.batchId⟩) refs

/-- `AddMutationBatch`, which asserts that ids increase. -/
def addMutationBatch (q : MutationQueue) (localWriteTime : Timestamp)
    (baseMutations mutations : List Mutation) (nonempty : mutations ≠ [])
    (based : ∀ b ∈ baseMutations, ∃ m ∈ mutations, m.key = b.key) :
    Option (MutationBatch × MutationQueue) :=
  let batch : MutationBatch :=
    ⟨q.nextBatchId, localWriteTime, baseMutations, mutations, nonempty, based⟩
  if q.queue.getLast?.all fun prior => decide (prior.batchId < batch.batchId) then
    some (batch, ⟨q.queue ++ [batch], q.nextBatchId + 1,
      addReferences q.batchesByDocumentKey batch⟩)
  else none

/-- `AcknowledgeBatch`: only what it asserts, since the stream token is not kept here. -/
def acknowledgeBatch (q : MutationQueue) (batch : MutationBatch) : Bool :=
  q.queue.head?.any fun check => check.batchId == batch.batchId

/-- `RemoveMutationBatch`, which asserts that the batch is the first one. -/
def removeMutationBatch (q : MutationQueue) (batch : MutationBatch) : Option MutationQueue :=
  match q.queue with
  | [] => none
  | head :: rest =>
      if head.batchId = batch.batchId then
        some ⟨rest, q.nextBatchId, removeReferences q.batchesByDocumentKey batch⟩
      else none

/-- `IndexOfBatchId`, which may be before the queue or past it. -/
def indexOfBatchId (q : MutationQueue) (batchId : ℤ) : ℤ :=
  match q.queue.head? with
  | none => 0
  | some first => batchId - first.batchId

/-- `LookupMutationBatch`. That what is found has the id is asserted there, and is
`lookup_eq_some_iff` here. -/
def lookupMutationBatch (q : MutationQueue) (batchId : ℤ) : Option MutationBatch :=
  if q.isEmpty then none
  else if q.indexOfBatchId batchId < 0 then none
  else q.queue[(q.indexOfBatchId batchId).toNat]?

/-- `AllMutationBatchesWithIds`. -/
def allMutationBatchesWithIds (q : MutationQueue) (batchIds : BatchIdSet) : List MutationBatch :=
  (batchIds.toList.map Prod.fst).filterMap q.lookupMutationBatch

/-- What a scan of the index reads of one document. -/
def referencesOf (q : MutationQueue) (k : DocumentKey) : List DocumentKeyReference :=
  ((q.batchesByDocumentKey.entriesFrom ⟨k, 0⟩).takeWhile fun e => e.1.key == k).map Prod.fst

/-- `AllMutationBatchesAffectingDocumentKey`. That each reference has its batch is asserted
there. -/
def allMutationBatchesAffectingDocumentKey (q : MutationQueue) (k : DocumentKey) :
    List MutationBatch :=
  (q.referencesOf k).filterMap fun reference => q.lookupMutationBatch reference.refId

/-- The ids of some references. -/
def batchIdsOf (references : List DocumentKeyReference) : BatchIdSet :=
  references.foldl (fun ids reference => ids.insert reference.refId ()) SortedMap.empty

/-- `AllMutationBatchesAffectingDocumentKeys`. -/
def allMutationBatchesAffectingDocumentKeys (q : MutationQueue) (keys : DocumentKeySet) :
    List MutationBatch :=
  q.allMutationBatchesWithIds
    (batchIdsOf ((keys.toList.map Prod.fst).flatMap q.referencesOf))

/-- The key that a scan for the documents of a query starts at. The empty segment comes
before all others. -/
def startKey (path : ResourcePath) : DocumentKey :=
  if h : path.length % 2 = 0 then ⟨path, h⟩
  else ⟨path ++ [""], by rw [List.length_append, List.length_singleton]; omega⟩

/-- What a scan of the index reads of the immediate children of a path. -/
def referencesBelow (q : MutationQueue) (path : ResourcePath) : List DocumentKeyReference :=
  (((q.batchesByDocumentKey.entriesFrom ⟨startKey path, 0⟩).takeWhile fun e =>
    isPrefixPath path e.1.key.path).map Prod.fst).filter fun reference =>
      -- rows more than one segment longer are passed over
      reference.key.path.length == path.length + 1

/-- `AllMutationBatchesAffectingQuery`, of the path of a query that is not asked of a
collection group. -/
def allMutationBatchesAffectingQuery (q : MutationQueue) (path : ResourcePath) :
    List MutationBatch :=
  q.allMutationBatchesWithIds (batchIdsOf (q.referencesBelow path))

/-- `NextMutationBatchAfterBatchId`. -/
def nextMutationBatchAfterBatchId (q : MutationQueue) (batchId : ℤ) : Option MutationBatch :=
  -- what is before the queue is as good as its start
  q.queue[(q.indexOfBatchId (batchId + 1)).toNat]?

/-- `GetHighestUnacknowledgedBatchId`. -/
def getHighestUnacknowledgedBatchId (q : MutationQueue) : ℤ :=
  if q.isEmpty then kBatchIdUnknown else q.nextBatchId - 1

/-- `ContainsKey`. -/
def containsKey (q : MutationQueue) (k : DocumentKey) : Bool :=
  (q.batchesByDocumentKey.entriesFrom ⟨k, 0⟩).head?.any fun e => e.1.key == k

/-- What `PerformConsistencyCheck` asserts. -/
def performConsistencyCheck (q : MutationQueue) : Bool :=
  !q.isEmpty || q.batchesByDocumentKey.isEmpty

/-! ## 3. What is true of a queue -/

/-- The ids are consecutive and positive and end before the next one, and the index has what
the batches mutate. -/
structure Valid (q : MutationQueue) : Prop where
  numbered : ∀ (i : ℕ) (b : MutationBatch), q.queue[i]? = some b →
    b.batchId = q.nextBatchId - q.queue.length + i
  positive : (q.queue.length : ℤ) < q.nextBatchId
  indexed : ∀ k id, q.batchesByDocumentKey.contains ⟨k, id⟩ = true
    ↔ ∃ b ∈ q.queue, b.batchId = id ∧ b.mutates k = true

variable {q : MutationQueue}

theorem valid_empty : Valid MutationQueue.empty where
  numbered := by
    intro i b h
    cases h
  positive := by decide
  indexed := by
    intro k id
    rw [SortedMap.contains_eq]
    constructor
    · intro h
      cases h
    · rintro ⟨b, hb, -⟩
      cases hb

theorem Valid.batchId_pos (h : Valid q) {b : MutationBatch} (hb : b ∈ q.queue) : 0 < b.batchId := by
  obtain ⟨i, hi⟩ := List.mem_iff_getElem?.mp hb
  have hid := h.numbered i b hi
  have hpos := h.positive
  omega

theorem Valid.batchId_lt (h : Valid q) {b : MutationBatch} (hb : b ∈ q.queue) :
    b.batchId < q.nextBatchId := by
  obtain ⟨i, hi⟩ := List.mem_iff_getElem?.mp hb
  have hid := h.numbered i b hi
  have hlt : i < q.queue.length := (List.getElem?_eq_some_iff.mp hi).1
  omega

/-- No two batches have one id. -/
theorem Valid.eq_of_batchId (h : Valid q) {b b' : MutationBatch} (hb : b ∈ q.queue)
    (hb' : b' ∈ q.queue) (hid : b.batchId = b'.batchId) : b = b' := by
  obtain ⟨i, hi⟩ := List.mem_iff_getElem?.mp hb
  obtain ⟨j, hj⟩ := List.mem_iff_getElem?.mp hb'
  have hib := h.numbered i b hi
  have hjb := h.numbered j b' hj
  have hij : i = j := by omega
  rw [hij, hj] at hi
  exact (Option.some.inj hi).symm

theorem Valid.ascending (h : Valid q) :
    q.queue.Pairwise fun a b => a.batchId < b.batchId := by
  rw [List.pairwise_iff_getElem]
  intro i j hi hj hij
  have hib := h.numbered i _ (List.getElem?_eq_getElem hi)
  have hjb := h.numbered j _ (List.getElem?_eq_getElem hj)
  omega

/-- The arithmetic of `IndexOfBatchId`. -/
theorem Valid.indexOfBatchId (h : Valid q) (hne : q.queue ≠ []) (id : ℤ) :
    q.indexOfBatchId id = id - (q.nextBatchId - q.queue.length) := by
  unfold MutationQueue.indexOfBatchId
  cases hqueue : q.queue with
  | nil => exact absurd hqueue hne
  | cons head rest =>
      have hhead := h.numbered 0 head (by rw [hqueue]; rfl)
      rw [List.head?_cons]
      dsimp only
      rw [hqueue] at hhead
      omega

/-- **`LookupMutationBatch` finds a batch by its id.** -/
theorem Valid.lookup_eq_some_iff (h : Valid q) {id : ℤ} {b : MutationBatch} :
    q.lookupMutationBatch id = some b ↔ b ∈ q.queue ∧ b.batchId = id := by
  unfold lookupMutationBatch isEmpty
  by_cases hne : q.queue = []
  · simp [hne]
  · have hindex := h.indexOfBatchId hne id
    have hempty : ¬ q.queue.isEmpty = true := fun he => hne (List.isEmpty_iff.mp he)
    rw [if_neg hempty]
    constructor
    · intro hb
      split at hb
      · cases hb
      · next hnonneg =>
          have hid := h.numbered _ b hb
          refine ⟨List.mem_of_getElem? hb, ?_⟩
          omega
    · rintro ⟨hb, hid⟩
      obtain ⟨i, hi⟩ := List.mem_iff_getElem?.mp hb
      -- ids are consecutive, so the distance from the first one is the index
      have hib := h.numbered i b hi
      have hi' : q.indexOfBatchId id = i := by omega
      rw [hi', if_neg (by omega), Int.toNat_natCast, hi]

/-! ## 4. Lookups -/

/-- Batches that are looked up in the order of their ids are those of the queue, in its
order. -/
theorem Valid.filterMap_lookup (h : Valid q) {ids : List ℤ} (hids : ids.Pairwise (· < ·)) :
    ids.filterMap q.lookupMutationBatch = q.queue.filter fun b => decide (b.batchId ∈ ids) := by
  have hirrefl : Std.Irrefl fun a b : MutationBatch => a.batchId < b.batchId :=
    ⟨fun a => lt_irrefl a.batchId⟩
  have hantisymm : Std.Antisymm fun a b : MutationBatch => a.batchId < b.batchId :=
    ⟨fun a b hab hba => absurd hab (lt_asymm hba)⟩
  -- both lists ascend, so it is enough that they have the same batches
  refine List.Pairwise.eq_of_mem_iff (r := fun a b : MutationBatch => a.batchId < b.batchId)
    ?_ (h.ascending.sublist List.filter_sublist) fun b => ?_
  · rw [List.pairwise_filterMap]
    refine hids.imp ?_
    intro id id' hlt b hb b' hb'
    rw [(h.lookup_eq_some_iff.mp hb).2, (h.lookup_eq_some_iff.mp hb').2]
    exact hlt
  · rw [List.mem_filterMap, List.mem_filter, decide_eq_true_iff]
    constructor
    · rintro ⟨id, hid, hb⟩
      obtain ⟨hmem, rfl⟩ := h.lookup_eq_some_iff.mp hb
      exact ⟨hmem, hid⟩
    · rintro ⟨hmem, hid⟩
      exact ⟨b.batchId, hid, h.lookup_eq_some_iff.mpr ⟨hmem, rfl⟩⟩

theorem Valid.allMutationBatchesWithIds (h : Valid q) (ids : BatchIdSet) :
    q.allMutationBatchesWithIds ids = q.queue.filter fun b => ids.contains b.batchId := by
  have hascending : (ids.toList.map Prod.fst).Pairwise (· < ·) := by
    rw [List.pairwise_map]
    exact ids.sorted.imp fun hlt => Std.compare_eq_lt.mp hlt
  rw [MutationQueue.allMutationBatchesWithIds, h.filterMap_lookup hascending]
  refine List.filter_congr fun b _ => ?_
  rw [Bool.eq_iff_iff, decide_eq_true_iff, SortedMap.mem_keys_iff, SortedMap.contains_eq]

theorem contains_batchIdsOf (references : List DocumentKeyReference) (id : ℤ) :
    (batchIdsOf references).contains id = true ↔ ∃ r ∈ references, r.refId = id := by
  rw [batchIdsOf, SortedMap.contains_foldl_insert, SortedMap.contains_eq]
  exact ⟨fun h => h.resolve_left Bool.false_ne_true, Or.inr⟩

theorem mem_index {k : DocumentKey} {id : ℤ} :
    ((⟨k, id⟩ : DocumentKeyReference), ()) ∈ q.batchesByDocumentKey.toList
      ↔ q.batchesByDocumentKey.contains ⟨k, id⟩ = true := by
  rw [SortedMap.contains_eq, ← SortedMap.get_eq_some_iff_mem, Option.isSome_iff_exists]
  constructor
  · exact fun h => ⟨(), h⟩
  · rintro ⟨⟨⟩, h⟩
    exact h

theorem Valid.refId_pos (h : Valid q) {e : DocumentKeyReference × Unit}
    (he : e ∈ q.batchesByDocumentKey.toList) : 0 < e.1.refId := by
  obtain ⟨⟨k, id⟩, ⟨⟩⟩ := e
  obtain ⟨b, hb, rfl, -⟩ := (h.indexed k id).mp (mem_index.mp he)
  exact h.batchId_pos hb

open DocumentKeyReference

theorem compareByKey_ne_lt {a b : DocumentKeyReference} (hkey : compareKeys a.key b.key ≠ .lt)
    (hid : b.refId < a.refId) : compareByKey a b ≠ .lt := by
  rw [compareByKey_eq]
  cases hcmp : compareKeys a.key b.key with
  | lt => exact absurd hcmp hkey
  | gt => exact fun h => nomatch h
  | eq =>
      rw [Ordering.eq_then, ne_eq, Std.compare_eq_lt, Int.not_lt]
      exact hid.le

/-- The start of a scan of a key is not after what the scan reads. -/
theorem compareKeys_ne_lt {a : DocumentKeyReference} {k : DocumentKey} {id : ℤ}
    (h : compareByKey a ⟨k, id⟩ ≠ .lt) : compareKeys a.key k ≠ .lt := by
  intro hlt
  rw [ne_eq, compareByKey_eq] at h
  dsimp only at h
  rw [hlt] at h
  exact h rfl

theorem compareKeys_ne_gt {a b : DocumentKeyReference} (h : compareByKey a b = .lt) :
    compareKeys a.key b.key ≠ .gt := by
  intro hgt
  rw [compareByKey_eq, hgt] at h
  cases h

/-- A scan for one document reads all of its references. -/
theorem Valid.referencesOf_eq (h : Valid q) (k : DocumentKey) :
    q.referencesOf k
      = (q.batchesByDocumentKey.toList.filter fun e => e.1.key == k).map Prod.fst := by
  rw [referencesOf, SortedMap.entriesFrom_eq]
  congr 1
  refine takeWhile_startingAt q.batchesByDocumentKey.sorted ?_ ?_
  · intro e he hkey
    rw [beq_iff_eq] at hkey
    refine compareByKey_ne_lt ?_ (h.refId_pos he)
    have hself : compareKeys k k = .eq := ReflCmp.compare_self
    rw [hkey, hself]
    decide
  · -- an entry between two of the key is of the key
    intro a ha b hb hfrom hlt hkey
    rw [beq_iff_eq] at hkey ⊢
    have hle : compareKeys a.1.key k ≠ .gt := hkey ▸ compareKeys_ne_gt hlt
    have hge : compareKeys a.1.key k ≠ .lt := compareKeys_ne_lt hfrom
    have hcmp : compareKeys a.1.key k = .eq := by
      cases hcmp : compareKeys a.1.key k with
      | lt => exact absurd hcmp hge
      | gt => exact absurd hcmp hle
      | eq => rfl
    exact LawfulEqCmp.eq_of_compare hcmp

theorem Valid.mem_referencesOf (h : Valid q) {k : DocumentKey} {r : DocumentKeyReference} :
    r ∈ q.referencesOf k
      ↔ r.key = k ∧ ∃ b ∈ q.queue, b.batchId = r.refId ∧ b.mutates k = true := by
  rw [h.referencesOf_eq, List.mem_map]
  obtain ⟨key, id⟩ := r
  constructor
  · rintro ⟨⟨r, ⟨⟩⟩, he, rfl⟩
    obtain ⟨hmem, hkey⟩ := List.mem_filter.mp he
    rw [beq_iff_eq] at hkey
    dsimp only at hkey
    refine ⟨hkey, (h.indexed k id).mp ?_⟩
    rw [← hkey]
    exact mem_index.mp hmem
  · rintro ⟨rfl, hb⟩
    refine ⟨(⟨key, id⟩, ()), List.mem_filter.mpr ⟨?_, beq_self_eq_true key⟩, rfl⟩
    exact mem_index.mpr ((h.indexed key id).mpr hb)

theorem Valid.exists_batch_iff (h : Valid q) {b : MutationBatch} (hb : b ∈ q.queue)
    {k : DocumentKey} :
    (∃ b' ∈ q.queue, b'.batchId = b.batchId ∧ b'.mutates k = true) ↔ b.mutates k = true := by
  constructor
  · rintro ⟨b', hb', hid, hmutates⟩
    rw [← h.eq_of_batchId hb' hb hid]
    exact hmutates
  · exact fun hmutates => ⟨b, hb, rfl, hmutates⟩

/-- **The batches of one document.** -/
theorem Valid.affectingDocumentKey (h : Valid q) (k : DocumentKey) :
    q.allMutationBatchesAffectingDocumentKey k = q.queue.filter fun b => b.mutates k := by
  have hascending : ((q.referencesOf k).map refId).Pairwise (· < ·) := by
    rw [h.referencesOf_eq, List.map_map, List.pairwise_map]
    refine (List.Pairwise.sublist List.filter_sublist q.batchesByDocumentKey.sorted).imp_of_mem ?_
    intro a b ha hb hlt
    have hka := beq_iff_eq.mp (List.mem_filter.mp ha).2
    have hkb := beq_iff_eq.mp (List.mem_filter.mp hb).2
    have hself : compareKeys k k = .eq := ReflCmp.compare_self
    rw [compareByKey_eq, hka, hkb, hself, Ordering.eq_then] at hlt
    exact Std.compare_eq_lt.mp hlt
  have hmap : q.allMutationBatchesAffectingDocumentKey k
      = ((q.referencesOf k).map refId).filterMap q.lookupMutationBatch := by
    rw [List.filterMap_map]
    rfl
  rw [hmap, h.filterMap_lookup hascending]
  refine List.filter_congr fun b hb => ?_
  rw [Bool.eq_iff_iff, decide_eq_true_iff, List.mem_map, ← h.exists_batch_iff hb]
  constructor
  · rintro ⟨r, hr, hid⟩
    rw [← hid]
    exact (h.mem_referencesOf.mp hr).2
  · intro hexists
    exact ⟨⟨k, b.batchId⟩, h.mem_referencesOf.mpr ⟨rfl, hexists⟩, rfl⟩

/-- **The batches of several documents.** -/
theorem Valid.affectingDocumentKeys (h : Valid q) (keys : DocumentKeySet) :
    q.allMutationBatchesAffectingDocumentKeys keys
      = q.queue.filter fun b => b.mutations.any fun m => keys.contains m.key := by
  rw [allMutationBatchesAffectingDocumentKeys, h.allMutationBatchesWithIds]
  refine List.filter_congr fun b hb => ?_
  rw [Bool.eq_iff_iff, contains_batchIdsOf, List.any_eq_true]
  constructor
  · rintro ⟨r, hr, hid⟩
    obtain ⟨k, hk, hr⟩ := List.mem_flatMap.mp hr
    have hmutates := (h.mem_referencesOf.mp hr).2
    rw [hid, h.exists_batch_iff hb, MutationBatch.mutates_eq_true_iff] at hmutates
    obtain ⟨m, hm, rfl⟩ := hmutates
    refine ⟨m, hm, ?_⟩
    rw [SortedMap.contains_eq]
    exact SortedMap.mem_keys_iff.mp hk
  · rintro ⟨m, hm, hkey⟩
    rw [SortedMap.contains_eq] at hkey
    refine ⟨⟨m.key, b.batchId⟩, List.mem_flatMap.mpr ⟨m.key, SortedMap.mem_keys_iff.mpr hkey, ?_⟩,
      rfl⟩
    refine h.mem_referencesOf.mpr ⟨rfl, (h.exists_batch_iff hb).mpr ?_⟩
    exact MutationBatch.mutates_eq_true_iff.mpr ⟨m, hm, rfl⟩

/-! ## 5. The documents of a collection -/

theorem compare_empty_ne_lt (x : String) : compare x "" ≠ .lt := by
  have hlt : ¬ x < "" := fun h => List.not_lt_nil x.toList (String.lt_iff.mp h)
  have hcompare : compare x "" = compareOfLessAndEq x "" := rfl
  rw [hcompare, compareOfLessAndEq, if_neg hlt]
  split <;> exact fun h => nomatch h

theorem prefix_startKey (path : ResourcePath) : path <+: (startKey path).path := by
  unfold startKey
  split
  · exact List.prefix_rfl
  · exact List.prefix_append path [""]

/-- No document below a path comes before the start of its scan. -/
theorem compareKeys_startKey_ne_lt {path : ResourcePath} {k : DocumentKey} (h : path <+: k.path) :
    compareKeys k (startKey path) ≠ .lt := by
  unfold startKey
  split
  · exact compareLex_ne_lt_of_prefix h
  · next hodd =>
      refine compareLex_ne_lt_of_prefix_of_ne compare_empty_ne_lt h fun heq => hodd ?_
      rw [← heq]
      exact k.isDocumentKey

/-- What is between the start of a scan and a document below the path is below it as well. -/
theorem prefix_of_scanned {path : ResourcePath} {a b : DocumentKey}
    (hfrom : compareKeys a (startKey path) ≠ .lt) (hle : compareKeys a b ≠ .gt)
    (hb : path <+: b.path) : path <+: a.path := by
  have hstart : (List.compareLex compare (startKey path).path path).isGE = true :=
    Ordering.isGE_iff_ne_lt.mpr <| compareLex_ne_lt_of_prefix (prefix_startKey path)
  have hafter : (List.compareLex compare a.path (startKey path).path).isGE = true :=
    Ordering.isGE_iff_ne_lt.mpr hfrom
  have hge : List.compareLex compare a.path path ≠ .lt :=
    Ordering.isGE_iff_ne_lt.mp (TransCmp.isGE_trans hafter hstart)
  cases hcmp : compareKeys a b with
  | gt => exact absurd hcmp hle
  | eq =>
      rw [LawfulEqCmp.eq_of_compare hcmp]
      exact hb
  | lt => exact prefix_of_between hge hcmp hb

/-- A scan for the documents below a path reads all of their references. -/
theorem Valid.takeWhile_startKey (h : Valid q) (path : ResourcePath) :
    ((q.batchesByDocumentKey.entriesFrom ⟨startKey path, 0⟩).takeWhile fun e =>
        isPrefixPath path e.1.key.path)
      = q.batchesByDocumentKey.toList.filter fun e => isPrefixPath path e.1.key.path := by
  rw [SortedMap.entriesFrom_eq]
  refine takeWhile_startingAt q.batchesByDocumentKey.sorted ?_ ?_
  · intro e he hprefix
    refine compareByKey_ne_lt ?_ (h.refId_pos he)
    exact compareKeys_startKey_ne_lt (List.isPrefixOf_iff_prefix.mp hprefix)
  · intro a ha b hb hfrom hlt hprefix
    refine List.isPrefixOf_iff_prefix.mpr ?_
    exact prefix_of_scanned (compareKeys_ne_lt hfrom) (compareKeys_ne_gt hlt)
      (List.isPrefixOf_iff_prefix.mp hprefix)

theorem Valid.mem_referencesBelow (h : Valid q) {path : ResourcePath} {r : DocumentKeyReference} :
    r ∈ q.referencesBelow path
      ↔ isImmediateParentOf path r.key.path = true
        ∧ ∃ b ∈ q.queue, b.batchId = r.refId ∧ b.mutates r.key = true := by
  rw [referencesBelow, h.takeWhile_startKey, List.mem_filter, List.mem_map, isImmediateParentOf,
    Bool.and_eq_true, beq_iff_eq, beq_iff_eq]
  constructor
  · rintro ⟨⟨⟨⟨k, id⟩, ⟨⟩⟩, he, rfl⟩, hlength⟩
    obtain ⟨hmem, hprefix⟩ := List.mem_filter.mp he
    exact ⟨⟨hlength.symm, hprefix⟩, (h.indexed k id).mp (mem_index.mp hmem)⟩
  · rintro ⟨⟨hlength, hprefix⟩, hb⟩
    refine ⟨⟨(r, ()), List.mem_filter.mpr ⟨?_, hprefix⟩, rfl⟩, hlength.symm⟩
    exact mem_index.mpr ((h.indexed r.key r.refId).mpr hb)

/-- **The batches of the documents of a collection.** -/
theorem Valid.affectingQuery (h : Valid q) (path : ResourcePath) :
    q.allMutationBatchesAffectingQuery path
      = q.queue.filter fun b => b.mutations.any fun m => isImmediateParentOf path m.key.path := by
  rw [allMutationBatchesAffectingQuery, h.allMutationBatchesWithIds]
  refine List.filter_congr fun b hb => ?_
  rw [Bool.eq_iff_iff, contains_batchIdsOf, List.any_eq_true]
  constructor
  · rintro ⟨r, hr, hid⟩
    obtain ⟨hparent, hmutates⟩ := h.mem_referencesBelow.mp hr
    rw [hid, h.exists_batch_iff hb, MutationBatch.mutates_eq_true_iff] at hmutates
    obtain ⟨m, hm, hkey⟩ := hmutates
    exact ⟨m, hm, hkey ▸ hparent⟩
  · rintro ⟨m, hm, hparent⟩
    refine ⟨⟨m.key, b.batchId⟩, h.mem_referencesBelow.mpr ⟨hparent, ?_⟩, rfl⟩
    exact (h.exists_batch_iff hb).mpr (MutationBatch.mutates_eq_true_iff.mpr ⟨m, hm, rfl⟩)

/-- **The batch to send next.** -/
theorem Valid.next_eq (h : Valid q) (id : ℤ) :
    q.nextMutationBatchAfterBatchId id = q.queue.find? fun b => decide (id < b.batchId) := by
  unfold nextMutationBatchAfterBatchId
  by_cases hne : q.queue = []
  · rw [hne, List.getElem?_nil, List.find?_nil]
  · have hindex := h.indexOfBatchId hne (id + 1)
    cases hget : q.queue[(q.indexOfBatchId (id + 1)).toNat]? with
    | some b =>
        obtain ⟨hlt, rfl⟩ := List.getElem?_eq_some_iff.mp hget
        have hid := h.numbered _ _ hget
        rw [eq_comm, List.find?_eq_some_iff_getElem]
        refine ⟨decide_eq_true (by omega), _, hlt, rfl, fun j hj => ?_⟩
        have hjid := h.numbered j _ (List.getElem?_eq_getElem (hj.trans hlt))
        rw [Bool.not_eq_true', decide_eq_false_iff_not]
        omega
    | none =>
        rw [eq_comm, List.find?_eq_none]
        intro b hb hlt
        obtain ⟨i, hi⟩ := List.mem_iff_getElem?.mp hb
        have hid := h.numbered i b hi
        have hi' := (List.getElem?_eq_some_iff.mp hi).1
        have hlength := List.getElem?_eq_none_iff.mp hget
        have hlt' := of_decide_eq_true hlt
        omega

theorem head?_any_eq {α : Type} (p : α → Bool) (l : List α) :
    l.head?.any p = !(l.takeWhile p).isEmpty := by
  cases l with
  | nil => rfl
  | cons a l =>
      rw [List.head?_cons, Option.any_some]
      by_cases ha : p a = true
      · rw [List.takeWhile_cons_of_pos ha, ha]
        rfl
      · rw [List.takeWhile_cons_of_neg ha, Bool.eq_false_iff.mpr ha]
        rfl

/-- **Whether there is a batch of a document.** -/
theorem Valid.containsKey_eq (h : Valid q) (k : DocumentKey) :
    q.containsKey k = q.queue.any fun b => b.mutates k := by
  have hreferences : q.containsKey k = !(q.referencesOf k).isEmpty := by
    rw [containsKey, head?_any_eq, referencesOf, List.isEmpty_map]
  rw [hreferences, Bool.eq_iff_iff, Bool.not_eq_true', ← Bool.not_eq_true, List.isEmpty_iff,
    List.any_eq_true]
  constructor
  · intro hne
    obtain ⟨r, hr⟩ := List.exists_mem_of_ne_nil _ hne
    obtain ⟨-, b, hb, -, hmutates⟩ := h.mem_referencesOf.mp hr
    exact ⟨b, hb, hmutates⟩
  · rintro ⟨b, hb, hmutates⟩
    exact List.ne_nil_of_mem
      (h.mem_referencesOf.mpr ⟨rfl, b, hb, rfl, hmutates⟩ : ⟨k, b.batchId⟩ ∈ q.referencesOf k)

/-- **The id of the last batch.** -/
theorem Valid.highest_eq (h : Valid q) :
    q.getHighestUnacknowledgedBatchId
      = (q.queue.getLast?.map MutationBatch.batchId).getD kBatchIdUnknown := by
  unfold getHighestUnacknowledgedBatchId isEmpty
  cases hlast : q.queue.getLast? with
  | none =>
      rw [List.getLast?_eq_none_iff.mp hlast]
      rfl
  | some b =>
      have hget : q.queue[q.queue.length - 1]? = some b := by
        rw [← List.getLast?_eq_getElem?]
        exact hlast
      have hlength : 0 < q.queue.length := List.length_pos_of_mem (List.mem_of_getLast? hlast)
      have hempty : ¬ q.queue.isEmpty = true := by
        rw [List.isEmpty_iff]
        exact List.ne_nil_of_length_pos hlength
      have hid := h.numbered _ b hget
      rw [if_neg hempty, Option.map_some, Option.getD_some]
      omega

theorem Valid.performConsistencyCheck (h : Valid q) : q.performConsistencyCheck = true := by
  unfold MutationQueue.performConsistencyCheck isEmpty
  by_cases hempty : q.queue.isEmpty = true
  · have hindex : q.batchesByDocumentKey.toList = [] := by
      rw [List.eq_nil_iff_forall_not_mem]
      rintro ⟨⟨k, id⟩, ⟨⟩⟩ he
      obtain ⟨b, hb, -⟩ := (h.indexed k id).mp (mem_index.mp he)
      rw [List.isEmpty_iff.mp hempty] at hb
      cases hb
    rw [hempty, SortedMap.isEmpty, SortedMap.size_eq, hindex]
    rfl
  · rw [Bool.eq_false_iff.mpr hempty]
    rfl

/-! ## 6. What the operations keep -/

theorem queue_start (q : MutationQueue) : q.start.queue = q.queue := by
  unfold MutationQueue.start
  split <;> rfl

theorem Valid.start (h : Valid q) : Valid q.start := by
  unfold MutationQueue.start
  split
  · next hempty =>
      have hqueue : q.queue = [] := List.isEmpty_iff.mp hempty
      refine ⟨?_, ?_, h.indexed⟩
      · intro i b hb
        dsimp only at hb
        rw [hqueue] at hb
        cases hb
      · dsimp only
        rw [hqueue]
        decide
  · exact h

theorem contains_addReferences (refs : DocumentKeyReferenceSet) (b : MutationBatch)
    (k : DocumentKey) (id : ℤ) :
    (addReferences refs b).contains ⟨k, id⟩ = true
      ↔ refs.contains ⟨k, id⟩ = true ∨ (b.batchId = id ∧ b.mutates k = true) := by
  rw [addReferences,
    SortedMap.contains_foldl_insert fun m : Mutation => DocumentKeyReference.mk m.key b.batchId,
    MutationBatch.mutates_eq_true_iff]
  simp only [DocumentKeyReference.mk.injEq]
  refine or_congr Iff.rfl ⟨?_, ?_⟩
  · rintro ⟨m, hm, hkey, hid⟩
    exact ⟨hid, m, hm, hkey⟩
  · rintro ⟨hid, m, hm, hkey⟩
    exact ⟨m, hm, hkey, hid⟩

/-- **A batch goes to the end of the queue.** -/
theorem Valid.add (h : Valid q) (t : Timestamp) {base mutations : List Mutation}
    (hne : mutations ≠ []) (hbased : ∀ b ∈ base, ∃ m ∈ mutations, m.key = b.key) :
    ∃ q', q.addMutationBatch t base mutations hne hbased
        = some (⟨q.nextBatchId, t, base, mutations, hne, hbased⟩, q')
      ∧ q'.queue = q.queue ++ [⟨q.nextBatchId, t, base, mutations, hne, hbased⟩] ∧ Valid q' := by
  have hlast : (q.queue.getLast?.all fun prior =>
      decide (prior.batchId < q.nextBatchId)) = true := by
    rw [Option.all_eq_true]
    intro b hb
    exact decide_eq_true (h.batchId_lt (List.mem_of_getLast? hb))
  unfold addMutationBatch
  dsimp only
  rw [if_pos hlast]
  refine ⟨_, rfl, rfl, ⟨fun i b hb => ?_, ?_, fun k id => ?_⟩⟩
  · dsimp only at hb ⊢
    rw [List.length_append, List.length_singleton]
    rcases Nat.lt_or_ge i q.queue.length with hlt | hge
    · rw [List.getElem?_append_left hlt] at hb
      have hid := h.numbered i b hb
      omega
    · rw [List.getElem?_append_right hge, List.getElem?_singleton] at hb
      split at hb
      · rw [← Option.some.inj hb]
        dsimp only
        omega
      · cases hb
  · have hpositive := h.positive
    dsimp only
    rw [List.length_append, List.length_singleton]
    omega
  · dsimp only
    rw [contains_addReferences, h.indexed]
    simp only [List.mem_append, List.mem_singleton, or_and_right, exists_or, exists_eq_left]

/-- **A batch leaves the queue at its head.** -/
theorem Valid.remove (h : Valid q) {head : MutationBatch} {rest : List MutationBatch}
    (hqueue : q.queue = head :: rest) :
    ∃ q', q.removeMutationBatch head = some q' ∧ q'.queue = rest ∧ Valid q' := by
  unfold removeMutationBatch
  rw [hqueue]
  dsimp only
  rw [if_pos rfl]
  refine ⟨_, rfl, rfl, ⟨fun i b hb => ?_, ?_, fun k id => ?_⟩⟩
  · have hid := h.numbered (i + 1) b (by rw [hqueue]; exact hb)
    rw [hqueue, List.length_cons] at hid
    dsimp only
    omega
  · have hpositive := h.positive
    rw [hqueue, List.length_cons] at hpositive
    dsimp only
    omega
  · dsimp only
    rw [removeReferences,
      SortedMap.contains_foldl_erase fun m : Mutation => DocumentKeyReference.mk m.key head.batchId,
      h.indexed]
    have hmem : ∀ b ∈ rest, b ∈ q.queue := by
      intro b hb
      rw [hqueue]
      exact List.mem_cons_of_mem _ hb
    constructor
    · rintro ⟨⟨b, hb, hid, hmutates⟩, herased⟩
      rw [hqueue] at hb
      rcases List.mem_cons.mp hb with rfl | hb
      · obtain ⟨m, hm, hkey⟩ := MutationBatch.mutates_eq_true_iff.mp hmutates
        exact absurd (by rw [hkey, hid]) (herased m hm)
      · exact ⟨b, hb, hid, hmutates⟩
    · rintro ⟨b, hb, hid, hmutates⟩
      refine ⟨⟨b, hmem b hb, hid, hmutates⟩, fun m hm heq => ?_⟩
      -- the ids after the head are greater
      have hlt : head.batchId < b.batchId := by
        have hascending := h.ascending
        rw [hqueue, List.pairwise_cons] at hascending
        exact hascending.1 b hb
      rw [DocumentKeyReference.mk.injEq] at heq
      omega

/-! ## 7. Every run -/

/-- The calls that change a queue. -/
inductive QueueCall where
  | start
  | add (localWriteTime : Timestamp) (baseMutations mutations : List Mutation)
      (nonempty : mutations ≠ []) (based : ∀ b ∈ baseMutations, ∃ m ∈ mutations, m.key = b.key)
  | remove (batch : MutationBatch)

def call (q : MutationQueue) : QueueCall → Option MutationQueue
  | .start => some q.start
  | .add t base mutations nonempty based =>
      (q.addMutationBatch t base mutations nonempty based).map Prod.snd
  | .remove batch => q.removeMutationBatch batch

/-- A batch that is to be removed is one that the queue has handed out and still has. -/
def Returns (q : MutationQueue) : QueueCall → Prop
  | .remove batch => batch ∈ q.queue
  | _ => True

theorem head_of_remove (h : Valid q) {batch : MutationBatch} (hmem : batch ∈ q.queue)
    (hremove : (q.removeMutationBatch batch).isSome = true) :
    ∃ rest, q.queue = batch :: rest := by
  unfold removeMutationBatch at hremove
  cases hqueue : q.queue with
  | nil =>
      rw [hqueue] at hmem
      cases hmem
  | cons head rest =>
      rw [hqueue] at hremove
      dsimp only at hremove
      split at hremove
      · next hid =>
          have hhead : head ∈ q.queue := by
            rw [hqueue]
            exact List.mem_cons_self
          exact ⟨rest, by rw [h.eq_of_batchId hhead hmem hid]⟩
      · cases hremove

theorem valid_call {q' : MutationQueue} {c : QueueCall} (h : Valid q) (hreturns : Returns q c)
    (hcall : call q c = some q') : Valid q' := by
  cases c with
  | start =>
      rw [call, Option.some.injEq] at hcall
      exact hcall ▸ h.start
  | add t base mutations hne hbased =>
      obtain ⟨q₁, hadd, -, hvalid⟩ := h.add t hne hbased
      rw [call, hadd, Option.map_some, Option.some.injEq] at hcall
      exact hcall ▸ hvalid
  | remove batch =>
      rw [call] at hcall
      obtain ⟨rest, hqueue⟩ := head_of_remove h hreturns (by rw [hcall]; rfl)
      obtain ⟨q₁, hremove, -, hvalid⟩ := h.remove hqueue
      rw [hremove, Option.some.injEq] at hcall
      exact hcall ▸ hvalid

theorem valid_run {calls : List QueueCall}
    (hcalls : AllSteps call Returns MutationQueue.empty calls)
    (hrun : run call MutationQueue.empty calls = some q) : Valid q :=
  run_invariant_of_allSteps (I := Valid) (fun _ _ _ h hreturns hcall => valid_call h hreturns hcall)
    valid_empty hcalls hrun

/-- **The index agrees with the queue after every run.** In every order of writes, answers
and restarts, what is looked up for a document, for several or for a collection is all
that the queue has for them, in its order; a batch is found by its id, and the next one
after an id is the first with a greater one; the highest id is that of the last one; and a
call goes through unless it would remove a batch that is not the first. -/
theorem lookups_exact {calls : List QueueCall}
    (hcalls : AllSteps call Returns MutationQueue.empty calls)
    (hrun : run call MutationQueue.empty calls = some q) :
    (∀ k, q.allMutationBatchesAffectingDocumentKey k = q.queue.filter fun b => b.mutates k)
      ∧ (∀ keys, q.allMutationBatchesAffectingDocumentKeys keys
          = q.queue.filter fun b => b.mutations.any fun m => keys.contains m.key)
      ∧ (∀ path, q.allMutationBatchesAffectingQuery path
          = q.queue.filter fun b => b.mutations.any fun m => isImmediateParentOf path m.key.path)
      ∧ (∀ id b, q.lookupMutationBatch id = some b ↔ b ∈ q.queue ∧ b.batchId = id)
      ∧ (∀ id, q.nextMutationBatchAfterBatchId id
          = q.queue.find? fun b => decide (id < b.batchId))
      ∧ (∀ k, q.containsKey k = q.queue.any fun b => b.mutates k)
      ∧ q.getHighestUnacknowledgedBatchId
          = (q.queue.getLast?.map MutationBatch.batchId).getD kBatchIdUnknown
      ∧ ∀ c, Returns q c → ((call q c).isSome = true ↔
          ∀ batch, c = .remove batch → q.queue.head? = some batch) := by
  have h := valid_run hcalls hrun
  refine ⟨h.affectingDocumentKey, h.affectingDocumentKeys, h.affectingQuery,
    fun _ _ => h.lookup_eq_some_iff, h.next_eq, h.containsKey_eq, h.highest_eq,
    fun c hreturns => ?_⟩
  cases c with
  | start => exact ⟨fun _ batch hc => (nomatch hc), fun _ => rfl⟩
  | add t base mutations hne hbased =>
      obtain ⟨q', hadd, -⟩ := h.add t hne hbased
      refine ⟨fun _ batch hc => (nomatch hc), fun _ => ?_⟩
      rw [call, hadd]
      rfl
  | remove batch =>
      constructor
      · intro hsome batch' hc
        cases hc
        obtain ⟨rest, hqueue⟩ := head_of_remove h hreturns hsome
        rw [hqueue, List.head?_cons]
      · intro hhead
        obtain ⟨rest, hqueue⟩ := List.head?_eq_some_iff.mp (hhead batch rfl)
        obtain ⟨q', hremove, -⟩ := h.remove hqueue
        rw [call, hremove]
        rfl

/-- The first write of a submission. -/
def submissionBatch : MutationBatch where
  batchId := 1
  localWriteTime := ⟨8, 0⟩
  baseMutations := []
  mutations := [.set ⟨["Food Submissions", "curry"], rfl⟩ ObjectValue.empty .none]
  nonempty := List.cons_ne_nil _ _
  based := fun _ hb => absurd hb (List.not_mem_nil)

/-- It is written once more before the backend answers. -/
def secondBatch : MutationBatch := { submissionBatch with batchId := 2 }

/-- The calls of that, with the answer to the first write. -/
def twoWrites : List QueueCall :=
  [.start,
    .add submissionBatch.localWriteTime [] submissionBatch.mutations submissionBatch.nonempty
      submissionBatch.based,
    .add submissionBatch.localWriteTime [] submissionBatch.mutations submissionBatch.nonempty
      submissionBatch.based,
    .remove submissionBatch]

/-- A submission is written twice, the backend answers to the first write, and the second is
found under its key. -/
theorem lookups_exact_afterAnswer :
    ∃ q, run call MutationQueue.empty twoWrites = some q ∧ q.queue = [secondBatch]
      ∧ q.allMutationBatchesAffectingDocumentKey ⟨["Food Submissions", "curry"], rfl⟩
        = [secondBatch] := by
  have hstart : call MutationQueue.empty .start = some MutationQueue.empty := rfl
  have hadd : call MutationQueue.empty (.add submissionBatch.localWriteTime []
      submissionBatch.mutations submissionBatch.nonempty submissionBatch.based)
      = some ⟨[submissionBatch], 2, addReferences SortedMap.empty submissionBatch⟩ := rfl
  have hsecond : call ⟨[submissionBatch], 2, addReferences SortedMap.empty submissionBatch⟩
      (.add submissionBatch.localWriteTime [] submissionBatch.mutations submissionBatch.nonempty
        submissionBatch.based)
      = some ⟨[submissionBatch, secondBatch], 3,
        addReferences (addReferences SortedMap.empty submissionBatch) secondBatch⟩ := rfl
  have hremove : call ⟨[submissionBatch, secondBatch], 3,
      addReferences (addReferences SortedMap.empty submissionBatch) secondBatch⟩
      (.remove submissionBatch) = some ⟨[secondBatch], 3, removeReferences
        (addReferences (addReferences SortedMap.empty submissionBatch) secondBatch)
        submissionBatch⟩ := rfl
  have hcalls : AllSteps call Returns MutationQueue.empty twoWrites := by
    intro t e t' htakes
    rw [twoWrites, takes_cons hstart, takes_cons hadd, takes_cons hsecond, takes_cons hremove]
      at htakes
    rcases htakes with ⟨-, rfl, -⟩ | ⟨-, rfl, -⟩ | ⟨-, rfl, -⟩ | ⟨rfl, rfl, -⟩ | hnil
    · trivial
    · trivial
    · trivial
    · exact List.mem_cons_self
    · exact absurd hnil takes_nil
  have hrun : run call MutationQueue.empty twoWrites
      = some ⟨[secondBatch], 3, removeReferences
        (addReferences (addReferences SortedMap.empty submissionBatch) secondBatch)
        submissionBatch⟩ := by
    simp only [twoWrites, run_cons, run_nil, hstart, hadd, hsecond, hremove, Option.bind_some]
  refine ⟨_, hrun, rfl, ?_⟩
  rw [(lookups_exact hcalls hrun).1]
  rfl

end MutationQueue

end FreeFood.Firestore
