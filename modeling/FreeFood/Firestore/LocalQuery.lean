/-
`LocalDocumentsView::GetDocumentsMatchingCollectionQuery`: a query run against the local
store.

The store does not make the local view of every document to find those of a query. It takes
the cached documents that match, adds the ones that a patch may make match, and makes the
mutations of the collection to them, one after the other. `getDocumentsMatching_shows` says
that what is found so is what matches of the local view, if nothing that is in the queue for
the collection is a transform. A transform reads what its batch started from, and there is
no such document here.
-/
import FreeFood.Firestore.FieldFilter
import FreeFood.Firestore.LocalStore

set_option autoImplicit false

namespace FreeFood.Firestore

open Std Overlay OrderedList Transition MutationQueue

/-- `DocumentMap`. -/
abbrev DocumentMap := SortedMap DocumentKey (Document ObjectValue) compareKeys

/-- An entry that is taken goes under its key. -/
def insertSome {V W : Type} [BEq W] (f : DocumentKey × V → Option W)
    (docs : SortedMap DocumentKey W compareKeys) (e : DocumentKey × V) :
    SortedMap DocumentKey W compareKeys :=
  match f e with
  | some w => docs.insert e.1 w
  | none => docs

namespace RemoteDocumentCache

/-- What `GetMatching` takes of an entry: a document that is newer and matches. -/
def matchingEntry (q : Query ObjectValue) (sinceReadTime : SnapshotVersion)
    (e : DocumentKey × (AnyDocument × SnapshotVersion)) : Option (Document ObjectValue) :=
  e.2.1.document?.filter fun doc => !decide (e.2.2 ≤ sinceReadTime) && q.matchesDoc doc

/-- `GetMatching`. -/
def getMatching (cache : RemoteDocumentCache) (q : Query ObjectValue)
    (sinceReadTime : SnapshotVersion) : DocumentMap :=
  ((cache.entriesFrom (startKey q.path)).takeWhile fun e => isPrefixPath q.path e.1.path).foldl
    (insertSome (matchingEntry q sinceReadTime)) SortedMap.empty

end RemoteDocumentCache

open RemoteDocumentCache

def Mutation.isPatch : Mutation → Bool
  | .patch _ _ _ _ => true
  | _ => false

namespace LocalStore

/-- `AddMissingBaseDocuments`: the documents that a patch may make match. -/
def addMissingBaseDocuments (s : LocalStore) (batches : List MutationBatch)
    (existingDocs : DocumentMap) : DocumentMap :=
  let missingDocKeys := keysOf ((batches.flatMap MutationBatch.mutations).filter fun m =>
    m.isPatch && !existingDocs.contains m.key)
  (s.remoteDocuments.getAll missingDocKeys).toList.foldl
    (insertSome fun e => Firestore.document? e.2) existingDocs

/-- One mutation of the loop. The document there is is the one it is based on, too. -/
def applyMutation (q : Query ObjectValue) (localWriteTime : Timestamp) (results : DocumentMap)
    (m : Mutation) : DocumentMap :=
  if isImmediateParentOf q.path m.key.path then
    let baseDoc := (results.get m.key).map MaybeDocument.document
    match Firestore.document? (m.applyToLocalView baseDoc baseDoc localWriteTime) with
    | some doc => results.insert m.key doc
    | none => results.erase m.key
  else results

/-- The loop over the batches. -/
def applyBatches (q : Query ObjectValue) (batches : List MutationBatch) (results : DocumentMap) :
    DocumentMap :=
  batches.foldl
    (fun results b => b.mutations.foldl (applyMutation q b.localWriteTime) results) results

/-- The documents that the loop starts from. -/
def baseDocuments (s : LocalStore) (q : Query ObjectValue) (sinceReadTime : SnapshotVersion) :
    DocumentMap :=
  s.addMissingBaseDocuments (s.mutationQueue.allMutationBatchesAffectingQuery q.path)
    (s.remoteDocuments.getMatching q sinceReadTime)

/-- `GetDocumentsMatchingCollectionQuery`. -/
def getDocumentsMatchingCollectionQuery (s : LocalStore) (q : Query ObjectValue)
    (sinceReadTime : SnapshotVersion) : DocumentMap :=
  let batches := s.mutationQueue.allMutationBatchesAffectingQuery q.path
  let results := applyBatches q batches (s.baseDocuments q sinceReadTime)
  results.toList.foldl (fun docs e => if q.matchesDoc e.2 then docs else docs.erase e.1) results

/-! ## 1. What each pass finds under a key -/

section Passes

variable {q : Query ObjectValue} {k : DocumentKey}

theorem get_insertSome {V W : Type} [BEq W] (f : DocumentKey × V → Option W)
    {docs : SortedMap DocumentKey W compareKeys} {e : DocumentKey × V}
    (hfresh : docs.get e.1 = none) (k : DocumentKey) :
    (insertSome f docs e).get k = if k = e.1 then f e else docs.get k := by
  unfold insertSome
  cases f e with
  | some w => exact SortedMap.get_insert_of_get_eq_none hfresh w k
  | none =>
      dsimp only
      split
      · next hk => rw [hk, hfresh]
      · rfl

theorem get_foldl_insertSome {V W : Type} [BEq W] (f : DocumentKey × V → Option W)
    {l : List (DocumentKey × V)} (hl : (l.map Prod.fst).Nodup)
    {docs : SortedMap DocumentKey W compareKeys} (hfresh : ∀ e ∈ l, docs.get e.1 = none) :
    (∀ e ∈ l, (l.foldl (insertSome f) docs).get e.1 = f e)
      ∧ ∀ k, k ∉ l.map Prod.fst → (l.foldl (insertSome f) docs).get k = docs.get k := by
  induction l generalizing docs with
  | nil => exact ⟨fun e he => absurd he List.not_mem_nil, fun _ _ => rfl⟩
  | cons entry l ih =>
      rw [List.map_cons, List.nodup_cons] at hl
      have hput := get_insertSome f (hfresh entry List.mem_cons_self)
      have hne : ∀ e ∈ l, e.1 ≠ entry.1 := fun e he heq => hl.1 (heq ▸ List.mem_map_of_mem he)
      have hfresh' : ∀ e ∈ l, (insertSome f docs entry).get e.1 = none := by
        intro e he
        rw [hput, if_neg (hne e he)]
        exact hfresh e (List.mem_cons_of_mem _ he)
      obtain ⟨hmem, hother⟩ := ih hl.2 hfresh'
      refine ⟨fun e he => ?_, fun k hk => ?_⟩
      · rw [List.foldl_cons]
        rcases List.mem_cons.mp he with rfl | he
        · rw [hother e.1 hl.1, hput, if_pos rfl]
        · exact hmem e he
      · rw [List.map_cons, List.mem_cons, not_or] at hk
        rw [List.foldl_cons, hother k hk.2, hput, if_neg hk.1]

theorem get_foldl_insertSome_toList {V W : Type} [BEq W] (f : DocumentKey × V → Option W)
    (m : SortedMap DocumentKey V compareKeys) {docs : SortedMap DocumentKey W compareKeys}
    (hfresh : ∀ k, (m.get k).isSome = true → docs.get k = none) (k : DocumentKey) :
    (m.toList.foldl (insertSome f) docs).get k
      = ((m.get k).bind fun v => f (k, v)).or (docs.get k) := by
  have hnone : ∀ e ∈ m.toList, docs.get e.1 = none := by
    intro e he
    exact hfresh e.1 (SortedMap.mem_keys_iff.mp (List.mem_map_of_mem he))
  obtain ⟨hmem, hother⟩ := get_foldl_insertSome f m.nodup_keys hnone
  cases hget : m.get k with
  | some v =>
      rw [hfresh k (hget ▸ rfl), Option.or_none]
      exact hmem (k, v) (SortedMap.get_eq_some_iff_mem.mp hget)
  | none =>
      refine hother k ?_
      rw [SortedMap.mem_keys_iff, hget]
      exact Bool.false_ne_true

/-- The scan of the cache. -/
theorem takeWhile_cache (cache : RemoteDocumentCache) (path : ResourcePath) :
    ((cache.entriesFrom (startKey path)).takeWhile fun e => isPrefixPath path e.1.path)
      = cache.toList.filter fun e => isPrefixPath path e.1.path := by
  rw [SortedMap.entriesFrom_eq]
  refine takeWhile_startingAt cache.sorted ?_ ?_
  · intro e _ hprefix
    exact compareKeys_startKey_ne_lt (List.isPrefixOf_iff_prefix.mp hprefix)
  · intro a _ b _ hfrom hlt hprefix
    refine List.isPrefixOf_iff_prefix.mpr ?_
    refine prefix_of_scanned hfrom ?_ (List.isPrefixOf_iff_prefix.mp hprefix)
    rw [hlt]
    decide

/-- The cached documents that match, all of them newer than the read time. -/
theorem get_getMatching {cache : RemoteDocumentCache} {since : SnapshotVersion}
    (hread : ∀ e ∈ cache.toList, since < e.2.2) (k : DocumentKey) :
    (cache.getMatching q since).get k
      = if isPrefixPath q.path k.path = true then
          (Firestore.document? (cache.document k)).filter q.matchesDoc
        else none := by
  have hnodup : ((cache.toList.filter fun e => isPrefixPath q.path e.1.path).map Prod.fst).Nodup :=
    cache.nodup_keys.sublist (List.filter_sublist.map Prod.fst)
  have hfresh : ∀ e ∈ cache.toList.filter fun e => isPrefixPath q.path e.1.path,
      (SortedMap.empty : DocumentMap).get e.1 = none := fun _ _ => rfl
  obtain ⟨hmem, hother⟩ := get_foldl_insertSome (matchingEntry q since) hnodup hfresh
  rw [getMatching, takeWhile_cache]
  by_cases hprefix : isPrefixPath q.path k.path = true
  · rw [if_pos hprefix]
    cases hget : cache.get k with
    | some entry =>
        have hentry : (k, entry) ∈ cache.toList := SortedMap.get_eq_some_iff_mem.mp hget
        have hfound := hmem (k, entry) (List.mem_filter.mpr ⟨hentry, hprefix⟩)
        have hnew : decide (entry.2 ≤ since) = false :=
          decide_eq_false (Int.not_le.mpr (hread _ hentry))
        dsimp only at hfound
        rw [hfound, matchingEntry, document, hget]
        simp only [hnew, Bool.not_false, Bool.true_and]
        rfl
    | none =>
        rw [hother k ?_, document, hget]
        · rfl
        · intro hk
          obtain ⟨e, he, rfl⟩ := List.mem_map.mp hk
          have hsome : (cache.get e.1).isSome = true :=
            SortedMap.mem_keys_iff.mp (List.mem_map_of_mem (List.mem_filter.mp he).1)
          rw [hget] at hsome
          cases hsome
  · rw [if_neg hprefix, hother k]
    · rfl
    · intro hk
      obtain ⟨e, he, rfl⟩ := List.mem_map.mp hk
      exact hprefix (List.mem_filter.mp he).2

/-- The documents that are added are the cached ones that there is a patch of. -/
theorem get_addMissingBaseDocuments (s : LocalStore) (batches : List MutationBatch)
    (existingDocs : DocumentMap) (k : DocumentKey) :
    ((∃ b ∈ batches, ∃ m ∈ b.mutations, m.isPatch = true ∧ m.key = k) →
        (s.addMissingBaseDocuments batches existingDocs).get k
          = (existingDocs.get k).or (Firestore.document? (s.remoteDocuments.document k)))
      ∧ ((¬ ∃ b ∈ batches, ∃ m ∈ b.mutations, m.isPatch = true ∧ m.key = k) →
        (s.addMissingBaseDocuments batches existingDocs).get k = existingDocs.get k) := by
  have hkeys : ∀ k, (keysOf ((batches.flatMap MutationBatch.mutations).filter fun m =>
        m.isPatch && !existingDocs.contains m.key)).contains k = true
      ↔ (∃ b ∈ batches, ∃ m ∈ b.mutations, m.isPatch = true ∧ m.key = k)
        ∧ existingDocs.get k = none := by
    intro k
    rw [contains_keysOf]
    constructor
    · rintro ⟨m, hm, rfl⟩
      obtain ⟨hmem, hpatch⟩ := List.mem_filter.mp hm
      obtain ⟨b, hb, hmb⟩ := List.mem_flatMap.mp hmem
      rw [Bool.and_eq_true, SortedMap.contains_eq, Bool.not_eq_true', Option.isSome_eq_false_iff,
        Option.isNone_iff_eq_none] at hpatch
      exact ⟨⟨b, hb, m, hmb, hpatch.1, rfl⟩, hpatch.2⟩
    · rintro ⟨⟨b, hb, m, hmb, hpatch, rfl⟩, hnone⟩
      refine ⟨m, List.mem_filter.mpr ⟨List.mem_flatMap.mpr ⟨b, hb, hmb⟩, ?_⟩, rfl⟩
      rw [hpatch, SortedMap.contains_eq, hnone]
      rfl
  have hfresh : ∀ k, ((s.remoteDocuments.getAll (keysOf ((batches.flatMap
      MutationBatch.mutations).filter fun m => m.isPatch && !existingDocs.contains m.key))).get
        k).isSome = true → existingDocs.get k = none := by
    intro k hk
    rw [get_getAll] at hk
    split at hk
    · next hmissing => exact (hkeys k |>.mp hmissing).2
    · cases hk
  rw [addMissingBaseDocuments, get_foldl_insertSome_toList _ _ hfresh, get_getAll]
  constructor
  · intro hpatch
    cases hget : existingDocs.get k with
    | some doc =>
        have hnot : ¬ (keysOf ((batches.flatMap MutationBatch.mutations).filter fun m =>
            m.isPatch && !existingDocs.contains m.key)).contains k = true := by
          rw [hkeys k, hget]
          exact fun h => nomatch h.2
        rw [if_neg hnot]
        rfl
    | none =>
        rw [if_pos ((hkeys k).mpr ⟨hpatch, hget⟩)]
        exact Option.or_none
  · intro hnone
    rw [if_neg fun hk => hnone ((hkeys k).mp hk).1]
    rfl

theorem get_foldl_erase (p : Document ObjectValue → Bool)
    (l : List (DocumentKey × Document ObjectValue)) (docs : DocumentMap) (k : DocumentKey) :
    ((∃ e ∈ l, e.1 = k ∧ ¬ p e.2 = true) →
        (l.foldl (fun docs e => if p e.2 then docs else docs.erase e.1) docs).get k = none)
      ∧ ((∀ e ∈ l, e.1 = k → p e.2 = true) →
        (l.foldl (fun docs e => if p e.2 then docs else docs.erase e.1) docs).get k
          = docs.get k) := by
  -- what is not there is not put back by the rest of the pass
  have hgone : ∀ (l : List (DocumentKey × Document ObjectValue)) (docs : DocumentMap),
      docs.get k = none →
      (l.foldl (fun docs e => if p e.2 then docs else docs.erase e.1) docs).get k = none := by
    intro l
    induction l with
    | nil => exact fun _ hnone => hnone
    | cons e l ih =>
        intro docs hnone
        refine ih _ ?_
        dsimp only
        split
        · exact hnone
        · rw [SortedMap.get_erase_of_lawful, hnone]
          exact ite_self _
  induction l generalizing docs with
  | nil =>
      refine ⟨?_, fun _ => rfl⟩
      rintro ⟨e, he, -⟩
      cases he
  | cons entry l ih =>
      rw [List.foldl_cons]
      constructor
      · rintro ⟨e, he, hk, hp⟩
        rcases List.mem_cons.mp he with rfl | he
        · refine hgone l _ ?_
          rw [if_neg hp, SortedMap.get_erase_of_lawful, if_pos hk.symm]
        · exact (ih _).1 ⟨e, he, hk, hp⟩
      · intro hall
        rw [(ih _).2 fun e he => hall e (List.mem_cons_of_mem _ he)]
        split
        · rfl
        · next hp =>
            have hne : k ≠ entry.1 := fun heq => hp (hall entry List.mem_cons_self heq.symm)
            rw [SortedMap.get_erase_of_lawful, if_neg hne]

/-- The last pass keeps what matches. -/
theorem get_foldl_matching (p : Document ObjectValue → Bool) (docs : DocumentMap)
    (k : DocumentKey) :
    (docs.toList.foldl (fun docs e => if p e.2 then docs else docs.erase e.1) docs).get k
      = (docs.get k).filter p := by
  obtain ⟨herased, hkept⟩ := get_foldl_erase p docs.toList docs k
  cases hget : docs.get k with
  | none =>
      rw [hkept, hget]
      · rfl
      · intro e he hk
        have hsome : docs.get e.1 = some e.2 := SortedMap.get_eq_some_iff_mem.mpr he
        rw [hk, hget] at hsome
        cases hsome
  | some doc =>
      have hentry : (k, doc) ∈ docs.toList := SortedMap.get_eq_some_iff_mem.mp hget
      by_cases hp : p doc = true
      · rw [hkept, hget, Option.filter_some_pos hp]
        intro e he hk
        have hsome : docs.get e.1 = some e.2 := SortedMap.get_eq_some_iff_mem.mpr he
        rw [hk, hget, Option.some.injEq] at hsome
        rw [← hsome]
        exact hp
      · rw [herased ⟨(k, doc), hentry, rfl, hp⟩, Option.filter_some_neg (Bool.eq_false_iff.mpr hp)]

end Passes

/-! ## 2. One document -/

section Document

variable {q : Query ObjectValue} {k : DocumentKey} {m : Mutation} {t : Timestamp}
  {x : Option (Document ObjectValue)} {y base : Option AnyDocument}

/-- What the loop makes of the document under the key of a mutation. -/
def scanned (m : Mutation) (t : Timestamp) (x : Option (Document ObjectValue)) :
    Option (Document ObjectValue) :=
  Firestore.document? (m.applyToLocalView (x.map MaybeDocument.document)
    (x.map MaybeDocument.document) t)

/-- A result that the map has already, as far as it can tell, stays the one that is there. -/
theorem get_applyMutation_self (hparent : isImmediateParentOf q.path m.key.path = true)
    (t : Timestamp) (results : DocumentMap) :
    SortedMap.Same (scanned m t (results.get m.key)) ((applyMutation q t results m).get m.key) := by
  unfold applyMutation
  rw [if_pos hparent, scanned]
  dsimp only
  cases Firestore.document? (m.applyToLocalView ((results.get m.key).map MaybeDocument.document)
      ((results.get m.key).map MaybeDocument.document) t) with
  | some doc =>
      dsimp only
      obtain ⟨w, hget, rfl | ⟨-, hsame⟩⟩ := results.get_insert_self m.key doc
      · rw [hget]
        exact SortedMap.Same.value w
      · rw [hget]
        exact SortedMap.Same.kept hsame
  | none =>
      dsimp only
      rw [SortedMap.get_erase_of_lawful, if_pos rfl]
      exact SortedMap.Same.none

theorem get_applyMutation_of_ne (hne : k ≠ m.key) (t : Timestamp) (results : DocumentMap) :
    (applyMutation q t results m).get k = results.get k := by
  unfold applyMutation
  split
  · dsimp only
    split
    · exact results.get_insert_of_ne hne _
    · rw [SortedMap.get_erase_of_lawful, if_neg hne]
  · rfl

/-- The loop does nothing to what is not in the collection. -/
theorem get_applyMutation_of_outside (hparent : ¬ isImmediateParentOf q.path k.path = true)
    (m : Mutation) (t : Timestamp) (results : DocumentMap) :
    (applyMutation q t results m).get k = results.get k := by
  by_cases hkey : k = m.key
  · unfold applyMutation
    rw [if_neg (hkey ▸ hparent)]
  · exact get_applyMutation_of_ne hkey t results

/-- The same document, but for its version and state. -/
def SameDocument (x : Option (Document ObjectValue)) (y : Option AnyDocument) : Prop :=
  x.map (fun d => (d.key, d.data)) = (Firestore.document? y).map fun d => (d.key, d.data)

/-- Documents under one key whose data compares the same, or no document twice. -/
inductive Alike : Option (Document ObjectValue) → Option (Document ObjectValue) → Prop
  | none : Alike none none
  | some {d e : Document ObjectValue} (key : d.key = e.key) (data : compare d.data e.data = .eq) :
      Alike (some d) (some e)

namespace Alike

variable {a b c : Option (Document ObjectValue)}

theorem refl (a : Option (Document ObjectValue)) : Alike a a := by
  cases a with
  | none => exact Alike.none
  | some d => exact Alike.some rfl compare_self

theorem symm (h : Alike a b) : Alike b a := by
  cases h with
  | none => exact Alike.none
  | some key data => exact Alike.some key.symm (OrientedCmp.eq_comm.mp data)

theorem trans (h : Alike a b) (h' : Alike b c) : Alike a c := by
  cases h with
  | none => exact h'
  | some key data =>
      cases h' with
      | some key' data' => exact Alike.some (key.trans key') (TransCmp.eq_trans data data')

theorem isSome_eq (h : Alike a b) : a.isSome = b.isSome := by
  cases h <;> rfl

theorem of_sameDocument {x : Option (Document ObjectValue)} {y : Option AnyDocument}
    (h : SameDocument x y) : Alike x (Firestore.document? y) := by
  unfold SameDocument at h
  cases hy : Firestore.document? y with
  | none =>
      rw [hy, Option.map_none, Option.map_eq_none_iff] at h
      rw [h]
      exact Alike.none
  | some e =>
      rw [hy, Option.map_some, Option.map_eq_some_iff] at h
      obtain ⟨d, rfl, hsame⟩ := h
      rw [Prod.mk.injEq] at hsame
      have hdata : compare d.data e.data = .eq := by
        rw [show d.data = e.data from hsame.2]
        exact compare_self
      exact Alike.some hsame.1 hdata

/-- What a map that has the same keeps. -/
theorem of_same (h : SortedMap.Same a b) : Alike a b := by
  cases h with
  | none => exact Alike.none
  | value d => exact Alike.refl _
  | kept hsame =>
      obtain ⟨key, -, -, data⟩ := Document.of_beq hsame
      exact Alike.some key data

end Alike

end Document

end LocalStore

namespace Mutation

/-- A mutation that depends on no more of a document than its data. -/
def Plain : Mutation → Prop
  | .set _ _ precondition => precondition = .none
  | .patch _ _ _ precondition => ∀ version, precondition ≠ .updateTime version
  | .transform _ _ => False
  | .delete _ precondition => precondition = .none

variable {m : Mutation} {k : DocumentKey} {t : Timestamp} {x : Option (Document ObjectValue)}
  {y base : Option AnyDocument}

open LocalStore

theorem sameDocument_of_replacing (hplain : m.Plain) (hpatch : m.isPatch = false) :
    SameDocument (scanned m t x) (m.applyToLocalView y base t) := by
  cases m with
  | set key value precondition =>
      have hnone : precondition = .none := hplain
      subst hnone
      rfl
  | patch key value mask precondition => cases hpatch
  | transform key fieldTransforms => exact hplain.elim
  | delete key precondition =>
      have hnone : precondition = .none := hplain
      subst hnone
      rfl

section SameDocument

variable {a b : Option AnyDocument}

theorem data_eq_of_sameDocument (h : SameDocument (Firestore.document? a) b) :
    (Firestore.document? a).map Document.data = (Firestore.document? b).map Document.data := by
  have hdata := congrArg (Option.map Prod.snd) h
  rwa [Option.map_map, Option.map_map] at hdata

theorem isValidFor_of_isSome_eq
    (hsome : (Firestore.document? a).isSome = (Firestore.document? b).isSome) {p : Precondition}
    (hp : ∀ version, p ≠ .updateTime version) : p.isValidFor a = p.isValidFor b := by
  cases p with
  | none => rfl
  | existing exist => rw [Precondition.isValidFor, Precondition.isValidFor, hsome]
  | updateTime version => exact absurd rfl (hp version)

theorem isValidFor_of_sameDocument (h : SameDocument (Firestore.document? a) b) {p : Precondition}
    (hp : ∀ version, p ≠ .updateTime version) : p.isValidFor a = p.isValidFor b := by
  have hsome := congrArg Option.isSome (data_eq_of_sameDocument h)
  rw [Option.isSome_map, Option.isSome_map] at hsome
  exact isValidFor_of_isSome_eq hsome hp

theorem patchDocument_of_sameDocument (h : SameDocument (Firestore.document? a) b)
    (value : ObjectValue) (mask : FieldMask) :
    patchDocument value mask a = patchDocument value mask b := by
  rw [patchDocument, patchDocument, data_eq_of_sameDocument h]

end SameDocument

/-! Patches of documents whose data compares the same. -/

theorem patchObject_congr (value : ObjectValue) (mask : FieldMask) {o o' : ObjectValue}
    (h : compare o o' = .eq) :
    compare (patchObject value mask o) (patchObject value mask o') = .eq := by
  have hR := FieldValue.congruence_compareTo
  -- both are as the patch would be that replaces every value it puts in
  have hleft : compare _ (patchObject value mask o) = .eq :=
    hR.map_iff.mpr (foldl_patchPath_related hR _ (FieldValue.related_refl hR o.fields))
  have hright : compare _ (patchObject value mask o') = .eq :=
    hR.map_iff.mpr (foldl_patchPath_related hR _ (hR.map_iff.mp h))
  exact TransCmp.eq_trans (OrientedCmp.eq_comm.mp hleft) hright

theorem patchDocument_congr {a b : Option AnyDocument}
    (h : Alike (Firestore.document? a) (Firestore.document? b)) (value : ObjectValue)
    (mask : FieldMask) :
    compare (patchDocument value mask a) (patchDocument value mask b) = .eq := by
  refine patchObject_congr value mask ?_
  cases ha : Firestore.document? a with
  | none =>
      rw [ha] at h
      cases hb : Firestore.document? b with
      | none => exact compare_self
      | some e =>
          rw [hb] at h
          cases h
  | some d =>
      rw [ha] at h
      cases hb : Firestore.document? b with
      | none =>
          rw [hb] at h
          cases h
      | some e =>
          rw [hb] at h
          cases h with
          | some key data => exact data

/-- **A plain mutation makes the same of the same document.** -/
theorem sameDocument_step (hplain : m.Plain) (h : SameDocument x y) :
    SameDocument (scanned m t x) (m.applyToLocalView y base t) := by
  by_cases hpatch : m.isPatch = true
  · cases m with
    | patch key value mask precondition =>
        have hx : Firestore.document? (x.map MaybeDocument.document) = x := by
          cases x <;> rfl
        have hsame : SameDocument (Firestore.document? (x.map MaybeDocument.document)) y := by
          rw [hx]
          exact h
        have hvalid : (patch key value mask precondition).precondition.isValidFor
              (x.map MaybeDocument.document)
            = (patch key value mask precondition).precondition.isValidFor y :=
          isValidFor_of_sameDocument hsame hplain
        unfold SameDocument scanned applyToLocalView
        rw [hvalid]
        split
        · dsimp only
          rw [patchDocument_of_sameDocument hsame]
          rfl
        · exact hsame
    | set key value precondition => cases hpatch
    | transform key fieldTransforms => cases hpatch
    | delete key precondition => cases hpatch
  · exact sameDocument_of_replacing hplain (Bool.eq_false_iff.mpr hpatch)

/-- **A plain mutation makes alike documents of alike documents.** -/
theorem alike_step (hplain : m.Plain) (h : Alike x (Firestore.document? y)) :
    Alike (scanned m t x) (Firestore.document? (m.applyToLocalView y base t)) := by
  by_cases hpatch : m.isPatch = true
  · cases m with
    | patch key value mask precondition =>
        have hx : Firestore.document? (x.map MaybeDocument.document) = x := by
          cases x <;> rfl
        have halike : Alike (Firestore.document? (x.map MaybeDocument.document))
            (Firestore.document? y) := by
          rw [hx]
          exact h
        have hvalid : (patch key value mask precondition).precondition.isValidFor
              (x.map MaybeDocument.document)
            = (patch key value mask precondition).precondition.isValidFor y :=
          isValidFor_of_isSome_eq halike.isSome_eq hplain
        unfold scanned applyToLocalView
        rw [hvalid]
        split
        · exact Alike.some rfl (patchDocument_congr halike value mask)
        · exact halike
    | set key value precondition => cases hpatch
    | transform key fieldTransforms => cases hpatch
    | delete key precondition => cases hpatch
  · exact Alike.of_sameDocument
      (sameDocument_of_replacing hplain (Bool.eq_false_iff.mpr hpatch))

end Mutation

namespace LocalStore

/-! ## 3. The loop and the local view -/

section Loop

variable {s : LocalStore} {q : Query ObjectValue} {k : DocumentKey} {y : Option AnyDocument}
  {results : DocumentMap} {W : Option (Document ObjectValue) → Option AnyDocument → Prop}

/-- What each mutation of a key keeps, the loop and the local view keep. -/
theorem related_mutations (hparent : isImmediateParentOf q.path k.path = true)
    {ms : List Mutation} {t : Timestamp} {baseDoc : Option AnyDocument → Option AnyDocument}
    (hW : ∀ m ∈ ms, m.key = k → ∀ x x' y base, W x y → SortedMap.Same (scanned m t x) x' →
      W x' (m.applyToLocalView y base t)) (h : W (results.get k) y) :
    W ((ms.foldl (applyMutation q t) results).get k)
      (MutationBatch.applyMutations ms t k baseDoc y) := by
  induction ms generalizing results y with
  | nil => exact h
  | cons m ms ih =>
      refine ih (fun m hm => hW m (List.mem_cons_of_mem _ hm)) ?_
      dsimp only
      split
      · next hkey =>
          have hput := get_applyMutation_self (m := m) (hkey ▸ hparent) t results
          rw [hkey] at hput
          exact hW m List.mem_cons_self hkey _ _ _ _ h hput
      · next hkey =>
          rw [get_applyMutation_of_ne fun heq => hkey heq.symm]
          exact h

theorem related_batches (hparent : isImmediateParentOf q.path k.path = true)
    {batches : List MutationBatch}
    (hW : ∀ b ∈ batches, ∀ m ∈ b.mutations, m.key = k → ∀ x x' y base, W x y →
      SortedMap.Same (scanned m b.localWriteTime x) x' →
      W x' (m.applyToLocalView y base b.localWriteTime))
    (hbase : ∀ b ∈ batches, ∀ m ∈ b.baseMutations, m.key ≠ k) (h : W (results.get k) y) :
    W ((applyBatches q batches results).get k)
      (read MutationBatch.applyToLocalDocument batches k y) := by
  induction batches generalizing results y with
  | nil => exact h
  | cons b batches ih =>
      rw [read_cons, applyBatches, List.foldl_cons]
      refine ih (fun b hb => hW b (List.mem_cons_of_mem _ hb))
        (fun b hb => hbase b (List.mem_cons_of_mem _ hb)) ?_
      rw [MutationBatch.applyToLocalDocument,
        MutationBatch.applyMutations_of_untouched (hbase b List.mem_cons_self)]
      exact related_mutations hparent (hW b List.mem_cons_self) h

/-- A batch with plain mutations of the documents of a collection only. -/
def PlainBatch (path : ResourcePath) (b : MutationBatch) : Prop :=
  (∀ m ∈ b.mutations, isImmediateParentOf path m.key.path = true → m.Plain)
    ∧ ∀ m ∈ b.baseMutations, isImmediateParentOf path m.key.path = false

/-- Filters that do not tell documents of one key apart whose data compares the same. -/
def FiltersCompare (q : Query ObjectValue) : Prop :=
  ∀ f ∈ q.filters, ∀ d d' : Document ObjectValue, d.key = d'.key →
    compare d.data d'.data = .eq → f.accepts d = f.accepts d'

/-- Filters that go by the order of values are such filters. -/
theorem filtersCompare_of_goesByOrder {filters : List FieldFilter}
    (hfilters : q.filters = filters.map FieldFilter.toFilter)
    (horder : ∀ f ∈ filters, f.GoesByOrder) : FiltersCompare q := by
  intro f hf d d' hkey hdata
  rw [hfilters] at hf
  obtain ⟨g, hg, rfl⟩ := List.mem_map.mp hf
  exact FieldFilter.matchesDocument_congr (horder g hg) hkey hdata

theorem matchesDoc_of_filtersCompare (hfilters : FiltersCompare q) {d d' : Document ObjectValue}
    (hkey : d.key = d'.key) (hdata : compare d.data d'.data = .eq) :
    q.matchesDoc d = q.matchesDoc d' := by
  refine Query.matchesDoc_congr hkey hdata ?_
  rw [Query.matchesFilters, Query.matchesFilters, Bool.eq_iff_iff, List.all_eq_true,
    List.all_eq_true]
  refine forall₂_congr fun f hf => ?_
  rw [hfilters f hf d d' hkey hdata]

theorem Alike.filter (hfilters : FiltersCompare q) {x x' : Option (Document ObjectValue)}
    (h : Alike x x') : Alike (x.filter q.matchesDoc) (x'.filter q.matchesDoc) := by
  cases h with
  | none => exact Alike.none
  | @some d e key data =>
      have hmatches := matchesDoc_of_filtersCompare hfilters key data
      cases hd : q.matchesDoc d with
      | true =>
          rw [Option.filter_some_pos hd, Option.filter_some_pos (hmatches ▸ hd)]
          exact Alike.some key data
      | false =>
          rw [Option.filter_some_neg hd, Option.filter_some_neg (hmatches ▸ hd)]
          exact Alike.none

theorem sameDocument_document? (y : Option AnyDocument) : SameDocument (Firestore.document? y) y :=
  rfl

/-- The document of a key of the collection, after the loop, is that of the local view, or
neither matches. -/
theorem alike_applyBatches (h : Good s) (hfilters : FiltersCompare q) {since : SnapshotVersion}
    (hread : ∀ e ∈ s.remoteDocuments.toList, since < e.2.2)
    (hplain : ∀ b ∈ s.mutationQueue.queue, PlainBatch q.path b)
    (hparent : isImmediateParentOf q.path k.path = true) :
    Alike (((applyBatches q (s.mutationQueue.allMutationBatchesAffectingQuery q.path)
        (s.baseDocuments q since)).get k).filter q.matchesDoc)
      (View.matched q (s.localView k)) := by
  have hprefix : isPrefixPath q.path k.path = true := by
    rw [isImmediateParentOf, Bool.and_eq_true] at hparent
    exact hparent.2
  have hbatches := h.queue.affectingQuery q.path
  -- the batches of the collection have all that the queue has of the key
  have hread' : read MutationBatch.applyToLocalDocument
        (s.mutationQueue.allMutationBatchesAffectingQuery q.path) k (s.remoteDocuments.document k)
      = read MutationBatch.applyToLocalDocument s.mutationQueue.queue k
        (s.remoteDocuments.document k) := by
    rw [hbatches]
    refine read_filter MutationBatch.local_applyToLocalDocument (fun b _ hmutates => ?_) _
    obtain ⟨m, hm, hkey⟩ := MutationBatch.mutates_eq_true_iff.mp hmutates
    exact List.any_eq_true.mpr ⟨m, hm, hkey ▸ hparent⟩
  have hmem : ∀ b ∈ s.mutationQueue.allMutationBatchesAffectingQuery q.path,
      b ∈ s.mutationQueue.queue := by
    intro b hb
    rw [hbatches] at hb
    exact (List.mem_filter.mp hb).1
  have hplain' : ∀ b ∈ s.mutationQueue.allMutationBatchesAffectingQuery q.path,
      ∀ m ∈ b.mutations, m.key = k → m.Plain :=
    fun b hb m hm hkey => (hplain b (hmem b hb)).1 m hm (hkey ▸ hparent)
  have hbase : ∀ b ∈ s.mutationQueue.allMutationBatchesAffectingQuery q.path,
      ∀ m ∈ b.baseMutations, m.key ≠ k := by
    intro b hb m hm hkey
    have hnot := (hplain b (hmem b hb)).2 m hm
    rw [hkey, hparent] at hnot
    cases hnot
  have hview : View.matched q (s.localView k)
      = (Firestore.document? (read MutationBatch.applyToLocalDocument
          (s.mutationQueue.allMutationBatchesAffectingQuery q.path) k
          (s.remoteDocuments.document k))).filter q.matchesDoc := by
    rw [localView_eq h.queue, viewOver, ← hread', View.matched, document?_shown]
  obtain ⟨hadded, hkept⟩ := get_addMissingBaseDocuments s
    (s.mutationQueue.allMutationBatchesAffectingQuery q.path)
    (s.remoteDocuments.getMatching q since) k
  rw [get_getMatching hread, if_pos hprefix, ← baseDocuments] at hadded hkept
  rw [hview]
  by_cases hpatch : ∃ b ∈ s.mutationQueue.allMutationBatchesAffectingQuery q.path,
      ∃ m ∈ b.mutations, m.isPatch = true ∧ m.key = k
  · -- the loop starts from the cached document
    refine Alike.filter hfilters (related_batches
      (W := fun x y => Alike x (Firestore.document? y)) hparent
      (fun b hb m hm hkey x x' y base hxy hput => ?_) hbase ?_)
    · exact (Alike.of_same hput).symm.trans (Mutation.alike_step (hplain' b hb m hm hkey) hxy)
    · rw [hadded hpatch]
      refine Alike.of_sameDocument ?_
      -- it was found by the scan, or it is added
      cases hdoc : Firestore.document? (s.remoteDocuments.document k) with
      | none =>
          rw [SameDocument, hdoc]
          rfl
      | some d =>
          rw [SameDocument, hdoc]
          cases hd : q.matchesDoc d with
          | true => rw [Option.filter_some_pos hd, Option.some_or]
          | false => rw [Option.filter_some_neg hd, Option.none_or]
  · -- without a patch, the first mutation replaces the document, whatever there is
    have hstart : Alike ((s.baseDocuments q since).get k)
          (Firestore.document? (s.remoteDocuments.document k))
        ∨ (s.baseDocuments q since).get k
          = (Firestore.document? (s.remoteDocuments.document k)).filter q.matchesDoc :=
      Or.inr (hkept hpatch)
    have hrelated := related_batches
      (W := fun x y => Alike x (Firestore.document? y)
        ∨ x = (Firestore.document? y).filter q.matchesDoc) hparent
      (fun b hb m hm hkey x x' y base _ hput => Or.inl ?_) hbase hstart
    · rcases hrelated with halike | hfiltered
      · exact Alike.filter hfilters halike
      · rw [hfiltered, Option.filter_filter]
        simp only [Bool.and_self]
        exact Alike.refl _
    · have hnot : m.isPatch = false :=
        Bool.eq_false_iff.mpr fun h => hpatch ⟨b, hb, m, hm, h, hkey⟩
      exact (Alike.of_same hput).symm.trans
        (Alike.of_sameDocument (Mutation.sameDocument_of_replacing (hplain' b hb m hm hkey) hnot))

/-- What is found outside the collection is as the cache has it. -/
theorem get_applyBatches_of_outside (hparent : ¬ isImmediateParentOf q.path k.path = true)
    (batches : List MutationBatch) (results : DocumentMap) :
    (applyBatches q batches results).get k = results.get k := by
  have hmutations : ∀ (ms : List Mutation) (t : Timestamp) (results : DocumentMap),
      (ms.foldl (applyMutation q t) results).get k = results.get k := by
    intro ms t
    induction ms with
    | nil => exact fun _ => rfl
    | cons m ms ih =>
        intro results
        rw [List.foldl_cons, ih, get_applyMutation_of_outside hparent]
  induction batches generalizing results with
  | nil => rfl
  | cons b batches ih =>
      rw [applyBatches, List.foldl_cons]
      exact (ih _).trans (hmutations _ _ _)

theorem key_of_document? {maybeDoc : Option AnyDocument} (h : ∀ doc ∈ maybeDoc, doc.key = k)
    {d : Document ObjectValue} (hd : Firestore.document? maybeDoc = some d) : d.key = k := by
  obtain ⟨doc, hdoc, hof⟩ := Option.bind_eq_some_iff.mp hd
  have hkey := h doc hdoc
  cases doc with
  | document d' =>
      rw [MaybeDocument.document?, Option.some.injEq] at hof
      exact hof ▸ hkey
  | noDocument key version committed => cases hof
  | unknownDocument key version => cases hof

/-- The documents that the loop starts from are under their keys. -/
theorem key_of_baseDocuments (h : Good s) {since : SnapshotVersion}
    (hread : ∀ e ∈ s.remoteDocuments.toList, since < e.2.2) {d : Document ObjectValue}
    (hd : (s.baseDocuments q since).get k = some d) : d.key = k := by
  have hmatching : ∀ d, (s.remoteDocuments.getMatching q since).get k = some d → d.key = k := by
    intro d hd
    rw [get_getMatching hread] at hd
    split at hd
    · exact key_of_document? (h.keyed k) (Option.filter_eq_some_iff.mp hd).1
    · cases hd
  obtain ⟨hadded, hkept⟩ := get_addMissingBaseDocuments s
    (s.mutationQueue.allMutationBatchesAffectingQuery q.path)
    (s.remoteDocuments.getMatching q since) k
  rw [baseDocuments] at hd
  by_cases hpatch : ∃ b ∈ s.mutationQueue.allMutationBatchesAffectingQuery q.path,
      ∃ m ∈ b.mutations, m.isPatch = true ∧ m.key = k
  · rw [hadded hpatch, Option.or_eq_some_iff] at hd
    rcases hd with hd | ⟨-, hd⟩
    · exact hmatching d hd
    · exact key_of_document? (h.keyed k) hd
  · rw [hkept hpatch] at hd
    exact hmatching d hd

/-- **A query that is run finds what matches of the local view.** -/
theorem getDocumentsMatching_shows (h : Good s) (hgroup : q.collectionGroup = none)
    (hpath : isDocumentKey q.path = false) (hfilters : FiltersCompare q) {since : SnapshotVersion}
    (hread : ∀ e ∈ s.remoteDocuments.toList, since < e.2.2)
    (hplain : ∀ b ∈ s.mutationQueue.queue, PlainBatch q.path b)
    (k : DocumentKey) :
    Alike ((s.getDocumentsMatchingCollectionQuery q since).get k)
      (View.matched q (s.localView k)) := by
  rw [getDocumentsMatchingCollectionQuery, get_foldl_matching]
  by_cases hparent : isImmediateParentOf q.path k.path = true
  · exact alike_applyBatches h hfilters hread hplain hparent
  · have houtside : ∀ d : Document ObjectValue, d.key = k → q.matchesDoc d = false := by
      intro d hd
      rw [Query.matchesDoc, Query.matchesPathAndCollectionGroup, hgroup, hd]
      dsimp only
      rw [hpath, if_neg Bool.false_ne_true, Bool.eq_false_iff.mpr hparent]
      rfl
    have hfound : ((s.baseDocuments q since).get k).filter q.matchesDoc = none := by
      rw [Option.filter_eq_none_iff]
      intro d hd hmatches
      rw [houtside d (key_of_baseDocuments h hread hd)] at hmatches
      cases hmatches
    have hview : View.matched q (s.localView k) = none := by
      rw [View.matched, Option.filter_eq_none_iff]
      intro d hd hmatches
      have hkey : ∀ doc ∈ some (s.localView k), doc.key = k := by
        rintro doc ⟨⟩
        exact key_localView h k
      rw [houtside d (key_of_document? hkey hd)] at hmatches
      cases hmatches
    rw [get_applyBatches_of_outside hparent, hfound, hview]
    exact Alike.none

end Loop

/-! ## 4. Every run -/

/-- Calls that write plain mutations to a collection, and versions that are versions. -/
def PlainCall (path : ResourcePath) : StoreCall → Prop
  | .write _ mutations =>
      ∀ m ∈ mutations, isImmediateParentOf path m.key.path = true → m.Plain
  | .acknowledge result => noVersion < result.commitVersion
  | .remoteEvent event => noVersion ≤ event.snapshotVersion
  | _ => True

variable {s t : LocalStore} {q : Query ObjectValue} {path : ResourcePath}

/-- A write of plain mutations is made without base mutations. -/
theorem plainBatch_newBatch {localWriteTime : Timestamp} {mutations : List Mutation}
    (h : ∀ m ∈ mutations, isImmediateParentOf path m.key.path = true → m.Plain)
    (nonempty : mutations ≠ []) :
    PlainBatch path (s.newBatch localWriteTime mutations nonempty) := by
  refine ⟨h, fun b hb => ?_⟩
  obtain ⟨m, hm, hbase⟩ := List.mem_filterMap.mp hb
  obtain ⟨baseValue, hextract, rfl⟩ := Option.map_eq_some_iff.mp hbase
  rw [Bool.eq_false_iff]
  intro hparent
  have hplain := h m hm hparent
  -- only a transform has a base value
  cases m with
  | set key value precondition => cases hextract
  | patch key value mask precondition => cases hextract
  | transform key fieldTransforms => exact hplain
  | delete key precondition => cases hextract

theorem brings_of_plainCall {c : StoreCall} (h : PlainCall path c) :
    s.Brings (PlainBatch path) (noVersion < ·) c := by
  cases c with
  | write localWriteTime mutations => exact plainBatch_newBatch h
  | acknowledge result => exact h
  | reject batchId => exact trivial
  | remoteEvent event => exact fun hne => Int.lt_iff_le_and_ne.mpr ⟨h, hne.symm⟩
  | userChange user => exact trivial
  | release => exact trivial

theorem allHold_run {calls : List StoreTransaction} (h : s.Good)
    (hall : s.AllHold (PlainBatch path) (noVersion < ·))
    (hcalls : AllSteps step (fun s c => s.Keeps c.call ∧ PlainCall path c.call) s calls)
    (hrun : run step s calls = some t) :
    t.Good ∧ t.AllHold (PlainBatch path) (noVersion < ·) := by
  refine run_invariant_of_allSteps
    (I := fun s : LocalStore => s.Good ∧ s.AllHold (PlainBatch path) (noVersion < ·))
    ?_ ⟨h, hall⟩ hcalls hrun
  rintro s c s' ⟨hgood, hall⟩ ⟨hkeeps, hplain⟩ hstep
  exact ⟨good_step hgood hkeeps hstep,
    hall.step hgood hkeeps (brings_of_plainCall hplain) hstep⟩

/-- **A query that is run finds what matches of the local view, in every state of a run.**
The writes to the collection of the query are sets, patches and deletes, and no transforms;
the mutations of other documents may be any. -/
theorem query_finds_localView {calls : List StoreTransaction} (h : s.Good)
    (hall : s.AllHold (PlainBatch q.path) (noVersion < ·)) (hgroup : q.collectionGroup = none)
    (hpath : isDocumentKey q.path = false) (hfilters : FiltersCompare q)
    (hcalls : AllSteps step (fun s c => s.Keeps c.call ∧ PlainCall q.path c.call) s calls)
    (hrun : run step s calls = some t) (k : DocumentKey) :
    Alike ((t.getDocumentsMatchingCollectionQuery q noVersion).get k)
      (View.matched q (t.localView k)) := by
  obtain ⟨hgood, hheld⟩ := allHold_run h hall hcalls hrun
  refine getDocumentsMatching_shows hgood hgroup hpath hfilters ?_ (hheld.batches t.user) k
  intro e he
  exact hheld.readTimes e.1 e.2 (SortedMap.get_eq_some_iff_mem.mpr he)

/-- The mutations of a submission, as the app makes it. -/
def submissionMutations : List Mutation :=
  [.set (submission "curry" 8 .synced).key (submission "curry" 8 .synced).data .none]

/-- The write of a submission. -/
def submissionWrite : StoreTransaction := ⟨.write ⟨8, 0⟩ submissionMutations, [], fun _ => false⟩

/-- A submission is written, and the query of the feed finds it. -/
theorem query_finds_localView_submission :
    ∃ t, run step LocalStore.empty [submissionWrite] = some t
      ∧ ((t.getDocumentsMatchingCollectionQuery feedQuery noVersion).get
          (submission "curry" 8 .synced).key).isSome = true := by
  have hall : LocalStore.empty.AllHold (PlainBatch feedQuery.path) (noVersion < ·) :=
    ⟨fun _ _ hb => absurd hb List.not_mem_nil, fun _ _ he => nomatch he⟩
  have hfilters : FiltersCompare feedQuery := fun _ hf => absurd hf List.not_mem_nil
  obtain ⟨t, hstep⟩ : ∃ t, step LocalStore.empty submissionWrite = some t := ⟨_, rfl⟩
  have hrun : run step LocalStore.empty [submissionWrite] = some t := by
    rw [run_cons, hstep]
    rfl
  have hcalls : AllSteps step (fun s c => s.Keeps c.call ∧ PlainCall feedQuery.path c.call)
      LocalStore.empty [submissionWrite] := by
    intro a c a' htakes
    rw [takes_cons hstep] at htakes
    rcases htakes with ⟨rfl, rfl, -⟩ | hnil
    · refine ⟨trivial, fun m hm _ => ?_⟩
      rw [List.mem_singleton.mp hm]
      rfl
    · exact absurd hnil takes_nil
  have hshown : ((step LocalStore.empty submissionWrite).all fun t =>
      (View.matched feedQuery (t.localView (submission "curry" 8 .synced).key)).isSome) = true := by
    decide +kernel
  rw [hstep] at hshown
  refine ⟨t, hrun, ?_⟩
  rw [(query_finds_localView good_empty hall rfl (by decide) hfilters hcalls hrun
    (submission "curry" 8 .synced).key).isSome_eq]
  exact hshown

end LocalStore

end FreeFood.Firestore
