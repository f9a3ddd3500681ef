/-
`local/local_store.h`, `local/local_documents_view.h`,
`local/memory_remote_document_cache.h` and `local/memory_eager_reference_delegate.h`: the
documents of the client.

The backend's documents are in a cache, and the writes that it has not answered are in the
queue of the user who made them. What the client reads under a key, its local view, is the
cached document with the batches of the queue made to it. Every operation returns the
documents that it has changed, as the local view now has them or the same, and `emit_spec`
says that it leaves no changed document out.

Each operation is a transaction, and when one is committed the documents that it has let go
of and that nothing refers to any more are removed from the cache. What refers to a document,
other than the queue of the user, comes with the transaction: a target, a view or the queue of
another user.
-/
import FreeFood.Firestore.MutationQueue
import FreeFood.Lib.Overlay

set_option autoImplicit false

namespace FreeFood.Firestore

open Std Overlay Transition

/-- `OptionalMaybeDocumentMap`. -/
abbrev OptionalMaybeDocumentMap := SortedMap DocumentKey (Option AnyDocument) compareKeys

/-- `MemoryRemoteDocumentCache`: documents, and when the backend sent them. -/
abbrev RemoteDocumentCache := SortedMap DocumentKey (AnyDocument × SnapshotVersion) compareKeys

namespace RemoteDocumentCache

/-- `Add`. -/
def addDocument (cache : RemoteDocumentCache) (doc : AnyDocument) (readTime : SnapshotVersion) :
    RemoteDocumentCache := cache.insert doc.key (doc, readTime)

/-- `Get`. -/
def document (cache : RemoteDocumentCache) (k : DocumentKey) : Option AnyDocument :=
  (cache.get k).map Prod.fst

/-- `GetAll`. -/
def getAll (cache : RemoteDocumentCache) (keys : DocumentKeySet) : OptionalMaybeDocumentMap :=
  keys.toList.foldl (fun results e => results.insert e.1 (cache.document e.1)) SortedMap.empty

end RemoteDocumentCache

open RemoteDocumentCache

/-- `User`, by the uid, if signed in. -/
abbrev User := Option String

/-- `RemoteEvent`: what the backend has said of documents. -/
structure RemoteEvent where
  snapshotVersion : SnapshotVersion
  documentUpdates : List (DocumentKey × AnyDocument)
  nodup : (documentUpdates.map Prod.fst).Nodup

/-- `LocalStore`. -/
structure LocalStore where
  remoteDocuments : RemoteDocumentCache
  user : User
  queues : User → MutationQueue
  lastRemoteSnapshotVersion : SnapshotVersion

namespace LocalStore

/-! ## 1. Reading -/

protected def empty : LocalStore :=
  ⟨SortedMap.empty, none, fun _ => MutationQueue.empty, noVersion⟩

def mutationQueue (s : LocalStore) : MutationQueue := s.queues s.user

def withQueue (s : LocalStore) (q : MutationQueue) : LocalStore :=
  { s with queues := Function.update s.queues s.user q }

/-- `GetDocument`. -/
def getDocument (s : LocalStore) (k : DocumentKey) : Option AnyDocument :=
  (s.mutationQueue.allMutationBatchesAffectingDocumentKey k).foldl
    (fun doc batch => batch.applyToLocalDocument k doc) (s.remoteDocuments.document k)

/-- `ApplyLocalMutationsToDocuments`. -/
def applyLocalMutationsToDocuments (docs : OptionalMaybeDocumentMap)
    (batches : List MutationBatch) : OptionalMaybeDocumentMap :=
  docs.toList.foldl
    (fun results e => results.insert e.1
      (batches.foldl (fun doc batch => batch.applyToLocalDocument e.1 doc) e.2))
    SortedMap.empty

/-- `GetLocalViewOfDocuments`: a document that is not there is shown as a deleted one. -/
def getLocalViewOfDocuments (s : LocalStore) (baseDocs : OptionalMaybeDocumentMap) :
    MaybeDocumentMap ObjectValue :=
  let allKeys : DocumentKeySet :=
    baseDocs.toList.foldl (fun keys e => keys.insert e.1 ()) SortedMap.empty
  let batches := s.mutationQueue.allMutationBatchesAffectingDocumentKeys allKeys
  (applyLocalMutationsToDocuments baseDocs batches).toList.foldl
    (fun results e => results.insert e.1 (shown e.1 e.2)) SortedMap.empty

/-- `GetDocuments`. -/
def getDocuments (s : LocalStore) (keys : DocumentKeySet) : MaybeDocumentMap ObjectValue :=
  s.getLocalViewOfDocuments (s.remoteDocuments.getAll keys)

/-! ## 2. Writing -/

/-- The keys that mutations name. -/
def keysOf (mutations : List Mutation) : DocumentKeySet :=
  mutations.foldl (fun keys m => keys.insert m.key ()) SortedMap.empty

/-- The base mutations of a write: the values there are of the fields that are transformed. -/
def baseMutations (existing : MaybeDocumentMap ObjectValue) (mutations : List Mutation) :
    List Mutation :=
  mutations.filterMap fun m =>
    (m.extractBaseValue (existing.get m.key)).map fun baseValue =>
      .patch m.key baseValue baseValue.toFieldMask (.existing true)

theorem based_baseMutations (existing : MaybeDocumentMap ObjectValue) (mutations : List Mutation) :
    ∀ b ∈ baseMutations existing mutations, ∃ m ∈ mutations, m.key = b.key := by
  intro b hb
  obtain ⟨m, hm, hbase⟩ := List.mem_filterMap.mp hb
  rw [Option.map_eq_some_iff] at hbase
  obtain ⟨baseValue, -, rfl⟩ := hbase
  exact ⟨m, hm, rfl⟩

/-- The documents that a write is made to. -/
def existingDocuments (s : LocalStore) (mutations : List Mutation) :
    MaybeDocumentMap ObjectValue := s.getDocuments (keysOf mutations)

/-- The batch of a write. -/
def newBatch (s : LocalStore) (localWriteTime : Timestamp) (mutations : List Mutation)
    (nonempty : mutations ≠ []) : MutationBatch :=
  ⟨s.mutationQueue.nextBatchId, localWriteTime,
    baseMutations (s.existingDocuments mutations) mutations, mutations, nonempty,
    based_baseMutations _ _⟩

/-- `WriteLocally`. -/
def writeLocally (s : LocalStore) (localWriteTime : Timestamp) (mutations : List Mutation) :
    Option (LocalStore × MaybeDocumentMap ObjectValue) :=
  if nonempty : mutations ≠ [] then do
    let existing := s.existingDocuments mutations
    let (batch, queue) ← s.mutationQueue.addMutationBatch localWriteTime
      (baseMutations existing mutations) mutations nonempty (based_baseMutations _ _)
    some (s.withQueue queue, batch.applyToLocalDocumentSet existing)
  else none

/-- One document of `ApplyBatchResult`. A document that is newer than the write has it
already. -/
def applyDocumentResult (r : MutationBatchResult) (cache : RemoteDocumentCache) (k : DocumentKey) :
    Option RemoteDocumentCache := do
  let remoteDoc := cache.document k
  let ackVersion ← r.docVersions.get k
  if remoteDoc.all fun doc => decide (doc.version < ackVersion) then
    match ← r.batch.applyToRemoteDocument k r.mutationResults remoteDoc with
    | some doc => some (cache.addDocument doc r.commitVersion)
    | none => if remoteDoc.isNone then some cache else none
  else some cache

/-- The queue without a batch, checked as the source does. -/
def removeBatch (s : LocalStore) (batch : MutationBatch) : Option LocalStore := do
  let queue ← s.mutationQueue.removeMutationBatch batch
  if queue.performConsistencyCheck then some (s.withQueue queue) else none

/-- `AcknowledgeBatch`, with `ApplyBatchResult`. -/
def acknowledgeBatch (s : LocalStore) (r : MutationBatchResult) :
    Option (LocalStore × MaybeDocumentMap ObjectValue) :=
  if s.mutationQueue.acknowledgeBatch r.batch then do
    let cache ← (r.batch.keys.toList.map Prod.fst).foldlM (applyDocumentResult r)
      s.remoteDocuments
    let s' ← { s with remoteDocuments := cache }.removeBatch r.batch
    some (s', s'.getDocuments r.batch.keys)
  else none

/-- `RejectBatch`. -/
def rejectBatch (s : LocalStore) (batchId : ℤ) :
    Option (LocalStore × MaybeDocumentMap ObjectValue) := do
  let toReject ← s.mutationQueue.lookupMutationBatch batchId
  let s' ← s.removeBatch toReject
  some (s', s'.getDocuments toReject.keys)

/-! ## 3. What the backend says -/

/-- Whether an update is news, compared with the document there is. -/
def isNews (existing : Option AnyDocument) (doc : AnyDocument) : Bool :=
  existing.all fun old =>
    decide (old.version < doc.version) || (doc.version == old.version && old.hasPendingWrites)

/-- A document deleted at no version stands for one that the client has lost access to. -/
def fabricated : AnyDocument → Bool
  | .noDocument _ version _ => version == noVersion
  | _ => false

/-- One update of `ApplyRemoteEvent`: the cache, and what is changed so far. -/
def applyDocumentUpdate (snapshotVersion : SnapshotVersion) (existing : Option AnyDocument)
    (acc : RemoteDocumentCache × OptionalMaybeDocumentMap) (update : DocumentKey × AnyDocument) :
    Option (RemoteDocumentCache × OptionalMaybeDocumentMap) :=
  let (k, doc) := update
  if fabricated doc then some (acc.1.erase k, acc.2.insert k (some doc))
  else if isNews existing doc then
    if snapshotVersion = noVersion then none
    else some (acc.1.addDocument doc snapshotVersion, acc.2.insert k (some doc))
  else some acc

/-- The last remote version, which an event at no version leaves alone. -/
def remoteVersionAfter (s : LocalStore) (version : SnapshotVersion) : Option SnapshotVersion :=
  if version = noVersion then some s.lastRemoteSnapshotVersion
  else if s.lastRemoteSnapshotVersion ≤ version then some version
  else none

/-- `ApplyRemoteEvent`, of the documents. An update changes its own document only, so the
documents there are can all be read first. -/
def applyRemoteEvent (s : LocalStore) (event : RemoteEvent) :
    Option (LocalStore × MaybeDocumentMap ObjectValue) := do
  let (cache, changedDocs) ← event.documentUpdates.foldlM
    (fun acc update =>
      applyDocumentUpdate event.snapshotVersion (s.remoteDocuments.document update.1) acc update)
    (s.remoteDocuments, SortedMap.empty)
  let version ← s.remoteVersionAfter event.snapshotVersion
  let s' : LocalStore := { s with remoteDocuments := cache, lastRemoteSnapshotVersion := version }
  some (s', s'.getLocalViewOfDocuments changedDocs)

/-- `HandleUserChange`: each user has a queue. -/
def handleUserChange (s : LocalStore) (user : User) : LocalStore × MaybeDocumentMap ObjectValue :=
  let s' : LocalStore :=
    { s with user := user, queues := Function.update s.queues user (s.queues user).start }
  let changedKeys := keysOf ((s.mutationQueue.queue ++ s'.mutationQueue.queue).flatMap
    MutationBatch.mutations)
  (s', s'.getDocuments changedKeys)

/-- The calls that change documents, and those that only let go of them, when a target is
released or a view shows less. -/
inductive StoreCall where
  | write (localWriteTime : Timestamp) (mutations : List Mutation)
  | acknowledge (result : MutationBatchResult)
  | reject (batchId : ℤ)
  | remoteEvent (event : RemoteEvent)
  | userChange (user : User)
  | release

/-- One call, with the documents that it returns. -/
def emit (s : LocalStore) : StoreCall → Option (LocalStore × MaybeDocumentMap ObjectValue)
  | .write localWriteTime mutations => s.writeLocally localWriteTime mutations
  | .acknowledge result => s.acknowledgeBatch result
  | .reject batchId => s.rejectBatch batchId
  | .remoteEvent event => s.applyRemoteEvent event
  | .userChange user => some (s.handleUserChange user)
  | .release => some (s, SortedMap.empty)

/-- A call, with the documents that targets and views let go of in it, and what refers to
documents at its end. -/
structure StoreTransaction where
  call : StoreCall
  released : List DocumentKey
  referenced : DocumentKey → Bool

/-- `RemoveMutationReference`: a batch that leaves the queue lets go of its documents. -/
def orphanedBy (s : LocalStore) : StoreCall → List DocumentKey
  | .acknowledge result => result.batch.keys.toList.map Prod.fst
  | .reject batchId =>
      match s.mutationQueue.lookupMutationBatch batchId with
      | some batch => batch.keys.toList.map Prod.fst
      | none => []
  | _ => []

/-- `OnTransactionCommitted`, of a reference delegate that is eager. -/
def onTransactionCommitted (s : LocalStore) (orphaned : List DocumentKey)
    (referenced : DocumentKey → Bool) : LocalStore :=
  { s with
    remoteDocuments :=
      (orphaned.filter fun k => !(referenced k || s.mutationQueue.containsKey k)).foldl
        (fun cache k => cache.erase k) s.remoteDocuments }

/-- One transaction, without what its call returns. -/
def step (s : LocalStore) (t : StoreTransaction) : Option LocalStore :=
  (s.emit t.call).map fun r =>
    r.1.onTransactionCommitted (s.orphanedBy t.call ++ t.released) t.referenced

/-! ## 4. The local view -/

/-- What the client reads under a key. -/
def localView (s : LocalStore) (k : DocumentKey) : AnyDocument := shown k (s.getDocument k)

/-- The local view of a document that the cache would have. -/
def viewOver (s : LocalStore) (k : DocumentKey) (base : Option AnyDocument) : AnyDocument :=
  shown k (read MutationBatch.applyToLocalDocument s.mutationQueue.queue k base)

variable {s : LocalStore} {k : DocumentKey}

/-- **The batches that the index finds make the document that the whole queue would.** -/
theorem localView_eq (h : s.mutationQueue.Valid) (k : DocumentKey) :
    s.localView k = s.viewOver k (s.remoteDocuments.document k) := by
  rw [localView, getDocument, h.affectingDocumentKey, viewOver]
  congr 1
  exact read_filter MutationBatch.local_applyToLocalDocument (fun _ _ hb => hb) _

/-- It makes no difference whether a document that is not there is in the cache as deleted. -/
theorem viewOver_congr {a b : Option AnyDocument} (h : shown k a = shown k b) :
    s.viewOver k a = s.viewOver k b :=
  read_related (R := fun a b => shown k a = shown k b)
    (fun batch _ _ _ h => MutationBatch.applyToLocalDocument_shown h batch) h

theorem get_foldl_insert_value {V W : Type} [BEq W]
    (m : SortedMap DocumentKey V compareKeys) (f : DocumentKey → V → W) (k : DocumentKey) :
    (m.toList.foldl (fun results e => results.insert e.1 (f e.1 e.2))
      (SortedMap.empty : SortedMap DocumentKey W compareKeys)).get k = (m.get k).map (f k) := by
  have hfold : m.toList.foldl (fun results e => results.insert e.1 (f e.1 e.2))
        (SortedMap.empty : SortedMap DocumentKey W compareKeys)
      = (m.toList.map fun e => (e.1, f e.1 e.2)).foldl (fun results e => results.insert e.1 e.2)
        SortedMap.empty := by
    rw [List.foldl_map]
  have hnodup : ((m.toList.map fun e => (e.1, f e.1 e.2)).map Prod.fst).Nodup := by
    rw [List.map_map]
    exact m.nodup_keys
  obtain ⟨hmem, hother⟩ := SortedMap.get_foldl_insert _ hnodup
    (SortedMap.empty : SortedMap DocumentKey W compareKeys) fun _ _ => rfl
  rw [hfold]
  -- a key is in the new map exactly if it is in the old one
  cases hget : m.get k with
  | some v =>
      have hentry : (k, v) ∈ m.toList := SortedMap.get_eq_some_iff_mem.mp hget
      exact hmem (k, f k v) (List.mem_map_of_mem (f := fun e => (e.1, f e.1 e.2)) hentry)
  | none =>
      refine hother k fun hk => ?_
      rw [List.map_map] at hk
      have hsome : (m.get k).isSome = true := SortedMap.mem_keys_iff.mp hk
      rw [hget] at hsome
      cases hsome

/-- **What is returned of documents is their local view.** -/
theorem get_getLocalViewOfDocuments (h : s.mutationQueue.Valid)
    (baseDocs : OptionalMaybeDocumentMap) (k : DocumentKey) :
    (s.getLocalViewOfDocuments baseDocs).get k = (baseDocs.get k).map (s.viewOver k) := by
  unfold getLocalViewOfDocuments applyLocalMutationsToDocuments
  dsimp only
  rw [get_foldl_insert_value _ shown, get_foldl_insert_value baseDocs fun k doc => List.foldl
    (fun doc batch => MutationBatch.applyToLocalDocument batch k doc) doc _, Option.map_map,
    h.affectingDocumentKeys]
  cases hget : baseDocs.get k with
  | none => rfl
  | some doc =>
      rw [Option.map_some, Option.map_some, Option.some.injEq, Function.comp_apply, viewOver]
      congr 1
      -- the batches are looked up for all keys at once, so some of them are not of this key
      refine read_filter MutationBatch.local_applyToLocalDocument ?_ doc
      intro b _ hmutates
      obtain ⟨m, hm, hkey⟩ := MutationBatch.mutates_eq_true_iff.mp hmutates
      rw [List.any_eq_true]
      refine ⟨m, hm, ?_⟩
      rw [SortedMap.contains_foldl_insert]
      exact Or.inr ⟨(k, doc), SortedMap.get_eq_some_iff_mem.mp hget, hkey.symm⟩

theorem get_getAll (cache : RemoteDocumentCache) (keys : DocumentKeySet) (k : DocumentKey) :
    (cache.getAll keys).get k
      = if keys.contains k = true then some (cache.document k) else none := by
  have hget := get_foldl_insert_value keys (fun k _ => cache.document k) k
  rw [getAll, hget, SortedMap.contains_eq]
  cases keys.get k <;> rfl

/-- **`GetDocuments` returns the local view of the documents it is asked for.** -/
theorem get_getDocuments (h : s.mutationQueue.Valid) (keys : DocumentKeySet) (k : DocumentKey) :
    (s.getDocuments keys).get k
      = if keys.contains k = true then some (s.localView k) else none := by
  rw [getDocuments, get_getLocalViewOfDocuments h, get_getAll, localView_eq h]
  split <;> rfl

theorem contains_keysOf (mutations : List Mutation) (k : DocumentKey) :
    (keysOf mutations).contains k = true ↔ ∃ m ∈ mutations, m.key = k := by
  rw [keysOf, SortedMap.contains_foldl_insert, SortedMap.contains_eq]
  exact ⟨fun h => h.resolve_left Bool.false_ne_true, Or.inr⟩

/-! ## 5. One call -/

/-- What a store is in every state of a run. -/
structure Good (s : LocalStore) : Prop where
  queues : ∀ user, (s.queues user).Valid
  keyed : ∀ k, ∀ doc ∈ s.remoteDocuments.document k, doc.key = k

theorem good_empty : LocalStore.empty.Good :=
  ⟨fun _ => MutationQueue.valid_empty, fun _ _ hdoc => nomatch hdoc⟩

/-- What the callers promise of a call, for a store to stay what it is: a batch that is
answered is one that is in the queue, and updates are under their keys. -/
def Keeps (s : LocalStore) : StoreCall → Prop
  | .acknowledge result => result.batch ∈ s.mutationQueue.queue
  | .remoteEvent event => ∀ update ∈ event.documentUpdates, update.2.key = update.1
  | _ => True

/-- What is asked of a call besides, for it to return all that it changes. An update from the
backend has no pending writes, and the document for one that the client has lost access to is
made up as a missing one. Of a write it is asked that a document which it has several
mutations of is settled by them. -/
def Settles (s : LocalStore) : StoreCall → Prop
  | .write localWriteTime mutations =>
      ∀ nonempty k, 1 < (mutations.countP fun m => m.key == k) →
        (s.newBatch localWriteTime mutations nonempty).Settled k (some (s.localView k))
  | .remoteEvent event => ∀ update ∈ event.documentUpdates,
      update.2.hasPendingWrites = false ∧
        (fabricated update.2 = true → update.2 = missing update.1)
  | _ => True

/-- The documents that a transaction lets go of stay referred to. -/
def Retains (s : LocalStore) (t : StoreTransaction) : Prop :=
  ∀ k ∈ s.orphanedBy t.call ++ t.released, t.referenced k = true

/-- What the documents that a call returns tell: what is returned is the local view, or the
document there was, if that is the same. -/
structure Tells (s s' : LocalStore) (changes : MaybeDocumentMap ObjectValue) : Prop where
  changed : ∀ k, ∀ doc ∈ changes.get k, SortedMap.Same (some (s'.localView k)) (some doc)
  keyed : ∀ k, ∀ doc ∈ changes.get k, doc.key = k
  unchanged : ∀ k, changes.get k = none → s'.localView k = s.localView k

variable {s' : LocalStore} {changes : MaybeDocumentMap ObjectValue} {batch : MutationBatch}

theorem Good.queue (h : Good s) : s.mutationQueue.Valid := h.queues s.user

theorem Good.withQueue (h : Good s) {q : MutationQueue} (hq : q.Valid) : Good (s.withQueue q) := by
  refine ⟨fun user => ?_, h.keyed⟩
  rw [LocalStore.withQueue]
  dsimp only
  by_cases huser : user = s.user
  · rw [huser, Function.update_self]
    exact hq
  · rw [Function.update_of_ne huser]
    exact h.queues user

theorem mutationQueue_withQueue (s : LocalStore) (q : MutationQueue) :
    (s.withQueue q).mutationQueue = q := Function.update_self ..

/-- The local view of a document is under its key. -/
theorem key_localView (h : Good s) (k : DocumentKey) : (s.localView k).key = k := by
  have hread : ∀ doc ∈ read MutationBatch.applyToLocalDocument s.mutationQueue.queue k
      (s.remoteDocuments.document k), doc.key = k :=
    read_invariant (I := fun d : Option AnyDocument => ∀ doc ∈ d, doc.key = k)
      (fun b _ _ hd => MutationBatch.key_applyToLocalDocument hd b) (h.keyed k)
  rw [localView_eq h.queue, viewOver, shown]
  cases hdoc : read MutationBatch.applyToLocalDocument s.mutationQueue.queue k
      (s.remoteDocuments.document k) with
  | none => rfl
  | some doc => exact hread doc hdoc

/-- A document that no batch mutates is shown as the cache has it. -/
theorem localView_of_untouched (h : Good s)
    (hk : ∀ b ∈ s.mutationQueue.queue, b.mutates k = false) :
    s.localView k = shown k (s.remoteDocuments.document k) := by
  rw [localView_eq h.queue, viewOver, read_of_untouched MutationBatch.local_applyToLocalDocument hk]

/-- To return the documents under the keys is enough, if no others change. -/
theorem tells_getDocuments (h : Good s') {keys : DocumentKeySet}
    (hother : ∀ k, keys.contains k = false → s'.localView k = s.localView k) :
    Tells s s' (s'.getDocuments keys) := by
  refine ⟨fun k doc hdoc => ?_, fun k doc hdoc => ?_, fun k hnone => ?_⟩
  · rw [get_getDocuments h.queue] at hdoc
    split at hdoc
    · rw [← Option.some.inj hdoc]
      exact SortedMap.Same.value _
    · cases hdoc
  · rw [get_getDocuments h.queue] at hdoc
    split at hdoc
    · rw [← Option.some.inj hdoc]
      exact key_localView h k
    · cases hdoc
  · rw [get_getDocuments h.queue] at hnone
    split at hnone
    · cases hnone
    · next hk => exact hother k (Bool.eq_false_iff.mpr hk)

/-- What a write does. -/
theorem writeLocally_cases (h : Good s) {t : Timestamp} {mutations : List Mutation}
    (hcall : s.writeLocally t mutations = some (s', changes)) :
    ∃ nonempty q', s' = s.withQueue q' ∧ q'.Valid
      ∧ q'.queue = s.mutationQueue.queue ++ [s.newBatch t mutations nonempty]
      ∧ changes = (s.newBatch t mutations nonempty).applyToLocalDocumentSet
          (s.existingDocuments mutations) := by
  unfold writeLocally at hcall
  split at hcall
  · next hne =>
      dsimp only at hcall
      obtain ⟨q', hadd, hqueue, hvalid⟩ := h.queue.add t hne
        (based_baseMutations (s.existingDocuments mutations) mutations)
      rw [hadd, Option.bind_eq_bind, Option.bind_some, Option.some.injEq, Prod.mk.injEq] at hcall
      obtain ⟨rfl, rfl⟩ := hcall
      exact ⟨hne, q', rfl, hvalid, hqueue, rfl⟩
  · cases hcall

theorem key_eq_of_same {a b : AnyDocument} (h : SortedMap.Same (some a) (some b)) :
    a.key = b.key := by
  cases h with
  | value => rfl
  | kept heq => exact (MaybeDocument.labels_of_beq heq).1

/-- **A write.** -/
theorem writeLocally_spec (h : Good s) {t : Timestamp} {mutations : List Mutation}
    (hsettles : Settles s (.write t mutations))
    (hcall : s.writeLocally t mutations = some (s', changes)) : Good s' ∧ Tells s s' changes := by
  obtain ⟨hne, q', rfl, hvalid, hqueue, rfl⟩ := writeLocally_cases h hcall
  have hgood : Good (s.withQueue q') := h.withQueue hvalid
  -- the batch is made to the local view, and the view is what the batches before it leave
  have hview : ∀ k, (s.withQueue q').localView k
      = shown k ((s.newBatch t mutations hne).applyToLocalDocument k (some (s.localView k))) := by
    intro k
    rw [localView_eq hgood.queue, viewOver, mutationQueue_withQueue, hqueue, read_concat]
    refine MutationBatch.applyToLocalDocument_shown ?_ _
    rw [localView_eq h.queue]
    rfl
  have hexisting : ∀ k, (s.existingDocuments mutations).get k
      = if (keysOf mutations).contains k = true then some (s.localView k) else none :=
    get_getDocuments h.queue _
  have hget : ∀ k, (keysOf mutations).contains k = true →
      SortedMap.Same
        ((s.newBatch t mutations hne).applyToLocalDocument k (some (s.localView k)))
        (((s.newBatch t mutations hne).applyToLocalDocumentSet
          (s.existingDocuments mutations)).get k) := by
    intro k hk
    have hdoc : (s.existingDocuments mutations).get k = some (s.localView k) := by
      rw [hexisting, if_pos hk]
    rw [← hdoc]
    refine MutationBatch.get_applyToLocalDocumentSet_of_settled fun hcount => ?_
    rw [hdoc]
    exact hsettles hne k hcount
  have hother : ∀ k, (keysOf mutations).contains k = false →
      (s.newBatch t mutations hne).mutates k = false := by
    intro k hk
    rw [Bool.eq_false_iff, ne_eq, contains_keysOf] at hk
    rw [Bool.eq_false_iff, ne_eq, MutationBatch.mutates_eq_true_iff]
    exact hk
  -- what is not written to is neither returned nor changed
  have hchanged : ∀ k, ∀ doc ∈ ((s.newBatch t mutations hne).applyToLocalDocumentSet
      (s.existingDocuments mutations)).get k,
      SortedMap.Same (some ((s.withQueue q').localView k)) (some doc) := by
    intro k doc hdoc
    cases hk : (keysOf mutations).contains k with
    | true =>
        have hsame := hget k hk
        rw [hdoc] at hsame
        rw [hview]
        cases hmade : (s.newBatch t mutations hne).applyToLocalDocument k
            (some (s.localView k)) with
        | none =>
            rw [hmade] at hsame
            cases hsame
        | some made => rwa [hmade] at hsame
    | false =>
        have huntouched := hother k hk
        rw [Option.mem_def, MutationBatch.get_applyToLocalDocumentSet_of_untouched huntouched,
          hexisting, hk] at hdoc
        cases hdoc
  refine ⟨hgood, hchanged, fun k doc hdoc => ?_, fun k hnone => ?_⟩
  · -- what is the same is under the same key
    exact (key_eq_of_same (hchanged k doc hdoc)).symm.trans (key_localView hgood k)
  · cases hk : (keysOf mutations).contains k with
    | true =>
        have hsome := MutationBatch.isSome_applyToLocalDocument
          (k := k) (d := some (s.localView k)) rfl (s.newBatch t mutations hne)
        rw [(hget k hk).isSome_eq, hnone] at hsome
        cases hsome
    | false =>
        rw [hview, MutationBatch.local_applyToLocalDocument _ k _ (hother k hk)]
        rfl

/-- A batch leaves the queue at its head. -/
theorem removeBatch_cases (h : Good s) (hmem : batch ∈ s.mutationQueue.queue)
    (hcall : s.removeBatch batch = some s') :
    ∃ q', s' = s.withQueue q' ∧ q'.Valid ∧ s.mutationQueue.queue = batch :: q'.queue := by
  rw [removeBatch, Option.bind_eq_bind, Option.bind_eq_some_iff] at hcall
  obtain ⟨q', hremove, hcheck⟩ := hcall
  obtain ⟨rest, hqueue⟩ := MutationQueue.head_of_remove h.queue hmem (by rw [hremove]; rfl)
  obtain ⟨q₁, hremove₁, hrest, hvalid⟩ := h.queue.remove hqueue
  rw [hremove, Option.some.injEq] at hremove₁
  subst hremove₁
  rw [if_pos hvalid.performConsistencyCheck, Option.some.injEq] at hcheck
  exact ⟨q', hcheck.symm, hvalid, by rw [hqueue, hrest]⟩

theorem localView_eq_of_removed (h : Good s) (h' : Good s')
    (hqueue : s.mutationQueue.queue = batch :: s'.mutationQueue.queue)
    (hdoc : s'.remoteDocuments.document k = s.remoteDocuments.document k)
    (hk : batch.keys.contains k = false) : s'.localView k = s.localView k := by
  rw [MutationBatch.contains_keys] at hk
  rw [localView_eq h'.queue, localView_eq h.queue, viewOver, viewOver, hqueue, read_cons,
    MutationBatch.local_applyToLocalDocument batch k _ hk, hdoc]

/-- What a refusal does. -/
theorem rejectBatch_cases (h : Good s) {batchId : ℤ}
    (hcall : s.rejectBatch batchId = some (s', changes)) :
    ∃ (batch : MutationBatch) (q' : MutationQueue), s' = s.withQueue q' ∧ q'.Valid
      ∧ s.mutationQueue.queue = batch :: q'.queue ∧ changes = s'.getDocuments batch.keys := by
  rw [rejectBatch, Option.bind_eq_bind, Option.bind_eq_some_iff] at hcall
  obtain ⟨batch, hlookup, hrest⟩ := hcall
  rw [Option.bind_eq_bind, Option.bind_eq_some_iff] at hrest
  obtain ⟨s₁, hremove, hreturn⟩ := hrest
  rw [Option.some.injEq, Prod.mk.injEq] at hreturn
  obtain ⟨rfl, rfl⟩ := hreturn
  obtain ⟨hmem, -⟩ := h.queue.lookup_eq_some_iff.mp hlookup
  obtain ⟨q', rfl, hvalid, hqueue⟩ := removeBatch_cases h hmem hremove
  exact ⟨batch, q', rfl, hvalid, hqueue, rfl⟩

/-- **A batch that the backend has refused.** -/
theorem rejectBatch_spec (h : Good s) {batchId : ℤ}
    (hcall : s.rejectBatch batchId = some (s', changes)) : Good s' ∧ Tells s s' changes := by
  obtain ⟨batch, q', rfl, hvalid, hqueue, rfl⟩ := rejectBatch_cases h hcall
  have hgood : Good (s.withQueue q') := h.withQueue hvalid
  rw [← mutationQueue_withQueue s q'] at hqueue
  exact ⟨hgood, tells_getDocuments hgood fun _ hk =>
    localView_eq_of_removed h hgood hqueue rfl hk⟩

/-- A cache has its documents under their keys. -/
def KeyedCache (cache : RemoteDocumentCache) : Prop :=
  ∀ k, ∀ doc ∈ cache.document k, doc.key = k

theorem document_addDocument_of_ne (cache : RemoteDocumentCache) (doc : AnyDocument)
    (readTime : SnapshotVersion) {k : DocumentKey} (hk : k ≠ doc.key) :
    (cache.addDocument doc readTime).document k = cache.document k := by
  rw [document, addDocument, SortedMap.get_insert_of_ne _ hk, document]

/-- A document that is added is in the cache, or the one before if that is the same. -/
theorem document_addDocument_self (cache : RemoteDocumentCache) (doc : AnyDocument)
    (readTime : SnapshotVersion) :
    ∃ kept, (cache.addDocument doc readTime).document doc.key = some kept ∧
      (kept = doc ∨ cache.document doc.key = some kept ∧ (doc == kept) = true) := by
  obtain ⟨e, hget, he⟩ := cache.get_insert_self doc.key (doc, readTime)
  refine ⟨e.1, ?_, ?_⟩
  · rw [document, addDocument, hget, Option.map_some]
  · rcases he with rfl | ⟨hold, hsame⟩
    · exact Or.inl rfl
    · refine Or.inr ⟨?_, (Bool.and_eq_true_iff.mp hsame).1⟩
      rw [document, hold, Option.map_some]

/-- A document that differs from the one before replaces it. -/
theorem document_addDocument {cache : RemoteDocumentCache} {doc : AnyDocument}
    (hnew : ∀ old ∈ cache.document doc.key, (doc == old) = false) (readTime : SnapshotVersion)
    (k : DocumentKey) :
    (cache.addDocument doc readTime).document k
      = if k = doc.key then some doc else cache.document k := by
  split
  · next hk =>
      obtain ⟨kept, hget, hkept⟩ := document_addDocument_self cache doc readTime
      rw [hk, hget]
      rcases hkept with rfl | ⟨hold, hsame⟩
      · rfl
      · rw [hnew kept hold] at hsame
        cases hsame
  · next hk => exact document_addDocument_of_ne cache doc readTime hk

theorem KeyedCache.addDocument {cache : RemoteDocumentCache} (h : KeyedCache cache)
    (doc : AnyDocument) (readTime : SnapshotVersion) :
    KeyedCache (cache.addDocument doc readTime) := by
  intro k d hd
  by_cases hk : k = doc.key
  · obtain ⟨kept, hget, hkept⟩ := document_addDocument_self cache doc readTime
    rw [hk, hget, Option.mem_def, Option.some.injEq] at hd
    rw [hk, ← hd]
    rcases hkept with rfl | ⟨hold, -⟩
    · rfl
    · exact h doc.key kept hold
  · rw [document_addDocument_of_ne cache doc readTime hk] at hd
    exact h k d hd

/-- What an answer does to a document: it is put in the cache, or the cache is as it was. -/
theorem applyDocumentResult_cases {r : MutationBatchResult} {cache cache' : RemoteDocumentCache}
    {key : DocumentKey} (h : KeyedCache cache)
    (hcall : applyDocumentResult r cache key = some cache') :
    (∃ doc, doc.key = key ∧ cache' = cache.addDocument doc r.commitVersion) ∨ cache' = cache := by
  rw [applyDocumentResult, Option.bind_eq_bind, Option.bind_eq_some_iff] at hcall
  obtain ⟨ackVersion, -, hcall⟩ := hcall
  split at hcall
  · rw [Option.bind_eq_bind, Option.bind_eq_some_iff] at hcall
    obtain ⟨doc, happly, hcall⟩ := hcall
    cases doc with
    | some doc =>
        have hkey : doc.key = key :=
          MutationBatch.key_applyToRemoteDocument (h key) happly doc rfl
        exact Or.inl ⟨doc, hkey, (Option.some.inj hcall).symm⟩
    | none =>
        dsimp only at hcall
        split at hcall
        · exact Or.inr (Option.some.inj hcall).symm
        · cases hcall
  · exact Or.inr (Option.some.inj hcall).symm

/-- An answer changes the document under its key, and no other. -/
theorem applyDocumentResult_spec {r : MutationBatchResult} {cache cache' : RemoteDocumentCache}
    {key : DocumentKey} (h : KeyedCache cache)
    (hcall : applyDocumentResult r cache key = some cache') :
    KeyedCache cache' ∧ ∀ k, k ≠ key → cache'.document k = cache.document k := by
  rcases applyDocumentResult_cases h hcall with ⟨doc, hkey, rfl⟩ | rfl
  · refine ⟨h.addDocument doc _, fun k hk => ?_⟩
    rw [document_addDocument_of_ne _ _ _ (hkey ▸ hk)]
  · exact ⟨h, fun _ _ => rfl⟩

theorem applyBatchResult_spec {r : MutationBatchResult} {cache cache' : RemoteDocumentCache}
    {keys : List DocumentKey} (h : KeyedCache cache)
    (hcall : keys.foldlM (applyDocumentResult r) cache = some cache') :
    KeyedCache cache' ∧ ∀ k ∉ keys, cache'.document k = cache.document k := by
  constructor
  · exact run_invariant (I := KeyedCache)
      (fun _ _ _ hc hstep => (applyDocumentResult_spec hc hstep).1) h hcall
  · intro k hk
    have hkept : ∀ c key c', key ∈ keys → KeyedCache c ∧ c.document k = cache.document k →
        applyDocumentResult r c key = some c' →
        KeyedCache c' ∧ c'.document k = cache.document k := by
      rintro c key c' hkey ⟨hkeyed, hdoc⟩ hstep
      obtain ⟨hkeyed', hother⟩ := applyDocumentResult_spec hkeyed hstep
      exact ⟨hkeyed', (hother k fun heq => hk (heq ▸ hkey)).trans hdoc⟩
    exact (run_invariant_of_mem hkept ⟨h, rfl⟩ hcall).2

/-- What an answer does. -/
theorem acknowledgeBatch_cases (h : Good s) {r : MutationBatchResult}
    (hmem : r.batch ∈ s.mutationQueue.queue)
    (hcall : s.acknowledgeBatch r = some (s', changes)) :
    ∃ cache q', (r.batch.keys.toList.map Prod.fst).foldlM (applyDocumentResult r) s.remoteDocuments
        = some cache
      ∧ s' = { s with remoteDocuments := cache }.withQueue q' ∧ q'.Valid
      ∧ s.mutationQueue.queue = r.batch :: q'.queue ∧ changes = s'.getDocuments r.batch.keys := by
  unfold acknowledgeBatch at hcall
  split at hcall
  · rw [Option.bind_eq_bind, Option.bind_eq_some_iff] at hcall
    obtain ⟨cache, happly, hcall⟩ := hcall
    rw [Option.bind_eq_bind, Option.bind_eq_some_iff] at hcall
    obtain ⟨s₂, hremove, hreturn⟩ := hcall
    rw [Option.some.injEq, Prod.mk.injEq] at hreturn
    obtain ⟨rfl, rfl⟩ := hreturn
    have hgood : Good { s with remoteDocuments := cache } :=
      ⟨h.queues, (applyBatchResult_spec h.keyed happly).1⟩
    obtain ⟨q', rfl, hvalid, hqueue⟩ := removeBatch_cases hgood hmem hremove
    exact ⟨cache, q', happly, rfl, hvalid, hqueue, rfl⟩
  · cases hcall

/-- **A batch that the backend has taken.** -/
theorem acknowledgeBatch_spec (h : Good s) {r : MutationBatchResult}
    (hmem : r.batch ∈ s.mutationQueue.queue)
    (hcall : s.acknowledgeBatch r = some (s', changes)) : Good s' ∧ Tells s s' changes := by
  obtain ⟨cache, q', happly, rfl, hvalid, hqueue, rfl⟩ := acknowledgeBatch_cases h hmem hcall
  obtain ⟨hkeyed, hother⟩ := applyBatchResult_spec h.keyed happly
  have hgood₁ : Good { s with remoteDocuments := cache } := ⟨h.queues, hkeyed⟩
  have hgood := hgood₁.withQueue hvalid
  rw [← mutationQueue_withQueue { s with remoteDocuments := cache } q'] at hqueue
  refine ⟨hgood, tells_getDocuments hgood fun k hk => ?_⟩
  have hnot : k ∉ r.batch.keys.toList.map Prod.fst := by
    rw [SortedMap.mem_keys_iff, ← SortedMap.contains_eq, hk]
    exact Bool.false_ne_true
  exact localView_eq_of_removed h hgood hqueue (hother k hnot) hk

/-- What is changed so far of an event: documents that are shown as those in the cache. -/
structure Merged (s : LocalStore) (acc : RemoteDocumentCache × OptionalMaybeDocumentMap) :
    Prop where
  keyed : KeyedCache acc.1
  changed : ∀ k, ∀ base ∈ acc.2.get k, shown k base = shown k (acc.1.document k)
  unchanged : ∀ k, acc.2.get k = none → acc.1.document k = s.remoteDocuments.document k

theorem Merged.put {acc : RemoteDocumentCache × OptionalMaybeDocumentMap} (h : Merged s acc)
    {cache : RemoteDocumentCache} {key : DocumentKey} {doc : AnyDocument}
    (hnew : acc.2.get key = none) (hkeyed : KeyedCache cache)
    (hdoc : shown key (some doc) = shown key (cache.document key))
    (hother : ∀ k, k ≠ key → cache.document k = acc.1.document k) :
    Merged s (cache, acc.2.insert key (some doc)) := by
  have hget := SortedMap.get_insert_of_get_eq_none hnew (some doc)
  refine ⟨hkeyed, fun k base hbase => ?_, fun k hnone => ?_⟩
  · rw [Option.mem_def, hget] at hbase
    split at hbase
    · next hk =>
        rw [hk, ← Option.some.inj hbase]
        exact hdoc
    · next hk =>
        rw [hother k hk]
        exact h.changed k base hbase
  · rw [hget] at hnone
    split at hnone
    · cases hnone
    · next hk =>
        rw [hother k hk]
        exact h.unchanged k hnone

/-- What an update does: the document goes, it comes, or it is no news. -/
theorem applyDocumentUpdate_cases {version : SnapshotVersion} {existing : Option AnyDocument}
    {acc acc' : RemoteDocumentCache × OptionalMaybeDocumentMap}
    {update : DocumentKey × AnyDocument}
    (hcall : applyDocumentUpdate version existing acc update = some acc') :
    (fabricated update.2 = true
        ∧ acc' = (acc.1.erase update.1, acc.2.insert update.1 (some update.2)))
      ∨ (version ≠ noVersion ∧ isNews existing update.2 = true
        ∧ acc' = (acc.1.addDocument update.2 version, acc.2.insert update.1 (some update.2)))
      ∨ acc' = acc := by
  unfold applyDocumentUpdate at hcall
  dsimp only at hcall
  split at hcall
  · next hfabricated => exact Or.inl ⟨hfabricated, (Option.some.inj hcall).symm⟩
  · split at hcall
    · next hnews =>
        split at hcall
        · cases hcall
        · next hversion =>
            exact Or.inr (Or.inl ⟨hversion, hnews, (Option.some.inj hcall).symm⟩)
    · exact Or.inr (Or.inr (Option.some.inj hcall).symm)

/-- An update keeps the cache under its keys. -/
theorem KeyedCache.update {acc acc' : RemoteDocumentCache × OptionalMaybeDocumentMap}
    (h : KeyedCache acc.1) {version : SnapshotVersion} {existing : Option AnyDocument}
    {update : DocumentKey × AnyDocument}
    (hcall : applyDocumentUpdate version existing acc update = some acc') : KeyedCache acc'.1 := by
  rcases applyDocumentUpdate_cases hcall with ⟨-, rfl⟩ | ⟨-, -, rfl⟩ | rfl
  · intro k d hd
    dsimp only at hd
    rw [document, SortedMap.get_erase_of_lawful] at hd
    split at hd
    · cases hd
    · exact h k d hd
  · exact h.addDocument update.2 _
  · exact h

/-- An update without pending writes that is news is not the same as what there is. -/
theorem not_same_of_isNews {existing : Option AnyDocument} {doc : AnyDocument}
    (hnews : isNews existing doc = true) (hpending : doc.hasPendingWrites = false) :
    ∀ old ∈ existing, (doc == old) = false := by
  intro old hold
  by_contra hsame
  obtain ⟨-, hversion, hwrites⟩ := MaybeDocument.labels_of_beq (Bool.not_eq_false _ ▸ hsame)
  rw [isNews, Option.all_eq_true] at hnews
  have hdecide := hnews old hold
  rw [← hversion, ← hwrites, hpending, Bool.and_false, Bool.or_false, decide_eq_true_eq] at hdecide
  exact absurd hdecide (lt_irrefl _)

theorem Merged.update {acc acc' : RemoteDocumentCache × OptionalMaybeDocumentMap}
    (h : Merged s acc) {version : SnapshotVersion} {update : DocumentKey × AnyDocument}
    (hnew : acc.2.get update.1 = none) (hkey : update.2.key = update.1)
    (hpending : update.2.hasPendingWrites = false)
    (hmissing : fabricated update.2 = true → update.2 = missing update.1)
    (hcall : applyDocumentUpdate version (s.remoteDocuments.document update.1) acc update
      = some acc') :
    Merged s acc' ∧ ∀ k, k ≠ update.1 → acc.2.get k = none → acc'.2.get k = none := by
  have hkeyed : KeyedCache acc'.1 := h.keyed.update hcall
  have hinsert := SortedMap.get_insert_of_get_eq_none hnew (some update.2)
  have hstill : ∀ k, k ≠ update.1 → acc.2.get k = none →
      (acc.2.insert update.1 (some update.2)).get k = none := by
    intro k hk hnone
    rw [hinsert, if_neg hk, hnone]
  have herase : ∀ k, document (acc.1.erase update.1) k
      = if k = update.1 then none else acc.1.document k := by
    intro k
    rw [document, SortedMap.get_erase_of_lawful]
    split <;> rfl
  rcases applyDocumentUpdate_cases hcall with ⟨hfabricated, rfl⟩ | ⟨-, hnews, rfl⟩ | rfl
  · refine ⟨h.put hnew hkeyed ?_ fun k hk => ?_, hstill⟩
    · rw [herase, if_pos rfl, hmissing hfabricated]
      rfl
    · rw [herase, if_neg hk]
  · -- the document there was is still in the cache, and is not the same
    have hdiffers : ∀ old ∈ acc.1.document update.2.key, (update.2 == old) = false := by
      rw [hkey, h.unchanged update.1 hnew]
      exact not_same_of_isNews hnews hpending
    refine ⟨h.put hnew hkeyed ?_ fun k hk => ?_, hstill⟩
    · rw [document_addDocument hdiffers, if_pos hkey.symm]
    · rw [document_addDocument hdiffers, hkey, if_neg hk]
  · exact ⟨h, fun _ _ hnone => hnone⟩

/-- The updates of an event, each of another document. -/
theorem Merged.updates {updates : List (DocumentKey × AnyDocument)} {version : SnapshotVersion}
    (hsettles : ∀ update ∈ updates, update.2.key = update.1 ∧
      update.2.hasPendingWrites = false ∧ (fabricated update.2 = true → update.2 = missing update.1))
    (hnodup : (updates.map Prod.fst).Nodup)
    {acc acc' : RemoteDocumentCache × OptionalMaybeDocumentMap} (h : Merged s acc)
    (hnew : ∀ update ∈ updates, acc.2.get update.1 = none)
    (hcall : updates.foldlM (fun acc update =>
      applyDocumentUpdate version (s.remoteDocuments.document update.1) acc update) acc
        = some acc') : Merged s acc' := by
  induction updates generalizing acc with
  | nil => exact Option.some.inj hcall ▸ h
  | cons update updates ih =>
      rw [List.map_cons, List.nodup_cons] at hnodup
      rw [List.forall_mem_cons] at hsettles hnew
      rw [List.foldlM_cons, Option.bind_eq_bind, Option.bind_eq_some_iff] at hcall
      obtain ⟨next, hstep, hrest⟩ := hcall
      obtain ⟨⟨hkey, hpending, hmissing⟩, hothers⟩ := hsettles
      obtain ⟨hmerged, hstill⟩ := h.update hnew.1 hkey hpending hmissing hstep
      refine ih hothers hnodup.2 hmerged (fun e he => hstill e.1 ?_ (hnew.2 e he)) hrest
      exact fun heq => hnodup.1 (heq ▸ List.mem_map_of_mem he)

/-- What an event does. -/
theorem applyRemoteEvent_cases {event : RemoteEvent}
    (hcall : s.applyRemoteEvent event = some (s', changes)) :
    ∃ cache changedDocs version,
      event.documentUpdates.foldlM
          (fun acc update => applyDocumentUpdate event.snapshotVersion
            (s.remoteDocuments.document update.1) acc update) (s.remoteDocuments, SortedMap.empty)
        = some (cache, changedDocs)
      ∧ s' = { s with remoteDocuments := cache, lastRemoteSnapshotVersion := version }
      ∧ changes = s'.getLocalViewOfDocuments changedDocs := by
  rw [applyRemoteEvent, Option.bind_eq_bind, Option.bind_eq_some_iff] at hcall
  obtain ⟨⟨cache, changedDocs⟩, hmerge, hcall⟩ := hcall
  dsimp only at hcall
  rw [Option.bind_eq_bind, Option.bind_eq_some_iff] at hcall
  obtain ⟨version, -, hreturn⟩ := hcall
  rw [Option.some.injEq, Prod.mk.injEq] at hreturn
  obtain ⟨rfl, rfl⟩ := hreturn
  exact ⟨cache, changedDocs, version, hmerge, rfl, rfl⟩

/-- A store is still good after what the backend says of documents. -/
theorem good_applyRemoteEvent (h : Good s) {event : RemoteEvent}
    (hcall : s.applyRemoteEvent event = some (s', changes)) : Good s' := by
  obtain ⟨cache, changedDocs, version, hmerge, rfl, -⟩ := applyRemoteEvent_cases hcall
  have hinit : KeyedCache s.remoteDocuments := h.keyed
  have hkeyed : KeyedCache (cache, changedDocs).1 := run_invariant
    (I := fun acc : RemoteDocumentCache × OptionalMaybeDocumentMap => KeyedCache acc.1)
    (fun _ _ _ hacc hstep => hacc.update hstep) hinit hmerge
  exact ⟨h.queues, hkeyed⟩

/-- **What the backend says of documents.** -/
theorem applyRemoteEvent_spec (h : Good s) {event : RemoteEvent}
    (hkeeps : Keeps s (.remoteEvent event)) (hsettles : Settles s (.remoteEvent event))
    (hcall : s.applyRemoteEvent event = some (s', changes)) : Tells s s' changes := by
  have hgood := good_applyRemoteEvent h hcall
  obtain ⟨cache, changedDocs, version, hmerge, rfl, rfl⟩ := applyRemoteEvent_cases hcall
  -- the updates are merged one by one, each under its own key
  have hmerged : Merged s (cache, changedDocs) := by
    have hinit : Merged s (s.remoteDocuments, SortedMap.empty) :=
      ⟨h.keyed, fun _ _ hbase => absurd hbase (Option.not_mem_none _), fun _ _ => rfl⟩
    exact Merged.updates (fun update hmem => ⟨hkeeps update hmem, hsettles update hmem⟩)
      event.nodup hinit (fun _ _ => rfl) hmerge
  have hchanged : ∀ k, ∀ doc ∈ (({ s with
      remoteDocuments := cache, lastRemoteSnapshotVersion := version } :
        LocalStore).getLocalViewOfDocuments changedDocs).get k,
      doc = ({ s with remoteDocuments := cache, lastRemoteSnapshotVersion := version } :
        LocalStore).localView k := by
    intro k doc hdoc
    rw [Option.mem_def, get_getLocalViewOfDocuments hgood.queue, Option.map_eq_some_iff] at hdoc
    obtain ⟨base, hbase, rfl⟩ := hdoc
    rw [localView_eq hgood.queue]
    exact viewOver_congr (hmerged.changed k base hbase)
  refine ⟨fun k doc hdoc => ?_, fun k doc hdoc => ?_, fun k hnone => ?_⟩
  · rw [hchanged k doc hdoc]
    exact SortedMap.Same.value _
  · rw [hchanged k doc hdoc]
    exact key_localView hgood k
  · rw [get_getLocalViewOfDocuments hgood.queue, Option.map_eq_none_iff] at hnone
    rw [localView_eq hgood.queue, localView_eq h.queue]
    exact congrArg (s.viewOver k) (hmerged.unchanged k hnone)

/-- **Another user.** -/
theorem handleUserChange_spec (h : Good s) (user : User) :
    Good (s.handleUserChange user).1
      ∧ Tells s (s.handleUserChange user).1 (s.handleUserChange user).2 := by
  have hgood : Good (s.handleUserChange user).1 := by
    refine ⟨fun user' => ?_, h.keyed⟩
    rw [handleUserChange]
    dsimp only
    by_cases huser : user' = user
    · rw [huser, Function.update_self]
      exact (h.queues user).start
    · rw [Function.update_of_ne huser]
      exact h.queues user'
  refine ⟨hgood, tells_getDocuments hgood fun k hk => ?_⟩
  rw [Bool.eq_false_iff, ne_eq, contains_keysOf] at hk
  -- the keys are those of both queues, so neither user has written to any other
  have huntouched : ∀ b ∈ s.mutationQueue.queue ++ (s.handleUserChange user).1.mutationQueue.queue,
      b.mutates k = false := by
    intro b hb
    rw [Bool.eq_false_iff, ne_eq, MutationBatch.mutates_eq_true_iff]
    rintro ⟨m, hm, hkey⟩
    exact hk ⟨m, List.mem_flatMap.mpr ⟨b, hb, hm⟩, hkey⟩
  rw [localView_of_untouched hgood fun b hb => huntouched b (List.mem_append_right _ hb),
    localView_of_untouched h fun b hb => huntouched b (List.mem_append_left _ hb)]
  rfl

/-- A call leaves a store good. -/
theorem good_emit (h : Good s) {c : StoreCall} (hkeeps : Keeps s c)
    (hcall : s.emit c = some (s', changes)) : Good s' := by
  cases c with
  | write t mutations =>
      obtain ⟨_, q', rfl, hvalid, -⟩ := writeLocally_cases h hcall
      exact h.withQueue hvalid
  | acknowledge result => exact (acknowledgeBatch_spec h hkeeps hcall).1
  | reject batchId => exact (rejectBatch_spec h hcall).1
  | remoteEvent event => exact good_applyRemoteEvent h hcall
  | userChange user =>
      rw [emit, Option.some.injEq] at hcall
      obtain ⟨hgood, -⟩ := handleUserChange_spec h user
      rwa [hcall] at hgood
  | release =>
      rw [emit, Option.some.injEq, Prod.mk.injEq] at hcall
      exact hcall.1 ▸ h

/-- **The documents that a call returns are the local views that it changes**, or the same. -/
theorem emit_spec (h : Good s) {c : StoreCall} (hkeeps : Keeps s c) (hsettles : Settles s c)
    (hcall : s.emit c = some (s', changes)) : Tells s s' changes := by
  cases c with
  | write t mutations => exact (writeLocally_spec h hsettles hcall).2
  | acknowledge result => exact (acknowledgeBatch_spec h hkeeps hcall).2
  | reject batchId => exact (rejectBatch_spec h hcall).2
  | remoteEvent event => exact applyRemoteEvent_spec h hkeeps hsettles hcall
  | userChange user =>
      rw [emit, Option.some.injEq] at hcall
      obtain ⟨-, htells⟩ := handleUserChange_spec h user
      rwa [hcall] at htells
  | release =>
      rw [emit, Option.some.injEq, Prod.mk.injEq] at hcall
      obtain ⟨rfl, rfl⟩ := hcall
      exact ⟨(fun _ _ hdoc => nomatch hdoc), (fun _ _ hdoc => nomatch hdoc), fun _ _ => rfl⟩

/-! ### The end of a transaction -/

section Commit

variable {orphaned : List DocumentKey} {referenced : DocumentKey → Bool}

theorem document_committed (s : LocalStore) (orphaned : List DocumentKey)
    (referenced : DocumentKey → Bool) (k : DocumentKey) :
    (s.onTransactionCommitted orphaned referenced).remoteDocuments.document k
      = if k ∈ orphaned ∧ referenced k = false ∧ s.mutationQueue.containsKey k = false then none
        else s.remoteDocuments.document k := by
  rw [document, onTransactionCommitted]
  dsimp only
  rw [SortedMap.get_foldl_erase]
  simp only [List.mem_filter, Bool.not_eq_true', Bool.or_eq_false_iff]
  split <;> rfl

theorem good_committed (h : Good s) (orphaned : List DocumentKey)
    (referenced : DocumentKey → Bool) : Good (s.onTransactionCommitted orphaned referenced) := by
  refine ⟨h.queues, fun k doc hdoc => ?_⟩
  rw [document_committed] at hdoc
  split at hdoc
  · cases hdoc
  · exact h.keyed k doc hdoc

/-- A document that something refers to is shown as before. -/
theorem localView_committed (h : Good s) (hk : k ∈ orphaned → referenced k = true) :
    (s.onTransactionCommitted orphaned referenced).localView k = s.localView k := by
  have hdoc : (s.onTransactionCommitted orphaned referenced).remoteDocuments.document k
      = s.remoteDocuments.document k := by
    rw [document_committed, if_neg]
    rintro ⟨hmem, hnot, -⟩
    rw [hk hmem] at hnot
    cases hnot
  rw [localView_eq (good_committed h orphaned referenced).queue, localView_eq h.queue, hdoc]
  rfl

end Commit

theorem good_step {t : StoreTransaction} (h : Good s) (hkeeps : Keeps s t.call)
    (hstep : step s t = some s') : Good s' := by
  obtain ⟨⟨s₁, changes⟩, hcall, rfl⟩ := Option.map_eq_some_iff.mp hstep
  exact good_committed (good_emit h hkeeps hcall) _ _

theorem good_run {ts : List StoreTransaction} (h : Good s)
    (hkeeps : AllSteps step (fun s t => Keeps s t.call) s ts) (hrun : run step s ts = some s') :
    Good s' :=
  run_invariant_of_allSteps (I := Good) (fun _ _ _ h hkeeps hstep => good_step h hkeeps hstep) h
    hkeeps hrun

/-! ## 6. What batches and read times keep -/

section AllHold

variable {P : MutationBatch → Prop} {R : SnapshotVersion → Prop}

/-- What all batches of all users have, and all times that documents were read at. -/
structure AllHold (P : MutationBatch → Prop) (R : SnapshotVersion → Prop) (s : LocalStore) :
    Prop where
  batches : ∀ user, ∀ b ∈ (s.queues user).queue, P b
  readTimes : ∀ k e, s.remoteDocuments.get k = some e → R e.2

/-- What a call has to bring for it to stay so. -/
def Brings (P : MutationBatch → Prop) (R : SnapshotVersion → Prop) (s : LocalStore) :
    StoreCall → Prop
  | .write localWriteTime mutations => ∀ nonempty, P (s.newBatch localWriteTime mutations nonempty)
  | .acknowledge result => R result.commitVersion
  | .remoteEvent event => event.snapshotVersion ≠ noVersion → R event.snapshotVersion
  | _ => True

theorem AllHold.withQueue (h : AllHold P R s) {q : MutationQueue} (hq : ∀ b ∈ q.queue, P b) :
    AllHold P R (s.withQueue q) := by
  refine ⟨fun user => ?_, h.readTimes⟩
  rw [LocalStore.withQueue]
  dsimp only
  by_cases huser : user = s.user
  · rw [huser, Function.update_self]
    exact hq
  · rw [Function.update_of_ne huser]
    exact h.batches user

theorem readTimes_addDocument {cache : RemoteDocumentCache}
    (h : ∀ k e, cache.get k = some e → R e.2) (doc : AnyDocument) {readTime : SnapshotVersion}
    (hR : R readTime) : ∀ k e, (cache.addDocument doc readTime).get k = some e → R e.2 := by
  intro k e he
  by_cases hk : k = doc.key
  · obtain ⟨kept, hget, hkept⟩ := cache.get_insert_self doc.key (doc, readTime)
    rw [hk, addDocument, hget, Option.some.injEq] at he
    rw [← he]
    rcases hkept with rfl | ⟨hold, -⟩
    · exact hR
    · exact h doc.key kept hold
  · rw [addDocument, SortedMap.get_insert_of_ne _ hk] at he
    exact h k e he

/-- **The rule of batches and read times.** -/
theorem AllHold.emit (hall : AllHold P R s) (h : Good s) {c : StoreCall} (hkeeps : Keeps s c)
    (hbrings : Brings P R s c) (hcall : s.emit c = some (s', changes)) : AllHold P R s' := by
  -- a queue that loses its first batch has no new ones
  have hhead : ∀ (batch : MutationBatch) (rest : List MutationBatch),
      s.mutationQueue.queue = batch :: rest → ∀ b ∈ rest, P b := by
    intro batch rest hqueue b hb
    refine hall.batches s.user b ?_
    have hmem : b ∈ s.mutationQueue.queue := by
      rw [hqueue]
      exact List.mem_cons_of_mem _ hb
    exact hmem
  cases c with
  | write t mutations =>
      obtain ⟨hne, q', rfl, -, hqueue, -⟩ := writeLocally_cases h hcall
      refine hall.withQueue fun b hb => ?_
      rw [hqueue, List.mem_append, List.mem_singleton] at hb
      rcases hb with hb | rfl
      · exact hall.batches s.user b hb
      · exact hbrings hne
  | acknowledge result =>
      obtain ⟨cache, q', happly, rfl, -, hqueue, -⟩ := acknowledgeBatch_cases h hkeeps hcall
      have hcache : KeyedCache cache ∧ ∀ k e, cache.get k = some e → R e.2 := by
        refine run_invariant
          (I := fun cache : RemoteDocumentCache =>
            KeyedCache cache ∧ ∀ k e, cache.get k = some e → R e.2)
          ?_ ⟨h.keyed, hall.readTimes⟩ happly
        rintro cache key cache' ⟨hkeyed, htimes⟩ hstep
        refine ⟨(applyDocumentResult_spec hkeyed hstep).1, ?_⟩
        rcases applyDocumentResult_cases hkeyed hstep with ⟨doc, -, rfl⟩ | rfl
        · exact readTimes_addDocument htimes doc hbrings
        · exact htimes
      have hcached : AllHold P R { s with remoteDocuments := cache } := ⟨hall.batches, hcache.2⟩
      exact hcached.withQueue (hhead _ _ hqueue)
  | reject batchId =>
      obtain ⟨batch, q', rfl, -, hqueue, -⟩ := rejectBatch_cases h hcall
      exact hall.withQueue (hhead _ _ hqueue)
  | remoteEvent event =>
      obtain ⟨cache, changedDocs, version, hmerge, rfl, -⟩ := applyRemoteEvent_cases hcall
      refine ⟨hall.batches, ?_⟩
      refine run_invariant
        (I := fun acc : RemoteDocumentCache × OptionalMaybeDocumentMap =>
          ∀ k e, acc.1.get k = some e → R e.2) ?_ hall.readTimes hmerge
      intro acc update acc' htimes hstep
      rcases applyDocumentUpdate_cases hstep with ⟨-, rfl⟩ | ⟨hversion, -, rfl⟩ | rfl
      · intro k e he
        dsimp only at he
        rw [SortedMap.get_erase_of_lawful] at he
        split at he
        · cases he
        · exact htimes k e he
      · exact readTimes_addDocument htimes update.2 (hbrings hversion)
      · exact htimes
  | userChange user =>
      rw [LocalStore.emit, Option.some.injEq, handleUserChange, Prod.mk.injEq] at hcall
      obtain ⟨rfl, -⟩ := hcall
      refine ⟨fun user' b hb => ?_, hall.readTimes⟩
      dsimp only at hb
      by_cases huser : user' = user
      · rw [huser, Function.update_self, MutationQueue.queue_start] at hb
        exact hall.batches user b hb
      · rw [Function.update_of_ne huser] at hb
        exact hall.batches user' b hb
  | release =>
      rw [LocalStore.emit, Option.some.injEq, Prod.mk.injEq] at hcall
      exact hcall.1 ▸ hall

theorem AllHold.step (hall : AllHold P R s) (h : Good s) {t : StoreTransaction}
    (hkeeps : Keeps s t.call) (hbrings : Brings P R s t.call) (hstep : step s t = some s') :
    AllHold P R s' := by
  obtain ⟨⟨s₁, changes⟩, hcall, rfl⟩ := Option.map_eq_some_iff.mp hstep
  obtain ⟨hbatches, htimes⟩ := hall.emit h hkeeps hbrings hcall
  refine ⟨hbatches, fun k e he => ?_⟩
  rw [onTransactionCommitted] at he
  dsimp only at he
  rw [SortedMap.get_foldl_erase] at he
  split at he
  · cases he
  · exact htimes k e he

end AllHold

end LocalStore

end FreeFood.Firestore
