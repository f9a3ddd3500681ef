/-
`core/view.h`: the documents that a query shows, kept up to date from what changes in the
local cache.

`ComputeDocumentChanges` goes through the changed documents once and then drops what a
limit leaves out; when a full limit lost a document it asks for a refill, which is the
same pass over all that the cache has, on top of the first. `resolve` says what one
changed document leaves in the view, and the pass is that function key by key. What the
passes of a whole run leave is stated against the cache they were told of: the view
shows what the cache has and the query matches, up to data that waits for the
acknowledgement of a write to come back from the backend.
-/
import FreeFood.Firestore.Query
import FreeFood.Firestore.ViewSnapshot

set_option autoImplicit false

namespace FreeFood.Firestore

open Std

/-- `MaybeDocumentMap`. -/
abbrev MaybeDocumentMap (D : Type) := SortedMap DocumentKey (MaybeDocument D) compareKeys

/-- `SyncState`. -/
inductive SyncState where
  | none
  | local
  | synced
deriving DecidableEq

/-- `LimboDocumentChange`. -/
inductive LimboDocumentChange where
  | added (key : DocumentKey)
  | removed (key : DocumentKey)
deriving DecidableEq

/-- `TargetChange`, as far as a view reads it. -/
structure TargetChange where
  current : Bool
  addedDocuments : List DocumentKey
  modifiedDocuments : List DocumentKey
  removedDocuments : List DocumentKey

/-- `OnlineState`. -/
inductive OnlineState where
  | unknown
  | online
  | offline
deriving DecidableEq

/-- `ViewDocumentChanges`. -/
structure ViewDocumentChanges (D : Type) (cmp : Document D → Document D → Ordering) where
  documentSet : DocumentSet D cmp
  changeSet : DocumentViewChangeSet D
  mutatedKeys : DocumentKeySet
  needsRefill : Bool

variable {D V : Type} [Ord D] [Ord V] [ObjectData D V]

/-- `View`, of a query. -/
structure View (q : Query D) where
  documentSet : DocumentSet D q.comparator
  syncedDocuments : DocumentKeySet
  limboDocuments : DocumentKeySet
  mutatedKeys : DocumentKeySet
  current : Bool
  syncState : SyncState

/-- `ViewChange`. -/
structure ViewChange (q : Query D) where
  snapshot : Option (ViewSnapshot D q.comparator)
  limboChanges : List LimboDocumentChange

/-- `ShouldWaitForSyncedDocument`. -/
def shouldWaitForSyncedDocument (newDoc oldDoc : Document D) : Bool :=
  oldDoc.hasLocalMutations && newDoc.hasCommittedMutations && !newDoc.hasLocalMutations

/-! ## 1. The changes of a pass -/

namespace ViewDocumentChanges

variable {cmp : Document D → Document D → Ordering} [DocumentComparator cmp]

/-- What is done for a document that is shown: `change_applied`, with `new_doc`. -/
def put (acc : ViewDocumentChanges D cmp) (doc : Document D) : ViewDocumentChanges D cmp :=
  { acc with
    documentSet := acc.documentSet.insert doc
    mutatedKeys :=
      if doc.hasLocalMutations then acc.mutatedKeys.insert doc.key ()
      else acc.mutatedKeys.erase doc.key }

/-- What is done for a document that is not shown any more. -/
def drop (acc : ViewDocumentChanges D cmp) (key : DocumentKey) : ViewDocumentChanges D cmp :=
  { acc with
    documentSet := acc.documentSet.erase key
    mutatedKeys := acc.mutatedKeys.erase key }

omit [DocumentComparator cmp] in
/-- `needs_refill = true`, on a condition. -/
def askRefill (acc : ViewDocumentChanges D cmp) (b : Bool) : ViewDocumentChanges D cmp :=
  { acc with needsRefill := acc.needsRefill || b }

omit [Ord D] [DocumentComparator cmp] in
@[simp] theorem askRefill_documentSet (acc : ViewDocumentChanges D cmp) (b : Bool) :
    (acc.askRefill b).documentSet = acc.documentSet := rfl

omit [DocumentComparator cmp] in
/-- `AddChange` on the changes of the pass. -/
def addChange (acc : ViewDocumentChanges D cmp) (change : DocumentViewChange D) :
    Option (ViewDocumentChanges D cmp) :=
  (acc.changeSet.addChange change).map fun changeSet => { acc with changeSet := changeSet }

end ViewDocumentChanges

namespace View

variable {q : Query D}

/-- A view of a query with nothing in it yet. -/
def create (q : Query D) (remoteDocuments : DocumentKeySet) : View q where
  documentSet := DocumentSet.empty
  syncedDocuments := remoteDocuments
  limboDocuments := SortedMap.empty
  mutatedKeys := SortedMap.empty
  current := false
  syncState := .none

/-- `last_doc_in_limit`. -/
def lastDocInLimit (old : DocumentSet D q.comparator) : Option (Document D) :=
  if q.hasLimitToFirst && old.size == q.limit then old.getLastDocument else none

/-- `first_doc_in_limit`. -/
def firstDocInLimit (old : DocumentSet D q.comparator) : Option (Document D) :=
  if q.hasLimitToLast && old.size == q.limit then old.getFirstDocument else none

/-- `outside_limit || outside_limit_to_last`. -/
def outsideLimit (old : DocumentSet D q.comparator) (doc : Document D) : Bool :=
  (lastDocInLimit old).any (fun last => q.comparator doc last == .gt) ||
    (firstDocInLimit old).any (fun first => q.comparator doc first == .lt)

/-- `new_doc`: the document under a key, if there is one and the query matches it. -/
def matched (q : Query D) (maybeDoc : MaybeDocument D) : Option (Document D) :=
  maybeDoc.document?.filter q.matchesDoc

/-- `new_doc_has_pending_mutations`. -/
def hasPendingMutations (oldMutatedKeys : DocumentKeySet) (doc : Document D) : Bool :=
  doc.hasLocalMutations || (oldMutatedKeys.contains doc.key && doc.hasCommittedMutations)

section Compute

variable [TransOrd V]

/-- The body of the loop of `ComputeDocumentChanges`. -/
def computeChange (old : DocumentSet D q.comparator) (oldMutatedKeys : DocumentKeySet)
    (acc : ViewDocumentChanges D q.comparator) (entry : DocumentKey × MaybeDocument D) :
    Option (ViewDocumentChanges D q.comparator) :=
  if entry.2.document?.any fun doc => doc.key != entry.1 then none
  else
    match old.getDocument entry.1, matched q entry.2 with
    | some oldDoc, some newDoc =>
        if compare oldDoc.data newDoc.data != .eq then
          if shouldWaitForSyncedDocument newDoc oldDoc then some acc
          else do
            let acc ← acc.addChange ⟨newDoc, .modified⟩
            some ((acc.put newDoc).askRefill (outsideLimit old newDoc))
        else if oldMutatedKeys.contains entry.1 != hasPendingMutations oldMutatedKeys newDoc then do
          let acc ← acc.addChange ⟨newDoc, .metadata⟩
          some (acc.put newDoc)
        else some acc
    | none, some newDoc => do
        let acc ← acc.addChange ⟨newDoc, .added⟩
        some (acc.put newDoc)
    | some oldDoc, none => do
        let acc ← acc.addChange ⟨oldDoc, .removed⟩
        some ((acc.drop entry.1).askRefill
          ((lastDocInLimit old).isSome || (firstDocInLimit old).isSome))
    | none, none => some acc

/-- The document that the limit drops next. -/
def outermost (q : Query D) (s : DocumentSet D q.comparator) : Option (Document D) :=
  if q.hasLimitToFirst then s.getLastDocument else s.getFirstDocument

/-- The loop that drops documents to meet a limit. -/
def dropToLimit : ℕ → ViewDocumentChanges D q.comparator →
    Option (ViewDocumentChanges D q.comparator)
  | 0, acc => some acc
  | n + 1, acc => do
      let oldDoc ← outermost q acc.documentSet
      let acc ← acc.addChange ⟨oldDoc, .removed⟩
      dropToLimit n (acc.drop oldDoc.key)

/-- The part of `ComputeDocumentChanges` that drops documents out to meet the limit. -/
def meetLimit (acc : ViewDocumentChanges D q.comparator) :
    Option (ViewDocumentChanges D q.comparator) :=
  if q.limitType = .none then some acc
  else dropToLimit (acc.documentSet.size - q.limit) acc

/-- What a pass starts from: the view as it is, or the changes of the pass before. -/
def passStart (v : View q) :
    Option (ViewDocumentChanges D q.comparator) → ViewDocumentChanges D q.comparator
  | some previous => { previous with needsRefill := false }
  | none => ⟨v.documentSet, DocumentViewChangeSet.empty, v.mutatedKeys, false⟩

/-- `ComputeDocumentChanges`, `none` where an assertion fails. -/
def computeDocumentChanges (v : View q) (docChanges : MaybeDocumentMap D)
    (previousChanges : Option (ViewDocumentChanges D q.comparator)) :
    Option (ViewDocumentChanges D q.comparator) := do
  let start := passStart v previousChanges
  let acc ← docChanges.toList.foldlM (computeChange start.documentSet v.mutatedKeys) start
  let acc ← meetLimit acc
  if acc.needsRefill && previousChanges.isSome then none else some acc

end Compute

/-! ## 2. Applying them -/

/-- `GetDocumentViewChangeTypePosition`. -/
def typePosition : DocumentViewChangeType → ℕ
  | .removed => 0
  | .added => 1
  | .modified => 2
  | .metadata => 2

/-- The order in which a snapshot lists its changes. -/
def changeComparator (q : Query D) (a b : DocumentViewChange D) : Ordering :=
  (compare (typePosition a.type) (typePosition b.type)).then (q.comparator a.document b.document)

/-- `ApplyTargetChange`, `none` where it asserts that a modified document is one of the
synced ones. -/
def applyTargetChange (v : View q) : Option TargetChange → Option (View q)
  | none => some v
  | some change =>
      let added := change.addedDocuments.foldl (fun s k => s.insert k ()) v.syncedDocuments
      if change.modifiedDocuments.all fun k => added.contains k then
        some { v with
          syncedDocuments := change.removedDocuments.foldl (fun s k => s.erase k) added
          current := change.current }
      else none

/-- `ShouldBeInLimbo`. -/
def shouldBeInLimbo (v : View q) (key : DocumentKey) : Bool :=
  !v.syncedDocuments.contains key &&
    (v.documentSet.getDocument key).any fun doc => !doc.hasLocalMutations

/-- `UpdateLimboDocuments`. -/
def updateLimboDocuments (v : View q) : View q × List LimboDocumentChange :=
  if v.current then
    let limbo : DocumentKeySet := v.documentSet.toList.foldl
      (fun s doc => if v.shouldBeInLimbo doc.key then s.insert doc.key () else s) SortedMap.empty
    let removed := (v.limboDocuments.toList.map Prod.fst).filter fun k => !limbo.contains k
    let added := (limbo.toList.map Prod.fst).filter fun k => !v.limboDocuments.contains k
    ({ v with limboDocuments := limbo },
      removed.map LimboDocumentChange.removed ++ added.map LimboDocumentChange.added)
  else (v, [])

/-- The changes of a snapshot, sorted. -/
def sortedChanges (docChanges : ViewDocumentChanges D q.comparator) : List (DocumentViewChange D) :=
  docChanges.changeSet.getChanges.mergeSort fun a b => (changeComparator q a b).isLE

/-- `new_sync_state`. -/
def newSyncState (v : View q) : SyncState :=
  if v.limboDocuments.isEmpty && v.current then .synced else .local

/-- The end of `ApplyChanges`: the view with its sync state, and the snapshot if there is
something to tell. -/
def conclude (v updated : View q) (docChanges : ViewDocumentChanges D q.comparator)
    (limboChanges : List LimboDocumentChange) : View q × ViewChange q :=
  let changes := sortedChanges docChanges
  let syncStateChanged := updated.newSyncState != v.syncState
  ({ updated with syncState := updated.newSyncState },
    if changes.isEmpty && !syncStateChanged then ⟨none, limboChanges⟩
    else
      ⟨some
        { documents := docChanges.documentSet
          oldDocuments := v.documentSet
          documentChanges := changes
          mutatedKeys := docChanges.mutatedKeys
          fromCache := updated.newSyncState == .local
          syncStateChanged := syncStateChanged
          excludesMetadataChanges := false }, limboChanges⟩)

/-- `ApplyChanges`, `none` where an assertion fails. -/
def applyChanges (v : View q) (docChanges : ViewDocumentChanges D q.comparator)
    (targetChange : Option TargetChange) : Option (View q × ViewChange q) :=
  if docChanges.needsRefill then none
  else do
    let applied ← applyTargetChange
      { v with documentSet := docChanges.documentSet, mutatedKeys := docChanges.mutatedKeys }
      targetChange
    let updated := updateLimboDocuments applied
    some (conclude v updated.1 docChanges updated.2)

/-- `ApplyOnlineStateChange`. -/
def applyOnlineStateChange (v : View q) (onlineState : OnlineState) :
    Option (View q × ViewChange q) :=
  if v.current && onlineState == .offline then
    applyChanges { v with current := false }
      ⟨v.documentSet, DocumentViewChangeSet.empty, v.mutatedKeys, false⟩ none
  else some (v, ⟨none, []⟩)

/-! ## 3. A pass, key by key -/

section Pass

variable [TransOrd D] [TransOrd V]

/-- What holds of the changes of a pass at every point: they tell how the documents came
from those of the base, and the mutated keys are those of the documents with local
mutations. -/
structure Sound (base : DocumentSet D q.comparator) (acc : ViewDocumentChanges D q.comparator) :
    Prop where
  explains : ∀ k, Explains (base.getDocument k) (acc.documentSet.getDocument k)
    (acc.changeSet.get k)
  mutated : ∀ k, acc.mutatedKeys.contains k
    = (acc.documentSet.getDocument k).any Document.hasLocalMutations

variable {base : DocumentSet D q.comparator} {acc : ViewDocumentChanges D q.comparator}

omit [TransOrd D] [TransOrd V] in
theorem Sound.askRefill (h : Sound base acc) (b : Bool) : Sound base (acc.askRefill b) :=
  ⟨h.explains, h.mutated⟩

omit [TransOrd V] in
/-- A change that follows on the documents of the pass is taken. -/
theorem Sound.addChange (h : Sound base acc) {c : DocumentViewChange D}
    {n : Option (Document D)}
    (hc : Explains (acc.documentSet.getDocument c.document.key) n (some c))
    (hexact : acc.changeSet.get c.document.key ≠ none →
      ∀ a ∈ acc.documentSet.getDocument c.document.key, ∀ b ∈ n, (b == a) = true → a = b) :
    ∃ changeSet, acc.addChange c = some { acc with changeSet := changeSet } ∧
      Explains (base.getDocument c.document.key) n (changeSet.get c.document.key) ∧
      ∀ k, k ≠ c.document.key → changeSet.get k = acc.changeSet.get k := by
  have hbase : ∀ d ∈ base.getDocument c.document.key, d.key = c.document.key :=
    fun d hd => DocumentSet.getDocument_key hd
  obtain ⟨changeSet, hadd, hexplains, hother⟩ :=
    DocumentViewChangeSet.addChange_spec hbase (h.explains c.document.key) hc hexact
  refine ⟨changeSet, ?_, hexplains, hother⟩
  rw [ViewDocumentChanges.addChange, hadd]
  rfl

/-- A document that is put, with the change that says so. -/
theorem Sound.put (h : Sound base acc) {doc : Document D} {t : DocumentViewChangeType}
    (hc : Explains (acc.documentSet.getDocument doc.key) (some doc) (some ⟨doc, t⟩))
    (hexact : acc.changeSet.get doc.key ≠ none →
      ∀ a ∈ acc.documentSet.getDocument doc.key, (doc == a) = true → a = doc) :
    ∃ changeSet, acc.addChange ⟨doc, t⟩ = some { acc with changeSet := changeSet } ∧
      Sound base ({ acc with changeSet := changeSet }.put doc) ∧
      ∀ k, k ≠ doc.key → changeSet.get k = acc.changeSet.get k := by
  obtain ⟨changeSet, hadd, hexplains, hother⟩ := h.addChange (c := ⟨doc, t⟩) hc
    fun hne a ha b hb => Option.some.inj hb ▸ hexact hne a ha
  refine ⟨changeSet, hadd, ⟨?_, ?_⟩, hother⟩
  · intro k
    rw [ViewDocumentChanges.put, DocumentSet.getDocument_insert]
    by_cases hk : k = doc.key
    · rw [if_pos hk, hk]
      exact hexplains
    · rw [if_neg hk, hother k hk]
      exact h.explains k
  · intro k
    have hmutated := h.mutated k
    rw [SortedMap.contains_eq] at hmutated ⊢
    rw [ViewDocumentChanges.put, DocumentSet.getDocument_insert]
    dsimp only
    by_cases hk : k = doc.key
    · rw [if_pos hk, Option.any_some]
      split
      · next hlocal => rw [SortedMap.get_insert_of_lawful, if_pos hk, hlocal, Option.isSome_some]
      · next hlocal =>
          rw [SortedMap.get_erase_of_lawful, if_pos hk, Option.isSome_none]
          exact (Bool.eq_false_iff.mpr hlocal).symm
    · rw [if_neg hk, ← hmutated]
      split
      · rw [SortedMap.get_insert_of_lawful, if_neg hk]
      · rw [SortedMap.get_erase_of_lawful, if_neg hk]

/-- A document that is dropped, with the change that says so. -/
theorem Sound.drop (h : Sound base acc) {doc : Document D}
    (hdoc : acc.documentSet.getDocument doc.key = some doc) :
    ∃ changeSet, acc.addChange ⟨doc, .removed⟩ = some { acc with changeSet := changeSet } ∧
      Sound base ({ acc with changeSet := changeSet }.drop doc.key) ∧
      ∀ k, k ≠ doc.key → changeSet.get k = acc.changeSet.get k := by
  have hc : Explains (acc.documentSet.getDocument doc.key) none (some ⟨doc, .removed⟩) := by
    rw [hdoc]
    exact Explains.removed rfl
  obtain ⟨changeSet, hadd, hexplains, hother⟩ := h.addChange (c := ⟨doc, .removed⟩) hc
    fun _ _ _ _ hb => nomatch hb
  refine ⟨changeSet, hadd, ⟨?_, ?_⟩, hother⟩
  · intro k
    rw [ViewDocumentChanges.drop, DocumentSet.getDocument_erase]
    by_cases hk : k = doc.key
    · rw [if_pos hk, hk]
      exact hexplains
    · rw [if_neg hk, hother k hk]
      exact h.explains k
  · intro k
    have hmutated := h.mutated k
    rw [SortedMap.contains_eq] at hmutated ⊢
    rw [ViewDocumentChanges.drop, DocumentSet.getDocument_erase, SortedMap.get_erase_of_lawful]
    by_cases hk : k = doc.key
    · rw [if_pos hk, if_pos hk]
      rfl
    · rw [if_neg hk, if_neg hk]
      exact hmutated

/-- What one changed document leaves in the view under its key. -/
def resolve (q : Query D) (oldMutatedKeys : DocumentKeySet) (oldDoc : Option (Document D))
    (maybeDoc : MaybeDocument D) : Option (Document D) :=
  match oldDoc, matched q maybeDoc with
  | some oldDoc, some newDoc =>
      if compare oldDoc.data newDoc.data != .eq then
        if shouldWaitForSyncedDocument newDoc oldDoc then some oldDoc else some newDoc
      else if oldMutatedKeys.contains newDoc.key != hasPendingMutations oldMutatedKeys newDoc then
        some newDoc
      else some oldDoc
  | none, newDoc => newDoc
  | some _, none => none

/-- Whether one changed document asks for a refill. -/
def asksRefill (old : DocumentSet D q.comparator) (oldDoc : Option (Document D))
    (maybeDoc : MaybeDocument D) : Bool :=
  match oldDoc, matched q maybeDoc with
  | some oldDoc, some newDoc =>
      compare oldDoc.data newDoc.data != .eq && !shouldWaitForSyncedDocument newDoc oldDoc &&
        outsideLimit old newDoc
  | some _, none => (lastDocInLimit old).isSome || (firstDocInLimit old).isSome
  | none, _ => false

/-- What an entry of the changed documents must be: under the key of its document. -/
def Keyed (entry : DocumentKey × MaybeDocument D) : Prop :=
  ∀ doc ∈ entry.2.document?, doc.key = entry.1

omit [TransOrd D] [TransOrd V] in
theorem matched_eq_some {maybeDoc : MaybeDocument D} {doc : Document D}
    (h : matched q maybeDoc = some doc) :
    maybeDoc.document? = some doc ∧ q.matchesDoc doc = true := by
  rw [matched, Option.filter_eq_some_iff] at h
  exact h

/-- A document that comes again, for one that there is a change of, is that one if it is the
same. -/
def Exact (acc : ViewDocumentChanges D q.comparator) (entry : DocumentKey × MaybeDocument D) :
    Prop :=
  acc.changeSet.get entry.1 ≠ none → ∀ a ∈ acc.documentSet.getDocument entry.1,
    ∀ b ∈ matched q entry.2, (b == a) = true → a = b

/-- What a turn of the loop does to the changes: nothing, or there is one of its key, with the
document that came. -/
def Turned (acc acc' : ViewDocumentChanges D q.comparator)
    (entry : DocumentKey × MaybeDocument D) : Prop :=
  (acc'.changeSet = acc.changeSet ∧ acc'.documentSet = acc.documentSet) ∨
    (acc'.documentSet.getDocument entry.1 = matched q entry.2 ∧
      ∀ k, k ≠ entry.1 → acc'.changeSet.get k = acc.changeSet.get k)

/-- The document that came is put, with the change that says so. -/
theorem Sound.putMatched (h : Sound base acc) {entry : DocumentKey × MaybeDocument D}
    (hentry : Keyed entry) (hexact : Exact acc entry) {newDoc : Document D}
    (hnew : matched q entry.2 = some newDoc) {t : DocumentViewChangeType}
    (hc : Explains (acc.documentSet.getDocument entry.1) (some newDoc) (some ⟨newDoc, t⟩)) :
    ∃ changeSet, acc.addChange ⟨newDoc, t⟩ = some { acc with changeSet := changeSet } ∧
      Sound base ({ acc with changeSet := changeSet }.put newDoc) ∧
      (∀ k, ({ acc with changeSet := changeSet }.put newDoc).documentSet.getDocument k =
        if k = entry.1 then some newDoc else acc.documentSet.getDocument k) ∧
      Turned acc ({ acc with changeSet := changeSet }.put newDoc) entry := by
  have hkey := hentry newDoc (matched_eq_some hnew).1
  rw [← hkey] at hc
  obtain ⟨changeSet, hadd, hsound, hother⟩ := h.put hc fun hne a ha hbeq =>
    hexact (hkey ▸ hne) a (hkey ▸ ha) newDoc hnew hbeq
  have hput : ∀ k, ({ acc with changeSet := changeSet }.put newDoc).documentSet.getDocument k =
      if k = entry.1 then some newDoc else acc.documentSet.getDocument k := by
    intro k
    rw [ViewDocumentChanges.put, DocumentSet.getDocument_insert, hkey]
  refine ⟨changeSet, hadd, hsound, hput, Or.inr ⟨?_, fun k hk => hother k (hkey ▸ hk)⟩⟩
  rw [hput entry.1, if_pos rfl, hnew]

omit [Ord D] [TransOrd D] [TransOrd V] in
/-- The assertion of the loop holds of an entry under the key of its document. -/
theorem key_assertion {entry : DocumentKey × MaybeDocument D} (hentry : Keyed entry) :
    ¬ (entry.2.document?.any fun doc => doc.key != entry.1) = true := by
  rw [Bool.not_eq_true, Option.any_eq_false]
  intro doc hdoc
  simp [hentry doc hdoc]

/-- A turn with a document that the view has, and that still matches. -/
theorem computeChange_again {old : DocumentSet D q.comparator} (oldMutatedKeys : DocumentKeySet)
    (h : Sound base acc) {entry : DocumentKey × MaybeDocument D} (hentry : Keyed entry)
    (hold : acc.documentSet.getDocument entry.1 = old.getDocument entry.1)
    (hexact : Exact acc entry) {oldDoc newDoc : Document D}
    (hodoc : old.getDocument entry.1 = some oldDoc) (hnew : matched q entry.2 = some newDoc) :
    ∃ acc', computeChange old oldMutatedKeys acc entry = some acc' ∧ Sound base acc' ∧
      (∀ k, acc'.documentSet.getDocument k =
        if k = entry.1 then resolve q oldMutatedKeys (some oldDoc) entry.2
        else acc.documentSet.getDocument k) ∧
      acc'.needsRefill = (acc.needsRefill || asksRefill old (some oldDoc) entry.2) ∧
      Turned acc acc' entry := by
  have hkey := hentry newDoc (matched_eq_some hnew).1
  have hokey := DocumentSet.getDocument_key hodoc
  rw [hodoc] at hold
  have hsame : ∀ k, acc.documentSet.getDocument k =
      if k = entry.1 then some oldDoc else acc.documentSet.getDocument k := by
    intro k
    split
    · next hk => rw [hk, hold]
    · rfl
  unfold computeChange
  rw [if_neg (key_assertion hentry), hodoc, hnew]
  dsimp only
  by_cases hdata : (compare oldDoc.data newDoc.data != .eq) = true
  · rw [if_pos hdata]
    by_cases hwait : shouldWaitForSyncedDocument newDoc oldDoc = true
    · -- an acknowledged write is on its way back: the old document stays
      rw [if_pos hwait]
      refine ⟨acc, rfl, h, ?_, ?_, Or.inl ⟨rfl, rfl⟩⟩
      · simpa only [resolve, hnew, hdata, hwait, if_true] using hsame
      · simp only [asksRefill, hnew, hwait, Bool.not_true, Bool.and_false, Bool.false_and,
          Bool.or_false]
    · have hc : Explains (acc.documentSet.getDocument entry.1) (some newDoc)
          (some ⟨newDoc, .modified⟩) := by
        rw [hold]
        exact Explains.modified (hkey.trans hokey.symm)
      obtain ⟨changeSet, hadd, hsound, hput, hturned⟩ := h.putMatched hentry hexact hnew hc
      rw [if_neg hwait]
      refine ⟨({ acc with changeSet := changeSet }.put newDoc).askRefill _,
        by rw [hadd]; rfl, hsound.askRefill _, ?_, ?_, hturned⟩
      · simpa only [resolve, hnew, hdata, hwait, if_true, if_false, Bool.false_eq_true,
          ViewDocumentChanges.askRefill_documentSet] using hput
      · simp only [asksRefill, hnew, hdata, Bool.eq_false_iff.mpr hwait, Bool.not_false,
          Bool.true_and]
        rfl
  · -- the same data: only the mark of pending writes may differ
    rw [if_neg hdata]
    have heq : compare oldDoc.data newDoc.data = .eq := by
      simpa using hdata
    have hcontains : oldMutatedKeys.contains newDoc.key = oldMutatedKeys.contains entry.1 := by
      rw [hkey]
    by_cases hpending : (oldMutatedKeys.contains entry.1
        != hasPendingMutations oldMutatedKeys newDoc) = true
    · have hc : Explains (acc.documentSet.getDocument entry.1) (some newDoc)
          (some ⟨newDoc, .metadata⟩) := by
        rw [hold]
        exact Explains.metadata (hkey.trans hokey.symm) heq
      obtain ⟨changeSet, hadd, hsound, hput, hturned⟩ := h.putMatched hentry hexact hnew hc
      rw [if_pos hpending]
      refine ⟨_, by rw [hadd]; rfl, hsound, ?_, ?_, hturned⟩
      · simpa only [resolve, hnew, hdata, hcontains, hpending, if_true, if_false,
          Bool.false_eq_true] using hput
      · simp only [asksRefill, hnew, Bool.eq_false_iff.mpr hdata, Bool.false_and, Bool.or_false]
        rfl
    · rw [if_neg hpending]
      refine ⟨acc, rfl, h, ?_, ?_, Or.inl ⟨rfl, rfl⟩⟩
      · simpa only [resolve, hnew, hdata, hcontains, hpending, if_false, Bool.false_eq_true]
          using hsame
      · simp only [asksRefill, hnew, Bool.eq_false_iff.mpr hdata, Bool.false_and, Bool.or_false]

/-- **One turn of the loop does to the view what `resolve` says, and fails no assertion.** -/
theorem computeChange_spec {old : DocumentSet D q.comparator} (oldMutatedKeys : DocumentKeySet)
    (h : Sound base acc) {entry : DocumentKey × MaybeDocument D} (hentry : Keyed entry)
    (hold : acc.documentSet.getDocument entry.1 = old.getDocument entry.1)
    (hexact : Exact acc entry) :
    ∃ acc', computeChange old oldMutatedKeys acc entry = some acc' ∧ Sound base acc' ∧
      (∀ k, acc'.documentSet.getDocument k =
        if k = entry.1 then resolve q oldMutatedKeys (old.getDocument entry.1) entry.2
        else acc.documentSet.getDocument k) ∧
      acc'.needsRefill = (acc.needsRefill || asksRefill old (old.getDocument entry.1) entry.2) ∧
      Turned acc acc' entry := by
  cases hodoc : old.getDocument entry.1 with
  | none =>
      unfold computeChange
      rw [if_neg (key_assertion hentry), hodoc]
      rw [hodoc] at hold
      cases hnew : matched q entry.2 with
      | none =>
          refine ⟨acc, rfl, h, ?_, ?_, Or.inl ⟨rfl, rfl⟩⟩
          · intro k
            simp only [resolve, hnew]
            split
            · next hk => rw [hk, hold]
            · rfl
          · simp only [asksRefill, Bool.or_false]
      | some newDoc =>
          have hc : Explains (acc.documentSet.getDocument entry.1) (some newDoc)
              (some ⟨newDoc, .added⟩) := by
            rw [hold]
            exact Explains.added newDoc
          obtain ⟨changeSet, hadd, hsound, hput, hturned⟩ := h.putMatched hentry hexact hnew hc
          refine ⟨_, by dsimp only; rw [hadd]; rfl, hsound, ?_, ?_, hturned⟩
          · simpa only [resolve, hnew] using hput
          · simp only [asksRefill, Bool.or_false]
            rfl
  | some oldDoc =>
      cases hnew : matched q entry.2 with
      | some newDoc => exact computeChange_again oldMutatedKeys h hentry hold hexact hodoc hnew
      | none =>
          have hokey := DocumentSet.getDocument_key hodoc
          unfold computeChange
          rw [if_neg (key_assertion hentry), hodoc, hnew]
          rw [hodoc, ← hokey] at hold
          obtain ⟨changeSet, hadd, hsound, hother⟩ := h.drop hold
          rw [hokey] at hsound
          refine ⟨({ acc with changeSet := changeSet }.drop entry.1).askRefill _,
            by dsimp only; rw [hadd]; rfl, hsound.askRefill _, ?_, ?_,
            Or.inr ⟨?_, fun k hk => hother k (hokey ▸ hk)⟩⟩
          · intro k
            simp only [resolve, hnew]
            exact DocumentSet.getDocument_erase acc.documentSet entry.1 k
          · simp only [asksRefill, hnew]
            rfl
          · rw [ViewDocumentChanges.askRefill_documentSet, ViewDocumentChanges.drop,
              DocumentSet.getDocument_erase, if_pos rfl, hnew]

/-- Every key with a change has the document that came with it, if it has one. -/
def Recorded (docChanges : MaybeDocumentMap D) (acc : ViewDocumentChanges D q.comparator) :
    Prop :=
  ∀ k, acc.changeSet.get k ≠ none → ∀ a ∈ acc.documentSet.getDocument k,
    ∃ m, docChanges.get k = some m ∧ matched q m = some a

omit [TransOrd D] [TransOrd V] in
theorem Recorded.turned {docChanges : MaybeDocumentMap D}
    {acc acc' : ViewDocumentChanges D q.comparator} (h : Recorded docChanges acc)
    {entry : DocumentKey × MaybeDocument D} (hturned : Turned acc acc' entry)
    (hentry : docChanges.get entry.1 = some entry.2)
    (hother : ∀ k, k ≠ entry.1 →
      acc'.documentSet.getDocument k = acc.documentSet.getDocument k) :
    Recorded docChanges acc' := by
  intro k hne a ha
  rcases hturned with ⟨hchanges, hdocs⟩ | ⟨hdoc, hchanges⟩
  · rw [hchanges] at hne
    rw [hdocs] at ha
    exact h k hne a ha
  · by_cases hk : k = entry.1
    · subst hk
      rw [hdoc] at ha
      exact ⟨entry.2, hentry, ha⟩
    · rw [hchanges k hk] at hne
      rw [hother k hk] at ha
      exact h k hne a ha

omit [TransOrd D] [TransOrd V] in
/-- A turn of the loop leaves the other keys as exact as they were. -/
theorem Exact.turned {acc acc' : ViewDocumentChanges D q.comparator}
    {entry e : DocumentKey × MaybeDocument D} (h : Exact acc e) (hturned : Turned acc acc' entry)
    (hne : e.1 ≠ entry.1)
    (hother : acc'.documentSet.getDocument e.1 = acc.documentSet.getDocument e.1) :
    Exact acc' e := by
  intro hchange a ha
  rw [hother] at ha
  refine h ?_ a ha
  rcases hturned with ⟨hchanges, -⟩ | ⟨-, hchanges⟩
  · rwa [hchanges] at hchange
  · rwa [hchanges e.1 hne] at hchange

/-- The loop over the entries, whose keys are all different. -/
theorem foldlM_computeChange (old : DocumentSet D q.comparator) (oldMutatedKeys : DocumentKeySet)
    (entries : List (DocumentKey × MaybeDocument D)) (hkeyed : ∀ e ∈ entries, Keyed e)
    (hnodup : (entries.map Prod.fst).Nodup) (h : Sound base acc)
    (hold : ∀ e ∈ entries, acc.documentSet.getDocument e.1 = old.getDocument e.1)
    (hexact : ∀ e ∈ entries, Exact acc e) {docChanges : MaybeDocumentMap D}
    (hentries : ∀ e ∈ entries, docChanges.get e.1 = some e.2) :
    ∃ acc', entries.foldlM (computeChange old oldMutatedKeys) acc = some acc' ∧ Sound base acc' ∧
      (∀ e ∈ entries, acc'.documentSet.getDocument e.1
        = resolve q oldMutatedKeys (old.getDocument e.1) e.2) ∧
      (∀ k, k ∉ entries.map Prod.fst →
        acc'.documentSet.getDocument k = acc.documentSet.getDocument k) ∧
      acc'.needsRefill
        = (acc.needsRefill || entries.any fun e => asksRefill old (old.getDocument e.1) e.2) ∧
      (Recorded docChanges acc → Recorded docChanges acc') := by
  induction entries generalizing acc with
  | nil =>
      refine ⟨acc, rfl, h, ?_, fun _ _ => rfl, ?_, id⟩
      · intro e he
        cases he
      · rw [List.any_nil, Bool.or_false]
  | cons entry entries ih =>
      rw [List.map_cons, List.nodup_cons] at hnodup
      obtain ⟨acc₁, hstep, hsound₁, hget₁, hrefill₁, hturned⟩ := computeChange_spec
        oldMutatedKeys h (hkeyed entry List.mem_cons_self)
        (hold entry List.mem_cons_self) (hexact entry List.mem_cons_self)
      have hother : ∀ e ∈ entries, e.1 ≠ entry.1 := by
        intro e he heq
        exact hnodup.1 (heq ▸ List.mem_map_of_mem he)
      have hget₂ : ∀ k, k ≠ entry.1 →
          acc₁.documentSet.getDocument k = acc.documentSet.getDocument k := by
        intro k hk
        rw [hget₁, if_neg hk]
      obtain ⟨acc', hloop, hsound, hget, hrest, hrefill, hrecorded⟩ := ih
        (fun e he => hkeyed e (List.mem_cons_of_mem _ he)) hnodup.2 hsound₁
        (fun e he => (hget₂ e.1 (hother e he)).trans (hold e (List.mem_cons_of_mem _ he)))
        (fun e he => (hexact e (List.mem_cons_of_mem _ he)).turned hturned (hother e he)
          (hget₂ e.1 (hother e he)))
        (fun e he => hentries e (List.mem_cons_of_mem _ he))
      refine ⟨acc', ?_, hsound, ?_, ?_, ?_, fun h =>
        hrecorded (h.turned hturned (hentries entry List.mem_cons_self) hget₂)⟩
      · rw [List.foldlM_cons, hstep]
        exact hloop
      · intro e he
        rcases List.mem_cons.mp he with rfl | hmem
        · rw [hrest e.1 hnodup.1, hget₁, if_pos rfl]
        · exact hget e hmem
      · intro k hk
        rw [List.map_cons, List.mem_cons, not_or] at hk
        rw [hrest k hk.2, hget₁, if_neg hk.1]
      · rw [hrefill, hrefill₁, List.any_cons, Bool.or_assoc]

/-- What a limit leaves of the documents in their order. -/
def limited (q : Query D) (docs : List (Document D)) : List (Document D) :=
  if q.limitType = .none then docs
  else if q.hasLimitToFirst then docs.take q.limit
  else docs.drop (docs.length - q.limit)

/-- The documents that go are at one end. -/
theorem dropToLimit_spec (n : ℕ) (hn : n ≤ acc.documentSet.toList.length) (h : Sound base acc) :
    ∃ acc', dropToLimit n acc = some acc' ∧ Sound base acc' ∧
      acc'.documentSet.toList
        = (if q.hasLimitToFirst then
            acc.documentSet.toList.take (acc.documentSet.toList.length - n)
          else acc.documentSet.toList.drop n) ∧
      acc'.needsRefill = acc.needsRefill ∧
      ∀ docChanges, Recorded docChanges acc → Recorded docChanges acc' := by
  induction n generalizing acc with
  | zero =>
      refine ⟨acc, rfl, h, ?_, rfl, fun _ => id⟩
      split
      · rw [Nat.sub_zero, List.take_length]
      · rfl
  | succ n ih =>
      have hne : acc.documentSet.toList ≠ [] := by
        intro hnil
        rw [hnil, List.length_nil] at hn
        omega
      -- the document that goes, and what it leaves
      obtain ⟨doc, rest, hout, hrest, hlength, hkept⟩ : ∃ doc rest,
          outermost q acc.documentSet = some doc ∧
          (acc.documentSet.erase doc.key).toList = rest ∧
          acc.documentSet.toList.length = rest.length + 1 ∧
          (if q.hasLimitToFirst then rest.take (rest.length - n) else rest.drop n)
            = (if q.hasLimitToFirst then
                acc.documentSet.toList.take (acc.documentSet.toList.length - (n + 1))
              else acc.documentSet.toList.drop (n + 1)) := by
        by_cases hfirst : q.hasLimitToFirst = true
        · obtain ⟨rest, doc, hlist⟩ := (List.eq_nil_or_concat' _).resolve_left hne
          refine ⟨doc, rest, ?_, DocumentSet.toList_erase_last hlist, ?_, ?_⟩
          · rw [outermost, if_pos hfirst, DocumentSet.getLastDocument_eq, hlist,
              List.getLast?_concat]
          · rw [hlist, List.length_append, List.length_singleton]
          · have hle : rest.length + 1 - (n + 1) ≤ rest.length := by omega
            rw [if_pos hfirst, if_pos hfirst, hlist, List.length_append, List.length_singleton,
              List.take_append_of_le_length hle]
            congr 1
            omega
        · obtain ⟨doc, rest, hlist⟩ := List.exists_cons_of_ne_nil hne
          refine ⟨doc, rest, ?_, DocumentSet.toList_erase_first hlist, ?_, ?_⟩
          · rw [outermost, if_neg hfirst, DocumentSet.getFirstDocument_eq, hlist, List.head?_cons]
          · rw [hlist, List.length_cons]
          · rw [if_neg hfirst, if_neg hfirst, hlist, List.drop_succ_cons]
      have hmem : acc.documentSet.getDocument doc.key = some doc := by
        rw [← DocumentSet.mem_toList]
        unfold outermost at hout
        split at hout
        · rw [DocumentSet.getLastDocument_eq] at hout
          exact List.mem_of_getLast? hout
        · rw [DocumentSet.getFirstDocument_eq] at hout
          exact List.mem_of_head? hout
      obtain ⟨changeSet, hadd, hsound, hother⟩ := h.drop hmem
      have hdocs : ({ acc with changeSet := changeSet }.drop doc.key).documentSet.toList = rest :=
        hrest
      obtain ⟨acc', hloop, hsound', hlist', hrefill', hrecorded⟩ :=
        ih (by rw [hdocs]; omega) hsound
      refine ⟨acc', ?_, hsound', ?_, hrefill', fun docChanges hrec =>
        hrecorded docChanges fun k hne a ha => ?_⟩
      · rw [dropToLimit, hout, Option.bind_eq_bind, Option.bind_some, hadd]
        exact hloop
      · rw [hlist', hdocs, hkept]
      · rw [ViewDocumentChanges.drop, DocumentSet.getDocument_erase] at ha
        split at ha
        · cases ha
        · next hk => exact hrec k (hother k hk ▸ hne) a ha

theorem meetLimit_spec (h : Sound base acc) :
    ∃ acc', meetLimit acc = some acc' ∧ Sound base acc' ∧
      acc'.documentSet.toList = limited q acc.documentSet.toList ∧
      acc'.needsRefill = acc.needsRefill ∧
      ∀ docChanges, Recorded docChanges acc → Recorded docChanges acc' := by
  unfold meetLimit limited
  by_cases hnone : q.limitType = .none
  · rw [if_pos hnone, if_pos hnone]
    exact ⟨acc, rfl, h, rfl, rfl, fun _ => id⟩
  · rw [if_neg hnone, if_neg hnone, DocumentSet.size_eq]
    obtain ⟨acc', hdrop, hsound, hlist, hasks, hrecorded⟩ :=
      dropToLimit_spec (acc.documentSet.toList.length - q.limit) (Nat.sub_le _ _) h
    refine ⟨acc', hdrop, hsound, ?_, hasks, hrecorded⟩
    rw [hlist]
    split
    · rw [Nat.sub_sub_eq_min, Nat.min_comm, ← List.take_eq_take_min]
    · rfl

/-- The changed documents are each under their key. -/
def KeyedMap (docChanges : MaybeDocumentMap D) : Prop := ∀ e ∈ docChanges.toList, Keyed e

omit [TransOrd D] in
instance (entry : DocumentKey × MaybeDocument D) : Decidable (Keyed entry) :=
  inferInstanceAs (Decidable (∀ doc ∈ entry.2.document?, doc.key = entry.1))

omit [TransOrd D] in
instance (docChanges : MaybeDocumentMap D) : Decidable (KeyedMap docChanges) :=
  inferInstanceAs (Decidable (∀ e ∈ docChanges.toList, Keyed e))

omit [TransOrd D] in
/-- What a pass goes through is under its key. -/
theorem keyedMap_of_computeDocumentChanges {v : View q} {docChanges : MaybeDocumentMap D}
    {previous : Option (ViewDocumentChanges D q.comparator)}
    {changes : ViewDocumentChanges D q.comparator}
    (h : v.computeDocumentChanges docChanges previous = some changes) : KeyedMap docChanges := by
  rw [computeDocumentChanges, Option.bind_eq_bind, Option.bind_eq_some_iff] at h
  obtain ⟨acc, hloop, -⟩ := h
  have hentries : ∀ (entries : List (DocumentKey × MaybeDocument D))
      (start acc : ViewDocumentChanges D q.comparator),
      entries.foldlM (computeChange (passStart v previous).documentSet v.mutatedKeys) start
        = some acc → ∀ e ∈ entries, Keyed e := by
    intro entries
    induction entries with
    | nil => exact fun _ _ _ e he => absurd he List.not_mem_nil
    | cons entry entries ih =>
        intro start acc hrun
        rw [List.foldlM_cons, Option.bind_eq_bind, Option.bind_eq_some_iff] at hrun
        obtain ⟨next, hstep, hrest⟩ := hrun
        refine List.forall_mem_cons.mpr ⟨?_, ih next acc hrest⟩
        intro doc hdoc
        rw [computeChange] at hstep
        split at hstep
        · cases hstep
        · next hassert =>
            by_contra hne
            exact hassert ((Option.any_eq_true _ _).mpr ⟨doc, hdoc, bne_iff_ne.mpr hne⟩)
  exact hentries docChanges.toList _ acc hloop

/-- What a pass leaves under a key before the limit. -/
def resolved (q : Query D) (oldMutatedKeys : DocumentKeySet) (old : DocumentSet D q.comparator)
    (docChanges : MaybeDocumentMap D) (k : DocumentKey) : Option (Document D) :=
  match docChanges.get k with
  | some maybeDoc => resolve q oldMutatedKeys (old.getDocument k) maybeDoc
  | none => old.getDocument k

/-- Whether a pass asks for a refill. -/
def passAsksRefill (old : DocumentSet D q.comparator) (docChanges : MaybeDocumentMap D) : Bool :=
  docChanges.toList.any fun e => asksRefill old (old.getDocument e.1) e.2

/-- **A pass changes the view key by key as `resolve` says and then keeps what the limit
leaves. Its changes tell the difference, and it fails no assertion as long as a refill
does not ask for another.** -/
theorem computeDocumentChanges_spec (v : View q) {docChanges : MaybeDocumentMap D}
    (hkeyed : KeyedMap docChanges) {previous : Option (ViewDocumentChanges D q.comparator)}
    (hstart : Sound base (passStart v previous))
    (hrefill : previous.isSome = true →
      passAsksRefill (passStart v previous).documentSet docChanges = false)
    (hexact : ∀ e ∈ docChanges.toList, Exact (passStart v previous) e) :
    ∃ changes, v.computeDocumentChanges docChanges previous = some changes ∧
      Sound base changes ∧
      changes.needsRefill = passAsksRefill (passStart v previous).documentSet docChanges ∧
      ∃ all : DocumentSet D q.comparator,
        (∀ k, all.getDocument k
          = resolved q v.mutatedKeys (passStart v previous).documentSet docChanges k) ∧
        changes.documentSet.toList = limited q all.toList ∧
        (Recorded docChanges (passStart v previous) → Recorded docChanges changes) := by
  obtain ⟨acc, hloop, hsound, hget, hrest, hasks, hrecorded⟩ := foldlM_computeChange
    (passStart v previous).documentSet v.mutatedKeys docChanges.toList hkeyed
    docChanges.nodup_keys hstart (fun _ _ => rfl) hexact
    fun _ he => SortedMap.get_eq_some_iff_mem.mpr he
  have hfalse : (passStart v previous).needsRefill = false := by
    cases previous <;> rfl
  rw [hfalse, Bool.false_or] at hasks
  have hall : ∀ k, acc.documentSet.getDocument k
      = resolved q v.mutatedKeys (passStart v previous).documentSet docChanges k := by
    intro k
    unfold resolved
    split
    · next maybeDoc hfound => exact hget (k, maybeDoc) (SortedMap.get_eq_some_iff_mem.mp hfound)
    · next hnone =>
        refine hrest k fun hmem => ?_
        rw [SortedMap.mem_keys_iff, hnone] at hmem
        cases hmem
  obtain ⟨changes, hlimit, hsound', hlist, hasks', hrecorded'⟩ := meetLimit_spec hsound
  have hassert : (changes.needsRefill && previous.isSome) = false := by
    rw [hasks', hasks]
    by_cases hprevious : previous.isSome = true
    · rw [← passAsksRefill, hrefill hprevious, Bool.false_and]
    · rw [Bool.eq_false_iff.mpr hprevious, Bool.and_false]
  refine ⟨changes, ?_, hsound', hasks'.trans hasks, acc.documentSet, hall, hlist,
    fun h => hrecorded' docChanges (hrecorded h)⟩
  simp only [computeDocumentChanges, hloop, Option.bind_eq_bind, Option.bind_some, hlimit,
    hassert, Bool.false_eq_true, if_false]

end Pass

/-! ## 4. What a snapshot says -/

section Apply

variable [TransOrd V]

instance (q : Query D) : TransCmp (changeComparator q) where
  eq_swap {a b} := by
    rw [changeComparator, changeComparator, Ordering.swap_then, ← OrientedCmp.eq_swap,
      ← OrientedCmp.eq_swap]
  isLE_trans {a b c} hab hbc := by
    have hlex : TransCmp (compareLex
        (compareOn fun c : DocumentViewChange D => typePosition c.type)
        fun a b => q.comparator a.document b.document) := by
      have : TransCmp fun a b : DocumentViewChange D => q.comparator a.document b.document :=
        { eq_swap := OrientedCmp.eq_swap
          isLE_trans := TransCmp.isLE_trans }
      infer_instance
    exact hlex.isLE_trans hab hbc

/-- The changes of a snapshot are listed in strict order, since no two have one key. -/
theorem pairwise_sorted_changes {changes : List (DocumentViewChange D)}
    (hnodup : (changes.map fun c => c.document.key).Nodup) :
    (changes.mergeSort fun a b => (changeComparator q a b).isLE).Pairwise
      fun a b => changeComparator q a b = .lt := by
  have hsorted : (changes.mergeSort fun a b => (changeComparator q a b).isLE).Pairwise
      fun a b => (changeComparator q a b).isLE = true := by
    refine List.pairwise_mergeSort (fun a b c => TransCmp.isLE_trans) (fun a b => ?_) changes
    have hswap : changeComparator q b a = (changeComparator q a b).swap := OrientedCmp.eq_swap
    rw [hswap]
    cases changeComparator q a b <;> rfl
  have hperm := List.mergeSort_perm changes fun a b => (changeComparator q a b).isLE
  have hnodup' := (hperm.map fun c => c.document.key).nodup_iff.mpr hnodup
  rw [List.Nodup, List.pairwise_map] at hnodup'
  refine hsorted.imp₂ (fun a b hle hne => ?_) hnodup'
  cases hcmp : changeComparator q a b with
  | lt => rfl
  | eq =>
      rw [changeComparator, Ordering.then_eq_eq] at hcmp
      exact absurd (DocumentComparator.key_eq hcmp.2) hne
  | gt =>
      rw [hcmp] at hle
      cases hle

end Apply

/-- A fold that collects keys has the keys it was given. -/
theorem contains_foldl_insert {α : Type} (p : α → Bool) (key : α → DocumentKey) (l : List α)
    (s : DocumentKeySet) (k : DocumentKey) :
    (l.foldl (fun s a => if p a then s.insert (key a) () else s) s).contains k
      = (s.contains k || l.any fun a => p a && key a == k) := by
  induction l generalizing s with
  | nil => rw [List.foldl_nil, List.any_nil, Bool.or_false]
  | cons a l ih =>
      rw [List.foldl_cons, ih, List.any_cons, ← Bool.or_assoc]
      congr 1
      by_cases hp : p a = true
      · rw [if_pos hp, SortedMap.contains_eq, SortedMap.contains_eq,
          SortedMap.get_insert_of_lawful, hp, Bool.true_and]
        by_cases hk : k = key a
        · simp [hk]
        · rw [if_neg hk, beq_eq_false_iff_ne.mpr (Ne.symm hk), Bool.or_false]
      · rw [if_neg hp, Bool.eq_false_iff.mpr hp, Bool.false_and, Bool.or_false]

/-! ## 5. What applying the changes of a pass does -/

section ApplyChanges

variable [TransOrd D] [TransOrd V]

/-- What the backend promises of a target change: it calls modified what is there. -/
def Fits (v : View q) (targetChange : Option TargetChange) : Prop :=
  ∀ change ∈ targetChange, ∀ k ∈ change.modifiedDocuments,
    k ∈ change.addedDocuments ∨ v.syncedDocuments.contains k = true

omit [TransOrd D] [TransOrd V] in
/-- It is about the synced documents only. -/
theorem Fits.of_synced {v v' : View q} {targetChange : Option TargetChange}
    (h : Fits v targetChange) (hsynced : v.syncedDocuments = v'.syncedDocuments) :
    Fits v' targetChange := by
  intro change hchange k hk
  rw [← hsynced]
  exact h change hchange k hk

/-- The labels of a view: what is in limbo, once the backend has caught up, and whether the
view is synced. -/
structure Labelled (v : View q) : Prop where
  limbo : v.current = true → ∀ k, v.limboDocuments.contains k = v.shouldBeInLimbo k
  syncState : v.syncState = if v.limboDocuments.isEmpty && v.current then .synced else .local

/-- What a snapshot says of the step from one view to another. -/
structure Raised (v v' : View q) (s : ViewSnapshot D q.comparator) : Prop where
  documents : s.documents = v'.documentSet
  oldDocuments : s.oldDocuments = v.documentSet
  accounts : Accounts s.oldDocuments s.documents s.documentChanges
  sorted : s.documentChanges.Pairwise fun a b => changeComparator q a b = .lt
  mutated : ∀ k, s.mutatedKeys.contains k
    = (s.documents.getDocument k).any Document.hasLocalMutations
  fromCache : s.fromCache = (v'.syncState == .local)
  syncStateChanged : s.syncStateChanged = (v'.syncState != v.syncState)
  excludesMetadataChanges : s.excludesMetadataChanges = false
  fresh : s.documentChanges ≠ [] ∨ s.syncStateChanged = true

omit [Ord D] [Ord V] [ObjectData D V] [TransOrd D] [TransOrd V] in
theorem isEmpty_iff_contains {s : DocumentKeySet} :
    s.isEmpty = true ↔ ∀ k, s.contains k = false := by
  rw [SortedMap.isEmpty, beq_iff_eq, SortedMap.size_eq, List.length_eq_zero_iff]
  constructor
  · intro h k
    rw [SortedMap.contains_eq, SortedMap.get_eq, h]
    rfl
  · intro h
    rw [← List.map_eq_nil_iff (f := Prod.fst), List.eq_nil_iff_forall_not_mem]
    intro k hk
    have hcontains := h k
    rw [SortedMap.contains_eq, SortedMap.mem_keys_iff.mp hk] at hcontains
    cases hcontains

omit [TransOrd D] [TransOrd V] in
theorem updateLimboDocuments_eq (v : View q) :
    (updateLimboDocuments v).1
      = { v with limboDocuments := (updateLimboDocuments v).1.limboDocuments } := by
  unfold updateLimboDocuments
  split <;> rfl

omit [TransOrd D] [TransOrd V] in
theorem updateLimboDocuments_of_not_current {v : View q} (h : v.current = false) :
    updateLimboDocuments v = (v, []) := by
  rw [updateLimboDocuments, h]
  rfl

omit [TransOrd D] [TransOrd V] in
/-- The documents in limbo are found by looking at each one that is shown. -/
theorem contains_updateLimboDocuments {v : View q} (h : v.current = true) (k : DocumentKey) :
    (updateLimboDocuments v).1.limboDocuments.contains k = v.shouldBeInLimbo k := by
  have hempty : (SortedMap.empty : DocumentKeySet).contains k = false := by
    rw [SortedMap.contains_eq]
    rfl
  rw [updateLimboDocuments, if_pos h]
  dsimp only
  rw [contains_foldl_insert (fun doc => v.shouldBeInLimbo doc.key) Document.key, hempty,
    Bool.false_or]
  by_cases hlimbo : v.shouldBeInLimbo k = true
  · -- what should be in limbo is shown
    have hshown := hlimbo
    rw [shouldBeInLimbo, Bool.and_eq_true] at hshown
    obtain ⟨doc, hdoc, -⟩ := (Option.any_eq_true _ _).mp hshown.2
    have hkey := DocumentSet.getDocument_key hdoc
    rw [hlimbo, List.any_eq_true]
    refine ⟨doc, (DocumentSet.getDocument_eq_some_iff.mp hdoc).1, ?_⟩
    rw [hkey, hlimbo, beq_self_eq_true, Bool.and_self]
  · rw [Bool.eq_false_iff.mpr hlimbo, List.any_eq_false]
    intro doc _ hboth
    rw [Bool.and_eq_true, beq_iff_eq] at hboth
    exact hlimbo (hboth.2 ▸ hboth.1)

omit [TransOrd D] [TransOrd V] in
theorem applyTargetChange_spec {v : View q} {targetChange : Option TargetChange}
    (h : Fits v targetChange) :
    ∃ v', applyTargetChange v targetChange = some v' ∧ v'.documentSet = v.documentSet ∧
      v'.mutatedKeys = v.mutatedKeys ∧ v'.syncState = v.syncState ∧
      v'.current = (targetChange.map TargetChange.current).getD v.current := by
  cases targetChange with
  | none => exact ⟨v, rfl, rfl, rfl, rfl, rfl⟩
  | some change =>
      have hall : (change.modifiedDocuments.all fun k =>
          (change.addedDocuments.foldl (fun s k => s.insert k ()) v.syncedDocuments).contains k)
            = true := by
        rw [List.all_eq_true]
        intro k hk
        have hcontains := contains_foldl_insert (fun _ => true) id change.addedDocuments
          v.syncedDocuments k
        simp only [if_true, id, Bool.true_and] at hcontains
        rw [hcontains, Bool.or_eq_true]
        rcases h change rfl k hk with hadded | hsynced
        · exact Or.inr (List.any_eq_true.mpr ⟨k, hadded, beq_self_eq_true k⟩)
        · exact Or.inl hsynced
      refine ⟨{ v with
        syncedDocuments := change.removedDocuments.foldl (fun s k => s.erase k)
          (change.addedDocuments.foldl (fun s k => s.insert k ()) v.syncedDocuments)
        current := change.current }, ?_, rfl, rfl, rfl, rfl⟩
      rw [applyTargetChange]
      exact if_pos hall

omit [TransOrd D] [TransOrd V] in
theorem fits_of_applyTargetChange {v v' : View q} {targetChange : Option TargetChange}
    (h : applyTargetChange v targetChange = some v') : Fits v targetChange := by
  intro change hchange k hk
  rw [Option.mem_def] at hchange
  subst hchange
  rw [applyTargetChange] at h
  split at h
  · next hall =>
      have hcontains := List.all_eq_true.mp hall k hk
      have hfold := contains_foldl_insert (fun _ => true) id change.addedDocuments
        v.syncedDocuments k
      simp only [if_true, id, Bool.true_and] at hfold
      rw [hfold, Bool.or_eq_true, List.any_eq_true] at hcontains
      rcases hcontains with hsynced | ⟨k', hk', heq⟩
      · exact Or.inr hsynced
      · rw [beq_iff_eq] at heq
        exact Or.inl (heq ▸ hk')
  · cases h

omit [TransOrd D] [TransOrd V] in
/-- A view shows the documents of the changes that were applied. -/
theorem documentSet_of_applyChanges {v v' : View q} {changes : ViewDocumentChanges D q.comparator}
    {targetChange : Option TargetChange} {viewChange : ViewChange q}
    (h : v.applyChanges changes targetChange = some (v', viewChange)) :
    v'.documentSet = changes.documentSet := by
  rw [applyChanges] at h
  split at h
  · cases h
  · simp only [Option.bind_eq_bind, Option.bind_eq_some_iff, Option.some.injEq] at h
    obtain ⟨applied, htarget, hconclude⟩ := h
    obtain ⟨applied', htarget', hdocs, -⟩ :=
      applyTargetChange_spec (fits_of_applyTargetChange htarget)
    rw [htarget, Option.some.injEq] at htarget'
    have hfirst : (conclude v (updateLimboDocuments applied).1 changes
        (updateLimboDocuments applied).2).1.documentSet = v'.documentSet :=
      congrArg (fun r => r.1.documentSet) hconclude
    rw [← hfirst, conclude, updateLimboDocuments_eq, htarget']
    exact hdocs

omit [TransOrd D] in
/-- A snapshot is raised unless there is nothing to tell. -/
theorem conclude_spec {v updated : View q} {changes : ViewDocumentChanges D q.comparator}
    (hsound : Sound v.documentSet changes) (hdocs : updated.documentSet = changes.documentSet)
    (limboChanges : List LimboDocumentChange) :
    (∀ s ∈ (conclude v updated changes limboChanges).2.snapshot,
      Raised v (conclude v updated changes limboChanges).1 s) ∧
    ((conclude v updated changes limboChanges).2.snapshot = none →
      (conclude v updated changes limboChanges).1.syncState = v.syncState ∧
      changes.documentSet.toList = v.documentSet.toList) := by
  have hperm : (sortedChanges changes).Perm changes.changeSet.getChanges :=
    List.mergeSort_perm _ _
  have haccounts : Accounts v.documentSet changes.documentSet (sortedChanges changes) :=
    accounts_of_perm hsound.explains hperm
  have hnodup : (changes.changeSet.getChanges.map fun c => c.document.key).Nodup :=
    (hperm.map _).nodup_iff.mp haccounts.nodup
  constructor
  · intro s hs
    unfold conclude at hs
    dsimp only at hs
    split at hs
    · cases hs
    · next hfresh =>
        rw [Option.mem_some_iff] at hs
        subst hs
        refine ⟨hdocs.symm, rfl, haccounts, pairwise_sorted_changes hnodup, hsound.mutated, rfl,
          rfl, rfl, ?_⟩
        rw [Bool.and_eq_true, List.isEmpty_iff, not_and_or, Bool.not_eq_true',
          Bool.not_eq_false] at hfresh
        exact hfresh
  · intro hnone
    unfold conclude at hnone
    dsimp only at hnone
    split at hnone
    · next hempty =>
        rw [Bool.and_eq_true, List.isEmpty_iff, Bool.not_eq_true', bne_eq_false_iff_eq] at hempty
        refine ⟨hempty.2, DocumentSet.toList_ext fun k => ?_⟩
        have hexplains := haccounts.explains k
        rw [hempty.1, List.find?_nil] at hexplains
        -- no change of the key means that its document is the same
        generalize changes.documentSet.getDocument k = n at hexplains ⊢
        generalize v.documentSet.getDocument k = o at hexplains ⊢
        cases hexplains
        rfl
    · cases hnone

omit [TransOrd D] in
/-- **Applying the changes of a pass shows its documents and raises the snapshot that
tells of them; without one, nothing has changed.** -/
theorem applyChanges_spec (v : View q) {changes : ViewDocumentChanges D q.comparator}
    (hsound : Sound v.documentSet changes) (hrefill : changes.needsRefill = false)
    {targetChange : Option TargetChange} (hfits : Fits v targetChange) :
    ∃ v' viewChange, v.applyChanges changes targetChange = some (v', viewChange) ∧
      v'.documentSet = changes.documentSet ∧ v'.mutatedKeys = changes.mutatedKeys ∧
      v'.current = (targetChange.map TargetChange.current).getD v.current ∧
      Labelled v' ∧
      (∀ s ∈ viewChange.snapshot, Raised v v' s) ∧
      (viewChange.snapshot = none → v'.syncState = v.syncState ∧
        v'.documentSet.toList = v.documentSet.toList) ∧
      (v'.current = false → viewChange.limboChanges = []) := by
  obtain ⟨applied, happly, hdocs, hmutated, -, hcurrent⟩ := applyTargetChange_spec
    (v := { v with documentSet := changes.documentSet, mutatedKeys := changes.mutatedKeys }) hfits
  have hupdate := updateLimboDocuments_eq applied
  have hdocs' : (updateLimboDocuments applied).1.documentSet = changes.documentSet := by
    rw [hupdate]
    exact hdocs
  obtain ⟨hraised, hnone⟩ := conclude_spec hsound hdocs' (updateLimboDocuments applied).2
  refine ⟨(conclude v (updateLimboDocuments applied).1 changes (updateLimboDocuments applied).2).1,
    (conclude v (updateLimboDocuments applied).1 changes (updateLimboDocuments applied).2).2,
    ?_, hdocs', ?_, ?_, ⟨fun hon k => ?_, rfl⟩, hraised, ?_, fun hoff => ?_⟩
  · simp only [applyChanges, hrefill, Bool.false_eq_true, if_false, happly, Option.bind_eq_bind,
      Option.bind_some]
  · rw [conclude, hupdate]
    exact hmutated
  · rw [conclude, hupdate]
    exact hcurrent
  · have hon' : applied.current = true := by
      rw [conclude, hupdate] at hon
      exact hon
    have hlimbo := contains_updateLimboDocuments hon' k
    rw [shouldBeInLimbo] at hlimbo ⊢
    rw [conclude]
    dsimp only
    rw [hlimbo, hupdate]
  · intro h
    obtain ⟨hsync, hlist⟩ := hnone h
    refine ⟨hsync, ?_⟩
    rw [← hlist, ← hdocs']
    rfl
  · have hoff' : applied.current = false := by
      rw [conclude, hupdate] at hoff
      exact hoff
    rw [conclude, updateLimboDocuments_of_not_current hoff']
    dsimp only
    split <;> rfl

end ApplyChanges

end View

end FreeFood.Firestore
