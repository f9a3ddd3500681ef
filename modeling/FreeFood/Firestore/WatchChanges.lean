/-
`remote/remote_event.h`, for one target: what the watch stream says of a target, gathered
until there is an event to raise.

The stream says which documents come to a target and which leave it, and a target that is
asked for again, is reset or does not have as many documents as the backend counts starts
anew. The aggregator keeps no set of documents of its own. It keeps what has changed against
the keys that the view has, and `view_follows_watch` says that this is as good: after every
event the view has the keys that the stream has put in the target, and it accepts the target
change, which calls modified only what the view has.

Resume tokens are here as far as a new one is a change. A removal for an error does not
come here, and the targets that are asked for again after a reset are the caller's.
-/
import FreeFood.Firestore.FeedQuery
import FreeFood.Firestore.Mutation
import Mathlib.Data.Finset.Card

set_option autoImplicit false

namespace FreeFood.Firestore

open Std Transition

/-- `TargetState`. -/
structure TargetState where
  outstandingResponses : ℤ
  documentChanges : SortedMap DocumentKey DocumentViewChangeType compareKeys
  current : Bool
  hasPendingChanges : Bool

namespace TargetState

/-- A new target has something to tell, if only that it is there. -/
def new : TargetState := ⟨0, SortedMap.empty, false, true⟩

def isPending (t : TargetState) : Bool := t.outstandingResponses != 0

def updateResumeToken (t : TargetState) (hasToken : Bool) : TargetState :=
  if hasToken then { t with hasPendingChanges := true } else t

def clearPendingChanges (t : TargetState) : TargetState :=
  { t with hasPendingChanges := false, documentChanges := SortedMap.empty }

def recordPendingTargetRequest (t : TargetState) : TargetState :=
  { t with outstandingResponses := t.outstandingResponses + 1 }

def recordTargetResponse (t : TargetState) : TargetState :=
  { t with outstandingResponses := t.outstandingResponses - 1 }

def markCurrent (t : TargetState) : TargetState :=
  { t with hasPendingChanges := true, current := true }

def addDocumentChange (t : TargetState) (key : DocumentKey) (type : DocumentViewChangeType) :
    TargetState :=
  { t with hasPendingChanges := true, documentChanges := t.documentChanges.insert key type }

def removeDocumentChange (t : TargetState) (key : DocumentKey) : TargetState :=
  { t with hasPendingChanges := true, documentChanges := t.documentChanges.erase key }

/-- The documents whose change is of a type. -/
def keysOfType (t : TargetState) (type : DocumentViewChangeType) : List DocumentKey :=
  (t.documentChanges.toList.filter fun e => e.2 == type).map Prod.fst

/-- `ToTargetChange`, `none` where it meets a change of metadata. -/
def toTargetChange (t : TargetState) : Option TargetChange :=
  if (t.keysOfType .metadata).isEmpty then
    some ⟨t.current, t.keysOfType .added, t.keysOfType .modified, t.keysOfType .removed⟩
  else none

end TargetState

/-- `WatchTargetChangeState`. -/
inductive WatchTargetChangeState where
  | noChange
  | added
  | removed
  | current
  | reset
deriving DecidableEq

/-- `WatchChangeAggregator`, of one target, with what the provider of metadata knows of it:
whether it is listened to, and the keys of the view. -/
structure TargetAggregator where
  targetState : Option TargetState
  listened : Bool
  remoteKeys : DocumentKeySet
  pendingDocumentUpdates : MaybeDocumentMap ObjectValue

namespace TargetAggregator

/-- `EnsureTargetState`. -/
def ensureTargetState (a : TargetAggregator) : TargetState := a.targetState.getD TargetState.new

def withState (a : TargetAggregator) (t : TargetState) : TargetAggregator :=
  { a with targetState := some t }

/-- `IsActiveTarget`. -/
def isActiveTarget (a : TargetAggregator) : Bool :=
  a.listened && !a.targetState.any TargetState.isPending

/-- `TargetContainsDocument`. -/
def targetContainsDocument (a : TargetAggregator) (key : DocumentKey) : Bool :=
  a.remoteKeys.contains key

/-- `AddDocumentToTarget`. -/
def addDocumentToTarget (a : TargetAggregator) (document : AnyDocument) : TargetAggregator :=
  if a.isActiveTarget then
    let changeType := if a.targetContainsDocument document.key then .modified else .added
    { a.withState (a.ensureTargetState.addDocumentChange document.key changeType) with
      pendingDocumentUpdates := a.pendingDocumentUpdates.put document.key document }
  else a

/-- Updates with one more document, if there is one. -/
def updatesWith (updates : MaybeDocumentMap ObjectValue) (key : DocumentKey) :
    Option AnyDocument → MaybeDocumentMap ObjectValue
  | some document => updates.put key document
  | none => updates

/-- `RemoveDocumentFromTarget`. -/
def removeDocumentFromTarget (a : TargetAggregator) (key : DocumentKey)
    (updatedDocument : Option AnyDocument) : TargetAggregator :=
  if a.isActiveTarget then
    let state :=
      if a.targetContainsDocument key then a.ensureTargetState.addDocumentChange key .removed
      -- it may have come and gone since the last event
      else a.ensureTargetState.removeDocumentChange key
    { a.withState state with
      pendingDocumentUpdates := updatesWith a.pendingDocumentUpdates key updatedDocument }
  else a

/-- `HandleDocumentChange`: whether the target is among the updated and the removed ones. -/
def handleDocumentChange (a : TargetAggregator) (updated removed : Bool) (key : DocumentKey)
    (newDocument : Option AnyDocument) : TargetAggregator :=
  let a :=
    if updated then
      match newDocument with
      | some (.document doc) => a.addDocumentToTarget (.document doc)
      | some (.noDocument _ _ _) => a.removeDocumentFromTarget key newDocument
      | _ => a
    else a
  if removed then a.removeDocumentFromTarget key newDocument else a

/-- `ResetTarget`, which asserts that the target is active. -/
def resetTarget (a : TargetAggregator) : Option TargetAggregator :=
  if a.targetState.any fun t => !t.isPending then
    some ((a.remoteKeys.toList.map Prod.fst).foldl
      (fun a key => a.removeDocumentFromTarget key none) (a.withState TargetState.new))
  else none

/-- `HandleTargetChange`. -/
def handleTargetChange (a : TargetAggregator) (state : WatchTargetChangeState) (hasToken : Bool) :
    Option TargetAggregator :=
  let t := a.ensureTargetState
  let a := a.withState t
  match state with
  | .noChange =>
      some (if a.isActiveTarget then a.withState (t.updateResumeToken hasToken) else a)
  | .added =>
      let t := t.recordTargetResponse
      let t := if t.isPending then t else t.clearPendingChanges
      some (a.withState (t.updateResumeToken hasToken))
  | .removed =>
      let t := t.recordTargetResponse
      some (if t.isPending then a.withState t else { a with targetState := none })
  | .current =>
      some (if a.isActiveTarget then a.withState (t.markCurrent.updateResumeToken hasToken) else a)
  | .reset =>
      if a.isActiveTarget then
        a.resetTarget.map fun a => a.withState (a.ensureTargetState.updateResumeToken hasToken)
      else some a

/-- `GetCurrentDocumentCountForTarget`. -/
def getCurrentDocumentCount (a : TargetAggregator) : ℤ :=
  a.remoteKeys.toList.length + (a.ensureTargetState.keysOfType .added).length
    - (a.ensureTargetState.keysOfType .removed).length

/-- `HandleExistenceFilter`. A target of one document has its key. -/
def handleExistenceFilter (a : TargetAggregator) (documentKey : Option DocumentKey) (count : ℤ) :
    Option TargetAggregator :=
  if a.isActiveTarget then
    match documentKey with
    | some key =>
        if count = 0 then some (a.removeDocumentFromTarget key (some (missing key)))
        else if count = 1 then some a
        else none
    | none =>
        let a := a.withState a.ensureTargetState
        if a.getCurrentDocumentCount = count then some a else a.resetTarget
  else some a

/-- A document that a target of one document does not have, now that it is current. -/
def synthesizeDelete (a : TargetAggregator) (documentKey : Option DocumentKey)
    (snapshotVersion : SnapshotVersion) : TargetAggregator :=
  match documentKey with
  | some key =>
      if a.targetState.any TargetState.current && (a.pendingDocumentUpdates.get key).isNone
          && !a.targetContainsDocument key then
        a.removeDocumentFromTarget key (some (.noDocument key snapshotVersion false))
      else a
  | none => a

/-- `CreateRemoteEvent`: the target change, if there is one, and the documents. -/
def createRemoteEvent (a : TargetAggregator) (documentKey : Option DocumentKey)
    (snapshotVersion : SnapshotVersion) :
    Option (TargetAggregator × Option TargetChange × MaybeDocumentMap ObjectValue) :=
  match a.targetState with
  | none => some ({ a with pendingDocumentUpdates := SortedMap.empty }, none,
      a.pendingDocumentUpdates)
  | some _ =>
      let a := if a.isActiveTarget then a.synthesizeDelete documentKey snapshotVersion else a
      let updates := a.pendingDocumentUpdates
      let a := { a with pendingDocumentUpdates := SortedMap.empty }
      let t := a.ensureTargetState
      if a.isActiveTarget && t.hasPendingChanges then
        t.toTargetChange.map fun change => (a.withState t.clearPendingChanges, some change, updates)
      else some (a, none, updates)

/-- The keys of a view that a target change has come to. -/
def syncedAfter (keys : DocumentKeySet) : Option TargetChange → DocumentKeySet
  | none => keys
  | some change => change.removedDocuments.foldl (fun s k => s.erase k)
      (change.addedDocuments.foldl (fun s k => s.insert k ()) keys)

/-! ## 1. The changes of one target -/

variable {a a' : TargetAggregator} {key k : DocumentKey} {t : TargetState}

/-- What a change leaves of whether its document is in the target. -/
def claimOf (a : TargetAggregator) (key : DocumentKey) : Option DocumentViewChangeType → Bool
  | none => a.remoteKeys.contains key
  | some .removed => false
  | some _ => true

/-- Whether a document is in the target, by the keys of the view and what has changed. -/
def claimed (a : TargetAggregator) (k : DocumentKey) : Bool :=
  a.claimOf k (a.ensureTargetState.documentChanges.get k)

/-- What the changes of an active target are: of the type that the keys of the view ask for,
with the document that came, and marked as something to tell. -/
structure Sound (a : TargetAggregator) : Prop where
  added : ∀ k, a.ensureTargetState.documentChanges.get k = some .added →
    a.remoteKeys.contains k = false
  kept : ∀ k type, a.ensureTargetState.documentChanges.get k = some type → type ≠ .added →
    type ≠ .metadata ∧ a.remoteKeys.contains k = true
  updated : ∀ k type, a.ensureTargetState.documentChanges.get k = some type → type ≠ .removed →
    (a.pendingDocumentUpdates.get k).isSome = true
  quiet : a.ensureTargetState.hasPendingChanges = false →
    ∀ k, a.ensureTargetState.documentChanges.get k = none

theorem ensureTargetState_withState (a : TargetAggregator) (t : TargetState) :
    (a.withState t).ensureTargetState = t := rfl

/-- An active target is not waiting for an answer. -/
theorem isPending_of_active (h : a.isActiveTarget = true) :
    a.ensureTargetState.isPending = false := by
  rw [isActiveTarget, Bool.and_eq_true, Bool.not_eq_true'] at h
  cases hstate : a.targetState with
  | none =>
      rw [ensureTargetState, hstate]
      rfl
  | some t =>
      rw [hstate, Option.any_some] at h
      rw [ensureTargetState, hstate]
      exact h.2

theorem listened_of_active (h : a.isActiveTarget = true) : a.listened = true := by
  rw [isActiveTarget, Bool.and_eq_true] at h
  exact h.1

theorem isActiveTarget_of_state (hlistened : a.listened = true) (hstate : a.targetState = some t)
    (ht : t.isPending = false) : a.isActiveTarget = true := by
  rw [isActiveTarget, hlistened, hstate, Option.any_some, ht]
  rfl

/-- **One change of one document.** -/
theorem sound_change (hactive : a.isActiveTarget = true) (h : Sound a) (a' : TargetAggregator)
    (key : DocumentKey) (c : Option DocumentViewChangeType) (hlistened : a'.listened = a.listened)
    (hkeys : a'.remoteKeys = a.remoteKeys) (hstate : a'.targetState = some t)
    (hpending : t.isPending = a.ensureTargetState.isPending) (htell : t.hasPendingChanges = true)
    (hchanges : ∀ k, t.documentChanges.get k
      = if k = key then c else a.ensureTargetState.documentChanges.get k)
    (hupdates : ∀ k, (a.pendingDocumentUpdates.get k).isSome = true →
      (a'.pendingDocumentUpdates.get k).isSome = true)
    (hadded : c = some .added → a.remoteKeys.contains key = false)
    (hkept : ∀ type, c = some type → type ≠ .added →
      type ≠ .metadata ∧ a.remoteKeys.contains key = true)
    (hupdated : ∀ type, c = some type → type ≠ .removed →
      (a'.pendingDocumentUpdates.get key).isSome = true) :
    a'.isActiveTarget = true ∧ Sound a'
      ∧ ∀ k, a'.claimed k = if k = key then a.claimOf key c else a.claimed k := by
  have hensure : a'.ensureTargetState = t := by
    rw [ensureTargetState, hstate]
    rfl
  refine ⟨?_, ⟨fun k hk => ?_, fun k type hk hne => ?_, fun k type hk hne => ?_, fun hquiet => ?_⟩,
    fun k => ?_⟩
  · refine isActiveTarget_of_state ?_ hstate ?_
    · rw [hlistened, listened_of_active hactive]
    · rw [hpending, isPending_of_active hactive]
  · rw [hensure, hchanges] at hk
    rw [hkeys]
    split at hk
    · next heq => exact heq ▸ hadded hk
    · exact h.added k hk
  · rw [hensure, hchanges] at hk
    rw [hkeys]
    split at hk
    · next heq => exact heq ▸ hkept type hk hne
    · exact h.kept k type hk hne
  · rw [hensure, hchanges] at hk
    split at hk
    · next heq => exact heq ▸ hupdated type hk hne
    · exact hupdates k (h.updated k type hk hne)
  · rw [hensure, htell] at hquiet
    cases hquiet
  · have hclaim : ∀ type, a'.claimOf k type = a.claimOf k type := by
      intro type
      unfold claimOf
      rw [hkeys]
    rw [claimed, hensure, hchanges, hclaim]
    by_cases heq : k = key
    · rw [if_pos heq, if_pos heq, heq]
    · rw [if_neg heq, if_neg heq, claimed]

/-- A document comes. -/
theorem addDocumentToTarget_spec (hactive : a.isActiveTarget = true) (h : Sound a)
    (doc : AnyDocument) :
    (a.addDocumentToTarget doc).isActiveTarget = true ∧ Sound (a.addDocumentToTarget doc)
      ∧ ∀ k, (a.addDocumentToTarget doc).claimed k
          = if k = doc.key then true else a.claimed k := by
  have hupdates : ∀ k, (a.pendingDocumentUpdates.put doc.key doc).get k
      = if k = doc.key then some doc else a.pendingDocumentUpdates.get k :=
    fun k => SortedMap.get_put ..
  have hkeep : ∀ k, (a.pendingDocumentUpdates.get k).isSome = true →
      ((a.pendingDocumentUpdates.put doc.key doc).get k).isSome = true := by
    intro k hk
    rw [hupdates]
    split
    · rfl
    · exact hk
  have hhere : ((a.pendingDocumentUpdates.put doc.key doc).get doc.key).isSome = true := by
    rw [hupdates, if_pos rfl]
    rfl
  unfold addDocumentToTarget
  rw [if_pos hactive]
  cases hcontains : a.targetContainsDocument doc.key with
  | true =>
      exact sound_change hactive h
        { a.withState (a.ensureTargetState.addDocumentChange doc.key .modified) with
          pendingDocumentUpdates := a.pendingDocumentUpdates.put doc.key doc }
        doc.key (some .modified) rfl rfl rfl rfl rfl
        (fun k => SortedMap.get_insert_of_lawful ..) hkeep (fun hc => nomatch hc)
        (fun type hc _ => ⟨by cases hc; decide, hcontains⟩) (fun _ _ _ => hhere)
  | false =>
      exact sound_change hactive h
        { a.withState (a.ensureTargetState.addDocumentChange doc.key .added) with
          pendingDocumentUpdates := a.pendingDocumentUpdates.put doc.key doc }
        doc.key (some .added) rfl rfl rfl rfl rfl
        (fun k => SortedMap.get_insert_of_lawful ..) hkeep (fun _ => hcontains)
        (fun type hc hne => absurd (Option.some.inj hc).symm hne) (fun _ _ _ => hhere)

/-- A document leaves. -/
theorem removeDocumentFromTarget_spec (hactive : a.isActiveTarget = true) (h : Sound a)
    (key : DocumentKey) (updatedDocument : Option AnyDocument) :
    (a.removeDocumentFromTarget key updatedDocument).isActiveTarget = true
      ∧ Sound (a.removeDocumentFromTarget key updatedDocument)
      ∧ ∀ k, (a.removeDocumentFromTarget key updatedDocument).claimed k
          = if k = key then false else a.claimed k := by
  have hkeep : ∀ k, (a.pendingDocumentUpdates.get k).isSome = true →
      ((updatesWith a.pendingDocumentUpdates key updatedDocument).get k).isSome = true := by
    intro k hk
    cases updatedDocument with
    | none => exact hk
    | some document =>
        rw [updatesWith, SortedMap.get_put]
        split
        · rfl
        · exact hk
  unfold removeDocumentFromTarget
  rw [if_pos hactive]
  cases hcontains : a.targetContainsDocument key with
  | true =>
      exact sound_change hactive h
        { a.withState (a.ensureTargetState.addDocumentChange key .removed) with
          pendingDocumentUpdates := updatesWith a.pendingDocumentUpdates key updatedDocument }
        key (some .removed) rfl rfl rfl rfl rfl
        (fun k => SortedMap.get_insert_of_lawful ..) hkeep (fun hc => nomatch hc)
        (fun type hc _ => ⟨by cases hc; decide, hcontains⟩)
        (fun type hc hne => absurd (Option.some.inj hc).symm hne)
  | false =>
      obtain ⟨hactive', hsound, hclaimed⟩ := sound_change hactive h
        { a.withState (a.ensureTargetState.removeDocumentChange key) with
          pendingDocumentUpdates := updatesWith a.pendingDocumentUpdates key updatedDocument }
        key none rfl rfl rfl rfl rfl (fun k => SortedMap.get_erase_of_lawful ..) hkeep
        (fun hc => nomatch hc) (fun _ hc => nomatch hc) (fun _ hc => nomatch hc)
      -- the keys of the view do not have it
      refine ⟨hactive', hsound, fun k => (hclaimed k).trans ?_⟩
      have hclaim : a.claimOf key none = false := hcontains
      rw [hclaim]

/-! ## 2. A target that starts anew -/

/-- An active target without changes. -/
theorem sound_fresh
    (hnone : ∀ k, a.ensureTargetState.documentChanges.get k = none) :
    Sound a ∧ ∀ k, a.claimed k = a.remoteKeys.contains k := by
  refine ⟨⟨fun k hk => ?_, fun k type hk _ => ?_, fun k type hk _ => ?_, fun _ => hnone⟩,
    fun k => ?_⟩
  · rw [hnone] at hk
    cases hk
  · rw [hnone] at hk
    cases hk
  · rw [hnone] at hk
    cases hk
  · rw [claimed, hnone]
    rfl

theorem removeAll_spec (keys : List DocumentKey) (hactive : a.isActiveTarget = true)
    (h : Sound a) :
    (keys.foldl (fun a key => a.removeDocumentFromTarget key none) a).isActiveTarget = true
      ∧ Sound (keys.foldl (fun a key => a.removeDocumentFromTarget key none) a)
      ∧ ∀ k, (keys.foldl (fun a key => a.removeDocumentFromTarget key none) a).claimed k
          = if k ∈ keys then false else a.claimed k := by
  induction keys generalizing a with
  | nil => exact ⟨hactive, h, fun k => (if_neg List.not_mem_nil).symm⟩
  | cons key keys ih =>
      -- a removal leaves the target active, so that the next one is made too
      obtain ⟨hactive', hsound', hclaimed'⟩ := removeDocumentFromTarget_spec hactive h key none
      obtain ⟨hactive'', hsound'', hclaimed''⟩ := ih hactive' hsound'
      refine ⟨hactive'', hsound'', fun k => ?_⟩
      rw [List.foldl_cons, hclaimed'', hclaimed']
      by_cases hk : k ∈ keys
      · rw [if_pos hk, if_pos (List.mem_cons_of_mem _ hk)]
      · rw [if_neg hk]
        by_cases heq : k = key
        · rw [if_pos heq, if_pos (heq ▸ List.mem_cons_self)]
        · rw [if_neg heq, if_neg fun hmem => (List.mem_cons.mp hmem).elim heq hk]

/-- **A reset target is empty**, whatever the view has. -/
theorem resetTarget_spec (hlistened : a.listened = true) (hreset : a.resetTarget = some a') :
    a'.isActiveTarget = true ∧ Sound a' ∧ ∀ k, a'.claimed k = false := by
  unfold resetTarget at hreset
  split at hreset
  · have hactive : (a.withState TargetState.new).isActiveTarget = true :=
      isActiveTarget_of_state hlistened rfl rfl
    obtain ⟨hsound, hclaimed⟩ := sound_fresh (a := a.withState TargetState.new) fun _ => rfl
    obtain ⟨hactive', hsound', hclaimed'⟩ :=
      removeAll_spec (a.remoteKeys.toList.map Prod.fst) hactive hsound
    rw [Option.some.injEq] at hreset
    subst hreset
    refine ⟨hactive', hsound', fun k => ?_⟩
    rw [hclaimed', hclaimed]
    split
    · rfl
    · next hk =>
        rw [SortedMap.mem_keys_iff, ← SortedMap.contains_eq] at hk
        exact Bool.eq_false_iff.mpr hk
  · cases hreset

/-! ## 3. An event -/

theorem mem_keysOfType {type : DocumentViewChangeType} :
    k ∈ t.keysOfType type ↔ t.documentChanges.get k = some type := by
  rw [TargetState.keysOfType, List.mem_map]
  constructor
  · rintro ⟨e, he, rfl⟩
    obtain ⟨hmem, htype⟩ := List.mem_filter.mp he
    rw [SortedMap.get_eq_some_iff_mem, ← beq_iff_eq.mp htype]
    exact hmem
  · intro hget
    refine ⟨(k, type), List.mem_filter.mpr ⟨SortedMap.get_eq_some_iff_mem.mp hget, ?_⟩, rfl⟩
    exact beq_self_eq_true type

theorem contains_syncedAfter (keys : DocumentKeySet) (change : TargetChange) (k : DocumentKey) :
    (syncedAfter keys (some change)).contains k = true
      ↔ (keys.contains k = true ∨ k ∈ change.addedDocuments) ∧ k ∉ change.removedDocuments := by
  have herased := SortedMap.contains_foldl_erase (fun k : DocumentKey => k) change.removedDocuments
    (change.addedDocuments.foldl (fun s k => s.insert k ()) keys) k
  have hinserted := SortedMap.contains_foldl_insert (fun k : DocumentKey => k)
    change.addedDocuments keys k
  rw [syncedAfter, herased, hinserted]
  refine and_congr (or_congr Iff.rfl ?_) ?_
  · exact ⟨fun ⟨k', hmem, heq⟩ => heq ▸ hmem, fun hmem => ⟨k, hmem, rfl⟩⟩
  · exact ⟨fun hall hmem => hall k hmem rfl, fun hnot k' hmem heq => hnot (heq ▸ hmem)⟩

/-- **The target change brings the keys of the view to what is claimed.** -/
theorem toTargetChange_spec (h : Sound a) :
    ∃ change, a.ensureTargetState.toTargetChange = some change
      ∧ (∀ k, (syncedAfter a.remoteKeys (some change)).contains k = a.claimed k)
      ∧ ∀ k ∈ change.modifiedDocuments, a.remoteKeys.contains k = true := by
  have hmetadata : (a.ensureTargetState.keysOfType .metadata).isEmpty = true := by
    rw [List.isEmpty_iff, List.eq_nil_iff_forall_not_mem]
    intro k hk
    exact (h.kept k .metadata (mem_keysOfType.mp hk) (by decide)).1 rfl
  rw [TargetState.toTargetChange, if_pos hmetadata]
  refine ⟨_, rfl, fun k => ?_, fun k hk => ?_⟩
  · rw [Bool.eq_iff_iff, contains_syncedAfter]
    dsimp only
    rw [mem_keysOfType, mem_keysOfType, claimed]
    cases hget : a.ensureTargetState.documentChanges.get k with
    | none => simp [claimOf]
    | some type =>
        have hkept := h.kept k type hget
        cases type with
        | removed => simp [claimOf]
        | added => simp [claimOf]
        | modified => simp [claimOf, (hkept (by decide)).2]
        | metadata => exact absurd rfl (hkept (by decide)).1
  · exact (h.kept k .modified (mem_keysOfType.mp hk) (by decide)).2

theorem remoteKeys_removeDocumentFromTarget (a : TargetAggregator) (key : DocumentKey)
    (updatedDocument : Option AnyDocument) :
    (a.removeDocumentFromTarget key updatedDocument).remoteKeys = a.remoteKeys := by
  unfold removeDocumentFromTarget
  split <;> rfl

/-- The document that is made up is one that the target does not have. -/
theorem synthesizeDelete_spec (hactive : a.isActiveTarget = true) (h : Sound a)
    (documentKey : Option DocumentKey) (v : SnapshotVersion) :
    (a.synthesizeDelete documentKey v).isActiveTarget = true
      ∧ Sound (a.synthesizeDelete documentKey v)
      ∧ (a.synthesizeDelete documentKey v).remoteKeys = a.remoteKeys
      ∧ ∀ k, (a.synthesizeDelete documentKey v).claimed k = a.claimed k := by
  cases documentKey with
  | none => exact ⟨hactive, h, rfl, fun _ => rfl⟩
  | some key =>
      unfold synthesizeDelete
      dsimp only
      split
      · next hcond =>
          rw [Bool.and_eq_true, Bool.and_eq_true, Bool.not_eq_true',
            targetContainsDocument] at hcond
          obtain ⟨⟨-, hnoUpdate⟩, hcontains⟩ := hcond
          obtain ⟨hactive', hsound', hclaimed'⟩ := removeDocumentFromTarget_spec hactive h key
            (some (.noDocument key v false))
          refine ⟨hactive', hsound', remoteKeys_removeDocumentFromTarget .., fun k => ?_⟩
          rw [hclaimed']
          split
          · next hk =>
              -- a document that has come since the last event has an update
              subst hk
              rw [claimed]
              cases hget : a.ensureTargetState.documentChanges.get k with
              | none => exact hcontains.symm
              | some type =>
                  have hremoved : type = .removed := by
                    by_contra hne
                    have hupdate := h.updated k type hget hne
                    rw [Option.isNone_iff_eq_none.mp hnoUpdate] at hupdate
                    cases hupdate
                  rw [hremoved]
                  rfl
          · rfl
      · exact ⟨hactive, h, rfl, fun _ => rfl⟩

/-- **An event.** It is raised, the keys of the view come to what is claimed, and then
nothing is left to tell. -/
theorem createRemoteEvent_spec (hactive : a.isActiveTarget = true) (h : Sound a)
    (documentKey : Option DocumentKey) (v : SnapshotVersion) :
    ∃ a' change updates, a.createRemoteEvent documentKey v = some (a', change, updates)
      ∧ (∀ k, (syncedAfter a.remoteKeys change).contains k = a.claimed k)
      ∧ (∀ c ∈ change, ∀ k ∈ c.modifiedDocuments, a.remoteKeys.contains k = true)
      ∧ a'.isActiveTarget = true
      ∧ ∀ k, a'.ensureTargetState.documentChanges.get k = none := by
  cases hstate : a.targetState with
  | none =>
      -- nothing has been said of the target yet, and the view has its keys
      have hnone : ∀ k, a.ensureTargetState.documentChanges.get k = none := by
        intro k
        rw [ensureTargetState, hstate]
        rfl
      refine ⟨{ a with pendingDocumentUpdates := SortedMap.empty }, none,
        a.pendingDocumentUpdates, ?_, fun k => ?_, fun c hc => absurd hc (Option.not_mem_none c),
        hactive, hnone⟩
      · rw [createRemoteEvent, hstate]
      · rw [claimed, hnone]
        rfl
  | some t₀ =>
      obtain ⟨hactive₁, hsound₁, hkeys₁, hclaimed₁⟩ := synthesizeDelete_spec hactive h documentKey v
      have hensure : ({ a.synthesizeDelete documentKey v with
          pendingDocumentUpdates := SortedMap.empty } : TargetAggregator).ensureTargetState
        = (a.synthesizeDelete documentKey v).ensureTargetState := rfl
      have hactive₂ : ({ a.synthesizeDelete documentKey v with
          pendingDocumentUpdates := SortedMap.empty } : TargetAggregator).isActiveTarget = true :=
        hactive₁
      unfold createRemoteEvent
      rw [hstate]
      dsimp only
      rw [if_pos hactive, hensure, hactive₂, Bool.true_and]
      cases htell : (a.synthesizeDelete documentKey v).ensureTargetState.hasPendingChanges with
      | true =>
          obtain ⟨change, hchange, hsynced, hmodified⟩ := toTargetChange_spec hsound₁
          rw [if_pos rfl, hchange, Option.map_some]
          rw [hkeys₁] at hsynced hmodified
          refine ⟨_, some change, _, rfl, fun k => (hsynced k).trans (hclaimed₁ k), ?_, ?_,
            fun _ => rfl⟩
          · rintro c ⟨⟩
            exact hmodified
          · have hlistened := listened_of_active hactive₁
            have hidle := isPending_of_active hactive₁
            exact isActiveTarget_of_state hlistened rfl hidle
      | false =>
          -- what has nothing to tell has no changes either
          have hnone := hsound₁.quiet htell
          rw [if_neg Bool.false_ne_true]
          refine ⟨_, none, _, rfl, fun k => ?_, fun c hc => absurd hc (Option.not_mem_none c),
            hactive₂, hnone⟩
          rw [← hclaimed₁, claimed, hnone, claimOf, hkeys₁]
          rfl

/-! ## 4. What the stream says -/

/-- The calls of an aggregator. A request to listen, or to stop, comes with what the provider
knows from then on. -/
inductive WatchCall where
  | request (listened : Bool) (remoteKeys : DocumentKeySet)
  | document (updated removed : Bool) (key : DocumentKey) (newDocument : Option AnyDocument)
  | target (state : WatchTargetChangeState) (hasToken : Bool)
  | existenceFilter (count : ℤ)
  | remoteEvent (snapshotVersion : SnapshotVersion)

/-- One call. The view takes the target change of an event. -/
def call (documentKey : Option DocumentKey) (a : TargetAggregator) :
    WatchCall → Option TargetAggregator
  | .request listened remoteKeys =>
      some ({ a with listened := listened, remoteKeys := remoteKeys }.withState
        a.ensureTargetState.recordPendingTargetRequest)
  | .document updated removed key newDocument =>
      some (a.handleDocumentChange updated removed key newDocument)
  | .target state hasToken => a.handleTargetChange state hasToken
  | .existenceFilter count => a.handleExistenceFilter documentKey count
  | .remoteEvent v =>
      (a.createRemoteEvent documentKey v).map fun (a', change, _) =>
        { a' with remoteKeys := syncedAfter a.remoteKeys change }

/-- The backend answers requests, and nothing else. -/
def Answers (a : TargetAggregator) : WatchCall → Prop
  | .target .added _ => 0 < a.ensureTargetState.outstandingResponses
  | .target .removed _ => 0 < a.ensureTargetState.outstandingResponses
  | _ => True

/-- What a document change says of a target. -/
def saidByDocument (members : Finset DocumentKey) (updated removed : Bool) (key : DocumentKey)
    (newDocument : Option AnyDocument) : Finset DocumentKey :=
  let members :=
    if updated then
      match newDocument with
      | some (.document doc) => insert doc.key members
      | some (.noDocument _ _ _) => members.erase key
      | _ => members
    else members
  if removed then members.erase key else members

/-- The keys of the view. -/
def keysOfView (a : TargetAggregator) : Finset DocumentKey :=
  (a.remoteKeys.toList.map Prod.fst).toFinset

/-- The documents that the stream has put in a target. A target that is asked for again goes
on from the keys of the view. One that is reset goes on from nothing, and so does one whose
existence filter has another count than there are documents. -/
def said (documentKey : Option DocumentKey) (a : TargetAggregator) (members : Finset DocumentKey) :
    WatchCall → Finset DocumentKey
  | .document updated removed key newDocument =>
      if a.isActiveTarget then saidByDocument members updated removed key newDocument else members
  | .target .added _ => a.keysOfView
  | .target .removed _ => a.keysOfView
  | .target .reset _ => if a.isActiveTarget then ∅ else members
  | .existenceFilter count =>
      match documentKey with
      | some key => if a.isActiveTarget ∧ count = 0 then members.erase key else members
      | none => if a.isActiveTarget ∧ (members.card : ℤ) ≠ count then ∅ else members
  | _ => members

/-- An aggregator, and what the stream has said. -/
structure Watched where
  target : TargetAggregator
  members : Finset DocumentKey

def Watched.step (documentKey : Option DocumentKey) (w : Watched) (c : WatchCall) :
    Option Watched :=
  (w.target.call documentKey c).map fun a => ⟨a, said documentKey w.target w.members c⟩

/-- The changes of an active target claim what the stream has said. -/
structure Tracks (a : TargetAggregator) (members : Finset DocumentKey) : Prop where
  active : a.isActiveTarget = true
  sound : Sound a
  claims : ∀ k, a.claimed k = true ↔ k ∈ members

/-- What is kept in every run. Nothing is claimed while a request is not answered. -/
structure Watched.Good (w : Watched) : Prop where
  outstanding : 0 ≤ w.target.ensureTargetState.outstandingResponses
  tracks : w.target.isActiveTarget = true → Tracks w.target w.members

section Steps

variable {documentKey : Option DocumentKey} {members : Finset DocumentKey}

theorem mem_keysOfView : k ∈ a.keysOfView ↔ a.remoteKeys.contains k = true := by
  rw [keysOfView, List.mem_toFinset, SortedMap.mem_keys_iff, SortedMap.contains_eq]

theorem nodup_keysOfType (t : TargetState) (type : DocumentViewChangeType) :
    (t.keysOfType type).Nodup :=
  t.documentChanges.nodup_keys.sublist (List.filter_sublist.map Prod.fst)

/-- What is in the target is in the view or has come, and has not left. -/
theorem Tracks.members_eq (h : Tracks a members) :
    members = (a.keysOfView ∪ (a.ensureTargetState.keysOfType .added).toFinset)
      \ (a.ensureTargetState.keysOfType .removed).toFinset := by
  ext k
  rw [← h.claims, Finset.mem_sdiff, Finset.mem_union, List.mem_toFinset, List.mem_toFinset,
    mem_keysOfType, mem_keysOfType, mem_keysOfView, claimed]
  cases hget : a.ensureTargetState.documentChanges.get k with
  | none => simp [claimOf]
  | some type =>
      have hkept := h.sound.kept k type hget
      cases type with
      | removed => simp [claimOf]
      | added => simp [claimOf]
      | modified => simp [claimOf, (hkept (by decide)).2]
      | metadata => exact absurd rfl (hkept (by decide)).1

/-- **The count of an active target is the number of its documents.** What has come was not
in the view, and what has left was. -/
theorem Tracks.getCurrentDocumentCount_eq (h : Tracks a members) :
    a.getCurrentDocumentCount = members.card := by
  have hview : a.keysOfView.card = a.remoteKeys.toList.length := by
    rw [keysOfView, List.toFinset_card_of_nodup a.remoteKeys.nodup_keys, List.length_map]
  have hadded := List.toFinset_card_of_nodup (nodup_keysOfType a.ensureTargetState .added)
  have hremoved := List.toFinset_card_of_nodup (nodup_keysOfType a.ensureTargetState .removed)
  have hnew : Disjoint a.keysOfView (a.ensureTargetState.keysOfType .added).toFinset := by
    rw [Finset.disjoint_right]
    intro k hk hmem
    rw [mem_keysOfView, h.sound.added k (mem_keysOfType.mp (List.mem_toFinset.mp hk))] at hmem
    cases hmem
  have hold : (a.ensureTargetState.keysOfType .removed).toFinset ⊆ a.keysOfView := by
    intro k hk
    rw [mem_keysOfView]
    exact (h.sound.kept k .removed (mem_keysOfType.mp (List.mem_toFinset.mp hk)) (by decide)).2
  have hsub : (a.ensureTargetState.keysOfType .removed).toFinset
      ⊆ a.keysOfView ∪ (a.ensureTargetState.keysOfType .added).toFinset :=
    hold.trans Finset.subset_union_left
  have hle := Finset.card_le_card hsub
  have hunion := Finset.card_union_of_disjoint hnew
  rw [h.members_eq, Finset.card_sdiff_of_subset hsub, getCurrentDocumentCount]
  omega

theorem Tracks.good (h : Tracks a members) : Watched.Good ⟨a, members⟩ := by
  refine ⟨?_, fun _ => h⟩
  have hidle := isPending_of_active h.active
  rw [TargetState.isPending, bne_eq_false_iff_eq] at hidle
  exact Int.le_of_eq hidle.symm

theorem good_of_inactive (hinactive : a.isActiveTarget = false)
    (houtstanding : 0 ≤ a.ensureTargetState.outstandingResponses) :
    Watched.Good ⟨a, members⟩ := by
  refine ⟨houtstanding, fun hactive => ?_⟩
  rw [hinactive] at hactive
  cases hactive

theorem Tracks.remove (h : Tracks a members) (key : DocumentKey)
    (updatedDocument : Option AnyDocument) :
    Tracks (a.removeDocumentFromTarget key updatedDocument) (members.erase key) := by
  obtain ⟨hactive, hsound, hclaimed⟩ :=
    removeDocumentFromTarget_spec h.active h.sound key updatedDocument
  refine ⟨hactive, hsound, fun k => ?_⟩
  rw [hclaimed, Finset.mem_erase, ← h.claims]
  by_cases hk : k = key
  · simp [hk]
  · simp [hk]

theorem Tracks.handleDocumentChange (h : Tracks a members) (updated removed : Bool)
    (key : DocumentKey) (newDocument : Option AnyDocument) :
    Tracks (a.handleDocumentChange updated removed key newDocument)
      (saidByDocument members updated removed key newDocument) := by
  have hupdated : Tracks
      (if updated then
        match newDocument with
        | some (.document doc) => a.addDocumentToTarget (.document doc)
        | some (.noDocument _ _ _) => a.removeDocumentFromTarget key newDocument
        | _ => a
      else a)
      (if updated then
        match newDocument with
        | some (.document doc) => insert doc.key members
        | some (.noDocument _ _ _) => members.erase key
        | _ => members
      else members) := by
    cases updated with
    | false => exact h
    | true =>
        rw [if_pos rfl, if_pos rfl]
        match newDocument with
        | none => exact h
        | some (.document doc) =>
            obtain ⟨hactive, hsound, hclaimed⟩ :=
              addDocumentToTarget_spec h.active h.sound (.document doc)
            refine ⟨hactive, hsound, fun k => ?_⟩
            have hkey : (MaybeDocument.document doc).key = doc.key := rfl
            rw [hclaimed, Finset.mem_insert, ← h.claims, hkey]
            by_cases hk : k = doc.key
            · simp [hk]
            · simp [hk]
        | some (.noDocument _ _ _) => exact h.remove key _
        | some (.unknownDocument _ _) => exact h
  unfold TargetAggregator.handleDocumentChange saidByDocument
  dsimp only
  cases removed with
  | false => exact hupdated
  | true => exact hupdated.remove key newDocument

theorem handleDocumentChange_of_inactive (hinactive : a.isActiveTarget = false)
    (updated removed : Bool) (key : DocumentKey) (newDocument : Option AnyDocument) :
    a.handleDocumentChange updated removed key newDocument = a := by
  have hnot : ¬ a.isActiveTarget = true := Bool.eq_false_iff.mp hinactive
  have hadd : ∀ doc, a.addDocumentToTarget doc = a := fun _ => if_neg hnot
  have hremove : ∀ key doc, a.removeDocumentFromTarget key doc = a := fun _ _ => if_neg hnot
  have hupdated : (if updated then
        match newDocument with
        | some (.document doc) => a.addDocumentToTarget (.document doc)
        | some (.noDocument _ _ _) => a.removeDocumentFromTarget key newDocument
        | _ => a
      else a) = a := by
    split
    · split
      · exact hadd _
      · exact hremove _ _
      · rfl
    · rfl
  unfold TargetAggregator.handleDocumentChange
  dsimp only
  rw [hupdated]
  split
  · exact hremove _ _
  · rfl

/-- What else changes of a state leaves its claims alone. -/
theorem Tracks.withState (h : Tracks a members) {t : TargetState}
    (houtstanding : t.outstandingResponses = a.ensureTargetState.outstandingResponses)
    (hchanges : t.documentChanges = a.ensureTargetState.documentChanges)
    (htell : t.hasPendingChanges = false → a.ensureTargetState.hasPendingChanges = false) :
    Tracks (a.withState t) members := by
  have hactive : (a.withState t).isActiveTarget = true := by
    have hlistened := listened_of_active h.active
    refine isActiveTarget_of_state hlistened rfl ?_
    rw [TargetState.isPending, houtstanding]
    exact isPending_of_active h.active
  refine ⟨hactive, ⟨fun k hk => ?_, fun k type hk => ?_, fun k type hk => ?_, fun hquiet => ?_⟩,
    fun k => ?_⟩
  · rw [ensureTargetState_withState, hchanges] at hk
    exact h.sound.added k hk
  · rw [ensureTargetState_withState, hchanges] at hk
    exact h.sound.kept k type hk
  · rw [ensureTargetState_withState, hchanges] at hk
    exact h.sound.updated k type hk
  · rw [ensureTargetState_withState] at hquiet ⊢
    rw [hchanges]
    exact h.sound.quiet (htell hquiet)
  · rw [← h.claims, claimed, ensureTargetState_withState, hchanges]
    rfl

/-- A token that is new is something to tell. -/
theorem updateResumeToken_spec (t : TargetState) (hasToken : Bool) :
    (t.updateResumeToken hasToken).outstandingResponses = t.outstandingResponses
      ∧ (t.updateResumeToken hasToken).documentChanges = t.documentChanges
      ∧ ((t.updateResumeToken hasToken).hasPendingChanges = false →
        t.hasPendingChanges = false) := by
  cases hasToken with
  | false => exact ⟨rfl, rfl, id⟩
  | true => exact ⟨rfl, rfl, fun h => nomatch h⟩

theorem Tracks.updateResumeToken (h : Tracks a members) (hasToken : Bool) :
    Tracks (a.withState (a.ensureTargetState.updateResumeToken hasToken)) members := by
  obtain ⟨houtstanding, hchanges, htell⟩ := updateResumeToken_spec a.ensureTargetState hasToken
  exact h.withState houtstanding hchanges htell

theorem tracks_of_fresh (hactive : a.isActiveTarget = true)
    (hnone : ∀ k, a.ensureTargetState.documentChanges.get k = none) :
    Tracks a a.keysOfView := by
  refine ⟨hactive, (sound_fresh hnone).1, fun k => ?_⟩
  rw [(sound_fresh hnone).2, mem_keysOfView]

theorem tracks_of_reset (hlistened : a.listened = true) (hreset : a.resetTarget = some a') :
    Tracks a' ∅ := by
  obtain ⟨hactive, hsound, hclaimed⟩ := resetTarget_spec hlistened hreset
  refine ⟨hactive, hsound, fun k => ?_⟩
  simp [hclaimed]

/-- A state that waits for an answer makes the target inactive. -/
theorem isActiveTarget_of_pending {t : TargetState} (ht : t.isPending = true)
    (a : TargetAggregator) : (a.withState t).isActiveTarget = false := by
  rw [isActiveTarget, withState]
  dsimp only
  rw [Option.any_some, ht]
  exact Bool.and_false _

theorem isActiveTarget_ensured (a : TargetAggregator) :
    (a.withState a.ensureTargetState).isActiveTarget = a.isActiveTarget := by
  rw [isActiveTarget, isActiveTarget, withState, ensureTargetState]
  cases a.targetState <;> rfl

theorem Tracks.ensured (h : Tracks a members) :
    Tracks (a.withState a.ensureTargetState) members := h.withState rfl rfl id

theorem good_request (h : Watched.Good ⟨a, members⟩) (listened : Bool)
    (remoteKeys : DocumentKeySet) :
    Watched.Good ⟨{ a with listened := listened, remoteKeys := remoteKeys }.withState
      a.ensureTargetState.recordPendingTargetRequest, members⟩ := by
  have houtstanding := h.outstanding
  dsimp only at houtstanding
  refine good_of_inactive (isActiveTarget_of_pending ?_ _) ?_
  · rw [TargetState.isPending, TargetState.recordPendingTargetRequest, bne_iff_ne]
    dsimp only
    omega
  · rw [ensureTargetState_withState, TargetState.recordPendingTargetRequest]
    dsimp only
    omega

/-- **An answer.** With the last one the target goes on from the keys of the view. -/
theorem good_answer (hanswers : 0 < a.ensureTargetState.outstandingResponses)
    {state : WatchTargetChangeState} (hstate : state = .added ∨ state = .removed)
    (hasToken : Bool) (hcall : a.handleTargetChange state hasToken = some a') :
    Watched.Good ⟨a', a.keysOfView⟩ := by
  have hresponse : a.ensureTargetState.recordTargetResponse.outstandingResponses
      = a.ensureTargetState.outstandingResponses - 1 := rfl
  rcases hstate with rfl | rfl
  · unfold handleTargetChange at hcall
    dsimp only at hcall
    rw [Option.some.injEq] at hcall
    subst hcall
    by_cases hpending : a.ensureTargetState.recordTargetResponse.isPending = true
    · -- other requests are open
      rw [if_pos hpending]
      obtain ⟨houtstanding, -, -⟩ :=
        updateResumeToken_spec a.ensureTargetState.recordTargetResponse hasToken
      refine good_of_inactive (isActiveTarget_of_pending ?_ _) ?_
      · rw [TargetState.isPending, houtstanding]
        exact hpending
      · rw [ensureTargetState_withState, houtstanding, hresponse]
        omega
    · -- what was gathered before the last answer is thrown away
      rw [if_neg hpending]
      obtain ⟨houtstanding, hchanges, -⟩ := updateResumeToken_spec
        a.ensureTargetState.recordTargetResponse.clearPendingChanges hasToken
      have hcleared :
          a.ensureTargetState.recordTargetResponse.clearPendingChanges.outstandingResponses
            = a.ensureTargetState.outstandingResponses - 1 := rfl
      refine ⟨?_, fun hactive => tracks_of_fresh hactive fun k => ?_⟩
      · dsimp only
        rw [ensureTargetState_withState, houtstanding, hcleared]
        omega
      · rw [ensureTargetState_withState, hchanges]
        rfl
  · unfold handleTargetChange at hcall
    dsimp only at hcall
    rw [Option.some.injEq] at hcall
    subst hcall
    by_cases hpending : a.ensureTargetState.recordTargetResponse.isPending = true
    · rw [if_pos hpending]
      refine good_of_inactive (isActiveTarget_of_pending hpending _) ?_
      rw [ensureTargetState_withState, hresponse]
      omega
    · rw [if_neg hpending]
      exact ⟨Int.le_refl 0, fun hactive => tracks_of_fresh hactive fun _ => rfl⟩

/-- What the stream says of a target that is listened to. -/
theorem good_targetChange (h : Watched.Good ⟨a, members⟩) {state : WatchTargetChangeState}
    (hadded : state ≠ .added) (hremoved : state ≠ .removed) (hasToken : Bool)
    (hcall : a.handleTargetChange state hasToken = some a') :
    Watched.Good ⟨a', said documentKey a members (.target state hasToken)⟩ := by
  unfold handleTargetChange at hcall
  dsimp only at hcall
  cases hactive : a.isActiveTarget with
  | false =>
      have hnot : ¬ (a.withState a.ensureTargetState).isActiveTarget = true := by
        rw [isActiveTarget_ensured, hactive]
        exact Bool.false_ne_true
      have hsame : ∀ members' : Finset DocumentKey,
          Watched.Good ⟨a.withState a.ensureTargetState, members'⟩ := fun _ =>
        good_of_inactive (Bool.eq_false_iff.mpr hnot) h.outstanding
      cases state with
      | added => exact absurd rfl hadded
      | removed => exact absurd rfl hremoved
      | noChange =>
          rw [Option.some.injEq, if_neg hnot] at hcall
          exact hcall ▸ hsame _
      | current =>
          rw [Option.some.injEq, if_neg hnot] at hcall
          exact hcall ▸ hsame _
      | reset =>
          dsimp only at hcall
          rw [if_neg hnot, Option.some.injEq] at hcall
          exact hcall ▸ hsame _
  | true =>
      have htracks : Tracks a members := h.tracks hactive
      have hensured : (a.withState a.ensureTargetState).isActiveTarget = true := by
        rw [isActiveTarget_ensured, hactive]
      cases state with
      | added => exact absurd rfl hadded
      | removed => exact absurd rfl hremoved
      | noChange =>
          rw [Option.some.injEq, if_pos hensured] at hcall
          exact hcall ▸ (htracks.updateResumeToken hasToken).good
      | current =>
          rw [Option.some.injEq, if_pos hensured] at hcall
          obtain ⟨houtstanding, hchanges, htell⟩ :=
            updateResumeToken_spec a.ensureTargetState.markCurrent hasToken
          have hcurrent : Tracks
              (a.withState (a.ensureTargetState.markCurrent.updateResumeToken hasToken)) members :=
            htracks.withState houtstanding hchanges fun hquiet => nomatch htell hquiet
          exact hcall ▸ hcurrent.good
      | reset =>
          dsimp only at hcall
          rw [if_pos hensured, Option.map_eq_some_iff] at hcall
          obtain ⟨b, hreset, rfl⟩ := hcall
          have hlistened : (a.withState a.ensureTargetState).listened = true :=
            (listened_of_active hactive : a.listened = true)
          have hempty : Tracks b ∅ := tracks_of_reset hlistened hreset
          rw [said, if_pos hactive]
          exact (hempty.updateResumeToken hasToken).good

theorem good_existenceFilter (h : Watched.Good ⟨a, members⟩) (count : ℤ)
    (hcall : a.handleExistenceFilter documentKey count = some a') :
    Watched.Good ⟨a', said documentKey a members (.existenceFilter count)⟩ := by
  unfold handleExistenceFilter at hcall
  cases hactive : a.isActiveTarget with
  | false =>
      rw [hactive, if_neg Bool.false_ne_true, Option.some.injEq] at hcall
      exact hcall ▸ good_of_inactive hactive h.outstanding
  | true =>
      have htracks : Tracks a members := h.tracks hactive
      rw [if_pos hactive] at hcall
      cases documentKey with
      | some key =>
          dsimp only at hcall
          rw [said]
          by_cases hcount : count = 0
          · rw [if_pos hcount, Option.some.injEq] at hcall
            rw [if_pos ⟨hactive, hcount⟩]
            exact hcall ▸ (htracks.remove key _).good
          · rw [if_neg hcount] at hcall
            rw [if_neg fun hboth => hcount hboth.2]
            split at hcall
            · exact Option.some.inj hcall ▸ h
            · cases hcall
      | none =>
          dsimp only at hcall
          rw [said]
          have hcurrent : (a.withState a.ensureTargetState).getCurrentDocumentCount
              = a.getCurrentDocumentCount := rfl
          rw [hcurrent, htracks.getCurrentDocumentCount_eq] at hcall
          by_cases hcount : (members.card : ℤ) = count
          · rw [if_pos hcount, Option.some.injEq] at hcall
            rw [if_neg fun hboth => hboth.2 hcount]
            exact hcall ▸ htracks.ensured.good
          · rw [if_neg hcount] at hcall
            rw [if_pos ⟨hactive, hcount⟩]
            have hlistened : (a.withState a.ensureTargetState).listened = true :=
              (listened_of_active hactive : a.listened = true)
            exact (tracks_of_reset hlistened hcall).good

theorem createRemoteEvent_of_inactive (hinactive : a.isActiveTarget = false)
    (documentKey : Option DocumentKey) (v : SnapshotVersion) :
    ∃ updates, a.createRemoteEvent documentKey v
      = some ({ a with pendingDocumentUpdates := SortedMap.empty }, none, updates) := by
  refine ⟨a.pendingDocumentUpdates, ?_⟩
  have hempty : ({ a with pendingDocumentUpdates := SortedMap.empty } :
      TargetAggregator).isActiveTarget = false := hinactive
  unfold createRemoteEvent
  cases hstate : a.targetState with
  | none => rfl
  | some t =>
      have hnot : ¬ a.isActiveTarget = true := Bool.eq_false_iff.mp hinactive
      dsimp only
      simp only [if_neg hnot]
      rw [hempty, ← hstate]
      rfl

/-- **An event leaves the view with the keys that the stream has put in the target.** -/
theorem good_remoteEvent (h : Watched.Good ⟨a, members⟩) (v : SnapshotVersion)
    (hcall : a.call documentKey (.remoteEvent v) = some a') : Watched.Good ⟨a', members⟩ := by
  obtain ⟨⟨b, change, updates⟩, hevent, rfl⟩ := Option.map_eq_some_iff.mp hcall
  cases hactive : a.isActiveTarget with
  | false =>
      obtain ⟨updates', hevent'⟩ := createRemoteEvent_of_inactive hactive documentKey v
      rw [hevent, Option.some.injEq, Prod.mk.injEq, Prod.mk.injEq] at hevent'
      obtain ⟨rfl, rfl, -⟩ := hevent'
      exact good_of_inactive hactive h.outstanding
  | true =>
      have htracks : Tracks a members := h.tracks hactive
      obtain ⟨b', change', updates', hevent', hsynced, -, hactive', hnone⟩ :=
        createRemoteEvent_spec hactive htracks.sound documentKey v
      rw [hevent, Option.some.injEq, Prod.mk.injEq, Prod.mk.injEq] at hevent'
      obtain ⟨rfl, rfl, -⟩ := hevent'
      have hactive'' : ({ b with remoteKeys := syncedAfter a.remoteKeys change } :
          TargetAggregator).isActiveTarget = true := hactive'
      have hfresh := tracks_of_fresh hactive'' hnone
      have hmembers : ({ b with remoteKeys := syncedAfter a.remoteKeys change } :
          TargetAggregator).keysOfView = members := by
        ext k
        rw [mem_keysOfView, ← htracks.claims, ← hsynced]
      rw [hmembers] at hfresh
      exact hfresh.good

/-! ## 5. Every run -/

theorem good_step {w w' : Watched} {c : WatchCall} (h : w.Good) (hanswers : Answers w.target c)
    (hstep : w.step documentKey c = some w') : w'.Good := by
  obtain ⟨a', hcall, rfl⟩ := Option.map_eq_some_iff.mp hstep
  cases c with
  | request listened remoteKeys =>
      rw [← Option.some.inj hcall]
      exact good_request h listened remoteKeys
  | document updated removed key newDocument =>
      rw [← Option.some.inj hcall, said]
      cases hactive : w.target.isActiveTarget with
      | false =>
          rw [handleDocumentChange_of_inactive hactive]
          exact good_of_inactive hactive h.outstanding
      | true =>
          exact ((h.tracks hactive).handleDocumentChange updated removed key newDocument).good
  | target state hasToken =>
      cases state with
      | added => exact good_answer hanswers (Or.inl rfl) hasToken hcall
      | removed => exact good_answer hanswers (Or.inr rfl) hasToken hcall
      | noChange => exact good_targetChange h (by decide) (by decide) hasToken hcall
      | current => exact good_targetChange h (by decide) (by decide) hasToken hcall
      | reset => exact good_targetChange h (by decide) (by decide) hasToken hcall
  | existenceFilter count => exact good_existenceFilter h count hcall
  | remoteEvent v => exact good_remoteEvent h v hcall

/-- No target yet. -/
def start : Watched := ⟨⟨none, false, SortedMap.empty, SortedMap.empty⟩, ∅⟩

theorem good_start : start.Good := good_of_inactive rfl (Int.le_refl 0)

/-- **The keys of the view follow the watch stream.** In every state of a run in which the
target has no open requests, an event can be raised; its target change brings the keys of
the view to the documents that the stream has put in the target, through all that came and
left since the last event and through every reset; and it calls modified only what the view
has. -/
theorem remoteKeys_follow {calls : List WatchCall} {w : Watched}
    (hcalls : AllSteps (Watched.step documentKey) (fun w c => Answers w.target c) start calls)
    (hrun : run (Watched.step documentKey) start calls = some w)
    (hactive : w.target.isActiveTarget = true) (v : SnapshotVersion) :
    ∃ a' change updates, w.target.createRemoteEvent documentKey v = some (a', change, updates)
      ∧ (∀ k, (syncedAfter w.target.remoteKeys change).contains k = true ↔ k ∈ w.members)
      ∧ ∀ c ∈ change, ∀ k ∈ c.modifiedDocuments, w.target.remoteKeys.contains k = true := by
  have hgood : w.Good := run_invariant_of_allSteps (I := Watched.Good)
    (fun _ _ _ h hanswers hstep => good_step h hanswers hstep) good_start hcalls hrun
  have htracks := hgood.tracks hactive
  obtain ⟨a', change, updates, hevent, hsynced, hmodified, -⟩ :=
    createRemoteEvent_spec hactive htracks.sound documentKey v
  refine ⟨a', change, updates, hevent, fun k => ?_, hmodified⟩
  rw [hsynced, htracks.claims]

/-- What the backend promises of a target change is kept: the view accepts it. -/
theorem applyTargetChange_of_modified {D V : Type} [Ord D] [Ord V] [ObjectData D V] {q : Query D}
    (v : View q) {change : Option TargetChange}
    (hmodified : ∀ c ∈ change, ∀ k ∈ c.modifiedDocuments, v.syncedDocuments.contains k = true) :
    ∃ v', v.applyTargetChange change = some v'
      ∧ v'.syncedDocuments = syncedAfter v.syncedDocuments change := by
  have hfits : View.Fits v change := fun c hc k hk => Or.inr (hmodified c hc k hk)
  obtain ⟨v', happly, -⟩ := View.applyTargetChange_spec hfits
  refine ⟨v', happly, ?_⟩
  cases change with
  | none =>
      rw [View.applyTargetChange, Option.some.injEq] at happly
      rw [← happly]
      rfl
  | some c =>
      rw [View.applyTargetChange] at happly
      split at happly
      · rw [← Option.some.inj happly]
        rfl
      · cases happly

/-- **A view follows the watch stream.** When no request for its target is open, an event can
be raised, the view accepts the target change, and then its synced documents are those that
the stream has put in the target. The run goes on with the keys of the view. -/
theorem view_follows_watch {D V : Type} [Ord D] [Ord V] [ObjectData D V] {q : Query D}
    {calls : List WatchCall} {w : Watched}
    (hcalls : AllSteps (Watched.step documentKey) (fun w c => Answers w.target c) start calls)
    (hrun : run (Watched.step documentKey) start calls = some w)
    (hactive : w.target.isActiveTarget = true) (version : SnapshotVersion) (v : View q)
    (hkeys : v.syncedDocuments = w.target.remoteKeys) :
    ∃ a' change updates v', w.target.createRemoteEvent documentKey version
        = some (a', change, updates)
      ∧ v.applyTargetChange change = some v'
      ∧ w.step documentKey (.remoteEvent version)
        = some ⟨{ a' with remoteKeys := v'.syncedDocuments }, w.members⟩
      ∧ ∀ k, v'.syncedDocuments.contains k = true ↔ k ∈ w.members := by
  obtain ⟨a', change, updates, hevent, hsynced, hmodified⟩ :=
    remoteKeys_follow hcalls hrun hactive version
  obtain ⟨v', happly, hsynced'⟩ :=
    applyTargetChange_of_modified v fun c hc k hk => hkeys ▸ hmodified c hc k hk
  rw [hkeys] at hsynced'
  refine ⟨a', change, updates, v', hevent, happly, ?_, fun k => ?_⟩
  · rw [Watched.step, call, hevent, hsynced']
    rfl
  · rw [hsynced', hsynced]

end Steps

/-- The stream confirms a target and puts a submission in it. -/
def submissionSent : List WatchCall :=
  [.request true SortedMap.empty, .target .added true,
    .document true false (submission "curry" 8 .synced).key
      (some (.document (submission "curry" 8 .synced)))]

theorem view_follows_watch_submission :
    ∃ w a' change updates v', run (Watched.step none) start submissionSent = some w
      ∧ w.target.createRemoteEvent none 9 = some (a', change, updates)
      ∧ (View.create feedQuery SortedMap.empty).applyTargetChange change = some v'
      ∧ v'.syncedDocuments.contains (submission "curry" 8 .synced).key = true := by
  have hrequest : start.step none (.request true SortedMap.empty)
      = some ⟨⟨some ⟨1, SortedMap.empty, false, true⟩, true, SortedMap.empty, SortedMap.empty⟩,
        ∅⟩ := rfl
  have hadded : Watched.step none
      ⟨⟨some ⟨1, SortedMap.empty, false, true⟩, true, SortedMap.empty, SortedMap.empty⟩,
        ∅⟩ (.target .added true)
      = some ⟨⟨some ⟨0, SortedMap.empty, false, true⟩, true, SortedMap.empty, SortedMap.empty⟩,
        ∅⟩ := rfl
  have hput : (submission "curry" 8 .synced).key ∈ saidByDocument ∅ true false
      (submission "curry" 8 .synced).key (some (.document (submission "curry" 8 .synced))) := by
    unfold saidByDocument
    rw [if_neg Bool.false_ne_true, if_pos rfl]
    exact Finset.mem_insert_self ..
  obtain ⟨w, hdocument, hactive, hkeys, hmember⟩ : ∃ w, Watched.step none
      ⟨⟨some ⟨0, SortedMap.empty, false, true⟩, true, SortedMap.empty, SortedMap.empty⟩,
        ∅⟩
      (.document true false (submission "curry" 8 .synced).key
        (some (.document (submission "curry" 8 .synced)))) = some w
      ∧ w.target.isActiveTarget = true
      ∧ SortedMap.empty = w.target.remoteKeys
      ∧ (submission "curry" 8 .synced).key ∈ w.members := ⟨_, rfl, rfl, rfl, hput⟩
  have hrun : run (Watched.step none) start submissionSent = some w := by
    simp only [submissionSent, run_cons, run_nil, hrequest, hadded, hdocument, Option.bind_some]
  have hcalls : AllSteps (Watched.step none) (fun w c => Answers w.target c) start
      submissionSent := by
    intro v c v' htakes
    rw [submissionSent, takes_cons hrequest, takes_cons hadded, takes_cons hdocument] at htakes
    rcases htakes with ⟨-, rfl, -⟩ | ⟨rfl, rfl, -⟩ | ⟨-, rfl, -⟩ | hnil
    · trivial
    · exact Int.one_pos
    · trivial
    · exact absurd hnil takes_nil
  obtain ⟨a', change, updates, v', hevent, happly, -, hsynced⟩ :=
    view_follows_watch hcalls hrun hactive 9 (View.create feedQuery SortedMap.empty) hkeys
  exact ⟨w, a', change, updates, v', hrun, hevent, happly, (hsynced _).mpr hmember⟩

end TargetAggregator

end FreeFood.Firestore
