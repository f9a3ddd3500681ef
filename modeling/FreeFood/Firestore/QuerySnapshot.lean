/-
`api/query_snapshot.h` and `api/document_change.h`: a snapshot as the user of the SDK has
it, with the index of every change.

An index is a position at the time of its change, when those before it have been made, so
`ForEachChange` replays the changes on the old documents to find it. Proved here is what a
list on a screen lives on: made in their order, the changes turn the documents of the last
snapshot into those of this one. Where changes of metadata are left out the list may keep
another version of a document, with data that compares the same.
-/
import FreeFood.Firestore.FeedQuery
import FreeFood.Firestore.View
import FreeFood.Lib.IndexEdit

set_option autoImplicit false

namespace FreeFood.Firestore

open Std

/-- `SnapshotMetadata`. -/
structure SnapshotMetadata where
  hasPendingWrites : Bool
  fromCache : Bool
deriving DecidableEq

/-- `DocumentSnapshot`, of a document that exists. -/
structure DocumentSnapshot (D : Type) where
  document : Document D
  metadata : SnapshotMetadata
deriving DecidableEq

/-- `DocumentChange::Type`. -/
inductive DocumentChangeType where
  | added
  | modified
  | removed
deriving DecidableEq

/-- `DocumentChange`, with `none` for `npos`. -/
structure DocumentChange (D : Type) where
  type : DocumentChangeType
  document : DocumentSnapshot D
  oldIndex : Option ℕ
  newIndex : Option ℕ
deriving DecidableEq

variable {D V : Type} [Ord D] [Ord V] [ObjectData D V]

/-- `QuerySnapshot`. -/
structure QuerySnapshot (q : Query D) where
  snapshot : ViewSnapshot D q.comparator
  metadata : SnapshotMetadata

/-- `DocumentChangeTypeForChange`. -/
def documentChangeTypeForChange : DocumentViewChangeType → DocumentChangeType
  | .added => .added
  | .modified => .modified
  | .metadata => .modified
  | .removed => .removed

/-- What a change does to a list of the documents. -/
def DocumentChange.edit (c : DocumentChange D) : IndexEdit (Document D) :=
  ⟨c.oldIndex, c.newIndex, c.document.document⟩

namespace QuerySnapshot

variable {q : Query D}

/-- The `Converter` of `AddSnapshotListener`. -/
def ofViewSnapshot (snapshot : ViewSnapshot D q.comparator) : QuerySnapshot q :=
  ⟨snapshot, ⟨snapshot.hasPendingWrites, snapshot.fromCache⟩⟩

def isEmpty (s : QuerySnapshot q) : Bool := s.snapshot.documents.isEmpty

def size (s : QuerySnapshot q) : ℕ := s.snapshot.documents.size

/-- The `DocumentSnapshot` that `ForEachChange` makes of the document of a change. -/
def changedDocument (s : QuerySnapshot q) (doc : Document D) : DocumentSnapshot D :=
  ⟨doc, s.snapshot.mutatedKeys.contains doc.key, s.snapshot.fromCache⟩

/-- The loop of `ForEachChange` over the changes of a first snapshot, which asserts that
they are additions in the order of the query. -/
def firstChanges (s : QuerySnapshot q) :
    Option (Document D) → ℕ → List (DocumentViewChange D) → Option (List (DocumentChange D))
  | _, _, [] => some []
  | lastDocument, index, change :: rest =>
      if change.type = .added ∧
          ∀ last ∈ lastDocument, q.comparator last change.document = .lt then do
        let later ← s.firstChanges (some change.document) (index + 1) rest
        some (⟨.added, s.changedDocument change.document, none, some index⟩ :: later)
      else none

variable [TransOrd V]

/-- One change made to `index_tracker`, which asserts that what is not new is there. -/
def trackChange (s : QuerySnapshot q) (tracker : DocumentSet D q.comparator)
    (change : DocumentViewChange D) :
    Option (DocumentSet D q.comparator × DocumentChange D) := do
  let key := change.document.key
  let oldIndex ←
    if change.type = .added then some none else (tracker.indexOf key).map some
  let tracker := if change.type = .added then tracker else tracker.erase key
  let tracker := if change.type = .removed then tracker else tracker.insert change.document
  let newIndex := if change.type = .removed then none else tracker.indexOf key
  some (tracker, ⟨documentChangeTypeForChange change.type,
    s.changedDocument change.document, oldIndex, newIndex⟩)

/-- The loop of `ForEachChange` over the changes of a later snapshot. -/
def trackedChanges (s : QuerySnapshot q) (includeMetadataChanges : Bool) :
    DocumentSet D q.comparator → List (DocumentViewChange D) → Option (List (DocumentChange D))
  | _, [] => some []
  | tracker, change :: rest =>
      if !includeMetadataChanges && change.type == .metadata then
        s.trackedChanges includeMetadataChanges tracker rest
      else do
        let (tracker, documentChange) ← s.trackChange tracker change
        let later ← s.trackedChanges includeMetadataChanges tracker rest
        some (documentChange :: later)

/-- `ForEachChange`, as the list that the callback is given: `none` where it throws or
fails an assertion. -/
def forEachChange (s : QuerySnapshot q) (includeMetadataChanges : Bool) :
    Option (List (DocumentChange D)) :=
  if includeMetadataChanges && s.snapshot.excludesMetadataChanges then none
  else if s.snapshot.oldDocuments.isEmpty then s.firstChanges none 0 s.snapshot.documentChanges
  else s.trackedChanges includeMetadataChanges s.snapshot.oldDocuments s.snapshot.documentChanges

/-! ## 1. One change -/

/-- **A change made to the tracker is the edit that its indices tell of.** -/
theorem trackChange_spec (s : QuerySnapshot q) {tracker : DocumentSet D q.comparator}
    {change : DocumentViewChange D}
    (hold : change.type = .added ↔ tracker.getDocument change.document.key = none) :
    ∃ tracker' dc, s.trackChange tracker change = some (tracker', dc) ∧
      dc.type = documentChangeTypeForChange change.type ∧
      dc.document = s.changedDocument change.document ∧
      IndexEdit.apply tracker.toList dc.edit = tracker'.toList ∧
      ∀ k, tracker'.getDocument k = if k = change.document.key then
        (if change.type = .removed then none else some change.document)
        else tracker.getDocument k := by
  obtain ⟨b', a', hcut, hinsert, hindex⟩ := tracker.insert_spec change.document
  by_cases hadded : change.type = .added
  · have hnone := hold.mp hadded
    have hsame := DocumentSet.erase_of_getDocument_eq_none hnone
    have hnot : change.type ≠ .removed := by rw [hadded]; exact fun h => by cases h
    refine ⟨tracker.insert change.document, ⟨documentChangeTypeForChange change.type,
      s.changedDocument change.document, none,
      (tracker.insert change.document).indexOf change.document.key⟩, ?_, rfl, rfl, ?_, ?_⟩
    · simp [trackChange, hadded]
    · rw [hsame] at hcut
      rw [IndexEdit.apply, DocumentChange.edit, hindex, IndexEdit.remove, hcut, hinsert]
      exact IndexEdit.insertIdx_split b' a' change.document
    · intro k
      rw [DocumentSet.getDocument_insert, if_neg hnot]
  · obtain ⟨doc, hdoc⟩ := Option.ne_none_iff_exists'.mp fun h => hadded (hold.mpr h)
    obtain ⟨b, a, hlist, hfrom, herase⟩ := DocumentSet.erase_spec hdoc
    by_cases hremoved : change.type = .removed
    · refine ⟨tracker.erase change.document.key, ⟨documentChangeTypeForChange change.type,
        s.changedDocument change.document, some b.length, none⟩, ?_, rfl, rfl, ?_, ?_⟩
      · simp [trackChange, hremoved, hfrom]
      · rw [IndexEdit.apply, DocumentChange.edit, hlist, herase]
        exact IndexEdit.remove_split b a doc
      · intro k
        rw [DocumentSet.getDocument_erase, if_pos hremoved]
    · -- the document is taken from its old place and put where the order has it
      refine ⟨tracker.insert change.document, ⟨documentChangeTypeForChange change.type,
        s.changedDocument change.document, some b.length,
        (tracker.insert change.document).indexOf change.document.key⟩, ?_, rfl, rfl, ?_, ?_⟩
      · simp [trackChange, hadded, hremoved, hfrom, tracker.insert_erase]
      · rw [IndexEdit.apply, DocumentChange.edit, hindex, hlist, IndexEdit.remove_split, ← herase,
          hcut, hinsert]
        exact IndexEdit.insertIdx_split b' a' change.document
      · intro k
        rw [DocumentSet.getDocument_insert, if_neg hremoved]

/-! ## 2. All changes -/

/-- The changes that `ForEachChange` does not skip. -/
def kept (includeMetadataChanges : Bool) (changes : List (DocumentViewChange D)) :
    List (DocumentViewChange D) :=
  changes.filter fun c => includeMetadataChanges || c.type != .metadata

/-- The document under a key after the changes of a list, where no key has two. -/
def afterChanges (changes : List (DocumentViewChange D)) (old : Option (Document D))
    (k : DocumentKey) : Option (Document D) :=
  match changes.find? fun c => c.document.key = k with
  | none => old
  | some c => if c.type = .removed then none else some c.document

/-- What the changes of a snapshot are when each has been looked at alone. -/
def Replays (s : QuerySnapshot q) (changes : List (DocumentViewChange D))
    (dcs : List (DocumentChange D)) : Prop :=
  dcs.map DocumentChange.type = changes.map (fun c => documentChangeTypeForChange c.type) ∧
    dcs.map DocumentChange.document = changes.map fun c => s.changedDocument c.document

theorem trackedChanges_spec (s : QuerySnapshot q) (includeMetadataChanges : Bool)
    (changes : List (DocumentViewChange D)) (tracker : DocumentSet D q.comparator)
    (hnodup : ((kept includeMetadataChanges changes).map fun c => c.document.key).Nodup)
    (hold : ∀ c ∈ kept includeMetadataChanges changes,
      c.type = .added ↔ tracker.getDocument c.document.key = none) :
    ∃ (dcs : List (DocumentChange D)) (tracker' : DocumentSet D q.comparator),
      s.trackedChanges includeMetadataChanges tracker changes = some dcs ∧
      Replays s (kept includeMetadataChanges changes) dcs ∧
      IndexEdit.applyAll tracker.toList (dcs.map DocumentChange.edit) = tracker'.toList ∧
      ∀ k, tracker'.getDocument k
        = afterChanges (kept includeMetadataChanges changes) (tracker.getDocument k) k := by
  induction changes generalizing tracker with
  | nil => exact ⟨[], tracker, rfl, ⟨rfl, rfl⟩, rfl, fun k => rfl⟩
  | cons c rest ih =>
      by_cases hskip : (!includeMetadataChanges && c.type == .metadata) = true
      · have hkept : kept includeMetadataChanges (c :: rest)
            = kept includeMetadataChanges rest := by
          refine List.filter_cons_of_neg ?_
          simpa using hskip
        rw [hkept] at hnodup hold ⊢
        rw [trackedChanges, if_pos hskip]
        exact ih tracker hnodup hold
      · have hkept : kept includeMetadataChanges (c :: rest)
            = c :: kept includeMetadataChanges rest := by
          refine List.filter_cons_of_pos ?_
          simpa [Decidable.or_iff_not_imp_left] using hskip
        rw [hkept] at hnodup hold ⊢
        rw [List.map_cons, List.nodup_cons] at hnodup
        obtain ⟨tracker₁, dc, htrack, htype, hdoc, hedit, hget⟩ :=
          s.trackChange_spec (hold c List.mem_cons_self)
        have hother : ∀ c' ∈ kept includeMetadataChanges rest,
            c'.document.key ≠ c.document.key := by
          intro c' hc' heq
          exact hnodup.1 (heq ▸ List.mem_map_of_mem hc')
        obtain ⟨dcs, tracker', hrest, ⟨htypes, hdocs⟩, hedits, hgets⟩ := ih tracker₁ hnodup.2 (by
          intro c' hc'
          rw [hget, if_neg (hother c' hc')]
          exact hold c' (List.mem_cons_of_mem _ hc'))
        refine ⟨dc :: dcs, tracker', ?_, ⟨?_, ?_⟩, ?_, fun k => ?_⟩
        · rw [trackedChanges, if_neg hskip, htrack, Option.bind_eq_bind, Option.bind_some]
          dsimp only
          rw [hrest]
          rfl
        · rw [List.map_cons, List.map_cons, htype, htypes]
        · rw [List.map_cons, List.map_cons, hdoc, hdocs]
        · rw [List.map_cons, IndexEdit.applyAll_cons, hedit, hedits]
        · rw [hgets, hget, afterChanges, afterChanges]
          by_cases hk : k = c.document.key
          · -- no later change is of this key
            have hnone : (kept includeMetadataChanges rest).find?
                (fun c' => c'.document.key = k) = none := by
              rw [List.find?_eq_none]
              intro c' hc' heq
              exact hother c' hc' ((of_decide_eq_true heq).trans hk)
            rw [hnone, List.find?_cons_of_pos (by simp [hk])]
            simp [hk]
          · rw [List.find?_cons_of_neg (by simpa using fun h => hk h.symm), if_neg hk]

/-! ## 3. The list that the changes keep -/

omit [Ord D] [Ord V] [ObjectData D V] [TransOrd V] in
theorem find?_kept {includeMetadataChanges : Bool} {changes : List (DocumentViewChange D)}
    (hnodup : (changes.map fun c => c.document.key).Nodup) (k : DocumentKey) :
    ((kept includeMetadataChanges changes).find? fun c => c.document.key = k)
      = (changes.find? fun c => c.document.key = k).filter
          fun c => includeMetadataChanges || c.type != .metadata := by
  have hsub : ((kept includeMetadataChanges changes).map fun c => c.document.key).Nodup :=
    hnodup.sublist (List.filter_sublist.map _)
  apply Option.ext
  intro c
  rw [find?_key_eq_some_iff hsub, kept, List.mem_filter, Option.filter_eq_some_iff,
    find?_key_eq_some_iff hnodup]
  exact and_right_comm

/-- Documents of one key with data that compares the same. -/
def SameData (a b : Document D) : Prop := a.key = b.key ∧ compare a.data b.data = .eq

omit [Ord V] [ObjectData D V] [TransOrd V] in
/-- What the changes tell of a key is its new document, up to what was skipped. -/
theorem rel_afterChanges [TransOrd D] {changes : List (DocumentViewChange D)}
    (hnodup : (changes.map fun c => c.document.key).Nodup) {o n : Option (Document D)}
    {k : DocumentKey} (h : Explains o n (changes.find? fun c => c.document.key = k))
    (includeMetadataChanges : Bool) :
    Option.Rel SameData (afterChanges (kept includeMetadataChanges changes) o k) n ∧
      (includeMetadataChanges = true →
        afterChanges (kept includeMetadataChanges changes) o k = n) := by
  rw [afterChanges, find?_kept hnodup]
  generalize changes.find? (fun c => c.document.key = k) = found at h
  have hrefl : ∀ d : Option (Document D), Option.Rel SameData d d := by
    intro d
    cases d with
    | none => exact Option.Rel.none
    | some d => exact Option.Rel.some ⟨rfl, ReflCmp.compare_self⟩
  cases h with
  | unchanged => exact ⟨hrefl o, fun _ => rfl⟩
  | added => simp [Option.filter, hrefl]
  | removed hkey => simp [Option.filter, hrefl]
  | modified hkey => simp [Option.filter, hrefl]
  | metadata hkey hdata =>
      cases includeMetadataChanges with
      | true => simp [Option.filter, hrefl]
      | false =>
          refine ⟨?_, fun h => absurd h Bool.false_ne_true⟩
          simp only [Option.filter, Bool.false_or, bne_self_eq_false, Bool.false_eq_true, if_false]
          exact Option.Rel.some ⟨hkey.symm, hdata⟩

/-- Sets that have the same data under each key show it in the same places. -/
theorem forall₂_sameData {s t : DocumentSet D q.comparator}
    (h : ∀ k, Option.Rel SameData (s.getDocument k) (t.getDocument k)) :
    List.Forall₂ SameData s.toList t.toList := by
  refine IndexEdit.forall₂_of_ascends s.pairwise_toList t.pairwise_toList ?_ ?_ ?_
  · intro a ha
    have hrel := h a.key
    rw [DocumentSet.mem_toList.mp ha] at hrel
    generalize hb : t.getDocument a.key = found at hrel
    cases hrel with
    | some hsame =>
        exact ⟨_, (DocumentSet.getDocument_eq_some_iff.mp hb).1,
          q.comparator_eq_eq hsame.1 hsame.2⟩
  · intro b hb
    have hrel := h b.key
    rw [DocumentSet.mem_toList.mp hb] at hrel
    generalize ha : s.getDocument b.key = found at hrel
    cases hrel with
    | some hsame =>
        exact ⟨_, (DocumentSet.getDocument_eq_some_iff.mp ha).1,
          q.comparator_eq_eq hsame.1 hsame.2⟩
  · intro a ha b hb heq
    have hkey : a.key = b.key := DocumentComparator.key_eq heq
    have hrel := h a.key
    rw [DocumentSet.mem_toList.mp ha, hkey, DocumentSet.mem_toList.mp hb] at hrel
    cases hrel with
    | some hsame => exact hsame

omit [TransOrd V] in
theorem firstChanges_spec (s : QuerySnapshot q) (changes : List (DocumentViewChange D))
    (lastDocument : Option (Document D)) (index : ℕ) (hadded : ∀ c ∈ changes, c.type = .added)
    (hlast : ∀ c ∈ changes, ∀ last ∈ lastDocument, q.comparator last c.document = .lt)
    (hsorted : changes.Pairwise fun a b => q.comparator a.document b.document = .lt) :
    ∃ dcs, s.firstChanges lastDocument index changes = some dcs ∧ Replays s changes dcs ∧
      ∀ l : List (Document D), l.length = index →
        IndexEdit.applyAll l (dcs.map DocumentChange.edit)
          = l ++ changes.map DocumentViewChange.document := by
  induction changes generalizing lastDocument index with
  | nil =>
      refine ⟨[], rfl, ⟨rfl, rfl⟩, fun l _ => ?_⟩
      rw [List.map_nil, List.map_nil, List.append_nil, IndexEdit.applyAll_nil]
  | cons c rest ih =>
      rw [List.pairwise_cons] at hsorted
      have htype := hadded c List.mem_cons_self
      obtain ⟨dcs, hrest, ⟨htypes, hdocs⟩, hedits⟩ := ih (some c.document) (index + 1)
        (fun c' hc' => hadded c' (List.mem_cons_of_mem _ hc'))
        (fun c' hc' last h => Option.mem_some_iff.mp h ▸ hsorted.1 c' hc') hsorted.2
      refine ⟨⟨.added, s.changedDocument c.document, none, some index⟩ :: dcs, ?_, ⟨?_, ?_⟩,
        fun l hl => ?_⟩
      · rw [firstChanges, if_pos ⟨htype, hlast c List.mem_cons_self⟩, hrest]
        rfl
      · rw [List.map_cons, List.map_cons, htypes, htype]
        rfl
      · rw [List.map_cons, List.map_cons, hdocs]
      · have hput : IndexEdit.apply l
            ⟨none, some index, c.document⟩ = l ++ [c.document] := by
          rw [IndexEdit.apply, IndexEdit.remove, ← hl]
          have hsplit := IndexEdit.insertIdx_split l [] c.document
          rwa [List.append_nil] at hsplit
        rw [List.map_cons, IndexEdit.applyAll_cons, DocumentChange.edit]
        dsimp only [changedDocument]
        rw [hput, hedits _ (by rw [List.length_append, hl, List.length_singleton]), List.map_cons,
          List.append_assoc, List.singleton_append]

/-- A snapshot as a view raises it, or as a listener passes it on: its changes account for
its documents, in the order of changes, or those of metadata are left out and it says so. -/
def Told (sn : ViewSnapshot D q.comparator) : Prop :=
  ∃ all : List (DocumentViewChange D), Accounts sn.oldDocuments sn.documents all ∧
    (all.Pairwise fun a b => View.changeComparator q a b = .lt) ∧
    sn.documentChanges = kept (!sn.excludesMetadataChanges) all

/-- Where nothing was there before, the changes are the documents. -/
theorem added_of_empty {sn : ViewSnapshot D q.comparator} {all : List (DocumentViewChange D)}
    (haccounts : Accounts sn.oldDocuments sn.documents all)
    (hsorted : all.Pairwise fun a b => View.changeComparator q a b = .lt)
    (hempty : sn.oldDocuments.toList = []) :
    (∀ c ∈ all, c.type = .added) ∧
      (all.Pairwise fun a b => q.comparator a.document b.document = .lt) ∧
      all.map DocumentViewChange.document = sn.documents.toList := by
  have hold : ∀ k, sn.oldDocuments.getDocument k = none := by
    intro k
    rw [Option.eq_none_iff_forall_ne_some]
    intro d hd
    have hmem := (DocumentSet.getDocument_eq_some_iff.mp hd).1
    rw [hempty] at hmem
    cases hmem
  have hexplains : ∀ k c, (all.find? fun c => c.document.key = k) = some c →
      c.type = .added ∧ sn.documents.getDocument k = some c.document := by
    intro k c hc
    have h := haccounts.explains k
    rw [hold, hc] at h
    generalize sn.documents.getDocument k = n at h ⊢
    cases h
    exact ⟨rfl, rfl⟩
  have hfind : ∀ c ∈ all, (all.find? fun c' => c'.document.key = c.document.key) = some c :=
    fun c hc => (find?_key_eq_some_iff haccounts.nodup).mpr ⟨hc, rfl⟩
  have hadded : ∀ c ∈ all, c.type = .added := fun c hc => (hexplains _ c (hfind c hc)).1
  have hascends : all.Pairwise fun a b => q.comparator a.document b.document = .lt := by
    refine hsorted.imp_of_mem ?_
    intro a b ha hb hlt
    rw [View.changeComparator, hadded a ha, hadded b hb] at hlt
    simpa [compare_self] using hlt
  refine ⟨hadded, hascends, ?_⟩
  have hmem : ∀ doc, doc ∈ all.map DocumentViewChange.document ↔ doc ∈ sn.documents.toList := by
    intro doc
    rw [List.mem_map, DocumentSet.mem_toList]
    constructor
    · rintro ⟨c, hc, rfl⟩
      exact (hexplains _ c (hfind c hc)).2
    · intro hdoc
      have h := haccounts.explains doc.key
      rw [hold, hdoc] at h
      generalize hc : all.find? (fun c => c.document.key = doc.key) = found at h
      cases h
      exact ⟨_, List.mem_of_find?_eq_some hc, rfl⟩
  have hascends' : (all.map DocumentViewChange.document).Pairwise
      fun a b => q.comparator a b = .lt := List.pairwise_map.mpr hascends
  have hperm : (all.map DocumentViewChange.document).Perm sn.documents.toList := by
    rw [List.perm_ext_iff_of_nodup ?_ sn.documents.nodup_toList]
    · exact hmem
    · refine List.Nodup.of_map Document.key ?_
      rw [List.map_map]
      exact haccounts.nodup
  refine hperm.eq_of_pairwise ?_ hascends' sn.documents.pairwise_toList
  intro a b _ _ hab hba
  rw [OrientedCmp.gt_of_lt hab] at hba
  cases hba

omit [Ord D] [Ord V] [ObjectData D V] [TransOrd V] in
theorem kept_kept (b b' : Bool) (changes : List (DocumentViewChange D)) :
    kept b (kept b' changes) = kept (b && b') changes := by
  rw [kept, kept, List.filter_filter, kept]
  refine List.filter_congr fun c _ => ?_
  rw [Bool.or_and_distrib_right]

omit [Ord D] [Ord V] [ObjectData D V] [TransOrd V] in
theorem kept_of_added {changes : List (DocumentViewChange D)} (h : ∀ c ∈ changes, c.type = .added)
    (b : Bool) : kept b changes = changes := by
  refine List.filter_eq_self.mpr fun c hc => ?_
  rw [h c hc]
  exact Bool.or_true b

/-- **The changes of a snapshot, made one after the other at their indices, turn the old
documents into the new ones.** None of the assertions fails. Each change has its type and
its document, with the pending writes and the source of the snapshot. With the changes of
metadata the list is exact, and without them each place has the same data. -/
theorem forEachChange_spec [TransOrd D] {s : QuerySnapshot q} (h : Told s.snapshot)
    {includeMetadataChanges : Bool}
    (hinclude : includeMetadataChanges = true → s.snapshot.excludesMetadataChanges = false) :
    ∃ dcs, s.forEachChange includeMetadataChanges = some dcs ∧
      Replays s (kept includeMetadataChanges s.snapshot.documentChanges) dcs ∧
      List.Forall₂ SameData
        (IndexEdit.applyAll s.snapshot.oldDocuments.toList (dcs.map DocumentChange.edit))
        s.snapshot.documents.toList ∧
      (includeMetadataChanges = true →
        IndexEdit.applyAll s.snapshot.oldDocuments.toList (dcs.map DocumentChange.edit)
          = s.snapshot.documents.toList) := by
  obtain ⟨all, haccounts, hsorted, hchanges⟩ := h
  have hallowed : ¬(includeMetadataChanges && s.snapshot.excludesMetadataChanges) = true := by
    rw [Bool.and_eq_true, not_and, Bool.not_eq_true]
    exact hinclude
  rw [forEachChange, if_neg hallowed]
  by_cases hempty : s.snapshot.oldDocuments.isEmpty = true
  · have hnil := s.snapshot.oldDocuments.isEmpty_iff.mp hempty
    obtain ⟨hadded, hascends, hdocs⟩ := added_of_empty haccounts hsorted hnil
    obtain ⟨dcs, hfirst, hreplays, hedits⟩ := s.firstChanges_spec all none 0 hadded
      (fun _ _ _ hlast => absurd hlast (Option.not_mem_none _)) hascends
    have hlist : IndexEdit.applyAll s.snapshot.oldDocuments.toList
        (dcs.map DocumentChange.edit) = s.snapshot.documents.toList := by
      rw [hnil, hedits [] rfl, hdocs, List.nil_append]
    rw [kept_of_added hadded] at hchanges
    rw [if_pos hempty, hchanges, kept_of_added hadded]
    refine ⟨dcs, hfirst, hreplays, ?_, fun _ => hlist⟩
    rw [hlist]
    exact forall₂_sameData fun k => by
      cases s.snapshot.documents.getDocument k with
      | none => exact Option.Rel.none
      | some d => exact Option.Rel.some ⟨rfl, ReflCmp.compare_self⟩
  · have hkept : kept includeMetadataChanges s.snapshot.documentChanges
        = kept includeMetadataChanges all := by
      rw [hchanges, kept_kept]
      congr 1
      cases includeMetadataChanges with
      | false => rfl
      | true => rw [hinclude rfl, Bool.not_false, Bool.and_self]
    have hsub : ((kept includeMetadataChanges all).map fun c => c.document.key).Nodup :=
      haccounts.nodup.sublist (List.filter_sublist.map _)
    have hold : ∀ c ∈ kept includeMetadataChanges all, c.type = .added ↔
        s.snapshot.oldDocuments.getDocument c.document.key = none := by
      intro c hc
      have hexplains := haccounts.explains c.document.key
      rw [(find?_key_eq_some_iff haccounts.nodup).mpr ⟨(List.mem_filter.mp hc).1, rfl⟩]
        at hexplains
      generalize s.snapshot.oldDocuments.getDocument c.document.key = o at hexplains ⊢
      generalize s.snapshot.documents.getDocument c.document.key = n at hexplains
      cases hexplains <;> simp
    rw [← hkept] at hsub hold
    obtain ⟨dcs, tracker, htracked, hreplays, hlist, hget⟩ :=
      s.trackedChanges_spec includeMetadataChanges s.snapshot.documentChanges
        s.snapshot.oldDocuments hsub hold
    rw [if_neg hempty]
    have hrel := fun k => rel_afterChanges haccounts.nodup (haccounts.explains k)
      includeMetadataChanges
    rw [hkept] at hget
    refine ⟨dcs, htracked, hreplays, ?_, fun hincluded => ?_⟩
    · rw [hlist]
      exact forall₂_sameData fun k => by
        rw [hget]
        exact (hrel k).1
    · rw [hlist]
      refine DocumentSet.toList_ext fun k => ?_
      rw [hget]
      exact (hrel k).2 hincluded

/-- A document put into a set is all that has changed. -/
theorem accounts_insert {s : DocumentSet D q.comparator} {doc : Document D}
    (h : s.getDocument doc.key = none) : Accounts s (s.insert doc) [⟨doc, .added⟩] := by
  refine ⟨List.nodup_singleton _, fun k => ?_⟩
  rw [DocumentSet.getDocument_insert s doc k]
  by_cases hk : k = doc.key
  · have hfind : (([⟨doc, .added⟩] : List (DocumentViewChange D)).find?
        fun c => c.document.key = k) = some ⟨doc, .added⟩ :=
      List.find?_cons_of_pos (decide_eq_true hk.symm)
    rw [if_pos hk, hfind, hk, h]
    exact Explains.added doc
  · have hfind : (([⟨doc, .added⟩] : List (DocumentViewChange D)).find?
        fun c => c.document.key = k) = none := by
      rw [List.find?_cons_of_neg (fun hkey => hk (of_decide_eq_true hkey).symm), List.find?_nil]
    rw [if_neg hk, hfind]
    exact Explains.unchanged _

/-- A feed with one submission, to which another one comes. -/
def feedBefore : DocumentSet ObjectValue feedQuery.comparator :=
  DocumentSet.empty.insert (submission "pizza" 5 .synced)

def feedSnapshot : ViewSnapshot ObjectValue feedQuery.comparator where
  documents := feedBefore.insert (submission "curry" 8 .synced)
  oldDocuments := feedBefore
  documentChanges := [⟨submission "curry" 8 .synced, .added⟩]
  mutatedKeys := SortedMap.empty
  fromCache := false
  syncStateChanged := false
  excludesMetadataChanges := false

theorem forEachChange_spec_added :
    ∃ dcs, (QuerySnapshot.ofViewSnapshot feedSnapshot).forEachChange false = some dcs ∧
      List.Forall₂ SameData
        (IndexEdit.applyAll feedBefore.toList (dcs.map DocumentChange.edit))
        feedSnapshot.documents.toList := by
  have htold : Told feedSnapshot :=
    ⟨_, accounts_insert (by decide +kernel), List.pairwise_singleton _ _, rfl⟩
  obtain ⟨dcs, hchanges, -, hsame, -⟩ := forEachChange_spec
    (s := QuerySnapshot.ofViewSnapshot feedSnapshot) htold
    (fun h : false = true => nomatch h)
  exact ⟨dcs, hchanges, hsame⟩

end QuerySnapshot

end FreeFood.Firestore
