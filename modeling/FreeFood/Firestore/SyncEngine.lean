/-
`core/sync_engine.h`, for one query: the view of the query and the documents that the
local store has, through the calls that change them.

The local store is known here by what it last gave under each key. What a run of the query
against it gives comes with the call that makes the run, and `Finds` says what is asked of
it: the documents that the store has and the query matches. Two things are proved of every
run. The assertions of the view do not fail, as long as the backend does not call modified
what it never added. And the view follows the store: what it shows has the data that the
store has, or data that compares the same, except that a document whose write was just
acknowledged keeps its old data until the backend sends it again.
-/
import FreeFood.Firestore.FeedQuery
import FreeFood.Firestore.View
import FreeFood.Lib.Transition

set_option autoImplicit false

namespace FreeFood.Firestore

open Std Transition

variable {D V : Type} [Ord D] [Ord V] [ObjectData D V]

/-- What the local store has, by its keys. -/
abbrev StoredDocuments (D : Type) := DocumentKey → Option (MaybeDocument D)

/-- What a query has from the SDK: its view, with the documents of the local store. -/
structure QueryState (q : Query D) where
  cache : StoredDocuments D
  view : View q

/-- The calls that reach the view of a query. What `ExecuteQuery` returns, should a view need
a refill, comes with the changes. -/
inductive QueryEvent (D : Type) where
  | changes (docChanges : MaybeDocumentMap D) (targetChange : Option TargetChange)
      (executed : MaybeDocumentMap D)
  | onlineState (state : OnlineState)

namespace QueryState

variable {q : Query D}

section Definitions

variable [TransOrd V]

/-- The local store with documents in place of those it had. -/
def apply (cache : StoredDocuments D) (docChanges : MaybeDocumentMap D) : StoredDocuments D :=
  fun k => (docChanges.get k).or (cache k)

/-- The passes of `EmitNewSnapshotsAndNotifyLocalStore` over one view. -/
def computeWithRefill (v : View q) (docChanges executed : MaybeDocumentMap D) :
    Option (ViewDocumentChanges D q.comparator) := do
  let viewDocChanges ← v.computeDocumentChanges docChanges none
  if viewDocChanges.needsRefill then v.computeDocumentChanges executed (some viewDocChanges)
  else some viewDocChanges

/-- One call, with the snapshot that it raises. `HandleOnlineStateChange` asserts that
there are no limbo changes. -/
def emit (s : QueryState q) :
    QueryEvent D → Option (QueryState q × Option (ViewSnapshot D q.comparator))
  | .changes docChanges targetChange executed => do
      let viewDocChanges ← computeWithRefill s.view docChanges executed
      let (view, viewChange) ← s.view.applyChanges viewDocChanges targetChange
      some (⟨apply s.cache docChanges, view⟩, viewChange.snapshot)
  | .onlineState state => do
      let (view, viewChange) ← s.view.applyOnlineStateChange state
      if viewChange.limboChanges.isEmpty then some (⟨s.cache, view⟩, viewChange.snapshot)
      else none

/-- `InitializeViewAndComputeSnapshot`, with what `ExecuteQuery` returns. It asserts that
there is a snapshot. -/
def initializeView (q : Query D) (cache : StoredDocuments D) (executed : MaybeDocumentMap D)
    (remoteKeys : DocumentKeySet) (synthesized : Option TargetChange) :
    Option (QueryState q × ViewSnapshot D q.comparator) := do
  let view := View.create q remoteKeys
  let viewDocChanges ← view.computeDocumentChanges executed none
  let (view, viewChange) ← view.applyChanges viewDocChanges synthesized
  let snapshot ← viewChange.snapshot
  some (⟨cache, view⟩, snapshot)

end Definitions

/-! ## 1. The local store -/

/-- What the local store has under a key that the query matches. -/
def cached (q : Query D) (cache : StoredDocuments D) (k : DocumentKey) : Option (Document D) :=
  (cache k).bind (View.matched q)

/-- What is asked of `ExecuteQuery`: it returns what the local store has and the query
matches. -/
def Finds (q : Query D) (cache : StoredDocuments D) (executed : MaybeDocumentMap D) : Prop :=
  ∀ k m, executed.get k = some m ↔ cache k = some m ∧ (View.matched q m).isSome = true

/-- The documents of the local store are each under their key. -/
def KeyedStore (cache : StoredDocuments D) : Prop :=
  ∀ k m, cache k = some m → View.Keyed (k, m)

variable {cache : StoredDocuments D} {docChanges executed : MaybeDocumentMap D}

omit [Ord D] [Ord V] [ObjectData D V] in
theorem keyed_apply (hcache : KeyedStore cache) (hchanges : View.KeyedMap docChanges) :
    KeyedStore (apply cache docChanges) := by
  intro k m hget
  rw [apply, Option.or_eq_some_iff] at hget
  rcases hget with hnew | ⟨_, hold⟩
  · exact hchanges (k, m) (SortedMap.get_eq_some_iff_mem.mp hnew)
  · exact hcache k m hold

theorem keyed_executed (hcache : KeyedStore cache) (hfinds : Finds q cache executed) :
    View.KeyedMap executed :=
  fun e he => hcache e.1 e.2 ((hfinds e.1 e.2).mp (SortedMap.get_eq_some_iff_mem.mpr he)).1

/-! ## 2. What the view shows of it -/

/-- A document that is shown and the one in the local store. They have data that compares
the same, unless the write that the shown one has is acknowledged and not back yet. -/
structure Reflects (shown stored : Document D) : Prop where
  data : compare shown.data stored.data = .eq ∨
    (shown.hasLocalMutations = true ∧ stored.hasCommittedMutations = true)
  ofLocal : stored.hasLocalMutations = true → shown.hasLocalMutations = true
  toPending : shown.hasLocalMutations = true →
    stored.hasLocalMutations = true ∨ stored.hasCommittedMutations = true

section Reflects

variable [TransOrd D]

theorem Reflects.refl (doc : Document D) : Reflects doc doc :=
  ⟨Or.inl ReflCmp.compare_self, id, Or.inl⟩

omit [Ord D] [TransOrd D] in
theorem hasLocalMutations_of_committed {doc : Document D} (h : doc.hasCommittedMutations = true) :
    doc.hasLocalMutations = false := by
  rw [Document.hasCommittedMutations, beq_iff_eq] at h
  rw [Document.hasLocalMutations, h]
  rfl

/-- What a changed document leaves in the view is what the local store has, as long as the
mutated keys tell of the document that was shown. -/
theorem exists_resolve (oldMutatedKeys : DocumentKeySet) (oldDoc : Option (Document D))
    {maybeDoc : MaybeDocument D} {stored : Document D}
    (hstored : View.matched q maybeDoc = some stored)
    (hold : ∀ d ∈ oldDoc, d = stored ∨
      oldMutatedKeys.contains stored.key = d.hasLocalMutations) :
    ∃ d, View.resolve q oldMutatedKeys oldDoc maybeDoc = some d ∧ Reflects d stored ∧
      (d = stored ∨ oldDoc = some d) := by
  unfold View.resolve
  rw [hstored]
  cases oldDoc with
  | none => exact ⟨stored, rfl, Reflects.refl stored, Or.inl rfl⟩
  | some oldDoc =>
      dsimp only
      by_cases hdata : (compare oldDoc.data stored.data != .eq) = true
      · rw [if_pos hdata]
        by_cases hwait : shouldWaitForSyncedDocument stored oldDoc = true
        · rw [if_pos hwait]
          simp only [shouldWaitForSyncedDocument, Bool.and_eq_true, Bool.not_eq_true'] at hwait
          refine ⟨oldDoc, rfl, ⟨Or.inr hwait.1, ?_, fun _ => Or.inr hwait.1.2⟩, Or.inr rfl⟩
          exact fun _ => hwait.1.1
        · rw [if_neg hwait]
          exact ⟨stored, rfl, Reflects.refl stored, Or.inl rfl⟩
      · rw [if_neg hdata]
        have heq : compare oldDoc.data stored.data = .eq := by
          simpa using hdata
        by_cases hpending : (oldMutatedKeys.contains stored.key
            != View.hasPendingMutations oldMutatedKeys stored) = true
        · rw [if_pos hpending]
          exact ⟨stored, rfl, Reflects.refl stored, Or.inl rfl⟩
        · rw [if_neg hpending]
          refine ⟨oldDoc, rfl, ?_, Or.inr rfl⟩
          rcases hold oldDoc rfl with rfl | hcontains
          · exact Reflects.refl _
          · -- neither the data nor the pending flag has changed
            rw [View.hasPendingMutations, hcontains] at hpending
            refine ⟨Or.inl heq, fun hlocal => ?_, fun hlocal => ?_⟩
            · simpa [hlocal] using hpending
            · rw [hlocal, Bool.true_and, bne_iff_ne, ne_eq, not_not] at hpending
              exact Bool.or_eq_true_iff.mp hpending.symm

omit [TransOrd D] in
theorem resolve_eq_none {oldMutatedKeys : DocumentKeySet} {oldDoc : Option (Document D)}
    {maybeDoc : MaybeDocument D} (h : View.matched q maybeDoc = none) :
    View.resolve q oldMutatedKeys oldDoc maybeDoc = none := by
  cases oldDoc <;> simp [View.resolve, h]

end Reflects

/-! ## 3. The passes over a view that follows the local store -/

/-- A view follows the local store: its mutated keys are those of the documents with local
mutations, and all it shows is in the store. -/
structure Follows (cache : StoredDocuments D) (v : View q) : Prop where
  keyed : KeyedStore cache
  mutated : ∀ k, v.mutatedKeys.contains k
    = (v.documentSet.getDocument k).any Document.hasLocalMutations
  reflects : ∀ k d, v.documentSet.getDocument k = some d →
    ∃ n, cached q cache k = some n ∧ Reflects d n

theorem mem_of_mem_limited {docs : List (Document D)} {doc : Document D}
    (h : doc ∈ View.limited q docs) : doc ∈ docs := by
  unfold View.limited at h
  split at h
  · exact h
  · split at h
    · exact List.mem_of_mem_take h
    · exact List.mem_of_mem_drop h

section Passes

variable [TransOrd D] [TransOrd V] {v : View q}

omit [Ord D] [Ord V] [ObjectData D V] [TransOrd D] [TransOrd V] in
theorem key_of_get {m : MaybeDocumentMap D} (hm : View.KeyedMap m) {k : DocumentKey}
    {maybeDoc : MaybeDocument D} (hget : m.get k = some maybeDoc) {doc : Document D}
    (hdoc : maybeDoc.document? = some doc) : doc.key = k :=
  hm (k, maybeDoc) (SortedMap.get_eq_some_iff_mem.mp hget) doc hdoc

omit [TransOrd D] [TransOrd V] in
theorem cached_eq_some {k : DocumentKey} {n : Document D} (h : cached q cache k = some n) :
    ∃ m, cache k = some m ∧ View.matched q m = some n := by
  rw [cached, Option.bind_eq_some_iff] at h
  exact h

omit [TransOrd D] [TransOrd V] in
/-- What the local store has after a change. -/
theorem cached_apply (k : DocumentKey) : cached q (apply cache docChanges) k
    = match docChanges.get k with
      | some m => View.matched q m
      | none => cached q cache k := by
  rw [cached, apply, cached]
  cases docChanges.get k <;> rfl

/-- The documents under a pass, before the limit: those of the local store that were
changed or that the view had. -/
theorem exists_first_pass (h : Follows cache v) (hchanges : View.KeyedMap docChanges) :
    ∃ changes, v.computeDocumentChanges docChanges none = some changes ∧
      View.Sound v.documentSet changes ∧
      changes.needsRefill = View.passAsksRefill v.documentSet docChanges ∧
      ∃ all : DocumentSet D q.comparator,
        changes.documentSet.toList = View.limited q all.toList ∧
        (∀ k, all.getDocument k
          = View.resolved q v.mutatedKeys v.documentSet docChanges k) ∧
        (∀ k d, all.getDocument k = some d →
          ∃ n, cached q (apply cache docChanges) k = some n ∧ Reflects d n ∧
            (d = n ∨ v.documentSet.getDocument k = some d)) ∧
        (∀ k, (cached q (apply cache docChanges) k).isSome = true →
          ((docChanges.get k).isSome = true ∨ (v.documentSet.getDocument k).isSome = true) →
          (all.getDocument k).isSome = true) ∧
        View.Recorded docChanges changes := by
  have hnone : ∀ k, (View.passStart v none).changeSet.get k = none := fun _ => rfl
  have hstart : View.Sound v.documentSet (View.passStart v none) := by
    refine ⟨fun k => ?_, h.mutated⟩
    exact Explains.unchanged _
  obtain ⟨changes, hcompute, hsound, hasks, all, hall, hlist, hrecorded⟩ :=
    View.computeDocumentChanges_spec v hchanges hstart (fun hp => absurd hp Bool.false_ne_true)
      fun e _ hne => absurd (hnone e.1) hne
  simp only [View.passStart] at hall hasks
  refine ⟨changes, hcompute, hsound, hasks, all, hlist, hall, ?_, ?_,
    hrecorded fun k hne => absurd (hnone k) hne⟩
  · intro k d hd
    rw [hall, View.resolved] at hd
    rw [cached_apply]
    cases hget : docChanges.get k with
    | none =>
        -- not changed: what the view had
        rw [hget] at hd
        obtain ⟨n, hn, hreflects⟩ := h.reflects k d hd
        exact ⟨n, hn, hreflects, Or.inr hd⟩
    | some m =>
        rw [hget] at hd
        dsimp only at hd ⊢
        cases hmatched : View.matched q m with
        | none =>
            rw [resolve_eq_none hmatched] at hd
            cases hd
        | some n =>
            have hkey : n.key = k :=
              key_of_get hchanges hget (View.matched_eq_some hmatched).1
            obtain ⟨d', hd', hreflects, hfrom⟩ := exists_resolve v.mutatedKeys
              (v.documentSet.getDocument k) hmatched
              fun o ho => Or.inr (by rw [hkey, h.mutated k, ho, Option.any_some])
            rw [hd', Option.some.injEq] at hd
            subst hd
            exact ⟨n, rfl, hreflects, hfrom⟩
  · intro k hcached hsome
    rw [cached_apply] at hcached
    rw [hall, View.resolved]
    cases hget : docChanges.get k with
    | none =>
        rw [hget] at hsome
        exact hsome.resolve_left Bool.false_ne_true
    | some m =>
        rw [hget] at hcached
        obtain ⟨n, hn⟩ := Option.isSome_iff_exists.mp hcached
        have hkey : n.key = k := key_of_get hchanges hget (View.matched_eq_some hn).1
        obtain ⟨d', hd', -, -⟩ := exists_resolve v.mutatedKeys (v.documentSet.getDocument k) hn
          fun o ho => Or.inr (by rw [hkey, h.mutated k, ho, Option.any_some])
        exact Option.isSome_iff_exists.mpr ⟨d', hd'⟩

omit [TransOrd D] [TransOrd V] in
/-- What a pass has recorded is in the local store after it. -/
theorem cached_of_recorded {changes : ViewDocumentChanges D q.comparator}
    (h : View.Recorded docChanges changes) {k : DocumentKey} {d : Document D}
    (hne : changes.changeSet.get k ≠ none) (hd : d ∈ changes.documentSet.getDocument k) :
    cached q (apply cache docChanges) k = some d := by
  obtain ⟨m, hget, hmatched⟩ := h k hne d hd
  rw [cached_apply, hget]
  exact hmatched

/-- The documents under a refill: all that the local store has. No document of the pass
before asks for another refill, since each is as the store has it or waits. -/
theorem exists_refill (hcache : KeyedStore cache) (hfinds : Finds q cache executed)
    (hmutated : ∀ k, v.mutatedKeys.contains k
      = (v.documentSet.getDocument k).any Document.hasLocalMutations)
    {previous : ViewDocumentChanges D q.comparator} (hprevious : View.Sound v.documentSet previous)
    (hfrom : ∀ k d, previous.documentSet.getDocument k = some d →
      ∃ n, cached q cache k = some n ∧ Reflects d n ∧
        (d = n ∨ v.documentSet.getDocument k = some d))
    (hexact : ∀ k, previous.changeSet.get k ≠ none → ∀ d ∈ previous.documentSet.getDocument k,
      cached q cache k = some d) :
    ∃ changes, v.computeDocumentChanges executed (some previous) = some changes ∧
      View.Sound v.documentSet changes ∧ changes.needsRefill = false ∧
      ∃ all : DocumentSet D q.comparator,
        changes.documentSet.toList = View.limited q all.toList ∧
        (∀ k d, all.getDocument k = some d →
          ∃ n, cached q cache k = some n ∧ Reflects d n ∧
            (d = n ∨ previous.documentSet.getDocument k = some d)) ∧
        ∀ k, (cached q cache k).isSome = true → (all.getDocument k).isSome = true := by
  have hkeyed := keyed_executed hcache hfinds
  have hstart : View.Sound v.documentSet (View.passStart v (some previous)) :=
    ⟨hprevious.explains, hprevious.mutated⟩
  have hasks : View.passAsksRefill previous.documentSet executed = false := by
    rw [View.passAsksRefill, List.any_eq_false]
    intro e he
    obtain ⟨hget, hmatched⟩ := (hfinds _ _).mp (SortedMap.get_eq_some_iff_mem.mpr he)
    obtain ⟨n, hn⟩ := Option.isSome_iff_exists.mp hmatched
    cases hold : previous.documentSet.getDocument e.1 with
    | none => simp only [View.asksRefill, Bool.false_eq_true, not_false_eq_true]
    | some d =>
        obtain ⟨n', hn', hreflects, -⟩ := hfrom e.1 d hold
        rw [cached, hget, Option.bind_some, hn, Option.some.injEq] at hn'
        subst hn'
        simp only [View.asksRefill, hn]
        rcases hreflects.data with hdata | ⟨hlocal, hcommitted⟩
        · simp [hdata]
        · simp [shouldWaitForSyncedDocument, hlocal, hcommitted,
            hasLocalMutations_of_committed hcommitted]
  -- a document of the pass before that has a change is the one in the local store
  have hagain : ∀ e ∈ executed.toList, View.Exact (View.passStart v (some previous)) e := by
    intro e he hne a ha b hb _
    have hget := ((hfinds e.1 e.2).mp (SortedMap.get_eq_some_iff_mem.mpr he)).1
    have hstored := hexact e.1 hne a ha
    rw [cached, hget, Option.bind_some, hb, Option.some.injEq] at hstored
    exact hstored.symm
  obtain ⟨changes, hcompute, hsound, hrefill, all, hall, hlist, -⟩ :=
    View.computeDocumentChanges_spec v hkeyed hstart (fun _ => hasks) hagain
  simp only [View.passStart] at hall hrefill
  have hresolve : ∀ k m n, executed.get k = some m → View.matched q m = some n →
      ∃ d, all.getDocument k = some d ∧ Reflects d n ∧
        (d = n ∨ previous.documentSet.getDocument k = some d) := by
    intro k m n hget hn
    have hkey : n.key = k := key_of_get hkeyed hget (View.matched_eq_some hn).1
    obtain ⟨d, hd, hreflects⟩ := exists_resolve v.mutatedKeys
      (previous.documentSet.getDocument k) hn (by
        intro o ho
        obtain ⟨n', hn', -, hof⟩ := hfrom k o ho
        rw [cached, ((hfinds _ _).mp hget).1, Option.bind_some, hn, Option.some.injEq] at hn'
        subst hn'
        refine hof.imp id fun hview => ?_
        rw [hkey, hmutated k, hview, Option.any_some])
    refine ⟨d, ?_, hreflects⟩
    rw [hall, View.resolved, hget]
    exact hd
  refine ⟨changes, hcompute, hsound, hrefill.trans hasks, all, hlist, ?_, ?_⟩
  · intro k d hd
    cases hget : executed.get k with
    | none =>
        rw [hall, View.resolved, hget] at hd
        obtain ⟨n, hn, hreflects, -⟩ := hfrom k d hd
        exact ⟨n, hn, hreflects, Or.inr hd⟩
    | some m =>
        obtain ⟨n, hn⟩ := Option.isSome_iff_exists.mp ((hfinds _ _).mp hget).2
        obtain ⟨d', hd', hreflects⟩ := hresolve k m n hget hn
        rw [hd', Option.some.injEq] at hd
        subst hd
        refine ⟨n, ?_, hreflects⟩
        rw [cached, ((hfinds _ _).mp hget).1, Option.bind_some, hn]
  · intro k hcached
    obtain ⟨n, hn⟩ := Option.isSome_iff_exists.mp hcached
    obtain ⟨m, hm, hmatched⟩ := cached_eq_some hn
    have hget : executed.get k = some m := (hfinds k m).mpr ⟨hm, by rw [hmatched]; rfl⟩
    obtain ⟨d, hd, -⟩ := hresolve k m n hget hmatched
    rw [hd]
    rfl

omit [TransOrd D] [TransOrd V] in
/-- What the limit leaves is among what was there. -/
theorem getDocument_of_limited {s all : DocumentSet D q.comparator}
    (h : s.toList = View.limited q all.toList) {k : DocumentKey} {d : Document D}
    (hd : s.getDocument k = some d) : all.getDocument k = some d := by
  obtain ⟨hmem, hkey⟩ := DocumentSet.getDocument_eq_some_iff.mp hd
  rw [h] at hmem
  exact DocumentSet.getDocument_eq_some_iff.mpr ⟨mem_of_mem_limited hmem, hkey⟩

omit [TransOrd D] [TransOrd V] in
theorem getDocument_of_unlimited (hlimit : q.limitType = .none) {s all : DocumentSet D q.comparator}
    (h : s.toList = View.limited q all.toList) (k : DocumentKey) :
    s.getDocument k = all.getDocument k := by
  rw [View.limited, if_pos hlimit] at h
  apply Option.ext
  intro d
  rw [DocumentSet.getDocument_eq_some_iff, DocumentSet.getDocument_eq_some_iff, h]

/-- The view shows all that the local store has for the query. -/
def Complete (cache : StoredDocuments D) (s : DocumentSet D q.comparator) : Prop :=
  ∀ k, (cached q cache k).isSome = true → (s.getDocument k).isSome = true

/-- **The passes over a view that follows the local store fail no assertion, and what
they show follows the store after the change. Without a limit they show all of it.** -/
theorem computeWithRefill_spec (h : Follows cache v) (hchanges : View.KeyedMap docChanges)
    (hfinds : Finds q (apply cache docChanges) executed) :
    ∃ changes, computeWithRefill v docChanges executed = some changes ∧
      View.Sound v.documentSet changes ∧ changes.needsRefill = false ∧
      (∀ k d, changes.documentSet.getDocument k = some d →
        ∃ n, cached q (apply cache docChanges) k = some n ∧ Reflects d n) ∧
      (q.limitType = .none → Complete cache v.documentSet →
        Complete (apply cache docChanges) changes.documentSet) := by
  obtain ⟨first, hfirst, hsound, hasks, all, hlist, -, hfrom, hcomplete, hrecorded⟩ :=
    exists_first_pass h hchanges
  unfold computeWithRefill
  rw [hfirst, Option.bind_eq_bind, Option.bind_some]
  by_cases hneeds : first.needsRefill = true
  · obtain ⟨second, hsecond, hsound', hrefill, all', hlist', hfrom', hcomplete'⟩ :=
      exists_refill (keyed_apply h.keyed hchanges) hfinds h.mutated hsound
        (fun k d hd => hfrom k d (getDocument_of_limited hlist hd))
        fun k hne d hd => cached_of_recorded hrecorded hne hd
    rw [if_pos hneeds]
    refine ⟨second, hsecond, hsound', hrefill, fun k d hd => ?_, fun hlimit _ k hk => ?_⟩
    · obtain ⟨n, hn, hreflects, -⟩ := hfrom' k d (getDocument_of_limited hlist' hd)
      exact ⟨n, hn, hreflects⟩
    · rw [getDocument_of_unlimited hlimit hlist']
      exact hcomplete' k hk
  · rw [if_neg hneeds]
    refine ⟨first, rfl, hsound, Bool.eq_false_iff.mpr hneeds, fun k d hd => ?_,
      fun hlimit hold k hk => ?_⟩
    · obtain ⟨n, hn, hreflects, -⟩ := hfrom k d (getDocument_of_limited hlist hd)
      exact ⟨n, hn, hreflects⟩
    · rw [getDocument_of_unlimited hlimit hlist]
      refine hcomplete k hk ?_
      -- what is not among the changes was in the view
      rw [cached_apply] at hk
      cases hget : docChanges.get k with
      | some m => exact Or.inl rfl
      | none =>
          rw [hget] at hk
          exact Or.inr (hold k hk)

end Passes

/-! ## 4. Every run -/

section Runs

variable [TransOrd D] [TransOrd V]

/-- What a view is in every state of a run. -/
structure Good (s : QueryState q) : Prop where
  follows : Follows s.cache s.view
  labelled : View.Labelled s.view
  complete : q.limitType = .none → Complete s.cache s.view.documentSet

/-- What the assertions ask of a call: documents under their keys, and a target change
that calls modified what is there. -/
def EventFits (s : QueryState q) : QueryEvent D → Prop
  | .changes docChanges targetChange _ => View.KeyedMap docChanges ∧ View.Fits s.view targetChange
  | .onlineState _ => True

/-- What is asked of a run of the query that a call may make: it finds what the local store has
after the changes. -/
def Executes (s : QueryState q) : QueryEvent D → Prop
  | .changes docChanges _ executed => Finds q (apply s.cache docChanges) executed
  | .onlineState _ => True

/-- What the snapshot of a call tells, if there is one. -/
structure Tells (s s' : QueryState q) (snapshot : Option (ViewSnapshot D q.comparator)) : Prop where
  raised : ∀ sn ∈ snapshot, View.Raised s.view s'.view sn
  silent : snapshot = none → s'.view.syncState = s.view.syncState ∧
    s'.view.documentSet.toList = s.view.documentSet.toList

omit [TransOrd D] [TransOrd V] in
theorem sound_unchanged {v : View q}
    (hmutated : ∀ k, v.mutatedKeys.contains k
      = (v.documentSet.getDocument k).any Document.hasLocalMutations) :
    View.Sound v.documentSet
      ⟨v.documentSet, DocumentViewChangeSet.empty, v.mutatedKeys, false⟩ :=
  ⟨fun _ => Explains.unchanged _, hmutated⟩

/-- **A call that fits goes through, and keeps a view good.** -/
theorem emit_spec {s : QueryState q} (h : Good s) {e : QueryEvent D} (hfits : EventFits s e)
    (hexecutes : Executes s e) :
    ∃ s' snapshot, emit s e = some (s', snapshot) ∧ Good s' ∧ Tells s s' snapshot := by
  cases e with
  | changes docChanges targetChange executed =>
      obtain ⟨changes, hcompute, hsound, hrefill, hreflects, hcomplete⟩ :=
        computeWithRefill_spec h.follows hfits.1 hexecutes
      obtain ⟨v', viewChange, happly, hdocs, hmutated, -, hlabelled, hraised, hsilent, -⟩ :=
        View.applyChanges_spec s.view hsound hrefill hfits.2
      refine ⟨⟨apply s.cache docChanges, v'⟩, viewChange.snapshot, ?_,
        ⟨⟨keyed_apply h.follows.keyed hfits.1, ?_, ?_⟩, hlabelled, fun hlimit => ?_⟩,
        ⟨hraised, hsilent⟩⟩
      · simp only [emit, hcompute, happly, Option.bind_eq_bind, Option.bind_some]
      · intro k
        rw [hmutated, hdocs]
        exact hsound.mutated k
      · intro k d hd
        rw [hdocs] at hd
        exact hreflects k d hd
      · rw [hdocs]
        exact hcomplete hlimit (h.complete hlimit)
  | onlineState state =>
      unfold emit
      dsimp only
      by_cases hoff : (s.view.current && state == .offline) = true
      · have hsound := sound_unchanged h.follows.mutated
        have hnone : View.Fits { s.view with current := false } none :=
          fun _ hc => absurd hc (Option.not_mem_none _)
        obtain ⟨v', viewChange, happly, hdocs, hmutated, hcurrent, hlabelled, hraised, hsilent,
          hlimbo⟩ := View.applyChanges_spec { s.view with current := false } hsound rfl hnone
        refine ⟨⟨s.cache, v'⟩, viewChange.snapshot, ?_,
          ⟨⟨h.follows.keyed, ?_, ?_⟩, hlabelled, fun hlimit => ?_⟩,
          ⟨fun sn hsn => ?_, hsilent⟩⟩
        · simp only [View.applyOnlineStateChange, hoff, if_true, happly, Option.bind_eq_bind,
            Option.bind_some, hlimbo hcurrent, List.isEmpty_nil]
        · intro k
          rw [hmutated, hdocs]
          exact h.follows.mutated k
        · intro k d hd
          rw [hdocs] at hd
          exact h.follows.reflects k d hd
        · rw [hdocs]
          exact h.complete hlimit
        · obtain ⟨h1, h2, h3, h4, h5, h6, h7, h8, h9⟩ := hraised sn hsn
          exact ⟨h1, h2, h3, h4, h5, h6, h7, h8, h9⟩
      · refine ⟨s, none, ?_, h, fun sn hsn => absurd hsn (Option.not_mem_none _),
          fun _ => ⟨rfl, rfl⟩⟩
        simp only [View.applyOnlineStateChange, hoff, Bool.false_eq_true, if_false,
          Option.bind_eq_bind, Option.bind_some, List.isEmpty_nil, if_true]

omit [TransOrd D] in
/-- Nothing else goes through. -/
theorem eventFits_of_emit {s : QueryState q} {e : QueryEvent D}
    {r : QueryState q × Option (ViewSnapshot D q.comparator)} (h : emit s e = some r) :
    EventFits s e := by
  cases e with
  | onlineState state => exact trivial
  | changes docChanges targetChange executed =>
      simp only [emit, Option.bind_eq_bind, Option.bind_eq_some_iff] at h
      obtain ⟨changes, hcompute, ⟨v', viewChange⟩, happly, -⟩ := h
      constructor
      · rw [computeWithRefill, Option.bind_eq_bind, Option.bind_eq_some_iff] at hcompute
        obtain ⟨first, hfirst, -⟩ := hcompute
        exact View.keyedMap_of_computeDocumentChanges hfirst
      · rw [View.applyChanges] at happly
        split at happly
        · cases happly
        · rw [Option.bind_eq_bind, Option.bind_eq_some_iff] at happly
          obtain ⟨applied, htarget, -⟩ := happly
          -- the view that is asked has other documents and the same synced ones
          exact View.Fits.of_synced (View.fits_of_applyTargetChange htarget) rfl

omit [TransOrd D] [TransOrd V] in
theorem cached_apply_executed (hfinds : Finds q cache executed) (k : DocumentKey) :
    cached q (apply cache executed) k = cached q cache k := by
  rw [cached_apply]
  cases hget : executed.get k with
  | none => rfl
  | some m => rw [cached, ((hfinds _ _).mp hget).1, Option.bind_some]

/-- **A new view goes through and is good from the start, and its snapshot is there.** -/
theorem initializeView_spec (hcache : KeyedStore cache) (hfinds : Finds q cache executed)
    (remoteKeys : DocumentKeySet) {synthesized : Option TargetChange}
    (hfits : View.Fits (View.create q remoteKeys) synthesized) :
    ∃ s snapshot, initializeView q cache executed remoteKeys synthesized = some (s, snapshot) ∧
      Good s ∧ s.cache = cache ∧ View.Raised (View.create q remoteKeys) s.view snapshot := by
  have hfollows : Follows cache (View.create q remoteKeys) := by
    refine ⟨hcache, fun k => ?_, fun k d hd => ?_⟩
    · rw [SortedMap.contains_eq]
      rfl
    · cases hd
  obtain ⟨changes, hcompute, hsound, hasks, all, hlist, -, hfrom, hcomplete, -⟩ :=
    exists_first_pass hfollows (keyed_executed hcache hfinds)
  have hrefill : changes.needsRefill = false := by
    rw [hasks, View.passAsksRefill, List.any_eq_false]
    intro e _ he
    cases he
  obtain ⟨v', viewChange, happly, hdocs, hmutated, -, hlabelled, hraised, hsilent, -⟩ :=
    View.applyChanges_spec (View.create q remoteKeys) hsound hrefill hfits
  -- a new view has no sync state yet, so there is something to tell
  cases hsnapshot : viewChange.snapshot with
  | none =>
      have hsync := (hsilent hsnapshot).1
      rw [hlabelled.syncState] at hsync
      split at hsync <;> cases hsync
  | some snapshot =>
      refine ⟨⟨cache, v'⟩, snapshot, ?_, ⟨⟨hcache, fun k => ?_, fun k d hd => ?_⟩, hlabelled,
        fun hlimit k hk => ?_⟩, rfl, hraised snapshot hsnapshot⟩
      · simp only [initializeView, hcompute, happly, hsnapshot, Option.bind_eq_bind,
          Option.bind_some]
      · rw [hmutated, hdocs]
        exact hsound.mutated k
      · rw [hdocs] at hd
        obtain ⟨n, hn, hreflects, -⟩ := hfrom k d (getDocument_of_limited hlist hd)
        rw [cached_apply_executed hfinds] at hn
        exact ⟨n, hn, hreflects⟩
      · rw [hdocs, getDocument_of_unlimited hlimit hlist]
        refine hcomplete k ?_ (Or.inl ?_)
        · rw [cached_apply_executed hfinds]
          exact hk
        · obtain ⟨n, hn⟩ := Option.isSome_iff_exists.mp hk
          obtain ⟨m, hm, hmatched⟩ := cached_eq_some hn
          have hget : executed.get k = some m := (hfinds k m).mpr ⟨hm, by rw [hmatched]; rfl⟩
          rw [hget]
          rfl

/-- One call, without its snapshot. -/
def step (s : QueryState q) (e : QueryEvent D) : Option (QueryState q) := (emit s e).map Prod.fst

omit [TransOrd D] in
theorem cache_of_changes {s : QueryState q}
    {r : QueryState q × Option (ViewSnapshot D q.comparator)} {targetChange : Option TargetChange}
    (h : emit s (.changes docChanges targetChange executed) = some r) :
    r.1.cache = apply s.cache docChanges := by
  simp only [emit, Option.bind_eq_bind, Option.bind_eq_some_iff] at h
  obtain ⟨_, -, _, -, hr⟩ := h
  rw [← Option.some.inj hr]

omit [TransOrd D] in
theorem cache_of_initializeView {remoteKeys : DocumentKeySet}
    {synthesized : Option TargetChange} {r : QueryState q × ViewSnapshot D q.comparator}
    (hinit : initializeView q cache executed remoteKeys synthesized = some r) :
    r.1.cache = cache := by
  simp only [initializeView, Option.bind_eq_bind, Option.bind_eq_some_iff] at hinit
  obtain ⟨_, -, _, -, _, -, hr⟩ := hinit
  rw [← Option.some.inj hr]

omit [TransOrd D] in
theorem cache_of_onlineState {s : QueryState q}
    {r : QueryState q × Option (ViewSnapshot D q.comparator)} {state : OnlineState}
    (h : emit s (.onlineState state) = some r) : r.1.cache = s.cache := by
  simp only [emit, Option.bind_eq_bind, Option.bind_eq_some_iff] at h
  obtain ⟨_, -, hr⟩ := h
  split at hr
  · rw [← Option.some.inj hr]
  · cases hr

theorem good_step {s s' : QueryState q} {e : QueryEvent D} (h : Good s)
    (hexecutes : Executes s e) (hstep : step s e = some s') : Good s' := by
  rw [step, Option.map_eq_some_iff] at hstep
  obtain ⟨r, hr, rfl⟩ := hstep
  obtain ⟨s', snapshot, hemit, hgood, -⟩ := emit_spec h (eventFits_of_emit hr) hexecutes
  rw [hr, Option.some.injEq] at hemit
  rw [hemit]
  exact hgood

omit [TransOrd D] in
/-- A new view asks of its target change what the assertions do. -/
theorem fits_of_initializeView {remoteKeys : DocumentKeySet}
    {synthesized : Option TargetChange} {r : QueryState q × ViewSnapshot D q.comparator}
    (hinit : initializeView q cache executed remoteKeys synthesized = some r) :
    View.Fits (View.create q remoteKeys) synthesized := by
  rw [initializeView, Option.bind_eq_bind, Option.bind_eq_some_iff] at hinit
  obtain ⟨changes, -, hrest⟩ := hinit
  rw [Option.bind_eq_bind, Option.bind_eq_some_iff] at hrest
  obtain ⟨r, happly, -⟩ := hrest
  rw [View.applyChanges] at happly
  split at happly
  · cases happly
  · rw [Option.bind_eq_bind, Option.bind_eq_some_iff] at happly
    obtain ⟨applied, htarget, -⟩ := happly
    exact View.Fits.of_synced (View.fits_of_applyTargetChange htarget) rfl

theorem good_run {remoteKeys : DocumentKeySet}
    {synthesized : Option TargetChange} {s t : QueryState q}
    {snapshot : ViewSnapshot D q.comparator} {es : List (QueryEvent D)}
    (hcache : KeyedStore cache) (hfinds : Finds q cache executed)
    (hinit : initializeView q cache executed remoteKeys synthesized = some (s, snapshot))
    (hexecutes : AllSteps step Executes s es) (hrun : run step s es = some t) : Good t := by
  have hfits := fits_of_initializeView hinit
  obtain ⟨s₀, snapshot₀, hinit₀, hgood, -⟩ := initializeView_spec hcache hfinds remoteKeys hfits
  rw [hinit, Option.some.injEq, Prod.mk.injEq] at hinit₀
  rw [← hinit₀.1] at hgood
  exact run_invariant_of_allSteps (I := Good) (fun _ _ _ h he hstep => good_step h he hstep)
    hgood hexecutes hrun

/-- **A view follows the local store in every run**, in which what `ExecuteQuery` returns is
what the store has and the query matches. In every state, each document shown has one in the
local store with data that compares the same, as far as `Reflects` says; without a limit all
that the query matches is shown; the mutated keys are those of the documents with local
mutations; the view is synced exactly when the backend is current and has confirmed or
explains each document; and the next call goes through if and only if it fits. -/
theorem view_follows {remoteKeys : DocumentKeySet}
    {synthesized : Option TargetChange} {s t : QueryState q}
    {snapshot : ViewSnapshot D q.comparator} {es : List (QueryEvent D)}
    (hcache : KeyedStore cache) (hfinds : Finds q cache executed)
    (hinit : initializeView q cache executed remoteKeys synthesized = some (s, snapshot))
    (hexecutes : AllSteps step Executes s es) (hrun : run step s es = some t) :
    (∀ k d, t.view.documentSet.getDocument k = some d →
      ∃ n, cached q t.cache k = some n ∧ Reflects d n) ∧
    (q.limitType = .none → ∀ k, (cached q t.cache k).isSome = true →
      (t.view.documentSet.getDocument k).isSome = true) ∧
    (∀ k, t.view.mutatedKeys.contains k
      = (t.view.documentSet.getDocument k).any Document.hasLocalMutations) ∧
    (t.view.syncState = .synced ↔ t.view.current = true ∧
      ∀ doc ∈ t.view.documentSet.toList, t.view.syncedDocuments.contains doc.key = true ∨
        doc.hasLocalMutations = true) ∧
    ∀ e, Executes t e → ((step t e).isSome = true ↔ EventFits t e) := by
  have hgood := good_run hcache hfinds hinit hexecutes hrun
  refine ⟨hgood.follows.reflects, hgood.complete, hgood.follows.mutated, ?_, fun e he => ?_⟩
  · rw [hgood.labelled.syncState]
    have hlimbo := hgood.labelled.limbo
    by_cases hcurrent : t.view.current = true
    · have hempty : t.view.limboDocuments.isEmpty = true ↔
          ∀ doc ∈ t.view.documentSet.toList, t.view.syncedDocuments.contains doc.key = true ∨
            doc.hasLocalMutations = true := by
        rw [View.isEmpty_iff_contains]
        constructor
        · intro h doc hdoc
          have hnot := h doc.key
          rw [hlimbo hcurrent, View.shouldBeInLimbo, DocumentSet.mem_toList.mp hdoc,
            Option.any_some] at hnot
          simpa [Decidable.or_iff_not_imp_left] using hnot
        · intro h k
          rw [hlimbo hcurrent, View.shouldBeInLimbo]
          cases hdoc : t.view.documentSet.getDocument k with
          | none => rw [Option.any_none, Bool.and_false]
          | some doc =>
              obtain ⟨hmem, rfl⟩ := DocumentSet.getDocument_eq_some_iff.mp hdoc
              rcases h doc hmem with hsynced | hlocal
              · rw [hsynced, Bool.not_true, Bool.false_and]
              · rw [Option.any_some, hlocal, Bool.not_true, Bool.and_false]
      rw [hcurrent, Bool.and_true, ← hempty]
      simp
    · rw [Bool.eq_false_iff.mpr hcurrent, Bool.and_false]
      simp
  · rw [step, Option.isSome_map]
    constructor
    · intro h
      obtain ⟨r, hr⟩ := Option.isSome_iff_exists.mp h
      exact eventFits_of_emit hr
    · intro h
      obtain ⟨s', sn, hemit, -⟩ := emit_spec hgood h he
      rw [hemit]
      rfl

/-! ## 5. A store of some documents -/

/-- What a local store gives that has the documents. -/
def storeOf (docs : List (Document ObjectValue)) : MaybeDocumentMap ObjectValue :=
  (docs.map fun doc => (doc.key, MaybeDocument.document doc)).foldl
    (fun m e => m.insert e.1 e.2) SortedMap.empty

/-- What a query finds there. -/
def foundIn (q : Query ObjectValue) (docs : List (Document ObjectValue)) :
    MaybeDocumentMap ObjectValue := storeOf (docs.filter q.matchesDoc)

theorem get_storeOf {docs : List (Document ObjectValue)}
    (hnodup : (docs.map Document.key).Nodup) {k : DocumentKey} {m : MaybeDocument ObjectValue} :
    (storeOf docs).get k = some m ↔ ∃ doc ∈ docs, doc.key = k ∧ .document doc = m := by
  have hkeys : ((docs.map fun doc => (doc.key, MaybeDocument.document doc)).map Prod.fst).Nodup := by
    rw [List.map_map]
    exact hnodup
  obtain ⟨hmem, hother⟩ := SortedMap.get_foldl_insert _ hkeys
    (SortedMap.empty : MaybeDocumentMap ObjectValue) fun _ _ => rfl
  constructor
  · intro hget
    by_cases hk : k ∈ (docs.map fun doc => (doc.key, MaybeDocument.document doc)).map Prod.fst
    · rw [List.map_map] at hk
      obtain ⟨doc, hdoc, rfl⟩ := List.mem_map.mp hk
      have hfound := hmem _ (List.mem_map_of_mem hdoc)
      exact ⟨doc, hdoc, rfl, Option.some.inj (hfound.symm.trans hget)⟩
    · have hnone : (storeOf docs).get k = none := hother k hk
      rw [hnone] at hget
      cases hget
  · rintro ⟨doc, hdoc, rfl, rfl⟩
    exact hmem _ (List.mem_map_of_mem hdoc)

theorem keyedStore_storeOf {docs : List (Document ObjectValue)}
    (hnodup : (docs.map Document.key).Nodup) : KeyedStore (storeOf docs).get := by
  intro k m hget doc hdoc
  obtain ⟨doc', -, hkey, rfl⟩ := (get_storeOf hnodup).mp hget
  exact Option.some.inj hdoc ▸ hkey

theorem finds_foundIn (q : Query ObjectValue) {docs : List (Document ObjectValue)}
    (hnodup : (docs.map Document.key).Nodup) : Finds q (storeOf docs).get (foundIn q docs) := by
  intro k m
  have hfiltered : ((docs.filter q.matchesDoc).map Document.key).Nodup :=
    hnodup.sublist (List.filter_sublist.map Document.key)
  rw [foundIn, get_storeOf hfiltered, get_storeOf hnodup]
  constructor
  · rintro ⟨doc, hdoc, hkey, rfl⟩
    obtain ⟨hmem, hmatches⟩ := List.mem_filter.mp hdoc
    refine ⟨⟨doc, hmem, hkey, rfl⟩, ?_⟩
    rw [View.matched, MaybeDocument.document?, Option.filter_some_pos hmatches]
    rfl
  · rintro ⟨⟨doc, hmem, hkey, rfl⟩, hmatched⟩
    refine ⟨doc, List.mem_filter.mpr ⟨hmem, ?_⟩, hkey, rfl⟩
    by_contra hnot
    rw [View.matched, MaybeDocument.document?,
      Option.filter_some_neg (Bool.eq_false_iff.mpr hnot)] at hmatched
    cases hmatched

/-- A store with more documents. -/
theorem apply_storeOf {old new : List (Document ObjectValue)}
    (hnodup : ((new ++ old).map Document.key).Nodup) :
    apply (storeOf old).get (storeOf new) = (storeOf (new ++ old)).get := by
  rw [List.map_append] at hnodup
  obtain ⟨hnew, hold, hdisjoint⟩ := List.nodup_append.mp hnodup
  funext k
  refine Option.ext fun m => ?_
  rw [apply, Option.or_eq_some_iff, get_storeOf hnew, get_storeOf hold,
    get_storeOf (List.map_append ▸ hnodup)]
  constructor
  · rintro (⟨doc, hdoc, h⟩ | ⟨-, doc, hdoc, h⟩)
    · exact ⟨doc, List.mem_append_left _ hdoc, h⟩
    · exact ⟨doc, List.mem_append_right _ hdoc, h⟩
  · rintro ⟨doc, hdoc, hkey, h⟩
    rcases List.mem_append.mp hdoc with hin | hin
    · exact Or.inl ⟨doc, hin, hkey, h⟩
    · refine Or.inr ⟨Option.eq_none_iff_forall_not_mem.mpr fun m' hm' => ?_, doc, hin, hkey, h⟩
      obtain ⟨doc', hdoc', hkey', -⟩ := (get_storeOf hnew).mp hm'
      exact hdisjoint _ (List.mem_map_of_mem hdoc') _ (List.mem_map_of_mem hin)
        (hkey'.trans hkey.symm)

/-- A submission is written to the feed, and the network goes. -/
theorem view_follows_write :
    ∃ (s t : QueryState feedQuery) (snapshot : ViewSnapshot ObjectValue feedQuery.comparator),
      initializeView feedQuery (storeOf twoSubmissions).get (foundIn feedQuery twoSubmissions)
        SortedMap.empty none = some (s, snapshot) ∧
      run step s [.changes (storeOf [submission "curry" 8 .localMutations]) none
          (foundIn feedQuery ([submission "curry" 8 .localMutations] ++ twoSubmissions)),
        .onlineState .offline] = some t ∧
      ∀ k, (cached feedQuery t.cache k).isSome = true →
        (t.view.documentSet.getDocument k).isSome = true := by
  have hnodup : (([submission "curry" 8 .localMutations] ++ twoSubmissions).map
      Document.key).Nodup := by decide +kernel
  have hold : (twoSubmissions.map Document.key).Nodup := (List.nodup_cons.mp hnodup).2
  have hcache := keyedStore_storeOf hold
  have hfinds := finds_foundIn feedQuery hold
  have hwrite : View.KeyedMap (storeOf [submission "curry" 8 .localMutations]) := by decide +kernel
  have hfits : View.Fits (View.create feedQuery SortedMap.empty) none := fun _ h => nomatch h
  obtain ⟨s, snapshot, hinit, hgood, hstore, -⟩ :=
    initializeView_spec hcache hfinds SortedMap.empty hfits
  have hexecutes : Executes s (.changes (storeOf [submission "curry" 8 .localMutations]) none
      (foundIn feedQuery ([submission "curry" 8 .localMutations] ++ twoSubmissions))) := by
    rw [Executes, hstore, apply_storeOf hnodup]
    exact finds_foundIn feedQuery hnodup
  obtain ⟨s₁, sn₁, hemit₁, hgood₁, -⟩ := emit_spec hgood
    (e := .changes _ none _) ⟨hwrite, fun _ h => nomatch h⟩ hexecutes
  have hstep₁ : step s (.changes (storeOf [submission "curry" 8 .localMutations]) none
      (foundIn feedQuery ([submission "curry" 8 .localMutations] ++ twoSubmissions)))
      = some s₁ := by
    rw [step, hemit₁]
    rfl
  obtain ⟨s₂, sn₂, hemit₂, -⟩ := emit_spec hgood₁ (e := .onlineState .offline) trivial trivial
  have hstep₂ : step s₁ (.onlineState .offline) = some s₂ := by
    rw [step, hemit₂]
    rfl
  have hrun : run step s [.changes (storeOf [submission "curry" 8 .localMutations]) none
      (foundIn feedQuery ([submission "curry" 8 .localMutations] ++ twoSubmissions)),
      .onlineState .offline] = some s₂ := by
    simp only [run_cons, run_nil, hstep₁, hstep₂, Option.bind_some]
  have hall : AllSteps step Executes s
      [.changes (storeOf [submission "curry" 8 .localMutations]) none
        (foundIn feedQuery ([submission "curry" 8 .localMutations] ++ twoSubmissions)),
        .onlineState .offline] := by
    intro u e u' htakes
    rw [takes_cons hstep₁, takes_cons hstep₂] at htakes
    rcases htakes with ⟨rfl, rfl, -⟩ | ⟨-, rfl, -⟩ | hnil
    · exact hexecutes
    · trivial
    · exact absurd hnil takes_nil
  exact ⟨s, s₂, snapshot, hinit, hrun, (view_follows hcache hfinds hinit hall hrun).2.1 rfl⟩

end Runs

end QueryState

end FreeFood.Firestore
