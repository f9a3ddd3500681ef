/-
`core/query_listener.h`: one listener of a query, and the user behind it.

A listener is given every snapshot of a view and passes some of them on. It holds the
first ones back while it waits for a sync or has nothing to show, and its first event is
then made up to look as if all documents were added at once. Later it leaves out changes
of metadata, or whole snapshots, as its options ask. The user here keeps a list by the
indices of the changes. That this list is the one of the last snapshot, however events
were held back or left out, is `Client.Faithful`, and each call keeps it.
-/
import FreeFood.Firestore.QuerySnapshot

set_option autoImplicit false

namespace FreeFood.Firestore

open Std

variable {D V : Type} [Ord D] [Ord V] [ObjectData D V]

structure ListenOptions where
  includeQueryMetadataChanges : Bool
  includeDocumentMetadataChanges : Bool
  waitForSyncWhenOnline : Bool
deriving DecidableEq

/-- `QueryListener`, without the query and the callback. -/
structure QueryListener (q : Query D) where
  options : ListenOptions
  raisedInitialEvent : Bool
  onlineState : OnlineState
  snapshot : Option (ViewSnapshot D q.comparator)

namespace QueryListener

variable {q : Query D}

def create (q : Query D) (options : ListenOptions) : QueryListener q where
  options := options
  raisedInitialEvent := false
  onlineState := .unknown
  snapshot := none

/-- `ShouldRaiseInitialEvent`, `none` where an assertion fails. -/
def shouldRaiseInitialEvent (l : QueryListener q) (snapshot : ViewSnapshot D q.comparator)
    (onlineState : OnlineState) : Option Bool :=
  if l.raisedInitialEvent then none
  else if !snapshot.fromCache then some true
  else
    let maybeOnline := onlineState != .offline
    if l.options.waitForSyncWhenOnline && maybeOnline then
      if snapshot.fromCache then some false else none
    else some (!snapshot.documents.isEmpty || onlineState == .offline)

/-- `ShouldRaiseEvent`. -/
def shouldRaiseEvent (l : QueryListener q) (snapshot : ViewSnapshot D q.comparator) : Bool :=
  if !snapshot.documentChanges.isEmpty then true
  else
    let hasPendingWritesChanged :=
      l.snapshot.any fun last => last.hasPendingWrites != snapshot.hasPendingWrites
    if snapshot.syncStateChanged || hasPendingWritesChanged then
      l.options.includeQueryMetadataChanges
    else false

/-- `RaiseInitialEvent`, with the event. -/
def raiseInitialEvent (l : QueryListener q) (snapshot : ViewSnapshot D q.comparator) :
    Option (QueryListener q × ViewSnapshot D q.comparator) :=
  if l.raisedInitialEvent then none
  else some ({ l with raisedInitialEvent := true },
    ViewSnapshot.fromInitialDocuments snapshot.documents snapshot.mutatedKeys snapshot.fromCache
      snapshot.excludesMetadataChanges)

/-- The snapshot that `OnViewSnapshot` goes on with. -/
def withoutMetadata (options : ListenOptions) (snapshot : ViewSnapshot D q.comparator) :
    ViewSnapshot D q.comparator :=
  { snapshot with
    documentChanges :=
      if options.includeDocumentMetadataChanges then snapshot.documentChanges
      else snapshot.documentChanges.filter fun c => c.type != .metadata
    excludesMetadataChanges :=
      if options.includeDocumentMetadataChanges then snapshot.excludesMetadataChanges else true }

/-- The initial event, if it is time for it. -/
def tryInitialEvent (l : QueryListener q) (snapshot : ViewSnapshot D q.comparator)
    (onlineState : OnlineState) :
    Option (QueryListener q × Option (ViewSnapshot D q.comparator)) := do
  if ← l.shouldRaiseInitialEvent snapshot onlineState then
    let (l, event) ← l.raiseInitialEvent snapshot
    some (l, some event)
  else some (l, none)

/-- `OnViewSnapshot`, with the event if there is one: `none` where an assertion fails. -/
def onViewSnapshot (l : QueryListener q) (snapshot : ViewSnapshot D q.comparator) :
    Option (QueryListener q × Option (ViewSnapshot D q.comparator)) :=
  if snapshot.documentChanges.isEmpty && !snapshot.syncStateChanged then none
  else do
    let snapshot := withoutMetadata l.options snapshot
    let (l, event) ←
      if !l.raisedInitialEvent then l.tryInitialEvent snapshot l.onlineState
      else some (l, if l.shouldRaiseEvent snapshot then some snapshot else none)
    some ({ l with snapshot := some snapshot }, event)

/-- `OnOnlineStateChanged`. -/
def onOnlineStateChanged (l : QueryListener q) (onlineState : OnlineState) :
    Option (QueryListener q × Option (ViewSnapshot D q.comparator)) :=
  let l := { l with onlineState := onlineState }
  match l.snapshot with
  | some snapshot =>
      if !l.raisedInitialEvent then l.tryInitialEvent snapshot onlineState else some (l, none)
  | none => some (l, none)

end QueryListener

/-- A listener and the user behind it, who keeps the rows of a list by the changes of each
event and has the last event at hand. -/
structure Client (q : Query D) where
  listener : QueryListener q
  includeMetadataChanges : Bool
  rows : List (Document D)
  last : Option (QuerySnapshot q)

namespace Client

variable {q : Query D}

def create (q : Query D) (options : ListenOptions) (includeMetadataChanges : Bool) : Client q where
  listener := QueryListener.create q options
  includeMetadataChanges := includeMetadataChanges
  rows := []
  last := none

section Definitions

variable [TransOrd V]

/-- The user is given an event. -/
def receive (c : Client q) : Option (ViewSnapshot D q.comparator) → Option (Client q)
  | none => some c
  | some event => do
      let snapshot := QuerySnapshot.ofViewSnapshot event
      let changes ← snapshot.forEachChange c.includeMetadataChanges
      some { c with
        rows := IndexEdit.applyAll c.rows (changes.map DocumentChange.edit)
        last := some snapshot }

def onViewSnapshot (c : Client q) (snapshot : ViewSnapshot D q.comparator) :
    Option (Client q) := do
  let (l, event) ← c.listener.onViewSnapshot snapshot
  ({ c with listener := l }).receive event

def onOnlineStateChanged (c : Client q) (onlineState : OnlineState) : Option (Client q) := do
  let (l, event) ← c.listener.onOnlineStateChanged onlineState
  ({ c with listener := l }).receive event

end Definitions

end Client

/-! ## 1. Snapshots in a row -/

namespace QuerySnapshot

variable {q : Query D}

omit [Ord V] [ObjectData D V] in
theorem sameData_refl [TransOrd D] (a : Document D) : SameData a a := ⟨rfl, ReflCmp.compare_self⟩

omit [Ord V] [ObjectData D V] in
theorem SameData.trans [TransOrd D] {a b c : Document D} (hab : SameData a b)
    (hbc : SameData b c) : SameData a c :=
  ⟨hab.1.trans hbc.1, TransCmp.eq_trans hab.2 hbc.2⟩

omit [Ord V] [ObjectData D V] in
theorem forall₂_sameData_trans [TransOrd D] {l₁ l₂ l₃ : List (Document D)}
    (h₁₂ : List.Forall₂ SameData l₁ l₂) (h₂₃ : List.Forall₂ SameData l₂ l₃) :
    List.Forall₂ SameData l₁ l₃ := by
  induction h₁₂ generalizing l₃ with
  | nil => exact h₂₃
  | cons hab _ ih =>
      cases h₂₃ with
      | cons hbc hrest => exact List.Forall₂.cons (hab.trans hbc) (ih hrest)

/-- A first event tells of all its documents. -/
theorem told_fromInitialDocuments [TransOrd V] (documents : DocumentSet D q.comparator)
    (mutatedKeys : DocumentKeySet) (fromCache excludesMetadataChanges : Bool) :
    Told (ViewSnapshot.fromInitialDocuments documents mutatedKeys fromCache
      excludesMetadataChanges) := by
  have hadded : ∀ c ∈ documents.toList.map (fun doc => DocumentViewChange.mk doc .added),
      c.type = .added := by
    intro c hc
    obtain ⟨doc, -, rfl⟩ := List.mem_map.mp hc
    rfl
  have hnodup : ((documents.toList.map fun doc => DocumentViewChange.mk doc .added).map
      fun c => c.document.key).Nodup := by
    rw [List.map_map]
    exact documents.nodup_keys
  refine ⟨_, ⟨hnodup, fun k => ?_⟩, ?_, (kept_of_added hadded _).symm⟩
  · cases hdoc : documents.getDocument k with
    | none =>
        have hfind : ((documents.toList.map fun doc => DocumentViewChange.mk doc .added).find?
            fun c => c.document.key = k) = none := by
          rw [List.find?_eq_none]
          intro c hc hkey
          obtain ⟨doc, hmem, rfl⟩ := List.mem_map.mp hc
          have hfound := DocumentSet.getDocument_eq_some_iff.mpr ⟨hmem, of_decide_eq_true hkey⟩
          rw [hdoc] at hfound
          cases hfound
        rw [ViewSnapshot.fromInitialDocuments, hfind, hdoc]
        exact Explains.unchanged none
    | some doc =>
        obtain ⟨hmem, hkey⟩ := DocumentSet.getDocument_eq_some_iff.mp hdoc
        have hfind := (find?_key_eq_some_iff hnodup (k := k)).mpr
          ⟨List.mem_map_of_mem hmem, hkey⟩
        rw [ViewSnapshot.fromInitialDocuments, hfind, hdoc]
        exact Explains.added doc
  · rw [List.pairwise_map]
    refine documents.pairwise_toList.imp ?_
    intro a b hlt
    rw [View.changeComparator, compare_self]
    exact hlt

end QuerySnapshot

/-! ## 2. What a listener does -/

namespace QueryListener

variable {q : Query D}

/-- Whether the first event is due, where no assertion is in the way. -/
def initialEventDue (options : ListenOptions) (snapshot : ViewSnapshot D q.comparator)
    (onlineState : OnlineState) : Bool :=
  !snapshot.fromCache || (onlineState == .offline ||
    !options.waitForSyncWhenOnline && !snapshot.documents.isEmpty)

theorem tryInitialEvent_eq {l : QueryListener q}
    (h : l.raisedInitialEvent = false) (snapshot : ViewSnapshot D q.comparator)
    (onlineState : OnlineState) :
    l.tryInitialEvent snapshot onlineState = some
      (if initialEventDue l.options snapshot onlineState then
        ({ l with raisedInitialEvent := true },
          some (ViewSnapshot.fromInitialDocuments snapshot.documents snapshot.mutatedKeys
            snapshot.fromCache snapshot.excludesMetadataChanges))
       else (l, none)) := by
  unfold tryInitialEvent shouldRaiseInitialEvent raiseInitialEvent initialEventDue
  rw [h]
  cases hcache : snapshot.fromCache with
  | false => simp
  | true =>
      cases hwait : l.options.waitForSyncWhenOnline with
      | true => cases onlineState <;> simp
      | false =>
          by_cases hoffline : onlineState = .offline
          · simp [hoffline]
          · cases hempty : snapshot.documents.isEmpty <;> simp [hoffline]

/-- What is not passed on changes no data, and nothing that the options ask for. -/
theorem shouldRaiseEvent_eq_false {l : QueryListener q} {snapshot : ViewSnapshot D q.comparator}
    (h : l.shouldRaiseEvent snapshot = false) :
    snapshot.documentChanges = [] ∧ (l.options.includeQueryMetadataChanges = true →
      snapshot.syncStateChanged = false ∧
      ∀ last ∈ l.snapshot, last.hasPendingWrites = snapshot.hasPendingWrites) := by
  rw [shouldRaiseEvent] at h
  split at h
  · cases h
  next hempty =>
  rw [Bool.not_eq_true, Bool.not_eq_false', List.isEmpty_iff] at hempty
  refine ⟨hempty, fun hquery => ?_⟩
  dsimp only at h
  split at h
  · rw [hquery] at h
    cases h
  next hquiet =>
  rw [Bool.not_eq_true, Bool.or_eq_false_iff] at hquiet
  refine ⟨hquiet.1, fun last hlast => ?_⟩
  have hsame := hquiet.2
  rw [Option.mem_def.mp hlast, Option.any_some, bne_eq_false_iff_eq] at hsame
  exact hsame

/-- What a snapshot is to the one before it: its changes are told from there. -/
structure Succeeds (last : Option (ViewSnapshot D q.comparator))
    (snapshot : ViewSnapshot D q.comparator) : Prop where
  told : QuerySnapshot.Told snapshot
  whole : snapshot.excludesMetadataChanges = false
  fresh : snapshot.documentChanges ≠ [] ∨ snapshot.syncStateChanged = true
  oldDocuments : ∀ p ∈ last, snapshot.oldDocuments.toList = p.documents.toList
  fromCache : ∀ p ∈ last, snapshot.syncStateChanged = false → snapshot.fromCache = p.fromCache

theorem excludes_withoutMetadata {options : ListenOptions}
    {snapshot : ViewSnapshot D q.comparator} (h : snapshot.excludesMetadataChanges = false) :
    (withoutMetadata options snapshot).excludesMetadataChanges
      = !options.includeDocumentMetadataChanges := by
  rw [withoutMetadata]
  dsimp only
  split
  · next hinclude => rw [h, hinclude, Bool.not_true]
  · next hinclude => rw [Bool.eq_false_iff.mpr hinclude, Bool.not_false]

theorem told_withoutMetadata (options : ListenOptions) {snapshot : ViewSnapshot D q.comparator}
    (h : QuerySnapshot.Told snapshot) (hwhole : snapshot.excludesMetadataChanges = false) :
    QuerySnapshot.Told (withoutMetadata options snapshot) := by
  obtain ⟨all, haccounts, hsorted, hchanges⟩ := h
  refine ⟨all, haccounts, hsorted, ?_⟩
  rw [hwhole, Bool.not_false] at hchanges
  have hall : QuerySnapshot.kept true all = all := List.filter_true all
  rw [excludes_withoutMetadata hwhole, Bool.not_not, withoutMetadata]
  dsimp only
  rw [hchanges, hall]
  split
  · next hinclude => rw [hinclude, hall]
  · next hinclude =>
      rw [Bool.eq_false_iff.mpr hinclude]
      rfl

end QueryListener

/-! ## 3. What the user has -/

namespace Client

variable {q : Query D}

open QuerySnapshot QueryListener

/-- What the user has is what the last snapshot of the listener has: nothing while the
first event is not due, and later its rows up to what the options leave out. -/
structure Faithful (c : Client q) : Prop where
  allowed : c.includeMetadataChanges = true →
    c.listener.options.includeDocumentMetadataChanges = true
  waiting : c.listener.raisedInitialEvent = false → c.rows = [] ∧ c.last = none ∧
    ∀ sn ∈ c.listener.snapshot,
      initialEventDue c.listener.options sn c.listener.onlineState = false
  showing : c.listener.raisedInitialEvent = true → ∃ sn s, c.listener.snapshot = some sn ∧
    c.last = some s ∧ List.Forall₂ SameData c.rows sn.documents.toList ∧
    (c.includeMetadataChanges = true → c.rows = sn.documents.toList) ∧
    (c.listener.options.includeQueryMetadataChanges = true →
      s.metadata = ⟨sn.hasPendingWrites, sn.fromCache⟩)

variable [TransOrd D] [TransOrd V]

/-- An event that tells of the rows that the user has is taken. -/
theorem receive_spec {c : Client q} {event : ViewSnapshot D q.comparator} (htold : Told event)
    (hinclude : c.includeMetadataChanges = true → event.excludesMetadataChanges = false)
    (hrows : List.Forall₂ SameData c.rows event.oldDocuments.toList)
    (hexact : c.includeMetadataChanges = true → c.rows = event.oldDocuments.toList) :
    ∃ rows, c.receive (some event)
        = some { c with rows := rows, last := some (ofViewSnapshot event) } ∧
      List.Forall₂ SameData rows event.documents.toList ∧
      (c.includeMetadataChanges = true → rows = event.documents.toList) := by
  obtain ⟨dcs, hchanges, -, hlist, hlist'⟩ :=
    forEachChange_spec (s := ofViewSnapshot event) htold hinclude
  refine ⟨IndexEdit.applyAll c.rows (dcs.map DocumentChange.edit), ?_, ?_, fun h => ?_⟩
  · rw [receive, hchanges]
    rfl
  · exact forall₂_sameData_trans (IndexEdit.forall₂_applyAll sameData_refl hrows _) hlist
  · rw [hexact h]
    exact hlist' h

/-- A listener that waited, after it has looked at a snapshot. -/
def looked (l : QueryListener q) (sn : ViewSnapshot D q.comparator) (onlineState : OnlineState) :
    QueryListener q where
  options := l.options
  raisedInitialEvent := initialEventDue l.options sn onlineState
  onlineState := onlineState
  snapshot := some sn

/-- The first event, when it is due, and the waiting for it. -/
theorem tryInitialEvent_spec {c : Client q}
    (hallowed : c.includeMetadataChanges = true →
      c.listener.options.includeDocumentMetadataChanges = true)
    (hwaiting : c.listener.raisedInitialEvent = false) (hrows : c.rows = []) (hlast : c.last = none)
    {sn : ViewSnapshot D q.comparator}
    (hexcludes : c.includeMetadataChanges = true → sn.excludesMetadataChanges = false)
    (onlineState : OnlineState) :
    ∃ event c', c.listener.tryInitialEvent sn onlineState = some ({ c.listener with
        raisedInitialEvent := initialEventDue c.listener.options sn onlineState }, event) ∧
      ({ c with listener := looked c.listener sn onlineState } : Client q).receive event
        = some c' ∧
      Faithful c' ∧ c'.includeMetadataChanges = c.includeMetadataChanges ∧
      c'.listener = looked c.listener sn onlineState := by
  rw [QueryListener.tryInitialEvent_eq hwaiting]
  by_cases hdue : initialEventDue c.listener.options sn onlineState = true
  · have hold : List.Forall₂ SameData c.rows (ViewSnapshot.fromInitialDocuments sn.documents
        sn.mutatedKeys sn.fromCache sn.excludesMetadataChanges).oldDocuments.toList := by
      rw [hrows]
      exact List.Forall₂.nil
    obtain ⟨rows, hreceive, hsame, hexact⟩ := receive_spec
      (c := { c with listener := looked c.listener sn onlineState })
      (told_fromInitialDocuments sn.documents sn.mutatedKeys sn.fromCache
        sn.excludesMetadataChanges) hexcludes hold fun _ => hrows
    rw [if_pos hdue, hdue]
    refine ⟨_, _, rfl, hreceive, ⟨hallowed, fun hnot => ?_, fun _ => ?_⟩, rfl, rfl⟩
    · dsimp only [looked] at hnot
      rw [hdue] at hnot
      cases hnot
    · exact ⟨sn, _, rfl, rfl, hsame, hexact, fun _ => rfl⟩
  · have hfalse := Bool.eq_false_iff.mpr hdue
    rw [if_neg hdue, hfalse]
    refine ⟨none, _, ?_, rfl, ⟨hallowed, fun _ => ?_, fun hraised => ?_⟩, rfl, rfl⟩
    · rw [← hwaiting]
    · refine ⟨hrows, hlast, fun sn' hsn' => ?_⟩
      rw [← Option.some.inj hsn']
      exact hfalse
    · dsimp only [looked] at hraised
      rw [hfalse] at hraised
      cases hraised

/-- **A listener takes the next snapshot, and its user has what that has.** -/
theorem onViewSnapshot_spec {c : Client q} (h : Faithful c) {sn : ViewSnapshot D q.comparator}
    (hsucceeds : Succeeds c.listener.snapshot sn) :
    ∃ c', c.onViewSnapshot sn = some c' ∧ Faithful c' ∧
      c'.includeMetadataChanges = c.includeMetadataChanges ∧
      c'.listener.options = c.listener.options ∧
      c'.listener.onlineState = c.listener.onlineState ∧
      c'.listener.snapshot = some (withoutMetadata c.listener.options sn) := by
  have hfresh : ¬(sn.documentChanges.isEmpty && !sn.syncStateChanged) = true := by
    rw [Bool.and_eq_true, List.isEmpty_iff, not_and_or, Bool.not_eq_true', Bool.not_eq_false]
    exact hsucceeds.fresh
  have htold := told_withoutMetadata c.listener.options hsucceeds.told hsucceeds.whole
  have hexcludes : c.includeMetadataChanges = true →
      (withoutMetadata c.listener.options sn).excludesMetadataChanges = false := by
    intro hinclude
    rw [excludes_withoutMetadata hsucceeds.whole, h.allowed hinclude, Bool.not_true]
  unfold onViewSnapshot QueryListener.onViewSnapshot
  rw [if_neg hfresh]
  dsimp only
  by_cases hraised : c.listener.raisedInitialEvent = true
  · obtain ⟨p, s, hp, hlast, hrows, hexact, hmetadata⟩ := h.showing hraised
    have hold := hsucceeds.oldDocuments p hp
    rw [hraised, Bool.not_true, if_neg Bool.false_ne_true]
    by_cases hevent : c.listener.shouldRaiseEvent (withoutMetadata c.listener.options sn) = true
    · obtain ⟨rows, hreceive, hrows', hexact'⟩ := receive_spec
        (c := { c with listener :=
          { c.listener with snapshot := some (withoutMetadata c.listener.options sn) } })
        htold hexcludes (hold ▸ hrows) fun hinclude => (hexact hinclude).trans hold.symm
      refine ⟨{ c with
        listener := { c.listener with snapshot := some (withoutMetadata c.listener.options sn) }
        rows := rows
        last := some (ofViewSnapshot (withoutMetadata c.listener.options sn)) }, ?_,
        ⟨h.allowed, fun hnot => ?_, fun _ => ?_⟩, rfl, rfl, rfl, rfl⟩
      · rw [if_pos hevent]
        exact hreceive
      · exact absurd (hraised.symm.trans hnot) Bool.false_ne_true.symm
      · exact ⟨_, _, rfl, rfl, hrows', hexact', fun _ => rfl⟩
    · -- nothing is passed on, so the rows have to stand for the new snapshot as they are
      have hquiet := Bool.eq_false_iff.mpr hevent
      obtain ⟨hempty, hmeta⟩ := QueryListener.shouldRaiseEvent_eq_false hquiet
      obtain ⟨dcs, -, ⟨htypes, -⟩, hlist, hlist'⟩ := forEachChange_spec
        (s := ofViewSnapshot (withoutMetadata c.listener.options sn)) htold hexcludes
      have hkept : kept c.includeMetadataChanges (ofViewSnapshot
          (withoutMetadata c.listener.options sn)).snapshot.documentChanges = [] := by
        rw [ofViewSnapshot, hempty]
        rfl
      rw [hkept, List.map_nil, List.map_eq_nil_iff] at htypes
      rw [htypes, List.map_nil, IndexEdit.applyAll_nil] at hlist hlist'
      refine ⟨{ c with listener :=
        { c.listener with snapshot := some (withoutMetadata c.listener.options sn) } }, ?_,
        ⟨h.allowed, fun hnot => ?_, fun _ => ?_⟩, rfl, rfl, rfl, rfl⟩
      · rw [if_neg hevent]
        rfl
      · exact absurd (hraised.symm.trans hnot) Bool.false_ne_true.symm
      · refine ⟨_, s, rfl, hlast, ?_, fun hinclude => ?_, fun hquery => ?_⟩
        · exact forall₂_sameData_trans (hold ▸ hrows) hlist
        · exact (hexact hinclude).trans (hold.symm.trans (hlist' hinclude))
        · obtain ⟨hsync, hpending⟩ := hmeta hquery
          rw [hmetadata hquery, hpending p hp]
          exact congrArg _ (hsucceeds.fromCache p hp hsync).symm
  · have hwaiting := Bool.eq_false_iff.mpr hraised
    obtain ⟨hrows, hlast, -⟩ := h.waiting hwaiting
    obtain ⟨event, c', htry, hreceive, hfaithful, hsame, hlistener⟩ :=
      tryInitialEvent_spec h.allowed hwaiting hrows hlast hexcludes c.listener.onlineState
    rw [hwaiting, Bool.not_false, if_pos rfl, htry]
    refine ⟨c', hreceive, hfaithful, hsame, ?_⟩
    rw [hlistener]
    exact ⟨rfl, rfl, rfl⟩

/-- **A listener takes a new online state.** -/
theorem onOnlineStateChanged_spec {c : Client q} (h : Faithful c)
    (hexcludes : c.includeMetadataChanges = true →
      ∀ sn ∈ c.listener.snapshot, sn.excludesMetadataChanges = false)
    (onlineState : OnlineState) :
    ∃ c', c.onOnlineStateChanged onlineState = some c' ∧ Faithful c' ∧
      c'.includeMetadataChanges = c.includeMetadataChanges ∧
      c'.listener.options = c.listener.options ∧ c'.listener.onlineState = onlineState ∧
      c'.listener.snapshot = c.listener.snapshot := by
  unfold onOnlineStateChanged QueryListener.onOnlineStateChanged
  dsimp only
  split
  · next sn hsnapshot =>
      by_cases hraised : c.listener.raisedInitialEvent = true
      · refine ⟨{ c with listener := { c.listener with onlineState := onlineState } }, ?_,
          ⟨h.allowed, fun hnot => ?_, h.showing⟩, rfl, rfl, rfl, rfl⟩
        · rw [if_neg (by rw [hraised]; exact Bool.false_ne_true)]
          rfl
        · exact absurd (hraised.symm.trans hnot) Bool.false_ne_true.symm
      · have hwaiting := Bool.eq_false_iff.mpr hraised
        obtain ⟨hrows, hlast, -⟩ := h.waiting hwaiting
        obtain ⟨event, c', htry, hreceive, hfaithful, hinclude, hlistener⟩ := tryInitialEvent_spec
          (c := { c with listener := { c.listener with onlineState := onlineState } })
          h.allowed hwaiting hrows hlast (fun hi => hexcludes hi sn hsnapshot) onlineState
        dsimp only at htry
        rw [if_pos (by rw [hwaiting]; rfl), htry]
        refine ⟨c', ?_, hfaithful, hinclude, ?_⟩
        · rw [← hreceive, looked, Option.bind_eq_bind, Option.bind_some, hsnapshot]
        · rw [hlistener, looked, hsnapshot]
          exact ⟨rfl, rfl, rfl⟩
  · next hsnapshot =>
      refine ⟨{ c with listener := { c.listener with onlineState := onlineState } }, rfl,
        ⟨h.allowed, fun hwaiting => ?_, h.showing⟩, rfl, rfl, rfl, rfl⟩
      obtain ⟨hrows, hlast, -⟩ := h.waiting hwaiting
      refine ⟨hrows, hlast, fun sn hsn => ?_⟩
      rw [hsnapshot] at hsn
      exact absurd hsn (Option.not_mem_none _)

end Client

end FreeFood.Firestore
