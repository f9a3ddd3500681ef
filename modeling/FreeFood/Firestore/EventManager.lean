/-
`core/event_manager.h`: the listeners of one query over the view of it.

Listeners of one query share a view. The first one makes it, a later one is given the
snapshot that the others had last, and the last to go ends it. The calls of the backend,
of the network and of the users come in any order. The SDK makes them one at a time on its
own queue and hands the events to another, so no call happens inside another one.

Proved of every order of calls: no assertion on the way from the view to the user fails
that is not the backend's doing, and each user has the rows of the view, which follows the
documents of the local store. What a run of the query returns comes with the calls, as for
one view.
-/
import FreeFood.Firestore.FeedQuery
import FreeFood.Firestore.SyncEngine
import FreeFood.Firestore.QueryListener

set_option autoImplicit false

namespace FreeFood.Firestore

open Std Transition

variable {D V : Type} [Ord D] [Ord V] [ObjectData D V]

/-- `QueryListenersInfo`. A listener is known by its pointer. -/
structure QueryListenersInfo (q : Query D) where
  listeners : List (ℕ × Client q)
  viewSnapshot : Option (ViewSnapshot D q.comparator)

/-- `EventManager` and `SyncEngine`, as far as one query goes. -/
structure EventManager (q : Query D) where
  onlineState : OnlineState
  info : Option (QueryListenersInfo q)
  queryView : Option (QueryState q)

/-- The calls that reach the listeners of a query. The local store comes with the first
listener, and has documents under their keys. -/
inductive ListenEvent (D : Type) where
  | addQueryListener (listener : ℕ) (options : ListenOptions) (includeMetadataChanges : Bool)
      (store : StoredDocuments D) (keyed : QueryState.KeyedStore store)
      (executed : MaybeDocumentMap D) (remoteKeys : DocumentKeySet)
      (synthesized : Option TargetChange)
  | removeQueryListener (listener : ℕ)
  | changes (docChanges : MaybeDocumentMap D) (targetChange : Option TargetChange)
      (executed : MaybeDocumentMap D)
  | onlineState (state : OnlineState)
  | rejectListen

namespace QueryListenersInfo

variable {q : Query D}

/-- `Erase`: the first entry of the pointer. -/
def erase (info : QueryListenersInfo q) (listener : ℕ) : QueryListenersInfo q :=
  { info with listeners := info.listeners.eraseP fun e => e.1 == listener }

/-- A loop over the listeners that calls each one. -/
def forListeners (f : Client q → Option (Client q)) :
    List (ℕ × Client q) → Option (List (ℕ × Client q))
  | [] => some []
  | e :: rest => do
      let client ← f e.2
      let rest ← forListeners f rest
      some ((e.1, client) :: rest)

variable [TransOrd V]

/-- `OnViewSnapshots`, for the snapshot of the query if there is one. -/
def onViewSnapshots (info : QueryListenersInfo q) :
    Option (ViewSnapshot D q.comparator) → Option (QueryListenersInfo q)
  | none => some info
  | some snapshot => do
      let listeners ← forListeners (fun c => c.onViewSnapshot snapshot) info.listeners
      some ⟨listeners, some snapshot⟩

/-- `HandleOnlineStateChange`. -/
def handleOnlineStateChange (info : QueryListenersInfo q) (onlineState : OnlineState) :
    Option (QueryListenersInfo q) := do
  let listeners ← forListeners (fun c => c.onOnlineStateChanged onlineState) info.listeners
  some { info with listeners := listeners }

end QueryListenersInfo

namespace EventManager

variable {q : Query D}

/-- Nobody listens yet. -/
def create (q : Query D) : EventManager q := ⟨.unknown, none, none⟩

variable [TransOrd V]

/-- What `AddQueryListener` does with a new listener: it asserts that there is nothing to
raise for the online state, and gives it the snapshot that the others have. The user asks
for the changes of metadata only where the options have them. -/
def greet (m : EventManager q) (info : QueryListenersInfo q) (options : ListenOptions)
    (includeMetadataChanges : Bool) : Option (Client q) := do
  let client := Client.create q options includeMetadataChanges
  let (l, event) ← client.listener.onOnlineStateChanged m.onlineState
  if event.isSome || (includeMetadataChanges && !options.includeDocumentMetadataChanges) then none
  else
    match info.viewSnapshot with
    | some snapshot => ({ client with listener := l }).onViewSnapshot snapshot
    | none => some { client with listener := l }

/-- `Listen`, which asserts that there is no view of the query. -/
def listen (m : EventManager q) (info : QueryListenersInfo q) (store : StoredDocuments D)
    (executed : MaybeDocumentMap D) (remoteKeys : DocumentKeySet)
    (synthesized : Option TargetChange) : Option (EventManager q) :=
  if m.queryView.isSome then none
  else do
    let (view, snapshot) ← QueryState.initializeView q store executed remoteKeys synthesized
    let info ← info.onViewSnapshots (some snapshot)
    some { m with info := some info, queryView := some view }

/-- `AddQueryListener`. -/
def addQueryListener (m : EventManager q) (listener : ℕ) (options : ListenOptions)
    (includeMetadataChanges : Bool) (store : StoredDocuments D) (executed : MaybeDocumentMap D)
    (remoteKeys : DocumentKeySet) (synthesized : Option TargetChange) :
    Option (EventManager q) := do
  let firstListen := m.info.isNone
  let info := m.info.getD ⟨[], none⟩
  let client ← m.greet info options includeMetadataChanges
  let info := { info with listeners := info.listeners ++ [(listener, client)] }
  if firstListen then m.listen info store executed remoteKeys synthesized
  else some { m with info := some info }

/-- `RemoveQueryListener`. `StopListening` asserts that there is a view of the query. -/
def removeQueryListener (m : EventManager q) (listener : ℕ) : Option (EventManager q) :=
  match m.info with
  | none => some m
  | some info =>
      let info := info.erase listener
      if info.listeners.isEmpty then
        if m.queryView.isNone then none else some { m with info := none, queryView := none }
      else some { m with info := some info }

/-- A call on the view of the query, if there is one, whose snapshot goes to the listeners. -/
def emitSnapshot (m : EventManager q) (e : QueryEvent D) : Option (EventManager q) :=
  match m.queryView with
  | none => some m
  | some view => do
      let (view, snapshot) ← view.emit e
      match m.info with
      | none => some { m with queryView := some view }
      | some info => do
          let info ← info.onViewSnapshots snapshot
          some { m with info := some info, queryView := some view }

/-- `HandleOnlineStateChange`, of the sync engine and then of the listeners. -/
def handleOnlineStateChange (m : EventManager q) (onlineState : OnlineState) :
    Option (EventManager q) := do
  let m ← m.emitSnapshot (.onlineState onlineState)
  match m.info with
  | none => some { m with onlineState := onlineState }
  | some info => do
      let info ← info.handleOnlineStateChange onlineState
      some { m with onlineState := onlineState, info := some info }

/-- One call. -/
def step (m : EventManager q) : ListenEvent D → Option (EventManager q)
  | .addQueryListener listener options includeMetadataChanges store _ executed remoteKeys
      synthesized =>
      m.addQueryListener listener options includeMetadataChanges store executed remoteKeys
        synthesized
  | .removeQueryListener listener => m.removeQueryListener listener
  | .changes docChanges targetChange executed =>
      m.emitSnapshot (.changes docChanges targetChange executed)
  | .onlineState state => m.handleOnlineStateChange state
  | .rejectListen => some { m with info := none, queryView := none }

end EventManager

/-! ## 1. The listeners of a query -/

namespace QueryListenersInfo

variable {q : Query D}

/-- A loop goes through where it does for each listener. -/
theorem forListeners_spec {f : Client q → Option (Client q)} {P : Client q → Prop}
    {listeners : List (ℕ × Client q)} (h : ∀ e ∈ listeners, ∃ c, f e.2 = some c ∧ P c) :
    ∃ listeners', forListeners f listeners = some listeners' ∧ (∀ e ∈ listeners', P e.2) ∧
      listeners'.length = listeners.length := by
  induction listeners with
  | nil => exact ⟨[], rfl, fun _ he => absurd he List.not_mem_nil, rfl⟩
  | cons e rest ih =>
      obtain ⟨c, hf, hc⟩ := h e List.mem_cons_self
      obtain ⟨rest', hrest, hall, hlength⟩ := ih fun e' he' => h e' (List.mem_cons_of_mem _ he')
      refine ⟨(e.1, c) :: rest', ?_, ?_, ?_⟩
      · rw [forListeners, hf, hrest]
        rfl
      · rw [List.forall_mem_cons]
        exact ⟨hc, hall⟩
      · rw [List.length_cons, List.length_cons, hlength]

/-- What a listener has of the last snapshot of the view and of the online state. -/
structure Attends (onlineState : OnlineState) (snapshot : Option (ViewSnapshot D q.comparator))
    (c : Client q) : Prop where
  faithful : c.Faithful
  onlineState : c.listener.onlineState = onlineState
  snapshot : c.listener.snapshot
    = snapshot.map (QueryListener.withoutMetadata c.listener.options)

/-- A snapshot that has what a view has. -/
structure OfView (sn : ViewSnapshot D q.comparator) (v : View q) : Prop where
  documents : sn.documents.toList = v.documentSet.toList
  fromCache : sn.fromCache = (v.syncState == .local)
  mutated : ∀ k, sn.mutatedKeys.contains k
    = (sn.documents.getDocument k).any Document.hasLocalMutations
  told : QuerySnapshot.Told sn
  whole : sn.excludesMetadataChanges = false
  fresh : sn.documentChanges ≠ [] ∨ sn.syncStateChanged = true

/-- A snapshot has pending writes exactly when a document of the view has. -/
theorem OfView.hasPendingWrites {sn : ViewSnapshot D q.comparator} {v : View q}
    (h : OfView sn v) :
    sn.hasPendingWrites = v.documentSet.toList.any Document.hasLocalMutations := by
  rw [Bool.eq_iff_iff, ViewSnapshot.hasPendingWrites, Bool.not_eq_true', Bool.eq_false_iff,
    ne_eq, View.isEmpty_iff_contains, ← h.documents, List.any_eq_true, not_forall]
  constructor
  · rintro ⟨k, hk⟩
    rw [h.mutated, Bool.not_eq_false, Option.any_eq_true] at hk
    obtain ⟨doc, hdoc, hlocal⟩ := hk
    exact ⟨doc, (DocumentSet.getDocument_eq_some_iff.mp hdoc).1, hlocal⟩
  · rintro ⟨doc, hdoc, hlocal⟩
    refine ⟨doc.key, ?_⟩
    rw [h.mutated, DocumentSet.mem_toList.mp hdoc, Option.any_some, hlocal]
    exact Bool.false_ne_true.symm

theorem OfView.of_raised [TransOrd V] {v v' : View q}
    {sn : ViewSnapshot D q.comparator} (h : View.Raised v v' sn) : OfView sn v' where
  documents := congrArg _ h.documents
  fromCache := h.fromCache
  mutated := h.mutated
  told := by
    refine ⟨sn.documentChanges, h.accounts, h.sorted, ?_⟩
    rw [h.excludesMetadataChanges]
    exact (List.filter_true _).symm
  whole := h.excludesMetadataChanges
  fresh := h.fresh

/-- A snapshot of a view comes next after one of the view as it was. -/
theorem succeeds_of_raised [TransOrd V] {v v' : View q}
    {sn : ViewSnapshot D q.comparator} (h : View.Raised v v' sn)
    {last : Option (ViewSnapshot D q.comparator)} (hlast : ∀ p ∈ last, OfView p v)
    (options : ListenOptions) :
    QueryListener.Succeeds (last.map (QueryListener.withoutMetadata options)) sn := by
  have hof := OfView.of_raised h
  refine ⟨hof.told, hof.whole, hof.fresh, fun p hp => ?_, fun p hp hsync => ?_⟩
  · obtain ⟨p', hp', rfl⟩ := Option.map_eq_some_iff.mp hp
    rw [h.oldDocuments]
    exact (hlast p' hp').documents.symm
  · obtain ⟨p', hp', rfl⟩ := Option.map_eq_some_iff.mp hp
    rw [h.syncStateChanged, bne_eq_false_iff_eq] at hsync
    rw [h.fromCache, hsync]
    exact (hlast p' hp').fromCache.symm

variable [TransOrd D] [TransOrd V]

/-- **Each listener takes the snapshot of a call on the view.** -/
theorem onViewSnapshots_spec (info : QueryListenersInfo q) {v v' : View q}
    {onlineState : OnlineState} {sn : ViewSnapshot D q.comparator} (h : View.Raised v v' sn)
    (hlast : ∀ p ∈ info.viewSnapshot, OfView p v)
    (hattends : ∀ e ∈ info.listeners, Attends onlineState info.viewSnapshot e.2) :
    ∃ listeners, info.onViewSnapshots (some sn) = some ⟨listeners, some sn⟩ ∧
      (∀ e ∈ listeners, Attends onlineState (some sn) e.2) ∧
      listeners.length = info.listeners.length := by
  have hall : ∀ e ∈ info.listeners, ∃ c, e.2.onViewSnapshot sn = some c ∧
      Attends onlineState (some sn) c := by
    intro e he
    obtain ⟨hfaithful, honline, hsnapshot⟩ := hattends e he
    have hsucceeds := succeeds_of_raised h hlast e.2.listener.options
    rw [← hsnapshot] at hsucceeds
    obtain ⟨c, hc, hfaithful', -, hoptions, honline', hsnapshot'⟩ :=
      Client.onViewSnapshot_spec hfaithful hsucceeds
    refine ⟨c, hc, hfaithful', honline'.trans honline, ?_⟩
    rw [hsnapshot', hoptions, Option.map_some]
  obtain ⟨listeners, hloop, hattends', hlength⟩ :=
    forListeners_spec (f := fun c => c.onViewSnapshot sn) (P := Attends onlineState (some sn)) hall
  refine ⟨listeners, ?_, hattends', hlength⟩
  rw [onViewSnapshots, hloop]
  rfl

/-- **Each listener takes a new online state.** -/
theorem handleOnlineStateChange_spec {info : QueryListenersInfo q} {onlineState : OnlineState}
    (hwhole : ∀ p ∈ info.viewSnapshot, p.excludesMetadataChanges = false)
    (hattends : ∀ e ∈ info.listeners, Attends onlineState info.viewSnapshot e.2)
    (state : OnlineState) :
    ∃ listeners, info.handleOnlineStateChange state = some { info with listeners := listeners } ∧
      (∀ e ∈ listeners, Attends state info.viewSnapshot e.2) ∧
      listeners.length = info.listeners.length := by
  have hall : ∀ e ∈ info.listeners, ∃ c, e.2.onOnlineStateChanged state = some c ∧
      Attends state info.viewSnapshot c := by
    intro e he
    obtain ⟨hfaithful, -, hsnapshot⟩ := hattends e he
    have hexcludes : e.2.includeMetadataChanges = true →
        ∀ sn ∈ e.2.listener.snapshot, sn.excludesMetadataChanges = false := by
      intro hinclude sn hsn
      rw [hsnapshot] at hsn
      obtain ⟨p, hp, rfl⟩ := Option.map_eq_some_iff.mp hsn
      rw [QueryListener.excludes_withoutMetadata (hwhole p hp), hfaithful.allowed hinclude,
        Bool.not_true]
    obtain ⟨c, hc, hfaithful', -, hoptions, honline, hsnapshot'⟩ :=
      Client.onOnlineStateChanged_spec hfaithful hexcludes state
    refine ⟨c, hc, hfaithful', honline, ?_⟩
    rw [hsnapshot', hoptions, hsnapshot]
  obtain ⟨listeners, hloop, hattends', hlength⟩ :=
    forListeners_spec (f := fun c => c.onOnlineStateChanged state)
      (P := Attends state info.viewSnapshot) hall
  refine ⟨listeners, ?_, hattends', hlength⟩
  rw [handleOnlineStateChange, hloop]
  rfl

end QueryListenersInfo

/-! ## 2. What holds between the listeners and the view -/

namespace EventManager

open QueryListenersInfo

variable {q : Query D}

/-- The listeners of a view that follows the local store. -/
structure Listening (onlineState : OnlineState) (info : QueryListenersInfo q)
    (s : QueryState q) : Prop where
  nonempty : info.listeners ≠ []
  good : QueryState.Good s
  isSome : info.viewSnapshot.isSome = true
  ofView : ∀ p ∈ info.viewSnapshot, OfView p s.view
  attends : ∀ e ∈ info.listeners, Attends onlineState info.viewSnapshot e.2

/-- There is a view exactly while there are listeners. -/
inductive Consistent : EventManager q → Prop
  | idle (onlineState : OnlineState) : Consistent ⟨onlineState, none, none⟩
  | listening {onlineState : OnlineState} {info : QueryListenersInfo q} {s : QueryState q}
      (h : Listening onlineState info s) : Consistent ⟨onlineState, some info, some s⟩

/-- What the assertions ask of a call. -/
def EventFits (m : EventManager q) : ListenEvent D → Prop
  | .addQueryListener _ options includeMetadataChanges _ _ _ remoteKeys synthesized =>
      (includeMetadataChanges = true → options.includeDocumentMetadataChanges = true) ∧
        (m.queryView = none → View.Fits (View.create q remoteKeys) synthesized)
  | .changes docChanges targetChange executed =>
      ∀ s ∈ m.queryView, QueryState.EventFits s (.changes docChanges targetChange executed)
  | _ => True

/-- What is asked of the runs of the query that a call may make. -/
def Executes (m : EventManager q) : ListenEvent D → Prop
  | .addQueryListener _ _ _ store _ executed _ _ =>
      m.queryView = none → QueryState.Finds q store executed
  | .changes docChanges targetChange executed =>
      ∀ s ∈ m.queryView, QueryState.Executes s (.changes docChanges targetChange executed)
  | _ => True

variable [TransOrd D] [TransOrd V]

/-! ## 3. One call -/

/-- A call on the view leaves view and listeners together. -/
theorem emitSnapshot_spec {m : EventManager q} (h : Consistent m) {e : QueryEvent D}
    (hfits : ∀ s ∈ m.queryView, QueryState.EventFits s e)
    (hexecutes : ∀ s ∈ m.queryView, QueryState.Executes s e) :
    ∃ m', m.emitSnapshot e = some m' ∧ Consistent m' ∧ m'.onlineState = m.onlineState := by
  cases h with
  | idle onlineState => exact ⟨_, rfl, Consistent.idle onlineState, rfl⟩
  | @listening onlineState info s h =>
      obtain ⟨s', snapshot, hemit, hgood, hraised, hsilent⟩ :=
        QueryState.emit_spec h.good (hfits s rfl) (hexecutes s rfl)
      unfold emitSnapshot
      dsimp only
      rw [hemit, Option.bind_eq_bind, Option.bind_some]
      dsimp only
      cases snapshot with
      | none =>
          obtain ⟨hsync, hdocs⟩ := hsilent rfl
          refine ⟨⟨onlineState, some info, some s'⟩, rfl,
            Consistent.listening ⟨h.nonempty, hgood, h.isSome, fun p hp => ?_, h.attends⟩, rfl⟩
          have hof := h.ofView p hp
          exact { hof with
            documents := hof.documents.trans hdocs.symm
            fromCache := by rw [hof.fromCache, hsync] }
      | some sn =>
          have hof := hraised sn rfl
          obtain ⟨listeners, htake, hattends, hlength⟩ :=
            onViewSnapshots_spec info hof h.ofView h.attends
          rw [htake]
          refine ⟨⟨onlineState, some ⟨listeners, some sn⟩, some s'⟩, rfl,
            Consistent.listening ⟨?_, hgood, rfl, fun p hp => ?_, hattends⟩, rfl⟩
          · rw [← List.length_pos_iff, hlength, List.length_pos_iff]
            exact h.nonempty
          · rw [← Option.some.inj hp]
            exact OfView.of_raised hof

theorem handleOnlineStateChange_spec {m : EventManager q} (h : Consistent m)
    (state : OnlineState) :
    ∃ m', m.handleOnlineStateChange state = some m' ∧ Consistent m' := by
  obtain ⟨m₁, hemit, hconsistent, -⟩ := emitSnapshot_spec h (e := .onlineState state)
    (fun _ _ => trivial) fun _ _ => trivial
  unfold handleOnlineStateChange
  rw [hemit, Option.bind_eq_bind, Option.bind_some]
  cases hconsistent with
  | idle onlineState => exact ⟨_, rfl, Consistent.idle state⟩
  | @listening onlineState info s h =>
      obtain ⟨listeners, htake, hattends, hlength⟩ :=
        QueryListenersInfo.handleOnlineStateChange_spec (fun p hp => (h.ofView p hp).whole)
          h.attends state
      dsimp only
      rw [htake]
      refine ⟨_, rfl, Consistent.listening ⟨?_, h.good, h.isSome, h.ofView, hattends⟩⟩
      rw [← List.length_pos_iff, hlength, List.length_pos_iff]
      exact h.nonempty

omit [TransOrd D] [TransOrd V] in
theorem removeQueryListener_spec {m : EventManager q} (h : Consistent m) (listener : ℕ) :
    ∃ m', m.removeQueryListener listener = some m' ∧ Consistent m' := by
  cases h with
  | idle onlineState => exact ⟨_, rfl, Consistent.idle onlineState⟩
  | @listening onlineState info s h =>
      unfold removeQueryListener
      dsimp only
      split
      · exact ⟨_, rfl, Consistent.idle onlineState⟩
      · next hsome =>
          refine ⟨_, rfl, Consistent.listening ⟨?_, h.good, h.isSome, h.ofView, fun e he => ?_⟩⟩
          · rw [List.isEmpty_iff] at hsome
            exact hsome
          · exact h.attends e (List.mem_of_mem_eraseP he)

/-- A listener that has just been added. -/
def added (q : Query D) (options : ListenOptions) (includeMetadataChanges : Bool)
    (onlineState : OnlineState) : Client q :=
  { Client.create q options includeMetadataChanges with
    listener := { QueryListener.create q options with onlineState := onlineState } }

omit [TransOrd D] [TransOrd V] in
theorem attends_added {options : ListenOptions} {includeMetadataChanges : Bool}
    (h : includeMetadataChanges = true → options.includeDocumentMetadataChanges = true)
    (onlineState : OnlineState) :
    Attends onlineState none (added q options includeMetadataChanges onlineState) :=
  ⟨⟨h, fun _ => ⟨rfl, rfl, fun _ hsn => absurd hsn (Option.not_mem_none _)⟩,
    fun hraised => absurd hraised Bool.false_ne_true⟩, rfl, rfl⟩

omit [TransOrd D] in
theorem greet_eq {m : EventManager q} {info : QueryListenersInfo q} {options : ListenOptions}
    {includeMetadataChanges : Bool}
    (h : includeMetadataChanges = true → options.includeDocumentMetadataChanges = true) :
    m.greet info options includeMetadataChanges
      = match info.viewSnapshot with
        | some snapshot =>
            (added q options includeMetadataChanges m.onlineState).onViewSnapshot snapshot
        | none => some (added q options includeMetadataChanges m.onlineState) := by
  have hcheck : ¬((none : Option (ViewSnapshot D q.comparator)).isSome ||
      (includeMetadataChanges && !options.includeDocumentMetadataChanges)) = true := by
    cases includeMetadataChanges with
    | false => exact Bool.false_ne_true
    | true => simp [h rfl]
  exact if_neg hcheck

omit [TransOrd D] in
theorem listen_eq {m : EventManager q} (h : m.queryView = none) (info : QueryListenersInfo q)
    (store : StoredDocuments D) (executed : MaybeDocumentMap D) (remoteKeys : DocumentKeySet)
    (synthesized : Option TargetChange) :
    m.listen info store executed remoteKeys synthesized
      = (QueryState.initializeView q store executed remoteKeys synthesized).bind fun r =>
          (info.onViewSnapshots (some r.2)).bind fun info =>
            some { m with info := some info, queryView := some r.1 } := by
  rw [listen, h]
  exact if_neg Bool.false_ne_true

theorem addQueryListener_spec {m : EventManager q} (h : Consistent m) (listener : ℕ)
    {options : ListenOptions} {includeMetadataChanges : Bool} {store : StoredDocuments D}
    (hstore : QueryState.KeyedStore store) {executed : MaybeDocumentMap D}
    {remoteKeys : DocumentKeySet} {synthesized : Option TargetChange}
    (hexecutes : m.queryView = none → QueryState.Finds q store executed)
    (hallowed : includeMetadataChanges = true → options.includeDocumentMetadataChanges = true)
    (hfits : m.queryView = none → View.Fits (View.create q remoteKeys) synthesized) :
    ∃ m', m.addQueryListener listener options includeMetadataChanges store executed remoteKeys
        synthesized = some m' ∧ Consistent m' := by
  have hattends := attends_added (q := q) hallowed
  cases h with
  | idle onlineState =>
      obtain ⟨s, sn, hinit, hgood, -, hraised⟩ :=
        QueryState.initializeView_spec hstore (hexecutes rfl) remoteKeys (hfits rfl)
      have hfirst : ∀ e ∈ [(listener, added q options includeMetadataChanges onlineState)],
          Attends onlineState none e.2 := by
        intro e he
        rw [List.mem_singleton.mp he]
        exact hattends onlineState
      obtain ⟨listeners, htake, hattends', hlength⟩ := onViewSnapshots_spec
        ⟨[(listener, added q options includeMetadataChanges onlineState)], none⟩ hraised
        (fun _ hp => absurd hp (Option.not_mem_none _)) hfirst
      refine ⟨⟨onlineState, some ⟨listeners, some sn⟩, some s⟩, ?_,
        Consistent.listening ⟨?_, hgood, rfl, fun p hp => ?_, hattends'⟩⟩
      · rw [addQueryListener, Option.getD_none, greet_eq hallowed, Option.bind_eq_bind,
          Option.bind_some]
        dsimp only [List.nil_append]
        rw [if_pos Option.isNone_none, listen_eq rfl, hinit, Option.bind_some, htake]
        rfl
      · rw [← List.length_pos_iff, hlength]
        exact Nat.one_pos
      · rw [← Option.some.inj hp]
        exact OfView.of_raised hraised
  | @listening onlineState info s h =>
      obtain ⟨sn, hsn⟩ := Option.isSome_iff_exists.mp h.isSome
      have hof := h.ofView sn hsn
      have hsucceeds : QueryListener.Succeeds
          (added q options includeMetadataChanges onlineState).listener.snapshot sn :=
        ⟨hof.told, hof.whole, hof.fresh, fun _ hp => absurd hp (Option.not_mem_none _),
          fun _ hp => absurd hp (Option.not_mem_none _)⟩
      obtain ⟨c, hc, hfaithful, -, hoptions, honline, hsnapshot⟩ :=
        Client.onViewSnapshot_spec (hattends onlineState).faithful hsucceeds
      refine ⟨⟨onlineState, some { info with listeners := info.listeners ++ [(listener, c)] },
        some s⟩, ?_,
        Consistent.listening ⟨?_, h.good, h.isSome, h.ofView, fun e he => ?_⟩⟩
      · rw [addQueryListener, Option.getD_some, greet_eq hallowed, hsn]
        dsimp only
        rw [hc, Option.bind_eq_bind, Option.bind_some]
        exact if_neg Bool.false_ne_true
      · exact List.append_ne_nil_of_right_ne_nil _ (List.cons_ne_nil _ _)
      · rcases List.mem_append.mp he with hold | hnew
        · exact h.attends e hold
        · rw [List.mem_singleton.mp hnew]
          refine ⟨hfaithful, honline, ?_⟩
          rw [hsnapshot, hoptions]
          dsimp only
          rw [hsn]
          rfl

/-- **A call that fits goes through.** -/
theorem step_spec {m : EventManager q} (h : Consistent m) {e : ListenEvent D}
    (hfits : EventFits m e) (hexecutes : Executes m e) : ∃ m', step m e = some m' ∧ Consistent m' := by
  cases e with
  | addQueryListener listener options includeMetadataChanges store keyed executed remoteKeys
      synthesized => exact addQueryListener_spec h listener keyed hexecutes hfits.1 hfits.2
  | removeQueryListener listener => exact removeQueryListener_spec h listener
  | changes docChanges targetChange executed =>
      obtain ⟨m', hemit, hconsistent, -⟩ := emitSnapshot_spec h hfits hexecutes
      exact ⟨m', hemit, hconsistent⟩
  | onlineState state => exact handleOnlineStateChange_spec h state
  | rejectListen => exact ⟨_, rfl, Consistent.idle m.onlineState⟩

omit [TransOrd D] in
/-- A view that a first listener makes starts from the local store that came with it. -/
theorem cache_of_listen {onlineState : OnlineState} {listener : ℕ} {options : ListenOptions}
    {includeMetadataChanges : Bool} {store : StoredDocuments D}
    {keyed : QueryState.KeyedStore store} {executed : MaybeDocumentMap D}
    {remoteKeys : DocumentKeySet} {synthesized : Option TargetChange} {m' : EventManager q}
    (hstep : step ⟨onlineState, none, none⟩ (.addQueryListener listener options
      includeMetadataChanges store keyed executed remoteKeys synthesized) = some m') :
    ∀ s ∈ m'.queryView, s.cache = store := by
  rw [step, addQueryListener, Option.bind_eq_bind, Option.bind_eq_some_iff] at hstep
  obtain ⟨client, -, hlisten⟩ := hstep
  dsimp only at hlisten
  rw [if_pos Option.isNone_none, listen_eq rfl, Option.bind_eq_some_iff] at hlisten
  obtain ⟨r, hinit, hrest⟩ := hlisten
  obtain ⟨info, -, hstate⟩ := Option.bind_eq_some_iff.mp hrest
  rw [← Option.some.inj hstate]
  rintro s ⟨⟩
  exact QueryState.cache_of_initializeView hinit

omit [TransOrd D] in
theorem greet_eq_none {m : EventManager q} {info : QueryListenersInfo q} {options : ListenOptions}
    (h : options.includeDocumentMetadataChanges = false) : m.greet info options true = none := by
  have hcheck : ((none : Option (ViewSnapshot D q.comparator)).isSome ||
      (true && !options.includeDocumentMetadataChanges)) = true := by
    rw [h]
    rfl
  exact if_pos hcheck

omit [TransOrd D] in
/-- Nothing else goes through. -/
theorem eventFits_of_step {m m' : EventManager q} (h : Consistent m) {e : ListenEvent D}
    (hstep : step m e = some m') : EventFits m e := by
  cases e with
  | addQueryListener listener options includeMetadataChanges store keyed executed remoteKeys
      synthesized =>
      rw [step, addQueryListener, Option.bind_eq_bind, Option.bind_eq_some_iff] at hstep
      obtain ⟨client, hgreet, hrest⟩ := hstep
      constructor
      · rintro rfl
        by_contra hnot
        rw [greet_eq_none (Bool.eq_false_iff.mpr hnot)] at hgreet
        cases hgreet
      · intro hview
        cases h with
        | listening => cases hview
        | idle onlineState =>
            dsimp only at hrest
            rw [if_pos Option.isNone_none, listen_eq rfl, Option.bind_eq_some_iff] at hrest
            obtain ⟨r, hinit, -⟩ := hrest
            exact QueryState.fits_of_initializeView hinit
  | changes docChanges targetChange executed =>
      intro s hs
      cases h with
      | idle => cases hs
      | listening h =>
          rw [step, emitSnapshot] at hstep
          dsimp only at hstep
          rw [Option.bind_eq_bind, Option.bind_eq_some_iff] at hstep
          obtain ⟨r, hemit, -⟩ := hstep
          rw [← Option.some.inj hs]
          exact QueryState.eventFits_of_emit hemit
  | removeQueryListener => exact trivial
  | onlineState => exact trivial
  | rejectListen => exact trivial

theorem consistent_run {es : List (ListenEvent D)} {m : EventManager q}
    (hexecutes : AllSteps step Executes (create q) es)
    (hrun : run step (create q) es = some m) : Consistent m := by
  refine run_invariant_of_allSteps (I := Consistent) ?_ (Consistent.idle .unknown) hexecutes hrun
  intro m e m' h he hstep
  obtain ⟨m'', hstep', h'⟩ := step_spec h (eventFits_of_step h hstep) he
  rw [hstep, Option.some.injEq] at hstep'
  rw [hstep']
  exact h'

/-! ## 4. Every order of calls -/

/-- What a listener's user has, while it is one of a view. -/
structure Serves (onlineState : OnlineState) (s : QueryState q) (c : Client q) : Prop where
  rows : c.listener.raisedInitialEvent = true →
    List.Forall₂ QuerySnapshot.SameData c.rows s.view.documentSet.toList
  exactRows : c.listener.raisedInitialEvent = true → c.includeMetadataChanges = true →
    c.rows = s.view.documentSet.toList
  metadata : c.listener.raisedInitialEvent = true →
    c.listener.options.includeQueryMetadataChanges = true →
    c.last.map QuerySnapshot.metadata = some
      ⟨s.view.documentSet.toList.any Document.hasLocalMutations, s.view.syncState == .local⟩
  stored : ∀ d ∈ c.rows, ∃ n, QueryState.cached q s.cache d.key = some n ∧
    (compare d.data n.data = .eq ∨ n.hasCommittedMutations = true)
  complete : c.listener.raisedInitialEvent = true → q.limitType = .none →
    ∀ k, (QueryState.cached q s.cache k).isSome = true → ∃ d ∈ c.rows, d.key = k
  waiting : c.listener.raisedInitialEvent = false → c.rows = [] ∧ c.last = none ∧
    s.view.syncState = .local ∧ onlineState ≠ .offline ∧
    (c.listener.options.waitForSyncWhenOnline = true ∨ s.view.documentSet.toList = [])

theorem serves_of_listening {onlineState : OnlineState} {info : QueryListenersInfo q}
    {s : QueryState q} (h : Listening onlineState info s) {e : ℕ × Client q}
    (he : e ∈ info.listeners) : Serves onlineState s e.2 := by
  obtain ⟨sn, hsn⟩ := Option.isSome_iff_exists.mp h.isSome
  have hof := h.ofView sn hsn
  obtain ⟨hfaithful, honline, hsnapshot⟩ := h.attends e he
  rw [hsn, Option.map_some] at hsnapshot
  -- what is known of the snapshot that the listener has, in terms of the view
  have hshowing : e.2.listener.raisedInitialEvent = true →
      List.Forall₂ QuerySnapshot.SameData e.2.rows s.view.documentSet.toList ∧
      (e.2.includeMetadataChanges = true → e.2.rows = s.view.documentSet.toList) ∧
      (e.2.listener.options.includeQueryMetadataChanges = true →
        e.2.last.map QuerySnapshot.metadata = some
          ⟨s.view.documentSet.toList.any Document.hasLocalMutations,
            s.view.syncState == .local⟩) := by
    intro hraised
    obtain ⟨sn', last, hsn', hlast, hrows, hexact, hmetadata⟩ := hfaithful.showing hraised
    rw [hsnapshot, Option.some.injEq] at hsn'
    subst hsn'
    rw [← hof.documents]
    refine ⟨hrows, hexact, fun hquery => ?_⟩
    rw [hlast, Option.map_some, hmetadata hquery, hof.documents, ← hof.hasPendingWrites,
      ← hof.fromCache]
    rfl
  refine ⟨fun hr => (hshowing hr).1, fun hr => (hshowing hr).2.1, fun hr => (hshowing hr).2.2,
    fun d hd => ?_, fun hr hlimit k hk => ?_, fun hwaiting => ?_⟩
  · by_cases hraised : e.2.listener.raisedInitialEvent = true
    · obtain ⟨d', hd', hsame⟩ := IndexEdit.exists_mem_of_forall₂ (hshowing hraised).1 hd
      obtain ⟨n, hn, hreflects⟩ :=
        h.good.follows.reflects d'.key d' (DocumentSet.mem_toList.mp hd')
      refine ⟨n, hsame.1 ▸ hn, ?_⟩
      rcases hreflects.data with hdata | hcommitted
      · exact Or.inl (TransCmp.eq_trans hsame.2 hdata)
      · exact Or.inr hcommitted.2
    · rw [(hfaithful.waiting (Bool.eq_false_iff.mpr hraised)).1] at hd
      cases hd
  · obtain ⟨d', hd'⟩ := Option.isSome_iff_exists.mp (h.good.complete hlimit k hk)
    obtain ⟨hmem, hkey⟩ := DocumentSet.getDocument_eq_some_iff.mp hd'
    obtain ⟨d, hd, hsame⟩ :=
      IndexEdit.exists_mem_of_forall₂ (List.Forall₂.flip (hshowing hr).1) hmem
    exact ⟨d, hd, hsame.1.trans hkey⟩
  · obtain ⟨hrows, hlast, hdue⟩ := hfaithful.waiting hwaiting
    have hnot := hdue _ hsnapshot
    rw [QueryListener.initialEventDue, honline, Bool.or_eq_false_iff, Bool.or_eq_false_iff,
      Bool.not_eq_false'] at hnot
    obtain ⟨hcache, hoffline, hempty⟩ := hnot
    refine ⟨hrows, hlast, ?_, ?_, ?_⟩
    · have hlocal := hof.fromCache.symm.trans hcache
      exact beq_iff_eq.mp hlocal
    · exact beq_eq_false_iff_ne.mp hoffline
    · rw [Bool.and_eq_false_iff, Bool.not_eq_false', Bool.not_eq_false'] at hempty
      rcases hempty with hwait | hnone
      · exact Or.inl hwait
      · rw [← hof.documents]
        exact Or.inr ((DocumentSet.isEmpty_iff _).mp hnone)

/-- **In every order of the calls each user has what the view has.** Once its first event
was due, a user's rows have the keys of those of the view and data that compares the same,
and are exactly those where the user asks for metadata; each row has data that compares the
same as that of the local store or is a write that was just acknowledged, and without a limit
none is missing. What a run of the query returns is what the local store has and the query
matches. Before the first event the user has nothing, the
view is not synced, the network is not known to be off, and there is nothing to show or
the user waits for the sync. The next call goes through if and only if it fits. -/
theorem listeners_follow {es : List (ListenEvent D)} {m : EventManager q}
    (hexecutes : AllSteps step Executes (create q) es)
    (hrun : run step (create q) es = some m) :
    (∀ info ∈ m.info, ∀ e ∈ info.listeners, ∃ s ∈ m.queryView, Serves m.onlineState s e.2) ∧
    (m.info.isSome = m.queryView.isSome) ∧
    ∀ e, Executes m e → ((step m e).isSome = true ↔ EventFits m e) := by
  have hconsistent := consistent_run hexecutes hrun
  refine ⟨?_, ?_, fun e he => ⟨fun h => ?_, fun h => ?_⟩⟩
  · intro info hinfo e he
    cases hconsistent with
    | idle => cases hinfo
    | @listening onlineState info' s h =>
        rw [← Option.some.inj hinfo] at he
        exact ⟨s, rfl, serves_of_listening h he⟩
  · cases hconsistent with
    | idle => rfl
    | listening => rfl
  · obtain ⟨m', hstep⟩ := Option.isSome_iff_exists.mp h
    exact eventFits_of_step hconsistent hstep
  · obtain ⟨m', hstep, -⟩ := step_spec hconsistent h he
    rw [hstep]
    rfl

/-- A user listens to the feed, and a submission is written. -/
theorem listeners_follow_write :
    ∃ (keyed : QueryState.KeyedStore (QueryState.storeOf twoSubmissions).get)
      (m : EventManager feedQuery),
      run step (create feedQuery)
        [.addQueryListener 0 ⟨false, false, false⟩ false (QueryState.storeOf twoSubmissions).get
            keyed (QueryState.foundIn feedQuery twoSubmissions) SortedMap.empty none,
          .changes (QueryState.storeOf [submission "curry" 8 .localMutations]) none
            (QueryState.foundIn feedQuery
              ([submission "curry" 8 .localMutations] ++ twoSubmissions))] = some m ∧
      ∀ info ∈ m.info, ∀ e ∈ info.listeners, ∃ s ∈ m.queryView, Serves m.onlineState s e.2 := by
  have hnodup : (([submission "curry" 8 .localMutations] ++ twoSubmissions).map
      Document.key).Nodup := by decide +kernel
  have hold : (twoSubmissions.map Document.key).Nodup := (List.nodup_cons.mp hnodup).2
  have keyed := QueryState.keyedStore_storeOf hold
  have hfinds := QueryState.finds_foundIn feedQuery hold
  have hwrite : View.KeyedMap (QueryState.storeOf [submission "curry" 8 .localMutations]) := by
    decide +kernel
  have hlisten : (create feedQuery).Executes (.addQueryListener 0 ⟨false, false, false⟩ false _
      keyed _ SortedMap.empty none) := fun _ => hfinds
  have hallowed : (create feedQuery).EventFits (.addQueryListener 0 ⟨false, false, false⟩ false _
      keyed (QueryState.foundIn feedQuery twoSubmissions) SortedMap.empty none) :=
    ⟨(fun h => nomatch h), fun _ _ h => nomatch h⟩
  obtain ⟨m₁, hstep₁, hm₁⟩ := step_spec (Consistent.idle (q := feedQuery) .unknown) hallowed hlisten
  have hcache : ∀ s ∈ m₁.queryView, s.cache = (QueryState.storeOf twoSubmissions).get :=
    cache_of_listen hstep₁
  have hafter : m₁.Executes (.changes (QueryState.storeOf [submission "curry" 8 .localMutations])
      none (QueryState.foundIn feedQuery
        ([submission "curry" 8 .localMutations] ++ twoSubmissions))) := by
    intro s hs
    rw [QueryState.Executes, hcache s hs, QueryState.apply_storeOf hnodup]
    exact QueryState.finds_foundIn feedQuery hnodup
  have hchange : m₁.EventFits (.changes (QueryState.storeOf [submission "curry" 8 .localMutations])
      none (QueryState.foundIn feedQuery
        ([submission "curry" 8 .localMutations] ++ twoSubmissions))) :=
    fun _ _ => ⟨hwrite, fun _ h => nomatch h⟩
  obtain ⟨m₂, hstep₂, -⟩ := step_spec hm₁ hchange hafter
  have hrun : run step (create feedQuery)
      [.addQueryListener 0 ⟨false, false, false⟩ false (QueryState.storeOf twoSubmissions).get
          keyed (QueryState.foundIn feedQuery twoSubmissions) SortedMap.empty none,
        .changes (QueryState.storeOf [submission "curry" 8 .localMutations]) none
          (QueryState.foundIn feedQuery
            ([submission "curry" 8 .localMutations] ++ twoSubmissions))] = some m₂ := by
    rw [run_cons, create, hstep₁, Option.bind_some, run_cons, hstep₂, Option.bind_some, run_nil]
  have hexecutes : AllSteps step Executes (create feedQuery)
      [.addQueryListener 0 ⟨false, false, false⟩ false (QueryState.storeOf twoSubmissions).get
          keyed (QueryState.foundIn feedQuery twoSubmissions) SortedMap.empty none,
        .changes (QueryState.storeOf [submission "curry" 8 .localMutations]) none
          (QueryState.foundIn feedQuery
            ([submission "curry" 8 .localMutations] ++ twoSubmissions))] := by
    intro a e b htakes
    rw [create, takes_cons hstep₁, takes_cons hstep₂] at htakes
    rcases htakes with ⟨rfl, rfl, -⟩ | ⟨rfl, rfl, -⟩ | hnil
    · exact hlisten
    · exact hafter
    · exact absurd hnil takes_nil
  exact ⟨keyed, m₂, hrun, (listeners_follow hexecutes hrun).1⟩

end EventManager

end FreeFood.Firestore
