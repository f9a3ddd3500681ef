/-
The snapshot listeners of one `FoodEventViewModel`.

`getEvents` adds a listener to the query and keeps nothing that could take it away
again. The initializer calls it once, and the views that hold the view model call it
each time they appear. So the query is a channel, in the sense of `Lib.Broadcast`,
whose listeners only an error ends, and each change of it is assigned to `foodEvents`
once for each of them.
-/
import FreeFood.FoodEventViewModel
import FreeFood.Lib.Broadcast

set_option autoImplicit false

namespace FreeFood.Feed

open Document Transition Broadcast FreeFood.Platform FreeFood.FoodEventModel

variable {L : Type} (K : Codecs L)

/-- The documents of a snapshot. -/
abbrev Documents (L : Type) := List ((_ : String) × Value L)

/-- A view model with the listeners it has registered. -/
structure FeedListeners (L : Type) where
  viewModel : FoodEventViewModel := {}
  query : Channel (Documents L)

/-- `getEvents`: whatever was registered before, `addSnapshotListener` once more. -/
def FeedListeners.getEvents (f : FeedListeners L) : FeedListeners L :=
  { f with query := f.query.listen }

/-- `FoodEventViewModel.init`, while the query has these documents. -/
def FeedListeners.new (documents : Documents L) : FeedListeners L :=
  ({ query := { current := documents } } : FeedListeners L).getEvents

/-- What happens to it: `onAppear` of a view that holds it, a change of the query, and
a snapshot or an error that one of the listeners is handed. -/
inductive FeedEvent (L : Type) where
  | appear
  | change (documents : Documents L)
  | snapshot (listener : ℕ)
  | error (listener : ℕ)

def feedStep (f : FeedListeners L) : FeedEvent L → Option (FeedListeners L)
  | .appear => some f.getEvents
  | .change documents => some { f with query := f.query.change documents }
  | .snapshot listener => (f.query.deliver listener).map fun r =>
      { viewModel := f.viewModel.snapshot K (some r.1.body), query := r.2 }
  -- a listener that is handed an error is handed nothing after it
  | .error listener => (f.query.close listener).map fun r =>
      { viewModel := f.viewModel.snapshot K none, query := r.2 }

/-- What is seen of a step: a change of the query and the listeners there were, an
assignment of `foodEvents` with the change that caused it, and a snapshot that will
not be handed to the listener it was for. -/
inductive FeedObs (L : Type) where
  | changed (number listeners : ℕ) (documents : Documents L)
  | assigned (cause : Option ℕ) (foodEvents : List FoodEvent)
  | ended (cause : Option ℕ)

def feedObs (f : FeedListeners L) : FeedEvent L → List (FeedObs L)
  | .appear => []
  | .change documents => [.changed f.query.changes f.query.listeners.length documents]
  | .snapshot listener => ((f.query.deliver listener).map fun r =>
      [.assigned r.1.cause (f.viewModel.snapshot K (some r.1.body)).foodEvents]).getD []
  | .error listener => ((f.query.close listener).map fun r =>
      r.1.map fun m => .ended m.cause).getD []

/-! ## The query is a channel -/

/-- What happens to the query. -/
def FeedEvent.onQuery : FeedEvent L → Event (Documents L)
  | .appear => .listen
  | .change documents => .change documents
  | .snapshot listener => .deliver listener
  | .error listener => .close listener

/-- What is seen of the query, as it is seen of the view model. -/
def see : Obs (Documents L) → FeedObs L
  | .changed number listeners documents => .changed number listeners documents
  | .delivered m => .assigned m.cause (fetchData K m.body)
  | .lost m => .ended m.cause

variable {K}

/-- A step of the view model is one of the query, and is seen as it. -/
theorem feedStep_query {f f' : FeedListeners L} {e : FeedEvent L} (h : feedStep K f e = some f') :
    step f.query e.onQuery = some f'.query ∧ feedObs K f e = (obs f.query e.onQuery).map (see K) := by
  rcases e with _ | documents | i | i
  · obtain rfl := Option.some.inj h
    exact ⟨rfl, rfl⟩
  · obtain rfl := Option.some.inj h
    exact ⟨rfl, rfl⟩
  · obtain ⟨r, hr, rfl⟩ := Option.map_eq_some_iff.mp h
    constructor
    · exact Option.map_eq_some_iff.mpr ⟨r, hr, rfl⟩
    · rw [feedObs, FeedEvent.onQuery, obs, hr]
      rfl
  · obtain ⟨r, hr, rfl⟩ := Option.map_eq_some_iff.mp h
    constructor
    · exact Option.map_eq_some_iff.mpr ⟨r, hr, rfl⟩
    · rw [feedObs, FeedEvent.onQuery, obs, hr]
      show r.1.map (fun m => .ended m.cause) = (r.1.map .lost).map (see K)
      rw [List.map_map]
      rfl

/-- So a run of the view model is a run of the query that begins with the listener of
the initializer. -/
theorem run_query {documents : Documents L} {es : List (FeedEvent L)} {f : FeedListeners L}
    {log : List (FeedObs L)}
    (h : run (observed (feedStep K) (feedObs K)) (FeedListeners.new documents, []) es
      = some (f, log)) :
    ∃ log', run (observed step obs) ({ current := documents }, [])
        (.listen :: es.map FeedEvent.onQuery) = some (f.query, log')
      ∧ log = log'.map (see K) := by
  refine run_induction (motive := fun es (s : FeedListeners L × List (FeedObs L)) =>
    ∃ log', run (observed step obs) ({ current := documents }, [])
        (.listen :: es.map FeedEvent.onQuery) = some (s.1.query, log')
      ∧ s.2 = log'.map (see K)) ?_ ?_ es _ h
  · exact ⟨[], rfl, rfl⟩
  · rintro es a e b - ⟨log', hrun, hlog⟩ hab
    obtain ⟨hstep, hb⟩ := observed_eq_some.mp hab
    obtain ⟨hquery, hobs⟩ := feedStep_query hstep
    have hnext : observed step obs (a.1.query, log') e.onQuery
        = some (b.1.query, log' ++ obs a.1.query e.onQuery) :=
      observed_eq_some.mpr ⟨hquery, rfl⟩
    refine ⟨log' ++ obs a.1.query e.onQuery, ?_, ?_⟩
    · rw [List.map_append, ← List.cons_append, List.map_singleton, run_concat, hrun,
        Option.bind_some]
      exact hnext
    · rw [hb, hlog, hobs, List.map_append]

/-! ## Listeners and assignments -/

def FeedEvent.isAppear : FeedEvent L → Bool
  | .appear => true
  | _ => false

def FeedEvent.isError : FeedEvent L → Bool
  | .error _ => true
  | _ => false

/-- The change is assigned. -/
def FeedObs.assigns (k : ℕ) : FeedObs L → Bool
  | .assigned cause _ => cause = some k
  | _ => false

/-- The change is not assigned, because a listener has ended. -/
def FeedObs.ends (k : ℕ) : FeedObs L → Bool
  | .ended cause => cause = some k
  | _ => false

theorem countP_onQuery (es : List (FeedEvent L)) :
    (es.map FeedEvent.onQuery).countP Event.isListen = es.countP FeedEvent.isAppear
      ∧ (es.map FeedEvent.onQuery).countP Event.isClose = es.countP FeedEvent.isError := by
  rw [List.countP_map, List.countP_map]
  exact ⟨List.countP_congr fun e _ => by rcases e <;> rfl,
    List.countP_congr fun e _ => by rcases e <;> rfl⟩

/-- An assignment is a delivery, and what has ended is lost. -/
theorem countP_see (log : List (Obs (Documents L))) (k : ℕ) :
    (log.map (see K)).countP (FeedObs.assigns k) = log.countP (Obs.delivers k)
      ∧ (log.map (see K)).countP (FeedObs.ends k) = log.countP (Obs.loses k) := by
  rw [List.countP_map, List.countP_map]
  exact ⟨List.countP_congr fun o _ => by rcases o <;> rfl,
    List.countP_congr fun o _ => by rcases o <;> rfl⟩

theorem changed_of_see {log : List (Obs (Documents L))} {k n : ℕ} {documents : Documents L}
    (h : .changed k n documents ∈ log.map (see K)) : .changed k n documents ∈ log := by
  obtain ⟨o, ho, heq⟩ := List.mem_map.mp h
  rcases o with ⟨k', n', documents'⟩ | m | m
  · obtain ⟨rfl, rfl, rfl⟩ := FeedObs.changed.inj heq
    exact ho
  · exact absurd heq (by simp [see])
  · exact absurd heq (by simp [see])

theorem delivered_of_see {log : List (Obs (Documents L))} {cause : Option ℕ}
    {foodEvents : List FoodEvent} (h : .assigned cause foodEvents ∈ log.map (see K)) :
    ∃ m, .delivered m ∈ log ∧ m.cause = cause ∧ foodEvents = fetchData K m.body := by
  obtain ⟨o, ho, heq⟩ := List.mem_map.mp h
  rcases o with ⟨k, n, documents⟩ | m | m
  · exact absurd heq (by simp [see])
  · obtain ⟨hcause, rfl⟩ := FeedObs.assigned.inj heq
    exact ⟨m, ho, hcause, rfl⟩
  · exact absurd heq (by simp [see])

/-- **Listeners add up, and so do assignments.** In every run of a view model there is
one listener for the initializer and one more for each appearance, less those that an
error has ended. Each change of the query is assigned once for every listener there was
at the change, unless it is still on its way to it or the listener has ended; and every
time what is assigned is what the change's documents decode to. -/
theorem assigned_once_per_listener {documents : Documents L} {es : List (FeedEvent L)}
    {f : FeedListeners L} {log : List (FeedObs L)}
    (h : run (observed (feedStep K) (feedObs K)) (FeedListeners.new documents, []) es
      = some (f, log)) :
    f.query.listeners.length + es.countP FeedEvent.isError = 1 + es.countP FeedEvent.isAppear
      ∧ ∀ a docs b, Takes (feedStep K) (FeedListeners.new documents) es a (.change docs) b →
        log.countP (FeedObs.assigns a.query.changes) + log.countP (FeedObs.ends a.query.changes)
            + f.query.messages.countP (Message.isOf a.query.changes) = a.query.listeners.length
          ∧ ∀ foodEvents, .assigned (some a.query.changes) foodEvents ∈ log →
              foodEvents = docs.filterMap fun document => FoodEvent.decode K document.2 := by
  obtain ⟨log', hrun, rfl⟩ := run_query h
  constructor
  · obtain ⟨hlisten, hclose⟩ := countP_onQuery es
    have hlength : f.query.listeners.length
          + (.listen :: es.map FeedEvent.onQuery).countP Event.isClose
        = 0 + (.listen :: es.map FeedEvent.onQuery).countP Event.isListen :=
      length_listeners (run_of_observed hrun)
    rw [List.countP_cons_of_neg (by simp [Event.isClose]), List.countP_cons_of_pos rfl] at hlength
    omega
  · intro a docs b hab
    have hconserved := conserved rfl hrun
    have hchanged := changed_of_see (mem_log_of_takes h hab (List.mem_singleton.mpr rfl))
    constructor
    · obtain ⟨hassigns, hends⟩ := countP_see (K := K) log' a.query.changes
      rw [hassigns, hends]
      exact hconserved.account_eq _ _ _ hchanged
    · intro foodEvents hassigned
      obtain ⟨m, hm, hcause, rfl⟩ := delivered_of_see hassigned
      rw [hconserved.body_eq _ _ _ hchanged m hcause (Or.inr hm), fetchData, List.filterMap_map]
      rfl

/-- The view appears once, and the query changes. -/
def appearsOnce : List (FeedEvent Leaf) :=
  [.appear, .snapshot 0, .snapshot 1, .change [⟨"Jq3x", .map []⟩], .snapshot 0, .snapshot 1]

/-- Then two listeners are active, and the change is assigned twice. -/
theorem appearsOnce_assigns_twice :
    (¬ ∀ (es : List (FeedEvent Leaf)) (f : FeedListeners Leaf),
      run (feedStep (Codecs.firestore fun _ => 0)) (FeedListeners.new []) es = some f →
        f.query.listeners.length ≤ 1)
      ∧ ¬ ∀ (es : List (FeedEvent Leaf)) (f : FeedListeners Leaf) (log : List (FeedObs Leaf))
        (k n : ℕ) (docs : Documents Leaf),
        run (observed (feedStep (Codecs.firestore fun _ => 0)) (feedObs (Codecs.firestore fun _ => 0)))
            (FeedListeners.new [], []) es = some (f, log) →
          .changed k n docs ∈ log → f.query.messages = [] →
          log.countP (FeedObs.assigns k) = 1 := by
  constructor
  · intro hall
    exact absurd (hall appearsOnce _ rfl) (by decide)
  · intro hall
    -- the change is the third thing seen
    refine absurd (hall appearsOnce _ _ 0 2 [⟨"Jq3x", .map []⟩] rfl ?_ rfl) (by decide)
    exact List.mem_of_getElem? (show _[2]? = some _ from rfl)

/-- The law at that run. -/
theorem assigned_once_per_listener_appearsOnce :
    ∃ f log, run (observed (feedStep (Codecs.firestore fun _ => 0))
          (feedObs (Codecs.firestore fun _ => 0))) (FeedListeners.new [], []) appearsOnce
        = some (f, log)
      ∧ f.query.listeners.length + appearsOnce.countP FeedEvent.isError
        = 1 + appearsOnce.countP FeedEvent.isAppear :=
  ⟨_, _, rfl, (assigned_once_per_listener
    (show run (observed (feedStep (Codecs.firestore fun _ => 0)) _) (FeedListeners.new [], [])
      appearsOnce = some (_, _) from rfl)).1⟩

end FreeFood.Feed
