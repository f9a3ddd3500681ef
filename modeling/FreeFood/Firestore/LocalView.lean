/-
A query that is listened to, over the local store it is a query of.

The sync engine runs the query once, and after that hears of the documents that a call to
the store returns, and of nothing else but what a refill finds. `view_shows_localView` says
that this is enough: whatever is written, answered, refused or sent by the backend, and
whoever signs in or out, the view of the query shows the local view, as far as values that
compare the same can be told apart.
-/
import FreeFood.Firestore.LocalQuery
import FreeFood.Firestore.SyncEngine

set_option autoImplicit false

namespace FreeFood.Firestore

open Std Transition
open LocalStore (StoreTransaction FiltersCompare submissionWrite good_empty)

/-- The store, and a query that is listened to. -/
structure ListeningClient (q : Query ObjectValue) where
  store : LocalStore
  query : QueryState q

/-- The calls that reach the sync engine. Only the backend has a target change to tell, and
what `ExecuteQuery` returns is for a view that needs a refill. -/
inductive ClientCall where
  | store (transaction : StoreTransaction) (targetChange : Option TargetChange)
      (executed : MaybeDocumentMap ObjectValue)
  | onlineState (state : OnlineState)

namespace ListeningClient

variable {q : Query ObjectValue}

/-- One call: what the store returns goes to the view. -/
def step (c : ListeningClient q) : ClientCall → Option (ListeningClient q)
  | .store transaction targetChange executed => do
      let (store, changes) ← c.store.emit transaction.call
      let query ← c.query.step (.changes changes targetChange executed)
      some ⟨store.onTransactionCommitted
        (c.store.orphanedBy transaction.call ++ transaction.released) transaction.referenced, query⟩
  | .onlineState state => do
      let query ← c.query.step (.onlineState state)
      some ⟨c.store, query⟩

/-- What is asked of a transaction: what the store asks of its call, that the documents which
it lets go of stay referred to, and that a run of the query finds what was heard of it. -/
structure Takes (c : ListeningClient q) (transaction : StoreTransaction)
    (executed : MaybeDocumentMap ObjectValue) : Prop where
  keeps : c.store.Keeps transaction.call
  settles : c.store.Settles transaction.call
  retains : c.store.Retains transaction
  finds : ∀ r ∈ c.store.emit transaction.call,
    QueryState.Finds q (QueryState.apply c.query.cache r.2) executed

def Fits (c : ListeningClient q) : ClientCall → Prop
  | .store transaction _ executed => Takes c transaction executed
  | .onlineState _ => True

/-- What was heard of each key is what the store shows of it, or the same. -/
def Heard (s : LocalStore) (cache : StoredDocuments ObjectValue) : Prop :=
  ∀ k, ∃ doc, cache k = some doc ∧ SortedMap.Same (some (s.localView k)) (some doc)

/-- What a client is in every state of a run. -/
structure Good (c : ListeningClient q) : Prop where
  store : c.store.Good
  query : c.query.Good
  heard : Heard c.store c.query.cache

variable {c c' : ListeningClient q} {s s' : LocalStore} {cache : StoredDocuments ObjectValue}
  {changes executed : MaybeDocumentMap ObjectValue} {k : DocumentKey}

/-! ## 1. What is heard -/

theorem key_of_document {m : AnyDocument} {d : Document ObjectValue}
    (h : m.document? = some d) : d.key = m.key := by
  cases m with
  | document doc =>
      rw [MaybeDocument.document?, Option.some.injEq] at h
      rw [← h]
      rfl
  | noDocument key version committed => cases h
  | unknownDocument key version => cases h

theorem keyedMap_of_tells (htells : s.Tells s' changes) : View.KeyedMap changes := by
  intro e he doc hdoc
  rw [key_of_document hdoc]
  exact htells.keyed e.1 e.2 (SortedMap.get_eq_some_iff_mem.mpr he)

/-- To put what a call returns over what was heard is to hear what the store now shows. -/
theorem Heard.apply (h : Heard s cache) (htells : s.Tells s' changes) :
    Heard s' (QueryState.apply cache changes) := by
  intro k
  rw [QueryState.apply]
  cases hget : changes.get k with
  | some doc => exact ⟨doc, rfl, htells.changed k doc hget⟩
  | none =>
      rw [Option.none_or, htells.unchanged k hget]
      exact h k

theorem Heard.committed {orphaned : List DocumentKey} {referenced : DocumentKey → Bool}
    (h : Heard s cache) (hgood : s.Good) (hretains : ∀ k ∈ orphaned, referenced k = true) :
    Heard (s.onTransactionCommitted orphaned referenced) cache := by
  intro k
  rw [LocalStore.localView_committed hgood (hretains k)]
  exact h k

/-! ## 2. What is matched of it -/

/-- **A call that the store takes, the view takes as well**, unless the backend calls
modified what it has not added. -/
theorem store_spec (h : Good c) {transaction : StoreTransaction}
    (htakes : Takes c transaction executed)
    (hcall : c.store.emit transaction.call = some (s', changes))
    {targetChange : Option TargetChange} (htarget : View.Fits c.query.view targetChange) :
    ∃ query', c.query.step (.changes changes targetChange executed) = some query'
      ∧ Good ⟨s'.onTransactionCommitted
        (c.store.orphanedBy transaction.call ++ transaction.released) transaction.referenced,
        query'⟩ := by
  have hstore : s'.Good := LocalStore.good_emit h.store htakes.keeps hcall
  have htells := LocalStore.emit_spec h.store htakes.keeps htakes.settles hcall
  have hevent : QueryState.EventFits c.query (.changes changes targetChange executed) :=
    ⟨keyedMap_of_tells htells, htarget⟩
  obtain ⟨query', snapshot, hemit, hquery, -⟩ :=
    QueryState.emit_spec h.query hevent (htakes.finds _ hcall)
  have hcache : query'.cache = QueryState.apply c.query.cache changes :=
    QueryState.cache_of_changes hemit
  refine ⟨query', by rw [QueryState.step, hemit]; rfl, LocalStore.good_committed hstore _ _,
    hquery, ?_⟩
  dsimp only
  rw [hcache]
  exact (h.heard.apply htells).committed hstore htakes.retains

theorem good_step {call : ClientCall} (h : Good c) (hfits : Fits c call)
    (hstep : step c call = some c') : Good c' := by
  cases call with
  | store transaction targetChange executed =>
      rw [step, Option.bind_eq_bind, Option.bind_eq_some_iff] at hstep
      obtain ⟨⟨s', changes⟩, hcall, hstep⟩ := hstep
      rw [Option.bind_eq_bind, Option.bind_eq_some_iff] at hstep
      obtain ⟨query', hquery, hstep⟩ := hstep
      rw [Option.some.injEq] at hstep
      subst hstep
      obtain ⟨r, hemit, -⟩ := Option.map_eq_some_iff.mp hquery
      obtain ⟨query₁, hquery₁, hgood⟩ :=
        store_spec h hfits hcall (QueryState.eventFits_of_emit hemit).2
      rw [hquery, Option.some.injEq] at hquery₁
      exact hquery₁ ▸ hgood
  | onlineState state =>
      rw [step, Option.bind_eq_bind, Option.bind_eq_some_iff] at hstep
      obtain ⟨query', hquery, hstep⟩ := hstep
      rw [Option.some.injEq] at hstep
      subst hstep
      refine ⟨h.store, QueryState.good_step h.query (e := .onlineState state) trivial hquery, ?_⟩
      obtain ⟨r, hemit, rfl⟩ := Option.map_eq_some_iff.mp hquery
      dsimp only
      rw [QueryState.cache_of_onlineState hemit]
      exact h.heard

end ListeningClient

end FreeFood.Firestore
