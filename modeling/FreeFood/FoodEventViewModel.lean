/-
`ViewModels/FoodEventViewModel.swift`: the feed.

The writer of an event and the reader of the feed meet only in the collection. The
writer stores an event under the id that the event itself carries. The reader asks
for the documents that have a `dateCreated` at their top level, drops those that do
not decode, and says nothing of them. `feed_exact` is about any writes at all, and
`run_writeStep_of_world` says that what the clients do to the collection is such
writes.
-/
import FreeFood.Deployment
import Mathlib.Data.Set.List

set_option autoImplicit false

namespace FreeFood.Feed

open Document Transition FreeFood.Platform FreeFood.FoodEventModel FreeFood.DataFetch
open FreeFood.FoodSubmission FreeFood.Deployment

variable {L : Type} (K : Codecs L)

/-! ## The view model -/

/-- The field that `order(by: "dateCreated", descending: true)` orders by. -/
def dateCreated? (doc : Value L) : Option Date := (doc.field? "dateCreated").bind K.date.read

/-- The events that the listener of `fetchData` makes of the documents of a snapshot. -/
def fetchData (documents : List ((_ : String) × Value L)) : List FoodEvent :=
  (documents.map fun document => FoodEvent.decode K document.2).filterMap id

/-- The published property of a `FoodEventViewModel`. -/
structure FoodEventViewModel where
  foodEvents : List FoodEvent := []

/-- A snapshot is delivered, with its documents or with an error. -/
def FoodEventViewModel.snapshot (vm : FoodEventViewModel) :
    Option (List ((_ : String) × Value L)) → FoodEventViewModel
  | none => vm
  | some documents => { vm with foodEvents := fetchData K documents }

/-! ## The writes -/

/-- A write of an event, by a run of the callback of `storeFoodSubmission`. -/
structure Write where
  request : FetchRequest
  username : String
  stamp : Stamp

/-- The event written. -/
def Write.event (x : Write) : FoodEvent := x.request.args.event x.request.UID x.username x.stamp

/-- A write to the collection, under an id not in use. -/
def writeStep (c : Collection (Value L)) (x : Write) : Option (Collection (Value L)) :=
  if x.stamp.docID ∈ c then none else some (storeEvent K x.request c x.username x.stamp)

/-- An event as it is stored: under its own id. -/
def entry (e : FoodEvent) : (_ : String) × Value L := ⟨e.id, FoodEvent.encode K e⟩

variable {K}

/-- The collection after a run of writes: the events written, the last in front. -/
theorem entries_of_writes {writes : List Write} {c : Collection (Value L)}
    (h : run (writeStep K) ∅ writes = some c) :
    c.entries = ((writes.map Write.event).map (entry K)).reverse := by
  refine run_induction
    (motive := fun es c => c.entries = ((es.map Write.event).map (entry K)).reverse)
    rfl ?_ writes c h
  intro es a x b _ ha hab
  rw [writeStep, Option.ite_none_left_eq_some] at hab
  obtain ⟨hfresh, hb⟩ := hab
  -- under an id not in use the write adds a document and replaces none
  rw [← Option.some.inj hb, storeEvent, Collection.entries_setData_of_notMem _ hfresh, ha]
  simp only [List.map_append, List.reverse_append]
  rfl

theorem dateCreated?_encode (e : FoodEvent) :
    dateCreated? K (FoodEvent.encode K e) = some e.dateCreated :=
  K.date.decode_encode e.dateCreated

/-- Stored events are read back, none is dropped. -/
theorem fetchData_map_entry (es : List FoodEvent) : fetchData K (es.map (entry K)) = es := by
  induction es with
  | nil => rfl
  | cons e es ih =>
      unfold fetchData at ih ⊢
      have hhead : id (FoodEvent.decode K (entry K e).2) = some e := FoodEvent.decode_encode K e
      rw [List.map_cons, List.map_cons, List.filterMap_cons_some hhead, ih]

/-- Every document stored has the field, so an ordered query leaves none out. -/
theorem filter_dateCreated {writes : List Write} {c : Collection (Value L)}
    (h : run (writeStep K) ∅ writes = some c) :
    c.entries.filter (fun d => (dateCreated? K d.2).isSome) = c.entries := by
  rw [List.filter_eq_self, entries_of_writes h]
  intro d hd
  rw [List.mem_reverse, List.mem_map] at hd
  obtain ⟨e, -, rfl⟩ := hd
  show (dateCreated? K (FoodEvent.encode K e)).isSome = true
  rw [dateCreated?_encode]
  rfl

/-- What an ordered query finds after a run of writes: the events written, in some
order. -/
theorem exists_map_entry {writes : List Write} {c : Collection (Value L)}
    (h : run (writeStep K) ∅ writes = some c) {documents : List ((_ : String) × Value L)}
    (hdocuments : Collection.IsOrdered (dateCreated? K) c documents) :
    ∃ es : List FoodEvent, documents = es.map (entry K) ∧ documents.Perm c.entries := by
  have hperm : documents.Perm c.entries := by
    have hfilter := hdocuments.1
    rwa [filter_dateCreated h] at hfilter
  have hrange : documents ∈ Set.range (List.map (entry K)) := by
    rw [Set.range_list_map]
    intro d hd
    have hstored := hperm.subset hd
    rw [entries_of_writes h, List.mem_reverse, List.mem_map] at hstored
    obtain ⟨e, -, he⟩ := hstored
    exact ⟨e, he⟩
  obtain ⟨es, hes⟩ := hrange
  exact ⟨es, hes.symm, hperm⟩

/-- And any order of the events written that puts the latest first is one that the
query can find them in. -/
theorem isOrdered_map_entry {writes : List Write} {c : Collection (Value L)}
    (h : run (writeStep K) ∅ writes = some c) {es : List FoodEvent}
    (hes : es.Perm (writes.map Write.event))
    (hordered : es.Pairwise fun a b => b.dateCreated ≤ a.dateCreated) :
    Collection.IsOrdered (dateCreated? K) c (es.map (entry K)) := by
  constructor
  · rw [filter_dateCreated h, entries_of_writes h]
    exact (hes.map (entry K)).trans (List.reverse_perm _).symm
  · rw [List.pairwise_map]
    refine hordered.imp ?_
    intro a b hab x y hx hy
    rw [← Option.some.inj ((dateCreated?_encode a).symm.trans hx),
      ← Option.some.inj ((dateCreated?_encode b).symm.trans hy)]
    exact hab

/-- **The feed shows exactly what was stored.** After any run of writes, and whatever
was published before, a snapshot of the ordered query publishes every event written
exactly once and as it was written, no two under one id, the latest first. -/
theorem feed_exact {writes : List Write} {c : Collection (Value L)}
    (h : run (writeStep K) ∅ writes = some c) {documents : List ((_ : String) × Value L)}
    (hdocuments : Collection.IsOrdered (dateCreated? K) c documents) (vm : FoodEventViewModel) :
    (vm.snapshot K (some documents)).foodEvents.Perm (writes.map Write.event)
      ∧ ((vm.snapshot K (some documents)).foodEvents.map FoodEvent.id).Nodup
      ∧ (vm.snapshot K (some documents)).foodEvents.Pairwise
          (fun a b => b.dateCreated ≤ a.dateCreated) := by
  obtain ⟨es, rfl, hperm⟩ := exists_map_entry h hdocuments
  have hevents : (vm.snapshot K (some (es.map (entry K)))).foodEvents = es := fetchData_map_entry es
  rw [hevents]
  refine ⟨?_, ?_, ?_⟩
  · -- reading is the same for both orders
    have hread : (fetchData K (es.map (entry K))).Perm (fetchData K c.entries) := by
      unfold fetchData
      exact (hperm.map _).filterMap id
    rw [entries_of_writes h, ← List.map_reverse, fetchData_map_entry, fetchData_map_entry] at hread
    exact hread.trans (List.reverse_perm _)
  · -- an event carries the id it is stored under, and a collection's ids are distinct
    have hkeys : (es.map (entry K)).map Sigma.fst = es.map FoodEvent.id := by
      rw [List.map_map]
      rfl
    rw [← hkeys, (hperm.map Sigma.fst).nodup_iff]
    exact c.nodupKeys
  · have hordered := List.pairwise_map.mp hdocuments.2
    refine hordered.imp ?_
    intro a b hab
    exact hab a.dateCreated b.dateCreated (dateCreated?_encode a) (dateCreated?_encode b)

/-- Two writes of two clients, the second with the later date. -/
def twoWrites : List Write :=
  [⟨⟨0, 0, "ada", ⟨⟨LocationSearch.stamp.placemark⟩, "Stamp", "1101", "Subway", "", ""⟩⟩,
      "ada", ⟨"Jq3x", 5, 0⟩⟩,
    ⟨⟨1, 1, "bob", ⟨⟨mckeldin.placemark⟩, "McKeldin", "6137", "Chipotle", "", ""⟩⟩,
      "bob", ⟨"Pv81", 7, 1⟩⟩]

/-- The law at those writes. -/
theorem feed_exact_twoWrites :
    ∃ c documents, run (writeStep (Codecs.firestore fun _ => 0)) ∅ twoWrites = some c
      ∧ Collection.IsOrdered (dateCreated? (Codecs.firestore fun _ => 0)) c documents
      ∧ (({} : FoodEventViewModel).snapshot (Codecs.firestore fun _ => 0)
          (some documents)).foodEvents.Perm (twoWrites.map Write.event) := by
  have hordered := isOrdered_map_entry
    (show run (writeStep (Codecs.firestore fun _ => 0)) ∅ twoWrites = some _ from rfl)
    (List.reverse_perm (twoWrites.map Write.event)) (by decide)
  exact ⟨_, _, rfl, hordered, (feed_exact
    (show run (writeStep (Codecs.firestore fun _ => 0)) ∅ twoWrites = some _ from rfl)
    hordered {}).1⟩

/-! ## The writes of the clients -/

/-- The runs of the callback for one answer are writes, if their ids are new. -/
theorem run_writeStep_answer (r : FetchRequest) (l : List (String × Stamp))
    (c : Collection (Value L)) (hnodup : (l.map fun p => p.2.docID).Nodup)
    (hfresh : ∀ p ∈ l, p.2.docID ∉ c) :
    run (writeStep K) c (l.map fun p => ⟨r, p.1, p.2⟩)
      = some (l.foldl (fun c p => storeEvent K r c p.1 p.2) c) := by
  induction l generalizing c with
  | nil => rfl
  | cons p l ih =>
      rw [List.map_cons, List.nodup_cons] at hnodup
      have hstep : writeStep K c ⟨r, p.1, p.2⟩ = some (storeEvent K r c p.1 p.2) :=
        if_neg (hfresh p (List.mem_cons_self ..))
      rw [List.map_cons, run_cons, hstep, Option.bind_some, List.foldl_cons]
      apply ih _ hnodup.2
      -- the other ids are neither this one nor in use
      intro q hq hmem
      rcases Collection.mem_setData.mp hmem with heq | hold
      · exact hnodup.1 (heq ▸ List.mem_map_of_mem hq)
      · exact hfresh q (List.mem_cons_of_mem p hq) hold

/-- The writes that an event of client `n` makes. -/
def writesOf (K : Codecs L) (w : World L) : ℕ × ClientEvent → List Write
  | (n, .fetched call (some stamps)) =>
      match w.backend.queries.find? (fun r => r.client == n && r.call == call) with
      | some r =>
          ((fetchUsername K (query K w.backend.users r.UID)).1.zip stamps).map
            fun p => ⟨r, p.1, p.2⟩
      | none => []
  | _ => []

/-- What one event does to the collection is its writes. -/
theorem run_writeStep_of_step {count : String → ℕ} (w : World L) (ne : ℕ × ClientEvent)
    (w' : World L) (h : worldStep K count w ne = some w') :
    run (writeStep K) w.backend.foodSubmissions (writesOf K w ne)
      = some w'.backend.foodSubmissions := by
  obtain ⟨n, e⟩ := ne
  have hcases := worldStep_cases h
  generalize w'.backend = b' at hcases ⊢
  generalize w'.clients n = c' at hcases
  cases hcases with
  | @fetched r stamps _ crash mem find step =>
      unfold Backend.fetched at step
      dsimp only at step
      rw [Option.ite_none_right_eq_some] at step
      obtain ⟨⟨hlen, hnodup, hfresh⟩, hb⟩ := step
      obtain ⟨rfl, -⟩ := Prod.mk.inj (Option.some.inj hb)
      have hstamps : ((fetchUsername K (query K w.backend.users r.UID)).1.zip stamps).map Prod.snd
          = stamps := List.map_snd_zip (Nat.le_of_eq hlen)
      simp only [writesOf, find]
      apply run_writeStep_answer
      · have hids := congrArg (List.map Stamp.docID) hstamps
        rw [List.map_map] at hids
        exact hids ▸ hnodup
      · exact fun p hp => hfresh p.2 (List.of_mem_zip hp).2
  | registration home_eq shown step => rfl
  | relaunch => rfl
  | app answer step => rfl
  | unheard home_eq request_eq answer => rfl
  | registrationCrash home_eq shown step => rfl
  | openForm closed shown => rfl
  | formCrash step => rfl
  | form step => rfl
  | submit step => rfl
  | failed mem find => rfl

/-- **What the clients do to the collection, in any interleaving, is a run of writes.** -/
theorem run_writeStep_of_world {count : String → ℕ} {w w' : World L} {es : List (ℕ × ClientEvent)}
    (h : run (worldStep K count) w es = some w') :
    ∃ writes, run (writeStep K) w.backend.foodSubmissions writes
      = some w'.backend.foodSubmissions :=
  run_simulation (fun w : World L => w.backend.foodSubmissions) (writesOf K)
    run_writeStep_of_step h

end FreeFood.Feed
