/-
What holds in every reachable state of the system: profiles, submissions and the
documents stored for them.

`Ledger` relates what the clients share to the log of a run. The calls of
`storeFoodSubmission` are the tickets of `Lib/Tickets.lean`, so no query is answered
twice; what an answer stores, it stores for a call that the log has, with the user
signed in at the call and the username stored at the answer; and there is no other
document.
-/
import FreeFood.Deployment
import FreeFood.Lib.Tickets

set_option autoImplicit false

namespace FreeFood.Submissions

open Document Transition Tickets FreeFood.Platform FreeFood.SignInModel FreeFood.HomeView
open FreeFood.FoodEventModel FreeFood.Registration FreeFood.DataFetch FreeFood.FoodSubmission
open FreeFood.LocationSearch FreeFood.App FreeFood.Deployment

variable {L : Type} (K : Codecs L)

/-- What an answer stored: a document that carries the arguments of its call, the UID
of the user who was signed in at the call and the username found, under each of its
stamps. There is a stamp for each document found, and at most one. -/
structure Stored (foodSubmissions : Collection (Value L)) (log : List Observation) (f : Fetched)
    (user : User) (args : Submission) : Prop where
  submitted : .submitted f.call (some user) args ∈ log
  UID_eq : f.UID = user.uid
  length_eq : f.stamps.length = f.found
  found_le_one : f.found ≤ 1
  documents : ∀ stamp ∈ f.stamps, ∃ username doc, f.username = some username
    ∧ foodSubmissions.lookup stamp.docID = some doc ∧ args.Carried K user.uid username doc

/-- The state of what the clients share, against the log. -/
structure Ledger (b : Backend L) (log : List Observation) : Prop where
  keyed : Keyed K b.users
  profiled_iff : ∀ user : User, user.uid ∈ b.users ↔ .profiled user ∈ log
  accounted : Accounted Observation.submits Observation.answers b.calls
    (b.queries.map FetchRequest.call) log
  pending : ∀ r ∈ b.queries, ∃ user : User, r.UID = user.uid
    ∧ .submitted r.call (some user) r.args ∈ log
  failures : ∀ call, .failed call ∈ log → ∃ user args, .submitted call (some user) args ∈ log
  answered : ∀ f, .answered f ∈ log → ∃ user args, Stored K b.foodSubmissions log f user args
  sources : ∀ docID ∈ b.foodSubmissions, ∃ f, .answered f ∈ log
    ∧ ∃ stamp ∈ f.stamps, stamp.docID = docID

variable {K}

/-- Nothing is stored and no query is in flight. -/
structure Empty (b : Backend L) : Prop where
  users : b.users = ∅
  foodSubmissions : b.foodSubmissions = ∅
  queries : b.queries = []

theorem ledger_init {b : Backend L} (hb : Empty b) : Ledger K b [] where
  keyed := by
    rw [hb.users]
    exact keyed_empty
  profiled_iff := by simp [hb.users]
  accounted := by
    rw [hb.queries]
    exact .nil
  pending := by simp [hb.queries]
  failures := by simp
  answered := by simp
  sources := by simp [hb.foodSubmissions]

/-- What was stored stays stored while the collection keeps its documents and the log
its entries. -/
theorem Stored.mono {c c' : Collection (Value L)} {log : List Observation} {f : Fetched}
    {user : User} {args : Submission} (h : Stored K c log f user args)
    (hc : ∀ docID ∈ c, c'.lookup docID = c.lookup docID) (obs : List Observation) :
    Stored K c' (log ++ obs) f user args where
  submitted := List.mem_append_left _ h.submitted
  UID_eq := h.UID_eq
  length_eq := h.length_eq
  found_le_one := h.found_le_one
  documents := by
    intro stamp hstamp
    obtain ⟨username, doc, husername, hdoc, hcarried⟩ := h.documents stamp hstamp
    have hmem : stamp.docID ∈ c := AList.lookup_isSome.mp (by rw [hdoc]; rfl)
    exact ⟨username, doc, husername, by rw [hc _ hmem, hdoc], hcarried⟩

/-! ## The answer to a query -/

/-- What the answer to a query does where profiles are keyed: the callback runs once
for a UID that has a profile, with the username stored there, and not at all for
any other. No cast fails. -/
theorem fetched_of_keyed {b b' : Backend L} {r : FetchRequest} {stamps : List Stamp}
    {crash : Option Crash} (hkeyed : Keyed K b.users)
    (h : b.fetched K r stamps = some (b', crash)) :
    crash = none ∧ b'.users = b.users ∧ b'.calls = b.calls
      ∧ b'.queries = (b.closed r.call).queries
      ∧ stamps.length = (b.fetchedOf K r stamps).found
      ∧ ((stamps = [] ∧ b'.foodSubmissions = b.foodSubmissions)
        ∨ ∃ stamp username, stamps = [stamp]
            ∧ (b.fetchedOf K r stamps).username = some username
            ∧ stamp.docID ∉ b.foodSubmissions
            ∧ b'.foodSubmissions = storeEvent K r b.foodSubmissions username stamp) := by
  -- in a keyed collection the whole of `fetchUsername` is one look-up
  have hfetch := hkeyed.fetchUsername_query r.UID
  unfold Backend.fetched FetchRequest.answered at h
  dsimp only at h
  rw [hfetch, Option.ite_none_right_eq_some] at h
  obtain ⟨⟨hlen, -, hfresh⟩, hb⟩ := h
  obtain ⟨rfl, rfl⟩ := Prod.mk.inj (Option.some.inj hb)
  refine ⟨rfl, rfl, rfl, rfl, ?_, ?_⟩
  · show stamps.length = (query K b.users r.UID).length
    rw [hlen, hkeyed.query_eq]
    rcases hdoc : b.users.lookup r.UID with _ | doc
    · rfl
    · obtain ⟨-, username, husername⟩ := hkeyed r.UID doc hdoc
      simp [husername]
  · unfold Backend.fetchedOf
    dsimp only at hlen ⊢
    rcases hname : (b.users.lookup r.UID).bind (username? K) with _ | username
    · rw [hname] at hlen
      exact Or.inl ⟨List.length_eq_zero_iff.mp hlen, rfl⟩
    · rw [hname] at hlen
      obtain ⟨stamp, rfl⟩ := List.length_eq_one_iff.mp hlen
      exact Or.inr ⟨stamp, username, rfl, rfl, hfresh stamp (List.mem_singleton_self stamp), rfl⟩

/-! ## One step -/

/-- What the log has of the answers so far is not changed by an entry of another kind. -/
theorem Ledger.answered_append {b : Backend L} {log : List Observation} (h : Ledger K b log)
    {o : Observation} (ho : ∀ f, o ≠ .answered f) :
    ∀ f, .answered f ∈ log ++ [o] →
      ∃ user args, Stored K b.foodSubmissions (log ++ [o]) f user args := by
  intro f hf
  rcases List.mem_append.mp hf with hlog | hlast
  · obtain ⟨user, args, hstored⟩ := h.answered f hlog
    exact ⟨user, args, hstored.mono (fun _ _ => rfl) [o]⟩
  · exact absurd (List.mem_singleton.mp hlast).symm (ho f)

/-- Nor are the sources of the documents. -/
theorem Ledger.sources_append {b : Backend L} {log : List Observation} (h : Ledger K b log)
    (obs : List Observation) : ∀ docID ∈ b.foodSubmissions, ∃ f, .answered f ∈ log ++ obs
      ∧ ∃ stamp ∈ f.stamps, stamp.docID = docID := by
  intro docID hdoc
  obtain ⟨f, hf, hstamp⟩ := h.sources docID hdoc
  exact ⟨f, List.mem_append_left _ hf, hstamp⟩

/-- Nor are the calls of the queries in flight. -/
theorem Ledger.pending_append {b : Backend L} {log : List Observation} (h : Ledger K b log)
    (obs : List Observation) : ∀ r ∈ b.queries, ∃ user : User, r.UID = user.uid
      ∧ .submitted r.call (some user) r.args ∈ log ++ obs := by
  intro r hr
  obtain ⟨user, hUID, hsubmitted⟩ := h.pending r hr
  exact ⟨user, hUID, List.mem_append_left _ hsubmitted⟩

/-- Nor are the calls of the queries that failed, if that of one failing now is there. -/
theorem Ledger.failures_append {b : Backend L} {log : List Observation} (h : Ledger K b log)
    {o : Observation}
    (ho : ∀ call, o = .failed call → ∃ user args, .submitted call (some user) args ∈ log) :
    ∀ call, .failed call ∈ log ++ [o] →
      ∃ user args, .submitted call (some user) args ∈ log ++ [o] := by
  intro call hcall
  have hsubmitted : ∃ user args, .submitted call (some user) args ∈ log := by
    rcases List.mem_append.mp hcall with hlog | hlast
    · exact h.failures call hlog
    · exact ho call (List.mem_singleton.mp hlast).symm
  obtain ⟨user, args, hlog⟩ := hsubmitted
  exact ⟨user, args, List.mem_append_left _ hlog⟩

theorem Ledger.profiled_iff_append {b : Backend L} {log : List Observation} (h : Ledger K b log)
    {o : Observation} (ho : ∀ user, o ≠ .profiled user) (user : User) :
    user.uid ∈ b.users ↔ .profiled user ∈ log ++ [o] := by
  rw [h.profiled_iff, List.mem_append, List.mem_singleton]
  exact ⟨Or.inl, fun hor => hor.resolve_right fun heq => ho user heq.symm⟩

/-- A step that stores nothing and calls nothing. -/
theorem Ledger.quiet {b b' : Backend L} {log : List Observation} (h : Ledger K b log)
    (users : b'.users = b.users) (foodSubmissions : b'.foodSubmissions = b.foodSubmissions)
    (calls : b'.calls = b.calls) (queries : b'.queries.Sublist b.queries) :
    Ledger K b' (log ++ []) := by
  rw [List.append_nil]
  refine ⟨?_, ?_, ?_, ?_, h.failures, ?_, ?_⟩
  · rw [users]
    exact h.keyed
  · rw [users]
    exact h.profiled_iff
  · rw [calls]
    exact h.accounted.drop (queries.map _)
  · exact fun r hr => h.pending r (queries.subset hr)
  · rw [foodSubmissions]
    exact h.answered
  · rw [foodSubmissions]
    exact h.sources

/-- A user's profile is stored. -/
theorem Ledger.profiled {b : Backend L} {log : List Observation} (h : Ledger K b log)
    (user : User) (username firstName lastName : String) (favFoods : List String) :
    Ledger K
      { b with users := b.users.setData user.uid
                 (userDocument K username firstName lastName favFoods user.uid) }
      (log ++ [.profiled user]) where
  keyed := h.keyed.setData username firstName lastName favFoods user.uid
  profiled_iff := by
    intro other
    rw [Collection.mem_setData, h.profiled_iff, List.mem_append, List.mem_singleton,
      Observation.profiled.injEq, or_comm]
    constructor
    · rintro (hlog | huid)
      · exact Or.inl hlog
      · exact Or.inr (User.ext huid)
    · rintro (hlog | rfl)
      · exact Or.inl hlog
      · exact Or.inr rfl
  accounted := h.accounted.skip (fun _ => ⟨rfl, rfl⟩)
  pending := h.pending_append _
  failures := h.failures_append (by simp)
  answered := h.answered_append (by simp)
  sources := h.sources_append _

/-- `storeFoodSubmission` is called: its query is in flight if a user is signed in. -/
theorem Ledger.submitted {b : Backend L} {log : List Observation} (h : Ledger K b log)
    (n : ℕ) (currentUser : Option User) (args : Submission) :
    Ledger K (b.submitted n currentUser args)
      (log ++ [.submitted b.calls currentUser args]) where
  keyed := h.keyed
  profiled_iff := h.profiled_iff_append (by simp)
  accounted := by
    unfold Backend.submitted
    dsimp only
    rw [List.map_append]
    -- without a user the number is used up and no query is sent
    refine h.accounted.issue (fun _ => ⟨rfl, rfl⟩) ?_
    rcases currentUser with _ | user
    · exact List.nil_sublist _
    · exact List.Sublist.refl _
  pending := by
    intro r hr
    rcases List.mem_append.mp hr with hold | hnew
    · exact h.pending_append _ r hold
    · rcases currentUser with _ | user
      · exact absurd hnew (by simp [storeFoodSubmission])
      · obtain rfl := List.mem_singleton.mp hnew
        exact ⟨user, rfl, List.mem_append_right _ (List.mem_singleton_self _)⟩
  failures := h.failures_append (by simp)
  answered := h.answered_append (by simp)
  sources := h.sources_append _

/-- The calls in flight once the query of a call is closed. -/
theorem map_call_closed (b : Backend L) (call : ℕ) :
    (b.closed call).queries.map FetchRequest.call
      = (b.queries.map FetchRequest.call).filter (fun c => !(c == call)) := by
  unfold Backend.closed
  rw [List.filter_map]
  rfl

/-- A query is answered with an error. -/
theorem Ledger.failed {b : Backend L} {log : List Observation} (h : Ledger K b log)
    {r : FetchRequest} (hr : r ∈ b.queries) :
    Ledger K (b.closed r.call) (log ++ [.failed r.call]) where
  keyed := h.keyed
  profiled_iff := h.profiled_iff_append (by simp)
  accounted := by
    rw [map_call_closed]
    exact h.accounted.answer (List.mem_map_of_mem hr) (fun _ => ⟨rfl, rfl⟩)
  pending := fun q hq => h.pending_append _ q (List.mem_of_mem_filter hq)
  failures := by
    refine h.failures_append ?_
    intro call hcall
    obtain ⟨user, -, hsubmitted⟩ := h.pending r hr
    obtain rfl := Observation.failed.inj hcall
    exact ⟨user, r.args, hsubmitted⟩
  answered := h.answered_append (by simp)
  sources := h.sources_append _

/-- A query is answered with the documents it finds. -/
theorem Ledger.fetched {b b' : Backend L} {log : List Observation} (h : Ledger K b log)
    {r : FetchRequest} {stamps : List Stamp} {crash : Option Crash} (hr : r ∈ b.queries)
    (hstep : b.fetched K r stamps = some (b', crash)) :
    Ledger K b' (log ++ [.answered (b.fetchedOf K r stamps)]) := by
  obtain ⟨-, husers, hcalls, hqueries, hlen, hstored⟩ := fetched_of_keyed h.keyed hstep
  -- whose query it is was fixed at the call, whoever is signed in now
  obtain ⟨user, hUID, hsubmitted⟩ := h.pending r hr
  have hfound : (b.fetchedOf K r stamps).found ≤ 1 := by
    show (query K b.users r.UID).length ≤ 1
    rw [h.keyed.length_query]
    split_ifs <;> omega
  -- the documents that were there stay, since a new id is not in use
  have hkeep : ∀ docID ∈ b.foodSubmissions,
      b'.foodSubmissions.lookup docID = b.foodSubmissions.lookup docID := by
    intro docID hdoc
    rcases hstored with ⟨-, heq⟩ | ⟨stamp, username, -, -, hfresh, heq⟩
    · rw [heq]
    · rw [heq]
      exact Collection.lookup_setData_of_ne _ _ (fun hid => hfresh (hid ▸ hdoc))
  refine ⟨?_, ?_, ?_, ?_, h.failures_append (by simp), ?_, ?_⟩
  · rw [husers]
    exact h.keyed
  · rw [husers]
    exact h.profiled_iff_append (by simp)
  · rw [hcalls, hqueries, map_call_closed]
    exact h.accounted.answer (List.mem_map_of_mem hr) (fun _ => ⟨rfl, rfl⟩)
  · rw [hqueries]
    exact fun q hq => h.pending_append _ q (List.mem_of_mem_filter hq)
  · intro f hf
    rcases List.mem_append.mp hf with hlog | hlast
    · obtain ⟨u, args, hf⟩ := h.answered f hlog
      exact ⟨u, args, hf.mono hkeep _⟩
    · obtain rfl : f = b.fetchedOf K r stamps := by simpa using hlast
      refine ⟨user, r.args, List.mem_append_left _ hsubmitted, hUID, hlen, hfound, ?_⟩
      intro stamp hstamp
      rcases hstored with ⟨rfl, -⟩ | ⟨stamp', username, rfl, hname, -, heq⟩
      · exact absurd hstamp (List.not_mem_nil)
      · obtain rfl : stamp = stamp' := List.mem_singleton.mp hstamp
        refine ⟨username, _, hname, ?_, r.args.carried_event K user.uid username stamp⟩
        rw [heq, ← hUID]
        exact Collection.lookup_setData_self _ _ _
  · intro docID hdoc
    rcases hstored with ⟨-, heq⟩ | ⟨stamp, username, rfl, -, -, heq⟩
    · rw [heq] at hdoc
      exact h.sources_append _ docID hdoc
    · rw [heq] at hdoc
      rcases Collection.mem_setData.mp hdoc with rfl | hold
      · exact ⟨_, List.mem_append_right _ (List.mem_singleton_self _), stamp,
          List.mem_singleton_self _, rfl⟩
      · exact h.sources_append _ docID hold

/-- **Every effect keeps the ledger.** -/
theorem Ledger.effect {b b' : Backend L} {log obs : List Observation} (h : Ledger K b log)
    (he : Effect K b obs b') : Ledger K b' (log ++ obs) := by
  cases he with
  | quiet users foodSubmissions calls queries =>
      exact h.quiet users foodSubmissions calls queries
  | profiled user username firstName lastName favFoods =>
      exact h.profiled user username firstName lastName favFoods
  | submitted n currentUser args => exact h.submitted n currentUser args
  | failed mem => exact h.failed mem
  | answered mem step => exact h.fetched mem step

/-- The world with its log, started with no accounts and empty collections. -/
abbrev system (K : Codecs L) (count : String → ℕ) :
    World L × List Observation → ℕ × ClientEvent → Option (World L × List Observation) :=
  observed (worldStep K count) (observe K)

/-- The log restricts nothing: the runs of the system are the runs of the world. -/
theorem run_system_iff {count : String → ℕ} {w w' : World L} {es : List (ℕ × ClientEvent)} :
    (∃ log, run (system K count) (w, []) es = some (w', log))
      ↔ run (worldStep K count) w es = some w' := by
  constructor
  · rintro ⟨log, h⟩
    exact run_of_observed h
  · intro h
    exact exists_observed h []

theorem ledger_step {count : String → ℕ} {s t : World L × List Observation} {e : ℕ × ClientEvent}
    (hs : Ledger K s.1.backend s.2) (h : system K count s e = some t) :
    Ledger K t.1.backend t.2 := by
  -- the log grows by what the effect of the step says
  obtain ⟨hstep, hlog⟩ := observed_eq_some.mp h
  rw [hlog]
  exact hs.effect (worldStep_cases hstep).effect

theorem ledger_run {count : String → ℕ} {s t : World L × List Observation}
    {es : List (ℕ × ClientEvent)} (hs : Ledger K s.1.backend s.2)
    (h : run (system K count) s es = some t) : Ledger K t.1.backend t.2 :=
  run_invariant (I := fun s : World L × List Observation => Ledger K s.1.backend s.2)
    (fun _ _ _ => ledger_step) hs h

/-- **Every reachable state keeps the ledger.** -/
theorem ledger_reachable {count : String → ℕ} {w : World L} {t : World L × List Observation}
    {es : List (ℕ × ClientEvent)} (hw : Empty w.backend)
    (h : run (system K count) (w, []) es = some t) : Ledger K t.1.backend t.2 :=
  ledger_run (ledger_init hw) h

/-! ## The laws of submissions -/

/-- The document was stored by the callback of the call. -/
def StoredFor (log : List Observation) (call : ℕ) (docID : String) : Prop :=
  ∃ f, .answered f ∈ log ∧ f.call = call ∧ ∃ stamp ∈ f.stamps, stamp.docID = docID

theorem Stored.length_le_one {c : Collection (Value L)} {log : List Observation} {f : Fetched}
    {user : User} {args : Submission} (h : Stored K c log f user args) : f.stamps.length ≤ 1 := by
  rw [h.length_eq]
  exact h.found_le_one

/-- A call has at most one document: it has at most one answer, and an answer stores
at most one. -/
theorem Ledger.storedFor_unique {b : Backend L} {log : List Observation} (h : Ledger K b log)
    {call : ℕ} {docID docID' : String} (hdoc : StoredFor log call docID)
    (hdoc' : StoredFor log call docID') : docID = docID' := by
  obtain ⟨f, hf, hcall, stamp, hstamp, rfl⟩ := hdoc
  obtain ⟨f', hf', hcall', stamp', hstamp', rfl⟩ := hdoc'
  have heq := h.accounted.answered_unique (t := call) hf hf' (beq_iff_eq.mpr hcall)
    (beq_iff_eq.mpr hcall')
  obtain rfl := Observation.answered.inj heq
  obtain ⟨user, args, hstored⟩ := h.answered f hf
  have hlen : f.stamps.length = 1 :=
    Nat.le_antisymm hstored.length_le_one (List.length_pos_of_mem hstamp)
  obtain ⟨only, honly⟩ := List.length_eq_one_iff.mp hlen
  rw [honly, List.mem_singleton] at hstamp hstamp'
  rw [hstamp, hstamp']

/-- **No submission is duplicated and none is misattributed.** Profiles are keyed by
their own UID and have a username, so an answer is at most one run of the callback
and no cast fails. A call is made once, is answered at most once and has at most one
document. An answer stores its document for a call that was made while a user was
signed in, with that user's UID, the username stored under it when the query was
answered and the arguments of the call; and every document is that of some call. -/
theorem submissions_attributed {count : String → ℕ} {w : World L}
    {t : World L × List Observation} {es : List (ℕ × ClientEvent)} (hw : Empty w.backend)
    (h : run (system K count) (w, []) es = some t) :
    (∀ id doc, t.1.backend.users.lookup id = some doc →
        UID? K doc = some id ∧ ∃ username, username? K doc = some username)
      ∧ (∀ UID, (fetchUsername K (query K t.1.backend.users UID)).1.length ≤ 1
          ∧ (fetchUsername K (query K t.1.backend.users UID)).2 = none)
      ∧ (∀ call, t.2.countP (Observation.submits call) ≤ 1
          ∧ t.2.countP (Observation.answers call) ≤ 1
          ∧ ∀ docID docID', StoredFor t.2 call docID → StoredFor t.2 call docID' →
              docID = docID')
      ∧ (∀ f, .answered f ∈ t.2 → f.stamps.length ≤ 1 ∧ ∃ user args,
          .submitted f.call (some user) args ∈ t.2 ∧ f.UID = user.uid
            ∧ ∀ stamp ∈ f.stamps, ∃ username doc, f.username = some username
                ∧ t.1.backend.foodSubmissions.lookup stamp.docID = some doc
                ∧ args.Carried K user.uid username doc)
      ∧ ∀ docID ∈ t.1.backend.foodSubmissions, ∃ call, StoredFor t.2 call docID := by
  have hledger := ledger_reachable hw h
  refine ⟨hledger.keyed, ?_, ?_, ?_, ?_⟩
  · intro UID
    refine ⟨hledger.keyed.length_fetchUsername_le_one UID, ?_⟩
    rw [hledger.keyed.fetchUsername_query]
  · intro call
    exact ⟨hledger.accounted.issued_le_one call, hledger.accounted.answered_le_one call,
      fun _ _ => hledger.storedFor_unique⟩
  · intro f hf
    obtain ⟨user, args, hstored⟩ := hledger.answered f hf
    exact ⟨hstored.length_le_one, user, args, hstored.submitted, hstored.UID_eq,
      hstored.documents⟩
  · intro docID hdoc
    obtain ⟨f, hf, hstamp⟩ := hledger.sources docID hdoc
    exact ⟨f.call, f, hf, rfl, hstamp⟩

/-! ### The law at a run -/

/-- The user of the runs below. -/
def ada : User := ⟨"ada", by decide⟩

/-- An account is made. -/
def signsUp : List ClientEvent :=
  [.app (.signUp 0 (.editEmail "ada@umd.edu")), .app (.signUp 0 (.editPassword "secret42")),
    .app (.signUp 0 (.editRepass "secret42")), .app (.signUp 0 .submit),
    .app (.signUp 0 (.answer 0 (.success ada)))]

/-- The profile form is filled in and submitted. -/
def storesProfile : List ClientEvent :=
  [.registration 0 (.editUsername "ada"), .registration 0 (.editFirstName "Ada"),
    .registration 0 .submit]

/-- The app is relaunched and the user of the account signs in. -/
def signsIn : List ClientEvent :=
  [.relaunch, .app (.signIn 0 (.editEmail "ada@umd.edu")),
    .app (.signIn 0 (.editPassword "secret42")), .app (.signIn 0 .submit),
    .app (.signIn 0 (.answer 0 (.success ada)))]

/-- The food form is opened and filled in. -/
def fillsForm : List ClientEvent :=
  [.openForm, .form (.location .commit), .form (.location (.answer 0 (.response [stamp]))),
    .form (.location (.select 0)), .form .tapBuilding, .form (.editRoom "1101"),
    .form (.editFoodType "Subway")]

/-- The system with Firestore's codecs. -/
abbrev firestore : World Leaf × List Observation → ℕ × ClientEvent →
    Option (World Leaf × List Observation) :=
  system (Codecs.firestore fun _ => 0) String.length

/-- A run of one client from sign-up to a stored submission. -/
def storesSubmission : List (ℕ × ClientEvent) :=
  (signsUp ++ storesProfile ++ fillsForm
    ++ [ClientEvent.form .submit, .fetched 0 (some [⟨"Jq3x", 0, 0⟩])]).map fun e => (0, e)

theorem empty_init {L : Type} : Empty ({} : Backend L) := ⟨rfl, rfl, rfl⟩

/-- The laws hold of a run that stores a document. -/
theorem submissions_attributed_storesSubmission :
    ∃ t, run firestore ({}, []) storesSubmission = some t
      ∧ "Jq3x" ∈ t.1.backend.foodSubmissions
      ∧ ∀ docID ∈ t.1.backend.foodSubmissions, ∃ call, StoredFor t.2 call docID :=
  ⟨_, rfl, by decide, (submissions_attributed empty_init
    (show run firestore ({}, []) storesSubmission = some _ from rfl)).2.2.2.2⟩

/-! ## What becomes of an accepted submission -/

/-- A call is made once, by one user and with one list of arguments. -/
theorem Ledger.submitted_unique {b : Backend L} {log : List Observation} (h : Ledger K b log)
    {call : ℕ} {currentUser currentUser' : Option User} {args args' : Submission}
    (hcall : .submitted call currentUser args ∈ log)
    (hcall' : .submitted call currentUser' args' ∈ log) :
    currentUser = currentUser' ∧ args = args' := by
  have heq := h.accounted.issued_unique (t := call) hcall hcall' (beq_self_eq_true _)
    (beq_self_eq_true _)
  rw [Observation.submitted.injEq] at heq
  exact heq.2

/-- An answer to a call stores for the user and with the arguments of the call. -/
theorem Ledger.stored_of_answered {b : Backend L} {log : List Observation} (h : Ledger K b log)
    {f : Fetched} {currentUser : Option User} {args : Submission} (hf : .answered f ∈ log)
    (hcall : .submitted f.call currentUser args ∈ log) :
    ∃ user, currentUser = some user ∧ Stored K b.foodSubmissions log f user args := by
  obtain ⟨user, args', hstored⟩ := h.answered f hf
  obtain ⟨huser, rfl⟩ := h.submitted_unique hcall hstored.submitted
  exact ⟨user, huser, hstored⟩

/-- A call with no user signed in sends no query, so none is answered. -/
theorem Ledger.unsent {b : Backend L} {log : List Observation} (h : Ledger K b log) {call : ℕ}
    {args : Submission} (hcall : .submitted call none args ∈ log) :
    (∀ r ∈ b.queries, r.call ≠ call) ∧ ∀ o ∈ log, o.answers call = false := by
  constructor
  · rintro r hr rfl
    obtain ⟨user, -, hsent⟩ := h.pending r hr
    have huser := (h.submitted_unique hcall hsent).1
    exact absurd huser (by simp)
  · intro o ho
    rw [Bool.eq_false_iff]
    intro hanswers
    rcases o with _ | _ | call' | f
    · exact absurd hanswers (by simp [Observation.answers])
    · exact absurd hanswers (by simp [Observation.answers])
    · obtain ⟨user, args', hsent⟩ := h.failures call' ho
      obtain rfl : call' = call := beq_iff_eq.mp hanswers
      have huser := (h.submitted_unique hcall hsent).1
      exact absurd huser (by simp)
    · obtain rfl : f.call = call := beq_iff_eq.mp hanswers
      obtain ⟨user, huser, -⟩ := h.stored_of_answered ho hcall
      exact absurd huser (by simp)

/-- A call whose query finds a profile has a document. -/
theorem Ledger.kept {b : Backend L} {log : List Observation} (h : Ledger K b log)
    {f : Fetched} {currentUser : Option User} {args : Submission} (hf : .answered f ∈ log)
    (hcall : .submitted f.call currentUser args ∈ log) (hfound : 0 < f.found) :
    ∃ user username docID doc, currentUser = some user ∧ StoredFor log f.call docID
      ∧ f.username = some username ∧ b.foodSubmissions.lookup docID = some doc
      ∧ args.Carried K user.uid username doc := by
  obtain ⟨user, huser, hstored⟩ := h.stored_of_answered hf hcall
  -- there is a stamp for each document found
  have hlen : 0 < f.stamps.length := by
    rw [hstored.length_eq]
    exact hfound
  obtain ⟨stamp, hstamp⟩ := List.exists_mem_of_length_pos hlen
  obtain ⟨username, doc, husername, hdoc, hcarried⟩ := hstored.documents stamp hstamp
  exact ⟨user, username, stamp.docID, doc, huser, ⟨f, hf, rfl, stamp, hstamp, rfl⟩, husername,
    hdoc, hcarried⟩

/-- A call with no user signed in has no document, nor has one whose query failed or
found no profile. -/
theorem Ledger.lost {b : Backend L} {log : List Observation} (h : Ledger K b log) {call : ℕ}
    {currentUser : Option User} {args : Submission}
    (hcall : .submitted call currentUser args ∈ log)
    (hlost : currentUser = none ∨ .failed call ∈ log
      ∨ ∃ f, .answered f ∈ log ∧ f.call = call ∧ f.found = 0) (docID : String) :
    ¬ StoredFor log call docID := by
  rintro ⟨f, hf, rfl, stamp, hstamp, -⟩
  obtain ⟨user, huser, hstored⟩ := h.stored_of_answered hf hcall
  -- the answer that stored the document is the only one that the call has
  rcases hlost with hnone | hfailed | ⟨g, hg, hgcall, hgfound⟩
  · rw [huser] at hnone
    exact absurd hnone (by simp)
  · have heq := h.accounted.answered_unique (t := f.call) hf hfailed (beq_self_eq_true _)
      (beq_self_eq_true _)
    exact absurd heq (by simp)
  · have heq := h.accounted.answered_unique (t := f.call) hf hg (beq_self_eq_true _)
      (beq_iff_eq.mpr hgcall)
    obtain rfl := Observation.answered.inj heq
    have hpos := List.length_pos_of_mem hstamp
    rw [hstored.length_eq] at hpos
    omega

/-- A tap on Submit that closes the form is a call of `storeFoodSubmission`. -/
theorem submit_closes {count : String → ℕ} {s t : World L × List Observation} {n : ℕ}
    (h : system K count s (n, .form .submit) = some t)
    (hclosed : (t.1.clients n).form.showSubmission = false) :
    ∃ args, (s.1.clients n).form.submit = .ok ((t.1.clients n).form, some args)
      ∧ .submitted s.1.backend.calls (s.1.clients n).app.session.currentUser args ∈ t.2 := by
  obtain ⟨hstep, hlog⟩ := observed_eq_some.mp h
  have hcases := worldStep_cases hstep
  generalize t.1.backend = b' at hcases
  generalize hc : t.1.clients n = c' at hcases hclosed
  cases hcases with
  | formCrash step =>
      -- a crash leaves the form as it was, and Submit is a tap on a form that is shown
      rw [handle, Option.ite_none_right_eq_some] at step
      rw [step.1] at hclosed
      exact absurd hclosed (by simp)
  | form step =>
      obtain ⟨-, -, hshow⟩ := handle_submit_cases step
      rw [hshow] at hclosed
      exact absurd hclosed (by simp)
  | @submit _ form args step =>
      obtain ⟨-, hsubmit, -⟩ := handle_submit_cases step
      refine ⟨args, hsubmit, ?_⟩
      rw [hlog]
      refine List.mem_append_right _ ?_
      simp only [observe, step]
      exact List.mem_singleton_self _

/-- **What becomes of an accepted submission.** Its query is sent only if a user is
signed in at the tap. Where the query finds a profile, a document with the fields of
the submission and the user's UID is stored for it; with no user signed in, an error,
or no profile, none ever is. -/
theorem accepted_submission {count : String → ℕ} {w : World L} {s t u : World L × List Observation}
    {pre post : List (ℕ × ClientEvent)} {n : ℕ} (hw : Empty w.backend)
    (hpre : run (system K count) (w, []) pre = some s)
    (htap : system K count s (n, .form .submit) = some t)
    (hclosed : (t.1.clients n).form.showSubmission = false)
    (hpost : run (system K count) t post = some u) :
    ∃ args, (s.1.clients n).form.submit = .ok ((t.1.clients n).form, some args)
      ∧ ((s.1.clients n).app.session.currentUser = none →
          (∀ r ∈ u.1.backend.queries, r.call ≠ s.1.backend.calls)
            ∧ ∀ o ∈ u.2, o.answers s.1.backend.calls = false)
      ∧ (∀ f, .answered f ∈ u.2 → f.call = s.1.backend.calls → 0 < f.found →
          ∃ user username docID doc, (s.1.clients n).app.session.currentUser = some user
            ∧ StoredFor u.2 s.1.backend.calls docID ∧ f.username = some username
            ∧ u.1.backend.foodSubmissions.lookup docID = some doc
            ∧ args.Carried K user.uid username doc)
      ∧ ((s.1.clients n).app.session.currentUser = none ∨ .failed s.1.backend.calls ∈ u.2
            ∨ (∃ f, .answered f ∈ u.2 ∧ f.call = s.1.backend.calls ∧ f.found = 0) →
          ∀ docID, ¬ StoredFor u.2 s.1.backend.calls docID) := by
  obtain ⟨args, hsubmit, hlogged⟩ := submit_closes htap hclosed
  -- the tap and the runs before and after it are one run of the system
  have hledger : Ledger K u.1.backend u.2 :=
    ledger_run (ledger_step (ledger_reachable hw hpre) htap) hpost
  have hcall : .submitted s.1.backend.calls (s.1.clients n).app.session.currentUser args ∈ u.2 :=
    log_subset hpost hlogged
  refine ⟨args, hsubmit, ?_, ?_, hledger.lost hcall⟩
  · intro hnone
    rw [hnone] at hcall
    exact hledger.unsent hcall
  · intro f hf hfcall hfound
    rw [← hfcall] at hcall ⊢
    exact hledger.kept hf hcall hfound

/-- An account whose user never reached the profile form. -/
def withoutProfile : List (ℕ × ClientEvent) := (signsUp ++ signsIn ++ fillsForm).map fun e => (0, e)

/-- A user with a profile. -/
def withProfile : List (ℕ × ClientEvent) :=
  (signsUp ++ storesProfile ++ fillsForm).map fun e => (0, e)

/-- The law at a run that stores a document. -/
theorem accepted_submission_withProfile :
    ∃ s t u args, run firestore ({}, []) withProfile = some s
      ∧ firestore s (0, .form .submit) = some t
      ∧ (s.1.clients 0).form.submit = .ok ((t.1.clients 0).form, some args)
      ∧ run firestore t [(0, .fetched 0 (some [⟨"Jq3x", 0, 0⟩]))] = some u
      ∧ ∃ user username docID doc, u.1.backend.foodSubmissions.lookup docID = some doc
        ∧ args.Carried (Codecs.firestore fun _ => 0) (User.uid user) username doc := by
  obtain ⟨args, hsubmit, -, hstored, -⟩ := accepted_submission empty_init
    (show run firestore ({}, []) withProfile = some _ from rfl)
    (show firestore _ (0, .form .submit) = some _ from rfl) rfl
    (show run firestore _ [(0, .fetched 0 (some [⟨"Jq3x", 0, 0⟩]))] = some _ from rfl)
  obtain ⟨user, username, docID, doc, -, -, -, hdoc, hcarried⟩ :=
    hstored ⟨0, "ada", 1, some "ada", [⟨"Jq3x", 0, 0⟩]⟩ (by decide) rfl (by decide)
  exact ⟨_, _, _, args, rfl, rfl, hsubmit, rfl, user, username, docID, doc, hdoc, hcarried⟩

/-- In every run, an accepted submission has a document with its fields from when it is
answered in the sense of `answered`, which sees the state before the tap and the
state reached. -/
def Kept (answered : World Leaf × List Observation → ℕ → World Leaf × List Observation → Prop) :
    Prop :=
  ∀ (pre post : List (ℕ × ClientEvent)) (n : ℕ) (s t u : World Leaf × List Observation),
    run firestore ({}, []) pre = some s → firestore s (n, .form .submit) = some t →
      (t.1.clients n).form.showSubmission = false → run firestore t post = some u →
      answered s n u →
      ∃ args docID UID username doc,
        (s.1.clients n).form.submit = .ok ((t.1.clients n).form, some args)
          ∧ u.1.backend.foodSubmissions.lookup docID = some doc
          ∧ args.Carried (Codecs.firestore fun _ => 0) UID username doc

/-- A run of client 0 after which nothing is stored. -/
theorem not_kept {answered : World Leaf × List Observation → ℕ → World Leaf × List Observation → Prop}
    (pre post : List (ℕ × ClientEvent)) {s t u : World Leaf × List Observation}
    (hpre : run firestore ({}, []) pre = some s) (htap : firestore s (0, .form .submit) = some t)
    (hclosed : (t.1.clients 0).form.showSubmission = false) (hpost : run firestore t post = some u)
    (hanswered : answered s 0 u) (hnone : u.1.backend.foodSubmissions = ∅) : ¬ Kept answered := by
  intro hkept
  obtain ⟨args, docID, UID, username, doc, -, hdoc, -⟩ :=
    hkept pre post 0 s t u hpre htap hclosed hpost hanswered
  rw [hnone, AList.lookup_empty] at hdoc
  exact absurd hdoc (by simp)

/-- A submission is lost, and each of the three ways is enough: no user is signed in at
the tap, the query fails, the query finds no profile. -/
theorem submission_lost :
    (¬ Kept fun s n u => (s.1.clients n).app.session.currentUser = none
        ∨ ∃ o ∈ u.2, o.answers s.1.backend.calls = true)
      ∧ (¬ Kept fun s n _ => (s.1.clients n).app.session.currentUser = none)
      ∧ (¬ Kept fun s _ u => .failed s.1.backend.calls ∈ u.2)
      ∧ ¬ Kept fun s _ u => ∃ f, .answered f ∈ u.2 ∧ f.call = s.1.backend.calls := by
  refine ⟨?_, ?_, ?_, ?_⟩
  · exact not_kept withoutProfile [(0, .fetched 0 (some []))] rfl rfl rfl rfl
      (Or.inr ⟨.answered ⟨0, "ada", 0, none, []⟩, by decide, rfl⟩) rfl
  · exact not_kept (withProfile ++ [(0, .app .sessionEnds)]) [] rfl rfl rfl rfl rfl rfl
  · exact not_kept withProfile [(0, .fetched 0 none)] rfl rfl rfl rfl (by decide) rfl
  · exact not_kept withoutProfile [(0, .fetched 0 (some []))] rfl rfl rfl rfl
      ⟨⟨0, "ada", 0, none, []⟩, by decide, rfl⟩ rfl

end FreeFood.Submissions
