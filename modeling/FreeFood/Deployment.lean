/-
The whole system: the clients, the accounts and collections they share, and the
queries in flight.

Each client is a device with a process of the app and its food form. `clientStep` is
one event of one client, on its own state and the shared one, and `worldStep` is the
same of any client of the world. An event may be anything the user, the backend or
the operating system does next: the taps are not confined to the screen on top, the
queries are answered in any order or not at all, and a process may be relaunched at
any time, which loses what its callbacks were waiting for.

`ClientStep` is the same step as a relation, with a case for each thing that a client
can do, and what is proved about steps starts from its cases. `observe` says what of a
step is worth remembering, and `Effect` is all that a step can do to what the clients
share: the theorems about profiles and submissions rest on it.
-/
import FreeFood.FoodSubmissionView
import FreeFood.FreeFoodApp

set_option autoImplicit false

namespace FreeFood.Deployment

open Document Transition FreeFood.Platform FreeFood.SignInModel FreeFood.HomeView
open FreeFood.Registration FreeFood.DataFetch FreeFood.FoodSubmission FreeFood.App

/-! ## The backend -/

/-- An account of Firebase Auth, stored under its email. -/
structure Account where
  password : String
  user : User
deriving DecidableEq

/-- What the clients share: the accounts, the two collections, the queries in flight,
and how many calls of `storeFoodSubmission` were made. -/
structure Backend (L : Type) where
  accounts : Collection Account := ∅
  users : Collection (Value L) := ∅
  foodSubmissions : Collection (Value L) := ∅
  queries : List FetchRequest := []
  calls : ℕ := 0

/-- An answer to a `createUser`. It succeeds for an email that has no account, with a
user that no account has, and makes the account. -/
def createUser (accounts : Collection Account) (c : Credentials) :
    Answer → Option (Collection Account)
  | .success user =>
      if c.email ∈ accounts ∨ accounts.entries.any (fun a => a.2.user.uid == user.uid) then none
      else some (accounts.insert c.email ⟨c.password, user⟩)
  | .failure _ => some accounts

/-- An answer to a `signIn`. It succeeds with the user of the account that the
credentials are those of. -/
def signInWith (accounts : Collection Account) (c : Credentials) :
    Answer → Option (Collection Account)
  | .success user =>
      if accounts.lookup c.email = some ⟨c.password, user⟩ then some accounts else none
  | .failure _ => some accounts

/-- The accounts after an event of a process, if the event is an answer that the
backend can give. -/
def accountsAfter (accounts : Collection Account) (a : FreeFoodApp) :
    AppEvent → Option (Collection Account)
  | .signUp k (.answer i ans) => do
      let home ← a.homes[k]?
      let c ← home.signUp.outstanding[i]?
      createUser accounts c ans
  | .signIn k (.answer i ans) => do
      let home ← a.homes[k]?
      let c ← home.signIn.outstanding[i]?
      signInWith accounts c ans
  | _ => some accounts

namespace Backend

variable {L : Type}

/-- A call of `storeFoodSubmission` by client `n`. -/
def submitted (b : Backend L) (n : ℕ) (currentUser : Option User) (args : Submission) : Backend L :=
  { b with
    queries := b.queries ++ (storeFoodSubmission currentUser n b.calls args).toList
    calls := b.calls + 1 }

/-- The query of a call is not in flight any more. -/
def closed (b : Backend L) (call : ℕ) : Backend L :=
  { b with queries := b.queries.filter (fun r => !(r.call == call)) }

/-- The process of client `n` is gone, and with it the callbacks of its queries. -/
def dropped (b : Backend L) (n : ℕ) : Backend L :=
  { b with queries := b.queries.filter (fun r => !(r.client == n)) }

/-- A query is answered with the documents it finds. There is a stamp for each run of
the callback, and the ids it makes are not in use. -/
def fetched (K : Codecs L) (b : Backend L) (r : FetchRequest) (stamps : List Stamp) :
    Option (Backend L × Option Crash) :=
  -- the UID is that of the call, the profiles are those of the moment of the answer
  let docs := query K b.users r.UID
  if stamps.length = (fetchUsername K docs).1.length ∧ (stamps.map Stamp.docID).Nodup
      ∧ ∀ stamp ∈ stamps, stamp.docID ∉ b.foodSubmissions then
    let (foodSubmissions, crash) := r.answered K docs stamps b.foodSubmissions
    some ({ b.closed r.call with foodSubmissions }, crash)
  else none

end Backend

/-! ## The clients -/

/-- A device: a process of the app, and its food form. -/
structure Client where
  app : FreeFoodApp := {}
  form : FoodSubmissionView := { showSubmission := false }
  crashed : Bool := false
deriving DecidableEq

/-- The process is started anew. The session is stored on the device. -/
def Client.relaunched (c : Client) : Client where
  app := launch c.app.session.currentUser

/-- What happens to a client. -/
inductive ClientEvent where
  | app (e : AppEvent)
  /-- the backend makes the account that a sign-up asks for, and its answer is lost -/
  | unheard (k i : ℕ) (user : User)
  | registration (k : ℕ) (e : RegistrationEvent)
  | openForm
  | form (e : FormEvent)
  /-- a query is answered, with an error or with the documents it finds -/
  | fetched (call : ℕ) (stamps : Option (List Stamp))
  | relaunch
deriving DecidableEq

section Step

variable {L : Type} (K : Codecs L) (count : String → ℕ)

/-- One event of client `n` while its process runs. -/
def liveStep (n : ℕ) (b : Backend L) (c : Client) : ClientEvent → Option (Backend L × Client)
  | .app e => do
      let accounts ← accountsAfter b.accounts c.app e
      let app ← appStep count c.app e
      return ({ b with accounts }, { c with app })
  | .unheard k i user => do
      -- the request stays outstanding: it can still be answered, but only with a failure
      let home ← c.app.homes[k]?
      let request ← home.signUp.outstanding[i]?
      let accounts ← createUser b.accounts request (.success user)
      return ({ b with accounts }, c)
  | .registration k e => do
      let home ← c.app.homes[k]?
      if home.signUp.view.isRegistered then
        match ← registrationStep K c.app.session.currentUser b.users home.registration e with
        | .error _ => return (b, { c with crashed := true })
        | .ok (registration, users) =>
            let homes := c.app.homes.set k { home with registration }
            return ({ b with users }, { c with app := { c.app with homes } })
      else none
  | .openForm =>
      if !c.form.showSubmission && c.app.homes.any Home.showsAppView then
        some (b, { c with form := {} })
      else none
  | .form e => do
      match ← handle c.form e with
      | .error _ => return (b, { c with crashed := true })
      | .ok (form, none) => return (b, { c with form })
      | .ok (form, some args) =>
          return (b.submitted n c.app.session.currentUser args, { c with form })
  | .fetched call stamps => do
      let r ← b.queries.find? (fun r => r.client == n && r.call == call)
      match stamps with
      | none => return (b.closed call, c)
      | some stamps =>
          let (b, crash) ← b.fetched K r stamps
          return (b, { c with crashed := crash.isSome })
  | .relaunch => none

/-- One event of client `n`. A process that has crashed can only be started anew. -/
def clientStep (n : ℕ) (b : Backend L) (c : Client) (e : ClientEvent) :
    Option (Backend L × Client) :=
  -- a relaunch is the one event that a crashed process can take
  if e = .relaunch then some (b.dropped n, c.relaunched)
  else if c.crashed then none
  else liveStep K count n b c e

/-- The steps of client `n`, case by case. -/
inductive ClientStep (n : ℕ) (b : Backend L) (c : Client) :
    ClientEvent → Backend L → Client → Prop
  | relaunch : ClientStep n b c .relaunch (b.dropped n) c.relaunched
  | app {e : AppEvent} {accounts : Collection Account} {app : FreeFoodApp}
      (answer : accountsAfter b.accounts c.app e = some accounts)
      (step : appStep count c.app e = some app) :
      ClientStep n b c (.app e) { b with accounts } { c with app }
  | unheard {k i : ℕ} {user : User} {home : Home} {request : Credentials}
      {accounts : Collection Account}
      (home_eq : c.app.homes[k]? = some home)
      (request_eq : home.signUp.outstanding[i]? = some request)
      (answer : createUser b.accounts request (.success user) = some accounts) :
      ClientStep n b c (.unheard k i user) { b with accounts } c
  | registrationCrash {k : ℕ} {e : RegistrationEvent} {home : Home} {crash : Crash}
      (home_eq : c.app.homes[k]? = some home) (shown : home.signUp.view.isRegistered = true)
      (step : registrationStep K c.app.session.currentUser b.users home.registration e
        = some (.error crash)) :
      ClientStep n b c (.registration k e) b { c with crashed := true }
  | registration {k : ℕ} {e : RegistrationEvent} {home : Home} {registration : RegistrationView}
      {users : Collection (Value L)}
      (home_eq : c.app.homes[k]? = some home) (shown : home.signUp.view.isRegistered = true)
      (step : registrationStep K c.app.session.currentUser b.users home.registration e
        = some (.ok (registration, users))) :
      ClientStep n b c (.registration k e) { b with users }
        { c with app := ⟨c.app.session, c.app.homes.set k { home with registration }⟩ }
  | openForm (closed : c.form.showSubmission = false)
      (shown : c.app.homes.any Home.showsAppView = true) :
      ClientStep n b c .openForm b { c with form := {} }
  | formCrash {e : FormEvent} {crash : Crash} (step : handle c.form e = some (.error crash)) :
      ClientStep n b c (.form e) b { c with crashed := true }
  | form {e : FormEvent} {form : FoodSubmissionView}
      (step : handle c.form e = some (.ok (form, none))) :
      ClientStep n b c (.form e) b { c with form }
  | submit {e : FormEvent} {form : FoodSubmissionView} {args : Submission}
      (step : handle c.form e = some (.ok (form, some args))) :
      ClientStep n b c (.form e) (b.submitted n c.app.session.currentUser args) { c with form }
  | failed {r : FetchRequest} (mem : r ∈ b.queries)
      (find : b.queries.find? (fun q => q.client == n && q.call == r.call) = some r) :
      ClientStep n b c (.fetched r.call none) (b.closed r.call) c
  | fetched {r : FetchRequest} {stamps : List Stamp} {b' : Backend L} {crash : Option Crash}
      (mem : r ∈ b.queries)
      (find : b.queries.find? (fun q => q.client == n && q.call == r.call) = some r)
      (step : b.fetched K r stamps = some (b', crash)) :
      ClientStep n b c (.fetched r.call (some stamps)) b' { c with crashed := crash.isSome }

variable {K count}

/-- A query is found by its client and its call. -/
theorem call_of_find {queries : List FetchRequest} {n call : ℕ} {r : FetchRequest}
    (h : queries.find? (fun q => q.client == n && q.call == call) = some r) :
    r ∈ queries ∧ r.client = n ∧ r.call = call := by
  have hr := List.find?_some h
  rw [Bool.and_eq_true, beq_iff_eq, beq_iff_eq] at hr
  exact ⟨List.mem_of_find?_eq_some h, hr⟩

theorem liveStep_cases {n : ℕ} {b b' : Backend L} {c c' : Client} {e : ClientEvent}
    (h : liveStep K count n b c e = some (b', c')) : ClientStep K count n b c e b' c' := by
  rcases e with e | ⟨k, i, user⟩ | ⟨k, e⟩ | _ | e | ⟨call, _ | stamps⟩ | _
  · simp only [liveStep, Option.bind_eq_bind, Option.bind_eq_some_iff] at h
    obtain ⟨accounts, hanswer, app, hstep, hbc⟩ := h
    obtain ⟨rfl, rfl⟩ := Prod.mk.inj (Option.some.inj hbc)
    exact .app hanswer hstep
  · simp only [liveStep, Option.bind_eq_bind, Option.bind_eq_some_iff] at h
    obtain ⟨home, hhome, request, hrequest, accounts, hanswer, hbc⟩ := h
    obtain ⟨rfl, rfl⟩ := Prod.mk.inj (Option.some.inj hbc)
    exact .unheard hhome hrequest hanswer
  · simp only [liveStep, Option.bind_eq_bind, Option.bind_eq_some_iff] at h
    obtain ⟨home, hhome, hlive⟩ := h
    rw [Option.ite_none_right_eq_some, Option.bind_eq_some_iff] at hlive
    obtain ⟨hshown, res, hstep, hbc⟩ := hlive
    rcases res with crash | ⟨registration, users⟩
    · obtain ⟨rfl, rfl⟩ := Prod.mk.inj (Option.some.inj hbc)
      exact .registrationCrash hhome hshown hstep
    · obtain ⟨rfl, rfl⟩ := Prod.mk.inj (Option.some.inj hbc)
      exact .registration hhome hshown hstep
  · rw [liveStep, Option.ite_none_right_eq_some, Bool.and_eq_true, Bool.not_eq_true'] at h
    obtain ⟨⟨hclosed, hshown⟩, hbc⟩ := h
    obtain ⟨rfl, rfl⟩ := Prod.mk.inj (Option.some.inj hbc)
    exact .openForm hclosed hshown
  · simp only [liveStep, Option.bind_eq_bind, Option.bind_eq_some_iff] at h
    obtain ⟨res, hstep, hbc⟩ := h
    rcases res with crash | ⟨form, _ | args⟩
    · obtain ⟨rfl, rfl⟩ := Prod.mk.inj (Option.some.inj hbc)
      exact .formCrash hstep
    · obtain ⟨rfl, rfl⟩ := Prod.mk.inj (Option.some.inj hbc)
      exact .form hstep
    · obtain ⟨rfl, rfl⟩ := Prod.mk.inj (Option.some.inj hbc)
      exact .submit hstep
  · simp only [liveStep, Option.bind_eq_bind, Option.bind_eq_some_iff] at h
    obtain ⟨r, hfind, hbc⟩ := h
    obtain ⟨rfl, rfl⟩ := Prod.mk.inj (Option.some.inj hbc)
    obtain ⟨hmem, -, rfl⟩ := call_of_find hfind
    exact .failed hmem hfind
  · simp only [liveStep, Option.bind_eq_bind, Option.bind_eq_some_iff] at h
    obtain ⟨r, hfind, ⟨b'', crash⟩, hstep, hbc⟩ := h
    obtain ⟨rfl, rfl⟩ := Prod.mk.inj (Option.some.inj hbc)
    obtain ⟨hmem, -, rfl⟩ := call_of_find hfind
    exact .fetched hmem hfind hstep
  · exact absurd h (by simp [liveStep])

/-- **Every step is one of the cases.** -/
theorem clientStep_cases {n : ℕ} {b b' : Backend L} {c c' : Client} {e : ClientEvent}
    (h : clientStep K count n b c e = some (b', c')) : ClientStep K count n b c e b' c' := by
  unfold clientStep at h
  by_cases he : e = .relaunch
  · rw [if_pos he] at h
    obtain ⟨rfl, rfl⟩ := Prod.mk.inj (Option.some.inj h)
    rw [he]
    exact .relaunch
  · rw [if_neg he, Option.ite_none_left_eq_some] at h
    exact liveStep_cases h.2

end Step

/-! ## The world -/

/-- The backend and its clients. -/
structure World (L : Type) where
  backend : Backend L := {}
  clients : ℕ → Client := fun _ => {}

variable {L : Type} (K : Codecs L) (count : String → ℕ)

/-- One event of one client of the world. -/
def worldStep (w : World L) (ne : ℕ × ClientEvent) : Option (World L) :=
  (clientStep K count ne.1 w.backend (w.clients ne.1) ne.2).map fun bc =>
    { backend := bc.1, clients := Function.update w.clients ne.1 bc.2 }

variable {K count} in
theorem worldStep_cases {w w' : World L} {n : ℕ} {e : ClientEvent}
    (h : worldStep K count w (n, e) = some w') :
    ClientStep K count n w.backend (w.clients n) e w'.backend (w'.clients n) := by
  rw [worldStep, Option.map_eq_some_iff] at h
  obtain ⟨⟨b', c'⟩, hstep, rfl⟩ := h
  dsimp only
  rw [Function.update_self]
  exact clientStep_cases hstep

/-- The event of a client leaves the others as they are. -/
theorem worldStep_frame {K : Codecs L} {count : String → ℕ} {w w' : World L} {n : ℕ}
    {e : ClientEvent} (h : worldStep K count w (n, e) = some w') {m : ℕ} (hm : m ≠ n) :
    w'.clients m = w.clients m := by
  rw [worldStep, Option.map_eq_some_iff] at h
  obtain ⟨bc, -, rfl⟩ := h
  exact Function.update_of_ne hm _ _

/-! ## How `AppView` is opened -/

section Opened

variable {K : Codecs L} {count : String → ℕ} {n : ℕ} {b b' : Backend L} {c c' : Client}
  {e : ClientEvent} {k : ℕ} {home home' : Home}

/-- What a step does to one home of a client: nothing, a launch with a new home, a step
of the process, or a step of the home's profile form. -/
theorem ClientStep.home_cases (h : ClientStep K count n b c e b' c')
    (hhome : c.app.homes[k]? = some home) (hhome' : c'.app.homes[k]? = some home') :
    home' = home ∨ home' = {} ∨ (∃ f, e = .app f ∧ appStep count c.app f = some c'.app)
      ∨ ∃ f registration, registrationStep K c.app.session.currentUser b.users home.registration f
            = some (.ok (registration, b'.users))
          ∧ c'.app.session = c.app.session ∧ home' = { home with registration } := by
  cases h with
  | relaunch =>
      rcases k with _ | k
      · exact Or.inr (Or.inl (Option.some.inj hhome').symm)
      · exact absurd hhome' (by simp [Client.relaunched, launch])
  | app answer step => exact Or.inr (Or.inr (Or.inl ⟨_, rfl, step⟩))
  | registration home_eq shown step =>
      rcases getElem?_set_cases hhome hhome' with ⟨rfl, heq⟩ | heq
      · obtain rfl := Option.some.inj (hhome.symm.trans home_eq)
        exact Or.inr (Or.inr (Or.inr ⟨_, _, step, rfl, heq⟩))
      · exact Or.inl heq
  | unheard => exact Or.inl (Option.some.inj (hhome'.symm.trans hhome))
  | registrationCrash => exact Or.inl (Option.some.inj (hhome'.symm.trans hhome))
  | openForm => exact Or.inl (Option.some.inj (hhome'.symm.trans hhome))
  | formCrash => exact Or.inl (Option.some.inj (hhome'.symm.trans hhome))
  | form => exact Or.inl (Option.some.inj (hhome'.symm.trans hhome))
  | submit => exact Or.inl (Option.some.inj (hhome'.symm.trans hhome))
  | failed => exact Or.inl (Option.some.inj (hhome'.symm.trans hhome))
  | fetched => exact Or.inl (Option.some.inj (hhome'.symm.trans hhome))

/-- The profile form of a home opens `AppView` only by storing the profile of the
signed-in user. -/
theorem ClientStep.showAppView_opened (h : ClientStep K count n b c e b' c')
    (hhome : c.app.homes[k]? = some home) (hhome' : c'.app.homes[k]? = some home')
    (hclosed : home.registration.showAppView = false)
    (hopened : home'.registration.showAppView = true) :
    ∃ user, c'.app.session.currentUser = some user ∧ user.uid ∈ b'.users := by
  rcases h.home_cases hhome hhome' with
    rfl | rfl | ⟨f, -, hstep⟩ | ⟨f, registration, hstep, hsession, rfl⟩
  · rw [hclosed] at hopened
    exact absurd hopened (by simp)
  · exact absurd hopened (by simp)
  · -- an event of the process only makes the profile form anew
    rcases appStep_home hstep hhome hhome' with rfl | ⟨g, t, -, -, rfl⟩ | ⟨g, t, -, -, rfl⟩
    · rw [hclosed] at hopened
      exact absurd hopened (by simp)
    · unfold Home.setSignUp at hopened
      dsimp only at hopened
      split_ifs at hopened
      rw [hclosed] at hopened
      exact absurd hopened (by simp)
    · rw [hclosed] at hopened
      exact absurd hopened (by simp)
  · rcases registrationStep_cases hstep with ⟨-, hsubmit⟩ | ⟨-, v, hok, hv, -⟩
    · rcases RegistrationView.submit_cases K hsubmit with
        ⟨-, -, hshow⟩ | ⟨user, huser, -, -, husers⟩
      · rw [hshow, hclosed] at hopened
        exact absurd hopened (by simp)
      · refine ⟨user, by rw [hsession, huser], ?_⟩
        rw [husers]
        exact Collection.mem_setData.mpr (Or.inl rfl)
    · obtain ⟨rfl, -⟩ := Prod.mk.inj (Except.ok.inj hok)
      rw [hv, hclosed] at hopened
      exact absurd hopened (by simp)

/-- The sign-in form of a home opens `AppView` only for a signed-in user. -/
theorem ClientStep.loginSuccess_opened (h : ClientStep K count n b c e b' c')
    (hhome : c.app.homes[k]? = some home) (hhome' : c'.app.homes[k]? = some home')
    (hclosed : home.signIn.view.loginSuccess = false)
    (hopened : home'.signIn.view.loginSuccess = true) :
    ∃ user, c'.app.session.currentUser = some user := by
  rcases h.home_cases hhome hhome' with
    rfl | rfl | ⟨f, -, hstep⟩ | ⟨f, registration, -, -, rfl⟩
  · rw [hclosed] at hopened
    exact absurd hopened (by simp)
  · exact absurd hopened (by simp)
  · exact App.loginSuccess_opened hstep hhome hhome' hclosed hopened
  · rw [hclosed] at hopened
    exact absurd hopened (by simp)

end Opened

/-! ## What is remembered of a run -/

/-- The answer to a query: the call and the UID it is about, how many documents it
finds, the username that is stored under the UID at that moment, and what the runs
of the callback stamp their events with. -/
structure Fetched where
  call : ℕ
  UID : String
  found : ℕ
  username : Option String
  stamps : List Stamp
deriving DecidableEq

/-- What is remembered of a step. -/
inductive Observation where
  /-- `storeUserDetails` stored a profile of the user -/
  | profiled (user : User)
  /-- `storeFoodSubmission` was called while the user, if any, was signed in -/
  | submitted (call : ℕ) (currentUser : Option User) (args : Submission)
  /-- the query of the call was answered with an error -/
  | failed (call : ℕ)
  | answered (f : Fetched)
deriving DecidableEq

/-- The observation is the call. -/
def Observation.submits (call : ℕ) : Observation → Bool
  | .submitted call' _ _ => call' == call
  | _ => false

/-- The observation is the answer to the query of the call. -/
def Observation.answers (call : ℕ) : Observation → Bool
  | .failed call' => call' == call
  | .answered f => f.call == call
  | _ => false

/-- What is remembered of the answer to a query. -/
def Backend.fetchedOf (b : Backend L) (r : FetchRequest) (stamps : List Stamp) : Fetched where
  call := r.call
  UID := r.UID
  found := (query K b.users r.UID).length
  username := (b.users.lookup r.UID).bind (username? K)
  stamps := stamps

/-- What is remembered of the event `e` of client `n`. -/
def observe (w : World L) : ℕ × ClientEvent → List Observation
  | (n, .registration k .submit) =>
      match (w.clients n).app.session.currentUser, (w.clients n).app.homes[k]? with
      | some user, some home =>
          if home.registration.validate.incomplete then [] else [.profiled user]
      | _, _ => []
  | (n, .form e) =>
      match handle (w.clients n).form e with
      | some (.ok (_, some args)) =>
          [.submitted w.backend.calls (w.clients n).app.session.currentUser args]
      | _ => []
  | (_, .fetched call none) => [.failed call]
  | (n, .fetched call (some stamps)) =>
      match w.backend.queries.find? (fun r => r.client == n && r.call == call) with
      | some r => [.answered (w.backend.fetchedOf K r stamps)]
      | none => []
  | _ => []

/-- All that a step can do to what the clients share, with what is remembered of it. -/
inductive Effect (b : Backend L) : List Observation → Backend L → Prop
  | quiet {b' : Backend L} (users : b'.users = b.users)
      (foodSubmissions : b'.foodSubmissions = b.foodSubmissions) (calls : b'.calls = b.calls)
      (queries : b'.queries.Sublist b.queries) : Effect b [] b'
  | profiled (user : User) (username firstName lastName : String) (favFoods : List String) :
      Effect b [.profiled user]
        { b with users := b.users.setData user.uid
                   (userDocument K username firstName lastName favFoods user.uid) }
  | submitted (n : ℕ) (currentUser : Option User) (args : Submission) :
      Effect b [.submitted b.calls currentUser args] (b.submitted n currentUser args)
  | failed {r : FetchRequest} (mem : r ∈ b.queries) : Effect b [.failed r.call] (b.closed r.call)
  | answered {r : FetchRequest} {stamps : List Stamp} {b' : Backend L} {crash : Option Crash}
      (mem : r ∈ b.queries) (step : b.fetched K r stamps = some (b', crash)) :
      Effect b [.answered (b.fetchedOf K r stamps)] b'

variable {K count}

/-- **What a step does to what the clients share is an effect.** -/
theorem ClientStep.effect {w : World L} {n : ℕ} {e : ClientEvent} {b' : Backend L} {c' : Client}
    (h : ClientStep K count n w.backend (w.clients n) e b' c') :
    Effect K w.backend (observe K w (n, e)) b' := by
  cases h with
  | relaunch => exact .quiet rfl rfl rfl List.filter_sublist
  | app answer step => exact .quiet rfl rfl rfl (List.Sublist.refl _)
  | unheard home_eq request_eq answer => exact .quiet rfl rfl rfl (List.Sublist.refl _)
  | @registrationCrash k e home crash home_eq shown step =>
      have hobs : observe K w (n, .registration k e) = [] := by
        rcases registrationStep_cases step with ⟨rfl, hsubmit⟩ | ⟨hne, -⟩
        · simp only [observe, (RegistrationView.submit_error K hsubmit).1]
        · rcases e <;> first | rfl | exact absurd rfl hne
      rw [hobs]
      exact .quiet rfl rfl rfl (List.Sublist.refl _)
  | @registration k e home registration users home_eq shown step =>
      rcases registrationStep_cases step with ⟨rfl, hsubmit⟩ | ⟨hne, v, hok, -⟩
      · rcases RegistrationView.submit_cases K hsubmit with
          ⟨hinc, rfl, -⟩ | ⟨user, huser, hinc, -, rfl⟩
        · -- a Submit that is rejected
          have hobs : observe K w (n, .registration k .submit) = [] := by
            rcases huser : (w.clients n).app.session.currentUser with _ | user
            · simp only [observe, huser]
            · simp only [observe, home_eq, huser, hinc, if_true]
          rw [hobs]
          exact .quiet rfl rfl rfl (List.Sublist.refl _)
        · -- a Submit that is accepted, so a user is signed in
          have hobs : observe K w (n, .registration k .submit) = [.profiled user] := by
            simp only [observe, home_eq, huser, hinc, Bool.false_eq_true, if_false]
          rw [hobs]
          exact .profiled user _ _ _ _
      · have hobs : observe K w (n, .registration k e) = [] := by
          rcases e <;> first | rfl | exact absurd rfl hne
        obtain ⟨-, rfl⟩ := Prod.mk.inj (Except.ok.inj hok)
        rw [hobs]
        exact .quiet rfl rfl rfl (List.Sublist.refl _)
  | openForm closed shown => exact .quiet rfl rfl rfl (List.Sublist.refl _)
  | formCrash step =>
      simp only [observe, step]
      exact .quiet rfl rfl rfl (List.Sublist.refl _)
  | form step =>
      simp only [observe, step]
      exact .quiet rfl rfl rfl (List.Sublist.refl _)
  | submit step =>
      simp only [observe, step]
      exact .submitted n _ _
  | failed mem find => exact .failed mem
  | fetched mem find step =>
      simp only [observe, find]
      exact .answered mem step

end FreeFood.Deployment
