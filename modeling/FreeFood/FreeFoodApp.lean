/-
`FreeFoodApp.swift`: a process of the app, with its `SimpleAuthModel` and the home
screens that share it.

A `HomeView` leads to a sign-up form and a sign-in form, and the sign-up form to a
profile form. Signing out pushes a new `HomeView` on top of the old one, and a form
that is left and opened again starts empty. The old forms do not go away for the
requests they have sent: the answers still come, and still change the session. So a
process has a list of homes, each with the forms of one visit, and any of them may
be answered.

What the app does at launch is as much a part of the wiring as what its views do:
`FreeFoodApp` makes the model and configures Firebase, and nothing in the app calls
`didUserStatusChange`. No listener is ever registered, so `userState` stays
`undefined` (`Unlistened`).
-/
import FreeFood.HomeView
import FreeFood.RegistrationView

set_option autoImplicit false

namespace FreeFood.App

open Transition FreeFood.Platform FreeFood.SignInModel FreeFood.HomeView FreeFood.Registration

/-- The forms of one visit to a `HomeView`. -/
structure Home where
  signUp : SignUpScreen := {}
  signIn : SignInScreen := {}
  registration : RegistrationView := {}
deriving DecidableEq

/-- Whether the forms show `AppView`. -/
def Home.showsAppView (home : Home) : Bool :=
  home.signIn.view.loginSuccess || (home.signUp.view.isRegistered && home.registration.showAppView)

/-- The sign-up form after an event. The profile form is made when it is pushed. -/
def Home.setSignUp (home : Home) (signUp : SignUpScreen) : Home :=
  { home with
    signUp
    registration :=
      if signUp.view.isRegistered && !home.signUp.view.isRegistered then {}
      else home.registration }

/-- A process of the app. -/
structure FreeFoodApp where
  session : Session := {}
  homes : List Home := [({} : Home)]
deriving DecidableEq

/-- The launch of the app on a device where `persisted` is signed in. -/
def launch (persisted : Option User) : FreeFoodApp where
  session := { currentUser := persisted }

/-- What happens to a process of the app, apart from what its collections see. -/
inductive AppEvent where
  | signUp (k : ℕ) (e : SignUpEvent)
  | signIn (k : ℕ) (e : SignInEvent)
  /-- a tap on `LogOutButton`; `throws` is whether Firebase's `signOut` throws -/
  | signOut (throws : Bool)
  /-- the forms are left and opened anew -/
  | reopen
  /-- Firebase drops the session, as when the account is disabled -/
  | sessionEnds
  | notify
deriving DecidableEq

/-- One event of a process. -/
def appStep (count : String → ℕ) (a : FreeFoodApp) : AppEvent → Option FreeFoodApp
  | .signUp k e => do
      let home ← a.homes[k]?
      let (session, signUp) ← signUpStep count (a.session, home.signUp) e
      return { session, homes := a.homes.set k (home.setSignUp signUp) }
  | .signIn k e => do
      let home ← a.homes[k]?
      let (session, signIn) ← signInStep (a.session, home.signIn) e
      return { session, homes := a.homes.set k { home with signIn } }
  | .signOut throws =>
      -- the button is a link to a new `HomeView`, which the same tap pushes
      some { session := a.session.signOut throws, homes := a.homes ++ [({} : Home)] }
  | .reopen => some { a with homes := a.homes ++ [({} : Home)] }
  | .sessionEnds => some { a with session := a.session.setCurrentUser none }
  | .notify => a.session.notify.map fun session => { a with session }

/-- The request that an event sends to the backend, if it sends one. -/
def FreeFoodApp.request (count : String → ℕ) (a : FreeFoodApp) : AppEvent → Option Credentials
  | .signUp k .submit => do
      let home ← a.homes[k]?
      (home.signUp.view.submit count a.session.sam).2
  | .signIn k .submit => do
      let home ← a.homes[k]?
      a.session.sam.signIn home.signIn.view.email home.signIn.view.password
  | _ => none

/-- What one event does to a process: a step of one of its forms, or one of the
other four. -/
theorem appStep_cases {count : String → ℕ} {a b : FreeFoodApp} {e : AppEvent}
    (h : appStep count a e = some b) :
    (∃ k f home t, e = .signUp k f ∧ a.homes[k]? = some home
        ∧ signUpStep count (a.session, home.signUp) f = some t
        ∧ b = ⟨t.1, a.homes.set k (home.setSignUp t.2)⟩)
      ∨ (∃ k f home t, e = .signIn k f ∧ a.homes[k]? = some home
        ∧ signInStep (a.session, home.signIn) f = some t
        ∧ b = ⟨t.1, a.homes.set k { home with signIn := t.2 }⟩)
      ∨ (∃ throws, e = .signOut throws ∧ b = ⟨a.session.signOut throws, a.homes ++ [({} : Home)]⟩)
      ∨ (e = .reopen ∧ b = ⟨a.session, a.homes ++ [({} : Home)]⟩)
      ∨ (e = .sessionEnds ∧ b = ⟨a.session.setCurrentUser none, a.homes⟩)
      ∨ ∃ s, e = .notify ∧ a.session.notify = some s ∧ b = ⟨s, a.homes⟩ := by
  rcases e with ⟨k, f⟩ | ⟨k, f⟩ | throws | _ | _ | _
  · simp only [appStep, Option.bind_eq_bind, Option.bind_eq_some_iff] at h
    obtain ⟨home, hhome, t, ht, hb⟩ := h
    exact Or.inl ⟨k, f, home, t, rfl, hhome, ht, (Option.some.inj hb).symm⟩
  · simp only [appStep, Option.bind_eq_bind, Option.bind_eq_some_iff] at h
    obtain ⟨home, hhome, t, ht, hb⟩ := h
    exact Or.inr (Or.inl ⟨k, f, home, t, rfl, hhome, ht, (Option.some.inj hb).symm⟩)
  · exact Or.inr (Or.inr (Or.inl ⟨throws, rfl, (Option.some.inj h).symm⟩))
  · exact Or.inr (Or.inr (Or.inr (Or.inl ⟨rfl, (Option.some.inj h).symm⟩)))
  · exact Or.inr (Or.inr (Or.inr (Or.inr (Or.inl ⟨rfl, (Option.some.inj h).symm⟩))))
  · rw [appStep, Option.map_eq_some_iff] at h
    obtain ⟨s, hs, rfl⟩ := h
    exact Or.inr (Or.inr (Or.inr (Or.inr (Or.inr ⟨s, rfl, hs, rfl⟩))))

/-- Where a home of a process comes from: it is new, it was there, or an event of one of
its two forms made it of one that was there. -/
theorem appStep_homes {count : String → ℕ} {a b : FreeFoodApp} {e : AppEvent}
    (h : appStep count a e = some b) {home' : Home} (hmem : home' ∈ b.homes) :
    home' = {} ∨ home' ∈ a.homes
      ∨ (∃ home ∈ a.homes, ∃ f t, signUpStep count (a.session, home.signUp) f = some t
        ∧ home' = home.setSignUp t.2)
      ∨ ∃ home ∈ a.homes, ∃ f t, signInStep (a.session, home.signIn) f = some t
        ∧ home' = { home with signIn := t.2 } := by
  have hpushed : home' ∈ a.homes ++ [({} : Home)] → home' = {} ∨ home' ∈ a.homes := by
    intro hmem
    rcases List.mem_append.mp hmem with hold | hnew
    · exact Or.inr hold
    · exact Or.inl (List.mem_singleton.mp hnew)
  rcases appStep_cases h with
    ⟨k, f, home, t, -, hhome, ht, rfl⟩ | ⟨k, f, home, t, -, hhome, ht, rfl⟩
      | ⟨throws, -, rfl⟩ | ⟨-, rfl⟩ | ⟨-, rfl⟩ | ⟨s, -, -, rfl⟩
  · rcases List.mem_or_eq_of_mem_set hmem with hold | heq
    · exact Or.inr (Or.inl hold)
    · exact Or.inr (Or.inr (Or.inl ⟨home, List.mem_of_getElem? hhome, f, t, ht, heq⟩))
  · rcases List.mem_or_eq_of_mem_set hmem with hold | heq
    · exact Or.inr (Or.inl hold)
    · exact Or.inr (Or.inr (Or.inr ⟨home, List.mem_of_getElem? hhome, f, t, ht, heq⟩))
  · exact (hpushed hmem).imp_right Or.inl
  · exact (hpushed hmem).imp_right Or.inl
  · exact Or.inr (Or.inl hmem)
  · exact Or.inr (Or.inl hmem)

/-- An entry of a list one entry of which is set is the new one, or as it was. -/
theorem getElem?_set_cases {α : Type*} {l : List α} {i j : ℕ} {a b c : α}
    (hj : l[j]? = some b) (h : (l.set i a)[j]? = some c) : (i = j ∧ c = a) ∨ c = b := by
  by_cases hij : i = j
  · subst hij
    obtain ⟨hlt, -⟩ := List.getElem?_eq_some_iff.mp hj
    rw [List.getElem?_set_self hlt] at h
    exact Or.inl ⟨rfl, (Option.some.inj h).symm⟩
  · rw [List.getElem?_set_ne hij, hj] at h
    exact Or.inr (Option.some.inj h).symm

/-- An entry of a list stays when the list is extended. -/
theorem getElem?_append_eq {α : Type*} {l l' : List α} {j : ℕ} {b c : α}
    (hj : l[j]? = some b) (h : (l ++ l')[j]? = some c) : c = b := by
  obtain ⟨hlt, -⟩ := List.getElem?_eq_some_iff.mp hj
  rw [List.getElem?_append_left hlt, hj] at h
  exact (Option.some.inj h).symm

/-- What one event does to one home: nothing, or a step of one of its two forms. -/
theorem appStep_home {count : String → ℕ} {a b : FreeFoodApp} {e : AppEvent} {k : ℕ}
    {home home' : Home} (h : appStep count a e = some b) (hhome : a.homes[k]? = some home)
    (hhome' : b.homes[k]? = some home') :
    home' = home
      ∨ (∃ f t, e = .signUp k f ∧ signUpStep count (a.session, home.signUp) f = some t
        ∧ home' = home.setSignUp t.2)
      ∨ ∃ f t, e = .signIn k f ∧ signInStep (a.session, home.signIn) f = some t
        ∧ home' = { home with signIn := t.2 } := by
  rcases appStep_cases h with
    ⟨k', f, home₁, t, rfl, hhome₁, ht, rfl⟩ | ⟨k', f, home₁, t, rfl, hhome₁, ht, rfl⟩
      | ⟨throws, rfl, rfl⟩ | ⟨rfl, rfl⟩ | ⟨rfl, rfl⟩ | ⟨s, rfl, -, rfl⟩
  · rcases getElem?_set_cases hhome hhome' with ⟨rfl, heq⟩ | heq
    · obtain rfl : home = home₁ := Option.some.inj (hhome.symm.trans hhome₁)
      exact Or.inr (Or.inl ⟨f, t, rfl, ht, heq⟩)
    · exact Or.inl heq
  · rcases getElem?_set_cases hhome hhome' with ⟨rfl, heq⟩ | heq
    · obtain rfl : home = home₁ := Option.some.inj (hhome.symm.trans hhome₁)
      exact Or.inr (Or.inr ⟨f, t, rfl, ht, heq⟩)
    · exact Or.inl heq
  · exact Or.inl (getElem?_append_eq hhome hhome')
  · exact Or.inl (getElem?_append_eq hhome hhome')
  · exact Or.inl (Option.some.inj (hhome'.symm.trans hhome))
  · exact Or.inl (Option.some.inj (hhome'.symm.trans hhome))

/-! ## The session -/

/-- The user that an event's answer signs in. -/
def AppEvent.signedIn? : AppEvent → Option User
  | .signUp _ (.answer _ (.success user)) => some user
  | .signIn _ (.answer _ (.success user)) => some user
  | _ => none

/-- What one event does to the session. -/
theorem appStep_session {count : String → ℕ} {a b : FreeFoodApp} {e : AppEvent}
    (h : appStep count a e = some b) :
    (e.signedIn? = none ∧ b.session = a.session)
      ∨ (∃ user, e.signedIn? = some user ∧ (b.session = a.session.registerAnswered (.success user)
          ∨ b.session = a.session.signInAnswered (.success user)))
      ∨ (∃ throws, e = .signOut throws ∧ b.session = a.session.signOut throws)
      ∨ (e = .sessionEnds ∧ b.session = a.session.setCurrentUser none)
      ∨ (e = .notify ∧ a.session.notify = some b.session) := by
  rcases appStep_cases h with
    ⟨k, f, home, t, rfl, -, ht, rfl⟩ | ⟨k, f, home, t, rfl, -, ht, rfl⟩ | ⟨throws, rfl, rfl⟩
      | ⟨rfl, rfl⟩ | ⟨rfl, rfl⟩ | ⟨s, rfl, hs, rfl⟩
  · -- of a form's events only an answer reaches the session
    rcases signUpStep_cases ht with ⟨hf, hs, -⟩ | ⟨rfl, rfl⟩ | ⟨rfl, -, rfl⟩ | ⟨i, ans, rfl, -, rfl⟩
    · refine Or.inl ⟨?_, hs⟩
      rcases f with _ | _ | _ | _ | _ | _ | _ | _ <;> first | rfl | exact absurd hf id
    · exact Or.inl ⟨rfl, rfl⟩
    · exact Or.inl ⟨rfl, rfl⟩
    · rcases ans with user | error
      · exact Or.inr (Or.inl ⟨user, rfl, Or.inl rfl⟩)
      · exact Or.inl ⟨rfl, rfl⟩
  · rcases signInStep_cases ht with ⟨hf, hs, -⟩ | ⟨rfl, rfl⟩ | ⟨rfl, -, rfl⟩ | ⟨i, ans, rfl, -, rfl⟩
    · refine Or.inl ⟨?_, hs⟩
      rcases f with _ | _ | _ | _ | _ | _ <;> first | rfl | exact absurd hf id
    · exact Or.inl ⟨rfl, rfl⟩
    · exact Or.inl ⟨rfl, rfl⟩
    · rcases ans with user | error
      · exact Or.inr (Or.inl ⟨user, rfl, Or.inr rfl⟩)
      · exact Or.inl ⟨rfl, rfl⟩
  · exact Or.inr (Or.inr (Or.inl ⟨throws, rfl, rfl⟩))
  · exact Or.inl ⟨rfl, rfl⟩
  · exact Or.inr (Or.inr (Or.inr (Or.inl ⟨rfl, rfl⟩)))
  · exact Or.inr (Or.inr (Or.inr (Or.inr ⟨rfl, hs⟩)))

/-- The model listens to nothing: no listener is registered, so Firebase owes no call
and `userState` is what it is made with. -/
structure Unlistened (s : Session) : Prop where
  handle : s.sam.userStatusListenerHandle = false
  due : s.due = 0
  userState : s.sam.userState = .undefined

theorem Unlistened.setCurrentUser {s : Session} (h : Unlistened s) (user : Option User) :
    Unlistened (s.setCurrentUser user) := by
  refine ⟨h.handle, ?_, h.userState⟩
  unfold Session.setCurrentUser
  dsimp only
  rw [h.handle, Bool.false_and, if_neg Bool.false_ne_true]
  exact h.due

theorem Unlistened.setRecentlyRegistered {s : Session} (h : Unlistened s) (r : Bool) :
    Unlistened { s with sam := { s.sam with recentlyRegistered := r } } :=
  ⟨h.handle, h.due, h.userState⟩

theorem Unlistened.signOut {s : Session} (h : Unlistened s) (throws : Bool) :
    Unlistened (s.signOut throws) := by
  have hcleared : Unlistened (if s.sam.recentlyRegistered then
      { s with sam := { s.sam with recentlyRegistered := false } } else s) := by
    split_ifs
    · exact h.setRecentlyRegistered false
    · exact h
  unfold Session.signOut
  dsimp only
  rcases throws with _ | _
  · exact hcleared.setCurrentUser none
  · exact hcleared

/-- Nothing that happens to a process makes the model listen. -/
theorem Unlistened.appStep {count : String → ℕ} {a b : FreeFoodApp} {e : AppEvent}
    (ha : Unlistened a.session) (h : appStep count a e = some b) : Unlistened b.session := by
  rcases appStep_session h with
    ⟨-, hs⟩ | ⟨user, -, hs | hs⟩ | ⟨throws, -, hs⟩ | ⟨-, hs⟩ | ⟨-, hs⟩
  · rw [hs]
    exact ha
  · rw [hs]
    exact (ha.setCurrentUser (some user)).setRecentlyRegistered true
  · rw [hs]
    exact ha.setCurrentUser (some user)
  · rw [hs]
    exact ha.signOut throws
  · rw [hs]
    exact ha.setCurrentUser none
  · -- no call is due, so none is made
    rw [Session.notify, if_pos ha.due] at hs
    exact absurd hs (by simp)

/-- So no process of the app ever listens. -/
theorem unlistened_run {count : String → ℕ} {persisted : Option User} {es : List AppEvent}
    {a : FreeFoodApp} (h : run (appStep count) (launch persisted) es = some a) :
    Unlistened a.session :=
  run_invariant (I := fun a : FreeFoodApp => Unlistened a.session)
    (fun _ _ _ ha hab => Unlistened.appStep ha hab) ⟨rfl, rfl, rfl⟩ h

/-- An answer that signs a user in makes that user current. -/
theorem currentUser_of_signedIn {count : String → ℕ} {a b : FreeFoodApp} {e : AppEvent}
    {user : User} (he : e.signedIn? = some user) (h : appStep count a e = some b) :
    b.session.currentUser = some user := by
  rcases appStep_session h with
    ⟨hnone, -⟩ | ⟨u, hu, hs⟩ | ⟨throws, rfl, -⟩ | ⟨rfl, -⟩ | ⟨rfl, -⟩
  · rw [he] at hnone
    exact absurd hnone (by simp)
  · obtain rfl : user = u := Option.some.inj (he.symm.trans hu)
    rcases hs with hs | hs
    · rw [hs]
      rfl
    · rw [hs]
      rfl
  · exact absurd he (by simp [AppEvent.signedIn?])
  · exact absurd he (by simp [AppEvent.signedIn?])
  · exact absurd he (by simp [AppEvent.signedIn?])

/-- A home's login succeeds only by an answer to its sign-in form, and then the user of
the answer is signed in. -/
theorem loginSuccess_opened {count : String → ℕ} {a b : FreeFoodApp} {e : AppEvent} {k : ℕ}
    {home home' : Home} (h : appStep count a e = some b) (hhome : a.homes[k]? = some home)
    (hhome' : b.homes[k]? = some home') (hclosed : home.signIn.view.loginSuccess = false)
    (hopened : home'.signIn.view.loginSuccess = true) :
    ∃ user, b.session.currentUser = some user := by
  rcases appStep_home h hhome hhome' with rfl | ⟨f, t, -, -, rfl⟩ | ⟨f, t, rfl, ht, rfl⟩
  · rw [hclosed] at hopened
    exact absurd hopened (by simp)
  · rw [Home.setSignUp, hclosed] at hopened
    exact absurd hopened (by simp)
  · rcases signInStep_cases ht with
      ⟨-, -, -, -, -, hlog⟩ | ⟨-, rfl⟩ | ⟨-, -, rfl⟩ | ⟨i, ans, rfl, -, rfl⟩
    · rw [hlog, hclosed] at hopened
      exact absurd hopened (by simp)
    · rw [hclosed] at hopened
      exact absurd hopened (by simp)
    · exact absurd hopened (by simp [SimpleLoginView.dismissAlert])
    · rcases ans with user | error
      · exact ⟨user, currentUser_of_signedIn rfl h⟩
      · exact absurd hopened (by simp [SimpleLoginView.signedIn])

/-- Without such an answer, nobody is signed in who was not. -/
theorem currentUser_of_not_signedIn {count : String → ℕ} {a b : FreeFoodApp} {e : AppEvent}
    (he : e.signedIn? = none) (ha : a.session.currentUser = none)
    (h : appStep count a e = some b) : b.session.currentUser = none := by
  rcases appStep_session h with
    ⟨-, hs⟩ | ⟨u, hu, -⟩ | ⟨throws, -, hs⟩ | ⟨-, hs⟩ | ⟨-, hs⟩
  · rw [hs]
    exact ha
  · rw [he] at hu
    exact absurd hu (by simp)
  · rw [hs]
    unfold Session.signOut
    dsimp only
    split_ifs <;> first | exact ha | rfl
  · rw [hs]
    rfl
  · rw [Session.notify, Option.ite_none_left_eq_some] at hs
    rw [← Option.some.inj hs.2]
    exact ha

/-! ## The mirror -/

/-- In the run of `es` from launch, `userState` mirrors the session whenever no
notification is due, and no request is sent while a user is signed in. -/
def MirrorsSession (count : String → ℕ) (persisted : Option User) (es : List AppEvent) : Prop :=
  (∀ t, Visits (appStep count) (launch persisted) es t → t.session.due = 0 →
      (t.session.sam.userState = .signedIn ↔ t.session.currentUser.isSome))
    ∧ ∀ a e b, Takes (appStep count) (launch persisted) es a e b →
        a.session.currentUser.isSome → a.request count e = none

/-- **The mirror is right exactly in the runs in which nobody is ever signed in.** -/
theorem mirrorsSession_iff {count : String → ℕ} {persisted : Option User} {es : List AppEvent}
    {t : FreeFoodApp} (h : run (appStep count) (launch persisted) es = some t) :
    MirrorsSession count persisted es
      ↔ persisted = none ∧ ∀ e ∈ es, e.signedIn? = none := by
  constructor
  · rintro ⟨hmirror, -⟩
    -- the mirror is stuck at `undefined`, so it is right only of a missing user
    have hnone : ∀ u, Visits (appStep count) (launch persisted) es u →
        u.session.currentUser = none := by
      rintro u ⟨pre, hpre, hu⟩
      obtain ⟨-, hdue, hstate⟩ := unlistened_run hu
      have hiff := hmirror u ⟨pre, hpre, hu⟩ hdue
      rw [hstate] at hiff
      simpa using hiff
    refine ⟨hnone _ (visits_self _ _), fun e he => ?_⟩
    obtain ⟨pre, post, rfl⟩ := List.append_of_mem he
    rw [run_append, Option.bind_eq_some_iff] at h
    obtain ⟨a, hpre, hrest⟩ := h
    rw [run_cons, Option.bind_eq_some_iff] at hrest
    obtain ⟨b, hab, -⟩ := hrest
    have hvisit : Visits (appStep count) (launch persisted) (pre ++ e :: post) b := by
      refine ⟨pre ++ [e], ⟨post, by simp⟩, ?_⟩
      rw [run_concat, hpre]
      exact hab
    rcases huser : e.signedIn? with _ | user
    · rfl
    · have hsome := currentUser_of_signedIn huser hab
      rw [hnone b hvisit] at hsome
      exact absurd hsome (by simp)
  · rintro ⟨rfl, hes⟩
    -- with no success among the answers nobody is ever current
    have hnone : ∀ pre u, pre <+: es → run (appStep count) (launch none) pre = some u →
        u.session.currentUser = none := fun pre u hpre hu =>
      run_invariant_of_mem (I := fun a : FreeFoodApp => a.session.currentUser = none)
        (fun a e b he ha hab => currentUser_of_not_signedIn (hes e (hpre.subset he)) ha hab) rfl hu
    constructor
    · rintro u ⟨pre, hpre, hu⟩ -
      rw [(unlistened_run hu).userState, hnone pre u hpre hu]
      simp
    · rintro a e b ⟨pre, hpre, ha, -⟩ hsome
      have hprefix : pre <+: es := (List.prefix_append pre [e]).trans hpre
      rw [hnone pre a hprefix ha] at hsome
      exact absurd hsome (by simp)

/-- A sign-in, and then another tap on Submit. -/
def signInTwice (user : User) : List AppEvent :=
  [.signIn 0 (.editEmail "a@umd.edu"), .signIn 0 (.editPassword "secret42"), .signIn 0 .submit,
    .signIn 0 (.answer 0 (.success user)), .signIn 0 .submit]

/-- The model does not know of the user, and the second request is sent. -/
theorem signInTwice_not_mirrorsSession :
    ¬ ∀ (count : String → ℕ) (persisted : Option User) (es : List AppEvent) (t : FreeFoodApp),
      run (appStep count) (launch persisted) es = some t → MirrorsSession count persisted es := by
  intro hall
  have hmirrors := hall String.length none (signInTwice ⟨"u", by decide⟩) _ rfl
  have hiff := hmirrors.1 _ ⟨signInTwice ⟨"u", by decide⟩, List.prefix_rfl, rfl⟩ rfl
  exact absurd (hiff.mpr rfl) (by decide)

/-- The condition at that run. -/
theorem mirrorsSession_iff_signInTwice :
    MirrorsSession String.length none (signInTwice ⟨"u", by decide⟩)
      ↔ (none : Option User) = none
        ∧ ∀ e ∈ signInTwice ⟨"u", by decide⟩, e.signedIn? = none :=
  mirrorsSession_iff (show run (appStep String.length) (launch none)
    (signInTwice ⟨"u", by decide⟩) = some _ from rfl)

end FreeFood.App
