/-
The forms of the app, over all that can happen to their process.

Each form keeps a flag that presents its alert and, in another variable, the error
that the alert unwraps by force; the food form also unwraps its landmark and indexes
its list of sizes. `SafeFoodForm` and `SafeHome` say what has to hold between these
variables. Every handler of a form restores it whatever came before, so it holds of
every form of every client (`Launched.safe`), and no unwrap or index fails.
-/
import FreeFood.Deployment

set_option autoImplicit false

namespace FreeFood.Forms

open Document Transition FreeFood.Platform FreeFood.SignInModel FreeFood.HomeView
open FreeFood.Registration FreeFood.FoodSubmission FreeFood.LocationSearch FreeFood.App
open FreeFood.Deployment

/-! ## The food form -/

/-- The alert has its error while it is presented, and the size is one of the options. -/
structure SafeFoodForm (v : FoodSubmissionView) : Prop where
  foodError : v.incomplete = true → v.foodError.isSome
  sizeIndex : v.sizeIndex < foodSizeOptions.length

theorem safeFoodForm_new (showSubmission : Bool) : SafeFoodForm { showSubmission } where
  foodError := by simp
  sizeIndex := by simp [foodSizeOptions]

/-- The checks restore the error they raise the flag for. -/
theorem SafeFoodForm.validate {v : FoodSubmissionView} (h : SafeFoodForm v) :
    SafeFoodForm v.validate := by
  rcases v.validate_cases with ⟨-, hv⟩ | ⟨-, error, -, hv⟩
  · rw [hv]
    exact h
  · rw [hv]
    exact ⟨fun _ => rfl, h.sizeIndex⟩

/-- No edit writes the error, and the only one that writes the flag lowers it. -/
theorem SafeFoodForm.editStep {v w : FoodSubmissionView} {e : FormEvent} (h : SafeFoodForm v)
    (he : FoodSubmission.editStep v e = some w) : SafeFoodForm w := by
  obtain ⟨-, herror, hinc, hsize⟩ := editStep_frame he
  constructor
  · intro hup
    rw [herror]
    rcases hinc with heq | hdown
    · exact h.foodError (heq ▸ hup)
    · rw [hdown] at hup
      exact absurd hup (by simp)
  · rcases hsize with heq | hlt
    · rw [heq]
      exact h.sizeIndex
    · exact hlt

/-- A Submit of a safe form does not fail, and leaves a safe form. -/
theorem SafeFoodForm.submit {v : FoodSubmissionView} (h : SafeFoodForm v) :
    ∃ w sub, v.submit = .ok (w, sub) ∧ SafeFoodForm w := by
  rcases hinc : v.validate.incomplete with _ | _
  · obtain ⟨hfilled, hshown⟩ := FoodSubmissionView.filled_of_validate hinc
    obtain ⟨landmark, quantity, -, -, hsubmit⟩ :=
      FoodSubmissionView.submit_of_filled hfilled hshown h.sizeIndex
    exact ⟨_, _, hsubmit, h.foodError, h.sizeIndex⟩
  · have hvalid := h.validate
    exact ⟨_, _, FoodSubmissionView.submit_of_incomplete hinc, hvalid.foodError, hvalid.sizeIndex⟩

/-- Nothing that happens to a safe form fails, and all of it leaves a safe form. -/
theorem SafeFoodForm.handle {v : FoodSubmissionView} {e : FormEvent}
    {r : Except Crash (FoodSubmissionView × Option Submission)} (h : SafeFoodForm v)
    (he : FoodSubmission.handle v e = some r) : ∃ w sub, r = .ok (w, sub) ∧ SafeFoodForm w := by
  obtain ⟨-, ⟨w, hedit, rfl⟩ | ⟨rfl, rfl⟩⟩ := handle_cases he
  · exact ⟨w, none, rfl, h.editStep hedit⟩
  · exact h.submit

/-! ## The forms of a visit to `HomeView` -/

/-- The alerts of the three forms have their errors while they are presented. -/
structure SafeHome (home : Home) : Prop where
  signUp : home.signUp.view.didError = true → home.signUp.view.errorInfo.isSome
  signIn : home.signIn.view.didError = true → home.signIn.view.errorInfo.isSome
  registration : home.registration.incomplete = true → home.registration.formError.isSome

theorem safeHome_new : SafeHome {} where
  signUp := by simp
  signIn := by simp
  registration := by simp

/-- The sign-up form raises `didError` where it writes `errorInfo`. -/
theorem signUpStep_safe {count : String → ℕ} {s : Session} {v : SignUpScreen} {e : SignUpEvent}
    {t : Session × SignUpScreen} (h : signUpStep count (s, v) e = some t)
    (hv : v.view.didError = true → v.view.errorInfo.isSome) :
    t.2.view.didError = true → t.2.view.errorInfo.isSome := by
  rcases signUpStep_cases h with
    ⟨-, -, -, hinfo, herr, -⟩ | ⟨-, rfl⟩ | ⟨-, -, rfl⟩ | ⟨i, ans, -, -, rfl⟩
  · rw [hinfo, herr]
    exact hv
  · unfold SimpleRegisterView.submit
    split_ifs
    · exact hv
    · exact fun _ => rfl
    · exact fun _ => rfl
  · exact fun hup => absurd hup (by simp [SimpleRegisterView.dismissAlert])
  · rcases ans with user | error
    · exact hv
    · exact fun _ => rfl

/-- So does the sign-in form. -/
theorem signInStep_safe {s : Session} {v : SignInScreen} {e : SignInEvent}
    {t : Session × SignInScreen} (h : signInStep (s, v) e = some t)
    (hv : v.view.didError = true → v.view.errorInfo.isSome) :
    t.2.view.didError = true → t.2.view.errorInfo.isSome := by
  rcases signInStep_cases h with
    ⟨-, -, -, hinfo, herr, -⟩ | ⟨-, rfl⟩ | ⟨-, -, rfl⟩ | ⟨i, ans, -, -, rfl⟩
  · rw [hinfo, herr]
    exact hv
  · exact hv
  · exact fun hup => absurd hup (by simp [SimpleLoginView.dismissAlert])
  · rcases ans with user | error
    · exact fun hup => absurd hup (by simp [SimpleLoginView.signedIn])
    · exact fun _ => rfl

/-- And the profile form. -/
theorem registrationStep_safe {L : Type} {K : Codecs L} {currentUser : Option User}
    {users users' : Collection (Value L)} {v w : RegistrationView} {e : RegistrationEvent}
    (h : registrationStep K currentUser users v e = some (.ok (w, users')))
    (hv : v.incomplete = true → v.formError.isSome) :
    w.incomplete = true → w.formError.isSome := by
  rcases registrationStep_cases h with ⟨-, hsubmit⟩ | ⟨-, u, hok, -, herror, hflag⟩
  · rcases RegistrationView.submit_ok K hsubmit with ⟨-, rfl, -⟩ | ⟨user, -, -, -, rfl, -⟩
    · rcases v.validate_cases with ⟨-, hvalid⟩ | ⟨-, error, -, hvalid⟩
      · rw [hvalid]
        exact hv
      · rw [hvalid]
        exact fun _ => rfl
    · exact hv
  · -- no other event writes the error, and the only one that writes the flag lowers it
    obtain ⟨rfl, -⟩ := Prod.mk.inj (Except.ok.inj hok)
    intro hup
    rw [herror]
    rcases hflag with hkeep | hlower
    · exact hv (hkeep ▸ hup)
    · rw [hlower] at hup
      exact absurd hup (by simp)

/-- Every event of a process leaves its homes safe; a new home is. -/
theorem appStep_safe {count : String → ℕ} {a b : FreeFoodApp} {e : AppEvent}
    (h : appStep count a e = some b) (ha : ∀ home ∈ a.homes, SafeHome home) :
    ∀ home ∈ b.homes, SafeHome home := by
  intro home' hmem
  rcases appStep_homes h hmem with
    rfl | hold | ⟨home, hhome, f, t, ht, rfl⟩ | ⟨home, hhome, f, t, ht, rfl⟩
  · exact safeHome_new
  · exact ha home' hold
  · have hsafe := ha home hhome
    refine ⟨signUpStep_safe ht hsafe.signUp, hsafe.signIn, ?_⟩
    unfold Home.setSignUp
    dsimp only
    split_ifs
    · -- the profile form is made anew
      exact fun hup => absurd hup (by simp)
    · exact hsafe.registration
  · have hsafe := ha home hhome
    exact ⟨hsafe.signUp, signInStep_safe ht hsafe.signIn, hsafe.registration⟩

/-! ## The clients -/

/-- The food form and the forms of all homes are safe. -/
structure SafeClient (c : Client) : Prop where
  form : SafeFoodForm c.form
  homes : ∀ home ∈ c.app.homes, SafeHome home

/-- A client whose app has just been launched, for a user who may be signed in. -/
theorem safeClient_launch (persisted : Option User) : SafeClient { app := launch persisted } where
  form := safeFoodForm_new false
  homes := by
    intro home hmem
    rw [List.mem_singleton.mp hmem]
    exact safeHome_new

variable {L : Type} {K : Codecs L} {count : String → ℕ}

/-- **Every step of a client leaves its forms safe.** -/
theorem SafeClient.step {n : ℕ} {b b' : Backend L} {c c' : Client} {e : ClientEvent}
    (hc : SafeClient c) (h : ClientStep K count n b c e b' c') : SafeClient c' := by
  cases h with
  | relaunch => exact safeClient_launch c.app.session.currentUser
  | app answer step => exact ⟨hc.form, appStep_safe step hc.homes⟩
  | unheard home_eq request_eq answer => exact hc
  | registrationCrash home_eq shown step => exact ⟨hc.form, hc.homes⟩
  | @registration k e home registration users home_eq shown step =>
      refine ⟨hc.form, ?_⟩
      intro home' hmem
      have hsafe := hc.homes home (List.mem_of_getElem? home_eq)
      rcases List.mem_or_eq_of_mem_set hmem with hold | rfl
      · exact hc.homes home' hold
      · exact ⟨hsafe.signUp, hsafe.signIn, registrationStep_safe step hsafe.registration⟩
  | openForm closed shown => exact ⟨safeFoodForm_new true, hc.homes⟩
  | formCrash step => exact ⟨hc.form, hc.homes⟩
  | form step =>
      obtain ⟨w, sub, hok, hsafe⟩ := hc.form.handle step
      obtain ⟨rfl, -⟩ := Prod.mk.inj (Except.ok.inj hok)
      exact ⟨hsafe, hc.homes⟩
  | submit step =>
      obtain ⟨w, sub, hok, hsafe⟩ := hc.form.handle step
      obtain ⟨rfl, -⟩ := Prod.mk.inj (Except.ok.inj hok)
      exact ⟨hsafe, hc.homes⟩
  | failed mem find => exact hc
  | fetched mem find step => exact ⟨hc.form, hc.homes⟩

/-- Every client has just been launched. -/
def Launched (w : World L) : Prop := ∀ n, ∃ persisted, w.clients n = { app := launch persisted }

/-- **The forms of every client are safe, in every run.** -/
theorem Launched.safe {w w' : World L} {es : List (ℕ × ClientEvent)} (hw : Launched w)
    (h : run (worldStep K count) w es = some w') (n : ℕ) : SafeClient (w'.clients n) := by
  have hinit : ∀ m, SafeClient (w.clients m) := by
    intro m
    obtain ⟨persisted, hm⟩ := hw m
    rw [hm]
    exact safeClient_launch persisted
  refine run_invariant (I := fun w : World L => ∀ m, SafeClient (w.clients m)) ?_ hinit h n
  rintro a ⟨k, e⟩ b ha hab m
  by_cases hm : m = k
  · subst hm
    exact (ha m).step (worldStep_cases hab)
  · rw [worldStep_frame hab hm]
    exact ha m

/-! ## No unwrap and no index fails -/

/-- **No forced unwrap and no index of the forms can fail.** In every run of any
clients: an alert that is presented has its error, and the text it displays is made;
a food form that passes its checks has a landmark, its size is one of the options, and
nothing that happens to it ends the process. -/
theorem unwraps_never_fail {w w' : World L} {es : List (ℕ × ClientEvent)} (hw : Launched w)
    (h : run (worldStep K count) w es = some w') (n : ℕ) :
    ((w'.clients n).form.incomplete = true → (w'.clients n).form.foodError.isSome)
      ∧ ((w'.clients n).form.validate.incomplete = false →
          (w'.clients n).form.validate.location.landmark.isSome)
      ∧ (w'.clients n).form.sizeIndex < foodSizeOptions.length
      ∧ (∀ e crash, handle (w'.clients n).form e ≠ some (.error crash))
      ∧ (∀ crash, (w'.clients n).form.alert ≠ some (.error crash))
      ∧ ∀ home ∈ (w'.clients n).app.homes,
          (home.signUp.view.didError = true → home.signUp.view.errorInfo.isSome)
            ∧ (∀ crash, home.signUp.view.alert ≠ some (.error crash))
            ∧ (home.signIn.view.didError = true → home.signIn.view.errorInfo.isSome)
            ∧ (∀ crash, home.signIn.view.alert ≠ some (.error crash))
            ∧ (home.registration.incomplete = true → home.registration.formError.isSome)
            ∧ ∀ crash, home.registration.alert ≠ some (.error crash) := by
  obtain ⟨hform, hhomes⟩ := hw.safe h n
  refine ⟨hform.foodError, ?_, hform.sizeIndex, ?_, ?_, ?_⟩
  · intro hvalid
    obtain ⟨hfilled, -⟩ := FoodSubmissionView.filled_of_validate hvalid
    rw [(FoodSubmissionView.validate_frame _).2.1]
    exact Option.isSome_iff_ne_none.mpr hfilled.2.1
  · intro e crash hcrash
    obtain ⟨v, sub, hok, -⟩ := hform.handle hcrash
    exact absurd hok (by simp)
  · exact (presented_ne_error_iff _ _ _).mpr hform.foodError
  · intro home hmem
    obtain ⟨hup, hin, hreg⟩ := hhomes home hmem
    exact ⟨hup, (presented_ne_error_iff _ _ _).mpr hup, hin, (presented_ne_error_iff _ _ _).mpr hin,
      hreg, (presented_ne_error_iff _ _ _).mpr hreg⟩

theorem launched_init : Launched ({} : World L) := fun _ => ⟨none, rfl⟩

/-- A Submit of an empty sign-up form. -/
def submitsNothing : List (ℕ × ClientEvent) := [(0, .app (.signUp 0 .submit))]

/-- The law at that run, which ends with an alert presented. -/
theorem unwraps_never_fail_submitsNothing :
    ∃ w home, run (worldStep (Codecs.firestore fun _ => 0) String.length) {} submitsNothing = some w
      ∧ (w.clients 0).app.homes[0]? = some home ∧ home.signUp.view.didError = true
      ∧ home.signUp.view.errorInfo.isSome := by
  have hhomes := (unwraps_never_fail launched_init
    (show run (worldStep (Codecs.firestore fun _ => 0) String.length) {} submitsNothing = some _
      from rfl) 0).2.2.2.2.2
  exact ⟨_, _, rfl, rfl, rfl, (hhomes _ (List.mem_of_getElem? (show _[0]? = some _ from rfl))).1 rfl⟩

end FreeFood.Forms
