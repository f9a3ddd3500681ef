/-
`Views/HomeView.swift`: the sign-up form and the sign-in form.

A screen is the state of its view together with the requests it has sent and not
heard of. Its events are what the user does to it and the answers, in any order,
to any of the requests; the session is the device's and outlives the screen.

The two forms differ in what their handlers write. Each branch of the sign-in
form's handler writes both `loginSuccess` and `didError`. The sign-up form's
handler writes only one of `isRegistered` and `didError` in each, and it is the
dismissal of the alert that clears `isRegistered`.
-/
import FreeFood.SignInModel
import FreeFood.Lib.Transition

set_option autoImplicit false

namespace FreeFood.HomeView

open Transition FreeFood.Platform FreeFood.SignInModel

/-- `AuthErrorInfo.AuthErrorType`. -/
inductive AuthErrorType where
  | passwordMismatch
  | passwordTooShort
  | accountMismatch
  | otherError
deriving DecidableEq

/-- `AuthErrorInfo`. -/
structure AuthErrorInfo where
  id : AuthErrorType
  message : String
deriving DecidableEq

/-! ## The sign-up form -/

/-- The `@State` of a `SimpleRegisterView`. -/
structure SimpleRegisterView where
  email : String := ""
  password : String := ""
  repass : String := ""
  isSecured : Bool := true
  isConfirmedSecured : Bool := true
  errorInfo : Option AuthErrorInfo := none
  didError : Bool := false
  isRegistered : Bool := false
deriving DecidableEq

namespace SimpleRegisterView

def passwordMismatch : AuthErrorInfo where
  id := .passwordMismatch
  message := "The passwords did not match.\nPlease try again."

def passwordTooShort : AuthErrorInfo where
  id := .passwordTooShort
  message := "The password entered was too short.\nPasswords must be 6 characters or longer.\n" ++
    "Please try again."

/-- The action of the Submit button: the view after it, and the request that the
call of `register` sends, if it is made and sends one. `count` is `String.count`. -/
def submit (count : String → ℕ) (sam : SimpleAuthModel) (v : SimpleRegisterView) :
    SimpleRegisterView × Option Credentials :=
  -- this asks for seven characters, while the message speaks of six
  if count v.password > 6 then
    if v.password = v.repass then
      (v, sam.register v.email v.password)
    else
      ({ v with errorInfo := some passwordMismatch, didError := true }, none)
  else
    ({ v with errorInfo := some passwordTooShort, didError := true }, none)

/-- The callback passed to `register`. -/
def registered (v : SimpleRegisterView) : Answer → SimpleRegisterView
  -- a failure leaves `isRegistered` as it is, and a success leaves `didError`
  | .failure error => { v with errorInfo := some ⟨.otherError, error⟩, didError := true }
  | .success _ => { v with isRegistered := true }

/-- The alert goes away, which writes the binding it is presented by, and the action
of its button runs. -/
def dismissAlert (v : SimpleRegisterView) : SimpleRegisterView :=
  { v with didError := false, isRegistered := false, email := "", password := "", repass := "" }

/-- The alert of the form. -/
def alert (v : SimpleRegisterView) : Option (Except Crash Alert) :=
  presented v.didError v.errorInfo fun info => ⟨"An error has occurred", info.message⟩

/-- The Submit action rejects what was entered, without a call of `register`. -/
def rejects (count : String → ℕ) (v : SimpleRegisterView) : Bool :=
  !(decide (count v.password > 6) && decide (v.password = v.repass))

end SimpleRegisterView

/-- A sign-up form with its outstanding requests. -/
structure SignUpScreen where
  view : SimpleRegisterView := {}
  outstanding : List Credentials := []
deriving DecidableEq

/-- What happens to a sign-up form. -/
inductive SignUpEvent where
  | editEmail (s : String)
  | editPassword (s : String)
  | editRepass (s : String)
  | toggleSecured
  | toggleConfirmedSecured
  | submit
  | dismissAlert
  | answer (i : ℕ) (a : Answer)
deriving DecidableEq

/-- One event of a sign-up form. The alert can be dismissed while it is shown, and a
request can be answered while it is outstanding. -/
def signUpStep (count : String → ℕ) :
    Session × SignUpScreen → SignUpEvent → Option (Session × SignUpScreen)
  | (s, v), .editEmail t => some (s, { v with view := { v.view with email := t } })
  | (s, v), .editPassword t => some (s, { v with view := { v.view with password := t } })
  | (s, v), .editRepass t => some (s, { v with view := { v.view with repass := t } })
  | (s, v), .toggleSecured =>
      some (s, { v with view := { v.view with isSecured := !v.view.isSecured } })
  | (s, v), .toggleConfirmedSecured =>
      some (s, { v with view := { v.view with isConfirmedSecured := !v.view.isConfirmedSecured } })
  | (s, v), .submit =>
      let (view, request) := v.view.submit count s.sam
      some (s, { view, outstanding := v.outstanding ++ request.toList })
  | (s, v), .dismissAlert =>
      if v.view.didError then some (s, { v with view := v.view.dismissAlert }) else none
  | (s, v), .answer i a =>
      if i < v.outstanding.length then
        some (s.registerAnswered a, ⟨v.view.registered a, v.outstanding.eraseIdx i⟩)
      else none

/-- An event that only changes what is entered or how it is displayed. -/
def SignUpEvent.IsEdit : SignUpEvent → Prop
  | .submit | .dismissAlert | .answer _ _ => False
  | _ => True

/-- What one event does to a sign-up form. Everything proved about the form below
comes from these four cases. -/
theorem signUpStep_cases {count : String → ℕ} {s : Session} {v : SignUpScreen} {e : SignUpEvent}
    {t : Session × SignUpScreen} (h : signUpStep count (s, v) e = some t) :
    (e.IsEdit ∧ t.1 = s ∧ t.2.outstanding = v.outstanding
        ∧ t.2.view.errorInfo = v.view.errorInfo ∧ t.2.view.didError = v.view.didError
        ∧ t.2.view.isRegistered = v.view.isRegistered)
      ∨ (e = .submit ∧ t = (s, ⟨(v.view.submit count s.sam).1,
          v.outstanding ++ (v.view.submit count s.sam).2.toList⟩))
      ∨ (e = .dismissAlert ∧ v.view.didError = true
          ∧ t = (s, { v with view := v.view.dismissAlert }))
      ∨ ∃ i a, e = .answer i a ∧ i < v.outstanding.length
          ∧ t = (s.registerAnswered a, ⟨v.view.registered a, v.outstanding.eraseIdx i⟩) := by
  rcases e with _ | _ | _ | _ | _ | _ | _ | ⟨i, a⟩
  case submit => exact Or.inr (Or.inl ⟨rfl, (Option.some.inj h).symm⟩)
  case dismissAlert =>
    rw [signUpStep, Option.ite_none_right_eq_some] at h
    exact Or.inr (Or.inr (Or.inl ⟨rfl, h.1, (Option.some.inj h.2).symm⟩))
  case answer =>
    rw [signUpStep, Option.ite_none_right_eq_some] at h
    exact Or.inr (Or.inr (Or.inr ⟨i, a, rfl, h.1, (Option.some.inj h.2).symm⟩))
  all_goals
    obtain rfl := Option.some.inj h
    exact Or.inl ⟨trivial, rfl, rfl, rfl, rfl, rfl⟩

/-- A Submit that is rejected on the spot shows the alert, and any other leaves the
flags as they are. `isRegistered` is not written either way. -/
theorem SimpleRegisterView.submit_flags (count : String → ℕ) (sam : SimpleAuthModel)
    (v : SimpleRegisterView) :
    (v.submit count sam).1.didError = (v.rejects count || v.didError)
      ∧ (v.submit count sam).1.isRegistered = v.isRegistered := by
  unfold submit rejects
  by_cases hlen : count v.password > 6
  · by_cases heq : v.password = v.repass
    · rw [if_pos hlen, if_pos heq, ← heq]
      simp [hlen]
    · rw [if_pos hlen, if_neg heq]
      simp [heq]
  · rw [if_neg hlen]
    simp [hlen]

/-- In the run of `es` on a new form, a registration that succeeded is never undone:
the two flags are at no moment both up, and `isRegistered` never goes down. -/
def KeepsRegistration (count : String → ℕ) (s : Session) (es : List SignUpEvent) : Prop :=
  (∀ t, Visits (signUpStep count) (s, {}) es t →
      ¬ (t.2.view.isRegistered = true ∧ t.2.view.didError = true))
    ∧ ∀ a e b, Takes (signUpStep count) (s, {}) es a e b →
        a.2.view.isRegistered = true → b.2.view.isRegistered = true

/-- The event does not raise one flag while the other is up: a failure answer and a
Submit rejected on the spot come while `isRegistered` is false, a success answer
comes while `didError` is false. -/
def NoClash (count : String → ℕ) (a : Session × SignUpScreen) : SignUpEvent → Prop
  | .submit => a.2.view.rejects count = true → a.2.view.isRegistered = false
  | .answer _ (.failure _) => a.2.view.isRegistered = false
  | .answer _ (.success _) => a.2.view.didError = false
  | _ => True

/-- One step: from a form whose flags are not both up, an event keeps them so and
keeps `isRegistered` exactly when it does not clash. -/
theorem signUpStep_keeps_iff (count : String → ℕ) (a : Session × SignUpScreen) (e : SignUpEvent)
    (b : Session × SignUpScreen)
    (ha : ¬ (a.2.view.isRegistered = true ∧ a.2.view.didError = true))
    (hab : signUpStep count a e = some b) :
    (¬ (b.2.view.isRegistered = true ∧ b.2.view.didError = true)
        ∧ (a.2.view.isRegistered = true → b.2.view.isRegistered = true))
      ↔ NoClash count a e := by
  obtain ⟨s, v⟩ := a
  rcases signUpStep_cases hab with
    ⟨he, -, -, -, herr, hreg⟩ | ⟨rfl, rfl⟩ | ⟨rfl, herr, rfl⟩ | ⟨i, ans, rfl, -, rfl⟩
  · -- an edit writes no flag and never clashes
    have hclash : NoClash count (s, v) e := by
      rcases e with _ | _ | _ | _ | _ | _ | _ | _ <;> first | exact trivial | exact absurd he id
    rw [herr, hreg]
    exact ⟨fun _ => hclash, fun _ => ⟨ha, id⟩⟩
  · obtain ⟨herr, hreg⟩ := SimpleRegisterView.submit_flags count s.sam v.view
    simp only [NoClash, herr, hreg]
    rcases hrej : v.view.rejects count with _ | _
    · simpa using ha
    · simp
  · -- the alert is up, so a registered form is excluded and nothing can be undone
    have hreg : v.view.isRegistered = false := by
      rcases h : v.view.isRegistered with _ | _
      · rfl
      · exact absurd ⟨h, herr⟩ ha
    simp [NoClash, SimpleRegisterView.dismissAlert, hreg]
  · rcases ans with user | error
    · simp [NoClash, SimpleRegisterView.registered]
    · simp [NoClash, SimpleRegisterView.registered]

/-- **A registration is kept exactly when no event clashes.** The handler of the
form's answers raises one flag without lowering the other, as the sign-in form's
does, and the dismissal of the alert lowers both. -/
theorem keepsRegistration_iff {count : String → ℕ} {s : Session} {es : List SignUpEvent}
    {t : Session × SignUpScreen} (h : run (signUpStep count) (s, {}) es = some t) :
    KeepsRegistration count s es ↔ AllSteps (signUpStep count) (NoClash count) (s, {}) es := by
  have hinit : ¬ ((({} : SignUpScreen).view.isRegistered = true)
      ∧ ({} : SignUpScreen).view.didError = true) := by decide
  -- the two halves of the property are joined into one of each transition, for which the
  -- condition on the steps is exact
  refine Iff.trans ?_ (forall_takes_iff_allSteps (signUpStep_keeps_iff count)
    (fun a e b _ _ hb => hb.1) hinit h)
  constructor
  · rintro ⟨hvisits, htakes⟩ a e b hab
    exact ⟨hvisits b ((visits_iff h).mpr (Or.inr ⟨a, e, hab⟩)), htakes a e b hab⟩
  · intro hall
    -- a state of the run is the new form or the end of a transition
    refine ⟨fun u hu => ?_, fun a e b hab => (hall a e b hab).2⟩
    rcases (visits_iff h).mp hu with rfl | ⟨a, e, hab⟩
    · exact hinit
    · exact (hall a e u hab).1

/-- Two taps on Submit before the first is answered: the second request asks for the
email that the first has taken. -/
def doubleSubmit (user : User) : List SignUpEvent :=
  [.editEmail "a@umd.edu", .editPassword "secret42", .editRepass "secret42", .submit, .submit,
    .answer 0 (.success user), .answer 0 (.failure "The email address is already in use.")]

/-- With the second tap's failure both flags are up, and the dismissal of its alert
then takes the registered user off the next screen. -/
theorem doubleSubmit_not_keepsRegistration :
    ¬ ∀ (count : String → ℕ) (s : Session) (es : List SignUpEvent) (t : Session × SignUpScreen),
      run (signUpStep count) (s, {}) es = some t → KeepsRegistration count s es := by
  intro hall
  have hkeeps := hall String.length {} (doubleSubmit ⟨"u", by decide⟩) _ rfl
  exact hkeeps.1 _ ⟨doubleSubmit ⟨"u", by decide⟩, List.prefix_rfl, rfl⟩ ⟨rfl, rfl⟩

/-- The condition at the run that breaks it. -/
theorem keepsRegistration_iff_doubleSubmit :
    KeepsRegistration String.length {} (doubleSubmit ⟨"u", by decide⟩)
      ↔ AllSteps (signUpStep String.length) (NoClash String.length) ({}, {})
          (doubleSubmit ⟨"u", by decide⟩) :=
  keepsRegistration_iff (show run (signUpStep String.length) ({}, {})
    (doubleSubmit ⟨"u", by decide⟩) = some _ from rfl)

/-! ## The sign-in form -/

/-- The `@State` of a `SimpleLoginView`. -/
structure SimpleLoginView where
  email : String := ""
  password : String := ""
  repass : String := ""
  isSecured : Bool := true
  errorInfo : Option AuthErrorInfo := none
  loginSuccess : Bool := false
  didError : Bool := false
deriving DecidableEq

namespace SimpleLoginView

/-- The callback passed to `signIn`. -/
def signedIn (v : SimpleLoginView) : Answer → SimpleLoginView
  | .failure error =>
      { v with errorInfo := some ⟨.otherError, error⟩, didError := true, loginSuccess := false }
  | .success _ => { v with loginSuccess := true, didError := false }

/-- The alert goes away and the action of its button runs. -/
def dismissAlert (v : SimpleLoginView) : SimpleLoginView :=
  { v with didError := false, loginSuccess := false, email := "", password := "" }

/-- The alert of the form. -/
def alert (v : SimpleLoginView) : Option (Except Crash Alert) :=
  presented v.didError v.errorInfo fun info => ⟨"An error has occurred", info.message⟩

end SimpleLoginView

/-- A sign-in form with its outstanding requests. -/
structure SignInScreen where
  view : SimpleLoginView := {}
  outstanding : List Credentials := []
deriving DecidableEq

/-- What happens to a sign-in form. -/
inductive SignInEvent where
  | editEmail (s : String)
  | editPassword (s : String)
  | toggleSecured
  | submit
  | dismissAlert
  | answer (i : ℕ) (a : Answer)
deriving DecidableEq

/-- One event of a sign-in form. -/
def signInStep : Session × SignInScreen → SignInEvent → Option (Session × SignInScreen)
  | (s, v), .editEmail t => some (s, { v with view := { v.view with email := t } })
  | (s, v), .editPassword t => some (s, { v with view := { v.view with password := t } })
  | (s, v), .toggleSecured =>
      some (s, { v with view := { v.view with isSecured := !v.view.isSecured } })
  | (s, v), .submit =>
      some (s, { v with outstanding := v.outstanding ++
        (s.sam.signIn v.view.email v.view.password).toList })
  | (s, v), .dismissAlert =>
      if v.view.didError then some (s, { v with view := v.view.dismissAlert }) else none
  | (s, v), .answer i a =>
      if i < v.outstanding.length then
        some (s.signInAnswered a, ⟨v.view.signedIn a, v.outstanding.eraseIdx i⟩)
      else none

/-- An event that only changes what is entered or how it is displayed. -/
def SignInEvent.IsEdit : SignInEvent → Prop
  | .submit | .dismissAlert | .answer _ _ => False
  | _ => True

/-- What one event does to a sign-in form. -/
theorem signInStep_cases {s : Session} {v : SignInScreen} {e : SignInEvent}
    {t : Session × SignInScreen} (h : signInStep (s, v) e = some t) :
    (e.IsEdit ∧ t.1 = s ∧ t.2.outstanding = v.outstanding
        ∧ t.2.view.errorInfo = v.view.errorInfo ∧ t.2.view.didError = v.view.didError
        ∧ t.2.view.loginSuccess = v.view.loginSuccess)
      ∨ (e = .submit ∧ t = (s, { v with
          outstanding := v.outstanding ++ (s.sam.signIn v.view.email v.view.password).toList }))
      ∨ (e = .dismissAlert ∧ v.view.didError = true
          ∧ t = (s, { v with view := v.view.dismissAlert }))
      ∨ ∃ i a, e = .answer i a ∧ i < v.outstanding.length
          ∧ t = (s.signInAnswered a, ⟨v.view.signedIn a, v.outstanding.eraseIdx i⟩) := by
  rcases e with _ | _ | _ | _ | _ | ⟨i, a⟩
  case submit => exact Or.inr (Or.inl ⟨rfl, (Option.some.inj h).symm⟩)
  case dismissAlert =>
    rw [signInStep, Option.ite_none_right_eq_some] at h
    exact Or.inr (Or.inr (Or.inl ⟨rfl, h.1, (Option.some.inj h.2).symm⟩))
  case answer =>
    rw [signInStep, Option.ite_none_right_eq_some] at h
    exact Or.inr (Or.inr (Or.inr ⟨i, a, rfl, h.1, (Option.some.inj h.2).symm⟩))
  all_goals
    obtain rfl := Option.some.inj h
    exact Or.inl ⟨trivial, rfl, rfl, rfl, rfl, rfl⟩

/-- The answer an event delivers. -/
def SignInEvent.answer? : SignInEvent → Option Answer
  | .answer _ a => some a
  | _ => none

/-- The answers delivered by a run, in their order. -/
def answers (es : List SignInEvent) : List Answer := es.filterMap SignInEvent.answer?

theorem answers_concat_answer (es : List SignInEvent) (i : ℕ) (a : Answer) :
    answers (es ++ [.answer i a]) = answers es ++ [a] := by
  simp [answers, SignInEvent.answer?]

theorem answers_concat_other (es : List SignInEvent) {e : SignInEvent} (h : e.answer? = none) :
    answers (es ++ [e]) = answers es := by
  simp [answers, h]

/-- What the flags of a sign-in form and the session say of the answers so far. -/
structure Reflects (as : List Answer) (t : Session × SignInScreen) : Prop where
  exclusive : ¬ (t.2.view.loginSuccess = true ∧ t.2.view.didError = true)
  loginSuccess_iff : t.2.view.loginSuccess = true ↔ ∃ user, as.getLast? = some (.success user)
  signedIn_iff : t.1.currentUser.isSome ↔ ∃ user, Answer.success user ∈ as

/-- One step: an answer is appended to those reflected, and nothing else counts. -/
theorem Reflects.step {es : List SignInEvent} {a b : Session × SignInScreen} {e : SignInEvent}
    (ha : Reflects (answers es) a) (hab : signInStep a e = some b) :
    Reflects (answers (es ++ [e])) b := by
  obtain ⟨s, v⟩ := a
  rcases signInStep_cases hab with
    ⟨he, hs, -, -, herr, hlog⟩ | ⟨rfl, rfl⟩ | ⟨rfl, herr, rfl⟩ | ⟨i, ans, rfl, -, rfl⟩
  · have hnone : e.answer? = none := by
      rcases e with _ | _ | _ | _ | _ | _ <;> first | rfl | exact absurd he id
    rw [answers_concat_other es hnone]
    refine ⟨?_, ?_, ?_⟩
    · rw [herr, hlog]; exact ha.exclusive
    · rw [hlog]; exact ha.loginSuccess_iff
    · rw [hs]; exact ha.signedIn_iff
  · rw [answers_concat_other es rfl]
    exact ⟨ha.exclusive, ha.loginSuccess_iff, ha.signedIn_iff⟩
  · -- the alert is up, so `loginSuccess` is already false when its dismissal clears it
    have hlog : ¬ v.view.loginSuccess = true := fun h => ha.exclusive ⟨h, herr⟩
    rw [answers_concat_other es rfl]
    refine ⟨?_, ?_, ha.signedIn_iff⟩
    · simp [SimpleLoginView.dismissAlert]
    · rw [← ha.loginSuccess_iff]
      simp [SimpleLoginView.dismissAlert, hlog]
  · rw [answers_concat_answer]
    rcases ans with user | error
    · refine ⟨?_, ?_, ?_⟩
      · simp [SimpleLoginView.signedIn]
      · simp [SimpleLoginView.signedIn]
      · simp [Session.signInAnswered]
    · refine ⟨?_, ?_, ?_⟩
      · simp [SimpleLoginView.signedIn]
      · simp [SimpleLoginView.signedIn]
      · have hsigned := ha.signedIn_iff
        simpa [Session.signInAnswered] using hsigned

/-- **The sign-in form speaks of the last answer, the session of all of them.** The
two flags are never both up; `loginSuccess` is up exactly when the last answer
delivered was a success, and a user is signed in exactly when some answer was. So
they disagree exactly when a failure was delivered last, after a success. -/
theorem signIn_reflects_answers {s : Session} (hs : s.currentUser = none) {es : List SignInEvent}
    {t : Session × SignInScreen} (h : run signInStep (s, {}) es = some t) :
    ¬ (t.2.view.loginSuccess = true ∧ t.2.view.didError = true)
      ∧ (t.2.view.loginSuccess = true ↔ ∃ user, (answers es).getLast? = some (.success user))
      ∧ (t.1.currentUser.isSome ↔ ∃ user, Answer.success user ∈ answers es)
      ∧ ((t.2.view.loginSuccess = true ↔ t.1.currentUser.isSome)
          ↔ ¬ ((∃ error, (answers es).getLast? = some (.failure error))
              ∧ ∃ user, Answer.success user ∈ answers es)) := by
  have hinit : Reflects (answers []) ((s, {}) : Session × SignInScreen) := by
    refine ⟨by simp, by simp [answers], ?_⟩
    simp [answers, hs]
  -- the induction carries the whole list of answers, of which the form keeps the last
  obtain ⟨hexcl, hlog, huser⟩ := run_induction (motive := fun es t => Reflects (answers es) t)
    hinit (fun es a e b _ ha hab => ha.step hab) es t h
  refine ⟨hexcl, hlog, huser, ?_⟩
  rw [hlog, huser]
  rcases hlast : (answers es).getLast? with _ | a
  · -- no answer at all
    have hnil := List.getLast?_eq_none_iff.mp hlast
    simp [hnil]
  · have hmem : a ∈ answers es := List.mem_of_getLast? hlast
    rcases a with user | error
    · -- a success came last, and both sides hold
      simp only [Option.some.injEq, Answer.success.injEq, reduceCtorEq, exists_false, false_and,
        not_false_eq_true, iff_true]
      exact ⟨fun _ => ⟨user, hmem⟩, fun _ => ⟨user, rfl⟩⟩
    · -- a failure came last: the form says no, the session what it said before
      simp only [Option.some.injEq, reduceCtorEq, exists_false, false_iff, Answer.failure.injEq,
        exists_eq', true_and]

/-- Two taps on Submit, the first answered with a success and the second with a
failure. -/
def successThenFailure (user : User) : List SignInEvent :=
  [.editEmail "a@umd.edu", .editPassword "secret42", .submit, .submit,
    .answer 0 (.success user), .answer 0 (.failure "A network error has occurred.")]

/-- No request is outstanding and a user is signed in, and the form says otherwise. -/
theorem successThenFailure_disagrees :
    ¬ ∀ (s : Session) (es : List SignInEvent) (t : Session × SignInScreen),
      s.currentUser = none → run signInStep (s, {}) es = some t →
        ¬ (t.2.view.loginSuccess = true ∧ t.2.view.didError = true)
          ∧ (t.2.outstanding = [] → (t.2.view.loginSuccess = true ↔ t.1.currentUser.isSome)) := by
  intro hall
  have hagree := (hall {} (successThenFailure ⟨"u", by decide⟩) _ rfl rfl).2 rfl
  exact absurd (hagree.mpr rfl) (by decide)

/-- The law at that run. -/
theorem signIn_reflects_answers_successThenFailure :
    ∃ t, run signInStep ({}, {}) (successThenFailure ⟨"u", by decide⟩) = some t
      ∧ ¬ (t.2.view.loginSuccess = true ∧ t.2.view.didError = true) :=
  ⟨_, rfl, (signIn_reflects_answers (show ({} : Session).currentUser = none from rfl)
    (show run signInStep ({}, {}) (successThenFailure ⟨"u", by decide⟩) = some _ from rfl)).1⟩

end FreeFood.HomeView
