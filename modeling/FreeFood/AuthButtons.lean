/-
Two buttons of `Views/HomeView.swift` that act on the authentication model: Submit of
the sign-up form, and `LogOutButton`.

The first decides by a number that is one off from the number it tells the user
(`passwordRule_iff`). The second does three things at one tap, of which the backend
can refuse only one (`signOut_iff`).
-/
import FreeFood.FreeFoodApp

set_option autoImplicit false

namespace FreeFood.App

open Transition FreeFood.Platform FreeFood.SignInModel FreeFood.HomeView

/-! ## The password rule -/

/-- The kind of the alert that a sign-up form shows, if it shows one. -/
def alertKind (v : SimpleRegisterView) : Option AuthErrorType :=
  if v.didError then v.errorInfo.map AuthErrorInfo.id else none

/-- Submit goes by the rule that its message states: a password of six characters or
more that is confirmed is sent with the email, any other is not sent, and the alert
says which half of the rule it breaks. -/
structure PasswordRule (count : String → ℕ) (sam : SimpleAuthModel) (v : SimpleRegisterView) :
    Prop where
  request : (v.submit count sam).2 =
    if 6 ≤ count v.password ∧ v.password = v.repass then some ⟨v.email, v.password⟩ else none
  tooShort : alertKind (v.submit count sam).1 = some .passwordTooShort ↔ count v.password < 6
  mismatch : alertKind (v.submit count sam).1 = some .passwordMismatch
    ↔ 6 ≤ count v.password ∧ v.password ≠ v.repass

variable {count : String → ℕ}

/-- The first check of Submit refuses six characters too. -/
theorem submit_short (sam : SimpleAuthModel) {v : SimpleRegisterView}
    (hlen : count v.password ≤ 6) :
    alertKind (v.submit count sam).1 = some .passwordTooShort ∧ (v.submit count sam).2 = none := by
  unfold SimpleRegisterView.submit
  rw [if_neg (by omega)]
  exact ⟨rfl, rfl⟩

theorem submit_unconfirmed (sam : SimpleAuthModel) {v : SimpleRegisterView}
    (hlen : 6 < count v.password) (hne : v.password ≠ v.repass) :
    alertKind (v.submit count sam).1 = some .passwordMismatch ∧ (v.submit count sam).2 = none := by
  unfold SimpleRegisterView.submit
  rw [if_pos hlen, if_neg hne]
  exact ⟨rfl, rfl⟩

theorem submit_registers (sam : SimpleAuthModel) {v : SimpleRegisterView}
    (hlen : 6 < count v.password) (heq : v.password = v.repass) :
    v.submit count sam = (v, sam.register v.email v.password) := by
  unfold SimpleRegisterView.submit
  rw [if_pos hlen, if_pos heq]

/-- Where the model sends what it is given, only passwords of exactly six characters are
treated otherwise. -/
theorem passwordRule_of_admits {sam : SimpleAuthModel} {v : SimpleRegisterView}
    (hadmits : sam.admits = true) (hshown : v.didError = false) :
    PasswordRule count sam v ↔ count v.password ≠ 6 := by
  constructor
  · intro hrule hsix
    -- the form finds six characters too short, while its rule does not
    have hlt := hrule.tooShort.mp (submit_short sam (by omega)).1
    omega
  · intro hsix
    by_cases hlen : count v.password ≤ 6
    · obtain ⟨hkind, hnone⟩ := submit_short sam hlen
      constructor
      · rw [hnone, if_neg (by omega)]
      · exact iff_of_true hkind (by omega)
      · rw [hkind]
        exact iff_of_false (by decide) (by omega)
    · have hlt : 6 < count v.password := by omega
      by_cases heq : v.password = v.repass
      · have hregister : sam.register v.email v.password = some ⟨v.email, v.password⟩ :=
          if_pos hadmits
        have hquiet : alertKind v = none := by
          unfold alertKind
          rw [hshown]
          rfl
        have hsubmit := submit_registers sam hlt heq
        constructor
        · rw [hsubmit, hregister, if_pos ⟨by omega, heq⟩]
        · rw [hsubmit, hquiet]
          exact iff_of_false (by simp) (by omega)
        · rw [hsubmit, hquiet]
          exact iff_of_false (by simp) fun h => h.2 heq
      · obtain ⟨hkind, hnone⟩ := submit_unconfirmed sam hlt heq
        constructor
        · rw [hnone, if_neg fun h => heq h.2]
        · rw [hkind]
          exact iff_of_false (by decide) (by omega)
        · exact iff_of_true hkind ⟨by omega, heq⟩

/-- **The sign-up form goes by its own rule exactly for passwords that do not have six
characters.** In every state of the app, whatever is entered in a form on which no alert
is shown, Submit takes six characters for too few and otherwise does what its message
says. -/
theorem passwordRule_iff {persisted : Option User} {es : List AppEvent} {a : FreeFoodApp}
    (h : run (appStep count) (launch persisted) es = some a) {v : SimpleRegisterView}
    (hshown : v.didError = false) :
    PasswordRule count a.session.sam v ↔ count v.password ≠ 6 := by
  apply passwordRule_of_admits _ hshown
  -- the model does not listen, so it holds no request back
  unfold SimpleAuthModel.admits
  rw [(unlistened_run h).userState]
  rfl

/-- Six characters, entered twice. -/
def sixCharacters : SimpleRegisterView where
  email := "ada@umd.edu"
  password := "secret"
  repass := "secret"

/-- They are long enough for the message, and are not sent. -/
theorem sixCharacters_not_passwordRule :
    ¬ ∀ (count : String → ℕ) (persisted : Option User) (es : List AppEvent) (a : FreeFoodApp)
      (v : SimpleRegisterView), run (appStep count) (launch persisted) es = some a →
        a.session.currentUser = none → v.didError = false → PasswordRule count a.session.sam v := by
  intro hall
  have hrule := hall String.length none [] _ sixCharacters rfl rfl rfl
  exact absurd hrule.request (by decide)

/-- The law for these characters. -/
theorem passwordRule_iff_sixCharacters :
    PasswordRule String.length (launch none).session.sam sixCharacters
      ↔ sixCharacters.password.length ≠ 6 :=
  passwordRule_iff (show run (appStep String.length) (launch none) [] = some _ from rfl) rfl

/-! ## Sign-out -/

/-- A tap on Sign Out is all or nothing: the user is signed out, the flag is cleared and a
new `HomeView` is shown, or all three stay as they were. -/
def AllOrNothing (a b : FreeFoodApp) : Prop :=
  (b.session.currentUser = none ∧ b.session.sam.recentlyRegistered = false
      ∧ b.homes = a.homes ++ [({} : Home)])
    ∨ (b.session.currentUser = a.session.currentUser
      ∧ b.session.sam.recentlyRegistered = a.session.sam.recentlyRegistered ∧ b.homes = a.homes)

/-- **Sign-out shows a new `HomeView` and clears the flag in any case, and signs the user
out unless Firebase's own `signOut` throws.** So it is all or nothing exactly if that
does not throw, or nobody is signed in. -/
theorem signOut_iff (a : FreeFoodApp) (throws : Bool) :
    ∃ b, appStep count a (.signOut throws) = some b
      ∧ b.homes = a.homes ++ [({} : Home)]
      ∧ b.session.sam.recentlyRegistered = false
      ∧ b.session.currentUser = (if throws then a.session.currentUser else none)
      ∧ (AllOrNothing a b ↔ throws = false ∨ a.session.currentUser = none) := by
  have hflag := a.session.signOut_recentlyRegistered throws
  have huser := a.session.signOut_currentUser throws
  refine ⟨_, rfl, rfl, hflag, huser, ?_⟩
  unfold AllOrNothing
  dsimp only
  rw [hflag, huser]
  constructor
  · rintro (⟨hnone, -⟩ | ⟨-, -, hhomes⟩)
    · rcases throws with _ | _
      · exact Or.inl rfl
      · exact Or.inr hnone
    · -- a home is pushed, so the homes are not as they were
      exact absurd hhomes (by simp)
  · rintro (rfl | hnone)
    · exact Or.inl ⟨rfl, rfl, rfl⟩
    · rw [hnone, ite_self]
      exact Or.inl ⟨rfl, rfl, rfl⟩

/-- A user signs in and is shown `AppView`. -/
def opensAppView : List AppEvent :=
  [.signIn 0 (.editEmail "grace@umd.edu"), .signIn 0 (.editPassword "secret42"), .signIn 0 .submit,
    .signIn 0 (.answer 0 (.success ⟨"grace", by decide⟩))]

/-- A user stays signed in behind a new `HomeView`, also where `AppView` and its button are
shown. -/
theorem signOut_throws_not_allOrNothing :
    ¬ ∀ (count : String → ℕ) (persisted : Option User) (es : List AppEvent) (a b : FreeFoodApp)
      (throws : Bool), run (appStep count) (launch persisted) es = some a →
        (∃ home ∈ a.homes, home.showsAppView = true) →
          appStep count a (.signOut throws) = some b → AllOrNothing a b := by
  intro hall
  have hatomic := hall String.length none opensAppView _ _ true rfl
    ⟨_, List.mem_singleton_self _, rfl⟩ rfl
  unfold AllOrNothing at hatomic
  exact absurd hatomic (by decide)

end FreeFood.App
