/-
`Views/RegistrationView.swift`: the profile form, and the write of a profile.

`storeUserDetails` stores a user's profile under the user's own UID. It goes on with
an empty UID where no user is signed in, and then `document(_:)` raises: the write
is not made and the process ends.
-/
import FreeFood.SignInModel
import FreeFood.Lib.Transition
import Mathlib.Data.List.Sort

set_option autoImplicit false

namespace FreeFood.Registration

open Document FreeFood.Platform FreeFood.SignInModel

/-! ## The foods of the selection list -/

/-- `Food` of `Models/Model.swift`, with its raw values. -/
inductive Food where
  | american
  | asian
  | mediterranean
  | mexican
  | italian
  | desserts
  | snacks
  | vegan
  | vegetarian
  | keto
deriving DecidableEq

namespace Food

def rawValue : Food → String
  | american => "American"
  | asian => "Asian"
  | mediterranean => "Mediterranean"
  | mexican => "Mexican"
  | italian => "Italian"
  | desserts => "Desserts"
  | snacks => "Snacks"
  | vegan => "Vegan"
  | vegetarian => "Vegetarian"
  | keto => "Keto"

def allCases : List Food :=
  [american, asian, mediterranean, mexican, italian, desserts, snacks, vegan, vegetarian, keto]

end Food

/-- `getFoods`. -/
def getFoods : List String := (Food.allCases.map Food.rawValue).insertionSort (· ≤ ·)

/-- The action of a row of `SelectMultipleList`. -/
def toggleFood (selectedFoods : List String) (food : String) : List String :=
  if selectedFoods.contains food then selectedFoods.filter (fun f => !(f == food))
  else selectedFoods ++ [food]

/-! ## The profile of a user -/

section Profile

variable {L : Type} (K : Codecs L)

/-- The document `storeUserDetails` writes. -/
def userDocument (username firstName lastName : String) (favFoods : List String) (UID : String) :
    Value L :=
  .map [
    ("Username", .leaf (K.string.encode username)),
    ("First Name", .leaf (K.string.encode firstName)),
    ("Last Name", .leaf (K.string.encode lastName)),
    ("Favorite Food Types", .array (favFoods.map fun food => .leaf (K.string.encode food))),
    ("UID", .leaf (K.string.encode UID))]

/-- `storeUserDetails`, on the `users` collection. -/
def storeUserDetails (currentUser : Option User) (users : Collection (Value L))
    (username firstName lastName : String) (favFoods : List String) :
    Except Crash (Collection (Value L)) := do
  -- without a user the source prints a message and goes on with the empty `UID`
  let UID := match currentUser with
    | some user => user.uid
    | none => ""
  let id ← document UID
  return users.setData id (userDocument K username firstName lastName favFoods UID)

theorem storeUserDetails_some (user : User) (users : Collection (Value L))
    (username firstName lastName : String) (favFoods : List String) :
    storeUserDetails K (some user) users username firstName lastName favFoods
      = .ok (users.setData user.uid
          (userDocument K username firstName lastName favFoods user.uid)) := by
  unfold storeUserDetails
  dsimp only
  rw [document_uid]
  rfl

theorem storeUserDetails_none (users : Collection (Value L))
    (username firstName lastName : String) (favFoods : List String) :
    storeUserDetails K none users username firstName lastName favFoods
      = .error .invalidArgument := rfl

end Profile

/-! ## The form -/

/-- `FormError`. -/
inductive FormError where
  | usernameMissing
  | nameMissing
  | bothMissing
deriving DecidableEq

def FormError.rawValue : FormError → String
  | .usernameMissing => "Username Missing"
  | .nameMissing => "Name Missing"
  | .bothMissing => "Username and Name Missing"

/-- The `@State` of a `RegistrationView`. -/
structure RegistrationView where
  username : String := ""
  firstName : String := ""
  lastName : String := ""
  selectedFoods : List String := []
  showAppView : Bool := false
  search : String := ""
  incomplete : Bool := false
  formError : Option FormError := none
deriving DecidableEq

/-- What the error names is missing in the form. A field left at its prompt is missing. -/
def FormError.Missing (v : RegistrationView) : FormError → Prop
  | .usernameMissing => v.username = "" ∨ v.username = "Username"
  | .nameMissing => v.firstName = "" ∨ v.firstName = "First"
  | .bothMissing =>
      (v.username = "" ∨ v.username = "Username") ∧ (v.firstName = "" ∨ v.firstName = "First")

namespace RegistrationView

/-- The checks of the Submit action. They raise `incomplete` and never lower it. -/
def validate (v : RegistrationView) : RegistrationView :=
  let v := if v.username = "" ∨ v.username = "Username" then
      { v with incomplete := true, formError := some .usernameMissing }
    else v
  if v.firstName = "" ∨ v.firstName = "First" then
    { v with formError := some .nameMissing, incomplete := true }
  else v

/-- The alert of the form. -/
def alert (v : RegistrationView) : Option (Except Crash Alert) :=
  presented v.incomplete v.formError fun error => ⟨error.rawValue, "Please enter missing info."⟩

variable {L : Type} (K : Codecs L)

/-- The Submit action, with the `users` collection it writes to. -/
def submit (currentUser : Option User) (users : Collection (Value L)) (v : RegistrationView) :
    Except Crash (RegistrationView × Collection (Value L)) := do
  let v := v.validate
  -- `incomplete` may also be up from an earlier tap whose alert is still shown
  if v.incomplete then
    return (v, users)
  else
    let users ← storeUserDetails K currentUser users v.username v.firstName v.lastName
      v.selectedFoods
    return ({ v with showAppView := true }, users)

/-- The mandatory fields of the form are filled in. -/
def Filled (v : RegistrationView) : Prop :=
  v.username ≠ "" ∧ v.username ≠ "Username" ∧ v.firstName ≠ "" ∧ v.firstName ≠ "First"

/-- A filled form passes the checks as it is. Any other leaves them with `incomplete`
raised and with an error that names something missing. -/
theorem validate_cases (v : RegistrationView) :
    (v.Filled ∧ v.validate = v)
      ∨ (¬ v.Filled ∧ ∃ error : FormError, error.Missing v
          ∧ v.validate = { v with incomplete := true, formError := some error }) := by
  unfold validate Filled
  dsimp only
  by_cases hfirst : v.firstName = "" ∨ v.firstName = "First"
  · refine Or.inr ⟨fun h => hfirst.elim h.2.2.1 h.2.2.2, .nameMissing, hfirst, ?_⟩
    split_ifs <;> rfl
  · by_cases huser : v.username = "" ∨ v.username = "Username"
    · refine Or.inr ⟨fun h => huser.elim h.1 h.2.1, .usernameMissing, huser, ?_⟩
      rw [if_pos huser, if_neg hfirst]
    · obtain ⟨hempty, hprompt⟩ := not_or.mp huser
      obtain ⟨hempty', hprompt'⟩ := not_or.mp hfirst
      refine Or.inl ⟨⟨hempty, hprompt, hempty', hprompt'⟩, ?_⟩
      rw [if_neg huser, if_neg hfirst]

/-- The checks pass exactly on filled forms on which no alert is shown. -/
theorem filled_of_validate {v : RegistrationView} (h : v.validate.incomplete = false) :
    v.Filled ∧ v.incomplete = false := by
  rcases v.validate_cases with ⟨hfilled, hv⟩ | ⟨-, error, -, hv⟩
  · rw [hv] at h
    exact ⟨hfilled, h⟩
  · rw [hv] at h
    exact absurd h (by simp)

theorem validate_of_filled {v : RegistrationView} (h : v.Filled) : v.validate = v := by
  rcases v.validate_cases with ⟨-, hv⟩ | ⟨hnot, -⟩
  · exact hv
  · exact absurd h hnot

theorem validate_showAppView (v : RegistrationView) : v.validate.showAppView = v.showAppView := by
  unfold validate
  dsimp only
  split_ifs <;> rfl

theorem validate_selectedFoods (v : RegistrationView) :
    v.validate.selectedFoods = v.selectedFoods := by
  rcases v.validate_cases with ⟨-, hv⟩ | ⟨-, error, -, hv⟩
  · rw [hv]
  · rw [hv]

/-- A Submit is rejected where the checks leave `incomplete` raised. -/
theorem submit_of_incomplete {currentUser : Option User} {users : Collection (Value L)}
    {v : RegistrationView} (h : v.validate.incomplete = true) :
    submit K currentUser users v = .ok (v.validate, users) := by
  unfold submit
  dsimp only
  rw [if_pos h]
  rfl

/-- A Submit of a filled form on which no alert is shown is the call of
`storeUserDetails`, and `AppView` is opened if the call returns. -/
theorem submit_of_filled {currentUser : Option User} {users : Collection (Value L)}
    {v : RegistrationView} (hfilled : v.Filled) (hinc : v.incomplete = false) :
    submit K currentUser users v
      = (storeUserDetails K currentUser users v.username v.firstName v.lastName
          v.selectedFoods).map fun users => ({ v with showAppView := true }, users) := by
  unfold submit
  dsimp only
  rw [validate_of_filled hfilled, hinc, if_neg Bool.false_ne_true]
  rcases storeUserDetails K currentUser users v.username v.firstName v.lastName v.selectedFoods
  · rfl
  · rfl

/-- What a Submit does: it is rejected and only raises the alert, or the form is filled
in and it stores the signed-in user's profile. Without a user it ends the process. -/
theorem submit_outcome (currentUser : Option User) (users : Collection (Value L))
    (v : RegistrationView) :
    (v.validate.incomplete = true ∧ submit K currentUser users v = .ok (v.validate, users))
      ∨ (v.Filled ∧ v.incomplete = false
        ∧ ((currentUser = none ∧ submit K currentUser users v = .error .invalidArgument)
          ∨ ∃ user, currentUser = some user
            ∧ submit K currentUser users v = .ok ({ v with showAppView := true },
                users.setData user.uid (userDocument K v.username v.firstName v.lastName
                  v.selectedFoods user.uid)))) := by
  rcases hinc : v.validate.incomplete with _ | _
  · obtain ⟨hfilled, hshown⟩ := filled_of_validate hinc
    refine Or.inr ⟨hfilled, hshown, ?_⟩
    rw [submit_of_filled K hfilled hshown]
    rcases currentUser with _ | user
    · rw [storeUserDetails_none]
      exact Or.inl ⟨rfl, rfl⟩
    · rw [storeUserDetails_some]
      exact Or.inr ⟨user, rfl, rfl⟩
  · exact Or.inl ⟨rfl, submit_of_incomplete K hinc⟩

theorem submit_ok {currentUser : Option User} {users users' : Collection (Value L)}
    {v v' : RegistrationView} (h : submit K currentUser users v = .ok (v', users')) :
    (v.validate.incomplete = true ∧ v' = v.validate ∧ users' = users)
      ∨ ∃ user, currentUser = some user ∧ v.Filled ∧ v.incomplete = false
          ∧ v' = { v with showAppView := true }
          ∧ users' = users.setData user.uid
              (userDocument K v.username v.firstName v.lastName v.selectedFoods user.uid) := by
  rcases submit_outcome K currentUser users v with
    ⟨hinc, hout⟩ | ⟨hfilled, hinc, ⟨-, hout⟩ | ⟨user, huser, hout⟩⟩
  · rw [hout] at h
    obtain ⟨rfl, rfl⟩ := Prod.mk.inj (Except.ok.inj h)
    exact Or.inl ⟨hinc, rfl, rfl⟩
  · rw [hout] at h
    exact absurd h (by simp)
  · rw [hout] at h
    obtain ⟨rfl, rfl⟩ := Prod.mk.inj (Except.ok.inj h)
    exact Or.inr ⟨user, huser, hfilled, hinc, rfl, rfl⟩

/-- Only a Submit that stores the profile opens `AppView`. -/
theorem submit_cases {currentUser : Option User} {users users' : Collection (Value L)}
    {v v' : RegistrationView} (h : submit K currentUser users v = .ok (v', users')) :
    (v.validate.incomplete = true ∧ users' = users ∧ v'.showAppView = v.showAppView)
      ∨ ∃ user, currentUser = some user ∧ v.validate.incomplete = false
          ∧ v'.showAppView = true
          ∧ users' = users.setData user.uid (userDocument K v.validate.username
              v.validate.firstName v.validate.lastName v.validate.selectedFoods user.uid) := by
  rcases submit_ok K h with ⟨hinc, rfl, rfl⟩ | ⟨user, huser, hfilled, hinc, rfl, rfl⟩
  · exact Or.inl ⟨hinc, rfl, validate_showAppView v⟩
  · rw [validate_of_filled hfilled]
    exact Or.inr ⟨user, huser, hinc, rfl, rfl⟩

/-- Only a missing session ends the process. -/
theorem submit_error {currentUser : Option User} {users : Collection (Value L)}
    {v : RegistrationView} {c : Crash} (h : submit K currentUser users v = .error c) :
    currentUser = none ∧ c = .invalidArgument := by
  rcases submit_outcome K currentUser users v with
    ⟨-, hout⟩ | ⟨-, -, ⟨huser, hout⟩ | ⟨user, -, hout⟩⟩
  · rw [hout] at h
    exact absurd h (by simp)
  · rw [hout] at h
    exact ⟨huser, (Except.error.inj h).symm⟩
  · rw [hout] at h
    exact absurd h (by simp)

end RegistrationView

/-- What happens to a profile form. -/
inductive RegistrationEvent where
  | editUsername (s : String)
  | editFirstName (s : String)
  | editLastName (s : String)
  | tapFood (food : String)
  | submit
  | dismissAlert
deriving DecidableEq

/-- One event of a profile form, with the `users` collection. -/
def registrationStep {L : Type} (K : Codecs L) (currentUser : Option User)
    (users : Collection (Value L)) (v : RegistrationView) :
    RegistrationEvent → Option (Except Crash (RegistrationView × Collection (Value L)))
  | .editUsername s => some (.ok ({ v with username := s }, users))
  | .editFirstName s => some (.ok ({ v with firstName := s }, users))
  | .editLastName s => some (.ok ({ v with lastName := s }, users))
  | .tapFood food =>
      if food ∈ getFoods then
        some (.ok ({ v with selectedFoods := toggleFood v.selectedFoods food }, users))
      else none
  | .submit => some (v.submit K currentUser users)
  | .dismissAlert =>
      if v.incomplete then some (.ok ({ v with incomplete := false }, users)) else none

/-- A step is a Submit, or it stores nothing, opens nothing and does not fail. -/
theorem registrationStep_cases {L : Type} {K : Codecs L} {currentUser : Option User}
    {users : Collection (Value L)} {v : RegistrationView} {e : RegistrationEvent}
    {r : Except Crash (RegistrationView × Collection (Value L))}
    (h : registrationStep K currentUser users v e = some r) :
    (e = .submit ∧ v.submit K currentUser users = r)
      ∨ (e ≠ .submit ∧ ∃ w, r = .ok (w, users) ∧ w.showAppView = v.showAppView
        ∧ w.formError = v.formError ∧ (w.incomplete = v.incomplete ∨ w.incomplete = false)) := by
  rcases e with s | s | s | food | _ | _
  case submit => exact Or.inl ⟨rfl, Option.some.inj h⟩
  case tapFood =>
    rw [registrationStep, Option.ite_none_right_eq_some] at h
    exact Or.inr ⟨by simp, _, (Option.some.inj h.2).symm, rfl, rfl, Or.inl rfl⟩
  case dismissAlert =>
    rw [registrationStep, Option.ite_none_right_eq_some] at h
    exact Or.inr ⟨by simp, _, (Option.some.inj h.2).symm, rfl, rfl, Or.inr rfl⟩
  all_goals exact Or.inr ⟨by simp, _, (Option.some.inj h).symm, rfl, rfl, Or.inl rfl⟩

end FreeFood.Registration
