/-
The two write paths where no user is signed in.

`storeFoodSubmission` and `storeUserDetails` begin with the same lines: each takes the
UID of the current user if there is one, and otherwise prints that there is none. The
first then returns. The second goes on with the empty UID it started from, which
`document(_:)` does not take.
-/
import FreeFood.Deployment

set_option autoImplicit false

namespace FreeFood.MissingSession

open Document FreeFood.Platform FreeFood.SignInModel FreeFood.Registration
open FreeFood.FoodSubmission FreeFood.Deployment

variable {L : Type} (K : Codecs L)

/-- What a write path has to do with the session: without a user neither of the two
changes anything, and with one the profile is stored under that user's UID, and no other
profile is touched. -/
structure MindsSession (b : Backend L) (currentUser : Option User) (n : ℕ) (args : Submission)
    (username firstName lastName : String) (favFoods : List String) : Prop where
  submission : currentUser = none →
    (b.submitted n currentUser args).users = b.users
      ∧ (b.submitted n currentUser args).foodSubmissions = b.foodSubmissions
      ∧ (b.submitted n currentUser args).queries = b.queries
  noProfile : currentUser = none →
    storeUserDetails K currentUser b.users username firstName lastName favFoods = .ok b.users
  profile : ∀ user, currentUser = some user →
    ∃ users, storeUserDetails K currentUser b.users username firstName lastName favFoods = .ok users
      ∧ users.lookup user.uid = some (userDocument K username firstName lastName favFoods user.uid)
      ∧ ∀ id, id ≠ user.uid → users.lookup id = b.users.lookup id

variable {K}

/-- A call of `storeFoodSubmission` without a user starts no query, so nothing is ever
written for it. -/
theorem submitted_none (b : Backend L) (n : ℕ) (args : Submission) :
    b.submitted n none args = { b with calls := b.calls + 1 } := by
  unfold Backend.submitted storeFoodSubmission
  dsimp only
  rw [Option.toList_none, List.append_nil]

/-- **The write paths mind the session exactly where there is one.** Without a user
`storeFoodSubmission` does nothing but count its call, while `storeUserDetails` does not
return. -/
theorem mindsSession_iff (b : Backend L) (currentUser : Option User) (n : ℕ) (args : Submission)
    (username firstName lastName : String) (favFoods : List String) :
    b.submitted n none args = { b with calls := b.calls + 1 }
      ∧ (MindsSession K b currentUser n args username firstName lastName favFoods
        ↔ currentUser.isSome) := by
  refine ⟨submitted_none b n args, ?_⟩
  constructor
  · intro hminds
    rcases currentUser with _ | user
    · have hstore := hminds.noProfile rfl
      rw [storeUserDetails_none] at hstore
      exact absurd hstore (by simp)
    · rfl
  · intro huser
    obtain ⟨user, rfl⟩ := Option.isSome_iff_exists.mp huser
    constructor
    case profile =>
      intro u hu
      obtain rfl := Option.some.inj hu
      refine ⟨_, storeUserDetails_some K user b.users username firstName lastName favFoods, ?_, ?_⟩
      · exact Collection.lookup_setData_self b.users user.uid _
      · intro id hid
        exact Collection.lookup_setData_of_ne b.users _ hid
    all_goals
      intro hnone
      exact absurd hnone (by simp)

/-- The session has ended before Submit of the profile form is tapped. -/
theorem endedSession_not_mindsSession :
    ¬ ∀ (b : Backend Leaf) (currentUser : Option User) (n : ℕ) (args : Submission)
      (username firstName lastName : String) (favFoods : List String),
      MindsSession (Codecs.firestore fun _ => 0) b currentUser n args username firstName lastName
        favFoods := by
  intro hall
  have hminds := hall {} none 0 ⟨⟨LocationSearch.stamp.placemark⟩, "Stamp", "1101", "Subway", "", ""⟩
    "ada" "Ada" "Lovelace" []
  exact absurd (hminds.noProfile rfl) (by simp [storeUserDetails_none])

end FreeFood.MissingSession
