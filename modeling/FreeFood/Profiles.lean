/-
Who has a profile when `AppView` opens.

An account and a profile are made by different requests of different screens, and
`AppView` is opened by two of them. The profile form opens it after the write of the
profile. The sign-in form opens it for any account, and does not ask whether the
flow that made the account was finished.
-/
import FreeFood.Submissions

set_option autoImplicit false

namespace FreeFood.Profiles

open Document Transition FreeFood.Platform FreeFood.SignInModel FreeFood.DataFetch FreeFood.App
open FreeFood.Deployment FreeFood.Submissions

variable {L : Type} {K : Codecs L}

/-- How many profiles a user has, in a state that keeps the ledger: one from when the
profile form first stored one, and none before. -/
theorem length_query_uid {b : Backend L} {log : List Observation} (h : Ledger K b log) (user : User) :
    (query K b.users user.uid).length ≤ 1
      ∧ ((query K b.users user.uid).length = 1 ↔ .profiled user ∈ log) := by
  rw [h.keyed.length_query, ← h.profiled_iff]
  by_cases hmem : user.uid ∈ b.users
  · rw [if_pos hmem]
    exact ⟨Nat.le_refl 1, fun _ => hmem, fun _ => rfl⟩
  · rw [if_neg hmem]
    exact ⟨Nat.zero_le 1, fun h => absurd h (by omega), fun h => absurd h hmem⟩

/-- **Who has a profile when `AppView` opens.** Where the profile form opens it, the
signed-in user has exactly one. Where the sign-in form opens it, the signed-in user
has at most one, and has one exactly if a profile form stored it before. -/
theorem appView_opened {count : String → ℕ} {w : World L} {s t : World L × List Observation}
    {pre : List (ℕ × ClientEvent)} {n k : ℕ} {e : ClientEvent} {home home' : Home}
    (hw : Empty w.backend) (hpre : run (system K count) (w, []) pre = some s)
    (hstep : system K count s (n, e) = some t)
    (hhome : (s.1.clients n).app.homes[k]? = some home)
    (hhome' : (t.1.clients n).app.homes[k]? = some home') :
    (home.registration.showAppView = false → home'.registration.showAppView = true →
        ∃ user, (t.1.clients n).app.session.currentUser = some user
          ∧ (query K t.1.backend.users user.uid).length = 1)
      ∧ (home.signIn.view.loginSuccess = false → home'.signIn.view.loginSuccess = true →
        ∃ user, (t.1.clients n).app.session.currentUser = some user
          ∧ (query K t.1.backend.users user.uid).length ≤ 1
          ∧ ((query K t.1.backend.users user.uid).length = 1 ↔ .profiled user ∈ t.2)) := by
  have hledger : Ledger K t.1.backend t.2 := ledger_step (ledger_reachable hw hpre) hstep
  have hcases := worldStep_cases (observed_eq_some.mp hstep).1
  constructor
  · intro hclosed hopened
    obtain ⟨user, huser, hmem⟩ := hcases.showAppView_opened hhome hhome' hclosed hopened
    refine ⟨user, huser, ?_⟩
    rw [hledger.keyed.length_query, if_pos hmem]
  · intro hclosed hopened
    obtain ⟨user, huser⟩ := hcases.loginSuccess_opened hhome hhome' hclosed hopened
    exact ⟨user, huser, length_query_uid hledger user⟩

/-- The run of `withoutProfile` up to the answer that opens `AppView`. -/
def signsInWithoutProfile : List (ℕ × ClientEvent) :=
  (signsUp ++ signsIn.dropLast).map fun e => (0, e)

/-- The answer opens `AppView` for a user with no profile. -/
theorem appView_opened_without_profile :
    ¬ ∀ (pre : List (ℕ × ClientEvent)) (n k : ℕ) (e : ClientEvent)
      (s t : World Leaf × List Observation) (home home' : Home) (user : User),
      run firestore ({}, []) pre = some s → firestore s (n, e) = some t →
        (s.1.clients n).app.homes[k]? = some home → (t.1.clients n).app.homes[k]? = some home' →
        ((home.registration.showAppView = false ∧ home'.registration.showAppView = true)
          ∨ (home.signIn.view.loginSuccess = false ∧ home'.signIn.view.loginSuccess = true)) →
        (t.1.clients n).app.session.currentUser = some user →
        (query (Codecs.firestore fun _ => 0) t.1.backend.users user.uid).length = 1 := by
  intro hall
  have hone := hall signsInWithoutProfile 0 0 (.app (.signIn 0 (.answer 0 (.success ada))))
    _ _ _ _ ada rfl rfl rfl rfl (Or.inr ⟨rfl, rfl⟩) rfl
  exact absurd hone (by decide)

/-- The law at that run. -/
theorem appView_opened_signsInWithoutProfile :
    ∃ s t home home', run firestore ({}, []) signsInWithoutProfile = some s
      ∧ firestore s (0, .app (.signIn 0 (.answer 0 (.success ada)))) = some t
      ∧ (s.1.clients 0).app.homes[0]? = some home ∧ (t.1.clients 0).app.homes[0]? = some home'
      ∧ ∃ user, (t.1.clients 0).app.session.currentUser = some user
          ∧ (query (Codecs.firestore fun _ => 0) t.1.backend.users user.uid).length ≤ 1 := by
  obtain ⟨user, huser, hle, -⟩ := (appView_opened empty_init
    (show run firestore ({}, []) signsInWithoutProfile = some _ from rfl)
    (show firestore _ (0, .app (.signIn 0 (.answer 0 (.success ada)))) = some _ from rfl)
    (show _[0]? = some _ from rfl) (show _[0]? = some _ from rfl)).2 rfl rfl
  exact ⟨_, _, _, _, rfl, rfl, rfl, rfl, user, huser, hle⟩

end FreeFood.Profiles
