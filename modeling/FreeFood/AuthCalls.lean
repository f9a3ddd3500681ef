/-
The calls of one `SimpleAuthModel` that listens: `didUserStatusChange` has been called
once, and then anything is called and answered in any order.

The guard of `signIn` and `register` reads `userState` when the call is made, so calls
that were admitted together are all answered. A `createUser` raises `recentlyRegistered`
when it succeeds, and a `signIn` that succeeds later changes the current user and not
the flag. What the flag does say is `recentlyRegistered_iff`.
-/
import FreeFood.Lib.Transition
import FreeFood.SignInModel

set_option autoImplicit false

namespace FreeFood.SignInModel

open Transition FreeFood.Platform

/-- A call that is not answered yet. -/
inductive Call where
  | signIn (credentials : Credentials)
  | register (credentials : Credentials)
deriving DecidableEq

/-- The model with the calls that are not answered yet. -/
structure AuthCalls where
  session : Session
  calls : List Call := []
deriving DecidableEq

/-- The model once `didUserStatusChange` has been called, on a device where `persisted`
is signed in. -/
def AuthCalls.listening (persisted : Option User) : AuthCalls where
  session := ({ currentUser := persisted } : Session).didUserStatusChange

/-- What happens to it; `answer` names the call that is answered. -/
inductive CallEvent where
  | signIn (email password : String)
  | register (email password : String)
  | signOut (throws : Bool)
  | expireRecentlyRegistered
  | answer (i : ℕ) (a : Answer)
  | notify
deriving DecidableEq

/-- The answer to a call. -/
def Call.answered (s : Session) (a : Answer) : Call → Session
  | .signIn _ => s.signInAnswered a
  | .register _ => s.registerAnswered a

def callStep (s : AuthCalls) : CallEvent → Option AuthCalls
  | .signIn email password =>
      some { s with calls := s.calls ++ ((s.session.sam.signIn email password).map .signIn).toList }
  | .register email password =>
      some { s with calls := s.calls ++ ((s.session.sam.register email password).map .register).toList }
  | .signOut throws => some { s with session := s.session.signOut throws }
  | .expireRecentlyRegistered =>
      some { s with session := { s.session with sam := s.session.sam.expireRecentlyRegistered } }
  | .answer i a => s.calls[i]?.map fun call =>
      { session := call.answered s.session a, calls := s.calls.eraseIdx i }
  | .notify => s.session.notify.map fun session => { s with session }

/-! ## What the flag depends on -/

/-- What a run leaves that the flag depends on. -/
inductive Mark where
  | registered (user : User)
  | signedIn (user : User)
  | cleared
deriving DecidableEq

def marks (s : AuthCalls) : CallEvent → List Mark
  | .answer i (.success user) =>
      match s.calls[i]? with
      | some (.register _) => [.registered user]
      | some (.signIn _) => [.signedIn user]
      | none => []
  | .signOut _ => [.cleared]
  | .expireRecentlyRegistered => [.cleared]
  | _ => []

/-- What one event does to the flag and to the current user, by the mark it leaves. -/
theorem callStep_cases {s t : AuthCalls} {e : CallEvent} (h : callStep s e = some t) :
    (marks s e = [] ∧ t.session.sam.recentlyRegistered = s.session.sam.recentlyRegistered
        ∧ t.session.currentUser = s.session.currentUser)
      ∨ (∃ user, marks s e = [.registered user] ∧ t.session.sam.recentlyRegistered = true
        ∧ t.session.currentUser = some user)
      ∨ (∃ user, marks s e = [.signedIn user]
        ∧ t.session.sam.recentlyRegistered = s.session.sam.recentlyRegistered
        ∧ t.session.currentUser = some user)
      ∨ (marks s e = [.cleared] ∧ t.session.sam.recentlyRegistered = false) := by
  rcases e with ⟨email, password⟩ | ⟨email, password⟩ | throws | _ | ⟨i, a⟩ | _
  · obtain rfl := Option.some.inj h
    exact Or.inl ⟨rfl, rfl, rfl⟩
  · obtain rfl := Option.some.inj h
    exact Or.inl ⟨rfl, rfl, rfl⟩
  · obtain rfl := Option.some.inj h
    exact Or.inr (Or.inr (Or.inr ⟨rfl, s.session.signOut_recentlyRegistered throws⟩))
  · obtain rfl := Option.some.inj h
    exact Or.inr (Or.inr (Or.inr ⟨rfl, rfl⟩))
  · obtain ⟨call, hcall, rfl⟩ := Option.map_eq_some_iff.mp h
    rcases a with user | description
    · rw [marks, hcall]
      rcases call with credentials | credentials
      · exact Or.inr (Or.inr (Or.inl ⟨user, rfl, rfl, rfl⟩))
      · exact Or.inr (Or.inl ⟨user, rfl, rfl, rfl⟩)
    · -- a failure changes neither, whichever call it answers
      rcases call with credentials | credentials
      · exact Or.inl ⟨rfl, rfl, rfl⟩
      · exact Or.inl ⟨rfl, rfl, rfl⟩
  · obtain ⟨session, hnotify, rfl⟩ := Option.map_eq_some_iff.mp h
    rw [Session.notify, Option.ite_none_left_eq_some] at hnotify
    obtain rfl := Option.some.inj hnotify.2
    exact Or.inl ⟨rfl, s.session.listener_recentlyRegistered, rfl⟩

/-- A `register` of `user` was answered with success, and what came after it are
successful answers to a `signIn` each. -/
def RegisteredThen (log : List Mark) (user : User) (later : List User) : Prop :=
  ∃ pre, log = pre ++ .registered user :: later.map .signedIn

theorem registeredThen_concat {log : List Mark} {m : Mark} {user : User} {later : List User} :
    RegisteredThen (log ++ [m]) user later
      ↔ (m = .registered user ∧ later = [])
        ∨ ∃ last before, m = .signedIn last ∧ later = before ++ [last]
          ∧ RegisteredThen log user before := by
  constructor
  · rintro ⟨pre, hlog⟩
    rcases List.eq_nil_or_concat later with rfl | ⟨before, last, rfl⟩
    · obtain ⟨-, hm⟩ := List.append_inj' hlog rfl
      exact Or.inl ⟨List.singleton_injective hm, rfl⟩
    · right
      rw [List.concat_eq_append, List.map_append, ← List.cons_append, ← List.append_assoc] at hlog
      obtain ⟨hpre, hm⟩ := List.append_inj' hlog rfl
      exact ⟨last, before, List.singleton_injective hm, List.concat_eq_append, pre, hpre⟩
  · rintro (⟨rfl, rfl⟩ | ⟨last, before, rfl, rfl, pre, rfl⟩)
    · exact ⟨log, rfl⟩
    · refine ⟨pre, ?_⟩
      rw [List.map_append, ← List.cons_append, ← List.append_assoc]
      rfl

/-- What the flag and the current user say of the marks left so far. -/
structure Reports (s : Session) (log : List Mark) : Prop where
  flag : s.sam.recentlyRegistered = true ↔ ∃ user later, RegisteredThen log user later
  currentUser : ∀ user later, RegisteredThen log user later →
    s.currentUser = some (later.getLast?.getD user)

theorem not_registeredThen_nil (user : User) (later : List User) :
    ¬ RegisteredThen [] user later := by
  rintro ⟨pre, hlog⟩
  exact absurd hlog (by simp)

theorem not_registeredThen_cleared (log : List Mark) (user : User) (later : List User) :
    ¬ RegisteredThen (log ++ [.cleared]) user later := by
  rw [registeredThen_concat]
  rintro (⟨hm, -⟩ | ⟨last, before, hm, -, -⟩)
  · exact absurd hm (by simp)
  · exact absurd hm (by simp)

/-- Without a registration that counts, the flag is down. -/
theorem Reports.down {s : Session} {log : List Mark} (hflag : s.sam.recentlyRegistered = false)
    (hnone : ∀ user later, ¬ RegisteredThen log user later) : Reports s log where
  flag := by
    rw [hflag]
    exact iff_of_false Bool.false_ne_true fun ⟨user, later, h⟩ => hnone user later h
  currentUser user later h := absurd h (hnone user later)

theorem Reports.registered {s : Session} {log : List Mark} {new : User}
    (hflag : s.sam.recentlyRegistered = true) (huser : s.currentUser = some new) :
    Reports s (log ++ [.registered new]) := by
  constructor
  · exact iff_of_true hflag ⟨new, [], registeredThen_concat.mpr (Or.inl ⟨rfl, rfl⟩)⟩
  · intro user later hlater
    rcases registeredThen_concat.mp hlater with ⟨hm, rfl⟩ | ⟨last, before, hm, -, -⟩
    · obtain rfl := Mark.registered.inj hm
      exact huser
    · exact absurd hm (by simp)

theorem Reports.signedIn {s t : Session} {log : List Mark} {old : User} (h : Reports s log)
    (hflag : t.sam.recentlyRegistered = s.sam.recentlyRegistered)
    (huser : t.currentUser = some old) : Reports t (log ++ [.signedIn old]) := by
  constructor
  · rw [hflag, h.flag]
    constructor
    · rintro ⟨user, later, hlater⟩
      exact ⟨user, later ++ [old],
        registeredThen_concat.mpr (Or.inr ⟨old, later, rfl, rfl, hlater⟩)⟩
    · rintro ⟨user, later, hlater⟩
      rcases registeredThen_concat.mp hlater with ⟨hm, -⟩ | ⟨last, before, -, -, hbefore⟩
      · exact absurd hm (by simp)
      · exact ⟨user, before, hbefore⟩
  · intro user later hlater
    rcases registeredThen_concat.mp hlater with ⟨hm, -⟩ | ⟨last, before, hm, rfl, -⟩
    · exact absurd hm (by simp)
    · -- the one signed in comes last of those that came since
      obtain rfl := Mark.signedIn.inj hm
      rw [List.getLast?_concat]
      exact huser

/-- **The flag speaks of a registration, not of the current user.** It is up exactly if
a `register` was answered with success and since then neither was the flag cleared nor
the user signed out. The current user is then the one of the last successful answer
since, which is the one registered unless a `signIn` came after it. -/
theorem recentlyRegistered_iff {persisted : Option User} {es : List CallEvent} {s : AuthCalls}
    {log : List Mark}
    (h : run (observed callStep marks) (AuthCalls.listening persisted, []) es = some (s, log)) :
    (s.session.sam.recentlyRegistered = true ↔ ∃ user later, RegisteredThen log user later)
      ∧ ∀ user later, RegisteredThen log user later →
        s.session.currentUser = some (later.getLast?.getD user) := by
  have hreports : Reports s.session log := by
    refine run_invariant (I := fun t : AuthCalls × List Mark => Reports t.1.session t.2) ?_
      (Reports.down rfl not_registeredThen_nil) h
    intro a e b ha hab
    obtain ⟨hstep, hlog⟩ := observed_eq_some.mp hab
    rw [hlog]
    rcases callStep_cases hstep with
      ⟨hmarks, hflag, huser⟩ | ⟨user, hmarks, hflag, huser⟩ | ⟨user, hmarks, hflag, huser⟩
        | ⟨hmarks, hflag⟩
    · rw [hmarks, List.append_nil]
      exact ⟨by rw [hflag]; exact ha.flag, by rw [huser]; exact ha.currentUser⟩
    · rw [hmarks]
      exact Reports.registered hflag huser
    · rw [hmarks]
      exact ha.signedIn hflag huser
    · rw [hmarks]
      exact Reports.down hflag (not_registeredThen_cleared a.2)
  exact ⟨hreports.flag, hreports.currentUser⟩

def Mark.registered? : Mark → Option User
  | .registered user => some user
  | _ => none

/-- Two calls admitted together, the registration answered first. -/
def signsInAfterRegistering (new old : User) : List CallEvent :=
  [.notify, .register "new@umd.edu" "correct horse", .signIn "old@umd.edu" "hunter22",
    .answer 0 (.success new), .answer 0 (.success old)]

/-- Then the flag is up, and the user is not the one registered. -/
theorem signsInAfterRegistering_another :
    ¬ ∀ (persisted : Option User) (es : List CallEvent) (s : AuthCalls) (log : List Mark),
      run (observed callStep marks) (AuthCalls.listening persisted, []) es = some (s, log) →
        s.session.sam.recentlyRegistered = true →
        ∃ user, s.session.currentUser = some user
          ∧ (log.filterMap Mark.registered?).getLast? = some user := by
  intro hall
  obtain ⟨user, hcurrent, hlast⟩ :=
    hall none (signsInAfterRegistering ⟨"u", by decide⟩ ⟨"v", by decide⟩) _ _ rfl rfl
  have hsame := hcurrent.trans hlast.symm
  exact absurd hsame (by decide)

/-- The law at that run. -/
theorem recentlyRegistered_iff_signsInAfterRegistering :
    ∃ s log, run (observed callStep marks) (AuthCalls.listening none, [])
        (signsInAfterRegistering ⟨"u", by decide⟩ ⟨"v", by decide⟩) = some (s, log)
      ∧ (s.session.sam.recentlyRegistered = true ↔ ∃ user later, RegisteredThen log user later) :=
  ⟨_, _, rfl, (recentlyRegistered_iff (show run (observed callStep marks)
    (AuthCalls.listening none, []) (signsInAfterRegistering ⟨"u", by decide⟩ ⟨"v", by decide⟩)
      = some (_, _) from rfl)).1⟩

end FreeFood.SignInModel
