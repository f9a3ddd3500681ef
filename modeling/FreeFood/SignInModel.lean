/-
`Models/SignInModel.swift`: the authentication model the views share, on top of
the Firebase session of the device.

The session and the model are one state, `Session`, since each method of the model
reads one and writes the other. A call that reaches the backend does not change
that state: it yields a request, and the answer to the request is a later event,
at which the completion handler of the call runs.

Firebase calls a registered listener after the registration and after every change
of the current user. `due` counts the calls it still owes; a call that is made
reads the current user at that moment, not at the moment it became due.
-/
import FreeFood.Platform

set_option autoImplicit false

namespace FreeFood.SignInModel

open FreeFood.Platform

/-- `SimpleAuthModel.userStatus`. -/
inductive UserStatus where
  | undefined
  | signedIn
  | signedOut
deriving DecidableEq

/-- The stored properties of a `SimpleAuthModel`. -/
structure SimpleAuthModel where
  /-- whether `didUserStatusChange` has registered the listener -/
  userStatusListenerHandle : Bool := false
  userState : UserStatus := .undefined
  recentlyRegistered : Bool := false
deriving DecidableEq

/-- The device's Firebase session with the model that listens to it. -/
structure Session where
  /-- `Auth.auth().currentUser`, which is stored across launches -/
  currentUser : Option User := none
  /-- calls of the listener that Firebase has still to make -/
  due : ℕ := 0
  sam : SimpleAuthModel := {}
deriving DecidableEq

/-- An email and a password, as a request carries them. -/
structure Credentials where
  email : String
  password : String
deriving DecidableEq

/-- How the backend answers a `createUser` or a `signIn`. -/
inductive Answer where
  | success (user : User)
  | failure (localizedDescription : String)
deriving DecidableEq

namespace SimpleAuthModel

/-- The guard of both `signIn` and `register`. -/
def admits (m : SimpleAuthModel) : Bool :=
  m.userState == .signedOut || m.userState == .undefined

/-- `signIn`: the request it sends, if it sends one. -/
def signIn (m : SimpleAuthModel) (email password : String) : Option Credentials :=
  if m.admits then some ⟨email, password⟩ else none

/-- `register`: the request it sends, if it sends one. -/
def register (m : SimpleAuthModel) (email password : String) : Option Credentials :=
  if m.admits then some ⟨email, password⟩ else none

/-- `expireRecentlyRegistered`. -/
def expireRecentlyRegistered (m : SimpleAuthModel) : SimpleAuthModel :=
  { m with recentlyRegistered := false }

end SimpleAuthModel

namespace Session

/-- Firebase changes the current user, and owes the listener a call if it changed. -/
def setCurrentUser (s : Session) (user : Option User) : Session :=
  { s with
    currentUser := user
    due := if s.sam.userStatusListenerHandle && s.currentUser != user then s.due + 1 else s.due }

/-- `didUserStatusChange`. -/
def didUserStatusChange (s : Session) : Session :=
  { s with due := s.due + 1, sam := { s.sam with userStatusListenerHandle := true } }

/-- The listener that `didUserStatusChange` registers, called with the current user. -/
def listener (s : Session) : SimpleAuthModel :=
  match s.currentUser with
  | none => { s.sam with userState := .signedOut }
  | some _ => { s.sam with userState := .signedIn }

/-- Firebase makes a call it owes. -/
def notify (s : Session) : Option Session :=
  if s.due = 0 then none else some { s with due := s.due - 1, sam := s.listener }

/-- The backend answers a `signIn`. Firebase sets the current user and runs the
completion handler, which only passes the result on. -/
def signInAnswered (s : Session) : Answer → Session
  | .success user => s.setCurrentUser (some user)
  | .failure _ => s

/-- The backend answers a `createUser`, which signs the new user in. The completion
handler sets `recentlyRegistered`. -/
def registerAnswered (s : Session) : Answer → Session
  | .success user =>
      -- the new user is current before the handler runs
      let s := s.setCurrentUser (some user)
      { s with sam := { s.sam with recentlyRegistered := true } }
  | .failure _ => s

/-- `signOut`. Where Firebase's own `signOut` throws, `try?` drops the error and the
session stays. -/
def signOut (s : Session) (throws : Bool) : Session :=
  let s := if s.sam.recentlyRegistered then
      { s with sam := { s.sam with recentlyRegistered := false } }
    else s
  -- the flag is cleared first, so it is cleared even where `auth.signOut()` throws
  if throws then s else s.setCurrentUser none

@[simp] theorem setCurrentUser_currentUser (s : Session) (user : Option User) :
    (s.setCurrentUser user).currentUser = user := rfl

@[simp] theorem setCurrentUser_sam (s : Session) (user : Option User) :
    (s.setCurrentUser user).sam = s.sam := rfl

@[simp] theorem signInAnswered_sam (s : Session) (a : Answer) :
    (s.signInAnswered a).sam = s.sam := by
  rcases a with user | e
  · rfl
  · rfl

@[simp] theorem listener_recentlyRegistered (s : Session) :
    s.listener.recentlyRegistered = s.sam.recentlyRegistered := by
  unfold listener
  rcases s.currentUser with _ | user
  · rfl
  · rfl

/-- Sign-out clears the flag whether Firebase's own throws or not, -/
@[simp] theorem signOut_recentlyRegistered (s : Session) (throws : Bool) :
    (s.signOut throws).sam.recentlyRegistered = false := by
  unfold signOut
  rcases hflag : s.sam.recentlyRegistered with _ | _
  · rcases throws with _ | _
    · exact hflag
    · exact hflag
  · rcases throws with _ | _
    · rfl
    · rfl

/-- and ends the session only if it does not. -/
@[simp] theorem signOut_currentUser (s : Session) (throws : Bool) :
    (s.signOut throws).currentUser = if throws then s.currentUser else none := by
  unfold signOut
  rcases s.sam.recentlyRegistered with _ | _
  · rcases throws with _ | _
    · rfl
    · rfl
  · rcases throws with _ | _
    · rfl
    · rfl

end Session

end FreeFood.SignInModel
