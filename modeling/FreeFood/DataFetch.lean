/-
`Models/DataFetch.swift`: the query for a user's name.

`fetchUsername` calls back once for every document that the query finds, so what it
does with one answer is a list of calls. `Keyed` is why there is at most one: each
profile is stored under its own UID. `storeUserDetails` is the only write to the
collection, and it keeps `Keyed`.
-/
import FreeFood.RegistrationView

set_option autoImplicit false

namespace FreeFood.DataFetch

open Document FreeFood.Platform FreeFood.SignInModel FreeFood.Registration

variable {L : Type} (K : Codecs L)

/-- The field `UID` of a profile. -/
def UID? (doc : Value L) : Option String := (doc.field? "UID").bind K.string.read

/-- The field `Username` of a profile, cast to `String`. -/
def username? (doc : Value L) : Option String := (doc.field? "Username").bind K.string.read

/-- What `whereField("UID", isEqualTo: UID).getDocuments` finds. -/
def query (users : Collection (Value L)) (UID : String) : List (Value L) :=
  (users.getDocuments fun doc => UID? K doc == some UID).map (fun e => e.2)

/-- What `fetchUsername` does with an answer that is not an error: the usernames it
calls back with, in order, and whether a cast fails after them. -/
def fetchUsername : List (Value L) → List String × Option Crash
  | [] => ([], none)
  | doc :: docs =>
      match username? K doc with
      -- `as!` ends the process, after the callbacks for the documents before this one
      | none => ([], some .forcedCast)
      | some username => (username :: (fetchUsername docs).1, (fetchUsername docs).2)

/-- Every profile is stored under its own UID and has a username. -/
def Keyed (users : Collection (Value L)) : Prop :=
  ∀ id doc, users.lookup id = some doc →
    UID? K doc = some id ∧ ∃ username, username? K doc = some username

theorem UID?_userDocument (username firstName lastName : String) (favFoods : List String)
    (UID : String) :
    UID? K (userDocument K username firstName lastName favFoods UID) = some UID :=
  K.string.decode_encode UID

theorem username?_userDocument (username firstName lastName : String) (favFoods : List String)
    (UID : String) :
    username? K (userDocument K username firstName lastName favFoods UID) = some username :=
  K.string.decode_encode username

variable {K}

theorem keyed_empty : Keyed K ∅ := by
  intro id doc h
  rw [AList.lookup_empty] at h
  exact absurd h (by simp)

/-- The write of a profile keeps the profiles keyed. -/
theorem Keyed.setData {users : Collection (Value L)} (h : Keyed K users)
    (username firstName lastName : String) (favFoods : List String) (UID : String) :
    Keyed K (users.setData UID (userDocument K username firstName lastName favFoods UID)) := by
  intro id doc hdoc
  rw [Collection.lookup_setData] at hdoc
  by_cases hid : id = UID
  · rw [if_pos hid, Option.some.injEq] at hdoc
    subst hdoc hid
    exact ⟨UID?_userDocument K username firstName lastName favFoods id,
      username, username?_userDocument K username firstName lastName favFoods id⟩
  · rw [if_neg hid] at hdoc
    exact h id doc hdoc

/-- Where profiles are keyed, a query by UID is a look-up. -/
theorem Keyed.query_eq {users : Collection (Value L)} (h : Keyed K users) (UID : String) :
    query K users UID = (users.lookup UID).toList := by
  -- the query's condition is on a field, which in a keyed collection is the id
  have hkey : ∀ id doc, users.lookup id = some doc →
      ((UID? K doc == some UID) = true ↔ id = UID) := by
    intro id doc hdoc
    rw [(h id doc hdoc).1]
    simp
  rw [query, Collection.getDocuments_eq_lookup hkey]
  rcases users.lookup UID with _ | doc
  · rfl
  · rfl

/-- So an answer is at most one call, with the name stored under that UID, and no
cast fails. -/
theorem Keyed.fetchUsername_query {users : Collection (Value L)} (h : Keyed K users)
    (UID : String) :
    fetchUsername K (query K users UID)
      = (((users.lookup UID).bind (username? K)).toList, none) := by
  rw [h.query_eq UID]
  rcases hdoc : users.lookup UID with _ | doc
  · rfl
  · obtain ⟨-, username, husername⟩ := h UID doc hdoc
    simp [fetchUsername, husername]

theorem Keyed.length_fetchUsername_le_one {users : Collection (Value L)} (h : Keyed K users)
    (UID : String) : (fetchUsername K (query K users UID)).1.length ≤ 1 := by
  rw [h.fetchUsername_query UID]
  rcases (users.lookup UID).bind (username? K) with _ | username
  · exact Nat.zero_le 1
  · exact Nat.le_refl 1

/-- A query by UID finds one document where the UID has a profile, and none elsewhere. -/
theorem Keyed.length_query {users : Collection (Value L)} (h : Keyed K users) (UID : String) :
    (query K users UID).length = if UID ∈ users then 1 else 0 := by
  rw [h.query_eq UID]
  rcases hdoc : users.lookup UID with _ | doc
  · have hnot : UID ∉ users := AList.lookup_eq_none.mp hdoc
    rw [if_neg hnot]
    rfl
  · have hmem : UID ∈ users := AList.lookup_isSome.mp (by rw [hdoc]; rfl)
    rw [if_pos hmem]
    rfl

end FreeFood.DataFetch
