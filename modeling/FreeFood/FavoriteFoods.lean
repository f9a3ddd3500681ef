/-
The favourite foods in the profiles of the deployed app.

A profile form is made, tapped, submitted and made anew, on any number of clients that
share the profiles. Whatever they do, the selection of a form is one that taps on a
fresh list can make (`Selectable`), and so is the list of favourites in every profile:
a Submit writes the selection, and nothing else writes a profile.
-/
import FreeFood.SelectMultipleList
import FreeFood.Submissions
import FreeFood.Forms

set_option autoImplicit false

namespace FreeFood.FavoriteFoods

open Document Transition FreeFood.Platform FreeFood.SignInModel FreeFood.Registration
open FreeFood.FoodSubmission FreeFood.App FreeFood.Deployment FreeFood.Submissions FreeFood.Forms

variable {L : Type} {K : Codecs L} {count : String → ℕ}

/-- A form that is made starts with nothing selected. -/
theorem selectable_new : Selectable ({} : RegistrationView).selectedFoods := ⟨[], rfl⟩

/-- A step of the form taps its list further. -/
theorem selectable_step {currentUser : Option User} {users users' : Collection (Value L)}
    {v w : RegistrationView} {e : RegistrationEvent} (hv : Selectable v.selectedFoods)
    (h : registrationStep K currentUser users v e = some (.ok (w, users'))) :
    Selectable w.selectedFoods := by
  obtain ⟨taps, hrun⟩ := hv
  refine ⟨taps ++ e.taps, ?_⟩
  rw [run_append, hrun, Option.bind_some]
  exact (registrationStep_list h).1

/-! ## The steps of a client -/

/-- A client's profile forms all have selections that taps can make. -/
def SelectableForms (c : Client) : Prop :=
  ∀ home ∈ c.app.homes, Selectable home.registration.selectedFoods

/-- A profile has favourites that taps can select. -/
def SelectableProfile (K : Codecs L) (doc : Value L) : Prop :=
  ∃ favFoods, Selectable favFoods
    ∧ doc.field? "Favorite Food Types" = some (favoriteFoodTypes K favFoods)

theorem selectableForms_launch (persisted : Option User) :
    SelectableForms { app := launch persisted } := by
  intro home hmem
  rw [List.mem_singleton.mp hmem]
  exact selectable_new

/-- An event of a process leaves a profile form as it is, or makes it anew. -/
theorem appStep_selectable {a b : FreeFoodApp} {e : AppEvent} (h : appStep count a e = some b)
    (ha : ∀ home ∈ a.homes, Selectable home.registration.selectedFoods) :
    ∀ home ∈ b.homes, Selectable home.registration.selectedFoods := by
  intro home' hmem
  rcases appStep_homes h hmem with
    rfl | hold | ⟨home, hhome, f, t, -, rfl⟩ | ⟨home, hhome, f, t, -, rfl⟩
  · exact selectable_new
  · exact ha home' hold
  · unfold Home.setSignUp
    dsimp only
    split_ifs
    · exact selectable_new
    · exact ha home hhome
  · exact ha home hhome

/-- **A step keeps the forms of its client so.** -/
theorem SelectableForms.step {n : ℕ} {b b' : Backend L} {c c' : Client} {e : ClientEvent}
    (hc : SelectableForms c) (h : ClientStep K count n b c e b' c') : SelectableForms c' := by
  cases h with
  | relaunch => exact selectableForms_launch c.app.session.currentUser
  | app answer step => exact appStep_selectable step hc
  | @registration k f home registration users home_eq shown step =>
      intro home' hmem
      rcases List.mem_or_eq_of_mem_set hmem with hold | rfl
      · exact hc home' hold
      · exact selectable_step (hc home (List.mem_of_getElem? home_eq)) step
  | unheard => exact hc
  | registrationCrash => exact hc
  | openForm => exact hc
  | formCrash => exact hc
  | form => exact hc
  | submit => exact hc
  | failed => exact hc
  | fetched => exact hc

/-- The answer to a query writes no profile. -/
theorem fetched_users {b b' : Backend L} {r : FetchRequest} {stamps : List Stamp}
    {crash : Option Crash} (h : b.fetched K r stamps = some (b', crash)) :
    b'.users = b.users := by
  unfold Backend.fetched at h
  dsimp only at h
  rw [Option.ite_none_right_eq_some] at h
  obtain ⟨rfl, -⟩ := Prod.mk.inj (Option.some.inj h.2)
  rfl

/-- **A step that writes a profile writes the selection of a form.** -/
theorem selectableProfile_step {n : ℕ} {b b' : Backend L} {c c' : Client} {e : ClientEvent}
    (hc : SelectableForms c) (h : ClientStep K count n b c e b' c') {id : String} {doc : Value L}
    (hdoc : b'.users.lookup id = some doc) :
    b.users.lookup id = some doc ∨ SelectableProfile K doc := by
  cases h with
  | @registration k f home registration users home_eq shown step =>
      rcases (registrationStep_list step).2 with
        rfl | ⟨user, username, firstName, lastName, -, rfl⟩
      · exact Or.inl hdoc
      · dsimp only at hdoc
        rw [Collection.lookup_setData] at hdoc
        split_ifs at hdoc
        · obtain rfl := Option.some.inj hdoc
          exact Or.inr ⟨_, hc home (List.mem_of_getElem? home_eq),
            userDocument_favorites K _ _ _ _ _⟩
        · exact Or.inl hdoc
  | fetched mem find step =>
      rw [fetched_users step] at hdoc
      exact Or.inl hdoc
  | relaunch => exact Or.inl hdoc
  | app => exact Or.inl hdoc
  | unheard => exact Or.inl hdoc
  | registrationCrash => exact Or.inl hdoc
  | openForm => exact Or.inl hdoc
  | formCrash => exact Or.inl hdoc
  | form => exact Or.inl hdoc
  | submit => exact Or.inl hdoc
  | failed => exact Or.inl hdoc

/-! ## The system -/

/-- The forms of all clients, and all profiles, have selections that taps can make. -/
structure Favored (K : Codecs L) (w : World L) : Prop where
  forms : ∀ n, SelectableForms (w.clients n)
  profiles : ∀ id doc, w.backend.users.lookup id = some doc → SelectableProfile K doc

theorem favored_init {w : World L} (hb : Empty w.backend) (hw : Launched w) : Favored K w where
  forms := by
    intro n
    obtain ⟨persisted, hn⟩ := hw n
    rw [hn]
    exact selectableForms_launch persisted
  profiles := by
    intro id doc hdoc
    rw [hb.users, AList.lookup_empty] at hdoc
    exact absurd hdoc (by simp)

theorem Favored.step {w w' : World L} {ne : ℕ × ClientEvent} (hw : Favored K w)
    (h : worldStep K count w ne = some w') : Favored K w' := by
  obtain ⟨n, e⟩ := ne
  have hcases := worldStep_cases h
  constructor
  · intro m
    by_cases hm : m = n
    · rw [hm]
      exact (hw.forms n).step hcases
    · rw [worldStep_frame h hm]
      exact hw.forms m
  · intro id doc hdoc
    rcases selectableProfile_step (hw.forms n) hcases hdoc with hold | hnew
    · exact hw.profiles id doc hold
    · exact hnew

/-- **The favourites in the app.** In every run of any clients: every profile has its
favourites, which are foods of the list without repetition, and so is the selection of
every profile form, which its checkmarks show. -/
theorem favorites_reachable {w w' : World L} {es : List (ℕ × ClientEvent)}
    (hb : Empty w.backend) (hw : Launched w) (h : run (worldStep K count) w es = some w') :
    (∀ id doc, w'.backend.users.lookup id = some doc → ∃ favFoods,
        doc.field? "Favorite Food Types" = some (favoriteFoodTypes K favFoods)
          ∧ favFoods.Nodup ∧ ∀ food ∈ favFoods, food ∈ getFoods)
      ∧ ∀ n, ∀ home ∈ (w'.clients n).app.homes,
        home.registration.selectedFoods.Nodup
          ∧ (∀ food ∈ home.registration.selectedFoods, food ∈ getFoods)
          ∧ ((home.registration.list.body.filter FoodRow.selected).map FoodRow.food).Perm
              home.registration.selectedFoods := by
  have hfavored : Favored K w' :=
    run_invariant (fun _ _ _ hs hstep => Favored.step hs hstep) (favored_init hb hw) h
  constructor
  · intro id doc hdoc
    obtain ⟨favFoods, hselectable, hfield⟩ := hfavored.profiles id doc hdoc
    exact ⟨favFoods, hfield, selectable_iff.mp hselectable⟩
  · intro n home hmem
    have hselectable := hfavored.forms n home hmem
    obtain ⟨hnodup, hfoods⟩ := selectable_iff.mp hselectable
    exact ⟨hnodup, hfoods, hselectable.checkmarks⟩

end FreeFood.FavoriteFoods
