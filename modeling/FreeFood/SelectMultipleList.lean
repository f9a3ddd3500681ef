/-
`SelectMultipleList` and its `FoodRow`s, in `Views/RegistrationView.swift`: the list of
the profile form in which the favourite foods are chosen.

The list keeps no record of the taps. Its one variable is the selection, which a row
looks its food up in to draw its checkmark and again to decide what a tap on it does.
That this comes to counting the taps is `Lib/Toggle.lean`, and here it is said of the
rows, of the form around them and of the profile that the form stores.
-/
import FreeFood.RegistrationView
import FreeFood.Lib.Toggle

set_option autoImplicit false

namespace FreeFood.Registration

open Document Transition Toggle FreeFood.Platform

/-! ## The rows -/

/-- What the label of a row is made of. -/
inductive RowContent where
  | text (s : String)
  | spacer
  | image (systemName : String)
deriving DecidableEq

/-- A row. Its `action` is `SelectMultipleList.tap`. -/
structure FoodRow where
  food : String
  selected : Bool
deriving DecidableEq

def FoodRow.body (row : FoodRow) : List RowContent :=
  .text row.food :: if row.selected then [.spacer, .image "checkmark"] else []

theorem FoodRow.checkmark_mem_body (row : FoodRow) :
    .image "checkmark" ∈ row.body ↔ row.selected = true := by
  unfold FoodRow.body
  rcases row.selected with _ | _
  · simp
  · simp

/-- The `@State` of a `SelectMultipleList`, with the selection it is a binding of. -/
structure SelectMultipleList where
  selectedFoods : List String := []
  foods : List String := getFoods

/-- The list of a profile form. -/
def RegistrationView.list (v : RegistrationView) : SelectMultipleList where
  selectedFoods := v.selectedFoods

namespace SelectMultipleList

def body (list : SelectMultipleList) : List FoodRow :=
  list.foods.map fun food => ⟨food, list.selectedFoods.contains food⟩

/-- A tap on the row of a food. -/
def tap (list : SelectMultipleList) (food : String) : Option SelectMultipleList :=
  if food ∈ list.foods then
    some { list with selectedFoods := toggleFood list.selectedFoods food }
  else none

/-- There is one row for each food. -/
theorem body_food (list : SelectMultipleList) : list.body.map FoodRow.food = list.foods := by
  rw [body, List.map_map]
  exact List.map_id _

/-- **A row has its checkmark exactly if its food is selected.** -/
theorem checkmark_iff {list : SelectMultipleList} {row : FoodRow} (hrow : row ∈ list.body) :
    .image "checkmark" ∈ row.body ↔ row.food ∈ list.selectedFoods := by
  obtain ⟨food, -, rfl⟩ := List.mem_map.mp hrow
  rw [FoodRow.checkmark_mem_body]
  exact List.contains_iff_mem

end SelectMultipleList

/-- No food has two rows. -/
theorem nodup_getFoods : getFoods.Nodup := by
  rw [getFoods, (List.perm_insertionSort _ _).nodup_iff]
  decide

/-! ## The taps -/

theorem toggleFood_eq (selectedFoods : List String) (food : String) :
    toggleFood selectedFoods food = toggle selectedFoods food := by
  unfold toggleFood toggle
  simp only [List.contains_iff_mem]

/-- Every sequence of taps on the rows can be made, and toggles the foods in turn. -/
theorem SelectMultipleList.run_tap_eq_some {list list' : SelectMultipleList}
    {taps : List String} :
    run tap list taps = some list' ↔ (∀ food ∈ taps, food ∈ list.foods)
      ∧ { list with selectedFoods := taps.foldl toggle list.selectedFoods } = list' := by
  induction taps generalizing list with
  | nil => simp
  | cons food taps ih =>
      rw [run_cons, Option.bind_eq_some_iff, List.forall_mem_cons, List.foldl_cons,
        ← toggleFood_eq]
      constructor
      · rintro ⟨mid, hmid, hrun⟩
        rw [tap, Option.ite_none_right_eq_some] at hmid
        obtain ⟨hfood, hmid⟩ := hmid
        obtain rfl := Option.some.inj hmid
        obtain ⟨hrest, hlist⟩ := ih.mp hrun
        exact ⟨⟨hfood, hrest⟩, hlist⟩
      · rintro ⟨⟨hfood, hrest⟩, hlist⟩
        exact ⟨_, if_pos hfood, ih.mpr ⟨hrest, hlist⟩⟩

/-- What a list that starts with nothing selected has to do with the taps on it. -/
theorem SelectMultipleList.toggled_of_run {list : SelectMultipleList} {taps : List String}
    (h : run tap {} taps = some list) :
    (∀ food ∈ taps, food ∈ getFoods) ∧ Toggled taps list.selectedFoods := by
  obtain ⟨htaps, rfl⟩ := run_tap_eq_some.mp h
  exact ⟨htaps, toggled_foldl taps⟩

/-- A selection that taps on the rows can make. -/
def Selectable (selectedFoods : List String) : Prop :=
  ∃ taps, run SelectMultipleList.tap {} taps = some { selectedFoods }

/-- **The selections that taps can make** are the lists of foods without repetition, in
any order. -/
theorem selectable_iff {selectedFoods : List String} :
    Selectable selectedFoods
      ↔ selectedFoods.Nodup ∧ ∀ food ∈ selectedFoods, food ∈ getFoods := by
  constructor
  · rintro ⟨taps, hrun⟩
    obtain ⟨htaps, htoggled⟩ := SelectMultipleList.toggled_of_run hrun
    exact ⟨htoggled.nodup, fun food hfood => htaps food (htoggled.subset hfood)⟩
  · rintro ⟨hnodup, hfoods⟩
    -- each of the foods is tapped once, in the order they are to have
    refine ⟨selectedFoods, SelectMultipleList.run_tap_eq_some.mpr ⟨hfoods, ?_⟩⟩
    rw [foldl_toggle_of_nodup hnodup]

/-- Every selected food of a form is shown by one checkmark, and there are no others. -/
theorem Selectable.checkmarks {v : RegistrationView} (h : Selectable v.selectedFoods) :
    ((v.list.body.filter FoodRow.selected).map FoodRow.food).Perm v.selectedFoods := by
  obtain ⟨hnodup, hfoods⟩ := selectable_iff.mp h
  have hshown : (v.list.body.filter FoodRow.selected).map FoodRow.food
      = getFoods.filter v.selectedFoods.contains := by
    rw [SelectMultipleList.body, List.filter_map, List.map_map]
    exact List.map_id _
  rw [hshown, List.perm_ext_iff_of_nodup (nodup_getFoods.filter _) hnodup]
  intro food
  rw [List.mem_filter, List.contains_iff_mem]
  exact ⟨And.right, fun hfood => ⟨hfoods food hfood, hfood⟩⟩

/-! ## What is stored -/

section Stored

variable {L : Type} (K : Codecs L)

/-- The favourites as a profile has them. -/
def favoriteFoodTypes (favFoods : List String) : Value L :=
  .array (favFoods.map fun food => .leaf (K.string.encode food))

theorem userDocument_favorites (username firstName lastName : String) (favFoods : List String)
    (UID : String) :
    (userDocument K username firstName lastName favFoods UID).field? "Favorite Food Types"
      = some (favoriteFoodTypes K favFoods) := rfl

/-- `storeUserDetails` writes the favourites it is given. -/
theorem storeUserDetails_favorites (user : User) (users : Collection (Value L))
    (username firstName lastName : String) (favFoods : List String) :
    ∃ users' doc, storeUserDetails K (some user) users username firstName lastName favFoods
        = .ok users'
      ∧ users'.lookup user.uid = some doc
      ∧ doc.field? "Favorite Food Types" = some (favoriteFoodTypes K favFoods) :=
  ⟨_, _, storeUserDetails_some K user users username firstName lastName favFoods,
    Collection.lookup_setData_self _ _ _, userDocument_favorites K _ _ _ _ _⟩

/-- **The selection is what was toggled on.** After any sequence of taps on the rows of
a list that starts with nothing selected, the selected foods are those whose row was
tapped an odd number of times, each once, in the order of their last taps. The
checkmarks show them, and they are what a profile stored then has. -/
theorem selection_toggled {taps : List String} (htaps : ∀ food ∈ taps, food ∈ getFoods) :
    ∃ list : SelectMultipleList, run SelectMultipleList.tap {} taps = some list
      ∧ (∀ food, food ∈ list.selectedFoods ↔ Odd (taps.count food))
      ∧ (∀ food, Odd (taps.count food) → list.selectedFoods.count food = 1)
      ∧ (∀ food ∈ list.selectedFoods, food ∈ getFoods)
      ∧ list.selectedFoods.Pairwise (LastTappedBefore taps)
      ∧ list.body.map FoodRow.food = getFoods
      ∧ (∀ row ∈ list.body, .image "checkmark" ∈ row.body ↔ row.food ∈ list.selectedFoods)
      ∧ ∀ (user : User) (users : Collection (Value L)) (username firstName lastName : String),
          ∃ users' doc, storeUserDetails K (some user) users username firstName lastName
              list.selectedFoods = .ok users'
            ∧ users'.lookup user.uid = some doc
            ∧ doc.field? "Favorite Food Types"
              = some (favoriteFoodTypes K list.selectedFoods) := by
  have htoggled : Toggled taps (taps.foldl toggle []) := toggled_foldl taps
  refine ⟨_, SelectMultipleList.run_tap_eq_some.mpr ⟨htaps, rfl⟩, htoggled.mem_iff, ?_, ?_,
    htoggled.ordered, SelectMultipleList.body_food _,
    fun row => SelectMultipleList.checkmark_iff,
    fun user users username firstName lastName =>
      storeUserDetails_favorites K user users username firstName lastName _⟩
  · intro food hodd
    exact List.count_eq_one_of_mem htoggled.nodup ((htoggled.mem_iff food).mpr hodd)
  · intro food hfood
    exact htaps food (htoggled.subset hfood)

/-- A food tapped three times, one tapped twice and one tapped once. -/
def threeTapped : List String := ["Vegan", "Asian", "Vegan", "Keto", "Asian", "Vegan"]

/-- The law at those taps. -/
theorem selection_toggled_threeTapped :
    ∃ list : SelectMultipleList, run SelectMultipleList.tap {} threeTapped = some list
      ∧ "Vegan" ∈ list.selectedFoods ∧ "Asian" ∉ list.selectedFoods
      ∧ list.selectedFoods.count "Keto" = 1
      ∧ list.selectedFoods.Pairwise (LastTappedBefore threeTapped) := by
  have htaps : ∀ food ∈ threeTapped, food ∈ getFoods := by decide
  obtain ⟨list, hrun, hmem, hcount, -, hordered, -⟩ :=
    selection_toggled (Codecs.firestore fun _ => 0) htaps
  refine ⟨list, hrun, (hmem _).mpr (by decide), ?_, hcount _ (by decide), hordered⟩
  intro hasian
  exact absurd ((hmem _).mp hasian) (by decide)

/-! ## The form around the list -/

/-- The rows that an event of the form taps. -/
def RegistrationEvent.taps : RegistrationEvent → List String
  | .tapFood food => [food]
  | _ => []

variable {K}

/-- What a step of the form that does not end the process is to its list: the taps of
the event. What it is to the profiles: nothing, or the write of the selection. -/
theorem registrationStep_list {currentUser : Option User} {users users' : Collection (Value L)}
    {v w : RegistrationView} {e : RegistrationEvent}
    (h : registrationStep K currentUser users v e = some (.ok (w, users'))) :
    run SelectMultipleList.tap v.list e.taps = some w.list
      ∧ (users' = users ∨ ∃ (user : User) (username firstName lastName : String),
          currentUser = some user ∧ users' = users.setData user.uid
            (userDocument K username firstName lastName v.selectedFoods user.uid)) := by
  rcases e with s | s | s | food | _ | _
  case tapFood =>
    rw [registrationStep, Option.ite_none_right_eq_some] at h
    obtain ⟨hfood, hw⟩ := h
    obtain ⟨rfl, rfl⟩ := Prod.mk.inj (Except.ok.inj (Option.some.inj hw))
    have hrow : food ∈ v.list.foods := hfood
    refine ⟨?_, Or.inl rfl⟩
    rw [RegistrationEvent.taps, run_cons, SelectMultipleList.tap, if_pos hrow]
    rfl
  case submit =>
    rcases RegistrationView.submit_ok K (Option.some.inj h) with
      ⟨-, rfl, rfl⟩ | ⟨user, huser, -, -, rfl, rfl⟩
    · refine ⟨?_, Or.inl rfl⟩
      rw [RegistrationView.list, RegistrationView.list, RegistrationView.validate_selectedFoods]
      rfl
    · exact ⟨rfl, Or.inr ⟨user, _, _, _, huser, rfl⟩⟩
  case dismissAlert =>
    rw [registrationStep, Option.ite_none_right_eq_some] at h
    obtain ⟨rfl, rfl⟩ := Prod.mk.inj (Except.ok.inj (Option.some.inj h.2))
    exact ⟨rfl, Or.inl rfl⟩
  all_goals
    obtain ⟨rfl, rfl⟩ := Prod.mk.inj (Except.ok.inj (Option.some.inj h))
    exact ⟨rfl, Or.inl rfl⟩

/-- What happens to a profile form, with the user signed in and the profiles stored at
that moment. -/
structure RegistrationMoment (L : Type) where
  currentUser : Option User
  users : Collection (Value L)
  event : RegistrationEvent

variable (K) in
/-- The form after an event that does not end the process. -/
def RegistrationView.after (v : RegistrationView) (m : RegistrationMoment L) :
    Option RegistrationView :=
  match registrationStep K m.currentUser m.users v m.event with
  | some (.ok (w, _)) => some w
  | _ => none

theorem after_eq_some {v w : RegistrationView} {m : RegistrationMoment L}
    (h : v.after K m = some w) :
    ∃ users, registrationStep K m.currentUser m.users v m.event = some (.ok (w, users)) := by
  unfold RegistrationView.after at h
  split at h
  case h_1 u users hstep =>
    rw [← Option.some.inj h]
    exact ⟨users, hstep⟩
  case h_2 => exact absurd h (by simp)

/-- The selection of a form is that of its list after the taps alone, whatever else is
done to the form between them. -/
theorem run_after {v : RegistrationView} {ms : List (RegistrationMoment L)}
    (h : run (RegistrationView.after K) {} ms = some v) :
    run SelectMultipleList.tap {} (ms.flatMap fun m => m.event.taps) = some v.list := by
  refine run_flatMap RegistrationView.list _ ?_ h
  intro a m b hab
  obtain ⟨users, hstep⟩ := after_eq_some hab
  exact (registrationStep_list hstep).1

/-- **What a profile form stores.** A Submit that is accepted stores, as the favourites
of the signed-in user, the foods tapped an odd number of times since the form was made,
each at the place of its last tap. -/
theorem stored_favorites {v w : RegistrationView} {ms : List (RegistrationMoment L)}
    {currentUser : Option User} {users users' : Collection (Value L)} {taps : List String}
    (h : run (RegistrationView.after K) {} ms = some v)
    (htaps : taps = ms.flatMap fun m => m.event.taps)
    (hsubmit : v.submit K currentUser users = .ok (w, users'))
    (haccepted : v.validate.incomplete = false) :
    ∃ user doc, currentUser = some user ∧ users'.lookup user.uid = some doc
      ∧ doc.field? "Favorite Food Types" = some (favoriteFoodTypes K
          (taps.dedup.filter fun food => Odd (taps.count food))) := by
  have htoggled : Toggled taps v.selectedFoods := by
    rw [htaps]
    exact (SelectMultipleList.toggled_of_run (run_after h)).2
  rcases RegistrationView.submit_ok K hsubmit with ⟨hinc, -, -⟩ | ⟨user, huser, -, -, -, rfl⟩
  · rw [haccepted] at hinc
    exact absurd hinc Bool.false_ne_true
  · rw [← htoggled.eq (toggled_dedup taps)]
    exact ⟨user, _, huser, Collection.lookup_setData_self _ _ _,
      userDocument_favorites K _ _ _ _ _⟩

end Stored

end FreeFood.Registration
