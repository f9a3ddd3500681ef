/-
`Views/Find/Submit Eat/FoodSubmissionView.swift`: the food form, and the write of a
food event.

The form keeps three things that belong together and are written by different
handlers: the search text and the landmark, which a selection writes both and an
edit of the text only the first, and the building text, which a tap on its empty
field fills with the name of the landmark of that moment.

A submission is stored in two parts. `storeFoodSubmission` runs at the tap and, for
a signed-in user, starts the query for the username; `storeEvent` is the callback,
which runs when the query is answered, once for every username.
-/
import FreeFood.DataFetch
import FreeFood.FoodEventModel
import FreeFood.LocationSearchView

set_option autoImplicit false

namespace FreeFood.FoodSubmission

open Document Transition FreeFood.Platform FreeFood.Landmarks FreeFood.FoodEventModel
open FreeFood.SignInModel FreeFood.DataFetch FreeFood.LocationSearch

/-! ## The form -/

/-- `FoodFormError`. -/
inductive FoodFormError where
  | buildingMissing
  | roomNoMissing
  | restaurantMissing
deriving DecidableEq

def FoodFormError.rawValue : FoodFormError → String
  | .buildingMissing => "Building Missing"
  | .roomNoMissing => "Room No. Missing"
  | .restaurantMissing => "Restaurant Missing"

/-- The text that both `placeholderText` and `infoText` start with. -/
def placeholder : String :=
  "Enter more details about food available, for example, 10 boxes of Subway sandwiches available"

/-- The state of a `FoodSubmissionView`; `location` holds its `search` and `landmark`
with the rest of the location search. -/
structure FoodSubmissionView where
  showSubmission : Bool := true
  loc : String := ""
  roomNum : String := ""
  foodType : String := ""
  placeholderText : String := placeholder
  infoText : String := placeholder
  sizeIndex : ℕ := 0
  foodError : Option FoodFormError := none
  incomplete : Bool := false
  location : LocationSearchView := {}
deriving DecidableEq

def foodSizeOptions : List String :=
  ["A Few (1 - 5 servings)", "A Decent Amount (6 - 15 servings)", "We Ordered Too Much (16+ servings)"]

/-- The arguments of `storeFoodSubmission`. -/
structure Submission where
  landmark : Landmark
  building : String
  roomNum : String
  foodType : String
  quantity : String
  additionalInfo : String
deriving DecidableEq

namespace FoodSubmissionView

/-- `dismiss`: the form after it, and the call of `storeFoodSubmission` if there is
one. The landmark is unwrapped and the size looked up by force. -/
def dismiss (v : FoodSubmissionView) : Except Crash (FoodSubmissionView × Option Submission) :=
  if !v.incomplete then
    -- `landmark!` and `foodSizeOptions[sizeIndex]`, in the order of their evaluation
    match v.location.landmark, foodSizeOptions[v.sizeIndex]? with
    | none, _ => .error .forcedUnwrap
    | some _, none => .error .indexOutOfRange
    | some landmark, some quantity =>
        .ok ({ v with showSubmission := false },
          some { landmark, building := v.loc, roomNum := v.roomNum, foodType := v.foodType,
                 quantity, additionalInfo := v.infoText })
  else .ok (v, none)

/-- The checks of the Submit action. They raise `incomplete` and never lower it, and
a later check replaces the error of an earlier one. -/
def validate (v : FoodSubmissionView) : FoodSubmissionView :=
  let v := if v.loc = "" ∨ v.location.landmark = none then
      { v with incomplete := true, foodError := some .buildingMissing }
    else v
  let v := if v.roomNum = "" then
      { v with incomplete := true, foodError := some .roomNoMissing }
    else v
  if v.foodType = "" then
    { v with incomplete := true, foodError := some .restaurantMissing }
  else v

/-- The alert of the form. -/
def alert (v : FoodSubmissionView) : Option (Except Crash Alert) :=
  presented v.incomplete v.foodError fun error =>
    ⟨error.rawValue, "Please enter the missing information."⟩

/-- The Submit action. -/
def submit (v : FoodSubmissionView) : Except Crash (FoodSubmissionView × Option Submission) :=
  let v := v.validate
  -- the placeholder is taken away even where the checks have failed
  let v := { v with infoText := if v.infoText = v.placeholderText then "" else v.infoText }
  v.dismiss

/-- A tap on the building field. -/
def tapBuilding (v : FoodSubmissionView) : FoodSubmissionView :=
  match v.location.landmark with
  | some landmark => if v.loc = "" then { v with loc := landmark.name } else v
  | none => v

/-- A tap on the info editor. -/
def tapInfo (v : FoodSubmissionView) : FoodSubmissionView :=
  if v.infoText = v.placeholderText then { v with infoText := "" }
  else if v.infoText = "" then { v with infoText := v.placeholderText }
  else v

end FoodSubmissionView

/-- What happens to a food form. -/
inductive FormEvent where
  | location (e : SearchEvent)
  | tapBuilding
  | editBuilding (s : String)
  | editRoom (s : String)
  | editFoodType (s : String)
  | pickSize (i : ℕ)
  | tapInfo
  | editInfo (s : String)
  | submit
  | dismissAlert
  | cancel
deriving DecidableEq

/-- One event of a food form other than Submit. -/
def editStep (v : FoodSubmissionView) : FormEvent → Option FoodSubmissionView
  | .location e => (searchStep v.location e).map fun w => { v with location := w }
  | .tapBuilding => some v.tapBuilding
  | .editBuilding s => some { v with loc := s }
  | .editRoom s => some { v with roomNum := s }
  | .editFoodType s => some { v with foodType := s }
  | .pickSize i => if i < foodSizeOptions.length then some { v with sizeIndex := i } else none
  | .tapInfo => some v.tapInfo
  | .editInfo s => some { v with infoText := s }
  | .submit => none
  | .dismissAlert => if v.incomplete then some { v with incomplete := false } else none
  | .cancel => some { v with showSubmission := false }

/-- One event of a food form while it is shown: the form after it and the call of
`storeFoodSubmission`, or the crash that ends the process. -/
def handle (v : FoodSubmissionView) (e : FormEvent) :
    Option (Except Crash (FoodSubmissionView × Option Submission)) :=
  if v.showSubmission then
    match e with
    | .submit => some v.submit
    | e => (editStep v e).map fun w => .ok (w, none)
  else none

/-- The form's own steps. -/
def formStep (v : FoodSubmissionView) (e : FormEvent) : Option FoodSubmissionView :=
  match handle v e with
  | some (.ok (w, _)) => some w
  | _ => none

/-- The edits of a form, case by case. A tap writes the one text it is for. -/
inductive Edit (v : FoodSubmissionView) : FormEvent → FoodSubmissionView → Prop
  | location {e : SearchEvent} {l : LocationSearchView} (step : searchStep v.location e = some l) :
      Edit v (.location e) { v with location := l }
  | tapBuilding (s : String) (kept : v.loc ≠ "" → s = v.loc) :
      Edit v .tapBuilding { v with loc := s }
  | editBuilding (s : String) : Edit v (.editBuilding s) { v with loc := s }
  | editRoom (s : String) : Edit v (.editRoom s) { v with roomNum := s }
  | editFoodType (s : String) : Edit v (.editFoodType s) { v with foodType := s }
  | pickSize {i : ℕ} (option : i < foodSizeOptions.length) :
      Edit v (.pickSize i) { v with sizeIndex := i }
  | tapInfo (s : String) : Edit v .tapInfo { v with infoText := s }
  | editInfo (s : String) : Edit v (.editInfo s) { v with infoText := s }
  | dismissAlert (presented : v.incomplete = true) :
      Edit v .dismissAlert { v with incomplete := false }
  | cancel : Edit v .cancel { v with showSubmission := false }

theorem editStep_cases {v w : FoodSubmissionView} {e : FormEvent} (h : editStep v e = some w) :
    Edit v e w := by
  rcases e with se | _ | s | s | s | i | _ | s | _ | _ | _
  case location =>
    obtain ⟨l, hl, rfl⟩ := Option.map_eq_some_iff.mp h
    exact .location hl
  case tapBuilding =>
    obtain rfl := Option.some.inj h
    unfold FoodSubmissionView.tapBuilding
    split
    · split_ifs with hloc
      · exact .tapBuilding _ fun hne => absurd hloc hne
      · exact .tapBuilding v.loc fun _ => rfl
    · exact .tapBuilding v.loc fun _ => rfl
  case tapInfo =>
    obtain rfl := Option.some.inj h
    unfold FoodSubmissionView.tapInfo
    split_ifs
    · exact .tapInfo ""
    · exact .tapInfo v.placeholderText
    · exact .tapInfo v.infoText
  case pickSize =>
    rw [editStep, Option.ite_none_right_eq_some] at h
    obtain rfl := Option.some.inj h.2
    exact .pickSize h.1
  case dismissAlert =>
    rw [editStep, Option.ite_none_right_eq_some] at h
    obtain rfl := Option.some.inj h.2
    exact .dismissAlert h.1
  case submit => exact absurd h (by simp [editStep])
  all_goals
    obtain rfl := Option.some.inj h
    constructor

theorem handle_of_ne_submit (v : FoodSubmissionView) {e : FormEvent} (he : e ≠ .submit) :
    handle v e
      = if v.showSubmission then (editStep v e).map fun w => .ok (w, none) else none := by
  unfold handle
  rcases e
  case submit => exact absurd rfl he
  all_goals rfl

/-- What happens to a form is an edit, which is no call, or a Submit. -/
theorem handle_cases {v : FoodSubmissionView} {e : FormEvent}
    {r : Except Crash (FoodSubmissionView × Option Submission)} (h : handle v e = some r) :
    v.showSubmission = true
      ∧ ((∃ w, editStep v e = some w ∧ r = .ok (w, none)) ∨ (e = .submit ∧ v.submit = r)) := by
  by_cases he : e = .submit
  · subst he
    unfold handle at h
    rw [Option.ite_none_right_eq_some] at h
    exact ⟨h.1, Or.inr ⟨rfl, Option.some.inj h.2⟩⟩
  · rw [handle_of_ne_submit v he, Option.ite_none_right_eq_some] at h
    obtain ⟨w, hw, rfl⟩ := Option.map_eq_some_iff.mp h.2
    exact ⟨h.1, Or.inl ⟨w, hw, rfl⟩⟩

/-- A step of the form is something that happens to it and does not end the process. -/
theorem formStep_eq_some {v w : FoodSubmissionView} {e : FormEvent} :
    formStep v e = some w ↔ ∃ sub, handle v e = some (.ok (w, sub)) := by
  unfold formStep
  constructor
  · intro h
    split at h
    · rename_i u sub heq
      obtain rfl := Option.some.inj h
      exact ⟨sub, heq⟩
    · exact absurd h (by simp)
  · rintro ⟨sub, h⟩
    rw [h]

/-- A step is an edit, or a Submit. -/
theorem formStep_cases {v w : FoodSubmissionView} {e : FormEvent} (h : formStep v e = some w) :
    v.showSubmission = true
      ∧ (editStep v e = some w ∨ (e = .submit ∧ ∃ sub, v.submit = .ok (w, sub))) := by
  obtain ⟨sub, hsub⟩ := formStep_eq_some.mp h
  obtain ⟨hshow, ⟨u, hedit, hr⟩ | ⟨he, hr⟩⟩ := handle_cases hsub
  · obtain ⟨rfl, -⟩ := Prod.mk.inj (Except.ok.inj hr)
    exact ⟨hshow, Or.inl hedit⟩
  · exact ⟨hshow, Or.inr ⟨he, sub, hr⟩⟩

/-! ### What the checks decide -/

/-- Every mandatory field of the form is filled in. -/
def FoodSubmissionView.Filled (v : FoodSubmissionView) : Prop :=
  v.loc ≠ "" ∧ v.location.landmark ≠ none ∧ v.roomNum ≠ "" ∧ v.foodType ≠ ""

/-- What the error names is missing in the form. -/
def FoodFormError.Missing (v : FoodSubmissionView) : FoodFormError → Prop
  | .buildingMissing => v.loc = "" ∨ v.location.landmark = none
  | .roomNoMissing => v.roomNum = ""
  | .restaurantMissing => v.foodType = ""

/-- A filled form passes the checks as it is. Any other leaves them with `incomplete`
raised and with an error that names something missing. -/
theorem FoodSubmissionView.validate_cases (v : FoodSubmissionView) :
    (v.Filled ∧ v.validate = v)
      ∨ (¬ v.Filled ∧ ∃ error : FoodFormError, error.Missing v
          ∧ v.validate = { v with incomplete := true, foodError := some error }) := by
  unfold validate Filled
  dsimp only
  -- the check that fails last is the one whose error stays
  by_cases htype : v.foodType = ""
  · refine Or.inr ⟨fun h => h.2.2.2 htype, .restaurantMissing, htype, ?_⟩
    split_ifs <;> rfl
  · by_cases hroom : v.roomNum = ""
    · refine Or.inr ⟨fun h => h.2.2.1 hroom, .roomNoMissing, hroom, ?_⟩
      split_ifs <;> rfl
    · by_cases hbuilding : v.loc = "" ∨ v.location.landmark = none
      · refine Or.inr ⟨fun h => hbuilding.elim h.1 h.2.1, .buildingMissing, hbuilding, ?_⟩
        rw [if_pos hbuilding, if_neg hroom, if_neg htype]
      · obtain ⟨hloc, hland⟩ := not_or.mp hbuilding
        refine Or.inl ⟨⟨hloc, hland, hroom, htype⟩, ?_⟩
        rw [if_neg hbuilding, if_neg hroom, if_neg htype]

/-- The checks pass exactly on filled forms on which no alert is shown. -/
theorem FoodSubmissionView.filled_of_validate {v : FoodSubmissionView}
    (h : v.validate.incomplete = false) : v.Filled ∧ v.incomplete = false := by
  rcases v.validate_cases with ⟨hfilled, hv⟩ | ⟨-, error, -, hv⟩
  · rw [hv] at h
    exact ⟨hfilled, h⟩
  · rw [hv] at h
    exact absurd h (by simp)

/-! ### What Submit leaves alone -/

theorem FoodSubmissionView.validate_frame (v : FoodSubmissionView) :
    v.validate.loc = v.loc ∧ v.validate.location = v.location
      ∧ v.validate.roomNum = v.roomNum ∧ v.validate.foodType = v.foodType
      ∧ v.validate.sizeIndex = v.sizeIndex ∧ v.validate.infoText = v.infoText
      ∧ v.validate.placeholderText = v.placeholderText
      ∧ v.validate.showSubmission = v.showSubmission := by
  unfold validate
  dsimp only
  split_ifs <;> exact ⟨rfl, rfl, rfl, rfl, rfl, rfl, rfl, rfl⟩

/-- A call of `dismiss` either leaves the form, or closes it with a submission made
of what the form holds. -/
theorem FoodSubmissionView.dismiss_cases {v w : FoodSubmissionView} {sub : Option Submission}
    (h : v.dismiss = .ok (w, sub)) :
    (v.incomplete = true ∧ w = v ∧ sub = none)
      ∨ ∃ landmark quantity, v.incomplete = false ∧ v.location.landmark = some landmark
          ∧ foodSizeOptions[v.sizeIndex]? = some quantity
          ∧ w = { v with showSubmission := false }
          ∧ sub = some ⟨landmark, v.loc, v.roomNum, v.foodType, quantity, v.infoText⟩ := by
  unfold dismiss at h
  rcases hinc : v.incomplete with _ | _
  · right
    rw [hinc] at h
    rcases hland : v.location.landmark with _ | landmark
    · simp [hland] at h
    · rcases hsize : foodSizeOptions[v.sizeIndex]? with _ | quantity
      · simp [hland, hsize] at h
      · simp only [hland, hsize, Bool.not_false, if_true] at h
        obtain ⟨rfl, rfl⟩ := Prod.mk.inj (Except.ok.inj h)
        exact ⟨landmark, quantity, rfl, rfl, rfl, rfl, rfl⟩
  · left
    rw [hinc] at h
    obtain ⟨rfl, rfl⟩ := Prod.mk.inj (Except.ok.inj h)
    exact ⟨rfl, rfl, rfl⟩

/-- What Submit does: the location, the building and the other texts stay, and a
submission carries those it found. -/
theorem FoodSubmissionView.submit_cases {v w : FoodSubmissionView} {sub : Option Submission}
    (h : v.submit = .ok (w, sub)) :
    w.loc = v.loc ∧ w.location = v.location
      ∧ ((v.validate.incomplete = true ∧ w.showSubmission = v.showSubmission ∧ sub = none)
        ∨ ∃ landmark quantity, v.validate.incomplete = false
            ∧ v.location.landmark = some landmark
            ∧ foodSizeOptions[v.sizeIndex]? = some quantity ∧ w.showSubmission = false
            ∧ sub = some ⟨landmark, v.loc, v.roomNum, v.foodType, quantity, w.infoText⟩) := by
  obtain ⟨hloc, hlocation, hroom, htype, hsize, -, -, hshow⟩ := v.validate_frame
  unfold submit at h
  dsimp only at h
  rcases dismiss_cases h with ⟨hinc, rfl, rfl⟩ | ⟨landmark, quantity, hinc, hland, hq, rfl, rfl⟩
  · exact ⟨hloc, hlocation, Or.inl ⟨hinc, hshow, rfl⟩⟩
  · rw [hlocation] at hland
    rw [hsize] at hq
    refine ⟨hloc, hlocation, Or.inr ⟨landmark, quantity, hinc, hland, hq, rfl, ?_⟩⟩
    simp only [hloc, hroom, htype]

/-- A Submit is rejected where the checks leave `incomplete` raised. Apart from what
they write, it takes the placeholder away. -/
theorem FoodSubmissionView.submit_of_incomplete {v : FoodSubmissionView}
    (h : v.validate.incomplete = true) :
    v.submit = .ok ({ v.validate with
      infoText := if v.infoText = v.placeholderText then "" else v.infoText }, none) := by
  obtain ⟨-, -, -, -, -, hinfo, hplaceholder, -⟩ := v.validate_frame
  unfold submit dismiss
  dsimp only
  rw [h, hinfo, hplaceholder]
  rfl

/-- A Submit of a filled form on which no alert is shown is accepted. -/
theorem FoodSubmissionView.submit_of_filled {v : FoodSubmissionView} (hfilled : v.Filled)
    (hinc : v.incomplete = false) (hsize : v.sizeIndex < foodSizeOptions.length) :
    ∃ landmark quantity, v.location.landmark = some landmark
      ∧ foodSizeOptions[v.sizeIndex]? = some quantity
      ∧ v.submit = .ok ({ v with
          infoText := if v.infoText = v.placeholderText then "" else v.infoText
          showSubmission := false },
        some { landmark, building := v.loc, roomNum := v.roomNum, foodType := v.foodType, quantity
               additionalInfo := if v.infoText = v.placeholderText then "" else v.infoText }) := by
  obtain ⟨landmark, hland⟩ := Option.ne_none_iff_exists'.mp hfilled.2.1
  have hquantity : foodSizeOptions[v.sizeIndex]? = some foodSizeOptions[v.sizeIndex] :=
    List.getElem?_eq_getElem hsize
  refine ⟨landmark, foodSizeOptions[v.sizeIndex], hland, hquantity, ?_⟩
  have hvalid : v.validate = v := by
    rcases v.validate_cases with ⟨-, hv⟩ | ⟨hnot, -⟩
    · exact hv
    · exact absurd hfilled hnot
  unfold submit dismiss
  dsimp only
  rw [hvalid, hinc, hland, hquantity]
  rfl

/-- What an edit leaves alone: the placeholder, the error, the flag but for the dismissal
of the alert, and the size but for a choice among the options. -/
theorem editStep_frame {v w : FoodSubmissionView} {e : FormEvent} (h : editStep v e = some w) :
    w.placeholderText = v.placeholderText ∧ w.foodError = v.foodError
      ∧ (w.incomplete = v.incomplete ∨ w.incomplete = false)
      ∧ (w.sizeIndex = v.sizeIndex ∨ w.sizeIndex < foodSizeOptions.length) := by
  cases editStep_cases h with
  | pickSize option => exact ⟨rfl, rfl, Or.inl rfl, Or.inr option⟩
  | dismissAlert presented => exact ⟨rfl, rfl, Or.inr rfl, Or.inl rfl⟩
  | _ => exact ⟨rfl, rfl, Or.inl rfl, Or.inl rfl⟩

/-- No event writes `placeholderText`. -/
theorem formStep_placeholderText {v w : FoodSubmissionView} {e : FormEvent}
    (h : formStep v e = some w) : w.placeholderText = v.placeholderText := by
  obtain ⟨-, hedit | ⟨rfl, sub, hsub⟩⟩ := formStep_cases h
  · exact (editStep_frame hedit).1
  · obtain ⟨-, -, -, -, -, -, hplaceholder, -⟩ := v.validate_frame
    rw [← hplaceholder]
    rcases FoodSubmissionView.dismiss_cases hsub with ⟨-, rfl, -⟩ | ⟨l, q, -, -, -, rfl, -⟩
    · rfl
    · rfl

/-- So it is the placeholder in every form. -/
theorem run_placeholderText {v : FoodSubmissionView} {es : List FormEvent}
    (h : run formStep {} es = some v) : v.placeholderText = placeholder :=
  run_frame (f := fun v : FoodSubmissionView => v.placeholderText)
    (fun _ _ _ _ hstep => formStep_placeholderText hstep) h

/-! ## The location, the search text and the building -/

/-- The event selects a search result. -/
def FormEvent.Selects (e : FormEvent) : Prop := ∃ row, e = .location (.select row)

/-- The event edits the search text. -/
def FormEvent.EditsSearch (e : FormEvent) : Prop := ∃ s, e = .location (.editSearch s)

/-- The event edits the building text by hand. -/
def FormEvent.EditsBuilding (e : FormEvent) : Prop := ∃ s, e = .editBuilding s

/-- Which events write what: the landmark is written by a selection, the search text
by a selection and by hand, and the building by hand and by a tap on its empty field. -/
theorem formStep_frame {v w : FoodSubmissionView} {e : FormEvent} (h : formStep v e = some w) :
    (¬ e.Selects → w.location.landmark = v.location.landmark)
      ∧ (¬ e.Selects → ¬ e.EditsSearch → w.location.search = v.location.search)
      ∧ (¬ e.EditsBuilding → v.loc ≠ "" → w.loc = v.loc) := by
  obtain ⟨-, hedit | ⟨rfl, sub, hsub⟩⟩ := formStep_cases h
  · cases editStep_cases hedit with
    | location step =>
        -- an answer changes the list only, a selection the landmark and the text
        rcases searchStep_cases step with
          ⟨s, rfl, rfl⟩ | ⟨rfl, rfl⟩ | ⟨number, ans, rfl, -, rfl⟩ | ⟨row, landmark, rfl, -, -, rfl⟩
        · exact ⟨fun _ => rfl, fun _ hs => absurd ⟨s, rfl⟩ hs, fun _ _ => rfl⟩
        · exact ⟨fun _ => rfl, fun _ _ => rfl, fun _ _ => rfl⟩
        · rcases ans with mapItems | _ <;> exact ⟨fun _ => rfl, fun _ _ => rfl, fun _ _ => rfl⟩
        · exact ⟨fun hs => absurd ⟨row, rfl⟩ hs, fun hs => absurd ⟨row, rfl⟩ hs, fun _ _ => rfl⟩
    | tapBuilding s kept => exact ⟨fun _ => rfl, fun _ _ => rfl, fun _ => kept⟩
    | editBuilding s => exact ⟨fun _ => rfl, fun _ _ => rfl, fun hs => absurd ⟨s, rfl⟩ hs⟩
    | _ => exact ⟨fun _ => rfl, fun _ _ => rfl, fun _ _ => rfl⟩
  · obtain ⟨hloc, hlocation, -⟩ := FoodSubmissionView.submit_cases hsub
    rw [hlocation, hloc]
    exact ⟨fun _ => rfl, fun _ _ => rfl, fun _ _ => rfl⟩

/-- A selection makes the landmark and the search text those of the row. -/
theorem formStep_select {v w : FoodSubmissionView} {row : ℕ}
    (h : formStep v (.location (.select row)) = some w) :
    ∃ landmark, v.location.landmarks[row]? = some landmark
      ∧ w.location.landmark = some landmark ∧ w.location.search = landmark.title := by
  obtain ⟨-, hedit | ⟨hsubmit, -⟩⟩ := formStep_cases h
  · rw [editStep, Option.map_eq_some_iff] at hedit
    obtain ⟨l, hl, rfl⟩ := hedit
    rcases searchStep_cases hl with
      ⟨s, hs, -⟩ | ⟨hs, -⟩ | ⟨number, ans, hs, -⟩ | ⟨r, landmark, hs, -, hrow, rfl⟩
    · exact absurd hs (by simp)
    · exact absurd hs (by simp)
    · exact absurd hs (by simp)
    · obtain rfl : row = r := by simpa using hs
      exact ⟨landmark, hrow, rfl, rfl⟩
  · exact absurd hsubmit (by simp)

/-- A tap on the empty building field fills it with the name of the landmark. -/
theorem formStep_tapBuilding {v w : FoodSubmissionView} {landmark : Landmark}
    (h : formStep v .tapBuilding = some w) (hland : v.location.landmark = some landmark)
    (hloc : v.loc = "") : w.loc = landmark.name ∧ w.location = v.location := by
  obtain ⟨-, hedit | ⟨hsubmit, -⟩⟩ := formStep_cases h
  · obtain rfl := Option.some.inj hedit
    unfold FoodSubmissionView.tapBuilding
    rw [hland, hloc]
    exact ⟨rfl, rfl⟩
  · exact absurd hsubmit (by simp)

/-- A Submit with a call of `storeFoodSubmission` closes the form, and one without it
leaves the form shown. -/
theorem handle_submit_cases {v w : FoodSubmissionView} {sub : Option Submission}
    (h : handle v .submit = some (.ok (w, sub))) :
    v.showSubmission = true ∧ v.submit = .ok (w, sub) ∧ w.showSubmission = sub.isNone := by
  rw [handle, Option.ite_none_right_eq_some] at h
  obtain ⟨hshow, hsome⟩ := h
  have hsub : v.submit = .ok (w, sub) := Option.some.inj hsome
  refine ⟨hshow, hsub, ?_⟩
  obtain ⟨-, -, ⟨-, hw, rfl⟩ | ⟨landmark, quantity, -, -, -, hw, rfl⟩⟩ :=
    FoodSubmissionView.submit_cases hsub
  · rw [hw, hshow]
    rfl
  · exact hw

/-- An accepted Submit passes on the landmark and the building of the form. -/
theorem handle_submit {v w : FoodSubmissionView} {sub : Submission}
    (h : handle v .submit = some (.ok (w, some sub))) :
    v.location.landmark = some sub.landmark ∧ v.loc = sub.building := by
  obtain ⟨-, hsub, -⟩ := handle_submit_cases h
  obtain ⟨-, -, ⟨-, -, hnone⟩ | ⟨landmark, quantity, -, hland, -, -, hsome⟩⟩ :=
    FoodSubmissionView.submit_cases hsub
  · exact absurd hnone (by simp)
  · obtain rfl := Option.some.inj hsome
    exact ⟨hland, rfl⟩

/-- **The stored location is the one last selected, and the building the one filled
in.** The landmark passed on is that of the run's last selection, and the search
text shows its title unless the text was edited after it. A building filled in by
a tap and not edited since is the name of the landmark of that tap, which is the
one passed on unless another was selected in between. -/
theorem stored_location {es : List FormEvent} {v w : FoodSubmissionView} {sub : Submission}
    (h : run formStep {} es = some v) (hsub : handle v .submit = some (.ok (w, some sub))) :
    (∃ pre row post u, es = pre ++ .location (.select row) :: post
        ∧ (∀ e ∈ post, ¬ e.Selects) ∧ run formStep {} pre = some u
        ∧ u.location.landmarks[row]? = some sub.landmark
        ∧ ((∀ e ∈ post, ¬ e.EditsSearch) → v.location.search = sub.landmark.title))
      ∧ ∀ pre post u landmark, es = pre ++ .tapBuilding :: post → run formStep {} pre = some u →
          u.loc = "" → u.location.landmark = some landmark → landmark.name ≠ "" →
          (∀ e ∈ post, ¬ e.EditsBuilding) →
          sub.building = landmark.name
            ∧ ((∀ e ∈ post, ¬ e.Selects) → sub.landmark = landmark) := by
  obtain ⟨hland, hbuilding⟩ := handle_submit hsub
  constructor
  · -- the landmark has a last writer, since a new form has none
    have hlast := run_last_writer (f := fun v : FoodSubmissionView => v.location.landmark)
      (W := FormEvent.Selects) (fun s e s' he hstep => (formStep_frame hstep).1 he) h
    rcases hlast with ⟨-, hnone⟩ | ⟨pre, e, post, a, b, hes, ⟨row, rfl⟩, hpost, hpre, hab, hbv, hvb⟩
    · rw [hland] at hnone
      exact absurd hnone (by simp)
    · obtain ⟨landmark, hrow, hb, htitle⟩ := formStep_select hab
      obtain rfl : landmark = sub.landmark := by
        have hsome : some sub.landmark = some landmark := by
          rw [← hland, ← hb]
          exact hvb
        exact (Option.some.inj hsome).symm
      refine ⟨pre, row, post, a, hes, hpost, hpre, hrow, fun hedits => ?_⟩
      have hsearch := run_frame (f := fun v : FoodSubmissionView => v.location.search)
        (fun s e s' he hstep => (formStep_frame hstep).2.1 (hpost e he) (hedits e he)) hbv
      exact hsearch.trans htitle
  · intro pre post u landmark hes hpre hloc hu hname hedits
    rw [hes, run_append, hpre, Option.bind_some, run_cons, Option.bind_eq_some_iff] at h
    obtain ⟨b, hub, hbv⟩ := h
    obtain ⟨hfill, hlocation⟩ := formStep_tapBuilding hub hu hloc
    constructor
    · -- from the tap on the building text is never empty, so no tap fills it again
      have hkeep : ∀ a e a', e ∈ post → a.loc = landmark.name → formStep a e = some a' →
          a'.loc = landmark.name := by
        intro a e a' he ha hstep
        rw [(formStep_frame hstep).2.2 (hedits e he) (by rw [ha]; exact hname)]
        exact ha
      rw [← hbuilding]
      exact run_invariant_of_mem (I := fun v : FoodSubmissionView => v.loc = landmark.name)
        hkeep hfill hbv
    · intro hselects
      have hsame := run_frame (f := fun v : FoodSubmissionView => v.location.landmark)
        (fun s e s' he hstep => (formStep_frame hstep).1 (hselects e he)) hbv
      have hsome : some sub.landmark = some landmark := by
        rw [← hland, ← hu, ← hlocation]
        exact hsame
      exact Option.some.inj hsome

/-- A second place in College Park. -/
def mckeldin : MapItem where
  placemark :=
    { name := some "McKeldin Library"
      title := some "7649 Library Ln, College Park, MD 20742, United States"
      locality := some "College Park"
      coordinate := ⟨0x40437E2DE00D1B71#64, 0xC0533C7E28240B78#64⟩ }

/-- The building is filled in from the first selection; then the second result is
selected, and the search text is edited after it. -/
def reselected : List FormEvent :=
  [.location (.editSearch "umd"), .location .commit,
    .location (.answer 0 (.response [stamp, mckeldin])), .location (.select 0), .tapBuilding,
    .location .commit, .location (.select 1), .location (.editSearch "the mall"),
    .editRoom "1101", .editFoodType "Subway"]

/-- Submit is accepted there, with a landmark whose title is not the one shown and
whose name is not the building. -/
theorem reselected_stores_another :
    (¬ ∀ (es : List FormEvent) (v w : FoodSubmissionView) (sub : Submission),
      run formStep {} es = some v → handle v .submit = some (.ok (w, some sub)) →
        v.location.search = sub.landmark.title)
      ∧ ¬ ∀ (es : List FormEvent) (v w : FoodSubmissionView) (sub : Submission),
        run formStep {} es = some v → handle v .submit = some (.ok (w, some sub)) →
          ∀ pre post u landmark, es = pre ++ .tapBuilding :: post →
            run formStep {} pre = some u → u.loc = "" → u.location.landmark = some landmark →
            (∀ e ∈ post, ¬ e.EditsBuilding) → sub.building = sub.landmark.name := by
  constructor
  · intro hall
    exact absurd (hall reselected _ _ _ rfl rfl) (by decide)
  · intro hall
    -- the fifth event is the tap that fills the building in
    have hbuilding := hall reselected _ _ _ rfl rfl (reselected.take 4) (reselected.drop 5) _ _
      rfl rfl rfl rfl (by rintro e he ⟨s, rfl⟩; simp [reselected] at he)
    exact absurd hbuilding (by decide)

/-- The law at that run. -/
theorem stored_location_reselected :
    ∃ v w sub, run formStep {} reselected = some v
      ∧ handle v .submit = some (.ok (w, some sub))
      ∧ ∃ pre row post u, reselected = pre ++ .location (.select row) :: post
        ∧ (∀ e ∈ post, ¬ e.Selects) ∧ run formStep {} pre = some u
        ∧ u.location.landmarks[row]? = some sub.landmark
        ∧ ((∀ e ∈ post, ¬ e.EditsSearch) → v.location.search = sub.landmark.title) :=
  ⟨_, _, _, rfl, rfl, (stored_location (show run formStep {} reselected = some _ from rfl)
    (show handle _ .submit = some (.ok (_, some _)) from rfl)).1⟩

/-! ## The write of a food event -/

/-- A call of `fetchUsername` that is not answered yet, with what its callback
captures: the UID and the arguments of the call of `storeFoodSubmission`. -/
structure FetchRequest where
  /-- the client whose process waits for the answer -/
  client : ℕ
  /-- the number of the call of `storeFoodSubmission` -/
  call : ℕ
  UID : String
  args : Submission
deriving DecidableEq

/-- `storeFoodSubmission`, up to the query: it returns at once where no user is
signed in. -/
def storeFoodSubmission (currentUser : Option User) (client call : ℕ) (args : Submission) :
    Option FetchRequest :=
  match currentUser with
  | some user => some { client, call, UID := user.uid, args }
  | none => none

/-- What a run of the callback takes from outside: the id that `document()` makes,
`Date.now`, and the value that reading `landmark.id` yields. -/
structure Stamp where
  docID : String
  date : Date
  landmarkID : UUID
deriving DecidableEq

/-- The event the callback makes of the arguments of the call, the UID of its user and
the username found. -/
def Submission.event (args : Submission) (UID username : String) (stamp : Stamp) : FoodEvent :=
  FoodEvent.new stamp.docID stamp.date args.additionalInfo args.building args.foodType
    args.quantity args.roomNum UID username (args.landmark.id stamp.landmarkID)
    args.landmark.name args.landmark.title args.landmark.coordinate

/-- The event has what was passed to `storeFoodSubmission`, and who passed it. -/
structure Submission.CarriedBy (args : Submission) (UID username : String) (event : FoodEvent) :
    Prop where
  UID : event.UID = UID
  username : event.username = username
  building : event.building = args.building
  roomNum : event.roomNum = args.roomNum
  foodType : event.foodType = args.foodType
  quantity : event.quantity = args.quantity
  additionalInfo : event.additionalInfo = args.additionalInfo
  name : event.name = args.landmark.name
  address : event.address = args.landmark.title
  latitude : event.latitude = args.landmark.coordinate.latitude
  longitude : event.longitude = args.landmark.coordinate.longitude

theorem Submission.carriedBy_event (args : Submission) (UID username : String) (stamp : Stamp) :
    args.CarriedBy UID username (args.event UID username stamp) :=
  ⟨rfl, rfl, rfl, rfl, rfl, rfl, rfl, rfl, rfl, rfl, rfl⟩

/-- The document carries the submission: it is read as an event that does, and has each
field of that event at its path. -/
def Submission.Carried {L : Type} (K : Codecs L) (args : Submission) (UID username : String)
    (doc : Value L) : Prop :=
  ∃ event, FoodEvent.decode K doc = some event ∧ args.CarriedBy UID username event
    ∧ ∀ f ∈ FoodEvent.fieldValues K event, doc.at? f.1 = some (.leaf f.2)

theorem Submission.carried_event {L : Type} (K : Codecs L) (args : Submission)
    (UID username : String) (stamp : Stamp) :
    args.Carried K UID username (FoodEvent.encode K (args.event UID username stamp)) :=
  ⟨args.event UID username stamp, FoodEvent.decode_encode K _,
    args.carriedBy_event UID username stamp, FoodEvent.encode_at? K _⟩

section Store

variable {L : Type} (K : Codecs L)

/-- The callback, on the `Food Submissions` collection. -/
def storeEvent (r : FetchRequest) (foodSubmissions : Collection (Value L)) (username : String)
    (stamp : Stamp) : Collection (Value L) :=
  foodSubmissions.setData stamp.docID (FoodEvent.encode K (r.args.event r.UID username stamp))

/-- The query is answered with documents: the callback is run for each username that
`fetchUsername` finds, and a failed cast ends the process. -/
def FetchRequest.answered (r : FetchRequest) (docs : List (Value L)) (stamps : List Stamp)
    (foodSubmissions : Collection (Value L)) : Collection (Value L) × Option Crash :=
  let (usernames, crash) := fetchUsername K docs
  ((usernames.zip stamps).foldl (fun c p => storeEvent K r c p.1 p.2) foodSubmissions, crash)

end Store

end FreeFood.FoodSubmission
