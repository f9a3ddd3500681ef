/-
The Submit buttons of the food form and of the profile form.

Both decide through `incomplete`, which their checks only ever raise and the alert
only ever lowers. So a tap is decided by the form alone exactly while no alert is
shown, and then it is decided rightly by both forms (`foodSubmit`, `profileSubmit_iff`);
what the profile form's write does without a user is another matter.

A Submit of the food form does more than decide: it takes the placeholder out of the
info text before it knows whether it is rejected (`rejected_leaves_form_iff`).
-/
import FreeFood.Forms
import FreeFood.Submissions

set_option autoImplicit false

namespace FreeFood.FormSubmit

open Document Transition FreeFood.Platform FreeFood.SignInModel FreeFood.HomeView
open FreeFood.Registration FreeFood.FoodSubmission FreeFood.LocationSearch FreeFood.App
open FreeFood.Deployment FreeFood.Forms FreeFood.Submissions

/-! ## When a Submit is accepted -/

/-- Submit does with a food form what its fields ask for: a filled form is submitted by
one call of `storeFoodSubmission`, with what it holds, and closed; any other makes no
call, stays, and presents an alert that names something missing. -/
def FoodSubmit (v : FoodSubmissionView) : Prop :=
  (v.Filled → ∃ w sub, handle v .submit = some (.ok (w, some sub)) ∧ w.showSubmission = false
      ∧ v.location.landmark = some sub.landmark ∧ sub.building = v.loc ∧ sub.roomNum = v.roomNum
      ∧ sub.foodType = v.foodType ∧ foodSizeOptions[v.sizeIndex]? = some sub.quantity)
    ∧ (¬ v.Filled → ∃ w, ∃ error : FoodFormError, handle v .submit = some (.ok (w, none))
      ∧ w.showSubmission = true ∧ error.Missing v
      ∧ w.alert = some (.ok ⟨error.rawValue, "Please enter the missing information."⟩))

/-- The same of a profile form: a filled one is left by one call of `storeUserDetails`,
with what it holds, that returns; any other stores nothing, stays, and presents an
alert that names something missing. -/
def ProfileSubmit {L : Type} (K : Codecs L) (currentUser : Option User)
    (users : Collection (Value L)) (v : RegistrationView) : Prop :=
  (v.Filled → ∃ w users', v.submit K currentUser users = .ok (w, users') ∧ w.showAppView = true
      ∧ storeUserDetails K currentUser users v.username v.firstName v.lastName v.selectedFoods
        = .ok users')
    ∧ (¬ v.Filled → ∃ w, ∃ error : FormError, v.submit K currentUser users = .ok (w, users)
      ∧ w.showAppView = v.showAppView ∧ error.Missing v
      ∧ w.alert = some (.ok ⟨error.rawValue, "Please enter missing info."⟩))

/-- A food form on which no alert is shown is decided rightly. -/
theorem foodSubmit {v : FoodSubmissionView} (hv : SafeFoodForm v) (hshow : v.showSubmission = true)
    (hinc : v.incomplete = false) : FoodSubmit v := by
  have hhandle : handle v .submit = some v.submit := by
    unfold handle
    rw [hshow, if_pos rfl]
  rw [FoodSubmit, hhandle]
  constructor
  · intro hfilled
    obtain ⟨landmark, quantity, hland, hquantity, hsubmit⟩ :=
      FoodSubmissionView.submit_of_filled hfilled hinc hv.sizeIndex
    rw [hsubmit]
    exact ⟨_, _, rfl, rfl, hland, rfl, rfl, rfl, hquantity⟩
  · intro hfilled
    obtain ⟨hmissing, error, herror, hvalid⟩ := v.validate_cases.resolve_left fun h => hfilled h.1
    have hup : v.validate.incomplete = true := by rw [hvalid]
    rw [FoodSubmissionView.submit_of_incomplete hup, hvalid]
    exact ⟨_, error, rfl, hshow, herror, rfl⟩

/-- A profile form on which no alert is shown is decided rightly, except that without a
user its write does not return. -/
theorem profileSubmit_iff {L : Type} {K : Codecs L} {currentUser : Option User}
    {users : Collection (Value L)} {v : RegistrationView} (hinc : v.incomplete = false) :
    ProfileSubmit K currentUser users v ↔ (v.Filled → currentUser.isSome) := by
  constructor
  · rintro ⟨hwrites, -⟩ hfilled
    obtain ⟨w, users', -, -, hstore⟩ := hwrites hfilled
    rcases currentUser with _ | user
    · rw [storeUserDetails_none] at hstore
      exact absurd hstore (by simp)
    · rfl
  · intro huser
    constructor
    · intro hfilled
      obtain ⟨user, rfl⟩ := Option.isSome_iff_exists.mp (huser hfilled)
      rw [RegistrationView.submit_of_filled K hfilled hinc, storeUserDetails_some]
      exact ⟨_, _, rfl, rfl, rfl⟩
    · intro hfilled
      obtain ⟨hmissing, error, herror, hvalid⟩ := v.validate_cases.resolve_left fun h => hfilled h.1
      have hup : v.validate.incomplete = true := by rw [hvalid]
      rw [RegistrationView.submit_of_incomplete K hup, hvalid]
      exact ⟨_, error, rfl, rfl, herror, rfl⟩

variable {L : Type} {K : Codecs L} {count : String → ℕ}

/-- **Submit is accepted exactly when the form is complete, whatever happened before.**
In every run of any clients, a tap on Submit of a food form on which no alert is shown
does what its fields ask for. So does one of a profile form, exactly if a user is
signed in or a mandatory field is missing. -/
theorem submit_accepted_iff {w w' : World L} {es : List (ℕ × ClientEvent)} (hw : Launched w)
    (h : run (worldStep K count) w es = some w') (n : ℕ) :
    ((w'.clients n).form.showSubmission = true → (w'.clients n).form.incomplete = false →
        FoodSubmit (w'.clients n).form)
      ∧ ∀ home ∈ (w'.clients n).app.homes, home.registration.incomplete = false →
          (ProfileSubmit K (w'.clients n).app.session.currentUser w'.backend.users home.registration
            ↔ (home.registration.Filled → (w'.clients n).app.session.currentUser.isSome)) := by
  constructor
  · exact foodSubmit (hw.safe h n).form
  · intro home _ hinc
    exact profileSubmit_iff hinc

/-- A user fills in the profile form, and the session ends before Submit is tapped. -/
def endsSession : List (ℕ × ClientEvent) :=
  (signsUp ++ storesProfile.dropLast ++ [ClientEvent.app .sessionEnds]).map fun e => (0, e)

/-- The form is complete, and the tap ends the process. -/
theorem endsSession_not_profileSubmit :
    ¬ ∀ (es : List (ℕ × ClientEvent)) (w : World Leaf) (n : ℕ) (home : Home),
      run (worldStep (Codecs.firestore fun _ => 0) String.length) {} es = some w →
        (w.clients n).app.homes[0]? = some home → home.registration.incomplete = false →
        ProfileSubmit (Codecs.firestore fun _ => 0) (w.clients n).app.session.currentUser
          w.backend.users home.registration := by
  intro hall
  have hsubmit := hall endsSession _ 0 _ rfl rfl rfl
  have hsome := (profileSubmit_iff rfl).mp hsubmit (by unfold RegistrationView.Filled; decide)
  exact absurd hsome (by decide)

/-- The condition at that run. -/
theorem submit_accepted_iff_endsSession :
    ∃ w home, run (worldStep (Codecs.firestore fun _ => 0) String.length) {} endsSession = some w
      ∧ (w.clients 0).app.homes[0]? = some home
      ∧ (ProfileSubmit (Codecs.firestore fun _ => 0) (w.clients 0).app.session.currentUser
            w.backend.users home.registration
          ↔ (home.registration.Filled → (w.clients 0).app.session.currentUser.isSome)) :=
  ⟨_, _, rfl, rfl, (submit_accepted_iff launched_init
    (show run (worldStep (Codecs.firestore fun _ => 0) String.length) {} endsSession = some _
      from rfl) 0).2 _ (List.mem_of_getElem? (show _[0]? = some _ from rfl)) rfl⟩

/-! ## What a rejected Submit leaves -/

/-- Two forms that differ at most in an error that is not presented. -/
structure SameForm (v u : FoodSubmissionView) : Prop where
  eq : u = { v with foodError := u.foodError }
  shown : v.incomplete = true → u = v

theorem SameForm.refl (v : FoodSubmissionView) : SameForm v v := ⟨rfl, fun _ => rfl⟩

/-- Two reactions to an event: the same crash, or the same call and forms that are the
same. -/
inductive SameReaction : Except Crash (FoodSubmissionView × Option Submission) →
    Except Crash (FoodSubmissionView × Option Submission) → Prop
  | error (crash : Crash) : SameReaction (.error crash) (.error crash)
  | ok {w u : FoodSubmissionView} (sub : Option Submission) (same : SameForm w u) :
      SameReaction (.ok (w, sub)) (.ok (u, sub))

theorem SameReaction.refl (r : Except Crash (FoodSubmissionView × Option Submission)) :
    SameReaction r r := by
  rcases r with crash | ⟨w, sub⟩
  · exact .error crash
  · exact .ok sub (SameForm.refl w)

/-- No edit reads or writes the error. -/
theorem editStep_foodError (v : FoodSubmissionView) (e : FormEvent)
    (error : Option FoodFormError) :
    editStep { v with foodError := error } e
      = (editStep v e).map fun w => { w with foodError := error } := by
  rcases e with se | _ | s | s | s | i | _ | s | _ | _ | _
  case location =>
    rw [editStep, editStep]
    rcases searchStep v.location se with _ | l
    · rfl
    · rfl
  case tapBuilding =>
    rw [editStep, editStep]
    unfold FoodSubmissionView.tapBuilding
    rcases v.location.landmark with _ | landmark
    · rfl
    · dsimp only
      split_ifs <;> rfl
  case tapInfo =>
    rw [editStep, editStep]
    unfold FoodSubmissionView.tapInfo
    dsimp only
    split_ifs <;> rfl
  case pickSize =>
    rw [editStep, editStep]
    split_ifs <;> rfl
  case dismissAlert =>
    rw [editStep, editStep]
    dsimp only
    split_ifs <;> rfl
  all_goals rfl

/-- The checks of an unfilled form write the error they present, whatever was there. -/
theorem validate_foodError {v : FoodSubmissionView} (hfilled : ¬ v.Filled)
    (error : Option FoodFormError) :
    ({ v with foodError := error } : FoodSubmissionView).validate = v.validate := by
  unfold FoodSubmissionView.validate
  dsimp only
  split_ifs with hbuilding hroom htype htype hroom htype htype <;> try rfl
  -- none of the checks fails, so the form is filled
  obtain ⟨hloc, hland⟩ := not_or.mp hbuilding
  exact absurd ⟨hloc, hland, hroom, htype⟩ hfilled

/-- So no Submit tells forms apart that differ in an error that is not presented. -/
theorem submit_foodError {v : FoodSubmissionView} (hinc : v.incomplete = false)
    (error : Option FoodFormError) :
    SameReaction v.submit ({ v with foodError := error } : FoodSubmissionView).submit := by
  rcases v.validate_cases with ⟨hfilled, hv⟩ | ⟨hfilled, -⟩
  · have hu : ({ v with foodError := error } : FoodSubmissionView).validate
        = { v with foodError := error } := by
      rcases FoodSubmissionView.validate_cases { v with foodError := error } with
        ⟨-, hu⟩ | ⟨hnot, -⟩
      · exact hu
      · exact absurd hfilled hnot
    unfold FoodSubmissionView.submit FoodSubmissionView.dismiss
    dsimp only
    rw [hv, hu, hinc]
    dsimp only
    -- the call is made of what the two have in common
    rcases v.location.landmark with _ | landmark
    · exact .error _
    · rcases foodSizeOptions[v.sizeIndex]? with _ | quantity
      · exact .error _
      · exact .ok _ ⟨rfl, fun h => absurd h (by simp)⟩
  · unfold FoodSubmissionView.submit
    dsimp only
    rw [validate_foodError hfilled error]
    exact SameReaction.refl _

/-- Forms that are the same react in the same way. -/
theorem SameForm.handle {v u : FoodSubmissionView} (h : SameForm v u) (e : FormEvent) :
    Option.Rel SameReaction (FoodSubmission.handle v e) (FoodSubmission.handle u e) := by
  rcases hinc : v.incomplete with _ | _
  · rw [h.eq]
    by_cases he : e = .submit
    · subst he
      unfold FoodSubmission.handle
      dsimp only
      split_ifs
      · exact Option.Rel.some (submit_foodError hinc u.foodError)
      · exact Option.Rel.none
    · rw [handle_of_ne_submit v he, handle_of_ne_submit _ he, editStep_foodError v e u.foodError]
      split_ifs
      · rcases hw : editStep v e with _ | w
        · exact Option.Rel.none
        · -- an edit raises no flag, so the error stays unpresented
          have hwinc : w.incomplete = false := by
            rcases (editStep_frame hw).2.2.1 with hkeep | hlow
            · rw [hkeep, hinc]
            · exact hlow
          exact Option.Rel.some (.ok none ⟨rfl, fun h => absurd h (by simp [hwinc])⟩)
      · exact Option.Rel.none
  · -- an error that is presented is the same, so the forms are equal
    rw [h.shown hinc]
    rcases FoodSubmission.handle v e with _ | r
    · exact Option.Rel.none
    · exact Option.Rel.some (SameReaction.refl r)

/-- Two forms that are the same and react in the same way. -/
def Alike (v u : FoodSubmissionView) : Prop :=
  SameForm v u ∧ ∀ e, Option.Rel SameReaction (handle v e) (handle u e)

theorem SameForm.alike {v u : FoodSubmissionView} (h : SameForm v u) : Alike v u :=
  ⟨h, h.handle⟩

/-- Alike forms stay alike. -/
theorem Alike.step {v u : FoodSubmissionView} (h : Alike v u) (e : FormEvent) :
    Option.Rel Alike (formStep v e) (formStep u e) := by
  have hreact := h.2 e
  unfold formStep
  generalize handle v e = r, handle u e = r' at hreact ⊢
  cases hreact with
  | none => exact Option.Rel.none
  | some hr =>
      cases hr with
      | error crash => exact Option.Rel.none
      | ok sub hsame => exact Option.Rel.some hsame.alike

/-- A tap and the dismissal of its alert have left the form `v` as it was: what it
shows is the same, and if no alert was shown before the tap then nothing that
happens to it later tells the two apart. -/
structure LeavesForm (v u : FoodSubmissionView) : Prop where
  loc : u.loc = v.loc
  roomNum : u.roomNum = v.roomNum
  foodType : u.foodType = v.foodType
  sizeIndex : u.sizeIndex = v.sizeIndex
  search : u.location.search = v.location.search
  landmark : u.location.landmark = v.location.landmark
  infoText : u.infoText = v.infoText
  showSubmission : u.showSubmission = v.showSubmission
  later : v.incomplete = false → ∀ fs, Option.Rel Alike (run formStep v fs) (run formStep u fs)

/-- What a rejected Submit and the dismissal of its alert do to a form. -/
theorem rejected_eq {v u : FoodSubmissionView}
    (h : run formStep v [.submit, .dismissAlert] = some u) :
    u = { v with
      incomplete := false
      foodError := u.foodError
      infoText := if v.infoText = v.placeholderText then "" else v.infoText } := by
  rw [run_cons, Option.bind_eq_some_iff] at h
  obtain ⟨w, hw, hdismiss⟩ := h
  obtain ⟨u', hu', hrun⟩ := Option.bind_eq_some_iff.mp hdismiss
  obtain rfl : u' = u := Option.some.inj hrun
  obtain ⟨-, hedit | ⟨-, sub, hsub⟩⟩ := formStep_cases hw
  · exact absurd (editStep_cases hedit) (by rintro ⟨⟩)
  · obtain ⟨hwshow, hlower | ⟨hno, -⟩⟩ := formStep_cases hu'
    · -- the form is still shown, so the checks have left the flag raised
      have hup : v.validate.incomplete = true := by
        obtain ⟨-, -, ⟨hup, -⟩ | ⟨landmark, quantity, -, -, -, hclosed, -⟩⟩ :=
          FoodSubmissionView.submit_cases hsub
        · exact hup
        · rw [hclosed] at hwshow
          exact absurd hwshow (by simp)
      rw [FoodSubmissionView.submit_of_incomplete hup] at hsub
      obtain ⟨rfl, -⟩ := Prod.mk.inj (Except.ok.inj hsub)
      obtain ⟨⟩ := editStep_cases hlower
      rcases v.validate_cases with ⟨-, hv⟩ | ⟨-, error, -, hv⟩
      · rw [hv]
      · rw [hv]
    · exact absurd hno (by simp)

/-- **A rejected Submit leaves the form as the user left it exactly where its info text
is not the placeholder.** The placeholder is taken away although nothing is stored. -/
theorem rejected_leaves_form_iff {es : List FormEvent} {v u : FoodSubmissionView}
    (hv : run formStep {} es = some v) (h : run formStep v [.submit, .dismissAlert] = some u) :
    LeavesForm v u ↔ v.infoText ≠ placeholder := by
  have hu := rejected_eq h
  have hplaceholder := run_placeholderText hv
  constructor
  · intro hleaves hinfo
    have hempty : u.infoText = "" := by
      rw [hu]
      exact if_pos (hinfo.trans hplaceholder.symm)
    rw [hleaves.infoText, hinfo] at hempty
    exact absurd hempty (by decide)
  · intro hinfo
    rw [if_neg (by rw [hplaceholder]; exact hinfo)] at hu
    constructor
    case later =>
      intro hinc
      have hsame : SameForm v u := by
        constructor
        · rw [hu, hinc]
        · intro h
          rw [hinc] at h
          exact absurd h (by simp)
      exact run_related (fun _ _ e h => Alike.step h e) hsame.alike
    all_goals rw [hu]

/-- In a new form the editor is empty after a rejected Submit. -/
theorem rejected_not_leaves_form :
    ¬ ∀ (es : List FormEvent) (v u : FoodSubmissionView), run formStep {} es = some v →
      v.incomplete = false → ¬ v.Filled → run formStep v [.submit, .dismissAlert] = some u →
      LeavesForm v u := by
  intro hall
  have hleaves := hall [] {} _ rfl rfl (by unfold FoodSubmissionView.Filled; decide) rfl
  exact absurd hleaves.infoText (by decide)

/-- The law for a form in which only a room and some info were entered. -/
theorem rejected_leaves_form_iff_room :
    ∃ v u, run formStep {} [.editRoom "1101", .tapInfo, .editInfo "10 boxes"] = some v
      ∧ run formStep v [.submit, .dismissAlert] = some u
      ∧ (LeavesForm v u ↔ v.infoText ≠ placeholder) :=
  ⟨_, _, rfl, rfl, rejected_leaves_form_iff
    (show run formStep {} [.editRoom "1101", .tapInfo, .editInfo "10 boxes"] = some _ from rfl) rfl⟩

end FreeFood.FormSubmit
