/-
The ADDITIONAL INFO editor of the food form, used as a text box: characters are added
to the text it holds, and the rest of the form is filled in as it may be.

The editor is a box with a placeholder, in the sense of `Lib.Placeholder`: a tap on it
is the box's tap, and a Submit, rejected or not, is its `normalize`. So what an
accepted Submit passes on is what was typed exactly after clean operations.

The placeholder's characters are all ASCII and none is the canonical form of another,
so the comparisons with it are comparisons of characters.
-/
import FreeFood.Lib.Placeholder
import FreeFood.FoodSubmissionView

set_option autoImplicit false

namespace FreeFood.InfoEditor

open Transition Placeholder FreeFood.FoodSubmission FreeFood.LocationSearch

/-- What happens to the form: a character is added to the text of the editor, or
anything that is not an edit of that text. -/
inductive EditorEvent where
  | type (c : Char)
  | form (e : FormEvent) (noEdit : ∀ s, e ≠ .editInfo s)

def editorStep (v : FoodSubmissionView) : EditorEvent → Option FoodSubmissionView
  | .type c => formStep v (.editInfo (v.infoText.push c))
  | .form e _ => formStep v e

/-- What of it the editor notices. -/
def EditorEvent.op : EditorEvent → Option (Op Char)
  | .type c => some (.type c)
  | .form .tapInfo _ => some .tap
  | .form .submit _ => some .normalize
  | .form _ _ => none

/-- What the user has typed. -/
def typedText (es : List EditorEvent) : String :=
  String.ofList (typed (es.filterMap EditorEvent.op))

/-! ## The editor is a box with a placeholder -/

/-- Of the edits, only those of the info text and taps on the editor write it. -/
theorem editStep_infoText {v w : FoodSubmissionView} {e : FormEvent} (h : editStep v e = some w)
    (hedit : ∀ s, e ≠ .editInfo s) (htap : e ≠ .tapInfo) : w.infoText = v.infoText := by
  cases editStep_cases h with
  | tapInfo s => exact absurd rfl htap
  | editInfo s => exact absurd rfl (hedit s)
  | _ => rfl

/-- Submit takes the placeholder away, whether it is rejected or not. -/
theorem submit_infoText {v w : FoodSubmissionView} {sub : Option Submission}
    (h : v.submit = .ok (w, sub)) :
    w.infoText = if v.infoText = v.placeholderText then "" else v.infoText := by
  obtain ⟨-, -, -, -, -, hinfo, hplaceholder, -⟩ := v.validate_frame
  rw [← hinfo, ← hplaceholder]
  rcases FoodSubmissionView.dismiss_cases h with ⟨-, rfl, -⟩ | ⟨landmark, quantity, -, -, -, rfl, -⟩
  · rfl
  · rfl

/-- A text without the placeholder, as characters. -/
theorem toList_normal (s : String) :
    (if s = placeholder then "" else s).toList = normal placeholder.toList s.toList := by
  unfold normal
  by_cases hs : s = placeholder
  · rw [if_pos hs, if_pos (congrArg String.toList hs)]
    rfl
  · rw [if_neg hs, if_neg fun h => hs (String.toList_inj.mp h)]

/-- A tap on the editor is the box's tap. -/
theorem tapInfo_text {v : FoodSubmissionView} (hv : v.placeholderText = placeholder) :
    v.tapInfo.infoText.toList = apply placeholder.toList v.infoText.toList .tap := by
  have hp : v.infoText.toList = placeholder.toList ↔ v.infoText = placeholder :=
    String.toList_inj
  have hnil : v.infoText.toList = [] ↔ v.infoText = "" := by
    rw [← String.toList_inj, String.toList_empty]
  unfold FoodSubmissionView.tapInfo
  rw [apply, hv]
  by_cases hplaceholder : v.infoText = placeholder
  · rw [if_pos hplaceholder, if_pos (hp.mpr hplaceholder)]
    rfl
  · rw [if_neg hplaceholder, if_neg (mt hp.mp hplaceholder)]
    by_cases hempty : v.infoText = ""
    · rw [if_pos hempty, if_pos (hnil.mpr hempty)]
    · rw [if_neg hempty, if_neg (mt hnil.mp hempty)]

/-- One event of the form is one operation on the box, or none. -/
theorem editorStep_text {v w : FoodSubmissionView} {e : EditorEvent}
    (hv : v.placeholderText = placeholder) (h : editorStep v e = some w) :
    w.placeholderText = placeholder
      ∧ w.infoText.toList = e.op.toList.foldl (apply placeholder.toList) v.infoText.toList := by
  rcases e with c | ⟨e, hno⟩
  · refine ⟨(formStep_placeholderText h).trans hv, ?_⟩
    obtain ⟨-, hedit | ⟨hsubmit, -⟩⟩ := formStep_cases h
    · obtain rfl := Option.some.inj hedit
      exact String.toList_push c
    · exact absurd hsubmit (by simp)
  · refine ⟨(formStep_placeholderText h).trans hv, ?_⟩
    obtain ⟨-, hedit | ⟨rfl, sub, hsub⟩⟩ := formStep_cases h
    · by_cases htap : e = .tapInfo
      · subst htap
        obtain rfl := Option.some.inj hedit
        exact tapInfo_text hv
      · rw [editStep_infoText hedit hno htap]
        have hop : (EditorEvent.form e hno).op = none := by
          rcases e
          case tapInfo => exact absurd rfl htap
          case submit => exact absurd (editStep_cases hedit) (by rintro ⟨⟩)
          all_goals rfl
        rw [hop]
        rfl
    · rw [submit_infoText hsub, hv]
      exact toList_normal v.infoText

/-- So a run of the form is a run of the box. -/
theorem run_text {v : FoodSubmissionView} {es : List EditorEvent}
    (h : run editorStep {} es = some v) : v.placeholderText = placeholder
      ∧ v.infoText.toList = text placeholder.toList (es.filterMap EditorEvent.op) := by
  refine run_induction (motive := fun es v => v.placeholderText = placeholder
    ∧ v.infoText.toList = text placeholder.toList (es.filterMap EditorEvent.op)) ?_ ?_ es v h
  · exact ⟨rfl, rfl⟩
  · rintro es a e b - ⟨hplaceholder, htext⟩ hstep
    obtain ⟨hkeep, hb⟩ := editorStep_text hplaceholder hstep
    refine ⟨hkeep, ?_⟩
    have hop : [e].filterMap EditorEvent.op = e.op.toList := by
      rcases hop : e.op with _ | op
      · exact List.filterMap_cons_none hop
      · exact List.filterMap_cons_some hop
    rw [hb, htext, List.filterMap_append, hop, text, text, List.foldl_append]

/-- **The editor is a plain text box exactly as long as nothing is typed to a box that is
not ready for it.** An accepted Submit passes on the text typed, or `""` if that is the
placeholder, exactly in those runs. -/
theorem stored_info_iff {es : List EditorEvent} {v w : FoodSubmissionView} {sub : Submission}
    (h : run editorStep {} es = some v) (hsub : handle v .submit = some (.ok (w, some sub))) :
    sub.additionalInfo = (if typedText es = placeholder then "" else typedText es)
      ↔ Clean placeholder.toList (es.filterMap EditorEvent.op) := by
  obtain ⟨hplaceholder, htext⟩ := run_text h
  obtain ⟨-, hsubmit, -⟩ := handle_submit_cases hsub
  have hinfo : sub.additionalInfo = if v.infoText = placeholder then "" else v.infoText := by
    obtain ⟨-, -, ⟨-, -, hnone⟩ | ⟨landmark, quantity, -, -, -, -, hsome⟩⟩ :=
      FoodSubmissionView.submit_cases hsubmit
    · exact absurd hnone (by simp)
    · obtain rfl := Option.some.inj hsome
      rw [← hplaceholder]
      exact submit_infoText hsubmit
  rw [hinfo, ← String.toList_inj, toList_normal, toList_normal, htext, typedText,
    String.toList_ofList]
  have hsome : placeholder.toList ≠ [] := by
    rw [Ne, String.toList_eq_nil_iff]
    decide
  exact normal_text_iff_clean hsome _

/-- The rest of the form is filled in. -/
def fillsRest : List EditorEvent :=
  [.form (.location (.editSearch "umd")) nofun, .form (.location .commit) nofun,
    .form (.location (.answer 0 (.response [stamp]))) nofun,
    .form (.location (.select 0)) nofun, .form .tapBuilding nofun,
    .form (.editRoom "1101") nofun, .form (.editFoodType "Subway") nofun]

/-- The editor is tapped, and tapped again while it is empty, before anything is typed. -/
def typesBehind : List EditorEvent :=
  [.form .tapInfo nofun, .form .tapInfo nofun, .type 'x'] ++ fillsRest

/-- What is stored there begins with the placeholder. -/
theorem typesBehind_stores_placeholder :
    ¬ ∀ (es : List EditorEvent) (v w : FoodSubmissionView) (sub : Submission),
      (∀ pre c post, es = pre ++ .type c :: post → Op.tap ∈ pre.filterMap EditorEvent.op) →
      run editorStep {} es = some v → handle v .submit = some (.ok (w, some sub)) →
      sub.additionalInfo = if typedText es = placeholder then "" else typedText es := by
  intro hall
  have htaps : ∀ pre c post, typesBehind = pre ++ .type c :: post →
      Op.tap ∈ pre.filterMap EditorEvent.op := by
    intro pre c post hes
    rcases pre with _ | ⟨e, pre⟩
    · exact absurd (List.cons.inj hes).1 (by simp)
    · -- the first event is a tap
      obtain rfl := (List.cons.inj hes).1
      exact List.mem_cons_self
  exact absurd (hall typesBehind _ _ _ htaps rfl rfl) (by decide)

/-- Typed after one tap, with a Submit that is rejected in between. -/
def typesOnce : List EditorEvent :=
  [.form .tapInfo nofun, .type '1', .form .submit nofun, .form .dismissAlert nofun, .type '0']
    ++ fillsRest

/-- The law at that run. -/
theorem stored_info_iff_typesOnce :
    ∃ v w sub, run editorStep {} typesOnce = some v
      ∧ handle v .submit = some (.ok (w, some sub))
      ∧ (sub.additionalInfo = (if typedText typesOnce = placeholder then "" else typedText typesOnce)
          ↔ Clean placeholder.toList (typesOnce.filterMap EditorEvent.op)) :=
  ⟨_, _, _, rfl, rfl, stored_info_iff (show run editorStep {} typesOnce = some _ from rfl) rfl⟩

end FreeFood.InfoEditor
