/-
`Landmark.id` as the identity of a landmark: the key of its row in the list of results,
and the `landmarkID` of the events stored from it.

The property is computed, so what is read as one identity is a new `UUID()` at each
read: one for each row whenever the list is rendered, and one for each event whenever
the callback of `storeFoodSubmission` runs. No value comes twice, so no two reads agree,
and the law of one identity holds only where there is one read (`oneIdentity_iff`).
-/
import FreeFood.FoodSubmissionView

set_option autoImplicit false

namespace FreeFood.LandmarkIds

open Transition FreeFood.Platform FreeFood.Landmarks FreeFood.FoodEventModel
open FreeFood.LocationSearch FreeFood.FoodSubmission

/-- A food form with the reads of `Landmark.id`. -/
structure LandmarkRows where
  form : FoodSubmissionView := {}
  /-- the keys of the rows, as the list was last rendered -/
  rendering : Option (List UUID) := none
  /-- the key of the row that was selected last -/
  selected : Option UUID := none
  /-- the calls of `storeFoodSubmission`, with the key of the row selected for each -/
  calls : List (Submission × Option UUID) := []
  /-- what `UUID()` has returned -/
  used : List UUID := []

/-- What happens to it. `fresh` and `stamp` have what `UUID()` returns at the reads. -/
inductive RowEvent where
  | form (e : FormEvent)
  /-- the body of `LocationSearchListView` is evaluated -/
  | render (fresh : List UUID)
  /-- the callback of a call runs for a username found -/
  | store (call : ℕ) (UID username : String) (stamp : Stamp)
  | reopen

namespace LandmarkRows

def landmarks (s : LandmarkRows) : List Landmark := s.form.location.landmarks

/-- `ForEach(landmarks, id: \.id)`: a key for each row. -/
def keys (s : LandmarkRows) (fresh : List UUID) : List UUID := s.landmarks.zipWith Landmark.id fresh

/-- The form has handled an event, with a call of `storeFoodSubmission` if there is one. -/
def handled (s : LandmarkRows) (form : FoodSubmissionView) (sub : Option Submission) :
    FormEvent → Option LandmarkRows
  -- a response makes a new list, which is not rendered yet
  | .location (.answer _ (.response _)) => some { s with form, rendering := none }
  | .location (.select row) => do
      let key ← (← s.rendering)[row]?
      return { s with form, selected := some key }
  | _ => some { s with form, calls := s.calls ++ (sub.map fun sub => (sub, s.selected)).toList }

end LandmarkRows

def rowStep (s : LandmarkRows) : RowEvent → Option LandmarkRows
  | .form e =>
      match handle s.form e with
      | some (.ok (form, sub)) => s.handled form sub e
      | _ => none
  | .render fresh =>
      if s.form.location.listItemSelected = false ∧ fresh.length = s.landmarks.length
          ∧ fresh.Nodup ∧ fresh.all (fun u => u ∉ s.used) then
        some { s with rendering := some (s.keys fresh), used := s.used ++ fresh }
      else none
  | .store call _ _ stamp =>
      if call < s.calls.length ∧ stamp.landmarkID ∉ s.used then
        some { s with used := s.used ++ [stamp.landmarkID] }
      else none
  | .reopen => some { s with form := {}, rendering := none, selected := none }

/-! ## Reads of the identity -/

/-- The landmarks shown have the identity they had: their keys are distinct and those of
the last rendering of the list, and an event carries the key of the row selected for it. -/
def SameIdentity (s : LandmarkRows) : RowEvent → LandmarkRows → Prop
  | .render _, s' => ∃ keys, s'.rendering = some keys ∧ keys.Nodup
      ∧ ∀ old, s.rendering = some old → keys = old
  | .store call UID username stamp, _ => ∀ sub key, s.calls[call]? = some (sub, key) →
      some (sub.event UID username stamp).landmarkID = key
  | _, _ => True

/-- The identity is read for the first time: an empty list or one not rendered yet is
rendered, and no event is stored. -/
def FirstRead (s : LandmarkRows) : RowEvent → Prop
  | .render _ => s.rendering = none ∨ s.landmarks = []
  | .store _ _ _ _ => False
  | _ => True

/-- The rows are those of the list, and every key there is has been returned by `UUID()`. -/
structure Spent (s : LandmarkRows) : Prop where
  length : ∀ keys, s.rendering = some keys → keys.length = s.landmarks.length
  rendering : ∀ keys, s.rendering = some keys → keys ⊆ s.used
  selected : ∀ key, s.selected = some key → key ∈ s.used
  calls : ∀ call ∈ s.calls, ∀ key, call.2 = some key → key ∈ s.used

theorem spent_init : Spent {} := by
  constructor
  all_goals simp

/-- The keys of the rows are the values that `UUID()` returned for them. -/
theorem keys_eq {s : LandmarkRows} {fresh : List UUID} (h : fresh.length = s.landmarks.length) :
    s.keys fresh = fresh := by
  have hzip : ∀ (l : List Landmark) (us : List UUID), us.length = l.length →
      l.zipWith Landmark.id us = us := by
    intro l
    induction l with
    | nil =>
        intro us hlen
        rw [List.eq_nil_of_length_eq_zero hlen]
        rfl
    | cons landmark l ih =>
        intro us hlen
        rcases us with _ | ⟨u, us⟩
        · rfl
        · rw [List.zipWith_cons_cons, ih us (Nat.succ.inj hlen)]
          rfl
  exact hzip s.landmarks fresh h

/-- Only a response changes the list. -/
theorem handle_landmarks {v w : FoodSubmissionView} {e : FormEvent} {sub : Option Submission}
    (h : handle v e = some (.ok (w, sub)))
    (he : ∀ number mapItems, e ≠ .location (.answer number (.response mapItems))) :
    w.location.landmarks = v.location.landmarks := by
  obtain ⟨-, ⟨u, hedit, hr⟩ | ⟨rfl, hsubmit⟩⟩ := handle_cases h
  · obtain ⟨rfl, -⟩ := Prod.mk.inj (Except.ok.inj hr)
    cases editStep_cases hedit with
    | location step =>
        rcases searchStep_cases step with
          ⟨s, rfl, rfl⟩ | ⟨rfl, rfl⟩ | ⟨number, ans, rfl, -, rfl⟩ | ⟨row, landmark, rfl, -, -, rfl⟩
        · rfl
        · rfl
        · rcases ans with mapItems | _
          · exact absurd rfl (he number mapItems)
          · rfl
        · rfl
    | _ => rfl
  · rw [(FoodSubmissionView.submit_cases hsubmit).2.1]

/-- What an event of the form does to the keys: a response forgets those of the list,
a selection takes one of them, and a call takes the one selected. -/
theorem rowStep_form_cases {s s' : LandmarkRows} {e : FormEvent}
    (h : rowStep s (.form e) = some s') :
    s'.used = s.used
      ∧ (s'.rendering = none ∨ (s'.rendering = s.rendering ∧ s'.landmarks = s.landmarks))
      ∧ (s'.selected = s.selected
        ∨ ∃ keys key, s.rendering = some keys ∧ key ∈ keys ∧ s'.selected = some key)
      ∧ ∀ call ∈ s'.calls, call ∈ s.calls ∨ call.2 = s.selected := by
  rw [rowStep] at h
  split at h
  · rename_i form sub hhandle
    unfold LandmarkRows.handled at h
    split at h
    · obtain rfl := Option.some.inj h
      exact ⟨rfl, Or.inl rfl, Or.inl rfl, fun call hcall => Or.inl hcall⟩
    · rename_i row
      have hlist := handle_landmarks hhandle (by simp)
      simp only [Option.bind_eq_bind, Option.bind_eq_some_iff] at h
      obtain ⟨keys, hkeys, key, hkey, hs⟩ := h
      obtain rfl := Option.some.inj hs
      exact ⟨rfl, Or.inr ⟨rfl, hlist⟩,
        Or.inr ⟨keys, key, hkeys, List.mem_of_getElem? hkey, rfl⟩, fun call hcall => Or.inl hcall⟩
    · rename_i hresponse hselect
      have hlist := handle_landmarks hhandle hresponse
      obtain rfl := Option.some.inj h
      refine ⟨rfl, Or.inr ⟨rfl, hlist⟩, Or.inl rfl, fun call hcall => ?_⟩
      rw [List.mem_append, Option.mem_toList, Option.map_eq_some_iff] at hcall
      rcases hcall with hcall | ⟨args, -, hcall⟩
      · exact Or.inl hcall
      · rw [← hcall]
        exact Or.inr rfl
  · exact absurd h (by simp)

/-- `UUID()` has returned more values. -/
theorem Spent.more {s : LandmarkRows} (hs : Spent s) (us : List UUID) :
    Spent { s with used := s.used ++ us } where
  length := hs.length
  rendering keys hkeys := List.subset_append_of_subset_left _ (hs.rendering keys hkeys)
  selected key hkey := List.mem_append_left _ (hs.selected key hkey)
  calls call hcall key hkey := List.mem_append_left _ (hs.calls call hcall key hkey)

/-- The form makes no new key. -/
theorem Spent.form {s s' : LandmarkRows} {e : FormEvent} (hs : Spent s)
    (h : rowStep s (.form e) = some s') : Spent s' := by
  obtain ⟨hused, hrendering, hselected, hcalls⟩ := rowStep_form_cases h
  constructor
  case length =>
    intro keys hkeys
    rcases hrendering with hnone | ⟨hsame, hlist⟩
    · exact absurd (hnone.symm.trans hkeys) (by simp)
    · rw [hlist]
      exact hs.length keys (hsame.symm.trans hkeys)
  case rendering =>
    intro keys hkeys
    rw [hused]
    rcases hrendering with hnone | ⟨hsame, -⟩
    · exact absurd (hnone.symm.trans hkeys) (by simp)
    · exact hs.rendering keys (hsame.symm.trans hkeys)
  case selected =>
    intro key hkey
    rw [hused]
    rcases hselected with hsame | ⟨keys, key', hkeys, hmem, hnew⟩
    · exact hs.selected key (hsame.symm.trans hkey)
    · obtain rfl : key' = key := Option.some.inj (hnew.symm.trans hkey)
      exact hs.rendering keys hkeys hmem
  case calls =>
    intro call hcall key hkey
    rw [hused]
    rcases hcalls call hcall with hold | hnew
    · exact hs.calls call hold key hkey
    · exact hs.selected key (hnew.symm.trans hkey)

/-- What a rendering does: the new keys are distinct, and none was returned before. -/
theorem rowStep_render {s s' : LandmarkRows} {fresh : List UUID}
    (h : rowStep s (.render fresh) = some s') :
    fresh.length = s.landmarks.length ∧ fresh.Nodup ∧ (∀ u ∈ fresh, u ∉ s.used)
      ∧ s' = { s with rendering := some fresh, used := s.used ++ fresh } := by
  rw [rowStep, Option.ite_none_right_eq_some] at h
  obtain ⟨⟨-, hlength, hnodup, hfresh⟩, hs'⟩ := h
  rw [keys_eq hlength] at hs'
  refine ⟨hlength, hnodup, fun u hu => ?_, (Option.some.inj hs').symm⟩
  exact of_decide_eq_true (List.all_eq_true.mp hfresh u hu)

/-- Keys stay among the values returned. -/
theorem Spent.step {s s' : LandmarkRows} {e : RowEvent} (hs : Spent s)
    (h : rowStep s e = some s') : Spent s' := by
  rcases e with e | fresh | ⟨call, UID, username, stamp⟩ | _
  · exact hs.form h
  · obtain ⟨hlength, -, -, rfl⟩ := rowStep_render h
    have hmore := hs.more fresh
    constructor
    case length =>
      intro keys hkeys
      obtain rfl := Option.some.inj hkeys
      exact hlength
    case rendering =>
      intro keys hkeys
      obtain rfl := Option.some.inj hkeys
      exact List.subset_append_right s.used _
    case selected => exact hmore.selected
    case calls => exact hmore.calls
  · rw [rowStep, Option.ite_none_right_eq_some] at h
    obtain rfl := Option.some.inj h.2
    exact hs.more [stamp.landmarkID]
  · obtain rfl := Option.some.inj h
    constructor
    case calls => exact hs.calls
    all_goals
      intro x hx
      exact absurd hx (by simp)

/-- A rendering shows the identity there was exactly if it is the first of the list. -/
theorem render_sameIdentity_iff {s s' : LandmarkRows} {fresh : List UUID} (hs : Spent s)
    (h : rowStep s (.render fresh) = some s') :
    SameIdentity s (.render fresh) s' ↔ s.rendering = none ∨ s.landmarks = [] := by
  obtain ⟨hlength, hnodup, hfresh, rfl⟩ := rowStep_render h
  constructor
  · rintro ⟨keys, hkeys, -, hold⟩
    obtain rfl := Option.some.inj hkeys
    rcases hrendering : s.rendering with _ | old
    · exact Or.inl rfl
    · right
      have hsame : fresh = old := hold old hrendering
      rcases fresh with _ | ⟨u, us⟩
      · exact List.eq_nil_of_length_eq_zero hlength.symm
      · -- a key of the old rendering has been returned, and those of the new one have not
        have hmem : u ∈ old := by
          rw [← hsame]
          exact List.mem_cons_self
        exact absurd (hs.rendering old hrendering hmem) (hfresh u List.mem_cons_self)
  · intro hfirst
    refine ⟨fresh, rfl, hnodup, ?_⟩
    intro old hold
    rcases hfirst with hnone | hempty
    · exact absurd (hnone.symm.trans hold) (by simp)
    · have hlengthold := hs.length old hold
      rw [hempty, List.length_nil] at hlength hlengthold
      rw [List.eq_nil_of_length_eq_zero hlength, List.eq_nil_of_length_eq_zero hlengthold]

/-- A stored event has a value that no key has. -/
theorem store_not_sameIdentity {s s' : LandmarkRows} {call : ℕ} {UID username : String}
    {stamp : Stamp} (hs : Spent s) (h : rowStep s (.store call UID username stamp) = some s') :
    ¬ SameIdentity s (.store call UID username stamp) s' := by
  rw [rowStep, Option.ite_none_right_eq_some] at h
  obtain ⟨⟨hcall, hfresh⟩, -⟩ := h
  intro hsame
  have hget : s.calls[call]? = some s.calls[call] := List.getElem?_eq_getElem hcall
  have hkey := hsame s.calls[call].1 s.calls[call].2 hget
  exact hfresh (hs.calls s.calls[call] (List.getElem_mem hcall) _ hkey.symm)

/-- One step: the identity is the one there was exactly if it is read for the first time. -/
theorem sameIdentity_iff {s s' : LandmarkRows} {e : RowEvent} (hs : Spent s)
    (h : rowStep s e = some s') : SameIdentity s e s' ↔ FirstRead s e := by
  rcases e with e | fresh | ⟨call, UID, username, stamp⟩ | _
  · exact iff_of_true trivial trivial
  · exact render_sameIdentity_iff hs h
  · exact iff_of_false (store_not_sameIdentity hs h) id
  · exact iff_of_true trivial trivial

/-- **A landmark has one identity exactly as long as it is read once.** In every run of
the form, the keys of the rows are distinct and those of the last rendering of the list,
and the stored events carry the key selected, if and only if no list but an empty one is
rendered twice and no event is stored. -/
theorem oneIdentity_iff {es : List RowEvent} {s : LandmarkRows} (h : run rowStep {} es = some s) :
    (∀ a e b, Takes rowStep {} es a e b → SameIdentity a e b)
      ↔ AllSteps rowStep FirstRead {} es :=
  forall_takes_iff_allSteps (G := Spent) (Q := SameIdentity) (C := FirstRead)
    (fun _ _ _ hs hstep => sameIdentity_iff hs hstep)
    (fun _ _ _ hs hstep _ => Spent.step hs hstep) spent_init h

/-- A result is shown, is shown again, and is selected and submitted. -/
def showsTwice : List RowEvent :=
  [.form (.location (.editSearch "umd")), .form (.location .commit),
    .form (.location (.answer 0 (.response [stamp]))), .render [1], .render [2],
    .form (.location (.select 0)), .form .tapBuilding, .form (.editRoom "1101"),
    .form (.editFoodType "Subway"), .form .submit, .store 0 "ada" "ada" ⟨"Jq3x", 5, 3⟩]

/-- Its row has another key the second time, and the event carries neither. -/
theorem showsTwice_not_sameIdentity :
    (¬ ∀ (es : List RowEvent) (s : LandmarkRows), run rowStep {} es = some s →
      ∀ a fresh b, Takes rowStep {} es a (.render fresh) b → SameIdentity a (.render fresh) b)
      ∧ ¬ ∀ (es : List RowEvent) (s : LandmarkRows), run rowStep {} es = some s →
        ∀ a call UID username stamp b, Takes rowStep {} es a (.store call UID username stamp) b →
          SameIdentity a (.store call UID username stamp) b := by
  constructor
  · intro hall
    obtain ⟨keys, hkeys, -, hold⟩ := hall showsTwice _ rfl _ [2] _
      ⟨showsTwice.take 4, ⟨showsTwice.drop 5, rfl⟩, rfl, rfl⟩
    obtain rfl := Option.some.inj hkeys
    exact absurd (hold [1] rfl) (by decide)
  · intro hall
    have hsame := hall showsTwice _ rfl _ 0 "ada" "ada" ⟨"Jq3x", 5, 3⟩ _
      ⟨showsTwice.take 10, ⟨[], rfl⟩, rfl, rfl⟩
    exact absurd (hsame _ _ rfl) (by decide)

/-- The law at that run. -/
theorem oneIdentity_iff_showsTwice :
    (∀ a e b, Takes rowStep {} showsTwice a e b → SameIdentity a e b)
      ↔ AllSteps rowStep FirstRead {} showsTwice :=
  oneIdentity_iff (show run rowStep {} showsTwice = some _ from rfl)

end FreeFood.LandmarkIds
