/-
`Views/Find/Submit Eat/LocationSearchView.swift`: the location search of the food
form.

A search is sent when the search text is committed and is answered later. The
searches sent are numbered, so that an answer says which one it answers; the view
does not know the numbers. Its completion handler overwrites the list of landmarks
with every response and does nothing with an error, so the list is always that of
the last response delivered (`landmarks_eq_lastResponse`).
-/
import FreeFood.Landmark
import FreeFood.Lib.Transition
import Mathlib.Data.List.Perm.Basic

set_option autoImplicit false

namespace FreeFood.LocationSearch

open Transition FreeFood.Platform FreeFood.Landmarks

/-- An `MKLocalSearch` that was started, by its number. -/
structure Search where
  number : ℕ
  naturalLanguageQuery : String
deriving DecidableEq

/-- How an `MKLocalSearch` is answered. -/
inductive SearchAnswer where
  | response (mapItems : List MapItem)
  | error
deriving DecidableEq

/-- The state of a `LocationSearchView`: its two bindings, its own `@State`, and the
searches it has started. -/
structure LocationSearchView where
  search : String := ""
  landmark : Option Landmark := none
  landmarks : List Landmark := []
  listItemSelected : Bool := false
  outstanding : List Search := []
  /-- how many searches were started -/
  started : ℕ := 0
deriving DecidableEq

namespace LocationSearchView

/-- `getNearByLandmarks`, up to the start of the search. -/
def getNearByLandmarks (v : LocationSearchView) : LocationSearchView :=
  { v with
    outstanding := v.outstanding ++ [⟨v.started, v.search⟩]
    started := v.started + 1 }

/-- The landmarks made of a response. -/
def offered (mapItems : List MapItem) : List Landmark :=
  (mapItems.filter fun item => item.placemark.locality == some "College Park").map
    fun item => ⟨item.placemark⟩

/-- The completion handler of the search. -/
def searchAnswered (v : LocationSearchView) : SearchAnswer → LocationSearchView
  | .response mapItems => { v with landmarks := offered mapItems }
  | .error => v

/-- The action of a row of `LocationSearchListView`. -/
def select (v : LocationSearchView) (landmark : Landmark) : LocationSearchView :=
  { v with
    search := landmark.title
    landmark := some landmark
    listItemSelected := !v.listItemSelected }

end LocationSearchView

/-- What happens to a location search. -/
inductive SearchEvent where
  | editSearch (s : String)
  | commit
  | answer (number : ℕ) (a : SearchAnswer)
  | select (row : ℕ)
deriving DecidableEq

/-- One event of a location search. A search is answered while it is outstanding,
and a row is tapped while the list is shown and has it. -/
def searchStep (v : LocationSearchView) : SearchEvent → Option LocationSearchView
  | .editSearch s => some { v with search := s }
  | .commit => some { v.getNearByLandmarks with listItemSelected := false }
  | .answer number a =>
      if v.outstanding.any (fun s => s.number == number) then
        some { v.searchAnswered a with
          outstanding := v.outstanding.filter (fun s => !(s.number == number)) }
      else none
  | .select row =>
      -- the list is hidden from a selection to the next search
      if v.listItemSelected then none else (v.landmarks[row]?).map v.select

/-- The response an event delivers. -/
def SearchEvent.response? : SearchEvent → Option (List MapItem)
  | .answer _ (.response mapItems) => some mapItems
  | _ => none

/-- The last response a run delivers. -/
def lastResponse (es : List SearchEvent) : Option (List MapItem) :=
  (es.filterMap SearchEvent.response?).getLast?

/-- What one event does to a location search. -/
theorem searchStep_cases {v w : LocationSearchView} {e : SearchEvent}
    (h : searchStep v e = some w) :
    (∃ s, e = .editSearch s ∧ w = { v with search := s })
      ∨ (e = .commit ∧ w = { v.getNearByLandmarks with listItemSelected := false })
      ∨ (∃ number a, e = .answer number a ∧ (∃ s ∈ v.outstanding, s.number = number)
          ∧ w = { v.searchAnswered a with
              outstanding := v.outstanding.filter (fun s => !(s.number == number)) })
      ∨ ∃ row landmark, e = .select row ∧ v.listItemSelected = false
          ∧ v.landmarks[row]? = some landmark ∧ w = v.select landmark := by
  rcases e with s | _ | ⟨number, a⟩ | row
  · exact Or.inl ⟨s, rfl, (Option.some.inj h).symm⟩
  · exact Or.inr (Or.inl ⟨rfl, (Option.some.inj h).symm⟩)
  · rw [searchStep, Option.ite_none_right_eq_some, List.any_eq_true] at h
    obtain ⟨⟨s, hs, hnumber⟩, hw⟩ := h
    exact Or.inr (Or.inr (Or.inl
      ⟨number, a, rfl, ⟨s, hs, by simpa using hnumber⟩, (Option.some.inj hw).symm⟩))
  · rw [searchStep] at h
    rcases hsel : v.listItemSelected with _ | _
    · rw [hsel, if_neg (by decide), Option.map_eq_some_iff] at h
      obtain ⟨landmark, hrow, rfl⟩ := h
      exact Or.inr (Or.inr (Or.inr ⟨row, landmark, rfl, rfl, hrow, rfl⟩))
    · rw [hsel, if_pos rfl] at h
      exact absurd h (by simp)

theorem lastResponse_concat (es : List SearchEvent) (e : SearchEvent) :
    lastResponse (es ++ [e]) = (e.response?).or (lastResponse es) := by
  rw [lastResponse, List.filterMap_append]
  rcases hresp : e.response? with _ | items
  · simp [hresp, lastResponse]
  · simp [hresp]

theorem lastResponse_append_of_none {es fs : List SearchEvent}
    (h : ∀ e ∈ fs, e.response? = none) : lastResponse (es ++ fs) = lastResponse es := by
  have hnil : fs.filterMap SearchEvent.response? = [] := List.filterMap_eq_nil_iff.mpr h
  rw [lastResponse, List.filterMap_append, hnil, List.append_nil, lastResponse]

/-- The list is that of the last response delivered, at every moment. -/
theorem landmarks_eq_lastResponse {es : List SearchEvent} {v : LocationSearchView}
    (h : run searchStep {} es = some v) :
    v.landmarks = ((lastResponse es).map LocationSearchView.offered).getD [] := by
  refine run_induction
    (motive := fun es v => v.landmarks = ((lastResponse es).map LocationSearchView.offered).getD [])
    rfl (fun es a e b _ ha hab => ?_) es v h
  rw [lastResponse_concat]
  rcases searchStep_cases hab with
    ⟨s, rfl, rfl⟩ | ⟨rfl, rfl⟩ | ⟨number, ans, rfl, -, rfl⟩ | ⟨row, landmark, rfl, -, -, rfl⟩
  · exact ha
  · exact ha
  · -- a response takes the place of the list, an error leaves it
    rcases ans with mapItems | _
    · rfl
    · exact ha
  · exact ha

/-- **The landmarks offered are those of the last response delivered**, whichever
search it answers, and none before the first. They are the latest search's where
its response is the last one delivered. -/
theorem landmarks_of_last_delivered {es : List SearchEvent} {v : LocationSearchView}
    (h : run searchStep {} es = some v) :
    v.landmarks = (((lastResponse es).getD []).filter fun item =>
        item.placemark.locality == some "College Park").map (fun item => ⟨item.placemark⟩)
      ∧ ∀ pre post number mapItems,
          es = pre ++ .answer number (.response mapItems) :: post → v.started = number + 1 →
          (∀ e ∈ post, e.response? = none) →
          v.landmarks = (mapItems.filter fun item =>
            item.placemark.locality == some "College Park").map fun item => ⟨item.placemark⟩ := by
  refine ⟨?_, fun pre post number mapItems hes _ hpost => ?_⟩
  · rw [landmarks_eq_lastResponse h]
    cases lastResponse es with
    | none => rfl
    | some mapItems => rfl
  · have hlast : lastResponse es = some mapItems := by
      rw [hes, ← List.singleton_append, ← List.append_assoc, lastResponse_append_of_none hpost,
        lastResponse_concat]
      rfl
    rw [landmarks_eq_lastResponse h, hlast]
    rfl

/-- A place in College Park. -/
def stamp : MapItem where
  placemark :=
    { name := some "Adele H. Stamp Student Union"
      title := some "3972 Campus Dr, College Park, MD 20742, United States"
      locality := some "College Park"
      coordinate := ⟨0x40437E4B17E4B17E#64, 0xC0533C71C71C71C7#64⟩ }

/-- Two searches, the second answered first. -/
def overtaken : List SearchEvent :=
  [.editSearch "stamp", .commit, .editSearch "nowhere", .commit,
    .answer 1 (.response []), .answer 0 (.response [stamp])]

/-- The list left is that of the first search. -/
theorem overtaken_offers_first :
    ¬ ∀ (es : List SearchEvent) (v : LocationSearchView),
      run searchStep {} es = some v → v.outstanding = [] →
        ∀ number a, v.started = number + 1 → SearchEvent.answer number a ∈ es →
          v.landmarks = match a with
            | .response mapItems => (mapItems.filter fun item =>
                item.placemark.locality == some "College Park").map fun item => ⟨item.placemark⟩
            | .error => [] := by
  intro hall
  -- the second search found nothing in College Park, so the list should be empty
  have hlatest := hall overtaken _ rfl rfl 1 (.response []) rfl (by decide)
  exact absurd hlatest (by decide)

/-- The law at that run. -/
theorem landmarks_of_last_delivered_overtaken :
    ∃ v, run searchStep {} overtaken = some v
      ∧ v.landmarks = (((lastResponse overtaken).getD []).filter fun item =>
          item.placemark.locality == some "College Park").map (fun item => ⟨item.placemark⟩) :=
  ⟨_, rfl, (landmarks_of_last_delivered (show run searchStep {} overtaken = some _ from rfl)).1⟩

end FreeFood.LocationSearch
