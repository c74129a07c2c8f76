import DateCourse.Editor.AddCourseItinerary
import DateCourse.Editor.SaveChain

/-!
# Editing sessions

The tab bar presents a new editor each time its middle tab is selected; the itinerary behind all
of them is `CurrentItinerary.shared`. A session ends when the user cancels or when the completion
of a save dismisses the editor. The callbacks of a save keep running after its editor is gone, so
the machine `Session.step` keeps every editor of the process.

## Main definitions

* `AddCourseMapViewController.Statics` and `undoButtonPressed`: the map screen;
* `Session.Editor`, `Session.State`, `Session.step`: the machine;
* `Session.Inv`: what holds in every state.

## Main results

* `undoButtonPressed_eq_none`: undo traps, since nothing ever sets the static `pathway`;
* `Session.step_cases`: what one event can do, once and for all;
* `Session.step_inv`: every event keeps the invariant.
-/

namespace DateCourse

variable {Image Data : Type}

/-- The static fields of `AddCourseMapViewController`; `locations` is never used. -/
structure AddCourseMapViewController.Statics where
  pathway : Option GMSPath
  lines : List GMSPolyline
  markers : List GMSMarker
deriving DecidableEq

namespace AddCourseMapViewController

/-- The static fields when the process starts. -/
def Statics.init : Statics := { pathway := none, lines := [], markers := [] }

/-- `undoButtonPressed` on the itinerary: the last location is removed, if there is one. -/
def deleteLastLocation (itinerary : CurrentItinerary Image) : Option (CurrentItinerary Image) :=
  if itinerary.isEmpty then some itinerary else itinerary.removeLocation

/-- `undoButtonPressed` on the static arrays; an empty one has no last entry to remove. -/
def deleteLastPath (statics : Statics) (pathway : GMSPath) : Option Statics :=
  if pathway.length > 0 then
    if statics.lines = [] ∨ statics.markers = [] then none
    else some { pathway := some pathway.dropLast, lines := statics.lines.dropLast,
                markers := statics.markers.dropLast }
  else some statics

/-- `undoButtonPressed`. -/
def undoButtonPressed (statics : Statics) (itinerary : CurrentItinerary Image) :
    Option (CurrentItinerary Image × Statics) := do
  let itinerary ← deleteLastLocation itinerary
  -- `(pathway?.count())!`
  let pathway ← statics.pathway
  let statics ← deleteLastPath statics pathway
  return (itinerary, statics)

/-- Without a static path, undo traps. -/
theorem undoButtonPressed_eq_none {statics : Statics} (h : statics.pathway = none)
    (itinerary : CurrentItinerary Image) : undoButtonPressed statics itinerary = none := by
  rw [undoButtonPressed, h]
  exact Option.bind_fun_none _

end AddCourseMapViewController

namespace Session

open AddCourseItineraryViewController AddCourseMapViewController Save SavingController

/-- An editor, from the moment it is presented. -/
structure Editor (Image Data : Type) where
  controller : AddCourseItineraryViewController
  saving : SavingController Image Data
  /-- *Ghost*: the places that the itinerary held when the editor was presented. -/
  foundPlaces : List GMSPlace
  /-- *Ghost*: the markers that the itinerary held when the editor was presented. -/
  foundMarkers : List GMSMarker

/-- The process, as far as editing goes. -/
structure State (Image Data : Type) where
  itinerary : CurrentItinerary Image
  statics : Statics
  currentUser : Option String
  /-- The editors presented so far. -/
  editors : List (Editor Image Data)
  /-- The editor on screen, if any. -/
  onScreen : Option ℕ
  /-- The identity of the next map to be created. -/
  nextMap : ℕ

/-- A new process. -/
def State.launch (currentUser : Option String) : State Image Data :=
  { itinerary := .init, statics := .init, currentUser, editors := [], onScreen := none,
    nextMap := 0 }

/-- The events of the process. -/
inductive Event (Image : Type)
  /-- The middle tab is selected. -/
  | shouldSelect
  /-- A location fix reaches the editor on screen. -/
  | didUpdateLocations (location : CLLocationCoordinate2D)
  /-- The place picker returns to the editor on screen. -/
  | didPick (place : GMSPlace)
  | cancelButtonTapped
  /-- The "Yes" button of an editor, or a callback of one of its saves. -/
  | controller (k : ℕ) (e : ControllerEvent)
  /-- The undo button of the map screen, which lies over the editor on screen. -/
  | undoButtonPressed
  /-- A cell records a photo. -/
  | addPhotoToLocation (index : ℕ) (image : Image)
  | authStateChanged (user : Option String)

namespace State

variable (s : State Image Data)

/-- The editor that the tab bar creates. -/
def newEditor : Editor Image Data :=
  { controller := .init, saving := .fresh, foundPlaces := s.itinerary.places,
    foundMarkers := s.itinerary.markers }

/-- `tabBarController(_:shouldSelect:)` presents a new editor. -/
def present : State Image Data :=
  { s with editors := s.editors ++ [s.newEditor], onScreen := some s.editors.length }

/-- The editor on screen and its number. -/
def current : Option (ℕ × Editor Image Data) :=
  s.onScreen.bind fun k => s.editors[k]?.map fun editor => (k, editor)

/-- A location fix for editor `k`. -/
def setUpMap (k : ℕ) (editor : Editor Image Data) (location : CLLocationCoordinate2D) :
    State Image Data :=
  let result := AddCourseItineraryViewController.setUpMap s.nextMap location s.itinerary
    editor.controller
  { s with itinerary := result.1, editors := s.editors.set k { editor with controller := result.2 },
           nextMap := s.nextMap + 1 }

/-- A pick for editor `k`. -/
def didPick (k : ℕ) (editor : Editor Image Data) (place : GMSPlace) : State Image Data :=
  let result := AddCourseItineraryViewController.didPick place s.itinerary editor.controller
  let saving := { editor.saving with picked := editor.saving.picked ++ [place] }
  { s with itinerary := result.1,
           editors := s.editors.set k { editor with controller := result.2, saving } }

/-- The controller of editor `k` has handled an event; `dismissed` if its completion was called. -/
def controllerDone (k : ℕ) (editor : Editor Image Data) (saving : SavingController Image Data)
    (dismissed : Bool) : State Image Data :=
  { s with editors := s.editors.set k { editor with saving },
           onScreen := if dismissed then s.onScreen.filter (· ≠ k) else s.onScreen }

end State

/-- The event calls the completion of a save, which dismisses the editor. -/
def dismisses (saving : SavingController Image Data) : ControllerEvent → Bool
  | .updateChildValues a false =>
    match saving.stageOf a with
    | some (.updateChildValues _) => true
    | _ => false
  | _ => false

/-- One event of the process. -/
def step (services : Services Image Data) : PartialStep (State Image Data) (Event Image)
  | s, .shouldSelect =>
    -- the tab bar is covered while an editor is on screen
    match s.onScreen with
    | none => some s.present
    | some _ => some s
  | s, .didUpdateLocations location =>
    match s.current with
    | some (k, editor) => some (s.setUpMap k editor location)
    | none => some s
  | s, .didPick place =>
    match s.current with
    | some (k, editor) => some (s.didPick k editor place)
    | none => some s
  | s, .cancelButtonTapped => some { s with onScreen := none }
  | s, .controller k e =>
    match s.editors[k]? with
    | some editor =>
      -- only the editor on screen has a "Yes" button to tap
      if e = .yes ∧ s.onScreen ≠ some k then some s
      else
        (controllerStep services s.itinerary s.currentUser editor.saving e).map
          fun saving => s.controllerDone k editor saving (dismisses editor.saving e)
    | none => some s
  | s, .undoButtonPressed =>
    match s.onScreen with
    | some _ =>
      (undoButtonPressed s.statics s.itinerary).map
        fun result => { s with itinerary := result.1, statics := result.2 }
    | none => some s
  | s, .addPhotoToLocation index image =>
    some { s with itinerary := (s.itinerary.addPhotoToLocation index image).getD s.itinerary }
  | s, .authStateChanged user => some { s with currentUser := user }

/-! ## The invariant -/

/-- What holds in every state of the process. -/
structure Inv (services : Services Image Data) (s : State Image Data) : Prop where
  /-- Nothing ever sets the static path of the map screen. -/
  pathway : s.statics.pathway = none
  markers : s.itinerary.markers.length = s.itinerary.places.length
  saving : ∀ (k : ℕ) (editor : Editor Image Data), s.editors[k]? = some editor →
    ControllerInv services s.itinerary.places editor.saving ∧ Settled editor.saving
  /-- Only the last editor can be on screen. -/
  onScreen : ∀ k, s.onScreen = some k → k + 1 = s.editors.length

theorem inv_launch (services : Services Image Data) (user : Option String) :
    Inv services (State.launch user) :=
  ⟨rfl, rfl, by simp [State.launch], by simp [State.launch]⟩

section Step

variable {services : Services Image Data} {s s' : State Image Data}

theorem State.current_eq_some_iff {k : ℕ} {editor : Editor Image Data} :
    s.current = some (k, editor) ↔ s.onScreen = some k ∧ s.editors[k]? = some editor := by
  unfold State.current
  cases s.onScreen with
  | none => simp
  | some k' =>
    simp only [Option.bind_some, Option.map_eq_some_iff, Prod.mk.injEq, Option.some.injEq]
    constructor
    · rintro ⟨editor', heditor, rfl, rfl⟩
      exact ⟨rfl, heditor⟩
    · rintro ⟨rfl, heditor⟩
      exact ⟨editor, heditor, rfl, rfl⟩

/-- Undo ends the run. -/
theorem step_undoButtonPressed (h : Inv services s) {k : ℕ} (hk : s.onScreen = some k) :
    step services s .undoButtonPressed = none := by
  simp only [step, hk]
  rw [undoButtonPressed_eq_none h.pathway, Option.map_none]

theorem places_didPick (place : GMSPlace) (itinerary : CurrentItinerary Image)
    (controller : AddCourseItineraryViewController) :
    (AddCourseItineraryViewController.didPick place itinerary controller).1.places =
      itinerary.places ++ [place] := by
  rw [← itinerary.places_addLocation place]
  rfl

/-- A fact about every editor survives the change of one, if it holds of the changed editor. -/
theorem forall_set {Q : ℕ → Editor Image Data → Prop} {editors : List (Editor Image Data)} {k : ℕ}
    {editor : Editor Image Data} (hk : Q k editor)
    (h : ∀ j editor', j ≠ k → editors[j]? = some editor' → Q j editor') :
    ∀ j editor', (editors.set k editor)[j]? = some editor' → Q j editor' := by
  intro j editor' hj
  rw [List.getElem?_set] at hj
  by_cases hkj : k = j
  · rw [if_pos hkj] at hj
    split at hj
    · exact Option.some.inj hj ▸ hkj ▸ hk
    · cases hj
  · rw [if_neg hkj] at hj
    exact h j editor' (Ne.symm hkj) hj

/-- When one editor changes, a fact about all of them changes as it does for this one. -/
theorem forall_set_iff {Q : Editor Image Data → Prop} {C : Prop}
    {editors : List (Editor Image Data)} {k : ℕ} {old editor : Editor Image Data}
    (hk : editors[k]? = some old) (hQ : Q editor ↔ Q old ∧ C) :
    (∀ (j : ℕ) editor', (editors.set k editor)[j]? = some editor' → Q editor') ↔
      (∀ (j : ℕ) editor', editors[j]? = some editor' → Q editor') ∧ C := by
  have hlt := (List.getElem?_eq_some_iff.mp hk).1
  constructor
  · intro h
    have hnew := hQ.mp (h k editor (List.getElem?_set_self hlt))
    refine ⟨fun j editor' hj => ?_, hnew.2⟩
    by_cases hjk : k = j
    · subst hjk
      rw [← Option.some.inj (hk.symm.trans hj)]
      exact hnew.1
    · exact h j editor' (by rw [List.getElem?_set_ne hjk, hj])
  · rintro ⟨h, hC⟩
    exact forall_set (hQ.mpr ⟨h k old hk, hC⟩) fun j editor' _ hj => h j editor' hj

/-- A fact about every editor holds when a new one is presented, if it holds of the new one. -/
theorem forall_append {Q : ℕ → Editor Image Data → Prop} {editors : List (Editor Image Data)}
    {editor : Editor Image Data} (hnew : Q editors.length editor)
    (h : ∀ j editor', editors[j]? = some editor' → Q j editor') :
    ∀ j editor', (editors ++ [editor])[j]? = some editor' → Q j editor' := by
  intro j editor' hj
  -- an old editor, the new one, or out of range
  rcases Nat.lt_trichotomy j editors.length with hlt | rfl | hgt
  · rw [List.getElem?_append_left hlt] at hj
    exact h j editor' hj
  · rw [List.getElem?_concat_length] at hj
    exact Option.some.inj hj ▸ hnew
  · rw [List.getElem?_eq_none (by rw [List.length_append, List.length_singleton]; omega)] at hj
    cases hj

theorem inv_present (h : Inv services s) : Inv services s.present := by
  refine ⟨h.pathway, h.markers, ?_, fun k hk => ?_⟩
  · exact forall_append (inv_fresh services s.itinerary s.currentUser) h.saving
  · rw [State.present, Option.some.injEq] at hk
    simp [State.present, hk]

theorem inv_setUpMap (h : Inv services s) {k : ℕ} {editor : Editor Image Data}
    (hk : s.editors[k]? = some editor) (location : CLLocationCoordinate2D) :
    Inv services (s.setUpMap k editor location) := by
  refine ⟨h.pathway, h.markers, ?_, fun j hj => ?_⟩
  · exact forall_set (h.saving k editor hk) fun j editor' _ hj => h.saving j editor' hj
  · rw [State.setUpMap, List.length_set]
    exact h.onScreen j hj

theorem inv_didPick (h : Inv services s) {k : ℕ} {editor : Editor Image Data}
    (hk : s.editors[k]? = some editor) (place : GMSPlace) :
    Inv services (s.didPick k editor place) := by
  obtain ⟨hinv, hsettled⟩ := h.saving k editor hk
  have hprefix : s.itinerary.places <+: s.itinerary.places ++ [place] := List.prefix_append _ _
  refine ⟨h.pathway, ?_, ?_, fun j hj => ?_⟩
  -- a pick adds one place and one marker
  · have hmarkers := h.markers
    rw [State.didPick, places_didPick, didPick_markers]
    simpa using hmarkers
  · rw [State.didPick, places_didPick]
    refine forall_set ⟨inv_picked (hinv.mono hprefix), hsettled⟩ fun j editor' _ hj => ?_
    obtain ⟨hinv', hsettled'⟩ := h.saving j editor' hj
    exact ⟨hinv'.mono hprefix, hsettled'⟩
  · rw [State.didPick, List.length_set]
    exact h.onScreen j hj

/-- A save can only dismiss its own editor. -/
theorem onScreen_of_controllerDone {k j : ℕ} {editor : Editor Image Data}
    {saving : SavingController Image Data} {dismissed : Bool}
    (hj : (s.controllerDone k editor saving dismissed).onScreen = some j) :
    s.onScreen = some j := by
  simp only [State.controllerDone] at hj
  split at hj
  · exact (Option.filter_eq_some_iff.mp hj).1
  · exact hj

theorem inv_controllerDone (h : Inv services s) {k : ℕ} {editor : Editor Image Data}
    {e : ControllerEvent} {saving : SavingController Image Data} (dismissed : Bool)
    (hstep : ControllerStep services s.itinerary s.currentUser editor.saving e saving) :
    Inv services (s.controllerDone k editor saving dismissed) := by
  refine ⟨h.pathway, h.markers, ?_, fun j hj => ?_⟩
  · exact forall_set ⟨hstep.inv, hstep.settled⟩ fun j editor' _ hj => h.saving j editor' hj
  · rw [State.controllerDone, List.length_set]
    exact h.onScreen j (onScreen_of_controllerDone hj)

/-- A callback of editor `k` is handled, or the event has no effect. -/
theorem step_controller (h : Inv services s) {k : ℕ} {editor : Editor Image Data}
    (hk : s.editors[k]? = some editor) (e : ControllerEvent) :
    (e = .yes ∧ s.onScreen ≠ some k ∧ step services s (.controller k e) = some s) ∨
    ((e = .yes → s.onScreen = some k) ∧ ∃ saving,
      ControllerStep services s.itinerary s.currentUser editor.saving e saving ∧
        controllerStep services s.itinerary s.currentUser editor.saving e = some saving ∧
        step services s (.controller k e) =
          some (s.controllerDone k editor saving (dismisses editor.saving e))) := by
  obtain ⟨hinv, hsettled⟩ := h.saving k editor hk
  by_cases hyes : e = .yes ∧ s.onScreen ≠ some k
  · refine Or.inl ⟨hyes.1, hyes.2, ?_⟩
    simp only [step, hk]
    rw [if_pos hyes]
  · obtain ⟨saving, hsaving, hstep⟩ := controllerStep_spec s.currentUser hinv hsettled e
    refine Or.inr ⟨fun he => by_contra fun hne => hyes ⟨he, hne⟩, saving, hstep, hsaving, ?_⟩
    simp only [step, hk]
    rw [if_neg hyes, hsaving, Option.map_some]

/-- The event has no effect: the screen that it needs is not there. -/
def Ignored (s : State Image Data) : Event Image → Prop
  | .shouldSelect => s.onScreen ≠ none
  | .didUpdateLocations _ | .didPick _ => s.current = none
  | .controller k e => s.editors[k]? = none ∨ (e = .yes ∧ s.onScreen ≠ some k)
  | .undoButtonPressed => s.onScreen = none
  | .cancelButtonTapped | .addPhotoToLocation .. | .authStateChanged _ => False

/-- What one event of the process can do. -/
inductive StepCase (services : Services Image Data) (s : State Image Data) :
    Event Image → State Image Data → Prop
  | ignored {e : Event Image} (he : Ignored s e) : StepCase services s e s
  | present (hscreen : s.onScreen = none) : StepCase services s .shouldSelect s.present
  | setUpMap {k : ℕ} {editor : Editor Image Data} (location : CLLocationCoordinate2D)
      (hscreen : s.onScreen = some k) (hk : s.editors[k]? = some editor) :
      StepCase services s (.didUpdateLocations location) (s.setUpMap k editor location)
  | didPick {k : ℕ} {editor : Editor Image Data} (place : GMSPlace)
      (hscreen : s.onScreen = some k) (hk : s.editors[k]? = some editor) :
      StepCase services s (.didPick place) (s.didPick k editor place)
  | cancel : StepCase services s .cancelButtonTapped { s with onScreen := none }
  | controller {k : ℕ} {editor : Editor Image Data} {e : ControllerEvent}
      {saving : SavingController Image Data} (hk : s.editors[k]? = some editor)
      (hyes : e = .yes → s.onScreen = some k)
      (hsaving : ControllerStep services s.itinerary s.currentUser editor.saving e saving)
      (hdo : controllerStep services s.itinerary s.currentUser editor.saving e = some saving) :
      StepCase services s (.controller k e)
        (s.controllerDone k editor saving (dismisses editor.saving e))
  | addPhotoToLocation (index : ℕ) (image : Image) :
      StepCase services s (.addPhotoToLocation index image)
        { s with itinerary := (s.itinerary.addPhotoToLocation index image).getD s.itinerary }
  | authStateChanged (user : Option String) :
      StepCase services s (.authStateChanged user) { s with currentUser := user }

/-- Every event that does not trap is one of these cases; undo on an editor traps. -/
theorem step_cases (h : Inv services s) {e : Event Image} (hs' : step services s e = some s') :
    StepCase services s e s' := by
  cases e with
  | shouldSelect =>
    simp only [step] at hs'
    split at hs'
    next hscreen => exact Option.some.inj hs' ▸ .present hscreen
    next k hscreen => exact Option.some.inj hs' ▸ .ignored (by simp [Ignored, hscreen])
  | didUpdateLocations location =>
    simp only [step] at hs'
    split at hs'
    next k editor hcurrent =>
      obtain ⟨hscreen, hk⟩ := State.current_eq_some_iff.mp hcurrent
      exact Option.some.inj hs' ▸ .setUpMap location hscreen hk
    next hnone => exact Option.some.inj hs' ▸ .ignored hnone
  | didPick place =>
    simp only [step] at hs'
    split at hs'
    next k editor hcurrent =>
      obtain ⟨hscreen, hk⟩ := State.current_eq_some_iff.mp hcurrent
      exact Option.some.inj hs' ▸ .didPick place hscreen hk
    next hnone => exact Option.some.inj hs' ▸ .ignored hnone
  | cancelButtonTapped => exact Option.some.inj hs' ▸ .cancel
  | controller k e =>
    cases hk : s.editors[k]? with
    | none =>
      simp only [step, hk, Option.some.injEq] at hs'
      exact hs' ▸ .ignored (Or.inl hk)
    | some editor =>
      rcases step_controller h hk e with ⟨he, hscreen, hstep⟩ | ⟨hyes, saving, hsaving, hdo, hstep⟩
      · exact Option.some.inj (hstep.symm.trans hs') ▸ .ignored (Or.inr ⟨he, hscreen⟩)
      · exact Option.some.inj (hstep.symm.trans hs') ▸ .controller hk hyes hsaving hdo
  | undoButtonPressed =>
    cases hscreen : s.onScreen with
    | none =>
      simp only [step, hscreen, Option.some.injEq] at hs'
      exact hs' ▸ .ignored hscreen
    | some k =>
      rw [step_undoButtonPressed h hscreen] at hs'
      cases hs'
  | addPhotoToLocation index image => exact Option.some.inj hs' ▸ .addPhotoToLocation index image
  | authStateChanged user => exact Option.some.inj hs' ▸ .authStateChanged user

/-- Every event keeps the invariant. -/
theorem step_inv (h : Inv services s) {e : Event Image} (hs' : step services s e = some s') :
    Inv services s' := by
  cases step_cases h hs' with
  | ignored => exact h
  | present => exact inv_present h
  | setUpMap location hscreen hk => exact inv_setUpMap h hk location
  | didPick place hscreen hk => exact inv_didPick h hk place
  | cancel => exact ⟨h.pathway, h.markers, h.saving, fun k hk => by cases hk⟩
  | controller hk hyes hsaving => exact inv_controllerDone h _ hsaving
  | addPhotoToLocation index image =>
    -- a photo changes neither the places nor the markers
    have hplaces := s.itinerary.places_addPhotoToLocation index image
    refine ⟨h.pathway, ?_, ?_, h.onScreen⟩
    · rw [hplaces, ← h.markers]
      unfold CurrentItinerary.addPhotoToLocation
      split <;> rfl
    · rw [hplaces]
      exact h.saving
  | authStateChanged => exact ⟨h.pathway, h.markers, h.saving, h.onScreen⟩

end Step

end Session

end DateCourse
