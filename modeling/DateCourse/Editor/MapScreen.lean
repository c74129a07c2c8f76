import DateCourse.Editor.Route
import DateCourse.Editor.Session

/-!
# The full map

A press on the editor's map pushes `AddCourseMapViewController`, which shows the same markers on a
map of its own and offers an undo button; its Cancel button pops it. Two things go wrong there. The
undo button reads the static `pathway` of the class, which nothing assigns, so it traps. The loop
of `setUpMap` extends and draws `CurrentItinerary.pathway`, which nothing assigns either, so the
lines it draws are empty; and it moves the markers to its own map, from which nothing takes them
back.

## Main definitions

* `AddCourseMapViewController.setUpMap`: the loop of the map screen;
* `MapScreen.step`: the editor and the map screen over it, as a machine;
* `MapScreen.UndoInvertsPick`, `MapScreen.VisitFaithful`: undo and a visit as they should be.

## Main results

* `setUpMap_eq`: what the loop does on an itinerary without a path;
* `not_undoInvertsPick`: undo takes back a pick in no reachable state;
* `markers_visit`: after a visit the markers are on the map of the visit;
* `visits_faithful_iff`: visits are as they should be only where there is nothing to show.
-/

namespace DateCourse

variable {Image : Type}

/-- The assignment to the `map` property of a marker: it leaves the map it was on. -/
def GMSMarker.setMap (marker : GMSMarker) (mapView : ℕ) : GMSMarker :=
  { marker with map := some mapView }

namespace AddCourseMapViewController

/-- One round of the loop of `setUpMap`, for the marker at index `i`. The polylines it creates are
held by the map only. -/
def addMarker (mapView : ℕ) :
    CurrentItinerary Image × List GMSPolyline → ℕ →
      Option (CurrentItinerary Image × List GMSPolyline)
  | (itinerary, lines), i => do
    let markers := itinerary.markers.modify i (·.setMap mapView)
    -- `pathway?.add`: without a path, `getLocation` is not even called
    let pathway ← match itinerary.pathway with
      | none => some none
      | some pathway =>
        (itinerary.getLocation i).map fun location => some (pathway ++ [location.getCoordinates])
    let line := { GMSPolyline.ofPath pathway with map := some mapView }
    return ({ itinerary with markers, pathway }, lines ++ [line])

/-- The loop of `setUpMap` over the markers of the itinerary, where `mapView` is the identity of
the new map. -/
def setUpMap (mapView : ℕ) (itinerary : CurrentItinerary Image) :
    Option (CurrentItinerary Image × List GMSPolyline) :=
  (List.range itinerary.markers.length).foldlM (addMarker mapView) (itinerary, [])

/-- The map that `setUpMap` creates for a device at `location`. -/
def newMapView (mapView : ℕ) (location : CLLocationCoordinate2D) : GMSMapView :=
  { id := mapView, camera := { target := location, zoom := 15 } }

/-- The line that a round draws when the itinerary has no path. -/
def emptyLine (mapView : ℕ) : GMSPolyline :=
  { GMSPolyline.ofPath none with map := some mapView }

/-- Changing the first entry that has not been changed yet. -/
private theorem modify_map_take_append_drop {α : Type*} (f : α → α) {xs : List α} {n : ℕ}
    (hn : n < xs.length) :
    ((xs.take n).map f ++ xs.drop n).modify n f = (xs.take (n + 1)).map f ++ xs.drop (n + 1) := by
  have hlength : ((xs.take n).map f).length = n := by
    rw [List.length_map, List.length_take_of_le (by omega)]
  calc ((xs.take n).map f ++ xs.drop n).modify n f
      = (xs.take n).map f ++ (xs.drop n).modify 0 f := by
        have htail := List.modifyTailIdx_add (List.modifyHead f) 0 ((xs.take n).map f) (xs.drop n)
        rwa [hlength] at htail
    _ = (xs.take (n + 1)).map f ++ xs.drop (n + 1) := by
        rw [List.drop_eq_getElem_cons hn, List.take_succ_eq_append_getElem hn, List.map_append,
          List.append_assoc]
        rfl

section Loop

variable {itinerary : CurrentItinerary Image} (mapView : ℕ)

/-- Without a path, a round never asks for a location. -/
theorem addMarker_eq (hpathway : itinerary.pathway = none) (lines : List GMSPolyline) (i : ℕ) :
    addMarker mapView (itinerary, lines) i =
      some ({ itinerary with markers := itinerary.markers.modify i (·.setMap mapView) },
        lines ++ [emptyLine mapView]) := by
  obtain ⟨locations, pathway, itineraryLines, markers, map⟩ := itinerary
  obtain rfl : pathway = none := hpathway
  rfl

/-- Without a path, `n` rounds attach the first `n` markers and draw `n` empty lines. -/
theorem foldlM_addMarker (hpathway : itinerary.pathway = none) (n : ℕ)
    (hn : n ≤ itinerary.markers.length) :
    (List.range n).foldlM (addMarker mapView) (itinerary, []) =
      some ({ itinerary with markers :=
                (itinerary.markers.take n).map (·.setMap mapView) ++ itinerary.markers.drop n },
        List.replicate n (emptyLine mapView)) := by
  induction n with
  | zero => simp
  | succ n ih =>
    rw [List.range_succ, List.foldlM_append, ih (by omega), Option.bind_eq_bind, Option.bind_some,
      List.foldlM_cons, addMarker_eq mapView (by exact hpathway)]
    -- the next round changes the first marker that is left
    simp only [modify_map_take_append_drop (GMSMarker.setMap · mapView) hn,
      List.replicate_succ']
    rfl

/-- Without a path, the loop moves all markers to the new map and joins nothing. -/
theorem setUpMap_eq (hpathway : itinerary.pathway = none) :
    setUpMap mapView itinerary =
      some ({ itinerary with markers := itinerary.markers.map (·.setMap mapView) },
        List.replicate itinerary.markers.length (emptyLine mapView)) := by
  rw [setUpMap, foldlM_addMarker mapView hpathway _ le_rfl, List.take_length, List.drop_length,
    List.append_nil]

end Loop

end AddCourseMapViewController

namespace MapScreen

open AddCourseMapViewController

/-- A pushed `AddCourseMapViewController`: its map, if it has one, and the lines on that map. -/
structure Screen where
  mapView : Option GMSMapView
  lines : List GMSPolyline
deriving DecidableEq

/-- The editor, the static fields of the map screen's class, and the map screen over the editor. -/
structure State (Image : Type) where
  editor : Route.State Image
  statics : Statics
  screen : Option Screen
  /-- *Ghost*: the editor before each pick that has not been undone, the last one first. -/
  picks : List (Route.State Image)

/-- The events of the two screens. -/
inductive Event
  /-- A location fix reaches the editor, on top or not. -/
  | didUpdateLocations (location : CLLocationCoordinate2D)
  /-- The place picker returns to the editor. -/
  | didPick (place : GMSPlace)
  /-- The map screen is pushed. Without a known location of the device there is no map. -/
  | push (location : Option CLLocationCoordinate2D)
  | undoButtonPressed
  /-- The Cancel button of the map screen pops it. -/
  | cancelButtonTapped

/-- A new editor on the itinerary that earlier sessions left behind. -/
def State.start (itinerary : CurrentItinerary Image) (nextMap : ℕ) : State Image :=
  -- nothing assigns the path of the itinerary
  { editor := { itinerary := { itinerary with pathway := none }, controller := .init, nextMap },
    statics := .init, screen := none, picks := [] }

/-- `setManager` of the new map screen. -/
def State.push (s : State Image) : Option CLLocationCoordinate2D → Option (State Image)
  -- an alert instead of a map
  | none => some { s with screen := some { mapView := none, lines := [] } }
  | some location =>
    (setUpMap s.editor.nextMap s.editor.itinerary).map fun p =>
      { s with
        editor := { s.editor with itinerary := p.1, nextMap := s.editor.nextMap + 1 },
        screen := some { mapView := some (newMapView s.editor.nextMap location), lines := p.2 } }

/-- One event. An event of a screen that is not on top has no effect. -/
def step : PartialStep (State Image) Event
  | s, .didUpdateLocations location =>
    some { s with editor := s.editor.didUpdateLocations location, picks := [] }
  | s, .didPick place =>
    match s.screen with
    | none => some { s with editor := s.editor.didPick place, picks := s.editor :: s.picks }
    | some _ => some s
  | s, .push location =>
    match s.screen with
    | none => s.push location
    | some _ => some s
  | s, .undoButtonPressed =>
    match s.screen with
    | none => some s
    | some _ =>
      (undoButtonPressed s.statics s.editor.itinerary).map fun p =>
        { s with editor := { s.editor with itinerary := p.1 }, statics := p.2,
                 picks := s.picks.tail }
  | s, .cancelButtonTapped => some { s with screen := none }

/-! ## Undo -/

/-- The editors show the same locations, markers, lines and route. The map screen may have moved
the markers to its own map. -/
structure SameRoute (a b : Route.State Image) : Prop where
  locations : a.itinerary.locations = b.itinerary.locations
  markers : a.itinerary.markers.map ({ · with map := none }) =
    b.itinerary.markers.map ({ · with map := none })
  lines : a.itinerary.lines = b.itinerary.lines
  route : a.controller.pathway = b.controller.pathway

/-- Undo as it should be, in a state with the map screen on top. -/
structure UndoInvertsPick (s : State Image) : Prop where
  /-- Undo does not trap. -/
  defined : (step s .undoButtonPressed).isSome
  /-- On an empty itinerary it changes nothing. -/
  empty : s.editor.itinerary.isEmpty = true → step s .undoButtonPressed = some s
  /-- After a pick it restores the editor as it was before the pick. -/
  restores : ∀ before rest s', s.picks = before :: rest → step s .undoButtonPressed = some s' →
    SameRoute s'.editor before
  /-- There is still one marker for each location, which the loop of `setUpMap` relies on. -/
  count : ∀ s', step s .undoButtonPressed = some s' →
    s'.editor.itinerary.markers.length = s'.editor.itinerary.LocationCount

/-- `k` picks, a visit to the map screen, and `k` undos. -/
def picksAndUndos (places : List GMSPlace) (location : Option CLLocationCoordinate2D) :
    List Event :=
  places.map .didPick ++ .push location :: List.replicate places.length .undoButtonPressed

/-- There is no location and no marker. -/
def NothingToShow (itinerary : CurrentItinerary Image) : Prop :=
  itinerary.locations = [] ∧ itinerary.markers = []

/-- The state after a push, for an itinerary without a path. -/
def State.pushed (s : State Image) : Option CLLocationCoordinate2D → State Image
  | none => { s with screen := some { mapView := none, lines := [] } }
  | some location =>
    { s with
      editor := { s.editor with
        itinerary := { s.editor.itinerary with
          markers := s.editor.itinerary.markers.map (·.setMap s.editor.nextMap) },
        nextMap := s.editor.nextMap + 1 },
      screen := some
        { mapView := some (newMapView s.editor.nextMap location),
          lines := List.replicate s.editor.itinerary.markers.length
            (emptyLine s.editor.nextMap) } }

theorem isSome_screen_pushed (s : State Image) (location : Option CLLocationCoordinate2D) :
    (s.pushed location).screen.isSome := by
  cases location <;> rfl

/-- Neither the static path nor the path of the itinerary is ever assigned. -/
structure Unassigned (s : State Image) : Prop where
  statics : s.statics.pathway = none
  itinerary : s.editor.itinerary.pathway = none

theorem unassigned_start (itinerary : CurrentItinerary Image) (nextMap : ℕ) :
    Unassigned (State.start itinerary nextMap) := ⟨rfl, rfl⟩

section Step

variable {s s' : State Image}

/-- A push of the map screen: with a location of the device the markers move to its map, and the
lines on it join nothing. -/
theorem push_eq (hunassigned : Unassigned s) (location : Option CLLocationCoordinate2D) :
    s.push location = some (s.pushed location) := by
  cases location with
  | none => rfl
  | some location =>
    rw [State.push, setUpMap_eq _ hunassigned.itinerary, Option.map_some, State.pushed]

theorem unassigned_pushed (hunassigned : Unassigned s) (location : Option CLLocationCoordinate2D) :
    Unassigned (s.pushed location) := by
  cases location with
  | none => exact ⟨hunassigned.statics, hunassigned.itinerary⟩
  | some location => exact ⟨hunassigned.statics, hunassigned.itinerary⟩

theorem step_push (hunassigned : Unassigned s) (hscreen : s.screen = none)
    (location : Option CLLocationCoordinate2D) :
    step s (.push location) = some (s.pushed location) := by
  simp only [step, hscreen]
  exact push_eq hunassigned location

/-- Undo ends the run wherever the map screen is on top. -/
theorem step_undoButtonPressed (hunassigned : Unassigned s) (hscreen : s.screen.isSome) :
    step s .undoButtonPressed = none := by
  obtain ⟨screen, hscreen⟩ := Option.isSome_iff_exists.mp hscreen
  simp only [step, hscreen]
  rw [undoButtonPressed_eq_none hunassigned.statics, Option.map_none]

/-- No event assigns one of the two paths. -/
theorem unassigned_step (hunassigned : Unassigned s) {e : Event} (hs' : step s e = some s') :
    Unassigned s' := by
  cases e with
  | didUpdateLocations location =>
    obtain rfl := Option.some.inj hs'
    exact ⟨hunassigned.statics, hunassigned.itinerary⟩
  | didPick place =>
    cases hscreen : s.screen with
    | none =>
      simp only [step, hscreen, Option.some.injEq] at hs'
      obtain rfl := hs'
      exact ⟨hunassigned.statics, hunassigned.itinerary⟩
    | some screen =>
      simp only [step, hscreen, Option.some.injEq] at hs'
      exact hs' ▸ hunassigned
  | push location =>
    cases hscreen : s.screen with
    | none =>
      rw [step_push hunassigned hscreen, Option.some.injEq] at hs'
      exact hs' ▸ unassigned_pushed hunassigned location
    | some screen =>
      simp only [step, hscreen, Option.some.injEq] at hs'
      exact hs' ▸ hunassigned
  | undoButtonPressed =>
    -- the only undo that does not trap is the one without a map screen
    cases hscreen : s.screen with
    | none =>
      simp only [step, hscreen, Option.some.injEq] at hs'
      exact hs' ▸ hunassigned
    | some screen =>
      rw [step_undoButtonPressed hunassigned (by rw [hscreen]; rfl)] at hs'
      cases hs'
  | cancelButtonTapped =>
    obtain rfl := Option.some.inj hs'
    exact ⟨hunassigned.statics, hunassigned.itinerary⟩

end Step

/-- A pick with the editor on top. -/
theorem step_didPick {s : State Image} (hscreen : s.screen = none) (place : GMSPlace) :
    step s (.didPick place) =
      some { s with editor := s.editor.didPick place, picks := s.editor :: s.picks } := by
  simp only [step, hscreen]

/-- Picks leave the editor on top, and the first of them gives it something to show. -/
theorem exec_didPick : ∀ (places : List GMSPlace) {s : State Image}, Unassigned s →
    s.screen = none → ∃ s', step.exec s (places.map .didPick) = some s' ∧ Unassigned s' ∧
      s'.screen = none ∧ (NothingToShow s'.editor.itinerary ↔
        NothingToShow s.editor.itinerary ∧ places = [])
  | [], s, hunassigned, hscreen => ⟨s, rfl, hunassigned, hscreen, by simp⟩
  | place :: places, s, hunassigned, hscreen => by
    have hpick := step_didPick hscreen place
    obtain ⟨s', hs', hunassigned', hscreen', hnothing⟩ :=
      exec_didPick places (unassigned_step hunassigned hpick) hscreen
    refine ⟨s', ?_, hunassigned', hscreen', ?_⟩
    · rw [List.map_cons, PartialStep.exec_cons, hpick]
      exact hs'
    · rw [hnothing]
      simp [NothingToShow, Route.State.didPick]

/-- In no run, with any itinerary left by earlier sessions, does undo take back a pick: wherever
the map screen is on top it traps, and so does every sequence of picks and as many undos. -/
theorem not_undoInvertsPick (itinerary : CurrentItinerary Image) (nextMap : ℕ) (es : List Event)
    (s : State Image) (hs : step.exec (State.start itinerary nextMap) es = some s) :
    (s.screen.isSome → ¬ UndoInvertsPick s) ∧
    (s.screen = none → ∀ places location, places ≠ [] →
      step.exec s (picksAndUndos places location) = none) := by
  have hunassigned : Unassigned s :=
    PartialStep.exec_keeps (fun _ _ _ h hs' => unassigned_step h hs') es
      (unassigned_start itinerary nextMap) hs
  constructor
  · intro hscreen h
    have hdefined := h.defined
    rw [step_undoButtonPressed hunassigned hscreen] at hdefined
    cases hdefined
  · intro hscreen places location hplaces
    obtain ⟨t, ht, hpicked, htscreen, -⟩ := exec_didPick places hunassigned hscreen
    -- the first of the undos is made in a state with the map screen on top
    have hundo := step_undoButtonPressed (unassigned_pushed hpicked location)
      (isSome_screen_pushed t location)
    obtain ⟨k, hk⟩ := Nat.exists_eq_succ_of_ne_zero (List.length_pos_iff.mpr hplaces).ne'
    rw [picksAndUndos, PartialStep.exec_append, ht, Option.bind_some, PartialStep.exec_cons,
      step_push hpicked htscreen, Option.bind_some, hk, List.replicate_succ,
      PartialStep.exec_cons, hundo, Option.bind_none]

/-- The theorem on the run that only visits the map screen. -/
theorem not_undoInvertsPick_pushed :
    ∃ s, step.exec (State.start (CurrentItinerary.init : CurrentItinerary Unit) 0)
        [.push (some ⟨0, 0⟩)] = some s ∧ s.screen.isSome ∧ ¬ UndoInvertsPick s :=
  ⟨_, rfl, rfl, (not_undoInvertsPick .init 0 [.push (some ⟨0, 0⟩)] _ rfl).1 rfl⟩

/-- Undo on the map of an empty itinerary should change nothing, and traps. -/
theorem undo_of_empty_traps :
    ¬ ∀ (es : List Event) (s : State Unit),
      step.exec (State.start CurrentItinerary.init 0) es = some s → s.screen.isSome →
        UndoInvertsPick s := by
  intro h
  have hdefined := (h [.push (some ⟨0, 0⟩)] _ rfl rfl).defined
  exact absurd hdefined (by decide)

/-! ## Visits -/

/-- A visit: the map screen is pushed and popped. -/
def visit : PartialStep (State Image) (Option CLLocationCoordinate2D) :=
  fun s location => step.exec s [.push location, .cancelButtonTapped]

/-- The map `mapView` with the lines `lines` shows the route of the itinerary. -/
structure ShowsRoute (itinerary : CurrentItinerary Image) (mapView : GMSMapView)
    (lines : List GMSPolyline) : Prop where
  /-- It has one marker for each location, at its coordinate. -/
  markers : (itinerary.markers.filter (·.map = some mapView.id)).map (·.position) =
    Route.coordinates itinerary
  /-- The last line joins the locations; without a line, nothing is joined. -/
  lastLine : (lines.getLast?.map (·.path)).getD [] = Route.coordinates itinerary

/-- A visit as it should be, from a state with the editor on top. -/
def VisitFaithful (s : State Image) (location : Option CLLocationCoordinate2D) : Prop :=
  ∃ during after, step s (.push location) = some during ∧
    step during .cancelButtonTapped = some after ∧
    -- the map, unless there is only an alert
    (∀ screen mapView, during.screen = some screen → screen.mapView = some mapView →
      ShowsRoute during.editor.itinerary mapView screen.lines) ∧
    -- the itinerary, with the map of each of its markers, and the editor are as before
    after.editor.itinerary = s.editor.itinerary ∧
    after.editor.controller = s.editor.controller

section Visit

variable {s : State Image}

/-- A visit without a location of the device shows an alert and changes nothing. -/
theorem visitFaithful_none (hunassigned : Unassigned s) (hscreen : s.screen = none) :
    VisitFaithful s none := by
  refine ⟨_, _, step_push hunassigned hscreen none, rfl, ?_, rfl, rfl⟩
  rintro screen mapView hscreen' hmapView
  obtain rfl := Option.some.inj hscreen'
  cases hmapView

/-- The lines of a visit join nothing. -/
theorem lastLine_replicate (n mapView : ℕ) :
    ((List.replicate n (emptyLine mapView)).getLast?.map (·.path)).getD [] = [] := by
  cases n with
  | zero => rfl
  | succ n =>
    rw [List.getLast?_replicate, if_neg (Nat.succ_ne_zero n), Option.map_some]
    rfl

/-- A visit is the push, and then the screen is gone. -/
theorem visit_eq (hunassigned : Unassigned s) (hscreen : s.screen = none)
    (location : Option CLLocationCoordinate2D) :
    visit s location = some { s.pushed location with screen := none } := by
  rw [visit, PartialStep.exec_cons, step_push hunassigned hscreen]
  rfl

/-- After a visit with a location, every marker is on the map of the visit, which is gone. -/
theorem markers_visit (hunassigned : Unassigned s) (hscreen : s.screen = none)
    (location : CLLocationCoordinate2D) {after : State Image}
    (hvisit : visit s (some location) = some after) :
    ∀ marker ∈ after.editor.itinerary.markers, marker.map = some s.editor.nextMap := by
  intro marker hmarker
  rw [visit_eq hunassigned hscreen] at hvisit
  obtain rfl := Option.some.inj hvisit
  obtain ⟨marker', -, rfl⟩ := List.mem_map.mp hmarker
  rfl

/-- A visit with a location is as it should be exactly when there is nothing to show. -/
theorem visitFaithful_some_iff (hunassigned : Unassigned s) (hscreen : s.screen = none)
    (location : CLLocationCoordinate2D) :
    VisitFaithful s (some location) ↔ NothingToShow s.editor.itinerary := by
  have hpush := step_push hunassigned hscreen (some location)
  constructor
  · rintro ⟨during, after, hduring, hafter, hshows, hsame⟩
    obtain rfl := Option.some.inj (hpush.symm.trans hduring)
    obtain ⟨hmarkers, hlastLine⟩ := hshows _ _ rfl rfl
    -- the last line has no coordinates, and there is a coordinate for each location
    have hcoordinates : Route.coordinates s.editor.itinerary = [] := by
      rw [← lastLine_replicate s.editor.itinerary.markers.length s.editor.nextMap]
      exact hlastLine.symm
    have hempty : s.editor.itinerary.locations = [] := List.map_eq_nil_iff.mp hcoordinates
    refine ⟨hempty, ?_⟩
    -- all markers are on the map, so there is none either
    have hnone := hmarkers.trans hcoordinates
    rw [List.map_eq_nil_iff, List.filter_eq_nil_iff] at hnone
    by_contra hne
    obtain ⟨marker, hmarker⟩ := List.exists_mem_of_ne_nil _ hne
    exact hnone (marker.setMap s.editor.nextMap) (List.mem_map_of_mem hmarker) (decide_eq_true rfl)
  · rintro ⟨hlocations, hmarkers⟩
    refine ⟨_, _, hpush, rfl, ?_, ?_, rfl⟩
    · rintro screen mapView hscreen' hmapView
      obtain rfl := Option.some.inj hscreen'
      obtain rfl := Option.some.inj hmapView
      constructor
      · simp [State.pushed, Route.coordinates, hlocations, hmarkers]
      · simp [State.pushed, Route.coordinates, hlocations, hmarkers]
    -- no marker has been moved
    · show { s.editor.itinerary with
        markers := s.editor.itinerary.markers.map (GMSMarker.setMap · s.editor.nextMap) } = _
      rw [hmarkers, List.map_nil, ← hmarkers]

/-- A push keeps what there is to show. -/
theorem nothingToShow_pushed (location : Option CLLocationCoordinate2D) :
    NothingToShow (s.pushed location).editor.itinerary ↔ NothingToShow s.editor.itinerary := by
  cases location with
  | none => exact Iff.rfl
  | some location => rw [NothingToShow, NothingToShow, State.pushed, List.map_eq_nil_iff]

/-- All visits are as they should be exactly when there is nothing to show, or no visit gets as far
as its map. -/
theorem eachStep_visitFaithful_iff :
    ∀ (visits : List (Option CLLocationCoordinate2D)) {s : State Image}, Unassigned s →
      s.screen = none →
        (visit.EachStep VisitFaithful s visits ↔
          NothingToShow s.editor.itinerary ∨ ∀ location ∈ visits, location = none)
  | [], s, _, _ => by simp [PartialStep.EachStep]
  | location :: visits, s, hunassigned, hscreen => by
    have hafter := visit_eq hunassigned hscreen location
    have hpushed := unassigned_pushed hunassigned location
    -- after the visit there is as much to show as before
    have hrest := eachStep_visitFaithful_iff visits
      (s := { s.pushed location with screen := none }) ⟨hpushed.statics, hpushed.itinerary⟩ rfl
    rw [nothingToShow_pushed] at hrest
    have hstep : visit.EachStep VisitFaithful s (location :: visits) ↔
        VisitFaithful s location ∧
          (NothingToShow s.editor.itinerary ∨ ∀ location ∈ visits, location = none) := by
      rw [← hrest, PartialStep.EachStep, hafter]
      simp
    rw [hstep, List.forall_mem_cons]
    cases location with
    | none => simp [visitFaithful_none hunassigned hscreen]
    | some location =>
      rw [visitFaithful_some_iff hunassigned hscreen]
      simp only [reduceCtorEq, false_and, or_false, and_iff_left_iff_imp]
      exact Or.inl

/-- A fix keeps what there is to show. -/
theorem exec_didUpdateLocations (fixes : List CLLocationCoordinate2D) {s : State Image}
    (hscreen : s.screen = none) (hunassigned : Unassigned s) :
    ∃ s', step.exec s (fixes.map .didUpdateLocations) = some s' ∧ Unassigned s' ∧
      s'.screen = none ∧
      (NothingToShow s'.editor.itinerary ↔ NothingToShow s.editor.itinerary) := by
  refine PartialStep.exec_total
    (K := fun s' => Unassigned s' ∧ s'.screen = none ∧
      (NothingToShow s'.editor.itinerary ↔ NothingToShow s.editor.itinerary))
    _ ?_ ⟨hunassigned, hscreen, Iff.rfl⟩
  rintro e he t ⟨hunassigned', hscreen', hnothing⟩
  obtain ⟨location, -, rfl⟩ := List.mem_map.mp he
  exact ⟨_, rfl, ⟨hunassigned'.statics, hunassigned'.itinerary⟩, hscreen', hnothing⟩

end Visit

/-- Any session: an itinerary that earlier sessions left behind, location fixes, then picks, then
visits. The visits show the whole route and disturb nothing if and only if there is nothing to
show, because nothing was left and nothing was picked, or the visits have no map. -/
theorem visits_faithful_iff (itinerary : CurrentItinerary Image) (nextMap : ℕ)
    (fixes : List CLLocationCoordinate2D) (places : List GMSPlace)
    (visits : List (Option CLLocationCoordinate2D)) :
    ∃ s, step.exec (State.start itinerary nextMap)
        (fixes.map .didUpdateLocations ++ places.map .didPick) = some s ∧
      (visit.EachStep VisitFaithful s visits ↔
        (NothingToShow itinerary ∧ places = []) ∨ ∀ location ∈ visits, location = none) := by
  obtain ⟨t, ht, hunassigned, hscreen, hfixed⟩ :=
    exec_didUpdateLocations fixes (s := State.start itinerary nextMap) rfl
      (unassigned_start itinerary nextMap)
  obtain ⟨s, hs, hunassigned, hscreen, hpicked⟩ := exec_didPick places hunassigned hscreen
  refine ⟨s, ?_, ?_⟩
  · rw [PartialStep.exec_append, ht]
    exact hs
  · rw [eachStep_visitFaithful_iff visits hunassigned hscreen, hpicked, hfixed]
    rfl

/-- After one pick, a visit shows a line that joins nothing, and leaves the marker on a map that is
no longer there. -/
theorem visit_after_pick :
    ∃ s after, step.exec (State.start (CurrentItinerary.init : CurrentItinerary Unit) 0)
        [.didUpdateLocations ⟨0, 0⟩, .didPick ⟨"place", "id", none, ⟨1, 1⟩⟩] = some s ∧
      visit s (some ⟨0, 0⟩) = some after ∧ ¬ VisitFaithful s (some ⟨0, 0⟩) ∧
      (∀ marker ∈ s.editor.itinerary.markers,
        marker.map = s.editor.itinerary.mapView.map (·.id)) ∧
      ∀ marker ∈ after.editor.itinerary.markers,
        marker.map ≠ after.editor.itinerary.mapView.map (·.id) := by
  refine ⟨_, _, rfl, rfl, fun hfaithful => ?_, by decide, by decide⟩
  have hnothing := (visitFaithful_some_iff ⟨rfl, rfl⟩ rfl ⟨0, 0⟩).mp hfaithful
  exact absurd hnothing.1 (by decide)

end MapScreen

end DateCourse
