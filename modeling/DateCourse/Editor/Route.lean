import DateCourse.Editor.AddCourseItinerary
import DateCourse.Machine.Run

/-!
# The map of one editing session

Location fixes and picks reach the editor in any order. Each fix replaces the map and empties the
path, each pick extends the markers and the path. The map shows the itinerary as long as every fix
comes before the first pick; a fix that comes later leaves the markers on the old map and the path
without the locations picked before (`synced_iff_fixBeforePicks`).

## Main definitions

* `Route.step`: the session as a machine of fixes and picks;
* `Route.Synced`: map, markers and path follow the itinerary;
* `Route.FixBeforePicks`: the condition on a fix.
-/

namespace DateCourse.Route

open AddCourseItineraryViewController

variable {Image : Type}

/-- The shared itinerary, the controller, and the identity of the next map to be created. -/
structure State (Image : Type) where
  itinerary : CurrentItinerary Image
  controller : AddCourseItineraryViewController
  nextMap : ℕ

/-- The two sources of events. -/
inductive Event
  /-- `didUpdateLocations` with the device at a known location. -/
  | didUpdateLocations (location : CLLocationCoordinate2D)
  /-- A place was picked; a pick needs no map. -/
  | didPick (place : GMSPlace)

/-- A location fix runs `setUpMap`, which creates a map. -/
def State.didUpdateLocations (s : State Image) (location : CLLocationCoordinate2D) : State Image :=
  { itinerary := (setUpMap s.nextMap location s.itinerary s.controller).1,
    controller := (setUpMap s.nextMap location s.itinerary s.controller).2,
    nextMap := s.nextMap + 1 }

/-- The place picker returns. -/
def State.didPick (s : State Image) (place : GMSPlace) : State Image :=
  { s with itinerary := (AddCourseItineraryViewController.didPick place s.itinerary s.controller).1,
           controller :=
             (AddCourseItineraryViewController.didPick place s.itinerary s.controller).2 }

/-- One event of the session. No event traps. -/
def step : PartialStep (State Image) Event
  | s, .didUpdateLocations location => some (s.didUpdateLocations location)
  | s, .didPick place => some (s.didPick place)

/-- A new editor on an itinerary without locations and markers. The shared object may still have
the map and the lines of an earlier session. -/
def State.start (itinerary : CurrentItinerary Image) : State Image :=
  { itinerary := { itinerary with locations := [], markers := [] }, controller := .init,
    -- a map that is left from an earlier session is not created again
    nextMap := match itinerary.mapView with
      | some mapView => mapView.id + 1
      | none => 0 }

/-- The coordinates of the locations, in order. -/
def coordinates (itinerary : CurrentItinerary Image) : GMSPath :=
  itinerary.locations.map (·.getCoordinates)

/-- Map, markers and path follow the itinerary. -/
structure Synced (s : State Image) : Prop where
  /-- There is exactly one marker for each location. -/
  count : s.itinerary.markers.length = s.itinerary.locations.length
  /-- Marker `i` is at the coordinate of location `i`. -/
  position : s.itinerary.markers.map (·.position) = coordinates s.itinerary
  /-- Marker `i` is numbered `i + 1`. -/
  snippet : s.itinerary.markers.map (·.snippet) =
    (List.range s.itinerary.locations.length).map fun i => toString (i + 1)
  /-- The markers are attached to the itinerary's map. -/
  map : ∃ mapView, s.itinerary.mapView = some mapView ∧
    ∀ marker ∈ s.itinerary.markers, marker.map = some mapView.id
  /-- The controller's path goes through the locations in order. -/
  pathway : s.controller.pathway = some (coordinates s.itinerary)
  /-- The line added by the next pick joins all locations. -/
  nextLine : ∀ place, (didPick place s.itinerary s.controller).1.lines.getLast?.map (·.path) =
    some (coordinates s.itinerary ++ [place.coordinate])

/-- The condition on a location fix: no place has been picked yet. -/
def FixBeforePicks (s : State Image) : Event → Prop
  | .didUpdateLocations _ => s.itinerary.isEmpty = true
  | .didPick _ => True

/-- A pick adds the coordinate of its place. -/
theorem coordinates_didPick (s : State Image) (place : GMSPlace) :
    coordinates (s.didPick place).itinerary = coordinates s.itinerary ++ [place.coordinate] := by
  simp [State.didPick, coordinates, Location.getCoordinates, Location.initWithGMSPlace]

/-- A pick on a synced editor leaves it synced. -/
theorem Synced.didPick {s : State Image} (h : Synced s) (place : GMSPlace) :
    Synced (s.didPick place) := by
  obtain ⟨mapView, hmap, hattached⟩ := h.map
  have hpathway : (s.didPick place).controller.pathway =
      some (coordinates (s.didPick place).itinerary) := by
    rw [coordinates_didPick, State.didPick, didPick_pathway, h.pathway, Option.map_some]
  refine ⟨?_, ?_, ?_, ?_, hpathway, fun next => ?_⟩
  · have hcount := h.count
    simpa [State.didPick] using hcount
  -- the new marker is at the picked place
  · rw [coordinates_didPick, ← h.position, State.didPick, didPick_markers, List.map_append]
    rfl
  -- its number is the count after the place has been added
  · have hlength : (s.itinerary.addLocation place).LocationCount =
        s.itinerary.locations.length + 1 := by
      rw [CurrentItinerary.LocationCount, CurrentItinerary.addLocation, List.length_append,
        List.length_singleton]
    simp only [State.didPick, didPick_markers, didPick_locations, List.map_append, h.snippet,
      List.length_append, List.length_singleton, List.range_succ, List.map_cons, List.map_nil,
      markerOf, hlength]
  · -- the camera moves, the identity of the map stays
    have hid := didPick_mapView place s.itinerary s.controller
    rw [hmap, Option.map_some, Option.map_eq_some_iff] at hid
    obtain ⟨mapView', hmap', hid⟩ := hid
    refine ⟨mapView', hmap', fun marker hmarker => ?_⟩
    rw [State.didPick, didPick_markers] at hmarker
    rw [hid]
    rcases List.mem_append.mp hmarker with hold | hnew
    · exact hattached marker hold
    · rw [List.mem_singleton.mp hnew]
      simp [markerOf, CurrentItinerary.addLocation, hmap]
  · rw [didPick_lines_getLast?, hpathway]
    rfl

/-- A fix leaves the editor synced exactly when nothing has been picked. -/
theorem synced_didUpdateLocations_iff {s : State Image} (location : CLLocationCoordinate2D)
    (hcount : s.itinerary.markers.length = s.itinerary.locations.length) :
    Synced (s.didUpdateLocations location) ↔ s.itinerary.isEmpty = true := by
  rw [CurrentItinerary.isEmpty, List.isEmpty_iff]
  constructor
  · intro h
    -- the path has just been emptied
    have hpathway : some [] = some (coordinates s.itinerary) := h.pathway
    simpa [coordinates] using hpathway
  · intro hempty
    -- without locations there is no marker to lose and no coordinate to forget
    have hmarkers : s.itinerary.markers = [] := by
      rw [hempty] at hcount
      exact List.length_eq_zero_iff.mp hcount
    have hcoordinates : coordinates (s.didUpdateLocations location).itinerary = [] := by
      rw [coordinates, State.didUpdateLocations, setUpMap_locations, hempty, List.map_nil]
    refine ⟨hcount, ?_, ?_, ⟨_, rfl, ?_⟩, ?_, fun place => ?_⟩
    · rw [hcoordinates, State.didUpdateLocations, setUpMap_markers, hmarkers, List.map_nil]
    · rw [State.didUpdateLocations, setUpMap_markers, setUpMap_locations, hmarkers, hempty]
      rfl
    · rw [State.didUpdateLocations, setUpMap_markers, hmarkers]
      simp
    · rw [hcoordinates]
      rfl
    · rw [hcoordinates, didPick_lines_getLast?]
      rfl

/-- Every event keeps the number of markers equal to the number of locations. -/
theorem markers_length {s s' : State Image} {e : Event}
    (h : s.itinerary.markers.length = s.itinerary.locations.length) (hs' : step s e = some s') :
    s'.itinerary.markers.length = s'.itinerary.locations.length := by
  cases e with
  | didUpdateLocations location =>
    obtain rfl : s.didUpdateLocations location = s' := Option.some.inj hs'
    exact h
  | didPick place =>
    obtain rfl : s.didPick place = s' := Option.some.inj hs'
    simpa [State.didPick] using h

/-- In a session that starts with an empty itinerary, with fixes and picks in any order: wherever
the map has been set up, the map, the markers and the path follow the itinerary, if and only if
every fix of the session comes while no place has been picked. -/
theorem synced_iff_fixBeforePicks (itinerary : CurrentItinerary Image) (es : List Event) :
    step.Always (fun s => s.controller.pathway.isSome → Synced s) (State.start itinerary) es ↔
      step.EachStep FixBeforePicks (State.start itinerary) es := by
  refine PartialStep.always_iff_eachStep_of_total
    (K := fun s => s.itinerary.markers.length = s.itinerary.locations.length)
    (fun s e hK hP => ?_) es rfl (by simp [State.start, init])
  cases e with
  | didUpdateLocations location =>
    have hstep : step s (.didUpdateLocations location) = some (s.didUpdateLocations location) := rfl
    have hiff := synced_didUpdateLocations_iff location hK
    refine ⟨_, hstep, markers_length hK hstep, ?_⟩
    constructor
    · intro hfix _
      exact hiff.mpr hfix
    · intro hP'
      exact hiff.mp (hP' rfl)
  | didPick place =>
    have hstep : step s (.didPick place) = some (s.didPick place) := rfl
    refine ⟨_, hstep, markers_length hK hstep, iff_of_true trivial fun hset => ?_⟩
    rw [State.didPick, didPick_pathway, Option.isSome_map] at hset
    exact (hP hset).didPick place

/-- A pick before the first fix. -/
def pickBeforeFix : List Event :=
  [.didPick ⟨"place", "id", none, ⟨1, 1⟩⟩, .didUpdateLocations ⟨0, 0⟩]

/-- When the first fix comes after a pick, the picked place is on no map and not on the path. -/
theorem pickBeforeFix_not_synced :
    ¬ step.Always (fun s => s.controller.pathway.isSome → Synced s)
      (State.start (CurrentItinerary.init : CurrentItinerary Unit)) pickBeforeFix := by
  intro halways
  obtain ⟨-, s, hs, -, s', hs', hP⟩ := halways
  obtain rfl := Option.some.inj hs
  obtain rfl := Option.some.inj hs'
  have hpathway := (hP rfl).pathway
  exact absurd hpathway (by decide)

end DateCourse.Route
