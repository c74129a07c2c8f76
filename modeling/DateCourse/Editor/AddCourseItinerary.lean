import DateCourse.Model.CurrentItinerary

/-!
# The itinerary editor: its map and its picks

`AddCourseItineraryViewController` shows the itinerary on a map and in a table. This file has the
fields of the controller behind both, and the two callbacks that change them: `setUpMap`, which
runs for every location fix, and the completion of `placePicker(_:didPick:)`. Both write to the
shared itinerary as well. The controller has `lines` and `markers` of its own, which nothing uses.

## Main definitions

* `AddCourseItineraryViewController`: the fields `pathway` and `addButtonSectionIndex`;
* `setUpMap` and `didPick`, on the itinerary and the controller.

## Main results

* `setUpMap_locations`, `didPick_locations` and the other frame lemmas: what each callback leaves
  alone.
-/

namespace DateCourse

/-- The fields of the editor that the map and the table use. -/
structure AddCourseItineraryViewController where
  pathway : Option GMSPath
  addButtonSectionIndex : ℕ
deriving DecidableEq

namespace AddCourseItineraryViewController

variable {Image : Type}

/-- The fields of a new controller. -/
def init : AddCourseItineraryViewController := { pathway := none, addButtonSectionIndex := 0 }

/-- The line that `setUpMap` starts with: it has no points yet. -/
def initialLine (mapView : GMSMapView) : GMSPolyline :=
  { GMSPolyline.ofPath (some []) with
    strokeColor := .red, strokeWidth := 3, map := some mapView.id }

/-- The itinerary after `setUpMap()` for a device at `location`, where `mapView` is the identity of
the map that it creates. -/
def setUpMap (mapView : ℕ) (location : CLLocationCoordinate2D) (itinerary : CurrentItinerary Image)
    (controller : AddCourseItineraryViewController) :
    CurrentItinerary Image × AddCourseItineraryViewController :=
  let mapView : GMSMapView := { id := mapView, camera := { target := location, zoom := 12 } }
  ({ itinerary with mapView := some mapView, lines := itinerary.lines ++ [initialLine mapView] },
    { controller with pathway := some [] })

/-- The marker of a picked place. -/
def markerOf (place : GMSPlace) (itinerary : CurrentItinerary Image) : GMSMarker :=
  { position := place.coordinate, icon := .black, title := place.name,
    snippet := toString itinerary.LocationCount, map := itinerary.mapView.map (·.id) }

/-- The completion of `placePicker(_:didPick:)`. -/
def didPick (place : GMSPlace) (itinerary : CurrentItinerary Image)
    (controller : AddCourseItineraryViewController) :
    CurrentItinerary Image × AddCourseItineraryViewController :=
  let itinerary := itinerary.addLocation place
  -- `pathway?.add`: without a path the coordinate is dropped
  let pathway := controller.pathway.map (· ++ [place.coordinate])
  -- the new line goes through the whole path, not only from the previous place
  let line := { GMSPolyline.ofPath pathway with map := itinerary.mapView.map (·.id) }
  let mapView := itinerary.mapView.map
    fun mapView => { mapView with camera := { target := place.coordinate, zoom := 13 } }
  ({ itinerary with markers := itinerary.markers ++ [markerOf place itinerary],
                    lines := itinerary.lines ++ [line], mapView },
    { pathway, addButtonSectionIndex := controller.addButtonSectionIndex + 1 })

section Frame

variable (mapView : ℕ) (location : CLLocationCoordinate2D) (place : GMSPlace)
  (itinerary : CurrentItinerary Image) (controller : AddCourseItineraryViewController)

@[simp]
theorem setUpMap_locations :
    (setUpMap mapView location itinerary controller).1.locations = itinerary.locations := rfl

@[simp]
theorem setUpMap_markers :
    (setUpMap mapView location itinerary controller).1.markers = itinerary.markers := rfl

@[simp]
theorem didPick_locations :
    (didPick place itinerary controller).1.locations =
      itinerary.locations ++ [.initWithGMSPlace place] := rfl

@[simp]
theorem didPick_markers :
    (didPick place itinerary controller).1.markers =
      itinerary.markers ++ [markerOf place (itinerary.addLocation place)] := rfl

@[simp]
theorem didPick_pathway :
    (didPick place itinerary controller).2.pathway =
      controller.pathway.map (· ++ [place.coordinate]) := rfl

@[simp]
theorem didPick_addButtonSectionIndex :
    (didPick place itinerary controller).2.addButtonSectionIndex =
      controller.addButtonSectionIndex + 1 := rfl

/-- A pick moves the camera of the map but keeps the map. -/
@[simp]
theorem didPick_mapView :
    (didPick place itinerary controller).1.mapView.map (·.id) = itinerary.mapView.map (·.id) := by
  rw [didPick, Option.map_map]
  rfl

/-- The line added by a pick follows the controller's path. -/
theorem didPick_lines_getLast? :
    (didPick place itinerary controller).1.lines.getLast?.map (·.path) =
      some ((controller.pathway.map (· ++ [place.coordinate])).getD []) := by
  simp [didPick, GMSPolyline.ofPath]

end Frame

end AddCourseItineraryViewController

end DateCourse
