import Mathlib.Data.Rat.Defs
import Mathlib.Data.List.Basic

/-!
# The itinerary being edited

`CurrentItinerary` is the object behind `CurrentItinerary.shared`: the locations picked so far and
the map, markers and lines that show them. This file has its data and its operations. An
operation that Swift traps on (`removeLast` on an empty array, an index out of range) returns
`none`.

The two notifications the class posts have no observer anywhere, and are left out. Images are an
arbitrary type `Image`.

## Main definitions

* `GMSPlace`, `Location`: a place as the picker returns it, and the itinerary's entry for it;
* `GMSMapView`, `GMSMarker`, `GMSPolyline`: the Google Maps objects; a map is referred to by its
  `id`, the identity of the object;
* `CurrentItinerary` with `addLocation`, `removeLocation`, `addPhotoToLocation`,
  `removeAllLocations`, `isEmpty`, `LocationCount` and `getLocation`.
-/

namespace DateCourse

/-- A coordinate; degrees are exact rationals, since nothing below depends on rounding. -/
structure CLLocationCoordinate2D where
  latitude : ℚ
  longitude : ℚ
deriving DecidableEq

/-- The fields of `GMSPlace` that the app reads. -/
structure GMSPlace where
  name : String
  placeID : String
  formattedAddress : Option String
  coordinate : CLLocationCoordinate2D
deriving DecidableEq

/-- One stop of the itinerary: the place and, once a photo lookup has recorded it, its photo. -/
structure Location (Image : Type) where
  place : GMSPlace
  firstPhoto : Option Image
deriving DecidableEq

namespace Location

variable {Image : Type}

/-- `Location.init(withGMSPlace:)`: a new location has no photo. -/
def initWithGMSPlace (place : GMSPlace) : Location Image := { place, firstPhoto := none }

def getImage (location : Location Image) : Option Image := location.firstPhoto

def setImage (location : Location Image) (image : Image) : Location Image :=
  { location with firstPhoto := some image }

def getCoordinates (location : Location Image) : CLLocationCoordinate2D :=
  location.place.coordinate

@[simp]
theorem place_setImage (location : Location Image) (image : Image) :
    (location.setImage image).place = location.place := rfl

end Location

/-- The colours that the map code sets. `blue` is the stroke colour of a new `GMSPolyline`. -/
inductive UIColor
  | red
  | black
  | blue
deriving DecidableEq

/-- `GMSCameraPosition.camera(withLatitude:longitude:zoom:)`. -/
structure GMSCameraPosition where
  target : CLLocationCoordinate2D
  zoom : ℚ
deriving DecidableEq

/-- A map view. `id` is the identity of the object: no two calls of `GMSMapView.map` share it. -/
structure GMSMapView where
  id : ℕ
  camera : GMSCameraPosition
deriving DecidableEq

/-- The coordinates of a `GMSMutablePath`, in the order they were added. -/
abbrev GMSPath := List CLLocationCoordinate2D

/-- A marker; `map` is the map it is attached to, if any. -/
structure GMSMarker where
  position : CLLocationCoordinate2D
  icon : UIColor
  title : String
  snippet : String
  map : Option ℕ
deriving DecidableEq

/-- A polyline. It copies the path it is created from; a missing path gives no coordinates. -/
structure GMSPolyline where
  path : GMSPath
  strokeColor : UIColor
  strokeWidth : ℚ
  map : Option ℕ
deriving DecidableEq

/-- `GMSPolyline(path:)`, not yet attached to a map. -/
def GMSPolyline.ofPath (path : Option GMSPath) : GMSPolyline :=
  { path := path.getD [], strokeColor := .blue, strokeWidth := 1, map := none }

/-- The stored state of `CurrentItinerary`. -/
structure CurrentItinerary (Image : Type) where
  locations : List (Location Image)
  pathway : Option GMSPath
  lines : List GMSPolyline
  markers : List GMSMarker
  mapView : Option GMSMapView
deriving DecidableEq

namespace CurrentItinerary

variable {Image : Type}

/-- The state in which a process finds `CurrentItinerary.shared`. -/
def init : CurrentItinerary Image :=
  { locations := [], pathway := none, lines := [], markers := [], mapView := none }

def addLocation (itinerary : CurrentItinerary Image) (place : GMSPlace) :
    CurrentItinerary Image :=
  { itinerary with locations := itinerary.locations ++ [.initWithGMSPlace place] }

/-- `locations.removeLast()`, which traps on an empty array. -/
def removeLocation (itinerary : CurrentItinerary Image) : Option (CurrentItinerary Image) :=
  if itinerary.locations = [] then none
  else some { itinerary with locations := itinerary.locations.dropLast }

/-- `locations[index].setImage(image:)`, which traps when the index is out of range. -/
def addPhotoToLocation (itinerary : CurrentItinerary Image) (index : ℕ) (image : Image) :
    Option (CurrentItinerary Image) :=
  if index < itinerary.locations.length then
    some { itinerary with locations := itinerary.locations.modify index (·.setImage image) }
  else none

def removeAllLocations (itinerary : CurrentItinerary Image) : CurrentItinerary Image :=
  { itinerary with locations := [] }

def isEmpty (itinerary : CurrentItinerary Image) : Bool := itinerary.locations.isEmpty

def LocationCount (itinerary : CurrentItinerary Image) : ℕ := itinerary.locations.length

/-- `locations[index]`, which traps when the index is out of range. -/
def getLocation (itinerary : CurrentItinerary Image) (index : ℕ) : Option (Location Image) :=
  itinerary.locations[index]?

end CurrentItinerary

end DateCourse
