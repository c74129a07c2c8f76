import Mathlib.Data.List.Nodup
import Mathlib.Logic.Function.Basic
import DateCourse.Machine.Run
import DateCourse.Model.CurrentItinerary

/-!
# The cells that load the photos

An `ItineraryCell` that is configured with a location looks up a photo of its place, shows it and
records it in the shared itinerary at the index it was configured with. Cells are reused, the
lookup starts in a later block on the main queue, and its callback comes at any time after that.

`Location` is a class: the itinerary, the blocks and the pending callbacks share its objects. Here a
location is a reference, its place never changes, and the state keeps the photo of each object.
`State.itinerary` is the itinerary of `CurrentItinerary` that such a state stands for. Every lookup
returns a photo of the place it was asked for.

## Main definitions

* `PlacePhoto`: an image of a place;
* `LocationRef`, `ItineraryCell` and `Cells.State`;
* `configure`, `configureBlock` and `loadFirstPhotoCompletion`: the three parts of `configure`;
* `Cells.step`: the machine, with the changes of the itinerary.

## Main results

* `itinerary_addLocation`, `itinerary_removeLocation`, `itinerary_removeAllLocations` and
  `itinerary_addPhotoToLocation`: the operations on references refine those of
  `CurrentItinerary`.
-/

namespace DateCourse

variable {Payload : Type}

/-- An image of the place with the given identifier. -/
structure PlacePhoto (Payload : Type) where
  placeID : String
  payload : Payload
deriving DecidableEq

/-- A reference to a `Location` object. -/
structure LocationRef where
  id : ℕ
  place : GMSPlace
deriving DecidableEq

/-- A cell of the table. `imageCache` is an `NSCache`, which may drop an entry at any time. -/
structure ItineraryCell (Payload : Type) where
  locationPlaceID : Option String
  imageCache : String → Option (PlacePhoto Payload)
  /-- The image of `locationImageView`. -/
  image : Option (PlacePhoto Payload)
  /-- The text of `addressLabel`. -/
  address : Option String
  /-- *Ghost*: the location that the table shows with this cell. -/
  shown : Option LocationRef

/-- A cell as it comes from its nib. -/
def ItineraryCell.init : ItineraryCell Payload :=
  { locationPlaceID := none, imageCache := fun _ => none, image := none, address := none,
    shown := none }

namespace Cells

/-- What the closures of one call of `configure` have captured. -/
structure Request where
  cell : ℕ
  location : LocationRef
  index : ℕ
deriving DecidableEq

/-- The shared itinerary with the cells of a table, the blocks on the main queue and the pending
lookups. -/
structure State (Payload : Type) where
  locations : List LocationRef
  /-- The field `firstPhoto` of every `Location` object. -/
  firstPhoto : ℕ → Option (PlacePhoto Payload)
  /-- The identity of the next `Location` object. -/
  nextId : ℕ
  cells : ℕ → ItineraryCell Payload
  /-- The blocks on the main queue, the next one first. -/
  blocks : List Request
  lookups : List Request

namespace State

/-- A new table over an itinerary; a location that has a photo has one of its own place. -/
def start (places : List (GMSPlace × Option Payload)) : State Payload :=
  { locations := places.zipIdx.map fun p => { id := p.2, place := p.1.1 },
    firstPhoto := fun id => places[id]?.bind fun p =>
      p.2.map fun payload => { placeID := p.1.placeID, payload },
    nextId := places.length, cells := fun _ => .init, blocks := [], lookups := [] }

variable (s : State Payload)

/-- The itinerary that the state stands for. -/
def itinerary : CurrentItinerary (PlacePhoto Payload) :=
  { (CurrentItinerary.init : CurrentItinerary (PlacePhoto Payload)) with
    locations := s.locations.map fun location =>
      { place := location.place, firstPhoto := s.firstPhoto location.id } }

/-- `CurrentItinerary.addLocation`, which creates an object. -/
def addLocation (place : GMSPlace) : State Payload :=
  { s with locations := s.locations ++ [{ id := s.nextId, place }], nextId := s.nextId + 1 }

/-- `CurrentItinerary.removeLocation`. -/
def removeLocation : Option (State Payload) :=
  if s.locations = [] then none else some { s with locations := s.locations.dropLast }

/-- `CurrentItinerary.removeAllLocations`. -/
def removeAllLocations : State Payload := { s with locations := [] }

/-- `CurrentItinerary.addPhotoToLocation`, on the object at `index`. -/
def addPhotoToLocation (index : ℕ) (image : PlacePhoto Payload) : Option (State Payload) :=
  s.locations[index]?.map fun location =>
    { s with firstPhoto := Function.update s.firstPhoto location.id (some image) }

/-- Change one cell. -/
def updateCell (k : ℕ) (f : ItineraryCell Payload → ItineraryCell Payload) : State Payload :=
  { s with cells := Function.update s.cells k (f (s.cells k)) }

end State

/-! ## `configure` -/

section Configure

variable (s : State Payload)

/-- `configure(withLocation:index:)` up to its `async`, for the location that the table passes. -/
def configure (k index : ℕ) (location : LocationRef) : State Payload :=
  { s.updateCell k fun cell =>
      { cell with locationPlaceID := some location.place.placeID, shown := some location } with
    blocks := s.blocks ++ [{ cell := k, location, index }] }

/-- The block that `configure` dispatches: a cached image is shown, otherwise a lookup starts. -/
def configureBlock (r : Request) : State Payload :=
  match (s.cells r.cell).imageCache r.location.place.placeID with
  | some imageFromCache =>
    s.updateCell r.cell fun cell => { cell with image := some imageFromCache }
  | none => { s with lookups := s.lookups ++ [r] }

/-- The end of the callback: the cache and the address. -/
def finishLookup (r : Request) (image : PlacePhoto Payload) : State Payload :=
  s.updateCell r.cell fun cell =>
    { cell with imageCache := Function.update cell.imageCache r.location.place.placeID (some image),
                address := r.location.place.formattedAddress }

/-- The callback of `loadFirstPhotoForPlace`, with an image of the place it was asked for. -/
def loadFirstPhotoCompletion (r : Request) (payload : Payload) : Option (State Payload) :=
  let image : PlacePhoto Payload := { placeID := r.location.place.placeID, payload }
  if (s.cells r.cell).locationPlaceID = some r.location.place.placeID then
    ((s.updateCell r.cell fun cell => { cell with image := some image }).addPhotoToLocation
      r.index image).map fun s => finishLookup s r image
  else some (finishLookup s r image)

end Configure

/-! ## The machine -/

/-- The events of a run. -/
inductive Event (Payload : Type)
  | addLocation (place : GMSPlace)
  | removeLocation
  | removeAllLocations
  /-- The table configures cell `k` for the location at `index`. -/
  | configure (k index : ℕ)
  /-- Cell `k` leaves the screen, by scrolling or because the table is reloaded. -/
  | endDisplaying (k : ℕ)
  /-- The next block of the main queue runs. -/
  | mainQueue
  /-- Lookup `j` calls back. -/
  | lookup (j : ℕ) (payload : Payload)
  /-- The cache of cell `k` drops an entry. -/
  | evict (k : ℕ) (placeID : String)

/-- One event of the run; `none` is a trap. -/
def step : PartialStep (State Payload) (Event Payload)
  | s, .addLocation place => some (s.addLocation place)
  -- its only caller asks `isEmpty` first
  | s, .removeLocation => some (s.removeLocation.getD s)
  | s, .removeAllLocations => some s.removeAllLocations
  | s, .configure k index =>
    -- the table asks for the rows of the itinerary only
    match s.locations[index]? with
    | some location => some (configure s k index location)
    | none => some s
  | s, .endDisplaying k => some (s.updateCell k fun cell => { cell with shown := none })
  | s, .mainQueue =>
    match s.blocks with
    | r :: blocks => some (configureBlock { s with blocks } r)
    | [] => some s
  -- the callbacks of lookups come in any order
  | s, .lookup j payload =>
    match s.lookups[j]? with
    | some r => loadFirstPhotoCompletion { s with lookups := s.lookups.eraseIdx j } r payload
    | none => some s
  | s, .evict k placeID =>
    some (s.updateCell k fun cell =>
      { cell with imageCache := Function.update cell.imageCache placeID none })

/-! ## References refine values -/

section Refinement

variable {s : State Payload}

theorem itinerary_addLocation (hfresh : s.firstPhoto s.nextId = none) (place : GMSPlace) :
    (s.addLocation place).itinerary = s.itinerary.addLocation place := by
  simp [State.itinerary, State.addLocation, CurrentItinerary.addLocation,
    Location.initWithGMSPlace, hfresh]

theorem itinerary_removeLocation :
    s.removeLocation.map State.itinerary = s.itinerary.removeLocation := by
  unfold State.removeLocation CurrentItinerary.removeLocation
  by_cases hnil : s.locations = []
  · simp [hnil, State.itinerary]
  · simp [hnil, State.itinerary, List.map_dropLast]

theorem itinerary_removeAllLocations :
    s.removeAllLocations.itinerary = s.itinerary.removeAllLocations := rfl

/-- Recording a photo in an object changes the entry at one index, since the itinerary holds each
object once. -/
theorem itinerary_addPhotoToLocation (hnodup : (s.locations.map (·.id)).Nodup) (index : ℕ)
    (image : PlacePhoto Payload) :
    (s.addPhotoToLocation index image).map State.itinerary =
      s.itinerary.addPhotoToLocation index image := by
  unfold State.addPhotoToLocation CurrentItinerary.addPhotoToLocation
  by_cases hlt : index < s.locations.length
  · rw [List.getElem?_eq_getElem hlt, if_pos (by simpa [State.itinerary] using hlt)]
    simp only [Option.map_some, State.itinerary, CurrentItinerary.init, Option.some.injEq]
    congr 1
    -- compare the two itineraries at each index
    apply List.ext_getElem?
    intro i
    rw [List.getElem?_modify, List.getElem?_map, List.getElem?_map]
    cases hi : s.locations[i]? with
    | none => simp
    | some location =>
      obtain ⟨hi', rfl⟩ := List.getElem?_eq_some_iff.mp hi
      by_cases heq : index = i
      · subst heq
        simp [Location.setImage]
      -- another index holds another object
      · have hne : s.locations[i].id ≠ s.locations[index].id := by
          intro hid
          have hi'' : i < (s.locations.map (·.id)).length := by simpa using hi'
          have hlt' : index < (s.locations.map (·.id)).length := by simpa using hlt
          have hsame : (s.locations.map (·.id))[i] = (s.locations.map (·.id))[index] := by
            simpa using hid
          exact heq (hnodup.getElem_inj_iff.mp hsame).symm
        simp [heq, Function.update_of_ne hne]
  · rw [List.getElem?_eq_none (by omega), if_neg (by simpa [State.itinerary] using hlt)]
    rfl

end Refinement

end Cells

end DateCourse
