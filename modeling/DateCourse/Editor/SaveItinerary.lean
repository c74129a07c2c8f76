import DateCourse.Machine.Run
import DateCourse.Model.CurrentItinerary
import DateCourse.Model.DataModel

/-!
# Saving an itinerary

The save of `AddCourseItineraryViewController`: `saveItinerary` uploads the photo of every location
in turn (`savePhoto`, `savePhotoToDatabase`), appends each download URL to `photoIDs`, and then
registers a course with them. Each tap on "Yes" starts an *attempt*, a chain of callbacks; all
attempts of one controller share its `photoIDs`. The callbacks of the chain run on the main queue
one at a time, so each is one event of the machine `Save.step`.

`Services` collects what the chain calls: the two image functions and the string of a download
URL. `NSUUID` gives every storage object a name of its own; the model names an object by the
attempt and the index of the call that created it, which happens once (`AttemptInv.processed`).
Fields marked *ghost* record the run for the theorems; no function reads them.

## Main definitions

* `StorageReference`: a photo in Firebase Storage, which also stands for its download URL;
* `Stage` and `Attempt`: the callback an attempt waits for, or how its chain ended;
* `SavingController`: the controller's fields that the chain uses;
* `savePhoto`, `savePhotoToDatabase`, `savedAllPhotos`, `registerCourseIntoDatabase` and the
  callbacks `putDataCompletion`, `downloadURLCompletion`, `updateChildValuesCompletion`;
* `Save.step`: the controller together with the itinerary and the signed-in user.
-/

namespace DateCourse

open TreeStore

variable {Image Data : Type}

/-- What the chain calls outside the controller. -/
structure Services (Image Data : Type) where
  /-- `UIImage.resizedTo1MB`. -/
  resizedTo1MB : Image → Option Image
  /-- `UIImagePNGRepresentation`. -/
  pngRepresentation : Image → Option Data
  /-- The download URL of an object, as a string. -/
  absoluteString : ℕ × ℕ → String

/-- A photo in Firebase Storage. The name `NSUUID` gives it is the pair of the attempt and the
index; the location it was read from is *ghost*. -/
structure StorageReference (Image Data : Type) where
  attempt : ℕ
  index : ℕ
  uploadData : Data
  location : Location Image
deriving DecidableEq

/-- The name of the object, `"\(imageName).png"`. -/
def StorageReference.name (ref : StorageReference Image Data) : ℕ × ℕ := (ref.attempt, ref.index)

/-- Where the chain of one attempt stands. -/
inductive Stage (Image Data : Type)
  /-- The main queue is about to call `savePhoto(index:)`. -/
  | saving (index : ℕ)
  /-- Waiting for `putData`; `locationCount` is the bound captured by `savePhoto`. -/
  | putData (index locationCount : ℕ) (ref : StorageReference Image Data)
  /-- Waiting for `downloadURL`. -/
  | downloadURL (index locationCount : ℕ) (ref : StorageReference Image Data)
  /-- Waiting for the database to store the course of `index` photos. -/
  | updateChildValues (index : ℕ)
  /-- An early return of `savePhotoToDatabase(index:)` or of one of its callbacks. -/
  | failed (index : ℕ)
  /-- The chain ended before `savePhotoToDatabase(index:)` was called. -/
  | ended (index : ℕ)
  /-- The database reported an error for the course of `index` photos. -/
  | rejected (index : ℕ)
  /-- The completion of `saveItinerary` was called. -/
  | finished (index : ℕ)
deriving DecidableEq

/-- The index up to which (exclusively) the chain has recorded its photos. -/
def Stage.index : Stage Image Data → ℕ
  | saving k | putData k _ _ | downloadURL k _ _ | updateChildValues k | failed k | ended k
  | rejected k | finished k => k

/-- A callback of the chain is outstanding. -/
def Stage.IsPending : Stage Image Data → Prop
  | putData .. | downloadURL .. | updateChildValues _ => True
  | _ => False

instance (stage : Stage Image Data) : Decidable stage.IsPending := by
  cases stage <;> unfold Stage.IsPending <;> infer_instance

/-- One tap on "Yes". -/
structure Attempt (Image Data : Type) where
  stage : Stage Image Data
  /-- The "Creating Itinerary" HUD is on the controller's view. -/
  progressView : Bool
  /-- *Ghost*: the indices `savePhotoToDatabase` was called with, in order. -/
  processed : List ℕ
  /-- *Ghost*: how often the completion was called. -/
  completions : ℕ
  /-- *Ghost*: `LocationCount()` at the last call of `savePhoto`. -/
  lastCount : ℕ
  /-- *Ghost*: the signed-in user at the last call of `savePhoto`. -/
  lastUser : Option String
deriving DecidableEq

/-- The record of an attempt that "Yes" has just started: its HUD is shown. -/
def Attempt.start : Attempt Image Data :=
  { stage := .saving 0, progressView := true, processed := [], completions := 0, lastCount := 0,
    lastUser := none }

/-- A call of `registerCourseIntoDatabase`: the dictionary, and as *ghost* what it came from. -/
structure Registration (Image Data : Type) where
  course : List (String × Value)
  /-- *Ghost*: the signed-in user. -/
  uid : String
  /-- *Ghost*: the attempt that registers the course. -/
  attempt : ℕ
  /-- *Ghost*: the objects whose URLs are the dictionary's `images`. -/
  images : List (StorageReference Image Data)
  /-- *Ghost*: the places of the itinerary at that moment. -/
  places : List GMSPlace
  /-- *Ghost*: the places picked on this controller up to that moment. -/
  picked : List GMSPlace

/-- The fields of the controller that saving uses. -/
structure SavingController (Image Data : Type) where
  photoIDs : List (StorageReference Image Data)
  attempts : List (Attempt Image Data)
  /-- *Ghost*: the courses handed to the database. -/
  registered : List (Registration Image Data)
  /-- *Ghost*: the places picked on this controller, in order. -/
  picked : List GMSPlace

namespace CurrentItinerary

/-- The places of the itinerary, in order. -/
def places (itinerary : CurrentItinerary Image) : List GMSPlace :=
  itinerary.locations.map (·.place)

end CurrentItinerary

namespace SavingController

/-- A controller that has just been created. -/
def fresh : SavingController Image Data :=
  { photoIDs := [], attempts := [], registered := [], picked := [] }

/-- Change the record of one attempt. -/
def update (c : SavingController Image Data) (a : ℕ)
    (f : Attempt Image Data → Attempt Image Data) : SavingController Image Data :=
  { c with attempts := c.attempts.modify a f }

/-- Move attempt `a` to another stage. -/
def setStage (c : SavingController Image Data) (a : ℕ) (stage : Stage Image Data) :
    SavingController Image Data :=
  c.update a fun att => { att with stage }

/-- The stage of attempt `a`, if there is such an attempt. -/
def stageOf (c : SavingController Image Data) (a : ℕ) : Option (Stage Image Data) :=
  c.attempts[a]?.map (·.stage)

end SavingController

namespace Save

open SavingController

section Chain

variable (services : Services Image Data) (itinerary : CurrentItinerary Image)
  (currentUser : Option String)

/-- The dictionary that `saveItinerary` builds. -/
def courseDictionary (uid : String) (photoIDs : List (StorageReference Image Data)) :
    List (String × Value) :=
  [("user", .string uid), ("title", .string "New Course"), ("intro", .string ""),
    ("locations", .string "helloo"),
    ("images", .strings (photoIDs.map fun ref => services.absoluteString ref.name)),
    ("descriptions", .strings ["hi my name is yuna"])]

/-- The photo of a location as it is uploaded: read, resized and encoded. -/
def uploadDataOf (location : Location Image) : Option Data := do
  let currentImage ← location.getImage
  let storageImage ← services.resizedTo1MB currentImage
  services.pngRepresentation storageImage

/-- `registerCourseIntoDatabase`: the write is issued and its completion block is pending. -/
def registerCourseIntoDatabase (a index : ℕ) (uid : String)
    (c : SavingController Image Data) : SavingController Image Data :=
  let registration := { course := courseDictionary services uid c.photoIDs, uid, attempt := a,
                        images := c.photoIDs, places := itinerary.places, picked := c.picked }
  { c with registered := c.registered ++ [registration] }.setStage a (.updateChildValues index)

/-- The closure that `saveItinerary` passes to `savePhoto`: it needs a signed-in user. -/
def savedAllPhotos (a index : ℕ) (c : SavingController Image Data) :
    SavingController Image Data :=
  match currentUser with
  | none => c.setStage a (.ended index)
  | some uid => registerCourseIntoDatabase services itinerary a index uid c

/-- `savePhotoToDatabase(index:)`; `none` when `getLocation(atIndex:)` is out of range. -/
def savePhotoToDatabase (a index locationCount : ℕ) (c : SavingController Image Data) :
    Option (SavingController Image Data) :=
  match itinerary.getLocation index with
  | none => none
  | some currentLocation =>
    let c := c.update a fun att => { att with processed := att.processed ++ [index] }
    match uploadDataOf services currentLocation with
    | none => some (c.setStage a (.failed index))
    | some uploadData =>
      let ref := { attempt := a, index, uploadData, location := currentLocation }
      some (c.setStage a (.putData index locationCount ref))

/-- `savePhoto(index:)` of attempt `a`. -/
def savePhoto (a index : ℕ) (c : SavingController Image Data) :
    Option (SavingController Image Data) :=
  let locationCount := itinerary.LocationCount
  let c := c.update a fun att =>
    { att with lastCount := locationCount, lastUser := currentUser }
  if index = locationCount then
    some (savedAllPhotos services itinerary currentUser a index c)
  else
    savePhotoToDatabase services itinerary a index locationCount c

/-- The "Yes" button: the HUD is shown and `saveItinerary` starts a chain of its own. -/
def saveItinerary (c : SavingController Image Data) : Option (SavingController Image Data) :=
  savePhoto services itinerary currentUser c.attempts.length 0
    { c with attempts := c.attempts ++ [.start] }

/-- The completion of `putData`: an error or missing metadata ends the chain. -/
def putDataCompletion (a : ℕ) (metadata error : Bool) (c : SavingController Image Data) :
    SavingController Image Data :=
  match c.stageOf a with
  | some (.putData index locationCount ref) =>
    if error then c.setStage a (.failed index)
    else if metadata then c.setStage a (.downloadURL index locationCount ref)
    else c.setStage a (.failed index)
  | _ => c

/-- The completion of `downloadURL`: it records the URL and goes on to the next location. -/
def downloadURLCompletion (a : ℕ) (url : Bool) (c : SavingController Image Data) :
    Option (SavingController Image Data) :=
  match c.stageOf a with
  | some (.downloadURL index locationCount ref) =>
    if url then
      let c := { c with photoIDs := c.photoIDs ++ [ref] }.setStage a (.saving (index + 1))
      -- the guard compares with the count captured before the upload, not with the current one
      if index + 1 ≤ locationCount then savePhoto services itinerary currentUser a (index + 1) c
      else some (c.setStage a (.ended (index + 1)))
    else some (c.setStage a (.failed index))
  | _ => some c

/-- The completion block of the database write; on success the HUD and the controller go. -/
def updateChildValuesCompletion (a : ℕ) (err : Bool) (c : SavingController Image Data) :
    SavingController Image Data :=
  match c.stageOf a with
  | some (.updateChildValues index) =>
    if err then c.setStage a (.rejected index)
    else c.update a fun att =>
      { att with stage := .finished index, progressView := false,
                 completions := att.completions + 1 }
  | _ => c

end Chain

/-- The callbacks of the attempts of one controller, and its "Yes" button. -/
inductive ControllerEvent
  | yes
  | putData (a : ℕ) (metadata error : Bool)
  | downloadURL (a : ℕ) (url : Bool)
  | updateChildValues (a : ℕ) (err : Bool)
deriving DecidableEq

/-- What the controller does for one event, given the itinerary and the user it then reads. -/
def controllerStep (services : Services Image Data) (itinerary : CurrentItinerary Image)
    (currentUser : Option String) (c : SavingController Image Data) :
    ControllerEvent → Option (SavingController Image Data)
  | .yes => saveItinerary services itinerary currentUser c
  | .putData a metadata error => some (putDataCompletion a metadata error c)
  | .downloadURL a url => downloadURLCompletion services itinerary currentUser a url c
  | .updateChildValues a err => some (updateChildValuesCompletion a err c)

/-- One editor controller with the shared state that its chains read. -/
structure State (Image Data : Type) where
  itinerary : CurrentItinerary Image
  currentUser : Option String
  controller : SavingController Image Data

/-- The events of a run on one controller. -/
inductive Event (Image : Type)
  | controller (e : ControllerEvent)
  /-- A place is picked: `addLocation` on the shared itinerary. -/
  | addLocation (place : GMSPlace)
  /-- A cell records a photo for the location at `index`. -/
  | addPhotoToLocation (index : ℕ) (image : Image)
  /-- The signed-in user changes. -/
  | authStateChanged (user : Option String)

/-- The machine of one controller; `none` is a trap. -/
def step (services : Services Image Data) : PartialStep (State Image Data) (Event Image)
  | s, .controller e =>
    (controllerStep services s.itinerary s.currentUser s.controller e).map
      fun controller => { s with controller }
  | s, .addLocation place =>
    some { s with itinerary := s.itinerary.addLocation place,
                  controller := { s.controller with picked := s.controller.picked ++ [place] } }
  | s, .addPhotoToLocation index image =>
    -- an index out of range traps in the cell that records, not in the chain
    some { s with itinerary := (s.itinerary.addPhotoToLocation index image).getD s.itinerary }
  | s, .authStateChanged user => some { s with currentUser := user }

/-- A new controller opened on an itinerary, with some user or nobody signed in. -/
def State.fresh (itinerary : CurrentItinerary Image) (currentUser : Option String) :
    State Image Data :=
  { itinerary, currentUser, controller := .fresh }

end Save

end DateCourse
