import DateCourse.Editor.ItineraryCell

/-!
# The reuse of one cell

What one `ItineraryCell` shows depends on the calls of `configure` it has had, the blocks those have
left on the main queue, and the lookups these have started. Here a lookup can also fail or find no
photo, and `configure` gets any location. The photo that a lookup records in the itinerary does not
matter to the cell, and is left out.

Once nothing is pending, the address is that of the last location whose lookup found a photo, and
that need not be the location the cell was last configured with.

## Main definitions

* `ItineraryCell.configure`, `configureBlock` and `loadFirstPhotoCompletion`: the three parts of
  `configure`, on the cell;
* `CellReuse.step`: the machine of one cell;
* `CellReuse.Shows`: the cell shows the details of a location;
* `CellReuse.LeavesDetails`: the condition on an event.

## Main results

* `cells_configure`, `cells_configureBlock` and `cells_loadFirstPhotoCompletion`: these are the
  changes that the machine of the whole table makes to the cell;
* `settled_shows_iff`: the cell settles on the right details exactly if each event meets its
  condition.
-/

namespace DateCourse

variable {Payload : Type}

namespace ItineraryCell

variable (cell : ItineraryCell Payload) (location : LocationRef)

/-- `configure(withLocation:index:)` up to its `async`. -/
def configure : ItineraryCell Payload :=
  { cell with locationPlaceID := some location.place.placeID, shown := some location }

/-- The block that `configure` dispatches, when it finds an image in the cache; otherwise it starts
a lookup. -/
def configureBlock : Option (ItineraryCell Payload) :=
  (cell.imageCache location.place.placeID).map fun image => { cell with image := some image }

/-- The callback of `loadFirstPhotoForPlace`. Only the image depends on what the cell shows now. -/
def loadFirstPhotoCompletion (payload : Payload) : ItineraryCell Payload :=
  let image : PlacePhoto Payload := { placeID := location.place.placeID, payload }
  { cell with
    image := if cell.locationPlaceID = some location.place.placeID then some image else cell.image,
    imageCache := Function.update cell.imageCache location.place.placeID (some image),
    address := location.place.formattedAddress }

end ItineraryCell

/-! ## One cell of the table -/

section Cells

open Cells

variable (s : Cells.State Payload)

theorem cells_configure (k index : ℕ) (location : LocationRef) :
    (configure s k index location).cells k = (s.cells k).configure location :=
  Function.update_self ..

theorem cells_configureBlock (r : Request) :
    (configureBlock s r).cells r.cell =
      ((s.cells r.cell).configureBlock r.location).getD (s.cells r.cell) := by
  rw [configureBlock, ItineraryCell.configureBlock]
  cases (s.cells r.cell).imageCache r.location.place.placeID with
  | none => rfl
  | some image => exact Function.update_self ..

theorem cells_loadFirstPhotoCompletion (r : Request) (payload : Payload) {s' : Cells.State Payload}
    (hs' : loadFirstPhotoCompletion s r payload = some s') :
    s'.cells r.cell = (s.cells r.cell).loadFirstPhotoCompletion r.location payload := by
  rw [loadFirstPhotoCompletion] at hs'
  by_cases hid : (s.cells r.cell).locationPlaceID = some r.location.place.placeID
  · rw [if_pos hid] at hs'
    -- the photo is recorded in the itinerary, which leaves the cells alone
    obtain ⟨t, ht, rfl⟩ := Option.map_eq_some_iff.mp hs'
    obtain ⟨location, -, rfl⟩ := Option.map_eq_some_iff.mp ht
    simp [finishLookup, State.updateCell, ItineraryCell.loadFirstPhotoCompletion, hid]
  · rw [if_neg hid] at hs'
    obtain rfl := Option.some.inj hs'
    simp [finishLookup, State.updateCell, ItineraryCell.loadFirstPhotoCompletion, hid]

end Cells

namespace CellReuse

/-- A cell, the blocks on the main queue, the next one first, and the pending lookups. -/
structure State (Payload : Type) where
  cell : ItineraryCell Payload
  blocks : List LocationRef
  lookups : List LocationRef

/-- The events of a run. -/
inductive Event (Payload : Type)
  | configure (location : LocationRef)
  /-- The next block of the main queue runs. -/
  | mainQueue
  /-- Lookup `j` ends: with an image, with an error, or without a photo. -/
  | lookup (j : ℕ) (payload : Option Payload)
  /-- The cache drops an entry. -/
  | evict (placeID : String)

/-- A cell as it comes from its nib. -/
def State.start : State Payload := { cell := .init, blocks := [], lookups := [] }

/-- One event of the run. No event traps. -/
def step : PartialStep (State Payload) (Event Payload)
  | s, .configure location =>
    some { s with cell := s.cell.configure location, blocks := s.blocks ++ [location] }
  | s, .mainQueue =>
    match s.blocks with
    | [] => some s
    | location :: blocks =>
      match s.cell.configureBlock location with
      | some cell => some { s with cell, blocks }
      | none => some { s with blocks, lookups := s.lookups ++ [location] }
  | s, .lookup j payload =>
    match s.lookups[j]? with
    | none => some s
    | some location =>
      -- an error and a place without photos end the lookup without a callback
      some { s with cell := payload.elim s.cell (s.cell.loadFirstPhotoCompletion location),
                    lookups := s.lookups.eraseIdx j }
  | s, .evict placeID =>
    some { s with cell :=
      { s.cell with imageCache := Function.update s.cell.imageCache placeID none } }

/-- No block and no lookup is pending. -/
def Settled (s : State Payload) : Prop := s.blocks = [] ∧ s.lookups = []

/-- The cell shows the address of the location, and no image or one of its place. -/
structure Shows (cell : ItineraryCell Payload) (location : LocationRef) : Prop where
  address : cell.address = location.place.formattedAddress
  image : ∀ image, cell.image = some image → image.placeID = location.place.placeID

/-- The cell shows the details of the location that it was last configured with, if any. -/
def ShowsLast (s : State Payload) : Prop :=
  ∀ location, s.cell.shown = some location → Shows s.cell location

/-- The condition on an event. Only the event that leaves nothing pending has to meet one. -/
def LeavesDetails (s : State Payload) : Event Payload → Prop
  | .configure _ | .evict _ => True
  -- the last block finds its image in the cache: the address has to be there already
  | .mainQueue => ∀ location, s.blocks = [location] → s.lookups = [] →
      (s.cell.imageCache location.place.placeID).isSome →
        s.cell.address = location.place.formattedAddress
  -- the last lookup finds nothing: all details have to be there already
  | .lookup j none => s.blocks = [] → s.lookups.length = 1 → j = 0 → ShowsLast s
  -- the last lookup finds a photo: it has to be one for the same address, and when it is for
  -- another place, the image of the right place has to be there already, or none
  | .lookup j (some _) => s.blocks = [] → j = 0 → ∀ location shown, s.lookups = [location] →
      s.cell.shown = some shown →
        location.place.formattedAddress = shown.place.formattedAddress ∧
        (location.place.placeID ≠ shown.place.placeID →
          ∀ image, s.cell.image = some image → image.placeID = shown.place.placeID)

/-- What holds in every state. -/
structure Inv (s : State Payload) : Prop where
  /-- `locationPlaceID` belongs to the last `configure`. -/
  locationPlaceID : s.cell.locationPlaceID = s.cell.shown.map (·.place.placeID)
  /-- A cached image is one of the place it is stored under. -/
  imageCache : ∀ placeID image, s.cell.imageCache placeID = some image → image.placeID = placeID
  /-- The last block is the one of the last `configure`. -/
  lastBlock : ∀ location, s.blocks.getLast? = some location → s.cell.shown = some location

theorem inv_start : Inv (State.start : State Payload) := by
  refine ⟨rfl, fun placeID image himage => ?_, fun location hlocation => ?_⟩
  · cases himage
  · cases hlocation

section Step

variable {s s' : State Payload}

/-- What one event can do. -/
inductive StepCase (s : State Payload) : Event Payload → State Payload → Prop
  | configure (location : LocationRef) :
      StepCase s (.configure location)
        { s with cell := s.cell.configure location, blocks := s.blocks ++ [location] }
  /-- Nothing is there to run. -/
  | ignored {e : Event Payload} (he : (e = .mainQueue ∧ s.blocks = []) ∨
      ∃ j payload, e = .lookup j payload ∧ s.lookups.length ≤ j) : StepCase s e s
  | cached {location : LocationRef} {blocks : List LocationRef} {image : PlacePhoto Payload}
      (hblocks : s.blocks = location :: blocks)
      (himage : s.cell.imageCache location.place.placeID = some image) :
      StepCase s .mainQueue { s with cell := { s.cell with image := some image }, blocks }
  | lookUp {location : LocationRef} {blocks : List LocationRef}
      (hblocks : s.blocks = location :: blocks)
      (himage : s.cell.imageCache location.place.placeID = none) :
      StepCase s .mainQueue { s with blocks, lookups := s.lookups ++ [location] }
  | failed {j : ℕ} {location : LocationRef} (hj : s.lookups[j]? = some location) :
      StepCase s (.lookup j none) { s with lookups := s.lookups.eraseIdx j }
  | found {j : ℕ} {location : LocationRef} (hj : s.lookups[j]? = some location)
      (payload : Payload) :
      StepCase s (.lookup j (some payload))
        { s with cell := s.cell.loadFirstPhotoCompletion location payload,
                 lookups := s.lookups.eraseIdx j }
  | evict (placeID : String) :
      StepCase s (.evict placeID) { s with cell :=
        { s.cell with imageCache := Function.update s.cell.imageCache placeID none } }

/-- Every event is one of these cases. -/
theorem step_cases (s : State Payload) (e : Event Payload) :
    ∃ s', step s e = some s' ∧ StepCase s e s' := by
  cases e with
  | configure location => exact ⟨_, rfl, .configure location⟩
  | mainQueue =>
    cases hblocks : s.blocks with
    | nil => exact ⟨s, by simp only [step, hblocks], .ignored (Or.inl ⟨rfl, hblocks⟩)⟩
    | cons location blocks =>
      cases himage : s.cell.imageCache location.place.placeID with
      | none =>
        have hblock : s.cell.configureBlock location = none := by
          rw [ItineraryCell.configureBlock, himage, Option.map_none]
        exact ⟨_, by simp only [step, hblocks, hblock], .lookUp hblocks himage⟩
      | some image =>
        have hblock : s.cell.configureBlock location =
            some { s.cell with image := some image } := by
          rw [ItineraryCell.configureBlock, himage, Option.map_some]
        exact ⟨_, by simp only [step, hblocks, hblock], .cached hblocks himage⟩
  | lookup j payload =>
    cases hj : s.lookups[j]? with
    | none =>
      have hle : s.lookups.length ≤ j := List.getElem?_eq_none_iff.mp hj
      exact ⟨s, by simp only [step, hj], .ignored (Or.inr ⟨j, payload, rfl, hle⟩)⟩
    | some location =>
      cases payload with
      | none => exact ⟨_, by simp only [step, hj]; rfl, .failed hj⟩
      | some payload => exact ⟨_, by simp only [step, hj]; rfl, .found hj payload⟩
  | evict placeID => exact ⟨_, rfl, .evict placeID⟩

/-- Every event keeps the invariant. -/
theorem StepCase.inv {e : Event Payload} (h : Inv s) (hcase : StepCase s e s') : Inv s' := by
  cases hcase with
  | configure location =>
    refine ⟨rfl, h.imageCache, fun last hlast => ?_⟩
    rw [List.getLast?_concat] at hlast
    exact hlast
  | ignored => exact h
  | cached hblocks =>
    refine ⟨h.locationPlaceID, h.imageCache, fun last hlast => h.lastBlock last ?_⟩
    rw [hblocks, List.getLast?_cons, hlast]
    rfl
  | lookUp hblocks =>
    refine ⟨h.locationPlaceID, h.imageCache, fun last hlast => h.lastBlock last ?_⟩
    rw [hblocks, List.getLast?_cons, hlast]
    rfl
  | failed => exact ⟨h.locationPlaceID, h.imageCache, h.lastBlock⟩
  | @found j location hj payload =>
    refine ⟨h.locationPlaceID, fun placeID image himage => ?_, h.lastBlock⟩
    -- the new entry is an image of its place
    simp only [ItineraryCell.loadFirstPhotoCompletion] at himage
    by_cases hid : placeID = location.place.placeID
    · subst hid
      rw [Function.update_self, Option.some.injEq] at himage
      rw [← himage]
    · rw [Function.update_of_ne hid] at himage
      exact h.imageCache placeID image himage
  | evict placeID =>
    refine ⟨h.locationPlaceID, fun placeID' image himage => ?_, h.lastBlock⟩
    simp only [] at himage
    by_cases hid : placeID' = placeID
    · rw [hid, Function.update_self] at himage
      cases himage
    · rw [Function.update_of_ne hid] at himage
      exact h.imageCache placeID' image himage

/-- Nothing is pending after the end of a lookup exactly if it was the only one. -/
theorem eraseIdx_eq_nil_iff {j : ℕ} {location : LocationRef} (hj : s.lookups[j]? = some location) :
    s.lookups.eraseIdx j = [] ↔ s.lookups = [location] ∧ j = 0 := by
  have hlt := (List.getElem?_eq_some_iff.mp hj).1
  constructor
  · intro hnil
    have hlength := congrArg List.length hnil
    rw [List.length_eraseIdx_of_lt hlt, List.length_nil] at hlength
    obtain ⟨other, hother⟩ := List.length_eq_one_iff.mp (show s.lookups.length = 1 by omega)
    have hzero : j = 0 := by omega
    rw [hother, hzero] at hj
    obtain rfl : other = location := Option.some.inj hj
    exact ⟨hother, hzero⟩
  · rintro ⟨hlookups, rfl⟩
    rw [hlookups]
    rfl

/-- The block of the last `configure` is the only one left, and its image is in the cache. -/
theorem shows_cached_iff (h : Inv s) {location : LocationRef} {image : PlacePhoto Payload}
    (hblocks : s.blocks = [location])
    (himage : s.cell.imageCache location.place.placeID = some image) :
    (∀ shown, s.cell.shown = some shown → Shows { s.cell with image := some image } shown) ↔
      s.cell.address = location.place.formattedAddress := by
  have hshown : s.cell.shown = some location := h.lastBlock location (by rw [hblocks]; rfl)
  rw [hshown]
  constructor
  · intro hshows
    exact (hshows location rfl).address
  · rintro haddress shown hlast
    obtain rfl := Option.some.inj hlast
    refine ⟨haddress, fun image' himage' => ?_⟩
    obtain rfl := Option.some.inj himage'
    exact h.imageCache _ _ himage

/-- The cell after the callback of a lookup that found a photo. -/
theorem shows_found_iff (h : Inv s) {shown : LocationRef} (hshown : s.cell.shown = some shown)
    (location : LocationRef) (payload : Payload) :
    Shows (s.cell.loadFirstPhotoCompletion location payload) shown ↔
      location.place.formattedAddress = shown.place.formattedAddress ∧
      (location.place.placeID ≠ shown.place.placeID →
        ∀ image, s.cell.image = some image → image.placeID = shown.place.placeID) := by
  have hid : s.cell.locationPlaceID = some shown.place.placeID := by
    rw [h.locationPlaceID, hshown, Option.map_some]
  by_cases hplace : shown.place.placeID = location.place.placeID
  -- the photo is shown, and it is one of the right place
  · have himage : (s.cell.loadFirstPhotoCompletion location payload).image =
        some { placeID := location.place.placeID, payload } := by
      rw [ItineraryCell.loadFirstPhotoCompletion, hid, hplace, if_pos rfl]
    constructor
    · intro hshows
      exact ⟨hshows.address, fun hne => absurd hplace.symm hne⟩
    · rintro ⟨haddress, -⟩
      refine ⟨haddress, fun image hsome => ?_⟩
      rw [himage, Option.some.injEq] at hsome
      rw [← hsome, hplace]
  -- the image stays
  · have himage : (s.cell.loadFirstPhotoCompletion location payload).image = s.cell.image := by
      rw [ItineraryCell.loadFirstPhotoCompletion, hid,
        if_neg fun heq => hplace (Option.some.inj heq)]
    constructor
    · intro hshows
      exact ⟨hshows.address, fun _ => himage ▸ hshows.image⟩
    · rintro ⟨haddress, hkept⟩
      exact ⟨haddress, himage.symm ▸ hkept (Ne.symm hplace)⟩

/-- An event that meets its condition leaves the right details, and no other event does. -/
theorem StepCase.shows_iff (h : Inv s) (hP : Settled s → ShowsLast s) {e : Event Payload}
    (hcase : StepCase s e s') : LeavesDetails s e ↔ (Settled s' → ShowsLast s') := by
  cases hcase with
  | configure location =>
    refine iff_of_true trivial fun hsettled => ?_
    exact absurd hsettled.1 (List.append_ne_nil_of_right_ne_nil _ (List.cons_ne_nil _ _))
  | ignored he =>
    refine iff_of_true ?_ hP
    rcases he with ⟨rfl, hblocks⟩ | ⟨j, payload, rfl, hj⟩
    · intro location hlast
      rw [hblocks] at hlast
      cases hlast
    -- nothing is erased by a lookup that is not there
    · cases payload with
      | none =>
        rintro - hlength rfl
        omega
      | some payload =>
        rintro - rfl location shown hlookups
        rw [hlookups] at hj
        cases hj
  | @cached location blocks image hblocks himage =>
    constructor
    · rintro hleaves ⟨rfl, hlookups⟩
      exact (shows_cached_iff h hblocks himage).mpr
        (hleaves location hblocks hlookups (by rw [himage]; rfl))
    · rintro hshows location' hblocks' hlookups -
      rw [hblocks] at hblocks'
      obtain ⟨rfl, rfl⟩ := List.cons.inj hblocks'
      exact (shows_cached_iff h hblocks himage).mp (hshows ⟨rfl, hlookups⟩)
  | @lookUp location blocks hblocks himage =>
    refine iff_of_true ?_ fun hsettled => ?_
    · rintro location' hblocks' - hcached
      rw [hblocks] at hblocks'
      obtain ⟨rfl, -⟩ := List.cons.inj hblocks'
      rw [himage] at hcached
      cases hcached
    · exact absurd hsettled.2 (List.append_ne_nil_of_right_ne_nil _ (List.cons_ne_nil _ _))
  | @failed j location hj =>
    constructor
    · rintro hleaves ⟨hblocks, hlookups⟩
      obtain ⟨hone, hzero⟩ := (eraseIdx_eq_nil_iff hj).mp hlookups
      exact hleaves hblocks (by rw [hone]; rfl) hzero
    · rintro hshows hblocks hlength rfl
      obtain ⟨other, hother⟩ := List.length_eq_one_iff.mp hlength
      exact hshows ⟨hblocks, by show s.lookups.eraseIdx 0 = []; rw [hother]; rfl⟩
  | @found j location hj payload =>
    constructor
    · rintro hleaves ⟨hblocks, hlookups⟩ shown hshown
      obtain ⟨hone, hzero⟩ := (eraseIdx_eq_nil_iff hj).mp hlookups
      exact (shows_found_iff h hshown location payload).mpr
        (hleaves hblocks hzero location shown hone hshown)
    · rintro hshows hblocks rfl location' shown hlookups hshown
      rw [hlookups] at hj
      obtain rfl : location' = location := Option.some.inj hj
      refine (shows_found_iff h hshown location' payload).mp (hshows ⟨hblocks, ?_⟩ shown hshown)
      show s.lookups.eraseIdx 0 = []
      rw [hlookups]
      rfl
  | evict placeID =>
    refine iff_of_true trivial fun hsettled location hlocation => ?_
    obtain ⟨haddress, himage⟩ := hP hsettled location hlocation
    exact ⟨haddress, himage⟩

end Step

/-- For every run of one cell: wherever no block and no lookup is pending the cell shows the details
of the location it was last configured with, if and only if every event of the run meets its
condition. -/
theorem settled_shows_iff (es : List (Event Payload)) :
    step.Always (fun s => Settled s → ShowsLast s) State.start es ↔
      step.EachStep LeavesDetails State.start es := by
  refine PartialStep.always_iff_eachStep_of_total (K := Inv) (fun s e h hP => ?_) es inv_start
    (fun _ location hlocation => by cases hlocation)
  obtain ⟨t, ht, hcase⟩ := step_cases s e
  exact ⟨t, ht, hcase.inv h, hcase.shows_iff h hP⟩

/-- The cell is reused for a second location whose lookup fails. -/
def failedReuse : List (Event Unit) :=
  [.configure ⟨0, ⟨"first", "a", some "First Street", ⟨0, 0⟩⟩⟩, .mainQueue, .lookup 0 (some ()),
    .configure ⟨1, ⟨"second", "b", some "Second Street", ⟨1, 1⟩⟩⟩, .mainQueue, .lookup 0 none]

/-- It keeps the address and the image of the first location. -/
theorem failedReuse_not_shows :
    ¬ step.Always (fun s => Settled s → ShowsLast s) (State.start : State Unit) failedReuse := by
  intro halways
  have hshows := halways.of_exec rfl ⟨rfl, rfl⟩
  have haddress := (hshows _ rfl).address
  exact absurd haddress (by decide)

end CellReuse

end DateCourse
