import DateCourse.Editor.ItineraryCell

/-!
# Recording the photos of the shown locations

A save needs a photo for every location, and the cells are what records them. Two things go wrong.
A cell that finds the photo in its own cache shows it without recording it, so a second location
with the same place is left without a photo. And a callback records at the index of the time the
cell was configured, which may be out of range, or hold another location, when locations have been
removed in between.

## Main definitions

* `OwnPhotos`: every photo of the itinerary is one of its location's place;
* `ShownRecorded`: with nothing pending, every shown location has a photo;
* `RecordsOwn` and `RecordsShown`: the conditions on one step.

## Main results

* `step_refines` and `exec_refines`: each event is an operation of `CurrentItinerary`, or leaves it
  alone, and a run is a sequence of them;
* `ownPhotos_iff`: the exact condition for the first property, traps included;
* `shown_recorded`: when every step meets `RecordsShown`, both properties always hold.
-/

namespace DateCourse.Cells

variable {Payload : Type}

/-- Any photo held by a location of the itinerary is an image of its place. -/
def OwnPhotos (s : State Payload) : Prop :=
  ∀ location ∈ s.locations, ∀ photo, s.firstPhoto location.id = some photo →
    photo.placeID = location.place.placeID

/-- When no block and no lookup is pending, every location that a cell shows has a photo. -/
def ShownRecorded (s : State Payload) : Prop :=
  s.blocks = [] → s.lookups = [] → ∀ k location, (s.cells k).shown = some location →
    s.firstPhoto location.id ≠ none

/-- The condition for recording photos of the right place: when a lookup calls back in a cell that
is still on its place, there is a location of that place at its index. -/
def RecordsOwn (s : State Payload) : Event Payload → Prop
  | .lookup j _ => ∀ r, s.lookups[j]? = some r →
    (s.cells r.cell).locationPlaceID = some r.location.place.placeID →
      ∃ location, s.locations[r.index]? = some location ∧
        location.place.placeID = r.location.place.placeID
  | _ => True

/-- What a location shown by cell `k` waits for: it has a photo, or a block or a lookup of the cell
is still to come for it. -/
def State.Served (s : State Payload) (k : ℕ) (location : LocationRef) : Prop :=
  s.firstPhoto location.id ≠ none ∨
    ∃ r ∈ s.blocks ++ s.lookups, r.cell = k ∧ r.location = location

/-- The condition for recording a photo of every shown location. A block that finds a photo in the
cache, or a callback that records in another location, is not the last request for a location that
its cell still shows without photo; and the callbacks meet `RecordsOwn`. -/
def RecordsShown (s : State Payload) : Event Payload → Prop
  | .mainQueue => ∀ r blocks, s.blocks = r :: blocks →
    (s.cells r.cell).imageCache r.location.place.placeID ≠ none →
      (s.cells r.cell).shown = some r.location → { s with blocks }.Served r.cell r.location
  | .lookup j _ => ∀ r, s.lookups[j]? = some r →
    (s.cells r.cell).locationPlaceID = some r.location.place.placeID →
      ∃ location, s.locations[r.index]? = some location ∧
        location.place.placeID = r.location.place.placeID ∧
          ((s.cells r.cell).shown = some r.location → location = r.location ∨
            { s with lookups := s.lookups.eraseIdx j }.Served r.cell r.location)
  | _ => True

/-- The references of the itinerary are distinct objects, and new objects have no photo. -/
structure Inv (s : State Payload) : Prop where
  nodup : (s.locations.map (·.id)).Nodup
  fresh : ∀ location ∈ s.locations, location.id < s.nextId
  unused : ∀ id, s.nextId ≤ id → s.firstPhoto id = none

/-- Each cell is on the place of the location it shows, and that location is served. -/
def ShownServed (s : State Payload) : Prop :=
  ∀ k location, (s.cells k).shown = some location →
    (s.cells k).locationPlaceID = some location.place.placeID ∧ s.Served k location

/-! ## The first state -/

section Start

variable (places : List (GMSPlace × Option Payload))

theorem inv_start : Inv (State.start places) := by
  refine ⟨?_, fun location hlocation => ?_, fun id hid => ?_⟩
  · have hids : (State.start places).locations.map (·.id) = List.range places.length := by
      rw [State.start, List.map_map, List.range_eq_range', ← List.zipIdx_map_snd]
      rfl
    rw [hids]
    exact List.nodup_range
  · obtain ⟨p, hp, rfl⟩ := List.mem_map.mp hlocation
    exact (List.getElem?_eq_some_iff.mp (List.mem_zipIdx_iff_getElem?.mp hp)).1
  · have hnone : places[id]? = none := List.getElem?_eq_none hid
    simp [State.start, hnone]

theorem ownPhotos_start : OwnPhotos (State.start places) := by
  intro location hlocation photo hphoto
  obtain ⟨p, hp, rfl⟩ := List.mem_map.mp hlocation
  have hget := List.mem_zipIdx_iff_getElem?.mp hp
  simp only [State.start, hget, Option.bind_some, Option.map_eq_some_iff] at hphoto
  obtain ⟨payload, -, rfl⟩ := hphoto
  rfl

theorem shownServed_start : ShownServed (State.start places) := by
  intro k location hshown
  cases hshown

end Start

/-! ## Recording a photo -/

section Step

variable {s s' : State Payload}

/-- Two references of the itinerary to one object are the same. -/
theorem Inv.eq_of_id_eq (h : Inv s) {location location' : LocationRef}
    (hl : location ∈ s.locations) (hl' : location' ∈ s.locations)
    (hid : location.id = location'.id) : location = location' :=
  List.inj_on_of_nodup_map h.nodup hl hl' hid

theorem inv_record (h : Inv s) {index : ℕ} {location : LocationRef}
    (hlocation : s.locations[index]? = some location) (image : PlacePhoto Payload)
    (cells : ℕ → ItineraryCell Payload) (blocks lookups : List Request) :
    Inv { s with firstPhoto := Function.update s.firstPhoto location.id (some image),
                 cells, blocks, lookups } := by
  refine ⟨h.nodup, h.fresh, fun id hid => ?_⟩
  have hlt := h.fresh location (List.mem_of_getElem? hlocation)
  have hle : s.nextId ≤ id := hid
  have hne : id ≠ location.id := by omega
  exact (Function.update_of_ne hne _ _).trans (h.unused id hid)

/-- A photo recorded in a location is seen through that location only. -/
theorem ownPhotos_record_iff (h : Inv s) (hown : OwnPhotos s) {index : ℕ} {location : LocationRef}
    (hlocation : s.locations[index]? = some location) (image : PlacePhoto Payload)
    (cells : ℕ → ItineraryCell Payload) (blocks lookups : List Request) :
    OwnPhotos { s with firstPhoto := Function.update s.firstPhoto location.id (some image),
                       cells, blocks, lookups } ↔
      image.placeID = location.place.placeID := by
  have hmem := List.mem_of_getElem? hlocation
  constructor
  · intro hall
    exact hall location hmem image (Function.update_self location.id (some image) s.firstPhoto)
  · intro himage location' hlocation' photo hphoto
    -- the photo is seen through the recorded object only
    by_cases hid : location'.id = location.id
    · obtain rfl := h.eq_of_id_eq hlocation' hmem hid
      have hphoto' : some image = some photo :=
        (Function.update_self location'.id (some image) s.firstPhoto).symm.trans hphoto
      rw [← Option.some.inj hphoto']
      exact himage
    · have hphoto' := (Function.update_of_ne hid (some image) s.firstPhoto).symm.trans hphoto
      exact hown location' hlocation' photo hphoto'

/-- The cells differ in their contents only. -/
def SameCells (cells cells' : ℕ → ItineraryCell Payload) : Prop :=
  ∀ k, (cells' k).shown = (cells k).shown ∧ (cells' k).locationPlaceID = (cells k).locationPlaceID

theorem SameCells.trans {cells cells' cells'' : ℕ → ItineraryCell Payload}
    (h : SameCells cells cells') (h' : SameCells cells' cells'') : SameCells cells cells'' :=
  fun k => ⟨(h' k).1.trans (h k).1, (h' k).2.trans (h k).2⟩

theorem sameCells_updateCell (s : State Payload) (k : ℕ)
    {f : ItineraryCell Payload → ItineraryCell Payload}
    (hf : ∀ cell, (f cell).shown = cell.shown ∧ (f cell).locationPlaceID = cell.locationPlaceID) :
    SameCells s.cells (s.updateCell k f).cells := by
  intro j
  by_cases hj : j = k
  · subst hj
    have hcell : (s.updateCell j f).cells j = f (s.cells j) := Function.update_self _ _ _
    rw [hcell]
    exact hf _
  · have hcell : (s.updateCell k f).cells j = s.cells j := Function.update_of_ne hj _ _
    rw [hcell]
    exact ⟨rfl, rfl⟩

theorem sameCells_finishLookup (s : State Payload) (r : Request) (image : PlacePhoto Payload) :
    SameCells s.cells (finishLookup s r image).cells :=
  sameCells_updateCell s r.cell (by exact fun cell => ⟨rfl, rfl⟩)

/-- A callback in a cell that is no longer on its place records nothing. -/
theorem completion_of_stale {r : Request} (payload : Payload)
    (hstale : (s.cells r.cell).locationPlaceID ≠ some r.location.place.placeID) :
    ∃ cells, SameCells s.cells cells ∧
      loadFirstPhotoCompletion s r payload = some { s with cells } :=
  ⟨_, sameCells_finishLookup s r ⟨r.location.place.placeID, payload⟩, if_neg hstale⟩

/-- A callback in a cell that is still on its place records the photo at its index. -/
theorem completion_of_current {r : Request} (payload : Payload)
    (hcurrent : (s.cells r.cell).locationPlaceID = some r.location.place.placeID) :
    ∃ cells, SameCells s.cells cells ∧
      loadFirstPhotoCompletion s r payload = s.locations[r.index]?.map fun location =>
        { s with cells, firstPhoto := Function.update s.firstPhoto location.id
                   (some { placeID := r.location.place.placeID, payload }) } := by
  set image : PlacePhoto Payload := { placeID := r.location.place.placeID, payload } with himage
  set s₁ := s.updateCell r.cell fun cell => { cell with image := some image } with hs₁
  have hsame : SameCells s.cells s₁.cells :=
    sameCells_updateCell s r.cell (by exact fun cell => ⟨rfl, rfl⟩)
  refine ⟨_, hsame.trans (sameCells_finishLookup s₁ r image), (if_pos hcurrent).trans ?_⟩
  rw [State.addPhotoToLocation, Option.map_map]
  rfl

theorem inv_of_sublist (h : Inv s) {locations : List LocationRef}
    (hsub : locations.Sublist s.locations) : Inv { s with locations } :=
  ⟨h.nodup.sublist (hsub.map _),
    fun location hlocation => h.fresh location (hsub.subset hlocation), h.unused⟩

theorem ownPhotos_of_sublist (h : OwnPhotos s) {locations : List LocationRef}
    (hsub : locations.Sublist s.locations) : OwnPhotos { s with locations } :=
  fun location hlocation => h location (hsub.subset hlocation)

theorem mem_addLocation {place : GMSPlace} {location : LocationRef}
    (hlocation : location ∈ (s.addLocation place).locations) :
    location ∈ s.locations ∨ location = { id := s.nextId, place } := by
  simpa [State.addLocation] using hlocation

theorem inv_addLocation (h : Inv s) (place : GMSPlace) : Inv (s.addLocation place) := by
  refine ⟨?_, fun location hlocation => ?_, fun id hid => h.unused id (Nat.le_of_succ_le hid)⟩
  · -- the new object differs from all others
    rw [State.addLocation, List.map_append, List.nodup_append]
    refine ⟨h.nodup, List.nodup_singleton _, fun id hid id' hid' => ?_⟩
    obtain ⟨location, hlocation, rfl⟩ := List.mem_map.mp hid
    have hlt := h.fresh location hlocation
    have hnew : id' = s.nextId := by simpa using hid'
    omega
  · show location.id < s.nextId + 1
    rcases mem_addLocation hlocation with hold | rfl
    · exact Nat.lt_succ_of_lt (h.fresh location hold)
    · exact Nat.lt_succ_self _

theorem ownPhotos_addLocation (h : Inv s) (hown : OwnPhotos s) (place : GMSPlace) :
    OwnPhotos (s.addLocation place) := by
  intro location hlocation photo hphoto
  rcases mem_addLocation hlocation with hold | rfl
  · exact hown location hold photo hphoto
  · -- a new object has no photo
    have hnone : s.firstPhoto s.nextId = none := h.unused s.nextId le_rfl
    exact absurd (hnone.symm.trans hphoto) (by simp)

/-- Every event keeps the objects of the itinerary distinct. -/
theorem inv_step (h : Inv s) {e : Event Payload} (hs' : step s e = some s') : Inv s' := by
  have hsame : ∀ (cells : ℕ → ItineraryCell Payload) (blocks lookups : List Request),
      Inv { s with cells, blocks, lookups } := fun _ _ _ => ⟨h.nodup, h.fresh, h.unused⟩
  cases e with
  | addLocation place => exact Option.some.inj hs' ▸ inv_addLocation h place
  | removeLocation =>
    rw [← Option.some.inj hs']
    unfold State.removeLocation
    split
    · exact h
    · exact inv_of_sublist h (List.dropLast_sublist _)
  | removeAllLocations => exact Option.some.inj hs' ▸ inv_of_sublist h (List.nil_sublist _)
  | configure k index =>
    simp only [step] at hs'
    split at hs'
    · exact Option.some.inj hs' ▸ hsame _ _ _
    · exact Option.some.inj hs' ▸ h
  | endDisplaying k => exact Option.some.inj hs' ▸ hsame _ _ _
  | mainQueue =>
    simp only [step] at hs'
    split at hs'
    · rw [← Option.some.inj hs']
      unfold configureBlock
      split
      · exact hsame _ _ _
      · exact hsame _ _ _
    · exact Option.some.inj hs' ▸ h
  | lookup j payload =>
    simp only [step] at hs'
    split at hs'
    next r hj =>
      by_cases hcurrent : (s.cells r.cell).locationPlaceID = some r.location.place.placeID
      · -- a photo is only recorded in an object of the itinerary
        obtain ⟨cells, -, hstep⟩ := completion_of_current
          (s := { s with lookups := s.lookups.eraseIdx j }) payload hcurrent
        rw [hstep] at hs'
        obtain ⟨location, hlocation, rfl⟩ := Option.map_eq_some_iff.mp hs'
        exact inv_record h hlocation _ _ _ _
      · obtain ⟨cells, -, hstep⟩ := completion_of_stale
          (s := { s with lookups := s.lookups.eraseIdx j }) payload hcurrent
        rw [hstep] at hs'
        exact Option.some.inj hs' ▸ hsame _ _ _
    next => exact Option.some.inj hs' ▸ h
  | evict k placeID => exact Option.some.inj hs' ▸ hsame _ _ _

/-- The event is the callback of a lookup. -/
def Event.isLookup : Event Payload → Bool
  | .lookup .. => true
  | _ => false

/-- Only a callback can trap or record a photo. -/
theorem own_step (h : Inv s) (hown : OwnPhotos s) {e : Event Payload} (he : e.isLookup = false) :
    ∃ s', step s e = some s' ∧ OwnPhotos s' := by
  cases e with
  | addLocation place => exact ⟨_, rfl, ownPhotos_addLocation h hown place⟩
  | removeLocation =>
    refine ⟨_, rfl, ?_⟩
    unfold State.removeLocation
    split
    · exact hown
    · exact ownPhotos_of_sublist hown (List.dropLast_sublist _)
  | removeAllLocations => exact ⟨_, rfl, ownPhotos_of_sublist hown (List.nil_sublist _)⟩
  | configure k index =>
    simp only [step]
    split <;> exact ⟨_, rfl, hown⟩
  | endDisplaying k => exact ⟨_, rfl, hown⟩
  | mainQueue =>
    simp only [step]
    split
    · refine ⟨_, rfl, ?_⟩
      unfold configureBlock
      split <;> exact hown
    · exact ⟨_, rfl, hown⟩
  | lookup j payload => cases he
  | evict k placeID => exact ⟨_, rfl, hown⟩

/-- A callback traps or records a photo of another place exactly when `RecordsOwn` fails. -/
theorem own_lookup_iff (h : Inv s) (hown : OwnPhotos s) (j : ℕ) (payload : Payload) :
    RecordsOwn s (.lookup j payload) ↔
      ∃ s', step s (.lookup j payload) = some s' ∧ OwnPhotos s' := by
  simp only [step, RecordsOwn]
  cases hj : s.lookups[j]? with
  | none => exact iff_of_true (by simp) ⟨s, rfl, hown⟩
  | some r =>
    simp only [Option.some.injEq, forall_eq']
    by_cases hcurrent : (s.cells r.cell).locationPlaceID = some r.location.place.placeID
    · obtain ⟨cells, -, hstep⟩ := completion_of_current
        (s := { s with lookups := s.lookups.eraseIdx j }) payload hcurrent
      -- the callback records, if there is a location at its index
      rw [hstep]
      simp only [hcurrent, forall_const]
      cases hlocation : s.locations[r.index]? with
      | none => simp
      | some location =>
        simp only [Option.map_some, Option.some.injEq, exists_eq_left']
        rw [ownPhotos_record_iff h hown hlocation]
        exact eq_comm
    · obtain ⟨cells, -, hstep⟩ := completion_of_stale
        (s := { s with lookups := s.lookups.eraseIdx j }) payload hcurrent
      -- the callback records nothing
      rw [hstep]
      exact iff_of_true (fun hne => absurd hne hcurrent) ⟨_, rfl, hown⟩

/-- One event traps or records a photo of another place exactly when `RecordsOwn` fails. -/
theorem own_iff (h : Inv s) (hown : OwnPhotos s) (e : Event Payload) :
    RecordsOwn s e ↔ ∃ s', step s e = some s' ∧ OwnPhotos s' := by
  by_cases he : e.isLookup = false
  · refine iff_of_true ?_ (own_step h hown he)
    cases e with
    | lookup j payload => cases he
    | _ => trivial
  · cases e with
    | lookup j payload => exact own_lookup_iff h hown j payload
    | _ => exact absurd rfl he

end Step

/-- No callback is out of range, and every photo of the itinerary is one of its location's place, if
and only if every callback in a cell still on its place finds a location of that place at its
index. -/
theorem ownPhotos_iff (places : List (GMSPlace × Option Payload)) (es : List (Event Payload)) :
    step.Always OwnPhotos (State.start places) es ↔
      step.EachStep RecordsOwn (State.start places) es :=
  PartialStep.always_iff_eachStep (K := Inv) (fun _ _ _ hK _ _ hs' => inv_step hK hs')
    (fun _ e hK hP => own_iff hK hP e) es (inv_start places) (ownPhotos_start places)

/-! ## What the cells do to the itinerary -/

/-- A change of the itinerary by one of its own operations, or none. -/
inductive ItineraryChange {Image : Type} (itinerary : CurrentItinerary Image) :
    CurrentItinerary Image → Prop
  | unchanged : ItineraryChange itinerary itinerary
  | addLocation (place : GMSPlace) : ItineraryChange itinerary (itinerary.addLocation place)
  | removeLocation {itinerary' : CurrentItinerary Image}
      (h : itinerary.removeLocation = some itinerary') : ItineraryChange itinerary itinerary'
  | removeAllLocations : ItineraryChange itinerary itinerary.removeAllLocations
  | addPhotoToLocation {itinerary' : CurrentItinerary Image} (index : ℕ) (image : Image)
      (h : itinerary.addPhotoToLocation index image = some itinerary') :
      ItineraryChange itinerary itinerary'

/-- Every event of the machine with references is an operation of `CurrentItinerary`. -/
theorem step_refines {s s' : State Payload} (h : Inv s) {e : Event Payload}
    (hs' : step s e = some s') : ItineraryChange s.itinerary s'.itinerary := by
  cases e with
  | addLocation place =>
    rw [← Option.some.inj hs', itinerary_addLocation (h.unused s.nextId le_rfl)]
    exact .addLocation place
  | removeLocation =>
    rw [← Option.some.inj hs']
    cases hremove : s.removeLocation with
    | none => exact .unchanged
    | some t =>
      refine .removeLocation ?_
      rw [← itinerary_removeLocation, hremove]
      rfl
  | removeAllLocations =>
    rw [← Option.some.inj hs', itinerary_removeAllLocations]
    exact .removeAllLocations
  | configure k index =>
    simp only [step] at hs'
    split at hs' <;> exact Option.some.inj hs' ▸ .unchanged
  | endDisplaying k => exact Option.some.inj hs' ▸ .unchanged
  | mainQueue =>
    simp only [step] at hs'
    split at hs'
    · rw [← Option.some.inj hs']
      unfold configureBlock
      split <;> exact .unchanged
    · exact Option.some.inj hs' ▸ .unchanged
  | lookup j payload =>
    simp only [step] at hs'
    split at hs'
    next r hj =>
      by_cases hcurrent : (s.cells r.cell).locationPlaceID = some r.location.place.placeID
      · -- the object at the captured index gets the photo
        obtain ⟨cells, -, hstep⟩ := completion_of_current
          (s := { s with lookups := s.lookups.eraseIdx j }) payload hcurrent
        rw [hstep] at hs'
        obtain ⟨location, hlocation, rfl⟩ := Option.map_eq_some_iff.mp hs'
        refine .addPhotoToLocation r.index ⟨r.location.place.placeID, payload⟩ ?_
        rw [← itinerary_addPhotoToLocation h.nodup, State.addPhotoToLocation,
          show s.locations[r.index]? = some location from hlocation]
        rfl
      · obtain ⟨cells, -, hstep⟩ := completion_of_stale
          (s := { s with lookups := s.lookups.eraseIdx j }) payload hcurrent
        rw [hstep] at hs'
        exact Option.some.inj hs' ▸ .unchanged
    next => exact Option.some.inj hs' ▸ .unchanged
  | evict k placeID => exact Option.some.inj hs' ▸ .unchanged

/-- What a run makes of the itinerary, the operations of `CurrentItinerary` can make of it. -/
theorem exec_refines (places : List (GMSPlace × Option Payload)) (es : List (Event Payload))
    {s : State Payload} (hs : step.exec (State.start places) es = some s) :
    Relation.ReflTransGen ItineraryChange (State.start places).itinerary s.itinerary :=
  PartialStep.exec_simulates (K := Inv) (fun _ _ _ hK hs' => inv_step hK hs')
    (fun _ _ _ hK hs' => step_refines hK hs') es (inv_start places) hs

/-! ## The shown locations -/

section Shown

variable {s s' : State Payload}

/-- With nothing pending, a shown location that is served has its photo. -/
theorem ShownServed.shownRecorded (h : ShownServed s) : ShownRecorded s := by
  intro hblocks hlookups k location hshown
  obtain ⟨-, hphoto | ⟨r, hr, -⟩⟩ := h k location hshown
  · exact hphoto
  · simp [hblocks, hlookups] at hr

theorem recordsOwn_of_recordsShown {e : Event Payload} (h : RecordsShown s e) : RecordsOwn s e := by
  cases e with
  | lookup j payload =>
    intro r hr hcurrent
    obtain ⟨location, hlocation, hplace, -⟩ := h r hr hcurrent
    exact ⟨location, hlocation, hplace⟩
  | _ => trivial

/-- Photos are only added, and a request leaves the queues only when the location its cell shows
stays served without it. -/
theorem ShownServed.advance (h : ShownServed s) (hcells : SameCells s.cells s'.cells)
    (hphoto : ∀ id, s.firstPhoto id ≠ none → s'.firstPhoto id ≠ none)
    (hpending : ∀ r ∈ s.blocks ++ s.lookups, r ∈ s'.blocks ++ s'.lookups ∨
      ((s.cells r.cell).shown = some r.location → s'.Served r.cell r.location)) :
    ShownServed s' := by
  intro k location hshown
  rw [(hcells k).1] at hshown
  -- a shown location is served by its photo, or by a request that is kept or replaced
  obtain ⟨hplace, hserved⟩ := h k location hshown
  refine ⟨(hcells k).2.trans hplace, ?_⟩
  rcases hserved with hhas | ⟨r, hr, rfl, rfl⟩
  · exact Or.inl (hphoto _ hhas)
  · rcases hpending r hr with hkept | hserved
    · exact Or.inr ⟨r, hkept, rfl, rfl⟩
    · exact hserved hshown

/-- A change that leaves photos, cells and queues alone leaves every location served. -/
theorem ShownServed.frame (h : ShownServed s) (hcells : SameCells s.cells s'.cells)
    (hphoto : s'.firstPhoto = s.firstPhoto) (hblocks : s'.blocks = s.blocks)
    (hlookups : s'.lookups = s.lookups) : ShownServed s' := by
  refine h.advance hcells (fun id hid => hphoto ▸ hid) fun r hr => Or.inl ?_
  rw [hblocks, hlookups]
  exact hr

theorem sameCells_refl (cells : ℕ → ItineraryCell Payload) : SameCells cells cells :=
  fun _ => ⟨rfl, rfl⟩

/-- The location that a cell is configured with is served by the block of that call. -/
theorem shownServed_configure (h : ShownServed s) (k index : ℕ) (location : LocationRef) :
    ShownServed (configure s k index location) := by
  intro j shown hshown
  by_cases hj : j = k
  · subst hj
    have hcell : (configure s j index location).cells j =
        { s.cells j with locationPlaceID := some location.place.placeID, shown := some location } :=
      Function.update_self _ _ _
    rw [hcell] at hshown ⊢
    obtain rfl : location = shown := Option.some.inj hshown
    exact ⟨rfl, Or.inr ⟨{ cell := j, location, index }, by simp [configure], rfl, rfl⟩⟩
  · have hcell : (configure s k index location).cells j = s.cells j := Function.update_of_ne hj _ _
    rw [hcell] at hshown ⊢
    obtain ⟨hplace, hserved⟩ := h j shown hshown
    refine ⟨hplace, hserved.imp id ?_⟩
    rintro ⟨r, hr, hrcell, hrlocation⟩
    refine ⟨r, ?_, hrcell, hrlocation⟩
    show r ∈ (s.blocks ++ [_]) ++ s.lookups
    rcases List.mem_append.mp hr with hblock | hlookup
    · exact List.mem_append_left _ (List.mem_append_left _ hblock)
    · exact List.mem_append_right _ hlookup

/-- A cell that leaves the screen shows no location any more. -/
theorem shownServed_endDisplaying (h : ShownServed s) (k : ℕ) :
    ShownServed (s.updateCell k fun cell => { cell with shown := none }) := by
  intro j location hshown
  have hcells : (s.updateCell k fun cell => { cell with shown := none }).cells =
      Function.update s.cells k { s.cells k with shown := none } := rfl
  rw [hcells] at hshown ⊢
  by_cases hj : j = k
  · subst hj
    rw [Function.update_self] at hshown
    cases hshown
  · rw [Function.update_of_ne hj] at hshown ⊢
    exact h j location hshown

theorem shownServed_block (h : ShownServed s) {r : Request} {blocks : List Request}
    (hblocks : s.blocks = r :: blocks) (hC : RecordsShown s .mainQueue) :
    ShownServed (configureBlock { s with blocks } r) := by
  unfold configureBlock
  split
  next image hcache =>
    -- the cached image is shown, and the request is gone
    have hcached : (s.cells r.cell).imageCache r.location.place.placeID ≠ none :=
      Option.ne_none_iff_exists'.mpr ⟨image, hcache⟩
    have hcells := sameCells_updateCell { s with blocks } r.cell
      (f := fun cell => { cell with image := some image }) fun cell => ⟨rfl, rfl⟩
    refine h.advance hcells (fun id hid => hid) fun r' hr' => ?_
    rw [hblocks, List.cons_append, List.mem_cons] at hr'
    rcases hr' with rfl | hrest
    · exact Or.inr (hC r' blocks hblocks hcached)
    · exact Or.inl hrest
  next hcache =>
    -- the request moves to the lookups
    refine h.advance (sameCells_refl _) (fun id hid => hid) fun r' hr' => Or.inl ?_
    rw [hblocks] at hr'
    show r' ∈ blocks ++ (s.lookups ++ [r])
    simp only [List.cons_append, List.mem_cons, List.mem_append] at hr' ⊢
    tauto

/-- A request other than the one that calls back stays pending. -/
theorem mem_of_eraseIdx {r r' : Request} {j : ℕ} (hj : s.lookups[j]? = some r)
    (hr' : r' ∈ s.blocks ++ s.lookups) :
    r' = r ∨ r' ∈ s.blocks ++ s.lookups.eraseIdx j := by
  rcases List.mem_append.mp hr' with hblock | hlookup
  · exact Or.inr (List.mem_append_left _ hblock)
  · obtain ⟨i, hi⟩ := List.mem_iff_getElem?.mp hlookup
    by_cases hij : i = j
    · subst hij
      exact Or.inl (Option.some.inj (hi.symm.trans hj))
    · exact Or.inr (List.mem_append_right _ (List.mem_eraseIdx_iff_getElem?.mpr ⟨i, hij, hi⟩))

theorem shownServed_lookup (h : ShownServed s) {j : ℕ} {payload : Payload}
    (hC : RecordsShown s (.lookup j payload)) (hs' : step s (.lookup j payload) = some s') :
    ShownServed s' := by
  simp only [step] at hs'
  split at hs'
  next r hj =>
    by_cases hcurrent : (s.cells r.cell).locationPlaceID = some r.location.place.placeID
    · obtain ⟨location, hlocation, -, hshown⟩ := hC r hj hcurrent
      obtain ⟨cells, hsame, hstep⟩ := completion_of_current
        (s := { s with lookups := s.lookups.eraseIdx j }) payload hcurrent
      rw [hstep, show s.locations[r.index]? = some location from hlocation] at hs'
      obtain rfl := Option.some.inj hs'
      -- a photo is recorded over another one, never taken away
      have hphoto : ∀ id, s.firstPhoto id ≠ none →
          Function.update s.firstPhoto location.id
            (some { placeID := r.location.place.placeID, payload }) id ≠ none := by
        intro id hid
        by_cases heq : id = location.id
        · simp [heq]
        · rwa [Function.update_of_ne heq]
      refine h.advance hsame hphoto fun r' hr' => ?_
      rcases mem_of_eraseIdx hj hr' with rfl | hrest
      · refine Or.inr fun hr'shown => ?_
        rcases hshown hr'shown with rfl | hserved
        · -- the photo is recorded in the shown location
          exact Or.inl (by simp)
        · exact hserved.imp (hphoto _) id
      · exact Or.inl hrest
    · obtain ⟨cells, hsame, hstep⟩ := completion_of_stale
        (s := { s with lookups := s.lookups.eraseIdx j }) payload hcurrent
      rw [hstep] at hs'
      obtain rfl := Option.some.inj hs'
      refine h.advance hsame (fun id hid => hid) fun r' hr' => ?_
      rcases mem_of_eraseIdx hj hr' with rfl | hrest
      · -- a cell that shows the location of the request is on its place
        exact Or.inr fun hr'shown => absurd (h _ _ hr'shown).1 hcurrent
      · exact Or.inl hrest
  next => exact Option.some.inj hs' ▸ h

/-- One event that meets the condition keeps every shown location served. -/
theorem shownServed_step (h : ShownServed s) {e : Event Payload}
    (hC : RecordsShown s e) (hs' : step s e = some s') : ShownServed s' := by
  cases e with
  | addLocation place =>
    obtain rfl := Option.some.inj hs'
    exact h.frame (sameCells_refl _) rfl rfl rfl
  | removeLocation =>
    obtain rfl := Option.some.inj hs'
    unfold State.removeLocation
    split
    · exact h
    · exact h.frame (sameCells_refl _) rfl rfl rfl
  | removeAllLocations =>
    obtain rfl := Option.some.inj hs'
    exact h.frame (sameCells_refl _) rfl rfl rfl
  | configure k index =>
    simp only [step] at hs'
    split at hs'
    · exact Option.some.inj hs' ▸ shownServed_configure h k index _
    · exact Option.some.inj hs' ▸ h
  | endDisplaying k => exact Option.some.inj hs' ▸ shownServed_endDisplaying h k
  | mainQueue =>
    simp only [step] at hs'
    split at hs'
    next r blocks hblocks => exact Option.some.inj hs' ▸ shownServed_block h hblocks hC
    next => exact Option.some.inj hs' ▸ h
  | lookup j payload => exact shownServed_lookup h hC hs'
  | evict k placeID =>
    obtain rfl := Option.some.inj hs'
    exact h.frame (sameCells_updateCell s k (by exact fun cell => ⟨rfl, rfl⟩)) rfl rfl rfl

/-- One event that meets the condition does not trap, and keeps the three facts. -/
theorem step_of_recordsShown (hinv : Inv s) (hown : OwnPhotos s) (hserved : ShownServed s)
    {e : Event Payload} (hC : RecordsShown s e) :
    ∃ s', step s e = some s' ∧ Inv s' ∧ OwnPhotos s' ∧ ShownServed s' := by
  obtain ⟨s', hs', hown'⟩ := (own_iff hinv hown e).mp (recordsOwn_of_recordsShown hC)
  exact ⟨s', hs', inv_step hinv hs', hown', shownServed_step hserved hC hs'⟩

end Shown

/-- In a run whose steps all meet `RecordsShown` nothing traps, every photo of the itinerary is one
of its location's place, and whenever nothing is pending every shown location has a photo. -/
theorem shown_recorded (places : List (GMSPlace × Option Payload)) (es : List (Event Payload))
    (h : step.EachStep RecordsShown (State.start places) es) :
    step.Always (fun s => OwnPhotos s ∧ ShownRecorded s) (State.start places) es := by
  refine PartialStep.always_of_eachStep (K := fun s => Inv s ∧ OwnPhotos s ∧ ShownServed s)
    ?_ ?_ es ⟨inv_start places, ownPhotos_start places, shownServed_start places⟩ h
  · rintro s ⟨-, hown, hserved⟩
    exact ⟨hown, hserved.shownRecorded⟩
  · rintro s e ⟨hinv, hown, hserved⟩ hC
    exact step_of_recordsShown hinv hown hserved hC

/-- A place to run the examples on. -/
def cafe : GMSPlace :=
  { name := "Cafe", placeID := "cafe", formattedAddress := none, coordinate := ⟨0, 0⟩ }

/-- One location, whose photo arrives. -/
def oneStop : List (Event Unit) :=
  [.addLocation cafe, .configure 0 0, .mainQueue, .lookup 0 ()]

/-- In the run with one location the lookup meets the condition, and the shown photo is recorded. -/
theorem shown_recorded_oneStop :
    step.EachStep RecordsShown (State.start []) oneStop ∧
      step.Always (fun s => OwnPhotos s ∧ ShownRecorded s) (State.start []) oneStop := by
  have hC : step.EachStep RecordsShown (State.start []) oneStop := by
    refine ⟨trivial, fun s hs => ?_⟩
    obtain rfl := Option.some.inj hs
    refine ⟨trivial, fun s hs => ?_⟩
    obtain rfl := Option.some.inj hs
    refine ⟨fun r blocks hblocks hcache => ?_, fun s hs => ?_⟩
    · -- the cache of a new cell is empty
      obtain ⟨rfl, -⟩ := List.cons.inj hblocks
      exact absurd rfl hcache
    obtain rfl := Option.some.inj hs
    refine ⟨fun r hr _ => ?_, fun _ _ => trivial⟩
    obtain rfl := Option.some.inj hr
    exact ⟨{ id := 0, place := cafe }, rfl, rfl, fun _ => Or.inl rfl⟩
  exact ⟨hC, shown_recorded [] oneStop hC⟩

/-- The same place twice: the cell that has loaded its photo for the first location is reused for
the second. -/
def samePlaceTwice : List (Event Unit) :=
  [.addLocation cafe, .addLocation cafe, .configure 0 0, .mainQueue, .lookup 0 (),
    .endDisplaying 0, .configure 0 1, .mainQueue]

/-- The reused cell shows the photo from its cache, and the second location has none recorded. -/
theorem samePlaceTwice_not_shownRecorded :
    ¬ step.Always (fun s => OwnPhotos s ∧ ShownRecorded s) (State.start []) samePlaceTwice := by
  intro h
  obtain ⟨s, hs⟩ := Option.isSome_iff_exists.mp h.isSome_exec
  obtain ⟨-, hrecorded⟩ := h.of_exec hs
  obtain rfl := Option.some.inj hs
  exact hrecorded rfl rfl 0 { id := 1, place := cafe } rfl rfl

end DateCourse.Cells
