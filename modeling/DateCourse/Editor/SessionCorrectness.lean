import DateCourse.Editor.SaveCorrectness
import DateCourse.Editor.Session
import DateCourse.Editor.Table

/-!
# What one session leaves to the next

Nothing empties `CurrentItinerary.shared` when a session ends. A session is isolated from the
earlier ones, and its table has the Add row at its end, exactly when the editor is presented while
the shared itinerary is still empty.

## Main definitions

* `Session.Isolated`: an editor that found nothing and registers the photos of its own picks;
* `Session.PresentsOnEmpty`: the condition on presenting an editor;
* `Session.IsolatedStep`: the same together with the condition on the saves of one controller;
* `Session.NonePicked`: no editor has picked a place.

## Main results

* `Session.places_prefix_of_exec`: nothing takes a place out of the shared itinerary;
* `Session.isEmpty_iff_nonePicked`: it is empty as long as no editor has picked a place;
* `Session.isolated_iff`: when the sessions of a run are isolated;
* `Session.tableWellFormed_iff_presentsOnEmpty`: when the table on screen is as it should be.
-/

namespace DateCourse.Session

open AddCourseItineraryViewController Save SavingController

variable {Image Data : Type} {services : Services Image Data}

/-- The images of a registered course are the URLs of photos of exactly the places picked in its
session, in the order they were picked. -/
structure HasPhotosOfPicks (services : Services Image Data) (r : Registration Image Data) :
    Prop where
  images : r.course.lookup "images" =
    some (.strings (r.images.map fun ref => services.absoluteString ref.name))
  picked : r.images.map (·.location.place) = r.picked

/-- The session of an editor is isolated: the itinerary held nothing when it started, and the
courses that it has registered have the photos of the places picked in it. -/
structure Isolated (services : Services Image Data) (editor : Editor Image Data) : Prop where
  foundPlaces : editor.foundPlaces = []
  foundMarkers : editor.foundMarkers = []
  registered : ∀ r ∈ editor.saving.registered, HasPhotosOfPicks services r

/-- The condition on presenting an editor: the shared itinerary has no location. -/
def PresentsOnEmpty (s : State Image Data) : Event Image → Prop
  | .shouldSelect => s.onScreen = none → s.itinerary.isEmpty = true
  | _ => True

/-- The condition for isolated sessions: an editor is presented only on an empty itinerary, and a
controller that registers a course has recorded only photos of the attempt that registers it. -/
def IsolatedStep (s : State Image Data) : Event Image → Prop
  | .shouldSelect => s.onScreen = none → s.itinerary.isEmpty = true
  | .controller k e => ∀ editor, s.editors[k]? = some editor →
    RecordsAlone ⟨s.itinerary, s.currentUser, editor.saving⟩ (.controller e : Save.Event Image)
  | _ => True

theorem isEmpty_iff (itinerary : CurrentItinerary Image) :
    itinerary.isEmpty = true ↔ itinerary.places = [] := by
  rw [CurrentItinerary.isEmpty, CurrentItinerary.places, List.isEmpty_iff, List.map_eq_nil_iff]

/-! ## What the shared itinerary holds -/

/-- Nobody has picked a place so far. -/
def NonePicked (s : State Image Data) : Prop :=
  ∀ editor ∈ s.editors, editor.saving.picked = []

/-- The shared itinerary holds the places that were picked in all sessions so far. -/
def HoldsPicks (s : State Image Data) : Prop :=
  s.itinerary.places = (s.editors.map (·.saving.picked)).flatten

/-- What is added to the last of some lists is added to all of them together. -/
theorem flatten_set_last {α : Type*} {lists : List (List α)} {k : ℕ} {list : List α}
    (hk : lists[k]? = some list) (hlast : k + 1 = lists.length) (added : List α) :
    (lists.set k (list ++ added)).flatten = lists.flatten ++ added := by
  induction lists generalizing k with
  | nil => contradiction
  | cons first rest ih =>
    cases k with
    | zero =>
      obtain rfl := Option.some.inj hk
      obtain rfl := List.length_eq_zero_iff.mp (Nat.succ.inj hlast).symm
      simp
    | succ k =>
      rw [List.set_cons_succ, List.flatten_cons, List.flatten_cons, List.append_assoc,
        ih hk (Nat.succ.inj hlast)]

/-- Changing an editor but for its picks leaves the picks of all sessions alone. -/
theorem map_picked_set {editors : List (Editor Image Data)} {k : ℕ} {editor : Editor Image Data}
    (hk : editors[k]? = some editor) {editor' : Editor Image Data}
    (hpicked : editor'.saving.picked = editor.saving.picked) :
    (editors.set k editor').map (·.saving.picked) = editors.map (·.saving.picked) := by
  rw [List.map_set, hpicked]
  refine List.ext_getElem? fun j => ?_
  rw [List.getElem?_set]
  split
  next hjk =>
    subst hjk
    rw [List.getElem?_map, hk, Option.map_some, if_pos]
    rw [List.length_map]
    exact (List.getElem?_eq_some_iff.mp hk).1
  next => rfl

/-- Every step keeps what the shared itinerary holds: a pick adds to it, and nothing else does. -/
theorem HoldsPicks.step {s s' : State Image Data} {e : Event Image} (hinv : Inv services s)
    (h : HoldsPicks s) (hs' : Session.step services s e = some s') : HoldsPicks s' := by
  cases step_cases hinv hs' with
  | ignored => exact h
  | present hscreen =>
    show s.itinerary.places = ((s.editors ++ [s.newEditor]).map (·.saving.picked)).flatten
    rw [h, List.map_append, List.flatten_append]
    exact (List.append_nil _).symm
  | @setUpMap k editor location hscreen hk =>
    show s.itinerary.places = _
    rw [h, State.setUpMap, map_picked_set hk (by rfl)]
  | @didPick k editor place hscreen hk =>
    rw [HoldsPicks, State.didPick, places_didPick, h, List.map_set]
    -- only the last editor picks
    refine (flatten_set_last ?_ ?_ [place]).symm
    · rw [List.getElem?_map, hk, Option.map_some]
    · rw [List.length_map]
      exact hinv.onScreen k hscreen
  | cancel => exact h
  | @controller k editor e saving hk hyes hsaving hdo =>
    show s.itinerary.places = _
    rw [h, State.controllerDone, map_picked_set hk hsaving.picked]
  | addPhotoToLocation index image =>
    rw [HoldsPicks, s.itinerary.places_addPhotoToLocation index image]
    exact h
  | authStateChanged => exact h

/-- Nothing takes a place out of the shared itinerary. -/
theorem places_prefix_of_step {s s' : State Image Data} {e : Event Image} (hinv : Inv services s)
    (hs' : step services s e = some s') : s.itinerary.places <+: s'.itinerary.places := by
  cases step_cases hinv hs' with
  | didPick place hscreen hk =>
    rw [State.didPick, places_didPick]
    exact List.prefix_append _ _
  | addPhotoToLocation index image =>
    rw [s.itinerary.places_addPhotoToLocation index image]
  | _ => exact List.prefix_rfl

/-- In every run the shared itinerary grows only. -/
theorem places_prefix_of_exec {s s' : State Image Data} {es : List (Event Image)}
    (hinv : Inv services s) (hs' : (step services).exec s es = some s') :
    s.itinerary.places <+: s'.itinerary.places :=
  (PartialStep.exec_keeps (K := fun t => Inv services t ∧ s.itinerary.places <+: t.itinerary.places)
    (fun _ _ _ ⟨ht, hprefix⟩ ht' => ⟨step_inv ht ht', hprefix.trans (places_prefix_of_step ht ht')⟩)
    es ⟨hinv, List.prefix_rfl⟩ hs').2

/-- In every state of a run the shared itinerary is empty exactly if no editor has picked a place.
So an editor is presented on an empty itinerary exactly if none before it has picked one. -/
theorem isEmpty_iff_nonePicked (services : Services Image Data) (user : Option String)
    (es : List (Event Image)) :
    (step services).Along (fun s => s.itinerary.isEmpty = true ↔ NonePicked s)
      (State.launch user) es := by
  refine PartialStep.along_of_inv (K := fun s => Inv services s ∧ HoldsPicks s) ?_ ?_ es
    ⟨inv_launch services user, rfl⟩
  · rintro s ⟨-, hpicks⟩
    rw [isEmpty_iff, hpicks, List.flatten_eq_nil_iff, NonePicked]
    exact List.forall_mem_map
  · exact fun s e s' ⟨hinv, hpicks⟩ hs' => ⟨step_inv hinv hs', hpicks.step hinv hs'⟩

/-! ## The table on screen -/

/-- The table of the editor on screen is as it should be. -/
def TableOnScreen (s : State Image Data) : Prop :=
  ∀ k editor, s.editors[k]? = some editor → s.onScreen = some k →
    TableWellFormed editor.controller.addButtonSectionIndex s.itinerary

/-- The shape of the table depends on the number of locations only. -/
theorem tableWellFormed_of_count_eq {k : ℕ} {itinerary itinerary' : CurrentItinerary Image}
    (hcount : itinerary'.LocationCount = itinerary.LocationCount)
    (h : TableWellFormed k itinerary) : TableWellFormed k itinerary' := by
  rw [tableWellFormed_iff] at h ⊢
  rw [h, hcount]

/-- A new editor has its Add row at the end exactly when the itinerary is empty. -/
theorem tableOnScreen_present_iff (s : State Image Data) :
    TableOnScreen s.present ↔ s.itinerary.isEmpty = true := by
  have hzero : TableWellFormed 0 s.itinerary ↔ s.itinerary.isEmpty = true := by
    rw [tableWellFormed_iff, CurrentItinerary.LocationCount, CurrentItinerary.isEmpty,
      List.isEmpty_iff, eq_comm, List.length_eq_zero_iff]
  rw [← hzero]
  constructor
  · intro h
    exact h s.editors.length s.newEditor (List.getElem?_concat_length) rfl
  · intro h
    -- the new editor is the one on screen, the earlier ones are not
    refine forall_append (fun _ => h) fun j editor hj hnew => ?_
    have hlt := (List.getElem?_eq_some_iff.mp hj).1
    have heq : s.editors.length = j := Option.some.inj hnew
    omega

/-- A pick moves the Add row along with the end of the itinerary. -/
theorem tableOnScreen_didPick {s : State Image Data} {k : ℕ} {editor : Editor Image Data}
    (h : TableOnScreen s) (hscreen : s.onScreen = some k) (hk : s.editors[k]? = some editor)
    (place : GMSPlace) : TableOnScreen (s.didPick k editor place) := by
  refine forall_set (fun _ => ?_) fun j editor' hne _ hj => ?_
  -- both the index and the count grow by one
  · have hindex := (tableWellFormed_iff _ _).mp (h k editor hk hscreen)
    rw [tableWellFormed_iff, didPick_addButtonSectionIndex, hindex]
    simp [State.didPick, CurrentItinerary.LocationCount]
  · exact absurd (Option.some.inj (hj.symm.trans hscreen)) hne

/-- Only a new editor can have its Add row in the wrong place. -/
theorem tableOnScreen_step {s s' : State Image Data} {e : Event Image} (hinv : Inv services s)
    (h : TableOnScreen s) (hs' : step services s e = some s')
    (hpresent : e = .shouldSelect → s.onScreen ≠ none) : TableOnScreen s' := by
  cases step_cases hinv hs' with
  | ignored => exact h
  | present hscreen => exact absurd hscreen (hpresent rfl)
  | @setUpMap k editor location hscreen hk =>
    -- the map is not part of the table
    refine forall_set (fun _ => ?_) fun j editor' _ hj hscreen => ?_
    · exact tableWellFormed_of_count_eq (by rfl) (h k editor hk hscreen)
    · exact tableWellFormed_of_count_eq (by rfl) (h j editor' hj hscreen)
  | didPick place hscreen hk => exact tableOnScreen_didPick h hscreen hk place
  | cancel => exact fun k editor _ hscreen => by cases hscreen
  | @controller k editor e saving hk =>
    refine forall_set (fun hscreen => ?_) fun j editor' _ hj hscreen => ?_
    · exact h k editor hk (onScreen_of_controllerDone hscreen)
    · exact h j editor' hj (onScreen_of_controllerDone hscreen)
  | addPhotoToLocation index image =>
    have hplaces := s.itinerary.places_addPhotoToLocation index image
    intro k editor hk hscreen
    refine tableWellFormed_of_count_eq ?_ (h k editor hk hscreen)
    rw [CurrentItinerary.LocationCount_eq, CurrentItinerary.LocationCount_eq, hplaces]
  | authStateChanged => exact h

/-- In every run of the process: the table of the editor on screen has its one Add row at the end,
and a title and a detail row for each location in order, if and only if every editor is presented
while the shared itinerary is empty. -/
theorem tableWellFormed_iff_presentsOnEmpty (services : Services Image Data) (user : Option String)
    (es : List (Event Image)) :
    (step services).Along TableOnScreen (State.launch user) es ↔
      (step services).EachStep PresentsOnEmpty (State.launch user) es := by
  refine PartialStep.along_iff_eachStep (K := Inv services) (fun s e s' hK _ _ => step_inv hK)
    (fun s e hK hP => ?_) es (inv_launch services user) (fun k editor hk => by cases hk)
  by_cases hpresent : e = .shouldSelect ∧ s.onScreen = none
  · obtain ⟨rfl, hscreen⟩ := hpresent
    simp only [PresentsOnEmpty, step, hscreen, Option.some.injEq, forall_eq', forall_const]
    exact (tableOnScreen_present_iff s).symm
  · refine iff_of_true ?_ fun s' hs' =>
      tableOnScreen_step hK hP hs' fun he hscreen => hpresent ⟨he, hscreen⟩
    cases e with
    | shouldSelect => exact fun hscreen => absurd ⟨rfl, hscreen⟩ hpresent
    | _ => trivial

/-- One place is picked, the session is cancelled and a new one is opened. -/
def reopenAfterPick : List (Event Unit) :=
  [.shouldSelect, .didPick (placeAt 0), .cancelButtonTapped, .shouldSelect]

/-- In the second session the Add row stands before the location of the first one. -/
theorem reopenAfterPick_not_tableOnScreen :
    ¬ (step plainServices).Along TableOnScreen (State.launch (some "uid")) reopenAfterPick := by
  intro halong
  obtain ⟨s, hs, editor, hscreen, heditor, hindex, hcount⟩ : ∃ s, (step plainServices).exec
      (State.launch (some "uid")) reopenAfterPick = some s ∧ ∃ editor, s.onScreen = some 1 ∧
        s.editors[1]? = some editor ∧ editor.controller.addButtonSectionIndex = 0 ∧
          s.itinerary.LocationCount = 1 :=
    ⟨_, rfl, _, rfl, rfl, rfl, rfl⟩
  have htable := halong.of_exec hs 1 editor heditor hscreen
  rw [tableWellFormed_iff] at htable
  omega

/-! ## Isolated sessions -/

/-- The attempt waits for the answer to an upload. -/
def IsUploading : Stage Image Data → Prop
  | .putData .. | .downloadURL .. => True
  | _ => False

/-- No attempt of the controller is uploading. -/
def Idle (c : SavingController Image Data) : Prop :=
  ∀ att ∈ c.attempts, ¬ IsUploading att.stage

/-- Nothing is ever uploaded from an empty itinerary. -/
theorem idle_of_places_eq_nil {places : List GMSPlace} {c : SavingController Image Data}
    (h : ControllerInv services places c) (hplaces : places = []) : Idle c := by
  intro att hatt
  obtain ⟨a, ha⟩ := List.mem_iff_getElem?.mp hatt
  have hstage := (h.attempts a att ha).stage
  unfold Attempt.StageInv at hstage
  cases hk : att.stage with
  | putData k n ref | downloadURL k n ref =>
    rw [hk, hplaces, List.length_nil] at hstage
    have hlt := hstage.1
    have hle := hstage.2.1
    omega
  | _ => exact id

theorem Idle.stageOf {c : SavingController Image Data} (h : Idle c) {a : ℕ}
    {stage : Stage Image Data} (hstage : c.stageOf a = some stage) : ¬ IsUploading stage := by
  obtain ⟨att, hatt, rfl⟩ := (c.stageOf_eq_some_iff a).mp hstage
  exact h att (List.mem_of_getElem? hatt)

theorem Idle.update {c : SavingController Image Data} (h : Idle c) (a : ℕ)
    {f : Attempt Image Data → Attempt Image Data} (hf : ∀ att, ¬ IsUploading (f att).stage) :
    Idle (c.update a f) :=
  forall_attempts_update hf fun _ att _ hb => h att (List.mem_of_getElem? hb)

/-- A controller without uploads stays without uploads until "Yes" is tapped. -/
theorem controllerStep_idle {itinerary : CurrentItinerary Image} {user : Option String}
    {c c' : SavingController Image Data} {e : ControllerEvent}
    (hinv : ControllerInv services itinerary.places c) (h : Idle c) (he : e ≠ .yes)
    (hstep : controllerStep services itinerary user c e = some c') : Idle c' := by
  cases controllerCase_of_step hinv hstep with
  | ignored => exact h
  | yes => exact absurd rfl he
  | uploadFailed hstage | uploaded hstage => exact absurd trivial (h.stageOf hstage)
  | noURL hstage | recorded hstage => exact absurd trivial (h.stageOf hstage)
  | rejected | finished => exact h.update _ fun _ => id

/-- What an event registers carries the picks and the places of that moment. -/
theorem picked_of_newRegistration {itinerary : CurrentItinerary Image} {user : Option String}
    {c : SavingController Image Data} {e : ControllerEvent} {r : Registration Image Data}
    (h : NewRegistration services itinerary user c e r) :
    r.picked = c.picked ∧ r.places = itinerary.places := by
  cases h with
  | yes => exact ⟨rfl, rfl⟩
  | lastPhoto => exact ⟨rfl, rfl⟩

/-- A controller without uploads registers nothing until "Yes" is tapped. -/
theorem Idle.not_newRegistration {itinerary : CurrentItinerary Image} {user : Option String}
    {c : SavingController Image Data} {e : ControllerEvent} {r : Registration Image Data}
    (h : Idle c) (he : e ≠ .yes) : ¬ NewRegistration services itinerary user c e r := by
  intro hr
  cases hr with
  | yes => exact he rfl
  | lastPhoto a k n ref uid hstage => exact h.stageOf hstage trivial

/-- When the picks are all the places of the itinerary, a course has the photos of its picks
exactly when it carries its own photos. -/
theorem hasPhotosOfPicks_iff {r : Registration Image Data} (h : RegistrationInv services r)
    (hpicked : r.picked = r.places) :
    HasPhotosOfPicks services r ↔ CarriesOwnPhotos services r := by
  constructor
  · intro hphotos
    rw [carriesOwnPhotos_iff h]
    -- as many images as places, and the attempt's own images are that many already
    have hlength := congrArg List.length hphotos.picked
    have hown := congrArg List.length h.own
    rw [List.length_map, hpicked] at hlength
    rw [List.length_map, List.length_range, ← hlength, List.length_filter_eq_length_iff] at hown
    simpa using hown
  · intro hown
    refine ⟨hown.images, ?_⟩
    rw [hpicked]
    refine List.ext_getElem? fun i => ?_
    rw [List.getElem?_map]
    cases hi : r.images[i]? with
    | none =>
      rw [List.getElem?_eq_none_iff, hown.count] at hi
      rw [List.getElem?_eq_none hi, Option.map_none]
    | some ref =>
      obtain ⟨-, hindex, hfrom⟩ := hown.own i ref hi
      rw [Option.map_some, ← hindex, hfrom.place]

/-- What isolated sessions need: only the last editor can have picked or can be uploading. -/
structure Alone (s : State Image Data) : Prop where
  idle : ∀ (k : ℕ) editor, s.editors[k]? = some editor → k + 1 < s.editors.length →
    Idle editor.saving
  picked : ∀ (k : ℕ) editor, s.editors[k]? = some editor → k + 1 = s.editors.length →
    editor.saving.picked = s.itinerary.places

/-- Every session of the process is isolated. -/
def AllIsolated (services : Services Image Data) (s : State Image Data) : Prop :=
  ∀ (k : ℕ) editor, s.editors[k]? = some editor → Isolated services editor

section Step

variable {s s' : State Image Data}

theorem Alone.present (hinv : Inv services s) (hempty : s.itinerary.places = []) :
    Alone s.present := by
  have hlength : s.present.editors.length = s.editors.length + 1 := by simp [State.present]
  refine ⟨?_, ?_⟩
  -- every editor before the new one is idle, since the itinerary is empty
  · refine forall_append (fun hlt => ?_) fun j editor hj _ => ?_
    · rw [hlength] at hlt
      omega
    · exact idle_of_places_eq_nil (hinv.saving j editor hj).1 hempty
  · refine forall_append (fun _ => hempty.symm) fun j editor hj hlast => ?_
    have hlt := (List.getElem?_eq_some_iff.mp hj).1
    rw [hlength] at hlast
    omega

/-- Replacing editor `k` keeps `Alone` if the new one meets its two parts. -/
theorem Alone.set (h : Alone s) {k : ℕ} {editor : Editor Image Data}
    {itinerary : CurrentItinerary Image} {onScreen : Option ℕ} {nextMap : ℕ}
    (hplaces : ∀ j, j ≠ k → j + 1 = s.editors.length → itinerary.places = s.itinerary.places)
    (hidle : k + 1 < s.editors.length → Idle editor.saving)
    (hpicked : k + 1 = s.editors.length → editor.saving.picked = itinerary.places) :
    Alone { s with itinerary, editors := s.editors.set k editor, onScreen, nextMap } := by
  refine ⟨?_, ?_⟩
  · refine forall_set (fun hlt => ?_) fun j editor' _ hj hlt => ?_
    · exact hidle (by rwa [List.length_set] at hlt)
    · exact h.idle j editor' hj (by rwa [List.length_set] at hlt)
  · refine forall_set (fun hlast => ?_) fun j editor' hne hj hlast => ?_
    · exact hpicked (by rwa [List.length_set] at hlast)
    · rw [List.length_set] at hlast
      rw [h.picked j editor' hj hlast]
      exact (hplaces j hne hlast).symm

/-- Every step that meets the condition keeps `Alone`. -/
theorem Alone.step (h : Alone s) (hinv : Inv services s) {e : Event Image}
    (hs' : step services s e = some s') (hC : IsolatedStep s e) : Alone s' := by
  cases step_cases hinv hs' with
  | ignored => exact h
  | present hscreen => exact Alone.present hinv ((isEmpty_iff _).mp (hC hscreen))
  | @setUpMap k editor location hscreen hk =>
    exact h.set (fun _ _ _ => rfl) (h.idle k editor hk) (h.picked k editor hk)
  | @didPick k editor place hscreen hk =>
    -- the editor on screen is the last one, and the place is added to both sides
    have hlast := hinv.onScreen k hscreen
    refine h.set (fun j hne hj => by omega) (fun hlt => by omega) fun _ => ?_
    rw [places_didPick, h.picked k editor hk hlast]
  | cancel => exact ⟨h.idle, h.picked⟩
  | @controller k editor e saving hk hyes hsaving hdo =>
    refine h.set (fun _ _ _ => rfl) (fun hlt => ?_) fun hlast => ?_
    · -- an earlier editor has no "Yes" button any more
      have hinv' := (hinv.saving k editor hk).1
      refine controllerStep_idle hinv' (h.idle k editor hk hlt) (fun he => ?_) hdo
      have hlast := hinv.onScreen k (hyes he)
      omega
    · rw [hsaving.picked]
      exact h.picked k editor hk hlast
  | addPhotoToLocation index image =>
    refine ⟨h.idle, fun k editor hk hlast => ?_⟩
    rw [h.picked k editor hk hlast]
    exact (s.itinerary.places_addPhotoToLocation index image).symm
  | authStateChanged => exact ⟨h.idle, h.picked⟩

/-- A new session is isolated exactly when the shared itinerary is empty. -/
theorem allIsolated_present_iff (hinv : Inv services s) (h : AllIsolated services s) :
    AllIsolated services s.present ↔ s.itinerary.isEmpty = true := by
  rw [isEmpty_iff]
  constructor
  · intro hall
    exact (hall s.editors.length s.newEditor List.getElem?_concat_length).foundPlaces
  · intro hempty
    refine forall_append ⟨hempty, ?_, fun r hr => ?_⟩ h
    -- there are as many markers as locations
    · have hmarkers := hinv.markers
      rw [hempty, List.length_nil, List.length_eq_zero_iff] at hmarkers
      exact hmarkers
    · cases hr

/-- The event of a controller keeps its session isolated exactly when what it registers carries
only photos of its own attempt. -/
theorem isolated_controllerDone_iff (hinv : Inv services s) (halone : Alone s) {k : ℕ}
    {editor : Editor Image Data} (hk : s.editors[k]? = some editor)
    (h : Isolated services editor) {e : ControllerEvent} (hyes : e = .yes → s.onScreen = some k)
    {saving : SavingController Image Data}
    (hsaving : ControllerStep services s.itinerary s.currentUser editor.saving e saving) :
    Isolated services { editor with saving } ↔
      RecordsAlone ⟨s.itinerary, s.currentUser, editor.saving⟩
        (.controller e : Save.Event Image) := by
  obtain ⟨hcontroller, hsettled⟩ := hinv.saving k editor hk
  have hlt := (List.getElem?_eq_some_iff.mp hk).1
  rw [recordsAlone_iff (⟨hcontroller, hsettled⟩ : Save.Inv services _)]
  have hphotos : ∀ r, NewRegistration services s.itinerary s.currentUser editor.saving e r →
      (HasPhotosOfPicks services r ↔ CarriesOwnPhotos services r) := by
    intro r hr
    refine hasPhotosOfPicks_iff (hr.inv hcontroller) ?_
    obtain ⟨hpicked, hplaces⟩ := picked_of_newRegistration hr
    -- only the last editor can register: the earlier ones are idle
    have hlast : k + 1 = s.editors.length := by
      by_contra hne
      refine (halone.idle k editor hk (by omega)).not_newRegistration (fun he => ?_) hr
      exact hne (hinv.onScreen k (hyes he))
    rw [hpicked, hplaces, halone.picked k editor hk hlast]
  constructor
  · intro hisolated r hr
    refine (hphotos r hr).mp (hisolated.registered r ?_)
    rcases hsaving.registered with ⟨-, hnone⟩ | ⟨r', hr', heq⟩
    · exact absurd hr (hnone r)
    · rw [hr.unique hr']
      exact heq ▸ List.mem_append_right _ (List.mem_singleton_self r')
  · intro hall
    refine ⟨h.foundPlaces, h.foundMarkers, fun r hr => ?_⟩
    rcases hsaving.registered with ⟨heq, -⟩ | ⟨r', hr', heq⟩
    · exact h.registered r (heq ▸ hr)
    · rw [heq] at hr
      rcases List.mem_append.mp hr with hold | hnew
      · exact h.registered r hold
      · rw [List.mem_singleton.mp hnew]
        exact (hphotos r' hr').mpr (hall r' hr')

/-- The condition on one step says exactly that it leaves every session isolated. -/
theorem isolatedStep_iff (hinv : Inv services s) (halone : Alone s) (h : AllIsolated services s)
    (e : Event Image) :
    IsolatedStep s e ↔ ∀ s', step services s e = some s' → AllIsolated services s' := by
  -- what the map and the picks change in an editor is not part of `Isolated`
  have hkeep : ∀ {k : ℕ} {editor : Editor Image Data} controller picked,
      s.editors[k]? = some editor →
        Isolated services { editor with controller, saving := { editor.saving with picked } } :=
    fun _ _ hk => ⟨(h _ _ hk).foundPlaces, (h _ _ hk).foundMarkers, (h _ _ hk).registered⟩
  constructor
  · intro hC s' hs'
    cases step_cases hinv hs' with
    | ignored => exact h
    | present hscreen => exact (allIsolated_present_iff hinv h).mpr (hC hscreen)
    | setUpMap location hscreen hk =>
      exact forall_set (hkeep _ _ hk) fun j editor' _ hj => h j editor' hj
    | didPick place hscreen hk =>
      exact forall_set (hkeep _ _ hk) fun j editor' _ hj => h j editor' hj
    | cancel => exact h
    | @controller k editor e saving hk hyes hsaving =>
      have hisolated := isolated_controllerDone_iff hinv halone hk (h k editor hk) hyes hsaving
      exact forall_set (hisolated.mpr (hC editor hk)) fun j editor' _ hj => h j editor' hj
    | addPhotoToLocation => exact h
    | authStateChanged => exact h
  · intro hall
    cases e with
    | shouldSelect =>
      intro hscreen
      exact (allIsolated_present_iff hinv h).mp (hall _ (by simp [Session.step, hscreen]))
    | controller k e =>
      intro editor hk
      rcases step_controller hinv hk e with ⟨rfl, -, -⟩ | ⟨hyes, saving, hsaving, -, hstep⟩
      · trivial
      · have hlt := (List.getElem?_eq_some_iff.mp hk).1
        refine (isolated_controllerDone_iff hinv halone hk (h k editor hk) hyes hsaving).mp ?_
        refine hall _ hstep k _ ?_
        rw [State.controllerDone, List.getElem?_set_self hlt]
    | _ => trivial

end Step

/-- In every run of the process: every session starts with an empty itinerary and registers the
photos of exactly its own picks, in order, if and only if an editor is presented only while the
shared itinerary is empty and no controller records photos of two attempts before it registers. -/
theorem isolated_iff (services : Services Image Data) (user : Option String)
    (es : List (Event Image)) :
    (step services).Along (AllIsolated services) (State.launch user) es ↔
      (step services).EachStep IsolatedStep (State.launch user) es :=
  PartialStep.along_iff_eachStep (K := fun s => Inv services s ∧ Alone s)
    (fun _ _ _ hK _ hC hs' => ⟨step_inv hK.1 hs', hK.2.step hK.1 hs' hC⟩)
    (fun _ e hK hP => isolatedStep_iff hK.1 hK.2 hP e) es
    ⟨inv_launch services user, by constructor <;> simp [State.launch]⟩
    (fun k editor hk => by cases hk)

/-- The session after a cancelled one finds its location. -/
theorem reopenAfterPick_not_isolated :
    ¬ (step plainServices).Along (AllIsolated plainServices) (State.launch (some "uid"))
      reopenAfterPick := by
  intro halong
  obtain ⟨s, hs, editor, heditor, hfound⟩ : ∃ s, (step plainServices).exec
      (State.launch (some "uid")) reopenAfterPick = some s ∧ ∃ editor, s.editors[1]? = some editor ∧
        editor.foundPlaces = [placeAt 0] :=
    ⟨_, rfl, _, rfl, rfl⟩
  have hisolated := halong.of_exec hs 1 editor heditor
  rw [hisolated.foundPlaces] at hfound
  cases hfound

end DateCourse.Session
