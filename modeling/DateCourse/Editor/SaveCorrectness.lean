import Mathlib.Data.List.Nodup
import DateCourse.Editor.SingleSave

/-!
# Several save chains on one controller

The attempts of one controller share `photoIDs`, which no attempt clears, so a course can carry the
URLs of another attempt. `course_carriesOwnPhotos_iff` says when it does not.

## Main definitions

* `Save.CarriesOwnPhotos`: a registered course has one photo for each location, its own;
* `Save.RecordsAlone`: the condition on the event that registers a course.
-/

namespace DateCourse.Save

open TreeStore SavingController

variable {Image Data : Type} {services : Services Image Data}

/-- A registered course carries exactly its own photos: the dictionary's `images` are the URLs of
one object for each location of the itinerary, in order, uploaded by this attempt from the
location at that index, and no object occurs twice. -/
structure CarriesOwnPhotos (services : Services Image Data) (r : Registration Image Data) :
    Prop where
  images : r.course.lookup "images" =
    some (.strings (r.images.map fun ref => services.absoluteString ref.name))
  count : r.images.length = r.places.length
  own : ∀ (i : ℕ) (ref : StorageReference Image Data), r.images[i]? = some ref →
    ref.attempt = r.attempt ∧ ref.index = i ∧ ref.From services r.places
  nodup : (r.images.map (·.name)).Nodup

/-- If distinct objects have distinct URLs, no URL of such a course is duplicated. -/
theorem CarriesOwnPhotos.nodup_urls {r : Registration Image Data}
    (h : CarriesOwnPhotos services r) (hinj : Function.Injective services.absoluteString) :
    (r.images.map fun ref => services.absoluteString ref.name).Nodup := by
  have hmap := h.nodup.map hinj
  rwa [List.map_map] at hmap

/-- A course carries exactly its own photos as soon as it carries no photo of another attempt. -/
theorem carriesOwnPhotos_iff {r : Registration Image Data} (h : RegistrationInv services r) :
    CarriesOwnPhotos services r ↔ ∀ ref ∈ r.images, ref.attempt = r.attempt := by
  refine ⟨fun hown ref href => ?_, fun hall => ?_⟩
  · obtain ⟨i, hi⟩ := List.mem_iff_getElem?.mp href
    exact (hown.own i ref hi).1
  · have hself : r.images.filter (·.attempt = r.attempt) = r.images := by
      simpa [List.filter_eq_self] using hall
    -- the attempt's own photos are numbered by the places, and there are no others
    have hindex : r.images.map (·.index) = List.range r.places.length := hself ▸ h.own
    have hlen : r.images.length = r.places.length := by
      simpa using congrArg List.length hindex
    refine ⟨?_, hlen, fun i ref hi => ?_, ?_⟩
    · rw [h.course]
      rfl
    · have hmem := List.mem_of_getElem? hi
      have hlt : i < r.places.length := hlen ▸ (List.getElem?_eq_some_iff.mp hi).1
      have hat := congrArg (·[i]?) hindex
      simp only [List.getElem?_map, hi, List.getElem?_range hlt, Option.map_some,
        Option.some.injEq] at hat
      exact ⟨hall ref hmem, hat, h.images ref hmem⟩
    -- the name contains the index, and the indices are distinct
    · have hnodup : (r.images.map (·.index)).Nodup := hindex ▸ List.nodup_range
      refine List.Nodup.of_map Prod.snd ?_
      rwa [List.map_map]

/-- The condition on the event that registers a course: when the last photo URL of an attempt
arrives while a user is signed in, no other attempt has recorded a photo URL. -/
def RecordsAlone (s : State Image Data) : Event Image → Prop
  | .controller (.downloadURL a true) =>
    ∀ k n ref, s.controller.stageOf a = some (.downloadURL k n ref) →
      k + 1 = s.itinerary.LocationCount → s.currentUser ≠ none →
        ∀ ref' ∈ s.controller.photoIDs, ref'.attempt = a
  | _ => True

theorem newCourse_unique {s : State Image Data} {e : Event Image} {r r' : Registration Image Data}
    (hr : NewCourse services s e r) (hr' : NewCourse services s e r') : r = r' := by
  cases e with
  | controller e => exact NewRegistration.unique hr hr'
  | addLocation place => exact hr.elim
  | addPhotoToLocation index image => exact hr.elim
  | authStateChanged user => exact hr.elim

/-- The condition says exactly that the course registered by the event carries its own photos. -/
theorem recordsAlone_iff {s : State Image Data} (h : Inv services s) (e : Event Image) :
    RecordsAlone s e ↔ ∀ r, NewCourse services s e r → CarriesOwnPhotos services r := by
  refine ⟨fun halone r hr => ?_, fun hall => ?_⟩
  · match e, hr with
    | .controller e, hr =>
      rw [carriesOwnPhotos_iff (hr.inv h.1)]
      cases hr with
      | yes uid hcount huser =>
        -- the itinerary is empty, so nothing has been recorded
        intro ref href
        have hplace := (h.1.photoIDs ref href).2.place
        rw [List.length_eq_zero_iff.mp hcount] at hplace
        simp at hplace
      | lastPhoto a k n ref uid hstage hcount huser =>
        obtain ⟨att, hatt, hst⟩ := (s.controller.stageOf_eq_some_iff a).mp hstage
        have hholds := (h.1.attempts a att hatt).stage
        simp only [Attempt.StageInv, hst] at hholds
        have hold := halone k n ref hstage (by rw [s.itinerary.LocationCount_eq, hcount])
          (by simp [huser])
        -- the photos recorded before are this attempt's by the condition, the last one is its own
        intro ref' href'
        rcases List.mem_append.mp href' with href' | href'
        · exact hold ref' href'
        · rw [List.mem_singleton.mp href']
          exact hholds.2.2.2.1
  · unfold RecordsAlone
    split
    next a =>
      intro k n ref hstage hcount huser ref' href'
      obtain ⟨uid, huid⟩ := Option.ne_none_iff_exists'.mp huser
      have hnew : NewRegistration services s.itinerary s.currentUser s.controller
          (.downloadURL a true) _ :=
        .lastPhoto a k n ref uid hstage (by rw [hcount, s.itinerary.LocationCount_eq]) huid
      -- the event registers a course, which carries its own photos only
      have hown := (carriesOwnPhotos_iff (hnew.inv h.1)).mp (hall _ hnew)
      exact hown ref' (List.mem_append_left _ href')
    next => trivial

/-- On one controller, whatever the order of the callbacks and however often "Yes" is tapped: every
course handed to the database carries exactly its own photos if and only if, whenever the last
photo URL of an attempt arrives, no other attempt has recorded one. No run traps. -/
theorem course_carriesOwnPhotos_iff (services : Services Image Data)
    (itinerary : CurrentItinerary Image) (user : Option String) (es : List (Event Image)) :
    (step services).Always
        (fun s => ∀ r ∈ s.controller.registered, CarriesOwnPhotos services r)
        (State.fresh itinerary user) es ↔
      (step services).EachStep RecordsAlone (State.fresh itinerary user) es := by
  refine PartialStep.always_iff_eachStep_of_total (K := Inv services) (fun s e hK hP => ?_) es
    (inv_fresh services itinerary user) (by simp [State.fresh, SavingController.fresh])
  obtain ⟨t, ht, hspec⟩ := step_spec hK e
  refine ⟨t, ht, hspec.inv, ?_⟩
  rw [recordsAlone_iff hK e]
  constructor
  · intro hall r hr
    rcases hspec.registered with ⟨heq, -⟩ | ⟨r', hr', heq⟩
    · exact hP r (heq ▸ hr)
    · rw [heq] at hr
      rcases List.mem_append.mp hr with hr | hr
      · exact hP r hr
      · exact hall r (List.mem_singleton.mp hr ▸ hr')
  -- the new course is the last of those registered in the next state
  · intro hP' r hr
    rcases hspec.registered with ⟨-, hnone⟩ | ⟨r', hr', heq⟩
    · exact absurd hr (hnone r)
    · obtain rfl : r = r' := newCourse_unique hr hr'
      exact hP' r (heq ▸ List.mem_append_right _ (List.mem_singleton_self r))

/-- The first attempt uploads the photo of location 0 and fails at location 1; the second attempt
uploads both. -/
def retryAfterFailure : List (Event Unit) :=
  [.controller .yes, .controller (.putData 0 true false), .controller (.downloadURL 0 true),
    .controller (.putData 0 false true), .controller .yes, .controller (.putData 1 true false),
    .controller (.downloadURL 1 true), .controller (.putData 1 true false),
    .controller (.downloadURL 1 true)]

/-- After a failed attempt the course of the second one has three photos for two locations. -/
theorem retryAfterFailure_not_carriesOwnPhotos :
    ¬ (step plainServices).Always
      (fun s => ∀ r ∈ s.controller.registered, CarriesOwnPhotos plainServices r)
      (State.fresh twoStops (some "uid")) retryAfterFailure := by
  intro halways
  obtain ⟨s, hs, r, hr, hcount, hplaces⟩ : ∃ s, (step plainServices).exec
      (State.fresh twoStops (some "uid")) retryAfterFailure = some s ∧
        ∃ r ∈ s.controller.registered, r.images.length = 3 ∧ r.places.length = 2 :=
    ⟨_, rfl, _, List.mem_singleton_self _, rfl, rfl⟩
  have hown := halways.of_exec hs r hr
  have hthree := hown.count
  omega

end DateCourse.Save
