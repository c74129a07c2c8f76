import DateCourse.Editor.SaveItinerary

/-!
# The invariant of the save chains

What holds of one controller in every state, whatever its attempts do. Each attempt has recorded
the photos of the locations before its index, in order, in the shared `photoIDs`; what the others
recorded lies in between. The invariant depends on the itinerary through its `places` alone, which
only grow.

## Main definitions

* `Stage.reached`, `Stage.registrations`, `Stage.completions`: what a stage says about the past;
* `AttemptInv` and `ControllerInv`: the invariant of one attempt and of the controller;
* `RegistrationInv`: what is known of every registered course.

## Main results

* `savePhoto_cases`: the four things a call of `savePhoto` can do;
* `controllerStep_cases`: what one event of the controller can do;
* `controllerStep_spec`: it is defined, keeps the invariant and registers at most one course;
* `Save.step_spec` and `Save.exec_inv`: so does every event of the machine, and every run.
-/

namespace DateCourse

open TreeStore SavingController

variable {Image Data : Type} {services : Services Image Data}

/-- `ref` was uploaded from the location at its index: from a photo that location held then. -/
structure StorageReference.From (services : Services Image Data) (places : List GMSPlace)
    (ref : StorageReference Image Data) : Prop where
  place : places[ref.index]? = some ref.location.place
  photo : Save.uploadDataOf services ref.location = some ref.uploadData

namespace Stage

/-- The number of indices that `savePhotoToDatabase` has been called with. -/
def reached : Stage Image Data → ℕ
  | putData k _ _ | downloadURL k _ _ | failed k => k + 1
  | saving k | updateChildValues k | ended k | rejected k | finished k => k

/-- The number of courses the attempt has registered. -/
def registrations : Stage Image Data → ℕ
  | updateChildValues _ | rejected _ | finished _ => 1
  | _ => 0

/-- The number of times the attempt has called its completion. -/
def completions : Stage Image Data → ℕ
  | finished _ => 1
  | _ => 0

end Stage

/-- Everything a stage says about the past. -/
def Stage.past (stage : Stage Image Data) : ℕ × ℕ × ℕ × ℕ :=
  (stage.index, stage.reached, stage.registrations, stage.completions)

/-- What the stage of attempt `a` says about the itinerary and about the last `savePhoto`. -/
def Attempt.StageInv (services : Services Image Data) (places : List GMSPlace) (a : ℕ)
    (att : Attempt Image Data) : Prop :=
  match att.stage with
  | .saving k => k ≤ places.length
  | .putData k n ref | .downloadURL k n ref =>
    k < n ∧ n ≤ places.length ∧ att.lastCount = n ∧ ref.attempt = a ∧ ref.index = k ∧
      ref.From services places
  | .failed k => k < att.lastCount
  | .ended k => att.lastCount = k ∧ att.lastUser = none
  | .updateChildValues k | .rejected k | .finished k => att.lastCount = k ∧ att.lastUser ≠ none

/-- The invariant of attempt `a`, given everything recorded and registered so far. -/
structure AttemptInv (services : Services Image Data) (places : List GMSPlace)
    (photoIDs : List (StorageReference Image Data)) (registered : List (Registration Image Data))
    (a : ℕ) (att : Attempt Image Data) : Prop where
  own : (photoIDs.filter (·.attempt = a)).map (·.index) = List.range att.stage.index
  processed : att.processed = List.range att.stage.reached
  stage : att.StageInv services places a
  registrations : (registered.filter (·.attempt = a)).length = att.stage.registrations
  completions : att.completions = att.stage.completions
  progressView : att.progressView = decide (att.stage.completions = 0)

/-- What is known of a registered course: its own photos are all there, one for each place, and
every photo comes from the place at its index. -/
structure RegistrationInv (services : Services Image Data) (r : Registration Image Data) :
    Prop where
  course : r.course = Save.courseDictionary services r.uid r.images
  own : (r.images.filter (·.attempt = r.attempt)).map (·.index) = List.range r.places.length
  images : ∀ ref ∈ r.images, ref.From services r.places

/-- The invariant of a controller whose itinerary has the given places. -/
structure ControllerInv (services : Services Image Data) (places : List GMSPlace)
    (c : SavingController Image Data) : Prop where
  attempts : ∀ a att, c.attempts[a]? = some att →
    AttemptInv services places c.photoIDs c.registered a att
  photoIDs : ∀ ref ∈ c.photoIDs, ref.attempt < c.attempts.length ∧ ref.From services places
  registered : ∀ r ∈ c.registered, r.attempt < c.attempts.length ∧ RegistrationInv services r

/-! ## Places and their growth -/

namespace CurrentItinerary

variable (itinerary : CurrentItinerary Image)

theorem LocationCount_eq : itinerary.LocationCount = itinerary.places.length := by
  simp [LocationCount, places]

@[simp]
theorem places_addLocation (place : GMSPlace) :
    (itinerary.addLocation place).places = itinerary.places ++ [place] := by
  simp [addLocation, places, Location.initWithGMSPlace]

/-- Recording a photo does not change the places. -/
@[simp]
theorem places_addPhotoToLocation (index : ℕ) (image : Image) :
    ((itinerary.addPhotoToLocation index image).getD itinerary).places = itinerary.places := by
  unfold addPhotoToLocation
  split
  -- the changed entry keeps its place, the others are the same
  · apply List.ext_getElem?
    intro i
    simp only [places, Option.getD_some, List.getElem?_map, List.getElem?_modify]
    split <;> simp [Function.comp_def]
  · rfl

end CurrentItinerary

theorem StorageReference.From.mono {places places' : List GMSPlace}
    {ref : StorageReference Image Data} (h : ref.From services places)
    (hle : places <+: places') : ref.From services places' := by
  refine ⟨?_, h.photo⟩
  obtain ⟨hlt, hget⟩ := List.getElem?_eq_some_iff.mp h.place
  exact List.getElem?_eq_some_iff.mpr ⟨hlt.trans_le hle.length_le, by rw [← hle.getElem hlt, hget]⟩

theorem AttemptInv.mono {places places' : List GMSPlace}
    {photoIDs : List (StorageReference Image Data)} {registered : List (Registration Image Data)}
    {a : ℕ} {att : Attempt Image Data}
    (h : AttemptInv services places photoIDs registered a att) (hle : places <+: places') :
    AttemptInv services places' photoIDs registered a att := by
  refine { h with stage := ?_ }
  have hlen := hle.length_le
  have hstage := h.stage
  -- only the stages up to the upload speak about the places
  unfold Attempt.StageInv at hstage ⊢
  split at hstage
  · exact hstage.trans hlen
  · obtain ⟨hk, hn, hlast, ha, hi, hfrom⟩ := hstage
    exact ⟨hk, hn.trans hlen, hlast, ha, hi, hfrom.mono hle⟩
  · obtain ⟨hk, hn, hlast, ha, hi, hfrom⟩ := hstage
    exact ⟨hk, hn.trans hlen, hlast, ha, hi, hfrom.mono hle⟩
  all_goals exact hstage

/-- More places keep the invariant. -/
theorem ControllerInv.mono {places places' : List GMSPlace} {c : SavingController Image Data}
    (h : ControllerInv services places c) (hle : places <+: places') :
    ControllerInv services places' c where
  attempts a att hatt := (h.attempts a att hatt).mono hle
  photoIDs ref href := ⟨(h.photoIDs ref href).1, (h.photoIDs ref href).2.mono hle⟩
  registered := h.registered

/-! ## Updates of one attempt -/

namespace SavingController

variable (c : SavingController Image Data) (a : ℕ)
  (f g : Attempt Image Data → Attempt Image Data)

theorem update_update : (c.update a f).update a g = c.update a (g ∘ f) := by
  simp [update, List.modify_modify_eq]

@[simp] theorem photoIDs_update : (c.update a f).photoIDs = c.photoIDs := rfl

@[simp] theorem registered_update : (c.update a f).registered = c.registered := rfl

@[simp] theorem picked_update : (c.update a f).picked = c.picked := rfl

@[simp]
theorem length_attempts_update : (c.update a f).attempts.length = c.attempts.length := by
  simp [update]

theorem getElem?_attempts_update (b : ℕ) :
    (c.update a f).attempts[b]? = if a = b then c.attempts[b]?.map f else c.attempts[b]? := by
  rw [update, List.getElem?_modify]
  split <;> simp

/-- The record of an attempt that has moved to another stage. -/
theorem getElem?_attempts_setStage_self {c : SavingController Image Data} {a : ℕ}
    {att : Attempt Image Data} (hatt : c.attempts[a]? = some att) (stage : Stage Image Data) :
    (c.setStage a stage).attempts[a]? = some { att with stage } := by
  rw [setStage, getElem?_attempts_update, if_pos rfl, hatt, Option.map_some]

/-- A fact about every attempt survives the change of one, if it holds of the changed one. -/
theorem forall_attempts_update {Q : Attempt Image Data → Prop} {c : SavingController Image Data}
    {a : ℕ} {f : Attempt Image Data → Attempt Image Data} (hf : ∀ att, Q (f att))
    (h : ∀ b att, b ≠ a → c.attempts[b]? = some att → Q att) :
    ∀ att ∈ (c.update a f).attempts, Q att := by
  intro att hatt
  obtain ⟨b, hb⟩ := List.mem_iff_getElem?.mp hatt
  rw [getElem?_attempts_update] at hb
  split at hb
  next =>
    obtain ⟨att', -, rfl⟩ := Option.map_eq_some_iff.mp hb
    exact hf att'
  next hab => exact h b att (Ne.symm hab) hb

theorem stageOf_eq_some_iff {stage : Stage Image Data} :
    c.stageOf a = some stage ↔ ∃ att, c.attempts[a]? = some att ∧ att.stage = stage := by
  simp [stageOf]

end SavingController

namespace ControllerInv

variable {places : List GMSPlace} {c : SavingController Image Data} {a : ℕ}
  {att : Attempt Image Data}

/-- Attempt `a` records `photos` and registers `courses`, and its record changes by `f`: the
invariant of the controller survives if that of the attempt does. -/
theorem extend (h : ControllerInv services places c) (hatt : c.attempts[a]? = some att)
    (photos : List (StorageReference Image Data)) (courses : List (Registration Image Data))
    (f : Attempt Image Data → Attempt Image Data)
    (hphotos : ∀ ref ∈ photos, ref.attempt = a ∧ ref.From services places)
    (hcourses : ∀ r ∈ courses, r.attempt = a ∧ RegistrationInv services r)
    (hf : AttemptInv services places (c.photoIDs ++ photos) (c.registered ++ courses) a (f att)) :
    ControllerInv services places
      ({ c with photoIDs := c.photoIDs ++ photos,
                registered := c.registered ++ courses }.update a f) := by
  have hlt : a < c.attempts.length := (List.getElem?_eq_some_iff.mp hatt).1
  refine ⟨fun b att' hb => ?_, fun ref href => ?_, fun r hr => ?_⟩
  · rw [getElem?_attempts_update] at hb
    split at hb
    next hab =>
      -- attempt `a` itself
      subst hab
      obtain rfl : f att = att' := by simpa [hatt] using hb
      exact hf
    next hab =>
      -- what `a` adds is invisible to the other attempts
      have hb := h.attempts b att' hb
      have hphoto : photos.filter (·.attempt = b) = [] := by
        simpa using fun ref href => (hphotos ref href).1 ▸ hab
      have hcourse : courses.filter (·.attempt = b) = [] := by
        simpa using fun r hr => (hcourses r hr).1 ▸ hab
      refine { hb with own := ?_, registrations := ?_ }
      · simpa [List.filter_append, hphoto] using hb.own
      · simpa [List.filter_append, hcourse] using hb.registrations
  · rw [length_attempts_update]
    rcases List.mem_append.mp href with href | href
    · exact h.photoIDs ref href
    · exact ⟨(hphotos ref href).1 ▸ hlt, (hphotos ref href).2⟩
  · rw [length_attempts_update]
    rcases List.mem_append.mp hr with hr | hr
    · exact h.registered r hr
    · exact ⟨(hcourses r hr).1 ▸ hlt, (hcourses r hr).2⟩

/-- The case of `extend` in which nothing is recorded or registered. -/
theorem update (h : ControllerInv services places c) (hatt : c.attempts[a]? = some att)
    {f : Attempt Image Data → Attempt Image Data}
    (hf : AttemptInv services places c.photoIDs c.registered a (f att)) :
    ControllerInv services places (c.update a f) := by
  simpa using h.extend hatt [] [] f (by simp) (by simp) (by simpa using hf)

/-- An attempt moves to a stage that says the same about the past. -/
theorem setStage (h : ControllerInv services places c) (hatt : c.attempts[a]? = some att)
    {old stage : Stage Image Data} (hold : att.stage = old) (hpast : stage.past = old.past)
    (hstage : { att with stage }.StageInv services places a) :
    ControllerInv services places (c.setStage a stage) := by
  have hinv := h.attempts a att hatt
  subst hold
  simp only [Stage.past, Prod.mk.injEq] at hpast
  obtain ⟨hindex, hreached, hregistrations, hcompletions⟩ := hpast
  refine h.update hatt ⟨?_, ?_, hstage, ?_, ?_, ?_⟩
  · simpa [hindex] using hinv.own
  · simpa [hreached] using hinv.processed
  · simpa [hregistrations] using hinv.registrations
  · simpa [hcompletions] using hinv.completions
  · simpa [hcompletions] using hinv.progressView

/-- Attempt `a` records the photo it has uploaded and goes on to the next index. -/
theorem record (h : ControllerInv services places c) (hatt : c.attempts[a]? = some att)
    {k n : ℕ} {ref : StorageReference Image Data} (hstage : att.stage = .downloadURL k n ref) :
    ControllerInv services places
      ({ c with photoIDs := c.photoIDs ++ [ref] }.setStage a (.saving (k + 1))) := by
  have hinv := h.attempts a att hatt
  have hholds := hinv.stage
  simp only [Attempt.StageInv, hstage] at hholds
  obtain ⟨hk, hn, -, ha, hi, hfrom⟩ := hholds
  have hown := hinv.own
  have hprocessed := hinv.processed
  have hregistrations := hinv.registrations
  have hcompletions := hinv.completions
  have hprogress := hinv.progressView
  simp only [hstage, Stage.index, Stage.reached, Stage.registrations, Stage.completions] at *
  have hnew := h.extend hatt [ref] [] (fun att => { att with stage := .saving (k + 1) })
    (by simpa using ⟨ha, hfrom⟩) (by simp) ?_
  · simpa [SavingController.setStage] using hnew
  · refine ⟨?_, hprocessed, hk.trans_le hn, ?_, hcompletions, hprogress⟩
    · simp only [List.filter_append, List.map_append, hown, Stage.index, List.range_succ]
      simp [ha, hi]
    · rw [List.append_nil]
      exact hregistrations

/-- What the stage of a waiting attempt says. -/
theorem stageInv (h : ControllerInv services places c)
    {stage : Stage Image Data} (hstageOf : c.stageOf a = some stage) :
    ∃ att, c.attempts[a]? = some att ∧ att.stage = stage ∧ att.StageInv services places a := by
  obtain ⟨att, hatt, hstage⟩ := (c.stageOf_eq_some_iff a).mp hstageOf
  exact ⟨att, hatt, hstage, (h.attempts a att hatt).stage⟩

end ControllerInv

/-! ## The functions of the chain -/

namespace Save

/-- The record of an attempt after `savePhoto(index:)` has moved it to `stage`. -/
def afterSavePhoto (count : ℕ) (user : Option String) (processed : List ℕ)
    (stage : Stage Image Data) (att : Attempt Image Data) : Attempt Image Data :=
  { att with stage, processed := att.processed ++ processed, lastCount := count, lastUser := user }

/-- The course that attempt `a` hands to the database in state `c`. -/
def registration (services : Services Image Data) (itinerary : CurrentItinerary Image) (a : ℕ)
    (uid : String) (c : SavingController Image Data) : Registration Image Data :=
  { course := courseDictionary services uid c.photoIDs, uid, attempt := a, images := c.photoIDs,
    places := itinerary.places, picked := c.picked }

/-- What one call of `savePhoto(index:)` can do. -/
inductive SavePhotoCase (services : Services Image Data) (itinerary : CurrentItinerary Image)
    (user : Option String) (a k : ℕ) (c : SavingController Image Data) :
    SavingController Image Data → Prop
  /-- All photos are saved but nobody is signed in. -/
  | signedOut (hk : k = itinerary.places.length) (huser : user = none) :
      SavePhotoCase services itinerary user a k c
        (c.update a (afterSavePhoto itinerary.places.length user [] (.ended k)))
  /-- All photos are saved and the course is registered. -/
  | registers (uid : String) (hk : k = itinerary.places.length) (huser : user = some uid) :
      SavePhotoCase services itinerary user a k c
        ({ c with registered := c.registered ++ [registration services itinerary a uid c] }.update
          a (afterSavePhoto itinerary.places.length user [] (.updateChildValues k)))
  /-- The location has no photo, or it cannot be resized or encoded. -/
  | noPhoto (hk : k < itinerary.places.length)
      (hnone : (itinerary.locations[k]?.bind (uploadDataOf services)) = none) :
      SavePhotoCase services itinerary user a k c
        (c.update a (afterSavePhoto itinerary.places.length user [k] (.failed k)))
  /-- The upload of the location's photo is started. -/
  | uploads (ref : StorageReference Image Data) (hk : k < itinerary.places.length)
      (ha : ref.attempt = a) (hi : ref.index = k) (hfrom : ref.From services itinerary.places)
      (hsome : (itinerary.locations[k]?.bind (uploadDataOf services)).isSome) :
      SavePhotoCase services itinerary user a k c
        (c.update a (afterSavePhoto itinerary.places.length user [k]
          (.putData k itinerary.places.length ref)))

variable (itinerary : CurrentItinerary Image) (user : Option String)

/-- `savePhoto` does not trap on an index up to the current count. -/
theorem savePhoto_cases (services : Services Image Data) (a : ℕ) {k : ℕ}
    (c : SavingController Image Data) (hk : k ≤ itinerary.places.length) :
    ∃ c', savePhoto services itinerary user a k c = some c' ∧
      SavePhotoCase services itinerary user a k c c' := by
  have hcount : itinerary.LocationCount = itinerary.places.length := itinerary.LocationCount_eq
  have hcompose : ∀ (processed : List ℕ) (stage : Stage Image Data),
      ((c.update a fun att => { att with lastCount := itinerary.places.length, lastUser := user
        }).update a fun att => { att with processed := att.processed ++ processed }).setStage a
          stage = c.update a (afterSavePhoto itinerary.places.length user processed stage) := by
    intro processed stage
    simp only [SavingController.setStage, update_update]
    rfl
  simp only [savePhoto, hcount]
  rcases hk.eq_or_lt with heq | hlt
  · -- the completion is called
    have hset : ∀ (d : SavingController Image Data) (stage : Stage Image Data),
        (d.update a fun att => { att with lastCount := itinerary.places.length, lastUser := user
          }).setStage a stage =
          d.update a (afterSavePhoto itinerary.places.length user [] stage) := by
      intro d stage
      simp only [SavingController.setStage, update_update]
      congr 1
      funext att
      simp [afterSavePhoto]
    rw [if_pos heq]
    -- the completion looks for a signed-in user
    cases user with
    | none =>
      refine ⟨_, rfl, ?_⟩
      simp only [savedAllPhotos, hset]
      exact .signedOut heq rfl
    | some uid =>
      refine ⟨_, rfl, ?_⟩
      have hreg : SavePhotoCase services itinerary (some uid) a k c _ := .registers uid heq rfl
      rw [← hset] at hreg
      exact hreg
  · -- the location at `k` is processed
    rw [if_neg hlt.ne]
    have hloc : k < itinerary.locations.length := by
      simpa [CurrentItinerary.places] using hlt
    have hget : itinerary.getLocation k = some itinerary.locations[k] := by
      simp [CurrentItinerary.getLocation, hloc]
    simp only [savePhotoToDatabase, hget]
    -- the location is found, so only its photo can stop the chain
    cases hdata : uploadDataOf services itinerary.locations[k] with
    | none =>
      refine ⟨_, rfl, ?_⟩
      rw [hcompose]
      exact .noPhoto hlt (by simp [hloc, hdata])
    | some uploadData =>
      refine ⟨_, rfl, ?_⟩
      rw [hcompose]
      exact .uploads _ hlt rfl rfl ⟨by simp [CurrentItinerary.places, hloc], hdata⟩
        (by simp [hloc, hdata])

section Invariant

variable {itinerary user} {a k : ℕ} {c c' : SavingController Image Data}
  {att : Attempt Image Data}

/-- Each thing `savePhoto` can do keeps the invariant. -/
theorem SavePhotoCase.inv (hc : SavePhotoCase services itinerary user a k c c')
    (h : ControllerInv services itinerary.places c) (hatt : c.attempts[a]? = some att)
    (hstage : att.stage = .saving k) : ControllerInv services itinerary.places c' := by
  have hinv := h.attempts a att hatt
  have hown := hinv.own
  have hprocessed := hinv.processed
  have hregistrations := hinv.registrations
  have hcompletions := hinv.completions
  have hprogress := hinv.progressView
  simp only [hstage, Stage.index, Stage.reached, Stage.registrations, Stage.completions] at *
  cases hc with
  | signedOut hk huser =>
    refine h.update hatt ⟨hown, ?_, ⟨hk.symm, huser⟩, hregistrations, hcompletions, hprogress⟩
    simp [afterSavePhoto, hprocessed, Stage.reached]
  | noPhoto hk hnone =>
    refine h.update hatt ⟨hown, ?_, hk, hregistrations, hcompletions, hprogress⟩
    simp [afterSavePhoto, hprocessed, Stage.reached, List.range_succ]
  | uploads ref hk ha hi hfrom hsome =>
    refine h.update hatt ⟨hown, ?_, ⟨hk, le_rfl, rfl, ha, hi, hfrom⟩, hregistrations,
      hcompletions, hprogress⟩
    simp [afterSavePhoto, hprocessed, Stage.reached, List.range_succ]
  | registers uid hk huser =>
    have hreg : RegistrationInv services (registration services itinerary a uid c) :=
      ⟨rfl, hk ▸ hown, fun ref href => (h.photoIDs ref href).2⟩
    have hnew := h.extend hatt [] [registration services itinerary a uid c]
      (afterSavePhoto itinerary.places.length user [] (.updateChildValues k)) (by simp)
      (by simpa [registration] using hreg) ?_
    · simpa using hnew
    · refine ⟨by rw [List.append_nil]; exact hown, ?_,
        ⟨hk.symm, by simp [afterSavePhoto, huser]⟩, ?_, hcompletions, hprogress⟩
      · simp [afterSavePhoto, hprocessed, Stage.reached]
      · simp [hregistrations, afterSavePhoto, Stage.registrations, registration]

/-- A new attempt has recorded and registered nothing. -/
theorem inv_newAttempt {places : List GMSPlace} (h : ControllerInv services places c) :
    ControllerInv services places { c with attempts := c.attempts ++ [.start] } := by
  refine ⟨fun b att' hb => ?_, fun ref href => ?_, fun r hr => ?_⟩
  · rw [List.getElem?_append] at hb
    split at hb
    next => exact h.attempts b att' hb
    next hle =>
      obtain ⟨hb, rfl⟩ : b - c.attempts.length = 0 ∧ Attempt.start = att' := by
        simpa [List.getElem?_singleton] using hb
      -- the attempt that has just started
      have hbeq : b = c.attempts.length := by omega
      subst hbeq
      refine ⟨?_, rfl, Nat.zero_le _, ?_, rfl, rfl⟩
      · have hnone : c.photoIDs.filter (·.attempt = c.attempts.length) = [] := by
          simpa using fun ref href => (h.photoIDs ref href).1.ne
        simp [hnone, Attempt.start, Stage.index]
      · have hnone : c.registered.filter (·.attempt = c.attempts.length) = [] := by
          simpa using fun r hr => (h.registered r hr).1.ne
        simp [hnone, Attempt.start, Stage.registrations]
  · have hlt := (h.photoIDs ref href).1
    exact ⟨by simp only [List.length_append, List.length_singleton]; omega,
      (h.photoIDs ref href).2⟩
  · have hlt := (h.registered r hr).1
    exact ⟨by simp only [List.length_append, List.length_singleton]; omega,
      (h.registered r hr).2⟩

end Invariant

/-! ## One event of the controller -/

/-- No attempt is in the middle of a call: the main queue is between two events. -/
def Settled (c : SavingController Image Data) : Prop :=
  ∀ att ∈ c.attempts, ∀ k, att.stage ≠ .saving k

/-- The course that the event makes the controller register: the last photo URL of an attempt has
arrived, or "Yes" was tapped on an empty itinerary, and a user is signed in. -/
inductive NewRegistration (services : Services Image Data) (itinerary : CurrentItinerary Image)
    (user : Option String) (c : SavingController Image Data) :
    ControllerEvent → Registration Image Data → Prop
  | yes (uid : String) (hcount : itinerary.places.length = 0) (huser : user = some uid) :
      NewRegistration services itinerary user c .yes
        (registration services itinerary c.attempts.length uid c)
  | lastPhoto (a k n : ℕ) (ref : StorageReference Image Data) (uid : String)
      (hstage : c.stageOf a = some (.downloadURL k n ref))
      (hcount : k + 1 = itinerary.places.length) (huser : user = some uid) :
      NewRegistration services itinerary user c (.downloadURL a true)
        (registration services itinerary a uid { c with photoIDs := c.photoIDs ++ [ref] })

/-- What one event does to the controller, as far as the rest of the app can tell. -/
structure ControllerStep (services : Services Image Data) (itinerary : CurrentItinerary Image)
    (user : Option String) (c : SavingController Image Data) (e : ControllerEvent)
    (c' : SavingController Image Data) : Prop where
  inv : ControllerInv services itinerary.places c'
  settled : Settled c'
  picked : c'.picked = c.picked
  attempts : c'.attempts.length = c.attempts.length + if e = .yes then 1 else 0
  registered : (c'.registered = c.registered ∧
      ∀ r, ¬ NewRegistration services itinerary user c e r) ∨
    ∃ r, NewRegistration services itinerary user c e r ∧ c'.registered = c.registered ++ [r]

/-- No attempt waits for the event. -/
def Ignores (c : SavingController Image Data) : ControllerEvent → Prop
  | .yes => False
  | .putData a _ _ => ∀ k n ref, c.stageOf a ≠ some (.putData k n ref)
  | .downloadURL a _ => ∀ k n ref, c.stageOf a ≠ some (.downloadURL k n ref)
  | .updateChildValues a _ => ∀ k, c.stageOf a ≠ some (.updateChildValues k)

/-- What one event of the controller can do. -/
inductive ControllerCase (services : Services Image Data) (itinerary : CurrentItinerary Image)
    (user : Option String) (c : SavingController Image Data) :
    ControllerEvent → SavingController Image Data → Prop
  | ignored {e : ControllerEvent} (he : Ignores c e) :
      ControllerCase services itinerary user c e c
  /-- A new attempt starts with the first index. -/
  | yes {c' : SavingController Image Data}
      (hcase : SavePhotoCase services itinerary user c.attempts.length 0
        { c with attempts := c.attempts ++ [.start] } c') :
      ControllerCase services itinerary user c .yes c'
  | uploadFailed {a k n : ℕ} {ref : StorageReference Image Data} {metadata error : Bool}
      (hstage : c.stageOf a = some (.putData k n ref))
      (hfail : ¬ (error = false ∧ metadata = true)) :
      ControllerCase services itinerary user c (.putData a metadata error)
        (c.setStage a (.failed k))
  | uploaded {a k n : ℕ} {ref : StorageReference Image Data}
      (hstage : c.stageOf a = some (.putData k n ref)) :
      ControllerCase services itinerary user c (.putData a true false)
        (c.setStage a (.downloadURL k n ref))
  | noURL {a k n : ℕ} {ref : StorageReference Image Data}
      (hstage : c.stageOf a = some (.downloadURL k n ref)) :
      ControllerCase services itinerary user c (.downloadURL a false) (c.setStage a (.failed k))
  /-- The URL is recorded, and the attempt goes on with the next index. -/
  | recorded {a k n : ℕ} {ref : StorageReference Image Data} {c' : SavingController Image Data}
      (hstage : c.stageOf a = some (.downloadURL k n ref))
      (hcase : SavePhotoCase services itinerary user a (k + 1)
        ({ c with photoIDs := c.photoIDs ++ [ref] }.setStage a (.saving (k + 1))) c') :
      ControllerCase services itinerary user c (.downloadURL a true) c'
  | rejected {a k : ℕ} (hstage : c.stageOf a = some (.updateChildValues k)) :
      ControllerCase services itinerary user c (.updateChildValues a true)
        (c.setStage a (.rejected k))
  | finished {a k : ℕ} (hstage : c.stageOf a = some (.updateChildValues k)) :
      ControllerCase services itinerary user c (.updateChildValues a false)
        (c.update a fun att => { att with stage := .finished k, progressView := false,
                                          completions := att.completions + 1 })

section Step

variable {itinerary user} {a k : ℕ} {c c' : SavingController Image Data} {e : ControllerEvent}

variable (user) in
/-- No event of the controller traps, and each is one of these cases. -/
theorem controllerStep_cases (h : ControllerInv services itinerary.places c)
    (e : ControllerEvent) :
    ∃ c', controllerStep services itinerary user c e = some c' ∧
      ControllerCase services itinerary user c e c' := by
  cases e with
  | yes =>
    obtain ⟨c', hc', hcase⟩ := savePhoto_cases itinerary user services c.attempts.length
      { c with attempts := c.attempts ++ [.start] } (Nat.zero_le _)
    exact ⟨c', hc', .yes hcase⟩
  | putData a metadata error =>
    simp only [controllerStep, putDataCompletion]
    split
    next k n ref hstage =>
      cases error with
      | true => exact ⟨_, rfl, .uploadFailed hstage (by simp)⟩
      | false =>
        cases metadata with
        | true => exact ⟨_, rfl, .uploaded hstage⟩
        | false => exact ⟨_, rfl, .uploadFailed hstage (by simp)⟩
    next hnone => exact ⟨c, rfl, .ignored hnone⟩
  | downloadURL a url =>
    simp only [controllerStep, downloadURLCompletion]
    split
    next k n ref hstage =>
      cases url with
      | true =>
        -- the captured count is still within the itinerary, so the next index is in range
        obtain ⟨att, -, hattStage, hholds⟩ := h.stageInv hstage
        simp only [Attempt.StageInv, hattStage] at hholds
        obtain ⟨hk, hn, -⟩ := hholds
        obtain ⟨c', hc', hcase⟩ := savePhoto_cases itinerary user services a
          ({ c with photoIDs := c.photoIDs ++ [ref] }.setStage a (.saving (k + 1)))
          (by omega : k + 1 ≤ _)
        rw [if_pos rfl, if_pos (by omega : k + 1 ≤ n)]
        exact ⟨c', hc', .recorded hstage hcase⟩
      | false => exact ⟨_, rfl, .noURL hstage⟩
    next hnone => exact ⟨c, rfl, .ignored hnone⟩
  | updateChildValues a err =>
    simp only [controllerStep, updateChildValuesCompletion]
    split
    next k hstage =>
      cases err with
      | true => exact ⟨_, rfl, .rejected hstage⟩
      | false => exact ⟨_, rfl, .finished hstage⟩
    next hnone => exact ⟨c, rfl, .ignored hnone⟩

theorem controllerCase_of_step (h : ControllerInv services itinerary.places c)
    (hstep : controllerStep services itinerary user c e = some c') :
    ControllerCase services itinerary user c e c' := by
  obtain ⟨c'', hc'', hcase⟩ := controllerStep_cases user h e
  exact Option.some.inj (hc''.symm.trans hstep) ▸ hcase

theorem Settled.update_self (h : Settled c) {f : Attempt Image Data → Attempt Image Data}
    (hf : ∀ att k, (f att).stage ≠ .saving k) : Settled (c.update a f) :=
  forall_attempts_update hf fun _ att _ hb => h att (List.mem_of_getElem? hb)

theorem Settled.setStage (h : Settled c) {stage : Stage Image Data}
    (hstage : ∀ k, stage ≠ .saving k) : Settled (c.setStage a stage) :=
  h.update_self fun _ => hstage

/-- A call of `savePhoto` leaves its attempt settled. -/
theorem SavePhotoCase.settled (hc : SavePhotoCase services itinerary user a k c c')
    (h : ∀ b att, b ≠ a → c.attempts[b]? = some att → ∀ k, att.stage ≠ .saving k) :
    Settled c' := by
  cases hc <;> exact forall_attempts_update (fun att k hstage => by cases hstage) h

theorem SavePhotoCase.length_attempts (hc : SavePhotoCase services itinerary user a k c c') :
    c'.attempts.length = c.attempts.length := by
  cases hc <;> simp

theorem SavePhotoCase.picked_eq (hc : SavePhotoCase services itinerary user a k c c') :
    c'.picked = c.picked := by
  cases hc <;> rfl

/-- `savePhoto` registers a course exactly when all photos are saved and a user is signed in. -/
theorem SavePhotoCase.registered_eq (hc : SavePhotoCase services itinerary user a k c c') :
    (c'.registered = c.registered ∧ ¬ (k = itinerary.places.length ∧ user ≠ none)) ∨
      ∃ uid, k = itinerary.places.length ∧ user = some uid ∧
        c'.registered = c.registered ++ [registration services itinerary a uid c] := by
  cases hc with
  | signedOut hk huser => exact Or.inl ⟨rfl, fun h => h.2 huser⟩
  | registers uid hk huser => exact Or.inr ⟨uid, hk, huser, rfl⟩
  | noPhoto hk => exact Or.inl ⟨rfl, fun h => hk.ne h.1⟩
  | uploads ref hk => exact Or.inl ⟨rfl, fun h => hk.ne h.1⟩

theorem ControllerCase.inv (hcase : ControllerCase services itinerary user c e c')
    (h : ControllerInv services itinerary.places c) :
    ControllerInv services itinerary.places c' := by
  cases hcase with
  | ignored => exact h
  | yes hcase => exact hcase.inv (inv_newAttempt h) List.getElem?_concat_length rfl
  | uploadFailed hstageOf =>
    obtain ⟨att, hatt, hstage, hholds⟩ := h.stageInv hstageOf
    simp only [Attempt.StageInv, hstage] at hholds
    exact h.setStage hatt hstage rfl (hholds.2.2.1 ▸ hholds.1)
  | uploaded hstageOf =>
    obtain ⟨att, hatt, hstage, hholds⟩ := h.stageInv hstageOf
    simp only [Attempt.StageInv, hstage] at hholds
    exact h.setStage hatt hstage rfl hholds
  | noURL hstageOf =>
    obtain ⟨att, hatt, hstage, hholds⟩ := h.stageInv hstageOf
    simp only [Attempt.StageInv, hstage] at hholds
    exact h.setStage hatt hstage rfl (hholds.2.2.1 ▸ hholds.1)
  | @recorded a k n ref _ hstageOf hcase =>
    obtain ⟨att, hatt, hstage, -⟩ := h.stageInv hstageOf
    have hatt' := getElem?_attempts_setStage_self hatt (.saving (k + 1))
    exact hcase.inv (h.record hatt hstage) hatt' rfl
  | rejected hstageOf =>
    obtain ⟨att, hatt, hstage, hholds⟩ := h.stageInv hstageOf
    simp only [Attempt.StageInv, hstage] at hholds
    exact h.setStage hatt hstage rfl hholds
  | finished hstageOf =>
    obtain ⟨att, hatt, hstage, hholds⟩ := h.stageInv hstageOf
    have hinv := h.attempts _ att hatt
    have hcompletions := hinv.completions
    have hown := hinv.own
    have hprocessed := hinv.processed
    have hregistrations := hinv.registrations
    simp only [Attempt.StageInv, hstage] at hholds
    rw [hstage] at hcompletions hown hprocessed hregistrations
    refine h.update hatt ⟨hown, hprocessed, hholds, hregistrations, ?_, ?_⟩
    · rw [hcompletions]
      rfl
    · simp [Stage.completions]

theorem ControllerCase.settled (hcase : ControllerCase services itinerary user c e c')
    (hs : Settled c) : Settled c' := by
  cases hcase with
  | ignored => exact hs
  | yes hcase =>
    refine hcase.settled fun b att hb hatt => ?_
    -- the other attempts were there before
    rw [List.getElem?_append] at hatt
    split at hatt
    next => exact hs att (List.mem_of_getElem? hatt)
    next hle =>
      have hb0 : b - c.attempts.length ≠ 0 := by omega
      simp [hb0] at hatt
  -- recording moves attempt `a` only
  | recorded hstageOf hcase =>
    refine hcase.settled fun b att hb hatt => ?_
    rw [setStage, getElem?_attempts_update, if_neg hb.symm] at hatt
    exact hs att (List.mem_of_getElem? hatt)
  | uploadFailed | uploaded | noURL | rejected => exact hs.setStage (by simp)
  | finished => exact hs.update_self (by simp)

theorem ControllerCase.picked_eq (hcase : ControllerCase services itinerary user c e c') :
    c'.picked = c.picked := by
  cases hcase with
  | yes hcase => exact hcase.picked_eq
  | recorded hstageOf hcase => exact hcase.picked_eq
  | _ => rfl

/-- "Yes" starts an attempt, and nothing else does. -/
theorem ControllerCase.length_attempts (hcase : ControllerCase services itinerary user c e c') :
    c'.attempts.length = c.attempts.length + if e = .yes then 1 else 0 := by
  cases hcase with
  | ignored he =>
    have hyes : e ≠ .yes := by
      rintro rfl
      exact he
    simp [hyes]
  | yes hcase =>
    rw [hcase.length_attempts]
    simp
  | recorded hstageOf hcase =>
    rw [hcase.length_attempts]
    simp [setStage]
  | uploadFailed | uploaded | noURL | rejected | finished => simp [setStage]

/-- Only a call of `savePhoto` can register a course. -/
theorem ControllerCase.registered_eq (hcase : ControllerCase services itinerary user c e c') :
    (c'.registered = c.registered ∧ ∀ r, ¬ NewRegistration services itinerary user c e r) ∨
      ∃ r, NewRegistration services itinerary user c e r ∧
        c'.registered = c.registered ++ [r] := by
  cases hcase with
  | ignored he =>
    refine Or.inl ⟨rfl, fun r hr => ?_⟩
    cases hr with
    | yes => exact he
    | lastPhoto a k n ref uid hstage => exact he k n ref hstage
  | yes hcase =>
    rcases hcase.registered_eq with ⟨hreg, hnot⟩ | ⟨uid, hcount, huser, hreg⟩
    · refine Or.inl ⟨hreg, fun r hr => ?_⟩
      cases hr with
      | yes uid hcount huser => exact hnot ⟨hcount.symm, by simp [huser]⟩
    · exact Or.inr ⟨_, .yes uid hcount.symm huser, hreg⟩
  | @recorded a k n ref _ hstageOf hcase =>
    rcases hcase.registered_eq with ⟨hreg, hnot⟩ | ⟨uid, hcount, huser, hreg⟩
    · refine Or.inl ⟨hreg, fun r hr => ?_⟩
      cases hr with
      | lastPhoto a k' n' ref' uid hstage' hcount huser =>
        obtain ⟨rfl, -, -⟩ : k = k' ∧ n = n' ∧ ref = ref' := by
          simpa using hstageOf.symm.trans hstage'
        exact hnot ⟨hcount, by simp [huser]⟩
    · exact Or.inr ⟨_, .lastPhoto a k n ref uid hstageOf hcount huser, hreg⟩
  | uploadFailed | uploaded | noURL | rejected | finished =>
    exact Or.inl ⟨rfl, fun r hr => by cases hr⟩

variable (user) in
/-- Every event of the controller is defined and does what `ControllerStep` says. -/
theorem controllerStep_spec (h : ControllerInv services itinerary.places c) (hs : Settled c)
    (e : ControllerEvent) :
    ∃ c', controllerStep services itinerary user c e = some c' ∧
      ControllerStep services itinerary user c e c' := by
  obtain ⟨c', hc', hcase⟩ := controllerStep_cases user h e
  exact ⟨c', hc', hcase.inv h, hcase.settled hs, hcase.picked_eq, hcase.length_attempts,
    hcase.registered_eq⟩

/-- What is known of a course that an event registers. -/
theorem NewRegistration.inv {e : ControllerEvent} {r : Registration Image Data}
    (hr : NewRegistration services itinerary user c e r)
    (h : ControllerInv services itinerary.places c) : RegistrationInv services r := by
  cases hr with
  | yes uid hcount huser =>
    have hnone : c.photoIDs.filter (·.attempt = c.attempts.length) = [] := by
      simpa using fun ref href => (h.photoIDs ref href).1.ne
    -- an attempt that has just started has recorded nothing, and there is nothing to record
    refine ⟨rfl, ?_, fun ref href => (h.photoIDs ref href).2⟩
    show (c.photoIDs.filter (·.attempt = c.attempts.length)).map (·.index) =
      List.range itinerary.places.length
    rw [hnone, hcount]
    rfl
  | lastPhoto a k n ref uid hstageOf hcount huser =>
    obtain ⟨att, hatt, hstage⟩ := (c.stageOf_eq_some_iff a).mp hstageOf
    -- the course is built from the URLs recorded up to this one
    have hrecord := h.record hatt hstage
    refine ⟨rfl, ?_, fun ref href => (hrecord.photoIDs ref href).2⟩
    have hown := (hrecord.attempts a _ (getElem?_attempts_setStage_self hatt (.saving (k + 1)))).own
    show _ = List.range itinerary.places.length
    rw [← hcount]
    exact hown

/-- An event registers at most one course. -/
theorem NewRegistration.unique {e : ControllerEvent} {r r' : Registration Image Data}
    (hr : NewRegistration services itinerary user c e r)
    (hr' : NewRegistration services itinerary user c e r') : r = r' := by
  cases hr with
  | yes uid hcount huser =>
    cases hr' with
    | yes uid' hcount' huser' =>
      -- the user is read at the same moment
      obtain rfl : uid = uid' := by simpa using huser.symm.trans huser'
      rfl
  | lastPhoto a k n ref uid hstage hcount huser =>
    cases hr' with
    | lastPhoto a' k' n' ref' uid' hstage' hcount' huser' =>
      obtain ⟨-, -, rfl⟩ : k = k' ∧ n = n' ∧ ref = ref' := by
        simpa using hstage.symm.trans hstage'
      obtain rfl : uid = uid' := by simpa using huser.symm.trans huser'
      rfl

end Step

/-! ## Runs of the machine -/

/-- The invariant of the machine between two events. -/
def Inv (services : Services Image Data) (s : State Image Data) : Prop :=
  ControllerInv services s.itinerary.places s.controller ∧ Settled s.controller

theorem inv_fresh (services : Services Image Data) (itinerary : CurrentItinerary Image)
    (user : Option String) :
    Inv services (State.fresh itinerary user) :=
  ⟨⟨by simp [State.fresh, SavingController.fresh], by simp [State.fresh, SavingController.fresh],
    by simp [State.fresh, SavingController.fresh]⟩,
    by simp [Settled, State.fresh, SavingController.fresh]⟩

/-- Recording a pick on the controller changes nothing that the chains use. -/
theorem inv_picked {places picked : List GMSPlace} {c : SavingController Image Data}
    (h : ControllerInv services places c) : ControllerInv services places { c with picked } :=
  ⟨h.attempts, h.photoIDs, h.registered⟩

/-- The event is a tap on "Yes". -/
def Event.startsAttempt : Event Image → Bool
  | .controller .yes => true
  | _ => false

/-- The course that an event of the machine registers. -/
def NewCourse (services : Services Image Data) (s : State Image Data) :
    Event Image → Registration Image Data → Prop
  | .controller e, r => NewRegistration services s.itinerary s.currentUser s.controller e r
  | _, _ => False

/-- What one event of the machine does. -/
structure StepSpec (services : Services Image Data) (s : State Image Data) (e : Event Image)
    (s' : State Image Data) : Prop where
  inv : Inv services s'
  attempts : s'.controller.attempts.length =
    s.controller.attempts.length + if e.startsAttempt then 1 else 0
  registered : (s'.controller.registered = s.controller.registered ∧
      ∀ r, ¬ NewCourse services s e r) ∨
    ∃ r, NewCourse services s e r ∧ s'.controller.registered = s.controller.registered ++ [r]

/-- No event of the machine traps, and every event does what `StepSpec` says. -/
theorem step_spec {s : State Image Data} (h : Inv services s) (e : Event Image) :
    ∃ s', step services s e = some s' ∧ StepSpec services s e s' := by
  obtain ⟨hc, hs⟩ := h
  cases e with
  | controller e =>
    obtain ⟨c', hc', hstep⟩ := controllerStep_spec s.currentUser hc hs e
    refine ⟨{ s with controller := c' }, by simp [step, hc'], ⟨hstep.inv, hstep.settled⟩, ?_,
      hstep.registered⟩
    rw [hstep.attempts]
    cases e <;> rfl
  | addLocation place =>
    refine ⟨_, rfl, ⟨inv_picked (hc.mono ?_), hs⟩, rfl, Or.inl ⟨rfl, fun r hr => hr⟩⟩
    rw [CurrentItinerary.places_addLocation]
    exact List.prefix_append _ _
  | addPhotoToLocation index image =>
    refine ⟨_, rfl, ⟨?_, hs⟩, rfl, Or.inl ⟨rfl, fun r hr => hr⟩⟩
    rw [CurrentItinerary.places_addPhotoToLocation]
    exact hc
  | authStateChanged user => exact ⟨_, rfl, ⟨hc, hs⟩, rfl, Or.inl ⟨rfl, fun r hr => hr⟩⟩

/-- No run of the machine traps, and every state it reaches has the invariant. -/
theorem exec_inv (services : Services Image Data) (itinerary : CurrentItinerary Image)
    (user : Option String) (es : List (Event Image)) :
    ∃ s, (step services).exec (State.fresh itinerary user) es = some s ∧ Inv services s := by
  refine PartialStep.exec_total es (fun e _ s h => ?_) (inv_fresh services itinerary user)
  obtain ⟨s', hs', hspec⟩ := step_spec h e
  exact ⟨s', hs', hspec.inv⟩

end Save

end DateCourse
