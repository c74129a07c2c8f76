import DateCourse.Editor.SaveCorrectness
import DateCourse.Feed.Thumbnail

/-!
# From a saved course to its cell in the feed

A course is registered as a dictionary, kept by the database, decoded by `createCourseData` and
shown by a cell. Two links of this chain can trap: the database does not keep an empty list of
images, which the decoder force-casts, and the block that shows a thumbnail force-unwraps the
decoded image. `loadsAndShows_iff` says that nothing else goes wrong.

## Main definitions

* `SavedEntry`: a course that some run of the editor has handed to the database;
* `snapshot`: what the database returns for the `courses` node;
* `IsDecodedFrom`: a decoded course has the fields of the dictionary that was saved;
* `LoadsAndShows`: a snapshot is decoded completely and each of its courses can be shown.

## Main results

* `readBackChildren_courseDictionary`: a dictionary with an image is read back as it was written;
* `loadsAndShows_iff`: the exact condition.
-/

namespace DateCourse

open TreeStore Value Save

variable {Image Data ThumbnailImage Body URL : Type}

/-! ## Registered courses -/

/-- What is known of a course that a run has registered. -/
theorem registrationInv_of_exec {services : Services Image Data}
    {itinerary : CurrentItinerary Image} {user : Option String} {es : List (Event Image)}
    {s : State Image Data} {r : Registration Image Data}
    (hs : (step services).exec (State.fresh itinerary user) es = some s)
    (hr : r ∈ s.controller.registered) : RegistrationInv services r := by
  obtain ⟨t, ht, hinv⟩ := exec_inv services itinerary user es
  obtain rfl : t = s := Option.some.inj (ht.symm.trans hs)
  exact (hinv.1.registered r hr).2

/-- A course has no images exactly when it was saved from an empty itinerary. -/
theorem RegistrationInv.images_eq_nil_iff {services : Services Image Data}
    {r : Registration Image Data} (h : RegistrationInv services r) :
    r.images = [] ↔ r.places = [] := by
  constructor
  · intro himages
    have hown := congrArg List.length h.own
    rw [himages] at hown
    simpa using hown.symm
  · intro hplaces
    rw [List.eq_nil_iff_forall_not_mem]
    intro ref href
    have hplace := (h.images ref href).place
    simp [hplaces] at hplace

/-- A child of the `courses` node, saved by the app: the key it was given, and the course that a
run of the editor registered. -/
structure SavedEntry (services : Services Image Data) where
  key : String
  registration : Registration Image Data
  registered : ∃ itinerary user es s,
    (step services).exec (State.fresh itinerary user) es = some s ∧
      registration ∈ s.controller.registered

namespace SavedEntry

variable {services : Services Image Data} (e : SavedEntry services)

theorem inv : RegistrationInv services e.registration := by
  obtain ⟨itinerary, user, es, s, hs, hr⟩ := e.registered
  exact registrationInv_of_exec hs hr

/-- The URL strings of the saved photos. -/
def photoURLs : List String :=
  e.registration.images.map fun ref => services.absoluteString ref.name

end SavedEntry

/-- The children of the `courses` node as a snapshot has them, in the order of the enumeration. -/
def snapshot {services : Services Image Data} (entries : List (SavedEntry services)) :
    List (String × Value) :=
  readBackChildren (entries.map fun e => (e.key, .object e.registration.course))

/-! ## The encoder, the store and the decoder -/

section Decode

variable (services : Services Image Data) (uid : String)
  (photoIDs : List (StorageReference Image Data))

/-- The decoded form of the dictionary that `saveItinerary` builds. -/
def decodedCourse : CourseData :=
  .init ["hi my name is yuna"] (photoIDs.map fun ref => services.absoluteString ref.name) ""
    "New Course" uid

/-- A dictionary with at least one image is read back as it was written. -/
theorem readBackChildren_courseDictionary (h : photoIDs ≠ []) :
    readBackChildren (courseDictionary services uid photoIDs) =
      courseDictionary services uid photoIDs := by
  have hurls : photoIDs.map (fun ref => services.absoluteString ref.name) ≠ [] := by simpa using h
  have hdescriptions : ["hi my name is yuna"] ≠ [] := by simp
  simp [readBackChildren_eq_filterMap, courseDictionary, readBack_strings hurls,
    readBack_strings hdescriptions]

/-- Without images, the key `images` is absent. -/
theorem readBackChildren_courseDictionary_nil :
    readBackChildren (courseDictionary services uid []) =
      (courseDictionary services uid []).filter (·.1 ≠ "images") := by
  have hdescriptions : ["hi my name is yuna"] ≠ [] := by simp
  simp [readBackChildren_eq_filterMap, courseDictionary, readBack_strings hdescriptions]

/-- What the store and the decoder make of a registered dictionary. -/
theorem exists_readBack_courseDictionary :
    ∃ w, (object (courseDictionary services uid photoIDs)).readBack = some w ∧
      courseOfEntry w =
        if photoIDs = [] then none else some (decodedCourse services uid photoIDs) := by
  rw [readBack_object]
  -- without images the decoder misses the key, otherwise the dictionary comes back unchanged
  by_cases h : photoIDs = []
  · subst h
    rw [readBackChildren_courseDictionary_nil, if_pos rfl]
    exact ⟨_, rfl, rfl⟩
  · rw [readBackChildren_courseDictionary services uid photoIDs h, if_neg h]
    exact ⟨_, rfl, rfl⟩

end Decode

namespace SavedEntry

variable {services : Services Image Data} (e : SavedEntry services)

/-- The course that the decoder should make of an entry. -/
def courseData : CourseData :=
  decodedCourse services e.registration.uid e.registration.images

@[simp]
theorem urls_courseData : e.courseData.urls = e.photoURLs := rfl

theorem exists_readBack :
    ∃ w, (object e.registration.course).readBack = some w ∧
      courseOfEntry w = if e.registration.places = [] then none else some e.courseData := by
  have h := exists_readBack_courseDictionary services e.registration.uid e.registration.images
  simp only [e.inv.images_eq_nil_iff] at h
  rw [e.inv.course]
  exact h

end SavedEntry

section Snapshot

variable {services : Services Image Data}

/-- An entry of a snapshot is what was read back of a saved entry. -/
theorem mem_snapshot_iff {entries : List (SavedEntry services)} {c : String × Value} :
    c ∈ snapshot entries ↔
      ∃ e ∈ entries, e.key = c.1 ∧ (object e.registration.course).readBack = some c.2 := by
  obtain ⟨key, v⟩ := c
  simp only [snapshot, readBackChildren_eq_filterMap, List.mem_filterMap, List.mem_map,
    Option.map_eq_some_iff, Prod.mk.injEq]
  constructor
  · rintro ⟨_, ⟨e, he, rfl⟩, w, hw, rfl, rfl⟩
    exact ⟨e, he, rfl, hw⟩
  · rintro ⟨e, he, rfl, hw⟩
    exact ⟨_, ⟨e, he, rfl⟩, v, hw, rfl, rfl⟩

/-- The decoder traps on a snapshot exactly when an entry was saved from an empty itinerary. -/
theorem createCourseData_snapshot_isSome_iff (courses : List CourseData)
    (entries : List (SavedEntry services)) :
    (createCourseData courses (snapshot entries)).isSome ↔
      ∀ e ∈ entries, e.registration.places ≠ [] := by
  rw [createCourseData_isSome_iff]
  constructor
  -- an entry of an empty itinerary is in the snapshot but does not decode
  · intro h e he hplaces
    obtain ⟨w, hw, hdecode⟩ := e.exists_readBack
    have hsome := h (e.key, w) (mem_snapshot_iff.mpr ⟨e, he, rfl, hw⟩)
    rw [if_pos hplaces] at hdecode
    simp [hdecode] at hsome
  · intro h c hc
    obtain ⟨e, he, -, hread⟩ := mem_snapshot_iff.mp hc
    obtain ⟨w, hw, hdecode⟩ := e.exists_readBack
    obtain rfl : w = c.2 := Option.some.inj (hw.symm.trans hread)
    rw [if_neg (h e he)] at hdecode
    rw [hdecode, Option.isSome_some]

/-- Otherwise it appends the courses of the entries, in order. -/
theorem createCourseData_snapshot (courses : List CourseData) :
    ∀ (entries : List (SavedEntry services)), (∀ e ∈ entries, e.registration.places ≠ []) →
      createCourseData courses (snapshot entries) = some (courses ++ entries.map (·.courseData))
  | [], _ => by simp [snapshot, readBackChildren_eq_filterMap, createCourseData]
  | e :: entries, h => by
    obtain ⟨he, hrest⟩ := List.forall_mem_cons.mp h
    obtain ⟨w, hw, hdecode⟩ := e.exists_readBack
    have hsnapshot : snapshot (e :: entries) = (e.key, w) :: snapshot entries := by
      simp [snapshot, readBackChildren_eq_filterMap, hw]
    have ih := createCourseData_snapshot (courses ++ [e.courseData]) entries hrest
    rw [hsnapshot, createCourseData, hdecode, if_neg he]
    simpa using ih

end Snapshot

/-! ## Showing a course -/

/-- The outcomes of a thumbnail request: an error, or a body, which may or may not be an image. -/
inductive ThumbnailOutcome (Body : Type)
  | error
  | body (data : Body)

/-- What the completion handler is called with. -/
def ThumbnailOutcome.result : ThumbnailOutcome Body → DataTaskResult Body
  | .error => { data := none, error := true }
  | .body data => { data := some data, error := false }

section Show

variable (loading : ImageLoading ThumbnailImage Body URL)
  (cell : CourseCollectionViewCell ThumbnailImage)

/-- The cell can be configured with the course and survives the outcome of its request. -/
def ShowsCourse (outcome : ThumbnailOutcome Body) (course : CourseData) : Prop :=
  ∃ cell' task, cell.configure loading course = some (cell', task) ∧
    (cell'.answer loading task outcome.result).isSome

/-- The cell would have to show a body that is not an image: the first image of the course is not
in its cache, and the request for it returns something else. -/
def ReceivesNonImage (outcome : ThumbnailOutcome Body) (urlString : String) : Prop :=
  cell.imageView.imageCache urlString = none ∧
    ∃ data, outcome = .body data ∧ loading.image data = none

/-- A course with an image is shown unless the request for the image returns something else. -/
theorem showsCourse_iff {course : CourseData} {urlString : String} (outcome : ThumbnailOutcome Body)
    (hfirst : course.urls[0]? = some urlString) (hurl : (loading.url urlString).isSome) :
    ShowsCourse loading cell outcome course ↔
      ¬ ReceivesNonImage loading cell outcome urlString := by
  obtain ⟨url, hurl⟩ := Option.isSome_iff_exists.mp hurl
  unfold ShowsCourse ReceivesNonImage
  cases hcache : cell.imageView.imageCache urlString with
  | some image =>
    -- the request is never made
    have hconfigure := CourseCollectionViewCell.configure_of_load loading hfirst
      (CustomImageView.loadImageUsingUrlString_of_cached loading hcache)
    exact iff_of_true ⟨_, none, hconfigure, rfl⟩ (by simp)
  | none =>
    have hconfigure := CourseCollectionViewCell.configure_of_load loading hfirst
      (CustomImageView.loadImageUsingUrlString_of_not_cached loading hcache hurl)
    simp only [hconfigure, Option.some.injEq, Prod.mk.injEq]
    -- the request is made, and its answer decides
    constructor
    · rintro ⟨cell', task, ⟨rfl, rfl⟩, hanswer⟩ ⟨-, data, rfl, himage⟩
      rw [CourseCollectionViewCell.answer_isSome_iff] at hanswer
      simp [ThumbnailOutcome.result, himage] at hanswer
    · intro hreceives
      refine ⟨_, _, ⟨rfl, rfl⟩, ?_⟩
      rw [CourseCollectionViewCell.answer_isSome_iff]
      cases outcome with
      | error => exact Or.inl rfl
      | body data =>
        have himage : loading.image data ≠ none := fun h => hreceives ⟨trivial, data, rfl, h⟩
        exact Or.inr ⟨data, rfl, Option.isSome_iff_ne_none.mpr himage⟩

end Show

/-! ## The whole chain -/

/-- A decoded course has the fields of the dictionary that was saved. -/
structure IsDecodedFrom (saved : List (String × Value)) (course : CourseData) : Prop where
  urls : saved.lookup "images" = some (.strings course.urls)
  descriptions : saved.lookup "descriptions" = some (.strings course.descriptions)
  intro : saved.lookup "intro" = some (.string course.introduction)
  title : saved.lookup "title" = some (.string course.courseTitle)
  user : saved.lookup "user" = some (.string course.courseUser)

theorem SavedEntry.isDecodedFrom {services : Services Image Data} (e : SavedEntry services) :
    IsDecodedFrom e.registration.course e.courseData := by
  rw [e.inv.course]
  exact ⟨rfl, rfl, rfl, rfl, rfl⟩

/-- The decoder does not trap on the snapshot of `entries` and appends exactly one course for each
entry, with the fields that were saved; and each of these courses can be shown by `cell`. -/
def LoadsAndShows {services : Services Image Data}
    (loading : ImageLoading ThumbnailImage Body URL) (courses : List CourseData)
    (entries : List (SavedEntry services)) (cell : CourseCollectionViewCell ThumbnailImage)
    (outcome : ThumbnailOutcome Body) : Prop :=
  ∃ decoded, createCourseData courses (snapshot entries) = some (courses ++ decoded) ∧
    List.Forall₂ (fun e course => IsDecodedFrom e.registration.course course) entries decoded ∧
    ∀ course ∈ decoded, ShowsCourse loading cell outcome course

/-- What the app has saved can be loaded and shown if and only if no entry was saved from an empty
itinerary and no thumbnail request returns a body that is not an image. The hypothesis says that
`NSURL` parses the string of a download URL. -/
theorem loadsAndShows_iff {services : Services Image Data}
    (loading : ImageLoading ThumbnailImage Body URL)
    (hurl : ∀ name, (loading.url (services.absoluteString name)).isSome)
    (courses : List CourseData) (entries : List (SavedEntry services))
    (cell : CourseCollectionViewCell ThumbnailImage) (outcome : ThumbnailOutcome Body) :
    LoadsAndShows loading courses entries cell outcome ↔
      ∀ e ∈ entries, e.registration.places ≠ [] ∧
        ∀ urlString ∈ e.photoURLs.head?, ¬ ReceivesNonImage loading cell outcome urlString := by
  have hshows : ∀ e : SavedEntry services, e.registration.places ≠ [] →
      (ShowsCourse loading cell outcome e.courseData ↔
        ∀ urlString ∈ e.photoURLs.head?, ¬ ReceivesNonImage loading cell outcome urlString) := by
    intro e he
    obtain ⟨ref, images, himages⟩ := List.exists_cons_of_ne_nil
      (mt e.inv.images_eq_nil_iff.mp he)
    have hurls : e.photoURLs = services.absoluteString ref.name ::
        images.map fun ref => services.absoluteString ref.name := by
      rw [SavedEntry.photoURLs, himages, List.map_cons]
    have hfirst : e.courseData.urls[0]? = some (services.absoluteString ref.name) := by
      rw [e.urls_courseData, hurls]
      rfl
    rw [showsCourse_iff loading cell outcome hfirst (hurl ref.name), hurls]
    simp
  constructor
  · rintro ⟨decoded, hdecoded, -, hall⟩ e he
    -- the decoder has not trapped, so every entry has a place
    have hplaces :=
      (createCourseData_snapshot_isSome_iff courses entries).mp (by simp [hdecoded])
    have happend := createCourseData_snapshot courses entries hplaces
    obtain rfl : decoded = entries.map (·.courseData) := by simpa using hdecoded.symm.trans happend
    exact ⟨hplaces e he, (hshows e (hplaces e he)).mp (hall _ (List.mem_map_of_mem he))⟩
  · intro h
    refine ⟨entries.map (·.courseData),
      createCourseData_snapshot courses entries fun e he => (h e he).1, ?_,
      fun course hcourse => ?_⟩
    · rw [List.forall₂_map_right_iff, List.forall₂_same]
      exact fun e _ => e.isDecodedFrom
    · obtain ⟨e, he, rfl⟩ := List.mem_map.mp hcourse
      exact (hshows e (h e he).1).mpr (h e he).2

/-! ## Concrete entries -/

/-- URLs that always parse, and bodies that are images exactly when they are `some`. -/
def plainLoading : ImageLoading Unit (Option Unit) String := { url := some, image := id }

/-- A cell that has shown nothing yet. -/
def freshCell : CourseCollectionViewCell Unit :=
  { currentCourse := none, courseTitle := none,
    imageView := { imageUrlString := none, imageCache := fun _ => none, image := none } }

/-- The two locations of `twoStops`, saved without an error. -/
def twoStopsEntry : SavedEntry plainServices where
  key := "twoStops"
  registration := registration plainServices twoStops 0 "uid"
    { photoIDs := [⟨0, 0, (), ⟨placeAt 0, some ()⟩⟩, ⟨0, 1, (), ⟨placeAt 1, some ()⟩⟩],
      attempts := [], registered := [], picked := [] }
  registered := ⟨twoStops, some "uid", [.controller .yes, .controller (.putData 0 true false),
    .controller (.downloadURL 0 true), .controller (.putData 0 true false),
    .controller (.downloadURL 0 true)], _, rfl, List.mem_singleton_self _⟩

/-- `loadsAndShows_iff` on an entry with two images, with an image for an answer. -/
theorem loadsAndShows_twoStopsEntry :
    LoadsAndShows plainLoading [] [twoStopsEntry] freshCell (.body (some ())) := by
  refine (loadsAndShows_iff plainLoading (fun name => rfl) [] [twoStopsEntry] freshCell
    (.body (some ()))).mpr fun e he => ?_
  rw [List.mem_singleton.mp he]
  refine ⟨List.cons_ne_nil _ _, fun urlString _ hreceives => ?_⟩
  obtain ⟨-, data, hdata, himage⟩ := hreceives
  cases hdata
  cases himage

/-- "Yes" on an empty itinerary. -/
def emptyEntry : SavedEntry plainServices where
  key := "empty"
  registration := registration plainServices .init 0 "uid" .fresh
  registered := ⟨.init, some "uid", [.controller .yes], _, rfl, List.mem_singleton_self _⟩

/-- The course saved from an empty itinerary cannot be loaded. -/
theorem emptyEntry_not_loadsAndShows :
    ¬ LoadsAndShows plainLoading [] [emptyEntry] freshCell .error := by
  rintro ⟨decoded, hdecoded, -, -⟩
  have hsome : (createCourseData [] (snapshot [emptyEntry])).isSome := by
    rw [hdecoded, Option.isSome_some]
  have hplaces := (createCourseData_snapshot_isSome_iff [] [emptyEntry]).mp hsome emptyEntry
    (List.mem_singleton_self _)
  exact hplaces rfl

end DateCourse
