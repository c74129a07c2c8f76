import Mathlib.Logic.Function.Basic
import DateCourse.Model.DataModel

/-!
# Course thumbnails

`CustomImageView` loads the image of a URL string, from its cache or with a request, and
`CourseCollectionViewCell` shows the first image of a course with it. A forced unwrap of a missing
value is a trap (`none`). The functions of Foundation and UIKit that parse a URL and decode an
image are parameters.

## Main definitions

* `CustomImageView` and `loadImageUsingUrlString`, which returns the request it starts, if any;
* `completionHandler` and `mainQueueBlock`: the two stages of the answer to a request;
* `CourseCollectionViewCell.configure`;
* `CourseCollectionViewCell.answer`: the whole answer to a request of a cell.

## Main results

* `loadImageUsingUrlString_of_cached` and `loadImageUsingUrlString_of_not_cached`;
* `body_of_completionHandler_some`: the block of an answer gets the body it delivers;
* `answer_isSome_iff`: only a body that is not an image traps.
-/

namespace DateCourse

variable {Image Data URL : Type}

/-- `NSURL(string:)` and `UIImage(data:)`. -/
structure ImageLoading (Image Data URL : Type) where
  url : String → Option URL
  image : Data → Option Image

/-- A `CustomImageView`. `imageCache` is an `NSCache`, which may drop an entry at any time. -/
structure CustomImageView (Image : Type) where
  imageUrlString : Option String
  imageCache : String → Option Image
  image : Option Image

/-- The request of one call of `loadImageUsingUrlString`. -/
structure DataTask (URL : Type) where
  urlString : String
  url : URL

/-- The answer to a request: `data`, and whether `error` is not nil. -/
structure DataTaskResult (Data : Type) where
  data : Option Data
  error : Bool

/-- The body that an answer delivers, if it comes without an error. -/
def DataTaskResult.body (result : DataTaskResult Data) : Option Data :=
  if result.error then none else result.data

namespace CustomImageView

variable (loading : ImageLoading Image Data URL)

/-- `loadImageUsingUrlString(urlString:)`, with the request it resumes. -/
def loadImageUsingUrlString (view : CustomImageView Image) (urlString : String) :
    Option (CustomImageView Image × Option (DataTask URL)) :=
  let view := { view with imageUrlString := some urlString, image := none }
  match view.imageCache urlString with
  | some imageFromCache => some ({ view with image := some imageFromCache }, none)
  | none =>
    -- `url!` is only reached when there is no cached image
    match loading.url urlString with
    | none => none
    | some url => some (view, some { urlString, url })

/-- The completion handler: without an error it hands the data to a block on the main queue. -/
def completionHandler (result : DataTaskResult Data) : Option (Option Data) :=
  if result.error then none else some result.data

/-- The block on the main queue, for the URL string its request was made with. -/
def mainQueueBlock (view : CustomImageView Image) (urlString : String) (data : Option Data) :
    Option (CustomImageView Image) :=
  match data with
  | none => none
  | some data =>
    let imageToCache := loading.image data
    let view :=
      if view.imageUrlString = some urlString then { view with image := imageToCache } else view
    match imageToCache with
    | none => none
    | some imageToCache =>
      some { view with imageCache := Function.update view.imageCache urlString imageToCache }

section Lemmas

/-- A cached image is shown at once, and no request is made. -/
theorem loadImageUsingUrlString_of_cached {view : CustomImageView Image} {urlString : String}
    {imageFromCache : Image}
    (h : view.imageCache urlString = some imageFromCache) :
    view.loadImageUsingUrlString loading urlString =
      some ({ view with imageUrlString := some urlString, image := some imageFromCache },
        none) := by
  simp only [loadImageUsingUrlString, h]

/-- Without a cached image the view is cleared and a request is made. -/
theorem loadImageUsingUrlString_of_not_cached {view : CustomImageView Image}
    {urlString : String} {url : URL}
    (h : view.imageCache urlString = none) (hurl : loading.url urlString = some url) :
    view.loadImageUsingUrlString loading urlString =
      some ({ view with imageUrlString := some urlString, image := none },
        some { urlString, url }) := by
  simp only [loadImageUsingUrlString, h, hurl]

/-- Only a string that is no URL traps, and only without a cached image. -/
theorem loadImageUsingUrlString_eq_none_iff (view : CustomImageView Image) (urlString : String) :
    view.loadImageUsingUrlString loading urlString = none ↔
      view.imageCache urlString = none ∧ loading.url urlString = none := by
  unfold loadImageUsingUrlString
  cases hcached : view.imageCache urlString with
  | some image => simp [hcached]
  | none => cases hurl : loading.url urlString <;> simp [hcached]

/-- The handler makes no block for an answer that delivers nothing because of an error. -/
theorem body_of_completionHandler_none {result : DataTaskResult Data}
    (h : completionHandler result = none) : result.body = none := by
  unfold completionHandler at h
  split at h
  next herror => rw [DataTaskResult.body, if_pos herror]
  next => cases h

/-- The handler hands the body of the answer to its block. -/
theorem body_of_completionHandler_some {result : DataTaskResult Data} {data : Option Data}
    (h : completionHandler result = some data) : result.body = data := by
  unfold completionHandler at h
  split at h
  next => cases h
  next herror => rw [DataTaskResult.body, if_neg herror, Option.some.inj h]

/-- The block on the main queue survives exactly the bodies that are images. -/
theorem mainQueueBlock_isSome_iff (view : CustomImageView Image) (urlString : String)
    (data : Option Data) :
    (view.mainQueueBlock loading urlString data).isSome ↔
      ∃ d, data = some d ∧ (loading.image d).isSome := by
  unfold mainQueueBlock
  cases data with
  | none => simp
  | some d => cases himage : loading.image d <;> simp [himage]

end Lemmas

end CustomImageView

/-- A cell of the feed. -/
structure CourseCollectionViewCell (Image : Type) where
  currentCourse : Option CourseData
  courseTitle : Option String
  imageView : CustomImageView Image

namespace CourseCollectionViewCell

variable (loading : ImageLoading Image Data URL)

/-- `configure(withCourseData:)`; `currentCourse.urls[0]` traps when there is no URL. -/
def configure (cell : CourseCollectionViewCell Image) (courseData : CourseData) :
    Option (CourseCollectionViewCell Image × Option (DataTask URL)) := do
  let urlString ← courseData.urls[0]?
  let (imageView, task) ← cell.imageView.loadImageUsingUrlString loading urlString
  return ({ currentCourse := some courseData, courseTitle := some courseData.courseTitle,
            imageView }, task)

/-- A course with an image is shown as far as its image is loaded. -/
theorem configure_of_load {cell : CourseCollectionViewCell Image} {courseData : CourseData}
    {urlString : String} {imageView : CustomImageView Image} {task : Option (DataTask URL)}
    (hfirst : courseData.urls[0]? = some urlString)
    (hload : cell.imageView.loadImageUsingUrlString loading urlString = some (imageView, task)) :
    cell.configure loading courseData =
      some ({ currentCourse := some courseData, courseTitle := some courseData.courseTitle,
              imageView }, task) := by
  simp [configure, hfirst, hload]

/-- The answer to the request of a cell arrives and is handled to its end. -/
def answer (cell : CourseCollectionViewCell Image) (task : Option (DataTask URL))
    (result : DataTaskResult Data) : Option (CourseCollectionViewCell Image) :=
  match task, CustomImageView.completionHandler result with
  | some task, some data =>
    (cell.imageView.mainQueueBlock loading task.urlString data).map
      fun imageView => { cell with imageView }
  | _, _ => some cell

/-- Only a body that is not an image can trap. -/
theorem answer_isSome_iff (cell : CourseCollectionViewCell Image) (task : DataTask URL)
    (result : DataTaskResult Data) :
    (cell.answer loading (some task) result).isSome ↔
      result.error ∨ ∃ d, result.data = some d ∧ (loading.image d).isSome := by
  obtain ⟨data, error⟩ := result
  cases error with
  | true => simp [answer, CustomImageView.completionHandler]
  | false =>
    rw [← CustomImageView.mainQueueBlock_isSome_iff loading cell.imageView task.urlString]
    simp [answer, CustomImageView.completionHandler]

end CourseCollectionViewCell

end DateCourse
