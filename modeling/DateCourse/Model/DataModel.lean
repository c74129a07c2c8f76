import Mathlib.Data.Option.Basic
import DateCourse.Store.Tree

/-!
# The course feed's data

`DataModel` keeps the courses of the feed. An observer of the `courses` node empties the array and
rebuilds it from each snapshot; the fields of an entry are force-cast, so an entry without one of
them traps (`none`).

## Main definitions

* `CourseData`: one course, with the fields its initialiser sets;
* `createCourseData` and `courseOfEntry`: the decoder, for a dictionary and for one entry;
* `coursesFromSnapshot`: the body of the observer that `getInitialCourses` registers.

## Main results

* `createCourseData_isSome_iff` and `createCourseData_eq_some_iff`: the decoder traps on an entry
  that does not decode, and otherwise appends one course for each entry, in the order it enumerates
  them.
-/

namespace DateCourse

open TreeStore

/-- A course of the feed. The other fields of the class are never read. -/
structure CourseData where
  courseTitle : String
  introduction : String
  urls : List String
  descriptions : List String
  courseUser : String
deriving DecidableEq

/-- `CourseData.init(description:url:intro:title:user:)`. -/
def CourseData.init (description url : List String) (intro title user : String) : CourseData :=
  { courseTitle := title, introduction := intro, urls := url, descriptions := description,
    courseUser := user }

/-- The body of the loop in `createCourseData`: the five casts and the initialiser. -/
def courseOfEntry (value : Value) : Option CourseData := do
  let descriptions ← (value.child "descriptions").bind Value.asStrings
  let urls ← (value.child "images").bind Value.asStrings
  let intro ← (value.child "intro").bind Value.asString
  let title ← (value.child "title").bind Value.asString
  let user ← (value.child "user").bind Value.asString
  return CourseData.init descriptions urls intro title user

/-- `createCourseData(dictionary:)` on the model's `courses`; the list is the order in which the
dictionary is enumerated. -/
def createCourseData (courses : List CourseData) :
    List (String × Value) → Option (List CourseData)
  | [] => some courses
  | c :: dictionary => do
    let course ← courseOfEntry c.2
    createCourseData (courses ++ [course]) dictionary

/-- The observer of the `courses` node: `courses.removeAll()`, then the decoder when the snapshot
is a dictionary. A node without content has no value. -/
def coursesFromSnapshot (snapshot : Option Value) : Option (List CourseData) :=
  match snapshot with
  | some (.object dictionary) => createCourseData [] dictionary
  | _ => some []

/-- The decoder traps exactly when one of the entries does not decode. -/
theorem createCourseData_isSome_iff (courses : List CourseData)
    (dictionary : List (String × Value)) :
    (createCourseData courses dictionary).isSome ↔
      ∀ c ∈ dictionary, (courseOfEntry c.2).isSome := by
  induction dictionary generalizing courses with
  | nil => simp [createCourseData]
  | cons c dictionary ih =>
    rw [createCourseData, List.forall_mem_cons]
    -- the first entry decides whether the loop goes on
    cases hc : courseOfEntry c.2 with
    | none => simp
    | some course => simpa using ih (courses ++ [course])

/-- The decoder appends exactly one course for each entry, in the order of the enumeration. -/
theorem createCourseData_eq_some_iff {courses courses' : List CourseData}
    {dictionary : List (String × Value)} :
    createCourseData courses dictionary = some courses' ↔
      courses'.map some = courses.map some ++ dictionary.map fun c => courseOfEntry c.2 := by
  induction dictionary generalizing courses with
  | nil =>
    simp only [createCourseData, Option.some.injEq, List.map_nil, List.append_nil]
    rw [(Option.some_injective CourseData).list_map.eq_iff]
    exact eq_comm
  | cons c dictionary ih =>
    rw [createCourseData, List.map_cons]
    cases hc : courseOfEntry c.2 with
    | none =>
      -- no list of courses has a missing entry
      have hnone : courses'.map some ≠ courses.map some ++
          none :: dictionary.map fun c => courseOfEntry c.2 := by
        intro heq
        have hmem : none ∈ courses'.map some := by simp [heq]
        simp at hmem
      exact iff_of_false (by simp) hnone
    | some course =>
      -- the course is appended before the loop goes on
      show createCourseData (courses ++ [course]) dictionary = some courses' ↔ _
      rw [ih]
      simp

/-- The entries of a snapshot of the `courses` node. -/
def snapshotEntries : Option Value → List (String × Value)
  | some (.object dictionary) => dictionary
  | _ => []

/-- The courses of a snapshot are created from its entries in order. -/
theorem coursesFromSnapshot_eq (snapshot : Option Value) :
    coursesFromSnapshot snapshot = createCourseData [] (snapshotEntries snapshot) := by
  unfold coursesFromSnapshot snapshotEntries
  split <;> rfl

end DateCourse
