import DateCourse.Machine.Run
import DateCourse.Model.DataModel

/-!
# The course feed

Each `MainViewController` registers an observer of the `courses` node, which is never removed. The
observer rebuilds `DataModel.sharedInstance.courses` at once, but its view learns of it only in a
later block on the main queue. In between the view may ask for rows that are gone, and a selection
may open another course than the one its row shows.

A view asks for the rows below the count that it got at its last reload, and selects rows that it
has configured since then.

## Main definitions

* `CollectionView`, `State` and `step`: the views and the shared courses, one event at a time;
* `Consistent`: each callback leaves one course for each entry, and each selection opens the course
  that its row shows;
* `InStep`: the condition on one step, on the snapshot that was delivered last.

## Main results

* `consistent_iff`: no access is out of range and the feed is always consistent if and only if every
  step of the run meets `InStep`.
-/

namespace DateCourse.Feed

open TreeStore

/-- The collection view of a `MainViewController`. -/
structure CollectionView where
  /-- Whether the view has asked for its number of items. -/
  loaded : Bool
  /-- The rows below the count of the last reload, with the course that each row was configured to
  show since then. -/
  rows : List (Option CourseData)

/-- A `CourseInfoMapViewController` presented by a selection. -/
structure Opened where
  selectedCourse : CourseData
  /-- *Ghost*: the course that the selected row shows. -/
  shown : CourseData

/-- The shared courses and the views that show them; each view is the observer of its own index. -/
structure State where
  /-- `DataModel.sharedInstance.courses`. -/
  courses : List CourseData
  views : List CollectionView
  /-- The `reloadData` blocks on the main queue, the next one first. -/
  blocks : List ℕ
  opened : List Opened
  /-- *Ghost*: the entries of the snapshot that was delivered last. -/
  entries : List (String × Value)
  /-- *Ghost*: the entries of each delivered snapshot, and the courses right after its callback. -/
  delivered : List (List (String × Value) × List CourseData)

namespace State

/-- A new process. -/
def launch : State :=
  { courses := [], views := [], blocks := [], opened := [], entries := [], delivered := [] }

variable (s : State)

/-- `viewDidLoad`, up to the registration of the observer. -/
def viewDidLoad : State := { s with views := s.views ++ [{ loaded := false, rows := [] }] }

/-- The view asks for `numberOfItemsInSection` and forgets its cells. -/
def reloadData (v : ℕ) : State :=
  { s with views := s.views.modify v fun _ =>
      { loaded := true, rows := List.replicate s.courses.length none } }

/-- The callback of observer `v`: the model is rebuilt, and a block is dispatched. -/
def observer (v : ℕ) (snapshot : Option Value) : Option State :=
  (coursesFromSnapshot snapshot).map fun courses =>
    { s with courses, blocks := s.blocks ++ [v], entries := snapshotEntries snapshot,
             delivered := s.delivered ++ [(snapshotEntries snapshot, courses)] }

/-- `collectionView(_:cellForItemAt:)`, which configures a cell with `model.courses[row]`. -/
def cellForItemAt (v row : ℕ) : Option State :=
  s.courses[row]?.map fun course =>
    { s with views := s.views.modify v fun view =>
        { view with rows := view.rows.set row (some course) } }

/-- `collectionView(_:didSelectItemAt:)` on a row that shows `shown`. -/
def didSelectItemAt (shown : CourseData) (row : ℕ) : Option State :=
  s.courses[row]?.map fun selectedCourse =>
    { s with opened := s.opened ++ [{ selectedCourse, shown }] }

/-- A row below the count of the view's last reload. -/
def row (v row : ℕ) : Option (Option CourseData) :=
  s.views[v]?.bind fun view => view.rows[row]?

end State

/-- The events of a run, all on the main queue. -/
inductive Event
  | viewDidLoad
  /-- View `v` is laid out for the first time. -/
  | firstLayout (v : ℕ)
  /-- The observer of view `v` gets a snapshot. -/
  | snapshot (v : ℕ) (value : Option Value)
  /-- The next block of the main queue runs. -/
  | mainQueue
  | cellForItemAt (v row : ℕ)
  | didSelectItemAt (v row : ℕ)

/-- One event of the run; `none` is a trap. -/
def step : PartialStep State Event
  | s, .viewDidLoad => some s.viewDidLoad
  | s, .firstLayout v =>
    match s.views[v]? with
    | some view => some (if view.loaded then s else s.reloadData v)
    | none => some s
  | s, .snapshot v value => if v < s.views.length then s.observer v value else some s
  | s, .mainQueue =>
    match s.blocks with
    | v :: blocks => some (State.reloadData { s with blocks } v)
    | [] => some s
  | s, .cellForItemAt v row =>
    match s.row v row with
    | some _ => s.cellForItemAt v row
    | none => some s
  | s, .didSelectItemAt v row =>
    match s.row v row with
    -- only a row that is on the screen can be tapped
    | some (some shown) => s.didSelectItemAt shown row
    | _ => some s

/-! ## Consistency -/

/-- The courses are those of the entries: one for each, with no duplicate and nothing left over. -/
def OneCoursePerEntry (entries : List (String × Value)) (courses : List CourseData) : Prop :=
  courses.map some = entries.map fun c => courseOfEntry c.2

/-- Right after each callback there is one course for each entry of its snapshot, and each selection
has opened the course that its row shows. -/
structure Consistent (s : State) : Prop where
  delivered : ∀ d ∈ s.delivered, OneCoursePerEntry d.1 d.2
  opened : ∀ o ∈ s.opened, o.selectedCourse = o.shown

/-- The condition on one step. The entries of a delivered snapshot decode; a row that a view asks
for exists in the snapshot delivered last; and the entry at a row that is selected decodes to the
course that the row shows. -/
def InStep (s : State) : Event → Prop
  | .snapshot v value => v < s.views.length →
    ∀ c ∈ snapshotEntries value, (courseOfEntry c.2).isSome
  | .cellForItemAt v row => s.row v row ≠ none → row < s.entries.length
  | .didSelectItemAt v row => ∀ shown, s.row v row = some (some shown) →
    ∃ c, s.entries[row]? = some c ∧ courseOfEntry c.2 = some shown
  | _ => True

section Step

variable {s s' : State}

theorem oneCoursePerEntry_of_coursesFromSnapshot {snapshot : Option Value}
    {courses : List CourseData} (h : coursesFromSnapshot snapshot = some courses) :
    OneCoursePerEntry (snapshotEntries snapshot) courses := by
  rw [coursesFromSnapshot_eq, createCourseData_eq_some_iff] at h
  exact h

theorem OneCoursePerEntry.length_eq {entries : List (String × Value)} {courses : List CourseData}
    (h : OneCoursePerEntry entries courses) : courses.length = entries.length := by
  have hlength := congrArg List.length h
  simpa using hlength

/-- The course at a row is the one that the entry at this row decodes to. -/
theorem OneCoursePerEntry.getElem?_eq_some_iff {entries : List (String × Value)}
    {courses : List CourseData} (h : OneCoursePerEntry entries courses) {row : ℕ}
    {course : CourseData} :
    courses[row]? = some course ↔
      ∃ c, entries[row]? = some c ∧ courseOfEntry c.2 = some course := by
  have hrow : courses[row]?.map some = entries[row]?.map fun c => courseOfEntry c.2 := by
    rw [← List.getElem?_map, h, List.getElem?_map]
  cases hc : entries[row]? with
  | none =>
    rw [hc, Option.map_none, Option.map_eq_none_iff] at hrow
    simp [hrow]
  | some c =>
    rw [hc, Option.map_some] at hrow
    -- both lists have the same length, so the row exists on both sides
    cases hcourse : courses[row]? with
    | none => simp [hcourse] at hrow
    | some course' =>
      rw [hcourse, Option.map_some, Option.some.injEq] at hrow
      simp [← hrow]

/-- The shared courses are always those of the snapshot that was delivered last. -/
theorem rebuilt_step (h : OneCoursePerEntry s.entries s.courses) {e : Event}
    (hs' : step s e = some s') : OneCoursePerEntry s'.entries s'.courses := by
  cases e with
  | viewDidLoad => exact Option.some.inj hs' ▸ h
  | firstLayout v =>
    simp only [step] at hs'
    split at hs'
    next view _ =>
      obtain rfl := Option.some.inj hs'
      cases view.loaded <;> exact h
    next => exact Option.some.inj hs' ▸ h
  | snapshot v value =>
    simp only [step] at hs'
    split at hs'
    · obtain ⟨courses, hcourses, rfl⟩ := Option.map_eq_some_iff.mp hs'
      exact oneCoursePerEntry_of_coursesFromSnapshot hcourses
    · exact Option.some.inj hs' ▸ h
  | mainQueue =>
    simp only [step] at hs'
    split at hs'
    · exact Option.some.inj hs' ▸ h
    · exact Option.some.inj hs' ▸ h
  | cellForItemAt v row =>
    simp only [step] at hs'
    split at hs'
    · obtain ⟨course, -, rfl⟩ := Option.map_eq_some_iff.mp hs'
      exact h
    · exact Option.some.inj hs' ▸ h
  | didSelectItemAt v row =>
    simp only [step] at hs'
    split at hs'
    · obtain ⟨course, -, rfl⟩ := Option.map_eq_some_iff.mp hs'
      exact h
    · exact Option.some.inj hs' ▸ h

/-- A callback is survived when its entries decode, and then leaves one course for each. -/
theorem observer_iff (hP : Consistent s) (v : ℕ) (snapshot : Option Value) :
    (∀ c ∈ snapshotEntries snapshot, (courseOfEntry c.2).isSome) ↔
      ∃ s', s.observer v snapshot = some s' ∧ Consistent s' := by
  rw [← createCourseData_isSome_iff [], ← coursesFromSnapshot_eq, Option.isSome_iff_exists]
  constructor
  · rintro ⟨courses, hcourses⟩
    refine ⟨_, Option.map_eq_some_iff.mpr ⟨courses, hcourses, rfl⟩, ?_, hP.opened⟩
    intro d hd
    -- the snapshots delivered before are unchanged, and this one has just been decoded
    rcases List.mem_append.mp hd with hold | hnew
    · exact hP.delivered d hold
    · rw [List.mem_singleton.mp hnew]
      exact oneCoursePerEntry_of_coursesFromSnapshot hcourses
  · rintro ⟨s', hs', -⟩
    obtain ⟨courses, hcourses, -⟩ := Option.map_eq_some_iff.mp hs'
    exact ⟨courses, hcourses⟩

/-- A cell is configured when its row is among the entries delivered last. -/
theorem cellForItemAt_iff (h : OneCoursePerEntry s.entries s.courses) (hP : Consistent s)
    (v row : ℕ) :
    row < s.entries.length ↔ ∃ s', s.cellForItemAt v row = some s' ∧ Consistent s' := by
  rw [← h.length_eq]
  constructor
  · intro hrow
    exact ⟨_, Option.map_eq_some_iff.mpr ⟨_, List.getElem?_eq_getElem hrow, rfl⟩,
      hP.delivered, hP.opened⟩
  · rintro ⟨s', hs', -⟩
    obtain ⟨course, hcourse, -⟩ := Option.map_eq_some_iff.mp hs'
    exact (List.getElem?_eq_some_iff.mp hcourse).1

/-- A selection opens the shown course when the entry at its row decodes to it. -/
theorem didSelectItemAt_iff (h : OneCoursePerEntry s.entries s.courses) (hP : Consistent s)
    (shown : CourseData) (row : ℕ) :
    (∃ c, s.entries[row]? = some c ∧ courseOfEntry c.2 = some shown) ↔
      ∃ s', s.didSelectItemAt shown row = some s' ∧ Consistent s' := by
  rw [← h.getElem?_eq_some_iff]
  constructor
  · intro hcourse
    refine ⟨_, Option.map_eq_some_iff.mpr ⟨shown, hcourse, rfl⟩, hP.delivered, ?_⟩
    intro o ho
    rcases List.mem_append.mp ho with hold | hnew
    · exact hP.opened o hold
    · rw [List.mem_singleton.mp hnew]
  · rintro ⟨s', hs', hP'⟩
    obtain ⟨course, hcourse, rfl⟩ := Option.map_eq_some_iff.mp hs'
    have hopened : course = shown :=
      hP'.opened { selectedCourse := course, shown } (List.mem_append_right _ (by simp))
    rw [hcourse, hopened]

/-- One event traps or breaks the consistency exactly when it does not meet the condition. -/
theorem inStep_iff (h : OneCoursePerEntry s.entries s.courses) (hP : Consistent s) (e : Event) :
    InStep s e ↔ ∃ s', step s e = some s' ∧ Consistent s' := by
  cases e with
  | viewDidLoad => exact iff_of_true trivial ⟨_, rfl, hP.delivered, hP.opened⟩
  | firstLayout v =>
    simp only [step, InStep, true_iff]
    split
    next view _ =>
      refine ⟨_, rfl, ?_⟩
      cases view.loaded with
      | true => exact hP
      | false => exact ⟨hP.delivered, hP.opened⟩
    next => exact ⟨_, rfl, hP⟩
  | snapshot v value =>
    simp only [step, InStep]
    by_cases hv : v < s.views.length
    · simpa [hv] using observer_iff hP v value
    · simpa [hv] using hP
  | mainQueue =>
    simp only [step, InStep, true_iff]
    split
    · exact ⟨_, rfl, hP.delivered, hP.opened⟩
    · exact ⟨_, rfl, hP⟩
  | cellForItemAt v row =>
    simp only [step, InStep]
    cases hrow : s.row v row with
    | none => simpa using hP
    | some shown => simpa using cellForItemAt_iff h hP v row
  | didSelectItemAt v row =>
    simp only [step, InStep]
    cases hrow : s.row v row with
    | none => simpa using hP
    | some course =>
      cases course with
      | none => simpa using hP
      | some shown => simpa using didSelectItemAt_iff h hP shown row

end Step

/-- For any number of observers and any order of the events: no access is out of range, each
callback leaves one course for each entry of its snapshot and each selection opens the course that
its row shows, if and only if every step meets the condition. -/
theorem consistent_iff (es : List Event) :
    step.Always Consistent State.launch es ↔ step.EachStep InStep State.launch es :=
  PartialStep.always_iff_eachStep (K := fun s => OneCoursePerEntry s.entries s.courses)
    (fun _ _ _ hK _ _ hs' => rebuilt_step hK hs') (fun _ e hK hP => inStep_iff hK hP e) es
    (by exact rfl) ⟨by simp [State.launch], by simp [State.launch]⟩

/-- A complete entry of the `courses` node. -/
def walkEntry : Value :=
  .object [("descriptions", .strings ["A walk"]), ("images", .strings ["walk.png"]),
    ("intro", .string "Along the river"), ("title", .string "Walk"), ("user", .string "uid")]

/-- The only entry is removed, and the view asks for its row before it reloads. -/
def removedBeforeReload : List Event :=
  [.viewDidLoad, .snapshot 0 (some (.object [("walk", walkEntry)])), .mainQueue, .snapshot 0 none,
    .cellForItemAt 0 0]

/-- The row that the view asks for is gone, and the program traps. -/
theorem removedBeforeReload_not_consistent :
    ¬ step.Always Consistent State.launch removedBeforeReload := by
  intro h
  have hsome := h.isSome_exec
  have htrap : step.exec State.launch removedBeforeReload = none := rfl
  simp [htrap] at hsome

end DateCourse.Feed
