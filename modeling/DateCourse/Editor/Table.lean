import Mathlib.Data.List.Basic
import DateCourse.Model.CurrentItinerary

/-!
# The table of the editor

The data source of `AddCourseItineraryViewController`. The number of sections is read from the
shared itinerary, the position of the row with the Add button from the controller's own
`addButtonSectionIndex`.

## Main definitions

* `numberOfSections`, `numberOfRowsInSection`, `cellForRowAt`: the three methods of the data source;
* `tableRows`: all rows that they describe, from top to bottom;
* `TableWellFormed`: one Add row, at the end, and a title and a detail row for each location.

## Main results

* `tableRows_eq`: the rows, as a list over the locations;
* `tableWellFormed_iff`: the table is as it should be exactly when `addButtonSectionIndex` is the
  number of locations.
-/

namespace DateCourse

variable {Image : Type}

/-- The cell that is dequeued for a row, with what it is configured with. `plain` is the
`UITableViewCell` at the end of `cellForRowAt`. -/
inductive TableCell (Image : Type)
  | addItinerary
  | locationTitle (location : Location Image) (index : ℕ)
  | itinerary (location : Location Image) (index : ℕ)
  | arrow
  | plain

namespace TableCell

/-- The cell has the Add button. -/
def isAdd : TableCell Image → Bool
  | addItinerary => true
  | _ => false

/-- The cell shows a location. -/
def isContent : TableCell Image → Bool
  | locationTitle .. | itinerary .. => true
  | _ => false

end TableCell

section DataSource

variable (addButtonSectionIndex : ℕ) (itinerary : CurrentItinerary Image)

def numberOfSections : ℕ := 1 + itinerary.LocationCount

/-- `tableView(_:numberOfRowsInSection:)`. -/
def numberOfRowsInSection (sectionIndex : ℕ) : ℕ :=
  if addButtonSectionIndex = sectionIndex ∧ sectionIndex > 0 then 4
  else if sectionIndex > 0 then 3
  else 1

/-- The part of `cellForRowAt` below its first `if`; `getLocation` traps out of range. -/
def locationCellForRowAt (sectionIndex row : ℕ) : Option (TableCell Image) :=
  if sectionIndex > 0 then
    if row = 0 then
      (itinerary.getLocation (sectionIndex - 1)).map (.locationTitle · sectionIndex)
    else if row = 1 then
      (itinerary.getLocation (sectionIndex - 1)).map (.itinerary · (sectionIndex - 1))
    else if row = 2 then some .arrow
    else some .plain
  else some .plain

/-- `tableView(_:cellForRowAt:)`. -/
def cellForRowAt (sectionIndex row : ℕ) : Option (TableCell Image) :=
  if sectionIndex = addButtonSectionIndex then
    if addButtonSectionIndex = 0 then some .addItinerary
    else if row = 2 then some .arrow
    else if row = 3 then some .addItinerary
    -- the other rows of the section fall through
    else locationCellForRowAt itinerary sectionIndex row
  else locationCellForRowAt itinerary sectionIndex row

/-- The rows of one section. -/
def sectionRows (sectionIndex : ℕ) : List (Option (TableCell Image)) :=
  (List.range (numberOfRowsInSection addButtonSectionIndex sectionIndex)).map
    (cellForRowAt addButtonSectionIndex itinerary sectionIndex)

/-- All rows of the table, from top to bottom. -/
def tableRows : List (Option (TableCell Image)) :=
  (List.range (numberOfSections itinerary)).flatMap (sectionRows addButtonSectionIndex itinerary)

/-- The table as the user should see it. -/
structure TableWellFormed : Prop where
  /-- `cellForRowAt` is never out of range. -/
  inRange : ∀ cell ∈ tableRows addButtonSectionIndex itinerary, cell.isSome
  /-- There is exactly one Add row. -/
  oneAdd : ((tableRows addButtonSectionIndex itinerary).reduceOption.filter (·.isAdd)).length = 1
  /-- The Add row is the last row of the last section. -/
  lastAdd : (tableRows addButtonSectionIndex itinerary).getLast? = some (some .addItinerary)
  /-- The locations are shown in order, each with a title row numbered from 1 and a detail row. -/
  content : (tableRows addButtonSectionIndex itinerary).reduceOption.filter (·.isContent) =
    itinerary.locations.zipIdx.flatMap fun p => [.locationTitle p.1 (p.2 + 1), .itinerary p.1 p.2]

end DataSource

/-! ## The rows as a list over the locations -/

/-- The rows of the section of one location. -/
def locationRows (addButtonSectionIndex : ℕ) (p : Location Image × ℕ) : List (TableCell Image) :=
  [.locationTitle p.1 (p.2 + 1), .itinerary p.1 p.2, .arrow] ++
    if p.2 + 1 = addButtonSectionIndex then [.addItinerary] else []

/-- The row of section 0. -/
def firstRow (Image : Type) (addButtonSectionIndex : ℕ) : TableCell Image :=
  if addButtonSectionIndex = 0 then .addItinerary else .plain

section Rows

variable (k : ℕ) (itinerary : CurrentItinerary Image)

theorem sectionRows_zero : sectionRows k itinerary 0 = [some (firstRow Image k)] := by
  rw [sectionRows, numberOfRowsInSection, if_neg (by omega), if_neg (by omega), firstRow]
  by_cases hk : k = 0
  · simp [cellForRowAt, hk]
  · simp [cellForRowAt, locationCellForRowAt, hk, Ne.symm hk]

theorem sectionRows_succ {i : ℕ} {location : Location Image}
    (hlocation : itinerary.locations[i]? = some location) :
    sectionRows k itinerary (i + 1) = (locationRows k (location, i)).map some := by
  have hget : itinerary.getLocation i = some location := hlocation
  by_cases hk : i + 1 = k
  · subst hk
    have hrows : numberOfRowsInSection (i + 1) (i + 1) = 4 := by simp [numberOfRowsInSection]
    rw [sectionRows, hrows]
    simp [List.range_succ, cellForRowAt, locationCellForRowAt, locationRows, hget]
  · have hrows : numberOfRowsInSection k (i + 1) = 3 := by
      simp [numberOfRowsInSection, Ne.symm hk]
    rw [sectionRows, hrows]
    simp [List.range_succ, cellForRowAt, locationCellForRowAt, locationRows, hget, hk]

/-- The rows of the table: section 0, then the sections of the locations. -/
theorem tableRows_eq :
    tableRows k itinerary =
      (firstRow Image k :: itinerary.locations.zipIdx.flatMap (locationRows k)).map some := by
  have hrange : List.range itinerary.locations.length =
      itinerary.locations.zipIdx.map Prod.snd := by
    rw [List.zipIdx_map_snd, List.range_eq_range']
  have hsections : numberOfSections itinerary = itinerary.locations.length + 1 := by
    rw [numberOfSections, CurrentItinerary.LocationCount, Nat.add_comm]
  rw [tableRows, hsections, List.range_succ_eq_map, List.flatMap_cons, sectionRows_zero, hrange,
    List.map_map, List.flatMap_map, List.map_cons, List.map_flatMap]
  -- section `i + 1` belongs to location `i`
  refine congrArg _ (List.flatMap_congr fun p hp => ?_)
  exact sectionRows_succ k itinerary (List.mem_zipIdx_iff_getElem?.mp hp)

theorem reduceOption_tableRows :
    (tableRows k itinerary).reduceOption =
      firstRow Image k :: itinerary.locations.zipIdx.flatMap (locationRows k) := by
  rw [tableRows_eq]
  show List.filterMap id (List.map some _) = _
  simp [List.filterMap_map]

/-- The rows that show the locations do not depend on the Add row. -/
theorem content_tableRows :
    (tableRows k itinerary).reduceOption.filter (·.isContent) =
      itinerary.locations.zipIdx.flatMap
        fun p => [.locationTitle p.1 (p.2 + 1), .itinerary p.1 p.2] := by
  have hfirst : (firstRow Image k).isContent = false := by
    rw [firstRow]
    split <;> rfl
  rw [reduceOption_tableRows, List.filter_cons, hfirst, if_neg Bool.false_ne_true,
    List.filter_flatMap]
  refine List.flatMap_congr fun p _ => ?_
  rw [locationRows]
  split <;> rfl

/-- The last row of the table. -/
theorem getLast?_tableRows :
    (tableRows k itinerary).getLast? = some (some .addItinerary) ↔
      k = itinerary.locations.length := by
  rw [tableRows_eq, List.getLast?_map]
  rcases List.eq_nil_or_concat itinerary.locations with hnil | ⟨init, last, hconcat⟩
  · rw [hnil, firstRow]
    by_cases hk : k = 0 <;> simp [hk]
  -- the last row is the last one of the last location
  · rw [hconcat, List.concat_eq_append, List.zipIdx_append, List.flatMap_append,
      ← List.cons_append, List.getLast?_append]
    by_cases hk : init.length + 1 = k
    · simp [locationRows, hk]
    · simp [locationRows, hk, Ne.symm hk]

/-- With the Add row at the end, there is no other. -/
theorem oneAdd_tableRows (hk : k = itinerary.locations.length) :
    ((tableRows k itinerary).reduceOption.filter (·.isAdd)).length = 1 := by
  rw [reduceOption_tableRows, hk]
  rcases List.eq_nil_or_concat itinerary.locations with hnil | ⟨init, last, hconcat⟩
  · simp [hnil, firstRow, TableCell.isAdd]
  · have hinit : (init.zipIdx.flatMap (locationRows (init.length + 1))).filter (·.isAdd) = [] := by
      rw [List.filter_flatMap, List.flatMap_eq_nil_iff]
      intro p hp
      have hlt : p.2 < init.length := by
        have hsnd := List.mem_zipIdx_iff_getElem?.mp hp
        exact (List.getElem?_eq_some_iff.mp hsnd).1
      have hne : ¬ p.2 = init.length := by omega
      simp [locationRows, hne, TableCell.isAdd]
    rw [hconcat, List.concat_eq_append, List.zipIdx_append, List.flatMap_append,
      List.length_append, List.length_singleton, List.filter_cons, List.filter_append, hinit]
    simp [firstRow, locationRows, TableCell.isAdd]

/-- The table is as it should be exactly when the Add section is the last one. -/
theorem tableWellFormed_iff : TableWellFormed k itinerary ↔ k = itinerary.LocationCount := by
  constructor
  · intro h
    exact (getLast?_tableRows k itinerary).mp h.lastAdd
  · intro hk
    refine ⟨fun cell hcell => ?_, oneAdd_tableRows k itinerary hk,
      (getLast?_tableRows k itinerary).mpr hk, content_tableRows k itinerary⟩
    rw [tableRows_eq] at hcell
    obtain ⟨row, -, rfl⟩ := List.mem_map.mp hcell
    rfl

end Rows

/-- A location that the controller does not count comes after the Add row. -/
example (location : Location Unit) :
    tableRows 0 { (CurrentItinerary.init : CurrentItinerary Unit) with locations := [location] } =
      [some .addItinerary, some (.locationTitle location 1), some (.itinerary location 0),
        some .arrow] := rfl

end DateCourse
