import Mathlib.Tactic.NormNum
import DateCourse.Editor.Table

/-!
# The row heights of the editor's table

`heightForRowAt` decides the height of a row by a case split of its own, next to the one with which
`cellForRowAt` chooses the cell. The cell classes declare the height they need. The two agree except
for the arrow below a location that is not the last one: its height falls through to the default.

## Main definitions

* `TableCell.requiredHeight`: the heights that the cell classes declare;
* `heightForRowAt`: the third method of the data source that depends on the row;
* `HeightAgrees`: the row has a cell, of the height that its class declares.

## Main results

* `heightAgrees_iff`: the rows for which the two methods agree;
* `rowHeights_agree_iff`: these rows, and the tables in which all rows agree.
-/

namespace DateCourse

variable {Image : Type}

def AddItineraryTableViewCell.requiredHeight : ℚ := 140

def LocationTitleTableViewCell.requiredHeight : ℚ := 45

def ItineraryCell.requiredHeight : ℚ := 300

def ItineraryArrowTableViewCell.requiredHeight : ℚ := 50

/-- The height that the class of a cell declares. A plain `UITableViewCell` declares none. -/
def TableCell.requiredHeight : TableCell Image → Option ℚ
  | addItinerary => some AddItineraryTableViewCell.requiredHeight
  | locationTitle .. => some LocationTitleTableViewCell.requiredHeight
  | itinerary .. => some ItineraryCell.requiredHeight
  | arrow => some ItineraryArrowTableViewCell.requiredHeight
  | plain => none

section DataSource

variable (addButtonSectionIndex : ℕ) (itinerary : CurrentItinerary Image)

/-- The part of `heightForRowAt` below its first `if`. There is no case for the arrow. -/
def locationHeightForRowAt (sectionIndex row : ℕ) : ℚ :=
  if sectionIndex > 0 then
    if row = 0 then LocationTitleTableViewCell.requiredHeight
    else if row = 1 then ItineraryCell.requiredHeight
    else 40
  else 40

/-- `tableView(_:heightForRowAt:)`. -/
def heightForRowAt (sectionIndex row : ℕ) : ℚ :=
  if sectionIndex = addButtonSectionIndex then
    if addButtonSectionIndex = 0 then AddItineraryTableViewCell.requiredHeight
    else if row = 2 then ItineraryArrowTableViewCell.requiredHeight
    else if row = 3 then AddItineraryTableViewCell.requiredHeight
    -- the other rows of the section fall through
    else locationHeightForRowAt sectionIndex row
  else locationHeightForRowAt sectionIndex row

/-- `cellForRowAt` has a cell for the row, and `heightForRowAt` the height that its class
declares. -/
def HeightAgrees (sectionIndex row : ℕ) : Prop :=
  ∃ cell, cellForRowAt addButtonSectionIndex itinerary sectionIndex row = some cell ∧
    ∀ height, cell.requiredHeight = some height →
      heightForRowAt addButtonSectionIndex sectionIndex row = height

end DataSource

section Rows

variable (k : ℕ) {itinerary : CurrentItinerary Image}

/-- The only row of section 0 has the Add button or no class of its own. -/
theorem heightAgrees_zero : HeightAgrees k itinerary 0 0 := by
  by_cases hk : k = 0
  · refine ⟨.addItinerary, by simp [cellForRowAt, hk], fun height hheight => ?_⟩
    obtain rfl := Option.some.inj hheight
    simp [heightForRowAt, hk]
  · refine ⟨.plain, by simp [cellForRowAt, locationCellForRowAt, Ne.symm hk],
      fun height hheight => ?_⟩
    cases hheight

variable {k} {i : ℕ}

/-- The two rows of a location agree, before, at and after the Add section. -/
theorem heightAgrees_location (hi : i < itinerary.LocationCount) {row : ℕ} (hrow : row < 2) :
    HeightAgrees k itinerary (i + 1) row := by
  obtain ⟨location, hget⟩ : ∃ location, itinerary.getLocation i = some location :=
    ⟨itinerary.locations[i], List.getElem?_eq_getElem hi⟩
  have hcell : cellForRowAt k itinerary (i + 1) row =
      locationCellForRowAt itinerary (i + 1) row := by
    rw [cellForRowAt]
    split
    · rw [if_neg (by omega), if_neg (by omega), if_neg (by omega)]
    · rfl
  have hheight : heightForRowAt k (i + 1) row = locationHeightForRowAt (i + 1) row := by
    rw [heightForRowAt]
    split
    · rw [if_neg (by omega), if_neg (by omega), if_neg (by omega)]
    · rfl
  rw [HeightAgrees, hcell, hheight]
  obtain rfl | rfl : row = 0 ∨ row = 1 := by omega
  · exact ⟨.locationTitle location (i + 1), by simp [locationCellForRowAt, hget],
      fun height h => Option.some.inj h⟩
  · exact ⟨.itinerary location i, by simp [locationCellForRowAt, hget],
      fun height h => Option.some.inj h⟩

/-- The arrow has its height in the Add section only. -/
theorem heightAgrees_arrow_iff : HeightAgrees k itinerary (i + 1) 2 ↔ i + 1 = k := by
  have hcell : cellForRowAt k itinerary (i + 1) 2 = some .arrow := by
    rw [cellForRowAt]
    split
    · rw [if_neg (by omega), if_pos rfl]
    · rfl
  rw [HeightAgrees, hcell]
  constructor
  · rintro ⟨cell, harrow, hheight⟩
    obtain rfl := Option.some.inj harrow
    by_contra hne
    -- the default height is not that of the arrow
    have hdefault : 40 = ItineraryArrowTableViewCell.requiredHeight := by
      have h := hheight _ rfl
      rwa [heightForRowAt, if_neg hne] at h
    norm_num [ItineraryArrowTableViewCell.requiredHeight] at hdefault
  · intro hk
    refine ⟨.arrow, rfl, fun height hheight => ?_⟩
    obtain rfl := Option.some.inj hheight
    rw [heightForRowAt, if_pos hk, if_neg (by omega), if_pos rfl]

/-- The last row of the Add section agrees. -/
theorem heightAgrees_add (hk : i + 1 = k) : HeightAgrees k itinerary (i + 1) 3 := by
  refine ⟨.addItinerary, ?_, fun height hheight => ?_⟩
  · rw [cellForRowAt, if_pos hk, if_neg (by omega), if_neg (by omega), if_pos rfl]
  · obtain rfl := Option.some.inj hheight
    rw [heightForRowAt, if_pos hk, if_neg (by omega), if_neg (by omega), if_pos rfl]

/-- The rows for which the two methods agree. -/
theorem heightAgrees_iff (k : ℕ) (itinerary : CurrentItinerary Image) (sectionIndex row : ℕ)
    (hsection : sectionIndex < numberOfSections itinerary)
    (hrow : row < numberOfRowsInSection k sectionIndex) :
    HeightAgrees k itinerary sectionIndex row ↔ (row = 2 → sectionIndex = k) := by
  cases sectionIndex with
  | zero =>
    rw [numberOfRowsInSection, if_neg (by omega), if_neg (by omega)] at hrow
    obtain rfl : row = 0 := by omega
    exact iff_of_true (heightAgrees_zero k) (by omega)
  | succ i =>
    have hi : i < itinerary.LocationCount := by
      rw [numberOfSections] at hsection
      omega
    -- a fourth row belongs to the Add section
    have hfour : row < 4 ∧ (row = 3 → i + 1 = k) := by
      rw [numberOfRowsInSection] at hrow
      split at hrow
      · omega
      · rw [if_pos (by omega)] at hrow
        omega
    obtain hlt | rfl | rfl : row < 2 ∨ row = 2 ∨ row = 3 := by omega
    · exact iff_of_true (heightAgrees_location hi hlt) (by omega)
    · simpa using heightAgrees_arrow_iff
    · exact iff_of_true (heightAgrees_add (hfour.2 rfl)) (by omega)

/-- For every itinerary and every Add section: a row of the table has a cell of the height that its
class declares, unless it is the arrow of another section than the Add section. So all rows agree
only in a table without locations, or with one location and the Add section below it. -/
theorem rowHeights_agree_iff (k : ℕ) (itinerary : CurrentItinerary Image) :
    (∀ sectionIndex row, sectionIndex < numberOfSections itinerary →
      row < numberOfRowsInSection k sectionIndex →
        (HeightAgrees k itinerary sectionIndex row ↔ (row = 2 → sectionIndex = k))) ∧
    ((∀ sectionIndex row, sectionIndex < numberOfSections itinerary →
      row < numberOfRowsInSection k sectionIndex → HeightAgrees k itinerary sectionIndex row) ↔
        itinerary.LocationCount = 0 ∨ (itinerary.LocationCount = 1 ∧ k = 1)) := by
  refine ⟨fun sectionIndex row => heightAgrees_iff k itinerary sectionIndex row, ?_, ?_⟩
  · intro hagree
    -- the arrow of every location has to be in the Add section
    have harrow : ∀ i < itinerary.LocationCount, i + 1 = k := by
      intro i hi
      refine heightAgrees_arrow_iff.mp (hagree (i + 1) 2 ?_ ?_)
      · rw [numberOfSections]
        omega
      · rw [numberOfRowsInSection]
        split
        · omega
        · rw [if_pos (by omega)]
          omega
    rcases Nat.lt_or_ge 1 itinerary.LocationCount with htwo | hone
    · have hfirst := harrow 0 (by omega)
      have hsecond := harrow 1 htwo
      omega
    · rcases Nat.eq_zero_or_pos itinerary.LocationCount with hzero | hpos
      · exact Or.inl hzero
      · exact Or.inr ⟨by omega, (harrow 0 hpos).symm⟩
  · intro hcount sectionIndex row hsection hrow
    refine (heightAgrees_iff k itinerary sectionIndex row hsection hrow).mpr ?_
    rintro rfl
    -- section 0 has no third row
    have hpos : 0 < sectionIndex := by
      by_contra hzero
      rw [numberOfRowsInSection, if_neg (by omega), if_neg (by omega)] at hrow
      omega
    rw [numberOfSections] at hsection
    omega

/-- Two locations. -/
def twoLocations : CurrentItinerary Unit :=
  { (CurrentItinerary.init : CurrentItinerary Unit) with
    locations := [⟨⟨"first", "a", none, ⟨0, 0⟩⟩, none⟩, ⟨⟨"second", "b", none, ⟨1, 1⟩⟩, none⟩] }

/-- The theorem for the title of the second location, with the Add section below it. -/
theorem rowHeights_agree_iff_twoLocations : HeightAgrees 2 twoLocations 2 0 :=
  ((rowHeights_agree_iff 2 twoLocations).1 2 0 (by decide) (by decide)).mpr (by decide)

/-- The arrow between the two locations has the default height. -/
theorem twoLocations_not_heightAgrees :
    2 ≤ twoLocations.LocationCount ∧ 1 < numberOfSections twoLocations ∧
      2 < numberOfRowsInSection 2 1 ∧ ¬ HeightAgrees 2 twoLocations 1 2 := by
  refine ⟨by decide, by decide, by decide, fun hagrees => ?_⟩
  have harrow := heightAgrees_arrow_iff.mp hagrees
  exact absurd harrow (by decide)

end Rows

end DateCourse
