import Mathlib.Algebra.Order.Ring.Rat
import Mathlib.Algebra.Order.Group.Unbundled.Abs
import Mathlib.Tactic.Linarith
import DateCourse.Machine.Run

/-!
# The collapsing header of the editor

The map above the table is a header that shrinks while the table is scrolled. `scrollViewDidScroll`
changes its height and then puts the table back where it was, and this assignment calls
`scrollViewDidScroll` again. When the scrolling stops, the header is collapsed or expanded, together
with the navigation bar; when the screen appears, the header alone is expanded.

Lengths are exact rationals. Assigning a different content offset calls `scrollViewDidScroll` at
once, and the table view keeps its frame meanwhile.

## Main definitions

* `Header.scrollViewDidScroll`, with the depth of its calls as fuel;
* `Header.step`: the header with its table and the navigation bar, as a machine;
* `Header.ScrollEffect`, `Header.ScrollsWell`: what one scroll should do;
* `Header.BarFollowsHeader`: the navigation bar is hidden only over a collapsed header.

## Main results

* `scrollViewDidScroll_of_consumed`: the nested call of a scroll that changes the height;
* `always_scrollsWell`: in every run, every scroll has the effect that it should have;
* `barFollowsHeader_iff`: the bar follows the header exactly as long as the screen appears with the
  bar.
-/

namespace DateCourse

namespace AddCourseItineraryViewController

def maxHeaderHeight : ℚ := 156

def minHeaderHeight : ℚ := 0

end AddCourseItineraryViewController

namespace Header

open AddCourseItineraryViewController

/-- The heights of the table view that a scroll event comes with. -/
structure ScrollView where
  contentHeight : ℚ
  frameHeight : ℚ

/-- The header, the table view and the navigation bar. -/
structure State where
  /-- `headerHeightConstraint.constant`. -/
  headerHeight : ℚ
  previousScrollOffset : ℚ
  /-- `tableView.contentOffset.y`. -/
  contentOffset : ℚ
  isNavigationBarHidden : Bool
  /-- *Ghost*: the last event has stopped the scrolling, or the screen has appeared. -/
  settled : Bool
deriving DecidableEq

/-- The screen as it is loaded from the storyboard. -/
def State.start : State :=
  { headerHeight := 152, previousScrollOffset := 0, contentOffset := 0,
    isNavigationBarHidden := false, settled := false }

section Scroll

variable (view : ScrollView)

/-- There is room to scroll when the header is collapsed. -/
def canAnimateHeader (headerHeight : ℚ) : Bool :=
  view.contentHeight > view.frameHeight + headerHeight - minHeaderHeight

/-- The height that `scrollViewDidScroll` calculates. -/
def newHeight (s : State) : ℚ :=
  let scrollDiff := s.contentOffset - s.previousScrollOffset
  let absoluteTop : ℚ := 0
  let absoluteBottom := view.contentHeight - view.frameHeight
  let isScrollingDown : Bool := scrollDiff > 0 && s.contentOffset > absoluteTop
  let isScrollingUp : Bool := scrollDiff < 0 && s.contentOffset < absoluteBottom
  if isScrollingDown then max minHeaderHeight (s.headerHeight - |scrollDiff|)
  else if isScrollingUp then min maxHeaderHeight (s.headerHeight + |scrollDiff|)
  else s.headerHeight

/-- `setScrollPosition`, where `didScroll` is what a different offset calls. The number counts the
calls. -/
def setScrollPosition (didScroll : State → Option (State × ℕ)) (position : ℚ) (s : State) :
    Option (State × ℕ) :=
  if position = s.contentOffset then some (s, 0)
  else (didScroll { s with contentOffset := position }).map fun p => (p.1, p.2 + 1)

/-- `scrollViewDidScroll`, with the number of nested calls; `none` if it is nested too deeply. -/
def scrollViewDidScroll : ℕ → State → Option (State × ℕ)
  | 0, _ => none
  | depth + 1, s =>
    if canAnimateHeader view s.headerHeight then
      let newHeight := newHeight view s
      let scrolled :=
        if newHeight ≠ s.headerHeight then
          setScrollPosition (scrollViewDidScroll depth) s.previousScrollOffset
            { s with headerHeight := newHeight }
        else some (s, 0)
      -- the offset is read again, after the nested call
      scrolled.map fun p => ({ p.1 with previousScrollOffset := p.1.contentOffset }, p.2)
    else some (s, 0)

end Scroll

/-- `scrollViewDidStopScrolling`, which calls `expandHeader` or `collapseHeader`. -/
def scrollViewDidStopScrolling (s : State) : State :=
  let range := maxHeaderHeight - minHeaderHeight
  let midPoint := minHeaderHeight + range / 2
  if s.headerHeight > midPoint then
    { s with headerHeight := maxHeaderHeight, isNavigationBarHidden := false }
  else { s with headerHeight := minHeaderHeight, isNavigationBarHidden := true }

/-- The events of the screen. -/
inductive Event
  /-- The user or the deceleration moves the table to an offset. -/
  | scroll (offset : ℚ) (view : ScrollView)
  | scrollViewDidEndDragging (decelerate : Bool)
  | scrollViewDidEndDecelerating
  /-- The screen appears, at first or from under another one. -/
  | viewDidAppear
  | viewDidDisappear

/-- One event. Two calls of `scrollViewDidScroll` are deep enough (`scrollViewDidScroll_spec`). -/
def step : PartialStep State Event
  | s, .scroll offset view =>
    (scrollViewDidScroll view 2 { s with contentOffset := offset }).map
      fun p => { p.1 with settled := false }
  | s, .scrollViewDidEndDragging decelerate =>
    if decelerate then some { s with settled := false }
    else some { scrollViewDidStopScrolling s with settled := true }
  | s, .scrollViewDidEndDecelerating => some { scrollViewDidStopScrolling s with settled := true }
  -- the navigation bar stays as it is
  | s, .viewDidAppear => some { s with headerHeight := maxHeaderHeight, settled := true }
  | s, .viewDidDisappear => some { s with settled := false }

/-! ## One scroll -/

section Scroll

variable (view : ScrollView) {s : State}

/-- Without a scroll the height stays. -/
theorem newHeight_of_eq (h : s.contentOffset = s.previousScrollOffset) :
    newHeight view s = s.headerHeight := by
  simp [newHeight, h]

/-- Without room to scroll, nothing changes. -/
theorem scrollViewDidScroll_of_still (h : canAnimateHeader view s.headerHeight = false)
    (depth : ℕ) : scrollViewDidScroll view (depth + 1) s = some (s, 0) := by
  rw [scrollViewDidScroll, h, if_neg Bool.false_ne_true]

/-- A scroll that does not change the height is passed on to the table. -/
theorem scrollViewDidScroll_of_passed (h : canAnimateHeader view s.headerHeight = true)
    (hheight : newHeight view s = s.headerHeight) (depth : ℕ) :
    scrollViewDidScroll view (depth + 1) s =
      some ({ s with previousScrollOffset := s.contentOffset }, 0) := by
  rw [scrollViewDidScroll, if_pos h]
  simp only [hheight, ne_eq, not_true_eq_false, if_false, Option.map_some]

/-- The nested call finds the table where it was, and changes nothing. -/
theorem scrollViewDidScroll_of_eq (h : s.contentOffset = s.previousScrollOffset) (depth : ℕ) :
    scrollViewDidScroll view (depth + 1) s = some (s, 0) := by
  cases hanimate : canAnimateHeader view s.headerHeight with
  | false => exact scrollViewDidScroll_of_still view hanimate depth
  | true =>
    rw [scrollViewDidScroll_of_passed view hanimate (newHeight_of_eq view h)]
    -- the previous offset is the one that it already has
    obtain ⟨headerHeight, previousScrollOffset, contentOffset, hidden, settled⟩ := s
    obtain rfl : contentOffset = previousScrollOffset := h
    rfl

/-- A scroll that changes the height is consumed: the table is put back, which calls
`scrollViewDidScroll` once more. -/
theorem scrollViewDidScroll_of_consumed (h : canAnimateHeader view s.headerHeight = true)
    (hheight : newHeight view s ≠ s.headerHeight) (depth : ℕ) :
    scrollViewDidScroll view (depth + 2) s =
      some ({ s with headerHeight := newHeight view s,
                     contentOffset := s.previousScrollOffset }, 1) := by
  have hne : s.previousScrollOffset ≠ s.contentOffset := by
    intro heq
    exact hheight (newHeight_of_eq view heq.symm)
  rw [scrollViewDidScroll, if_pos h]
  simp only [ne_eq, hheight, not_false_eq_true, if_true, setScrollPosition, hne, if_false]
  rw [scrollViewDidScroll_of_eq view rfl]
  rfl

variable {view}

/-- The three cases of the new height. -/
theorem newHeight_cases (view : ScrollView) (s : State) :
    (0 < s.contentOffset - s.previousScrollOffset ∧
      newHeight view s =
        max minHeaderHeight (s.headerHeight - |s.contentOffset - s.previousScrollOffset|)) ∨
    (s.contentOffset - s.previousScrollOffset < 0 ∧
      newHeight view s =
        min maxHeaderHeight (s.headerHeight + |s.contentOffset - s.previousScrollOffset|)) ∨
    newHeight view s = s.headerHeight := by
  simp only [newHeight, gt_iff_lt, Bool.and_eq_true, decide_eq_true_eq]
  split
  next hdown => exact Or.inl ⟨hdown.1, rfl⟩
  next =>
    split
    next hup => exact Or.inr (Or.inl ⟨hup.1, rfl⟩)
    next => exact Or.inr (Or.inr rfl)

/-- The new height is between the limits, if the old one is. -/
theorem newHeight_mem (hmin : minHeaderHeight ≤ s.headerHeight)
    (hmax : s.headerHeight ≤ maxHeaderHeight) :
    minHeaderHeight ≤ newHeight view s ∧ newHeight view s ≤ maxHeaderHeight := by
  have hlimits : minHeaderHeight ≤ maxHeaderHeight := hmin.trans hmax
  have habs := abs_nonneg (s.contentOffset - s.previousScrollOffset)
  rcases newHeight_cases view s with ⟨-, hdown⟩ | ⟨-, hup⟩ | hsame
  · rw [hdown]
    exact ⟨le_max_left _ _, max_le hlimits (by linarith)⟩
  · rw [hup]
    exact ⟨le_min hlimits (by linarith), min_le_left _ _⟩
  · rw [hsame]
    exact ⟨hmin, hmax⟩

/-- The height changes by the scroll at most, and against its direction. -/
theorem newHeight_change (hmin : minHeaderHeight ≤ s.headerHeight)
    (hmax : s.headerHeight ≤ maxHeaderHeight) (hne : newHeight view s ≠ s.headerHeight) :
    |newHeight view s - s.headerHeight| ≤ |s.contentOffset - s.previousScrollOffset| ∧
      (newHeight view s - s.headerHeight) * (s.contentOffset - s.previousScrollOffset) < 0 := by
  have habs := abs_nonneg (s.contentOffset - s.previousScrollOffset)
  rcases newHeight_cases view s with ⟨hpos, hdown⟩ | ⟨hneg, hup⟩ | hsame
  -- down: the header shrinks
  · have hle : newHeight view s ≤ s.headerHeight := by
      rw [hdown]
      exact max_le hmin (by linarith)
    have hge : s.headerHeight - |s.contentOffset - s.previousScrollOffset| ≤ newHeight view s := by
      rw [hdown]
      exact le_max_right _ _
    have hlt : newHeight view s - s.headerHeight < 0 := sub_neg_of_lt (lt_of_le_of_ne hle hne)
    refine ⟨?_, mul_neg_of_neg_of_pos hlt hpos⟩
    rw [abs_of_neg hlt]
    linarith
  -- up: it grows
  · have hge : s.headerHeight ≤ newHeight view s := by
      rw [hup]
      exact le_min hmax (by linarith)
    have hle : newHeight view s ≤ s.headerHeight + |s.contentOffset - s.previousScrollOffset| := by
      rw [hup]
      exact min_le_right _ _
    have hlt : 0 < newHeight view s - s.headerHeight :=
      sub_pos_of_lt (lt_of_le_of_ne hge hne.symm)
    refine ⟨?_, mul_neg_of_pos_of_neg hlt hneg⟩
    rw [abs_of_pos hlt]
    linarith
  · exact absurd hsame hne

end Scroll

/-! ## Runs -/

/-- What a scroll to `offset` should do, from `s` to `s'`. A scroll is measured from the previous
offset. -/
structure ScrollEffect (view : ScrollView) (offset : ℚ) (s s' : State) : Prop where
  /-- With room to scroll, the scroll is consumed by the header or passed on to the table. -/
  animated : canAnimateHeader view s.headerHeight = true →
    (s'.headerHeight ≠ s.headerHeight ∧
      |s'.headerHeight - s.headerHeight| ≤ |offset - s.previousScrollOffset| ∧
      (s'.headerHeight - s.headerHeight) * (offset - s.previousScrollOffset) < 0 ∧
      s'.contentOffset = s.previousScrollOffset ∧
      s'.previousScrollOffset = s.previousScrollOffset) ∨
    (s'.headerHeight = s.headerHeight ∧ s'.contentOffset = offset ∧
      s'.previousScrollOffset = offset)
  /-- Without room, neither the header nor the previous offset changes. -/
  still : canAnimateHeader view s.headerHeight = false →
    s'.headerHeight = s.headerHeight ∧ s'.previousScrollOffset = s.previousScrollOffset

/-- The header is between its limits, and every scroll event has the effect that it should have,
with one nested call at most. -/
structure ScrollsWell (s : State) : Prop where
  minHeaderHeight_le : minHeaderHeight ≤ s.headerHeight
  le_maxHeaderHeight : s.headerHeight ≤ maxHeaderHeight
  scroll : ∀ offset view depth, 2 ≤ depth → ∃ s' calls,
    scrollViewDidScroll view depth { s with contentOffset := offset } = some (s', calls) ∧
      calls ≤ 1 ∧ ScrollEffect view offset s s'

/-- A scroll has its effect wherever the header is between its limits, and leaves it there. -/
theorem scrollViewDidScroll_spec {s : State} (hmin : minHeaderHeight ≤ s.headerHeight)
    (hmax : s.headerHeight ≤ maxHeaderHeight) (offset : ℚ) (view : ScrollView) (depth : ℕ) :
    ∃ s' calls,
      scrollViewDidScroll view (depth + 2) { s with contentOffset := offset } = some (s', calls) ∧
        calls ≤ 1 ∧ ScrollEffect view offset s s' ∧
        minHeaderHeight ≤ s'.headerHeight ∧ s'.headerHeight ≤ maxHeaderHeight := by
  cases hanimate : canAnimateHeader view s.headerHeight with
  | false =>
    refine ⟨_, _, scrollViewDidScroll_of_still view (by exact hanimate) _, Nat.zero_le 1,
      ⟨fun hanimated => ?_, fun _ => ⟨rfl, rfl⟩⟩, hmin, hmax⟩
    rw [hanimate] at hanimated
    cases hanimated
  | true =>
    have hstill : ∀ {p : Prop}, canAnimateHeader view s.headerHeight = false → p := by
      intro p hstill
      rw [hanimate] at hstill
      cases hstill
    by_cases hheight : newHeight view { s with contentOffset := offset } = s.headerHeight
    · exact ⟨_, _, scrollViewDidScroll_of_passed view (by exact hanimate) hheight _, Nat.zero_le 1,
        ⟨fun _ => Or.inr ⟨rfl, rfl, rfl⟩, hstill⟩, hmin, hmax⟩
    · obtain ⟨hle, hneg⟩ := newHeight_change (s := { s with contentOffset := offset }) hmin hmax
        hheight
      exact ⟨_, _, scrollViewDidScroll_of_consumed view (by exact hanimate) hheight _, le_rfl,
        ⟨fun _ => Or.inl ⟨hheight, hle, hneg, rfl, rfl⟩, hstill⟩, newHeight_mem hmin hmax⟩

/-- Every event is defined and keeps the header between its limits. -/
theorem step_limits {s : State} (hmin : minHeaderHeight ≤ s.headerHeight)
    (hmax : s.headerHeight ≤ maxHeaderHeight) (e : Event) :
    ∃ s', step s e = some s' ∧ minHeaderHeight ≤ s'.headerHeight ∧
      s'.headerHeight ≤ maxHeaderHeight := by
  have hlimits : minHeaderHeight ≤ maxHeaderHeight := hmin.trans hmax
  have hstop : minHeaderHeight ≤ (scrollViewDidStopScrolling s).headerHeight ∧
      (scrollViewDidStopScrolling s).headerHeight ≤ maxHeaderHeight := by
    rw [scrollViewDidStopScrolling]
    split
    · exact ⟨hlimits, le_rfl⟩
    · exact ⟨le_rfl, hlimits⟩
  cases e with
  | scroll offset view =>
    obtain ⟨s', calls, hs', -, -, hbounds⟩ := scrollViewDidScroll_spec hmin hmax offset view 0
    exact ⟨{ s' with settled := false }, by rw [step, hs', Option.map_some], hbounds⟩
  | scrollViewDidEndDragging decelerate =>
    cases decelerate with
    | true => exact ⟨_, rfl, hmin, hmax⟩
    | false => exact ⟨_, rfl, hstop⟩
  | scrollViewDidEndDecelerating => exact ⟨_, rfl, hstop⟩
  | viewDidAppear => exact ⟨_, rfl, hlimits, le_rfl⟩
  | viewDidDisappear => exact ⟨_, rfl, hmin, hmax⟩

/-- In every run, with any offsets and heights: the header stays between its limits, and every
scroll event ends after one nested call at most and is consumed or passed on. -/
theorem always_scrollsWell (es : List Event) : step.Always ScrollsWell State.start es := by
  refine PartialStep.always_of_inv
    (K := fun s => minHeaderHeight ≤ s.headerHeight ∧ s.headerHeight ≤ maxHeaderHeight)
    ?_ ?_ es (by norm_num [minHeaderHeight, maxHeaderHeight, State.start])
  · rintro s ⟨hmin, hmax⟩
    refine ⟨hmin, hmax, fun offset view depth hdepth => ?_⟩
    obtain ⟨depth, rfl⟩ := Nat.exists_eq_add_of_le' hdepth
    obtain ⟨s', calls, hs', hcalls, heffect, -⟩ :=
      scrollViewDidScroll_spec hmin hmax offset view depth
    exact ⟨s', calls, hs', hcalls, heffect⟩
  · rintro s e ⟨hmin, hmax⟩
    exact step_limits hmin hmax e

/-! ## The navigation bar -/

/-- Right after the scrolling has stopped or the screen has appeared, the navigation bar is hidden
exactly over a collapsed header, and any other header is expanded. -/
def BarFollowsHeader (s : State) : Prop :=
  s.settled = true →
    (s.isNavigationBarHidden = true ↔ s.headerHeight = minHeaderHeight) ∧
    (s.headerHeight ≠ minHeaderHeight → s.headerHeight = maxHeaderHeight)

/-- The condition on an event: the screen appears with its navigation bar. -/
def AppearsWithBar (s : State) : Event → Prop
  | .viewDidAppear => s.isNavigationBarHidden = false
  | _ => True

/-- Stopping changes the bar together with the header. -/
theorem barFollowsHeader_stop (s : State) :
    BarFollowsHeader { scrollViewDidStopScrolling s with settled := true } := by
  intro _
  have hne : maxHeaderHeight ≠ minHeaderHeight := by norm_num [minHeaderHeight, maxHeaderHeight]
  simp only [scrollViewDidStopScrolling]
  split
  · simp [hne]
  · simp

/-- Appearing changes the header alone. -/
theorem barFollowsHeader_viewDidAppear_iff (s : State) :
    BarFollowsHeader { s with headerHeight := maxHeaderHeight, settled := true } ↔
      s.isNavigationBarHidden = false := by
  have hne : maxHeaderHeight ≠ minHeaderHeight := by norm_num [minHeaderHeight, maxHeaderHeight]
  simp [BarFollowsHeader, hne]

/-- An event that does not settle leaves nothing to show. -/
theorem barFollowsHeader_of_not_settled {s : State} (h : s.settled = false) :
    BarFollowsHeader s := by
  intro hsettled
  rw [h] at hsettled
  cases hsettled

/-- An event that meets its condition leaves the bar as it should be, and no other event does. -/
theorem barFollowsHeader_step_iff {s s' : State} {e : Event} (hs' : step s e = some s') :
    AppearsWithBar s e ↔ BarFollowsHeader s' := by
  cases e with
  | scroll offset view =>
    obtain ⟨p, -, rfl⟩ := Option.map_eq_some_iff.mp hs'
    exact iff_of_true trivial (barFollowsHeader_of_not_settled rfl)
  | scrollViewDidEndDragging decelerate =>
    cases decelerate with
    | true =>
      obtain rfl := Option.some.inj hs'
      exact iff_of_true trivial (barFollowsHeader_of_not_settled rfl)
    | false =>
      obtain rfl := Option.some.inj hs'
      exact iff_of_true trivial (barFollowsHeader_stop s)
  | scrollViewDidEndDecelerating =>
    obtain rfl := Option.some.inj hs'
    exact iff_of_true trivial (barFollowsHeader_stop s)
  | viewDidAppear =>
    obtain rfl := Option.some.inj hs'
    exact (barFollowsHeader_viewDidAppear_iff s).symm
  | viewDidDisappear =>
    obtain rfl := Option.some.inj hs'
    exact iff_of_true trivial (barFollowsHeader_of_not_settled rfl)

/-- For every run of the screen: the navigation bar is hidden only over a collapsed header, in
every state right after the scrolling has stopped or the screen has appeared, if and only if the
screen never appears while the bar is hidden. -/
theorem barFollowsHeader_iff (es : List Event) :
    step.Always BarFollowsHeader State.start es ↔ step.EachStep AppearsWithBar State.start es := by
  refine PartialStep.always_iff_eachStep_of_total
    (K := fun s => minHeaderHeight ≤ s.headerHeight ∧ s.headerHeight ≤ maxHeaderHeight)
    ?_ es (by norm_num [minHeaderHeight, maxHeaderHeight, State.start])
    (barFollowsHeader_of_not_settled rfl)
  rintro s e ⟨hmin, hmax⟩ -
  obtain ⟨s', hs', hlimits⟩ := step_limits hmin hmax e
  exact ⟨s', hs', hlimits, barFollowsHeader_step_iff hs'⟩

/-- The table is scrolled until the header is gone, the scrolling stops, and another screen covers
the editor for a while. -/
def coveredWhileCollapsed : List Event :=
  [.viewDidAppear, .scroll 156 { contentHeight := 2000, frameHeight := 500 },
    .scrollViewDidEndDragging false, .viewDidDisappear, .viewDidAppear]

/-- The header is back and the navigation bar is not. -/
theorem coveredWhileCollapsed_not_barFollowsHeader :
    ¬ step.Always BarFollowsHeader State.start coveredWhileCollapsed := by
  intro halways
  have hrun : step.exec State.start coveredWhileCollapsed =
      some { headerHeight := 156, previousScrollOffset := 0, contentOffset := 0,
             isNavigationBarHidden := true, settled := true } := by decide +kernel
  have hcollapsed := (halways.of_exec hrun rfl).1.mp rfl
  exact absurd hcollapsed (by norm_num [minHeaderHeight])

end Header

end DateCourse
