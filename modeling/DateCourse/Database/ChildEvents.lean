import DateCourse.Database.Node
import Mathlib.Logic.Function.Basic

/-!
# Child events

When an operation changes the node that a view shows, the filter of the view reports a change for
each child that enters, leaves or differs. An operation may report several changes of one child; the
accumulator merges them into one. The event generator turns the merged changes into events, with the
key of the child before.

## Main definitions

* `ChildChange`: what is reported about a child;
* `FIndexedFilter.updateChildIn` and `FIndexedFilter.updateFullNode`: the changes reported;
* `FIndexedFilter.debugAsserts`: what the filter asserts in a debug build;
* `trackChildChange`: merging one more change;
* `generateEventsForChanges`: the events, in the order in which they are raised;
* `handleChildEvent`: an observer that keeps a list by the keys before.

## Main results

* `Leads.trackAll`: changes that lead from the children of one node to those of another are never
  an illegal combination, and the merged changes lead there in one go;
* `foldl_handleChildEvent`: an observer that handles the events shows the children of the new node.
-/

namespace Database

/-! ## Changes of a child -/

/-- An `FChange` of one child. -/
inductive ChildChange (K L : Type*) [Ord K]
  | childAdded (node : Node K L)
  | childChanged (node oldNode : Node K L)
  | childRemoved (node : Node K L)

variable {K L : Type*} [Ord K]

/-- The change is what happens to a child that was `c` and is `c'`. -/
def ChildChange.Turns (change : ChildChange K L) (c c' : Node K L) : Prop :=
  match change with
  | childAdded node => c.isEmpty = true ∧ c' = node ∧ node.isEmpty = false
  | childChanged node oldNode =>
    c = oldNode ∧ oldNode.isEmpty = false ∧ c' = node ∧ node.isEmpty = false
  | childRemoved node => c = node ∧ node.isEmpty = false ∧ c'.isEmpty = true

/-- The changes lead, one after the other, from the children `cur` to the children `cur'`. -/
inductive Leads [DecidableEq K] :
    (K → Node K L) → List (K × ChildChange K L) → (K → Node K L) → Prop
  | nil (cur : K → Node K L) : Leads cur [] cur
  | cons {cur cur' : K → Node K L} {k : K} {change : ChildChange K L} {c : Node K L}
      {rest : List (K × ChildChange K L)} (turns : change.Turns (cur k) c)
      (leads : Leads (Function.update cur k c) rest cur') : Leads cur ((k, change) :: rest) cur'

/-- Changes may follow each other. -/
theorem Leads.append [DecidableEq K] {f g h : K → Node K L} {rs ss : List (K × ChildChange K L)}
    (hrs : Leads f rs g) (hss : Leads g ss h) : Leads f (rs ++ ss) h := by
  induction hrs with
  | nil cur => exact hss
  | cons turns leads ih => exact Leads.cons turns (ih hss)

/-- Changes of different children lead to where each of them does. -/
theorem leads_of_pairwise [DecidableEq K] {rs : List (K × ChildChange K L)} {f g : K → Node K L}
    (hrs : rs.Pairwise fun r s => r.1 ≠ s.1) (hturns : ∀ r ∈ rs, r.2.Turns (f r.1) (g r.1))
    (hsame : ∀ k, (∀ r ∈ rs, r.1 ≠ k) → f k = g k) : Leads f rs g := by
  induction rs generalizing f with
  | nil =>
    obtain rfl : f = g := funext fun k => hsame k (by simp)
    exact Leads.nil f
  | cons r rs ih =>
    obtain ⟨k, change⟩ := r
    obtain ⟨hk, hrs'⟩ := List.pairwise_cons.mp hrs
    refine Leads.cons (hturns _ List.mem_cons_self) (ih hrs' ?_ ?_)
    · intro s hs
      rw [Function.update_of_ne (hk s hs).symm]
      exact hturns s (List.mem_cons_of_mem _ hs)
    · intro j hj
      by_cases hjk : j = k
      · rw [hjk, Function.update_self]
      · rw [Function.update_of_ne hjk]
        apply hsame
        intro s hs
        rcases List.mem_cons.mp hs with rfl | hs
        · exact Ne.symm hjk
        · exact hj s hs

/-! ## The filter -/

namespace FIndexedFilter

variable [Std.TransOrd K] [Std.LawfulEqOrd K] [DecidableEq L]

/-- The changes that `updateFullNode:withNewNode:accumulator:` reports. -/
def updateFullNode (oldSnap newSnap : Node K L) : List (K × ChildChange K L) :=
  (oldSnap.enumerateChildren.filterMap fun e =>
    if newSnap.hasChild e.1 then none else some (e.1, .childRemoved e.2)) ++
  newSnap.enumerateChildren.filterMap fun e =>
    if oldSnap.hasChild e.1 then
      let oldChildSnap := oldSnap.getImmediateChild e.1
      if oldChildSnap = e.2 then none else some (e.1, .childChanged e.2 oldChildSnap)
    else some (e.1, .childAdded e.2)

/-- The changes between two nodes: removed children, children that differ, and added ones. -/
theorem mem_updateFullNode {oldSnap newSnap : Node K L} {r : K × ChildChange K L} :
    r ∈ updateFullNode oldSnap newSnap ↔
      (∃ e ∈ oldSnap.enumerateChildren, newSnap.hasChild e.1 = false ∧
        r = (e.1, .childRemoved e.2)) ∨
      ∃ e ∈ newSnap.enumerateChildren,
        (oldSnap.hasChild e.1 = true ∧ oldSnap.getImmediateChild e.1 ≠ e.2 ∧
          r = (e.1, .childChanged e.2 (oldSnap.getImmediateChild e.1))) ∨
        (oldSnap.hasChild e.1 = false ∧ r = (e.1, .childAdded e.2)) := by
  simp only [updateFullNode, List.mem_append, List.mem_filterMap]
  refine or_congr (exists_congr fun e => and_congr_right fun _ => ?_)
    (exists_congr fun e => and_congr_right fun _ => ?_)
  · cases newSnap.hasChild e.1 <;> simp [eq_comm]
  · cases oldSnap.hasChild e.1 with
    | true => by_cases h : oldSnap.getImmediateChild e.1 = e.2 <;> simp [h, eq_comm]
    | false => simp [eq_comm]

/-- At most one change is reported of each child. -/
theorem pairwise_updateFullNode (oldSnap newSnap : Node K L) :
    (updateFullNode oldSnap newSnap).Pairwise fun r s => r.1 ≠ s.1 := by
  have hkeep : ∀ {l : List (K × Node K L)} {g : K × Node K L → Option (K × ChildChange K L)},
      SortedAssoc.Sorted l → (∀ e r, g e = some r → r.1 = e.1) →
        (l.filterMap g).Pairwise fun r s => r.1 ≠ s.1 := by
    intro l g hl hg
    refine List.pairwise_filterMap.mpr (hl.pairwise_ne.imp ?_)
    intro a b hab r hr s hs
    rw [hg a r hr, hg b s hs]
    exact hab
  refine List.pairwise_append.mpr ⟨hkeep oldSnap.sorted_enumerateChildren ?_,
    hkeep newSnap.sorted_enumerateChildren ?_, ?_⟩
  · intro e r hr
    split at hr
    · contradiction
    · rw [← Option.some.inj hr]
  · intro e r hr
    split at hr
    · obtain ⟨-, hr⟩ := Option.ite_none_left_eq_some.mp hr
      rw [← Option.some.inj hr]
    · rw [← Option.some.inj hr]
  · -- a removed key has no new child
    intro r hr s hs heq
    obtain ⟨e, -, hr⟩ := List.mem_filterMap.mp hr
    obtain ⟨e', he', hs⟩ := List.mem_filterMap.mp hs
    obtain ⟨hnew, hr⟩ := Option.ite_none_left_eq_some.mp hr
    have hkey : s.1 = e'.1 := by
      split at hs
      · obtain ⟨-, hs⟩ := Option.ite_none_left_eq_some.mp hs
        rw [← Option.some.inj hs]
      · rw [← Option.some.inj hs]
    obtain ⟨hchild, hne⟩ := Node.mem_enumerateChildren.mp he'
    rw [← Option.some.inj hr, hkey] at heq
    rw [heq, Node.hasChild_eq, hchild, hne] at hnew
    exact hnew rfl

variable [DecidableEq K]

/-- `updateChildIn:forChildKey:newChild:affectedPath:fromSource:accumulator:`, with the changes it
reports. What it asserts under `#ifdef DEBUG` is `debugAsserts`. -/
def updateChildIn (node : Node K L) (childKey : K) (newChildSnap : Node K L)
    (affectedPath : FPath K) : Node K L × List (K × ChildChange K L) :=
  let oldChildSnap := node.getImmediateChild childKey
  if oldChildSnap.getChild affectedPath = newChildSnap.getChild affectedPath ∧
      oldChildSnap.isEmpty = newChildSnap.isEmpty then (node, [])
  else
    (if node.isLeafNode && newChildSnap.isEmpty then node
      else node.updateImmediateChild childKey newChildSnap,
      if newChildSnap.isEmpty then
        -- otherwise the node is asserted to be a leaf
        if node.hasChild childKey then [(childKey, .childRemoved oldChildSnap)] else []
      else if oldChildSnap.isEmpty then [(childKey, .childAdded newChildSnap)]
      else [(childKey, .childChanged newChildSnap oldChildSnap)])

/-- The assertion in `updateChildIn:forChildKey:newChild:affectedPath:fromSource:accumulator:` under
`#ifdef DEBUG`: "Old and new snapshots should be equal" where nothing is taken to have changed. -/
def debugAsserts (node : Node K L) (childKey : K) (newChildSnap : Node K L)
    (affectedPath : FPath K) : Bool :=
  let oldChildSnap := node.getImmediateChild childKey
  if oldChildSnap.getChild affectedPath = newChildSnap.getChild affectedPath ∧
      oldChildSnap.isEmpty = newChildSnap.isEmpty then oldChildSnap = newChildSnap
  else true

omit [DecidableEq K] in
/-- The assertion holds unless the children agree at the path, and in being empty or not, without
being the same. -/
theorem debugAsserts_eq (node : Node K L) (k : K) (n : Node K L) (p : FPath K) :
    debugAsserts node k n p = decide (node.getImmediateChild k = n ∨
      (node.getImmediateChild k).getChild p ≠ n.getChild p ∨
        (node.getImmediateChild k).isEmpty ≠ n.isEmpty) := by
  rw [debugAsserts, Bool.eq_iff_iff]
  split
  next hsame => simp [hsame.1, hsame.2]
  next hdiff =>
    rw [not_and_or] at hdiff
    simp only [decide_eq_true_eq, true_iff]
    exact Or.inr hdiff

omit [DecidableEq K] in
/-- The assertion holds of a child that is updated at the path. -/
theorem debugAsserts_updateChild (node : Node K L) (k : K) (p : FPath K) (m : Node K L) :
    debugAsserts node k ((node.getImmediateChild k).updateChild p m) p = true := by
  rw [debugAsserts]
  split
  next hsame =>
    -- what is written there is what was there
    rw [Node.getChild_updateChild] at hsame
    rw [← hsame.1, Node.updateChild_getChild, decide_eq_true_eq]
  next => rfl

omit [DecidableEq K] in
/-- The assertion holds of a child that stays. -/
theorem debugAsserts_self (node : Node K L) (k : K) (p : FPath K) :
    debugAsserts node k (node.getImmediateChild k) p = true := by
  simp [debugAsserts]

omit [DecidableEq K] in
/-- The assertion holds of a child that was not there. -/
theorem debugAsserts_of_isEmpty {node : Node K L} {k : K}
    (h : (node.getImmediateChild k).isEmpty = true) (n : Node K L) (p : FPath K) :
    debugAsserts node k n p = true := by
  rw [debugAsserts, h]
  split
  next hsame =>
    rw [decide_eq_true_eq, Node.eq_emptyNode_iff.mpr h, Node.eq_emptyNode_iff.mpr hsame.2.symm]
  next => rfl

omit [DecidableEq K] in
/-- The assertion holds of a child that goes. -/
theorem debugAsserts_emptyNode (node : Node K L) (k : K) (p : FPath K) :
    debugAsserts node k .emptyNode p = true := by
  rw [debugAsserts]
  split
  next hsame => rw [decide_eq_true_eq, Node.eq_emptyNode_iff.mpr hsame.2]
  next => rfl

/-- The change that is reported is what happens to the child. -/
theorem leads_updateChildIn (node : Node K L) (k : K) (m : Node K L) (p : FPath K) :
    Leads node.getImmediateChild (updateChildIn node k m p).2
      (updateChildIn node k m p).1.getImmediateChild := by
  rw [updateChildIn]
  split
  next hsame => exact Leads.nil _
  next hsame =>
    have hold : (node.getImmediateChild k).isEmpty = true → m.isEmpty = false := by
      intro hold
      by_contra hm
      rw [Bool.not_eq_false] at hm
      -- two empty children agree everywhere
      apply hsame
      rw [Node.eq_emptyNode_iff.mpr hold, Node.eq_emptyNode_iff.mpr hm]
      exact ⟨rfl, rfl⟩
    cases hm : m.isEmpty with
    | true =>
      have hchild : (node.getImmediateChild k).isEmpty = false := by
        by_contra h
        rw [hold ((Bool.not_eq_false _).mp h)] at hm
        contradiction
      have hleaf : node.isLeafNode = false := by
        by_contra h
        rw [Node.getImmediateChild_of_isLeafNode ((Bool.not_eq_false _).mp h)] at hchild
        contradiction
      have hhas : node.hasChild k = true := by
        rw [Node.hasChild_eq, hchild]
        rfl
      simp only [hleaf, hhas, Bool.false_and, Bool.false_eq_true, if_false, if_true]
      rw [Node.getImmediateChild_updateImmediateChild]
      exact Leads.cons ⟨rfl, hchild, hm⟩ (Leads.nil _)
    | false =>
      simp only [Bool.and_false, Bool.false_eq_true, if_false]
      rw [Node.getImmediateChild_updateImmediateChild]
      split
      next hempty => exact Leads.cons ⟨hempty, rfl, hm⟩ (Leads.nil _)
      next hempty => exact Leads.cons ⟨rfl, by simpa using hempty, rfl, hm⟩ (Leads.nil _)

/-- The changes between two nodes lead from one to the other. -/
theorem leads_updateFullNode (oldSnap newSnap : Node K L) :
    Leads oldSnap.getImmediateChild (updateFullNode oldSnap newSnap)
      newSnap.getImmediateChild := by
  apply leads_of_pairwise (pairwise_updateFullNode oldSnap newSnap)
  · intro r hr
    rcases mem_updateFullNode.mp hr with ⟨e, he, hnew, rfl⟩ | ⟨e, he, h⟩
    · obtain ⟨hchild, hne⟩ := Node.mem_enumerateChildren.mp he
      exact ⟨hchild, hne, by simpa [Node.hasChild_eq] using hnew⟩
    · obtain ⟨hchild, hne⟩ := Node.mem_enumerateChildren.mp he
      rcases h with ⟨hold, hdiff, rfl⟩ | ⟨hold, rfl⟩
      · exact ⟨rfl, by simpa [Node.hasChild_eq] using hold, hchild, hne⟩
      · exact ⟨by simpa [Node.hasChild_eq] using hold, hchild, hne⟩
  · intro k hk
    by_contra hdiff
    have hnot : ∀ change, (k, change) ∉ updateFullNode oldSnap newSnap := fun change h => hk _ h rfl
    cases hold : (oldSnap.getImmediateChild k).isEmpty with
    | true =>
      cases hnew : (newSnap.getImmediateChild k).isEmpty with
      | true =>
        apply hdiff
        rw [Node.eq_emptyNode_iff.mpr hold, Node.eq_emptyNode_iff.mpr hnew]
      | false =>
        refine hnot _ (mem_updateFullNode.mpr (Or.inr
          ⟨(k, _), Node.mem_enumerateChildren.mpr ⟨rfl, hnew⟩, Or.inr ⟨?_, rfl⟩⟩))
        rw [Node.hasChild_eq, hold]
        rfl
    | false =>
      cases hnew : (newSnap.getImmediateChild k).isEmpty with
      | true =>
        refine hnot _ (mem_updateFullNode.mpr (Or.inl
          ⟨(k, _), Node.mem_enumerateChildren.mpr ⟨rfl, hold⟩, ?_, rfl⟩))
        rw [Node.hasChild_eq, hnew]
        rfl
      | false =>
        refine hnot _ (mem_updateFullNode.mpr (Or.inr
          ⟨(k, _), Node.mem_enumerateChildren.mpr ⟨rfl, hnew⟩, Or.inl ⟨?_, hdiff, rfl⟩⟩))
        rw [Node.hasChild_eq, hold]
        rfl

end FIndexedFilter

/-! ## The accumulator -/

/-- What was tracked for a child, if anything, is what happened to it. -/
def Outcome (tracked : Option (ChildChange K L)) (c c' : Node K L) : Prop :=
  match tracked with
  | none => c = c'
  | some change => change.Turns c c'

/-- The tracked changes are what happened to the children `old` that are now `cur`. -/
structure Tracks (old : K → Node K L) (changeMap : List (K × ChildChange K L))
    (cur : K → Node K L) : Prop where
  sorted : SortedAssoc.Sorted changeMap
  outcome : ∀ k, Outcome (SortedAssoc.find changeMap k) (old k) (cur k)

/-- Nothing is tracked before the first change. -/
theorem tracks_nil (old : K → Node K L) : Tracks old [] old :=
  ⟨SortedAssoc.sorted_nil, fun _ => rfl⟩

/-- `trackChildChange:`, on the changes tracked so far in key order; an illegal combination of
changes throws. -/
def trackChildChange (changeMap : List (K × ChildChange K L)) (childKey : K)
    (change : ChildChange K L) : Option (List (K × ChildChange K L)) :=
  match SortedAssoc.find changeMap childKey with
  | none => some (SortedAssoc.insert changeMap childKey change)
  | some oldChange =>
    match change, oldChange with
    | .childAdded node, .childRemoved oldNode =>
      some (SortedAssoc.insert changeMap childKey (.childChanged node oldNode))
    | .childRemoved _, .childAdded _ => some (SortedAssoc.erase changeMap childKey)
    | .childRemoved _, .childChanged _ oldNode =>
      some (SortedAssoc.insert changeMap childKey (.childRemoved oldNode))
    | .childChanged node _, .childAdded _ =>
      some (SortedAssoc.insert changeMap childKey (.childAdded node))
    | .childChanged node _, .childChanged _ oldNode =>
      some (SortedAssoc.insert changeMap childKey (.childChanged node oldNode))
    | _, _ => none

/-- The changes that are left when all reported ones have been tracked. -/
def trackAll (reported : List (K × ChildChange K L)) : Option (List (K × ChildChange K L)) :=
  reported.foldlM (fun changeMap r => trackChildChange changeMap r.1 r.2) []

section Track

variable [Std.TransOrd K] [Std.LawfulEqOrd K] [DecidableEq K]
  {old cur cur' : K → Node K L} {changeMap : List (K × ChildChange K L)} {k : K} {c : Node K L}

/-- Tracking, instead of what was tracked of a child, what has happened to it altogether. -/
theorem Tracks.insert (h : Tracks old changeMap cur) {change : ChildChange K L}
    (hturns : change.Turns (old k) c) :
    Tracks old (SortedAssoc.insert changeMap k change) (Function.update cur k c) := by
  refine ⟨h.sorted.insert k change, fun q => ?_⟩
  rw [SortedAssoc.find_insert]
  by_cases hq : q = k
  · rw [hq, if_pos Std.ReflOrd.compare_self, Function.update_self]
    exact hturns
  · rw [if_neg (mt Std.LawfulEqOrd.eq_of_compare hq), Function.update_of_ne hq]
    exact h.outcome q

/-- A child that is again what it was is tracked no longer. -/
theorem Tracks.erase (h : Tracks old changeMap cur) (hsame : old k = c) :
    Tracks old (SortedAssoc.erase changeMap k) (Function.update cur k c) := by
  refine ⟨h.sorted.erase k, fun q => ?_⟩
  rw [SortedAssoc.find_erase h.sorted]
  by_cases hq : q = k
  · rw [hq, if_pos Std.ReflOrd.compare_self, Function.update_self]
    exact hsame
  · rw [if_neg (mt Std.LawfulEqOrd.eq_of_compare hq), Function.update_of_ne hq]
    exact h.outcome q

/-- One more change of a child is tracked together with the earlier ones. -/
theorem Tracks.trackChildChange (h : Tracks old changeMap cur) {change : ChildChange K L}
    (hturns : change.Turns (cur k) c) :
    ∃ changeMap', Database.trackChildChange changeMap k change = some changeMap' ∧
      Tracks old changeMap' (Function.update cur k c) := by
  have hk := h.outcome k
  rw [Database.trackChildChange]
  cases hfind : SortedAssoc.find changeMap k with
  | none =>
    rw [hfind] at hk
    exact ⟨_, rfl, h.insert (hk.symm ▸ hturns)⟩
  | some oldChange =>
    rw [hfind] at hk
    cases change with
    | childAdded node =>
      obtain ⟨hcur, rfl, hne⟩ := hturns
      cases oldChange with
      | childAdded oldNode =>
        obtain ⟨-, hk, hne'⟩ := hk
        simp [hk, hne'] at hcur
      | childChanged oldNode oldOldNode =>
        obtain ⟨-, -, hk, hne'⟩ := hk
        simp [hk, hne'] at hcur
      | childRemoved oldNode =>
        obtain ⟨hk, hne', -⟩ := hk
        exact ⟨_, rfl, h.insert ⟨hk, hne', rfl, hne⟩⟩
    | childChanged node oldNode =>
      obtain ⟨hcur, hne', rfl, hne⟩ := hturns
      cases oldChange with
      | childAdded first =>
        obtain ⟨hk, -, -⟩ := hk
        exact ⟨_, rfl, h.insert ⟨hk, rfl, hne⟩⟩
      | childChanged first oldFirst =>
        obtain ⟨hk, hne'', -, -⟩ := hk
        exact ⟨_, rfl, h.insert ⟨hk, hne'', rfl, hne⟩⟩
      | childRemoved first =>
        obtain ⟨-, -, hempty⟩ := hk
        simp [hcur, hne'] at hempty
    | childRemoved node =>
      obtain ⟨hcur, hne, hempty⟩ := hturns
      cases oldChange with
      | childAdded first =>
        obtain ⟨hk, -, -⟩ := hk
        refine ⟨_, rfl, h.erase ?_⟩
        rw [Node.eq_emptyNode_iff.mpr hk, Node.eq_emptyNode_iff.mpr hempty]
      | childChanged first oldFirst =>
        obtain ⟨hk, hne'', -, -⟩ := hk
        exact ⟨_, rfl, h.insert ⟨hk, hne'', hempty⟩⟩
      | childRemoved first =>
        obtain ⟨-, -, hempty'⟩ := hk
        simp [hcur, hne] at hempty'

/-- Tracking one change after the other does not trap. -/
theorem Leads.foldlM_trackChildChange {reported : List (K × ChildChange K L)}
    (h : Leads cur reported cur') (hm : Tracks old changeMap cur) :
    ∃ changeMap', reported.foldlM (fun m r => trackChildChange m r.1 r.2) changeMap =
      some changeMap' ∧ Tracks old changeMap' cur' := by
  induction h generalizing changeMap with
  | nil cur => exact ⟨_, rfl, hm⟩
  | cons turns leads ih =>
    obtain ⟨changeMap', htrack, hm'⟩ := hm.trackChildChange turns
    rw [List.foldlM_cons, htrack]
    exact ih hm'

/-- Changes that lead from one node's children to another's are never an illegal combination, and
what is tracked in the end leads there at once. -/
theorem Leads.trackAll {reported : List (K × ChildChange K L)} (h : Leads old reported cur) :
    ∃ changeMap, Database.trackAll reported = some changeMap ∧ Tracks old changeMap cur :=
  h.foldlM_trackChildChange (tracks_nil old)

end Track

/-! ## Events -/

/-- An `FDataEvent` with the data that its observers get. -/
inductive FDataEvent (K L : Type*) [Ord K]
  | childAdded (childKey : K) (node : Node K L) (prevKey : Option K)
  | childChanged (childKey : K) (node : Node K L) (prevKey : Option K)
  | childRemoved (childKey : K) (node : Node K L)
  | value (node : Node K L)

namespace ChildChange

/-- The new child, if the change is an addition. -/
def added? : ChildChange K L → Option (Node K L)
  | childAdded node => some node
  | _ => none

/-- The new child, if the change is one of a child that stays. -/
def changed? : ChildChange K L → Option (Node K L)
  | childChanged node _ => some node
  | _ => none

/-- The old child, if the change is a removal. -/
def removed? : ChildChange K L → Option (Node K L)
  | childRemoved node => some node
  | _ => none

end ChildChange

/-- `generateEventsForChanges:eventCache:eventRegistrations:`, for the tracked changes in key order
and the node of the value change, if there is one. -/
def generateEventsForChanges (changeMap : List (K × ChildChange K L)) (value : Option (Node K L))
    (eventCache : Node K L) : List (FDataEvent K L) :=
  let prevKey := SortedAssoc.predecessorKey eventCache.enumerateChildren
  (SortedAssoc.select ChildChange.removed? changeMap).map (fun e => .childRemoved e.1 e.2) ++
  (SortedAssoc.select ChildChange.added? changeMap).map
    (fun e => .childAdded e.1 e.2 (prevKey e.1)) ++
  (SortedAssoc.select ChildChange.changed? changeMap).map
    (fun e => .childChanged e.1 e.2 (prevKey e.1)) ++
  value.toList.map .value

/-- An observer of child events that keeps a list: it puts a child after the one whose key the event
names. -/
def handleChildEvent [DecidableEq K] (shown : List (K × Node K L)) :
    FDataEvent K L → List (K × Node K L)
  | .childAdded childKey node prevKey => SortedAssoc.insertAfter shown prevKey (childKey, node)
  | .childChanged childKey node _ =>
    shown.map fun e => if e.1 = childKey then (childKey, node) else e
  | .childRemoved childKey _ => shown.filter fun e => e.1 ≠ childKey
  | .value _ => shown

/-- An observer of value events. -/
def handleValueEvent (shown : Option (Node K L)) : FDataEvent K L → Option (Node K L)
  | .value node => some node
  | _ => shown

/-- An observer of the value shows the last one raised. -/
theorem foldl_handleValueEvent (changeMap : List (K × ChildChange K L)) (value : Option (Node K L))
    (eventCache : Node K L) (shown : Option (Node K L)) :
    (generateEventsForChanges changeMap value eventCache).foldl handleValueEvent shown =
      value.or shown := by
  simp only [generateEventsForChanges, List.foldl_append, List.foldl_map, handleValueEvent,
    List.foldl_fixed]
  cases value <;> rfl

section Observer

/-- What an observer shows of a child: nothing if it is empty. -/
def shown (c : Node K L) : Option (Node K L) := if c.isEmpty then none else some c

/-- A child is enumerated under its key unless it is empty. -/
theorem find_enumerateChildren [Std.LawfulEqOrd K] (n : Node K L) (k : K) :
    SortedAssoc.find n.enumerateChildren k = shown (n.getImmediateChild k) := by
  apply Option.ext
  intro c
  rw [SortedAssoc.find_eq_some_iff n.sorted_enumerateChildren, Node.mem_enumerateChildren, shown]
  split
  next h =>
    simp only [reduceCtorEq, iff_false, not_and]
    rintro rfl
    simp [h]
  next h =>
    rw [Option.some.injEq]
    refine ⟨fun hc => hc.1, ?_⟩
    rintro rfl
    exact ⟨rfl, by simpa using h⟩

/-- What the removals leave of a child. -/
def kept (tracked : Option (ChildChange K L)) (c : Node K L) : Option (Node K L) :=
  if tracked.bind ChildChange.removed? = none then shown c else none

/-- The children shown afterwards are those kept and those added, and none is both. -/
theorem Outcome.keys {tracked : Option (ChildChange K L)} {c c' : Node K L}
    (h : Outcome tracked c c') :
    (shown c' ≠ none ↔ kept tracked c ≠ none ∨ tracked.bind ChildChange.added? ≠ none) ∧
      (tracked.bind ChildChange.added? ≠ none → kept tracked c = none) := by
  cases tracked with
  | none =>
    obtain rfl : c = c' := h
    simp [kept]
  | some change =>
    cases change with
    | childAdded node =>
      obtain ⟨hempty, rfl, hne⟩ := h
      simp [ChildChange.added?, kept, shown, hempty, hne]
    | childChanged node oldNode =>
      obtain ⟨rfl, hne, rfl, hne'⟩ := h
      simp [ChildChange.added?, ChildChange.removed?, kept, shown, hne, hne']
    | childRemoved node =>
      obtain ⟨rfl, hne, hempty⟩ := h
      simp [ChildChange.added?, ChildChange.removed?, kept, shown, hempty]

/-- Removing, adding and changing a child as tracked shows the new child. -/
theorem Outcome.shown_eq {tracked : Option (ChildChange K L)} {c c' : Node K L}
    (h : Outcome tracked c c') :
    (((tracked.bind ChildChange.added?).or (kept tracked c)).map fun x =>
      (tracked.bind ChildChange.changed?).getD x) = shown c' := by
  cases tracked with
  | none =>
    obtain rfl : c = c' := h
    simp [kept]
  | some change =>
    cases change with
    | childAdded node =>
      obtain ⟨-, rfl, hne⟩ := h
      simp [ChildChange.added?, ChildChange.changed?, shown, hne]
    | childChanged node oldNode =>
      obtain ⟨rfl, hne, rfl, hne'⟩ := h
      simp [ChildChange.added?, ChildChange.changed?, ChildChange.removed?, kept, shown, hne, hne']
    | childRemoved node =>
      obtain ⟨rfl, hne, hempty⟩ := h
      simp [ChildChange.added?, ChildChange.removed?, kept, shown, hempty]

variable [DecidableEq K]

/-- Handling removals takes the children out. -/
theorem foldl_childRemoved (rs l : List (K × Node K L)) :
    (rs.map fun e => FDataEvent.childRemoved e.1 e.2).foldl handleChildEvent l =
      l.filter fun e => ∀ r ∈ rs, e.1 ≠ r.1 := by
  induction rs generalizing l with
  | nil => simp
  | cons r rs ih =>
    rw [List.map_cons, List.foldl_cons, ih, handleChildEvent, List.filter_filter]
    apply List.filter_congr
    intro e he
    rw [Bool.eq_iff_iff]
    simp [and_comm]

variable [Std.LawfulEqOrd K]

/-- Handling changes replaces the children where they stand. -/
theorem foldl_childChanged {rs : List (K × Node K L)} (hrs : SortedAssoc.Sorted rs)
    (prevKey : K → Option K) (l : List (K × Node K L)) :
    (rs.map fun e => FDataEvent.childChanged e.1 e.2 (prevKey e.1)).foldl handleChildEvent l =
      l.map fun e => (e.1, (SortedAssoc.find rs e.1).getD e.2) := by
  induction rs generalizing l with
  | nil => simp [SortedAssoc.find]
  | cons r rs ih =>
    obtain ⟨hr, hrs'⟩ := SortedAssoc.sorted_cons.mp hrs
    rw [List.map_cons, List.foldl_cons, ih hrs', handleChildEvent, List.map_map]
    apply List.map_congr_left
    intro e he
    by_cases hkey : e.1 = r.1
    · -- a child changes once
      have hnone : SortedAssoc.find rs r.1 = none := by
        apply SortedAssoc.find_eq_none
        intro x hx heq
        rw [hr x hx] at heq
        contradiction
      simp [SortedAssoc.find, hkey, hnone]
    · simp [SortedAssoc.find, hkey]

variable [Std.TransOrd K]

/-- An observer that handles the events of the changes from one node to another shows the children
of the new one if it showed those of the old one. -/
theorem foldl_handleChildEvent {old new : Node K L} {changeMap : List (K × ChildChange K L)}
    (h : Tracks old.getImmediateChild changeMap new.getImmediateChild)
    (value : Option (Node K L)) :
    (generateEventsForChanges changeMap value new).foldl handleChildEvent old.enumerateChildren =
      new.enumerateChildren := by
  have hvalue : ∀ l : List (K × Node K L),
      (value.toList.map FDataEvent.value).foldl handleChildEvent l = l := by
    intro l
    cases value <;> rfl
  rw [generateEventsForChanges, List.foldl_append, List.foldl_append, List.foldl_append, hvalue,
    foldl_childRemoved, foldl_childChanged (h.sorted.select _), List.foldl_map]
  -- what is shown after the removals
  generalize hl₁ : (old.enumerateChildren.filter fun e =>
    ∀ r ∈ SortedAssoc.select ChildChange.removed? changeMap, e.1 ≠ r.1) = l₁
  have hsorted₁ : SortedAssoc.Sorted l₁ := by
    rw [← hl₁]
    exact List.Pairwise.filter _ old.sorted_enumerateChildren
  have hfind₁ : ∀ k, SortedAssoc.find l₁ k =
      kept (SortedAssoc.find changeMap k) (old.getImmediateChild k) := by
    intro k
    have hkey : (∀ r ∈ SortedAssoc.select ChildChange.removed? changeMap, k ≠ r.1) ↔
        (SortedAssoc.find changeMap k).bind ChildChange.removed? = none := by
      rw [← SortedAssoc.find_select h.sorted, ← not_iff_not]
      refine Iff.trans ?_ SortedAssoc.exists_key_iff
      simp [eq_comm]
    rw [← hl₁, SortedAssoc.find_filter (fun k => decide
      (∀ r ∈ SortedAssoc.select ChildChange.removed? changeMap, k ≠ r.1)),
      find_enumerateChildren, kept]
    simp only [decide_eq_true_eq, hkey]
  have hadded : ∀ k, SortedAssoc.find (SortedAssoc.select ChildChange.added? changeMap) k =
      (SortedAssoc.find changeMap k).bind ChildChange.added? := SortedAssoc.find_select h.sorted _
  have hinsert : (SortedAssoc.select ChildChange.added? changeMap).foldl
      (fun l r => handleChildEvent l
        (.childAdded r.1 r.2 (SortedAssoc.predecessorKey new.enumerateChildren r.1))) l₁ =
      (SortedAssoc.select ChildChange.added? changeMap).foldl
        (fun l r => SortedAssoc.insert l r.1 r.2) l₁ := by
    apply SortedAssoc.foldl_insertAfter_eq_insert (h.sorted.select _) hsorted₁
      new.sorted_enumerateChildren
    · intro r hr e he heq
      have hr' : SortedAssoc.find (SortedAssoc.select ChildChange.added? changeMap) r.1 ≠ none :=
        SortedAssoc.exists_key_iff.mp ⟨r, hr, rfl⟩
      rw [hadded] at hr'
      have hnone := (h.outcome r.1).keys.2 hr'
      rw [← hfind₁] at hnone
      exact SortedAssoc.exists_key_iff.mp ⟨e, he, heq⟩ hnone
    · intro k
      rw [SortedAssoc.exists_key_iff, SortedAssoc.exists_key_iff, SortedAssoc.exists_key_iff,
        find_enumerateChildren, hfind₁, hadded]
      exact (h.outcome k).keys.1
  rw [hinsert]
  apply SortedAssoc.Sorted.ext _ new.sorted_enumerateChildren
  · intro k
    rw [SortedAssoc.find_map (fun k c => (SortedAssoc.find
      (SortedAssoc.select ChildChange.changed? changeMap) k).getD c),
      SortedAssoc.find_foldl_insert (h.sorted.select _), hadded, hfind₁, find_enumerateChildren,
      SortedAssoc.find_select h.sorted]
    exact (h.outcome k).shown_eq
  · exact List.pairwise_map.mpr (hsorted₁.foldl_insert _)

end Observer

end Database
