import DateCourse.Database.ChildEvents
import DateCourse.Database.WriteTree

/-!
# Views

A view shows the data at a location. It keeps what the server has sent, and the node that its
observers see, which has the pending writes of the user on top. The view processor updates both for
each operation: a write of the user, data from the server, and the answer to a write. The queries
considered ask for all data in key order. A parameter `DEBUG` tells whether the program is built
with that macro, under which the filter makes an assertion that a reverted write may fail.

## Main definitions

* `FCacheNode` and `FViewCache`: what a view keeps;
* `FWriteTreeRef`: the pending writes as seen from the location of the view;
* `FOperation` and `FViewProcessor.process`: what an operation does to the caches;
* `FViewProcessor.debugAsserts`: what the filter's assertion comes down to for an operation;
* `FView.applyOperation` and `FView.initialEvents`: the events for the observers;
* `FView.step`: the view and the events for an observer as a machine.

## Main results

* `FViewProcessor.process_follows`: whatever the operation, the changes that are reported lead from
  the children of the old event cache to those of the new one, and only that assertion may fail;
* `FView.applyOperation_spec`: no other assertion traps, and observers who show the event cache
  before an operation show it afterwards;
* `FView.observers_show_eventCache`: observers show the event cache throughout every run.
-/

namespace Database

variable {K L : Type*} [Ord K]

/-! ## Caches -/

/-- An `FCacheNode` of a query that filters no children. -/
structure FCacheNode (K L : Type*) [Ord K] where
  node : Node K L
  isFullyInitialized : Bool

namespace FCacheNode

/-- `isCompleteForChild:`. -/
def isCompleteForChild (c : FCacheNode K L) (childKey : K) : Bool :=
  c.isFullyInitialized || c.node.hasChild childKey

/-- `isCompleteForPath:`. -/
def isCompleteForPath (c : FCacheNode K L) (path : FPath K) : Bool :=
  match path with
  | [] => c.isFullyInitialized
  | childKey :: _ => c.isCompleteForChild childKey

end FCacheNode

/-- An `FViewCache`. -/
structure FViewCache (K L : Type*) [Ord K] where
  cachedEventSnap : FCacheNode K L
  cachedServerSnap : FCacheNode K L

namespace FViewCache

/-- `updateEventSnap:isComplete:isFiltered:`. -/
def updateEventSnap (c : FViewCache K L) (eventSnap : Node K L) (complete : Bool) :
    FViewCache K L :=
  { c with cachedEventSnap := ⟨eventSnap, complete⟩ }

/-- `updateServerSnap:isComplete:isFiltered:`. -/
def updateServerSnap (c : FViewCache K L) (serverSnap : Node K L) (complete : Bool) :
    FViewCache K L :=
  { c with cachedServerSnap := ⟨serverSnap, complete⟩ }

/-- `completeEventSnap`. -/
def completeEventSnap (c : FViewCache K L) : Option (Node K L) :=
  if c.cachedEventSnap.isFullyInitialized then some c.cachedEventSnap.node else none

/-- `completeServerSnap`. -/
def completeServerSnap (c : FViewCache K L) : Option (Node K L) :=
  if c.cachedServerSnap.isFullyInitialized then some c.cachedServerSnap.node else none

end FViewCache

/-! ## The pending writes at a location -/

/-- An `FWriteTreeRef`. -/
structure FWriteTreeRef (K L : Type*) [Ord K] where
  path : FPath K
  writeTree : FWriteTree K L

namespace FWriteTreeRef

/-- The compound write of the tree. -/
def visibleWrites (r : FWriteTreeRef K L) : CompoundWrite K L := r.writeTree.visibleWrites

/-- `childWriteTreeRef:`. -/
def childWriteTreeRef (r : FWriteTreeRef K L) (childKey : K) : FWriteTreeRef K L :=
  { r with path := r.path ++ [childKey] }

section Find

variable [DecidableEq K]

/-- `shadowingWriteAtPath:`. -/
def shadowingWriteAtPath (r : FWriteTreeRef K L) (path : FPath K) : Option (Node K L) :=
  r.visibleWrites.completeNodeAtPath (r.path ++ path)

end Find

variable [Std.TransOrd K] [DecidableEq K]

/-- `calculateCompleteEventCacheWithCompleteServerCache:`. -/
def calculateCompleteEventCache (r : FWriteTreeRef K L) (completeServerCache : Option (Node K L)) :
    Option (Node K L) :=
  match r.visibleWrites.completeNodeAtPath r.path with
  | some shadowingNode => some shadowingNode
  | none =>
    let subMerge := r.visibleWrites.childCompoundWriteAtPath r.path
    -- no write is made below the path
    if subMerge.isEmpty then completeServerCache
    else if completeServerCache.isNone && !subMerge.hasCompleteWriteAtPath [] then none
    else some (subMerge.applyToNode (completeServerCache.getD .emptyNode))

/-- `calculateCompleteEventChildrenWithCompleteServerChildren:`. -/
def calculateCompleteEventChildren (r : FWriteTreeRef K L) (completeServerChildren : Node K L) :
    Node K L :=
  match r.visibleWrites.completeNodeAtPath r.path with
  | some topLevelSet =>
    topLevelSet.enumerateChildren.foldl
      (fun completeChildren e => completeChildren.updateImmediateChild e.1 e.2) .emptyNode
  | none =>
    let merge := r.visibleWrites.childCompoundWriteAtPath r.path
    -- writes to children that are known, then children that are written as a whole
    let layered := completeServerChildren.enumerateChildren.foldl
      (fun completeChildren e => completeChildren.updateImmediateChild e.1
        ((merge.childCompoundWriteAtPath [e.1]).applyToNode e.2)) .emptyNode
    merge.completeChildren.foldl
      (fun completeChildren e => completeChildren.updateImmediateChild e.1 e.2) layered

/-- `calculateEventCacheAfterServerOverwriteWithChildPath:existingEventSnap:existingServerSnap:`. -/
def calculateEventCacheAfterServerOverwrite (r : FWriteTreeRef K L) (childPath : FPath K)
    (existingServerSnap : Node K L) : Option (Node K L) :=
  let path := r.path ++ childPath
  -- a write hides all of it
  if r.visibleWrites.hasCompleteWriteAtPath path then none
  else
    let childMerge := r.visibleWrites.childCompoundWriteAtPath path
    if childMerge.isEmpty then some (existingServerSnap.getChild childPath)
    else some (childMerge.applyToNode (existingServerSnap.getChild childPath))

/-- `calculateCompleteChild:cache:`. -/
def calculateCompleteChild (r : FWriteTreeRef K L) (childKey : K)
    (existingServerCache : FCacheNode K L) : Option (Node K L) :=
  let path := r.path ++ [childKey]
  match r.visibleWrites.completeNodeAtPath path with
  | some shadowingNode => some shadowingNode
  | none =>
    if existingServerCache.isCompleteForChild childKey then
      let childMerge := r.visibleWrites.childCompoundWriteAtPath path
      some (childMerge.applyToNode (existingServerCache.node.getImmediateChild childKey))
    else none

/-- `completeChild:` of the child source made from these writes, a view cache and, if there is one,
a complete server cache. -/
def completeChild (r : FWriteTreeRef K L) (viewCache : FViewCache K L)
    (optCompleteServerCache : Option (Node K L)) (childKey : K) : Option (Node K L) :=
  let node := viewCache.cachedEventSnap
  if node.isCompleteForChild childKey then some (node.node.getImmediateChild childKey)
  else
    let serverNode : FCacheNode K L :=
      match optCompleteServerCache with
      | some serverCache => ⟨serverCache, true⟩
      | none => viewCache.cachedServerSnap
    r.calculateCompleteChild childKey serverNode

end FWriteTreeRef

/-! ## Operations -/

/-- An `FOperation` at a path relative to the view. -/
inductive FOperation (K L : Type*) [Ord K]
  | userOverwrite (path : FPath K) (snap : Node K L)
  | userMerge (path : FPath K) (children : CompoundWrite K L)
  | serverOverwrite (path : FPath K) (snap : Node K L)
  | serverMerge (path : FPath K) (children : CompoundWrite K L)
  | ackUserWrite (path : FPath K) (affectedTree : FImmutableTree K Unit) (revert : Bool)
  | listenComplete (path : FPath K)

/-- A write below the view is reverted. -/
def FOperation.revertsBelow : FOperation K L → Bool
  | .ackUserWrite (_ :: _) _ true => true
  | _ => false

/-- A view cache with the changes that have been reported of its event cache so far. -/
structure Processed (K L : Type*) [Ord K] where
  viewCache : FViewCache K L
  reported : List (K × ChildChange K L)
  /-- What the filter asserts under `#ifdef DEBUG` has held so far. -/
  debugAsserts : Bool

namespace Processed

/-- The server cache is replaced; nothing is reported. -/
def updateServerSnap (s : Processed K L) (serverSnap : Node K L) (complete : Bool) :
    Processed K L :=
  { s with viewCache := s.viewCache.updateServerSnap serverSnap complete }

variable [Std.TransOrd K] [Std.LawfulEqOrd K] [DecidableEq L]

/-- The filter updates the whole event cache. -/
def updateFullNode (s : Processed K L) (newSnap : Node K L) (complete : Bool) : Processed K L where
  viewCache := s.viewCache.updateEventSnap newSnap complete
  reported :=
    s.reported ++ FIndexedFilter.updateFullNode s.viewCache.cachedEventSnap.node newSnap
  debugAsserts := s.debugAsserts

variable [DecidableEq K]

/-- The filter updates a child of the event cache. -/
def updateChildIn (s : Processed K L) (childKey : K) (newChild : Node K L) (affectedPath : FPath K)
    (complete : Bool) : Processed K L :=
  let updated :=
    FIndexedFilter.updateChildIn s.viewCache.cachedEventSnap.node childKey newChild affectedPath
  { viewCache := s.viewCache.updateEventSnap updated.1 complete
    reported := s.reported ++ updated.2
    debugAsserts := s.debugAsserts && FIndexedFilter.debugAsserts s.viewCache.cachedEventSnap.node
      childKey newChild affectedPath }

/-- The filter updates a child of the server cache; nothing is reported. -/
def updateServerChildIn (s : Processed K L) (childKey : K) (newChild : Node K L)
    (affectedPath : FPath K) : Processed K L :=
  let serverSnap := s.viewCache.cachedServerSnap
  let updated := FIndexedFilter.updateChildIn serverSnap.node childKey newChild affectedPath
  { s with
    viewCache := s.viewCache.updateServerSnap updated.1 serverSnap.isFullyInitialized
    debugAsserts := s.debugAsserts &&
      FIndexedFilter.debugAsserts serverSnap.node childKey newChild affectedPath }

end Processed

/-! ## The processor -/

namespace FViewProcessor

/-! ### What is reported -/

section Follows

variable [DecidableEq K]

/-- The changes that were reported lead from the children of the old event cache to those of the new
one, a complete server cache is still complete, and `held` tells whether the filter's assertions
have held. -/
structure Follows (base : FViewCache K L) (held : Bool) (s : Processed K L) : Prop where
  leads : Leads base.cachedEventSnap.node.getImmediateChild s.reported
    s.viewCache.cachedEventSnap.node.getImmediateChild
  complete : base.cachedServerSnap.isFullyInitialized = true →
    s.viewCache.cachedServerSnap.isFullyInitialized = true
  debugAsserts : s.debugAsserts = held

/-- The operation did not trap, and what it reported leads to the new event cache. -/
def Results (base : FViewCache K L) (held : Bool) (r : Option (Processed K L)) : Prop :=
  ∃ s, r = some s ∧ Follows base held s

variable {base : FViewCache K L} {held : Bool} {s : Processed K L}

theorem Follows.results (h : Follows base held s) : Results base held (some s) :=
  ⟨s, rfl, h⟩

/-- A step after a computation that does not trap does not trap either. -/
theorem Results.map {α : Type*} {r : Option α} {f : α → Processed K L} (hr : r.isSome = true)
    (hf : ∀ a, Follows base held (f a)) : Results base held (r.map f) := by
  obtain ⟨a, rfl⟩ := Option.isSome_iff_exists.mp hr
  exact (hf a).results

/-- Operations that do not trap and report what they change may follow each other. -/
theorem Results.bind {r : Option (Processed K L)} {f : Processed K L → Option (Processed K L)}
    (hr : Results base held r) (hf : ∀ s, Follows base held s → Results base held (f s)) :
    Results base held (r.bind f) := by
  obtain ⟨s, rfl, hs⟩ := hr
  exact hf s hs

/-- A loop over such operations does not trap and reports what it changes. -/
theorem Follows.foldlM {α : Type*} {f : Processed K L → α → Option (Processed K L)}
    (hf : ∀ s a, Follows base held s → Results base held (f s a)) (as : List α)
    (hs : Follows base held s) : Results base held (as.foldlM f s) := by
  induction as generalizing s with
  | nil => exact hs.results
  | cons a as ih =>
    rw [List.foldlM_cons]
    exact (hf s a hs).bind fun s' hs' => ih hs'

/-- A loop over updates that report what they change does so. -/
theorem Follows.foldl {α : Type*} {f : Processed K L → α → Processed K L}
    (hf : ∀ s a, Follows base held s → Follows base held (f s a)) (as : List α)
    (hs : Follows base held s) : Follows base held (as.foldl f s) := by
  induction as generalizing s with
  | nil => exact hs
  | cons a as ih => exact ih (hf s a hs)

/-- Replacing the server cache reports nothing. -/
theorem Follows.updateServerSnap (h : Follows base held s) (n : Node K L) {b : Bool}
    (hb : s.viewCache.cachedServerSnap.isFullyInitialized = true → b = true) :
    Follows base held (s.updateServerSnap n b) :=
  ⟨h.leads, fun hbase => hb (h.complete hbase), h.debugAsserts⟩

end Follows

/-! ### The operations -/

variable [Std.TransOrd K] [Std.LawfulEqOrd K] [DecidableEq K] [DecidableEq L]

/-- `generateEventCacheAfterServerEvent:path:writesCache:source:accumulator:`. -/
def generateEventCacheAfterServerEvent (s : Processed K L) (changePath : FPath K)
    (writesCache : FWriteTreeRef K L) : Option (Processed K L) :=
  let oldEventSnap := s.viewCache.cachedEventSnap
  -- a write hides the change
  if (writesCache.shadowingWriteAtPath changePath).isSome then some s
  else
    match changePath with
    | [] =>
      (writesCache.calculateCompleteEventCache s.viewCache.completeServerSnap).map
        fun nodeWithLocalWrites => s.updateFullNode nodeWithLocalWrites true
    | childKey :: childChangePath =>
      let newEventChild :=
        if oldEventSnap.isCompleteForChild childKey then
          let oldEventChild := oldEventSnap.node.getImmediateChild childKey
          -- only what no write hides is updated
          match writesCache.calculateEventCacheAfterServerOverwrite changePath
              s.viewCache.cachedServerSnap.node with
          | some eventChildUpdate =>
            some (oldEventChild.updateChild childChangePath eventChildUpdate)
          | none => some oldEventChild
        else writesCache.calculateCompleteChild childKey s.viewCache.cachedServerSnap
      match newEventChild with
      | some newEventChild =>
        some
          (s.updateChildIn childKey newEventChild childChangePath oldEventSnap.isFullyInitialized)
      | none => some s

/-- `applyServerOverwriteTo:changePath:snap:writesCache:completeCache:filterServerNode:
accumulator:`. -/
def applyServerOverwriteTo (s : Processed K L) (changePath : FPath K) (changedSnap : Node K L)
    (writesCache : FWriteTreeRef K L) : Option (Processed K L) :=
  let oldServerSnap := s.viewCache.cachedServerSnap
  match changePath with
  | [] => generateEventCacheAfterServerEvent (s.updateServerSnap changedSnap true) [] writesCache
  | childKey :: childChangePath =>
    -- a change below a child that is not known is left alone
    if !oldServerSnap.isCompleteForPath changePath && changePath.length > 1 then some s
    else
      let childNode := oldServerSnap.node.getImmediateChild childKey
      let newChildNode := childNode.updateChild childChangePath changedSnap
      generateEventCacheAfterServerEvent
        (s.updateServerChildIn childKey newChildNode childChangePath) changePath writesCache

/-- The new child in `applyUserOverwriteTo:changePath:changedSnap:writesCache:completeCache:
accumulator:`. -/
def overwrittenChild (s : Processed K L) (childKey : K) (childChangePath : FPath K)
    (changedSnap : Node K L) (writesCache : FWriteTreeRef K L)
    (optCompleteCache : Option (Node K L)) : Node K L :=
  if childChangePath.isEmpty then changedSnap
  else
    match writesCache.completeChild s.viewCache optCompleteCache childKey with
    | some childNode => childNode.updateChild childChangePath changedSnap
    -- there is no complete child to update
    | none => .emptyNode

/-- `applyUserOverwriteTo:changePath:changedSnap:writesCache:completeCache:accumulator:`. -/
def applyUserOverwriteTo (s : Processed K L) (changePath : FPath K) (changedSnap : Node K L)
    (writesCache : FWriteTreeRef K L) (optCompleteCache : Option (Node K L)) : Processed K L :=
  let oldEventSnap := s.viewCache.cachedEventSnap
  match changePath with
  | [] => s.updateFullNode changedSnap true
  | childKey :: childChangePath =>
    let oldChild := oldEventSnap.node.getImmediateChild childKey
    let newChild :=
      overwrittenChild s childKey childChangePath changedSnap writesCache optCompleteCache
    if oldChild ≠ newChild then
      s.updateChildIn childKey newChild childChangePath oldEventSnap.isFullyInitialized
    else s

/-- `applyUserMergeTo:path:changedChildren:writesCache:completeCache:accumulator:`, with the writes
to children in view first. -/
def applyUserMergeTo (s : Processed K L) (path : FPath K) (changedChildren : CompoundWrite K L)
    (writesCache : FWriteTreeRef K L) (serverCache : Option (Node K L)) : Processed K L :=
  let viewCache := s.viewCache
  let hasChild (e : FPath K × Node K L) : Bool :=
    viewCache.cachedEventSnap.isCompleteForPath (path ++ e.1)
  let overwrite (s : Processed K L) (e : FPath K × Node K L) : Processed K L :=
    applyUserOverwriteTo s (path ++ e.1) e.2 writesCache serverCache
  -- in a limited view these may leave room for the others, so they come first
  let inView := (changedChildren.enumerateWrites.filter hasChild).foldl overwrite s
  (changedChildren.enumerateWrites.filter fun e => !hasChild e).foldl overwrite inView

/-- `applyServerMergeTo:path:changedChildren:writesCache:completeCache:filterServerNode:
accumulator:`, with the children that the server cache has first. -/
def applyServerMergeTo (s : Processed K L) (path : FPath K) (changedChildren : CompoundWrite K L)
    (writesCache : FWriteTreeRef K L) : Option (Processed K L) :=
  let serverSnap := s.viewCache.cachedServerSnap
  -- nothing has come from the server yet, so there is nothing to merge with
  if serverSnap.node.isEmpty && !serverSnap.isFullyInitialized then some s
  else
    let actualMerge :=
      if path.isEmpty then changedChildren
      else CompoundWrite.addCompoundWrite .emptyWrite changedChildren path
    let serverNode := serverSnap.node
    let overwrite (s : Processed K L) (e : K × CompoundWrite K L) : Option (Processed K L) :=
      applyServerOverwriteTo s [e.1] (e.2.applyToNode (serverNode.getImmediateChild e.1))
        writesCache
    -- a merge below a child that is not known does not make it known
    let isUnknownDeepMerge (e : K × CompoundWrite K L) : Bool :=
      !serverSnap.isCompleteForChild e.1 && e.2.rootWrite.isNone
    let known := actualMerge.childCompoundWrites.filter fun e => serverNode.hasChild e.1
    let unknown := actualMerge.childCompoundWrites.filter fun e =>
      !serverNode.hasChild e.1 && !isUnknownDeepMerge e
    (known.foldlM overwrite s).bind (unknown.foldlM overwrite)

/-- `ackUserWriteOn:ackPath:affectedTree:writesCache:completeCache:accumulator:`. -/
def ackUserWriteOn (s : Processed K L) (ackPath : FPath K) (affectedTree : FImmutableTree K Unit)
    (writesCache : FWriteTreeRef K L) : Option (Processed K L) :=
  if (writesCache.shadowingWriteAtPath ackPath).isSome then some s
  else
    let serverCache := s.viewCache.cachedServerSnap
    match affectedTree.value with
    | some () =>
      -- an overwrite: the data of the server shows again if it is complete there
      if (ackPath.isEmpty && serverCache.isFullyInitialized) ||
          serverCache.isCompleteForPath ackPath then
        applyServerOverwriteTo s ackPath (serverCache.node.getChild ackPath) writesCache
      -- otherwise each child that the server has sent
      else if ackPath.isEmpty then
        let changedChildren := serverCache.node.enumerateChildren.foldl
          (fun changedChildren child => changedChildren.addWrite child.2 [child.1])
          CompoundWrite.emptyWrite
        applyServerMergeTo s ackPath changedChildren writesCache
      else some s
    | none =>
      -- a merge: what is complete below each of its paths
      let changedChildren := affectedTree.entries.foldl
        (fun changedChildren e =>
          let serverCachePath := ackPath ++ e.1
          if serverCache.isCompleteForPath serverCachePath then
            changedChildren.addWrite (serverCache.node.getChild serverCachePath) e.1
          else changedChildren)
        CompoundWrite.emptyWrite
      applyServerMergeTo s ackPath changedChildren writesCache

/-- The child of the event cache is updated in
`revertUserWriteOn:path:writesCache:completeCache:accumulator:`. -/
def revertChild (s : Processed K L) (childKey : K) (childPath : FPath K)
    (writesCache : FWriteTreeRef K L) (complete : Bool) : Processed K L :=
  let viewCache := s.viewCache
  let serverSnap := viewCache.cachedServerSnap
  let oldEventCache := viewCache.cachedEventSnap.node
  let newChild :=
    match writesCache.calculateCompleteChild childKey serverSnap with
    | some newChild => some newChild
    | none =>
      if serverSnap.isCompleteForChild childKey then
        some (oldEventCache.getImmediateChild childKey)
      else none
  match newChild with
  | some newChild => s.updateChildIn childKey newChild childPath complete
  | none =>
    -- nothing complete is left there, so the child goes
    if oldEventCache.hasChild childKey then
      s.updateChildIn childKey .emptyNode childPath complete
    else { s with viewCache := viewCache.updateEventSnap oldEventCache complete }

/-- `revertUserWriteOn:path:writesCache:completeCache:accumulator:`. -/
def revertUserWriteOn (s : Processed K L) (path : FPath K) (writesCache : FWriteTreeRef K L) :
    Option (Processed K L) :=
  if (writesCache.shadowingWriteAtPath path).isSome then some s
  else
    let viewCache := s.viewCache
    let serverSnap := viewCache.cachedServerSnap
    let complete :=
      serverSnap.isFullyInitialized || (writesCache.shadowingWriteAtPath []).isSome
    match path with
    | [] =>
      let newNode :=
        if serverSnap.isFullyInitialized then
          writesCache.calculateCompleteEventCache viewCache.completeServerSnap
        else some (writesCache.calculateCompleteEventChildren serverSnap.node)
      newNode.map fun newNode => s.updateFullNode newNode complete
    | childKey :: childPath =>
      let reverted := revertChild s childKey childPath writesCache complete
      if reverted.viewCache.cachedEventSnap.node.isEmpty && serverSnap.isFullyInitialized then
        -- the node may have been a leaf before the writes
        (writesCache.calculateCompleteEventCache viewCache.completeServerSnap).map fun node =>
          if node.isLeafNode then reverted.updateFullNode node complete else reverted
      else some reverted

/-- `listenCompleteOldCache:path:writesCache:serverCache:accumulator:`. -/
def listenCompleteOldCache (s : Processed K L) (path : FPath K) (writesCache : FWriteTreeRef K L) :
    Option (Processed K L) :=
  let oldServerNode := s.viewCache.cachedServerSnap
  generateEventCacheAfterServerEvent
    (s.updateServerSnap oldServerNode.node (oldServerNode.isFullyInitialized || path.isEmpty)) path
    writesCache

/-- The case distinction of `applyOperationOn:operation:writesCache:completeCache:`. -/
def process (s : Processed K L) (operation : FOperation K L) (writesCache : FWriteTreeRef K L)
    (optCompleteCache : Option (Node K L)) : Option (Processed K L) :=
  match operation with
  | .userOverwrite path snap => some (applyUserOverwriteTo s path snap writesCache optCompleteCache)
  | .serverOverwrite path snap => applyServerOverwriteTo s path snap writesCache
  | .userMerge path children => some (applyUserMergeTo s path children writesCache optCompleteCache)
  | .serverMerge path children => applyServerMergeTo s path children writesCache
  | .ackUserWrite path affectedTree revert =>
    if !revert then ackUserWriteOn s path affectedTree writesCache
    else revertUserWriteOn s path writesCache
  | .listenComplete path => listenCompleteOldCache s path writesCache

/-- The node of the value change that `maybeAddValueFromOldViewCache:newViewCache:changes:` adds. -/
def maybeAddValue (oldViewCache newViewCache : FViewCache K L)
    (changes : List (K × ChildChange K L)) : Option (Node K L) :=
  let eventSnap := newViewCache.cachedEventSnap
  let isLeafOrEmpty := eventSnap.node.isLeafNode || eventSnap.node.isEmpty
  -- once the data is complete, a value is raised whenever anything changed
  if eventSnap.isFullyInitialized ∧ (changes.length > 0 ∨
      oldViewCache.cachedEventSnap.isFullyInitialized = false ∨
      (isLeafOrEmpty = true ∧ some eventSnap.node ≠ oldViewCache.completeEventSnap)) then
    some eventSnap.node
  else none

/-- What the filter's assertion under `#ifdef DEBUG` comes down to when a view is given an operation.
The child below which a write is reverted is recomputed; it must be the one shown, or differ from it
where the write was or in being empty. -/
def debugAsserts (operation : FOperation K L) (writesCache : FWriteTreeRef K L)
    (viewCache : FViewCache K L) : Bool :=
  match operation with
  | .ackUserWrite (childKey :: childPath) _ true =>
    -- a write that hides the place leaves the event cache alone
    (writesCache.shadowingWriteAtPath (childKey :: childPath)).isSome ||
      (writesCache.calculateCompleteChild childKey viewCache.cachedServerSnap).all fun newChild =>
        let shownChild := viewCache.cachedEventSnap.node.getImmediateChild childKey
        shownChild = newChild ∨ shownChild.getChild childPath ≠ newChild.getChild childPath ∨
          shownChild.isEmpty ≠ newChild.isEmpty
  | _ => true

/-- The assertion can fail only when a write below the view is reverted. -/
theorem debugAsserts_of_not_revertsBelow {operation : FOperation K L}
    (h : operation.revertsBelow = false) (r : FWriteTreeRef K L) (c : FViewCache K L) :
    debugAsserts operation r c = true := by
  rw [debugAsserts.eq_def]
  split
  · contradiction
  · rfl

/-! ### What the operations report -/

variable {base : FViewCache K L} {held : Bool} {s : Processed K L}

/-- Replacing the whole event cache reports what it changes. -/
theorem Follows.updateFullNode (h : Follows base held s) (n : Node K L) (b : Bool) :
    Follows base held (s.updateFullNode n b) :=
  ⟨h.leads.append (FIndexedFilter.leads_updateFullNode _ n), h.complete, h.debugAsserts⟩

/-- Updating a child of the event cache reports what it changes. -/
theorem Follows.updateChildIn (h : Follows base held s) {k : K} {n : Node K L} {p : FPath K}
    {b : Bool} (hasserts :
      FIndexedFilter.debugAsserts s.viewCache.cachedEventSnap.node k n p = b) (complete : Bool) :
    Follows base (held && b) (s.updateChildIn k n p complete) := by
  refine ⟨h.leads.append (FIndexedFilter.leads_updateChildIn _ k n p), h.complete, ?_⟩
  rw [Processed.updateChildIn, h.debugAsserts, hasserts]

/-- Where the filter's assertion holds, no assertion has failed that had not before. -/
theorem Follows.updateChildIn_of_debugAsserts (h : Follows base held s) {k : K} {n : Node K L}
    {p : FPath K} (hasserts :
      FIndexedFilter.debugAsserts s.viewCache.cachedEventSnap.node k n p = true) (complete : Bool) :
    Follows base held (s.updateChildIn k n p complete) := by
  rw [← Bool.and_true held]
  exact h.updateChildIn hasserts complete

/-- Updating the server cache at a path below a child reports nothing. -/
theorem Follows.updateServerChildIn (h : Follows base held s) (k : K) (p : FPath K)
    (n : Node K L) : Follows base held (s.updateServerChildIn k
      ((s.viewCache.cachedServerSnap.node.getImmediateChild k).updateChild p n) p) := by
  refine ⟨h.leads, h.complete, ?_⟩
  rw [Processed.updateServerChildIn, FIndexedFilter.debugAsserts_updateChild, Bool.and_true,
    h.debugAsserts]

omit [Std.LawfulEqOrd K] [DecidableEq L] in
/-- With complete data of the server there is a complete event cache. -/
theorem isSome_calculateCompleteEventCache (r : FWriteTreeRef K L) (n : Node K L) :
    (r.calculateCompleteEventCache (some n)).isSome = true := by
  rw [FWriteTreeRef.calculateCompleteEventCache]
  cases r.visibleWrites.completeNodeAtPath r.path with
  | some node => rfl
  | none =>
    simp only [Option.isNone_some, Bool.false_and, Bool.false_eq_true, if_false]
    split <;> rfl

omit [Std.TransOrd K] [Std.LawfulEqOrd K] [DecidableEq K] [DecidableEq L] in
/-- A child that is not complete is not there. -/
theorem isEmpty_of_not_complete {c : FCacheNode K L} {k : K} (h : ¬c.isCompleteForChild k = true) :
    (c.node.getImmediateChild k).isEmpty = true := by
  rw [FCacheNode.isCompleteForChild, Bool.or_eq_true, not_or] at h
  simpa [Node.hasChild_eq] using h.2

/-- The event cache is brought up to date with the server without a trap, if it is not replaced as a
whole before the server's data is complete. -/
theorem Follows.generate (h : Follows base held s) {p : FPath K} (r : FWriteTreeRef K L)
    (hp : p = [] → s.viewCache.cachedServerSnap.isFullyInitialized = true) :
    Results base held (generateEventCacheAfterServerEvent s p r) := by
  rw [generateEventCacheAfterServerEvent.eq_def]
  dsimp only
  split
  next => exact h.results
  next =>
    cases p with
    | nil =>
      refine Results.map ?_ fun n => h.updateFullNode n true
      rw [FViewCache.completeServerSnap, if_pos (hp rfl)]
      exact isSome_calculateCompleteEventCache r _
    | cons k p =>
      dsimp only
      split
      next n hn =>
        refine (h.updateChildIn_of_debugAsserts ?_ _).results
        split at hn
        next hcomplete =>
          -- the child is updated at the path, or stays
          split at hn
          · rw [← Option.some.inj hn]
            exact FIndexedFilter.debugAsserts_updateChild _ k p _
          · rw [← Option.some.inj hn]
            exact FIndexedFilter.debugAsserts_self _ k p
        next hcomplete =>
          exact FIndexedFilter.debugAsserts_of_isEmpty (isEmpty_of_not_complete hcomplete) n p
      next => exact h.results

/-- An overwrite of the server does not trap and reports what it changes. -/
theorem Follows.applyServerOverwriteTo (h : Follows base held s) (p : FPath K) (n : Node K L)
    (r : FWriteTreeRef K L) :
    Results base held (FViewProcessor.applyServerOverwriteTo s p n r) := by
  cases p with
  | nil => exact (h.updateServerSnap n fun _ => rfl).generate r fun _ => rfl
  | cons k p =>
    rw [FViewProcessor.applyServerOverwriteTo]
    dsimp only
    split
    · exact h.results
    · exact (h.updateServerChildIn k p n).generate r (by simp)

/-- The filter's assertion holds of a child that the user overwrites. -/
theorem debugAsserts_overwrittenChild (s : Processed K L) (k : K) (p : FPath K) (n : Node K L)
    (r : FWriteTreeRef K L) (c : Option (Node K L)) :
    FIndexedFilter.debugAsserts s.viewCache.cachedEventSnap.node k
      (overwrittenChild s k p n r c) p = true := by
  rw [overwrittenChild]
  split
  next hp =>
    rw [List.isEmpty_iff.mp hp]
    exact FIndexedFilter.debugAsserts_updateChild _ k [] n
  next =>
    by_cases hcomplete : s.viewCache.cachedEventSnap.isCompleteForChild k = true
    · rw [FWriteTreeRef.completeChild.eq_def]
      simp only [hcomplete, if_true]
      exact FIndexedFilter.debugAsserts_updateChild _ k p n
    · exact FIndexedFilter.debugAsserts_of_isEmpty (isEmpty_of_not_complete hcomplete) _ p

/-- An overwrite of the user reports what it changes. -/
theorem Follows.applyUserOverwriteTo (h : Follows base held s) (p : FPath K) (n : Node K L)
    (r : FWriteTreeRef K L) (c : Option (Node K L)) :
    Follows base held (FViewProcessor.applyUserOverwriteTo s p n r c) := by
  cases p with
  | nil => exact h.updateFullNode n true
  | cons k p =>
    rw [FViewProcessor.applyUserOverwriteTo]
    split
    · exact h.updateChildIn_of_debugAsserts (debugAsserts_overwrittenChild s k p n r c) _
    · exact h

/-- A merge of the user reports what it changes. -/
theorem Follows.applyUserMergeTo (h : Follows base held s) (p : FPath K) (d : CompoundWrite K L)
    (r : FWriteTreeRef K L) (c : Option (Node K L)) :
    Follows base held (FViewProcessor.applyUserMergeTo s p d r c) := by
  refine Follows.foldl ?_ _ (Follows.foldl ?_ _ h)
  · exact fun s e hs => hs.applyUserOverwriteTo _ _ r c
  · exact fun s e hs => hs.applyUserOverwriteTo _ _ r c

/-- A merge of the server does not trap and reports what it changes. -/
theorem Follows.applyServerMergeTo (h : Follows base held s) (p : FPath K) (d : CompoundWrite K L)
    (r : FWriteTreeRef K L) : Results base held (FViewProcessor.applyServerMergeTo s p d r) := by
  rw [FViewProcessor.applyServerMergeTo]
  dsimp only
  split
  · exact h.results
  · refine (Follows.foldlM ?_ _ h).bind fun s' hs' => Follows.foldlM ?_ _ hs'
    · exact fun s e hs => hs.applyServerOverwriteTo _ _ r
    · exact fun s e hs => hs.applyServerOverwriteTo _ _ r

/-- An acknowledged write does not trap and reports what it changes. -/
theorem Follows.ackUserWriteOn (h : Follows base held s) (p : FPath K) (t : FImmutableTree K Unit)
    (r : FWriteTreeRef K L) : Results base held (FViewProcessor.ackUserWriteOn s p t r) := by
  rw [FViewProcessor.ackUserWriteOn]
  dsimp only
  split
  · exact h.results
  · split
    · split
      · exact h.applyServerOverwriteTo _ _ r
      · split
        · exact h.applyServerMergeTo _ _ r
        · exact h.results
    · exact h.applyServerMergeTo _ _ r

/-- Reverting a child reports what it changes, and the filter's assertion may fail only of a child
that is recomputed. -/
theorem Follows.revertChild (h : Follows base held s) (k : K) (p : FPath K) (r : FWriteTreeRef K L)
    (b : Bool) : Follows base (held &&
      (r.calculateCompleteChild k s.viewCache.cachedServerSnap).all fun n =>
        let c := s.viewCache.cachedEventSnap.node.getImmediateChild k
        c = n ∨ c.getChild p ≠ n.getChild p ∨ c.isEmpty ≠ n.isEmpty)
      (FViewProcessor.revertChild s k p r b) := by
  rw [FViewProcessor.revertChild]
  cases hchild : r.calculateCompleteChild k s.viewCache.cachedServerSnap with
  | some n => exact h.updateChildIn (FIndexedFilter.debugAsserts_eq _ k n p) b
  | none =>
    rw [Option.all_none, Bool.and_true]
    dsimp only
    split
    next n hn =>
      obtain ⟨-, hn⟩ := Option.ite_none_right_eq_some.mp hn
      rw [← Option.some.inj hn]
      exact h.updateChildIn_of_debugAsserts (FIndexedFilter.debugAsserts_self _ k p) b
    next =>
      split
      · exact h.updateChildIn_of_debugAsserts (FIndexedFilter.debugAsserts_emptyNode _ k p) b
      · exact ⟨h.leads, h.complete, h.debugAsserts⟩

/-- A reverted write does not trap and reports what it changes. -/
theorem Follows.revertUserWriteOn (h : Follows base held s) (p : FPath K)
    (t : FImmutableTree K Unit) (r : FWriteTreeRef K L) :
    Results base (held && FViewProcessor.debugAsserts (.ackUserWrite p t true) r s.viewCache)
      (FViewProcessor.revertUserWriteOn s p r) := by
  rw [FViewProcessor.revertUserWriteOn]
  cases p with
  | nil =>
    rw [debugAsserts_of_not_revertsBelow rfl, Bool.and_true]
    split
    · exact h.results
    · refine Results.map ?_ fun n => h.updateFullNode n _
      split
      next hinit =>
        rw [FViewCache.completeServerSnap, if_pos hinit]
        exact isSome_calculateCompleteEventCache r _
      next => rfl
  | cons k p =>
    rw [FViewProcessor.debugAsserts]
    cases hshadow : (r.shadowingWriteAtPath (k :: p)).isSome with
    | true =>
      rw [if_pos rfl, Bool.true_or, Bool.and_true]
      exact h.results
    | false =>
      rw [Bool.false_or, if_neg Bool.false_ne_true]
      dsimp only
      split
      next hcond =>
        obtain ⟨-, hinit⟩ := Bool.and_eq_true_iff.mp hcond
        refine Results.map ?_ fun n => ?_
        · rw [FViewCache.completeServerSnap, if_pos hinit]
          exact isSome_calculateCompleteEventCache r _
        · split
          · exact (h.revertChild k p r _).updateFullNode n _
          · exact h.revertChild k p r _
      next => exact (h.revertChild k p r _).results

/-- Whatever the operation, what is reported leads to the new event cache. -/
theorem process_follows (h : Follows base held s) (operation : FOperation K L)
    (r : FWriteTreeRef K L) (c : Option (Node K L)) :
    Results base (held && debugAsserts operation r s.viewCache) (process s operation r c) := by
  cases operation with
  | ackUserWrite p t revert =>
    cases revert with
    | false =>
      rw [debugAsserts_of_not_revertsBelow (by cases p <;> rfl), Bool.and_true]
      exact h.ackUserWriteOn p t r
    | true => exact h.revertUserWriteOn p t r
  | userOverwrite p n =>
    rw [debugAsserts_of_not_revertsBelow rfl, Bool.and_true]
    exact (h.applyUserOverwriteTo p n r c).results
  | userMerge p d =>
    rw [debugAsserts_of_not_revertsBelow rfl, Bool.and_true]
    exact (h.applyUserMergeTo p d r c).results
  | serverOverwrite p n =>
    rw [debugAsserts_of_not_revertsBelow rfl, Bool.and_true]
    exact h.applyServerOverwriteTo p n r
  | serverMerge p d =>
    rw [debugAsserts_of_not_revertsBelow rfl, Bool.and_true]
    exact h.applyServerMergeTo p d r
  | listenComplete p =>
    rw [debugAsserts_of_not_revertsBelow rfl, Bool.and_true]
    refine (h.updateServerSnap _ fun hinit => ?_).generate r ?_
    · rw [hinit, Bool.true_or]
    · rintro rfl
      exact Bool.or_true _

end FViewProcessor

/-! ## Observers -/

namespace FView

variable [Std.TransOrd K] [Std.LawfulEqOrd K] [DecidableEq K] [DecidableEq L]

/-- `applyOperation:writesCache:serverCache:`, with the events for the observers, in a build with or
without `DEBUG`. It traps if a server cache is no longer complete, or if the filter's assertion is
compiled in and has failed. -/
def applyOperation (DEBUG : Bool) (viewCache : FViewCache K L) (operation : FOperation K L)
    (writesCache : FWriteTreeRef K L) (optCompleteServerCache : Option (Node K L)) :
    Option (FViewCache K L × List (FDataEvent K L)) :=
  let processed :=
    FViewProcessor.process ⟨viewCache, [], true⟩ operation writesCache optCompleteServerCache
  processed.bind fun s =>
    (trackAll s.reported).bind fun changes =>
      if (!DEBUG || s.debugAsserts) && (s.viewCache.cachedServerSnap.isFullyInitialized ||
          !viewCache.cachedServerSnap.isFullyInitialized) then
        some (s.viewCache, generateEventsForChanges changes
          (FViewProcessor.maybeAddValue viewCache s.viewCache changes)
          s.viewCache.cachedEventSnap.node)
      else none

/-- What observers of values show when they have handled the events since they registered. -/
def ShowsValue (viewCache : FViewCache K L) (shown : Option (Node K L)) : Prop :=
  viewCache.cachedEventSnap.isFullyInitialized = true → shown = some viewCache.cachedEventSnap.node

omit [DecidableEq K] in
/-- If no value change is added, the node is the one that was shown. -/
theorem maybeAddValue_eq_none {old new : FViewCache K L} {changeMap : List (K × ChildChange K L)}
    (htracks : Tracks old.cachedEventSnap.node.getImmediateChild changeMap
      new.cachedEventSnap.node.getImmediateChild)
    (hnew : new.cachedEventSnap.isFullyInitialized = true)
    (h : FViewProcessor.maybeAddValue old new changeMap = none) :
    old.cachedEventSnap.isFullyInitialized = true ∧
      new.cachedEventSnap.node = old.cachedEventSnap.node := by
  rw [FViewProcessor.maybeAddValue, ite_eq_right_iff] at h
  simp only [hnew, true_and, reduceCtorEq, imp_false, not_or, not_and, Bool.not_eq_false,
    not_lt, Nat.le_zero, List.length_eq_zero_iff] at h
  obtain ⟨rfl, hold, hsame⟩ := h
  refine ⟨hold, ?_⟩
  rw [FViewCache.completeEventSnap, if_pos hold, not_not, Option.some.injEq] at hsame
  have hchildren : old.cachedEventSnap.node.getImmediateChild =
      new.cachedEventSnap.node.getImmediateChild := funext htracks.outcome
  cases hleaf : new.cachedEventSnap.node.isLeafNode with
  | true => exact hsame (by rw [hleaf, Bool.true_or])
  | false =>
    cases hempty : new.cachedEventSnap.node.isEmpty with
    | true => exact hsame (by rw [hempty, Bool.or_true])
    | false =>
      cases hold' : old.cachedEventSnap.node.isLeafNode with
      | false => exact Node.ext_children hleaf hold' hchildren.symm
      | true =>
        -- a node with the children of a leaf is empty if it is not a leaf
        have hnone : new.cachedEventSnap.node = .emptyNode := by
          refine Node.ext_children hleaf rfl ?_
          rw [← hchildren]
          exact funext fun k => Node.getImmediateChild_of_isLeafNode hold' k
        rw [Node.eq_emptyNode_iff.mp hnone] at hempty
        contradiction

/-- What an operation comes to: a trap, if the filter's assertion is compiled in and fails, and
otherwise events after which observers who showed the event cache show the new one. -/
theorem applyOperation_spec (DEBUG : Bool) (viewCache : FViewCache K L)
    (operation : FOperation K L) (writesCache : FWriteTreeRef K L)
    (optCompleteServerCache : Option (Node K L)) :
    ∃ viewCache' events,
      applyOperation DEBUG viewCache operation writesCache optCompleteServerCache =
        (if !DEBUG || FViewProcessor.debugAsserts operation writesCache viewCache then
          some (viewCache', events) else none) ∧
      events.foldl handleChildEvent viewCache.cachedEventSnap.node.enumerateChildren =
        viewCache'.cachedEventSnap.node.enumerateChildren ∧
      ∀ shown, ShowsValue viewCache shown →
        ShowsValue viewCache' (events.foldl handleValueEvent shown) := by
  obtain ⟨s, hs, hleads, hcomplete, hasserts⟩ := FViewProcessor.process_follows
    (s := ⟨viewCache, [], true⟩) ⟨Leads.nil _, id, rfl⟩ operation writesCache optCompleteServerCache
  rw [Bool.true_and] at hasserts
  obtain ⟨changes, hchanges, htracks⟩ := hleads.trackAll
  have hkept : (s.viewCache.cachedServerSnap.isFullyInitialized ||
      !viewCache.cachedServerSnap.isFullyInitialized) = true := by
    cases hold : viewCache.cachedServerSnap.isFullyInitialized with
    | true => rw [hcomplete hold, Bool.true_or]
    | false => exact Bool.or_true _
  refine ⟨s.viewCache, _, ?_, foldl_handleChildEvent htracks
    (FViewProcessor.maybeAddValue viewCache s.viewCache changes), ?_⟩
  · rw [applyOperation, hs, Option.bind_some, hchanges, Option.bind_some, hkept, Bool.and_true,
      hasserts]
  · intro shown hshown hnew
    rw [foldl_handleValueEvent]
    cases hvalue : FViewProcessor.maybeAddValue viewCache s.viewCache changes with
    | some node =>
      obtain ⟨-, hnode⟩ := Option.ite_none_right_eq_some.mp hvalue
      rw [← Option.some.inj hnode, Option.some_or]
    | none =>
      obtain ⟨hold, hnode⟩ := maybeAddValue_eq_none htracks hnew hvalue
      rw [Option.none_or, hshown hold, hnode]

/-- An operation traps exactly if the filter's assertion is compiled in and fails. -/
theorem isSome_applyOperation_iff {DEBUG : Bool} {viewCache : FViewCache K L}
    {operation : FOperation K L} {writesCache : FWriteTreeRef K L}
    {optCompleteServerCache : Option (Node K L)} :
    (applyOperation DEBUG viewCache operation writesCache optCompleteServerCache).isSome = true ↔
      (DEBUG = true → FViewProcessor.debugAsserts operation writesCache viewCache = true) := by
  obtain ⟨v, events, hv, -⟩ :=
    applyOperation_spec DEBUG viewCache operation writesCache optCompleteServerCache
  rw [hv]
  cases DEBUG <;> cases FViewProcessor.debugAsserts operation writesCache viewCache <;> simp

/-- Observers who showed the event cache before an operation show the new one after its events. -/
theorem shows_of_applyOperation {DEBUG : Bool} {viewCache viewCache' : FViewCache K L}
    {operation : FOperation K L} {writesCache : FWriteTreeRef K L}
    {optCompleteServerCache : Option (Node K L)} {events : List (FDataEvent K L)}
    (h : applyOperation DEBUG viewCache operation writesCache optCompleteServerCache =
      some (viewCache', events)) :
    events.foldl handleChildEvent viewCache.cachedEventSnap.node.enumerateChildren =
        viewCache'.cachedEventSnap.node.enumerateChildren ∧
      ∀ shown, ShowsValue viewCache shown →
        ShowsValue viewCache' (events.foldl handleValueEvent shown) := by
  obtain ⟨v, events', hv, hshows⟩ :=
    applyOperation_spec DEBUG viewCache operation writesCache optCompleteServerCache
  rw [hv] at h
  obtain ⟨-, h⟩ := Option.ite_none_right_eq_some.mp h
  obtain ⟨rfl, rfl⟩ := Prod.mk.inj (Option.some.inj h)
  exact hshows

/-- `initialEvents:`. -/
def initialEvents (viewCache : FViewCache K L) : List (FDataEvent K L) :=
  let eventSnap := viewCache.cachedEventSnap
  generateEventsForChanges
    (eventSnap.node.enumerateChildren.map fun e => (e.1, .childAdded e.2))
    (if eventSnap.isFullyInitialized then some eventSnap.node else none) eventSnap.node

/-- An observer who has handled the events raised to it since it registered shows the event
cache. -/
def Shows (viewCache : FViewCache K L) (raised : List (FDataEvent K L)) : Prop :=
  raised.foldl handleChildEvent [] = viewCache.cachedEventSnap.node.enumerateChildren ∧
    ShowsValue viewCache (raised.foldl handleValueEvent none)

omit [DecidableEq L] in
/-- An observer shows the event cache after the initial events. -/
theorem initialEvents_shows (viewCache : FViewCache K L) :
    Shows viewCache (initialEvents viewCache) := by
  constructor
  · have htracks : Tracks (Node.emptyNode : Node K L).getImmediateChild
        (viewCache.cachedEventSnap.node.enumerateChildren.map fun e => (e.1, .childAdded e.2))
        viewCache.cachedEventSnap.node.getImmediateChild := by
      refine ⟨List.pairwise_map.mpr viewCache.cachedEventSnap.node.sorted_enumerateChildren, ?_⟩
      intro k
      rw [SortedAssoc.find_map fun _ n => ChildChange.childAdded n, find_enumerateChildren, shown]
      split
      next hempty => exact (Node.eq_emptyNode_iff.mpr hempty).symm
      next hempty => exact ⟨rfl, rfl, by simpa using hempty⟩
    exact foldl_handleChildEvent htracks _
  · intro hfull
    rw [initialEvents, foldl_handleValueEvent, if_pos hfull, Option.some_or]

/-- What a view is given: an operation, the pending writes and, maybe, a complete server cache. -/
structure Input (K L : Type*) [Ord K] where
  operation : FOperation K L
  writesCache : FWriteTreeRef K L
  optCompleteServerCache : Option (Node K L)

/-- A view as a machine, with the events for an observer beside it. -/
def step (DEBUG : Bool) : PartialStep (FViewCache K L × List (FDataEvent K L)) (Input K L)
  | (viewCache, raised), input =>
    (applyOperation DEBUG viewCache input.operation input.writesCache
      input.optCompleteServerCache).map fun result => (result.1, raised ++ result.2)

/-- An observer who shows the event cache goes on to show it. -/
theorem Shows.applyOperation {DEBUG : Bool} {viewCache viewCache' : FViewCache K L}
    {operation : FOperation K L} {writesCache : FWriteTreeRef K L}
    {optCompleteServerCache : Option (Node K L)} {raised events : List (FDataEvent K L)}
    (hshows : Shows viewCache raised)
    (h : applyOperation DEBUG viewCache operation writesCache optCompleteServerCache =
      some (viewCache', events)) : Shows viewCache' (raised ++ events) := by
  obtain ⟨hchild, hvalue⟩ := shows_of_applyOperation h
  refine ⟨?_, ?_⟩
  · rw [List.foldl_append, hshows.1, hchild]
  · rw [List.foldl_append]
    exact hvalue _ hshows.2

/-- Whatever the view is given after an observer has registered, an operation traps exactly if the
filter's assertion is compiled in and fails, and once the events have been handled the observer
shows the event cache. -/
theorem observers_show_eventCache (DEBUG : Bool) (viewCache : FViewCache K L)
    (inputs : List (Input K L)) :
    PartialStep.Along (step DEBUG)
      (fun s => Shows s.1 s.2 ∧ ∀ input, (step DEBUG s input).isSome = true ↔
        (DEBUG = true →
          FViewProcessor.debugAsserts input.operation input.writesCache s.1 = true))
      (viewCache, initialEvents viewCache) inputs := by
  refine PartialStep.along_of_inv (K := fun s => Shows s.1 s.2) ?_ ?_ inputs
    (initialEvents_shows viewCache)
  · intro s hshows
    refine ⟨hshows, fun input => ?_⟩
    rw [step, Option.isSome_map]
    exact isSome_applyOperation_iff
  · intro s input s' hshows hs'
    obtain ⟨result, hresult, rfl⟩ := Option.map_eq_some_iff.mp hs'
    exact hshows.applyOperation hresult

/-- An example: data comes from the server, and the user overwrites a part of it. -/
theorem observers_show_eventCache_overwritten :
    PartialStep.Along (step true)
      (fun s => Shows s.1 s.2 ∧ ∀ input, (step true s input).isSome = true ↔
        (true = true →
          FViewProcessor.debugAsserts input.operation input.writesCache s.1 = true))
      ((⟨⟨.emptyNode, false⟩, ⟨.emptyNode, false⟩⟩ : FViewCache PlainKey Nat),
        initialEvents ⟨⟨.emptyNode, false⟩, ⟨.emptyNode, false⟩⟩)
      [⟨.serverOverwrite [] (Node.emptyNode.updateImmediateChild .a ⟨.leaf 5, .leaf 5⟩),
          ⟨[], FWriteTree.init⟩, none⟩,
        ⟨.userOverwrite [.a] ⟨.leaf 6, .leaf 6⟩, ⟨[], FWriteTree.init⟩, none⟩] :=
  observers_show_eventCache true _ _

end FView

end Database
