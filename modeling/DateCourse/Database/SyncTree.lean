import DateCourse.Database.EventCache

/-!
# The sync tree

The sync tree keeps the views of a client under their locations, together with the pending writes.
Writes of the user, data from the server and answers to writes become operations, which are handed
down to all views above and below the path they are about, each time relative to the view. The
client keeps no data between its runs, and each location has at most one view, of all data.

## Main definitions

* `FOperation.operationForChild`: an operation as seen from a child;
* `FSyncPoint`: a view with the events raised to its observers;
* `FSyncTree` with `applyOperationToSyncPoints`: handing an operation to the views;
* `FSyncTree.DebugAsserts`: what the filter asserts in a debug build holds of all views.

## Main results

* `FOperation.Accounts.along`: what a view is handed accounts for the change of the pending writes
  at its location;
* `FSyncTree.isSome_applyOperationToSyncPoints_iff`: an operation traps only in a debug build, if
  the filter's assertion fails of a view;
* `FSyncTree.applyOperationToSyncPoints_spec`: otherwise each view is given the operation as seen
  from its location.
-/

namespace Database

variable {K L : Type*} [Ord K]

/-! ## Operations as seen from a child -/

namespace FOperation

/-- `path`. -/
def path : FOperation K L → FPath K
  | userOverwrite path _ => path
  | userMerge path _ => path
  | serverOverwrite path _ => path
  | serverMerge path _ => path
  | ackUserWrite path _ _ => path
  | listenComplete path => path

/-- The operation concerns what is below the key. -/
def Reaches (operation : FOperation K L) (childKey : K) : Prop :=
  operation.path = [] ∨ operation.path.head? = some childKey

/-- An operation that does not reach below a key is about a path apart from it. -/
theorem apart_of_not_reaches {operation : FOperation K L} {k : K} (h : ¬operation.Reaches k) :
    PathMap.Apart operation.path [k] := by
  rw [Reaches] at h
  cases hp : operation.path with
  | nil => simp [hp] at h
  | cons j p =>
    refine FNode.apart_cons (fun hjk => h (Or.inr ?_)) p []
    rw [hp, hjk]
    rfl

variable {c d : Patch K L}

/-- An operation that does not get below a key accounts for no change there. -/
theorem Accounts.of_not_reaches {operation : FOperation K L} {k : K} (h : operation.Accounts c d)
    (hk : ¬operation.Reaches k) : PathMap.sub d [k] = PathMap.sub c [k] := by
  have hapart := apart_of_not_reaches hk
  cases operation with
  | userOverwrite p n =>
    replace hapart : PathMap.Apart p [k] := hapart
    obtain rfl : d = Patch.stack c (Patch.shift p (Patch.total n.leaves)) := h
    rw [Patch.sub_stack, Patch.sub_shift_of_apart _ hapart, Patch.stack_empty]
  | userMerge p m =>
    replace hapart : PathMap.Apart p [k] := hapart
    obtain rfl : d = Patch.stack c (Patch.shift p m.patch) := h
    rw [Patch.sub_stack, Patch.sub_shift_of_apart _ hapart, Patch.stack_empty]
  | serverOverwrite p n => rw [show d = c from h]
  | serverMerge p m => rw [show d = c from h]
  | listenComplete p => rw [show d = c from h]
  | ackUserWrite p t revert =>
    obtain ⟨touched, hretract, htouched⟩ := h
    ext1 q
    refine hretract.same _ fun hq => (hapart.append_right q).1 ?_
    obtain ⟨m, -, hm⟩ := htouched _ hq
    exact (List.prefix_append p m).trans hm

variable [DecidableEq K]

instance (operation : FOperation K L) (childKey : K) : Decidable (operation.Reaches childKey) :=
  inferInstanceAs (Decidable (_ ∨ _))

/-- `operationForChild:` of an `FOverwrite`. -/
def overwriteForChild (overwrite : FPath K → Node K L → FOperation K L) (path : FPath K)
    (snap : Node K L) (childKey : K) : FOperation K L :=
  match path with
  | [] => overwrite [] (snap.getImmediateChild childKey)
  | _ :: rest => overwrite rest snap

/-- `operationForChild:` of an `FMerge`. -/
def mergeForChild (overwrite : FPath K → Node K L → FOperation K L)
    (merge : FPath K → CompoundWrite K L → FOperation K L) (path : FPath K)
    (children : CompoundWrite K L) (childKey : K) : Option (FOperation K L) :=
  match path with
  | [] =>
    let childTree := children.childCompoundWriteAtPath [childKey]
    -- the merge does not get to the child
    if childTree.isEmpty then none
    else
      match childTree.rootWrite with
      -- the child is written as a whole
      | some snap => some (overwrite [] snap)
      | none => some (merge [] childTree)
  | _ :: rest => some (merge rest children)

/-- `operationForChild:`. -/
def operationForChild (operation : FOperation K L) (childKey : K) : Option (FOperation K L) :=
  match operation with
  | userOverwrite path snap => some (overwriteForChild userOverwrite path snap childKey)
  | serverOverwrite path snap => some (overwriteForChild serverOverwrite path snap childKey)
  | userMerge path children => mergeForChild userOverwrite userMerge path children childKey
  | serverMerge path children => mergeForChild serverOverwrite serverMerge path children childKey
  | ackUserWrite (_ :: rest) affectedTree revert => some (ackUserWrite rest affectedTree revert)
  | ackUserWrite [] affectedTree revert =>
    -- all that is below is affected
    if affectedTree.value.isSome then some operation
    else some (ackUserWrite [] (affectedTree.subtreeAtPath [childKey]) revert)
  | listenComplete path => some (listenComplete path.tail)

/-- The operation as it is handed down to a location, if it gets there. -/
def along (operation : FOperation K L) : FPath K → Option (FOperation K L)
  | [] => some operation
  | childKey :: rest =>
    if operation.Reaches childKey then
      (operation.operationForChild childKey).bind fun childOperation => childOperation.along rest
    else none

/-- The path as seen from a child. -/
theorem path_operationForChild {operation childOperation : FOperation K L} {k : K}
    (h : operation.operationForChild k = some childOperation) :
    childOperation.path = operation.path.tail := by
  cases operation with
  | userOverwrite p n =>
    rw [← Option.some.inj h]
    cases p <;> rfl
  | serverOverwrite p n =>
    rw [← Option.some.inj h]
    cases p <;> rfl
  | userMerge p m =>
    cases p with
    | nil =>
      obtain ⟨-, h⟩ := Option.ite_none_left_eq_some.mp h
      split at h <;> rw [← Option.some.inj h] <;> rfl
    | cons j p =>
      rw [← Option.some.inj h]
      rfl
  | serverMerge p m =>
    cases p with
    | nil =>
      obtain ⟨-, h⟩ := Option.ite_none_left_eq_some.mp h
      split at h <;> rw [← Option.some.inj h] <;> rfl
    | cons j p =>
      rw [← Option.some.inj h]
      rfl
  | ackUserWrite p t revert =>
    cases p with
    | nil =>
      rw [operationForChild] at h
      split at h <;> rw [← Option.some.inj h] <;> rfl
    | cons j p =>
      rw [← Option.some.inj h]
      rfl
  | listenComplete p =>
    rw [← Option.some.inj h]
    rfl

omit [DecidableEq K] in
/-- An operation about the location itself reverts no write below it. -/
theorem revertsBelow_of_path {operation : FOperation K L} (h : operation.path = []) :
    operation.revertsBelow = false := by
  cases operation with
  | ackUserWrite p t revert =>
    obtain rfl : p = [] := h
    rfl
  | _ => rfl

/-- Only a write that is reverted below a location is reverted below a child. -/
theorem revertsBelow_operationForChild {operation childOperation : FOperation K L} {k : K}
    (h : operation.operationForChild k = some childOperation)
    (hop : operation.revertsBelow = false) : childOperation.revertsBelow = false := by
  cases operation with
  | userOverwrite p n =>
    rw [← Option.some.inj h]
    cases p <;> rfl
  | serverOverwrite p n =>
    rw [← Option.some.inj h]
    cases p <;> rfl
  | userMerge p m =>
    cases p with
    | nil => exact revertsBelow_of_path (path_operationForChild h)
    | cons j p =>
      rw [← Option.some.inj h]
      rfl
  | serverMerge p m =>
    cases p with
    | nil => exact revertsBelow_of_path (path_operationForChild h)
    | cons j p =>
      rw [← Option.some.inj h]
      rfl
  | ackUserWrite p t revert =>
    cases p with
    | nil => exact revertsBelow_of_path (path_operationForChild h)
    | cons j p =>
      cases revert with
      | true => contradiction
      | false =>
        rw [← Option.some.inj h]
        cases p <;> rfl
  | listenComplete p =>
    rw [← Option.some.inj h]
    rfl

/-- The same of what is handed down to a location. -/
theorem revertsBelow_along {operation operation' : FOperation K L} {p : FPath K}
    (h : operation.along p = some operation') (hop : operation.revertsBelow = false) :
    operation'.revertsBelow = false := by
  induction p generalizing operation with
  | nil => rwa [← Option.some.inj h]
  | cons k p ih =>
    rw [FOperation.along] at h
    obtain ⟨-, h⟩ := Option.ite_none_right_eq_some.mp h
    obtain ⟨childOperation, hchild, h⟩ := Option.bind_eq_some_iff.mp h
    exact ih h (revertsBelow_operationForChild hchild hop)

/-- The merge as seen from a child decides what it decides below it. -/
theorem mergeForChild_patch (m : CompoundWrite K L) (k : K) :
    (mergeForChild userOverwrite userMerge [] m k = none ∧
        PathMap.sub m.patch [k] = PathMap.empty) ∨
      (∃ n, mergeForChild userOverwrite userMerge [] m k = some (userOverwrite [] n) ∧
        PathMap.sub m.patch [k] = Patch.total n.leaves) ∨
      ∃ m', mergeForChild userOverwrite userMerge [] m k = some (userMerge [] m') ∧
        PathMap.sub m.patch [k] = m'.patch := by
  rw [← CompoundWrite.patch_childCompoundWriteAtPath, mergeForChild]
  split
  next hempty =>
    refine Or.inl ⟨rfl, ?_⟩
    rw [CompoundWrite.isEmpty_iff.mp hempty, CompoundWrite.patch_emptyWrite]
  next =>
    refine Or.inr ?_
    split
    next n hroot => exact Or.inl ⟨n, rfl, CompoundWrite.patch_of_rootWrite hroot⟩
    next => exact Or.inr ⟨_, rfl, rfl⟩

omit [DecidableEq K] in
/-- What a child is handed of an overwrite of the user. -/
theorem accounts_overwriteForChild {p : FPath K} {k : K} (hk : ∀ j rest, p = j :: rest → j = k)
    (c : Patch K L) (n : Node K L) :
    (overwriteForChild userOverwrite p n k).Accounts (PathMap.sub c [k])
      (PathMap.sub (Patch.stack c (Patch.shift p (Patch.total n.leaves))) [k]) := by
  rw [Patch.sub_stack]
  cases p with
  | nil =>
    rw [Patch.shift_nil, overwriteForChild, Accounts, Patch.shift_nil,
      Node.leaves_getImmediateChild]
    rfl
  | cons j p =>
    obtain rfl := hk j p rfl
    exact congrArg _ (Patch.sub_shift_of_append [j] p _)

/-- What a child is handed of a merge of the user, if the merge gets to it. -/
theorem accounts_mergeForChild {p : FPath K} {k : K} (hk : ∀ j rest, p = j :: rest → j = k)
    (c : Patch K L) (m : CompoundWrite K L) :
    (mergeForChild userOverwrite userMerge p m k = none →
        PathMap.sub (Patch.stack c (Patch.shift p m.patch)) [k] = PathMap.sub c [k]) ∧
      ∀ childOperation, mergeForChild userOverwrite userMerge p m k = some childOperation →
        childOperation.Accounts (PathMap.sub c [k])
          (PathMap.sub (Patch.stack c (Patch.shift p m.patch)) [k]) := by
  rw [Patch.sub_stack]
  cases p with
  | nil =>
    rw [Patch.shift_nil]
    rcases mergeForChild_patch m k with ⟨hop, hm⟩ | ⟨n, hop, hm⟩ | ⟨m', hop, hm⟩
    · rw [hop, hm, Patch.stack_empty]
      exact ⟨fun _ => rfl, fun _ h => by contradiction⟩
    · rw [hop, hm]
      refine ⟨fun h => by contradiction, fun child hchild => ?_⟩
      rw [← Option.some.inj hchild, Accounts, Patch.shift_nil]
    · rw [hop, hm]
      refine ⟨fun h => by contradiction, fun child hchild => ?_⟩
      rw [← Option.some.inj hchild, Accounts, Patch.shift_nil]
  | cons j p =>
    obtain rfl := hk j p rfl
    refine ⟨fun h => by simp [mergeForChild] at h, fun child hchild => ?_⟩
    rw [← Option.some.inj hchild]
    exact congrArg _ (Patch.sub_shift_of_append [j] p _)

/-- What a child is handed of a merge of the server accounts for no change. -/
theorem accounts_serverMergeForChild {p : FPath K} {m : CompoundWrite K L} {k : K}
    {childOperation : FOperation K L} (c : Patch K L)
    (h : mergeForChild serverOverwrite serverMerge p m k = some childOperation) :
    childOperation.Accounts c c := by
  cases p with
  | nil =>
    obtain ⟨-, h⟩ := Option.ite_none_left_eq_some.mp h
    split at h <;> rw [← Option.some.inj h] <;> rfl
  | cons j p =>
    rw [← Option.some.inj h]
    rfl

omit [DecidableEq K] in
/-- Below a key the change is accounted for by every answer that covers the write there. -/
theorem Accounts.ackUserWrite_sub {p p' : FPath K} {t t' : FImmutableTree K Unit} {k : K}
    {revert : Bool} (h : (ackUserWrite p t revert).Accounts c d)
    (hcovers : ∀ q, Acked p t (k :: q) → Acked p' t' q) :
    (ackUserWrite p' t' revert).Accounts (PathMap.sub c [k]) (PathMap.sub d [k]) := by
  obtain ⟨touched, hretract, htouched⟩ := h
  refine ⟨fun q => touched (k :: q), ⟨fun q => ?_, fun q => ?_, fun q => ?_⟩, fun q hq => ?_⟩
  · exact hretract.same _
  · exact hretract.decided _
  · exact hretract.kept _
  · exact hcovers q (htouched _ hq)

/-- What a child is handed of an answer covers the write below it. -/
theorem ackUserWriteForChild_covers {p : FPath K} {k : K} (hk : ∀ j rest, p = j :: rest → j = k)
    (t : FImmutableTree K Unit) (revert : Bool) :
    ∃ p' t', operationForChild (ackUserWrite p t revert : FOperation K L) k =
        some (ackUserWrite p' t' revert) ∧ ∀ q, Acked p t (k :: q) → Acked p' t' q := by
  cases p with
  | nil =>
    rw [operationForChild]
    split
    next hvalue =>
      -- all children are affected
      obtain ⟨⟨⟩, hvalue⟩ := Option.isSome_iff_exists.mp hvalue
      refine ⟨[], t, rfl, fun q _ => ⟨[], ?_, List.nil_prefix⟩⟩
      rw [FImmutableTree.valueAtPath_nil, hvalue]
    next hvalue =>
      refine ⟨[], _, rfl, ?_⟩
      rintro q ⟨m, hm, hq⟩
      cases m with
      | nil =>
        rw [FImmutableTree.valueAtPath_nil] at hm
        simp [hm] at hvalue
      | cons j m =>
        obtain ⟨rfl, hmq⟩ := List.cons_prefix_cons.mp hq
        refine ⟨m, ?_, hmq⟩
        rw [FImmutableTree.valueAtPath_subtreeAtPath]
        exact hm
  | cons j p =>
    obtain rfl := hk j p rfl
    refine ⟨p, t, rfl, ?_⟩
    rintro q ⟨m, hm, hq⟩
    exact ⟨m, hm, (List.cons_prefix_cons.mp hq).2⟩

/-- What a child is handed accounts for the change of the pending writes below it. -/
theorem Accounts.operationForChild {operation : FOperation K L} {k : K}
    (h : operation.Accounts c d) (hk : operation.Reaches k) :
    (operation.operationForChild k = none → PathMap.sub d [k] = PathMap.sub c [k]) ∧
      ∀ childOperation, operation.operationForChild k = some childOperation →
        childOperation.Accounts (PathMap.sub c [k]) (PathMap.sub d [k]) := by
  have hfront : ∀ j rest, operation.path = j :: rest → j = k := by
    intro j rest hp
    rw [Reaches, hp] at hk
    simpa using hk
  cases operation with
  | userOverwrite p n =>
    obtain rfl : d = Patch.stack c (Patch.shift p (Patch.total n.leaves)) := h
    refine ⟨fun hnone => by simp [FOperation.operationForChild] at hnone, fun child hchild => ?_⟩
    rw [← Option.some.inj hchild]
    exact accounts_overwriteForChild hfront c n
  | userMerge p m =>
    obtain rfl : d = Patch.stack c (Patch.shift p m.patch) := h
    exact accounts_mergeForChild hfront c m
  | serverOverwrite p n =>
    obtain rfl : d = c := h
    refine ⟨fun _ => rfl, fun child hchild => ?_⟩
    rw [← Option.some.inj hchild]
    cases p <;> rfl
  | serverMerge p m =>
    obtain rfl : d = c := h
    exact ⟨fun _ => rfl, fun child hchild => accounts_serverMergeForChild _ hchild⟩
  | listenComplete p =>
    obtain rfl : d = c := h
    refine ⟨fun _ => rfl, fun child hchild => ?_⟩
    rw [← Option.some.inj hchild]
    rfl
  | ackUserWrite p t revert =>
    obtain ⟨p', t', hop, hcovers⟩ := ackUserWriteForChild_covers (L := L) (p := p) hfront t revert
    rw [hop]
    refine ⟨fun hnone => by contradiction, fun child hchild => ?_⟩
    rw [← Option.some.inj hchild]
    exact h.ackUserWrite_sub hcovers

/-- What a view is handed accounts for the change of the pending writes at its location. -/
theorem Accounts.along {operation : FOperation K L} (h : operation.Accounts c d) (p : FPath K) :
    (operation.along p = none → PathMap.sub d p = PathMap.sub c p) ∧
      ∀ operation', operation.along p = some operation' →
        operation'.Accounts (PathMap.sub c p) (PathMap.sub d p) := by
  induction p generalizing operation c d with
  | nil =>
    refine ⟨fun hnone => by simp [FOperation.along] at hnone, fun operation' hop => ?_⟩
    rw [← Option.some.inj hop]
    exact h
  | cons k p ih =>
    rw [FOperation.along]
    have hsub : ∀ e : Patch K L, PathMap.sub e (k :: p) = PathMap.sub (PathMap.sub e [k]) p :=
      fun e => (PathMap.sub_sub e [k] p).symm
    rw [hsub c, hsub d]
    by_cases hk : operation.Reaches k
    · rw [if_pos hk]
      obtain ⟨hnone, hsome⟩ := h.operationForChild hk
      cases hop : operation.operationForChild k with
      | none =>
        refine ⟨fun _ => by rw [hnone hop], fun _ h => ?_⟩
        contradiction
      | some childOperation => exact ih (hsome childOperation hop)
    · rw [if_neg hk]
      refine ⟨fun _ => by rw [h.of_not_reaches hk], fun _ h => ?_⟩
      contradiction

end FOperation

/-! ## The tree of views -/

/-- An `FSyncPoint` with its view of all data, and the events that have been raised to each observer
of the view since it registered. -/
structure FSyncPoint (K L : Type*) [Ord K] where
  viewCache : FViewCache K L
  raised : List (List (FDataEvent K L))

namespace FSyncPoint

/-- `completeServerCacheAtPath:`. -/
def completeServerCacheAtPath [Std.TransOrd K] (s : FSyncPoint K L) (path : FPath K) :
    Option (Node K L) :=
  s.viewCache.completeServerSnap.map fun cache => cache.getChild path

variable [Std.TransOrd K] [Std.LawfulEqOrd K] [DecidableEq K] [DecidableEq L]

/-- `applyOperation:writesCache:serverCache:`. -/
def applyOperation (DEBUG : Bool) (s : FSyncPoint K L) (operation : FOperation K L)
    (writesCache : FWriteTreeRef K L) (optCompleteServerCache : Option (Node K L)) :
    Option (FSyncPoint K L) :=
  (FView.applyOperation DEBUG s.viewCache operation writesCache optCompleteServerCache).map
    fun result =>
    { viewCache := result.1, raised := s.raised.map (· ++ result.2) }

omit [DecidableEq L] in
/-- The view of `addEventRegistration:forNonExistingViewForQuery:writesCache:serverCache:`. -/
def newView (writesCache : FWriteTreeRef K L) (serverCache : FCacheNode K L) : FSyncPoint K L :=
  let eventCacheNode : FCacheNode K L :=
    match writesCache.calculateCompleteEventCache
        (if serverCache.isFullyInitialized then some serverCache.node else none) with
    | some eventCache => ⟨eventCache, true⟩
    | none => ⟨writesCache.calculateCompleteEventChildren serverCache.node, false⟩
  { viewCache := ⟨eventCacheNode, serverCache⟩, raised := [] }

/-- `addEventRegistration:forExistingViewForQuery:`. -/
def addEventRegistration (s : FSyncPoint K L) : FSyncPoint K L :=
  { s with raised := s.raised ++ [FView.initialEvents s.viewCache] }

end FSyncPoint

/-- An `FSyncTree`. -/
structure FSyncTree (K L : Type*) [Ord K] where
  pendingWriteTree : FWriteTree K L
  syncPointTree : FImmutableTree K (FSyncPoint K L)

namespace FSyncTree

variable [Std.TransOrd K] [Std.LawfulEqOrd K] [DecidableEq K] [DecidableEq L]

/-- The complete server cache that is handed on from a location: the one from above or, without it,
that of the sync point there. -/
def resolvedServerCache (serverCache : Option (Node K L)) (syncPoint : Option (FSyncPoint K L)) :
    Option (Node K L) :=
  match serverCache with
  | some cache => some cache
  | none => syncPoint.bind fun s => s.completeServerCacheAtPath []

/-- The operation is applied to the sync point of a location, if there is one. -/
def applyToSyncPoint (DEBUG : Bool) (operation : FOperation K L) (writesCache : FWriteTreeRef K L)
    (serverCache : Option (Node K L)) :
    Option (FSyncPoint K L) → Option (Option (FSyncPoint K L))
  | none => some none
  | some s => (s.applyOperation DEBUG operation writesCache serverCache).map some

mutual

/-- `applyOperationDescendantsHelper:syncPointTree:serverCache:writesCache:`. -/
def applyOperationDescendantsHelper (DEBUG : Bool) (operation : FOperation K L)
    (serverCache : Option (Node K L)) (writesCache : FWriteTreeRef K L) :
    FImmutableTree K (FSyncPoint K L) → Option (FImmutableTree K (FSyncPoint K L))
  | .node syncPoint children =>
    let resolved := resolvedServerCache serverCache syncPoint
    (applyOperationToChildren DEBUG operation resolved writesCache children).bind fun children' =>
      (applyToSyncPoint DEBUG operation writesCache resolved syncPoint).map fun syncPoint' =>
        .node syncPoint' children'

/-- The loop over the children there. -/
def applyOperationToChildren (DEBUG : Bool) (operation : FOperation K L)
    (serverCache : Option (Node K L)) (writesCache : FWriteTreeRef K L) :
    List (K × FImmutableTree K (FSyncPoint K L)) →
      Option (List (K × FImmutableTree K (FSyncPoint K L)))
  | [] => some []
  | (childKey, childTree) :: rest =>
    let childTree' :=
      match operation.operationForChild childKey with
      | some childOperation =>
        applyOperationDescendantsHelper DEBUG childOperation
          (serverCache.map (Node.getImmediateChild · childKey))
          (writesCache.childWriteTreeRef childKey) childTree
      | none => some childTree
    childTree'.bind fun childTree' =>
      (applyOperationToChildren DEBUG operation serverCache writesCache rest).map fun rest' =>
        (childKey, childTree') :: rest'

end

omit [Std.LawfulEqOrd K] [DecidableEq K] [DecidableEq L] in
/-- The child on the path of an operation is updated, if there is one and the operation gets
there. -/
def updateChildOnPath (children : List (K × FImmutableTree K (FSyncPoint K L))) (childKey : K)
    (childOperation : Option (FOperation K L))
    (apply : FOperation K L → FImmutableTree K (FSyncPoint K L) →
      Option (FImmutableTree K (FSyncPoint K L))) :
    Option (List (K × FImmutableTree K (FSyncPoint K L))) :=
  match SortedAssoc.find children childKey, childOperation with
  | some childTree, some childOperation =>
    (apply childOperation childTree).map (SortedAssoc.insert children childKey)
  | _, _ => some children

/-- `applyOperationHelper:syncPointTree:serverCache:writesCache:`; the first argument is the path of
the operation. -/
def applyOperationHelper (DEBUG : Bool) : FPath K → FOperation K L → Option (Node K L) →
    FWriteTreeRef K L → FImmutableTree K (FSyncPoint K L) →
      Option (FImmutableTree K (FSyncPoint K L))
  | [], operation, serverCache, writesCache, syncPointTree =>
    applyOperationDescendantsHelper DEBUG operation serverCache writesCache syncPointTree
  | childKey :: path, operation, serverCache, writesCache, .node syncPoint children =>
    let resolved := resolvedServerCache serverCache syncPoint
    let children' :=
      updateChildOnPath children childKey (operation.operationForChild childKey)
        fun childOperation childTree =>
          applyOperationHelper DEBUG path childOperation
            (resolved.map (Node.getImmediateChild · childKey))
            (writesCache.childWriteTreeRef childKey) childTree
    children'.bind fun children' =>
      (applyToSyncPoint DEBUG operation writesCache resolved syncPoint).map fun syncPoint' =>
        .node syncPoint' children'

/-- `applyOperationToSyncPoints:`. -/
def applyOperationToSyncPoints (DEBUG : Bool) (t : FSyncTree K L) (operation : FOperation K L) :
    Option (FSyncTree K L) :=
  (applyOperationHelper DEBUG operation.path operation none ⟨[], t.pendingWriteTree⟩
    t.syncPointTree).map fun syncPointTree => { t with syncPointTree }

/-! ### What the views are given -/

/-- What becomes of the view at a location, if there is one, when it is given an operation or
none. -/
inductive Updated (DEBUG : Bool) (writesCache : FWriteTreeRef K L) :
    Option (FOperation K L) → Option (FSyncPoint K L) → Option (FSyncPoint K L) → Prop
  | absent (operation) : Updated DEBUG writesCache operation none none
  | passed (s) : Updated DEBUG writesCache none (some s) (some s)
  | applied (operation s s' serverCache)
      (h : s.applyOperation DEBUG operation writesCache serverCache = some s') :
      Updated DEBUG writesCache (some operation) (some s) (some s')

/-- The pending writes at a location below. -/
def refAt (r : FWriteTreeRef K L) (p : FPath K) : FWriteTreeRef K L :=
  { r with path := r.path ++ p }

/-- The views of the tree have been given the operations that are found along their paths. -/
def Visited (DEBUG : Bool) (r : FWriteTreeRef K L) (operation : Option (FOperation K L))
    (t t' : FImmutableTree K (FSyncPoint K L)) : Prop :=
  ∀ p, Updated DEBUG (refAt r p) (operation.bind fun operation => operation.along p)
    (t.valueAtPath p) (t'.valueAtPath p)

/-- What the filter asserts under `#ifdef DEBUG` holds of all views that are given the operation. -/
def DebugAssertsAt (r : FWriteTreeRef K L) (operation : FOperation K L)
    (t : FImmutableTree K (FSyncPoint K L)) : Prop :=
  ∀ p s operation', t.valueAtPath p = some s → operation.along p = some operation' →
    FViewProcessor.debugAsserts operation' (refAt r p) s.viewCache = true

/-- The assertions hold when the operation is applied to the sync points. -/
def DebugAsserts (t : FSyncTree K L) (operation : FOperation K L) : Prop :=
  DebugAssertsAt ⟨[], t.pendingWriteTree⟩ operation t.syncPointTree

variable {DEBUG : Bool}

omit [Std.TransOrd K] [Std.LawfulEqOrd K] [DecidableEq K] [DecidableEq L] in
/-- The pending writes below a key, as seen from there. -/
theorem refAt_cons (r : FWriteTreeRef K L) (k : K) (p : FPath K) :
    refAt r (k :: p) = refAt (r.childWriteTreeRef k) p := by
  simp [refAt, FWriteTreeRef.childWriteTreeRef]

/-- The view at a location, if there is one, is given the operation. -/
theorem updated_applyToSyncPoint (DEBUG : Bool) (operation : FOperation K L)
    (r : FWriteTreeRef K L) (c : Option (Node K L)) (s : Option (FSyncPoint K L))
    (h : DEBUG = true → ∀ v, s = some v →
      FViewProcessor.debugAsserts operation r v.viewCache = true) :
    ∃ s', applyToSyncPoint DEBUG operation r c s = some s' ∧
      Updated DEBUG r (some operation) s s' := by
  cases s with
  | none => exact ⟨none, rfl, .absent _⟩
  | some s =>
    have hsome : (s.applyOperation DEBUG operation r c).isSome = true := by
      rw [FSyncPoint.applyOperation, Option.isSome_map, FView.isSome_applyOperation_iff]
      exact fun hDEBUG => h hDEBUG s rfl
    obtain ⟨s', hs'⟩ := Option.isSome_iff_exists.mp hsome
    refine ⟨some s', ?_, .applied _ _ _ c hs'⟩
    rw [applyToSyncPoint, hs', Option.map_some]

/-- A view at which the assertion is compiled in and fails traps. -/
theorem applyToSyncPoint_eq_none (hDEBUG : DEBUG = true) {operation : FOperation K L}
    {r : FWriteTreeRef K L} {s : FSyncPoint K L} (c : Option (Node K L))
    (h : FViewProcessor.debugAsserts operation r s.viewCache ≠ true) :
    applyToSyncPoint DEBUG operation r c (some s) = none := by
  rw [applyToSyncPoint, Option.map_eq_none_iff, ← Option.not_isSome_iff_eq_none,
    FSyncPoint.applyOperation, Option.isSome_map, FView.isSome_applyOperation_iff]
  exact fun hasserts => h (hasserts hDEBUG)

theorem visited_none (r : FWriteTreeRef K L) (t : FImmutableTree K (FSyncPoint K L)) :
    Visited DEBUG r none t t := by
  intro p
  cases h : t.valueAtPath p with
  | none => exact .absent _
  | some s => exact .passed s

/-- Where there are no views nothing is visited. -/
theorem visited_empty (r : FWriteTreeRef K L) (operation : Option (FOperation K L)) :
    Visited DEBUG r operation .empty .empty := by
  intro p
  rw [FImmutableTree.valueAtPath_empty]
  exact .absent _

/-- The views of a tree are visited if the one at the root and those of the children are. -/
theorem visited_node {r : FWriteTreeRef K L} {operation : FOperation K L}
    {v v' : Option (FSyncPoint K L)} {cs cs' : List (K × FImmutableTree K (FSyncPoint K L))}
    (hroot : Updated DEBUG r (some operation) v v')
    (hchild : ∀ k, Visited DEBUG (r.childWriteTreeRef k)
      (if operation.Reaches k then operation.operationForChild k else none)
      ((FImmutableTree.node v cs).child k) ((FImmutableTree.node v' cs').child k)) :
    Visited DEBUG r (some operation) (.node v cs) (.node v' cs') := by
  intro p
  cases p with
  | nil =>
    have href : refAt r [] = r := by rw [refAt, List.append_nil]
    rw [href, FImmutableTree.valueAtPath_nil, FImmutableTree.valueAtPath_nil]
    exact hroot
  | cons k p =>
    rw [refAt_cons, FImmutableTree.valueAtPath_cons, FImmutableTree.valueAtPath_cons,
      Option.bind_some, FOperation.along]
    have h := hchild k p
    by_cases hk : operation.Reaches k
    · rw [if_pos hk] at h ⊢
      exact h
    · rw [if_neg hk] at h ⊢
      exact h

mutual

/-- An operation about a location visits all views at and below it. -/
theorem applyOperationDescendantsHelper_spec (operation : FOperation K L)
    (hpath : operation.path = []) (c : Option (Node K L)) (r : FWriteTreeRef K L) :
    ∀ t : FImmutableTree K (FSyncPoint K L),
      ∃ t', applyOperationDescendantsHelper DEBUG operation c r t = some t' ∧
        Visited DEBUG r (some operation) t t'
  | .node syncPoint children => by
    obtain ⟨cs', hcs, hchild⟩ := applyOperationToChildren_spec operation hpath
      (resolvedServerCache c syncPoint) r children
    -- nothing is reverted below the location
    obtain ⟨s', hs, hroot⟩ := updated_applyToSyncPoint DEBUG operation r
      (resolvedServerCache c syncPoint) syncPoint fun _ v _ =>
        FViewProcessor.debugAsserts_of_not_revertsBelow (FOperation.revertsBelow_of_path hpath) r _
    refine ⟨.node s' cs', ?_, visited_node hroot fun k => ?_⟩
    · rw [applyOperationDescendantsHelper, hcs, Option.bind_some, hs, Option.map_some]
    · have hk : operation.Reaches k := Or.inl hpath
      rw [if_pos hk]
      exact hchild syncPoint s' k

/-- It visits the views below each child. -/
theorem applyOperationToChildren_spec (operation : FOperation K L) (hpath : operation.path = [])
    (c : Option (Node K L)) (r : FWriteTreeRef K L) :
    ∀ cs : List (K × FImmutableTree K (FSyncPoint K L)),
      ∃ cs', applyOperationToChildren DEBUG operation c r cs = some cs' ∧
        ∀ v v' k, Visited DEBUG (r.childWriteTreeRef k) (operation.operationForChild k)
          ((FImmutableTree.node v cs).child k) ((FImmutableTree.node v' cs').child k)
  | [] => ⟨[], rfl, fun _ _ _ => visited_empty _ _⟩
  | (childKey, childTree) :: rest => by
    obtain ⟨rest', hrest, hothers⟩ := applyOperationToChildren_spec operation hpath c r rest
    have hfirst : ∃ childTree',
        (match operation.operationForChild childKey with
          | some childOperation =>
            applyOperationDescendantsHelper DEBUG childOperation
              (c.map (Node.getImmediateChild · childKey)) (r.childWriteTreeRef childKey) childTree
          | none => some childTree) = some childTree' ∧
        Visited DEBUG (r.childWriteTreeRef childKey) (operation.operationForChild childKey)
          childTree childTree' := by
      cases hop : operation.operationForChild childKey with
      | none => exact ⟨childTree, rfl, visited_none _ _⟩
      | some childOperation =>
        refine applyOperationDescendantsHelper_spec childOperation ?_ _ _ childTree
        rw [FOperation.path_operationForChild hop, hpath, List.tail_nil]
    obtain ⟨childTree', hchildTree, hvisited⟩ := hfirst
    refine ⟨(childKey, childTree') :: rest', ?_, fun v v' k => ?_⟩
    · simp only [applyOperationToChildren, hchildTree, Option.bind_some, hrest, Option.map_some]
    · rw [FImmutableTree.child, FImmutableTree.child, FImmutableTree.children,
        FImmutableTree.children, SortedAssoc.find, SortedAssoc.find]
      by_cases hk : compare k childKey = .eq
      · obtain rfl := Std.LawfulEqOrd.eq_of_compare hk
        rw [if_pos hk, if_pos hk]
        exact hvisited
      · rw [if_neg hk, if_neg hk]
        exact hothers v v' k

end

/-- The child on the path is visited, and no other child is touched. -/
theorem updateChildOnPath_spec (children : List (K × FImmutableTree K (FSyncPoint K L)))
    (childKey : K) (childOperation : Option (FOperation K L)) (r : FWriteTreeRef K L)
    (v v' : Option (FSyncPoint K L))
    {apply : FOperation K L → FImmutableTree K (FSyncPoint K L) →
      Option (FImmutableTree K (FSyncPoint K L))}
    (happly : ∀ operation, childOperation = some operation →
      ∀ t, SortedAssoc.find children childKey = some t →
        ∃ t', apply operation t = some t' ∧ Visited DEBUG r (some operation) t t') :
    ∃ children', updateChildOnPath children childKey childOperation apply = some children' ∧
      Visited DEBUG r childOperation ((FImmutableTree.node v children).child childKey)
        ((FImmutableTree.node v' children').child childKey) ∧
      ∀ k, k ≠ childKey → SortedAssoc.find children' k = SortedAssoc.find children k := by
  rw [updateChildOnPath.eq_def]
  cases hfind : SortedAssoc.find children childKey with
  | none =>
    refine ⟨children, rfl, ?_, fun _ _ => rfl⟩
    rw [FImmutableTree.child, FImmutableTree.child, FImmutableTree.children,
      FImmutableTree.children, hfind]
    exact visited_empty _ _
  | some childTree =>
    cases childOperation with
    | none => exact ⟨children, rfl, visited_none _ _, fun _ _ => rfl⟩
    | some operation =>
      obtain ⟨childTree', hchildTree, hvisited⟩ := happly operation rfl childTree hfind
      refine ⟨SortedAssoc.insert children childKey childTree', ?_, ?_, fun k hk => ?_⟩
      · exact congrArg (Option.map (SortedAssoc.insert children childKey)) hchildTree
      · rw [FImmutableTree.child, FImmutableTree.child, FImmutableTree.children,
          FImmutableTree.children, hfind, SortedAssoc.find_insert,
          if_pos Std.ReflOrd.compare_self]
        exact hvisited
      · rw [SortedAssoc.find_insert, if_neg (mt Std.LawfulEqOrd.eq_of_compare hk)]

/-- The assertions hold of the views below a key. -/
theorem DebugAssertsAt.child {r : FWriteTreeRef K L} {operation childOperation : FOperation K L}
    {t : FImmutableTree K (FSyncPoint K L)} {k : K} (h : DebugAssertsAt r operation t)
    (hk : operation.Reaches k) (hop : operation.operationForChild k = some childOperation) :
    DebugAssertsAt (r.childWriteTreeRef k) childOperation (t.child k) := by
  intro p s operation' hs halong
  rw [← refAt_cons]
  refine h (k :: p) s operation' ?_ ?_
  · rw [FImmutableTree.valueAtPath_cons, hs]
  · rw [FOperation.along, if_pos hk, hop]
    exact halong

/-- An operation visits the views above and below its path, if the assertions that are compiled in
hold of them. -/
theorem applyOperationHelper_spec (p : FPath K) (operation : FOperation K L)
    (hpath : operation.path = p) (c : Option (Node K L)) (r : FWriteTreeRef K L)
    (t : FImmutableTree K (FSyncPoint K L)) (h : DEBUG = true → DebugAssertsAt r operation t) :
    ∃ t', applyOperationHelper DEBUG p operation c r t = some t' ∧
      Visited DEBUG r (some operation) t t' := by
  induction p generalizing operation c r t with
  | nil => exact applyOperationDescendantsHelper_spec operation hpath c r t
  | cons childKey p ih =>
    obtain ⟨syncPoint, children⟩ := t
    obtain ⟨s', hs, hroot⟩ := updated_applyToSyncPoint DEBUG operation r
      (resolvedServerCache c syncPoint) syncPoint fun hDEBUG v hv => by
        have hasserts := h hDEBUG [] v operation hv rfl
        rwa [refAt, List.append_nil] at hasserts
    have hreaches : ∀ k, operation.Reaches k ↔ k = childKey := by
      intro k
      rw [FOperation.Reaches, hpath]
      simp [eq_comm]
    obtain ⟨children', hchildren, hvisited, hothers⟩ := updateChildOnPath_spec children childKey
      (operation.operationForChild childKey) (r.childWriteTreeRef childKey) syncPoint s'
      (fun childOperation hop childTree hfind => ih childOperation
        (by rw [FOperation.path_operationForChild hop, hpath, List.tail_cons])
        ((resolvedServerCache c syncPoint).map (Node.getImmediateChild · childKey)) _ childTree
        fun hDEBUG => by
          have hasserts := (h hDEBUG).child ((hreaches childKey).mpr rfl) hop
          rwa [FImmutableTree.child, FImmutableTree.children, hfind] at hasserts)
    refine ⟨.node s' children', ?_, visited_node hroot fun k => ?_⟩
    · simp only [applyOperationHelper, hchildren, Option.bind_some, hs, Option.map_some]
    · by_cases hk : k = childKey
      · rw [if_pos ((hreaches k).mpr hk), hk]
        exact hvisited
      · rw [if_neg (mt (hreaches k).mp hk)]
        have hsame : (FImmutableTree.node s' children').child k =
            (FImmutableTree.node syncPoint children).child k := by
          rw [FImmutableTree.child, FImmutableTree.child, FImmutableTree.children,
            FImmutableTree.children, hothers k hk]
        rw [hsame]
        exact visited_none _ _

/-- An operation traps if an assertion is compiled in and fails of a view that is given it. -/
theorem applyOperationHelper_eq_none (hDEBUG : DEBUG = true) (p : FPath K)
    (operation : FOperation K L) (hpath : operation.path = p) (c : Option (Node K L))
    (r : FWriteTreeRef K L) (t : FImmutableTree K (FSyncPoint K L))
    (h : ¬DebugAssertsAt r operation t) :
    applyOperationHelper DEBUG p operation c r t = none := by
  simp only [DebugAssertsAt, not_forall] at h
  obtain ⟨q, s, operation', hs, halong, hfails⟩ := h
  induction p generalizing operation c r t q with
  | nil =>
    -- nothing is reverted below any of the views
    refine absurd (FViewProcessor.debugAsserts_of_not_revertsBelow ?_ _ _) hfails
    exact FOperation.revertsBelow_along halong (FOperation.revertsBelow_of_path hpath)
  | cons childKey p ih =>
    obtain ⟨syncPoint, children⟩ := t
    rw [applyOperationHelper]
    cases q with
    | nil =>
      -- the view at the root traps
      obtain rfl : syncPoint = some s := hs
      obtain rfl := Option.some.inj halong
      rw [refAt, List.append_nil] at hfails
      rw [applyToSyncPoint_eq_none hDEBUG _ hfails]
      cases updateChildOnPath children childKey _ _ <;> rfl
    | cons k q =>
      rw [FOperation.along] at halong
      obtain ⟨hk, halong⟩ := Option.ite_none_right_eq_some.mp halong
      obtain rfl : childKey = k := by
        rw [FOperation.Reaches, hpath] at hk
        simpa using hk
      obtain ⟨childOperation, hop, halong⟩ := Option.bind_eq_some_iff.mp halong
      rw [FImmutableTree.valueAtPath_cons] at hs
      rw [refAt_cons] at hfails
      cases hfind : SortedAssoc.find children childKey with
      | none =>
        rw [FImmutableTree.child, FImmutableTree.children, hfind, Option.getD_none,
          FImmutableTree.valueAtPath_empty] at hs
        contradiction
      | some childTree =>
        rw [FImmutableTree.child, FImmutableTree.children, hfind, Option.getD_some] at hs
        have hnone := ih childOperation
          (by rw [FOperation.path_operationForChild hop, hpath, List.tail_cons])
          ((resolvedServerCache c syncPoint).map (Node.getImmediateChild · childKey)) _ childTree
          q hs halong hfails
        simp only [updateChildOnPath, hfind, hop, hnone, Option.map_none, Option.bind_none]

/-- If the assertions that are compiled in hold, an operation does not trap, and each view is given
the operation as seen from its location. -/
theorem applyOperationToSyncPoints_spec (t : FSyncTree K L) (operation : FOperation K L)
    (h : DEBUG = true → t.DebugAsserts operation) :
    ∃ t', t.applyOperationToSyncPoints DEBUG operation = some t' ∧
      t'.pendingWriteTree = t.pendingWriteTree ∧
      Visited DEBUG ⟨[], t.pendingWriteTree⟩ (some operation) t.syncPointTree t'.syncPointTree := by
  obtain ⟨tree, htree, hvisited⟩ := applyOperationHelper_spec operation.path operation rfl none
    ⟨[], t.pendingWriteTree⟩ t.syncPointTree h
  refine ⟨{ t with syncPointTree := tree }, ?_, rfl, hvisited⟩
  rw [applyOperationToSyncPoints, htree, Option.map_some]

/-- An operation traps exactly if an assertion is compiled in and fails of a view that is given
it. -/
theorem isSome_applyOperationToSyncPoints_iff {t : FSyncTree K L} {operation : FOperation K L} :
    (t.applyOperationToSyncPoints DEBUG operation).isSome = true ↔
      (DEBUG = true → t.DebugAsserts operation) := by
  constructor
  · intro hsome hDEBUG
    by_contra hfails
    rw [applyOperationToSyncPoints, Option.isSome_map, applyOperationHelper_eq_none hDEBUG
      operation.path operation rfl none ⟨[], t.pendingWriteTree⟩ t.syncPointTree hfails] at hsome
    contradiction
  · intro h
    obtain ⟨t', ht', -⟩ := applyOperationToSyncPoints_spec t operation h
    rw [ht', Option.isSome_some]

/-- The assertions hold where no write is reverted below a view. -/
theorem debugAsserts_of_not_revertsBelow (t : FSyncTree K L) {operation : FOperation K L}
    (h : operation.revertsBelow = false) : t.DebugAsserts operation :=
  fun _ _ _ _ halong => FViewProcessor.debugAsserts_of_not_revertsBelow
    (FOperation.revertsBelow_along halong h) _ _

end FSyncTree

end Database
