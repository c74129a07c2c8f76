import DateCourse.Database.SyncTree

/-!
# Runs of the sync tree

What a client does and is told, one event after the other. As long as writes are answered in an
order that allows to take them out of the pending ones, and the server has no leaf strictly above a
pending write, every observer shows the data of the server with the pending writes on top.

## Main definitions

* `FSyncTree.step`: the sync tree as a machine;
* `FSyncTree.Event.Accepted` and `FSyncTree.Event.DebugAsserts`: what is asserted of an event;
* `FSyncTree.InSync`: what holds of all its views.

## Main results

* `FSyncTree.step_isSome_iff`: no other assertion of the views can fail;
* `FSyncTree.InSync.step`: a safe step keeps all views in sync;
* `FSyncTree.observers_show_pending_writes`: in safe runs observers show the pending writes on top
  of the server data.
-/

namespace Database

variable {K L : Type*} [Ord K]

/-! ## Taking writes out -/

namespace FWriteTree

/-- `writeForId:`. -/
def writeForId (t : FWriteTree K L) (writeId : Int) : Option (FWriteRecord K L) :=
  t.allWrites.find? fun write => write.writeId = writeId

/-- `removeAllWrites`. -/
def removeAllWrites (t : FWriteTree K L) : FWriteTree K L :=
  { t with visibleWrites := .emptyWrite, allWrites := [] }

/-- With no writes left the empty compound write is right. -/
theorem consistent_removeAllWrites (t : FWriteTree K L) : t.removeAllWrites.Consistent :=
  CompoundWrite.patch_emptyWrite

/-- The paths that a record writes to. -/
def Touches (w : FWriteRecord K L) (q : FPath K) : Prop := ∃ x ∈ w.writes, x.1 <+: q

variable [Std.TransOrd K] [Std.LawfulEqOrd K] [DecidableEq K]

/-- A pending write can be taken out. -/
theorem isSome_removeWriteId {t : FWriteTree K L} {writeId : Int}
    (h : ∃ write ∈ t.allWrites, write.writeId = writeId) :
    (t.removeWriteId writeId).isSome = true := by
  obtain ⟨write, hmem, hid⟩ := h
  obtain ⟨index, hindex⟩ : ∃ index,
      (t.allWrites.findIdx? fun record => record.writeId = writeId) = some index := by
    rw [← Option.isSome_iff_exists, List.findIdx?_isSome, List.any_eq_true]
    exact ⟨write, hmem, by simpa using hid⟩
  obtain ⟨hlt, -⟩ := List.findIdx?_eq_some_iff_getElem.mp hindex
  rw [FWriteTree.removeWriteId, hindex, Option.bind_some, List.getElem?_eq_getElem hlt,
    Option.map_some, Option.isSome_some]

/-- What a removal does to the decisions of the pending writes. -/
theorem retract_of_removal {t t' : FWriteTree K L} {older newer : List (FWriteRecord K L)}
    {w : FWriteRecord K L} {b : Bool} (ht : t.Consistent)
    (hall : t.allWrites = older ++ w :: newer) (hall' : t'.allWrites = older ++ newer)
    (hsafe : RemovalSafe older w newer)
    (holder : ∀ r ∈ older, r.visible = true → RecordsApart r w)
    (hcase : RemovalCase t older w newer b t'.visibleWrites) :
    t'.Consistent ∧
      (b = false → t'.visibleWrites = t.visibleWrites) ∧
      (b = true → Patch.Retract t.visibleWrites.patch t'.visibleWrites.patch (Touches w)) := by
  have hpatch := ht.removal hall hsafe hcase
  refine ⟨?_, ?_, ?_⟩
  · rw [Consistent, hall', hpatch]
  · rintro rfl
    exact hcase.eq_visibleWrites
  · rintro rfl
    have hvis := hcase.visible_of_true
    rw [Consistent, hall, List.filter_append, List.filter_cons, if_pos hvis, pendingWrites_append,
      pendingWrites_cons] at ht
    rw [ht, hpatch, List.filter_append, pendingWrites_append]
    refine Patch.retract_layer fun x hx y hy => ?_
    obtain ⟨r, hr, hyr⟩ := mem_pendingWrites.mp hy
    obtain ⟨hr, hrvis⟩ := List.mem_filter.mp hr
    exact holder r hr hrvis x hx y hyr

end FWriteTree

/-! ## The machine -/

namespace FSyncTree

variable [Std.TransOrd K] [Std.LawfulEqOrd K] [DecidableEq K]

/-- The paths that a write affects, in `ackUserWriteWithWriteId:revert:persist:clock:`. -/
def affectedTree (write : FWriteRecord K L) : FImmutableTree K Unit :=
  match write.written with
  | .overwrite _ => FImmutableTree.empty.setValue () []
  | .merge merge =>
    merge.enumerateWrites.foldl (fun affectedTree e => affectedTree.setValue () e.1) .empty

/-- The complete server cache that a view above a path or at it has there; the search in
`serverCacheForQuery:`. -/
def serverCacheOnPath : FImmutableTree K (FSyncPoint K L) → FPath K → Option (Node K L)
  | .node syncPoint _, [] => syncPoint.bind fun s => s.completeServerCacheAtPath []
  | .node syncPoint children, childKey :: path =>
    match syncPoint.bind fun s => s.completeServerCacheAtPath (childKey :: path) with
    | some cache => some cache
    | none =>
      match SortedAssoc.find children childKey with
      | some child => serverCacheOnPath child path
      | none => none

/-- `serverCacheForQuery:`, of a query for all data. -/
def serverCacheForQuery (t : FSyncTree K L) (path : FPath K) : FCacheNode K L :=
  match serverCacheOnPath t.syncPointTree path with
  | some cache => ⟨cache, true⟩
  | none =>
    let childCaches := (t.syncPointTree.subtreeAtPath path).children.filterMap fun e =>
      (e.2.value.bind fun s => s.completeServerCacheAtPath []).map fun cache => (e.1, cache)
    ⟨childCaches.foldl (fun node e => node.updateImmediateChild e.1 e.2) .emptyNode, false⟩

/-- `addEventRegistration:forQuery:`, of a query for all data. -/
def addEventRegistration (t : FSyncTree K L) (path : FPath K) : FSyncTree K L :=
  let syncPoint :=
    match t.syncPointTree.valueAtPath path with
    | some syncPoint => syncPoint
    | none => FSyncPoint.newView ⟨path, t.pendingWriteTree⟩ (t.serverCacheForQuery path)
  { t with syncPointTree := t.syncPointTree.setValue syncPoint.addEventRegistration path }

variable [DecidableEq L]

/-- `applyUserOverwriteAtPath:newData:writeId:isVisible:`. -/
def applyUserOverwrite (DEBUG : Bool) (t : FSyncTree K L) (path : FPath K) (newData : Node K L)
    (writeId : Int) (visible : Bool) : Option (FSyncTree K L) :=
  (t.pendingWriteTree.addOverwrite path newData writeId visible).bind fun pendingWriteTree =>
    -- an invisible write raises no events
    if !visible then some { t with pendingWriteTree }
    else applyOperationToSyncPoints DEBUG { t with pendingWriteTree } (.userOverwrite path newData)

/-- `applyUserMergeAtPath:changedChildren:writeId:`. -/
def applyUserMerge (DEBUG : Bool) (t : FSyncTree K L) (path : FPath K)
    (changedChildren : CompoundWrite K L) (writeId : Int) : Option (FSyncTree K L) :=
  (t.pendingWriteTree.addMerge path changedChildren writeId).bind fun pendingWriteTree =>
    applyOperationToSyncPoints DEBUG { t with pendingWriteTree } (.userMerge path changedChildren)

/-- `ackUserWriteWithWriteId:revert:persist:clock:`. -/
def ackUserWrite (DEBUG : Bool) (t : FSyncTree K L) (writeId : Int) (revert : Bool) :
    Option (FSyncTree K L) :=
  (t.pendingWriteTree.writeForId writeId).bind fun write =>
    (t.pendingWriteTree.removeWriteId writeId).bind fun removed =>
      let needToReevaluate := removed.1
      let t' := { t with pendingWriteTree := removed.2 }
      -- a write that later ones hide does not show
      if !needToReevaluate then some t'
      else
        t'.applyOperationToSyncPoints DEBUG (.ackUserWrite write.path (affectedTree write) revert)

/-- `removeAllWrites`. -/
def removeAllWrites (DEBUG : Bool) (t : FSyncTree K L) : Option (FSyncTree K L) :=
  let removedWrites := t.pendingWriteTree.allWrites
  let t' := { t with pendingWriteTree := t.pendingWriteTree.removeAllWrites }
  -- everything is reverted at the root
  if removedWrites.length > 0 then
    t'.applyOperationToSyncPoints DEBUG
      (.ackUserWrite [] (FImmutableTree.empty.setValue () []) true)
  else some t'

/-- What a client does or is told. -/
inductive Event (K L : Type*) [Ord K]
  | userOverwrite (path : FPath K) (newData : Node K L) (writeId : Int) (visible : Bool)
  | userMerge (path : FPath K) (changedChildren : CompoundWrite K L) (writeId : Int)
  | ackUserWrite (writeId : Int) (revert : Bool)
  | removeAllWrites
  | serverOverwrite (path : FPath K) (newData : Node K L)
  | serverMerge (path : FPath K) (changedChildren : CompoundWrite K L)
  | listenComplete (path : FPath K)
  | addEventRegistration (path : FPath K)

/-- The sync tree as a machine, in a build with or without `DEBUG`. -/
def step (DEBUG : Bool) : PartialStep (FSyncTree K L) (Event K L)
  | t, .userOverwrite path newData writeId visible =>
    t.applyUserOverwrite DEBUG path newData writeId visible
  | t, .userMerge path changedChildren writeId =>
    t.applyUserMerge DEBUG path changedChildren writeId
  | t, .ackUserWrite writeId revert => t.ackUserWrite DEBUG writeId revert
  | t, .removeAllWrites => t.removeAllWrites DEBUG
  | t, .serverOverwrite path newData =>
    t.applyOperationToSyncPoints DEBUG (.serverOverwrite path newData)
  | t, .serverMerge path changedChildren =>
    t.applyOperationToSyncPoints DEBUG (.serverMerge path changedChildren)
  | t, .listenComplete path => t.applyOperationToSyncPoints DEBUG (.listenComplete path)
  | t, .addEventRegistration path => some (t.addEventRegistration path)

/-- A client that has just started. -/
def init : FSyncTree K L where
  pendingWriteTree := FWriteTree.init
  syncPointTree := FImmutableTree.empty

/-- The identifier of an event is one that the assertions on identifiers let through. -/
def Event.Accepted (t : FSyncTree K L) : Event K L → Prop
  | userOverwrite _ _ writeId _ => writeId > t.pendingWriteTree.lastWriteId
  | userMerge _ _ writeId => writeId > t.pendingWriteTree.lastWriteId
  | ackUserWrite writeId _ => ∃ write ∈ t.pendingWriteTree.allWrites, write.writeId = writeId
  | _ => True

/-- What the filter asserts under `#ifdef DEBUG` holds when the event is handled: it can fail only
when an answer takes a write out and the views are told. -/
def Event.DebugAsserts (t : FSyncTree K L) : Event K L → Prop
  | ackUserWrite writeId revert =>
    ∀ write removed, t.pendingWriteTree.writeForId writeId = some write →
      t.pendingWriteTree.removeWriteId writeId = some (true, removed) →
        FSyncTree.DebugAsserts { t with pendingWriteTree := removed }
          (.ackUserWrite write.path (affectedTree write) revert)
  | _ => True

variable {DEBUG : Bool}

/-- An operation that reverts no write below a view does not trap. -/
theorem isSome_applyOperation_of_not_revertsBelow (t : FSyncTree K L)
    {operation : FOperation K L} (h : operation.revertsBelow = false) :
    (t.applyOperationToSyncPoints DEBUG operation).isSome = true :=
  isSome_applyOperationToSyncPoints_iff.mpr fun _ => t.debugAsserts_of_not_revertsBelow h

/-- An answer traps exactly if its write is not pending, or the filter's assertion is compiled in
and fails. -/
theorem isSome_ackUserWrite_iff {t : FSyncTree K L} {writeId : Int} {revert : Bool} :
    (t.ackUserWrite DEBUG writeId revert).isSome = true ↔
      (∃ write ∈ t.pendingWriteTree.allWrites, write.writeId = writeId) ∧
        (DEBUG = true → (Event.ackUserWrite writeId revert).DebugAsserts t) := by
  constructor
  · intro h
    obtain ⟨t', ht'⟩ := Option.isSome_iff_exists.mp h
    obtain ⟨write, hwrite, ht'⟩ := Option.bind_eq_some_iff.mp ht'
    refine ⟨⟨write, List.mem_of_find?_eq_some hwrite, by simpa using List.find?_some hwrite⟩, ?_⟩
    intro hDEBUG write' removed hwrite' hremoved
    obtain rfl := Option.some.inj (hwrite.symm.trans hwrite')
    rw [hremoved, Option.bind_some] at ht'
    exact isSome_applyOperationToSyncPoints_iff.mp (Option.isSome_iff_exists.mpr ⟨t', ht'⟩) hDEBUG
  · rintro ⟨⟨write, hmem, hid⟩, hasserts⟩
    obtain ⟨write', hwrite'⟩ : ∃ write', t.pendingWriteTree.writeForId writeId = some write' := by
      rw [← Option.isSome_iff_exists, FWriteTree.writeForId, List.find?_isSome]
      exact ⟨write, hmem, by simpa using hid⟩
    obtain ⟨⟨b, removed⟩, hremoved⟩ :=
      Option.isSome_iff_exists.mp (FWriteTree.isSome_removeWriteId ⟨write, hmem, hid⟩)
    rw [ackUserWrite, hwrite', Option.bind_some, hremoved, Option.bind_some]
    cases b with
    | false => rfl
    | true =>
      exact isSome_applyOperationToSyncPoints_iff.mpr fun hDEBUG =>
        hasserts hDEBUG write' removed hwrite' hremoved

/-- Writes below `a`, of which the second is reverted before the first, where it stays among the
visible writes. -/
def outOfOrder : List (Event PlainKey Nat) :=
  let leaf (v : Nat) : Node PlainKey Nat := ⟨.leaf v, .leaf v⟩
  let child (k : PlainKey) (v : Nat) : Node PlainKey Nat := Node.emptyNode.updateChild [k] (leaf v)
  [.addEventRegistration [], .serverOverwrite [] .emptyNode,
    .userOverwrite [.a, .a] ((child .a 1).updateChild [.b] (leaf 1)) 0 true,
    .userOverwrite [.a, .a, .a] (leaf 2) 1 true, .ackUserWrite 1 true,
    .userOverwrite [.a, .b, .a] (leaf 1) 2 true, .userOverwrite [.a, .b] (child .a 1) 3 true]

example : (PartialStep.exec (step true) init outOfOrder).isSome = true ∧
    (PartialStep.exec (step true) init (outOfOrder ++ [.ackUserWrite 3 true])).isSome = false ∧
    (PartialStep.exec (step false) init (outOfOrder ++ [.ackUserWrite 3 true])).isSome = true := by
  decide +kernel

/-! ## Views in sync -/

/-- The view is in sync with the pending writes, and its observers show what it holds. -/
structure ViewInSync (r : FWriteTreeRef K L) (s : FSyncPoint K L) : Prop where
  synced : Synced r s.viewCache
  shown : ∀ events ∈ s.raised, FView.Shows s.viewCache events

/-- All views are in sync with the pending writes. -/
def ViewsInSync (writes : FWriteTree K L) (tree : FImmutableTree K (FSyncPoint K L)) : Prop :=
  ∀ p s, tree.valueAtPath p = some s → ViewInSync ⟨p, writes⟩ s

/-- No view has a leaf from the server strictly above a pending write. -/
def ServerFits (t : FSyncTree K L) : Prop :=
  ∀ p s, t.syncPointTree.valueAtPath p = some s →
    (⟨p, t.pendingWriteTree⟩ : FWriteTreeRef K L).patch.Fits
      s.viewCache.cachedServerSnap.node.leaves

/-- What holds of all views. -/
structure InSync (t : FSyncTree K L) : Prop where
  consistent : t.pendingWriteTree.Consistent
  views : ViewsInSync t.pendingWriteTree t.syncPointTree
  fits : ServerFits t

/-- Observers who show the event cache of a view show it after an operation. -/
theorem shows_applyOperation {s s' : FSyncPoint K L} {operation : FOperation K L}
    {r : FWriteTreeRef K L} {c : Option (Node K L)}
    (h : ∀ events ∈ s.raised, FView.Shows s.viewCache events)
    (hs' : s.applyOperation DEBUG operation r c = some s') :
    ∀ events ∈ s'.raised, FView.Shows s'.viewCache events := by
  obtain ⟨⟨v, new⟩, hv, rfl⟩ := Option.map_eq_some_iff.mp hs'
  intro events hevents
  obtain ⟨old, hold, rfl⟩ := List.mem_map.mp hevents
  exact (h old hold).applyOperation hv

/-- A view that is in sync stays so when it is given an operation that accounts for the change of
the pending writes. -/
theorem synced_applyOperation {s s' : FSyncPoint K L} {operation : FOperation K L}
    {r r' : FWriteTreeRef K L} {c : Option (Node K L)} (h : Synced r s.viewCache)
    (hop : operation.Accounts r.patch r'.patch)
    (hfits : r.patch.Fits s.viewCache.cachedServerSnap.node.leaves)
    (hs' : s.applyOperation DEBUG operation r' c = some s')
    (hfits' : r'.patch.Fits s'.viewCache.cachedServerSnap.node.leaves) :
    Synced r' s'.viewCache := by
  obtain ⟨⟨v, events⟩, hv, rfl⟩ := Option.map_eq_some_iff.mp hs'
  obtain ⟨processed, hprocessed, hv⟩ := Option.bind_eq_some_iff.mp hv
  obtain ⟨changes, -, hv⟩ := Option.bind_eq_some_iff.mp hv
  obtain ⟨-, hv⟩ := Option.ite_none_right_eq_some.mp hv
  obtain ⟨rfl, -⟩ := Prod.mk.inj (Option.some.inj hv)
  exact FViewProcessor.synced_process (s := ⟨s.viewCache, [], true⟩) h hop hfits hprocessed hfits'

/-- An operation that accounts for the change of the pending writes keeps all views in sync. -/
theorem viewsInSync_applyOperation {t t' : FSyncTree K L} {writes : FWriteTree K L}
    {operation : FOperation K L} (h : ViewsInSync writes t.syncPointTree)
    (hfits : ServerFits { t with pendingWriteTree := writes })
    (hop : operation.Accounts writes.visibleWrites.patch t.pendingWriteTree.visibleWrites.patch)
    (ht' : t.applyOperationToSyncPoints DEBUG operation = some t') (hfits' : ServerFits t') :
    ViewsInSync t'.pendingWriteTree t'.syncPointTree := by
  have hasserts := isSome_applyOperationToSyncPoints_iff.mp (Option.isSome_of_eq_some ht')
  obtain ⟨t'', ht'', hwrites, hvisited⟩ := applyOperationToSyncPoints_spec t operation hasserts
  obtain rfl : t' = t'' := Option.some.inj (ht'.symm.trans ht'')
  intro p s' hs'
  obtain ⟨hnone, hsome⟩ := hop.along p
  have hupdated := hvisited p
  rw [hs', Option.bind_some] at hupdated
  rw [hwrites]
  generalize hold : t.syncPointTree.valueAtPath p = old at hupdated
  generalize halong : operation.along p = operation' at hupdated
  cases hupdated with
  | passed =>
    obtain ⟨hsynced, hshown⟩ := h p s' hold
    exact ⟨hsynced.of_patch_eq (hnone halong), hshown⟩
  | applied operation' s _ c hs =>
    obtain ⟨hsynced, hshown⟩ := h p s hold
    refine ⟨?_, shows_applyOperation hshown hs⟩
    refine synced_applyOperation hsynced (hsome operation' halong) (hfits p s hold) hs ?_
    have hfit := hfits' p s' hs'
    rw [hwrites] at hfit
    exact hfit

omit [DecidableEq L] in
/-- The tree that is handed on with an answer covers what the write touches. -/
theorem acked_affectedTree {w : FWriteRecord K L} {q : FPath K} (h : FWriteTree.Touches w q) :
    FOperation.Acked w.path (affectedTree w) q := by
  obtain ⟨writeId, path, written, visible⟩ := w
  obtain ⟨x, hx, hq⟩ := h
  cases written with
  | overwrite n =>
    obtain rfl := List.mem_singleton.mp hx
    refine ⟨[], rfl, ?_⟩
    rw [List.append_nil]
    exact hq
  | merge c =>
    obtain ⟨v, hv, rfl⟩ := List.mem_map.mp hx
    obtain ⟨e, he, rfl⟩ := List.mem_map.mp hv
    refine ⟨e.1, ?_, hq⟩
    have hfold : ∀ (es : List (FPath K × Node K L)) (t : FImmutableTree K Unit),
        (e ∈ es ∨ t.valueAtPath e.1 = some ()) →
        (es.foldl (fun t e => t.setValue () e.1) t).valueAtPath e.1 = some () := by
      intro es
      induction es with
      | nil => exact fun t h => h.resolve_left (List.not_mem_nil)
      | cons e' es ih =>
        intro t h
        apply ih
        rw [FImmutableTree.valueAtPath_setValue]
        by_cases heq : e.1 = e'.1
        · exact Or.inr (if_pos heq)
        · rw [if_neg heq]
          refine h.imp_left fun hmem => (List.mem_cons.mp hmem).resolve_left fun h => ?_
          rw [h] at heq
          contradiction
    exact hfold _ _ (Or.inl he)

omit [DecidableEq L] in
/-- A view that is opened is in sync. -/
theorem synced_newView (r : FWriteTreeRef K L) (c : FCacheNode K L) :
    Synced r (FSyncPoint.newView r c).viewCache := by
  intro hreq
  replace hreq : c.isFullyInitialized = true ∨ r.patch [] ≠ none := hreq
  have hcalc : r.calculateCompleteEventCache
      (if c.isFullyInitialized then some c.node else none) = some (r.eventCache c.node) := by
    by_cases hinit : c.isFullyInitialized = true
    · rw [if_pos hinit, FWriteTreeRef.calculateCompleteEventCache_some]
    · have hdec : r.visibleWrites.completeNodeAtPath (r.path ++ []) ≠ none :=
        mt CompoundWrite.completeNodeAtPath_eq_none_iff.mp (hreq.resolve_left hinit)
      obtain ⟨m, hm⟩ := Option.ne_none_iff_exists'.mp hdec
      have hnode := FWriteTreeRef.completeNodeAtPath_eq hm c.node
      rw [List.append_nil] at hm
      rw [FWriteTreeRef.calculateCompleteEventCache, hm, hnode]
      rfl
  simp only [FSyncPoint.newView, hcalc]

/-- The pending records are such that the answered one can be taken out exactly, and no older
visible one touches it. -/
def AckSafe (t : FSyncTree K L) (e : Event K L) : Prop :=
  ∀ writeId revert older w newer, e = .ackUserWrite writeId revert →
    t.pendingWriteTree.allWrites = older ++ w :: newer → w.writeId = writeId →
    FWriteTree.RemovalSafe older w newer ∧
      ∀ r ∈ older, r.visible = true → FWriteTree.RecordsApart r w

/-- Operations leave the pending writes alone. -/
theorem pendingWriteTree_applyOperation {t t' : FSyncTree K L} {operation : FOperation K L}
    (h : t.applyOperationToSyncPoints DEBUG operation = some t') :
    t'.pendingWriteTree = t.pendingWriteTree := by
  obtain ⟨tree, -, rfl⟩ := Option.map_eq_some_iff.mp h
  rfl

/-- An overwrite of the user becomes pending. -/
theorem pendingWriteTree_applyUserOverwrite {t t' : FSyncTree K L} {path : FPath K}
    {newData : Node K L} {writeId : Int} {visible : Bool}
    (h : t.applyUserOverwrite DEBUG path newData writeId visible = some t') :
    t.pendingWriteTree.addOverwrite path newData writeId visible = some t'.pendingWriteTree := by
  obtain ⟨writes, hwrites, h⟩ := Option.bind_eq_some_iff.mp h
  cases visible with
  | false => rw [← Option.some.inj h, hwrites]
  | true => rw [pendingWriteTree_applyOperation h, hwrites]

/-- An answer takes the write out. -/
theorem pendingWriteTree_ackUserWrite {t t' : FSyncTree K L} {writeId : Int} {revert : Bool}
    (h : t.ackUserWrite DEBUG writeId revert = some t') :
    ∃ b, t.pendingWriteTree.removeWriteId writeId = some (b, t'.pendingWriteTree) := by
  obtain ⟨write, -, h⟩ := Option.bind_eq_some_iff.mp h
  obtain ⟨⟨b, writes⟩, hremoved, h⟩ := Option.bind_eq_some_iff.mp h
  refine ⟨b, ?_⟩
  rw [hremoved]
  cases b with
  | false => rw [← Option.some.inj h]
  | true => rw [pendingWriteTree_applyOperation h]

/-- An operation that accounts for a change of the pending writes keeps all views in sync. -/
theorem InSync.applyOperation {t t' : FSyncTree K L} {writes : FWriteTree K L}
    {operation : FOperation K L} (h : InSync t) (hconsistent : writes.Consistent)
    (hop : operation.Accounts t.pendingWriteTree.visibleWrites.patch writes.visibleWrites.patch)
    (ht' : applyOperationToSyncPoints DEBUG { t with pendingWriteTree := writes } operation =
      some t') (hfits : ServerFits t') : InSync t' := by
  refine ⟨?_, ?_, hfits⟩
  · rw [pendingWriteTree_applyOperation ht']
    exact hconsistent
  · exact viewsInSync_applyOperation (t := { t with pendingWriteTree := writes }) h.views h.fits hop
      ht' hfits

omit [DecidableEq L] in
/-- Views do not notice a change of the pending writes that changes no decision. -/
theorem InSync.of_visibleWrites_eq {t : FSyncTree K L} {writes : FWriteTree K L} (h : InSync t)
    (hconsistent : writes.Consistent)
    (hsame : writes.visibleWrites = t.pendingWriteTree.visibleWrites) :
    InSync { t with pendingWriteTree := writes } := by
  have hpatch : ∀ p, (⟨p, writes⟩ : FWriteTreeRef K L).patch =
      (⟨p, t.pendingWriteTree⟩ : FWriteTreeRef K L).patch := by
    intro p
    rw [FWriteTreeRef.patch, FWriteTreeRef.patch, FWriteTreeRef.visibleWrites,
      FWriteTreeRef.visibleWrites, hsame]
  refine ⟨hconsistent, fun p s hs => ?_, fun p s hs => ?_⟩
  · obtain ⟨hsynced, hshown⟩ := h.views p s hs
    exact ⟨hsynced.of_patch_eq (hpatch p), hshown⟩
  · rw [hpatch p]
    exact h.fits p s hs

/-- An overwrite of the user keeps all views in sync. -/
theorem InSync.applyUserOverwrite {t t' : FSyncTree K L} {path : FPath K} {newData : Node K L}
    {writeId : Int} {visible : Bool} (h : InSync t)
    (ht' : t.applyUserOverwrite DEBUG path newData writeId visible = some t')
    (hfits : ServerFits t') : InSync t' := by
  obtain ⟨writes, hwrites, ht'⟩ := Option.bind_eq_some_iff.mp ht'
  have hconsistent := h.consistent.addOverwrite hwrites
  obtain ⟨-, hwrites⟩ := Option.ite_none_right_eq_some.mp hwrites
  have hvisible := congrArg FWriteTree.visibleWrites (Option.some.inj hwrites)
  cases visible with
  | false =>
    rw [← Option.some.inj ht']
    exact h.of_visibleWrites_eq hconsistent hvisible.symm
  | true =>
    refine h.applyOperation hconsistent ?_ ht' hfits
    rw [← hvisible, if_pos rfl, FOperation.Accounts, CompoundWrite.patch_addWrite,
      Patch.write_eq_stack]

/-- A merge of the user keeps all views in sync. -/
theorem InSync.applyUserMerge {t t' : FSyncTree K L} {path : FPath K} {m : CompoundWrite K L}
    {writeId : Int} (h : InSync t) (ht' : t.applyUserMerge DEBUG path m writeId = some t')
    (hfits : ServerFits t') : InSync t' := by
  obtain ⟨writes, hwrites, ht'⟩ := Option.bind_eq_some_iff.mp ht'
  have hconsistent := h.consistent.addMerge hwrites
  obtain ⟨-, hwrites⟩ := Option.ite_none_right_eq_some.mp hwrites
  have hvisible := congrArg FWriteTree.visibleWrites (Option.some.inj hwrites)
  refine h.applyOperation hconsistent ?_ ht' hfits
  rw [← hvisible, FOperation.Accounts, CompoundWrite.patch_addCompoundWrite_eq_stack]

omit [Std.TransOrd K] [Std.LawfulEqOrd K] [DecidableEq K] [DecidableEq L] in
/-- The record with an identifier is the first one that has it. -/
theorem writeForId_eq {t : FWriteTree K L} {older newer : List (FWriteRecord K L)}
    {w : FWriteRecord K L} {writeId : Int} (hall : t.allWrites = older ++ w :: newer)
    (hid : w.writeId = writeId) (holder : ∀ r ∈ older, r.writeId ≠ writeId) :
    t.writeForId writeId = some w := by
  rw [FWriteTree.writeForId, hall, List.find?_append,
    List.find?_eq_none.mpr (by simpa using holder), Option.none_or]
  exact List.find?_cons_of_pos (by simpa using hid)

/-- A safe answer keeps all views in sync. -/
theorem InSync.ackUserWrite {t t' : FSyncTree K L} {writeId : Int} {revert : Bool} (h : InSync t)
    (hsafe : AckSafe t (.ackUserWrite writeId revert))
    (ht' : t.ackUserWrite DEBUG writeId revert = some t') (hfits : ServerFits t') : InSync t' := by
  obtain ⟨write, hwrite, ht'⟩ := Option.bind_eq_some_iff.mp ht'
  obtain ⟨⟨b, writes⟩, hremoved, ht'⟩ := Option.bind_eq_some_iff.mp ht'
  obtain ⟨older, w, newer, hall, hid, holder, hall', hcase⟩ :=
    FWriteTree.removeWriteId_cases hremoved
  obtain ⟨hremoval, hapart⟩ := hsafe writeId revert older w newer rfl hall hid
  obtain ⟨hconsistent, hsame, hretract⟩ :=
    FWriteTree.retract_of_removal h.consistent hall hall' hremoval hapart hcase
  rw [writeForId_eq hall hid holder] at hwrite
  obtain rfl := Option.some.inj hwrite
  cases b with
  | false =>
    rw [← Option.some.inj ht']
    exact h.of_visibleWrites_eq hconsistent (hsame rfl)
  | true =>
    refine h.applyOperation hconsistent ?_ ht' hfits
    exact ⟨_, hretract rfl, fun q hq => acked_affectedTree hq⟩

/-- Removing all writes keeps all views in sync. -/
theorem InSync.removeAllWrites {t t' : FSyncTree K L} (h : InSync t)
    (ht' : t.removeAllWrites DEBUG = some t') (hfits : ServerFits t') : InSync t' := by
  have hconsistent := FWriteTree.consistent_removeAllWrites t.pendingWriteTree
  rw [FSyncTree.removeAllWrites] at ht'
  split at ht'
  next =>
    refine h.applyOperation hconsistent ?_ ht' hfits
    refine ⟨fun q => t.pendingWriteTree.visibleWrites.patch q ≠ none, ⟨?_, ?_, ?_⟩, ?_⟩
    · intro q hq
      rw [not_not.mp hq, FWriteTree.removeAllWrites, CompoundWrite.patch_emptyWrite]
      rfl
    · exact fun q hq => hq
    · intro q hq
      rw [FWriteTree.removeAllWrites, CompoundWrite.patch_emptyWrite] at hq
      contradiction
    · exact fun q _ => ⟨[], rfl, List.nil_prefix⟩
  next hnone =>
    -- without pending writes nothing is decided
    rw [← Option.some.inj ht']
    refine h.of_visibleWrites_eq hconsistent (CompoundWrite.ext_patch ?_)
    have hempty : t.pendingWriteTree.allWrites = [] := by
      rwa [gt_iff_lt, List.length_pos_iff, not_not] at hnone
    rw [h.consistent, hempty]
    exact CompoundWrite.patch_emptyWrite

omit [DecidableEq L] in
/-- A new view is in sync. -/
theorem InSync.addEventRegistration {t : FSyncTree K L} {path : FPath K} (h : InSync t)
    (hfits : ServerFits (t.addEventRegistration path)) : InSync (t.addEventRegistration path) := by
  refine ⟨h.consistent, fun p s hs => ?_, hfits⟩
  rw [FSyncTree.addEventRegistration] at hs
  dsimp only at hs
  rw [FImmutableTree.valueAtPath_setValue] at hs
  have hregister : ∀ s, ViewInSync ⟨path, t.pendingWriteTree⟩ s →
      ViewInSync ⟨path, t.pendingWriteTree⟩ (FSyncPoint.addEventRegistration s) := by
    rintro s ⟨hsynced, hshown⟩
    refine ⟨hsynced, fun events hevents => ?_⟩
    rcases List.mem_append.mp hevents with hevents | hevents
    · exact hshown events hevents
    · rw [List.mem_singleton.mp hevents]
      exact FView.initialEvents_shows s.viewCache
  by_cases hp : p = path
  · rw [if_pos hp] at hs
    rw [← Option.some.inj hs, hp]
    apply hregister
    split
    next syncPoint hold => exact h.views path syncPoint hold
    next => exact ⟨synced_newView _ _, by simp [FSyncPoint.newView]⟩
  · rw [if_neg hp] at hs
    exact h.views p s hs

/-- A safe step keeps all views in sync. -/
theorem InSync.step {t t' : FSyncTree K L} {e : Event K L} (h : InSync t) (hsafe : AckSafe t e)
    (ht' : step DEBUG t e = some t') (hfits : ServerFits t') : InSync t' := by
  cases e with
  | userOverwrite path newData writeId visible => exact h.applyUserOverwrite ht' hfits
  | userMerge path changedChildren writeId => exact h.applyUserMerge ht' hfits
  | ackUserWrite writeId revert => exact h.ackUserWrite hsafe ht' hfits
  | removeAllWrites => exact h.removeAllWrites ht' hfits
  | serverOverwrite path newData =>
    have haccounts : (FOperation.serverOverwrite path newData : FOperation K L).Accounts
        t.pendingWriteTree.visibleWrites.patch t.pendingWriteTree.visibleWrites.patch := rfl
    exact h.applyOperation h.consistent haccounts ht' hfits
  | serverMerge path changedChildren =>
    have haccounts : (FOperation.serverMerge path changedChildren : FOperation K L).Accounts
        t.pendingWriteTree.visibleWrites.patch t.pendingWriteTree.visibleWrites.patch := rfl
    exact h.applyOperation h.consistent haccounts ht' hfits
  | listenComplete path =>
    have haccounts : (FOperation.listenComplete path : FOperation K L).Accounts
        t.pendingWriteTree.visibleWrites.patch t.pendingWriteTree.visibleWrites.patch := rfl
    exact h.applyOperation h.consistent haccounts ht' hfits
  | addEventRegistration path =>
    obtain rfl := Option.some.inj ht'
    exact h.addEventRegistration hfits

omit [Std.LawfulEqOrd K] [DecidableEq L] in
/-- Without views all are in sync. -/
theorem inSync_init : InSync (init : FSyncTree K L) := by
  refine ⟨FWriteTree.consistent_init, fun p s hs => ?_, fun p s hs => ?_⟩
  · rw [init, FImmutableTree.valueAtPath_empty] at hs
    contradiction
  · rw [init, FImmutableTree.valueAtPath_empty] at hs
    contradiction

/-! ## Safe runs -/

/-- The answers come in an order that allows to take the writes out exactly, and the server sends no
leaf strictly above a pending write. -/
def SafeStep (DEBUG : Bool) (t : FSyncTree K L) (e : Event K L) : Prop :=
  AckSafe t e ∧ ∀ t', step DEBUG t e = some t' → ServerFits t'

/-- The data of the server at a location with the visible pending writes made to it, one after the
other. -/
def pendingOnServer (t : FSyncTree K L) (p : FPath K) (serverNode : Node K L) : Node K L :=
  ((layerTreeFromWrites t.pendingWriteTree.allWrites (·.visible) []).childCompoundWriteAtPath
    p).applyToNode serverNode

omit [DecidableEq L] in
/-- An observer of a view that is in sync and has the data of the server shows it with the pending
writes made to it. -/
theorem InSync.shows {t : FSyncTree K L} (ht : InSync t) {p : FPath K} {s : FSyncPoint K L}
    (hs : t.syncPointTree.valueAtPath p = some s)
    (hinit : s.viewCache.cachedServerSnap.isFullyInitialized = true)
    {events : List (FDataEvent K L)} (hevents : events ∈ s.raised) :
    events.foldl handleChildEvent [] =
        (pendingOnServer t p s.viewCache.cachedServerSnap.node).enumerateChildren ∧
      events.foldl handleValueEvent none =
        some (pendingOnServer t p s.viewCache.cachedServerSnap.node) := by
  obtain ⟨hsynced, hshown⟩ := ht.views p s hs
  have hevent := hsynced (Or.inl hinit)
  have hpending : (⟨p, t.pendingWriteTree⟩ : FWriteTreeRef K L).eventCache
      s.viewCache.cachedServerSnap.node =
        pendingOnServer t p s.viewCache.cachedServerSnap.node := by
    have hvisible := CompoundWrite.ext_patch
      (ht.consistent.trans (patch_layerTreeFromWrites _ _).symm)
    rw [FWriteTreeRef.eventCache, FWriteTreeRef.visibleWrites, hvisible, pendingOnServer]
  obtain ⟨hchild, hvalue⟩ := hshown events hevents
  rw [FView.ShowsValue, hevent] at hvalue
  rw [hevent] at hchild
  rw [← hpending]
  exact ⟨hchild, hvalue rfl⟩

/-- All views stay in sync along a safe run. -/
theorem along_of_inSync {J : FSyncTree K L → Prop} (hJ : ∀ t, InSync t → J t) {t : FSyncTree K L}
    (ht : InSync t) {es : List (Event K L)}
    (hsafe : PartialStep.EachStep (step DEBUG) (SafeStep DEBUG) t es) :
    PartialStep.Along (step DEBUG) J t es :=
  PartialStep.along_of_eachStep (K := InSync) hJ
    (fun _ _ t' ht hsafe ht' => ht.step hsafe.1 ht' (hsafe.2 t' ht')) es ht hsafe

/-- In a safe run, every observer of a view that has the data of the server shows it with the
pending writes made to it, child by child and as a whole. -/
theorem observers_show_pending_writes {es : List (Event K L)}
    (hsafe : PartialStep.EachStep (step DEBUG) (SafeStep DEBUG) init es) :
    PartialStep.Along (step DEBUG)
      (fun t => ∀ p s, t.syncPointTree.valueAtPath p = some s →
        s.viewCache.cachedServerSnap.isFullyInitialized = true → ∀ events ∈ s.raised,
          events.foldl handleChildEvent [] =
            (pendingOnServer t p s.viewCache.cachedServerSnap.node).enumerateChildren ∧
          events.foldl handleValueEvent none =
            some (pendingOnServer t p s.viewCache.cachedServerSnap.node)) init es :=
  along_of_inSync (fun _ ht _ _ hs hinit _ hevents => ht.shows hs hinit hevents) inSync_init hsafe

omit [Std.TransOrd K] [Std.LawfulEqOrd K] [DecidableEq K] [DecidableEq L] in
/-- The server fits where nothing or everything is decided. -/
theorem serverFits_of_patch {t : FSyncTree K L}
    (h : t.pendingWriteTree.visibleWrites.patch = PathMap.empty ∨
      ∀ q, t.pendingWriteTree.visibleWrites.patch q ≠ none) : ServerFits t := by
  intro p s _ q r hq hr
  rcases h with h | h
  · exact absurd (congrFun h _) hr
  · exact absurd hq (h _)

/-- A write is pending while the server sends other data, and is then answered. -/
def sentMeanwhile : List (Event PlainKey Nat) :=
  [.addEventRegistration [], .userOverwrite [] ⟨.leaf 5, .leaf 5⟩ 0 true,
    .serverOverwrite [] ⟨.leaf 7, .leaf 7⟩, .ackUserWrite 0 false]

/-- The run is safe: the write is at the root, and the server's data is no matter while it decides
everything. -/
theorem safeStep_sentMeanwhile :
    PartialStep.EachStep (step DEBUG) (SafeStep DEBUG) init sentMeanwhile := by
  refine ⟨⟨by simp [AckSafe], fun t₁ h₁ => serverFits_of_patch (Or.inl ?_)⟩, fun t₁ h₁ => ?_⟩
  · obtain rfl := Option.some.inj h₁
    exact CompoundWrite.patch_emptyWrite
  obtain rfl := Option.some.inj h₁
  -- the pending writes while the write at the root is pending, and after its answer
  have hdecided : ∀ (t : FSyncTree PlainKey Nat) (n : Node PlainKey Nat),
      t.pendingWriteTree.visibleWrites = CompoundWrite.emptyWrite.addWrite n [] → ServerFits t := by
    intro t n h
    refine serverFits_of_patch (Or.inr fun q => ?_)
    rw [h, CompoundWrite.patch_addWrite, Ne, Patch.write_eq_none_iff]
    simp
  have hpending₂ : ∀ t₂, step DEBUG (init.addEventRegistration [])
      (.userOverwrite [] (⟨.leaf 5, .leaf 5⟩ : Node PlainKey Nat) 0 true) = some t₂ →
      t₂.pendingWriteTree = ⟨CompoundWrite.emptyWrite.addWrite ⟨.leaf 5, .leaf 5⟩ [],
        [⟨0, [], .overwrite ⟨.leaf 5, .leaf 5⟩, true⟩], 0⟩ :=
    fun t₂ h₂ => (Option.some.inj (pendingWriteTree_applyUserOverwrite h₂)).symm
  refine ⟨⟨by simp [AckSafe], fun t₂ h₂ => hdecided t₂ _ (by rw [hpending₂ t₂ h₂])⟩,
    fun t₂ h₂ => ?_⟩
  have hpending₃ : ∀ t₃, step DEBUG t₂ (.serverOverwrite [] ⟨.leaf 7, .leaf 7⟩) = some t₃ →
      t₃.pendingWriteTree = t₂.pendingWriteTree := fun t₃ h₃ => pendingWriteTree_applyOperation h₃
  refine ⟨⟨by simp [AckSafe], fun t₃ h₃ => hdecided t₃ ⟨.leaf 5, .leaf 5⟩ ?_⟩, fun t₃ h₃ => ?_⟩
  · rw [hpending₃ t₃ h₃, hpending₂ t₂ h₂]
  refine ⟨⟨?_, fun t₄ h₄ => serverFits_of_patch (Or.inl ?_)⟩, fun _ _ => trivial⟩
  · rintro writeId revert older w newer - hall -
    rw [hpending₃ t₃ h₃, hpending₂ t₂ h₂] at hall
    rcases List.append_eq_singleton_iff.mp hall.symm with ⟨rfl, hw⟩ | ⟨-, hw⟩
    · obtain ⟨rfl, rfl⟩ := List.cons.inj hw
      exact ⟨⟨by simp, by simp, by simp⟩, by simp⟩
    · contradiction
  · obtain ⟨b, hremoved⟩ := pendingWriteTree_ackUserWrite h₄
    rw [hpending₃ t₃ h₃, hpending₂ t₂ h₂] at hremoved
    have hw := (Prod.mk.inj (Option.some.inj hremoved)).2
    rw [← hw]
    exact CompoundWrite.patch_emptyWrite

/-- An example: a write is pending while the server sends other data, and is then answered. -/
theorem observers_show_pending_writes_sent_meanwhile :
    PartialStep.Along (step true)
      (fun t => ∀ p s, t.syncPointTree.valueAtPath p = some s →
        s.viewCache.cachedServerSnap.isFullyInitialized = true → ∀ events ∈ s.raised,
          events.foldl handleChildEvent [] =
            (pendingOnServer t p s.viewCache.cachedServerSnap.node).enumerateChildren ∧
          events.foldl handleValueEvent none =
            some (pendingOnServer t p s.viewCache.cachedServerSnap.node)) init
      [.addEventRegistration [], .userOverwrite [] (⟨.leaf 5, .leaf 5⟩ : Node PlainKey Nat) 0 true,
        .serverOverwrite [] ⟨.leaf 7, .leaf 7⟩, .ackUserWrite 0 false] :=
  observers_show_pending_writes safeStep_sentMeanwhile

end FSyncTree

end Database
