import DateCourse.Database.SyncTreeRun

/-!
# Writes made one after the other

What the pending writes are for: each of them will be made to the data of the database. A client
does not wait for that, and shows the data that the database would have if the writes were made to
the data of the server in their order. It keeps the writes in a tree for this, and makes that tree
to the data of each view.

## Main definitions

* `FWriteRecord.makeTo`: the data of the database after a write;
* `replay`: the data after a list of writes.

## Main results

* `FSyncTree.pendingOnServer_getChild`: making the tree of writes to the data at a location leads to
  what is there after all writes;
* `FSyncTree.observers_show_replay`: in safe runs observers show the data after all writes.
-/

namespace Database

variable {K L : Type*} [Ord K] [Std.TransOrd K] [Std.LawfulEqOrd K]

/-- The data of the database after the write of a record. -/
def FWriteRecord.makeTo (record : FWriteRecord K L) (data : Node K L) : Node K L :=
  match record.written with
  | .overwrite newData => data.updateChild record.path newData
  | .merge changedChildren =>
    changedChildren.enumerateWrites.foldl
      (fun data e => data.updateChild (record.path ++ e.1) e.2) data

/-- The data of the database after the writes of a list. -/
def replay (records : List (FWriteRecord K L)) (data : Node K L) : Node K L :=
  records.foldl (fun data record => record.makeTo data) data

/-- The data has no leaf strictly above what a record writes. -/
def FWriteRecord.FitsIn (record : FWriteRecord K L) (data : Node K L) : Prop :=
  ∀ w ∈ record.writes, data.leaves.Clear w.1

/-- Making a record to data makes its writes to the leaves. -/
theorem FWriteRecord.leaves_makeTo (record : FWriteRecord K L) (data : Node K L) :
    (record.makeTo data).leaves =
      record.writes.foldl (fun leaves w => leaves.write w.1 w.2) data.leaves := by
  obtain ⟨writeId, path, written, visible⟩ := record
  cases written with
  | overwrite newData => exact Node.leaves_updateChild data path newData
  | merge changedChildren =>
    have hwrites : FWriteRecord.writes ⟨writeId, path, .merge changedChildren, visible⟩ =
        changedChildren.enumerateWrites.map fun e => (path ++ e.1, e.2.leaves) := List.map_map
    rw [hwrites, List.foldl_map, makeTo]
    dsimp only
    induction changedChildren.enumerateWrites generalizing data with
    | nil => rfl
    | cons e entries ih =>
      rw [List.foldl_cons, List.foldl_cons, ih, Node.leaves_updateChild]

/-- Replaying records makes their writes to the leaves, one after the other. -/
theorem leaves_replay (records : List (FWriteRecord K L)) (data : Node K L) :
    (replay records data).leaves =
      (pendingWrites records).foldl (fun leaves w => leaves.write w.1 w.2) data.leaves := by
  induction records generalizing data with
  | nil => rfl
  | cons record records ih =>
    rw [pendingWrites_cons, List.foldl_append, ← record.leaves_makeTo, ← ih]
    rfl

variable [DecidableEq K]

/-- Making a tree of writes to data that fits is making the writes one after the other. -/
theorem applyToNode_layerTreeFromWrites {records : List (FWriteRecord K L)}
    {filter : FWriteRecord K L → Bool} {data : Node K L}
    (h : ∀ record ∈ records.filter filter, record.FitsIn data) :
    (layerTreeFromWrites records filter []).applyToNode data =
      replay (records.filter filter) data := by
  apply Node.ext_leaves
  -- both sides write the same leaves in the same order
  rw [CompoundWrite.leaves_applyToNode, patch_layerTreeFromWrites, leaves_replay, Patch.apply_layer,
    Patch.apply_empty]
  intro w hw
  obtain ⟨record, hrecord, hmem⟩ := mem_pendingWrites.mp hw
  exact h record hrecord w hmem

namespace FSyncTree

/-- The visible pending writes, in their order. -/
def visiblePending (t : FSyncTree K L) : List (FWriteRecord K L) :=
  t.pendingWriteTree.allWrites.filter (·.visible)

/-- What is shown at a location is what is there after all writes. -/
theorem pendingOnServer_getChild {t : FSyncTree K L} {data : Node K L}
    (h : ∀ record ∈ t.visiblePending, record.FitsIn data) (p : FPath K) :
    pendingOnServer t p (data.getChild p) = (replay t.visiblePending data).getChild p := by
  rw [visiblePending, ← applyToNode_layerTreeFromWrites h]
  apply Node.ext_leaves
  rw [pendingOnServer, CompoundWrite.leaves_applyToNode, Node.leaves_getChild, Node.leaves_getChild,
    CompoundWrite.leaves_applyToNode, CompoundWrite.patch_childCompoundWriteAtPath, Patch.sub_apply]

variable [DecidableEq L]

omit [DecidableEq L] in
/-- An observer of a view that is in sync shows the data after all writes. -/
theorem InSync.shows_replay {t : FSyncTree K L} (ht : InSync t) (data : Node K L)
    (hfits : ∀ record ∈ t.visiblePending, record.FitsIn data) (p : FPath K) (s : FSyncPoint K L)
    (hs : t.syncPointTree.valueAtPath p = some s)
    (hinit : s.viewCache.cachedServerSnap.isFullyInitialized = true)
    (hserver : s.viewCache.cachedServerSnap.node = data.getChild p)
    (events : List (FDataEvent K L)) (hevents : events ∈ s.raised) :
    events.foldl handleChildEvent [] =
        ((replay t.visiblePending data).getChild p).enumerateChildren ∧
      events.foldl handleValueEvent none = some ((replay t.visiblePending data).getChild p) := by
  have hshows := ht.shows hs hinit hevents
  rwa [hserver, pendingOnServer_getChild hfits] at hshows

/-- In a safe run, every observer of a view whose data of the server is that of the database shows
the data of the database after all visible pending writes, child by child and as a whole. -/
theorem observers_show_replay {DEBUG : Bool} {es : List (Event K L)}
    (hsafe : PartialStep.EachStep (step DEBUG) (SafeStep DEBUG) init es) :
    PartialStep.Along (step DEBUG)
      (fun t => ∀ data : Node K L, (∀ record ∈ t.visiblePending, record.FitsIn data) →
        ∀ p s, t.syncPointTree.valueAtPath p = some s →
          s.viewCache.cachedServerSnap.isFullyInitialized = true →
          s.viewCache.cachedServerSnap.node = data.getChild p → ∀ events ∈ s.raised,
            events.foldl handleChildEvent [] =
              ((replay t.visiblePending data).getChild p).enumerateChildren ∧
            events.foldl handleValueEvent none =
              some ((replay t.visiblePending data).getChild p)) init es := by
  exact along_of_inSync (fun t ht => ht.shows_replay) inSync_init hsafe

/-- An observer at the root sees a leaf that is written while the server sends another one, and
after the answer that of the server. -/
theorem observers_show_replay_sentMeanwhile :
    PartialStep.Along (step true)
      (fun t => ∀ data : Node PlainKey Nat, (∀ record ∈ t.visiblePending, record.FitsIn data) →
        ∀ p s, t.syncPointTree.valueAtPath p = some s →
          s.viewCache.cachedServerSnap.isFullyInitialized = true →
          s.viewCache.cachedServerSnap.node = data.getChild p → ∀ events ∈ s.raised,
            events.foldl handleChildEvent [] =
              ((replay t.visiblePending data).getChild p).enumerateChildren ∧
            events.foldl handleValueEvent none =
              some ((replay t.visiblePending data).getChild p)) init sentMeanwhile :=
  observers_show_replay safeStep_sentMeanwhile

end FSyncTree

end Database
