import DateCourse.Database.CompoundWrite
import DateCourse.Machine.Run
import Mathlib.Data.List.Pairwise
import Mathlib.Data.Set.Insert

/-!
# Pending writes

`FWriteTree` keeps the writes that the server has not answered yet, and, as a compound write, what
all visible ones amount to. When a write is answered it is taken out again: if later writes hide it
nothing changes, if others are made below it the compound write is built anew, and otherwise its
paths are simply removed from the compound write.

## Main definitions

* `FWriteRecord` and `FWriteTree`, with `addOverwrite`, `addMerge` and `removeWriteId`;
* `layerTreeFromWrites`: the compound write built anew from a list of records;
* `FWriteTree.step`: the writes and answers of a program as a machine;
* `RemovalSafe`: the other pending writes are apart from the answered one, below its path, or
  later and over it.

## Main results

* `scanWrites_spec`: what the search through the other writes finds;
* `Consistent.removal`: a safe removal keeps the compound write in step with the records;
* `visibleWrites_eq_rebuild`: in a run of safe removals, the compound write kept up to date is the
  one built anew;
* `visibleWrites_eq_rebuild_of_siblings`: so it is in every run whose writes are made at paths none
  of which is below another.
-/

namespace Database

/-! ## Records -/

/-- What a write puts at its path. -/
inductive Written (K L : Type*) [Ord K]
  | overwrite (newData : Node K L)
  | merge (changedChildren : CompoundWrite K L)

/-- A pending write. -/
structure FWriteRecord (K L : Type*) [Ord K] where
  writeId : Int
  path : FPath K
  written : Written K L
  visible : Bool

namespace FWriteRecord

variable {K L : Type*} [Ord K]

/-- The writes of leaves that the record stands for. -/
def writes (record : FWriteRecord K L) : List (FPath K × PathMap K L) :=
  match record.written with
  | .overwrite newData => [(record.path, newData.leaves)]
  | .merge changedChildren => changedChildren.writes.map fun w => (record.path ++ w.1, w.2)

/-- `record:containsPath:`. -/
def containsPath [DecidableEq K] (record : FWriteRecord K L) (path : FPath K) : Bool :=
  match record.written with
  | .overwrite _ => record.path.contains path
  | .merge changedChildren =>
    changedChildren.enumerateWrites.any fun e => FPath.contains (record.path ++ e.1) path

/-- A record contains a path if one of its writes is at or above it. -/
theorem containsPath_iff [DecidableEq K] (record : FWriteRecord K L) (p : FPath K) :
    record.containsPath p = true ↔ ∃ w ∈ record.writes, w.1 <+: p := by
  obtain ⟨writeId, path, written, visible⟩ := record
  cases written with
  | overwrite n => simp [containsPath, writes, FPath.contains_iff]
  | merge c =>
    simp only [containsPath, writes, CompoundWrite.writes, FImmutableTree.writes, List.any_eq_true,
      FPath.contains_iff, List.mem_map]
    constructor
    · rintro ⟨e, he, hp⟩
      exact ⟨_, ⟨_, ⟨e, he, rfl⟩, rfl⟩, hp⟩
    · rintro ⟨_, ⟨_, ⟨e, he, rfl⟩, rfl⟩, hp⟩
      exact ⟨e, he, hp⟩

/-- A record writes at and below its path. -/
theorem prefix_of_mem_writes {record : FWriteRecord K L} {w : FPath K × PathMap K L}
    (hw : w ∈ record.writes) : record.path <+: w.1 := by
  obtain ⟨writeId, path, written, visible⟩ := record
  cases written with
  | overwrite n =>
    obtain rfl := List.mem_singleton.mp hw
    exact List.prefix_rfl
  | merge c =>
    obtain ⟨v, -, rfl⟩ := List.mem_map.mp hw
    exact List.prefix_append _ _

/-- The writes of a record are made at paths apart from each other. -/
theorem pairwise_apart_writes [Std.LawfulEqOrd K] (record : FWriteRecord K L) :
    record.writes.Pairwise fun v w => PathMap.Apart v.1 w.1 := by
  obtain ⟨writeId, path, written, visible⟩ := record
  cases written with
  | overwrite n => exact List.pairwise_singleton _ _
  | merge c =>
    refine List.pairwise_map.mpr ?_
    exact c.pairwise_apart_writes.imp fun h => PathMap.apart_append_append.mpr h

/-- Two writes of a record are made at paths apart from each other. -/
theorem apart_of_mem_writes [Std.LawfulEqOrd K] (record : FWriteRecord K L)
    {v w : FPath K × PathMap K L} (hv : v ∈ record.writes) (hw : w ∈ record.writes)
    (h : v ≠ w) : PathMap.Apart v.1 w.1 := by
  have : Std.Symm fun v w : FPath K × PathMap K L => PathMap.Apart v.1 w.1 :=
    ⟨fun _ _ h => h.symm⟩
  exact record.pairwise_apart_writes.forall hv hw h

end FWriteRecord

/-- The writes of the records of a list, in order. -/
def pendingWrites {K L : Type*} [Ord K] (records : List (FWriteRecord K L)) :
    List (FPath K × PathMap K L) :=
  records.flatMap FWriteRecord.writes

theorem pendingWrites_append {K L : Type*} [Ord K] (rs rs' : List (FWriteRecord K L)) :
    pendingWrites (rs ++ rs') = pendingWrites rs ++ pendingWrites rs' := List.flatMap_append

theorem pendingWrites_cons {K L : Type*} [Ord K] (r : FWriteRecord K L)
    (rs : List (FWriteRecord K L)) : pendingWrites (r :: rs) = r.writes ++ pendingWrites rs :=
  List.flatMap_cons

/-- The pending writes are those of the records. -/
theorem mem_pendingWrites {K L : Type*} [Ord K] {rs : List (FWriteRecord K L)}
    {x : FPath K × PathMap K L} : x ∈ pendingWrites rs ↔ ∃ r ∈ rs, x ∈ r.writes := List.mem_flatMap

section Layer

variable {K L : Type*} [Ord K] [Std.TransOrd K] [Std.LawfulEqOrd K] [DecidableEq K]

/-- The relative path to a path that the outer one contains. -/
def relativePath (outer inner : FPath K) : FPath K := (FPath.relativePathFrom outer inner).getD []

/-- The treatment of one record in `layerTreeFromWrites:filter:treeRoot:`. -/
def layerRecord (treeRoot : FPath K) (compoundWrite : CompoundWrite K L)
    (record : FWriteRecord K L) : CompoundWrite K L :=
  match record.written with
  | .overwrite overwrite =>
    if treeRoot.contains record.path then
      compoundWrite.addWrite overwrite (relativePath treeRoot record.path)
    -- of a write above the root, what is below the root counts
    else if record.path.contains treeRoot then
      compoundWrite.addWrite (overwrite.getChild (relativePath record.path treeRoot)) []
    else compoundWrite
  | .merge merge =>
    if treeRoot.contains record.path then
      compoundWrite.addCompoundWrite merge (relativePath treeRoot record.path)
    else if record.path.contains treeRoot then
      let path := relativePath record.path treeRoot
      if path.isEmpty then compoundWrite.addCompoundWrite merge []
      else
        match merge.completeNodeAtPath path with
        | some child => compoundWrite.addWrite (child.getChild path.tail) []
        | none => compoundWrite
    else compoundWrite

/-- `layerTreeFromWrites:filter:treeRoot:`. -/
def layerTreeFromWrites (writes : List (FWriteRecord K L)) (filter : FWriteRecord K L → Bool)
    (treeRoot : FPath K) : CompoundWrite K L :=
  (writes.filter filter).foldl (layerRecord treeRoot) .emptyWrite

/-- Adding a record writes its writes to the patch. -/
theorem patch_layerRecord_nil (c : CompoundWrite K L) (record : FWriteRecord K L) :
    (layerRecord [] c record).patch = c.patch.layer record.writes := by
  obtain ⟨writeId, path, written, visible⟩ := record
  have hroot : FPath.contains [] path = true := (FPath.contains_iff [] path).mpr List.nil_prefix
  cases written with
  | overwrite n =>
    simp only [layerRecord, hroot, if_true, relativePath, FPath.relativePathFrom, Option.getD_some,
      CompoundWrite.patch_addWrite, FWriteRecord.writes]
    rfl
  | merge d =>
    simp only [layerRecord, hroot, if_true, relativePath, FPath.relativePathFrom, Option.getD_some,
      CompoundWrite.patch_addCompoundWrite, FWriteRecord.writes]

/-- Layering at the root makes the writes of the records one after the other. -/
theorem patch_layerTreeFromWrites (records : List (FWriteRecord K L))
    (filter : FWriteRecord K L → Bool) :
    (layerTreeFromWrites records filter []).patch =
      Patch.layer PathMap.empty (pendingWrites (records.filter filter)) := by
  have hfold : ∀ (rs : List (FWriteRecord K L)) (c : CompoundWrite K L),
      (rs.foldl (layerRecord []) c).patch = c.patch.layer (pendingWrites rs) := by
    intro rs
    induction rs with
    | nil => exact fun _ => rfl
    | cons r rs ih =>
      intro c
      rw [List.foldl_cons, ih, patch_layerRecord_nil, pendingWrites, pendingWrites,
        List.flatMap_cons, Patch.layer_append]
  rw [layerTreeFromWrites, hfold, CompoundWrite.patch_emptyWrite]

end Layer

/-! ## The write tree -/

/-- An `FWriteTree`. -/
structure FWriteTree (K L : Type*) [Ord K] where
  visibleWrites : CompoundWrite K L
  allWrites : List (FWriteRecord K L)
  lastWriteId : Int

namespace FWriteTree

variable {K L : Type*} [Ord K]

/-- `init`. -/
def init : FWriteTree K L where
  visibleWrites := .emptyWrite
  allWrites := []
  lastWriteId := -1

/-- The compound write is what the visible records amount to. -/
def Consistent (t : FWriteTree K L) : Prop :=
  t.visibleWrites.patch = Patch.layer PathMap.empty (pendingWrites (t.allWrites.filter (·.visible)))

/-- With no writes the empty compound write is right. -/
theorem consistent_init : (init : FWriteTree K L).Consistent := CompoundWrite.patch_emptyWrite

/-- Two records none of whose writes touch. -/
def RecordsApart (r w : FWriteRecord K L) : Prop :=
  ∀ x ∈ w.writes, ∀ y ∈ r.writes, PathMap.Apart x.1 y.1

/-- Records at different siblings are apart. -/
theorem recordsApart_of_apart {r w : FWriteRecord K L} (h : PathMap.Apart w.path r.path) :
    RecordsApart r w := by
  intro x hx y hy
  obtain ⟨s, hs⟩ := FWriteRecord.prefix_of_mem_writes hx
  obtain ⟨u, hu⟩ := FWriteRecord.prefix_of_mem_writes hy
  rw [← hs, ← hu]
  exact (h.append_left s).append_right u

section Scan

variable [DecidableEq K]

/-- The loop of `removeWriteId:` over the other writes with their indices, the last one first. It
gives `removedWriteWasVisible` and `removedWriteOverlapsWithOtherWrites`. -/
def scanWrites (path : FPath K) (index : Nat) : List (FWriteRecord K L × Nat) → Bool → Bool × Bool
  | [], overlaps => (true, overlaps)
  | (currentWrite, i) :: rest, overlaps =>
    if currentWrite.visible then
      if index ≤ i ∧ currentWrite.containsPath path then (false, overlaps)
      else if path.contains currentWrite.path then scanWrites path index rest true
      else scanWrites path index rest overlaps
    else scanWrites path index rest overlaps

/-- The search stops at a later visible write over the path; otherwise it has seen whether there is
a visible write below the path. -/
theorem scanWrites_spec (path : FPath K) (index : Nat) (ws : List (FWriteRecord K L × Nat))
    (overlaps : Bool) :
    ((scanWrites path index ws overlaps).1 = false ↔
      ∃ w ∈ ws, w.1.visible = true ∧ index ≤ w.2 ∧ w.1.containsPath path = true) ∧
      ((scanWrites path index ws overlaps).1 = true →
        ((scanWrites path index ws overlaps).2 = true ↔
          overlaps = true ∨ ∃ w ∈ ws, w.1.visible = true ∧ path <+: w.1.path)) := by
  induction ws generalizing overlaps with
  | nil => simp [scanWrites]
  | cons w ws ih =>
    obtain ⟨currentWrite, i⟩ := w
    rw [scanWrites]
    split
    next hvis =>
      split
      next hcon =>
        simp only [true_iff, Bool.false_eq_true, false_implies, and_true]
        exact ⟨(currentWrite, i), List.mem_cons_self, hvis, hcon⟩
      next hcon =>
        split
        next hover =>
          have hpre := (FPath.contains_iff _ _).mp hover
          simp only [List.mem_cons, exists_eq_or_imp, hvis, true_and, hcon, false_or, hpre, true_or,
            or_true, iff_true]
          simpa using ih true
        next hover =>
          have hpre : ¬path <+: currentWrite.path := mt (FPath.contains_iff _ _).mpr hover
          simp only [List.mem_cons, exists_eq_or_imp, hvis, true_and, hcon, false_or, hpre]
          exact ih overlaps
    next hvis =>
      simp only [List.mem_cons, exists_eq_or_imp, hvis, Bool.false_eq_true, false_and, false_or]
      exact ih overlaps

/-- The search, when it starts at the index of the removed record: the records from there on are
those that came after it. -/
theorem scanWrites_records (p : FPath K) (older newer : List (FWriteRecord K L)) :
    let found := scanWrites p older.length (older ++ newer).zipIdx.reverse false
    (found.1 = false ↔ ∃ r ∈ newer, r.visible = true ∧ r.containsPath p = true) ∧
      (found.1 = true →
        (found.2 = true ↔ ∃ r ∈ older ++ newer, r.visible = true ∧ p <+: r.path)) := by
  obtain ⟨hshadow, hover⟩ := scanWrites_spec p older.length (older ++ newer).zipIdx.reverse false
  refine ⟨hshadow.trans ?_, fun hfound => (hover hfound).trans ?_⟩
  · constructor
    · rintro ⟨⟨r, i⟩, hmem, hvis, hi, hcon⟩
      have hget := List.mem_zipIdx_iff_getElem?.mp (List.mem_reverse.mp hmem)
      rw [List.getElem?_append_right hi] at hget
      exact ⟨r, List.mem_of_getElem? hget, hvis, hcon⟩
    · rintro ⟨r, hr, hvis, hcon⟩
      obtain ⟨j, hj, rfl⟩ := List.getElem_of_mem hr
      refine ⟨(newer[j], older.length + j), List.mem_reverse.mpr ?_, hvis, Nat.le_add_right _ _,
        hcon⟩
      rw [List.mem_zipIdx_iff_getElem?, List.getElem?_append_right (Nat.le_add_right _ _),
        Nat.add_sub_cancel_left, List.getElem?_eq_getElem hj]
  · rw [or_iff_right (by simp)]
    constructor
    · rintro ⟨⟨r, i⟩, hmem, hP⟩
      have hget := List.mem_zipIdx_iff_getElem?.mp (List.mem_reverse.mp hmem)
      exact ⟨r, List.mem_of_getElem? hget, hP⟩
    · rintro ⟨r, hr, hP⟩
      obtain ⟨j, hj, rfl⟩ := List.getElem_of_mem hr
      refine ⟨((older ++ newer)[j], j), List.mem_reverse.mpr ?_, hP⟩
      rw [List.mem_zipIdx_iff_getElem?, List.getElem?_eq_getElem hj]

/-! ### Safe removals -/

/-- What the other pending records have to be like for `w` to be taken out exactly: visible ones are
apart from it, made at a path below its path, or later and over its path; and if any is made below
its path, none is hidden. -/
structure RemovalSafe (older : List (FWriteRecord K L)) (w : FWriteRecord K L)
    (newer : List (FWriteRecord K L)) : Prop where
  older_safe : ∀ r ∈ older, r.visible = true → RecordsApart r w ∨ w.path <+: r.path
  newer_safe : ∀ r ∈ newer, r.visible = true →
    RecordsApart r w ∨ w.path <+: r.path ∨ r.containsPath w.path = true
  no_hidden : (∃ r ∈ older ++ newer, r.visible = true ∧ w.path <+: r.path) →
    ∀ r ∈ older ++ newer, r.visible = true

/-- A record that is hidden by a later one leaves no trace. -/
theorem layer_of_shadowed {older newer : List (FWriteRecord K L)} {w : FWriteRecord K L}
    (hsafe : RemovalSafe older w newer)
    (h : ∃ r ∈ newer, r.visible = true ∧ r.containsPath w.path = true) :
    Patch.layer PathMap.empty (pendingWrites (older.filter (·.visible)) ++
        (w.writes ++ pendingWrites (newer.filter (·.visible)))) =
      Patch.layer PathMap.empty (pendingWrites (older.filter (·.visible)) ++
        pendingWrites (newer.filter (·.visible))) := by
  by_cases hempty : w.writes = []
  · rw [hempty, List.nil_append]
  · obtain ⟨x, hx⟩ := List.exists_mem_of_ne_nil _ hempty
    rw [Patch.layer_append,
      Patch.layer_append PathMap.empty _ (pendingWrites (newer.filter (·.visible)))]
    apply Patch.layer_append_of_shadow (p := w.path)
    · exact fun v hv => FWriteRecord.prefix_of_mem_writes hv
    · obtain ⟨r, hr, hvis, hcon⟩ := h
      obtain ⟨y, hy, hyp⟩ := (FWriteRecord.containsPath_iff r w.path).mp hcon
      exact ⟨y, mem_pendingWrites.mpr ⟨r, List.mem_filter.mpr ⟨hr, hvis⟩, hy⟩, hyp⟩
    · -- an older write above the path would touch the record
      intro q s hs hq
      refine Patch.layer_eq_none_iff.mpr ⟨?_, rfl⟩
      intro y hy hyq
      obtain ⟨r, hr, hyr⟩ := mem_pendingWrites.mp hy
      obtain ⟨hr, hvis⟩ := List.mem_filter.mp hr
      have hqw : q <+: w.path := ⟨s, hq.symm⟩
      rcases hsafe.older_safe r hr hvis with hap | hbelow
      · exact (hap x hx y hyr).2 ((hyq.trans hqw).trans (FWriteRecord.prefix_of_mem_writes hx))
      · have hwq := (hbelow.trans (FWriteRecord.prefix_of_mem_writes hyr)).trans hyq
        rw [hq] at hwq
        exact PathMap.not_prefix_of_ne_nil hs hwq

end Scan

variable [Std.TransOrd K]

/-- The removal of the paths of a record that shares nothing with the others. -/
def removePaths (visibleWrites : CompoundWrite K L) (writeToRemove : FWriteRecord K L) :
    CompoundWrite K L :=
  match writeToRemove.written with
  | .overwrite _ => visibleWrites.removeWriteAtPath writeToRemove.path
  | .merge merge =>
    merge.enumerateWrites.foldl
      (fun visibleWrites e => visibleWrites.removeWriteAtPath (writeToRemove.path ++ e.1))
      visibleWrites

/-- Removing the paths of a record removes its writes one by one. -/
theorem removePaths_eq (c : CompoundWrite K L) (w : FWriteRecord K L) :
    removePaths c w = (w.writes.map Prod.fst).foldl CompoundWrite.removeWriteAtPath c := by
  obtain ⟨writeId, path, written, visible⟩ := w
  cases written with
  | overwrite n => rfl
  | merge d =>
    simp only [removePaths, FWriteRecord.writes, CompoundWrite.writes, FImmutableTree.writes,
      CompoundWrite.enumerateWrites, List.map_map, List.foldl_map]
    rfl

variable [Std.LawfulEqOrd K] [DecidableEq K]

/-- `addOverwriteAtPath:newData:writeId:isVisible:`; the assertion on the identifiers traps. -/
def addOverwrite (t : FWriteTree K L) (path : FPath K) (newData : Node K L) (writeId : Int)
    (visible : Bool) : Option (FWriteTree K L) :=
  if writeId > t.lastWriteId then
    some {
      visibleWrites := if visible then t.visibleWrites.addWrite newData path else t.visibleWrites
      allWrites := t.allWrites ++ [{ writeId, path, written := .overwrite newData, visible }]
      lastWriteId := writeId }
  else none

/-- `addMergeAtPath:changedChildren:writeId:`. -/
def addMerge (t : FWriteTree K L) (path : FPath K) (changedChildren : CompoundWrite K L)
    (writeId : Int) : Option (FWriteTree K L) :=
  if writeId > t.lastWriteId then
    some {
      visibleWrites := t.visibleWrites.addCompoundWrite changedChildren path
      allWrites :=
        t.allWrites ++ [{ writeId, path, written := .merge changedChildren, visible := true }]
      lastWriteId := writeId }
  else none

/-- `defaultFilter`: it lets every record through. -/
def defaultFilter (_ : FWriteRecord K L) : Bool := true

/-- `resetTree` with the records that are left. -/
def resetTree (allWrites : List (FWriteRecord K L)) : FWriteTree K L where
  visibleWrites := layerTreeFromWrites allWrites defaultFilter []
  allWrites := allWrites
  lastWriteId := (allWrites.getLast?.map (·.writeId)).getD (-1)

/-- `removeWriteId:`, with the answer whether the write may have been visible. Removing a write
that is not pending traps. -/
def removeWriteId (t : FWriteTree K L) (writeId : Int) : Option (Bool × FWriteTree K L) :=
  (t.allWrites.findIdx? fun record => record.writeId = writeId).bind fun index =>
    t.allWrites[index]?.map fun writeToRemove =>
      let allWrites := t.allWrites.eraseIdx index
      let found :=
        if writeToRemove.visible then
          scanWrites writeToRemove.path index allWrites.zipIdx.reverse false
        else (false, false)
      if found.1 = false then (false, { t with allWrites })
      else if found.2 then (true, resetTree allWrites)
      else (true, { t with allWrites, visibleWrites := removePaths t.visibleWrites writeToRemove })

/-- What a program does to the write tree. -/
inductive Event (K L : Type*) [Ord K]
  | addOverwrite (path : FPath K) (newData : Node K L) (writeId : Int) (visible : Bool)
  | addMerge (path : FPath K) (changedChildren : CompoundWrite K L) (writeId : Int)
  | removeWriteId (writeId : Int)

/-- The write tree as a machine. -/
def step : PartialStep (FWriteTree K L) (Event K L)
  | t, .addOverwrite path newData writeId visible => t.addOverwrite path newData writeId visible
  | t, .addMerge path changedChildren writeId => t.addMerge path changedChildren writeId
  | t, .removeWriteId writeId => (t.removeWriteId writeId).map Prod.snd

/-- A new overwrite keeps the compound write right. -/
theorem Consistent.addOverwrite {t t' : FWriteTree K L} {path : FPath K} {newData : Node K L}
    {writeId : Int} {visible : Bool} (ht : t.Consistent)
    (h : t.addOverwrite path newData writeId visible = some t') : t'.Consistent := by
  rw [FWriteTree.addOverwrite, Option.ite_none_right_eq_some] at h
  obtain ⟨-, h⟩ := h
  obtain rfl := Option.some.inj h
  rw [Consistent] at ht ⊢
  cases visible with
  | true =>
    simp only [if_true, CompoundWrite.patch_addWrite, ht, List.filter_append, pendingWrites,
      List.flatMap_append, Patch.layer_append]
    rfl
  | false => simpa using ht

/-- A new merge keeps the compound write right. -/
theorem Consistent.addMerge {t t' : FWriteTree K L} {path : FPath K} {c : CompoundWrite K L}
    {writeId : Int} (ht : t.Consistent) (h : t.addMerge path c writeId = some t') :
    t'.Consistent := by
  rw [FWriteTree.addMerge, Option.ite_none_right_eq_some] at h
  obtain ⟨-, h⟩ := h
  obtain rfl := Option.some.inj h
  rw [Consistent] at ht ⊢
  simp only [CompoundWrite.patch_addCompoundWrite, ht, List.filter_append, pendingWrites,
    List.flatMap_append, Patch.layer_append]
  simp [FWriteRecord.writes]

/-- How a removal ends, in terms of the records before and after the removed one. -/
inductive RemovalCase (t : FWriteTree K L) (older : List (FWriteRecord K L)) (w : FWriteRecord K L)
    (newer : List (FWriteRecord K L)) : Bool → CompoundWrite K L → Prop
  | hidden (h : w.visible = false) : RemovalCase t older w newer false t.visibleWrites
  | shadowed (visible : w.visible = true)
      (h : ∃ r ∈ newer, r.visible = true ∧ r.containsPath w.path = true) :
      RemovalCase t older w newer false t.visibleWrites
  | rebuilt (visible : w.visible = true)
      (h : ∃ r ∈ older ++ newer, r.visible = true ∧ w.path <+: r.path) :
      RemovalCase t older w newer true (layerTreeFromWrites (older ++ newer) defaultFilter [])
  | removed (visible : w.visible = true)
      (not_shadowed : ∀ r ∈ newer, r.visible = true → r.containsPath w.path = false)
      (not_below : ∀ r ∈ older ++ newer, r.visible = true → ¬w.path <+: r.path) :
      RemovalCase t older w newer true (removePaths t.visibleWrites w)

/-- A removal that reports no change leaves the compound write alone. -/
theorem RemovalCase.eq_visibleWrites {t : FWriteTree K L} {older newer : List (FWriteRecord K L)}
    {w : FWriteRecord K L} {visibleWrites : CompoundWrite K L}
    (h : RemovalCase t older w newer false visibleWrites) : visibleWrites = t.visibleWrites := by
  cases h with
  | hidden h => rfl
  | shadowed hvis h => rfl

/-- Only the removal of a visible write reports a change. -/
theorem RemovalCase.visible_of_true {t : FWriteTree K L} {older newer : List (FWriteRecord K L)}
    {w : FWriteRecord K L} {visibleWrites : CompoundWrite K L}
    (h : RemovalCase t older w newer true visibleWrites) : w.visible = true := by
  cases h with
  | rebuilt hvis h => exact hvis
  | removed hvis hshadow hbelow => exact hvis

/-- A removal takes out the first record with the identifier and ends in one of the cases. -/
theorem removeWriteId_cases {t t' : FWriteTree K L} {writeId : Int} {b : Bool}
    (h : t.removeWriteId writeId = some (b, t')) :
    ∃ older w newer, t.allWrites = older ++ w :: newer ∧ w.writeId = writeId ∧
      (∀ r ∈ older, r.writeId ≠ writeId) ∧ t'.allWrites = older ++ newer ∧
      RemovalCase t older w newer b t'.visibleWrites := by
  obtain ⟨index, hindex, h⟩ := Option.bind_eq_some_iff.mp h
  obtain ⟨w, hw, h⟩ := Option.map_eq_some_iff.mp h
  obtain ⟨hlt, hid, hfirst⟩ := List.findIdx?_eq_some_iff_getElem.mp hindex
  have hsplit : t.allWrites = t.allWrites.take index ++ w :: t.allWrites.drop (index + 1) := by
    rw [List.getElem?_eq_getElem hlt] at hw
    rw [← Option.some.inj hw]
    simp
  have herase : t.allWrites.eraseIdx index =
      t.allWrites.take index ++ t.allWrites.drop (index + 1) := List.eraseIdx_eq_take_drop_succ ..
  have hlen : (t.allWrites.take index).length = index := by
    rw [List.length_take]
    omega
  have hwid : w.writeId = writeId := by
    rw [List.getElem?_eq_getElem hlt] at hw
    rw [← Option.some.inj hw]
    simpa using hid
  have holder : ∀ r ∈ t.allWrites.take index, r.writeId ≠ writeId := by
    intro r hr
    obtain ⟨j, hj, rfl⟩ := List.getElem_of_mem hr
    rw [List.getElem_take]
    simpa using hfirst j (by omega)
  rw [herase] at h
  generalize t.allWrites.take index = older at *
  generalize t.allWrites.drop (index + 1) = newer at *
  refine ⟨older, w, newer, hsplit, hwid, holder, ?_⟩
  obtain ⟨hshadow, hover⟩ := scanWrites_records w.path older newer
  rw [hlen] at hshadow hover
  cases hvis : w.visible with
  | false =>
    obtain ⟨rfl, rfl⟩ : false = b ∧ _ = t' := by simpa [hvis] using h
    exact ⟨rfl, .hidden hvis⟩
  | true =>
    simp only [hvis, if_true] at h
    split at h
    next hfound =>
      obtain ⟨rfl, rfl⟩ := Prod.mk.inj h
      exact ⟨rfl, .shadowed hvis (hshadow.mp hfound)⟩
    next hfound =>
      have hfound' := (Bool.not_eq_false _).mp hfound
      split at h
      next hoverlaps =>
        obtain ⟨rfl, rfl⟩ := Prod.mk.inj h
        exact ⟨rfl, .rebuilt hvis ((hover hfound').mp hoverlaps)⟩
      next hoverlaps =>
        obtain ⟨rfl, rfl⟩ := Prod.mk.inj h
        refine ⟨rfl, .removed hvis ?_ ?_⟩
        · intro r hr hrvis
          by_contra hcon
          exact hfound (hshadow.mpr ⟨r, hr, hrvis, by simpa using hcon⟩)
        · intro r hr hrvis hp
          exact hoverlaps ((hover hfound').mpr ⟨r, hr, hrvis, hp⟩)

/-- Removing paths above which nothing is decided removes what is decided below them. -/
theorem patch_foldl_removeWriteAtPath {ps : List (FPath K)} {c : CompoundWrite K L}
    (hclear : ∀ p ∈ ps, PathMap.Clear c.patch p) (q : FPath K) :
    ((∃ p ∈ ps, p <+: q) → (ps.foldl CompoundWrite.removeWriteAtPath c).patch q = none) ∧
      ((∀ p ∈ ps, ¬p <+: q) →
        (ps.foldl CompoundWrite.removeWriteAtPath c).patch q = c.patch q) := by
  induction ps generalizing c with
  | nil => simp
  | cons p ps ih =>
    obtain ⟨hbelow, hother⟩ :=
      CompoundWrite.patch_removeWriteAtPath (hclear p List.mem_cons_self)
    have hnone : ∀ q, c.patch q = none → (c.removeWriteAtPath p).patch q = none := by
      intro q hq
      by_cases hp : p <+: q
      · obtain ⟨s, rfl⟩ := hp
        exact hbelow s
      · rw [hother q hp, hq]
    have hclear' : ∀ p' ∈ ps, PathMap.Clear (c.removeWriteAtPath p).patch p' :=
      fun p' hp' q r hr hq => hnone q (hclear p' (List.mem_cons_of_mem _ hp') q r hr hq)
    obtain ⟨hin, hout⟩ := ih hclear'
    rw [List.foldl_cons]
    constructor
    · rintro ⟨p', hp', hq⟩
      by_cases hps : ∃ p ∈ ps, p <+: q
      · exact hin hps
      · have hpq : p <+: q := by
          rcases List.mem_cons.mp hp' with rfl | hmem
          · exact hq
          · exact absurd ⟨p', hmem, hq⟩ hps
        obtain ⟨s, rfl⟩ := hpq
        rw [hout fun p hp hpq => hps ⟨p, hp, hpq⟩]
        exact hbelow s
    · intro hq
      rw [hout fun p hp => hq p (List.mem_cons_of_mem _ hp)]
      exact hother q (hq p List.mem_cons_self)

/-- A record apart from all others can be taken out by its paths. -/
theorem patch_removePaths {older newer : List (FWriteRecord K L)} {w : FWriteRecord K L}
    {c : CompoundWrite K L}
    (hc : c.patch = Patch.layer PathMap.empty (pendingWrites older ++
      (w.writes ++ pendingWrites newer)))
    (hapart : ∀ r ∈ older ++ newer, RecordsApart r w) :
    (removePaths c w).patch =
      Patch.layer PathMap.empty (pendingWrites older ++ pendingWrites newer) := by
  have holder : ∀ x ∈ w.writes, ∀ y ∈ pendingWrites older, PathMap.Apart x.1 y.1 := by
    intro x hx y hy
    obtain ⟨r, hr, hyr⟩ := mem_pendingWrites.mp hy
    exact hapart r (List.mem_append_left _ hr) x hx y hyr
  have hnewer : ∀ x ∈ w.writes, ∀ y ∈ pendingWrites newer, PathMap.Apart x.1 y.1 := by
    intro x hx y hy
    obtain ⟨r, hr, hyr⟩ := mem_pendingWrites.mp hy
    exact hapart r (List.mem_append_right _ hr) x hx y hyr
  have hclear : ∀ p ∈ w.writes.map Prod.fst, PathMap.Clear c.patch p := by
    intro p hp q s hs hq
    obtain ⟨x, hx, rfl⟩ := List.mem_map.mp hp
    have hqx : q <+: x.1 := ⟨s, hq.symm⟩
    rw [hc]
    refine Patch.layer_eq_none_iff.mpr ⟨?_, rfl⟩
    intro y hy hyq
    rcases List.mem_append.mp hy with hy | hy
    · exact (holder x hx y hy).2 (hyq.trans hqx)
    · rcases List.mem_append.mp hy with hy | hy
      · -- the writes of the record itself are apart from each other
        by_cases hxy : x = y
        · rw [← hxy, hq] at hyq
          exact PathMap.not_prefix_of_ne_nil hs hyq
        · exact (w.apart_of_mem_writes hx hy hxy).2 (hyq.trans hqx)
      · exact (hnewer x hx y hy).2 (hyq.trans hqx)
  ext1 q
  obtain ⟨hin, hout⟩ := patch_foldl_removeWriteAtPath hclear q
  obtain ⟨hgone, hkept⟩ := Patch.layer_append_of_apart hnewer holder q
  rw [removePaths_eq]
  by_cases hq : ∃ x ∈ w.writes, x.1 <+: q
  · rw [hgone hq]
    obtain ⟨x, hx, hxq⟩ := hq
    exact hin ⟨x.1, List.mem_map.mpr ⟨x, hx, rfl⟩, hxq⟩
  · have hq' : ∀ x ∈ w.writes, ¬x.1 <+: q := fun x hx hxq => hq ⟨x, hx, hxq⟩
    rw [← hkept hq', hout, hc, List.append_assoc]
    intro p hp
    obtain ⟨x, hx, rfl⟩ := List.mem_map.mp hp
    exact hq' x hx

/-- A safe removal keeps the compound write in step with the records. -/
theorem Consistent.removal {t : FWriteTree K L} {older newer : List (FWriteRecord K L)}
    {w : FWriteRecord K L} {b : Bool} {visibleWrites : CompoundWrite K L} (ht : t.Consistent)
    (hall : t.allWrites = older ++ w :: newer) (hsafe : RemovalSafe older w newer)
    (hcase : RemovalCase t older w newer b visibleWrites) :
    visibleWrites.patch =
      Patch.layer PathMap.empty (pendingWrites ((older ++ newer).filter (·.visible))) := by
  rw [Consistent, hall] at ht
  have hvisible : w.visible = true → t.visibleWrites.patch =
      Patch.layer PathMap.empty (pendingWrites (older.filter (·.visible)) ++
        (w.writes ++ pendingWrites (newer.filter (·.visible)))) := by
    intro hvis
    rw [ht, List.filter_append, List.filter_cons, if_pos hvis, pendingWrites_append,
      pendingWrites_cons]
  cases hcase with
  | hidden h => simpa [List.filter_append, List.filter_cons, h] using ht
  | shadowed hvis h =>
    rw [hvisible hvis, layer_of_shadowed hsafe h, List.filter_append, pendingWrites_append]
  | rebuilt hvis h =>
    have hall := hsafe.no_hidden h
    rw [patch_layerTreeFromWrites]
    congr 2
    exact List.filter_congr fun r hr => (hall r hr).symm
  | removed hvis hshadow hbelow =>
    rw [List.filter_append, pendingWrites_append]
    refine patch_removePaths (hvisible hvis) ?_
    intro r hr
    rcases List.mem_append.mp hr with hr | hr
    · obtain ⟨hr, hrvis⟩ := List.mem_filter.mp hr
      rcases hsafe.older_safe r hr hrvis with hap | hp
      · exact hap
      · exact absurd hp (hbelow r (List.mem_append_left _ hr) hrvis)
    · obtain ⟨hr, hrvis⟩ := List.mem_filter.mp hr
      rcases hsafe.newer_safe r hr hrvis with hap | hp | hcon
      · exact hap
      · exact absurd hp (hbelow r (List.mem_append_right _ hr) hrvis)
      · rw [hshadow r hr hrvis] at hcon
        contradiction

/-- A step that removes no write, or removes one safely. -/
def SafeStep (t : FWriteTree K L) (e : Event K L) : Prop :=
  ∀ writeId older w newer, e = .removeWriteId writeId → t.allWrites = older ++ w :: newer →
    w.writeId = writeId → RemovalSafe older w newer

/-- A safe step keeps the compound write right. -/
theorem Consistent.step {t t' : FWriteTree K L} {e : Event K L} (ht : t.Consistent)
    (hsafe : SafeStep t e) (h : step t e = some t') : t'.Consistent := by
  cases e with
  | addOverwrite path newData writeId visible => exact ht.addOverwrite h
  | addMerge path changedChildren writeId => exact ht.addMerge h
  | removeWriteId writeId =>
    obtain ⟨⟨b, t''⟩, hremove, rfl⟩ := Option.map_eq_some_iff.mp h
    obtain ⟨older, w, newer, hall, hid, -, hall', hcase⟩ := removeWriteId_cases hremove
    rw [Consistent, hall']
    exact ht.removal hall (hsafe writeId older w newer rfl hall hid) hcase

/-- In a run whose removals are safe, the compound write that is kept up to date is always the one
that rebuilding it from the visible pending writes gives. -/
theorem visibleWrites_eq_rebuild {es : List (Event K L)}
    (hsafe : PartialStep.EachStep step SafeStep init es) :
    PartialStep.Along step
      (fun t => t.visibleWrites = layerTreeFromWrites t.allWrites (·.visible) []) init es := by
  refine PartialStep.along_of_eachStep (K := Consistent) ?_ ?_ es consistent_init hsafe
  · intro t ht
    exact CompoundWrite.ext_patch (ht.trans (patch_layerTreeFromWrites _ _).symm)
  · exact fun t e t' ht hC h => ht.step hC h

/-- An example: a write is answered while another one is pending below its path. -/
theorem visibleWrites_eq_rebuild_answered_above :
    PartialStep.Along step
      (fun t => t.visibleWrites = layerTreeFromWrites t.allWrites (·.visible) []) init
      [.addOverwrite [.a] (⟨.leaf 5, .leaf 5⟩ : Node PlainKey Nat) 0 true,
        .addOverwrite [.a, .b] ⟨.leaf 6, .leaf 6⟩ 1 true, .removeWriteId 0] := by
  apply visibleWrites_eq_rebuild
  refine ⟨by simp [SafeStep], fun t ht => ⟨by simp [SafeStep], fun t' ht' => ⟨?_, ?_⟩⟩⟩
  · obtain rfl := Option.some.inj ht
    obtain rfl := Option.some.inj ht'
    rintro writeId older w newer he hall hid
    obtain rfl : (0 : Int) = writeId := by simpa using he
    cases older with
    | nil =>
      obtain ⟨rfl, rfl⟩ := List.cons.inj hall
      exact ⟨by simp, by simp, by simp⟩
    | cons r older =>
      -- only the first record has the identifier
      have htail : _ = older ++ w :: newer := (List.cons.inj hall).2
      have hw : w ∈ older ++ w :: newer := by simp
      rw [← htail] at hw
      obtain rfl := List.mem_singleton.mp hw
      contradiction
  · exact fun t'' _ => trivial

/-! ### Writes at sibling paths -/

/-- The path that an event writes to, if it writes. -/
def Event.path? : Event K L → Option (FPath K)
  | .addOverwrite path _ _ _ => some path
  | .addMerge path _ _ => some path
  | .removeWriteId _ => none

/-- Whether an event adds a write that is not to be seen. -/
def Event.hidden : Event K L → Bool
  | .addOverwrite _ _ _ visible => !visible
  | _ => false

/-- All pending writes are visible and made at paths of `S`. -/
def Within (S : Set (FPath K)) (t : FWriteTree K L) : Prop :=
  ∀ r ∈ t.allWrites, r.visible = true ∧ r.path ∈ S

/-- Writes at the given paths stay within them. -/
theorem Within.step {S : Set (FPath K)} {t t' : FWriteTree K L} {e : Event K L} (ht : Within S t)
    (hpath : ∀ p, e.path? = some p → p ∈ S) (hvis : e.hidden = false)
    (h : step t e = some t') : Within S t' := by
  cases e with
  | addOverwrite path newData writeId visible =>
    obtain ⟨-, h⟩ := Option.ite_none_right_eq_some.mp h
    obtain rfl := Option.some.inj h
    intro r hr
    rcases List.mem_append.mp hr with hr | hr
    · exact ht r hr
    · obtain rfl := List.mem_singleton.mp hr
      exact ⟨by simpa [Event.hidden] using hvis, hpath path rfl⟩
  | addMerge path changedChildren writeId =>
    obtain ⟨-, h⟩ := Option.ite_none_right_eq_some.mp h
    obtain rfl := Option.some.inj h
    intro r hr
    rcases List.mem_append.mp hr with hr | hr
    · exact ht r hr
    · obtain rfl := List.mem_singleton.mp hr
      exact ⟨rfl, hpath path rfl⟩
  | removeWriteId writeId =>
    obtain ⟨⟨b, t''⟩, hremove, rfl⟩ := Option.map_eq_some_iff.mp h
    obtain ⟨older, w, newer, hall, -, -, hall', -⟩ := removeWriteId_cases hremove
    intro r hr
    apply ht r
    rw [hall'] at hr
    rw [hall]
    rcases List.mem_append.mp hr with hr | hr
    · exact List.mem_append_left _ hr
    · exact List.mem_append_right _ (List.mem_cons_of_mem _ hr)

omit [Std.TransOrd K] [Std.LawfulEqOrd K] in
/-- Among writes at siblings every removal is safe. -/
theorem Within.safeStep {S : Set (FPath K)} {t : FWriteTree K L} (ht : Within S t)
    (hS : ∀ p ∈ S, ∀ q ∈ S, p = q ∨ PathMap.Apart p q) (e : Event K L) : SafeStep t e := by
  rintro writeId older w newer rfl hall -
  have hw := ht w (by simp [hall])
  have hother : ∀ r ∈ older ++ newer,
      r.visible = true ∧ (RecordsApart r w ∨ w.path <+: r.path) := by
    intro r hr
    have hr' : r ∈ t.allWrites := by
      rw [hall]
      rcases List.mem_append.mp hr with hr | hr
      · exact List.mem_append_left _ hr
      · exact List.mem_append_right _ (List.mem_cons_of_mem _ hr)
    obtain ⟨hvis, hpath⟩ := ht r hr'
    refine ⟨hvis, ?_⟩
    rcases hS w.path hw.2 r.path hpath with heq | hap
    · exact Or.inr (by rw [heq])
    · exact Or.inl (recordsApart_of_apart hap)
  refine ⟨?_, ?_, ?_⟩
  · exact fun r hr _ => (hother r (List.mem_append_left _ hr)).2
  · intro r hr _
    rcases (hother r (List.mem_append_right _ hr)).2 with h | h
    · exact Or.inl h
    · exact Or.inr (Or.inl h)
  · exact fun _ r hr => (hother r hr).1

/-- In a run whose visible writes are all made at paths none of which is strictly below another, in
whatever order they are answered, the compound write is always the rebuilt one. -/
theorem visibleWrites_eq_rebuild_of_siblings {es : List (Event K L)} {S : Set (FPath K)}
    (hS : ∀ p ∈ S, ∀ q ∈ S, p = q ∨ PathMap.Apart p q)
    (hes : ∀ e ∈ es, e.hidden = false ∧ ∀ p, e.path? = some p → p ∈ S) :
    PartialStep.Along step
      (fun t => t.visibleWrites = layerTreeFromWrites t.allWrites (·.visible) []) init es := by
  apply visibleWrites_eq_rebuild
  refine PartialStep.eachStep_of_inv (K := Within S) es ?_ (by simp [Within, init])
  intro e he t ht
  exact ⟨ht.safeStep hS e, fun t' h => ht.step (hes e he).2 (hes e he).1 h⟩

/-- An example: two writes at siblings are answered in the opposite order. -/
theorem visibleWrites_eq_rebuild_of_siblings_answered_backwards :
    PartialStep.Along step
      (fun t => t.visibleWrites = layerTreeFromWrites t.allWrites (·.visible) []) init
      [.addOverwrite [.a] (⟨.leaf 5, .leaf 5⟩ : Node PlainKey Nat) 0 true,
        .addOverwrite [.b] ⟨.leaf 6, .leaf 6⟩ 1 true, .removeWriteId 1, .removeWriteId 0] := by
  apply visibleWrites_eq_rebuild_of_siblings (S := {[.a], [.b]})
  · simp [PathMap.Apart, PlainKey.a_ne_b, PlainKey.a_ne_b.symm]
  · simp [Event.hidden, Event.path?]

end FWriteTree

end Database
