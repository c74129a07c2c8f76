import DateCourse.Database.ImmutableTree

/-!
# Compound writes

A compound write is a set of writes to be made together, kept as a tree of the nodes to be written
at their paths. A write below another one is merged into it.

## Main definitions

* `CompoundWrite`, with `addWrite`, `addCompoundWrite`, `removeWriteAtPath`, `completeNodeAtPath`,
  `childCompoundWriteAtPath` and `applyToNode`;
* `CompoundWrite.patch`: what it decides about each path.

## Main results

* `CompoundWrite.patch_addWrite`, `patch_addCompoundWrite`, `patch_removeWriteAtPath` and
  `patch_childCompoundWriteAtPath`: the operations on patches;
* `CompoundWrite.leaves_applyToNode`: applying a compound write is applying its patch;
* `CompoundWrite.ext_patch`: compound writes that decide the same are equal.
-/

namespace Database

/-- An `FCompoundWrite`. -/
structure CompoundWrite (K L : Type*) [Ord K] where
  writeTree : FImmutableTree K (Node K L)
  wf : writeTree.WF

namespace CompoundWrite

variable {K L : Type*} [Ord K]

/-- What the compound write decides. -/
def patch (c : CompoundWrite K L) : Patch K L := c.writeTree.patch

/-- The writes that `enumerateWrites:` visits. -/
def enumerateWrites (c : CompoundWrite K L) : List (FPath K × Node K L) := c.writeTree.entries

/-- The writes as writes of leaves. -/
def writes (c : CompoundWrite K L) : List (FPath K × PathMap K L) := c.writeTree.writes

/-- `+[FCompoundWrite emptyWrite]`. -/
def emptyWrite : CompoundWrite K L := ⟨FImmutableTree.empty, FImmutableTree.wf_empty⟩

/-- `isEmpty`. -/
def isEmpty (c : CompoundWrite K L) : Bool := c.writeTree.isEmpty

/-- `rootWrite`. -/
def rootWrite (c : CompoundWrite K L) : Option (Node K L) := c.writeTree.value

/-- `childCompoundWrites`, in key order. -/
def childCompoundWrites (c : CompoundWrite K L) : List (K × CompoundWrite K L) :=
  c.writeTree.children.pmap (fun e he => (e.1, ⟨e.2, he⟩)) c.wf.of_mem_children

/-- `completeChildren`. -/
def completeChildren (c : CompoundWrite K L) : List (K × Node K L) :=
  match c.writeTree.value with
  | some node => node.enumerateChildren
  | none => c.writeTree.children.filterMap fun e => e.2.value.map fun node => (e.1, node)

/-- The empty compound write decides nothing. -/
@[simp]
theorem patch_emptyWrite : (emptyWrite : CompoundWrite K L).patch = PathMap.empty :=
  FImmutableTree.patch_empty

theorem down_patch (c : CompoundWrite K L) : c.patch.Down := FImmutableTree.down_patch c.writeTree

/-- Only the empty compound write is empty. -/
theorem isEmpty_iff {c : CompoundWrite K L} : c.isEmpty = true ↔ c = emptyWrite := by
  obtain ⟨t, ht⟩ := c
  rw [isEmpty, FImmutableTree.isEmpty_iff]
  constructor
  · rintro rfl
    rfl
  · intro h
    exact congrArg writeTree h

/-- A write at the root decides everything. -/
theorem patch_of_rootWrite {c : CompoundWrite K L} {n : Node K L} (h : c.rootWrite = some n) :
    c.patch = Patch.total n.leaves := by
  obtain ⟨⟨v, cs⟩, hc⟩ := c
  obtain rfl : v = some n := h
  ext1 q
  exact FImmutableTree.patch_some n cs q

/-- A compound write that decides everything is a single write. -/
theorem enumerateWrites_of_patch_nil {c : CompoundWrite K L} (h : c.patch [] ≠ none) :
    ∃ n : Node K L, c.enumerateWrites = [([], n)] ∧ ∀ q, c.patch q = some (n.leaves q) := by
  obtain ⟨⟨v, cs⟩, hc⟩ := c
  cases v with
  | none => exact absurd (FImmutableTree.patch_none_nil cs) h
  | some n =>
    cases hc with
    | node v cs hsorted hne hleaf hwf =>
      obtain rfl := hleaf (by simp)
      refine ⟨n, ?_, fun q => FImmutableTree.patch_some n [] q⟩
      simp [enumerateWrites, FImmutableTree.entries, FImmutableTree.childEntries]

section Find

variable [DecidableEq K]

/-- `completeNodeAtPath:`. -/
def completeNodeAtPath (c : CompoundWrite K L) (path : FPath K) : Option (Node K L) :=
  match c.writeTree.findRootMostValueAndPath path with
  | some rootMost =>
    -- the root-most path is above `path`, so that the relative path exists
    let relativePath := (FPath.relativePathFrom rootMost.1 path).getD []
    some (rootMost.2.getChild relativePath)
  | none => none

/-- `hasCompleteWriteAtPath:`. -/
def hasCompleteWriteAtPath (c : CompoundWrite K L) (path : FPath K) : Bool :=
  (c.completeNodeAtPath path).isSome

/-- `childCompoundWriteAtPath:`. -/
def childCompoundWriteAtPath (c : CompoundWrite K L) (path : FPath K) : CompoundWrite K L :=
  if path.isEmpty then c
  else
    match c.completeNodeAtPath path with
    | some shadowingNode => ⟨.node (some shadowingNode) [], FImmutableTree.wf_value shadowingNode⟩
    | none => ⟨c.writeTree.subtreeAtPath path, c.wf.subtreeAtPath path⟩

/-- A node that is complete at a path is what is decided there. -/
theorem patch_of_completeNodeAtPath {c : CompoundWrite K L} {p : FPath K} {n : Node K L}
    (h : c.completeNodeAtPath p = some n) (q : FPath K) :
    c.patch (p ++ q) = some (n.leaves q) := by
  rw [completeNodeAtPath] at h
  split at h
  next rootMost hroot =>
    obtain ⟨p₀, v⟩ := rootMost
    obtain ⟨⟨r, rfl⟩, hpatch, -⟩ := FImmutableTree.patch_of_findRootMost hroot
    simp only [FPath.relativePathFrom_append, Option.getD_some, Option.some.injEq] at h
    rw [List.append_assoc, patch, hpatch, ← h, Node.leaves_getChild]
    rfl
  next => contradiction

/-- No complete node is written at the paths that are left open. -/
theorem completeNodeAtPath_eq_none_iff {c : CompoundWrite K L} {p : FPath K} :
    c.completeNodeAtPath p = none ↔ c.patch p = none := by
  constructor
  · intro h
    rw [completeNodeAtPath] at h
    split at h
    next => contradiction
    next hroot => exact FImmutableTree.patch_of_findRootMost_none hroot
  · intro h
    by_contra hne
    obtain ⟨n, hn⟩ := Option.ne_none_iff_exists'.mp hne
    have hp := patch_of_completeNodeAtPath hn []
    rw [List.append_nil, h] at hp
    contradiction

/-- The compound write below a path decides what is decided there. -/
@[simp]
theorem patch_childCompoundWriteAtPath (c : CompoundWrite K L) (p : FPath K) :
    (c.childCompoundWriteAtPath p).patch = PathMap.sub c.patch p := by
  rw [childCompoundWriteAtPath]
  split
  next hp =>
    rw [List.isEmpty_iff.mp hp, PathMap.sub_nil]
  next hp =>
    split
    next n hn =>
      ext1 q
      rw [PathMap.sub_apply, patch_of_completeNodeAtPath hn]
      exact FImmutableTree.patch_some n [] q
    next hnone => exact FImmutableTree.patch_subtreeAtPath (completeNodeAtPath_eq_none_iff.mp hnone)

end Find

variable [Std.LawfulEqOrd K]

/-- What a compound write decides is what its writes amount to. -/
theorem patch_eq_layer (c : CompoundWrite K L) : c.patch = Patch.layer PathMap.empty c.writes :=
  c.wf.patch_eq_layer

/-- A child compound write decides what is decided below its key. -/
theorem patch_of_mem_childCompoundWrites {c : CompoundWrite K L} {e : K × CompoundWrite K L}
    (he : e ∈ c.childCompoundWrites) : e.2.patch = PathMap.sub c.patch [e.1] := by
  obtain ⟨⟨v, cs⟩, hc⟩ := c
  obtain ⟨⟨k, t⟩, hmem, rfl⟩ := List.mem_pmap.mp he
  cases hc with
  | node v cs hsorted hne hleaf hwf =>
    obtain rfl : v = none := by
      by_contra hv
      rw [FImmutableTree.children, hleaf hv] at hmem
      simp at hmem
    ext1 q
    have hfind : SortedAssoc.find cs k = some t := (SortedAssoc.find_eq_some_iff hsorted).mpr hmem
    rw [PathMap.sub_apply]
    change t.patch q = (FImmutableTree.node none cs).patch (k :: q)
    rw [FImmutableTree.patch_none_cons, FImmutableTree.child, FImmutableTree.children, hfind,
      Option.getD_some]

/-- There is a child compound write where something is decided below a key. -/
theorem exists_childCompoundWrite {c : CompoundWrite K L} (hroot : c.patch [] = none) {k : K}
    {q : FPath K} (h : c.patch (k :: q) ≠ none) : ∃ e ∈ c.childCompoundWrites, e.1 = k := by
  obtain ⟨⟨v, cs⟩, hc⟩ := c
  cases v with
  | some n => simp [patch, FImmutableTree.patch_some] at hroot
  | none =>
    rw [patch, FImmutableTree.patch_none_cons, FImmutableTree.child, FImmutableTree.children] at h
    cases hfind : SortedAssoc.find cs k with
    | none => simp [hfind] at h
    | some t =>
      obtain ⟨k', hmem, hk⟩ := SortedAssoc.exists_of_find_eq_some hfind
      rw [← Std.LawfulEqOrd.eq_of_compare hk] at hmem
      exact ⟨_, List.mem_pmap.mpr ⟨(k, t), hmem, rfl⟩, rfl⟩

/-- The writes are made at paths apart from each other. -/
theorem pairwise_apart_writes (c : CompoundWrite K L) :
    c.writes.Pairwise fun v w => PathMap.Apart v.1 w.1 :=
  List.pairwise_map.mpr c.wf.pairwise_apart

/-- So they are as seen from above. -/
theorem pairwise_apart_map_writes (c : CompoundWrite K L) (p : FPath K) :
    (c.writes.map fun w => (p ++ w.1, w.2)).Pairwise fun v w => PathMap.Apart v.1 w.1 := by
  refine List.pairwise_map.mpr (c.pairwise_apart_writes.imp fun h => ?_)
  exact PathMap.apart_append_append.mpr h

/-- The writes of a compound write below a path. -/
theorem layer_map_writes (c : CompoundWrite K L) (p : FPath K) :
    Patch.layer PathMap.empty (c.writes.map fun w => (p ++ w.1, w.2)) = Patch.shift p c.patch := by
  rw [c.patch_eq_layer, ← Patch.layer_map_append, Patch.shift_empty]

variable [Std.TransOrd K]

/-- Compound writes that decide the same are equal. -/
theorem ext_patch {c d : CompoundWrite K L} (h : c.patch = d.patch) : c = d := by
  obtain ⟨s, hs⟩ := c
  obtain ⟨t, ht⟩ := d
  obtain rfl : s = t := hs.ext_patch ht h
  rfl

/-- Only the empty compound write decides nothing. -/
theorem isEmpty_iff_patch {c : CompoundWrite K L} : c.isEmpty = true ↔ c.patch = PathMap.empty := by
  rw [isEmpty_iff]
  constructor
  · rintro rfl
    exact patch_emptyWrite
  · intro h
    exact ext_patch (h.trans patch_emptyWrite.symm)

/-- `removeWriteAtPath:`. -/
def removeWriteAtPath (c : CompoundWrite K L) (path : FPath K) : CompoundWrite K L :=
  if path.isEmpty then emptyWrite
  else ⟨c.writeTree.setTree path .empty, c.wf.setTree_empty path⟩

/-- `applyToNode:`. -/
def applyToNode (c : CompoundWrite K L) (n : Node K L) : Node K L :=
  c.writeTree.applySubtreeWrite [] n

/-- Applying a compound write is applying its patch. -/
@[simp]
theorem leaves_applyToNode (c : CompoundWrite K L) (n : Node K L) :
    (c.applyToNode n).leaves = c.patch.apply n.leaves :=
  FImmutableTree.leaves_applySubtreeWrite c.wf n

/-- A child compound write makes of a child what the compound write makes of it. -/
theorem applyToNode_of_mem_childCompoundWrites {c : CompoundWrite K L} {e : K × CompoundWrite K L}
    (he : e ∈ c.childCompoundWrites) (n : Node K L) :
    e.2.applyToNode (n.getImmediateChild e.1) = (c.applyToNode n).getImmediateChild e.1 := by
  apply Node.ext_leaves
  rw [leaves_applyToNode, patch_of_mem_childCompoundWrites he, Node.leaves_getImmediateChild,
    Node.leaves_getImmediateChild, leaves_applyToNode, Patch.sub_apply]

/-- Where nothing is decided above it, removing a write removes what is decided below it. -/
theorem patch_removeWriteAtPath {c : CompoundWrite K L} {p : FPath K}
    (h : PathMap.Clear c.patch p) :
    (∀ q, (c.removeWriteAtPath p).patch (p ++ q) = none) ∧
      ∀ q, ¬p <+: q → (c.removeWriteAtPath p).patch q = c.patch q := by
  rw [removeWriteAtPath]
  split
  next hp =>
    obtain rfl := List.isEmpty_iff.mp hp
    exact ⟨fun q => by rw [patch_emptyWrite]; rfl, fun q hq => absurd List.nil_prefix hq⟩
  next hp =>
    obtain ⟨hbelow, hother⟩ := FImmutableTree.patch_setTree (s := .empty) c.wf h
    refine ⟨fun q => ?_, hother⟩
    have hq := hbelow q
    rw [FImmutableTree.patch_empty] at hq
    exact hq

variable [DecidableEq K]

/-- `addWrite:atPath:`. -/
def addWrite (c : CompoundWrite K L) (n : Node K L) (path : FPath K) : CompoundWrite K L :=
  ⟨c.writeTree.addWrite n path, (FImmutableTree.addWrite_spec c.wf n path).1⟩

/-- `addCompoundWrite:atPath:`. -/
def addCompoundWrite (c d : CompoundWrite K L) (path : FPath K) : CompoundWrite K L :=
  d.enumerateWrites.foldl (fun newWrite e => newWrite.addWrite e.2 (path ++ e.1)) c

/-- Adding a write is writing to the patch. -/
@[simp]
theorem patch_addWrite (c : CompoundWrite K L) (n : Node K L) (p : FPath K) :
    (c.addWrite n p).patch = c.patch.write p n.leaves :=
  (FImmutableTree.addWrite_spec c.wf n p).2

/-- Adding a compound write is making its writes one after the other. -/
theorem patch_addCompoundWrite (c d : CompoundWrite K L) (p : FPath K) :
    (c.addCompoundWrite d p).patch = c.patch.layer (d.writes.map fun w => (p ++ w.1, w.2)) := by
  have hfold : ∀ (es : List (FPath K × Node K L)) (c : CompoundWrite K L),
      (es.foldl (fun newWrite e => newWrite.addWrite e.2 (p ++ e.1)) c).patch =
        c.patch.layer (es.map fun e => (p ++ e.1, e.2.leaves)) := by
    intro es
    induction es with
    | nil => exact fun _ => rfl
    | cons e es ih =>
      intro c
      rw [List.foldl_cons, ih, patch_addWrite]
      rfl
  rw [addCompoundWrite, hfold, writes, FImmutableTree.writes, List.map_map]
  rfl

/-- Adding a compound write is adding what it decides. -/
theorem patch_addCompoundWrite_eq_stack (c d : CompoundWrite K L) (p : FPath K) :
    (c.addCompoundWrite d p).patch = Patch.stack c.patch (Patch.shift p d.patch) := by
  rw [patch_addCompoundWrite, Patch.layer_eq_stack (d.pairwise_apart_map_writes p),
    layer_map_writes]

end CompoundWrite

end Database
