import DateCourse.Database.View

/-!
# The event cache and the pending writes

The event cache of a view is meant to be its server cache with the pending writes on top. The
processor does not compute it anew for each operation but only where the operation may have changed
it. Here it is shown that this comes to the same, provided that the server sends no leaf strictly
above a pending write.

## Main definitions

* `FWriteTreeRef.eventCache`: a node with the pending writes on top;
* `Synced`: a complete event cache is the server cache with the pending writes on top;
* `FOperation.Accounts`: the operation tells how the pending writes have changed.

## Main results

* `synced_serverOverwrite`, `synced_serverMerge`, `synced_listenComplete`: data from the server keep
  the caches in sync;
* `synced_userOverwrite`, `synced_userMerge`: so do writes of the user;
* `synced_ack`, `synced_revert`: so do the answers to writes;
* `synced_process`: all operations in one statement.
-/

namespace Database

variable {K L : Type*} [Ord K]

/-! ## What the pending writes make of a node -/

namespace FWriteTreeRef

/-- What the pending writes decide at the location. -/
def patch (r : FWriteTreeRef K L) : Patch K L := PathMap.sub r.visibleWrites.patch r.path

/-- The pending writes as seen from a child. -/
theorem patch_childWriteTreeRef (r : FWriteTreeRef K L) (k : K) :
    (r.childWriteTreeRef k).patch = PathMap.sub r.patch [k] := (PathMap.sub_sub _ _ _).symm

/-- What is decided at a path is decided below it. -/
theorem down_patch (r : FWriteTreeRef K L) : r.patch.Down := by
  intro q s hq
  have h := r.visibleWrites.down_patch (r.path ++ q) s hq
  rwa [List.append_assoc] at h

variable [DecidableEq K]

/-- No write shadows the paths that are left open. -/
theorem shadowingWriteAtPath_eq_none_iff {r : FWriteTreeRef K L} {p : FPath K} :
    r.shadowingWriteAtPath p = none ↔ r.patch p = none :=
  CompoundWrite.completeNodeAtPath_eq_none_iff

/-- A write shadows the paths that are decided. -/
theorem isSome_shadowingWriteAtPath_iff {r : FWriteTreeRef K L} {p : FPath K} :
    (r.shadowingWriteAtPath p).isSome = true ↔ r.patch p ≠ none :=
  Option.isSome_iff_ne_none.trans shadowingWriteAtPath_eq_none_iff.not

variable [Std.TransOrd K]

/-- A node with the pending writes at the location on top. -/
def eventCache (r : FWriteTreeRef K L) (n : Node K L) : Node K L :=
  (r.visibleWrites.childCompoundWriteAtPath r.path).applyToNode n

variable [Std.LawfulEqOrd K]

/-- The event cache is the data of the server with the patch applied. -/
@[simp]
theorem leaves_eventCache (r : FWriteTreeRef K L) (n : Node K L) :
    (r.eventCache n).leaves = r.patch.apply n.leaves := by
  rw [eventCache, CompoundWrite.leaves_applyToNode, CompoundWrite.patch_childCompoundWriteAtPath]
  rfl

/-- The part of the event cache below a path. -/
theorem getChild_eventCache (r : FWriteTreeRef K L) (n : Node K L) (p : FPath K) :
    ((r.eventCache n).getChild p).leaves =
      Patch.apply (PathMap.sub r.patch p) (n.leaves.sub p) := by
  rw [Node.leaves_getChild, leaves_eventCache, Patch.sub_apply]

/-- The children of the event cache are the event caches of the children. -/
theorem getImmediateChild_eventCache (r : FWriteTreeRef K L) (n : Node K L) (k : K) :
    (r.eventCache n).getImmediateChild k =
      (r.childWriteTreeRef k).eventCache (n.getImmediateChild k) := by
  apply Node.ext_leaves
  rw [Node.leaves_getImmediateChild, leaves_eventCache, leaves_eventCache, Patch.sub_apply,
    patch_childWriteTreeRef, Node.leaves_getImmediateChild]

/-- Under a write at the location the event cache does not depend on the node. -/
theorem eventCache_congr_of_decided {r : FWriteTreeRef K L} (h : r.patch [] ≠ none)
    (n m : Node K L) : r.eventCache n = r.eventCache m := by
  apply Node.ext_leaves
  ext1 q
  obtain ⟨v, hv⟩ : ∃ v, r.patch q = some v :=
    Option.ne_none_iff_exists'.mp (r.down_patch [] q h)
  rw [leaves_eventCache, leaves_eventCache, Patch.apply_of_some hv, Patch.apply_of_some hv]

/-- Without pending writes the event cache is the data of the server. -/
theorem eventCache_of_patch_empty {r : FWriteTreeRef K L} (h : r.patch = PathMap.empty)
    (n : Node K L) : r.eventCache n = n := by
  apply Node.ext_leaves
  rw [leaves_eventCache, h, Patch.apply_empty]

/-- A write over a path is what the event cache has there. -/
theorem completeNodeAtPath_eq {r : FWriteTreeRef K L} {p : FPath K} {m : Node K L}
    (h : r.visibleWrites.completeNodeAtPath (r.path ++ p) = some m) (n : Node K L) :
    m = (r.eventCache n).getChild p := by
  apply Node.ext_leaves
  ext1 q
  rw [getChild_eventCache, Patch.apply_of_some]
  rw [PathMap.sub_apply, patch, PathMap.sub_apply, ← List.append_assoc]
  exact CompoundWrite.patch_of_completeNodeAtPath h q

/-- Making the writes below a path to the part there gives the part of the event cache. -/
theorem applyToNode_childCompoundWriteAtPath (r : FWriteTreeRef K L) (n : Node K L) (p : FPath K) :
    (r.visibleWrites.childCompoundWriteAtPath (r.path ++ p)).applyToNode (n.getChild p) =
      (r.eventCache n).getChild p := by
  apply Node.ext_leaves
  rw [getChild_eventCache, CompoundWrite.leaves_applyToNode,
    CompoundWrite.patch_childCompoundWriteAtPath, Node.leaves_getChild, ← PathMap.sub_sub]
  rfl

/-- The code calculates the event cache from complete data of the server. -/
theorem calculateCompleteEventCache_some (r : FWriteTreeRef K L) (n : Node K L) :
    r.calculateCompleteEventCache (some n) = some (r.eventCache n) := by
  rw [calculateCompleteEventCache]
  cases h : r.visibleWrites.completeNodeAtPath r.path with
  | some m =>
    have hm := completeNodeAtPath_eq (r := r) (p := []) (by rw [List.append_nil]; exact h) n
    exact congrArg some hm
  | none =>
    simp only [Option.isNone_some, Bool.false_and, Bool.false_eq_true, if_false, Option.getD_some]
    split
    next hempty =>
      rw [eventCache_of_patch_empty]
      have := CompoundWrite.isEmpty_iff_patch.mp hempty
      rwa [CompoundWrite.patch_childCompoundWriteAtPath] at this
    next => rfl

/-- At an open path the code calculates the part of the event cache. -/
theorem calculateEventCacheAfterServerOverwrite_of_undecided {r : FWriteTreeRef K L} {p : FPath K}
    (h : r.patch p = none) (n : Node K L) :
    r.calculateEventCacheAfterServerOverwrite p n = some ((r.eventCache n).getChild p) := by
  have hnone : r.visibleWrites.completeNodeAtPath (r.path ++ p) = none :=
    CompoundWrite.completeNodeAtPath_eq_none_iff.mpr h
  rw [calculateEventCacheAfterServerOverwrite, CompoundWrite.hasCompleteWriteAtPath, hnone]
  simp only [Option.isSome_none, Bool.false_eq_true, if_false,
    applyToNode_childCompoundWriteAtPath]
  split
  next hempty =>
    congr 1
    apply Node.ext_leaves
    have hpatch := CompoundWrite.isEmpty_iff_patch.mp hempty
    rw [CompoundWrite.patch_childCompoundWriteAtPath, ← PathMap.sub_sub] at hpatch
    rw [getChild_eventCache, Node.leaves_getChild, patch, hpatch, Patch.apply_empty]
  next => rfl

/-- From complete data of the server the code calculates the child of the event cache. -/
theorem calculateCompleteChild_eq {r : FWriteTreeRef K L} {k : K} {c : FCacheNode K L}
    (h : c.isFullyInitialized = true) :
    r.calculateCompleteChild k c = some ((r.eventCache c.node).getImmediateChild k) := by
  have hget : ∀ n : Node K L, n.getChild [k] = n.getImmediateChild k := fun n => by
    apply Node.ext_leaves
    rw [Node.leaves_getChild, Node.leaves_getImmediateChild]
  rw [calculateCompleteChild]
  dsimp only
  cases hcomplete : r.visibleWrites.completeNodeAtPath (r.path ++ [k]) with
  | some m => exact congrArg some ((completeNodeAtPath_eq hcomplete c.node).trans (hget _))
  | none =>
    simp only [FCacheNode.isCompleteForChild, h, Bool.true_or, if_true]
    rw [← hget c.node, applyToNode_childCompoundWriteAtPath, hget]

end FWriteTreeRef

/-! ## Updating part of the event cache -/

/-- The nodes agree away from `p`, and above it if the second has nothing there. -/
structure Near (p : FPath K) (n m : Node K L) : Prop where
  apart : ∀ q, PathMap.Apart p q → n.leaves q = m.leaves q
  above : m.leaves.sub p = PathMap.empty → ∀ q r, r ≠ [] → p = q ++ r → n.leaves q = m.leaves q

/-- Nodes that agree everywhere but below a path are near each other. -/
theorem near_of_agree {p : FPath K} {n m : Node K L}
    (h : ∀ q, ¬p <+: q → n.leaves q = m.leaves q) : Near p n m := by
  refine ⟨fun q hq => h q hq.1, ?_⟩
  rintro - q r hr rfl
  exact h q (PathMap.not_prefix_of_ne_nil hr)

variable [Std.TransOrd K] [Std.LawfulEqOrd K]

/-- The filter updates the child, if a child that has not changed at the path has not changed at
all. -/
theorem FIndexedFilter.updateChildIn_node [DecidableEq K] [DecidableEq L] {n m : Node K L} {k : K}
    {p : FPath K}
    (h : (n.getImmediateChild k).getChild p = m.getChild p →
      (n.getImmediateChild k).isEmpty = m.isEmpty → n.getImmediateChild k = m) :
    (FIndexedFilter.updateChildIn n k m p).1 = n.updateImmediateChild k m := by
  rw [FIndexedFilter.updateChildIn]
  split
  next hsame => rw [← h hsame.1 hsame.2, Node.updateImmediateChild_self]
  next hsame =>
    dsimp only
    split
    next hleaf =>
      obtain ⟨hleaf, hempty⟩ := Bool.and_eq_true_iff.mp hleaf
      rw [Node.eq_emptyNode_iff.mpr hempty, ← Node.getImmediateChild_of_isLeafNode hleaf k,
        Node.updateImmediateChild_self]
    next => rfl

/-- An update below a child is carried out by the filter. -/
theorem FIndexedFilter.updateChildIn_updateChild [DecidableEq K] [DecidableEq L] (n m : Node K L)
    (k : K) (p : FPath K) :
    (FIndexedFilter.updateChildIn n k ((n.getImmediateChild k).updateChild p m) p).1 =
      n.updateChild (k :: p) m := by
  rw [Node.updateChild_cons, updateChildIn_node]
  intro h _
  rw [Node.getChild_updateChild] at h
  rw [← h, Node.updateChild_getChild]

/-- Such an update of the server cache puts the data there, and no assertion fails. -/
theorem Processed.updateServerChildIn_updateChild [DecidableEq K] [DecidableEq L]
    (s : Processed K L) (k : K) (p : FPath K) (n : Node K L) :
    s.updateServerChildIn k
        ((s.viewCache.cachedServerSnap.node.getImmediateChild k).updateChild p n) p =
      s.updateServerSnap (s.viewCache.cachedServerSnap.node.updateChild (k :: p) n)
        s.viewCache.cachedServerSnap.isFullyInitialized := by
  rw [updateServerChildIn, FIndexedFilter.updateChildIn_updateChild,
    FIndexedFilter.debugAsserts_updateChild, Bool.and_true]
  rfl

/-- Updating where nodes may differ makes them equal. -/
theorem Near.updateChild {p : FPath K} {n m : Node K L} (h : Near p n m) :
    n.updateChild p (m.getChild p) = m := by
  apply Node.ext_leaves
  rw [Node.leaves_updateChild, Node.leaves_getChild]
  apply PathMap.ext_of_sub (p := p)
  · rw [PathMap.sub_write_self]
  · intro q hq
    rw [PathMap.write_of_apart _ _ hq, h.apart q hq]
  · rintro q r hr rfl
    by_cases hsub : m.leaves.sub (q ++ r) = PathMap.empty
    · rw [hsub, PathMap.write_empty_of_above _ hr]
      exact h.above hsub q r hr rfl
    · rw [PathMap.write_of_above _ _ hr hsub, Node.leaves_eq_none_of_sub_ne hr hsub]

/-- A child after children have been updated one after the other. -/
theorem getImmediateChild_foldl [DecidableEq K] (ks : List K) (u : K → Node K L) (n : Node K L)
    (j : K) : (ks.foldl (fun n k => n.updateImmediateChild k (u k)) n).getImmediateChild j =
      if j ∈ ks then u j else n.getImmediateChild j := by
  induction ks generalizing n with
  | nil => simp
  | cons k ks ih =>
    rw [List.foldl_cons, ih, Node.getImmediateChild_updateImmediateChild]
    by_cases hjk : j = k
    · simp [hjk]
    · simp [hjk]

/-- Updating children makes no node a leaf. -/
theorem leaves_nil_foldl (ks : List K) (u : K → Node K L) {n : Node K L}
    (hn : n.leaves [] = none) :
    (ks.foldl (fun n k => n.updateImmediateChild k (u k)) n).leaves [] = none := by
  induction ks generalizing n with
  | nil => exact hn
  | cons k ks ih =>
    apply ih
    rw [Node.leaves_updateImmediateChild_nil, hn]
    exact ite_self _

/-- Replacing children that differ makes nodes equal that agree otherwise. -/
theorem foldl_updateImmediateChild_eq [DecidableEq K] {ks : List K} {u : K → Node K L}
    {n m : Node K L}
    (hin : ∀ k ∈ ks, m.getImmediateChild k = u k)
    (hout : ∀ k ∉ ks, n.getImmediateChild k = m.getImmediateChild k)
    (hroot : n.leaves [] = m.leaves []) :
    ks.foldl (fun n k => n.updateImmediateChild k (u k)) n = m := by
  induction ks generalizing n with
  | nil =>
    apply Node.ext_leaves
    ext1 q
    cases q with
    | nil => exact hroot
    | cons k q =>
      rw [Node.leaves_cons, Node.leaves_cons, ← hout k (by simp)]
      rfl
  | cons k ks ih =>
    rw [List.foldl_cons]
    apply ih fun j hj => hin j (List.mem_cons_of_mem _ hj)
    · intro j hj
      rw [Node.getImmediateChild_updateImmediateChild]
      by_cases hjk : j = k
      · rw [hjk, Function.update_self, hin k List.mem_cons_self]
      · rw [Function.update_of_ne hjk]
        exact hout j (by simp [hjk, hj])
    · rw [Node.leaves_updateImmediateChild_nil]
      split
      next hu => exact hroot
      next hu =>
        -- the second node has children, too
        refine (Node.leaves_eq_none_of_sub_ne (q := []) (r := [k]) (by simp) ?_).symm
        rw [List.nil_append, ← Node.leaves_getImmediateChild, hin k List.mem_cons_self]
        exact mt Node.leaves_eq_empty_iff.mp hu

/-- Updating children to what they are changes nothing. -/
theorem foldl_updateImmediateChild_self [DecidableEq K] (ks : List K) (n : Node K L) :
    ks.foldl (fun m k => m.updateImmediateChild k (n.getImmediateChild k)) n = n :=
  foldl_updateImmediateChild_eq (fun _ _ => rfl) (fun _ _ => rfl) rfl

/-! ## The operations -/

variable [DecidableEq K]

/-- If the event cache must be complete, it is the server cache with the pending writes on top. -/
def Synced (r : FWriteTreeRef K L) (c : FViewCache K L) : Prop :=
  c.cachedServerSnap.isFullyInitialized = true ∨ r.patch [] ≠ none →
    c.cachedEventSnap = ⟨r.eventCache c.cachedServerSnap.node, true⟩

/-- Being in sync only depends on what the pending writes decide. -/
theorem Synced.of_patch_eq {r r' : FWriteTreeRef K L} {c : FViewCache K L} (h : Synced r c)
    (hsame : r'.patch = r.patch) : Synced r' c := by
  intro hreq
  rw [hsame] at hreq
  rw [h hreq]
  congr 1
  apply Node.ext_leaves
  rw [FWriteTreeRef.leaves_eventCache, FWriteTreeRef.leaves_eventCache, hsame]

namespace FViewProcessor

variable {s : Processed K L} {r r' : FWriteTreeRef K L} {p : FPath K}

/-- The operation does not trap and leaves the caches in sync, with the given server cache. -/
def EndsWith (r : FWriteTreeRef K L) (server : FCacheNode K L) (o : Option (Processed K L)) :
    Prop :=
  ∃ s, o = some s ∧ s.viewCache.cachedServerSnap = server ∧
    s.viewCache.cachedEventSnap = ⟨r.eventCache server.node, true⟩

omit [Std.LawfulEqOrd K] in
/-- A step that ends with the event cache of the server's data ends in sync. -/
theorem EndsWith.synced {server : FCacheNode K L} {o : Option (Processed K L)} {s' : Processed K L}
    (h : EndsWith r server o) (hs' : o = some s') : Synced r s'.viewCache := by
  obtain ⟨s, rfl, hserver, hevent⟩ := h
  obtain rfl := Option.some.inj hs'
  intro _
  rw [hserver, hevent]

/-- The node with a part replaced has nearly the event cache of the node. -/
theorem near_eventCache {S n : Node K L} (hfits : r.patch.Fits S.leaves) :
    Near p (r.eventCache S) (r.eventCache (S.updateChild p n)) := by
  refine ⟨fun q hq => ?_, ?_⟩
  · rw [FWriteTreeRef.leaves_eventCache, FWriteTreeRef.leaves_eventCache, Node.leaves_updateChild]
    exact Patch.apply_congr rfl Iff.rfl (PathMap.write_of_apart _ _ hq).symm
  · rintro hempty q t ht rfl
    rw [FWriteTreeRef.leaves_eventCache, FWriteTreeRef.leaves_eventCache, Node.leaves_updateChild]
    cases hq : r.patch q with
    | some v => rw [Patch.apply_of_some hq, Patch.apply_of_some hq]
    | none =>
      by_cases hn : n.leaves = PathMap.empty
      · rw [hn]
        exact Patch.apply_congr rfl Iff.rfl (PathMap.write_empty_of_above _ ht).symm
      · -- the leaves of `n` are gone, so that something is decided below
        obtain ⟨u, hu⟩ := Function.ne_iff.mp hn
        have hdec : r.patch (q ++ (t ++ u)) ≠ none := by
          intro hnone
          rw [FWriteTreeRef.leaves_eventCache, Node.leaves_updateChild] at hempty
          have hu' := congrFun hempty u
          rw [PathMap.sub_apply, List.append_assoc] at hu'
          by_cases hl : r.patch.LeafBelow (q ++ (t ++ u))
          · obtain ⟨w, v, hv⟩ := hl
            have hw := congrFun hempty (u ++ w)
            rw [PathMap.sub_apply] at hw
            rw [Patch.apply_of_some (v := some v)] at hw
            · contradiction
            · rw [← hv]
              simp only [List.append_assoc]
          · rw [Patch.apply_of_not_leafBelow hnone hl, ← List.append_assoc,
              PathMap.write_append] at hu'
            exact hu hu'
        have hS : S.leaves q = none := hfits q (t ++ u) hq hdec
        simp only [Patch.apply, hq, hS, PathMap.write_of_above_of_none _ ht hS, ite_self,
          Option.getD_none]

/-- Where everything is decided, replacing a part changes nothing. -/
theorem eventCache_updateChild_of_decided {S n : Node K L} (hfits : r.patch.Fits S.leaves)
    (hp : r.patch p ≠ none) : r.eventCache (S.updateChild p n) = r.eventCache S := by
  apply Node.ext_leaves
  ext1 q
  rw [FWriteTreeRef.leaves_eventCache, FWriteTreeRef.leaves_eventCache, Node.leaves_updateChild]
  rcases PathMap.prefix_cases p q with ⟨t, rfl⟩ | ⟨t, ht, rfl⟩ | hq
  · obtain ⟨v, hv⟩ := Option.ne_none_iff_exists'.mp (r.down_patch p t hp)
    rw [Patch.apply_of_some hv, Patch.apply_of_some hv]
  · cases hq : r.patch q with
    | some v => rw [Patch.apply_of_some hq, Patch.apply_of_some hq]
    | none =>
      have hS : S.leaves q = none := hfits q t hq hp
      simp only [Patch.apply, hq, hS, PathMap.write_of_above_of_none _ ht hS, ite_self,
        Option.getD_none]
  · exact Patch.apply_congr rfl Iff.rfl (PathMap.write_of_apart _ _ hq)

/-- Replacing children of a node is replacing them in its event cache, with the pending writes on
top. -/
theorem foldl_eventCache {S : Node K L} (hdec : r.patch [] = none)
    (hfits : r.patch.Fits S.leaves) (ks : List K) (n : K → Node K L) :
    ks.foldl (fun m k => m.updateImmediateChild k ((r.childWriteTreeRef k).eventCache (n k)))
        (r.eventCache S) =
      r.eventCache (ks.foldl (fun m k => m.updateImmediateChild k (n k)) S) := by
  by_cases hempty : r.patch = PathMap.empty
  · have hchild : ∀ k, (r.childWriteTreeRef k).patch = PathMap.empty := fun k => by
      rw [FWriteTreeRef.patch_childWriteTreeRef, hempty, PathMap.sub_empty]
    simp only [FWriteTreeRef.eventCache_of_patch_empty hempty,
      FWriteTreeRef.eventCache_of_patch_empty (hchild _)]
  · obtain ⟨q, hq⟩ := Function.ne_iff.mp hempty
    have hS : S.leaves [] = none := hfits [] q hdec hq
    have hnone : ∀ m : Node K L, m.leaves [] = none → (r.eventCache m).leaves [] = none := by
      intro m hm
      simp only [FWriteTreeRef.leaves_eventCache, Patch.apply, hdec, hm, ite_self, Option.getD_none]
    apply foldl_updateImmediateChild_eq
    · intro k hk
      rw [FWriteTreeRef.getImmediateChild_eventCache, getImmediateChild_foldl, if_pos hk]
    · intro k hk
      rw [FWriteTreeRef.getImmediateChild_eventCache, FWriteTreeRef.getImmediateChild_eventCache,
        getImmediateChild_foldl, if_neg hk]
    · rw [hnone S hS, hnone _ (leaves_nil_foldl ks n hS)]

omit [DecidableEq K] in
/-- Making the writes of a compound write is applying it. -/
theorem leaves_foldl_updateChild (p : FPath K) (m : CompoundWrite K L) (n : Node K L) :
    (m.enumerateWrites.foldl (fun n e => n.updateChild (p ++ e.1) e.2) n).leaves =
      Patch.apply (Patch.shift p m.patch) n.leaves := by
  have hfold : ∀ (es : List (FPath K × Node K L)) (n : Node K L),
      (es.foldl (fun n e => n.updateChild (p ++ e.1) e.2) n).leaves =
        (es.map fun e => (p ++ e.1, e.2.leaves)).foldl (fun f w => f.write w.1 w.2) n.leaves := by
    intro es
    induction es with
    | nil => exact fun _ => rfl
    | cons e es ih =>
      intro n
      rw [List.foldl_cons, ih, Node.leaves_updateChild]
      rfl
  have hwrites : m.enumerateWrites.map (fun e => (p ++ e.1, e.2.leaves)) =
      m.writes.map fun w => (p ++ w.1, w.2) := by
    rw [CompoundWrite.writes, FImmutableTree.writes, List.map_map]
    rfl
  rw [hfold, hwrites, Patch.foldl_write_eq_apply (m.pairwise_apart_map_writes p),
    CompoundWrite.layer_map_writes]

/-! ### What was taken back -/

section Retract

variable {touched : FPath K → Prop}

/-- If other writes decide all that was taken back, the event cache is right already. -/
theorem synced_of_shadowed (h : Synced r s.viewCache) (hretract : r.patch.Retract r'.patch touched)
    (hpath : ∀ q, touched q → p <+: q) (hdec : r'.patch p ≠ none) : Synced r' s.viewCache := by
  have hsame : r'.patch = r.patch := by
    refine hretract.eq fun q hq => ?_
    obtain ⟨t, rfl⟩ := hpath q hq
    exact r'.down_patch p t hdec
  exact h.of_patch_eq hsame

omit [Std.TransOrd K] [Std.LawfulEqOrd K] [DecidableEq K] in
/-- If nothing decides at the path, only a complete server cache makes the event cache complete. -/
theorem undecided_nil (hnone : r'.patch p = none) : r'.patch [] = none := by
  by_contra h
  exact r'.down_patch [] p h hnone

/-- Away from what was taken back the event cache is right already. -/
theorem leaves_eventCache_of_retract (hretract : r.patch.Retract r'.patch touched) {S : Node K L}
    (hfits : r.patch.Fits S.leaves) {q : FPath K} (hq : ¬touched q) :
    (r'.eventCache S).leaves q = (r.eventCache S).leaves q := by
  rw [FWriteTreeRef.leaves_eventCache, FWriteTreeRef.leaves_eventCache,
    hretract.apply_eq hfits hq]

end Retract

/-! ### Data from the server -/

variable [DecidableEq L]

/-- At a decided path the event cache stays as it is. -/
theorem generate_of_decided (h : r.patch p ≠ none) :
    generateEventCacheAfterServerEvent s p r = some s := by
  rw [generateEventCacheAfterServerEvent.eq_def]
  exact if_pos (FWriteTreeRef.isSome_shadowingWriteAtPath_iff.mpr h)

/-- The event cache is computed anew after a change at the location of the view. -/
theorem generate_nil (hserver : s.viewCache.cachedServerSnap.isFullyInitialized = true)
    (hdecided : r.patch [] ≠ none →
      s.viewCache.cachedEventSnap = ⟨r.eventCache s.viewCache.cachedServerSnap.node, true⟩) :
    EndsWith r s.viewCache.cachedServerSnap (generateEventCacheAfterServerEvent s [] r) := by
  by_cases h : r.patch [] = none
  · rw [generateEventCacheAfterServerEvent.eq_def]
    simp only [FWriteTreeRef.shadowingWriteAtPath_eq_none_iff.mpr h, Option.isSome_none,
      Bool.false_eq_true, if_false, FViewCache.completeServerSnap, hserver, if_true,
      FWriteTreeRef.calculateCompleteEventCache_some]
    exact ⟨_, rfl, rfl, rfl⟩
  · rw [generate_of_decided h]
    exact ⟨s, rfl, rfl, hdecided h⟩

/-- After a change below a child the event cache is brought up to date there. -/
theorem generate_cons {k : K} (hevent : s.viewCache.cachedEventSnap.isFullyInitialized = true)
    (hnear : r.patch (k :: p) = none → Near (k :: p) s.viewCache.cachedEventSnap.node
      (r.eventCache s.viewCache.cachedServerSnap.node))
    (hdecided : r.patch (k :: p) ≠ none → s.viewCache.cachedEventSnap.node =
      r.eventCache s.viewCache.cachedServerSnap.node) :
    EndsWith r s.viewCache.cachedServerSnap (generateEventCacheAfterServerEvent s (k :: p) r) := by
  by_cases h : r.patch (k :: p) = none
  · rw [generateEventCacheAfterServerEvent.eq_def]
    simp only [FWriteTreeRef.shadowingWriteAtPath_eq_none_iff.mpr h, Option.isSome_none,
      Bool.false_eq_true, if_false, FCacheNode.isCompleteForChild, hevent, Bool.true_or, if_true,
      FWriteTreeRef.calculateEventCacheAfterServerOverwrite_of_undecided h]
    refine ⟨_, rfl, rfl, ?_⟩
    simp only [Processed.updateChildIn, FViewCache.updateEventSnap,
      FIndexedFilter.updateChildIn_updateChild, (hnear h).updateChild]
  · rw [generate_of_decided h]
    refine ⟨s, rfl, rfl, ?_⟩
    rw [← hdecided h, ← hevent]

/-- The event cache after an event has no say in the server cache. -/
theorem server_generate {s' : Processed K L}
    (h : generateEventCacheAfterServerEvent s p r = some s') :
    s'.viewCache.cachedServerSnap = s.viewCache.cachedServerSnap := by
  rw [generateEventCacheAfterServerEvent.eq_def] at h
  dsimp only at h
  split at h
  · rw [← Option.some.inj h]
  · cases p with
    | nil =>
      obtain ⟨n, -, rfl⟩ := Option.map_eq_some_iff.mp h
      rfl
    | cons k p =>
      dsimp only at h
      split at h
      · rw [← Option.some.inj h]
        rfl
      · rw [← Option.some.inj h]

/-- An overwrite below the root leaves the server cache as complete as it was. -/
theorem isFullyInitialized_applyServerOverwriteTo {k : K} {n : Node K L} {s' : Processed K L}
    (h : applyServerOverwriteTo s (k :: p) n r = some s') :
    s'.viewCache.cachedServerSnap.isFullyInitialized =
      s.viewCache.cachedServerSnap.isFullyInitialized := by
  rw [applyServerOverwriteTo] at h
  dsimp only at h
  split at h
  · rw [← Option.some.inj h]
  · rw [server_generate h]
    rfl

/-- Under a write at the location, data from the server leave the event cache alone. -/
theorem event_applyServerOverwriteTo_of_decided (h : r.patch [] ≠ none) {k : K} {n : Node K L}
    {s' : Processed K L} (hs' : applyServerOverwriteTo s (k :: p) n r = some s') :
    s'.viewCache.cachedEventSnap = s.viewCache.cachedEventSnap := by
  rw [applyServerOverwriteTo] at hs'
  dsimp only at hs'
  split at hs'
  · rw [← Option.some.inj hs']
  · have hdec : r.patch (k :: p) ≠ none := r.down_patch [] (k :: p) h
    rw [generate_of_decided hdec] at hs'
    rw [← Option.some.inj hs']
    rfl

/-- Data from the server keep the caches in sync. -/
theorem synced_serverOverwrite (h : Synced r s.viewCache)
    (hfits : r.patch.Fits s.viewCache.cachedServerSnap.node.leaves) {n : Node K L}
    {s' : Processed K L} (hs' : applyServerOverwriteTo s p n r = some s') :
    Synced r s'.viewCache := by
  cases p with
  | nil =>
    refine EndsWith.synced (generate_nil rfl fun hdec => ?_) hs'
    rw [FWriteTreeRef.eventCache_congr_of_decided hdec _ s.viewCache.cachedServerSnap.node]
    exact h (Or.inr hdec)
  | cons k p =>
    by_cases hdec : r.patch [] = none
    · cases hinit : s.viewCache.cachedServerSnap.isFullyInitialized with
      | false =>
        rintro (hinit' | hdec')
        · rw [isFullyInitialized_applyServerOverwriteTo hs', hinit] at hinit'
          contradiction
        · contradiction
      | true =>
        have hevent := h (Or.inl hinit)
        rw [applyServerOverwriteTo] at hs'
        dsimp only at hs'
        rw [if_neg (by simp [FCacheNode.isCompleteForPath, FCacheNode.isCompleteForChild, hinit]),
          Processed.updateServerChildIn_updateChild] at hs'
        refine EndsWith.synced (generate_cons ?_ (fun hnone => ?_) fun hdec' => ?_) hs'
        · exact congrArg FCacheNode.isFullyInitialized hevent
        · simp only [Processed.updateServerSnap, FViewCache.updateServerSnap, hevent]
          exact near_eventCache hfits
        · simp only [Processed.updateServerSnap, FViewCache.updateServerSnap, hevent]
          exact (eventCache_updateChild_of_decided hfits hdec').symm
    · intro _
      rw [event_applyServerOverwriteTo_of_decided hdec hs', h (Or.inr hdec),
        FWriteTreeRef.eventCache_congr_of_decided hdec]

/-- Overwrites of children leave the server cache as complete as it was. -/
theorem isFullyInitialized_foldlM {α : Type*} {key : α → K} {val : α → Node K L} {es : List α}
    {s' : Processed K L}
    (h : es.foldlM (fun s e => applyServerOverwriteTo s [key e] (val e) r) s = some s') :
    s'.viewCache.cachedServerSnap.isFullyInitialized =
      s.viewCache.cachedServerSnap.isFullyInitialized := by
  induction es generalizing s with
  | nil => rw [← Option.some.inj h]
  | cons e es ih =>
    rw [List.foldlM_cons] at h
    obtain ⟨t, ht, h⟩ := Option.bind_eq_some_iff.mp h
    rw [ih h, isFullyInitialized_applyServerOverwriteTo ht]

/-- While a write decides everything, overwrites of the server leave the event cache alone. -/
theorem event_foldlM_of_decided (hdec : r.patch [] ≠ none) {α : Type*} {key : α → K}
    {val : α → Node K L} {es : List α} {s' : Processed K L}
    (h : es.foldlM (fun s e => applyServerOverwriteTo s [key e] (val e) r) s = some s') :
    s'.viewCache.cachedEventSnap = s.viewCache.cachedEventSnap := by
  induction es generalizing s with
  | nil => rw [← Option.some.inj h]
  | cons e es ih =>
    rw [List.foldlM_cons] at h
    obtain ⟨t, ht, h⟩ := Option.bind_eq_some_iff.mp h
    rw [ih h, event_applyServerOverwriteTo_of_decided hdec ht]

/-- A child from the server is put into both caches; into the event cache with the pending writes
on top. -/
theorem applyServerOverwriteTo_child {S E n : Node K L} {k : K}
    (hserver : s.viewCache.cachedServerSnap = ⟨S, true⟩)
    (hevent : s.viewCache.cachedEventSnap = ⟨E, true⟩)
    (hchild : r.patch [k] ≠ none →
      E.getImmediateChild k = (r.childWriteTreeRef k).eventCache n) :
    ∃ s', applyServerOverwriteTo s [k] n r = some s' ∧
      s'.viewCache.cachedServerSnap = ⟨S.updateImmediateChild k n, true⟩ ∧
      s'.viewCache.cachedEventSnap =
        ⟨E.updateImmediateChild k ((r.childWriteTreeRef k).eventCache n), true⟩ := by
  have hone : ∀ m u : Node K L, m.updateChild [k] u = m.updateImmediateChild k u := by
    intro m u
    apply Node.ext_leaves
    rw [Node.leaves_updateChild, Node.leaves_updateImmediateChild]
  have hget : ((r.eventCache (S.updateImmediateChild k n)).getChild [k]) =
      (r.childWriteTreeRef k).eventCache n := by
    apply Node.ext_leaves
    rw [Node.leaves_getChild, ← Node.leaves_getImmediateChild,
      FWriteTreeRef.getImmediateChild_eventCache, Node.getImmediateChild_updateImmediateChild,
      Function.update_self]
  rw [applyServerOverwriteTo]
  dsimp only
  rw [if_neg (by simp), Processed.updateServerChildIn_updateChild, hserver, hone]
  by_cases hk : r.patch [k] = none
  · rw [generateEventCacheAfterServerEvent.eq_def]
    simp only [FWriteTreeRef.shadowingWriteAtPath_eq_none_iff.mpr hk, Option.isSome_none,
      Bool.false_eq_true, if_false, FCacheNode.isCompleteForChild, Processed.updateServerSnap,
      FViewCache.updateServerSnap, hevent, Bool.true_or, if_true,
      FWriteTreeRef.calculateEventCacheAfterServerOverwrite_of_undecided hk, hget]
    refine ⟨_, rfl, rfl, ?_⟩
    simp only [Processed.updateChildIn, FViewCache.updateEventSnap,
      FIndexedFilter.updateChildIn_updateChild, hone]
  · rw [generate_of_decided hk]
    refine ⟨_, rfl, rfl, ?_⟩
    rw [← hchild hk, Node.updateImmediateChild_self]
    exact hevent

/-- Several children from the server are put into both caches. -/
theorem foldlM_applyServerOverwriteTo {α : Type*} {key : α → K} {val : α → Node K L}
    {n : K → Node K L} (es : List α) (hval : ∀ e ∈ es, val e = n (key e)) {S E : Node K L}
    (hserver : s.viewCache.cachedServerSnap = ⟨S, true⟩)
    (hevent : s.viewCache.cachedEventSnap = ⟨E, true⟩)
    (hchild : ∀ k ∈ es.map key, r.patch [k] ≠ none →
      E.getImmediateChild k = (r.childWriteTreeRef k).eventCache (n k)) :
    ∃ s', es.foldlM (fun s e => applyServerOverwriteTo s [key e] (val e) r) s = some s' ∧
      s'.viewCache.cachedServerSnap =
        ⟨(es.map key).foldl (fun m k => m.updateImmediateChild k (n k)) S, true⟩ ∧
      s'.viewCache.cachedEventSnap =
        ⟨(es.map key).foldl (fun m k => m.updateImmediateChild k
          ((r.childWriteTreeRef k).eventCache (n k))) E, true⟩ := by
  induction es generalizing s S E with
  | nil => exact ⟨s, rfl, hserver, hevent⟩
  | cons e es ih =>
    obtain ⟨t, ht, hserver', hevent'⟩ :=
      applyServerOverwriteTo_child hserver hevent (hchild (key e) (by simp))
    rw [List.foldlM_cons, hval e List.mem_cons_self, ht]
    refine ih (fun e he => hval e (List.mem_cons_of_mem _ he)) hserver' hevent' ?_
    intro k hk hdec
    rw [Node.getImmediateChild_updateImmediateChild]
    by_cases hke : k = key e
    · rw [hke, Function.update_self]
    · rw [Function.update_of_ne hke]
      exact hchild k (by simp [List.mem_map.mp hk]) hdec

/-- The merge in `applyServerMergeTo`, made to the whole node. -/
def actualMerge (p : FPath K) (m : CompoundWrite K L) : CompoundWrite K L :=
  if p.isEmpty then m else CompoundWrite.addCompoundWrite .emptyWrite m p

/-- A merge from the server does nothing or overwrites some of the children that it has writes for;
all of them if the server cache is complete. -/
theorem applyServerMergeTo_cases {m : CompoundWrite K L} {s' : Processed K L}
    (h : applyServerMergeTo s p m r = some s') :
    (s.viewCache.cachedServerSnap.isFullyInitialized = false ∧ s' = s) ∨
      ∃ es : List (K × CompoundWrite K L), (∀ e ∈ es, e ∈ (actualMerge p m).childCompoundWrites) ∧
        (s.viewCache.cachedServerSnap.isFullyInitialized = true →
          ∀ e ∈ (actualMerge p m).childCompoundWrites, e ∈ es) ∧
        es.foldlM (fun s' e => applyServerOverwriteTo s' [e.1]
          (e.2.applyToNode (s.viewCache.cachedServerSnap.node.getImmediateChild e.1)) r) s =
            some s' := by
  rw [applyServerMergeTo] at h
  dsimp only at h
  split at h
  next hearly =>
    obtain ⟨-, hinit⟩ := Bool.and_eq_true_iff.mp hearly
    exact Or.inl ⟨by simpa using hinit, (Option.some.inj h).symm⟩
  next =>
    refine Or.inr ⟨_, ?_, ?_, List.foldlM_append.trans h⟩
    · intro e he
      rcases List.mem_append.mp he with he | he
      · exact (List.mem_filter.mp he).1
      · exact (List.mem_filter.mp he).1
    · intro hinit e he
      rw [List.mem_append, List.mem_filter, List.mem_filter]
      cases hknown : s.viewCache.cachedServerSnap.node.hasChild e.1 with
      | true => exact Or.inl ⟨he, rfl⟩
      | false => exact Or.inr ⟨he, by simp [FCacheNode.isCompleteForChild, hinit]⟩

/-- A merge leaves the server cache as complete as it was. -/
theorem isFullyInitialized_applyServerMergeTo {m : CompoundWrite K L} {s' : Processed K L}
    (h : applyServerMergeTo s p m r = some s') :
    s'.viewCache.cachedServerSnap.isFullyInitialized =
      s.viewCache.cachedServerSnap.isFullyInitialized := by
  rcases applyServerMergeTo_cases h with ⟨-, rfl⟩ | ⟨es, -, -, h⟩
  · rfl
  · exact isFullyInitialized_foldlM h

/-- A merge from the server puts the merged children into both caches. -/
theorem applyServerMergeTo_complete {S E : Node K L} {m : CompoundWrite K L} {s' : Processed K L}
    (hserver : s.viewCache.cachedServerSnap = ⟨S, true⟩)
    (hevent : s.viewCache.cachedEventSnap = ⟨E, true⟩)
    (hchild : ∀ k, r.patch [k] ≠ none → E.getImmediateChild k =
      (r.childWriteTreeRef k).eventCache (((actualMerge p m).applyToNode S).getImmediateChild k))
    (h : applyServerMergeTo s p m r = some s') :
    ∃ ks : List K, (∀ k, k ∈ ks ↔ ∃ e ∈ (actualMerge p m).childCompoundWrites, e.1 = k) ∧
      s'.viewCache.cachedServerSnap = ⟨ks.foldl (fun n k => n.updateImmediateChild k
        (((actualMerge p m).applyToNode S).getImmediateChild k)) S, true⟩ ∧
      s'.viewCache.cachedEventSnap = ⟨ks.foldl (fun n k => n.updateImmediateChild k
        ((r.childWriteTreeRef k).eventCache
          (((actualMerge p m).applyToNode S).getImmediateChild k))) E, true⟩ := by
  have hinit : s.viewCache.cachedServerSnap.isFullyInitialized = true :=
    congrArg FCacheNode.isFullyInitialized hserver
  rcases applyServerMergeTo_cases h with ⟨hinit', -⟩ | ⟨es, hmem, hall, hes⟩
  · rw [hinit] at hinit'
    contradiction
  · have hval : ∀ e ∈ es, e.2.applyToNode (S.getImmediateChild e.1) =
        ((actualMerge p m).applyToNode S).getImmediateChild (Prod.fst e) :=
      fun e he => CompoundWrite.applyToNode_of_mem_childCompoundWrites (hmem e he) S
    obtain ⟨t, ht, hserver', hevent'⟩ :=
      foldlM_applyServerOverwriteTo es hval hserver hevent fun k _ hk => hchild k hk
    rw [hserver, ht] at hes
    obtain rfl := Option.some.inj hes
    refine ⟨es.map Prod.fst, fun k => ?_, hserver', hevent'⟩
    rw [List.mem_map]
    exact ⟨fun ⟨e, he, hk⟩ => ⟨e, hmem e he, hk⟩, fun ⟨e, he, hk⟩ => ⟨e, hall hinit e he, hk⟩⟩

/-- A merge from the server keeps the caches in sync. -/
theorem synced_serverMerge (h : Synced r s.viewCache)
    (hfits : r.patch.Fits s.viewCache.cachedServerSnap.node.leaves) {m : CompoundWrite K L}
    {s' : Processed K L} (hs' : applyServerMergeTo s p m r = some s') :
    Synced r s'.viewCache := by
  by_cases hdec : r.patch [] = none
  · cases hinit : s.viewCache.cachedServerSnap.isFullyInitialized with
    | false =>
      rintro (hinit' | hdec')
      · rw [isFullyInitialized_applyServerMergeTo hs', hinit] at hinit'
        contradiction
      · contradiction
    | true =>
      obtain ⟨⟨⟨E, e⟩, ⟨S, i⟩⟩, reported, held⟩ := s
      obtain rfl : i = true := hinit
      have hevent := h (Or.inl rfl)
      have hchild : ∀ k, r.patch [k] ≠ none → ∀ n : Node K L,
          (r.eventCache S).getImmediateChild k = (r.childWriteTreeRef k).eventCache n := by
        intro k hk n
        rw [FWriteTreeRef.getImmediateChild_eventCache]
        refine FWriteTreeRef.eventCache_congr_of_decided ?_ _ _
        rw [FWriteTreeRef.patch_childWriteTreeRef]
        exact hk
      obtain ⟨ks, -, hserver', hevent'⟩ :=
        applyServerMergeTo_complete rfl hevent (fun k hk => hchild k hk _) hs'
      intro _
      rw [hevent', hserver', foldl_eventCache hdec hfits]
  · intro _
    rcases applyServerMergeTo_cases hs' with ⟨-, rfl⟩ | ⟨es, -, -, hes⟩
    · exact h (Or.inr hdec)
    · rw [event_foldlM_of_decided hdec hes, h (Or.inr hdec),
        FWriteTreeRef.eventCache_congr_of_decided hdec]

/-- Once all data has come the caches are in sync. -/
theorem synced_listenComplete (h : Synced r s.viewCache) {s' : Processed K L}
    (hs' : listenCompleteOldCache s p r = some s') : Synced r s'.viewCache := by
  rw [listenCompleteOldCache] at hs'
  cases p with
  | nil =>
    refine EndsWith.synced (generate_nil ?_ fun hdec => ?_) hs'
    · exact Bool.or_true _
    · exact h (Or.inr hdec)
  | cons k p =>
    have hserver := server_generate hs'
    simp only [Processed.updateServerSnap, FViewCache.updateServerSnap, List.isEmpty_cons,
      Bool.or_false] at hserver hs'
    intro hreq
    rw [hserver] at hreq
    have hevent := h hreq
    refine EndsWith.synced (generate_cons ?_ (fun _ => ?_) fun _ => ?_) hs' (by rwa [hserver])
    · exact congrArg FCacheNode.isFullyInitialized hevent
    · simp only [hevent]
      exact ⟨fun _ _ => rfl, fun _ _ _ _ _ => rfl⟩
    · simp only [hevent]

/-! ### Writes of the user -/

/-- An overwrite of the user leaves the server cache alone. -/
theorem server_applyUserOverwriteTo (p : FPath K) (n : Node K L) (c : Option (Node K L)) :
    (applyUserOverwriteTo s p n r c).viewCache.cachedServerSnap = s.viewCache.cachedServerSnap := by
  cases p with
  | nil => rfl
  | cons k p =>
    rw [applyUserOverwriteTo]
    split <;> rfl

/-- To a complete event cache a write is made as it is. -/
theorem applyUserOverwriteTo_complete {E : Node K L}
    (hevent : s.viewCache.cachedEventSnap = ⟨E, true⟩) (p : FPath K) (n : Node K L)
    (c : Option (Node K L)) :
    (applyUserOverwriteTo s p n r c).viewCache =
      s.viewCache.updateEventSnap (E.updateChild p n) true := by
  cases p with
  | nil =>
    have hn : E.updateChild [] n = n := by
      apply Node.ext_leaves
      rw [Node.leaves_updateChild, PathMap.write_nil]
    rw [hn]
    rfl
  | cons k p =>
    have hnew : overwrittenChild s k p n r c = (E.getImmediateChild k).updateChild p n := by
      cases p with
      | nil =>
        apply Node.ext_leaves
        rw [Node.leaves_updateChild, PathMap.write_nil]
        rfl
      | cons k' p =>
        simp [overwrittenChild, FWriteTreeRef.completeChild, FCacheNode.isCompleteForChild, hevent]
    rw [applyUserOverwriteTo, hnew, hevent]
    split
    next => simp only [Processed.updateChildIn, hevent, FIndexedFilter.updateChildIn_updateChild]
    next hsame =>
      rw [Node.updateChild_cons, ← not_not.mp hsame, Node.updateImmediateChild_self]
      rw [FViewCache.updateEventSnap, ← hevent]

/-- Overwrites of the user update a complete event cache one after the other. -/
theorem foldl_applyUserOverwriteTo {E : Node K L}
    (hevent : s.viewCache.cachedEventSnap = ⟨E, true⟩) (p : FPath K) (c : Option (Node K L))
    (es : List (FPath K × Node K L)) :
    (es.foldl (fun s e => applyUserOverwriteTo s (p ++ e.1) e.2 r c) s).viewCache =
      s.viewCache.updateEventSnap (es.foldl (fun n e => n.updateChild (p ++ e.1) e.2) E) true := by
  induction es generalizing s E with
  | nil => rw [List.foldl_nil, List.foldl_nil, FViewCache.updateEventSnap, ← hevent]
  | cons e es ih =>
    have hstep := applyUserOverwriteTo_complete (r := r) hevent (p ++ e.1) e.2 c
    rw [List.foldl_cons, List.foldl_cons, ih (congrArg FViewCache.cachedEventSnap hstep), hstep]
    rfl

/-- After a write of the user the event cache has it on top. -/
theorem synced_userOverwrite (h : Synced r s.viewCache) {n : Node K L}
    (hr' : r'.patch = Patch.stack r.patch (Patch.shift p (Patch.total n.leaves)))
    (hfits : r'.patch.Fits s.viewCache.cachedServerSnap.node.leaves) (c : Option (Node K L)) :
    Synced r' (applyUserOverwriteTo s p n r' c).viewCache := by
  intro hreq
  by_cases hold : s.viewCache.cachedServerSnap.isFullyInitialized = true ∨ r.patch [] ≠ none
  · have hwrite := applyUserOverwriteTo_complete (r := r') (h hold) p n c
    rw [hwrite]
    simp only [FViewCache.updateEventSnap]
    congr 1
    apply Node.ext_leaves
    rw [FWriteTreeRef.leaves_eventCache, hr', Patch.apply_stack (hr' ▸ hfits),
      Patch.apply_shift_total, Node.leaves_updateChild, FWriteTreeRef.leaves_eventCache]
  · -- only a write at the location of the view makes the event cache complete
    rw [not_or, not_not] at hold
    rw [server_applyUserOverwriteTo] at hreq
    have hdec := hreq.resolve_left hold.1
    rw [hr', Ne, Patch.stack_eq_none_iff, and_iff_left hold.2] at hdec
    cases p with
    | nil =>
      have hall : r'.eventCache s.viewCache.cachedServerSnap.node = n := by
        apply Node.ext_leaves
        rw [FWriteTreeRef.leaves_eventCache, hr', Patch.apply_stack (hr' ▸ hfits),
          Patch.apply_shift_total, PathMap.write_nil]
      rw [server_applyUserOverwriteTo, hall]
      rfl
    | cons k p => exact absurd (Patch.shift_of_not_above _ (by simp)) hdec

/-- Overwrites of the user leave the server cache alone. -/
theorem server_foldl_applyUserOverwriteTo (c : Option (Node K L)) (es : List (FPath K × Node K L)) :
    (es.foldl (fun s e => applyUserOverwriteTo s (p ++ e.1) e.2 r c) s).viewCache.cachedServerSnap =
      s.viewCache.cachedServerSnap := by
  induction es generalizing s with
  | nil => rfl
  | cons e es ih => rw [List.foldl_cons, ih, server_applyUserOverwriteTo]

/-- A merge of the user leaves the server cache alone. -/
theorem server_applyUserMergeTo (p : FPath K) (m : CompoundWrite K L) (c : Option (Node K L)) :
    (applyUserMergeTo s p m r c).viewCache.cachedServerSnap = s.viewCache.cachedServerSnap :=
  (server_foldl_applyUserOverwriteTo c _).trans (server_foldl_applyUserOverwriteTo c _)

/-- To a complete event cache the writes of a merge are made as they are. -/
theorem applyUserMergeTo_complete {E : Node K L}
    (hevent : s.viewCache.cachedEventSnap = ⟨E, true⟩) (p : FPath K) (m : CompoundWrite K L)
    (c : Option (Node K L)) :
    (applyUserMergeTo s p m r c).viewCache = s.viewCache.updateEventSnap
      (m.enumerateWrites.foldl (fun n e => n.updateChild (p ++ e.1) e.2) E) true := by
  have hall : ∀ q, s.viewCache.cachedEventSnap.isCompleteForPath q = true := by
    intro q
    rw [hevent]
    cases q <;> rfl
  rw [applyUserMergeTo]
  simp only [hall, Bool.not_true, List.filter_true, List.filter_false, List.foldl_nil]
  exact foldl_applyUserOverwriteTo hevent p c _

/-- After a merge of the user the event cache has it on top. -/
theorem synced_userMerge (h : Synced r s.viewCache) {m : CompoundWrite K L}
    (hr' : r'.patch = Patch.stack r.patch (Patch.shift p m.patch))
    (hfits : r'.patch.Fits s.viewCache.cachedServerSnap.node.leaves) (c : Option (Node K L)) :
    Synced r' (applyUserMergeTo s p m r' c).viewCache := by
  have hserver := server_applyUserMergeTo (s := s) (r := r') p m c
  intro hreq
  by_cases hold : s.viewCache.cachedServerSnap.isFullyInitialized = true ∨ r.patch [] ≠ none
  · rw [applyUserMergeTo_complete (h hold)]
    simp only [FViewCache.updateEventSnap]
    congr 1
    apply Node.ext_leaves
    rw [FWriteTreeRef.leaves_eventCache, hr', Patch.apply_stack (hr' ▸ hfits),
      leaves_foldl_updateChild, FWriteTreeRef.leaves_eventCache]
  · -- only a write at the location of the view makes the event cache complete
    rw [not_or, not_not] at hold
    rw [hserver] at hreq
    have hdec := hreq.resolve_left hold.1
    rw [hr', Ne, Patch.stack_eq_none_iff, and_iff_left hold.2] at hdec
    cases p with
    | cons k p => exact absurd (Patch.shift_of_not_above _ (by simp)) hdec
    | nil =>
      rw [Patch.shift_nil] at hdec hr'
      obtain ⟨n, hwrites, hn⟩ := CompoundWrite.enumerateWrites_of_patch_nil hdec
      have hall : r'.eventCache s.viewCache.cachedServerSnap.node = n := by
        apply Node.ext_leaves
        ext1 q
        rw [FWriteTreeRef.leaves_eventCache, hr', Patch.apply_of_some (Patch.stack_of_some (hn q))]
      rw [hserver, hall]
      cases hinit : s.viewCache.cachedEventSnap.isFullyInitialized <;>
        simp [applyUserMergeTo, hwrites, FCacheNode.isCompleteForPath, hinit, applyUserOverwriteTo,
          Processed.updateFullNode, FViewCache.updateEventSnap]

/-! ### Answers -/

section Retract

variable {touched : FPath K → Prop}

/-- Reverting a child leaves the server cache alone. -/
theorem server_revertChild {k : K} {b : Bool} :
    (revertChild s k p r b).viewCache.cachedServerSnap = s.viewCache.cachedServerSnap := by
  rw [revertChild]
  split
  · rfl
  · split <;> rfl

/-- The server cache does not change when a write is reverted. -/
theorem server_revertUserWriteOn {s' : Processed K L} (h : revertUserWriteOn s p r = some s') :
    s'.viewCache.cachedServerSnap = s.viewCache.cachedServerSnap := by
  rw [revertUserWriteOn] at h
  split at h
  · rw [← Option.some.inj h]
  · cases p with
    | nil =>
      obtain ⟨n, -, rfl⟩ := Option.map_eq_some_iff.mp h
      rfl
    | cons k p =>
      dsimp only at h
      split at h
      · obtain ⟨n, -, rfl⟩ := Option.map_eq_some_iff.mp h
        split
        · exact server_revertChild
        · exact server_revertChild
      · rw [← Option.some.inj h, server_revertChild]

/-- What is below a child is reverted to what the pending writes make of it. -/
theorem revertChild_complete {S : Node K L} {k : K}
    (hserver : s.viewCache.cachedServerSnap = ⟨S, true⟩)
    (hagree : ∀ q, ¬k :: p <+: q →
      (r.eventCache S).leaves q = s.viewCache.cachedEventSnap.node.leaves q) :
    (revertChild s k p r true).viewCache.cachedEventSnap = ⟨r.eventCache S, true⟩ := by
  have hfull : s.viewCache.cachedServerSnap.isFullyInitialized = true :=
    congrArg FCacheNode.isFullyInitialized hserver
  have hcalc := FWriteTreeRef.calculateCompleteChild_eq (r := r) (k := k) hfull
  rw [hserver] at hcalc
  simp only [revertChild, hserver, hcalc, Processed.updateChildIn, FViewCache.updateEventSnap]
  congr 1
  rw [FIndexedFilter.updateChildIn_node]
  · have hsame : ∀ j ∈ [k], (r.eventCache S).getImmediateChild j =
        (r.eventCache S).getImmediateChild j := fun _ _ => rfl
    refine foldl_updateImmediateChild_eq hsame (fun j hj => ?_) ?_
    · have hjk : j ≠ k := by simpa using hj
      apply Node.ext_leaves
      ext1 q
      rw [Node.leaves_getImmediateChild, Node.leaves_getImmediateChild]
      refine (hagree (j :: q) fun hq => hjk ?_).symm
      exact (List.cons_prefix_cons.mp hq).1.symm
    · exact (hagree [] (by simp)).symm
  · -- if the part that is compared is the same, nothing differs
    intro hpart _
    apply Node.ext_leaves
    ext1 q
    rw [Node.leaves_getImmediateChild, Node.leaves_getImmediateChild]
    by_cases hq : p <+: q
    · obtain ⟨t, rfl⟩ := hq
      have hleaves := congrFun (congrArg Node.leaves hpart) t
      rwa [Node.leaves_getChild, Node.leaves_getChild, Node.leaves_getImmediateChild,
        Node.leaves_getImmediateChild] at hleaves
    · exact (hagree (k :: q) fun h => hq (List.cons_prefix_cons.mp h).2).symm

/-- An event cache that is right away from the path is right after the write there has been
reverted. -/
theorem revertUserWriteOn_complete {S : Node K L} {s' : Processed K L}
    (hserver : s.viewCache.cachedServerSnap = ⟨S, true⟩) (hnone : r.patch p = none)
    (hagree : ∀ q, ¬p <+: q →
      (r.eventCache S).leaves q = s.viewCache.cachedEventSnap.node.leaves q)
    (h : revertUserWriteOn s p r = some s') :
    s'.viewCache.cachedEventSnap = ⟨r.eventCache S, true⟩ := by
  have hshadow := FWriteTreeRef.shadowingWriteAtPath_eq_none_iff.mpr hnone
  have hfull : s.viewCache.cachedServerSnap.isFullyInitialized = true :=
    congrArg FCacheNode.isFullyInitialized hserver
  have hcalc : r.calculateCompleteEventCache s.viewCache.completeServerSnap =
      some (r.eventCache S) := by
    rw [FViewCache.completeServerSnap, if_pos hfull, hserver,
      FWriteTreeRef.calculateCompleteEventCache_some]
  rw [revertUserWriteOn, if_neg (by simp [hshadow])] at h
  cases p with
  | nil =>
    simp only [hfull, if_true, hcalc, Bool.true_or] at h
    rw [← Option.some.inj h]
    rfl
  | cons k p =>
    simp only [hfull, hcalc, Bool.true_or] at h
    have hchild := revertChild_complete hserver hagree
    split at h
    · rw [← Option.some.inj h]
      dsimp only
      split
      · rfl
      · exact hchild
    · rw [← Option.some.inj h, hchild]

/-- After a write has been reverted the event cache is without it. -/
theorem synced_revert (h : Synced r s.viewCache) (hretract : r.patch.Retract r'.patch touched)
    (hpath : ∀ q, touched q → p <+: q)
    (hfits : r.patch.Fits s.viewCache.cachedServerSnap.node.leaves) {s' : Processed K L}
    (hs' : revertUserWriteOn s p r' = some s') : Synced r' s'.viewCache := by
  by_cases hnone : r'.patch p = none
  · intro hreq
    rw [server_revertUserWriteOn hs'] at hreq ⊢
    have hinit := hreq.resolve_right (not_not.mpr (undecided_nil hnone))
    refine revertUserWriteOn_complete (congrArg (FCacheNode.mk _) hinit) hnone ?_ hs'
    intro q hq
    rw [leaves_eventCache_of_retract hretract hfits (mt (hpath q) hq), h (Or.inl hinit)]
  · rw [revertUserWriteOn, if_pos] at hs'
    · rw [← Option.some.inj hs']
      exact synced_of_shadowed h hretract hpath hnone
    · exact FWriteTreeRef.isSome_shadowingWriteAtPath_iff.mpr hnone

/-- The merge that an answer to a merge makes: the data of the server at its paths. -/
def ackedMerge (c : FCacheNode K L) (p : FPath K) (t : FImmutableTree K Unit) :
    CompoundWrite K L :=
  t.entries.foldl
    (fun changedChildren e =>
      if c.isCompleteForPath (p ++ e.1) then
        changedChildren.addWrite (c.node.getChild (p ++ e.1)) e.1
      else changedChildren)
    CompoundWrite.emptyWrite

omit [DecidableEq L] in
/-- The merge at the root decides what the merge decides below its path. -/
theorem patch_actualMerge (p : FPath K) (m : CompoundWrite K L) :
    (actualMerge p m).patch = Patch.shift p m.patch := by
  rw [actualMerge]
  split
  next hp => rw [List.isEmpty_iff.mp hp, Patch.shift_nil]
  next =>
    rw [CompoundWrite.patch_addCompoundWrite, CompoundWrite.patch_emptyWrite,
      CompoundWrite.layer_map_writes]

omit [DecidableEq L] in
/-- The merge of an answer writes what is there. -/
theorem ackedMerge_spec (t : FImmutableTree K Unit) (S : Node K L) (p : FPath K) :
    (∀ q, (ackedMerge ⟨S, true⟩ p t).patch q ≠ none ↔ ∃ e ∈ t.entries, e.1 <+: q) ∧
      ∀ q v, (ackedMerge ⟨S, true⟩ p t).patch q = some v → v = S.leaves (p ++ q) := by
  have hcomplete : ∀ q, (⟨S, true⟩ : FCacheNode K L).isCompleteForPath q = true := fun q => by
    cases q <;> rfl
  simp only [ackedMerge, hcomplete, if_true]
  have hfold : ∀ (es : List (FPath K × Unit)) (m : CompoundWrite K L),
      (∀ q v, m.patch q = some v → v = S.leaves (p ++ q)) →
      let m' := es.foldl (fun m e => m.addWrite (S.getChild (p ++ e.1)) e.1) m
      (∀ q, m'.patch q ≠ none ↔ m.patch q ≠ none ∨ ∃ e ∈ es, e.1 <+: q) ∧
        ∀ q v, m'.patch q = some v → v = S.leaves (p ++ q) := by
    intro es
    induction es with
    | nil => exact fun m hm => ⟨by simp, hm⟩
    | cons e es ih =>
      intro m hm
      have hm' : ∀ q v, (m.addWrite (S.getChild (p ++ e.1)) e.1).patch q = some v →
          v = S.leaves (p ++ q) := by
        intro q v hq
        rw [CompoundWrite.patch_addWrite, Node.leaves_getChild] at hq
        rcases PathMap.prefix_cases e.1 q with ⟨u, rfl⟩ | ⟨u, hu, he⟩ | hapart
        · rw [Patch.write_append, PathMap.sub_apply, List.append_assoc] at hq
          exact (Option.some.inj hq).symm
        · rw [he] at hq
          by_cases hempty : S.leaves.sub (p ++ (q ++ u)) = PathMap.empty
          · rw [hempty, Patch.write_empty_of_above _ hu] at hq
            exact hm q v hq
          · rw [Patch.write_of_above _ hu hempty] at hq
            obtain ⟨-, -, rfl⟩ := Option.map_eq_some_iff.mp hq
            rw [← List.append_assoc] at hempty
            exact (Node.leaves_eq_none_of_sub_ne hu hempty).symm
        · rw [Patch.write_of_apart _ _ hapart] at hq
          exact hm q v hq
      obtain ⟨hdec, hval⟩ := ih _ hm'
      refine ⟨fun q => (hdec q).trans ?_, hval⟩
      rw [CompoundWrite.patch_addWrite, Ne, Patch.write_eq_none_iff]
      simp only [List.mem_cons, exists_eq_or_imp]
      tauto
  obtain ⟨hdec, hval⟩ := hfold t.entries .emptyWrite (by simp)
  exact ⟨fun q => (hdec q).trans (by simp), hval⟩

/-- The answer to an overwrite: what the server has at the path is put there again. -/
theorem synced_ackOverwrite (h : Synced r s.viewCache)
    (hretract : r.patch.Retract r'.patch touched) (hpath : ∀ q, touched q → p <+: q)
    (hfits : r.patch.Fits s.viewCache.cachedServerSnap.node.leaves) (hnone : r'.patch p = none)
    {s' : Processed K L}
    (hs' : applyServerOverwriteTo s p (s.viewCache.cachedServerSnap.node.getChild p) r' =
      some s') : Synced r' s'.viewCache := by
  cases p with
  | nil => exact EndsWith.synced (generate_nil rfl fun hdec => absurd hnone hdec) hs'
  | cons k p =>
    intro hreq
    rw [isFullyInitialized_applyServerOverwriteTo hs'] at hreq
    have hinit := hreq.resolve_right (not_not.mpr (undecided_nil hnone))
    have hevent := h (Or.inl hinit)
    rw [applyServerOverwriteTo] at hs'
    dsimp only at hs'
    rw [if_neg (by simp [FCacheNode.isCompleteForPath, FCacheNode.isCompleteForChild, hinit]),
      Processed.updateServerChildIn_updateChild, Node.updateChild_getChild] at hs'
    refine EndsWith.synced (generate_cons ?_ (fun _ => ?_) fun hdec => absurd hnone hdec) hs' ?_
    · exact congrArg FCacheNode.isFullyInitialized hevent
    · refine near_of_agree fun q hq => ?_
      simp only [Processed.updateServerSnap, FViewCache.updateServerSnap, hevent]
      exact (leaves_eventCache_of_retract hretract hfits (mt (hpath q) hq)).symm
    · rw [server_generate hs']
      exact Or.inl hinit

/-- The answer to a merge: what the server has at its paths is put there again. -/
theorem synced_ackMerge (h : Synced r s.viewCache) (hretract : r.patch.Retract r'.patch touched)
    {t : FImmutableTree K Unit} (ht : ∀ e ∈ t.entries, e.1 ≠ [])
    (hpath : ∀ q, touched q → ∃ e ∈ t.entries, p ++ e.1 <+: q)
    (hfits : r.patch.Fits s.viewCache.cachedServerSnap.node.leaves) (hnone : r'.patch p = none)
    {s' : Processed K L}
    (hs' : applyServerMergeTo s p (ackedMerge s.viewCache.cachedServerSnap p t) r' = some s') :
    Synced r' s'.viewCache := by
  intro hreq
  rw [isFullyInitialized_applyServerMergeTo hs'] at hreq
  have hinit := hreq.resolve_right (not_not.mpr (undecided_nil hnone))
  obtain ⟨⟨⟨E, e⟩, ⟨S, i⟩⟩, reported, held⟩ := s
  obtain rfl : i = true := hinit
  have hevent := h (Or.inl rfl)
  obtain ⟨hdec, hval⟩ := ackedMerge_spec t S p
  have hpatch := patch_actualMerge p (ackedMerge ⟨S, true⟩ p t)
  have hroot : (actualMerge p (ackedMerge ⟨S, true⟩ p t)).patch [] = none := by
    rw [hpatch]
    cases p with
    | cons k p => exact Patch.shift_of_not_above _ (by simp)
    | nil =>
      rw [Patch.shift_nil]
      by_contra hne
      obtain ⟨e, he, hpre⟩ := (hdec []).mp hne
      exact ht e he (List.prefix_nil.mp hpre)
  -- the merge puts nothing new
  have hself : (actualMerge p (ackedMerge ⟨S, true⟩ p t)).applyToNode S = S := by
    apply Node.ext_leaves
    rw [CompoundWrite.leaves_applyToNode, hpatch]
    refine Patch.apply_eq_self ?_ ?_
    · intro q v hq
      by_cases hp : p <+: q
      · obtain ⟨u, rfl⟩ := hp
        exact hval u v (by rwa [Patch.shift_append] at hq)
      · rw [Patch.shift_of_not_above _ hp] at hq
        contradiction
    · intro q u hu
      exact fun hne => Node.leaves_append_of_leaf hne hu
  have hagree : ∀ q, ¬touched q → (r'.eventCache S).leaves q = (r.eventCache S).leaves q :=
    fun q hq => leaves_eventCache_of_retract hretract hfits hq
  have hchild : ∀ k, r'.patch [k] ≠ none → (r.eventCache S).getImmediateChild k =
      (r'.childWriteTreeRef k).eventCache
        (((actualMerge p (ackedMerge ⟨S, true⟩ p t)).applyToNode S).getImmediateChild k) := by
    intro k hk
    rw [hself, ← FWriteTreeRef.getImmediateChild_eventCache]
    apply Node.ext_leaves
    ext1 q
    have hdown := r'.down_patch [k] q hk
    obtain ⟨v, hv⟩ := Option.ne_none_iff_exists'.mp hdown
    rw [Node.leaves_getImmediateChild, Node.leaves_getImmediateChild, PathMap.sub_apply,
      PathMap.sub_apply, FWriteTreeRef.leaves_eventCache, FWriteTreeRef.leaves_eventCache,
      Patch.apply_of_some hv, Patch.apply_of_some ((hretract.kept _ hdown).symm.trans hv)]
  obtain ⟨ks, hks, hserver', hevent'⟩ := applyServerMergeTo_complete rfl hevent hchild hs'
  rw [hserver', hevent', hself, foldl_updateImmediateChild_self]
  congr 1
  refine foldl_updateImmediateChild_eq ?_ ?_ ?_
  · exact fun k _ => FWriteTreeRef.getImmediateChild_eventCache r' S k
  · intro k hk
    apply Node.ext_leaves
    ext1 q
    rw [Node.leaves_getImmediateChild, Node.leaves_getImmediateChild]
    refine (hagree (k :: q) fun htouched => hk ((hks k).mpr ?_)).symm
    obtain ⟨e, he, hpre⟩ := hpath _ htouched
    obtain ⟨j, u, hju⟩ := List.exists_cons_of_ne_nil
      (show p ++ e.1 ≠ [] by simp [ht e he])
    rw [hju] at hpre
    obtain ⟨rfl, -⟩ := List.cons_prefix_cons.mp hpre
    refine CompoundWrite.exists_childCompoundWrite hroot (q := u) ?_
    rw [hpatch, ← hju, Patch.shift_append]
    exact (hdec e.1).mpr ⟨e, he, List.prefix_rfl⟩
  · refine (hagree [] fun htouched => ?_).symm
    obtain ⟨e, he, hpre⟩ := hpath _ htouched
    exact ht e he (List.append_eq_nil_iff.mp (List.prefix_nil.mp hpre)).2

/-- After the answer to a write the event cache is without it. -/
theorem synced_ack (h : Synced r s.viewCache) (hretract : r.patch.Retract r'.patch touched)
    {t : FImmutableTree K Unit} (hpath : ∀ q, touched q → p <+: q)
    (ht : t.value = none → ∀ q, touched q → ∃ e ∈ t.entries, p ++ e.1 <+: q)
    (hfits : r.patch.Fits s.viewCache.cachedServerSnap.node.leaves) {s' : Processed K L}
    (hs' : ackUserWriteOn s p t r' = some s') : Synced r' s'.viewCache := by
  by_cases hnone : r'.patch p = none
  · rw [ackUserWriteOn, if_neg (by simp [FWriteTreeRef.shadowingWriteAtPath_eq_none_iff.mpr hnone])]
      at hs'
    dsimp only at hs'
    split at hs'
    next hvalue =>
      split at hs'
      · exact synced_ackOverwrite h hretract hpath hfits hnone hs'
      next hpart =>
        -- the server cache is not complete
        rw [Bool.or_eq_true, not_or, Bool.and_eq_true, not_and] at hpart
        have hsame : s'.viewCache.cachedServerSnap.isFullyInitialized =
            s.viewCache.cachedServerSnap.isFullyInitialized := by
          split at hs'
          · exact isFullyInitialized_applyServerMergeTo hs'
          · rw [← Option.some.inj hs']
        rintro (hinit | hdec)
        · rw [hsame] at hinit
          refine absurd ?_ hpart.2
          cases p with
          | nil => exact hinit
          | cons k p => simp [FCacheNode.isCompleteForPath, FCacheNode.isCompleteForChild, hinit]
        · exact absurd (undecided_nil hnone) hdec
    next hvalue =>
      exact synced_ackMerge h hretract (fun e he => FImmutableTree.ne_nil_of_mem_entries hvalue he)
        (ht hvalue) hfits hnone hs'
  · rw [ackUserWriteOn, if_pos] at hs'
    · rw [← Option.some.inj hs']
      exact synced_of_shadowed h hretract hpath hnone
    · exact FWriteTreeRef.isSome_shadowingWriteAtPath_iff.mpr hnone

end Retract

/-! ### All operations -/

end FViewProcessor

namespace FOperation

omit [DecidableEq K] [Std.TransOrd K] [Std.LawfulEqOrd K]

/-- The paths of the write that an answer is about. -/
def Acked (path : FPath K) (affectedTree : FImmutableTree K Unit) (q : FPath K) : Prop :=
  ∃ p, affectedTree.valueAtPath p = some () ∧ path ++ p <+: q

/-- The operation accounts for the pending writes deciding `d` instead of `c`. -/
def Accounts (c d : Patch K L) : FOperation K L → Prop
  | userOverwrite path snap => d = Patch.stack c (Patch.shift path (Patch.total snap.leaves))
  | userMerge path children => d = Patch.stack c (Patch.shift path children.patch)
  | ackUserWrite path affectedTree _ =>
    ∃ touched, Patch.Retract c d touched ∧ ∀ q, touched q → Acked path affectedTree q
  | _ => d = c

end FOperation

namespace FViewProcessor

variable {s : Processed K L} {r r' : FWriteTreeRef K L}

/-- An operation that accounts for the change of the pending writes keeps the caches in sync. -/
theorem synced_process [DecidableEq L] (h : Synced r s.viewCache) {operation : FOperation K L}
    (hop : operation.Accounts r.patch r'.patch)
    (hfits : r.patch.Fits s.viewCache.cachedServerSnap.node.leaves) {c : Option (Node K L)}
    {s' : Processed K L} (hs' : process s operation r' c = some s')
    (hfits' : r'.patch.Fits s'.viewCache.cachedServerSnap.node.leaves) :
    Synced r' s'.viewCache := by
  cases operation with
  | userOverwrite p n =>
    obtain rfl := Option.some.inj hs'
    rw [server_applyUserOverwriteTo] at hfits'
    exact synced_userOverwrite h hop hfits' c
  | userMerge p m =>
    obtain rfl := Option.some.inj hs'
    rw [server_applyUserMergeTo] at hfits'
    exact synced_userMerge h hop hfits' c
  | serverOverwrite p n => exact synced_serverOverwrite (h.of_patch_eq hop) (hop ▸ hfits) hs'
  | serverMerge p m => exact synced_serverMerge (h.of_patch_eq hop) (hop ▸ hfits) hs'
  | listenComplete p => exact synced_listenComplete (h.of_patch_eq hop) hs'
  | ackUserWrite p t revert =>
    obtain ⟨touched, hretract, htouched⟩ := hop
    have hpath : ∀ q, touched q → p <+: q := by
      intro q hq
      obtain ⟨m, -, hm⟩ := htouched q hq
      exact (List.prefix_append p m).trans hm
    cases revert with
    | true => exact synced_revert h hretract hpath hfits hs'
    | false =>
      refine synced_ack h hretract hpath ?_ hfits hs'
      intro _ q hq
      obtain ⟨m, hm, hpre⟩ := htouched q hq
      exact ⟨(m, ()), FImmutableTree.mem_entries_of_valueAtPath hm, hpre⟩

end FViewProcessor

end Database
