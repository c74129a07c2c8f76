import DateCourse.Database.Key
import DateCourse.Store.SortedAssoc
import DateCourse.Store.PathMap
import Mathlib.Data.List.Perm.Subperm

/-!
# Nodes of the database tree

`FNode` is a leaf with a value or a node with children in key order; the empty node is a node
without children. Keys are of any type with an order that ties no two of them, such as `PlainKey`;
priorities are left out. Reading and updating a node follow a path. A node that keeps no empty child
is determined by its leaves, and reading and updating are those of `PathMap`.

## Main definitions

* `FPath.contains` and `FPath.relativePathFrom`;
* `FNode.getChild` and `FNode.updateChild`;
* `FNode.leaves`: the leaves of a node, by their paths;
* `FNode.WF`: the children are in order and none is empty.

## Main results

* `FNode.leaves_getChild` and `FNode.leaves_updateChild`: the operations on the leaves;
* `FNode.WF.updateChild`: updates keep no empty child;
* `FNode.WF.ext`: nodes with the same leaves are equal.
-/

namespace Database

/-! ## Paths -/

/-- A path is the list of its pieces. -/
abbrev FPath (K : Type*) := List K

namespace FPath

variable {K : Type*} [DecidableEq K]

/-- The loop of `contains:` over the pieces of both paths. -/
def samePieces : FPath K → FPath K → Bool
  | [], _ => true
  | _ :: _, [] => true
  | thisSeg :: this, otherSeg :: other =>
    if thisSeg ≠ otherSeg then false else samePieces this other

/-- `-[FPath contains:]`. -/
def contains (this other : FPath K) : Bool :=
  if this.length > other.length then false else samePieces this other

/-- `+[FPath relativePathFrom:to:]`, which throws if the inner path is not within the outer one. -/
def relativePathFrom : FPath K → FPath K → Option (FPath K)
  | [], inner => some inner
  | _ :: _, [] => none
  | o :: outer, i :: inner => if o = i then relativePathFrom outer inner else none

/-- A path contains those at and below it. -/
theorem contains_iff (p q : FPath K) : contains p q = true ↔ p <+: q := by
  induction p generalizing q with
  | nil => simp [contains, samePieces]
  | cons a p ih =>
    cases q with
    | nil => simp [contains]
    | cons b q =>
      rw [List.cons_prefix_cons, ← ih]
      by_cases hab : a = b
      · simp [contains, samePieces, hab]
      · simp [contains, samePieces, hab]

/-- The path of a path below, relative to one above. -/
@[simp]
theorem relativePathFrom_append (p r : FPath K) : relativePathFrom p (p ++ r) = some r := by
  induction p with
  | nil => rfl
  | cons a p ih => simp [relativePathFrom, ih]

end FPath

/-! ## Nodes -/

/-- A node of the database; the empty node has no children. -/
inductive FNode (K L : Type*)
  | leaf (value : L)
  | children (children : List (K × FNode K L))

namespace FNode

variable {K L : Type*}

/-- `+[FEmptyNode emptyNode]`. -/
def emptyNode : FNode K L := children []

/-- Only a node without children is empty. -/
def isEmpty : FNode K L → Bool
  | leaf _ => false
  | children cs => cs.isEmpty

/-- Whether the node is an `FLeafNode`. -/
def isLeafNode : FNode K L → Bool
  | leaf _ => true
  | children _ => false

/-- The children of the node. -/
def entries : FNode K L → List (K × FNode K L)
  | leaf _ => []
  | children cs => cs

/-- Only the node without children is empty. -/
theorem isEmpty_iff {n : FNode K L} : n.isEmpty = true ↔ n = emptyNode := by
  cases n with
  | leaf v => simp [isEmpty, emptyNode]
  | children cs => simp [isEmpty, emptyNode]

/-- Paths of different children are apart. -/
theorem apart_cons {k k' : K} (h : k ≠ k') (p q : FPath K) : PathMap.Apart (k :: p) (k' :: q) := by
  simp [PathMap.Apart, List.cons_prefix_cons, h, Ne.symm h]

variable [Ord K]

/-- `getImmediateChild:`. -/
def getImmediateChild (n : FNode K L) (childName : K) : FNode K L :=
  match n with
  | leaf _ => emptyNode
  | children cs => (SortedAssoc.find cs childName).getD emptyNode

/-- `getChild:`. -/
def getChild : FNode K L → FPath K → FNode K L
  | n, [] => n
  | leaf _, _ :: _ => emptyNode
  | children cs, front :: path => ((children cs).getImmediateChild front).getChild path

/-- `hasChild:`. -/
def hasChild (n : FNode K L) (childName : K) : Bool := !(n.getImmediateChild childName).isEmpty

/-- `updateImmediateChild:withNewChild:` of a node with the given children. -/
def updateChildren (cs : List (K × FNode K L)) (childName : K) (newChildNode : FNode K L) :
    FNode K L :=
  let newChildren :=
    if newChildNode.isEmpty then SortedAssoc.erase cs childName
    else SortedAssoc.insert cs childName newChildNode
  if newChildren.isEmpty then emptyNode else children newChildren

/-- `updateImmediateChild:withNewChild:`. A leaf stays if there is nothing to put below it and
becomes a node with one child otherwise. -/
def updateImmediateChild (n : FNode K L) (childName : K) (newChildNode : FNode K L) : FNode K L :=
  match n with
  | leaf v => if newChildNode.isEmpty then leaf v else updateChildren [] childName newChildNode
  | children cs => updateChildren cs childName newChildNode

/-- `updateChild:withNewChild:`. -/
def updateChild : FNode K L → FPath K → FNode K L → FNode K L
  | _, [], newChildNode => newChildNode
  | leaf v, front :: path, newChildNode =>
    if newChildNode.isEmpty then leaf v
    else (leaf v).updateImmediateChild front (emptyNode.updateChild path newChildNode)
  | children cs, front :: path, newChildNode =>
    (children cs).updateImmediateChild front
      (((children cs).getImmediateChild front).updateChild path newChildNode)

/-- Updating the children erases an entry or inserts one. -/
theorem updateChildren_eq (cs : List (K × FNode K L)) (k : K) (m : FNode K L) :
    updateChildren cs k m =
      children (if m.isEmpty then SortedAssoc.erase cs k else SortedAssoc.insert cs k m) := by
  simp only [updateChildren]
  generalize (if m.isEmpty then SortedAssoc.erase cs k else SortedAssoc.insert cs k m) = ds
  cases ds with
  | nil => rfl
  | cons d ds => rfl

mutual

/-- `isEqual:`. Two nodes with children are compared by the number of their children and by the
children of the first one. -/
def isEqual [BEq L] : FNode K L → FNode K L → Bool
  | leaf v, other =>
    match other with
    | leaf w => v == w
    | children _ => false
  | children cs, other =>
    match other with
    | leaf _ => false
    | children ds =>
      if cs.isEmpty && ds.isEmpty then true
      else if cs.length = ds.length then childrenEqual cs (children ds)
      else false

/-- The enumeration of the children in `isEqual:`. -/
def childrenEqual [BEq L] : List (K × FNode K L) → FNode K L → Bool
  | [], _ => true
  | (key, node) :: cs, other =>
    node.isEqual (other.getImmediateChild key) && childrenEqual cs other

end

/-- Children are equal if each is equal to the child of the other node under its key. -/
theorem childrenEqual_iff [BEq L] {cs : List (K × FNode K L)} {n : FNode K L} :
    childrenEqual cs n = true ↔ ∀ e ∈ cs, e.2.isEqual (n.getImmediateChild e.1) = true := by
  induction cs with
  | nil => simp [childrenEqual]
  | cons e cs ih => simp [childrenEqual, ih]

/-! ## Leaves -/

/-- The leaves of a node: its value where the path ends at a leaf. -/
def leaves : FNode K L → PathMap K L
  | leaf v, [] => some v
  | children _, [] => none
  | leaf _, _ :: _ => none
  | children cs, front :: path => ((children cs).getImmediateChild front).leaves path

@[simp]
theorem leaves_leaf_nil (v : L) : (leaf v : FNode K L).leaves [] = some v := rfl

@[simp]
theorem leaves_leaf_cons (v : L) (k : K) (p : FPath K) : (leaf v).leaves (k :: p) = none := rfl

@[simp]
theorem leaves_children_nil (cs : List (K × FNode K L)) : (children cs).leaves [] = none := rfl

/-- The empty node has no leaves. -/
@[simp]
theorem leaves_emptyNode : (emptyNode : FNode K L).leaves = PathMap.empty := by
  ext1 p
  induction p with
  | nil => rfl
  | cons k p ih => exact ih

/-- The leaves below a child are those of the child. -/
theorem leaves_cons (n : FNode K L) (k : K) (p : FPath K) :
    n.leaves (k :: p) = (n.getImmediateChild k).leaves p := by
  cases n with
  | leaf v =>
    rw [getImmediateChild, leaves_emptyNode]
    rfl
  | children cs => rfl

/-- The leaves of a child. -/
@[simp]
theorem leaves_getImmediateChild (n : FNode K L) (k : K) :
    (n.getImmediateChild k).leaves = n.leaves.sub [k] := by
  ext1 p
  exact (leaves_cons n k p).symm

/-- What is read at a path are the leaves below it. -/
@[simp]
theorem leaves_getChild (n : FNode K L) (p : FPath K) : (n.getChild p).leaves = n.leaves.sub p := by
  induction p generalizing n with
  | nil => simp [getChild]
  | cons k p ih =>
    cases n with
    | leaf v =>
      rw [getChild, leaves_emptyNode]
      rfl
    | children cs =>
      rw [getChild, ih, leaves_getImmediateChild, PathMap.sub_sub, List.singleton_append]

/-! ## Nodes without empty children -/

/-- The children are in order, and none of them is empty or has an empty child. -/
inductive WF : FNode K L → Prop
  | leaf (v : L) : WF (leaf v)
  | children (cs : List (K × FNode K L)) (sorted : SortedAssoc.Sorted cs)
      (nonempty : ∀ e ∈ cs, e.2.isEmpty = false) (wf : ∀ e ∈ cs, WF e.2) : WF (children cs)

theorem wf_emptyNode : (emptyNode : FNode K L).WF :=
  WF.children [] SortedAssoc.sorted_nil (by simp) (by simp)

/-- The children of a node are well formed. -/
theorem WF.getImmediateChild {n : FNode K L} (hn : n.WF) (k : K) : (n.getImmediateChild k).WF := by
  cases hn with
  | leaf v => exact wf_emptyNode
  | children cs hsorted hne hwf =>
    rw [FNode.getImmediateChild]
    cases hfind : SortedAssoc.find cs k with
    | none => exact wf_emptyNode
    | some c =>
      obtain ⟨k', hmem, -⟩ := SortedAssoc.exists_of_find_eq_some hfind
      exact hwf (k', c) hmem

/-- What is below a path of a node is well formed. -/
theorem WF.getChild {n : FNode K L} (hn : n.WF) (p : FPath K) : (n.getChild p).WF := by
  induction p generalizing n with
  | nil => exact hn
  | cons k p ih =>
    cases n with
    | leaf v => exact wf_emptyNode
    | children cs => exact ih (hn.getImmediateChild k)

/-- The entries of a node are well formed. -/
theorem WF.of_mem_entries {n : FNode K L} (hn : n.WF) : ∀ e ∈ n.entries, e.2.WF := by
  cases hn with
  | leaf v => simp [entries]
  | children cs hsorted hne hwf => exact hwf

/-- A node that is not empty has a leaf. -/
theorem WF.exists_leaf [Std.LawfulEqOrd K] {n : FNode K L} (hn : n.WF) (hne : n.isEmpty = false) :
    ∃ p v, n.leaves p = some v := by
  induction hn with
  | leaf v => exact ⟨[], v, rfl⟩
  | children cs hsorted hne' hwf ih =>
    obtain ⟨⟨k, c⟩, hmem⟩ : ∃ e, e ∈ cs := by
      cases cs with
      | nil => simp [isEmpty] at hne
      | cons e cs => exact ⟨e, List.mem_cons_self⟩
    obtain ⟨p, v, hv⟩ := ih (k, c) hmem (hne' _ hmem)
    refine ⟨k :: p, v, ?_⟩
    rw [leaves_cons, FNode.getImmediateChild, (SortedAssoc.find_eq_some_iff hsorted).mpr hmem]
    exact hv

/-- Only the empty node has no leaves. -/
theorem WF.leaves_eq_empty_iff [Std.LawfulEqOrd K] {n : FNode K L} (hn : n.WF) :
    n.leaves = PathMap.empty ↔ n.isEmpty = true := by
  constructor
  · intro h
    by_contra hne
    obtain ⟨p, v, hv⟩ := hn.exists_leaf (by simpa using hne)
    rw [h] at hv
    exact absurd hv (by simp)
  · intro h
    rw [isEmpty_iff.mp h, leaves_emptyNode]

variable [Std.TransOrd K]

/-- Updated children are well formed. -/
theorem wf_updateChildren {cs : List (K × FNode K L)} (hcs : (children cs).WF) (k : K)
    {m : FNode K L} (hm : m.WF) : (updateChildren cs k m).WF := by
  rw [updateChildren_eq]
  cases hcs with
  | children cs hsorted hne hwf =>
    split
    next hme =>
      exact WF.children _ (hsorted.erase k) (fun e he => hne e (SortedAssoc.mem_erase he))
        (fun e he => hwf e (SortedAssoc.mem_erase he))
    next hme =>
      refine WF.children _ (hsorted.insert k m) ?_ ?_
      · intro e he
        rcases SortedAssoc.mem_insert he with rfl | he
        · simpa using hme
        · exact hne e he
      · intro e he
        rcases SortedAssoc.mem_insert he with rfl | he
        · exact hm
        · exact hwf e he

/-- Updating a child keeps no empty child. -/
theorem WF.updateImmediateChild {n : FNode K L} (hn : n.WF) (k : K) {m : FNode K L} (hm : m.WF) :
    (n.updateImmediateChild k m).WF := by
  cases n with
  | leaf v =>
    rw [FNode.updateImmediateChild]
    split
    · exact hn
    · exact wf_updateChildren wf_emptyNode k hm
  | children cs => exact wf_updateChildren hn k hm

/-- Updating what is below a path keeps no empty child. -/
theorem WF.updateChild {n : FNode K L} (hn : n.WF) (p : FPath K) {m : FNode K L} (hm : m.WF) :
    (n.updateChild p m).WF := by
  induction p generalizing n with
  | nil =>
    cases n <;> exact hm
  | cons k p ih =>
    cases n with
    | leaf v =>
      rw [FNode.updateChild]
      split
      · exact hn
      · exact hn.updateImmediateChild k (ih wf_emptyNode)
    | children cs => exact hn.updateImmediateChild k (ih (hn.getImmediateChild k))

/-! ## Updates on the leaves -/

/-- After an update the new child is found under the tied keys. -/
theorem getImmediateChild_updateChildren {cs : List (K × FNode K L)} (hcs : SortedAssoc.Sorted cs)
    (k : K) (m : FNode K L) (q : K) :
    (updateChildren cs k m).getImmediateChild q =
      if compare q k = .eq then m else (children cs).getImmediateChild q := by
  rw [updateChildren_eq, getImmediateChild, getImmediateChild]
  by_cases hm : m.isEmpty
  · rw [if_pos hm, SortedAssoc.find_erase hcs]
    split
    · rw [isEmpty_iff.mp hm, Option.getD_none]
    · rfl
  · rw [if_neg hm, SortedAssoc.find_insert]
    split <;> rfl

section LawfulEqOrd

variable [Std.LawfulEqOrd K]

/-- Updating children writes the leaves of the new one under its key. -/
theorem leaves_updateChildren {cs : List (K × FNode K L)} (hcs : SortedAssoc.Sorted cs)
    (k : K) (m : FNode K L) :
    (updateChildren cs k m).leaves = (children cs).leaves.write [k] m.leaves := by
  ext1 p
  cases p with
  | nil =>
    rw [updateChildren_eq, leaves_children_nil]
    exact (PathMap.write_of_above_of_none (q := []) (r := [k]) _ (by simp) rfl).symm
  | cons q p =>
    rw [leaves_cons, getImmediateChild_updateChildren hcs]
    by_cases hq : q = k
    · rw [hq, if_pos Std.ReflOrd.compare_self]
      exact (PathMap.write_append _ [k] _ p).symm
    · rw [if_neg (mt Std.LawfulEqOrd.eq_of_compare hq),
        PathMap.write_of_apart _ _ (apart_cons (Ne.symm hq) [] p), leaves_cons]

/-- Updating a child writes its leaves under its key. -/
theorem leaves_updateImmediateChild {n m : FNode K L} (hn : n.WF) (hm : m.WF) (k : K) :
    (n.updateImmediateChild k m).leaves = n.leaves.write [k] m.leaves := by
  cases hn with
  | leaf v =>
    rw [updateImmediateChild]
    split
    next hme =>
      rw [isEmpty_iff.mp hme, leaves_emptyNode, PathMap.write_empty_of_sub rfl]
    next hme =>
      have hleaves : m.leaves ≠ PathMap.empty := mt hm.leaves_eq_empty_iff.mp hme
      rw [leaves_updateChildren SortedAssoc.sorted_nil]
      apply PathMap.ext_of_sub (p := [k])
      · rw [PathMap.sub_write_self, PathMap.sub_write_self]
      · intro p hp
        rw [PathMap.write_of_apart _ _ hp, PathMap.write_of_apart _ _ hp]
        cases p with
        | nil => exact absurd (List.nil_prefix) hp.2
        | cons q p =>
          rw [leaves_leaf_cons]
          exact congrFun leaves_emptyNode (q :: p)
      · intro q r hr hqr
        rw [hqr, PathMap.write_of_above _ _ hr hleaves, PathMap.write_of_above _ _ hr hleaves]
  | children cs hsorted hne hwf => exact leaves_updateChildren hsorted k m

/-- Updating a node is writing to its leaves. -/
theorem leaves_updateChild {n m : FNode K L} (hn : n.WF) (hm : m.WF) (p : FPath K) :
    (n.updateChild p m).leaves = n.leaves.write p m.leaves := by
  induction p generalizing n with
  | nil => cases n <;> simp [updateChild]
  | cons k p ih =>
    have hstep : n.leaves.write [k] (((n.getImmediateChild k).updateChild p m).leaves) =
        n.leaves.write [k] ((n.leaves.sub [k]).write p m.leaves) := by
      rw [ih (hn.getImmediateChild k), leaves_getImmediateChild]
    cases n with
    | leaf v =>
      rw [updateChild]
      split
      next hme =>
        -- deleting below a leaf
        rw [isEmpty_iff.mp hme, leaves_emptyNode, PathMap.write_empty_of_sub rfl]
      next hme =>
        have hleaves : m.leaves ≠ PathMap.empty := mt hm.leaves_eq_empty_iff.mp hme
        rw [leaves_updateImmediateChild hn (wf_emptyNode.updateChild p hm)]
        exact hstep.trans (PathMap.write_append_eq _ [k] p (Or.inl hleaves)).symm
    | children cs =>
      rw [updateChild, leaves_updateImmediateChild hn ((hn.getImmediateChild k).updateChild p hm)]
      refine hstep.trans (PathMap.write_append_eq _ [k] p (Or.inr ?_)).symm
      -- a node with children is no leaf
      intro q r hr hqr
      obtain rfl : q = [] := by
        cases q with
        | nil => rfl
        | cons a q => simp_all
      rfl

/-- Nodes with the same leaves are equal. -/
theorem WF.ext {n m : FNode K L} (hn : n.WF) (hm : m.WF) (h : n.leaves = m.leaves) : n = m := by
  induction hn generalizing m with
  | leaf v =>
    cases m with
    | leaf w => simpa using congrFun h []
    | children ds => simpa using congrFun h []
  | children cs hcs hne hwf ih =>
    cases hm with
    | leaf w => simpa using congrFun h []
    | children ds hds hne' hwf' =>
      congr 1
      have hsub : ∀ k, ((FNode.children cs).getImmediateChild k).leaves =
          ((FNode.children ds).getImmediateChild k).leaves := by
        intro k
        rw [leaves_getImmediateChild, leaves_getImmediateChild, h]
      apply hcs.ext hds
      intro k
      have hk := hsub k
      rw [FNode.getImmediateChild, FNode.getImmediateChild] at hk
      cases hc : SortedAssoc.find cs k with
      | none =>
        cases hd : SortedAssoc.find ds k with
        | none => rfl
        | some d =>
          have hmem := (SortedAssoc.find_eq_some_iff hds).mp hd
          rw [hc, hd, Option.getD_none, Option.getD_some, leaves_emptyNode] at hk
          have := (hwf' _ hmem).leaves_eq_empty_iff.mp hk.symm
          rw [hne' _ hmem] at this
          contradiction
      | some c =>
        have hmem := (SortedAssoc.find_eq_some_iff hcs).mp hc
        cases hd : SortedAssoc.find ds k with
        | none =>
          rw [hc, hd, Option.getD_none, Option.getD_some, leaves_emptyNode] at hk
          have := (hwf _ hmem).leaves_eq_empty_iff.mp hk
          rw [hne _ hmem] at this
          contradiction
        | some d =>
          have hmem' := (SortedAssoc.find_eq_some_iff hds).mp hd
          rw [hc, hd] at hk
          exact congrArg some (ih (k, c) hmem (hwf' _ hmem') hk)

/-! ## Equality -/

/-- `isEqual:` decides equality of nodes without empty children. -/
theorem WF.isEqual_iff [BEq L] [LawfulBEq L] {n m : FNode K L} (hn : n.WF) (hm : m.WF) :
    n.isEqual m = true ↔ n = m := by
  induction hn generalizing m with
  | leaf v =>
    cases m with
    | leaf w => simp [isEqual]
    | children ds => simp [isEqual]
  | children cs hcs hne hwf ih =>
    cases hm with
    | leaf w => simp [isEqual]
    | children ds hds hne' hwf' =>
      have hchild : ∀ e ∈ cs, e.2.isEqual ((FNode.children ds).getImmediateChild e.1) = true ↔
          e ∈ ds := by
        rintro ⟨k, c⟩ hmem
        rw [ih _ hmem ((WF.children ds hds hne' hwf').getImmediateChild k),
          ← SortedAssoc.find_eq_some_iff hds, FNode.getImmediateChild]
        have hc := hne _ hmem
        cases hfind : SortedAssoc.find ds k with
        | none =>
          rw [Option.getD_none]
          constructor
          · rintro rfl
            simp [emptyNode, isEmpty] at hc
          · simp
        | some d => simp [eq_comm]
      simp only [isEqual, FNode.children.injEq]
      constructor
      · intro h
        split_ifs at h with hempty hlen
        · simp only [Bool.and_eq_true, List.isEmpty_iff] at hempty
          rw [hempty.1, hempty.2]
        · -- as many entries as the other list, all of them found there
          have hall := childrenEqual_iff.mp h
          have hsub : cs ⊆ ds := fun e he => (hchild e he).mp (hall e he)
          have hnodup : cs.Nodup := hcs.imp fun hlt heq => by simp [heq] at hlt
          have hperm : cs.Perm ds :=
            (hnodup.subperm hsub).perm_of_length_le (by omega)
          apply hcs.ext hds
          intro k
          apply Option.ext
          intro c
          rw [SortedAssoc.find_eq_some_iff hcs, SortedAssoc.find_eq_some_iff hds, hperm.mem_iff]
      · rintro rfl
        split_ifs with hempty hlen
        · rfl
        · exact childrenEqual_iff.mpr fun e he => (hchild e he).mpr he
        · exact absurd rfl hlen

end LawfulEqOrd

end FNode

/-! ## Nodes that carry their invariant -/

/-- A node without empty children. -/
structure Node (K L : Type*) [Ord K] where
  node : FNode K L
  wf : node.WF

namespace Node

variable {K L : Type*} [Ord K]

/-- The leaves of the node. -/
def leaves (n : Node K L) : PathMap K L := n.node.leaves

/-- The empty node. -/
def emptyNode : Node K L := ⟨FNode.emptyNode, FNode.wf_emptyNode⟩

/-- Only the empty node has no children and no value. -/
def isEmpty (n : Node K L) : Bool := n.node.isEmpty

/-- Whether the node is an `FLeafNode`. -/
def isLeafNode (n : Node K L) : Bool := n.node.isLeafNode

/-- `getImmediateChild:`. -/
def getImmediateChild (n : Node K L) (k : K) : Node K L :=
  ⟨n.node.getImmediateChild k, n.wf.getImmediateChild k⟩

/-- `getChild:`. -/
def getChild (n : Node K L) (p : FPath K) : Node K L := ⟨n.node.getChild p, n.wf.getChild p⟩

/-- `hasChild:`. -/
def hasChild (n : Node K L) (k : K) : Bool := n.node.hasChild k

/-- The children that `enumerateChildrenUsingBlock:` visits, in key order. -/
def enumerateChildren (n : Node K L) : List (K × Node K L) :=
  n.node.entries.pmap (fun e he => (e.1, ⟨e.2, he⟩)) n.wf.of_mem_entries

/-- The empty node has no leaves. -/
@[simp]
theorem leaves_emptyNode : (emptyNode : Node K L).leaves = PathMap.empty := FNode.leaves_emptyNode

/-- The leaves of a child. -/
@[simp]
theorem leaves_getImmediateChild (n : Node K L) (k : K) :
    (n.getImmediateChild k).leaves = n.leaves.sub [k] := FNode.leaves_getImmediateChild n.node k

/-- The leaves below a path. -/
@[simp]
theorem leaves_getChild (n : Node K L) (p : FPath K) : (n.getChild p).leaves = n.leaves.sub p :=
  FNode.leaves_getChild n.node p

@[simp]
theorem isEmpty_emptyNode : (emptyNode : Node K L).isEmpty = true := rfl

theorem hasChild_eq (n : Node K L) (k : K) : n.hasChild k = !(n.getImmediateChild k).isEmpty := rfl

/-- A leaf has no children. -/
theorem getImmediateChild_of_isLeafNode {n : Node K L} (h : n.isLeafNode = true) (k : K) :
    n.getImmediateChild k = emptyNode := by
  obtain ⟨node, hn⟩ := n
  cases node with
  | leaf v => rfl
  | children cs => contradiction

/-- A leaf has its value at the root. -/
theorem isLeafNode_iff {n : Node K L} : n.isLeafNode = true ↔ n.leaves [] ≠ none := by
  obtain ⟨node, hn⟩ := n
  cases node with
  | leaf v => simp [isLeafNode, FNode.isLeafNode, leaves]
  | children cs => simp [isLeafNode, FNode.isLeafNode, leaves]

/-- The children are enumerated in the order of their keys. -/
theorem sorted_enumerateChildren (n : Node K L) : SortedAssoc.Sorted n.enumerateChildren := by
  obtain ⟨node, hn⟩ := n
  cases hn with
  | leaf v => exact SortedAssoc.sorted_nil
  | children cs hsorted hne hwf => exact List.Pairwise.pmap hsorted _ fun a _ b _ h => h

/-- The leaves below a child are those of the child. -/
theorem leaves_cons (n : Node K L) (k : K) (p : FPath K) :
    n.leaves (k :: p) = (n.getImmediateChild k).leaves p := FNode.leaves_cons n.node k p

/-- There is nothing below a leaf. -/
theorem leaves_append_of_leaf {n : Node K L} {q : FPath K} (h : n.leaves q ≠ none) {r : FPath K}
    (hr : r ≠ []) : n.leaves (q ++ r) = none := by
  induction q generalizing n with
  | nil =>
    cases r with
    | nil => contradiction
    | cons k r =>
      rw [List.nil_append, leaves_cons, getImmediateChild_of_isLeafNode (isLeafNode_iff.mpr h),
        leaves_emptyNode]
      rfl
  | cons k q ih =>
    rw [leaves_cons] at h
    rw [List.cons_append, leaves_cons]
    exact ih h

/-- Above a path with something below it there is no leaf. -/
theorem leaves_eq_none_of_sub_ne {n : Node K L} {q r : FPath K} (hr : r ≠ [])
    (h : n.leaves.sub (q ++ r) ≠ PathMap.empty) : n.leaves q = none := by
  by_contra hq
  apply h
  ext1 s
  rw [PathMap.sub_apply, List.append_assoc]
  exact leaves_append_of_leaf hq (by simp [hr])

/-- Only the empty node has no leaves. -/
theorem leaves_eq_empty_iff [Std.LawfulEqOrd K] {n : Node K L} :
    n.leaves = PathMap.empty ↔ n.isEmpty = true :=
  n.wf.leaves_eq_empty_iff

/-- The children are what is read under their keys, and none is empty. -/
theorem mem_enumerateChildren [Std.LawfulEqOrd K] {n c : Node K L} {k : K} :
    (k, c) ∈ n.enumerateChildren ↔ n.getImmediateChild k = c ∧ c.isEmpty = false := by
  obtain ⟨node, hn⟩ := n
  obtain ⟨child, hc⟩ := c
  cases hn with
  | leaf v =>
    simp only [enumerateChildren, FNode.entries, List.pmap_nil, List.not_mem_nil, false_iff]
    rintro ⟨h, hne⟩
    obtain rfl : FNode.emptyNode = child := congrArg node h
    contradiction
  | children cs hsorted hne hwf =>
    simp only [enumerateChildren, FNode.entries, List.mem_pmap, getImmediateChild, mk.injEq,
      FNode.getImmediateChild, isEmpty]
    constructor
    · rintro ⟨e, he, heq⟩
      obtain ⟨rfl, rfl⟩ : e.1 = k ∧ e.2 = child := by simpa using heq
      rw [(SortedAssoc.find_eq_some_iff hsorted).mpr he]
      exact ⟨rfl, hne e he⟩
    · rintro ⟨h, hne'⟩
      cases hfind : SortedAssoc.find cs k with
      | none =>
        rw [hfind] at h
        obtain rfl : FNode.emptyNode = child := h
        contradiction
      | some c =>
        rw [hfind] at h
        obtain rfl : c = child := h
        exact ⟨(k, c), (SortedAssoc.find_eq_some_iff hsorted).mp hfind, rfl⟩

variable [Std.TransOrd K]

/-- `updateImmediateChild:withNewChild:`. -/
def updateImmediateChild (n : Node K L) (k : K) (m : Node K L) : Node K L :=
  ⟨n.node.updateImmediateChild k m.node, n.wf.updateImmediateChild k m.wf⟩

/-- `updateChild:withNewChild:`. -/
def updateChild (n : Node K L) (p : FPath K) (m : Node K L) : Node K L :=
  ⟨n.node.updateChild p m.node, n.wf.updateChild p m.wf⟩

variable [Std.LawfulEqOrd K]

/-- Updating a child writes its leaves under its key. -/
@[simp]
theorem leaves_updateImmediateChild (n : Node K L) (k : K) (m : Node K L) :
    (n.updateImmediateChild k m).leaves = n.leaves.write [k] m.leaves :=
  FNode.leaves_updateImmediateChild n.wf m.wf k

/-- Updating what is below a path writes its leaves there. -/
@[simp]
theorem leaves_updateChild (n : Node K L) (p : FPath K) (m : Node K L) :
    (n.updateChild p m).leaves = n.leaves.write p m.leaves :=
  FNode.leaves_updateChild n.wf m.wf p

/-- Nodes with the same leaves are equal. -/
theorem ext_leaves {n m : Node K L} (h : n.leaves = m.leaves) : n = m := by
  obtain ⟨n, hn⟩ := n
  obtain ⟨m, hm⟩ := m
  obtain rfl : n = m := hn.ext hm h
  rfl

/-- A node is determined by its leaves. -/
theorem leaves_injective : Function.Injective (leaves : Node K L → PathMap K L) :=
  fun _ _ h => ext_leaves h

/-- What is written at a path is there. -/
@[simp]
theorem getChild_updateChild (n : Node K L) (p : FPath K) (m : Node K L) :
    (n.updateChild p m).getChild p = m := by
  apply ext_leaves
  rw [leaves_getChild, leaves_updateChild, PathMap.sub_write_self]

/-- Writing what is there changes nothing. -/
theorem updateChild_getChild (n : Node K L) (p : FPath K) : n.updateChild p (n.getChild p) = n := by
  apply ext_leaves
  rw [leaves_updateChild, leaves_getChild]
  by_cases h : n.leaves.sub p = PathMap.empty
  · rw [h, PathMap.write_empty_of_sub h]
  · refine PathMap.write_sub_self ?_
    rintro q r hr rfl
    exact leaves_eq_none_of_sub_ne hr h

/-- A leaf that gets a child that is not empty is no leaf any more. -/
theorem leaves_updateImmediateChild_nil (n : Node K L) (k : K) (m : Node K L) :
    (n.updateImmediateChild k m).leaves [] = if m.isEmpty then n.leaves [] else none := by
  rw [leaves_updateImmediateChild]
  split
  next hm =>
    rw [leaves_eq_empty_iff.mpr hm]
    exact PathMap.write_empty_of_above (q := []) (r := [k]) _ (by simp)
  next hm =>
    exact PathMap.write_of_above (q := []) (r := [k]) _ _ (by simp) (mt leaves_eq_empty_iff.mp hm)

/-- Updating a child to what it is changes nothing. -/
theorem updateImmediateChild_self (n : Node K L) (k : K) :
    n.updateImmediateChild k (n.getImmediateChild k) = n := by
  apply ext_leaves
  have h := congrArg leaves (n.updateChild_getChild [k])
  rw [leaves_updateChild, leaves_getChild] at h
  rw [leaves_updateImmediateChild, leaves_getImmediateChild, h]

/-- An update below a child is an update of the child. -/
theorem updateChild_cons (n : Node K L) (k : K) (p : FPath K) (m : Node K L) :
    n.updateChild (k :: p) m =
      n.updateImmediateChild k ((n.getImmediateChild k).updateChild p m) := by
  apply ext_leaves
  rw [leaves_updateChild, leaves_updateImmediateChild, leaves_updateChild, leaves_getImmediateChild]
  by_cases hm : m.leaves = PathMap.empty
  · by_cases hleaf : n.leaves [] = none
    · refine PathMap.write_append_eq n.leaves [k] p (Or.inr ?_)
      intro q r hr hqr
      obtain rfl : q = [] := by
        cases q with
        | nil => rfl
        | cons a q => simp_all
      exact hleaf
    · -- deleting below a leaf
      have hsub : ∀ r : FPath K, r ≠ [] → n.leaves.sub r = PathMap.empty := by
        intro r hr
        ext1 s
        exact leaves_append_of_leaf (q := []) hleaf (by simp [hr])
      rw [hm, hsub [k] (by simp), PathMap.write_empty_of_sub (hsub (k :: p) (by simp)),
        PathMap.write_empty_of_sub rfl, PathMap.write_empty_of_sub (hsub [k] (by simp))]
  · exact PathMap.write_append_eq n.leaves [k] p (Or.inl hm)

/-- A node is empty if it is the empty node. -/
theorem eq_emptyNode_iff {n : Node K L} : n = emptyNode ↔ n.isEmpty = true := by
  rw [← leaves_eq_empty_iff, ← leaves_emptyNode (K := K) (L := L), leaves_injective.eq_iff]

/-- The children after an update of one of them. -/
theorem getImmediateChild_updateImmediateChild [DecidableEq K] (n : Node K L) (k : K)
    (m : Node K L) : (n.updateImmediateChild k m).getImmediateChild =
      Function.update n.getImmediateChild k m := by
  ext1 q
  apply ext_leaves
  by_cases hq : q = k
  · rw [hq, Function.update_self, leaves_getImmediateChild, leaves_updateImmediateChild,
      PathMap.sub_write_self]
  · rw [Function.update_of_ne hq, leaves_getImmediateChild, leaves_updateImmediateChild,
      leaves_getImmediateChild]
    exact PathMap.sub_write_of_apart _ _ (FNode.apart_cons (Ne.symm hq) [] [])

/-- Nodes with the same children are equal unless one is a leaf. -/
theorem ext_children {n m : Node K L} (hn : n.isLeafNode = false) (hm : m.isLeafNode = false)
    (h : n.getImmediateChild = m.getImmediateChild) : n = m := by
  apply ext_leaves
  ext1 p
  cases p with
  | nil =>
    have hn' : n.leaves [] = none := not_not.mp (mt isLeafNode_iff.mpr (by simp [hn]))
    have hm' : m.leaves [] = none := not_not.mp (mt isLeafNode_iff.mpr (by simp [hm]))
    rw [hn', hm']
  | cons k p =>
    have hk := congrFun (congrArg leaves (congrFun h k)) p
    rwa [leaves_getImmediateChild, leaves_getImmediateChild] at hk

instance [DecidableEq L] : DecidableEq (Node K L) := fun n m =>
  decidable_of_iff (n.node.isEqual m.node = true) (by
    rw [n.wf.isEqual_iff m.wf]
    constructor
    · intro h
      exact ext_leaves (congrArg FNode.leaves h)
    · rintro rfl
      rfl)

end Node

end Database
