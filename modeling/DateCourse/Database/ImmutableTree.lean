import DateCourse.Database.Node

/-!
# Trees of nodes

An `FImmutableTree` has values at some of its paths. The trees that hold pending writes have nodes
for values and no value below another one; what such a tree amounts to is a patch.

## Main definitions

* `FImmutableTree`, with `findRootMostValueAndPath`, `setValue`, `setTree`, `subtreeAtPath` and
  `entries`;
* `FImmutableTree.WF`: there are no empty subtrees, and values stand at the ends only;
* `FImmutableTree.patch`: what a tree of nodes decides about each path;
* `FImmutableTree.addWrite` and `applySubtreeWrite`: merging a node into a tree of nodes, and
  making the writes of a tree.

## Main results

* `patch_of_findRootMost`, `patch_setTree` and `addWrite_spec`: the operations on patches;
* `WF.patch_eq_layer`: a tree decides what its entries amount to;
* `leaves_applySubtreeWrite`: making the writes of a tree is applying its patch;
* `WF.ext_patch`: trees that decide the same are equal.
-/

namespace Database

/-! ## Trees with values -/

/-- A tree with values at some of its paths. -/
inductive FImmutableTree (K V : Type*)
  | node (value : Option V) (children : List (K × FImmutableTree K V))

namespace FImmutableTree

variable {K V : Type*}

/-- `+[FImmutableTree empty]`. -/
def empty : FImmutableTree K V := node none []

/-- `value`. -/
def value : FImmutableTree K V → Option V
  | node v _ => v

/-- `children`. -/
def children : FImmutableTree K V → List (K × FImmutableTree K V)
  | node _ cs => cs

/-- `isEmpty`. -/
def isEmpty : FImmutableTree K V → Bool
  | node v cs => v.isNone && cs.isEmpty

/-- Only the tree without values and children is empty. -/
theorem isEmpty_iff {t : FImmutableTree K V} : t.isEmpty = true ↔ t = empty := by
  obtain ⟨v, cs⟩ := t
  simp [isEmpty, empty]

mutual

/-- The paths and values that `forEach:` visits: those below the children first. -/
def entries : FImmutableTree K V → List (FPath K × V)
  | node v cs => childEntries cs ++ (v.map fun v => ([], v)).toList

/-- The visits to the children. -/
def childEntries : List (K × FImmutableTree K V) → List (FPath K × V)
  | [] => []
  | (childKey, childTree) :: cs =>
    childTree.entries.map (fun e => (childKey :: e.1, e.2)) ++ childEntries cs

end

/-- The entries below children are those of the children, under their keys. -/
theorem mem_childEntries {cs : List (K × FImmutableTree K V)} {e : FPath K × V} :
    e ∈ childEntries cs ↔ ∃ c ∈ cs, ∃ p, e.1 = c.1 :: p ∧ (p, e.2) ∈ c.2.entries := by
  induction cs with
  | nil => simp [childEntries]
  | cons c cs ih =>
    rw [childEntries, List.mem_append, ih, List.mem_map]
    constructor
    · rintro (⟨⟨p, v⟩, hmem, rfl⟩ | ⟨d, hd, p, hp⟩)
      · exact ⟨c, List.mem_cons_self, p, rfl, hmem⟩
      · exact ⟨d, List.mem_cons_of_mem _ hd, p, hp⟩
    · rintro ⟨d, hd, p, hp, hmem⟩
      rcases List.mem_cons.mp hd with rfl | hd
      · exact Or.inl ⟨(p, e.2), hmem, by rw [← hp]⟩
      · exact Or.inr ⟨d, hd, p, hp, hmem⟩

/-- Without a value of its own, a tree has entries below its children only. -/
theorem ne_nil_of_mem_entries {t : FImmutableTree K V} (ht : t.value = none) {e : FPath K × V}
    (he : e ∈ t.entries) : e.1 ≠ [] := by
  obtain ⟨v, cs⟩ := t
  obtain rfl : v = none := ht
  rw [entries, Option.map_none, Option.toList_none, List.append_nil] at he
  obtain ⟨c, -, p, hp, -⟩ := mem_childEntries.mp he
  rw [hp]
  exact List.cons_ne_nil _ _

variable [Ord K]

/-- The child tree under a key, empty if there is none. -/
def child (t : FImmutableTree K V) (k : K) : FImmutableTree K V :=
  (SortedAssoc.find t.children k).getD empty

/-- `findRootMostValueAndPath:`. -/
def findRootMostValueAndPath : FImmutableTree K V → FPath K → Option (FPath K × V)
  | node (some v) _, _ => some ([], v)
  | node none _, [] => none
  | node none cs, front :: relativePath =>
    match SortedAssoc.find cs front with
    | some child =>
      (child.findRootMostValueAndPath relativePath).map fun found => (front :: found.1, found.2)
    | none => none

/-- `subtreeAtPath:`. -/
def subtreeAtPath : FImmutableTree K V → FPath K → FImmutableTree K V
  | t, [] => t
  | node _ cs, front :: relativePath =>
    match SortedAssoc.find cs front with
    | some childTree => childTree.subtreeAtPath relativePath
    | none => empty

/-- `valueAtPath:`. -/
def valueAtPath : FImmutableTree K V → FPath K → Option V
  | t, [] => t.value
  | node _ cs, front :: relativePath =>
    match SortedAssoc.find cs front with
    | some child => child.valueAtPath relativePath
    | none => none

/-- `setValue:atPath:`. -/
def setValue (newValue : V) : FImmutableTree K V → FPath K → FImmutableTree K V
  | node _ cs, [] => node (some newValue) cs
  | node v cs, front :: relativePath =>
    let newChild := setValue newValue ((SortedAssoc.find cs front).getD empty) relativePath
    node v (SortedAssoc.insert cs front newChild)

/-- `setTree:atPath:`. -/
def setTree : FImmutableTree K V → FPath K → FImmutableTree K V → FImmutableTree K V
  | _, [], newTree => newTree
  | node v cs, front :: relativePath, newTree =>
    let newChild := setTree ((SortedAssoc.find cs front).getD empty) relativePath newTree
    node v (if newChild.isEmpty then SortedAssoc.erase cs front
      else SortedAssoc.insert cs front newChild)

/-! ### Values at paths -/

/-- The empty tree has no values. -/
@[simp]
theorem valueAtPath_empty (p : FPath K) : (empty : FImmutableTree K V).valueAtPath p = none := by
  cases p <;> rfl

theorem valueAtPath_nil (t : FImmutableTree K V) : t.valueAtPath [] = t.value := by
  rw [valueAtPath]

/-- The values below a child are those of the child. -/
theorem valueAtPath_cons (t : FImmutableTree K V) (k : K) (p : FPath K) :
    t.valueAtPath (k :: p) = (t.child k).valueAtPath p := by
  obtain ⟨v, cs⟩ := t
  rw [valueAtPath, child, children]
  cases SortedAssoc.find cs k with
  | none => exact (valueAtPath_empty p).symm
  | some c => rfl

/-- The values of a subtree. -/
theorem valueAtPath_subtreeAtPath (t : FImmutableTree K V) (p q : FPath K) :
    (t.subtreeAtPath p).valueAtPath q = t.valueAtPath (p ++ q) := by
  induction p generalizing t with
  | nil => rw [subtreeAtPath, List.nil_append]
  | cons k p ih =>
    obtain ⟨v, cs⟩ := t
    rw [subtreeAtPath, List.cons_append, valueAtPath]
    cases SortedAssoc.find cs k with
    | none => exact valueAtPath_empty q
    | some c => exact ih c

/-- A value at a path is visited. -/
theorem mem_entries_of_valueAtPath [Std.LawfulEqOrd K] {t : FImmutableTree K V} {p : FPath K}
    {v : V} (h : t.valueAtPath p = some v) : (p, v) ∈ t.entries := by
  induction p generalizing t with
  | nil =>
    obtain ⟨w, cs⟩ := t
    rw [valueAtPath_nil, value] at h
    rw [entries, h]
    simp
  | cons k p ih =>
    obtain ⟨w, cs⟩ := t
    rw [valueAtPath] at h
    split at h
    next c hfind =>
      obtain ⟨k', hmem, hk⟩ := SortedAssoc.exists_of_find_eq_some hfind
      obtain rfl := Std.LawfulEqOrd.eq_of_compare hk
      rw [entries, List.mem_append]
      exact Or.inl (mem_childEntries.mpr ⟨(k, c), hmem, p, rfl, ih h⟩)
    next => contradiction

/-- Setting a value changes no other. -/
theorem valueAtPath_setValue [Std.TransOrd K] [Std.LawfulEqOrd K] [DecidableEq K]
    (t : FImmutableTree K V) (v : V) (p q : FPath K) :
    (t.setValue v p).valueAtPath q = if q = p then some v else t.valueAtPath q := by
  induction p generalizing t q with
  | nil =>
    obtain ⟨w, cs⟩ := t
    cases q with
    | nil => rfl
    | cons k q => rfl
  | cons k p ih =>
    obtain ⟨w, cs⟩ := t
    rw [setValue]
    cases q with
    | nil => rfl
    | cons j q =>
      rw [valueAtPath_cons, child, children, SortedAssoc.find_insert, valueAtPath_cons, child,
        children]
      by_cases hjk : j = k
      · subst hjk
        rw [if_pos Std.ReflOrd.compare_self, Option.getD_some, ih]
        simp only [List.cons.injEq, true_and]
      · rw [if_neg (mt Std.LawfulEqOrd.eq_of_compare hjk), if_neg (by simp [hjk])]

/-- The children are in order and not empty, and a value has no children below it. -/
inductive WF : FImmutableTree K V → Prop
  | node (v : Option V) (cs : List (K × FImmutableTree K V)) (sorted : SortedAssoc.Sorted cs)
      (nonempty : ∀ e ∈ cs, e.2.isEmpty = false) (leaf : v ≠ none → cs = [])
      (wf : ∀ e ∈ cs, WF e.2) : WF (node v cs)

theorem wf_value (v : V) : (node (some v) [] : FImmutableTree K V).WF :=
  WF.node _ [] SortedAssoc.sorted_nil (by simp) (fun _ => rfl) (by simp)

theorem wf_empty : (empty : FImmutableTree K V).WF :=
  WF.node none [] SortedAssoc.sorted_nil (by simp) (by simp) (by simp)

/-- The children of a tree are well formed. -/
theorem WF.of_mem_children {t : FImmutableTree K V} (ht : t.WF) : ∀ e ∈ t.children, e.2.WF := by
  cases ht with
  | node v cs hsorted hne hleaf hwf => exact hwf

/-- The child under a key is well formed. -/
theorem WF.child {t : FImmutableTree K V} (ht : t.WF) (k : K) : (t.child k).WF := by
  cases ht with
  | node v cs hsorted hne hleaf hwf =>
    simp only [FImmutableTree.child, children]
    cases hfind : SortedAssoc.find cs k with
    | none => exact wf_empty
    | some c =>
      obtain ⟨k', hmem, -⟩ := SortedAssoc.exists_of_find_eq_some hfind
      exact hwf (k', c) hmem

/-- Subtrees are well formed. -/
theorem WF.subtreeAtPath {t : FImmutableTree K V} (ht : t.WF) (p : FPath K) :
    (t.subtreeAtPath p).WF := by
  induction p generalizing t with
  | nil =>
    rw [FImmutableTree.subtreeAtPath]
    exact ht
  | cons k p ih =>
    obtain ⟨v, cs⟩ := t
    have hchild := ht.child k
    rw [FImmutableTree.subtreeAtPath]
    cases hfind : SortedAssoc.find cs k with
    | none => exact wf_empty
    | some c =>
      rw [FImmutableTree.child, children, hfind, Option.getD_some] at hchild
      exact ih hchild

/-- A tree in which a value has been set is not empty. -/
theorem isEmpty_setTree_value (w : V) (cs : List (K × FImmutableTree K V))
    (t : FImmutableTree K V) (p : FPath K) :
    (t.setTree p (node (some w) cs)).isEmpty = false := by
  induction p generalizing t with
  | nil => rfl
  | cons k p ih =>
    obtain ⟨v, ds⟩ := t
    have hchild := ih ((SortedAssoc.find ds k).getD empty)
    have hinsert : ∀ (ds : List (K × FImmutableTree K V)) (c : FImmutableTree K V),
        SortedAssoc.insert ds k c ≠ [] := by
      intro ds c
      cases ds with
      | nil => simp [SortedAssoc.insert]
      | cons d ds =>
        rw [SortedAssoc.insert]
        split <;> simp
    simp only [setTree, hchild]
    rw [if_neg (by simp), isEmpty, Bool.and_eq_false_iff]
    right
    simpa using hinsert ds _

/-! ### What a tree of nodes decides -/

section Patch

variable {L : Type*}

/-- What the nodes of the tree decide about a path. -/
def patch : FImmutableTree K (Node K L) → Patch K L
  | node (some n) _, q => some (n.leaves q)
  | node none _, [] => none
  | node none cs, front :: q => ((SortedAssoc.find cs front).getD empty).patch q

/-- A value decides everything. -/
theorem patch_some (n : Node K L) (cs : List (K × FImmutableTree K (Node K L))) (q : FPath K) :
    (node (some n) cs).patch q = some (n.leaves q) := by
  rw [patch]

/-- A tree without a value leaves its root open. -/
theorem patch_none_nil (cs : List (K × FImmutableTree K (Node K L))) :
    (node none cs).patch [] = none := by
  rw [patch]

/-- A tree without a value decides below a child what the child does. -/
theorem patch_none_cons (cs : List (K × FImmutableTree K (Node K L))) (k : K) (q : FPath K) :
    (node none cs).patch (k :: q) = ((node none cs).child k).patch q := by
  rw [patch]
  rfl

/-- The empty tree decides nothing. -/
@[simp]
theorem patch_empty : (empty : FImmutableTree K (Node K L)).patch = PathMap.empty := by
  ext1 q
  induction q with
  | nil => exact patch_none_nil []
  | cons k q ih => exact (patch_none_cons [] k q).trans ih

/-- A found value decides what is below it, and nothing is decided above it. -/
theorem patch_of_findRootMost {t : FImmutableTree K (Node K L)} {p p₀ : FPath K} {n : Node K L}
    (h : t.findRootMostValueAndPath p = some (p₀, n)) :
    p₀ <+: p ∧ (∀ q, t.patch (p₀ ++ q) = some (n.leaves q)) ∧ PathMap.Clear t.patch p₀ := by
  induction p generalizing t p₀ with
  | nil =>
    obtain ⟨v, cs⟩ := t
    cases v with
    | none => simp [findRootMostValueAndPath] at h
    | some m =>
      simp only [findRootMostValueAndPath, Option.some.injEq, Prod.mk.injEq] at h
      obtain ⟨rfl, rfl⟩ := h
      exact ⟨List.prefix_rfl, patch_some m cs, PathMap.clear_nil _⟩
  | cons k p ih =>
    obtain ⟨v, cs⟩ := t
    cases v with
    | some m =>
      simp only [findRootMostValueAndPath, Option.some.injEq, Prod.mk.injEq] at h
      obtain ⟨rfl, rfl⟩ := h
      exact ⟨List.nil_prefix, patch_some m cs, PathMap.clear_nil _⟩
    | none =>
      rw [findRootMostValueAndPath] at h
      cases hfind : SortedAssoc.find cs k with
      | none => simp [hfind] at h
      | some c =>
        rw [hfind] at h
        obtain ⟨⟨p₁, m⟩, hfound, heq⟩ := Option.map_eq_some_iff.mp h
        obtain ⟨rfl, rfl⟩ := Prod.mk.inj heq
        obtain ⟨hp, hpatch, hclear⟩ := ih hfound
        have hchild : (node none cs).child k = c := by simp [child, children, hfind]
        refine ⟨List.cons_prefix_cons.mpr ⟨rfl, hp⟩, ?_, ?_⟩
        · intro q
          rw [List.cons_append, patch_none_cons, hchild, hpatch]
        · intro q r hr hq
          cases q with
          | nil => exact patch_none_nil cs
          | cons a q =>
            obtain ⟨rfl, hq'⟩ := List.cons.inj hq
            rw [patch_none_cons, hchild]
            exact hclear q r hr hq'

/-- Nothing is found where nothing is decided. -/
theorem patch_of_findRootMost_none {t : FImmutableTree K (Node K L)} {p : FPath K}
    (h : t.findRootMostValueAndPath p = none) : t.patch p = none := by
  induction p generalizing t with
  | nil =>
    obtain ⟨v, cs⟩ := t
    cases v with
    | none => exact patch_none_nil cs
    | some m => simp [findRootMostValueAndPath] at h
  | cons k p ih =>
    obtain ⟨v, cs⟩ := t
    cases v with
    | some m => simp [findRootMostValueAndPath] at h
    | none =>
      rw [patch_none_cons, child, children]
      rw [findRootMostValueAndPath] at h
      cases hfind : SortedAssoc.find cs k with
      | none => exact congrFun patch_empty p
      | some c =>
        rw [hfind] at h
        exact ih (Option.map_eq_none_iff.mp h)

/-- What is decided at a path is decided below it. -/
theorem down_patch (t : FImmutableTree K (Node K L)) : t.patch.Down := by
  intro q r hq
  induction q generalizing t with
  | nil =>
    obtain ⟨v, cs⟩ := t
    cases v with
    | none => exact absurd (patch_none_nil cs) hq
    | some m => simp [patch_some]
  | cons k q ih =>
    obtain ⟨v, cs⟩ := t
    cases v with
    | some m => simp [patch_some]
    | none =>
      rw [patch_none_cons] at hq
      rw [List.cons_append, patch_none_cons]
      exact ih _ hq

/-- The subtree at a path where nothing is decided. -/
theorem patch_subtreeAtPath {t : FImmutableTree K (Node K L)} {p : FPath K}
    (h : t.patch p = none) : (t.subtreeAtPath p).patch = PathMap.sub t.patch p := by
  induction p generalizing t with
  | nil => simp [subtreeAtPath]
  | cons k p ih =>
    obtain ⟨v, cs⟩ := t
    cases v with
    | some m => simp [patch_some] at h
    | none =>
      have hsub : PathMap.sub (node none cs).patch (k :: p) =
          PathMap.sub ((node none cs).child k).patch p := by
        ext1 q
        exact patch_none_cons cs k (p ++ q)
      rw [patch_none_cons] at h
      rw [hsub, subtreeAtPath]
      cases hfind : SortedAssoc.find cs k with
      | none => simp [child, children, hfind]
      | some c =>
        rw [child, children, hfind, Option.getD_some] at h ⊢
        exact ih h

/-- Below a value there are no children to keep. -/
theorem setValue_eq_setTree {t : FImmutableTree K (Node K L)} {p p₀ : FPath K} {n : Node K L}
    (ht : t.WF) (h : t.findRootMostValueAndPath p = some (p₀, n)) (m : Node K L) :
    setValue m t p₀ = t.setTree p₀ (node (some m) []) := by
  induction p generalizing t p₀ with
  | nil =>
    obtain ⟨v, cs⟩ := t
    cases v with
    | none => simp [findRootMostValueAndPath] at h
    | some a =>
      simp only [findRootMostValueAndPath, Option.some.injEq, Prod.mk.injEq] at h
      obtain ⟨rfl, rfl⟩ := h
      cases ht with
      | node v cs hsorted hne hleaf hwf => rw [setValue, setTree, hleaf (by simp)]
  | cons k p ih =>
    obtain ⟨v, cs⟩ := t
    cases v with
    | some a =>
      simp only [findRootMostValueAndPath, Option.some.injEq, Prod.mk.injEq] at h
      obtain ⟨rfl, rfl⟩ := h
      cases ht with
      | node v cs hsorted hne hleaf hwf => rw [setValue, setTree, hleaf (by simp)]
    | none =>
      have hchild := ht.child k
      rw [findRootMostValueAndPath] at h
      cases hfind : SortedAssoc.find cs k with
      | none => simp [hfind] at h
      | some c =>
        rw [hfind] at h
        obtain ⟨⟨p₁, b⟩, hfound, heq⟩ := Option.map_eq_some_iff.mp h
        obtain ⟨rfl, rfl⟩ := Prod.mk.inj heq
        rw [child, children, hfind, Option.getD_some] at hchild
        simp only [setValue, setTree, hfind, Option.getD_some, ih hchild hfound]
        rw [if_neg (by simp [isEmpty_setTree_value])]

/-- Taking nothing out of the empty tree. -/
theorem setTree_empty_empty (p : FPath K) :
    (empty : FImmutableTree K V).setTree p empty = empty := by
  induction p with
  | nil => rfl
  | cons k p ih =>
    show node none
      (if ((empty : FImmutableTree K V).setTree p empty).isEmpty = true then _ else _) = _
    rw [ih]
    rfl

variable [Std.TransOrd K]

/-- After an update the new child is found under the tied keys. -/
theorem child_update {cs : List (K × FImmutableTree K V)} (hcs : SortedAssoc.Sorted cs)
    (v v' : Option V) (k : K) (t : FImmutableTree K V) (q : K) :
    (node v (if t.isEmpty then SortedAssoc.erase cs k else SortedAssoc.insert cs k t)).child q =
      if compare q k = .eq then t else (node v' cs).child q := by
  simp only [child, children]
  by_cases ht : t.isEmpty
  · rw [if_pos ht, SortedAssoc.find_erase hcs]
    split
    · rw [isEmpty_iff.mp ht, Option.getD_none]
    · rfl
  · rw [if_neg ht, SortedAssoc.find_insert]
    split <;> rfl

/-- An update keeps no empty child. -/
theorem wf_update {cs : List (K × FImmutableTree K V)} {v : Option V} (hcs : (node v cs).WF)
    (hv : v = none) (k : K) {t : FImmutableTree K V} (ht : t.WF) :
    (node v (if t.isEmpty then SortedAssoc.erase cs k else SortedAssoc.insert cs k t)).WF := by
  cases hcs with
  | node v cs hsorted hne hleaf hwf =>
    split
    next hte =>
      exact WF.node _ _ (hsorted.erase k) (fun e he => hne e (SortedAssoc.mem_erase he))
        (fun h => absurd hv h) (fun e he => hwf e (SortedAssoc.mem_erase he))
    next hte =>
      refine WF.node _ _ (hsorted.insert k t) ?_ (fun h => absurd hv h) ?_
      · intro e he
        rcases SortedAssoc.mem_insert he with rfl | he
        · simpa using hte
        · exact hne e he
      · intro e he
        rcases SortedAssoc.mem_insert he with rfl | he
        · exact ht
        · exact hwf e he

/-- Setting a subtree below no value keeps the tree well formed. -/
theorem WF.setTree {s t : FImmutableTree K (Node K L)} {p : FPath K} (ht : t.WF) (hs : s.WF)
    (hclear : PathMap.Clear t.patch p) : (t.setTree p s).WF := by
  induction p generalizing t with
  | nil =>
    rw [FImmutableTree.setTree]
    exact hs
  | cons k p ih =>
    obtain ⟨v, cs⟩ := t
    cases v with
    | some m =>
      have h := hclear [] (k :: p) (by simp) rfl
      rw [patch_some] at h
      contradiction
    | none =>
      refine wf_update ht rfl k (ih (ht.child k) ?_)
      rintro q r hr rfl
      exact (patch_none_cons cs k q).symm.trans (hclear (k :: q) r hr rfl)

/-- Removing a subtree, also below a value. -/
theorem WF.setTree_empty {t : FImmutableTree K V} (ht : t.WF) (p : FPath K) :
    (t.setTree p empty).WF := by
  induction p generalizing t with
  | nil =>
    rw [FImmutableTree.setTree]
    exact wf_empty
  | cons k p ih =>
    obtain ⟨v, cs⟩ := t
    cases v with
    | none => exact wf_update ht rfl k (ih (ht.child k))
    | some m =>
      have hnil : cs = [] := by
        cases ht with
        | node v cs hsorted hne hleaf hwf => exact hleaf (by simp)
      rw [hnil, FImmutableTree.setTree, SortedAssoc.find, Option.getD_none, setTree_empty_empty]
      exact wf_value m

variable [Std.LawfulEqOrd K]

/-- Replacing a subtree with nothing decided above it. -/
theorem patch_setTree {s t : FImmutableTree K (Node K L)} {p : FPath K} (ht : t.WF)
    (hclear : PathMap.Clear t.patch p) :
    (∀ q, (t.setTree p s).patch (p ++ q) = s.patch q) ∧
      ∀ q, ¬p <+: q → (t.setTree p s).patch q = t.patch q := by
  induction p generalizing t with
  | nil => exact ⟨fun _ => by rw [setTree, List.nil_append], fun q h => absurd List.nil_prefix h⟩
  | cons k p ih =>
    obtain ⟨v, cs⟩ := t
    cases v with
    | some m =>
      have h := hclear [] (k :: p) (by simp) rfl
      rw [patch_some] at h
      contradiction
    | none =>
      have hsorted : SortedAssoc.Sorted cs := by
        cases ht
        assumption
      have hclear' : PathMap.Clear ((node none cs).child k).patch p := by
        rintro q r hr rfl
        rw [← patch_none_cons]
        exact hclear (k :: q) r hr rfl
      obtain ⟨hbelow, hother⟩ := ih (ht.child k) hclear'
      have hpatch : ∀ a q, ((node none cs).setTree (k :: p) s).patch (a :: q) =
          if compare a k = .eq then (((node none cs).child k).setTree p s).patch q
          else (node none cs).patch (a :: q) := by
        intro a q
        rw [setTree, patch_none_cons, child_update hsorted none none]
        split
        · rfl
        · rw [patch_none_cons]
      constructor
      · intro q
        rw [List.cons_append, hpatch, if_pos Std.ReflOrd.compare_self, hbelow]
      · intro q hq
        cases q with
        | nil => rw [setTree, patch_none_nil, patch_none_nil]
        | cons a q =>
          rw [hpatch]
          split
          next heq =>
            obtain rfl := Std.LawfulEqOrd.eq_of_compare heq
            rw [hother q (fun h => hq (List.cons_prefix_cons.mpr ⟨rfl, h⟩)), patch_none_cons]
          next hne => rfl

end Patch

/-! ### The enumeration of a tree -/

/-- No entry is below another one. -/
theorem WF.pairwise_apart {V : Type*} [Std.LawfulEqOrd K] {t : FImmutableTree K V} (ht : t.WF) :
    t.entries.Pairwise fun d e => PathMap.Apart d.1 e.1 := by
  induction ht with
  | node v cs hsorted hne hleaf hwf ih =>
    have hchildren : (childEntries cs).Pairwise fun d e => PathMap.Apart d.1 e.1 := by
      clear hne hleaf hwf
      induction cs with
      | nil => exact List.Pairwise.nil
      | cons c cs ihcs =>
        obtain ⟨hc, hsorted'⟩ := SortedAssoc.sorted_cons.mp hsorted
        rw [childEntries, List.pairwise_append]
        refine ⟨?_, ihcs hsorted' (fun e he => ih e (List.mem_cons_of_mem _ he)), ?_⟩
        · rw [List.pairwise_map]
          exact (ih c List.mem_cons_self).imp fun h =>
            (PathMap.apart_append_append (p := [c.1])).mpr h
        · intro d hd e he
          obtain ⟨⟨p, v⟩, -, rfl⟩ := List.mem_map.mp hd
          obtain ⟨c', hc', q, hq, -⟩ := mem_childEntries.mp he
          rw [hq]
          apply FNode.apart_cons
          intro heq
          have hlt := hc c' hc'
          rw [heq] at hlt
          simp at hlt
    cases v with
    | none => simpa [entries] using hchildren
    | some v =>
      obtain rfl := hleaf (by simp)
      simp [entries, childEntries]

/-- An entry decides what is below it. -/
theorem WF.patch_of_mem_entries [Std.LawfulEqOrd K] {L : Type*} {t : FImmutableTree K (Node K L)}
    (ht : t.WF) {e : FPath K × Node K L} (he : e ∈ t.entries) (q : FPath K) :
    t.patch (e.1 ++ q) = some (e.2.leaves q) := by
  induction ht generalizing e with
  | node v cs hsorted hne hleaf hwf ih =>
    cases v with
    | some n =>
      obtain rfl := hleaf (by simp)
      obtain rfl : e = ([], n) := by simpa [entries, childEntries] using he
      exact patch_some n [] q
    | none =>
      obtain ⟨c, hc, p, hp, hmem⟩ := mem_childEntries.mp (by simpa [entries] using he)
      have hfind : SortedAssoc.find cs c.1 = some c.2 :=
        (SortedAssoc.find_eq_some_iff hsorted).mpr hc
      rw [hp, List.cons_append, patch_none_cons, FImmutableTree.child, children, hfind]
      exact ih c hc hmem

/-- What is decided is decided by an entry. -/
theorem exists_entry_of_patch [Std.LawfulEqOrd K] {L : Type*} {t : FImmutableTree K (Node K L)}
    {q : FPath K}
    (h : t.patch q ≠ none) : ∃ e ∈ t.entries, e.1 <+: q := by
  induction q generalizing t with
  | nil =>
    obtain ⟨v, cs⟩ := t
    cases v with
    | none => exact absurd (patch_none_nil cs) h
    | some n => exact ⟨([], n), by simp [entries], List.prefix_rfl⟩
  | cons k q ih =>
    obtain ⟨v, cs⟩ := t
    cases v with
    | some n => exact ⟨([], n), by simp [entries], List.nil_prefix⟩
    | none =>
      rw [patch_none_cons, child, children] at h
      cases hfind : SortedAssoc.find cs k with
      | none =>
        rw [hfind, Option.getD_none, patch_empty] at h
        exact absurd rfl h
      | some c =>
        rw [hfind] at h
        obtain ⟨⟨p, n⟩, hmem, hp⟩ := ih h
        obtain ⟨k', hk', heq⟩ := SortedAssoc.exists_of_find_eq_some hfind
        obtain rfl := Std.LawfulEqOrd.eq_of_compare heq
        refine ⟨(k :: p, n), ?_, List.cons_prefix_cons.mpr ⟨rfl, hp⟩⟩
        rw [entries, List.mem_append]
        exact Or.inl (mem_childEntries.mpr ⟨(k, c), hk', p, rfl, hmem⟩)

variable {L : Type*}

/-- The entries as writes of leaves. -/
def writes (t : FImmutableTree K (Node K L)) : List (FPath K × PathMap K L) :=
  t.entries.map fun e => (e.1, e.2.leaves)

/-- What a tree decides is what its entries amount to. -/
theorem WF.patch_eq_layer [Std.LawfulEqOrd K] {t : FImmutableTree K (Node K L)} (ht : t.WF) :
    t.patch = Patch.layer PathMap.empty t.writes := by
  have hapart : t.writes.Pairwise fun v w => PathMap.Apart v.1 w.1 :=
    List.pairwise_map.mpr ht.pairwise_apart
  ext1 q
  by_cases hq : ∃ e ∈ t.entries, e.1 <+: q
  · obtain ⟨e, he, r, rfl⟩ := hq
    rw [ht.patch_of_mem_entries he]
    have hmem : (e.1, e.2.leaves) ∈ t.writes := List.mem_map.mpr ⟨e, he, rfl⟩
    exact (Patch.layer_of_mem hapart hmem r).symm
  · have hnone : t.patch q = none := by
      by_contra h
      exact hq (exists_entry_of_patch h)
    rw [hnone]
    refine (Patch.layer_eq_none_iff.mpr ⟨?_, rfl⟩).symm
    intro w hw hwq
    obtain ⟨e, he, rfl⟩ := List.mem_map.mp hw
    exact hq ⟨e, he, hwq⟩

/-- Trees that decide the same are equal. -/
theorem WF.ext_patch [Std.LawfulEqOrd K] [Std.TransOrd K] {s t : FImmutableTree K (Node K L)}
    (hs : s.WF) (ht : t.WF) (h : s.patch = t.patch) : s = t := by
  have hne : ∀ {t : FImmutableTree K (Node K L)}, t.WF → t.isEmpty = false →
      ∃ q, t.patch q ≠ none := by
    intro t ht
    induction ht with
    | node v cs hsorted hne hleaf hwf ih =>
      intro hempty
      cases v with
      | some n => exact ⟨[], by simp [patch_some]⟩
      | none =>
        cases cs with
        | nil => simp [isEmpty] at hempty
        | cons c cs =>
          obtain ⟨q, hq⟩ := ih c List.mem_cons_self (hne c List.mem_cons_self)
          refine ⟨c.1 :: q, ?_⟩
          rw [patch_none_cons, FImmutableTree.child, children,
            (SortedAssoc.find_eq_some_iff hsorted).mpr List.mem_cons_self]
          exact hq
  induction hs generalizing t with
  | node v cs hcs hcsne hleaf hwf ih =>
    cases ht with
    | node w ds hds hdsne hleaf' hwf' =>
      have hroot := congrFun h []
      cases v with
      | some n =>
        cases w with
        | none => simp [patch_some, patch_none_nil] at hroot
        | some m =>
          have hnm : n = m := by
            apply Node.ext_leaves
            ext1 q
            simpa [patch_some] using congrFun h q
          rw [hnm, hleaf (by simp), hleaf' (by simp)]
      | none =>
        cases w with
        | some m => simp [patch_some, patch_none_nil] at hroot
        | none =>
          congr 1
          have hsub : ∀ k, ((FImmutableTree.node none cs).child k).patch =
              ((FImmutableTree.node none ds).child k).patch := by
            intro k
            ext1 q
            rw [← patch_none_cons, ← patch_none_cons, h]
          apply hcs.ext hds
          intro k
          have hk := hsub k
          simp only [FImmutableTree.child, children] at hk
          cases hc : SortedAssoc.find cs k with
          | none =>
            cases hd : SortedAssoc.find ds k with
            | none => rfl
            | some d =>
              have hmem := (SortedAssoc.find_eq_some_iff hds).mp hd
              obtain ⟨q, hq⟩ := hne (hwf' _ hmem) (hdsne _ hmem)
              rw [hc, hd, Option.getD_none, Option.getD_some, patch_empty] at hk
              exact absurd (congrFun hk q).symm hq
          | some c =>
            have hmem := (SortedAssoc.find_eq_some_iff hcs).mp hc
            cases hd : SortedAssoc.find ds k with
            | none =>
              obtain ⟨q, hq⟩ := hne (hwf _ hmem) (hcsne _ hmem)
              rw [hc, hd, Option.getD_none, Option.getD_some, patch_empty] at hk
              exact absurd (congrFun hk q) hq
            | some d =>
              have hmem' := (SortedAssoc.find_eq_some_iff hds).mp hd
              rw [hc, hd] at hk
              exact congrArg some (ih _ hmem (hwf' _ hmem') hk)

/-! ### Merging a write into a tree and applying a tree -/

section Apply

variable [Std.TransOrd K]

mutual

/-- `applySubtreeWrite:atPath:toNode:`. -/
def applySubtreeWrite : FImmutableTree K (Node K L) → FPath K → Node K L → Node K L
  | node (some v) _, relativePath, n => n.updateChild relativePath v
  | node none cs, relativePath, n => applyChildWrites cs relativePath n

/-- The enumeration of the children in `applySubtreeWrite:atPath:toNode:`. -/
def applyChildWrites : List (K × FImmutableTree K (Node K L)) → FPath K → Node K L → Node K L
  | [], _, n => n
  | (childKey, childTree) :: cs, relativePath, n =>
    applyChildWrites cs relativePath (childTree.applySubtreeWrite (relativePath ++ [childKey]) n)

end

/-- A write at a path about which nothing is decided. -/
theorem setTree_value_spec [Std.LawfulEqOrd K] {t : FImmutableTree K (Node K L)} (ht : t.WF)
    {p : FPath K} (hnone : t.patch p = none) (n : Node K L) :
    (t.setTree p (node (some n) [])).WF ∧
      (t.setTree p (node (some n) [])).patch = t.patch.write p n.leaves := by
  have hclear : PathMap.Clear t.patch p := by
    rintro q r hr rfl
    by_contra hq
    exact down_patch t q r hq hnone
  obtain ⟨hbelow, hother⟩ := patch_setTree (s := node (some n) []) ht hclear
  refine ⟨ht.setTree (wf_value n) hclear, ?_⟩
  ext1 q
  rcases PathMap.prefix_cases p q with ⟨s, rfl⟩ | ⟨s, hs, rfl⟩ | hq
  · rw [Patch.write_append]
    exact (hbelow s).trans (patch_some n [] s)
  · have hq := hclear.apply hs
    rw [Patch.write_of_not_above (PathMap.not_prefix_of_ne_nil hs) hq]
    exact (hother q (PathMap.not_prefix_of_ne_nil hs)).trans hq
  · rw [Patch.write_of_apart _ _ hq]
    exact hother q hq.1

/-- A write below a node of the tree is merged into that node. -/
theorem setValue_spec [Std.LawfulEqOrd K] {t : FImmutableTree K (Node K L)} (ht : t.WF)
    {p₀ r : FPath K} {v : Node K L}
    (hroot : t.findRootMostValueAndPath (p₀ ++ r) = some (p₀, v)) (n : Node K L) :
    (t.setValue (v.updateChild r n) p₀).WF ∧
      (t.setValue (v.updateChild r n) p₀).patch = t.patch.write (p₀ ++ r) n.leaves := by
  obtain ⟨-, hpatch, hclear⟩ := patch_of_findRootMost hroot
  rw [setValue_eq_setTree ht hroot]
  obtain ⟨hbelow, hother⟩ := patch_setTree (s := node (some (v.updateChild r n)) []) ht hclear
  refine ⟨ht.setTree (wf_value _) hclear, ?_⟩
  ext1 q
  by_cases hq : p₀ <+: q
  · obtain ⟨s, rfl⟩ := hq
    rw [Patch.write_append_of_covered hpatch, hbelow, patch_some, Node.leaves_updateChild]
  · rw [hother q hq]
    rcases PathMap.prefix_cases (p₀ ++ r) q with ⟨s, rfl⟩ | ⟨s, hs, hqs⟩ | hap
    · rw [List.append_assoc] at hq
      exact absurd (List.prefix_append _ _) hq
    · -- above the root-most value nothing is decided
      have hqp : q <+: p₀ := by
        rcases List.prefix_or_prefix_of_prefix (List.prefix_append p₀ r)
          (hqs ▸ List.prefix_append q s) with h | h
        · exact absurd h hq
        · exact h
      obtain ⟨u, rfl⟩ := hqp
      have hu : u ≠ [] := by
        rintro rfl
        exact hq (by simp)
      have hnone := hclear.apply hu
      rw [hnone, Patch.write_of_not_above ?_ hnone]
      rw [hqs]
      exact PathMap.not_prefix_of_ne_nil hs
    · rw [Patch.write_of_apart _ _ hap]

mutual

/-- The writes of a tree are made in the order of its entries. -/
theorem applySubtreeWrite_eq [Std.LawfulEqOrd K] (t : FImmutableTree K (Node K L))
    (ht : t.WF) (p : FPath K) (n : Node K L) :
    t.applySubtreeWrite p n = t.entries.foldl (fun n e => n.updateChild (p ++ e.1) e.2) n := by
  cases ht with
  | node v cs hsorted hne hleaf hwf =>
    cases v with
    | some m =>
      obtain rfl := hleaf (by simp)
      simp [applySubtreeWrite, entries, childEntries]
    | none =>
      rw [applySubtreeWrite, applyChildWrites_eq cs hwf p n]
      simp [entries]

/-- The writes of the children are made in the order of their entries. -/
theorem applyChildWrites_eq [Std.LawfulEqOrd K] (cs : List (K × FImmutableTree K (Node K L)))
    (hcs : ∀ c ∈ cs, c.2.WF) (p : FPath K) (n : Node K L) :
    applyChildWrites cs p n =
      (childEntries cs).foldl (fun n e => n.updateChild (p ++ e.1) e.2) n := by
  cases cs with
  | nil => rfl
  | cons c cs =>
    obtain ⟨k, t⟩ := c
    rw [applyChildWrites, applyChildWrites_eq cs (fun c hc => hcs c (List.mem_cons_of_mem _ hc)),
      applySubtreeWrite_eq t (hcs (k, t) List.mem_cons_self), childEntries, List.foldl_append,
      List.foldl_map]
    simp

end

/-- Applying a tree is applying what it decides. -/
theorem leaves_applySubtreeWrite [Std.LawfulEqOrd K] {t : FImmutableTree K (Node K L)}
    (ht : t.WF) (n : Node K L) :
    (t.applySubtreeWrite [] n).leaves = t.patch.apply n.leaves := by
  have hfold : ∀ (es : List (FPath K × Node K L)) (n : Node K L),
      (es.foldl (fun n e => n.updateChild ([] ++ e.1) e.2) n).leaves =
        (es.map fun e => (e.1, e.2.leaves)).foldl (fun f w => f.write w.1 w.2) n.leaves := by
    intro es
    induction es with
    | nil => exact fun _ => rfl
    | cons e es ih =>
      intro n
      rw [List.foldl_cons, ih, List.map_cons, List.foldl_cons, List.nil_append,
        Node.leaves_updateChild]
  rw [applySubtreeWrite_eq t ht, hfold, ht.patch_eq_layer]
  exact Patch.foldl_write_eq_apply (List.pairwise_map.mpr ht.pairwise_apart)

variable [DecidableEq K]

/-- `addWrite:atPath:` of a compound write with the tree `t`. -/
def addWrite (t : FImmutableTree K (Node K L)) (n : Node K L) (path : FPath K) :
    FImmutableTree K (Node K L) :=
  if path.isEmpty then node (some n) []
  else
    match t.findRootMostValueAndPath path with
    | some rootMost =>
      -- the root-most path is above `path`, so that the relative path exists
      let relativePath := (FPath.relativePathFrom rootMost.1 path).getD []
      t.setValue (rootMost.2.updateChild relativePath n) rootMost.1
    | none => t.setTree path (node (some n) [])

/-- Merging a node in writes it to the patch. -/
theorem addWrite_spec [Std.LawfulEqOrd K] {t : FImmutableTree K (Node K L)} (ht : t.WF)
    (n : Node K L) (p : FPath K) :
    (t.addWrite n p).WF ∧ (t.addWrite n p).patch = t.patch.write p n.leaves := by
  rw [addWrite]
  split
  next hp =>
    obtain rfl := List.isEmpty_iff.mp hp
    refine ⟨wf_value n, ?_⟩
    ext1 q
    exact (patch_some n [] q).trans (Patch.write_append t.patch [] n.leaves q).symm
  next hp =>
    split
    next rootMost hroot =>
      obtain ⟨p₀, v⟩ := rootMost
      obtain ⟨⟨r, rfl⟩, -, -⟩ := patch_of_findRootMost hroot
      simp only [FPath.relativePathFrom_append, Option.getD_some]
      exact setValue_spec ht hroot n
    next hroot => exact setTree_value_spec ht (patch_of_findRootMost_none hroot) n

end Apply

end FImmutableTree

end Database
