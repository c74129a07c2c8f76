import Mathlib.Data.List.Infix
import Mathlib.Data.Option.Basic

/-!
# Trees as maps from paths to leaves

A tree whose inner nodes carry nothing is determined by its leaves: it is a partial map from paths
to values. Writing a tree at a path replaces what is below the path; a leaf above the path gives
way to an inner node unless the tree written is empty.

A patch is what several such writes amount to when the tree they are made to is not known: it says
which paths it decides and what is there.

## Main definitions

* `PathMap.sub` and `PathMap.write`: the tree below a path, and writing one there;
* `PathMap.Clear`: there is no leaf above a path;
* `Patch.write` and `Patch.apply`: a write on top of a patch, and the tree after a patch;
* `Patch.stack`, `Patch.shift`: one patch on top of another, and a patch made below a path.

## Main results

* `PathMap.write_of_apart` and `PathMap.sub_write_append`: how reading and writing at two paths
  compose;
* `Patch.apply_write`: applying a patch with one more write is writing after applying the patch;
* `Patch.sub_apply`: the tree below a path only depends on the patch below it.
-/

/-- A partial map from paths to values. -/
abbrev PathMap (K V : Type*) := List K → Option V

namespace PathMap

variable {K V : Type*}

/-- Two paths neither of which is below the other. -/
def Apart (p q : List K) : Prop := ¬p <+: q ∧ ¬q <+: p

theorem Apart.symm {p q : List K} (h : Apart p q) : Apart q p := ⟨h.2, h.1⟩

/-- What is below an apart path is apart. -/
theorem Apart.append_right {p q : List K} (h : Apart p q) (r : List K) : Apart p (q ++ r) := by
  refine ⟨fun hp => ?_, fun hq => h.2 ((List.prefix_append q r).trans hq)⟩
  -- `p` is below or above `q` if it is above an extension of `q`
  rcases List.prefix_or_prefix_of_prefix hp (List.prefix_append q r) with hpq | hqp
  · exact h.1 hpq
  · exact h.2 hqp

theorem Apart.append_left {p q : List K} (h : Apart p q) (r : List K) : Apart (p ++ r) q :=
  (h.symm.append_right r).symm

/-- Paths below one path are apart as their rests are. -/
@[simp]
theorem apart_append_append {p q r : List K} : Apart (p ++ q) (p ++ r) ↔ Apart q r := by
  simp [Apart, List.prefix_append_right_inj]

/-- A path is at or below another one, strictly above it or apart from it. -/
theorem prefix_cases (p q : List K) :
    (∃ r, q = p ++ r) ∨ (∃ r, r ≠ [] ∧ p = q ++ r) ∨ Apart p q := by
  by_cases hpq : p <+: q
  · obtain ⟨r, rfl⟩ := hpq
    exact Or.inl ⟨r, rfl⟩
  · by_cases hqp : q <+: p
    · obtain ⟨r, rfl⟩ := hqp
      refine Or.inr (Or.inl ⟨r, ?_, rfl⟩)
      rintro rfl
      exact hpq (by simp)
    · exact Or.inr (Or.inr ⟨hpq, hqp⟩)

/-- A path is not below one of its prefixes. -/
theorem not_prefix_of_ne_nil {q r : List K} (hr : r ≠ []) : ¬q ++ r <+: q := by
  intro h
  have hlen := h.length_le
  rw [List.length_append] at hlen
  exact hr (List.length_eq_zero_iff.mp (by omega))

/-! ## Reading and writing -/

/-- The tree without leaves. -/
def empty : PathMap K V := fun _ => none

/-- The tree below `p`. -/
def sub (f : PathMap K V) (p : List K) : PathMap K V := fun q => f (p ++ q)

open Classical in
/-- The tree `f` with the tree `g` at `p`. -/
noncomputable def write (f : PathMap K V) (p : List K) (g : PathMap K V) : PathMap K V := fun q =>
  if p <+: q then g (q.drop p.length)
  else if q <+: p ∧ g ≠ empty then none
  else f q

/-- There is no leaf strictly above `p`. -/
def Clear (f : PathMap K V) (p : List K) : Prop := ∀ q r, r ≠ [] → p = q ++ r → f q = none

variable {f g h : PathMap K V} {p q r : List K}

@[simp]
theorem empty_apply (q : List K) : (empty : PathMap K V) q = none := rfl

@[simp]
theorem sub_apply (f : PathMap K V) (p q : List K) : f.sub p q = f (p ++ q) := rfl

@[simp]
theorem sub_nil (f : PathMap K V) : f.sub [] = f := rfl

/-- The part below a path of the part below another one. -/
theorem sub_sub (f : PathMap K V) (p q : List K) : (f.sub p).sub q = f.sub (p ++ q) := by
  ext1 r
  simp

@[simp]
theorem sub_empty (p : List K) : (empty : PathMap K V).sub p = empty := rfl

/-- At and below the written path everything is as written. -/
@[simp]
theorem write_append (f : PathMap K V) (p : List K) (g : PathMap K V) (r : List K) :
    write f p g (p ++ r) = g r := by
  simp [write]

/-- Above what is written, if that is not nothing, there is no value any more. -/
theorem write_of_above (f g : PathMap K V) (hr : r ≠ []) (hg : g ≠ empty) :
    write f (q ++ r) g q = none := by
  rw [write, if_neg (not_prefix_of_ne_nil hr), if_pos ⟨List.prefix_append q r, hg⟩]

/-- Writing nothing leaves the values above as they are. -/
theorem write_empty_of_above (f : PathMap K V) (hr : r ≠ []) : write f (q ++ r) empty q = f q := by
  rw [write, if_neg (not_prefix_of_ne_nil hr), if_neg (by simp)]

/-- Apart from the written path nothing changes. -/
theorem write_of_apart (f g : PathMap K V) (h : Apart p q) : write f p g q = f q := by
  rw [write, if_neg h.1, if_neg (fun hq => h.2 hq.1)]

/-- Above the written path no value appears. -/
theorem write_of_above_of_none (g : PathMap K V) (hr : r ≠ []) (hf : f q = none) :
    write f (q ++ r) g q = none := by
  by_cases hg : g = empty
  · rw [hg, write_empty_of_above f hr, hf]
  · exact write_of_above f g hr hg

/-- Writing at the root replaces everything. -/
@[simp]
theorem write_nil (f g : PathMap K V) : write f [] g = g := by
  ext1 q
  simpa using write_append f [] g q

/-- Below the written path there is what was written. -/
@[simp]
theorem sub_write_self (f g : PathMap K V) (p : List K) : (write f p g).sub p = g := by
  ext1 r
  simp

/-- What is read below a path that is written to further down. -/
theorem sub_write_append (f g : PathMap K V) (p r : List K) :
    (write f (p ++ r) g).sub p = write (f.sub p) r g := by
  ext1 q
  rcases prefix_cases r q with ⟨s, rfl⟩ | ⟨s, hs, rfl⟩ | hq
  · rw [sub_apply, ← List.append_assoc, write_append, write_append]
  · rw [sub_apply, ← List.append_assoc]
    by_cases hg : g = empty
    · rw [hg, write_empty_of_above f hs, write_empty_of_above _ hs, sub_apply]
    · rw [write_of_above f g hs hg, write_of_above _ g hs hg]
  · rw [sub_apply, write_of_apart f g (apart_append_append.mpr hq), write_of_apart _ g hq,
      sub_apply]

/-- Below a path apart from the written one nothing changes. -/
theorem sub_write_of_apart (f g : PathMap K V) (h : Apart p q) :
    (write f p g).sub q = f.sub q := by
  ext1 r
  exact write_of_apart f g (h.append_right r)

/-- After writing something there is something. -/
theorem write_ne_empty (f : PathMap K V) (p : List K) (hg : g ≠ empty) : write f p g ≠ empty := by
  intro h
  apply hg
  rw [← sub_write_self f g p, h]
  rfl

/-- Two trees that agree below `p` and away from `p` agree if neither has a leaf above `p`. -/
theorem ext_of_sub (hsub : f.sub p = g.sub p) (hapart : ∀ q, Apart p q → f q = g q)
    (habove : ∀ q r, r ≠ [] → p = q ++ r → f q = g q) : f = g := by
  ext1 q
  rcases prefix_cases p q with ⟨s, rfl⟩ | ⟨s, hs, h⟩ | hq
  · exact congrFun hsub s
  · exact habove q s hs h
  · exact hapart q hq

/-- Above a clear path there is no value. -/
theorem Clear.apply (hf : f.Clear (q ++ r)) (hr : r ≠ []) : f q = none := hf q r hr rfl

/-- Nothing is above the root. -/
theorem clear_nil (f : PathMap K V) : f.Clear [] := by
  intro q r hr h
  exact absurd (List.append_eq_nil_iff.mp h.symm).2 hr

/-- A clear path is clear as seen from above. -/
theorem Clear.sub (hf : f.Clear (p ++ r)) : (f.sub p).Clear r := by
  rintro q s hs rfl
  exact hf (p ++ q) s hs (List.append_assoc p q s).symm

/-- Writing what is there changes nothing. -/
theorem write_sub_self (hf : f.Clear p) : write f p (f.sub p) = f := by
  apply ext_of_sub
  · exact sub_write_self f _ p
  · exact fun q hq => write_of_apart f _ hq
  · rintro q r hr rfl
    rw [write_of_above_of_none _ hr (hf.apply hr), hf.apply hr]

/-- Deleting where nothing is changes nothing. -/
theorem write_empty_of_sub (h : f.sub p = empty) : write f p empty = f := by
  apply ext_of_sub
  · rw [sub_write_self, h]
  · exact fun q hq => write_of_apart f _ hq
  · rintro q r hr rfl
    exact write_empty_of_above f hr

/-- A write can be made in two steps, unless it deletes below a leaf. -/
theorem write_append_eq (f : PathMap K V) (p r : List K) (h : g ≠ empty ∨ f.Clear p) :
    write f (p ++ r) g = write f p (write (f.sub p) r g) := by
  apply ext_of_sub
  · rw [sub_write_append, sub_write_self]
  · intro q hq
    rw [write_of_apart _ _ (hq.append_left r), write_of_apart _ _ hq]
  · rintro q s hs rfl
    rw [List.append_assoc]
    rcases h with hg | hf
    · rw [write_of_above _ _ (by simp [hs]) hg, write_of_above _ _ hs (write_ne_empty _ r hg)]
    · rw [write_of_above_of_none _ (by simp [hs]) (hf.apply hs),
        write_of_above_of_none _ hs (hf.apply hs)]

end PathMap

/-! ## Patches -/

/-- A patch gives, for each path it decides, what is there. -/
abbrev Patch (K V : Type*) := PathMap K (Option V)

namespace Patch

variable {K V : Type*}

open Classical in
/-- The patch with the tree `g` written at `p` on top. -/
noncomputable def write (c : Patch K V) (p : List K) (g : PathMap K V) : Patch K V := fun q =>
  if p <+: q then some (g (q.drop p.length))
  else if q <+: p ∧ g ≠ PathMap.empty then (c q).map fun _ => none
  else c q

/-- The patch has a leaf at or below `q`. -/
def LeafBelow (c : Patch K V) (q : List K) : Prop := ∃ r v, c (q ++ r) = some (some v)

open Classical in
/-- The tree `f` with the patch on top: an inner node needed by the patch replaces a leaf. -/
noncomputable def apply (c : Patch K V) (f : PathMap K V) : PathMap K V := fun q =>
  (c q).getD (if c.LeafBelow q then none else f q)

/-- The writes of a list on top of a patch, in their order. -/
noncomputable def layer (c : Patch K V) (ws : List (List K × PathMap K V)) : Patch K V :=
  ws.foldl (fun c w => write c w.1 w.2) c

/-- What is decided at a path is decided below it. -/
def Down (c : Patch K V) : Prop := ∀ q r, c q ≠ none → c (q ++ r) ≠ none

variable {c d : Patch K V} {f g : PathMap K V} {p q r : List K}

/-- At and below the written path everything is decided as written. -/
@[simp]
theorem write_append (c : Patch K V) (p : List K) (g : PathMap K V) (r : List K) :
    write c p g (p ++ r) = some (g r) := by
  simp [write]

/-- Above what is written, what was decided is decided to be no value. -/
theorem write_of_above (c : Patch K V) (hr : r ≠ []) (hg : g ≠ PathMap.empty) :
    write c (q ++ r) g q = (c q).map fun _ => none := by
  rw [write, if_neg (PathMap.not_prefix_of_ne_nil hr), if_pos ⟨List.prefix_append q r, hg⟩]

/-- Writing nothing leaves alone what is decided above. -/
theorem write_empty_of_above (c : Patch K V) (hr : r ≠ []) :
    write c (q ++ r) PathMap.empty q = c q := by
  rw [write, if_neg (PathMap.not_prefix_of_ne_nil hr), if_neg (by simp)]

/-- Apart from the written path nothing is decided anew. -/
theorem write_of_apart (c : Patch K V) (g : PathMap K V) (h : PathMap.Apart p q) :
    write c p g q = c q := by
  rw [write, if_neg h.1, if_neg (fun hq => h.2 hq.1)]

/-- A write below a path that is decided with a whole tree is made to the tree. -/
theorem write_append_of_covered (hc : ∀ s, c (p ++ s) = some (f s)) (r : List K)
    (g : PathMap K V) (s : List K) :
    write c (p ++ r) g (p ++ s) = some (PathMap.write f r g s) := by
  rcases PathMap.prefix_cases r s with ⟨t, rfl⟩ | ⟨t, ht, rfl⟩ | hs
  · rw [← List.append_assoc, write_append, PathMap.write_append]
  · rw [← List.append_assoc]
    by_cases hg : g = PathMap.empty
    · rw [hg, write_empty_of_above c ht, hc, PathMap.write_empty_of_above f ht]
    · rw [write_of_above c ht hg, hc, PathMap.write_of_above f g ht hg]
      rfl
  · rw [write_of_apart c g (PathMap.apart_append_append.mpr hs), hc, PathMap.write_of_apart f g hs]

/-- What is not decided yet is decided by a write at or above it only. -/
theorem write_eq_none_iff : write c p g q = none ↔ ¬p <+: q ∧ c q = none := by
  rw [write]
  split_ifs with hp hq
  · simp [hp]
  · simp [hp]
  · simp [hp]

/-- A path that is not at or below the written one and was open is open still. -/
theorem write_of_not_above (hp : ¬p <+: q) (hc : c q = none) : write c p g q = none :=
  write_eq_none_iff.mpr ⟨hp, hc⟩

/-- A write looks at the path in question only. -/
theorem write_congr (h : c q = d q) : write c p g q = write d p g q := by
  simp only [write, h]

/-- A write keeps a patch closed downwards. -/
theorem Down.write (hc : c.Down) (p : List K) (g : PathMap K V) : (write c p g).Down := by
  intro q r hq hr
  obtain ⟨hp, hcr⟩ := write_eq_none_iff.mp hr
  apply hq
  refine write_eq_none_iff.mpr ⟨fun h => hp (h.trans (List.prefix_append q r)), ?_⟩
  by_contra hcq
  exact hc q r hcq hcr

/-- The empty patch changes nothing. -/
@[simp]
theorem apply_empty (f : PathMap K V) : apply (PathMap.empty : Patch K V) f = f := by
  ext1 q
  simp [apply, LeafBelow]

/-- What the patch decides is so afterwards. -/
theorem apply_of_some {v : Option V} (h : c q = some v) : apply c f q = v := by
  simp [apply, h]

/-- Above a value of the patch there is no value afterwards. -/
theorem apply_of_leafBelow (h : c q = none) (hc : c.LeafBelow q) : apply c f q = none := by
  rw [apply, h, Option.getD_none, if_pos hc]

/-- What the patch leaves open, with no value of the patch below, does not change. -/
theorem apply_of_not_leafBelow (h : c q = none) (hc : ¬c.LeafBelow q) : apply c f q = f q := by
  rw [apply, h, Option.getD_none, if_neg hc]

/-- A patch that decides what is there changes nothing. -/
theorem apply_eq_self (h : ∀ q v, c q = some v → v = f q)
    (hleaf : ∀ q r, r ≠ [] → f q ≠ none → f (q ++ r) = none) : apply c f = f := by
  ext1 q
  cases hc : c q with
  | some v => rw [apply_of_some hc, h q v hc]
  | none =>
    by_cases hl : c.LeafBelow q
    · rw [apply_of_leafBelow hc hl]
      obtain ⟨r, v, hv⟩ := hl
      have hr : r ≠ [] := by
        rintro rfl
        rw [List.append_nil, hc] at hv
        contradiction
      by_contra hne
      rw [← ne_eq, ne_comm] at hne
      have := h _ _ hv
      rw [hleaf q r hr hne] at this
      contradiction
    · exact apply_of_not_leafBelow hc hl

/-- What is read at a path is decided by the patch there and by whether it has a leaf below. -/
theorem apply_congr (h : c q = d r) (hleaf : c.LeafBelow q ↔ d.LeafBelow r) (hfg : f q = g r) :
    apply c f q = apply d g r := by
  cases hd : d r with
  | some v => rw [apply_of_some (h.trans hd), apply_of_some hd]
  | none =>
    by_cases hl : d.LeafBelow r
    · rw [apply_of_leafBelow (h.trans hd) (hleaf.mpr hl), apply_of_leafBelow hd hl]
    · rw [apply_of_not_leafBelow (h.trans hd) (mt hleaf.mp hl), apply_of_not_leafBelow hd hl, hfg]

/-- The tree below a path only depends on the patch below it. -/
theorem sub_apply (c : Patch K V) (f : PathMap K V) (p : List K) :
    (apply c f).sub p = apply (c.sub p) (f.sub p) := by
  ext1 q
  have hbelow : LeafBelow (c.sub p) q ↔ c.LeafBelow (p ++ q) := by
    simp only [LeafBelow, PathMap.sub_apply, List.append_assoc]
  rw [PathMap.sub_apply]
  exact apply_congr rfl hbelow.symm rfl

/-- Applying a patch with one more write is writing after applying the patch. -/
theorem apply_write (hf : f.Clear p) (c : Patch K V) (g : PathMap K V) :
    apply (write c p g) f = PathMap.write (apply c f) p g := by
  apply PathMap.ext_of_sub (p := p)
  · ext1 r
    rw [PathMap.sub_write_self]
    exact apply_of_some (write_append c p g r)
  · intro q hq
    rw [PathMap.write_of_apart _ _ hq]
    have hbelow : ∀ r, write c p g (q ++ r) = c (q ++ r) := fun r =>
      write_of_apart c g (hq.append_right r)
    have hleaf : LeafBelow (write c p g) q ↔ c.LeafBelow q := by
      simp only [LeafBelow, hbelow]
    exact apply_congr (write_of_apart c g hq) hleaf rfl
  · rintro q r hr rfl
    have hfq : f q = none := hf.apply hr
    by_cases hg : g = PathMap.empty
    · rw [hg, PathMap.write_empty_of_above _ hr]
      have hq := write_empty_of_above c (q := q) hr
      cases hc : c q with
      | some v => rw [apply_of_some (hq.trans hc), apply_of_some hc]
      | none =>
        -- nothing is there, whether or not the patch has leaves below
        simp only [apply, hq, hc, hfq, ite_self, Option.getD_none]
    · rw [PathMap.write_of_above _ _ hr hg]
      have hq := write_of_above c (q := q) hr hg
      cases hc : c q with
      | some v => exact apply_of_some (by rw [hq, hc]; rfl)
      | none =>
        have hnone : write c (q ++ r) g q = none := by rw [hq, hc]; rfl
        simp only [apply, hnone, hfq, ite_self, Option.getD_none]

/-! ### Layers of writes -/

variable {ws vs : List (List K × PathMap K V)}

@[simp]
theorem layer_nil (c : Patch K V) : layer c [] = c := rfl

@[simp]
theorem layer_cons (c : Patch K V) (w : List K × PathMap K V)
    (ws : List (List K × PathMap K V)) : layer c (w :: ws) = layer (write c w.1 w.2) ws := rfl

/-- Two lists of writes are made one after the other. -/
theorem layer_append (c : Patch K V) (ws vs : List (List K × PathMap K V)) :
    layer c (ws ++ vs) = layer (layer c ws) vs := List.foldl_append

/-- What is decided at a path depends on what was decided there only. -/
theorem layer_congr (h : c q = d q) : layer c ws q = layer d ws q := by
  induction ws generalizing c d with
  | nil => exact h
  | cons w ws ih => exact ih (write_congr h)

/-- Writes keep a patch closed downwards. -/
theorem Down.layer (hc : c.Down) (ws : List (List K × PathMap K V)) : (layer c ws).Down := by
  induction ws generalizing c with
  | nil => exact hc
  | cons w ws ih => exact ih (hc.write w.1 w.2)

/-- A path is left open if it was, and no write is made at or above it. -/
theorem layer_eq_none_iff : layer c ws q = none ↔ (∀ w ∈ ws, ¬w.1 <+: q) ∧ c q = none := by
  induction ws generalizing c with
  | nil => simp
  | cons w ws ih =>
    rw [layer_cons, ih, write_eq_none_iff]
    simp [and_assoc, and_left_comm]

/-- Writes at paths apart from a path decide nothing there. -/
theorem layer_of_apart (h : ∀ w ∈ ws, PathMap.Apart w.1 q) : layer c ws q = c q := by
  induction ws generalizing c with
  | nil => rfl
  | cons w ws ih =>
    rw [layer_cons, ih fun v hv => h v (List.mem_cons_of_mem _ hv)]
    exact write_of_apart c w.2 (h w List.mem_cons_self)

/-- A write hides what was decided at and below its path before. -/
theorem layer_eq_of_prefix {w : List K × PathMap K V} (hw : w ∈ ws) (h : w.1 <+: q) :
    layer c ws q = layer d ws q := by
  induction ws generalizing c d with
  | nil => exact absurd hw (by simp)
  | cons v ws ih =>
    rcases List.mem_cons.mp hw with rfl | hw
    · rw [layer_cons, layer_cons]
      apply layer_congr
      obtain ⟨s, rfl⟩ := h
      rw [write_append, write_append]
    · exact ih hw

/-- Writes leave undecided paths alone that are not below any of them. -/
theorem layer_of_not_above (h : ∀ w ∈ ws, ¬w.1 <+: q) (hc : c q = none) : layer c ws q = c q := by
  rw [hc]
  exact layer_eq_none_iff.mpr ⟨h, hc⟩

/-- Applying layered writes is writing one after the other. -/
theorem apply_layer (hf : ∀ w ∈ ws, f.Clear w.1) :
    apply (layer c ws) f = ws.foldl (fun f w => f.write w.1 w.2) (apply c f) := by
  induction ws generalizing c with
  | nil => rfl
  | cons w ws ih =>
    rw [layer_cons, ih fun v hv => hf v (List.mem_cons_of_mem _ hv), List.foldl_cons,
      apply_write (hf w List.mem_cons_self)]

/-- Of writes apart from each other each one decides what is below it. -/
theorem layer_of_mem (hws : ws.Pairwise fun v w => PathMap.Apart v.1 w.1)
    {w : List K × PathMap K V} (hw : w ∈ ws) (r : List K) :
    layer c ws (w.1 ++ r) = some (w.2 r) := by
  induction ws generalizing c with
  | nil => exact absurd hw (by simp)
  | cons v ws ih =>
    obtain ⟨hv, hws'⟩ := List.pairwise_cons.mp hws
    rw [layer_cons]
    rcases List.mem_cons.mp hw with rfl | hw
    · rw [layer_of_apart fun u hu => ((hv u hu).append_left r).symm, write_append]
    · exact ih hws' hw

/-- For writes apart from each other no leaf above matters. -/
theorem foldl_write_eq_apply (hws : ws.Pairwise fun v w => PathMap.Apart v.1 w.1) :
    ws.foldl (fun f w => f.write w.1 w.2) f = apply (layer PathMap.empty ws) f := by
  induction ws generalizing f with
  | nil => simp
  | cons w ws ih =>
    obtain ⟨hw, hws'⟩ := List.pairwise_cons.mp hws
    rw [List.foldl_cons, ih hws', layer_cons]
    -- at and below the first write the others are silent
    have hsilent : ∀ r, layer PathMap.empty ws (w.1 ++ r) = none := by
      intro r
      rw [layer_of_apart fun v hv => ((hw v hv).append_left r).symm]
      rfl
    have hsame : ∀ q, ¬w.1 <+: q →
        layer (write PathMap.empty w.1 w.2) ws q = layer PathMap.empty ws q := fun q hq =>
      layer_congr (write_of_not_above hq rfl)
    have hfirst : ∀ r, layer (write PathMap.empty w.1 w.2) ws (w.1 ++ r) = some (w.2 r) := by
      intro r
      rw [layer_of_apart fun v hv => ((hw v hv).append_left r).symm, write_append]
    have hleaf : ∀ q, LeafBelow (layer PathMap.empty ws) q →
        LeafBelow (layer (write PathMap.empty w.1 w.2) ws) q := by
      rintro q ⟨r, v, hv⟩
      refine ⟨r, v, ?_⟩
      rw [hsame, hv]
      rintro ⟨s, hs⟩
      rw [← hs, hsilent] at hv
      contradiction
    ext1 q
    rcases PathMap.prefix_cases w.1 q with ⟨s, rfl⟩ | ⟨s, hs, hq⟩ | hq
    · rw [apply_of_some (hfirst s), apply_of_not_leafBelow (hsilent s), PathMap.write_append]
      rintro ⟨r, v, hv⟩
      rw [List.append_assoc, hsilent] at hv
      contradiction
    · have hnot : ¬w.1 <+: q := by
        rw [hq]
        exact PathMap.not_prefix_of_ne_nil hs
      have hnone : layer PathMap.empty ws q = none := by
        refine layer_eq_none_iff.mpr ⟨fun v hv hvq => (hw v hv).2 ?_, rfl⟩
        rw [hq]
        exact hvq.trans (List.prefix_append q s)
      by_cases hl : LeafBelow (layer PathMap.empty ws) q
      · rw [apply_of_leafBelow hnone hl,
          apply_of_leafBelow ((hsame q hnot).trans hnone) (hleaf q hl)]
      · rw [apply_of_not_leafBelow hnone hl]
        by_cases hg : w.2 = PathMap.empty
        · have hwrite : f.write w.1 w.2 q = f q := by
            rw [hg, hq]
            exact PathMap.write_empty_of_above f hs
          rw [hwrite, apply_of_not_leafBelow ((hsame q hnot).trans hnone)]
          rintro ⟨r, v, hv⟩
          by_cases hqr : w.1 <+: q ++ r
          · obtain ⟨t, ht⟩ := hqr
            rw [← ht, hfirst, hg] at hv
            simp at hv
          · rw [hsame _ hqr] at hv
            exact hl ⟨r, v, hv⟩
        · obtain ⟨r, hr⟩ : ∃ r, w.2 r ≠ none := by
            by_contra hall
            exact hg (funext fun r => not_not.mp fun hr => hall ⟨r, hr⟩)
          obtain ⟨v, hv⟩ := Option.ne_none_iff_exists'.mp hr
          rw [apply_of_leafBelow ((hsame q hnot).trans hnone), hq, PathMap.write_of_above f _ hs hg]
          refine ⟨s ++ r, v, ?_⟩
          rw [← List.append_assoc, ← hq, hfirst, hv]
    · refine (apply_congr (hsame q hq.1) ?_ (PathMap.write_of_apart f _ hq).symm).symm
      simp only [LeafBelow, hsame _ (hq.append_right _).1]

/-- Writes below `p` leave no trace if a later write is made at or above `p` and nothing above `p`
had been decided before. -/
theorem layer_append_of_shadow {bs : List (List K × PathMap K V)} (hws : ∀ w ∈ ws, p <+: w.1)
    (hbs : ∃ b ∈ bs, b.1 <+: p) (hc : ∀ q r, r ≠ [] → p = q ++ r → c q = none) :
    layer c (ws ++ bs) = layer c bs := by
  ext1 q
  rw [layer_append]
  rcases PathMap.prefix_cases p q with ⟨s, rfl⟩ | ⟨s, hs, rfl⟩ | hq
  · obtain ⟨b, hb, hbp⟩ := hbs
    exact layer_eq_of_prefix hb (hbp.trans (List.prefix_append p s))
  · refine layer_congr (layer_of_not_above ?_ (hc q s hs rfl))
    intro w hw hwq
    exact PathMap.not_prefix_of_ne_nil hs ((hws w hw).trans hwq)
  · apply layer_congr
    apply layer_of_apart
    intro w hw
    obtain ⟨s, hs⟩ := hws w hw
    rw [← hs]
    exact hq.append_left s

/-- Writes apart from all others can be taken out again: what they decided is decided by no
other. -/
theorem layer_append_of_apart {as bs : List (List K × PathMap K V)}
    (hbs : ∀ w ∈ ws, ∀ b ∈ bs, PathMap.Apart w.1 b.1)
    (has : ∀ w ∈ ws, ∀ a ∈ as, PathMap.Apart w.1 a.1) (q : List K) :
    ((∃ w ∈ ws, w.1 <+: q) → layer PathMap.empty (as ++ bs) q = none) ∧
      ((∀ w ∈ ws, ¬w.1 <+: q) →
        layer PathMap.empty (as ++ ws ++ bs) q = layer PathMap.empty (as ++ bs) q) := by
  have hboth : ∀ w ∈ ws, ∀ b ∈ as ++ bs, PathMap.Apart w.1 b.1 := by
    intro w hw b hb
    rcases List.mem_append.mp hb with hb | hb
    · exact has w hw b hb
    · exact hbs w hw b hb
  constructor
  · rintro ⟨w, hw, hwq⟩
    refine layer_eq_none_iff.mpr ⟨?_, rfl⟩
    intro b hb hbq
    rcases List.prefix_or_prefix_of_prefix hwq hbq with h | h
    · exact (hboth w hw b hb).1 h
    · exact (hboth w hw b hb).2 h
  · intro hq
    rw [layer_append, layer_append, layer_append]
    apply layer_congr
    -- above a write of `ws` nothing has been decided; elsewhere `ws` changes nothing
    by_cases habove : ∃ w ∈ ws, q <+: w.1
    · obtain ⟨w, hw, hqw⟩ := habove
      apply layer_of_not_above hq
      refine layer_eq_none_iff.mpr ⟨?_, rfl⟩
      exact fun a ha haq => (has w hw a ha).2 (haq.trans hqw)
    · apply layer_of_apart
      intro w hw
      exact ⟨hq w hw, fun hqw => habove ⟨w, hw, hqw⟩⟩

/-! ### Patches on patches -/

/-- Nothing is above a path that the patch decides, down to where it begins to decide. -/
def Fits (c : Patch K V) (f : PathMap K V) : Prop :=
  ∀ q r, c q = none → c (q ++ r) ≠ none → f q = none

open Classical in
/-- The patch `c` with the patch `d` on top. -/
noncomputable def stack (c d : Patch K V) : Patch K V := fun q =>
  match d q with
  | some v => some v
  | none => if d.LeafBelow q then (c q).map fun _ => none else c q

open Classical in
/-- The patch `d` below `p`. -/
noncomputable def shift (p : List K) (d : Patch K V) : Patch K V := fun q =>
  if p <+: q then d (q.drop p.length) else none

/-- The patch that decides everything, as it is in the tree `g`. -/
def total (g : PathMap K V) : Patch K V := fun q => some (g q)

/-- A patch has a value below as seen from above. -/
theorem leafBelow_sub : LeafBelow (c.sub p) q ↔ c.LeafBelow (p ++ q) := by
  simp only [LeafBelow, PathMap.sub_apply, List.append_assoc]

/-- What the upper patch decides is decided so. -/
theorem stack_of_some {v : Option V} (h : d q = some v) : stack c d q = some v := by
  rw [stack, h]

/-- Above a value of the upper patch, what the lower one decides is decided to be no value. -/
theorem stack_of_leafBelow (h : d q = none) (hd : d.LeafBelow q) :
    stack c d q = (c q).map fun _ => none := by
  rw [stack, h]
  exact if_pos hd

/-- Elsewhere the lower patch decides. -/
theorem stack_of_not_leafBelow (h : d q = none) (hd : ¬d.LeafBelow q) : stack c d q = c q := by
  rw [stack, h]
  exact if_neg hd

/-- Two patches leave open what both leave open. -/
theorem stack_eq_none_iff : stack c d q = none ↔ d q = none ∧ c q = none := by
  cases hd : d q with
  | some v => simp [stack_of_some hd]
  | none =>
    by_cases hl : d.LeafBelow q
    · simp [stack_of_leafBelow hd hl]
    · simp [stack_of_not_leafBelow hd hl]

/-- The empty patch on top changes nothing. -/
@[simp]
theorem stack_empty (c : Patch K V) : stack c PathMap.empty = c := by
  ext1 q
  exact stack_of_not_leafBelow rfl (by simp [LeafBelow])

/-- The part of a patch on a patch below a path. -/
theorem sub_stack (c d : Patch K V) (p : List K) :
    (stack c d).sub p = stack (c.sub p) (d.sub p) := by
  ext1 q
  rw [PathMap.sub_apply]
  cases hd : d (p ++ q) with
  | some v => rw [stack_of_some hd, stack_of_some (d := PathMap.sub d p) hd]
  | none =>
    by_cases hl : d.LeafBelow (p ++ q)
    · rw [stack_of_leafBelow hd hl,
        stack_of_leafBelow (d := PathMap.sub d p) hd (leafBelow_sub.mpr hl)]
      rfl
    · rw [stack_of_not_leafBelow hd hl,
        stack_of_not_leafBelow (d := PathMap.sub d p) hd (mt leafBelow_sub.mp hl)]
      rfl

/-- Applying a patch on a patch is applying one after the other. -/
theorem apply_stack (hf : (stack c d).Fits f) : apply (stack c d) f = apply d (apply c f) := by
  ext1 q
  cases hd : d q with
  | some v => rw [apply_of_some (stack_of_some hd), apply_of_some hd]
  | none =>
    by_cases hl : d.LeafBelow q
    · rw [apply_of_leafBelow hd hl]
      have hover := stack_of_leafBelow (c := c) hd hl
      cases hc : c q with
      | some v => exact apply_of_some (by rw [hover, hc]; rfl)
      | none =>
        obtain ⟨r, v, hv⟩ := hl
        exact apply_of_leafBelow (by rw [hover, hc]; rfl) ⟨r, v, stack_of_some hv⟩
    · rw [apply_of_not_leafBelow hd hl]
      have hover := stack_of_not_leafBelow (c := c) hd hl
      cases hc : c q with
      | some v => rw [apply_of_some (hover.trans hc), apply_of_some hc]
      | none =>
        by_cases hdec : ∃ r, d (q ++ r) ≠ none
        · -- `d` only deletes below `q`; then the tree has no leaf at `q`
          obtain ⟨r, hr⟩ := hdec
          have hfq : f q = none := by
            refine hf q r (hover.trans hc) ?_
            rw [Ne, stack_eq_none_iff, not_and_or]
            exact Or.inl hr
          simp only [apply, hover, hc, hfq, ite_self, Option.getD_none]
        · rw [not_exists] at hdec
          have hsame : ∀ r, stack c d (q ++ r) = c (q ++ r) := by
            intro r
            refine stack_of_not_leafBelow (not_not.mp (hdec r)) ?_
            rintro ⟨s, v, hv⟩
            rw [List.append_assoc] at hv
            exact hdec (r ++ s) (by simp [hv])
          refine apply_congr hover ?_ rfl
          simp only [LeafBelow, hsame]

/-- Below the path the shifted patch decides as the patch does. -/
@[simp]
theorem shift_append (p : List K) (d : Patch K V) (r : List K) : shift p d (p ++ r) = d r := by
  simp [shift]

theorem shift_of_not_above (d : Patch K V) (h : ¬p <+: q) : shift p d q = none := if_neg h

/-- The part of a shifted patch below a path of the patch. -/
@[simp]
theorem sub_shift_append (p : List K) (d : Patch K V) (r : List K) :
    (shift p d).sub (p ++ r) = d.sub r := by
  ext1 q
  rw [PathMap.sub_apply, List.append_assoc, shift_append]
  rfl

/-- The part of a shifted patch below its path is the patch. -/
theorem sub_shift_self (p : List K) (d : Patch K V) : (shift p d).sub p = d := by
  simpa using sub_shift_append p d []

theorem shift_nil (d : Patch K V) : shift [] d = d := sub_shift_self [] d

/-- A shifted patch seen from above where it begins. -/
theorem sub_shift_of_append (p r : List K) (d : Patch K V) :
    (shift (p ++ r) d).sub p = shift r d := by
  ext1 q
  rw [PathMap.sub_apply]
  by_cases hr : r <+: q
  · obtain ⟨s, rfl⟩ := hr
    rw [← List.append_assoc, shift_append, shift_append]
  · rw [shift_of_not_above d hr,
      shift_of_not_above d (mt (List.prefix_append_right_inj p).mp hr)]

/-- A shifted patch decides nothing apart from its path. -/
theorem sub_shift_of_apart (d : Patch K V) (h : PathMap.Apart p q) :
    (shift p d).sub q = PathMap.empty := by
  ext1 r
  exact shift_of_not_above d (h.append_right r).1

/-- Applying a shifted tree is writing it. -/
theorem apply_shift_total (p : List K) (g f : PathMap K V) :
    apply (shift p (total g)) f = PathMap.write f p g := by
  ext1 q
  rcases PathMap.prefix_cases p q with ⟨r, rfl⟩ | ⟨r, hr, rfl⟩ | hq
  · rw [apply_of_some (shift_append p (total g) r), PathMap.write_append]
  · have hnone : shift (q ++ r) (total g) q = none :=
      shift_of_not_above _ (PathMap.not_prefix_of_ne_nil hr)
    by_cases hg : g = PathMap.empty
    · rw [hg, PathMap.write_empty_of_above _ hr, apply_of_not_leafBelow (by rwa [hg] at hnone)]
      rintro ⟨s, v, hv⟩
      by_cases hs : q ++ r <+: q ++ s
      · obtain ⟨t, ht⟩ := hs
        rw [← ht, shift_append] at hv
        simp [total] at hv
      · rw [shift_of_not_above _ hs] at hv
        contradiction
    · rw [PathMap.write_of_above f g hr hg]
      obtain ⟨s, hs⟩ := Function.ne_iff.mp hg
      obtain ⟨v, hv⟩ := Option.ne_none_iff_exists'.mp hs
      refine apply_of_leafBelow hnone ⟨r ++ s, v, ?_⟩
      rw [← List.append_assoc, shift_append, total, hv]
  · rw [PathMap.write_of_apart f g hq]
    refine apply_of_not_leafBelow (shift_of_not_above _ hq.1) ?_
    rintro ⟨s, v, hv⟩
    rw [shift_of_not_above _ (hq.append_right s).1] at hv
    contradiction

open Classical in
/-- What writes leave of a decision at a path that none of them covers. -/
theorem layer_of_uncovered (h : ∀ w ∈ ws, ¬w.1 <+: q) :
    layer c ws q =
      if ∃ w ∈ ws, q <+: w.1 ∧ w.2 ≠ PathMap.empty then (c q).map (fun _ => none) else c q := by
  induction ws generalizing c with
  | nil => simp
  | cons w ws ih =>
    rw [layer_cons, ih fun v hv => h v (List.mem_cons_of_mem _ hv), write,
      if_neg (h w List.mem_cons_self)]
    simp only [List.mem_cons, exists_eq_or_imp]
    by_cases hw : q <+: w.1 ∧ w.2 ≠ PathMap.empty
    · rw [if_pos hw, if_pos (Or.inl hw), Option.map_map]
      exact ite_self _
    · rw [if_neg hw]
      simp only [hw, false_or]

/-- Writes at paths apart from each other have a value below a path that they leave open if one of
them writes something below it. -/
theorem leafBelow_layer_iff (hws : ws.Pairwise fun v w => PathMap.Apart v.1 w.1)
    (h : ∀ w ∈ ws, ¬w.1 <+: q) :
    LeafBelow (layer PathMap.empty ws) q ↔ ∃ w ∈ ws, q <+: w.1 ∧ w.2 ≠ PathMap.empty := by
  constructor
  · rintro ⟨r, v, hv⟩
    have hdec : ∃ w ∈ ws, w.1 <+: q ++ r := by
      by_contra hnone
      push Not at hnone
      rw [layer_eq_none_iff.mpr ⟨hnone, rfl⟩] at hv
      contradiction
    obtain ⟨w, hw, hwq⟩ := hdec
    refine ⟨w, hw, ?_, ?_⟩
    · exact (List.prefix_or_prefix_of_prefix (List.prefix_append q r) hwq).resolve_right (h w hw)
    · rintro hempty
      obtain ⟨s, hs⟩ := hwq
      rw [← hs, layer_of_mem hws hw, hempty] at hv
      simp at hv
  · rintro ⟨w, hw, ⟨r, hr⟩, hne⟩
    obtain ⟨s, hs⟩ := Function.ne_iff.mp hne
    obtain ⟨v, hv⟩ := Option.ne_none_iff_exists'.mp hs
    refine ⟨r ++ s, v, ?_⟩
    rw [← List.append_assoc, hr, layer_of_mem hws hw, hv]

/-- Writes apart from each other are made on top of a patch as one patch. -/
theorem layer_eq_stack (hws : ws.Pairwise fun v w => PathMap.Apart v.1 w.1) (c : Patch K V) :
    layer c ws = stack c (layer PathMap.empty ws) := by
  ext1 q
  by_cases hcov : ∃ w ∈ ws, w.1 <+: q
  · obtain ⟨w, hw, hwq⟩ := hcov
    obtain ⟨r, rfl⟩ := hwq
    rw [stack_of_some (layer_of_mem hws hw r), layer_of_mem hws hw]
  · push Not at hcov
    have hnone : layer PathMap.empty ws q = none := layer_eq_none_iff.mpr ⟨hcov, rfl⟩
    rw [layer_of_uncovered hcov]
    split
    next hex => rw [stack_of_leafBelow hnone ((leafBelow_layer_iff hws hcov).mpr hex)]
    next hex => rw [stack_of_not_leafBelow hnone (mt (leafBelow_layer_iff hws hcov).mp hex)]

/-- Writes that are all made below `p` are a shifted patch. -/
theorem layer_map_append (p : List K) (ws : List (List K × PathMap K V)) (c : Patch K V) :
    layer (shift p c) (ws.map fun w => (p ++ w.1, w.2)) = shift p (layer c ws) := by
  induction ws generalizing c with
  | nil => rfl
  | cons w ws ih =>
    rw [List.map_cons, layer_cons, layer_cons, ← ih]
    congr 1
    ext1 q
    by_cases hq : p <+: q
    · obtain ⟨s, rfl⟩ := hq
      rw [shift_append]
      rcases PathMap.prefix_cases w.1 s with ⟨t, rfl⟩ | ⟨t, ht, hw⟩ | hs
      · rw [← List.append_assoc, write_append, write_append]
      · rw [hw, ← List.append_assoc]
        by_cases hg : w.2 = PathMap.empty
        · rw [hg, write_empty_of_above _ ht, write_empty_of_above _ ht, shift_append]
        · rw [write_of_above _ ht hg, write_of_above _ ht hg, shift_append]
      · rw [write_of_apart _ _ (PathMap.apart_append_append.mpr hs), write_of_apart _ _ hs,
          shift_append]
    · rw [shift_of_not_above _ hq, write, if_neg fun h => hq ((List.prefix_append p _).trans h),
        shift_of_not_above _ hq]
      exact ite_self _

/-- The shifted empty patch is empty. -/
theorem shift_empty (p : List K) : shift p (PathMap.empty : Patch K V) = PathMap.empty := by
  ext1 q
  exact ite_self _

/-- A single write on top of a patch as a patch. -/
theorem write_eq_stack (c : Patch K V) (p : List K) (g : PathMap K V) :
    write c p g = stack c (shift p (total g)) := by
  have hone : layer PathMap.empty [(p, g)] = shift p (total g) := by
    rw [layer_cons, layer_nil]
    ext1 q
    by_cases hq : p <+: q
    · obtain ⟨r, rfl⟩ := hq
      rw [write_append, shift_append]
      rfl
    · rw [shift_of_not_above _ hq]
      exact write_of_not_above hq rfl
  rw [← hone, ← layer_eq_stack (List.pairwise_singleton _ _)]
  rfl

/-! ### Taking writes back -/

/-- The patch `d` is left of the patch `c` when the decisions about the paths in question are taken
back, some of which were taken elsewhere, too. -/
structure Retract (c d : Patch K V) (touched : List K → Prop) : Prop where
  same : ∀ q, ¬touched q → d q = c q
  decided : ∀ q, touched q → c q ≠ none
  kept : ∀ q, d q ≠ none → d q = c q

/-- If all that is taken back was taken elsewhere, nothing changes. -/
theorem Retract.eq {touched : List K → Prop} (h : Retract c d touched)
    (hall : ∀ q, touched q → d q ≠ none) : d = c := by
  ext1 q
  by_cases hq : touched q
  · exact h.kept q (hall q hq)
  · exact h.same q hq

/-- Other paths are as they were. -/
theorem Retract.apply_eq {touched : List K → Prop} (h : Retract c d touched) (hf : c.Fits f)
    (hq : ¬touched q) : apply d f q = apply c f q := by
  have hsame := h.same q hq
  cases hc : c q with
  | some v => rw [apply_of_some hc, apply_of_some (hsame.trans hc)]
  | none =>
    by_cases hdec : ∃ r, c (q ++ r) ≠ none
    · obtain ⟨r, hr⟩ := hdec
      simp only [apply, hc, hsame.trans hc, hf q r hc hr, ite_self, Option.getD_none]
    · rw [not_exists] at hdec
      -- nothing is decided below the path, so that nothing was taken back there
      have hbelow : ∀ r, d (q ++ r) = c (q ++ r) := fun r =>
        h.same _ fun ht => h.decided _ ht (not_not.mp (hdec r))
      refine apply_congr hsame ?_ rfl
      simp only [LeafBelow, hbelow]

/-- Writes apart from all earlier ones can be taken back. -/
theorem retract_layer {as bs : List (List K × PathMap K V)}
    (has : ∀ w ∈ ws, ∀ a ∈ as, PathMap.Apart w.1 a.1) :
    Retract (layer PathMap.empty (as ++ (ws ++ bs))) (layer PathMap.empty (as ++ bs))
      fun q => ∃ w ∈ ws, w.1 <+: q := by
  have hsame : ∀ q, (¬∃ w ∈ ws, w.1 <+: q) →
      layer PathMap.empty (as ++ bs) q = layer PathMap.empty (as ++ (ws ++ bs)) q := by
    intro q hq
    push Not at hq
    rw [layer_append, layer_append, layer_append]
    apply layer_congr
    -- above a write of `ws` nothing has been decided; elsewhere `ws` changes nothing
    by_cases habove : ∃ w ∈ ws, q <+: w.1
    · obtain ⟨w, hw, hqw⟩ := habove
      refine (layer_of_not_above hq (layer_eq_none_iff.mpr ⟨?_, rfl⟩)).symm
      exact fun a ha haq => (has w hw a ha).2 (haq.trans hqw)
    · refine (layer_of_apart fun w hw => ?_).symm
      exact ⟨hq w hw, fun hqw => habove ⟨w, hw, hqw⟩⟩
  refine ⟨hsame, ?_, fun q hne => ?_⟩
  · rintro q ⟨w, hw, hwq⟩ hnone
    exact (layer_eq_none_iff.mp hnone).1 w (by simp [hw]) hwq
  · by_cases hbs : ∃ b ∈ bs, b.1 <+: q
    · obtain ⟨b, hb, hbq⟩ := hbs
      rw [layer_append, layer_append, layer_append]
      exact layer_eq_of_prefix hb hbq
    · by_cases hq : ∃ w ∈ ws, w.1 <+: q
      · -- no earlier write is at or above the path
        refine absurd (layer_eq_none_iff.mpr ⟨fun v hv hvq => ?_, rfl⟩) hne
        rcases List.mem_append.mp hv with hv | hv
        · obtain ⟨w, hw, hwq⟩ := hq
          rcases List.prefix_or_prefix_of_prefix hwq hvq with h | h
          · exact (has w hw v hv).1 h
          · exact (has w hw v hv).2 h
        · exact hbs ⟨v, hv, hvq⟩
      · exact hsame q hq

end Patch
