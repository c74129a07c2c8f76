import Mathlib.Data.List.Infix
import Mathlib.Logic.Relation

/-!
# Runs of event-driven machines

A machine handles one event at a time. `PartialStep σ ε` is its step function: `none` is a trap
(the program stops), and an event the state does not wait for is a step that changes nothing. A
run is a list of events, so an interleaving of several event sources is just a list.

## Main definitions

* `PartialStep.exec`: the state after a run, `none` once an event traps;
* `PartialStep.Along`: a predicate holds in every state the run reaches;
* `PartialStep.Always`: the same, and no event of the run traps;
* `PartialStep.EachStep`: every step of the run meets a condition on the state it starts from;
* `PartialStep.recording`: the machine with a record of its run beside the state.

## Main results

* `exec_keeps`, `exec_total`, `exec_simulates` and `exists_exec_of_step`: what holds of each step,
  for a run;
* `along_of_inv` and `always_of_inv`: an invariant holds along every run;
* `exec_history`: what each step keeps of a state and the events before it;
* `exec_recording`: the record does not influence the run;
* `along_iff_prefix`: `Along` is the predicate at the end of every prefix of the run;
* `along_iff_eachStep`, `always_iff_eachStep` and `always_iff_eachStep_of_total`: when a condition
  on one step decides whether a predicate survives it, the condition on every step decides whether
  it holds along the run;
* `end_iff_eachStep`: if the predicate is never regained, it is enough to look at the end.
-/

/-- The step function of a machine with states `σ` and events `ε`; `none` is a trap. -/
abbrev PartialStep (σ ε : Type*) := σ → ε → Option σ

namespace PartialStep

variable {σ ε : Type*} (step : PartialStep σ ε)

/-- The state after the events of `es`, or `none` if one of them traps. -/
def exec : σ → List ε → Option σ
  | s, [] => some s
  | s, e :: es => (step s e).bind (exec · es)

/-- `P` holds in the first state and in every state the run reaches before it ends or traps. -/
def Along (P : σ → Prop) : σ → List ε → Prop
  | s, [] => P s
  | s, e :: es => P s ∧ ∀ s', step s e = some s' → Along P s' es

/-- No event of the run traps, and `P` holds in every state it reaches. -/
def Always (P : σ → Prop) : σ → List ε → Prop
  | s, [] => P s
  | s, e :: es => P s ∧ ∃ s', step s e = some s' ∧ Always P s' es

/-- Every step the run takes meets `C` in the state it is taken from. -/
def EachStep (C : σ → ε → Prop) : σ → List ε → Prop
  | _, [] => True
  | s, e :: es => C s e ∧ ∀ s', step s e = some s' → EachStep C s' es

variable {step} {P K : σ → Prop} {C : σ → ε → Prop}

/-- A condition that can be decided is decided for a run by running it. -/
instance decidableEachStep [∀ s e, Decidable (C s e)] :
    ∀ s es, Decidable (step.EachStep C s es)
  | _, [] => isTrue trivial
  | s, e :: es =>
    match hs : step s e with
    | none =>
      decidable_of_iff (C s e) ⟨fun hC => ⟨hC, fun s' hs' => by simp [hs] at hs'⟩, And.left⟩
    | some s' =>
      have := decidableEachStep s' es
      decidable_of_iff (C s e ∧ step.EachStep C s' es) (by simp [EachStep, hs])

@[simp]
theorem exec_nil (s : σ) : step.exec s [] = some s := rfl

@[simp]
theorem exec_cons (s : σ) (e : ε) (es : List ε) :
    step.exec s (e :: es) = (step s e).bind (step.exec · es) := rfl

/-- A run made of two parts. -/
theorem exec_append (es es' : List ε) (s : σ) :
    step.exec s (es ++ es') = (step.exec s es).bind (step.exec · es') := by
  induction es generalizing s with
  | nil => rfl
  | cons e es ih =>
    cases ht : step s e with
    | none => simp [ht]
    | some t => simpa [ht] using ih t

/-- A run over mapped events is one of the mapped machine. -/
theorem exec_map {α : Type*} (f : α → ε) (l : List α) (s : σ) :
    step.exec s (l.map f) = exec (fun s a => step s (f a)) s l := by
  induction l generalizing s with
  | nil => rfl
  | cons a l ih => simp only [List.map_cons, exec_cons, ih]

/-- What each step keeps, a run keeps. -/
theorem exec_keeps (hK : ∀ s e s', K s → step s e = some s' → K s') :
    ∀ (es : List ε) {s s' : σ}, K s → step.exec s es = some s' → K s'
  | [], s, s', hs, h => by
    obtain rfl : s = s' := by simpa using h
    exact hs
  | e :: es, s, s', hs, h => by
    obtain ⟨t, ht, hrest⟩ := Option.bind_eq_some_iff.mp h
    exact exec_keeps hK es (hK s e t hs ht) hrest

/-- If each event of a run is defined wherever the invariant holds and keeps it, the run does not
trap. -/
theorem exec_total : ∀ (es : List ε) {s : σ},
    (∀ e ∈ es, ∀ s, K s → ∃ s', step s e = some s' ∧ K s') → K s →
      ∃ s', step.exec s es = some s' ∧ K s'
  | [], s, _, hs => ⟨s, rfl, hs⟩
  | e :: es, s, hK, hs => by
    obtain ⟨t, ht, hKt⟩ := hK e List.mem_cons_self s hs
    obtain ⟨s', hs', hKs'⟩ := exec_total es (fun e he => hK e (List.mem_cons_of_mem _ he)) hKt
    exact ⟨s', by rw [exec_cons, ht]; exact hs', hKs'⟩

/-- If each step is, seen through `f`, a step of the relation `R`, then a run is a chain of such
steps. -/
theorem exec_simulates {τ : Type*} {R : τ → τ → Prop} {f : σ → τ}
    (hK : ∀ s e s', K s → step s e = some s' → K s')
    (hR : ∀ s e s', K s → step s e = some s' → R (f s) (f s')) :
    ∀ (es : List ε) {s s' : σ}, K s → step.exec s es = some s' →
      Relation.ReflTransGen R (f s) (f s')
  | [], s, s', _, h => by
    obtain rfl : s = s' := by simpa using h
    exact .refl
  | e :: es, s, s', hs, h => by
    obtain ⟨t, ht, hrest⟩ := Option.bind_eq_some_iff.mp h
    exact .head (hR s e t hs ht) (exec_simulates hK hR es (hK s e t hs ht) hrest)

/-- If each step is, seen through `f`, a run of another machine, then so is a run. -/
theorem exists_exec_of_step {τ δ : Type*} {step' : PartialStep τ δ} {f : σ → τ}
    (h : ∀ s e s', step s e = some s' → ∃ ds, step'.exec (f s) ds = some (f s')) :
    ∀ (es : List ε) {s s' : σ}, step.exec s es = some s' →
      ∃ ds, step'.exec (f s) ds = some (f s')
  | [], s, s', hs' => by
    obtain rfl : s = s' := by simpa using hs'
    exact ⟨[], rfl⟩
  | e :: es, s, s', hs' => by
    obtain ⟨t, ht, hrest⟩ := Option.bind_eq_some_iff.mp hs'
    obtain ⟨ds, hds⟩ := h s e t ht
    obtain ⟨ds', hds'⟩ := exists_exec_of_step h es hrest
    exact ⟨ds ++ ds', by rw [exec_append, hds, Option.bind_some, hds']⟩

/-- What holds along a run holds at its start. -/
theorem Along.head {s : σ} {es : List ε} (h : step.Along P s es) : P s := by
  cases es with
  | nil => exact h
  | cons e es => exact h.1

/-- What always holds in a run holds at its start. -/
theorem Always.head {s : σ} {es : List ε} (h : step.Always P s es) : P s := by
  cases es with
  | nil => exact h
  | cons e es => exact h.1

/-- An invariant that gives `P` gives it along every run. -/
theorem along_of_inv (hP : ∀ s, K s → P s) (hK : ∀ s e s', K s → step s e = some s' → K s') :
    ∀ (es : List ε) {s : σ}, K s → step.Along P s es
  | [], s, hs => hP s hs
  | e :: es, s, hs => ⟨hP s hs, fun s' hs' => along_of_inv hP hK es (hK s e s' hs hs')⟩

/-- If moreover no event traps, `P` always holds. -/
theorem always_of_inv (hP : ∀ s, K s → P s) (hK : ∀ s e, K s → ∃ s', step s e = some s' ∧ K s') :
    ∀ (es : List ε) {s : σ}, K s → step.Always P s es
  | [], s, hs => hP s hs
  | e :: es, s, hs => by
    obtain ⟨t, ht, hKt⟩ := hK s e hs
    exact ⟨hP s hs, t, ht, always_of_inv hP hK es hKt⟩

/-- `Along` in terms of prefixes: `P` holds wherever a prefix of the run ends. -/
theorem along_iff_prefix {s : σ} {es : List ε} :
    step.Along P s es ↔ ∀ pre s', pre <+: es → step.exec s pre = some s' → P s' := by
  induction es generalizing s with
  | nil =>
    constructor
    · intro h pre s' hpre hs'
      obtain rfl := List.prefix_nil.mp hpre
      obtain rfl : s = s' := by simpa using hs'
      exact h
    · intro h
      exact h [] s (List.nil_prefix) rfl
  | cons e es ih =>
    constructor
    · rintro ⟨hs, hrest⟩ pre s' hpre hs'
      -- either nothing has happened yet, or the first event has
      rcases List.prefix_cons_iff.mp hpre with rfl | ⟨rest, rfl, hrestPre⟩
      · obtain rfl : s = s' := by simpa using hs'
        exact hs
      · obtain ⟨t, ht, hs'⟩ := Option.bind_eq_some_iff.mp hs'
        exact ih.mp (hrest t ht) rest s' hrestPre hs'
    · intro h
      refine ⟨h [] s List.nil_prefix rfl, fun t ht => ih.mpr fun pre s' hpre hs' => ?_⟩
      refine h (e :: pre) s' (List.prefix_cons_iff.mpr (Or.inr ⟨pre, rfl, hpre⟩)) ?_
      rw [exec_cons, ht]
      exact hs'

/-- `Always` is `Along` for a run that does not trap. -/
theorem always_iff_along {s : σ} {es : List ε} :
    step.Always P s es ↔ step.Along P s es ∧ (step.exec s es).isSome := by
  induction es generalizing s with
  | nil => simp [Always, Along]
  | cons e es ih =>
    constructor
    · rintro ⟨hs, t, ht, hrest⟩
      obtain ⟨halong, hsome⟩ := ih.mp hrest
      refine ⟨⟨hs, fun t' ht' => ?_⟩, by rw [exec_cons, ht]; exact hsome⟩
      obtain rfl : t = t' := Option.some.inj (ht.symm.trans ht')
      exact halong
    · rintro ⟨⟨hs, hrest⟩, hsome⟩
      cases ht : step s e with
      | none => simp [ht] at hsome
      | some t => exact ⟨hs, t, ht, ih.mpr ⟨hrest t ht, by simpa [ht] using hsome⟩⟩

/-- A run that ends, ends with `P`. -/
theorem Along.of_exec {s t : σ} {es : List ε} (h : step.Along P s es)
    (ht : step.exec s es = some t) : P t :=
  along_iff_prefix.mp h es t List.prefix_rfl ht

/-- What always holds in a run holds at its end. -/
theorem Always.of_exec {s t : σ} {es : List ε} (h : step.Always P s es)
    (ht : step.exec s es = some t) : P t :=
  (always_iff_along.mp h).1.of_exec ht

/-- A run in which something always holds does not trap. -/
theorem Always.isSome_exec {s : σ} {es : List ε} (h : step.Always P s es) :
    (step.exec s es).isSome :=
  (always_iff_along.mp h).2

/-- Let `K` be kept by every step that meets `C`. If on `K`-states `C` says exactly that the step
does not lead to a state without `P`, then `P` holds along a run exactly when each of its steps
meets `C`. -/
theorem along_iff_eachStep
    (hK : ∀ s e s', K s → P s → C s e → step s e = some s' → K s')
    (hC : ∀ s e, K s → P s → (C s e ↔ ∀ s', step s e = some s' → P s')) :
    ∀ (es : List ε) {s : σ}, K s → P s → (step.Along P s es ↔ step.EachStep C s es)
  | [], s, _, hP => by simp [Along, EachStep, hP]
  | e :: es, s, hKs, hP => by
    constructor
    · rintro ⟨_, hrest⟩
      -- the run itself shows that this step keeps `P`, which is what `C` says
      have hCe : C s e := (hC s e hKs hP).mpr fun s' hs' => (hrest s' hs').head
      refine ⟨hCe, fun s' hs' => ?_⟩
      exact (along_iff_eachStep hK hC es (hK s e s' hKs hP hCe hs') (hrest s' hs').head).mp
        (hrest s' hs')
    · rintro ⟨hCe, hrest⟩
      refine ⟨hP, fun s' hs' => ?_⟩
      exact (along_iff_eachStep hK hC es (hK s e s' hKs hP hCe hs')
        ((hC s e hKs hP).mp hCe s' hs')).mpr (hrest s' hs')

/-- `along_iff_eachStep` with traps counted as violations: the condition also decides whether the
step is defined. -/
theorem always_iff_eachStep
    (hK : ∀ s e s', K s → P s → C s e → step s e = some s' → K s')
    (hC : ∀ s e, K s → P s → (C s e ↔ ∃ s', step s e = some s' ∧ P s')) :
    ∀ (es : List ε) {s : σ}, K s → P s → (step.Always P s es ↔ step.EachStep C s es)
  | [], s, _, hP => by simp [Always, EachStep, hP]
  | e :: es, s, hKs, hP => by
    constructor
    · rintro ⟨_, t, ht, hrest⟩
      -- the step is defined and keeps `P`, which is what `C` says
      have hCe : C s e := (hC s e hKs hP).mpr ⟨t, ht, hrest.head⟩
      refine ⟨hCe, fun s' hs' => ?_⟩
      obtain rfl : t = s' := Option.some.inj (ht.symm.trans hs')
      exact (always_iff_eachStep hK hC es (hK s e t hKs hP hCe ht) hrest.head).mp hrest
    · rintro ⟨hCe, hrest⟩
      obtain ⟨t, ht, hPt⟩ := (hC s e hKs hP).mp hCe
      refine ⟨hP, t, ht, ?_⟩
      exact (always_iff_eachStep hK hC es (hK s e t hKs hP hCe ht) hPt).mpr (hrest t ht)

/-- `always_iff_eachStep` for steps that are always defined: it is enough to know, for each step,
the state it leads to. -/
theorem always_iff_eachStep_of_total
    (h : ∀ s e, K s → P s → ∃ s', step s e = some s' ∧ K s' ∧ (C s e ↔ P s'))
    (es : List ε) {s : σ} (hK : K s) (hP : P s) : step.Always P s es ↔ step.EachStep C s es := by
  refine always_iff_eachStep (K := K) (fun s e s' hK hP _ hs' => ?_) (fun s e hK hP => ?_) es hK hP
  · obtain ⟨t, ht, hKt, -⟩ := h s e hK hP
    exact Option.some.inj (ht.symm.trans hs') ▸ hKt
  · obtain ⟨t, ht, -, hiff⟩ := h s e hK hP
    rw [hiff]
    constructor
    · intro hPt
      exact ⟨t, ht, hPt⟩
    · rintro ⟨s', hs', hPs'⟩
      exact Option.some.inj (ht.symm.trans hs') ▸ hPs'

/-- The sufficient half for a predicate that needs a stronger invariant: if each step that meets
`C` is defined and keeps `K`, and `K` gives `P`, then `P` always holds in a run of such steps. -/
theorem always_of_eachStep (hP : ∀ s, K s → P s)
    (hK : ∀ s e, K s → C s e → ∃ s', step s e = some s' ∧ K s') :
    ∀ (es : List ε) {s : σ}, K s → step.EachStep C s es → step.Always P s es
  | [], s, hs, _ => hP s hs
  | e :: es, s, hs, ⟨hCe, hrest⟩ => by
    obtain ⟨t, ht, hKt⟩ := hK s e hs hCe
    exact ⟨hP s hs, t, ht, always_of_eachStep hP hK es hKt (hrest t ht)⟩

/-- The same without the traps. -/
theorem along_of_eachStep (hP : ∀ s, K s → P s)
    (hK : ∀ s e s', K s → C s e → step s e = some s' → K s') :
    ∀ (es : List ε) {s : σ}, K s → step.EachStep C s es → step.Along P s es
  | [], s, hs, _ => hP s hs
  | e :: es, s, hs, ⟨hCe, hrest⟩ =>
    ⟨hP s hs, fun s' hs' => along_of_eachStep hP hK es (hK s e s' hs hCe hs') (hrest s' hs')⟩

/-- If an invariant is kept by the events of a run and makes them meet `C`, each step does. -/
theorem eachStep_of_inv : ∀ (es : List ε) {s : σ},
    (∀ e ∈ es, ∀ s, K s → C s e ∧ ∀ s', step s e = some s' → K s') → K s → step.EachStep C s es
  | [], _, _, _ => trivial
  | e :: es, s, h, hs => by
    obtain ⟨hC, hK⟩ := h e List.mem_cons_self s hs
    exact ⟨hC, fun s' hs' =>
      eachStep_of_inv es (fun e he => h e (List.mem_cons_of_mem _ he)) (hK s' hs')⟩

/-- A condition on all steps that do not trap holds of each step of a run that does not trap. -/
theorem eachStep_of_exec (hC : ∀ s e s', step s e = some s' → C s e) :
    ∀ (es : List ε) {s s' : σ}, step.exec s es = some s' → step.EachStep C s es
  | [], _, _, _ => trivial
  | e :: es, s, s', h => by
    obtain ⟨t, ht, hrest⟩ := Option.bind_eq_some_iff.mp h
    refine ⟨hC s e t ht, fun t' ht' => ?_⟩
    obtain rfl : t = t' := Option.some.inj (ht.symm.trans ht')
    exact eachStep_of_exec hC es hrest

/-- What each step keeps of a state and of the events that led to it, a run keeps. -/
theorem exec_history_append {H : List ε → σ → Prop}
    (hH : ∀ pre s e s', H pre s → C s e → step s e = some s' → H (pre ++ [e]) s') :
    ∀ (es : List ε) {pre : List ε} {s s' : σ}, H pre s → step.EachStep C s es →
      step.exec s es = some s' → H (pre ++ es) s'
  | [], pre, s, s', hs, _, h => by
    obtain rfl : s = s' := by simpa using h
    rwa [List.append_nil]
  | e :: es, pre, s, s', hs, ⟨hC, hrest⟩, h => by
    obtain ⟨t, ht, h⟩ := Option.bind_eq_some_iff.mp h
    have hes := exec_history_append hH es (hH pre s e t hs hC ht) (hrest t ht) h
    rwa [List.append_assoc] at hes

/-- A relation between the events so far and the state, which every step keeps, holds at the end of
a run. -/
theorem exec_history {H : List ε → σ → Prop}
    (hH : ∀ pre s e s', H pre s → C s e → step s e = some s' → H (pre ++ [e]) s')
    (es : List ε) {s s' : σ} (hs : H [] s) (hC : step.EachStep C s es)
    (h : step.exec s es = some s') : H es s' :=
  exec_history_append hH es hs hC h

/-- The machine with a record of its run: `record` writes down each event together with the state
it happens in, and the machine itself does not see it. -/
def recording {ω : Type*} (step : PartialStep σ ε) (record : σ → ω → ε → ω) :
    PartialStep (σ × ω) ε
  | (s, o), e => (step s e).map fun s' => (s', record s o e)

/-- Without its record the run is that of the machine itself. -/
theorem exec_recording {ω : Type*} {record : σ → ω → ε → ω} :
    ∀ (es : List ε) {s s' : σ} {o o' : ω},
      (step.recording record).exec (s, o) es = some (s', o') → step.exec s es = some s'
  | [], s, s', o, o', h => by
    obtain ⟨rfl, -⟩ := Prod.mk.inj (Option.some.inj h)
    rfl
  | e :: es, s, s', o, o', h => by
    obtain ⟨p, hp, hrest⟩ := Option.bind_eq_some_iff.mp h
    obtain ⟨t, ht, rfl⟩ := Option.map_eq_some_iff.mp hp
    rw [exec_cons, ht]
    exact exec_recording es hrest

/-- When each step keeps `P` exactly if it meets `C`, and `P` is never regained, the end of a run
tells whether all its steps met `C`. -/
theorem end_iff_eachStep (hK : ∀ s e s', K s → step s e = some s' → K s')
    (hP : ∀ s e s', K s → step s e = some s' → (P s' ↔ P s ∧ C s e)) :
    ∀ (es : List ε) {s t : σ}, K s → step.exec s es = some t →
      (P t ↔ P s ∧ step.EachStep C s es)
  | [], s, t, _, h => by
    obtain rfl : s = t := by simpa using h
    simp [EachStep]
  | e :: es, s, t, hs, h => by
    obtain ⟨u, hu, hrest⟩ := Option.bind_eq_some_iff.mp h
    -- `P` at the end means `P` after the first step, and that means `P` before it and `C`
    rw [end_iff_eachStep hK hP es (hK s e u hs hu) hrest, hP s e u hs hu, and_assoc]
    simp [EachStep, hu]

end PartialStep
