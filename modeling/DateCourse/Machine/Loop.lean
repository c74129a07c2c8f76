import Mathlib.Order.Basic

/-!
# Loops that may fail or run for ever

A `while` loop tests a guard on its state and runs its body as long as the guard holds. The body
may fail, which ends the loop without a state. How long the loop runs is a matter of fuel, so that
it is a function: `none` means that the fuel did not suffice.

## Main definitions

* `WhileLoop.run`: the loop, with fuel;
* `WhileLoop.rounds`: the body, a number of times;
* `WhileLoop.Enters`: the guard admits a number of rounds.

## Main results

* `run_mono`: more fuel gives the same result;
* `run_isSome_of_measure`: if each round lowers a measure, fuel above the measure is enough;
* `run_eq_some_none_iff` and `run_eq_some_some_iff`: what a result says about the rounds.
-/

/-- The guard and the body of a loop on states `σ`; `none` is a failure of the body. -/
structure WhileLoop (σ : Type*) where
  guard : σ → Bool
  body : σ → Option σ

namespace WhileLoop

variable {σ : Type*} (loop : WhileLoop σ)

/-- The loop, for as many tests of the guard as there is fuel. The result is `none` if the fuel
does not suffice, `some none` if the body fails, and `some (some t)` if the loop ends with `t`. -/
def run : ℕ → σ → Option (Option σ)
  | 0, _ => none
  | fuel + 1, s =>
    if loop.guard s then
      match loop.body s with
      | none => some none
      | some t => run fuel t
    else some (some s)

/-- The state after `k` rounds of the body, whatever the guard says. -/
def rounds : ℕ → σ → Option σ
  | 0, s => some s
  | k + 1, s => (loop.body s).bind (rounds k)

/-- The first `k` rounds are entered: their states are there and meet the guard. -/
def Enters (k : ℕ) (s : σ) : Prop :=
  ∀ j < k, ∃ t, loop.rounds j s = some t ∧ loop.guard t = true

variable {loop} {s t : σ} {fuel : ℕ}

/-- A loop whose guard fails is over. -/
theorem run_succ_of_not_guard (h : loop.guard s = false) :
    loop.run (fuel + 1) s = some (some s) := by
  simp [run, h]

/-- A loop whose body traps does so. -/
theorem run_succ_of_body_eq_none (h : loop.guard s = true) (hbody : loop.body s = none) :
    loop.run (fuel + 1) s = some none := by
  simp [run, h, hbody]

/-- A loop goes on after its body. -/
theorem run_succ_of_body_eq_some (h : loop.guard s = true) (hbody : loop.body s = some t) :
    loop.run (fuel + 1) s = loop.run fuel t := by
  simp [run, h, hbody]

/-- One more round, at the end. -/
theorem rounds_succ (k : ℕ) (s : σ) :
    loop.rounds (k + 1) s = (loop.rounds k s).bind loop.body := by
  induction k generalizing s with
  | zero => simp [rounds]
  | succ k ih =>
    cases hbody : loop.body s with
    | none => simp [rounds, hbody]
    | some t =>
      have hround : ∀ j, loop.rounds (j + 1) s = loop.rounds j t := fun j => by
        rw [rounds, hbody, Option.bind_some]
      rw [hround, hround, ih]

/-- A round is entered, and then the others from the state that it leaves. -/
theorem enters_succ (h : loop.guard s = true) (hbody : loop.body s = some t) (k : ℕ) :
    loop.Enters (k + 1) s ↔ loop.Enters k t := by
  have hrounds : ∀ j, loop.rounds (j + 1) s = loop.rounds j t := fun j => by
    rw [rounds, hbody, Option.bind_some]
  constructor
  · intro henters j hj
    rw [← hrounds]
    exact henters (j + 1) (by omega)
  · intro henters j hj
    cases j with
    | zero => exact ⟨s, rfl, h⟩
    | succ j =>
      rw [hrounds]
      exact henters j (by omega)

/-- More fuel gives the same result. -/
theorem run_mono {fuel' : ℕ} (hle : fuel ≤ fuel') {r : Option σ}
    (h : loop.run fuel s = some r) : loop.run fuel' s = some r := by
  induction fuel generalizing s fuel' with
  | zero => cases h
  | succ fuel ih =>
    obtain ⟨fuel', rfl⟩ : ∃ n, fuel' = n + 1 := ⟨fuel' - 1, by omega⟩
    cases hguard : loop.guard s with
    | false =>
      rw [run_succ_of_not_guard hguard] at h ⊢
      exact h
    | true =>
      cases hbody : loop.body s with
      | none =>
        rw [run_succ_of_body_eq_none hguard hbody] at h ⊢
        exact h
      | some t =>
        rw [run_succ_of_body_eq_some hguard hbody] at h ⊢
        exact ih (by omega) h

/-- If an invariant is kept by each round and each round lowers a measure, fuel above the measure
is enough. -/
theorem run_isSome_of_measure {K : σ → Prop} (μ : σ → ℕ)
    (hround : ∀ s t, K s → loop.guard s = true → loop.body s = some t → K t ∧ μ t < μ s) :
    ∀ (fuel : ℕ) {s : σ}, K s → μ s < fuel → (loop.run fuel s).isSome
  | fuel + 1, s, hs, hlt => by
    cases hguard : loop.guard s with
    | false =>
      rw [run_succ_of_not_guard hguard]
      rfl
    | true =>
      cases hbody : loop.body s with
      | none =>
        rw [run_succ_of_body_eq_none hguard hbody]
        rfl
      | some t =>
        obtain ⟨ht, hdecreases⟩ := hround s t hs hguard hbody
        rw [run_succ_of_body_eq_some hguard hbody]
        exact run_isSome_of_measure μ hround fuel ht (by omega)

/-- A result of the loop: the rounds up to the one that fails, or up to the end. -/
theorem run_cases {r : Option σ} (h : loop.run fuel s = some r) :
    ∃ k, loop.Enters k s ∧
      ((r = none ∧ ∃ t, loop.rounds k s = some t ∧ loop.guard t = true ∧ loop.body t = none) ∨
        ∃ t, r = some t ∧ loop.rounds k s = some t ∧ loop.guard t = false) := by
  induction fuel generalizing s with
  | zero => cases h
  | succ fuel ih =>
    cases hguard : loop.guard s with
    | false =>
      rw [run_succ_of_not_guard hguard, Option.some.injEq] at h
      exact ⟨0, fun j hj => absurd hj (Nat.not_lt_zero j), Or.inr ⟨s, h.symm, rfl, hguard⟩⟩
    | true =>
      cases hbody : loop.body s with
      | none =>
        rw [run_succ_of_body_eq_none hguard hbody, Option.some.injEq] at h
        exact ⟨0, fun j hj => absurd hj (Nat.not_lt_zero j),
          Or.inl ⟨h.symm, s, rfl, hguard, hbody⟩⟩
      | some t =>
        rw [run_succ_of_body_eq_some hguard hbody] at h
        obtain ⟨k, henters, hend⟩ := ih h
        refine ⟨k + 1, (enters_succ hguard hbody k).mpr henters, ?_⟩
        rw [rounds, hbody, Option.bind_some]
        exact hend

/-- After the rounds that are entered, the loop goes on from where they lead. -/
theorem run_add {k : ℕ} (h : loop.Enters k s) (ht : loop.rounds k s = some t) (fuel : ℕ) :
    loop.run (k + fuel) s = loop.run fuel t := by
  induction k generalizing s with
  | zero =>
    obtain rfl : s = t := Option.some.inj ht
    rw [Nat.zero_add]
  | succ k ih =>
    obtain ⟨s', hs', hguard⟩ := h 0 (Nat.succ_pos k)
    obtain rfl : s = s' := Option.some.inj hs'
    obtain ⟨u, hbody, hrest⟩ := Option.bind_eq_some_iff.mp ht
    rw [Nat.add_right_comm, run_succ_of_body_eq_some hguard hbody]
    exact ih ((enters_succ hguard hbody k).mp h) hrest

/-- Two results of the loop agree. -/
theorem run_unique {fuel' : ℕ} {r r' : Option σ} (h : loop.run fuel s = some r)
    (h' : loop.run fuel' s = some r') : r = r' := by
  have hmax := run_mono (Nat.le_max_left fuel fuel') h
  have hmax' := run_mono (Nat.le_max_right fuel fuel') h'
  exact Option.some.inj (hmax.symm.trans hmax')

/-- The loop fails exactly if the body fails after rounds that are entered. -/
theorem run_eq_some_none_iff {r : Option σ} (h : loop.run fuel s = some r) :
    r = none ↔ ∃ k t, loop.Enters k s ∧ loop.rounds k s = some t ∧ loop.guard t = true ∧
      loop.body t = none := by
  constructor
  · rintro rfl
    obtain ⟨k, henters, ⟨-, t, hend⟩ | ⟨t, hnone, -⟩⟩ := run_cases h
    · exact ⟨k, t, henters, hend⟩
    · cases hnone
  · rintro ⟨k, t, henters, ht, hguard, hbody⟩
    refine run_unique h (?_ : loop.run (k + 1) s = some none)
    rw [run_add henters ht, run_succ_of_body_eq_none hguard hbody]

/-- The loop ends with the first state that does not meet the guard. -/
theorem run_eq_some_some_iff {r : Option σ} (h : loop.run fuel s = some r) :
    r = some t ↔ ∃ k, loop.Enters k s ∧ loop.rounds k s = some t ∧ loop.guard t = false := by
  constructor
  · rintro rfl
    obtain ⟨k, henters, ⟨hnone, -⟩ | ⟨t', ht', hend⟩⟩ := run_cases h
    · cases hnone
    · obtain rfl := Option.some.inj ht'
      exact ⟨k, henters, hend⟩
  · rintro ⟨k, henters, ht, hguard⟩
    refine run_unique h (?_ : loop.run (k + 1) s = some (some t))
    rw [run_add henters ht, run_succ_of_not_guard hguard]

end WhileLoop
