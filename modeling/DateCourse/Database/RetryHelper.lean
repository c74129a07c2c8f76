import DateCourse.Machine.Run
import Mathlib.Algebra.Order.Field.Rat
import Mathlib.Tactic.Linarith
import Mathlib.Tactic.Positivity
import Mathlib.Tactic.Ring

/-!
# Retries with growing delays

The connection is tried again through an `FIRRetryHelper`: at once after a success, and then with
delays that grow by a factor up to a bound. The source computes with doubles; here they are exact
rational numbers, so products and sums are not rounded.

## Main definitions

* `FIRRetryHelper` with `retry`, `signalSuccess` and `cancel`;
* `FIRRetryHelper.ofConnection`: the helper of the connection;
* `FIRRetryHelper.step`: the helper as a machine.

## Main results

* `FIRRetryHelper.delay_of_retries`: the delay of each of the retries that follow a success.
-/

namespace Database

/-! ## The settings of the connection -/

/-- In seconds. -/
def kPersistentConnReconnectMinDelay : ℚ := 1

/-- In seconds. -/
def kPersistentConnReconnectMaxDelay : ℚ := 30

/-- `1.3f`, the float closest to 1.3. -/
def kPersistentConnReconnectMultiplier : ℚ := 5452595 / 4194304

/-- `0.7`, the double closest to 0.7. -/
def reconnectJitterFactor : ℚ := 3152519739159347 / 4503599627370496

/-! ## The helper -/

/-- A task that waits to be executed. How long it waits depends on a random number. -/
structure FIRRetryHelperTask (Block : Type*) where
  block : Block
  delay : ℚ → ℚ

/-- `FIRRetryHelper`. -/
structure FIRRetryHelper (Block : Type*) where
  minRetryDelayAfterFailure : ℚ
  maxRetryDelay : ℚ
  retryExponent : ℚ
  jitterFactor : ℚ
  lastWasSuccess : Bool
  currentRetryDelay : ℚ
  scheduledRetry : Option (FIRRetryHelperTask Block)

namespace FIRRetryHelper

variable {Block : Type*}

/-- `initWithDispatchQueue:minRetryDelayAfterFailure:maxRetryDelay:retryExponent:jitterFactor:`. -/
def init (minRetryDelayAfterFailure maxRetryDelay retryExponent jitterFactor : ℚ) :
    FIRRetryHelper Block :=
  { minRetryDelayAfterFailure, maxRetryDelay, retryExponent, jitterFactor, lastWasSuccess := true,
    currentRetryDelay := 0, scheduledRetry := none }

/-- The helper of the connection. -/
def ofConnection : FIRRetryHelper Block :=
  init kPersistentConnReconnectMinDelay kPersistentConnReconnectMaxDelay
    kPersistentConnReconnectMultiplier reconnectJitterFactor

/-- `currentRetryDelay` after it has been updated by `retry:`. -/
def updatedRetryDelay (h : FIRRetryHelper Block) : ℚ :=
  if h.lastWasSuccess then h.currentRetryDelay
  else if h.currentRetryDelay = 0 then h.minRetryDelayAfterFailure
  else min (h.currentRetryDelay * h.retryExponent) h.maxRetryDelay

/-- `retry:`. A task that was scheduled before is cancelled. -/
def retry (h : FIRRetryHelper Block) (block : Block) : FIRRetryHelper Block :=
  let currentRetryDelay := h.updatedRetryDelay
  let delay : ℚ → ℚ := fun randomDouble =>
    if h.lastWasSuccess then 0
    else (1 - h.jitterFactor) * currentRetryDelay +
      h.jitterFactor * currentRetryDelay * randomDouble
  { h with currentRetryDelay, lastWasSuccess := false, scheduledRetry := some { block, delay } }

/-- `signalSuccess`. -/
def signalSuccess (h : FIRRetryHelper Block) : FIRRetryHelper Block :=
  { h with lastWasSuccess := true, currentRetryDelay := 0 }

/-- `cancel`. -/
def cancel (h : FIRRetryHelper Block) : FIRRetryHelper Block :=
  { h with scheduledRetry := none, currentRetryDelay := 0 }

/-- The delay of a scheduled task is over, and its block is about to be executed. -/
def elapse (h : FIRRetryHelper Block) : FIRRetryHelper Block := { h with scheduledRetry := none }

/-- What happens to the helper. -/
inductive Event (Block : Type*)
  | retry (block : Block)
  | elapse

/-- Retries in a row, as a machine. -/
def step : PartialStep (FIRRetryHelper Block) (Event Block)
  | h, .retry block => some (h.retry block)
  | h, .elapse => some h.elapse

/-- The number of retries in a run. -/
def retries (es : List (Event Block)) : ℕ :=
  es.countP fun e => match e with | .retry _ => true | .elapse => false

/-- The longest delay of the retry after `n` others since the last success. -/
def longestDelay (h : FIRRetryHelper Block) : ℕ → ℚ
  | 0 => 0
  | n + 1 => min (h.minRetryDelayAfterFailure * h.retryExponent ^ n) h.maxRetryDelay

/-- The settings make delays grow. -/
structure Growing (h : FIRRetryHelper Block) : Prop where
  min_pos : 0 < h.minRetryDelayAfterFailure
  min_le_max : h.minRetryDelayAfterFailure ≤ h.maxRetryDelay
  one_le_exponent : 1 ≤ h.retryExponent

/-- After the first retry every delay is positive. -/
theorem Growing.longestDelay_pos {h : FIRRetryHelper Block} (hg : Growing h) (n : ℕ) :
    0 < h.longestDelay (n + 1) := by
  have hexp : 0 < h.retryExponent := lt_of_lt_of_le one_pos hg.one_le_exponent
  have hmin := hg.min_pos
  exact lt_min (by positivity) (lt_of_lt_of_le hmin hg.min_le_max)

/-- Growing the longest delay once more gives the next one. -/
theorem Growing.longestDelay_succ {h : FIRRetryHelper Block} (hg : Growing h) (n : ℕ) :
    min (h.longestDelay (n + 1) * h.retryExponent) h.maxRetryDelay = h.longestDelay (n + 2) := by
  have hexp : 0 ≤ h.retryExponent := le_trans zero_le_one hg.one_le_exponent
  have hmax : 0 ≤ h.maxRetryDelay := le_trans hg.min_pos.le hg.min_le_max
  have hover : h.maxRetryDelay ≤ h.maxRetryDelay * h.retryExponent :=
    le_mul_of_one_le_right hmax hg.one_le_exponent
  rw [longestDelay, longestDelay, min_mul_of_nonneg _ _ hexp, min_assoc, min_eq_right hover,
    pow_succ, mul_assoc]

/-- What `n` retries since the last success have done to the helper `h₀`. -/
structure AfterRetries (h₀ : FIRRetryHelper Block) (n : ℕ) (h : FIRRetryHelper Block) : Prop where
  min_eq : h.minRetryDelayAfterFailure = h₀.minRetryDelayAfterFailure
  max_eq : h.maxRetryDelay = h₀.maxRetryDelay
  exponent_eq : h.retryExponent = h₀.retryExponent
  jitter_eq : h.jitterFactor = h₀.jitterFactor
  lastWasSuccess_eq : h.lastWasSuccess = decide (n = 0)
  currentRetryDelay_eq : h.currentRetryDelay = h₀.longestDelay (n - 1)

/-- The next retry updates the delay to the longest one for its number. -/
theorem AfterRetries.updatedRetryDelay {h₀ h : FIRRetryHelper Block} (hg : Growing h₀) {n : ℕ}
    (ha : AfterRetries h₀ n h) : h.updatedRetryDelay = h₀.longestDelay n := by
  rw [FIRRetryHelper.updatedRetryDelay, ha.lastWasSuccess_eq, ha.currentRetryDelay_eq, ha.min_eq,
    ha.exponent_eq, ha.max_eq]
  match n with
  | 0 => simp
  | 1 =>
    -- the first delay after a failure is not compared with the bound
    simp [longestDelay, hg.min_le_max]
  | k + 2 =>
    have hpos := hg.longestDelay_pos k
    simp only [Nat.add_one_sub_one, show (k + 2 = 0) = False by simp, decide_false,
      Bool.false_eq_true, if_false, if_neg hpos.ne']
    exact hg.longestDelay_succ k

/-- One more retry. -/
theorem AfterRetries.retry {h₀ h : FIRRetryHelper Block} (hg : Growing h₀) {n : ℕ}
    (ha : AfterRetries h₀ n h) (block : Block) : AfterRetries h₀ (n + 1) (h.retry block) :=
  ⟨ha.min_eq, ha.max_eq, ha.exponent_eq, ha.jitter_eq, by simp [FIRRetryHelper.retry],
    ha.updatedRetryDelay hg⟩

/-- The retries of a run. -/
theorem AfterRetries.exec {h₀ : FIRRetryHelper Block} (hg : Growing h₀) (es : List (Event Block))
    {n : ℕ} {h h' : FIRRetryHelper Block} (ha : AfterRetries h₀ n h)
    (hes : PartialStep.exec step h es = some h') : AfterRetries h₀ (n + retries es) h' := by
  induction es generalizing n h with
  | nil =>
    rw [← Option.some.inj hes]
    exact ha
  | cons e es ih =>
    rw [PartialStep.exec_cons] at hes
    cases e with
    | retry block =>
      have h' := ih (ha.retry hg block) hes
      rwa [retries, List.countP_cons_of_pos rfl, ← Nat.add_assoc, Nat.add_right_comm]
    | elapse =>
      have ha' : AfterRetries h₀ n h.elapse :=
        ⟨ha.min_eq, ha.max_eq, ha.exponent_eq, ha.jitter_eq, ha.lastWasSuccess_eq,
          ha.currentRetryDelay_eq⟩
      have h' := ih ha' hes
      rwa [retries, List.countP_cons_of_neg (by simp)]

/-- After a success, and whichever of the tasks have been executed meanwhile, the retry that `n`
others came before waits for the longest delay up to jitter: not at all if it is the first, and then
the least delay times a power of the factor, up to the bound. -/
theorem delay_of_retries (h₀ : FIRRetryHelper Block) (hg : Growing h₀) (es : List (Event Block))
    (block : Block) :
    ∃ h task, PartialStep.exec step h₀.signalSuccess es = some h ∧
      (h.retry block).scheduledRetry = some task ∧
      ∀ randomDouble, task.delay randomDouble =
        (1 - h₀.jitterFactor + h₀.jitterFactor * randomDouble) * h₀.longestDelay (retries es) := by
  have htotal : ∀ e ∈ es, ∀ h : FIRRetryHelper Block, True → ∃ h', step h e = some h' ∧ True := by
    rintro (block | -) - h - <;> exact ⟨_, rfl, trivial⟩
  obtain ⟨h, hexec, -⟩ := PartialStep.exec_total es (s := h₀.signalSuccess) htotal trivial
  have hstart : AfterRetries h₀ 0 h₀.signalSuccess := ⟨rfl, rfl, rfl, rfl, rfl, rfl⟩
  have ha := hstart.exec hg es hexec
  rw [Nat.zero_add] at ha
  refine ⟨h, _, hexec, rfl, fun randomDouble => ?_⟩
  dsimp only
  rw [ha.updatedRetryDelay hg, ha.lastWasSuccess_eq, ha.jitter_eq]
  split
  next hzero =>
    rw [of_decide_eq_true hzero, longestDelay, mul_zero]
  next => ring

/-- The settings of the connection make delays grow. -/
theorem growing_ofConnection : Growing (ofConnection : FIRRetryHelper Block) :=
  ⟨by norm_num [ofConnection, init, kPersistentConnReconnectMinDelay],
    by norm_num [ofConnection, init, kPersistentConnReconnectMinDelay,
      kPersistentConnReconnectMaxDelay],
    by norm_num [ofConnection, init, kPersistentConnReconnectMultiplier]⟩

/-- The third attempt of the connection in a row waits for `1.3f` seconds, scaled down by the
jitter, whether or not the attempts before it have been made. -/
theorem delay_of_retries_connection :
    ∃ h task, PartialStep.exec step ofConnection.signalSuccess [.retry (), .elapse, .retry ()] =
        some h ∧
      (h.retry ()).scheduledRetry = some task ∧
      ∀ randomDouble, task.delay randomDouble =
        (1 - reconnectJitterFactor + reconnectJitterFactor * randomDouble) *
          kPersistentConnReconnectMultiplier := by
  obtain ⟨h, task, hexec, htask, hdelay⟩ :=
    delay_of_retries _ growing_ofConnection [.retry (), .elapse, .retry ()] ()
  refine ⟨h, task, hexec, htask, fun randomDouble => ?_⟩
  rw [hdelay]
  norm_num [ofConnection, init, longestDelay, retries, kPersistentConnReconnectMinDelay,
    kPersistentConnReconnectMaxDelay, kPersistentConnReconnectMultiplier]

end FIRRetryHelper

end Database
