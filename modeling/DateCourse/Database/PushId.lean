import DateCourse.Database.Key
import Mathlib.Data.Nat.Digits.Lemmas
import Mathlib.Data.List.Chain
import Mathlib.Data.List.OfFn

/-!
# Identifiers of new children

`childByAutoId` names a new child with `FNextPushId.get`: eight characters for the time in
milliseconds and twelve random ones. Calls in one millisecond do not draw again but count the
random characters up, so that identifiers sort by the order in which they were made.

## Main definitions

* `get`: one call, on the static variables of the source;
* `getAll`: the identifiers of successive calls;
* `NeverExhausted`: no millisecond of these calls runs out of suffixes.

## Main results

* `compare_map_value`: numerals of one length compare as their values;
* `get_spec`: what one call does;
* `isSome_getAll_iff`: the calls return exactly if no millisecond runs out of suffixes;
* `getAll_ascending_iff`: they return ascending identifiers exactly if moreover the clock never goes
  back.
-/

namespace Database

namespace FNextPushId

/-! ## Numerals of a fixed width -/

section Numerals

variable {α : Type*} [Ord α] [Std.ReflOrd α] {b : Nat} {digit : Nat → α}

/-- The value of a numeral, most significant digit first. -/
def value (b : Nat) (ds : List Nat) : Nat := Nat.ofDigits b ds.reverse

/-- The leading digit counts for the power of the base. -/
theorem value_cons (d : Nat) (ds : List Nat) :
    value b (d :: ds) = value b ds + b ^ ds.length * d := by
  simp [value, Nat.ofDigits_append]

/-- A digit at the end counts for itself. -/
theorem value_append_singleton (ds : List Nat) (d : Nat) :
    value b (ds ++ [d]) = d + b * value b ds := by
  simp [value, Nat.ofDigits_cons]

/-- The value of two numerals one after the other. -/
theorem value_append (ds es : List Nat) :
    value b (ds ++ es) = value b es + b ^ es.length * value b ds := by
  simp [value, Nat.ofDigits_append]

/-- A numeral is below the power of the base. -/
theorem value_lt (hb : 1 < b) {ds : List Nat} (hds : ∀ d ∈ ds, d < b) :
    value b ds < b ^ ds.length := by
  have h := Nat.ofDigits_lt_base_pow_length hb (l := ds.reverse) (by simpa using hds)
  simpa [value] using h

/-- A larger leading digit outweighs all digits after it. -/
theorem value_cons_lt (hb : 1 < b) {d e : Nat} {ds es : List Nat} (hlen : ds.length = es.length)
    (hds : ∀ x ∈ ds, x < b) (hde : d < e) : value b (d :: ds) < value b (e :: es) := by
  have h := value_lt hb hds
  rw [value_cons, value_cons, ← hlen]
  calc value b ds + b ^ ds.length * d < b ^ ds.length + b ^ ds.length * d := by omega
    _ = b ^ ds.length * (d + 1) := by ring
    _ ≤ b ^ ds.length * e := Nat.mul_le_mul_left _ hde
    _ ≤ value b es + b ^ ds.length * e := Nat.le_add_left _ _

/-- Only the greatest digits have no greater value of their length. -/
theorem value_add_one_eq_iff (hb : 1 < b) {ds : List Nat} (hds : ∀ d ∈ ds, d < b) :
    value b ds + 1 = b ^ ds.length ↔ ∀ d ∈ ds, d + 1 = b := by
  induction ds with
  | nil => simp [value]
  | cons d ds ih =>
    have hrest : ∀ x ∈ ds, x < b := fun x hx => hds x (List.mem_cons_of_mem _ hx)
    have hlt := value_lt hb hrest
    have hd := hds d List.mem_cons_self
    rw [value_cons, List.length_cons, List.forall_mem_cons, ← ih hrest]
    constructor
    · intro heq
      -- a smaller leading digit cannot be made up for
      have hmax : d + 1 = b := by
        by_contra hne
        have hle : b ^ ds.length * (d + 2) ≤ b ^ ds.length * b :=
          Nat.mul_le_mul_left _ (by omega)
        rw [pow_succ] at heq
        have hexpand : b ^ ds.length * (d + 2) = b ^ ds.length * d + 2 * b ^ ds.length := by ring
        omega
      refine ⟨hmax, ?_⟩
      rw [pow_succ, ← hmax] at heq
      have hexpand : (d + 1) ^ ds.length * (d + 1) =
          (d + 1) ^ ds.length * d + (d + 1) ^ ds.length := by ring
      rw [← hmax]
      rw [← hmax] at hlt
      omega
    · rintro ⟨hmax, heq⟩
      calc value b ds + b ^ ds.length * d + 1 = value b ds + 1 + b ^ ds.length * d := by ring
        _ = b ^ ds.length * (d + 1) := by rw [heq]; ring
        _ = b ^ (ds.length + 1) := by rw [hmax, pow_succ]

/-- If the digits' characters ascend, numerals of one length compare as their values. -/
theorem compare_map_value (hb : 1 < b)
    (hdigit : ∀ i j, i < j → j < b →
      compare (digit i) (digit j) = .lt ∧ compare (digit j) (digit i) = .gt) :
    ∀ {ds es : List Nat}, ds.length = es.length → (∀ d ∈ ds, d < b) → (∀ e ∈ es, e < b) →
      compare (ds.map digit) (es.map digit) = compare (value b ds) (value b es)
  | [], [], _, _, _ => rfl
  | d :: ds, e :: es, hlen, hd, he => by
    have hlen' : ds.length = es.length := Nat.succ.inj hlen
    have hds : ∀ x ∈ ds, x < b := fun x hx => hd x (List.mem_cons_of_mem _ hx)
    have hes : ∀ x ∈ es, x < b := fun x hx => he x (List.mem_cons_of_mem _ hx)
    rw [List.map_cons, List.map_cons, List.compare_cons_cons]
    rcases lt_trichotomy d e with h | rfl | h
    · rw [(hdigit d e h (he e List.mem_cons_self)).1,
        compare_lt_iff_lt.mpr (value_cons_lt hb hlen' hds h)]
      rfl
    · rw [Std.ReflOrd.compare_self, compare_map_value hb hdigit hlen' hds hes, value_cons,
        value_cons, hlen']
      simp [Nat.compare_eq_ite_lt]
    · rw [(hdigit e d h (hd d List.mem_cons_self)).2,
        compare_gt_iff_gt.mpr (value_cons_lt hb hlen'.symm hes h)]
      rfl

end Numerals

/-! ## The code -/

/-- The characters of an identifier, in ascending order. -/
def PUSH_CHARS : NSString :=
  literal "-0123456789ABCDEFGHIJKLMNOPQRSTUVWXYZ_abcdefghijklmnopqrstuvwxyz"

/-- `characterAtIndex:` raises outside the string. -/
def characterAtIndex (s : NSString) (i : Int) : Option Unichar :=
  if 0 ≤ i then s[i.toNat]? else none

/-- The static variables of `get`. -/
structure Static where
  lastPushTime : Int
  lastRandChars : List Nat

/-- Static variables start at zero. -/
def initial : Static where
  lastPushTime := 0
  lastRandChars := List.replicate 12 0

/-- The loop that writes `n` characters of the time, the last one first. -/
def timeStampChars : Nat → Int → Option NSString
  | 0, _ => some []
  | n + 1, now =>
    (characterAtIndex PUSH_CHARS (now.tmod 64)).bind fun c =>
      (timeStampChars n (now.tdiv 64)).map (· ++ [c])

/-- The loop that counts the random characters up, from the index it has reached down to 0. Past
index 0 it writes outside the array. -/
def carry : List Nat → Option (List Nat)
  | [] => none
  | c :: rest => if c = 63 then (carry rest).map (0 :: ·) else some ((c + 1) :: rest)

/-- The random characters of a call in the same millisecond as the last one. -/
def increment (lastRandChars : List Nat) : Option (List Nat) :=
  (carry lastRandChars.reverse).map List.reverse

/-- `+[FNextPushId get:]` at the time `now` in milliseconds; `arc4random` gives the random numbers
that a call draws if it draws any. -/
def get (st : Static) (now : Int) (arc4random : Fin 12 → UInt32) : Option (NSString × Static) :=
  (timeStampChars 8 now).bind fun timeStamp =>
    (if now = st.lastPushTime then increment st.lastRandChars
      else some (List.ofFn fun i => (arc4random i).toNat % 64)).bind fun lastRandChars =>
        (lastRandChars.mapM fun c : Nat => characterAtIndex PUSH_CHARS c).map fun chars =>
          (timeStamp ++ chars, { lastPushTime := now, lastRandChars })

/-- The identifiers of successive calls. -/
def getAll : Static → List (Int × (Fin 12 → UInt32)) → Option (List NSString)
  | _, [] => some []
  | st, (now, arc4random) :: calls =>
    (get st now arc4random).bind fun (id, st') => (getAll st' calls).map (id :: ·)

/-! ## What one call does -/

/-- The characters of identifiers ascend. -/
theorem isChain_PUSH_CHARS : PUSH_CHARS.IsChain (· < ·) := by decide +kernel

/-- The character for a digit. -/
def pushChar (d : Nat) : Unichar := PUSH_CHARS.getD d 0

/-- Each digit has its character. -/
theorem characterAtIndex_of_lt {d : Nat} (h : d < 64) :
    characterAtIndex PUSH_CHARS d = some (pushChar d) := by
  have hlen : PUSH_CHARS.length = 64 := by decide
  rw [characterAtIndex, if_pos (by omega), Int.toNat_natCast, pushChar, List.getD_eq_getElem?_getD,
    List.getElem?_eq_getElem (by omega), Option.getD_some]

/-- Digits are spelled by their characters. -/
theorem mapM_characterAtIndex {ds : List Nat} (h : ∀ d ∈ ds, d < 64) :
    (ds.mapM fun c : Nat => characterAtIndex PUSH_CHARS c) = some (ds.map pushChar) := by
  induction ds with
  | nil => rfl
  | cons d rest ih =>
    rw [List.mapM_cons, characterAtIndex_of_lt (h d List.mem_cons_self),
      ih fun e he => h e (List.mem_cons_of_mem _ he)]
    rfl

/-- The characters compare as their digits. -/
theorem compare_pushChar (i j : Nat) (hij : i < j) (hj : j < 64) :
    compare (pushChar i) (pushChar j) = .lt ∧ compare (pushChar j) (pushChar i) = .gt := by
  have hlen : PUSH_CHARS.length = 64 := by decide
  have hlt : pushChar i < pushChar j := by
    have hsorted := List.isChain_iff_pairwise.mp isChain_PUSH_CHARS
    have h := List.pairwise_iff_getElem.mp hsorted i j (by omega) (by omega) hij
    simpa [pushChar, List.getD_eq_getElem?_getD, show i < PUSH_CHARS.length by omega,
      show j < PUSH_CHARS.length by omega] using h
  have h1 : compare (pushChar i) (pushChar j) = .lt := Std.compare_eq_lt.mpr hlt
  exact ⟨h1, Std.OrientedCmp.gt_of_lt h1⟩

/-- The digits of the time. -/
def timeDigits : Nat → Nat → List Nat
  | 0, _ => []
  | n + 1, now => timeDigits n (now / 64) ++ [now % 64]

/-- The time has as many digits as it is given. -/
theorem length_timeDigits (n now : Nat) : (timeDigits n now).length = n := by
  induction n generalizing now with
  | zero => rfl
  | succ n ih => simp [timeDigits, ih]

/-- The digits of the time are below 64. -/
theorem timeDigits_lt {n now d : Nat} (hd : d ∈ timeDigits n now) : d < 64 := by
  induction n generalizing now with
  | zero => simp [timeDigits] at hd
  | succ n ih =>
    rcases List.mem_append.mp hd with h | h
    · exact ih h
    · obtain rfl := List.mem_singleton.mp h
      exact Nat.mod_lt _ (by omega)

/-- The digits of the time have its value if they are enough. -/
theorem value_timeDigits {n now : Nat} (h : now < 64 ^ n) : value 64 (timeDigits n now) = now := by
  induction n generalizing now with
  | zero =>
    obtain rfl : now = 0 := by simpa using h
    rfl
  | succ n ih =>
    rw [timeDigits, value_append_singleton, ih (by omega)]
    omega

/-- The characters of the time spell its digits. -/
theorem timeStampChars_natCast (n now : Nat) :
    timeStampChars n now = some ((timeDigits n now).map pushChar) := by
  induction n generalizing now with
  | zero => rfl
  | succ n ih =>
    have hmod : (now : Int).tmod 64 = ((now % 64 : Nat) : Int) := by
      rw [Int.tmod_eq_emod_of_nonneg (by omega)]
      rfl
    have hdiv : (now : Int).tdiv 64 = ((now / 64 : Nat) : Int) := by
      rw [Int.tdiv_eq_ediv_of_nonneg (by omega)]
      rfl
    rw [timeStampChars, hmod, hdiv, characterAtIndex_of_lt (Nat.mod_lt _ (by omega)), ih,
      timeDigits]
    simp

/-- Counting up adds one to the value, the last digit being the lowest. -/
theorem carry_eq_some {l l' : List Nat} (h : carry l = some l') (hl : ∀ d ∈ l, d < 64) :
    Nat.ofDigits 64 l' = Nat.ofDigits 64 l + 1 ∧ l'.length = l.length ∧ ∀ d ∈ l', d < 64 := by
  induction l generalizing l' with
  | nil => simp [carry] at h
  | cons c rest ih =>
    have hc := hl c List.mem_cons_self
    have hrest : ∀ d ∈ rest, d < 64 := fun d hd => hl d (List.mem_cons_of_mem _ hd)
    rw [carry] at h
    split at h
    next h63 =>
      obtain ⟨r, hr, rfl⟩ := Option.map_eq_some_iff.mp h
      obtain ⟨hval, hlen, hdig⟩ := ih hr hrest
      refine ⟨?_, by simp [hlen], ?_⟩
      · rw [Nat.ofDigits_cons, Nat.ofDigits_cons, hval, h63]
        ring
      · simpa using hdig
    next h63 =>
      obtain rfl := Option.some.inj h
      refine ⟨?_, rfl, ?_⟩
      · rw [Nat.ofDigits_cons, Nat.ofDigits_cons]
        ring
      · intro d hd
        rcases List.mem_cons.mp hd with rfl | hd
        · omega
        · exact hrest d hd

/-- Counting up adds one. -/
theorem increment_eq_some {l l' : List Nat} (h : increment l = some l') (hl : ∀ d ∈ l, d < 64) :
    value 64 l' = value 64 l + 1 ∧ l'.length = l.length ∧ ∀ d ∈ l', d < 64 := by
  obtain ⟨r, hr, rfl⟩ := Option.map_eq_some_iff.mp h
  obtain ⟨hval, hlen, hdig⟩ := carry_eq_some hr (by simpa using hl)
  exact ⟨by simpa [value] using hval, by simpa using hlen, by simpa using hdig⟩

/-- Counting up is only impossible from the last value. -/
theorem increment_eq_none_iff {l : List Nat} : increment l = none ↔ ∀ d ∈ l, d = 63 := by
  have hcarry : ∀ l : List Nat, carry l = none ↔ ∀ d ∈ l, d = 63 := by
    intro l
    induction l with
    | nil => simp [carry]
    | cons c rest ih =>
      by_cases h63 : c = 63 <;> simp [carry, h63, ih]
  rw [increment, Option.map_eq_none_iff, hcarry]
  simp

namespace Static

/-- The random characters are twelve digits and the time fits into eight. -/
structure Valid (st : Static) : Prop where
  time_nonneg : 0 ≤ st.lastPushTime
  time_lt : st.lastPushTime < 64 ^ 8
  length : st.lastRandChars.length = 12
  digit : ∀ d ∈ st.lastRandChars, d < 64

/-- The identifier last issued. -/
def ident (st : Static) : NSString :=
  (timeDigits 8 st.lastPushTime.toNat ++ st.lastRandChars).map pushChar

/-- The number that the identifier spells. -/
def number (st : Static) : Nat :=
  value 64 st.lastRandChars + 64 ^ 12 * st.lastPushTime.toNat

end Static

/-- The static variables are valid before the first call. -/
theorem valid_initial : initial.Valid where
  time_nonneg := le_rfl
  time_lt := by decide
  length := rfl
  digit := by decide

/-- The suffix that the random numbers of a call spell. -/
def drawn (arc4random : Fin 12 → UInt32) : Nat :=
  value 64 (List.ofFn fun i => (arc4random i).toNat % 64)

/-- No millisecond runs out of suffixes, after a call at `time` that has used the suffix `n`: a call
in the same millisecond takes the next one, which has to be below `64 ^ 12`, and a call in another
one draws its own. -/
def NeverExhausted : Int → Nat → List (Int × (Fin 12 → UInt32)) → Prop
  | _, _, [] => True
  | time, n, (now, arc4random) :: calls =>
    if now = time then n + 1 < 64 ^ 12 ∧ NeverExhausted now (n + 1) calls
    else NeverExhausted now (drawn arc4random) calls

/-- One call: the state it leaves spells the identifier it returns, and within a millisecond the
next suffix is used. -/
theorem get_spec {st st' : Static} {now : Int} {r : Fin 12 → UInt32} {id : NSString}
    (hst : st.Valid) (h0 : 0 ≤ now) (h8 : now < 64 ^ 8) (h : get st now r = some (id, st')) :
    st'.Valid ∧ st'.lastPushTime = now ∧ id = st'.ident ∧
      value 64 st'.lastRandChars =
        if now = st.lastPushTime then value 64 st.lastRandChars + 1 else drawn r := by
  obtain ⟨n, rfl⟩ := Int.eq_ofNat_of_zero_le h0
  obtain ⟨ts, hts, h⟩ := Option.bind_eq_some_iff.mp h
  obtain rfl : _ = ts := Option.some.inj ((timeStampChars_natCast 8 n).symm.trans hts)
  obtain ⟨rand, hrand, h⟩ := Option.bind_eq_some_iff.mp h
  obtain ⟨chars, hchars, h⟩ := Option.map_eq_some_iff.mp h
  obtain ⟨rfl, rfl⟩ := Prod.mk.inj h
  -- whether drawn or counted up, the twelve characters are digits
  have hdigits : rand.length = 12 ∧ (∀ d ∈ rand, d < 64) ∧
      value 64 rand = if (n : Int) = st.lastPushTime then value 64 st.lastRandChars + 1
        else drawn r := by
    split at hrand
    next hdup =>
      obtain ⟨hval, hlen, hdig⟩ := increment_eq_some hrand hst.digit
      exact ⟨hlen.trans hst.length, hdig, by rw [if_pos hdup, hval]⟩
    next hdup =>
      obtain rfl := Option.some.inj hrand
      refine ⟨by simp, ?_, by rw [if_neg hdup, drawn]⟩
      intro d hd
      obtain ⟨i, rfl⟩ := (List.mem_ofFn' _ _).mp hd
      exact Nat.mod_lt _ (by omega)
  obtain ⟨hlen, hdig, hval⟩ := hdigits
  have hmap : chars = rand.map pushChar :=
    Option.some.inj (hchars.symm.trans (mapM_characterAtIndex hdig))
  exact ⟨⟨h0, h8, hlen, hdig⟩, rfl, by simp [Static.ident, hmap], hval⟩

/-- A call traps only when a millisecond has used up its numbers. -/
theorem get_eq_none_iff {st : Static} {now : Int} {r : Fin 12 → UInt32} (hst : st.Valid)
    (h0 : 0 ≤ now) :
    get st now r = none ↔ now = st.lastPushTime ∧ ∀ d ∈ st.lastRandChars, d = 63 := by
  obtain ⟨n, rfl⟩ := Int.eq_ofNat_of_zero_le h0
  have hsome : ∀ {rand : List Nat}, (∀ d ∈ rand, d < 64) →
      ((rand.mapM fun c : Nat => characterAtIndex PUSH_CHARS c).map fun chars =>
        ((timeDigits 8 n).map pushChar ++ chars,
          ({ lastPushTime := n, lastRandChars := rand } : Static))) ≠ none := by
    intro rand hrand
    rw [mapM_characterAtIndex hrand]
    exact Option.some_ne_none _
  rw [get, timeStampChars_natCast, Option.bind_some]
  split
  next hdup =>
    rw [← increment_eq_none_iff]
    cases hinc : increment st.lastRandChars with
    | none => simp [hdup]
    | some rand =>
      have hrand := (increment_eq_some hinc hst.digit).2.2
      simpa using hsome hrand
  next hdup =>
    have hrand : ∀ d ∈ List.ofFn fun i => (r i).toNat % 64, d < 64 := by
      intro d hd
      obtain ⟨i, rfl⟩ := (List.mem_ofFn' _ _).mp hd
      exact Nat.mod_lt _ (by omega)
    simpa [hdup] using hsome hrand

/-- Identifiers compare as the numbers they spell. -/
theorem compareKey_ident {st st' : Static} (hst : st.Valid) (hst' : st'.Valid) :
    compareKey (.key st.ident) (.key st'.ident) = compare st.number st'.number := by
  have hvalue : ∀ st : Static, st.Valid →
      value 64 (timeDigits 8 st.lastPushTime.toNat ++ st.lastRandChars) = st.number := by
    intro st h
    have h0 := h.time_nonneg
    have h8 := h.time_lt
    rw [value_append, h.length, value_timeDigits (by omega), Static.number]
  have hlen : ∀ st : Static, st.Valid →
      (timeDigits 8 st.lastPushTime.toNat ++ st.lastRandChars).length = 20 := by
    intro st h
    rw [List.length_append, length_timeDigits, h.length]
  have hdig : ∀ st : Static, st.Valid →
      ∀ d ∈ timeDigits 8 st.lastPushTime.toNat ++ st.lastRandChars, d < 64 := by
    intro st h d hd
    rcases List.mem_append.mp hd with hd | hd
    · exact timeDigits_lt hd
    · exact h.digit d hd
  -- twenty characters are too many for an integer key
  have hparse : ∀ st : Static, st.Valid → tryParseStringToInt st.ident = none := by
    intro st h
    have hl := hlen st h
    rw [tryParseStringToInt, if_pos]
    left
    rw [Static.ident, List.length_map]
    omega
  simp only [compareKey, hparse st hst, hparse st' hst']
  rw [Static.ident, Static.ident, compare_map_value (by omega) compare_pushChar
    ((hlen st hst).trans (hlen st' hst').symm) (hdig st hst) (hdig st' hst'), hvalue st hst,
    hvalue st' hst']

/-- A call issues a greater identifier exactly if the clock has not gone back. -/
theorem compareKey_get_iff {st st' : Static} {now : Int} {r : Fin 12 → UInt32} {id : NSString}
    (hst : st.Valid) (h0 : 0 ≤ now) (h8 : now < 64 ^ 8) (h : get st now r = some (id, st')) :
    compareKey (.key st.ident) (.key id) = .lt ↔ st.lastPushTime ≤ now := by
  obtain ⟨hst', htime, rfl, hsuffix⟩ := get_spec hst h0 h8 h
  have hnext : now = st.lastPushTime → st'.number = st.number + 1 := by
    intro hdup
    rw [Static.number, Static.number, hsuffix, if_pos hdup, htime, hdup]
    omega
  rw [compareKey_ident hst hst', compare_lt_iff_lt]
  have hv : value 64 st.lastRandChars < 64 ^ 12 := hst.length ▸ value_lt (by omega) hst.digit
  have hv' : value 64 st'.lastRandChars < 64 ^ 12 := hst'.length ▸ value_lt (by omega) hst'.digit
  have hpos := hst.time_nonneg
  constructor
  · intro hlt
    by_contra hback
    simp only [Static.number, htime] at hlt
    have : now.toNat + 1 ≤ st.lastPushTime.toNat := by omega
    omega
  · intro hle
    rcases hle.eq_or_lt with heq | hlt
    · have := hnext heq.symm
      omega
    · simp only [Static.number, htime]
      have : st.lastPushTime.toNat + 1 ≤ now.toNat := by omega
      omega

/-- The order of identifiers. -/
def Ascends (a b : NSString) : Prop := compareKey (.key a) (.key b) = .lt

instance : IsTrans NSString Ascends where
  trans _ _ _ hab hbc := Std.TransCmp.lt_trans hab hbc

/-- Successive identifiers ascend where the times do, from the identifier issued before them. -/
theorem isChain_getAll_iff {st : Static} {calls : List (Int × (Fin 12 → UInt32))}
    {ids : List NSString} (hst : st.Valid) (hcalls : ∀ c ∈ calls, 0 ≤ c.1 ∧ c.1 < 64 ^ 8)
    (h : getAll st calls = some ids) :
    List.IsChain Ascends (st.ident :: ids) ↔
      List.IsChain (· ≤ ·) (st.lastPushTime :: calls.map Prod.fst) := by
  induction calls generalizing st ids with
  | nil =>
    obtain rfl : ids = [] := by simpa [getAll] using h.symm
    simp
  | cons c calls ih =>
    obtain ⟨now, r⟩ := c
    obtain ⟨⟨id, st'⟩, hget, h⟩ := Option.bind_eq_some_iff.mp h
    obtain ⟨rest, hrest, rfl⟩ := Option.map_eq_some_iff.mp h
    obtain ⟨h0, h8⟩ := hcalls (now, r) List.mem_cons_self
    obtain ⟨hst', htime, rfl, -⟩ := get_spec hst h0 h8 hget
    have hstep := compareKey_get_iff hst h0 h8 hget
    have hih := ih hst' (fun c hc => hcalls c (List.mem_cons_of_mem _ hc)) hrest
    rw [htime] at hih
    rw [List.map_cons, List.isChain_cons_cons, List.isChain_cons_cons, hih]
    exact and_congr_left fun _ => hstep

/-- A call finds its suffixes used up exactly if the next one would be `64 ^ 12`. -/
theorem exhausted_iff {st : Static} (hst : st.Valid) :
    (∀ d ∈ st.lastRandChars, d = 63) ↔ ¬ value 64 st.lastRandChars + 1 < 64 ^ 12 := by
  have hlt := value_lt (by omega : 1 < 64) hst.digit
  have hmax := value_add_one_eq_iff (by omega : 1 < 64) hst.digit
  rw [hst.length] at hlt hmax
  have h63 : (∀ d ∈ st.lastRandChars, d = 63) ↔ ∀ d ∈ st.lastRandChars, d + 1 = 64 := by simp
  rw [h63, ← hmax]
  omega

/-- The calls return exactly if no millisecond runs out of suffixes. -/
theorem isSome_getAll_iff {st : Static} {calls : List (Int × (Fin 12 → UInt32))} (hst : st.Valid)
    (hcalls : ∀ c ∈ calls, 0 ≤ c.1 ∧ c.1 < 64 ^ 8) :
    (getAll st calls).isSome ↔
      NeverExhausted st.lastPushTime (value 64 st.lastRandChars) calls := by
  induction calls generalizing st with
  | nil => simp [getAll, NeverExhausted]
  | cons c calls ih =>
    obtain ⟨now, r⟩ := c
    obtain ⟨h0, h8⟩ := hcalls (now, r) List.mem_cons_self
    have hnone : get st now r = none ↔
        now = st.lastPushTime ∧ ¬ value 64 st.lastRandChars + 1 < 64 ^ 12 := by
      rw [get_eq_none_iff hst h0, exhausted_iff hst]
    cases hget : get st now r with
    | none =>
      obtain ⟨hdup, hexhausted⟩ := hnone.mp hget
      rw [NeverExhausted, if_pos hdup]
      simp only [getAll, hget, Option.bind_none, Option.isSome_none, Bool.false_eq_true, false_iff]
      exact fun hleft => hexhausted hleft.1
    | some p =>
      obtain ⟨id, st'⟩ := p
      obtain ⟨hst', htime, -, hsuffix⟩ := get_spec hst h0 h8 hget
      have hih := ih hst' fun c hc => hcalls c (List.mem_cons_of_mem _ hc)
      rw [htime, hsuffix] at hih
      have hrest : (getAll st ((now, r) :: calls)).isSome ↔ (getAll st' calls).isSome := by
        simp [getAll, hget]
      rw [hrest, hih, NeverExhausted]
      by_cases hdup : now = st.lastPushTime
      · -- a call in the same millisecond has found a suffix
        have hleft : value 64 st.lastRandChars + 1 < 64 ^ 12 := by
          by_contra hexhausted
          rw [hnone.mpr ⟨hdup, hexhausted⟩] at hget
          cases hget
        rw [if_pos hdup, if_pos hdup, and_iff_right hleft]
      · rw [if_neg hdup, if_neg hdup]

/-- If a program's calls return, their identifiers ascend exactly if its clock never goes back. -/
theorem ascending_iff_of_getAll {calls : List (Int × (Fin 12 → UInt32))} {ids : List NSString}
    (hcalls : ∀ c ∈ calls, 0 ≤ c.1 ∧ c.1 < 64 ^ 8) (h : getAll initial calls = some ids) :
    ids.Pairwise Ascends ↔ (calls.map Prod.fst).Pairwise (· ≤ ·) := by
  rw [← List.isChain_iff_pairwise, ← List.isChain_iff_pairwise]
  cases calls with
  | nil =>
    obtain rfl : ids = [] := by simpa [getAll] using h.symm
    simp
  | cons c calls =>
    -- the first call compares with the static variables' first values, which no time is below
    have hchain := isChain_getAll_iff valid_initial hcalls h
    obtain ⟨now, r⟩ := c
    obtain ⟨⟨id, st'⟩, hget, h⟩ := Option.bind_eq_some_iff.mp h
    obtain ⟨rest, hrest, rfl⟩ := Option.map_eq_some_iff.mp h
    obtain ⟨h0, h8⟩ := hcalls (now, r) List.mem_cons_self
    have hfirst := (compareKey_get_iff valid_initial h0 h8 hget).mpr h0
    rw [List.map_cons, List.isChain_cons_cons, List.isChain_cons_cons] at hchain
    rw [List.map_cons]
    constructor
    · intro hids
      exact (hchain.mp ⟨hfirst, hids⟩).2
    · intro htimes
      exact (hchain.mpr ⟨h0, htimes⟩).2

/-- A program's calls return ascending identifiers exactly if its clock never goes back and no
millisecond runs out of suffixes. -/
theorem getAll_ascending_iff {calls : List (Int × (Fin 12 → UInt32))}
    (hcalls : ∀ c ∈ calls, 0 ≤ c.1 ∧ c.1 < 64 ^ 8) :
    (∃ ids, getAll initial calls = some ids ∧ ids.Pairwise Ascends) ↔
      (calls.map Prod.fst).Pairwise (· ≤ ·) ∧ NeverExhausted 0 0 calls := by
  have hsome := isSome_getAll_iff valid_initial hcalls
  rw [show value 64 initial.lastRandChars = 0 by decide] at hsome
  constructor
  · rintro ⟨ids, hids, hascends⟩
    exact ⟨(ascending_iff_of_getAll hcalls hids).mp hascends, hsome.mp (by rw [hids]; rfl)⟩
  · rintro ⟨htimes, hleft⟩
    obtain ⟨ids, hids⟩ := Option.isSome_iff_exists.mp (hsome.mpr hleft)
    exact ⟨ids, hids, (ascending_iff_of_getAll hcalls hids).mpr htimes⟩

/-- Two calls within a millisecond and one later return ascending identifiers. -/
theorem getAll_ascending_iff_three_calls :
    ∃ ids, getAll initial [(5, fun _ => 0), (5, fun _ => 9), (7, fun _ => 200)] = some ids ∧
      ids.Pairwise Ascends :=
  (getAll_ascending_iff (by decide)).mpr
    ⟨by decide, by simp [NeverExhausted, show drawn (fun _ => 0) = 0 by decide]⟩

end FNextPushId

end Database
