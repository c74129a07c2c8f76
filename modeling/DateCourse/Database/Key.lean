import Mathlib.Order.Compare
import Mathlib.Data.Nat.Basic
import Mathlib.Tactic.Ring

/-!
# The order of database keys

`FUtilities.compareKey` orders the children of a database node. Keys that read as 32-bit integers
come first, by value and then by length; all other keys follow, by their UTF-16 units. Two sentinel
objects stand below and above every key.

## Main definitions

* `tryParseStringToInt`: the integer a key reads as, if it does;
* `Name`: a key or one of the two sentinels;
* `compareKey`: the comparison, as the code makes it;
* `PlainKey`: the keys on which all comparisons of the code agree.

## Main results

* `compareKey_eq_order`: the comparison is a lexicographic order of four parts of the name;
* `tryParseStringToInt_inj`: two spellings of one length read as the same integer only if they are
  equal or both spell zero;
* `compareKey_total_preorder`: the comparison is a total preorder, and which names it ties;
* `PlainKey.compare_eq`: on plain keys it is the order of their characters, which ties no two.
-/

namespace Database

/-- A UTF-16 code unit. -/
abbrev Unichar := UInt16

/-- A string is the sequence of its UTF-16 units. -/
abbrev NSString := List Unichar

/-- The unit of a character of the basic plane. -/
def unichar (c : Char) : Unichar := UInt16.ofNat c.toNat

/-- A string literal whose characters are all in the basic plane. -/
def literal (s : String) : NSString := s.toList.map unichar

/-! ## Integer keys -/

/-- `INTEGER_32_MIN`. -/
def INTEGER_32_MIN : Int := -2147483648

/-- `INTEGER_32_MAX`. -/
def INTEGER_32_MAX : Int := 2147483647

/-- The loop of `tryParseStringToInt` over the characters still to be read. -/
def parseDigits : NSString → Nat → Option Nat
  | [], value => some value
  | c :: rest, value =>
    if c < 48 ∨ 57 < c then none else parseDigits rest (value * 10 + (c - 48).toNat)

/-- The bounds are checked after the sign is applied. -/
def inIntegerRange (value : Int) : Option Int :=
  if value < INTEGER_32_MIN ∨ value > INTEGER_32_MAX then none else some value

/-- The integer that a key reads as: an optional `-` and digits, at most 11 characters, in the
32-bit range. -/
def tryParseStringToInt (str : NSString) : Option Int :=
  if str.length > 11 ∨ str.length = 0 then none
  else if str.head? = some 45 then
    if str.length = 1 then none
    else (parseDigits str.tail 0).bind fun value => inIntegerRange (-(value : Int))
  else (parseDigits str 0).bind fun value => inIntegerRange value

/-! ## The comparison -/

/-- What `compareKey` is called on. The sentinels are recognised by identity, so no key is one of
them. -/
inductive Name
  | minName
  | maxName
  | key (s : NSString)
  deriving DecidableEq

/-- `+[FUtilities compareKey:toKey:]`. -/
def compareKey (a b : Name) : Ordering :=
  match a, b with
  | .minName, .minName => .eq
  | .maxName, .maxName => .eq
  | .minName, _ => .lt
  | _, .maxName => .lt
  | _, .minName => .gt
  | .maxName, _ => .gt
  | .key a, .key b =>
    match tryParseStringToInt a, tryParseStringToInt b with
    | some aAsInt, some bAsInt =>
      if aAsInt > bAsInt then .gt
      else if aAsInt < bAsInt then .lt
      else if a.length > b.length then .gt
      else if a.length < b.length then .lt
      else .eq
    | some _, none => .lt
    | none, some _ => .gt
    | none, none => compare a b

namespace Name

/-- Sentinels and kinds of keys, in their order. -/
def cls : Name → Nat
  | minName => 0
  | key s => if (tryParseStringToInt s).isSome then 1 else 2
  | maxName => 3

/-- The integer of an integer key. -/
def intValue : Name → Int
  | key s => (tryParseStringToInt s).getD 0
  | _ => 0

/-- The length of an integer key. -/
def intLength : Name → Nat
  | key s => if (tryParseStringToInt s).isSome then s.length else 0
  | _ => 0

/-- The units of a key that is no integer. -/
def text : Name → NSString
  | key s => if (tryParseStringToInt s).isSome then [] else s
  | _ => []

/-- Lexicographic order by kind, integer, length and text. -/
def order : Name → Name → Ordering :=
  compareLex (compareOn cls)
    (compareLex (compareOn intValue) (compareLex (compareOn intLength) (compareOn text)))

/-- Names are tied if their four parts agree. -/
theorem order_eq_iff {a b : Name} :
    order a b = .eq ↔
      a.cls = b.cls ∧ a.intValue = b.intValue ∧ a.intLength = b.intLength ∧ a.text = b.text := by
  simp only [order, compareLex_eq_eq, compareOn, Std.LawfulEqOrd.compare_eq_iff_eq]

end Name

/-- The code's tests on the values and the lengths of two integer keys are a comparison of the
values, then of the lengths. -/
theorem ite_eq_compare_then (m n : Int) (j k : Nat) :
    (if m > n then Ordering.gt else if m < n then .lt
      else if j > k then .gt else if j < k then .lt else .eq) =
      (compare m n).then (compare j k) := by
  rcases lt_trichotomy m n with h | rfl | h
  · rw [if_neg (by omega), if_pos h, compare_lt_iff_lt.mpr h]
    rfl
  · rw [if_neg (lt_irrefl m), if_neg (lt_irrefl m), compare_eq_iff_eq.mpr rfl, Ordering.then]
    rcases lt_trichotomy j k with h | rfl | h
    · rw [if_neg (by omega), if_pos h, compare_lt_iff_lt.mpr h]
    · rw [if_neg (lt_irrefl j), if_neg (lt_irrefl j), compare_eq_iff_eq.mpr rfl]
    · rw [if_pos h, compare_gt_iff_gt.mpr h]
  · rw [if_pos h, compare_gt_iff_gt.mpr h]
    rfl

/-- The comparison in the code is the lexicographic one. -/
theorem compareKey_eq_order (a b : Name) : compareKey a b = Name.order a b := by
  have hkind : ∀ s : NSString, 0 < (Name.key s).cls ∧ (Name.key s).cls < 3 := by
    intro s
    simp only [Name.cls]
    split <;> omega
  cases a with
  | minName =>
    cases b with
    | minName => rfl
    | maxName => rfl
    | key t => simp [compareKey, Name.order, compareLex, compareOn,
        show compare (Name.cls .minName) (Name.cls (.key t)) = .lt from
          compare_lt_iff_lt.mpr (hkind t).1]
  | maxName =>
    cases b with
    | minName => rfl
    | maxName => rfl
    | key t => simp [compareKey, Name.order, compareLex, compareOn,
        show compare (Name.cls .maxName) (Name.cls (.key t)) = .gt from
          compare_gt_iff_gt.mpr (hkind t).2]
  | key s =>
    cases b with
    | minName => simp [compareKey, Name.order, compareLex, compareOn,
        show compare (Name.cls (.key s)) (Name.cls .minName) = .gt from
          compare_gt_iff_gt.mpr (hkind s).1]
    | maxName => simp [compareKey, Name.order, compareLex, compareOn,
        show compare (Name.cls (.key s)) (Name.cls .maxName) = .lt from
          compare_lt_iff_lt.mpr (hkind s).2]
    | key t =>
      cases hs : tryParseStringToInt s with
      | none =>
        cases ht : tryParseStringToInt t with
        | none => simp [compareKey, Name.order, compareLex, compareOn, Name.cls, Name.intValue,
            Name.intLength, Name.text, hs, ht]
        | some n => simp [compareKey, Name.order, compareLex, compareOn, Name.cls, hs, ht,
            show compare 2 1 = Ordering.gt from rfl]
      | some m =>
        cases ht : tryParseStringToInt t with
        | none => simp [compareKey, Name.order, compareLex, compareOn, Name.cls, hs, ht,
            show compare 1 2 = Ordering.lt from rfl]
        | some n =>
          simp only [compareKey, hs, ht, ite_eq_compare_then]
          simp [Name.order, compareLex, compareOn, Name.cls, Name.intValue, Name.intLength,
            Name.text, hs, ht]

instance : Std.TransCmp compareKey := by
  rw [show compareKey = Name.order from funext₂ compareKey_eq_order]
  exact inferInstanceAs (Std.TransCmp (compareLex _ _))

/-! ## Ties -/

/-- A digit's contribution, as the loop adds it. -/
theorem digit_toNat {c : Unichar} (h : ¬(c < 48 ∨ 57 < c)) :
    (c - 48).toNat = c.toNat - 48 ∧ 48 ≤ c.toNat ∧ c.toNat ≤ 57 := by
  simp only [UInt16.lt_iff_toNat_lt, not_or, not_lt] at h
  obtain ⟨h1, h2⟩ := h
  have h1' : 48 ≤ c.toNat := h1
  have h2' : c.toNat ≤ 57 := h2
  refine ⟨?_, h1', h2'⟩
  rw [UInt16.toNat_sub_of_le _ _ (UInt16.le_iff_toNat_le.mpr h1)]
  rfl

/-- Digits of one length read from two values give the same number only if both agree. -/
theorem parseDigits_inj : ∀ {s t : NSString} {a b v : Nat}, s.length = t.length →
    parseDigits s a = some v → parseDigits t b = some v → a = b ∧ s = t
  | [], [], a, b, v, _, hs, ht => by
    simp only [parseDigits, Option.some.injEq] at hs ht
    exact ⟨hs.trans ht.symm, rfl⟩
  | c :: s, d :: t, a, b, v, hlen, hs, ht => by
    simp only [parseDigits, Option.ite_none_left_eq_some] at hs ht
    obtain ⟨hc, hs⟩ := hs
    obtain ⟨hd, ht⟩ := ht
    obtain ⟨hacc, rfl⟩ := parseDigits_inj (Nat.succ.inj hlen) hs ht
    obtain ⟨hc', hc1, hc2⟩ := digit_toNat hc
    obtain ⟨hd', hd1, hd2⟩ := digit_toNat hd
    have hab : a = b := by omega
    have hcd : c.toNat = d.toNat := by omega
    exact ⟨hab, by rw [UInt16.toNat_inj.mp hcd]⟩

/-- The value of digits is nonzero once one of them is. -/
theorem parseDigits_zero : ∀ {s : NSString} {a : Nat}, parseDigits s a = some 0 →
    a = 0 ∧ s = List.replicate s.length 48
  | [], a, h => by simpa [parseDigits] using h
  | c :: s, a, h => by
    simp only [parseDigits, Option.ite_none_left_eq_some] at h
    obtain ⟨hc, h⟩ := h
    obtain ⟨hacc, hs⟩ := parseDigits_zero h
    obtain ⟨hc', hc1, hc2⟩ := digit_toNat hc
    have hc0 : c.toNat = 48 := by omega
    refine ⟨by omega, ?_⟩
    rw [List.length_cons, List.replicate_succ, ← hs]
    congr 1
    exact UInt16.toNat_inj.mp hc0

/-- Zeros read as zero. -/
theorem parseDigits_replicate (n : Nat) : parseDigits (List.replicate n 48) 0 = some 0 := by
  induction n with
  | zero => rfl
  | succ n ih => simpa [List.replicate_succ, parseDigits] using ih

/-- What reads as an integer: digits, possibly after a minus sign. -/
theorem tryParseStringToInt_eq_some {s : NSString} {n : Int} (h : tryParseStringToInt s = some n) :
    s.length ≤ 11 ∧
      ((∃ ds v, s = 45 :: ds ∧ ds ≠ [] ∧ parseDigits ds 0 = some v ∧ n = -(v : Int)) ∨
        ∃ v, s.head? ≠ some 45 ∧ parseDigits s 0 = some v ∧ n = v) := by
  simp only [tryParseStringToInt, Option.ite_none_left_eq_some, not_or] at h
  obtain ⟨⟨hlen, hne⟩, h⟩ := h
  refine ⟨by omega, ?_⟩
  split_ifs at h with hminus hone
  · left
    obtain ⟨ds, rfl⟩ : ∃ ds, s = 45 :: ds := by
      have hpos : 0 < s.length := Nat.pos_of_ne_zero hne
      obtain ⟨c, ds, rfl⟩ := List.exists_cons_of_ne_nil (List.ne_nil_of_length_pos hpos)
      exact ⟨ds, by rw [Option.some.inj hminus]⟩
    obtain ⟨v, hv, hn⟩ := Option.bind_eq_some_iff.mp h
    simp only [inIntegerRange, Option.ite_none_left_eq_some, Option.some.injEq] at hn
    exact ⟨ds, v, rfl, by simpa using hone, hv, hn.2.symm⟩
  · right
    obtain ⟨v, hv, hn⟩ := Option.bind_eq_some_iff.mp h
    simp only [inIntegerRange, Option.ite_none_left_eq_some, Option.some.injEq] at hn
    exact ⟨v, hminus, hv, hn.2.symm⟩

/-- `s` and `t` are zeros of one length, `s` with a minus sign. -/
def SignedZero (s t : NSString) : Prop :=
  ∃ k, 1 ≤ k ∧ k ≤ 10 ∧ s = 45 :: List.replicate k 48 ∧ t = List.replicate (k + 1) 48

/-- A sign and up to ten zeros read as zero. -/
theorem tryParseStringToInt_minus_zeros {k : Nat} (h1 : 1 ≤ k) (h10 : k ≤ 10) :
    tryParseStringToInt (45 :: List.replicate k 48) = some 0 := by
  simp only [tryParseStringToInt, List.length_cons, List.length_replicate, List.head?_cons,
    List.tail_cons]
  rw [if_neg (by omega), if_pos trivial, if_neg (by omega), parseDigits_replicate]
  decide

/-- Up to eleven zeros read as zero. -/
theorem tryParseStringToInt_zeros {k : Nat} (h10 : k ≤ 10) :
    tryParseStringToInt (List.replicate (k + 1) 48) = some 0 := by
  simp only [tryParseStringToInt, List.length_replicate]
  rw [if_neg (by omega), if_neg (by simp [List.replicate_succ]), parseDigits_replicate]
  decide

/-- Two spellings of one length read as the same integer only if they are equal or both spell
zero, one of them with a sign. -/
theorem tryParseStringToInt_inj {s t : NSString} {n : Int} (hlen : s.length = t.length)
    (hs : tryParseStringToInt s = some n) (ht : tryParseStringToInt t = some n) :
    s = t ∨ SignedZero s t ∨ SignedZero t s := by
  obtain ⟨hs11, ⟨ds, v, rfl, hds, hv, rfl⟩ | ⟨v, hsgn, hv, rfl⟩⟩ := tryParseStringToInt_eq_some hs
  · obtain ⟨ht11, ⟨es, w, rfl, hes, hw, hvw⟩ | ⟨w, htgn, hw, hvw⟩⟩ :=
      tryParseStringToInt_eq_some ht
    · obtain rfl : v = w := by omega
      left
      rw [(parseDigits_inj (by simpa using hlen) hv hw).2]
    · -- a number that is both at most and at least zero
      obtain ⟨rfl, rfl⟩ : v = 0 ∧ w = 0 := by omega
      obtain ⟨-, hds0⟩ := parseDigits_zero hv
      obtain ⟨-, ht0⟩ := parseDigits_zero hw
      have hpos := List.length_pos_iff.mpr hds
      simp only [List.length_cons] at hlen hs11
      refine Or.inr (Or.inl ⟨ds.length, hpos, by omega, by rw [← hds0], ?_⟩)
      rw [hlen]
      exact ht0
  · obtain ⟨ht11, ⟨es, w, rfl, hes, hw, hvw⟩ | ⟨w, htgn, hw, hvw⟩⟩ :=
      tryParseStringToInt_eq_some ht
    · obtain ⟨rfl, rfl⟩ : v = 0 ∧ w = 0 := by omega
      obtain ⟨-, hes0⟩ := parseDigits_zero hw
      obtain ⟨-, hs0⟩ := parseDigits_zero hv
      have hpos := List.length_pos_iff.mpr hes
      simp only [List.length_cons] at hlen ht11
      refine Or.inr (Or.inr ⟨es.length, hpos, by omega, by rw [← hes0], ?_⟩)
      rw [← hlen]
      exact hs0
    · obtain rfl : v = w := by omega
      left
      exact (parseDigits_inj hlen hv hw).2

/-- Which keys the comparison ties. -/
theorem compareKey_key_eq_iff (s t : NSString) :
    compareKey (.key s) (.key t) = .eq ↔ s = t ∨ SignedZero s t ∨ SignedZero t s := by
  rw [compareKey_eq_order, Name.order_eq_iff]
  simp only [Name.cls, Name.intValue, Name.intLength, Name.text]
  constructor
  · rintro ⟨hcls, hval, hlen, htext⟩
    cases hs : tryParseStringToInt s with
    | none =>
      cases ht : tryParseStringToInt t with
      | none => exact Or.inl (by simpa [hs, ht] using htext)
      | some n => simp [hs, ht] at hcls
    | some m =>
      cases ht : tryParseStringToInt t with
      | none => simp [hs, ht] at hcls
      | some n =>
        obtain rfl : m = n := by simpa [hs, ht] using hval
        exact tryParseStringToInt_inj (by simpa [hs, ht] using hlen) hs ht
  · rintro (rfl | ⟨k, h1, h10, rfl, rfl⟩ | ⟨k, h1, h10, rfl, rfl⟩)
    · exact ⟨rfl, rfl, rfl, rfl⟩
    all_goals
      simp [tryParseStringToInt_minus_zeros h1 h10, tryParseStringToInt_zeros h10]

/-- The comparison of keys is a total preorder. Two different keys are tied exactly when they are
zeros of one length, one of them with a minus sign. -/
theorem compareKey_total_preorder :
    (∀ a b, compareKey b a = (compareKey a b).swap) ∧
      (∀ a b c, (compareKey a b).isLE → (compareKey b c).isLE → (compareKey a c).isLE) ∧
      ∀ s t, compareKey (.key s) (.key t) = .eq ↔ s = t ∨ SignedZero s t ∨ SignedZero t s :=
  ⟨fun _ _ => Std.OrientedCmp.eq_swap, fun _ _ _ => Std.TransCmp.isLE_trans,
    compareKey_key_eq_iff⟩

/-! ## Plain keys

The children of a node are ordered by `compareKey`, trees of writes by `-[NSString compare:]`, and
paths are compared with `isEqualToString:`. The three agree on keys that are no integers and have
printable ASCII characters only: on such strings the first two compare characters. -/

/-- `kInvalidKeyCharacters`. -/
def kInvalidKeyCharacters : NSString := literal "[].#$/"

/-- `isValidKey:`. -/
def isValidKey (key : NSString) : Bool :=
  0 < key.length && key.all fun c => !kInvalidKeyCharacters.contains c

/-- A valid key of printable ASCII characters that is no integer. -/
structure PlainKey where
  string : NSString
  isValid : isValidKey string = true
  isPrintable : (string.all fun c => 32 ≤ c && c < 127) = true
  isNoInteger : tryParseStringToInt string = none
  deriving DecidableEq

namespace PlainKey

/-- The order of children. -/
instance : Ord PlainKey := ⟨fun a b => compareKey (.key a.string) (.key b.string)⟩

/-- It is the order of the characters. -/
theorem compare_eq (a b : PlainKey) : compare a b = compare a.string b.string := by
  show compareKey (.key a.string) (.key b.string) = _
  simp only [compareKey, a.isNoInteger, b.isNoInteger]

instance : Std.TransOrd PlainKey where
  eq_swap {a b} := by
    show compareKey (.key a.string) (.key b.string) = (compareKey _ _).swap
    exact Std.OrientedCmp.eq_swap
  isLE_trans {a b c} hab hbc := by
    show (compareKey (.key a.string) (.key c.string)).isLE = true
    exact Std.TransCmp.isLE_trans (b := .key b.string) hab hbc

/-- No two plain keys are tied. -/
instance : Std.LawfulEqOrd PlainKey where
  compare_self {a} := by
    rw [compare_eq]
    exact Std.ReflOrd.compare_self
  eq_of_compare {a b} h := by
    rw [compare_eq] at h
    obtain ⟨s, _, _, _⟩ := a
    obtain ⟨t, _, _, _⟩ := b
    obtain rfl : s = t := Std.LawfulEqOrd.eq_of_compare h
    rfl

/-- `"a"`. -/
def a : PlainKey := ⟨literal "a", by decide, by decide, by decide⟩

/-- `"b"`. -/
def b : PlainKey := ⟨literal "b", by decide, by decide, by decide⟩

theorem a_ne_b : a ≠ b := by decide

end PlainKey

end Database
