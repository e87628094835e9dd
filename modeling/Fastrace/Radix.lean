import Mathlib.Algebra.GroupWithZero.Nat
import Mathlib.Data.List.Basic

/-!
# Hexadecimal numbers

Printing with zero padding (`lowerHex`, Rust's `{:0wx}`) and parsing with a bound on the value (`fromStrRadix`, Rust's
`from_str_radix` for an unsigned type of `w` bits and the radix 16).

`fromStrRadix_eq_ok_iff` says what is parsed: an optional plus sign and one or more digits, of either case, whose value
is below `2 ^ w`.  `fromStrRadix_lowerHex`: what is printed is parsed back.
-/

namespace Fastrace

/-! ### Digits -/

/-- `char::to_digit` for the radix 16. -/
def toDigit (c : Char) : Option Nat :=
  if '0' ≤ c ∧ c ≤ '9' then some (c.toNat - '0'.toNat)
  else if 'a' ≤ c ∧ c ≤ 'f' then some (c.toNat - 'a'.toNat + 10)
  else if 'A' ≤ c ∧ c ≤ 'F' then some (c.toNat - 'A'.toNat + 10)
  else none

def isHexDigit (c : Char) : Bool := (toDigit c).isSome

/-- A hexadecimal digit that is not an upper-case letter. -/
def isLowerHexDigit (c : Char) : Bool := ('0' ≤ c && c ≤ '9') || ('a' ≤ c && c ≤ 'f')

/-- The number with the given digits after those of `n`. -/
def hexValueFrom (n : Nat) (s : List Char) : Nat := s.foldl (fun n c => n * 16 + (toDigit c).getD 0) n

def hexValue (s : List Char) : Nat := hexValueFrom 0 s

variable {s t : List Char} {c : Char} {d n m w width : Nat}

theorem isHexDigit_of_lower (h : isLowerHexDigit c = true) : isHexDigit c = true := by
  simp only [isLowerHexDigit, Bool.or_eq_true, Bool.and_eq_true, decide_eq_true_eq] at h
  unfold isHexDigit toDigit
  rcases h with h | h
  · rw [if_pos h]
    rfl
  · by_cases hdigit : '0' ≤ c ∧ c ≤ '9'
    · rw [if_pos hdigit]
      rfl
    · rw [if_neg hdigit, if_pos h]
      rfl

private theorem toDigit_digitChar (h : d < 16) : toDigit d.digitChar = some d := by
  have hall : ∀ d < 16, toDigit d.digitChar = some d := by decide
  exact hall d h

private theorem isLowerHexDigit_digitChar (h : d < 16) : isLowerHexDigit d.digitChar = true := by
  have hall : ∀ d < 16, isLowerHexDigit d.digitChar = true := by decide
  exact hall d h

@[simp] theorem hexValueFrom_nil : hexValueFrom n [] = n := rfl

private theorem hexValueFrom_cons (h : toDigit c = some d) :
    hexValueFrom n (c :: s) = hexValueFrom (n * 16 + d) s := by
  simp [hexValueFrom, h]

private theorem hexValueFrom_append : hexValueFrom n (s ++ t) = hexValueFrom (hexValueFrom n s) t := List.foldl_append

private theorem le_hexValueFrom (n : Nat) (s : List Char) : n ≤ hexValueFrom n s := by
  induction s generalizing n with
  | nil => simp
  | cons c s ih =>
    have := ih (n * 16 + (toDigit c).getD 0)
    simp only [hexValueFrom, List.foldl_cons] at this ⊢
    omega

private theorem toNat_le_of_le {a b : Char} (h : a ≤ b) : a.toNat ≤ b.toNat := UInt32.le_iff_toNat_le.mp h

private theorem toDigit_getD_lt (c : Char) : (toDigit c).getD 0 < 16 := by
  have h0 : '0'.toNat = 48 ∧ '9'.toNat = 57 := by decide
  have ha : 'a'.toNat = 97 ∧ 'f'.toNat = 102 := by decide
  have hA : 'A'.toNat = 65 ∧ 'F'.toNat = 70 := by decide
  unfold toDigit
  split_ifs with hdigit hlower hupper
  · have := toNat_le_of_le hdigit.2
    simp only [Option.getD_some]
    omega
  · have := toNat_le_of_le hlower.2
    simp only [Option.getD_some]
    omega
  · have := toNat_le_of_le hupper.2
    simp only [Option.getD_some]
    omega
  · decide

private theorem hexValueFrom_lt (n : Nat) (s : List Char) : hexValueFrom n s < (n + 1) * 16 ^ s.length := by
  induction s generalizing n with
  | nil => simp
  | cons c s ih =>
    have hdigit := toDigit_getD_lt c
    have hle : n * 16 + (toDigit c).getD 0 + 1 ≤ (n + 1) * 16 := by omega
    calc hexValueFrom n (c :: s) < (n * 16 + (toDigit c).getD 0 + 1) * 16 ^ s.length := ih _
      _ ≤ (n + 1) * 16 * 16 ^ s.length := Nat.mul_le_mul_right _ hle
      _ = (n + 1) * 16 ^ (c :: s).length := by rw [List.length_cons, Nat.pow_succ', Nat.mul_assoc]

/-- A number has fewer values than its digits can be chosen in ways. -/
theorem hexValue_lt (s : List Char) : hexValue s < 16 ^ s.length := by
  have h := hexValueFrom_lt 0 s
  rwa [Nat.zero_add, Nat.one_mul] at h

/-! ### Printing -/

/-- The number in lower-case digits, padded with zeros to the width. -/
def lowerHex (width n : Nat) : List Char := (Nat.toDigits 16 n).leftpad width '0'

theorem length_lowerHex (hwidth : 0 < width) (h : n < 16 ^ width) : (lowerHex width n).length = width := by
  have := (Nat.length_toDigits_le_iff (by decide) hwidth).mpr h
  simp only [lowerHex, List.leftpad, List.length_append, List.length_replicate]
  omega

private theorem lowerHex_ne_nil (width n : Nat) : lowerHex width n ≠ [] := by
  simp [lowerHex, List.leftpad]

/-- The digits of a number are those of its quotient by 16 and its last digit. -/
private theorem toDigits_induction {P : Nat → List Char → Prop} (single : ∀ d < 16, P d [d.digitChar])
    (digit : ∀ n d, d < 16 → P n (Nat.toDigits 16 n) → P (16 * n + d) (Nat.toDigits 16 n ++ [d.digitChar]))
    (n : Nat) : P n (Nat.toDigits 16 n) := by
  induction n using Nat.strongRecOn with
  | ind n ih =>
    by_cases hn : n < 16
    · rw [Nat.toDigits_of_lt_base hn]
      exact single n hn
    · rw [Nat.toDigits_of_base_le (by decide) (by omega)]
      have hdigit := digit (n / 16) (n % 16) (Nat.mod_lt n (by decide)) (ih (n / 16) (by omega))
      rwa [Nat.div_add_mod] at hdigit

private theorem hexValueFrom_zeros (k : Nat) : hexValueFrom 0 (List.replicate k '0') = 0 := by
  induction k with
  | zero => rfl
  | succ k ih =>
    rw [List.replicate_succ, hexValueFrom_cons (d := 0) (by decide)]
    exact ih

private theorem hexValue_lowerHex (width n : Nat) : hexValue (lowerHex width n) = n := by
  rw [hexValue, lowerHex, List.leftpad, hexValueFrom_append, hexValueFrom_zeros]
  apply toDigits_induction (P := fun n s => hexValueFrom 0 s = n)
  · intro d hd
    rw [hexValueFrom_cons (toDigit_digitChar hd)]
    simp
  · intro n d hd ih
    rw [hexValueFrom_append, ih, hexValueFrom_cons (toDigit_digitChar hd), hexValueFrom_nil]
    omega

theorem isLowerHexDigit_of_mem (h : c ∈ lowerHex width n) : isLowerHexDigit c = true := by
  have hdigits : ∀ c ∈ Nat.toDigits 16 n, isLowerHexDigit c = true := by
    apply toDigits_induction (P := fun _ s => ∀ c ∈ s, isLowerHexDigit c = true)
    · intro d hd c hc
      rw [List.mem_singleton.mp hc]
      exact isLowerHexDigit_digitChar hd
    · intro n d hd ih c hc
      rcases List.mem_append.mp hc with hc | hc
      · exact ih c hc
      · rw [List.mem_singleton.mp hc]
        exact isLowerHexDigit_digitChar hd
  rcases List.mem_append.mp h with hc | hc
  · rw [(List.mem_replicate.mp hc).2]
    decide
  · exact hdigits c hc

/-! ### Parsing -/

inductive IntErrorKind where
  | empty
  | invalidDigit
  | posOverflow
deriving DecidableEq, Repr

/-- The loop of `from_str_radix`, with the value of the digits so far.  The product is checked after the digit. -/
def parseDigits (w : Nat) : Nat → List Char → Except IntErrorKind Nat
  | n, [] => .ok n
  | n, c :: s =>
    match toDigit c with
    | none => .error .invalidDigit
    | some d =>
      if 2 ^ w ≤ n * 16 then .error .posOverflow
      else if 2 ^ w ≤ n * 16 + d then .error .posOverflow
      else parseDigits w (n * 16 + d) s

/-- `from_str_radix` for the radix 16 and an unsigned type of `w` bits. -/
def fromStrRadix (w : Nat) (s : List Char) : Except IntErrorKind (BitVec w) :=
  match s with
  | [] => .error .empty
  | ['+'] | ['-'] => .error .invalidDigit
  | '+' :: digits => (parseDigits w 0 digits).map (BitVec.ofNat w)
  | digits => (parseDigits w 0 digits).map (BitVec.ofNat w)

private theorem parseDigits_eq_ok_iff (hn : n < 2 ^ w) :
    parseDigits w n s = .ok m ↔ (∀ c ∈ s, isHexDigit c = true) ∧ hexValueFrom n s = m ∧ m < 2 ^ w := by
  induction s generalizing n with
  | nil =>
    simp only [parseDigits, Except.ok.injEq, hexValueFrom_nil]
    constructor
    · rintro rfl
      exact ⟨by simp, rfl, hn⟩
    · exact fun h => h.2.1
  | cons c s ih =>
    cases hc : toDigit c with
    | none => simp [parseDigits, isHexDigit, hc]
    | some d =>
      have hdigit : isHexDigit c = true := by simp [isHexDigit, hc]
      rw [hexValueFrom_cons hc]
      simp only [parseDigits, hc, List.forall_mem_cons, hdigit, true_and]
      have hle := le_hexValueFrom (n * 16 + d) s
      by_cases hbig : 2 ^ w ≤ n * 16 + d
      · have herror : (if 2 ^ w ≤ n * 16 then Except.error IntErrorKind.posOverflow
            else if 2 ^ w ≤ n * 16 + d then .error .posOverflow
            else parseDigits w (n * 16 + d) s) = .error .posOverflow := by
          rw [if_pos hbig, ite_self]
        rw [herror]
        simp only [reduceCtorEq, false_iff]
        rintro ⟨-, hvalue, hm⟩
        omega
      · rw [if_neg (by omega), if_neg hbig]
        exact ih (by omega)

private theorem parseDigits_map_eq_ok_iff {x : BitVec w} :
    (parseDigits w 0 s).map (BitVec.ofNat w) = .ok x ↔
      (∀ c ∈ s, isHexDigit c = true) ∧ hexValue s = x.toNat := by
  have hx := x.isLt
  constructor
  · intro h
    cases hparse : parseDigits w 0 s with
    | error e => simp [hparse, Except.map] at h
    | ok m =>
      obtain ⟨hdigits, hvalue, hm⟩ := (parseDigits_eq_ok_iff (Nat.two_pow_pos w)).mp hparse
      rw [hparse] at h
      have hofNat : BitVec.ofNat w m = x := Except.ok.inj h
      rw [← hofNat, BitVec.toNat_ofNat, Nat.mod_eq_of_lt hm]
      exact ⟨hdigits, hvalue⟩
  · rintro ⟨hdigits, hvalue⟩
    have hparse := (parseDigits_eq_ok_iff (Nat.two_pow_pos w)).mpr ⟨hdigits, hvalue, hx⟩
    rw [hparse]
    simp [Except.map]

/-- What `from_str_radix` accepts: one or more digits, with or without a plus sign before them. -/
def IsNumber (s : List Char) (n : Nat) : Prop :=
  ∃ digits, (s = digits ∨ s = '+' :: digits) ∧ digits ≠ [] ∧ (∀ c ∈ digits, isHexDigit c = true) ∧
    hexValue digits = n

theorem fromStrRadix_eq_ok_iff {x : BitVec w} : fromStrRadix w s = .ok x ↔ IsNumber s x.toNat := by
  have hplus : isHexDigit '+' = false := by decide
  have hminus : isHexDigit '-' = false := by decide
  unfold IsNumber
  constructor
  · intro h
    unfold fromStrRadix at h
    split at h
    · cases h
    · cases h
    · cases h
    · next digits hne =>
      obtain ⟨hdigits, hvalue⟩ := parseDigits_map_eq_ok_iff.mp h
      refine ⟨digits, .inr rfl, ?_, hdigits, hvalue⟩
      rintro rfl
      exact hne rfl
    · next hne _ _ _ =>
      obtain ⟨hdigits, hvalue⟩ := parseDigits_map_eq_ok_iff.mp h
      exact ⟨s, .inl rfl, hne, hdigits, hvalue⟩
  · rintro ⟨digits, hs, hne, hdigits, hvalue⟩
    have hparse := parseDigits_map_eq_ok_iff.mpr ⟨hdigits, hvalue⟩
    obtain ⟨c, rest, rfl⟩ := List.exists_cons_of_ne_nil hne
    have hc := hdigits c (by simp)
    rcases hs with rfl | rfl
    · have hcplus : c ≠ '+' := by
        rintro rfl
        simp [hplus] at hc
      have hcminus : c ≠ '-' := by
        rintro rfl
        simp [hminus] at hc
      unfold fromStrRadix
      split
      · next heq => cases heq
      · next heq => exact absurd (List.cons.inj heq).1 hcplus
      · next heq => exact absurd (List.cons.inj heq).1 hcminus
      · next heq => exact absurd (List.cons.inj heq).1 hcplus
      · exact hparse
    · exact hparse

theorem isNumber_lowerHex (width n : Nat) : IsNumber (lowerHex width n) n := by
  refine ⟨_, .inl rfl, lowerHex_ne_nil _ _, ?_, hexValue_lowerHex _ _⟩
  intro c hc
  exact isHexDigit_of_lower (isLowerHexDigit_of_mem hc)

/-- What is printed is parsed back. -/
theorem fromStrRadix_lowerHex (width : Nat) (x : BitVec w) : fromStrRadix w (lowerHex width x.toNat) = .ok x :=
  fromStrRadix_eq_ok_iff.mpr (isNumber_lowerHex width x.toNat)

end Fastrace
