import Mathlib.Data.Nat.Notation
import Mathlib.Tactic.NormNum

/-! # Numbers in strings, as the standard library of the source reads them -/

namespace Rust

/-- `char::to_digit`. -/
def toDigit (radix : ℕ) (c : Char) : Option ℕ :=
  let value :=
    if '0' ≤ c ∧ c ≤ '9' then some (c.toNat - '0'.toNat)
    else if 'a' ≤ c ∧ c ≤ 'z' then some (c.toNat - 'a'.toNat + 10)
    else if 'A' ≤ c ∧ c ≤ 'Z' then some (c.toNat - 'A'.toNat + 10)
    else none
  value.filter fun d => d < radix

def accumulateDigit (radix bound acc : ℕ) (c : Char) : Option ℕ :=
  (toDigit radix c).bind fun d =>
    if acc * radix + d < bound then some (acc * radix + d) else none

def stripPlus : List Char → List Char
  | '+' :: rest => rest
  | cs => cs

/-- `from_str_radix` of an unsigned type with `bound` values: one leading plus sign is allowed, an
empty digit string is not. -/
def fromStrRadix (radix bound : ℕ) (cs : List Char) : Option ℕ :=
  if stripPlus cs = [] then none else (stripPlus cs).foldlM (accumulateDigit radix bound) 0

/-- Which digit ends the parse, and how. -/
def digitError (radix bound : ℕ) : ℕ → List Char → String
  | _, [] => "invalid digit found in string"
  | acc, c :: cs =>
    match toDigit radix c with
    | none => "invalid digit found in string"
    | some d =>
      if acc * radix + d < bound then digitError radix bound (acc * radix + d) cs
      else "number too large to fit in target type"

/-- The text of a `ParseIntError`. -/
def parseIntError (radix bound : ℕ) (cs : List Char) : String :=
  if cs = [] then "cannot parse integer from empty string"
  else digitError radix bound 0 (stripPlus cs)

def parseU64 (s : String) : Option ℕ := fromStrRadix 10 (2 ^ 64) s.toList

def parseU128 (s : String) : Option ℕ := fromStrRadix 10 (2 ^ 128) s.toList

theorem toDigit_digitChar {radix d : ℕ} (hr : radix ≤ 16) (hd : d < radix) :
    toDigit radix d.digitChar = some d := by
  have hall : ∀ r ≤ 16, ∀ d < r, toDigit r (Nat.digitChar d) = some d := by
    decide
  exact hall radix hr d hd

theorem foldlM_toDigits {radix bound : ℕ} (hr : 1 < radix) (hr' : radix ≤ 16) (n : ℕ)
    (hn : n < bound) : (Nat.toDigits radix n).foldlM (accumulateDigit radix bound) 0 = some n := by
  induction n using Nat.strongRecOn with
  | ind n ih =>
    by_cases hlt : n < radix
    · rw [Nat.toDigits_of_lt_base hlt]
      simp only [List.foldlM_cons,List.foldlM_nil,accumulateDigit,toDigit_digitChar hr' hlt,
        Option.bind_some,Nat.zero_mul,Nat.zero_add,if_pos hn]
      rfl
    · have hdiv : n / radix * radix + n % radix = n := Nat.div_add_mod' n radix
      have hsmall : n / radix < n := Nat.div_lt_self (by omega) hr
      rw [Nat.toDigits_of_base_le hr (by omega),List.foldlM_append,
        ih (n / radix) hsmall (by omega)]
      simp only [bind,Option.bind_some,List.foldlM_cons,List.foldlM_nil,accumulateDigit,
        toDigit_digitChar hr' (Nat.mod_lt n (by omega)),hdiv,if_pos hn]
      rfl

theorem head_toDigits_ne_plus {radix : ℕ} (hr : 1 < radix) (hr' : radix ≤ 16) (n : ℕ)
    (rest : List Char) : Nat.toDigits radix n ≠ '+' :: rest := by
  have hdigit : ∀ d < 16, Nat.digitChar d ≠ '+' := by
    decide
  induction n using Nat.strongRecOn generalizing rest with
  | ind n ih =>
    by_cases hlt : n < radix
    · rw [Nat.toDigits_of_lt_base hlt]
      intro he
      exact hdigit n (by omega) (List.cons.inj he).1
    · rw [Nat.toDigits_of_base_le hr (by omega)]
      intro he
      obtain ⟨c,cs,hc⟩ :=
        List.exists_cons_of_ne_nil (Nat.toDigits_ne_nil (n := n / radix) (b := radix))
      rw [hc,List.cons_append] at he
      apply ih (n / radix) (Nat.div_lt_self (by omega) hr) cs
      rw [hc,(List.cons.inj he).1]

/-- Reading back what was printed. -/
theorem fromStrRadix_toDigits {radix bound : ℕ} (hr : 1 < radix) (hr' : radix ≤ 16) (n : ℕ)
    (hn : n < bound) : fromStrRadix radix bound (Nat.toDigits radix n) = some n := by
  have hplus : stripPlus (Nat.toDigits radix n) = Nat.toDigits radix n := by
    rw [stripPlus]
    exact head_toDigits_ne_plus hr hr' n
  rw [fromStrRadix,hplus,if_neg Nat.toDigits_ne_nil,foldlM_toDigits hr hr' n hn]

theorem foldlM_zeros {radix bound : ℕ} (hr : 0 < radix) (hb : 0 < bound) (k : ℕ) (cs : List Char) :
    (List.replicate k '0' ++ cs).foldlM (accumulateDigit radix bound) 0 =
      cs.foldlM (accumulateDigit radix bound) 0 := by
  have hzero : accumulateDigit radix bound 0 '0' = some 0 := by
    have hdigit : toDigit radix '0' = some 0 := by simp [toDigit,Option.filter,hr]
    simp [accumulateDigit,hdigit,hb]
  induction k with
  | zero => rfl
  | succ k ih =>
    rw [List.replicate_succ,List.cons_append,List.foldlM_cons,hzero]
    exact ih

/-- Reading back what was printed with zeros in front. -/
theorem fromStrRadix_padded {radix bound : ℕ} (hr : 1 < radix) (hr' : radix ≤ 16) (n : ℕ)
    (hn : n < bound) (k : ℕ) :
    fromStrRadix radix bound (List.replicate k '0' ++ Nat.toDigits radix n) = some n := by
  cases k with
  | zero => exact fromStrRadix_toDigits hr hr' n hn
  | succ k =>
    have hplus : stripPlus (List.replicate (k + 1) '0' ++ Nat.toDigits radix n) =
        List.replicate (k + 1) '0' ++ Nat.toDigits radix n := rfl
    rw [fromStrRadix,hplus,if_neg (by simp),foldlM_zeros (by omega) (by omega),
      foldlM_toDigits hr hr' n hn]

theorem accumulateDigit_mono {radix bound bound' acc n : ℕ} {c : Char} (hb : bound ≤ bound')
    (h : accumulateDigit radix bound acc c = some n) : accumulateDigit radix bound' acc c = some n := by
  obtain ⟨d,hd,h⟩ := Option.bind_eq_some_iff.mp h
  rw [accumulateDigit,hd,Option.bind_some]
  split at h
  · rw [if_pos (by omega),h]
  · cases h

/-- A number that fits a type is read alike by every wider one. -/
theorem fromStrRadix_mono {radix bound bound' n : ℕ} {cs : List Char} (hb : bound ≤ bound')
    (h : fromStrRadix radix bound cs = some n) : fromStrRadix radix bound' cs = some n := by
  have hfold : ∀ (cs : List Char) (acc : ℕ), cs.foldlM (accumulateDigit radix bound) acc = some n →
      cs.foldlM (accumulateDigit radix bound') acc = some n := by
    intro cs
    induction cs with
    | nil =>
      intro acc h
      exact h
    | cons c cs ih =>
      intro acc h
      rw [List.foldlM_cons] at h ⊢
      obtain ⟨acc',hc,hcs⟩ := Option.bind_eq_some_iff.mp h
      rw [accumulateDigit_mono hb hc]
      exact ih acc' hcs
  rw [fromStrRadix] at h ⊢
  split at h
  · cases h
  · rename_i hne
    rw [if_neg hne]
    exact hfold _ _ h

/-- `char::is_whitespace`. -/
def isWhitespace (c : Char) : Bool :=
  let n := c.toNat
  (9 ≤ n && n ≤ 13) || n = 0x20 || n = 0x85 || n = 0xa0 || n = 0x1680 ||
    (0x2000 ≤ n && n ≤ 0x200a) || n = 0x2028 || n = 0x2029 || n = 0x202f || n = 0x205f || n = 0x3000

/-- `s.trim().is_empty()`. -/
def isBlank (s : String) : Bool := s.toList.all isWhitespace

end Rust
