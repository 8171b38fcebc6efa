import Mathlib.Data.List.GetD

/-!
# Base64

The standard alphabet with padding.  Three bytes make a group of four symbols; a last group of one or
two bytes is padded, and the bits it leaves over are zero.  A reader accepts nothing else.
-/

namespace Base64

def alphabet : List Char :=
  "ABCDEFGHIJKLMNOPQRSTUVWXYZabcdefghijklmnopqrstuvwxyz0123456789+/".toList

def padding : Char := '='

/-- The symbol of six bits. -/
def symbol (n : ℕ) : Char := alphabet.getD n padding

/-- The six bits of a symbol. -/
def value (c : Char) : Option ℕ :=
  if c ∈ alphabet then some (alphabet.idxOf c) else none

def encode : List UInt8 → List Char
  | [] => []
  | [a] => [symbol (a.toNat / 4),symbol (a.toNat % 4 * 16),padding,padding]
  | [a,b] =>
    [symbol (a.toNat / 4),symbol (a.toNat % 4 * 16 + b.toNat / 16),symbol (b.toNat % 16 * 4),padding]
  | a :: b :: c :: rest =>
    symbol (a.toNat / 4) :: symbol (a.toNat % 4 * 16 + b.toNat / 16) ::
      symbol (b.toNat % 16 * 4 + c.toNat / 64) :: symbol (c.toNat % 64) :: encode rest

/-- A group that ends with padding: the bits that are left over must be zero. -/
def decodePadded (w x y : Char) : Option (List UInt8) := do
  let p ← value w
  let q ← value x
  if y = padding then
    if q % 16 = 0 then some [UInt8.ofNat (p * 4 + q / 16)] else none
  else
    let r ← value y
    if r % 4 = 0 then some [UInt8.ofNat (p * 4 + q / 16),UInt8.ofNat (q % 16 * 16 + r / 4)] else none

def decode : List Char → Option (List UInt8)
  | [] => some []
  | w :: x :: y :: z :: rest =>
    if rest = [] ∧ z = padding then decodePadded w x y
    else do
      let p ← value w
      let q ← value x
      let r ← value y
      let s ← value z
      let bytes ← decode rest
      some (UInt8.ofNat (p * 4 + q / 16) :: UInt8.ofNat (q % 16 * 16 + r / 4) ::
        UInt8.ofNat (r % 4 * 64 + s) :: bytes)
  | _ => none

section Symbols

theorem value_symbol {n : ℕ} (h : n < 64) : value (symbol n) = some n := by
  have hall : ∀ n < 64, value (symbol n) = some n := by
    decide +kernel
  exact hall n h

theorem value_padding : value padding = none := by
  decide

theorem symbol_ne_padding {n : ℕ} (h : n < 64) : symbol n ≠ padding := by
  intro heq
  have hread := value_symbol h
  rw [heq,value_padding] at hread
  cases hread

theorem symbol_mem_alphabet {n : ℕ} (h : n < 64) : symbol n ∈ alphabet := by
  have hlen : n < alphabet.length := h
  rw [symbol,List.getD_eq_getElem _ _ hlen]
  exact List.getElem_mem hlen

end Symbols

section RoundTrip
variable (a b c : UInt8)

/-- The first byte out of the first two symbols, whatever the second byte is. -/
theorem byte_one : UInt8.ofNat (a.toNat / 4 * 4 + (a.toNat % 4 * 16 + b.toNat / 16) / 16) = a := by
  have hb := b.toNat_lt
  rw [show a.toNat / 4 * 4 + (a.toNat % 4 * 16 + b.toNat / 16) / 16 = a.toNat by omega,
    UInt8.ofNat_toNat]

theorem byte_two : UInt8.ofNat ((a.toNat % 4 * 16 + b.toNat / 16) % 16 * 16 +
    (b.toNat % 16 * 4 + c.toNat / 64) / 4) = b := by
  have hb := b.toNat_lt
  have hc := c.toNat_lt
  rw [show (a.toNat % 4 * 16 + b.toNat / 16) % 16 * 16 + (b.toNat % 16 * 4 + c.toNat / 64) / 4 =
    b.toNat by omega,UInt8.ofNat_toNat]

theorem byte_three : UInt8.ofNat ((b.toNat % 16 * 4 + c.toNat / 64) % 4 * 64 + c.toNat % 64) = c := by
  have hc := c.toNat_lt
  rw [show (b.toNat % 16 * 4 + c.toNat / 64) % 4 * 64 + c.toNat % 64 = c.toNat by omega,
    UInt8.ofNat_toNat]

/-- What was encoded is read back. -/
theorem decode_encode (bytes : List UInt8) : decode (encode bytes) = some bytes := by
  fun_induction encode bytes with
  | case1 => rfl
  | case2 a =>
    have ha := a.toNat_lt
    have hlast := byte_one a 0
    simp only [UInt8.toNat_zero,Nat.zero_div,Nat.add_zero] at hlast
    simp only [decode,decodePadded,if_true,and_self,value_symbol (show a.toNat / 4 < 64 by omega),
      value_symbol (show a.toNat % 4 * 16 < 64 by omega),Option.bind_eq_bind,Option.bind_some,hlast,
      Nat.mul_mod_left]
  | case3 a b =>
    have ha := a.toNat_lt
    have hb := b.toNat_lt
    have hlast := byte_two a b 0
    simp only [UInt8.toNat_zero,Nat.zero_div,Nat.add_zero] at hlast
    simp only [decode,decodePadded,if_true,and_self,value_symbol (show a.toNat / 4 < 64 by omega),
      value_symbol (show a.toNat % 4 * 16 + b.toNat / 16 < 64 by omega),
      value_symbol (show b.toNat % 16 * 4 < 64 by omega),
      if_neg (symbol_ne_padding (show b.toNat % 16 * 4 < 64 by omega)),Option.bind_eq_bind,
      Option.bind_some,byte_one,hlast,Nat.mul_mod_left]
  | case4 a b c rest ih =>
    have ha := a.toNat_lt
    have hb := b.toNat_lt
    have hc := c.toNat_lt
    have hz := symbol_ne_padding (show c.toNat % 64 < 64 by omega)
    simp only [decode,hz,and_false,if_false,value_symbol (show a.toNat / 4 < 64 by omega),
      value_symbol (show a.toNat % 4 * 16 + b.toNat / 16 < 64 by omega),
      value_symbol (show b.toNat % 16 * 4 + c.toNat / 64 < 64 by omega),
      value_symbol (show c.toNat % 64 < 64 by omega),ih,Option.bind_eq_bind,Option.bind_some,
      byte_one,byte_two,byte_three]

theorem mem_encode (bytes : List UInt8) : ∀ c ∈ encode bytes, c ∈ alphabet ∨ c = padding := by
  have hsymbol : ∀ {n : ℕ}, n < 64 → symbol n ∈ alphabet ∨ symbol n = padding := by
    intro n hn
    exact Or.inl (symbol_mem_alphabet hn)
  fun_induction encode bytes with
  | case1 => simp
  | case2 a =>
    have ha := a.toNat_lt
    simp only [List.forall_mem_cons,hsymbol (show a.toNat / 4 < 64 by omega),
      hsymbol (show a.toNat % 4 * 16 < 64 by omega)]
    simp
  | case3 a b =>
    have ha := a.toNat_lt
    have hb := b.toNat_lt
    simp only [List.forall_mem_cons,hsymbol (show a.toNat / 4 < 64 by omega),
      hsymbol (show a.toNat % 4 * 16 + b.toNat / 16 < 64 by omega),
      hsymbol (show b.toNat % 16 * 4 < 64 by omega)]
    simp
  | case4 a b c rest ih =>
    have ha := a.toNat_lt
    have hb := b.toNat_lt
    have hc := c.toNat_lt
    simp only [List.forall_mem_cons,hsymbol (show a.toNat / 4 < 64 by omega),
      hsymbol (show a.toNat % 4 * 16 + b.toNat / 16 < 64 by omega),
      hsymbol (show b.toNat % 16 * 4 + c.toNat / 64 < 64 by omega),
      hsymbol (show c.toNat % 64 < 64 by omega),true_and]
    exact ih

end RoundTrip

/-- The four letters `foob`. -/
example : String.ofList (encode [102,111,111,98]) = "Zm9vYg==" := by decide +kernel

end Base64
