import MidenX402.Rust.Parse

/-!
# Hexadecimal

Two lower-case digits for each byte.  A reader takes digits of either case and wants an even number of
them.
-/

namespace Hex

def encode (bytes : List UInt8) : List Char :=
  bytes.flatMap fun b => [Nat.digitChar (b.toNat / 16),Nat.digitChar (b.toNat % 16)]

def decode : List Char → Except String (List UInt8)
  | [] => .ok []
  | [_] => .error "Odd number of digits"
  | c :: d :: rest =>
    match Rust.toDigit 16 c,Rust.toDigit 16 d with
    | some x,some y => (decode rest).map fun bytes => UInt8.ofNat (16 * x + y) :: bytes
    | _,_ => .error "Invalid character"

def digits : List Char := "0123456789abcdef".toList

theorem mem_digits_of_mem_encode {bytes : List UInt8} {c : Char} (h : c ∈ encode bytes) :
    c ∈ digits := by
  have hdigit : ∀ d < 16, Nat.digitChar d ∈ digits := by
    decide
  obtain ⟨b,-,hb⟩ := List.mem_flatMap.mp h
  have hlt := b.toNat_lt
  simp only [List.mem_cons,List.not_mem_nil,or_false] at hb
  rcases hb with rfl | rfl
  · exact hdigit (b.toNat / 16) (by omega)
  · exact hdigit (b.toNat % 16) (by omega)

theorem decode_encode (bytes : List UInt8) : decode (encode bytes) = .ok bytes := by
  induction bytes with
  | nil => rfl
  | cons b bytes ih =>
    have hb : b.toNat < 256 := b.toNat_lt
    have hback : UInt8.ofNat (16 * (b.toNat / 16) + b.toNat % 16) = b := by
      rw [Nat.div_add_mod,UInt8.ofNat_toNat]
    have hcons : encode (b :: bytes) =
        Nat.digitChar (b.toNat / 16) :: Nat.digitChar (b.toNat % 16) :: encode bytes := rfl
    rw [hcons,decode,Rust.toDigit_digitChar le_rfl (by omega),
      Rust.toDigit_digitChar le_rfl (by omega),ih]
    simp [Except.map,hback]

end Hex
