import MidenX402.Facilitator.AdnPay

/-!
# Serial numbers as text

Serial numbers are written in two ways and read in three.  The agent and the facilitator take off one
mark, `0x` or `0X`; the facilitator's `/adn/pay` takes off every leading `0x`.
-/

namespace MidenX402.Facilitator
open Masm AgentDebitNote Adn

section Readers

/-- The agent's `parse_hex`. -/
def parseHex (s : String) : Option UInt64 := parseHexFelt s.toList

/-- The number that `parse_serial_hex` makes an element of. -/
def parseSerialDigits (h : String) : Option UInt64 :=
  (Rust.fromStrRadix 16 (2 ^ 64) (decodeHex.trimHexMark h).toList).map UInt64.ofNat

inductive SerialEncoder where
  | plain
  | padded

inductive SerialDecoder where
  | agent
  | facilitator
  | adnPay

/-- `format!("0x{:x}", …)` in `run_setup` and `process_settle`, `format!("0x{:016x}", …)` in
`word_to_hex_array`. -/
def SerialEncoder.felt : SerialEncoder → Felt → String
  | .plain, a => String.ofList (formatHexFelt a)
  | .padded, a => hexFelt a

def SerialEncoder.word (enc : SerialEncoder) (w : Word) : HexWord :=
  ⟨enc.felt w.e0,enc.felt w.e1,enc.felt w.e2,enc.felt w.e3⟩

def SerialDecoder.digits : SerialDecoder → String → Option UInt64
  | .agent => parseHex
  | .facilitator => fun s => parseHexFelt s.toList
  | .adnPay => parseSerialDigits

/-- A serial number read element by element; `none` is a panic, or an error answer of `/adn/pay`. -/
def SerialDecoder.word (dec : SerialDecoder) (h : HexWord) : Option Word := do
  let s0 ← dec.digits h.e0
  let s1 ← dec.digits h.e1
  let s2 ← dec.digits h.e2
  let s3 ← dec.digits h.e3
  return ⟨Felt.new s0,Felt.new s1,Felt.new s2,Felt.new s3⟩

theorem parseSerialFelt_toOption (i : ℕ) (h : String) :
    (parseSerialFelt i h).toOption = (parseSerialDigits h).map Felt.new := by
  rw [parseSerialFelt,parseSerialDigits]
  cases Rust.fromStrRadix 16 (2 ^ 64) (decodeHex.trimHexMark h).toList <;> rfl

theorem toOption_bind {ε β γ : Type} (x : Except ε β) (f : β → Except ε γ) :
    (x >>= f).toOption = x.toOption.bind fun b => (f b).toOption := by
  cases x <;> rfl

/-- The reader of `/adn/pay` is the handler's. -/
theorem word_adnPay (h : HexWord) : SerialDecoder.adnPay.word h = (parseSerialHex h).toOption := by
  simp only [parseSerialHex,toOption_bind,parseSerialFelt_toOption,Option.bind_map]
  rfl

theorem word_facilitator (h : HexWord) : SerialDecoder.facilitator.word h = parseSerialNum h.strings :=
  rfl

end Readers

section Marks
variable {bound n m : ℕ} {cs rest : List Char} {c : Char}

/-- No number starts with a zero and a letter that is no digit. -/
theorem fromStrRadix_marked (hc : Rust.toDigit 16 c = none) :
    Rust.fromStrRadix 16 bound ('0' :: c :: rest) = none := by
  have hplus : Rust.stripPlus ('0' :: c :: rest) = '0' :: c :: rest := rfl
  rw [Rust.fromStrRadix,hplus,if_neg (List.cons_ne_nil _ _),List.foldlM_cons]
  cases Rust.accumulateDigit 16 bound 0 '0' with
  | none => rfl
  | some acc =>
    have hbad : Rust.accumulateDigit 16 bound acc c = none := by
      rw [Rust.accumulateDigit,hc]
      rfl
    change (c :: rest).foldlM _ acc = none
    rw [List.foldlM_cons,hbad]
    rfl

/-- What reads as a number has no mark left to take off. -/
theorem strip_of_read (h : Rust.fromStrRadix 16 bound cs = some n) : decodeHex.strip cs = cs := by
  unfold decodeHex.strip
  split
  · rw [fromStrRadix_marked (by decide)] at h
    cases h
  · rfl

theorem stripHexMark_cases (cs : List Char) :
    (∃ rest, cs = '0' :: 'x' :: rest ∧ stripHexMark cs = rest) ∨
      (∃ rest, cs = '0' :: 'X' :: rest ∧ stripHexMark cs = rest) ∨ stripHexMark cs = cs := by
  unfold stripHexMark
  split
  · exact Or.inl ⟨_,rfl,rfl⟩
  · exact Or.inr (Or.inl ⟨_,rfl,rfl⟩)
  · exact Or.inr (Or.inr rfl)

/-- Where one mark and every mark can be taken off, the same digits are left. -/
theorem strip_eq_stripHexMark (h : Rust.fromStrRadix 16 bound (stripHexMark cs) = some n)
    (h' : Rust.fromStrRadix 16 bound (decodeHex.strip cs) = some m) :
    decodeHex.strip cs = stripHexMark cs := by
  rcases stripHexMark_cases cs with ⟨rest,rfl,hrest⟩ | ⟨rest,rfl,-⟩ | hsame
  · rw [hrest] at h ⊢
    exact strip_of_read h
  · -- `/adn/pay` leaves this mark on, and then reads no number
    have hstrip : decodeHex.strip ('0' :: 'X' :: rest) = '0' :: 'X' :: rest := rfl
    rw [hstrip,fromStrRadix_marked (by decide)] at h'
    cases h'
  · rw [hsame] at h ⊢
    exact strip_of_read h

end Marks

section Agreement
variable {x y : UInt64} {s : String}

theorem digits_marked (h : parseHexFelt s.toList = some x) (h' : parseSerialDigits s = some y) :
    x = y := by
  obtain ⟨n,hn,hx⟩ := Option.map_eq_some_iff.mp h
  obtain ⟨m,hm,hy⟩ := Option.map_eq_some_iff.mp h'
  rw [decodeHex.trimHexMark,String.toList_ofList] at hm
  rw [strip_eq_stripHexMark hn hm,hn] at hm
  rw [← hx,← hy,Option.some.inj hm]

/-- Both ways of writing put one mark before digits that read as the number. -/
theorem felt_eq (enc : SerialEncoder) (a : Felt) : ∃ cs, enc.felt a = String.ofList ('0' :: 'x' :: cs) ∧
    Rust.fromStrRadix 16 (2 ^ 64) cs = some a.asCanonicalU64.toNat := by
  cases enc with
  | plain => exact ⟨_,rfl,Rust.fromStrRadix_toDigits (by decide) le_rfl _ a.asCanonicalU64.toNat_lt⟩
  | padded => exact ⟨_,rfl,fromStrRadix_paddedHex a.asCanonicalU64⟩

theorem digits_felt (enc : SerialEncoder) (dec : SerialDecoder) (a : Felt) :
    dec.digits (enc.felt a) = some a.asCanonicalU64 := by
  obtain ⟨cs,hcs,hread⟩ := felt_eq enc a
  have hmarked : parseHexFelt (enc.felt a).toList = some a.asCanonicalU64 := by
    rw [hcs,String.toList_ofList]
    change (Rust.fromStrRadix 16 (2 ^ 64) cs).map UInt64.ofNat = _
    rw [hread,Option.map_some,UInt64.ofNat_toNat]
  cases dec with
  | agent => exact hmarked
  | facilitator => exact hmarked
  | adnPay =>
    change parseSerialDigits (enc.felt a) = _
    rw [parseSerialDigits,hcs,decodeHex.trimHexMark,String.toList_ofList,String.toList_ofList,
      decodeHex.strip,strip_of_read hread,hread,Option.map_some,UInt64.ofNat_toNat]

/-- Each way of reading gives back each way of writing, and two ways that both read a text read the
same number in it. -/
theorem serial_codecs_agree :
    (∀ (enc : SerialEncoder) (dec : SerialDecoder) (w : Word), dec.word (enc.word w) = some w) ∧
    ∀ (dec dec' : SerialDecoder) (s : String) (x y : UInt64), dec.digits s = some x →
      dec'.digits s = some y → x = y := by
  constructor
  · intro enc dec w
    simp only [SerialDecoder.word,SerialEncoder.word,digits_felt,bind,Option.bind_some,
      Felt.new_asCanonicalU64]
    rfl
  · intro dec dec' s x y h h'
    have hsame : ∀ {x y}, parseHexFelt s.toList = some x → parseHexFelt s.toList = some y → x = y :=
      fun h h' => Option.some.inj (h.symm.trans h')
    cases dec with
    | adnPay =>
      cases dec' with
      | adnPay => exact Option.some.inj (h.symm.trans h')
      | agent => exact (digits_marked h' h).symm
      | facilitator => exact (digits_marked h' h).symm
    | agent =>
      cases dec' with
      | adnPay => exact digits_marked h h'
      | agent => exact hsame h h'
      | facilitator => exact hsame h h'
    | facilitator =>
      cases dec' with
      | adnPay => exact digits_marked h h'
      | agent => exact hsame h h'
      | facilitator => exact hsame h h'

/-- Padding and a plus sign are read alike. -/
theorem serial_codecs_agree_sample :
    SerialDecoder.agent.digits "0x+002a" = some 42 ∧ SerialDecoder.adnPay.digits "0x+002a" = some 42 ∧
    (42 : UInt64) = 42 :=
  ⟨by decide +kernel,by decide +kernel,serial_codecs_agree.2 .agent .adnPay "0x+002a" 42 42
    (by decide +kernel) (by decide +kernel)⟩

end Agreement

end MidenX402.Facilitator
