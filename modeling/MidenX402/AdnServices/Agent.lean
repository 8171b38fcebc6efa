import MidenX402.AdnServices.Types

/-!
# The agent's benchmark loop

The agent signs one voucher after the other over a growing amount and starts again from zero, under
the serial number it is told, whenever the merchant reports a settlement.
-/

namespace MidenX402.AdnServices
open Masm AgentDebitNote Rust

/-- The part of the configuration file that the benchmark reads. -/
structure BenchConfig where
  merchantIdHex : String
  agentSkHex : String
  noteFileHex : String
  serialNum : SerialStrings

/-- The variables of the loop. -/
structure AgentState where
  currentSerial : SerialStrings
  currentSerialWord : Word
  cumulative : UInt64
  sendNoteFile : Bool
  settlements : ℕ

section Agent
variable (P : Protocol) {F E : Falcon} (C : Codec F E)

/-- A benchmark with its configuration read. -/
structure Benchmark (F : Falcon) where
  config : BenchConfig
  merchantId : AccountId
  agentSk : F.SecretKey
  amountPer : UInt64

/-- The configuration is read; `none` is an error exit. -/
def Benchmark.load (config : BenchConfig) (amountPer : UInt64) : Option (Benchmark F) :=
  match C.accountIdFromHex config.merchantIdHex,decodeSecretKey C config.agentSkHex with
  | .ok merchantId,.ok (.falcon512Poseidon2 agentSk) => some ⟨config,merchantId,agentSk,amountPer⟩
  | _,_ => none

/-- The variables before the first payment; a malformed serial number panics. -/
def AgentState.start (config : BenchConfig) : Option AgentState :=
  (parseSerialNum config.serialNum).map fun serial => ⟨config.serialNum,serial,0,true,0⟩

/-- The next payment. -/
def AgentState.pay (b : Benchmark F) (a : AgentState) : PaymentRequest × AgentState :=
  let cumulative := a.cumulative + b.amountPer
  let sig := signVoucher P F b.agentSk a.currentSerialWord b.merchantId cumulative
  (⟨if a.sendNoteFile then some b.config.noteFileHex else none,b.config.agentSkHex,a.currentSerial,
      cumulative,signatureHex C sig⟩,
    { a with cumulative := cumulative, sendNoteFile := false })

/-- The response to payment number `i` is taken in; `none` ends the benchmark. -/
def AgentState.take (i : ℕ) (a : AgentState) (resp : PaymentResponse) : Option AgentState :=
  if resp.success then
    if resp.settlementOccurred.getD false then
      match resp.newSerialNum with
      | some serial => (parseSerialNum serial).map fun word =>
        { a with
          currentSerial := serial
          currentSerialWord := word
          cumulative := 0
          sendNoteFile := false
          settlements := a.settlements + 1 }
      | none => some { a with
          cumulative := 0
          sendNoteFile := false
          settlements := a.settlements + 1 }
    else some a
  else if 1 < i then some a
  else none

end Agent

end MidenX402.AdnServices
