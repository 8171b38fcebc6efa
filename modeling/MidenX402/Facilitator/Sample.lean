import MidenX402.Facilitator.Api

/-! # A small installation for concrete runs -/

namespace MidenX402.Facilitator
open Masm AgentDebitNote Disk

def hotKey : Word := .ofNats 1 1 1 1

def samplePayee : AccountId := ⟨Felt.new 10,Felt.new 11⟩

def sampleFaucet : AccountId := ⟨Felt.new 20,Felt.new 21⟩

/-- A summary with one P2ID note of 5 units to the payee. -/
def sampleSummary : TransactionSummary :=
  ⟨.ofNats 2 2 2 2,[],[.full ⟨.ofNats 3 3 3 3,[samplePayee.suffixFelt,samplePayee.prefixFelt],
    [⟨sampleFaucet,5⟩],[0xaa]⟩]⟩

/-- Every signature decodes to one made with the hot key for the message at hand: `0x00` for the hash
of a placeholder envelope, anything else for the commitment of the summary.  Words are written as
their first byte. -/
def sampleMiden : Miden where
  Signature := Word × Word
  PublicKey := Word
  hexEncode bytes := String.ofList (Hex.encode bytes)
  decodeHex s := Hex.decode s.toList
  decodeBase64 _ := .ok [1]
  readSignature bytes := .ok (hotKey,if bytes = [0] then .ofNats 4 4 4 4 else .ofNats 2 2 2 2)
  readPublicKey _ := .ok hotKey
  readSummary _ := .ok sampleSummary
  wordBytes w := [UInt8.ofNat w.e0.val]
  readWord _ := .ok hotKey
  publicKey sig := sig.1
  toCommitment pk := pk
  verify sig msg pk := sig.1 = pk ∧ sig.2 = msg
  hash _ := .ofNats 4 4 4 4
  debugWord _ := "Word"
  accountIdFromHex s := .ok (if s = "0xpayee" then samplePayee else sampleFaucet)
  showAccountId _ := "0x00"
  p2idScriptRoot := .ofNats 3 3 3 3
  p2idTarget _ := .ok samplePayee
  signWordHex _ := .ok "0xack"

theorem sampleMiden_hexDigits : sampleMiden.HexDigits := by
  intro bytes c hc
  change c ∈ (String.ofList (Hex.encode bytes)).toList at hc
  rw [String.toList_ofList] at hc
  exact Hex.mem_digits_of_mem_encode hc

def sampleStore : FilesystemX402Store := ⟨["data"],by decide⟩

/-- The store as `FilesystemX402Store::new` leaves it. -/
def emptyFiles : Files where
  node p := if p = ["data"] ∨ p = ["data","agents"] then some .dir else none
  paths := [["data"],["data","agents"]]
  nodup := by decide
  mem_paths p n h := by
    by_cases hp : p = ["data"] ∨ p = ["data","agents"]
    · simpa using hp
    · rw [if_neg hp] at h
      cases h

def sampleRegistration (agentId : String) : RegisterAgentRequest :=
  ⟨agentId,"0xaccount","0x01",.falcon,none,"0xs0",⟨"100",[],0⟩⟩

/-- A payment in placeholder mode with the nullifiers the client claims. -/
def samplePayload (builtOn newState : String) (nullifiers : List String) : AgenticPayload :=
  ⟨⟨none,none,none,[],1⟩,⟨"0x01",.falcon "0x00"⟩,⟨"0xpayee","0xfaucet","5",0,"0xdigest"⟩,
    builtOn,newState,nullifiers⟩

/-- A payment in real mode: its nullifier comes from the summary. -/
def sampleRealPayload (builtOn newState : String) : AgenticPayload :=
  ⟨⟨some "miden-real-v1",some "c3VtbWFyeQ==",some "cmVxdWVzdA==",[],1⟩,
    ⟨"0x01",.falcon "0x01"⟩,⟨"0xpayee","0xfaucet","5",0,"0xdigest"⟩,builtOn,newState,[]⟩

/-- The state after an operation, when it succeeds. -/
def after {β : Type} (op : StoreOp β) (fs : Files) : Option Files :=
  match op.exec fs with
  | .ok (_,fs') => some fs'
  | .error _ => none

end MidenX402.Facilitator
