import MidenX402.AgentDebitNote.Authorisation
import MidenX402.Rust.Parse
import MidenX402.Rust.Result

/-!
# Settlement requests

The facilitator rebuilds the message a voucher was signed for, signs it with the agent's key and puts
the prepared signature into the advice map under a key of its own computation.  The script computes
the message and the key again from its storage; the two sides agree word for word.
-/

namespace MidenX402.AgentDebitNote
open Masm

section Hex

def stripHexMark : List Char → List Char
  | '0' :: 'x' :: rest => rest
  | '0' :: 'X' :: rest => rest
  | cs => cs

/-- The facilitator's reading of a serial number element; `none` is a panic. -/
def parseHexFelt (cs : List Char) : Option UInt64 :=
  (Rust.fromStrRadix 16 (2 ^ 64) (stripHexMark cs)).map UInt64.ofNat

/-- `format!("0x{:x}", felt.as_canonical_u64())`, which is how clients write a serial number. -/
def formatHexFelt (a : Felt) : List Char := '0' :: 'x' :: Nat.toDigits 16 a.asCanonicalU64.toNat

theorem parseHexFelt_formatHexFelt (a : Felt) :
    parseHexFelt (formatHexFelt a) = some a.asCanonicalU64 := by
  change (Rust.fromStrRadix 16 (2 ^ 64) (Nat.toDigits 16 a.asCanonicalU64.toNat)).map _ = _
  rw [Rust.fromStrRadix_toDigits (by decide) le_rfl _ a.asCanonicalU64.toNat_lt,Option.map_some,
    UInt64.ofNat_toNat]

end Hex

/-- A request to settle, its merchant and its secret key already decoded. -/
structure DecodedSettle (F : Falcon) where
  merchantId : AccountId
  serialNum : List Char × List Char × List Char × List Char
  agentSk : F.SecretKey
  cumulativeAmount : UInt64

/-- What the facilitator hands to the transaction besides the note. -/
structure ConsumeRequest where
  noteArgs : Word
  message : Word
  sigKey : Word
  prepared : List Felt

section Settle
variable (P : Protocol) (F : Falcon)

def parseSerialNum (cs : List Char × List Char × List Char × List Char) : Option Word := do
  let s0 ← parseHexFelt cs.1
  let s1 ← parseHexFelt cs.2.1
  let s2 ← parseHexFelt cs.2.2.1
  let s3 ← parseHexFelt cs.2.2.2
  return ⟨Felt.new s0,Felt.new s1,Felt.new s2,Felt.new s3⟩

def formatSerialNum (s : Word) : List Char × List Char × List Char × List Char :=
  (formatHexFelt s.e0,formatHexFelt s.e1,formatHexFelt s.e2,formatHexFelt s.e3)

theorem parseSerialNum_formatSerialNum (s : Word) :
    parseSerialNum (formatSerialNum s) = some s := by
  simp [parseSerialNum,formatSerialNum,parseHexFelt_formatHexFelt]

/-- The part of `process_settle` that builds the words and the signature, once the request is
decoded. -/
def processDecodedSettle (req : DecodedSettle F) : Option ConsumeRequest := do
  let serialNum ← parseSerialNum req.serialNum
  let agentPk := F.toCommitment (F.publicKey req.agentSk)
  let noteArgs : Word := ⟨Felt.new req.cumulativeAmount,0,0,0⟩
  let message := P.merge serialNum ⟨req.merchantId.suffixFelt,req.merchantId.prefixFelt,
    Felt.new req.cumulativeAmount,0⟩
  let sig := F.sign req.agentSk message
  return ⟨noteArgs,message,P.merge agentPk message,F.toPreparedSignature sig message⟩

end Settle

/-- The inputs of the facilitator's transaction: its advice map holds the prepared signature. -/
def TxInputs.withRequest (x : TxInputs) (r : ConsumeRequest) : TxInputs :=
  { x with
    noteArgs := r.noteArgs
    advMap := Function.update x.advMap r.sigKey (some r.prepared) }

/-- The same debit with a prepared signature on the advice stack and nothing in the map. -/
def TxInputs.withSignature (x : TxInputs) (r : ConsumeRequest) (prepared : List Felt) : TxInputs :=
  { x with
    noteArgs := r.noteArgs
    advStack := prepared ++ x.advStack
    advMap := Function.update x.advMap r.sigKey none }

section Agreement
variable {P : Protocol} {K : Kernel} {F : Falcon}

/-- Message, signature key and amount as the script has them when it looks for the signature. -/
theorem run_consumeSignature (hK : K.Documented P) (t : Terms) (n : Note) (x : TxInputs)
    (hst : n.recipient.storage = t.storage) : ∃ m,
    let msg := debitMessageOf P t n x.noteArgs.e0
    block (loadStorage K ++ consumeMessage K ++ consumeSigKey K) (startState n x) =
      some ⟨(P.merge t.userPk msg).push (t.userPk.push (msg.push [])),m,x.advStack,x.advMap,
        x.host n⟩ ∧
    m cumulativeAmount = x.noteArgs.e0 := by
  obtain ⟨m,hload,hpk,hms,hmp,-,-,-,hc,-⟩ := run_loadStorage hK t n x hst
  refine ⟨m,?_,hc⟩
  rw [List.append_assoc,block_append,hload,Option.bind_some,block_append,run_consumeMessage hK,
    Option.bind_some,run_consumeSigKey hK,hpk,hms,hmp,hc]
  rfl

/-- A debit goes through when a prepared signature of the key holder is found first. -/
theorem execute_consume_signed (hK : K.Documented P) (hs : F.SignsCorrectly)
    (hm : F.MatchesProcedure P) {t : Terms} {key : Word} {amount : Felt} {n : Note}
    (hn : IsDebitNote P t key amount n) (sk : F.SecretKey)
    (hpk : t.userPk = F.toCommitment (F.publicKey sk)) {x : TxInputs} (rest : List Felt)
    (hblock : x.blockNumber.toNat < t.reclaimBlock.val) {msg : Word}
    (hmsg : debitMessageOf P t n x.noteArgs.e0 = msg)
    (hsig : Protocol.sigSource x.advMap (P.merge t.userPk msg) x.advStack =
      F.toPreparedSignature (F.sign sk msg) msg ++ rest) (hwallet : x.hasBasicWallet = true)
    (hroom : (x.vault key).e0.val + amount.val ≤ P.maxAmount)
    (hslots : x.outputNotes.length + 1 < P.maxOutputNotes) (hc : x.noteArgs.e0.val ≤ amount.val) :
    execute K n x = some { x.host n with
      vault := Protocol.passedThrough x.vault key
      outputNotes := x.outputNotes ++
        [P.p2idNote n.recipient.serialNum t.merchant key x.noteArgs.e0,
          P.remainderNote n.recipient key (amount - x.noteArgs.e0)] } := by
  apply execute_consume_of hK hn rest ((hn.routesToConsume_iff x).mpr hblock) _ hwallet hroom hslots hc
  rw [hmsg,hsig,hpk,hm,if_pos (hs sk msg)]

/-- For a note committed to the key, the merchant and the height, the facilitator's message,
signature key and first note argument are those of the script, the signature is found in the advice
map, and the debit goes through; a prepared voucher signature on the advice stack, with nothing in
the map, leads to the same result. -/
theorem processSettle_agrees (hK : K.Documented P) (hs : F.SignsCorrectly)
    (hm : F.MatchesProcedure P) (sk : F.SecretKey) {serialNum root key : Word}
    {merchant user : AccountId} {reclaimBlock balance : Felt} {c : UInt64} {n : Note}
    (hrecipient : n.recipient = ⟨serialNum,root,
      storageItems (F.toCommitment (F.publicKey sk)) merchant user reclaimBlock⟩)
    (hf : P.isFungible key = true) (hassets : n.assets = [⟨key,fungibleValue balance⟩])
    (hc : c.toNat ≤ balance.val) {x : TxInputs} (hblock : x.blockNumber.toNat < reclaimBlock.val)
    (hwallet : x.hasBasicWallet = true) (hroom : (x.vault key).e0.val + balance.val ≤ P.maxAmount)
    (hslots : x.outputNotes.length + 1 < P.maxOutputNotes) :
    let pk := F.toCommitment (F.publicKey sk)
    let after := { x.host n with
      vault := Protocol.passedThrough x.vault key
      outputNotes := x.outputNotes ++ [P.p2idNote serialNum merchant key (Felt.new c),
        P.remainderNote n.recipient key (balance - Felt.new c)] }
    ∃ r, processDecodedSettle P F ⟨merchant,formatSerialNum serialNum,sk,c⟩ = some r ∧
      (∃ m, block (loadStorage K ++ consumeMessage K ++ consumeSigKey K ++ [advHasMapkey])
          (startState n (x.withRequest r)) =
        some ⟨r.sigKey.push (pk.push (r.message.push [])),m,1 :: x.advStack,
          (x.withRequest r).advMap,x.host n⟩ ∧
        m cumulativeAmount = r.noteArgs.e0 ∧ r.noteArgs = ⟨Felt.new c,0,0,0⟩ ∧
        r.message = debitMessage P serialNum merchant c) ∧
      execute K n (x.withRequest r) = some after ∧
      execute K n (x.withSignature r (F.toPreparedSignature
        (signVoucher P F sk serialNum merchant c) (voucherMessage P serialNum merchant c))) =
        some after := by
  intro pk after
  let t : Terms := ⟨pk,merchant,user,reclaimBlock⟩
  let msg := debitMessage P serialNum merchant c
  let prepared := F.toPreparedSignature (F.sign sk msg) msg
  have hn : IsDebitNote P t key balance n := ⟨by rw [hrecipient]; rfl,hassets,hf⟩
  have hserial : n.recipient.serialNum = serialNum := by rw [hrecipient]
  have hmsg : debitMessageOf P t n (Felt.new c) = msg := by rw [debitMessageOf,hserial]; rfl
  have hcval : (Felt.new c).val ≤ balance.val := (Felt.val_new_le c).trans hc
  refine ⟨⟨⟨Felt.new c,0,0,0⟩,msg,P.merge pk msg,prepared⟩,?_,?_,?_,?_⟩
  · rw [processDecodedSettle,parseSerialNum_formatSerialNum]
    rfl
  · obtain ⟨m,hrun,hamount⟩ := run_consumeSignature hK t n (x.withRequest
      ⟨⟨Felt.new c,0,0,0⟩,msg,P.merge pk msg,prepared⟩) hn.storage
    refine ⟨m,?_,hamount,rfl,rfl⟩
    change block _ _ = some ⟨(P.merge t.userPk (debitMessageOf P t n (Felt.new c))).push
      (t.userPk.push ((debitMessageOf P t n (Felt.new c)).push [])),m,_,_,_⟩ at hrun
    rw [block_append,hrun,Option.bind_some,hmsg,block_cons,run_advHasMapkey]
    simp [TxInputs.withRequest,t,TxInputs.host]
  · have hgo := execute_consume_signed hK hs hm hn sk rfl (x := x.withRequest
      ⟨⟨Felt.new c,0,0,0⟩,msg,P.merge pk msg,prepared⟩) x.advStack hblock hmsg
      (by simp [Protocol.sigSource,TxInputs.withRequest,t,prepared]) hwallet hroom hslots hcval
    rw [hserial] at hgo
    exact hgo
  · have hgo := execute_consume_signed hK hs hm hn sk rfl (x := x.withSignature
      ⟨⟨Felt.new c,0,0,0⟩,msg,P.merge pk msg,prepared⟩ prepared) x.advStack hblock hmsg
      (by simp [Protocol.sigSource,TxInputs.withSignature,t,prepared]) hwallet hroom hslots hcval
    rw [hserial] at hgo
    exact hgo

end Agreement

/-- A request to settle 300 out of the sample note under the key it commits to. -/
theorem processSettle_agrees_sample : ∃ r,
    processDecodedSettle sampleProtocol referenceFalcon
      ⟨sampleMerchant,formatSerialNum ⟨1,2,3,4⟩,(⟨7,8,9,10⟩ : Word),300⟩ = some r ∧
    (execute sampleKernel sampleNote ((sampleInputs 0 50).withRequest r)).isSome := by
  obtain ⟨r,hr,-,hx,-⟩ := @processSettle_agrees sampleProtocol sampleKernel referenceFalcon
    sampleKernel_documented referenceFalcon_signsCorrectly referenceFalcon_matchesSample
    (⟨7,8,9,10⟩ : Word) ⟨1,2,3,4⟩ ⟨5,5,5,5⟩ sampleKey sampleMerchant sampleUser 100 1000 300
    sampleNote rfl rfl rfl (by decide) (sampleInputs 0 50) (by decide) rfl (by decide) (by decide)
  exact ⟨r,hr,by rw [hx]; rfl⟩

end MidenX402.AgentDebitNote
