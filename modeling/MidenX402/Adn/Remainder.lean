import MidenX402.Adn.Client
import MidenX402.AdnServices.Responses

/-!
# Following the remainder

Each settlement of a note leaves a remainder whose serial number is one further.  The client is told
of every remainder, but signs for the serial number of the first note, so that it follows the chain
only as long as nothing was settled.
-/

namespace MidenX402.Adn
open Masm AgentDebitNote AdnServices

section Chain
variable {P : Protocol} {K : Kernel} {idHex : Note → String}

/-- The information is about the note. -/
structure RemainderInfo.Describes (P : Protocol) (idHex : Note → String) (info : RemainderInfo)
    (n : Note) : Prop where
  noteId : info.noteId = idHex n
  serialNum : parseSerialNum info.serialNumHex.strings = some n.recipient.serialNum
  balance : info.balance = noteBalance P n

/-- The settlements of a note one after the other, each told to the client. -/
inductive Settled (P : Protocol) (K : Kernel) (idHex : Note → String) (start : Note) :
    List RemainderInfo → Note → Prop
  | start : Settled P K idHex start [] start
  | settle {infos : List RemainderInfo} {n : Note} {x : TxInputs} {h : Host} {o : OutputNote}
      {next : Note} {info : RemainderInfo} : Settled P K idHex start infos n →
      routesToConsume n x → execute K n x = some h → (created x h).getLast? = some o →
      o.toNote = some next → info.Describes P idHex next →
      Settled P K idHex start (infos ++ [info]) next

/-- The settlements the client is told of are a run of the chain. -/
theorem Settled.debitRun {start n : Note} {infos : List RemainderInfo}
    (h : Settled P K idHex start infos n) : ∃ es, DebitRun K start es n ∧ es.length = infos.length := by
  induction h with
  | start => exact ⟨[],.start,rfl⟩
  | settle _ hr hx ho hnext _ ih =>
    obtain ⟨es,hrun,hlen⟩ := ih
    exact ⟨_,hrun.debit hr hx ho hnext,by rw [List.length_append,List.length_append,hlen]; rfl⟩

/-- What was told last is about the live note. -/
theorem Settled.describes {start n : Note} {infos : List RemainderInfo} {info : RemainderInfo}
    (h : Settled P K idHex start infos n) (hlast : infos.getLast? = some info) :
    info.Describes P idHex n := by
  cases h with
  | start => cases hlast
  | settle _ _ _ _ _ hinfo =>
    rw [List.getLast?_concat] at hlast
    exact Option.some.inj hlast ▸ hinfo

theorem Settled.eq_start {start n : Note} {infos : List RemainderInfo}
    (h : Settled P K idHex start infos n) (hinfos : infos = []) : n = start := by
  cases h with
  | start => rfl
  | settle => simp at hinfos

end Chain

section Follows
variable (P : Protocol) (K : Kernel) {F E : Falcon} (C : AdnCodec F E) (idHex : Note → String)
  (t : Terms) (key : Word)

/-- A transaction that can take the note at all: before the reclaim height, with a wallet, and with
room for the note's asset and two more notes. -/
structure CanTake (n : Note) (x : TxInputs) : Prop where
  blockNumber : x.blockNumber.toNat < t.reclaimBlock.val
  hasBasicWallet : x.hasBasicWallet = true
  room : (x.vault key).e0.val + (noteBalance P n).toNat ≤ P.maxAmount
  slots : x.outputNotes.length + 1 < P.maxOutputNotes

/-- What a settlement puts into the transaction for a debit with this signature. -/
def consumeWith (serial : Word) (merchant : AccountId) (amount : UInt64) (sig : F.Signature) :
    ConsumeRequest :=
  let message := debitMessage P serial merchant amount
  ⟨⟨Felt.new amount,0,0,0⟩,message,P.merge t.userPk message,F.toPreparedSignature sig message⟩

/-- The debit names the note and its serial number, is signed for them, and is accepted on the note
when it is for the merchant that the note pays. -/
structure DebitFits (pk : F.PublicKey) (n : Note) (merchant : AccountId) (amount : UInt64)
    (debit : SignedDebit) : Prop where
  noteId : debit.noteId = idHex n
  serialNum : parseSerialNum debit.serialNumHex.strings = some n.recipient.serialNum
  signed : ∃ sig, debit.signatureHex = "0x" ++ signatureHex C.toCodec sig ∧
    F.verify pk (debitMessage P n.recipient.serialNum merchant amount) sig = true ∧
    (merchant = t.merchant → ∀ x, CanTake P t key n x → (execute K n
      (x.withRequest (consumeWith P t n.recipient.serialNum merchant amount sig))).isSome)

/-- Whatever the client signs within the balance that it was told last fits the note. -/
def Follows (pk : F.PublicKey) (c : AdnClient F E) (n : Note) : Prop :=
  ∀ merchant amount, amount ≤ c.balance → ∃ debit,
    c.signDebit P C merchant amount = some (.ok debit) ∧
      DebitFits P K C idHex t key pk n merchant amount debit

end Follows

section Remainder
variable {P : Protocol} {K : Kernel} {F E : Falcon} {C : AdnCodec F E} {idHex : Note → String}
  {t : Terms} {key : Word}

theorem serialAfter_eq_iff (s : Word) (k : ℕ) : serialAfter s k = s ↔ fieldOrder ∣ k := by
  have hcast : serialAfter s k = s ↔ ((k : ℕ) : Felt) = 0 := by
    cases s
    simp [serialAfter]
  rw [hcast]
  exact ZMod.natCast_eq_zero_iff k fieldOrder

/-- The client after a number of settlements of its note. -/
def told (sk : F.SecretKey) (idHex : Note → String) (P : Protocol) (start : Note)
    (expiryBlock : UInt32) (infos : List RemainderInfo) : AdnClient F E :=
  infos.foldl AdnClient.updateRemainder
    (.new (.falcon512Poseidon2 sk) (idHex start) start.recipient.serialNum (noteBalance P start)
      expiryBlock)

theorem told_eq (sk : F.SecretKey) {start n : Note} (expiryBlock : UInt32)
    {infos : List RemainderInfo} (h : Settled P K idHex start infos n) :
    (told sk idHex P start expiryBlock infos : AdnClient F E) =
      .new (.falcon512Poseidon2 sk) (idHex n) start.recipient.serialNum (noteBalance P n) expiryBlock := by
  rw [told,AdnClient.foldl_updateRemainder]
  cases hlast : infos.getLast? with
  | none =>
    rw [h.eq_start (List.getLast?_eq_none_iff.mp hlast)]
    rfl
  | some info =>
    have hinfo := h.describes hlast
    simp only [Option.map_some,Option.getD_some,hinfo.noteId,hinfo.balance,AdnClient.new]

/-- A debit that names the note's own serial number is accepted there. -/
theorem debitFits_of_serial (hK : K.Documented P) (hs : F.SignsCorrectly)
    (hm : F.MatchesProcedure P) (sk : F.SecretKey) (hpk : t.userPk = F.toCommitment (F.publicKey sk))
    {n : Note} {live : Felt} (hn : IsDebitNote P t key live n) {c : AdnClient F E}
    (hid : c.noteId = idHex n) (hserial : c.noteSerial = n.recipient.serialNum)
    (merchant : AccountId) {amount : UInt64} (hamount : amount ≤ noteBalance P n) :
    DebitFits P K C idHex t key (F.publicKey sk) n merchant amount
      (c.debit C (debitMessage P c.noteSerial merchant amount)
        (F.sign sk (debitMessage P c.noteSerial merchant amount)) merchant amount) where
  noteId := hid
  serialNum := by
    rw [← hserial]
    exact parseSerialNum_wordToHexArray c.noteSerial
  signed := by
    rw [hserial]
    refine ⟨_,rfl,hs sk _,?_⟩
    rintro rfl x hx
    have hbalance := noteBalance_of_isDebitNote hn
    have hle : (Felt.new amount).val ≤ live.val := by
      have hnat := UInt64.le_iff_toNat_le.mp hamount
      rw [hbalance] at hnat
      exact (Felt.val_new_le amount).trans hnat
    let r := consumeWith P t n.recipient.serialNum t.merchant amount
      (F.sign sk (debitMessage P n.recipient.serialNum t.merchant amount))
    have hgo := execute_consume_signed hK hs hm hn sk hpk (x := x.withRequest r) x.advStack
      hx.blockNumber rfl
      (by simp [Protocol.sigSource,TxInputs.withRequest,r,consumeWith,debitMessageOf,debitMessage,
        debitWord])
      hx.hasBasicWallet (by rw [← hbalance]; exact hx.room) hx.slots hle
    rw [hgo]
    rfl

/-- A client that was made for a debit note and told of every settlement follows the note exactly
when the number of settlements is a multiple of the order of the field, above all when it is zero. -/
theorem follows_remainder_iff (hK : K.Documented P) (hs : F.SignsCorrectly)
    (hm : F.MatchesProcedure P) (sk : F.SecretKey) (hpk : t.userPk = F.toCommitment (F.publicKey sk))
    {start n : Note} {total : Felt} (hstart : IsDebitNote P t key total start)
    (expiryBlock : UInt32) {infos : List RemainderInfo} (hrun : Settled P K idHex start infos n) :
    Follows P K C idHex t key (F.publicKey sk) (told sk idHex P start expiryBlock infos) n ↔
      fieldOrder ∣ infos.length := by
  obtain ⟨es,hes,hlen⟩ := hrun.debitRun
  have hrecipient : start.recipient =
      ⟨start.recipient.serialNum,start.recipient.scriptRoot,t.storage⟩ :=
    congrArg (Recipient.mk start.recipient.serialNum start.recipient.scriptRoot) hstart.storage
  obtain ⟨live,hi⟩ := hes.inv hK hstart.fungible hrecipient hstart.assets
  have hserial : n.recipient.serialNum = serialAfter start.recipient.serialNum infos.length := by
    rw [hi.recipient,hlen]
  rw [told_eq sk expiryBlock hrun,← serialAfter_eq_iff start.recipient.serialNum]
  constructor
  · intro h
    obtain ⟨debit,hdebit,hfits⟩ := h t.merchant 0 (UInt64.zero_le)
    rw [AdnClient.signDebit_eq P C rfl t.merchant UInt64.zero_le] at hdebit
    obtain rfl := Except.ok.inj (Option.some.inj hdebit)
    have hnamed := hfits.serialNum
    rw [AdnClient.debit,parseSerialNum_wordToHexArray] at hnamed
    rw [← hserial]
    exact (Option.some.inj hnamed).symm
  · intro hsame merchant amount hamount
    refine ⟨_,AdnClient.signDebit_eq P C rfl merchant hamount,?_⟩
    exact debitFits_of_serial hK hs hm sk hpk (hi.isDebitNote hstart.fungible) rfl
      (hsame.symm.trans hserial.symm) merchant hamount

end Remainder

section Sample

/-- An id that tells the notes of the sample chain apart. -/
def sampleIdHex (n : Note) : String := hexFelt n.recipient.serialNum.e0

def sampleInfo (n : Note) : RemainderInfo :=
  ⟨sampleIdHex n,wordToHexArray n.recipient.serialNum,noteBalance sampleProtocol n,"0x01",51⟩

theorem sampleInfo_describes (n : Note) : (sampleInfo n).Describes sampleProtocol sampleIdHex n :=
  ⟨rfl,parseSerialNum_wordToHexArray n.recipient.serialNum,rfl⟩

/-- Before anything was settled. -/
theorem follows_remainder_sample : Follows sampleProtocol sampleKernel sampleAdnCodec sampleIdHex
    sampleStorage.terms sampleKey (.ofNats 7 8 9 10 : Word)
    (told (.ofNats 7 8 9 10 : Word) sampleIdHex sampleProtocol sampleNote 1000 []) sampleNote :=
  (@follows_remainder_iff sampleProtocol sampleKernel referenceFalcon referenceFalcon sampleAdnCodec
    sampleIdHex sampleStorage.terms sampleKey sampleKernel_documented referenceFalcon_signsCorrectly
    referenceFalcon_matchesSample (.ofNats 7 8 9 10 : Word) rfl _ _ _ sampleNote_isDebitNote 1000 []
    .start).mpr (dvd_zero _)

/-- After one settlement the client names the remainder's id with the serial number of the note that
is gone. -/
theorem stale_serial_after_settlement : ∃ info n,
    Settled sampleProtocol sampleKernel sampleIdHex sampleNote [info] n ∧
      n.recipient.serialNum = ⟨2,2,3,4⟩ ∧
      let c : AdnClient referenceFalcon referenceFalcon :=
        told (.ofNats 7 8 9 10 : Word) sampleIdHex sampleProtocol sampleNote 1000 [info]
      (∃ debit, c.signDebit sampleProtocol sampleAdnCodec sampleMerchant 100 = some (.ok debit) ∧
        debit.noteId = sampleIdHex n ∧
        parseSerialNum debit.serialNumHex.strings = some ⟨1,2,3,4⟩) ∧
      ¬Follows sampleProtocol sampleKernel sampleAdnCodec sampleIdHex sampleStorage.terms sampleKey
        (.ofNats 7 8 9 10 : Word) c n := by
  let n : Note := remainderOf sampleKey 1000 sampleNote 300
  have hrun : Settled sampleProtocol sampleKernel sampleIdHex sampleNote [sampleInfo n] n :=
    Settled.start.settle (x := sampleInputs 300 50) (by decide) sampleSettles rfl rfl
      (sampleInfo_describes n)
  have htold := @told_eq sampleProtocol sampleKernel referenceFalcon referenceFalcon sampleIdHex
    (.ofNats 7 8 9 10 : Word) _ _ 1000 _ hrun
  refine ⟨sampleInfo n,n,hrun,by decide,?_⟩
  rw [htold]
  have hdebit := fun amount h => @AdnClient.signDebit_eq referenceFalcon referenceFalcon
    sampleProtocol sampleAdnCodec (.new sampleAgentSk (sampleIdHex n) sampleNote.recipient.serialNum
      (noteBalance sampleProtocol n) 1000) (.ofNats 7 8 9 10 : Word) rfl sampleMerchant amount h
  refine ⟨⟨_,hdebit 100 (by decide),rfl,parseSerialNum_wordToHexArray _⟩,?_⟩
  intro h
  obtain ⟨debit,hsigned,hfits⟩ := h sampleMerchant 0 UInt64.zero_le
  obtain rfl := Except.ok.inj (Option.some.inj ((hdebit 0 UInt64.zero_le).symm.trans hsigned))
  have hnamed := (parseSerialNum_wordToHexArray sampleNote.recipient.serialNum).symm.trans
    hfits.serialNum
  revert hnamed
  decide

end Sample

end MidenX402.Adn
