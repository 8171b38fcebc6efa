import MidenX402.AgentDebitNote.Effect

/-!
# A kernel that behaves as documented

An executable kernel for the parameters of the note script.  It shows that the documented behaviour
can be had all at once, and lets the script be evaluated on concrete notes.
-/

namespace MidenX402.AgentDebitNote
open Masm

/-- The recipient as the advice map stores it. -/
def Recipient.encode (r : Recipient) : List Felt :=
  r.serialNum.toList ++ r.scriptRoot.toList ++ r.storage

def Recipient.decode : List Felt → Option Recipient
  | a :: b :: c :: d :: e :: f :: g :: h :: storage => some ⟨⟨a,b,c,d⟩,⟨e,f,g,h⟩,storage⟩
  | _ => none

theorem Recipient.decode_encode (r : Recipient) : Recipient.decode r.encode = some r := rfl

/-- A signature is the commitment followed by the message it was made for. -/
def referenceVerify (pk msg : Word) (av : List Felt) : Option (List Felt) :=
  if av.take 8 = pk.toList ++ msg.toList then some (av.drop 8) else none

/-- `FungibleAsset::MAX_AMOUNT` is `2^63 - 2^31`, and a transaction creates at most 1024 notes. -/
def referenceProtocol (merge : Word → Word → Word) : Protocol where
  merge := merge
  falconVerify := referenceVerify
  recipientDigest r := merge (merge r.serialNum r.scriptRoot) ⟨r.storage.sum,r.storage.length,0,0⟩
  recipientOf am digest := (am digest).bind Recipient.decode
  p2idScriptRoot := .ofNats 2 0 1 9
  isFungible key := key.e0 = 0
  maxAmount := 2 ^ 63 - 2 ^ 31
  maxAmount_lt := by decide
  maxOutputNotes := 1024
  maxOutputNotes_lt := by decide

def writeMem (m : ℕ → Felt) (a : ℕ) (xs : List Felt) : ℕ → Felt :=
  fun i => if a ≤ i then (xs[i - a]?).getD (m i) else m i

theorem memHolds_writeMem (m : ℕ → Felt) (a : ℕ) (xs : List Felt) :
    memHolds (writeMem m a xs) a xs := by
  intro i x hx
  simp [writeMem,hx]

theorem writeMem_frame (m : ℕ → Felt) (a : ℕ) (xs : List Felt) (i : ℕ)
    (hi : i < a ∨ a + xs.length ≤ i) : writeMem m a xs i = m i := by
  rw [writeMem]
  split
  · rw [List.getElem?_eq_none (by omega),Option.getD_none]
  · rfl

def wordAt (stack : List Felt) (depth : ℕ) : Word := topWord (stack.drop depth)

section Procedures
variable (P : Protocol)

def referenceCreate (h : Host) (tag noteType : Felt) (digest : Word) (details : Option Recipient) :
    Option Host :=
  if P.canCreate h tag noteType then some (h.createNote ⟨digest,details,tag,noteType,[]⟩) else none

def referenceKernel (encode : Recipient → List Felt) : Kernel where
  getStorage s :=
    let storage := s.host.activeNote.recipient.storage
    let ptr := peek s.stack 0
    some { s with
      stack := (storage.length : Felt) :: ptr :: s.stack.tail
      mem := writeMem s.mem ptr.val storage }
  getAssets s :=
    let assets := s.host.activeNote.assets
    let ptr := peek s.stack 0
    some { s with
      stack := (assets.length : Felt) :: ptr :: s.stack.tail
      mem := writeMem s.mem ptr.val (assets.flatMap Asset.cells) }
  getSerialNumber s := some { s with stack := s.host.activeNote.recipient.serialNum.push s.stack }
  getScriptRoot s := some { s with stack := s.host.activeNote.recipient.scriptRoot.push s.stack }
  getBlockNumber s := some { s with stack := (s.host.blockNumber.toNat : Felt) :: s.stack }
  buildRecipient s :=
    let ptr := (peek s.stack 0).val
    let r : Recipient := ⟨wordAt s.stack 2,wordAt s.stack 6,
      (List.range (peek s.stack 1).val).map fun i => s.mem (ptr + i)⟩
    some { s with
      stack := (P.recipientDigest r).push (s.stack.drop 10)
      advMap := Function.update s.advMap (P.recipientDigest r) (some (encode r)) }
  createOutputNote s :=
    let digest := wordAt s.stack 2
    (referenceCreate P s.host (peek s.stack 0) (peek s.stack 1) digest
      (P.recipientOf s.advMap digest)).map fun h =>
      { s with stack := (s.host.outputNotes.length : Felt) :: s.stack.drop 6, host := h }
  p2idNew s :=
    let r := P.p2idRecipient (wordAt s.stack 4) (peek s.stack 0) (peek s.stack 1)
    (referenceCreate P s.host (peek s.stack 2) (peek s.stack 3) (P.recipientDigest r)
      (some r)).map fun h =>
      { s with stack := (s.host.outputNotes.length : Felt) :: s.stack.drop 8, host := h }
  addAssetsToAccount s := (P.receive s.host).map fun h => { s with host := h }
  moveAssetToNote s :=
    (P.moveAsset s.host (peek s.stack 8).val ⟨wordAt s.stack 0,wordAt s.stack 4⟩).map fun h =>
      { s with stack := List.replicate 16 0, host := h }
  merge s := some { s with stack := (P.merge (wordAt s.stack 0) (wordAt s.stack 4)).push (s.stack.drop 8) }
  falconVerify s :=
    (P.falconVerify (wordAt s.stack 0) (wordAt s.stack 4) s.advStack).map fun av =>
      { s with stack := s.stack.drop 8, advStack := av }
  truncateStack s := some { s with stack := s.stack.take 16 }

theorem length_flatMap_cells (assets : List Asset) :
    (assets.flatMap Asset.cells).length = 8 * assets.length := by
  induction assets with
  | nil => rfl
  | cons a assets ih =>
    rw [List.flatMap_cons,List.length_append,ih,List.length_cons]
    simp only [Asset.cells,Word.toList,List.length_append,List.length_cons,List.length_nil]
    ring

theorem le_paddedLength (n : ℕ) : n ≤ paddedLength n := by
  rw [paddedLength]
  omega

theorem referenceKernel_documented (encode : Recipient → List Felt)
    (hrec : ∀ am r, P.recipientOf
      (Function.update am (P.recipientDigest r) (some (encode r))) (P.recipientDigest r) = some r) :
    (referenceKernel P encode).Documented P where
  getStorage ptr st m av am h _ := by
    refine ⟨_,rfl,memHolds_writeMem _ _ _,?_⟩
    intro a ha
    have hp := le_paddedLength h.activeNote.recipient.storage.length
    exact writeMem_frame _ _ _ _ (by simp only [peek_zero]; omega)
  getAssets ptr st m av am h _ := by
    refine ⟨_,rfl,memHolds_writeMem _ _ _,?_⟩
    intro a ha
    exact writeMem_frame _ _ _ _ (by rw [length_flatMap_cells]; simpa using ha)
  getSerialNumber st m av am h := rfl
  getScriptRoot st m av am h := rfl
  getBlockNumber st m av am h := rfl
  buildRecipient ptr num serialNum root st m av am h _ _ := ⟨_,rfl,hrec _ _⟩
  createOutputNote tag noteType digest st m av am h := by
    change Option.map _ (referenceCreate P h tag noteType digest _) = _
    rw [referenceCreate]
    split <;> rfl
  p2idNew suffix pre tag noteType serialNum st m av am h := by
    refine ⟨am,?_⟩
    change Option.map _ (referenceCreate P h tag noteType _ _) = _
    rw [referenceCreate]
    split <;> rfl
  addAssetsToAccount st m av am h := by
    change Option.map _ (P.receive h) = _
    rw [Protocol.receive]
    split
    · rw [Option.map_map]
      rfl
    · rfl
  moveAssetToNote key value idx pad m av am h n _ _ _ := by
    exact ⟨List.replicate 16 0,m,List.length_replicate,rfl⟩
  merge a b st m av am h := rfl
  falconVerify pk msg st m av am h := rfl
  truncateStack st m av am h := rfl

end Procedures

theorem reference_documented (merge : Word → Word → Word) :
    (referenceKernel (referenceProtocol merge) Recipient.encode).Documented
      (referenceProtocol merge) := by
  apply referenceKernel_documented
  intro am r
  simp [referenceProtocol,Recipient.decode_encode]

/-- Keys are their own commitments and a signature records the key and the message. -/
def referenceFalcon : Falcon where
  SecretKey := Word
  PublicKey := Word
  Signature := Word × Word
  publicKey sk := sk
  toCommitment pk := pk
  sign sk msg := (sk,msg)
  verify pk msg sig := sig.1 = pk ∧ sig.2 = msg
  toPreparedSignature sig _ := sig.1.toList ++ sig.2.toList

theorem referenceFalcon_signsCorrectly : referenceFalcon.SignsCorrectly := by
  intro (sk : Word) msg
  exact decide_eq_true (p := sk = sk ∧ msg = msg) ⟨rfl,rfl⟩

theorem referenceFalcon_bindsMessage : referenceFalcon.BindsMessage := by
  intro (sk : Word) msg msg' hv
  have hpair : sk = sk ∧ msg = msg' := of_decide_eq_true hv
  exact hpair.2.symm

theorem referenceFalcon_matchesProcedure (merge : Word → Word → Word) :
    referenceFalcon.MatchesProcedure (referenceProtocol merge) := by
  rintro ⟨p0,p1,p2,p3⟩ ⟨m0,m1,m2,m3⟩ ⟨⟨s0,s1,s2,s3⟩,⟨t0,t1,t2,t3⟩⟩ rest
  simp [referenceFalcon,referenceProtocol,referenceVerify,Word.toList,and_assoc]

section Sample

def sampleMerge (a b : Word) : Word := ⟨a.e0 + b.e3,b.e0,b.e1,b.e2⟩

def sampleProtocol : Protocol := referenceProtocol sampleMerge

def sampleKernel : Kernel := referenceKernel sampleProtocol Recipient.encode

/-- The account used throughout the voucher tests of the source. -/
def sampleMerchant : AccountId := ⟨0x7bfb0f38b0fafa10,0x3f86a80559417000⟩

def sampleUser : AccountId := ⟨0x7bfb0f38b0fafa10,0x3f86a80559418000⟩

def sampleStorage : AgentDebitNoteStorage :=
  ⟨.ofNats 7 8 9 10,sampleMerchant,sampleUser,100⟩

def sampleKey : Word := .ofNats 0 0 3 4

def sampleNote : Note :=
  ⟨⟨.ofNats 1 2 3 4,.ofNats 5 5 5 5,sampleStorage.toNoteStorage⟩,
    [⟨sampleKey,fungibleValue (Felt.new 1000)⟩],notePrivate⟩

/-- Inputs that debit `c` from the sample note at block `b` with a signature on the advice stack. -/
def sampleInputs (c : Felt) (b : UInt32) : TxInputs where
  noteArgs := ⟨c,0,0,0⟩
  advStack := sampleStorage.userPubkeyCommitment.toList ++
    (debitMessageOf sampleProtocol sampleStorage.terms sampleNote c).toList
  advMap _ := none
  blockNumber := b
  hasBasicWallet := true
  vault _ := Word.zero
  outputNotes := []

theorem sampleKernel_documented : sampleKernel.Documented sampleProtocol :=
  reference_documented sampleMerge

theorem sampleNote_isDebitNote :
    IsDebitNote sampleProtocol sampleStorage.terms sampleKey 1000 sampleNote :=
  ⟨rfl,rfl,rfl⟩

theorem sampleSettles : execute sampleKernel sampleNote (sampleInputs 300 50) =
    some { (sampleInputs 300 50).host sampleNote with
      vault := Protocol.passedThrough (sampleInputs 300 50).vault sampleKey
      outputNotes :=
        [sampleProtocol.p2idNote ⟨1,2,3,4⟩ sampleMerchant sampleKey 300,
          sampleProtocol.remainderNote sampleNote.recipient sampleKey (1000 - 300)] } :=
  execute_consume_of sampleKernel_documented sampleNote_isDebitNote [] (by decide)
    (by decide) rfl (by decide) (by decide) (by decide)

end Sample

end MidenX402.AgentDebitNote
