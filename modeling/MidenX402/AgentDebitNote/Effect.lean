import MidenX402.AgentDebitNote.Execution
import Mathlib.Tactic.Ring

/-!
# What an authorised execution does to the ledger

The consuming account only passes the asset on: whatever it already holds of the asset, a settlement
succeeds only for an amount the note covers, and then splits the note's amount between the two notes
it creates.
-/

namespace MidenX402.AgentDebitNote
open Masm

namespace Protocol
variable (P : Protocol)

/-- A public note for the recipient, holding one asset. -/
def publicNote (r : Recipient) (a : Asset) : OutputNote :=
  ⟨P.recipientDigest r,some r,0,notePublic,[a]⟩

def p2idNote (serialNum : Word) (target : AccountId) (key : Word) (amount : Felt) : OutputNote :=
  P.publicNote (P.p2idRecipient (p2idSerial serialNum) target.suffixFelt target.prefixFelt)
    ⟨key,fungibleValue amount⟩

def remainderNote (r : Recipient) (key : Word) (amount : Felt) : OutputNote :=
  P.publicNote ⟨remainderSerial r.serialNum,r.scriptRoot,r.storage⟩ ⟨key,fungibleValue amount⟩

theorem modify_append_length {α : Type} (xs : List α) (x : α) (f : α → α) :
    (xs ++ [x]).modify xs.length f = xs ++ [f x] := by
  induction xs with
  | nil => rfl
  | cons y ys ih => simp [ih]

theorem send_eq (h : Host) (r : Recipient) (a : Asset) :
    P.send h r a =
      if h.outputNotes.length < P.maxOutputNotes ∧ h.hasBasicWallet then
        (P.vaultRemove h.vault a).map fun vault =>
          { h with vault := vault, outputNotes := h.outputNotes ++ [P.publicNote r a] }
      else none := by
  have hcan : P.canCreate h 0 notePublic ↔ h.outputNotes.length < P.maxOutputNotes := by
    simp [canCreate]
  rw [send,create]
  by_cases hl : h.outputNotes.length < P.maxOutputNotes
  · rw [if_pos (hcan.mpr hl),Option.bind_some,moveAsset]
    by_cases hw : h.hasBasicWallet = true
    · simp only [Host.createNote,hw,hl,and_self,if_true,modify_append_length]
      rfl
    · simp [Host.createNote,hw]
  · rw [if_neg (fun hc => hl (hcan.mp hc)),if_neg (fun hc => hl hc.1)]
    rfl

theorem vaultRemove_fungible (vault : Word → Word) (key : Word) (c : Felt)
    (hf : P.isFungible key = true) :
    P.vaultRemove vault ⟨key,fungibleValue c⟩ =
      if c.val ≤ (vault key).e0.val then
        some (Function.update vault key (fungibleValue ((vault key).e0 - c)))
      else none := by
  simp [vaultRemove,hf,fungibleValue]

theorem vaultAddAll_one (vault : Word → Word) (key : Word) (amount : Felt)
    (hf : P.isFungible key = true) :
    P.vaultAddAll vault [⟨key,fungibleValue amount⟩] =
      if (vault key).e0.val + amount.val ≤ P.maxAmount then
        some (Function.update vault key (fungibleValue ((vault key).e0 + amount)))
      else none := by
  simp [vaultAddAll,vaultAdd,hf,fungibleValue]

/-- The vault after the asset went in and out again. -/
def passedThrough (vault : Word → Word) (key : Word) : Word → Word :=
  Function.update vault key (fungibleValue (vault key).e0)

variable {P}

theorem val_add_of_le {a b : Felt} (h : a.val + b.val ≤ P.maxAmount) : (a + b).val = a.val + b.val :=
  ZMod.val_add_of_lt (h.trans_lt P.maxAmount_lt)

theorem receive_eq (h : Host) (key : Word) (amount : Felt) (hf : P.isFungible key = true)
    (hassets : h.activeNote.assets = [⟨key,fungibleValue amount⟩]) :
    P.receive h =
      if h.hasBasicWallet ∧ (h.vault key).e0.val + amount.val ≤ P.maxAmount then
        some { h with
          vault := Function.update h.vault key (fungibleValue ((h.vault key).e0 + amount)) }
      else none := by
  rw [receive,hassets,vaultAddAll_one P _ _ _ hf]
  by_cases hw : h.hasBasicWallet = true
  · by_cases hv : (h.vault key).e0.val + amount.val ≤ P.maxAmount
    · simp [hw,hv]
    · simp [hw,hv]
  · simp [hw]

theorem send_fungible (h : Host) (r : Recipient) (key : Word) (c : Felt)
    (hf : P.isFungible key = true) :
    P.send h r ⟨key,fungibleValue c⟩ =
      if h.outputNotes.length < P.maxOutputNotes ∧ h.hasBasicWallet ∧
          c.val ≤ (h.vault key).e0.val then
        some { h with
          vault := Function.update h.vault key (fungibleValue ((h.vault key).e0 - c))
          outputNotes := h.outputNotes ++ [P.publicNote r ⟨key,fungibleValue c⟩] }
      else none := by
  rw [send_eq,vaultRemove_fungible P _ _ _ hf]
  by_cases hl : h.outputNotes.length < P.maxOutputNotes ∧ h.hasBasicWallet = true
  · rw [if_pos hl]
    by_cases hc : c.val ≤ (h.vault key).e0.val
    · rw [if_pos hc,if_pos ⟨hl.1,hl.2,hc⟩,Option.map_some]
    · rw [if_neg hc,if_neg (fun hg => hc hg.2.2),Option.map_none]
  · rw [if_neg hl,if_neg (fun hg => hl ⟨hg.1,hg.2.1⟩)]

/-- Taking `c` and then the rest of `amount`, computed in the field, out of a balance that covers
`amount` works exactly when `c` is at most `amount`. -/
theorem both_covered_iff {v amount c : Felt} (hroom : v.val + amount.val < fieldOrder) :
    (c.val ≤ (v + amount).val ∧ (amount - c).val ≤ (v + amount - c).val) ↔ c.val ≤ amount.val := by
  have hsum : (v + amount).val = v.val + amount.val := ZMod.val_add_of_lt hroom
  constructor
  · rintro ⟨hc,hrest⟩
    by_contra hlt
    rw [Felt.val_sub_of_lt (by omega),ZMod.val_sub hc,hsum] at hrest
    omega
  · intro hc
    refine ⟨by omega,?_⟩
    rw [ZMod.val_sub hc,ZMod.val_sub (by omega),hsum]
    omega

/-- The conditions under which an authorised settlement goes through, and its outcome. -/
theorem settleEffect_eq (h : Host) (t : Terms) (key : Word) (amount c : Felt)
    (hf : P.isFungible key = true)
    (hassets : h.activeNote.assets = [⟨key,fungibleValue amount⟩])
    (hst : h.activeNote.recipient.storage = t.storage) :
    P.settleEffect key amount c t.merchant.suffixFelt t.merchant.prefixFelt t.storage h =
      if h.hasBasicWallet ∧ (h.vault key).e0.val + amount.val ≤ P.maxAmount ∧
          h.outputNotes.length + 1 < P.maxOutputNotes ∧ c.val ≤ amount.val then
        some { h with
          vault := passedThrough h.vault key
          outputNotes := h.outputNotes ++
            [P.p2idNote h.activeNote.recipient.serialNum t.merchant key c,
              P.remainderNote h.activeNote.recipient key (amount - c)] }
      else none := by
  rw [settleEffect,receive_eq h key amount hf hassets]
  by_cases hin : h.hasBasicWallet = true ∧ (h.vault key).e0.val + amount.val ≤ P.maxAmount
  swap
  · rw [if_neg hin,if_neg (fun hg => hin ⟨hg.1,hg.2.1⟩),Option.bind_none]
  obtain ⟨hw,hroom⟩ := hin
  have hboth := both_covered_iff (c := c) (hroom.trans_lt P.maxAmount_lt)
  rw [if_pos ⟨hw,hroom⟩,Option.bind_some,sendP2id,send_fungible _ _ _ _ hf]
  simp only [Function.update_self,fungibleValue,hw,true_and]
  by_cases hfirst : h.outputNotes.length < P.maxOutputNotes ∧
      c.val ≤ ((h.vault key).e0 + amount).val
  swap
  · rw [if_neg hfirst,if_neg ?_,Option.bind_none]
    rintro ⟨-,hlen,hc⟩
    exact hfirst ⟨by omega,(hboth.mpr hc).1⟩
  rw [if_pos hfirst,Option.bind_some,sendRemainder]
  change P.send _ _ ⟨key,fungibleValue (amount - c)⟩ = _
  rw [send_fungible _ _ _ _ hf]
  have hback : (h.vault key).e0 + amount - c - (amount - c) = (h.vault key).e0 := by ring
  simp only [Function.update_self,Function.update_idem,List.length_append,List.length_singleton,
    hback,List.append_assoc,List.singleton_append,true_and]
  by_cases hlast : h.outputNotes.length + 1 < P.maxOutputNotes ∧ c.val ≤ amount.val
  · rw [if_pos ⟨hlast.1,(hboth.mpr hlast.2).2⟩,if_pos ⟨hroom,hlast⟩,← hst]
    rfl
  · rw [if_neg ?_,if_neg (fun hg => hlast hg.2)]
    rintro ⟨hlen,hrest⟩
    exact hlast ⟨hlen,hboth.mp ⟨hfirst.2,hrest⟩⟩

theorem reclaimEffect_eq (h : Host) (t : Terms) (key : Word) (amount : Felt)
    (hf : P.isFungible key = true)
    (hassets : h.activeNote.assets = [⟨key,fungibleValue amount⟩]) :
    P.reclaimEffect key amount t.user.suffixFelt t.user.prefixFelt h =
      if h.hasBasicWallet ∧ (h.vault key).e0.val + amount.val ≤ P.maxAmount ∧
          h.outputNotes.length < P.maxOutputNotes then
        some { h with
          vault := passedThrough h.vault key
          outputNotes := h.outputNotes ++
            [P.p2idNote h.activeNote.recipient.serialNum t.user key amount] }
      else none := by
  rw [reclaimEffect,receive_eq h key amount hf hassets]
  by_cases hin : h.hasBasicWallet = true ∧ (h.vault key).e0.val + amount.val ≤ P.maxAmount
  swap
  · rw [if_neg hin,if_neg (fun hg => hin ⟨hg.1,hg.2.1⟩),Option.bind_none]
  obtain ⟨hw,hroom⟩ := hin
  have hcover : amount.val ≤ ((h.vault key).e0 + amount).val := by
    rw [val_add_of_le hroom]
    omega
  rw [if_pos ⟨hw,hroom⟩,Option.bind_some,sendP2id,send_fungible _ _ _ _ hf]
  simp only [Function.update_self,fungibleValue,hw,hroom,hcover,true_and,and_true,
    Function.update_idem,add_sub_cancel_right]
  rfl

end Protocol

/-- The notes an execution created. -/
def created (x : TxInputs) (h : Host) : List OutputNote :=
  h.outputNotes.drop x.outputNotes.length

/-- The script compares the block number with the last storage item. -/
def routesToConsume (n : Note) (x : TxInputs) : Prop :=
  x.blockNumber.toNat < (n.recipient.storage.getD 8 0).val

instance (n : Note) (x : TxInputs) : Decidable (routesToConsume n x) :=
  inferInstanceAs (Decidable (_ < _))

/-- A note of the chain: the terms in its storage, one fungible asset in its vault. -/
structure IsDebitNote (P : Protocol) (t : Terms) (key : Word) (amount : Felt) (n : Note) : Prop where
  storage : n.recipient.storage = t.storage
  assets : n.assets = [⟨key,fungibleValue amount⟩]
  fungible : P.isFungible key = true

section Executions
variable {P : Protocol} {K : Kernel} {t : Terms} {key : Word} {amount : Felt} {n : Note}

theorem IsDebitNote.routesToConsume_iff (hn : IsDebitNote P t key amount n) (x : TxInputs) :
    routesToConsume n x ↔ x.blockNumber.toNat < t.reclaimBlock.val := by
  rw [routesToConsume,hn.storage]
  rfl

theorem execute_consume (hK : K.Documented P) (hn : IsDebitNote P t key amount n) {x : TxInputs}
    {h : Host} (hr : routesToConsume n x) (hx : execute K n x = some h) :
    (∃ rest, P.falconVerify t.userPk (debitMessageOf P t n x.noteArgs.e0)
      (Protocol.sigSource x.advMap (P.merge t.userPk (debitMessageOf P t n x.noteArgs.e0))
        x.advStack) = some rest) ∧
    x.noteArgs.e0.val ≤ amount.val ∧
    h.vault = Protocol.passedThrough x.vault key ∧
    created x h = [P.p2idNote n.recipient.serialNum t.merchant key x.noteArgs.e0,
      P.remainderNote n.recipient key (amount - x.noteArgs.e0)] := by
  rw [execute_eq hK t n x key amount hn.storage hn.assets,
    if_pos ((hn.routesToConsume_iff x).mp hr)] at hx
  obtain ⟨rest,hsig,heff⟩ := Option.bind_eq_some_iff.mp hx
  rw [Protocol.settleEffect_eq (x.host n) t key amount _ hn.fungible hn.assets hn.storage] at heff
  split at heff
  · rename_i hgood
    obtain rfl := (Option.some.inj heff).symm
    refine ⟨⟨rest,hsig⟩,hgood.2.2.2,rfl,?_⟩
    exact List.drop_left
  · cases heff

/-- Conversely, a covered amount with a signature the verifier takes goes through, provided the
account has the wallet procedures, room for the note's asset and room for two more notes. -/
theorem execute_consume_of (hK : K.Documented P) (hn : IsDebitNote P t key amount n) {x : TxInputs}
    (rest : List Felt) (hr : routesToConsume n x)
    (hsig : P.falconVerify t.userPk (debitMessageOf P t n x.noteArgs.e0)
      (Protocol.sigSource x.advMap (P.merge t.userPk (debitMessageOf P t n x.noteArgs.e0))
        x.advStack) = some rest)
    (hwallet : x.hasBasicWallet = true) (hroom : (x.vault key).e0.val + amount.val ≤ P.maxAmount)
    (hslots : x.outputNotes.length + 1 < P.maxOutputNotes) (hc : x.noteArgs.e0.val ≤ amount.val) :
    execute K n x = some { x.host n with
      vault := Protocol.passedThrough x.vault key
      outputNotes := x.outputNotes ++
        [P.p2idNote n.recipient.serialNum t.merchant key x.noteArgs.e0,
          P.remainderNote n.recipient key (amount - x.noteArgs.e0)] } := by
  rw [execute_eq hK t n x key amount hn.storage hn.assets,
    if_pos ((hn.routesToConsume_iff x).mp hr)]
  rw [hsig,Option.bind_some,
    Protocol.settleEffect_eq (x.host n) t key amount _ hn.fungible hn.assets hn.storage]
  exact if_pos ⟨hwallet,hroom,hslots,hc⟩

theorem execute_reclaim (hK : K.Documented P) (hn : IsDebitNote P t key amount n) {x : TxInputs}
    {h : Host} (hr : ¬routesToConsume n x) (hx : execute K n x = some h) :
    (∃ rest, P.falconVerify t.userPk (reclaimMessage P n.recipient.serialNum t.user) x.advStack =
      some rest) ∧
    h.vault = Protocol.passedThrough x.vault key ∧
    created x h = [P.p2idNote n.recipient.serialNum t.user key amount] := by
  rw [execute_eq hK t n x key amount hn.storage hn.assets,
    if_neg (fun hlt => hr ((hn.routesToConsume_iff x).mpr hlt))] at hx
  obtain ⟨rest,hsig,heff⟩ := Option.bind_eq_some_iff.mp hx
  rw [Protocol.reclaimEffect_eq (x.host n) t key amount hn.fungible hn.assets] at heff
  split at heff
  · obtain rfl := (Option.some.inj heff).symm
    refine ⟨⟨rest,hsig⟩,rfl,?_⟩
    exact List.drop_left
  · cases heff

end Executions

end MidenX402.AgentDebitNote
