import MidenX402.Facilitator.Binding
import MidenX402.Facilitator.Serialization
import MidenX402.Rust.Lines

/-!
# What an acknowledgement certifies

The facilitator signs a hash of the time, the new state and the nullifiers of a payment, written one
after the other.  The time takes eight bytes; where the state ends and the next nullifier begins is
not written down.
-/

namespace MidenX402.Facilitator
open Masm AgentDebitNote Disk Rust

/-- The bytes under the signature of an acknowledgement. -/
def AckResponse.bytes (ack : AckResponse) : List UInt8 :=
  ackBytes ack.acceptedAtUnixMicros ack.newPendingStateCommitment ack.reservedNullifiers

def AckResponse.message (M : Miden) (ack : AckResponse) : Word := M.hash ack.bytes

/-- The text of an acknowledgement after its time. -/
def ackText (newState : String) (nullifiers : List String) : List Char :=
  newState.toList ++ nullifiers.flatMap String.toList

/-- One text, cut into a state and nullifiers in two ways. -/
def Recut (newState newState' : String) (nullifiers nullifiers' : List String) : Prop :=
  ackText newState nullifiers = ackText newState' nullifiers' ∧
    ¬ (newState = newState' ∧ nullifiers = nullifiers')

instance (s s' : String) (ns ns' : List String) : Decidable (Recut s s' ns ns') :=
  inferInstanceAs (Decidable (_ ∧ _))

section Bytes
variable {m n : ℕ} {s s' : String} {ns ns' : List String}

/-- The last `k` digits are determined one by one. -/
theorem mod_pow_eq {b k : ℕ} (h : ∀ i < k, m / b ^ i % b = n / b ^ i % b) : m % b ^ k = n % b ^ k := by
  induction k with
  | zero => rw [pow_zero,Nat.mod_one,Nat.mod_one]
  | succ k ih =>
    rw [Nat.mod_pow_succ,Nat.mod_pow_succ,ih fun i hi => h i (Nat.lt_succ_of_lt hi),
      h k (Nat.lt_succ_self k)]

/-- `u64::to_be_bytes` forgets nothing. -/
theorem bigEndian_inj (hm : m < 2 ^ 64) (hn : n < 2 ^ 64)
    (h : (List.range 8).reverse.map (fun i => UInt8.ofNat (m / 256 ^ i)) =
      (List.range 8).reverse.map fun i => UInt8.ofNat (n / 256 ^ i)) : m = n := by
  have hbyte : ∀ i < 8, m / 256 ^ i % 256 = n / 256 ^ i % 256 := by
    intro i hi
    have hi' := List.map_inj_left.mp h i (List.mem_reverse.mpr (List.mem_range.mpr hi))
    simpa [← UInt8.toNat_inj] using hi'
  have hmod := mod_pow_eq hbyte
  have hpow : (2 : ℕ) ^ 64 = 256 ^ 8 := rfl
  rw [hpow] at hm hn
  rwa [Nat.mod_eq_of_lt hm,Nat.mod_eq_of_lt hn] at hmod

theorem ackBytes_eq (n : ℕ) (s : String) (ns : List String) :
    ackBytes n s ns = (List.range 8).reverse.map (fun i => UInt8.ofNat (n / 256 ^ i)) ++
      asBytes (ackText s ns) := by
  have htexts : (ns.flatMap fun n => n.toUTF8.toList) = asBytes (ns.flatMap String.toList) := by
    induction ns with
    | nil => rfl
    | cons n ns ih => simpa using ih
  rw [ackBytes,htexts]
  simp [ackText]

/-- The bytes determine the time and the text, and nothing more. -/
theorem ackBytes_inj_iff (hm : m < 2 ^ 64) (hn : n < 2 ^ 64) :
    ackBytes m s ns = ackBytes n s' ns' ↔ m = n ∧ ackText s ns = ackText s' ns' := by
  rw [ackBytes_eq,ackBytes_eq]
  constructor
  · intro h
    obtain ⟨htime,htext⟩ := List.append_inj h (by simp)
    exact ⟨bigEndian_inj hm hn htime,asBytes_inj.mp htext⟩
  · rintro ⟨rfl,htext⟩
    rw [htext]

end Bytes

section Acks
variable {M : Miden} {store store' : FilesystemX402Store} {a a' : String}
  {payload payload' : AgenticPayload} {now now' : ℕ} {fs fs' : Files} {ack ack' : AckResponse}

/-- What an acknowledgement says and what is signed. -/
theorem postPayment_signed (h : (postPayment M store a payload now fs).result = .ok ack) :
    ack.acceptedAtUnixMicros = now ∧ ack.newPendingStateCommitment = payload.newStateCommitment ∧
    ack.reservedNullifiers = payloadNullifiers M payload ∧
    M.signWordHex (ack.message M) = .ok ack.facilitatorAckSignature := by
  have hexec := (Prog.exec_eq_ok_iff _ _ _ _).mpr ⟨h,rfl⟩
  obtain ⟨⟨pending,nullifiers⟩,fs0,hread,hexec⟩ := Prog.exec_bind_eq_ok hexec
  obtain ⟨_,fs1,-,hexec⟩ := Prog.exec_bind_eq_ok hexec
  obtain ⟨_,fs2,-,hexec⟩ := Prog.exec_bind_eq_ok hexec
  obtain ⟨_,fs3,-,hexec⟩ := Prog.exec_bind_eq_ok hexec
  obtain ⟨signature,fs4,hsign,hexec⟩ := Prog.exec_bind_eq_ok hexec
  rw [Prog.exec_pure] at hexec
  obtain rfl := (Prod.mk.inj (Except.ok.inj hexec)).1
  obtain ⟨_,_,_,-,-,-,hcheck,-,-⟩ := accept_eq_ok_iff.mp (Prog.exec_read_eq_ok hread).1
  exact ⟨rfl,rfl,checkPayload_nullifiers hcheck,mapError_eq_ok.mp (Prog.exec_read_eq_ok hsign).1⟩

/-- Of two acknowledged payments: their acknowledgements are of one message only if they agree in
time, state and nullifiers, exactly when the payments were not accepted in the same microsecond with
one text cut in two ways. -/
theorem ack_message_inj_iff (hnow : now < 2 ^ 64) (hnow' : now' < 2 ^ 64)
    (h : (postPayment M store a payload now fs).result = .ok ack)
    (h' : (postPayment M store' a' payload' now' fs').result = .ok ack')
    (hhash : Set.InjOn M.hash {ack.bytes,ack'.bytes}) :
    M.signWordHex (ack.message M) = .ok ack.facilitatorAckSignature ∧
    M.signWordHex (ack'.message M) = .ok ack'.facilitatorAckSignature ∧
    ((ack.message M = ack'.message M → ack.acceptedAtUnixMicros = ack'.acceptedAtUnixMicros ∧
        ack.newPendingStateCommitment = ack'.newPendingStateCommitment ∧
        ack.reservedNullifiers = ack'.reservedNullifiers) ↔
      ¬ (now = now' ∧ Recut payload.newStateCommitment payload'.newStateCommitment
        (payloadNullifiers M payload) (payloadNullifiers M payload'))) := by
  obtain ⟨htime,hstate,hnullifiers,hsign⟩ := postPayment_signed h
  obtain ⟨htime',hstate',hnullifiers',hsign'⟩ := postPayment_signed h'
  have hmessage : ack.message M = ack'.message M ↔ now = now' ∧
      ackText payload.newStateCommitment (payloadNullifiers M payload) =
        ackText payload'.newStateCommitment (payloadNullifiers M payload') := by
    rw [AckResponse.message,AckResponse.message,hhash.eq_iff (by simp) (by simp),AckResponse.bytes,
      AckResponse.bytes,htime,hstate,hnullifiers,htime',hstate',hnullifiers']
    exact ackBytes_inj_iff hnow hnow'
  refine ⟨hsign,hsign',?_⟩
  rw [hmessage,htime,hstate,hnullifiers,htime',hstate',hnullifiers',Recut]
  constructor
  · rintro hsame ⟨hnow,htext,hne⟩
    exact hne (hsame ⟨hnow,htext⟩).2
  · rintro hnot ⟨hnow,htext⟩
    by_contra hne
    exact hnot ⟨hnow,htext,fun heq => hne ⟨hnow,heq⟩⟩

end Acks

/-- A hash that tells texts of different lengths apart. -/
def lengthMiden : Miden :=
  { sampleMiden with hash := fun bytes =>
      if bytes = [] then .ofNats 4 4 4 4 else .ofNats 0 0 0 bytes.length }

def firstAck : AckResponse := ⟨7,"0xs1",["0x01"],1,"0xack"⟩

theorem ack_message_inj_sample :
    (firstAck.message lengthMiden = AckResponse.message lengthMiden ⟨7,"0xs1",["0x0123"],1,"0xack"⟩ →
      firstAck.reservedNullifiers = ["0x0123"]) ∧
    firstAck.message lengthMiden ≠ AckResponse.message lengthMiden ⟨7,"0xs1",["0x0123"],1,"0xack"⟩ := by
  have h : (postPayment lengthMiden sampleStore "a" (samplePayload "0xs0" "0xs1" ["0x01"]) 7
      registeredFiles).result = .ok firstAck := by decide +kernel
  have h' : (postPayment lengthMiden sampleStore "a" (samplePayload "0xs0" "0xs1" ["0x0123"]) 7
      registeredFiles).result = .ok ⟨7,"0xs1",["0x0123"],1,"0xack"⟩ := by decide +kernel
  have hinj := (ack_message_inj_iff (by decide) (by decide) h h'
    (Set.injOn_pair.mpr fun heq => absurd heq (by decide +kernel))).2.2
  have hsame := hinj.mpr (by decide +kernel)
  refine ⟨fun heq => (hsame heq).2.2,?_⟩
  intro heq
  exact absurd (hsame heq).2.2 (by decide)

/-- The payments of two agents in the same microsecond, one character moved from the nullifier of the
first to the state of the second: one message, whatever the hash. -/
theorem ack_message_recut : ∃ ack,
    (postPayment sampleMiden sampleStore "a" (samplePayload "0xs0" "0xs1" ["0x01"]) 7
      neighbours).result = .ok firstAck ∧
    (postPayment sampleMiden sampleStore "b" (samplePayload "0xs0" "0xs10" ["x01"]) 7
      ((postPayment sampleMiden sampleStore "a" (samplePayload "0xs0" "0xs1" ["0x01"]) 7
        neighbours).last neighbours)).result = .ok ack ∧
    (∀ hash : List UInt8 → Word, hash firstAck.bytes = hash ack.bytes) ∧
    firstAck.newPendingStateCommitment ≠ ack.newPendingStateCommitment ∧
    firstAck.reservedNullifiers ≠ ack.reservedNullifiers := by
  refine ⟨⟨7,"0xs10",["x01"],1,"0xack"⟩,by decide +kernel,by decide +kernel,?_,by decide,by decide⟩
  have hbytes : firstAck.bytes = AckResponse.bytes ⟨7,"0xs10",["x01"],1,"0xack"⟩ :=
    (ackBytes_inj_iff (by decide) (by decide)).mpr (by decide)
  intro hash
  rw [hbytes]

end MidenX402.Facilitator
