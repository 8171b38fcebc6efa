import MidenX402.AdnServices.Facilitator
import MidenX402.AdnServices.Reference

/-!
# What a settlement response reports

The scan reports the first note with two items and the first with nine in the order in which the
client lists its notes.  A response describes its own transaction as long as no note of an earlier
transaction comes first, and as long as the amount of the request is a field element.
-/

namespace MidenX402.AdnServices
open Masm AgentDebitNote Rust

/-- The listing shows the note with its inclusion proof and `k` storage items. -/
def OutputNoteRecord.shows {Proof : Type} (k : ℕ) (r : OutputNoteRecord Proof) : Bool :=
  r.inclusionProof.isSome && (r.note.details.any fun d => d.storage.length = k)

section Scan
variable {F E : Falcon} {C : Codec F E}

/-- The hex string a record is reported with. -/
def OutputNoteRecord.fileHex (r : OutputNoteRecord C.Proof) : Option String :=
  r.intoNoteFile.map fun nf => C.hexEncode (C.noteFileBytes nf)

def OutputNoteRecord.serial {Proof : Type} (r : OutputNoteRecord Proof) : Option SerialStrings :=
  r.note.details.map fun d => formatSerialNum d.serialNum

/-- The remainder's file and its serial number are found together. -/
def Found.Coupled (f : Found) : Prop := f.newSerial.isSome = f.remainderHex.isSome

theorem Found.see_eq (hC : C.RoundTrips) (f : Found) (hf : f.Coupled) (r : OutputNoteRecord C.Proof) :
    f.see C r =
      ⟨f.p2idHex.or (if r.shows 2 then r.fileHex else none),
        f.remainderHex.or (if r.shows 9 then r.fileHex else none),
        f.newSerial.or (if r.shows 9 then r.serial else none)⟩ := by
  obtain ⟨⟨digest,details,tag,noteType,assets⟩,proof⟩ := r
  obtain ⟨p2id,remainder,serial⟩ := f
  cases proof with
  | none => simp [Found.see,OutputNoteRecord.intoNoteFile,OutputNoteRecord.shows]
  | some p =>
    cases details with
    | none => simp [Found.see,OutputNoteRecord.intoNoteFile,OutputNoteRecord.shows,OutputNote.toNote]
    | some d =>
      simp only [Found.see,OutputNoteRecord.intoNoteFile,OutputNoteRecord.shows,OutputNote.toNote,
        OutputNoteRecord.fileHex,OutputNoteRecord.serial,Option.bind_some,Option.map_some,hC.noteFile,
        Option.isSome_some,Option.any_some,Bool.true_and,decide_eq_true_eq]
      by_cases h2 : d.storage.length = 2
      · cases p2id <;> simp [h2]
      · by_cases h9 : d.storage.length = 9
        · cases remainder with
          | none =>
            have hs : serial = none := by simpa [Found.Coupled] using hf
            simp [h9,hs]
          | some rem =>
            obtain ⟨s,hs⟩ := Option.isSome_iff_exists.mp (by simpa [Found.Coupled] using hf)
            simp [h9,hs]
        · simp [h2,h9]

theorem Found.see_coupled (hC : C.RoundTrips) {f : Found} (hf : f.Coupled)
    (r : OutputNoteRecord C.Proof) : (f.see C r).Coupled := by
  rw [Found.see_eq hC f hf]
  obtain ⟨⟨digest,details,tag,noteType,assets⟩,proof⟩ := r
  simp only [Found.Coupled] at hf ⊢
  cases proof <;> cases details <;>
    simp [OutputNoteRecord.shows,OutputNoteRecord.fileHex,OutputNoteRecord.serial,
      OutputNoteRecord.intoNoteFile,OutputNote.toNote,hf]
  split <;> simp

theorem OutputNoteRecord.fileHex_isSome {k : ℕ} {r : OutputNoteRecord C.Proof}
    (h : r.shows k = true) : r.fileHex.isSome := by
  obtain ⟨⟨digest,details,tag,noteType,assets⟩,proof⟩ := r
  cases proof <;> cases details <;>
    simp [OutputNoteRecord.shows,OutputNoteRecord.fileHex,OutputNoteRecord.intoNoteFile,
      OutputNote.toNote] at h ⊢

theorem OutputNoteRecord.serial_isSome {Proof : Type} {k : ℕ} {r : OutputNoteRecord Proof}
    (h : r.shows k = true) : r.serial.isSome := by
  obtain ⟨⟨digest,details,tag,noteType,assets⟩,proof⟩ := r
  cases details <;> simp [OutputNoteRecord.shows,OutputNoteRecord.serial] at h ⊢

/-- Looking at one record and then at the rest finds what the whole listing shows first. -/
theorem or_find_shows {Proof β : Type} (k : ℕ) (g : OutputNoteRecord Proof → Option β)
    (r : OutputNoteRecord Proof) (hg : r.shows k = true → (g r).isSome)
    (rest : List (OutputNoteRecord Proof)) :
    (if r.shows k then g r else none).or ((rest.find? (·.shows k)).bind g) =
      ((r :: rest).find? (·.shows k)).bind g := by
  rw [List.find?_cons]
  cases hk : r.shows k with
  | false => simp
  | true =>
    obtain ⟨b,hb⟩ := Option.isSome_iff_exists.mp (hg hk)
    simp [hb]

theorem Found.foldl_see (hC : C.RoundTrips) (listing : List (OutputNoteRecord C.Proof)) (f : Found)
    (hf : f.Coupled) : listing.foldl (Found.see C) f =
      ⟨f.p2idHex.or ((listing.find? (·.shows 2)).bind (·.fileHex)),
        f.remainderHex.or ((listing.find? (·.shows 9)).bind (·.fileHex)),
        f.newSerial.or ((listing.find? (·.shows 9)).bind (·.serial))⟩ ∧
      (listing.foldl (Found.see C) f).Coupled := by
  induction listing generalizing f with
  | nil => simpa using hf
  | cons r rest ih =>
    obtain ⟨heq,hcoupled⟩ := ih (f.see C r) (Found.see_coupled hC hf r)
    refine ⟨?_,hcoupled⟩
    rw [List.foldl_cons,heq,Found.see_eq hC f hf]
    simp only [Option.or_assoc]
    rw [or_find_shows 2 _ r OutputNoteRecord.fileHex_isSome,
      or_find_shows 9 _ r OutputNoteRecord.fileHex_isSome,
      or_find_shows 9 _ r OutputNoteRecord.serial_isSome]

/-- Whatever was found is the file of the one note or of the other. -/
structure Found.Reports (C : Codec F E) (p2id rem : Note) (f : Found) : Prop where
  p2idHex : ∀ hex, f.p2idHex = some hex → ∃ p, hex = noteFileHex C p2id p
  remainderHex : ∀ hex, f.remainderHex = some hex → ∃ p, hex = noteFileHex C rem p
  newSerial : ∀ s, f.newSerial = some s → s = formatSerialNum rem.recipient.serialNum

theorem OutputNoteRecord.fileHex_eq {r : OutputNoteRecord C.Proof} {n : Note} {hex : String}
    (hn : r.note.toNote = some n) (h : r.fileHex = some hex) : ∃ p, hex = noteFileHex C n p := by
  obtain ⟨o,proof⟩ := r
  cases proof with
  | none => simp [OutputNoteRecord.fileHex,OutputNoteRecord.intoNoteFile] at h
  | some p =>
    refine ⟨p,?_⟩
    simpa [OutputNoteRecord.fileHex,OutputNoteRecord.intoNoteFile,hn,noteFileHex,eq_comm] using h

theorem OutputNoteRecord.serial_eq {Proof : Type} {r : OutputNoteRecord Proof} {n : Note}
    {s : SerialStrings} (hn : r.note.toNote = some n) (h : r.serial = some s) :
    s = formatSerialNum n.recipient.serialNum := by
  obtain ⟨d,hd,rfl⟩ := Option.map_eq_some_iff.mp hn
  simpa [OutputNoteRecord.serial,hd,eq_comm] using h

/-- A listing that shows the two notes first adds nothing else to what was found. -/
theorem Found.Reports.foldl_see (hC : C.RoundTrips) {p2id rem : Note} {f : Found} (hf : f.Coupled)
    (hr : f.Reports C p2id rem) {listing : List (OutputNoteRecord C.Proof)}
    (h2 : ∀ r, listing.find? (·.shows 2) = some r → r.note.toNote = some p2id)
    (h9 : ∀ r, listing.find? (·.shows 9) = some r → r.note.toNote = some rem) :
    (listing.foldl (Found.see C) f).Reports C p2id rem := by
  rw [(Found.foldl_see hC listing f hf).1]
  refine ⟨?_,?_,?_⟩
  · intro hex h
    rcases Option.or_eq_some_iff.mp h with h | ⟨-,h⟩
    · exact hr.p2idHex hex h
    · obtain ⟨r,hfind,hfile⟩ := Option.bind_eq_some_iff.mp h
      exact OutputNoteRecord.fileHex_eq (h2 r hfind) hfile
  · intro hex h
    rcases Option.or_eq_some_iff.mp h with h | ⟨-,h⟩
    · exact hr.remainderHex hex h
    · obtain ⟨r,hfind,hfile⟩ := Option.bind_eq_some_iff.mp h
      exact OutputNoteRecord.fileHex_eq (h9 r hfind) hfile
  · intro s h
    rcases Option.or_eq_some_iff.mp h with h | ⟨-,h⟩
    · exact hr.newSerial s h
    · obtain ⟨r,hfind,hserial⟩ := Option.bind_eq_some_iff.mp h
      exact OutputNoteRecord.serial_eq (h9 r hfind) hserial

theorem awaitOutputNotes_reports (hC : C.RoundTrips) {p2id rem : Note} {spent : Bool}
    {polls : List (Option (List (OutputNoteRecord C.Proof)))} {f found : Found} (hf : f.Coupled)
    (hr : f.Reports C p2id rem)
    (h2 : ∀ l, some l ∈ polls → ∀ r, l.find? (·.shows 2) = some r → r.note.toNote = some p2id)
    (h9 : ∀ l, some l ∈ polls → ∀ r, l.find? (·.shows 9) = some r → r.note.toNote = some rem)
    (h : awaitOutputNotes C spent f polls = .ok found) : found.Reports C p2id rem := by
  induction polls generalizing f with
  | nil => exact Except.ok.inj h ▸ hr
  | cons poll rest ih =>
    cases poll with
    | none => cases h
    | some l =>
      have hnext : (l.foldl (Found.see C) f).Reports C p2id rem :=
        hr.foldl_see hC hf (h2 l List.mem_cons_self) (h9 l List.mem_cons_self)
      simp only [awaitOutputNotes] at h
      split at h
      · exact Except.ok.inj h ▸ hnext
      · split at h
        · exact Except.ok.inj h ▸ hnext
        · exact ih (Found.foldl_see hC l f hf).2 hnext (fun l hl => h2 l (List.mem_cons_of_mem _ hl))
            (fun l hl => h9 l (List.mem_cons_of_mem _ hl)) h

end Scan

section Settle
variable {P : Protocol} {K : Kernel} {F E : Falcon} {C : Codec F E}
  {exec : Note → TxInputs → Option Host}

/-- Notes with the script root `root` are executed by the script of this repository. -/
def RunsScript (K : Kernel) (root : Word) (exec : Note → TxInputs → Option Host) : Prop :=
  ∀ n x, n.recipient.scriptRoot = root → exec n x = execute K n x

theorem runsScript_execute (K : Kernel) (root : Word) : RunsScript K root (execute K) := by
  intro n x _
  rfl

/-- The verifier takes the signature from the advice stack. -/
def NeedsSignature (P : Protocol) : Prop := ∀ pk msg, P.falconVerify pk msg [] = none

theorem consumeRequest_noteArgs {id : AccountId} {serial : SerialStrings} {c : UInt64}
    {sk : AuthSecretKey F E} {r : ConsumeRequest} (h : consumeRequest P id serial c sk = some r) :
    r.noteArgs = ⟨Felt.new c,0,0,0⟩ := by
  cases sk <;>
  · obtain ⟨s,-,hr⟩ := Option.bind_eq_some_iff.mp h
    exact (Option.some.inj hr) ▸ rfl

theorem Stop.unwrap_eq_ok {β : Type} {x : Option β} {b : β} :
    Stop.unwrap x = .ok b ↔ x = some b := by
  cases x <;> simp [Stop.unwrap]

theorem prepareSettle_eq_ok {cl : Client C.Proof} {req : SettleRequest} {n : Note}
    {r : ConsumeRequest} (h : prepareSettle P C cl req = .ok (n,r)) :
    decodeNoteFile C req.noteFileHex = .ok n ∧ r.noteArgs = ⟨Felt.new req.cumulativeAmount,0,0,0⟩ := by
  obtain ⟨n',hn,h⟩ := except_bind_eq_ok h
  obtain ⟨_,-,h⟩ := except_bind_eq_ok h
  obtain ⟨_,-,h⟩ := except_bind_eq_ok h
  obtain ⟨_,-,h⟩ := except_bind_eq_ok h
  obtain ⟨_,-,h⟩ := except_bind_eq_ok h
  obtain ⟨_,-,h⟩ := except_bind_eq_ok h
  obtain ⟨r',hr,h⟩ := except_bind_eq_ok h
  obtain ⟨rfl,rfl⟩ := Prod.mk.inj (Except.ok.inj h)
  exact ⟨mapError_eq_ok.mp hn,consumeRequest_noteArgs (Stop.unwrap_eq_ok.mp hr)⟩

/-- What is known of a request that was answered with success. -/
theorem processSettle_eq_ok {cl : Client C.Proof} {req : SettleRequest} {resp : SettleResponse}
    {outputs : List OutputNote} (h : processSettle P C exec cl req = .ok (resp,outputs)) :
    ∃ n r host txId found, decodeNoteFile C req.noteFileHex = .ok n ∧
      r.noteArgs = ⟨Felt.new req.cumulativeAmount,0,0,0⟩ ∧
      exec n (cl.txInputs.withRequest r) = some host ∧ outputs = created cl.txInputs host ∧
      awaitOutputNotes C (noteBalance P n = req.cumulativeAmount) .nothing
        ((List.range 60).map cl.outputNotes) = .ok found ∧
      resp = ⟨true,txId,req.cumulativeAmount,
        saturatingSub (noteBalance P n) req.cumulativeAmount,found.p2idHex,found.remainderHex,
        found.newSerial,none⟩ := by
  obtain ⟨⟨n,r⟩,hprep,h⟩ := except_bind_eq_ok h
  obtain ⟨⟨txId,outputs'⟩,hsub,h⟩ := except_bind_eq_ok h
  obtain ⟨found,hfound,h⟩ := except_bind_eq_ok h
  obtain ⟨rfl,rfl⟩ := Prod.mk.inj (Except.ok.inj h)
  obtain ⟨hn,hargs⟩ := prepareSettle_eq_ok hprep
  have hsub' := mapError_eq_ok.mp hsub
  rw [submitNewTransaction] at hsub'
  cases hx : exec n (cl.txInputs.withRequest r) with
  | none => simp [hx] at hsub'
  | some host =>
    rw [hx] at hsub'
    cases hs : cl.submitted with
    | error e => simp [hs,Except.map] at hsub'
    | ok txId' =>
      simp only [hs,Except.map,Except.ok.injEq,Prod.mk.injEq] at hsub'
      exact ⟨n,r,host,txId,found,hn,hargs,hx,hsub'.2.symm,hfound,rfl⟩

/-- A settlement of a debit note takes the consume path and creates its two notes. -/
theorem created_of_settle (hK : K.Documented P) (hsig : NeedsSignature P) {t : Terms} {key : Word}
    {amount : Felt} {n : Note} (hn : IsDebitNote P t key amount n) {cl : Client C.Proof}
    {r : ConsumeRequest} {host : Host}
    (hx : execute K n (cl.txInputs.withRequest r) = some host) :
    r.noteArgs.e0.val ≤ amount.val ∧
    created cl.txInputs host = [P.p2idNote n.recipient.serialNum t.merchant key r.noteArgs.e0,
      P.remainderNote n.recipient key (amount - r.noteArgs.e0)] := by
  by_cases hr : routesToConsume n (cl.txInputs.withRequest r)
  · obtain ⟨-,hle,-,hc⟩ := execute_consume hK hn hr hx
    exact ⟨hle,hc⟩
  · obtain ⟨⟨rest,hv⟩,-⟩ := execute_reclaim hK hn hr hx
    have hnone := hsig t.userPk (reclaimMessage P n.recipient.serialNum t.user)
    rw [show (cl.txInputs.withRequest r).advStack = [] from rfl,hnone] at hv
    cases hv

/-- The response tells of the transaction on `n` that created the notes `p2id` and `rem`. -/
structure SettleResponse.Describes (C : Codec F E) (n p2id rem : Note) (balance : ℕ)
    (resp : SettleResponse) : Prop where
  p2idNoteFile : ∀ hex, resp.p2idNoteFileHex = some hex → ∃ p, hex = noteFileHex C p2id p
  remainderNoteFile : ∀ hex, resp.remainderNoteFileHex = some hex → ∃ p, hex = noteFileHex C rem p
  newSerialNum : ∀ s, resp.newSerialNum = some s →
    s = formatSerialNum (remainderSerial n.recipient.serialNum)
  settledAmount : (p2id.assets.map fun a => a.value.e0.val).sum = resp.settledAmount.toNat
  remainderBalance : resp.settledAmount.toNat + resp.remainderBalance.toNat = balance

theorem toNat_saturatingSub {a b : UInt64} (h : b.toNat ≤ a.toNat) :
    b.toNat + (saturatingSub a b).toNat = a.toNat := by
  have hle : b ≤ a := UInt64.le_iff_toNat_le.mpr h
  rw [saturatingSub,if_pos hle,UInt64.toNat_sub_of_le _ _ hle]
  omega

/-- The two notes a settlement of `c` out of `n` creates. -/
def p2idOf (P : Protocol) (t : Terms) (key : Word) (n : Note) (c : UInt64) : Note :=
  ⟨P.p2idRecipient (p2idSerial n.recipient.serialNum) t.merchant.suffixFelt t.merchant.prefixFelt,
    [⟨key,fungibleValue (Felt.new c)⟩],notePublic⟩

def remainderOf (key : Word) (amount : Felt) (n : Note) (c : UInt64) : Note :=
  ⟨⟨remainderSerial n.recipient.serialNum,n.recipient.scriptRoot,n.recipient.storage⟩,
    [⟨key,fungibleValue (amount - Felt.new c)⟩],notePublic⟩

/-- The client lists the notes of its store, in any order and with any proofs, and `own` are those
of the transaction in hand. -/
def ListsStore (store own : List OutputNote) (cl : Client C.Proof) : Prop :=
  ∀ i l, cl.outputNotes i = some l → (l.map (·.note)).Perm (store ++ own)

/-- No listing shows a note stored earlier before the notes of its size the transaction created. -/
def ShowsOwnFirst (store : List OutputNote) (cl : Client C.Proof) : Prop :=
  ∀ i l, cl.outputNotes i = some l → ∀ k r, k = 2 ∨ k = 9 → l.find? (·.shows k) = some r →
    r.note ∉ store

theorem shows_of_find {k : ℕ} {l : List (OutputNoteRecord C.Proof)} {r : OutputNoteRecord C.Proof}
    (h : l.find? (·.shows k) = some r) : ∃ d, r.note.details = some d ∧ d.storage.length = k := by
  have hs := List.find?_some h
  simp only [OutputNoteRecord.shows,Bool.and_eq_true,Option.any_eq_true,decide_eq_true_eq] at hs
  obtain ⟨-,d,hd,hk⟩ := hs
  exact ⟨d,hd,hk⟩

theorem processSettle_describes (hK : K.Documented P) (hC : C.RoundTrips) {root : Word}
    (hexec : RunsScript K root exec) (hsig : NeedsSignature P) {t : Terms} {key : Word}
    {amount : Felt} {n : Note} (hn : IsDebitNote P t key amount n)
    (hroot : n.recipient.scriptRoot = root) {store outputs : List OutputNote} {cl : Client C.Proof}
    {req : SettleRequest} {resp : SettleResponse} (hnote : decodeNoteFile C req.noteFileHex = .ok n)
    (hok : processSettle P C exec cl req = .ok (resp,outputs)) (hlist : ListsStore store outputs cl)
    (hsmall : req.cumulativeAmount.toNat < fieldOrder) (hfirst : ShowsOwnFirst store cl) :
    outputs.map OutputNote.toNote = [some (p2idOf P t key n req.cumulativeAmount),
      some (remainderOf key amount n req.cumulativeAmount)] ∧
    resp.Describes C n (p2idOf P t key n req.cumulativeAmount)
      (remainderOf key amount n req.cumulativeAmount) amount.val := by
  obtain ⟨n',r,host,txId,found,hn',hargs,hx,rfl,hfound,rfl⟩ := processSettle_eq_ok hok
  obtain rfl : n' = n := Except.ok.inj (hn'.symm.trans hnote)
  rw [hexec _ _ hroot] at hx
  obtain ⟨hle,hcreated⟩ := created_of_settle hK hsig hn hx
  rw [hargs] at hle hcreated
  rw [hcreated] at hlist ⊢
  -- the first note with two or nine items is not an earlier one, so it is one of the two
  have hown : ∀ l k r, some l ∈ (List.range 60).map cl.outputNotes → k = 2 ∨ k = 9 →
      l.find? (·.shows k) = some r →
      r.note = P.p2idNote n'.recipient.serialNum t.merchant key (Felt.new req.cumulativeAmount) ∨
      r.note = P.remainderNote n'.recipient key (amount - Felt.new req.cumulativeAmount) := by
    intro l k r hl hk hfind
    obtain ⟨i,-,hi⟩ := List.mem_map.mp hl
    have hmem : r.note ∈ l.map (·.note) := List.mem_map_of_mem (List.mem_of_find?_eq_some hfind)
    have hstore := (hlist i l hi).mem_iff.mp hmem
    rcases List.mem_append.mp hstore with hold | hnew
    · exact absurd hold (hfirst i l hi k r hk hfind)
    · simpa using hnew
  have hst : n'.recipient.storage.length = 9 := by rw [hn.storage]; rfl
  have hreports : found.Reports C (p2idOf P t key n' req.cumulativeAmount)
      (remainderOf key amount n' req.cumulativeAmount) := by
    apply awaitOutputNotes_reports hC (by rfl) ⟨by simp [Found.nothing],by simp [Found.nothing],
      by simp [Found.nothing]⟩ _ _ hfound
    · intro l hl r hfind
      obtain ⟨d,hd,hlen⟩ := shows_of_find hfind
      rcases hown l 2 r hl (Or.inl rfl) hfind with hr | hr
      · rw [hr]; rfl
      · rw [hr] at hd
        obtain rfl := Option.some.inj hd
        simp [hst] at hlen
    · intro l hl r hfind
      obtain ⟨d,hd,hlen⟩ := shows_of_find hfind
      rcases hown l 9 r hl (Or.inr rfl) hfind with hr | hr
      · rw [hr] at hd
        obtain rfl := Option.some.inj hd
        simp [Protocol.p2idRecipient] at hlen
      · rw [hr]; rfl
  have hbalance := noteBalance_of_isDebitNote hn
  have hval := Felt.val_new hsmall
  refine ⟨rfl,hreports.p2idHex,hreports.remainderHex,hreports.newSerial,?_,?_⟩
  · simpa [p2idOf,fungibleValue] using hval
  · rw [← hbalance]
    apply toNat_saturatingSub
    rw [hbalance,← hval]
    exact hle

/-- The client lets a settlement of a note through: it is in sync, it sees the note authenticated
and before its reclaim height, its account is a wallet with room for the asset, and the network
takes the transaction. -/
structure Client.Ready {Proof : Type} (P : Protocol) (key : Word) (balance reclaimBlock : Felt)
    (cl : Client Proof) : Prop where
  syncState : cl.syncState = some ()
  authenticated : awaitAuthentication ((List.range 60).map cl.authenticated) = .ok ()
  beforeReclaim : cl.blockNumber.toNat < reclaimBlock.val
  hasBasicWallet : cl.hasBasicWallet = true
  room : (cl.vault key).e0.val + balance.val ≤ P.maxAmount
  submitted : ∃ txId, cl.submitted = .ok txId

/-- The response to a settlement of `c` out of a note, with what the scan has found. -/
def SettleResponse.settled (txId : String) (balance c : UInt64) (found : Found) : SettleResponse :=
  ⟨true,txId,c,saturatingSub balance c,found.p2idHex,found.remainderHex,found.newSerial,none⟩

/-- A request for a covered amount, with the key and the serial number of the note, is settled. -/
theorem processSettle_of_ready (hK : K.Documented P) (hs : F.SignsCorrectly)
    (hm : F.MatchesProcedure P) {root : Word} (hexec : RunsScript K root exec)
    (hslots : 1 < P.maxOutputNotes) {t : Terms} {key : Word} {balance : Felt} {n : Note}
    (hn : IsDebitNote P t key balance n) (hroot : n.recipient.scriptRoot = root) (sk : F.SecretKey)
    (hpk : t.userPk = F.toCommitment (F.publicKey sk)) (req : SettleRequest)
    (hnote : decodeNoteFile C req.noteFileHex = .ok n)
    (hid : C.accountIdFromHex req.merchantIdHex = .ok t.merchant)
    (hserial : req.serialNum = formatSerialNum n.recipient.serialNum)
    (hkey : decodeSecretKey C req.agentSkHex = .ok (.falcon512Poseidon2 sk))
    (hc : req.cumulativeAmount.toNat ≤ balance.val) {cl : Client C.Proof}
    (hcl : cl.Ready P key balance t.reclaimBlock) :
    ∃ txId x, routesToConsume n x ∧ x.noteArgs.e0 = Felt.new req.cumulativeAmount ∧
      (∃ h, execute K n x = some h ∧
        created x h = [P.p2idNote n.recipient.serialNum t.merchant key (Felt.new req.cumulativeAmount),
          P.remainderNote n.recipient key (balance - Felt.new req.cumulativeAmount)]) ∧
      processSettle P C exec cl req =
        (awaitOutputNotes C (noteBalance P n = req.cumulativeAmount) .nothing
          ((List.range 60).map cl.outputNotes)).map fun found =>
          (.settled txId (noteBalance P n) req.cumulativeAmount found,
            [P.p2idNote n.recipient.serialNum t.merchant key (Felt.new req.cumulativeAmount),
              P.remainderNote n.recipient key (balance - Felt.new req.cumulativeAmount)]) := by
  obtain ⟨txId,htx⟩ := hcl.submitted
  have hrecipient : n.recipient = ⟨n.recipient.serialNum,n.recipient.scriptRoot,
      storageItems (F.toCommitment (F.publicKey sk)) t.merchant t.user t.reclaimBlock⟩ := by
    rw [← hpk]
    exact congrArg (Recipient.mk n.recipient.serialNum n.recipient.scriptRoot) hn.storage
  obtain ⟨r,hr,⟨m,-,-,hargs,-⟩,hx,-⟩ := processSettle_agrees hK hs hm sk hrecipient hn.fungible
    hn.assets hc (x := cl.txInputs) hcl.beforeReclaim hcl.hasBasicWallet hcl.room
    (by simpa [Client.txInputs] using hslots)
  refine ⟨txId,cl.txInputs.withRequest r,(hn.routesToConsume_iff _).mpr hcl.beforeReclaim,
    congrArg Word.e0 hargs,⟨_,hx,rfl⟩,?_⟩
  have hconsume : consumeRequest P t.merchant (formatSerialNum n.recipient.serialNum)
      req.cumulativeAmount (.falcon512Poseidon2 sk : AuthSecretKey F E) = some r := hr
  have hprep : prepareSettle P C cl req = .ok (n,r) := by
    simp only [prepareSettle,hnote,hcl.syncState,hcl.authenticated,hid,hkey,hconsume,
      hserial,parseSerialNum_formatSerialNum,Stop.unwrap,mapError_ok,bind,Except.bind]
    rfl
  have hsub : submitNewTransaction C exec cl n r = .ok (txId,
      [P.p2idNote n.recipient.serialNum t.merchant key (Felt.new req.cumulativeAmount),
        P.remainderNote n.recipient key (balance - Felt.new req.cumulativeAmount)]) := by
    rw [submitNewTransaction,hexec _ _ hroot,hx]
    simp only [htx,Except.map]
    rfl
  simp only [processSettle,hprep,hsub,mapError_ok,bind,Except.bind]
  cases awaitOutputNotes C (noteBalance P n = req.cumulativeAmount) .nothing
      ((List.range 60).map cl.outputNotes) with
  | error e => rfl
  | ok found => rfl

theorem awaitOutputNotes_of_shown (hC : C.RoundTrips) {cl : Client C.Proof} {spent : Bool}
    {l : List (OutputNoteRecord C.Proof)} {p r : OutputNoteRecord C.Proof}
    (hl : cl.outputNotes 0 = some l) (h2 : l.find? (·.shows 2) = some p)
    (h9 : l.find? (·.shows 9) = some r) :
    awaitOutputNotes C spent .nothing ((List.range 60).map cl.outputNotes) =
      .ok ⟨p.fileHex,r.fileHex,r.serial⟩ := by
  have hfound := (Found.foldl_see hC l .nothing rfl).1
  simp only [h2,h9,Found.nothing,Option.none_or,Option.bind_some] at hfound
  have hp := OutputNoteRecord.fileHex_isSome (List.find?_some h2)
  have hr := OutputNoteRecord.fileHex_isSome (List.find?_some h9)
  rw [show List.range 60 = 0 :: (List.range 59).map Nat.succ from List.range_succ_eq_map,
    List.map_cons,hl]
  simp only [awaitOutputNotes,Found.nothing,hfound,hp,hr,and_self,if_true]

/-- The worker serves the request in the state `v` during the run. -/
def Worker.ServesIn (P : Protocol) (C : Codec F E) (exec : Note → TxInputs → Option Host) (w : Worker)
    (steps : List (Client C.Proof × SettleRequest)) (v : Worker) (cl : Client C.Proof)
    (req : SettleRequest) : Prop :=
  ∃ before after, steps = before ++ (cl,req) :: after ∧ v = w.run P C exec before

theorem Worker.serve_of_ok {v : Worker} {cl : Client C.Proof} {req : SettleRequest}
    {resp : SettleResponse} {outputs : List OutputNote} (hrun : v.running = true)
    (h : processSettle P C exec cl req = .ok (resp,outputs)) :
    v.serve P C exec cl req = ({ v with outputNotes := v.outputNotes ++ outputs },resp) := by
  simp [Worker.serve,hrun,h]

theorem Worker.serve_success {v : Worker} {cl : Client C.Proof} {req : SettleRequest}
    (h : (v.serve P C exec cl req).2.success = true) :
    ∃ resp outputs, processSettle P C exec cl req = .ok (resp,outputs) ∧
      v.serve P C exec cl req = ({ v with outputNotes := v.outputNotes ++ outputs },resp) := by
  by_cases hrun : v.running = true
  · cases hp : processSettle P C exec cl req with
    | error stop => cases stop <;> simp [Worker.serve,hrun,hp,SettleResponse.failed] at h
    | ok q => exact ⟨q.1,q.2,rfl,Worker.serve_of_ok hrun hp⟩
  · simp [Worker.serve,hrun,SettleResponse.failed] at h

/-- In every run of the worker whose requests ask for field elements and whose listings never show a
note stored earlier first: a request on a debit note that is answered with success is described by
its response, and the notes it tells of are those its transaction added to the store. -/
theorem responses_describe_own (hK : K.Documented P) (hC : C.RoundTrips) {root : Word}
    (hexec : RunsScript K root exec) (hsig : NeedsSignature P) (w : Worker)
    (steps : List (Client C.Proof × SettleRequest))
    (hlist : ∀ v cl req, w.ServesIn P C exec steps v cl req → ∀ resp outputs,
      processSettle P C exec cl req = .ok (resp,outputs) → ListsStore v.outputNotes outputs cl)
    (hmeets : ∀ v cl req, w.ServesIn P C exec steps v cl req →
      req.cumulativeAmount.toNat < fieldOrder ∧ ShowsOwnFirst v.outputNotes cl) :
    ∀ v cl req, w.ServesIn P C exec steps v cl req → ∀ t key amount n,
      decodeNoteFile C req.noteFileHex = .ok n → n.recipient.scriptRoot = root →
      IsDebitNote P t key amount n → (v.serve P C exec cl req).2.success = true →
      ∃ outputs, (v.serve P C exec cl req).1.outputNotes = v.outputNotes ++ outputs ∧
        outputs.map OutputNote.toNote = [some (p2idOf P t key n req.cumulativeAmount),
          some (remainderOf key amount n req.cumulativeAmount)] ∧
        (v.serve P C exec cl req).2.Describes C n (p2idOf P t key n req.cumulativeAmount)
          (remainderOf key amount n req.cumulativeAmount) amount.val := by
  intro v cl req hserves t key amount n hnote hroot hn hsuccess
  obtain ⟨resp,outputs,hok,hserve⟩ := Worker.serve_success hsuccess
  obtain ⟨hsmall,hfirst⟩ := hmeets v cl req hserves
  rw [hserve]
  exact ⟨outputs,rfl,processSettle_describes hK hC hexec hsig hn hroot hnote hok
    (hlist v cl req hserves resp outputs hok) hsmall hfirst⟩

end Settle

section Sample

/-- A client that is always in sync and shows the listing at every poll. -/
def sampleClient (listing : List (OutputNoteRecord sampleCodec.Proof)) : Client sampleCodec.Proof where
  syncState := some ()
  authenticated _ := some true
  advMap _ := none
  blockNumber := 50
  hasBasicWallet := true
  vault _ := Word.zero
  executionError := "transaction execution failed"
  submitted := .ok "0x01"
  outputNotes _ := some listing

def included (o : OutputNote) : OutputNoteRecord sampleCodec.Proof := ⟨o,some sampleProof⟩

/-- A request to settle `c` out of a note of the sample chain. -/
def sampleSettle (n : Note) (c : UInt64) : SettleRequest :=
  ⟨noteFileHex sampleCodec n sampleProof,secretKeyHex sampleCodec sampleSk,
    formatSerialNum n.recipient.serialNum,c,"0x7bfb0f38b0fafa103f86a805594170"⟩

def sampleP2id (n : Note) (c : UInt64) : OutputNote :=
  sampleProtocol.p2idNote n.recipient.serialNum sampleMerchant sampleKey (Felt.new c)

def sampleRemainder (n : Note) (balance : Felt) (c : UInt64) : OutputNote :=
  sampleProtocol.remainderNote n.recipient sampleKey (balance - Felt.new c)

theorem sampleProtocol_needsSignature : NeedsSignature sampleProtocol := by
  intro pk msg
  rfl

theorem sampleClient_ready (listing : List (OutputNoteRecord sampleCodec.Proof)) {balance : Felt}
    (h : balance.val ≤ 1000) : (sampleClient listing).Ready sampleProtocol sampleKey balance 100 where
  syncState := rfl
  authenticated := rfl
  beforeReclaim := by
    change 50 < (100 : Felt).val
    decide
  hasBasicWallet := rfl
  room := by
    change (0 : Felt).val + balance.val ≤ 2 ^ 63 - 2 ^ 31
    rw [ZMod.val_zero]
    omega
  submitted := ⟨_,rfl⟩

theorem sample_processSettle {n : Note} {balance : Felt}
    (hn : IsDebitNote sampleProtocol sampleStorage.terms sampleKey balance n)
    (hbalance : balance.val ≤ 1000) {c : UInt64} (hc : c.toNat ≤ balance.val)
    (listing : List (OutputNoteRecord sampleCodec.Proof))
    {p r : OutputNoteRecord sampleCodec.Proof}
    (h2 : listing.find? (·.shows 2) = some p) (h9 : listing.find? (·.shows 9) = some r) :
    ∃ txId, processSettle sampleProtocol sampleCodec (execute sampleKernel) (sampleClient listing)
        (sampleSettle n c) =
      .ok (.settled txId (noteBalance sampleProtocol n) c
          ⟨p.fileHex,r.fileHex,r.serial⟩,
        [sampleP2id n c,sampleRemainder n balance c]) := by
  obtain ⟨txId,x,-,-,-,heq⟩ := processSettle_of_ready (C := sampleCodec) sampleKernel_documented
    referenceFalcon_signsCorrectly referenceFalcon_matchesSample
    (runsScript_execute sampleKernel n.recipient.scriptRoot) (by decide) hn rfl
    (.ofNats 7 8 9 10 : Word) rfl (sampleSettle n c) (decodeNoteFile_noteFileHex sampleCodec_roundTrips n sampleProof) rfl rfl
    (decodeSecretKey_secretKeyHex sampleCodec_roundTrips sampleSk) hc
    (sampleClient_ready listing hbalance)
  refine ⟨txId,?_⟩
  rw [heq,awaitOutputNotes_of_shown sampleCodec_roundTrips rfl h2 h9]
  rfl

/-- The note that is left after 300 of 1000 were settled. -/
def sampleNext : Note := remainderOf sampleKey 1000 sampleNote 300

theorem sampleNext_isDebitNote :
    IsDebitNote sampleProtocol sampleStorage.terms sampleKey 700 sampleNext :=
  ⟨rfl,by decide,rfl⟩

/-- What the store holds after each of two settlements. -/
def sampleOutputs (c : UInt64) : List OutputNote := [sampleP2id sampleNote c,sampleRemainder sampleNote 1000 c]

def sampleFirst : List OutputNote := sampleOutputs 300

def sampleSecond : List OutputNote := [sampleP2id sampleNext 200,sampleRemainder sampleNext 700 200]

/-- A second settlement whose listings show the newest notes first. -/
theorem responses_describe_own_sample :
    let cl := sampleClient ((sampleSecond ++ sampleFirst).map included)
    let w : Worker := ⟨sampleFirst,true⟩
    (w.serve sampleProtocol sampleCodec (execute sampleKernel) cl (sampleSettle sampleNext 200)).2.success
      = true ∧
    (w.serve sampleProtocol sampleCodec (execute sampleKernel) cl
      (sampleSettle sampleNext 200)).2.Describes sampleCodec sampleNext
        (p2idOf sampleProtocol sampleStorage.terms sampleKey sampleNext 200)
        (remainderOf sampleKey 700 sampleNext 200) (700 : Felt).val := by
  intro cl w
  obtain ⟨txId,hok⟩ := sample_processSettle sampleNext_isDebitNote (by decide) (c := 200) (by decide)
    ((sampleSecond ++ sampleFirst).map included) (p := included (sampleP2id sampleNext 200))
    (r := included (sampleRemainder sampleNext 700 200)) rfl rfl
  have hsuccess : (w.serve sampleProtocol sampleCodec (execute sampleKernel) cl
      (sampleSettle sampleNext 200)).2.success = true := by
    rw [Worker.serve_of_ok rfl hok]
    rfl
  -- the run has one request, so the worker is in its first state and the client is `cl`
  have honly : ∀ v cl' req, w.ServesIn sampleProtocol sampleCodec (execute sampleKernel)
      [(cl,sampleSettle sampleNext 200)] v cl' req →
      v = w ∧ cl' = cl ∧ req = sampleSettle sampleNext 200 := by
    rintro v cl' req ⟨before,after,hsteps,rfl⟩
    cases before with
    | nil =>
      obtain ⟨hq,-⟩ := List.cons.inj hsteps
      obtain ⟨rfl,rfl⟩ := Prod.mk.inj hq
      exact ⟨rfl,rfl,rfl⟩
    | cons q before => simp at hsteps
  have hmain := responses_describe_own sampleKernel_documented sampleCodec_roundTrips
    (runsScript_execute sampleKernel sampleNote.recipient.scriptRoot) sampleProtocol_needsSignature w
    [(cl,sampleSettle sampleNext 200)]
    (by
      intro v cl' req hserves resp outputs hresp i l hl
      obtain ⟨rfl,rfl,rfl⟩ := honly v cl' req hserves
      obtain ⟨-,rfl⟩ := Prod.mk.inj (Except.ok.inj (hok.symm.trans hresp))
      obtain rfl := Option.some.inj hl
      exact @List.perm_append_comm _ sampleSecond sampleFirst)
    (by
      intro v cl' req hserves
      obtain ⟨rfl,rfl,rfl⟩ := honly v cl' req hserves
      refine ⟨by decide,?_⟩
      intro i l hl k r hk hfind
      obtain rfl := Option.some.inj hl
      rcases hk with rfl | rfl
      · obtain rfl := Option.some.inj hfind
        decide
      · obtain rfl := Option.some.inj hfind
        decide)
  obtain ⟨outputs,-,-,hdescribes⟩ := hmain w cl _ ⟨[],[],rfl,rfl⟩ sampleStorage.terms sampleKey 700
    sampleNext (decodeNoteFile_noteFileHex sampleCodec_roundTrips sampleNext sampleProof) rfl
    sampleNext_isDebitNote hsuccess
  exact ⟨hsuccess,hdescribes⟩

/-- The second of two settlements, with listings that show the oldest notes first, reports the P2ID
note of the first. -/
theorem second_response_reports_first :
    let cl := sampleClient (sampleFirst.map included)
    let cl' := sampleClient ((sampleFirst ++ sampleSecond).map included)
    let first := (Worker.mk [] true).serve sampleProtocol sampleCodec (execute sampleKernel) cl
      (sampleSettle sampleNote 300)
    let second := first.1.serve sampleProtocol sampleCodec (execute sampleKernel) cl'
      (sampleSettle sampleNext 200)
    first.1.outputNotes = sampleFirst ∧ second.1.outputNotes = sampleFirst ++ sampleSecond ∧
    ListsStore sampleFirst sampleSecond cl' ∧ first.2.success = true ∧ second.2.success = true ∧
    ¬second.2.Describes sampleCodec sampleNext
      (p2idOf sampleProtocol sampleStorage.terms sampleKey sampleNext 200)
      (remainderOf sampleKey 700 sampleNext 200) (700 : Felt).val := by
  intro cl cl' first second
  obtain ⟨txId,hok⟩ := sample_processSettle sampleNote_isDebitNote (by decide) (c := 300) (by decide)
    (sampleFirst.map included) (p := included (sampleP2id sampleNote 300))
    (r := included (sampleRemainder sampleNote 1000 300)) rfl rfl
  obtain ⟨txId',hok'⟩ := sample_processSettle sampleNext_isDebitNote (by decide) (c := 200)
    (by decide) ((sampleFirst ++ sampleSecond).map included)
    (p := included (sampleP2id sampleNote 300))
    (r := included (sampleRemainder sampleNote 1000 300)) rfl rfl
  have hfirst := Worker.serve_of_ok (v := ⟨[],true⟩) rfl hok
  have hsecond := Worker.serve_of_ok (v := first.1) (by rw [show first = _ from hfirst]) hok'
  rw [show second = _ from hsecond,show first = _ from hfirst]
  refine ⟨rfl,rfl,?_,rfl,rfl,?_⟩
  · intro i l hl
    obtain rfl := Option.some.inj hl
    exact List.Perm.refl _
  · intro hdescribes
    obtain ⟨p,hp⟩ := hdescribes.p2idNoteFile _ rfl
    have hnotes := noteFileHex_inj sampleCodec_roundTrips hp
    revert hnotes
    decide

end Sample

end MidenX402.AdnServices
