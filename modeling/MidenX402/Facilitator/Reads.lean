import MidenX402.Facilitator.Api

/-! # What the store reads back, and where its directories are made -/

namespace MidenX402.Facilitator
open Disk Rust

/-- The directories in the directory of an agent. -/
def subDirs : List String := ["pending_queue","committed","failed","payments"]

section Plain

theorem isPlain_agentJson : IsPlain "agent.json" := by decide

theorem isPlain_pendingState : IsPlain "pending_state.json" := by decide

theorem isPlain_wal : IsPlain "nullifiers.wal" := by decide

theorem isPlain_spent : IsPlain "nullifiers.spent" := by decide

end Plain

section Order

theorem pairwise_seq_insertionSort (txs : List QueuedTx) :
    (txs.insertionSort fun x y => x.seq ≤ y.seq).Pairwise fun x y => x.seq ≤ y.seq := by
  have : Std.Total fun x y : QueuedTx => x.seq ≤ y.seq := ⟨fun x y => Nat.le_total x.seq y.seq⟩
  have : IsTrans QueuedTx fun x y => x.seq ≤ y.seq := ⟨fun _ _ _ => Nat.le_trans⟩
  exact List.pairwise_insertionSort _ txs

/-- Records with different numbers are strictly ordered by them once sorted. -/
theorem seqs_insertionSort {txs : List QueuedTx} (h : (txs.map QueuedTx.seq).Nodup) :
    ((txs.insertionSort fun x y => x.seq ≤ y.seq).map QueuedTx.seq).Pairwise (· < ·) := by
  have hperm := List.perm_insertionSort (fun x y : QueuedTx => x.seq ≤ y.seq) txs
  have hle : ((txs.insertionSort fun x y => x.seq ≤ y.seq).map QueuedTx.seq).Pairwise (· ≤ ·) :=
    List.pairwise_map.mpr (pairwise_seq_insertionSort txs)
  exact (hle.and ((hperm.map _).nodup_iff.mpr h)).imp fun hxy => lt_of_le_of_ne hxy.1 hxy.2

end Order

section Directories
variable {fs fs' : Files}

theorem exec_makeDirs {raw : List String} {u : Unit}
    (h : (FilesystemX402Store.makeDirs raw).exec fs = .ok (u,fs')) :
    ∃ d, (createDirAll [] (components raw)).exec fs = .ok (d,fs') := by
  obtain ⟨d,fs1,hcreate,hpure⟩ := Prog.exec_bind_eq_ok (Prog.exec_mapError_eq_ok h)
  rw [Prog.exec_pure] at hpure
  obtain rfl := (Prod.mk.inj (Except.ok.inj hpure)).2
  exact ⟨d,hcreate⟩

end Directories

section Reads
variable {fs : Files} {raw : List String} {name : String} {d : Path}

theorem readJson_eq_ok_iff {β : Type} {decode : Content → Option β} {raw : List String} {b : β} :
    readJson decode raw fs = .ok b ↔ ∃ c, fs.readFile raw = some c ∧ decode c = some b := by
  rw [readJson]
  cases fs.readFile raw with
  | none => simp
  | some c =>
    cases hc : decode c with
    | none => simp [hc]
    | some b' => simp [hc]

theorem loadAgent_resolves {store : FilesystemX402Store} {a : String} {record : AgentRecord}
    (h : store.loadAgent a fs = .ok record) :
    ∃ d, fs.resolveDir [] (components (store.agentDir a)) = some d := by
  obtain ⟨c,hc,-⟩ := readJson_eq_ok_iff.mp (mapError_eq_ok.mp h)
  rw [FilesystemX402Store.agentFile,readFile_concat isPlain_agentJson] at hc
  obtain ⟨d,hd,-⟩ := Option.bind_eq_some_iff.mp hc
  exact ⟨d,hd⟩

theorem readWalSet_eq_ok (hn : IsPlain name) (hd : fs.resolveDir [] (components raw) = some d)
    {r : Finset String} (h : readWalSet (raw ++ [name]) fs = .ok r) : ∃ es : List WalEntry,
      (fs.fileAt (d ++ [name])).getD Contents.empty = .lines es ∧
      fs.isDir (d ++ [name]) = false ∧ r = (es.map WalEntry.nullifier).toFinset := by
  have hread : fs.readFile (raw ++ [name]) = fs.fileAt (d ++ [name]) := by
    rw [readFile_concat hn,hd,Option.bind_some]
  have hexists : fs.pathExists (raw ++ [name]) =
      (fs.isDir (d ++ [name]) || (fs.fileAt (d ++ [name])).isSome) := by
    rw [FileSystem.pathExists,FileSystem.dirExists,locate_concat hn,hd,hread]
    rfl
  rw [readWalSet,hexists,hread] at h
  cases hf : fs.fileAt (d ++ [name]) with
  | none =>
    rw [hf] at h
    cases hdir : fs.isDir (d ++ [name]) with
    | true =>
      rw [hdir] at h
      cases h
    | false =>
      rw [hdir] at h
      exact ⟨[],rfl,rfl,(Except.ok.inj h).symm⟩
  | some c =>
    have hdir : fs.isDir (d ++ [name]) = false := by
      rw [← Bool.not_eq_true]
      intro hisdir
      rw [FileSystem.fileAt_eq_none_of_isDir (by simp) hisdir] at hf
      cases hf
    rw [hf,hdir] at h
    cases c with
    | lines es => exact ⟨es,rfl,hdir,(Except.ok.inj h).symm⟩
    | _ => cases h

theorem readWalSet_of_lines (hn : IsPlain name) (hd : fs.resolveDir [] (components raw) = some d)
    (es : List WalEntry) (h : (fs.fileAt (d ++ [name])).getD Contents.empty = .lines es)
    (hdir : fs.isDir (d ++ [name]) = false) :
    readWalSet (raw ++ [name]) fs = .ok (es.map WalEntry.nullifier).toFinset := by
  have hread : fs.readFile (raw ++ [name]) = fs.fileAt (d ++ [name]) := by
    rw [readFile_concat hn,hd,Option.bind_some]
  rw [readWalSet,FileSystem.pathExists,FileSystem.dirExists,locate_concat hn,hd,hread]
  cases hf : fs.fileAt (d ++ [name]) with
  | none =>
    rw [hf] at h
    obtain rfl := Content.lines.inj h
    simp [hdir]
  | some c =>
    rw [hf] at h
    obtain rfl : c = .lines es := h
    simp [Content.toEntries]

end Reads

end MidenX402.Facilitator
