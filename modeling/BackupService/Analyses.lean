import BackupService.Frequencies
import BackupService.Handlers
import BackupService.Paths
import BackupService.Pipeline

/-!
The two analyses of a path.

The service and the worker both stretch the path of a backup by going round
it, the one to 4096 bytes and the other to 8192. Going round a number of
times changes no share, so the entropy of the path itself comes out whenever
the last round is complete (`entropy_of_shares`). When it is not, the two
stop at different places of the path, and they agree only if the counts
happen to make up for it (`analyses_agree_iff`).
-/

namespace BackupService

open Lib

/-! ### Going round -/

section Cycle

variable (w : List UInt8)

theorem filterMap_range_getElem? (r : ℕ) :
    ((List.range r).filterMap fun i => w[i]?) = w.take r := by
  induction r with
  | zero => rfl
  | succ r ih =>
      rw [List.range_succ, List.filterMap_append, ih, List.take_add_one]
      rfl

theorem cycleTake_of_le {r : ℕ} (hr : r ≤ w.length) : cycleTake w r = w.take r := by
  rw [← filterMap_range_getElem?, cycleTake]
  refine List.filterMap_congr fun i hi => ?_
  rw [Nat.mod_eq_of_lt ((List.mem_range.mp hi).trans_le hr)]

/-- One round, and then as before. -/
theorem cycleTake_length_add (n : ℕ) : cycleTake w (w.length + n) = w ++ cycleTake w n := by
  have hround : cycleTake w w.length = w := by
    rw [cycleTake_of_le w le_rfl, List.take_length]
  rw [cycleTake, List.range_add, List.filterMap_append, List.filterMap_map]
  refine congrArg₂ (· ++ ·) hround (List.filterMap_congr fun i _ => ?_)
  rw [Function.comp_apply, Nat.add_mod_left]

theorem cycleTake_mul_add (k : ℕ) {r : ℕ} (hr : r ≤ w.length) :
    cycleTake w (k * w.length + r) = (List.replicate k w).flatten ++ w.take r := by
  induction k with
  | zero => rw [Nat.zero_mul, Nat.zero_add, cycleTake_of_le w hr]; rfl
  | succ k ih =>
      rw [Nat.succ_mul, Nat.add_right_comm, Nat.add_comm, cycleTake_length_add, ih,
        List.replicate_succ, List.flatten_cons, List.append_assoc]

theorem cycleTake_mul (k : ℕ) : cycleTake w (k * w.length) = (List.replicate k w).flatten := by
  have h := cycleTake_mul_add w k (Nat.zero_le w.length)
  rwa [Nat.add_zero, List.take_zero, List.append_nil] at h

/-- How often a byte occurs after `k` rounds and a part of one more. -/
theorem count_cycleTake {n k r : ℕ} (hn : n = k * w.length + r) (hr : r ≤ w.length) (b : UInt8) :
    (cycleTake w n).count b = k * w.count b + (w.take r).count b := by
  rw [hn, cycleTake_mul_add w k hr, List.count_append, List.count_flatten, List.map_replicate,
    List.sum_replicate, smul_eq_mul]

theorem toFinset_cycleTake_subset (n : ℕ) : (cycleTake w n).toFinset ⊆ w.toFinset := by
  intro b hb
  obtain ⟨i, -, hi⟩ := List.mem_filterMap.mp (List.mem_toFinset.mp hb)
  exact List.mem_toFinset.mpr (List.mem_of_getElem? hi)

end Cycle

/-! ### Only the shares matter -/

/-- The calculator does not look at the order of the bytes. -/
theorem shannonEntropy_perm {data data' : List UInt8} (h : data'.Perm data) :
    shannonEntropy data' = shannonEntropy data := by
  have hfreq : byteFrequencies data' = byteFrequencies data := by
    rw [byteFrequencies_eq, byteFrequencies_eq]
    exact List.map_congr_left fun i _ => h.count_eq _
  rw [shannonEntropy, shannonEntropy, computeShannonEntropy, computeShannonEntropy, hfreq,
    h.length_eq, h.isEmpty_eq]

theorem exact_repeat {k : ℕ} (hk : 0 < k) (data : List UInt8) :
    (shannonEntropy (List.replicate k data).flatten).exact = (shannonEntropy data).exact := by
  by_cases hdata : data = []
  · rw [hdata, List.flatten_replicate_nil]
  · have hrepeat : (List.replicate k data).flatten ≠ [] := by
      simp [List.flatten_eq_nil_iff, hk.ne', hdata]
    rw [exact_shannonEntropy hdata, exact_shannonEntropy hrepeat]
    exact FrequencyTable.entropy_ofList_repeat hdata hk hrepeat

theorem exact_cycleTake {w : List UInt8} {n : ℕ} (hn : n ≠ 0) (h : w.length ∣ n) :
    (shannonEntropy (cycleTake w n)).exact = (shannonEntropy w).exact := by
  obtain ⟨k, rfl⟩ := h
  have hk : 0 < k := Nat.pos_of_ne_zero (right_ne_zero_of_mul hn)
  rw [Nat.mul_comm, cycleTake_mul, exact_repeat hk]

/-- **The entropy is one of shares.** It is the same in any order of the
bytes, after any number of repetitions, and for a path that has been
stretched by whole rounds, if there is at least one. -/
theorem entropy_of_shares :
    (∀ d d' : List UInt8, d'.Perm d → (shannonEntropy d').exact = (shannonEntropy d).exact) ∧
    (∀ (d : List UInt8) (k : ℕ), 1 ≤ k →
      (shannonEntropy (List.replicate k d).flatten).exact = (shannonEntropy d).exact) ∧
    ∀ (path : String) (n : ℕ), n ≠ 0 → (utf8Bytes path).length ∣ n →
      (shannonEntropy (cycleTake (utf8Bytes path) n)).exact =
        (shannonEntropy (utf8Bytes path)).exact :=
  ⟨fun _ _ h => congrArg Entropy.exact (shannonEntropy_perm h), fun d _ hk => exact_repeat hk d,
    fun _ _ hn h => exact_cycleTake hn h⟩

theorem utf8Bytes_slash_a : utf8Bytes "/a" = [47, 97] := by decide

theorem entropy_of_shares_slash_a :
    (shannonEntropy [97, 47]).exact = (shannonEntropy [47, 97]).exact ∧
    (shannonEntropy (List.replicate 3 [47, 97]).flatten).exact = (shannonEntropy [47, 97]).exact ∧
    (shannonEntropy (cycleTake (utf8Bytes "/a") 4096)).exact =
      (shannonEntropy (utf8Bytes "/a")).exact := by
  have hdvd : (utf8Bytes "/a").length ∣ 4096 := by
    rw [utf8Bytes_slash_a]
    exact ⟨2048, rfl⟩
  exact ⟨entropy_of_shares.1 _ _ (by decide), entropy_of_shares.2.1 _ 3 (by decide),
    entropy_of_shares.2.2 "/a" 4096 (by decide) hdvd⟩

/-! ### The data of the two analyses -/

/-- The product of `c ^ c` over the frequencies of the bytes. -/
def frequencyProduct (data : List UInt8) : ℕ := ∏ b ∈ data.toFinset, data.count b ^ data.count b

theorem frequencyProduct_perm {data data' : List UInt8} (h : data.Perm data') :
    frequencyProduct data = frequencyProduct data' := by
  rw [frequencyProduct, frequencyProduct, List.toFinset_eq_of_perm _ _ h]
  exact Finset.prod_congr rfl fun b _ => by rw [h.count_eq]

/-- Bytes that do not occur make no difference, since `0 ^ 0 = 1`. -/
theorem frequencyProduct_eq {data : List UInt8} {s : Finset UInt8} (hs : data.toFinset ⊆ s) :
    frequencyProduct data = ∏ b ∈ s, data.count b ^ data.count b := by
  refine Finset.prod_subset hs fun b _ hb => ?_
  rw [List.count_eq_zero_of_not_mem fun hmem => hb (List.mem_toFinset.mpr hmem), pow_zero]

/-- Equally many bytes have the same entropy exactly if they have the same
product. -/
theorem exact_eq_iff {data data' : List UInt8} (hdata : data ≠ [])
    (hlength : data.length = data'.length) :
    (shannonEntropy data).exact = (shannonEntropy data').exact ↔
      frequencyProduct data = frequencyProduct data' := by
  have hdata' : data' ≠ [] := by
    rw [← List.length_pos_iff, ← hlength]
    exact List.length_pos_iff.mpr hdata
  rw [exact_shannonEntropy hdata, exact_shannonEntropy hdata']
  refine FrequencyTable.entropy_eq_iff ?_
  rw [FrequencyTable.total_ofList, FrequencyTable.total_ofList, hlength]

/-- The entropy that `analyze_backup` answers with. -/
def Backup.analyzedEntropy (b : Backup) : Entropy :=
  shannonEntropy (cycleTake (utf8Bytes b.sourcePath) 4096)

/-- The entropy that `process_and_report` reports. -/
def BackupJob.reportedEntropy (job : BackupJob) : Entropy :=
  shannonEntropy (cycleTake (utf8Bytes job.sourcePath) 8192)

/-- The bytes the service analyzes, twice: as many as the worker looks at,
with the shares that the service sees. -/
def Backup.analyzedTwice (b : Backup) : List UInt8 :=
  cycleTake (utf8Bytes b.sourcePath) 4096 ++ cycleTake (utf8Bytes b.sourcePath) 4096

/-- The bytes the worker analyzes for a backup. -/
def Backup.processed (b : Backup) : List UInt8 := cycleTake (utf8Bytes b.sourcePath) 8192

/-! ### Where the two entropies go -/

/-- A handler that asks for a backup finds `b`, and its analysis finishes. -/
def FindsBackup (b : Backup) : (o : Op) → o.Answer → Prop
  | .sql (.selectBackup _ _), answer => answer = .ok (some b)
  | .entropy data, answer => answer = .ok (shannonEntropy data)
  | _, _ => True

/-- The analysis on the blocking pool comes out as the calculator has it. -/
def WorkerOp.Computes : (o : WorkerOp) → o.Answer → Prop
  | .analyze data, .ok entropy => entropy = shannonEntropy data
  | _, _ => True

theorem exec_computes (uuid : UuidParser) (env : WorkerEnv) (o : WorkerOp) (desk : Desk) :
    o.Computes (o.exec uuid env desk).1 := by
  cases o with
  | analyze data =>
      rw [WorkerOp.exec]
      cases env.join with
      | true => exact rfl
      | false => trivial
  | rpc call => trivial
  | settle d => trivial

/-- Every analysis of `b` is answered with this entropy. -/
def Backup.AnalyzedAs (b : Backup) (entropy : Entropy) : Prop :=
  ∀ state claims id, Program.Obeys ⟨fun _ _ => True, fun _ => FindsBackup b, fun g _ _ => g⟩
    (fun _ res => ∃ body, res = ⟨200, .backup body⟩ ∧ body.entropy = some entropy) ()
    (handle state claims (.analyze id))

/-- A worker with this job reports no result with another entropy. -/
def BackupJob.ReportedAs (job : BackupJob) (entropy : Entropy) : Prop :=
  Program.Obeys ⟨fun _ o => ∀ result, o = .rpc (.reportResult result) → result.entropy = entropy,
    fun _ => WorkerOp.Computes, fun g _ _ => g⟩ (fun _ _ => True) () (handleDelivery (.job job))

theorem analyzedAs (b : Backup) : b.AnalyzedAs b.analyzedEntropy := by
  intro state claims id
  rw [handle_analyze]
  refine ⟨trivial, fun r hr => ?_⟩
  obtain rfl : r = .ok (some b) := hr
  refine ⟨trivial, fun r hr => ?_⟩
  obtain rfl : r = .ok (shannonEntropy b.analyzedData) := hr
  exact ⟨_, rfl, rfl⟩

theorem reportedAs (job : BackupJob) : job.ReportedAs job.reportedEntropy := by
  rw [BackupJob.ReportedAs, handleDelivery_job]
  have hsettle (d : Decision) : ∀ result, WorkerOp.settle d = .rpc (.reportResult result) →
      result.entropy = job.reportedEntropy := nofun
  refine ⟨nofun, fun r _ => ?_⟩
  cases r with
  | error e => exact ⟨hsettle _, fun _ _ => trivial⟩
  | ok _ =>
      refine ⟨nofun, fun r hr => ?_⟩
      cases r with
      | error e => exact ⟨hsettle _, fun _ _ => trivial⟩
      | ok entropy =>
          refine ⟨fun result hresult => ?_, fun r _ => ?_⟩
          · injection hresult with hcall
            injection hcall with hcall
            rw [← hcall]
            exact hr
          · cases r with
            | error e => exact ⟨hsettle _, fun _ _ => trivial⟩
            | ok _ => exact ⟨hsettle _, fun _ _ => trivial⟩

/-! ### When they agree -/

theorem sourcePath_ne_empty {path : String} (h : validateSourcePath path = .ok ()) : path ≠ "" := by
  rintro rfl
  exact absurd (validateSourcePath_ok.mp h).1 (by decide)

section Agreement

variable {b : Backup}

theorem exact_analyzedTwice : (shannonEntropy b.analyzedTwice).exact = b.analyzedEntropy.exact := by
  -- A second round changes no share, and makes as many bytes as the worker has.
  have hrepeat : b.analyzedTwice =
      (List.replicate 2 (cycleTake (utf8Bytes b.sourcePath) 4096)).flatten := by
    simp [Backup.analyzedTwice, List.replicate_succ]
  rw [hrepeat, exact_repeat two_pos, Backup.analyzedEntropy]

theorem length_analyzedTwice (h : b.sourcePath ≠ "") :
    b.analyzedTwice.length = b.processed.length := by
  have hne := utf8Bytes_ne_nil h
  rw [Backup.analyzedTwice, Backup.processed, List.length_append, length_cycleTake hne,
    length_cycleTake hne]

theorem exact_agree_iff (h : b.sourcePath ≠ "") :
    b.analyzedEntropy.exact = b.job.reportedEntropy.exact ↔
      frequencyProduct b.analyzedTwice = frequencyProduct b.processed := by
  have hlength := length_analyzedTwice h
  have hne : b.analyzedTwice ≠ [] := by
    rw [← List.length_pos_iff, hlength, Backup.processed, length_cycleTake (utf8Bytes_ne_nil h)]
    exact Nat.succ_pos _
  have hreported : b.job.reportedEntropy = shannonEntropy b.processed := rfl
  rw [← exact_analyzedTwice, hreported, exact_eq_iff hne hlength]

/-- Whole rounds: the second half of the worker's data is the first. -/
theorem analyzedTwice_eq (h : (utf8Bytes b.sourcePath).length ∣ 4096) :
    b.analyzedTwice = b.processed := by
  obtain ⟨k, hk⟩ := h
  have hanalyzed : cycleTake (utf8Bytes b.sourcePath) 4096 =
      (List.replicate k (utf8Bytes b.sourcePath)).flatten := by
    rw [hk, Nat.mul_comm, cycleTake_mul]
  have hprocessed : b.processed = (List.replicate (k + k) (utf8Bytes b.sourcePath)).flatten := by
    have hrounds : 8192 = (k + k) * (utf8Bytes b.sourcePath).length := by
      rw [Nat.add_mul, Nat.mul_comm k, ← hk]
    rw [Backup.processed, hrounds, cycleTake_mul]
  rw [Backup.analyzedTwice, hanalyzed, hprocessed, List.replicate_add, List.flatten_append]

end Agreement

/-- **When the two analyses agree.** The service answers with the entropy of
the first 4096 bytes and the worker reports that of the first 8192. For a
path that is accepted the two are equal exactly if the first 4096 bytes,
taken twice, have the product of the worker's bytes. So it is if the two
halves of the worker's bytes have the same frequencies, for one, if 4096
bytes are whole rounds of the path. -/
theorem analyses_agree_iff (b : Backup) (h : validateSourcePath b.sourcePath = .ok ()) :
    b.AnalyzedAs b.analyzedEntropy ∧ b.job.ReportedAs b.job.reportedEntropy ∧
    (b.analyzedEntropy.exact = b.job.reportedEntropy.exact ↔
      frequencyProduct b.analyzedTwice = frequencyProduct b.processed) ∧
    (frequencyProduct b.analyzedTwice = frequencyProduct b.processed →
      EntropyLevel.classifyExact b.analyzedEntropy.exact =
        EntropyLevel.classifyExact b.job.reportedEntropy.exact) ∧
    (b.analyzedTwice.Perm b.processed →
      frequencyProduct b.analyzedTwice = frequencyProduct b.processed) ∧
    ((utf8Bytes b.sourcePath).length ∣ 4096 →
      frequencyProduct b.analyzedTwice = frequencyProduct b.processed) := by
  have hagree := exact_agree_iff (sourcePath_ne_empty h)
  refine ⟨analyzedAs b, reportedAs b.job, hagree, fun hproduct => ?_, frequencyProduct_perm,
    fun hdvd => ?_⟩
  · rw [hagree.mpr hproduct]
  · rw [analyzedTwice_eq hdvd]

/-- Two bytes go round 2048 times. -/
theorem analyses_agree_iff_slash_a : validateSourcePath "/a" = .ok () ∧
    (⟨⟨0⟩, ⟨0⟩, "/a", 0, "pending", true, 0, 0⟩ : Backup).analyzedEntropy.exact =
      (⟨⟨0⟩, ⟨0⟩, "/a", 0, "pending", true, 0, 0⟩ : Backup).job.reportedEntropy.exact := by
  have haccepted : validateSourcePath "/a" = .ok () :=
    validateSourcePath_ok.mpr ⟨by decide, by decide⟩
  obtain ⟨-, -, hagree, -, -, hrounds⟩ :=
    analyses_agree_iff ⟨⟨0⟩, ⟨0⟩, "/a", 0, "pending", true, 0, 0⟩ haccepted
  refine ⟨haccepted, hagree.mpr (hrounds ?_)⟩
  rw [utf8Bytes_slash_a]
  exact ⟨2048, rfl⟩

/-- Three bytes go 1365 times into 4096, and one is left; they go 2730
times into 8192, and two are left. -/
theorem frequencyProduct_slash_ab :
    frequencyProduct (cycleTake [47, 97, 98] 4096 ++ cycleTake [47, 97, 98] 4096) ≠
      frequencyProduct (cycleTake [47, 97, 98] 8192) := by
  -- 4096 = 1365 * 3 + 1 and 8192 = 2730 * 3 + 2
  have hhalf := count_cycleTake [47, 97, 98] (n := 4096) (k := 1365) (r := 1) rfl (by decide)
  have hwhole := count_cycleTake [47, 97, 98] (n := 8192) (k := 2730) (r := 2) rfl (by decide)
  have hsubset := toFinset_cycleTake_subset [47, 97, 98]
  have htwice : (cycleTake [47, 97, 98] 4096 ++ cycleTake [47, 97, 98] 4096).toFinset ⊆
      [47, 97, 98].toFinset := by
    rw [List.toFinset_append]
    exact Finset.union_subset (hsubset 4096) (hsubset 4096)
  rw [frequencyProduct_eq (hsubset 8192), frequencyProduct_eq htwice]
  simp only [List.count_append, hhalf, hwhole]
  decide +kernel

theorem analyses_differ :
    ¬ ∀ b : Backup, validateSourcePath b.sourcePath = .ok () →
      b.analyzedEntropy.exact = b.job.reportedEntropy.exact := by
  intro hagree
  have haccepted : validateSourcePath "/ab" = .ok () :=
    validateSourcePath_ok.mpr ⟨by decide, by decide⟩
  have hequal := hagree ⟨⟨0⟩, ⟨0⟩, "/ab", 0, "pending", true, 0, 0⟩ haccepted
  rw [exact_agree_iff (sourcePath_ne_empty haccepted)] at hequal
  have hbytes : utf8Bytes "/ab" = [47, 97, 98] := by decide
  rw [Backup.analyzedTwice, Backup.processed, hbytes] at hequal
  exact frequencyProduct_slash_ab hequal

end BackupService
