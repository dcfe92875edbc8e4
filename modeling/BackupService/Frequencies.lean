import BackupService.Ffi
import BackupService.Lib.Entropy

/-!
What the entropy calculator computes.

The doubles and the logarithm are read as real numbers here. The counting
loop leaves in each of its 256 counters how often that byte occurs, and so
the sum that follows is the entropy of the table of the bytes' frequencies
(`exact_shannonEntropy`). From there on the bounds are those of any
entropy.
-/

namespace BackupService

open Lib

/-! ### The counting loop -/

section Counting

variable (data : List UInt8)

theorem byteFrequencies_nil : byteFrequencies [] = List.replicate 256 0 := List.foldl_nil

theorem byteFrequencies_concat (b : UInt8) :
    byteFrequencies (data ++ [b]) = (byteFrequencies data).modify b.toNat (· + 1) := by
  rw [byteFrequencies, List.foldl_concat]
  rfl

@[simp] theorem length_byteFrequencies : (byteFrequencies data).length = 256 := by
  induction data using List.reverseRecOn with
  | nil => rw [byteFrequencies_nil, List.length_replicate]
  | append_singleton data b ih => rw [byteFrequencies_concat, List.length_modify, ih]

theorem getElem?_byteFrequencies {i : ℕ} (hi : i < 256) :
    (byteFrequencies data)[i]? = some (data.count (UInt8.ofNat i)) := by
  induction data using List.reverseRecOn with
  | nil => rw [byteFrequencies_nil, List.getElem?_replicate_of_lt hi, List.count_nil]
  | append_singleton data b ih =>
      have hb : b.toNat = i ↔ b = UInt8.ofNat i := by
        rw [← UInt8.toNat_inj, UInt8.toNat_ofNat_of_lt' hi]
      rw [byteFrequencies_concat, List.getElem?_modify, ih, List.count_append,
        List.count_singleton]
      simp only [hb, beq_iff_eq]
      split <;> rfl

/-- After the loop the counters are the frequencies of the 256 bytes. -/
theorem byteFrequencies_eq :
    byteFrequencies data = (List.range 256).map fun i => data.count (UInt8.ofNat i) := by
  refine List.ext_getElem? fun i => ?_
  by_cases hi : i < 256
  · rw [getElem?_byteFrequencies data hi, List.getElem?_map, List.getElem?_range hi]
    rfl
  · rw [List.getElem?_eq_none (by simpa using hi), List.getElem?_eq_none (by simpa using hi)]

theorem sum_modify_succ {freq : List ℕ} {i : ℕ} (hi : i < freq.length) :
    (freq.modify i (· + 1)).sum = freq.sum + 1 := by
  induction freq generalizing i with
  | nil => exact absurd hi (Nat.not_lt_zero i)
  | cons f freq ih =>
      cases i with
      | zero => rw [List.modify_zero_cons, List.sum_cons, List.sum_cons, Nat.add_right_comm]
      | succ i =>
          rw [List.modify_succ_cons, List.sum_cons, List.sum_cons,
            ih (Nat.lt_of_succ_lt_succ hi), Nat.add_assoc]

/-- The counters add up to the number of bytes read. -/
theorem sum_byteFrequencies : (byteFrequencies data).sum = data.length := by
  induction data using List.reverseRecOn with
  | nil => rw [byteFrequencies_nil, List.sum_replicate, smul_zero, List.length_nil]
  | append_singleton data b ih =>
      -- The index of the increment is in range: there is a counter for every byte.
      have hb : b.toNat < (byteFrequencies data).length := by
        rw [length_byteFrequencies]
        exact b.toNat_lt
      rw [byteFrequencies_concat, sum_modify_succ hb, ih, List.length_append]
      rfl

/-- No counter outgrows the length of the data. -/
theorem le_length_of_mem_byteFrequencies {freq : ℕ} (h : freq ∈ byteFrequencies data) :
    freq ≤ data.length := by
  rw [← sum_byteFrequencies data]
  exact List.single_le_sum (fun _ _ => Nat.zero_le _) freq h

end Counting

/-! ### The summing loop -/

/-- The real number that the sum stands for. -/
noncomputable def Entropy.exact (entropy : Entropy) : ℝ :=
  entropy.summands.foldl (fun acc (freq, len) =>
    let p : ℝ := freq / len
    acc - p * (Real.log p / Real.log 2.0)) 0

theorem exact_eq_sum (entropy : Entropy) : entropy.exact =
    (entropy.summands.map fun s => Real.negMulLog (s.1 / s.2)).sum / Real.log 2 := by
  have htwo : (2.0 : ℝ) = 2 := by norm_num
  obtain ⟨summands⟩ := entropy
  induction summands using List.reverseRecOn with
  | nil => simp [Entropy.exact]
  | append_singleton summands s ih =>
      have hstep : Entropy.exact ⟨summands ++ [s]⟩ = Entropy.exact ⟨summands⟩ -
          (s.1 / s.2) * (Real.log (s.1 / s.2) / Real.log 2.0) := by
        rw [Entropy.exact, List.foldl_concat]
        rfl
      rw [hstep, htwo, ih, List.map_append, List.sum_append, List.map_singleton, List.sum_singleton,
        Real.negMulLog]
      ring

/-- Leaving out the bytes that do not occur leaves out nothing but zeros. -/
theorem sum_filterMap_pos (g : ℕ × ℕ → ℝ) {len : ℕ} (hg : g (0, len) = 0) (freqs : List ℕ) :
    ((freqs.filterMap fun freq => if 0 < freq then some (freq, len) else none).map g).sum =
      (freqs.map fun freq => g (freq, len)).sum := by
  induction freqs with
  | nil => rfl
  | cons freq freqs ih =>
      rw [List.map_cons, List.sum_cons, ← ih]
      rcases Nat.eq_zero_or_pos freq with rfl | hpos
      · simp [hg]
      · simp [hpos]

theorem image_toNat_subset (data : List UInt8) :
    data.toFinset.image UInt8.toNat ⊆ Finset.range 256 := by
  intro i hi
  obtain ⟨b, -, rfl⟩ := Finset.mem_image.mp hi
  exact Finset.mem_range.mpr b.toNat_lt

theorem injOn_toNat (s : Finset UInt8) : Set.InjOn UInt8.toNat s := fun _ _ _ _ h =>
  UInt8.toNat_inj.mp h

/-- A sum over the 256 counters is one over the bytes that occur. -/
theorem sum_counters (data : List UInt8) (g : ℕ → ℝ) (hg : g 0 = 0) :
    ((byteFrequencies data).map g).sum = ∑ b ∈ data.toFinset, g (data.count b) := by
  -- The counter of a byte that does not occur is zero.
  have houtside : ∀ i ∈ Finset.range 256, i ∉ data.toFinset.image UInt8.toNat →
      g (data.count (UInt8.ofNat i)) = 0 := by
    intro i hi hnot
    have hmem : UInt8.ofNat i ∉ data := fun hmem => hnot <| Finset.mem_image.mpr
      ⟨UInt8.ofNat i, List.mem_toFinset.mpr hmem, UInt8.toNat_ofNat_of_lt' (Finset.mem_range.mp hi)⟩
    rw [List.count_eq_zero_of_not_mem hmem, hg]
  calc ((byteFrequencies data).map g).sum
      = ((List.range 256).map fun i => g (data.count (UInt8.ofNat i))).sum := by
        rw [byteFrequencies_eq, List.map_map]
        rfl
    _ = ∑ i ∈ Finset.range 256, g (data.count (UInt8.ofNat i)) := rfl
    _ = ∑ i ∈ data.toFinset.image UInt8.toNat, g (data.count (UInt8.ofNat i)) :=
        (Finset.sum_subset (image_toNat_subset data) houtside).symm
    _ = ∑ b ∈ data.toFinset, g (data.count b) := by
        rw [Finset.sum_image (injOn_toNat _)]
        simp only [UInt8.ofNat_toNat]

@[simp] theorem exact_shannonEntropy_nil : (shannonEntropy []).exact = 0 := rfl

/-- The calculator computes the entropy of the frequencies of the bytes. -/
theorem exact_shannonEntropy {data : List UInt8} (h : data ≠ []) :
    (shannonEntropy data).exact = (FrequencyTable.ofList data h).entropy := by
  rw [shannonEntropy, if_neg (by simpa using h), exact_eq_sum, computeShannonEntropy,
    sum_filterMap_pos (fun s => Real.negMulLog (s.1 / s.2)) (by simp),
    sum_counters data (fun freq => Real.negMulLog (freq / data.length)) (by simp)]
  simp only [FrequencyTable.entropy, FrequencyTable.share, FrequencyTable.total_ofList]
  rfl

/-! ### Bounds -/

theorem card_bytes_le (data : List UInt8) : data.toFinset.card ≤ 256 := by
  rw [← Finset.card_image_of_injOn (injOn_toNat data.toFinset), ← Finset.card_range 256]
  exact Finset.card_le_card (image_toNat_subset data)

/-- `EntropyLevel::classify` of the real number. -/
noncomputable def EntropyLevel.classifyExact (entropy : ℝ) : EntropyLevel :=
  if entropy < 4.0 then .low
  else if entropy < 6.5 then .normal
  else if entropy < 7.5 then .high
  else .veryHigh

theorem isSuspicious_classifyExact {entropy : ℝ} :
    (EntropyLevel.classifyExact entropy).isSuspicious = true ↔ 7.5 ≤ entropy := by
  rw [EntropyLevel.classifyExact]
  split_ifs with hlow hnormal hhigh
  · exact iff_of_false Bool.false_ne_true (by linarith)
  · exact iff_of_false Bool.false_ne_true (by linarith)
  · exact iff_of_false Bool.false_ne_true (by linarith)
  · exact iff_of_true rfl (by linarith)

/-- 181 equally frequent symbols stay just below seven and a half bits:
`181 ^ 2 < 2 ^ 15`. -/
theorem le_of_le_logb {k : ℕ} (hk : 0 < k) (h : 7.5 ≤ Real.logb 2 k) : 182 ≤ k := by
  have hpow : (2 : ℝ) ^ (7.5 : ℝ) ≤ k :=
    (Real.le_logb_iff_rpow_le one_lt_two (Nat.cast_pos.mpr hk)).mp h
  have hsq : ((2 : ℝ) ^ (7.5 : ℝ)) ^ 2 = 2 ^ 15 := by
    rw [← Real.rpow_natCast, ← Real.rpow_mul zero_le_two]
    norm_num
  have hk2 : (2 : ℝ) ^ 15 ≤ (k : ℝ) ^ 2 := by
    rw [← hsq]
    exact pow_le_pow_left₀ (Real.rpow_nonneg zero_le_two _) hpow 2
  by_contra hlt
  have hk181 : k ^ 2 ≤ 181 ^ 2 := Nat.pow_le_pow_left (by omega) 2
  have hnat : 2 ^ 15 ≤ k ^ 2 := by exact_mod_cast hk2
  omega

/-- The entropy of data with `k` different bytes lies between zero, which
is reached by one byte alone, and the logarithm of `k`, which is reached by
equally frequent bytes. Nothing with fewer than 182 different bytes is
suspicious. -/
theorem entropy_le_log_distinct (data : List UInt8) (h : data ≠ []) :
    0 ≤ (shannonEntropy data).exact ∧
      (shannonEntropy data).exact ≤ Real.logb 2 data.toFinset.card ∧
      Real.logb 2 data.toFinset.card ≤ 8 ∧
      ((shannonEntropy data).exact = 0 ↔ data.toFinset.card = 1) ∧
      ((shannonEntropy data).exact = Real.logb 2 data.toFinset.card ↔
        ∀ b ∈ data, ∀ c ∈ data, data.count b = data.count c) ∧
      ((EntropyLevel.classifyExact (shannonEntropy data).exact).isSuspicious = true →
        182 ≤ data.toFinset.card) := by
  rw [exact_shannonEntropy h]
  have hpos : 0 < data.toFinset.card := (FrequencyTable.ofList data h).card_pos
  have hle : (FrequencyTable.ofList data h).entropy ≤ Real.logb 2 data.toFinset.card :=
    FrequencyTable.entropy_le _
  have hequal : (FrequencyTable.ofList data h).entropy = Real.logb 2 data.toFinset.card ↔
      ∀ b ∈ data.toFinset, ∀ c ∈ data.toFinset, data.count b = data.count c :=
    FrequencyTable.entropy_eq_logb_iff _
  have height : Real.logb 2 data.toFinset.card ≤ 8 := by
    rw [Real.logb_le_iff_le_rpow one_lt_two (Nat.cast_pos.mpr hpos)]
    exact_mod_cast card_bytes_le data
  refine ⟨FrequencyTable.entropy_nonneg _, hle, height, FrequencyTable.entropy_eq_zero_iff _, ?_, ?_⟩
  · simpa only [List.mem_toFinset] using hequal
  · intro hsuspicious
    exact le_of_le_logb hpos ((isSuspicious_classifyExact.mp hsuspicious).trans hle)

/-- Two bytes in equal shares: one bit. -/
theorem entropy_le_log_distinct_slash : [47, 97] ≠ ([] : List UInt8) ∧
    (shannonEntropy [47, 97]).exact = Real.logb 2 2 := by
  have hne : [47, 97] ≠ ([] : List UInt8) := by decide
  have hcard : ([47, 97] : List UInt8).toFinset.card = 2 := by decide
  obtain ⟨-, -, -, -, hequal, -⟩ := entropy_le_log_distinct [47, 97] hne
  rw [hcard, Nat.cast_ofNat] at hequal
  have hnodup : ([47, 97] : List UInt8).Nodup := by decide
  refine ⟨hne, hequal.mpr fun b hb c hc => ?_⟩
  rw [List.count_eq_one_of_mem hnodup hb, List.count_eq_one_of_mem hnodup hc]

end BackupService
