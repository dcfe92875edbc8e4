import Mathlib.Analysis.Convex.Jensen
import Mathlib.Analysis.SpecialFunctions.Log.Base
import Mathlib.Analysis.SpecialFunctions.Log.NegMulLog

/-!
The Shannon entropy of a table of frequencies, in bits.

A table counts how often each symbol occurs; only symbols that occur are in
it. Three things are known of its entropy. It lies between 0 and the
logarithm of the number of symbols, with equality exactly for one symbol
and for equal counts. It depends on the shares alone, so a table may be
multiplied. And between two tables with one total it is decided by natural
numbers: the entropy is the same exactly if the products of `c ^ c` over
the counts are.
-/

namespace BackupService.Lib

/-- How often each symbol occurs. -/
structure FrequencyTable (ι : Type) where
  support : Finset ι
  count : ι → ℕ
  pos : ∀ i ∈ support, 0 < count i
  nonempty : support.Nonempty

namespace FrequencyTable

variable {ι : Type} (T : FrequencyTable ι)

def total : ℕ := ∑ i ∈ T.support, T.count i

/-- The share of a symbol in the whole. -/
noncomputable def share (i : ι) : ℝ := T.count i / T.total

noncomputable def entropy : ℝ := (∑ i ∈ T.support, Real.negMulLog (T.share i)) / Real.log 2

theorem log_two_pos : 0 < Real.log 2 := Real.log_pos one_lt_two

/-! ### Shares -/

theorem total_pos : 0 < T.total := Finset.sum_pos T.pos T.nonempty

theorem card_pos : 0 < T.support.card := T.nonempty.card_pos

variable {T} {i j : ι}

theorem share_pos (hi : i ∈ T.support) : 0 < T.share i :=
  div_pos (Nat.cast_pos.mpr (T.pos i hi)) (Nat.cast_pos.mpr T.total_pos)

theorem share_le_one (hi : i ∈ T.support) : T.share i ≤ 1 := by
  rw [share, div_le_one (Nat.cast_pos.mpr T.total_pos), Nat.cast_le]
  exact Finset.single_le_sum (fun _ _ => Nat.zero_le _) hi

theorem share_inj : T.share i = T.share j ↔ T.count i = T.count j := by
  have htotal : (T.total : ℝ) ≠ 0 := Nat.cast_ne_zero.mpr T.total_pos.ne'
  rw [share, share, div_left_inj' htotal, Nat.cast_inj]

variable (T)

theorem sum_share : ∑ i ∈ T.support, T.share i = 1 := by
  have htotal : (T.total : ℝ) ≠ 0 := Nat.cast_ne_zero.mpr T.total_pos.ne'
  simp only [share]
  rw [← Finset.sum_div, ← Nat.cast_sum]
  exact div_self htotal

/-! ### No entropy -/

variable {T} in
theorem negMulLog_share_nonneg (hi : i ∈ T.support) : 0 ≤ Real.negMulLog (T.share i) :=
  Real.negMulLog_nonneg (share_pos hi).le (share_le_one hi)

theorem entropy_nonneg : 0 ≤ T.entropy :=
  div_nonneg (Finset.sum_nonneg fun _ hi => negMulLog_share_nonneg hi) log_two_pos.le

theorem negMulLog_eq_zero {x : ℝ} (hx : 0 < x) : Real.negMulLog x = 0 ↔ x = 1 := by
  rw [Real.negMulLog_eq_neg, neg_eq_zero, mul_eq_zero, or_iff_right hx.ne',
    Real.log_eq_zero, or_iff_right hx.ne']
  refine or_iff_left fun hneg => ?_
  linarith

/-- A single symbol has no entropy, and everything else has some. -/
theorem entropy_eq_zero_iff : T.entropy = 0 ↔ T.support.card = 1 := by
  have hnonneg : ∀ i ∈ T.support, 0 ≤ Real.negMulLog (T.share i) := fun i hi =>
    negMulLog_share_nonneg hi
  rw [entropy, div_eq_zero_iff, or_iff_left log_two_pos.ne', Finset.sum_eq_zero_iff_of_nonneg hnonneg]
  constructor
  · intro hzero
    -- Every share is one, and they add up to one.
    have hone : ∀ i ∈ T.support, T.share i = 1 := fun i hi =>
      (negMulLog_eq_zero (share_pos hi)).mp (hzero i hi)
    have hsum := T.sum_share
    rw [Finset.sum_congr rfl hone, Finset.sum_const, nsmul_one] at hsum
    exact_mod_cast hsum
  · intro hcard i hi
    obtain ⟨a, ha⟩ := Finset.card_eq_one.mp hcard
    have hsum := T.sum_share
    rw [ha, Finset.sum_singleton] at hsum
    rw [ha, Finset.mem_singleton] at hi
    rw [hi, hsum, Real.negMulLog_one]

/-! ### Full entropy

Jensen's inequality for `negMulLog`, with equal weights: the mean of the
shares is one over the number of symbols, whatever the shares are. -/

section Jensen

theorem sum_weights : ∑ _i ∈ T.support, (T.support.card : ℝ)⁻¹ = 1 := by
  rw [Finset.sum_const, nsmul_eq_mul]
  exact mul_inv_cancel₀ (Nat.cast_ne_zero.mpr T.card_pos.ne')

theorem weight_pos : 0 < (T.support.card : ℝ)⁻¹ := inv_pos.mpr (Nat.cast_pos.mpr T.card_pos)

theorem negMulLog_mean : Real.negMulLog (∑ i ∈ T.support, (T.support.card : ℝ)⁻¹ • T.share i) =
    (T.support.card : ℝ)⁻¹ * Real.log T.support.card := by
  rw [← Finset.smul_sum, T.sum_share, smul_eq_mul, mul_one, Real.negMulLog, Real.log_inv]
  ring

theorem mean_negMulLog : ∑ i ∈ T.support, (T.support.card : ℝ)⁻¹ • Real.negMulLog (T.share i) =
    (T.support.card : ℝ)⁻¹ * (T.entropy * Real.log 2) := by
  rw [← Finset.smul_sum, smul_eq_mul, entropy, div_mul_cancel₀ _ log_two_pos.ne']

theorem share_mem (i : ι) (hi : i ∈ T.support) : T.share i ∈ Set.Ici (0 : ℝ) := (share_pos hi).le

/-- The entropy is at most that of as many symbols in equal shares. -/
theorem entropy_le : T.entropy ≤ Real.logb 2 T.support.card := by
  have hjensen := Real.concaveOn_negMulLog.le_map_sum (fun _ _ => T.weight_pos.le) T.sum_weights
    T.share_mem
  rw [T.mean_negMulLog, T.negMulLog_mean, mul_le_mul_iff_right₀ T.weight_pos] at hjensen
  rwa [Real.logb, le_div_iff₀ log_two_pos]

theorem entropy_eq_logb_iff : T.entropy = Real.logb 2 T.support.card ↔
    ∀ i ∈ T.support, ∀ j ∈ T.support, T.count i = T.count j := by
  -- The equality case: by strict concavity all shares are the same.
  have hjensen := Real.strictConcaveOn_negMulLog.map_sum_eq_iff_of_pos
    (fun _ _ => T.weight_pos) T.sum_weights T.share_mem
  rw [T.mean_negMulLog, T.negMulLog_mean, mul_right_inj' T.weight_pos.ne'] at hjensen
  rw [Real.logb, eq_div_iff log_two_pos.ne', eq_comm, hjensen]
  simp only [share_inj]

end Jensen

/-! ### Only the shares matter -/

variable {T} {T' : FrequencyTable ι}

theorem entropy_congr (hsupport : T'.support = T.support)
    (hshare : ∀ i ∈ T.support, T'.share i = T.share i) : T'.entropy = T.entropy := by
  rw [entropy, entropy, hsupport]
  refine congrArg (· / Real.log 2) (Finset.sum_congr rfl fun i hi => ?_)
  rw [hshare i hi]

/-- Every symbol `k` times as often. -/
theorem entropy_scale {k : ℕ} (hk : 0 < k) (hsupport : T'.support = T.support)
    (hcount : ∀ i ∈ T.support, T'.count i = k * T.count i) : T'.entropy = T.entropy := by
  have htotal : T'.total = k * T.total := by
    rw [total, total, hsupport, Finset.mul_sum]
    exact Finset.sum_congr rfl hcount
  refine entropy_congr hsupport fun i hi => ?_
  rw [share, share, hcount i hi, htotal, Nat.cast_mul, Nat.cast_mul]
  exact mul_div_mul_left _ _ (Nat.cast_ne_zero.mpr hk.ne')

/-! ### Comparing without logarithms -/

/-- The product of `c ^ c` over the counts. -/
def product (T : FrequencyTable ι) : ℕ := ∏ i ∈ T.support, T.count i ^ T.count i

theorem product_pos (T : FrequencyTable ι) : 0 < T.product :=
  Finset.prod_pos fun i hi => pow_pos (T.pos i hi) _

theorem total_mul_entropy (T : FrequencyTable ι) :
    T.total * (T.entropy * Real.log 2) = T.total * Real.log T.total - Real.log T.product := by
  have htotal : (T.total : ℝ) ≠ 0 := Nat.cast_ne_zero.mpr T.total_pos.ne'
  have hterm : ∀ i ∈ T.support, T.total * Real.negMulLog (T.share i) =
      T.count i * Real.log T.total - T.count i * Real.log (T.count i) := by
    intro i hi
    have hcount : (T.count i : ℝ) ≠ 0 := Nat.cast_ne_zero.mpr (T.pos i hi).ne'
    rw [Real.negMulLog, share, Real.log_div hcount htotal]
    field_simp
    ring
  have hproduct : Real.log T.product = ∑ i ∈ T.support, T.count i * Real.log (T.count i) := by
    rw [product, Nat.cast_prod, Real.log_prod]
    · refine Finset.sum_congr rfl fun i _ => ?_
      rw [Nat.cast_pow, Real.log_pow]
    · intro i hi
      exact Nat.cast_ne_zero.mpr (pow_pos (T.pos i hi) _).ne'
  rw [entropy, div_mul_cancel₀ _ log_two_pos.ne', Finset.mul_sum, Finset.sum_congr rfl hterm,
    Finset.sum_sub_distrib, hproduct, ← Finset.sum_mul, ← Nat.cast_sum]
  rfl

/-- Tables with one total have the same entropy exactly if they have the
same product. -/
theorem entropy_eq_iff (htotal : T.total = T'.total) :
    T.entropy = T'.entropy ↔ T.product = T'.product := by
  have hne : (T.total : ℝ) ≠ 0 := Nat.cast_ne_zero.mpr T.total_pos.ne'
  have hT := T.total_mul_entropy
  have hT' := T'.total_mul_entropy
  rw [← htotal] at hT'
  -- With one total, all that is left of the two entropies is the logarithm of the product.
  have hlog : T.entropy = T'.entropy ↔ Real.log T.product = Real.log T'.product := by
    rw [← mul_left_inj' log_two_pos.ne', ← mul_right_inj' hne, hT, hT', sub_right_inj]
  rw [hlog]
  refine ⟨fun h => ?_, fun h => by rw [h]⟩
  have hpos (S : FrequencyTable ι) : (S.product : ℝ) ∈ Set.Ioi 0 :=
    Set.mem_Ioi.mpr (Nat.cast_pos.mpr S.product_pos)
  exact Nat.cast_inj.mp (Real.log_injOn_pos (hpos T) (hpos T') h)

/-! ### The table of a list -/

section List

variable [DecidableEq ι] {l l' : List ι}

/-- The symbols of a list, counted. -/
def ofList (l : List ι) (hl : l ≠ []) : FrequencyTable ι where
  support := l.toFinset
  count := l.count
  pos _ hi := List.count_pos_iff.mpr (List.mem_toFinset.mp hi)
  nonempty := (List.toFinset_nonempty_iff l).mpr hl

theorem total_ofList (hl : l ≠ []) : (ofList l hl).total = l.length :=
  List.sum_toFinset_count_eq_length l

theorem entropy_ofList_repeat (hl : l ≠ []) {k : ℕ} (hk : 0 < k)
    (hrepeat : (List.replicate k l).flatten ≠ []) :
    (ofList (List.replicate k l).flatten hrepeat).entropy = (ofList l hl).entropy := by
  refine entropy_scale hk ?_ fun i _ => ?_
  · ext i
    simp [ofList, hk.ne']
  · simp [ofList, List.count_flatten]

end List

end FrequencyTable

end BackupService.Lib
