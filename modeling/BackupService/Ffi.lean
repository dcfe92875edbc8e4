import BackupService.Models

/-!
The entropy calculator behind the FFI, and the synthetic data both of its
callers feed it.
-/

namespace BackupService

/-- The counting loop of `compute_shannon_entropy`: one increment of
`freq[data[i]]` for every byte. -/
def byteFrequencies (data : List UInt8) : List ℕ :=
  data.foldl (fun freq b => freq.modify b.toNat (· + 1)) (List.replicate 256 0)

/-- The summing loop of `compute_shannon_entropy`, which skips the bytes
that do not occur. -/
def computeShannonEntropy (data : List UInt8) : Entropy where
  summands := (byteFrequencies data).filterMap fun freq =>
    if 0 < freq then some (freq, data.length) else none

/-- `shannon_entropy`: empty data does not reach the C function. -/
def shannonEntropy (data : List UInt8) : Entropy :=
  if data.isEmpty then ⟨[]⟩ else computeShannonEntropy data

/-- The double that the sum stands for. -/
def Entropy.value (entropy : Entropy) : Float :=
  entropy.summands.foldl (fun acc (freq, len) =>
    let p := freq.toFloat / len.toFloat
    acc - p * (p.log / Float.log 2)) 0

inductive EntropyLevel
  | low
  | normal
  | high
  | veryHigh
  deriving DecidableEq, Repr

def EntropyLevel.classify (entropy : Entropy) : EntropyLevel :=
  if entropy.value < 4.0 then .low
  else if entropy.value < 6.5 then .normal
  else if entropy.value < 7.5 then .high
  else .veryHigh

def EntropyLevel.isSuspicious : EntropyLevel → Bool
  | veryHigh => true
  | _ => false

/-- `s.bytes()`. -/
def utf8Bytes (s : String) : List UInt8 := s.toList.flatMap String.utf8EncodeChar

/-- `bytes.cycle().take(n)`; cycling through nothing yields nothing. -/
def cycleTake (bytes : List UInt8) (n : ℕ) : List UInt8 :=
  (List.range n).filterMap fun i => bytes[i % bytes.length]?

@[simp] theorem cycleTake_nil (n : ℕ) : cycleTake [] n = [] := by
  simp [cycleTake]

theorem length_cycleTake {bytes : List UInt8} (h : bytes ≠ []) (n : ℕ) :
    (cycleTake bytes n).length = n := by
  have hpos : 0 < bytes.length := List.length_pos_iff.mpr h
  have hsome : ∀ i ∈ List.range n, (bytes[i % bytes.length]?).isSome := fun i _ => by
    simp [Nat.mod_lt i hpos]
  rw [cycleTake, List.length_filterMap_eq_countP, List.countP_eq_length.mpr hsome,
    List.length_range]

theorem utf8Bytes_ne_nil {s : String} (h : s ≠ "") : utf8Bytes s ≠ [] := by
  intro hnil
  have hchars : s.toList = [] := by
    refine List.eq_nil_iff_forall_not_mem.mpr fun c hc => ?_
    have := List.flatMap_eq_nil_iff.mp hnil c hc
    exact String.utf8EncodeChar_ne_nil this
  exact h (String.toList_eq_nil_iff.mp hchars)

end BackupService
