import BackupService.Extract
import BackupService.Lib.LastWrite
import Mathlib.Data.List.Induction

/-!
The updater of the configuration.

A cycle of the updater fetches a payload and merges it. What the endpoint
answers is a `FetchReply`, and the payload is read as `serde` derives it from the
declarations of `RemoteConfigUpdate` and `RateLimitUpdate`. Against that
stands the documented format: five fields (`Field`), each at its place in the
payload, each an integer of its range or `null` or absent. A cycle succeeds
when the reply is in that format, and then every field it names gets the
named value (`applyUpdate_get`). A sequence of cycles is thus five registers,
and each reads what was written last.
-/

namespace BackupService

open Lib Lib.Json

/-! ### Fetching and merging -/

/-- The integers of a `u64`. -/
def asU64 : Decoder UInt64 := fun j =>
  (asInt 0 18446744073709551616 j).map fun n => UInt64.ofNat n.toNat

def RateLimitUpdate.keys : List String := ["max_requests", "window_secs"]

def RateLimitUpdate.deserialize : Decoder RateLimitUpdate := fun j => do
  let m ← j.members keys
  let maxRequests ← m.orDefault "max_requests" (asOption asU64) none
  let windowSecs ← m.orDefault "window_secs" (asOption asU64) none
  return { maxRequests, windowSecs }

def RemoteConfigUpdate.keys : List String :=
  ["rate_limit", "cache_ttl_secs", "cached_list_limit", "cached_list_offset"]

def RemoteConfigUpdate.deserialize : Decoder RemoteConfigUpdate := fun j => do
  let m ← j.members keys
  let rateLimit ← m.orDefault "rate_limit" (asOption RateLimitUpdate.deserialize) none
  let cacheTtlSecs ← m.orDefault "cache_ttl_secs" (asOption asU64) none
  let cachedListLimit ← m.orDefault "cached_list_limit" (asOption asI64) none
  let cachedListOffset ← m.orDefault "cached_list_offset" (asOption asI64) none
  return { rateLimit, cacheTtlSecs, cachedListLimit, cachedListOffset }

/-- What comes of a request to the endpoint. -/
inductive FetchReply
  | transportError
  /-- The body is `none` when it is not JSON. -/
  | response (status : ℕ) (body : Option Json)

/-- `Response::error_for_status_ref` -/
def isErrorStatus (status : ℕ) : Bool := 400 ≤ status && status < 600

def fetchConfig : FetchReply → Option RemoteConfigUpdate
  | .transportError => none
  | .response status body =>
      if isErrorStatus status then none else body.bind RemoteConfigUpdate.deserialize

/-- One cycle; the answer says whether it has succeeded. -/
def runOneUpdate (reply : FetchReply) (config : AppConfig) : Bool × AppConfig :=
  match fetchConfig reply with
  | some update => (true, applyUpdate config update)
  | none => (false, config)

/-- The cycles of `run_updater_loop` that get these replies. -/
def runUpdaterLoop (replies : List FetchReply) (config : AppConfig) : AppConfig :=
  replies.foldl (fun config reply => (runOneUpdate reply config).2) config

/-! ### The documented format -/

/-- The updatable fields. -/
inductive Field
  | maxRequests
  | windowSecs
  | cacheTtlSecs
  | cachedListLimit
  | cachedListOffset
  deriving DecidableEq, Repr

namespace Field

def get (config : AppConfig) : Field → ℤ
  | maxRequests => config.rateLimit.maxRequests.toNat
  | windowSecs => config.rateLimit.windowSecs.toNat
  | cacheTtlSecs => config.cacheTtlSecs.toNat
  | cachedListLimit => config.cachedListLimit
  | cachedListOffset => config.cachedListOffset

/-- The range of its type, `lo ≤ n < hi`. -/
def lo : Field → ℤ
  | cachedListLimit | cachedListOffset => -9223372036854775808
  | _ => 0

def hi : Field → ℤ
  | cachedListLimit | cachedListOffset => 9223372036854775808
  | _ => 18446744073709551616

/-- What a payload gives for a field. -/
def given (payload : Json) : Field → Option Json
  | maxRequests => rateLimit "max_requests"
  | windowSecs => rateLimit "window_secs"
  | cacheTtlSecs => top "cache_ttl_secs"
  | cachedListLimit => top "cached_list_limit"
  | cachedListOffset => top "cached_list_offset"
where
  top (key : String) : Option Json :=
    (payload.members RemoteConfigUpdate.keys).bind fun m => m.given key
  rateLimit (key : String) : Option Json :=
    ((top "rate_limit").bind fun j => j.members RateLimitUpdate.keys).bind fun m => m.given key

/-- The payload names the field, with the value `n`. -/
def Names (f : Field) (payload : Json) (n : ℤ) : Prop := f.given payload = some (.int n)

end Field

/-- The payload is in the documented format. -/
structure WellFormed (payload : Json) : Prop where
  members : (payload.members RemoteConfigUpdate.keys).isSome
  rateLimit : ∀ j, Field.given.top payload "rate_limit" = some j →
    j = .null ∨ (j.members RateLimitUpdate.keys).isSome
  fields : ∀ (f : Field) j, f.given payload = some j →
    j = .null ∨ ∃ n, j = .int n ∧ f.lo ≤ n ∧ n < f.hi

namespace FetchReply

/-- The cycle succeeds. -/
def Succeeds : FetchReply → Prop
  | transportError => False
  | response status body => ¬ isErrorStatus status ∧ ∃ payload, body = some payload ∧
      WellFormed payload

/-- The reply names the field, with the value `n`. -/
def Names (f : Field) (n : ℤ) : FetchReply → Prop
  | transportError => False
  | response _ body => ∃ payload, body = some payload ∧ f.Names payload n

end FetchReply

/-! ### Reading the format -/

section Reading

/-- What is given for an integer field, and what is read from it. -/
inductive Reads (lo hi : ℤ) : Option Json → Option ℤ → Prop
  | absent : Reads lo hi none none
  | null : Reads lo hi (some .null) none
  | int {n : ℤ} (hlo : lo ≤ n) (hhi : n < hi) : Reads lo hi (some (.int n)) (some n)

variable {m : Members} {key : String} {lo hi : ℤ} {j : Option Json} {v : Option ℤ}

theorem reads_orDefault : m.orDefault key (asOption (asInt lo hi)) none = some v ↔
    Reads lo hi (m.given key) v := by
  unfold Members.orDefault
  cases m.given key with
  | none =>
      constructor
      · rintro ⟨⟩
        exact .absent
      · rintro ⟨⟩
        rfl
  | some j =>
      by_cases hj : j = .null
      · subst hj
        constructor
        · rintro ⟨⟩
          exact .null
        · rintro ⟨⟩
          rfl
      · dsimp only
        rw [asOption_of_ne_null hj, Option.map_eq_some_iff]
        constructor
        · rintro ⟨n, hn, rfl⟩
          obtain ⟨rfl, hlo, hhi⟩ := asInt_eq_some.mp hn
          exact .int hlo hhi
        · intro h
          cases h with
          | null => exact absurd rfl hj
          | int hlo hhi => exact ⟨_, asInt_eq_some.mpr ⟨rfl, hlo, hhi⟩, rfl⟩

theorem Reads.iff_names (h : Reads lo hi j v) (n : ℤ) : v = some n ↔ j = some (.int n) := by
  cases h <;> simp

/-- An integer field can be read unless what is given for it is neither
`null` nor in its range. -/
theorem exists_reads : (∃ v, Reads lo hi j v) ↔
    ∀ x, j = some x → x = .null ∨ ∃ n, x = .int n ∧ lo ≤ n ∧ n < hi := by
  constructor
  · rintro ⟨v, h⟩ x rfl
    cases h with
    | null => exact .inl rfl
    | int hlo hhi => exact .inr ⟨_, rfl, hlo, hhi⟩
  · intro h
    cases j with
    | none => exact ⟨none, .absent⟩
    | some x =>
        obtain rfl | ⟨n, rfl, hlo, hhi⟩ := h x rfl
        · exact ⟨none, .null⟩
        · exact ⟨some n, .int hlo hhi⟩

theorem toNat_ofNat_toNat {n : ℤ} (hlo : 0 ≤ n) (hhi : n < 18446744073709551616) :
    ((UInt64.ofNat n.toNat).toNat : ℤ) = n := by
  rw [UInt64.toNat_ofNat', Nat.mod_eq_of_lt (by omega)]
  omega

/-- A `u64` field is an integer field of its range. -/
theorem reads_u64 {u : Option UInt64} :
    m.orDefault key (asOption asU64) none = some u ↔
      Reads 0 18446744073709551616 (m.given key) (u.map fun n => (n.toNat : ℤ)) := by
  have hread : m.orDefault key (asOption asU64) none =
      (m.orDefault key (asOption (asInt 0 18446744073709551616)) none).map
        (Option.map fun n => UInt64.ofNat n.toNat) := by
    unfold Members.orDefault
    cases m.given key with
    | none => rfl
    | some j =>
        by_cases hj : j = .null
        · subst hj
          rfl
        · dsimp only
          rw [asOption_of_ne_null hj, asOption_of_ne_null hj, asU64]
          cases asInt 0 18446744073709551616 j <;> rfl
  rw [hread, Option.map_eq_some_iff]
  constructor
  · rintro ⟨v, hv, rfl⟩
    have h := reads_orDefault.mp hv
    generalize m.given key = given at h
    cases h with
    | absent => exact .absent
    | null => exact .null
    | int hlo hhi =>
        rw [Option.map_some, Option.map_some, toNat_ofNat_toNat hlo hhi]
        exact .int hlo hhi
  · intro h
    refine ⟨_, reads_orDefault.mpr h, ?_⟩
    cases u with
    | none => rfl
    | some n => simp

/-- What an update says about a field. -/
def Field.value (u : RemoteConfigUpdate) : Field → Option ℤ
  | maxRequests => (u.rateLimit.bind RateLimitUpdate.maxRequests).map fun n => (n.toNat : ℤ)
  | windowSecs => (u.rateLimit.bind RateLimitUpdate.windowSecs).map fun n => (n.toNat : ℤ)
  | cacheTtlSecs => u.cacheTtlSecs.map fun n => (n.toNat : ℤ)
  | cachedListLimit => u.cachedListLimit
  | cachedListOffset => u.cachedListOffset

theorem rateLimit_deserialize_eq_some {j : Json} {u : RateLimitUpdate} :
    RateLimitUpdate.deserialize j = some u ↔ ∃ m, j.members RateLimitUpdate.keys = some m ∧
      Reads 0 18446744073709551616 (m.given "max_requests")
        (u.maxRequests.map fun n => (n.toNat : ℤ)) ∧
      Reads 0 18446744073709551616 (m.given "window_secs")
        (u.windowSecs.map fun n => (n.toNat : ℤ)) := by
  simp only [RateLimitUpdate.deserialize, bind, pure, Option.bind_eq_some_iff, Option.some.injEq,
    ← reads_u64]
  constructor
  · rintro ⟨m, hm, maxRequests, h₁, windowSecs, h₂, rfl⟩
    exact ⟨m, hm, h₁, h₂⟩
  · rintro ⟨m, hm, h₁, h₂⟩
    exact ⟨m, hm, _, h₁, _, h₂, rfl⟩

/-- How the `rate_limit` object is read. -/
theorem rateLimit_orDefault {u : Option RateLimitUpdate} :
    m.orDefault "rate_limit" (asOption RateLimitUpdate.deserialize) none = some u ↔
      (m.given "rate_limit" = none ∨ m.given "rate_limit" = some .null) ∧ u = none ∨
      ∃ j r, m.given "rate_limit" = some j ∧ j ≠ .null ∧
        RateLimitUpdate.deserialize j = some r ∧ u = some r := by
  unfold Members.orDefault
  cases m.given "rate_limit" with
  | none => simp [eq_comm]
  | some j =>
      by_cases hj : j = .null
      · subst hj
        simp [eq_comm]
      · dsimp only
        rw [asOption_of_ne_null hj, Option.map_eq_some_iff]
        constructor
        · rintro ⟨r, hr, rfl⟩
          exact .inr ⟨j, r, rfl, hj, hr, rfl⟩
        · rintro (⟨h | h, -⟩ | ⟨j', r, h, -, hr, rfl⟩)
          · cases h
          · exact absurd (Option.some.inj h) hj
          · cases h
            exact ⟨r, hr, rfl⟩

theorem deserialize_eq_some {payload : Json} {u : RemoteConfigUpdate} :
    RemoteConfigUpdate.deserialize payload = some u ↔
      ∃ m, payload.members RemoteConfigUpdate.keys = some m ∧
        m.orDefault "rate_limit" (asOption RateLimitUpdate.deserialize) none = some u.rateLimit ∧
        Reads 0 18446744073709551616 (m.given "cache_ttl_secs")
          (u.cacheTtlSecs.map fun n => (n.toNat : ℤ)) ∧
        Reads (-9223372036854775808) 9223372036854775808 (m.given "cached_list_limit")
          u.cachedListLimit ∧
        Reads (-9223372036854775808) 9223372036854775808 (m.given "cached_list_offset")
          u.cachedListOffset := by
  simp only [RemoteConfigUpdate.deserialize, bind, pure, Option.bind_eq_some_iff, Option.some.injEq]
  constructor
  · rintro ⟨m, hm, rateLimit, h₁, cacheTtlSecs, h₂, cachedListLimit, h₃, cachedListOffset, h₄, rfl⟩
    exact ⟨m, hm, h₁, reads_u64.mp h₂, reads_orDefault.mp h₃, reads_orDefault.mp h₄⟩
  · rintro ⟨m, hm, h₁, h₂, h₃, h₄⟩
    exact ⟨m, hm, _, h₁, _, reads_u64.mpr h₂, _, reads_orDefault.mpr h₃, _, reads_orDefault.mpr h₄,
      rfl⟩

section Payload

variable {payload : Json} {u : RemoteConfigUpdate}

/-- Every field of an update is read from its place in the payload. -/
theorem reads_of_deserialize (h : RemoteConfigUpdate.deserialize payload = some u) (f : Field) :
    Reads f.lo f.hi (f.given payload) (f.value u) := by
  obtain ⟨m, hm, hrl, httl, hlimit, hoffset⟩ := deserialize_eq_some.mp h
  have htop : ∀ key, Field.given.top payload key = m.given key := fun key => by
    rw [Field.given.top, hm, Option.bind_some]
  have hnested : ∀ (key : String) (value : RateLimitUpdate → Option UInt64),
      (∀ r m', RateLimitUpdate.deserialize r = some m' → ∃ m'', r.members RateLimitUpdate.keys =
        some m'' ∧ Reads 0 18446744073709551616 (m''.given key)
          ((value m').map fun n => (n.toNat : ℤ))) →
      Reads 0 18446744073709551616 (Field.given.rateLimit payload key)
        ((u.rateLimit.bind value).map fun n => (n.toNat : ℤ)) := by
    intro key value hread
    rw [Field.given.rateLimit, htop]
    obtain ⟨hgiven | hgiven, hnone⟩ | ⟨j, r, hgiven, -, hr, hsome⟩ := rateLimit_orDefault.mp hrl
    · rw [hgiven, hnone]
      exact .absent
    · rw [hgiven, hnone]
      exact .absent
    · obtain ⟨m'', hm'', hreads⟩ := hread j r hr
      rw [hgiven, hsome, Option.bind_some, Option.bind_some, hm'', Option.bind_some]
      exact hreads
  cases f with
  | maxRequests =>
      refine hnested "max_requests" RateLimitUpdate.maxRequests fun j r hr => ?_
      obtain ⟨m'', hm'', hreads, -⟩ := rateLimit_deserialize_eq_some.mp hr
      exact ⟨m'', hm'', hreads⟩
  | windowSecs =>
      refine hnested "window_secs" RateLimitUpdate.windowSecs fun j r hr => ?_
      obtain ⟨m'', hm'', -, hreads⟩ := rateLimit_deserialize_eq_some.mp hr
      exact ⟨m'', hm'', hreads⟩
  | cacheTtlSecs =>
      show Reads _ _ (Field.given.top payload "cache_ttl_secs") _
      rw [htop]
      exact httl
  | cachedListLimit =>
      show Reads _ _ (Field.given.top payload "cached_list_limit") _
      rw [htop]
      exact hlimit
  | cachedListOffset =>
      show Reads _ _ (Field.given.top payload "cached_list_offset") _
      rw [htop]
      exact hoffset

theorem exists_reads_u64 {j : Option Json} (h : ∃ v, Reads 0 18446744073709551616 j v) :
    ∃ n : Option UInt64, Reads 0 18446744073709551616 j (n.map fun n => (n.toNat : ℤ)) := by
  obtain ⟨v, hv⟩ := h
  cases hv with
  | absent => exact ⟨none, .absent⟩
  | null => exact ⟨none, .null⟩
  | @int n hlo hhi =>
      refine ⟨some (UInt64.ofNat n.toNat), ?_⟩
      rw [Option.map_some, toNat_ofNat_toNat hlo hhi]
      exact .int hlo hhi

/-- **A payload is read** exactly when it is in the documented format. -/
theorem deserialize_isSome :
    (∃ u, RemoteConfigUpdate.deserialize payload = some u) ↔ WellFormed payload := by
  constructor
  · rintro ⟨u, hu⟩
    obtain ⟨m, hm, hrl, -⟩ := deserialize_eq_some.mp hu
    refine ⟨by rw [hm]; rfl, fun j hj => ?_, fun f => ?_⟩
    · rw [Field.given.top, hm, Option.bind_some] at hj
      obtain ⟨h | h, -⟩ | ⟨j', r, h, -, hr, -⟩ := rateLimit_orDefault.mp hrl
      · rw [h] at hj
        cases hj
      · rw [h] at hj
        exact .inl (Option.some.inj hj).symm
      · rw [h] at hj
        obtain rfl := Option.some.inj hj
        obtain ⟨m', hm', -⟩ := rateLimit_deserialize_eq_some.mp hr
        exact .inr (by rw [hm']; rfl)
    · exact exists_reads.mp ⟨_, reads_of_deserialize hu f⟩
  · intro h
    obtain ⟨m, hm⟩ := Option.isSome_iff_exists.mp h.members
    have htop : ∀ key, Field.given.top payload key = m.given key := fun key => by
      rw [Field.given.top, hm, Option.bind_some]
    have hfield : ∀ f : Field, ∃ v, Reads f.lo f.hi (f.given payload) v := fun f =>
      exists_reads.mpr (h.fields f)
    have hrl : ∃ u, m.orDefault "rate_limit" (asOption RateLimitUpdate.deserialize) none = some u := by
      cases hgiven : m.given "rate_limit" with
      | none => exact ⟨none, rateLimit_orDefault.mpr (.inl ⟨.inl hgiven, rfl⟩)⟩
      | some j =>
          obtain rfl | hmembers := h.rateLimit j ((htop _).trans hgiven)
          · exact ⟨none, rateLimit_orDefault.mpr (.inl ⟨.inr hgiven, rfl⟩)⟩
          · obtain ⟨m', hm'⟩ := Option.isSome_iff_exists.mp hmembers
            have hnested : ∀ key, Field.given.rateLimit payload key = m'.given key := fun key => by
              rw [Field.given.rateLimit, htop, hgiven, Option.bind_some, hm', Option.bind_some]
            obtain ⟨maxRequests, hmax⟩ := exists_reads_u64 (hfield .maxRequests)
            obtain ⟨windowSecs, hwindow⟩ := exists_reads_u64 (hfield .windowSecs)
            have hr : RateLimitUpdate.deserialize j = some ⟨maxRequests, windowSecs⟩ :=
              rateLimit_deserialize_eq_some.mpr
                ⟨m', hm', hnested "max_requests" ▸ hmax, hnested "window_secs" ▸ hwindow⟩
            have hne : j ≠ .null := fun hj => by
              rw [hj] at hm'
              cases hm'
            exact ⟨_, rateLimit_orDefault.mpr (.inr ⟨j, _, hgiven, hne, hr, rfl⟩)⟩
    obtain ⟨rateLimit, hrl⟩ := hrl
    obtain ⟨cacheTtlSecs, httl⟩ := exists_reads_u64 (hfield .cacheTtlSecs)
    obtain ⟨cachedListLimit, hlimit⟩ := hfield .cachedListLimit
    obtain ⟨cachedListOffset, hoffset⟩ := hfield .cachedListOffset
    exact ⟨⟨rateLimit, cacheTtlSecs, cachedListLimit, cachedListOffset⟩, deserialize_eq_some.mpr
      ⟨m, hm, hrl, htop "cache_ttl_secs" ▸ httl, htop "cached_list_limit" ▸ hlimit,
        htop "cached_list_offset" ▸ hoffset⟩⟩

end Payload

end Reading

/-! ### Merging -/

section Merging

variable {config : AppConfig} {reply : FetchReply} {replies : List FetchReply}

/-- A field after a merge. -/
theorem applyUpdate_get (config : AppConfig) (u : RemoteConfigUpdate) (f : Field) :
    f.get (applyUpdate config u) = (f.value u).getD (f.get config) := by
  rcases u with ⟨_ | ⟨_ | _, _ | _⟩, _ | _, _ | _, _ | _⟩ <;> cases f <;> rfl

/-- What a merge may change. -/
theorem applyUpdate_frame (config : AppConfig) (u : RemoteConfigUpdate) :
    applyUpdate config u = { config with
      rateLimit := (applyUpdate config u).rateLimit
      cacheTtlSecs := (applyUpdate config u).cacheTtlSecs
      cachedListLimit := (applyUpdate config u).cachedListLimit
      cachedListOffset := (applyUpdate config u).cachedListOffset } := by
  rcases u with ⟨_ | ⟨_ | _, _ | _⟩, _ | _, _ | _, _ | _⟩ <;> rfl

theorem fetchConfig_isSome : (∃ u, fetchConfig reply = some u) ↔ reply.Succeeds := by
  cases reply with
  | transportError => simp [fetchConfig, FetchReply.Succeeds]
  | response status body =>
      cases hstatus : isErrorStatus status with
      | true => simp [fetchConfig, FetchReply.Succeeds, hstatus]
      | false =>
          cases body with
          | none => simp [fetchConfig, FetchReply.Succeeds, hstatus]
          | some payload =>
              simp [fetchConfig, FetchReply.Succeeds, hstatus, ← deserialize_isSome]

theorem fetchConfig_value {u : RemoteConfigUpdate} (h : fetchConfig reply = some u) (f : Field)
    (n : ℤ) : f.value u = some n ↔ reply.Names f n := by
  cases reply with
  | transportError => cases h
  | response status body =>
      simp only [fetchConfig] at h
      split at h
      · cases h
      · obtain ⟨payload, rfl, hu⟩ := Option.bind_eq_some_iff.mp h
        rw [(reads_of_deserialize hu f).iff_names]
        simp [FetchReply.Names, Field.Names]

theorem runUpdaterLoop_concat :
    runUpdaterLoop (replies ++ [reply]) config =
      (runOneUpdate reply (runUpdaterLoop replies config)).2 := by
  rw [runUpdaterLoop, List.foldl_append]
  rfl

/-- What a cycle writes to a field. -/
def Field.write (f : Field) (reply : FetchReply) : Option ℤ := (fetchConfig reply).bind f.value

theorem Field.write_eq_some {f : Field} {n : ℤ} :
    f.write reply = some n ↔ reply.Succeeds ∧ reply.Names f n := by
  rw [Field.write, Option.bind_eq_some_iff, ← fetchConfig_isSome]
  constructor
  · rintro ⟨u, hu, hn⟩
    exact ⟨⟨u, hu⟩, (fetchConfig_value hu f n).mp hn⟩
  · rintro ⟨⟨u, hu⟩, hn⟩
    exact ⟨u, hu, (fetchConfig_value hu f n).mpr hn⟩

theorem runOneUpdate_get (f : Field) :
    f.get (runOneUpdate reply config).2 = (f.write reply).getD (f.get config) := by
  unfold runOneUpdate Field.write
  cases fetchConfig reply with
  | none => rfl
  | some u => exact applyUpdate_get config u f

/-- The five fields are registers that every cycle writes. -/
theorem runUpdaterLoop_get (f : Field) :
    f.get (runUpdaterLoop replies config) = lastWrite f.write replies (f.get config) := by
  induction replies using List.reverseRecOn with
  | nil => rfl
  | append_singleton replies reply ih =>
      rw [runUpdaterLoop_concat, runOneUpdate_get, ih, lastWrite_concat]

theorem runUpdaterLoop_frame : runUpdaterLoop replies config = { config with
    rateLimit := (runUpdaterLoop replies config).rateLimit
    cacheTtlSecs := (runUpdaterLoop replies config).cacheTtlSecs
    cachedListLimit := (runUpdaterLoop replies config).cachedListLimit
    cachedListOffset := (runUpdaterLoop replies config).cachedListOffset } := by
  induction replies using List.reverseRecOn with
  | nil => rfl
  | append_singleton replies reply ih =>
      rw [runUpdaterLoop_concat]
      unfold runOneUpdate
      cases fetchConfig reply with
      | none => exact ih
      | some u =>
          dsimp only
          rw [applyUpdate_frame]
          generalize applyUpdate (runUpdaterLoop replies config) u = merged
          rw [ih]

/-- **Config updates are atomic, confined, and the last writer wins.** After
any cycles each updatable field has the value of the last cycle that
succeeded and named it, or else its initial value; all other fields have
their initial values; and a cycle that fails changes nothing. -/
theorem config_updates (config : AppConfig) (replies : List FetchReply) :
    (∀ f : Field,
      (∃ pre reply post n, replies = pre ++ reply :: post ∧ reply.Succeeds ∧ reply.Names f n ∧
          (∀ later ∈ post, later.Succeeds → ∀ n', ¬ later.Names f n') ∧
          f.get (runUpdaterLoop replies config) = n) ∨
        (∀ reply ∈ replies, reply.Succeeds → ∀ n, ¬ reply.Names f n) ∧
          f.get (runUpdaterLoop replies config) = f.get config) ∧
    runUpdaterLoop replies config = { config with
      rateLimit := (runUpdaterLoop replies config).rateLimit
      cacheTtlSecs := (runUpdaterLoop replies config).cacheTtlSecs
      cachedListLimit := (runUpdaterLoop replies config).cachedListLimit
      cachedListOffset := (runUpdaterLoop replies config).cachedListOffset } ∧
    ∀ reply : FetchReply, ∀ current : AppConfig,
      (reply.Succeeds → (runOneUpdate reply current).1 = true) ∧
      (¬ reply.Succeeds → runOneUpdate reply current = (false, current)) := by
  have hsilent : ∀ (f : Field) (reply : FetchReply), f.write reply = none →
      reply.Succeeds → ∀ n, ¬ reply.Names f n := by
    intro f reply hnone hsucceeds n hnames
    rw [Field.write_eq_some.mpr ⟨hsucceeds, hnames⟩] at hnone
    cases hnone
  refine ⟨fun f => ?_, runUpdaterLoop_frame, fun reply current => ?_⟩
  · rw [runUpdaterLoop_get]
    obtain ⟨pre, reply, post, heq, hwrite, hpost⟩ | ⟨hnone, heq⟩ :=
      lastWrite_cases f.write replies (f.get config)
    · obtain ⟨hsucceeds, hnames⟩ := Field.write_eq_some.mp hwrite
      exact .inl ⟨pre, reply, post, _, heq, hsucceeds, hnames,
        fun later hlater => hsilent f later (hpost later hlater), rfl⟩
    · exact .inr ⟨fun reply hreply => hsilent f reply (hnone reply hreply), heq⟩
  · unfold runOneUpdate
    rw [← fetchConfig_isSome]
    cases fetchConfig reply with
    | none => simp
    | some u => simp

end Merging

end BackupService
