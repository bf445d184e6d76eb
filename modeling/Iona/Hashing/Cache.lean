import Iona.Types
import Iona.Lib.Expiring

/-!
# The hash cache

From `types/mod.rs`.
-/

namespace Iona

structure TypesConfig where
  enableHashCache : Bool := true
  cacheSize : ℕ := 1024
  cacheTtlSecs : UInt64 := 300

namespace TypesConfig

def validate (config : TypesConfig) : Except String Unit :=
  if config.cacheSize = 0 then .error "cache_size must be > 0"
  else if config.cacheTtlSecs = 0 then .error "cache_ttl_secs must be > 0"
  else .ok ()

def ttl (config : TypesConfig) : ℕ := config.cacheTtlSecs.toNat * 10 ^ 9

end TypesConfig

structure HashCache (config : TypesConfig) where
  inner : Option (Expiring.Cache UInt64 Hash32 config.cacheSize)

inductive HashEntryPoint where
  | hashBytes
  | getOrCompute
  deriving DecidableEq

structure HashCall where
  entry : HashEntryPoint
  bytes : List UInt8
  now : ℕ

namespace HashCache

variable {config : TypesConfig} (C : Crypto) (lastInstant : ℕ)

def new (config : TypesConfig) : Except String (HashCache config) := do
  config.validate
  if config.enableHashCache then
    if config.cacheSize = 0 then .error "cache_size must be > 0"
    else .ok ⟨some (Lru.Cache.empty _ _ _)⟩
  else .ok ⟨none⟩

def computeKey (bytes : List UInt8) : UInt64 := C.sipHash (Bytes.le 8 bytes.length ++ bytes)

def lookup (cache : HashCache config) (key : UInt64) (now : ℕ) :
    Option Hash32 × HashCache config :=
  match cache.inner with
  | none => (none, cache)
  | some lru => ((Expiring.lookup key now lru).1, ⟨some (Expiring.lookup key now lru).2⟩)

def insert (cache : HashCache config) (key : UInt64) (hash : Hash32) (now : ℕ) :
    Option (HashCache config) :=
  match cache.inner with
  | none => some cache
  | some lru =>
    if now + config.ttl ≤ lastInstant then some ⟨some (lru.put key (hash, now + config.ttl))⟩
    else none

def getOrCompute (cache : HashCache config) (bytes : List UInt8) (now : ℕ) :
    Option (Hash32 × HashCache config) :=
  if config.enableHashCache then
    match cache.lookup (computeKey C bytes) now with
    | (some hit, cache) => some (hit, cache)
    | (none, cache) =>
      (cache.insert lastInstant (computeKey C bytes) (hashBytes C bytes) now).map fun cache =>
        (hashBytes C bytes, cache)
  else some (hashBytes C bytes, cache)

def hashBytesVia (installed : Bool) (cache : HashCache config) (bytes : List UInt8) (now : ℕ) :
    Option (Hash32 × HashCache config) :=
  if installed && config.enableHashCache then cache.getOrCompute C lastInstant bytes now
  else some (hashBytes C bytes, cache)

def step (installed : Bool) (cache : HashCache config) (call : HashCall) :
    Option (Hash32 × HashCache config) :=
  match call.entry with
  | .hashBytes => cache.hashBytesVia C lastInstant installed call.bytes call.now
  | .getOrCompute => cache.getOrCompute C lastInstant call.bytes call.now

def answers (installed : Bool) : HashCache config → List HashCall → Option (List Hash32)
  | _, [] => some []
  | cache, call :: calls => do
    let (hash, cache) ← cache.step C lastInstant installed call
    let hashes ← answers installed cache calls
    some (hash :: hashes)

/-! ### What is stored -/

def Sound (S : Set (List UInt8)) (cache : HashCache config) : Prop :=
  ∀ lru, cache.inner = some lru → ∀ e ∈ lru.entries,
    ∃ x ∈ S, computeKey C x = e.1 ∧ hashBytes C x = e.2.1

def KeysSeparate (S : Set (List UInt8)) : Prop :=
  ∀ x ∈ S, ∀ y ∈ S, computeKey C x = computeKey C y → hashBytes C x = hashBytes C y

variable {C lastInstant} {S : Set (List UInt8)} {cache cache' : HashCache config}

lemma new_eq_ok_iff : new config = .ok cache ↔
    config.cacheSize ≠ 0 ∧ config.cacheTtlSecs ≠ 0 ∧
      cache.inner = if config.enableHashCache then some (Lru.Cache.empty _ _ _) else none := by
  obtain ⟨inner⟩ := cache
  unfold new TypesConfig.validate
  by_cases hsize : config.cacheSize = 0
  · simp [hsize, bind, Except.bind]
  by_cases httl : config.cacheTtlSecs = 0
  · simp [hsize, httl, bind, Except.bind]
  cases henabled : config.enableHashCache <;> simp [hsize, httl, bind, Except.bind, eq_comm]

lemma sound_of_new (h : new config = .ok cache) : cache.Sound C S := by
  intro lru hlru e he
  rw [(new_eq_ok_iff.mp h).2.2] at hlru
  split at hlru
  · cases hlru
    cases he
  · cases hlru

lemma Sound.lookup (h : cache.Sound C S) (key : UInt64) (now : ℕ) :
    (cache.lookup key now).2.Sound C S ∧
      ∀ hit, (cache.lookup key now).1 = some hit →
        ∃ x ∈ S, computeKey C x = key ∧ hashBytes C x = hit := by
  unfold HashCache.lookup
  cases hinner : cache.inner with
  | none => exact ⟨h, fun hit hhit => by cases hhit⟩
  | some lru =>
    refine ⟨fun lru' hlru' e he => ?_, fun hit hhit => ?_⟩
    · cases hlru'
      exact h lru hinner e (Expiring.mem_of_mem_lookup he)
    · obtain ⟨expires, hmem, -⟩ := Expiring.exists_of_lookup hhit
      exact h lru hinner _ hmem

lemma Sound.insert (h : cache.Sound C S) {x : List UInt8} (hx : x ∈ S) {now : ℕ}
    (hins : cache.insert lastInstant (computeKey C x) (hashBytes C x) now = some cache') :
    cache'.Sound C S := by
  unfold HashCache.insert at hins
  cases hinner : cache.inner with
  | none =>
    rw [hinner] at hins
    cases hins
    exact h
  | some lru =>
    simp only [hinner] at hins
    split at hins
    · cases hins
      intro lru' hlru' e he
      cases hlru'
      rcases Lru.Cache.mem_of_mem_put he with rfl | he
      · exact ⟨x, hx, rfl, rfl⟩
      · exact h lru hinner e he
    · cases hins

lemma Sound.getOrCompute (h : cache.Sound C S) (hkeys : KeysSeparate C S) {x : List UInt8}
    (hx : x ∈ S) {now : ℕ} (hnow : now + config.ttl ≤ lastInstant) :
    ∃ cache', cache.getOrCompute C lastInstant x now = some (hashBytes C x, cache') ∧
      cache'.Sound C S := by
  unfold HashCache.getOrCompute
  split
  · obtain ⟨hsound, hhit⟩ := h.lookup (computeKey C x) now
    split
    · rename_i hit cache₁ hlookup
      rw [hlookup] at hsound hhit
      obtain ⟨y, hy, hkey, hhash⟩ := hhit hit rfl
      refine ⟨cache₁, ?_, hsound⟩
      rw [← hhash, hkeys y hy x hx hkey]
    · rename_i cache₁ hlookup
      rw [hlookup] at hsound
      cases hins : cache₁.insert lastInstant (computeKey C x) (hashBytes C x) now with
      | none =>
        unfold HashCache.insert at hins
        split at hins <;> simp [hnow] at hins
      | some cache₂ => exact ⟨cache₂, rfl, hsound.insert hx hins⟩
  · exact ⟨cache, rfl, h⟩

lemma Sound.step (h : cache.Sound C S) (hkeys : KeysSeparate C S) {call : HashCall}
    (hx : call.bytes ∈ S) (hnow : call.now + config.ttl ≤ lastInstant) (installed : Bool) :
    ∃ cache', cache.step C lastInstant installed call = some (hashBytes C call.bytes, cache') ∧
      cache'.Sound C S := by
  unfold HashCache.step
  split
  · unfold hashBytesVia
    split
    · exact h.getOrCompute hkeys hx hnow
    · exact ⟨cache, rfl, h⟩
  · exact h.getOrCompute hkeys hx hnow

lemma Sound.answers (h : cache.Sound C S) (hkeys : KeysSeparate C S) (installed : Bool)
    {calls : List HashCall}
    (hcalls : ∀ call ∈ calls, call.bytes ∈ S ∧ call.now + config.ttl ≤ lastInstant) :
    cache.answers C lastInstant installed calls =
      some (calls.map fun call => hashBytes C call.bytes) := by
  induction calls generalizing cache with
  | nil => rfl
  | cons call calls ih =>
    obtain ⟨⟨hx, hnow⟩, hrest⟩ := List.forall_mem_cons.mp hcalls
    obtain ⟨cache', hstep, hsound⟩ := h.step hkeys hx hnow installed
    rw [HashCache.answers, hstep]
    simp only [Option.bind_eq_bind, Option.bind_some, ih hsound hrest, List.map_cons]

/-! ### Caching switched off, and the first two calls otherwise -/

lemma answers_of_disabled (hoff : config.enableHashCache = false) (installed : Bool)
    (cache : HashCache config) (calls : List HashCall) :
    cache.answers C lastInstant installed calls =
      some (calls.map fun call => hashBytes C call.bytes) := by
  have hstep : ∀ call, cache.step C lastInstant installed call =
      some (hashBytes C call.bytes, cache) := by
    intro call
    cases hentry : call.entry <;> simp [step, hentry, hashBytesVia, HashCache.getOrCompute, hoff]
  induction calls with
  | nil => rfl
  | cons call calls ih =>
    rw [HashCache.answers, hstep]
    simp only [Option.bind_eq_bind, Option.bind_some, ih, List.map_cons]

lemma answers_pair (hnew : new config = .ok cache) (hon : config.enableHashCache = true)
    (installed : Bool) (x y : List UInt8) (now : ℕ) (hkey : computeKey C x = computeKey C y) :
    cache.answers C lastInstant installed [⟨.getOrCompute, x, now⟩, ⟨.getOrCompute, y, now⟩] =
      if now + config.ttl ≤ lastInstant then some [hashBytes C x, hashBytes C x] else none := by
  obtain ⟨hsize, httl, hinner⟩ := new_eq_ok_iff.mp hnew
  rw [if_pos hon] at hinner
  have hlive : now < now + config.ttl := by
    have hsecs : 0 < config.cacheTtlSecs.toNat :=
      Nat.pos_of_ne_zero fun h => httl (UInt64.toNat_inj.mp h)
    rw [TypesConfig.ttl]
    omega
  have hmiss : cache.lookup (computeKey C x) now = (none, cache) := by
    rw [HashCache.lookup, hinner]
    cases cache
    cases hinner
    rfl
  have hfirst : cache.step C lastInstant installed ⟨.getOrCompute, x, now⟩ =
      (cache.insert lastInstant (computeKey C x) (hashBytes C x) now).map fun cache =>
        (hashBytes C x, cache) := by
    simp only [step, HashCache.getOrCompute, hon, if_true, hmiss]
  by_cases hfits : now + config.ttl ≤ lastInstant
  · -- the second lookup meets what the first call has stored
    have hput : cache.insert lastInstant (computeKey C x) (hashBytes C x) now =
        some ⟨some ((Lru.Cache.empty _ _ _).put (computeKey C x)
          (hashBytes C x, now + config.ttl))⟩ := by
      simp only [HashCache.insert, hinner, if_pos hfits]
    have hhit := Expiring.lookup_put (k := computeKey C x) (v := hashBytes C x)
      (Nat.pos_of_ne_zero hsize) hlive (Lru.Cache.empty _ _ _)
    rw [HashCache.answers, hfirst, hput, if_pos hfits]
    simp only [Option.map_some, Option.bind_eq_bind, Option.bind_some, HashCache.answers, step,
      HashCache.getOrCompute, hon, if_true, ← hkey, HashCache.lookup, hhit]
  · have hpanic : cache.insert lastInstant (computeKey C x) (hashBytes C x) now = none := by
      simp only [HashCache.insert, hinner, if_neg hfits]
    rw [HashCache.answers, hfirst, hpanic, if_neg hfits]
    rfl

end HashCache

/-- **When the hash cache is transparent**: it is off, or its entries can expire and strings with
one 64-bit key have one hash. -/
theorem hashCache_transparent_iff {config : TypesConfig} {cache : HashCache config}
    (hnew : HashCache.new config = .ok cache) (C : Crypto) (lastInstant : ℕ) (installed : Bool)
    (S : Set (List UInt8)) (T : Set ℕ) :
    (∀ calls : List HashCall, (∀ call ∈ calls, call.bytes ∈ S ∧ call.now ∈ T) →
        (calls.map HashCall.now).Pairwise (· ≤ ·) →
        cache.answers C lastInstant installed calls =
          some (calls.map fun call => hashBytes C call.bytes)) ↔
      (config.enableHashCache = true → ∀ now ∈ T, ∀ x ∈ S,
        now + config.ttl ≤ lastInstant ∧
          ∀ y ∈ S, HashCache.computeKey C x = HashCache.computeKey C y →
            hashBytes C x = hashBytes C y) := by
  constructor
  · intro h hon now hnow x hx
    have hpair : ∀ y ∈ S, HashCache.computeKey C x = HashCache.computeKey C y →
        (if now + config.ttl ≤ lastInstant then some [hashBytes C x, hashBytes C x] else none) =
          some [hashBytes C x, hashBytes C y] := by
      intro y hy hkey
      rw [← HashCache.answers_pair hnew hon installed x y now hkey]
      refine h _ ?_ (by simp)
      rintro call hcall
      rcases List.mem_cons.mp hcall with rfl | hcall
      · exact ⟨hx, hnow⟩
      · rw [List.mem_singleton.mp hcall]
        exact ⟨hy, hnow⟩
    have hfits : now + config.ttl ≤ lastInstant := by
      by_contra hover
      have := hpair x hx rfl
      rw [if_neg hover] at this
      cases this
    refine ⟨hfits, fun y hy hkey => ?_⟩
    have := hpair y hy hkey
    rw [if_pos hfits] at this
    simpa using this
  · intro h calls hcalls _
    cases hon : config.enableHashCache with
    | false => exact HashCache.answers_of_disabled hon installed cache calls
    | true =>
      -- the strings and the instants that the sequence uses meet the condition
      refine (HashCache.sound_of_new (S := {x | ∃ call ∈ calls, call.bytes = x}) hnew).answers
        ?_ installed fun call hcall => ⟨⟨call, hcall, rfl⟩, ?_⟩
      · rintro x ⟨call, hcall, rfl⟩ y ⟨call', hcall', rfl⟩ hkey
        exact (h hon call.now (hcalls call hcall).2 call.bytes (hcalls call hcall).1).2 call'.bytes
          (hcalls call' hcall').1 hkey
      · exact (h hon call.now (hcalls call hcall).2 call.bytes (hcalls call hcall).1).1

/-! ### Two strings with one key -/

structure SipState where
  v0 : UInt64
  v1 : UInt64
  v2 : UInt64
  v3 : UInt64

namespace SipState

def rotl (x n : UInt64) : UInt64 := (x <<< n) ||| (x >>> (64 - n))

def round (s : SipState) : SipState :=
  let v0 := s.v0 + s.v1
  let v1 := rotl s.v1 13 ^^^ v0
  let v0 := rotl v0 32
  let v2 := s.v2 + s.v3
  let v3 := rotl s.v3 16 ^^^ v2
  let v0 := v0 + v3
  let v3 := rotl v3 21 ^^^ v0
  let v2 := v2 + v1
  let v1 := rotl v1 17 ^^^ v2
  let v2 := rotl v2 32
  ⟨v0, v1, v2, v3⟩

def absorb (s : SipState) (word : UInt64) : SipState :=
  let s := round { s with v3 := s.v3 ^^^ word }
  { s with v0 := s.v0 ^^^ word }

def finish (s : SipState) : UInt64 :=
  let s := round (round (round { s with v2 := s.v2 ^^^ 0xff }))
  s.v0 ^^^ s.v1 ^^^ s.v2 ^^^ s.v3

def start : SipState :=
  ⟨0x736f6d6570736575, 0x646f72616e646f6d, 0x6c7967656e657261, 0x7465646279746573⟩

end SipState

def sipWords : ℕ → List UInt8 → List UInt64 × UInt64
  | 0, bytes => ([], .ofNat (Nat.ofDigits 256 (bytes.map UInt8.toNat)))
  | n + 1, bytes =>
    let (words, last) := sipWords n (bytes.drop 8)
    (.ofNat (Nat.ofDigits 256 ((bytes.take 8).map UInt8.toNat)) :: words, last)

def sipHash13 (bytes : List UInt8) : UInt64 :=
  let (words, last) := sipWords (bytes.length / 8) bytes
  ((words.foldl SipState.absorb SipState.start).absorb
    (last ||| (UInt64.ofNat bytes.length <<< 56))).finish

def Crypto.sip : Crypto := { Crypto.demo with sipHash := sipHash13 }

def collidingA : List UInt8 := [0x76, 0x44, 0xae, 0x59, 0x54, 0xa0, 0xc6, 0x5d]

def collidingB : List UInt8 := [0x2b, 0x29, 0x33, 0x08, 0xb1, 0xe7, 0xe7, 0x46]

def defaultHashCache : HashCache {} := ⟨some (Lru.Cache.empty _ _ _)⟩

def lastUnixInstant : ℕ := 2 ^ 63 * 10 ^ 9 - 1

/-- The second string is answered with the hash of the first. -/
theorem colliding_keys_answered_wrongly :
    HashCache.new {} = .ok defaultHashCache ∧
      defaultHashCache.answers Crypto.sip lastUnixInstant true
          [⟨.hashBytes, collidingA, 0⟩, ⟨.hashBytes, collidingB, 0⟩] =
        some [hashBytes Crypto.sip collidingA, hashBytes Crypto.sip collidingA] ∧
      hashBytes Crypto.sip collidingB ≠ hashBytes Crypto.sip collidingA := by
  refine ⟨rfl, ?_, ?_⟩ <;> decide +kernel

/-- On one string only, the cache cannot go wrong. -/
theorem hashCache_transparent_single :
    defaultHashCache.answers Crypto.sip lastUnixInstant true
        [⟨.hashBytes, collidingA, 0⟩, ⟨.getOrCompute, collidingA, 0⟩] =
      some [hashBytes Crypto.sip collidingA, hashBytes Crypto.sip collidingA] := by
  have hnew : HashCache.new {} = .ok defaultHashCache := rfl
  refine (hashCache_transparent_iff hnew Crypto.sip lastUnixInstant true {collidingA} {0}).mpr ?_ _
    (by simp) (by simp)
  rintro - now rfl x rfl
  exact ⟨by decide, fun y hy _ => by rw [Set.mem_singleton_iff.mp hy]⟩

end Iona
