import Iona.Execution.State
import Iona.Lib.MapDiff

/-!
# Delta snapshots

From `storage/snapshots.rs`.
-/

namespace Iona.Snapshots

structure StateDelta where
  fromHeight : UInt64
  toHeight : UInt64
  kvPut : List (String × String)
  kvDel : List String
  balancesPut : List (String × UInt64)
  balancesDel : List String
  noncesPut : List (String × UInt64)
  noncesDel : List String
  burned : UInt64
  toStateRootHex : String
  deriving DecidableEq

def computeDelta (C : Crypto) (cache : Merkle.RootCache) (fromH toH : UInt64) (src dst : KvState) :
    StateDelta where
  fromHeight := fromH
  toHeight := toH
  kvPut := MapDiff.puts src.kv dst.kv
  kvDel := MapDiff.dels src.kv dst.kv
  balancesPut := MapDiff.puts src.balances dst.balances
  balancesDel := MapDiff.dels src.balances dst.balances
  noncesPut := MapDiff.puts src.nonces dst.nonces
  noncesDel := MapDiff.dels src.nonces dst.nonces
  burned := dst.burned
  toStateRootHex := Bytes.hexEncode (dst.root C cache).1.toList

def applyDelta (base : KvState) (delta : StateDelta) : KvState :=
  { base with
    kv := MapDiff.patch base.kv delta.kvDel delta.kvPut
    balances := MapDiff.patch base.balances delta.balancesDel delta.balancesPut
    nonces := MapDiff.patch base.nonces delta.noncesDel delta.noncesPut
    burned := delta.burned }

variable (C : Crypto) (cache : Merkle.RootCache) (fromH toH : UInt64)

lemma applyDelta_computeDelta (src dst : KvState) :
    applyDelta src (computeDelta C cache fromH toH src dst) = { dst with vm := src.vm } := by
  unfold applyDelta computeDelta
  rw [MapDiff.patch_diff, MapDiff.patch_diff, MapDiff.patch_diff]

def plainRoot (st : KvState) : Hash32 := (st.root C (Lru.Cache.empty _ _ _)).1

/-- **Delta sync** reproduces the target, its root and the root the delta names, exactly if the VM of
both states is the same. -/
theorem delta_reproduces_iff (src dst : KvState) :
    let delta := computeDelta C (Lru.Cache.empty _ _ _) fromH toH src dst
    let out := applyDelta src delta
    ((out.kv = dst.kv ∧ out.balances = dst.balances ∧ out.nonces = dst.nonces ∧
        out.burned = dst.burned ∧ out.vm = dst.vm) ∧
      plainRoot C out = plainRoot C dst ∧
      Bytes.hexEncode (plainRoot C out).toList = delta.toStateRootHex) ↔ src.vm = dst.vm := by
  intro delta out
  have hout : out = { dst with vm := src.vm } := applyDelta_computeDelta C _ fromH toH src dst
  constructor
  · rintro ⟨⟨-, -, -, -, hvm⟩, -⟩
    rw [hout] at hvm
    exact hvm
  · intro hvm
    have hsame : out = dst := by rw [hout, hvm]
    rw [hsame]
    exact ⟨⟨rfl, rfl, rfl, rfl, rfl⟩, rfl, rfl⟩

/-- A deployed contract does not reach the state that is synced. -/
theorem delta_drops_contract :
    let dst : KvState := { vm := { code := (∅ : BTreeMap Word (List UInt8)).insert (Vector.replicate 32 0) [0x00] } }
    let out := applyDelta {} (computeDelta .demo (Lru.Cache.empty _ _ _) 1 2 {} dst)
    out.vm ≠ dst.vm ∧ plainRoot .demo out ≠ plainRoot .demo dst := by
  decide +kernel

end Iona.Snapshots
