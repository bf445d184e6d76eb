import Iona.Prim

/-!
# Transactions, receipts and blocks

The record types of `types/mod.rs` and their hashes.
-/

namespace Iona

open Bytes

abbrev Height := UInt64

abbrev Round := UInt32

structure Tx where
  pubkey : PublicKeyBytes
  «from» : String
  nonce : UInt64
  maxFeePerGas : UInt64
  maxPriorityFeePerGas : UInt64
  gasLimit : UInt64
  payload : String
  signature : SignatureBytes
  chainId : UInt64
  deriving DecidableEq

structure Receipt where
  txHash : Hash32
  success : Bool := false
  gasUsed : UInt64 := 0
  intrinsicGasUsed : UInt64 := 0
  execGasUsed : UInt64 := 0
  vmGasUsed : UInt64 := 0
  evmGasUsed : UInt64 := 0
  effectiveGasPrice : UInt64 := 0
  burned : UInt64 := 0
  tip : UInt64 := 0
  error : Option String := none
  data : Option String := none
  deriving DecidableEq

structure BlockHeader where
  height : Height
  round : Round
  prev : Hash32
  proposerPk : PublicKeyBytes
  txRoot : Hash32
  receiptsRoot : Hash32
  stateRoot : Hash32
  baseFeePerGas : UInt64
  gasUsed : UInt64
  intrinsicGasUsed : UInt64
  execGasUsed : UInt64
  vmGasUsed : UInt64
  evmGasUsed : UInt64
  chainId : UInt64
  timestamp : UInt64
  protocolVersion : UInt32
  deriving DecidableEq

structure Block where
  header : BlockHeader
  txs : List Tx
  deriving DecidableEq

variable (C : Crypto)

def hashBytes (bytes : List UInt8) : Hash32 := C.blake3 bytes

def txHash (tx : Tx) : Hash32 :=
  let payloadBytes := utf8 tx.payload
  let fromBytes := utf8 tx.from
  hashBytes C (utf8 "IONA_TX" ++
    le 2 tx.pubkey.length ++ tx.pubkey ++
    le 2 fromBytes.length ++ fromBytes ++
    ofU64 tx.nonce ++ ofU64 tx.maxFeePerGas ++ ofU64 tx.maxPriorityFeePerGas ++
    ofU64 tx.gasLimit ++ ofU64 tx.chainId ++
    le 4 payloadBytes.length ++ payloadBytes)

def txRoot (txs : List Tx) : Hash32 :=
  hashBytes C (utf8 "IONA_TXROOT" ++ le 4 txs.length ++
    txs.flatMap fun tx => (txHash C tx).toList)

def receiptsRoot (receipts : List Receipt) : Hash32 :=
  hashBytes C (utf8 "IONA_RCPROOT" ++ le 4 receipts.length ++
    receipts.flatMap fun r =>
      r.txHash.toList ++ [if r.success then 1 else 0] ++ ofU64 r.gasUsed ++
        ofU64 r.effectiveGasPrice ++ ofU64 r.burned ++ ofU64 r.tip)

def Block.id (block : Block) : Hash32 :=
  let h := block.header
  hashBytes C (utf8 "IONA_BLK" ++
    ofU64 h.height ++ ofU32 h.round ++ h.prev.toList ++
    le 2 h.proposerPk.length ++ h.proposerPk ++
    h.txRoot.toList ++ h.receiptsRoot.toList ++ h.stateRoot.toList ++
    ofU64 h.baseFeePerGas ++ ofU64 h.gasUsed ++ ofU64 h.intrinsicGasUsed ++
    ofU64 h.execGasUsed ++ ofU64 h.vmGasUsed ++ ofU64 h.evmGasUsed ++
    ofU64 h.chainId ++ ofU64 h.timestamp ++ ofU32 h.protocolVersion)

end Iona
