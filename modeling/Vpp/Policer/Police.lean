import Vpp.Schemes.Run

/-! The policer (`vnet/policer/police.h`).

    A policer has two buckets. With one rate both fill at that rate; a packet that conforms is charged to both, one
    that exceeds to the extended bucket. With two rates each bucket has its own, and a packet has to fit into the
    extended bucket in any case.

                        conform                exceed                violate
        single rate     current >= length      extended >= length    else
        two rates       both >= length         extended >= length    extended < length -/

namespace Vpp.Qos

/-- `policer_result_e` -/
inductive PolicerResult where
  | conform | exceed | violate
deriving DecidableEq

structure Policer where
  singleRate : BitVec 32
  colorAware : BitVec 32
  scale : BitVec 32
  cirTokensPerPeriod : BitVec 32
  pirTokensPerPeriod : BitVec 32
  currentLimit : BitVec 32
  currentBucket : BitVec 32
  extendedLimit : BitVec 32
  extendedBucket : BitVec 32
  lastUpdateTime : BitVec 64
deriving DecidableEq

/-- The tokens of a bucket after some periods. -/
def tokens (bucket limit rate : BitVec 32) (nPeriods : BitVec 64) : BitVec 64 :=
  let t := bucket.setWidth 64 + nPeriods * rate.setWidth 64
  if t > limit.setWidth 64 then limit.setWidth 64 else t

/-- What is left of them, as it is written to a bucket. -/
def less (t : BitVec 64) (packetLength : BitVec 32) : BitVec 32 := (t - packetLength.setWidth 64).setWidth 32

def vnetPolicePacket (p : Policer) (packetLength : BitVec 32) (packetColor : PolicerResult) (time : BitVec 64) :
    PolicerResult × Policer :=
  let packetLength := packetLength <<< p.scale.toNat
  let nPeriods := time - p.lastUpdateTime
  let p := { p with lastUpdateTime := time }
  if p.singleRate ≠ 0 then
    let currentTokens := tokens p.currentBucket p.currentLimit p.cirTokensPerPeriod nPeriods
    let extendedTokens := tokens p.extendedBucket p.extendedLimit p.cirTokensPerPeriod nPeriods
    if (p.colorAware = 0 ∨ packetColor = .conform) ∧ currentTokens ≥ packetLength.setWidth 64 then
      (.conform, { p with currentBucket := less currentTokens packetLength
                          extendedBucket := less extendedTokens packetLength })
    else if (p.colorAware = 0 ∨ packetColor ≠ .violate) ∧ extendedTokens ≥ packetLength.setWidth 64 then
      (.exceed, { p with currentBucket := currentTokens.setWidth 32
                         extendedBucket := less extendedTokens packetLength })
    else
      (.violate, { p with currentBucket := currentTokens.setWidth 32, extendedBucket := extendedTokens.setWidth 32 })
  else
    let currentTokens := tokens p.currentBucket p.currentLimit p.cirTokensPerPeriod nPeriods
    let extendedTokens := tokens p.extendedBucket p.extendedLimit p.pirTokensPerPeriod nPeriods
    if (p.colorAware ≠ 0 ∧ packetColor = .violate) ∨ extendedTokens < packetLength.setWidth 64 then
      (.violate, { p with currentBucket := currentTokens.setWidth 32, extendedBucket := extendedTokens.setWidth 32 })
    else if (p.colorAware ≠ 0 ∧ packetColor = .exceed) ∨ currentTokens < packetLength.setWidth 64 then
      (.exceed, { p with currentBucket := currentTokens.setWidth 32
                         extendedBucket := less extendedTokens packetLength })
    else
      (.conform, { p with currentBucket := less currentTokens packetLength
                          extendedBucket := less extendedTokens packetLength })

/-- A call of `vnet_police_packet`. -/
structure Call where
  packetLength : BitVec 32
  packetColor : PolicerResult
  time : BitVec 64
deriving DecidableEq

def police (p : Policer) (c : Call) : PolicerResult × Policer := vnetPolicePacket p c.packetLength c.packetColor c.time

/-- A call with its result, and the policer after it. -/
structure Policed where
  call : Call
  result : PolicerResult
  after : Policer
deriving DecidableEq

/-- The calls of a run. -/
def policed (p : Policer) : List Call → List Policed
  | [] => []
  | c :: cs => ⟨c, (police p c).1, (police p c).2⟩ :: policed (police p c).2 cs

end Vpp.Qos
