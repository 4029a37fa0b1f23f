import MlsTls.Lib.Wire

/-! When a connection updates its keys: after some time, after some traffic, or both. Sums that
leave their range are panics, here `none`. -/
namespace MlsTls.EncryptionProvider
open Lib

/-- Points in time and durations of the libraries: comparison, and addition within the range. -/
structure Chrono where
  DateTime : Type
  Duration : Type
  ble : DateTime → DateTime → Bool
  add : DateTime → Duration → Option DateTime

/-- An update is due `duration` after the last one. -/
structure TimeBasedUpdatePolicy (K : Chrono) where
  duration : K.Duration
  lastUpdate : K.DateTime

/-- An update is due when `updateThreshold` bytes have been sent since the last one. -/
structure TrafficBasedUpdatePolicy where
  updateThreshold : ℕ
  bytesTransferred : ℕ
  deriving DecidableEq, Repr

/-- Either part may be missing; without both there are no updates. -/
structure UpdatePolicy (K : Chrono) where
  timeBased : Option (TimeBasedUpdatePolicy K)
  trafficBased : Option TrafficBasedUpdatePolicy

namespace TimeBasedUpdatePolicy
variable {K : Chrono}

def new (duration : K.Duration) (now : K.DateTime) : TimeBasedUpdatePolicy K := ⟨duration,now⟩

/-- The sum is made on every call, so that a duration that is too long panics each time. -/
def updateIsDue (policy : TimeBasedUpdatePolicy K) (now : K.DateTime) : Option Bool :=
  (K.add policy.lastUpdate policy.duration).map fun next => K.ble next now

def setUpdateTime (policy : TimeBasedUpdatePolicy K) (now : K.DateTime) : TimeBasedUpdatePolicy K :=
  { policy with lastUpdate := now }

end TimeBasedUpdatePolicy

namespace TrafficBasedUpdatePolicy

def new (updateThreshold : ℕ) : TrafficBasedUpdatePolicy := ⟨updateThreshold,0⟩

def updateIsDue (policy : TrafficBasedUpdatePolicy) : Bool :=
  policy.updateThreshold ≤ policy.bytesTransferred

/-- `+=` on a `u64` that is checked for overflow. -/
def incrementBytesTransferred (policy : TrafficBasedUpdatePolicy) (bytes : ℕ) :
    Option TrafficBasedUpdatePolicy :=
  if policy.bytesTransferred+bytes < u64Size then
    some { policy with bytesTransferred := policy.bytesTransferred+bytes }
  else none

def reset (policy : TrafficBasedUpdatePolicy) : TrafficBasedUpdatePolicy :=
  { policy with bytesTransferred := 0 }

end TrafficBasedUpdatePolicy

namespace UpdatePolicy
variable {K : Chrono}

/-- One part that is due is enough. -/
def updateIsDue (policy : UpdatePolicy K) (now : K.DateTime) : Option Bool := do
  let timeBasedIsDue ← match policy.timeBased with
    | none => some false
    | some policy => policy.updateIsDue now
  let trafficBasedIsDue := policy.trafficBased.any (·.updateIsDue)
  return timeBasedIsDue || trafficBasedIsDue

/-- After an update both parts start again. -/
def reset (policy : UpdatePolicy K) (now : K.DateTime) : UpdatePolicy K :=
  ⟨policy.timeBased.map (·.setUpdateTime now),policy.trafficBased.map (·.reset)⟩

def incrementBytesTransferred (policy : UpdatePolicy K) (bytes : ℕ) : Option (UpdatePolicy K) :=
  match policy.trafficBased with
  | none => some policy
  | some traffic =>
    (traffic.incrementBytesTransferred bytes).map fun t => { policy with trafficBased := some t }

/-- After a reset there is more room to count than before. -/
theorem incrementBytesTransferred_reset {policy : UpdatePolicy K} {now : K.DateTime} {bytes : ℕ}
    (h : (policy.reset now).incrementBytesTransferred bytes = none) :
    policy.incrementBytesTransferred bytes = none := by
  obtain ⟨timeBased,trafficBased⟩ := policy
  cases trafficBased with
  | none => simp [reset,incrementBytesTransferred] at h
  | some traffic =>
    simp only [reset,incrementBytesTransferred,Option.map_some,Option.map_eq_none_iff,
      TrafficBasedUpdatePolicy.incrementBytesTransferred,TrafficBasedUpdatePolicy.reset,
      ite_eq_right_iff,reduceCtorEq,imp_false] at h ⊢
    omega

end UpdatePolicy
end MlsTls.EncryptionProvider
