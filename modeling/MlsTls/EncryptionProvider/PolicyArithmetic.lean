import MlsTls.EncryptionProvider.UpdatePolicy
import Mathlib.Data.List.Induction

/-! The sums of an update policy over whole sequences of calls. Neither the time of the next update
nor the counter is checked: the calls stay in range exactly if the time of each reset that is asked
about has a sum with the duration and the traffic between two resets fits a `u64`. -/
namespace MlsTls.EncryptionProvider
open Lib

inductive PolicyCall (K : Chrono)
  | incrementBytesTransferred (bytes : ℕ)
  | reset (now : K.DateTime)
  | updateIsDue (now : K.DateTime)

namespace PolicyCall
variable {K : Chrono}

/-- A call leaves the policy behind; there is none where a sum leaves its range. -/
def call (policy : UpdatePolicy K) : PolicyCall K → Option (UpdatePolicy K)
  | incrementBytesTransferred bytes => policy.incrementBytesTransferred bytes
  | reset now => some (policy.reset now)
  | updateIsDue now => (policy.updateIsDue now).map fun _ => policy

def run (policy : UpdatePolicy K) (calls : List (PolicyCall K)) : Option (UpdatePolicy K) :=
  calls.foldlM call policy

def isReset : PolicyCall K → Bool
  | reset _ => true
  | _ => false

/-- The bytes reported since the last reset. -/
def sinceReset (calls : List (PolicyCall K)) : ℕ :=
  calls.foldl (fun n c => match c with
    | incrementBytesTransferred bytes => n+bytes
    | reset _ => 0
    | updateIsDue _ => n) 0

/-- The time given to the last reset, or else that of the policy's creation. -/
def lastReset (created : K.DateTime) (calls : List (PolicyCall K)) : K.DateTime :=
  calls.foldl (fun t c => match c with
    | reset now => now
    | _ => t) created

/-- The policies that the constructors admit. -/
def configured (duration : Option K.Duration) (threshold : Option ℕ) (created : K.DateTime) :
    UpdatePolicy K :=
  ⟨duration.map (TimeBasedUpdatePolicy.new · created),threshold.map TrafficBasedUpdatePolicy.new⟩

def trafficIsDue (policy : UpdatePolicy K) : Bool := policy.trafficBased.any (·.updateIsDue)

/-- Every call returns without leaving a range, and traffic that is due stays due until a reset. -/
structure Safe (policy : UpdatePolicy K) (calls : List (PolicyCall K)) : Prop where
  returns : ∃ policy', run policy calls = some policy'
  stays_due : ∀ {before between policy'}, before++between <+: calls →
    run policy before = some policy' → trafficIsDue policy' = true → (∀ c ∈ between, c.isReset = false) →
    ∃ policy'', run policy' between = some policy'' ∧ trafficIsDue policy'' = true

/-- What the calls ask of the arithmetic. -/
structure InRange (duration : Option K.Duration) (threshold : Option ℕ) (created : K.DateTime)
    (calls : List (PolicyCall K)) : Prop where
  time : ∀ {before now d}, before++[updateIsDue now] <+: calls → duration = some d →
    ∃ next, K.add (lastReset created before) d = some next
  traffic : threshold.isSome = true → ∀ {before}, before <+: calls → sinceReset before < u64Size

section
variable {duration : Option K.Duration} {threshold : Option ℕ} {created : K.DateTime}
  {calls : List (PolicyCall K)}

/-- What a configured policy is after some calls. -/
def after (duration : Option K.Duration) (threshold : Option ℕ) (created : K.DateTime)
    (calls : List (PolicyCall K)) : UpdatePolicy K :=
  ⟨duration.map (⟨·,lastReset created calls⟩),threshold.map (⟨·,sinceReset calls⟩)⟩

lemma InRange.initial {before : List (PolicyCall K)} (h : InRange duration threshold created calls)
    (hp : before <+: calls) : InRange duration threshold created before :=
  ⟨fun hb hd => h.time (hb.trans hp) hd,fun ht _ hb => h.traffic ht (hb.trans hp)⟩

/-- What the last call asks of the arithmetic. -/
def LastInRange (duration : Option K.Duration) (threshold : Option ℕ) (created : K.DateTime)
    (calls : List (PolicyCall K)) : PolicyCall K → Prop
  | incrementBytesTransferred bytes => threshold.isSome = true → sinceReset calls+bytes < u64Size
  | reset _ => True
  | updateIsDue _ => ∀ {d}, duration = some d → ∃ next, K.add (lastReset created calls) d = some next

@[simp] lemma sinceReset_concat (calls : List (PolicyCall K)) (c : PolicyCall K) :
    sinceReset (calls++[c]) = match c with
      | incrementBytesTransferred bytes => sinceReset calls+bytes
      | reset _ => 0
      | updateIsDue _ => sinceReset calls := by
  rw [sinceReset,List.foldl_append]
  rfl

@[simp] lemma lastReset_concat (calls : List (PolicyCall K)) (c : PolicyCall K) :
    lastReset created (calls++[c]) = match c with
      | reset now => now
      | _ => lastReset created calls := by
  rw [lastReset,List.foldl_append]
  rfl

lemma inRange_nil : InRange duration threshold created [] := by
  refine ⟨fun hb => ?_,fun _ {before} hb => ?_⟩
  · simp at hb
  · rw [List.prefix_nil.mp hb]
    exact Nat.two_pow_pos 64

lemma inRange_concat (c : PolicyCall K) : InRange duration threshold created (calls++[c]) ↔
    InRange duration threshold created calls ∧ LastInRange duration threshold created calls c := by
  constructor
  · intro h
    refine ⟨h.initial (List.prefix_append _ _),?_⟩
    cases c with
    | incrementBytesTransferred bytes =>
      intro ht
      simpa using h.traffic ht List.prefix_rfl
    | reset now => trivial
    | updateIsDue now => exact fun hd => h.time List.prefix_rfl hd
  · rintro ⟨h,hc⟩
    refine ⟨fun {before now d} hb hd => ?_,fun ht {before} hb => ?_⟩
    · rcases List.prefix_concat_iff.mp hb with heq | hb
      · obtain ⟨rfl,hnow⟩ := List.append_inj' heq rfl
        obtain rfl := List.singleton_inj.mp hnow
        exact hc hd
      · exact h.time hb hd
    · rcases List.prefix_concat_iff.mp hb with rfl | hb
      · cases c with
        | incrementBytesTransferred bytes => simpa using hc ht
        | reset now =>
          simp only [sinceReset_concat]
          decide
        | updateIsDue now => simpa using h.traffic ht List.prefix_rfl
      · exact h.traffic ht hb

lemma call_after (c : PolicyCall K) (policy' : UpdatePolicy K) :
    c.call (after duration threshold created calls) = some policy' ↔
      LastInRange duration threshold created calls c ∧
        policy' = after duration threshold created (calls++[c]) := by
  cases c with
  | incrementBytesTransferred bytes =>
    cases threshold with
    | none => simp [call,after,UpdatePolicy.incrementBytesTransferred,LastInRange,eq_comm]
    | some n =>
      by_cases hb : sinceReset calls+bytes < u64Size
      · simp [call,after,UpdatePolicy.incrementBytesTransferred,LastInRange,hb,
          TrafficBasedUpdatePolicy.incrementBytesTransferred,eq_comm]
      · simp [call,after,UpdatePolicy.incrementBytesTransferred,LastInRange,hb,
          TrafficBasedUpdatePolicy.incrementBytesTransferred]
  | reset now =>
    simp [call,after,UpdatePolicy.reset,LastInRange,Option.map_map,Function.comp_def,eq_comm,
      TimeBasedUpdatePolicy.setUpdateTime,TrafficBasedUpdatePolicy.reset]
  | updateIsDue now =>
    cases duration with
    | none => simp [call,after,UpdatePolicy.updateIsDue,LastInRange,eq_comm]
    | some d =>
      cases hadd : K.add (lastReset created calls) d with
      | none =>
        simp [call,after,UpdatePolicy.updateIsDue,TimeBasedUpdatePolicy.updateIsDue,LastInRange,hadd]
      | some next =>
        simp [call,after,UpdatePolicy.updateIsDue,TimeBasedUpdatePolicy.updateIsDue,LastInRange,hadd,
          eq_comm]

lemma run_concat (policy : UpdatePolicy K) (calls : List (PolicyCall K)) (c : PolicyCall K) :
    run policy (calls++[c]) = (run policy calls).bind fun p => c.call p := by
  simp [run,List.foldlM_append]

/-- A run: all calls return exactly if all stay in range, and leave what the history says. -/
theorem run_configured (policy' : UpdatePolicy K) :
    run (configured duration threshold created) calls = some policy' ↔
      InRange duration threshold created calls ∧ policy' = after duration threshold created calls := by
  induction calls using List.reverseRecOn generalizing policy' with
  | nil =>
    rw [and_iff_right inRange_nil,eq_comm]
    exact Option.some_inj
  | append_singleton calls c ih =>
    rw [run_concat,Option.bind_eq_some_iff,inRange_concat,and_assoc,← call_after]
    constructor
    · rintro ⟨p,hp,hc⟩
      obtain ⟨hr,rfl⟩ := (ih p).mp hp
      exact ⟨hr,hc⟩
    · rintro ⟨hr,hc⟩
      exact ⟨_,(ih _).mpr ⟨hr,rfl⟩,hc⟩

lemma sinceReset_mono (before : List (PolicyCall K)) {between : List (PolicyCall K)}
    (h : ∀ c ∈ between, c.isReset = false) : sinceReset before ≤ sinceReset (before++between) := by
  induction between using List.reverseRecOn with
  | nil => simp
  | append_singleton between c ih =>
    have hle := ih fun c hc => h c (List.mem_append_left _ hc)
    rw [← List.append_assoc,sinceReset_concat]
    cases c with
    | incrementBytesTransferred bytes => exact Nat.le_add_right_of_le hle
    | reset now => simpa [isReset] using h (.reset now)
    | updateIsDue now => exact hle

lemma after_stays_due {before between : List (PolicyCall K)} (h : ∀ c ∈ between, c.isReset = false)
    (hdue : trafficIsDue (after duration threshold created before) = true) :
    trafficIsDue (after duration threshold created (before++between)) = true := by
  have hmono := sinceReset_mono before h
  cases threshold with
  | none => simp [trafficIsDue,after] at hdue
  | some n =>
    simp only [trafficIsDue,after,Option.map_some,Option.any_some,
      TrafficBasedUpdatePolicy.updateIsDue,decide_eq_true_eq] at hdue ⊢
    omega

/-- For every configuration and every sequence of calls. -/
theorem safe_iff_inRange (duration : Option K.Duration) (threshold : Option ℕ) (created : K.DateTime)
    (calls : List (PolicyCall K)) :
    Safe (configured duration threshold created) calls ↔
      InRange duration threshold created calls := by
  constructor
  · rintro ⟨⟨p,hp⟩,-⟩
    exact ((run_configured p).mp hp).1
  · intro h
    refine ⟨⟨_,(run_configured _).mpr ⟨h,rfl⟩⟩,fun {before between policy'} hb hrun hdue hno => ?_⟩
    obtain ⟨-,rfl⟩ := (run_configured policy').mp hrun
    refine ⟨_,?_,after_stays_due hno hdue⟩
    have hall := (run_configured _).mpr ⟨h.initial hb,rfl⟩
    rwa [run,List.foldlM_append,← run,hrun] at hall

/-- Seconds since the epoch, up to the last one of the calendar, and durations in seconds. -/
def seconds : Chrono where
  DateTime := ℤ
  Duration := ℕ
  ble t u := t ≤ u
  add t d := if t+d ≤ 8210266876799 then some (t+d) else none

/-- The largest duration, which has no sum with any time of today, and a counter at its end. -/
theorem largest_values_unsafe :
    ¬Safe (configured (K := seconds) (some (u64Size-1 : ℕ)) none (0 : ℤ)) [.updateIsDue (0 : ℤ)] ∧
    ¬Safe (configured (K := seconds) none (some 1) (0 : ℤ))
      [.incrementBytesTransferred (u64Size-1),.incrementBytesTransferred 1] := by
  constructor
  · rintro ⟨⟨p,hp⟩,-⟩
    have hask : []++[PolicyCall.updateIsDue (0 : ℤ)] <+: [PolicyCall.updateIsDue (K := seconds) (0 : ℤ)] :=
      List.prefix_rfl
    obtain ⟨next,hnext⟩ := ((run_configured p).mp hp).1.time hask rfl
    simp [seconds,lastReset,u64Size] at hnext
  · rintro ⟨⟨p,hp⟩,-⟩
    have hlt := ((run_configured p).mp hp).1.traffic rfl List.prefix_rfl
    simp [sinceReset,u64Size] at hlt

end
end PolicyCall
end MlsTls.EncryptionProvider
