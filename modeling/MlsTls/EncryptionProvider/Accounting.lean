import MlsTls.EncryptionProvider.Connect
import MlsTls.EncryptionProvider.PolicyArithmetic

/-! The accounts of the update policy over a whole run of `send_bytes`. The history of the calls says
what was sent since the last update that succeeded and when that was; the policy agrees with it at
every call, and the decision to update is the one that the history asks for. -/
set_option linter.dupNamespace false

namespace MlsTls.EncryptionProvider
open Lib TlsAead MlsHandshake

/-- What became of the update at the beginning of a call. -/
inductive Attempt
  | none
  | refused
  | succeeded
  | failed
  deriving DecidableEq, Repr

/-- A call of `send_bytes` that has returned. -/
structure SentBytes (K : Chrono) where
  bytes : Bytes
  now : K.DateTime
  attempt : Attempt

namespace SentBytes
variable {K : Chrono}

/-- The bytes sent since the last update that succeeded, those of its own call included. -/
def sinceUpdate (calls : List (SentBytes K)) : ℕ :=
  calls.foldl (fun n c => if c.attempt = .succeeded then c.bytes.length else n+c.bytes.length) 0

/-- The time of the last update that succeeded, or else that of the policy's creation. -/
def lastUpdate (created : K.DateTime) (calls : List (SentBytes K)) : K.DateTime :=
  calls.foldl (fun t c => if c.attempt = .succeeded then c.now else t) created

/-- The history asks for an update. -/
def Due (duration : Option K.Duration) (threshold : Option ℕ) (created : K.DateTime)
    (calls : List (SentBytes K)) (now : K.DateTime) : Prop :=
  (∃ n, threshold = some n ∧ n ≤ sinceUpdate calls) ∨
    ∃ d next, duration = some d ∧ K.add (lastUpdate created calls) d = some next ∧
      K.ble next now = true

@[simp] lemma sinceUpdate_concat (calls : List (SentBytes K)) (c : SentBytes K) :
    sinceUpdate (calls++[c]) =
      if c.attempt = .succeeded then c.bytes.length else sinceUpdate calls+c.bytes.length := by
  rw [sinceUpdate,List.foldl_append]
  rfl

@[simp] lemma lastUpdate_concat (created : K.DateTime) (calls : List (SentBytes K))
    (c : SentBytes K) : lastUpdate created (calls++[c]) =
      if c.attempt = .succeeded then c.now else lastUpdate created calls := by
  rw [lastUpdate,List.foldl_append]
  rfl

/-- The policy that the history of the calls says. -/
def accounts (duration : Option K.Duration) (threshold : Option ℕ) (created : K.DateTime)
    (calls : List (SentBytes K)) : UpdatePolicy K :=
  ⟨duration.map (⟨·,lastUpdate created calls⟩),threshold.map (⟨·,sinceUpdate calls⟩)⟩

end SentBytes

namespace EncryptionProvider
open SentBytes
variable {M : OpenMls} (V : Environment M) (isServer : Bool)

/-- What becomes of the update that a call may begin with. -/
def attemptAt (p : EncryptionProvider M V.chrono) (now : V.chrono.DateTime) (seed : ℕ) : Attempt :=
  match p.updatePolicy.updateIsDue now with
  | some false => .none
  | _ => match ((MlsHandshake.updateHandshake V.serde seed).run p.handshake).1 with
    | .ok _ => .succeeded
    | .error (.error (.handshakeError .waitingForResponse)) => .refused
    | .error _ => .failed

/-- `send_bytes` up to where the payload is handed to the sink. -/
def updateIfDue (now : V.chrono.DateTime) (seed : ℕ) : Call V Unit := do
  let p ← Exec.get
  match p.updatePolicy.updateIsDue now with
  | none => Exec.panic
  | some due => if due then sendUpdate V isServer now seed else pure ()

/-- The provider after some calls of `send_bytes` that have all returned. Whatever else happens
between them leaves the policy alone. -/
inductive SendRun (policy : UpdatePolicy V.chrono) :
    List (SentBytes V.chrono) → EncryptionProvider M V.chrono → Prop
  | start {p} : p.updatePolicy = policy → SendRun policy [] p
  | call {calls p p₁ bytes now seed p'} : SendRun policy calls p →
      p₁.updatePolicy = p.updatePolicy → (sendBytes V isServer bytes now seed).run p₁ = (.ok (),p') →
      SendRun policy (calls++[⟨bytes,now,attemptAt V p₁ now seed⟩]) p'

variable {V isServer}

lemma sendBytes_eq (bytes : Bytes) (now : V.chrono.DateTime) (seed : ℕ) :
    sendBytes V isServer bytes now seed =
      updateIfDue V isServer now seed >>= fun _ => sendApplication V bytes := by
  rw [sendBytes,updateIfDue,Exec.bind_assoc]
  refine congrArg (Exec.get >>= ·) (funext fun p => ?_)
  rcases p.updatePolicy.updateIsDue now with _ | _ | _
  · rfl
  · rfl
  · rfl

/-! Calls on the channels and on the handshake leave the policy alone. -/

lemma onChannels_policy {α : Type} (x : ProtectedChannels.ProviderCall M.Error α)
    {policy : UpdatePolicy V.chrono} :
    Exec.Keeps (fun p => p.updatePolicy = policy) (onChannels x : Call V α) fun _ => True := by
  intro p hp
  rcases h : (onChannels x : Call V α).run p with ⟨f | a,p'⟩
  · obtain rfl := (Prod.mk.inj h).2
    exact hp
  · obtain rfl := (Prod.mk.inj h).2
    exact ⟨hp,trivial⟩

lemma answer_policy (secretUpdate : Option SecretUpdate) (response : Option Bytes)
    {policy : UpdatePolicy V.chrono} :
    Exec.Keeps (fun p => p.updatePolicy = policy) (answer V isServer secretUpdate response)
      fun _ => True := by
  exact answer_keeps V isServer (fun _ => onChannels_policy _) (fun _ => onChannels_policy _)
    secretUpdate response

lemma sendUpdate_policy {now : V.chrono.DateTime} {seed : ℕ} {p q : EncryptionProvider M V.chrono}
    (h : (sendUpdate V isServer now seed).run p = (.ok (),q)) :
    (∃ r, ((MlsHandshake.updateHandshake V.serde seed).run p.handshake).1 = .ok r) ∧
        q.updatePolicy = p.updatePolicy.reset now ∨
      ((MlsHandshake.updateHandshake V.serde seed).run p.handshake).1 =
        .error (.error (.handshakeError .waitingForResponse)) ∧ q.updatePolicy = p.updatePolicy := by
  obtain ⟨r,p₁,hattempt,hrest⟩ := Exec.bind_eq_ok.mp h
  simp only [Exec.attempt,onHandshake,Exec.zoom_run] at hattempt
  rcases hrun : (MlsHandshake.updateHandshake V.serde seed).run p.handshake with ⟨(e | _) | a,h'⟩
  · simp only [hrun,Prod.mk.injEq,Except.ok.injEq] at hattempt
    obtain ⟨rfl,rfl⟩ := hattempt
    split at hrest
    · rename_i heq
      simp at heq
    · rename_i heq
      obtain rfl := Except.error.inj heq
      obtain rfl := (Prod.mk.inj hrest).2
      exact .inr ⟨rfl,rfl⟩
    · simp at hrest
  · simp [hrun] at hattempt
  · simp only [hrun,Prod.mk.injEq,Except.ok.injEq] at hattempt
    obtain ⟨rfl,rfl⟩ := hattempt
    obtain ⟨_,p₂,hanswer,hreset⟩ := Exec.bind_eq_ok.mp hrest
    have hpolicy : p₂.updatePolicy = p.updatePolicy := by
      refine (answer_policy _ _).state ?_ hanswer
      rfl
    obtain rfl := (Prod.mk.inj hreset).2
    exact .inl ⟨⟨a,rfl⟩,congrArg (·.reset now) hpolicy⟩

lemma sendApplication_policy {bytes : Bytes} {q p' : EncryptionProvider M V.chrono}
    (h : (sendApplication V bytes).run q = (.ok (),p')) :
    q.updatePolicy.incrementBytesTransferred bytes.length = some p'.updatePolicy := by
  obtain ⟨r,q₁,hattempt,hrest⟩ := Exec.bind_eq_ok.mp h
  have hpolicy : q₁.updatePolicy = q.updatePolicy :=
    (Exec.Keeps.attempt (onChannels_policy _)).state rfl hattempt
  rw [← hpolicy]
  simp only [Exec.bind_run,Exec.get_run] at hrest
  cases hcount : q₁.updatePolicy.incrementBytesTransferred bytes.length with
  | none => simp [hcount] at hrest
  | some policy =>
    simp only [hcount,setPolicy,Exec.bind_run,Exec.modify_run] at hrest
    obtain ⟨-,rfl⟩ := Exec.lift_eq_ok.mp hrest
    rfl

lemma updateIfDue_policy {now : V.chrono.DateTime} {seed : ℕ} {p q : EncryptionProvider M V.chrono}
    (h : (updateIfDue V isServer now seed).run p = (.ok (),q)) :
    p.updatePolicy.updateIsDue now = some false ∧ attemptAt V p now seed = .none ∧
        q.updatePolicy = p.updatePolicy ∨
      p.updatePolicy.updateIsDue now = some true ∧ attemptAt V p now seed = .refused ∧
        q.updatePolicy = p.updatePolicy ∨
      p.updatePolicy.updateIsDue now = some true ∧ attemptAt V p now seed = .succeeded ∧
        q.updatePolicy = p.updatePolicy.reset now := by
  simp only [updateIfDue,Exec.bind_run,Exec.get_run] at h
  unfold attemptAt
  rcases hdue : p.updatePolicy.updateIsDue now with _ | _ | _
  · simp [hdue] at h
  · simp only [hdue,Bool.false_eq_true,if_false,Exec.pure_run] at h
    obtain rfl := (Prod.mk.inj h).2
    exact .inl ⟨rfl,rfl,rfl⟩
  · simp only [hdue,if_true] at h
    rcases sendUpdate_policy h with ⟨⟨r,hr⟩,hq⟩ | ⟨hr,hq⟩
    · exact .inr (.inr ⟨rfl,by simp [hr],hq⟩)
    · exact .inr (.inl ⟨rfl,by simp [hr],hq⟩)

section
variable {duration : Option V.chrono.Duration} {threshold : Option ℕ} {created : V.chrono.DateTime}
  {calls : List (SentBytes V.chrono)}

lemma accounts_due {now : V.chrono.DateTime} {due : Bool}
    (h : (accounts duration threshold created calls).updateIsDue now = some due) :
    due = true ↔ Due duration threshold created calls now := by
  have htraffic : (accounts duration threshold created calls).trafficBased.any (·.updateIsDue) = true ↔
      ∃ n, threshold = some n ∧ n ≤ sinceUpdate calls := by
    cases threshold with
    | none => simp [accounts]
    | some n => simp [accounts,TrafficBasedUpdatePolicy.updateIsDue]
  rw [Due,← htraffic]
  cases duration with
  | none =>
    simp only [UpdatePolicy.updateIsDue,accounts,Option.map_none] at h ⊢
    obtain rfl := Option.some.inj h
    simp
  | some d =>
    cases hadd : V.chrono.add (lastUpdate created calls) d with
    | none =>
      simp [UpdatePolicy.updateIsDue,accounts,TimeBasedUpdatePolicy.updateIsDue,hadd] at h
    | some next =>
      simp only [UpdatePolicy.updateIsDue,accounts,Option.map_some,TimeBasedUpdatePolicy.updateIsDue,
        hadd] at h ⊢
      obtain rfl := Option.some.inj h
      simp [hadd,or_comm]

lemma count_policy {last : V.chrono.DateTime} {total n : ℕ} {policy : UpdatePolicy V.chrono}
    (h : (⟨duration.map (⟨·,last⟩),threshold.map (⟨·,total⟩)⟩ :
      UpdatePolicy V.chrono).incrementBytesTransferred n = some policy) :
    policy = ⟨duration.map (⟨·,last⟩),threshold.map (⟨·,total+n⟩)⟩ := by
  cases threshold with
  | none =>
    obtain rfl := Option.some.inj h
    rfl
  | some t =>
    simp only [UpdatePolicy.incrementBytesTransferred,Option.map_some,
      TrafficBasedUpdatePolicy.incrementBytesTransferred] at h ⊢
    split_ifs at h with hlt
    · obtain rfl := Option.some.inj h
      rfl
    · cases h

lemma accounts_step {p q p' : EncryptionProvider M V.chrono} {bytes : Bytes} {now : V.chrono.DateTime}
    {seed : ℕ} (hp : p.updatePolicy = accounts duration threshold created calls)
    (hq : (updateIfDue V isServer now seed).run p = (.ok (),q))
    (hp' : (sendApplication V bytes).run q = (.ok (),p')) :
    p'.updatePolicy = accounts duration threshold created
      (calls++[⟨bytes,now,attemptAt V p now seed⟩]) := by
  have hcount := sendApplication_policy hp'
  have hkept (hsame : q.updatePolicy = p.updatePolicy) (hno : attemptAt V p now seed ≠ .succeeded) :
      p'.updatePolicy = accounts duration threshold created
        (calls++[⟨bytes,now,attemptAt V p now seed⟩]) := by
    rw [hsame,hp] at hcount
    rw [count_policy hcount,accounts,lastUpdate_concat,sinceUpdate_concat,if_neg hno,if_neg hno]
  rcases updateIfDue_policy hq with ⟨-,hat,hsame⟩ | ⟨-,hat,hsame⟩ | ⟨-,hat,hreset⟩
  · exact hkept hsame (by simp [hat])
  · exact hkept hsame (by simp [hat])
  · have hfresh : q.updatePolicy = ⟨duration.map (⟨·,now⟩),threshold.map (⟨·,0⟩)⟩ := by
      rw [hreset,hp]
      simp [accounts,UpdatePolicy.reset,Option.map_map,Function.comp_def,
        TimeBasedUpdatePolicy.setUpdateTime,TrafficBasedUpdatePolicy.reset]
    rw [hfresh] at hcount
    rw [count_policy hcount,accounts,lastUpdate_concat,sinceUpdate_concat,if_pos hat,if_pos hat,
      Nat.zero_add]

/-- A run: the policy follows the history. -/
theorem accounts_run {p : EncryptionProvider M V.chrono}
    (h : SendRun V isServer (PolicyCall.configured duration threshold created) calls p) :
    p.updatePolicy = accounts duration threshold created calls := by
  induction h with
  | start hp => exact hp
  | call _ hsame hrun ih =>
    rw [sendBytes_eq] at hrun
    obtain ⟨_,q,hq,hp'⟩ := Exec.bind_eq_ok.mp hrun
    exact accounts_step (hsame.trans ih) hq hp'

lemma sendBytes_eq_ok {p p' : EncryptionProvider M V.chrono} {bytes : Bytes} {now : V.chrono.DateTime}
    {seed : ℕ} (h : (sendBytes V isServer bytes now seed).run p = (.ok (),p')) :
    ∃ q, (updateIfDue V isServer now seed).run p = (.ok (),q) ∧
      (sendApplication V bytes).run q = (.ok (),p') := by
  rw [sendBytes_eq] at h
  obtain ⟨_,q,hq⟩ := Exec.bind_eq_ok.mp h
  exact ⟨q,hq⟩

lemma attempt_iff_due {p q : EncryptionProvider M V.chrono} {now : V.chrono.DateTime} {seed : ℕ}
    (hp : p.updatePolicy = accounts duration threshold created calls)
    (hq : (updateIfDue V isServer now seed).run p = (.ok (),q)) :
    attemptAt V p now seed ≠ .none ↔ Due duration threshold created calls now := by
  have hdecided : ∃ due, p.updatePolicy.updateIsDue now = some due ∧
      (attemptAt V p now seed ≠ .none ↔ due = true) := by
    rcases updateIfDue_policy hq with ⟨hdue,hat,-⟩ | ⟨hdue,hat,-⟩ | ⟨hdue,hat,-⟩
    · exact ⟨false,hdue,by simp [hat]⟩
    · exact ⟨true,hdue,by simp [hat]⟩
    · exact ⟨true,hdue,by simp [hat]⟩
  obtain ⟨due,hdue,hiff⟩ := hdecided
  rw [hp] at hdue
  exact hiff.trans (accounts_due hdue)

lemma due_after_refusal
    (htrans : ∀ {a b c}, V.chrono.ble a b = true → V.chrono.ble b c = true → V.chrono.ble a c = true)
    {c : SentBytes V.chrono} (hc : c.attempt = .refused)
    (hdue : Due duration threshold created calls c.now) {now : V.chrono.DateTime}
    (hnow : V.chrono.ble c.now now = true ∨ ∃ n, threshold = some n ∧ n ≤ sinceUpdate calls) :
    Due duration threshold created (calls++[c]) now := by
  -- a refusal has left the counter, so that only the time can stop asking for the update
  have htraffic (h : ∃ n, threshold = some n ∧ n ≤ sinceUpdate calls) :
      Due duration threshold created (calls++[c]) now := by
    obtain ⟨n,hn,hle⟩ := h
    refine .inl ⟨n,hn,?_⟩
    rw [sinceUpdate_concat,if_neg (by simp [hc])]
    omega
  rcases hnow with hnow | h
  · rcases hdue with h | ⟨d,next,hd,hadd,hle⟩
    · exact htraffic h
    · refine .inr ⟨d,next,hd,?_,htrans hle hnow⟩
      rw [lastUpdate_concat,if_neg (by simp [hc])]
      exact hadd
  · exact htraffic h

lemma SendRun.last {c : SentBytes V.chrono} {p : EncryptionProvider M V.chrono}
    (h : SendRun V isServer (PolicyCall.configured duration threshold created) (calls++[c]) p)
    (hc : c.attempt ≠ .none) : Due duration threshold created calls c.now := by
  generalize hcalls : calls++[c] = calls' at h
  cases h with
  | start => simp at hcalls
  | call hrun hsame hsend =>
    obtain ⟨rfl,hlast⟩ := List.append_inj' hcalls rfl
    obtain rfl := List.singleton_inj.mp hlast
    obtain ⟨q,hq,-⟩ := sendBytes_eq_ok hsend
    exact (attempt_iff_due (hsame.trans (accounts_run hrun)) hq).mp hc

lemma handed_below {p q : EncryptionProvider M V.chrono} {now : V.chrono.DateTime} {seed n : ℕ}
    (hp : p.updatePolicy = accounts duration (some n) created calls)
    (hq : (updateIfDue V isServer now seed).run p = (.ok (),q)) (hn : 0 < n)
    (hat : attemptAt V p now seed ≠ .refused) :
    ∃ traffic, q.updatePolicy.trafficBased = some traffic ∧ traffic.bytesTransferred < n := by
  have hdue := attempt_iff_due hp hq
  rcases updateIfDue_policy hq with ⟨-,hnone,hsame⟩ | ⟨-,hrefused,-⟩ | ⟨-,-,hreset⟩
  · refine ⟨⟨n,sinceUpdate calls⟩,by rw [hsame,hp]; rfl,?_⟩
    by_contra hge
    exact hdue.mpr (.inl ⟨n,rfl,Nat.le_of_not_lt hge⟩) hnone
  · exact absurd hrefused hat
  · exact ⟨⟨n,0⟩,by rw [hreset,hp]; rfl,hn⟩

/-- At every point of a run the policy is what the history says; the next call attempts an update
exactly if the history asks for one, and again after a refusal unless the time goes back; and where
no attempt is refused, the payload finds the counter below the threshold. -/
theorem traffic_and_time_accounting
    (htrans : ∀ {a b c}, V.chrono.ble a b = true → V.chrono.ble b c = true → V.chrono.ble a c = true)
    {p : EncryptionProvider M V.chrono}
    (h : SendRun V isServer (PolicyCall.configured duration threshold created) calls p) :
    p.updatePolicy = accounts duration threshold created calls ∧
    ∀ {p₁ bytes now seed p'}, p₁.updatePolicy = p.updatePolicy →
      (sendBytes V isServer bytes now seed).run p₁ = (.ok (),p') →
      attemptAt V p₁ now seed ≠ .failed ∧
      (attemptAt V p₁ now seed ≠ .none ↔ Due duration threshold created calls now) ∧
      (∀ {before c}, calls = before++[c] → c.attempt = .refused →
        (V.chrono.ble c.now now = true ∨ ∃ n, threshold = some n ∧ n ≤ sinceUpdate before) →
        attemptAt V p₁ now seed ≠ .none) ∧
      ∃ q, (updateIfDue V isServer now seed).run p₁ = (.ok (),q) ∧
        (sendApplication V bytes).run q = (.ok (),p') ∧
        ∀ {n}, threshold = some n → 0 < n → attemptAt V p₁ now seed ≠ .refused →
          ∃ traffic, q.updatePolicy.trafficBased = some traffic ∧ traffic.bytesTransferred < n := by
  have hp := accounts_run h
  refine ⟨hp,fun {p₁ bytes now seed p'} hsame hrun => ?_⟩
  obtain ⟨q,hq,hp'⟩ := sendBytes_eq_ok hrun
  have hdue := attempt_iff_due (hsame.trans hp) hq
  refine ⟨?_,hdue,fun {before c} hcalls hc hnow => ?_,q,hq,hp',fun {n} hn hpos hat => ?_⟩
  · rcases updateIfDue_policy hq with ⟨-,hat,-⟩ | ⟨-,hat,-⟩ | ⟨-,hat,-⟩ <;> simp [hat]
  · subst hcalls
    exact hdue.mpr (due_after_refusal htrans hc (h.last (by simp [hc])) hnow)
  · subst hn
    exact handed_below (hsame.trans hp) hq hpos hat

end
end EncryptionProvider

namespace Sample
open EncryptionProvider

/-- The server of the sample connection, which updates after five ticks. -/
def server : EncryptionProvider sampleMls chrono := (duplex.side true).provider

/-- The server after it has sent something with an update, which the client has not confirmed. -/
def updated : EncryptionProvider sampleMls chrono :=
  ((sendBytes environment true [8] (6 : ℕ) 50).run server).2

/-- The server after its next update was refused. -/
def waiting : EncryptionProvider sampleMls chrono :=
  ((sendBytes environment true [8] (20 : ℕ) 51).run updated).2

lemma server_policy : server.updatePolicy =
    PolicyCall.configured (K := chrono) (some (5 : ℕ)) none (0 : ℕ) := by
  have htime : (server.updatePolicy.timeBased.map fun t => ((t.duration : ℕ),(t.lastUpdate : ℕ))) =
      some (5,0) := by decide +kernel
  have htraffic : server.updatePolicy.trafficBased = none := by decide +kernel
  rcases h : server.updatePolicy with ⟨_ | ⟨d,t⟩,traffic⟩
  · simp [h] at htime
  · simp only [h,Option.map_some,Option.some.injEq] at htime htraffic
    obtain ⟨rfl,rfl⟩ := Prod.mk.inj htime
    rw [htraffic]
    rfl

lemma updated_run : (sendBytes environment true [8] (6 : ℕ) 50).run server = (.ok (),updated) := by
  rw [updated]
  exact Exec.run_of_isOk (by decide +kernel)

lemma waiting_run : (sendBytes environment true [8] (20 : ℕ) 51).run updated = (.ok (),waiting) := by
  rw [waiting]
  exact Exec.run_of_isOk (by decide +kernel)

lemma updated_sendRun : SendRun environment true (PolicyCall.configured (some (5 : ℕ)) none (0 : ℕ))
    [⟨[8],(6 : ℕ),.succeeded⟩] updated := by
  have hat : attemptAt environment server (6 : ℕ) 50 = .succeeded := by decide +kernel
  have hstart : SendRun environment true (PolicyCall.configured (some (5 : ℕ)) none (0 : ℕ)) []
      server := .start server_policy
  have h := hstart.call (Eq.refl server.updatePolicy) updated_run
  rwa [hat] at h

/-- The policy of a server that updates after five ticks or three bytes. -/
def meteredPolicy : UpdatePolicy chrono := PolicyCall.configured (some (5 : ℕ)) (some 3) (0 : ℕ)

/-- The server after some calls, with the time of each. -/
def metered (calls : List (Bytes × ℕ)) : EncryptionProvider sampleMls chrono :=
  calls.foldl (fun p c => ((sendBytes environment true c.1 (c.2 : ℕ) (60+c.2)).run p).2)
    { server with updatePolicy := meteredPolicy }

/-- Three bytes, then an update with one byte, and one more update that is refused. -/
def meteredCalls : List (Bytes × ℕ) := [([8,8,8],1),([8],2),([8,8],8)]

lemma metered_sendRun : SendRun environment true meteredPolicy
    [⟨[8,8,8],(1 : ℕ),.none⟩,⟨[8],(2 : ℕ),.succeeded⟩,⟨[8,8],(8 : ℕ),.refused⟩]
      (metered meteredCalls) := by
  have hcall {calls : List (SentBytes chrono)} {cs : List (Bytes × ℕ)}
      (h : SendRun environment true meteredPolicy calls (metered cs)) (bytes : Bytes) (now : ℕ)
      {a : Attempt} (hat : attemptAt environment (metered cs) now (60+now) = a)
      (hok : ((sendBytes environment true bytes now (60+now)).run (metered cs)).1.isOk = true) :
      SendRun environment true meteredPolicy (calls++[⟨bytes,now,a⟩])
        (metered (cs++[(bytes,now)])) := by
    subst hat
    have hnext : metered (cs++[(bytes,now)]) =
        ((sendBytes environment true bytes now (60+now)).run (metered cs)).2 := List.foldl_concat ..
    rw [hnext]
    exact h.call rfl (Exec.run_of_isOk hok)
  have hstart : SendRun environment true meteredPolicy [] (metered []) := .start rfl
  have h₁ := hcall hstart [8,8,8] 1 (a := .none) (by decide +kernel) (by decide +kernel)
  have h₂ := hcall h₁ [8] 2 (a := .succeeded) (by decide +kernel) (by decide +kernel)
  exact hcall h₂ [8,8] 8 (a := .refused) (by decide +kernel) (by decide +kernel)

end Sample

/-- The refused attempt is made again: at the same time because of the time, and at an earlier one
because of the traffic. -/
theorem EncryptionProvider.traffic_and_time_accounting_sample :
    (Sample.metered Sample.meteredCalls).updatePolicy = SentBytes.accounts (K := Sample.chrono)
      (some (5 : ℕ)) (some 3) (0 : ℕ)
      [⟨[8,8,8],(1 : ℕ),.none⟩,⟨[8],(2 : ℕ),.succeeded⟩,⟨[8,8],(8 : ℕ),.refused⟩] ∧
    attemptAt Sample.environment (Sample.metered Sample.meteredCalls) (8 : ℕ) 70 ≠ .none ∧
    attemptAt Sample.environment (Sample.metered Sample.meteredCalls) (3 : ℕ) 70 ≠ .none := by
  obtain ⟨haccounts,h⟩ := traffic_and_time_accounting (V := Sample.environment) (fun hab hbc => by
    simp only [Sample.environment,Sample.chrono,decide_eq_true_eq] at hab hbc ⊢
    exact Nat.le_trans hab hbc) Sample.metered_sendRun
  have hrun (now : ℕ) (hok : ((sendBytes Sample.environment true [8] now 70).run
      (Sample.metered Sample.meteredCalls)).1.isOk = true) :=
    h (Eq.refl (Sample.metered Sample.meteredCalls).updatePolicy) (Exec.run_of_isOk hok)
  refine ⟨haccounts,?_,?_⟩
  · have hcalls : ([⟨[8,8,8],(1 : ℕ),.none⟩,⟨[8],(2 : ℕ),.succeeded⟩,⟨[8,8],(8 : ℕ),.refused⟩] :
        List (SentBytes Sample.chrono)) =
        [⟨[8,8,8],(1 : ℕ),.none⟩,⟨[8],(2 : ℕ),.succeeded⟩]++[⟨[8,8],(8 : ℕ),.refused⟩] := rfl
    exact (hrun 8 (by decide +kernel)).2.2.1 hcalls rfl (.inl (by decide +kernel))
  · exact (hrun 3 (by decide +kernel)).2.1.mpr (.inl ⟨3,rfl,by decide +kernel⟩)

/-- A refused attempt is not made again where the time of the next call is an earlier one. -/
theorem EncryptionProvider.refused_not_repeated : ∃ calls p p',
    SendRun Sample.environment true (PolicyCall.configured (some (5 : ℕ)) none (0 : ℕ))
      (calls++[⟨[8],(20 : ℕ),.refused⟩]) p ∧
    (sendBytes Sample.environment true [8] (7 : ℕ) 52).run p = (.ok (),p') ∧
    attemptAt Sample.environment p (7 : ℕ) 52 = .none := by
  have hat : attemptAt Sample.environment Sample.updated (20 : ℕ) 51 = .refused := by decide +kernel
  have hrun := SendRun.call Sample.updated_sendRun rfl Sample.waiting_run
  rw [hat] at hrun
  exact ⟨_,Sample.waiting,_,hrun,Exec.run_of_isOk (by decide +kernel),by decide +kernel⟩

end MlsTls.EncryptionProvider
