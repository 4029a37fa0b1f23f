import MlsTls.MlsHandshake.Establish
import MlsTls.MlsHandshake.Sample

/-! Agreement of the two parties over a whole connection: there are no forks, and once nothing is
in flight both parties are at rest in the same epoch, unless the client asked the server for an
update in return. -/
namespace MlsTls.MlsHandshake
open Lib TlsAead

namespace TwoParty
variable {M : OpenMls} (T : TwoParty M)

/-- The commits merged into a stored group. -/
def commitsAt (c : Connection M) (groupId : GroupId) : List M.Message :=
  match c.groups groupId with
  | .ok (some g) => ((T.view g).map (·.commits)).getD []
  | _ => []

/-- The pending commit of a stored group. -/
def pendingAt (c : Connection M) (groupId : GroupId) : Option M.Message :=
  match c.groups groupId with
  | .ok (some g) => (T.view g).bind (·.pending)
  | _ => none

/-- The server has a prefix of the client's commits and is behind by `k` of them at most; at equal
epochs both groups export the same traffic secrets. -/
structure Agree (groupId : GroupId) (k : ℕ) (x : System M) : Prop where
  commits : T.commitsAt x.serverDb groupId <+: T.commitsAt x.clientDb groupId
  behind : (T.commitsAt x.clientDb groupId).length ≤ (T.commitsAt x.serverDb groupId).length+k
  secrets : ∃ client server, x.clientDb.groups groupId = .ok (some client) ∧
    x.serverDb.groups groupId = .ok (some server) ∧
    (M.epoch client = M.epoch server → ∃ t,
      (exportTrafficSecrets client).run x.clientDb = (.ok t,x.clientDb) ∧
      (exportTrafficSecrets server).run x.serverDb = (.ok t,x.serverDb))

variable {T} {σ : T.Session} {allow : Event → Prop} {H S : List M.Message}
  {i : ClientInternalState M} {p : Option M.Message} {alive : Bool} {x : System M}

lemma commitsAt_eq {v : View M T.Session} {c : Connection M} (h : T.GroupAt v c) :
    T.commitsAt c (T.groupId v.session) = v.commits := by
  obtain ⟨g,hg,hv⟩ := h
  simp [commitsAt,hg,hv]

lemma pendingAt_eq {v : View M T.Session} {c : Connection M} (h : T.GroupAt v c) :
    T.pendingAt c (T.groupId v.session) = v.pending := by
  obtain ⟨g,hg,hv⟩ := h
  simp [pendingAt,hg,hv]

lemma Shape.behind {toServer toClient : List Bytes}
    (h : T.Shape σ allow H i S p alive toServer toClient) (hr : ¬allow .resume) :
    H.length ≤ S.length+1 ∨ (allow (.serverUpdate true) ∧ H.length ≤ S.length+2) := by
  -- without resumptions the client is ahead by two commits at most, and by two only where the
  -- server has asked it for an update
  cases h with
  | updating ahead =>
    rcases ahead with rfl | ⟨ha,s,-,rfl⟩
    · exact Or.inl (by simp)
    · exact Or.inr ⟨ha,by simp⟩
  | merging => exact Or.inl (by simp)
  | resuming resume => exact absurd resume hr
  | _ => exact Or.inl (Nat.le_succ _)

theorem Inv.agree (hT : T.Lawful) (h : T.Inv σ allow H i S p alive x) {k : ℕ}
    (hk : H.length ≤ S.length+k) : T.Agree (T.groupId σ) k x := by
  have hc : T.commitsAt x.clientDb (T.groupId σ) = H := commitsAt_eq h.client.group
  have hs : T.commitsAt x.serverDb (T.groupId σ) = S := commitsAt_eq h.group
  refine ⟨?_,?_,?_⟩
  · rw [hc,hs]
    exact h.shape.server_prefix
  · rw [hc,hs]
    exact hk
  · obtain ⟨client,hclient,hvc⟩ := h.client.group
    obtain ⟨server,hserver,hvs⟩ := h.group
    refine ⟨client,server,hclient,hserver,fun he => ?_⟩
    rw [hT.epoch_eq hvc,hT.epoch_eq hvs] at he
    obtain rfl : S = H := h.shape.server_prefix.eq_of_length (Nat.add_left_cancel he).symm
    exact ⟨_,exportTrafficSecrets_run hT hvc _,exportTrafficSecrets_run hT hvs _⟩

end TwoParty

namespace System
variable {M : OpenMls} (P : Parties M)

lemma clock_le_step (e : Event) (x : System M) : x.clock ≤ (step P e x).clock := by
  cases e with
  | clientUpdate q =>
    simp only [step,clientUpdate]
    split <;> exact Nat.le_succ _
  | serverUpdate q =>
    simp only [step,serverUpdate]
    split
    · exact Nat.le_refl _
    · split <;> exact Nat.le_succ _
  | deliverToServer =>
    simp only [step,deliverToServer]
    split
    · exact Nat.le_refl _
    · split <;> split <;> exact Nat.le_succ _
  | deliverToClient =>
    simp only [step,deliverToClient]
    split
    · exact Nat.le_refl _
    · split <;> exact Nat.le_succ _
  | resume =>
    simp only [step,resume]
    split <;> exact Nat.le_succ _

end System

namespace TwoParty
variable {M : OpenMls} {T : TwoParty M} {σ : T.Session} {allow : Event → Prop} {P : Parties M}

/-- A commit from before that neither party has merged or keeps pending. -/
def Gone (T : TwoParty M) (σ : T.Session) (allow : Event → Prop) (s : M.Message) (x : System M) :
    Prop :=
  ∃ H i S p alive, T.Inv σ allow H i S p alive x ∧ ¬Known H S p s ∧ T.seedOf s < x.clock

/-- What is gone stays gone. -/
theorem Gone.run (hT : T.Lawful) (hP : T.Honest σ P) {s : M.Message} {x y : System M}
    (h : T.Gone σ allow s x) (hrun : System.Runs P allow x y) : T.Gone σ allow s y := by
  refine hrun.invariant (I := T.Gone σ allow s) ?_ h
  rintro e z ⟨H,i,S,p,alive,hinv,hknown,hseed⟩ ⟨he,hroom⟩
  obtain ⟨H',i',S',p',alive',hinv',hev⟩ := hinv.step hT hP he hroom
  refine ⟨H',i',S',p',alive',hinv',fun hk => ?_,hseed.trans_le (System.clock_le_step P e z)⟩
  rcases hev.known s hk with hk | hk
  · exact hknown hk
  · omega

lemma Gone.not_mem {s : M.Message} {x : System M} (h : T.Gone σ allow s x) :
    s ∉ T.commitsAt x.serverDb (T.groupId σ) ∧ s ∉ T.commitsAt x.clientDb (T.groupId σ) := by
  obtain ⟨H,i,S,p,alive,hinv,hknown,-⟩ := h
  have hc : T.commitsAt x.clientDb (T.groupId σ) = H := commitsAt_eq hinv.client.group
  have hs : T.commitsAt x.serverDb (T.groupId σ) = S := commitsAt_eq hinv.group
  rw [hc,hs]
  exact ⟨fun h => hknown (Or.inr (Or.inl h)),fun h => hknown (Or.inl h)⟩

lemma Inv.dropped (hT : T.Lawful) (hP : T.Honest σ P) {H S : List M.Message}
    {i : ClientInternalState M} {p : Option M.Message} {alive : Bool} {x : System M}
    (h : T.Inv σ allow H i S p alive x) {e : Event} (he : allow e) (hroom : System.Room e x)
    {s : M.Message} (hs : T.pendingAt x.serverDb (T.groupId σ) = some s)
    (hpending : T.pendingAt (System.step P e x).serverDb (T.groupId σ) ≠ some s)
    (hmerged : s ∉ T.commitsAt (System.step P e x).serverDb (T.groupId σ)) :
    T.Gone σ allow s (System.step P e x) := by
  obtain ⟨H',i',S',p',alive',hinv,hev⟩ := h.step hT hP he hroom
  have hp : p = some s := (pendingAt_eq h.group).symm.trans hs
  have hp' : T.pendingAt (System.step P e x).serverDb (T.groupId σ) = p' := pendingAt_eq hinv.group
  have hS' : T.commitsAt (System.step P e x).serverDb (T.groupId σ) = S' := commitsAt_eq hinv.group
  rw [hp'] at hpending
  rw [hS'] at hmerged
  have hH' : H' = S' := (hev.pending s hp).resolve_left hpending
  refine ⟨H',i',S',p',alive',hinv,?_,
    (h.fresh s (Or.inr (Or.inr hp))).trans_le (System.clock_le_step P e x)⟩
  rintro (hk | hk | hk)
  · exact hmerged (hH' ▸ hk)
  · exact hmerged hk
  · exact hpending hk

/-- In every run of updates and deliveries after an honest handshake the commits of the server are
a prefix of the client's, shorter by two at most, and by one at most if the server never asks for
an update; at equal epochs the exported secrets are equal; and a commit that the server has
dropped is not merged by anyone from then on. -/
theorem commits_agree (hT : T.Lawful) (hJ : P.serde.Lawful) {clientId : Uuid} {groupId : GroupId}
    {clientSeed serverSeed : ℕ} {clientDb serverDb : Connection M} {x₀ : System M}
    (h₀ : honestHandshake P clientId groupId clientSeed serverSeed clientDb serverDb = some x₀) :
    (∀ x, System.Runs P (· ≠ .resume) x₀ x → T.Agree groupId 2 x) ∧
    (∀ x, System.Runs P (fun e => e ≠ .resume ∧ e ≠ .serverUpdate true) x₀ x →
      T.Agree groupId 1 x) ∧
    ∀ x e y s, System.Runs P (· ≠ .resume) x₀ x → e ≠ .resume → System.Room e x →
      T.pendingAt x.serverDb groupId = some s →
      T.pendingAt (System.step P e x).serverDb groupId ≠ some s →
      s ∉ T.commitsAt (System.step P e x).serverDb groupId →
      System.Runs P (· ≠ .resume) (System.step P e x) y →
      s ∉ T.commitsAt y.serverDb groupId ∧ s ∉ T.commitsAt y.clientDb groupId := by
  have htrace := honestHandshake_trace h₀
  refine ⟨?_,?_,?_⟩
  · intro x hrun
    obtain ⟨σ,rfl,-,hP,hinv⟩ := HandshakeTrace.inv hT hJ htrace (· ≠ .resume)
    obtain ⟨H,i,S,p,alive,hx⟩ := hinv.run hT hP hrun
    refine hx.agree hT ?_
    rcases hx.shape.behind (fun h => h rfl) with h | ⟨-,h⟩ <;> omega
  · intro x hrun
    obtain ⟨σ,rfl,-,hP,hinv⟩ :=
      HandshakeTrace.inv hT hJ htrace (fun e => e ≠ .resume ∧ e ≠ .serverUpdate true)
    obtain ⟨H,i,S,p,alive,hx⟩ := hinv.run hT hP hrun
    refine hx.agree hT ?_
    exact (hx.shape.behind (fun h => h.1 rfl)).resolve_right fun h => h.1.2 rfl
  · intro x e y s hrun he hroom hs hpending hmerged hrun'
    obtain ⟨σ,rfl,-,hP,hinv⟩ := HandshakeTrace.inv hT hJ htrace (· ≠ .resume)
    obtain ⟨H,i,S,p,alive,hx⟩ := hinv.run hT hP hrun
    exact ((hx.dropped hT hP he hroom hs hpending hmerged).run hT hP hrun').not_mem

/-- Crossing updates in the sample session: the server's commit is dropped. -/
theorem commits_agree_sample :
    sampleTwoParty.Agree [9] 2
      (System.step sampleParties .deliverToServer (System.step sampleParties (.clientUpdate false)
        (System.step sampleParties (.serverUpdate true) sampleSystem))) := by
  refine (commits_agree sampleTwoParty_lawful sampleSerde_lawful sampleSystem_handshake).1 _ ?_
  refine .tail _ (.tail _ (.tail _ (.refl _) ⟨by simp,?_⟩) ⟨by simp,?_⟩) ⟨by simp,trivial⟩
  · intro server hserver
    obtain rfl := Option.some.inj hserver
    decide
  · change _ < _
    decide

end TwoParty

/-- Neither party waits for anything, the stored groups are at one epoch, and the callers hold the
same secrets. -/
structure System.AtRest {M : OpenMls} (groupId : GroupId) (x : System M) : Prop where
  client : x.client.internalState = .running
  server : ∃ server, x.server = some server ∧ server.internalState = .running
  epoch : ∃ client server, x.clientDb.groups groupId = .ok (some client) ∧
    x.serverDb.groups groupId = .ok (some server) ∧ M.epoch client = M.epoch server
  secrets : x.clientSecrets = x.serverSecrets

namespace TwoParty
variable {M : OpenMls} {T : TwoParty M} {σ : T.Session} {allow : Event → Prop} {P : Parties M}

lemma Shape.drained {H S : List M.Message} {i : ClientInternalState M} {p : Option M.Message}
    {alive : Bool} {toServer toClient : List Bytes}
    (h : T.Shape σ allow H i S p alive toServer toClient) (hts : toServer = [])
    (htc : toClient = []) (hr : ¬allow .resume) (hq : ¬allow (.clientUpdate true)) :
    i = .running ∧ H = S ∧ p = none ∧ alive = true := by
  -- with nothing in flight the only shape left is the idle one, unless the client has asked for an
  -- update or has resumed
  cases h with
  | idle offer =>
    cases offer with
    | none => exact ⟨rfl,rfl,rfl,rfl⟩
    | some _ _ _ => simp at htc
  | updating => simp at hts
  | confirming => simp at htc
  | stuck request => exact absurd request hq
  | merging => simp at hts
  | returning => simp at htc
  | resuming => simp at hts
  | replaying => simp at hts
  | confirmed => simp at htc
  | failed resume => exact absurd resume hr

theorem Inv.atRest (hT : T.Lawful) {H S : List M.Message} {i : ClientInternalState M}
    {p : Option M.Message} {alive : Bool} {x : System M} (h : T.Inv σ allow H i S p alive x)
    (hr : ¬allow .resume) (hq : ¬allow (.clientUpdate true)) (hts : x.clientToServer = [])
    (htc : x.serverToClient = []) : x.AtRest (T.groupId σ) := by
  obtain ⟨rfl,rfl,rfl,rfl⟩ := h.shape.drained hts htc hr hq
  obtain ⟨client,hclient,hvc⟩ := h.client.group
  obtain ⟨server,hserver,hvs⟩ := h.group
  refine ⟨h.client.internal,⟨_,h.server,rfl⟩,⟨client,server,hclient,hserver,?_⟩,?_⟩
  · rw [hT.epoch_eq hvc,hT.epoch_eq hvs]
  · have hs := h.serverSecrets rfl
    have hc := h.clientSecret
    have hc' := h.serverSecret trivial
    rw [hs]
    rcases hx : x.clientSecrets with ⟨c,s⟩
    rw [hx] at hc hc'
    simp only at hc hc'
    rw [hc,hc']

/-- In every run without an update of the client that asks for one in return, both parties are at
rest whenever nothing is in flight. -/
theorem at_rest_when_drained (hT : T.Lawful) (hJ : P.serde.Lawful) {clientId : Uuid}
    {groupId : GroupId} {clientSeed serverSeed : ℕ} {clientDb serverDb : Connection M}
    {x₀ : System M}
    (h₀ : honestHandshake P clientId groupId clientSeed serverSeed clientDb serverDb = some x₀)
    {x : System M}
    (hrun : System.Runs P (fun e => e ≠ .resume ∧ e ≠ .clientUpdate true) x₀ x)
    (hts : x.clientToServer = []) (htc : x.serverToClient = []) : x.AtRest groupId := by
  obtain ⟨σ,rfl,-,hP,hinv⟩ := HandshakeTrace.inv hT hJ (honestHandshake_trace h₀)
    (fun e => e ≠ .resume ∧ e ≠ .clientUpdate true)
  obtain ⟨H,i,S,p,alive,hx⟩ := hinv.run hT hP hrun
  exact hx.atRest hT (fun h => h.1 rfl) (fun h => h.2 rfl) hts htc

/-- The server asks for an update, the client answers, and the server confirms. -/
theorem at_rest_when_drained_sample :
    (System.step sampleParties .deliverToClient (System.step sampleParties .deliverToServer
      (System.step sampleParties .deliverToClient
        (System.step sampleParties (.serverUpdate true) sampleSystem)))).AtRest [9] := by
  refine at_rest_when_drained sampleTwoParty_lawful sampleSerde_lawful sampleSystem_handshake ?_
    rfl rfl
  refine .tail _ (.tail _ (.tail _ (.tail _ (.refl _) ⟨by simp,?_⟩) ⟨by simp,trivial⟩)
    ⟨by simp,trivial⟩) ⟨by simp,trivial⟩
  intro server hserver
  obtain rfl := Option.some.inj hserver
  decide

/-- The client asks for an update: the server answers with a `ConnectionUpdate`, which the client
ignores while it waits for an `EpochKeyUpdate`. Nothing is in flight, and the client waits. -/
theorem stuck_after_client_request :
    ¬∀ x, System.Runs sampleParties (· ≠ .resume) sampleSystem x → x.clientToServer = [] →
      x.serverToClient = [] → x.AtRest [9] := by
  intro h
  have hx := (h (System.step sampleParties .deliverToClient (System.step sampleParties
    .deliverToServer (System.step sampleParties (.clientUpdate true) sampleSystem))) ?_ rfl rfl).client
  · cases hx
  · refine .tail _ (.tail _ (.tail _ (.refl _) ⟨by simp,?_⟩) ⟨by simp,trivial⟩) ⟨by simp,trivial⟩
    change _ < _
    decide

end TwoParty
end MlsTls.MlsHandshake
