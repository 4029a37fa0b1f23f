import MlsTls.MlsHandshake.Establish
import MlsTls.MlsHandshake.Sample

/-! Resumption after a lost connection. The client resumes with the commit it has no confirmation
for, if there is one; the server accepts a commit only once. So resumption goes through from
exactly those states in which that commit has not reached the server before. -/
namespace MlsTls.MlsHandshake
open Lib TlsAead

/-- From here the client resumes on a new connection, the server accepts it and the client accepts
the confirmation; both parties run at one epoch and were handed the same secrets. -/
structure System.Resumed {M : OpenMls} (P : Parties M) (groupId : GroupId) (x : System M)
    (secrets : TrafficSecrets) (bytes : Bytes) (s s' : ClientHandshakeState M × Connection M)
    (server : ServerHandshakeState) (identity : ClientIdentity) (confirmation : Bytes)
    (db : Connection M) : Prop where
  resume : (ClientHandshakeState.resume P.clientSigner x.clock).run (x.client,x.clientDb) =
    (.ok (secrets,bytes),s)
  start : (ServerHandshake.start P.serverSigner bytes [] (x.clock+1)).run x.serverDb =
    (.ok (server,secrets,identity,confirmation),db)
  confirm : (ClientHandshakeState.receiveSignalingMessage P.serde P.clientSigner confirmation
    (x.clock+2)).run s = (.ok (none,none),s')
  client : s'.1.internalState = .running
  server : server.internalState = .running
  epoch : ∃ client server, s'.2.groups groupId = .ok (some client) ∧
    db.groups groupId = .ok (some server) ∧ M.epoch client = M.epoch server

def System.Resumes {M : OpenMls} (P : Parties M) (groupId : GroupId) (x : System M) : Prop :=
  ∃ secrets bytes s s' server identity confirmation db,
    x.Resumed P groupId secrets bytes s s' server identity confirmation db

/-- The client has no confirmation for its own last commit, and the stored group of the server is
already at the epoch of that commit. -/
def System.Replays {M : OpenMls} (groupId : GroupId) (x : System M) : Prop :=
  ((∃ u, x.client.internalState = .waitingForEpochKeyUpdate u) ∨
    ∃ u, x.client.internalState = .waitingForConnectionConfirmation u) ∧
  ∃ server, x.serverDb.groups groupId = .ok (some server) ∧
    M.epoch server = x.client.mlsSession.epoch

namespace TwoParty
variable {M : OpenMls} {T : TwoParty M} {σ : T.Session} {allow : Event → Prop} {P : Parties M}
  {H S : List M.Message} {i : ClientInternalState M} {p : Option M.Message} {alive : Bool}
  {x : System M}

lemma resumes_of_ahead (hT : T.Lawful) (hP : T.Honest σ P) {base : List M.Message} {m : M.Message}
    {s : ClientHandshakeState M × Connection M}
    (hgroup : T.GroupAt ⟨σ,true,S,p⟩ x.serverDb)
    (hrun : (ClientHandshakeState.resume P.clientSigner x.clock).run (x.client,x.clientDb) =
      (.ok (T.secrets σ (base++[m]),resumptionBytes m),s))
    (hs : T.ClientAt σ (base++[m]) (.waitingForConnectionConfirmation (T.own σ (base++[m]) m)) s)
    (hm : T.IsCommit σ false base m) (hahead : base = S ∨ ∃ s, p = some s ∧ base = S++[s])
    (hlen : 1+base.length+1 < u64Size) : x.Resumes P (T.groupId σ) := by
  obtain ⟨db,hstart,hserver⟩ := server_start_resumption hT hgroup hm hahead hlen P.serverSigner []
    (x.clock+1)
  obtain ⟨s',hconfirm,hs'⟩ := client_receive_connectionConfirmation hT hP.serde hs
    (by rw [List.length_append,List.length_singleton]; omega) P.clientSigner (x.clock+2)
  obtain ⟨client,hclient,hvc⟩ := hs'.group
  obtain ⟨server,hsg,hvs⟩ := hserver.group
  refine ⟨_,_,s,s',_,_,_,db,hrun,hstart,hconfirm,hs'.internal,rfl,client,server,hclient,hsg,?_⟩
  rw [hT.epoch_eq hvc,hT.epoch_eq hvs]

lemma not_resumes_of_stale (hT : T.Lawful) {base : List M.Message} {m : M.Message}
    {s : ClientHandshakeState M × Connection M} {secrets : TrafficSecrets}
    (hgroup : T.GroupAt ⟨σ,true,S,p⟩ x.serverDb)
    (hrun : (ClientHandshakeState.resume P.clientSigner x.clock).run (x.client,x.clientDb) =
      (.ok (secrets,resumptionBytes m),s))
    (hm : T.IsCommit σ false base m) (hS : S = base++[m]) (hlen : 1+S.length+1 < u64Size)
    (groupId : GroupId) : ¬x.Resumes P groupId := by
  rintro ⟨_,_,_,_,_,_,_,_,h⟩
  have hresume := h.resume
  rw [hrun] at hresume
  simp only [Prod.mk.injEq,Except.ok.injEq] at hresume
  obtain ⟨⟨-,rfl⟩,-⟩ := hresume
  have hlt : base.length < S.length := by simp [hS]
  obtain ⟨e,db,hstart,-⟩ := server_start_stale hT hgroup hm hlt hlen P.serverSigner [] (x.clock+1)
  have hok := h.start
  rw [hstart] at hok
  simp at hok

lemma Inv.replays_iff (hT : T.Lawful) (h : T.Inv σ allow H i S p alive x) :
    x.Replays (T.groupId σ) ↔
      ((∃ u, i = .waitingForEpochKeyUpdate u) ∨ ∃ u, i = .waitingForConnectionConfirmation u) ∧
        S = H := by
  -- the epoch of the server's stored group is the number of its commits
  obtain ⟨server,hserver,hv⟩ := h.group
  have hepoch : x.client.mlsSession.epoch = 1+H.length := by rw [h.client.session]
  have hint : x.client.internalState = i := h.client.internal
  unfold System.Replays
  rw [hepoch,hint]
  refine and_congr_right fun _ => ⟨?_,?_⟩
  · rintro ⟨server',hserver',he⟩
    rw [hserver] at hserver'
    obtain rfl := Option.some.inj (Except.ok.inj hserver')
    rw [hT.epoch_eq hv] at he
    exact h.shape.server_prefix.eq_of_length (Nat.add_left_cancel he)
  · rintro rfl
    exact ⟨server,hserver,hT.epoch_eq hv⟩

lemma append_singleton_ne (l : List M.Message) (m : M.Message) : l ≠ l++[m] := by
  intro h
  have := congrArg List.length h
  simp at this

lemma Inv.resumes_fresh (hT : T.Lawful) (hP : T.Honest σ P) (h : T.Inv σ allow H i S p alive x)
    (hi : i = .running ∨ ∃ secret, i = .waitingForEpochKeyUpdateReturn secret)
    (hahead : H = S ∨ ∃ s, p = some s ∧ H = S++[s]) : x.Resumes P (T.groupId σ) := by
  obtain ⟨m,s,hrun,hs,hm,-⟩ := client_resume_fresh hT h.client hi h.fits x.clock
  rw [← hP.clientSigner] at hrun
  exact resumes_of_ahead hT hP h.group hrun hs hm hahead h.fits

lemma Inv.resumes_own (hT : T.Lawful) (hP : T.Honest σ P) {base : List M.Message} {m : M.Message}
    (h : T.Inv σ allow (base++[m]) i S p alive x)
    (hi : i = .waitingForEpochKeyUpdate (T.own σ (base++[m]) m) ∨
      i = .waitingForConnectionConfirmation (T.own σ (base++[m]) m))
    (hm : T.IsCommit σ false base m) (hahead : base = S ∨ ∃ s, p = some s ∧ base = S++[s]) :
    x.Resumes P (T.groupId σ) := by
  have hfits := h.fits
  rw [List.length_append,List.length_singleton] at hfits
  obtain ⟨s,hrun,hs⟩ := client_resume_replay hT h.client hi hm P.clientSigner x.clock
  exact resumes_of_ahead hT hP h.group hrun hs hm hahead (by omega)

lemma Inv.not_resumes (hT : T.Lawful) {base : List M.Message} {m : M.Message}
    (h : T.Inv σ allow S i S p alive x)
    (hi : i = .waitingForEpochKeyUpdate (T.own σ S m) ∨
      i = .waitingForConnectionConfirmation (T.own σ S m))
    (hm : T.IsCommit σ false base m) (hS : S = base++[m]) : ¬x.Resumes P (T.groupId σ) := by
  obtain ⟨s,hrun,-⟩ := client_resume_replay hT h.client hi hm P.clientSigner x.clock
  exact not_resumes_of_stale hT h.group hrun hm hS h.fits _

/-- Resumption goes through unless it replays a commit. -/
theorem Inv.resumes_iff (hT : T.Lawful) (hP : T.Honest σ P) (h : T.Inv σ allow H i S p alive x) :
    x.Resumes P (T.groupId σ) ↔ ¬x.Replays (T.groupId σ) := by
  rw [h.replays_iff hT]
  have hsh := h.shape
  generalize x.clientToServer = ts at hsh
  generalize x.serverToClient = tc at hsh
  cases hsh with
  | idle => exact iff_of_true (h.resumes_fresh hT hP (Or.inl rfl) (Or.inl rfl)) (by simp)
  | updating ahead commit =>
    refine iff_of_true (h.resumes_own hT hP (Or.inl rfl) commit (ahead.imp_right And.right)) ?_
    rintro ⟨-,he⟩
    rcases ahead with rfl | ⟨-,s,-,rfl⟩
    · exact append_singleton_ne _ _ he
    · have := congrArg List.length he
      simp at this
  | confirming last commit =>
    exact iff_of_false (h.not_resumes hT (Or.inl rfl) commit last)
      (not_not.mpr ⟨Or.inl ⟨_,rfl⟩,rfl⟩)
  | stuck _ last commit =>
    exact iff_of_false (h.not_resumes hT (Or.inl rfl) commit last)
      (not_not.mpr ⟨Or.inl ⟨_,rfl⟩,rfl⟩)
  | merging =>
    exact iff_of_true (h.resumes_fresh hT hP (Or.inr ⟨_,rfl⟩) (Or.inr ⟨_,rfl,rfl⟩)) (by simp)
  | returning => exact iff_of_true (h.resumes_fresh hT hP (Or.inr ⟨_,rfl⟩) (Or.inl rfl)) (by simp)
  | resuming _ ahead commit =>
    refine iff_of_true (h.resumes_own hT hP (Or.inr rfl) commit ahead) ?_
    rintro ⟨-,he⟩
    rcases ahead with rfl | ⟨s,-,rfl⟩
    · exact append_singleton_ne _ _ he
    · have := congrArg List.length he
      simp at this
  | replaying _ last commit =>
    exact iff_of_false (h.not_resumes hT (Or.inr rfl) commit last)
      (not_not.mpr ⟨Or.inr ⟨_,rfl⟩,rfl⟩)
  | confirmed _ last commit =>
    exact iff_of_false (h.not_resumes hT (Or.inr rfl) commit last)
      (not_not.mpr ⟨Or.inr ⟨_,rfl⟩,rfl⟩)
  | failed _ last commit =>
    exact iff_of_false (h.not_resumes hT (Or.inr rfl) commit last)
      (not_not.mpr ⟨Or.inr ⟨_,rfl⟩,rfl⟩)

/-- In every state that updates, deliveries, losses and earlier resumptions lead to, resumption
goes through if and only if the client would not replay a commit that the server has merged. -/
theorem resumes_iff_not_replays (hT : T.Lawful) (hJ : P.serde.Lawful) {clientId : Uuid}
    {groupId : GroupId} {clientSeed serverSeed : ℕ} {clientDb serverDb : Connection M}
    {x₀ : System M}
    (h₀ : honestHandshake P clientId groupId clientSeed serverSeed clientDb serverDb = some x₀)
    {x : System M} (hrun : System.Runs P (fun _ => True) x₀ x) :
    x.Resumes P groupId ↔ ¬x.Replays groupId := by
  obtain ⟨σ,rfl,-,hP,hinv⟩ := HandshakeTrace.inv hT hJ (honestHandshake_trace h₀) (fun _ => True)
  obtain ⟨H,i,S,p,alive,hx⟩ := hinv.run hT hP hrun
  exact hx.resumes_iff hT hP

/-- The client's update is lost on its way; the client resumes with it. -/
theorem resumes_iff_not_replays_sample :
    (System.step sampleParties (.clientUpdate false) sampleSystem).Resumes sampleParties [9] := by
  refine (resumes_iff_not_replays sampleTwoParty_lawful sampleSerde_lawful sampleSystem_handshake
    (.single _ ⟨trivial,?_⟩)).mpr ?_
  · change _ < _
    decide
  · rintro ⟨-,server,hserver,he⟩
    obtain rfl := Option.some.inj (Except.ok.inj hserver)
    revert he
    decide

/-- The server's confirmation of the client's update is lost: the client resumes with a commit
that the server has merged, and the server refuses it. -/
theorem lost_confirmation_not_resumed :
    ¬∀ x, System.Runs sampleParties (fun _ => True) sampleSystem x →
      x.Resumes sampleParties [9] := by
  intro h
  obtain ⟨_,_,_,_,_,_,_,_,hx⟩ := h (System.step sampleParties .deliverToServer
    (System.step sampleParties (.clientUpdate false) sampleSystem)) (by
      refine .tail _ (.tail _ (.refl _) ⟨trivial,?_⟩) ⟨trivial,trivial⟩
      change _ < _
      decide)
  have hresume := hx.resume
  have hstart := hx.start
  cases hresume
  cases hstart

end TwoParty
end MlsTls.MlsHandshake
