import MlsTls.MlsHandshake.Agreement

/-! What the calls of a connection return, for a caller that keeps its record keys in step: every
message of the client is the last one under its key, and so is every `EpochKeyUpdate` of the
server. The connections of the encryption provider neither resume nor ask for updates in return. -/
namespace MlsTls.MlsHandshake
open Lib TlsAead

/-- The events of a connection of the encryption provider. -/
def Quiet (e : Event) : Prop := e ≠ .resume ∧ e ≠ .clientUpdate true ∧ e ≠ .serverUpdate true

/-- Whether a message announces that its sender changes keys. -/
def isEpochKeyUpdate (M : OpenMls) (b : Bytes) : Bool :=
  match (SignalingMessageIn.wire M).decExact b with
  | some (.epochKeyUpdate _) => true
  | _ => false

/-- Every answer to a message is an `EpochKeyUpdate`, and the client does not answer one. -/
def Confirms (M : OpenMls) (isServer : Bool) (b : Bytes) (response : Option Bytes) : Prop :=
  ∀ r, response = some r → (∃ n < u64Size, r = epochKeyUpdateBytes M n) ∧
    (isServer = false → isEpochKeyUpdate M b = false)

namespace TwoParty
variable {M : OpenMls} {T : TwoParty M} {σ : T.Session} {P : Parties M} {H S : List M.Message}
  {i : ClientInternalState M} {p : Option M.Message} {alive : Bool} {x : System M}

section
variable (hT : T.Lawful)
include hT

lemma decExact_signaling {m : SignalingMessageOut M}
    (h : ∃ e, (SignalingMessageOut.wire M).enc m = some e) :
    (SignalingMessageIn.wire M).decExact ((SignalingMessageOut.wire M).bytes m) = some m.toIn :=
  (SignalingMessageIn.wire_lawful hT.wire).decExact_enc
    ((m.wire_enc).symm.trans (Wire.enc_eq_bytes h))

lemma isEpochKeyUpdate_connectionUpdate {b : Bool} {ms : List M.Message} {m : M.Message}
    (hm : T.IsCommit σ b ms m) (q : Bool) :
    isEpochKeyUpdate M (connectionUpdateBytes q m) = false := by
  rw [isEpochKeyUpdate,connectionUpdateBytes,
    decExact_signaling hT (connectionUpdate_enc (.ofBool q) (hT.commit_wire hm))]
  rfl

lemma isEpochKeyUpdate_epochKeyUpdate {n : ℕ} (h : n < u64Size) :
    isEpochKeyUpdate M (epochKeyUpdateBytes M n) = true := by
  rw [isEpochKeyUpdate,epochKeyUpdateBytes,decExact_signaling hT (epochKeyUpdate_enc h)]
  rfl

lemma isEpochKeyUpdate_of_isServerUpdate {b : Bytes} (h : T.IsServerUpdate σ b) :
    isEpochKeyUpdate M b = false := by
  obtain ⟨q,ms,s,rfl,hs⟩ := h
  exact isEpochKeyUpdate_connectionUpdate hT hs q

end

/-- What a client does with a message of the server. -/
inductive ClientReply (x : System M) (b : Bytes) : Option SecretUpdate → Option Bytes → Prop
  /-- A message that crossed the client's own update. -/
  | ignored (plain : isEpochKeyUpdate M b = false) : ClientReply x b none none
  /-- An update of the server. -/
  | merged (plain : isEpochKeyUpdate M b = false) (quiet : x.clientToServer = [])
      (secret : ClientSecret) (response : Bytes) :
      ClientReply x b (some (.clientSecret secret)) (some response)
  /-- The confirmation of an update of either party. -/
  | confirmed (switch : isEpochKeyUpdate M b = true) :
      ClientReply x b (some (.serverSecret x.serverSecrets.serverSecret)) none

section
variable (hT : T.Lawful) (hP : T.Honest σ P)
include hT hP

theorem Inv.client_receive (h : T.Inv σ Quiet H i S p alive x) {b : Bytes} {bs : List Bytes}
    (htc : x.serverToClient = b::bs) :
    ∃ update response s, (ClientHandshakeState.receiveSignalingMessage P.serde P.clientSigner b
        x.clock).run (x.client,x.clientDb) = (.ok (update,response),s) ∧
      ClientReply x b update response ∧ Confirms M false b response := by
  have hsh := h.shape
  have hfits := h.fits
  rw [htc] at hsh
  generalize hts : x.clientToServer = ts at hsh
  have hignored (hi : i ≠ .running) (hb : T.IsServerUpdate σ b) :
      ∃ update response s, (ClientHandshakeState.receiveSignalingMessage P.serde P.clientSigner b
          x.clock).run (x.client,x.clientDb) = (.ok (update,response),s) ∧
        ClientReply x b update response ∧ Confirms M false b response := by
    obtain ⟨q,ms,s,rfl,hs⟩ := hb
    exact ⟨_,_,_,client_receive_update_waiting hT h.client hi hs q P.clientSigner x.clock,
      .ignored (isEpochKeyUpdate_connectionUpdate hT hs q),by simp [Confirms]⟩
  have hconfirmed (hi : (∃ m, i = .waitingForEpochKeyUpdate (T.own σ H m)) ∨
      i = .waitingForEpochKeyUpdateReturn (T.secrets σ H).serverSecret) (hHS : H = S)
      (ha : alive = true) (hb : b = epochKeyUpdateBytes M (1+H.length)) :
      ∃ update response s, (ClientHandshakeState.receiveSignalingMessage P.serde P.clientSigner b
          x.clock).run (x.client,x.clientDb) = (.ok (update,response),s) ∧
        ClientReply x b update response ∧ Confirms M false b response := by
    subst hb
    obtain ⟨s,hrun,-⟩ := client_receive_epochKeyUpdate hT hP.serde h.client hi (by omega)
      P.clientSigner x.clock
    have hsecret : (T.secrets σ H).serverSecret = x.serverSecrets.serverSecret := by
      rw [h.serverSecrets ha,hHS]
    rw [hsecret] at hrun
    exact ⟨_,_,s,hrun,.confirmed (isEpochKeyUpdate_epochKeyUpdate hT (by omega)),by simp [Confirms]⟩
  generalize htc' : b::bs = tc at hsh
  cases hsh with
  | idle offer =>
    cases offer with
    | none => simp at htc'
    | some commit room request =>
      rename_i q s
      obtain rfl : q = false := by
        cases q with
        | false => rfl
        | true => exact absurd rfl (request rfl).2.2
      obtain ⟨rfl,-⟩ := List.cons.inj htc'
      rw [Bool.toNat_false] at room
      obtain ⟨t,hrun,-⟩ := client_receive_update hT hP.serde h.client commit (by omega)
        P.clientSigner x.clock
      have hplain := isEpochKeyUpdate_connectionUpdate hT commit false
      refine ⟨_,_,t,hrun,.merged hplain hts _ _,fun r hr => ⟨⟨_,?_,(Option.some.inj hr).symm⟩,
        fun _ => hplain⟩⟩
      rw [List.length_append,List.length_singleton]
      omega
  | updating ahead commit request ignored =>
    exact hignored (by simp) (ignored b (by rw [← htc']; simp))
  | confirming last commit ignored offer =>
    rename_i base c before after
    cases before with
    | nil => exact hconfirmed (Or.inl ⟨c,rfl⟩) rfl rfl (List.cons.inj htc').1
    | cons b' before =>
      obtain ⟨rfl,-⟩ := List.cons.inj htc'
      exact hignored (by simp) (ignored b (by simp))
  | stuck request => exact absurd rfl request.2.1
  | merging => simp at htc'
  | returning offer => exact hconfirmed (Or.inr rfl) rfl rfl (List.cons.inj htc').1
  | resuming => simp at htc'
  | replaying => simp at htc'
  | confirmed resume => exact absurd rfl resume.1
  | failed => simp at htc'

omit hP in
/-- The server answers everything with an `EpochKeyUpdate` and changes both of its keys. -/
theorem Inv.server_receive (h : T.Inv σ Quiet H i S p alive x) {b : Bytes} {bs : List Bytes}
    (hts : x.clientToServer = b::bs) {server : ServerHandshakeState} (hs : x.server = some server) :
    ∃ secrets response s, (ServerHandshakeState.receiveSignalingMessage P.serverSigner b
        x.clock).run (server,x.serverDb) = (.ok (secrets,some response),s) ∧
      secrets.clientSecret = x.clientSecrets.clientSecret ∧ isEpochKeyUpdate M response = true ∧
      (∀ b' ∈ x.serverToClient, isEpochKeyUpdate M b' = false) ∧
      Confirms M true b (some response) := by
  have hsh := h.shape
  have hfits := h.fits
  have hserver := h.server
  rw [hs] at hserver
  rw [hts] at hsh
  generalize hts' : b::bs = ts at hsh
  generalize htc : x.serverToClient = tc at hsh
  cases hsh with
  | idle => simp at hts'
  | updating ahead commit request ignored =>
    rename_i base c q
    obtain rfl : q = false := by
      cases q with
      | false => rfl
      | true => exact absurd rfl (request rfl).2.1
    obtain ⟨rfl,-⟩ := List.cons.inj hts'
    obtain rfl := Option.some.inj hserver
    rw [List.length_append,List.length_singleton] at hfits
    have hms : base = S ∨ ∃ s, p = some s ∧ base = S++[s] := by
      rcases ahead with rfl | ⟨-,hs⟩
      · exact Or.inl rfl
      · exact Or.inr hs
    have hat : T.ServerAt σ S p (T.serverState σ S p,x.serverDb) := ⟨h.group,rfl⟩
    obtain ⟨s,hrun,-⟩ := server_receive_update hT hat commit hms (by omega) P.serverSigner x.clock
    have hroom : 1+(base++[c]).length < u64Size := by
      rw [List.length_append,List.length_singleton]
      omega
    exact ⟨_,_,s,hrun,h.clientSecret.symm,isEpochKeyUpdate_epochKeyUpdate hT hroom,
      fun b' hb' => isEpochKeyUpdate_of_isServerUpdate hT (ignored b' hb'),
      fun r hr => ⟨⟨_,hroom,(Option.some.inj hr).symm⟩,by simp⟩⟩
  | confirming => simp at hts'
  | stuck => simp at hts'
  | merging =>
    rename_i s
    obtain ⟨rfl,-⟩ := List.cons.inj hts'
    obtain rfl := Option.some.inj hserver
    rw [List.length_append,List.length_singleton] at hfits
    have hat : T.ServerAt σ S (some s) (T.serverState σ S (some s),x.serverDb) := ⟨h.group,rfl⟩
    obtain ⟨t,hrun,-⟩ := server_receive_epochKeyUpdate hT hat (by omega) P.serverSigner x.clock
    have hroom : 1+(S++[s]).length < u64Size := by
      rw [List.length_append,List.length_singleton]
      omega
    exact ⟨_,_,t,hrun,h.clientSecret.symm,isEpochKeyUpdate_epochKeyUpdate hT hroom,by simp,
      fun r hr => ⟨⟨_,hroom,(Option.some.inj hr).symm⟩,by simp⟩⟩
  | returning => simp at hts'
  | resuming resume => exact absurd rfl resume.1
  | replaying resume => exact absurd rfl resume.1
  | confirmed resume => exact absurd rfl resume.1
  | failed resume => exact absurd rfl resume.1

/-- An update of the client is refused while it waits, and otherwise there is nothing else of it
in flight. -/
theorem Inv.client_update_cases (h : T.Inv σ Quiet H i S p alive x) (q : Bool) :
    (ClientHandshakeState.update P.serde P.clientSigner q x.clock).run (x.client,x.clientDb) =
        (.error (.error .waitingForResponse),(x.client,x.clientDb)) ∨
      x.client.isWaitingForResponse = false ∧ x.clientToServer = [] ∧
      (x.client.mlsSession.epoch+2 < u64Size → ∃ secret b s, (ClientHandshakeState.update P.serde
        P.clientSigner q x.clock).run (x.client,x.clientDb) = (.ok (secret,b),s)) := by
  by_cases hi : i = .running
  · subst hi
    refine Or.inr ⟨client_running h.client,?_,fun hroom => ?_⟩
    · have hsh := h.shape
      generalize x.clientToServer = ts at hsh
      generalize x.serverToClient = tc at hsh
      cases hsh
      rfl
    · obtain ⟨m,s,hrun,-⟩ := client_update hT hP.serde h.client h.fits q x.clock
      exact ⟨_,_,s,by rw [hP.clientSigner]; exact hrun⟩
  · exact Or.inl (client_update_waiting h.client hi P.clientSigner q x.clock)

theorem Inv.server_update_cases (h : T.Inv σ Quiet H i S p alive x) (q : Bool)
    {server : ServerHandshakeState} (hs : x.server = some server) :
    (ServerHandshakeState.update P.serverSigner q x.clock).run (server,x.serverDb) =
        (.error (.error .waitingForResponse),(server,x.serverDb)) ∨
      server.isWaitingForResponse = false ∧
      (server.mlsSession.epoch+2 < u64Size → ∃ b s, (ServerHandshakeState.update P.serverSigner q
        x.clock).run (server,x.serverDb) = (.ok b,s) ∧ isEpochKeyUpdate M b = false) := by
  have hserver := h.server
  rw [hs] at hserver
  cases alive with
  | false => simp at hserver
  | true =>
    obtain rfl := Option.some.inj hserver
    have hat : T.ServerAt σ S p (T.serverState σ S p,x.serverDb) := ⟨h.group,rfl⟩
    cases p with
    | some s => exact Or.inl (server_update_waiting hat P.serverSigner q x.clock)
    | none =>
      refine Or.inr ⟨rfl,fun hroom => ?_⟩
      have hepoch : 1+S.length+2 < u64Size := hroom
      obtain ⟨m,s,hrun,-,hm,-⟩ := server_update hT hat (by omega) q x.clock
      exact ⟨_,s,by rw [hP.serverSigner]; exact hrun,isEpochKeyUpdate_connectionUpdate hT hm q⟩

end
end TwoParty
end MlsTls.MlsHandshake
