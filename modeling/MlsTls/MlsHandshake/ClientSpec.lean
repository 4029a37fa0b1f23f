import MlsTls.MlsHandshake.Client
import MlsTls.MlsHandshake.TwoParty

/-! What each call of the client does in a session of two honest members: one lemma for each
call and each state it is made in. -/
namespace MlsTls.MlsHandshake
open Lib TlsAead

/-! The messages of the handshake, as bytes. -/

def connectionUpdateBytes {M : OpenMls} (q : Bool) (m : M.Message) : Bytes :=
  (SignalingMessageOut.wire M).bytes (.connectionUpdate ⟨.ofBool q,m⟩)

def epochKeyUpdateBytes (M : OpenMls) (epoch : ℕ) : Bytes :=
  (SignalingMessageOut.wire M).bytes (.epochKeyUpdate ⟨epoch⟩)

def connectionConfirmationBytes (M : OpenMls) (epoch : ℕ) : Bytes :=
  (SignalingMessageOut.wire M).bytes (.connectionConfirmation ⟨epoch⟩)

def resumptionBytes {M : OpenMls} (m : M.Message) : Bytes :=
  (MlsTlsHandshakeOut.wire M).bytes (.fromPayload (.resumption ⟨m⟩))

namespace ClientHandshakeState
variable {M : OpenMls} {α : Type}

lemma db_run {x : Db M α} {c c' : Connection M} {r : Outcome (HandshakeError M.Error) α}
    (h : x.run c = (r,c')) (s : ClientHandshakeState M) : (db x).run (s,c) = (r,(s,c')) := by
  rw [db,Exec.zoom_run,h]

lemma session_run {x : MlsSession.Call M α} {s : ClientHandshakeState M} {c c' : Connection M}
    {t : MlsSession} {r : Outcome (HandshakeError M.Error) α}
    (h : x.run (s.mlsSession,c) = (r,(t,c'))) :
    (session x).run (s,c) = (r,({ s with mlsSession := t },c')) := by
  rw [session,Exec.zoom_run,h]

lemma takeInternalState_run (s : ClientHandshakeState M) (c : Connection M) :
    takeInternalState.run (s,c) = (.ok s.internalState,({ s with internalState := .running },c)) :=
  rfl

end ClientHandshakeState

namespace TwoParty
variable {M : OpenMls} (T : TwoParty M)

/-- The client's state and database after the commits `ms`, with the internal state `i`. -/
structure ClientAt (σ : T.Session) (ms : List M.Message) (i : ClientInternalState M)
    (s : ClientHandshakeState M × Connection M) : Prop where
  group : T.GroupAt ⟨σ,false,ms,none⟩ s.2
  session : s.1.mlsSession = ⟨T.groupId σ,1+ms.length⟩
  internal : s.1.internalState = i
  table : ∃ rows, s.2.handshakeStates = some rows

/-- The own commit the client waits on, with the secrets it leads to. -/
def own (σ : T.Session) (ms : List M.Message) (m : M.Message) : PendingUpdate M :=
  ⟨m,T.secrets σ ms⟩

/-- The state of a client after the commits `ms`. -/
def clientState (σ : T.Session) (ms : List M.Message) (i : ClientInternalState M) (profileId : Uuid) :
    ClientHandshakeState M := ⟨profileId,⟨T.groupId σ,1+ms.length⟩,i⟩

variable {T} (hT : T.Lawful) {J : Serde M} (hJ : J.Lawful) {σ : T.Session} {ms : List M.Message}
  {i : ClientInternalState M} {s : ClientHandshakeState M × Connection M} {m : M.Message}

section
include hT

lemma client_commit (st : ClientHandshakeState M) {c : Connection M} {e : ℕ}
    (hg : T.GroupAt ⟨σ,false,ms,none⟩ c) (hs : st.mlsSession = ⟨T.groupId σ,e⟩)
    (hlen : 1+ms.length+1 < u64Size) (seed : ℕ) :
    ∃ m c' c'', (ClientHandshakeState.sessionUpdate (T.signer σ false) seed).run (st,c) =
        (.ok m,(st,c')) ∧
      (ClientHandshakeState.session MlsSession.mergeUpdate).run (st,c') =
        (.ok (T.secrets σ (ms++[m])),
          ({ st with mlsSession := ⟨T.groupId σ,1+(ms++[m]).length⟩ },c'')) ∧
      T.GroupAt ⟨σ,false,ms++[m],none⟩ c'' ∧ T.IsCommit σ false ms m ∧ T.seedOf m = seed ∧
      c''.handshakeStates = c.handshakeStates := by
  obtain ⟨m,c',hu,hg',hm,hseed,hrows⟩ := update_run hT hg hlen e seed
  obtain ⟨c'',hmerge,hg'',hrows'⟩ := mergeUpdate_run hT hg' e
  refine ⟨m,c',c'',?_,?_,hg'',hm,hseed,hrows'.trans hrows⟩
  · rw [ClientHandshakeState.sessionUpdate,Exec.bind_run,Exec.get_run]
    rw [← hs] at hu
    exact ClientHandshakeState.db_run hu st
  · rw [← hs] at hmerge
    exact ClientHandshakeState.session_run hmerge

end

theorem client_waiting (h : T.ClientAt σ ms i s) (hi : i ≠ .running) :
    s.1.isWaitingForResponse = true := by
  have hint := h.internal
  unfold ClientHandshakeState.isWaitingForResponse
  cases i with
  | running => exact absurd rfl hi
  | waitingForConnectionConfirmation p => rw [hint]
  | waitingForEpochKeyUpdate p => rw [hint]
  | waitingForEpochKeyUpdateReturn p => rw [hint]

theorem client_running (h : T.ClientAt σ ms .running s) : s.1.isWaitingForResponse = false := by
  unfold ClientHandshakeState.isWaitingForResponse
  rw [h.internal]

theorem client_update_waiting (h : T.ClientAt σ ms i s) (hi : i ≠ .running)
    (leafSigner : M.SignatureKeyPair) (q : Bool) (seed : ℕ) :
    (ClientHandshakeState.update J leafSigner q seed).run s =
      (.error (.error .waitingForResponse),s) := by
  rw [ClientHandshakeState.update,Exec.bind_run,Exec.get_run]
  simp only [client_waiting h hi,if_true,Exec.throw_run]

lemma client_store (st : ClientHandshakeState M) {c : Connection M} (hJ : J.Lawful)
    (hg : T.GroupAt ⟨σ,false,ms,none⟩ c) (ht : ∃ rows, c.handshakeStates = some rows) :
    ∃ c', (ClientHandshakeState.db (ClientHandshakeState.storeUpdate J st)).run (st,c) =
        (.ok (),(st,c')) ∧ T.GroupAt ⟨σ,false,ms,none⟩ c' ∧
      ∃ rows, c'.handshakeStates = some rows := by
  obtain ⟨rows,hr⟩ := ht
  obtain ⟨rows',hs⟩ := ClientHandshakeState.storeUpdate_run hJ st hr
  obtain ⟨g,hgg,hv⟩ := hg
  exact ⟨_,ClientHandshakeState.db_run hs st,⟨g,hgg,hv⟩,rows',rfl⟩

include hT

theorem client_update (hJ : J.Lawful) (h : T.ClientAt σ ms .running s)
    (hlen : 1+ms.length+1 < u64Size) (q : Bool) (seed : ℕ) :
    ∃ m s', (ClientHandshakeState.update J (T.signer σ false) q seed).run s =
        (.ok ((T.secrets σ (ms++[m])).clientSecret,
          connectionUpdateBytes q m),s') ∧
      T.ClientAt σ (ms++[m]) (.waitingForEpochKeyUpdate (T.own σ (ms++[m]) m)) s' ∧
      T.IsCommit σ false ms m ∧ T.seedOf m = seed := by
  have hrun := client_running h
  obtain ⟨st,c⟩ := s
  obtain ⟨hg,hs,hi,ht⟩ := h
  obtain ⟨m,c1,c2,hu,hmerge,hg2,hm,hseed,hrows⟩ := client_commit hT st hg hs hlen seed
  have henc := connectionUpdate_enc (.ofBool q) (hT.commit_wire hm)
  obtain ⟨c3,hst,hg3,ht3⟩ := client_store (T.clientState σ (ms++[m])
    (.waitingForEpochKeyUpdate (T.own σ (ms++[m]) m)) st.profileId) hJ hg2 (by rw [hrows]; exact ht)
  refine ⟨m,(T.clientState σ (ms++[m]) (.waitingForEpochKeyUpdate (T.own σ (ms++[m]) m))
    st.profileId,c3),?_,⟨hg3,rfl,rfl,ht3⟩,hm,hseed⟩
  unfold clientState own at hst ⊢
  simp only [ClientHandshakeState.update,Exec.bind_run,Exec.get_run,hrun,Bool.false_eq_true,if_false,
    hu,hmerge,serialize_run henc,ClientHandshakeState.setInternalState,Exec.modify_run,hst,
    Exec.pure_run,connectionUpdateBytes]

/-- A waiting client ignores updates of the server. -/
theorem client_receive_update_waiting (h : T.ClientAt σ ms i s) (hi : i ≠ .running)
    {ms' : List M.Message} {b : Bool} (hm : T.IsCommit σ b ms' m) (q : Bool)
    (leafSigner : M.SignatureKeyPair) (seed : ℕ) :
    (ClientHandshakeState.receiveSignalingMessage J leafSigner
      (connectionUpdateBytes q m) seed).run s =
      (.ok (none,none),s) := by
  have henc := connectionUpdate_enc (.ofBool q) (hT.commit_wire hm)
  simp only [ClientHandshakeState.receiveSignalingMessage,Exec.bind_run,connectionUpdateBytes,
    deserializeSignaling_run hT.wire henc,SignalingMessageOut.toIn,
    ClientHandshakeState.receiveConnectionUpdate,Exec.get_run,client_waiting h hi,if_true,
    Exec.pure_run]

lemma client_createEpochKeyUpdate (st : ClientHandshakeState M) {c : Connection M} {e : ℕ}
    (hg : T.GroupAt ⟨σ,false,ms,none⟩ c) (hs : st.mlsSession = ⟨T.groupId σ,e⟩)
    (hlen : 1+ms.length < u64Size) :
    ClientHandshakeState.createEpochKeyUpdate.run (st,c) =
      (.ok (epochKeyUpdateBytes M (1+ms.length)),
        (st,c)) := by
  have hc := createEpochKeyUpdate_run hT hg e
  rw [← hs] at hc
  simp only [ClientHandshakeState.createEpochKeyUpdate,Exec.bind_run,Exec.get_run,
    ClientHandshakeState.db_run hc,serialize_run (epochKeyUpdate_enc hlen)]
  rfl

/-- A running client merges an update of the server and confirms it. -/
theorem client_receive_update (hJ : J.Lawful) (h : T.ClientAt σ ms .running s)
    (hm : T.IsCommit σ true ms m) (hlen : 1+ms.length+1 < u64Size) (leafSigner : M.SignatureKeyPair)
    (seed : ℕ) :
    ∃ s', (ClientHandshakeState.receiveSignalingMessage J leafSigner
        (connectionUpdateBytes false m) seed).run s =
        (.ok (some (.clientSecret (T.secrets σ (ms++[m])).clientSecret),
          some (epochKeyUpdateBytes M (1+(ms++[m]).length))),s') ∧
      T.ClientAt σ (ms++[m])
        (.waitingForEpochKeyUpdateReturn (T.secrets σ (ms++[m])).serverSecret) s' := by
  have hrun := client_running h
  obtain ⟨st,c⟩ := s
  obtain ⟨hg,hs,hi,ht⟩ := h
  have henc := connectionUpdate_enc (.ofBool false) (hT.commit_wire hm)
  obtain ⟨c1,hproc,hg1,hrows⟩ := processMlsUpdate_run hT false hg hm hlen (Or.inr rfl) (Or.inl rfl)
  have heku := client_createEpochKeyUpdate hT
    { st with mlsSession := ⟨T.groupId σ,1+(ms++[m]).length⟩ } hg1 rfl
    (by rw [List.length_append,List.length_singleton]; omega)
  obtain ⟨c2,hst,hg2,ht2⟩ := client_store (T.clientState σ (ms++[m])
    (.waitingForEpochKeyUpdateReturn (T.secrets σ (ms++[m])).serverSecret) st.profileId) hJ hg1
    (by rw [hrows]; exact ht)
  refine ⟨(T.clientState σ (ms++[m])
    (.waitingForEpochKeyUpdateReturn (T.secrets σ (ms++[m])).serverSecret) st.profileId,c2),?_,⟨hg2,rfl,rfl,ht2⟩⟩
  unfold clientState at hst ⊢
  simp only [ClientHandshakeState.receiveSignalingMessage,Exec.bind_run,connectionUpdateBytes,
    deserializeSignaling_run hT.wire henc,SignalingMessageOut.toIn,
    ClientHandshakeState.receiveConnectionUpdate,Exec.get_run,hrun,Bool.false_eq_true,if_false,
    ClientHandshakeState.processUpdate,ClientHandshakeState.db_run hproc,Exec.modify_run,heku,
    Boolean.toBool_ofBool,ClientHandshakeState.setInternalState,Exec.pure_run,hst]

/-- A running client that is asked for an update merges the server's, makes its own on top of it
and sends that one instead of the confirmation. -/
theorem client_receive_update_requested (hJ : J.Lawful) (h : T.ClientAt σ ms .running s)
    (hm : T.IsCommit σ true ms m) (hlen : 1+ms.length+2 < u64Size) (seed : ℕ) :
    ∃ m' s', (ClientHandshakeState.receiveSignalingMessage J (T.signer σ false)
        (connectionUpdateBytes true m) seed).run s =
        (.ok (some (.clientSecret (T.secrets σ (ms++[m]++[m'])).clientSecret),
          some (connectionUpdateBytes false m')),s') ∧
      T.ClientAt σ (ms++[m]++[m'])
        (.waitingForEpochKeyUpdate (T.own σ (ms++[m]++[m']) m')) s' ∧
      T.IsCommit σ false (ms++[m]) m' ∧ T.seedOf m' = seed := by
  have hrun := client_running h
  obtain ⟨st,c⟩ := s
  obtain ⟨hg,hs,hi,ht⟩ := h
  have henc := connectionUpdate_enc (.ofBool true) (hT.commit_wire hm)
  have hlen' : 1+(ms++[m]).length+1 < u64Size := by
    rw [List.length_append,List.length_singleton]
    omega
  obtain ⟨c1,hproc,hg1,hrows⟩ :=
    processMlsUpdate_run hT false hg hm (by omega) (Or.inr rfl) (Or.inl rfl)
  have heku := client_createEpochKeyUpdate hT
    { st with mlsSession := ⟨T.groupId σ,1+(ms++[m]).length⟩ } hg1 rfl (by omega)
  obtain ⟨m',c2,c3,hu,hmerge,hg3,hm',hseed,hrows'⟩ := client_commit hT
    { st with mlsSession := ⟨T.groupId σ,1+(ms++[m]).length⟩ } hg1 rfl hlen' seed
  have henc' := connectionUpdate_enc (.ofBool false) (hT.commit_wire hm')
  obtain ⟨c4,hst,hg4,ht4⟩ := client_store (T.clientState σ (ms++[m]++[m'])
    (.waitingForEpochKeyUpdate (T.own σ (ms++[m]++[m']) m')) st.profileId) hJ hg3
    (by rw [hrows',hrows]; exact ht)
  refine ⟨m',(T.clientState σ (ms++[m]++[m'])
    (.waitingForEpochKeyUpdate (T.own σ (ms++[m]++[m']) m')) st.profileId,c4),?_,
    ⟨hg4,rfl,rfl,ht4⟩,hm',hseed⟩
  unfold clientState own at hst ⊢
  simp only [ClientHandshakeState.receiveSignalingMessage,Exec.bind_run,connectionUpdateBytes,
    deserializeSignaling_run hT.wire henc,SignalingMessageOut.toIn,
    ClientHandshakeState.receiveConnectionUpdate,Exec.get_run,hrun,Bool.false_eq_true,if_false,
    ClientHandshakeState.processUpdate,ClientHandshakeState.db_run hproc,Exec.modify_run,heku,
    Boolean.toBool_ofBool,if_true,hu,hmerge,serialize_run henc',
    ClientHandshakeState.setInternalState,Exec.pure_run,hst]

lemma client_processEpochKeyUpdate (st : ClientHandshakeState M) {c : Connection M} {e : ℕ}
    (hg : T.GroupAt ⟨σ,false,ms,none⟩ c) (hs : st.mlsSession = ⟨T.groupId σ,e⟩) :
    (ClientHandshakeState.processEpochKeyUpdate ⟨1+ms.length⟩).run (st,c) = (.ok (),(st,c)) := by
  have hp := processEpochKeyUpdate_run hT hg e
  rw [← hs] at hp
  simp only [ClientHandshakeState.processEpochKeyUpdate,Exec.bind_run,Exec.get_run,
    ClientHandshakeState.db_run hp]

/-- The server's confirmation, at the client's own epoch, ends the wait and hands out the server
secret. -/
theorem client_receive_epochKeyUpdate (hJ : J.Lawful) (h : T.ClientAt σ ms i s)
    (hi : (∃ m, i = .waitingForEpochKeyUpdate (T.own σ ms m)) ∨
      i = .waitingForEpochKeyUpdateReturn (T.secrets σ ms).serverSecret)
    (hlen : 1+ms.length < u64Size) (leafSigner : M.SignatureKeyPair) (seed : ℕ) :
    ∃ s', (ClientHandshakeState.receiveSignalingMessage J leafSigner
        (epochKeyUpdateBytes M (1+ms.length)) seed).run s =
        (.ok (some (.serverSecret (T.secrets σ ms).serverSecret),none),s') ∧
      T.ClientAt σ ms .running s' := by
  obtain ⟨st,c⟩ := s
  obtain ⟨hg,hs,hint,ht⟩ := h
  change st.internalState = _ at hint
  have henc := epochKeyUpdate_enc (M := M) hlen
  have hproc := client_processEpochKeyUpdate hT
    { st with internalState := .running } hg hs
  obtain ⟨c1,hst,hg1,ht1⟩ := client_store { st with internalState := .running } hJ hg ht
  refine ⟨({ st with internalState := .running },c1),?_,⟨hg1,hs,rfl,ht1⟩⟩
  rw [ClientHandshakeState.receiveSignalingMessage,Exec.bind_run,epochKeyUpdateBytes,
    deserializeSignaling_run hT.wire henc]
  rcases hi with ⟨m,rfl⟩ | rfl <;>
  simp only [SignalingMessageOut.toIn,ClientHandshakeState.receiveEpochKeyUpdate,Exec.bind_run,
    ClientHandshakeState.takeInternalState_run,hint,hproc,Exec.get_run,hst,Exec.pure_run,own]

theorem client_receive_connectionConfirmation (hJ : J.Lawful)
    (h : T.ClientAt σ ms (.waitingForConnectionConfirmation (T.own σ ms m)) s)
    (hlen : 1+ms.length < u64Size) (leafSigner : M.SignatureKeyPair) (seed : ℕ) :
    ∃ s', (ClientHandshakeState.receiveSignalingMessage J leafSigner
        (connectionConfirmationBytes M (1+ms.length)) seed).run s =
        (.ok (none,none),s') ∧ T.ClientAt σ ms .running s' := by
  obtain ⟨st,c⟩ := s
  obtain ⟨hg,hs,hint,ht⟩ := h
  change st.internalState = _ at hint
  have henc := connectionConfirmation_enc (M := M) hlen
  have hproc := client_processEpochKeyUpdate hT
    { st with internalState := .running } hg hs
  obtain ⟨c1,hst,hg1,ht1⟩ := client_store { st with internalState := .running } hJ hg ht
  refine ⟨({ st with internalState := .running },c1),?_,⟨hg1,hs,rfl,ht1⟩⟩
  simp only [ClientHandshakeState.receiveSignalingMessage,Exec.bind_run,connectionConfirmationBytes,
    deserializeSignaling_run hT.wire henc,SignalingMessageOut.toIn,
    ClientHandshakeState.receiveConnectionConfirmation,ClientHandshakeState.takeInternalState_run,
    hint,hproc,ClientHandshakeState.setInternalState,Exec.modify_run,Exec.get_run,hst,Exec.pure_run]

/-- A client that waits for nothing of its own resumes with a fresh commit. -/
theorem client_resume_fresh (h : T.ClientAt σ ms i s)
    (hi : i = .running ∨ ∃ secret, i = .waitingForEpochKeyUpdateReturn secret)
    (hlen : 1+ms.length+1 < u64Size) (seed : ℕ) :
    ∃ m s', (ClientHandshakeState.resume (T.signer σ false) seed).run s =
        (.ok (T.secrets σ (ms++[m]),resumptionBytes m),s') ∧
      T.ClientAt σ (ms++[m]) (.waitingForConnectionConfirmation (T.own σ (ms++[m]) m)) s' ∧
      T.IsCommit σ false ms m ∧ T.seedOf m = seed := by
  obtain ⟨st,c⟩ := s
  obtain ⟨hg,hs,hint,ht⟩ := h
  change st.internalState = _ at hint
  obtain ⟨m,c1,c2,hu,hmerge,hg2,hm,hseed,hrows⟩ := client_commit hT
    { st with internalState := .running } hg hs hlen seed
  have henc := resumption_enc (hT.commit_wire hm)
  refine ⟨m,(T.clientState σ (ms++[m]) (.waitingForConnectionConfirmation (T.own σ (ms++[m]) m))
    st.profileId,c2),?_,⟨hg2,rfl,rfl,by rw [hrows]; exact ht⟩,hm,hseed⟩
  have hfresh : (ClientHandshakeState.freshResumption (T.signer σ false) seed).run
      ({ st with internalState := .running },c) = (.ok (m,T.secrets σ (ms++[m])),
        ({ st with internalState := .running,
                   mlsSession := ⟨T.groupId σ,1+(ms++[m]).length⟩ },c2)) := by
    simp only [ClientHandshakeState.freshResumption,Exec.bind_run,Exec.mapError,hu,hmerge,
      Exec.pure_run]
  rw [ClientHandshakeState.resume,Exec.bind_run,ClientHandshakeState.takeInternalState_run]
  rcases hi with rfl | ⟨secret,rfl⟩ <;>
  simp only [hint,Exec.bind_run,hfresh,MlsTlsHandshakeOut.fromPayload,serialize_run henc,
    ClientHandshakeState.setInternalState,Exec.modify_run,Exec.pure_run] <;> rfl

/-- A client that waits for the confirmation of its own commit resumes with that commit. -/
theorem client_resume_replay {ms' : List M.Message} (h : T.ClientAt σ ms i s)
    (hi : i = .waitingForEpochKeyUpdate (T.own σ ms m) ∨
      i = .waitingForConnectionConfirmation (T.own σ ms m))
    (hm : T.IsCommit σ false ms' m) (leafSigner : M.SignatureKeyPair) (seed : ℕ) :
    ∃ s', (ClientHandshakeState.resume leafSigner seed).run s =
        (.ok (T.secrets σ ms,resumptionBytes m),s') ∧
      T.ClientAt σ ms (.waitingForConnectionConfirmation (T.own σ ms m)) s' := by
  obtain ⟨st,c⟩ := s
  obtain ⟨hg,hs,hint,ht⟩ := h
  change st.internalState = _ at hint
  have henc := resumption_enc (hT.commit_wire hm)
  refine ⟨({ st with internalState := .waitingForConnectionConfirmation (T.own σ ms m) },c),?_,
    ⟨hg,hs,rfl,ht⟩⟩
  rw [ClientHandshakeState.resume,Exec.bind_run,ClientHandshakeState.takeInternalState_run]
  rcases hi with rfl | rfl <;>
  simp only [hint,own,Exec.bind_run,Exec.pure_run,MlsTlsHandshakeOut.fromPayload,serialize_run henc,
    ClientHandshakeState.setInternalState,Exec.modify_run] <;> rfl

end TwoParty
end MlsTls.MlsHandshake
