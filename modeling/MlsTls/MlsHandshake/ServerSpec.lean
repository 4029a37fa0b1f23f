import MlsTls.MlsHandshake.ClientSpec
import MlsTls.MlsHandshake.Server

/-! What each call of the server does in a session of two honest members. A server waits exactly
when it has a commit pending. -/
namespace MlsTls.MlsHandshake
open Lib TlsAead

namespace ServerHandshakeState
variable {M : OpenMls} {α : Type}

lemma db_run {x : Db M α} {c c' : Connection M} {r : Outcome (HandshakeError M.Error) α}
    (h : x.run c = (r,c')) (s : ServerHandshakeState) : (db x).run (s,c) = (r,(s,c')) := by
  rw [db,Exec.zoom_run,h]

lemma session_run {x : MlsSession.Call M α} {s : ServerHandshakeState} {c c' : Connection M}
    {t : MlsSession} {r : Outcome (HandshakeError M.Error) α}
    (h : x.run (s.mlsSession,c) = (r,(t,c'))) :
    (session x).run (s,c) = (r,({ s with mlsSession := t },c')) := by
  rw [session,Exec.zoom_run,h]

end ServerHandshakeState

/-- What a server with or without a pending commit waits for. -/
def ServerInternalState.ofPending {α : Type} : Option α → ServerInternalState
  | none => .running
  | some _ => .waitingForUpdate

namespace TwoParty
variable {M : OpenMls} (T : TwoParty M)

/-- The state of a server after the commits `ms`. -/
def serverState (σ : T.Session) (ms : List M.Message) (pending : Option M.Message) :
    ServerHandshakeState := ⟨⟨T.groupId σ,1+ms.length⟩,.ofPending pending⟩

/-- The server's state and database after the commits `ms`. -/
structure ServerAt (σ : T.Session) (ms : List M.Message) (pending : Option M.Message)
    (s : ServerHandshakeState × Connection M) : Prop where
  group : T.GroupAt ⟨σ,true,ms,pending⟩ s.2
  state : s.1 = T.serverState σ ms pending

variable {T} (hT : T.Lawful) {σ : T.Session} {ms ms' : List M.Message} {pending : Option M.Message}
  {s : ServerHandshakeState × Connection M} {m : M.Message} {c : Connection M}

theorem server_update_waiting (h : T.ServerAt σ ms (some m) s) (leafSigner : M.SignatureKeyPair)
    (q : Bool) (seed : ℕ) :
    (ServerHandshakeState.update leafSigner q seed).run s =
      (.error (.error .waitingForResponse),s) := by
  obtain ⟨st,c⟩ := s
  obtain ⟨hg,rfl⟩ := h
  rfl

include hT

lemma server_commit (st : ServerHandshakeState) {e : ℕ} (hg : T.GroupAt ⟨σ,true,ms,none⟩ c)
    (hs : st.mlsSession = ⟨T.groupId σ,e⟩) (hlen : 1+ms.length+1 < u64Size) (seed : ℕ) :
    ∃ m c', (ServerHandshakeState.sessionUpdate (T.signer σ true) seed).run (st,c) =
        (.ok m,(st,c')) ∧
      T.GroupAt ⟨σ,true,ms,some m⟩ c' ∧ T.IsCommit σ true ms m ∧ T.seedOf m = seed := by
  obtain ⟨m,c',hu,hg',hm,hseed,-⟩ := update_run hT hg hlen e seed
  refine ⟨m,c',?_,hg',hm,hseed⟩
  rw [ServerHandshakeState.sessionUpdate,Exec.bind_run,Exec.get_run]
  rw [← hs] at hu
  exact ServerHandshakeState.db_run hu st

theorem server_update (h : T.ServerAt σ ms none s) (hlen : 1+ms.length+1 < u64Size) (q : Bool)
    (seed : ℕ) :
    ∃ m s', (ServerHandshakeState.update (T.signer σ true) q seed).run s =
        (.ok (connectionUpdateBytes q m),s') ∧
      T.ServerAt σ ms (some m) s' ∧ T.IsCommit σ true ms m ∧ T.seedOf m = seed := by
  obtain ⟨st,c⟩ := s
  obtain ⟨hg,rfl⟩ := h
  obtain ⟨m,c',hu,hg',hm,hseed⟩ := server_commit hT (T.serverState σ ms none) hg rfl hlen seed
  have henc := connectionUpdate_enc (.ofBool q) (hT.commit_wire hm)
  refine ⟨m,(T.serverState σ ms (some m),c'),?_,⟨hg',rfl⟩,hm,hseed⟩
  have hw : (T.serverState σ ms none).isWaitingForResponse = false := rfl
  simp only [ServerHandshakeState.update,Exec.bind_run,Exec.get_run,hw,Bool.false_eq_true,if_false,
    hu,serialize_run henc,ServerHandshakeState.setInternalState,Exec.modify_run,Exec.pure_run]
  rfl

lemma server_createEpochKeyUpdate (st : ServerHandshakeState) {e : ℕ}
    (hg : T.GroupAt ⟨σ,true,ms,pending⟩ c) (hs : st.mlsSession = ⟨T.groupId σ,e⟩)
    (hlen : 1+ms.length < u64Size) :
    ServerHandshakeState.createEpochKeyUpdate.run (st,c) =
      (.ok (epochKeyUpdateBytes M (1+ms.length)),(st,c)) := by
  have hc := createEpochKeyUpdate_run hT hg e
  rw [← hs] at hc
  simp only [ServerHandshakeState.createEpochKeyUpdate,Exec.bind_run,Exec.get_run,
    ServerHandshakeState.db_run hc,serialize_run (epochKeyUpdate_enc hlen)]
  rfl

/-- An update of the client is merged, on top of the server's own commit if the client has it
already; a commit the client does not have is dropped. -/
theorem server_receive_update (h : T.ServerAt σ ms pending s) (hm : T.IsCommit σ false ms' m)
    (hms : ms' = ms ∨ ∃ s, pending = some s ∧ ms' = ms++[s]) (hlen : 1+ms'.length+1 < u64Size)
    (leafSigner : M.SignatureKeyPair) (seed : ℕ) :
    ∃ s', (ServerHandshakeState.receiveSignalingMessage leafSigner
        (connectionUpdateBytes false m) seed).run s =
        (.ok (T.secrets σ (ms'++[m]),some (epochKeyUpdateBytes M (1+(ms'++[m]).length))),s') ∧
      T.ServerAt σ (ms'++[m]) none s' := by
  obtain ⟨st,c⟩ := s
  obtain ⟨hg,hst⟩ := h
  have hle : ms.length ≤ ms'.length := by
    rcases hms with rfl | ⟨x,-,rfl⟩ <;> simp
  have henc := connectionUpdate_enc (.ofBool false) (hT.commit_wire hm)
  obtain ⟨c1,hproc,hg1,-⟩ := processMlsUpdate_run hT true hg hm (by omega) (Or.inl rfl) hms
  have heku := server_createEpochKeyUpdate hT (T.serverState σ (ms'++[m]) none) hg1 rfl
    (by rw [List.length_append,List.length_singleton]; omega)
  refine ⟨(T.serverState σ (ms'++[m]) none,c1),?_,⟨hg1,rfl⟩⟩
  unfold serverState ServerInternalState.ofPending at heku ⊢
  simp only [ServerHandshakeState.receiveSignalingMessage,Exec.bind_run,connectionUpdateBytes,
    deserializeSignaling_run hT.wire henc,SignalingMessageOut.toIn,
    ServerHandshakeState.processUpdate,ServerHandshakeState.db_run hproc,
    ServerHandshakeState.setInternalState,Exec.modify_run,heku,Boolean.toBool_ofBool,
    Bool.false_eq_true,if_false,Exec.pure_run]

/-- Asked for an update, the server answers with a commit of its own and keeps it pending. -/
theorem server_receive_update_requested (h : T.ServerAt σ ms pending s)
    (hm : T.IsCommit σ false ms' m) (hms : ms' = ms ∨ ∃ s, pending = some s ∧ ms' = ms++[s])
    (hlen : 1+ms'.length+2 < u64Size) (seed : ℕ) :
    ∃ m' s', (ServerHandshakeState.receiveSignalingMessage (T.signer σ true)
        (connectionUpdateBytes true m) seed).run s =
        (.ok (T.secrets σ (ms'++[m]),some (connectionUpdateBytes false m')),s') ∧
      T.ServerAt σ (ms'++[m]) (some m') s' ∧ T.IsCommit σ true (ms'++[m]) m' ∧
      T.seedOf m' = seed := by
  obtain ⟨st,c⟩ := s
  obtain ⟨hg,hst⟩ := h
  have hle : ms.length ≤ ms'.length := by
    rcases hms with rfl | ⟨x,-,rfl⟩ <;> simp
  have hlen' : 1+(ms'++[m]).length+1 < u64Size := by
    rw [List.length_append,List.length_singleton]
    omega
  have henc := connectionUpdate_enc (.ofBool true) (hT.commit_wire hm)
  obtain ⟨c1,hproc,hg1,-⟩ := processMlsUpdate_run hT true hg hm (by omega) (Or.inl rfl) hms
  have heku := server_createEpochKeyUpdate hT (T.serverState σ (ms'++[m]) none) hg1 rfl (by omega)
  obtain ⟨m',c2,hu,hg2,hm',hseed⟩ :=
    server_commit hT (T.serverState σ (ms'++[m]) none) hg1 rfl hlen' seed
  have henc' := connectionUpdate_enc (.ofBool false) (hT.commit_wire hm')
  refine ⟨m',(T.serverState σ (ms'++[m]) (some m'),c2),?_,⟨hg2,rfl⟩,hm',hseed⟩
  unfold serverState ServerInternalState.ofPending at heku hu ⊢
  simp only [ServerHandshakeState.receiveSignalingMessage,Exec.bind_run,connectionUpdateBytes,
    deserializeSignaling_run hT.wire henc,SignalingMessageOut.toIn,
    ServerHandshakeState.processUpdate,ServerHandshakeState.db_run hproc,
    ServerHandshakeState.setInternalState,Exec.modify_run,heku,Boolean.toBool_ofBool,
    if_true,hu,serialize_run henc',Exec.pure_run]

/-- The client's confirmation of the server's own commit. -/
theorem server_receive_epochKeyUpdate (h : T.ServerAt σ ms (some m) s)
    (hlen : 1+ms.length+1 < u64Size) (leafSigner : M.SignatureKeyPair) (seed : ℕ) :
    ∃ s', (ServerHandshakeState.receiveSignalingMessage leafSigner
        (epochKeyUpdateBytes M (1+(ms++[m]).length)) seed).run s =
        (.ok (T.secrets σ (ms++[m]),some (epochKeyUpdateBytes M (1+(ms++[m]).length))),s') ∧
      T.ServerAt σ (ms++[m]) none s' := by
  obtain ⟨st,c⟩ := s
  obtain ⟨hg,hst⟩ := h
  obtain rfl : st = T.serverState σ ms (some m) := hst
  have hlen' : 1+(ms++[m]).length < u64Size := by
    rw [List.length_append,List.length_singleton]
    omega
  have henc := epochKeyUpdate_enc (M := M) hlen'
  obtain ⟨c1,hmerge,hg1,-⟩ := mergeUpdate_run hT hg (1+ms.length)
  have hp := processEpochKeyUpdate_run hT hg1 (1+(ms++[m]).length)
  have heku := server_createEpochKeyUpdate hT
    ⟨⟨T.groupId σ,1+(ms++[m]).length⟩,.waitingForUpdate⟩ hg1 rfl hlen'
  have hw : (T.serverState σ ms (some m)).isWaitingForResponse = true := rfl
  have hsession : (ServerHandshakeState.session MlsSession.mergeUpdate).run
      (T.serverState σ ms (some m),c) = (.ok (T.secrets σ (ms++[m])),
        (⟨⟨T.groupId σ,1+(ms++[m]).length⟩,.waitingForUpdate⟩,c1)) :=
    ServerHandshakeState.session_run hmerge
  refine ⟨(T.serverState σ (ms++[m]) none,c1),?_,⟨hg1,rfl⟩⟩
  rw [ServerHandshakeState.receiveSignalingMessage,Exec.bind_run,epochKeyUpdateBytes,
    deserializeSignaling_run hT.wire henc]
  simp only [SignalingMessageOut.toIn,ServerHandshakeState.receiveEpochKeyUpdate,Exec.bind_run,
    Exec.get_run,hw,not_true_eq_false,if_false,hsession,ServerHandshakeState.processEpochKeyUpdate,
    ServerHandshakeState.db_run hp,heku,ServerHandshakeState.setInternalState,Exec.modify_run,
    Exec.pure_run]
  rfl

lemma deserializeResumption_run (hm : T.IsCommit σ false ms' m) (c : Connection M) :
    (deserializeExact (MlsTlsHandshakeIn.wire M) (resumptionBytes m) : Db M _).run c =
      (.ok ⟨.v01,.resumption ⟨m⟩⟩,c) := by
  have henc := Wire.enc_eq_bytes (resumption_enc (hT.commit_wire hm))
  rw [MlsTlsHandshakeOut.wire_enc] at henc
  exact deserializeExact_run (MlsTlsHandshakeIn.wire_lawful hT.wire) henc c

/-- A resumption with a commit the server does not have yet: it is merged and confirmed. -/
theorem server_start_resumption (h : T.GroupAt ⟨σ,true,ms,pending⟩ c)
    (hm : T.IsCommit σ false ms' m) (hms : ms' = ms ∨ ∃ s, pending = some s ∧ ms' = ms++[s])
    (hlen : 1+ms'.length+1 < u64Size) (leafSigner : M.SignatureKeyPair) (groupId : GroupId)
    (seed : ℕ) :
    ∃ c', (ServerHandshake.start leafSigner (resumptionBytes m) groupId seed).run c =
        (.ok (T.serverState σ (ms'++[m]) none,T.secrets σ (ms'++[m]),⟨T.identity σ false⟩,
          connectionConfirmationBytes M (1+(ms'++[m]).length)),c') ∧
      T.ServerAt σ (ms'++[m]) none (T.serverState σ (ms'++[m]) none,c') := by
  have hle : ms.length ≤ ms'.length := by
    rcases hms with rfl | ⟨x,-,rfl⟩ <;> simp
  obtain ⟨c1,hproc,hg1,-⟩ := processMlsUpdate_run hT true h hm (by omega) (Or.inl rfl) hms
  have hcc := createEpochKeyUpdate_run hT hg1 (1+(ms'++[m]).length)
  have henc := connectionConfirmation_enc (M := M) (n := 1+(ms'++[m]).length)
    (by rw [List.length_append,List.length_singleton]; omega)
  refine ⟨c1,?_,⟨hg1,rfl⟩⟩
  simp only [ServerHandshake.start,Exec.bind_run,deserializeResumption_run hT hm,
    MlsTlsHandshakeIn.checkVersion,ne_eq,not_true_eq_false,if_false,Exec.pure_run,
    ServerHandshake.processResumption,hproc,ServerHandshake.createConnectionConfirmation,hcc,
    serialize_run henc]
  rfl

/-- A resumption with a commit that the server has merged before is refused. -/
theorem server_start_stale (h : T.GroupAt ⟨σ,true,ms,pending⟩ c) (hm : T.IsCommit σ false ms' m)
    (hms : ms'.length < ms.length) (hlen : 1+ms.length+1 < u64Size)
    (leafSigner : M.SignatureKeyPair) (groupId : GroupId) (seed : ℕ) :
    ∃ e c', (ServerHandshake.start leafSigner (resumptionBytes m) groupId seed).run c =
        (.error (.error e),c') ∧
      T.GroupAt ⟨σ,true,ms,none⟩ c' := by
  obtain ⟨e,c1,hproc,hg1⟩ := processMlsUpdate_stale hT h hm hlen hms
  refine ⟨e,c1,?_,hg1⟩
  simp only [ServerHandshake.start,Exec.bind_run,deserializeResumption_run hT hm,
    MlsTlsHandshakeIn.checkVersion,ne_eq,not_true_eq_false,if_false,Exec.pure_run,
    ServerHandshake.processResumption,hproc]

end TwoParty
end MlsTls.MlsHandshake
