import MlsTls.MlsHandshake.Client
import MlsTls.MlsHandshake.Server
import MlsTls.MlsHandshake.Sample

/-! When a signaling message makes a party panic. Two places can: the message kind that is not
implemented, and the next epoch of a group that has reached the last one. -/
namespace MlsTls.MlsHandshake
open Lib TlsAead
variable {M : OpenMls}

/-- A commit is looked at only with the group it names; that group has an epoch after its own. -/
def MlsSession.HasNextEpoch (c : Connection M) (mlsMessage : M.Message) : Prop :=
  ∀ {message group}, M.extract mlsMessage = .privateMessage message →
    c.groups (M.messageGroupId message) = .ok (some group) → M.epoch group+1 < u64Size

/-- The message is not a key update, nor an update that is processed for a group in its last
epoch. -/
def Harmless (c : Connection M) (processesUpdates : Bool) (messageBytes : Bytes) : Prop :=
  match (SignalingMessageIn.wire M).decExact messageBytes with
  | some (.keyUpdate _) => False
  | some (.connectionUpdate update) =>
    processesUpdates = true → MlsSession.HasNextEpoch c update.mlsCommit
  | _ => True

namespace MlsSession

lemma loadGroup_calm (groupId : GroupId) : Exec.Calm (loadGroup groupId : Db M _) :=
  .bind .get fun _ => .bind .lift fun _ => .orThrow

lemma persist_calm {f : BoxedError M.Error → HandshakeError M.Error}
    {r : Except M.Error M.Group} : Exec.Calm (persist f r) :=
  .bind .lift fun _ => .bind .modify fun _ => .pure

lemma exportTrafficSecrets_calm (group : M.Group) : Exec.Calm (exportTrafficSecrets group) :=
  .bind .lift fun _ => .bind .lift fun _ => .pure

lemma update_calm (session : MlsSession) (leafSigner : M.SignatureKeyPair) (seed : ℕ) :
    Exec.Calm (session.update leafSigner seed) :=
  .bind (loadGroup_calm _) fun _ => .bind .lift fun _ => .bind .modify fun _ => .pure

lemma mergeUpdate_calm : Exec.Calm (mergeUpdate : Call M _) :=
  .bind .get fun _ => .bind (.zoom (fun _ _ => rfl) (loadGroup_calm _)) fun _ =>
    .bind (.zoom (fun _ _ => rfl) persist_calm) fun _ => .bind .modify fun _ =>
      .zoom (fun _ _ => rfl) (exportTrafficSecrets_calm _)

lemma processMessage_calm (message : M.PrivateMessage) (group : M.Group) :
    Exec.Calm (processMessage message group) :=
  .bind .modify fun _ => .bind .lift fun _ => .pure

lemma processEpochKeyUpdate_calm (session : MlsSession) (confirmation : EpochKeyUpdate) :
    Exec.Calm (session.processEpochKeyUpdate confirmation : Db M _) := by
  refine .bind (loadGroup_calm _) fun group => ?_
  split_ifs
  · exact .throw
  · exact .pure

lemma createEpochKeyUpdate_calm (session : MlsSession) :
    Exec.Calm (session.createEpochKeyUpdate : Db M _) :=
  .bind (loadGroup_calm _) fun _ => .pure

lemma settlePendingCommit_panic_iff (message : M.PrivateMessage) (drop : Bool) (group : M.Group)
    (c : Connection M) :
    ((settlePendingCommit message drop group).run c).1 = .error .panic ↔
      ¬M.epoch group+1 < u64Size := by
  by_cases hroom : M.epoch group+1 < u64Size
  · simp only [settlePendingCommit,hroom,not_true_eq_false,if_false,iff_false]
    split_ifs
    · exact persist_calm.run c
    · exact persist_calm.run c
    · simp
  · simp [settlePendingCommit,hroom]

theorem processMlsUpdate_panic_iff (mlsMessage : M.Message) (drop : Bool) (c : Connection M) :
    ((processMlsUpdate mlsMessage drop).run c).1 = .error .panic ↔
      ¬HasNextEpoch c mlsMessage := by
  unfold processMlsUpdate HasNextEpoch
  cases he : M.extract mlsMessage with
  | privateMessage message =>
    rcases hg : c.groups (M.messageGroupId message) with e | _ | group
    · simp [loadGroup,Exec.bind_run,hg]
    · simp [loadGroup,Exec.bind_run,hg]
    · rw [Exec.bind_of_ok (TwoParty.loadGroup_run hg),Exec.Calm.bind_panic_iff,
        settlePendingCommit_panic_iff]
      · simp [hg]
      · exact fun group => .bind (processMessage_calm _ _) fun _ => .bind .lift fun _ =>
          .bind persist_calm fun _ => .bind (exportTrafficSecrets_calm _) fun _ => .pure
  | welcome w => simp
  | keyPackage k => simp
  | other => simp

end MlsSession

lemma serialize_calm {σ α E : Type} (w : Wire α) (a : α) :
    Exec.Calm (serialize w a : Exec σ (HandshakeError E) Bytes) := .orThrow

namespace ServerHandshakeState

lemma db_calm {α : Type} {x : Db M α} (h : Exec.Calm x) : Exec.Calm (db x) :=
  .zoom (fun _ _ => rfl) h

lemma session_calm {α : Type} {x : MlsSession.Call M α} (h : Exec.Calm x) :
    Exec.Calm (session x) := .zoom (fun _ _ => rfl) h

lemma sessionUpdate_calm (leafSigner : M.SignatureKeyPair) (seed : ℕ) :
    Exec.Calm (sessionUpdate leafSigner seed) :=
  .bind .get fun _ => db_calm (MlsSession.update_calm _ _ _)

lemma createEpochKeyUpdate_calm : Exec.Calm (createEpochKeyUpdate : Call M _) :=
  .bind .get fun _ => .bind (db_calm (MlsSession.createEpochKeyUpdate_calm _)) fun _ =>
    serialize_calm _ _

lemma receiveEpochKeyUpdate_calm (epochKeyUpdate : EpochKeyUpdate) (messageType : String) :
    Exec.Calm (receiveEpochKeyUpdate epochKeyUpdate messageType : Call M _) := by
  refine .bind .get fun s => ?_
  split_ifs
  · exact .bind (session_calm MlsSession.mergeUpdate_calm) fun _ =>
      .bind (.bind .get fun _ => db_calm (MlsSession.processEpochKeyUpdate_calm _ _)) fun _ =>
        .bind createEpochKeyUpdate_calm fun _ => .bind .modify fun _ => .pure
  · exact .throw

lemma processUpdate_panic_iff (leafSigner : M.SignatureKeyPair) (update : ConnectionUpdateIn M)
    (seed : ℕ) (s : ServerHandshakeState × Connection M) :
    ((processUpdate leafSigner update seed).run s).1 = .error .panic ↔
      ¬MlsSession.HasNextEpoch s.2 update.mlsCommit := by
  rw [processUpdate,Exec.Calm.bind_panic_iff]
  · exact MlsSession.processMlsUpdate_panic_iff update.mlsCommit true s.2
  · rintro ⟨secrets,session,identity⟩
    refine .bind .modify fun _ => .bind .modify fun _ => .bind createEpochKeyUpdate_calm fun _ => ?_
    split_ifs
    · exact .bind (sessionUpdate_calm _ _) fun _ => .bind .modify fun _ =>
        .bind (serialize_calm _ _) fun _ => .pure
    · exact .pure

theorem receiveSignalingMessage_panic_iff (leafSigner : M.SignatureKeyPair) (messageBytes : Bytes)
    (seed : ℕ) (s : ServerHandshakeState × Connection M) :
    ((receiveSignalingMessage leafSigner messageBytes seed).run s).1 = .error .panic ↔
      ¬Harmless s.2 true messageBytes := by
  rw [receiveSignalingMessage,deserializeExact,Harmless]
  cases (SignalingMessageIn.wire M).decExact messageBytes with
  | none => simp [Exec.bind_run]
  | some message =>
    rw [Exec.bind_of_ok (Exec.orThrow_some ..)]
    cases message with
    | connectionUpdate update =>
      refine (Exec.Calm.bind_panic_iff fun _ => .pure).trans ?_
      simpa using processUpdate_panic_iff leafSigner update seed s
    | connectionConfirmation confirmation => simp
    | epochKeyUpdate update => simpa using (receiveEpochKeyUpdate_calm update _).run s
    | keyUpdate update => simp

end ServerHandshakeState

namespace ClientHandshakeState

lemma db_calm {α : Type} {x : Db M α} (h : Exec.Calm x) : Exec.Calm (db x) :=
  .zoom (fun _ _ => rfl) h

lemma session_calm {α : Type} {x : MlsSession.Call M α} (h : Exec.Calm x) :
    Exec.Calm (session x) := .zoom (fun _ _ => rfl) h

lemma sessionUpdate_calm (leafSigner : M.SignatureKeyPair) (seed : ℕ) :
    Exec.Calm (sessionUpdate leafSigner seed) :=
  .bind .get fun _ => db_calm (MlsSession.update_calm _ _ _)

lemma createEpochKeyUpdate_calm : Exec.Calm (createEpochKeyUpdate : Call M _) :=
  .bind .get fun _ => .bind (db_calm (MlsSession.createEpochKeyUpdate_calm _)) fun _ =>
    serialize_calm _ _

lemma processEpochKeyUpdate_calm (keyUpdate : EpochKeyUpdate) :
    Exec.Calm (processEpochKeyUpdate keyUpdate : Call M _) :=
  .bind .get fun _ => db_calm (MlsSession.processEpochKeyUpdate_calm _ _)

lemma storeUpdate_calm (J : Serde M) (state : ClientHandshakeState M) :
    Exec.Calm (storeUpdate J state) :=
  .bind (.bind .get fun _ => .orThrow) fun _ => .bind .orThrow fun _ => .modify

lemma receiveConnectionConfirmation_calm (J : Serde M) (confirmation : EpochKeyUpdate)
    (messageType : String) :
    Exec.Calm (receiveConnectionConfirmation J confirmation messageType) := by
  refine .bind (.bind .get fun _ => .bind .modify fun _ => .pure) fun i => ?_
  cases i with
  | waitingForConnectionConfirmation pending =>
    exact .bind (processEpochKeyUpdate_calm _) fun _ => .bind .modify fun _ =>
      .bind .get fun _ => .bind (db_calm (storeUpdate_calm J _)) fun _ => .pure
  | running => exact .throw
  | waitingForEpochKeyUpdate pending => exact .throw
  | waitingForEpochKeyUpdateReturn secret => exact .throw

lemma receiveEpochKeyUpdate_calm (J : Serde M) (update : EpochKeyUpdate) (messageType : String) :
    Exec.Calm (receiveEpochKeyUpdate J update messageType) := by
  refine .bind (.bind .get fun _ => .bind .modify fun _ => .pure) fun i => ?_
  cases i with
  | waitingForEpochKeyUpdate pending =>
    exact .bind (processEpochKeyUpdate_calm _) fun _ =>
      .bind .get fun _ => .bind (db_calm (storeUpdate_calm J _)) fun _ => .pure
  | waitingForEpochKeyUpdateReturn secret =>
    exact .bind (processEpochKeyUpdate_calm _) fun _ =>
      .bind .get fun _ => .bind (db_calm (storeUpdate_calm J _)) fun _ => .pure
  | running => exact .throw
  | waitingForConnectionConfirmation pending => exact .throw

lemma processUpdate_panic_iff (leafSigner : M.SignatureKeyPair) (update : ConnectionUpdateIn M)
    (seed : ℕ) (s : ClientHandshakeState M × Connection M) :
    ((processUpdate leafSigner update seed).run s).1 = .error .panic ↔
      ¬MlsSession.HasNextEpoch s.2 update.mlsCommit := by
  rw [processUpdate,Exec.Calm.bind_panic_iff]
  · exact MlsSession.processMlsUpdate_panic_iff update.mlsCommit false s.2
  · rintro ⟨secrets,mlsSession,identity⟩
    refine .bind .modify fun _ => .bind createEpochKeyUpdate_calm fun _ => ?_
    split_ifs
    · exact .bind (sessionUpdate_calm _ _) fun _ =>
        .bind (session_calm MlsSession.mergeUpdate_calm) fun _ => .bind .modify fun _ =>
          .bind (serialize_calm _ _) fun _ => .pure
    · exact .bind .modify fun _ => .pure

theorem receiveSignalingMessage_panic_iff (J : Serde M) (leafSigner : M.SignatureKeyPair)
    (messageBytes : Bytes) (seed : ℕ) (s : ClientHandshakeState M × Connection M) :
    ((receiveSignalingMessage J leafSigner messageBytes seed).run s).1 = .error .panic ↔
      ¬Harmless s.2 (!s.1.isWaitingForResponse) messageBytes := by
  rw [receiveSignalingMessage,deserializeExact,Harmless]
  cases (SignalingMessageIn.wire M).decExact messageBytes with
  | none => simp [Exec.bind_run]
  | some message =>
    rw [Exec.bind_of_ok (Exec.orThrow_some ..)]
    cases message with
    | connectionUpdate update =>
      simp only [receiveConnectionUpdate]
      rw [Exec.bind_of_ok (Exec.get_run s)]
      cases hw : s.1.isWaitingForResponse with
      | true => simp
      | false =>
        refine (Exec.Calm.bind_panic_iff fun _ => ?_).trans ?_
        · exact .bind .get fun _ => .bind (db_calm (storeUpdate_calm J _)) fun _ => .pure
        · simpa using processUpdate_panic_iff leafSigner update seed s
    | connectionConfirmation confirmation =>
      simpa using (receiveConnectionConfirmation_calm J confirmation _).run s
    | epochKeyUpdate update => simpa using (receiveEpochKeyUpdate_calm J update _).run s
    | keyUpdate update => simp

end ClientHandshakeState

/-- In whatever state a party is, and whatever is stored: a message makes it panic exactly if the
message is not harmless. -/
theorem signaling_returns_iff :
    (∀ leafSigner messageBytes seed (s : ServerHandshakeState × Connection M),
      ((ServerHandshakeState.receiveSignalingMessage leafSigner messageBytes seed).run s).1 ≠
        .error .panic ↔ Harmless s.2 true messageBytes) ∧
    ∀ J leafSigner messageBytes seed (s : ClientHandshakeState M × Connection M),
      ((ClientHandshakeState.receiveSignalingMessage J leafSigner messageBytes seed).run s).1 ≠
        .error .panic ↔ Harmless s.2 (!s.1.isWaitingForResponse) messageBytes := by
  constructor
  · intro leafSigner messageBytes seed s
    rw [ne_eq,ServerHandshakeState.receiveSignalingMessage_panic_iff,not_not]
  · intro J leafSigner messageBytes seed s
    rw [ne_eq,ClientHandshakeState.receiveSignalingMessage_panic_iff,not_not]

def sampleKeyUpdateBytes : Bytes := (SignalingMessageOut.wire sampleMls).bytes (.keyUpdate ⟨.false⟩)

/-- A key update makes both parties of a new session panic. -/
theorem signaling_keyUpdate_panics :
    sampleSystem.server = some ⟨⟨[9],1⟩,.running⟩ ∧
      ((ServerHandshakeState.receiveSignalingMessage [2] sampleKeyUpdateBytes 0).run
        (⟨⟨[9],1⟩,.running⟩,sampleSystem.serverDb)).1 = .error .panic ∧
      ((ClientHandshakeState.receiveSignalingMessage sampleSerde [1] sampleKeyUpdateBytes 0).run
        (sampleSystem.client,sampleSystem.clientDb)).1 = .error .panic :=
  ⟨rfl,rfl,rfl⟩

end MlsTls.MlsHandshake
