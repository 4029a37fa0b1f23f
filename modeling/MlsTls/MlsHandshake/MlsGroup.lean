import MlsTls.MlsHandshake.Messages

/-! The MLS session: the group behind a connection, and the handshake's operations on it. Every
operation loads the group from the database; the library writes it back after each change. -/
namespace MlsTls.MlsHandshake
open Lib TlsAead
variable {M : OpenMls}

/-- Calls on the database. -/
abbrev Db (M : OpenMls) (α : Type) := Exec (Connection M) (HandshakeError M.Error) α

structure ClientIdentity where
  identity : Bytes
  deriving DecidableEq, Repr

def sharedExportLabel : String := "MLS-TLS 1.0"
def clientTrafficSecretLabel : String := "Initial Client Traffic Secret"
def serverTrafficSecretLabel : String := "Initial Server Traffic Secret"

def exportLabel (label : String) : String := sharedExportLabel++label

def exportTrafficSecrets (group : M.Group) : Db M TrafficSecrets := do
  let clientSecret ← Exec.lift .sharedSecretError
    (M.exportSecret group (exportLabel clientTrafficSecretLabel) [] (M.hashLength group))
  let serverSecret ← Exec.lift .sharedSecretError
    (M.exportSecret group (exportLabel serverTrafficSecretLabel) [] (M.hashLength group))
  pure ⟨⟨clientSecret⟩,⟨serverSecret⟩⟩

structure MlsSession where
  groupId : GroupId
  epoch : ℕ
  deriving DecidableEq, Repr

/-- `tls_serialize_detached()?` -/
def serialize {σ α E : Type} (w : Wire α) (a : α) : Exec σ (HandshakeError E) Bytes :=
  Exec.orThrow .codecError (w.enc a)

/-- `tls_deserialize_exact(..)?` -/
def deserializeExact {σ α E : Type} (w : Wire α) (b : Bytes) : Exec σ (HandshakeError E) α :=
  Exec.orThrow .codecError (w.decExact b)

section
variable {σ α E : Type}

lemma serialize_run {w : Wire α} {a : α} (h : ∃ e, w.enc a = some e) (s : σ) :
    (serialize w a : Exec σ (HandshakeError E) Bytes).run s = (.ok (w.bytes a),s) := by
  rw [serialize,Wire.enc_eq_bytes h,Exec.orThrow_some]

lemma deserializeExact_run {w : Wire α} (hw : w.Lawful) {a : α} {b : Bytes}
    (h : w.enc a = some b) (s : σ) :
    (deserializeExact w b : Exec σ (HandshakeError E) α).run s = (.ok a,s) := by
  rw [deserializeExact,hw.decExact_enc h,Exec.orThrow_some]

lemma deserializeSignaling_run (hM : M.wire.Lawful) {m : SignalingMessageOut M}
    (h : ∃ e, (SignalingMessageOut.wire M).enc m = some e) (s : σ) :
    (deserializeExact (SignalingMessageIn.wire M) ((SignalingMessageOut.wire M).bytes m) :
      Exec σ (HandshakeError E) _).run s = (.ok m.toIn,s) :=
  deserializeExact_run (SignalingMessageIn.wire_lawful hM)
    ((m.wire_enc).symm.trans (Wire.enc_eq_bytes h)) s

end

namespace MlsSession

/-- `MlsGroup::load(..)` with the two errors that every caller maps it to. -/
def loadGroup (groupId : GroupId) : Db M M.Group := do
  let c ← Exec.get
  let group ← Exec.lift (fun e => .providerError (.library e)) (c.groups groupId)
  Exec.orThrow .invalidSessionId group

/-- A library call that changes a group and persists the change. -/
def persist (f : BoxedError M.Error → HandshakeError M.Error) (r : Except M.Error M.Group) :
    Db M M.Group := do
  let group ← Exec.lift (fun e => f (.library e)) r
  Exec.modify (·.saveGroup group)
  pure group

/-- `b"server"` -/
def serverIdentity : Bytes := [115,101,114,118,101,114]

def createServerSession (leafSigner : M.SignatureKeyPair) (keyPackageIn : M.KeyPackageIn)
    (groupId : GroupId) (seed : ℕ) :
    Db M (MlsSession × TrafficSecrets × ClientIdentity × M.Message) := do
  let keyPackage ← Exec.lift (fun e => .clientHelloError (.library e)) (M.validate keyPackageIn)
  let clientIdentity ← Exec.orThrow (.verificationError .wrongCredentialType)
    (M.leafNode keyPackage).credential.basicIdentity
  let serverGroup ← persist .clientHelloError
    (M.buildGroup groupId leafSigner (.basic serverIdentity) seed)
  let (welcome,serverGroup) ← Exec.lift (fun e => .clientHelloError (.library e))
    (M.addMembers leafSigner keyPackage seed serverGroup)
  Exec.modify (·.saveGroup serverGroup)
  let serverGroup ← persist .clientHelloError (M.mergePendingCommit serverGroup)
  let trafficSecrets ← exportTrafficSecrets serverGroup
  pure (⟨M.groupId serverGroup,M.epoch serverGroup⟩,trafficSecrets,⟨clientIdentity⟩,welcome)

def update (session : MlsSession) (leafSigner : M.SignatureKeyPair) (seed : ℕ) :
    Db M M.Message := do
  let group ← loadGroup session.groupId
  let (commit,group) ← Exec.lift (fun e => .resumptionError (.library e))
    (M.selfUpdate leafSigner seed group)
  Exec.modify (·.saveGroup group)
  pure commit

/-- Calls that also change the session itself. -/
abbrev Call (M : OpenMls) (α : Type) := Exec (MlsSession × Connection M) (HandshakeError M.Error) α

/-- A database call of a session that keeps the session as it is. -/
def db {α : Type} (x : Db M α) : Call M α := Exec.zoom Prod.snd (fun c s => (s.1,c)) x

def mergeUpdate : Call M TrafficSecrets := do
  let s ← Exec.get
  let group ← db (loadGroup s.1.groupId)
  let group ← db (persist .connectionUpdateError (M.mergePendingCommit group))
  Exec.modify fun s => ({ s.1 with epoch := M.epoch group },s.2)
  db (exportTrafficSecrets group)

/-- Before a message is processed, the own pending commit is merged or dropped. -/
def settlePendingCommit (message : M.PrivateMessage) (dropPendingCommit : Bool) (group : M.Group) :
    Db M M.Group :=
  -- the next epoch is computed whether it is used or not
  if ¬M.epoch group+1 < u64Size then Exec.panic
  else if M.messageEpoch message = M.epoch group+1 ∧ M.hasPendingCommit group then
    persist .connectionUpdateError (M.mergePendingCommit group)
  else if dropPendingCommit then
    persist .connectionUpdateError (M.clearPendingCommit group)
  else pure group

/-- The library keeps the group that message processing leaves behind, whatever the result. -/
def processMessage (message : M.PrivateMessage) (group : M.Group) :
    Db M (ProcessedMessage M.StagedCommit × M.Group) := do
  let r := M.processMessage message group
  Exec.modify (·.saveGroup r.2)
  let processed ← Exec.lift (fun e => .connectionUpdateError (.library e)) r.1
  pure (processed,r.2)

/-- The checks of a processed message, in the order of the source. -/
def validateCommit (processed : ProcessedMessage M.StagedCommit) :
    Except (HandshakeError M.Error) (M.StagedCommit × ClientIdentity) :=
  match processed.sender with
  | .member _ =>
    match processed.content with
    | .stagedCommitMessage stagedCommit =>
      match M.updatePathLeafNode stagedCommit with
      | some leafNode =>
        match leafNode.credential.basicIdentity with
        | some identity =>
          if processed.credential ≠ leafNode.credential then
            .error (.validationError "Resumption commit must contain the same credential")
          else if M.queuedProposals stagedCommit > 0 then
            .error (.validationError "Resumption commit must not contain any proposals")
          else .ok (stagedCommit,⟨identity⟩)
        | none => .error (.verificationError .wrongCredentialType)
      | none => .error (.validationError "Resumption commit must contain a path")
    | _ => .error (.validationError "Resumption message must contain a commit")
  | _ => .error (.validationError "Resumption message must be from a member")

def processMlsUpdate (mlsMessage : M.Message) (dropPendingCommit : Bool) :
    Db M (TrafficSecrets × MlsSession × ClientIdentity) :=
  match M.extract mlsMessage with
  | .privateMessage message => do
    let group ← loadGroup (M.messageGroupId message)
    let group ← settlePendingCommit message dropPendingCommit group
    let (processed,group) ← processMessage message group
    let (stagedCommit,clientIdentity) ← Exec.lift id (validateCommit processed)
    let group ← persist .connectionUpdateError (M.mergeStagedCommit stagedCommit group)
    let trafficSecrets ← exportTrafficSecrets group
    pure (trafficSecrets,⟨M.groupId group,M.epoch group⟩,clientIdentity)
  | _ => Exec.throw (.unexpectedMessage "PrivateMessage" "Unknown")

def processEpochKeyUpdate (session : MlsSession) (confirmation : EpochKeyUpdate) : Db M Unit := do
  let group ← loadGroup session.groupId
  if M.epoch group ≠ confirmation.epoch then Exec.throw (.validationError "Epoch mismatch")
  else pure ()

def createEpochKeyUpdate (session : MlsSession) : Db M EpochKeyUpdate := do
  let group : M.Group ← loadGroup session.groupId
  pure ⟨M.epoch group⟩

def delete (session : MlsSession) : Db M Unit := do
  let group : M.Group ← loadGroup session.groupId
  Exec.modify (·.deleteGroup (M.groupId group))

end MlsSession
end MlsTls.MlsHandshake
