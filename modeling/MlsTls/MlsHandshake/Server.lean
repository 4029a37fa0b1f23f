import MlsTls.MlsHandshake.MlsGroup

/-! The server's side of the handshake. The server keeps its own commit pending until the client
confirms it; an update of the client takes precedence over it. -/
namespace MlsTls.MlsHandshake
open Lib TlsAead

/-- A server waits for the answer to its own update, or for nothing. -/
inductive ServerInternalState
  | running
  | waitingForUpdate
  deriving DecidableEq, Repr

structure ServerHandshakeState where
  mlsSession : MlsSession
  internalState : ServerInternalState
  deriving DecidableEq, Repr

def MlsTlsHandshakeIn.checkVersion {M : OpenMls} {σ : Type} (message : MlsTlsHandshakeIn M) :
    Exec σ (HandshakeError M.Error) Unit :=
  if message.version ≠ .v01 then Exec.throw .wrongProtocolVersion else pure ()

namespace ServerHandshake
variable {M : OpenMls}

/-- A new group with the client as its only other member. -/
def processClientHello (leafSigner : M.SignatureKeyPair) (clientHello : ClientHelloIn M)
    (groupId : GroupId) (seed : ℕ) :
    Db M (ServerHandshakeState × TrafficSecrets × ClientIdentity × Bytes) :=
  match M.extract clientHello.keyPackage with
  | .keyPackage keyPackageIn => do
    let (mlsSession,trafficSecrets,clientIdentity,welcome) ←
      MlsSession.createServerSession leafSigner keyPackageIn groupId seed
    let messageBytes ← serialize (ServerHelloOut.wire M) ⟨welcome⟩
    pure (⟨mlsSession,.running⟩,trafficSecrets,clientIdentity,messageBytes)
  | _ => Exec.throw (.unexpectedMessage "KeyPackage" "Unknown")

def createConnectionConfirmation (state : ServerHandshakeState) : Db M Bytes := do
  let epochKeyUpdate ← state.mlsSession.createEpochKeyUpdate
  serialize (SignalingMessageOut.wire M) (.connectionConfirmation epochKeyUpdate)

/-- The commit of the client is merged into the stored group that it names. -/
def processResumption (resumption : ResumptionIn M) :
    Db M (ServerHandshakeState × TrafficSecrets × ClientIdentity × Bytes) := do
  let (trafficSecrets,sessionId,clientIdentity) ←
    MlsSession.processMlsUpdate resumption.commit true
  let connectionConfirmation ← createConnectionConfirmation ⟨sessionId,.running⟩
  pure (⟨sessionId,.running⟩,trafficSecrets,clientIdentity,connectionConfirmation)

def start (leafSigner : M.SignatureKeyPair) (messageBytes : Bytes) (groupId : GroupId) (seed : ℕ) :
    Db M (ServerHandshakeState × TrafficSecrets × ClientIdentity × Bytes) := do
  let message ← deserializeExact (MlsTlsHandshakeIn.wire M) messageBytes
  message.checkVersion
  match message.payload with
  | .clientHello clientHello => processClientHello leafSigner clientHello groupId seed
  | .resumption resumption => processResumption resumption

end ServerHandshake

namespace ServerHandshakeState
variable {M : OpenMls}

/-- Calls on the server's state and its database. -/
abbrev Call (M : OpenMls) (α : Type) :=
  Exec (ServerHandshakeState × Connection M) (HandshakeError M.Error) α

def db {α : Type} (x : Db M α) : Call M α := Exec.zoom Prod.snd (fun c s => (s.1,c)) x

def session {α : Type} (x : MlsSession.Call M α) : Call M α :=
  Exec.zoom (fun s => (s.1.mlsSession,s.2)) (fun t s => ({ s.1 with mlsSession := t.1 },t.2)) x

def setInternalState (i : ServerInternalState) : Call M Unit :=
  Exec.modify fun s => ({ s.1 with internalState := i },s.2)

def sessionUpdate (leafSigner : M.SignatureKeyPair) (seed : ℕ) : Call M M.Message := do
  let s ← Exec.get
  db (s.1.mlsSession.update leafSigner seed)

def createEpochKeyUpdate : Call M Bytes := do
  let s ← Exec.get
  let epochKeyUpdate ← db s.1.mlsSession.createEpochKeyUpdate
  serialize (SignalingMessageOut.wire M) (.epochKeyUpdate epochKeyUpdate)

def processEpochKeyUpdate (keyUpdate : EpochKeyUpdate) : Call M Unit := do
  let s ← Exec.get
  db (s.1.mlsSession.processEpochKeyUpdate keyUpdate)

def isWaitingForResponse (state : ServerHandshakeState) : Bool :=
  match state.internalState with
  | .running => false
  | .waitingForUpdate => true

/-- The own commit is left pending until the client answers. -/
def update (leafSigner : M.SignatureKeyPair) (updateRequested : Bool) (seed : ℕ) :
    Call M Bytes := do
  let s ← Exec.get
  if s.1.isWaitingForResponse then Exec.throw .waitingForResponse
  else do
    let mlsMessage ← sessionUpdate leafSigner seed
    let messageBytes ← serialize (SignalingMessageOut.wire M)
      (.connectionUpdate ⟨.ofBool updateRequested,mlsMessage⟩)
    setInternalState .waitingForUpdate
    pure messageBytes

/-- A commit of the client; where one is asked for, the answer is a commit of the server. -/
def processUpdate (leafSigner : M.SignatureKeyPair) (connectionUpdate : ConnectionUpdateIn M)
    (seed : ℕ) : Call M (TrafficSecrets × Bytes) := do
  let (trafficSecrets,mlsSession,_) ←
    db (MlsSession.processMlsUpdate connectionUpdate.mlsCommit true)
  -- an update of the client overrides whatever the server was waiting for
  setInternalState .running
  Exec.modify fun s => ({ s.1 with mlsSession := mlsSession },s.2)
  let responseBytes ← createEpochKeyUpdate
  if connectionUpdate.updateRequested.toBool then do
    let mlsCommit ← sessionUpdate leafSigner seed
    setInternalState .waitingForUpdate
    let connectionUpdateBytes ← serialize (SignalingMessageOut.wire M)
      (.connectionUpdate ⟨.ofBool false,mlsCommit⟩)
    pure (trafficSecrets,connectionUpdateBytes)
  else pure (trafficSecrets,responseBytes)

/-- The `EpochKeyUpdate` case: the commit is merged before the epoch is compared. -/
def receiveEpochKeyUpdate (epochKeyUpdate : EpochKeyUpdate) (incomingMessageType : String) :
    Call M (TrafficSecrets × Option Bytes) := do
  let s ← Exec.get
  if ¬s.1.isWaitingForResponse then
    Exec.throw (.unexpectedMessage "None" incomingMessageType)
  else do
    let trafficSecrets ← session MlsSession.mergeUpdate
    processEpochKeyUpdate epochKeyUpdate
    let messageBytes ← createEpochKeyUpdate
    setInternalState .running
    pure (trafficSecrets,some messageBytes)

def receiveSignalingMessage (leafSigner : M.SignatureKeyPair) (messageBytes : Bytes) (seed : ℕ) :
    Call M (TrafficSecrets × Option Bytes) := do
  let signalingMessage ← deserializeExact (SignalingMessageIn.wire M) messageBytes
  match signalingMessage with
  | .connectionUpdate connectionUpdate => do
    let (trafficSecrets,messageBytes) ← processUpdate leafSigner connectionUpdate seed
    pure (trafficSecrets,some messageBytes)
  | .connectionConfirmation _ =>
    Exec.throw (.unexpectedMessage "None" "ConnectionConfirmation")
  | .epochKeyUpdate epochKeyUpdate =>
    receiveEpochKeyUpdate epochKeyUpdate signalingMessage.messageType
  | .keyUpdate _ => Exec.panic

end ServerHandshakeState
end MlsTls.MlsHandshake
