import MlsTls.MlsHandshake.Persistence

/-! The client's side of the handshake. The client merges its own commits at once and sends
under the new client key from then on; the server key changes when the server confirms. -/
namespace MlsTls.MlsHandshake
open Lib TlsAead

/-- A client between its hello and that of the server, which it knows by the key. -/
structure WaitingForServerHello where
  profileId : Uuid
  serverVerifyingKey : Bytes
  deriving DecidableEq, Repr

def MlsTlsHandshakeOut.fromPayload {M : OpenMls} (payload : HandshakePayloadOut M) :
    MlsTlsHandshakeOut M := ⟨.v01,payload⟩

namespace ClientHandshake
variable {M : OpenMls}

def start (ownSignatureKeypair : M.SignatureKeyPair) (serverVerifyingKey : Bytes) (clientId : Uuid)
    (seed : ℕ) : Db M (WaitingForServerHello × Bytes) := do
  let keyPackageBundle ← Exec.lift .keyPackageError
    (M.buildKeyPackage ownSignatureKeypair (.basic clientId) seed)
  Exec.modify fun c => { c with keyPackages := c.keyPackages++[keyPackageBundle] }
  let messageBytes ← serialize (MlsTlsHandshakeOut.wire M) (.fromPayload
    (.clientHello ⟨M.keyPackageMessage (M.keyPackage keyPackageBundle)⟩))
  pure (⟨clientId,serverVerifyingKey⟩,messageBytes)

end ClientHandshake

/-- The group is joined and stored before the secrets are exported. -/
def WaitingForServerHello.receiveServerHello {M : OpenMls} (waiting : WaitingForServerHello)
    (messageBytes : Bytes) : Db M (ClientHandshakeState M × TrafficSecrets) := do
  let serverHello ← deserializeExact (ServerHelloIn.wire M) messageBytes
  match M.extract serverHello.welcome with
  | .welcome welcome => do
    let c ← Exec.get
    let (stagedWelcome,keyPackages) ← Exec.lift (fun _ => .serverHelloError)
      (M.newFromWelcome c.keyPackages welcome)
    Exec.modify fun c => { c with keyPackages := keyPackages }
    let sender ← Exec.lift (fun _ => .verificationError .libraryError)
      (M.welcomeSender stagedWelcome)
    if sender.signatureKey ≠ waiting.serverVerifyingKey then
      Exec.throw (.verificationError .unexpectedVerifyingKey)
    else
      let clientGroup ← Exec.lift (fun _ => .serverHelloError) (M.intoGroup stagedWelcome)
      Exec.modify (·.saveGroup clientGroup)
      let trafficSecrets ← exportTrafficSecrets clientGroup
      pure (⟨waiting.profileId,⟨M.groupId clientGroup,M.epoch clientGroup⟩,.running⟩,trafficSecrets)
  | _ => Exec.throw (.unexpectedMessage "Welcome" "Unknown")

namespace ClientHandshakeState
variable {M : OpenMls}

/-- Calls on the client's state and its database. -/
abbrev Call (M : OpenMls) (α : Type) :=
  Exec (ClientHandshakeState M × Connection M) (HandshakeError M.Error) α

def db {α : Type} (x : Db M α) : Call M α := Exec.zoom Prod.snd (fun c s => (s.1,c)) x

/-- A call on the session inside the state. -/
def session {α : Type} (x : MlsSession.Call M α) : Call M α :=
  Exec.zoom (fun s => (s.1.mlsSession,s.2)) (fun t s => ({ s.1 with mlsSession := t.1 },t.2)) x

def setInternalState (i : ClientInternalState M) : Call M Unit :=
  Exec.modify fun s => ({ s.1 with internalState := i },s.2)

/-- `mem::take(&mut self.internal_state)`: what is left behind is `Running`. -/
def takeInternalState : Call M (ClientInternalState M) := do
  let s ← Exec.get
  setInternalState .running
  pure s.1.internalState

/-- `self.mls_session.update(..)` -/
def sessionUpdate (leafSigner : M.SignatureKeyPair) (seed : ℕ) : Call M M.Message := do
  let s ← Exec.get
  db (s.1.mlsSession.update leafSigner seed)

def createEpochKeyUpdate : Call M Bytes := do
  let s ← Exec.get
  let epochKeyUpdate ← db s.1.mlsSession.createEpochKeyUpdate
  serialize (SignalingMessageOut.wire M) (.epochKeyUpdate epochKeyUpdate)

def processEpochKeyUpdate (keyUpdate : EpochKeyUpdate) : Call M Unit := do
  let s ← Exec.get
  db (s.1.mlsSession.processEpochKeyUpdate keyUpdate)

def isWaitingForResponse (state : ClientHandshakeState M) : Bool :=
  match state.internalState with
  | .running => false
  | _ => true

/-- The fresh commit of `resume`; an error of the update is wrapped once more. -/
def freshResumption (leafSigner : M.SignatureKeyPair) (seed : ℕ) :
    Call M (M.Message × TrafficSecrets) := do
  let mlsMessage ← Exec.mapError (fun e => .resumptionError (.handshake e))
    (sessionUpdate leafSigner seed)
  let trafficSecrets ← session MlsSession.mergeUpdate
  pure (mlsMessage,trafficSecrets)

/-- A pending update is used once more; without one there is a fresh commit. -/
def resume (leafSigner : M.SignatureKeyPair) (seed : ℕ) : Call M (TrafficSecrets × Bytes) := do
  let internalState ← takeInternalState
  let (mlsMessage,trafficSecrets) ← match internalState with
    | .waitingForEpochKeyUpdateReturn _ => freshResumption leafSigner seed
    | .running => freshResumption leafSigner seed
    | .waitingForEpochKeyUpdate pending => pure (pending.mlsMessage,pending.trafficSecrets)
    | .waitingForConnectionConfirmation pending => pure (pending.mlsMessage,pending.trafficSecrets)
  let messageBytes ← serialize (MlsTlsHandshakeOut.wire M)
    (.fromPayload (.resumption ⟨mlsMessage⟩))
  setInternalState (.waitingForConnectionConfirmation ⟨mlsMessage,trafficSecrets⟩)
  pure (trafficSecrets,messageBytes)

/-- A commit of the client, merged at once. The row is written last. -/
def update (J : Serde M) (leafSigner : M.SignatureKeyPair) (updateRequested : Bool) (seed : ℕ) :
    Call M (ClientSecret × Bytes) := do
  let s ← Exec.get
  if s.1.isWaitingForResponse then Exec.throw .waitingForResponse
  else do
    let mlsMessage ← sessionUpdate leafSigner seed
    let trafficSecrets ← session MlsSession.mergeUpdate
    let messageBytes ← serialize (SignalingMessageOut.wire M)
      (.connectionUpdate ⟨.ofBool updateRequested,mlsMessage⟩)
    setInternalState (.waitingForEpochKeyUpdate ⟨mlsMessage,trafficSecrets⟩)
    let s ← Exec.get
    db (storeUpdate J s.1)
    pure (trafficSecrets.clientSecret,messageBytes)

def processUpdate (leafSigner : M.SignatureKeyPair) (connectionUpdate : ConnectionUpdateIn M)
    (seed : ℕ) : Call M (ClientSecret × Bytes) := do
  let (trafficSecrets,mlsSession,_) ←
    db (MlsSession.processMlsUpdate connectionUpdate.mlsCommit false)
  Exec.modify fun s => ({ s.1 with mlsSession := mlsSession },s.2)
  let responseBytes ← createEpochKeyUpdate
  if connectionUpdate.updateRequested.toBool then do
    let commit ← sessionUpdate leafSigner seed
    let newTrafficSecrets ← session MlsSession.mergeUpdate
    setInternalState (.waitingForEpochKeyUpdate ⟨commit,newTrafficSecrets⟩)
    let connectionUpdateBytes ← serialize (SignalingMessageOut.wire M)
      (.connectionUpdate ⟨.ofBool false,commit⟩)
    pure (newTrafficSecrets.clientSecret,connectionUpdateBytes)
  else do
    setInternalState (.waitingForEpochKeyUpdateReturn trafficSecrets.serverSecret)
    pure (trafficSecrets.clientSecret,responseBytes)

/-- The `ConnectionUpdate` case; a waiting client ignores the message and returns early. -/
def receiveConnectionUpdate (J : Serde M) (leafSigner : M.SignatureKeyPair)
    (connectionUpdate : ConnectionUpdateIn M) (seed : ℕ) :
    Call M (Option SecretUpdate × Option Bytes) := do
  let s ← Exec.get
  if s.1.isWaitingForResponse then pure (none,none)
  else do
    let (clientSecret,messageBytes) ← processUpdate leafSigner connectionUpdate seed
    let s ← Exec.get
    db (storeUpdate J s.1)
    pure (some (.clientSecret clientSecret),some messageBytes)

def receiveConnectionConfirmation (J : Serde M) (confirmation : EpochKeyUpdate)
    (incomingMessageType : String) : Call M (Option SecretUpdate × Option Bytes) := do
  let internalState ← takeInternalState
  match internalState with
  | .waitingForConnectionConfirmation _ => do
    processEpochKeyUpdate confirmation
    setInternalState .running
    let s ← Exec.get
    db (storeUpdate J s.1)
    pure (none,none)
  | _ => Exec.throw (.unexpectedMessage "ConnectionConfirmation" incomingMessageType)

/-- The `EpochKeyUpdate` case: what was waited for is gone, also when the epoch is refused. -/
def receiveEpochKeyUpdate (J : Serde M) (epochKeyUpdate : EpochKeyUpdate)
    (incomingMessageType : String) : Call M (Option SecretUpdate × Option Bytes) := do
  let internalState ← takeInternalState
  match internalState with
  | .waitingForEpochKeyUpdateReturn serverSecret => do
    processEpochKeyUpdate epochKeyUpdate
    let s ← Exec.get
    db (storeUpdate J s.1)
    pure (some (.serverSecret serverSecret),none)
  | .waitingForEpochKeyUpdate pending => do
    processEpochKeyUpdate epochKeyUpdate
    let s ← Exec.get
    db (storeUpdate J s.1)
    pure (some (.serverSecret pending.trafficSecrets.serverSecret),none)
  | _ => Exec.throw (.unexpectedMessage "EpochKeyUpdateReturn" incomingMessageType)

def receiveSignalingMessage (J : Serde M) (leafSigner : M.SignatureKeyPair) (messageBytes : Bytes)
    (seed : ℕ) : Call M (Option SecretUpdate × Option Bytes) := do
  let signalingMessage ← deserializeExact (SignalingMessageIn.wire M) messageBytes
  match signalingMessage with
  | .connectionUpdate connectionUpdate => receiveConnectionUpdate J leafSigner connectionUpdate seed
  | .connectionConfirmation epochKeyUpdate =>
    receiveConnectionConfirmation J epochKeyUpdate signalingMessage.messageType
  | .epochKeyUpdate epochKeyUpdate =>
    receiveEpochKeyUpdate J epochKeyUpdate signalingMessage.messageType
  | .keyUpdate _ => Exec.panic

end ClientHandshakeState
end MlsTls.MlsHandshake
