import MlsTls.MlsHandshake.Client
import MlsTls.MlsHandshake.Server
import MlsTls.TlsAead.StreamSink

/-! The MLS handshake of one party: which side it is on, its signer and its database. The first
messages go over whatever transport there is, a plain one or the channels of a pre-handshake. -/
set_option linter.dupNamespace false

namespace MlsTls.MlsHandshake
open Lib TlsAead

/-- The error of a transport, boxed. -/
inductive TransportError
  | ioError
  | sinkError (e : TlsAeadSinkError)
  deriving DecidableEq, Repr

inductive MlsHandshakeError (E : Type)
  | decodingError
  | transportError (e : TransportError)
  | handshakeError (e : HandshakeError E)
  | uninitialized
  | persistence (e : SqlError)
  | sqliteMigration

inductive MlsHandshakeState (M : OpenMls)
  | none
  | client (state : ClientHandshakeState M)
  | server (state : ServerHandshakeState)

structure MlsHandshake (M : OpenMls) where
  leafSigner : M.SignatureKeyPair
  connection : Connection M
  state : MlsHandshakeState M

/-- A sink and a stream of the state `σ`; the stream has `none` while nothing has arrived. What
the first of two ends has sent arrives at the second one with `deliver`. -/
structure Transport (σ : Type) where
  send : Bytes → Exec σ TransportError Unit
  next : Exec σ TransportError (Option TlsPacketIn)
  deliver : σ → σ → σ × σ

/-- A connection before any protection: frame writer and frame reader. -/
structure PlainChannels where
  outgoing : Bytes
  incoming : Bytes

def PlainChannels.transport : Transport PlainChannels where
  send item := Exec.modify fun s => { s with outgoing := TlsFrameCodec.encode item s.outgoing }
  next := do
    let s ← Exec.get
    match TlsFrameCodec.decode s.incoming with
    | none => pure none
    | some (packet,rest) => do
      Exec.modify fun s => { s with incoming := rest }
      pure (some packet)
  deliver s r := ({ s with outgoing := [] },{ r with incoming := r.incoming++s.outgoing })

/-- A connection with the keys of a pre-handshake. -/
def protectedTransport (C : Crypto) : Transport ProtectedChannels where
  send item := Exec.mapError .sinkError (ProtectedChannels.send C item)
  next := Exec.mapError .sinkError (ProtectedChannels.next C)
  deliver s r := ({ s with outgoing := [] },{ r with incoming := r.incoming++s.outgoing })

namespace MlsHandshake
variable {M : OpenMls}

def new (connection : Connection M) (leafSigner : M.SignatureKeyPair) : MlsHandshake M :=
  ⟨leafSigner,connection,.none⟩

/-- Calls on the handshake. -/
abbrev Call (M : OpenMls) (α : Type) := Exec (MlsHandshake M) (MlsHandshakeError M.Error) α

def db {α : Type} (x : Db M α) : Call M α :=
  Exec.zoom (·.connection) (fun c h => { h with connection := c }) (Exec.mapError .handshakeError x)

/-- A call on the client's state, which stays in its place. -/
def client {α : Type} (state : ClientHandshakeState M) (x : ClientHandshakeState.Call M α) :
    Call M α :=
  Exec.zoom (fun h => (state,h.connection))
    (fun s h => { h with state := .client s.1, connection := s.2 })
    (Exec.mapError .handshakeError x)

def server {α : Type} (state : ServerHandshakeState) (x : ServerHandshakeState.Call M α) :
    Call M α :=
  Exec.zoom (fun h => (state,h.connection))
    (fun s h => { h with state := .server s.1, connection := s.2 })
    (Exec.mapError .handshakeError x)

section
variable {α : Type} {h : MlsHandshake M} {a : α} {e : HandshakeError M.Error} {c : Connection M}

theorem client_of_ok {state s : ClientHandshakeState M} {x : ClientHandshakeState.Call M α}
    (hx : x.run (state,h.connection) = (.ok a,(s,c))) :
    (client state x).run h = (.ok a,{ h with state := .client s, connection := c }) := by
  simp only [client,Exec.zoom_run,Exec.mapError,hx]

theorem client_of_error {state s : ClientHandshakeState M} {x : ClientHandshakeState.Call M α}
    (hx : x.run (state,h.connection) = (.error (.error e),(s,c))) :
    (client state x).run h =
      (.error (.error (.handshakeError e)),{ h with state := .client s, connection := c }) := by
  simp only [client,Exec.zoom_run,Exec.mapError,hx]

theorem server_of_ok {state s : ServerHandshakeState} {x : ServerHandshakeState.Call M α}
    (hx : x.run (state,h.connection) = (.ok a,(s,c))) :
    (server state x).run h = (.ok a,{ h with state := .server s, connection := c }) := by
  simp only [server,Exec.zoom_run,Exec.mapError,hx]

theorem server_of_error {state s : ServerHandshakeState} {x : ServerHandshakeState.Call M α}
    (hx : x.run (state,h.connection) = (.error (.error e),(s,c))) :
    (server state x).run h =
      (.error (.error (.handshakeError e)),{ h with state := .server s, connection := c }) := by
  simp only [server,Exec.zoom_run,Exec.mapError,hx]

end

def setState (state : MlsHandshakeState M) : Call M Unit :=
  Exec.modify fun h => { h with state := state }

def epoch (h : MlsHandshake M) : ℕ :=
  match h.state with
  | .none => 0
  | .client state => state.mlsSession.epoch
  | .server state => state.mlsSession.epoch

/-- Whether the party waits for a response. -/
def isWaiting (h : MlsHandshake M) : Bool :=
  match h.state with
  | .none => false
  | .client state => state.isWaitingForResponse
  | .server state => state.isWaitingForResponse

def updateHandshake (J : Serde M) (seed : ℕ) : Call M (Option SecretUpdate × Bytes) := do
  let h ← Exec.get
  match h.state with
  | .none => Exec.throw .uninitialized
  | .client state => do
    let (clientSecret,messageBytes) ←
      client state (ClientHandshakeState.update J h.leafSigner false seed)
    pure (some (.clientSecret clientSecret),messageBytes)
  | .server state => do
    let messageBytes ← server state (ServerHandshakeState.update h.leafSigner false seed)
    pure (none,messageBytes)

def processSignalingMessage (J : Serde M) (messageBytes : Bytes) (seed : ℕ) :
    Call M (Option SecretUpdate × Option Bytes) := do
  let h ← Exec.get
  match h.state with
  | .none => Exec.throw .uninitialized
  | .client state =>
    client state (ClientHandshakeState.receiveSignalingMessage J h.leafSigner messageBytes seed)
  | .server state => do
    let (trafficSecrets,messageBytes) ←
      server state (ServerHandshakeState.receiveSignalingMessage h.leafSigner messageBytes seed)
    pure (some (.both trafficSecrets),messageBytes)

def delete (J : Serde M) : Call M Unit := do
  let h ← Exec.get
  match h.state with
  | .none => pure ()
  | .client state => db (ClientHandshakeState.delete J state.profileId)
  | .server state => db state.mlsSession.delete

section Transport
variable {σ : Type} (tr : Transport σ)

/-- Calls during the handshake, on the handshake and its transport. -/
abbrev Setup (M : OpenMls) (σ : Type) (α : Type) :=
  Exec (MlsHandshake M × σ) (MlsHandshakeError M.Error) α

def own {α : Type} (x : Call M α) : Setup M σ α := Exec.zoom Prod.fst (fun h s => (h,s.2)) x

/-- `tx.send(..)` -/
def sendFirst (item : Bytes) : Setup M σ Unit :=
  Exec.zoom Prod.snd (fun t s => (s.1,t)) (Exec.mapError .transportError (tr.send item))

/-- `rx.next()`, with every error turned into one. -/
def nextFirst : Setup M σ (Option TlsPacketIn) :=
  Exec.zoom Prod.snd (fun t s => (s.1,t)) (Exec.mapError (fun _ => .decodingError) tr.next)

/-- `client_handshake` up to where it waits for the server. -/
def clientHandshakeStart (J : Serde M) (clientId : Uuid) (serverVerifyingKey : Bytes) (seed : ℕ) :
    Setup M σ WaitingForServerHello := do
  own (db ClientHandshakeState.createTable)
  own (db (ClientHandshakeState.delete J clientId))
  let s ← Exec.get
  let (waiting,clientHello) ←
    own (db (ClientHandshake.start s.1.leafSigner serverVerifyingKey clientId seed))
  sendFirst tr clientHello
  pure waiting

/-- The rest of `client_handshake`, or `none` while the server has not answered. -/
def clientHandshakeFinish (J : Serde M) (waiting : WaitingForServerHello) :
    Setup M σ (Option TrafficSecrets) := do
  match ← nextFirst tr with
  | none => pure none
  | some packet => do
    let (state,trafficSecrets) ← own (db (waiting.receiveServerHello packet.data))
    own (db (ClientHandshakeState.store J state))
    own (setState (.client state))
    pure (some trafficSecrets)

def serverHandshake (groupId : GroupId) (seed : ℕ) :
    Setup M σ (Option (TrafficSecrets × ClientIdentity)) := do
  match ← nextFirst tr with
  | none => pure none
  | some packet => do
    let s ← Exec.get
    let (state,trafficSecrets,clientIdentity,responseBytes) ←
      own (db (ServerHandshake.start s.1.leafSigner packet.data groupId seed))
    own (setState (.server state))
    sendFirst tr responseBytes
    pure (some (trafficSecrets,clientIdentity))

end Transport
end MlsHandshake
end MlsTls.MlsHandshake
