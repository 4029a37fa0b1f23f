import MlsTls.Lib.Run
import MlsTls.MlsHandshake.Client
import MlsTls.MlsHandshake.Server

/-! A session of one client and one server: the two handshake states with their databases, the
messages in flight in each direction, and the traffic secrets each caller holds. Either party may
start an update at any time, messages arrive in order, and the client may lose its connection and
resume. -/
namespace MlsTls.MlsHandshake
open Lib TlsAead

/-- `server` is `none` on a new connection until its first message has arrived. `clock` is the
randomness of the next call. -/
structure System (M : OpenMls) where
  client : ClientHandshakeState M
  clientDb : Connection M
  server : Option ServerHandshakeState
  serverDb : Connection M
  clientToServer : List Bytes
  serverToClient : List Bytes
  clientSecrets : TrafficSecrets
  serverSecrets : TrafficSecrets
  clock : ℕ

inductive Event
  | clientUpdate (updateRequested : Bool)
  | serverUpdate (updateRequested : Bool)
  | deliverToServer
  | deliverToClient
  | resume
  deriving DecidableEq, Repr

/-- What both parties keep over all connections. -/
structure Parties (M : OpenMls) where
  serde : Serde M
  clientSigner : M.SignatureKeyPair
  serverSigner : M.SignatureKeyPair

namespace System
variable {M : OpenMls} (P : Parties M)

/-- What a caller does with the result of a call: it applies the secret update and sends the
response. -/
def afterClient (x : System M) (s : ClientHandshakeState M × Connection M)
    (update : Option SecretUpdate) (response : List Bytes) : System M :=
  { x with
    client := s.1
    clientDb := s.2
    clientSecrets := update.elim x.clientSecrets x.clientSecrets.update
    clientToServer := x.clientToServer++response
    clock := x.clock+1 }

def afterServer (x : System M) (server : Option ServerHandshakeState) (db : Connection M)
    (secrets : TrafficSecrets) (response : List Bytes) : System M :=
  { x with
    server := server
    serverDb := db
    serverSecrets := secrets
    serverToClient := x.serverToClient++response
    clock := x.clock+1 }

def clientUpdate (updateRequested : Bool) (x : System M) : System M :=
  match (ClientHandshakeState.update P.serde P.clientSigner updateRequested x.clock).run
      (x.client,x.clientDb) with
  | (.ok (clientSecret,bytes),s) => x.afterClient s (some (.clientSecret clientSecret)) [bytes]
  | (.error _,s) => x.afterClient s none []

def serverUpdate (updateRequested : Bool) (x : System M) : System M :=
  match x.server with
  | none => x
  | some server =>
    match (ServerHandshakeState.update P.serverSigner updateRequested x.clock).run
        (server,x.serverDb) with
    | (.ok bytes,s) => x.afterServer (some s.1) s.2 x.serverSecrets [bytes]
    | (.error _,s) => x.afterServer (some s.1) s.2 x.serverSecrets []

def deliverToClient (x : System M) : System M :=
  match x.serverToClient with
  | [] => x
  | b::bs =>
    let x := { x with serverToClient := bs }
    match (ClientHandshakeState.receiveSignalingMessage P.serde P.clientSigner b x.clock).run
        (x.client,x.clientDb) with
    | (.ok (update,response),s) => x.afterClient s update response.toList
    | (.error _,s) => x.afterClient s none []

def deliverToServer (x : System M) : System M :=
  match x.clientToServer with
  | [] => x
  | b::bs =>
    let x := { x with clientToServer := bs }
    match x.server with
    | none =>
      match (ServerHandshake.start P.serverSigner b [] x.clock).run x.serverDb with
      | (.ok (server,secrets,_,response),db) => x.afterServer (some server) db secrets [response]
      | (.error _,db) => x.afterServer none db x.serverSecrets []
    | some server =>
      match (ServerHandshakeState.receiveSignalingMessage P.serverSigner b x.clock).run
          (server,x.serverDb) with
      | (.ok (secrets,response),s) => x.afterServer (some s.1) s.2 secrets response.toList
      | (.error _,s) => x.afterServer (some s.1) s.2 x.serverSecrets []

/-- The connection is lost with everything in flight on it, and a new one is opened. -/
def disconnect (x : System M) : System M :=
  { x with server := none, clientToServer := [], serverToClient := [] }

def resume (x : System M) : System M :=
  let x := x.disconnect
  match (ClientHandshakeState.resume P.clientSigner x.clock).run (x.client,x.clientDb) with
  | (.ok (secrets,bytes),s) => x.afterClient s (some (.both secrets)) [bytes]
  | (.error _,s) => x.afterClient s none []

def step : Event → System M → System M
  | .clientUpdate updateRequested => clientUpdate P updateRequested
  | .serverUpdate updateRequested => serverUpdate P updateRequested
  | .deliverToServer => deliverToServer P
  | .deliverToClient => deliverToClient P
  | .resume => resume P

/-- The epochs of the commits that the event leads to fit a `u64`, with one epoch to spare, since
the next epoch is always computed. -/
def Room : Event → System M → Prop
  | .clientUpdate _,x =>
    x.client.mlsSession.epoch+2 < u64Size
  | .serverUpdate updateRequested,x =>
    ∀ server, x.server = some server → server.mlsSession.epoch+2+updateRequested.toNat < u64Size
  | .resume,x => x.client.mlsSession.epoch+2 < u64Size
  | _,_ => True

/-- Runs with the events that `allow` permits, while epochs last. -/
abbrev Runs (allow : Event → Prop) : System M → System M → Prop :=
  Run (step P) fun e x => allow e ∧ Room e x

end System

/-- One honest handshake over any two databases, from `ClientHello` to `ServerHello`. -/
def honestHandshake {M : OpenMls} (P : Parties M) (clientId : Uuid) (groupId : GroupId)
    (clientSeed serverSeed : ℕ) (clientDb serverDb : Connection M) : Option (System M) :=
  match (do ClientHandshakeState.createTable
            ClientHandshake.start P.clientSigner (M.publicKey P.serverSigner) clientId
              clientSeed : Db M _).run clientDb with
  | (.error _,_) => none
  | (.ok (waiting,clientHello),clientDb) =>
    match (ServerHandshake.start P.serverSigner clientHello groupId serverSeed).run serverDb with
    | (.error _,_) => none
    | (.ok (server,serverSecrets,_,serverHello),serverDb) =>
      match (waiting.receiveServerHello serverHello).run clientDb with
      | (.error _,_) => none
      | (.ok (client,clientSecrets),clientDb) => some
          { client, clientDb, server := some server, serverDb, clientToServer := []
            serverToClient := [], clientSecrets, serverSecrets, clock := 0 }

end MlsTls.MlsHandshake
