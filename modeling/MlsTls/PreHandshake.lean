import MlsTls.EncryptionProvider.Provider

/-! The pre-handshake: a shared secret for the channels that the MLS handshake then runs over. A
pre-shared key is used as it is; the X25519 exchange is over the bare connection. -/
namespace MlsTls.PreHandshake
open Lib TlsAead MlsHandshake EncryptionProvider

structure HandshakePayload where
  sharedSecret : Bytes
  sessionId : Option Uuid
  deriving DecidableEq, Repr

/-- `b"X25519 MLS-TLS Pre-Handshake Client Secret"` -/
def clientInfo : Bytes :=
  [88,50,53,53,49,57,32,77,76,83,45,84,76,83,32,80,114,101,45,72,97,110,100,115,104,97,107,101,32,
    67,108,105,101,110,116,32,83,101,99,114,101,116]

/-- `b"X25519 MLS-TLS Pre-Handshake Server Secret"` -/
def serverInfo : Bytes :=
  [88,50,53,53,49,57,32,77,76,83,45,84,76,83,32,80,114,101,45,72,97,110,100,115,104,97,107,101,32,
    83,101,114,118,101,114,32,83,101,99,114,101,116]

def deriveTrafficSecrets (C : Crypto) (baseSecret : Bytes) : Except CryptoError TrafficSecrets := do
  let intermediateSecret ← C.hkdfExtract keyScheduleHashFunction [] baseSecret
  let clientSecret ← C.hkdfExpand keyScheduleHashFunction intermediateSecret clientInfo
    keyScheduleHashFunction.size
  let serverSecret ← C.hkdfExpand keyScheduleHashFunction intermediateSecret serverInfo
    keyScheduleHashFunction.size
  return ⟨⟨clientSecret⟩,⟨serverSecret⟩⟩

structure Psk where
  key : Bytes
  deriving DecidableEq, Repr

/-- Neither party sends or reads anything. -/
def Psk.clientHandshake (psk : Psk) : Exec PlainChannels Empty HandshakePayload :=
  pure ⟨psk.key,none⟩

def Psk.serverHandshake (psk : Psk) : Exec PlainChannels Empty HandshakePayload :=
  pure ⟨psk.key,none⟩

/-- Diffie-Hellman on the curve. -/
structure X25519 where
  EphemeralSecret : Type
  randomFromRng : ℕ → EphemeralSecret
  publicKey : EphemeralSecret → Bytes
  diffieHellman : EphemeralSecret → Bytes → Bytes

structure X25519.Lawful (X : X25519) : Prop where
  publicKey_length : ∀ a, (X.publicKey a).length = 32
  commutes : ∀ a b, X.diffieHellman a (X.publicKey b) = X.diffieHellman b (X.publicKey a)

def x25519PublicKeyLength : ℕ := 32

namespace X25519
variable (X : X25519)

def writeAll (b : Bytes) : Exec PlainChannels Empty Unit :=
  Exec.modify fun s => { s with outgoing := s.outgoing++b }

/-- `read_exact` of a public key, or `none` while it has not arrived. -/
def readExact : Exec PlainChannels Empty (Option Bytes) := do
  let s ← Exec.get
  if s.incoming.length < x25519PublicKeyLength then pure none
  else do
    Exec.modify fun s => { s with incoming := s.incoming.drop x25519PublicKeyLength }
    pure (some (s.incoming.take x25519PublicKeyLength))

/-- The client sends its key first and then waits for the server's. -/
def clientHandshakeStart (seed : ℕ) : Exec PlainChannels Empty X.EphemeralSecret := do
  writeAll (X.publicKey (X.randomFromRng seed))
  pure (X.randomFromRng seed)

def clientHandshakeFinish (privateKey : X.EphemeralSecret) :
    Exec PlainChannels Empty (Option HandshakePayload) := do
  match ← readExact with
  | none => pure none
  | some serverPk => pure (some ⟨X.diffieHellman privateKey serverPk,none⟩)

def serverHandshake (seed : ℕ) : Exec PlainChannels Empty (Option HandshakePayload) := do
  match ← readExact with
  | none => pure none
  | some clientPk => do
    writeAll (X.publicKey (X.randomFromRng seed))
    pure (some ⟨X.diffieHellman (X.randomFromRng seed) clientPk,none⟩)

end X25519

/-- A provider after its pre-handshake. -/
structure ProtectedHandshakeState where
  channels : ProtectedChannels
  sessionId : Option Uuid

/-- `new_with_pre_handshake`, from where the pre-handshake has returned. -/
def newWithPreHandshake {E : Type} (C : Crypto) (isServer : Bool) (plain : PlainChannels)
    (payload : HandshakePayload) : Except (EncryptionProviderError E) ProtectedHandshakeState :=
  match deriveTrafficSecrets C payload.sharedSecret with
  | .error e => .error (.keyDerivationError e)
  | .ok trafficSecrets =>
    match newChannels C isServer plain trafficSecrets with
    | .error e => .error (.tlsTransportError e)
    | .ok channels => .ok ⟨channels,payload.sessionId⟩

/-- The derived secrets are as long as those of the MLS handshake. -/
theorem deriveTrafficSecrets_ok {C : Crypto} (hC : C.Lawful) (baseSecret : Bytes) :
    ∃ t, deriveTrafficSecrets C baseSecret = .ok t ∧
      t.clientSecret.secret.length = HashType.sha2_512.size ∧
      t.serverSecret.secret.length = HashType.sha2_512.size := by
  obtain ⟨prk,hprk,hlen⟩ := hC.extract_ok keyScheduleHashFunction [] baseSecret
  obtain ⟨c,hc⟩ := hC.expand_ok keyScheduleHashFunction clientInfo hlen.ge
    (show keyScheduleHashFunction.size ≤ 255*keyScheduleHashFunction.size by decide)
  obtain ⟨s,hs⟩ := hC.expand_ok keyScheduleHashFunction serverInfo hlen.ge
    (show keyScheduleHashFunction.size ≤ 255*keyScheduleHashFunction.size by decide)
  refine ⟨⟨⟨c⟩,⟨s⟩⟩,?_,hC.expand_length hc,hC.expand_length hs⟩
  simp only [deriveTrafficSecrets,hprk,hc,hs,bind,Except.bind,pure,Except.pure]

/-- What a pre-handshake leaves: what it returns, and the connection. -/
abbrev Opened := HandshakePayload × PlainChannels

/-- The pre-handshake of both sides with one pre-shared key. -/
def Psk.opened (psk : Psk) : Option (Opened × Opened) :=
  match psk.clientHandshake.run ⟨[],[]⟩,psk.serverHandshake.run ⟨[],[]⟩ with
  | (.ok payload,c),(.ok payload',s) => some ((payload,c),(payload',s))
  | _,_ => none

/-- The key exchange of both sides. -/
def X25519.opened (X : X25519) (clientSeed serverSeed : ℕ) : Option (Opened × Opened) :=
  match (X.clientHandshakeStart clientSeed).run ⟨[],[]⟩ with
  | (.ok privateKey,c) =>
    match (X.serverHandshake serverSeed).run ⟨[],c.outgoing⟩ with
    | (.ok (some payload),s) =>
      match (X.clientHandshakeFinish privateKey).run ⟨[],s.outgoing⟩ with
      | (.ok (some payload'),c') => some ((payload',c'),(payload,⟨[],s.incoming⟩))
      | _ => none
    | _ => none
  | _ => none

theorem Psk.opened_eq (psk : Psk) :
    psk.opened = some ((⟨psk.key,none⟩,⟨[],[]⟩),(⟨psk.key,none⟩,⟨[],[]⟩)) := rfl

/-- Both parties of an honest exchange get the same secret. -/
theorem X25519.opened_ok {X : X25519} (hX : X.Lawful) (clientSeed serverSeed : ℕ) :
    ∃ payload, X.opened clientSeed serverSeed = some ((payload,⟨[],[]⟩),(payload,⟨[],[]⟩)) := by
  have hc := hX.publicKey_length (X.randomFromRng clientSeed)
  have hs := hX.publicKey_length (X.randomFromRng serverSeed)
  have hstart : (X.clientHandshakeStart clientSeed).run ⟨[],[]⟩ =
      (.ok (X.randomFromRng clientSeed),⟨X.publicKey (X.randomFromRng clientSeed),[]⟩) := rfl
  have hserver : (X.serverHandshake serverSeed).run
      ⟨[],X.publicKey (X.randomFromRng clientSeed)⟩ =
      (.ok (some ⟨X.diffieHellman (X.randomFromRng serverSeed)
        (X.publicKey (X.randomFromRng clientSeed)),none⟩),
        ⟨X.publicKey (X.randomFromRng serverSeed),[]⟩) := by
    simp [serverHandshake,readExact,writeAll,Exec.bind_run,x25519PublicKeyLength,hc,
      List.take_of_length_le hc.le]
  have hfinish : (X.clientHandshakeFinish (X.randomFromRng clientSeed)).run
      ⟨[],X.publicKey (X.randomFromRng serverSeed)⟩ =
      (.ok (some ⟨X.diffieHellman (X.randomFromRng clientSeed)
        (X.publicKey (X.randomFromRng serverSeed)),none⟩),⟨[],[]⟩) := by
    simp [clientHandshakeFinish,readExact,Exec.bind_run,x25519PublicKeyLength,hs,
      List.take_of_length_le hs.le]
  rw [hX.commutes (X.randomFromRng clientSeed)] at hfinish
  refine ⟨⟨X.diffieHellman (X.randomFromRng serverSeed) (X.publicKey (X.randomFromRng clientSeed)),
    none⟩,?_⟩
  simp only [X25519.opened,hstart,hserver,hfinish]

end MlsTls.PreHandshake
