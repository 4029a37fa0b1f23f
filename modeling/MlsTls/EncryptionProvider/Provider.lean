import MlsTls.EncryptionProvider.UpdatePolicy
import MlsTls.MlsHandshake.Handshake

/-! The encryption provider of an established connection. Application data and the messages of the
handshake share the records; whoever reads a record processes what is for the handshake, answers
first under the old keys and only then switches. -/
set_option linter.dupNamespace false

namespace MlsTls.EncryptionProvider
open Lib TlsAead MlsHandshake

def keyScheduleHashFunction : HashType := .sha2_512
def aeadAlgorithm : AeadType := .aes256Gcm

inductive EncryptionProviderError (E : Type)
  | ioError
  | preHandshakeError
  | handshakeError (e : MlsHandshakeError E)
  | codecError
  | unexpectedMessage (message : String)
  | tlsTransportError (e : TlsAeadSinkError)
  | keyDerivationError (e : CryptoError)

inductive InnerPlaintext
  | application (bytes : Bytes)
  | signaling (message : Bytes)
  deriving DecidableEq, Repr

/-- The derived encoding. The decoder returns an error for a length prefix whose first two bits are
set, as the library is documented to; its debug assertion on such a prefix is left out. -/
def InnerPlaintext.wire : Wire InnerPlaintext :=
  .enum 1 [⟨_,.vec,.application,fun | .application b => some b | _ => none⟩,
    ⟨_,.vec,.signaling,fun | .signaling b => some b | _ => none⟩]

/-- Fresh channels on a connection, whose reader may have read ahead. -/
def newChannels (C : Crypto) (isServer : Bool) (plain : PlainChannels)
    (trafficSecrets : TrafficSecrets) : Except TlsAeadSinkError ProtectedChannels :=
  match TlsAeadCodec.new C isServer trafficSecrets [] keyScheduleHashFunction aeadAlgorithm with
  | .error e => .error (.encryptionFailed e)
  | .ok cipher => .ok
      { cipher, poisoned := false, buffer := [], outgoing := plain.outgoing
        incoming := plain.incoming, sent := [], received := [] }

/-- What a provider is given: the crypto provider, the serializer and the clock. -/
structure Environment (M : OpenMls) where
  crypto : Crypto
  serde : Serde M
  chrono : Chrono

/-- A provider in its established state. -/
structure EncryptionProvider (M : OpenMls) (K : Chrono) where
  handshake : MlsHandshake M
  channels : ProtectedChannels
  updatePolicy : UpdatePolicy K

namespace ProtectedChannels
variable {E : Type}

/-- Calls of the provider on its channels. -/
abbrev ProviderCall (E α : Type) := Exec ProtectedChannels (EncryptionProviderError E) α

/-- `Sink::send` of the provider. -/
def sendPlaintext (C : Crypto) (item : InnerPlaintext) : ProviderCall E Unit := do
  let bytes ← Exec.orThrow .codecError (InnerPlaintext.wire.enc item)
  Exec.mapError .tlsTransportError (ProtectedChannels.send C bytes)

/-- `Stream::next` of the provider. Each record is parsed on its own, and what follows the first
value in it is dropped. -/
def nextPlaintext (C : Crypto) : ProviderCall E (Option InnerPlaintext) := do
  match ← Exec.mapError .tlsTransportError (ProtectedChannels.next C) with
  | none => pure none
  | some packet => do
    let (plaintext,_) ← Exec.orThrow .codecError (InnerPlaintext.wire.dec packet.data)
    pure (some plaintext)

/-- Through the writer first, then through the reader. -/
def updateCipher (C : Crypto) (isServer : Bool) (update : SecretUpdate) : ProviderCall E Unit := do
  Exec.mapError .tlsTransportError (ProtectedChannels.updateTrafficSecrets C update isServer)
  Exec.mapError .tlsTransportError (ProtectedChannels.updateTrafficSecrets C update isServer)

end ProtectedChannels

namespace EncryptionProvider
variable {M : OpenMls} (V : Environment M) (isServer : Bool)

/-- Calls on the provider. -/
abbrev Call (V : Environment M) (α : Type) :=
  Exec (EncryptionProvider M V.chrono) (EncryptionProviderError M.Error) α

variable {V} {α : Type}

def onHandshake (x : MlsHandshake.Call M α) :
    Exec (EncryptionProvider M V.chrono) (MlsHandshakeError M.Error) α :=
  Exec.zoom (·.handshake) (fun h p => { p with handshake := h }) x

def onChannels (x : ProtectedChannels.ProviderCall M.Error α) : Call V α :=
  Exec.zoom (·.channels) (fun c p => { p with channels := c }) x

def setPolicy (policy : UpdatePolicy V.chrono) : Call V Unit :=
  Exec.modify fun p => { p with updatePolicy := policy }

variable (V)

/-- Send the answer, if any, and then switch keys, if asked to. -/
def answer (secretUpdate : Option SecretUpdate) (response : Option Bytes) : Call V Unit := do
  match response with
  | none => pure ()
  | some message => onChannels (ProtectedChannels.sendPlaintext V.crypto (.signaling message))
  match secretUpdate with
  | none => pure ()
  | some update => onChannels (ProtectedChannels.updateCipher V.crypto isServer update)

lemma answer_keeps {I : EncryptionProvider M V.chrono → Prop}
    (hsend : ∀ message, Exec.Keeps I (onChannels (V := V)
      (ProtectedChannels.sendPlaintext V.crypto (.signaling message))) fun _ => True)
    (hswitch : ∀ update, Exec.Keeps I (onChannels (V := V)
      (ProtectedChannels.updateCipher V.crypto isServer update)) fun _ => True)
    (secretUpdate : Option SecretUpdate) (response : Option Bytes) :
    Exec.Keeps I (answer V isServer secretUpdate response) fun _ => True := by
  have hupdate : Exec.Keeps I (answer V isServer secretUpdate none) fun _ => True := by
    cases secretUpdate with
    | none => exact .pure trivial
    | some update => exact hswitch update
  cases response with
  | none => exact hupdate
  | some message => exact .bind (hsend message) fun _ _ => hupdate

def readMessage : Call V (Option InnerPlaintext) :=
  onChannels (ProtectedChannels.nextPlaintext V.crypto)

def processReadMessage (message : InnerPlaintext) (seed : ℕ) : Call V (Option Bytes) :=
  match message with
  | .application b => pure (some b)
  | .signaling signalingMessage => do
    let (secretUpdate,response) ← Exec.mapError .handshakeError
      (onHandshake (MlsHandshake.processSignalingMessage V.serde signalingMessage seed))
    answer V isServer secretUpdate response
    pure none

/-- The loop of `read_bytes`: signaling messages are processed until application data or the end of
the stream is read, for as many turns as there is something to read. -/
def readBytesLoop : ℕ → ℕ → Option InnerPlaintext → Call V (Option Bytes)
  | _,_,some (.application b) => pure (some b)
  | turns,seed,some (.signaling signalingMessage) => do
    let (secretUpdate,response) ← Exec.mapError .handshakeError
      (onHandshake (MlsHandshake.processSignalingMessage V.serde signalingMessage seed))
    match response with
    | none => pure ()
    | some message => onChannels (ProtectedChannels.sendPlaintext V.crypto (.signaling message))
    match secretUpdate with
    | none => pure ()
    | some update => onChannels (ProtectedChannels.updateCipher V.crypto isServer update)
    match turns with
    | 0 => pure none
    | turns+1 => do
      let message ← onChannels (ProtectedChannels.nextPlaintext V.crypto)
      readBytesLoop turns (seed+1) message
  | _,_,none => pure none

def readBytesInner : ℕ → ℕ → Call V (Option Bytes)
  | 0,_ => pure none
  | turns+1,seed => do
    let message ← onChannels (ProtectedChannels.nextPlaintext V.crypto)
    readBytesLoop V isServer turns seed message

/-- A turn of the loop does what the two calls do one after the other. -/
theorem readBytesInner_succ (turns seed : ℕ) : readBytesInner V isServer (turns+1) seed = (do
    match ← readMessage V with
    | none => pure none
    | some message => do
      match ← processReadMessage V isServer message seed with
      | some b => pure (some b)
      | none => readBytesInner V isServer turns (seed+1)) := by
  refine congrArg (readMessage V >>= ·) (funext fun message => ?_)
  rcases message with _ | b | signalingMessage
  · rw [readBytesLoop]
  · rw [readBytesLoop]
    rfl
  · -- the rest of the turn, after the message is processed
    have hrest (r : Option SecretUpdate × Option Bytes) : (do
        match r.2 with
        | none => pure ()
        | some message => onChannels (ProtectedChannels.sendPlaintext V.crypto (.signaling message))
        match r.1 with
        | none => pure ()
        | some update => onChannels (ProtectedChannels.updateCipher V.crypto isServer update)
        readBytesInner V isServer turns (seed+1) : Call V (Option Bytes)) =
        answer V isServer r.1 r.2 >>= fun _ => readBytesInner V isServer turns (seed+1) := by
      rcases r with ⟨_ | update,_ | response⟩ <;> simp only [answer,Exec.bind_assoc,Exec.pure_bind]
    simp only [processReadMessage,Exec.bind_assoc,Exec.pure_bind,← hrest]
    cases turns with
    | zero => simp only [readBytesLoop,readBytesInner]
    | succ turns => simp only [readBytesLoop,readBytesInner]

/-- The update at the beginning of `send_bytes`. A party that waits for a response tries again
with the next bytes. -/
def sendUpdate (now : V.chrono.DateTime) (seed : ℕ) : Call V Unit := do
  match ← Exec.attempt (onHandshake (MlsHandshake.updateHandshake V.serde seed)) with
  | .ok (secretUpdate,message) => do
    answer V isServer secretUpdate (some message)
    let p ← Exec.get
    setPolicy (p.updatePolicy.reset now)
  | .error (.handshakeError .waitingForResponse) => pure ()
  | .error e => Exec.throw (.handshakeError e)

/-- The rest of `send_bytes`: the traffic is counted whether or not it could be sent. -/
def sendApplication (bytes : Bytes) : Call V Unit := do
  let sendResult : Except (EncryptionProviderError M.Error) Unit ←
    Exec.attempt (onChannels (ProtectedChannels.sendPlaintext V.crypto (.application bytes)))
  let p ← Exec.get
  match p.updatePolicy.incrementBytesTransferred bytes.length with
  | none => Exec.panic
  | some policy => do
    setPolicy policy
    Exec.lift id sendResult

def sendBytes (bytes : Bytes) (now : V.chrono.DateTime) (seed : ℕ) : Call V Unit := do
  let p ← Exec.get
  match p.updatePolicy.updateIsDue now with
  | none => Exec.panic
  | some due => do
    if due then sendUpdate V isServer now seed
    sendApplication V bytes

lemma sendBytes_keeps {I : EncryptionProvider M V.chrono → Prop}
    {Q : Option SecretUpdate × Bytes → Prop} {seed : ℕ}
    (hsend : ∀ message, Exec.Keeps I (onChannels (V := V)
      (ProtectedChannels.sendPlaintext V.crypto message)) fun _ => True)
    (hpolicy : ∀ policy, Exec.Keeps I (setPolicy policy : Call V Unit) fun _ => True)
    (hupdate : Exec.Keeps I (onHandshake (V := V) (MlsHandshake.updateHandshake V.serde seed)) Q)
    (hanswer : ∀ r, Q r → Exec.Keeps I (answer V isServer r.1 (some r.2)) fun _ => True)
    (bytes : Bytes) (now : V.chrono.DateTime) :
    Exec.Keeps I (sendBytes V isServer bytes now seed) fun _ => True := by
  have hfirst : Exec.Keeps I (sendUpdate V isServer now seed) fun _ => True := by
    refine .bind hupdate.attempt fun r hr => ?_
    split
    · rename_i secretUpdate message
      have hsent := hanswer (secretUpdate,message) (hr _ rfl)
      exact .bind hsent fun _ _ => .bind .get fun p _ => hpolicy _
    · exact .pure trivial
    · exact .throw
  have hrest : Exec.Keeps I (sendApplication V bytes) fun _ => True := by
    refine .bind (hsend _).attempt fun r _ => .bind .get fun p _ => ?_
    split
    · exact .panic
    · exact .bind (hpolicy _) fun _ _ => .mono .lift fun _ _ => trivial
  refine .bind .get fun p _ => ?_
  split
  · exact .panic
  · rename_i due hdue
    cases due with
    | true => exact .bind hfirst fun _ _ => hrest
    | false => exact hrest

def delete : Call V Unit :=
  Exec.mapError .handshakeError (onHandshake (MlsHandshake.delete V.serde))

end EncryptionProvider
end MlsTls.EncryptionProvider
