import MlsTls.EncryptionProvider.Link

/-! Two providers that are joined by two byte streams. Each side sends bytes, which may start an
update, and reads what has arrived, in any order and with any pieces of the streams arriving at
any time. -/
set_option linter.dupNamespace false

namespace MlsTls.EncryptionProvider
open Lib TlsAead MlsHandshake
variable {M : OpenMls}

/-- The value fits one record. -/
def InnerPlaintext.Fits (m : InnerPlaintext) : Prop :=
  ∃ e, wire.enc m = some e ∧ e.length ≤ tlsMaxRecordSize

instance (m : InnerPlaintext) : Decidable m.Fits :=
  match h : InnerPlaintext.wire.enc m with
  | none => isFalse fun ⟨e,he,_⟩ => by simp [h] at he
  | some e => decidable_of_iff (e.length ≤ tlsMaxRecordSize)
      ⟨fun hle => ⟨e,h,hle⟩,fun ⟨e',he',hle⟩ => Option.some.inj (h.symm.trans he') ▸ hle⟩

/-- One side: its provider, and what `read_message` has returned and is still to be processed. -/
structure Endpoint (V : Environment M) where
  provider : EncryptionProvider M V.chrono
  unprocessed : Option InnerPlaintext

abbrev Endpoint.channels {V : Environment M} (e : Endpoint V) : ProtectedChannels :=
  e.provider.channels

/-- The client is the side `false`. -/
structure Duplex (V : Environment M) where
  side : Bool → Endpoint V
  clock : ℕ

inductive Operation (V : Environment M)
  | sendBytes (bytes : Bytes) (now : V.chrono.DateTime)
  | readMessage
  | processReadMessage
  | readBytes (turns : ℕ)
  /-- Bytes that the side has sent arrive at the other side. -/
  | arrive (n : ℕ)

namespace EncryptionProvider
variable {V : Environment M} (isServer : Bool)

/-- Signaling messages fit, with `n` records to go. -/
def SignalRoom (message : Bytes) (n : ℕ) (p : EncryptionProvider M V.chrono) : Prop :=
  (InnerPlaintext.signaling message).Fits ∧ p.channels.cipher.sendSeq+n < u64Size

/-- The records and epochs of an update at the beginning of `send_bytes` have room. -/
def UpdateRoom (seed : ℕ) (p : EncryptionProvider M V.chrono) : Prop :=
  (p.handshake.isWaiting = false → p.handshake.epoch+2 < u64Size) ∧
  Exec.Ensures ((MlsHandshake.updateHandshake V.serde seed).run p.handshake) fun r _ =>
    p.SignalRoom r.2 2

def SendRoom (bytes : Bytes) (now : V.chrono.DateTime) (seed : ℕ)
    (p : EncryptionProvider M V.chrono) : Prop :=
  (InnerPlaintext.application bytes).Fits ∧ p.channels.cipher.sendSeq+1 < u64Size ∧
  (p.updatePolicy.updateIsDue now = some true → p.UpdateRoom seed)

/-- The answer to a signaling message has room. -/
def ProcessRoom (message : InnerPlaintext) (seed : ℕ) (p : EncryptionProvider M V.chrono) : Prop :=
  match message with
  | .application _ => True
  | .signaling b =>
    Exec.Ensures ((MlsHandshake.processSignalingMessage V.serde b seed).run p.handshake) fun r _ =>
      ∀ response ∈ r.2, p.SignalRoom response 1

/-- The answers in all turns of `read_bytes` have room. -/
def ReadRoom : ℕ → ℕ → EncryptionProvider M V.chrono → Prop
  | 0,_,_ => True
  | turns+1,seed,p => Exec.Ensures ((readMessage V).run p) fun read p' =>
      ∀ message ∈ read, p'.ProcessRoom message seed ∧
        Exec.Ensures ((processReadMessage V isServer message seed).run p') fun r p'' =>
          r = none → ReadRoom turns (seed+1) p''

instance (message : Bytes) (n : ℕ) (p : EncryptionProvider M V.chrono) :
    Decidable (p.SignalRoom message n) :=
  inferInstanceAs (Decidable (_ ∧ _))

instance (seed : ℕ) (p : EncryptionProvider M V.chrono) : Decidable (p.UpdateRoom seed) :=
  inferInstanceAs (Decidable ((_ → _) ∧ _))

instance (bytes : Bytes) (now : V.chrono.DateTime) (seed : ℕ) (p : EncryptionProvider M V.chrono) :
    Decidable (p.SendRoom bytes now seed) :=
  inferInstanceAs (Decidable (_ ∧ _ ∧ (_ → _)))

instance (message : InnerPlaintext) (seed : ℕ) (p : EncryptionProvider M V.chrono) :
    Decidable (p.ProcessRoom message seed) :=
  match message with
  | .application _ => isTrue trivial
  | .signaling _ => inferInstanceAs (Decidable (Exec.Ensures _ _))

instance decidableReadRoom : (turns seed : ℕ) → (p : EncryptionProvider M V.chrono) →
    Decidable (ReadRoom isServer turns seed p)
  | 0,_,_ => isTrue trivial
  | turns+1,_,_ =>
    have := decidableReadRoom turns
    inferInstanceAs (Decidable (Exec.Ensures _ _))

/-- A sum in the update policy leaves its range. -/
def PolicyOverflow (bytes : Bytes) (now : V.chrono.DateTime) (p : EncryptionProvider M V.chrono) :
    Prop :=
  p.updatePolicy.updateIsDue now = none ∨
    p.updatePolicy.incrementBytesTransferred bytes.length = none

end EncryptionProvider

namespace Duplex
variable {V : Environment M}

def set (d : Duplex V) (isServer : Bool) (e : Endpoint V) (clock : ℕ) : Duplex V :=
  ⟨Function.update d.side isServer e,clock⟩

/-- Some bytes go from one side to the other. -/
def arrive (d : Duplex V) (isServer : Bool) (n : ℕ) : Duplex V :=
  let s := d.side isServer
  let r := d.side !isServer
  let sent := { s with provider.channels.outgoing := s.channels.outgoing.drop n }
  let got := { r with
    provider.channels := ProtectedChannels.arrive (s.channels.outgoing.take n) r.channels }
  (d.set isServer sent d.clock).set (!isServer) got d.clock

/-- One operation of one side: its result and the state after it. -/
def exec (isServer : Bool) (op : Operation V) (d : Duplex V) :
    Outcome (EncryptionProviderError M.Error) (Option Bytes) × Duplex V :=
  let e := d.side isServer
  match op with
  | .sendBytes bytes now =>
    let r := (EncryptionProvider.sendBytes V isServer bytes now d.clock).run e.provider
    (r.1.map fun _ => none,d.set isServer ⟨r.2,e.unprocessed⟩ (d.clock+1))
  | .readMessage =>
    match (EncryptionProvider.readMessage V).run e.provider with
    | (.ok message,p) => (.ok none,d.set isServer ⟨p,message⟩ d.clock)
    | (.error f,p) => (.error f,d.set isServer ⟨p,e.unprocessed⟩ d.clock)
  | .processReadMessage =>
    match e.unprocessed with
    | none => (.ok none,d)
    | some message =>
      let r := (EncryptionProvider.processReadMessage V isServer message d.clock).run e.provider
      (r.1,d.set isServer ⟨r.2,none⟩ (d.clock+1))
  | .readBytes turns =>
    let r := (EncryptionProvider.readBytesInner V isServer turns d.clock).run e.provider
    (r.1,d.set isServer ⟨r.2,e.unprocessed⟩ (d.clock+turns))
  | .arrive n => (.ok none,d.arrive isServer n)

def step (e : Bool × Operation V) (d : Duplex V) : Duplex V := (d.exec e.1 e.2).2

/-- A message is processed before the next one is read, every value sent fits one record, and
neither sequence numbers nor epochs run out. -/
def Room (e : Bool × Operation V) (d : Duplex V) : Prop :=
  match e.2 with
  | .sendBytes bytes now => (d.side e.1).provider.SendRoom bytes now d.clock
  | .readMessage => (d.side e.1).unprocessed = none
  | .processReadMessage => ∀ m ∈ (d.side e.1).unprocessed,
      (d.side e.1).provider.ProcessRoom m d.clock
  | .readBytes turns => (d.side e.1).unprocessed = none ∧
      EncryptionProvider.ReadRoom e.1 turns d.clock (d.side e.1).provider
  | .arrive _ => True

instance (e : Bool × Operation V) (d : Duplex V) : Decidable (d.Room e) :=
  match e with
  | (_,.sendBytes _ _) => inferInstanceAs (Decidable (EncryptionProvider.SendRoom _ _ _ _))
  | (_,.readMessage) => inferInstanceAs (Decidable (_ = _))
  | (_,.processReadMessage) => inferInstanceAs (Decidable (∀ _ ∈ _,_))
  | (_,.readBytes _) => inferInstanceAs (Decidable (_ ∧ _))
  | (_,.arrive _) => isTrue trivial

abbrev Runs : Duplex V → Duplex V → Prop := Run step Room

/-- Both streams are drained and every message read has been processed. -/
structure Drained (d : Duplex V) : Prop where
  outgoing : ∀ b, (d.side b).channels.outgoing = []
  incoming : ∀ b, (d.side b).channels.incoming = []
  processed : ∀ b, (d.side b).unprocessed = none

/-- The first side's epoch is the other's, nobody waits and each side expects what the other one
sends. -/
structure InStep (groupId : GroupId) (d : Duplex V) : Prop where
  waiting : ∀ b, (d.side b).provider.handshake.isWaiting = false
  epoch : ∃ client server, (d.side false).provider.handshake.connection.groups groupId =
      .ok (some client) ∧
    (d.side true).provider.handshake.connection.groups groupId = .ok (some server) ∧
    M.epoch client = M.epoch server
  mirrored : TlsAeadCodec.Mirrored (d.side false).channels.cipher (d.side true).channels.cipher

@[simp] theorem set_side (d : Duplex V) (isServer : Bool) (e : Endpoint V) (clock : ℕ) :
    (d.set isServer e clock).side isServer = e := Function.update_self ..

@[simp] theorem set_side_not (d : Duplex V) (isServer : Bool) (e : Endpoint V) (clock : ℕ) :
    (d.set isServer e clock).side (!isServer) = d.side (!isServer) :=
  Function.update_of_ne (Bool.not_ne_self isServer) ..

theorem arrive_near (d : Duplex V) (isServer : Bool) (n : ℕ) :
    (d.arrive isServer n).side isServer = { d.side isServer with
      provider.channels.outgoing := (d.side isServer).channels.outgoing.drop n } := by
  cases isServer <;> rfl

theorem arrive_far (d : Duplex V) (isServer : Bool) (n : ℕ) :
    (d.arrive isServer n).side (!isServer) = { d.side !isServer with
      provider.channels := ProtectedChannels.arrive ((d.side isServer).channels.outgoing.take n)
        (d.side !isServer).channels } := set_side ..

@[simp] theorem set_clock (d : Duplex V) (isServer : Bool) (e : Endpoint V) (clock : ℕ) :
    (d.set isServer e clock).clock = clock := rfl

end Duplex
end MlsTls.EncryptionProvider
