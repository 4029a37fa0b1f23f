import MlsTls.MlsHandshake.OpenMls

/-! The messages of the handshake and their encodings: an enumeration is its tag, in the declared
width and in declaration order, and then the variant's fields; a structure is its fields in order.
Messages that carry MLS messages come in two types, one to write and one to read. -/
namespace MlsTls.MlsHandshake
open Lib

/-- The versions of the handshake. There is one so far. -/
inductive ProtocolVersion
  | v01
  deriving DecidableEq, Repr

/-- `#[repr(u8)]`, so that `True` is zero. -/
inductive Boolean
  | true
  | false
  deriving DecidableEq, Repr

def Boolean.ofBool : Bool → Boolean
  | .true => .true
  | .false => .false

def Boolean.toBool : Boolean → Bool
  | .true => .true
  | .false => .false

@[simp] theorem Boolean.toBool_ofBool (b : Bool) : (Boolean.ofBool b).toBool = b := by cases b <;> rfl

/-- The first message of a client without a session: the key package that it is to be added with. -/
structure ClientHelloIn (M : OpenMls) where
  keyPackage : M.Message

structure ClientHelloOut (M : OpenMls) where
  keyPackage : M.Message

/-- The server's answer: the welcome to the group that it has made. -/
structure ServerHelloIn (M : OpenMls) where
  welcome : M.Message

structure ServerHelloOut (M : OpenMls) where
  welcome : M.Message

/-- The first message of a client that goes on with its session: a commit in its group. -/
structure ResumptionIn (M : OpenMls) where
  commit : M.Message

structure ResumptionOut (M : OpenMls) where
  commit : M.Message

/-- A client begins with a new session or with the one it has. -/
inductive HandshakePayloadIn (M : OpenMls)
  | clientHello (hello : ClientHelloIn M)
  | resumption (resumption : ResumptionIn M)

inductive HandshakePayloadOut (M : OpenMls)
  | clientHello (hello : ClientHelloOut M)
  | resumption (resumption : ResumptionOut M)

/-- The first message of a connection. The version comes first, whatever the payload. -/
structure MlsTlsHandshakeIn (M : OpenMls) where
  version : ProtocolVersion
  payload : HandshakePayloadIn M

structure MlsTlsHandshakeOut (M : OpenMls) where
  version : ProtocolVersion
  payload : HandshakePayloadOut M

/-- The epoch that the sender has reached, in answer to a commit. -/
structure EpochKeyUpdate where
  epoch : ℕ
  deriving DecidableEq, Repr

/-- A message that the format has and that nothing sends; a party that receives it panics. -/
structure KeyUpdate where
  updateRequested : Boolean
  deriving DecidableEq, Repr

/-- A commit of the sender, and whether the receiver is asked for one of its own. -/
structure ConnectionUpdateIn (M : OpenMls) where
  updateRequested : Boolean
  mlsCommit : M.Message

structure ConnectionUpdateOut (M : OpenMls) where
  updateRequested : Boolean
  mlsCommit : M.Message

/-- What goes over a connection besides application data. -/
inductive SignalingMessageIn (M : OpenMls)
  | connectionUpdate (update : ConnectionUpdateIn M)
  | connectionConfirmation (confirmation : EpochKeyUpdate)
  | epochKeyUpdate (update : EpochKeyUpdate)
  | keyUpdate (update : KeyUpdate)

inductive SignalingMessageOut (M : OpenMls)
  | connectionUpdate (update : ConnectionUpdateOut M)
  | connectionConfirmation (confirmation : EpochKeyUpdate)
  | epochKeyUpdate (update : EpochKeyUpdate)
  | keyUpdate (update : KeyUpdate)

/-- The name by which errors call a message that came at the wrong time. -/
def SignalingMessageIn.messageType {M : OpenMls} : SignalingMessageIn M → String
  | .connectionUpdate _ => "ConnectionUpdate"
  | .connectionConfirmation _ => "ConnectionConfirmation"
  | .epochKeyUpdate _ => "EpochKeyUpdate"
  | .keyUpdate _ => "KeyUpdate"

/-! The derived encodings. -/

/-- `#[repr(u16)]`, a tag without any fields. -/
def ProtocolVersion.wire : Wire ProtocolVersion :=
  .enum 2 [⟨Unit,.unit,fun _ => .v01,fun .v01 => some ()⟩]

/-- One byte, and no byte but zero and one is read. -/
def Boolean.wire : Wire Boolean :=
  .enum 1 [⟨Unit,.unit,fun _ => .true,fun | .true => some () | .false => none⟩,
    ⟨Unit,.unit,fun _ => .false,fun | .false => some () | .true => none⟩]

/-- The epoch as a `u64`. Larger numbers have no encoding. -/
def EpochKeyUpdate.wire : Wire EpochKeyUpdate := .iso (.word 8) .mk (·.epoch)

def KeyUpdate.wire : Wire KeyUpdate := .iso Boolean.wire .mk (·.updateRequested)

section
variable (M : OpenMls)

def ClientHelloIn.wire : Wire (ClientHelloIn M) := .iso M.wire .mk (·.keyPackage)
def ClientHelloOut.wire : Wire (ClientHelloOut M) := .iso M.wire .mk (·.keyPackage)
def ServerHelloIn.wire : Wire (ServerHelloIn M) := .iso M.wire .mk (·.welcome)
def ServerHelloOut.wire : Wire (ServerHelloOut M) := .iso M.wire .mk (·.welcome)
def ResumptionIn.wire : Wire (ResumptionIn M) := .iso M.wire .mk (·.commit)
def ResumptionOut.wire : Wire (ResumptionOut M) := .iso M.wire .mk (·.commit)

/-- Both payloads under their tags, zero and one. -/
def HandshakePayloadIn.wire : Wire (HandshakePayloadIn M) :=
  .enum 2 [⟨_,ClientHelloIn.wire M,.clientHello,fun | .clientHello h => some h | _ => none⟩,
    ⟨_,ResumptionIn.wire M,.resumption,fun | .resumption r => some r | _ => none⟩]

def HandshakePayloadOut.wire : Wire (HandshakePayloadOut M) :=
  .enum 2 [⟨_,ClientHelloOut.wire M,.clientHello,fun | .clientHello h => some h | _ => none⟩,
    ⟨_,ResumptionOut.wire M,.resumption,fun | .resumption r => some r | _ => none⟩]

def MlsTlsHandshakeIn.wire : Wire (MlsTlsHandshakeIn M) :=
  .iso (.seq ProtocolVersion.wire (HandshakePayloadIn.wire M)) (fun p => ⟨p.1,p.2⟩)
    fun h => (h.version,h.payload)

def MlsTlsHandshakeOut.wire : Wire (MlsTlsHandshakeOut M) :=
  .iso (.seq ProtocolVersion.wire (HandshakePayloadOut.wire M)) (fun p => ⟨p.1,p.2⟩)
    fun h => (h.version,h.payload)

def ConnectionUpdateIn.wire : Wire (ConnectionUpdateIn M) :=
  .iso (.seq Boolean.wire M.wire) (fun p => ⟨p.1,p.2⟩) fun u => (u.updateRequested,u.mlsCommit)

def ConnectionUpdateOut.wire : Wire (ConnectionUpdateOut M) :=
  .iso (.seq Boolean.wire M.wire) (fun p => ⟨p.1,p.2⟩) fun u => (u.updateRequested,u.mlsCommit)

/-- The four messages under the tags from zero to three. -/
def SignalingMessageIn.wire : Wire (SignalingMessageIn M) :=
  .enum 2 [
    ⟨_,ConnectionUpdateIn.wire M,.connectionUpdate,fun | .connectionUpdate u => some u | _ => none⟩,
    ⟨_,EpochKeyUpdate.wire,.connectionConfirmation,
      fun | .connectionConfirmation u => some u | _ => none⟩,
    ⟨_,EpochKeyUpdate.wire,.epochKeyUpdate,fun | .epochKeyUpdate u => some u | _ => none⟩,
    ⟨_,KeyUpdate.wire,.keyUpdate,fun | .keyUpdate u => some u | _ => none⟩]

def SignalingMessageOut.wire : Wire (SignalingMessageOut M) :=
  .enum 2 [
    ⟨_,ConnectionUpdateOut.wire M,.connectionUpdate,fun | .connectionUpdate u => some u | _ => none⟩,
    ⟨_,EpochKeyUpdate.wire,.connectionConfirmation,
      fun | .connectionConfirmation u => some u | _ => none⟩,
    ⟨_,EpochKeyUpdate.wire,.epochKeyUpdate,fun | .epochKeyUpdate u => some u | _ => none⟩,
    ⟨_,KeyUpdate.wire,.keyUpdate,fun | .keyUpdate u => some u | _ => none⟩]

end

section
variable {M : OpenMls}

/-! What the peer reads where a message was written. -/

def HandshakePayloadOut.toIn : HandshakePayloadOut M → HandshakePayloadIn M
  | .clientHello hello => .clientHello ⟨hello.keyPackage⟩
  | .resumption r => .resumption ⟨r.commit⟩

/-- The first message as the server reads it. -/
def MlsTlsHandshakeOut.toIn (h : MlsTlsHandshakeOut M) : MlsTlsHandshakeIn M :=
  ⟨h.version,h.payload.toIn⟩

def ServerHelloOut.toIn (h : ServerHelloOut M) : ServerHelloIn M := ⟨h.welcome⟩

/-- A signaling message as the peer reads it: the same variant with the same fields. -/
def SignalingMessageOut.toIn : SignalingMessageOut M → SignalingMessageIn M
  | .connectionUpdate update => .connectionUpdate ⟨update.updateRequested,update.mlsCommit⟩
  | .connectionConfirmation confirmation => .connectionConfirmation confirmation
  | .epochKeyUpdate update => .epochKeyUpdate update
  | .keyUpdate update => .keyUpdate update

theorem ProtocolVersion.wire_lawful : ProtocolVersion.wire.Lawful := by
  refine Wire.enum_lawful ?_ (by simp)
  rintro v hv
  obtain rfl := List.mem_singleton.mp hv
  exact ⟨Wire.unit_lawful,fun _ => rfl,fun {b} _ _ => by cases b; rfl⟩

theorem Boolean.wire_lawful : Boolean.wire.Lawful := by
  refine Wire.enum_lawful ?_ (by simp)
  simp only [List.mem_cons,List.not_mem_nil,or_false,forall_eq_or_imp,forall_eq]
  refine ⟨⟨Wire.unit_lawful,fun _ => rfl,?_⟩,⟨Wire.unit_lawful,fun _ => rfl,?_⟩⟩
  · rintro (_ | _) _ h <;> simp at h ⊢
  · rintro (_ | _) _ h <;> simp at h ⊢

theorem EpochKeyUpdate.wire_lawful : EpochKeyUpdate.wire.Lawful :=
  Wire.iso_lawful (Wire.word_lawful 8) (fun _ => rfl) (fun _ => rfl)

theorem KeyUpdate.wire_lawful : KeyUpdate.wire.Lawful :=
  Wire.iso_lawful Boolean.wire_lawful (fun _ => rfl) (fun _ => rfl)

section
variable (hM : M.wire.Lawful)
include hM

theorem HandshakePayloadIn.wire_lawful : (HandshakePayloadIn.wire M).Lawful := by
  refine Wire.enum_lawful ?_ (by simp)
  simp only [List.mem_cons,List.not_mem_nil,or_false,forall_eq_or_imp,forall_eq]
  refine ⟨⟨Wire.iso_lawful hM (fun _ => rfl) (fun _ => rfl),fun _ => rfl,?_⟩,
    ⟨Wire.iso_lawful hM (fun _ => rfl) (fun _ => rfl),fun _ => rfl,?_⟩⟩
  · rintro (_ | _) _ h <;> simp at h ⊢
    exact h.symm
  · rintro (_ | _) _ h <;> simp at h ⊢
    exact h.symm

theorem MlsTlsHandshakeIn.wire_lawful : (MlsTlsHandshakeIn.wire M).Lawful :=
  Wire.iso_lawful (Wire.seq_lawful ProtocolVersion.wire_lawful (HandshakePayloadIn.wire_lawful hM))
    (fun _ => rfl) (fun _ => rfl)

theorem ServerHelloIn.wire_lawful : (ServerHelloIn.wire M).Lawful :=
  Wire.iso_lawful hM (fun _ => rfl) (fun _ => rfl)

theorem ConnectionUpdateIn.wire_lawful : (ConnectionUpdateIn.wire M).Lawful :=
  Wire.iso_lawful (Wire.seq_lawful Boolean.wire_lawful hM) (fun _ => rfl) (fun _ => rfl)

theorem SignalingMessageIn.wire_lawful : (SignalingMessageIn.wire M).Lawful := by
  refine Wire.enum_lawful ?_ (by simp)
  simp only [List.mem_cons,List.not_mem_nil,or_false,forall_eq_or_imp,forall_eq]
  refine ⟨⟨ConnectionUpdateIn.wire_lawful hM,fun _ => rfl,?_⟩,
    ⟨EpochKeyUpdate.wire_lawful,fun _ => rfl,?_⟩,⟨EpochKeyUpdate.wire_lawful,fun _ => rfl,?_⟩,
    ⟨KeyUpdate.wire_lawful,fun _ => rfl,?_⟩⟩ <;>
  · rintro (_ | _ | _ | _) _ h <;> simp at h ⊢
    exact h.symm

end

theorem MlsTlsHandshakeOut.wire_enc (h : MlsTlsHandshakeOut M) :
    (MlsTlsHandshakeOut.wire M).enc h = (MlsTlsHandshakeIn.wire M).enc h.toIn := by
  obtain ⟨v,p⟩ := h
  cases p <;> rfl

theorem ServerHelloOut.wire_enc (h : ServerHelloOut M) :
    (ServerHelloOut.wire M).enc h = (ServerHelloIn.wire M).enc h.toIn := rfl

theorem SignalingMessageOut.wire_enc (m : SignalingMessageOut M) :
    (SignalingMessageOut.wire M).enc m = (SignalingMessageIn.wire M).enc m.toIn := by
  cases m <;> rfl

/-! Which messages have an encoding. -/

lemma Boolean.wire_enc (b : Boolean) : ∃ e, Boolean.wire.enc b = some e := by
  cases b with
  | true => exact ⟨_,rfl⟩
  | false => exact ⟨_,rfl⟩

lemma ConnectionUpdateOut.wire_enc (b : Boolean) {m : M.Message} (h : ∃ e, M.wire.enc m = some e) :
    ∃ e, (ConnectionUpdateOut.wire M).enc ⟨b,m⟩ = some e := by
  obtain ⟨e,he⟩ := h
  obtain ⟨x,hx⟩ := b.wire_enc
  exact ⟨x++e,by simp [ConnectionUpdateOut.wire,Wire.iso,Wire.seq,hx,he]⟩

lemma EpochKeyUpdate.wire_enc {n : ℕ} (h : n < u64Size) :
    ∃ e, EpochKeyUpdate.wire.enc ⟨n⟩ = some e :=
  ⟨_,Wire.word_enc_of_lt (by rw [u64Size] at h; omega)⟩

lemma connectionUpdate_enc (b : Boolean) {m : M.Message} (h : ∃ e, M.wire.enc m = some e) :
    ∃ e, (SignalingMessageOut.wire M).enc (.connectionUpdate ⟨b,m⟩) = some e := by
  obtain ⟨e,he⟩ := ConnectionUpdateOut.wire_enc b h
  exact ⟨beBytes 2 0++e,by simp [SignalingMessageOut.wire,Wire.enum,Wire.encVariant,he,Wire.word]⟩

lemma connectionConfirmation_enc {n : ℕ} (h : n < u64Size) :
    ∃ e, (SignalingMessageOut.wire M).enc (.connectionConfirmation ⟨n⟩) = some e := by
  obtain ⟨e,he⟩ := EpochKeyUpdate.wire_enc h
  exact ⟨beBytes 2 1++e,by simp [SignalingMessageOut.wire,Wire.enum,Wire.encVariant,he,Wire.word]⟩

lemma epochKeyUpdate_enc {n : ℕ} (h : n < u64Size) :
    ∃ e, (SignalingMessageOut.wire M).enc (.epochKeyUpdate ⟨n⟩) = some e := by
  obtain ⟨e,he⟩ := EpochKeyUpdate.wire_enc h
  exact ⟨beBytes 2 2++e,by simp [SignalingMessageOut.wire,Wire.enum,Wire.encVariant,he,Wire.word]⟩

lemma resumption_enc {m : M.Message} (h : ∃ e, M.wire.enc m = some e) :
    ∃ e, (MlsTlsHandshakeOut.wire M).enc ⟨.v01,.resumption ⟨m⟩⟩ = some e := by
  obtain ⟨e,he⟩ := h
  exact ⟨beBytes 2 0++(beBytes 2 1++e),by
    simp [MlsTlsHandshakeOut.wire,ProtocolVersion.wire,HandshakePayloadOut.wire,ResumptionOut.wire,
      Wire.iso,Wire.seq,Wire.enum,Wire.encVariant,Wire.unit,Wire.word,he]⟩

end
end MlsTls.MlsHandshake
