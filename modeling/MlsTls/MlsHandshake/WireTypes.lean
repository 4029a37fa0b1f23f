import MlsTls.MlsHandshake.Sample

/-! The messages that are written and the messages that are read are separate types with separate
derived encodings. What one party writes, the other reads back with the same variant and fields, and
it reads nothing else: the two sides are twins, given that the encoding of MLS messages is lawful. -/
namespace MlsTls.MlsHandshake
open Lib

section
variable {M : OpenMls}

theorem HandshakePayloadOut.toIn_bijective :
    Function.Bijective (HandshakePayloadOut.toIn (M := M)) := by
  constructor
  · rintro (⟨⟨m⟩⟩ | ⟨⟨m⟩⟩) (⟨⟨m'⟩⟩ | ⟨⟨m'⟩⟩) h <;> simp [HandshakePayloadOut.toIn] at h ⊢
    · exact h
    · exact h
  · rintro (⟨⟨m⟩⟩ | ⟨⟨m⟩⟩)
    · exact ⟨.clientHello ⟨m⟩,rfl⟩
    · exact ⟨.resumption ⟨m⟩,rfl⟩

theorem MlsTlsHandshakeOut.toIn_bijective :
    Function.Bijective (MlsTlsHandshakeOut.toIn (M := M)) := by
  constructor
  · rintro ⟨v,p⟩ ⟨v',p'⟩ h
    obtain ⟨rfl,hp⟩ := MlsTlsHandshakeIn.mk.inj h
    obtain rfl : p = p' := HandshakePayloadOut.toIn_bijective.1 hp
    rfl
  · rintro ⟨v,p⟩
    obtain ⟨p',rfl⟩ := HandshakePayloadOut.toIn_bijective.2 p
    exact ⟨⟨v,p'⟩,rfl⟩

theorem ServerHelloOut.toIn_bijective : Function.Bijective (ServerHelloOut.toIn (M := M)) := by
  constructor
  · rintro ⟨m⟩ ⟨m'⟩ h
    obtain rfl : m = m' := ServerHelloIn.mk.inj h
    rfl
  · rintro ⟨m⟩
    exact ⟨⟨m⟩,rfl⟩

theorem SignalingMessageOut.toIn_bijective :
    Function.Bijective (SignalingMessageOut.toIn (M := M)) := by
  constructor
  · rintro (⟨⟨b,m⟩⟩ | u | u | u) (⟨⟨b',m'⟩⟩ | u' | u' | u') h <;>
      simp [SignalingMessageOut.toIn] at h ⊢ <;> exact h
  · rintro (⟨⟨b,m⟩⟩ | u | u | u)
    · exact ⟨.connectionUpdate ⟨b,m⟩,rfl⟩
    · exact ⟨.connectionConfirmation u,rfl⟩
    · exact ⟨.epochKeyUpdate u,rfl⟩
    · exact ⟨.keyUpdate u,rfl⟩

/-! Which messages can be written at all: an MLS message must have an encoding, and an epoch must
be a `u64`. -/

def HandshakePayloadOut.mlsMessage : HandshakePayloadOut M → M.Message
  | .clientHello hello => hello.keyPackage
  | .resumption r => r.commit

def SignalingMessageOut.Representable : SignalingMessageOut M → Prop
  | .connectionUpdate update => ∃ e, M.wire.enc update.mlsCommit = some e
  | .connectionConfirmation confirmation => confirmation.epoch < u64Size
  | .epochKeyUpdate update => update.epoch < u64Size
  | .keyUpdate _ => True

lemma MlsTlsHandshakeOut.wire_enc_some (h : MlsTlsHandshakeOut M) :
    (∃ e, (MlsTlsHandshakeOut.wire M).enc h = some e) ↔
      ∃ e, M.wire.enc h.payload.mlsMessage = some e := by
  obtain ⟨⟨⟩,⟨⟨m⟩⟩ | ⟨⟨m⟩⟩⟩ := h <;>
    cases hm : M.wire.enc m <;>
    simp [MlsTlsHandshakeOut.wire,ProtocolVersion.wire,HandshakePayloadOut.wire,ResumptionOut.wire,
      ClientHelloOut.wire,HandshakePayloadOut.mlsMessage,Wire.iso,Wire.seq,Wire.enum,Wire.encVariant,
      Wire.unit,Wire.word,hm]

lemma EpochKeyUpdate.wire_enc_some (u : EpochKeyUpdate) :
    (∃ e, EpochKeyUpdate.wire.enc u = some e) ↔ u.epoch < u64Size := by
  constructor
  · rintro ⟨e,he⟩
    by_contra hn
    rw [u64Size] at hn
    simp [EpochKeyUpdate.wire,Wire.iso,Wire.word] at he
    omega
  · exact EpochKeyUpdate.wire_enc

lemma SignalingMessageOut.wire_enc_some (m : SignalingMessageOut M) :
    (∃ e, (SignalingMessageOut.wire M).enc m = some e) ↔ m.Representable := by
  cases m with
  | connectionUpdate update =>
    refine ⟨?_,connectionUpdate_enc update.updateRequested⟩
    rintro ⟨e,he⟩
    cases hm : M.wire.enc update.mlsCommit with
    | some x => exact ⟨x,hm⟩
    | none =>
      simp [SignalingMessageOut.wire,ConnectionUpdateOut.wire,Wire.enum,Wire.encVariant,Wire.iso,
        Wire.seq,hm] at he
  | connectionConfirmation confirmation =>
    refine ⟨?_,connectionConfirmation_enc⟩
    rintro ⟨e,he⟩
    rw [Representable,← EpochKeyUpdate.wire_enc_some]
    cases hm : EpochKeyUpdate.wire.enc confirmation with
    | some x => exact ⟨x,rfl⟩
    | none => simp [SignalingMessageOut.wire,Wire.enum,Wire.encVariant,hm] at he
  | epochKeyUpdate update =>
    refine ⟨?_,epochKeyUpdate_enc⟩
    rintro ⟨e,he⟩
    rw [Representable,← EpochKeyUpdate.wire_enc_some]
    cases hm : EpochKeyUpdate.wire.enc update with
    | some x => exact ⟨x,rfl⟩
    | none => simp [SignalingMessageOut.wire,Wire.enum,Wire.encVariant,hm] at he
  | keyUpdate update =>
    obtain ⟨⟨⟩⟩ := update
    · exact ⟨fun _ => trivial,fun _ => ⟨_,rfl⟩⟩
    · exact ⟨fun _ => trivial,fun _ => ⟨_,rfl⟩⟩

/-- Every message that can be written is read back as itself, every accepted byte string is the
encoding of what it is read as, no two messages are written alike, and nothing may follow one. -/
theorem wire_types_agree (hM : M.wire.Lawful) :
    Wire.Twins (MlsTlsHandshakeOut.wire M) (MlsTlsHandshakeIn.wire M) MlsTlsHandshakeOut.toIn ∧
    Wire.Twins (ServerHelloOut.wire M) (ServerHelloIn.wire M) ServerHelloOut.toIn ∧
    Wire.Twins (SignalingMessageOut.wire M) (SignalingMessageIn.wire M) SignalingMessageOut.toIn ∧
    (∀ h : MlsTlsHandshakeOut M, (∃ e, (MlsTlsHandshakeOut.wire M).enc h = some e) ↔
      ∃ e, M.wire.enc h.payload.mlsMessage = some e) ∧
    (∀ h : ServerHelloOut M, (∃ e, (ServerHelloOut.wire M).enc h = some e) ↔
      ∃ e, M.wire.enc h.welcome = some e) ∧
    ∀ m : SignalingMessageOut M, (∃ e, (SignalingMessageOut.wire M).enc m = some e) ↔
      m.Representable :=
  ⟨Wire.twins (MlsTlsHandshakeIn.wire_lawful hM) MlsTlsHandshakeOut.toIn_bijective
      MlsTlsHandshakeOut.wire_enc,
    Wire.twins (ServerHelloIn.wire_lawful hM) ServerHelloOut.toIn_bijective ServerHelloOut.wire_enc,
    Wire.twins (SignalingMessageIn.wire_lawful hM) SignalingMessageOut.toIn_bijective
      SignalingMessageOut.wire_enc,
    MlsTlsHandshakeOut.wire_enc_some,fun _ => Iff.rfl,SignalingMessageOut.wire_enc_some⟩

/-- An epoch message of the largest epoch, as the sample library reads it. -/
theorem wire_types_agree_sample : ∃ e,
    (SignalingMessageOut.wire sampleMls).enc (.epochKeyUpdate ⟨u64Size-1⟩) = some e ∧
    (SignalingMessageIn.wire sampleMls).decExact e = some (.epochKeyUpdate ⟨u64Size-1⟩) := by
  obtain ⟨-,-,htwins,-,-,henc⟩ := wire_types_agree (M := sampleMls) Sample.messageWire_lawful
  obtain ⟨e,he⟩ := (henc (.epochKeyUpdate ⟨u64Size-1⟩)).mpr (by
    change u64Size-1 < u64Size
    decide)
  exact ⟨e,he,htwins.reads he⟩

end
end MlsTls.MlsHandshake
