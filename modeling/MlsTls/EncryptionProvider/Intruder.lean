import MlsTls.EncryptionProvider.Delivery
import MlsTls.EncryptionProvider.Settling
import MlsTls.Lib.Noninterference
import MlsTls.TlsAead.ChannelNonces

/-! A connection under attack. The attacker has the network: each side is handed any bytes at any time,
and what it sends may never arrive. The attacker cannot forge, so a record that opens is one that was
sealed. Whatever is done, both sides could be where they are on a network that only delays, and so
their users see the payloads in order, without gaps and up to some point. -/
set_option linter.dupNamespace false

namespace MlsTls.TlsAead.ProtectedChannels
open Lib TlsAeadCodec
variable {C : Crypto}

/-- The channels differ in nothing but what is on its way to them and from them. -/
structure Alike (s t : ProtectedChannels) : Prop where
  cipher : s.cipher = t.cipher
  poisoned : s.poisoned = t.poisoned
  buffer : s.buffer = t.buffer
  sent : s.sent = t.sent

lemma tryEmptyBuffer_respects : Exec.Respects Alike tryEmptyBuffer :=
  .modify fun _ _ h => ⟨h.cipher,h.poisoned,rfl,h.sent⟩

lemma startSend_respects (item : Bytes) : Exec.Respects Alike (startSend C item) := by
  intro s t h
  simp only [startSend,h.cipher,h.poisoned,h.buffer,h.sent]
  split_ifs
  · exact ⟨rfl,h⟩
  · rcases (encrypt C item).run (t.cipher,t.buffer) with ⟨(e | _) | a,c,b⟩
    all_goals exact ⟨rfl,rfl,rfl,rfl,rfl⟩

lemma send_respects (item : Bytes) : Exec.Respects Alike (send C item) :=
  .bind tryEmptyBuffer_respects fun _ => .bind (startSend_respects item) fun _ =>
    tryEmptyBuffer_respects

lemma lock_respects {α : Type} (x : Exec TlsAeadCodec TlsAeadCodecError α) :
    Exec.Respects Alike (lock x) := by
  intro s t h
  simp only [lock,h.cipher,h.poisoned]
  split_ifs
  · exact ⟨rfl,h⟩
  · rcases x.run t.cipher with ⟨(e | _) | a,c⟩
    all_goals exact ⟨rfl,rfl,rfl,h.buffer,h.sent⟩

/-- Every record was sealed together with its header. -/
def Headed (s : ProtectedChannels) : Prop :=
  ∀ r ∈ s.sent, r.record.associatedData = TlsFrameCodec.header r.record.ciphertext.length

lemma startSend_headed (hC : C.Lawful) (item : Bytes) :
    Exec.Keeps Headed (startSend C item) fun _ => True := by
  intro s h
  have hall : ∀ r ∈ s.sent++sentRecords C (chunks s.cipher.maxFrameSize item) s.cipher,
      r.record.associatedData = TlsFrameCodec.header r.record.ciphertext.length := by
    intro r hr
    rcases List.mem_append.mp hr with hr | hr
    · exact h r hr
    · obtain ⟨i,hi⟩ := List.getElem?_of_mem hr
      obtain ⟨chunk,hseal⟩ := sealedRecords_getElem? (sentRecords_getElem? hi)
      exact sealChunk_header hC hseal
  simp only [startSend]
  split_ifs
  · exact h
  · rcases (encrypt C item).run (s.cipher,s.buffer) with ⟨(e | _) | a,c,b⟩
    · exact hall
    · exact hall
    · exact ⟨hall,trivial⟩

lemma send_headed (hC : C.Lawful) (item : Bytes) :
    Exec.Keeps Headed (send C item) fun _ => True := by
  have hempty : Exec.Keeps Headed tryEmptyBuffer fun _ => True := .modify fun _ h => h
  exact .bind hempty fun _ _ => .bind (startSend_headed hC item) fun _ _ => hempty

lemma lock_headed {α : Type} (x : Exec TlsAeadCodec TlsAeadCodecError α) :
    Exec.Keeps Headed (lock x) fun _ => True := lock_keeps x fun _ _ _ h => h

lemma next_headed : Exec.Keeps Headed (next C) fun _ => True := by
  refine .bind .get fun s _ => ?_
  split
  · exact .pure trivial
  · exact .bind (.modify fun _ h => h) fun _ _ => .bind (.modify fun _ h => h) fun _ _ =>
      .bind (lock_headed _) fun _ _ => .pure trivial

end MlsTls.TlsAead.ProtectedChannels

namespace MlsTls.EncryptionProvider
open Lib TlsAead MlsHandshake TlsAeadCodec PreHandshake

section
variable {C : Crypto} {E : Type}

/-- What is known of all records that a side has sent. -/
structure Logged (C : Crypto) (s : ProtectedChannels) : Prop where
  confined : s.Confined C keyScheduleHashFunction aeadAlgorithm fun _ => True
  headed : s.Headed

lemma Logged.congr {s t : ProtectedChannels} (h : Logged C s) (hst : s.Alike t) : Logged C t := by
  obtain ⟨⟨hhash,hcipher,hkeys,hallowed,hseq,hlen,hrecords⟩,hheaded⟩ := h
  rw [hst.cipher] at hhash hcipher hkeys hseq
  rw [hst.sent] at hseq hlen hrecords
  rw [hst.poisoned] at hseq
  refine ⟨⟨hhash,hcipher,hkeys,trivial,hseq,hlen,hrecords⟩,?_⟩
  unfold ProtectedChannels.Headed
  rw [← hst.sent]
  exact hheaded

lemma keeps_logged {ε α : Type} {x : Exec ProtectedChannels ε α} {Q Q' : α → Prop}
    (hconfined : Exec.Keeps
      (ProtectedChannels.Confined C keyScheduleHashFunction aeadAlgorithm fun _ => True) x Q)
    (hheaded : Exec.Keeps ProtectedChannels.Headed x Q') :
    Exec.Keeps (Logged C) x fun _ => True := by
  intro s h
  have h₁ := hconfined s h.confined
  have h₂ := hheaded s h.headed
  rcases hr : x.run s with ⟨r,s'⟩
  rw [hr] at h₁ h₂
  cases r with
  | ok a => exact ⟨⟨h₁.1,h₂.1⟩,trivial⟩
  | error e => exact ⟨h₁,h₂⟩

variable (hC : C.Lawful)

include hC in
lemma send_logged (item : Bytes) :
    Exec.Keeps (Logged C) (ProtectedChannels.send C item) fun _ => True :=
  keeps_logged (ProtectedChannels.send_confined item) (ProtectedChannels.send_headed hC item)

lemma next_logged : Exec.Keeps (Logged C) (ProtectedChannels.next C) fun _ => True :=
  keeps_logged ProtectedChannels.next_confined ProtectedChannels.next_headed

lemma updateTrafficSecrets_logged (update : SecretUpdate) (isServer : Bool) :
    Exec.Keeps (Logged C) (TlsAead.ProtectedChannels.updateTrafficSecrets C update isServer)
      fun _ => True :=
  keeps_logged (ProtectedChannels.updateTrafficSecrets_confined fun _ => trivial)
    (ProtectedChannels.lock_headed _)

include hC in
lemma sendPlaintext_logged (item : InnerPlaintext) :
    Exec.Keeps (Logged C)
      (ProtectedChannels.sendPlaintext C item : ProtectedChannels.ProviderCall E Unit)
      fun _ => True :=
  .bind .orThrow fun bytes _ => (send_logged hC bytes).mapError

lemma nextPlaintext_logged :
    Exec.Keeps (Logged C) (ProtectedChannels.nextPlaintext C : ProtectedChannels.ProviderCall E _)
      fun _ => True := by
  refine .bind next_logged.mapError fun packet _ => ?_
  cases packet with
  | none => exact .pure trivial
  | some packet => exact .bind .orThrow fun _ _ => .pure trivial

lemma updateCipher_logged (update : SecretUpdate) (isServer : Bool) :
    Exec.Keeps (Logged C)
      (ProtectedChannels.updateCipher C isServer update : ProtectedChannels.ProviderCall E Unit)
      fun _ => True :=
  have hupdate := updateTrafficSecrets_logged update isServer
  .bind hupdate.mapError fun _ _ => hupdate.mapError

lemma sendPlaintext_respects (item : InnerPlaintext) :
    Exec.Respects ProtectedChannels.Alike
      (ProtectedChannels.sendPlaintext C item : ProtectedChannels.ProviderCall E Unit) :=
  .bind .orThrow fun bytes => (ProtectedChannels.send_respects bytes).mapError

lemma updateCipher_respects (update : SecretUpdate) (isServer : Bool) :
    Exec.Respects ProtectedChannels.Alike
      (ProtectedChannels.updateCipher C isServer update : ProtectedChannels.ProviderCall E Unit) :=
  .bind (ProtectedChannels.lock_respects _).mapError fun _ =>
    (ProtectedChannels.lock_respects _).mapError

end

variable {M : OpenMls} {V : Environment M} {isServer : Bool}

namespace EncryptionProvider
variable {p q : EncryptionProvider M V.chrono} {α : Type}

structure Alike (p q : EncryptionProvider M V.chrono) : Prop where
  handshake : p.handshake = q.handshake
  updatePolicy : p.updatePolicy = q.updatePolicy
  channels : p.channels.Alike q.channels

lemma onHandshake_respects (x : MlsHandshake.Call M α) :
    Exec.Respects Alike (onHandshake (V := V) x) := by
  have hsame : Exec.Respects Eq x := fun s t h => by
    rw [h]
    exact ⟨rfl,rfl⟩
  refine .zoom ?_ ?_ hsame
  · intro p q h
    exact h.handshake
  · intro p q a b h hab
    exact ⟨hab,h.updatePolicy,h.channels⟩

lemma onChannels_respects {x : ProtectedChannels.ProviderCall M.Error α}
    (h : Exec.Respects ProtectedChannels.Alike x) : Exec.Respects Alike (onChannels (V := V) x) :=
  .zoom (fun _ _ h => h.channels) (fun _ _ _ _ h hab => ⟨h.handshake,h.updatePolicy,hab⟩) h

lemma answer_respects (secretUpdate : Option SecretUpdate) (response : Option Bytes) :
    Exec.Respects Alike (answer V isServer secretUpdate response) := by
  have hswitch : Exec.Respects Alike (answer V isServer secretUpdate none) := by
    cases secretUpdate with
    | none => exact .pure
    | some update => exact onChannels_respects (updateCipher_respects update isServer)
  cases response with
  | none => exact hswitch
  | some message => exact .bind (onChannels_respects (sendPlaintext_respects _)) fun _ => hswitch

lemma processReadMessage_respects (isServer : Bool) (message : InnerPlaintext) (seed : ℕ) :
    Exec.Respects Alike (processReadMessage V isServer message seed) := by
  cases message with
  | application b => exact .pure
  | signaling b =>
    exact .bind (onHandshake_respects _).mapError fun r => .bind (answer_respects r.1 r.2) fun _ =>
      .pure

lemma setPolicy_respects (policy : UpdatePolicy V.chrono) :
    Exec.Respects Alike (setPolicy policy : Call V Unit) :=
  .modify fun _ _ h => ⟨h.handshake,rfl,h.channels⟩

lemma sendUpdate_respects (now : V.chrono.DateTime) (seed : ℕ) :
    Exec.Respects Alike (sendUpdate V isServer now seed) := by
  refine .bind (onHandshake_respects _).attempt fun r => ?_
  split
  · refine .bind (answer_respects _ _) fun _ => .get_bind (fun p q h => ?_) fun p => ?_
    · rw [h.updatePolicy]
    · exact setPolicy_respects _
  · exact .pure
  · exact .throw

lemma sendApplication_respects (bytes : Bytes) :
    Exec.Respects Alike (sendApplication V bytes) := by
  refine .bind (onChannels_respects (sendPlaintext_respects _)).attempt fun r => ?_
  refine .get_bind (fun p q h => ?_) fun p => ?_
  · rw [h.updatePolicy]
  · split
    · exact .panic
    · exact .bind (setPolicy_respects _) fun _ => .lift

lemma sendBytes_respects (isServer : Bool) (bytes : Bytes) (now : V.chrono.DateTime) (seed : ℕ) :
    Exec.Respects Alike (sendBytes V isServer bytes now seed) := by
  refine .get_bind (fun p q h => ?_) fun p => ?_
  · rw [h.updatePolicy]
  · split
    · exact .panic
    · split_ifs
      · exact .bind (sendUpdate_respects now seed) fun _ => sendApplication_respects bytes
      · exact sendApplication_respects bytes

section
variable {K : ProtectedChannels → Prop}

lemma onChannels_logged {x : ProtectedChannels.ProviderCall M.Error α}
    (h : Exec.Keeps K x fun _ => True) :
    Exec.Keeps (fun p : EncryptionProvider M V.chrono => K p.channels) (onChannels x)
      fun _ => True :=
  .zoom _ _ (fun _ _ => rfl) h

lemma onHandshake_logged (x : MlsHandshake.Call M α) :
    Exec.Keeps (fun p : EncryptionProvider M V.chrono => K p.channels) (onHandshake x)
      fun _ => True :=
  .elsewhere fun _ _ h => h

end

section
variable (hC : V.crypto.Lawful)
include hC

lemma answer_logged (secretUpdate : Option SecretUpdate) (response : Option Bytes) :
    Exec.Keeps (fun p => Logged V.crypto p.channels) (answer V isServer secretUpdate response)
      fun _ => True :=
  answer_keeps V isServer (fun _ => onChannels_logged (sendPlaintext_logged hC _))
    (fun _ => onChannels_logged (updateCipher_logged _ _)) secretUpdate response

lemma processReadMessage_logged (message : InnerPlaintext) (seed : ℕ) :
    Exec.Keeps (fun p => Logged V.crypto p.channels) (processReadMessage V isServer message seed)
      fun _ => True := by
  cases message with
  | application b => exact .pure trivial
  | signaling b =>
    exact .bind (onHandshake_logged _).mapError fun r _ => .bind (answer_logged hC r.1 r.2)
      fun _ _ => .pure trivial

lemma sendBytes_logged (bytes : Bytes) (now : V.chrono.DateTime) (seed : ℕ) :
    Exec.Keeps (fun p => Logged V.crypto p.channels) (sendBytes V isServer bytes now seed)
      fun _ => True := by
  refine sendBytes_keeps V isServer (Q := fun _ => True) ?_ ?_ (onHandshake_logged _) ?_ bytes now
  · exact fun message => onChannels_logged (sendPlaintext_logged hC message)
  · exact fun policy => .modify fun _ h => h
  · exact fun r _ => answer_logged hC r.1 _

end

lemma Alike.signalRoom (h : p.Alike q) {message : Bytes} {n : ℕ} :
    p.SignalRoom message n ↔ q.SignalRoom message n := by
  unfold SignalRoom
  rw [h.channels.cipher]

lemma Alike.sendRoom (h : p.Alike q) {bytes : Bytes} {now : V.chrono.DateTime} {seed : ℕ} :
    p.SendRoom bytes now seed ↔ q.SendRoom bytes now seed := by
  simp only [SendRoom,UpdateRoom,h.signalRoom,h.channels.cipher,h.handshake,h.updatePolicy]

lemma Alike.processRoom (h : p.Alike q) {message : InnerPlaintext} {seed : ℕ} :
    p.ProcessRoom message seed ↔ q.ProcessRoom message seed := by
  cases message with
  | application b => rfl
  | signaling b => simp only [ProcessRoom,h.signalRoom,h.handshake]

end EncryptionProvider

section
variable {C : Crypto} (hC : C.Lawful)
include hC

lemma KeyedBy.recv_expanded {t : TrafficSecrets} {c : TlsAeadCodec} (h : KeyedBy C isServer t c) :
    C.Expanded keyScheduleHashFunction aeadAlgorithm c.recvKey c.recvIv := by
  obtain ⟨hclient,-⟩ := expandClientSecret_ok hC h.usable.client
  obtain ⟨hserver,-⟩ := expandServerSecret_ok hC h.usable.server
  have hrecv := h.recv
  cases isServer with
  | true =>
    change _ = clientKeys C t.clientSecret at hrecv
    rw [← hrecv] at hclient
    exact ⟨[],Or.inl ⟨_,hclient⟩⟩
  | false =>
    change _ = serverKeys C t.serverSecret at hrecv
    rw [← hrecv] at hserver
    exact ⟨[],Or.inr ⟨_,hserver⟩⟩

variable {marked : InnerPlaintext → Bool} {s t o : ProtectedChannels}
  {pending : List InnerPlaintext}

lemma Link.sealed_next (h : Link C marked (outbound o) (inbound t) none pending) (ho : Logged C o)
    (hclean : o.poisoned = false)
    (hkeys : C.KeysDetermineIvs keyScheduleHashFunction aeadAlgorithm)
    (hexpanded : C.Expanded keyScheduleHashFunction aeadAlgorithm t.cipher.recvKey t.cipher.recvIv)
    {r : SentRecord} (hr : r ∈ o.sent) (hkey : r.record.key = t.cipher.recvKey)
    (hnonce : r.record.nonce = nonceOf t.cipher.recvIv t.cipher.recvSeq) :
    t.cipher.recvSeq+1 < u64Size ∧ ∃ m, pending.head? = some m ∧
      valueOf C ⟨t.cipher.recvKey,t.cipher.recvIv,t.cipher.recvSeq,r.record.ciphertext⟩ = some m := by
  obtain ⟨xs,hp,-,hlog,hseq,hf⟩ := h.items
  obtain ⟨hcount,hroom⟩ := ho.confined.seq hclean
  obtain ⟨i,hi⟩ := List.getElem?_of_mem hr
  obtain ⟨-,iv,hiv,hlen,hstamp⟩ := ho.confined.records hi
  have hlt : i < o.sent.length := (List.getElem?_eq_some_iff.mp hi).1
  simp only [outbound,inbound] at hlog hseq
  -- keys determine their IVs, so the number in the nonce is the position of the record
  rw [hkey] at hiv
  obtain rfl := hkeys hiv hexpanded
  have hposition : i = t.cipher.recvSeq :=
    nonceOf_injective hlen (by omega) (by omega) (hstamp.symm.trans hnonce)
  have hsizes := congrArg List.length hlog
  simp only [List.length_map,List.length_append] at hsizes
  cases xs with
  | nil =>
    rw [List.length_nil] at hseq
    omega
  | cons x xs =>
    have huse : r.use = x.2.use := by
      have hmapped := congrArg (·[i]?) hlog
      have hread : t.received.length = i := by omega
      rw [List.getElem?_map,hi,List.map_cons,List.getElem?_append_right hread.le,hread,
        Nat.sub_self] at hmapped
      exact Option.some.inj hmapped
    obtain ⟨hunder,-⟩ := hf
    have hvalue := valueOf_under hC hunder
    obtain ⟨a,e,-,-,-,-,-,-,-,hxiv,hxseq⟩ := hunder
    rw [List.length_cons] at hseq
    refine ⟨by omega,x.1,by rw [hp]; rfl,?_⟩
    rw [← huse] at hvalue
    rw [← hvalue]
    have hrest := RecordUse.mk.inj huse
    simp only [SentRecord.use,hkey,hrest.2.1,hrest.2.2.1,hxiv,hxseq]
    rfl

end

section
variable {C : Crypto} {E : Type} {s : ProtectedChannels} {packet : TlsPacketIn} {rest : Bytes}
  (hs : s.poisoned = false) (hiv : s.cipher.recvIv.length = tls13IvSize)
  (hd : TlsFrameCodec.decode s.incoming = some (packet,rest))
include hs hiv hd

lemma nextPlaintext_rejected {e : CryptoError}
    (h : C.aeadDecrypt s.cipher.cipher s.cipher.recvKey packet.data
      (nonceOf s.cipher.recvIv s.cipher.recvSeq) packet.header = .error e) :
    (ProtectedChannels.nextPlaintext C : ProtectedChannels.ProviderCall E _).run s =
      (.error (.error (.tlsTransportError (.encryptionFailed (.cryptoError e)))),
        { s with
          incoming := rest
          received := s.received++
            [⟨s.cipher.recvKey,s.cipher.recvIv,s.cipher.recvSeq,packet.data⟩] }) := by
  simp [ProtectedChannels.nextPlaintext,ProtectedChannels.next,Exec.bind_run,Exec.mapError,hd,
    ProtectedChannels.logReceived,ProtectedChannels.lock,hs,TlsAeadCodec.decrypt,makeIv_ok hiv,h]

lemma nextPlaintext_opened {plaintext tail : Bytes} {m : InnerPlaintext}
    (h : C.aeadDecrypt s.cipher.cipher s.cipher.recvKey packet.data
      (nonceOf s.cipher.recvIv s.cipher.recvSeq) packet.header = .ok plaintext)
    (hne : plaintext ≠ []) (hseq : s.cipher.recvSeq+1 < u64Size)
    (hdec : InnerPlaintext.wire.dec plaintext.dropLast = some (m,tail)) :
    (ProtectedChannels.nextPlaintext C : ProtectedChannels.ProviderCall E _).run s =
      (.ok (some m),s.afterNext rest packet) := by
  simp [ProtectedChannels.nextPlaintext,ProtectedChannels.next,Exec.bind_run,Exec.mapError,hd,
    ProtectedChannels.logReceived,ProtectedChannels.lock,hs,TlsAeadCodec.decrypt,makeIv_ok hiv,h,
    hne,hseq,hdec,ProtectedChannels.afterNext]

end

/-- If the first frame that has arrived opens, then one side has sealed it. The side `s` reads, and
does not send under the key that it reads with. -/
structure Authentic (C : Crypto) (s o : ProtectedChannels) : Prop where
  sealed : ∀ packet rest plaintext, TlsFrameCodec.decode s.incoming = some (packet,rest) →
    C.aeadDecrypt s.cipher.cipher s.cipher.recvKey packet.data
      (nonceOf s.cipher.recvIv s.cipher.recvSeq) packet.header = .ok plaintext →
    ∃ r ∈ s.sent++o.sent, r.record = ⟨s.cipher.cipher,s.cipher.recvKey,plaintext,
      nonceOf s.cipher.recvIv s.cipher.recvSeq,packet.header,packet.data⟩
  apart : ∀ r ∈ s.sent, r.record.key ≠ s.cipher.recvKey

lemma Authentic.congr {C : Crypto} {s o o' : ProtectedChannels} (h : Authentic C s o)
    (ho : o.Alike o') : Authentic C s o' := by
  refine ⟨?_,h.apart⟩
  rw [← ho.sent]
  exact h.sealed

instance (C : Crypto) (s o : ProtectedChannels) : Decidable (Authentic C s o) :=
  decidable_of_iff ((match TlsFrameCodec.decode s.incoming with
    | none => true
    | some (packet,_) => match C.aeadDecrypt s.cipher.cipher s.cipher.recvKey packet.data
        (nonceOf s.cipher.recvIv s.cipher.recvSeq) packet.header with
      | .error _ => true
      | .ok plaintext => decide (∃ r ∈ s.sent++o.sent, r.record = ⟨s.cipher.cipher,
          s.cipher.recvKey,plaintext,nonceOf s.cipher.recvIv s.cipher.recvSeq,packet.header,
          packet.data⟩)) = true ∧ ∀ r ∈ s.sent, r.record.key ≠ s.cipher.recvKey) (by
    refine Iff.trans (and_congr_left fun _ => ?_) ⟨fun h => ⟨h.1,h.2⟩,fun h => ⟨h.sealed,h.apart⟩⟩
    cases TlsFrameCodec.decode s.incoming with
    | none => simp
    | some q =>
      obtain ⟨packet,rest⟩ := q
      cases hopen : C.aeadDecrypt s.cipher.cipher s.cipher.recvKey packet.data
          (nonceOf s.cipher.recvIv s.cipher.recvSeq) packet.header with
      | error e =>
        simp only [hopen]
        refine iff_of_true trivial ?_
        rintro _ _ plaintext ⟨⟩ h
        rw [hopen] at h
        simp at h
      | ok plaintext =>
        simp only [hopen]
        refine decide_eq_true_iff.trans ⟨?_,fun h => h packet rest plaintext rfl hopen⟩
        rintro hsealed _ _ plaintext' ⟨⟩ h
        rw [hopen] at h
        obtain rfl := Except.ok.inj h
        exact hsealed)

lemma Link.intercept {C : Crypto} (hC : C.Lawful) {marked : InnerPlaintext → Bool}
    {s t o : ProtectedChannels} {pending : List InnerPlaintext} (E : Type)
    (h : Link C marked (outbound o) (inbound t) none pending) (ho : Logged C o)
    (hclean : o.poisoned = false)
    (hkeys : C.KeysDetermineIvs keyScheduleHashFunction aeadAlgorithm) {u : TrafficSecrets}
    (ht : KeyedBy C isServer u t.cipher) (hpoisoned : t.poisoned = false) (hst : s.Alike t)
    (hauthentic : Authentic C s o) :
    (∃ r s', (ProtectedChannels.nextPlaintext C : ProtectedChannels.ProviderCall E _).run s =
        (r,s') ∧ s'.Alike t ∧ (r = .ok none ∨ ∃ e, r = .error (.error e))) ∨
      ∃ m s', (ProtectedChannels.nextPlaintext C : ProtectedChannels.ProviderCall E _).run s =
        (.ok (some m),s') ∧ pending.head? = some m ∧
        s'.Alike { t with cipher := t.cipher.bumpRecv } := by
  -- a reader that is handed anything opens nothing but the first value that is on its way
  have hiv : s.cipher.recvIv.length = tls13IvSize := by
    rw [hst.cipher]
    exact (ht.wellKeyed hC).recvIv_length
  have hs : s.poisoned = false := hst.poisoned.trans hpoisoned
  cases hd : TlsFrameCodec.decode s.incoming with
  | none =>
    refine Or.inl ⟨_,s,?_,hst,Or.inl rfl⟩
    simp [ProtectedChannels.nextPlaintext,Exec.bind_run,Exec.mapError,
      ProtectedChannels.next_pending C hd]
  | some q =>
    obtain ⟨packet,rest⟩ := q
    cases hopen : C.aeadDecrypt s.cipher.cipher s.cipher.recvKey packet.data
        (nonceOf s.cipher.recvIv s.cipher.recvSeq) packet.header with
    | error e =>
      exact Or.inl ⟨_,_,nextPlaintext_rejected hs hiv hd hopen,
        ⟨hst.cipher,hst.poisoned,hst.buffer,hst.sent⟩,Or.inr ⟨_,rfl⟩⟩
    | ok plaintext =>
      obtain ⟨r,hr,hrecord⟩ := hauthentic.sealed packet rest plaintext hd hopen
      have hmine : r ∉ s.sent := fun hmem => hauthentic.apart r hmem (by rw [hrecord])
      have hpeer : r ∈ o.sent := (List.mem_append.mp hr).resolve_left hmine
      obtain ⟨hseq,m,hm,hvalue⟩ := h.sealed_next hC ho hclean hkeys (ht.recv_expanded hC) hpeer
        (by rw [hrecord,hst.cipher]) (by rw [hrecord,hst.cipher])
      have hheader : packet.header = TlsFrameCodec.header packet.data.length := by
        have hheaded := ho.headed r hpeer
        rw [hrecord] at hheaded
        exact hheaded
      rw [hrecord] at hvalue
      have hsame := hopen
      rw [hst.cipher,ht.cipher,hheader] at hsame
      simp only [valueOf,hsame,Option.map_eq_some_iff] at hvalue
      obtain ⟨⟨m',tail⟩,hdec,rfl⟩ := hvalue
      have hne : plaintext ≠ [] := by
        rintro rfl
        have hnone : InnerPlaintext.wire.dec [] = none := rfl
        rw [List.dropLast_nil,hnone] at hdec
        simp at hdec
      refine Or.inr ⟨_,_,nextPlaintext_opened hs hiv hd hopen hne ?_ hdec,hm,?_⟩
      · rw [hst.cipher]
        exact hseq
      · refine ⟨?_,hst.poisoned,hst.buffer,hst.sent⟩
        exact congrArg TlsAeadCodec.bumpRecv hst.cipher

/-- A step under attack: a call of a side, or bytes that the attacker hands to it. -/
inductive Attack (V : Environment M)
  | call (op : Operation V)
  | deliver (bytes : Bytes)

namespace Duplex

def attack : Bool × Attack V → Duplex V → Duplex V
  | (isServer,.call op),d => d.step (isServer,op)
  | (isServer,.deliver bytes),d => d.set isServer
    { d.side isServer with
      provider.channels := ProtectedChannels.arrive bytes (d.side isServer).channels } d.clock

/-- Calls are made as on any connection, and what opens is authentic. Reading is by `read_message`
and `process_read_message`, which `read_bytes` calls in turn. -/
def Withstands : Bool × Attack V → Duplex V → Prop
  | (isServer,.call .readMessage),d => d.Room (isServer,.readMessage) ∧
    Authentic V.crypto (d.side isServer).channels (d.side !isServer).channels
  | (_,.call (.readBytes _)),_ => False
  | (isServer,.call op),d => d.Room (isServer,op)
  | (_,.deliver _),_ => True

instance (e : Bool × Attack V) (d : Duplex V) : Decidable (d.Withstands e) :=
  match e with
  | (b,.call (.sendBytes bytes now)) => inferInstanceAs (Decidable (d.Room (b,.sendBytes bytes now)))
  | (_,.call .readMessage) => inferInstanceAs (Decidable (_ ∧ _))
  | (b,.call .processReadMessage) => inferInstanceAs (Decidable (d.Room (b,.processReadMessage)))
  | (_,.call (.readBytes _)) => isFalse id
  | (_,.call (.arrive _)) => isTrue trivial
  | (_,.deliver _) => isTrue trivial

/-- What the users see of a step. -/
def overt : Bool × Attack V → Duplex V → List (QueueAction Bool Bytes)
  | (isServer,.call op),d => d.visible (isServer,op)
  | (_,.deliver _),_ => []

/-- The two connections differ in nothing but what is on its way. -/
structure Alike (d d' : Duplex V) : Prop where
  clock : d.clock = d'.clock
  unprocessed : ∀ b, (d.side b).unprocessed = (d'.side b).unprocessed
  provider : ∀ b, (d.side b).provider.Alike (d'.side b).provider

variable {d d' : Duplex V}

lemma Alike.refl (d : Duplex V) : d.Alike d := ⟨rfl,fun _ => rfl,fun _ => ⟨rfl,rfl,rfl,rfl,rfl,rfl⟩⟩

lemma Alike.set (h : d.Alike d') (isServer : Bool) {e e' : Endpoint V}
    (hslot : e.unprocessed = e'.unprocessed) (hprovider : e.provider.Alike e'.provider) (clock : ℕ) :
    (d.set isServer e clock).Alike (d'.set isServer e' clock) := by
  refine ⟨rfl,fun b => ?_,fun b => ?_⟩
  · by_cases hb : b = isServer
    · rw [hb,set_side,set_side]
      exact hslot
    · rw [Bool.eq_not_of_ne hb,set_side_not,set_side_not]
      exact h.unprocessed _
  · by_cases hb : b = isServer
    · rw [hb,set_side,set_side]
      exact hprovider
    · rw [Bool.eq_not_of_ne hb,set_side_not,set_side_not]
      exact h.provider _

lemma Alike.set_left (h : d.Alike d') (isServer : Bool) {e : Endpoint V}
    (hslot : e.unprocessed = (d'.side isServer).unprocessed)
    (hprovider : e.provider.Alike (d'.side isServer).provider) :
    (d.set isServer e d.clock).Alike d' := by
  have hset := h.set isServer hslot hprovider d'.clock
  rw [set_self] at hset
  rw [h.clock]
  exact hset

lemma Alike.sendBytes (h : d.Alike d') (isServer : Bool) (bytes : Bytes)
    (now : V.chrono.DateTime) :
    (d.exec isServer (.sendBytes bytes now)).1 = (d'.exec isServer (.sendBytes bytes now)).1 ∧
      (d.step (isServer,.sendBytes bytes now)).Alike (d'.step (isServer,.sendBytes bytes now)) := by
  obtain ⟨hresult,hstate⟩ := EncryptionProvider.sendBytes_respects isServer bytes now d.clock
    _ _ (h.provider isServer)
  simp only [step,Duplex.exec,← h.clock]
  refine ⟨congrArg (Except.map fun _ => none) hresult,?_⟩
  refine h.set isServer ?_ ?_ _
  · exact h.unprocessed isServer
  · exact hstate

lemma Alike.processReadMessage (h : d.Alike d') (isServer : Bool) :
    (d.exec isServer .processReadMessage).1 = (d'.exec isServer .processReadMessage).1 ∧
      (d.step (isServer,.processReadMessage)).Alike (d'.step (isServer,.processReadMessage)) := by
  simp only [step,Duplex.exec,← h.unprocessed isServer,← h.clock]
  cases (d.side isServer).unprocessed with
  | none => exact ⟨rfl,h⟩
  | some m =>
    obtain ⟨hresult,hstate⟩ := EncryptionProvider.processReadMessage_respects isServer m
      d.clock _ _ (h.provider isServer)
    refine ⟨hresult,h.set isServer ?_ ?_ _⟩
    · rfl
    · exact hstate

lemma Alike.arrive (h : d.Alike d') (n : ℕ) : (d.arrive isServer n).Alike d' := by
  have hstreams (b : Bool) {c : ProtectedChannels} (hc : c.Alike (d.side b).channels) :
      ({ (d.side b).provider with channels := c } : EncryptionProvider M V.chrono).Alike
        (d'.side b).provider := by
    obtain ⟨hhandshake,hpolicy,hchannels⟩ := h.provider b
    exact ⟨hhandshake,hpolicy,hc.cipher.trans hchannels.cipher,hc.poisoned.trans hchannels.poisoned,
      hc.buffer.trans hchannels.buffer,hc.sent.trans hchannels.sent⟩
  refine Alike.set_left (h.set_left isServer ?_ ?_) (!isServer) ?_ ?_
  · exact h.unprocessed isServer
  · exact hstreams isServer ⟨rfl,rfl,rfl,rfl⟩
  · exact h.unprocessed !isServer
  · exact hstreams (!isServer) ⟨rfl,rfl,rfl,rfl⟩

lemma Alike.symm (h : d.Alike d') : d'.Alike d := by
  refine ⟨h.clock.symm,fun b => (h.unprocessed b).symm,fun b => ?_⟩
  obtain ⟨hhandshake,hpolicy,hchannels⟩ := h.provider b
  exact ⟨hhandshake.symm,hpolicy.symm,hchannels.cipher.symm,hchannels.poisoned.symm,
    hchannels.buffer.symm,hchannels.sent.symm⟩

/-- Every record of either side was sealed as `Logged` says. -/
def AllLogged (d : Duplex V) : Prop := ∀ b, Logged V.crypto (d.side b).channels

lemma AllLogged.set (h : d.AllLogged) {e : Endpoint V} (he : Logged V.crypto e.channels) (clock : ℕ) :
    (d.set isServer e clock).AllLogged := by
  intro b
  by_cases hb : b = isServer
  · rw [hb,set_side]
    exact he
  · rw [Bool.eq_not_of_ne hb,set_side_not]
    exact h _

lemma AllLogged.congr (h : d.AllLogged) (hd : d.Alike d') : d'.AllLogged :=
  fun b => (h b).congr (hd.provider b).channels

section
variable (hC : V.crypto.Lawful)
include hC

lemma AllLogged.step (h : d.AllLogged) (e : Bool × Operation V) : (d.step e).AllLogged := by
  obtain ⟨isServer,op⟩ := e
  have hread : Exec.Keeps (fun p : EncryptionProvider M V.chrono => Logged V.crypto p.channels)
      (EncryptionProvider.readMessage V) fun _ => True :=
    EncryptionProvider.onChannels_logged nextPlaintext_logged
  cases op with
  | sendBytes bytes now =>
    exact h.set ((EncryptionProvider.sendBytes_logged hC bytes now d.clock).snd (h isServer)) _
  | readMessage =>
    have hsnd := hread.snd (h isServer)
    simp only [Duplex.step,Duplex.exec]
    split
    · rename_i hrun
      rw [hrun] at hsnd
      exact h.set hsnd _
    · rename_i hrun
      rw [hrun] at hsnd
      exact h.set hsnd _
  | processReadMessage =>
    simp only [Duplex.step,Duplex.exec]
    split
    · exact h
    · exact h.set ((EncryptionProvider.processReadMessage_logged hC _ _).snd (h isServer)) _
  | readBytes turns =>
    have hturns (turns seed : ℕ) : Exec.Keeps
        (fun p : EncryptionProvider M V.chrono => Logged V.crypto p.channels)
        (EncryptionProvider.readBytesInner V isServer turns seed) fun _ => True := by
      induction turns generalizing seed with
      | zero => exact .pure trivial
      | succ turns ih =>
        rw [EncryptionProvider.readBytesInner_succ]
        refine .bind hread fun message _ => ?_
        cases message with
        | none => exact .pure trivial
        | some message =>
          refine .bind (EncryptionProvider.processReadMessage_logged hC message seed) fun r _ => ?_
          cases r with
          | none => exact ih _
          | some b => exact .pure trivial
    exact h.set ((hturns turns d.clock).snd (h isServer)) _
  | arrive n => exact h.congr ((Alike.refl d).arrive n).symm

end

lemma visible_readMessage (d : Duplex V) (isServer : Bool) :
    d.visible (isServer,.readMessage) = [] := by
  have hnone : d.returned isServer .readMessage = none := by
    simp only [returned,Duplex.exec]
    split
    · rename_i hok
      split at hok
      · exact (Except.ok.inj hok).symm
      · simp at hok
    · rfl
  rw [visible,hnone]
  rfl

lemma visible_arrive (d : Duplex V) (isServer : Bool) (n : ℕ) :
    d.visible (isServer,.arrive n) = [] := rfl

lemma quiet_run {e : Bool × Operation V} (hroom : d.Room e) (hquiet : d.visible e = [])
    (seen : List (QueueAction Bool Bytes)) :
    Run (Run.record step visible) (fun e z => Room e z.1) (d,seen) (d.step e,seen) := by
  have hrun : Run (Run.record step visible) (fun e z => Room e z.1) (d,seen)
      (d.step e,seen++d.visible e) := Run.single e hroom
  rwa [hquiet,List.append_nil] at hrun

/-- The attacked connection and one on a network that only delays, with what the users have seen. -/
structure Followed (T : TwoParty M) (σ : T.Session) (P : Parties M)
    (z w : Duplex V × List (QueueAction Bool Bytes)) : Prop where
  alike : z.1.Alike w.1
  seen : z.2 = w.2
  lockstep : w.1.Lockstep T σ P
  logged : w.1.AllLogged

section
variable {T : TwoParty M} {σ : T.Session} {P : Parties M}
  (hC : V.crypto.Lawful) (hT : T.Lawful) (hP : T.Honest σ P) (hJ : P.serde = V.serde)
  (hkeys : V.crypto.KeysDetermineIvs keyScheduleHashFunction aeadAlgorithm)
include hC hT hP hJ hkeys

omit hT hP hJ in
lemma Lockstep.follow_arrived (halike : d.Alike d') (h : d'.Lockstep T σ P) (hlogged : d'.AllLogged)
    (hslot : (d.side isServer).unprocessed = none)
    (hauthentic : Authentic V.crypto (d.side isServer).channels (d.side !isServer).channels)
    (hout : (d'.side !isServer).channels.outgoing = []) (seen : List (QueueAction Bool Bytes)) :
    ∃ d'', Run (Run.record step visible) (fun e z => Room e z.1) (d',seen) (d'',seen) ∧
      (d.step (isServer,.readMessage)).Alike d'' := by
  obtain ⟨x,-,hj⟩ := h.joined isServer
  obtain ⟨pending,hcoming⟩ := hj.coming
  have hslot' : (d'.side isServer).unprocessed = none := by rw [← halike.unprocessed,hslot]
  have hlink := hcoming.link
  rw [hslot'] at hlink
  obtain ⟨hhandshake,hpolicy,hchannels⟩ := halike.provider isServer
  rcases hlink.intercept hC M.Error (hlogged !isServer) hj.far.clean.unpoisoned hkeys hj.near.keyed
    hj.near.clean.unpoisoned hchannels (hauthentic.congr (halike.provider !isServer).channels) with
    ⟨r,s',hrun,hs',hr⟩ | ⟨m,s',hrun,hm,hs'⟩
  · -- nothing is read, and the other connection waits
    have hread := EncryptionProvider.onChannels_run (V := V) (p := (d.side isServer).provider) hrun
    refine ⟨d',.refl _,?_⟩
    rcases hr with rfl | ⟨e,rfl⟩
    · rw [step_readMessage hread]
      exact halike.set_left isServer hslot'.symm ⟨hhandshake,hpolicy,hs'⟩
    · have hstep : d.step (isServer,.readMessage) = d.set isServer
          ⟨{ (d.side isServer).provider with channels := s' },(d.side isServer).unprocessed⟩
          d.clock := by
        rw [step]
        simp only [Duplex.exec,EncryptionProvider.readMessage,hread]
      rw [hstep]
      exact halike.set_left isServer (halike.unprocessed isServer) ⟨hhandshake,hpolicy,hs'⟩
  · have hread := EncryptionProvider.onChannels_run (V := V) (p := (d.side isServer).provider) hrun
    rcases hlink.next hC hj.near.clean.unpoisoned hj.near.keyed.cipher hj.far.room M.Error with
      hwait | ⟨m',rest,packet,hrun',hnext⟩
    · have hin := hlink.incoming_waits hC hout (ProtectedChannels.nextPlaintext_waits hwait)
      rw [hlink.pending_eq_nil hin hout] at hm
      simp at hm
    · obtain ⟨xs,hpending,-⟩ := hnext.items
      rw [hpending] at hm
      obtain rfl : m' = m := Option.some.inj hm
      have hread' := EncryptionProvider.onChannels_run (V := V) (p := (d'.side isServer).provider)
        hrun'
      refine ⟨_,quiet_run (e := (isServer,.readMessage)) hslot' (visible_readMessage _ _) seen,?_⟩
      rw [step_readMessage hread,step_readMessage hread',halike.clock]
      refine halike.set isServer ?_ ?_ _
      · rfl
      · exact ⟨hhandshake,hpolicy,hs'.cipher,hs'.poisoned,hs'.buffer,hs'.sent⟩

lemma Lockstep.follow_readMessage (halike : d.Alike d') (h : d'.Lockstep T σ P)
    (hlogged : d'.AllLogged) (hslot : (d.side isServer).unprocessed = none)
    (hauthentic : Authentic V.crypto (d.side isServer).channels (d.side !isServer).channels)
    (seen : List (QueueAction Bool Bytes)) :
    ∃ d'', Run (Run.record step visible) (fun e z => Room e z.1) (d',seen) (d'',seen) ∧
      (d.step (isServer,.readMessage)).Alike d'' := by
  -- the other connection lets everything arrive first
  set n := (d'.side !isServer).channels.outgoing.length with hn
  have harrived := quiet_run (d := d') (e := (!isServer,.arrive n)) trivial rfl seen
  have hroom : d'.Room (!isServer,.arrive n) := trivial
  have hstep := (h.exec hC hT hP hJ hroom).2
  have hout : ((d'.step (!isServer,.arrive n)).side (!isServer)).channels.outgoing = [] := by
    change ((d'.arrive (!isServer) n).side (!isServer)).channels.outgoing = []
    rw [arrive_near]
    exact List.drop_length
  obtain ⟨d'',hrun,hd''⟩ := Lockstep.follow_arrived hC hkeys (halike.symm.arrive n).symm hstep
    (hlogged.step hC (!isServer,.arrive n)) hslot hauthentic hout seen
  exact ⟨d'',harrived.trans hrun,hd''⟩

omit hkeys in
lemma Followed.call {z w : Duplex V × List (QueueAction Bool Bytes)} (h : Followed T σ P z w)
    {op : Operation V} (hroom : w.1.Room (isServer,op))
    (hresult : (z.1.exec isServer op).1 = (w.1.exec isServer op).1)
    (haccepted : z.1.accepted isServer op = w.1.accepted isServer op)
    (halike : (z.1.step (isServer,op)).Alike (w.1.step (isServer,op))) :
    ∃ w', Run (Run.record step visible) (fun e z => Room e z.1) w w' ∧
      Followed T σ P (Run.record step visible (isServer,op) z) w' := by
  refine ⟨_,.single (isServer,op) hroom,halike,?_,(h.lockstep.exec hC hT hP hJ hroom).2,
    h.logged.step hC _⟩
  simp only [Run.record,visible,returned,h.seen,hresult,haccepted]

lemma Followed.step {z w : Duplex V × List (QueueAction Bool Bytes)} (h : Followed T σ P z w)
    {e : Bool × Attack V} (hok : z.1.Withstands e) :
    ∃ w', Run (Run.record Duplex.step visible) (fun e z => Room e z.1) w w' ∧
      Followed T σ P (Run.record attack overt e z) w' := by
  obtain ⟨isServer,_ | bytes⟩ := e
  · rename_i op
    cases op with
    | sendBytes bytes now =>
      obtain ⟨hresult,hstate⟩ := h.alike.sendBytes isServer bytes now
      refine h.call hC hT hP hJ ?_ hresult ?_ hstate
      · have hroom : (z.1.side isServer).provider.SendRoom bytes now z.1.clock := hok
        rw [(h.alike.provider isServer).sendRoom,h.alike.clock] at hroom
        exact hroom
      · simp only [accepted,(h.alike.provider isServer).updatePolicy]
    | processReadMessage =>
      obtain ⟨hresult,hstate⟩ := h.alike.processReadMessage isServer
      refine h.call hC hT hP hJ (fun m hm => ?_) hresult rfl hstate
      rw [← h.alike.unprocessed] at hm
      have hroom : (z.1.side isServer).provider.ProcessRoom m z.1.clock := hok m hm
      rwa [(h.alike.provider isServer).processRoom,h.alike.clock] at hroom
    | readMessage =>
      obtain ⟨hslot,hauthentic⟩ := hok
      obtain ⟨d,hrun,hd⟩ := h.lockstep.follow_readMessage hC hT hP hJ hkeys h.alike h.logged hslot
        hauthentic w.2
      have hkept := hrun.invariant (I := fun w => w.1.Lockstep T σ P ∧ w.1.AllLogged)
        (fun e w hw hroom => ⟨(hw.1.exec hC hT hP hJ hroom).2,hw.2.step hC e⟩)
        ⟨h.lockstep,h.logged⟩
      refine ⟨_,hrun,hd,?_,hkept.1,hkept.2⟩
      simp only [Run.record,overt,visible_readMessage,List.append_nil,h.seen]
    | readBytes turns => exact hok.elim
    | arrive n =>
      refine ⟨w,.refl w,h.alike.arrive n,?_,h.lockstep,h.logged⟩
      simp only [Run.record,overt,visible_arrive,List.append_nil,h.seen]
  · refine ⟨w,.refl w,?_,?_,h.lockstep,h.logged⟩
    · obtain ⟨hhandshake,hpolicy,hchannels⟩ := h.alike.provider isServer
      refine h.alike.set_left isServer ?_ ?_
      · exact h.alike.unprocessed isServer
      · exact ⟨hhandshake,hpolicy,hchannels.cipher,hchannels.poisoned,hchannels.buffer,
          hchannels.sent⟩
    · simp only [Run.record,overt,List.append_nil,h.seen]

end

end Duplex

namespace Peers
variable {Q : Peers V} {d : Duplex V}

lemma exchange_keeps {τ : Type} {tr : Transport τ} {K : τ → Prop}
    (hsend : ∀ item, Exec.Keeps K (tr.send item) fun _ => True)
    (hnext : Exec.Keeps K tr.next fun _ => True)
    (hdeliver : ∀ s r, K s → K r → K (tr.deliver s r).1 ∧ K (tr.deliver s r).2) {c s : τ}
    (hc : K c) (hs : K s) {a b : Finished M τ} (h : Q.exchange tr c s = some (a,b)) :
    K a.transport ∧ K b.transport := by
  simp only [exchange,MlsHandshake.exchange] at h
  split at h
  · rename_i waiting hcl c₁ hstart
    obtain ⟨_,_,hello,-,-,-,hsent⟩ := MlsHandshake.clientHandshakeStart_ok hstart
    obtain ⟨hc₂,hs₂⟩ := hdeliver _ _ ((hsend hello).state hc hsent) hs
    split at h
    · rename_i secrets identity hsv s₃ hserver
      obtain ⟨packet,s₄,_,response,_,hread,-,hanswer,-⟩ := MlsHandshake.serverHandshake_ok hserver
      obtain ⟨hs₅,hc₅⟩ := hdeliver _ _ ((hsend response).state (hnext.state hs₂ hread) hanswer) hc₂
      split at h
      · rename_i secrets' hcl' c₆ hfinish
        obtain ⟨packet',_,_,_,hread',-⟩ := MlsHandshake.clientHandshakeFinish_ok hfinish
        obtain ⟨rfl,rfl⟩ := Prod.mk.inj (Option.some.inj h)
        exact ⟨hnext.state hc₅ hread',hs₅⟩
      · simp at h
    · simp at h
  · simp at h

lemma newChannels_logged {C : Crypto} {plain : PlainChannels} {secrets : TrafficSecrets}
    {s : ProtectedChannels} (h : newChannels C isServer plain secrets = .ok s) : Logged C s := by
  unfold newChannels at h
  split at h
  · simp at h
  · rename_i c hc
    obtain rfl := Except.ok.inj h
    exact ⟨.fresh (stamped_new hc) trivial _ _,by simp [ProtectedChannels.Headed]⟩

lemma established_logged {client server : MlsHandshake M × ProtectedChannels}
    (hc : Logged V.crypto client.2) (hs : Logged V.crypto server.2) :
    (Q.established client server).AllLogged := by
  intro b
  cases b with
  | false => exact hc
  | true => exact hs

lemma switchTo_logged {secrets : TrafficSecrets} {s s' : ProtectedChannels}
    (h : switchTo V isServer secrets s = some s') (hs : Logged V.crypto s) : Logged V.crypto s' := by
  have hsnd := (updateCipher_logged (E := M.Error) (.both secrets) isServer).snd hs
  unfold switchTo at h
  split at h
  · rename_i hrun
    obtain rfl := Option.some.inj h
    rwa [hrun] at hsnd
  · simp at h

lemma connect_logged (hC : V.crypto.Lawful) {X : X25519} {opening : Opening X}
    (h : Q.connect opening = some d) : d.AllLogged := by
  have hprotected {opened : Opened × Opened} (h : Q.connectProtected opened = some d) :
      d.AllLogged := by
    simp only [connectProtected,Option.bind_eq_bind,Option.bind_eq_some_iff] at h
    obtain ⟨client,hclient,server,hserver,⟨a,b⟩,hex,c,hc,s,hs,hd⟩ := h
    obtain rfl := Option.some.inj hd
    have hnew {isServer : Bool} {opened : Opened} {p : ProtectedHandshakeState}
        (h : (newWithPreHandshake (E := M.Error) V.crypto isServer opened.2 opened.1).toOption =
          some p) : Logged V.crypto p.channels := by
      unfold newWithPreHandshake at h
      split at h
      · simp [Except.toOption] at h
      · split at h
        · simp [Except.toOption] at h
        · rename_i hchannels
          obtain rfl := Option.some.inj h
          exact newChannels_logged hchannels
    obtain ⟨ha,hb⟩ := exchange_keeps (K := Logged V.crypto)
      (fun item => (send_logged hC item).mapError) next_logged.mapError
      (fun s r hs hr => ⟨hs.congr ⟨rfl,rfl,rfl,rfl⟩,hr.congr ⟨rfl,rfl,rfl,rfl⟩⟩) (hnew hclient)
      (hnew hserver) hex
    exact established_logged (switchTo_logged hc ha) (switchTo_logged hs hb)
  cases opening with
  | unprotected =>
    simp only [connect,connectUnprotected,Option.bind_eq_bind,Option.bind_eq_some_iff] at h
    obtain ⟨⟨a,b⟩,-,client,hclient,server,hserver,hd⟩ := h
    obtain rfl := Option.some.inj hd
    have hnew {isServer : Bool} {plain : PlainChannels} {secrets : TrafficSecrets}
        {s : ProtectedChannels} (h : (newChannels V.crypto isServer plain secrets).toOption = some s) :
        Logged V.crypto s := by
      cases hchannels : newChannels V.crypto isServer plain secrets with
      | error e => simp [hchannels,Except.toOption] at h
      | ok s' =>
        rw [hchannels] at h
        obtain rfl := Option.some.inj h
        exact newChannels_logged hchannels
    exact established_logged (hnew hclient) (hnew hserver)
  | psk psk =>
    rw [connect,Option.bind_eq_some_iff] at h
    obtain ⟨opened,-,h⟩ := h
    exact hprotected h
  | x25519 clientSeed serverSeed =>
    rw [connect,Option.bind_eq_some_iff] at h
    obtain ⟨opened,-,h⟩ := h
    exact hprotected h

/-- An attacker who has the network of two honest providers and cannot forge records can only
withhold: whatever is delivered, each side is where a network that only delays could have brought it,
and what its user has been given are the first of the payloads of the other side, in order. -/
theorem attacker_only_withholds {T : TwoParty M} (hC : V.crypto.Lawful) (hT : T.Lawful)
    (hJ : V.serde.Lawful) (hkeys : V.crypto.KeysDetermineIvs keyScheduleHashFunction aeadAlgorithm)
    {X : X25519} (hX : X.Lawful) {opening : Opening X} {d₀ : Duplex V}
    {z : Duplex V × List (QueueAction Bool Bytes)} (h₀ : Q.connect opening = some d₀)
    (hrun : Run (Run.record Duplex.attack Duplex.overt) (fun e z => Duplex.Withstands e z.1)
      (d₀,[]) z) :
    (∃ d, Run (Run.record Duplex.step Duplex.visible) (fun e z => Duplex.Room e z.1) (d₀,[]) (d,z.2) ∧
      z.1.Alike d) ∧
    ∀ b, QueueAction.takes b z.2 <+: QueueAction.puts b z.2 := by
  obtain ⟨-,σ,-,hP,hrest⟩ := connect_atRest hC hT hJ hX h₀
  have hstart : Duplex.Followed T σ Q.parties (d₀,[]) (d₀,[]) :=
    ⟨.refl d₀,rfl,hrest.lockstep,connect_logged hC h₀⟩
  obtain ⟨⟨d,seen⟩,hhonest,halike,rfl,-,-⟩ := hrun.simulate
    (fun hsim hok => hsim.step hC hT hP rfl hkeys hok) hstart
  have hnothing : d₀.inTransit = fun _ => [] :=
    funext fun b => congrArg payloads (hrest.lockstep.inFlight_drained hC hrest.drained b)
  obtain ⟨-,hact⟩ := (Duplex.refines_queues hC hT hP rfl).run hhonest hrest.lockstep
    (show _ = some d₀.inTransit by rw [hnothing]; rfl)
  refine ⟨⟨d,hhonest,halike⟩,fun b => ?_⟩
  have hbalance := QueueAction.balance hact b
  rw [List.nil_append] at hbalance
  exact ⟨_,hbalance.symm⟩

end Peers

namespace Sample

/-- The records of the first string that the client sends. -/
def recorded : Bytes := ((duplex.step (false,.sendBytes [7] (1 : ℕ))).side false).channels.outgoing

/-- A forgery is handed to the server, and to the client what it has sent itself. Then the server
gets the records of the client, and once more. -/
def attacks : List (Bool × Attack environment) :=
  [(false,.call (.sendBytes [7] (1 : ℕ))),
    (true,.deliver (TlsFrameCodec.frame (List.replicate 20 0))),(true,.call .readMessage),
    (false,.deliver recorded),(false,.call .readMessage),(false,.call .readMessage),
    (true,.deliver recorded),(true,.call .readMessage),(true,.call .processReadMessage),
    (true,.call .readMessage),(true,.call .processReadMessage),(true,.deliver recorded),
    (true,.call .readMessage),(true,.call .readMessage)]

def attacked : Duplex environment × List (QueueAction Bool Bytes) :=
  attacks.foldl (fun z e => Run.record Duplex.attack Duplex.overt e z) (duplex,[])

end Sample

theorem Peers.attacker_only_withholds_sample :
    Sample.attacked.2 = [.put false [7],.take false [7]] ∧
    ∀ b, QueueAction.takes b Sample.attacked.2 <+: QueueAction.puts b Sample.attacked.2 := by
  have hrun : Run (Run.record Duplex.attack Duplex.overt) (fun e z => Duplex.Withstands e z.1)
      (Sample.duplex,[]) Sample.attacked := Run.ofList (by decide +kernel)
  exact ⟨by decide +kernel,(Peers.attacker_only_withholds (Q := Sample.peers) sampleCrypto_lawful
    sampleTwoParty_lawful sampleSerde_lawful (sampleCrypto_keysDetermineIvs _ _)
    Sample.x25519_lawful (Option.some_get Sample.connected).symm hrun).2⟩

end MlsTls.EncryptionProvider
