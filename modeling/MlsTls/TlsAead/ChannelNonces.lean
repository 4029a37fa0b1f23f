import MlsTls.TlsAead.Nonces
import MlsTls.TlsAead.StreamSink

/-! Key and nonce of the records of one connection. The codec is behind a lock here, and the panic
at the last sequence number poisons it, so no bound on the number of records is needed. Which keys
a connection sends under is followed along. -/
namespace MlsTls.TlsAead
open Lib TlsAeadCodec

namespace TlsAeadCodec

lemma encryptChunks_last (C : Crypto) (cs : List Bytes) {c : TlsAeadCodec} (buf : List Bytes)
    (hc : c.sendSeq < u64Size) :
    c.sendSeq+(sealedRecords C cs c).length < u64Size ∨
      c.sendSeq+(sealedRecords C cs c).length = u64Size ∧
        (encryptChunks C cs (c,buf)).1 = .error .panic := by
  -- the chunk loop panics once it has used the last sequence number
  induction cs generalizing c buf with
  | nil => exact Or.inl hc
  | cons chunk cs ih =>
    simp only [encryptChunks,sealedRecords]
    cases sealChunk C c chunk with
    | error e => exact Or.inl hc
    | ok r =>
      by_cases hlt : c.sendSeq+1 < u64Size
      · simp only [if_pos hlt,List.length_cons]
        have ht := ih (c := c.bumpSend) (buf++[r.ciphertext]) hlt
        rw [show c.bumpSend.sendSeq = c.sendSeq+1 from rfl,Nat.add_right_comm,Nat.add_assoc] at ht
        exact ht
      · simp only [if_neg hlt,List.length_cons,List.length_nil]
        exact Or.inr ⟨by omega,trivial⟩

lemma sealedRecords_carry {C : Crypto} (hC : C.Lawful) {c : TlsAeadCodec} (hc : c.WellKeyed)
    {cs : List Bytes} (hcs : ∀ x ∈ cs, x.length ≤ tlsMaxRecordSize)
    (hseq : c.sendSeq+cs.length < u64Size) :
    (sealedRecords C cs c).map (fun r => r.plaintext.dropLast) = cs := by
  induction cs generalizing c with
  | nil => rfl
  | cons chunk cs ih =>
    rw [List.length_cons] at hseq
    obtain ⟨r,hr⟩ := sealChunk_ok hC hc (hcs chunk (by simp))
    obtain ⟨-,-,-,hplain,-⟩ := sealChunk_eq_ok hr
    have ht := ih (c := c.bumpSend) (hc.setSendSeq _) (fun y hy => hcs y (by simp [hy]))
      (by rw [bumpSend,setSendSeq_sendSeq]; omega)
    rw [sealedRecords_cons hr (by omega),List.map_cons,ht,hplain,List.dropLast_concat]

end TlsAeadCodec

lemma sentRecords_getElem? {C : Crypto} {cs : List Bytes} {c : TlsAeadCodec} {i : ℕ} {r : SentRecord}
    (h : (sentRecords C cs c)[i]? = some r) : (sealedRecords C cs c)[i]? = some r.record := by
  simp only [sentRecords,List.getElem?_map,List.getElem?_zipIdx,Option.map_eq_some_iff] at h
  obtain ⟨p,⟨x,hx,rfl⟩,rfl⟩ := h
  exact hx

@[simp] lemma sentRecords_length (C : Crypto) (cs : List Bytes) (c : TlsAeadCodec) :
    (sentRecords C cs c).length = (sealedRecords C cs c).length := by
  simp [sentRecords]

@[simp] lemma sentRecords_record (C : Crypto) (cs : List Bytes) (c : TlsAeadCodec) :
    (sentRecords C cs c).map SentRecord.record = sealedRecords C cs c := by
  simp [sentRecords,Function.comp_def]

namespace ProtectedChannels

/-- The channels send under expanded keys that `P` allows, and the position of a record in their
log is the sequence number it was sealed with. -/
structure Confined (C : Crypto) (hash : HashType) (cipher : AeadType) (P : Bytes → Prop)
    (s : ProtectedChannels) : Prop where
  hash_eq : s.cipher.hash = hash
  cipher_eq : s.cipher.cipher = cipher
  keys : C.Expanded hash cipher s.cipher.sendKey s.cipher.sendIv
  allowed : P s.cipher.sendKey
  seq : s.poisoned = false → s.cipher.sendSeq = s.sent.length ∧ s.sent.length < u64Size
  length_le : s.sent.length ≤ u64Size
  records : ∀ {i r}, s.sent[i]? = some r → P r.record.key ∧ ∃ iv,
    C.Expanded hash cipher r.record.key iv ∧ iv.length = tls13IvSize ∧
      r.record.nonce = nonceOf iv i

namespace Confined
variable {C : Crypto} {hash : HashType} {cipher : AeadType} {P : Bytes → Prop}
  {s : ProtectedChannels}

/-- Channels with a new codec, over which nothing was sent yet. -/
theorem fresh {c : TlsAeadCodec} (h : Stamped C hash cipher c []) (hP : P c.sendKey)
    (outgoing incoming : Bytes) :
    Confined C hash cipher P ⟨c,false,[],outgoing,incoming,[],[]⟩ :=
  ⟨h.hash_eq,h.cipher_eq,h.keys,hP,fun _ => ⟨h.seq,by simp [u64Size]⟩,by simp,by simp⟩

theorem mono (h : Confined C hash cipher P s) {Q : Bytes → Prop} (hPQ : ∀ k, P k → Q k) :
    Confined C hash cipher Q s :=
  ⟨h.hash_eq,h.cipher_eq,h.keys,hPQ _ h.allowed,h.seq,h.length_le,
    fun hr => ⟨hPQ _ (h.records hr).1,(h.records hr).2⟩⟩

/-- No two records of the connection share their key and their nonce. -/
theorem nodup (h : Confined C hash cipher P s) (hkeys : C.KeysDetermineIvs hash cipher) :
    (s.sent.map fun r => (r.record.key,r.record.nonce)).Nodup := by
  have hnodup : ((s.sent.map SentRecord.record).map fun r => (r.key,r.nonce)).Nodup := by
    refine nodup_of_positions hkeys ?_ (by rw [List.length_map]; exact h.length_le)
    intro i r hi
    rw [List.getElem?_map,Option.map_eq_some_iff] at hi
    obtain ⟨x,hx,rfl⟩ := hi
    exact (h.records hx).2
  rwa [List.map_map] at hnodup

theorem key_allowed (h : Confined C hash cipher P s) {r : SentRecord} (hr : r ∈ s.sent) :
    P r.record.key := by
  obtain ⟨i,hi⟩ := List.getElem?_of_mem hr
  exact (h.records hi).1

lemma sealing (h : Confined C hash cipher P s) (hp : s.poisoned = false) (cs : List Bytes)
    {s' : ProtectedChannels} (hcodec : ∃ n, s'.cipher = s.cipher.setSendSeq n)
    (hsent : s'.sent = s.sent++sentRecords C cs s.cipher)
    (hseq : s'.poisoned = false → s'.cipher.sendSeq = s'.sent.length ∧ s'.sent.length < u64Size)
    (hlen : s'.sent.length ≤ u64Size) : Confined C hash cipher P s' := by
  obtain ⟨n,hn⟩ := hcodec
  refine ⟨by rw [hn]; exact h.hash_eq,by rw [hn]; exact h.cipher_eq,by rw [hn]; exact h.keys,
    by rw [hn]; exact h.allowed,hseq,hlen,?_⟩
  intro i r hi
  rw [hsent] at hi
  by_cases hlt : i < s.sent.length
  · rw [List.getElem?_append_left hlt] at hi
    exact h.records hi
  · rw [List.getElem?_append_right (by omega)] at hi
    obtain ⟨chunk,hseal⟩ := sealedRecords_getElem? (sentRecords_getElem? hi)
    obtain ⟨hiv,-,hkey,-,hnonce,-⟩ := sealChunk_eq_ok hseal
    rw [setSendSeq_sendKey] at hkey
    have hpos : s.cipher.sendSeq+(i-s.sent.length) = i := by rw [(h.seq hp).1]; omega
    rw [setSendSeq_sendIv,setSendSeq_sendSeq,hpos] at hnonce
    refine ⟨by rw [hkey]; exact h.allowed,s.cipher.sendIv,by rw [hkey]; exact h.keys,hiv,hnonce⟩

end Confined

section
variable {C : Crypto} {hash : HashType} {cipher : AeadType} {P : Bytes → Prop}

lemma tryEmptyBuffer_confined :
    Exec.Keeps (Confined C hash cipher P) tryEmptyBuffer fun _ => True :=
  Exec.Keeps.modify fun _ h =>
    ⟨h.hash_eq,h.cipher_eq,h.keys,h.allowed,h.seq,h.length_le,h.records⟩

lemma startSend_confined (item : Bytes) :
    Exec.Keeps (Confined C hash cipher P) (startSend C item) fun _ => True := by
  intro s h
  simp only [startSend]
  split_ifs with hp
  · exact h
  · have hclean : s.poisoned = false := by simpa using hp
    obtain ⟨hpos,hroom⟩ := h.seq hclean
    have hcodec := encryptChunks_codec C (chunks s.cipher.maxFrameSize item) s.cipher s.buffer
    have hlast := encryptChunks_last C (chunks s.cipher.maxFrameSize item) s.buffer (hpos ▸ hroom)
    have hcount (hlt : s.cipher.sendSeq+
        (sealedRecords C (chunks s.cipher.maxFrameSize item) s.cipher).length < u64Size) :=
      encryptChunks_sendSeq s.buffer hlt
    simp only [encrypt]
    generalize encryptChunks C (chunks s.cipher.maxFrameSize item) (s.cipher,s.buffer) = r at *
    obtain ⟨r,c,b⟩ := r
    simp only at hcodec hlast hcount
    have hlen : (s.sent++sentRecords C (chunks s.cipher.maxFrameSize item) s.cipher).length =
        s.cipher.sendSeq+(sealedRecords C (chunks s.cipher.maxFrameSize item) s.cipher).length := by
      rw [List.length_append,sentRecords_length,hpos]
    have hle : (s.sent++sentRecords C (chunks s.cipher.maxFrameSize item) s.cipher).length ≤
        u64Size := by
      rw [hlen]
      omega
    have hseq (hr : r ≠ .error .panic) : c.sendSeq =
        (s.sent++sentRecords C (chunks s.cipher.maxFrameSize item) s.cipher).length ∧
          (s.sent++sentRecords C (chunks s.cipher.maxFrameSize item) s.cipher).length < u64Size := by
      have hlt := hlast.resolve_right fun hpanic => hr hpanic.2
      rw [hlen,hcount hlt,setSendSeq_sendSeq]
      exact ⟨rfl,hlt⟩
    rcases r with (e | _) | u
    · exact h.sealing hclean _ hcodec rfl (fun _ => hseq (by simp)) hle
    · exact h.sealing hclean _ hcodec rfl (fun hfalse => by simp at hfalse) hle
    · exact ⟨h.sealing hclean _ hcodec rfl (fun _ => hseq (by simp)) hle,trivial⟩

theorem send_confined (item : Bytes) :
    Exec.Keeps (Confined C hash cipher P) (send C item) fun _ => True :=
  .bind tryEmptyBuffer_confined fun _ _ => .bind (startSend_confined item) fun _ _ =>
    tryEmptyBuffer_confined

lemma lock_confined {α : Type} {x : Exec TlsAeadCodec TlsAeadCodecError α}
    (hx : ∀ c : TlsAeadCodec, c.hash = hash → c.cipher = cipher →
      C.Expanded hash cipher c.sendKey c.sendIv → P c.sendKey →
      (x.run c).2.hash = hash ∧ (x.run c).2.cipher = cipher ∧ (x.run c).2.sendSeq = c.sendSeq ∧
        C.Expanded hash cipher (x.run c).2.sendKey (x.run c).2.sendIv ∧ P (x.run c).2.sendKey) :
    Exec.Keeps (Confined C hash cipher P) (lock x) fun _ => True := by
  -- a call on the codec keeps the channels confined if it keeps the number of records and leaves an
  -- allowed key
  intro s h
  simp only [lock]
  split_ifs with hp
  · exact h
  · obtain ⟨hhash,hcipher,hseq,hkeys,hallowed⟩ := hx s.cipher h.hash_eq h.cipher_eq h.keys h.allowed
    generalize x.run s.cipher = r at *
    obtain ⟨r,c⟩ := r
    have hclean : s.poisoned = false := by simpa using hp
    obtain ⟨hpos,hroom⟩ := h.seq hclean
    rcases r with (e | _) | a
    · exact ⟨hhash,hcipher,hkeys,hallowed,fun _ => ⟨hseq.trans hpos,hroom⟩,h.length_le,h.records⟩
    · exact ⟨hhash,hcipher,hkeys,hallowed,fun hfalse => by simp at hfalse,h.length_le,h.records⟩
    · exact ⟨⟨hhash,hcipher,hkeys,hallowed,fun _ => ⟨hseq.trans hpos,hroom⟩,h.length_le,h.records⟩,
        trivial⟩

theorem next_confined : Exec.Keeps (Confined C hash cipher P) (next C) fun _ => True := by
  refine .bind .get fun s _ => ?_
  split
  · exact .pure trivial
  · rename_i packet rest hd
    refine .bind (.modify fun _ h =>
      ⟨h.hash_eq,h.cipher_eq,h.keys,h.allowed,h.seq,h.length_le,h.records⟩) fun _ _ => ?_
    refine .bind (.modify fun _ h =>
      ⟨h.hash_eq,h.cipher_eq,h.keys,h.allowed,h.seq,h.length_le,h.records⟩) fun _ _ => ?_
    refine .bind (lock_confined fun c hhash hcipher hkeys hP => ?_) fun _ _ => .pure trivial
    obtain ⟨n,hn⟩ := decrypt_codec C packet.data packet.header c
    rw [hn]
    exact ⟨hhash,hcipher,rfl,hkeys,hP⟩

theorem updateTrafficSecrets_confined {update : SecretUpdate} {isServer : Bool}
    (hP : ∀ {key iv}, update.Installs C hash cipher isServer key iv → P key) :
    Exec.Keeps (Confined C hash cipher P) (updateTrafficSecrets C update isServer)
      fun _ => True := by
  refine lock_confined fun c hhash hcipher hkeys hallowed => ?_
  obtain ⟨c',hc',hh,hc,hseq,hsend⟩ := updateTrafficSecrets_codec C update isServer c
  rw [hc']
  refine ⟨hh.trans hhash,hc.trans hcipher,hseq,?_⟩
  rcases hsend with ⟨hkey,hiv⟩ | hsend
  · rw [hkey,hiv]
    exact ⟨hkeys,hallowed⟩
  · rw [hhash,hcipher] at hsend
    exact ⟨hsend.expanded,hP hsend⟩

end

lemma next_eq_ok {C : Crypto} {s s' : ProtectedChannels} {packet : TlsPacketIn}
    (h : (next C).run s = (.ok (some packet),s')) :
    s'.poisoned = false ∧ s'.buffer = s.buffer ∧ s'.sent = s.sent ∧
      ∃ n, s'.cipher = s.cipher.setRecvSeq n := by
  simp only [next,Exec.bind_run,Exec.get_run] at h
  cases hd : TlsFrameCodec.decode s.incoming with
  | none => simp [hd] at h
  | some p =>
    simp only [hd,Exec.bind_run,Exec.modify_run,logReceived,lock] at h
    split_ifs at h with hp
    · simp at h
    · have hcodec := decrypt_codec C p.1.data p.1.header s.cipher
      generalize (decrypt C p.1.data p.1.header).run s.cipher = r at h hcodec
      obtain ⟨(e | _) | a,c⟩ := r
      · simp at h
      · simp at h
      · simp only [Exec.pure_run,Prod.mk.injEq] at h
        obtain ⟨-,rfl⟩ := h
        exact ⟨by simpa using hp,rfl,rfl,hcodec⟩

/-- The operations on the channels, each with any arguments. Bytes may arrive at any time. -/
inductive Operation
  | send (item : Bytes)
  | next
  | updateTrafficSecrets (update : SecretUpdate)
  | arrive (piece : Bytes)
  deriving DecidableEq, Repr

/-- The channels after an operation, whether it returned or failed. -/
def Operation.step (C : Crypto) (isServer : Bool) (s : ProtectedChannels) :
    Operation → ProtectedChannels
  | .send item => ((ProtectedChannels.send C item).run s).2
  | .next => ((ProtectedChannels.next C).run s).2
  | .updateTrafficSecrets update =>
    ((ProtectedChannels.updateTrafficSecrets C update isServer).run s).2
  | .arrive piece => { s with incoming := s.incoming++piece }

/-- The channels after a sequence of operations. -/
def perform (C : Crypto) (isServer : Bool) (ops : List Operation) (s : ProtectedChannels) :
    ProtectedChannels :=
  ops.foldl (Operation.step C isServer) s

/-- Whatever is done on confined channels, they stay confined. -/
theorem Confined.perform {C : Crypto} {hash : HashType} {cipher : AeadType} (isServer : Bool)
    (ops : List Operation) {s : ProtectedChannels} (h : Confined C hash cipher (fun _ => True) s) :
    Confined C hash cipher (fun _ => True) (perform C isServer ops s) := by
  induction ops generalizing s with
  | nil => exact h
  | cons op ops ih =>
    refine ih ?_
    cases op with
    | send item => exact (send_confined item).snd h
    | next => exact next_confined.snd h
    | updateTrafficSecrets update => exact (updateTrafficSecrets_confined fun _ => trivial).snd h
    | arrive piece => exact ⟨h.hash_eq,h.cipher_eq,h.keys,h.allowed,h.seq,h.length_le,h.records⟩

lemma lock_sent {α : Type} (x : Exec TlsAeadCodec TlsAeadCodecError α) (l : List SentRecord) :
    Exec.Keeps (fun s => l <+: s.sent) (lock x) fun _ => True :=
  lock_keeps x fun _ _ _ hs => hs

lemma send_sent (C : Crypto) (item : Bytes) (l : List SentRecord) :
    Exec.Keeps (fun s => l <+: s.sent) (send C item) fun _ => True := by
  have hempty : Exec.Keeps (fun s => l <+: s.sent) tryEmptyBuffer fun _ => True :=
    .modify fun _ hs => hs
  have hstart : Exec.Keeps (fun s => l <+: s.sent) (startSend C item) fun _ => True :=
    startSend_keeps C item fun s _ _ _ _ hs => hs.trans (List.prefix_append _ _)
  exact .bind hempty fun _ _ => .bind hstart fun _ _ => hempty

lemma next_sent (C : Crypto) (l : List SentRecord) :
    Exec.Keeps (fun s => l <+: s.sent) (next C) fun _ => True := by
  refine .bind .get fun s _ => ?_
  split
  · exact .pure trivial
  · refine .bind (.modify fun _ hs => hs) fun _ _ => .bind (.modify fun _ hs => hs) fun _ _ => ?_
    exact .bind (lock_sent _ l) fun _ _ => .pure trivial

/-- The log only grows. -/
theorem sent_prefix_perform (C : Crypto) (isServer : Bool) (ops : List Operation)
    (s : ProtectedChannels) : s.sent <+: (perform C isServer ops s).sent := by
  induction ops generalizing s with
  | nil => exact List.prefix_refl _
  | cons op ops ih =>
    refine List.IsPrefix.trans ?_ (ih (op.step C isServer s))
    cases op with
    | send item => exact (send_sent C item s.sent).snd (List.prefix_refl _)
    | next => exact (next_sent C s.sent).snd (List.prefix_refl _)
    | updateTrafficSecrets update => exact (lock_sent _ s.sent).snd (List.prefix_refl _)
    | arrive piece => exact List.prefix_refl _

end ProtectedChannels
end MlsTls.TlsAead
