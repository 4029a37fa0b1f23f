import MlsTls.EncryptionProvider.Stream
import MlsTls.Lib.Queues
import MlsTls.MlsHandshake.Reaction

/-! One direction of a connection. The bytes between the two ends are the frames of records that
each carry one value, and a value that announces a change of keys is the last one under the old
key. -/
namespace MlsTls.EncryptionProvider
open Lib TlsAead MlsHandshake TlsAeadCodec

/-- The keys that a client secret leads to. -/
def clientKeys (C : Crypto) (secret : ClientSecret) : Bytes × Bytes :=
  (expandClientSecret C keyScheduleHashFunction secret [] aeadAlgorithm).toOption.getD ([],[])

def serverKeys (C : Crypto) (secret : ServerSecret) : Bytes × Bytes :=
  (expandServerSecret C keyScheduleHashFunction secret [] aeadAlgorithm).toOption.getD ([],[])

/-- The keys under which a party sends. -/
def keysOf (C : Crypto) (isServer : Bool) (secret : Bytes) : Bytes × Bytes :=
  if isServer then serverKeys C ⟨secret⟩ else clientKeys C ⟨secret⟩

/-- The codec of a party that holds the secrets `t`. -/
structure KeyedBy (C : Crypto) (isServer : Bool) (t : TrafficSecrets) (c : TlsAeadCodec) : Prop where
  cipher : c.cipher = aeadAlgorithm
  hash : c.hash = keyScheduleHashFunction
  usable : Usable t
  send : (c.sendKey,c.sendIv) = keysOf C isServer (secretOf isServer t)
  recv : (c.recvKey,c.recvIv) = keysOf C (!isServer) (secretOf (!isServer) t)

lemma KeyedBy.setSendSeq {C : Crypto} {isServer : Bool} {t : TrafficSecrets} {c : TlsAeadCodec}
    (h : KeyedBy C isServer t c) (n : ℕ) : KeyedBy C isServer t (c.setSendSeq n) :=
  ⟨h.cipher,h.hash,h.usable,h.send,h.recv⟩

lemma KeyedBy.setRecvSeq {C : Crypto} {isServer : Bool} {t : TrafficSecrets} {c : TlsAeadCodec}
    (h : KeyedBy C isServer t c) (n : ℕ) : KeyedBy C isServer t (c.setRecvSeq n) :=
  ⟨h.cipher,h.hash,h.usable,h.send,h.recv⟩

section
variable {C : Crypto} (hC : C.Lawful)
include hC

lemma expandClientSecret_ok {secret : ClientSecret}
    (h : secret.secret.length = HashType.sha2_512.size) :
    expandClientSecret C keyScheduleHashFunction secret [] aeadAlgorithm =
      .ok (clientKeys C secret) ∧
    (clientKeys C secret).1.length = aeadAlgorithm.keySize ∧
    (clientKeys C secret).2.length = tls13IvSize := by
  obtain ⟨key,iv,hexp,hk,hiv⟩ := expandSecret_ok hC keyScheduleHashFunction clientLabel aeadAlgorithm
    (by decide) h.ge
  have he : clientKeys C secret = (key,iv) := by
    rw [clientKeys,expandClientSecret,hexp]
    rfl
  rw [he]
  exact ⟨hexp,hk,hiv⟩

lemma expandServerSecret_ok {secret : ServerSecret}
    (h : secret.secret.length = HashType.sha2_512.size) :
    expandServerSecret C keyScheduleHashFunction secret [] aeadAlgorithm =
      .ok (serverKeys C secret) ∧
    (serverKeys C secret).1.length = aeadAlgorithm.keySize ∧
    (serverKeys C secret).2.length = tls13IvSize := by
  obtain ⟨key,iv,hexp,hk,hiv⟩ := expandSecret_ok hC keyScheduleHashFunction serverLabel aeadAlgorithm
    (by decide) h.ge
  have he : serverKeys C secret = (key,iv) := by
    rw [serverKeys,expandServerSecret,hexp]
    rfl
  rw [he]
  exact ⟨hexp,hk,hiv⟩

theorem KeyedBy.wellKeyed {isServer : Bool} {t : TrafficSecrets} {c : TlsAeadCodec}
    (h : KeyedBy C isServer t c) : c.WellKeyed := by
  obtain ⟨-,hck,hci⟩ := expandClientSecret_ok hC h.usable.client
  obtain ⟨-,hsk,hsi⟩ := expandServerSecret_ok hC h.usable.server
  have hs := h.send
  have hr := h.recv
  cases isServer with
  | true =>
    change _ = serverKeys C t.serverSecret at hs
    change _ = clientKeys C t.clientSecret at hr
    rw [← hr] at hck hci
    rw [← hs] at hsk hsi
    exact ⟨by rw [h.cipher]; exact hsk,hsi,by rw [h.cipher]; exact hck,hci⟩
  | false =>
    change _ = clientKeys C t.clientSecret at hs
    change _ = serverKeys C t.serverSecret at hr
    rw [← hs] at hck hci
    rw [← hr] at hsk hsi
    exact ⟨by rw [h.cipher]; exact hck,hci,by rw [h.cipher]; exact hsk,hsi⟩

theorem new_keyedBy (isServer : Bool) {t : TrafficSecrets} (ht : Usable t) :
    ∃ c, TlsAeadCodec.new C isServer t [] keyScheduleHashFunction aeadAlgorithm = .ok c ∧
      KeyedBy C isServer t c ∧ c.sendSeq = 0 ∧ c.recvSeq = 0 := by
  obtain ⟨hc,-⟩ := expandClientSecret_ok hC ht.client
  obtain ⟨hs,-⟩ := expandServerSecret_ok hC ht.server
  simp only [TlsAeadCodec.new,generateKeys,hc,hs,bind,Except.bind,pure,Except.pure]
  cases isServer with
  | true => exact ⟨_,rfl,⟨rfl,rfl,ht,rfl,rfl⟩,rfl,rfl⟩
  | false => exact ⟨_,rfl,⟨rfl,rfl,ht,rfl,rfl⟩,rfl,rfl⟩

/-- A codec follows the secrets of its party; the sequence numbers go on. -/
theorem KeyedBy.update {isServer : Bool} {t : TrafficSecrets} {c : TlsAeadCodec}
    (h : KeyedBy C isServer t c) {u : SecretUpdate} (hu : Usable (t.update u)) :
    ∃ c', (TlsAeadCodec.updateTrafficSecrets C u isServer).run c = (.ok (),c') ∧
      KeyedBy C isServer (t.update u) c' ∧ c'.sendSeq = c.sendSeq ∧ c'.recvSeq = c.recvSeq := by
  obtain ⟨hc,-⟩ := expandClientSecret_ok hC hu.client
  obtain ⟨hs,-⟩ := expandServerSecret_ok hC hu.server
  have hsend := h.send
  have hrecv := h.recv
  cases u with
  | clientSecret secret =>
    simp only [TrafficSecrets.update] at hc
    refine ⟨_,by simp only [TlsAeadCodec.updateTrafficSecrets,h.hash,h.cipher,hc]; rfl,?_⟩
    cases isServer with
    | true => exact ⟨⟨h.cipher,h.hash,hu,hsend,rfl⟩,rfl,rfl⟩
    | false => exact ⟨⟨h.cipher,h.hash,hu,rfl,hrecv⟩,rfl,rfl⟩
  | serverSecret secret =>
    simp only [TrafficSecrets.update] at hs
    refine ⟨_,by simp only [TlsAeadCodec.updateTrafficSecrets,h.hash,h.cipher,hs]; rfl,?_⟩
    cases isServer with
    | true => exact ⟨⟨h.cipher,h.hash,hu,rfl,hrecv⟩,rfl,rfl⟩
    | false => exact ⟨⟨h.cipher,h.hash,hu,hsend,rfl⟩,rfl,rfl⟩
  | both secrets =>
    simp only [TrafficSecrets.update] at hc hs
    refine ⟨_,by simp only [TlsAeadCodec.updateTrafficSecrets,h.hash,h.cipher,hc,hs]; rfl,?_⟩
    cases isServer with
    | true => exact ⟨⟨h.cipher,h.hash,hu,rfl,rfl⟩,rfl,rfl⟩
    | false => exact ⟨⟨h.cipher,h.hash,hu,rfl,rfl⟩,rfl,rfl⟩

end

/-- What a writer has: its key and IV, the next sequence number, the bytes in flight and the log. -/
structure Outbound where
  key : Bytes × Bytes
  seq : ℕ
  bytes : Bytes
  log : List SentRecord

structure Inbound where
  key : Bytes × Bytes
  seq : ℕ
  bytes : Bytes
  log : List RecordUse

def outbound (s : ProtectedChannels) : Outbound :=
  ⟨(s.cipher.sendKey,s.cipher.sendIv),s.cipher.sendSeq,s.outgoing,s.sent⟩

def inbound (s : ProtectedChannels) : Inbound :=
  ⟨(s.cipher.recvKey,s.cipher.recvIv),s.cipher.recvSeq,s.incoming,s.received⟩

/-- One more record is on its way, and the writer goes on with the key `k`. -/
def Outbound.push (out : Outbound) (k : Bytes × Bytes) (r : SentRecord) : Outbound :=
  ⟨k,out.seq+1,out.bytes++r.record.bytes,out.log++[r]⟩

/-- A value and the record it was sent in. -/
abbrev Item := InnerPlaintext × SentRecord

/-- The item with number `n`, under the key `k`. -/
def Under (C : Crypto) (k : Bytes × Bytes) (n : ℕ) (x : Item) : Prop :=
  ∃ a : TlsAeadCodec, ∃ e, a.sendKey = k.1 ∧ a.sendIv = k.2 ∧ a.sendSeq = n ∧
    a.cipher = aeadAlgorithm ∧ InnerPlaintext.wire.enc x.1 = some e ∧
    e.length ≤ tlsMaxRecordSize ∧ sealChunk C a e = .ok x.2.record ∧ x.2.iv = k.2 ∧ x.2.seq = n

/-- The direction from a writer to a reader. `slot` is a value that was read and not processed
yet, and `pending` all values that are still to be processed; those that are `marked` announce a
change of keys. -/
structure Link (C : Crypto) (marked : InnerPlaintext → Bool) (out : Outbound) (inb : Inbound)
    (slot : Option InnerPlaintext) (pending : List InnerPlaintext) : Prop where
  items : ∃ xs : List Item, pending = slot.toList++xs.map Prod.fst ∧
    inb.bytes++out.bytes = (xs.map fun x => x.2.record.bytes).flatten ∧
    out.log.map SentRecord.use = inb.log++xs.map (fun x => x.2.use) ∧
    out.seq = inb.seq+xs.length ∧
    Flight (Under C) (fun x => marked x.1) out.key
      (if slot.any marked then out.key else inb.key) inb.seq xs

namespace Link
variable {C : Crypto} {marked : InnerPlaintext → Bool} {out : Outbound} {inb : Inbound}
  {slot : Option InnerPlaintext} {pending : List InnerPlaintext}

/-- The reader has opened records exactly as they were sealed. -/
theorem log_prefix (h : Link C marked out inb slot pending) :
    inb.log <+: out.log.map SentRecord.use := by
  obtain ⟨xs,-,-,hlog,-⟩ := h.items
  exact ⟨_,hlog.symm⟩

theorem arrive (h : Link C marked out inb slot pending) (n : ℕ) :
    Link C marked { out with bytes := out.bytes.drop n }
      { inb with bytes := inb.bytes++out.bytes.take n } slot pending := by
  obtain ⟨xs,hp,hb,hlog,hseq,hf⟩ := h.items
  refine ⟨xs,hp,?_,hlog,hseq,hf⟩
  rw [List.append_assoc,List.take_append_drop]
  exact hb

/-- An empty connection. -/
theorem nil (hin : inb.bytes = []) (hout : out.bytes = [])
    (hlog : out.log.map SentRecord.use = inb.log) (hseq : out.seq = inb.seq)
    (hkey : out.key = inb.key) : Link C marked out inb none [] :=
  ⟨[],rfl,by rw [hin,hout]; rfl,by simpa using hlog,hseq,hkey.symm⟩

theorem nil_log (h : Link C marked out inb none []) :
    inb.bytes = [] ∧ out.bytes = [] ∧ out.log.map SentRecord.use = inb.log := by
  obtain ⟨xs,hp,hb,hlog,-⟩ := h.items
  obtain rfl := List.map_eq_nil_iff.mp hp.symm
  obtain ⟨hin,hout⟩ := List.append_eq_nil_iff.mp hb
  exact ⟨hin,hout,by simpa using hlog⟩

/-- With nothing left to process, the two ends are in step. -/
theorem drained (h : Link C marked out inb slot []) :
    out.key = inb.key ∧ out.seq = inb.seq := by
  obtain ⟨xs,hp,-,-,hseq,hf⟩ := h.items
  obtain ⟨hslot,hxs⟩ := List.append_eq_nil_iff.mp hp.symm
  obtain rfl := List.map_eq_nil_iff.mp hxs
  cases slot with
  | none => exact ⟨hf.symm,hseq⟩
  | some m => simp at hslot

/-- In an empty connection it does not matter which values are marked. -/
theorem remark {marked' : InnerPlaintext → Bool} (h : Link C marked out inb none []) :
    Link C marked' out inb none [] := by
  obtain ⟨hin,hout,hlog⟩ := h.nil_log
  obtain ⟨hkey,hseq⟩ := h.drained
  exact .nil hin hout hlog hseq hkey

/-- An empty connection has no values left in it. -/
theorem pending_eq_nil (h : Link C marked out inb none pending) (hin : inb.bytes = [])
    (hout : out.bytes = []) : pending = [] := by
  obtain ⟨xs,hp,hb,-⟩ := h.items
  cases xs with
  | nil => exact hp
  | cons x xs =>
    have hl := congrArg List.length hb
    rw [hin,hout,List.map_cons,List.flatten_cons,List.length_append,List.length_append,
      SealedRecord.bytes,TlsFrameCodec.frame_length] at hl
    simp [tlsHdrSize] at hl
    omega

/-- The writer's next record, after which it goes on with the key `k`. -/
theorem push (h : Link C marked out inb slot pending) {x : Item} (hx : Under C out.key out.seq x)
    (k : Bytes × Bytes)
    (hk : k = out.key ∨ marked x.1 = true ∧ ∀ m ∈ pending, marked m = false) :
    Link C marked (out.push k x.2) inb slot (pending++[x.1]) := by
  obtain ⟨xs,hp,hb,hlog,hseq,hf⟩ := h.items
  refine ⟨xs++[x],?_,?_,?_,?_,?_⟩
  · rw [hp,List.map_append,List.append_assoc]
    rfl
  · simp only [Outbound.push,List.map_append,List.flatten_append,← hb,List.append_assoc]
    simp
  · simp only [Outbound.push,List.map_append,hlog,List.append_assoc]
    rfl
  · simp only [Outbound.push,hseq,List.length_append,List.length_singleton]
    omega
  · rw [hseq] at hx
    rcases hk with rfl | ⟨hm,hno⟩
    · exact hf.snoc hx
    · have hslot : slot.any marked = false := by
        cases slot with
        | none => rfl
        | some m => exact hno m (by rw [hp]; simp)
      have hxs : ∀ y ∈ xs, marked y.1 = false := by
        intro y hy
        exact hno y.1 (by rw [hp]; exact List.mem_append_right _ (List.mem_map_of_mem hy))
      rw [hslot] at hf ⊢
      exact hf.snoc_marked hxs hx hm k

/-- A value that was read has been processed, and the reader has changed keys if it had to. -/
theorem processed {m : InnerPlaintext} (h : Link C marked out inb (some m) pending)
    {k : Bytes × Bytes} (hk : k = if marked m then out.key else inb.key) :
    ∃ rest, pending = m::rest ∧ Link C marked out { inb with key := k } none rest := by
  obtain ⟨xs,hp,hb,hlog,hseq,hf⟩ := h.items
  refine ⟨xs.map Prod.fst,hp,xs,rfl,hb,hlog,hseq,?_⟩
  rw [hk]
  exact hf

section
variable (hC : C.Lawful)
include hC

/-- A value that fits one record makes one. -/
theorem sent {s : ProtectedChannels} (hk : s.cipher.WellKeyed)
    (hcipher : s.cipher.cipher = aeadAlgorithm) {m : InnerPlaintext} {e : Bytes}
    (he : InnerPlaintext.wire.enc m = some e) (hfit : e.length ≤ tlsMaxRecordSize) :
    ∃ r : SentRecord, Under C (outbound s).key (outbound s).seq (m,r) ∧
      outbound (s.afterSend C e) = (outbound s).push (outbound s).key r := by
  obtain ⟨r,hr⟩ := sealChunk_ok hC hk hfit
  refine ⟨⟨r,s.cipher.sendIv,s.cipher.sendSeq⟩,
    ⟨s.cipher,e,rfl,rfl,rfl,hcipher,he,hfit,hr,rfl,rfl⟩,?_⟩
  have hchunks := chunks_of_length_le tlsMaxRecordSize_pos (InnerPlaintext.enc_ne_nil he) hfit
  have hrecords : sealedRecords C [e] s.cipher = [r] := by simp [sealedRecords,hr]
  simp only [outbound,ProtectedChannels.afterSend,Outbound.push,sentRecords,hchunks,hrecords]
  simp

/-- The reader waits, or it takes the first value that is pending. -/
theorem next {t : ProtectedChannels} (h : Link C marked out (inbound t) none pending)
    (ht : t.poisoned = false) (hcipher : t.cipher.cipher = aeadAlgorithm) (hseq : out.seq < u64Size)
    (E : Type) :
    (ProtectedChannels.nextPlaintext C : ProtectedChannels.ProviderCall E _).run t = (.ok none,t) ∨
    ∃ m rest packet, (ProtectedChannels.nextPlaintext C : ProtectedChannels.ProviderCall E _).run t =
        (.ok (some m),t.afterNext rest packet) ∧
      Link C marked out (inbound (t.afterNext rest packet)) (some m) pending := by
  obtain ⟨xs,hp,hb,hlog,hlen,hf⟩ := h.items
  have hwait (hd : TlsFrameCodec.decode t.incoming = none) :
      (ProtectedChannels.nextPlaintext C : ProtectedChannels.ProviderCall E _).run t =
        (.ok none,t) := by
    simp [ProtectedChannels.nextPlaintext,Exec.bind_run,Exec.mapError,
      ProtectedChannels.next_pending C hd]
  cases xs with
  | nil =>
    have hnil : t.incoming = [] := (List.append_eq_nil_iff.mp hb).1
    exact Or.inl (hwait (by rw [hnil,TlsFrameCodec.decode_nil]))
  | cons x xs =>
    obtain ⟨⟨a,e,hkey,hiv,hn,hac,he,hfit,hr,hxiv,hxseq⟩,hrest⟩ := hf
    have hab : SendsTo a t.cipher := ⟨hkey,hiv,hn,hac.trans hcipher.symm⟩
    have hroom : a.sendSeq+1 < u64Size := by
      rw [List.length_cons] at hlen
      omega
    rcases ProtectedChannels.next_run hC ht hab hfit hr hroom hb with hd | ⟨rest,hbytes,-,hrun⟩
    · exact Or.inl (hwait hd)
    · have hdec := InnerPlaintext.wire_lawful.dec_enc he []
      rw [List.append_nil] at hdec
      refine Or.inr ⟨x.1,rest,x.2.record.packet,?_,xs,hp,hbytes,?_,?_,?_⟩
      · simp [ProtectedChannels.nextPlaintext,Exec.bind_run,Exec.mapError,hrun,hdec]
      · obtain ⟨-,-,hrkey,-⟩ := sealChunk_eq_ok hr
        rw [hlog,List.map_cons]
        simp only [inbound,ProtectedChannels.afterNext,List.append_assoc,List.singleton_append,
          SentRecord.use,SealedRecord.packet,hxiv,hxseq,hrkey,hkey]
        rfl
      · rw [hlen,List.length_cons]
        simp only [inbound,ProtectedChannels.afterNext,bumpRecv,setRecvSeq_recvSeq]
        omega
      · exact hrest

end

end Link
end MlsTls.EncryptionProvider
