import MlsTls.TlsAead.Pipeline
import Mathlib.Logic.Relation

/-! Integrity of one direction of the record stream against an adversary who owns the network.
The AEAD is ideal: it opens a ciphertext exactly when that ciphertext was output before, for
the same key, nonce and associated data. The adversary hands over any packets at any time. -/
namespace MlsTls.TlsAead
open Lib TlsAeadCodec

/-- An ideal AEAD, given the log of all encryption calls made so far. Encryption itself does
not depend on the log. -/
structure IdealAead (aead : List SealedRecord → Crypto) : Prop where
  encrypt_eq : ∀ log, (aead log).aeadEncrypt = (aead []).aeadEncrypt
  encrypt_length : ∀ {a k p n ad c}, (aead []).aeadEncrypt a k p n ad = .ok c →
    c.length = p.length+a.tagSize
  decrypt_iff : ∀ {log : List SealedRecord},
    (∀ r ∈ log, (aead []).aeadEncrypt r.cipher r.key r.plaintext r.nonce r.associatedData =
      .ok r.ciphertext) →
    ∀ {a k c n ad p}, (aead log).aeadDecrypt a k c n ad = .ok p ↔ ⟨a,k,p,n,ad,c⟩ ∈ log

/-- One direction under attack: the peer that sends, the receiver, every encryption call so
far, the records of the peer and the plaintexts the receiver accepted. -/
structure Wiretap where
  peer : TlsAeadCodec
  receiver : TlsAeadCodec
  log : List SealedRecord
  sent : List SealedRecord
  accepted : List Bytes

namespace Wiretap

def start (peer receiver : TlsAeadCodec) : Wiretap := ⟨peer,receiver,[],[],[]⟩

/-- The chunk in a record, without the type byte. -/
def chunkOf (r : SealedRecord) : Bytes := r.plaintext.dropLast

inductive Step (aead : List SealedRecord → Crypto) : Wiretap → Wiretap → Prop
  | peerEncrypt (g : Wiretap) (data : Bytes) :
      Step aead g { g with
        peer := ((encrypt (aead g.log) data).run (g.peer,[])).2.1
        log := g.log++sealedRecords (aead g.log) (chunks g.peer.maxFrameSize data) g.peer
        sent := g.sent++sealedRecords (aead g.log) (chunks g.peer.maxFrameSize data) g.peer }
  | receiverEncrypt (g : Wiretap) (data : Bytes) :
      Step aead g { g with
        receiver := ((encrypt (aead g.log) data).run (g.receiver,[])).2.1
        log := g.log++sealedRecords (aead g.log) (chunks g.receiver.maxFrameSize data) g.receiver }
  | accept (g : Wiretap) (header data plaintext : Bytes) (receiver : TlsAeadCodec)
      (h : (decrypt (aead g.log) data header).run g.receiver = (.ok plaintext,receiver)) :
      Step aead g { g with receiver := receiver, accepted := g.accepted++[plaintext] }
  | reject (g : Wiretap) (header data : Bytes) (f : Fault TlsAeadCodecError)
      (receiver : TlsAeadCodec)
      (h : (decrypt (aead g.log) data header).run g.receiver = (.error f,receiver)) :
      Step aead g { g with receiver := receiver }

/-- Every logged record really was output by the AEAD. -/
def Genuine (aead : List SealedRecord → Crypto) (log : List SealedRecord) : Prop :=
  ∀ r ∈ log, (aead []).aeadEncrypt r.cipher r.key r.plaintext r.nonce r.associatedData =
    .ok r.ciphertext

/-- A record of the peer: its number in the stream is the number in its nonce. -/
def IsRecord (g : Wiretap) (i : ℕ) (r : SealedRecord) : Prop :=
  g.receiver.recvIv.length = tls13IvSize ∧ r.cipher = g.receiver.cipher ∧
    r.key = g.receiver.recvKey ∧ r.nonce = nonceOf g.receiver.recvIv i ∧
    r.plaintext = chunkOf r++[tlsAppData] ∧
    r.associatedData = TlsFrameCodec.header r.ciphertext.length

/-- The invariant: the log is the peer's stream plus records under the other key, and the
receive sequence number counts what has been accepted of the stream. -/
structure Inv (aead : List SealedRecord → Crypto) (g : Wiretap) : Prop where
  key : g.peer.sendKey = g.receiver.recvKey
  iv : g.peer.sendIv = g.receiver.recvIv
  cipher : g.peer.cipher = g.receiver.cipher
  other : g.receiver.sendKey ≠ g.receiver.recvKey
  genuine : Genuine aead g.log
  seq : g.peer.sendSeq = g.sent.length
  records : ∀ i r, g.sent[i]? = some r → g.IsRecord i r ∧ r ∈ g.log
  ours : ∀ r ∈ g.log, r.key = g.receiver.recvKey → r ∈ g.sent
  recv : g.receiver.recvSeq = g.accepted.length
  taken : g.accepted = (g.sent.map chunkOf).take g.accepted.length

section
variable {aead : List SealedRecord → Crypto} (hA : IdealAead aead) {g : Wiretap}
include hA

lemma sealed_spec {log : List SealedRecord} {c : TlsAeadCodec} {xs : List Bytes} {i : ℕ}
    {r : SealedRecord} (h : (sealedRecords (aead log) xs c)[i]? = some r) :
    c.sendIv.length = tls13IvSize ∧ r.cipher = c.cipher ∧ r.key = c.sendKey ∧
      r.nonce = nonceOf c.sendIv (c.sendSeq+i) ∧ r.plaintext = chunkOf r++[tlsAppData] ∧
      r.associatedData = TlsFrameCodec.header r.ciphertext.length ∧
      (aead []).aeadEncrypt r.cipher r.key r.plaintext r.nonce r.associatedData =
        .ok r.ciphertext := by
  obtain ⟨chunk,hs⟩ := sealedRecords_getElem? h
  obtain ⟨hiv,hc,hk,hp,hn,ha,he⟩ := sealChunk_eq_ok hs
  rw [hA.encrypt_eq] at he
  have hl := hA.encrypt_length he
  refine ⟨hiv,hc,hk,hn,by simp [chunkOf,hp],?_,he⟩
  have hlen : r.ciphertext.length = chunk.length+c.cipher.tagSize+1 := by
    rw [hl,hp,hc,List.length_append,List.length_singleton,setSendSeq_cipher]
    omega
  rw [ha,hlen]
  rfl

lemma genuine_append {log : List SealedRecord} (h : Genuine aead log) (c : TlsAeadCodec)
    (xs : List Bytes) : Genuine aead (log++sealedRecords (aead log) xs c) := by
  intro r hr
  rcases List.mem_append.mp hr with hr | hr
  · exact h r hr
  · obtain ⟨i,hi⟩ := List.mem_iff_getElem?.mp hr
    exact (sealed_spec hA hi).2.2.2.2.2.2

lemma open_spec (hI : Inv aead g) (hcount : g.sent.length < u64Size) {data header msg : Bytes}
    (hiv : g.receiver.recvIv.length = tls13IvSize)
    (h : (aead g.log).aeadDecrypt g.receiver.cipher g.receiver.recvKey data
      (nonceOf g.receiver.recvIv g.receiver.recvSeq) header = .ok msg) :
    ∃ r, g.sent[g.receiver.recvSeq]? = some r ∧ msg = chunkOf r++[tlsAppData] := by
  have hm := (hA.decrypt_iff hI.genuine).mp h
  have hs := hI.ours _ hm rfl
  obtain ⟨i,hi⟩ := List.mem_iff_getElem?.mp hs
  obtain ⟨⟨-,-,-,hn,hp,-⟩,-⟩ := hI.records i _ hi
  have hlt : i < g.sent.length := (List.getElem?_eq_some_iff.mp hi).1
  -- the accepted count never passes the stream, so both numbers are below the limit
  have hle : g.receiver.recvSeq ≤ g.sent.length := by
    have := congrArg List.length hI.taken
    rw [hI.recv]
    simp at this
    omega
  have hseq : g.receiver.recvSeq = i := nonceOf_injective hiv (by omega) (by omega) hn
  exact ⟨_,(congrArg (g.sent[·]?) hseq).trans hi,hp⟩

/-- Handing over any packet: either it is the next record and its chunk is returned, or it is
rejected with an error and the codec is unchanged. -/
theorem decrypt_cases (hI : Inv aead g) (hcount : g.sent.length < u64Size) (data header : Bytes) :
    (∃ r, g.sent[g.accepted.length]? = some r ∧
      (decrypt (aead g.log) data header).run g.receiver = (.ok (chunkOf r),g.receiver.bumpRecv)) ∨
    (∃ e, (decrypt (aead g.log) data header).run g.receiver = (.error (.error e),g.receiver)) := by
  by_cases hiv : g.receiver.recvIv.length = tls13IvSize
  · cases hd : (aead g.log).aeadDecrypt g.receiver.cipher g.receiver.recvKey data
        (nonceOf g.receiver.recvIv g.receiver.recvSeq) header with
    | error e => exact .inr ⟨.cryptoError e,by simp [decrypt,makeIv_ok hiv,hd]⟩
    | ok msg =>
      obtain ⟨r,hr,rfl⟩ := open_spec hA hI hcount hiv hd
      have hlt : g.receiver.recvSeq < g.sent.length := (List.getElem?_eq_some_iff.mp hr).1
      refine .inl ⟨r,by rw [← hI.recv]; exact hr,?_⟩
      have hs : g.receiver.recvSeq+1 < u64Size := by omega
      simp [decrypt,makeIv_ok hiv,hd,hs]
  · exact .inr ⟨.cryptoError .invalidLength,by simp [decrypt,makeIv,hiv]⟩

/-- The peer's next record, as framed by the peer, is accepted. -/
theorem decrypt_genuine (hI : Inv aead g) (hcount : g.sent.length < u64Size) {r : SealedRecord}
    (hr : g.sent[g.accepted.length]? = some r) :
    (decrypt (aead g.log) r.packet.data r.packet.header).run g.receiver =
      (.ok (chunkOf r),g.receiver.bumpRecv) := by
  obtain ⟨⟨hiv,hc,hk,hn,hp,ha⟩,hm⟩ := hI.records _ r hr
  have hlt : g.accepted.length < g.sent.length := (List.getElem?_eq_some_iff.mp hr).1
  have hmem : (⟨g.receiver.cipher,g.receiver.recvKey,chunkOf r++[tlsAppData],
      nonceOf g.receiver.recvIv g.receiver.recvSeq,TlsFrameCodec.header r.ciphertext.length,
      r.ciphertext⟩ : SealedRecord) ∈ g.log := by
    rw [hI.recv,← hc,← hk,← hn,← ha,← hp]
    exact hm
  have hd := (hA.decrypt_iff hI.genuine).mpr hmem
  have hs : g.receiver.recvSeq+1 < u64Size := by rw [hI.recv]; omega
  simp [decrypt,SealedRecord.packet,makeIv_ok hiv,hd,hs]

lemma inv_peerEncrypt (hI : Inv aead g) (data : Bytes)
    (hcount : (g.sent++sealedRecords (aead g.log) (chunks g.peer.maxFrameSize data) g.peer).length <
      u64Size) :
    Inv aead { g with
      peer := ((encrypt (aead g.log) data).run (g.peer,[])).2.1
      log := g.log++sealedRecords (aead g.log) (chunks g.peer.maxFrameSize data) g.peer
      sent := g.sent++sealedRecords (aead g.log) (chunks g.peer.maxFrameSize data) g.peer } := by
  set new := sealedRecords (aead g.log) (chunks g.peer.maxFrameSize data) g.peer with hnew
  have hpeer : ((encrypt (aead g.log) data).run (g.peer,[])).2.1 =
      g.peer.setSendSeq (g.peer.sendSeq+new.length) := by
    apply encryptChunks_sendSeq
    rw [List.length_append] at hcount
    rw [hI.seq]
    exact hcount
  rw [hpeer]
  refine ⟨hI.key,hI.iv,hI.cipher,hI.other,genuine_append hA hI.genuine _ _,?_,?_,?_,hI.recv,?_⟩
  · simp [hI.seq]
  · intro i r hr
    by_cases hi : i < g.sent.length
    · rw [List.getElem?_append_left hi] at hr
      obtain ⟨h1,h2⟩ := hI.records i r hr
      exact ⟨h1,List.mem_append_left _ h2⟩
    · rw [List.getElem?_append_right (by omega)] at hr
      obtain ⟨hl,hc,hk,hn,hp,ha,-⟩ := sealed_spec hA hr
      refine ⟨⟨hI.iv ▸ hl,hc.trans hI.cipher,hk.trans hI.key,?_,hp,ha⟩,
        List.mem_append_right _ (List.mem_of_getElem? hr)⟩
      rw [hn,hI.iv,hI.seq,Nat.add_sub_of_le (by omega)]
  · intro r hr hkey
    rcases List.mem_append.mp hr with hr | hr
    · exact List.mem_append_left _ (hI.ours r hr hkey)
    · exact List.mem_append_right _ hr
  · have hle : g.accepted.length ≤ g.sent.length := by
      have := congrArg List.length hI.taken
      simp at this
      omega
    rw [List.map_append,List.take_append_of_le_length (by simpa using hle)]
    exact hI.taken

lemma inv_receiverEncrypt (hI : Inv aead g) (data : Bytes) :
    Inv aead { g with
      receiver := ((encrypt (aead g.log) data).run (g.receiver,[])).2.1
      log := g.log++sealedRecords (aead g.log) (chunks g.receiver.maxFrameSize data) g.receiver } := by
  obtain ⟨n,hn⟩ := encryptChunks_codec (aead g.log) (chunks g.receiver.maxFrameSize data) g.receiver []
  have hr : ((encrypt (aead g.log) data).run (g.receiver,[])).2.1 = g.receiver.setSendSeq n := hn
  rw [hr]
  refine ⟨hI.key,hI.iv,hI.cipher,hI.other,genuine_append hA hI.genuine _ _,hI.seq,?_,?_,hI.recv,
    hI.taken⟩
  · intro i r hi
    obtain ⟨h1,h2⟩ := hI.records i r hi
    exact ⟨h1,List.mem_append_left _ h2⟩
  · intro r hr hkey
    rcases List.mem_append.mp hr with hr | hr
    · exact hI.ours r hr hkey
    · obtain ⟨i,hi⟩ := List.mem_iff_getElem?.mp hr
      have hk := (sealed_spec hA hi).2.2.1
      exact absurd (hk.symm.trans hkey) hI.other

omit hA in
lemma inv_accept (hI : Inv aead g) {r : SealedRecord} (hr : g.sent[g.accepted.length]? = some r) :
    Inv aead { g with receiver := g.receiver.bumpRecv, accepted := g.accepted++[chunkOf r] } := by
  refine ⟨hI.key,hI.iv,hI.cipher,hI.other,hI.genuine,hI.seq,hI.records,hI.ours,?_,?_⟩
  · simp [bumpRecv,hI.recv]
  · have hm : (g.sent.map chunkOf)[g.accepted.length]? = some (chunkOf r) := by simp [hr]
    rw [List.length_append,List.length_singleton,List.take_add_one,hm,← hI.taken]
    rfl

omit hA in
lemma Step.sent_prefix {g' : Wiretap} (h : Step aead g g') : g.sent <+: g'.sent := by
  cases h with
  | peerEncrypt data => exact List.prefix_append _ _
  | receiverEncrypt data => exact List.prefix_rfl
  | accept => exact List.prefix_rfl
  | reject => exact List.prefix_rfl

lemma inv_step {g' : Wiretap} (hI : Inv aead g) (h : Step aead g g')
    (hcount : g'.sent.length < u64Size) : Inv aead g' := by
  have hg : g.sent.length < u64Size := lt_of_le_of_lt h.sent_prefix.length_le hcount
  cases h with
  | peerEncrypt data => exact inv_peerEncrypt hA hI data hcount
  | receiverEncrypt data => exact inv_receiverEncrypt hA hI data
  | accept header data plaintext receiver hd =>
    rcases decrypt_cases hA hI hg data header with ⟨r,hr,hrun⟩ | ⟨e,hrun⟩
    · rw [hrun] at hd
      simp only [Prod.mk.injEq,Except.ok.injEq] at hd
      obtain ⟨rfl,rfl⟩ := hd
      exact inv_accept hI hr
    · rw [hrun] at hd
      simp at hd
  | reject header data f receiver hd =>
    rcases decrypt_cases hA hI hg data header with ⟨r,hr,hrun⟩ | ⟨e,hrun⟩
    · rw [hrun] at hd
      simp at hd
    · rw [hrun] at hd
      obtain rfl := (Prod.mk.inj hd).2
      exact hI

/-- The invariant holds along every run that stays within the sequence. -/
theorem inv_run {g₀ : Wiretap} (h₀ : Inv aead g₀) (h : Relation.ReflTransGen (Step aead) g₀ g)
    (hcount : g.sent.length < u64Size) : Inv aead g := by
  induction h with
  | refl => exact h₀
  | tail _ hs ih => exact inv_step hA (ih (lt_of_le_of_lt hs.sent_prefix.length_le hcount)) hs hcount

omit hA in
lemma inv_start {C : Crypto} {isServer : Bool} {secrets : TrafficSecrets} {hh : Bytes}
    {hash : HashType} {cipher : AeadType} {peer receiver : TlsAeadCodec}
    (hpeer : new C (!isServer) secrets hh hash cipher = .ok peer)
    (hreceiver : new C isServer secrets hh hash cipher = .ok receiver)
    (hkeys : peer.sendKey ≠ receiver.sendKey) : Inv aead (start peer receiver) := by
  have hcross : peer.sendKey = receiver.recvKey ∧ peer.sendIv = receiver.recvIv ∧
      peer.cipher = receiver.cipher ∧ peer.sendSeq = 0 ∧ receiver.recvSeq = 0 := by
    unfold new at hpeer hreceiver
    cases hk : generateKeys C hash secrets hh cipher with
    | error e => simp [hk] at hpeer
    | ok keys =>
      simp only [hk,Except.ok.injEq] at hpeer hreceiver
      subst hpeer hreceiver
      cases isServer <;> simp
  obtain ⟨hk,hi,hc,hs,hr⟩ := hcross
  refine ⟨hk,hi,hc,?_,?_,hs,?_,?_,hr,by simp [start]⟩
  · intro h
    exact hkeys (hk.trans h.symm)
  · intro r hr
    simp [start] at hr
  · intro i r hr
    simp [start] at hr
  · intro r hr
    simp [start] at hr

/-- Stream integrity against any packets: what is accepted is a prefix of what was sent, a
rejected packet changes nothing, and the next genuine record is accepted at any time. -/
theorem stream_integrity {isServer : Bool} {secrets : TrafficSecrets} {hh : Bytes}
    {hash : HashType} {cipher : AeadType} {peer receiver : TlsAeadCodec}
    (hpeer : new (aead []) (!isServer) secrets hh hash cipher = .ok peer)
    (hreceiver : new (aead []) isServer secrets hh hash cipher = .ok receiver)
    (hkeys : peer.sendKey ≠ receiver.sendKey)
    (hrun : Relation.ReflTransGen (Step aead) (start peer receiver) g)
    (hcount : g.sent.length < u64Size) :
    g.accepted <+: g.sent.map chunkOf ∧
    (∀ data header f codec, (decrypt (aead g.log) data header).run g.receiver = (.error f,codec) →
      codec = g.receiver ∧ f ≠ .panic) ∧
    (∀ r, g.sent[g.accepted.length]? = some r →
      (decrypt (aead g.log) r.packet.data r.packet.header).run g.receiver =
        (.ok (chunkOf r),g.receiver.bumpRecv)) := by
  have hI := inv_run hA (inv_start hpeer hreceiver hkeys) hrun hcount
  refine ⟨?_,?_,?_⟩
  · rw [hI.taken]
    exact List.take_prefix _ _
  · intro data header f codec hd
    rcases decrypt_cases hA hI hcount data header with ⟨r,-,hrun⟩ | ⟨e,hrun⟩
    · rw [hrun] at hd
      simp at hd
    · rw [hrun] at hd
      obtain ⟨hf,hc⟩ := Prod.mk.inj hd
      refine ⟨hc.symm,?_⟩
      rintro rfl
      simp at hf
  · intro r hr
    exact decrypt_genuine hA hI hcount hr

end

/-- The sample provider with decryption replaced by a look into the log. -/
def sampleIdeal (log : List SealedRecord) : Crypto :=
  { sampleCrypto with
    aeadDecrypt := fun a k c n ad =>
      match log.find? (fun r => r.cipher = a ∧ r.key = k ∧ r.nonce = n ∧ r.associatedData = ad ∧
          r.ciphertext = c) with
      | some r => .ok r.plaintext
      | none => .error .aeadDecryptionError }

theorem sampleIdeal_ideal : IdealAead sampleIdeal where
  encrypt_eq _ := rfl
  encrypt_length h := sampleCrypto_lawful.encrypt_length h
  decrypt_iff := by
    intro log hlog a k c n ad p
    constructor
    · intro h
      simp only [sampleIdeal] at h
      split at h
      · rename_i r hr
        have hm := List.mem_of_find?_eq_some hr
        have hp := List.find?_some hr
        simp only [decide_eq_true_eq] at hp
        obtain ⟨rfl,rfl,rfl,rfl,rfl⟩ := hp
        obtain rfl := Except.ok.inj h
        exact hm
      · simp at h
    · intro hm
      simp only [sampleIdeal]
      split
      · rename_i r hr
        have hp := List.find?_some hr
        simp only [decide_eq_true_eq] at hp
        obtain ⟨h1,h2,h3,h4,h5⟩ := hp
        -- both entries are outputs of the same encryption, which is injective in the text
        have hr' := hlog r (List.mem_of_find?_eq_some hr)
        rw [h1,h2,h3,h4,h5] at hr'
        obtain ⟨-,-,he⟩ := Sample.aeadEncrypt_eq_ok hr'
        obtain ⟨-,-,he'⟩ := Sample.aeadEncrypt_eq_ok (hlog _ hm)
        simp only at he'
        rw [he] at he'
        rw [List.append_cancel_right he']
      · rename_i hnone
        have hh := List.find?_eq_none.mp hnone _ hm
        simp at hh

/-- The first record of the sample client, with three bytes of text. -/
def sampleRecord : SealedRecord :=
  let c := sampleCodec false
  let ad := c.associatedData [7,7,7]
  let nonce := nonceOf c.sendIv 0
  ⟨.aes256Gcm,c.sendKey,[7,7,7,tlsAppData],nonce,ad,[7,7,7,tlsAppData]++Sample.tag c.sendKey nonce ad⟩

/-- After a record, a forged packet and the genuine record, on a sample connection. -/
def sampleRun : Wiretap :=
  ⟨(sampleCodec false).bumpSend,(sampleCodec true).bumpRecv,[sampleRecord],[sampleRecord],[[7,7,7]]⟩

theorem sampleRun_reachable : Relation.ReflTransGen (Step sampleIdeal)
    (start (sampleCodec false) (sampleCodec true)) sampleRun :=
  .tail (.tail (.single (.peerEncrypt _ [7,7,7]))
    (.reject _ [0] [1,2,3] (.error (.cryptoError .aeadDecryptionError)) (sampleCodec true) rfl))
    (.accept _ sampleRecord.packet.header sampleRecord.packet.data [7,7,7]
      (sampleCodec true).bumpRecv rfl)

theorem stream_integrity_sample : sampleRun.accepted = [[7,7,7]] ∧
    sampleRun.accepted <+: sampleRun.sent.map chunkOf := by
  have hpeer : new (sampleIdeal []) (!true) sampleSecrets [] .sha2_512 .aes256Gcm =
      .ok (sampleCodec false) := rfl
  have hreceiver : new (sampleIdeal []) true sampleSecrets [] .sha2_512 .aes256Gcm =
      .ok (sampleCodec true) := rfl
  have h := stream_integrity sampleIdeal_ideal hpeer hreceiver (by decide) sampleRun_reachable
    (by decide)
  exact ⟨rfl,h.1⟩

end Wiretap
end MlsTls.TlsAead
