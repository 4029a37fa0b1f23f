import MlsTls.TlsAead.Headers

/-! Key and nonce of the records that one codec seals. The send sequence number only grows, also
across key switches and failed calls, so the position of a record in the log of all sealed
records is its sequence number. Two records under one key then differ in their nonces as soon as
a key determines its IV. -/
namespace MlsTls.TlsAead
open Lib

/-- Key and IV of a cipher that come out of the expansion of some traffic secret. -/
def Crypto.Expanded (C : Crypto) (hash : HashType) (cipher : AeadType) (key iv : Bytes) : Prop :=
  ∃ context, (∃ secret, expandClientSecret C hash secret context cipher = .ok (key,iv)) ∨
    ∃ secret, expandServerSecret C hash secret context cipher = .ok (key,iv)

/-- Key expansion gives equal IVs whenever it gives equal keys. -/
def Crypto.KeysDetermineIvs (C : Crypto) (hash : HashType) (cipher : AeadType) : Prop :=
  ∀ {key iv iv'}, C.Expanded hash cipher key iv → C.Expanded hash cipher key iv' → iv = iv'

/-- The secrets of an update expand to this key and IV for sending. -/
def SecretUpdate.Installs (C : Crypto) (hash : HashType) (cipher : AeadType) (isServer : Bool)
    (key iv : Bytes) : SecretUpdate → Prop
  | .clientSecret secret =>
    isServer = false ∧ expandClientSecret C hash secret [] cipher = .ok (key,iv)
  | .serverSecret secret =>
    isServer = true ∧ expandServerSecret C hash secret [] cipher = .ok (key,iv)
  | .both secrets =>
    if isServer then expandServerSecret C hash secrets.serverSecret [] cipher = .ok (key,iv)
    else expandClientSecret C hash secrets.clientSecret [] cipher = .ok (key,iv)

theorem SecretUpdate.Installs.expanded {C : Crypto} {hash : HashType} {cipher : AeadType}
    {isServer : Bool} {key iv : Bytes} {update : SecretUpdate}
    (h : update.Installs C hash cipher isServer key iv) : C.Expanded hash cipher key iv := by
  cases update with
  | clientSecret secret => exact ⟨[],Or.inl ⟨secret,h.2⟩⟩
  | serverSecret secret => exact ⟨[],Or.inr ⟨secret,h.2⟩⟩
  | both secrets =>
    cases isServer with
    | true => exact ⟨[],Or.inr ⟨secrets.serverSecret,h⟩⟩
    | false => exact ⟨[],Or.inl ⟨secrets.clientSecret,h⟩⟩

namespace TlsAeadCodec

/-- The calls on a codec, each with any arguments. -/
inductive Call
  | encrypt (data : Bytes)
  | encryptWithHeader (data : Bytes)
  | decrypt (ciphertext associatedData : Bytes)
  | decryptWithHeader (data : Bytes)
  | updateTrafficSecrets (update : SecretUpdate) (isServer : Bool)
  deriving DecidableEq, Repr

/-- The codec after a call, whether the call returned or failed. -/
def Call.codec (C : Crypto) (c : TlsAeadCodec) : Call → TlsAeadCodec
  | .encrypt data => ((TlsAeadCodec.encrypt C data).run (c,[])).2.1
  | .encryptWithHeader data => ((TlsAeadCodec.encryptWithHeader C data).run c).2
  | .decrypt ciphertext associatedData =>
    ((TlsAeadCodec.decrypt C ciphertext associatedData).run c).2
  | .decryptWithHeader data => ((TlsAeadCodec.decryptWithHeader C data).run c).2
  | .updateTrafficSecrets update isServer =>
    ((TlsAeadCodec.updateTrafficSecrets C update isServer).run c).2

/-- The records sealed by a call, also by one that fails later on. -/
def Call.records (C : Crypto) (c : TlsAeadCodec) : Call → List SealedRecord
  | .encrypt data => sealedRecords C (chunks c.maxFrameSize data) c
  | .encryptWithHeader data => sealedRecords C (chunks c.maxFrameSize data) c
  | .decrypt _ _ => []
  | .decryptWithHeader _ => []
  | .updateTrafficSecrets _ _ => []

/-- All records sealed by a sequence of calls. -/
def sealedBy (C : Crypto) : List Call → TlsAeadCodec → List SealedRecord
  | [],_ => []
  | call::calls,c => call.records C c++sealedBy C calls (call.codec C c)

/-- The codec sends under expanded keys, and the position of a record in the log is the
sequence number it was sealed with. -/
structure Stamped (C : Crypto) (hash : HashType) (cipher : AeadType) (c : TlsAeadCodec)
    (log : List SealedRecord) : Prop where
  hash_eq : c.hash = hash
  cipher_eq : c.cipher = cipher
  keys : C.Expanded hash cipher c.sendKey c.sendIv
  seq : c.sendSeq = log.length
  records : ∀ {i r}, log[i]? = some r → ∃ iv, C.Expanded hash cipher r.key iv ∧
    iv.length = tls13IvSize ∧ r.nonce = nonceOf iv i

section
variable {C : Crypto} {hash : HashType} {cipher : AeadType} {c : TlsAeadCodec}
  {log : List SealedRecord}

lemma Stamped.receive (h : Stamped C hash cipher c log) (n : ℕ) :
    Stamped C hash cipher (c.setRecvSeq n) log :=
  ⟨h.hash_eq,h.cipher_eq,h.keys,h.seq,h.records⟩

lemma Stamped.chunks (h : Stamped C hash cipher c log) (cs : List Bytes)
    (hlen : (log++sealedRecords C cs c).length < u64Size) :
    Stamped C hash cipher (encryptChunks C cs (c,[])).2.1 (log++sealedRecords C cs c) := by
  rw [List.length_append] at hlen
  rw [encryptChunks_sendSeq [] (by rw [h.seq]; exact hlen)]
  refine ⟨h.hash_eq,h.cipher_eq,h.keys,by simp [h.seq],?_⟩
  intro i r hi
  by_cases hlt : i < log.length
  · rw [List.getElem?_append_left hlt] at hi
    exact h.records hi
  · rw [List.getElem?_append_right (by omega)] at hi
    obtain ⟨chunk,hseal⟩ := sealedRecords_getElem? hi
    obtain ⟨hiv,-,hkey,-,hnonce,-⟩ := sealChunk_eq_ok hseal
    have hseq : c.sendSeq+(i-log.length) = i := by rw [h.seq]; omega
    rw [setSendSeq_sendIv,setSendSeq_sendSeq,hseq] at hnonce
    exact ⟨c.sendIv,by rw [hkey]; exact h.keys,hiv,hnonce⟩

lemma decrypt_codec (C : Crypto) (ciphertext ad : Bytes) (c : TlsAeadCodec) :
    ∃ n, ((decrypt C ciphertext ad).run c).2 = c.setRecvSeq n := by
  simp only [decrypt]
  split
  · exact ⟨c.recvSeq,rfl⟩
  · split
    · exact ⟨c.recvSeq,rfl⟩
    · split_ifs
      · exact ⟨c.recvSeq+1,rfl⟩
      · exact ⟨c.recvSeq+1,rfl⟩
      · exact ⟨c.recvSeq,rfl⟩

lemma decryptWithHeader_codec (C : Crypto) (data : Bytes) (c : TlsAeadCodec) :
    ∃ n, ((decryptWithHeader C data).run c).2 = c.setRecvSeq n := by
  unfold decryptWithHeader
  split_ifs
  · exact ⟨c.recvSeq,rfl⟩
  · exact ⟨c.recvSeq,rfl⟩
  · exact decrypt_codec C _ _ c

lemma updateTrafficSecrets_codec (C : Crypto) (update : SecretUpdate) (isServer : Bool)
    (c : TlsAeadCodec) : ∃ c', ((updateTrafficSecrets C update isServer).run c).2 = c' ∧
      c'.hash = c.hash ∧ c'.cipher = c.cipher ∧ c'.sendSeq = c.sendSeq ∧
      (c'.sendKey = c.sendKey ∧ c'.sendIv = c.sendIv ∨
        update.Installs C c.hash c.cipher isServer c'.sendKey c'.sendIv) := by
  simp only [updateTrafficSecrets]
  split
  · split
    · exact ⟨c,rfl,rfl,rfl,rfl,Or.inl ⟨rfl,rfl⟩⟩
    · rename_i he
      cases isServer with
      | true => exact ⟨_,rfl,rfl,rfl,rfl,Or.inl ⟨rfl,rfl⟩⟩
      | false => exact ⟨_,rfl,rfl,rfl,rfl,Or.inr ⟨rfl,he⟩⟩
  · split
    · exact ⟨c,rfl,rfl,rfl,rfl,Or.inl ⟨rfl,rfl⟩⟩
    · rename_i he
      cases isServer with
      | true => exact ⟨_,rfl,rfl,rfl,rfl,Or.inr ⟨rfl,he⟩⟩
      | false => exact ⟨_,rfl,rfl,rfl,rfl,Or.inl ⟨rfl,rfl⟩⟩
  · split
    · exact ⟨c,rfl,rfl,rfl,rfl,Or.inl ⟨rfl,rfl⟩⟩
    · rename_i hc
      split
      · exact ⟨c,rfl,rfl,rfl,rfl,Or.inl ⟨rfl,rfl⟩⟩
      · rename_i hs
        cases isServer with
        | true => exact ⟨_,rfl,rfl,rfl,rfl,Or.inr hs⟩
        | false => exact ⟨_,rfl,rfl,rfl,rfl,Or.inr hc⟩

lemma Stamped.switch (h : Stamped C hash cipher c log) (update : SecretUpdate) (isServer : Bool) :
    Stamped C hash cipher ((updateTrafficSecrets C update isServer).run c).2 log := by
  -- a key switch keeps the sequence number and leaves expanded keys, also one that fails
  obtain ⟨c',hc',hhash,hcipher,hseq,hkeys⟩ := updateTrafficSecrets_codec C update isServer c
  rw [hc']
  refine ⟨hhash.trans h.hash_eq,hcipher.trans h.cipher_eq,?_,hseq.trans h.seq,h.records⟩
  rcases hkeys with ⟨hkey,hiv⟩ | hkeys
  · rw [hkey,hiv]
    exact h.keys
  · rw [h.hash_eq,h.cipher_eq] at hkeys
    exact hkeys.expanded

/-- Every call keeps the log stamped. -/
theorem Stamped.step (h : Stamped C hash cipher c log) (call : Call)
    (hlen : (log++call.records C c).length < u64Size) :
    Stamped C hash cipher (call.codec C c) (log++call.records C c) := by
  cases call with
  | encrypt data => exact h.chunks _ hlen
  | encryptWithHeader data =>
    have hcodec := congrArg Prod.snd
      (encryptChunksWithHeader_eq C (Lib.chunks c.maxFrameSize data) [] c [])
    rw [Call.codec,encryptWithHeader,hcodec]
    exact h.chunks _ hlen
  | decrypt ciphertext ad =>
    obtain ⟨n,hn⟩ := decrypt_codec C ciphertext ad c
    rw [Call.codec,hn,Call.records,List.append_nil]
    exact h.receive n
  | decryptWithHeader data =>
    obtain ⟨n,hn⟩ := decryptWithHeader_codec C data c
    rw [Call.codec,hn,Call.records,List.append_nil]
    exact h.receive n
  | updateTrafficSecrets update isServer =>
    rw [Call.codec,Call.records,List.append_nil]
    exact h.switch update isServer

/-- Every sequence of calls keeps the log stamped, by induction on the calls. -/
theorem Stamped.run (h : Stamped C hash cipher c log) (calls : List Call)
    (hlen : (log++sealedBy C calls c).length < u64Size) :
    ∃ c', Stamped C hash cipher c' (log++sealedBy C calls c) := by
  induction calls generalizing c log with
  | nil => exact ⟨c,by simpa [sealedBy] using h⟩
  | cons call calls ih =>
    rw [sealedBy,← List.append_assoc] at hlen ⊢
    have hstep := h.step call (by rw [List.length_append] at hlen; omega)
    exact ih hstep hlen

/-- If the position of a record is the sequence number of its nonce, no two records share key and
nonce. -/
theorem nodup_of_positions (hkeys : C.KeysDetermineIvs hash cipher)
    (hrecords : ∀ {i r}, log[i]? = some r → ∃ iv, C.Expanded hash cipher r.key iv ∧
      iv.length = tls13IvSize ∧ r.nonce = nonceOf iv i)
    (hlen : log.length ≤ u64Size) : (log.map fun r => (r.key,r.nonce)).Nodup := by
  rw [List.Nodup,List.pairwise_map,List.pairwise_iff_getElem]
  intro i j hi hj hlt heq
  obtain ⟨hkey,hnonce⟩ := Prod.mk.inj heq
  obtain ⟨iv,hiv,hl,hn⟩ := hrecords (List.getElem?_eq_getElem hi)
  obtain ⟨iv',hiv',-,hn'⟩ := hrecords (List.getElem?_eq_getElem hj)
  obtain rfl := hkeys hiv (by rw [hkey]; exact hiv')
  rw [hn,hn'] at hnonce
  have hij := nonceOf_injective hl (by omega) (by omega) hnonce
  omega

lemma new_sendKey {isServer : Bool} {secrets : TrafficSecrets} {context : Bytes}
    (h : new C isServer secrets context hash cipher = .ok c) :
    c.hash = hash ∧ c.cipher = cipher ∧ c.sendSeq = 0 ∧
      if isServer then
        expandServerSecret C hash secrets.serverSecret context cipher = .ok (c.sendKey,c.sendIv)
      else expandClientSecret C hash secrets.clientSecret context cipher =
        .ok (c.sendKey,c.sendIv) := by
  simp only [new,generateKeys] at h
  cases hc : expandClientSecret C hash secrets.clientSecret context cipher with
  | error e => simp [hc,bind,Except.bind] at h
  | ok client =>
    cases hs : expandServerSecret C hash secrets.serverSecret context cipher with
    | error e => simp [hc,hs,bind,Except.bind] at h
    | ok server =>
      simp only [hc,hs,bind,Except.bind,pure,Except.pure,Except.ok.injEq] at h
      cases isServer with
      | true =>
        subst h
        exact ⟨rfl,rfl,rfl,rfl⟩
      | false =>
        subst h
        exact ⟨rfl,rfl,rfl,rfl⟩

theorem stamped_new {isServer : Bool} {secrets : TrafficSecrets} {context : Bytes}
    (h : new C isServer secrets context hash cipher = .ok c) : Stamped C hash cipher c [] := by
  obtain ⟨hhash,hcipher,hseq,hkeys⟩ := new_sendKey h
  refine ⟨hhash,hcipher,⟨context,?_⟩,hseq,by simp⟩
  cases isServer with
  | true => exact Or.inr ⟨_,hkeys⟩
  | false => exact Or.inl ⟨_,hkeys⟩

/-- Whatever is called on a new codec, in whatever order, no two of the records it seals share
their key and their nonce, as long as there are fewer than `2^64` of them. -/
theorem nonces_unique {isServer : Bool} {secrets : TrafficSecrets} {context : Bytes}
    (hnew : new C isServer secrets context hash cipher = .ok c)
    (hkeys : C.KeysDetermineIvs hash cipher) (calls : List Call)
    (hlen : (sealedBy C calls c).length < u64Size) :
    ((sealedBy C calls c).map fun r => (r.key,r.nonce)).Nodup := by
  obtain ⟨c',h⟩ := (stamped_new hnew).run calls hlen
  exact nodup_of_positions hkeys h.records hlen.le

end

lemma sample_expandLabel (hash : HashType) (label : Bytes) (n : ℕ) : ∃ shift : UInt8,
    ∀ {secret okm}, hdkfExpandLabel sampleCrypto hash secret label [] n = .ok okm →
      hash.size ≤ secret.length ∧
        okm = ((secret++List.replicate n 0).take n).map (· + shift) := by
  refine ⟨(beBytes 2 n++beBytes 1 (tls13Prefix.length+label.length)++tls13Prefix++label++
    beBytes 1 0++[]).foldl (· + ·) 0,?_⟩
  intro secret okm h
  simp only [hdkfExpandLabel,sampleCrypto,Sample.hkdfExpand] at h
  split_ifs at h with h1 h2 h3 h4
  exact ⟨h4.1,(Except.ok.inj h).symm⟩

/-- Key and IV of the sample provider are shifted pieces of one secret, the key the longer one. -/
theorem sampleCrypto_keysDetermineIvs (hash : HashType) (cipher : AeadType) :
    sampleCrypto.KeysDetermineIvs hash cipher := by
  obtain ⟨a,ha⟩ := sample_expandLabel hash keyLabel cipher.keySize
  obtain ⟨b,hb⟩ := sample_expandLabel hash ivLabel tls13IvSize
  have hsecret {label secret context key iv}
      (h : expandSecret sampleCrypto hash label secret context cipher = .ok (key,iv)) :
      iv = ((key.map (· - a)).take tls13IvSize).map (· + b) := by
    obtain ⟨s,-,hk,hv⟩ := expandSecret_eq_ok h
    obtain ⟨hsize,rfl⟩ := ha hk
    obtain ⟨-,rfl⟩ := hb hv
    have hs : 12 ≤ s.length := by cases hash <;> simp only [HashType.size] at hsize <;> omega
    have hkey : 12 ≤ cipher.keySize := by cases cipher <;> decide
    have hcut (t : Bytes) : (s++t).take 12 = s.take 12 := List.take_append_of_le_length hs
    simp only [tls13IvSize,List.map_map,← List.map_take,List.take_take,Nat.min_eq_left hkey,hcut]
    simp [Function.comp_def]
  intro key iv iv' h h'
  obtain ⟨context,⟨secret,h⟩ | ⟨secret,h⟩⟩ := h
  · obtain ⟨context',⟨secret',h'⟩ | ⟨secret',h'⟩⟩ := h'
    · rw [hsecret h,hsecret h']
    · rw [hsecret h,hsecret h']
  · obtain ⟨context',⟨secret',h'⟩ | ⟨secret',h'⟩⟩ := h'
    · rw [hsecret h,hsecret h']
    · rw [hsecret h,hsecret h']

/-- A secret installed twice, another one in between, and a record after each switch. -/
def sampleCalls : List Call :=
  [.encrypt [1],.updateTrafficSecrets (.clientSecret ⟨List.replicate 64 7⟩) false,
    .encryptWithHeader [1],.updateTrafficSecrets (.both sampleSecrets) false,.encrypt [2],
    .updateTrafficSecrets (.clientSecret ⟨List.replicate 64 7⟩) false,.decrypt [] [],.encrypt [1]]

theorem nonces_unique_sample :
    (sealedBy sampleCrypto sampleCalls (sampleCodec false)).length = 4 ∧
      ((sealedBy sampleCrypto sampleCalls (sampleCodec false)).map
        fun r => (r.key,r.nonce)).Nodup := by
  have hlen : (sealedBy sampleCrypto sampleCalls (sampleCodec false)).length = 4 := by
    decide +kernel
  exact ⟨hlen,nonces_unique (sampleCodec_new false) (sampleCrypto_keysDetermineIvs _ _) sampleCalls
    (by rw [hlen]; decide)⟩

end TlsAeadCodec
end MlsTls.TlsAead
