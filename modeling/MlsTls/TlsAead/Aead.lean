import MlsTls.Lib.Exec
import MlsTls.Lib.Xor
import MlsTls.TlsAead.Codec
import MlsTls.TlsAead.KeyGeneration

/-! The TLS AEAD codec: keys, IVs and sequence numbers of both directions of a connection.
Sequence numbers are never reset; a key switch only replaces keys and IVs. A sequence number
that would leave the 64-bit range is a panic. -/
namespace MlsTls.TlsAead
open Lib

/-- `2 << 14` -/
def tlsMaxRecordSize : ℕ := 2*2^14
def tlsAeadTagSize : ℕ := 16
def minRecordSize : ℕ := tlsHdrSize+tlsAeadTagSize+1

inductive TlsAeadCodecError
  | notEnoughData
  | invalidMac
  | cryptoError (e : CryptoError)
  | invalidLength
  deriving DecidableEq, Repr

/-- `new` is the only place that sets the frame size. -/
structure TlsAeadCodec where
  sendKey : Bytes
  sendIv : Bytes
  recvKey : Bytes
  recvIv : Bytes
  sendSeq : ℕ
  recvSeq : ℕ
  cipher : AeadType
  hash : HashType
  maxFrameSize : ℕ := tlsMaxRecordSize
  maxFrameSize_eq : maxFrameSize = tlsMaxRecordSize := by rfl
  deriving DecidableEq, Repr

/-- One successful call of the AEAD by a sending codec. -/
structure SealedRecord where
  cipher : AeadType
  key : Bytes
  plaintext : Bytes
  nonce : Bytes
  associatedData : Bytes
  ciphertext : Bytes
  deriving DecidableEq, Repr

namespace TlsAeadCodec

def new (C : Crypto) (isServer : Bool) (trafficSecrets : TrafficSecrets) (handshakeHash : Bytes)
    (hash : HashType) (cipher : AeadType) : Except TlsAeadCodecError TlsAeadCodec :=
  match generateKeys C hash trafficSecrets handshakeHash cipher with
  | .error e => .error (.cryptoError e)
  | .ok keys => .ok (if isServer
      then { sendKey := keys.serverKey, sendIv := keys.serverIv, recvKey := keys.clientKey,
             recvIv := keys.clientIv, sendSeq := 0, recvSeq := 0, cipher, hash }
      else { sendKey := keys.clientKey, sendIv := keys.clientIv, recvKey := keys.serverKey,
             recvIv := keys.serverIv, sendSeq := 0, recvSeq := 0, cipher, hash })

/-- Install a client key: the server receives with it, the client sends with it. -/
def setClient (c : TlsAeadCodec) (isServer : Bool) (key iv : Bytes) : TlsAeadCodec :=
  if isServer then { c with recvKey := key, recvIv := iv }
  else { c with sendKey := key, sendIv := iv }

def setServer (c : TlsAeadCodec) (isServer : Bool) (key iv : Bytes) : TlsAeadCodec :=
  if isServer then { c with sendKey := key, sendIv := iv }
  else { c with recvKey := key, recvIv := iv }

def updateTrafficSecrets (C : Crypto) (update : SecretUpdate) (isServer : Bool) :
    Exec TlsAeadCodec TlsAeadCodecError Unit := ⟨fun c =>
  match update with
  | .clientSecret clientSecret =>
    match expandClientSecret C c.hash clientSecret [] c.cipher with
    | .error e => (.error (.error (.cryptoError e)),c)
    | .ok (clientKey,clientIv) => (.ok (),c.setClient isServer clientKey clientIv)
  | .serverSecret serverSecret =>
    match expandServerSecret C c.hash serverSecret [] c.cipher with
    | .error e => (.error (.error (.cryptoError e)),c)
    | .ok (serverKey,serverIv) => (.ok (),c.setServer isServer serverKey serverIv)
  | .both trafficSecrets =>
    match expandClientSecret C c.hash trafficSecrets.clientSecret [] c.cipher with
    | .error e => (.error (.error (.cryptoError e)),c)
    | .ok (clientKey,clientIv) =>
      match expandServerSecret C c.hash trafficSecrets.serverSecret [] c.cipher with
      | .error e => (.error (.error (.cryptoError e)),c)
      | .ok (serverKey,serverIv) =>
        (.ok (),(c.setServer isServer serverKey serverIv).setClient isServer clientKey clientIv)⟩

/-- The loop of `make_iv`: byte `i` of the little-endian number goes to position `len-1-i`. -/
def xorFromEnd (len : ℕ) : Bytes → ℕ → Bytes → Bytes
  | [],_,ret => ret
  | byte::bytes,i,ret => xorFromEnd len bytes (i+1) (ret.modify (len-1-i) (· ^^^ byte))

def makeIv (iv : Bytes) (seq : ℕ) : Except CryptoError Bytes :=
  if iv.length = tls13IvSize then .ok (xorFromEnd iv.length (leBytes 8 seq) 0 iv)
  else .error .invalidLength

/-- The associated data of a chunk; the length is cast to sixteen bits. -/
def associatedData (c : TlsAeadCodec) (chunk : Bytes) : Bytes :=
  [tlsAppData]++beBytes 2 tlsVersion++beBytes 2 (chunk.length+c.cipher.tagSize+1)

/-- The AEAD call in the chunk loops of `encrypt` and `encrypt_with_header`. -/
def sealChunk (C : Crypto) (c : TlsAeadCodec) (chunk : Bytes) :
    Except TlsAeadCodecError SealedRecord :=
  match makeIv c.sendIv c.sendSeq with
  | .error e => .error (.cryptoError e)
  | .ok nonce =>
    match C.aeadEncrypt c.cipher c.sendKey (chunk++[tlsAppData]) nonce (c.associatedData chunk) with
    | .error e => .error (.cryptoError e)
    | .ok encrypted =>
      .ok ⟨c.cipher,c.sendKey,chunk++[tlsAppData],nonce,c.associatedData chunk,encrypted⟩

def setSendSeq (c : TlsAeadCodec) (n : ℕ) : TlsAeadCodec := { c with sendSeq := n }
def setRecvSeq (c : TlsAeadCodec) (n : ℕ) : TlsAeadCodec := { c with recvSeq := n }
def bumpSend (c : TlsAeadCodec) : TlsAeadCodec := c.setSendSeq (c.sendSeq+1)
def bumpRecv (c : TlsAeadCodec) : TlsAeadCodec := c.setRecvSeq (c.recvSeq+1)

/-- The chunk loop of `encrypt`; chunks sealed before a failure stay in the buffer. -/
def encryptChunks (C : Crypto) : List Bytes → TlsAeadCodec × List Bytes →
    Outcome TlsAeadCodecError Unit × (TlsAeadCodec × List Bytes)
  | [],s => (.ok (),s)
  | chunk::chunks,(c,buf) =>
    match sealChunk C c chunk with
    | .error e => (.error (.error e),(c,buf))
    | .ok r =>
      if c.sendSeq+1 < u64Size then encryptChunks C chunks (c.bumpSend,buf++[r.ciphertext])
      else (.error .panic,(c,buf++[r.ciphertext]))

def encrypt (C : Crypto) (data : Bytes) : Exec (TlsAeadCodec × List Bytes) TlsAeadCodecError Unit :=
  ⟨fun s => encryptChunks C (chunks s.1.maxFrameSize data) s⟩

/-- The chunk loop of `encrypt_with_header`; a failure drops the frames made so far. -/
def encryptChunksWithHeader (C : Crypto) :
    List Bytes → List Bytes → TlsAeadCodec →
      Outcome TlsAeadCodecError (List Bytes) × TlsAeadCodec
  | [],frames,c => (.ok frames,c)
  | chunk::chunks,frames,c =>
    match sealChunk C c chunk with
    | .error e => (.error (.error e),c)
    | .ok r =>
      if c.sendSeq+1 < u64Size then
        encryptChunksWithHeader C chunks (frames++[[tlsAppData]++beBytes 2 tlsVersion++
          beBytes 2 r.ciphertext.length++r.ciphertext]) c.bumpSend
      else (.error .panic,c)

def encryptWithHeader (C : Crypto) (data : Bytes) :
    Exec TlsAeadCodec TlsAeadCodecError (List Bytes) :=
  ⟨fun c => encryptChunksWithHeader C (chunks c.maxFrameSize data) [] c⟩

def decrypt (C : Crypto) (ciphertext associatedData : Bytes) :
    Exec TlsAeadCodec TlsAeadCodecError Bytes := ⟨fun c =>
  match makeIv c.recvIv c.recvSeq with
  | .error e => (.error (.error (.cryptoError e)),c)
  | .ok nonce =>
    match C.aeadDecrypt c.cipher c.recvKey ciphertext nonce associatedData with
    | .error e => (.error (.error (.cryptoError e)),c)
    | .ok msg =>
      if c.recvSeq+1 < u64Size then
        -- the type byte is removed from the end, which an empty message does not have
        if msg = [] then (.error .panic,c.bumpRecv)
        else (.ok msg.dropLast,c.bumpRecv)
      else (.error .panic,c)⟩

def decryptWithHeader (C : Crypto) (data : Bytes) : Exec TlsAeadCodec TlsAeadCodecError Bytes :=
  if data.length < minRecordSize then Exec.throw .notEnoughData
  else if data.length = minRecordSize then pure []
  else decrypt C (data.drop tlsHdrSize) (data.take tlsHdrSize)

/-- The AEAD calls that the chunk loops make, in order. -/
def sealedRecords (C : Crypto) : List Bytes → TlsAeadCodec → List SealedRecord
  | [],_ => []
  | chunk::chunks,c =>
    match sealChunk C c chunk with
    | .error _ => []
    | .ok r => r::if c.sendSeq+1 < u64Size then sealedRecords C chunks c.bumpSend else []

/-- Every key and IV has the size its cipher asks for. -/
structure WellKeyed (c : TlsAeadCodec) : Prop where
  sendKey_length : c.sendKey.length = c.cipher.keySize
  sendIv_length : c.sendIv.length = tls13IvSize
  recvKey_length : c.recvKey.length = c.cipher.keySize
  recvIv_length : c.recvIv.length = tls13IvSize

/-- What `a` sends is what `b` expects to receive. -/
structure SendsTo (a b : TlsAeadCodec) : Prop where
  key : a.sendKey = b.recvKey
  iv : a.sendIv = b.recvIv
  seq : a.sendSeq = b.recvSeq
  cipher : a.cipher = b.cipher

/-- Each codec sends what the other one expects. -/
structure Mirrored (a b : TlsAeadCodec) : Prop where
  forth : SendsTo a b
  back : SendsTo b a

section Sequence
variable (c : TlsAeadCodec) (m n : ℕ)

@[simp] theorem setSendSeq_sendSeq : (c.setSendSeq n).sendSeq = n := rfl
@[simp] theorem setSendSeq_recvSeq : (c.setSendSeq n).recvSeq = c.recvSeq := rfl
@[simp] theorem setSendSeq_sendKey : (c.setSendSeq n).sendKey = c.sendKey := rfl
@[simp] theorem setSendSeq_sendIv : (c.setSendSeq n).sendIv = c.sendIv := rfl
@[simp] theorem setSendSeq_recvKey : (c.setSendSeq n).recvKey = c.recvKey := rfl
@[simp] theorem setSendSeq_recvIv : (c.setSendSeq n).recvIv = c.recvIv := rfl
@[simp] theorem setSendSeq_cipher : (c.setSendSeq n).cipher = c.cipher := rfl
@[simp] theorem setSendSeq_hash : (c.setSendSeq n).hash = c.hash := rfl
@[simp] theorem setSendSeq_setSendSeq : (c.setSendSeq m).setSendSeq n = c.setSendSeq n := rfl
@[simp] theorem setSendSeq_self : c.setSendSeq c.sendSeq = c := rfl
@[simp] theorem setRecvSeq_sendSeq : (c.setRecvSeq n).sendSeq = c.sendSeq := rfl
@[simp] theorem setRecvSeq_recvSeq : (c.setRecvSeq n).recvSeq = n := rfl
@[simp] theorem setRecvSeq_sendKey : (c.setRecvSeq n).sendKey = c.sendKey := rfl
@[simp] theorem setRecvSeq_sendIv : (c.setRecvSeq n).sendIv = c.sendIv := rfl
@[simp] theorem setRecvSeq_recvKey : (c.setRecvSeq n).recvKey = c.recvKey := rfl
@[simp] theorem setRecvSeq_recvIv : (c.setRecvSeq n).recvIv = c.recvIv := rfl
@[simp] theorem setRecvSeq_cipher : (c.setRecvSeq n).cipher = c.cipher := rfl
@[simp] theorem setRecvSeq_hash : (c.setRecvSeq n).hash = c.hash := rfl
@[simp] theorem setRecvSeq_setRecvSeq : (c.setRecvSeq m).setRecvSeq n = c.setRecvSeq n := rfl
@[simp] theorem setRecvSeq_self : c.setRecvSeq c.recvSeq = c := rfl

variable {c}

theorem WellKeyed.setSendSeq (h : c.WellKeyed) (n : ℕ) : (c.setSendSeq n).WellKeyed :=
  ⟨h.sendKey_length,h.sendIv_length,h.recvKey_length,h.recvIv_length⟩

theorem WellKeyed.setRecvSeq (h : c.WellKeyed) (n : ℕ) : (c.setRecvSeq n).WellKeyed :=
  ⟨h.sendKey_length,h.sendIv_length,h.recvKey_length,h.recvIv_length⟩

/-- One record sent and received keeps the two ends together. -/
theorem SendsTo.bump {a b : TlsAeadCodec} (h : SendsTo a b) : SendsTo a.bumpSend b.bumpRecv :=
  ⟨h.key,h.iv,by simp [bumpSend,bumpRecv,h.seq],h.cipher⟩

end Sequence

/-- The nonce of record `seq` under `iv`, once the IV has its size. -/
def nonceOf (iv : Bytes) (seq : ℕ) : Bytes := xorFromEnd iv.length (leBytes 8 seq) 0 iv

theorem makeIv_ok {iv : Bytes} (h : iv.length = tls13IvSize) (seq : ℕ) :
    makeIv iv seq = .ok (nonceOf iv seq) := if_pos h

theorem makeIv_eq_ok {iv nonce : Bytes} {seq : ℕ} (h : makeIv iv seq = .ok nonce) :
    iv.length = tls13IvSize ∧ nonce = nonceOf iv seq := by
  unfold makeIv at h
  split_ifs at h with hl
  exact ⟨hl,(Except.ok.inj h).symm⟩

lemma xorFromEnd_length (len : ℕ) (bytes : Bytes) (i : ℕ) (ret : Bytes) :
    (xorFromEnd len bytes i ret).length = ret.length := by
  induction bytes generalizing i ret with
  | nil => rfl
  | cons b bs ih => rw [xorFromEnd,ih,List.length_modify]

@[simp] theorem nonceOf_length (iv : Bytes) (seq : ℕ) : (nonceOf iv seq).length = iv.length :=
  xorFromEnd_length _ _ _ _

lemma xorFromEnd_eq {len : ℕ} {bytes : Bytes} {i : ℕ} {ret : Bytes} (hret : ret.length = len)
    (hi : i+bytes.length ≤ len) : xorFromEnd len bytes i ret =
      xorBytes ret (List.replicate (len-i-bytes.length) 0++bytes.reverse++List.replicate i 0) := by
  -- what is left of the number goes in front of the positions that the loop has passed, the last
  -- byte first
  induction bytes generalizing i ret with
  | nil =>
    have hz : List.replicate (len-i) (0 : UInt8)++List.replicate i 0 =
        List.replicate ret.length 0 := by
      rw [List.replicate_append_replicate,hret]
      congr 1
      exact Nat.sub_add_cancel hi
    simp [xorFromEnd,hz]
  | cons b bs ih =>
    rw [List.length_cons] at hi
    have hpos : (List.replicate (len-(i+1)-bs.length) (0 : UInt8)++bs.reverse).length =
        len-1-i := by
      simp only [List.length_append,List.length_replicate,List.length_reverse]
      omega
    rw [xorFromEnd,ih (by rw [List.length_modify,hret]) (by omega),List.replicate_succ,← hpos,
      xorBytes_modify]
    simp only [List.length_cons,List.reverse_cons,List.append_assoc,List.singleton_append]
    congr 3
    omega

/-- The nonce of a record after RFC 8446, 5.3: the sequence number in network byte order, padded on
the left with zeros to the length of the IV, is XORed with the IV. -/
def perRecordNonce (iv : Bytes) (seq : ℕ) : Bytes :=
  xorBytes iv (List.replicate (iv.length-8) 0++beBytes 8 seq)

/-- As numbers, the nonce is the XOR of the IV and the sequence number. -/
theorem ofBe_perRecordNonce {iv : Bytes} (hiv : iv.length = tls13IvSize) {seq : ℕ}
    (hseq : seq < u64Size) : ofBe (perRecordNonce iv seq) = ofBe iv ^^^ seq := by
  have hmod : seq%256^8 = seq := Nat.mod_eq_of_lt hseq
  rw [perRecordNonce,ofBe_xorBytes (by simp [hiv,tls13IvSize]),ofBe_zeros_append,ofBe_beBytes,hmod]

theorem nonceOf_eq {iv : Bytes} (hiv : iv.length = tls13IvSize) (seq : ℕ) :
    nonceOf iv seq = perRecordNonce iv seq := by
  have hlen : 0+(leBytes 8 seq).length ≤ iv.length := by simp [hiv,tls13IvSize]
  rw [nonceOf,xorFromEnd_eq rfl hlen,perRecordNonce,leBytes_eq_reverse]
  simp

/-- Under one IV, different sequence numbers give different nonces. -/
theorem nonceOf_injective {iv : Bytes} (hiv : iv.length = tls13IvSize) {s t : ℕ}
    (hs : s < u64Size) (ht : t < u64Size) (h : nonceOf iv s = nonceOf iv t) : s = t := by
  rw [nonceOf_eq hiv,nonceOf_eq hiv] at h
  have hnum := congrArg ofBe h
  rw [ofBe_perRecordNonce hiv hs,ofBe_perRecordNonce hiv ht] at hnum
  exact Nat.xor_right_inj.mp hnum

theorem sealChunk_eq_ok {C : Crypto} {c : TlsAeadCodec} {chunk : Bytes} {r : SealedRecord}
    (h : sealChunk C c chunk = .ok r) :
    c.sendIv.length = tls13IvSize ∧ r.cipher = c.cipher ∧ r.key = c.sendKey ∧
      r.plaintext = chunk++[tlsAppData] ∧ r.nonce = nonceOf c.sendIv c.sendSeq ∧
      r.associatedData = c.associatedData chunk ∧
      C.aeadEncrypt r.cipher r.key r.plaintext r.nonce r.associatedData = .ok r.ciphertext := by
  unfold sealChunk at h
  cases hn : makeIv c.sendIv c.sendSeq with
  | error e => simp [hn] at h
  | ok nonce =>
    obtain ⟨hl,rfl⟩ := makeIv_eq_ok hn
    simp only [hn] at h
    cases he : C.aeadEncrypt c.cipher c.sendKey (chunk++[tlsAppData]) (nonceOf c.sendIv c.sendSeq)
        (c.associatedData chunk) with
    | error e => simp [he] at h
    | ok encrypted =>
      simp only [he,Except.ok.injEq] at h
      subst h
      exact ⟨hl,rfl,rfl,rfl,rfl,rfl,he⟩

/-- The buffer of `encrypt` grows by the ciphertexts of the AEAD calls, also when it fails. -/
theorem encryptChunks_buffer (C : Crypto) (cs : List Bytes) (c : TlsAeadCodec) (buf : List Bytes) :
    (encryptChunks C cs (c,buf)).2.2 = buf++(sealedRecords C cs c).map (·.ciphertext) := by
  induction cs generalizing c buf with
  | nil => simp [encryptChunks,sealedRecords]
  | cons chunk cs ih =>
    simp only [encryptChunks,sealedRecords]
    cases sealChunk C c chunk with
    | error e => simp
    | ok r =>
      by_cases hs : c.sendSeq+1 < u64Size
      · simp [hs,ih]
      · simp [hs]

/-- The chunk loop changes nothing of the codec but its send sequence number. -/
theorem encryptChunks_codec (C : Crypto) (cs : List Bytes) (c : TlsAeadCodec) (buf : List Bytes) :
    ∃ n, (encryptChunks C cs (c,buf)).2.1 = c.setSendSeq n := by
  induction cs generalizing c buf with
  | nil => exact ⟨c.sendSeq,rfl⟩
  | cons chunk cs ih =>
    simp only [encryptChunks]
    cases sealChunk C c chunk with
    | error e => exact ⟨c.sendSeq,rfl⟩
    | ok r =>
      by_cases hs : c.sendSeq+1 < u64Size
      · obtain ⟨n,hn⟩ := ih c.bumpSend (buf++[r.ciphertext])
        exact ⟨n,by simp only [hs,if_true,hn]; rfl⟩
      · exact ⟨c.sendSeq,by simp [hs]⟩

/-- Record `i` of a call was sealed by the codec `i` sequence numbers later. -/
theorem sealedRecords_getElem? {C : Crypto} {cs : List Bytes} {c : TlsAeadCodec} {i : ℕ}
    {r : SealedRecord} (h : (sealedRecords C cs c)[i]? = some r) :
    ∃ chunk, sealChunk C (c.setSendSeq (c.sendSeq+i)) chunk = .ok r := by
  induction cs generalizing c i with
  | nil => simp [sealedRecords] at h
  | cons chunk cs ih =>
    simp only [sealedRecords] at h
    cases hs : sealChunk C c chunk with
    | error e => simp [hs] at h
    | ok r' =>
      simp only [hs] at h
      cases i with
      | zero =>
        obtain rfl : r' = r := by simpa using h
        exact ⟨chunk,hs⟩
      | succ i =>
        rw [List.getElem?_cons_succ] at h
        split_ifs at h with hlt
        · obtain ⟨x,hx⟩ := ih h
          refine ⟨x,?_⟩
          rw [bumpSend,setSendSeq_setSendSeq,setSendSeq_sendSeq] at hx
          rwa [show c.sendSeq+(i+1) = c.sendSeq+1+i by omega]
        · simp at h

/-- Nothing but a panic keeps the send sequence number from counting the records. -/
theorem encryptChunks_counts {C : Crypto} {cs : List Bytes} {c : TlsAeadCodec} {buf : List Bytes}
    (h : (encryptChunks C cs (c,buf)).1 ≠ .error .panic) :
    (encryptChunks C cs (c,buf)).2.1 = c.setSendSeq (c.sendSeq+(sealedRecords C cs c).length) := by
  induction cs generalizing c buf with
  | nil => rfl
  | cons chunk cs ih =>
    simp only [encryptChunks,sealedRecords] at h ⊢
    cases hs : sealChunk C c chunk with
    | error e => rfl
    | ok r =>
      by_cases hlt : c.sendSeq+1 < u64Size
      · simp only [hs,if_pos hlt] at h
        simp only [if_pos hlt,ih h,List.length_cons]
        change c.setSendSeq (c.sendSeq+1+_) = _
        congr 1
        omega
      · simp [hs,hlt] at h

lemma encryptChunks_ne_panic {C : Crypto} {cs : List Bytes} {c : TlsAeadCodec} (buf : List Bytes)
    (h : c.sendSeq+(sealedRecords C cs c).length < u64Size) :
    (encryptChunks C cs (c,buf)).1 ≠ .error .panic := by
  induction cs generalizing c buf with
  | nil => simp [encryptChunks]
  | cons chunk cs ih =>
    simp only [encryptChunks,sealedRecords] at h ⊢
    cases hs : sealChunk C c chunk with
    | error e => simp
    | ok r =>
      simp only [hs,List.length_cons] at h
      have hlt : c.sendSeq+1 < u64Size := by omega
      simp only [if_pos hlt] at h ⊢
      refine ih (c := c.bumpSend) (buf++[r.ciphertext]) ?_
      change c.sendSeq+1+_ < u64Size
      omega

/-- The send sequence number counts the records, as long as it does not run out. -/
theorem encryptChunks_sendSeq {C : Crypto} {cs : List Bytes} {c : TlsAeadCodec} (buf : List Bytes)
    (h : c.sendSeq+(sealedRecords C cs c).length < u64Size) :
    (encryptChunks C cs (c,buf)).2.1 = c.setSendSeq (c.sendSeq+(sealedRecords C cs c).length) :=
  encryptChunks_counts (encryptChunks_ne_panic buf h)

/-- A call that returns has not run out of sequence numbers. -/
theorem encryptChunks_room {C : Crypto} {cs : List Bytes} {c : TlsAeadCodec} {buf : List Bytes}
    {s : TlsAeadCodec × List Bytes} (h : encryptChunks C cs (c,buf) = (.ok (),s))
    (hc : c.sendSeq < u64Size) : c.sendSeq+cs.length < u64Size := by
  induction cs generalizing c buf with
  | nil => exact hc
  | cons chunk cs ih =>
    simp only [encryptChunks] at h
    cases hs : sealChunk C c chunk with
    | error e => simp [hs] at h
    | ok r =>
      simp only [hs] at h
      split_ifs at h with hlt
      · have ht := ih h hlt
        rw [bumpSend,setSendSeq_sendSeq] at ht
        rw [List.length_cons]
        omega
      · simp at h

section
variable {C : Crypto} (hC : C.Lawful)
include hC

theorem sealChunk_ok {c : TlsAeadCodec} (hc : c.WellKeyed) {chunk : Bytes}
    (hchunk : chunk.length ≤ tlsMaxRecordSize) : ∃ r, sealChunk C c chunk = .ok r := by
  obtain ⟨x,hx⟩ := hC.encrypt_ok c.cipher (p := chunk++[tlsAppData])
    (n := nonceOf c.sendIv c.sendSeq) (c.associatedData chunk) hc.sendKey_length
    (by simp [hc.sendIv_length]) (by simp [tlsMaxRecordSize] at hchunk ⊢; omega)
  exact ⟨_,by simp only [sealChunk,makeIv_ok hc.sendIv_length,hx]; rfl⟩

/-- The associated data is the header that the frame codec writes for the ciphertext. -/
theorem sealChunk_header {c : TlsAeadCodec} {chunk : Bytes} {r : SealedRecord}
    (h : sealChunk C c chunk = .ok r) :
    r.associatedData = TlsFrameCodec.header r.ciphertext.length := by
  obtain ⟨-,hcipher,-,hp,-,ha,he⟩ := sealChunk_eq_ok h
  have hl := hC.encrypt_length he
  have hn : r.ciphertext.length = chunk.length+c.cipher.tagSize+1 := by
    rw [hl,hp,hcipher,List.length_append,List.length_singleton]
    omega
  rw [ha,associatedData,TlsFrameCodec.header,hn]

/-- A record is accepted by the codec it is meant for, and the type byte is gone. -/
theorem decrypt_sealChunk {a b : TlsAeadCodec} (hab : SendsTo a b) {chunk : Bytes}
    {r : SealedRecord} (h : sealChunk C a chunk = .ok r) (hseq : a.sendSeq+1 < u64Size) :
    (decrypt C r.ciphertext r.associatedData).run b = (.ok chunk,b.bumpRecv) := by
  obtain ⟨hiv,hcipher,hkey,hp,hnonce,-,he⟩ := sealChunk_eq_ok h
  have hd := hC.decrypt_encrypt he
  rw [hcipher,hkey,hp,hnonce,hab.cipher,hab.key,hab.iv,hab.seq] at hd
  rw [hab.iv] at hiv
  rw [hab.seq] at hseq
  simp [decrypt,makeIv_ok hiv,hd,hseq]

/-- With room left in the sequence, every chunk is sealed. -/
theorem encryptChunks_ok {c : TlsAeadCodec} (hc : c.WellKeyed) (cs : List Bytes)
    (hcs : ∀ x ∈ cs, x.length ≤ tlsMaxRecordSize) (hseq : c.sendSeq+cs.length < u64Size)
    (buf : List Bytes) :
    encryptChunks C cs (c,buf) = (.ok (),(c.setSendSeq (c.sendSeq+cs.length),
      buf++(sealedRecords C cs c).map (·.ciphertext))) := by
  induction cs generalizing c buf with
  | nil => simp [encryptChunks,sealedRecords]
  | cons chunk cs ih =>
    simp only [List.length_cons] at hseq
    obtain ⟨r,hr⟩ := sealChunk_ok hC hc (hcs chunk (by simp))
    have ht := ih (hc.setSendSeq (c.sendSeq+1)) (fun x hx => hcs x (by simp [hx]))
      (by rw [setSendSeq_sendSeq]; omega) (buf++[r.ciphertext])
    simp only [encryptChunks,sealedRecords,hr,if_pos (show c.sendSeq+1 < u64Size by omega),bumpSend,
      ht]
    simp [Nat.add_comm,Nat.add_left_comm]

end
end TlsAeadCodec
end MlsTls.TlsAead
