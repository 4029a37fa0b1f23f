import MlsTls.TlsAead.Pipeline

/-! The codec methods that write and read the record header themselves, next to those that leave
it to the frame codec. Sending is the same either way. Receiving is not: `decrypt_with_header`
classifies a record by its length first and takes the shortest one for an empty frame, which it
never opens. The records of both methods hold up to twice of what TLS allows a record to hold. -/
namespace MlsTls.TlsAead
open Lib

/-- A ciphertext is as long as its plaintext and the tag together. -/
def Crypto.Extends (C : Crypto) : Prop :=
  ∀ {a k p n ad x}, C.aeadEncrypt a k p n ad = .ok x → x.length = p.length+a.tagSize

namespace TlsAeadCodec

/-- The two chunk loops go through the same codecs and fail in the same place. -/
theorem encryptChunksWithHeader_eq (C : Crypto) (cs frames : List Bytes) (c : TlsAeadCodec)
    (buf : List Bytes) :
    encryptChunksWithHeader C cs frames c =
      ((encryptChunks C cs (c,buf)).1.map fun _ =>
        frames++(sealedRecords C cs c).map SealedRecord.bytes,(encryptChunks C cs (c,buf)).2.1) := by
  induction cs generalizing c frames buf with
  | nil => simp [encryptChunksWithHeader,encryptChunks,sealedRecords,Except.map]
  | cons chunk cs ih =>
    simp only [encryptChunksWithHeader,encryptChunks,sealedRecords]
    cases sealChunk C c chunk with
    | error e => rfl
    | ok r =>
      by_cases hs : c.sendSeq+1 < u64Size
      · simp only [if_pos hs]
        rw [ih _ _ (buf++[r.ciphertext])]
        simp [SealedRecord.bytes,TlsFrameCodec.frame,TlsFrameCodec.encode,TlsFrameCodec.header]
      · simp only [if_neg hs]
        rfl

/-- Every record of a call seals one of its chunks. -/
theorem exists_chunk_of_mem {C : Crypto} {cs : List Bytes} {c : TlsAeadCodec} {r : SealedRecord}
    (h : r ∈ sealedRecords C cs c) : ∃ n, ∃ chunk ∈ cs, sealChunk C (c.setSendSeq n) chunk = .ok r := by
  induction cs generalizing c with
  | nil => simp [sealedRecords] at h
  | cons chunk cs ih =>
    simp only [sealedRecords] at h
    cases hs : sealChunk C c chunk with
    | error e => simp [hs] at h
    | ok r' =>
      simp only [hs,List.mem_cons] at h
      rcases h with rfl | h
      · exact ⟨c.sendSeq,chunk,by simp,hs⟩
      · split_ifs at h with hlt
        · obtain ⟨n,x,hx,hn⟩ := ih h
          exact ⟨n,x,by simp [hx],by simpa [bumpSend] using hn⟩
        · simp at h

/-- The ciphertext of a chunk fits the length field, and its header is what was authenticated. -/
theorem sealChunk_frame {C : Crypto} (hC : C.Extends) {c : TlsAeadCodec} {chunk : Bytes}
    {r : SealedRecord} (h : sealChunk C c chunk = .ok r) (hchunk : chunk.length ≤ tlsMaxRecordSize) :
    r.ciphertext.length < 2^16 ∧
      (TlsFrameCodec.encode r.ciphertext []).take tlsHdrSize = r.associatedData := by
  obtain ⟨-,hcipher,-,hp,-,ha,he⟩ := sealChunk_eq_ok h
  have hlen : r.ciphertext.length = chunk.length+c.cipher.tagSize+1 := by
    rw [hC he,hp,hcipher,List.length_append,List.length_singleton]
    omega
  constructor
  · simp only [tlsMaxRecordSize] at hchunk
    rw [hlen,AeadType.tagSize_eq]
    omega
  · rw [TlsFrameCodec.encode,List.nil_append,List.take_left' (TlsFrameCodec.header_length _),ha,
      associatedData,TlsFrameCodec.header,hlen]

/-- Encrypting with headers leaves the same codec and the same outcome as encrypting to the
buffer; the frames are the encodings of the buffered ciphertexts, none of which is too long for
the length field, and the header of each is its associated data. -/
theorem encryptWithHeader_agrees {C : Crypto} (hC : C.Extends) (c : TlsAeadCodec) (data : Bytes)
    (buf : List Bytes) :
    let records := sealedRecords C (chunks c.maxFrameSize data) c
    ((encryptWithHeader C data).run c).2 = ((encrypt C data).run (c,buf)).2.1 ∧
      ((encryptWithHeader C data).run c).1 = ((encrypt C data).run (c,buf)).1.map
        (fun _ => records.map fun r => TlsFrameCodec.encode r.ciphertext []) ∧
      ((encrypt C data).run (c,buf)).2.2 = buf++records.map (·.ciphertext) ∧
      ∀ r ∈ records, r.ciphertext.length < 2^16 ∧
        (TlsFrameCodec.encode r.ciphertext []).take tlsHdrSize = r.associatedData ∧
        C.aeadEncrypt r.cipher r.key r.plaintext r.nonce r.associatedData = .ok r.ciphertext := by
  have h := encryptChunksWithHeader_eq C (chunks c.maxFrameSize data) [] c buf
  refine ⟨congrArg Prod.snd h,congrArg Prod.fst h,encryptChunks_buffer C _ c buf,?_⟩
  intro r hr
  obtain ⟨n,chunk,hmem,hseal⟩ := exists_chunk_of_mem hr
  rw [c.maxFrameSize_eq] at hmem
  obtain ⟨hlen,hheader⟩ :=
    sealChunk_frame hC hseal (length_le_of_mem_chunks tlsMaxRecordSize_pos hmem)
  obtain ⟨-,-,-,-,-,-,he⟩ := sealChunk_eq_ok hseal
  exact ⟨hlen,hheader,he⟩

theorem encryptWithHeader_agrees_sample :
    sampleCrypto.Extends ∧
      ((encryptWithHeader sampleCrypto [1,2,3]).run (sampleCodec false)).1 =
        ((encrypt sampleCrypto [1,2,3]).run (sampleCodec false,[])).1.map fun _ =>
          (sealedRecords sampleCrypto (chunks tlsMaxRecordSize [1,2,3]) (sampleCodec false)).map
            fun r => TlsFrameCodec.encode r.ciphertext [] :=
  ⟨sampleCrypto_lawful.encrypt_length,
    (encryptWithHeader_agrees sampleCrypto_lawful.encrypt_length (sampleCodec false) [1,2,3] []).2.1⟩

/-- What reading a whole record should do: the same as opening what follows the header, with the
header as associated data. So what it accepts was authenticated, and is counted. -/
structure OpensWithHeader (C : Crypto) (c : TlsAeadCodec) (data : Bytes) : Prop where
  run_eq : (decryptWithHeader C data).run c =
    (decrypt C (data.drop tlsHdrSize) (data.take tlsHdrSize)).run c
  authentic : ∀ {m c'}, (decryptWithHeader C data).run c = (.ok m,c') →
    ∃ nonce p, makeIv c.recvIv c.recvSeq = .ok nonce ∧ C.aeadDecrypt c.cipher c.recvKey
      (data.drop tlsHdrSize) nonce (data.take tlsHdrSize) = .ok p ∧ m = p.dropLast
  counted : ∀ {m c'}, (decryptWithHeader C data).run c = (.ok m,c') → c'.recvSeq = c.recvSeq+1

theorem decrypt_eq_ok {C : Crypto} {c c' : TlsAeadCodec} {ciphertext ad m : Bytes}
    (h : (decrypt C ciphertext ad).run c = (.ok m,c')) :
    ∃ nonce p, makeIv c.recvIv c.recvSeq = .ok nonce ∧
      C.aeadDecrypt c.cipher c.recvKey ciphertext nonce ad = .ok p ∧ m = p.dropLast ∧
      c' = c.bumpRecv := by
  simp only [decrypt] at h
  cases hn : makeIv c.recvIv c.recvSeq with
  | error e => simp [hn] at h
  | ok nonce =>
    simp only [hn] at h
    cases hd : C.aeadDecrypt c.cipher c.recvKey ciphertext nonce ad with
    | error e => simp [hd] at h
    | ok p =>
      simp only [hd] at h
      split_ifs at h with hseq hp
      · simp at h
      · obtain ⟨hm,hc⟩ := Prod.mk.inj h
        exact ⟨nonce,p,rfl,hd,(Except.ok.inj hm).symm,hc.symm⟩
      · simp at h

/-- The two receive paths agree on a record exactly if it is longer than the shortest one. -/
theorem opensWithHeader_iff (C : Crypto) (c : TlsAeadCodec) (data : Bytes)
    (hdata : minRecordSize ≤ data.length) :
    OpensWithHeader C c data ↔ minRecordSize < data.length := by
  constructor
  · intro h
    by_contra hlt
    have heq : data.length = minRecordSize := by omega
    have hrun : (decryptWithHeader C data).run c = (.ok [],c) := by
      simp [decryptWithHeader,heq]
    have hcount := h.counted hrun
    omega
  · intro hlt
    have hrun : decryptWithHeader C data =
        decrypt C (data.drop tlsHdrSize) (data.take tlsHdrSize) := by
      rw [decryptWithHeader,if_neg (by omega),if_neg (by omega)]
    refine ⟨by rw [hrun],?_,?_⟩
    · intro m c' h
      rw [hrun] at h
      obtain ⟨nonce,p,hn,hd,hm,-⟩ := decrypt_eq_ok h
      exact ⟨nonce,p,hn,hd,hm⟩
    · intro m c' h
      rw [hrun] at h
      obtain ⟨-,-,-,-,-,rfl⟩ := decrypt_eq_ok h
      rfl

/-- A forged record of twenty-two zero bytes is taken for an empty frame and not counted, while
the other path refuses it. -/
theorem opensWithHeader_forged :
    (List.replicate minRecordSize 0).length = minRecordSize ∧
      (decryptWithHeader sampleCrypto (List.replicate minRecordSize 0)).run (sampleCodec true) =
        (.ok [],sampleCodec true) ∧
      (decrypt sampleCrypto (List.replicate 17 0) (List.replicate 5 0)).run (sampleCodec true) =
        (.error (.error (.cryptoError .aeadDecryptionError)),sampleCodec true) ∧
      ¬ OpensWithHeader sampleCrypto (sampleCodec true) (List.replicate minRecordSize 0) := by
  refine ⟨by decide,by decide +kernel,by decide +kernel,?_⟩
  intro h
  have hrun : (decryptWithHeader sampleCrypto (List.replicate minRecordSize 0)).run
      (sampleCodec true) = (.ok [],sampleCodec true) := by decide +kernel
  have hcount := h.counted hrun
  omega

theorem opensWithHeader_iff_longer :
    minRecordSize ≤ (List.replicate 23 (0 : UInt8)).length ∧
      (OpensWithHeader sampleCrypto (sampleCodec true) (List.replicate 23 0) ↔
        minRecordSize < (List.replicate 23 (0 : UInt8)).length) :=
  ⟨by decide,opensWithHeader_iff sampleCrypto (sampleCodec true) (List.replicate 23 0) (by decide)⟩

/-- The length field of a frame. -/
def lengthField (frame : Bytes) : ℕ := ofBe ((frame.drop 3).take 2)

/-- The record limits of RFC 8446, on everything that either way of encrypting makes of the data:
at most `2^14` bytes of content in a record, and a length field that is right and at most `2^14+256`.
Together the records hold the data. -/
structure WithinLimits (C : Crypto) (c : TlsAeadCodec) (data : Bytes) : Prop where
  buffer : ∀ buf, ((encrypt C data).run (c,buf)).2.2 =
    buf++(sealedRecords C (chunks c.maxFrameSize data) c).map (·.ciphertext)
  frames : ∀ {frames}, ((encryptWithHeader C data).run c).1 = .ok frames →
    frames = (sealedRecords C (chunks c.maxFrameSize data) c).map
      fun r => TlsFrameCodec.encode r.ciphertext []
  content : ∀ r ∈ sealedRecords C (chunks c.maxFrameSize data) c,
    ∃ content, r.plaintext = content++[tlsAppData] ∧ content.length ≤ 2^14
  length_le : ∀ r ∈ sealedRecords C (chunks c.maxFrameSize data) c,
    lengthField (TlsFrameCodec.encode r.ciphertext []) ≤ 2^14+256
  length_eq : ∀ r ∈ sealedRecords C (chunks c.maxFrameSize data) c,
    lengthField (TlsFrameCodec.encode r.ciphertext []) = r.ciphertext.length ∧
      lengthField r.associatedData = r.ciphertext.length
  whole : ∀ {buf}, ((encrypt C data).run (c,buf)).1 = .ok () →
    ((sealedRecords C (chunks c.maxFrameSize data) c).map (·.plaintext.dropLast)).flatten = data

lemma sealedRecords_contents {C : Crypto} {cs : List Bytes} {c : TlsAeadCodec} {buf : List Bytes}
    (h : (encryptChunks C cs (c,buf)).1 = .ok ()) :
    (sealedRecords C cs c).map (·.plaintext.dropLast) = cs := by
  induction cs generalizing c buf with
  | nil => rfl
  | cons chunk cs ih =>
    simp only [encryptChunks] at h
    cases hs : sealChunk C c chunk with
    | error e => simp [hs] at h
    | ok r =>
      simp only [hs] at h
      split_ifs at h with hlt
      · obtain ⟨-,-,-,hp,-,-,-⟩ := sealChunk_eq_ok hs
        rw [sealedRecords_cons hs hlt,List.map_cons,ih h,hp,List.dropLast_concat]

lemma lengthField_header {n : ℕ} (h : n < 2^16) (r : Bytes) :
    lengthField (TlsFrameCodec.header n++r) = n := by
  have htake : ((TlsFrameCodec.header n++r).drop 3).take 2 = beBytes 2 n := by
    simp [TlsFrameCodec.header,beBytes]
  rw [lengthField,htake,ofBe_beBytes]
  exact Nat.mod_eq_of_lt h

lemma sealChunk_withinLimits {C : Crypto} (hC : C.Lawful) {c : TlsAeadCodec} {chunk : Bytes}
    {r : SealedRecord} (h : sealChunk C c chunk = .ok r) (hchunk : chunk.length ≤ 2^14) :
    r.ciphertext.length ≤ 2^14+256 ∧
      lengthField (TlsFrameCodec.encode r.ciphertext []) = r.ciphertext.length ∧
      lengthField r.associatedData = r.ciphertext.length := by
  obtain ⟨-,hcipher,-,hp,-,-,he⟩ := sealChunk_eq_ok h
  have hlen : r.ciphertext.length = chunk.length+17 := by
    rw [hC.encrypt_length he,hp,AeadType.tagSize_eq,List.length_append,List.length_singleton]
  have hfits : r.ciphertext.length < 2^16 := by omega
  refine ⟨by omega,lengthField_header hfits _,?_⟩
  have hfield := lengthField_header hfits []
  rwa [List.append_nil,← sealChunk_header hC h] at hfield

theorem withinLimits_of_length_le {C : Crypto} (hC : C.Lawful) (c : TlsAeadCodec) {data : Bytes}
    (hdata : data.length ≤ 2^14) : WithinLimits C c data := by
  have hchunks : ∀ chunk ∈ chunks c.maxFrameSize data, chunk.length ≤ 2^14 := by
    intro chunk hchunk
    rw [c.maxFrameSize_eq] at hchunk
    by_cases hnil : data = []
    · simp [hnil] at hchunk
    · rw [chunks_of_length_le tlsMaxRecordSize_pos hnil (by rw [tlsMaxRecordSize]; omega),
        List.mem_singleton] at hchunk
      rwa [hchunk]
  have hrecords {r : SealedRecord} (hr : r ∈ sealedRecords C (chunks c.maxFrameSize data) c) :
      ∃ n, ∃ chunk, chunk.length ≤ 2^14 ∧ sealChunk C (c.setSendSeq n) chunk = .ok r := by
    obtain ⟨n,chunk,hmem,hseal⟩ := exists_chunk_of_mem hr
    exact ⟨n,chunk,hchunks chunk hmem,hseal⟩
  have hheader := encryptChunksWithHeader_eq C (chunks c.maxFrameSize data) [] c []
  refine ⟨encryptChunks_buffer C (chunks c.maxFrameSize data) c,?_,?_,?_,?_,?_⟩
  · intro frames hframes
    simp only [encryptWithHeader,hheader,List.nil_append] at hframes
    cases hrun : (encryptChunks C (chunks c.maxFrameSize data) (c,[])).1 with
    | error f => simp [hrun,Except.map] at hframes
    | ok u =>
      rw [hrun] at hframes
      exact (Except.ok.inj hframes).symm
  · intro r hr
    obtain ⟨n,chunk,hchunk,hseal⟩ := hrecords hr
    exact ⟨chunk,(sealChunk_eq_ok hseal).2.2.2.1,hchunk⟩
  · intro r hr
    obtain ⟨n,chunk,hchunk,hseal⟩ := hrecords hr
    obtain ⟨hle,heq,-⟩ := sealChunk_withinLimits hC hseal hchunk
    omega
  · intro r hr
    obtain ⟨n,chunk,hchunk,hseal⟩ := hrecords hr
    exact (sealChunk_withinLimits hC hseal hchunk).2
  · intro buf hrun
    rw [sealedRecords_contents hrun,c.maxFrameSize_eq,chunks_flatten tlsMaxRecordSize_pos]

lemma not_withinLimits {C : Crypto} (hC : C.Lawful) {c : TlsAeadCodec} (hc : c.WellKeyed)
    {data : Bytes} (hdata : 2^14 < data.length) : ¬WithinLimits C c data := by
  -- the frame size is twice the limit, so that the first record of longer data is too large
  intro h
  have hnil : data ≠ [] := List.ne_nil_of_length_pos (by omega)
  obtain ⟨r,hr⟩ := sealChunk_ok hC hc (List.length_take_le tlsMaxRecordSize data)
  have hmem : r ∈ sealedRecords C (chunks c.maxFrameSize data) c := by
    rw [c.maxFrameSize_eq,chunks_cons tlsMaxRecordSize_pos hnil]
    simp [sealedRecords,hr]
  obtain ⟨content,hp,hle⟩ := h.content r hmem
  rw [(sealChunk_eq_ok hr).2.2.2.1] at hp
  have hcontent := congrArg List.length (List.append_inj_left' hp rfl)
  rw [List.length_take,tlsMaxRecordSize] at hcontent
  omega

/-- Data of up to `2^14` bytes is encrypted within the limits, and longer data never is. -/
theorem record_limits_iff {C : Crypto} (hC : C.Lawful) (c : TlsAeadCodec) (data : Bytes) :
    (data.length ≤ 2^14 → WithinLimits C c data) ∧
      (c.WellKeyed → (WithinLimits C c data ↔ data.length ≤ 2^14)) := by
  refine ⟨withinLimits_of_length_le hC c,fun hc => ⟨?_,withinLimits_of_length_le hC c⟩⟩
  intro h
  by_contra hlong
  exact not_withinLimits hC hc (by omega) h

theorem record_limits_iff_sample :
    (sampleCodec false).WellKeyed ∧
      (WithinLimits sampleCrypto (sampleCodec false) [1,2,3] ↔ [1,2,3].length ≤ 2^14) :=
  ⟨sampleCodec_wellKeyed false,(record_limits_iff sampleCrypto_lawful (sampleCodec false)
    [1,2,3]).2 (sampleCodec_wellKeyed false)⟩

/-- One byte more than fits a record is still put into one. -/
theorem record_limits_exceeded :
    ¬WithinLimits sampleCrypto (sampleCodec false) (List.replicate (2^14+1) 0) :=
  not_withinLimits sampleCrypto_lawful (sampleCodec_wellKeyed false)
    (by rw [List.length_replicate]; omega)

end TlsAeadCodec
end MlsTls.TlsAead
