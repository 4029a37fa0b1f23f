import MlsTls.TlsAead.Sample

/-! The record pipeline from byte strings to a byte stream and back: chunking and sealing,
framing, incremental decoding, opening. The pipeline is lossless however the transport cuts
the stream. -/
namespace MlsTls.TlsAead
open Lib TlsAeadCodec

/-- Encrypt one string and write every buffered ciphertext to the stream. -/
def writeData (C : Crypto) (data : Bytes) : Exec (TlsAeadCodec × Bytes) TlsAeadCodecError Unit :=
  ⟨fun (c,out) =>
    match (encrypt C data).run (c,[]) with
    | (r,(c',buf)) => (r,(c',buf.foldl (fun dst x => TlsFrameCodec.encode x dst) out))⟩

def writeAll (C : Crypto) : List Bytes → Exec (TlsAeadCodec × Bytes) TlsAeadCodecError Unit
  | [] => pure ()
  | data::datas => do
    writeData C data
    writeAll C datas

/-- Open each packet with its own header as associated data. -/
def decryptAll (C : Crypto) : List TlsPacketIn → Exec TlsAeadCodec TlsAeadCodecError (List Bytes)
  | [] => pure []
  | packet::packets => do
    let plaintext ← decrypt C packet.data packet.header
    let rest ← decryptAll C packets
    return plaintext::rest

/-- All records of a list of strings, in order. -/
def recordChunks (datas : List Bytes) : List Bytes := datas.flatMap (chunks tlsMaxRecordSize)

/-- The packet a record arrives as. -/
def SealedRecord.packet (r : SealedRecord) : TlsPacketIn :=
  ⟨TlsFrameCodec.header r.ciphertext.length,r.ciphertext⟩

def SealedRecord.bytes (r : SealedRecord) : Bytes := TlsFrameCodec.frame r.ciphertext

lemma tlsMaxRecordSize_pos : 0 < tlsMaxRecordSize := by decide

@[simp] theorem recordChunks_cons (data : Bytes) (datas : List Bytes) :
    recordChunks (data::datas) = chunks tlsMaxRecordSize data++recordChunks datas := rfl

theorem recordChunks_flatten (datas : List Bytes) : (recordChunks datas).flatten = datas.flatten := by
  induction datas with
  | nil => rfl
  | cons data datas ih =>
    rw [recordChunks_cons,List.flatten_append,ih,chunks_flatten tlsMaxRecordSize_pos,
      List.flatten_cons]

lemma length_le_of_mem_recordChunks {datas : List Bytes} {x : Bytes} (h : x ∈ recordChunks datas) :
    x.length ≤ tlsMaxRecordSize := by
  obtain ⟨data,-,hx⟩ := List.mem_flatMap.mp h
  exact length_le_of_mem_chunks tlsMaxRecordSize_pos hx

lemma sealedRecords_cons {C : Crypto} {c : TlsAeadCodec} {x : Bytes} {r : SealedRecord}
    (hr : sealChunk C c x = .ok r) (hseq : c.sendSeq+1 < u64Size) (xs : List Bytes) :
    sealedRecords C (x::xs) c = r::sealedRecords C xs c.bumpSend := by
  simp [sealedRecords,hr,hseq]

section
variable {C : Crypto} (hC : C.Lawful)
include hC

lemma sealedRecords_append {c : TlsAeadCodec} (hc : c.WellKeyed) {xs : List Bytes}
    (hxs : ∀ x ∈ xs, x.length ≤ tlsMaxRecordSize) (hseq : c.sendSeq+xs.length < u64Size)
    (ys : List Bytes) :
    sealedRecords C (xs++ys) c = sealedRecords C xs c++
      sealedRecords C ys (c.setSendSeq (c.sendSeq+xs.length)) := by
  induction xs generalizing c with
  | nil => rfl
  | cons x xs ih =>
    simp only [List.length_cons] at hseq
    obtain ⟨r,hr⟩ := sealChunk_ok hC hc (hxs x (by simp))
    have ht := ih (hc.setSendSeq (c.sendSeq+1)) (fun y hy => hxs y (by simp [hy]))
      (by rw [setSendSeq_sendSeq]; omega)
    rw [List.cons_append,sealedRecords_cons hr (by omega),sealedRecords_cons hr (by omega),
      bumpSend,ht,List.cons_append]
    simp [Nat.add_comm,Nat.add_left_comm]

lemma ciphertext_length_lt {c : TlsAeadCodec} {xs : List Bytes}
    (hxs : ∀ x ∈ xs, x.length ≤ tlsMaxRecordSize) {r : SealedRecord}
    (hr : r ∈ sealedRecords C xs c) : r.ciphertext.length < 2^16 := by
  induction xs generalizing c with
  | nil => simp [sealedRecords] at hr
  | cons x xs ih =>
    cases hs : sealChunk C c x with
    | error e => simp [sealedRecords,hs] at hr
    | ok r' =>
      simp only [sealedRecords,hs,List.mem_cons] at hr
      rcases hr with rfl | hr
      · obtain ⟨-,-,-,hp,-,-,he⟩ := sealChunk_eq_ok hs
        have hl := hC.encrypt_length he
        have hx := hxs x (by simp)
        simp only [hp,List.length_append,List.length_singleton,AeadType.tagSize_eq] at hl
        simp only [tlsMaxRecordSize] at hx
        omega
      · split_ifs at hr
        · exact ih (fun y hy => hxs y (by simp [hy])) hr
        · simp at hr

theorem writeData_ok {c : TlsAeadCodec} (hc : c.WellKeyed) (data : Bytes)
    (hseq : c.sendSeq+(chunks tlsMaxRecordSize data).length < u64Size) (out : Bytes) :
    (writeData C data).run (c,out) = (.ok (),
      (c.setSendSeq (c.sendSeq+(chunks tlsMaxRecordSize data).length),
        out++((sealedRecords C (chunks tlsMaxRecordSize data) c).map SealedRecord.bytes).flatten)) := by
  have h := encryptChunks_ok hC hc (chunks tlsMaxRecordSize data)
    (fun x hx => length_le_of_mem_chunks tlsMaxRecordSize_pos hx) hseq []
  simp only [writeData,encrypt,c.maxFrameSize_eq,h,TlsFrameCodec.foldl_encode,List.nil_append,List.map_map]
  rfl

/-- Writing succeeds while the sequence lasts, and the stream holds the frames in order. -/
theorem writeAll_ok {c : TlsAeadCodec} (hc : c.WellKeyed) {datas : List Bytes}
    (hseq : c.sendSeq+(recordChunks datas).length < u64Size) (out : Bytes) :
    (writeAll C datas).run (c,out) = (.ok (),
      (c.setSendSeq (c.sendSeq+(recordChunks datas).length),
        out++((sealedRecords C (recordChunks datas) c).map SealedRecord.bytes).flatten)) := by
  induction datas generalizing c out with
  | nil => simp [writeAll,recordChunks,sealedRecords]
  | cons data datas ih =>
    simp only [recordChunks_cons,List.length_append] at hseq ⊢
    have hw := writeData_ok hC hc data (by omega) out
    have ht := ih (c := c.setSendSeq (c.sendSeq+(chunks tlsMaxRecordSize data).length))
      (hc.setSendSeq _) (by rw [setSendSeq_sendSeq]; omega)
      (out++((sealedRecords C (chunks tlsMaxRecordSize data) c).map SealedRecord.bytes).flatten)
    rw [writeAll,Exec.bind_of_ok hw,ht,sealedRecords_append hC hc
      (fun x hx => length_le_of_mem_chunks tlsMaxRecordSize_pos hx) (by omega)]
    simp [Nat.add_assoc]

/-- The codec on the other side opens every record of the stream. -/
theorem decryptAll_ok {a b : TlsAeadCodec} (ha : a.WellKeyed) (hab : SendsTo a b) {xs : List Bytes}
    (hxs : ∀ x ∈ xs, x.length ≤ tlsMaxRecordSize) (hseq : a.sendSeq+xs.length < u64Size) :
    (decryptAll C ((sealedRecords C xs a).map SealedRecord.packet)).run b =
      (.ok xs,b.setRecvSeq (b.recvSeq+xs.length)) := by
  induction xs generalizing a b with
  | nil => simp [decryptAll,sealedRecords]
  | cons x xs ih =>
    simp only [List.length_cons] at hseq
    obtain ⟨r,hr⟩ := sealChunk_ok hC ha (hxs x (by simp))
    have hd := decrypt_sealChunk hC hab hr (by omega)
    have hh := sealChunk_header hC hr
    have hd' : (decrypt C r.packet.data r.packet.header).run b = (.ok x,b.bumpRecv) := by
      rw [SealedRecord.packet,← hh]
      exact hd
    have ht := ih (ha.setSendSeq (a.sendSeq+1)) hab.bump (fun y hy => hxs y (by simp [hy]))
      (by rw [setSendSeq_sendSeq]; omega)
    rw [sealedRecords_cons hr (by omega),List.map_cons,decryptAll,Exec.bind_of_ok hd',bumpSend,
      Exec.bind_of_ok ht]
    simp [bumpRecv,Nat.add_comm,Nat.add_left_comm]

/-- However the stream is cut, the frame decoder finds the packets of the records. -/
theorem feed_records {c : TlsAeadCodec} {xs : List Bytes}
    (hxs : ∀ x ∈ xs, x.length ≤ tlsMaxRecordSize) {pieces : List Bytes}
    (hp : pieces.flatten = ((sealedRecords C xs c).map SealedRecord.bytes).flatten) :
    feed TlsFrameCodec.decode [] pieces = ((sealedRecords C xs c).map SealedRecord.packet,[]) := by
  rw [feed_eq_drain TlsFrameCodec.decode_stable [] TlsFrameCodec.decode_nil,List.nil_append,hp]
  have h := drain_encoded TlsFrameCodec.decode_stable SealedRecord.bytes SealedRecord.packet
    (sealedRecords C xs c)
    (fun r hr rest => TlsFrameCodec.decode_frame (ciphertext_length_lt hC hxs hr) rest) []
  simpa [drain_none TlsFrameCodec.decode_nil] using h

/-- The pipeline round trip. -/
theorem record_pipeline_round_trip {a b : TlsAeadCodec} (ha : a.WellKeyed) (hab : Mirrored a b)
    (datas : List Bytes) (hseq : a.sendSeq+(recordChunks datas).length < u64Size) :
    ∃ a' stream, (writeAll C datas).run (a,[]) = (.ok (),(a',stream)) ∧
      ∀ pieces : List Bytes, pieces.flatten = stream →
        ∃ packets plaintexts b', feed TlsFrameCodec.decode [] pieces = (packets,[]) ∧
          (decryptAll C packets).run b = (.ok plaintexts,b') ∧
          plaintexts.flatten = datas.flatten ∧ b'.recvSeq = a'.sendSeq := by
  have hxs : ∀ x ∈ recordChunks datas, x.length ≤ tlsMaxRecordSize :=
    fun x hx => length_le_of_mem_recordChunks hx
  refine ⟨_,_,writeAll_ok hC ha hseq [],?_⟩
  intro pieces hp
  rw [List.nil_append] at hp
  refine ⟨_,_,_,feed_records hC hxs hp,decryptAll_ok hC ha hab.forth hxs hseq,
    recordChunks_flatten datas,?_⟩
  simp [hab.forth.seq]

end

/-- Two strings over a fresh sample connection. -/
theorem record_pipeline_sample :
    ∃ a' stream, (writeAll sampleCrypto [[1,2,3],[4]]).run (sampleCodec false,[]) =
        (.ok (),(a',stream)) ∧
      ∀ pieces : List Bytes, pieces.flatten = stream →
        ∃ packets plaintexts b', feed TlsFrameCodec.decode [] pieces = (packets,[]) ∧
          (decryptAll sampleCrypto packets).run (sampleCodec true) = (.ok plaintexts,b') ∧
          plaintexts.flatten = [1,2,3,4] ∧ b'.recvSeq = a'.sendSeq :=
  record_pipeline_round_trip sampleCrypto_lawful (sampleCodec_wellKeyed false) sampleCodec_mirrored
    [[1,2,3],[4]] (by decide)
end MlsTls.TlsAead
