import MlsTls.TlsAead.Nonces
import MlsTls.TlsAead.Receive

/-! The nonces of the records. The loop of `make_iv` reads the sequence number from its low byte on
and writes from the end of the IV on; what it leaves there is the nonce that RFC 8446 gives to the
record. A codec that seals record after record hence uses the nonces of 0, 1, 2, and so on, each
under the IV that belongs to the key of the time. -/
namespace MlsTls.TlsAead
open Lib
namespace TlsAeadCodec

theorem makeIvSlices_of_length {iv : Bytes} (hiv : iv.length = tls13IvSize) (seq : ℕ) :
    makeIvSlices iv seq = .ok (perRecordNonce iv seq) := by
  rw [makeIvSlices_eq,makeIv_ok hiv,nonceOf_eq hiv]
  rfl

theorem makeIvSlices_of_length_ne {iv : Bytes} (hiv : iv.length ≠ tls13IvSize) (seq : ℕ) :
    makeIvSlices iv seq = .error (.error .invalidLength) := if_neg hiv

/-- Every index of `make_iv` is in range. With an IV of its size it computes the nonce of the
record, another one for every sequence number; any other IV is refused. -/
theorem makeIv_per_record (iv : Bytes) :
    (∀ seq : UInt64, makeIvSlices iv seq.toNat ≠ .error .panic) ∧
    (iv.length = tls13IvSize →
      (∀ seq : UInt64, makeIvSlices iv seq.toNat = .ok (perRecordNonce iv seq.toNat)) ∧
      Function.Injective fun seq : UInt64 => makeIvSlices iv seq.toNat) ∧
    (iv.length ≠ tls13IvSize →
      ∀ seq : UInt64, makeIvSlices iv seq.toNat = .error (.error .invalidLength)) := by
  refine ⟨fun seq => ?_,fun hiv => ⟨fun seq => makeIvSlices_of_length hiv _,?_⟩,
    fun hiv seq => makeIvSlices_of_length_ne hiv _⟩
  · by_cases hiv : iv.length = tls13IvSize
    · simp [makeIvSlices_of_length hiv]
    · simp [makeIvSlices_of_length_ne hiv]
  · intro s t h
    -- read as numbers, the nonces are the IV XORed with the sequence numbers
    have hnonce : perRecordNonce iv s.toNat = perRecordNonce iv t.toNat := by
      simpa [makeIvSlices_of_length hiv] using h
    rw [← nonceOf_eq hiv,← nonceOf_eq hiv] at hnonce
    exact UInt64.toNat_inj.mp (nonceOf_injective hiv s.toNat_lt t.toNat_lt hnonce)

/-- The bytes of a number of eight different bytes, on an IV of ones and zeros. -/
theorem makeIv_per_record_bytes :
    makeIvSlices [255,255,255,255,0,0,0,0,0,0,0,255] (0x0102030405060708 : UInt64).toNat =
      .ok [255,255,255,255,1,2,3,4,5,6,7,247] ∧
    makeIvSlices (List.replicate 8 0) (7 : UInt64).toNat = .error (.error .invalidLength) := by
  obtain ⟨-,htwelve,-⟩ := makeIv_per_record [255,255,255,255,0,0,0,0,0,0,0,255]
  obtain ⟨-,-,height⟩ := makeIv_per_record (List.replicate 8 0)
  refine ⟨?_,height (by decide) 7⟩
  rw [(htwelve rfl).1]
  decide

/-- Over any calls on a new codec, key switches among them, the record at position `i` has the nonce
of sequence number `i` under an IV that was expanded with its key. -/
theorem sealedBy_per_record {C : Crypto} {hash : HashType} {cipher : AeadType} {isServer : Bool}
    {secrets : TrafficSecrets} {context : Bytes} {c : TlsAeadCodec}
    (hnew : new C isServer secrets context hash cipher = .ok c) {calls : List Call}
    (hlen : (sealedBy C calls c).length < u64Size) {i : ℕ} {r : SealedRecord}
    (hr : (sealedBy C calls c)[i]? = some r) :
    ∃ iv, C.Expanded hash cipher r.key iv ∧ r.nonce = perRecordNonce iv i ∧
      ofBe r.nonce = ofBe iv ^^^ i := by
  obtain ⟨c',h⟩ := (stamped_new hnew).run calls hlen
  obtain ⟨iv,hkey,hiv,hnonce⟩ := h.records hr
  have hi : i < (sealedBy C calls c).length := (List.getElem?_eq_some_iff.mp hr).1
  rw [nonceOf_eq hiv] at hnonce
  refine ⟨iv,hkey,hnonce,?_⟩
  rw [hnonce,ofBe_perRecordNonce hiv (by omega)]

end TlsAeadCodec
end MlsTls.TlsAead
