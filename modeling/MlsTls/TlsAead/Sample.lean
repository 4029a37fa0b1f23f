import MlsTls.TlsAead.Aead

/-! A small crypto provider that has all the properties relied on. It is computable, so that
the record layer can be evaluated on concrete inputs, and it shows that the assumed laws
are satisfiable together. -/
namespace MlsTls.TlsAead
open Lib

namespace Sample

/-- A checksum over everything that is authenticated besides the text. -/
def tag (k n ad : Bytes) : Bytes := beBytes 16 ((k++n++ad).foldl (fun s b => s*3+b.toNat) 7)

def aeadEncrypt (a : AeadType) (k p n ad : Bytes) : Except CryptoError Bytes :=
  if k.length = a.keySize ∧ n.length = tls13IvSize then .ok (p++tag k n ad)
  else .error .invalidLength

def aeadDecrypt (a : AeadType) (k c n ad : Bytes) : Except CryptoError Bytes :=
  if k.length = a.keySize ∧ n.length = tls13IvSize ∧ 16 ≤ c.length ∧
      c.drop (c.length-16) = tag k n ad then .ok (c.take (c.length-16))
  else .error .aeadDecryptionError

def hkdfExtract (h : HashType) (_salt ikm : Bytes) : Except CryptoError Bytes :=
  .ok ((ikm++List.replicate h.size 0).take h.size)

/-- The label shifts every byte, so that different labels give different keys. -/
def hkdfExpand (h : HashType) (prk info : Bytes) (len : ℕ) : Except CryptoError Bytes :=
  if h.size ≤ prk.length ∧ len ≤ 255*h.size then
    .ok (((prk++List.replicate len 0).take len).map (· + info.foldl (· + ·) 0))
  else .error .invalidLength

@[simp] theorem tag_length (k n ad : Bytes) : (tag k n ad).length = 16 := by simp [tag]

theorem aeadEncrypt_eq_ok {a : AeadType} {k p n ad c : Bytes} (h : aeadEncrypt a k p n ad = .ok c) :
    k.length = a.keySize ∧ n.length = tls13IvSize ∧ c = p++tag k n ad := by
  unfold aeadEncrypt at h
  split_ifs at h with hk
  exact ⟨hk.1,hk.2,(Except.ok.inj h).symm⟩

end Sample

def sampleCrypto : Crypto where
  aeadEncrypt := Sample.aeadEncrypt
  aeadDecrypt := Sample.aeadDecrypt
  hkdfExtract := Sample.hkdfExtract
  hkdfExpand := Sample.hkdfExpand

theorem sampleCrypto_lawful : sampleCrypto.Lawful where
  decrypt_encrypt := by
    intro a k p n ad c h
    obtain ⟨hk,hn,rfl⟩ := Sample.aeadEncrypt_eq_ok h
    simp [sampleCrypto,Sample.aeadDecrypt,hk,hn]
  encrypt_length := by
    intro a k p n ad c h
    obtain ⟨-,-,rfl⟩ := Sample.aeadEncrypt_eq_ok h
    simp
  encrypt_ok := by
    intro a k p n ad hk hn _
    exact ⟨p++Sample.tag k n ad,by simp [sampleCrypto,Sample.aeadEncrypt,hk,hn]⟩
  extract_ok := by
    intro h salt ikm
    exact ⟨_,rfl,by simp⟩
  expand_ok := by
    intro h prk info len hprk hlen
    exact ⟨_,if_pos ⟨hprk,hlen⟩⟩
  expand_length := by
    intro h prk info len okm hokm
    simp only [sampleCrypto,Sample.hkdfExpand] at hokm
    split_ifs at hokm with hl
    obtain rfl := Except.ok.inj hokm
    simp

def sampleSecrets : TrafficSecrets := ⟨⟨List.replicate 64 1⟩,⟨List.replicate 64 2⟩⟩

/-- The two ends of a fresh connection under the sample secrets. -/
def sampleCodec (isServer : Bool) : TlsAeadCodec :=
  match TlsAeadCodec.new sampleCrypto isServer sampleSecrets [] .sha2_512 .aes256Gcm with
  | .ok c => c
  | .error _ => ⟨[],[],[],[],0,0,.aes256Gcm,.sha2_512,_,rfl⟩

theorem sampleCodec_new (isServer : Bool) :
    TlsAeadCodec.new sampleCrypto isServer sampleSecrets [] .sha2_512 .aes256Gcm =
      .ok (sampleCodec isServer) := by
  cases isServer <;> rfl

theorem sampleCodec_wellKeyed (isServer : Bool) : (sampleCodec isServer).WellKeyed := by
  cases isServer <;> exact ⟨rfl,rfl,rfl,rfl⟩

theorem sampleCodec_mirrored : TlsAeadCodec.Mirrored (sampleCodec false) (sampleCodec true) :=
  ⟨⟨rfl,rfl,rfl,rfl⟩,⟨rfl,rfl,rfl,rfl⟩⟩

end MlsTls.TlsAead
