import MlsTls.Lib.Wire

/-! The crypto provider, as the record layer uses it, and the generation of record keys from
traffic secrets. The provider itself is a parameter; what is relied on of it is collected in
`Crypto.Lawful`. -/
namespace MlsTls.TlsAead
open Lib

inductive CryptoError
  | invalidLength
  | aeadDecryptionError
  | other (code : ℕ)
  deriving DecidableEq, Repr

inductive AeadType
  | aes128Gcm
  | aes256Gcm
  | chaCha20Poly1305
  deriving DecidableEq, Repr

def AeadType.keySize : AeadType → ℕ
  | .aes128Gcm => 16
  | .aes256Gcm => 32
  | .chaCha20Poly1305 => 32

def AeadType.tagSize : AeadType → ℕ
  | .aes128Gcm => 16
  | .aes256Gcm => 16
  | .chaCha20Poly1305 => 16

inductive HashType
  | sha2_256
  | sha2_384
  | sha2_512
  deriving DecidableEq, Repr

def HashType.size : HashType → ℕ
  | .sha2_256 => 32
  | .sha2_384 => 48
  | .sha2_512 => 64

@[simp] theorem AeadType.tagSize_eq (a : AeadType) : a.tagSize = 16 := by cases a <;> rfl

def tls13IvSize : ℕ := 12

/-- The calls made on the crypto provider. -/
structure Crypto where
  aeadEncrypt : AeadType → Bytes → Bytes → Bytes → Bytes → Except CryptoError Bytes
  aeadDecrypt : AeadType → Bytes → Bytes → Bytes → Bytes → Except CryptoError Bytes
  hkdfExtract : HashType → Bytes → Bytes → Except CryptoError Bytes
  hkdfExpand : HashType → Bytes → Bytes → ℕ → Except CryptoError Bytes

/-- Decryption inverts encryption, the ciphertext is longer by the tag, keys and nonces of the
right size are accepted, and HKDF returns as many bytes as it is asked for. -/
structure Crypto.Lawful (C : Crypto) : Prop where
  decrypt_encrypt : ∀ {a k p n ad c}, C.aeadEncrypt a k p n ad = .ok c →
    C.aeadDecrypt a k c n ad = .ok p
  encrypt_length : ∀ {a k p n ad c}, C.aeadEncrypt a k p n ad = .ok c →
    c.length = p.length+a.tagSize
  encrypt_ok : ∀ a {k p n} ad, k.length = a.keySize → n.length = tls13IvSize → p.length ≤ 2^16 →
    ∃ c, C.aeadEncrypt a k p n ad = .ok c
  extract_ok : ∀ h salt ikm, ∃ prk, C.hkdfExtract h salt ikm = .ok prk ∧ prk.length = h.size
  expand_ok : ∀ h {prk} info {len}, h.size ≤ prk.length → len ≤ 255*h.size →
    ∃ okm, C.hkdfExpand h prk info len = .ok okm
  expand_length : ∀ {h prk info len okm}, C.hkdfExpand h prk info len = .ok okm → okm.length = len

structure ServerSecret where
  secret : Bytes
  deriving DecidableEq, Repr

structure ClientSecret where
  secret : Bytes
  deriving DecidableEq, Repr

/-- The secrets of one epoch, one for each direction. -/
structure TrafficSecrets where
  clientSecret : ClientSecret
  serverSecret : ServerSecret
  deriving DecidableEq, Repr

/-- New secrets for one direction or for both. -/
inductive SecretUpdate
  | clientSecret (secret : ClientSecret)
  | serverSecret (secret : ServerSecret)
  | both (secrets : TrafficSecrets)
  deriving DecidableEq, Repr

/-- What the caller holds after a secret update. -/
def TrafficSecrets.update (t : TrafficSecrets) : SecretUpdate → TrafficSecrets
  | .clientSecret secret => { t with clientSecret := secret }
  | .serverSecret secret => { t with serverSecret := secret }
  | .both secrets => secrets

/-- `b"tls13 "` -/
def tls13Prefix : Bytes := [116,108,115,49,51,32]

/-- `HKDF-Expand-Label` of RFC 8446; parts that are too long are refused. -/
def hdkfExpandLabel (C : Crypto) (hash : HashType) (secret label context : Bytes) (length : ℕ) :
    Except CryptoError Bytes :=
  if 0xFFFF < length then .error .invalidLength
  else if 0xFF < tls13Prefix.length+label.length then .error .invalidLength
  else if 0xFF < context.length then .error .invalidLength
  else
    let info := beBytes 2 length++beBytes 1 (tls13Prefix.length+label.length)++tls13Prefix++label++
      beBytes 1 context.length++context
    C.hkdfExpand hash secret info length

/-- The structure `HkdfLabel` of RFC 8446; its label is the one given, with the prefix. -/
structure HkdfLabel where
  length : ℕ
  label : Bytes
  context : Bytes
  deriving DecidableEq, Repr

def HkdfLabel.wire : Wire HkdfLabel :=
  .iso (.seq (.word 2) (.seq (.sized (.word 1)) (.sized (.word 1)))) (fun p => ⟨p.1,p.2.1,p.2.2⟩)
    fun l => (l.length,l.label,l.context)

theorem HkdfLabel.wire_lawful : HkdfLabel.wire.Lawful :=
  Wire.iso_lawful (Wire.seq_lawful (Wire.word_lawful 2) (Wire.seq_lawful
    (Wire.sized_lawful (Wire.word_lawful 1)) (Wire.sized_lawful (Wire.word_lawful 1))))
    (fun _ => rfl) (fun _ => rfl)

/-- One of the parts is too long for its length field. -/
def TooLong (label context : Bytes) (length : ℕ) : Prop :=
  65535 < length ∨ 249 < label.length ∨ 255 < context.length

/-- The provider is called with this info string, and its answer is the result. -/
def PassesInfo (label context : Bytes) (length : ℕ) (info : Bytes) : Prop :=
  ∀ (C : Crypto) (hash : HashType) (secret : Bytes),
    hdkfExpandLabel C hash secret label context length = C.hkdfExpand hash secret info length

lemma hdkfExpandLabel_of_tooLong {label context : Bytes} {length : ℕ}
    (h : TooLong label context length) (C : Crypto) (hash : HashType) (secret : Bytes) :
    hdkfExpandLabel C hash secret label context length = .error .invalidLength := by
  have hprefix : tls13Prefix.length = 6 := rfl
  unfold hdkfExpandLabel
  split_ifs with h1 h2 h3
  · rfl
  · rfl
  · rfl
  · rcases h with h | h | h <;> omega

lemma exists_passesInfo {label context : Bytes} {length : ℕ} (h : ¬TooLong label context length) :
    ∃ info, HkdfLabel.wire.enc ⟨length,tls13Prefix++label,context⟩ = some info ∧
      PassesInfo label context length info := by
  have hprefix : tls13Prefix.length = 6 := rfl
  simp only [TooLong,not_or,not_lt] at h
  obtain ⟨hlength,hlabel,hcontext⟩ := h
  refine ⟨beBytes 2 length++(beBytes 1 (tls13Prefix++label).length++(tls13Prefix++label)++
    (beBytes 1 context.length++context)),?_,?_⟩
  · simp only [HkdfLabel.wire,Wire.iso,Wire.seq,Wire.sized,Wire.word_enc_of_lt
      (show length < 256^2 by omega),Wire.word_enc_of_lt
      (show (tls13Prefix++label).length < 256^1 by rw [List.length_append]; omega),
      Wire.word_enc_of_lt (show context.length < 256^1 by omega),Option.map_some,Option.bind_some]
  · intro C hash secret
    rw [hdkfExpandLabel,if_neg (by omega),if_neg (by omega),if_neg (by omega)]
    simp only [List.length_append,List.append_assoc]

/-- A provider that shows what it was called with. -/
def echo : Crypto where
  aeadEncrypt _ _ p _ _ := .ok p
  aeadDecrypt _ _ c _ _ := .ok c
  hkdfExtract _ _ ikm := .ok ikm
  hkdfExpand _ _ info _ := .ok info

lemma PassesInfo.enc {label context info : Bytes} {length : ℕ}
    (h : PassesInfo label context length info) :
    HkdfLabel.wire.enc ⟨length,tls13Prefix++label,context⟩ = some info := by
  have hcall := h echo .sha2_256 []
  by_cases hlong : TooLong label context length
  · rw [hdkfExpandLabel_of_tooLong hlong] at hcall
    simp [echo] at hcall
  · obtain ⟨info',henc,hpasses⟩ := exists_passesInfo hlong
    rw [hpasses echo .sha2_256 []] at hcall
    rw [henc,Except.ok.inj hcall]

/-- The expansion is refused exactly for lengths that the encoding has no room for. Otherwise the
provider is called with the encoded label, and two calls with one info string are for the same
length, label and context. -/
theorem hdkfExpandLabel_encodes (label context : Bytes) (length : ℕ) :
    ((∀ C hash secret, hdkfExpandLabel C hash secret label context length = .error .invalidLength) ↔
        TooLong label context length) ∧
      (¬TooLong label context length ↔ ∃ info,
        HkdfLabel.wire.enc ⟨length,tls13Prefix++label,context⟩ = some info ∧
          PassesInfo label context length info) ∧
      ∀ label' context' length' info, PassesInfo label context length info →
        PassesInfo label' context' length' info →
        length = length' ∧ label = label' ∧ context = context' := by
  have hrefused (h : ∀ C hash secret,
      hdkfExpandLabel C hash secret label context length = .error .invalidLength) :
      ¬∃ info, PassesInfo label context length info := by
    rintro ⟨info,hinfo⟩
    have hcall := hinfo echo .sha2_256 []
    rw [h] at hcall
    simp [echo] at hcall
  refine ⟨⟨fun h => ?_,hdkfExpandLabel_of_tooLong⟩,⟨exists_passesInfo,?_⟩,?_⟩
  · by_contra hlong
    obtain ⟨info,-,hinfo⟩ := exists_passesInfo hlong
    exact hrefused h ⟨info,hinfo⟩
  · rintro ⟨info,-,hinfo⟩ hlong
    exact hrefused (hdkfExpandLabel_of_tooLong hlong) ⟨info,hinfo⟩
  · intro label' context' length' info h h'
    have hdec := HkdfLabel.wire_lawful.decExact_enc h.enc
    rw [HkdfLabel.wire_lawful.decExact_enc h'.enc] at hdec
    simp only [Option.some.injEq,HkdfLabel.mk.injEq,List.append_cancel_left_eq] at hdec
    exact ⟨hdec.1.symm,hdec.2.1.symm,hdec.2.2.symm⟩

/-- `b"key"` and `b"iv"` -/
def keyLabel : Bytes := [107,101,121]
def ivLabel : Bytes := [105,118]

/-- Expansion of one direction's traffic secret into its key and IV. -/
def expandSecret (C : Crypto) (hash : HashType) (label secret handshakeHash : Bytes)
    (cipher : AeadType) : Except CryptoError (Bytes × Bytes) := do
  let secret ← hdkfExpandLabel C hash secret label handshakeHash hash.size
  let key ← hdkfExpandLabel C hash secret keyLabel [] cipher.keySize
  let iv ← hdkfExpandLabel C hash secret ivLabel [] tls13IvSize
  return (key,iv)

lemma expandSecret_eq_ok {C : Crypto} {hash : HashType} {label secret handshakeHash key iv : Bytes}
    {cipher : AeadType} (h : expandSecret C hash label secret handshakeHash cipher = .ok (key,iv)) :
    ∃ s, hdkfExpandLabel C hash secret label handshakeHash hash.size = .ok s ∧
      hdkfExpandLabel C hash s keyLabel [] cipher.keySize = .ok key ∧
      hdkfExpandLabel C hash s ivLabel [] tls13IvSize = .ok iv := by
  simp only [expandSecret,bind,Except.bind,pure,Except.pure] at h
  split at h
  · simp at h
  · rename_i s hs
    split at h
    · simp at h
    · rename_i k hk
      split at h
      · simp at h
      · rename_i v hv
        obtain ⟨rfl,rfl⟩ := Prod.mk.inj (Except.ok.inj h)
        exact ⟨s,hs,hk,hv⟩

/-- `b"c ap traffic"` and `b"s ap traffic"` -/
def clientLabel : Bytes := [99,32,97,112,32,116,114,97,102,102,105,99]
def serverLabel : Bytes := [115,32,97,112,32,116,114,97,102,102,105,99]

def expandClientSecret (C : Crypto) (hash : HashType) (clientSecret : ClientSecret)
    (handshakeHash : Bytes) (cipher : AeadType) : Except CryptoError (Bytes × Bytes) :=
  expandSecret C hash clientLabel clientSecret.secret handshakeHash cipher

def expandServerSecret (C : Crypto) (hash : HashType) (serverSecret : ServerSecret)
    (handshakeHash : Bytes) (cipher : AeadType) : Except CryptoError (Bytes × Bytes) :=
  expandSecret C hash serverLabel serverSecret.secret handshakeHash cipher

structure GeneratedKeys where
  serverKey : Bytes
  serverIv : Bytes
  clientKey : Bytes
  clientIv : Bytes
  deriving DecidableEq, Repr

/-- Both directions; the client's secret is expanded first. -/
def generateKeys (C : Crypto) (hash : HashType) (trafficSecrets : TrafficSecrets)
    (handshakeHash : Bytes) (cipher : AeadType) : Except CryptoError GeneratedKeys := do
  let (clientKey,clientIv) ←
    expandClientSecret C hash trafficSecrets.clientSecret handshakeHash cipher
  let (serverKey,serverIv) ←
    expandServerSecret C hash trafficSecrets.serverSecret handshakeHash cipher
  return ⟨serverKey,serverIv,clientKey,clientIv⟩

section
variable {C : Crypto} (hC : C.Lawful)
include hC

lemma hdkfExpandLabel_ok {hash : HashType} {secret : Bytes} (label context : Bytes) {n : ℕ}
    (hsecret : hash.size ≤ secret.length) (hlength : n ≤ 255*hash.size)
    (hlabel : label.length ≤ 249) (hcontext : context.length ≤ 255) :
    ∃ okm, hdkfExpandLabel C hash secret label context n = .ok okm ∧ okm.length = n := by
  have hsmall : ¬ 0xFFFF < n := by cases hash <;> simp [HashType.size] at hlength <;> omega
  have hl : ¬ 0xFF < tls13Prefix.length+label.length := by simp [tls13Prefix]; omega
  simp only [hdkfExpandLabel,if_neg hsmall,if_neg hl,if_neg (show ¬ 0xFF < context.length by omega)]
  obtain ⟨okm,hokm⟩ := hC.expand_ok hash _ hsecret hlength
  exact ⟨okm,hokm,hC.expand_length hokm⟩

/-- A secret as long as the hash expands, into a key and an IV of the cipher's sizes. -/
theorem expandSecret_ok (hash : HashType) (label : Bytes) {secret : Bytes} (cipher : AeadType)
    (hlabel : label.length ≤ 249) (hsecret : hash.size ≤ secret.length) :
    ∃ key iv, expandSecret C hash label secret [] cipher = .ok (key,iv) ∧
      key.length = cipher.keySize ∧ iv.length = tls13IvSize := by
  obtain ⟨s,hs,hsl⟩ := hdkfExpandLabel_ok hC label [] hsecret
    (show hash.size ≤ 255*hash.size by omega) hlabel (by simp)
  obtain ⟨k,hk,hkl⟩ := hdkfExpandLabel_ok hC keyLabel [] (n := cipher.keySize) hsl.ge
    (by cases cipher <;> cases hash <;> decide) (by decide) (by simp)
  obtain ⟨iv,hiv,hivl⟩ := hdkfExpandLabel_ok hC ivLabel [] (n := tls13IvSize) hsl.ge
    (by cases hash <;> decide) (by decide) (by simp)
  exact ⟨k,iv,by simp [expandSecret,hs,hk,hiv,bind,Except.bind,pure,Except.pure],hkl,hivl⟩

end

end MlsTls.TlsAead
