import MlsTls.TlsAead.Sample

/-! Key switches at the two ends of a connection. An update expands to keys of the client, of the
server, or of both, and each end puts them where it sends or where it receives. What is expanded
depends on nothing that a switch changes, so that repeating one has no effect. -/
namespace MlsTls.TlsAead
open Lib

/-- Key and IV of each direction that gets new ones. -/
structure NewKeys where
  client : Option (Bytes × Bytes)
  server : Option (Bytes × Bytes)
  deriving DecidableEq, Repr

/-- What an update expands to, or the error of the first secret that does not expand. -/
def SecretUpdate.expand (C : Crypto) (hash : HashType) (cipher : AeadType) :
    SecretUpdate → Except CryptoError NewKeys
  | .clientSecret secret =>
    (expandClientSecret C hash secret [] cipher).map fun keys => ⟨some keys,none⟩
  | .serverSecret secret =>
    (expandServerSecret C hash secret [] cipher).map fun keys => ⟨none,some keys⟩
  | .both secrets => do
    let client ← expandClientSecret C hash secrets.clientSecret [] cipher
    let server ← expandServerSecret C hash secrets.serverSecret [] cipher
    return ⟨some client,some server⟩

namespace TlsAeadCodec

/-- Put new keys in their places. -/
def install (c : TlsAeadCodec) (isServer : Bool) (keys : NewKeys) : TlsAeadCodec :=
  let c := match keys.server with
    | none => c
    | some (key,iv) => c.setServer isServer key iv
  match keys.client with
  | none => c
  | some (key,iv) => c.setClient isServer key iv

theorem updateTrafficSecrets_run (C : Crypto) (update : SecretUpdate) (isServer : Bool)
    (c : TlsAeadCodec) : (updateTrafficSecrets C update isServer).run c =
      match update.expand C c.hash c.cipher with
      | .error e => (.error (.error (.cryptoError e)),c)
      | .ok keys => (.ok (),c.install isServer keys) := by
  cases update with
  | clientSecret secret =>
    simp only [updateTrafficSecrets,SecretUpdate.expand]
    cases expandClientSecret C c.hash secret [] c.cipher <;> rfl
  | serverSecret secret =>
    simp only [updateTrafficSecrets,SecretUpdate.expand]
    cases expandServerSecret C c.hash secret [] c.cipher <;> rfl
  | both secrets =>
    simp only [updateTrafficSecrets,SecretUpdate.expand]
    cases expandClientSecret C c.hash secrets.clientSecret [] c.cipher with
    | error e => rfl
    | ok client => cases expandServerSecret C c.hash secrets.serverSecret [] c.cipher <;> rfl

/-- The codec after an update, whether it succeeded or failed. -/
def afterUpdate (C : Crypto) (update : SecretUpdate) (isServer : Bool) (c : TlsAeadCodec) :
    TlsAeadCodec := ((updateTrafficSecrets C update isServer).run c).2

/-- Updates one after the other, each of them repeated as often as its number says. -/
def afterUpdates (C : Crypto) (isServer : Bool) (updates : List (SecretUpdate × ℕ))
    (c : TlsAeadCodec) : TlsAeadCodec :=
  updates.foldl (fun c u => (afterUpdate C u.1 isServer)^[u.2+1] c) c

/-- The two ends of a connection: each receives with what the other one sends with, and both
expand secrets in the same way. -/
structure Opposite (client server : TlsAeadCodec) : Prop where
  clientKey : client.sendKey = server.recvKey
  clientIv : client.sendIv = server.recvIv
  serverKey : server.sendKey = client.recvKey
  serverIv : server.sendIv = client.recvIv
  hash : client.hash = server.hash
  cipher : client.cipher = server.cipher

section Install
variable (c : TlsAeadCodec) (isServer : Bool) (keys : NewKeys)

@[simp] theorem install_sendSeq : (c.install isServer keys).sendSeq = c.sendSeq := by
  obtain ⟨_ | client,_ | server⟩ := keys <;> cases isServer <;> rfl

@[simp] theorem install_recvSeq : (c.install isServer keys).recvSeq = c.recvSeq := by
  obtain ⟨_ | client,_ | server⟩ := keys <;> cases isServer <;> rfl

@[simp] theorem install_hash : (c.install isServer keys).hash = c.hash := by
  obtain ⟨_ | client,_ | server⟩ := keys <;> cases isServer <;> rfl

@[simp] theorem install_cipher : (c.install isServer keys).cipher = c.cipher := by
  obtain ⟨_ | client,_ | server⟩ := keys <;> cases isServer <;> rfl

theorem install_install : (c.install isServer keys).install isServer keys =
    c.install isServer keys := by
  obtain ⟨_ | client,_ | server⟩ := keys <;> cases isServer <;> rfl

theorem install_comm (client server : Bytes × Bytes) :
    (c.install isServer ⟨some client,none⟩).install isServer ⟨none,some server⟩ =
        c.install isServer ⟨some client,some server⟩ ∧
      (c.install isServer ⟨none,some server⟩).install isServer ⟨some client,none⟩ =
        c.install isServer ⟨some client,some server⟩ := by
  cases isServer with
  | true => exact ⟨rfl,rfl⟩
  | false => exact ⟨rfl,rfl⟩

variable {c}

/-- The same keys go to opposite places. -/
theorem Opposite.install {d : TlsAeadCodec} (h : Opposite c d) :
    Opposite (c.install false keys) (d.install true keys) := by
  obtain ⟨hck,hci,hsk,hsi,hhash,hcipher⟩ := h
  obtain ⟨client,server⟩ := keys
  cases client with
  | none =>
    cases server with
    | none => exact ⟨hck,hci,hsk,hsi,hhash,hcipher⟩
    | some server => exact ⟨hck,hci,rfl,rfl,hhash,hcipher⟩
  | some client =>
    cases server with
    | none => exact ⟨rfl,rfl,hsk,hsi,hhash,hcipher⟩
    | some server => exact ⟨rfl,rfl,rfl,rfl,hhash,hcipher⟩

end Install

section
variable {C : Crypto} {update : SecretUpdate} {isServer : Bool} {c : TlsAeadCodec}

theorem afterUpdate_of_ok {keys : NewKeys} (h : update.expand C c.hash c.cipher = .ok keys) :
    afterUpdate C update isServer c = c.install isServer keys := by
  rw [afterUpdate,updateTrafficSecrets_run,h]

theorem afterUpdate_of_error {e : CryptoError} (h : update.expand C c.hash c.cipher = .error e) :
    afterUpdate C update isServer c = c := by
  rw [afterUpdate,updateTrafficSecrets_run,h]

variable (C update isServer c)

lemma afterUpdate_frame : (afterUpdate C update isServer c).sendSeq = c.sendSeq ∧
    (afterUpdate C update isServer c).recvSeq = c.recvSeq ∧
    (afterUpdate C update isServer c).hash = c.hash ∧
    (afterUpdate C update isServer c).cipher = c.cipher := by
  cases h : update.expand C c.hash c.cipher with
  | error e => simp [afterUpdate_of_error h]
  | ok keys => simp [afterUpdate_of_ok h]

lemma updateTrafficSecrets_result (other : SecretUpdate) :
    ((updateTrafficSecrets C update isServer).run (afterUpdate C other isServer c)).1 =
      ((updateTrafficSecrets C update isServer).run c).1 := by
  obtain ⟨-,-,hhash,hcipher⟩ := afterUpdate_frame C other isServer c
  rw [updateTrafficSecrets_run,updateTrafficSecrets_run,hhash,hcipher]
  cases update.expand C c.hash c.cipher <;> rfl

lemma afterUpdate_iterate (n : ℕ) :
    (afterUpdate C update isServer)^[n+1] c = afterUpdate C update isServer c := by
  induction n with
  | zero => rfl
  | succ n ih =>
    rw [Function.iterate_succ_apply',ih]
    cases h : update.expand C c.hash c.cipher with
    | error e => rw [afterUpdate_of_error h,afterUpdate_of_error h]
    | ok keys =>
      rw [afterUpdate_of_ok h,afterUpdate_of_ok (by rw [install_hash,install_cipher]; exact h),
        install_install]

theorem Opposite.afterUpdate {d : TlsAeadCodec} (h : Opposite c d) :
    Opposite (afterUpdate C update false c) (afterUpdate C update true d) := by
  cases hc : update.expand C c.hash c.cipher with
  | error e =>
    have hd := hc
    rw [h.hash,h.cipher] at hd
    rw [afterUpdate_of_error hc,afterUpdate_of_error hd]
    exact h
  | ok keys =>
    have hd := hc
    rw [h.hash,h.cipher] at hd
    rw [afterUpdate_of_ok hc,afterUpdate_of_ok hd]
    exact h.install keys

end

/-- The ends stay opposite, however often each of them repeats an update. -/
theorem Opposite.afterUpdates {C : Crypto} {c d : TlsAeadCodec} (h : Opposite c d)
    {us vs : List (SecretUpdate × ℕ)} (huv : us.map Prod.fst = vs.map Prod.fst) :
    Opposite (afterUpdates C false us c) (afterUpdates C true vs d) := by
  induction us generalizing vs c d with
  | nil =>
    obtain rfl : vs = [] := List.map_eq_nil_iff.mp huv.symm
    exact h
  | cons u us ih =>
    cases vs with
    | nil => simp at huv
    | cons v vs =>
      simp only [List.map_cons,List.cons.injEq] at huv
      have hstep := h.afterUpdate C u.1
      have hrest := ih hstep huv.2
      simp only [TlsAeadCodec.afterUpdates,List.foldl_cons,afterUpdate_iterate] at hrest ⊢
      rwa [← huv.1]

theorem afterUpdates_seq (C : Crypto) (isServer : Bool) (us : List (SecretUpdate × ℕ))
    (c : TlsAeadCodec) : (afterUpdates C isServer us c).sendSeq = c.sendSeq ∧
      (afterUpdates C isServer us c).recvSeq = c.recvSeq := by
  induction us generalizing c with
  | nil => exact ⟨rfl,rfl⟩
  | cons u us ih =>
    obtain ⟨hsend,hrecv,-,-⟩ := afterUpdate_frame C u.1 isServer c
    obtain ⟨hsend',hrecv'⟩ := ih (afterUpdate C u.1 isServer c)
    rw [TlsAeadCodec.afterUpdates,List.foldl_cons,afterUpdate_iterate]
    exact ⟨hsend'.trans hsend,hrecv'.trans hrecv⟩

section
variable (C : Crypto) (client : ClientSecret) (server : ServerSecret) (isServer : Bool)
  (c : TlsAeadCodec)

lemma afterUpdate_comm :
    afterUpdate C (.serverSecret server) isServer (afterUpdate C (.clientSecret client) isServer c) =
      afterUpdate C (.clientSecret client) isServer
        (afterUpdate C (.serverSecret server) isServer c) := by
  simp only [afterUpdate,updateTrafficSecrets_run,SecretUpdate.expand]
  cases hc : expandClientSecret C c.hash client [] c.cipher with
  | error e =>
    cases hs : expandServerSecret C c.hash server [] c.cipher with
    | error e' => simp [Except.map,hc,hs]
    | ok serverKeys => simp [Except.map,hc,hs]
  | ok clientKeys =>
    cases hs : expandServerSecret C c.hash server [] c.cipher with
    | error e' => simp [Except.map,hc,hs]
    | ok serverKeys =>
      obtain ⟨hforth,hback⟩ := c.install_comm isServer clientKeys serverKeys
      simp only [Except.map,install_hash,install_cipher,hc,hs,hforth,hback]

lemma both_run : (updateTrafficSecrets C (.both ⟨client,server⟩) isServer).run c =
    match (updateTrafficSecrets C (.clientSecret client) isServer).run c,
      (updateTrafficSecrets C (.serverSecret server) isServer).run c with
    | (.error e,_),_ => (.error e,c)
    | (.ok _,_),(.error e,_) => (.error e,c)
    | (.ok _,c'),(.ok _,_) => (.ok (),afterUpdate C (.serverSecret server) isServer c') := by
  -- both secrets at once are the two updates together, or nothing if one of them fails
  simp only [afterUpdate,updateTrafficSecrets_run,SecretUpdate.expand]
  cases hc : expandClientSecret C c.hash client [] c.cipher with
  | error e => rfl
  | ok clientKeys =>
    cases hs : expandServerSecret C c.hash server [] c.cipher with
    | error e => rfl
    | ok serverKeys =>
      obtain ⟨hforth,-⟩ := c.install_comm isServer clientKeys serverKeys
      simp only [Except.map,install_hash,install_cipher,hs,hforth]
      rfl

lemma both_of_ok (hc : ((updateTrafficSecrets C (.clientSecret client) isServer).run c).1 = .ok ())
    (hs : ((updateTrafficSecrets C (.serverSecret server) isServer).run c).1 = .ok ()) :
    (updateTrafficSecrets C (.both ⟨client,server⟩) isServer).run c =
      (.ok (),afterUpdate C (.serverSecret server) isServer
        (afterUpdate C (.clientSecret client) isServer c)) := by
  rw [both_run]
  rcases hclient : (updateTrafficSecrets C (.clientSecret client) isServer).run c with ⟨rc,c'⟩
  rcases hserver : (updateTrafficSecrets C (.serverSecret server) isServer).run c with ⟨rs,d⟩
  rw [hclient] at hc
  rw [hserver] at hs
  obtain rfl : rc = .ok () := hc
  obtain rfl : rs = .ok () := hs
  rw [afterUpdate,afterUpdate,hclient]
  rfl

lemma both_of_failed
    (h : ((updateTrafficSecrets C (.clientSecret client) isServer).run c).1 ≠ .ok () ∨
      ((updateTrafficSecrets C (.serverSecret server) isServer).run c).1 ≠ .ok ()) :
    ∃ e, (updateTrafficSecrets C (.both ⟨client,server⟩) isServer).run c = (.error e,c) := by
  rw [both_run]
  generalize (updateTrafficSecrets C (.clientSecret client) isServer).run c = rc at h ⊢
  generalize (updateTrafficSecrets C (.serverSecret server) isServer).run c = rs at h ⊢
  obtain ⟨e | u,c'⟩ := rc
  · exact ⟨e,rfl⟩
  · obtain ⟨e | u',d⟩ := rs
    · exact ⟨e,rfl⟩
    · simp at h

lemma both_eq_new (secrets : TrafficSecrets) :
    (updateTrafficSecrets C (.both secrets) isServer).run c =
      match new C isServer secrets [] c.hash c.cipher with
      | .error e => (.error (.error e),c)
      | .ok fresh => (.ok (),(fresh.setSendSeq c.sendSeq).setRecvSeq c.recvSeq) := by
  simp only [updateTrafficSecrets,new,generateKeys,bind,Except.bind,pure,Except.pure]
  cases expandClientSecret C c.hash secrets.clientSecret [] c.cipher with
  | error e => rfl
  | ok clientKeys =>
    cases expandServerSecret C c.hash secrets.serverSecret [] c.cipher with
    | error e => rfl
    | ok serverKeys =>
      obtain ⟨sk,si,rk,ri,ss,rs,cipher,hash,m,hm⟩ := c
      subst hm
      cases isServer with
      | true => rfl
      | false => rfl

end

/-- Opposite ends stay opposite under the same updates. The secrets of the two directions can be
updated in either order; both at once are the same if neither fails, and the keys of a new codec.
Sequence numbers never change, and a failed update changes nothing. -/
theorem key_switching (C : Crypto) :
    (∀ {client server us vs}, Opposite client server → us.map Prod.fst = vs.map Prod.fst →
        Opposite (afterUpdates C false us client) (afterUpdates C true vs server)) ∧
      (∀ c isServer client server,
        (afterUpdate C (.serverSecret server) isServer
            (afterUpdate C (.clientSecret client) isServer c) =
          afterUpdate C (.clientSecret client) isServer
            (afterUpdate C (.serverSecret server) isServer c)) ∧
        ((updateTrafficSecrets C (.serverSecret server) isServer).run
            (afterUpdate C (.clientSecret client) isServer c)).1 =
          ((updateTrafficSecrets C (.serverSecret server) isServer).run c).1 ∧
        ((updateTrafficSecrets C (.clientSecret client) isServer).run
            (afterUpdate C (.serverSecret server) isServer c)).1 =
          ((updateTrafficSecrets C (.clientSecret client) isServer).run c).1 ∧
        (((updateTrafficSecrets C (.clientSecret client) isServer).run c).1 = .ok () →
          ((updateTrafficSecrets C (.serverSecret server) isServer).run c).1 = .ok () →
          (updateTrafficSecrets C (.both ⟨client,server⟩) isServer).run c =
            (.ok (),afterUpdate C (.serverSecret server) isServer
              (afterUpdate C (.clientSecret client) isServer c))) ∧
        ((((updateTrafficSecrets C (.clientSecret client) isServer).run c).1 ≠ .ok () ∨
          ((updateTrafficSecrets C (.serverSecret server) isServer).run c).1 ≠ .ok ()) →
          ∃ e, (updateTrafficSecrets C (.both ⟨client,server⟩) isServer).run c = (.error e,c))) ∧
      (∀ c isServer secrets, (updateTrafficSecrets C (.both secrets) isServer).run c =
        match new C isServer secrets [] c.hash c.cipher with
        | .error e => (.error (.error e),c)
        | .ok fresh => (.ok (),(fresh.setSendSeq c.sendSeq).setRecvSeq c.recvSeq)) ∧
      (∀ c isServer us, (afterUpdates C isServer us c).sendSeq = c.sendSeq ∧
        (afterUpdates C isServer us c).recvSeq = c.recvSeq) ∧
      ∀ c isServer update, ((updateTrafficSecrets C update isServer).run c).1 ≠ .ok () →
        ((updateTrafficSecrets C update isServer).run c).2 = c := by
  refine ⟨fun h huv => h.afterUpdates huv,?_,fun c isServer => both_eq_new C isServer c,
    fun c isServer us => afterUpdates_seq C isServer us c,?_⟩
  · intro c isServer client server
    refine ⟨afterUpdate_comm C client server isServer c,
      updateTrafficSecrets_result C _ isServer c _,updateTrafficSecrets_result C _ isServer c _,
      both_of_ok C client server isServer c,both_of_failed C client server isServer c⟩
  · intro c isServer update h
    rw [updateTrafficSecrets_run] at h ⊢
    cases hu : update.expand C c.hash c.cipher with
    | error e => rfl
    | ok keys => simp [hu] at h

/-- A server secret that is too short: both at once leave the codec as it is, while one after the
other installs the client's keys. -/
theorem both_not_sequence :
    Opposite (sampleCodec false) (sampleCodec true) ∧
      afterUpdate sampleCrypto (.serverSecret ⟨[]⟩) false
          (afterUpdate sampleCrypto (.clientSecret ⟨List.replicate 64 7⟩) false (sampleCodec false)) ≠
        afterUpdate sampleCrypto (.both ⟨⟨List.replicate 64 7⟩,⟨[]⟩⟩) false (sampleCodec false) :=
  ⟨⟨rfl,rfl,rfl,rfl,rfl,rfl⟩,by decide +kernel⟩

end TlsAeadCodec
end MlsTls.TlsAead
