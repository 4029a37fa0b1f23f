import MlsTls.EncryptionProvider.Link
import MlsTls.MlsHandshake.Epochs
import MlsTls.MlsHandshake.Exchange
import MlsTls.TlsAead.ChannelNonces

/-! The keys of a client over all its connections. Every update and every fresh resumption takes
the client to an epoch that it has sent nothing in. A resumption that uses a pending update once
more goes back to a key that may have been used, and its sequence numbers start again. -/
namespace MlsTls.EncryptionProvider
open Lib TlsAead MlsHandshake TlsAeadCodec
variable {M : OpenMls}

/-- A client, the channels of its connection while it has one, and the records it has encrypted on
earlier connections. -/
structure ResumingClient (M : OpenMls) where
  client : ClientHandshakeState M
  db : Connection M
  channels : Option ProtectedChannels
  past : List SealedRecord

namespace ResumingClient

/-- Every record that the client has encrypted. -/
def log (x : ResumingClient M) : List SealedRecord :=
  x.past++(x.channels.map fun s => s.sent.map SentRecord.record).getD []

/-- The end of the client's handshake, and fresh channels on the secrets it has returned. -/
def connect {σ : Type} (C : Crypto) (J : Serde M) (tr : Transport σ) (waiting : WaitingForServerHello)
    (plain : PlainChannels) (h : MlsHandshake M) (t : σ) : Option (ResumingClient M) :=
  match (MlsHandshake.clientHandshakeFinish tr J waiting).run (h,t) with
  | (.ok (some trafficSecrets),(h',_)) =>
    match h'.state,newChannels C false plain trafficSecrets with
    | .client client,.ok s => some ⟨client,h'.connection,some s,[]⟩
    | _,_ => none
  | _ => none

inductive Event (M : OpenMls)
  | update (leafSigner : M.SignatureKeyPair) (updateRequested : Bool) (seed : ℕ)
  | receive (leafSigner : M.SignatureKeyPair) (messageBytes : Bytes) (seed : ℕ)
  | send (item : InnerPlaintext)
  | read (piece : Bytes)
  | disconnect
  | resume (leafSigner : M.SignatureKeyPair) (seed : ℕ) (plain : PlainChannels)

def Event.isResume : Event M → Bool
  | .resume _ _ _ => true
  | _ => false

def respond (C : Crypto) (E : Type) : Option Bytes → ProtectedChannels.ProviderCall E Unit
  | none => pure ()
  | some message => ProtectedChannels.sendPlaintext C (.signaling message)

def switch (C : Crypto) (E : Type) : Option SecretUpdate → ProtectedChannels.ProviderCall E Unit
  | none => pure ()
  | some update => ProtectedChannels.updateCipher C false update

/-- The answer goes out under the old keys; then the keys are switched. -/
def answer (C : Crypto) (E : Type) (secretUpdate : Option SecretUpdate) (response : Option Bytes) :
    ProtectedChannels.ProviderCall E Unit := do
  respond C E response
  switch C E secretUpdate

/-- A call on the channels, if there are any; whether it returns is not asked. -/
def onChannels (x : ResumingClient M) (call : ProtectedChannels.ProviderCall M.Error Unit) :
    ResumingClient M :=
  { x with channels := x.channels.map fun s => (call.run s).2 }

/-- A resumption gets fresh channels on the secrets it has returned. -/
def step (C : Crypto) (J : Serde M) : Event M → ResumingClient M → ResumingClient M
  | .update leafSigner updateRequested seed,x =>
    match (ClientHandshakeState.update J leafSigner updateRequested seed).run (x.client,x.db) with
    | (.ok (clientSecret,message),(client,db)) =>
      { x with client, db }.onChannels (answer C M.Error (some (.clientSecret clientSecret))
        (some message))
    | (.error _,(client,db)) => { x with client, db }
  | .receive leafSigner messageBytes seed,x =>
    match (ClientHandshakeState.receiveSignalingMessage J leafSigner messageBytes seed).run
        (x.client,x.db) with
    | (.ok (secretUpdate,response),(client,db)) =>
      { x with client, db }.onChannels (answer C M.Error secretUpdate response)
    | (.error _,(client,db)) => { x with client, db }
  | .send item,x => x.onChannels (ProtectedChannels.sendPlaintext C item)
  | .read piece,x => x.onChannels (do
      Exec.modify fun s => { s with incoming := s.incoming++piece }
      let _ ← ProtectedChannels.nextPlaintext C
      pure ())
  | .disconnect,x => { x with channels := none, past := x.log }
  | .resume leafSigner seed plain,x =>
    match (ClientHandshakeState.resume leafSigner seed).run (x.client,x.db) with
    | (.ok (trafficSecrets,_),(client,db)) =>
      ⟨client,db,(newChannels C false plain trafficSecrets).toOption,x.log⟩
    | (.error _,(client,db)) => { x with client, db }

/-- The secret expands to this key. -/
def KeyOf (C : Crypto) (secret : ClientSecret) (key : Bytes) : Prop :=
  ∃ iv, expandClientSecret C keyScheduleHashFunction secret [] aeadAlgorithm = .ok (key,iv)

/-- Different epochs of these groups export secrets with different keys. -/
def SeparatesEpochs (C : Crypto) (G : M.Group → Prop) : Prop :=
  ∀ {g g' secrets secrets' key}, G g → G g' → MlsSession.Exports g secrets →
    MlsSession.Exports g' secrets' → KeyOf C secrets.clientSecret key →
    KeyOf C secrets'.clientSecret key → M.groupId g = M.groupId g' ∧ M.epoch g = M.epoch g'

/-- Only groups of `G` are stored. -/
def Known (G : M.Group → Prop) (c : Connection M) : Prop :=
  ∀ j g, c.groups j = .ok (some g) → G g

/-- No record has been encrypted under the key of the update that a resumption would use again. -/
def Unspent (C : Crypto) (x : ResumingClient M) : Prop :=
  ∀ p ∈ x.client.internalState.pending, ∀ r ∈ x.log,
    r.key ≠ (clientKeys C p.trafficSecrets.clientSecret).1

/-- Runs whose groups are of `G` and whose resumptions meet the condition. -/
abbrev Runs (C : Crypto) (J : Serde M) (G : M.Group → Prop) :=
  Run (step C J) fun e x => (e.isResume = true → x.Unspent C) ∧ Known G (step C J e x).db

/-- Secrets of an epoch that a stored group has reached. -/
def Reached (G : M.Group → Prop) (c : Connection M) (secrets : TrafficSecrets) : Prop :=
  ∃ g g₀, G g ∧ MlsSession.Exports g secrets ∧ c.groups (M.groupId g) = .ok (some g₀) ∧
    M.epoch g ≤ M.epoch g₀

/-- The key of such secrets. -/
def ReachedKey (C : Crypto) (G : M.Group → Prop) (c : Connection M) (key : Bytes) : Prop :=
  ∃ secrets, Reached G c secrets ∧ KeyOf C secrets.clientSecret key

section
variable {C : Crypto} {G : M.Group → Prop} {c₀ c : Connection M} {secrets : TrafficSecrets}
  {key : Bytes}

theorem Reached.aged (h : Reached G c₀ secrets) (hc : Aged c₀ c) : Reached G c secrets := by
  obtain ⟨g,g₀,hG,hx,hg₀,hle⟩ := h
  obtain ⟨g₁,hg₁,hle₁⟩ := hc.later hg₀
  exact ⟨g,g₁,hG,hx,hg₁,hle.trans hle₁⟩

theorem ReachedKey.aged (h : ReachedKey C G c₀ key) (hc : Aged c₀ c) : ReachedKey C G c key := by
  obtain ⟨secrets,hr,hk⟩ := h
  exact ⟨secrets,hr.aged hc,hk⟩

lemma reached_of_new (h : New c₀ c secrets) (hG : Known G c) : Reached G c secrets := by
  obtain ⟨g,g',-,hg',-,hx⟩ := h
  exact ⟨g',g',hG _ _ hg',hx,hg',le_rfl⟩

lemma not_reachedKey_of_new (hsep : SeparatesEpochs C G) (h : New c₀ c secrets) (hG : Known G c)
    (hk : KeyOf C secrets.clientSecret key) : ¬ReachedKey C G c₀ key := by
  rintro ⟨secrets',⟨g₁,g₂,hG₁,hx₁,hg₂,hle⟩,hk'⟩
  obtain ⟨g,g',hg,hg',hlt,hx⟩ := h
  obtain ⟨hid,hepoch⟩ := hsep hG₁ (hG _ _ hg') hx₁ hx hk' hk
  rw [hid] at hg₂
  obtain rfl := Option.some.inj (Except.ok.inj (hg.symm.trans hg₂))
  omega

lemma keyOf_eq (hk : KeyOf C secrets.clientSecret key) :
    (clientKeys C secrets.clientSecret).1 = key := by
  obtain ⟨iv,hiv⟩ := hk
  rw [clientKeys,hiv]
  rfl

end

/-- Every record is under a key of an epoch that was reached, the keys of the connection are not
those of earlier ones, and no key was used twice with one nonce. -/
structure Inv (C : Crypto) (G : M.Group → Prop) (x : ResumingClient M) : Prop where
  filed : Roster.Filed x.db
  pending : ∀ p ∈ x.client.internalState.pending, Reached G x.db p.trafficSecrets
  reached : ∀ r ∈ x.past, ReachedKey C G x.db r.key
  channels : ∀ s ∈ x.channels, s.Confined C keyScheduleHashFunction aeadAlgorithm
    fun key => ReachedKey C G x.db key ∧ ∀ r ∈ x.past, r.key ≠ key
  nodup : (x.past.map fun r => (r.key,r.nonce)).Nodup

section
variable {C : Crypto} {E : Type} {P : Bytes → Prop}

lemma sendPlaintext_confined (item : InnerPlaintext) :
    Exec.Keeps (ProtectedChannels.Confined C keyScheduleHashFunction aeadAlgorithm P)
      (ProtectedChannels.sendPlaintext C item : ProtectedChannels.ProviderCall E Unit)
      fun _ => True :=
  .bind .orThrow fun bytes _ => (ProtectedChannels.send_confined bytes).mapError

lemma nextPlaintext_confined :
    Exec.Keeps (ProtectedChannels.Confined C keyScheduleHashFunction aeadAlgorithm P)
      (ProtectedChannels.nextPlaintext C : ProtectedChannels.ProviderCall E _) fun _ => True := by
  refine .bind ProtectedChannels.next_confined.mapError fun packet _ => ?_
  cases packet with
  | none => exact .pure trivial
  | some packet => exact .bind .orThrow fun _ _ => .pure trivial

lemma read_confined (piece : Bytes) :
    Exec.Keeps (ProtectedChannels.Confined C keyScheduleHashFunction aeadAlgorithm P)
      (do
        Exec.modify fun s => { s with incoming := s.incoming++piece }
        let _ ← ProtectedChannels.nextPlaintext C
        pure () : ProtectedChannels.ProviderCall E Unit) fun _ => True :=
  .bind (.modify fun _ h =>
    ⟨h.hash_eq,h.cipher_eq,h.keys,h.allowed,h.seq,h.length_le,h.records⟩) fun _ _ =>
    .bind nextPlaintext_confined fun _ _ => .pure trivial

lemma answer_confined {secretUpdate : Option SecretUpdate} (response : Option Bytes)
    (hP : ∀ u ∈ secretUpdate, ∀ {key iv},
      u.Installs C keyScheduleHashFunction aeadAlgorithm false key iv → P key) :
    Exec.Keeps (ProtectedChannels.Confined C keyScheduleHashFunction aeadAlgorithm P)
      (answer C E secretUpdate response) fun _ => True := by
  have hrespond : Exec.Keeps
      (ProtectedChannels.Confined C keyScheduleHashFunction aeadAlgorithm P)
      (respond C E response) fun _ => True := by
    cases response with
    | none => exact .pure trivial
    | some message => exact sendPlaintext_confined _
  refine .bind hrespond fun _ _ => ?_
  cases secretUpdate with
  | none => exact .pure trivial
  | some update =>
    have hupdate := ProtectedChannels.updateTrafficSecrets_confined (hP update rfl)
    exact .bind hupdate.mapError fun _ _ => hupdate.mapError

lemma newChannels_confined {isServer : Bool} {plain : PlainChannels} {secrets : TrafficSecrets}
    {s : ProtectedChannels} (h : newChannels C isServer plain secrets = .ok s)
    (hP : ∀ {key iv}, SecretUpdate.Installs C keyScheduleHashFunction aeadAlgorithm isServer key iv
      (.both secrets) → P key) :
    s.Confined C keyScheduleHashFunction aeadAlgorithm P := by
  unfold newChannels at h
  split at h
  · simp at h
  · rename_i c hc
    obtain rfl := Except.ok.inj h
    exact .fresh (stamped_new hc) (hP (new_sendKey hc).2.2.2) _ _

end

section
variable {C : Crypto} {G : M.Group → Prop} {x : ResumingClient M}

lemma Inv.log_reached (h : Inv C G x) : ∀ r ∈ x.log, ReachedKey C G x.db r.key := by
  intro r hr
  rcases List.mem_append.mp hr with hr | hr
  · exact h.reached r hr
  · cases hx : x.channels with
    | none => simp [hx] at hr
    | some s =>
      simp only [hx,Option.map_some,Option.getD_some] at hr
      obtain ⟨r',hr',rfl⟩ := List.mem_map.mp hr
      exact ((h.channels s hx).key_allowed hr').1

theorem Inv.nodup_log (h : Inv C G x)
    (hkeys : C.KeysDetermineIvs keyScheduleHashFunction aeadAlgorithm) :
    (x.log.map fun r => (r.key,r.nonce)).Nodup := by
  cases hx : x.channels with
  | none => simpa [log,hx] using h.nodup
  | some s =>
    have hs := h.channels s hx
    have hnodup := hs.nodup hkeys
    rw [log,hx,Option.map_some,Option.getD_some,List.map_append,List.map_map]
    refine List.nodup_append.mpr ⟨h.nodup,hnodup,?_⟩
    intro p hp q hq heq
    obtain ⟨r,hr,rfl⟩ := List.mem_map.mp hp
    obtain ⟨r',hr',rfl⟩ := List.mem_map.mp hq
    exact (hs.key_allowed hr').2 r hr (congrArg Prod.fst heq)

lemma Inv.since (h : Inv C G x) {client : ClientHandshakeState M} {db : Connection M}
    (hsince : ClientHandshakeState.Since x.client.internalState x.db (client,db))
    (hG : Known G db) : Inv C G { x with client, db } where
  filed := hsince.aged.filed
  pending p hp := by
    rcases hsince.pending p hp with hold | hnew
    · exact (h.pending p hold).aged hsince.aged
    · exact reached_of_new hnew hG
  reached r hr := (h.reached r hr).aged hsince.aged
  channels s hs := (h.channels s hs).mono fun _ hk => ⟨hk.1.aged hsince.aged,hk.2⟩
  nodup := h.nodup

lemma Inv.onChannels (h : Inv C G x) {call : ProtectedChannels.ProviderCall M.Error Unit}
    (hcall : Exec.Keeps (ProtectedChannels.Confined C keyScheduleHashFunction aeadAlgorithm
      fun key => ReachedKey C G x.db key ∧ ∀ r ∈ x.past, r.key ≠ key) call fun _ => True) :
    Inv C G (x.onChannels call) where
  filed := h.filed
  pending := h.pending
  reached := h.reached
  channels s hs := by
    obtain ⟨s',hs',rfl⟩ := Option.map_eq_some_iff.mp hs
    exact hcall.snd (h.channels s' hs')
  nodup := h.nodup

lemma Inv.disconnect (h : Inv C G x)
    (hkeys : C.KeysDetermineIvs keyScheduleHashFunction aeadAlgorithm) :
    Inv C G { x with channels := none, past := x.log } where
  filed := h.filed
  pending := h.pending
  reached := h.log_reached
  channels s hs := by simp at hs
  nodup := h.nodup_log hkeys

lemma Inv.allowed_of_new (h : Inv C G x) (hsep : SeparatesEpochs C G) {db : Connection M}
    {secrets : TrafficSecrets} (hnew : New x.db db secrets) (hG : Known G db) {key : Bytes}
    (hk : KeyOf C secrets.clientSecret key) :
    ReachedKey C G db key ∧ ∀ r ∈ x.past, r.key ≠ key := by
  refine ⟨⟨secrets,reached_of_new hnew hG,hk⟩,fun r hr heq => ?_⟩
  have hreached := h.reached r hr
  rw [heq] at hreached
  exact not_reachedKey_of_new hsep hnew hG hk hreached

lemma Inv.connect {σ : Type} {J : Serde M} {tr : Transport σ} {waiting : WaitingForServerHello}
    {plain : PlainChannels} {h : MlsHandshake M} {t : σ} (hfiled : Roster.Filed h.connection)
    (hx : connect C J tr waiting plain h t = some x) (hG : Known G x.db) : Inv C G x := by
  unfold ResumingClient.connect at hx
  split at hx
  · rename_i secrets h' t' hrun
    obtain ⟨packet,state,db,db',-,hreceive,hstore,rfl⟩ := MlsHandshake.clientHandshakeFinish_ok hrun
    have hhello := waiting.receiveServerHello_exports packet.data h.connection hfiled
    rw [hreceive] at hhello
    obtain ⟨hfiled',hrunning,g,hg,hexports⟩ := hhello
    obtain ⟨hgroups,-⟩ := ClientHandshakeState.store_ok hstore
    cases hs : newChannels C false plain secrets with
    | error e => simp [hs] at hx
    | ok s =>
      simp only [hs,Option.some.injEq] at hx
      subst hx
      have hnone : state.internalState.pending = none := by rw [hrunning]; rfl
      rw [← hgroups] at hg
      refine ⟨((Aged.refl hfiled').congr hgroups).filed,by simp [hnone],by simp,fun s' hs' => ?_,
        by simp⟩
      obtain rfl := Option.some.inj hs'
      exact newChannels_confined hs fun {key iv} hk =>
        ⟨⟨secrets,⟨g,g,hG _ _ hg,hexports,hg,le_rfl⟩,iv,hk⟩,by simp⟩
  · simp at hx

section
variable {S : Standing M} (hS : S.Lawful)
  (hcommit : ∀ {signer seed g m g'}, M.selfUpdate signer seed g = .ok (m,g') →
    M.hasPendingCommit g' = true)
include hS hcommit

lemma step_update (hfiled : Roster.Filed x.db) (J : Serde M) (leafSigner : M.SignatureKeyPair)
    (updateRequested : Bool) (seed : ℕ) :
    ∃ client db, ClientHandshakeState.Since x.client.internalState x.db (client,db) ∧
      (step C J (.update leafSigner updateRequested seed) x = { x with client, db } ∨
        ∃ secrets message, New x.db db secrets ∧
          step C J (.update leafSigner updateRequested seed) x =
            { x with client, db }.onChannels (answer C M.Error
              (some (.clientSecret secrets.clientSecret)) (some message))) := by
  have hcall := ClientHandshakeState.update_since hS hcommit hfiled J leafSigner updateRequested seed
    x.client _ rfl
  simp only [step]
  generalize (ClientHandshakeState.update J leafSigner updateRequested seed).run (x.client,x.db) = r
    at hcall ⊢
  obtain ⟨f | ⟨secret,message⟩,client,db⟩ := r
  · exact ⟨client,db,hcall,Or.inl rfl⟩
  · obtain ⟨hsince,secrets,hnew,rfl⟩ := hcall
    exact ⟨client,db,hsince,Or.inr ⟨secrets,message,hnew,rfl⟩⟩

lemma step_receive (hfiled : Roster.Filed x.db) (J : Serde M) (leafSigner : M.SignatureKeyPair)
    (messageBytes : Bytes) (seed : ℕ) :
    ∃ client db, ClientHandshakeState.Since x.client.internalState x.db (client,db) ∧
      (step C J (.receive leafSigner messageBytes seed) x = { x with client, db } ∨
        ∃ secretUpdate response, ClientHandshakeState.SwitchesTo x.db secretUpdate db ∧
          step C J (.receive leafSigner messageBytes seed) x =
            { x with client, db }.onChannels (answer C M.Error secretUpdate response)) := by
  have hcall := ClientHandshakeState.receiveSignalingMessage_since hS hcommit hfiled J leafSigner
    messageBytes seed x.client _ rfl
  simp only [step]
  generalize (ClientHandshakeState.receiveSignalingMessage J leafSigner messageBytes seed).run
    (x.client,x.db) = r at hcall ⊢
  obtain ⟨f | ⟨secretUpdate,response⟩,client,db⟩ := r
  · exact ⟨client,db,hcall,Or.inl rfl⟩
  · exact ⟨client,db,hcall.1,Or.inr ⟨secretUpdate,response,hcall.2,rfl⟩⟩

lemma step_resume (hfiled : Roster.Filed x.db) (J : Serde M) (leafSigner : M.SignatureKeyPair)
    (seed : ℕ) (plain : PlainChannels) :
    ∃ client db, ClientHandshakeState.Since x.client.internalState x.db (client,db) ∧
      (step C J (.resume leafSigner seed plain) x = { x with client, db } ∨
        ∃ secrets, ClientHandshakeState.ResumesWith x.client.internalState x.db secrets db ∧
          step C J (.resume leafSigner seed plain) x =
            ⟨client,db,(newChannels C false plain secrets).toOption,x.log⟩) := by
  have hcall := ClientHandshakeState.resume_since hS hcommit hfiled leafSigner seed x.client _ rfl
  simp only [step]
  generalize (ClientHandshakeState.resume leafSigner seed).run (x.client,x.db) = r at hcall ⊢
  obtain ⟨f | ⟨secrets,message⟩,client,db⟩ := r
  · exact ⟨client,db,hcall,Or.inl rfl⟩
  · exact ⟨client,db,hcall.1,Or.inr ⟨secrets,hcall.2,rfl⟩⟩

lemma step_aged (hfiled : Roster.Filed x.db) (J : Serde M) (e : Event M) :
    Aged x.db (step C J e x).db := by
  cases e with
  | update leafSigner updateRequested seed =>
    obtain ⟨client,db,hsince,heq | ⟨secrets,message,-,heq⟩⟩ :=
      step_update hS hcommit hfiled J leafSigner updateRequested seed
    · rw [heq]
      exact hsince.aged
    · rw [heq]
      exact hsince.aged
  | receive leafSigner messageBytes seed =>
    obtain ⟨client,db,hsince,heq | ⟨secretUpdate,response,-,heq⟩⟩ :=
      step_receive hS hcommit hfiled J leafSigner messageBytes seed
    · rw [heq]
      exact hsince.aged
    · rw [heq]
      exact hsince.aged
  | send item => exact .refl hfiled
  | read piece => exact .refl hfiled
  | disconnect => exact .refl hfiled
  | resume leafSigner seed plain =>
    obtain ⟨client,db,hsince,heq | ⟨secrets,-,heq⟩⟩ :=
      step_resume hS hcommit hfiled J leafSigner seed plain
    · rw [heq]
      exact hsince.aged
    · rw [heq]
      exact hsince.aged

variable (hsep : SeparatesEpochs C G)
include hsep

lemma Inv.update (h : Inv C G x) (J : Serde M) (leafSigner : M.SignatureKeyPair)
    (updateRequested : Bool) (seed : ℕ)
    (hG : Known G (step C J (.update leafSigner updateRequested seed) x).db) :
    Inv C G (step C J (.update leafSigner updateRequested seed) x) := by
  obtain ⟨client,db,hsince,heq | ⟨secrets,message,hnew,heq⟩⟩ :=
    step_update hS hcommit h.filed J leafSigner updateRequested seed
  · rw [heq] at hG ⊢
    exact h.since hsince hG
  · rw [heq] at hG ⊢
    refine (h.since hsince hG).onChannels (answer_confined _ fun u hu key iv hinstalls => ?_)
    obtain rfl := Option.some.inj hu
    exact h.allowed_of_new hsep hnew hG ⟨iv,hinstalls.2⟩

lemma Inv.receive (h : Inv C G x) (J : Serde M) (leafSigner : M.SignatureKeyPair)
    (messageBytes : Bytes) (seed : ℕ)
    (hG : Known G (step C J (.receive leafSigner messageBytes seed) x).db) :
    Inv C G (step C J (.receive leafSigner messageBytes seed) x) := by
  obtain ⟨client,db,hsince,heq | ⟨secretUpdate,response,hswitch,heq⟩⟩ :=
    step_receive hS hcommit h.filed J leafSigner messageBytes seed
  · rw [heq] at hG ⊢
    exact h.since hsince hG
  · rw [heq] at hG ⊢
    refine (h.since hsince hG).onChannels (answer_confined _ fun u hu key iv hinstalls => ?_)
    rcases hswitch u hu with ⟨secret,rfl⟩ | ⟨secret,rfl,secrets,hnew,rfl⟩
    · exact absurd hinstalls.1 (by simp)
    · exact h.allowed_of_new hsep hnew hG ⟨iv,hinstalls.2⟩

lemma Inv.resume (h : Inv C G x)
    (hkeys : C.KeysDetermineIvs keyScheduleHashFunction aeadAlgorithm) (J : Serde M)
    (leafSigner : M.SignatureKeyPair) (seed : ℕ) (plain : PlainChannels) (hunspent : x.Unspent C)
    (hG : Known G (step C J (.resume leafSigner seed plain) x).db) :
    Inv C G (step C J (.resume leafSigner seed plain) x) := by
  -- a resumption with an update that was kept goes on under a key that nothing was sent under
  obtain ⟨client,db,hsince,heq | ⟨secrets,hsecrets,heq⟩⟩ :=
    step_resume hS hcommit h.filed J leafSigner seed plain
  · rw [heq] at hG ⊢
    exact h.since hsince hG
  · rw [heq] at hG ⊢
    have hpast := h.disconnect hkeys
    have hnext := hpast.since hsince hG
    refine ⟨hnext.filed,hnext.pending,hnext.reached,fun s hs => ?_,hnext.nodup⟩
    obtain hs : newChannels C false plain secrets = .ok s := by
      cases hnew : newChannels C false plain secrets with
      | error e => simp [hnew,Except.toOption] at hs
      | ok s' => simpa [hnew,Except.toOption] using hs
    refine newChannels_confined hs fun {key iv} hinstalls => ?_
    have hk : KeyOf C secrets.clientSecret key := ⟨iv,hinstalls⟩
    rcases hsecrets with ⟨p,hp,rfl⟩ | hnew
    · refine ⟨⟨_,(h.pending p hp).aged hsince.aged,hk⟩,fun r hr => ?_⟩
      rw [← keyOf_eq hk]
      exact hunspent p hp r hr
    · exact hpast.allowed_of_new hsep hnew hG hk

theorem Inv.step (h : Inv C G x)
    (hkeys : C.KeysDetermineIvs keyScheduleHashFunction aeadAlgorithm) (J : Serde M) (e : Event M)
    (hunspent : e.isResume = true → x.Unspent C) (hG : Known G (step C J e x).db) :
    Inv C G (step C J e x) := by
  cases e with
  | update leafSigner updateRequested seed =>
    exact h.update hS hcommit hsep J leafSigner updateRequested seed hG
  | receive leafSigner messageBytes seed =>
    exact h.receive hS hcommit hsep J leafSigner messageBytes seed hG
  | send item => exact h.onChannels (sendPlaintext_confined item)
  | read piece => exact h.onChannels (read_confined piece)
  | disconnect => exact h.disconnect hkeys
  | resume leafSigner seed plain =>
    exact h.resume hS hcommit hsep hkeys J leafSigner seed plain (hunspent rfl) hG

/-- Over all connections of a client, no two records share their key and their nonce, as long as no
resumption takes up again an update under whose key a record has been encrypted. -/
theorem nonces_unique_across_resumptions
    (hkeys : C.KeysDetermineIvs keyScheduleHashFunction aeadAlgorithm) {σ : Type} {J : Serde M}
    {tr : Transport σ} {waiting : WaitingForServerHello} {plain : PlainChannels}
    {h : MlsHandshake M} {t : σ} (hfiled : Roster.Filed h.connection) {x₀ : ResumingClient M}
    (hconnect : connect C J tr waiting plain h t = some x₀) (hG : Known G x₀.db)
    (hrun : Runs C J G x₀ x) : (x.log.map fun r => (r.key,r.nonce)).Nodup := by
  have hinv := hrun.invariant (I := Inv C G)
    (fun e y hy hok => hy.step hS hcommit hsep hkeys J e hok.1 hok.2)
    (Inv.connect hfiled hconnect hG)
  exact hinv.nodup_log hkeys

end
end

namespace Sample

def handshake : MlsHandshake sampleMls :=
  ⟨[1],{ sampleDb with keyPackages := [⟨[7],[1]⟩], handshakeStates := some [] },.none⟩

def welcomed : PlainChannels :=
  ⟨[],TlsFrameCodec.frame ((ServerHelloOut.wire sampleMls).bytes ⟨.welcome ⟨[9],[1],[2],[7]⟩⟩)⟩

/-- The client of the sample session right after its handshake. -/
def start : ResumingClient sampleMls :=
  (connect sampleCrypto sampleSerde PlainChannels.transport ⟨[7],[2]⟩ ⟨[],[]⟩ handshake
    welcomed).get (by decide +kernel)

lemma start_eq : connect sampleCrypto sampleSerde PlainChannels.transport ⟨[7],[2]⟩ ⟨[],[]⟩ handshake
    welcomed = some start := (Option.some_get _).symm

/-- The epochs of the sample group whose secrets all differ. -/
def Early (g : Sample.Group) : Prop :=
  g.session.groupId = [9] ∧ g.stage = .running ∧ g.commits.length < 200

instance (g : Sample.Group) : Decidable (Early g) := inferInstanceAs (Decidable (_ ∧ _))

/-- The group that the client has stored is in such an epoch. -/
def early (c : Connection sampleMls) : Bool :=
  match c.groups [9] with
  | .ok (some (g : Sample.Group)) => decide (Early g)
  | _ => true

def group : sampleMls.Group := Sample.Group.mk ⟨[9],[1],[2],[7]⟩ false .running [] none

lemma start_groups : start.db.groups = (sampleDb.saveGroup group).groups := rfl

lemma start_only {j : GroupId} {g : Sample.Group} (h : start.db.groups j = .ok (some g)) :
    j = [9] := by
  by_contra hj
  rw [start_groups,Connection.saveGroup_groups_of_ne _ hj] at h
  simp [sampleDb] at h

lemma start_filed : Roster.Filed start.db := by
  intro j g h
  obtain rfl := start_only h
  rw [start_groups] at h
  obtain rfl := Option.some.inj (Except.ok.inj h)
  rfl

lemma handshake_filed : Roster.Filed handshake.connection := by
  intro j g h
  simp [handshake,sampleDb] at h

lemma known_of_early {c : Connection sampleMls} (haged : Aged start.db c) (h : early c = true) :
    Known Early c := by
  intro j g hg
  obtain ⟨g₀,hg₀,-⟩ := haged.earlier hg
  obtain rfl := start_only hg₀
  simpa [early,hg] using h

lemma selfUpdate_pending {signer : Bytes} {seed : ℕ} {g g' : Sample.Group} {m : Sample.Message}
    (h : sampleMls.selfUpdate signer seed g = .ok (m,g')) : sampleMls.hasPendingCommit g' = true := by
  obtain ⟨s,i,stage,ms,p⟩ := g
  cases stage <;> cases p <;> cases h
  rfl

lemma exists_head_key (label : Bytes) : ∃ shift : UInt8, ∀ {commits : List Sample.Message}
    {key iv : Bytes}, expandSecret sampleCrypto keyScheduleHashFunction label
      (Sample.secret commits 64) [] aeadAlgorithm = .ok (key,iv) →
    key.head? = some (UInt8.ofNat (1+commits.length)+shift) := by
  obtain ⟨a,ha⟩ := sample_expandLabel keyScheduleHashFunction label keyScheduleHashFunction.size
  obtain ⟨b,hb⟩ := sample_expandLabel keyScheduleHashFunction keyLabel aeadAlgorithm.keySize
  refine ⟨a+b,fun {commits key iv} hk => ?_⟩
  obtain ⟨s,hs,hkey,-⟩ := expandSecret_eq_ok hk
  obtain ⟨-,rfl⟩ := ha hs
  obtain ⟨-,rfl⟩ := hb hkey
  simp [Sample.secret,keyScheduleHashFunction,aeadAlgorithm,HashType.size,AeadType.keySize,
    List.replicate_succ,UInt8.add_assoc]

/-- The keys of two early epochs differ in their first byte, under either label. -/
theorem Early.same_epoch {label key iv iv' : Bytes} {g g' : Sample.Group} (hg : Early g)
    (hg' : Early g')
    (hk : expandSecret sampleCrypto keyScheduleHashFunction label (Sample.secret g.commits 64) []
      aeadAlgorithm = .ok (key,iv))
    (hk' : expandSecret sampleCrypto keyScheduleHashFunction label (Sample.secret g'.commits 64) []
      aeadAlgorithm = .ok (key,iv')) :
    sampleMls.groupId g = sampleMls.groupId g' ∧ sampleMls.epoch g = sampleMls.epoch g' := by
  obtain ⟨hid,hrunning,hlt⟩ := hg
  obtain ⟨hid',hrunning',hlt'⟩ := hg'
  obtain ⟨shift,hshift⟩ := exists_head_key label
  have heq := Option.some.inj ((hshift hk).symm.trans (hshift hk'))
  have hbyte := congrArg UInt8.toNat ((UInt8.add_left_inj shift).mp heq)
  rw [UInt8.toNat_ofNat',UInt8.toNat_ofNat'] at hbyte
  have hlen : g.commits.length = g'.commits.length := by omega
  refine ⟨hid.trans hid'.symm,?_⟩
  change Sample.Group.epoch g = Sample.Group.epoch g'
  simp only [Sample.Group.epoch,hrunning,hrunning',hlen]

theorem separatesEpochs : SeparatesEpochs (M := sampleMls) sampleCrypto Early := by
  rintro g g' ⟨⟨secret⟩,_⟩ ⟨⟨secret'⟩,_⟩ key hg hg' hx hx' ⟨iv,hk⟩ ⟨iv',hk'⟩
  obtain rfl : Sample.secret g.commits 64 = secret := Except.ok.inj hx.1
  obtain rfl : Sample.secret g'.commits 64 = secret' := Except.ok.inj hx'.1
  exact hg.same_epoch hg' hk hk'

lemma run_known {ok : Event sampleMls → ResumingClient sampleMls → Prop}
    {x : ResumingClient sampleMls}
    (h : Run (step sampleCrypto sampleSerde) (fun e x => ok e x ∧
      early (step sampleCrypto sampleSerde e x).db = true) start x) :
    Run (step sampleCrypto sampleSerde) (fun e x => ok e x ∧
      Known Early (step sampleCrypto sampleSerde e x).db) start x ∧ Aged start.db x.db := by
  -- the sample client stores the sample group alone, so that it is enough to look at this one
  refine h.under (I := fun y => Aged start.db y.db) (fun e y haged hok => ?_) (.refl start_filed)
  have hnext := haged.trans (step_aged (C := sampleCrypto) sampleStanding_lawful
    selfUpdate_pending haged.filed sampleSerde e)
  exact ⟨hnext,hok.1,known_of_early hnext hok.2⟩

instance (x : ResumingClient sampleMls) : Decidable (x.Unspent sampleCrypto) :=
  inferInstanceAs (Decidable (∀ p ∈ x.client.internalState.pending, ∀ r ∈ x.log, _))

/-- The client sends under the key of its update, loses the connection and resumes with the
update. -/
def spending : List (Event sampleMls) :=
  [.update [1] false 5,.send (.application [1]),.disconnect,.resume [1] 6 ⟨[],[]⟩,
    .send (.application [2]),.send (.application [3])]

/-- The update is answered before the connection is lost. -/
def confirming : List (Event sampleMls) :=
  [.update [1] false 5,.receive [1] (epochKeyUpdateBytes sampleMls 2) 0,.send (.application [1]),
    .disconnect,.resume [1] 6 ⟨[],[]⟩,.send (.application [2])]

def after (events : List (Event sampleMls)) : ResumingClient sampleMls :=
  events.foldl (fun x e => step sampleCrypto sampleSerde e x) start

end Sample

/-- A record of the resumed connection takes the key and the nonce of a different one that was
encrypted before the connection was lost. -/
theorem resumption_reuses_nonce :
    SeparatesEpochs (M := sampleMls) sampleCrypto Sample.Early ∧
      connect sampleCrypto sampleSerde PlainChannels.transport ⟨[7],[2]⟩ ⟨[],[]⟩ Sample.handshake
        Sample.welcomed = some Sample.start ∧
      ∃ x, Run (step sampleCrypto sampleSerde)
        (fun e x => Known Sample.Early (step sampleCrypto sampleSerde e x).db) Sample.start x ∧
        ∃ r ∈ x.log, ∃ r' ∈ x.log, r.plaintext ≠ r'.plaintext ∧ r.key = r'.key ∧
          r.nonce = r'.nonce := by
  have hrun : Run (step sampleCrypto sampleSerde) (fun e x => True ∧
      Sample.early (step sampleCrypto sampleSerde e x).db = true) Sample.start
      (Sample.after Sample.spending) := .ofList (by decide +kernel)
  refine ⟨Sample.separatesEpochs,Sample.start_eq,_,
    (Sample.run_known hrun).1.mono fun _ _ hok => hok.2,?_⟩
  decide +kernel

theorem nonces_unique_across_resumptions_sample :
    (Sample.after Sample.confirming).log.length = 3 ∧
      ((Sample.after Sample.confirming).log.map fun r => (r.key,r.nonce)).Nodup := by
  have hrun : Run (step sampleCrypto sampleSerde) (fun e x =>
      (e.isResume = true → x.Unspent sampleCrypto) ∧
      Sample.early (step sampleCrypto sampleSerde e x).db = true) Sample.start
      (Sample.after Sample.confirming) := .ofList (by decide +kernel)
  have hknown : Known Sample.Early Sample.start.db :=
    Sample.known_of_early (.refl Sample.start_filed) (by decide +kernel)
  exact ⟨by decide +kernel,nonces_unique_across_resumptions sampleStanding_lawful
    Sample.selfUpdate_pending Sample.separatesEpochs (sampleCrypto_keysDetermineIvs _ _)
    Sample.handshake_filed Sample.start_eq hknown (Sample.run_known hrun).1⟩

end ResumingClient
end MlsTls.EncryptionProvider
