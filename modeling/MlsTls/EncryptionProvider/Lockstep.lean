import MlsTls.EncryptionProvider.Values

/-! Both providers of a connection stay in step. A state of the two providers is matched with a
state of the session of their handshakes: the signaling values in flight are the messages in
flight of the session, and the record keys follow its secrets. -/
set_option linter.dupNamespace false

namespace MlsTls.EncryptionProvider
open Lib TlsAead MlsHandshake
variable {M : OpenMls}

/-- Whether the side changes its key after sending the value. -/
def announcing (M : OpenMls) (isServer : Bool) : InnerPlaintext → Bool
  | .application _ => false
  | .signaling b => announces M isServer b

lemma TrafficSecrets.update_update (t : TrafficSecrets) (u : SecretUpdate) :
    (t.update u).update u = t.update u := by
  cases u <;> rfl

section
variable {C : Crypto} (hC : C.Lawful) {isServer : Bool} {t : TrafficSecrets} {s : ProtectedChannels}
include hC

lemma ProtectedChannels.updateCipher_run {E : Type} (hs : s.Clean)
    (h : KeyedBy C isServer t s.cipher) {u : SecretUpdate} (hu : Usable (t.update u)) :
    ∃ c, (ProtectedChannels.updateCipher C isServer u : ProtectedChannels.ProviderCall E Unit).run s =
        (.ok (),{ s with cipher := c }) ∧
      KeyedBy C isServer (t.update u) c ∧ c.sendSeq = s.cipher.sendSeq ∧
      c.recvSeq = s.cipher.recvSeq := by
  obtain ⟨c,hrun,hc,hsend,hrecv⟩ := h.update hC hu
  have hu' : Usable ((t.update u).update u) := by
    rw [TrafficSecrets.update_update]
    exact hu
  obtain ⟨c',hrun',hc',hsend',hrecv'⟩ := hc.update hC hu'
  rw [TrafficSecrets.update_update] at hc'
  refine ⟨c',?_,hc',hsend'.trans hsend,hrecv'.trans hrecv⟩
  have h₁ := ProtectedChannels.lock_run hs.unpoisoned hrun
  have h₂ := ProtectedChannels.lock_run (s := { s with cipher := c }) hs.unpoisoned hrun'
  simp only [ProtectedChannels.updateCipher,TlsAead.ProtectedChannels.updateTrafficSecrets,
    Exec.bind_run,Exec.mapError,h₁,h₂]

lemma ProtectedChannels.sendPlaintext_fits {E : Type} (hs : s.Clean)
    (h : KeyedBy C isServer t s.cipher) {m : InnerPlaintext} (hm : m.Fits)
    (hseq : s.cipher.sendSeq+1 < u64Size) :
    ∃ s' r, (ProtectedChannels.sendPlaintext C m : ProtectedChannels.ProviderCall E Unit).run s =
        (.ok (),s') ∧ s'.Clean ∧ KeyedBy C isServer t s'.cipher ∧
      s'.cipher.sendSeq = s.cipher.sendSeq+1 ∧ inbound s' = inbound s ∧
      Under C (outbound s).key (outbound s).seq (m,r) ∧
      outbound s' = (outbound s).push (outbound s).key r := by
  obtain ⟨e,he,hfit⟩ := hm
  have hchunks := chunks_of_length_le tlsMaxRecordSize_pos (InnerPlaintext.enc_ne_nil he) hfit
  have hk := h.wellKeyed hC
  obtain ⟨r,hr,hout⟩ := Link.sent hC hk h.cipher he hfit
  refine ⟨s.afterSend C e,r,ProtectedChannels.sendPlaintext_run hC hs hk he ?_,hs.afterSend C e,
    h.setSendSeq _,?_,rfl,hr,hout⟩
  · rwa [hchunks]
  · rw [TlsAead.ProtectedChannels.afterSend_sendSeq,hchunks]
    rfl

end

/-- What the channels of a party are after an answer that leaves it with the secrets `t`. -/
structure Answered (C : Crypto) (isServer : Bool) (t : TrafficSecrets) (response : Option Bytes)
    (s s' : ProtectedChannels) : Prop where
  clean : s'.Clean
  keyed : KeyedBy C isServer t s'.cipher
  seq : s'.cipher.sendSeq = s.cipher.sendSeq+response.toList.length
  inbound : inbound s' = { inbound s with key := keysOf C (!isServer) (secretOf (!isServer) t) }
  silent : response = none →
    outbound s' = { outbound s with key := keysOf C isServer (secretOf isServer t) }
  answer : ∀ b, response = some b → ∃ r,
    Under C (outbound s).key (outbound s).seq (.signaling b,r) ∧
    outbound s' = (outbound s).push (keysOf C isServer (secretOf isServer t)) r

lemma Answered.moves {C : Crypto} (hC : C.Lawful) {isServer : Bool} {t : TrafficSecrets}
    {response : Option Bytes} {s s' : ProtectedChannels} (h : Answered C isServer t response s s') :
    Moves C [] (response.toList.map .signaling) s s' := by
  have hin := congrArg Inbound.log h.inbound
  cases response with
  | none =>
    have hout := congrArg Outbound.log (h.silent rfl)
    exact .still hout hin h.seq
  | some b =>
    obtain ⟨r,hr,hout⟩ := h.answer b rfl
    exact .push hC hr hout hin

namespace EncryptionProvider
variable {V : Environment M} {isServer : Bool} {p : EncryptionProvider M V.chrono}

lemma onChannels_run {α : Type} {x : ProtectedChannels.ProviderCall M.Error α}
    {r : Outcome (EncryptionProviderError M.Error) α} {s : ProtectedChannels}
    (h : x.run p.channels = (r,s)) :
    (onChannels x : Call V α).run p = (r,{ p with channels := s }) := Exec.zoom_of_run h

variable (hC : V.crypto.Lawful) {t : TrafficSecrets}
include hC

lemma switch_run {update : Option SecretUpdate} (hs : p.channels.Clean)
    (h : KeyedBy V.crypto isServer t p.channels.cipher)
    (hu : Usable (update.elim t t.update)) :
    ∃ c, (answer V isServer update none).run p =
        (.ok (),{ p with channels.cipher := c }) ∧
      KeyedBy V.crypto isServer (update.elim t t.update) c ∧
      c.sendSeq = p.channels.cipher.sendSeq ∧ c.recvSeq = p.channels.cipher.recvSeq := by
  cases update with
  | none => exact ⟨p.channels.cipher,rfl,h,rfl,rfl⟩
  | some u =>
    obtain ⟨c,hrun,hc⟩ := ProtectedChannels.updateCipher_run (E := M.Error) hC hs h hu
    exact ⟨c,onChannels_run hrun,hc⟩

theorem answer_run {update : Option SecretUpdate} {response : Option Bytes} (hs : p.channels.Clean)
    (h : KeyedBy V.crypto isServer t p.channels.cipher) (hu : Usable (update.elim t t.update))
    (hfit : ∀ b, response = some b → (InnerPlaintext.signaling b).Fits ∧
      p.channels.cipher.sendSeq+1 < u64Size) :
    ∃ s', (answer V isServer update response).run p = (.ok (),{ p with channels := s' }) ∧
      Answered V.crypto isServer (update.elim t t.update) response p.channels s' := by
  cases response with
  | none =>
    obtain ⟨c,hrun,hc,hsend,hrecv⟩ := switch_run hC hs h hu
    refine ⟨_,hrun,⟨hs.unpoisoned,hs.empty⟩,hc,hsend,?_,fun _ => ?_,by simp⟩
    · simp only [EncryptionProvider.inbound,hrecv,hc.recv]
    · simp only [EncryptionProvider.outbound,hsend,hc.send]
  | some b =>
    obtain ⟨hb,hseq⟩ := hfit b rfl
    obtain ⟨s₁,r,hsent,hs₁,hk₁,hseq₁,hin,hr,hout⟩ :=
      ProtectedChannels.sendPlaintext_fits (E := M.Error) hC hs h hb hseq
    obtain ⟨c,hrun,hc,hsend,hrecv⟩ :=
      switch_run (p := { p with channels := s₁ }) hC hs₁ hk₁ hu
    refine ⟨{ s₁ with cipher := c },?_,⟨hs₁.unpoisoned,hs₁.empty⟩,hc,?_,?_,by simp,?_⟩
    · rw [← hrun]
      exact Exec.bind_of_ok (onChannels_run hsent) _
    · exact hsend.trans hseq₁
    · rw [← hin]
      simp only [EncryptionProvider.inbound,hrecv,hc.recv]
    · intro b' hb'
      obtain rfl := Option.some.inj hb'
      refine ⟨r,hr,?_⟩
      have hkey : outbound { s₁ with cipher := c } =
          { outbound s₁ with key := (c.sendKey,c.sendIv) } := by
        simp only [EncryptionProvider.outbound,hsend]
      rw [hkey,hout,hc.send]
      rfl

end EncryptionProvider

/-- One side of the connection and its side of the session. -/
structure Side {V : Environment M} (P : Parties M) (isServer : Bool) (x : System M)
    (e : Endpoint V) : Prop where
  handshake : e.provider.handshake = x.handshakeOf P isServer
  clean : e.channels.Clean
  keyed : KeyedBy V.crypto isServer (x.secretsOf isServer) e.channels.cipher
  room : e.channels.cipher.sendSeq < u64Size

/-- The direction from the side `isServer` to the other one, with the values in it. -/
structure Lane {V : Environment M} (isServer : Bool) (x : System M) (e o : Endpoint V)
    (pending : List InnerPlaintext) : Prop where
  link : Link V.crypto (announcing M isServer) (outbound e.channels) (inbound o.channels)
    o.unprocessed pending
  messages : x.messagesOf isServer = pending.filterMap InnerPlaintext.message

/-- The two sides and the session `x` match; `e` is the side `isServer` and `o` the other one. -/
structure Joined {V : Environment M} (T : TwoParty M) (σ : T.Session) (P : Parties M)
    (isServer : Bool) (x : System M) (e o : Endpoint V) : Prop where
  live : T.Live σ x
  near : Side P isServer x e
  far : Side P (!isServer) x o
  going : ∃ pending, Lane isServer x e o pending
  coming : ∃ pending, Lane (!isServer) x o e pending

namespace Joined
variable {V : Environment M} {T : TwoParty M} {σ : T.Session} {P : Parties M} {isServer : Bool}
  {x : System M} {e o : Endpoint V}

theorem swap (h : Joined T σ P isServer x e o) : Joined T σ P (!isServer) x o e := by
  refine ⟨h.live,h.far,?_,h.coming,?_⟩
  · rw [Bool.not_not]
    exact h.near
  · rw [Bool.not_not]
    exact h.going

/-- Time passes. -/
theorem later (h : Joined T σ P isServer x e o) {n : ℕ} (hn : x.clock ≤ n) :
    Joined T σ P isServer { x with clock := n } e o := by
  obtain ⟨⟨H,i,S,p,alive,hinv⟩,hnear,hfar,⟨q,hq⟩,⟨r,hr⟩⟩ := h
  exact ⟨⟨H,i,S,p,alive,hinv.later hn⟩,⟨hnear.handshake,hnear.clean,hnear.keyed,hnear.room⟩,
    ⟨hfar.handshake,hfar.clean,hfar.keyed,hfar.room⟩,⟨q,hq.link,hq.messages⟩,⟨r,hr.link,hr.messages⟩⟩

/-- The update policy is nobody else's business. -/
theorem policy (h : Joined T σ P isServer x e o) (policy : UpdatePolicy V.chrono) :
    Joined T σ P isServer x ⟨{ e.provider with updatePolicy := policy },e.unprocessed⟩ o :=
  ⟨h.live,⟨h.near.handshake,h.near.clean,h.near.keyed,h.near.room⟩,h.far,
    h.going.imp fun _ hq => ⟨hq.link,hq.messages⟩,h.coming.imp fun _ hq => ⟨hq.link,hq.messages⟩⟩

section
variable (hC : V.crypto.Lawful)
include hC

/-- Application data goes on its way. -/
theorem send (h : Joined T σ P isServer x e o) {bytes : Bytes}
    (hfit : (InnerPlaintext.application bytes).Fits)
    (hseq : e.channels.cipher.sendSeq+1 < u64Size) :
    ∃ s', (ProtectedChannels.sendPlaintext V.crypto (.application bytes) :
        ProtectedChannels.ProviderCall M.Error Unit).run e.channels = (.ok (),s') ∧
      Moves V.crypto [] [.application bytes] e.channels s' ∧
      Joined T σ P isServer x ⟨{ e.provider with channels := s' },e.unprocessed⟩ o := by
  obtain ⟨s',r,hrun,hclean,hkeyed,hseq',hin,hr,hout⟩ :=
    ProtectedChannels.sendPlaintext_fits (E := M.Error) hC h.near.clean h.near.keyed hfit hseq
  obtain ⟨pending,hgoing⟩ := h.going
  obtain ⟨pending',hcoming⟩ := h.coming
  refine ⟨s',hrun,.push hC hr hout (congrArg Inbound.log hin),h.live,
    ⟨h.near.handshake,hclean,hkeyed,?_⟩,h.far,⟨pending++[.application bytes],?_,?_⟩,⟨pending',?_,hcoming.messages⟩⟩
  · rw [Endpoint.channels,hseq']
    exact hseq
  · rw [Endpoint.channels,hout]
    exact hgoing.link.push hr _ (Or.inl rfl)
  · rw [hgoing.messages,List.filterMap_append]
    simp [InnerPlaintext.message]
  · rw [Endpoint.channels,hin]
    exact hcoming.link

/-- The reader waits, or it takes the next value. -/
theorem read (h : Joined T σ P isServer x e o) (hslot : e.unprocessed = none) :
    (EncryptionProvider.readMessage V).run e.provider = (.ok none,e.provider) ∨
    ∃ m s', (EncryptionProvider.readMessage V).run e.provider =
        (.ok (some m),{ e.provider with channels := s' }) ∧
      Moves V.crypto [m] [] e.channels s' ∧
      Joined T σ P isServer x ⟨{ e.provider with channels := s' },some m⟩ o := by
  obtain ⟨pending,hgoing⟩ := h.going
  obtain ⟨pending',hcoming⟩ := h.coming
  have hlink := hcoming.link
  rw [hslot] at hlink
  rcases hlink.next hC h.near.clean.unpoisoned h.near.keyed.cipher h.far.room M.Error with
    hrun | ⟨m,rest,packet,hrun,hnext⟩
  · exact Or.inl (EncryptionProvider.onChannels_run hrun)
  · refine Or.inr ⟨m,_,EncryptionProvider.onChannels_run hrun,hlink.next_moves hC hnext,h.live,⟨h.near.handshake,
      ⟨h.near.clean.unpoisoned,h.near.clean.empty⟩,h.near.keyed.setRecvSeq _,h.near.room⟩,h.far,
      ⟨pending,hgoing.link,hgoing.messages⟩,⟨pending',hnext,hcoming.messages⟩⟩

/-- What a party is left with after it has processed `taken`. -/
def slotAfter (taken : Option Bytes) (slot : Option InnerPlaintext) : Option InnerPlaintext :=
  taken.elim slot fun _ => none

omit hC in
lemma going_after (h : Joined T σ P isServer x e o) {taken : Option Bytes}
    {update : Option SecretUpdate} {response : Option Bytes} {y : System M}
    (hr : x.Reaction P isServer taken update response y) {s' : ProtectedChannels}
    (ha : Answered V.crypto isServer (y.secretsOf isServer) response e.channels s')
    (e' : Endpoint V) (he : e'.channels = s') : ∃ pending, Lane isServer y e' o pending := by
  obtain ⟨pending,hgoing⟩ := h.going
  have hkey : (outbound e.channels).key =
      keysOf V.crypto isServer (secretOf isServer (x.secretsOf isServer)) := h.near.keyed.send
  cases response with
  | none =>
    refine ⟨pending,?_,by rw [hr.sent,hgoing.messages]; simp⟩
    have hsame : secretOf isServer (y.secretsOf isServer) =
        secretOf isServer (x.secretsOf isServer) :=
      hr.sendKey.resolve_right fun ⟨_,hnone,_⟩ => by simp at hnone
    rw [he,ha.silent rfl,hsame,← hkey]
    exact hgoing.link
  | some b =>
    obtain ⟨r,hunder,hout⟩ := ha.answer b rfl
    refine ⟨pending++[.signaling b],?_,?_⟩
    · rw [he,hout]
      refine hgoing.link.push hunder _ ?_
      rcases hr.sendKey with hsame | ⟨b',hb',hmark,hplain⟩
      · left
        rw [hsame,hkey]
      · obtain rfl := Option.some.inj hb'
        refine Or.inr ⟨hmark,fun m hm => ?_⟩
        cases m with
        | application => rfl
        | signaling c =>
          refine hplain c ?_
          rw [hgoing.messages]
          exact List.mem_filterMap.mpr ⟨_,hm,rfl⟩
    · rw [hr.sent,hgoing.messages,List.filterMap_append]
      rfl

omit hC in
lemma coming_after (h : Joined T σ P isServer x e o) {taken : Option Bytes}
    {update : Option SecretUpdate} {response : Option Bytes} {y : System M}
    (hr : x.Reaction P isServer taken update response y)
    (htaken : ∀ b, taken = some b → e.unprocessed = some (.signaling b)) {s' : ProtectedChannels}
    (ha : Answered V.crypto isServer (y.secretsOf isServer) response e.channels s')
    (e' : Endpoint V) (he : e'.channels = s')
    (hslot : e'.unprocessed = slotAfter taken e.unprocessed) :
    ∃ pending, Lane (!isServer) y o e' pending := by
  obtain ⟨pending,hcoming⟩ := h.coming
  have hrecv : (inbound e.channels).key =
      keysOf V.crypto (!isServer) (secretOf (!isServer) (x.secretsOf isServer)) := h.near.keyed.recv
  have hsend : (outbound o.channels).key =
      keysOf V.crypto (!isServer) (secretOf (!isServer) (x.secretsOf (!isServer))) :=
    h.far.keyed.send
  have hkey := hr.recvKey
  cases taken with
  | none =>
    refine ⟨pending,?_,hr.received.symm.trans hcoming.messages⟩
    simp only [Option.any_none,Bool.false_eq_true,if_false] at hkey
    rw [he,hslot,ha.inbound,hkey,← hrecv]
    exact hcoming.link
  | some b =>
    have hlink := hcoming.link
    rw [htaken b rfl] at hlink
    have hk : keysOf V.crypto (!isServer) (secretOf (!isServer) (y.secretsOf isServer)) =
        if announcing M (!isServer) (.signaling b) then (outbound o.channels).key
        else (inbound e.channels).key := by
      rw [hkey,hsend,hrecv]
      exact apply_ite (keysOf V.crypto (!isServer)) _ _ _
    obtain ⟨rest,rfl,hrest⟩ := hlink.processed hk
    refine ⟨rest,?_,?_⟩
    · rw [he,hslot,ha.inbound]
      exact hrest
    · have hm := hr.received.symm.trans hcoming.messages
      exact (List.cons.inj hm).2

/-- The handshake has reacted, and the provider answers. -/
theorem react (h : Joined T σ P isServer x e o) {taken : Option Bytes}
    {update : Option SecretUpdate} {response : Option Bytes} {y : System M}
    (hr : x.Reaction P isServer taken update response y) (hy : T.Live σ y)
    (htaken : ∀ b, taken = some b → e.unprocessed = some (.signaling b))
    (hfit : ∀ b, response = some b → (InnerPlaintext.signaling b).Fits ∧
      e.channels.cipher.sendSeq+1 < u64Size) :
    ∃ s', (EncryptionProvider.answer V isServer update response).run
        { e.provider with handshake := y.handshakeOf P isServer } =
          (.ok (),{ e.provider with handshake := y.handshakeOf P isServer, channels := s' }) ∧
      s'.cipher.sendSeq = e.channels.cipher.sendSeq+response.toList.length ∧
      Moves V.crypto [] (response.toList.map .signaling) e.channels s' ∧
      Joined T σ P isServer y ⟨{ e.provider with
        handshake := y.handshakeOf P isServer, channels := s' },slotAfter taken e.unprocessed⟩ o := by
  have hu := hr.usable h.near.keyed.usable
  rw [hr.secrets] at hu
  obtain ⟨s',hrun,ha⟩ := EncryptionProvider.answer_run
    (p := { e.provider with handshake := y.handshakeOf P isServer }) hC h.near.clean h.near.keyed hu
    hfit
  rw [← hr.secrets] at ha
  refine ⟨s',hrun,ha.seq,ha.moves hC,hy,⟨rfl,ha.clean,ha.keyed,?_⟩,⟨?_,h.far.clean,?_,h.far.room⟩,
    h.going_after hr ha _ rfl,h.coming_after hr htaken ha _ rfl rfl⟩
  · rw [Endpoint.channels,ha.seq]
    cases response with
    | none => exact h.near.room
    | some b => exact (hfit b rfl).2
  · rw [h.far.handshake,hr.otherHandshake]
  · rw [hr.otherSecrets]
    exact h.far.keyed

end

section
variable (hC : V.crypto.Lawful) (hT : T.Lawful) (hP : T.Honest σ P) (hJ : P.serde = V.serde)
include hC hT hP hJ

/-- A value that was read is processed. -/
theorem process {p : EncryptionProvider M V.chrono} {m : InnerPlaintext}
    (h : Joined T σ P isServer x ⟨p,some m⟩ o) (hroom : p.ProcessRoom m x.clock) :
    ∃ p' put y, (EncryptionProvider.processReadMessage V isServer m x.clock).run p =
        (.ok m.payload,p') ∧ Moves V.crypto [] put p.channels p'.channels ∧
      Answers M isServer [m] put ∧ y.clock = x.clock+1 ∧ Joined T σ P isServer y ⟨p',none⟩ o := by
  obtain ⟨pending,hcoming⟩ := h.coming
  cases m with
  | application b =>
    obtain ⟨rest,rfl,hlink⟩ := hcoming.link.processed rfl
    have hj : Joined T σ P isServer x ⟨p,none⟩ o :=
      ⟨h.live,⟨h.near.handshake,h.near.clean,h.near.keyed,h.near.room⟩,h.far,
        h.going.imp fun _ hq => ⟨hq.link,hq.messages⟩,rest,hlink,hcoming.messages⟩
    exact ⟨p,[],_,rfl,.refl _,.application .nil,rfl,hj.later (Nat.le_succ _)⟩
  | signaling b =>
    obtain ⟨rest,rfl,-⟩ := hcoming.link.processed rfl
    obtain ⟨H,i,S,q,alive,hinv⟩ := h.live
    obtain ⟨update,response,y,hrun,hr,hconfirms,hy⟩ := hinv.receive hT hP isServer hcoming.messages
    have hhandshake : p.handshake = x.handshakeOf P isServer := h.near.handshake
    rw [hJ,← hhandshake] at hrun
    obtain ⟨s',hans,-,hmoves,hj⟩ := h.react hC hr hy (fun b' hb' => by rw [← Option.some.inj hb'])
      (fun response' hres => hroom.of_ok hrun response' hres)
    refine ⟨_,response.toList.map .signaling++[],y,?_,?_,.signaling hconfirms .nil,hr.clock,hj⟩
    · have hcall : (Exec.mapError EncryptionProviderError.handshakeError
          (EncryptionProvider.onHandshake (MlsHandshake.processSignalingMessage V.serde b x.clock)) :
            EncryptionProvider.Call V _).run p =
          (.ok (update,response),{ p with handshake := y.handshakeOf P isServer }) :=
        Exec.mapError_of_ok (Exec.zoom_of_run hrun)
      rw [EncryptionProvider.processReadMessage,Exec.bind_of_ok hcall,Exec.bind_of_ok hans]
      rfl
    · rw [List.append_nil]
      exact hmoves

/-- `read_bytes` processes one value after the other. -/
theorem readBytes {turns : ℕ} {p : EncryptionProvider M V.chrono}
    (h : Joined T σ P isServer x ⟨p,none⟩ o)
    (hroom : EncryptionProvider.ReadRoom isServer turns x.clock p) :
    ∃ r p' got put y, (EncryptionProvider.readBytesInner V isServer turns x.clock).run p =
        (.ok r,p') ∧ Moves V.crypto got put p.channels p'.channels ∧ payloads got = r.toList ∧
      Answers M isServer got put ∧ (got = [] → p' = p) ∧ y.clock = x.clock+turns ∧
      Joined T σ P isServer y ⟨p',none⟩ o := by
  induction turns generalizing x p with
  | zero => exact ⟨none,p,[],[],x,rfl,.refl _,rfl,.nil,fun _ => rfl,rfl,h⟩
  | succ turns ih =>
    have hdone {y : System M} {p' : EncryptionProvider M V.chrono}
        (hy : Joined T σ P isServer y ⟨p',none⟩ o) (hclock : y.clock ≤ x.clock+(turns+1)) :
        ∃ z, z.clock = x.clock+(turns+1) ∧ Joined T σ P isServer z ⟨p',none⟩ o :=
      ⟨_,rfl,hy.later hclock⟩
    rcases h.read hC rfl with hrun | ⟨m,s',hrun,hgot,hread⟩
    · obtain ⟨z,hz,hj⟩ := hdone h (by omega)
      refine ⟨none,p,[],[],z,?_,.refl _,rfl,.nil,fun _ => rfl,hz,hj⟩
      rw [EncryptionProvider.readBytesInner_succ,Exec.bind_of_ok hrun]
      rfl
    · obtain ⟨hprocess,hrest⟩ := hroom.of_ok hrun m rfl
      obtain ⟨p',put,y,hrun',hput,hanswers,hclock,hy⟩ := hread.process hC hT hP hJ hprocess
      have hmoves : Moves V.crypto [m] put p.channels p'.channels := hgot.trans hput
      cases hm : m.payload with
      | some b =>
        rw [hm] at hrun'
        obtain ⟨z,hz,hj⟩ := hdone hy (by omega)
        refine ⟨some b,p',[m],put,z,?_,hmoves,by rw [payloads_singleton,hm],hanswers,by simp,hz,hj⟩
        rw [EncryptionProvider.readBytesInner_succ,Exec.bind_of_ok hrun]
        simp only [Exec.bind_of_ok hrun',Exec.pure_run]
      | none =>
        rw [hm] at hrun'
        have hroom' := hrest.of_ok hrun' rfl
        rw [← hclock] at hroom'
        obtain ⟨r',p'',got,put',z,hrun'',hmoves',hpayloads,hanswers',-,hz,hj⟩ := ih hy hroom'
        refine ⟨r',p'',_,_,z,?_,hmoves.trans hmoves',?_,hanswers.append hanswers',by simp,by omega,hj⟩
        · rw [hclock] at hrun''
          rw [EncryptionProvider.readBytesInner_succ,Exec.bind_of_ok hrun]
          simp only [Exec.bind_of_ok hrun',hrun'']
        · rw [payloads_append,payloads_singleton,hm,hpayloads]
          rfl

/-- The update that `send_bytes` may start with. -/
theorem sendUpdate {p : EncryptionProvider M V.chrono} {slot : Option InnerPlaintext}
    (h : Joined T σ P isServer x ⟨p,slot⟩ o) (now : V.chrono.DateTime)
    (hroom : p.UpdateRoom x.clock) (hseq : p.channels.cipher.sendSeq+1 < u64Size) :
    ∃ p' put y, (EncryptionProvider.sendUpdate V isServer now x.clock).run p = (.ok (),p') ∧
      Moves V.crypto [] put p.channels p'.channels ∧ payloads put = [] ∧
      y.clock = x.clock+1 ∧ p'.channels.cipher.sendSeq+1 < u64Size ∧
      (p'.updatePolicy = p.updatePolicy ∨ p'.updatePolicy = p.updatePolicy.reset now) ∧
      Joined T σ P isServer y ⟨p',slot⟩ o := by
  obtain ⟨H,i,S,q,alive,hinv⟩ := h.live
  have hhandshake : p.handshake = x.handshakeOf P isServer := h.near.handshake
  have hcases := hinv.update hT hP isServer
  rw [hJ,← hhandshake] at hcases
  rcases hcases with hrun | ⟨hwait,hok⟩
  · refine ⟨p,[],_,?_,.refl _,rfl,rfl,hseq,Or.inl rfl,h.later (Nat.le_succ _)⟩
    have hcall : (Exec.attempt (EncryptionProvider.onHandshake (MlsHandshake.updateHandshake V.serde
        x.clock)) : EncryptionProvider.Call V _).run p = _ :=
      Exec.attempt_of_error (Exec.zoom_of_run hrun)
    rw [EncryptionProvider.sendUpdate,Exec.bind_of_ok hcall]
    rfl
  · obtain ⟨update,message,y,hrun,hr,hy⟩ := hok (hroom.1 hwait)
    rw [hJ,← hhandshake] at hrun
    have hfit := hroom.2.of_ok hrun
    obtain ⟨s',hans,hseq',hmoves,hj⟩ := h.react hC hr hy (by simp) (fun b hb => by
      obtain rfl := Option.some.inj hb
      exact ⟨hfit.1,hseq⟩)
    refine ⟨_,_,y,?_,hmoves,rfl,hr.clock,?_,Or.inr rfl,hj.policy (p.updatePolicy.reset now)⟩
    · have hcall : (Exec.attempt (EncryptionProvider.onHandshake (MlsHandshake.updateHandshake
          V.serde x.clock)) : EncryptionProvider.Call V _).run p =
          (.ok (.ok (update,message)),{ p with handshake := y.handshakeOf P isServer }) :=
        Exec.attempt_of_ok (Exec.zoom_of_run hrun)
      rw [EncryptionProvider.sendUpdate,Exec.bind_of_ok hcall]
      simp only [Exec.bind_of_ok hans]
      rfl
    · have hlast := hfit.2
      rw [show s'.cipher.sendSeq = p.channels.cipher.sendSeq+1 from hseq']
      omega

omit hT hP hJ in
theorem sendApplication {p : EncryptionProvider M V.chrono} {slot : Option InnerPlaintext}
    (h : Joined T σ P isServer x ⟨p,slot⟩ o) {bytes : Bytes}
    (hfit : (InnerPlaintext.application bytes).Fits)
    (hseq : p.channels.cipher.sendSeq+1 < u64Size) :
    ∃ r p', (EncryptionProvider.sendApplication V bytes).run p = (r,p') ∧
      Moves V.crypto [] [.application bytes] p.channels p'.channels ∧
      (r = .ok () ∨
        r = .error .panic ∧ p.updatePolicy.incrementBytesTransferred bytes.length = none) ∧
      Joined T σ P isServer x ⟨p',slot⟩ o := by
  obtain ⟨s',hrun,hmoves,hj⟩ := h.send hC hfit hseq
  have hcall : (Exec.attempt (EncryptionProvider.onChannels (ProtectedChannels.sendPlaintext V.crypto
      (.application bytes))) : EncryptionProvider.Call V _).run p =
      (.ok (.ok ()),{ p with channels := s' }) :=
    Exec.attempt_of_ok (EncryptionProvider.onChannels_run hrun)
  rw [EncryptionProvider.sendApplication,Exec.bind_of_ok hcall]
  simp only [Exec.bind_run,Exec.get_run]
  cases p.updatePolicy.incrementBytesTransferred bytes.length with
  | none => exact ⟨_,_,rfl,hmoves,Or.inr ⟨rfl,rfl⟩,hj⟩
  | some policy => exact ⟨_,_,rfl,hmoves,Or.inl rfl,hj.policy policy⟩

theorem sendBytes {p : EncryptionProvider M V.chrono} {slot : Option InnerPlaintext}
    (h : Joined T σ P isServer x ⟨p,slot⟩ o) {bytes : Bytes} {now : V.chrono.DateTime}
    (hroom : p.SendRoom bytes now x.clock) :
    ∃ r p' put y, (EncryptionProvider.sendBytes V isServer bytes now x.clock).run p = (r,p') ∧
      Moves V.crypto [] put p.channels p'.channels ∧
      payloads put = ((p.updatePolicy.updateIsDue now).map fun _ => bytes).toList ∧
      (r = .ok () ∨ r = .error .panic ∧ p.PolicyOverflow bytes now) ∧
      y.clock = x.clock+1 ∧ Joined T σ P isServer y ⟨p',slot⟩ o := by
  simp only [EncryptionProvider.sendBytes,Exec.bind_run,Exec.get_run]
  cases hdue : p.updatePolicy.updateIsDue now with
  | none =>
    exact ⟨_,_,_,_,rfl,.refl _,rfl,Or.inr ⟨rfl,Or.inl hdue⟩,rfl,h.later (Nat.le_succ _)⟩
  | some due =>
    cases due with
    | false =>
      obtain ⟨r,p',hrun,hmoves,hr,hj⟩ := h.sendApplication hC hroom.1 hroom.2.1
      exact ⟨r,p',_,_,hrun,hmoves,rfl,hr.imp_right fun hp => ⟨hp.1,Or.inr hp.2⟩,rfl,
        hj.later (Nat.le_succ _)⟩
    | true =>
      obtain ⟨p₁,put,y,hrun₁,hmoves₁,hnone,hclock,hseq,hpolicy,hj₁⟩ :=
        h.sendUpdate hC hT hP hJ now (hroom.2.2 hdue) hroom.2.1
      obtain ⟨r,p',hrun,hmoves,hr,hj⟩ := hj₁.sendApplication hC hroom.1 hseq
      refine ⟨r,p',_,y,?_,hmoves₁.trans hmoves,?_,hr.imp_right fun hp => ⟨hp.1,Or.inr ?_⟩,hclock,hj⟩
      · rw [← hrun]
        exact Exec.bind_of_ok hrun₁ _
      · rw [payloads_append,hnone]
        rfl
      · rcases hpolicy with hsame | hreset
        · rw [← hsame]
          exact hp.2
        · exact UpdatePolicy.incrementBytesTransferred_reset (hreset ▸ hp.2)

end

/-- Bytes of one side arrive at the other side. -/
theorem arrive (h : Joined T σ P isServer x e o) (n : ℕ) :
    Joined T σ P isServer x
      { e with provider.channels.outgoing := e.channels.outgoing.drop n }
      { o with provider.channels :=
        ProtectedChannels.arrive (e.channels.outgoing.take n) o.channels } := by
  obtain ⟨pending,hgoing⟩ := h.going
  obtain ⟨pending',hcoming⟩ := h.coming
  exact ⟨h.live,⟨h.near.handshake,⟨h.near.clean.unpoisoned,h.near.clean.empty⟩,h.near.keyed,
      h.near.room⟩,
    ⟨h.far.handshake,⟨h.far.clean.unpoisoned,h.far.clean.empty⟩,h.far.keyed,h.far.room⟩,
    ⟨pending,hgoing.link.arrive n,hgoing.messages⟩,⟨pending',hcoming.link,hcoming.messages⟩⟩

end Joined

namespace Duplex
variable {V : Environment M} {T : TwoParty M} {σ : T.Session} {P : Parties M} {d : Duplex V}

/-- The invariant of a connection. -/
def Lockstep (T : TwoParty M) (σ : T.Session) (P : Parties M) (d : Duplex V) : Prop :=
  ∃ x, x.clock = d.clock ∧ Joined T σ P false x (d.side false) (d.side true)

lemma Lockstep.joined (h : d.Lockstep T σ P) (isServer : Bool) :
    ∃ x, x.clock = d.clock ∧ Joined T σ P isServer x (d.side isServer) (d.side !isServer) := by
  obtain ⟨x,hclock,hj⟩ := h
  cases isServer with
  | false => exact ⟨x,hclock,hj⟩
  | true => exact ⟨x,hclock,hj.swap⟩

lemma Lockstep.of_joined {isServer : Bool} {x : System M} (hclock : x.clock = d.clock)
    (h : Joined T σ P isServer x (d.side isServer) (d.side !isServer)) : d.Lockstep T σ P := by
  cases isServer with
  | false => exact ⟨x,hclock,h⟩
  | true => exact ⟨x,hclock,h.swap⟩

lemma Lockstep.set {isServer : Bool} {x : System M} {e : Endpoint V} {n : ℕ} (hclock : x.clock = n)
    (h : Joined T σ P isServer x e (d.side !isServer)) : (d.set isServer e n).Lockstep T σ P := by
  have hj : Joined T σ P isServer x ((d.set isServer e n).side isServer)
      ((d.set isServer e n).side !isServer) := by
    rw [set_side,set_side_not]
    exact h
  exact .of_joined hclock hj

/-- How an operation may end: it returns, or a sum in the update policy panics. -/
def Returns (isServer : Bool) (op : Operation V) (d : Duplex V) : Prop :=
  (∃ r, (d.exec isServer op).1 = .ok r) ∨
    (d.exec isServer op).1 = .error .panic ∧ ∃ bytes now, op = .sendBytes bytes now ∧
      (d.side isServer).provider.PolicyOverflow bytes now

section
variable (hC : V.crypto.Lawful) (hT : T.Lawful) (hP : T.Honest σ P) (hJ : P.serde = V.serde)
include hC hT hP hJ

/-- An operation moves values and keeps the sides in lockstep. -/
theorem Lockstep.exchange (h : d.Lockstep T σ P) {isServer : Bool} {op : Operation V}
    (hroom : d.Room (isServer,op)) :
    d.Returns isServer op ∧ (d.exec isServer op).2.Lockstep T σ P ∧
      ∃ got done put, Exchanged isServer op d (d.exec isServer op).2 got done put := by
  obtain ⟨x,hclock,hj⟩ := h.joined isServer
  cases op with
  | sendBytes bytes now =>
    have hsend : (d.side isServer).provider.SendRoom bytes now d.clock := hroom
    rw [← hclock] at hsend
    obtain ⟨r,p',put,y,hrun,hmoves,hput,hr,hy,hj'⟩ := hj.sendBytes hC hT hP hJ hsend
    rw [hclock] at hrun hy
    have hnone : d.returned isServer (.sendBytes bytes now) = none := by
      simp only [returned,Duplex.exec,hrun]
      cases r <;> rfl
    simp only [Returns,Duplex.exec,hrun]
    refine ⟨?_,Lockstep.set hy hj',[],[],put,.set hmoves (List.append_nil _) ?_ hput ?_ ?_⟩
    · rcases hr with rfl | ⟨rfl,hover⟩
      · exact Or.inl ⟨none,rfl⟩
      · exact Or.inr ⟨rfl,bytes,now,rfl,hover⟩
    · rw [hnone]
      rfl
    · simp [Operation.isReading]
    · simp [Operation.isReading]
  | readMessage =>
    have hslot : (d.side isServer).unprocessed = none := hroom
    rcases hj.read hC hslot with hrun | ⟨m,s',hrun,hmoves,hj'⟩
    · simp only [Returns,Duplex.exec,hrun]
      refine ⟨Or.inl ⟨none,rfl⟩,Lockstep.set hclock ?_,[],[],[],.set (.refl _) ?_ ?_ rfl
        (fun _ => .nil) fun _ _ _ => ?_⟩
      · rw [← hslot]
        exact hj
      · rw [hslot]
        rfl
      · simp [returned,Duplex.exec,hrun]
      · rw [← hslot]
    · simp only [Returns,Duplex.exec,hrun]
      refine ⟨Or.inl ⟨none,rfl⟩,Lockstep.set hclock hj',[m],[],[],.set hmoves ?_ ?_ rfl
        (fun _ => .nil) (by simp)⟩
      · rw [hslot]
        rfl
      · simp [returned,Duplex.exec,hrun]
  | processReadMessage =>
    cases hslot : (d.side isServer).unprocessed with
    | none =>
      simp only [Returns,Duplex.exec,hslot]
      refine ⟨Or.inl ⟨none,rfl⟩,h,[],[],[],.refl _,.refl _,?_,rfl,?_,rfl,fun _ => .nil,
        fun _ _ _ _ => rfl⟩
      · rw [List.append_nil]
        rfl
      · simp [returned,Duplex.exec,hslot]
    | some m =>
      have hprocess : (d.side isServer).provider.ProcessRoom m d.clock := hroom m hslot
      rw [← hclock] at hprocess
      have hread : Joined T σ P isServer x ⟨(d.side isServer).provider,some m⟩
          (d.side !isServer) := by
        rw [← hslot]
        exact hj
      obtain ⟨p',put,y,hrun,hmoves,hanswers,hy,hj'⟩ := hread.process hC hT hP hJ hprocess
      rw [hclock] at hrun hy
      simp only [Returns,Duplex.exec,hslot,hrun]
      refine ⟨Or.inl ⟨m.payload,rfl⟩,Lockstep.set hy hj',[],[m],put,.set hmoves ?_ ?_ ?_
        (fun _ => hanswers) (by simp)⟩
      · rw [hslot]
        rfl
      · simp [returned,Duplex.exec,hslot,hrun]
      · exact hanswers.payloads
  | readBytes turns =>
    obtain ⟨hslot,hread⟩ := hroom
    rw [← hclock] at hread
    have hready : Joined T σ P isServer x ⟨(d.side isServer).provider,none⟩ (d.side !isServer) := by
      rw [← hslot]
      exact hj
    obtain ⟨r,p',got,put,y,hrun,hmoves,hgot,hanswers,hidle,hy,hj'⟩ :=
      hready.readBytes hC hT hP hJ hread
    rw [hclock] at hrun hy
    simp only [Returns,Duplex.exec,hrun]
    refine ⟨Or.inl ⟨r,rfl⟩,Lockstep.set hy ?_,got,got,put,.set hmoves ?_ ?_ hanswers.payloads
      (fun _ => hanswers) fun _ hnone _ => by rw [hidle hnone]⟩
    · rw [hslot]
      exact hj'
    · rw [hslot,Option.toList_none,List.nil_append,List.append_nil]
    · simp [returned,Duplex.exec,hrun,hgot]
  | arrive n =>
    refine ⟨Or.inl ⟨none,rfl⟩,Lockstep.set hclock ?_,[],[],[],?_,?_,?_,?_,rfl,rfl,fun _ => .nil,
      by simp [Operation.isArrival]⟩
    · rw [Bool.not_not,set_side]
      exact (hj.arrive n).swap
    · simp only [Duplex.exec]
      rw [arrive_near]
      exact .still rfl rfl rfl
    · simp only [Duplex.exec]
      rw [arrive_far]
      exact .still rfl rfl rfl
    · simp only [Duplex.exec]
      rw [arrive_near,List.append_nil]
      rfl
    · simp only [Duplex.exec]
      rw [arrive_far]

theorem Lockstep.exec (h : d.Lockstep T σ P) {isServer : Bool} {op : Operation V}
    (hroom : d.Room (isServer,op)) :
    d.Returns isServer op ∧ (d.exec isServer op).2.Lockstep T σ P :=
  have hexchange := h.exchange hC hT hP hJ hroom
  ⟨hexchange.1,hexchange.2.1⟩

theorem Lockstep.run (h : d.Lockstep T σ P) {d' : Duplex V} (hrun : Runs d d') :
    d'.Lockstep T σ P :=
  hrun.invariant (fun _ _ hd hroom => (hd.exec hC hT hP hJ hroom).2) h

end

lemma Lockstep.sendsTo {x : System M} {isServer : Bool} {e o : Endpoint V}
    (h : Joined T σ P isServer x e o) (hout : e.channels.outgoing = [])
    (hin : o.channels.incoming = []) (hslot : o.unprocessed = none) :
    x.messagesOf isServer = [] ∧
      TlsAeadCodec.SendsTo e.channels.cipher o.channels.cipher := by
  obtain ⟨pending,hlink,hmessages⟩ := h.going
  rw [hslot] at hlink
  obtain rfl := hlink.pending_eq_nil hin hout
  obtain ⟨hkey,hseq⟩ := hlink.drained
  obtain ⟨hk,hiv⟩ := Prod.mk.inj hkey
  exact ⟨hmessages,hk,hiv,hseq,h.near.keyed.cipher.trans h.far.keyed.cipher.symm⟩

/-- With nothing in flight both sides are in step. -/
theorem Lockstep.inStep (hT : T.Lawful) (h : d.Lockstep T σ P) (hd : d.Drained) :
    d.InStep (T.groupId σ) := by
  obtain ⟨x,-,hj⟩ := h
  obtain ⟨hts,hforth⟩ := Lockstep.sendsTo hj (hd.outgoing false) (hd.incoming true) (hd.processed true)
  obtain ⟨htc,hback⟩ := Lockstep.sendsTo hj.swap (hd.outgoing true) (hd.incoming false) (hd.processed false)
  obtain ⟨H,i,S,p,alive,hinv⟩ := hj.live
  obtain ⟨hclient,⟨server,hs,hserver⟩,hepoch,-⟩ :=
    hinv.atRest hT (fun hq => hq.1 rfl) (fun hq => hq.2.1 rfl) hts htc
  have hnear := hj.near.handshake
  have hfar : (d.side true).provider.handshake = x.handshakeOf P true := hj.far.handshake
  refine ⟨fun b => ?_,?_,hforth,hback⟩
  · cases b with
    | false =>
      rw [hnear]
      simp [System.handshakeOf,MlsHandshake.isWaiting,ClientHandshakeState.isWaitingForResponse,
        hclient]
    | true =>
      rw [hfar]
      simp [System.handshakeOf,MlsHandshake.isWaiting,ServerHandshakeState.isWaitingForResponse,hs,
        hserver]
  · rw [hnear,hfar]
    exact hepoch

end Duplex
end MlsTls.EncryptionProvider
