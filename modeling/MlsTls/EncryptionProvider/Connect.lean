import MlsTls.EncryptionProvider.Lockstep
import MlsTls.MlsHandshake.Exchange
import MlsTls.MlsHandshake.Sample
import MlsTls.PreHandshake

/-! Connections from their beginning: an optional pre-handshake, the MLS handshake over the plain
or the protected transport, and the keys of the established connection. -/
namespace MlsTls.EncryptionProvider
open Lib TlsAead MlsHandshake PreHandshake TlsAeadCodec
variable {M : OpenMls}

/-- A plain connection with nothing on its way. -/
def PlainIdle (_ : Bool) (s r : PlainChannels) : Prop := s = ⟨[],[]⟩ ∧ r = ⟨[],[]⟩

theorem plain_carries : PlainChannels.transport.Carries PlainIdle where
  swap := by
    rintro isServer s r ⟨rfl,rfl⟩
    exact ⟨rfl,rfl⟩
  carries := by
    rintro isServer s r item s' packet r' ⟨rfl,rfl⟩ hsend hnext
    obtain ⟨-,rfl⟩ := Prod.mk.inj hsend
    simp only [PlainChannels.transport,Exec.bind_run,Exec.get_run,List.nil_append] at hnext
    cases hd : TlsFrameCodec.decode (TlsFrameCodec.encode item []) with
    | none => simp [hd] at hnext
    | some q =>
      obtain ⟨packet',rest⟩ := q
      simp only [hd,Exec.bind_run,Exec.modify_run,Exec.pure_run,Prod.mk.injEq,Except.ok.injEq,
        Option.some.injEq] at hnext
      obtain ⟨rfl,rfl⟩ := hnext
      have hdata : packet'.data++rest = item := by
        rw [TlsFrameCodec.decode_data hd]
        exact TlsFrameCodec.drop_frame item
      refine ⟨⟨rest,hdata⟩,fun hwhole => ⟨rfl,?_⟩⟩
      rw [hwhole] at hdata
      rw [List.append_right_eq_self.mp hdata]

/-- Channels that are ready for use by a party with the secrets `t`. -/
structure Ready (C : Crypto) (t : TrafficSecrets) (isServer : Bool) (s : ProtectedChannels) :
    Prop where
  clean : s.Clean
  keyed : KeyedBy C isServer t s.cipher
  room : s.cipher.sendSeq < u64Size

/-- A protected connection with nothing on its way. -/
structure Idle (C : Crypto) (t : TrafficSecrets) (isServer : Bool) (s r : ProtectedChannels) :
    Prop where
  near : Ready C t isServer s
  far : Ready C t (!isServer) r
  going : Link C (fun _ => false) (outbound s) (inbound r) none []
  coming : Link C (fun _ => false) (outbound r) (inbound s) none []

theorem Idle.swap {C : Crypto} {t : TrafficSecrets} {isServer : Bool} {s r : ProtectedChannels}
    (h : Idle C t isServer s r) : Idle C t (!isServer) r s := by
  refine ⟨h.far,?_,h.coming,h.going⟩
  rw [Bool.not_not]
  exact h.near

theorem Idle.sendsTo {C : Crypto} {t : TrafficSecrets} {isServer : Bool} {s r : ProtectedChannels}
    (h : Idle C t isServer s r) : TlsAeadCodec.SendsTo s.cipher r.cipher := by
  obtain ⟨hkey,hseq⟩ := h.going.drained
  obtain ⟨hk,hiv⟩ := Prod.mk.inj hkey
  exact ⟨hk,hiv,hseq,h.near.keyed.cipher.trans h.far.keyed.cipher.symm⟩

lemma Idle.afterRecord {C : Crypto} {t : TrafficSecrets} {isServer : Bool} {s r : ProtectedChannels}
    (h : Idle C t isServer s r) {item : Bytes} (hitem : item ≠ [])
    (hle : item.length ≤ tlsMaxRecordSize) {r₀ : SealedRecord}
    (hr₀ : sealChunk C s.cipher item = .ok r₀) (hseq : s.cipher.sendSeq+1 < u64Size)
    (incoming : Bytes) :
    Idle C t isServer { s.afterSend C item with outgoing := [] }
      (ProtectedChannels.afterNext [] r₀.packet { r with incoming := incoming }) := by
  obtain ⟨-,-,hlog⟩ := h.going.nil_log
  have hchunks := chunks_of_length_le tlsMaxRecordSize_pos hitem hle
  have hrecords : sentRecords C (chunks tlsMaxRecordSize item) s.cipher =
      [⟨r₀,s.cipher.sendIv,s.cipher.sendSeq⟩] := by
    rw [sentRecords,hchunks,sealedRecords_cons hr₀ hseq]
    rfl
  obtain ⟨-,-,hkey,-⟩ := sealChunk_eq_ok hr₀
  refine ⟨⟨⟨h.near.clean.unpoisoned,h.near.clean.empty⟩,h.near.keyed.setSendSeq _,?_⟩,
    ⟨⟨h.far.clean.unpoisoned,h.far.clean.empty⟩,h.far.keyed.setRecvSeq _,h.far.room⟩,
    .nil rfl rfl ?_ ?_ h.going.drained.1,h.coming⟩
  · rw [ProtectedChannels.afterSend_sendSeq,hchunks]
    exact hseq
  · simp only [outbound,inbound,ProtectedChannels.afterSend,ProtectedChannels.afterNext,hrecords,
      List.map_append,List.map_cons,List.map_nil,SentRecord.use,hkey,h.sendsTo.key,h.sendsTo.iv,
      h.sendsTo.seq,SealedRecord.packet]
    rw [show s.sent.map SentRecord.use = r.received from hlog]
  · simp only [outbound,inbound,ProtectedChannels.afterSend_sendSeq,hchunks,h.sendsTo.seq]
    rfl

/-- One message is carried over a protected connection. -/
theorem Idle.carries {C : Crypto} (hC : C.Lawful) {t : TrafficSecrets} {isServer : Bool}
    {s r : ProtectedChannels} (h : Idle C t isServer s r) {item : Bytes} {s' r' : ProtectedChannels}
    {packet : TlsPacketIn} (hsend : (ProtectedChannels.send C item).run s = (.ok (),s'))
    (hnext : (ProtectedChannels.next C).run { r with incoming := r.incoming++s'.outgoing } =
      (.ok (some packet),r')) :
    packet.data <+: item ∧ (packet.data = item → Idle C t isServer { s' with outgoing := [] } r') := by
  have hroom := ProtectedChannels.send_room hsend h.near.room
  have hk := h.near.keyed.wellKeyed hC
  rw [ProtectedChannels.send_run hC h.near.clean hk item hroom] at hsend
  obtain ⟨-,rfl⟩ := Prod.mk.inj hsend
  obtain ⟨hin,hout,-⟩ := h.going.nil_log
  have hbytes : r.incoming++(s.afterSend C item).outgoing =
      ((sealedRecords C (chunks tlsMaxRecordSize item) s.cipher).map SealedRecord.bytes).flatten := by
    rw [show r.incoming = [] from hin,ProtectedChannels.afterSend,show s.outgoing = [] from hout]
    rfl
  have hwait : TlsFrameCodec.decode (r.incoming++(s.afterSend C item).outgoing) ≠ none := by
    intro hd
    rw [ProtectedChannels.next_pending C hd] at hnext
    simp at hnext
  have hitem : item ≠ [] := by
    rintro rfl
    exact hwait (by rw [hbytes]; rfl)
  rw [chunks_cons tlsMaxRecordSize_pos hitem] at hroom hbytes
  rw [List.length_cons] at hroom
  have hseq : s.cipher.sendSeq+1 < u64Size := by omega
  have hfit : (item.take tlsMaxRecordSize).length ≤ tlsMaxRecordSize := List.length_take_le _ _
  obtain ⟨r₀,hr₀⟩ := sealChunk_ok hC hk hfit
  rw [sealedRecords_cons hr₀ hseq,List.map_cons,List.flatten_cons] at hbytes
  have hstream : { r with incoming := r.incoming++(s.afterSend C item).outgoing }.incoming++[] =
      r₀.bytes++_ := (List.append_nil _).trans hbytes
  rcases ProtectedChannels.next_run hC (s := { r with
      incoming := r.incoming++(s.afterSend C item).outgoing }) h.far.clean.unpoisoned h.sendsTo hfit
      hr₀ hseq hstream with hd | ⟨rest,hrest,-,hrun⟩
  · exact absurd hd hwait
  · rw [hrun] at hnext
    simp only [Prod.mk.injEq,Except.ok.injEq,Option.some.injEq] at hnext
    obtain ⟨rfl,rfl⟩ := hnext
    refine ⟨List.take_prefix _ _,fun hwhole => ?_⟩
    change item.take tlsMaxRecordSize = item at hwhole
    have hle : item.length ≤ tlsMaxRecordSize := by
      rw [← hwhole]
      exact hfit
    rw [hwhole] at hr₀
    obtain rfl : rest = [] := by
      rw [List.append_nil,List.drop_eq_nil_of_le hle] at hrest
      exact hrest
    exact h.afterRecord hitem hle hr₀ hseq _

theorem protected_carries {C : Crypto} (hC : C.Lawful) (t : TrafficSecrets) :
    (protectedTransport C).Carries (Idle C t) where
  swap := Idle.swap
  carries := by
    intro isServer s r item s' packet r' h hsend hnext
    exact h.carries hC (Exec.mapError_eq_ok.mp hsend) (Exec.mapError_eq_ok.mp hnext)

/-- The ways to set up a connection before the MLS handshake. -/
inductive Opening (X : X25519)
  | unprotected
  | psk (psk : Psk)
  | x25519 (clientSeed serverSeed : ℕ)

/-- Both parties of a connection, with their databases and update policies and the randomness of
their handshake. -/
structure Peers (V : Environment M) where
  clientSigner : M.SignatureKeyPair
  serverSigner : M.SignatureKeyPair
  clientDb : Connection M
  serverDb : Connection M
  policy : Bool → UpdatePolicy V.chrono
  clientId : Uuid
  groupId : GroupId
  clientSeed : ℕ
  serverSeed : ℕ

namespace Peers
variable {V : Environment M} (Q : Peers V)

def parties : Parties M := ⟨V.serde,Q.clientSigner,Q.serverSigner⟩

/-- The established connection. -/
def established (client server : MlsHandshake M × ProtectedChannels) : Duplex V where
  side isServer :=
    if isServer then ⟨⟨server.1,server.2,Q.policy true⟩,none⟩
    else ⟨⟨client.1,client.2,Q.policy false⟩,none⟩
  clock := 0

def exchange {σ : Type} (tr : Transport σ) (c s : σ) : Option (Finished M σ × Finished M σ) :=
  MlsHandshake.exchange tr Q.parties Q.clientId Q.groupId Q.clientSeed Q.serverSeed (Q.clientDb,c)
    (Q.serverDb,s)

/-- `handshake` of both sides on `UnprotectedHandshakeState`. -/
def connectUnprotected : Option (Duplex V) := do
  let (c,s) ← Q.exchange PlainChannels.transport ⟨[],[]⟩ ⟨[],[]⟩
  let client ← (newChannels V.crypto false c.transport c.secrets).toOption
  let server ← (newChannels V.crypto true s.transport s.secrets).toOption
  some (Q.established (c.handshake,client) (s.handshake,server))

/-- `update_cipher` of `ProtectedChannels`. -/
def switchTo (V : Environment M) (isServer : Bool) (trafficSecrets : TrafficSecrets)
    (s : ProtectedChannels) : Option ProtectedChannels :=
  match (ProtectedChannels.updateCipher V.crypto isServer (.both trafficSecrets) :
      ProtectedChannels.ProviderCall M.Error Unit).run s with
  | (.ok (),s') => some s'
  | (.error _,_) => none

/-- `handshake` of both sides on `ProtectedHandshakeState`. -/
def connectProtected (opened : Opened × Opened) : Option (Duplex V) := do
  let client ← (newWithPreHandshake (E := M.Error) V.crypto false opened.1.2 opened.1.1).toOption
  let server ← (newWithPreHandshake (E := M.Error) V.crypto true opened.2.2 opened.2.1).toOption
  let (c,s) ← Q.exchange (protectedTransport V.crypto) client.channels server.channels
  let client ← switchTo V false c.secrets c.transport
  let server ← switchTo V true s.secrets s.transport
  some (Q.established (c.handshake,client) (s.handshake,server))

def connect {X : X25519} : Opening X → Option (Duplex V)
  | .unprotected => Q.connectUnprotected
  | .psk psk => psk.opened.bind Q.connectProtected
  | .x25519 clientSeed serverSeed => (X.opened clientSeed serverSeed).bind Q.connectProtected

end Peers

section
variable {C : Crypto} (hC : C.Lawful) {t : TrafficSecrets}
include hC

lemma newChannels_idle (ht : Usable t) :
    ∃ c s, newChannels C false ⟨[],[]⟩ t = .ok c ∧ newChannels C true ⟨[],[]⟩ t = .ok s ∧
      Idle C t false c s := by
  obtain ⟨c,hc,hck,hcs,hcr⟩ := new_keyedBy hC false ht
  obtain ⟨s,hs,hsk,hss,hsr⟩ := new_keyedBy hC true ht
  refine ⟨⟨c,false,[],[],[],[],[]⟩,⟨s,false,[],[],[],[],[]⟩,by rw [newChannels,hc],
    by rw [newChannels,hs],
    ⟨⟨rfl,rfl⟩,hck,?_⟩,⟨⟨rfl,rfl⟩,hsk,?_⟩,.nil rfl rfl rfl ?_ ?_,.nil rfl rfl rfl ?_ ?_⟩
  · rw [hcs]
    decide
  · rw [hss]
    decide
  · exact hcs.trans hsr.symm
  · exact hck.send.trans hsk.recv.symm
  · exact hss.trans hcr.symm
  · exact hsk.send.trans hck.recv.symm

end

namespace Peers
variable {V : Environment M} (hC : V.crypto.Lawful)
include hC

lemma switchTo_ready {isServer : Bool} {t u : TrafficSecrets} {s : ProtectedChannels}
    (h : Ready V.crypto t isServer s) (hu : Usable u) :
    ∃ c, switchTo V isServer u s = some { s with cipher := c } ∧
      Ready V.crypto u isServer { s with cipher := c } ∧ c.sendSeq = s.cipher.sendSeq ∧
      c.recvSeq = s.cipher.recvSeq := by
  obtain ⟨c,hrun,hkeyed,hsend,hrecv⟩ :=
    ProtectedChannels.updateCipher_run (E := M.Error) hC h.clean h.keyed (u := .both u) hu
  refine ⟨c,by rw [switchTo,hrun],⟨⟨h.clean.unpoisoned,h.clean.empty⟩,hkeyed,?_⟩,hsend,hrecv⟩
  rw [hsend]
  exact h.room

lemma switchTo_idle {t u : TrafficSecrets} {c s : ProtectedChannels}
    (h : Idle V.crypto t false c s) (hu : Usable u) :
    ∃ c' s', switchTo V false u c = some c' ∧ switchTo V true u s = some s' ∧
      Idle V.crypto u false c' s' := by
  obtain ⟨a,hc,hca,hcs,hcr⟩ := switchTo_ready hC h.near hu
  obtain ⟨b,hs,hsb,hss,hsr⟩ := switchTo_ready hC h.far hu
  obtain ⟨hin,hout,hlog⟩ := h.going.nil_log
  obtain ⟨hin',hout',hlog'⟩ := h.coming.nil_log
  refine ⟨_,_,hc,hs,hca,hsb,.nil hin hout hlog ?_ ?_,.nil hin' hout' hlog' ?_ ?_⟩
  · exact hcs.trans (h.going.drained.2.trans hsr.symm)
  · exact hca.keyed.send.trans hsb.keyed.recv.symm
  · exact hss.trans (h.coming.drained.2.trans hcr.symm)
  · exact hsb.keyed.send.trans hca.keyed.recv.symm

end Peers

/-- A connection with nothing in flight. -/
structure Duplex.AtRest {V : Environment M} (T : TwoParty M) (σ : T.Session) (P : Parties M)
    (d : Duplex V) : Prop where
  lockstep : d.Lockstep T σ P
  drained : d.Drained

namespace Peers
variable {V : Environment M} {T : TwoParty M} {Q : Peers V}

lemma established_lockstep {σ : T.Session} {x : System M} (hlive : T.Live σ x)
    (hclock : x.clock = 0) (hmessages : ∀ b, x.messagesOf b = [])
    (hsecrets : x.clientSecrets = x.serverSecrets)
    {c s : ProtectedChannels} (h : Idle V.crypto x.serverSecrets false c s) :
    (Q.established (x.handshakeOf Q.parties false,c) (x.handshakeOf Q.parties true,s)).Lockstep T σ
      Q.parties := by
  refine ⟨x,hclock,hlive,⟨rfl,h.near.clean,?_,h.near.room⟩,⟨rfl,h.far.clean,h.far.keyed,h.far.room⟩,
    ⟨[],h.going.remark,hmessages false⟩,⟨[],h.coming.remark,hmessages true⟩⟩
  have hkeyed := h.near.keyed
  rw [← hsecrets] at hkeyed
  exact hkeyed

lemma established_drained {client server : MlsHandshake M} {t : TrafficSecrets}
    {c s : ProtectedChannels} (h : Idle V.crypto t false c s) :
    (Q.established (client,c) (server,s)).Drained := by
  obtain ⟨hs,hc,-⟩ := h.going.nil_log
  obtain ⟨hc',hs',-⟩ := h.coming.nil_log
  refine ⟨fun b => ?_,fun b => ?_,fun b => ?_⟩
  · cases b with
    | false => exact hc
    | true => exact hs'
  · cases b with
    | false => exact hc'
    | true => exact hs
  · cases b <;> rfl

section
variable (hC : V.crypto.Lawful) (hT : T.Lawful) (hJ : V.serde.Lawful) {d : Duplex V}
include hC hT hJ

omit hC in
lemma exchange_secrets {τ : Type} {tr : Transport τ} {R : Bool → τ → τ → Prop}
    (htr : tr.Carries R) {c s : τ} (hR : R false c s) {a b : Finished M τ}
    (h : Q.exchange tr c s = some (a,b)) :
    R false a.transport b.transport ∧ a.secrets = b.secrets ∧ Usable b.secrets ∧
      Greeted Q.parties Q.groupId Q.serverDb b.handshake.connection ∧
      ∃ σ, T.groupId σ = Q.groupId ∧ T.Honest σ Q.parties ∧
        ∀ c' s', Idle V.crypto b.secrets false c' s' →
          (Q.established (a.handshake,c') (b.handshake,s')).AtRest T σ Q.parties := by
  obtain ⟨hR',hgreeted,σ,x,hid,hP,hlive,hclock,hmessages,hc,hs,hcs,hss⟩ :=
    TwoParty.exchange_live hT hJ htr h hR
  obtain ⟨H,i,S,p,alive,hinv⟩ := hlive
  have hrest := hinv.atRest hT (fun hq => hq.1 rfl) (fun hq => hq.2.1 rfl) (hmessages false)
    (hmessages true)
  refine ⟨hR',hcs.trans (hrest.secrets.trans hss.symm),?_,hgreeted,σ,hid,hP,fun c' s' hidle => ?_⟩
  · rw [hss]
    exact hinv.usable_server hT
  · rw [hss] at hidle
    rw [hc,hs]
    exact ⟨established_lockstep ⟨H,i,S,p,alive,hinv⟩ hclock hmessages hrest.secrets hidle,
      established_drained hidle⟩

theorem connectUnprotected_atRest (h : Q.connectUnprotected = some d) :
    Greeted Q.parties Q.groupId Q.serverDb (d.side true).provider.handshake.connection ∧
      ∃ σ, T.groupId σ = Q.groupId ∧ T.Honest σ Q.parties ∧ d.AtRest T σ Q.parties := by
  simp only [connectUnprotected,Option.bind_eq_bind,Option.bind_eq_some_iff] at h
  obtain ⟨⟨a,b⟩,hex,client,hclient,server,hserver,hd⟩ := h
  obtain rfl := Option.some.inj hd
  obtain ⟨⟨ha,hb⟩,hsecrets,husable,hgreeted,σ,hid,hP,hstep⟩ :=
    exchange_secrets hT hJ plain_carries ⟨rfl,rfl⟩ hex
  obtain ⟨c,s,hc,hs,hidle⟩ := newChannels_idle hC husable
  rw [ha,hsecrets,hc] at hclient
  rw [hb,hs] at hserver
  obtain rfl := Option.some.inj hclient
  obtain rfl := Option.some.inj hserver
  exact ⟨hgreeted,σ,hid,hP,hstep _ _ hidle⟩

/-- Both sides have come out of the pre-handshake with the same secret. -/
theorem connectProtected_atRest {payload : HandshakePayload}
    (h : Q.connectProtected ((payload,⟨[],[]⟩),(payload,⟨[],[]⟩)) = some d) :
    Greeted Q.parties Q.groupId Q.serverDb (d.side true).provider.handshake.connection ∧
      ∃ σ, T.groupId σ = Q.groupId ∧ T.Honest σ Q.parties ∧ d.AtRest T σ Q.parties := by
  simp only [connectProtected,Option.bind_eq_bind,Option.bind_eq_some_iff] at h
  obtain ⟨client,hclient,server,hserver,⟨a,b⟩,hex,c',hc',s',hs',hd⟩ := h
  obtain rfl := Option.some.inj hd
  obtain ⟨t,ht,hlenc,hlens⟩ := deriveTrafficSecrets_ok hC payload.sharedSecret
  obtain ⟨c,s,hc,hs,hidle⟩ := newChannels_idle hC ⟨hlenc,hlens⟩
  simp only [newWithPreHandshake,ht,hc] at hclient
  simp only [newWithPreHandshake,ht,hs] at hserver
  obtain rfl := Option.some.inj hclient
  obtain rfl := Option.some.inj hserver
  obtain ⟨hidle',hsecrets,husable,hgreeted,σ,hid,hP,hstep⟩ :=
    exchange_secrets hT hJ (protected_carries hC t) hidle hex
  obtain ⟨c'',s'',hc'',hs'',hfinal⟩ := switchTo_idle hC hidle' husable
  rw [hsecrets,hc''] at hc'
  rw [hs''] at hs'
  obtain rfl := Option.some.inj hc'
  obtain rfl := Option.some.inj hs'
  exact ⟨hgreeted,σ,hid,hP,hstep _ _ hfinal⟩

theorem connect_atRest {X : X25519} (hX : X.Lawful) {opening : Opening X}
    (h : Q.connect opening = some d) :
    Greeted Q.parties Q.groupId Q.serverDb (d.side true).provider.handshake.connection ∧
      ∃ σ, T.groupId σ = Q.groupId ∧ T.Honest σ Q.parties ∧ d.AtRest T σ Q.parties := by
  cases opening with
  | unprotected => exact connectUnprotected_atRest hC hT hJ h
  | psk psk =>
    rw [connect,psk.opened_eq,Option.bind_some] at h
    exact connectProtected_atRest hC hT hJ h
  | x25519 clientSeed serverSeed =>
    obtain ⟨payload,hopened⟩ := X25519.opened_ok hX clientSeed serverSeed
    rw [connect,hopened,Option.bind_some] at h
    exact connectProtected_atRest hC hT hJ h

theorem connect_lockstep {X : X25519} (hX : X.Lawful) {opening : Opening X}
    (h : Q.connect opening = some d) :
    ∃ σ, T.groupId σ = Q.groupId ∧ T.Honest σ Q.parties ∧ d.Lockstep T σ Q.parties := by
  obtain ⟨-,σ,hid,hP,hrest⟩ := connect_atRest hC hT hJ hX h
  exact ⟨σ,hid,hP,hrest.lockstep⟩

/-- Two honest providers that have completed their handshake, with or without a pre-handshake: in
every run, every record is opened with the key, IV and sequence number it was sealed with, no
operation returns an error, and whenever the streams are drained and every message read has been
processed, both sides are in step. -/
theorem providers_stay_in_step {X : X25519} (hX : X.Lawful) {opening : Opening X} {d₀ : Duplex V}
    (h₀ : Q.connect opening = some d₀) (hrun : Duplex.Runs d₀ d) :
    (∀ b, (d.side !b).channels.received <+: (d.side b).channels.sent.map SentRecord.use) ∧
    (∀ b op, d.Room (b,op) → d.Returns b op) ∧
    (d.Drained → d.InStep Q.groupId) := by
  obtain ⟨σ,hid,hP,hstep₀⟩ := connect_lockstep hC hT hJ hX h₀
  have hstep := hstep₀.run hC hT hP rfl hrun
  refine ⟨fun b => ?_,fun b op hroom => (hstep.exec hC hT hP rfl hroom).1,fun hd => ?_⟩
  · obtain ⟨x,-,hj⟩ := hstep.joined b
    obtain ⟨pending,hgoing⟩ := hj.going
    exact hgoing.link.log_prefix
  · rw [← hid]
    exact hstep.inStep hT hd

end
end Peers

namespace Sample

/-- Numbers in the place of points on the curve. -/
def x25519 : X25519 where
  EphemeralSecret := UInt8
  randomFromRng := UInt8.ofNat
  publicKey a := a::List.replicate 31 0
  diffieHellman a pk := [a*pk.headD 0]

theorem x25519_lawful : x25519.Lawful where
  publicKey_length _ := rfl
  commutes a b := congrArg (fun c => [c]) (UInt8.mul_comm a b)

def chrono : Chrono where
  DateTime := ℕ
  Duration := ℕ
  ble a b := a ≤ b
  add a b := some (a+b)

def environment : Environment sampleMls := ⟨sampleCrypto,sampleSerde,chrono⟩

/-- The client updates with every string it sends, the server after five ticks. -/
def peers : Peers environment where
  clientSigner := [1]
  serverSigner := [2]
  clientDb := sampleDb
  serverDb := sampleDb
  policy isServer := if isServer then ⟨some (.new (5 : ℕ) (0 : ℕ)),none⟩ else ⟨none,some (.new 0)⟩
  clientId := [3]
  groupId := [9]
  clientSeed := 0
  serverSeed := 0

def opening : Opening x25519 := .psk ⟨[5]⟩

theorem connected : (peers.connect opening).isSome = true := by decide +kernel

def duplex : Duplex environment := (peers.connect opening).get connected

/-- Updates of both sides cross. -/
def operations : List (Bool × Operation environment) :=
  [(false,.sendBytes [7] (1 : ℕ)),(true,.sendBytes [8] (6 : ℕ)),(false,.arrive 300),
    (true,.readBytes 3),(true,.arrive 400),(false,.readBytes 4),(false,.readMessage),
    (false,.processReadMessage)]

def final : Duplex environment := operations.foldl (fun d e => d.step e) duplex

end Sample

theorem Peers.providers_stay_in_step_sample : Sample.final.Drained ∧ Sample.final.InStep [9] := by
  have hdrained : Sample.final.Drained := by
    constructor <;> intro b <;> cases b <;> decide +kernel
  have hrun : Duplex.Runs Sample.duplex Sample.final := Run.ofList (by decide +kernel)
  exact ⟨hdrained,(Peers.providers_stay_in_step (Q := Sample.peers) sampleCrypto_lawful
    sampleTwoParty_lawful sampleSerde_lawful Sample.x25519_lawful
    (Option.some_get Sample.connected).symm hrun).2.2 hdrained⟩

end MlsTls.EncryptionProvider
