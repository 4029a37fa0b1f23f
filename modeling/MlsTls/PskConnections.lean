import Mathlib.Data.List.Nodup
import MlsTls.EncryptionProvider.Connect
import MlsTls.TlsAead.ChannelNonces

/-! Several connections of one role under the same pre-shared key. Nothing of a connection enters
its first keys, so every connection begins with the same key and the same nonces, and its hello is
the first thing they protect. -/
namespace MlsTls.PreHandshake
open Lib TlsAead MlsHandshake EncryptionProvider TlsAeadCodec
variable {M : OpenMls}

/-- `new_with_pre_handshake` of one party with a pre-shared key. -/
def Psk.setUp (C : Crypto) (isServer : Bool) (psk : Psk) (plain : PlainChannels) :
    Option ProtectedHandshakeState :=
  match (if isServer then psk.serverHandshake else psk.clientHandshake).run plain with
  | (.ok payload,plain') => (newWithPreHandshake (E := Empty) C isServer plain' payload).toOption
  | (.error _,_) => none

/-- What a party has when it sets up a connection, and its arguments of the handshake. -/
structure Endpoint (M : OpenMls) where
  plain : PlainChannels
  handshake : MlsHandshake M
  clientId : Uuid
  serverVerifyingKey : Bytes
  groupId : GroupId
  seed : ℕ

/-- The channels of a party that has sent the first message of its handshake over them. -/
def Endpoint.greeted (J : Serde M) (C : Crypto) (isServer : Bool) (psk : Psk) (x : Endpoint M) :
    Option ProtectedChannels := do
  let state ← psk.setUp C isServer x.plain
  if isServer then
    match (MlsHandshake.serverHandshake (protectedTransport C) x.groupId x.seed).run
        (x.handshake,state.channels) with
    | (.ok (some _),(_,s)) => some s
    | _ => none
  else
    match (MlsHandshake.clientHandshakeStart (protectedTransport C) J x.clientId x.serverVerifyingKey
        x.seed).run (x.handshake,state.channels) with
    | (.ok _,(_,s)) => some s
    | _ => none

/-- All that the records of the log carry. -/
def carried (log : List SentRecord) : Bytes :=
  (log.map fun r => r.record.plaintext.dropLast).flatten

/-- One party's end of a connection under the key, with everything that happens on its channels
once its hello is sent. A server has answered a hello and not a resumption. -/
structure PskConnection (J : Serde M) (C : Crypto) (isServer : Bool) (psk : Psk) where
  endpoint : Endpoint M
  channels : ProtectedChannels
  greeted : endpoint.greeted J C isServer psk = some channels
  serverHello : isServer = true →
    ∃ message, (ServerHelloOut.wire M).enc message = some (carried channels.sent)
  operations : List ProtectedChannels.Operation

namespace PskConnection
variable {J : Serde M} {C : Crypto} {isServer : Bool} {psk : Psk}

/-- The `ClientHello` or `ServerHello` of the connection. -/
def hello (x : PskConnection J C isServer psk) : Bytes := carried x.channels.sent

/-- Every record that the party has encrypted on the connection. -/
def records (x : PskConnection J C isServer psk) : List SealedRecord :=
  (ProtectedChannels.perform C isServer x.operations x.channels).sent.map SentRecord.record

/-- No two records with different plaintexts share their key and their nonce, whether they are of
one connection or of two. -/
def NoReuse (xs : List (PskConnection J C isServer psk)) : Prop :=
  ∀ x ∈ xs, ∀ y ∈ xs, ∀ r ∈ x.records, ∀ r' ∈ y.records, r.plaintext ≠ r'.plaintext →
    ¬(r.key = r'.key ∧ r.nonce = r'.nonce)

end PskConnection

section
variable {C : Crypto} (hC : C.Lawful)
include hC

lemma Psk.setUp_eq (isServer : Bool) (psk : Psk) :
    ∃ c, c.WellKeyed ∧ Stamped C keyScheduleHashFunction aeadAlgorithm c [] ∧
      ∀ plain, psk.setUp C isServer plain =
        some ⟨⟨c,false,[],plain.outgoing,plain.incoming,[],[]⟩,none⟩ := by
  obtain ⟨t,ht,hclient,hserver⟩ := deriveTrafficSecrets_ok hC psk.key
  obtain ⟨c,hc,hkeyed,-,-⟩ := new_keyedBy hC isServer ⟨hclient,hserver⟩
  refine ⟨c,hkeyed.wellKeyed hC,stamped_new hc,fun plain => ?_⟩
  cases isServer with
  | true =>
    simp only [Psk.setUp,if_true,Psk.serverHandshake,Exec.pure_run,newWithPreHandshake,ht,
      newChannels,hc]
    rfl
  | false =>
    simp only [Psk.setUp,Bool.false_eq_true,if_false,Psk.clientHandshake,Exec.pure_run,
      newWithPreHandshake,ht,newChannels,hc]
    rfl

lemma carried_send {s s' : ProtectedChannels} {c : TlsAeadCodec} (hc : c.WellKeyed)
    (hseq : c.sendSeq = 0) (hclean : s.Clean) (hsent : s.sent = [])
    (hcodec : ∃ n, s.cipher = c.setRecvSeq n) {item : Bytes}
    (h : (ProtectedChannels.send C item).run s = (.ok (),s')) :
    carried s'.sent = item ∧ ∀ {i x}, (chunks tlsMaxRecordSize item)[i]? = some x →
      ∃ r, s'.sent[i]? = some r ∧ r.record.key = c.sendKey ∧
        r.record.nonce = nonceOf c.sendIv i ∧ r.record.plaintext = x++[tlsAppData] := by
  obtain ⟨n,hn⟩ := hcodec
  have hk : s.cipher.WellKeyed := by
    rw [hn]
    exact hc.setRecvSeq n
  have hzero : s.cipher.sendSeq = 0 := by rw [hn,setRecvSeq_sendSeq,hseq]
  have hroom := ProtectedChannels.send_room h (by rw [hzero]; decide)
  rw [ProtectedChannels.send_run hC hclean hk item hroom] at h
  obtain ⟨-,rfl⟩ := Prod.mk.inj h
  have hcs : ∀ x ∈ chunks tlsMaxRecordSize item, x.length ≤ tlsMaxRecordSize :=
    fun x hx => length_le_of_mem_chunks tlsMaxRecordSize_pos hx
  have hcarry := sealedRecords_carry hC hk hcs hroom
  rw [← sentRecords_record,List.map_map] at hcarry
  have hlog : (s.afterSend C item).sent =
      sentRecords C (chunks tlsMaxRecordSize item) s.cipher := by
    rw [ProtectedChannels.afterSend,hsent,List.nil_append]
  rw [hlog]
  refine ⟨?_,fun {i x} hi => ?_⟩
  · exact (congrArg List.flatten hcarry).trans (chunks_flatten tlsMaxRecordSize_pos item)
  · rw [← hcarry,List.getElem?_map,Option.map_eq_some_iff] at hi
    obtain ⟨r,hr,rfl⟩ := hi
    obtain ⟨chunk,hseal⟩ := sealedRecords_getElem? (sentRecords_getElem? hr)
    obtain ⟨-,-,hkey,hplain,hnonce,-⟩ := sealChunk_eq_ok hseal
    rw [setSendSeq_sendKey,hn,setRecvSeq_sendKey] at hkey
    rw [setSendSeq_sendIv,setSendSeq_sendSeq,hzero,Nat.zero_add,hn,setRecvSeq_sendIv] at hnonce
    refine ⟨r,hr,hkey,hnonce,?_⟩
    simp [hplain]

/-- What a party has sent once it is greeted: its hello, under the first key of the role. -/
structure Endpoint.Greeted (M : OpenMls) (C : Crypto) (isServer : Bool) (c : TlsAeadCodec)
    (s : ProtectedChannels) : Prop where
  confined : s.Confined C keyScheduleHashFunction aeadAlgorithm fun _ => True
  clientHello : isServer = false →
    ∃ message, (MlsTlsHandshakeOut.wire M).enc message = some (carried s.sent)
  records : ∀ {i x}, (chunks tlsMaxRecordSize (carried s.sent))[i]? = some x →
    ∃ r, s.sent[i]? = some r ∧ r.record.key = c.sendKey ∧ r.record.nonce = nonceOf c.sendIv i ∧
      r.record.plaintext = x++[tlsAppData]

lemma Endpoint.greeted_eq_some (isServer : Bool) (psk : Psk) : ∃ c, ∀ (J : Serde M) {x : Endpoint M}
    {s : ProtectedChannels}, x.greeted J C isServer psk = some s → Greeted M C isServer c s := by
  obtain ⟨c,hc,hstamped,hsetUp⟩ := psk.setUp_eq hC isServer
  refine ⟨c,fun J x s h => ?_⟩
  simp only [Endpoint.greeted,hsetUp,Option.bind_eq_bind,Option.bind_some] at h
  have hfresh := ProtectedChannels.Confined.fresh (P := fun _ => True) hstamped trivial
    x.plain.outgoing x.plain.incoming
  cases isServer with
  | true =>
    simp only [if_true] at h
    split at h
    · rename_i t h' s' hrun
      obtain rfl := Option.some.inj h
      obtain ⟨packet,s₁,state,response,db,hnext,-,hsend,-⟩ := MlsHandshake.serverHandshake_ok hrun
      rw [protectedTransport,Exec.mapError_eq_ok] at hnext hsend
      obtain ⟨hp,hbuffer,hsent,hcodec⟩ := ProtectedChannels.next_eq_ok hnext
      obtain ⟨hcarried,hrecords⟩ := carried_send hC hc hstamped.seq ⟨hp,hbuffer⟩ hsent hcodec hsend
      have hnext' := ProtectedChannels.next_confined.state hfresh hnext
      have hsend' := (ProtectedChannels.send_confined response).state hnext' hsend
      exact ⟨hsend',by simp,by rw [hcarried]; exact hrecords⟩
    · simp at h
  | false =>
    simp only [Bool.false_eq_true,if_false] at h
    split at h
    · rename_i waiting h' s' hrun
      obtain rfl := Option.some.inj h
      obtain ⟨db,db',hello,-,hstart,-,hsend⟩ := MlsHandshake.clientHandshakeStart_ok hrun
      obtain ⟨bundle,-,hhello,-,-⟩ := ClientHandshake.start_ok hstart
      rw [protectedTransport,Exec.mapError_eq_ok] at hsend
      obtain ⟨hcarried,hrecords⟩ := carried_send hC hc hstamped.seq ⟨rfl,rfl⟩ rfl
        ⟨c.recvSeq,rfl⟩ hsend
      have hsend' := (ProtectedChannels.send_confined hello).state hfresh hsend
      exact ⟨hsend',fun _ => ⟨_,by rw [hcarried]; exact hhello⟩,by rw [hcarried]; exact hrecords⟩
    · simp at h

end

namespace PskConnection
variable {J : Serde M} {C : Crypto} {isServer : Bool} {psk : Psk}

lemma hello_prefix_eq (hM : M.wire.Lawful) {c : TlsAeadCodec} {x y : PskConnection J C isServer psk}
    (hx : Endpoint.Greeted M C isServer c x.channels)
    (hy : Endpoint.Greeted M C isServer c y.channels) (hp : x.hello <+: y.hello) :
    x.hello = y.hello := by
  cases isServer with
  | true =>
    obtain ⟨m,hm⟩ := x.serverHello rfl
    obtain ⟨m',hm'⟩ := y.serverHello rfl
    exact ((ServerHelloIn.wire_lawful hM).prefix_free ((ServerHelloOut.wire_enc m).symm.trans hm)
      ((ServerHelloOut.wire_enc m').symm.trans hm') hp).2
  | false =>
    obtain ⟨m,hm⟩ := hx.clientHello rfl
    obtain ⟨m',hm'⟩ := hy.clientHello rfl
    exact ((MlsTlsHandshakeIn.wire_lawful hM).prefix_free
      ((MlsTlsHandshakeOut.wire_enc m).symm.trans hm)
      ((MlsTlsHandshakeOut.wire_enc m').symm.trans hm') hp).2

lemma mem_records {x : PskConnection J C isServer psk} {i : ℕ} {r : SentRecord}
    (h : x.channels.sent[i]? = some r) : r.record ∈ x.records := by
  have hp := ProtectedChannels.sent_prefix_perform C isServer x.operations x.channels
  exact List.mem_map_of_mem (hp.subset (List.mem_of_getElem? h))

lemma exists_reuse (hC : C.Lawful) (hM : M.wire.Lawful) {x y : PskConnection J C isServer psk}
    (hne : x.hello ≠ y.hello) : ∃ r ∈ x.records, ∃ r' ∈ y.records, r.plaintext ≠ r'.plaintext ∧
      r.key = r'.key ∧ r.nonce = r'.nonce := by
  -- two connections with different hellos have used one key and one nonce for different records
  obtain ⟨c,hgreeted⟩ := Endpoint.greeted_eq_some (M := M) hC isServer psk
  have hx := hgreeted J x.greeted
  have hy := hgreeted J y.greeted
  obtain ⟨i,a,b,ha,hb,hab⟩ := exists_chunks_ne tlsMaxRecordSize_pos
    (fun hp => hne (hello_prefix_eq hM hx hy hp)) fun hp => hne (hello_prefix_eq hM hy hx hp).symm
  obtain ⟨r,hr,hkey,hnonce,hplain⟩ := hx.records ha
  obtain ⟨r',hr',hkey',hnonce',hplain'⟩ := hy.records hb
  refine ⟨r.record,mem_records hr,r'.record,mem_records hr',?_,hkey.trans hkey'.symm,
    hnonce.trans hnonce'.symm⟩
  rw [hplain,hplain']
  exact fun heq => hab (List.append_cancel_right heq)

lemma noReuse_singleton (hC : C.Lawful)
    (hkeys : C.KeysDetermineIvs keyScheduleHashFunction aeadAlgorithm)
    (x : PskConnection J C isServer psk) : NoReuse [x] := by
  obtain ⟨c,hgreeted⟩ := Endpoint.greeted_eq_some (M := M) hC isServer psk
  have hnodup := ((hgreeted J x.greeted).confined.perform isServer x.operations).nodup hkeys
  intro y hy z hz r hr r' hr' hne heq
  obtain rfl := List.mem_singleton.mp hy
  obtain rfl := List.mem_singleton.mp hz
  obtain ⟨s,hs,rfl⟩ := List.mem_map.mp hr
  obtain ⟨s',hs',rfl⟩ := List.mem_map.mp hr'
  have hsame := List.inj_on_of_nodup_map hnodup hs hs' (Prod.ext heq.1 heq.2)
  rw [hsame] at hne
  exact hne rfl

/-- However many connections of one role are set up with a pre-shared key, by one party or by
several: their records never share key and nonce if and only if there is at most one connection. -/
theorem psk_noReuse_iff (hC : C.Lawful)
    (hkeys : C.KeysDetermineIvs keyScheduleHashFunction aeadAlgorithm) (hM : M.wire.Lawful)
    {xs : List (PskConnection J C isServer psk)} (hhellos : (xs.map hello).Nodup) :
    NoReuse xs ↔ xs.length ≤ 1 := by
  rcases xs with _ | ⟨x,_ | ⟨y,xs⟩⟩
  · simp [NoReuse]
  · simpa using noReuse_singleton hC hkeys x
  · have hne : x.hello ≠ y.hello := by
      rw [List.map_cons,List.map_cons,List.nodup_cons] at hhellos
      exact fun heq => hhellos.1 (by simp [heq])
    obtain ⟨r,hr,r',hr',hplain,heq⟩ := exists_reuse hC hM hne
    refine iff_of_false (fun h => ?_) (by simp)
    exact h x (by simp) y (by simp) r hr r' hr' hplain heq

end PskConnection

namespace Sample

def endpoint (clientId : Uuid) : Endpoint sampleMls where
  plain := ⟨[],[]⟩
  handshake := .new sampleDb [1]
  clientId := clientId
  serverVerifyingKey := [2]
  groupId := [9]
  seed := 0

theorem endpoint_greeted (clientId : Uuid) (h : clientId = [3] ∨ clientId = [4]) :
    ((endpoint clientId).greeted sampleSerde sampleCrypto false ⟨[5]⟩).isSome = true := by
  rcases h with rfl | rfl
  · decide +kernel
  · decide +kernel

/-- A client with the given identity, under one and the same key. -/
def pskConnection (clientId : Uuid) (h : clientId = [3] ∨ clientId = [4])
    (operations : List ProtectedChannels.Operation) :
    PskConnection sampleSerde sampleCrypto false ⟨[5]⟩ where
  endpoint := endpoint clientId
  channels := ((endpoint clientId).greeted sampleSerde sampleCrypto false ⟨[5]⟩).get
    (endpoint_greeted clientId h)
  greeted := (Option.some_get (endpoint_greeted clientId h)).symm
  serverHello := by simp
  operations := operations

end Sample

namespace PskConnection

theorem psk_noReuse_iff_sample :
    (Sample.pskConnection [3] (.inl rfl) [.send [1],.updateTrafficSecrets (.both sampleSecrets),
        .send [2]]).records.length = 3 ∧
      NoReuse [Sample.pskConnection [3] (.inl rfl) [.send [1],
        .updateTrafficSecrets (.both sampleSecrets),.send [2]]] := by
  refine ⟨by decide +kernel,?_⟩
  exact (psk_noReuse_iff sampleCrypto_lawful (sampleCrypto_keysDetermineIvs _ _)
    Sample.messageWire_lawful (by simp)).mpr (by simp)

/-- Two clients with the same pre-shared key. -/
theorem psk_reuse :
    ([Sample.pskConnection [3] (.inl rfl) [],Sample.pskConnection [4] (.inr rfl) []].map
        hello).Nodup ∧
      ¬NoReuse [Sample.pskConnection [3] (.inl rfl) [],Sample.pskConnection [4] (.inr rfl) []] := by
  have hne : (Sample.pskConnection [3] (.inl rfl) []).hello ≠
      (Sample.pskConnection [4] (.inr rfl) []).hello := by decide +kernel
  refine ⟨by simpa using hne,fun h => ?_⟩
  obtain ⟨r,hr,r',hr',hplain,heq⟩ := exists_reuse sampleCrypto_lawful Sample.messageWire_lawful hne
  exact h _ (by simp) _ (by simp) r hr r' hr' hplain heq

end PskConnection
end MlsTls.PreHandshake
