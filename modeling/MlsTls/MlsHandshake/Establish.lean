import MlsTls.MlsHandshake.Invariant

/-! The handshake itself. A handshake that goes through leaves the two parties in one session,
with nothing merged and nothing in flight. -/
namespace MlsTls.MlsHandshake
open Lib TlsAead
variable {M : OpenMls}

lemma MlsSession.persist_eq_ok {f : BoxedError M.Error → HandshakeError M.Error}
    {r : Except M.Error M.Group} {g : M.Group} {c c' : Connection M} :
    (MlsSession.persist f r).run c = (.ok g,c') ↔ r = .ok g ∧ c' = c.saveGroup g := by
  cases r with
  | error e => simp [MlsSession.persist,Exec.bind_run]
  | ok a =>
    simp only [MlsSession.persist,Exec.bind_run,Exec.lift_ok,Exec.modify_run,Exec.pure_run,
      Prod.mk.injEq,Except.ok.injEq]
    constructor
    · rintro ⟨rfl,rfl⟩
      exact ⟨rfl,rfl⟩
    · rintro ⟨rfl,rfl⟩
      exact ⟨rfl,rfl⟩

lemma MlsSession.createServerSession_ok {leafSigner : M.SignatureKeyPair}
    {keyPackageIn : M.KeyPackageIn} {groupId : GroupId} {seed : ℕ} {c c' : Connection M}
    {session : MlsSession} {secrets : TrafficSecrets} {identity : ClientIdentity}
    {welcome : M.Message}
    (h : (MlsSession.createServerSession leafSigner keyPackageIn groupId seed).run c =
      (.ok (session,secrets,identity,welcome),c')) :
    ∃ keyPackage g g' g'', M.validate keyPackageIn = .ok keyPackage ∧
      M.buildGroup groupId leafSigner (.basic MlsSession.serverIdentity) seed = .ok g ∧
      M.addMembers leafSigner keyPackage seed g = .ok (welcome,g') ∧
      M.mergePendingCommit g' = .ok g'' ∧ session = ⟨M.groupId g'',M.epoch g''⟩ ∧
      (exportTrafficSecrets g'').run (((c.saveGroup g).saveGroup g').saveGroup g'') =
        (.ok secrets,c') ∧
      (M.leafNode keyPackage).credential.basicIdentity = some identity.identity := by
  simp only [MlsSession.createServerSession,Exec.bind_eq_ok,Exec.lift_eq_ok,
    Exec.orThrow_eq_ok,Exec.modify_run,Exec.pure_run,MlsSession.persist_eq_ok] at h
  obtain ⟨keyPackage,_,⟨hval,rfl⟩,id,_,⟨hid,rfl⟩,g,_,⟨hbuild,rfl⟩,⟨w,g'⟩,_,⟨hadd,rfl⟩,_,d,hd,g'',_,
    ⟨hmerge,rfl⟩,t,c2,hexp,hres⟩ := h
  simp only [Prod.mk.injEq,Except.ok.injEq] at hd hres
  obtain ⟨-,rfl⟩ := hd
  obtain ⟨⟨rfl,rfl,rfl,rfl⟩,rfl⟩ := hres
  exact ⟨keyPackage,g,g',g'',hval,hbuild,hadd,hmerge,rfl,hexp,hid⟩

lemma WaitingForServerHello.receiveServerHello_ok {waiting : WaitingForServerHello} {b : Bytes}
    {c c' : Connection M} {client : ClientHandshakeState M} {secrets : TrafficSecrets}
    (h : (waiting.receiveServerHello b).run c = (.ok (client,secrets),c')) :
    ∃ hello welcome staged bundles group, ∃ d : Connection M, (ServerHelloIn.wire M).decExact b = some hello ∧
      M.extract hello.welcome = .welcome welcome ∧
      M.newFromWelcome c.keyPackages welcome = .ok (staged,bundles) ∧
      M.intoGroup staged = .ok group ∧
      client = ⟨waiting.profileId,⟨M.groupId group,M.epoch group⟩,.running⟩ ∧
      d.handshakeStates = c.handshakeStates ∧
      (exportTrafficSecrets group).run (d.saveGroup group) = (.ok secrets,c') := by
  simp only [WaitingForServerHello.receiveServerHello,deserializeExact,Exec.bind_eq_ok,
    Exec.orThrow_eq_ok] at h
  obtain ⟨hello,_,⟨hdec,rfl⟩,h⟩ := h
  cases hw : M.extract hello.welcome with
  | welcome welcome =>
    simp only [hw,Exec.bind_eq_ok,Exec.get_run,Exec.lift_eq_ok,Exec.modify_run] at h
    obtain ⟨c1,_,hc1,⟨staged,bundles⟩,_,⟨hstaged,rfl⟩,_,d,hd,sender,_,⟨hsender,rfl⟩,h⟩ := h
    simp only [Prod.mk.injEq,Except.ok.injEq] at hc1 hd
    obtain ⟨rfl,rfl⟩ := hc1
    obtain ⟨-,rfl⟩ := hd
    split_ifs at h with hkey
    · simp at h
    · simp only [Exec.bind_eq_ok,Exec.lift_eq_ok,Exec.modify_run,Exec.pure_run] at h
      obtain ⟨group,_,⟨hgroup,rfl⟩,_,d',hd',t,_,hexp,hres⟩ := h
      simp only [Prod.mk.injEq,Except.ok.injEq] at hd' hres
      obtain ⟨-,rfl⟩ := hd'
      obtain ⟨⟨rfl,rfl⟩,rfl⟩ := hres
      exact ⟨hello,welcome,staged,bundles,group,{ c with keyPackages := bundles },hdec,hw,hstaged,
        hgroup,rfl,rfl,hexp⟩
  | privateMessage _ => simp [hw] at h
  | keyPackage _ => simp [hw] at h
  | other => simp [hw] at h

lemma ServerHandshake.start_clientHello (hM : M.wire.Lawful) {leafSigner : M.SignatureKeyPair}
    {message : M.Message} {hello : Bytes} {groupId : GroupId} {seed : ℕ} {c c' : Connection M}
    {server : ServerHandshakeState} {secrets : TrafficSecrets} {identity : ClientIdentity}
    {response : Bytes}
    (hhello : (MlsTlsHandshakeOut.wire M).enc (.fromPayload (.clientHello ⟨message⟩)) = some hello)
    (h : (ServerHandshake.start leafSigner hello groupId seed).run c =
      (.ok (server,secrets,identity,response),c')) :
    ∃ keyPackageIn welcome, M.extract message = .keyPackage keyPackageIn ∧
      (MlsSession.createServerSession leafSigner keyPackageIn groupId seed).run c =
        (.ok (server.mlsSession,secrets,identity,welcome),c') ∧
      server.internalState = .running ∧ (ServerHelloOut.wire M).enc ⟨welcome⟩ = some response := by
  rw [MlsTlsHandshakeOut.wire_enc] at hhello
  simp only [ServerHandshake.start,Exec.bind_run,
    deserializeExact_run (MlsTlsHandshakeIn.wire_lawful hM) hhello,MlsTlsHandshakeOut.toIn,
    MlsTlsHandshakeOut.fromPayload,HandshakePayloadOut.toIn,MlsTlsHandshakeIn.checkVersion,ne_eq,
    not_true_eq_false,if_false,Exec.pure_run,ServerHandshake.processClientHello] at h
  cases hk : M.extract message with
  | keyPackage keyPackageIn =>
    simp only [hk,Exec.bind_eq_ok,Exec.pure_run,serialize,Exec.orThrow_eq_ok] at h
    obtain ⟨⟨session,t,id,welcome⟩,_,hcreate,b,_,⟨hb,rfl⟩,hres⟩ := h
    simp only [Prod.mk.injEq,Except.ok.injEq] at hres
    obtain ⟨⟨rfl,rfl,rfl,rfl⟩,rfl⟩ := hres
    exact ⟨keyPackageIn,welcome,rfl,hcreate,rfl,hb⟩
  | privateMessage _ => simp [hk] at h
  | welcome _ => simp [hk] at h
  | other => simp [hk] at h

lemma ClientHandshake.start_ok {signer : M.SignatureKeyPair} {key : Bytes} {clientId : Uuid}
    {seed : ℕ} {c c' : Connection M} {waiting : WaitingForServerHello} {hello : Bytes}
    (h : (ClientHandshake.start signer key clientId seed).run c = (.ok (waiting,hello),c')) :
    ∃ bundle, M.buildKeyPackage signer (.basic clientId) seed = .ok bundle ∧
      (MlsTlsHandshakeOut.wire M).enc (.fromPayload
        (.clientHello ⟨M.keyPackageMessage (M.keyPackage bundle)⟩)) = some hello ∧
      waiting = ⟨clientId,key⟩ ∧ c'.handshakeStates = c.handshakeStates := by
  simp only [ClientHandshake.start,Exec.bind_eq_ok,Exec.lift_eq_ok,Exec.modify_run,serialize,
    Exec.orThrow_eq_ok,Exec.pure_run,Prod.mk.injEq,Except.ok.injEq] at h
  obtain ⟨bundle,_,⟨hbundle,rfl⟩,_,d,⟨-,rfl⟩,b,_,⟨hb,rfl⟩,⟨rfl,rfl⟩,rfl⟩ := h
  exact ⟨bundle,hbundle,hb,rfl,rfl⟩

/-- One honest handshake, call by call. -/
structure HandshakeTrace (P : Parties M) (clientId : Uuid) (groupId : GroupId) (x : System M) :
    Prop where
  ok : ∃ (clientSeed serverSeed : ℕ) (clientDb serverDb db : Connection M)
      (waiting : WaitingForServerHello) (hello response : Bytes) (server : ServerHandshakeState)
      (identity : ClientIdentity),
    (ClientHandshake.start P.clientSigner (M.publicKey P.serverSigner) clientId clientSeed).run
      clientDb = (.ok (waiting,hello),db) ∧
    (ServerHandshake.start P.serverSigner hello groupId serverSeed).run serverDb =
      (.ok (server,x.serverSecrets,identity,response),x.serverDb) ∧
    (waiting.receiveServerHello response).run db = (.ok (x.client,x.clientSecrets),x.clientDb) ∧
    x.server = some server ∧ (∃ rows, clientDb.handshakeStates = some rows)
  toServer : x.clientToServer = []
  toClient : x.serverToClient = []

theorem honestHandshake_trace {P : Parties M} {clientId : Uuid} {groupId : GroupId}
    {clientSeed serverSeed : ℕ} {clientDb serverDb : Connection M} {x : System M}
    (h : honestHandshake P clientId groupId clientSeed serverSeed clientDb serverDb = some x) :
    HandshakeTrace P clientId groupId x := by
  unfold honestHandshake at h
  split at h
  · simp at h
  · rename_i waiting hello db1 hclient
    split at h
    · simp at h
    · rename_i server secrets identity response db2 hserver
      split at h
      · simp at h
      · rename_i client secrets' db3 hreceive
        obtain rfl := Option.some.inj h
        simp only [ClientHandshakeState.createTable,Exec.bind_eq_ok,Exec.modify_run,Prod.mk.injEq]
          at hclient
        obtain ⟨_,d,⟨-,rfl⟩,hstart⟩ := hclient
        exact ⟨⟨_,_,_,_,_,_,_,_,_,_,hstart,hserver,hreceive,rfl,_,rfl⟩,rfl,rfl⟩

namespace TwoParty
variable {T : TwoParty M}

/-- The parties of a handshake share a session, in which neither has merged anything. -/
theorem HandshakeTrace.inv (hT : T.Lawful) {P : Parties M} (hJ : P.serde.Lawful) {clientId : Uuid}
    {groupId : GroupId} {x : System M} (h : HandshakeTrace P clientId groupId x)
    (allow : Event → Prop) :
    ∃ σ, T.groupId σ = groupId ∧ T.identity σ false = clientId ∧ T.Honest σ P ∧
      T.Inv σ allow [] .running [] none true x := by
  obtain ⟨⟨_,_,_,_,db,waiting,hello,response,server,identity,hstart,hserver,hreceive,hx,rows,hrows⟩,
    hts,htc⟩ := h
  obtain ⟨bundle,hbundle,hhello,rfl,hdb⟩ := ClientHandshake.start_ok hstart
  obtain ⟨keyPackageIn,message,hk,hcreate,hinternal,hresponse⟩ :=
    ServerHandshake.start_clientHello hT.wire hhello hserver
  obtain ⟨keyPackage,g,g',g'',hval,hbuild,hadd,hmerge,hsession,hexp,-⟩ :=
    MlsSession.createServerSession_ok hcreate
  obtain ⟨serverHello,welcome,staged,bundles,group,d',hdec,hw,hstaged,hgroup,hclient,hd',hexp'⟩ :=
    WaitingForServerHello.receiveServerHello_ok hreceive
  obtain rfl : serverHello = ⟨message⟩ := by
    rw [ServerHelloOut.wire_enc] at hresponse
    rw [(ServerHelloIn.wire_lawful hT.wire).decExact_enc hresponse] at hdec
    exact (Option.some.inj hdec).symm
  obtain ⟨σ,hid,hcs,hss,hident,hv,hv'⟩ :=
    hT.joined hbundle hk hval hbuild hadd hmerge hw hstaged hgroup
  rw [exportTrafficSecrets_run hT hv] at hexp
  rw [exportTrafficSecrets_run hT hv'] at hexp'
  simp only [Prod.mk.injEq,Except.ok.injEq] at hexp hexp'
  have hstate : server = T.serverState σ [] none := by
    obtain ⟨s,i⟩ := server
    simp only at hsession hinternal
    rw [hsession,hinternal,hT.groupId_eq hv,hT.epoch_eq hv]
    rfl
  refine ⟨σ,hid,hident,⟨hcs.symm,hss.symm,hJ⟩,?_⟩
  constructor
  · refine ⟨?_,?_,by rw [hclient],?_⟩
    · rw [← hexp'.2]
      exact groupAt_saveGroup hT hv' _
    · simp only [hclient,hT.groupId_eq hv',hT.epoch_eq hv']
    · refine ⟨rows,?_⟩
      rw [← hexp'.2,Connection.saveGroup_handshakeStates,hd',hdb,hrows]
  · rw [← hexp.2]
    exact groupAt_saveGroup hT hv _
  · rw [hx,hstate]
    rfl
  · rw [hts,htc]
    exact .idle .none
  · rw [List.length_nil]
    decide
  · intro m hm
    simp [Known] at hm
  · rw [← hexp'.1]
  · intro
    rw [← hexp'.1]
  · intro
    rw [← hexp.1]

end TwoParty
end MlsTls.MlsHandshake
