import MlsTls.MlsHandshake.Reaction

/-! The two messages of the handshake, over any transport. A party that accepts what it has read
has read all of it: a message that was cut on the way is refused. -/
set_option linter.dupNamespace false

namespace MlsTls.MlsHandshake
open Lib TlsAead
variable {M : OpenMls} {σ : Type}

/-- A party after its handshake: the handshake, its end of the transport and the secrets. -/
structure Finished (M : OpenMls) (σ : Type) where
  handshake : MlsHandshake M
  transport : σ
  secrets : TrafficSecrets

/-- A client and a server run the handshake over the two ends of a transport. -/
def exchange (tr : Transport σ) (P : Parties M) (clientId : Uuid) (groupId : GroupId)
    (clientSeed serverSeed : ℕ) (client server : Connection M × σ) :
    Option (Finished M σ × Finished M σ) :=
  match (MlsHandshake.clientHandshakeStart tr P.serde clientId (M.publicKey P.serverSigner)
      clientSeed).run (.new client.1 P.clientSigner,client.2) with
  | (.ok waiting,(hc,c)) =>
    match (MlsHandshake.serverHandshake tr groupId serverSeed).run
        (.new server.1 P.serverSigner,(tr.deliver c server.2).2) with
    | (.ok (some (serverSecrets,_)),(hs,s)) =>
      match (MlsHandshake.clientHandshakeFinish tr P.serde waiting).run
          (hc,(tr.deliver s (tr.deliver c server.2).1).2) with
      | (.ok (some clientSecrets),(hc,c')) => some
          (⟨hc,c',clientSecrets⟩,⟨hs,(tr.deliver s (tr.deliver c server.2).1).1,serverSecrets⟩)
      | _ => none
    | _ => none
  | _ => none

/-- The server has answered a `ClientHello` with a new session. -/
def Greeted (P : Parties M) (groupId : GroupId) (c c' : Connection M) : Prop :=
  ∃ hello message clientHello seed r, (MlsTlsHandshakeIn.wire M).decExact hello = some message ∧
    message.payload = .clientHello clientHello ∧
    (ServerHandshake.start P.serverSigner hello groupId seed).run c = (.ok r,c')

/-- Both ends of a transport stay in the relation `R` as long as messages arrive whole, and what
arrives of a message first is how it begins. -/
structure Transport.Carries (tr : Transport σ) (R : Bool → σ → σ → Prop) : Prop where
  swap : ∀ {isServer s r}, R isServer s r → R (!isServer) r s
  carries : ∀ {isServer s r item s' packet r'}, R isServer s r →
    (tr.send item).run s = (.ok (),s') →
    tr.next.run (tr.deliver s' r).2 = (.ok (some packet),r') →
    packet.data <+: item ∧ (packet.data = item → R isServer (tr.deliver s' r).1 r')

/-- The database has the table of handshake states. -/
def HasTable (c : Connection M) : Prop := ∃ rows, c.handshakeStates = some rows

namespace ClientHandshakeState

lemma setHandshakeStates_keeps (rows : List HandshakeStateRow) :
    Exec.Keeps HasTable (setHandshakeStates rows : Db M Unit) fun _ => True :=
  .modify fun _ _ => ⟨rows,rfl⟩

lemma handshakeStates_keeps : Exec.Keeps HasTable (handshakeStates : Db M _) fun _ => True :=
  .bind .get fun _ _ => Exec.Keeps.orThrow.mono fun _ _ => trivial

lemma orThrow_keeps {I : Connection M → Prop} {α : Type} (e : HandshakeError M.Error)
    (x : Option α) : Exec.Keeps I (Exec.orThrow e x : Db M α) fun _ => True :=
  Exec.Keeps.orThrow.mono fun _ _ => trivial

lemma load_keeps (J : Serde M) (profileId : Uuid) :
    Exec.Keeps HasTable (load J profileId) fun _ => True := by
  refine .bind handshakeStates_keeps fun rows _ => ?_
  cases rows.find? (·.profileId = profileId) with
  | none => exact .pure trivial
  | some row =>
    refine .bind (orThrow_keeps _ _) fun state _ => .bind (orThrow_keeps _ _) fun version _ => ?_
    split
    · exact .pure trivial
    · exact .pure trivial

lemma delete_keeps (J : Serde M) (profileId : Uuid) :
    Exec.Keeps HasTable (delete J profileId) fun _ => True := by
  refine .bind (load_keeps J profileId) fun state _ => ?_
  cases state with
  | none => exact .pure trivial
  | some state =>
    have hgroup : Exec.Keeps HasTable (MlsSession.loadGroup state.mlsSession.groupId : Db M _)
        fun _ => True :=
      .bind .get fun c _ => .bind (Exec.Keeps.lift.mono fun _ _ => trivial) fun _ (_ : True) =>
        orThrow_keeps _ _
    refine .bind (.bind hgroup fun group _ => .modify fun c hc => hc) fun _ _ => ?_
    exact .bind handshakeStates_keeps fun rows _ => setHandshakeStates_keeps _

lemma store_ok {J : Serde M} {state : ClientHandshakeState M} {c c' : Connection M}
    (h : (store J state).run c = (.ok (),c')) : c'.groups = c.groups ∧ HasTable c' := by
  simp only [store,handshakeStates,toSql,setHandshakeStates,Exec.bind_eq_ok,Exec.get_run,
    Exec.orThrow_eq_ok,Prod.mk.injEq,Except.ok.injEq] at h
  obtain ⟨rows,_,⟨_,_,⟨rfl,rfl⟩,hrows,rfl⟩,blob,_,⟨-,rfl⟩,h⟩ := h
  split_ifs at h with hany
  · simp at h
  · simp only [Exec.modify_run,Prod.mk.injEq] at h
    obtain ⟨-,rfl⟩ := h
    exact ⟨rfl,_,rfl⟩

end ClientHandshakeState

namespace MlsHandshake
variable {tr : Transport σ} {J : Serde M} {h h' : MlsHandshake M} {s s' : σ}

lemma clientHandshakeStart_ok {clientId : Uuid} {key : Bytes} {seed : ℕ}
    {waiting : WaitingForServerHello}
    (hrun : (clientHandshakeStart tr J clientId key seed).run (h,s) = (.ok waiting,(h',s'))) :
    ∃ db db' hello, HasTable db ∧
      (ClientHandshake.start h.leafSigner key clientId seed).run db = (.ok (waiting,hello),db') ∧
      h' = { h with connection := db' } ∧ (tr.send hello).run s = (.ok (),s') := by
  simp only [clientHandshakeStart,own,MlsHandshake.db,sendFirst,Exec.bind_eq_ok,Exec.zoom_eq_ok,
    Exec.mapError_eq_ok,Exec.get_run,Exec.pure_run,Prod.mk.injEq,Except.ok.injEq] at hrun
  obtain ⟨_,_,⟨_,⟨db₁,h₁,rfl⟩,rfl⟩,_,_,⟨_,⟨db₂,h₂,rfl⟩,rfl⟩,_,_,⟨rfl,rfl⟩,⟨w,hello⟩,_,
    ⟨_,⟨db₃,h₃,rfl⟩,rfl⟩,_,_,⟨t,hsend,rfl⟩,rfl,rfl,rfl⟩ := hrun
  have htable : HasTable db₁ := by
    simp only [ClientHandshakeState.createTable,Exec.modify_run,Prod.mk.injEq] at h₁
    exact ⟨_,by rw [← h₁.2]⟩
  have hdelete := (ClientHandshakeState.delete_keeps J clientId).state htable h₂
  exact ⟨db₂,db₃,hello,hdelete,h₃,rfl,hsend⟩

lemma clientHandshakeFinish_ok {waiting : WaitingForServerHello} {t : TrafficSecrets}
    (hrun : (clientHandshakeFinish tr J waiting).run (h,s) = (.ok (some t),(h',s'))) :
    ∃ packet state db db', tr.next.run s = (.ok (some packet),s') ∧
      (waiting.receiveServerHello packet.data).run h.connection = (.ok (state,t),db) ∧
      (ClientHandshakeState.store J state).run db = (.ok (),db') ∧
      h' = { h with connection := db', state := .client state } := by
  simp only [clientHandshakeFinish,nextFirst,Exec.bind_eq_ok,Exec.zoom_eq_ok,
    Exec.mapError_eq_ok] at hrun
  obtain ⟨item,_,⟨s₁,hnext,rfl⟩,hrun⟩ := hrun
  cases item with
  | none => simp at hrun
  | some packet =>
    simp only [own,MlsHandshake.db,setState,Exec.bind_eq_ok,Exec.zoom_eq_ok,Exec.mapError_eq_ok,
      Exec.modify_run,Exec.pure_run,Prod.mk.injEq,Except.ok.injEq,Option.some.injEq] at hrun
    obtain ⟨⟨state,u⟩,_,⟨_,⟨db,hreceive,rfl⟩,rfl⟩,_,_,⟨_,⟨db',hstore,rfl⟩,rfl⟩,_,_,
      ⟨_,⟨-,rfl⟩,rfl⟩,rfl,rfl,rfl⟩ := hrun
    exact ⟨packet,state,db,db',hnext,hreceive,hstore,rfl⟩

lemma serverHandshake_ok {groupId : GroupId} {seed : ℕ} {t : TrafficSecrets}
    {identity : ClientIdentity}
    (hrun : (serverHandshake tr groupId seed).run (h,s) = (.ok (some (t,identity)),(h',s'))) :
    ∃ packet s₁ state response db, tr.next.run s = (.ok (some packet),s₁) ∧
      (ServerHandshake.start h.leafSigner packet.data groupId seed).run h.connection =
        (.ok (state,t,identity,response),db) ∧
      (tr.send response).run s₁ = (.ok (),s') ∧
      h' = { h with connection := db, state := .server state } := by
  simp only [serverHandshake,nextFirst,Exec.bind_eq_ok,Exec.zoom_eq_ok,Exec.mapError_eq_ok] at hrun
  obtain ⟨item,_,⟨s₁,hnext,rfl⟩,hrun⟩ := hrun
  cases item with
  | none => simp at hrun
  | some packet =>
    simp only [own,MlsHandshake.db,setState,sendFirst,Exec.bind_eq_ok,Exec.zoom_eq_ok,
      Exec.mapError_eq_ok,Exec.get_run,Exec.modify_run,Exec.pure_run,Prod.mk.injEq,Except.ok.injEq,
      Option.some.injEq] at hrun
    obtain ⟨_,_,⟨rfl,rfl⟩,⟨state,u,i,response⟩,_,⟨_,⟨db,hstart,rfl⟩,rfl⟩,_,_,⟨_,⟨-,rfl⟩,rfl⟩,_,_,
      ⟨s₂,hsend,rfl⟩,⟨rfl,rfl⟩,rfl,rfl⟩ := hrun
    exact ⟨packet,s₁,state,response,db,hnext,hstart,hsend,rfl⟩

end MlsHandshake

lemma ServerHandshake.start_decExact {signer : M.SignatureKeyPair} {b : Bytes} {groupId : GroupId}
    {seed : ℕ} {c c' : Connection M} {r : ServerHandshakeState × TrafficSecrets × ClientIdentity × Bytes}
    (h : (ServerHandshake.start signer b groupId seed).run c = (.ok r,c')) :
    ∃ message, (MlsTlsHandshakeIn.wire M).decExact b = some message := by
  simp only [ServerHandshake.start,deserializeExact,Exec.bind_eq_ok,Exec.orThrow_eq_ok] at h
  obtain ⟨message,_,⟨hdec,-⟩,-⟩ := h
  exact ⟨message,hdec⟩

namespace TwoParty
variable {T : TwoParty M} {P : Parties M} {S : T.Session}

lemma Inv.stored {allow : Event → Prop} {H H' : List M.Message} {i : ClientInternalState M}
    {p : Option M.Message} {alive : Bool} {x : System M} (h : T.Inv S allow H i H' p alive x)
    {c : Connection M} (hgroups : c.groups = x.clientDb.groups) (htable : HasTable c) :
    T.Inv S allow H i H' p alive { x with clientDb := c } := by
  obtain ⟨g,hg,hv⟩ := h.client.group
  exact ⟨⟨⟨g,by rw [hgroups]; exact hg,hv⟩,h.client.session,h.client.internal,htable⟩,h.group,
    h.server,h.shape,h.fits,h.fresh,h.clientSecret,h.serverSecret,h.serverSecrets⟩

/-- After the exchange the parties share a session, and the transport has carried both messages
whole. -/
theorem exchange_live (hT : T.Lawful) (hJ : P.serde.Lawful) {tr : Transport σ}
    {R : Bool → σ → σ → Prop} (htr : tr.Carries R) {clientId : Uuid} {groupId : GroupId}
    {clientSeed serverSeed : ℕ} {client server : Connection M × σ} {c s : Finished M σ}
    (h : exchange tr P clientId groupId clientSeed serverSeed client server = some (c,s))
    (hR : R false client.2 server.2) :
    R false c.transport s.transport ∧ Greeted P groupId server.1 s.handshake.connection ∧
      ∃ S x, T.groupId S = groupId ∧ T.Honest S P ∧ T.Live S x ∧
      x.clock = 0 ∧ (∀ b, x.messagesOf b = []) ∧ c.handshake = x.handshakeOf P false ∧
      s.handshake = x.handshakeOf P true ∧ c.secrets = x.clientSecrets ∧
      s.secrets = x.serverSecrets := by
  unfold exchange at h
  split at h
  · rename_i waiting hc c₁ hstart
    split at h
    · rename_i serverSecrets identity hs s₁ hanswer
      split at h
      · rename_i clientSecrets hc' c₂ hfinish
        obtain ⟨rfl,rfl⟩ := Prod.mk.inj (Option.some.inj h)
        obtain ⟨db,db₁,hello,htable,hclient,rfl,hsend⟩ :=
          MlsHandshake.clientHandshakeStart_ok hstart
        obtain ⟨packet,s₂,state,response,db₂,hnext,hserver,hsend',rfl⟩ :=
          MlsHandshake.serverHandshake_ok hanswer
        obtain ⟨packet',state',db₃,db₄,hnext',hreceive,hstore,rfl⟩ :=
          MlsHandshake.clientHandshakeFinish_ok hfinish
        obtain ⟨bundle,-,hhello,-,-⟩ := ClientHandshake.start_ok hclient
        obtain ⟨hbegins,hcarried⟩ := htr.carries hR hsend hnext
        obtain ⟨message,hdec⟩ := ServerHandshake.start_decExact hserver
        have hwhole : packet.data = hello := (MlsTlsHandshakeIn.wire_lawful hT.wire).decExact_whole
          hdec ((MlsTlsHandshakeOut.wire_enc _).symm.trans hhello) hbegins
        rw [hwhole] at hserver
        obtain ⟨_,welcome,-,-,-,hresponse⟩ :=
          ServerHandshake.start_clientHello hT.wire hhello hserver
        obtain ⟨hbegins',hcarried'⟩ := htr.carries (htr.swap (hcarried hwhole)) hsend' hnext'
        obtain ⟨serverHello,_,_,_,_,_,hdec',-⟩ :=
          WaitingForServerHello.receiveServerHello_ok hreceive
        have hwhole' : packet'.data = response := (ServerHelloIn.wire_lawful hT.wire).decExact_whole
          hdec' ((ServerHelloOut.wire_enc _).symm.trans hresponse) hbegins'
        rw [hwhole'] at hreceive
        have hgreeted := (MlsTlsHandshakeIn.wire_lawful hT.wire).decExact_enc
          ((MlsTlsHandshakeOut.wire_enc _).symm.trans hhello)
        refine ⟨htr.swap (hcarried' hwhole'),⟨_,_,_,_,_,hgreeted,rfl,hserver⟩,?_⟩
        let x : System M :=
          { client := state', clientDb := db₃, server := some state, serverDb := db₂
            clientToServer := [], serverToClient := [], clientSecrets, serverSecrets, clock := 0 }
        have htrace : HandshakeTrace P clientId groupId x :=
          ⟨⟨_,_,_,_,_,_,_,_,_,_,hclient,hserver,hreceive,rfl,htable⟩,rfl,rfl⟩
        obtain ⟨S,hid,-,hP,hinv⟩ := HandshakeTrace.inv hT hJ htrace Quiet
        obtain ⟨hgroups,htable'⟩ := ClientHandshakeState.store_ok hstore
        refine ⟨S,{ x with clientDb := db₄ },hid,hP,⟨_,_,_,_,_,hinv.stored hgroups htable'⟩,rfl,?_,
          rfl,rfl,rfl,rfl⟩
        intro b
        cases b <;> rfl
      · simp at h
    · simp at h
  · simp at h

end TwoParty
end MlsTls.MlsHandshake
