import MlsTls.EncryptionProvider.Delivery
import MlsTls.MlsHandshake.Locality
import MlsTls.MlsHandshake.ServerHost

/-! A server with any number of clients, which all have their groups in its one database. A
connection in step looks at no group but its own, so that each of them goes on as if it were the only
one. -/
set_option linter.dupNamespace false

namespace MlsTls.MlsHandshake
open Lib TlsAead
variable {M : OpenMls}

/-- A server with a session of one of the groups `G`; apart from these, the groups are those of the
database `c₀`. -/
structure MlsHandshake.Within (G : Set GroupId) (c₀ : Connection M) (h : MlsHandshake M) : Prop where
  server : ∃ st, h.state = .server st ∧ st.mlsSession.groupId ∈ G
  filed : FiledIn ((Connection.part M G).view h.connection)
  others : ∀ j, j ∉ G → h.connection.groups j = c₀.groups j

namespace MlsHandshake
variable {G : Set GroupId} {c₀ : Connection M} {α : Type}

lemma server_within {st : ServerHandshakeState} {x : ServerHandshakeState.Call M α} {Q : α → Prop}
    (hx : ServerHandshakeState.InPart G x Q) {h₀ : MlsHandshake M} (hst : h₀.state = .server st)
    (hh : h₀.Within G c₀) :
    Exec.Triple (fun h => h = h₀) (server st x) (fun _ h => h.Within G c₀)
      fun _ h => h.Within G c₀ := by
  rintro h rfl
  obtain ⟨⟨st',hst',hmem⟩,hfiled,hothers⟩ := hh
  obtain rfl := MlsHandshakeState.server.inj (hst'.symm.trans hst)
  have hin : ServerHandshakeState.StoredIn
      ((Lens.beside ServerHandshakeState (Connection.part M G)).view (st',h.connection)) :=
    ⟨hmem,hfiled⟩
  obtain ⟨hmem',hfiled'⟩ := hx.keeps hin
  have hframe := hx.frame (w := fun s => fun j : {j // j ∉ G} => s.2.groups j)
    (fun t s => funext fun j => Connection.replace_groups_of_notMem t.2 s.2 j.2) hin
  have hwithin : ∀ st'' c, (x.run (st',h.connection)).2 = (st'',c) →
      ({ h with state := .server st'', connection := c } : MlsHandshake M).Within G c₀ := by
    intro st'' c hc
    rw [hc] at hmem' hfiled' hframe
    exact ⟨⟨st'',rfl,hmem'⟩,hfiled',fun j hj => (congrFun hframe ⟨j,hj⟩).trans (hothers j hj)⟩
  rw [server,Exec.zoom_run]
  simp only [Exec.mapError]
  rcases hr : x.run (st',h.connection) with ⟨(e | _) | a,st'',c⟩
  all_goals exact hwithin st'' c (by rw [hr])

variable (hM : KeepsIds M) (J : Serde M) (seed : ℕ)
include hM

lemma updateHandshake_within :
    Exec.Keeps (Within G c₀) (updateHandshake J seed) fun _ => True := by
  intro h hh
  obtain ⟨st,hst,-⟩ := hh.server
  rw [updateHandshake,Exec.bind_of_ok (Exec.get_run _),hst]
  exact Exec.Triple.bind (server_within (ServerHandshakeState.update_inPart hM h.leafSigner false seed)
    hst hh) (fun message => .pure fun h' hh' => ⟨hh',trivial⟩) h rfl

lemma processSignalingMessage_within {message : Bytes}
    (hnamed : ∀ update, (SignalingMessageIn.wire M).decExact message =
      some (.connectionUpdate update) → namedBy update.mlsCommit ⊆ G) :
    Exec.Keeps (Within G c₀) (processSignalingMessage J message seed) fun _ => True := by
  intro h hh
  obtain ⟨st,hst,-⟩ := hh.server
  rw [processSignalingMessage,Exec.bind_of_ok (Exec.get_run _),hst]
  exact Exec.Triple.bind (server_within (ServerHandshakeState.receiveSignalingMessage_inPart hM
    h.leafSigner hnamed seed) hst hh) (fun r => .pure fun h' hh' => ⟨hh',trivial⟩) h rfl

end MlsHandshake

lemma TwoParty.Inv.names_own {T : TwoParty M} {σ : T.Session} (hT : T.Lawful) {H S : List M.Message}
    {i : ClientInternalState M} {p : Option M.Message} {alive : Bool} {x : System M}
    (h : T.Inv σ Quiet H i S p alive x) {b : Bytes} {bs : List Bytes} (hb : x.clientToServer = b::bs)
    {update : ConnectionUpdateIn M}
    (hdec : (SignalingMessageIn.wire M).decExact b = some (.connectionUpdate update)) :
    namedBy update.mlsCommit ⊆ {T.groupId σ} := by
  have hfits := h.fits
  have hsh := h.shape
  rw [hb] at hsh
  generalize x.serverToClient = tc at hsh
  cases hsh with
  | updating ahead commit request ignored =>
    rename_i c q
    rw [connectionUpdateBytes,TwoParty.decExact_signaling hT
      (connectionUpdate_enc (.ofBool q) (hT.commit_wire commit))] at hdec
    obtain rfl := SignalingMessageIn.connectionUpdate.inj (Option.some.inj hdec)
    obtain ⟨m,hm,hgroup,-⟩ := hT.commit_message commit
    rintro j ⟨m',hm',rfl⟩
    obtain rfl := MlsMessageBodyIn.privateMessage.inj (hm.symm.trans hm')
    exact hgroup
  | merging =>
    rw [epochKeyUpdateBytes,TwoParty.decExact_signaling hT (epochKeyUpdate_enc (by omega))] at hdec
    simp [SignalingMessageOut.toIn] at hdec
  | resuming resume => exact absurd rfl resume.1
  | replaying resume => exact absurd rfl resume.1

end MlsTls.MlsHandshake

namespace MlsTls.EncryptionProvider
open Lib TlsAead MlsHandshake PreHandshake
variable {M : OpenMls} {V : Environment M}

namespace EncryptionProvider
variable {G : Set GroupId} {c₀ : Connection M} {α : Type}

lemma onChannels_within (x : ProtectedChannels.ProviderCall M.Error α) :
    Exec.Keeps (fun p : EncryptionProvider M V.chrono => p.handshake.Within G c₀) (onChannels x)
      fun _ => True :=
  .elsewhere fun _ _ h => h

lemma onHandshake_within {x : MlsHandshake.Call M α}
    (hx : Exec.Keeps (MlsHandshake.MlsHandshake.Within G c₀) x fun _ => True) :
    Exec.Keeps (fun p : EncryptionProvider M V.chrono => p.handshake.Within G c₀) (onHandshake x)
      fun _ => True :=
  .zoom _ _ (fun _ _ => rfl) hx

variable (hM : KeepsIds M)
include hM

lemma sendBytes_within (bytes : Bytes) (now : V.chrono.DateTime) (seed : ℕ) :
    Exec.Keeps (fun p => p.handshake.Within G c₀) (sendBytes V true bytes now seed)
      fun _ => True := by
  refine sendBytes_keeps V true (Q := fun _ => True) ?_ ?_ ?_ ?_ bytes now
  · exact fun message => onChannels_within _
  · exact fun policy => .modify fun _ h => h
  · exact onHandshake_within (MlsHandshake.updateHandshake_within hM V.serde seed)
  · exact fun r _ => answer_keeps V true (fun _ => onChannels_within _)
      (fun _ => onChannels_within _) r.1 _

lemma processReadMessage_within {message : InnerPlaintext}
    (hnamed : ∀ b, message = .signaling b → ∀ update, (SignalingMessageIn.wire M).decExact b =
      some (.connectionUpdate update) → namedBy update.mlsCommit ⊆ G) (seed : ℕ) :
    Exec.Keeps (fun p => p.handshake.Within G c₀) (processReadMessage V true message seed)
      fun _ => True := by
  cases message with
  | application b => exact .pure trivial
  | signaling b =>
    have hprocess : Exec.Keeps (fun p : EncryptionProvider M V.chrono => p.handshake.Within G c₀)
        (onHandshake (MlsHandshake.processSignalingMessage V.serde b seed)) fun _ => True :=
      onHandshake_within (MlsHandshake.processSignalingMessage_within hM V.serde seed (hnamed b rfl))
    exact .bind hprocess.mapError fun r _ => .bind (answer_keeps V true
      (fun _ => onChannels_within _) (fun _ => onChannels_within _) r.1 r.2) fun _ _ => .pure trivial

end EncryptionProvider

variable {T : TwoParty M} {σ : T.Session} {P : Parties M}

namespace Joined
variable {x : System M} {e o : Endpoint V}

lemma within (h : Joined T σ P true x e o) (hT : T.Lawful) :
    e.provider.handshake.Within {T.groupId σ} e.provider.handshake.connection := by
  obtain ⟨H,i,S,p,alive,hinv⟩ := h.live
  have hserver := hinv.server
  rw [hinv.alive_of_quiet,if_pos rfl] at hserver
  obtain ⟨g,hg,hview⟩ := hinv.group
  rw [h.near.handshake]
  refine ⟨⟨T.serverState σ S p,by simp only [System.handshakeOf,hserver]; rfl,rfl⟩,?_,fun _ _ => rfl⟩
  rintro ⟨j,rfl⟩ g' hg'
  obtain rfl : g = g' := Option.some.inj (Except.ok.inj (hg.symm.trans hg'))
  exact hT.groupId_eq hview

lemma unprocessed_named (h : Joined T σ P true x e o) (hT : T.Lawful) {b : Bytes}
    (hb : e.unprocessed = some (.signaling b)) {update : ConnectionUpdateIn M}
    (hdec : (SignalingMessageIn.wire M).decExact b = some (.connectionUpdate update)) :
    namedBy update.mlsCommit ⊆ {T.groupId σ} := by
  obtain ⟨pending,hlink,hmessages⟩ := h.coming
  rw [hb] at hlink
  obtain ⟨H,i,S,p,alive,hinv⟩ := h.live
  obtain ⟨xs,rfl,-⟩ := hlink.items
  exact hinv.names_own hT hmessages hdec

variable (hM : KeepsIds M) (hC : V.crypto.Lawful) (hT : T.Lawful) (hP : T.Honest σ P)
  (hJ : P.serde = V.serde)

include hM hT in
lemma process_frame {p : EncryptionProvider M V.chrono} {m : InnerPlaintext}
    (h : Joined T σ P true x ⟨p,some m⟩ o) (seed : ℕ) {j : GroupId} (hj : j ≠ T.groupId σ) :
    ((EncryptionProvider.processReadMessage V true m seed).run p).2.handshake.connection.groups j =
      p.handshake.connection.groups j := by
  refine ((EncryptionProvider.processReadMessage_within hM ?_ seed).snd (h.within hT)).others j hj
  rintro b rfl update hdec
  exact h.unprocessed_named hT rfl hdec

include hM hC hT hP hJ in
lemma readBytes_frame {turns : ℕ} {p : EncryptionProvider M V.chrono}
    (h : Joined T σ P true x ⟨p,none⟩ o) (hroom : EncryptionProvider.ReadRoom true turns x.clock p)
    {j : GroupId} (hj : j ≠ T.groupId σ) :
    ((EncryptionProvider.readBytesInner V true turns x.clock).run p).2.handshake.connection.groups j =
      p.handshake.connection.groups j := by
  induction turns generalizing x p with
  | zero => rfl
  | succ turns ih =>
    rw [EncryptionProvider.readBytesInner_succ]
    rcases h.read hC rfl with hrun | ⟨m,s',hrun,-,hread⟩
    · rw [Exec.bind_of_ok hrun]
      rfl
    · obtain ⟨hprocess,hrest⟩ := hroom.of_ok hrun m rfl
      obtain ⟨p',put,y,hrun',-,-,hclock,hy⟩ := hread.process hC hT hP hJ hprocess
      have hframe := hread.process_frame hM hT x.clock hj
      rw [hrun'] at hframe
      rw [Exec.bind_of_ok hrun]
      cases hm : m.payload with
      | some b =>
        rw [hm] at hrun'
        simp only [Exec.bind_of_ok hrun',Exec.pure_run]
        exact hframe
      | none =>
        rw [hm] at hrun'
        have hroom' := hrest.of_ok hrun' rfl
        rw [← hclock] at hroom'
        have hrest' := ih hy hroom'
        rw [hclock] at hrest'
        simp only [Exec.bind_of_ok hrun',hrest']
        exact hframe

end Joined

namespace Duplex

/-- The database of the server. -/
abbrev database (d : Duplex V) : Connection M := (d.side true).provider.handshake.connection

/-- The server finds its database in another state. -/
def lend (c : Connection M) (d : Duplex V) : Duplex V :=
  d.set true { d.side true with provider.handshake.connection := c } d.clock

variable {d : Duplex V}

lemma lend_database (d : Duplex V) : d.lend d.database = d := by
  unfold lend Duplex.set
  rw [Function.update_eq_self]

lemma lend_lend (d : Duplex V) (c c' : Connection M) : (d.lend c).lend c' = d.lend c' := by
  simp only [lend,set_side]
  unfold Duplex.set
  rw [Function.update_idem]

lemma lend_inTransit (d : Duplex V) (c : Connection M) : (d.lend c).inTransit = d.inTransit := by
  funext b
  cases b <;> rfl

lemma Lockstep.lend (h : d.Lockstep T σ P) {c : Connection M}
    (hc : c.groups (T.groupId σ) = d.database.groups (T.groupId σ)) :
    (d.lend c).Lockstep T σ P := by
  obtain ⟨x,hclock,⟨⟨H,i,S,p,alive,hinv⟩,hnear,hfar,⟨going,hgoing⟩,⟨coming,hcoming⟩⟩⟩ := h
  have hdb : d.database = x.serverDb := by
    rw [Duplex.database,hfar.handshake]
    rfl
  obtain ⟨g,hg,hview⟩ := hinv.group
  have hgroup : T.GroupAt ⟨σ,true,S,p⟩ c := ⟨g,(hc.trans (by rw [hdb])).trans hg,hview⟩
  refine ⟨{ x with serverDb := c },hclock,⟨H,i,S,p,alive,hinv.client,hgroup,hinv.server,hinv.shape,
    hinv.fits,hinv.fresh,hinv.clientSecret,hinv.serverSecret,hinv.serverSecrets⟩,?_,?_,
    ⟨going,hgoing.link,hgoing.messages⟩,⟨coming,hcoming.link,hcoming.messages⟩⟩
  · exact ⟨hnear.handshake,hnear.clean,hnear.keyed,hnear.room⟩
  · refine ⟨?_,hfar.clean,hfar.keyed,hfar.room⟩
    have hhandshake := hfar.handshake
    exact congrArg (fun h : MlsHandshake M => { h with connection := c }) hhandshake

variable (hM : KeepsIds M) (hC : V.crypto.Lawful) (hT : T.Lawful) (hP : T.Honest σ P)
  (hJ : P.serde = V.serde)
include hM hC hT hP hJ

/-- Whatever is done on a connection in step, the other groups of the server stay as they are. -/
theorem Lockstep.frame (h : d.Lockstep T σ P) {e : Bool × Operation V} (hroom : d.Room e)
    {j : GroupId} (hj : j ≠ T.groupId σ) : (d.step e).database.groups j = d.database.groups j := by
  obtain ⟨isServer,op⟩ := e
  cases isServer with
  | false =>
    have hclient (e : Endpoint V) (clock : ℕ) : (d.set false e clock).database = d.database := rfl
    cases op with
    | readMessage =>
      simp only [step,Duplex.exec]
      split <;> rw [hclient]
    | processReadMessage =>
      simp only [step,Duplex.exec]
      split
      · rfl
      · rw [hclient]
    | _ => rfl
  | true =>
    obtain ⟨x,hclock,hjoined⟩ := h.joined true
    cases op with
    | sendBytes bytes now =>
      exact ((EncryptionProvider.sendBytes_within hM bytes now d.clock).snd (hjoined.within hT)).others
        j hj
    | readMessage =>
      rcases hrun : (EncryptionProvider.readMessage V).run (d.side true).provider with ⟨f | m,p⟩
      all_goals
        obtain rfl := (Prod.mk.inj hrun).2
        simp only [step,Duplex.exec,hrun]
        rfl
    | processReadMessage =>
      simp only [step,Duplex.exec]
      split
      · rfl
      · rename_i m hm
        have hread : Joined T σ P true x ⟨(d.side true).provider,some m⟩ (d.side !true) := by
          rw [← hm]
          exact hjoined
        exact hread.process_frame hM hT d.clock hj
    | readBytes turns =>
      obtain ⟨hslot,hturns⟩ := hroom
      have hread : Joined T σ P true x ⟨(d.side true).provider,none⟩ (d.side !true) := by
        rw [← hslot]
        exact hjoined
      rw [← hclock] at hturns
      have hframe := hread.readBytes_frame hM hC hT hP hJ hturns hj
      rw [hclock] at hframe
      exact hframe
    | arrive n => rfl

end Duplex

/-- A server with the connections of all its clients. Each connection has its client, and the server's
side of it finds the database as the last call on any connection has left it. -/
structure Hub (V : Environment M) (ι : Type) where
  connection : Connection M
  /-- The ids that have been drawn for groups. -/
  drawn : List GroupId
  link : ι → Option (Duplex V)

inductive HubEvent (V : Environment M) (X : X25519) (ι : Type)
  | connect (i : ι) (Q : Peers V) (opening : Opening X)
  | call (i : ι) (isServer : Bool) (op : Operation V)

namespace Hub
variable {X : X25519} {ι : Type} [DecidableEq ι]

/-- The connection as it is now. -/
def view (h : Hub V ι) (i : ι) : Option (Duplex V) := (h.link i).map (·.lend h.connection)

/-- The new connection, if the handshake with the client succeeds. -/
def accept (h : Hub V ι) (Q : Peers V) (opening : Opening X) : Option (Duplex V) :=
  { Q with serverDb := h.connection }.connect opening

/-- A connection has got this far. -/
def set (h : Hub V ι) (i : ι) (drawn : List GroupId) (d : Duplex V) : Hub V ι :=
  ⟨d.database,drawn,Function.update h.link i (some d)⟩

def step : HubEvent V X ι → Hub V ι → Hub V ι
  | .connect i Q opening,h =>
    match h.accept Q opening with
    | none => h
    | some d => h.set i (Q.groupId::h.drawn) d
  | .call i isServer op,h =>
    match h.view i with
    | none => h
    | some d => h.set i h.drawn (d.step (isServer,op))

/-- New connections are honest handshakes, with an id that was not drawn before. -/
def Room : HubEvent V X ι → Hub V ι → Prop
  | .connect i Q opening,h => h.link i = none ∧ Q.groupId ∉ h.drawn ∧ (h.accept Q opening).isSome
  | .call i isServer op,h => ∀ d ∈ h.view i, d.Room (isServer,op)

instance (e : HubEvent V X ι) (h : Hub V ι) : Decidable (h.Room e) :=
  match e with
  | .connect _ _ _ => inferInstanceAs (Decidable (_ ∧ _ ∧ _))
  | .call _ _ _ => inferInstanceAs (Decidable (∀ _ ∈ _,_))

/-- What the users see of an event: there are two queues for each connection. -/
def visible : HubEvent V X ι → Hub V ι → List (QueueAction (ι × Bool) Bytes)
  | .connect _ _ _,_ => []
  | .call i isServer op,h =>
    match h.view i with
    | none => []
    | some d => (d.visible (isServer,op)).map (.map (Prod.mk i))

def inTransit (h : Hub V ι) (k : ι × Bool) : List Bytes :=
  match h.link k.1 with
  | none => []
  | some d => d.inTransit k.2

/-- A connection of two honest sides in step, with the group `groupId`. -/
def InStep (T : TwoParty M) (groupId : GroupId) (d : Duplex V) : Prop :=
  ∃ σ P, T.groupId σ = groupId ∧ T.Honest σ P ∧ P.serde = V.serde ∧ d.Lockstep T σ P

/-- All connections are in step, each with a group of its own. The groups that have not been drawn are
those of the database at the beginning. -/
structure Inv (T : TwoParty M) (c₀ : Connection M) (ids : ι → GroupId) (h : Hub V ι) : Prop where
  link : ∀ i, ∀ d ∈ h.view i, InStep T (ids i) d ∧ ids i ∈ h.drawn
  apart : ∀ i j, (h.view i).isSome → (h.view j).isSome → ids i = ids j → i = j
  others : ∀ j, j ∉ h.drawn → h.connection.groups j = c₀.groups j

variable {h : Hub V ι} {T : TwoParty M} {c₀ : Connection M} {ids : ι → GroupId} {i : ι}
  {d : Duplex V}

lemma view_set (h : Hub V ι) (i : ι) (drawn : List GroupId) (d : Duplex V) :
    (h.set i drawn d).view i = some d := by
  simp only [view,set,Function.update_self,Option.map_some,Duplex.lend_database]

lemma view_set_of_ne (h : Hub V ι) {i j : ι} (hj : j ≠ i) (drawn : List GroupId) (d : Duplex V) :
    (h.set i drawn d).view j = (h.view j).map (·.lend d.database) := by
  simp only [view,set,Function.update_of_ne hj,Option.map_map]
  exact congrArg (Option.map · _) (funext fun d' => (Duplex.lend_lend d' _ _).symm)

omit [DecidableEq ι] in
lemma view_database (hd : d ∈ h.view i) : d.database = h.connection := by
  obtain ⟨d',-,rfl⟩ := Option.map_eq_some_iff.mp hd
  rfl

lemma InStep.lend {groupId : GroupId} (hstep : InStep T groupId d) {c : Connection M}
    (hc : c.groups groupId = d.database.groups groupId) : InStep T groupId (d.lend c) := by
  obtain ⟨σ,P,rfl,hP,hJ,hlock⟩ := hstep
  exact ⟨σ,P,rfl,hP,hJ,hlock.lend hc⟩

lemma Inv.set (hinv : h.Inv T c₀ ids) {groupId : GroupId} {drawn : List GroupId}
    (hstep : InStep T groupId d) (hmem : groupId ∈ drawn) (hdrawn : h.drawn ⊆ drawn)
    (hframe : ∀ j, j ≠ groupId → d.database.groups j = h.connection.groups j)
    (hapart : ∀ j, j ≠ i → (h.view j).isSome → ids j ≠ groupId) :
    (h.set i drawn d).Inv T c₀ (Function.update ids i groupId) := by
  have hsome {j : ι} (hj : j ≠ i) (hview : ((h.set i drawn d).view j).isSome) :
      (h.view j).isSome := by
    rwa [view_set_of_ne h hj,Option.isSome_map] at hview
  refine ⟨fun j d' hd' => ?_,fun j k hj hk hids => ?_,fun j hj => ?_⟩
  · by_cases hji : j = i
    · rw [hji,view_set] at hd'
      obtain rfl := Option.some.inj hd'
      rw [hji,Function.update_self]
      exact ⟨hstep,hmem⟩
    · rw [view_set_of_ne h hji] at hd'
      obtain ⟨d'',hview,rfl⟩ := Option.map_eq_some_iff.mp hd'
      obtain ⟨hstep'',hmem''⟩ := hinv.link j d'' hview
      rw [Function.update_of_ne hji]
      refine ⟨hstep''.lend ?_,hdrawn hmem''⟩
      rw [view_database hview]
      exact hframe _ (hapart j hji (by rw [hview]; rfl))
  · by_cases hji : j = i
    · by_cases hki : k = i
      · rw [hji,hki]
      · rw [hji,Function.update_self,Function.update_of_ne hki] at hids
        exact absurd hids.symm (hapart k hki (hsome hki hk))
    · by_cases hki : k = i
      · rw [hki,Function.update_self,Function.update_of_ne hji] at hids
        exact absurd hids (hapart j hji (hsome hji hj))
      · rw [Function.update_of_ne hji,Function.update_of_ne hki] at hids
        exact hinv.apart j k (hsome hji hj) (hsome hki hk) hids
  · have hne : j ≠ groupId := fun hj' => hj (hj' ▸ hmem)
    exact (hframe j hne).trans (hinv.others j fun hj' => hj (hdrawn hj'))

lemma greeted_frame (hM : KeepsIds M) {P : Parties M} {groupId : GroupId} {c c' : Connection M}
    (hfiled : ∀ g, c.groups groupId = .ok (some g) → M.groupId g = groupId)
    (hgreeted : Greeted P groupId c c') {j : GroupId} (hj : j ≠ groupId) :
    c'.groups j = c.groups j := by
  obtain ⟨hello,message,clientHello,seed,r,hdec,hpayload,hrun⟩ := hgreeted
  have hnamed : ServerHandshake.named (M := M) hello groupId ⊆ {groupId} := by
    rintro k ⟨message',hdec',hk⟩
    obtain rfl := Option.some.inj (hdec.symm.trans hdec')
    rw [hpayload] at hk
    exact hk
  have hin : FiledIn ((Connection.part M {groupId}).view c) := by
    rintro ⟨k,rfl⟩ g hg
    exact hfiled g hg
  have hstart := ServerHandshake.start_inPart hM P.serverSigner hnamed seed
  have hout (t : Stored M {groupId}) (c : Connection M) :
      ((Connection.part M {groupId}).put t c).groups j = c.groups j :=
    Connection.replace_groups_of_notMem t c hj
  have hframe := hstart.frame (w := fun c => c.groups j) hout hin
  rw [hrun] at hframe
  exact hframe

lemma inTransit_set (h : Hub V ι) (i : ι) (drawn : List GroupId) (d : Duplex V) (k : ι × Bool) :
    (h.set i drawn d).inTransit k = if k.1 = i then d.inTransit k.2 else h.inTransit k := by
  simp only [inTransit,set]
  split_ifs with hk
  · rw [hk,Function.update_self]
  · rw [Function.update_of_ne hk]

omit [DecidableEq ι] in
lemma inTransit_view (hd : d ∈ h.view i) : h.inTransit ∘ Prod.mk i = d.inTransit := by
  obtain ⟨d',hlink,rfl⟩ := Option.map_eq_some_iff.mp hd
  rw [Duplex.lend_inTransit]
  funext b
  simp only [Function.comp_apply,inTransit,hlink]

section
variable (hM : KeepsIds M) (hC : V.crypto.Lawful) (hT : T.Lawful) (hJ : V.serde.Lawful)
include hM hC hT

lemma Inv.call (hinv : h.Inv T c₀ ids) {b : Bool} {op : Operation V} (hd : d ∈ h.view i)
    (hroom : d.Room (b,op)) : (h.set i h.drawn (d.step (b,op))).Inv T c₀ ids := by
  obtain ⟨⟨σ,P,hid,hP,hserde,hlock⟩,hmem⟩ := hinv.link i d hd
  have hstep : InStep T (ids i) (d.step (b,op)) :=
    ⟨σ,P,hid,hP,hserde,(hlock.exec hC hT hP hserde hroom).2⟩
  have hset := hinv.set (i := i) hstep hmem (fun _ hj => hj) (fun j hj => ?_) fun j hj hview => ?_
  · rwa [Function.update_eq_self] at hset
  · rw [← hid] at hj
    rw [hlock.frame hM hC hT hP hserde hroom hj,view_database hd]
  · exact fun hids => hj (hinv.apart j i hview (by rw [Option.mem_def.mp hd]; rfl) hids)

include hJ in
lemma Inv.connect (hinv : h.Inv T c₀ ids) (hX : X.Lawful) (hc₀ : Roster.Filed c₀) {Q : Peers V}
    {opening : Opening X} (hfresh : Q.groupId ∉ h.drawn) (hd : h.accept Q opening = some d) :
    (h.set i (Q.groupId::h.drawn) d).Inv T c₀ (Function.update ids i Q.groupId) ∧
      d.inTransit = fun _ => [] := by
  obtain ⟨hgreeted,σ,hid,hP,hrest⟩ := Peers.connect_atRest hC hT hJ hX hd
  refine ⟨hinv.set ⟨σ,_,hid,hP,rfl,hrest.lockstep⟩ List.mem_cons_self
    (fun _ hj => List.mem_cons_of_mem _ hj) (fun j hj => ?_) (fun j hj hview hids => ?_),?_⟩
  · refine greeted_frame hM (fun g hg => ?_) hgreeted hj
    exact hc₀ _ g ((hinv.others _ hfresh).symm.trans hg)
  · obtain ⟨d',hd'⟩ := Option.isSome_iff_exists.mp hview
    exact hfresh (hids ▸ (hinv.link j d' hd').2)
  · exact funext fun b => congrArg payloads (hrest.lockstep.inFlight_drained hC hrest.drained b)

include hJ in
/-- A server with any number of clients refines a family of queues, two for each connection. -/
theorem refines_queues (hX : X.Lawful) (hc₀ : Roster.Filed c₀) :
    Run.Refines (step (X := X)) Room visible (fun h : Hub V ι => ∃ ids, h.Inv T c₀ ids)
      QueueAction.act inTransit where
  keeps := by
    rintro e h ⟨ids,hinv⟩ hroom
    cases e with
    | connect i Q opening =>
      obtain ⟨-,hfresh,haccept⟩ := hroom
      obtain ⟨d,hd⟩ := Option.isSome_iff_exists.mp haccept
      simp only [step,hd]
      exact ⟨_,(hinv.connect hM hC hT hJ hX hc₀ hfresh hd).1⟩
    | call i b op =>
      simp only [step]
      split
      · exact ⟨ids,hinv⟩
      · rename_i d hd
        exact ⟨ids,hinv.call hM hC hT hd (hroom d hd)⟩
  simulates := by
    rintro e h ⟨ids,hinv⟩ hroom
    cases e with
    | connect i Q opening =>
      obtain ⟨hnone,hfresh,haccept⟩ := hroom
      obtain ⟨d,hd⟩ := Option.isSome_iff_exists.mp haccept
      have hnothing := (hinv.connect (i := i) hM hC hT hJ hX hc₀ hfresh hd).2
      simp only [visible,step,hd,List.foldlM_nil]
      refine congrArg some (funext fun k => ?_)
      rw [inTransit_set]
      split_ifs with hk
      · rw [hnothing,inTransit,hk,hnone]
      · rfl
    | call i b op =>
      simp only [visible,step]
      split
      · rfl
      · rename_i d hd
        obtain ⟨⟨σ,P,hid,hP,hserde,hlock⟩,-⟩ := hinv.link i d hd
        have hact := (Duplex.refines_queues hC hT hP hserde).simulates hlock (hroom d hd)
        obtain ⟨r,hr,hmine,hothers⟩ := QueueAction.acts_map (Prod.mk_right_injective i) hact
          (inTransit_view hd)
        rw [hr]
        refine congrArg some (funext fun k => ?_)
        rw [inTransit_set]
        split_ifs with hk
        · obtain ⟨j,b'⟩ := k
          obtain rfl : j = i := hk
          exact congrFun hmine b'
        · exact hothers k fun b' hb' => hk (by rw [← hb'])

include hJ in
/-- A server with any number of honest clients, which connect at any time and all have their groups in
its one database: in every run, on every connection, each read returns the first payload of the other
side that was not returned before, no call returns an error, and once nothing is in flight both sides
are in step. Groups that have not been drawn for a connection stay as they were. -/
theorem payloads_delivered_on_all_connections (hX : X.Lawful) (hc₀ : Roster.Filed c₀)
    {z : Hub V ι × List (QueueAction (ι × Bool) Bytes)}
    (hrun : Run (Run.record (step (X := X)) visible) (fun e z => Room e z.1)
      (⟨c₀,[],fun _ => none⟩,[]) z) :
    (∀ k, QueueAction.puts k z.2 = QueueAction.takes k z.2++z.1.inTransit k) ∧
    (∀ i, ∀ d ∈ z.1.view i, (∀ b op, d.Room (b,op) → d.Returns b op) ∧
      (d.Drained → (∀ b, QueueAction.takes (i,b) z.2 = QueueAction.puts (i,b) z.2) ∧
        ∃ groupId ∈ z.1.drawn, d.InStep groupId)) ∧
    ∀ j, j ∉ z.1.drawn → z.1.connection.groups j = c₀.groups j := by
  have hstart : (⟨c₀,[],fun _ => none⟩ : Hub V ι).Inv T c₀ fun _ => [] :=
    ⟨by simp [view],by simp [view],fun _ _ => rfl⟩
  obtain ⟨⟨ids,hinv⟩,hact⟩ := (refines_queues hM hC hT hJ hX hc₀).run hrun ⟨_,hstart⟩ rfl
  have hbalance := QueueAction.balance hact
  refine ⟨hbalance,fun i d hd => ?_,hinv.others⟩
  obtain ⟨⟨σ,P,hid,hP,hserde,hlock⟩,hmem⟩ := hinv.link i d hd
  refine ⟨fun b op hroom => (hlock.exec hC hT hP hserde hroom).1,fun hdrained => ⟨fun b => ?_,?_⟩⟩
  · have hnothing : z.1.inTransit (i,b) = [] := by
      rw [show z.1.inTransit (i,b) = d.inTransit b from congrFun (inTransit_view hd) b]
      exact congrArg payloads (hlock.inFlight_drained hC hdrained b)
    have hb := hbalance (i,b)
    rw [hnothing,List.append_nil] at hb
    exact hb.symm
  · rw [← hid] at hmem
    exact ⟨_,hmem,hlock.inStep hT hdrained⟩

end

end Hub

namespace Sample

/-- Another client of the same server. -/
def otherPeers : Peers environment := { peers with clientId := [4], groupId := [10], clientSeed := 1 }

/-- The second client connects while something is on its way on the first connection. Both servers
update. -/
def hubEvents : List (HubEvent environment x25519 ℕ) :=
  [.connect 0 peers opening,.call 0 false (.sendBytes [7] (1 : ℕ)),.connect 1 otherPeers .unprotected,
    .call 1 true (.sendBytes [8] (6 : ℕ)),.call 0 true (.sendBytes [9] (6 : ℕ)),
    .call 0 false (.arrive 300),.call 1 true (.arrive 400),.call 1 false (.readBytes 4),
    .call 0 true (.readBytes 3),.call 0 true (.arrive 400),.call 0 false (.readBytes 4),
    .call 0 false (.readBytes 4)]

def hub : Hub environment ℕ × List (QueueAction (ℕ × Bool) Bytes) :=
  hubEvents.foldl (fun z e => Run.record Hub.step Hub.visible e z) (⟨sampleDb,[],fun _ => none⟩,[])

theorem hub_linked : (hub.1.view 0).isSome = true := by decide +kernel

end Sample

theorem Hub.payloads_delivered_on_all_connections_sample :
    Sample.hub.2 = [.put (0,false) [7],.put (1,true) [8],.put (0,true) [9],.take (1,true) [8],
      .take (0,false) [7],.take (0,true) [9]] ∧
    ∃ groupId ∈ Sample.hub.1.drawn, ((Sample.hub.1.view 0).get Sample.hub_linked).InStep groupId := by
  have hrun : Run (Run.record Hub.step Hub.visible) (fun e z => Hub.Room e z.1)
      (⟨sampleDb,[],fun _ => none⟩,[]) Sample.hub := Run.ofList (by decide +kernel)
  have hdrained : ((Sample.hub.1.view 0).get Sample.hub_linked).Drained := by
    constructor <;> intro b <;> cases b <;> decide +kernel
  have hfiled : Roster.Filed sampleDb := by
    intro j g hg
    simp [sampleDb] at hg
  obtain ⟨-,hlinks,-⟩ := Hub.payloads_delivered_on_all_connections sampleMls_keepsIds
    sampleCrypto_lawful sampleTwoParty_lawful sampleSerde_lawful Sample.x25519_lawful hfiled hrun
  exact ⟨by decide +kernel,
    ((hlinks 0 _ (Option.some_get Sample.hub_linked).symm).2 hdrained).2⟩

end MlsTls.EncryptionProvider
