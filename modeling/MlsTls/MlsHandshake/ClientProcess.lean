import MlsTls.MlsHandshake.Profiles
import MlsTls.MlsHandshake.ServerHost

/-! A client process: any number of profiles and connections on one database, with attempts to
connect, calls on the handshakes and deletions in any order. The database goes with a directory of
profiles and groups, and what one profile does leaves the others alone. -/
set_option linter.dupNamespace false

namespace MlsTls.MlsHandshake
open Lib TlsAead
variable {M : OpenMls}

/-- The group that the client joins with the message of the server, if it joins any. -/
def WaitingForServerHello.joined (waiting : WaitingForServerHello) (messageBytes : Bytes)
    (c : Connection M) : Option M.Group := do
  let serverHello ← (ServerHelloIn.wire M).decExact messageBytes
  match M.extract serverHello.welcome with
  | .welcome welcome => do
    let (stagedWelcome,_) ← (M.newFromWelcome c.keyPackages welcome).toOption
    let sender ← (M.welcomeSender stagedWelcome).toOption
    if sender.signatureKey ≠ waiting.serverVerifyingKey then none
    else (M.intoGroup stagedWelcome).toOption
  | _ => none

/-- What the calls on the database fail with when rows and groups do not fit together. -/
def HandshakeError.ofDatabase {E : Type} : HandshakeError E → Bool
  | .providerError _ => true
  | .invalidSessionId => true
  | .persistenceError _ => true
  | _ => false

def MlsHandshakeError.ofDatabase {E : Type} : MlsHandshakeError E → Bool
  | .handshakeError e => e.ofDatabase
  | .persistence _ => true
  | _ => false

section
variable {c : Connection M}

lemma WaitingForServerHello.receiveServerHello_cases (waiting : WaitingForServerHello)
    (messageBytes : Bytes) (c : Connection M) :
    (∃ e keyPackages, e.ofDatabase = false ∧ (waiting.receiveServerHello messageBytes).run c =
        (.error (.error e),{ c with keyPackages := keyPackages })) ∨
      ∃ g keyPackages, waiting.joined messageBytes c = some g ∧
        ((∃ secrets, (waiting.receiveServerHello messageBytes).run c =
            (.ok (⟨waiting.profileId,⟨M.groupId g,M.epoch g⟩,.running⟩,secrets),
              ({ c with keyPackages := keyPackages } : Connection M).saveGroup g)) ∨
          ∀ secrets, ¬MlsSession.Exports g secrets) := by
  unfold receiveServerHello joined
  cases hdec : (ServerHelloIn.wire M).decExact messageBytes with
  | none =>
    refine Or.inl ⟨.codecError,c.keyPackages,rfl,?_⟩
    simp only [deserializeExact,hdec,Exec.bind_run,Exec.orThrow_none]
  | some hello =>
    simp only [deserializeExact,hdec,Exec.bind_run,Exec.orThrow_some,Option.bind_eq_bind,
      Option.bind_some]
    cases hw : M.extract hello.welcome with
    | welcome welcome =>
      simp only [Exec.bind_run,Exec.get_run]
      cases hstaged : M.newFromWelcome c.keyPackages welcome with
      | error e => exact Or.inl ⟨.serverHelloError,c.keyPackages,rfl,rfl⟩
      | ok r =>
        obtain ⟨staged,keyPackages⟩ := r
        simp only [Exec.lift_ok,Exec.modify_run,Except.toOption,Option.bind_some]
        cases hsender : M.welcomeSender staged with
        | error e => exact Or.inl ⟨.verificationError .libraryError,keyPackages,rfl,rfl⟩
        | ok sender =>
          simp only [Exec.lift_ok,Option.bind_some]
          split_ifs with hkey
          · exact Or.inl ⟨.verificationError .unexpectedVerifyingKey,keyPackages,rfl,rfl⟩
          · simp only [Exec.bind_run]
            cases hgroup : M.intoGroup staged with
            | error e => exact Or.inl ⟨.serverHelloError,keyPackages,rfl,rfl⟩
            | ok g =>
              refine Or.inr ⟨g,keyPackages,rfl,?_⟩
              simp only [Exec.lift_ok,Exec.modify_run]
              rcases MlsSession.exportTrafficSecrets_cases g
                (({ c with keyPackages := keyPackages } : Connection M).saveGroup g) with
                ⟨secrets,-,hrun⟩ | ⟨hno,-⟩
              · exact Or.inl ⟨secrets,by rw [hrun]; rfl⟩
              · exact Or.inr hno
    | privateMessage m => exact Or.inl ⟨.unexpectedMessage _ _,c.keyPackages,rfl,rfl⟩
    | keyPackage k => exact Or.inl ⟨.unexpectedMessage _ _,c.keyPackages,rfl,rfl⟩
    | other => exact Or.inl ⟨.unexpectedMessage _ _,c.keyPackages,rfl,rfl⟩

lemma ClientHandshake.start_cases (leafSigner : M.SignatureKeyPair) (serverVerifyingKey : Bytes)
    (clientId : Uuid) (seed : ℕ) (c : Connection M) :
    ∃ r keyPackages, (ClientHandshake.start leafSigner serverVerifyingKey clientId seed).run c =
        (r,{ c with keyPackages := keyPackages }) ∧
      match r with
      | .ok (waiting,_) => waiting = ⟨clientId,serverVerifyingKey⟩
      | .error f => ∃ e, f = .error e ∧ e.ofDatabase = false := by
  simp only [ClientHandshake.start,serialize,Exec.bind_run]
  cases hbundle : M.buildKeyPackage leafSigner (.basic clientId) seed with
  | error e => exact ⟨_,c.keyPackages,rfl,_,rfl,rfl⟩
  | ok bundle =>
    simp only [Exec.lift_ok,Exec.modify_run]
    rcases (MlsTlsHandshakeOut.wire M).enc (.fromPayload
      (.clientHello ⟨M.keyPackageMessage (M.keyPackage bundle)⟩)) with _ | bytes
    · exact ⟨_,_,rfl,_,rfl,rfl⟩
    · exact ⟨_,_,rfl,rfl⟩

end

open ClientHandshakeState (Lists Departs Spares)

namespace MlsHandshake
variable {σ : Type} (tr : Transport σ) (J : Serde M)

/-- `client_handshake`; what the network does while the client waits is any function. The client
keeps the database to itself all the time. -/
def clientHandshake (clientId : Uuid) (serverVerifyingKey : Bytes) (seed : ℕ) (network : σ → σ) :
    Setup M σ (Option TrafficSecrets) := do
  let waiting ← clientHandshakeStart tr J clientId serverVerifyingKey seed
  Exec.modify fun s => (s.1,network s.2)
  clientHandshakeFinish tr J waiting

/-- The message that a waiting client is given, if there is any. -/
def arriving (t : σ) : Option Bytes :=
  match (tr.next.run t).1 with
  | .ok (some packet) => some packet.data
  | _ => none

variable {tr J} {D : Directory Uuid GroupId} {h : MlsHandshake M} {t : σ} {α : Type}

lemma own_db_ok {x : Db M α} {a : α} {c : Connection M} (hx : x.run h.connection = (.ok a,c)) :
    (own (db x)).run (h,t) = (.ok a,({ h with connection := c },t)) := by
  simp only [own,db,Exec.zoom_run,Exec.mapError,hx]

lemma own_db_error {x : Db M α} {e : HandshakeError M.Error} {c : Connection M}
    (hx : x.run h.connection = (.error (.error e),c)) :
    (own (db x)).run (h,t) =
      (.error (.error (.handshakeError e)),({ h with connection := c },t)) := by
  simp only [own,db,Exec.zoom_run,Exec.mapError,hx]

variable (tr) in
lemma clientHandshakeStart_departs (hD : Lists J D h.connection) (clientId : Uuid)
    (serverVerifyingKey : Bytes) (seed : ℕ) (t : σ) :
    ∃ r c t', (clientHandshakeStart tr J clientId serverVerifyingKey seed).run (h,t) =
        (r,({ h with connection := c },t')) ∧ Departs J D clientId h.connection c ∧
      match r with
      | .ok waiting => waiting = ⟨clientId,serverVerifyingKey⟩
      | .error (.error e) => e.ofDatabase = false
      | .error .panic => True := by
  -- up to where it waits, the client has made room for its profile, whatever it fails with
  obtain ⟨c₂,hcleanup,hdeparts⟩ := hD.cleanup clientId
  obtain ⟨⟨⟩,c₁,htable,hdelete⟩ := Exec.bind_eq_ok.mp hcleanup
  rw [clientHandshakeStart,Exec.bind_of_ok (own_db_ok htable)]
  rw [Exec.bind_of_ok (own_db_ok (h := { h with connection := c₁ }) hdelete)]
  rw [Exec.bind_of_ok (Exec.get_run _)]
  obtain ⟨r,keyPackages,hstart,hr⟩ :=
    ClientHandshake.start_cases h.leafSigner serverVerifyingKey clientId seed c₂
  have hdeparts' := hdeparts.keyPackages keyPackages
  cases r with
  | error f =>
    obtain ⟨e,rfl,he⟩ := hr
    rw [Exec.bind_run,own_db_error (h := { h with connection := c₂ }) hstart]
    exact ⟨_,_,_,rfl,hdeparts',he⟩
  | ok r =>
    obtain ⟨waiting,clientHello⟩ := r
    rw [Exec.bind_of_ok (own_db_ok (h := { h with connection := c₂ }) hstart)]
    simp only [Exec.bind_run,sendFirst,Exec.zoom_run,Exec.mapError]
    rcases (tr.send clientHello).run t with ⟨(e | _) | u,t'⟩
    · exact ⟨_,_,_,rfl,hdeparts',rfl⟩
    · exact ⟨_,_,_,rfl,hdeparts',trivial⟩
    · exact ⟨_,_,_,rfl,hdeparts',hr⟩

/-- The group that is joined is a new one, and it exports the secrets of the connection. -/
structure Joinable (fresh : GroupId → Prop) (g : M.Group) (c : Connection M) : Prop where
  fresh : fresh (M.groupId g)
  unused : ¬ClientHandshakeState.Stored (M.groupId g) c
  exports : ∃ secrets, MlsSession.Exports g secrets

/-- What the attempt leaves behind: either the profile has left and nothing else has happened, or it
has entered with the group that it has joined. -/
inductive Attempted (J : Serde M) (D : Directory Uuid GroupId) (fresh : GroupId → Prop) (p : Uuid)
    (c₀ : Connection M) : Outcome (MlsHandshakeError M.Error) (Option TrafficSecrets) ×
      MlsHandshake M → Prop
  | failed {r : Outcome (MlsHandshakeError M.Error) (Option TrafficSecrets)} {h : MlsHandshake M}
      (hdeparts : Departs J D p c₀ h.connection) (hr : ∀ secrets, r ≠ .ok (some secrets))
      (hdb : ∀ e, r = .error (.error e) → e.ofDatabase = false) : Attempted J D fresh p c₀ (r,h)
  | joined {g : M.Group} {secrets : TrafficSecrets} {h : MlsHandshake M}
      (hstate : h.state = .client ⟨p,⟨M.groupId g,M.epoch g⟩,.running⟩)
      (hfresh : fresh (M.groupId g)) (hfree : (D.leave p).Free p (M.groupId g))
      (hlists : Lists J ((D.leave p).enter p (M.groupId g) hfree) h.connection)
      (htable : HasTable h.connection) (hothers : ∀ q, q ≠ p → Spares D q c₀ h.connection) :
    Attempted J D fresh p c₀ (.ok (some secrets),h)

lemma clientHandshakeFinish_attempted (hJ : J.Lawful) {fresh : GroupId → Prop} {p : Uuid}
    {c₀ : Connection M}
    (hdeparts : Departs J D p c₀ h.connection) {waiting : WaitingForServerHello}
    (hp : waiting.profileId = p) (hjoin : ∀ b g, arriving tr t = some b →
      waiting.joined b h.connection = some g → Joinable fresh g h.connection) :
    Attempted J D fresh p c₀ (((clientHandshakeFinish tr J waiting).run (h,t)).1,
      ((clientHandshakeFinish tr J waiting).run (h,t)).2.1) := by
  simp only [clientHandshakeFinish,nextFirst,Exec.bind_run,Exec.zoom_run,Exec.mapError]
  unfold arriving at hjoin
  rcases hnext : tr.next.run t with ⟨(e | _) | _ | packet,t'⟩
  · exact .failed hdeparts (by simp) (by simp [MlsHandshakeError.ofDatabase])
  · exact .failed hdeparts (by simp) (by simp)
  · exact .failed hdeparts (by simp) (by simp)
  · rw [hnext] at hjoin
    simp only [Exec.bind_run]
    rcases waiting.receiveServerHello_cases packet.data h.connection with
      ⟨e,keyPackages,he,hrun⟩ | ⟨g,keyPackages,hg,hrun⟩
    · rw [own_db_error hrun]
      exact .failed (hdeparts.keyPackages keyPackages) (by simp)
        (by simpa [MlsHandshakeError.ofDatabase] using he)
    · obtain ⟨hfresh,hunused,secrets,hexports⟩ := hjoin packet.data g rfl hg
      obtain ⟨secrets',hrun⟩ := hrun.resolve_right fun hno => hno secrets hexports
      have hfree := hdeparts.lists.free_leave hunused
      have hdeparts' := hdeparts.keyPackages keyPackages
      subst hp
      have hg : (⟨waiting.profileId,⟨M.groupId g,M.epoch g⟩,.running⟩ :
        ClientHandshakeState M).mlsSession.groupId = M.groupId g := rfl
      obtain ⟨c',hstore,hlists',htable,hothers⟩ :=
        hdeparts'.lists.enter hJ hdeparts'.table hg hfree
      generalize ({ h.connection with keyPackages := keyPackages } : Connection M).saveGroup g = c₁
        at hrun hstore
      rw [own_db_ok hrun]
      dsimp only
      rw [own_db_ok (h := { h with connection := c₁ }) hstore]
      refine .joined rfl hfresh hfree hlists' htable fun q hq => ?_
      have hleave : ∀ j, (q,j) ∈ D.entries → (q,j) ∈ (D.leave waiting.profileId).entries :=
        fun j => (Directory.mem_leave_of_ne hq).mpr
      exact (hdeparts'.others q hq).trans hleave (hothers q hq)

/-- The whole of `client_handshake`, on a database that is a directory. -/
theorem clientHandshake_attempted (hJ : J.Lawful) (hD : Lists J D h.connection)
    {fresh : GroupId → Prop} (clientId : Uuid) (serverVerifyingKey : Bytes) (seed : ℕ)
    (network : σ → σ) (t : σ)
    (hjoin : ∀ waiting h' t' b g,
      (clientHandshakeStart tr J clientId serverVerifyingKey seed).run (h,t) = (.ok waiting,(h',t')) →
        arriving tr (network t') = some b → waiting.joined b h'.connection = some g →
          Joinable fresh g h'.connection) :
    Attempted J D fresh clientId h.connection
      (((clientHandshake tr J clientId serverVerifyingKey seed network).run (h,t)).1,
        ((clientHandshake tr J clientId serverVerifyingKey seed network).run (h,t)).2.1) := by
  obtain ⟨r,c,t',hrun,hdeparts,hr⟩ :=
    clientHandshakeStart_departs tr hD clientId serverVerifyingKey seed t
  simp only [clientHandshake,Exec.bind_run,hrun]
  rcases r with (e | _) | waiting
  · exact .failed hdeparts (by simp) (by simpa using hr)
  · exact .failed hdeparts (by simp) (by simp)
  · simp only [Exec.modify_run]
    refine clientHandshakeFinish_attempted (h := { h with connection := c }) hJ hdeparts ?_ ?_
    · rw [hr]
    · exact fun b g hb hg => hjoin waiting _ t' b g hrun hb hg

/-- The profile and the group of a client's session. -/
def entry (h : MlsHandshake M) : Option (Uuid × GroupId) :=
  match h.state with
  | .client state => some (state.profileId,state.mlsSession.groupId)
  | _ => none

lemma updateHandshake_client {st : ClientHandshakeState M} (hst : h.state = .client st) (seed : ℕ) :
    ((updateHandshake J seed).run h).2 = { h with
      state := .client
        ((ClientHandshakeState.update J h.leafSigner false seed).run (st,h.connection)).2.1
      connection :=
        ((ClientHandshakeState.update J h.leafSigner false seed).run (st,h.connection)).2.2 } := by
  simp only [updateHandshake,Exec.bind_run,Exec.get_run,hst,client,Exec.zoom_run,Exec.mapError]
  rcases (ClientHandshakeState.update J h.leafSigner false seed).run (st,h.connection) with
    ⟨(e | _) | r,s⟩ <;> rfl

lemma processSignalingMessage_client {st : ClientHandshakeState M} (hst : h.state = .client st)
    (messageBytes : Bytes) (seed : ℕ) :
    ((processSignalingMessage J messageBytes seed).run h).2 = { h with
      state := .client ((ClientHandshakeState.receiveSignalingMessage J h.leafSigner messageBytes
        seed).run (st,h.connection)).2.1
      connection := ((ClientHandshakeState.receiveSignalingMessage J h.leafSigner messageBytes
        seed).run (st,h.connection)).2.2 } := by
  simp only [processSignalingMessage,Exec.bind_run,Exec.get_run,hst,client,Exec.zoom_run,
    Exec.mapError]
  rcases (ClientHandshakeState.receiveSignalingMessage J h.leafSigner messageBytes seed).run
    (st,h.connection) with ⟨(e | _) | r,s⟩ <;> rfl

lemma delete_client {st : ClientHandshakeState M} (hst : h.state = .client st) {c : Connection M}
    (hrun : (ClientHandshakeState.delete J st.profileId).run h.connection = (.ok (),c)) :
    (delete J).run h = (.ok (),{ h with connection := c }) := by
  simp only [delete,Exec.bind_run,Exec.get_run,hst,db,Exec.zoom_run,Exec.mapError,hrun]

end MlsHandshake

/-- A client: its database, and the handshakes of all its connections, those included whose profile
has a newer one. -/
structure ClientProcess (M : OpenMls) where
  connection : Connection M
  handshakes : List (MlsHandshake M)

namespace ClientProcess
variable {σ α : Type}

/-- The arguments of `client_handshake`, the transport and the network. -/
structure Attempt (M : OpenMls) (σ : Type) where
  leafSigner : M.SignatureKeyPair
  clientId : Uuid
  serverVerifyingKey : Bytes
  seed : ℕ
  transport : σ
  network : σ → σ

inductive Event (M : OpenMls) (σ : Type)
  | connect (attempt : Attempt M σ)
  | updateHandshake (i : ℕ) (seed : ℕ)
  | processSignalingMessage (i : ℕ) (messageBytes : Bytes) (seed : ℕ)
  | delete (i : ℕ)

/-- The handshake finds the database as the last call has left it. -/
def lend (x : ClientProcess M) (h : MlsHandshake M) : MlsHandshake M :=
  { h with connection := x.connection }

/-- A call on one of the handshakes. -/
def on (x : ClientProcess M) (i : ℕ) (call : MlsHandshake.Call M α) : ClientProcess M :=
  match x.handshakes[i]? with
  | none => x
  | some h =>
    let h' := (call.run (x.lend h)).2
    ⟨h'.connection,x.handshakes.set i h'⟩

section
variable (tr : Transport σ) (J : Serde M)

/-- `handshake` of the provider makes a new handshake for every connection. -/
def Attempt.run (a : Attempt M σ) (x : ClientProcess M) :
    Outcome (MlsHandshakeError M.Error) (Option TrafficSecrets) × MlsHandshake M :=
  let r := (MlsHandshake.clientHandshake tr J a.clientId a.serverVerifyingKey a.seed a.network).run
    (MlsHandshake.new x.connection a.leafSigner,a.transport)
  (r.1,r.2.1)

/-- The handshake of a connection that has come about. -/
def established (r : Outcome (MlsHandshakeError M.Error) (Option TrafficSecrets) × MlsHandshake M) :
    Option (MlsHandshake M) :=
  match r.1 with
  | .ok (some _) => some r.2
  | _ => none

def step : Event M σ → ClientProcess M → ClientProcess M
  | .connect a,x =>
    let r := a.run tr J x
    ⟨r.2.connection,x.handshakes++(established r).toList⟩
  | .updateHandshake i seed,x => x.on i (MlsHandshake.updateHandshake J seed)
  | .processSignalingMessage i messageBytes seed,x =>
    x.on i (MlsHandshake.processSignalingMessage J messageBytes seed)
  | .delete i,x => x.on i (MlsHandshake.delete J)

/-- The profile whose connection it is. -/
def Event.profile (x : ClientProcess M) : Event M σ → Option Uuid
  | .connect a => some a.clientId
  | .updateHandshake i _ | .processSignalingMessage i _ _ | .delete i =>
    (x.handshakes[i]?.bind MlsHandshake.entry).map Prod.fst

/-- What an event is in the directory: an attempt to connect lets the profile leave, and lets it
enter once the attempt has succeeded; a deletion lets it leave, whichever connection it is made on. -/
def seen (e : Event M σ) (x : ClientProcess M) : List (Directory.Action Uuid GroupId) :=
  match e with
  | .connect a => .leave a.clientId::
      ((established (a.run tr J x)).bind MlsHandshake.entry).toList.map fun e => .enter e.1 e.2
  | .delete i => (Event.profile x (.delete i : Event M σ)).toList.map .leave
  | _ => []

/-- What is asked of the other side. A group that is joined is a new one, with an id that no connection
has had. A commit is for no other group of the database than that of the connection's session. -/
def Allowed (e : Event M σ) (x : ClientProcess M) : Prop :=
  match e with
  | .connect a => ∀ waiting h t b g,
      (MlsHandshake.clientHandshakeStart tr J a.clientId a.serverVerifyingKey a.seed).run
        (MlsHandshake.new x.connection a.leafSigner,a.transport) = (.ok waiting,(h,t)) →
      MlsHandshake.arriving tr (a.network t) = some b → waiting.joined b h.connection = some g →
        MlsHandshake.Joinable (fun j => ∀ h ∈ x.handshakes, ∀ e ∈ h.entry, e.2 ≠ j) g h.connection
  | .processSignalingMessage i messageBytes _ => ∀ h ∈ x.handshakes[i]?, ∀ update,
      (SignalingMessageIn.wire M).decExact messageBytes = some (.connectionUpdate update) →
        ∀ j ∈ namedBy update.mlsCommit, ClientHandshakeState.Stored j x.connection →
          ∀ e ∈ h.entry, j = e.2
  | _ => True

end

/-- The database is that of the directory, and a connection whose group is there has the session of
its profile. -/
structure Consistent (J : Serde M) (D : Directory Uuid GroupId) (x : ClientProcess M) : Prop where
  lists : Lists J D x.connection
  table : x.handshakes ≠ [] → HasTable x.connection
  sessions : ∀ h ∈ x.handshakes, ∃ e, h.entry = some e ∧
    (ClientHandshakeState.Stored e.2 x.connection → e ∈ D.entries)

/-- The states of the profile's connections. -/
def statesOf (q : Uuid) (x : ClientProcess M) : List (MlsHandshakeState M) :=
  (x.handshakes.filter fun h => h.entry.map Prod.fst = some q).map (·.state)

section
variable {tr : Transport σ} {J : Serde M} {D D' : Directory Uuid GroupId} {x : ClientProcess M}
  {i : ℕ} {h h' : MlsHandshake M} {st : ClientHandshakeState M} {q : Uuid}

lemma entry_client (hst : h.state = .client st) :
    h.entry = some (st.profileId,st.mlsSession.groupId) := by
  rw [MlsHandshake.entry,hst]

lemma client_of_entry {e : Uuid × GroupId} (he : h.entry = some e) :
    ∃ st, h.state = .client st ∧ e = (st.profileId,st.mlsSession.groupId) := by
  unfold MlsHandshake.entry at he
  cases hst : h.state with
  | none => simp [hst] at he
  | client st =>
    rw [hst] at he
    exact ⟨st,rfl,(Option.some.inj he).symm⟩
  | server st => simp [hst] at he

lemma statesOf_set {c : Connection M} (hi : x.handshakes[i]? = some h)
    (hentry : h'.entry.map Prod.fst = h.entry.map Prod.fst) (hq : h.entry.map Prod.fst ≠ some q) :
    statesOf q ⟨c,x.handshakes.set i h'⟩ = statesOf q x := by
  -- a call on the connection of another profile is not one of this profile
  unfold statesOf
  congr 1
  obtain ⟨c₀,handshakes⟩ := x
  dsimp only at hi ⊢
  induction handshakes generalizing i with
  | nil => simp at hi
  | cons h₀ handshakes ih =>
    cases i with
    | zero =>
      obtain rfl : h₀ = h := by simpa using hi
      simp [hentry,hq]
    | succ i => simp only [List.set_cons_succ,List.filter_cons,ih (by simpa using hi)]

lemma Consistent.set (hx : x.Consistent J D) {c : Connection M} (hlists : Lists J D' c)
    (htable : HasTable c) (hD : ∀ {e}, e ∈ D.entries →
      (∃ p, (p,e.2) ∈ D'.entries) → e ∈ D'.entries)
    (hstored : ∀ j, ClientHandshakeState.Stored j c → ClientHandshakeState.Stored j x.connection)
    (hi : x.handshakes[i]? = some h) (hentry : h'.entry = h.entry) :
    Consistent J D' ⟨c,x.handshakes.set i h'⟩ := by
  refine ⟨hlists,fun _ => htable,fun h₀ hh₀ => ?_⟩
  have hold : ∃ h₁ ∈ x.handshakes, h₀.entry = h₁.entry := by
    rcases List.mem_or_eq_of_mem_set hh₀ with hmem | rfl
    · exact ⟨h₀,hmem,rfl⟩
    · exact ⟨h,List.mem_of_getElem? hi,hentry⟩
  obtain ⟨h₁,hh₁,heq⟩ := hold
  obtain ⟨e,he,hmem⟩ := hx.sessions h₁ hh₁
  refine ⟨e,heq.trans he,fun hs => hD (hmem (hstored _ hs)) ?_⟩
  exact (hlists.groups _).mp hs

lemma Consistent.client_call {α : Type} (hJ : J.Lawful) (hx : x.Consistent J D)
    (hi : x.handshakes[i]? = some h) (hst : h.state = .client st)
    {call : ClientHandshakeState.Call M α}
    (hcall : ∀ {I : Connection M → Prop},
      ClientHandshakeState.Tolerates J st.profileId st.mlsSession.groupId I →
      (∀ {c j}, I c → ClientHandshakeState.Stored j c →
        ClientHandshakeState.Stored j x.connection) →
      ClientHandshakeState.KeepsHolder st.profileId st.mlsSession.groupId I call)
    (hh' : h'.state = .client (call.run (st,x.connection)).2.1) :
    Consistent J D ⟨(call.run (st,x.connection)).2.2,x.handshakes.set i h'⟩ ∧
      ∀ q, q ≠ st.profileId → Spares D q x.connection (call.run (st,x.connection)).2.2 ∧
        statesOf q ⟨(call.run (st,x.connection)).2.2,x.handshakes.set i h'⟩ = statesOf q x := by
  have hafter {I : Connection M → Prop}
      (hI : ClientHandshakeState.Tolerates J st.profileId st.mlsSession.groupId I)
      (hI' : ∀ {c j}, I c → ClientHandshakeState.Stored j c →
        ClientHandshakeState.Stored j x.connection) (hc : I x.connection) :
      ClientHandshakeState.Holder st.profileId st.mlsSession.groupId I
        (call.run (st,x.connection)).2 := by
    have hrun := hcall hI hI' (st,x.connection) ⟨rfl,rfl,hc⟩
    generalize call.run (st,x.connection) = r at hrun ⊢
    obtain ⟨f | a,s⟩ := r
    · exact hrun
    · exact hrun
  have htable : HasTable x.connection := hx.table (List.ne_nil_of_mem (List.mem_of_getElem? hi))
  obtain ⟨e,he,hmem⟩ := hx.sessions h (List.mem_of_getElem? hi)
  obtain rfl := Option.some.inj ((entry_client hst).symm.trans he)
  have hne (q : Uuid) (hq : q ≠ st.profileId) : h.entry.map Prod.fst ≠ some q := by
    rw [he]
    simpa using Ne.symm hq
  by_cases hstored : ClientHandshakeState.Stored st.mlsSession.groupId x.connection
  · have hs := hafter (ClientHandshakeState.tolerates_of_mem (c := x.connection) hJ (hmem hstored))
      (fun hc hj => (hx.lists.groups _).mpr ((hc.1.groups _).mp hj))
      ⟨hx.lists,htable,fun _ _ => .refl⟩
    generalize call.run (st,x.connection) = r at hs hh' ⊢
    obtain ⟨r,st',c⟩ := r
    have hentry : h'.entry = h.entry := by
      rw [he,entry_client hh',hs.profileId_eq,hs.groupId_eq]
    refine ⟨hx.set hs.db.1 hs.db.2.1 (fun he _ => he) ?_ hi hentry,fun q hq => ?_⟩
    · exact fun j hj => (hx.lists.groups _).mpr ((hs.db.1.groups _).mp hj)
    · exact ⟨hs.db.2.2 q hq,statesOf_set hi (by rw [hentry]) (hne q hq)⟩
  · -- the group is gone, and the call finds nothing that it could change
    have hs := hafter (ClientHandshakeState.tolerates_of_not_stored hx.lists.filed hstored)
      (fun hc hj => hc ▸ hj) rfl
    generalize call.run (st,x.connection) = r at hs hh' ⊢
    obtain ⟨r,st',c⟩ := r
    obtain rfl : c = x.connection := hs.db
    have hentry : h'.entry = h.entry := by
      rw [he,entry_client hh',hs.profileId_eq,hs.groupId_eq]
    refine ⟨hx.set hx.lists htable (fun he _ => he) (fun _ hj => hj) hi hentry,fun q hq => ?_⟩
    exact ⟨.refl,statesOf_set hi (by rw [hentry]) (hne q hq)⟩

/-- The directory after an event of one profile, and what every other profile still has. -/
structure Follows (J : Serde M) (D : Directory Uuid GroupId)
    (actions : List (Directory.Action Uuid GroupId)) (profile : Option Uuid)
    (x x' : ClientProcess M) (D' : Directory Uuid GroupId) : Prop where
  actions_eq : actions.foldlM Directory.act D = some D'
  consistent : x'.Consistent J D'
  entries : ∀ q, profile ≠ some q → ∀ j, (q,j) ∈ D'.entries ↔ (q,j) ∈ D.entries
  spares : ∀ q, profile ≠ some q → Spares D q x.connection x'.connection
  states : ∀ q, profile ≠ some q → statesOf q x' = statesOf q x

lemma Follows.refl (hx : x.Consistent J D) (profile : Option Uuid) : Follows J D [] profile x x D :=
  ⟨rfl,hx,fun _ _ _ => Iff.rfl,fun _ _ => .refl,fun _ _ => rfl⟩

lemma Consistent.client (hx : x.Consistent J D) (hi : x.handshakes[i]? = some h) :
    ∃ st, h.state = .client st := by
  obtain ⟨e,he,-⟩ := hx.sessions h (List.mem_of_getElem? hi)
  obtain ⟨st,hst,-⟩ := client_of_entry he
  exact ⟨st,hst⟩

lemma Consistent.departs (hx : x.Consistent J D) {p : Uuid} {c : Connection M}
    (hc : ClientHandshakeState.Departs J D p x.connection c) {handshakes : List (MlsHandshake M)}
    (hmem : ∀ h ∈ handshakes, ∃ h₀ ∈ x.handshakes, h.entry = h₀.entry) :
    Consistent J (D.leave p) ⟨c,handshakes⟩ := by
  refine ⟨hc.lists,fun _ => hc.table,fun h hh => ?_⟩
  obtain ⟨h₀,hh₀,heq⟩ := hmem h hh
  obtain ⟨e,he,hsession⟩ := hx.sessions h₀ hh₀
  refine ⟨e,heq.trans he,fun hs => ?_⟩
  obtain ⟨q,hq⟩ := (hc.lists.groups _).mp hs
  obtain ⟨hq,hne⟩ := Directory.mem_leave.mp hq
  have hmem := hsession ((hx.lists.groups _).mpr ⟨q,hq⟩)
  obtain ⟨p',j⟩ := e
  obtain rfl := Directory.key_unique hq hmem
  exact Directory.mem_leave.mpr ⟨hq,hne⟩

lemma ne_of_profile {p : Uuid} (h : some p ≠ some q) : q ≠ p := fun hc => h (by rw [hc])

lemma established_eq_none
    {r : Outcome (MlsHandshakeError M.Error) (Option TrafficSecrets) × MlsHandshake M}
    (h : ∀ secrets, r.1 ≠ .ok (some secrets)) : established r = none := by
  unfold established
  split
  · rename_i secrets hr
    exact absurd hr (h secrets)
  · rfl

lemma connect_attempted (hJ : J.Lawful) (hx : x.Consistent J D) {a : Attempt M σ}
    (ha : Allowed tr J (.connect a) x) :
    MlsHandshake.Attempted J D (fun j => ∀ h ∈ x.handshakes, ∀ e ∈ h.entry, e.2 ≠ j) a.clientId
      x.connection (a.run tr J x) :=
  MlsHandshake.clientHandshake_attempted hJ hx.lists a.clientId a.serverVerifyingKey a.seed a.network
    a.transport ha

lemma connect_follows (hJ : J.Lawful) (hx : x.Consistent J D) {a : Attempt M σ}
    (ha : Allowed tr J (.connect a) x) :
    ∃ D', Follows J D (seen tr J (.connect a) x) (some a.clientId) x (step tr J (.connect a) x) D' := by
  have hattempt := connect_attempted hJ hx ha
  simp only [seen,step]
  generalize a.run tr J x = r at hattempt ⊢
  cases hattempt with
  | @failed r h hdeparts hr hdb =>
    rw [established_eq_none hr,Option.toList_none,List.append_nil]
    refine ⟨D.leave a.clientId,rfl,hx.departs hdeparts fun h₀ hh₀ => ⟨h₀,hh₀,rfl⟩,?_,?_,?_⟩
    · exact fun q hq j => Directory.mem_leave_of_ne (ne_of_profile hq)
    · exact fun q hq => hdeparts.others q (ne_of_profile hq)
    · exact fun q hq => rfl
  | @joined g secrets h hstate hfresh hfree hlists htable hothers =>
    have hentry : h.entry = some (a.clientId,M.groupId g) := entry_client hstate
    simp only [established,Option.bind_some,hentry,Option.toList_some,List.map_cons,List.map_nil]
    refine ⟨(D.leave a.clientId).enter a.clientId (M.groupId g) hfree,?_,
      ⟨hlists,fun _ => htable,fun h₀ hh₀ => ?_⟩,?_,?_,?_⟩
    · simp [Directory.act_enter hfree]
    · rcases List.mem_append.mp hh₀ with hold | hnew
      · -- a connection that there was; the group that has been joined is not its own
        obtain ⟨e,he,hmem⟩ := hx.sessions h₀ hold
        refine ⟨e,he,fun hs => ?_⟩
        obtain ⟨q,hq⟩ := (hlists.groups _).mp hs
        rcases (Directory.mem_enter hfree).mp hq with hq | ⟨-,hj⟩
        · obtain ⟨hq',-⟩ := Directory.mem_leave.mp hq
          have he' := hmem ((hx.lists.groups _).mpr ⟨q,hq'⟩)
          obtain rfl := Directory.key_unique hq' he'
          exact (Directory.mem_enter hfree).mpr (Or.inl hq)
        · exact absurd hj (hfresh h₀ hold e he)
      · rw [List.mem_singleton.mp hnew]
        exact ⟨_,hentry,fun _ => (Directory.mem_enter hfree).mpr (Or.inr ⟨rfl,rfl⟩)⟩
    · intro q hq j
      rw [Directory.mem_enter hfree,Directory.mem_leave_of_ne (ne_of_profile hq)]
      simp [ne_of_profile hq]
    · exact fun q hq => hothers q (ne_of_profile hq)
    · intro q hq
      simp [statesOf,List.filter_append,hentry,(ne_of_profile hq).symm]

lemma call_follows {β : Type} (hJ : J.Lawful) (hx : x.Consistent J D)
    (hi : x.handshakes[i]? = some h) (hst : h.state = .client st)
    {call : ClientHandshakeState.Call M α} {outer : MlsHandshake.Call M β}
    (hcall : ∀ {I : Connection M → Prop},
      ClientHandshakeState.Tolerates J st.profileId st.mlsSession.groupId I →
      (∀ {c j}, I c → ClientHandshakeState.Stored j c →
        ClientHandshakeState.Stored j x.connection) →
      ClientHandshakeState.KeepsHolder st.profileId st.mlsSession.groupId I call)
    (houter : (outer.run (x.lend h)).2 = { x.lend h with
      state := .client (call.run (st,x.connection)).2.1
      connection := (call.run (st,x.connection)).2.2 }) :
    Follows J D [] (some st.profileId) x (x.on i outer) D := by
  have hstate : (outer.run (x.lend h)).2.state = .client (call.run (st,x.connection)).2.1 := by
    rw [houter]
  obtain ⟨hconsistent,hothers⟩ := hx.client_call hJ hi hst hcall hstate
  have hon : x.on i outer =
      ⟨(call.run (st,x.connection)).2.2,x.handshakes.set i (outer.run (x.lend h)).2⟩ := by
    rw [on,hi]
    dsimp only
    rw [houter]
  rw [hon]
  exact ⟨rfl,hconsistent,fun _ _ _ => Iff.rfl,fun q hq => (hothers q (ne_of_profile hq)).1,
    fun q hq => (hothers q (ne_of_profile hq)).2⟩

lemma delete_follows (hx : x.Consistent J D) (hi : x.handshakes[i]? = some h)
    (hst : h.state = .client st) :
    Follows J D [.leave st.profileId] (some st.profileId) x (x.on i (MlsHandshake.delete J))
      (D.leave st.profileId) := by
  have htable : HasTable x.connection := hx.table (List.ne_nil_of_mem (List.mem_of_getElem? hi))
  obtain ⟨c,hrun,hdeparts⟩ := hx.lists.delete htable st.profileId
  have hdelete := MlsHandshake.delete_client (J := J) (h := x.lend h) hst hrun
  have hon : x.on i (MlsHandshake.delete J) =
      ⟨c,x.handshakes.set i { x.lend h with connection := c }⟩ := by
    rw [on,hi]
    dsimp only
    rw [hdelete]
  rw [hon]
  refine ⟨rfl,hx.departs hdeparts fun h₀ hh₀ => ?_,?_,?_,?_⟩
  · rcases List.mem_or_eq_of_mem_set hh₀ with hmem | rfl
    · exact ⟨h₀,hmem,rfl⟩
    · exact ⟨h,List.mem_of_getElem? hi,rfl⟩
  · exact fun q hq j => Directory.mem_leave_of_ne (ne_of_profile hq)
  · exact fun q hq => hdeparts.others q (ne_of_profile hq)
  · intro q hq
    refine statesOf_set hi rfl ?_
    rw [entry_client hst]
    simpa using hq

lemma profile_eq (hi : x.handshakes[i]? = some h) (hst : h.state = .client st) :
    (x.handshakes[i]?.bind MlsHandshake.entry).map Prod.fst = some st.profileId := by
  rw [hi,Option.bind_some,entry_client hst]
  rfl

/-- What one event does to the directory and to the profiles that it is not about. -/
theorem step_follows (hJ : J.Lawful) (hM : KeepsIds M) (hx : x.Consistent J D) {e : Event M σ}
    (he : Allowed tr J e x) :
    ∃ D', Follows J D (seen tr J e x) (e.profile x) x (step tr J e x) D' := by
  cases e with
  | connect a => exact connect_follows hJ hx he
  | updateHandshake i seed =>
    cases hi : x.handshakes[i]? with
    | none => exact ⟨D,by simpa only [step,on,hi] using .refl hx _⟩
    | some h =>
      obtain ⟨st,hst⟩ := hx.client hi
      refine ⟨D,?_⟩
      rw [Event.profile,profile_eq hi hst]
      exact call_follows hJ hx hi hst
        (fun hI _ => ClientHandshakeState.update_holder hM hI h.leafSigner false seed)
        (MlsHandshake.updateHandshake_client (h := x.lend h) hst seed)
  | processSignalingMessage i messageBytes seed =>
    cases hi : x.handshakes[i]? with
    | none => exact ⟨D,by simpa only [step,on,hi] using .refl hx _⟩
    | some h =>
      obtain ⟨st,hst⟩ := hx.client hi
      refine ⟨D,?_⟩
      rw [Event.profile,profile_eq hi hst]
      refine call_follows hJ hx hi hst (fun hI hstored => ?_)
        (MlsHandshake.processSignalingMessage_client (h := x.lend h) hst messageBytes seed)
      refine ClientHandshakeState.receiveSignalingMessage_holder hM hI h.leafSigner ?_ seed
      intro c hc update hupdate j hj hs
      exact he h hi update hupdate j hj (hstored hc hs) _ (entry_client hst)
  | delete i =>
    cases hi : x.handshakes[i]? with
    | none => exact ⟨D,by simpa only [step,on,hi,seen,Event.profile] using .refl hx _⟩
    | some h =>
      obtain ⟨st,hst⟩ := hx.client hi
      refine ⟨D.leave st.profileId,?_⟩
      rw [seen,Event.profile,profile_eq hi hst]
      exact delete_follows hx hi hst

lemma consistent_empty (hrows : ClientHandshakeState.rowsOf x.connection = [])
    (hgroups : ∀ j, x.connection.groups j = .ok none) (hx : x.handshakes = []) :
    x.Consistent J .empty := by
  refine ⟨⟨fun j g hg => ?_,fun j => ⟨none,hgroups j⟩,?_,fun j => ⟨?_,?_⟩⟩,fun h => absurd hx h,?_⟩
  · simp [hgroups j] at hg
  · rw [hrows]
    exact .nil
  · rintro ⟨g,hg⟩
    simp [hgroups j] at hg
  · rintro ⟨p,hp⟩
    exact absurd hp List.not_mem_nil
  · simp [hx]

lemma run_follows (hJ : J.Lawful) (hM : KeepsIds M) (hx : x.Consistent J D)
    {z : ClientProcess M × List (Directory.Action Uuid GroupId)}
    (hrun : Run (Run.record (step tr J) (seen tr J)) (fun e z => Allowed tr J e z.1) (x,[]) z) :
    ∃ D', z.2.foldlM Directory.act D = some D' ∧ z.1.Consistent J D' := by
  refine hrun.invariant (I := fun z => ∃ D', z.2.foldlM Directory.act D = some D' ∧
    z.1.Consistent J D') (fun e z hz he => ?_) ⟨D,rfl,hx⟩
  obtain ⟨D₁,hlog,hz⟩ := hz
  obtain ⟨D₂,hfollows⟩ := step_follows hJ hM hz he
  refine ⟨D₂,?_,hfollows.consistent⟩
  rw [Run.record,List.foldlM_append,hlog]
  exact hfollows.actions_eq

/-- Whatever profiles a client connects with, deletes and connects with again, and whatever the
attempts fail with, its rows and groups are those of one directory, which changes as `seen` says.
Hence every deletion returns, and no attempt to connect fails in the database. -/
theorem database_follows_directory (hJ : J.Lawful) (hM : KeepsIds M) (hx : x.Consistent J D)
    {y : ClientProcess M} {log : List (Directory.Action Uuid GroupId)}
    (hrun : Run (Run.record (step tr J) (seen tr J)) (fun e z => Allowed tr J e z.1) (x,[])
      (y,log)) :
    ∃ D', log.foldlM Directory.act D = some D' ∧ y.Consistent J D' ∧
      (∀ h ∈ y.handshakes, ((MlsHandshake.delete J).run (y.lend h)).1 = .ok ()) ∧
      ∀ a, Allowed tr J (.connect a) y →
        ∀ e, (a.run tr J y).1 = .error (.error e) → e.ofDatabase = false := by
  obtain ⟨D',hlog,hy⟩ := run_follows hJ hM hx hrun
  refine ⟨D',hlog,hy,fun h hh => ?_,fun a ha e he => ?_⟩
  · obtain ⟨e,he,-⟩ := hy.sessions h hh
    obtain ⟨st,hst,-⟩ := client_of_entry he
    obtain ⟨c,hdelete,-⟩ := hy.lists.delete (hy.table (List.ne_nil_of_mem hh)) st.profileId
    rw [MlsHandshake.delete_client (h := y.lend h) hst hdelete]
  · have hattempt := connect_attempted hJ hy ha
    generalize a.run tr J y = r at hattempt he
    cases hattempt with
    | failed _ _ hdb => exact hdb e he
    | joined => cases he

/-- What happens on the connections of other profiles changes nothing for a profile: neither its row
nor its group, nor the state of any of its connections. -/
theorem profile_untouched (hJ : J.Lawful) (hM : KeepsIds M) (hx : x.Consistent J D)
    {y : ClientProcess M} (hrun : Run (step tr J)
      (fun e z => Allowed tr J e z ∧ e.profile z ≠ some q) x y) :
    Spares D q x.connection y.connection ∧ statesOf q y = statesOf q x := by
  have hinv : ∃ D' : Directory Uuid GroupId, y.Consistent J D' ∧
      (∀ j, (q,j) ∈ D.entries → (q,j) ∈ D'.entries) ∧ Spares D q x.connection y.connection ∧
        statesOf q y = statesOf q x := by
    refine hrun.invariant (I := fun z => ∃ D' : Directory Uuid GroupId, z.Consistent J D' ∧
      (∀ j, (q,j) ∈ D.entries → (q,j) ∈ D'.entries) ∧ Spares D q x.connection z.connection ∧
        statesOf q z = statesOf q x) (fun e z hz he => ?_) ⟨D,hx,fun _ hj => hj,.refl,rfl⟩
    obtain ⟨D₁,hz,hentries,hspares,hstates⟩ := hz
    obtain ⟨D₂,hfollows⟩ := step_follows hJ hM hz he.1
    refine ⟨D₂,hfollows.consistent,fun j hj => ?_,?_,?_⟩
    · exact (hfollows.entries q he.2 j).mpr (hentries j hj)
    · exact hspares.trans hentries (hfollows.spares q he.2)
    · exact (hfollows.states q he.2).trans hstates
  obtain ⟨D',-,-,hspares,hstates⟩ := hinv
  exact ⟨hspares,hstates⟩

end
end ClientProcess

namespace Sample

/-- A welcome to a group, as it comes over the network. -/
def welcomeBytes (clientId : Uuid) (groupId : GroupId) : Bytes :=
  TlsFrameCodec.encode
    ((ServerHelloOut.wire sampleMls).bytes ⟨.welcome ⟨groupId,[1],[2],clientId⟩⟩) []

/-- An attempt that the server answers with a welcome. -/
def attempt (clientId : Uuid) (groupId : GroupId) :
    ClientProcess.Attempt sampleMls PlainChannels where
  leafSigner := [1]
  clientId := clientId
  serverVerifyingKey := [2]
  seed := 0
  transport := ⟨[],[]⟩
  network t := { t with incoming := welcomeBytes clientId groupId }

/-- A client before its first connection. -/
def freshClient : ClientProcess sampleMls := ⟨sampleDb,[]⟩

/-- The client has a connection with the profile 7. -/
def oneProfile : ClientProcess sampleMls :=
  ClientProcess.step PlainChannels.transport sampleSerde (.connect (attempt [7] [9])) freshClient

/-- A second profile connects, and deletes what it has. -/
def otherProfile : List (ClientProcess.Event sampleMls PlainChannels) :=
  [.connect (attempt [8] [10]),.delete 1]

lemma freshClient_consistent : freshClient.Consistent sampleSerde .empty :=
  ClientProcess.consistent_empty rfl (fun _ => rfl) rfl

lemma exports (g : Group) : ∃ secrets, MlsSession.Exports (M := sampleMls) g secrets :=
  ⟨⟨⟨secret g.commits HashType.sha2_512.size⟩,⟨secret g.commits HashType.sha2_512.size⟩⟩,rfl,rfl⟩

lemma attempt_allowed {x : ClientProcess sampleMls} {clientId : Uuid} {groupId : GroupId}
    {h₀ : MlsHandshake sampleMls} {t₀ : PlainChannels} {b₀ : Bytes} {g₀ : Group}
    (hstart : (MlsHandshake.clientHandshakeStart PlainChannels.transport sampleSerde clientId [2]
      0).run (.new x.connection [1],⟨[],[]⟩) = (.ok ⟨clientId,[2]⟩,(h₀,t₀)))
    (harriving : MlsHandshake.arriving PlainChannels.transport
      ((attempt clientId groupId).network t₀) = some b₀)
    (hjoined : WaitingForServerHello.joined ⟨clientId,[2]⟩ b₀ h₀.connection = some g₀)
    (hid : g₀.session.groupId = groupId) (hfresh : ∀ h ∈ x.handshakes, ∀ e ∈ h.entry, e.2 ≠ groupId)
    (hunused : h₀.connection.groups groupId = .ok none) :
    ClientProcess.Allowed PlainChannels.transport sampleSerde (.connect (attempt clientId groupId))
      x := by
  intro waiting h t b g hrun hb hg
  obtain ⟨hwaiting,hrest⟩ := Prod.mk.inj (hstart.symm.trans hrun)
  obtain ⟨rfl,rfl⟩ := Prod.mk.inj hrest
  obtain rfl := Except.ok.inj hwaiting
  obtain rfl := Option.some.inj (harriving.symm.trans hb)
  obtain rfl := Option.some.inj (hjoined.symm.trans hg)
  subst hid
  refine ⟨hfresh,?_,exports g₀⟩
  rintro ⟨g,hg⟩
  exact absurd (hunused.symm.trans hg) (by simp)

lemma first_allowed : ClientProcess.Allowed PlainChannels.transport sampleSerde
    (.connect (attempt [7] [9])) freshClient :=
  attempt_allowed rfl rfl rfl rfl (by simp [freshClient]) rfl

lemma second_allowed : ClientProcess.Allowed PlainChannels.transport sampleSerde
    (.connect (attempt [8] [10])) oneProfile := by
  have hentries : oneProfile.handshakes.map MlsHandshake.entry = [some ([7],[9])] := rfl
  refine attempt_allowed rfl rfl rfl rfl (fun h hh e he => ?_) rfl
  have hmem := List.mem_map_of_mem (f := MlsHandshake.entry) hh
  rw [hentries,List.mem_singleton] at hmem
  obtain rfl := Option.some.inj (hmem.symm.trans he)
  decide

lemma oneProfile_consistent : ∃ D, oneProfile.Consistent sampleSerde D := by
  obtain ⟨D,hfollows⟩ := ClientProcess.step_follows sampleSerde_lawful sampleMls_keepsIds
    freshClient_consistent first_allowed
  exact ⟨D,hfollows.consistent⟩

end Sample

open Sample

/-- Two profiles connect, and the second one deletes what it has. -/
theorem ClientProcess.database_follows_directory_sample :
    ∃ D', [.leave [7],.enter [7] [9],.leave [8],.enter [8] [10],.leave [8]].foldlM Directory.act
        Directory.empty = some D' ∧
      (otherProfile.foldl (fun x e => step PlainChannels.transport sampleSerde e x)
        oneProfile).Consistent sampleSerde D' := by
  have hallowed : Run.Allowed
      (Run.record (step PlainChannels.transport sampleSerde) (seen PlainChannels.transport sampleSerde))
      (fun e z => Allowed PlainChannels.transport sampleSerde e z.1)
      (.connect (attempt [7] [9])::otherProfile) (freshClient,[]) :=
    ⟨first_allowed,second_allowed,trivial,trivial⟩
  obtain ⟨D',hlog,hconsistent,-⟩ := database_follows_directory sampleSerde_lawful
    sampleMls_keepsIds freshClient_consistent (Run.ofList hallowed)
  exact ⟨D',hlog,hconsistent⟩

/-- The first profile still has its connection. -/
theorem ClientProcess.profile_untouched_sample :
    statesOf [7] (otherProfile.foldl
      (fun x e => step PlainChannels.transport sampleSerde e x) oneProfile) =
        [.client ⟨[7],⟨[9],1⟩,.running⟩] := by
  obtain ⟨D,hx⟩ := oneProfile_consistent
  have hallowed : Run.Allowed (step PlainChannels.transport sampleSerde)
      (fun e z => Allowed PlainChannels.transport sampleSerde e z ∧ e.profile z ≠ some [7])
      otherProfile oneProfile := ⟨⟨second_allowed,by decide⟩,⟨trivial,by decide⟩,trivial⟩
  exact (profile_untouched sampleSerde_lawful sampleMls_keepsIds hx (Run.ofList hallowed)).2

end MlsTls.MlsHandshake
