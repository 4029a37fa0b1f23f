import Mathlib.Data.List.Nodup
import MlsTls.EncryptionProvider.Connect
import MlsTls.EncryptionProvider.ResumedKeys
import MlsTls.MlsHandshake.ServerEpochs
import MlsTls.MlsHandshake.ServerHost

/-! The keys of a server over all its connections without a pre-handshake, whoever connects and
whatever is sent. The connections share one database, so that several of them may act for the same
group. The server gives the secrets of an epoch to the connection that has led to it and to no
other, as long as no connection takes a confirmation for one of a commit that another connection has
replaced. -/
set_option linter.dupNamespace false

namespace MlsTls.EncryptionProvider
open Lib TlsAead MlsHandshake TlsAeadCodec
open ResumingClient (Known)
variable {M : OpenMls}

/-- A server: its database, the ids of the groups in it or drawn for it, and the providers of all
its connections, those that are gone included. -/
structure ServerProcess (V : Environment M) where
  leafSigner : M.SignatureKeyPair
  connection : Connection M
  drawn : List GroupId
  providers : List (EncryptionProvider M V.chrono)

namespace ServerProcess
variable {V : Environment M} {α : Type}

/-- Every record that the server has encrypted. -/
def log (x : ServerProcess V) : List SealedRecord :=
  x.providers.flatMap fun p => p.channels.sent.map SentRecord.record

/-- The provider finds the database as the last call has left it. -/
def lend (x : ServerProcess V) (p : EncryptionProvider M V.chrono) : EncryptionProvider M V.chrono :=
  { p with handshake.connection := x.connection }

/-- A call on one of the providers. -/
def on (x : ServerProcess V) (i : ℕ) (call : EncryptionProvider.Call V α) : ServerProcess V :=
  match x.providers[i]? with
  | none => x
  | some p =>
    let p' := (call.run (x.lend p)).2
    { x with connection := p'.handshake.connection, providers := x.providers.set i p' }

/-- `handshake` on `UnprotectedHandshakeState`, the state that `EncryptionProvider::new` makes, with
what has arrived on a new connection. The handshake of `new_with_pre_handshake` runs over protected
channels and has no place here. -/
def accept (arrived : Bytes) (groupId : GroupId) (seed : ℕ) (policy : UpdatePolicy V.chrono)
    (x : ServerProcess V) : ServerProcess V :=
  let r := (MlsHandshake.serverHandshake PlainChannels.transport groupId seed).run
    (MlsHandshake.new x.connection x.leafSigner,⟨[],arrived⟩)
  let y := { x with connection := r.2.1.connection, drawn := groupId::x.drawn }
  match r.1 with
  | .ok (some (trafficSecrets,_)) =>
    match newChannels V.crypto true r.2.2 trafficSecrets with
    | .ok s => { y with providers := y.providers++[⟨r.2.1,s,policy⟩] }
    | .error _ => y
  | _ => y

/-- The calls on a provider, and what the network does. The messages that are processed are any. -/
inductive Event (V : Environment M)
  | accept (arrived : Bytes) (groupId : GroupId) (seed : ℕ) (policy : UpdatePolicy V.chrono)
  | arrive (i : ℕ) (piece : Bytes)
  | sendBytes (i : ℕ) (bytes : Bytes) (now : V.chrono.DateTime) (seed : ℕ)
  | readMessage (i : ℕ)
  | processReadMessage (i : ℕ) (message : InnerPlaintext) (seed : ℕ)
  | delete (i : ℕ)

def step : Event V → ServerProcess V → ServerProcess V
  | .accept arrived groupId seed policy,x => x.accept arrived groupId seed policy
  | .arrive i piece,x => x.on i (EncryptionProvider.onChannels
      (Exec.modify (ProtectedChannels.arrive piece)))
  | .sendBytes i bytes now seed,x => x.on i (EncryptionProvider.sendBytes V true bytes now seed)
  | .readMessage i,x => x.on i (EncryptionProvider.readMessage V)
  | .processReadMessage i message seed,x =>
    x.on i (EncryptionProvider.processReadMessage V true message seed)
  | .delete i,x => x.on i (EncryptionProvider.delete V)

/-- The ids of new groups have not been used. -/
def Draws (e : Event V) (x : ServerProcess V) : Prop :=
  match e with
  | .accept _ groupId _ _ => groupId ∉ x.drawn
  | _ => True

/-- A commit that is confirmed is still pending. -/
def Backs (e : Event V) (x : ServerProcess V) : Prop :=
  match e with
  | .processReadMessage i (.signaling message) _ => ServerHandshakeState.IsConfirmation M message →
      ∀ p ∈ x.providers[i]?, ∀ st, p.handshake.state = .server st →
        ServerHandshakeState.Backed (st,x.connection)
  | _ => True

instance (e : Event V) (x : ServerProcess V) : Decidable (x.Draws e) :=
  match e with
  | .accept _ groupId _ _ => inferInstanceAs (Decidable (groupId ∉ x.drawn))
  | .arrive _ _ | .sendBytes _ _ _ _ | .readMessage _ | .processReadMessage _ _ _ | .delete _ =>
    isTrue trivial

instance (e : Event V) (x : ServerProcess V) : Decidable (x.Backs e) :=
  match e with
  | .processReadMessage i (.signaling message) _ =>
    decidable_of_iff (ServerHandshakeState.IsConfirmation M message →
      ∀ p ∈ x.providers[i]?, (match p.handshake.state with
        | .server st => decide (ServerHandshakeState.Backed (st,x.connection))
        | _ => true) = true) (forall_congr' fun _ => forall₂_congr fun p _ => by
          cases p.handshake.state <;> simp)
  | .processReadMessage _ (.application _) _ => isTrue trivial
  | .accept _ _ _ _ | .arrive _ _ | .sendBytes _ _ _ _ | .readMessage _ | .delete _ => isTrue trivial

/-- Runs whose groups are of `G` and whose events meet both conditions. -/
abbrev Runs (G : M.Group → Prop) : ServerProcess V → ServerProcess V → Prop :=
  Run step fun e x => x.Draws e ∧ x.Backs e ∧ Known G (step e x).connection

/-- The secret expands to this key. -/
def KeyOf (C : Crypto) (secret : ServerSecret) (key : Bytes) : Prop :=
  ∃ iv, expandServerSecret C keyScheduleHashFunction secret [] aeadAlgorithm = .ok (key,iv)

/-- Different epochs of these groups export secrets with different keys. -/
def SeparatesEpochs (C : Crypto) (G : M.Group → Prop) : Prop :=
  ∀ {g g' secrets secrets' key}, G g → G g' → MlsSession.Exports g secrets →
    MlsSession.Exports g' secrets' → KeyOf C secrets.serverSecret key →
    KeyOf C secrets'.serverSecret key → M.groupId g = M.groupId g' ∧ M.epoch g = M.epoch g'

/-- The key is that of an epoch which a group of the server has reached. -/
def Spent (G : M.Group → Prop) (x : ServerProcess V) (key : Bytes) : Prop :=
  ∃ g secrets, G g ∧ MlsSession.Exports g secrets ∧ KeyOf V.crypto secrets.serverSecret key ∧
    M.groupId g ∈ x.drawn ∧
    ∀ g₀, x.connection.groups (M.groupId g) = .ok (some g₀) → M.epoch g ≤ M.epoch g₀

/-- The records of a connection are under keys of its own. -/
abbrev Confined (C : Crypto) (P : Bytes → Prop) (s : ProtectedChannels) : Prop :=
  s.Confined C keyScheduleHashFunction aeadAlgorithm P

/-- What a call may do to a server's provider: the channels stay confined wherever the keys of the
new epochs are allowed. -/
structure Rekeys (V : Environment M) (p p' : EncryptionProvider M V.chrono) : Prop where
  server : ∃ st, p'.handshake.state = .server st
  onward : Onward ∅ p.handshake.connection p'.handshake.connection
  confined : ∀ P : Bytes → Prop, Confined V.crypto P p.channels →
    (∀ secrets key, New p.handshake.connection p'.handshake.connection secrets →
      KeyOf V.crypto secrets.serverSecret key → P key) → Confined V.crypto P p'.channels

/-- The provider is that of a server, and its channels use the keys that `P` allows. -/
def Keyed (V : Environment M) (P : Bytes → Prop) (p : EncryptionProvider M V.chrono) : Prop :=
  (∃ st, p.handshake.state = .server st) ∧ Confined V.crypto P p.channels

/-- All stored groups have been drawn, and every provider is that of a server. -/
structure Orderly (x : ServerProcess V) : Prop where
  filed : Roster.Filed x.connection
  drawn : ∀ j g, x.connection.groups j = .ok (some g) → j ∈ x.drawn
  providers : ∀ (i : ℕ) p, x.providers[i]? = some p → Keyed V (fun _ => True) p

/-- A key of a group's new epoch, or of a new group. -/
def Gains (fresh : Set GroupId) (x y : ServerProcess V) (key : Bytes) : Prop :=
  ∃ secrets, (New x.connection y.connection secrets ∨
    ∃ j ∈ fresh, ServerHandshake.Founded j y.connection secrets) ∧
    KeyOf V.crypto secrets.serverSecret key

/-- What an event can do: one connection goes on to keys that were gained. -/
structure Advances (i : ℕ) (fresh : Set GroupId) (x y : ServerProcess V) : Prop where
  onward : Onward fresh x.connection y.connection
  unused : ∀ j ∈ fresh, j ∉ x.drawn
  drawn : ∀ j, j ∈ x.drawn ∨ j ∈ fresh → j ∈ y.drawn
  providers : ∀ keys : ℕ → Bytes → Prop,
    (∀ j p, x.providers[j]? = some p → Keyed V (keys j) p) →
    ∀ j p, y.providers[j]? = some p →
      Keyed V (fun key => keys j key ∨ j = i ∧ Gains fresh x y key) p

/-- All keys in use are spent, and no two connections have one in common. -/
structure Inv (G : M.Group → Prop) (x : ServerProcess V) : Prop where
  orderly : x.Orderly
  keys : ∃ keys : ℕ → Bytes → Prop, (∀ i j key, keys i key → keys j key → i = j) ∧
    (∀ i key, keys i key → x.Spent G key) ∧
    ∀ i p, x.providers[i]? = some p → Keyed V (keys i) p

section
variable {S : Standing M} (hS : S.Lawful)
  (hexport : ∀ {signer seed g m g' secrets}, M.selfUpdate signer seed g = .ok (m,g') →
    MlsSession.Exports g secrets → MlsSession.Exports g' secrets)
  {h₀ : MlsHandshake M} {st : ServerHandshakeState}

lemma server_triple {x : ServerHandshakeState.Call M α} {Q : α → Connection M → Prop}
    {E : Connection M → Prop} (hx : Exec.Triple (fun s => s = (st,h₀.connection)) x
      (fun a s => Q a s.2) fun _ s => E s.2) :
    Exec.Triple (fun h => h = h₀) (MlsHandshake.server st x)
      (fun a h => (∃ st', h.state = .server st') ∧ Q a h.connection)
      fun _ h => (∃ st', h.state = .server st') ∧ E h.connection := by
  rintro h rfl
  have hrun := hx (st,h.connection) rfl
  rw [MlsHandshake.server,Exec.zoom_run]
  simp only [Exec.mapError]
  rcases hr : x.run (st,h.connection) with ⟨(e | _) | a,st',c⟩
  · rw [hr] at hrun
    exact ⟨⟨st',rfl⟩,hrun⟩
  · rw [hr] at hrun
    exact ⟨⟨st',rfl⟩,hrun⟩
  · rw [hr] at hrun
    exact ⟨⟨st',rfl⟩,hrun⟩

/-- The handshake of a server whose groups have not gone back since `c₀`. -/
def Serving (c₀ : Connection M) (h : MlsHandshake M) : Prop :=
  (∃ st, h.state = .server st) ∧ Aged c₀ h.connection

include hS in
lemma updateHandshake_serving (J : Serde M) (seed : ℕ) {c₀ : Connection M} :
    Exec.Keeps (Serving c₀) (MlsHandshake.updateHandshake J seed) fun r => r.1 = none := by
  rintro h ⟨⟨st,hst⟩,haged⟩
  rw [MlsHandshake.updateHandshake,Exec.bind_of_ok (Exec.get_run _),hst]
  refine Exec.Triple.bind (server_triple (Q := fun _ => Aged c₀) (E := Aged c₀) ?_)
    (fun message => .pure fun h' hh => ⟨hh,rfl⟩) h rfl
  refine .conseq (ServerHandshakeState.update_onward hS h.leafSigner false seed)
    (fun s hs => ?_) (fun _ s hs => hs.1) fun _ s hs => hs
  rw [hs]
  exact haged

include hS hexport in
lemma processSignalingMessage_serving (hfiled : Roster.Filed h₀.connection)
    (hst : h₀.state = .server st) (J : Serde M) {message : Bytes}
    (hbacked : ServerHandshakeState.IsConfirmation M message →
      ServerHandshakeState.Backed (st,h₀.connection)) (seed : ℕ) :
    Exec.Triple (fun h => h = h₀) (MlsHandshake.processSignalingMessage J message seed)
      (fun r h => Serving h₀.connection h ∧
        ∃ secrets, r.1 = some (.both secrets) ∧ New h₀.connection h.connection secrets)
      fun _ => Serving h₀.connection := by
  rintro h rfl
  rw [MlsHandshake.processSignalingMessage,Exec.bind_of_ok (Exec.get_run _),hst]
  refine Exec.Triple.bind (server_triple (Q := fun r c => Aged h.connection c ∧
    New h.connection c r.1) (E := Aged h.connection) ?_) (fun r => ?_) h rfl
  · exact ServerHandshakeState.receiveSignalingMessage_new hS hexport hfiled h.leafSigner seed hbacked
  · obtain ⟨secrets,response⟩ := r
    exact .pure fun h' hh => ⟨⟨hh.1,hh.2.1⟩,secrets,rfl,hh.2.2⟩

section
variable {I : MlsHandshake M → Prop} {P : Bytes → Prop}

/-- What is known of the handshake of a provider, and the keys of its channels. -/
def Under (I : MlsHandshake M → Prop) (P : Bytes → Prop) (p : EncryptionProvider M V.chrono) : Prop :=
  I p.handshake ∧ Confined V.crypto P p.channels

lemma onChannels_under {x : ProtectedChannels.ProviderCall M.Error α} {Q : α → Prop}
    (hx : Exec.Keeps (Confined V.crypto P) x Q) :
    Exec.Keeps (Under (V := V) I P) (EncryptionProvider.onChannels x) Q := by
  rintro p ⟨hI,hs⟩
  have hrun := hx p.channels hs
  rw [EncryptionProvider.onChannels,Exec.zoom_run]
  rcases hr : x.run p.channels with ⟨f | a,s⟩
  · rw [hr] at hrun
    exact ⟨hI,hrun⟩
  · rw [hr] at hrun
    exact ⟨⟨hI,hrun.1⟩,hrun.2⟩

lemma onHandshake_under {x : MlsHandshake.Call M α} {Q : α → Prop} (hx : Exec.Keeps I x Q) :
    Exec.Keeps (Under (V := V) I P) (EncryptionProvider.onHandshake x) Q := by
  rintro p ⟨hI,hs⟩
  have hrun := hx p.handshake hI
  rw [EncryptionProvider.onHandshake,Exec.zoom_run]
  rcases hr : x.run p.handshake with ⟨f | a,h⟩
  · rw [hr] at hrun
    exact ⟨hrun,hs⟩
  · rw [hr] at hrun
    exact ⟨⟨hrun.1,hs⟩,hrun.2⟩

lemma sendPlaintext_under (message : InnerPlaintext) :
    Exec.Keeps (Under (V := V) I P)
      (EncryptionProvider.onChannels (ProtectedChannels.sendPlaintext V.crypto message))
      fun _ => True :=
  onChannels_under (ResumingClient.sendPlaintext_confined message)

lemma answer_under {secretUpdate : Option SecretUpdate} (response : Option Bytes)
    (hP : ∀ u ∈ secretUpdate, ∀ {key iv},
      u.Installs V.crypto keyScheduleHashFunction aeadAlgorithm true key iv → P key) :
    Exec.Keeps (Under (V := V) I P) (EncryptionProvider.answer V true secretUpdate response)
      fun _ => True := by
  have hswitch : Exec.Keeps (Under (V := V) I P) (EncryptionProvider.answer V true secretUpdate none)
      fun _ => True := by
    cases secretUpdate with
    | none => exact .pure trivial
    | some update =>
      have hupdate := ProtectedChannels.updateTrafficSecrets_confined (hP update rfl)
      exact onChannels_under (.bind hupdate.mapError fun _ _ => hupdate.mapError)
  cases response with
  | none => exact hswitch
  | some message => exact .bind (sendPlaintext_under _) fun _ _ => hswitch

include hS in
lemma sendBytes_under (bytes : Bytes) (now : V.chrono.DateTime) (seed : ℕ) {c₀ : Connection M} :
    Exec.Keeps (Under (V := V) (Serving c₀) P) (EncryptionProvider.sendBytes V true bytes now seed)
      fun _ => True := by
  refine EncryptionProvider.sendBytes_keeps V true (Q := fun r => r.1 = none) sendPlaintext_under
    ?_ ?_ ?_ bytes now
  · exact fun policy => .modify fun _ hp => hp
  · exact onHandshake_under (updateHandshake_serving hS V.serde seed)
  · rintro ⟨secretUpdate,message⟩ hnone
    exact answer_under _ (by simp [show secretUpdate = none from hnone])

end

section
variable {p : EncryptionProvider M V.chrono} (hfiled : Roster.Filed p.handshake.connection)
  (hst : p.handshake.state = .server st) {P₀ : Bytes → Prop} (hs₀ : Confined V.crypto P₀ p.channels)
include hfiled hst

include hs₀ in
lemma rekeys_of_under {call : EncryptionProvider.Call V α} {Q : α → Prop}
    (hcall : ∀ P, Exec.Keeps (Under (Serving p.handshake.connection) P) call Q) :
    Rekeys V p (call.run p).2 := by
  have hserving : Serving p.handshake.connection p.handshake := ⟨⟨st,hst⟩,.refl hfiled⟩
  obtain ⟨⟨hserver,haged⟩,-⟩ := (hcall P₀).snd ⟨hserving,hs₀⟩
  exact ⟨hserver,.of_aged haged,fun P hP _ => ((hcall P).snd ⟨hserving,hP⟩).2⟩

lemma rekeys_delete : Rekeys V p ((EncryptionProvider.delete V).run p).2 := by
  have hdelete : Onward ∅ p.handshake.connection
      (st.mlsSession.delete.run p.handshake.connection).2 :=
    st.mlsSession.delete_onward.snd (.refl hfiled)
  simp only [EncryptionProvider.delete,EncryptionProvider.onHandshake,MlsHandshake.delete,
    MlsHandshake.db,Exec.mapError,Exec.zoom_run,Exec.bind_run,Exec.get_run,hst]
  rcases hr : st.mlsSession.delete.run p.handshake.connection with ⟨(e | _) | a,c⟩
  all_goals
    rw [hr] at hdelete
    exact ⟨⟨st,rfl⟩,hdelete,fun P hP _ => hP⟩

include hS hexport hs₀ in
lemma rekeys_processReadMessage {message : InnerPlaintext} (seed : ℕ)
    (hbacked : ∀ b, message = .signaling b → ServerHandshakeState.IsConfirmation M b →
      ServerHandshakeState.Backed (st,p.handshake.connection)) :
    Rekeys V p ((EncryptionProvider.processReadMessage V true message seed).run p).2 := by
  cases message with
  | application b => exact ⟨⟨st,hst⟩,.refl hfiled,fun P hP _ => hP⟩
  | signaling b =>
    have hcall := processSignalingMessage_serving hS hexport hfiled hst V.serde (hbacked b rfl) seed
      p.handshake rfl
    simp only [EncryptionProvider.processReadMessage,Exec.bind_run,Exec.mapError,
      EncryptionProvider.onHandshake,Exec.zoom_run]
    rcases hr : (MlsHandshake.processSignalingMessage V.serde b seed).run p.handshake
      with ⟨(e | _) | ⟨secretUpdate,response⟩,h⟩
    · rw [hr] at hcall
      exact ⟨hcall.1,.of_aged hcall.2,fun P hP _ => hP⟩
    · rw [hr] at hcall
      exact ⟨hcall.1,.of_aged hcall.2,fun P hP _ => hP⟩
    · rw [hr] at hcall
      obtain ⟨⟨hserver,haged⟩,secrets,rfl,hnew⟩ := hcall
      have hanswer (P : Bytes → Prop)
          (hkeys : ∀ key, KeyOf V.crypto secrets.serverSecret key → P key) :
          Exec.Keeps (Under (V := V) (· = h) P)
            (EncryptionProvider.answer V true (some (.both secrets)) response) fun _ => True := by
        refine answer_under response fun u hu key iv hinstalls => ?_
        obtain rfl := Option.some.inj hu
        exact hkeys key ⟨iv,hinstalls⟩
      have hsame := (hanswer (fun _ => True) fun _ _ => trivial).snd
        (s := { p with handshake := h }) ⟨rfl,hs₀.mono fun _ _ => trivial⟩
      have hkeep (P : Bytes → Prop) (hP : Confined V.crypto P p.channels)
          (hkeys : ∀ key, KeyOf V.crypto secrets.serverSecret key → P key) :=
        ((hanswer P hkeys).snd (s := { p with handshake := h }) ⟨rfl,hP⟩).2
      simp only
      generalize (EncryptionProvider.answer V true (some (.both secrets)) response).run
        { p with handshake := h } = r at hsame hkeep ⊢
      obtain ⟨f | u,q⟩ := r
      all_goals
        obtain rfl : q.handshake = h := hsame.1
        exact ⟨hserver,.of_aged haged,fun P hP hnewKeys =>
          hkeep P hP fun key hkey => hnewKeys secrets key hnew hkey⟩

end

include hS in
lemma serverHandshake_new {σ : Type} (tr : Transport σ) (hM : KeepsIds M)
    (hfiled : Roster.Filed h₀.connection) (groupId : GroupId) (seed : ℕ) :
    Exec.Triple (fun s => s.1 = h₀) (MlsHandshake.serverHandshake tr groupId seed)
      (fun r s => Onward {groupId} h₀.connection s.1.connection ∧ ∀ t ∈ r,
        (∃ st, s.1.state = .server st) ∧
          ServerHandshake.Starts groupId h₀.connection s.1.connection t.1)
      fun _ s => Onward {groupId} h₀.connection s.1.connection := by
  have hrefl (s : MlsHandshake M × σ) (hs : s.1 = h₀) :
      Onward {groupId} h₀.connection s.1.connection := by
    rw [hs]
    exact .refl hfiled
  have hnext : Exec.Keeps (fun s : MlsHandshake M × σ => s.1 = h₀) (MlsHandshake.nextFirst tr)
      fun _ => True := .elsewhere fun _ _ hs => hs
  refine hnext.andThen (fun _ => hrefl) fun packet _ => ?_
  cases packet with
  | none => exact .pure fun s hs => ⟨hrefl s hs,by simp⟩
  | some packet =>
    refine Exec.Keeps.andThen .get (fun _ => hrefl) fun s₀ hs₀ => ?_
    have hstart := ServerHandshake.start_new hS hM hfiled s₀.1.leafSigner packet.data groupId seed
    have hdb : Exec.Triple (fun h : MlsHandshake M => h = h₀) (MlsHandshake.db
        (ServerHandshake.start s₀.1.leafSigner packet.data groupId seed))
        (fun r h => ServerHandshake.Starts groupId h₀.connection h.connection r.2.1)
        fun _ h => Onward {groupId} h₀.connection h.connection := by
      refine .pre (.zoom (fun _ _ => rfl) hstart.mapError) fun h hh => ?_
      rw [hh]
    have hown : Exec.Triple (fun s : MlsHandshake M × σ => s.1 = h₀)
        (MlsHandshake.own (MlsHandshake.db
          (ServerHandshake.start s₀.1.leafSigner packet.data groupId seed)))
        (fun r s => ServerHandshake.Starts groupId h₀.connection s.1.connection r.2.1)
        fun _ s => Onward {groupId} h₀.connection s.1.connection := .zoom (fun _ _ => rfl) hdb
    refine .bind hown fun r => ?_
    obtain ⟨state,secrets,identity,response⟩ := r
    have hset : Exec.Triple (fun s : MlsHandshake M × σ =>
        ServerHandshake.Starts groupId h₀.connection s.1.connection secrets)
        (MlsHandshake.own (MlsHandshake.setState (.server state)))
        (fun _ s => (∃ st, s.1.state = .server st) ∧
          ServerHandshake.Starts groupId h₀.connection s.1.connection secrets)
        fun _ s => Onward {groupId} h₀.connection s.1.connection := fun s hs => ⟨⟨state,rfl⟩,hs⟩
    refine .bind hset fun _ => ?_
    refine Exec.Keeps.andThen (.elsewhere fun _ _ hs => hs) (fun _ s hs => hs.2.onward) fun _ _ => ?_
    refine .pure fun s hs => ⟨hs.2.onward,fun t ht => ?_⟩
    obtain rfl := Option.some.inj ht
    exact hs

section
variable {x : ServerProcess V}

lemma Orderly.on (h : x.Orderly) {i : ℕ} {call : EncryptionProvider.Call V α}
    (hcall : ∀ p st P, p ∈ x.providers[i]? → p.handshake.state = .server st →
      Confined V.crypto P p.channels → Rekeys V (x.lend p) (call.run (x.lend p)).2) :
    Advances i ∅ x (x.on i call) := by
  cases hi : x.providers[i]? with
  | none =>
    rw [ServerProcess.on,hi]
    refine ⟨.refl h.filed,by simp,by simp,fun keys hkeys j p hp => ?_⟩
    obtain ⟨hserver,hs⟩ := hkeys j p hp
    exact ⟨hserver,hs.mono fun _ hk => Or.inl hk⟩
  | some p =>
    obtain ⟨⟨st,hst⟩,hs⟩ := h.providers i p hi
    have hrekeys := hcall p st _ hi hst hs
    have hon : x.on i call = { x with
        connection := (call.run (x.lend p)).2.handshake.connection
        providers := x.providers.set i (call.run (x.lend p)).2 } := by
      rw [ServerProcess.on,hi]
    generalize (call.run (x.lend p)).2 = p' at hon hrekeys
    rw [hon]
    refine ⟨hrekeys.onward,by simp,by simp,fun keys hkeys j q hq => ?_⟩
    by_cases hj : j = i
    · subst hj
      rw [List.getElem?_set_self (List.getElem?_eq_some_iff.mp hi).1] at hq
      obtain rfl := Option.some.inj hq
      refine ⟨hrekeys.server,hrekeys.confined _ ((hkeys j p hi).2.mono fun _ hk => Or.inl hk) ?_⟩
      exact fun secrets key hnew hk => Or.inr ⟨rfl,secrets,Or.inl hnew,hk⟩
    · rw [List.getElem?_set_ne (Ne.symm hj)] at hq
      obtain ⟨hserver,hconfined⟩ := hkeys j q hq
      exact ⟨hserver,hconfined.mono fun _ hk => Or.inl hk⟩

include hS in
lemma Orderly.accept (h : x.Orderly) (hM : KeepsIds M) (arrived : Bytes) {groupId : GroupId}
    (hfresh : groupId ∉ x.drawn) (seed : ℕ) (policy : UpdatePolicy V.chrono) :
    Advances x.providers.length {groupId} x (x.accept arrived groupId seed policy) := by
  have hnew : Roster.Filed (MlsHandshake.new x.connection x.leafSigner).connection := h.filed
  have hrun := serverHandshake_new hS PlainChannels.transport hM hnew groupId seed
    (MlsHandshake.new x.connection x.leafSigner,⟨[],arrived⟩) rfl
  unfold ServerProcess.accept
  generalize (MlsHandshake.serverHandshake PlainChannels.transport groupId seed).run
    (MlsHandshake.new x.connection x.leafSigner,⟨[],arrived⟩) = r at hrun ⊢
  obtain ⟨r,h',plain⟩ := r
  have hdrawn (j : GroupId) (hj : j ∈ x.drawn ∨ j ∈ ({groupId} : Set GroupId)) :
      j ∈ groupId::x.drawn := by
    rcases hj with hj | rfl
    · exact List.mem_cons_of_mem _ hj
    · exact List.mem_cons_self ..
  -- no connection is added
  have hnone (ho : Onward {groupId} x.connection h'.connection) :
      Advances x.providers.length {groupId} x
        { x with connection := h'.connection, drawn := groupId::x.drawn } := by
    refine ⟨ho,by simpa using hfresh,hdrawn,fun keys hkeys j p hp => ?_⟩
    obtain ⟨hserver,hconfined⟩ := hkeys j p hp
    exact ⟨hserver,hconfined.mono fun _ hk => Or.inl hk⟩
  match r,hrun with
  | .error f,hrun => exact hnone hrun
  | .ok none,hrun => exact hnone hrun.1
  | .ok (some (secrets,identity)),hrun =>
    obtain ⟨ho,hsome⟩ := hrun
    obtain ⟨hserver,hstarts⟩ := hsome _ rfl
    cases hs : newChannels V.crypto true plain secrets with
    | error e =>
      simp only [hs]
      exact hnone ho
    | ok s =>
      simp only [hs]
      refine ⟨ho,by simpa using hfresh,hdrawn,fun keys hkeys j p hp => ?_⟩
      by_cases hj : j < x.providers.length
      · rw [List.getElem?_append_left hj] at hp
        obtain ⟨hserver,hconfined⟩ := hkeys j p hp
        exact ⟨hserver,hconfined.mono fun _ hk => Or.inl hk⟩
      · rw [List.getElem?_append_right (by omega),List.getElem?_singleton] at hp
        split_ifs at hp with hlast
        obtain rfl := Option.some.inj hp
        have hlen : j = x.providers.length := by omega
        refine ⟨hserver,ResumingClient.newChannels_confined hs fun {key iv} hk =>
          Or.inr ⟨hlen,secrets,?_,iv,hk⟩⟩
        exact hstarts.secrets.imp_right fun hfounded => ⟨groupId,rfl,hfounded⟩

include hS hexport in
/-- Every event does what `Advances` says. -/
theorem Orderly.advances (h : x.Orderly) (hM : KeepsIds M) {e : Event V} (hdraws : x.Draws e)
    (hbacks : x.Backs e) : ∃ i fresh, Advances i fresh x (step e x) := by
  cases e with
  | accept arrived groupId seed policy => exact ⟨_,_,h.accept hS hM arrived hdraws seed policy⟩
  | arrive i piece =>
    refine ⟨i,∅,h.on fun p st P _ hst hs => ?_⟩
    refine rekeys_of_under (p := x.lend p) h.filed hst hs fun Q =>
      onChannels_under (.modify fun s hs => ?_)
    exact ⟨hs.hash_eq,hs.cipher_eq,hs.keys,hs.allowed,hs.seq,hs.length_le,hs.records⟩
  | sendBytes i bytes now seed =>
    refine ⟨i,∅,h.on fun p st P _ hst hs => ?_⟩
    exact rekeys_of_under (p := x.lend p) h.filed hst hs fun Q => sendBytes_under hS bytes now seed
  | readMessage i =>
    refine ⟨i,∅,h.on fun p st P _ hst hs => ?_⟩
    exact rekeys_of_under (p := x.lend p) h.filed hst hs fun Q =>
      onChannels_under ResumingClient.nextPlaintext_confined
  | processReadMessage i message seed =>
    refine ⟨i,∅,h.on fun p st P hp hst hs => ?_⟩
    refine rekeys_processReadMessage (p := x.lend p) hS hexport h.filed hst hs seed ?_
    rintro b rfl hconfirmation
    exact hbacks hconfirmation p hp st hst
  | delete i =>
    refine ⟨i,∅,h.on fun p st P _ hst _ => ?_⟩
    exact rekeys_delete (p := x.lend p) h.filed hst

end

section
variable {G : M.Group → Prop} {x y : ServerProcess V} {secrets : TrafficSecrets} {key : Bytes}
  {i : ℕ} {fresh : Set GroupId}

lemma Advances.orderly (h : x.Orderly) (hadvances : Advances i fresh x y) : y.Orderly := by
  refine ⟨hadvances.onward.filed,fun j g hg => ?_,fun j p hp => ?_⟩
  · by_cases hj : j ∈ fresh
    · exact hadvances.drawn j (Or.inr hj)
    · obtain ⟨g₀,hg₀,-⟩ := hadvances.onward.earlier hj hg
      exact hadvances.drawn j (Or.inl (h.drawn j g₀ hg₀))
  · obtain ⟨hserver,hconfined⟩ := hadvances.providers (fun _ _ => True) h.providers j p hp
    exact ⟨hserver,hconfined.mono fun _ _ => trivial⟩

lemma Advances.spent (hadvances : Advances i fresh x y) (h : x.Spent G key) : y.Spent G key := by
  obtain ⟨g,secrets,hG,hx,hk,hmem,hle⟩ := h
  refine ⟨g,secrets,hG,hx,hk,hadvances.drawn _ (Or.inl hmem),fun g₀ hg₀ => ?_⟩
  have hold : M.groupId g ∉ fresh := fun hj => hadvances.unused _ hj hmem
  obtain ⟨g₁,hg₁,hle₁⟩ := hadvances.onward.earlier hold hg₀
  exact (hle g₁ hg₁).trans hle₁

lemma spent_of_stored {g : M.Group} (h : x.Orderly) (hG : Known G x.connection)
    (hg : x.connection.groups (M.groupId g) = .ok (some g)) (hx : MlsSession.Exports g secrets)
    (hk : KeyOf V.crypto secrets.serverSecret key) : x.Spent G key := by
  refine ⟨g,secrets,hG _ _ hg,hx,hk,h.drawn _ g hg,fun g₀ hg₀ => ?_⟩
  obtain rfl := Option.some.inj (Except.ok.inj (hg.symm.trans hg₀))
  exact le_rfl

lemma Advances.spent_of_gains (hadvances : Advances i fresh x y) (h : x.Orderly)
    (hG : Known G y.connection) (hgains : Gains fresh x y key) : y.Spent G key := by
  obtain ⟨secrets,⟨g,g',-,hg',-,hx⟩ | ⟨j,-,g,rfl,hg,hx⟩,hk⟩ := hgains
  · exact spent_of_stored (hadvances.orderly h) hG hg' hx hk
  · exact spent_of_stored (hadvances.orderly h) hG hg hx hk

lemma Advances.not_spent (hadvances : Advances i fresh x y) (hsep : SeparatesEpochs V.crypto G)
    (hG : Known G y.connection) (hgains : Gains fresh x y key) : ¬x.Spent G key := by
  rintro ⟨g₁,secrets',hG₁,hx₁,hk',hmem,hle⟩
  obtain ⟨secrets,⟨g,g',hg,hg',hlt,hx⟩ | ⟨j,hj,g,rfl,hg,hx⟩,hk⟩ := hgains
  · obtain ⟨hid,hepoch⟩ := hsep hG₁ (hG _ _ hg') hx₁ hx hk' hk
    rw [hid] at hle
    have hle' := hle g hg
    omega
  · obtain ⟨hid,-⟩ := hsep hG₁ (hG _ _ hg) hx₁ hx hk' hk
    exact hadvances.unused _ hj (hid ▸ hmem)

theorem Inv.advances (h : Inv G x) (hsep : SeparatesEpochs V.crypto G) (hadvances : Advances i fresh x y)
    (hG : Known G y.connection) : Inv G y := by
  obtain ⟨keys,hdisjoint,hkeys,hall⟩ := h.keys
  refine ⟨hadvances.orderly h.orderly,fun j key => keys j key ∨ j = i ∧ Gains fresh x y key,?_,?_,
    hadvances.providers keys hall⟩
  · rintro j k key (hj | ⟨rfl,hj⟩) (hk | ⟨rfl,hk⟩)
    · exact hdisjoint j k key hj hk
    · exact absurd (hkeys j key hj) (hadvances.not_spent hsep hG hk)
    · exact absurd (hkeys k key hk) (hadvances.not_spent hsep hG hj)
    · rfl
  · rintro j key (hj | ⟨-,hj⟩)
    · exact hadvances.spent (hkeys j key hj)
    · exact hadvances.spent_of_gains h.orderly hG hj

lemma Inv.nodup_log (h : Inv G x)
    (hkeys : V.crypto.KeysDetermineIvs keyScheduleHashFunction aeadAlgorithm) :
    (x.log.map fun r => (r.key,r.nonce)).Nodup := by
  obtain ⟨keys,hdisjoint,-,hall⟩ := h.keys
  rw [log,List.map_flatMap,List.nodup_flatMap]
  refine ⟨fun p hp => ?_,?_⟩
  · obtain ⟨i,hi⟩ := List.getElem?_of_mem hp
    rw [List.map_map]
    exact (hall i p hi).2.nodup hkeys
  · rw [List.pairwise_iff_getElem]
    intro i j hi hj hlt
    change List.Disjoint _ _
    intro pair hmem hmem'
    simp only [List.map_map,List.mem_map,Function.comp_apply] at hmem hmem'
    obtain ⟨r,hr,rfl⟩ := hmem
    obtain ⟨r',hr',heq⟩ := hmem'
    have hkey := (hall i _ (List.getElem?_eq_getElem hi)).2.key_allowed hr
    have hkey' := (hall j _ (List.getElem?_eq_getElem hj)).2.key_allowed hr'
    rw [(Prod.mk.inj heq).1] at hkey'
    exact absurd (hdisjoint i j _ hkey hkey') (Nat.ne_of_lt hlt)

include hS hexport in
/-- Over all connections of a server, no two records share their key and their nonce, whoever
connects and whatever is sent, as long as no confirmation is taken for one of a commit that is not
pending any more. -/
theorem nonces_unique_across_connections (hM : KeepsIds M) (hsep : SeparatesEpochs V.crypto G)
    (hkeys : V.crypto.KeysDetermineIvs keyScheduleHashFunction aeadAlgorithm)
    (hfiled : Roster.Filed x.connection) (hdrawn : ∀ j g, x.connection.groups j = .ok (some g) →
      j ∈ x.drawn) (hnone : x.providers = []) (hrun : Runs G x y) :
    (y.log.map fun r => (r.key,r.nonce)).Nodup := by
  have hstart : Inv G x := ⟨⟨hfiled,hdrawn,by simp [hnone]⟩,fun _ _ => False,by simp,by simp,
    by simp [hnone]⟩
  have hinv := hrun.invariant (I := Inv G) (fun e z hz hok => by
    obtain ⟨i,fresh,hadvances⟩ := hz.orderly.advances hS hexport hM hok.1 hok.2.1
    exact hz.advances hsep hadvances hok.2.2) hstart
  exact hinv.nodup_log hkeys

end

end

namespace Sample
open EncryptionProvider.Sample (chrono environment)
open ResumingClient.Sample (Early)

def start : ServerProcess environment := ⟨[2],sampleDb,[],[]⟩

/-- The stored groups are all in an epoch in which their secrets differ. -/
def early (x : ServerProcess environment) : Bool :=
  x.drawn.all fun j => match x.connection.groups j with
    | .ok (some (g : MlsHandshake.Sample.Group)) => decide (Early g)
    | _ => true

lemma known_of_early {x : ServerProcess environment} (h : x.Orderly) (hearly : early x = true) :
    Known Early x.connection := by
  intro j g hg
  have hj := List.all_eq_true.mp hearly j (h.drawn j g hg)
  simpa [hg] using hj

lemma start_orderly : start.Orderly := by
  refine ⟨?_,?_,by simp [start]⟩
  · simp [Roster.Filed,start,sampleDb]
  · simp [start,sampleDb]

lemma selfUpdate_exports {signer : Bytes} {seed : ℕ} {g g' : sampleMls.Group} {m : sampleMls.Message}
    {secrets : TrafficSecrets} (h : sampleMls.selfUpdate signer seed g = .ok (m,g'))
    (hx : MlsSession.Exports g secrets) : MlsSession.Exports g' secrets := by
  obtain ⟨s,i,stage,ms,p⟩ := g
  cases stage <;> cases p <;> cases h
  exact hx

theorem separatesEpochs : SeparatesEpochs (M := sampleMls) sampleCrypto Early := by
  rintro g g' ⟨_,⟨secret⟩⟩ ⟨_,⟨secret'⟩⟩ key hg hg' hx hx' ⟨iv,hk⟩ ⟨iv',hk'⟩
  obtain rfl : MlsHandshake.Sample.secret g.commits 64 = secret := Except.ok.inj hx.2
  obtain rfl : MlsHandshake.Sample.secret g'.commits 64 = secret' := Except.ok.inj hx'.2
  exact hg.same_epoch hg' hk hk'

lemma run_known {x : ServerProcess environment}
    (h : Run step (fun e x => x.Draws e ∧ x.Backs e ∧ early (step e x) = true) start x) :
    Runs Early start x ∧ x.Orderly := by
  -- all groups have been drawn, so that it is enough to look at those after every event
  refine h.under (I := Orderly) (fun e y horderly hok => ?_) start_orderly
  obtain ⟨hdraws,hbacks,hearly⟩ := hok
  obtain ⟨i,fresh,hadvances⟩ := horderly.advances sampleStanding_lawful selfUpdate_exports
    sampleMls_keepsIds hdraws hbacks
  have hnext := hadvances.orderly horderly
  exact ⟨hnext,hdraws,hbacks,known_of_early hnext hearly⟩

def hello : Bytes := TlsFrameCodec.frame ((MlsTlsHandshakeOut.wire sampleMls).bytes
  (.fromPayload (.clientHello ⟨.keyPackage ⟨[7],[1]⟩⟩)))

def resumption (epoch : ℕ) : Bytes :=
  TlsFrameCodec.frame (resumptionBytes (M := sampleMls) (.commit ⟨[9],epoch,0,5⟩))

/-- The server updates after five ticks on its first connection, and never on the second. -/
def policy (updates : Bool) : UpdatePolicy chrono :=
  if updates then ⟨some (.new (5 : ℕ) (0 : ℕ)),none⟩ else ⟨none,none⟩

/-- The client confirms an update of the server and then resumes on a second connection. -/
def confirming : List (Event environment) :=
  [.accept hello [9] 0 (policy true),.sendBytes 0 [1] (6 : ℕ) 1,
    .processReadMessage 0 (.signaling (epochKeyUpdateBytes sampleMls 2)) 2,
    .sendBytes 0 [2] (6 : ℕ) 3,.accept (resumption 2) [11] 4 (policy false),
    .sendBytes 1 [3] (6 : ℕ) 5]

/-- The client resumes first, and then confirms the update that the resumption has replaced. -/
def replaced : List (Event environment) :=
  [.accept hello [9] 0 (policy true),.sendBytes 0 [1] (6 : ℕ) 1,
    .accept (resumption 1) [11] 2 (policy false),
    .processReadMessage 0 (.signaling (epochKeyUpdateBytes sampleMls 2)) 3,
    .sendBytes 0 [2] (6 : ℕ) 4,.sendBytes 1 [3] (6 : ℕ) 5,.sendBytes 1 [4] (6 : ℕ) 6,
    .sendBytes 1 [5] (6 : ℕ) 7,.sendBytes 1 [6] (6 : ℕ) 8]

def after (events : List (Event environment)) : ServerProcess environment :=
  events.foldl (fun x e => step e x) start

end Sample

theorem nonces_unique_across_connections_sample :
    (Sample.after Sample.confirming).log.length = 5 ∧
      ((Sample.after Sample.confirming).log.map fun r => (r.key,r.nonce)).Nodup := by
  have hrun : Run step (fun e x => x.Draws e ∧ x.Backs e ∧ Sample.early (step e x) = true)
      Sample.start (Sample.after Sample.confirming) := .ofList (by decide +kernel)
  exact ⟨by decide +kernel,nonces_unique_across_connections sampleStanding_lawful
    Sample.selfUpdate_exports sampleMls_keepsIds Sample.separatesEpochs
    (sampleCrypto_keysDetermineIvs _ _) Sample.start_orderly.filed Sample.start_orderly.drawn rfl
    (Sample.run_known hrun).1⟩

/-- A client that confirms an update on the connection it was sent on, after it has resumed on
another one, makes the server encrypt different records under one key and nonce. -/
theorem stale_confirmation_reuses_nonce :
    ∃ x, Run step (fun e x => x.Draws e ∧ Sample.early (step e x) = true) Sample.start x ∧
      ∃ r ∈ x.log, ∃ r' ∈ x.log, r.plaintext ≠ r'.plaintext ∧ r.key = r'.key ∧
        r.nonce = r'.nonce := by
  have hrun : Run step (fun e x => x.Draws e ∧ Sample.early (step e x) = true) Sample.start
      (Sample.after Sample.replaced) := .ofList (by decide +kernel)
  exact ⟨_,hrun,by decide +kernel⟩

end ServerProcess
end MlsTls.EncryptionProvider
