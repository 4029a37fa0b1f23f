import MlsTls.MlsHandshake.Processing

/-! One session next to others in the same database. A message is processed with the group it
names, which need not be the group of the session it arrives on; a call stays within its session as
long as the message names the session's own group. -/
namespace MlsTls.MlsHandshake
open Lib TlsAead MlsSession
variable {M : OpenMls}

/-- The group stored under the id exports the secrets, or did before an own commit was put on top
of it. -/
def SecretsOf (c : Connection M) (groupId : GroupId) (secrets : TrafficSecrets) : Prop :=
  ∃ g, M.groupId g = groupId ∧ Exports g secrets ∧
    (c.groups groupId = .ok (some g) ∨ ∃ signer seed commit g',
      M.selfUpdate signer seed g = .ok (commit,g') ∧ c.groups groupId = .ok (some g'))

/-- Each secret of an update is one of the group's. -/
def UpdateOf (c : Connection M) (groupId : GroupId) : SecretUpdate → Prop
  | .clientSecret secret => ∃ secrets, secrets.clientSecret = secret ∧ SecretsOf c groupId secrets
  | .serverSecret secret => ∃ secrets, secrets.serverSecret = secret ∧ SecretsOf c groupId secrets
  | .both secrets => SecretsOf c groupId secrets

/-- A call that found the groups of `c` and left those of `c'` has kept to the session's group:
every other group is as before, the session is still that group's, and what secrets it returned
are the group's own. -/
structure Confined {α : Type} (groupId : GroupId) (c : Connection M)
    (r : Outcome (HandshakeError M.Error) α) (session : MlsSession) (c' : Connection M)
    (own : Connection M → α → Prop) : Prop where
  groups : ∀ i, i ≠ groupId → c'.groups i = c.groups i
  session : session.groupId = groupId
  secrets : ∀ {a}, r = .ok a → own c' a

/-- If the message is a commit for a stored group, then for this one. -/
def NamesOwn (c : Connection M) (groupId : GroupId) (mlsMessage : M.Message) : Prop :=
  ∀ message g, M.extract mlsMessage = .privateMessage message →
    c.groups (M.messageGroupId message) = .ok (some g) → M.messageGroupId message = groupId

/-- The server's call has kept to the group of its session. -/
def ServerHandshakeState.KeepsToSession {β : Type} (s : ServerHandshakeState × Connection M)
    (r : Outcome (HandshakeError M.Error) (TrafficSecrets × β) × ServerHandshakeState ×
      Connection M) : Prop :=
  Confined s.1.mlsSession.groupId s.2 r.1 r.2.1.mlsSession r.2.2
    fun c' a => SecretsOf c' s.1.mlsSession.groupId a.1

/-- The client's call has kept to the group of its session. -/
def ClientHandshakeState.KeepsToSession {β : Type} (s : ClientHandshakeState M × Connection M)
    (r : Outcome (HandshakeError M.Error) (Option SecretUpdate × β) × ClientHandshakeState M ×
      Connection M) : Prop :=
  Confined s.1.mlsSession.groupId s.2 r.1 r.2.1.mlsSession r.2.2
    fun c' a => ∀ update ∈ a.1, UpdateOf c' s.1.mlsSession.groupId update

/-- The server secret that a waiting client keeps until the server confirms. -/
def ClientInternalState.awaited : ClientInternalState M → Option ServerSecret
  | .waitingForEpochKeyUpdate pending => some pending.trafficSecrets.serverSecret
  | .waitingForEpochKeyUpdateReturn serverSecret => some serverSecret
  | .running => none
  | .waitingForConnectionConfirmation _ => none

/-- What a client keeps for later is a secret of its session's group. -/
def ClientHandshakeState.Established (s : ClientHandshakeState M × Connection M) : Prop :=
  ∀ secret ∈ s.1.internalState.awaited,
    UpdateOf s.2 s.1.mlsSession.groupId (.serverSecret secret)

section
variable {S : Standing M} (hS : S.Lawful) {c : Connection M} (hfiled : Roster.Filed c)
  {message : M.PrivateMessage} {mlsMessage : M.Message} {g : M.Group} {groupId : GroupId}

lemma confined_of_eq {α : Type} {session : MlsSession} {own : Connection M → α → Prop}
    {f : Fault (HandshakeError M.Error)} :
    Confined session.groupId c (.error f) session c own :=
  ⟨fun _ _ => rfl,rfl,by simp⟩

lemma confined_of_saveGroup {α : Type} {session : MlsSession} {own : Connection M → α → Prop}
    {f : Fault (HandshakeError M.Error)} (hid : M.groupId g = session.groupId) :
    Confined session.groupId c (.error f) session (c.saveGroup g) own :=
  ⟨fun _ hi => c.saveGroup_groups_of_ne (by rw [hid]; exact hi),rfl,by simp⟩

lemma stored_cases (c : Connection M) (mlsMessage : M.Message) :
    (∀ message g, M.extract mlsMessage = .privateMessage message →
      c.groups (M.messageGroupId message) ≠ .ok (some g)) ∨
    ∃ message g, M.extract mlsMessage = .privateMessage message ∧
      c.groups (M.messageGroupId message) = .ok (some g) := by
  by_cases h : ∃ message g, M.extract mlsMessage = .privateMessage message ∧
      c.groups (M.messageGroupId message) = .ok (some g)
  · exact Or.inr h
  · exact Or.inl fun message g he hg => h ⟨message,g,he,hg⟩

lemma namesOwn_of_eq (he : M.extract mlsMessage = .privateMessage message)
    (hown : M.messageGroupId message = groupId) : NamesOwn c groupId mlsMessage := by
  intro message' g he' _
  obtain rfl := MlsMessageBodyIn.privateMessage.inj (he.symm.trans he')
  exact hown

section
variable {σ α : Type} {st : σ} {drop : Bool}
  {x : Exec (σ × Connection M) (HandshakeError M.Error) α}
  {f : TrafficSecrets × MlsSession × ClientIdentity →
    Exec (σ × Connection M) (HandshakeError M.Error) α}
  (hx : x = Exec.zoom Prod.snd (fun c s => (s.1,c)) (processMlsUpdate mlsMessage drop) >>= f)
include hS hfiled hx

/-- A call that begins with the processing of a message for its own group keeps to the group if it
does so after a merge. -/
theorem confined_of_merged {session : σ → MlsSession} {own : Connection M → α → Prop}
    (hnames : NamesOwn c (session st).groupId mlsMessage)
    (hmerged : ∀ {g secrets identity}, M.groupId g = (session st).groupId → Exports g secrets →
      (processMlsUpdate mlsMessage drop).run c =
        (.ok (secrets,⟨M.groupId g,M.epoch g⟩,identity),c.saveGroup g) →
      Confined (session st).groupId c (x.run (st,c)).1 (session (x.run (st,c)).2.1)
        (x.run (st,c)).2.2 own) :
    Confined (session st).groupId c (x.run (st,c)).1 (session (x.run (st,c)).2.1)
      (x.run (st,c)).2.2 own := by
  rcases stored_cases c mlsMessage with hnone | ⟨message,g,he,hg⟩
  · obtain ⟨e,hr⟩ := processMlsUpdate_nothing drop hnone
    rw [processMlsUpdate_failed hx hr]
    exact confined_of_eq
  · have hid := (hfiled _ _ hg).trans (hnames _ _ he hg)
    have hproc := processMlsUpdate_processed hS he hg drop
    generalize hr : (processMlsUpdate mlsMessage drop).run c = r at hproc
    cases hproc with
    | panicked hroom =>
      rw [processMlsUpdate_failed hx hr]
      exact confined_of_eq
    | unsettled e hroom hno =>
      rw [processMlsUpdate_failed hx hr]
      exact confined_of_eq
    | rejected e hs hno =>
      rw [processMlsUpdate_failed hx hr]
      exact confined_of_saveGroup ((hS.process message _).1.trans ((hs.groupId_eq hS).trans hid))
    | unexported e hs ha hno =>
      rw [processMlsUpdate_failed hx hr]
      exact confined_of_saveGroup ((ha.groupId_stored hS hs).trans hid)
    | merged hs ha hexports => exact hmerged ((ha.groupId_stored hS hs).trans hid) hexports hr

/-- A call that begins with the processing of a message and returns has gone on to the group that
the message names. -/
theorem namesOwn_of_merged {s' : σ × Connection M} {a : α} {session : MlsSession}
    (hrun : x.run (st,c) = (.ok a,s')) (hsession : session.groupId = groupId)
    (hmerged : ∀ {g secrets identity}, Exports g secrets → (processMlsUpdate mlsMessage drop).run c =
      (.ok (secrets,⟨M.groupId g,M.epoch g⟩,identity),c.saveGroup g) →
      session.groupId = M.groupId g) : NamesOwn c groupId mlsMessage := by
  rcases stored_cases c mlsMessage with hnone | ⟨message,g,he,hg⟩
  · intro message g he hg
    exact absurd hg (hnone _ _ he)
  · have hproc := processMlsUpdate_processed hS he hg drop
    generalize hr : (processMlsUpdate mlsMessage drop).run c = r at hproc
    cases hproc with
    | panicked hroom => simp [processMlsUpdate_failed hx hr] at hrun
    | unsettled e hroom hno => simp [processMlsUpdate_failed hx hr] at hrun
    | rejected e hs hno => simp [processMlsUpdate_failed hx hr] at hrun
    | unexported e hs ha hno => simp [processMlsUpdate_failed hx hr] at hrun
    | merged hs ha hexports =>
      have hid := (ha.groupId_stored hS hs).trans (hfiled _ _ hg)
      exact namesOwn_of_eq he (hid.symm.trans ((hmerged hexports hr).symm.trans hsession))

end

include hS hfiled

lemma ServerHandshakeState.processUpdate_keepsToSession (leafSigner : M.SignatureKeyPair)
    {update : ConnectionUpdateIn M} (seed : ℕ) {st : ServerHandshakeState}
    (hnames : NamesOwn c st.mlsSession.groupId update.mlsCommit) :
    KeepsToSession (st,c) ((processUpdate leafSigner update seed).run (st,c)) := by
  refine confined_of_merged (x := processUpdate leafSigner update seed) hS hfiled rfl hnames
    fun {g secrets identity} hid hx hr => ?_
  obtain ⟨r,i,g',hrun,hg',hr'⟩ := processUpdate_merged hS leafSigner seed hr st
  have hid' : M.groupId g' = st.mlsSession.groupId := by
    rcases hg' with rfl | ⟨commit,hu⟩
    · exact hid
    · exact (hS.selfUpdate hu).1.trans hid
  rw [hrun]
  refine ⟨fun j hj => c.saveGroup_groups_of_ne (by rw [hid']; exact hj),hid,fun {a} ha => ?_⟩
  rcases hr' with ⟨-,bytes,rfl⟩ | ⟨-,e,rfl⟩
  · obtain rfl := Except.ok.inj ha
    have hstored : (c.saveGroup g').groups st.mlsSession.groupId = .ok (some g') :=
      c.saveGroup_groups hid'
    refine ⟨g,hid,hx,?_⟩
    rcases hg' with rfl | ⟨commit,hu⟩
    · exact Or.inl hstored
    · exact Or.inr ⟨leafSigner,seed,commit,g',hu,hstored⟩
  · simp at ha

lemma ServerHandshakeState.processUpdate_namesOwn {leafSigner : M.SignatureKeyPair}
    {update : ConnectionUpdateIn M} {seed : ℕ} {st st' : ServerHandshakeState}
    {c' : Connection M} {a : TrafficSecrets × Bytes}
    (hrun : (processUpdate leafSigner update seed).run (st,c) = (.ok a,(st',c')))
    (hsession : st'.mlsSession.groupId = groupId) : NamesOwn c groupId update.mlsCommit := by
  refine namesOwn_of_merged hS hfiled rfl hrun hsession fun {g secrets identity} hx hr => ?_
  obtain ⟨r,i,g',hrun',-,-⟩ := processUpdate_merged hS leafSigner seed hr st
  obtain ⟨-,hst⟩ := Prod.mk.inj (hrun'.symm.trans hrun)
  obtain ⟨rfl,-⟩ := Prod.mk.inj hst
  rfl

lemma ServerHandshakeState.receiveEpochKeyUpdate_keepsToSession (epochKeyUpdate : EpochKeyUpdate)
    (messageType : String) (st : ServerHandshakeState) :
    KeepsToSession (st,c) ((receiveEpochKeyUpdate epochKeyUpdate messageType).run (st,c)) := by
  cases hw : st.isWaitingForResponse with
  | false =>
    simp only [receiveEpochKeyUpdate,Exec.bind_run,Exec.get_run,hw]
    exact confined_of_eq
  | true =>
    by_cases hm : ∃ g g', c.groups st.mlsSession.groupId = .ok (some g) ∧
        M.mergePendingCommit g = .ok g'
    · obtain ⟨g,g',hg,hm⟩ := hm
      have hid : M.groupId g' = st.mlsSession.groupId :=
        (hS.mergePending hm).1.trans (hfiled _ _ hg)
      obtain ⟨r,i,hrun,hr⟩ := receiveEpochKeyUpdate_merged hw hg hm hid epochKeyUpdate messageType
      rw [hrun]
      refine ⟨fun j hj => c.saveGroup_groups_of_ne (by rw [hid]; exact hj),rfl,fun {a} ha => ?_⟩
      rcases hr with ⟨-,secrets,bytes,hx,rfl⟩ | ⟨-,-,e,rfl⟩
      · obtain rfl := Except.ok.inj ha
        exact ⟨g',hid,hx,Or.inl (c.saveGroup_groups hid)⟩
      · simp at ha
    · obtain ⟨e,hrun⟩ := receiveEpochKeyUpdate_unmerged hw
        (fun g g' hg hm' => hm ⟨g,g',hg,hm'⟩) epochKeyUpdate messageType
      rw [hrun]
      exact confined_of_eq

lemma ServerHandshakeState.receive_keepsToSession (leafSigner : M.SignatureKeyPair)
    (messageBytes : Bytes) (seed : ℕ) (st : ServerHandshakeState) :
    let r := (receiveSignalingMessage leafSigner messageBytes seed).run (st,c)
    let names := ∀ update, (SignalingMessageIn.wire M).decExact messageBytes =
      some (.connectionUpdate update) → NamesOwn c st.mlsSession.groupId update.mlsCommit
    (names → KeepsToSession (st,c) r) ∧ ∀ a, r.1 = .ok a → KeepsToSession (st,c) r → names := by
  dsimp only
  rw [receiveSignalingMessage,deserializeExact]
  cases (SignalingMessageIn.wire M).decExact messageBytes with
  | none => exact ⟨fun _ => confined_of_eq,by simp⟩
  | some message =>
    rw [Exec.bind_of_ok (Exec.orThrow_some ..)]
    cases message with
    | connectionUpdate update =>
      simp only [Option.some.injEq,SignalingMessageIn.connectionUpdate.injEq,forall_eq',
        Exec.bind_run]
      have hkeeps (hn : NamesOwn c st.mlsSession.groupId update.mlsCommit) :=
        processUpdate_keepsToSession hS hfiled leafSigner seed hn
      have hnames {st' c' a}
          (hrun : (processUpdate leafSigner update seed).run (st,c) = (.ok a,(st',c')))
          (hsession : st'.mlsSession.groupId = st.mlsSession.groupId) :=
        processUpdate_namesOwn hS hfiled hrun hsession
      generalize (processUpdate leafSigner update seed).run (st,c) = r at hkeeps hnames ⊢
      rcases r with ⟨f | ⟨secrets,bytes⟩,st',c'⟩
      · refine ⟨fun h => ?_,by simp⟩
        exact ⟨(hkeeps h).groups,(hkeeps h).session,by simp⟩
      · refine ⟨fun h => ⟨(hkeeps h).groups,(hkeeps h).session,fun {a} ha => ?_⟩,
          fun _ _ h => hnames rfl h.session⟩
        obtain rfl := Except.ok.inj ha
        exact (hkeeps h).secrets rfl
    | connectionConfirmation confirmation => exact ⟨fun _ => confined_of_eq,by simp⟩
    | epochKeyUpdate update =>
      exact ⟨fun _ => receiveEpochKeyUpdate_keepsToSession hS hfiled update _ st,by simp⟩
    | keyUpdate update => exact ⟨fun _ => confined_of_eq,by simp⟩

lemma ClientHandshakeState.processUpdate_confined (leafSigner : M.SignatureKeyPair)
    {update : ConnectionUpdateIn M} (seed : ℕ) {st : ClientHandshakeState M}
    (hnames : NamesOwn c st.mlsSession.groupId update.mlsCommit) :
    let r := (processUpdate leafSigner update seed).run (st,c)
    Confined st.mlsSession.groupId c r.1 r.2.1.mlsSession r.2.2
      fun c' a => UpdateOf c' st.mlsSession.groupId (.clientSecret a.1) := by
  refine confined_of_merged (x := processUpdate leafSigner update seed) hS hfiled rfl hnames
    fun {g secrets identity} hid hx hr => ?_
  obtain ⟨r,st',g',hrun,-,hsession,hid',-,-,hr'⟩ := processUpdate_merged hS leafSigner seed hx hr st
  have hid'' : M.groupId g' = st.mlsSession.groupId := hid'.trans hid
  rw [hrun]
  refine ⟨fun j hj => ?_,hsession.trans hid,fun {a} ha => ?_⟩
  · exact c.saveGroup_groups_of_ne (by rw [hid'']; exact hj)
  · rcases hr' with ⟨-,secrets',bytes,hx',rfl⟩ | ⟨-,e,rfl⟩
    · obtain rfl := Except.ok.inj ha
      exact ⟨secrets',rfl,g',hid'',hx',Or.inl (c.saveGroup_groups hid'')⟩
    · simp at ha

lemma ClientHandshakeState.processUpdate_namesOwn {leafSigner : M.SignatureKeyPair}
    {update : ConnectionUpdateIn M} {seed : ℕ} {st st' : ClientHandshakeState M}
    {c' : Connection M} {a : ClientSecret × Bytes}
    (hrun : (processUpdate leafSigner update seed).run (st,c) = (.ok a,(st',c')))
    (hsession : st'.mlsSession.groupId = groupId) : NamesOwn c groupId update.mlsCommit := by
  refine namesOwn_of_merged hS hfiled rfl hrun hsession fun {g secrets identity} hx hr => ?_
  obtain ⟨r,st₂,g',hrun',-,hid,-⟩ := processUpdate_merged hS leafSigner seed hx hr st
  obtain ⟨-,hst⟩ := Prod.mk.inj (hrun'.symm.trans hrun)
  obtain ⟨rfl,-⟩ := Prod.mk.inj hst
  exact hid

omit hS hfiled in
lemma storeUpdate_groups (J : Serde M) (state : ClientHandshakeState M) (c : Connection M) :
    ((ClientHandshakeState.storeUpdate J state).run c).2.groups = c.groups := by
  have hrows : Exec.Keeps (fun c' : Connection M => c'.groups = c.groups)
      (ClientHandshakeState.handshakeStates : Db M _) fun _ => True :=
    .bind .get fun _ _ => .mono .orThrow fun _ _ => trivial
  have h : Exec.Keeps (fun c' : Connection M => c'.groups = c.groups)
      (ClientHandshakeState.storeUpdate J state) fun _ => True :=
    .bind hrows fun _ _ => .bind .orThrow fun _ _ => .modify fun _ h => h
  exact h.snd rfl

omit hS hfiled in
lemma UpdateOf.congr {c' : Connection M} (h : c'.groups = c.groups) {update : SecretUpdate}
    (hu : UpdateOf c groupId update) : UpdateOf c' groupId update := by
  cases update with
  | clientSecret secret => simpa only [UpdateOf,SecretsOf,h] using hu
  | serverSecret secret => simpa only [UpdateOf,SecretsOf,h] using hu
  | both secrets => simpa only [UpdateOf,SecretsOf,h] using hu

lemma ClientHandshakeState.receiveConnectionUpdate_keepsToSession (J : Serde M)
    (leafSigner : M.SignatureKeyPair) {update : ConnectionUpdateIn M} (seed : ℕ)
    {st : ClientHandshakeState M}
    (hnames : st.isWaitingForResponse = false →
      NamesOwn c st.mlsSession.groupId update.mlsCommit) :
    KeepsToSession (st,c) ((receiveConnectionUpdate J leafSigner update seed).run (st,c)) := by
  simp only [receiveConnectionUpdate,Exec.bind_run,Exec.get_run]
  cases hw : st.isWaitingForResponse with
  | true => exact ⟨fun _ _ => rfl,rfl,by simp⟩
  | false =>
    have hcon := processUpdate_confined hS hfiled leafSigner seed (hnames hw)
    simp only [Bool.false_eq_true,if_false,Exec.bind_run]
    generalize (processUpdate leafSigner update seed).run (st,c) = r at hcon ⊢
    obtain ⟨r,st',c'⟩ := r
    cases r with
    | error f => exact ⟨hcon.groups,hcon.session,by simp⟩
    | ok a =>
      obtain ⟨secret,bytes⟩ := a
      simp only [db,Exec.zoom_run,Exec.get_run]
      have hgroups := storeUpdate_groups J st' c'
      generalize (storeUpdate J st').run c' = stored at hgroups ⊢
      have hsame (i : GroupId) (hi : i ≠ st.mlsSession.groupId) :
          stored.2.groups i = c.groups i :=
        (congrFun hgroups i).trans (hcon.groups i hi)
      rcases stored with ⟨f | u,c''⟩
      · exact ⟨hsame,hcon.session,by simp⟩
      · refine ⟨hsame,hcon.session,fun {a} ha u hu => ?_⟩
        obtain rfl := Except.ok.inj ha
        obtain rfl := Option.some.inj hu
        exact (hcon.secrets rfl).congr hgroups

lemma ClientHandshakeState.receiveConnectionUpdate_namesOwn {J : Serde M}
    {leafSigner : M.SignatureKeyPair} {update : ConnectionUpdateIn M} {seed : ℕ}
    {st st' : ClientHandshakeState M} {c' : Connection M} {a : Option SecretUpdate × Option Bytes}
    (hw : st.isWaitingForResponse = false)
    (hrun : (receiveConnectionUpdate J leafSigner update seed).run (st,c) = (.ok a,(st',c')))
    (hsession : st'.mlsSession.groupId = groupId) : NamesOwn c groupId update.mlsCommit := by
  simp only [receiveConnectionUpdate,Exec.bind_run,Exec.get_run,hw,Bool.false_eq_true,if_false]
    at hrun
  have hnames {st' c' a}
      (hrun : (processUpdate leafSigner update seed).run (st,c) = (.ok a,(st',c')))
      (hsession : st'.mlsSession.groupId = groupId) := processUpdate_namesOwn hS hfiled hrun hsession
  generalize (processUpdate leafSigner update seed).run (st,c) = r at hnames hrun
  rcases r with ⟨f | ⟨secret,bytes⟩,st₁,c₁⟩
  · simp at hrun
  · refine hnames rfl ?_
    simp only [db,Exec.zoom_run] at hrun
    generalize (storeUpdate J st₁).run c₁ = stored at hrun
    rcases stored with ⟨f | u,c₂⟩
    · simp at hrun
    · obtain ⟨-,hst⟩ := Prod.mk.inj hrun
      obtain ⟨rfl,-⟩ := Prod.mk.inj hst
      exact hsession

omit hS hfiled

/-- The groups and the session are the ones of the beginning. -/
def ClientHandshakeState.SameSession (c : Connection M) (session : MlsSession)
    (s : ClientHandshakeState M × Connection M) : Prop :=
  s.2.groups = c.groups ∧ s.1.mlsSession = session

namespace ClientHandshakeState

lemma setInternalState_sameSession {session : MlsSession} (i : ClientInternalState M) :
    Exec.Keeps (SameSession c session) (setInternalState i) fun _ => True :=
  .modify fun _ h => h

lemma processEpochKeyUpdate_sameSession {session : MlsSession} (keyUpdate : EpochKeyUpdate) :
    Exec.Keeps (SameSession c session) (processEpochKeyUpdate keyUpdate) fun _ => True := by
  refine .bind .get fun s _ => ?_
  intro s' hs'
  have hsame : ((s.1.mlsSession.processEpochKeyUpdate keyUpdate).run s'.2).2 = s'.2 := by
    have hload : Exec.Keeps (fun c' : Connection M => c' = s'.2)
        (loadGroup s.1.mlsSession.groupId) fun _ => True :=
      .bind .get fun _ _ => .bind .lift fun _ _ => .mono .orThrow fun _ _ => trivial
    have h : Exec.Keeps (fun c' : Connection M => c' = s'.2)
        (s.1.mlsSession.processEpochKeyUpdate keyUpdate) fun _ => True := by
      refine .bind hload fun g _ => ?_
      split_ifs
      · exact .throw
      · exact .pure trivial
    exact h.snd rfl
  rw [db,Exec.zoom_run,hsame]
  cases ((s.1.mlsSession.processEpochKeyUpdate keyUpdate).run s'.2).1 with
  | ok a => exact ⟨hs',trivial⟩
  | error f => exact hs'

lemma storeCurrent_sameSession {session : MlsSession} (J : Serde M)
    (st : ClientHandshakeState M) :
    Exec.Keeps (SameSession c session) (db (storeUpdate J st)) fun _ => True := by
  intro s hs
  have hgroups := storeUpdate_groups J st s.2
  rw [db,Exec.zoom_run]
  cases ((storeUpdate J st).run s.2).1 with
  | ok a => exact ⟨⟨hgroups.trans hs.1,hs.2⟩,trivial⟩
  | error f => exact ⟨hgroups.trans hs.1,hs.2⟩

lemma keepsToSession_of_keeps {st : ClientHandshakeState M}
    {x : Call M (Option SecretUpdate × Option Bytes)}
    (h : Exec.Keeps (SameSession c st.mlsSession) x
      fun a => ∀ update ∈ a.1, UpdateOf c st.mlsSession.groupId update)
    {st₀ : ClientHandshakeState M} (hst : st₀.mlsSession = st.mlsSession) :
    KeepsToSession (st,c) (x.run (st₀,c)) := by
  obtain ⟨hgroups,hsession⟩ := h.snd (s := (st₀,c)) ⟨rfl,hst⟩
  refine ⟨fun i _ => congrFun hgroups i,congrArg _ hsession,fun {a} ha u hu => ?_⟩
  rcases hr : x.run (st₀,c) with ⟨r,s'⟩
  rw [hr] at ha hgroups
  subst ha
  exact (h.result ⟨rfl,hst⟩ hr u hu).congr hgroups

lemma receiveConnectionConfirmation_keepsToSession (J : Serde M) (confirmation : EpochKeyUpdate)
    (messageType : String) (st : ClientHandshakeState M) :
    KeepsToSession (st,c)
      ((receiveConnectionConfirmation J confirmation messageType).run (st,c)) := by
  rw [receiveConnectionConfirmation,Exec.bind_of_ok (takeInternalState_run st c)]
  refine keepsToSession_of_keeps ?_ rfl
  split
  · exact .bind (processEpochKeyUpdate_sameSession _) fun _ _ =>
      .bind (setInternalState_sameSession _) fun _ _ => .bind .get fun _ _ =>
        .bind (storeCurrent_sameSession J _) fun _ _ => .pure (by simp)
  · exact .throw

lemma receiveEpochKeyUpdate_keepsToSession (J : Serde M) (update : EpochKeyUpdate)
    (messageType : String) {st : ClientHandshakeState M} (hst : Established (st,c)) :
    KeepsToSession (st,c) ((receiveEpochKeyUpdate J update messageType).run (st,c)) := by
  rw [receiveEpochKeyUpdate,Exec.bind_of_ok (takeInternalState_run st c)]
  refine keepsToSession_of_keeps ?_ rfl
  have hkeeps (secret : ServerSecret) (h : secret ∈ st.internalState.awaited) :
      Exec.Keeps (SameSession c st.mlsSession) (do
          processEpochKeyUpdate update
          let s ← Exec.get
          db (storeUpdate J s.1)
          pure (some (.serverSecret secret),none) : Call M (Option SecretUpdate × Option Bytes))
        fun a => ∀ update ∈ a.1, UpdateOf c st.mlsSession.groupId update := by
    refine .bind (processEpochKeyUpdate_sameSession _) fun _ _ => .bind .get fun _ _ =>
      .bind (storeCurrent_sameSession J _) fun _ _ => .pure ?_
    intro u hu
    obtain rfl := Option.some.inj hu
    exact hst secret h
  cases hi : st.internalState with
  | waitingForEpochKeyUpdateReturn secret => exact hkeeps secret (by rw [hi]; rfl)
  | waitingForEpochKeyUpdate pending => exact hkeeps _ (by rw [hi]; rfl)
  | running => exact .throw
  | waitingForConnectionConfirmation pending => exact .throw

lemma receive_keepsToSession (hS : S.Lawful) (hfiled : Roster.Filed c) (J : Serde M)
    (leafSigner : M.SignatureKeyPair) (messageBytes : Bytes) (seed : ℕ)
    {st : ClientHandshakeState M} (hst : Established (st,c)) :
    let r := (receiveSignalingMessage J leafSigner messageBytes seed).run (st,c)
    let names := st.isWaitingForResponse = false → ∀ update,
      (SignalingMessageIn.wire M).decExact messageBytes = some (.connectionUpdate update) →
        NamesOwn c st.mlsSession.groupId update.mlsCommit
    (names → KeepsToSession (st,c) r) ∧ ∀ a, r.1 = .ok a → KeepsToSession (st,c) r → names := by
  dsimp only
  rw [receiveSignalingMessage,deserializeExact]
  cases (SignalingMessageIn.wire M).decExact messageBytes with
  | none => exact ⟨fun _ => confined_of_eq,by simp⟩
  | some message =>
    rw [Exec.bind_of_ok (Exec.orThrow_some ..)]
    cases message with
    | connectionUpdate update =>
      simp only [Option.some.injEq,SignalingMessageIn.connectionUpdate.injEq,forall_eq']
      refine ⟨receiveConnectionUpdate_keepsToSession hS hfiled J leafSigner seed,?_⟩
      intro a ha h hw
      exact receiveConnectionUpdate_namesOwn hS hfiled hw (Prod.ext ha rfl) h.session
    | connectionConfirmation confirmation =>
      exact ⟨fun _ => receiveConnectionConfirmation_keepsToSession J confirmation _ st,by simp⟩
    | epochKeyUpdate update =>
      exact ⟨fun _ => receiveEpochKeyUpdate_keepsToSession J update _ hst,by simp⟩
    | keyUpdate update => exact ⟨fun _ => confined_of_eq,by simp⟩

section
variable (hS : S.Lawful) {st : ClientHandshakeState M}

lemma established_of_awaited {s : ClientHandshakeState M × Connection M}
    (h : s.1.internalState.awaited = none) : Established s := by
  intro secret hs
  rw [h] at hs
  simp at hs

lemma db_keeps_state {α : Type} (I : ClientHandshakeState M → Prop) (x : Db M α) :
    Exec.Keeps (fun s => I s.1) (db x) fun _ => True := by
  intro s hs
  rw [db,Exec.zoom_run]
  cases (x.run s.2).1 with
  | ok a => exact ⟨hs,trivial⟩
  | error f => exact hs

lemma established_of_running {α : Type} {x : Call M α} {Q : α → Prop}
    (h : Exec.Keeps (fun s => s.1.internalState = .running) x Q)
    {s : ClientHandshakeState M × Connection M} (hs : s.1.internalState = .running) :
    Established (x.run s).2 :=
  established_of_awaited (by rw [h.snd hs]; rfl)

lemma receiveConnectionConfirmation_established (J : Serde M) (confirmation : EpochKeyUpdate)
    (messageType : String) (st : ClientHandshakeState M) :
    Established ((receiveConnectionConfirmation J confirmation messageType).run (st,c)).2 := by
  rw [receiveConnectionConfirmation,Exec.bind_of_ok (takeInternalState_run st c)]
  refine established_of_running (Q := fun _ => True) ?_ rfl
  split
  · exact .bind (.bind .get fun _ _ => db_keeps_state (·.internalState = .running) _) fun _ _ =>
      .bind (.modify fun _ _ => rfl) fun _ _ => .bind .get fun _ _ =>
        .bind (db_keeps_state (·.internalState = .running) _) fun _ _ => .pure trivial
  · exact .throw

lemma receiveEpochKeyUpdate_established (J : Serde M) (update : EpochKeyUpdate)
    (messageType : String) (st : ClientHandshakeState M) :
    Established ((receiveEpochKeyUpdate J update messageType).run (st,c)).2 := by
  rw [receiveEpochKeyUpdate,Exec.bind_of_ok (takeInternalState_run st c)]
  refine established_of_running (Q := fun _ => True) ?_ rfl
  split
  · exact .bind (.bind .get fun _ _ => db_keeps_state (·.internalState = .running) _) fun _ _ =>
      .bind .get fun _ _ => .bind (db_keeps_state (·.internalState = .running) _) fun _ _ =>
        .pure trivial
  · exact .bind (.bind .get fun _ _ => db_keeps_state (·.internalState = .running) _) fun _ _ =>
      .bind .get fun _ _ => .bind (db_keeps_state (·.internalState = .running) _) fun _ _ =>
        .pure trivial
  · exact .throw

/-- What a client keeps after a resumption is not among the secrets it hands out later. -/
theorem established_resume (leafSigner : M.SignatureKeyPair) (seed : ℕ)
    (st : ClientHandshakeState M) : Established ((resume leafSigner seed).run (st,c)).2 := by
  rw [resume,Exec.bind_of_ok (takeInternalState_run st c)]
  have hfresh : Exec.Keeps (fun s => s.1.internalState.awaited = none)
      (freshResumption leafSigner seed) fun _ => True := by
    have hcommit : Exec.Keeps (fun s => s.1.internalState.awaited = none)
        (sessionUpdate leafSigner seed) fun _ => True :=
      .bind .get fun _ _ => db_keeps_state (·.internalState.awaited = none) _
    refine .bind hcommit.mapError fun m _ => .bind (?_ : Exec.Keeps _ _ fun _ => True) fun _ _ =>
      .pure trivial
    intro s hs
    rw [session,Exec.zoom_run]
    cases (mergeUpdate.run (s.1.mlsSession,s.2)).1 with
    | ok a => exact ⟨hs,trivial⟩
    | error f => exact hs
  have htail (m : M.Message) (secrets : TrafficSecrets) :
      Exec.Keeps (fun s => s.1.internalState.awaited = none)
        (do
          let messageBytes ← serialize (MlsTlsHandshakeOut.wire M)
            (.fromPayload (.resumption ⟨m⟩))
          setInternalState (.waitingForConnectionConfirmation ⟨m,secrets⟩)
          pure (secrets,messageBytes) : Call M (TrafficSecrets × Bytes)) fun _ => True :=
    .bind .orThrow fun _ _ => .bind (.modify fun _ _ => rfl) fun _ _ => .pure trivial
  apply established_of_awaited
  cases st.internalState with
  | running => exact (Exec.Keeps.bind hfresh fun a _ => htail a.1 a.2).snd rfl
  | waitingForEpochKeyUpdateReturn secret =>
    exact (Exec.Keeps.bind hfresh fun a _ => htail a.1 a.2).snd rfl
  | waitingForEpochKeyUpdate pending => exact (htail _ _).snd rfl
  | waitingForConnectionConfirmation pending => exact (htail _ _).snd rfl

lemma Established.congr {c' : Connection M} (h : Established (st,c)) (hc : c'.groups = c.groups) :
    Established (st,c') := fun secret hs => (h secret hs).congr hc

lemma Established.store {α : Type} (h : Established (st,c)) (J : Serde M) (a : α) :
    Established ((do
      let s ← Exec.get
      db (storeUpdate J s.1)
      pure a : Call M α).run (st,c)).2 := by
  -- a write of the row comes after the last change
  simp only [db,Exec.bind_run,Exec.get_run,Exec.zoom_run]
  have hgroups := storeUpdate_groups J st c
  generalize (storeUpdate J st).run c = stored at hgroups ⊢
  obtain ⟨f | u,c'⟩ := stored
  · exact h.congr hgroups
  · exact h.congr hgroups

lemma internalState_of_not_waiting (h : st.isWaitingForResponse = false) :
    st.internalState = .running := by
  unfold isWaitingForResponse at h
  split at h
  · assumption
  · simp at h

include hS

lemma processUpdate_established (leafSigner : M.SignatureKeyPair) (update : ConnectionUpdateIn M)
    (seed : ℕ) (hst : st.internalState = .running) :
    Established ((processUpdate leafSigner update seed).run (st,c)).2 := by
  have hrunning : st.internalState.awaited = none := by rw [hst]; rfl
  rcases stored_cases c update.mlsCommit with hnone | ⟨message,g,he,hg⟩
  · obtain ⟨e,hrun⟩ := processMlsUpdate_nothing false hnone
    simp only [processUpdate,Exec.bind_run,db_run hrun st]
    exact established_of_awaited hrunning
  · have hproc := processMlsUpdate_processed hS he hg false
    generalize hr : (processMlsUpdate update.mlsCommit false).run c = r at hproc
    cases hproc with
    | panicked hroom =>
      simp only [processUpdate,Exec.bind_run,db_run hr st]
      exact established_of_awaited hrunning
    | unsettled e hroom hno =>
      simp only [processUpdate,Exec.bind_run,db_run hr st]
      exact established_of_awaited hrunning
    | rejected e hs hno =>
      simp only [processUpdate,Exec.bind_run,db_run hr st]
      exact established_of_awaited hrunning
    | unexported e hs ha hx =>
      simp only [processUpdate,Exec.bind_run,db_run hr st]
      exact established_of_awaited hrunning
    | merged hs ha hx =>
      obtain ⟨r,st',g',hrun,-,hsession,hid',-,hi,-⟩ := processUpdate_merged hS
        leafSigner seed hx hr st
      rw [hrun]
      rcases hi with hi | ⟨secrets',hx',hi⟩
      · exact established_of_awaited (by rw [hi]; exact hrunning)
      · intro secret hsecret
        have hs : secrets'.serverSecret = secret := by
          rcases hi with ⟨commit,hi⟩ | hi
          · rw [hi] at hsecret
            exact Option.some.inj hsecret
          · rw [hi] at hsecret
            exact Option.some.inj hsecret
        have hg' : M.groupId g' = st'.mlsSession.groupId := hid'.trans hsession.symm
        exact ⟨secrets',hs,g',hg',hx',Or.inl (c.saveGroup_groups hg')⟩

lemma receiveConnectionUpdate_established (J : Serde M) (leafSigner : M.SignatureKeyPair)
    (update : ConnectionUpdateIn M) (seed : ℕ) (hst : Established (st,c)) :
    Established ((receiveConnectionUpdate J leafSigner update seed).run (st,c)).2 := by
  simp only [receiveConnectionUpdate,Exec.bind_run,Exec.get_run]
  cases hw : st.isWaitingForResponse with
  | true => exact hst
  | false =>
    have h := processUpdate_established hS leafSigner update seed (c := c)
      (internalState_of_not_waiting hw)
    simp only [Bool.false_eq_true,if_false,Exec.bind_run]
    generalize (processUpdate leafSigner update seed).run (st,c) = r at h ⊢
    obtain ⟨f | a,st',c'⟩ := r
    · exact h
    · exact Established.store h J _

/-- Whatever arrives, the client keeps no secret but of the group of its session. -/
theorem Established.receive (J : Serde M) (leafSigner : M.SignatureKeyPair) (messageBytes : Bytes)
    (seed : ℕ) (hst : Established (st,c)) :
    Established ((receiveSignalingMessage J leafSigner messageBytes seed).run (st,c)).2 := by
  rw [receiveSignalingMessage,deserializeExact]
  cases (SignalingMessageIn.wire M).decExact messageBytes with
  | none => exact hst
  | some message =>
    rw [Exec.bind_of_ok (Exec.orThrow_some ..)]
    cases message with
    | connectionUpdate update =>
      exact receiveConnectionUpdate_established hS J leafSigner update seed hst
    | connectionConfirmation confirmation =>
      exact receiveConnectionConfirmation_established J confirmation _ st
    | epochKeyUpdate update => exact receiveEpochKeyUpdate_established J update _ st
    | keyUpdate update => exact hst

theorem Established.update (hfiled : Roster.Filed c) (J : Serde M)
    (leafSigner : M.SignatureKeyPair) (updateRequested : Bool) (seed : ℕ)
    (hst : Established (st,c)) :
    Established ((ClientHandshakeState.update J leafSigner updateRequested seed).run (st,c)).2 := by
  simp only [ClientHandshakeState.update,Exec.bind_run,Exec.get_run]
  cases hw : st.isWaitingForResponse with
  | true => exact hst
  | false =>
    have hrunning := internalState_of_not_waiting hw
    have hnone {e : ℕ} {c' : Connection M} :
        Established (⟨st.profileId,⟨st.mlsSession.groupId,e⟩,st.internalState⟩,c') :=
      established_of_awaited (by rw [hrunning]; rfl)
    simp only [Bool.false_eq_true,if_false,Exec.bind_run,sessionUpdate,Exec.get_run]
    rcases hg : c.groups st.mlsSession.groupId with e | _ | g
    · simp only [db,Exec.zoom_run,MlsSession.update,loadGroup,Exec.bind_run,Exec.get_run,hg,
        Exec.lift_error]
      exact hst
    · simp only [db,Exec.zoom_run,MlsSession.update,loadGroup,Exec.bind_run,Exec.get_run,hg,
        Exec.lift_ok,Exec.orThrow_none]
      exact hst
    · rcases update_cases st.mlsSession hg leafSigner seed with ⟨e,-,hrun⟩ | ⟨commit,g',hu,hrun⟩
      · rw [db_run hrun]
        exact hnone
      · rw [db_run hrun]
        have hid : M.groupId g' = st.mlsSession.groupId :=
          (hS.selfUpdate hu).1.trans (hfiled _ _ hg)
        rcases mergeUpdate_cases st.mlsSession (c.saveGroup_groups hid) with ⟨e,-,hmerge⟩ | ⟨g'',hm,hmerge⟩
        · simp only [session_run hmerge]
          exact hnone
        · have hid' : M.groupId g'' = st.mlsSession.groupId := (hS.mergePending hm).1.trans hid
          rcases hmerge with ⟨secrets,hx,hmerge⟩ | ⟨-,e,hmerge⟩
          · simp only [session_run hmerge]
            rcases serialize_cases (E := M.Error)
                (.connectionUpdate ⟨.ofBool updateRequested,commit⟩ : SignalingMessageOut M)
                ((⟨st.profileId,⟨st.mlsSession.groupId,M.epoch g''⟩,st.internalState⟩,
                  (c.saveGroup g').saveGroup g'') : ClientHandshakeState M × Connection M)
              with ⟨-,b,hb⟩ | ⟨-,hb⟩
            · rw [hb]
              refine Established.store ?_ J (secrets.clientSecret,b)
              intro secret hs
              exact ⟨secrets,Option.some.inj hs,g'',hid',hx,
                Or.inl (Connection.saveGroup_groups _ hid')⟩
            · rw [hb]
              exact hnone
          · simp only [session_run hmerge]
            exact hnone

end

end ClientHandshakeState
end

/-- Whatever is stored and whatever arrives: a server, and a client whose secrets kept for later are
its own, keep to the group of their session unless an update that is processed names another stored
group; and they do not keep to it if such an update is answered. -/
theorem session_isolation {S : Standing M} (hS : S.Lawful) {c : Connection M}
    (hfiled : Roster.Filed c) (leafSigner : M.SignatureKeyPair) (messageBytes : Bytes) (seed : ℕ) :
    (∀ st : ServerHandshakeState,
      let r := (ServerHandshakeState.receiveSignalingMessage leafSigner messageBytes seed).run (st,c)
      let names := ∀ update, (SignalingMessageIn.wire M).decExact messageBytes =
        some (.connectionUpdate update) → NamesOwn c st.mlsSession.groupId update.mlsCommit
      (names → ServerHandshakeState.KeepsToSession (st,c) r) ∧
        ∀ a, r.1 = .ok a → ServerHandshakeState.KeepsToSession (st,c) r → names) ∧
    ∀ (J : Serde M) (st : ClientHandshakeState M), ClientHandshakeState.Established (st,c) →
      let r := (ClientHandshakeState.receiveSignalingMessage J leafSigner messageBytes seed).run
        (st,c)
      let names := st.isWaitingForResponse = false → ∀ update,
        (SignalingMessageIn.wire M).decExact messageBytes = some (.connectionUpdate update) →
          NamesOwn c st.mlsSession.groupId update.mlsCommit
      (names → ClientHandshakeState.KeepsToSession (st,c) r) ∧
        ∀ a, r.1 = .ok a → ClientHandshakeState.KeepsToSession (st,c) r → names :=
  ⟨ServerHandshakeState.receive_keepsToSession hS hfiled leafSigner messageBytes seed,
    fun J _ hst =>
      ClientHandshakeState.receive_keepsToSession hS hfiled J leafSigner messageBytes seed hst⟩

/-- The database of a server or a client with two groups. -/
def crossedDb (isServer : Bool) : Connection sampleMls :=
  (sampleDb.saveGroup (⟨⟨[9],[1],[2],[7]⟩,isServer,.running,[],none⟩ : Sample.Group)).saveGroup
    (⟨⟨[10],[1],[2],[7]⟩,isServer,.running,[],none⟩ : Sample.Group)

lemma crossedDb_filed (isServer : Bool) : Roster.Filed (crossedDb isServer) := by
  intro j g h
  simp only [crossedDb,Connection.saveGroup,Function.update_apply] at h
  split_ifs at h with h1 h2
  · obtain rfl := Option.some.inj (Except.ok.inj h)
    exact h1.symm
  · obtain rfl := Option.some.inj (Except.ok.inj h)
    exact h2.symm
  · cases h

/-- A commit for the second group, sent on the session of the first one. -/
def crossedUpdate : Bytes :=
  connectionUpdateBytes (M := sampleMls) false (.commit ⟨[10],1,0,5⟩)

/-- The server merges the commit into the other group and takes that group for its own session. -/
theorem session_isolation_crossed :
    Roster.Filed (crossedDb true) ∧
      ((ServerHandshakeState.receiveSignalingMessage [2] crossedUpdate 0).run
        (⟨⟨[9],1⟩,.running⟩,crossedDb true)).2.1 = ⟨⟨[10],2⟩,.running⟩ ∧
      ¬ ServerHandshakeState.KeepsToSession (⟨⟨[9],1⟩,.running⟩,crossedDb true)
        ((ServerHandshakeState.receiveSignalingMessage [2] crossedUpdate 0).run
          (⟨⟨[9],1⟩,.running⟩,crossedDb true)) := by
  have hrun : ((ServerHandshakeState.receiveSignalingMessage [2] crossedUpdate 0).run
      (⟨⟨[9],1⟩,.running⟩,crossedDb true)).2.1 = ⟨⟨[10],2⟩,.running⟩ := by decide +kernel
  refine ⟨crossedDb_filed true,hrun,?_⟩
  intro h
  have hs := h.session
  rw [hrun] at hs
  simp at hs

/-- A commit of the client for the group of the session. -/
def ownUpdate : Bytes := connectionUpdateBytes (M := sampleMls) false (.commit ⟨[9],1,0,5⟩)

/-- The same from the server. -/
def ownServerUpdate : Bytes := connectionUpdateBytes (M := sampleMls) false (.commit ⟨[9],1,1,5⟩)

lemma namesOwn_sample {bytes : Bytes} (commit : Sample.Commit) {c : Connection sampleMls}
    (hdec : (SignalingMessageIn.wire sampleMls).decExact bytes =
      some (.connectionUpdate ⟨.false,.commit commit⟩)) :
    ∀ update, (SignalingMessageIn.wire sampleMls).decExact bytes =
      some (.connectionUpdate update) → NamesOwn c commit.groupId update.mlsCommit := by
  intro update h
  obtain rfl := SignalingMessageIn.connectionUpdate.inj (Option.some.inj (hdec.symm.trans h))
  exact namesOwn_of_eq rfl rfl

/-- The database of the client with its table. -/
def tabledDb : Connection sampleMls := { crossedDb false with handshakeStates := some [] }

lemma tabledDb_filed : Roster.Filed tabledDb := crossedDb_filed false

def receiveOnServer (bytes : Bytes) : Outcome (HandshakeError Unit) (TrafficSecrets × Option Bytes) ×
    ServerHandshakeState × Connection sampleMls :=
  (ServerHandshakeState.receiveSignalingMessage [2] bytes 0).run (⟨⟨[9],1⟩,.running⟩,crossedDb true)

def receiveOnClient (bytes : Bytes) : Outcome (HandshakeError Unit)
    (Option SecretUpdate × Option Bytes) × ClientHandshakeState sampleMls × Connection sampleMls :=
  (ClientHandshakeState.receiveSignalingMessage sampleSerde [1] bytes 0).run
    (⟨[7],⟨[9],1⟩,.running⟩,tabledDb)

/-- A commit for the own group is processed within the session, on both sides; one for the other
group is processed as well, but not within it. -/
theorem session_isolation_sample :
    (receiveOnServer ownUpdate).1.isOk = true ∧ ServerHandshakeState.KeepsToSession
      (⟨⟨[9],1⟩,.running⟩,crossedDb true) (receiveOnServer ownUpdate) ∧
    (receiveOnServer crossedUpdate).1.isOk = true ∧ ¬ServerHandshakeState.KeepsToSession
      (⟨⟨[9],1⟩,.running⟩,crossedDb true) (receiveOnServer crossedUpdate) ∧
    (receiveOnClient ownServerUpdate).1.isOk = true ∧ ClientHandshakeState.KeepsToSession
      (⟨[7],⟨[9],1⟩,.running⟩,tabledDb) (receiveOnClient ownServerUpdate) := by
  refine ⟨by decide +kernel,?_,by decide +kernel,?_,by decide +kernel,?_⟩
  · exact ((session_isolation sampleStanding_lawful (crossedDb_filed true) [2] ownUpdate 0).1
      ⟨⟨[9],1⟩,.running⟩).1 (namesOwn_sample ⟨[9],1,0,5⟩ rfl)
  · intro h
    have hnames := ((session_isolation sampleStanding_lawful (crossedDb_filed true) [2]
      crossedUpdate 0).1 ⟨⟨[9],1⟩,.running⟩).2 _ rfl h
    exact absurd (hnames _ rfl _ _ rfl rfl) (by decide)
  · exact ((session_isolation sampleStanding_lawful tabledDb_filed [1] ownServerUpdate 0).2
      sampleSerde ⟨[7],⟨[9],1⟩,.running⟩ (ClientHandshakeState.established_of_awaited rfl)).1
        fun _ => namesOwn_sample ⟨[9],1,1,5⟩ rfl

end MlsTls.MlsHandshake
