import MlsTls.Lib.Steps
import MlsTls.MlsHandshake.Handshake
import MlsTls.MlsHandshake.Persisted

/-! A client whose process may stop between any two writes to its database. The row of a client and
the group that it names are written and removed one after the other; the cleanup at the start of the
next handshake has to cope with whatever is left. -/
set_option linter.dupNamespace false

namespace MlsTls.MlsHandshake
open Lib TlsAead
variable {M : OpenMls}

/-- What a client writes to its database. -/
inductive DbWrite
  | table
  | keyPackage
  | group
  | row
  | groupDeletion
  | rowDeletion
  deriving DecidableEq, Repr

/-- Calls on the database, write by write. -/
abbrev DbSteps (M : OpenMls) (α : Type) := Steps (Connection M) DbWrite (HandshakeError M.Error) α

/-- `process_mls_update`, write by write. -/
def MlsSession.processMlsUpdateSteps (mlsMessage : M.Message) (dropPendingCommit : Bool) :
    DbSteps M (TrafficSecrets × MlsSession × ClientIdentity) :=
  match M.extract mlsMessage with
  | .privateMessage message => do
    let group ← .read (loadGroup (M.messageGroupId message))
    let group ← .write .group (settlePendingCommit message dropPendingCommit group)
    let (processed,group) ← .write .group (processMessage message group)
    let (stagedCommit,clientIdentity) ← .read (Exec.lift id (validateCommit processed))
    let group ← .write .group
      (persist .connectionUpdateError (M.mergeStagedCommit stagedCommit group))
    let trafficSecrets ← .read (exportTrafficSecrets group)
    pure (trafficSecrets,⟨M.groupId group,M.epoch group⟩,clientIdentity)
  | _ => .read (Exec.throw (.unexpectedMessage "PrivateMessage" "Unknown"))

/-- `receive_server_hello`, write by write. -/
def WaitingForServerHello.receiveServerHelloSteps (waiting : WaitingForServerHello)
    (messageBytes : Bytes) : DbSteps M (ClientHandshakeState M × TrafficSecrets) := do
  let serverHello ← .read (deserializeExact (ServerHelloIn.wire M) messageBytes)
  match M.extract serverHello.welcome with
  | .welcome welcome => do
    let c ← .read Exec.get
    let (stagedWelcome,keyPackages) ← .read (Exec.lift (fun _ => .serverHelloError)
      (M.newFromWelcome c.keyPackages welcome))
    .write .keyPackage (Exec.modify fun c => { c with keyPackages := keyPackages })
    let sender ← .read (Exec.lift (fun _ => .verificationError .libraryError)
      (M.welcomeSender stagedWelcome))
    if sender.signatureKey ≠ waiting.serverVerifyingKey then
      .read (Exec.throw (.verificationError .unexpectedVerifyingKey))
    else
      let clientGroup ← .read (Exec.lift (fun _ => .serverHelloError) (M.intoGroup stagedWelcome))
      .write .group (Exec.modify (·.saveGroup clientGroup))
      let trafficSecrets ← .read (exportTrafficSecrets clientGroup)
      pure (⟨waiting.profileId,⟨M.groupId clientGroup,M.epoch clientGroup⟩,.running⟩,trafficSecrets)
  | _ => .read (Exec.throw (.unexpectedMessage "Welcome" "Unknown"))

namespace ClientHandshakeState

/-- `delete`, write by write. -/
def deleteSteps (J : Serde M) (profileId : Uuid) : DbSteps M Unit := do
  let state ← .read (load J profileId)
  match state with
  | none => pure ()
  | some state => do
    .write .groupDeletion state.mlsSession.delete
    let rows ← .read handshakeStates
    .write .rowDeletion (setHandshakeStates (rows.filter fun row => row.profileId ≠ profileId))

/-- Calls on the client's state and its database, write by write. -/
abbrev CallSteps (M : OpenMls) (α : Type) :=
  Steps (ClientHandshakeState M × Connection M) DbWrite (HandshakeError M.Error) α

def dbSteps {α : Type} (x : DbSteps M α) : CallSteps M α :=
  Steps.zoom Prod.snd (fun c s => (s.1,c)) x

/-- `update`, write by write. -/
def updateSteps (J : Serde M) (leafSigner : M.SignatureKeyPair) (updateRequested : Bool)
    (seed : ℕ) : CallSteps M (ClientSecret × Bytes) := do
  let s ← .read Exec.get
  if s.1.isWaitingForResponse then .read (Exec.throw .waitingForResponse)
  else do
    let mlsMessage ← .write .group (sessionUpdate leafSigner seed)
    let trafficSecrets ← .write .group (session MlsSession.mergeUpdate)
    let messageBytes ← .read (serialize (SignalingMessageOut.wire M)
      (.connectionUpdate ⟨.ofBool updateRequested,mlsMessage⟩))
    .read (setInternalState (.waitingForEpochKeyUpdate ⟨mlsMessage,trafficSecrets⟩))
    let s ← .read Exec.get
    .write .row (db (storeUpdate J s.1))
    pure (trafficSecrets.clientSecret,messageBytes)

/-- `process_update`, write by write. -/
def processUpdateSteps (leafSigner : M.SignatureKeyPair) (connectionUpdate : ConnectionUpdateIn M)
    (seed : ℕ) : CallSteps M (ClientSecret × Bytes) := do
  let (trafficSecrets,mlsSession,_) ←
    dbSteps (MlsSession.processMlsUpdateSteps connectionUpdate.mlsCommit false)
  .read (Exec.modify fun s => ({ s.1 with mlsSession := mlsSession },s.2))
  let responseBytes ← .read createEpochKeyUpdate
  if connectionUpdate.updateRequested.toBool then do
    let commit ← .write .group (sessionUpdate leafSigner seed)
    let newTrafficSecrets ← .write .group (session MlsSession.mergeUpdate)
    .read (setInternalState (.waitingForEpochKeyUpdate ⟨commit,newTrafficSecrets⟩))
    let connectionUpdateBytes ← .read (serialize (SignalingMessageOut.wire M)
      (.connectionUpdate ⟨.ofBool false,commit⟩))
    pure (newTrafficSecrets.clientSecret,connectionUpdateBytes)
  else do
    .read (setInternalState (.waitingForEpochKeyUpdateReturn trafficSecrets.serverSecret))
    pure (trafficSecrets.clientSecret,responseBytes)

def receiveConnectionUpdateSteps (J : Serde M) (leafSigner : M.SignatureKeyPair)
    (connectionUpdate : ConnectionUpdateIn M) (seed : ℕ) :
    CallSteps M (Option SecretUpdate × Option Bytes) := do
  let s ← .read Exec.get
  if s.1.isWaitingForResponse then pure (none,none)
  else do
    let (clientSecret,messageBytes) ← processUpdateSteps leafSigner connectionUpdate seed
    let s ← .read Exec.get
    .write .row (db (storeUpdate J s.1))
    pure (some (.clientSecret clientSecret),some messageBytes)

/-- `receive_signaling_message`, write by write; a confirmation only writes the row. -/
def receiveSignalingMessageSteps (J : Serde M) (leafSigner : M.SignatureKeyPair)
    (messageBytes : Bytes) (seed : ℕ) : CallSteps M (Option SecretUpdate × Option Bytes) := do
  let signalingMessage ← .read (deserializeExact (SignalingMessageIn.wire M) messageBytes)
  match signalingMessage with
  | .connectionUpdate connectionUpdate =>
    receiveConnectionUpdateSteps J leafSigner connectionUpdate seed
  | .connectionConfirmation epochKeyUpdate =>
    .write .row (receiveConnectionConfirmation J epochKeyUpdate signalingMessage.messageType)
  | .epochKeyUpdate epochKeyUpdate =>
    .write .row (receiveEpochKeyUpdate J epochKeyUpdate signalingMessage.messageType)
  | .keyUpdate _ => .read Exec.panic

end ClientHandshakeState

theorem MlsSession.processMlsUpdateSteps_exec (mlsMessage : M.Message) (drop : Bool) :
    (processMlsUpdateSteps mlsMessage drop).exec = processMlsUpdate mlsMessage drop := by
  unfold processMlsUpdateSteps processMlsUpdate
  cases M.extract mlsMessage <;> rfl

theorem WaitingForServerHello.receiveServerHelloSteps_exec (waiting : WaitingForServerHello)
    (messageBytes : Bytes) : (waiting.receiveServerHelloSteps messageBytes).exec =
      (waiting.receiveServerHello messageBytes : Db M _) := by
  refine Steps.bind_exec_congr rfl fun serverHello => ?_
  cases M.extract serverHello.welcome with
  | welcome welcome =>
    refine Steps.bind_exec_congr rfl fun c => Steps.bind_exec_congr rfl fun r => ?_
    refine Steps.bind_exec_congr rfl fun _ => Steps.bind_exec_congr rfl fun sender => ?_
    rw [apply_ite Steps.exec]
    rfl
  | privateMessage message => rfl
  | keyPackage keyPackage => rfl
  | other => rfl

namespace ClientHandshakeState

theorem deleteSteps_exec (J : Serde M) (profileId : Uuid) :
    (deleteSteps J profileId).exec = delete J profileId := by
  refine Steps.bind_exec_congr rfl fun state => ?_
  cases state <;> rfl

theorem updateSteps_exec (J : Serde M) (leafSigner : M.SignatureKeyPair) (updateRequested : Bool)
    (seed : ℕ) : (updateSteps J leafSigner updateRequested seed).exec =
      update J leafSigner updateRequested seed := by
  refine Steps.bind_exec_congr rfl fun s => ?_
  rw [apply_ite Steps.exec]
  rfl

theorem processUpdateSteps_exec (leafSigner : M.SignatureKeyPair)
    (connectionUpdate : ConnectionUpdateIn M) (seed : ℕ) :
    (processUpdateSteps leafSigner connectionUpdate seed).exec =
      processUpdate leafSigner connectionUpdate seed := by
  refine Steps.bind_exec_congr
    (congrArg db (MlsSession.processMlsUpdateSteps_exec connectionUpdate.mlsCommit false)) ?_
  rintro ⟨secrets,mlsSession,identity⟩
  refine Steps.bind_exec_congr rfl fun _ => Steps.bind_exec_congr rfl fun bytes => ?_
  rw [apply_ite Steps.exec]
  rfl

theorem receiveSignalingMessageSteps_exec (J : Serde M) (leafSigner : M.SignatureKeyPair)
    (messageBytes : Bytes) (seed : ℕ) :
    (receiveSignalingMessageSteps J leafSigner messageBytes seed).exec =
      receiveSignalingMessage J leafSigner messageBytes seed := by
  refine Steps.bind_exec_congr rfl fun message => ?_
  cases message with
  | connectionUpdate update =>
    refine Steps.bind_exec_congr rfl fun s => ?_
    rw [apply_ite Steps.exec]
    refine if_congr Iff.rfl rfl ?_
    exact Steps.bind_exec_congr (processUpdateSteps_exec leafSigner update seed) fun _ => rfl
  | connectionConfirmation confirmation => rfl
  | epochKeyUpdate update => rfl
  | keyUpdate update => rfl

/-- The cleanup at the start of `client_handshake`. -/
def cleanup (J : Serde M) (clientId : Uuid) : Db M Unit := do
  createTable
  delete J clientId

/-- There is a readable group under the id. -/
def Stored (groupId : GroupId) (c : Connection M) : Prop := ∃ g, c.groups groupId = .ok (some g)

/-- Every row of the profile is of the current version and names a group that is there. -/
def Sound (J : Serde M) (profileId : Uuid) (c : Connection M) : Prop :=
  ∀ rows, c.handshakeStates = some rows → ∀ row ∈ rows, row.profileId = profileId →
    row.version = ClientHandshakeVersion.default.toSql ∧
      ∃ st, J.fromSlice row.handshakeState = some st ∧ Stored st.mlsSession.groupId c

/-- The one write after which the process must not stop: the group is gone, its row is not. -/
def Torn (w : DbWrite) : Prop := w = .groupDeletion

section
variable {J : Serde M} {p : Uuid} {c : Connection M} {groupId : GroupId}

lemma Stored.saveGroup (g : M.Group) (h : Stored groupId c) : Stored groupId (c.saveGroup g) := by
  by_cases hi : groupId = M.groupId g
  · exact ⟨g,c.saveGroup_groups hi.symm⟩
  · obtain ⟨g',hg'⟩ := h
    exact ⟨g',(c.saveGroup_groups_of_ne hi).trans hg'⟩

lemma Sound.saveGroup (c : Connection M) (g : M.Group) (h : Sound J p c) :
    Sound J p (c.saveGroup g) := by
  intro rows hrows row hrow hp
  obtain ⟨hversion,st,hst,hstored⟩ := h rows hrows row hrow hp
  exact ⟨hversion,st,hst,hstored.saveGroup g⟩

lemma Sound.congr {c' : Connection M} (h : Sound J p c) (hg : c'.groups = c.groups)
    (hr : c'.handshakeStates = c.handshakeStates) : Sound J p c' := by
  unfold Sound Stored at h ⊢
  rw [hg,hr]
  exact h

lemma Sound.of_not_mem (h : ∀ rows, c.handshakeStates = some rows → ∀ row ∈ rows,
    row.profileId ≠ p) : Sound J p c :=
  fun rows hrows row hrow hp => absurd hp (h rows hrows row hrow)

lemma createTable_sound : Exec.Triple (Sound J p) (createTable : Db M Unit)
    (fun _ c => Sound J p c) fun _ c => Sound J p c := by
  refine .modify fun c hc rows hrows row hrow hp => ?_
  obtain rfl := Option.some.inj hrows
  cases hr : c.handshakeStates with
  | none =>
    rw [hr] at hrow
    exact absurd hrow List.not_mem_nil
  | some rows =>
    rw [hr] at hrow
    exact hc rows hr row hrow hp

lemma load_reads (c : Connection M) :
    ((load J p).run c).2 = c ∧
      ∀ {st}, ((load J p).run c).1 = .ok st → ∃ rows, c.handshakeStates = some rows := by
  have h : Exec.Keeps (fun c' : Connection M => c' = c) (load J p)
      fun _ => ∃ rows, c.handshakeStates = some rows := by
    refine .bind (Q := fun _ => ∃ rows, c.handshakeStates = some rows) (.bind .get ?_) ?_
    · rintro c' rfl
      exact .mono .orThrow fun rows hrows => ⟨rows,hrows⟩
    · intro rows hrows
      split
      · exact .pure hrows
      · refine .bind .orThrow fun st _ => .bind .orThrow fun version _ => ?_
        split_ifs
        · exact .pure hrows
        · exact .pure hrows
  refine ⟨h.snd rfl,fun {st} hst => ?_⟩
  exact h.result rfl (Prod.ext hst rfl)

lemma deleteSteps_durable :
    (deleteSteps J p).Durable (Sound J p) Torn (Sound J p) fun _ c => Sound J p c := by
  -- the group goes first, then the row: only in between is the row without its group
  have hload : Exec.Triple (Sound J p) (load J p) (fun st c => Sound J p c ∧
      (st.isSome → ∃ rows, c.handshakeStates = some rows)) fun _ c => Sound J p c := by
    intro c hc
    obtain ⟨hsnd,htable⟩ := load_reads (J := J) (p := p) c
    rcases hr : (load J p).run c with ⟨f | st,c'⟩
    · rw [hr] at hsnd
      subst hsnd
      exact hc
    · rw [hr] at hsnd htable
      subst hsnd
      exact ⟨hc,fun _ => htable rfl⟩
  refine .bind (.read hload) fun st => ?_
  cases st with
  | none => exact .pure fun _ hc => hc.1
  | some st =>
    refine .bind (Q := fun _ c => ∃ rows, c.handshakeStates = some rows) (.write ?_ ?_) fun _ => ?_
    · intro c hc
      rcases hg : c.groups st.mlsSession.groupId with e | _ | g
      · simp only [MlsSession.delete,MlsSession.loadGroup,Exec.bind_run,Exec.get_run,hg,
          Exec.lift_error]
        exact hc.1
      · simp only [MlsSession.delete,MlsSession.loadGroup,Exec.bind_run,Exec.get_run,hg,
          Exec.lift_ok,Exec.orThrow_none]
        exact hc.1
      · simp only [MlsSession.delete,Exec.bind_run,TwoParty.loadGroup_run hg,Exec.modify_run]
        exact hc.2 rfl
    · exact fun hw => absurd rfl hw
    · refine .bind (Q := fun rows c => c.handshakeStates = some rows) (.read ?_) fun rows => ?_
      · rintro c ⟨rows,hrows⟩
        simp only [handshakeStates,Exec.bind_run,Exec.get_run,hrows,Exec.orThrow_some]
      · refine .write (.modify fun c _ => ?_) fun _ _ _ hc => hc
        refine Sound.of_not_mem fun rows' hrows' row hrow => ?_
        obtain rfl := Option.some.inj hrows'
        simpa using (List.mem_filter.mp hrow).2

lemma start_sound (leafSigner : M.SignatureKeyPair) (serverVerifyingKey : Bytes) (clientId : Uuid)
    (seed : ℕ) :
    Exec.Triple (Sound J p) (ClientHandshake.start leafSigner serverVerifyingKey clientId seed)
      (fun r c => Sound J p c ∧ r.1.profileId = clientId) fun _ c => Sound J p c := by
  refine Exec.Keeps.bind .lift fun bundle _ => .bind (.modify fun c hc => ?_) fun _ _ => ?_
  · exact hc.congr rfl rfl
  · exact .bind .orThrow fun bytes _ => .pure rfl

lemma receiveServerHelloSteps_durable (waiting : WaitingForServerHello) (messageBytes : Bytes) :
    (waiting.receiveServerHelloSteps messageBytes).Durable (Sound J p) Torn (Sound J p)
      fun r c => (Sound J p c ∧ Stored r.1.mlsSession.groupId c) ∧
        r.1.profileId = waiting.profileId := by
  refine .bind (Q := fun _ => Sound J p) (.read (.orThrow (fun _ _ _ hc => hc) fun _ hc => hc)) ?_
  intro serverHello
  cases M.extract serverHello.welcome with
  | welcome welcome =>
    refine .bind (Q := fun _ => Sound J p) (.read (.get fun _ hc => hc)) fun c₀ => ?_
    refine .bind (Q := fun _ => Sound J p) (.read (.lift (fun _ _ _ hc => hc) fun _ _ _ hc => hc)) ?_
    rintro ⟨staged,keyPackages⟩
    refine .bind (Q := fun _ => Sound J p) (.write (.modify fun c hc => hc.congr rfl rfl)
      fun _ _ _ hc => hc) fun _ => ?_
    refine .bind (Q := fun _ => Sound J p) (.read (.lift (fun _ _ _ hc => hc) fun _ _ _ hc => hc)) ?_
    intro sender
    split_ifs
    · exact .read (.throw fun _ hc => hc)
    · refine .bind (Q := fun _ => Sound J p)
        (.read (.lift (fun _ _ _ hc => hc) fun _ _ _ hc => hc)) fun group => ?_
      refine .bind (Q := fun _ c => Sound J p c ∧ Stored (M.groupId group) c)
        (.write (.modify fun c hc => ⟨hc.saveGroup c group,group,c.saveGroup_groups_self group⟩)
          fun _ _ _ hc => hc.1) fun _ => ?_
      refine .bind (Q := fun _ c => Sound J p c ∧ Stored (M.groupId group) c) (.read ?_)
        fun secrets => .pure fun c hc => ⟨hc,rfl⟩
      exact (Roster.exportTrafficSecrets_keeps group).conseq (fun _ hc => hc) (fun _ _ hc => hc.1)
        fun _ _ hc => hc.1
  | privateMessage message => exact .read (.throw fun _ hc => hc)
  | keyPackage keyPackage => exact .read (.throw fun _ hc => hc)
  | other => exact .read (.throw fun _ hc => hc)

lemma store_sound (hJ : J.Lawful) (st : ClientHandshakeState M) :
    Exec.Triple (fun c => Sound J p c ∧ Stored st.mlsSession.groupId c) (store J st)
      (fun _ c => Sound J p c) fun _ c => Sound J p c := by
  intro c hc
  obtain ⟨b,hb⟩ := hJ.toVec_ok st
  cases hrows : c.handshakeStates with
  | none =>
    simp only [store,handshakeStates,Exec.bind_run,Exec.get_run,hrows,Exec.orThrow_none]
    exact hc.1
  | some rows =>
    simp only [store,handshakeStates,toSql,setHandshakeStates,Exec.bind_run,Exec.get_run,hrows,hb,
      Exec.orThrow_some]
    split_ifs
    · exact hc.1
    · intro rows' hrows' row hrow hp
      obtain rfl := Option.some.inj hrows'
      rcases List.mem_append.mp hrow with hrow | hrow
      · exact hc.1 rows hrows row hrow hp
      · obtain rfl := List.mem_singleton.mp hrow
        exact ⟨rfl,st,hJ.fromSlice_toVec hb,hc.2⟩

lemma storeUpdate_sound (hJ : J.Lawful) (st : ClientHandshakeState M) :
    Exec.Triple (fun c => Sound J p c ∧ Stored st.mlsSession.groupId c) (storeUpdate J st)
      (fun _ c => Sound J p c) fun _ c => Sound J p c := by
  intro c hc
  obtain ⟨b,hb⟩ := hJ.toVec_ok st
  cases hrows : c.handshakeStates with
  | none =>
    simp only [storeUpdate,handshakeStates,Exec.bind_run,Exec.get_run,hrows,Exec.orThrow_none]
    exact hc.1
  | some rows =>
    simp only [storeUpdate,handshakeStates,toSql,setHandshakeStates,Exec.bind_run,Exec.get_run,
      hrows,hb,Exec.orThrow_some,Exec.modify_run]
    intro rows' hrows' row hrow hp
    obtain rfl := Option.some.inj hrows'
    obtain ⟨old,hold,rfl⟩ := List.mem_map.mp hrow
    split_ifs at hp ⊢
    · exact ⟨(hc.1 rows hrows old hold hp).1,st,hJ.fromSlice_toVec hb,hc.2⟩
    · exact hc.1 rows hrows old hold hp

lemma processMlsUpdateSteps_durable (mlsMessage : M.Message) (drop : Bool) :
    (MlsSession.processMlsUpdateSteps mlsMessage drop).Durable (Sound J p) Torn (Sound J p)
      fun r c => Sound J p c ∧ Stored r.2.1.groupId c := by
  have hkeeps {α : Type} {x : Db M α} {Q : α → Prop} (h : Exec.Keeps (Sound J p) x Q) :
      Exec.Triple (Sound J p) x (fun _ c => Sound J p c) fun _ c => Sound J p c :=
    h.conseq (fun _ hc => hc) (fun _ _ hc => hc.1) fun _ _ hc => hc
  unfold MlsSession.processMlsUpdateSteps
  cases M.extract mlsMessage with
  | privateMessage message =>
    refine .bind (.read (hkeeps (MlsSession.loadGroup_invariant _))) fun g => ?_
    refine .bind (.write (hkeeps (MlsSession.settlePendingCommit_invariant Sound.saveGroup _ _ _))
      fun _ _ _ hc => hc) fun g₁ => ?_
    refine .bind (.write (hkeeps (MlsSession.processMessage_invariant Sound.saveGroup _ _))
      fun _ _ _ hc => hc) ?_
    rintro ⟨processed,g₂⟩
    refine .bind (.read (hkeeps .lift)) ?_
    rintro ⟨staged,identity⟩
    refine .bind (Q := fun g₃ c => Sound J p c ∧ Stored (M.groupId g₃) c) (.write ?_
      fun _ _ _ hc => hc.1) fun g₃ => ?_
    · refine .bind (.lift (fun _ _ _ hc => hc) fun _ _ _ hc => hc) fun g₃ => ?_
      exact .bind (.modify fun c hc => (⟨hc.saveGroup c g₃,g₃,c.saveGroup_groups_self g₃⟩ :
        Sound J p _ ∧ Stored (M.groupId g₃) _)) fun _ => .pure fun _ hc => hc
    · refine .bind (Q := fun _ c => Sound J p c ∧ Stored (M.groupId g₃) c) (.read ?_)
        fun secrets => .pure fun _ hc => hc
      exact (Roster.exportTrafficSecrets_keeps g₃).conseq (fun _ hc => hc) (fun _ _ hc => hc.1)
        fun _ _ hc => hc.1
  | welcome welcome => exact .read (.throw fun _ hc => hc)
  | keyPackage keyPackage => exact .read (.throw fun _ hc => hc)
  | other => exact .read (.throw fun _ hc => hc)

/-- A client of the profile with a sound database. -/
structure Sane (J : Serde M) (p : Uuid) (s : ClientHandshakeState M × Connection M) : Prop where
  profileId_eq : s.1.profileId = p
  sound : Sound J p s.2

/-- A sane client whose group is there. -/
structure Rooted (J : Serde M) (p : Uuid) (s : ClientHandshakeState M × Connection M) : Prop
    extends Sane J p s where
  stored : Stored s.1.mlsSession.groupId s.2

lemma sessionUpdate_rooted (leafSigner : M.SignatureKeyPair) (seed : ℕ) :
    Exec.Triple (Sane J p) (sessionUpdate leafSigner seed) (fun _ s => Rooted J p s)
      fun _ s => Sane J p s := by
  rintro ⟨st,c⟩ hs
  simp only [sessionUpdate,Exec.bind_run,Exec.get_run]
  rcases hg : c.groups st.mlsSession.groupId with e | _ | g
  · simp only [db,Exec.zoom_run,MlsSession.update,MlsSession.loadGroup,Exec.bind_run,Exec.get_run,
      hg,Exec.lift_error]
    exact hs
  · simp only [db,Exec.zoom_run,MlsSession.update,MlsSession.loadGroup,Exec.bind_run,Exec.get_run,
      hg,Exec.lift_ok,Exec.orThrow_none]
    exact hs
  · rcases MlsSession.update_cases st.mlsSession hg leafSigner seed with
      ⟨e,-,hrun⟩ | ⟨commit,g',-,hrun⟩
    · rw [db_run hrun]
      exact hs
    · rw [db_run hrun]
      exact ⟨⟨hs.profileId_eq,hs.sound.saveGroup c g'⟩,Stored.saveGroup g' ⟨g,hg⟩⟩

lemma mergeUpdate_rooted :
    Exec.Triple (Rooted J p) (session MlsSession.mergeUpdate) (fun _ s => Rooted J p s)
      fun _ s => Rooted J p s := by
  rintro ⟨st,c⟩ hs
  obtain ⟨g,hg⟩ := hs.stored
  rcases MlsSession.mergeUpdate_cases st.mlsSession hg with ⟨e,-,hrun⟩ | ⟨g',-,hrun⟩
  · rw [session_run hrun]
    exact hs
  · have hs' : Rooted J p (⟨st.profileId,⟨st.mlsSession.groupId,M.epoch g'⟩,st.internalState⟩,
        c.saveGroup g') :=
      ⟨⟨hs.profileId_eq,hs.sound.saveGroup c g'⟩,hs.stored.saveGroup g'⟩
    rcases hrun with ⟨secrets,-,hrun⟩ | ⟨-,e,hrun⟩
    · rw [session_run hrun]
      exact hs'
    · rw [session_run hrun]
      exact hs'

lemma setInternalState_rooted (i : ClientInternalState M) :
    Exec.Triple (Rooted J p) (setInternalState i) (fun _ s => Rooted J p s) fun _ s => Sane J p s :=
  .modify fun _ hs => ⟨⟨hs.profileId_eq,hs.sound⟩,hs.stored⟩

lemma serialize_rooted (message : SignalingMessageOut M) :
    Exec.Triple (Rooted J p) (serialize (SignalingMessageOut.wire M) message : Call M Bytes)
      (fun _ s => Rooted J p s) fun _ s => Sane J p s :=
  .orThrow (fun _ _ _ hs => hs) fun _ hs => hs.toSane

lemma writeRow_sane (hJ : J.Lawful) (s₀ : ClientHandshakeState M × Connection M) :
    Exec.Triple (fun s => s₀ = s ∧ Rooted J p s) (db (storeUpdate J s₀.1)) (fun _ s => Sane J p s)
      fun _ s => Sane J p s := by
  -- the row is written for a client whose group is there
  rintro ⟨st,c⟩ ⟨rfl,hs⟩
  have h := storeUpdate_sound hJ st c ⟨hs.sound,hs.stored⟩
  rw [db,Exec.zoom_run]
  generalize (storeUpdate J st).run c = r at h ⊢
  obtain ⟨f | u,c'⟩ := r
  · exact ⟨hs.profileId_eq,h⟩
  · exact ⟨hs.profileId_eq,h⟩

lemma get_rooted : Exec.Triple (Rooted J p) (Exec.get : Call M _) (fun s₀ s => s₀ = s ∧ Rooted J p s)
    fun _ s => Sane J p s := .get fun _ hs => ⟨rfl,hs⟩

lemma updateSteps_durable (hJ : J.Lawful) (leafSigner : M.SignatureKeyPair) (updateRequested : Bool)
    (seed : ℕ) : (updateSteps J leafSigner updateRequested seed).Durable (Sane J p) Torn (Sane J p)
      fun _ s => Sane J p s := by
  refine .bind (Q := fun _ => Sane J p) (.read (.get fun _ hs => hs)) fun s₀ => ?_
  split_ifs
  · exact .read (.throw fun _ hs => hs)
  · refine .bind (.write (sessionUpdate_rooted leafSigner seed) fun _ _ _ hs => hs.toSane) ?_
    intro commit
    refine .bind (.write (mergeUpdate_rooted.failing fun _ _ hs => hs.toSane) fun _ _ _ hs => hs.toSane) fun secrets => ?_
    refine .bind (.read (serialize_rooted _)) fun bytes => ?_
    refine .bind (.read (setInternalState_rooted _)) fun _ => .bind (.read get_rooted) fun s => ?_
    exact .bind (.write (writeRow_sane hJ s) fun _ _ _ hs => hs) fun _ => .pure fun _ hs => hs

lemma processEpochKeyUpdate_rooted (keyUpdate : EpochKeyUpdate) :
    Exec.Triple (Sane J p) (processEpochKeyUpdate keyUpdate) (fun _ s => Rooted J p s)
      fun _ s => Sane J p s := by
  rintro ⟨st,c⟩ hs
  simp only [processEpochKeyUpdate,MlsSession.processEpochKeyUpdate,Exec.bind_run,Exec.get_run,db,
    Exec.zoom_run,MlsSession.loadGroup]
  rcases hg : c.groups st.mlsSession.groupId with e | _ | g
  · exact hs
  · exact hs
  · simp only [Exec.lift_ok,Exec.orThrow_some]
    split_ifs
    · exact hs
    · exact ⟨hs,g,hg⟩

lemma createEpochKeyUpdate_rooted :
    Exec.Triple (Rooted J p) createEpochKeyUpdate (fun _ s => Rooted J p s)
      fun _ s => Sane J p s := by
  rintro ⟨st,c⟩ hs
  obtain ⟨g,hg⟩ := hs.stored
  simp only [createEpochKeyUpdate,Exec.bind_run,Exec.get_run,
    db_run (MlsSession.createEpochKeyUpdate_stored st.mlsSession hg)]
  exact serialize_rooted _ (st,c) hs

lemma finish_sane {α : Type} (hJ : J.Lawful) (a : α) :
    Exec.Triple (Rooted J p)
      (do
        let s ← Exec.get
        db (storeUpdate J s.1)
        pure a : Call M α) (fun _ s => Sane J p s) fun _ s => Sane J p s :=
  .bind get_rooted fun s => .bind (writeRow_sane hJ s) fun _ => .pure fun _ hs => hs

lemma takeInternalState_sane :
    Exec.Triple (Sane J p) takeInternalState (fun _ s => Sane J p s) fun _ s => Sane J p s := by
  rintro ⟨st,c⟩ hs
  rw [takeInternalState_run]
  exact ⟨hs.profileId_eq,hs.sound⟩

lemma receiveConnectionConfirmation_sane (hJ : J.Lawful) (confirmation : EpochKeyUpdate)
    (messageType : String) :
    Exec.Triple (Sane J p) (receiveConnectionConfirmation J confirmation messageType)
      (fun _ s => Sane J p s) fun _ s => Sane J p s := by
  refine .bind takeInternalState_sane fun i => ?_
  split
  · exact .bind (processEpochKeyUpdate_rooted confirmation) fun _ =>
      .bind (setInternalState_rooted _) fun _ => finish_sane hJ _
  · exact .throw fun _ hs => hs

lemma receiveEpochKeyUpdate_sane (hJ : J.Lawful) (update : EpochKeyUpdate) (messageType : String) :
    Exec.Triple (Sane J p) (receiveEpochKeyUpdate J update messageType)
      (fun _ s => Sane J p s) fun _ s => Sane J p s := by
  refine .bind takeInternalState_sane fun i => ?_
  split
  · exact .bind (processEpochKeyUpdate_rooted update) fun _ => finish_sane hJ _
  · exact .bind (processEpochKeyUpdate_rooted update) fun _ => finish_sane hJ _
  · exact .throw fun _ hs => hs

lemma processUpdateSteps_durable (leafSigner : M.SignatureKeyPair) (update : ConnectionUpdateIn M)
    (seed : ℕ) : (processUpdateSteps leafSigner update seed).Durable (Sane J p) Torn (Sane J p)
      fun _ s => Rooted J p s := by
  refine .bind (Q := fun r s => Sane J p s ∧ Stored r.2.1.groupId s.2)
    ((processMlsUpdateSteps_durable update.mlsCommit false).zoom (fun _ hs => hs.sound)
      (fun _ _ _ hs hc => ⟨⟨hs.profileId_eq,hc.1⟩,hc.2⟩) fun _ _ hs hc => ⟨hs.profileId_eq,hc⟩) ?_
  rintro ⟨secrets,mlsSession,identity⟩
  refine .bind (Q := fun _ => Rooted J p)
    (.read (.modify fun s hs => ⟨⟨hs.1.profileId_eq,hs.1.sound⟩,hs.2⟩)) fun _ => ?_
  refine .bind (.read createEpochKeyUpdate_rooted) fun bytes => ?_
  split_ifs
  · refine .bind (.write ((sessionUpdate_rooted leafSigner seed).pre fun _ hs => hs.toSane) fun _ _ _ hs => hs.toSane) fun commit => ?_
    refine .bind (.write (mergeUpdate_rooted.failing fun _ _ hs => hs.toSane) fun _ _ _ hs => hs.toSane) fun secrets' => ?_
    refine .bind (.read (setInternalState_rooted _)) fun _ => ?_
    exact .bind (.read (serialize_rooted _)) fun _ => .pure fun _ hs => hs
  · exact .bind (.read (setInternalState_rooted _)) fun _ => .pure fun _ hs => hs

lemma receiveSignalingMessageSteps_durable (hJ : J.Lawful) (leafSigner : M.SignatureKeyPair)
    (messageBytes : Bytes) (seed : ℕ) :
    (receiveSignalingMessageSteps J leafSigner messageBytes seed).Durable (Sane J p) Torn (Sane J p)
      fun _ s => Sane J p s := by
  refine .bind (Q := fun _ => Sane J p) (.read (.orThrow (fun _ _ _ hs => hs) fun _ hs => hs)) ?_
  intro message
  cases message with
  | connectionUpdate update =>
    refine .bind (Q := fun _ => Sane J p) (.read (.get fun _ hs => hs)) fun s₀ => ?_
    split_ifs
    · exact .pure fun _ hs => hs
    · refine .bind (processUpdateSteps_durable leafSigner update seed) fun r => ?_
      refine .bind (.read get_rooted) fun s => ?_
      exact .bind (.write (writeRow_sane hJ s) fun _ _ _ hs => hs) fun _ => .pure fun _ hs => hs
  | connectionConfirmation confirmation =>
    exact .write (receiveConnectionConfirmation_sane hJ confirmation _) fun _ _ _ hs => hs
  | epochKeyUpdate update =>
    exact .write (receiveEpochKeyUpdate_sane hJ update _) fun _ _ _ hs => hs
  | keyUpdate update => exact .read (.panic fun _ hs => hs)

lemma delete_run {rows : List HandshakeStateRow} (hrows : c.handshakeStates = some rows)
    (h : Sound J p c) :
    ∃ c', (delete J p).run c = (.ok (),c') ∧
      ∀ rows, c'.handshakeStates = some rows → ∀ row ∈ rows, row.profileId ≠ p := by
  cases hfind : rows.find? (·.profileId = p) with
  | none =>
    refine ⟨c,?_,?_⟩
    · simp only [delete,load,handshakeStates,Exec.bind_run,Exec.get_run,hrows,Exec.orThrow_some,
        hfind,Exec.pure_run]
    · intro rows' hrows' row hrow
      obtain rfl := Option.some.inj (hrows.symm.trans hrows')
      simpa using List.find?_eq_none.mp hfind row hrow
  | some row =>
    have hp : row.profileId = p := by simpa using List.find?_some hfind
    obtain ⟨hversion,st,hst,g,hg⟩ := h rows hrows row (List.mem_of_find?_eq_some hfind) hp
    have hload : (load J p).run c = (.ok (some st),c) := by
      refine load_parsed hrows hfind hst ?_
      rw [hversion]
      rfl
    refine ⟨_,delete_loaded hrows hload hg,?_⟩
    intro rows' hrows' row hrow
    obtain rfl := Option.some.inj hrows'
    simpa using (List.mem_filter.mp hrow).2

lemma cleanup_run (h : Sound J p c) :
    ∃ c', (cleanup J p).run c = (.ok (),c') ∧
      ∀ rows, c'.handshakeStates = some rows → ∀ row ∈ rows, row.profileId ≠ p := by
  have hsound : Sound J p { c with handshakeStates := some (c.handshakeStates.getD []) } :=
    createTable_sound c h
  obtain ⟨c',hrun,hno⟩ := delete_run rfl hsound
  exact ⟨c',hrun,hno⟩

end

/-- The database calls of `client_handshake` up to where it waits for the server. -/
def connectSteps (J : Serde M) (clientId : Uuid) (leafSigner : M.SignatureKeyPair)
    (serverVerifyingKey : Bytes) (seed : ℕ) : DbSteps M (WaitingForServerHello × Bytes) := do
  .write .table createTable
  deleteSteps J clientId
  .write .keyPackage (ClientHandshake.start leafSigner serverVerifyingKey clientId seed)

/-- The database calls of `client_handshake` once the server has answered. -/
def acceptSteps (J : Serde M) (waiting : WaitingForServerHello) (messageBytes : Bytes) :
    DbSteps M (ClientHandshakeState M × TrafficSecrets) := do
  let r ← waiting.receiveServerHelloSteps messageBytes
  .write .row (store J r.1)
  pure r

end ClientHandshakeState

open ClientHandshakeState

namespace MlsHandshake
variable {σ : Type} {tr : Transport σ} {α : Type}

lemma own_db_cases (x : Db M α) (h : MlsHandshake M) (t : σ) :
    (∃ a c, x.run h.connection = (.ok a,c) ∧
        (own (db x)).run (h,t) = (.ok a,({ h with connection := c },t))) ∨
      ∃ f f' c, x.run h.connection = (.error f,c) ∧
        (own (db x)).run (h,t) = (.error f',({ h with connection := c },t)) := by
  simp only [own,db,Exec.zoom_run,Exec.mapError]
  rcases x.run h.connection with ⟨f | a,c⟩
  · cases f with
    | error e => exact Or.inr ⟨_,_,c,rfl,rfl⟩
    | panic => exact Or.inr ⟨_,_,c,rfl,rfl⟩
  · exact Or.inl ⟨a,c,rfl,rfl⟩

/-- `client_handshake` leaves the database that its calls on the database leave, up to where it
waits for the server. -/
theorem clientHandshakeStart_connection (J : Serde M) (clientId : Uuid) (serverVerifyingKey : Bytes)
    (seed : ℕ) (h : MlsHandshake M) (t : σ) :
    ((clientHandshakeStart tr J clientId serverVerifyingKey seed).run (h,t)).2.1.connection =
      ((connectSteps J clientId h.leafSigner serverVerifyingKey seed).exec.run h.connection).2 := by
  simp only [clientHandshakeStart,connectSteps,Steps.bind_exec,Steps.write_exec,deleteSteps_exec,
    Exec.bind_run]
  rcases own_db_cases createTable h t with ⟨u,c₁,hx,hrun⟩ | ⟨f,f',c₁,hx,hrun⟩
  · simp only [hx,hrun]
    rcases own_db_cases (ClientHandshakeState.delete J clientId) { h with connection := c₁ } t with
      ⟨u,c₂,hx,hrun⟩ | ⟨f,f',c₂,hx,hrun⟩
    · simp only [hx,hrun,Exec.get_run]
      rcases own_db_cases (ClientHandshake.start h.leafSigner serverVerifyingKey clientId seed)
        { h with connection := c₂ } t with ⟨r,c₃,hx,hrun⟩ | ⟨f,f',c₃,hx,hrun⟩
      · simp only [hx,hrun,sendFirst,Exec.zoom_run]
        rcases (Exec.mapError (MlsHandshakeError.transportError : _ → MlsHandshakeError M.Error)
          (tr.send r.2)).run t with ⟨f | u,t'⟩
        · rfl
        · rfl
      · simp only [hx,hrun]
    · simp only [hx,hrun]
  · simp only [hx,hrun]

/-- The same once the server has answered. -/
theorem clientHandshakeFinish_connection (J : Serde M) (waiting : WaitingForServerHello)
    {h : MlsHandshake M} {t t' : σ} {packet : TlsPacketIn}
    (hnext : (nextFirst tr).run (h,t) = (.ok (some packet),(h,t'))) :
    ((clientHandshakeFinish tr J waiting).run (h,t)).2.1.connection =
      ((acceptSteps J waiting packet.data).exec.run h.connection).2 := by
  simp only [clientHandshakeFinish,acceptSteps,Steps.bind_exec,Steps.write_exec,Steps.pure_exec,
    WaitingForServerHello.receiveServerHelloSteps_exec,Exec.bind_run,hnext]
  rcases own_db_cases (waiting.receiveServerHello packet.data) h t' with
    ⟨r,c₁,hx,hrun⟩ | ⟨f,f',c₁,hx,hrun⟩
  · simp only [hx,hrun]
    rcases own_db_cases (store J r.1) { h with connection := c₁ } t' with
      ⟨u,c₂,hx,hrun⟩ | ⟨f,f',c₂,hx,hrun⟩
    · simp only [hx,hrun]
      rfl
    · simp only [hx,hrun]
  · simp only [hx,hrun]

end MlsHandshake

/-- A client: its database, and what its process has in memory. That is the handshake that waits for
the server, and the state of the connection. -/
structure ClientHost (M : OpenMls) where
  connection : Connection M
  waiting : Option WaitingForServerHello
  state : Option (ClientHandshakeState M)

/-- The calls of a client. `connect` and `accept` are the two halves of `client_handshake`. -/
inductive HostCall (M : OpenMls)
  | connect (leafSigner : M.SignatureKeyPair) (serverVerifyingKey : Bytes) (seed : ℕ)
  | accept (messageBytes : Bytes)
  | update (leafSigner : M.SignatureKeyPair) (updateRequested : Bool) (seed : ℕ)
  | receive (leafSigner : M.SignatureKeyPair) (messageBytes : Bytes) (seed : ℕ)
  | delete

/-- A call, and after how many of its writes the process stops, if it does. -/
structure HostEvent (M : OpenMls) where
  call : HostCall M
  stop : Option ℕ

namespace ClientHost

abbrev CallSteps (M : OpenMls) (α : Type) :=
  Steps (ClientHost M) DbWrite (HandshakeError M.Error) α

def db {α : Type} (x : DbSteps M α) : CallSteps M α :=
  Steps.zoom (·.connection) (fun c h => { h with connection := c }) x

def client {α : Type} (state : ClientHandshakeState M) (x : ClientHandshakeState.CallSteps M α) :
    CallSteps M α :=
  Steps.zoom (fun h => (state,h.connection))
    (fun s h => { h with state := some s.1, connection := s.2 }) x

def setWaiting (waiting : Option WaitingForServerHello) : CallSteps M Unit :=
  .read (Exec.modify fun h => { h with waiting := waiting })

/-- The call, write by write. A call that the process is in no position to make does nothing. -/
def steps (J : Serde M) (clientId : Uuid) : HostCall M → CallSteps M Unit
  | .connect leafSigner serverVerifyingKey seed => do
    setWaiting none
    let r ← db (connectSteps J clientId leafSigner serverVerifyingKey seed)
    setWaiting (some r.1)
  | .accept messageBytes => do
    let h ← .read Exec.get
    match h.waiting with
    | none => pure ()
    | some waiting => do
      setWaiting none
      let r ← db (acceptSteps J waiting messageBytes)
      .read (Exec.modify fun h => { h with state := some r.1 })
  | .update leafSigner updateRequested seed => do
    let h ← .read Exec.get
    match h.state with
    | none => pure ()
    | some state => do
      let _ ← client state (updateSteps J leafSigner updateRequested seed)
  | .receive leafSigner messageBytes seed => do
    let h ← .read Exec.get
    match h.state with
    | none => pure ()
    | some state => do
      let _ ← client state (receiveSignalingMessageSteps J leafSigner messageBytes seed)
  | .delete => do
    let h ← .read Exec.get
    match h.state with
    | none => pure ()
    | some state => db (deleteSteps J state.profileId)

/-- A process that stops leaves its database behind and nothing else. -/
def step (J : Serde M) (clientId : Uuid) (e : HostEvent M) (h : ClientHost M) : ClientHost M :=
  match e.stop with
  | none => ((steps J clientId e.call).exec.run h).2
  | some n => ⟨((steps J clientId e.call).stopped h n).2.connection,none,none⟩

/-- The process does not stop right after it has deleted the group. -/
def Untorn (J : Serde M) (clientId : Uuid) (e : HostEvent M) (h : ClientHost M) : Prop :=
  ∀ n, e.stop = some n → ∀ w, ((steps J clientId e.call).stopped h n).1 = some w → ¬Torn w

/-- The database is sound, and the process works for the client id. -/
structure Recoverable (J : Serde M) (clientId : Uuid) (h : ClientHost M) : Prop where
  sound : Sound J clientId h.connection
  waiting : ∀ w, h.waiting = some w → w.profileId = clientId
  state : ∀ st, h.state = some st → st.profileId = clientId

section
variable {J : Serde M} {p : Uuid} {α : Type}

lemma db_durable {x : DbSteps M α} {Q : α → Connection M → Prop}
    (h : x.Durable (Sound J p) Torn (Sound J p) Q) (hQ : ∀ a c, Q a c → Sound J p c) :
    (db x).Durable (Recoverable J p) Torn (Recoverable J p)
      fun a h => Recoverable J p h ∧ Q a h.connection :=
  h.zoom (fun _ hs => hs.sound)
    (fun a c _ hs hc => ⟨⟨hQ a c hc,hs.waiting,hs.state⟩,hc⟩)
    fun _ _ hs hc => ⟨hc,hs.waiting,hs.state⟩

lemma client_durable {st : ClientHandshakeState M} {x : ClientHandshakeState.CallSteps M α}
    (h : x.Durable (Sane J p) Torn (Sane J p) fun _ s => Sane J p s) :
    (client st x).Durable (Recoverable J p) Torn
      (fun h => Recoverable J p h ∧ st.profileId = p) fun _ h => Recoverable J p h := by
  have hput (s : ClientHandshakeState M × Connection M) (h : ClientHost M)
      (hh : Recoverable J p h ∧ st.profileId = p) (hs : Sane J p s) :
      Recoverable J p { h with state := some s.1, connection := s.2 } := by
    refine ⟨hs.sound,hh.1.waiting,?_⟩
    rintro st' hst'
    obtain rfl := Option.some.inj hst'
    exact hs.profileId_eq
  exact h.zoom (fun h hh => ⟨hh.2,hh.1.sound⟩) (fun _ s h hh hs => hput s h hh hs)
    fun s h hh hs => hput s h hh hs

lemma setWaiting_durable {w : Option WaitingForServerHello}
    (hw : ∀ w', w = some w' → w'.profileId = p) :
    (setWaiting w : CallSteps M Unit).Durable (Recoverable J p) Torn (Recoverable J p)
      fun _ h => Recoverable J p h :=
  .read (.modify fun _ hh => ⟨hh.sound,hw,hh.state⟩)

lemma connectSteps_durable (leafSigner : M.SignatureKeyPair) (serverVerifyingKey : Bytes)
    (seed : ℕ) : (connectSteps J p leafSigner serverVerifyingKey seed).Durable (Sound J p) Torn
      (Sound J p) fun r c => Sound J p c ∧ r.1.profileId = p :=
  .bind (.write createTable_sound fun _ _ _ hc => hc) fun _ => .bind deleteSteps_durable fun _ =>
    .write (start_sound leafSigner serverVerifyingKey p seed) fun _ _ _ hc => hc.1

lemma acceptSteps_durable (hJ : J.Lawful) {waiting : WaitingForServerHello}
    (hw : waiting.profileId = p) (messageBytes : Bytes) :
    (acceptSteps J waiting messageBytes).Durable (Sound J p) Torn (Sound J p)
      fun r c => Sound J p c ∧ r.1.profileId = p := by
  refine .bind (receiveServerHelloSteps_durable waiting messageBytes) fun r => ?_
  refine .bind (Q := fun _ c => Sound J p c ∧ r.1.profileId = p) (.write ?_ fun _ _ _ hc => hc.1)
    fun _ => .pure fun _ hc => hc
  intro c hc
  have h := store_sound hJ r.1 c hc.1
  generalize (store J r.1).run c = result at h ⊢
  obtain ⟨f | u,c'⟩ := result
  · exact h
  · exact ⟨h,hc.2.trans hw⟩

lemma state_durable {f : ClientHandshakeState M → CallSteps M Unit}
    (hf : ∀ st, (f st).Durable (Recoverable J p) Torn
      (fun h => Recoverable J p h ∧ st.profileId = p) fun _ h => Recoverable J p h) :
    (do
      let h ← .read Exec.get
      match h.state with
      | none => pure ()
      | some st => f st : CallSteps M Unit).Durable (Recoverable J p) Torn (Recoverable J p)
        fun _ h => Recoverable J p h := by
  refine .bind (Q := fun h₀ h => h₀ = h ∧ Recoverable J p h) (.read (.get fun _ hh => ⟨rfl,hh⟩)) ?_
  intro h₀
  cases hst : h₀.state with
  | none => exact .pure fun _ hh => hh.2
  | some st =>
    refine (hf st).conseq ?_ fun _ _ hh => hh
    rintro h ⟨rfl,hh⟩
    exact ⟨hh,hh.state st hst⟩

/-- Every call, write by write. -/
theorem steps_durable (hJ : J.Lawful) (call : HostCall M) :
    (steps J p call).Durable (Recoverable J p) Torn (Recoverable J p)
      fun _ h => Recoverable J p h := by
  cases call with
  | connect leafSigner serverVerifyingKey seed =>
    refine .bind (setWaiting_durable (by simp)) fun _ => ?_
    refine .bind (db_durable (connectSteps_durable leafSigner serverVerifyingKey seed)
      fun _ _ hc => hc.1) fun r => .read (.modify fun h hh => ⟨hh.1.sound,?_,hh.1.state⟩)
    rintro w hw
    obtain rfl := Option.some.inj hw
    exact hh.2.2
  | accept messageBytes =>
    refine .bind (Q := fun h₀ h => h₀ = h ∧ Recoverable J p h)
      (.read (.get fun _ hh => ⟨rfl,hh⟩)) fun h₀ => ?_
    cases hw : h₀.waiting with
    | none => exact .pure fun _ hh => hh.2
    | some waiting =>
      by_cases hid : waiting.profileId = p
      · refine .bind ((setWaiting_durable (by simp)).conseq (fun _ hh => hh.2) fun _ _ hh => hh)
          fun _ => ?_
        refine .bind (db_durable (acceptSteps_durable hJ hid messageBytes) fun _ _ hc => hc.1)
          fun r => .read (.modify fun h hh => ⟨hh.1.sound,hh.1.waiting,?_⟩)
        rintro st hst
        obtain rfl := Option.some.inj hst
        exact hh.2.2
      · refine .conseq (P := fun _ => False) ?_ ?_ fun _ _ hh => hh
        · exact ⟨fun _ hh => hh.elim,fun _ hh => hh.elim⟩
        · rintro h ⟨rfl,hh⟩
          exact hid (hh.waiting waiting hw)
  | update leafSigner updateRequested seed =>
    exact state_durable fun st => .bind (client_durable
      (updateSteps_durable hJ leafSigner updateRequested seed)) fun _ => .pure fun _ hh => hh
  | receive leafSigner messageBytes seed =>
    exact state_durable fun st => .bind (client_durable
      (receiveSignalingMessageSteps_durable hJ leafSigner messageBytes seed)) fun _ =>
        .pure fun _ hh => hh
  | delete =>
    refine state_durable fun st => ?_
    by_cases hid : st.profileId = p
    · subst hid
      exact (db_durable deleteSteps_durable fun _ _ hc => hc).conseq (fun _ hh => hh.1)
        fun _ _ hh => hh.1
    · exact ⟨fun _ hh => absurd hh.2 hid,fun _ hh => absurd hh.2 hid⟩

lemma step_recoverable (hJ : J.Lawful) {e : HostEvent M} {h : ClientHost M}
    (hh : Recoverable J p h) (he : Untorn J p e h) : Recoverable J p (step J p e h) := by
  have hsteps := steps_durable hJ (p := p) e.call
  unfold step
  cases hstop : e.stop with
  | none =>
    have hrun := hsteps.exec h hh
    change Recoverable J p ((steps J p e.call).exec.run h).2
    generalize (steps J p e.call).exec.run h = r at hrun ⊢
    obtain ⟨f | u,h'⟩ := r
    · exact hrun
    · exact hrun
  | some n =>
    have hstopped := hsteps.stopped (fun _ hs => hs) (fun _ _ hs => hs) hh n (he n hstop)
    exact ⟨hstopped.sound,by simp,by simp⟩

end
end ClientHost

/-- A client starts on a database without a row for it, makes any calls, and its process stops
between any two writes, any number of times, though never between the deletion of a group and that
of its row. Then the cleanup of the next handshake returns and leaves no row. -/
theorem ClientHost.cleanup_recovers {J : Serde M} (hJ : J.Lawful) {clientId : Uuid}
    {c₀ : Connection M} (hc₀ : ∀ rows, c₀.handshakeStates = some rows →
      ∀ row ∈ rows, row.profileId ≠ clientId) {h : ClientHost M}
    (hrun : Run (step J clientId) (Untorn J clientId) ⟨c₀,none,none⟩ h) :
    ∃ c', (cleanup J clientId).run h.connection = (.ok (),c') ∧
      ∀ rows, c'.handshakeStates = some rows → ∀ row ∈ rows, row.profileId ≠ clientId :=
  cleanup_run (hrun.invariant (fun _ _ hh he => step_recoverable hJ hh he)
    ⟨Sound.of_not_mem hc₀,by simp,by simp⟩).sound

/-- The answer of the sample server. -/
def sampleServerHello : Bytes :=
  (ServerHelloOut.wire sampleMls).bytes ⟨.welcome ⟨[9],[1],[2],[7]⟩⟩

/-- A connection, and the next handshake of the same client, which stops after some of its writes:
the second one is the deletion of the group, the third one that of the row. -/
def stoppedCalls (n : ℕ) : List (HostEvent sampleMls) :=
  [⟨.connect [1] [2] 0,none⟩,⟨.accept sampleServerHello,none⟩,⟨.connect [1] [2] 1,some n⟩]

/-- What the calls leave behind. -/
def stoppedHost (n : ℕ) : ClientHost sampleMls :=
  (stoppedCalls n).foldl (fun h e => ClientHost.step sampleSerde [7] e h) ⟨sampleDb,none,none⟩

/-- If the process stops after the group and before the row, the row cannot be cleaned up: its
group is missing, and nothing changes that. -/
theorem ClientHost.cleanup_blocked :
    Run (step sampleSerde [7]) (fun _ _ => True) ⟨sampleDb,none,none⟩ (stoppedHost 2) ∧
      ((cleanup sampleSerde [7]).run (stoppedHost 2).connection).1 =
        .error (.error .invalidSessionId) ∧
      ((cleanup sampleSerde [7]).run
        ((cleanup sampleSerde [7]).run (stoppedHost 2).connection).2).1 =
        .error (.error .invalidSessionId) :=
  ⟨Run.ofList ⟨trivial,trivial,trivial,trivial⟩,rfl,rfl⟩

theorem ClientHost.cleanup_recovers_sample :
    ∃ c', (cleanup sampleSerde [7]).run (stoppedHost 3).connection = (.ok (),c') ∧
      ∀ rows, c'.handshakeStates = some rows → ∀ row ∈ rows, row.profileId ≠ [7] := by
  have hrun : Run (step sampleSerde [7]) (Untorn sampleSerde [7]) ⟨sampleDb,none,none⟩
      (stoppedHost 3) := by
    refine Run.ofList ⟨by simp [Untorn],by simp [Untorn],?_,trivial⟩
    intro n hn w hw
    obtain rfl := Option.some.inj hn
    have hwrite : ((steps sampleSerde [7] (.connect [1] [2] 1)).stopped
        (step sampleSerde [7] ⟨.accept sampleServerHello,none⟩
          (step sampleSerde [7] ⟨.connect [1] [2] 0,none⟩ ⟨sampleDb,none,none⟩)) 3).1 =
        some .rowDeletion := rfl
    obtain rfl := Option.some.inj (hwrite.symm.trans hw)
    simp [Torn]
  exact cleanup_recovers sampleSerde_lawful (by simp [sampleDb]) hrun

end MlsTls.MlsHandshake
