import MlsTls.MlsHandshake.Isolation

/-! The client's row follows its state. Every call that returns has either written the row last or
changed nothing; a call that fails may leave the two apart, but then the client waits for nothing,
and the next call that returns writes the row again. -/
namespace MlsTls.MlsHandshake
open Lib TlsAead
variable {M : OpenMls}

section
variable {I : Connection M → Prop}

namespace MlsSession

lemma loadGroup_invariant (groupId : GroupId) :
    Exec.Keeps I (loadGroup groupId) fun _ => True :=
  .bind .get fun _ _ => .bind .lift fun _ _ => .mono .orThrow fun _ _ => trivial

lemma createEpochKeyUpdate_invariant (session : MlsSession) :
    Exec.Keeps I session.createEpochKeyUpdate fun _ => True :=
  .bind (loadGroup_invariant _) fun _ _ => .pure trivial

lemma processEpochKeyUpdate_invariant (session : MlsSession) (confirmation : EpochKeyUpdate) :
    Exec.Keeps I (session.processEpochKeyUpdate confirmation) fun _ => True := by
  refine .bind (loadGroup_invariant _) fun g _ => ?_
  split_ifs
  · exact .throw
  · exact .pure trivial

-- what every write of a group keeps is kept by the calls that write groups only
variable (hI : ∀ c (g : M.Group), I c → I (c.saveGroup g))
include hI

lemma persist_invariant (f : BoxedError M.Error → HandshakeError M.Error)
    (r : Except M.Error M.Group) : Exec.Keeps I (persist f r) fun _ => True :=
  .bind .lift fun g _ => .bind (.modify fun c hc => hI c g hc) fun _ _ => .pure trivial

lemma update_invariant (session : MlsSession) (leafSigner : M.SignatureKeyPair) (seed : ℕ) :
    Exec.Keeps I (session.update leafSigner seed) fun commit =>
      ∃ g g', M.selfUpdate leafSigner seed g = .ok (commit,g') := by
  refine .bind (loadGroup_invariant _) fun g _ => .bind .lift ?_
  rintro ⟨commit,g'⟩ hu
  exact .bind (.modify fun c hc => hI c g' hc) fun _ _ => .pure ⟨g,g',hu⟩

lemma mergeUpdate_invariant :
    Exec.Keeps (fun s : MlsSession × Connection M => I s.2) mergeUpdate fun _ => True := by
  have hdb {α : Type} {x : Db M α} {Q : α → Prop} (h : Exec.Keeps I x Q) :
      Exec.Keeps (fun s : MlsSession × Connection M => I s.2) (MlsSession.db x) Q :=
    .zoom Prod.snd _ (fun _ _ => rfl) h
  refine .bind .get fun s _ => .bind (hdb (loadGroup_invariant _)) fun g _ => ?_
  refine .bind (hdb (persist_invariant hI _ _)) fun g' _ => .bind (.modify fun _ hs => hs) ?_
  exact fun _ _ => hdb (Roster.exportTrafficSecrets_keeps g')

lemma settlePendingCommit_invariant (message : M.PrivateMessage) (drop : Bool) (g : M.Group) :
    Exec.Keeps I (settlePendingCommit message drop g) fun _ => True := by
  unfold settlePendingCommit
  split_ifs
  · exact persist_invariant hI _ _
  · exact persist_invariant hI _ _
  · exact .pure trivial
  · exact .panic

lemma processMessage_invariant (message : M.PrivateMessage) (g : M.Group) :
    Exec.Keeps I (processMessage message g) fun _ => True :=
  .bind (.modify fun c hc => hI c _ hc) fun _ _ => .bind .lift fun _ _ => .pure trivial

lemma processMlsUpdate_invariant (mlsMessage : M.Message) (drop : Bool) :
    Exec.Keeps I (processMlsUpdate mlsMessage drop) fun _ => True := by
  unfold processMlsUpdate
  split
  · refine .bind (loadGroup_invariant _) fun g _ => ?_
    refine .bind (settlePendingCommit_invariant hI _ _ _) fun g₁ _ => ?_
    refine .bind (processMessage_invariant hI _ _) fun processed _ => .bind .lift fun r _ => ?_
    refine .bind (persist_invariant hI _ _) fun g₃ _ => ?_
    exact .bind (Roster.exportTrafficSecrets_keeps g₃) fun _ _ => .pure trivial
  · exact .throw

end MlsSession

namespace ClientHandshakeState

/-- What is said of a client looks at its profile id, its internal state and its database. -/
structure Holds (A : Uuid → ClientInternalState M → Prop) (I : Connection M → Prop)
    (s : ClientHandshakeState M × Connection M) : Prop where
  state : A s.1.profileId s.1.internalState
  db : I s.2

variable {A : Uuid → ClientInternalState M → Prop} {α : Type}

lemma db_triple {P E : Connection M → Prop} {x : Db M α} {Q : α → Connection M → Prop}
    (h : Exec.Triple P x Q fun _ => E) :
    Exec.Triple (Holds A P) (db x) (fun a => Holds A (Q a)) fun _ => Holds A E := by
  intro s hs
  have hx := h s.2 hs.db
  rw [db,Exec.zoom_run]
  generalize x.run s.2 = r at hx ⊢
  obtain ⟨f | a,c'⟩ := r
  · exact ⟨hs.state,hx⟩
  · exact ⟨hs.state,hx⟩

lemma db_holds {x : Db M α} {Q : α → Prop} (h : Exec.Keeps I x Q) :
    Exec.Keeps (Holds A I) (db x) Q :=
  (db_triple h).conseq (fun _ hs => hs) (fun _ _ hs => ⟨⟨hs.state,hs.db.1⟩,hs.db.2⟩)
    fun _ _ hs => hs

lemma session_holds {x : MlsSession.Call M α} {Q : α → Prop}
    (h : Exec.Keeps (fun s : MlsSession × Connection M => I s.2) x Q) :
    Exec.Keeps (Holds A I) (session x) Q := by
  intro s hs
  have hx := h (s.1.mlsSession,s.2) hs.db
  rw [session,Exec.zoom_run]
  generalize x.run (s.1.mlsSession,s.2) = r at hx ⊢
  obtain ⟨f | a,c'⟩ := r
  · exact ⟨hs.state,hx⟩
  · exact ⟨⟨hs.state,hx.1⟩,hx.2⟩

lemma createEpochKeyUpdate_holds : Exec.Keeps (Holds A I) createEpochKeyUpdate fun _ => True :=
  .bind .get fun _ _ => .bind (db_holds (MlsSession.createEpochKeyUpdate_invariant _)) fun _ _ =>
    .mono .orThrow fun _ _ => trivial

lemma processEpochKeyUpdate_holds (keyUpdate : EpochKeyUpdate) :
    Exec.Keeps (Holds A I) (processEpochKeyUpdate keyUpdate) fun _ => True :=
  .bind .get fun _ _ => db_holds (MlsSession.processEpochKeyUpdate_invariant _ keyUpdate)

variable (hI : ∀ c (g : M.Group), I c → I (c.saveGroup g))
include hI

lemma sessionUpdate_holds (leafSigner : M.SignatureKeyPair) (seed : ℕ) :
    Exec.Keeps (Holds A I) (sessionUpdate leafSigner seed) fun commit =>
      ∃ g g', M.selfUpdate leafSigner seed g = .ok (commit,g') :=
  .bind .get fun _ _ => db_holds (MlsSession.update_invariant hI _ leafSigner seed)

lemma mergeUpdate_holds :
    Exec.Keeps (Holds A I) (session MlsSession.mergeUpdate) fun _ => True :=
  session_holds (MlsSession.mergeUpdate_invariant hI)

end ClientHandshakeState
end

namespace ClientHandshakeState

/-- What is loaded for the client is its state. -/
def Persisted (J : Serde M) (s : ClientHandshakeState M × Connection M) : Prop :=
  (load J s.1.profileId).run s.2 = (.ok (some s.1),s.2)

/-- The table has a row of the current version for the profile. -/
def HasRow (profileId : Uuid) (c : Connection M) : Prop :=
  ∃ rows row, c.handshakeStates = some rows ∧ rows.find? (·.profileId = profileId) = some row ∧
    row.version = ClientHandshakeVersion.default.toSql

/-- The client has a row; while it waits for an answer, the row is its state. -/
structure Following (J : Serde M) (profileId : Uuid) (s : ClientHandshakeState M × Connection M) :
    Prop where
  profileId_eq : s.1.profileId = profileId
  hasRow : HasRow profileId s.2
  persisted : s.1.isWaitingForResponse = true → Persisted J s

section
variable {J : Serde M} {p : Uuid} {c : Connection M} {st : ClientHandshakeState M} {α : Type}

/-- The client waits for nothing. -/
def Idle (p profileId : Uuid) (i : ClientInternalState M) : Prop := profileId = p ∧ i = .running

lemma HasRow.saveGroup (c : Connection M) (g : M.Group) (h : HasRow p c) :
    HasRow p (c.saveGroup g) := h

lemma Following.of_idle {s : ClientHandshakeState M × Connection M}
    (h : Holds (Idle p) (HasRow p) s) : Following J p s := by
  refine ⟨h.state.1,h.db,fun hw => ?_⟩
  simp [isWaitingForResponse,h.state.2] at hw

lemma Following.idle {s : ClientHandshakeState M × Connection M} (h : Following J p s)
    (hw : ¬s.1.isWaitingForResponse = true) : Holds (Idle p) (HasRow p) s :=
  ⟨⟨h.profileId_eq,internalState_of_not_waiting (by simpa using hw)⟩,h.hasRow⟩

lemma load_run (hJ : J.Lawful) {b : Bytes} (hb : J.toVec st = some b)
    {rows : List HandshakeStateRow} {row : HandshakeStateRow} (hrows : c.handshakeStates = some rows)
    (hfind : rows.find? (·.profileId = p) = some row)
    (hversion : row.version = ClientHandshakeVersion.default.toSql)
    (hrow : row.handshakeState = b) : (load J p).run c = (.ok (some st),c) := by
  refine load_parsed hrows hfind ?_ ?_
  · rw [hrow]
    exact hJ.fromSlice_toVec hb
  · rw [hversion]
    rfl

lemma storeUpdate_persists (hJ : J.Lawful) (h : HasRow st.profileId c) :
    ∃ c', (storeUpdate J st).run c = (.ok (),c') ∧ HasRow st.profileId c' ∧
      Persisted J (st,c') := by
  obtain ⟨rows,row,hrows,hfind,hversion⟩ := h
  obtain ⟨b,hb⟩ := hJ.toVec_ok st
  let write (row : HandshakeStateRow) : HandshakeStateRow :=
    if row.profileId = st.profileId then { row with handshakeState := b } else row
  have hwrite : (fun row : HandshakeStateRow => decide (row.profileId = st.profileId)) ∘ write =
      fun row => decide (row.profileId = st.profileId) := by
    funext row
    simp only [Function.comp_apply,write]
    split_ifs <;> rfl
  have hfind' : (rows.map write).find? (·.profileId = st.profileId) =
      some { row with handshakeState := b } := by
    have hp : row.profileId = st.profileId := by simpa using List.find?_some hfind
    rw [List.find?_map,hwrite,hfind]
    simp only [Option.map_some,write,hp,if_true]
  refine ⟨{ c with handshakeStates := some (rows.map write) },?_,⟨_,_,rfl,hfind',hversion⟩,
    load_run hJ hb rfl hfind' hversion rfl⟩
  simp [storeUpdate,handshakeStates,toSql,setHandshakeStates,Exec.bind_run,hrows,hb,write]

lemma store_persists (hJ : J.Lawful) {c₀ : Connection M} (h : (store J st).run c = (.ok (),c₀)) :
    HasRow st.profileId c₀ ∧ Persisted J (st,c₀) := by
  obtain ⟨b,hb⟩ := hJ.toVec_ok st
  let new : HandshakeStateRow := ⟨st.profileId,ClientHandshakeVersion.default.toSql,b⟩
  cases hrows : c.handshakeStates with
  | none => simp [store,handshakeStates,Exec.bind_run,hrows] at h
  | some rows =>
    simp only [store,handshakeStates,toSql,setHandshakeStates,Exec.bind_run,Exec.get_run,hrows,hb,
      Exec.orThrow_some] at h
    split_ifs at h with hany
    · simp at h
    · obtain rfl := (Prod.mk.inj h).2
      have hnone : rows.find? (·.profileId = st.profileId) = none := by simpa using hany
      have hfind : (rows++[new]).find? (·.profileId = st.profileId) = some new := by
        rw [List.find?_append,hnone]
        simp [new]
      exact ⟨⟨_,_,rfl,hfind,rfl⟩,load_run hJ hb rfl hfind rfl rfl⟩

lemma writeRow_follows (hJ : J.Lawful) (a : α)
    {E : Fault (HandshakeError M.Error) → ClientHandshakeState M × Connection M → Prop} :
    Exec.Triple (Holds (fun profileId _ => profileId = p) (HasRow p))
      (do
        let s ← Exec.get
        db (storeUpdate J s.1)
        pure a : Call M α)
      (fun _ s => Following J p s ∧ Persisted J s) E := by
  rintro ⟨st,c⟩ ⟨rfl,hrow⟩
  obtain ⟨c',hrun,hrow',hp⟩ := storeUpdate_persists hJ hrow
  simp only [Exec.bind_run,Exec.get_run,db_run hrun,Exec.pure_run]
  exact ⟨⟨rfl,hrow',fun _ => hp⟩,hp⟩

/-- The state between two calls, when the next one returns and when it fails. -/
abbrev Follows (J : Serde M) (p : Uuid) (x : Call M α) : Prop :=
  Exec.Triple (Following J p) x (fun _ s => Following J p s ∧ Persisted J s)
    fun _ s => Following J p s

lemma follows_of_idle {x : Call M α} {Q : α → ClientHandshakeState M × Connection M → Prop}
    (h : Exec.Triple (Holds (Idle p) (HasRow p)) x Q fun _ s => Holds (Idle p) (HasRow p) s)
    {s₀ : ClientHandshakeState M × Connection M} (hw : ¬s₀.1.isWaitingForResponse = true) :
    Exec.Triple (fun s => s₀ = s ∧ Following J p s) x Q fun _ s => Following J p s := by
  refine h.conseq ?_ (fun _ _ hs => hs) fun _ _ hs => .of_idle hs
  rintro s ⟨rfl,hs⟩
  exact hs.idle hw

lemma update_follows (hJ : J.Lawful) (leafSigner : M.SignatureKeyPair) (updateRequested : Bool)
    (seed : ℕ) : Follows J p (update J leafSigner updateRequested seed) := by
  refine .bind (Q := fun s₀ s => s₀ = s ∧ Following J p s) (.get fun _ hs => ⟨rfl,hs⟩) fun s₀ => ?_
  split_ifs with hw
  · exact .throw fun _ hs => hs.2
  · refine follows_of_idle ?_ hw
    refine (sessionUpdate_holds HasRow.saveGroup leafSigner seed).andThen (fun _ _ hs => hs) ?_
    intro commit _
    refine (mergeUpdate_holds HasRow.saveGroup).andThen (fun _ _ hs => hs) fun secrets _ => ?_
    refine Exec.Keeps.orThrow.andThen (fun _ _ hs => hs) fun bytes _ => ?_
    refine .bind (Q := fun _ => Holds (fun profileId _ => profileId = p) (HasRow p)) ?_
      fun _ => writeRow_follows hJ _
    exact .modify fun s hs => ⟨hs.state.1,hs.db⟩

lemma processUpdate_follows (hM : ∀ {leafSigner seed g commit g'},
      M.selfUpdate leafSigner seed g = .ok (commit,g') → ∃ b, M.wire.enc commit = some b)
    (leafSigner : M.SignatureKeyPair) (connectionUpdate : ConnectionUpdateIn M) (seed : ℕ) :
    Exec.Triple (Holds (Idle p) (HasRow p)) (processUpdate leafSigner connectionUpdate seed)
      (fun _ s => Holds (fun profileId _ => profileId = p) (HasRow p) s)
      fun _ s => Holds (Idle p) (HasRow p) s := by
  -- once the client has an own commit to wait for, its answer is a message that can be written
  refine (db_holds (MlsSession.processMlsUpdate_invariant HasRow.saveGroup _ false)).andThen
    (fun _ _ hs => hs) fun r _ => ?_
  refine (Exec.Keeps.modify fun s hs => ⟨hs.state,hs.db⟩).andThen (fun _ _ hs => hs) fun _ _ => ?_
  refine createEpochKeyUpdate_holds.andThen (fun _ _ hs => hs) fun bytes _ => ?_
  split_ifs
  · refine (sessionUpdate_holds HasRow.saveGroup leafSigner seed).andThen (fun _ _ hs => hs) ?_
    rintro commit ⟨g,g',hu⟩
    refine (mergeUpdate_holds HasRow.saveGroup).andThen (fun _ _ hs => hs) fun secrets _ => ?_
    refine .bind (Q := fun _ => Holds (fun profileId _ => profileId = p) (HasRow p))
      (.modify fun s hs => ⟨hs.state.1,hs.db⟩) fun _ s hs => ?_
    rw [Exec.bind_of_ok (serialize_run (connectionUpdate_enc (.ofBool false) (hM hu)) s)]
    exact hs
  · refine .bind (Q := fun _ => Holds (fun profileId _ => profileId = p) (HasRow p))
      (.modify fun s hs => ⟨hs.state.1,hs.db⟩) fun _ => .pure fun _ hs => hs

lemma receiveConnectionUpdate_follows (hJ : J.Lawful) (hM : ∀ {leafSigner seed g commit g'},
      M.selfUpdate leafSigner seed g = .ok (commit,g') → ∃ b, M.wire.enc commit = some b)
    (leafSigner : M.SignatureKeyPair) (connectionUpdate : ConnectionUpdateIn M) (seed : ℕ) :
    Follows J p (receiveConnectionUpdate J leafSigner connectionUpdate seed) := by
  refine .bind (Q := fun s₀ s => s₀ = s ∧ Following J p s) (.get fun _ hs => ⟨rfl,hs⟩) fun s₀ => ?_
  split_ifs with hw
  · -- the message is ignored, and the row is the one of the waiting client
    refine .pure ?_
    rintro s ⟨rfl,hs⟩
    exact ⟨hs,hs.persisted hw⟩
  · refine follows_of_idle ?_ hw
    exact .bind (processUpdate_follows hM leafSigner connectionUpdate seed) fun _ =>
      writeRow_follows hJ _

lemma takeInternalState_follows
    {E : Fault (HandshakeError M.Error) → ClientHandshakeState M × Connection M → Prop} :
    Exec.Triple (Following J p) takeInternalState
      (fun _ s => Holds (Idle p) (HasRow p) s) E := by
  -- the state is taken out of a client before a confirmation is looked at
  rintro ⟨st,c⟩ hs
  rw [takeInternalState_run]
  exact ⟨⟨hs.profileId_eq,rfl⟩,hs.hasRow⟩

lemma confirmed_follows (hJ : J.Lawful) (keyUpdate : EpochKeyUpdate) (a : α) :
    Exec.Triple (Holds (Idle p) (HasRow p))
      (do
        processEpochKeyUpdate keyUpdate
        let s ← Exec.get
        db (storeUpdate J s.1)
        pure a : Call M α)
      (fun _ s => Following J p s ∧ Persisted J s) fun _ s => Following J p s := by
  refine (processEpochKeyUpdate_holds keyUpdate).andThen (fun _ _ hs => .of_idle hs) fun _ _ => ?_
  exact (writeRow_follows hJ a).pre fun s hs => ⟨hs.state.1,hs.db⟩

lemma receiveConnectionConfirmation_follows (hJ : J.Lawful) (confirmation : EpochKeyUpdate)
    (messageType : String) :
    Follows J p (receiveConnectionConfirmation J confirmation messageType) := by
  refine .bind takeInternalState_follows fun i => ?_
  split
  · refine (processEpochKeyUpdate_holds confirmation).andThen (fun _ _ hs => .of_idle hs) ?_
    intro _ _
    refine .bind (Q := fun _ => Holds (fun profileId _ => profileId = p) (HasRow p))
      (.modify fun s hs => ⟨hs.state.1,hs.db⟩) fun _ => writeRow_follows hJ _
  · exact .throw fun _ hs => .of_idle hs

lemma receiveEpochKeyUpdate_follows (hJ : J.Lawful) (epochKeyUpdate : EpochKeyUpdate)
    (messageType : String) : Follows J p (receiveEpochKeyUpdate J epochKeyUpdate messageType) := by
  refine .bind takeInternalState_follows fun i => ?_
  split
  · exact confirmed_follows hJ epochKeyUpdate _
  · exact confirmed_follows hJ epochKeyUpdate _
  · exact .throw fun _ hs => .of_idle hs

lemma receiveSignalingMessage_follows (hJ : J.Lawful) (hM : ∀ {leafSigner seed g commit g'},
      M.selfUpdate leafSigner seed g = .ok (commit,g') → ∃ b, M.wire.enc commit = some b)
    (leafSigner : M.SignatureKeyPair) (messageBytes : Bytes) (seed : ℕ) :
    Follows J p (receiveSignalingMessage J leafSigner messageBytes seed) := by
  refine Exec.Keeps.orThrow.andThen (fun _ _ hs => hs) fun message _ => ?_
  cases message with
  | connectionUpdate update => exact receiveConnectionUpdate_follows hJ hM leafSigner update seed
  | connectionConfirmation confirmation => exact receiveConnectionConfirmation_follows hJ _ _
  | epochKeyUpdate update => exact receiveEpochKeyUpdate_follows hJ _ _
  | keyUpdate update => exact .panic fun _ hs => hs

end
end ClientHandshakeState

/-- The calls on a client's state after its handshake. -/
inductive ClientCall (M : OpenMls)
  | update (leafSigner : M.SignatureKeyPair) (updateRequested : Bool) (seed : ℕ)
  | receive (leafSigner : M.SignatureKeyPair) (messageBytes : Bytes) (seed : ℕ)
  | resume (leafSigner : M.SignatureKeyPair) (seed : ℕ)

namespace ClientCall
open ClientHandshakeState

/-- The call, with its result left out. -/
def exec (J : Serde M) : ClientCall M → ClientHandshakeState.Call M Unit
  | .update leafSigner updateRequested seed => do
    let _ ← ClientHandshakeState.update J leafSigner updateRequested seed
  | .receive leafSigner messageBytes seed => do
    let _ ← receiveSignalingMessage J leafSigner messageBytes seed
  | .resume leafSigner seed => do
    let _ ← ClientHandshakeState.resume leafSigner seed

/-- The state and the database after a call, whatever its result. -/
def step (J : Serde M) (call : ClientCall M) (s : ClientHandshakeState M × Connection M) :
    ClientHandshakeState M × Connection M := ((call.exec J).run s).2

def isResume : ClientCall M → Bool
  | .resume _ _ => true
  | _ => false

/-- Any calls after the handshake, with those that `allow` permits. -/
abbrev Runs (J : Serde M) (allow : ClientCall M → Prop) :
    ClientHandshakeState M × Connection M → ClientHandshakeState M × Connection M → Prop :=
  Run (step J) fun call _ => allow call

variable {J : Serde M} {p : Uuid}

lemma exec_follows (hJ : J.Lawful) (hM : ∀ {leafSigner seed g commit g'},
      M.selfUpdate leafSigner seed g = .ok (commit,g') → ∃ b, M.wire.enc commit = some b)
    {call : ClientCall M} (hcall : call.isResume = false) : Follows J p (call.exec J) := by
  cases call with
  | update leafSigner updateRequested seed =>
    exact .bind (update_follows hJ leafSigner updateRequested seed) fun _ => .pure fun _ hs => hs
  | receive leafSigner messageBytes seed =>
    exact .bind (receiveSignalingMessage_follows hJ hM leafSigner messageBytes seed) fun _ =>
      .pure fun _ hs => hs
  | resume leafSigner seed => simp [isResume] at hcall

lemma step_follows (hJ : J.Lawful) (hM : ∀ {leafSigner seed g commit g'},
      M.selfUpdate leafSigner seed g = .ok (commit,g') → ∃ b, M.wire.enc commit = some b)
    {call : ClientCall M} (hcall : call.isResume = false)
    {s : ClientHandshakeState M × Connection M} (hs : Following J p s) :
    Following J p (call.step J s) ∧
      (((call.exec J).run s).1 = .ok () → Persisted J (call.step J s)) := by
  have h := exec_follows hJ hM hcall s hs
  rw [step]
  generalize (call.exec J).run s = r at h ⊢
  obtain ⟨f | u,s'⟩ := r
  · exact ⟨h,by simp⟩
  · exact ⟨h.1,fun _ => h.2⟩

end ClientCall

/-- From the first write of the row on, and for any calls but resumptions: after every call that
returns, what is loaded for the client is its state. -/
theorem ClientHandshakeState.persisted_follows_memory {J : Serde M} (hJ : J.Lawful)
    (hM : ∀ {leafSigner seed g commit g'},
      M.selfUpdate leafSigner seed g = .ok (commit,g') → ∃ b, M.wire.enc commit = some b)
    {st : ClientHandshakeState M} {c c₀ : Connection M} (hstore : (store J st).run c = (.ok (),c₀)) :
    Persisted J (st,c₀) ∧
      ∀ {s}, ClientCall.Runs J (·.isResume = false) (st,c₀) s → ∀ {call : ClientCall M},
        call.isResume = false → ((call.exec J).run s).1 = .ok () →
          (call.step J s).1.profileId = st.profileId ∧ Persisted J (call.step J s) := by
  obtain ⟨hrow,hp⟩ := store_persists hJ hstore
  refine ⟨hp,fun {s} hrun {call} hcall hok => ?_⟩
  have hs : Following J st.profileId s :=
    hrun.invariant (fun call _ hs hcall => (ClientCall.step_follows hJ hM hcall hs).1)
      ⟨rfl,hrow,fun _ => hp⟩
  obtain ⟨hs',hp'⟩ := ClientCall.step_follows hJ hM hcall hs
  exact ⟨hs'.profileId_eq,hp' hok⟩

/-- The sample client after a resumption. -/
def resumedClient : ClientHandshakeState sampleMls × Connection sampleMls :=
  (ClientCall.resume [1] 5).step sampleSerde (sampleSystem.client,sampleClientDb)

lemma sampleClientDb_store : (ClientHandshakeState.store sampleSerde sampleSystem.client).run
    sampleSystem.clientDb = (.ok (),sampleClientDb) :=
  Exec.run_of_isOk (by decide +kernel)

/-- A resumption leaves the row behind: the stored client waits for nothing and knows nothing of
the new commit. -/
theorem ClientHandshakeState.persisted_behind_resumption :
    (store sampleSerde sampleSystem.client).run sampleSystem.clientDb = (.ok (),sampleClientDb) ∧
      (((ClientCall.resume [1] 5).exec sampleSerde).run
        (sampleSystem.client,sampleClientDb)).1 = .ok () ∧
      ¬Persisted sampleSerde resumedClient := by
  refine ⟨sampleClientDb_store,Exec.eq_ok_of_isOk (by decide +kernel),?_⟩
  intro h
  have hmemory : isWaitingForResponse resumedClient.1 = true := by decide +kernel
  have hrow : (((load sampleSerde resumedClient.1.profileId).run resumedClient.2).1.toOption.join.map
      isWaitingForResponse) = some false := by decide +kernel
  rw [h] at hrow
  simp [Except.toOption,hmemory] at hrow

/-- The sample client while it waits for the confirmation of its own update. -/
def updatedClient : ClientHandshakeState sampleMls × Connection sampleMls :=
  (ClientCall.update [1] false 5).step sampleSerde (sampleSystem.client,sampleClientDb)

theorem ClientHandshakeState.persisted_follows_memory_sample :
    Persisted sampleSerde ((ClientCall.receive [1] (epochKeyUpdateBytes sampleMls 2) 6).step
      sampleSerde updatedClient) := by
  obtain ⟨-,h⟩ := persisted_follows_memory sampleSerde_lawful (fun _ => Sample.messageWire_enc _)
    sampleClientDb_store
  have hrun : ClientCall.Runs sampleSerde (·.isResume = false)
      (sampleSystem.client,sampleClientDb) updatedClient :=
    Run.single (ClientCall.update [1] false 5) rfl
  have hok : (((ClientCall.receive [1] (epochKeyUpdateBytes sampleMls 2) 6).exec sampleSerde).run
      updatedClient).1 = .ok () := Exec.eq_ok_of_isOk (by decide +kernel)
  exact (h hrun rfl hok).2

end MlsTls.MlsHandshake
