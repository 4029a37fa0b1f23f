import MlsTls.Lib.Noninterference
import MlsTls.MlsHandshake.Processing

/-! Which groups of the database a call of the server looks at and changes: that of its session, the
one that a message names, and no other. All that is relied on is that the library keeps the id of a
group. -/
namespace MlsTls.MlsHandshake
open Lib TlsAead
variable {M : OpenMls}

/-- The calls of the library keep the id of a group. -/
structure KeepsIds (M : OpenMls) : Prop where
  build : ∀ {groupId signer credential seed g}, M.buildGroup groupId signer credential seed = .ok g →
    M.groupId g = groupId
  add : ∀ {signer keyPackage seed g welcome g'},
    M.addMembers signer keyPackage seed g = .ok (welcome,g') → M.groupId g' = M.groupId g
  selfUpdate : ∀ {signer seed g m g'}, M.selfUpdate signer seed g = .ok (m,g') →
    M.groupId g' = M.groupId g
  mergePending : ∀ {g g'}, M.mergePendingCommit g = .ok g' → M.groupId g' = M.groupId g
  clearPending : ∀ {g g'}, M.clearPendingCommit g = .ok g' → M.groupId g' = M.groupId g
  process : ∀ p g, M.groupId (M.processMessage p g).2 = M.groupId g
  mergeStaged : ∀ {staged g g'}, M.mergeStagedCommit staged g = .ok g' → M.groupId g' = M.groupId g

theorem keepsIds_of_lawful {S : Standing M} (hS : S.Lawful) {R : Roster M} (hR : R.Lawful) :
    KeepsIds M where
  build h := (hR.build h).1
  add h := (hR.add h).1.groupId
  selfUpdate h := (hS.selfUpdate h).1
  mergePending h := (hS.mergePending h).1
  clearPending h := (hS.clearPending h).1
  process p g := (hS.process p g).1
  mergeStaged h := (hS.mergeStaged h).1

/-- What is stored under the ids in `G`. -/
abbrev Stored (M : OpenMls) (G : Set GroupId) := G → Except M.Error (Option M.Group)

namespace Connection
variable {G : Set GroupId} (t : Stored M G) (c : Connection M) {j : GroupId}

open Classical in
/-- The database with other groups under the ids in `G`. -/
noncomputable def replace : Connection M :=
  { c with groups := fun j => if h : j ∈ G then t ⟨j,h⟩ else c.groups j }

lemma replace_groups (hj : j ∈ G) : (c.replace t).groups j = t ⟨j,hj⟩ := dif_pos hj

lemma replace_groups_of_notMem (hj : j ∉ G) : (c.replace t).groups j = c.groups j := dif_neg hj

lemma eq_replace {c' : Connection M} (hin : ∀ j, c'.groups j.1 = t j)
    (hout : ∀ j, j ∉ G → c'.groups j = c.groups j) (hkeys : c'.keyPackages = c.keyPackages)
    (hrows : c'.handshakeStates = c.handshakeStates) : c' = c.replace t := by
  have hgroups : c'.groups = (c.replace t).groups := by
    funext j
    by_cases hj : j ∈ G
    · rw [replace_groups t c hj]
      exact hin ⟨j,hj⟩
    · rw [replace_groups_of_notMem t c hj]
      exact hout j hj
  obtain ⟨groups,keys,rows⟩ := c'
  obtain rfl : groups = _ := hgroups
  obtain rfl : keys = _ := hkeys
  obtain rfl : rows = _ := hrows
  rfl

/-- The groups of the database whose ids are in `G`. -/
noncomputable def part (M : OpenMls) (G : Set GroupId) : Lens (Connection M) (Stored M G) where
  view c j := c.groups j
  put t c := c.replace t
  view_put t c := funext fun j => replace_groups t c j.2
  put_view c := (eq_replace _ c (fun _ => rfl) (fun _ _ => rfl) rfl rfl).symm
  put_put t t' c := by
    refine eq_replace t' c (fun j => replace_groups t' _ j.2) (fun j hj => ?_) rfl rfl
    rw [replace_groups_of_notMem t' _ hj,replace_groups_of_notMem t c hj]

end Connection

/-- Every group of the part is stored under its own id. -/
def FiledIn {G : Set GroupId} (t : Stored M G) : Prop :=
  ∀ j g, t j = .ok (some g) → M.groupId g = j

lemma Roster.Filed.part {c : Connection M} (h : Roster.Filed c) (G : Set GroupId) :
    FiledIn ((Connection.part M G).view c) := fun j g hg => h j g hg

lemma FiledIn.update {G : Set GroupId} [DecidableEq G] {t : Stored M G} (h : FiledIn t) (j : G)
    {r : Except M.Error (Option M.Group)} (hr : ∀ g, r = .ok (some g) → M.groupId g = j) :
    FiledIn (Function.update t j r) := by
  intro i g hi
  by_cases he : i = j
  · subst he
    rw [Function.update_self] at hi
    exact hr g hi
  · rw [Function.update_of_ne he] at hi
    exact h i g hi

/-- The call looks at and changes nothing but the groups with ids in `G`. -/
abbrev InPart (G : Set GroupId) {α : Type} (x : Db M α) (Q : α → Prop) : Prop :=
  Exec.Within (Connection.part M G) FiledIn x Q

/-- The groups that a message names. -/
def namedBy (mlsMessage : M.Message) : Set GroupId :=
  {j | ∃ message, M.extract mlsMessage = .privateMessage message ∧ M.messageGroupId message = j}

namespace MlsSession
variable {G : Set GroupId} {groupId : GroupId}

lemma write_eq_replace [DecidableEq G] (c : Connection M) (j : G)
    (r : Except M.Error (Option M.Group)) :
    ({ c with groups := Function.update c.groups j r } : Connection M) =
      c.replace (Function.update ((Connection.part M G).view c) j r) := by
  refine Connection.eq_replace _ c (fun i => ?_) (fun i hi => ?_) rfl rfl
  · by_cases he : i = j
    · subst he
      rw [Function.update_self]
      exact Function.update_self ..
    · rw [Function.update_of_ne he]
      exact Function.update_of_ne (fun h : i.1 = j.1 => he (Subtype.ext h)) ..
  · exact Function.update_of_ne (fun h : i = j.1 => hi (h ▸ j.2)) ..

lemma saveGroup_inPart {g : M.Group} (hg : M.groupId g ∈ G) :
    InPart G (Exec.modify (·.saveGroup g) : Db M Unit) fun _ => True := by
  classical
  refine .modify (fun t => Function.update t ⟨M.groupId g,hg⟩ (.ok (some g)))
    (fun c _ => write_eq_replace c ⟨M.groupId g,hg⟩ _) fun t ht => ht.update _ fun g' hg' => ?_
  obtain rfl := Option.some.inj (Except.ok.inj hg')
  rfl

lemma loadGroup_inPart (hj : groupId ∈ G) :
    InPart G (loadGroup groupId) fun g : M.Group => M.groupId g = groupId := by
  refine .get_bind (fun t => do
    let group ← Exec.lift (fun e => .providerError (.library e)) (t ⟨groupId,hj⟩)
    Exec.orThrow .invalidSessionId group) (fun c _ => rfl) fun t ht => ?_
  refine .bind .lift fun o ho => .mono .orThrow fun g hg => ?_
  exact ht ⟨groupId,hj⟩ g (by rw [ho,hg])

lemma persist_inPart {f : BoxedError M.Error → HandshakeError M.Error} {r : Except M.Error M.Group}
    (h : ∀ g, r = .ok g → M.groupId g ∈ G) : InPart G (persist f r) fun g => r = .ok g :=
  .bind .lift fun g hg => .bind (saveGroup_inPart (h g hg)) fun _ _ => .pure hg

lemma exportTrafficSecrets_inPart (g : M.Group) :
    InPart G (exportTrafficSecrets g) fun _ => True :=
  .bind .lift fun _ _ => .bind .lift fun _ _ => .pure trivial

lemma createEpochKeyUpdate_inPart {session : MlsSession} (hj : session.groupId ∈ G) :
    InPart G (session.createEpochKeyUpdate : Db M _) fun _ => True :=
  .bind (loadGroup_inPart hj) fun _ _ => .pure trivial

lemma processEpochKeyUpdate_inPart {session : MlsSession} (hj : session.groupId ∈ G)
    (confirmation : EpochKeyUpdate) :
    InPart G (session.processEpochKeyUpdate confirmation : Db M _) fun _ => True := by
  refine .bind (loadGroup_inPart hj) fun g _ => ?_
  split_ifs
  · exact .throw
  · exact .pure trivial

lemma delete_inPart {session : MlsSession} (hj : session.groupId ∈ G) :
    InPart G (session.delete : Db M _) fun _ => True := by
  classical
  refine .bind (loadGroup_inPart hj) fun g hg => ?_
  rw [hg]
  exact .modify (fun t => Function.update t ⟨session.groupId,hj⟩ (.ok none))
    (fun c _ => write_eq_replace c ⟨session.groupId,hj⟩ _) fun t ht => ht.update _ (by simp)

section
variable (hM : KeepsIds M)
include hM

lemma update_inPart {session : MlsSession} (hj : session.groupId ∈ G) (signer : M.SignatureKeyPair)
    (seed : ℕ) : InPart G (session.update signer seed) fun _ => True := by
  refine .bind (loadGroup_inPart hj) fun g hg => .bind .lift ?_
  rintro ⟨m,g'⟩ hu
  have hid : M.groupId g' = session.groupId := (hM.selfUpdate hu).trans hg
  exact .bind (saveGroup_inPart (hid ▸ hj)) fun _ _ => .pure trivial

lemma settlePendingCommit_inPart (message : M.PrivateMessage) (drop : Bool) {g : M.Group}
    (hg : M.groupId g ∈ G) : InPart G (settlePendingCommit message drop g)
      fun g' => M.groupId g' = M.groupId g := by
  unfold settlePendingCommit
  split_ifs with hroom hmerge hdrop
  · refine .mono (persist_inPart fun g' hg' => ?_) fun g' hg' => hM.mergePending hg'
    rwa [hM.mergePending hg']
  · refine .mono (persist_inPart fun g' hg' => ?_) fun g' hg' => hM.clearPending hg'
    rwa [hM.clearPending hg']
  · exact .pure rfl
  · exact .panic

lemma processMessage_inPart (message : M.PrivateMessage) {g : M.Group} (hg : M.groupId g ∈ G) :
    InPart G (MlsSession.processMessage message g) fun p => M.groupId p.2 = M.groupId g := by
  have hid := hM.process message g
  exact .bind (saveGroup_inPart (by rwa [hid])) fun _ _ => .bind .lift fun _ _ => .pure hid

/-- A message is processed with the group that it names, and becomes a session of that group. -/
theorem processMlsUpdate_inPart {mlsMessage : M.Message} (hnamed : namedBy mlsMessage ⊆ G)
    (drop : Bool) :
    InPart G (processMlsUpdate mlsMessage drop) fun r => r.2.1.groupId ∈ G := by
  unfold processMlsUpdate
  split
  · rename_i message he
    have hj : M.messageGroupId message ∈ G := hnamed ⟨message,he,rfl⟩
    refine .bind (loadGroup_inPart hj) fun g hg => ?_
    rw [← hg] at hj
    refine .bind (settlePendingCommit_inPart hM message drop hj) fun g₁ hg₁ => ?_
    rw [← hg₁] at hj
    refine .bind (processMessage_inPart hM message hj) ?_
    rintro ⟨processed,g₂⟩ hg₂
    refine .bind .lift ?_
    rintro ⟨staged,identity⟩ -
    have hmerge (g₃ : M.Group) (hg₃ : M.mergeStagedCommit staged g₂ = .ok g₃) :
        M.groupId g₃ ∈ G := by
      rw [hM.mergeStaged hg₃,show M.groupId g₂ = M.groupId g₁ from hg₂]
      exact hj
    refine .bind (persist_inPart hmerge) fun g₃ hg₃ => ?_
    exact .bind (exportTrafficSecrets_inPart g₃) fun _ _ => .pure (hmerge g₃ hg₃)
  · exact .throw

/-- A new session is one of the group that is drawn for it. -/
theorem createServerSession_inPart (signer : M.SignatureKeyPair) (keyPackageIn : M.KeyPackageIn)
    (hj : groupId ∈ G) (seed : ℕ) :
    InPart G (createServerSession signer keyPackageIn groupId seed) fun r => r.1.groupId ∈ G := by
  refine .bind .lift fun keyPackage _ => .bind .orThrow fun identity _ => ?_
  refine .bind (persist_inPart fun g hg => by rwa [hM.build hg]) fun g hg => .bind .lift ?_
  rintro ⟨welcome,g'⟩ hadd
  have hid : M.groupId g' = groupId := (hM.add hadd).trans (hM.build hg)
  refine .bind (saveGroup_inPart (by rwa [hid])) fun _ _ => ?_
  have hmerge (g'' : M.Group) (hg'' : M.mergePendingCommit g' = .ok g'') : M.groupId g'' ∈ G := by
    rw [hM.mergePending hg'',hid]
    exact hj
  refine .bind (persist_inPart hmerge) fun g'' hg'' => ?_
  exact .bind (exportTrafficSecrets_inPart g'') fun _ _ => .pure (hmerge g'' hg'')

end
end MlsSession

open MlsSession

namespace ServerHandshakeState
variable {G : Set GroupId}

/-- The session is one of a group in `G`, and every such group is stored under its own id. -/
def StoredIn (t : ServerHandshakeState × Stored M G) : Prop :=
  t.1.mlsSession.groupId ∈ G ∧ FiledIn t.2

/-- The call looks at and changes nothing but the state and the groups with ids in `G`. -/
abbrev InPart (G : Set GroupId) {α : Type} (x : Call M α) (Q : α → Prop) : Prop :=
  Exec.Within (Lens.beside ServerHandshakeState (Connection.part M G)) StoredIn x Q

lemma db_inPart {α : Type} {x : Db M α} {Q : α → Prop} (h : MlsHandshake.InPart G x Q) :
    InPart G (db x) Q :=
  .zoom (v := Prod.snd) (w := fun t s => (s.1,t)) (fun _ => rfl) (fun _ _ => rfl)
    (fun _ ht => ht.2) (fun _ _ ht hk => ⟨ht.1,hk⟩) h

lemma setInternalState_inPart (i : ServerInternalState) :
    InPart G (setInternalState i : Call M Unit) fun _ => True := by
  refine .modify (fun t => ({ t.1 with internalState := i },t.2)) (fun s _ => ?_) fun _ ht => ht
  exact congrArg (Prod.mk _) ((Connection.part M G).put_view s.2).symm

lemma createEpochKeyUpdate_inPart : InPart G (createEpochKeyUpdate : Call M Bytes) fun _ => True := by
  refine .get_bind (fun t => do
    let epochKeyUpdate ← db t.1.mlsSession.createEpochKeyUpdate
    serialize (SignalingMessageOut.wire M) (.epochKeyUpdate epochKeyUpdate)) (fun _ _ => rfl)
    fun t ht => ?_
  exact .bind (db_inPart (MlsSession.createEpochKeyUpdate_inPart ht.1)) fun _ _ =>
    .mono .orThrow fun _ _ => trivial

lemma processEpochKeyUpdate_inPart (keyUpdate : EpochKeyUpdate) :
    InPart G (processEpochKeyUpdate keyUpdate : Call M Unit) fun _ => True :=
  .get_bind (fun t => db (t.1.mlsSession.processEpochKeyUpdate keyUpdate)) (fun _ _ => rfl)
    fun _ ht => db_inPart (MlsSession.processEpochKeyUpdate_inPart ht.1 keyUpdate)

lemma setSession_inPart {mlsSession : MlsSession} (hj : mlsSession.groupId ∈ G) :
    InPart G (Exec.modify fun s => ({ s.1 with mlsSession := mlsSession },s.2) : Call M Unit)
      fun _ => True := by
  refine .modify (fun t => ({ t.1 with mlsSession := mlsSession },t.2)) (fun s _ => ?_)
    fun _ ht => ⟨hj,ht.2⟩
  exact congrArg (Prod.mk _) ((Connection.part M G).put_view s.2).symm

section
variable (hM : KeepsIds M)
include hM

lemma sessionUpdate_inPart (signer : M.SignatureKeyPair) (seed : ℕ) :
    InPart G (sessionUpdate signer seed) fun _ => True :=
  .get_bind (fun t => db (t.1.mlsSession.update signer seed)) (fun _ _ => rfl)
    fun _ ht => db_inPart (MlsSession.update_inPart hM ht.1 signer seed)

lemma session_mergeUpdate_inPart :
    InPart G (session mergeUpdate : Call M TrafficSecrets) fun _ => True := by
  have hdb {α : Type} {x : Db M α} {Q : α → Prop} (h : MlsHandshake.InPart G x Q) :
      Exec.Within (Lens.beside MlsSession (Connection.part M G))
        (fun t => t.1.groupId ∈ G ∧ FiledIn t.2) (MlsSession.db x) Q :=
    .zoom (v := Prod.snd) (w := fun t s => (s.1,t)) (fun _ => rfl) (fun _ _ => rfl)
      (fun _ ht => ht.2) (fun _ _ ht hk => ⟨ht.1,hk⟩) h
  refine .zoom (l := Lens.beside MlsSession (Connection.part M G))
    (J := fun t => t.1.groupId ∈ G ∧ FiledIn t.2) (v := fun t => (t.1.mlsSession,t.2))
    (w := fun k t => ({ t.1 with mlsSession := k.1 },k.2)) (fun _ => rfl) (fun _ _ => rfl)
    (fun _ ht => ht) (fun _ _ _ hk => hk) ?_
  refine .get_bind (fun t => do
    let group ← MlsSession.db (loadGroup t.1.groupId)
    let group ← MlsSession.db (persist .connectionUpdateError (M.mergePendingCommit group))
    Exec.modify fun s => ({ s.1 with epoch := M.epoch group },s.2)
    MlsSession.db (exportTrafficSecrets group)) (fun _ _ => rfl) fun t ht => ?_
  refine .bind (hdb (loadGroup_inPart ht.1)) fun g hg => ?_
  have hmerge (g' : M.Group) (hg' : M.mergePendingCommit g = .ok g') : M.groupId g' ∈ G := by
    rw [hM.mergePending hg',hg]
    exact ht.1
  refine .bind (hdb (persist_inPart hmerge)) fun g' _ => .bind (Q := fun _ => True) ?_ fun _ _ =>
    hdb (exportTrafficSecrets_inPart g')
  refine .modify (fun t => ({ t.1 with epoch := M.epoch g' },t.2)) (fun s _ => ?_) fun _ hk => hk
  exact congrArg (Prod.mk _) ((Connection.part M G).put_view s.2).symm

theorem update_inPart (signer : M.SignatureKeyPair) (updateRequested : Bool) (seed : ℕ) :
    InPart G (update signer updateRequested seed) fun _ => True := by
  refine .get_bind (fun t =>
    if t.1.isWaitingForResponse then Exec.throw .waitingForResponse
    else do
      let mlsMessage ← sessionUpdate signer seed
      let messageBytes ← serialize (SignalingMessageOut.wire M)
        (.connectionUpdate ⟨.ofBool updateRequested,mlsMessage⟩)
      setInternalState .waitingForUpdate
      pure messageBytes) (fun _ _ => rfl) fun t _ => ?_
  split_ifs
  · exact .throw
  · refine .bind (sessionUpdate_inPart hM signer seed) fun m _ => .bind .orThrow fun _ _ => ?_
    exact .bind (setInternalState_inPart _) fun _ _ => .pure trivial

lemma processUpdate_inPart (signer : M.SignatureKeyPair) {connectionUpdate : ConnectionUpdateIn M}
    (hnamed : namedBy connectionUpdate.mlsCommit ⊆ G) (seed : ℕ) :
    InPart G (processUpdate signer connectionUpdate seed) fun _ => True := by
  refine .bind (db_inPart (processMlsUpdate_inPart hM hnamed true)) fun r hr => ?_
  refine .bind (setInternalState_inPart _) fun _ _ => .bind (setSession_inPart hr) fun _ _ => ?_
  refine .bind createEpochKeyUpdate_inPart fun responseBytes _ => ?_
  split_ifs
  · refine .bind (sessionUpdate_inPart hM signer seed) fun m _ => ?_
    exact .bind (setInternalState_inPart _) fun _ _ => .bind .orThrow fun _ _ => .pure trivial
  · exact .pure trivial

lemma receiveEpochKeyUpdate_inPart (epochKeyUpdate : EpochKeyUpdate) (messageType : String) :
    InPart G (receiveEpochKeyUpdate epochKeyUpdate messageType : Call M _) fun _ => True := by
  refine .get_bind (fun t =>
    if ¬t.1.isWaitingForResponse then Exec.throw (.unexpectedMessage "None" messageType)
    else do
      let trafficSecrets ← session mergeUpdate
      processEpochKeyUpdate epochKeyUpdate
      let messageBytes ← createEpochKeyUpdate
      setInternalState .running
      pure (trafficSecrets,some messageBytes)) (fun _ _ => rfl) fun t _ => ?_
  split_ifs
  · refine .bind (session_mergeUpdate_inPart hM) fun _ _ => ?_
    refine .bind (processEpochKeyUpdate_inPart epochKeyUpdate) fun _ _ => ?_
    exact .bind createEpochKeyUpdate_inPart fun _ _ =>
      .bind (setInternalState_inPart _) fun _ _ => .pure trivial
  · exact .throw

/-- What arrives on a session can concern only the session's own group and the one that it names. -/
theorem receiveSignalingMessage_inPart (signer : M.SignatureKeyPair) {messageBytes : Bytes}
    (hnamed : ∀ update, (SignalingMessageIn.wire M).decExact messageBytes =
      some (.connectionUpdate update) → namedBy update.mlsCommit ⊆ G) (seed : ℕ) :
    InPart G (receiveSignalingMessage signer messageBytes seed) fun _ => True := by
  refine .bind .orThrow fun message hmessage => ?_
  cases message with
  | connectionUpdate update =>
    exact .bind (processUpdate_inPart hM signer (hnamed update hmessage) seed) fun _ _ =>
      .pure trivial
  | connectionConfirmation confirmation => exact .throw
  | epochKeyUpdate update => exact receiveEpochKeyUpdate_inPart hM update _
  | keyUpdate update => exact .panic

end
end ServerHandshakeState

namespace ServerHandshake
variable {G : Set GroupId}

/-- The groups that the first message of a connection names; `groupId` is drawn for a new one. -/
def named (messageBytes : Bytes) (groupId : GroupId) : Set GroupId :=
  {j | ∃ message, (MlsTlsHandshakeIn.wire M).decExact messageBytes = some message ∧
    match message.payload with
    | .clientHello _ => j = groupId
    | .resumption resumption => j ∈ namedBy resumption.commit}

/-- A new connection starts with a session of a group that it names. -/
theorem start_inPart (hM : KeepsIds M) (signer : M.SignatureKeyPair) {messageBytes : Bytes}
    {groupId : GroupId} (hnamed : named (M := M) messageBytes groupId ⊆ G) (seed : ℕ) :
    InPart G (start signer messageBytes groupId seed) fun r => r.1.mlsSession.groupId ∈ G := by
  refine .bind .orThrow fun message hmessage => .bind (Q := fun _ => True) ?_ fun _ _ => ?_
  · unfold MlsTlsHandshakeIn.checkVersion
    split_ifs
    · exact .throw
    · exact .pure trivial
  · obtain ⟨version,payload⟩ := message
    cases payload with
    | clientHello clientHello =>
      have hj : groupId ∈ G := hnamed ⟨_,hmessage,rfl⟩
      simp only [processClientHello]
      split
      · refine .bind (createServerSession_inPart hM signer _ hj seed) ?_
        rintro ⟨session,secrets,identity,welcome⟩ hsession
        exact .bind .orThrow fun _ _ => .pure hsession
      · exact .throw
    | resumption resumption =>
      have hcommit : namedBy resumption.commit ⊆ G := fun j hj => hnamed ⟨_,hmessage,hj⟩
      refine .bind (processMlsUpdate_inPart hM hcommit true) ?_
      rintro ⟨secrets,session,identity⟩ hsession
      refine .bind (Q := fun _ => True) ?_ fun _ _ => .pure hsession
      exact .bind (MlsSession.createEpochKeyUpdate_inPart hsession) fun _ _ =>
        .mono .orThrow fun _ _ => trivial

end ServerHandshake
end MlsTls.MlsHandshake
