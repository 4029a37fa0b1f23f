import MlsTls.MlsHandshake.Roster

/-! What a commit does to the one group it names, for any message and any stored group. The peer
chooses the message, so nothing is assumed of it; of the library, only how its calls move the
epoch and the pending commit of a group. -/
namespace MlsTls.MlsHandshake
open Lib TlsAead

/-- The own commit of a group that is not merged yet. -/
structure Standing (M : OpenMls) where
  PendingCommit : Type
  pendingCommit : M.Group → Option PendingCommit

structure Standing.Lawful {M : OpenMls} (S : Standing M) : Prop where
  wire : M.wire.Lawful
  hasPendingCommit_eq : ∀ g, M.hasPendingCommit g = (S.pendingCommit g).isSome
  /-- Without a pending commit there is nothing to merge. -/
  mergePending : ∀ {g g'}, M.mergePendingCommit g = .ok g' → M.groupId g' = M.groupId g ∧
    M.epoch g' = M.epoch g+(M.hasPendingCommit g).toNat ∧ S.pendingCommit g' = none
  clearPending : ∀ {g g'}, M.clearPendingCommit g = .ok g' → M.groupId g' = M.groupId g ∧
    M.epoch g' = M.epoch g ∧ S.pendingCommit g' = none
  selfUpdate : ∀ {signer seed g m g'}, M.selfUpdate signer seed g = .ok (m,g') →
    M.groupId g' = M.groupId g ∧ M.epoch g' = M.epoch g
  process : ∀ p g, M.groupId (M.processMessage p g).2 = M.groupId g ∧
    M.epoch (M.processMessage p g).2 = M.epoch g ∧
    S.pendingCommit (M.processMessage p g).2 = S.pendingCommit g
  mergeStaged : ∀ {staged g g'}, M.mergeStagedCommit staged g = .ok g' →
    M.groupId g' = M.groupId g ∧ M.epoch g' = M.epoch g+1

namespace Connection
variable {M : OpenMls}

/-- The last of several writes of one group counts. -/
theorem saveGroup_saveGroup (c : Connection M) {g g' : M.Group} (h : M.groupId g = M.groupId g') :
    (c.saveGroup g).saveGroup g' = c.saveGroup g' := by
  simp only [saveGroup,h,Function.update_idem]

end Connection

namespace MlsSession
variable {M : OpenMls}

/-- The group exports these traffic secrets. -/
def Exports (group : M.Group) (secrets : TrafficSecrets) : Prop :=
  M.exportSecret group (exportLabel clientTrafficSecretLabel) [] (M.hashLength group) =
      .ok secrets.clientSecret.secret ∧
    M.exportSecret group (exportLabel serverTrafficSecretLabel) [] (M.hashLength group) =
      .ok secrets.serverSecret.secret

/-- The own pending commit is merged if the message is for the next epoch, and otherwise dropped
if the caller asks for it. -/
def Settled (message : M.PrivateMessage) (dropPendingCommit : Bool) (group group' : M.Group) :
    Prop :=
  M.epoch group+1 < u64Size ∧
    if M.messageEpoch message = M.epoch group+1 ∧ M.hasPendingCommit group then
      M.mergePendingCommit group = .ok group'
    else if dropPendingCommit then M.clearPendingCommit group = .ok group'
    else group' = group

/-- The message holds a commit that passes the checks and can be merged. -/
def Accepted (message : M.PrivateMessage) (group group' : M.Group) (identity : ClientIdentity) :
    Prop :=
  ∃ processed staged, (M.processMessage message group).1 = .ok processed ∧
    validateCommit processed = .ok (staged,identity) ∧
    M.mergeStagedCommit staged (M.processMessage message group).2 = .ok group'

variable {message : M.PrivateMessage} {drop : Bool} {g g₁ g₃ : M.Group}
  {identity : ClientIdentity}

lemma exportTrafficSecrets_cases (group : M.Group) (c : Connection M) :
    (∃ secrets, Exports group secrets ∧ (exportTrafficSecrets group).run c = (.ok secrets,c)) ∨
      (∀ secrets, ¬Exports group secrets) ∧
        ∃ e, (exportTrafficSecrets group).run c = (.error (.error e),c) := by
  unfold exportTrafficSecrets Exports
  cases hc : M.exportSecret group (exportLabel clientTrafficSecretLabel) [] (M.hashLength group) with
  | error e => exact Or.inr ⟨by simp,_,rfl⟩
  | ok client =>
    cases hs : M.exportSecret group (exportLabel serverTrafficSecretLabel) [] (M.hashLength group) with
    | error e => exact Or.inr ⟨by simp,_,rfl⟩
    | ok server => exact Or.inl ⟨⟨⟨client⟩,⟨server⟩⟩,⟨rfl,rfl⟩,rfl⟩

lemma update_cases (session : MlsSession) {c : Connection M}
    (hg : c.groups session.groupId = .ok (some g)) (leafSigner : M.SignatureKeyPair) (seed : ℕ) :
    (∃ e, M.selfUpdate leafSigner seed g = .error e ∧ (session.update leafSigner seed).run c =
        (.error (.error (.resumptionError (.library e))),c)) ∨
      ∃ commit g', M.selfUpdate leafSigner seed g = .ok (commit,g') ∧
        (session.update leafSigner seed).run c = (.ok commit,c.saveGroup g') := by
  rw [update,Exec.bind_of_ok (TwoParty.loadGroup_run hg)]
  cases M.selfUpdate leafSigner seed g with
  | error e => exact Or.inl ⟨e,rfl,rfl⟩
  | ok p => exact Or.inr ⟨p.1,p.2,rfl,rfl⟩

lemma mergeUpdate_cases (session : MlsSession) {c : Connection M}
    (hg : c.groups session.groupId = .ok (some g)) :
    (∃ e, M.mergePendingCommit g = .error e ∧ mergeUpdate.run (session,c) =
        (.error (.error (.connectionUpdateError (.library e))),(session,c))) ∨
      ∃ g', M.mergePendingCommit g = .ok g' ∧
        ((∃ secrets, Exports g' secrets ∧ mergeUpdate.run (session,c) =
            (.ok secrets,({ session with epoch := M.epoch g' },c.saveGroup g'))) ∨
          (∀ secrets, ¬Exports g' secrets) ∧ ∃ e, mergeUpdate.run (session,c) =
            (.error (.error e),({ session with epoch := M.epoch g' },c.saveGroup g'))) := by
  simp only [mergeUpdate,MlsSession.db,Exec.bind_run,Exec.get_run,Exec.zoom_run,
    TwoParty.loadGroup_run hg]
  cases M.mergePendingCommit g with
  | error e => exact Or.inl ⟨e,rfl,rfl⟩
  | ok g' =>
    refine Or.inr ⟨g',rfl,?_⟩
    simp only [TwoParty.persist_run rfl,Exec.modify_run]
    rcases exportTrafficSecrets_cases g' (c.saveGroup g') with ⟨secrets,hx,hr⟩ | ⟨hx,e,hr⟩
    · exact Or.inl ⟨secrets,hx,by rw [hr]⟩
    · exact Or.inr ⟨hx,e,by rw [hr]⟩

lemma createEpochKeyUpdate_stored (session : MlsSession) {c : Connection M}
    (hg : c.groups session.groupId = .ok (some g)) :
    session.createEpochKeyUpdate.run c = (.ok ⟨M.epoch g⟩,c) := by
  rw [createEpochKeyUpdate,Exec.bind_of_ok (TwoParty.loadGroup_run hg),Exec.pure_run]

/-- Every way in which the processing of a message for a stored group can end. -/
inductive Processed (c : Connection M) (message : M.PrivateMessage) (drop : Bool) (g : M.Group) :
    Outcome (HandshakeError M.Error) (TrafficSecrets × MlsSession × ClientIdentity) ×
      Connection M → Prop
  | panicked (h : ¬M.epoch g+1 < u64Size) : Processed c message drop g (.error .panic,c)
  | unsettled (e : HandshakeError M.Error) (hroom : M.epoch g+1 < u64Size)
      (h : ∀ g₁, ¬Settled message drop g g₁) : Processed c message drop g (.error (.error e),c)
  | rejected (e : HandshakeError M.Error) {g₁ : M.Group} (hs : Settled message drop g g₁)
      (h : ∀ g₃ identity, ¬Accepted message g₁ g₃ identity) :
    Processed c message drop g
      (.error (.error e),c.saveGroup (M.processMessage message g₁).2)
  | unexported (e : HandshakeError M.Error) {g₁ g₃ : M.Group} {identity : ClientIdentity}
      (hs : Settled message drop g g₁) (ha : Accepted message g₁ g₃ identity)
      (h : ∀ secrets, ¬Exports g₃ secrets) :
    Processed c message drop g (.error (.error e),c.saveGroup g₃)
  | merged {g₁ g₃ : M.Group} {identity : ClientIdentity} {secrets : TrafficSecrets}
      (hs : Settled message drop g g₁) (ha : Accepted message g₁ g₃ identity)
      (hx : Exports g₃ secrets) :
    Processed c message drop g
      (.ok (secrets,⟨M.groupId g₃,M.epoch g₃⟩,identity),c.saveGroup g₃)

lemma processMlsUpdate_nothing {mlsMessage : M.Message} (drop : Bool) {c : Connection M}
    (h : ∀ message g, M.extract mlsMessage = .privateMessage message →
      c.groups (M.messageGroupId message) ≠ .ok (some g)) :
    ∃ e, (processMlsUpdate mlsMessage drop).run c = (.error (.error e),c) := by
  unfold processMlsUpdate
  cases he : M.extract mlsMessage with
  | privateMessage message =>
    rcases hg : c.groups (M.messageGroupId message) with e | _ | g
    · refine ⟨.providerError (.library e),?_⟩
      simp only [loadGroup,Exec.bind_run,Exec.get_run,hg,Exec.lift_error]
    · refine ⟨.invalidSessionId,?_⟩
      simp only [loadGroup,Exec.bind_run,Exec.get_run,hg,Exec.lift_ok,Exec.orThrow_none]
    · exact absurd hg (h message g he)
  | welcome w => exact ⟨_,rfl⟩
  | keyPackage k => exact ⟨_,rfl⟩
  | other => exact ⟨_,rfl⟩

lemma processMlsUpdate_failed {σ α : Type} {mlsMessage : M.Message} {drop : Bool}
    {x : Exec (σ × Connection M) (HandshakeError M.Error) α}
    {f : TrafficSecrets × MlsSession × ClientIdentity →
      Exec (σ × Connection M) (HandshakeError M.Error) α}
    (hx : x = Exec.zoom Prod.snd (fun c s => (s.1,c)) (processMlsUpdate mlsMessage drop) >>= f)
    {c c' : Connection M} {e : Fault (HandshakeError M.Error)}
    (h : (processMlsUpdate mlsMessage drop).run c = (.error e,c')) {st : σ} :
    x.run (st,c) = (.error e,(st,c')) := by
  rw [hx,Exec.bind_run,Exec.zoom_run,h]

section
variable {S : Standing M} (hS : S.Lawful)
include hS

lemma Settled.groupId_eq (h : Settled message drop g g₁) : M.groupId g₁ = M.groupId g := by
  obtain ⟨-,h⟩ := h
  split_ifs at h with hmerge hdrop
  · exact (hS.mergePending h).1
  · exact (hS.clearPending h).1
  · rw [h]

lemma Accepted.groupId_eq (h : Accepted message g g₃ identity) : M.groupId g₃ = M.groupId g := by
  obtain ⟨processed,staged,-,-,hm⟩ := h
  rw [(hS.mergeStaged hm).1,(hS.process message g).1]

lemma Accepted.groupId_stored (ha : Accepted message g₁ g₃ identity)
    (hs : Settled message drop g g₁) : M.groupId g₃ = M.groupId g :=
  (ha.groupId_eq hS).trans (hs.groupId_eq hS)

lemma Accepted.epoch_eq (h : Accepted message g g₃ identity) : M.epoch g₃ = M.epoch g+1 := by
  obtain ⟨processed,staged,-,-,hm⟩ := h
  rw [(hS.mergeStaged hm).2,(hS.process message g).2.1]

lemma Settled.epoch_le (h : Settled message drop g g₁) : M.epoch g ≤ M.epoch g₁ := by
  obtain ⟨-,h⟩ := h
  split_ifs at h with hmerge hdrop
  · have he := (hS.mergePending h).2.1
    omega
  · exact (hS.clearPending h).2.1.ge
  · rw [h]

lemma Accepted.lt_epoch (ha : Accepted message g₁ g₃ identity)
    (hs : Settled message drop g g₁) : M.epoch g < M.epoch g₃ := by
  have hle := hs.epoch_le hS
  have he := ha.epoch_eq hS
  omega

lemma settlePendingCommit_cases (message : M.PrivateMessage) (drop : Bool) (g : M.Group)
    (c : Connection M) :
    (¬M.epoch g+1 < u64Size ∧ (settlePendingCommit message drop g).run c = (.error .panic,c)) ∨
      (M.epoch g+1 < u64Size ∧ (∀ g₁, ¬Settled message drop g g₁) ∧
        ∃ e, (settlePendingCommit message drop g).run c = (.error (.error e),c)) ∨
      ∃ g₁ c₁, Settled message drop g g₁ ∧
        (settlePendingCommit message drop g).run c = (.ok g₁,c₁) ∧
        ∀ g', M.groupId g' = M.groupId g → c₁.saveGroup g' = c.saveGroup g' := by
  have hpersist {r : Except M.Error M.Group} (hid : ∀ g₁, r = .ok g₁ → M.groupId g₁ = M.groupId g) :
      ((∀ g₁, ¬r = .ok g₁) ∧
        ∃ e, (persist .connectionUpdateError r).run c = (.error (.error e),c)) ∨
        ∃ g₁ c₁, r = .ok g₁ ∧ (persist .connectionUpdateError r).run c = (.ok g₁,c₁) ∧
          ∀ g', M.groupId g' = M.groupId g → c₁.saveGroup g' = c.saveGroup g' := by
    cases r with
    | error e => exact Or.inl ⟨by simp,_,rfl⟩
    | ok g₁ =>
      refine Or.inr ⟨g₁,_,rfl,rfl,?_⟩
      intro g' hg'
      exact c.saveGroup_saveGroup ((hid g₁ rfl).trans hg'.symm)
  unfold settlePendingCommit Settled
  by_cases hroom : M.epoch g+1 < u64Size
  · simp only [hroom,not_true_eq_false,if_false,true_and,false_and,false_or]
    split_ifs
    · exact hpersist fun g₁ h => (hS.mergePending h).1
    · exact hpersist fun g₁ h => (hS.clearPending h).1
    · exact Or.inr ⟨g,c,rfl,rfl,fun _ _ => rfl⟩
  · exact Or.inl ⟨hroom,by simp [hroom]⟩

/-- Processing a message for a stored group ends in one of the listed ways. -/
theorem processMlsUpdate_processed {mlsMessage : M.Message} {c : Connection M}
    (he : M.extract mlsMessage = .privateMessage message)
    (hg : c.groups (M.messageGroupId message) = .ok (some g)) (drop : Bool) :
    Processed c message drop g ((processMlsUpdate mlsMessage drop).run c) := by
  rw [processMlsUpdate,he]
  simp only [Exec.bind_of_ok (TwoParty.loadGroup_run hg)]
  rcases settlePendingCommit_cases hS message drop g c with
    ⟨hroom,hrun⟩ | ⟨hroom,hno,e,hrun⟩ | ⟨g₁,c₁,hs,hrun,hsave⟩
  · rw [Exec.bind_run,hrun]
    exact .panicked hroom
  · rw [Exec.bind_run,hrun]
    exact .unsettled e hroom hno
  · rw [Exec.bind_of_ok hrun]
    have hid₂ : M.groupId (M.processMessage message g₁).2 = M.groupId g :=
      (hS.process message g₁).1.trans (hs.groupId_eq hS)
    simp only [processMessage,Exec.bind_run,Exec.modify_run,hsave _ hid₂]
    cases hp : (M.processMessage message g₁).1 with
    | error e => exact .rejected _ hs fun g₃ identity h => by simp [Accepted,hp] at h
    | ok processed =>
      simp only [Exec.lift_ok,Exec.pure_run]
      cases hv : validateCommit processed with
      | error e =>
        refine .rejected _ hs ?_
        rintro g₃ identity ⟨processed',staged,hp',hv',-⟩
        obtain rfl := Except.ok.inj (hp.symm.trans hp')
        simp [hv] at hv'
      | ok r =>
        obtain ⟨staged,identity⟩ := r
        simp only [Exec.lift_ok]
        cases hm : M.mergeStagedCommit staged (M.processMessage message g₁).2 with
        | error e =>
          refine .rejected _ hs ?_
          rintro g₃ identity' ⟨processed',staged',hp',hv',hm'⟩
          obtain rfl := Except.ok.inj (hp.symm.trans hp')
          obtain ⟨rfl,-⟩ := Prod.mk.inj (Except.ok.inj (hv.symm.trans hv'))
          simp [hm] at hm'
        | ok g₃ =>
          have ha : Accepted message g₁ g₃ identity := ⟨processed,staged,hp,hv,hm⟩
          have hid₃ : M.groupId g₃ = M.groupId (M.processMessage message g₁).2 :=
            (hS.mergeStaged hm).1
          simp only [TwoParty.persist_run rfl,c.saveGroup_saveGroup hid₃.symm]
          rcases exportTrafficSecrets_cases g₃ (c.saveGroup g₃) with ⟨secrets,hx,hr⟩ | ⟨hx,e,hr⟩
          · rw [hr]
            exact .merged hs ha hx
          · rw [hr]
            exact .unexported e hs ha hx

end
end MlsSession

section
variable {M : OpenMls}
open MlsSession

/-- The message can be written. -/
def SignalingMessageOut.Encodes (message : SignalingMessageOut M) : Prop :=
  ∃ b, (SignalingMessageOut.wire M).enc message = some b

lemma serialize_cases {σ E : Type} (message : SignalingMessageOut M) (s : σ) :
    (message.Encodes ∧ ∃ b, (serialize (SignalingMessageOut.wire M) message :
        Exec σ (HandshakeError E) Bytes).run s = (.ok b,s)) ∨
      ¬message.Encodes ∧ (serialize (SignalingMessageOut.wire M) message :
        Exec σ (HandshakeError E) Bytes).run s = (.error (.error .codecError),s) := by
  unfold SignalingMessageOut.Encodes serialize
  cases (SignalingMessageOut.wire M).enc message with
  | none => exact Or.inr ⟨by simp,rfl⟩
  | some b => exact Or.inl ⟨⟨b,rfl⟩,b,rfl⟩

/-- All that the server's answer to an update needs once the commit is merged. -/
def ServerHandshakeState.Answers (leafSigner : M.SignatureKeyPair) (updateRequested : Bool)
    (seed : ℕ) (group : M.Group) : Prop :=
  (SignalingMessageOut.epochKeyUpdate ⟨M.epoch group⟩ : SignalingMessageOut M).Encodes ∧
    (updateRequested = true → ∃ commit group', M.selfUpdate leafSigner seed group =
      .ok (commit,group') ∧
      (SignalingMessageOut.connectionUpdate ⟨.ofBool false,commit⟩).Encodes)

/-- What the server needs to accept the confirmation of its own commit, once that is merged. -/
def ServerHandshakeState.Confirms (update : EpochKeyUpdate) (group : M.Group) : Prop :=
  (∃ secrets, Exports group secrets) ∧ M.epoch group = update.epoch ∧
    (SignalingMessageOut.epochKeyUpdate update : SignalingMessageOut M).Encodes

/-- All that the client's answer needs; an own commit of the client is merged at once. -/
def ClientHandshakeState.Answers (leafSigner : M.SignatureKeyPair) (updateRequested : Bool)
    (seed : ℕ) (group : M.Group) : Prop :=
  (SignalingMessageOut.epochKeyUpdate ⟨M.epoch group⟩ : SignalingMessageOut M).Encodes ∧
    (updateRequested = true → ∃ commit group' group'' secrets, M.selfUpdate leafSigner seed group =
      .ok (commit,group') ∧ M.mergePendingCommit group' = .ok group'' ∧ Exports group'' secrets ∧
      (SignalingMessageOut.connectionUpdate ⟨.ofBool false,commit⟩).Encodes)

variable {S : Standing M} (hS : S.Lawful)
include hS

/-- Once the commit is merged, the server's session is that of the commit's group, and an answer
is all that can still go wrong. -/
theorem ServerHandshakeState.processUpdate_merged (leafSigner : M.SignatureKeyPair) (seed : ℕ)
    {update : ConnectionUpdateIn M} {c : Connection M} {g : M.Group} {secrets : TrafficSecrets}
    {identity : ClientIdentity}
    (h : (processMlsUpdate update.mlsCommit true).run c =
      (.ok (secrets,⟨M.groupId g,M.epoch g⟩,identity),c.saveGroup g)) (st : ServerHandshakeState) :
    ∃ r i g', (processUpdate leafSigner update seed).run (st,c) =
        (r,(⟨⟨M.groupId g,M.epoch g⟩,i⟩,c.saveGroup g')) ∧
      (g' = g ∨ ∃ commit, M.selfUpdate leafSigner seed g = .ok (commit,g')) ∧
      ((Answers leafSigner update.updateRequested.toBool seed g ∧ ∃ bytes, r = .ok (secrets,bytes)) ∨
        ¬Answers leafSigner update.updateRequested.toBool seed g ∧ ∃ e, r = .error (.error e)) := by
  have hg : (c.saveGroup g).groups (M.groupId g) = .ok (some g) := c.saveGroup_groups_self g
  have hcreate := createEpochKeyUpdate_stored ⟨M.groupId g,M.epoch g⟩ hg
  simp only [processUpdate,Exec.bind_of_ok (db_run h st),setInternalState,createEpochKeyUpdate,
    Exec.bind_run,Exec.modify_run,Exec.get_run,db_run hcreate]
  rcases serialize_cases (E := M.Error) (.epochKeyUpdate ⟨M.epoch g⟩ : SignalingMessageOut M)
      ((⟨⟨M.groupId g,M.epoch g⟩,.running⟩,c.saveGroup g) : ServerHandshakeState × Connection M)
    with ⟨henc,b,hb⟩ | ⟨henc,hb⟩
  · simp only [hb]
    cases hq : update.updateRequested.toBool with
    | false => exact ⟨_,_,g,rfl,Or.inl rfl,Or.inl ⟨⟨henc,by simp⟩,b,rfl⟩⟩
    | true =>
      simp only [if_true,sessionUpdate,Exec.bind_run,Exec.get_run]
      rcases update_cases ⟨M.groupId g,M.epoch g⟩ hg leafSigner seed with
        ⟨e,hu,hrun⟩ | ⟨commit,g',hu,hrun⟩
      · rw [db_run hrun]
        refine ⟨_,_,g,rfl,Or.inl rfl,Or.inr ⟨?_,_,rfl⟩⟩
        rintro ⟨-,hans⟩
        obtain ⟨commit,g',hu',-⟩ := hans rfl
        simp [hu] at hu'
      · rw [c.saveGroup_saveGroup (hS.selfUpdate hu).1.symm] at hrun
        simp only [db_run hrun,Exec.modify_run]
        rcases serialize_cases (E := M.Error)
            (.connectionUpdate ⟨.ofBool false,commit⟩ : SignalingMessageOut M)
            ((⟨⟨M.groupId g,M.epoch g⟩,.waitingForUpdate⟩,c.saveGroup g') :
              ServerHandshakeState × Connection M) with ⟨henc',b',hb'⟩ | ⟨henc',hb'⟩
        · rw [hb']
          refine ⟨_,_,g',rfl,Or.inr ⟨commit,hu⟩,Or.inl ⟨⟨henc,?_⟩,b',rfl⟩⟩
          exact fun _ => ⟨commit,g',hu,henc'⟩
        · rw [hb']
          refine ⟨_,_,g',rfl,Or.inr ⟨commit,hu⟩,Or.inr ⟨?_,_,rfl⟩⟩
          rintro ⟨-,hans⟩
          obtain ⟨commit',g'',hu',henc''⟩ := hans rfl
          obtain ⟨rfl,-⟩ := Prod.mk.inj (Except.ok.inj (hu.symm.trans hu'))
          exact henc' henc''
  · rw [hb]
    exact ⟨_,_,g,rfl,Or.inl rfl,Or.inr ⟨fun hans => henc hans.1,_,rfl⟩⟩

omit hS in
/-- A waiting server merges its own commit first and then looks at the confirmation. -/
theorem ServerHandshakeState.receiveEpochKeyUpdate_merged {st : ServerHandshakeState}
    (hw : st.isWaitingForResponse = true) {c : Connection M} {g : M.Group}
    (hg : c.groups st.mlsSession.groupId = .ok (some g)) {g' : M.Group}
    (hm : M.mergePendingCommit g = .ok g') (hid : M.groupId g' = st.mlsSession.groupId)
    (update : EpochKeyUpdate) (messageType : String) :
    ∃ r i, (receiveEpochKeyUpdate update messageType).run (st,c) =
        (r,(⟨⟨st.mlsSession.groupId,M.epoch g'⟩,i⟩,c.saveGroup g')) ∧
      ((Confirms update g' ∧ ∃ secrets bytes, Exports g' secrets ∧ r = .ok (secrets,some bytes)) ∨
        ¬Confirms update g' ∧ i = st.internalState ∧ ∃ e, r = .error (.error e)) := by
  have hg' : (c.saveGroup g').groups st.mlsSession.groupId = .ok (some g') := c.saveGroup_groups hid
  simp only [receiveEpochKeyUpdate,Exec.bind_run,Exec.get_run,hw,not_true_eq_false,if_false]
  rcases mergeUpdate_cases st.mlsSession hg with ⟨e,hm',-⟩ | ⟨g₁,hm',hmerge⟩
  · simp [hm] at hm'
  · obtain rfl := Except.ok.inj (hm.symm.trans hm')
    rcases hmerge with ⟨secrets,hx,hmerge⟩ | ⟨hx,e,hmerge⟩
    · rw [session_run hmerge]
      simp only [processEpochKeyUpdate,MlsSession.processEpochKeyUpdate,Exec.bind_run,Exec.get_run,
        db,Exec.zoom_run,TwoParty.loadGroup_run hg',ne_eq]
      by_cases he : M.epoch g' = update.epoch
      · have hcreate := createEpochKeyUpdate_stored
          ⟨st.mlsSession.groupId,M.epoch g'⟩ hg'
        simp only [he,not_true_eq_false,if_false,Exec.pure_run,createEpochKeyUpdate,Exec.bind_run,
          Exec.get_run]
        rw [he] at hcreate
        rw [db_run hcreate]
        simp only
        rcases serialize_cases (E := M.Error) (.epochKeyUpdate update : SignalingMessageOut M)
            ((⟨⟨st.mlsSession.groupId,update.epoch⟩,st.internalState⟩,c.saveGroup g') :
              ServerHandshakeState × Connection M) with ⟨henc,b,hb⟩ | ⟨henc,hb⟩
        · rw [hb]
          exact ⟨_,_,rfl,Or.inl ⟨⟨⟨secrets,hx⟩,he,henc⟩,secrets,b,hx,rfl⟩⟩
        · rw [hb]
          exact ⟨_,_,rfl,Or.inr ⟨fun h => henc h.2.2,rfl,_,rfl⟩⟩
      · simp only [he,not_false_eq_true,if_true,Exec.throw_run]
        exact ⟨_,_,rfl,Or.inr ⟨fun h => he h.2.1,rfl,_,rfl⟩⟩
    · rw [session_run hmerge]
      refine ⟨_,_,rfl,Or.inr ⟨?_,rfl,_,rfl⟩⟩
      rintro ⟨⟨secrets,hs⟩,-⟩
      exact hx secrets hs

omit hS in
/-- Without an own commit that can be merged, a waiting server fails before anything changes. -/
theorem ServerHandshakeState.receiveEpochKeyUpdate_unmerged {st : ServerHandshakeState}
    (hw : st.isWaitingForResponse = true) {c : Connection M}
    (h : ∀ g g', c.groups st.mlsSession.groupId = .ok (some g) → M.mergePendingCommit g ≠ .ok g')
    (update : EpochKeyUpdate) (messageType : String) :
    ∃ e, (receiveEpochKeyUpdate update messageType).run (st,c) = (.error (.error e),(st,c)) := by
  simp only [receiveEpochKeyUpdate,Exec.bind_run,Exec.get_run,hw,not_true_eq_false,if_false]
  rcases hg : c.groups st.mlsSession.groupId with e | _ | g
  · refine ⟨.providerError (.library e),?_⟩
    simp [session,mergeUpdate,MlsSession.db,Exec.zoom_run,Exec.bind_run,loadGroup,hg]
  · refine ⟨.invalidSessionId,?_⟩
    simp [session,mergeUpdate,MlsSession.db,Exec.zoom_run,Exec.bind_run,loadGroup,hg]
  · rcases mergeUpdate_cases st.mlsSession hg with ⟨e,-,hmerge⟩ | ⟨g',hm,-⟩
    · exact ⟨_,by rw [session_run hmerge]⟩
    · exact absurd hm (h g g' hg)

lemma ClientHandshakeState.commit_cases {α : Type} (leafSigner : M.SignatureKeyPair) (seed : ℕ)
    (c : Connection M) {g : M.Group} (st : ClientHandshakeState M)
    (hst : st.mlsSession.groupId = M.groupId g) (k : M.Message → TrafficSecrets → Call M α) :
    (∃ e g' epoch, (do
        let commit ← sessionUpdate leafSigner seed
        let secrets ← session MlsSession.mergeUpdate
        k commit secrets).run (st,c.saveGroup g) = (.error (.error e),
          ({ st with mlsSession := ⟨M.groupId g,epoch⟩ },c.saveGroup g')) ∧
        M.groupId g' = M.groupId g ∧ M.epoch g ≤ M.epoch g' ∧
        ∀ {commit g₁ g₂ secrets}, M.selfUpdate leafSigner seed g = .ok (commit,g₁) →
          M.mergePendingCommit g₁ = .ok g₂ → ¬Exports g₂ secrets) ∨
      ∃ commit g₁ g₂ secrets, M.selfUpdate leafSigner seed g = .ok (commit,g₁) ∧
        M.mergePendingCommit g₁ = .ok g₂ ∧ Exports g₂ secrets ∧ M.groupId g₂ = M.groupId g ∧
        M.epoch g ≤ M.epoch g₂ ∧ (do
          let commit ← sessionUpdate leafSigner seed
          let secrets ← session MlsSession.mergeUpdate
          k commit secrets).run (st,c.saveGroup g) = (k commit secrets).run
            ({ st with mlsSession := ⟨M.groupId g,M.epoch g₂⟩ },c.saveGroup g₂) := by
  -- what follows runs only if the group that has merged the own commit exports secrets
  have hg : (c.saveGroup g).groups st.mlsSession.groupId = .ok (some g) := c.saveGroup_groups hst.symm
  simp only [sessionUpdate,Exec.bind_run,Exec.get_run]
  rcases update_cases st.mlsSession hg leafSigner seed with ⟨e,hu,hrun⟩ | ⟨commit,g₁,hu,hrun⟩
  · rw [db_run hrun]
    refine Or.inl ⟨_,g,st.mlsSession.epoch,by rw [← hst],rfl,le_rfl,?_⟩
    intro commit g₁ g₂ secrets hu'
    simp [hu] at hu'
  · obtain ⟨hid,hep⟩ := hS.selfUpdate hu
    rw [c.saveGroup_saveGroup hid.symm] at hrun
    simp only [db_run hrun]
    rcases mergeUpdate_cases st.mlsSession (c.saveGroup_groups (hid.trans hst.symm)) with
      ⟨e,hm,hmerge⟩ | ⟨g₂,hm,hmerge⟩
    · rw [session_run hmerge]
      refine Or.inl ⟨_,g₁,st.mlsSession.epoch,by rw [← hst],hid,hep.ge,?_⟩
      intro commit' g₁' g₂ secrets hu' hm'
      obtain ⟨-,rfl⟩ := Prod.mk.inj (Except.ok.inj (hu.symm.trans hu'))
      simp [hm] at hm'
    · obtain ⟨hid',hep',-⟩ := hS.mergePending hm
      have hid₂ : M.groupId g₂ = M.groupId g := hid'.trans hid
      have hle : M.epoch g ≤ M.epoch g₂ := by omega
      rw [c.saveGroup_saveGroup hid'.symm] at hmerge
      rcases hmerge with ⟨secrets,hx,hmerge⟩ | ⟨hx,e,hmerge⟩
      · rw [session_run hmerge]
        exact Or.inr ⟨commit,g₁,g₂,secrets,hu,hm,hx,hid₂,hle,by rw [← hst]⟩
      · rw [session_run hmerge]
        refine Or.inl ⟨_,g₂,M.epoch g₂,by rw [← hst],hid₂,hle,?_⟩
        intro commit' g₁' g₂' secrets hu' hm'
        obtain ⟨-,rfl⟩ := Prod.mk.inj (Except.ok.inj (hu.symm.trans hu'))
        obtain rfl := Except.ok.inj (hm.symm.trans hm')
        exact hx secrets

/-- Once the commit is merged, the client's session is that of the commit's group. What the client
then keeps for later are secrets of the group it has stored. -/
theorem ClientHandshakeState.processUpdate_merged (leafSigner : M.SignatureKeyPair) (seed : ℕ)
    {update : ConnectionUpdateIn M} {c : Connection M} {g : M.Group} {secrets : TrafficSecrets}
    {identity : ClientIdentity} (hx : Exports g secrets)
    (h : (processMlsUpdate update.mlsCommit false).run c =
      (.ok (secrets,⟨M.groupId g,M.epoch g⟩,identity),c.saveGroup g)) (st : ClientHandshakeState M) :
    ∃ r st' g', (processUpdate leafSigner update seed).run (st,c) = (r,(st',c.saveGroup g')) ∧
      st'.profileId = st.profileId ∧ st'.mlsSession.groupId = M.groupId g ∧
      M.groupId g' = M.groupId g ∧ M.epoch g ≤ M.epoch g' ∧
      (st'.internalState = st.internalState ∨ ∃ secrets', Exports g' secrets' ∧
        ((∃ commit, st'.internalState = .waitingForEpochKeyUpdate ⟨commit,secrets'⟩) ∨
          st'.internalState = .waitingForEpochKeyUpdateReturn secrets'.serverSecret)) ∧
      ((Answers leafSigner update.updateRequested.toBool seed g ∧ ∃ secrets' bytes,
          Exports g' secrets' ∧ r = .ok (secrets'.clientSecret,bytes)) ∨
        ¬Answers leafSigner update.updateRequested.toBool seed g ∧ ∃ e, r = .error (.error e)) := by
  have hg : (c.saveGroup g).groups (M.groupId g) = .ok (some g) := c.saveGroup_groups_self g
  have hcreate := createEpochKeyUpdate_stored ⟨M.groupId g,M.epoch g⟩ hg
  rw [processUpdate,Exec.bind_of_ok (db_run h st),Exec.bind_of_ok (Exec.modify_run _ _)]
  simp only [createEpochKeyUpdate,Exec.bind_run,Exec.get_run,db_run hcreate]
  rcases serialize_cases (E := M.Error) (.epochKeyUpdate ⟨M.epoch g⟩ : SignalingMessageOut M)
      (({ st with mlsSession := ⟨M.groupId g,M.epoch g⟩ },c.saveGroup g) :
        ClientHandshakeState M × Connection M) with ⟨henc,b,hb⟩ | ⟨henc,hb⟩
  · simp only [hb]
    cases hq : update.updateRequested.toBool with
    | false =>
      exact ⟨_,_,g,rfl,rfl,rfl,rfl,le_rfl,Or.inr ⟨secrets,hx,Or.inr rfl⟩,
        Or.inl ⟨⟨henc,by simp⟩,secrets,b,hx,rfl⟩⟩
    | true =>
      simp only [if_true]
      have hcases := commit_cases hS leafSigner seed c
        { st with mlsSession := ⟨M.groupId g,M.epoch g⟩ } rfl fun commit secrets' => do
          setInternalState (.waitingForEpochKeyUpdate ⟨commit,secrets'⟩)
          let bytes ← serialize (SignalingMessageOut.wire M) (.connectionUpdate ⟨.ofBool false,commit⟩)
          pure (secrets'.clientSecret,bytes)
      rcases hcases with
        ⟨e,g',epoch,hrun,hid,hle,hno⟩ | ⟨commit,g',g'',secrets',hu,hm,hx',hid,hle,hrun⟩
      · refine ⟨_,_,g',hrun,rfl,rfl,hid,hle,Or.inl rfl,Or.inr ⟨?_,e,rfl⟩⟩
        rintro ⟨-,hans⟩
        obtain ⟨commit,g₁,g₂,secrets',hu,hm,hx',-⟩ := hans rfl
        exact hno hu hm hx'
      · rw [hrun]
        simp only [setInternalState,Exec.bind_run,Exec.modify_run]
        rcases serialize_cases (E := M.Error)
            (.connectionUpdate ⟨.ofBool false,commit⟩ : SignalingMessageOut M)
            ((⟨st.profileId,⟨M.groupId g,M.epoch g''⟩,
              .waitingForEpochKeyUpdate ⟨commit,secrets'⟩⟩,c.saveGroup g'') :
              ClientHandshakeState M × Connection M) with ⟨henc',b',hb'⟩ | ⟨henc',hb'⟩
        · rw [hb']
          refine ⟨_,_,g'',rfl,rfl,rfl,hid,hle,Or.inr ⟨secrets',hx',Or.inl ⟨commit,rfl⟩⟩,
            Or.inl ⟨⟨henc,?_⟩,secrets',b',hx',rfl⟩⟩
          exact fun _ => ⟨commit,g',g'',secrets',hu,hm,hx',henc'⟩
        · rw [hb']
          refine ⟨_,_,g'',rfl,rfl,rfl,hid,hle,Or.inr ⟨secrets',hx',Or.inl ⟨commit,rfl⟩⟩,
            Or.inr ⟨?_,_,rfl⟩⟩
          rintro ⟨-,hans⟩
          obtain ⟨commit',g₁,g₂,secrets₂,hu',-,-,henc''⟩ := hans rfl
          obtain ⟨rfl,-⟩ := Prod.mk.inj (Except.ok.inj (hu.symm.trans hu'))
          exact henc' henc''
  · rw [hb]
    exact ⟨_,_,g,rfl,rfl,rfl,rfl,le_rfl,Or.inl rfl,Or.inr ⟨fun hans => henc hans.1,_,rfl⟩⟩

end

def sampleStanding : Standing sampleMls where
  PendingCommit := Option Sample.Message
  pendingCommit g :=
    match g.stage with
    | .adding => some none
    | _ => g.pending.map some

theorem sampleStanding_lawful : sampleStanding.Lawful where
  wire := Sample.messageWire_lawful
  hasPendingCommit_eq := by
    rintro ⟨s,i,stage,ms,p⟩
    cases stage <;> cases p <;> rfl
  mergePending := by
    rintro ⟨s,i,stage,ms,p⟩ g' h
    cases stage <;> cases p <;> cases h <;>
      simp [sampleMls,Sample.Group.epoch,Sample.Group.hasPendingCommit,sampleStanding] <;> omega
  clearPending := by
    rintro ⟨s,i,stage,ms,p⟩ g' h
    cases stage <;> cases h <;> exact ⟨rfl,rfl,rfl⟩
  selfUpdate := by
    rintro signer seed ⟨s,i,stage,ms,p⟩ m g' h
    cases stage <;> cases p <;> cases h
    exact ⟨rfl,rfl⟩
  process := by
    intro p g
    have h : (Sample.processMessage p g).2 = g := by
      unfold Sample.processMessage
      split_ifs <;> rfl
    change sampleMls.groupId (Sample.processMessage p g).2 = _ ∧ sampleMls.epoch
      (Sample.processMessage p g).2 = _ ∧ sampleStanding.pendingCommit
      (Sample.processMessage p g).2 = _
    rw [h]
    exact ⟨rfl,rfl,rfl⟩
  mergeStaged := by
    rintro staged ⟨s,i,stage,ms,p⟩ g' h
    cases stage <;> cases h <;> simp [sampleMls,Sample.Group.epoch]
    omega

end MlsTls.MlsHandshake
