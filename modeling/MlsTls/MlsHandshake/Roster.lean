import MlsTls.Lib.Run
import MlsTls.MlsHandshake.Establish
import MlsTls.MlsHandshake.Sample

/-! The members of a group on the server. The client may send whatever it likes, so the library is
seen here through the leaves of its groups, for any message and not only for honest ones. What is
relied on: the own leaf's messages are rejected, the reported credential is that of the sender's
current leaf, and nothing of a message is kept before its commit is merged. -/
namespace MlsTls.MlsHandshake
open Lib TlsAead

lemma Credential.eq_basic {c : Credential} {identity : Bytes}
    (h : c.basicIdentity = some identity) : c = .basic identity := by
  cases c with
  | basic i => exact congrArg _ (Option.some.inj h)
  | other _ _ => simp [Credential.basicIdentity] at h

/-- The credentials of the leaves of a group, now and after the pending commit, the own leaf, and
the number of stored proposals. -/
structure Roster (M : OpenMls) where
  leaves : M.Group → List Credential
  pendingLeaves : M.Group → Option (List Credential)
  ownIndex : M.Group → ℕ
  storedProposals : M.Group → ℕ

/-- One group before and after a call that adds no proposal to its store. -/
structure Roster.Same {M : OpenMls} (R : Roster M) (g g' : M.Group) : Prop where
  groupId : M.groupId g' = M.groupId g
  ownIndex : R.ownIndex g' = R.ownIndex g
  storedProposals : R.storedProposals g = 0 → R.storedProposals g' = 0

structure Roster.Lawful {M : OpenMls} (R : Roster M) : Prop where
  build : ∀ {groupId signer credential seed g}, M.buildGroup groupId signer credential seed = .ok g →
    M.groupId g = groupId ∧ R.ownIndex g = 0 ∧ R.storedProposals g = 0 ∧
      R.leaves g = [credential] ∧ R.pendingLeaves g = none
  add : ∀ {signer keyPackage seed g welcome g'},
    M.addMembers signer keyPackage seed g = .ok (welcome,g') →
    R.Same g g' ∧ R.leaves g' = R.leaves g ∧ (R.storedProposals g = 0 →
      R.pendingLeaves g' = some (R.leaves g++[(M.leafNode keyPackage).credential]))
  selfUpdate : ∀ {signer seed g m g'}, M.selfUpdate signer seed g = .ok (m,g') →
    R.Same g g' ∧ R.leaves g' = R.leaves g ∧
      (R.storedProposals g = 0 → R.pendingLeaves g' = some (R.leaves g))
  mergePending : ∀ {g g'}, M.mergePendingCommit g = .ok g' →
    R.Same g g' ∧ R.leaves g' = (R.pendingLeaves g).getD (R.leaves g) ∧ R.pendingLeaves g' = none
  clearPending : ∀ {g g'}, M.clearPendingCommit g = .ok g' →
    R.Same g g' ∧ R.leaves g' = R.leaves g ∧ R.pendingLeaves g' = none
  process : ∀ p g, R.Same g (M.processMessage p g).2 ∧
    R.leaves (M.processMessage p g).2 = R.leaves g ∧
    R.pendingLeaves (M.processMessage p g).2 = R.pendingLeaves g
  processSender : ∀ {p g k credential content g'},
    M.processMessage p g = (.ok ⟨.member k,credential,content⟩,g') →
    k ≠ R.ownIndex g ∧ (R.leaves g)[k]? = some credential
  mergeStaged : ∀ {p g k credential staged g' node g''},
    M.processMessage p g = (.ok ⟨.member k,credential,.stagedCommitMessage staged⟩,g') →
    M.updatePathLeafNode staged = some node → M.queuedProposals staged = 0 →
    M.mergeStagedCommit staged g' = .ok g'' →
    R.Same g' g'' ∧ R.leaves g'' = (R.leaves g').set k node.credential ∧ R.pendingLeaves g'' = none

namespace Roster
variable {M : OpenMls} (R : Roster M) (groupId : GroupId) (identity : Bytes)

/-- The server and the client, each with its credential of the beginning. -/
def original : List Credential := [.basic MlsSession.serverIdentity,.basic identity]

/-- The group of the session has its two original leaves and nothing that could change them. -/
structure Intact (g : M.Group) : Prop where
  leaves : R.leaves g = original identity
  pending : R.pendingLeaves g = none ∨ R.pendingLeaves g = some (original identity)
  proposals : R.storedProposals g = 0
  own : R.ownIndex g = 0

/-- Every stored group is filed under its own id, as the library writes it. -/
def Filed (c : Connection M) : Prop := ∀ j g, c.groups j = .ok (some g) → M.groupId g = j

/-- Said of any group of the store, but only of the session's group in earnest. -/
def Fine (g : M.Group) : Prop := M.groupId g = groupId → R.Intact identity g

/-- Every stored group is filed under its own id, and the session's group is there and intact. -/
structure Kept (c : Connection M) : Prop where
  stored : ∃ g, c.groups groupId = .ok (some g)
  filed : ∀ {j g}, c.groups j = .ok (some g) → M.groupId g = j ∧ R.Fine groupId identity g

variable {R groupId identity}

lemma Kept.saveGroup {c : Connection M} (h : R.Kept groupId identity c) {g : M.Group}
    (hg : R.Fine groupId identity g) : R.Kept groupId identity (c.saveGroup g) := by
  constructor
  · by_cases he : M.groupId g = groupId
    · exact ⟨g,c.saveGroup_groups he⟩
    · obtain ⟨g',hg'⟩ := h.stored
      exact ⟨g',by rwa [c.saveGroup_groups_of_ne (Ne.symm he)]⟩
  · intro j g' hj
    by_cases he : j = M.groupId g
    · subst he
      rw [Connection.saveGroup_groups_self] at hj
      obtain rfl := Option.some.inj (Except.ok.inj hj)
      exact ⟨rfl,hg⟩
    · rw [c.saveGroup_groups_of_ne he] at hj
      exact h.filed hj

lemma Fine.of_same {g g' : M.Group} (h : R.Fine groupId identity g) (hs : R.Same g g')
    (hl : R.Intact identity g → R.leaves g' = original identity)
    (hp : R.Intact identity g →
      R.pendingLeaves g' = none ∨ R.pendingLeaves g' = some (original identity)) :
    R.Fine groupId identity g' := by
  intro hid
  have hg := h (hs.groupId.symm.trans hid)
  exact ⟨hl hg,hp hg,hs.storedProposals hg.proposals,hs.ownIndex.trans hg.own⟩

section
variable (hR : R.Lawful)
include hR

lemma Fine.selfUpdate {g g' : M.Group} {m : M.Message} {signer : M.SignatureKeyPair} {seed : ℕ}
    (h : R.Fine groupId identity g) (hu : M.selfUpdate signer seed g = .ok (m,g')) :
    R.Fine groupId identity g' := by
  obtain ⟨hs,hl,hp⟩ := hR.selfUpdate hu
  refine h.of_same hs (fun hg => hl.trans hg.leaves) fun hg => Or.inr ?_
  rw [hp hg.proposals,hg.leaves]

lemma Fine.mergePending {g g' : M.Group} (h : R.Fine groupId identity g)
    (hm : M.mergePendingCommit g = .ok g') : R.Fine groupId identity g' := by
  obtain ⟨hs,hl,hp⟩ := hR.mergePending hm
  refine h.of_same hs (fun hg => ?_) fun _ => Or.inl hp
  rw [hl]
  rcases hg.pending with hn | hn
  · rw [hn]
    exact hg.leaves
  · rw [hn]
    rfl

lemma Fine.clearPending {g g' : M.Group} (h : R.Fine groupId identity g)
    (hm : M.clearPendingCommit g = .ok g') : R.Fine groupId identity g' := by
  obtain ⟨hs,hl,hp⟩ := hR.clearPending hm
  exact h.of_same hs (fun hg => hl.trans hg.leaves) fun _ => Or.inl hp

lemma Fine.process {g : M.Group} (h : R.Fine groupId identity g) (p : M.PrivateMessage) :
    R.Fine groupId identity (M.processMessage p g).2 := by
  obtain ⟨hs,hl,hp⟩ := hR.process p g
  exact h.of_same hs (fun hg => hl.trans hg.leaves) fun hg => by rw [hp]; exact hg.pending

lemma validateCommit_ok {p : M.PrivateMessage} {g g' : M.Group}
    {processed : ProcessedMessage M.StagedCommit} {staged : M.StagedCommit} {id : ClientIdentity}
    (hp : M.processMessage p g = (.ok processed,g'))
    (hv : MlsSession.validateCommit processed = .ok (staged,id)) :
    ∃ k node credential,
      M.processMessage p g = (.ok ⟨.member k,credential,.stagedCommitMessage staged⟩,g') ∧
      M.updatePathLeafNode staged = some node ∧ M.queuedProposals staged = 0 ∧
      node.credential = credential ∧ credential = .basic id.identity ∧
      k ≠ R.ownIndex g ∧ (R.leaves g)[k]? = some credential := by
  obtain ⟨sender,credential,content⟩ := processed
  unfold MlsSession.validateCommit at hv
  cases sender with
  | member k =>
    cases content with
    | stagedCommitMessage s =>
      simp only at hv
      split at hv
      · rename_i node hnode
        split at hv
        · rename_i ident hident
          split_ifs at hv with hcred hprop
          simp only [Except.ok.injEq,Prod.mk.injEq] at hv
          obtain ⟨rfl,rfl⟩ := hv
          have heq : credential = node.credential := not_not.mp hcred
          obtain ⟨hk,hleaf⟩ := hR.processSender hp
          exact ⟨k,node,credential,hp,hnode,by omega,heq.symm,
            heq.trans (Credential.eq_basic hident),hk,hleaf⟩
        · simp at hv
      · simp at hv
    | applicationMessage => simp at hv
    | proposalMessage => simp at hv
  | external _ => simp at hv
  | newMemberProposal => simp at hv
  | newMemberCommit => simp at hv

omit hR in
lemma Intact.sender {g : M.Group} (h : R.Intact identity g) {k : ℕ} {credential : Credential}
    (hk : k ≠ R.ownIndex g) (hleaf : (R.leaves g)[k]? = some credential) :
    k = 1 ∧ credential = .basic identity := by
  -- the only sender left is the client, whose credential is the original one
  rw [h.own] at hk
  rw [h.leaves] at hleaf
  match k with
  | 0 => exact absurd rfl hk
  | 1 => exact ⟨rfl,(Option.some.inj hleaf).symm⟩
  | k+2 => simp [original] at hleaf

lemma Fine.mergeStaged {p : M.PrivateMessage} {g g' g'' : M.Group}
    {processed : ProcessedMessage M.StagedCommit} {staged : M.StagedCommit} {id : ClientIdentity}
    (h : R.Fine groupId identity g) (hp : M.processMessage p g = (.ok processed,g'))
    (hv : MlsSession.validateCommit processed = .ok (staged,id))
    (hm : M.mergeStagedCommit staged g' = .ok g'') :
    R.Fine groupId identity g'' ∧ (M.groupId g = groupId → id = ⟨identity⟩) := by
  -- a commit that passes the checks changes no leaf of the session's group
  obtain ⟨k,node,credential,hproc,hnode,hprop,hcred,hbasic,hk,hleaf⟩ := validateCommit_ok hR hp hv
  obtain ⟨hs,hl,hpend⟩ := hR.mergeStaged hproc hnode hprop hm
  have hpr := hR.process p g
  rw [hp] at hpr
  obtain ⟨hs',hl',hpend'⟩ := hpr
  have hfine : R.Fine groupId identity g' := h.of_same hs' (fun hg => hl'.trans hg.leaves)
    fun hg => by rw [hpend']; exact hg.pending
  constructor
  · intro hid
    have hg' := hfine (hs.groupId.symm.trans hid)
    have hg := h (hs'.groupId.symm.trans (hs.groupId.symm.trans hid))
    obtain ⟨rfl,hx⟩ := hg.sender hk hleaf
    refine ⟨?_,Or.inl hpend,hs.storedProposals hg'.proposals,hs.ownIndex.trans hg'.own⟩
    rw [hl,hg'.leaves,hcred,hx]
    rfl
  · intro hid
    obtain ⟨-,hx⟩ := (h hid).sender hk hleaf
    rw [hbasic] at hx
    obtain ⟨i⟩ := id
    exact congrArg _ (Credential.basic.inj hx)

end

section
variable (hR : R.Lawful)
include hR

open MlsSession

omit hR in
lemma loadGroup_keeps (j : GroupId) : Exec.Keeps (R.Kept groupId identity) (loadGroup j)
    fun g : M.Group => M.groupId g = j ∧ R.Fine groupId identity g := by
  refine .bind .get fun c hc => .bind .lift fun o ho => .mono .orThrow fun g hg => ?_
  subst hg
  exact hc.filed ho

omit hR in
lemma saveGroup_keeps {g : M.Group} (hg : R.Fine groupId identity g) :
    Exec.Keeps (R.Kept groupId identity)
      (Exec.modify (·.saveGroup g) : Db M Unit) fun _ => True :=
  .modify fun _ hc => hc.saveGroup hg

omit hR in
lemma persist_keeps {f : BoxedError M.Error → HandshakeError M.Error} {r : Except M.Error M.Group}
    (h : ∀ g, r = .ok g → R.Fine groupId identity g) :
    Exec.Keeps (R.Kept groupId identity) (persist f r) fun g => r = .ok g :=
  .bind .lift fun g hg => .bind (saveGroup_keeps (h g hg)) fun _ _ => .pure hg

omit hR in
lemma exportTrafficSecrets_keeps {I : Connection M → Prop} (g : M.Group) :
    Exec.Keeps I (exportTrafficSecrets g) fun _ => True :=
  .bind .lift fun _ _ => .bind .lift fun _ _ => .pure trivial

omit hR in
lemma sessionEpochKeyUpdate_keeps (session : MlsSession) :
    Exec.Keeps (R.Kept groupId identity) session.createEpochKeyUpdate fun _ => True :=
  .bind (loadGroup_keeps _) fun _ _ => .pure trivial

lemma update_keeps (session : MlsSession) (signer : M.SignatureKeyPair) (seed : ℕ) :
    Exec.Keeps (R.Kept groupId identity) (session.update signer seed) fun _ => True := by
  refine .bind (loadGroup_keeps _) fun g hg => .bind .lift ?_
  rintro ⟨m,g'⟩ hu
  exact .bind (saveGroup_keeps (hg.2.selfUpdate hR hu)) fun _ _ => .pure trivial

lemma mergeUpdate_keeps :
    Exec.Keeps (fun s : MlsSession × Connection M => R.Kept groupId identity s.2) mergeUpdate
      fun _ => True := by
  have hdb {α : Type} {x : Db M α} {Q : α → Prop} (h : Exec.Keeps (R.Kept groupId identity) x Q) :
      Exec.Keeps (fun s : MlsSession × Connection M => R.Kept groupId identity s.2)
        (MlsSession.db x) Q := .zoom Prod.snd _ (fun _ _ => rfl) h
  refine .bind .get fun s _ => .bind (hdb (loadGroup_keeps _)) fun g hg => ?_
  refine .bind (hdb (persist_keeps fun g' hg' => hg.2.mergePending hR hg')) fun g' _ => ?_
  exact .bind (.modify fun _ hs => hs) fun _ _ => hdb (exportTrafficSecrets_keeps g')

lemma settlePendingCommit_keeps (message : M.PrivateMessage) (drop : Bool) {g : M.Group}
    (hg : R.Fine groupId identity g) :
    Exec.Keeps (R.Kept groupId identity) (settlePendingCommit message drop g)
      fun g' => R.Fine groupId identity g' ∧ M.groupId g' = M.groupId g := by
  unfold settlePendingCommit
  split_ifs with hroom hmerge hdrop
  · refine .mono (persist_keeps fun g' hg' => hg.mergePending hR hg') fun g' hg' => ?_
    exact ⟨hg.mergePending hR hg',(hR.mergePending hg').1.groupId⟩
  · refine .mono (persist_keeps fun g' hg' => hg.clearPending hR hg') fun g' hg' => ?_
    exact ⟨hg.clearPending hR hg',(hR.clearPending hg').1.groupId⟩
  · exact .pure ⟨hg,rfl⟩
  · exact .panic

lemma processMessage_keeps (message : M.PrivateMessage) {g : M.Group}
    (hg : R.Fine groupId identity g) :
    Exec.Keeps (R.Kept groupId identity) (MlsSession.processMessage message g)
      fun p => M.processMessage message g = (.ok p.1,p.2) :=
  .bind (saveGroup_keeps (hg.process hR message)) fun _ _ =>
    .bind .lift fun _ hp => .pure (Prod.ext hp rfl)

lemma processMlsUpdate_keeps (message : M.Message) (drop : Bool) :
    Exec.Keeps (R.Kept groupId identity) (processMlsUpdate message drop) fun r =>
      ∀ p, M.extract message = .privateMessage p → M.messageGroupId p = groupId →
        r.2.2 = ⟨identity⟩ := by
  unfold processMlsUpdate
  split
  · rename_i p hp
    refine .bind (loadGroup_keeps _) fun g hg => ?_
    refine .bind (settlePendingCommit_keeps hR p drop hg.2) fun g₁ hg₁ => ?_
    refine .bind (processMessage_keeps hR p hg₁.1) ?_
    rintro ⟨processed,g₂⟩ hproc
    refine .bind .lift ?_
    rintro ⟨staged,id⟩ hv
    have hmerge (g₃ : M.Group) (hg₃ : M.mergeStagedCommit staged g₂ = .ok g₃) :=
      hg₁.1.mergeStaged hR hproc hv hg₃
    refine .bind (persist_keeps fun g₃ hg₃ => (hmerge g₃ hg₃).1) fun g₃ hg₃ => ?_
    refine .bind (exportTrafficSecrets_keeps g₃) fun _ _ => .pure ?_
    intro p' hp' hid
    obtain rfl := MlsMessageBodyIn.privateMessage.inj (hp.symm.trans hp')
    exact (hmerge g₃ hg₃).2 (hg₁.2.trans (hg.1.trans hid))
  · exact .throw

omit hR in
lemma Fine.of_ne {g : M.Group} (h : M.groupId g ≠ groupId) : R.Fine groupId identity g :=
  fun he => absurd he h

lemma createServerSession_keeps (signer : M.SignatureKeyPair) (keyPackageIn : M.KeyPackageIn)
    {j : GroupId} (hj : j ≠ groupId) (seed : ℕ) :
    Exec.Keeps (R.Kept groupId identity) (createServerSession signer keyPackageIn j seed)
      fun _ => True := by
  refine .bind .lift fun keyPackage _ => .bind .orThrow fun clientIdentity _ => ?_
  have hbuild (g : M.Group)
      (hg : M.buildGroup j signer (.basic serverIdentity) seed = .ok g) : M.groupId g ≠ groupId := by
    rw [(hR.build hg).1]
    exact hj
  refine .bind (persist_keeps fun g hg => .of_ne (hbuild g hg)) fun g hg => .bind .lift ?_
  rintro ⟨welcome,g₁⟩ hadd
  have hg₁ : R.Fine groupId identity g₁ := .of_ne <| by
    rw [(hR.add hadd).1.groupId]
    exact hbuild g hg
  refine .bind (saveGroup_keeps hg₁) fun _ _ => ?_
  refine .bind (persist_keeps fun g₂ hg₂ => hg₁.mergePending hR hg₂) fun g₂ _ => ?_
  exact .bind (exportTrafficSecrets_keeps g₂) fun _ _ => .pure trivial

lemma createServerSession_kept {signer : M.SignatureKeyPair} {keyPackageIn : M.KeyPackageIn}
    {seed : ℕ} {c c' : Connection M} {session : MlsSession} {secrets : TrafficSecrets}
    {id : ClientIdentity} {welcome : M.Message}
    (hfiled : Filed c)
    (h : (createServerSession signer keyPackageIn groupId seed).run c =
      (.ok (session,secrets,id,welcome),c')) :
    R.Kept groupId id.identity c' ∧
      ∃ keyPackage, M.validate keyPackageIn = .ok keyPackage ∧
        (M.leafNode keyPackage).credential.basicIdentity = some id.identity := by
  obtain ⟨keyPackage,g,g',g'',hval,hbuild,hadd,hmerge,-,hexp,hid⟩ := createServerSession_ok h
  refine ⟨?_,keyPackage,hval,hid⟩
  obtain ⟨hgid,hown,hprop,hl,-⟩ := hR.build hbuild
  obtain ⟨hs,hl',hp'⟩ := hR.add hadd
  obtain ⟨hs',hl'',hp''⟩ := hR.mergePending hmerge
  have hg' : M.groupId g' = groupId := hs.groupId.trans hgid
  have hg'' : M.groupId g'' = groupId := hs'.groupId.trans hg'
  have hintact : R.Intact id.identity g'' := by
    refine ⟨?_,Or.inl hp'',hs'.storedProposals (hs.storedProposals hprop),
      hs'.ownIndex.trans (hs.ownIndex.trans hown)⟩
    rw [hl'',hp' hprop,hl,Credential.eq_basic hid]
    rfl
  have hc' : c' = ((c.saveGroup g).saveGroup g').saveGroup g'' := by
    have hI := (exportTrafficSecrets_keeps (I := (· = ((c.saveGroup g).saveGroup g').saveGroup g''))
      g'').snd rfl
    rwa [hexp] at hI
  subst hc'
  constructor
  · exact ⟨g'',Connection.saveGroup_groups _ hg''⟩
  · intro j g₀ hj
    by_cases he : j = groupId
    · rw [Connection.saveGroup_groups _ (hg''.trans he.symm)] at hj
      obtain rfl := Option.some.inj (Except.ok.inj hj)
      exact ⟨hg''.trans he.symm,fun _ => hintact⟩
    · rw [Connection.saveGroup_groups_of_ne _ (by rwa [hg'']),
        Connection.saveGroup_groups_of_ne _ (by rwa [hg']),
        Connection.saveGroup_groups_of_ne _ (by rwa [hgid])] at hj
      have hj' := hfiled j g₀ hj
      exact ⟨hj',.of_ne (by rwa [hj'])⟩

end

section
variable (hR : R.Lawful)
include hR

/-- What is asked of the state of a connection on the server is only its database. -/
abbrev ServerKept (R : Roster M) (groupId : GroupId) (identity : Bytes)
    (s : ServerHandshakeState × Connection M) : Prop := R.Kept groupId identity s.2

open ServerHandshakeState

omit hR in
lemma db_keeps {α : Type} {x : Db M α} {Q : α → Prop}
    (h : Exec.Keeps (R.Kept groupId identity) x Q) :
    Exec.Keeps (R.ServerKept groupId identity) (ServerHandshakeState.db x) Q :=
  .zoom Prod.snd _ (fun _ _ => rfl) h

omit hR in
lemma session_keeps {α : Type} {x : MlsSession.Call M α} {Q : α → Prop}
    (h : Exec.Keeps (fun s : MlsSession × Connection M => R.Kept groupId identity s.2) x Q) :
    Exec.Keeps (R.ServerKept groupId identity) (session x) Q :=
  .zoom (fun s : ServerHandshakeState × Connection M => (s.1.mlsSession,s.2)) _
    (fun _ _ => rfl) h

omit hR in
lemma setInternalState_keeps (i : ServerInternalState) :
    Exec.Keeps (R.ServerKept groupId identity) (setInternalState i) fun _ => True :=
  .modify fun _ hs => hs

lemma sessionUpdate_keeps (signer : M.SignatureKeyPair) (seed : ℕ) :
    Exec.Keeps (R.ServerKept groupId identity) (sessionUpdate signer seed) fun _ => True :=
  .bind .get fun _ _ => db_keeps (update_keeps hR _ signer seed)

omit hR in
lemma createEpochKeyUpdate_keeps :
    Exec.Keeps (R.ServerKept groupId identity) createEpochKeyUpdate fun _ => True :=
  .bind .get fun _ _ =>
    .bind (db_keeps (sessionEpochKeyUpdate_keeps _)) fun _ _ => .mono .orThrow fun _ _ => trivial

omit hR in
lemma processEpochKeyUpdate_keeps (keyUpdate : EpochKeyUpdate) :
    Exec.Keeps (R.ServerKept groupId identity) (processEpochKeyUpdate keyUpdate)
      fun _ => True := by
  refine .bind .get fun s _ => db_keeps (.bind (loadGroup_keeps _) fun g _ => ?_)
  split_ifs
  · exact .throw
  · exact .pure trivial

lemma serverUpdate_keeps (signer : M.SignatureKeyPair) (updateRequested : Bool) (seed : ℕ) :
    Exec.Keeps (R.ServerKept groupId identity)
      (ServerHandshakeState.update signer updateRequested seed) fun _ => True := by
  refine .bind .get fun s _ => ?_
  split_ifs
  · exact .throw
  · refine .bind (sessionUpdate_keeps hR signer seed) fun m _ => .bind .orThrow fun _ _ => ?_
    exact .bind (setInternalState_keeps _) fun _ _ => .pure trivial

lemma processUpdate_keeps (signer : M.SignatureKeyPair) (connectionUpdate : ConnectionUpdateIn M)
    (seed : ℕ) :
    Exec.Keeps (R.ServerKept groupId identity) (processUpdate signer connectionUpdate seed)
      fun _ => True := by
  refine .bind (db_keeps (processMlsUpdate_keeps hR _ true)) fun r _ => ?_
  refine .bind (setInternalState_keeps _) fun _ _ => .bind (.modify fun _ hs => hs) fun _ _ => ?_
  refine .bind createEpochKeyUpdate_keeps fun responseBytes _ => ?_
  split_ifs
  · refine .bind (sessionUpdate_keeps hR signer seed) fun m _ => ?_
    exact .bind (setInternalState_keeps _) fun _ _ => .bind .orThrow fun _ _ => .pure trivial
  · exact .pure trivial

lemma receiveSignalingMessage_keeps (signer : M.SignatureKeyPair) (messageBytes : Bytes)
    (seed : ℕ) :
    Exec.Keeps (R.ServerKept groupId identity)
      (ServerHandshakeState.receiveSignalingMessage signer messageBytes seed) fun _ => True := by
  refine .bind .orThrow fun signalingMessage _ => ?_
  cases signalingMessage with
  | connectionUpdate u =>
    exact .bind (processUpdate_keeps hR signer u seed) fun _ _ => .pure trivial
  | connectionConfirmation _ => exact .throw
  | keyUpdate _ => exact .panic
  | epochKeyUpdate u =>
    refine .bind .get fun s _ => ?_
    split_ifs
    · refine .bind (session_keeps (mergeUpdate_keeps hR)) fun _ _ => ?_
      refine .bind (processEpochKeyUpdate_keeps u) fun _ _ => ?_
      exact .bind createEpochKeyUpdate_keeps fun _ _ =>
        .bind (setInternalState_keeps _) fun _ _ => .pure trivial
    · exact .throw

lemma start_keeps (signer : M.SignatureKeyPair) (messageBytes : Bytes) {j : GroupId}
    (hj : ∀ version hello, (MlsTlsHandshakeIn.wire M).decExact messageBytes =
      some ⟨version,.clientHello hello⟩ → j ≠ groupId) (seed : ℕ) :
    Exec.Keeps (R.Kept groupId identity) (ServerHandshake.start signer messageBytes j seed)
      fun r => ∀ version commit p, (MlsTlsHandshakeIn.wire M).decExact messageBytes =
        some ⟨version,.resumption ⟨commit⟩⟩ → M.extract commit = .privateMessage p →
        M.messageGroupId p = groupId → r.2.2.1 = ⟨identity⟩ := by
  refine .bind .orThrow fun message hmessage => .bind (Q := fun _ => True) ?_ fun _ _ => ?_
  · unfold MlsTlsHandshakeIn.checkVersion
    split_ifs
    · exact .throw
    · exact .pure trivial
  · obtain ⟨version,payload⟩ := message
    rw [hmessage] at hj ⊢
    cases payload with
    | clientHello clientHello =>
      simp only [ServerHandshake.processClientHello]
      split
      · refine .bind (createServerSession_keeps hR signer _ (hj _ _ rfl) seed) ?_
        rintro ⟨session,secrets,id,welcome⟩ -
        refine .bind .orThrow fun _ _ => .pure ?_
        simp
      · exact .throw
    | resumption resumption =>
      refine .bind (processMlsUpdate_keeps hR resumption.commit true) ?_
      rintro ⟨secrets,session,id⟩ hid
      refine .bind (Q := fun _ => True) ?_ fun _ _ => .pure ?_
      · exact .bind (sessionEpochKeyUpdate_keeps _) fun _ _ => .mono .orThrow fun _ _ => trivial
      · intro version' commit p hdec hp hgid
        obtain ⟨-,rfl⟩ : version = version' ∧ resumption = ⟨commit⟩ := by simpa using hdec
        exact hid p hp hgid

end

end Roster

/-- The calls that a server makes for its peers, each with the state of the connection it is made
for. -/
inductive ServerCall (M : OpenMls)
  | start (leafSigner : M.SignatureKeyPair) (messageBytes : Bytes) (groupId : GroupId) (seed : ℕ)
  | update (state : ServerHandshakeState) (leafSigner : M.SignatureKeyPair)
      (updateRequested : Bool) (seed : ℕ)
  | receive (state : ServerHandshakeState) (leafSigner : M.SignatureKeyPair)
      (messageBytes : Bytes) (seed : ℕ)

namespace ServerCall
variable {M : OpenMls}

/-- The database after a call, whatever its result. -/
def step : ServerCall M → Connection M → Connection M
  | .start leafSigner b groupId seed,c => ((ServerHandshake.start leafSigner b groupId seed).run c).2
  | .update state leafSigner updateRequested seed,c =>
    ((ServerHandshakeState.update leafSigner updateRequested seed).run (state,c)).2.2
  | .receive state leafSigner b seed,c =>
    ((ServerHandshakeState.receiveSignalingMessage leafSigner b seed).run (state,c)).2.2

/-- A group id that is drawn later is another one. -/
def Fresh (groupId : GroupId) : ServerCall M → Prop
  | .start _ _ j _ => j ≠ groupId
  | _ => True

/-- Any calls of the server after the group was created. -/
abbrev Runs (groupId : GroupId) : Connection M → Connection M → Prop :=
  Run step fun call _ => call.Fresh groupId

lemma step_kept {R : Roster M} (hR : R.Lawful) {groupId : GroupId} {identity : Bytes}
    (call : ServerCall M) (hcall : call.Fresh groupId) {c : Connection M}
    (h : R.Kept groupId identity c) : R.Kept groupId identity (call.step c) := by
  cases call with
  | start leafSigner b j seed =>
    exact (Roster.start_keeps hR leafSigner b (fun _ _ _ => hcall) seed).snd h
  | update state leafSigner updateRequested seed =>
    exact (Roster.serverUpdate_keeps hR leafSigner updateRequested seed).snd (s := (state,c)) h
  | receive state leafSigner b seed =>
    exact (Roster.receiveSignalingMessage_keeps hR leafSigner b seed).snd (s := (state,c)) h

lemma run_kept {R : Roster M} (hR : R.Lawful) {groupId : GroupId} {identity : Bytes}
    {c c' : Connection M} (hrun : Runs groupId c c') (h : R.Kept groupId identity c) :
    R.Kept groupId identity c' :=
  hrun.invariant (fun call _ hc hcall => step_kept hR call hcall hc) h

end ServerCall

/-- Whatever the clients send, the group of a session keeps the server's leaf and the client's with
the credentials they had when it was created, and who resumes the session is that client. -/
theorem Roster.roster_continuity {M : OpenMls} {R : Roster M} (hR : R.Lawful)
    {leafSigner : M.SignatureKeyPair} {keyPackageIn : M.KeyPackageIn} {groupId : GroupId} {seed : ℕ}
    {c₀ c₁ c : Connection M} {session : MlsSession} {secrets : TrafficSecrets}
    {identity : ClientIdentity} {welcome : M.Message} (hfiled : Roster.Filed c₀)
    (hcreate : (MlsSession.createServerSession leafSigner keyPackageIn groupId seed).run c₀ =
      (.ok (session,secrets,identity,welcome),c₁))
    (hrun : ServerCall.Runs groupId c₁ c) :
    (∃ keyPackage, M.validate keyPackageIn = .ok keyPackage ∧
      (M.leafNode keyPackage).credential.basicIdentity = some identity.identity) ∧
    (∃ g, c.groups groupId = .ok (some g) ∧
      R.leaves g = [.basic MlsSession.serverIdentity,.basic identity.identity]) ∧
    ∀ leafSigner' messageBytes j seed' version commit message result c',
      (MlsTlsHandshakeIn.wire M).decExact messageBytes = some ⟨version,.resumption ⟨commit⟩⟩ →
      M.extract commit = .privateMessage message → M.messageGroupId message = groupId →
      (ServerHandshake.start leafSigner' messageBytes j seed').run c = (.ok result,c') →
      result.2.2.1 = identity := by
  obtain ⟨hkept₁,hkeyPackage⟩ := Roster.createServerSession_kept hR hfiled hcreate
  have hkept := ServerCall.run_kept hR hrun hkept₁
  refine ⟨hkeyPackage,?_,?_⟩
  · obtain ⟨g,hg⟩ := hkept.stored
    obtain ⟨hid,hfine⟩ := hkept.filed hg
    exact ⟨g,hg,(hfine hid).leaves⟩
  · intro leafSigner' messageBytes j seed' version commit message result c' hdec hm hgid hstart
    have hj : ∀ version' hello, (MlsTlsHandshakeIn.wire M).decExact messageBytes =
        some ⟨version',.clientHello hello⟩ → j ≠ groupId := by simp [hdec]
    exact (Roster.start_keeps hR leafSigner' messageBytes hj seed').result hkept hstart
      version commit message hdec hm hgid

/-- The leaves of the groups of the sample library. -/
def sampleRoster : Roster sampleMls where
  leaves g :=
    match g.stage with
    | .running => [.basic MlsSession.serverIdentity,.basic g.session.clientIdentity]
    | _ => [.basic MlsSession.serverIdentity]
  pendingLeaves g :=
    match g.stage,g.pending with
    | .adding,_ | .running,some _ =>
      some [.basic MlsSession.serverIdentity,.basic g.session.clientIdentity]
    | _,_ => none
  ownIndex g := (!g.isServer).toNat
  storedProposals _ := 0

theorem sampleRoster_lawful : sampleRoster.Lawful where
  build := by
    intro groupId signer credential seed g h
    simp only [sampleMls] at h
    split_ifs at h with hc
    cases h
    exact ⟨rfl,rfl,rfl,by rw [hc]; rfl,rfl⟩
  add := by
    rintro signer keyPackage seed ⟨σ,i,stage,ms,p⟩ welcome g' h
    cases stage with
    | created =>
      cases h
      exact ⟨⟨rfl,rfl,fun _ => rfl⟩,rfl,fun _ => rfl⟩
    | adding => cases h
    | running => cases h
  selfUpdate := by
    rintro signer seed ⟨σ,i,stage,ms,p⟩ m g' h
    cases stage <;> cases p <;> cases h
    exact ⟨⟨rfl,rfl,fun _ => rfl⟩,rfl,fun _ => rfl⟩
  mergePending := by
    rintro ⟨σ,i,stage,ms,p⟩ g' h
    cases stage <;> cases p <;> cases h <;> exact ⟨⟨rfl,rfl,fun _ => rfl⟩,rfl,rfl⟩
  clearPending := by
    rintro ⟨σ,i,stage,ms,p⟩ g' h
    cases stage <;> cases p <;> cases h <;> exact ⟨⟨rfl,rfl,fun _ => rfl⟩,rfl,rfl⟩
  process := by
    intro p g
    have h : (sampleMls.processMessage p g).2 = g := by
      simp only [sampleMls,Sample.processMessage]
      split_ifs <;> rfl
    rw [h]
    exact ⟨⟨rfl,rfl,id⟩,rfl,rfl⟩
  processSender := by
    rintro p ⟨σ,i,stage,ms,q⟩ k credential content g' h
    simp only [sampleMls,Sample.processMessage] at h
    split_ifs at h with hc
    · cases h
      cases hc.1
      cases i with
      | false => exact ⟨Nat.zero_ne_one,rfl⟩
      | true => exact ⟨Nat.one_ne_zero,rfl⟩
    · cases h
  mergeStaged := by
    rintro p ⟨σ,i,stage,ms,q⟩ k credential staged g' node g'' h hnode _ hm
    simp only [sampleMls,Sample.processMessage] at h
    split_ifs at h with hc
    · cases h
      cases hc.1
      cases hnode
      cases hm
      cases i <;> exact ⟨⟨rfl,rfl,id⟩,rfl,rfl⟩
    · cases h

namespace Sample

/-- The server's database after a session for the client `[7]` was set up. -/
def createdDb : Connection sampleMls :=
  ((MlsSession.createServerSession (M := sampleMls) [2] ⟨[7],[1]⟩ [9] 0).run sampleDb).2

def resumptionBytes (epoch seed : ℕ) : Bytes :=
  (MlsTlsHandshakeOut.wire sampleMls).bytes ⟨.v01,.resumption ⟨.commit ⟨[9],epoch,0,seed⟩⟩⟩

/-- An update of the client, one of the server, and a resumption that takes its place. -/
def serverCalls : List (ServerCall sampleMls) :=
  [.receive ⟨⟨[9],1⟩,.running⟩ [2] ((SignalingMessageOut.wire sampleMls).bytes
      (.connectionUpdate ⟨.ofBool false,.commit ⟨[9],1,0,5⟩⟩)) 0,
    .update ⟨⟨[9],2⟩,.running⟩ [2] false 3,
    .start [2] (resumptionBytes 2 8) [10] 0]

def servedDb : Connection sampleMls := serverCalls.foldl (fun c call => call.step c) createdDb

end Sample

theorem Roster.roster_continuity_sample :
    (∃ g, Sample.servedDb.groups [9] = .ok (some g) ∧
      sampleRoster.leaves g = [.basic MlsSession.serverIdentity,.basic [7]]) ∧
    ∃ result c', (ServerHandshake.start (M := sampleMls) [2] (Sample.resumptionBytes 3 4) [11] 0).run
      Sample.servedDb = (.ok result,c') ∧ result.2.2.1 = ⟨[7]⟩ := by
  have hrun : ServerCall.Runs [9] Sample.createdDb Sample.servedDb :=
    .ofList (by simp [Sample.serverCalls,ServerCall.Fresh,Run.Allowed])
  have hcreate : ∃ session secrets welcome,
      (MlsSession.createServerSession (M := sampleMls) [2] ⟨[7],[1]⟩ [9] 0).run sampleDb =
        (.ok (session,secrets,⟨[7]⟩,welcome),Sample.createdDb) := ⟨_,_,_,rfl⟩
  obtain ⟨_,_,_,hcreate⟩ := hcreate
  have hfiled : Filed sampleDb := by simp [Filed,sampleDb]
  obtain ⟨-,hleaves,hresume⟩ := roster_continuity sampleRoster_lawful hfiled hcreate hrun
  refine ⟨hleaves,_,_,rfl,?_⟩
  exact hresume [2] (Sample.resumptionBytes 3 4) [11] 0 .v01 (.commit ⟨[9],3,0,4⟩) ⟨[9],3,0,4⟩ _ _
    rfl rfl rfl rfl

end MlsTls.MlsHandshake
