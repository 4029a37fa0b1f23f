import MlsTls.MlsHandshake.Epochs
import MlsTls.MlsHandshake.Establish
import MlsTls.MlsHandshake.Locality

/-! What the server's calls do to the epochs of its groups, whoever sends the messages. The secrets
that a call hands out are of an epoch that was not there before the call. There is one exception: a
client's confirmation is taken for one of the pending commit, whether or not there still is one. -/
namespace MlsTls.MlsHandshake
open Lib TlsAead
variable {M : OpenMls}

/-- Groups may be gone; of those that are there, none has gone back to an earlier epoch and none is
new, those with ids in `fresh` apart. -/
structure Onward (fresh : Set GroupId) (c₀ c : Connection M) : Prop where
  filed : Roster.Filed c
  earlier : ∀ {j g'}, j ∉ fresh → c.groups j = .ok (some g') →
    ∃ g, c₀.groups j = .ok (some g) ∧ M.epoch g ≤ M.epoch g'

namespace Onward
variable {fresh : Set GroupId} {c₀ c c' : Connection M}

theorem of_aged (h : Aged c₀ c) : Onward fresh c₀ c := ⟨h.filed,fun _ hg => h.earlier hg⟩

theorem refl (h : Roster.Filed c) : Onward fresh c c := of_aged (.refl h)

theorem mono {fresh' : Set GroupId} (h : Onward fresh c₀ c) (hsub : fresh ⊆ fresh') :
    Onward fresh' c₀ c := ⟨h.filed,fun hj hg => h.earlier (fun hc => hj (hsub hc)) hg⟩

theorem congr (h : Onward fresh c₀ c) (hc : c'.groups = c.groups) : Onward fresh c₀ c' := by
  refine ⟨?_,?_⟩
  · unfold Roster.Filed
    rw [hc]
    exact h.filed
  · rw [hc]
    exact h.earlier

/-- A group is deleted. -/
theorem deleteGroup (h : Onward fresh c₀ c) (j : GroupId) : Onward fresh c₀ (c.deleteGroup j) := by
  have hold {i : GroupId} {g : M.Group} (hi : (c.deleteGroup j).groups i = .ok (some g)) :
      c.groups i = .ok (some g) := by
    by_cases he : i = j
    · subst he
      simp [Connection.deleteGroup] at hi
    · exact (Function.update_of_ne he _ _).symm.trans hi
  exact ⟨fun i g hi => h.filed i g (hold hi),fun hj hi => h.earlier hj (hold hi)⟩

end Onward

lemma exports_of_export {g : M.Group} {secrets : TrafficSecrets} {c c' : Connection M}
    (h : (exportTrafficSecrets g).run c = (.ok secrets,c')) :
    MlsSession.Exports g secrets ∧ c' = c := by
  rcases MlsSession.exportTrafficSecrets_cases g c with ⟨t,hx,hrun⟩ | ⟨-,e,hrun⟩
  · rw [hrun] at h
    obtain ⟨hok,rfl⟩ := Prod.mk.inj h
    obtain rfl := Except.ok.inj hok
    exact ⟨hx,rfl⟩
  · rw [hrun] at h
    simp at h

section
variable {S : Standing M} (hS : S.Lawful)
  (hexport : ∀ {signer seed g m g' secrets}, M.selfUpdate signer seed g = .ok (m,g') →
    MlsSession.Exports g secrets → MlsSession.Exports g' secrets)
  {c₀ : Connection M}

namespace MlsSession

lemma update_keeps {I : Connection M → Prop} (session : MlsSession) (leafSigner : M.SignatureKeyPair)
    (seed : ℕ) (hI : ∀ {c g m g'}, I c → c.groups session.groupId = .ok (some g) →
      M.selfUpdate leafSigner seed g = .ok (m,g') → I (c.saveGroup g')) :
    Exec.Keeps I (session.update leafSigner seed) fun _ => True := by
  intro c hc
  rcases hg : c.groups session.groupId with e | _ | g
  · simp only [MlsSession.update,loadGroup,Exec.bind_run,Exec.get_run,hg,Exec.lift_error]
    exact hc
  · simp only [MlsSession.update,loadGroup,Exec.bind_run,Exec.get_run,hg,Exec.lift_ok,
      Exec.orThrow_none]
    exact hc
  · rcases update_cases session hg leafSigner seed with ⟨e,-,hrun⟩ | ⟨commit,g',hu,hrun⟩
    · rw [hrun]
      exact hc
    · rw [hrun]
      exact ⟨hI hc hg hu,trivial⟩

include hS in
lemma update_stays (session : MlsSession) (leafSigner : M.SignatureKeyPair) (seed : ℕ) :
    Exec.Keeps (Aged c₀) (session.update leafSigner seed) fun _ => True :=
  update_keeps session leafSigner seed fun hc hg hu =>
    hc.saveGroup hg (hS.selfUpdate hu).1 (hS.selfUpdate hu).2.ge

include hS hexport in
lemma update_stays_new (session : MlsSession) (leafSigner : M.SignatureKeyPair) (seed : ℕ)
    (secrets : TrafficSecrets) :
    Exec.Keeps (fun c => Aged c₀ c ∧ New c₀ c secrets) (session.update leafSigner seed)
      fun _ => True := by
  refine update_keeps session leafSigner seed fun {c g m g'} hc hg hu => ?_
  obtain ⟨haged,g₀,g₁,hg₀,hg₁,hlt,hx⟩ := hc
  obtain ⟨hid,hepoch⟩ := hS.selfUpdate hu
  refine ⟨haged.saveGroup hg hid hepoch.ge,?_⟩
  have hsession : M.groupId g' = session.groupId := hid.trans (haged.filed _ _ hg)
  by_cases heq : M.groupId g₁ = session.groupId
  · rw [heq] at hg₀ hg₁
    obtain rfl := Option.some.inj (Except.ok.inj (hg.symm.trans hg₁))
    rw [← hsession] at hg₀
    exact ⟨g₀,g',hg₀,c.saveGroup_groups_self g',hepoch ▸ hlt,hexport hu hx⟩
  · refine ⟨g₀,g₁,hg₀,?_,hlt,hx⟩
    rw [c.saveGroup_groups_of_ne fun h => heq (h.trans hsession)]
    exact hg₁

end MlsSession

namespace ServerHandshakeState
variable {α : Type}

lemma db_stays {I : Connection M → Prop} {x : Db M α} {Q : α → Prop} (h : Exec.Keeps I x Q) :
    Exec.Keeps (fun s : ServerHandshakeState × Connection M => I s.2) (db x) Q :=
  .zoom Prod.snd (fun c s => (s.1,c)) (fun _ _ => rfl) h

lemma sessionUpdate_stays {I : Connection M → Prop} {leafSigner : M.SignatureKeyPair} {seed : ℕ}
    (h : ∀ session : MlsSession, Exec.Keeps I (session.update leafSigner seed) fun _ => True) :
    Exec.Keeps (fun s : ServerHandshakeState × Connection M => I s.2)
      (sessionUpdate leafSigner seed) fun _ => True :=
  .bind .get fun s _ => db_stays (h s.1.mlsSession)

lemma createEpochKeyUpdate_stays {I : Connection M → Prop} :
    Exec.Keeps (fun s : ServerHandshakeState × Connection M => I s.2) createEpochKeyUpdate
      fun _ => True := by
  refine .bind .get fun s _ => .bind (db_stays s.1.mlsSession.createEpochKeyUpdate_invariant)
    fun _ _ => ?_
  exact .mono .orThrow fun _ _ => trivial

lemma processEpochKeyUpdate_stays {I : Connection M → Prop} (keyUpdate : EpochKeyUpdate) :
    Exec.Keeps (fun s : ServerHandshakeState × Connection M => I s.2)
      (processEpochKeyUpdate keyUpdate) fun _ => True :=
  .bind .get fun s _ => db_stays (s.1.mlsSession.processEpochKeyUpdate_invariant keyUpdate)

include hS in
/-- An update of the server hands out no secrets. -/
theorem update_onward (leafSigner : M.SignatureKeyPair) (updateRequested : Bool) (seed : ℕ) :
    Exec.Keeps (fun s : ServerHandshakeState × Connection M => Aged c₀ s.2)
      (update leafSigner updateRequested seed) fun _ => True := by
  refine .bind .get fun s _ => ?_
  split_ifs
  · exact .throw
  · refine .bind (sessionUpdate_stays fun session =>
      MlsSession.update_stays hS session leafSigner seed) fun m _ => ?_
    refine .bind (.mono .orThrow fun _ _ => trivial) fun bytes _ => ?_
    exact .bind (.modify fun s hs => hs) fun _ _ => .pure trivial

include hS hexport in
lemma processUpdate_new (leafSigner : M.SignatureKeyPair) (update : ConnectionUpdateIn M)
    (seed : ℕ) : Exec.Triple (fun s : ServerHandshakeState × Connection M => Aged c₀ s.2)
      (processUpdate leafSigner update seed) (fun r s => Aged c₀ s.2 ∧ New c₀ s.2 r.1)
      fun _ s => Aged c₀ s.2 := by
  refine .bind (.zoom (fun _ _ => rfl) (MlsSession.processMlsUpdate_aged hS update.mlsCommit true))
    fun r => ?_
  obtain ⟨secrets,session,identity⟩ := r
  have hrest : Exec.Keeps (fun s : ServerHandshakeState × Connection M => Aged c₀ s.2 ∧
      New c₀ s.2 secrets) (do
        setInternalState .running
        Exec.modify fun s => ({ s.1 with mlsSession := session },s.2)
        let responseBytes ← createEpochKeyUpdate
        if update.updateRequested.toBool then do
          let mlsCommit ← sessionUpdate leafSigner seed
          setInternalState .waitingForUpdate
          let connectionUpdateBytes ← serialize (SignalingMessageOut.wire M)
            (.connectionUpdate ⟨.ofBool false,mlsCommit⟩)
          pure (secrets,connectionUpdateBytes)
        else pure (secrets,responseBytes)) fun r => r.1 = secrets := by
    refine .bind (.modify fun _ hs => hs) fun _ _ => .bind (.modify fun _ hs => hs) fun _ _ => ?_
    refine .bind (createEpochKeyUpdate_stays (I := fun c => Aged c₀ c ∧ New c₀ c secrets))
      fun responseBytes _ => ?_
    split_ifs
    · refine .bind (sessionUpdate_stays (I := fun c => Aged c₀ c ∧ New c₀ c secrets) fun session =>
        MlsSession.update_stays_new hS hexport session leafSigner seed secrets) fun commit _ => ?_
      refine .bind (.modify fun _ hs => hs) fun _ _ => ?_
      exact .bind (.mono .orThrow fun _ _ => trivial) fun _ _ => .pure rfl
    · exact .pure rfl
  refine hrest.conseq (fun _ hs => hs) (fun r s hs => ?_) fun _ _ hs => hs.1
  rw [hs.2]
  exact hs.1

/-- If the server waits for a confirmation, then of a commit that is still pending. -/
def Backed (s : ServerHandshakeState × Connection M) : Prop :=
  s.1.internalState = .waitingForUpdate →
    ∀ g, s.2.groups s.1.mlsSession.groupId = .ok (some g) → M.hasPendingCommit g = true

include hS in
lemma receiveEpochKeyUpdate_new (epochKeyUpdate : EpochKeyUpdate) (messageType : String) :
    Exec.Triple (fun s : ServerHandshakeState × Connection M => Aged c₀ s.2 ∧ Backed s)
      (receiveEpochKeyUpdate epochKeyUpdate messageType) (fun r s => Aged c₀ s.2 ∧ New c₀ s.2 r.1)
      fun _ s => Aged c₀ s.2 := by
  rintro ⟨st,c⟩ ⟨hc,hbacked⟩
  rw [receiveEpochKeyUpdate,Exec.bind_of_ok (Exec.get_run _)]
  cases hi : st.internalState with
  | running =>
    simp only [isWaitingForResponse,hi,Bool.false_eq_true,not_false_eq_true,if_true,
      Exec.throw_run]
    exact hc
  | waitingForUpdate =>
    simp only [isWaitingForResponse,hi,not_true_eq_false,if_false]
    rcases hg : c.groups st.mlsSession.groupId with e | _ | g
    · simp only [session,MlsSession.mergeUpdate,MlsSession.db,MlsSession.loadGroup,Exec.bind_run,
        Exec.get_run,Exec.zoom_run,hg,Exec.lift_error]
      exact hc
    · simp only [session,MlsSession.mergeUpdate,MlsSession.db,MlsSession.loadGroup,Exec.bind_run,
        Exec.get_run,Exec.zoom_run,hg,Exec.lift_ok,Exec.orThrow_none]
      exact hc
    · rcases MlsSession.mergeUpdate_cases st.mlsSession hg with
        ⟨e,-,hrun⟩ | ⟨g',hm,⟨secrets,hx,hrun⟩ | ⟨-,e,hrun⟩⟩
      · rw [Exec.bind_run,session_run hrun]
        exact hc
      · obtain ⟨hid,hepoch,-⟩ := hS.mergePending hm
        have hlt : M.epoch g < M.epoch g' := by
          rw [hepoch,hbacked hi g hg]
          simp
        have hrest : Exec.Keeps (fun s : ServerHandshakeState × Connection M => Aged c₀ s.2 ∧
            New c₀ s.2 secrets) (do
              processEpochKeyUpdate epochKeyUpdate
              let messageBytes ← createEpochKeyUpdate
              setInternalState .running
              pure (secrets,some messageBytes)) fun r => r.1 = secrets := by
          refine .bind (processEpochKeyUpdate_stays (I := fun c => Aged c₀ c ∧ New c₀ c secrets)
            epochKeyUpdate) fun _ _ => ?_
          refine .bind (createEpochKeyUpdate_stays (I := fun c => Aged c₀ c ∧ New c₀ c secrets))
            fun bytes _ => ?_
          exact .bind (.modify fun _ hs => hs) fun _ _ => .pure rfl
        rw [Exec.bind_of_ok (session_run hrun)]
        refine hrest.conseq (fun _ hs => hs) (fun r s hs => ?_) (fun _ _ hs => hs.1) _
          ⟨hc.saveGroup hg hid hlt.le,hc.new hg hid hlt hx⟩
        rw [hs.2]
        exact hs.1
      · obtain ⟨hid,hepoch,-⟩ := hS.mergePending hm
        rw [Exec.bind_run,session_run hrun]
        exact hc.saveGroup hg hid (by rw [hepoch]; omega)

/-- The bytes are a confirmation. -/
def IsConfirmation (M : OpenMls) (messageBytes : Bytes) : Prop :=
  ∃ update, (SignalingMessageIn.wire M).decExact messageBytes = some (.epochKeyUpdate update)

instance (messageBytes : Bytes) : Decidable (IsConfirmation M messageBytes) :=
  decidable_of_iff ((match (SignalingMessageIn.wire M).decExact messageBytes with
    | some (.epochKeyUpdate _) => true
    | _ => false) = true) (by
      unfold IsConfirmation
      cases (SignalingMessageIn.wire M).decExact messageBytes with
      | none => simp
      | some message => cases message <;> simp)

instance (s : ServerHandshakeState × Connection M) : Decidable (Backed s) :=
  decidable_of_iff (s.1.internalState = .waitingForUpdate →
    (match s.2.groups s.1.mlsSession.groupId with
    | .ok (some g) => M.hasPendingCommit g
    | _ => true) = true) (by
      unfold Backed
      rcases s.2.groups s.1.mlsSession.groupId with e | _ | g <;> simp)

include hS hexport in
/-- Whatever the server receives, the secrets it hands out are new, unless it takes a confirmation
for one of a commit that is pending no more. -/
theorem receiveSignalingMessage_new (hfiled : Roster.Filed c₀) (leafSigner : M.SignatureKeyPair)
    {messageBytes : Bytes} (seed : ℕ) {st : ServerHandshakeState}
    (hbacked : IsConfirmation M messageBytes → Backed (st,c₀)) :
    Exec.Triple (fun s => s = (st,c₀)) (receiveSignalingMessage leafSigner messageBytes seed)
      (fun r s => Aged c₀ s.2 ∧ New c₀ s.2 r.1) fun _ s => Aged c₀ s.2 := by
  have haged (s : ServerHandshakeState × Connection M) (hs : s = (st,c₀)) : Aged c₀ s.2 := by
    rw [hs]
    exact .refl hfiled
  refine Exec.Keeps.andThen .orThrow (fun _ => haged) fun message hmessage => ?_
  cases message with
  | connectionUpdate update =>
    refine .bind (.pre (processUpdate_new hS hexport leafSigner update seed) haged) fun r => ?_
    exact .pure fun s hs => hs
  | connectionConfirmation confirmation => exact .throw haged
  | epochKeyUpdate update =>
    refine .pre (receiveEpochKeyUpdate_new hS update _) fun s hs => ⟨haged s hs,?_⟩
    rw [hs]
    exact hbacked ⟨update,hmessage⟩
  | keyUpdate update => exact .panic haged

end ServerHandshakeState

namespace ServerHandshake

/-- Secrets of the group that was made for the connection. -/
def Founded (groupId : GroupId) (c : Connection M) (secrets : TrafficSecrets) : Prop :=
  ∃ g, M.groupId g = groupId ∧ c.groups groupId = .ok (some g) ∧ MlsSession.Exports g secrets

lemma createServerSession_founded (hM : KeepsIds M) {leafSigner : M.SignatureKeyPair}
    {keyPackageIn : M.KeyPackageIn} {groupId : GroupId} {seed : ℕ} {c c' : Connection M}
    {r : MlsSession × TrafficSecrets × ClientIdentity × M.Message}
    (h : (MlsSession.createServerSession leafSigner keyPackageIn groupId seed).run c = (.ok r,c')) :
    Founded groupId c' r.2.1 := by
  obtain ⟨session,secrets,identity,welcome⟩ := r
  obtain ⟨keyPackage,g,g',g'',-,hbuild,hadd,hmerge,-,hexp,-⟩ := MlsSession.createServerSession_ok h
  obtain ⟨hx,rfl⟩ := exports_of_export hexp
  have hid : M.groupId g'' = groupId := by
    rw [hM.mergePending hmerge,hM.add hadd,hM.build hbuild]
  exact ⟨g'',hid,Connection.saveGroup_groups _ hid,hx⟩

lemma createServerSession_onward (hM : KeepsIds M) (hfiled : Roster.Filed c₀)
    (leafSigner : M.SignatureKeyPair) (keyPackageIn : M.KeyPackageIn) (groupId : GroupId) (seed : ℕ) :
    Exec.Triple (fun c => c = c₀)
      (MlsSession.createServerSession leafSigner keyPackageIn groupId seed)
      (fun r c => Onward {groupId} c₀ c ∧ Founded groupId c r.2.1) fun _ => Onward {groupId} c₀ := by
  rintro c rfl
  have hall := MlsSession.createServerSession_inPart hM leafSigner keyPackageIn
    (Set.mem_univ groupId) seed
  have hown := MlsSession.createServerSession_inPart hM leafSigner keyPackageIn
    (Set.mem_singleton groupId) seed
  have honward : Onward {groupId} c
      ((MlsSession.createServerSession leafSigner keyPackageIn groupId seed).run c).2 := by
    refine ⟨fun j g hg => ?_,fun {j g'} hj hg => ⟨g',?_,le_rfl⟩⟩
    · exact hall.keeps (hfiled.part Set.univ) ⟨j,Set.mem_univ j⟩ g hg
    · rw [← hown.frame (w := fun c => c.groups j) (fun t c => c.replace_groups_of_notMem t hj)
        (hfiled.part {groupId})]
      exact hg
  rcases hrun : (MlsSession.createServerSession leafSigner keyPackageIn groupId seed).run c
    with ⟨f | r,c'⟩
  · rw [hrun] at honward
    exact honward
  · rw [hrun] at honward
    exact ⟨honward,createServerSession_founded hM hrun⟩

/-- A connection starts with secrets of its own group, or with new ones of the group it resumes. -/
structure Starts (groupId : GroupId) (c₀ c : Connection M) (secrets : TrafficSecrets) : Prop where
  onward : Onward {groupId} c₀ c
  secrets : New c₀ c secrets ∨ Founded groupId c secrets

include hS in
/-- Whatever the first message is, a connection that starts does so with secrets of its own. -/
theorem start_new (hM : KeepsIds M) (hfiled : Roster.Filed c₀) (leafSigner : M.SignatureKeyPair)
    (messageBytes : Bytes) (groupId : GroupId) (seed : ℕ) :
    Exec.Triple (fun c => c = c₀) (start leafSigner messageBytes groupId seed)
      (fun r c => Starts groupId c₀ c r.2.1) fun _ => Onward {groupId} c₀ := by
  have hrefl (c : Connection M) (hc : c = c₀) : Onward {groupId} c₀ c := by
    rw [hc]
    exact .refl hfiled
  refine Exec.Keeps.andThen .orThrow (fun _ => hrefl) fun message _ => ?_
  have hversion : Exec.Keeps (fun c => c = c₀)
      (message.checkVersion : Db M Unit) fun _ => True := by
    unfold MlsTlsHandshakeIn.checkVersion
    split_ifs
    · exact .throw
    · exact .pure trivial
  refine hversion.andThen (fun _ => hrefl) fun _ _ => ?_
  cases message.payload with
  | clientHello clientHello =>
    simp only [processClientHello]
    split
    · refine .bind (createServerSession_onward hM hfiled leafSigner _ groupId seed) ?_
      rintro ⟨session,secrets,identity,welcome⟩
      refine Exec.Keeps.andThen .orThrow (fun _ c hc => hc.1) fun bytes _ => ?_
      exact .pure fun c hc => ⟨hc.1,Or.inr hc.2⟩
    · exact .throw hrefl
  | resumption resumption =>
    refine .bind (.conseq (MlsSession.processMlsUpdate_aged hS resumption.commit true)
      (fun c hc => by rw [hc]; exact .refl hfiled) (fun _ _ hc => hc) fun _ _ hc => .of_aged hc)
      fun r => ?_
    obtain ⟨secrets,session,identity⟩ := r
    have hconfirm : Exec.Keeps (fun c : Connection M => Aged c₀ c ∧ New c₀ c secrets)
        (createConnectionConfirmation ⟨session,.running⟩) fun _ => True := by
      refine .bind session.createEpochKeyUpdate_invariant fun _ _ => ?_
      exact .mono .orThrow fun _ _ => trivial
    refine hconfirm.andThen (fun _ c hc => .of_aged hc.1) fun bytes _ => ?_
    exact .pure fun c hc => ⟨.of_aged hc.1,Or.inl hc.2⟩

end ServerHandshake

lemma MlsSession.delete_onward (session : MlsSession) {fresh : Set GroupId} :
    Exec.Keeps (Onward fresh c₀) session.delete fun _ => True := by
  refine .bind (.mono (loadGroup_invariant session.groupId) fun _ _ => trivial) fun group _ => ?_
  exact .modify fun c hc => hc.deleteGroup (M.groupId group)
end
end MlsTls.MlsHandshake
