import MlsTls.MlsHandshake.Persisted

/-! What the client's calls do to the epochs of its groups. No group ever goes back, and every
secret that a call hands out or keeps is of an epoch that was not there before the call, unless it
was already kept. -/
namespace MlsTls.MlsHandshake
open Lib TlsAead
variable {M : OpenMls}

/-- The groups of `c` are those of `c₀`, each in the same epoch or a later one. -/
structure Aged (c₀ c : Connection M) : Prop where
  filed : Roster.Filed c
  later : ∀ {j g}, c₀.groups j = .ok (some g) →
    ∃ g', c.groups j = .ok (some g') ∧ M.epoch g ≤ M.epoch g'
  earlier : ∀ {j g'}, c.groups j = .ok (some g') →
    ∃ g, c₀.groups j = .ok (some g) ∧ M.epoch g ≤ M.epoch g'

/-- Secrets of a stored group that has left the epoch it had in `c₀`. -/
def New (c₀ c : Connection M) (secrets : TrafficSecrets) : Prop :=
  ∃ g g', c₀.groups (M.groupId g') = .ok (some g) ∧ c.groups (M.groupId g') = .ok (some g') ∧
    M.epoch g < M.epoch g' ∧ MlsSession.Exports g' secrets

lemma Roster.Filed.saveGroup {c : Connection M} (h : Roster.Filed c) (g : M.Group) :
    Roster.Filed (c.saveGroup g) := by
  intro i g' hi
  by_cases heq : M.groupId g = i
  · rw [c.saveGroup_groups heq] at hi
    rwa [← Option.some.inj (Except.ok.inj hi)]
  · rw [c.saveGroup_groups_of_ne (Ne.symm heq)] at hi
    exact h i g' hi

lemma WaitingForServerHello.receiveServerHello_exports (waiting : WaitingForServerHello)
    (messageBytes : Bytes) :
    Exec.Triple Roster.Filed (waiting.receiveServerHello messageBytes : Db M _)
      (fun r c => Roster.Filed c ∧ r.1.internalState = .running ∧
        ∃ g, c.groups (M.groupId g) = .ok (some g) ∧ MlsSession.Exports g r.2)
      fun _ _ => True := by
  refine Exec.Keeps.andThen .orThrow (fun _ _ _ => trivial) fun hello _ => ?_
  cases M.extract hello.welcome with
  | welcome welcome =>
    refine Exec.Keeps.andThen .get (fun _ _ _ => trivial) fun c _ => ?_
    refine Exec.Keeps.andThen .lift (fun _ _ _ => trivial) fun p _ => ?_
    refine Exec.Keeps.andThen (.modify fun _ hc => hc) (fun _ _ _ => trivial) fun _ _ => ?_
    refine Exec.Keeps.andThen .lift (fun _ _ _ => trivial) fun sender _ => ?_
    split_ifs
    · exact .throw fun _ _ => trivial
    · refine Exec.Keeps.andThen .lift (fun _ _ _ => trivial) fun group _ => ?_
      refine .bind (Q := fun _ c => Roster.Filed c ∧ c.groups (M.groupId group) = .ok (some group))
        (.modify fun c hc => ⟨hc.saveGroup group,c.saveGroup_groups_self group⟩) fun _ => ?_
      refine .bind (Q := fun t c => Roster.Filed c ∧
          c.groups (M.groupId group) = .ok (some group) ∧ MlsSession.Exports group t) ?_
        fun t => .pure fun c hc => ⟨hc.1,rfl,group,hc.2⟩
      intro c hc
      rcases MlsSession.exportTrafficSecrets_cases group c with ⟨t,hx,hrun⟩ | ⟨-,e,hrun⟩
      · rw [hrun]
        exact ⟨hc.1,hc.2,hx⟩
      · rw [hrun]
        trivial
  | privateMessage _ => exact .throw fun _ _ => trivial
  | keyPackage _ => exact .throw fun _ _ => trivial
  | other => exact .throw fun _ _ => trivial

namespace Aged
variable {c₀ c c' : Connection M}

theorem refl (h : Roster.Filed c) : Aged c c :=
  ⟨h,fun hg => ⟨_,hg,le_rfl⟩,fun hg => ⟨_,hg,le_rfl⟩⟩

theorem trans (h : Aged c₀ c) (h' : Aged c c') : Aged c₀ c' := by
  refine ⟨h'.filed,fun hg => ?_,fun hg => ?_⟩
  · obtain ⟨g,hg,hle⟩ := h.later hg
    obtain ⟨g',hg',hle'⟩ := h'.later hg
    exact ⟨g',hg',hle.trans hle'⟩
  · obtain ⟨g,hg,hle⟩ := h'.earlier hg
    obtain ⟨g₀,hg₀,hle₀⟩ := h.earlier hg
    exact ⟨g₀,hg₀,hle₀.trans hle⟩

theorem congr (h : Aged c₀ c) (hc : c'.groups = c.groups) : Aged c₀ c' := by
  refine ⟨?_,?_,?_⟩
  · unfold Roster.Filed
    rw [hc]
    exact h.filed
  · rw [hc]
    exact h.later
  · rw [hc]
    exact h.earlier

/-- A group is written back in the same epoch or a later one. -/
theorem saveGroup (h : Aged c₀ c) {j : GroupId} {g g' : M.Group} (hg : c.groups j = .ok (some g))
    (hid : M.groupId g' = M.groupId g) (hle : M.epoch g ≤ M.epoch g') :
    Aged c₀ (c.saveGroup g') := by
  obtain rfl : M.groupId g' = j := hid.trans (h.filed _ _ hg)
  refine ⟨h.filed.saveGroup g',?_,?_⟩
  · intro i g₀ hi
    obtain ⟨g₁,hg₁,hle₁⟩ := h.later hi
    by_cases heq : M.groupId g' = i
    · subst heq
      obtain rfl := Option.some.inj (Except.ok.inj (hg.symm.trans hg₁))
      exact ⟨g',c.saveGroup_groups_self g',hle₁.trans hle⟩
    · exact ⟨g₁,by rw [c.saveGroup_groups_of_ne (Ne.symm heq)]; exact hg₁,hle₁⟩
  · intro i g₁ hi
    by_cases heq : M.groupId g' = i
    · subst heq
      rw [c.saveGroup_groups_self] at hi
      obtain rfl := Option.some.inj (Except.ok.inj hi)
      obtain ⟨g₀,hg₀,hle₀⟩ := h.earlier hg
      exact ⟨g₀,hg₀,hle₀.trans hle⟩
    · rw [c.saveGroup_groups_of_ne (Ne.symm heq)] at hi
      exact h.earlier hi

/-- The group that was written exports new secrets if it is in a later epoch. -/
theorem new (h : Aged c₀ c) {j : GroupId} {g g' : M.Group} (hg : c.groups j = .ok (some g))
    (hid : M.groupId g' = M.groupId g) (hlt : M.epoch g < M.epoch g') {secrets : TrafficSecrets}
    (hx : MlsSession.Exports g' secrets) : New c₀ (c.saveGroup g') secrets := by
  obtain rfl : M.groupId g' = j := hid.trans (h.filed _ _ hg)
  obtain ⟨g₀,hg₀,hle⟩ := h.earlier hg
  exact ⟨g₀,g',hg₀,c.saveGroup_groups_self g',hle.trans_lt hlt,hx⟩

end Aged

theorem New.congr {c₀ c c' : Connection M} {secrets : TrafficSecrets} (h : New c₀ c secrets)
    (hc : c'.groups = c.groups) : New c₀ c' secrets := by
  unfold New
  rw [hc]
  exact h

section
variable {S : Standing M} (hS : S.Lawful)
  (hcommit : ∀ {signer seed g m g'}, M.selfUpdate signer seed g = .ok (m,g') →
    M.hasPendingCommit g' = true) {c₀ : Connection M}
include hS

namespace MlsSession

include hcommit in
lemma update_aged (session : MlsSession) (leafSigner : M.SignatureKeyPair) (seed : ℕ) :
    Exec.Triple (Aged c₀) (session.update leafSigner seed)
      (fun _ c => Aged c₀ c ∧
        ∃ g, c.groups session.groupId = .ok (some g) ∧ M.hasPendingCommit g = true)
      fun _ => Aged c₀ := by
  intro c hc
  rcases hg : c.groups session.groupId with e | _ | g
  · simp only [MlsSession.update,loadGroup,Exec.bind_run,Exec.get_run,hg,Exec.lift_error]
    exact hc
  · simp only [MlsSession.update,loadGroup,Exec.bind_run,Exec.get_run,hg,Exec.lift_ok,
      Exec.orThrow_none]
    exact hc
  · rcases update_cases session hg leafSigner seed with ⟨e,-,hrun⟩ | ⟨commit,g',hu,hrun⟩
    · rw [hrun]
      exact hc
    · rw [hrun]
      obtain ⟨hid,hepoch⟩ := hS.selfUpdate hu
      have hsession : M.groupId g' = session.groupId := hid.trans (hc.filed _ _ hg)
      exact ⟨hc.saveGroup hg hid hepoch.ge,g',c.saveGroup_groups hsession,hcommit hu⟩

lemma processMlsUpdate_aged (mlsMessage : M.Message) (drop : Bool) :
    Exec.Triple (Aged c₀) (processMlsUpdate mlsMessage drop)
      (fun r c => Aged c₀ c ∧ New c₀ c r.1) fun _ => Aged c₀ := by
  intro c hc
  rcases stored_cases c mlsMessage with hnone | ⟨message,g,he,hg⟩
  · obtain ⟨e,hrun⟩ := processMlsUpdate_nothing drop hnone
    rw [hrun]
    exact hc
  · have hproc := processMlsUpdate_processed hS he hg drop
    generalize (processMlsUpdate mlsMessage drop).run c = r at hproc ⊢
    cases hproc with
    | panicked hroom => exact hc
    | unsettled e hroom hno => exact hc
    | rejected e hs hno =>
      obtain ⟨hid,hepoch,-⟩ := hS.process message _
      refine hc.saveGroup hg (hid.trans (hs.groupId_eq hS)) ?_
      rw [hepoch]
      exact hs.epoch_le hS
    | unexported e hs ha hx =>
      exact hc.saveGroup hg (ha.groupId_stored hS hs) (ha.lt_epoch hS hs).le
    | merged hs ha hx =>
      have hid := ha.groupId_stored hS hs
      have hlt := ha.lt_epoch hS hs
      exact ⟨hc.saveGroup hg hid hlt.le,hc.new hg hid hlt hx⟩

end MlsSession
end

/-- The update that a client would resume with. -/
def ClientInternalState.pending : ClientInternalState M → Option (PendingUpdate M)
  | .waitingForEpochKeyUpdate pending => some pending
  | .waitingForConnectionConfirmation pending => some pending
  | .running => none
  | .waitingForEpochKeyUpdateReturn _ => none

namespace ClientHandshakeState

/-- A client that has gone on from the internal state `i` and the database `c₀`: an update it
would resume with is the one it had, or it is new. -/
structure Since (i : ClientInternalState M) (c₀ : Connection M)
    (s : ClientHandshakeState M × Connection M) : Prop where
  aged : Aged c₀ s.2
  pending : ∀ p ∈ s.1.internalState.pending, p ∈ i.pending ∨ New c₀ s.2 p.trafficSecrets

/-- Nothing is left to resume with. -/
def Unpending (_ : Uuid) (i : ClientInternalState M) : Prop := i.pending = none

variable {i : ClientInternalState M} {c₀ : Connection M}
  {s : ClientHandshakeState M × Connection M} {α : Type}

theorem Since.refl {st : ClientHandshakeState M} (h : Roster.Filed c₀) :
    Since st.internalState c₀ (st,c₀) := ⟨.refl h,fun _ hp => Or.inl hp⟩

theorem Since.of_unpending (h : Holds Unpending (Aged c₀) s) : Since i c₀ s :=
  ⟨h.db,fun p hp => by rw [h.state] at hp; simp at hp⟩

lemma storeUpdate_since (J : Serde M) (st : ClientHandshakeState M) {N : Connection M → Prop}
    (hN : ∀ {c c'}, N c → c'.groups = c.groups → N c') :
    Exec.Keeps (fun s => Since i c₀ s ∧ N s.2) (db (storeUpdate J st)) fun _ => True := by
  intro s hs
  have hgroups := storeUpdate_groups J st s.2
  rw [db,Exec.zoom_run]
  generalize (storeUpdate J st).run s.2 = r at hgroups ⊢
  obtain ⟨r,c'⟩ := r
  have hsince : Since i c₀ (s.1,c') :=
    ⟨hs.1.aged.congr hgroups,fun p hp => (hs.1.pending p hp).imp_right fun h => h.congr hgroups⟩
  cases r with
  | ok a => exact ⟨⟨hsince,hN hs.2 hgroups⟩,trivial⟩
  | error f => exact ⟨hsince,hN hs.2 hgroups⟩

section
variable {S : Standing M} (hS : S.Lawful)
  (hcommit : ∀ {signer seed g m g'}, M.selfUpdate signer seed g = .ok (m,g') →
    M.hasPendingCommit g' = true)
include hS

include hcommit in
lemma sessionUpdate_aged (leafSigner : M.SignatureKeyPair) (seed : ℕ) :
    Exec.Triple (Holds Unpending (Aged c₀)) (sessionUpdate leafSigner seed)
      (fun _ s => Holds Unpending (Aged c₀) s ∧
        ∃ g, s.2.groups s.1.mlsSession.groupId = .ok (some g) ∧ M.hasPendingCommit g = true)
      fun _ => Holds Unpending (Aged c₀) := by
  intro s hs
  have hx := MlsSession.update_aged hS hcommit s.1.mlsSession leafSigner seed s.2 hs.db
  simp only [sessionUpdate,Exec.bind_run,Exec.get_run,db,Exec.zoom_run]
  generalize (s.1.mlsSession.update leafSigner seed).run s.2 = r at hx ⊢
  obtain ⟨f | m,c⟩ := r
  · exact ⟨hs.state,hx⟩
  · exact ⟨⟨hs.state,hx.1⟩,hx.2⟩

lemma mergeUpdate_aged :
    Exec.Triple (fun s => Holds Unpending (Aged c₀) s ∧
        ∃ g, s.2.groups s.1.mlsSession.groupId = .ok (some g) ∧ M.hasPendingCommit g = true)
      (session MlsSession.mergeUpdate)
      (fun t => Holds Unpending fun c => Aged c₀ c ∧ New c₀ c t)
      fun _ => Holds Unpending (Aged c₀) := by
  rintro s ⟨hs,g,hg,hp⟩
  have hlater {g' : M.Group} (hm : M.mergePendingCommit g = .ok g') :
      M.groupId g' = M.groupId g ∧ M.epoch g < M.epoch g' := by
    obtain ⟨hid,hepoch,-⟩ := hS.mergePending hm
    rw [hp] at hepoch
    exact ⟨hid,by rw [hepoch]; simp⟩
  rcases MlsSession.mergeUpdate_cases s.1.mlsSession hg with
    ⟨e,-,hrun⟩ | ⟨g',hm,⟨secrets,hx,hrun⟩ | ⟨-,e,hrun⟩⟩
  · rw [session_run hrun]
    exact hs
  · obtain ⟨hid,hlt⟩ := hlater hm
    rw [session_run hrun]
    exact ⟨hs.state,hs.db.saveGroup hg hid hlt.le,hs.db.new hg hid hlt hx⟩
  · obtain ⟨hid,hlt⟩ := hlater hm
    rw [session_run hrun]
    exact ⟨hs.state,hs.db.saveGroup hg hid hlt.le⟩

include hcommit in
lemma commit_since {k : M.Message → TrafficSecrets → Call M α}
    {Q : α → ClientHandshakeState M × Connection M → Prop} (leafSigner : M.SignatureKeyPair)
    (seed : ℕ) (hk : ∀ m t, Exec.Triple (Holds Unpending fun c => Aged c₀ c ∧ New c₀ c t) (k m t) Q
      fun _ => Since i c₀) :
    Exec.Triple (Holds Unpending (Aged c₀)) (do
      let m ← sessionUpdate leafSigner seed
      let t ← session MlsSession.mergeUpdate
      k m t) Q fun _ => Since i c₀ := by
  have hfail (f : Fault (HandshakeError M.Error)) (s : ClientHandshakeState M × Connection M) :
      Holds Unpending (Aged c₀) s → Since i c₀ s := Since.of_unpending
  refine .bind ((sessionUpdate_aged hS hcommit leafSigner seed).failing hfail) fun m => ?_
  exact .bind ((mergeUpdate_aged hS).failing hfail) (hk m)

/-- The secrets that an update hands out are new. -/
def HandsOut (c₀ : Connection M) (secret : ClientSecret) (c : Connection M) : Prop :=
  ∃ secrets, New c₀ c secrets ∧ secrets.clientSecret = secret

omit hS in
lemma HandsOut.congr {secret : ClientSecret} {c c' : Connection M} (h : HandsOut c₀ secret c)
    (hc : c'.groups = c.groups) : HandsOut c₀ secret c' := by
  obtain ⟨secrets,hnew,heq⟩ := h
  exact ⟨secrets,hnew.congr hc,heq⟩

omit hS in
lemma since_of_new {st : ClientHandshakeState M} {c : Connection M} {p : PendingUpdate M}
    (h : Aged c₀ c ∧ New c₀ c p.trafficSecrets) (hst : st.internalState.pending = some p) :
    Since i c₀ (st,c) := by
  refine ⟨h.1,fun p' hp' => Or.inr ?_⟩
  rw [hst] at hp'
  obtain rfl := Option.some.inj hp'
  exact h.2

include hcommit in
theorem update_since (hfiled : Roster.Filed c₀) (J : Serde M) (leafSigner : M.SignatureKeyPair)
    (updateRequested : Bool) (seed : ℕ) (st : ClientHandshakeState M) :
    Exec.Triple (fun s => s = (st,c₀)) (update J leafSigner updateRequested seed)
      (fun r s => Since st.internalState c₀ s ∧ HandsOut c₀ r.1 s.2)
      fun _ => Since st.internalState c₀ := by
  rintro s rfl
  rw [update,Exec.bind_of_ok (Exec.get_run _)]
  cases hw : st.isWaitingForResponse with
  | true => exact Since.refl hfiled
  | false =>
    have hrunning := internalState_of_not_waiting hw
    simp only [Bool.false_eq_true,if_false]
    refine commit_since hS hcommit leafSigner seed (fun m t => ?_) (st,c₀)
      ⟨by rw [Unpending,hrunning]; rfl,.refl hfiled⟩
    refine Exec.Keeps.andThen .orThrow (fun _ s hs => .of_unpending ⟨hs.state,hs.db.1⟩)
      fun bytes _ => ?_
    refine .bind (Q := fun _ s => Since st.internalState c₀ s ∧ HandsOut c₀ t.clientSecret s.2)
      (.modify fun s hs => ⟨since_of_new hs.db rfl,t,hs.db.2,rfl⟩) fun _ => ?_
    refine Exec.Keeps.andThen .get (fun _ s hs => hs.1) fun s' _ => ?_
    exact (storeUpdate_since J s'.1 HandsOut.congr).andThen (fun _ s hs => hs.1)
      fun _ _ => .pure fun s hs => hs

include hcommit in
lemma processUpdate_since (leafSigner : M.SignatureKeyPair) (update : ConnectionUpdateIn M)
    (seed : ℕ) : Exec.Triple (Holds Unpending (Aged c₀)) (processUpdate leafSigner update seed)
      (fun r s => Since i c₀ s ∧ HandsOut c₀ r.1 s.2) fun _ => Since i c₀ := by
  refine .bind ((db_triple (MlsSession.processMlsUpdate_aged hS update.mlsCommit false)).failing
    fun _ _ => Since.of_unpending) fun r => ?_
  obtain ⟨secrets,session,identity⟩ := r
  refine .bind (Q := fun _ => Holds Unpending fun c => Aged c₀ c ∧ New c₀ c secrets)
    (.modify fun s hs => ⟨hs.state,hs.db⟩) fun _ => ?_
  refine createEpochKeyUpdate_holds.andThen (fun _ s hs => .of_unpending ⟨hs.state,hs.db.1⟩)
    fun responseBytes _ => ?_
  cases update.updateRequested.toBool with
  | true =>
    refine .pre (commit_since hS hcommit leafSigner seed fun commit t => ?_)
      fun s hs => ⟨hs.state,hs.db.1⟩
    refine .bind (Q := fun _ s => Since i c₀ s ∧ HandsOut c₀ t.clientSecret s.2)
      (.modify fun s hs => ⟨since_of_new hs.db rfl,t,hs.db.2,rfl⟩) fun _ => ?_
    exact Exec.Keeps.andThen .orThrow (fun _ s hs => hs.1) fun _ _ => .pure fun s hs => hs
  | false =>
    refine .bind (.modify fun s hs => ?_) fun _ => .pure fun s hs => hs
    exact ⟨.of_unpending ⟨rfl,hs.db.1⟩,secrets,hs.db.2,rfl⟩

/-- What a message makes the client switch to: new client keys, or keys of the server. -/
def SwitchesTo (c₀ : Connection M) (update : Option SecretUpdate) (c : Connection M) : Prop :=
  ∀ u ∈ update, (∃ secret, u = .serverSecret secret) ∨
    ∃ secret, u = .clientSecret secret ∧ HandsOut c₀ secret c

include hcommit in
lemma receiveConnectionUpdate_since (hfiled : Roster.Filed c₀) (J : Serde M)
    (leafSigner : M.SignatureKeyPair) (update : ConnectionUpdateIn M) (seed : ℕ)
    (st : ClientHandshakeState M) :
    Exec.Triple (fun s => s = (st,c₀)) (receiveConnectionUpdate J leafSigner update seed)
      (fun r s => Since st.internalState c₀ s ∧ SwitchesTo c₀ r.1 s.2)
      fun _ => Since st.internalState c₀ := by
  rintro s rfl
  rw [receiveConnectionUpdate,Exec.bind_of_ok (Exec.get_run _)]
  cases hw : st.isWaitingForResponse with
  | true => exact ⟨.refl hfiled,by simp [SwitchesTo]⟩
  | false =>
    have hrunning := internalState_of_not_waiting hw
    simp only [Bool.false_eq_true,if_false]
    refine Exec.Triple.bind (processUpdate_since hS hcommit leafSigner update seed) (fun r => ?_)
      (st,c₀) ⟨by rw [Unpending,hrunning]; rfl,.refl hfiled⟩
    refine Exec.Keeps.andThen .get (fun _ s hs => hs.1) fun s' _ => ?_
    refine (storeUpdate_since J s'.1 HandsOut.congr).andThen (fun _ s hs => hs.1) fun _ _ => ?_
    refine .pure fun s hs => ⟨hs.1,fun u hu => Or.inr ⟨r.1,?_,hs.2⟩⟩
    exact (Option.some.inj hu).symm

omit hS in
lemma storeUpdate_aged (J : Serde M) (st : ClientHandshakeState M) :
    Exec.Keeps (Aged c₀) (storeUpdate J st) fun _ => True := by
  intro c hc
  have hgroups := storeUpdate_groups J st c
  generalize (storeUpdate J st).run c = r at hgroups ⊢
  obtain ⟨f | a,c'⟩ := r
  · exact hc.congr hgroups
  · exact ⟨hc.congr hgroups,trivial⟩

omit hS in
lemma since_of_keeps {k : Call M (Option SecretUpdate × Option Bytes)}
    (hk : Exec.Keeps (Holds Unpending (Aged c₀)) k
      fun r => ∀ u ∈ r.1, ∃ secret, u = .serverSecret secret) :
    Exec.Triple (Holds Unpending (Aged c₀)) k
      (fun r s => Since i c₀ s ∧ SwitchesTo c₀ r.1 s.2) fun _ => Since i c₀ :=
  .conseq hk (fun _ hs => hs)
    (fun _ _ hs => ⟨.of_unpending hs.1,fun u hu => Or.inl (hs.2 u hu)⟩) fun _ _ => .of_unpending

omit hS in
lemma receiveConnectionConfirmation_since (J : Serde M) (confirmation : EpochKeyUpdate)
    (messageType : String) (hfiled : Roster.Filed c₀) (st : ClientHandshakeState M) :
    Exec.Triple (fun s => s = (st,c₀)) (receiveConnectionConfirmation J confirmation messageType)
      (fun r s => Since i c₀ s ∧ SwitchesTo c₀ r.1 s.2) fun _ => Since i c₀ := by
  rintro s rfl
  rw [receiveConnectionConfirmation,Exec.bind_of_ok (takeInternalState_run st c₀)]
  refine since_of_keeps ?_ _ ⟨rfl,.refl hfiled⟩
  split
  · exact .bind (processEpochKeyUpdate_holds confirmation) fun _ _ =>
      .bind (.modify fun s hs => ⟨rfl,hs.db⟩) fun _ _ => .bind .get fun s _ =>
        .bind (db_holds (storeUpdate_aged J s.1)) fun _ _ => .pure (by simp)
  · exact .throw

omit hS in
lemma receiveEpochKeyUpdate_since (J : Serde M) (update : EpochKeyUpdate) (messageType : String)
    (hfiled : Roster.Filed c₀) (st : ClientHandshakeState M) :
    Exec.Triple (fun s => s = (st,c₀)) (receiveEpochKeyUpdate J update messageType)
      (fun r s => Since i c₀ s ∧ SwitchesTo c₀ r.1 s.2) fun _ => Since i c₀ := by
  rintro s rfl
  rw [receiveEpochKeyUpdate,Exec.bind_of_ok (takeInternalState_run st c₀)]
  refine since_of_keeps ?_ _ ⟨rfl,.refl hfiled⟩
  have hwrite {u : SecretUpdate} (hu : ∃ secret, u = .serverSecret secret) :
      Exec.Keeps (Holds Unpending (Aged c₀))
        (do
          processEpochKeyUpdate update
          let s ← Exec.get
          db (storeUpdate J s.1)
          pure (some u,none) : Call M (Option SecretUpdate × Option Bytes))
        fun r => ∀ u ∈ r.1, ∃ secret, u = .serverSecret secret :=
    .bind (processEpochKeyUpdate_holds update) fun _ _ => .bind .get fun s _ =>
      .bind (db_holds (storeUpdate_aged J s.1)) fun _ _ => .pure (by simpa using hu)
  split
  · exact hwrite ⟨_,rfl⟩
  · exact hwrite ⟨_,rfl⟩
  · exact .throw

include hcommit in
theorem receiveSignalingMessage_since (hfiled : Roster.Filed c₀) (J : Serde M)
    (leafSigner : M.SignatureKeyPair) (messageBytes : Bytes) (seed : ℕ)
    (st : ClientHandshakeState M) :
    Exec.Triple (fun s => s = (st,c₀)) (receiveSignalingMessage J leafSigner messageBytes seed)
      (fun r s => Since st.internalState c₀ s ∧ SwitchesTo c₀ r.1 s.2)
      fun _ => Since st.internalState c₀ := by
  refine Exec.Keeps.andThen .orThrow (fun _ s hs => by rw [hs]; exact .refl hfiled) fun message _ => ?_
  cases message with
  | connectionUpdate update =>
    exact receiveConnectionUpdate_since hS hcommit hfiled J leafSigner update seed st
  | connectionConfirmation confirmation =>
    exact receiveConnectionConfirmation_since J confirmation _ hfiled st
  | epochKeyUpdate update => exact receiveEpochKeyUpdate_since J update _ hfiled st
  | keyUpdate update => exact .panic fun s hs => by rw [hs]; exact .refl hfiled

/-- The secrets of the update that a resumption finds, or new ones. -/
def ResumesWith (i : ClientInternalState M) (c₀ : Connection M) (secrets : TrafficSecrets)
    (c : Connection M) : Prop :=
  (∃ p ∈ i.pending, secrets = p.trafficSecrets) ∨ New c₀ c secrets

include hcommit in
lemma freshResumption_since (leafSigner : M.SignatureKeyPair) (seed : ℕ) :
    Exec.Triple (Holds Unpending (Aged c₀)) (freshResumption leafSigner seed)
      (fun r => Holds Unpending fun c => Aged c₀ c ∧ New c₀ c r.2) fun _ => Since i c₀ := by
  have hfail (f : Fault (HandshakeError M.Error)) (s : ClientHandshakeState M × Connection M) :
      Holds Unpending (Aged c₀) s → Since i c₀ s := Since.of_unpending
  refine .bind ((sessionUpdate_aged hS hcommit leafSigner seed).mapError.failing hfail) fun m => ?_
  exact .bind ((mergeUpdate_aged hS).failing hfail) fun t => .pure fun s hs => hs

omit hS in
lemma resumption_since {m : M.Message} {t : TrafficSecrets}
    {P : ClientHandshakeState M × Connection M → Prop}
    (hP : ∀ s, P s → Holds Unpending (Aged c₀) s ∧ (i.pending = some ⟨m,t⟩ ∨ New c₀ s.2 t)) :
    Exec.Triple P (do
        let messageBytes ← serialize (MlsTlsHandshakeOut.wire M) (.fromPayload (.resumption ⟨m⟩))
        setInternalState (.waitingForConnectionConfirmation ⟨m,t⟩)
        pure (t,messageBytes) : Call M (TrafficSecrets × Bytes))
      (fun r s => Since i c₀ s ∧ ResumesWith i c₀ r.1 s.2) fun _ => Since i c₀ := by
  refine Exec.Keeps.andThen .orThrow (fun _ s hs => .of_unpending (hP s hs).1) fun bytes _ => ?_
  refine .bind (.modify fun s hs => ?_) fun _ => .pure fun s hs => hs
  obtain ⟨hholds,hsecrets⟩ := hP s hs
  refine ⟨⟨hholds.db,fun p hp => ?_⟩,?_⟩
  · obtain rfl := Option.some.inj hp
    exact hsecrets
  · exact hsecrets.imp_left fun hp => ⟨_,hp,rfl⟩

include hcommit in
theorem resume_since (hfiled : Roster.Filed c₀) (leafSigner : M.SignatureKeyPair) (seed : ℕ)
    (st : ClientHandshakeState M) :
    Exec.Triple (fun s => s = (st,c₀)) (resume leafSigner seed)
      (fun r s => Since st.internalState c₀ s ∧ ResumesWith st.internalState c₀ r.1 s.2)
      fun _ => Since st.internalState c₀ := by
  rintro s rfl
  rw [resume,Exec.bind_of_ok (takeInternalState_run st c₀)]
  have hquiet : Holds Unpending (Aged c₀) ({ st with internalState := .running },c₀) :=
    ⟨rfl,.refl hfiled⟩
  have hfresh {i : ClientInternalState M} : Exec.Triple (Holds Unpending (Aged c₀)) (do
        let r ← freshResumption leafSigner seed
        let messageBytes ← serialize (MlsTlsHandshakeOut.wire M) (.fromPayload (.resumption ⟨r.1⟩))
        setInternalState (.waitingForConnectionConfirmation ⟨r.1,r.2⟩)
        pure (r.2,messageBytes) : Call M (TrafficSecrets × Bytes))
      (fun r s => Since i c₀ s ∧ ResumesWith i c₀ r.1 s.2) fun _ => Since i c₀ :=
    .bind (freshResumption_since hS hcommit leafSigner seed) fun _ =>
      resumption_since fun s hs => ⟨⟨hs.state,hs.db.1⟩,Or.inr hs.db.2⟩
  cases hi : st.internalState with
  | running => exact hfresh _ hquiet
  | waitingForEpochKeyUpdateReturn secret => exact hfresh _ hquiet
  | waitingForEpochKeyUpdate pending =>
    exact resumption_since (P := Holds Unpending (Aged c₀)) (fun s hs => ⟨hs,Or.inl rfl⟩) _ hquiet
  | waitingForConnectionConfirmation pending =>
    exact resumption_since (P := Holds Unpending (Aged c₀)) (fun s hs => ⟨hs,Or.inl rfl⟩) _ hquiet

end
end ClientHandshakeState
end MlsTls.MlsHandshake
