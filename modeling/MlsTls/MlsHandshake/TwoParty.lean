import MlsTls.MlsHandshake.MlsGroup

/-! What the handshake relies on of the MLS library for a group of two members, and what follows
for the operations of a session. The state of a group is seen through its `View`: which of the
two members it belongs to, the commits merged since the group was set up, and the member's own
commit that is not merged yet. -/
namespace MlsTls.MlsHandshake
open Lib TlsAead

structure View (M : OpenMls) (Session : Type) where
  session : Session
  isServer : Bool
  commits : List M.Message
  pending : Option M.Message

/-- The vocabulary of the assumptions: sessions, the view of a group, which messages are commits
made by a member after given commits, the randomness a commit was made with, and the secrets
exported after given commits. -/
structure TwoParty (M : OpenMls) where
  Session : Type
  groupId : Session → GroupId
  signer : Session → Bool → M.SignatureKeyPair
  identity : Session → Bool → Bytes
  view : M.Group → Option (View M Session)
  IsCommit : Session → Bool → List M.Message → M.Message → Prop
  seedOf : M.Message → ℕ
  secret : Session → List M.Message → String → Bytes → ℕ → Bytes

structure TwoParty.Lawful {M : OpenMls} (T : TwoParty M) : Prop where
  wire : M.wire.Lawful
  groupId_eq : ∀ {g v}, T.view g = some v → M.groupId g = T.groupId v.session
  epoch_eq : ∀ {g v}, T.view g = some v → M.epoch g = 1+v.commits.length
  hasPendingCommit_eq : ∀ {g v}, T.view g = some v → M.hasPendingCommit g = v.pending.isSome
  hashLength_eq : ∀ {g v}, T.view g = some v → M.hashLength g = HashType.sha2_512.size
  exportSecret_eq : ∀ {g v}, T.view g = some v → ∀ label context length,
    M.exportSecret g label context length = .ok (T.secret v.session v.commits label context length)
  secret_length : ∀ σ ms label context length, (T.secret σ ms label context length).length = length
  selfUpdate_ok : ∀ {g σ i ms}, T.view g = some ⟨σ,i,ms,none⟩ → 1+ms.length+1 < u64Size → ∀ seed,
    ∃ m g', M.selfUpdate (T.signer σ i) seed g = .ok (m,g') ∧ T.view g' = some ⟨σ,i,ms,some m⟩ ∧
      T.IsCommit σ i ms m ∧ T.seedOf m = seed
  mergePendingCommit_ok : ∀ {g σ i ms m}, T.view g = some ⟨σ,i,ms,some m⟩ →
    ∃ g', M.mergePendingCommit g = .ok g' ∧ T.view g' = some ⟨σ,i,ms++[m],none⟩
  clearPendingCommit_ok : ∀ {g σ i ms p}, T.view g = some ⟨σ,i,ms,p⟩ →
    ∃ g', M.clearPendingCommit g = .ok g' ∧ T.view g' = some ⟨σ,i,ms,none⟩
  commit_message : ∀ {σ i ms m}, T.IsCommit σ i ms m → ∃ p, M.extract m = .privateMessage p ∧
    M.messageGroupId p = T.groupId σ ∧ M.messageEpoch p = 1+ms.length
  commit_wire : ∀ {σ i ms m}, T.IsCommit σ i ms m → ∃ e, M.wire.enc m = some e
  /-- A commit of the other member for the current epoch is accepted: it comes from a member, has
  a path with the sender's own credential and no proposals, and can be merged. -/
  process_commit : ∀ {g σ i ms m p}, T.view g = some ⟨σ,i,ms,none⟩ → T.IsCommit σ (!i) ms m →
    M.extract m = .privateMessage p → ∃ leaf staged g' g'' node,
      M.processMessage p g =
        (.ok ⟨.member leaf,.basic (T.identity σ (!i)),.stagedCommitMessage staged⟩,g') ∧
      M.groupId g' = T.groupId σ ∧ M.updatePathLeafNode staged = some node ∧
      node.credential = .basic (T.identity σ (!i)) ∧ M.queuedProposals staged = 0 ∧
      M.mergeStagedCommit staged g' = .ok g'' ∧ T.view g'' = some ⟨σ,i,ms++[m],none⟩
  /-- A commit for an earlier epoch is refused. -/
  process_stale : ∀ {g σ i ms ms' m p q}, T.view g = some ⟨σ,i,ms,q⟩ → T.IsCommit σ (!i) ms' m →
    ms'.length < ms.length → M.extract m = .privateMessage p →
    ∃ e g', M.processMessage p g = (.error e,g') ∧ T.view g' = some ⟨σ,i,ms,q⟩
  /-- The group made for a key package and the group joined with its welcome are one session. -/
  joined : ∀ {clientSigner serverSigner clientId groupId seed seed' bundle keyPackageIn keyPackage g
      g' g'' message welcome bundles bundles' staged group},
    M.buildKeyPackage clientSigner (.basic clientId) seed = .ok bundle →
    M.extract (M.keyPackageMessage (M.keyPackage bundle)) = .keyPackage keyPackageIn →
    M.validate keyPackageIn = .ok keyPackage →
    M.buildGroup groupId serverSigner (.basic MlsSession.serverIdentity) seed' = .ok g →
    M.addMembers serverSigner keyPackage seed' g = .ok (message,g') →
    M.mergePendingCommit g' = .ok g'' →
    M.extract message = .welcome welcome →
    M.newFromWelcome bundles welcome = .ok (staged,bundles') →
    M.intoGroup staged = .ok group →
    ∃ σ, T.groupId σ = groupId ∧ T.signer σ false = clientSigner ∧ T.signer σ true = serverSigner ∧
      T.identity σ false = clientId ∧ T.view g'' = some ⟨σ,true,[],none⟩ ∧
      T.view group = some ⟨σ,false,[],none⟩

namespace TwoParty
variable {M : OpenMls} (T : TwoParty M)

/-- The traffic secrets exported after given commits. -/
def secrets (σ : T.Session) (ms : List M.Message) : TrafficSecrets :=
  ⟨⟨T.secret σ ms (exportLabel clientTrafficSecretLabel) [] HashType.sha2_512.size⟩,
    ⟨T.secret σ ms (exportLabel serverTrafficSecretLabel) [] HashType.sha2_512.size⟩⟩

/-- The database holds the group with this view. -/
def GroupAt (v : View M T.Session) (c : Connection M) : Prop :=
  ∃ g, c.groups (T.groupId v.session) = .ok (some g) ∧ T.view g = some v

variable {T} (hT : T.Lawful) {σ : T.Session} {i : Bool} {ms : List M.Message}
  {pending : Option M.Message} {m : M.Message} {c : Connection M}

lemma loadGroup_run {g : M.Group} {j : GroupId} (h : c.groups j = .ok (some g)) :
    (MlsSession.loadGroup j).run c = (.ok g,c) := by
  simp [MlsSession.loadGroup,Exec.bind_run,h]

lemma persist_run {f : BoxedError M.Error → HandshakeError M.Error} {r : Except M.Error M.Group}
    {g : M.Group} (h : r = .ok g) : (MlsSession.persist f r).run c = (.ok g,c.saveGroup g) := by
  subst h
  rfl

include hT

lemma groupAt_saveGroup {g : M.Group} {v : View M T.Session} (h : T.view g = some v)
    (c : Connection M) : T.GroupAt v (c.saveGroup g) :=
  ⟨g,c.saveGroup_groups (hT.groupId_eq h),h⟩

lemma exportTrafficSecrets_run {g : M.Group} {v : View M T.Session} (h : T.view g = some v)
    (c : Connection M) :
    (exportTrafficSecrets g).run c = (.ok (T.secrets v.session v.commits),c) := by
  simp only [exportTrafficSecrets,Exec.bind_run,hT.exportSecret_eq h,hT.hashLength_eq h,Exec.lift_ok,
    Exec.pure_run]
  rfl

theorem update_run (h : T.GroupAt ⟨σ,i,ms,none⟩ c) (hlen : 1+ms.length+1 < u64Size) (e seed : ℕ) :
    ∃ m c', (MlsSession.update ⟨T.groupId σ,e⟩ (T.signer σ i) seed).run c = (.ok m,c') ∧
      T.GroupAt ⟨σ,i,ms,some m⟩ c' ∧ T.IsCommit σ i ms m ∧ T.seedOf m = seed ∧
      c'.handshakeStates = c.handshakeStates := by
  obtain ⟨g,hg,hv⟩ := h
  obtain ⟨m,g',hu,hv',hm,hs⟩ := hT.selfUpdate_ok hv hlen seed
  refine ⟨m,c.saveGroup g',?_,groupAt_saveGroup hT hv' c,hm,hs,rfl⟩
  simp only [MlsSession.update,Exec.bind_of_ok (loadGroup_run hg),hu,Exec.bind_run,Exec.lift_ok,
    Exec.modify_run,Exec.pure_run]

theorem mergeUpdate_run (h : T.GroupAt ⟨σ,i,ms,some m⟩ c) (e : ℕ) :
    ∃ c', MlsSession.mergeUpdate.run (⟨T.groupId σ,e⟩,c) =
        (.ok (T.secrets σ (ms++[m])),(⟨T.groupId σ,1+(ms++[m]).length⟩,c')) ∧
      T.GroupAt ⟨σ,i,ms++[m],none⟩ c' ∧ c'.handshakeStates = c.handshakeStates := by
  obtain ⟨g,hg,hv⟩ := h
  obtain ⟨g',hm,hv'⟩ := hT.mergePendingCommit_ok hv
  refine ⟨c.saveGroup g',?_,groupAt_saveGroup hT hv' c,rfl⟩
  simp only [MlsSession.mergeUpdate,MlsSession.db,Exec.bind_run,Exec.get_run,Exec.zoom_run,
    loadGroup_run hg,persist_run hm,Exec.modify_run,exportTrafficSecrets_run hT hv',
    hT.epoch_eq hv']

lemma settlePendingCommit_run {g : M.Group} (hv : T.view g = some ⟨σ,i,ms,pending⟩)
    (p : M.PrivateMessage) (drop : Bool) (hlen : 1+ms.length+1 < u64Size)
    (hdrop : drop = true ∨ pending = none) (c : Connection M) :
    ∃ g' c' ms', (MlsSession.settlePendingCommit p drop g).run c = (.ok g',c') ∧
      T.view g' = some ⟨σ,i,ms',none⟩ ∧
      ((∃ s, pending = some s ∧ M.messageEpoch p = 1+ms.length+1 ∧ ms' = ms++[s]) ∨
        ((pending = none ∨ M.messageEpoch p ≠ 1+ms.length+1) ∧ ms' = ms)) ∧
      c'.handshakeStates = c.handshakeStates := by
  -- merging or dropping the own commit before a message is processed: it is merged exactly when the
  -- message is for the next epoch
  have he : M.epoch g = 1+ms.length := hT.epoch_eq hv
  have hp : M.hasPendingCommit g = pending.isSome := hT.hasPendingCommit_eq hv
  rw [MlsSession.settlePendingCommit,he,hp,if_neg (not_not.mpr hlen)]
  by_cases hn : M.messageEpoch p = 1+ms.length+1 ∧ pending.isSome = true
  · obtain ⟨s,rfl⟩ := Option.isSome_iff_exists.mp hn.2
    obtain ⟨g',hm,hv'⟩ := hT.mergePendingCommit_ok hv
    rw [if_pos hn]
    exact ⟨g',_,_,persist_run hm,hv',Or.inl ⟨s,rfl,hn.1,rfl⟩,rfl⟩
  · have hor : pending = none ∨ M.messageEpoch p ≠ 1+ms.length+1 := by
      cases pending with
      | none => exact Or.inl rfl
      | some s => exact Or.inr fun h => hn ⟨h,rfl⟩
    rw [if_neg hn]
    cases drop with
    | true =>
      obtain ⟨g',hm,hv'⟩ := hT.clearPendingCommit_ok hv
      exact ⟨g',_,_,persist_run hm,hv',Or.inr ⟨hor,rfl⟩,rfl⟩
    | false =>
      obtain rfl : pending = none := by simpa using hdrop
      exact ⟨g,c,_,rfl,hv,Or.inr ⟨hor,rfl⟩,rfl⟩

lemma processCommit_run {p : M.PrivateMessage} {g : M.Group}
    (hv : T.view g = some ⟨σ,i,ms,none⟩) (hm : T.IsCommit σ (!i) ms m)
    (hp : M.extract m = .privateMessage p) (c : Connection M) :
    ∃ processed staged g' g'', (MlsSession.processMessage p g).run c =
        (.ok (processed,g'),c.saveGroup g') ∧
      MlsSession.validateCommit processed = .ok (staged,⟨T.identity σ (!i)⟩) ∧
      M.mergeStagedCommit staged g' = .ok g'' ∧ T.view g'' = some ⟨σ,i,ms++[m],none⟩ := by
  obtain ⟨leaf,staged,g',g'',node,hproc,-,hnode,hcred,hprop,hmerge,hv''⟩ := hT.process_commit hv hm hp
  refine ⟨⟨.member leaf,.basic (T.identity σ (!i)),.stagedCommitMessage staged⟩,staged,g',g'',?_,?_,
    hmerge,hv''⟩
  · simp only [MlsSession.processMessage,hproc,Exec.bind_run,Exec.modify_run,Exec.lift_ok,
      Exec.pure_run]
  · simp [MlsSession.validateCommit,hnode,hcred,hprop,Credential.basicIdentity]

/-- A commit made on `ms'` where the own commits reach `ms` once the pending one is settled. -/
theorem processMlsUpdate_run {ms' : List M.Message} (drop : Bool)
    (h : T.GroupAt ⟨σ,i,ms,pending⟩ c) (hm : T.IsCommit σ (!i) ms' m)
    (hlen : 1+ms.length+1 < u64Size) (hdrop : drop = true ∨ pending = none)
    (hms : ms' = ms ∨ ∃ s, pending = some s ∧ ms' = ms++[s]) :
    ∃ c', (MlsSession.processMlsUpdate m drop).run c =
        (.ok (T.secrets σ (ms'++[m]),⟨T.groupId σ,1+(ms'++[m]).length⟩,⟨T.identity σ (!i)⟩),c') ∧
      T.GroupAt ⟨σ,i,ms'++[m],none⟩ c' ∧ c'.handshakeStates = c.handshakeStates := by
  obtain ⟨p,hp,hpg,hpe⟩ := hT.commit_message hm
  obtain ⟨g,hg,hv⟩ := h
  obtain ⟨g',c1,ms1,hsettle,hv1,hcase,hrows⟩ := settlePendingCommit_run hT hv p drop hlen hdrop c
  obtain rfl : ms1 = ms' := by
    rcases hms with rfl | ⟨s,rfl,rfl⟩
    · rcases hcase with ⟨s,-,hne,-⟩ | ⟨-,rfl⟩
      · omega
      · rfl
    · rcases hcase with ⟨s',hs',-,rfl⟩ | ⟨hne | hne,-⟩
      · obtain rfl := Option.some.inj hs'
        rfl
      · simp at hne
      · rw [hpe,List.length_append,List.length_singleton] at hne
        omega
  obtain ⟨processed,staged,g2,g3,hproc,hval,hmerge,hv3⟩ := processCommit_run hT hv1 hm hp c1
  refine ⟨(c1.saveGroup g2).saveGroup g3,?_,groupAt_saveGroup hT hv3 _,?_⟩
  · rw [MlsSession.processMlsUpdate,hp]
    simp only [hpg,Exec.bind_run,loadGroup_run hg,hsettle,hproc,hval,Exec.lift_ok,persist_run hmerge,
      exportTrafficSecrets_run hT hv3,Exec.pure_run,hT.groupId_eq hv3,hT.epoch_eq hv3]
  · simpa using hrows

/-- A commit for an earlier epoch is refused; the own pending commit is gone all the same. -/
theorem processMlsUpdate_stale {ms' : List M.Message} (h : T.GroupAt ⟨σ,i,ms,pending⟩ c)
    (hm : T.IsCommit σ (!i) ms' m) (hlen : 1+ms.length+1 < u64Size) (hms : ms'.length < ms.length) :
    ∃ e c', (MlsSession.processMlsUpdate m true).run c = (.error (.error e),c') ∧
      T.GroupAt ⟨σ,i,ms,none⟩ c' := by
  obtain ⟨p,hp,hpg,hpe⟩ := hT.commit_message hm
  obtain ⟨g,hg,hv⟩ := h
  obtain ⟨g',c1,ms1,hsettle,hv1,hcase,-⟩ :=
    settlePendingCommit_run hT hv p true hlen (Or.inl rfl) c
  obtain rfl : ms1 = ms := by
    rcases hcase with ⟨s,-,hne,-⟩ | ⟨-,rfl⟩
    · omega
    · rfl
  obtain ⟨e,g2,hproc,hv2⟩ := hT.process_stale hv1 hm hms hp
  refine ⟨.connectionUpdateError (.library e),c1.saveGroup g2,?_,groupAt_saveGroup hT hv2 _⟩
  rw [MlsSession.processMlsUpdate,hp]
  simp only [hpg,Exec.bind_run,loadGroup_run hg,hsettle,MlsSession.processMessage,hproc,
    Exec.modify_run,Exec.lift_error]

theorem createEpochKeyUpdate_run (h : T.GroupAt ⟨σ,i,ms,pending⟩ c) (e : ℕ) :
    (MlsSession.createEpochKeyUpdate ⟨T.groupId σ,e⟩ : Db M _).run c = (.ok ⟨1+ms.length⟩,c) := by
  obtain ⟨g,hg,hv⟩ := h
  simp only [MlsSession.createEpochKeyUpdate,Exec.bind_run,loadGroup_run hg,Exec.pure_run,
    hT.epoch_eq hv]

theorem processEpochKeyUpdate_run (h : T.GroupAt ⟨σ,i,ms,pending⟩ c) (e : ℕ) :
    (MlsSession.processEpochKeyUpdate ⟨T.groupId σ,e⟩ ⟨1+ms.length⟩ : Db M _).run c = (.ok (),c) := by
  obtain ⟨g,hg,hv⟩ := h
  simp [MlsSession.processEpochKeyUpdate,Exec.bind_run,loadGroup_run hg,hT.epoch_eq hv]

end TwoParty
end MlsTls.MlsHandshake
