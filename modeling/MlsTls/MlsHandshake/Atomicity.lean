import MlsTls.MlsHandshake.Isolation

/-! What a signaling message leaves behind when it is answered with an error. The checks of a
message stand between the writes of its processing, so an error does not by itself mean that
nothing has happened; this module says from the message, the session and the stored group when
it does. -/
namespace MlsTls.MlsHandshake
open Lib TlsAead MlsSession
variable {M : OpenMls}

/-- How the library answers for groups of which the party is an active member, as long as its
storage and its cryptography do. A commit that passes the checks has no proposals, so it removes
nobody. -/
structure Operational (M : OpenMls) (IsActive : M.Group → Prop) : Prop where
  mergePending : ∀ {g}, IsActive g → ∃ g', M.mergePendingCommit g = .ok g' ∧ IsActive g'
  clearPending : ∀ {g}, IsActive g → ∃ g', M.clearPendingCommit g = .ok g' ∧ IsActive g'
  selfUpdate : ∀ {g}, IsActive g → M.hasPendingCommit g = false → ∀ signer seed, ∃ commit g',
    M.selfUpdate signer seed g = .ok (commit,g') ∧ IsActive g' ∧ ∃ b, M.wire.enc commit = some b
  exportSecrets : ∀ {g}, IsActive g → ∃ secrets, Exports g secrets
  /-- Epochs are 64-bit numbers, and no own commit outlives the merge of another one. -/
  accepted : ∀ {message g g' identity}, IsActive g → Accepted message g g' identity →
    IsActive g' ∧ M.hasPendingCommit g' = false ∧ M.epoch g' < u64Size
  /-- Past epochs are not kept: only messages of the group's epoch are decrypted. -/
  process : ∀ {p g}, M.messageEpoch p ≠ M.epoch g → (M.processMessage p g).2 = g

/-- The epoch and the pending commit of the group that is stored under an id. -/
def Standing.stored (S : Standing M) (c : Connection M) (groupId : GroupId) :
    Except M.Error (Option (ℕ × Option S.PendingCommit)) :=
  (c.groups groupId).map (Option.map fun g => (M.epoch g,S.pendingCommit g))

/-- The message is a commit for the stored group of the session. -/
structure MlsSession.Concerned (session : MlsSession) (c : Connection M) (mlsMessage : M.Message)
    (message : M.PrivateMessage) (g : M.Group) : Prop where
  extract : M.extract mlsMessage = .privateMessage message
  groupId : M.messageGroupId message = session.groupId
  stored : c.groups session.groupId = .ok (some g)

/-- The group of the session is stored and in this epoch. -/
def MlsSession.InEpoch (session : MlsSession) (c : Connection M) (epoch : ℕ) : Prop :=
  ∃ g, c.groups session.groupId = .ok (some g) ∧ M.epoch g = epoch

/-- The server's state and the standing of its group are what they were. -/
def ServerHandshakeState.Unchanged (S : Standing M) (s s' : ServerHandshakeState × Connection M) :
    Prop :=
  s'.1 = s.1 ∧ S.stored s'.2 s.1.mlsSession.groupId = S.stored s.2 s.1.mlsSession.groupId

/-- If the server's call returns an error, nothing has changed. -/
def ServerHandshakeState.Atomic {α : Type} (S : Standing M) (s : ServerHandshakeState × Connection M)
    (r : Outcome (HandshakeError M.Error) α × ServerHandshakeState × Connection M) : Prop :=
  ∀ e, r.1 = .error (.error e) → Unchanged S s r.2

/-- An update finds no own commit of the server to be settled; a confirmation names the epoch that
the group is in once the own commit is merged, or there is nothing to merge and the session is up
to date. -/
def ServerHandshakeState.Safe (c : Connection M) (st : ServerHandshakeState) :
    SignalingMessageIn M → Prop
  | .connectionUpdate update => ∀ message g,
    st.mlsSession.Concerned c update.mlsCommit message g → M.hasPendingCommit g = false
  | .epochKeyUpdate update => st.isWaitingForResponse = true →
    ∀ g, c.groups st.mlsSession.groupId = .ok (some g) →
      M.epoch g+(M.hasPendingCommit g).toNat = update.epoch ∨
        M.hasPendingCommit g = false ∧ st.mlsSession.epoch = M.epoch g
  | .connectionConfirmation _ => True
  | .keyUpdate _ => True

/-- The client's state, its table and its group are what they were. -/
def ClientHandshakeState.Unchanged (s s' : ClientHandshakeState M × Connection M) : Prop :=
  s'.1 = s.1 ∧ s'.2.handshakeStates = s.2.handshakeStates ∧
    s'.2.groups s.1.mlsSession.groupId = s.2.groups s.1.mlsSession.groupId

/-- If the client's call returns an error, nothing has changed. -/
def ClientHandshakeState.Atomic {α : Type} (s : ClientHandshakeState M × Connection M)
    (r : Outcome (HandshakeError M.Error) α × ClientHandshakeState M × Connection M) : Prop :=
  ∀ e, r.1 = .error (.error e) → Unchanged s r.2

def ClientInternalState.awaitsConnectionConfirmation : ClientInternalState M → Bool
  | .waitingForConnectionConfirmation _ => true
  | _ => false

def ClientInternalState.awaitsEpochKeyUpdate : ClientInternalState M → Bool
  | .waitingForEpochKeyUpdate _ => true
  | .waitingForEpochKeyUpdateReturn _ => true
  | _ => false

/-- The confirmation is the one that the client waits for, or the client has nothing to forget. -/
def ClientHandshakeState.ConfirmationSafe (c : Connection M) (st : ClientHandshakeState M)
    (awaits : Bool) (update : EpochKeyUpdate) : Prop :=
  st.isWaitingForResponse = false ∨ awaits = true ∧ st.mlsSession.InEpoch c update.epoch

/-- A commit for the group of the session comes neither in the group's epoch, where its keys are
used up, nor in the next one, to which an own commit would be merged. -/
def ClientHandshakeState.Safe (c : Connection M) (st : ClientHandshakeState M) :
    SignalingMessageIn M → Prop
  | .connectionUpdate update => st.isWaitingForResponse = false → ∀ message g,
    st.mlsSession.Concerned c update.mlsCommit message g → M.messageEpoch message ≠ M.epoch g ∧
      ¬(M.messageEpoch message = M.epoch g+1 ∧ M.hasPendingCommit g = true)
  | .connectionConfirmation confirmation =>
    ConfirmationSafe c st st.internalState.awaitsConnectionConfirmation confirmation
  | .epochKeyUpdate update => ConfirmationSafe c st st.internalState.awaitsEpochKeyUpdate update
  | .keyUpdate _ => True

/-- The ways in which a call can end that processes a message for an active group. -/
inductive Ended {σ α : Type} (c : Connection M) (message : M.PrivateMessage) (drop : Bool)
    (g : M.Group) (st : σ) : Outcome (HandshakeError M.Error) α × σ × Connection M → Prop
  | panicked : Ended c message drop g st (.error .panic,(st,c))
  | refused (e : HandshakeError M.Error) {g₁ : M.Group} (hs : Settled message drop g g₁) :
    Ended c message drop g st
      (.error (.error e),(st,c.saveGroup (M.processMessage message g₁).2))
  | completed (a : α) (st' : σ) (g' : M.Group) :
    Ended c message drop g st (.ok a,(st',c.saveGroup g'))

section
variable {S : Standing M} {c : Connection M} {message : M.PrivateMessage} {drop : Bool}
  {g g' g₁ : M.Group} {groupId : GroupId} {IsActive : M.Group → Prop}

lemma Operational.settled (hM : Operational M IsActive) (hg : IsActive g)
    (hroom : M.epoch g+1 < u64Size) (message : M.PrivateMessage) (drop : Bool) :
    ∃ g₁, Settled message drop g g₁ := by
  simp only [Settled,hroom,true_and]
  split_ifs
  · obtain ⟨g₁,h,-⟩ := hM.mergePending hg
    exact ⟨g₁,h⟩
  · obtain ⟨g₁,h,-⟩ := hM.clearPending hg
    exact ⟨g₁,h⟩
  · exact ⟨g,rfl⟩

lemma Operational.isActive_settled (hM : Operational M IsActive) (hg : IsActive g)
    (hs : Settled message drop g g₁) : IsActive g₁ := by
  obtain ⟨-,h⟩ := hs
  split_ifs at h
  · obtain ⟨g₂,h₂,hg₂⟩ := hM.mergePending hg
    rwa [Except.ok.inj (h.symm.trans h₂)]
  · obtain ⟨g₂,h₂,hg₂⟩ := hM.clearPending hg
    rwa [Except.ok.inj (h.symm.trans h₂)]
  · rwa [h]

lemma Operational.answers_server (hM : Operational M IsActive) (hg : IsActive g)
    (hp : M.hasPendingCommit g = false) (he : M.epoch g < u64Size) (leafSigner : M.SignatureKeyPair)
    (updateRequested : Bool) (seed : ℕ) :
    ServerHandshakeState.Answers leafSigner updateRequested seed g := by
  obtain ⟨commit,g',hu,-,henc⟩ := hM.selfUpdate hg hp leafSigner seed
  exact ⟨epochKeyUpdate_enc he,fun _ => ⟨commit,g',hu,connectionUpdate_enc _ henc⟩⟩

lemma Operational.answers_client (hM : Operational M IsActive) (hg : IsActive g)
    (hp : M.hasPendingCommit g = false) (he : M.epoch g < u64Size) (leafSigner : M.SignatureKeyPair)
    (updateRequested : Bool) (seed : ℕ) :
    ClientHandshakeState.Answers leafSigner updateRequested seed g := by
  obtain ⟨commit,g',hu,hg',henc⟩ := hM.selfUpdate hg hp leafSigner seed
  obtain ⟨g'',hm,hg''⟩ := hM.mergePending hg'
  obtain ⟨secrets,hx⟩ := hM.exportSecrets hg''
  exact ⟨epochKeyUpdate_enc he,
    fun _ => ⟨commit,g',g'',secrets,hu,hm,hx,connectionUpdate_enc _ henc⟩⟩

lemma Standing.stored_saveGroup_iff (hid : M.groupId g' = groupId)
    (hg : c.groups groupId = .ok (some g)) :
    S.stored (c.saveGroup g') groupId = S.stored c groupId ↔
      M.epoch g' = M.epoch g ∧ S.pendingCommit g' = S.pendingCommit g := by
  rw [stored,stored,c.saveGroup_groups hid,hg]
  simp [Except.map]

lemma Standing.stored_saveGroup_of_ne (h : M.groupId g' ≠ groupId) :
    S.stored (c.saveGroup g') groupId = S.stored c groupId := by
  rw [stored,stored,c.saveGroup_groups_of_ne h.symm]

namespace ServerHandshakeState
variable {st : ServerHandshakeState} {α : Type}

lemma unchanged_refl (s : ServerHandshakeState × Connection M) : Unchanged S s s := ⟨rfl,rfl⟩

lemma atomic_of_ok {a : α} {s : ServerHandshakeState × Connection M} :
    Atomic S (st,c) ((.ok a,s) : Outcome (HandshakeError M.Error) α × _) := by
  intro e h
  simp at h

lemma unchanged_saveGroup_iff (hg : c.groups (M.groupId g') = .ok (some g)) :
    Unchanged S (st,c) (st,c.saveGroup g') ↔ (M.groupId g' = st.mlsSession.groupId →
      M.epoch g' = M.epoch g ∧ S.pendingCommit g' = S.pendingCommit g) := by
  constructor
  · intro h hid
    exact (Standing.stored_saveGroup_iff hid (by rw [← hid]; exact hg)).mp h.2
  · intro h
    refine ⟨rfl,?_⟩
    by_cases hid : M.groupId g' = st.mlsSession.groupId
    · exact (Standing.stored_saveGroup_iff hid (by rw [← hid]; exact hg)).mpr (h hid)
    · exact Standing.stored_saveGroup_of_ne hid

end ServerHandshakeState

variable (hS : S.Lawful)
include hS

lemma MlsSession.Settled.standing_iff (h : Settled message true g g₁) :
    (M.epoch g₁ = M.epoch g ∧ S.pendingCommit g₁ = S.pendingCommit g) ↔
      M.hasPendingCommit g = false := by
  obtain ⟨-,h⟩ := h
  simp only [if_true] at h
  split_ifs at h with hmerge
  · have he := (hS.mergePending h).2.1
    rw [hmerge.2] at he ⊢
    simp [he]
  · obtain ⟨-,he,hp⟩ := hS.clearPending h
    rw [he,hp,hS.hasPendingCommit_eq]
    cases S.pendingCommit g with
    | none => simp
    | some p => simp

variable (hM : Operational M IsActive) (hfiled : Roster.Filed c)
  (hactive : ∀ i g, c.groups i = .ok (some g) → IsActive g)
include hM hactive

/-- A call that begins with the processing of a message for an active group is refused, or completed
if it goes through after a merge. -/
theorem ended_of_merged {σ α : Type} {st : σ} {mlsMessage : M.Message}
    {x : Exec (σ × Connection M) (HandshakeError M.Error) α}
    {f : TrafficSecrets × MlsSession × ClientIdentity →
      Exec (σ × Connection M) (HandshakeError M.Error) α}
    (hx : x = Exec.zoom Prod.snd (fun c s => (s.1,c)) (processMlsUpdate mlsMessage drop) >>= f)
    (he : M.extract mlsMessage = .privateMessage message)
    (hg : c.groups (M.messageGroupId message) = .ok (some g))
    (hmerged : ∀ {g₃ secrets identity}, IsActive g₃ → M.hasPendingCommit g₃ = false →
      M.epoch g₃ < u64Size → Exports g₃ secrets → (processMlsUpdate mlsMessage drop).run c =
        (.ok (secrets,⟨M.groupId g₃,M.epoch g₃⟩,identity),c.saveGroup g₃) →
      ∃ a st' g', x.run (st,c) = (.ok a,(st',c.saveGroup g'))) :
    Ended c message drop g st (x.run (st,c)) := by
  have hg₀ := hactive _ _ hg
  have hproc := processMlsUpdate_processed hS he hg drop
  generalize hr : (processMlsUpdate mlsMessage drop).run c = r at hproc
  cases hproc with
  | panicked hroom =>
    rw [processMlsUpdate_failed hx hr]
    exact .panicked
  | unsettled e hroom hno =>
    obtain ⟨g₁,hs⟩ := hM.settled hg₀ hroom message drop
    exact absurd hs (hno g₁)
  | rejected e hs hno =>
    rw [processMlsUpdate_failed hx hr]
    exact .refused e hs
  | unexported e hs ha hno =>
    obtain ⟨secrets,h⟩ := hM.exportSecrets (hM.accepted (hM.isActive_settled hg₀ hs) ha).1
    exact absurd h (hno secrets)
  | merged hs ha hexports =>
    obtain ⟨hg₃,hp,hlt⟩ := hM.accepted (hM.isActive_settled hg₀ hs) ha
    obtain ⟨a,st',g',hrun⟩ := hmerged hg₃ hp hlt hexports hr
    rw [hrun]
    exact .completed a st' g'

lemma ServerHandshakeState.processUpdate_ended {update : ConnectionUpdateIn M}
    (he : M.extract update.mlsCommit = .privateMessage message)
    (hg : c.groups (M.messageGroupId message) = .ok (some g)) (leafSigner : M.SignatureKeyPair)
    (seed : ℕ) (st : ServerHandshakeState) :
    Ended c message true g st ((processUpdate leafSigner update seed).run (st,c)) := by
  refine ended_of_merged (x := processUpdate leafSigner update seed) hS hM hactive rfl he hg
    fun {g₃ secrets identity} hg₃ hp hlt _ hr => ?_
  obtain ⟨r,i,g',hrun,-,⟨-,bytes,rfl⟩ | ⟨hno,-⟩⟩ := processUpdate_merged hS leafSigner seed hr st
  · exact ⟨_,_,g',hrun⟩
  · exact absurd (hM.answers_server hg₃ hp hlt leafSigner _ seed) hno

include hfiled

lemma ServerHandshakeState.processUpdate_unchanged_iff (leafSigner : M.SignatureKeyPair)
    (update : ConnectionUpdateIn M) (seed : ℕ) (st : ServerHandshakeState)
    {e : HandshakeError M.Error}
    (herror : ((processUpdate leafSigner update seed).run (st,c)).1 = .error (.error e)) :
    Unchanged S (st,c) ((processUpdate leafSigner update seed).run (st,c)).2 ↔
      Safe c st (.connectionUpdate update) := by
  rcases stored_cases c update.mlsCommit with hnone | ⟨message,g,he,hg⟩
  · obtain ⟨e,hrun⟩ := processMlsUpdate_nothing true hnone
    simp only [processUpdate,Exec.bind_run,db_run hrun st]
    refine ⟨fun _ message g h => ?_,fun _ => unchanged_refl _⟩
    exact absurd h.stored (h.groupId ▸ hnone _ _ h.extract)
  · have hid := hfiled _ _ hg
    have hended := processUpdate_ended hS hM hactive he hg leafSigner seed st
    generalize (processUpdate leafSigner update seed).run (st,c) = r at herror hended
    cases hended with
    | panicked => simp at herror
    | completed a st' g' => simp at herror
    | refused e' hs =>
      rename_i g₁
      have hid₂ : M.groupId (M.processMessage message g₁).2 = M.messageGroupId message :=
        (hS.process message g₁).1.trans ((hs.groupId_eq hS).trans hid)
      obtain ⟨-,hep,hpe⟩ := hS.process message g₁
      dsimp only
      rw [unchanged_saveGroup_iff (by rw [hid₂]; exact hg),hid₂,hep,hpe,hs.standing_iff hS]
      constructor
      · intro h message' g' hc
        obtain rfl := MlsMessageBodyIn.privateMessage.inj (he.symm.trans hc.extract)
        rw [hc.groupId] at hg
        obtain rfl := Option.some.inj (Except.ok.inj (hg.symm.trans hc.stored))
        exact h hc.groupId
      · intro h hown
        exact h message g ⟨he,hown,hown ▸ hg⟩

lemma ServerHandshakeState.receiveEpochKeyUpdate_atomic_iff {update : EpochKeyUpdate}
    (henc : (SignalingMessageOut.epochKeyUpdate update : SignalingMessageOut M).Encodes)
    (messageType : String) (st : ServerHandshakeState) :
    Atomic S (st,c) ((receiveEpochKeyUpdate update messageType).run (st,c)) ↔
      Safe c st (.epochKeyUpdate update) := by
  cases hw : st.isWaitingForResponse with
  | false =>
    simp only [receiveEpochKeyUpdate,Exec.bind_run,Exec.get_run,hw]
    exact ⟨fun _ h => by simp [hw] at h,fun _ _ _ => unchanged_refl _⟩
  | true =>
    by_cases hstored : ∃ g, c.groups st.mlsSession.groupId = .ok (some g)
    · obtain ⟨g,hg⟩ := hstored
      obtain ⟨g',hm,hg'⟩ := hM.mergePending (hactive _ _ hg)
      obtain ⟨secrets,hx⟩ := hM.exportSecrets hg'
      obtain ⟨hid,hep,hpe⟩ := hS.mergePending hm
      have hid' : M.groupId g' = st.mlsSession.groupId := hid.trans (hfiled _ _ hg)
      have hiff : Safe c st (.epochKeyUpdate update) ↔ M.epoch g' = update.epoch ∨
          M.hasPendingCommit g = false ∧ st.mlsSession.epoch = M.epoch g := by
        rw [hep]
        refine ⟨fun h => h hw g hg,fun h _ g₁ hg₁ => ?_⟩
        obtain rfl := Option.some.inj (Except.ok.inj (hg.symm.trans hg₁))
        exact h
      obtain ⟨r,i,hrun,hr⟩ := receiveEpochKeyUpdate_merged hw hg hm hid' update messageType
      rw [hrun,hiff]
      rcases hr with ⟨hc,secrets,bytes,-,rfl⟩ | ⟨hc,rfl,e,rfl⟩
      · exact ⟨fun _ => Or.inl hc.2.1,fun _ => atomic_of_ok⟩
      · constructor
        · intro h
          obtain ⟨hst,hstored⟩ := h e rfl
          have hstand := (Standing.stored_saveGroup_iff hid' hg).mp hstored
          have hsession : M.epoch g' = st.mlsSession.epoch := congrArg (·.mlsSession.epoch) hst
          refine Or.inr ⟨?_,hsession.symm.trans hstand.1⟩
          rw [hS.hasPendingCommit_eq,← hstand.2,hpe]
          rfl
        · intro h
          obtain ⟨hno,hsession⟩ := h.resolve_left fun he => hc ⟨⟨secrets,hx⟩,he,henc⟩
          have he : M.epoch g' = M.epoch g := by rw [hep,hno]; rfl
          have hp : S.pendingCommit g = none := by
            rw [hS.hasPendingCommit_eq] at hno
            exact Option.isNone_iff_eq_none.mp (by simpa using hno)
          intro _ _
          refine ⟨?_,(Standing.stored_saveGroup_iff hid' hg).mpr ⟨he,by rw [hpe,hp]⟩⟩
          rw [he,← hsession]
    · obtain ⟨e,hrun⟩ := receiveEpochKeyUpdate_unmerged hw
        (fun g g' hg _ => hstored ⟨g,hg⟩) update messageType
      rw [hrun]
      exact ⟨fun _ _ g hg => absurd ⟨g,hg⟩ hstored,fun _ _ _ => unchanged_refl _⟩

lemma ServerHandshakeState.receive_unchanged_iff (leafSigner : M.SignatureKeyPair)
    {messageBytes : Bytes} (seed : ℕ) (st : ServerHandshakeState) {message : SignalingMessageIn M}
    (hdec : (SignalingMessageIn.wire M).decExact messageBytes = some message)
    {e : HandshakeError M.Error}
    (herror : ((receiveSignalingMessage leafSigner messageBytes seed).run (st,c)).1 =
      .error (.error e)) :
    Unchanged S (st,c) ((receiveSignalingMessage leafSigner messageBytes seed).run (st,c)).2 ↔
      Safe c st message := by
  have henc := (SignalingMessageIn.wire_lawful hS.wire).enc_of_decExact hdec
  rw [receiveSignalingMessage,deserializeExact,hdec,Exec.bind_of_ok (Exec.orThrow_some ..)]
    at herror ⊢
  cases message with
  | connectionUpdate update =>
    have hiff {e} := processUpdate_unchanged_iff hS hM hfiled hactive leafSigner update seed st
      (e := e)
    simp only [Exec.bind_run] at herror ⊢
    generalize (processUpdate leafSigner update seed).run (st,c) = r at hiff herror ⊢
    rcases r with ⟨f | a,s'⟩
    · exact hiff (by simpa using herror)
    · simp at herror
  | connectionConfirmation confirmation => exact ⟨fun _ => trivial,fun _ => unchanged_refl _⟩
  | epochKeyUpdate update =>
    have hiff := receiveEpochKeyUpdate_atomic_iff hS hM hfiled hactive
      ⟨messageBytes,(SignalingMessageOut.wire_enc (.epochKeyUpdate update)).trans henc⟩
      "EpochKeyUpdate" st
    exact ⟨fun h => hiff.mp fun _ _ => h,fun h => hiff.mpr h e herror⟩
  | keyUpdate update => simp at herror

/-- Every byte string at once: with a message that is safe, or none, an error leaves no trace; with
any other message every error does. -/
theorem ServerHandshakeState.server_error_atomic (leafSigner : M.SignatureKeyPair)
    (messageBytes : Bytes) (seed : ℕ) (st : ServerHandshakeState) :
    let r := (receiveSignalingMessage leafSigner messageBytes seed).run (st,c)
    let safe := ∀ message, (SignalingMessageIn.wire M).decExact messageBytes = some message →
      Safe c st message
    (safe → Atomic S (st,c) r) ∧ ∀ e, r.1 = .error (.error e) → Unchanged S (st,c) r.2 → safe := by
  dsimp only
  constructor
  · intro h e herror
    cases hdec : (SignalingMessageIn.wire M).decExact messageBytes with
    | none =>
      rw [receiveSignalingMessage,deserializeExact,hdec]
      exact unchanged_refl _
    | some message =>
      exact (receive_unchanged_iff hS hM hfiled hactive leafSigner seed st hdec herror).mpr
        (h message hdec)
  · intro e herror h message hdec
    exact (receive_unchanged_iff hS hM hfiled hactive leafSigner seed st hdec herror).mp h

namespace ClientHandshakeState
variable {st : ClientHandshakeState M} {α : Type}

omit hS hM hfiled hactive

lemma unchanged_refl (s : ClientHandshakeState M × Connection M) : Unchanged s s := ⟨rfl,rfl,rfl⟩

lemma atomic_of_ok {a : α} {s : ClientHandshakeState M × Connection M} :
    Atomic (st,c) ((.ok a,s) : Outcome (HandshakeError M.Error) α × _) := by
  intro e h
  simp at h

lemma unchanged_saveGroup_iff (hid : M.groupId g' = st.mlsSession.groupId)
    (hg : c.groups st.mlsSession.groupId = .ok (some g)) :
    Unchanged (st,c) (st,c.saveGroup g') ↔ g' = g := by
  simp only [Unchanged,c.saveGroup_groups hid,hg,true_and,Connection.saveGroup_handshakeStates,
    Except.ok.injEq,Option.some.injEq]

include hS hM hactive

lemma processUpdate_ended {update : ConnectionUpdateIn M}
    (he : M.extract update.mlsCommit = .privateMessage message)
    (hg : c.groups (M.messageGroupId message) = .ok (some g)) (leafSigner : M.SignatureKeyPair)
    (seed : ℕ) (st : ClientHandshakeState M) :
    Ended c message false g st ((processUpdate leafSigner update seed).run (st,c)) := by
  refine ended_of_merged (x := processUpdate leafSigner update seed) hS hM hactive rfl he hg
    fun {g₃ secrets identity} hg₃ hp hlt hx hr => ?_
  obtain ⟨r,st',g',hrun,-,-,-,-,-,⟨-,secrets',bytes,-,rfl⟩ | ⟨hno,-⟩⟩ :=
    processUpdate_merged hS leafSigner seed hx hr st
  · exact ⟨_,_,g',hrun⟩
  · exact absurd (hM.answers_client hg₃ hp hlt leafSigner _ seed) hno

include hfiled

omit hS hM hfiled hactive in
lemma processEpochKeyUpdate_cases (update : EpochKeyUpdate) (c : Connection M)
    (st : ClientHandshakeState M) :
    (st.mlsSession.InEpoch c update.epoch ∧
        (processEpochKeyUpdate update).run (st,c) = (.ok (),(st,c))) ∨
      ¬st.mlsSession.InEpoch c update.epoch ∧
        ∃ e, (processEpochKeyUpdate update).run (st,c) = (.error (.error e),(st,c)) := by
  simp only [processEpochKeyUpdate,MlsSession.processEpochKeyUpdate,InEpoch,Exec.bind_run,
    Exec.get_run,db,Exec.zoom_run,loadGroup]
  rcases hg : c.groups st.mlsSession.groupId with e | _ | g
  · exact Or.inr ⟨by simp,_,rfl⟩
  · exact Or.inr ⟨by simp,_,rfl⟩
  · by_cases he : M.epoch g = update.epoch
    · exact Or.inl ⟨⟨g,rfl,he⟩,by simp [he]⟩
    · exact Or.inr ⟨by simpa using he,_,by simp [he]; rfl⟩

omit hS hM hfiled hactive

lemma atomic_taken_iff {f : HandshakeError M.Error} {c : Connection M}
    {st : ClientHandshakeState M} :
    Atomic (st,c) ((.error (.error f),({ st with internalState := .running },c)) :
        Outcome (HandshakeError M.Error) α × _) ↔ st.isWaitingForResponse = false := by
  -- a client that has taken its state out and fails has forgotten it, unless there was nothing to
  -- forget
  constructor
  · intro h
    have hst : { st with internalState := .running } = st := (h f rfl).1
    rw [← hst]
    rfl
  · intro hw _ _
    refine ⟨?_,rfl,rfl⟩
    change { st with internalState := .running } = st
    rw [← internalState_of_not_waiting hw]

lemma writeRow_run {J : Serde M} (hJ : J.Lawful) {rows : List HandshakeStateRow}
    (hrows : c.handshakeStates = some rows) (a : α) (st : ClientHandshakeState M) :
    ∃ s', (do
      let s ← Exec.get
      db (storeUpdate J s.1)
      pure a : Call M α).run (st,c) = (.ok a,s') := by
  obtain ⟨rows',hstore⟩ := storeUpdate_run hJ st hrows
  simp only [Exec.bind_run,Exec.get_run,db_run hstore]
  exact ⟨_,rfl⟩

lemma awaited_atomic_iff {k : Call M α} (hw : st.isWaitingForResponse = true)
    (hk : ∃ a s', k.run ({ st with internalState := .running },c) = (.ok a,s'))
    (update : EpochKeyUpdate) :
    Atomic (st,c) ((do processEpochKeyUpdate update; k).run
        ({ st with internalState := .running },c)) ↔
      st.mlsSession.InEpoch c update.epoch := by
  -- a confirmation that is awaited is checked before anything that could still fail
  rcases processEpochKeyUpdate_cases update c { st with internalState := .running } with
    ⟨hin,hrun⟩ | ⟨hin,e,hrun⟩
  · obtain ⟨a,s',hk⟩ := hk
    rw [Exec.bind_of_ok hrun,hk]
    exact ⟨fun _ => hin,fun _ => atomic_of_ok⟩
  · simp only [Exec.bind_run,hrun]
    rw [atomic_taken_iff,hw]
    exact ⟨fun h => by simp at h,fun h => absurd h hin⟩

lemma receiveEpochKeyUpdate_atomic_iff {J : Serde M} (hJ : J.Lawful)
    {rows : List HandshakeStateRow} (hrows : c.handshakeStates = some rows)
    (update : EpochKeyUpdate) (messageType : String) (st : ClientHandshakeState M) :
    Atomic (st,c) ((receiveEpochKeyUpdate J update messageType).run (st,c)) ↔
      ConfirmationSafe c st st.internalState.awaitsEpochKeyUpdate update := by
  rw [receiveEpochKeyUpdate,Exec.bind_of_ok (takeInternalState_run st c),ConfirmationSafe]
  cases hi : st.internalState with
  | running =>
    have hw : st.isWaitingForResponse = false := by rw [isWaitingForResponse,hi]
    simp only [Exec.throw_run]
    rw [atomic_taken_iff]
    simp [hw,ClientInternalState.awaitsEpochKeyUpdate]
  | waitingForConnectionConfirmation pending =>
    simp only [Exec.throw_run]
    rw [atomic_taken_iff]
    simp [ClientInternalState.awaitsEpochKeyUpdate]
  | waitingForEpochKeyUpdate pending =>
    have hw : st.isWaitingForResponse = true := by rw [isWaitingForResponse,hi]
    rw [awaited_atomic_iff hw ⟨_,writeRow_run hJ hrows _ _⟩]
    simp [hw,ClientInternalState.awaitsEpochKeyUpdate]
  | waitingForEpochKeyUpdateReturn secret =>
    have hw : st.isWaitingForResponse = true := by rw [isWaitingForResponse,hi]
    rw [awaited_atomic_iff hw ⟨_,writeRow_run hJ hrows _ _⟩]
    simp [hw,ClientInternalState.awaitsEpochKeyUpdate]

include hS hM hfiled hactive

end ClientHandshakeState
end

/-- The server of the sample session, once it has sent an update of its own. -/
def waitingServer : ServerHandshakeState × Connection sampleMls :=
  ((ServerHandshakeState.update [2] false 5).run
    (⟨⟨[9],1⟩,.running⟩,sampleSystem.serverDb)).2

/-- A commit of the client for an epoch that is over. -/
def staleUpdate : Bytes := connectionUpdateBytes (M := sampleMls) false (.commit ⟨[9],0,0,5⟩)

/-- A confirmation of the wrong epoch moves the group and the session to the next epoch, and an
update that is refused costs the server its own commit. -/
theorem ServerHandshakeState.server_error_not_atomic :
    sampleSystem.server = some ⟨⟨[9],1⟩,.running⟩ ∧
      waitingServer.1 = ⟨⟨[9],1⟩,.waitingForUpdate⟩ ∧
      ((receiveSignalingMessage [2] (epochKeyUpdateBytes sampleMls 7) 0).run waitingServer).2.1 =
        ⟨⟨[9],2⟩,.waitingForUpdate⟩ ∧
      ¬Atomic sampleStanding waitingServer
        ((receiveSignalingMessage [2] (epochKeyUpdateBytes sampleMls 7) 0).run waitingServer) ∧
      ¬Atomic sampleStanding waitingServer
        ((receiveSignalingMessage [2] staleUpdate 0).run waitingServer) := by
  have hstate : ((receiveSignalingMessage [2] (epochKeyUpdateBytes sampleMls 7) 0).run
      waitingServer).2.1 = ⟨⟨[9],2⟩,.waitingForUpdate⟩ := by decide +kernel
  have herror : ((receiveSignalingMessage [2] (epochKeyUpdateBytes sampleMls 7) 0).run
      waitingServer).1 = .error (.error (.validationError "Epoch mismatch")) := by rfl
  have herror' : ((receiveSignalingMessage [2] staleUpdate 0).run waitingServer).1 =
      .error (.error (.connectionUpdateError (.library ()))) := by rfl
  refine ⟨by decide +kernel,by decide +kernel,hstate,?_,?_⟩
  · intro h
    have hst := (h _ herror).1
    rw [hstate] at hst
    exact absurd hst (by decide +kernel)
  · intro h
    have hst : sampleStanding.stored ((receiveSignalingMessage [2] staleUpdate 0).run
        waitingServer).2.2 [9] = sampleStanding.stored waitingServer.2 [9] := (h _ herror').2
    have hbefore : sampleStanding.stored waitingServer.2 [9] =
        .ok (some (1,some (some (.commit ⟨[9],1,1,5⟩)))) := rfl
    have hafter : sampleStanding.stored ((receiveSignalingMessage [2] staleUpdate 0).run
        waitingServer).2.2 [9] = .ok (some (1,none)) := rfl
    rw [hbefore,hafter] at hst
    cases hst

/-- No commit is processed in the last epoch. -/
def Sample.processBounded (commit : Commit) (g : Group) :
    Except Unit (ProcessedMessage StagedCommit) × Group :=
  if commit.epoch+1 < u64Size then processMessage commit g else (.error (),g)

/-- The sample library with 64-bit epochs. -/
def boundedMls : OpenMls := { sampleMls with processMessage := Sample.processBounded }

def boundedStanding : Standing boundedMls :=
  ⟨sampleStanding.PendingCommit,sampleStanding.pendingCommit⟩

namespace Sample

lemma processBounded_group (commit : Commit) (g : Group) : (processBounded commit g).2 = g := by
  simp only [processBounded,processMessage]
  split_ifs <;> rfl

lemma processBounded_ok {commit : Commit} {g : Group} {processed : ProcessedMessage StagedCommit}
    (h : (processBounded commit g).1 = .ok processed) : g.epoch+1 < u64Size := by
  simp only [processBounded,processMessage] at h
  split_ifs at h with hroom hcommit
  rwa [← hcommit.2.1]

end Sample

theorem boundedStanding_lawful : boundedStanding.Lawful where
  wire := sampleStanding_lawful.wire
  hasPendingCommit_eq := sampleStanding_lawful.hasPendingCommit_eq
  mergePending := sampleStanding_lawful.mergePending
  clearPending := sampleStanding_lawful.clearPending
  selfUpdate {signer seed g m g'} h :=
    sampleStanding_lawful.selfUpdate (show sampleMls.selfUpdate signer seed g = .ok (m,g') from h)
  process commit g := by
    have h : (boundedMls.processMessage commit g).2 = g := Sample.processBounded_group commit g
    rw [h]
    exact ⟨rfl,rfl,rfl⟩
  mergeStaged {staged g g'} h :=
    sampleStanding_lawful.mergeStaged (show sampleMls.mergeStagedCommit staged g = .ok g' from h)

theorem boundedMls_operational :
    Operational boundedMls fun g : Sample.Group => g.stage = .running where
  mergePending := by
    rintro ⟨s,i,stage,ms,p⟩ rfl
    exact ⟨_,rfl,rfl⟩
  clearPending := by
    rintro ⟨s,i,stage,ms,p⟩ rfl
    exact ⟨_,rfl,rfl⟩
  selfUpdate := by
    rintro ⟨s,i,stage,ms,p⟩ rfl hp signer seed
    cases p with
    | none => exact ⟨_,_,rfl,rfl,Sample.messageWire_enc _⟩
    | some m => cases hp
  exportSecrets _ := ⟨⟨⟨_⟩,⟨_⟩⟩,rfl,rfl⟩
  accepted := by
    rintro commit g g' identity hg ⟨processed,staged,hp,-,hm⟩
    have hroom : g.epoch+1 < u64Size := Sample.processBounded_ok hp
    have hsame : (boundedMls.processMessage commit g).2 = g := Sample.processBounded_group commit g
    rw [hsame] at hm
    have hepoch := (boundedStanding_lawful.mergeStaged hm).2
    obtain rfl := Except.ok.inj hm
    refine ⟨hg,?_,?_⟩
    · change Sample.Group.hasPendingCommit ⟨_,_,g.stage,_,none⟩ = false
      rw [show g.stage = .running from hg]
      rfl
    · rw [hepoch]
      exact hroom
  process _ := Sample.processBounded_group _ _

lemma forall_decoded {bytes : Bytes} (commit : Sample.Commit)
    {P : SignalingMessageIn boundedMls → Prop}
    (h : (SignalingMessageIn.wire boundedMls).decExact bytes =
      some (.connectionUpdate ⟨.false,.commit commit⟩))
    (hcommit : P (.connectionUpdate ⟨.false,.commit commit⟩)) :
    ∀ message, (SignalingMessageIn.wire boundedMls).decExact bytes = some message → P message := by
  intro message hdec
  rwa [← Option.some.inj (h.symm.trans hdec)]

/-- The database of a member of two groups, the first one with an own commit or without. -/
def memberDb (isServer : Bool) (pending : Option Sample.Message) : Connection boundedMls :=
  ((⟨fun _ => .ok none,[],some []⟩ : Connection boundedMls).saveGroup
    (⟨⟨[9],[1],[2],[7]⟩,isServer,.running,[],pending⟩ : Sample.Group)).saveGroup
      (⟨⟨[10],[1],[2],[7]⟩,isServer,.running,[],none⟩ : Sample.Group)

lemma memberDb_stored {isServer : Bool} {pending : Option Sample.Message} {i : GroupId}
    {g : Sample.Group} (h : (memberDb isServer pending).groups i = .ok (some g)) :
    g.session.groupId = i ∧ g.stage = .running := by
  simp only [memberDb,Connection.saveGroup,Function.update_apply] at h
  split_ifs at h with h1 h2
  · obtain rfl := Option.some.inj (Except.ok.inj h)
    exact ⟨h1.symm,rfl⟩
  · obtain rfl := Option.some.inj (Except.ok.inj h)
    exact ⟨h2.symm,rfl⟩
  · cases h

lemma memberDb_filed (isServer : Bool) (pending : Option Sample.Message) :
    Roster.Filed (memberDb isServer pending) := fun _ _ h => (memberDb_stored h).1

/-- The commit of the server that is not merged yet, and the state in which it waits. -/
def serverCommit : Sample.Message := .commit ⟨[9],1,1,6⟩

/-- A commit for the second group, for an epoch that is over. -/
def crossedStaleUpdate : Bytes :=
  connectionUpdateBytes (M := boundedMls) false (.commit ⟨[10],0,0,5⟩)

def serverReceives (i : ServerInternalState) (pending : Option Sample.Message) (bytes : Bytes) :
    Outcome (HandshakeError Unit) (TrafficSecrets × Option Bytes) × ServerHandshakeState ×
      Connection boundedMls :=
  (ServerHandshakeState.receiveSignalingMessage [2] bytes 0).run
    (⟨⟨[9],1⟩,i⟩,memberDb true pending)

/-- A commit of the client is accepted; one that is refused costs a waiting server its own commit;
and one for another group that refuses it leaves no trace. -/
theorem ServerHandshakeState.server_error_atomic_sample :
    (serverReceives .running none ownUpdate).1.isOk = true ∧
      Atomic boundedStanding (⟨⟨[9],1⟩,.running⟩,memberDb true none)
        (serverReceives .running none ownUpdate) ∧
      (serverReceives .waitingForUpdate (some serverCommit) staleUpdate).1.isOk = false ∧
      ¬Unchanged boundedStanding (⟨⟨[9],1⟩,.waitingForUpdate⟩,memberDb true (some serverCommit))
        (serverReceives .waitingForUpdate (some serverCommit) staleUpdate).2 ∧
      (serverReceives .waitingForUpdate (some serverCommit) crossedStaleUpdate).1.isOk = false ∧
      Atomic boundedStanding (⟨⟨[9],1⟩,.waitingForUpdate⟩,memberDb true (some serverCommit))
        (serverReceives .waitingForUpdate (some serverCommit) crossedStaleUpdate) := by
  have hatomic (i : ServerInternalState) (pending : Option Sample.Message) (bytes : Bytes) :=
    server_error_atomic boundedStanding_lawful boundedMls_operational
      (memberDb_filed true pending) (fun _ _ h => (memberDb_stored h).2) [2] bytes 0 ⟨⟨[9],1⟩,i⟩
  refine ⟨by decide +kernel,(hatomic .running none ownUpdate).1 ?_,by decide +kernel,?_,
    by decide +kernel,(hatomic .waitingForUpdate (some serverCommit) crossedStaleUpdate).1 ?_⟩
  · refine forall_decoded ⟨[9],1,0,5⟩ rfl ?_
    intro message g hc
    obtain rfl := Option.some.inj (Except.ok.inj hc.stored)
    rfl
  · intro h
    have hsafe := (hatomic .waitingForUpdate (some serverCommit) staleUpdate).2 _ rfl h _ rfl _ _
      ⟨rfl,rfl,rfl⟩
    cases hsafe
  · refine forall_decoded ⟨[10],0,0,5⟩ rfl ?_
    intro message g hc
    obtain rfl := MlsMessageBodyIn.privateMessage.inj hc.extract
    exact absurd hc.groupId (by decide)

/-- The commit of the client that is not merged yet. -/
def clientCommit : Sample.Message := .commit ⟨[9],1,0,6⟩

end MlsTls.MlsHandshake
