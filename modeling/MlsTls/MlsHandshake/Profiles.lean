import MlsTls.Lib.Directory
import MlsTls.MlsHandshake.Epochs
import MlsTls.MlsHandshake.Exchange
import MlsTls.MlsHandshake.Locality
import MlsTls.MlsHandshake.OldVersions

/-! The profiles of a client in its database. The table of handshake states and the library's groups
are written one after the other and refer to each other; together they are a directory, in which
every profile has at most one session and every group is that of one profile. -/
set_option linter.dupNamespace false

namespace MlsTls.MlsHandshake
open Lib TlsAead
variable {M : OpenMls}

namespace ClientHandshakeState

/-- The row is of the current version, and the session in it is that of the entry. -/
structure Names (J : Serde M) (row : HandshakeStateRow) (e : Uuid × GroupId) : Prop where
  profileId_eq : row.profileId = e.1
  version_eq : row.version = ClientHandshakeVersion.default.toSql
  session : ∃ st, J.fromSlice row.handshakeState = some st ∧ st.profileId = e.1 ∧
    st.mlsSession.groupId = e.2

/-- The rows of the table; there are none before the table is created. -/
def rowsOf (c : Connection M) : List HandshakeStateRow := c.handshakeStates.getD []

/-- The database is that of the directory: rows and readable groups are those of the entries. -/
structure Lists (J : Serde M) (D : Directory Uuid GroupId) (c : Connection M) : Prop where
  filed : Roster.Filed c
  readable : ∀ j, ∃ o, c.groups j = .ok o
  rows : D.ListedIn (Names J) (rowsOf c)
  groups : ∀ j, Stored j c ↔ ∃ p, (p,j) ∈ D.entries

/-- What the profile has in `c` it still has in `c'`. -/
structure Spares (D : Directory Uuid GroupId) (q : Uuid) (c c' : Connection M) : Prop where
  row : (rowsOf c').find? (·.profileId = q) = (rowsOf c).find? (·.profileId = q)
  groups : ∀ j, (q,j) ∈ D.entries → c'.groups j = c.groups j

/-- The profile has left the directory, and every other one has what it had. -/
structure Departs (J : Serde M) (D : Directory Uuid GroupId) (p : Uuid) (c c' : Connection M) :
    Prop where
  lists : Lists J (D.leave p) c'
  table : HasTable c'
  others : ∀ q, q ≠ p → Spares D q c c'

section
variable {J : Serde M} {D : Directory Uuid GroupId} {c c' : Connection M} {p q : Uuid} {j : GroupId}

theorem Spares.refl : Spares D q c c := ⟨rfl,fun _ _ => rfl⟩

theorem Spares.trans {D' : Directory Uuid GroupId} {c'' : Connection M} (h : Spares D q c c')
    (hD : ∀ j, (q,j) ∈ D.entries → (q,j) ∈ D'.entries) (h' : Spares D' q c' c'') :
    Spares D q c c'' :=
  ⟨h'.row.trans h.row,fun j hj => (h'.groups j (hD j hj)).trans (h.groups j hj)⟩

/-- The key packages are not of the directory. -/
theorem Spares.keyPackages (h : Spares D q c c') (k : List M.KeyPackageBundle) :
    Spares D q c { c' with keyPackages := k } := ⟨h.row,h.groups⟩

namespace Lists

theorem congr (h : Lists J D c) (hg : c'.groups = c.groups)
    (hr : rowsOf c' = rowsOf c) : Lists J D c' := by
  refine ⟨?_,?_,?_,?_⟩
  · unfold Roster.Filed
    rw [hg]
    exact h.filed
  · rw [hg]
    exact h.readable
  · rw [hr]
    exact h.rows
  · unfold Stored
    rw [hg]
    exact h.groups

/-- A group of the directory is written back. -/
theorem saveGroup (h : Lists J D c) {g : M.Group} (hg : (p,M.groupId g) ∈ D.entries) :
    Lists J D (c.saveGroup g) := by
  refine ⟨h.filed.saveGroup g,fun i => ?_,h.rows,fun i => ?_⟩
  · by_cases hi : i = M.groupId g
    · exact ⟨_,c.saveGroup_groups hi.symm⟩
    · rw [c.saveGroup_groups_of_ne hi]
      exact h.readable i
  · by_cases hi : i = M.groupId g
    · subst hi
      exact ⟨fun _ => ⟨p,hg⟩,fun _ => ⟨g,c.saveGroup_groups_self g⟩⟩
    · rw [← h.groups i,Stored,Stored,c.saveGroup_groups_of_ne hi]

/-- The row of an entry is written for the same session. -/
theorem storeUpdate (hJ : J.Lawful) (h : Lists J D c) {st : ClientHandshakeState M}
    (hst : (st.profileId,st.mlsSession.groupId) ∈ D.entries) :
    Lists J D ((storeUpdate J st).run c).2 ∧
      ∀ q, q ≠ st.profileId → Spares D q c ((ClientHandshakeState.storeUpdate J st).run c).2 := by
  obtain ⟨b,hb⟩ := hJ.toVec_ok st
  obtain ⟨row,hrow,hnames⟩ := h.rows.exists_row hst
  cases hrows : c.handshakeStates with
  | none =>
    rw [rowsOf,hrows] at hrow
    exact absurd hrow List.not_mem_nil
  | some rows =>
    have hlisted := h.rows
    rw [rowsOf,hrows,Option.getD_some] at hlisted
    let write (row : HandshakeStateRow) : HandshakeStateRow :=
      if row.profileId = st.profileId then { row with handshakeState := b } else row
    have hrun : (ClientHandshakeState.storeUpdate J st).run c =
        (.ok (),{ c with handshakeStates := some (rows.map write) }) := by
      simp [ClientHandshakeState.storeUpdate,toSql,setHandshakeStates,Exec.bind_run,
        handshakeStates_run hrows,hb,write]
    rw [hrun]
    refine ⟨⟨h.filed,h.readable,hlisted.map fun row e he hrow => ?_,h.groups⟩,fun q hq => ?_⟩
    · obtain ⟨p,i⟩ := e
      simp only [write]
      split_ifs with hp
      · have hp' : p = st.profileId := hrow.profileId_eq.symm.trans hp
        subst hp'
        obtain rfl := Directory.value_unique he hst
        exact ⟨hrow.profileId_eq,hrow.version_eq,st,hJ.fromSlice_toVec hb,rfl,rfl⟩
      · exact hrow
    · refine ⟨?_,fun _ _ => rfl⟩
      simp only [rowsOf,hrows,Option.getD_some,List.find?_map]
      have hwrite : (fun row : HandshakeStateRow => decide (row.profileId = q)) ∘ write =
          fun row => decide (row.profileId = q) := by
        funext row
        simp only [Function.comp_apply,write]
        split_ifs <;> rfl
      rw [hwrite]
      cases hfind : rows.find? fun row => decide (row.profileId = q) with
      | none => rfl
      | some row =>
        have hp : row.profileId = q := by simpa using List.find?_some hfind
        simp [write,hp,hq]

/-- A profile that is not listed has no row. -/
theorem no_row (h : Lists J D c) (hp : ∀ e ∈ D.entries, e.1 ≠ p) :
    ∀ row ∈ rowsOf c, row.profileId ≠ p := by
  intro row hrow
  obtain ⟨e,he,hnames⟩ := h.rows.exists_entry hrow
  rw [hnames.profileId_eq]
  exact hp e he

/-- Who has left can enter with a group that is not there. -/
theorem free_leave (h : Lists J (D.leave p) c) (hj : ¬Stored j c) : (D.leave p).Free p j := by
  rintro ⟨q,i⟩ he
  refine ⟨(Directory.mem_leave.mp he).2,?_⟩
  rintro rfl
  exact hj ((h.groups _).mpr ⟨q,he⟩)

/-- The profile leaves: its group goes, and its row. Whatever it has had, the deletion returns. -/
theorem delete (h : Lists J D c) (htable : HasTable c) (p : Uuid) :
    ∃ c', (delete J p).run c = (.ok (),c') ∧ Departs J D p c c' := by
  obtain ⟨rows,hrows⟩ := htable
  have hlisted := h.rows
  rw [rowsOf,hrows,Option.getD_some] at hlisted
  by_cases hp : ∀ e ∈ D.entries, e.1 ≠ p
  · have hfind := hlisted.find?_none (fun _ _ hre => hre.profileId_eq) hp
    have hload : (load J p).run c = (.ok none,c) := by
      simp only [load,Exec.bind_run,handshakeStates_run hrows,hfind,Exec.pure_run]
    refine ⟨c,by rw [ClientHandshakeState.delete,Exec.bind_of_ok hload,Exec.pure_run],?_,
      ⟨rows,hrows⟩,fun _ _ => .refl⟩
    rw [Directory.leave_eq_self hp]
    exact h
  · push Not at hp
    obtain ⟨⟨p',j⟩,hmem,rfl⟩ := hp
    obtain ⟨row,hfind,hnames⟩ := hlisted.find? (fun _ _ hre => hre.profileId_eq) hmem
    obtain ⟨st,hst,-,rfl⟩ := hnames.session
    obtain ⟨g,hg⟩ := (h.groups _).mpr ⟨p',hmem⟩
    have hid : M.groupId g = st.mlsSession.groupId := h.filed _ g hg
    have hload : (load J p').run c = (.ok (some st),c) := by
      refine load_parsed hrows hfind hst ?_
      rw [hnames.version_eq]
      rfl
    have hrun := delete_loaded hrows hload hg
    rw [hid] at hrun
    have hgroups (i : GroupId) : Stored i (c.deleteGroup st.mlsSession.groupId) ↔
        ∃ q, (q,i) ∈ (D.leave p').entries := by
      rw [Stored.deleteGroup_iff,h.groups i]
      constructor
      · rintro ⟨hi,q,hq⟩
        refine ⟨q,Directory.mem_leave.mpr ⟨hq,?_⟩⟩
        rintro rfl
        exact hi (Directory.value_unique hq hmem)
      · rintro ⟨q,hq⟩
        obtain ⟨hq,hne⟩ := Directory.mem_leave.mp hq
        refine ⟨?_,q,hq⟩
        rintro rfl
        exact hne (Directory.key_unique hq hmem)
    refine ⟨_,hrun,⟨filed_deleteGroup h.filed,fun i => ?_,?_,hgroups⟩,⟨_,rfl⟩,
      fun q hq => ⟨?_,?_⟩⟩
    · by_cases hi : i = st.mlsSession.groupId
      · exact ⟨none,by rw [hi]; exact Function.update_self ..⟩
      · obtain ⟨o,ho⟩ := h.readable i
        exact ⟨o,(Function.update_of_ne hi _ _).trans ho⟩
    · exact hlisted.leave (fun _ _ hre => hre.profileId_eq) p'
    · simp only [rowsOf,hrows,Option.getD_some]
      rw [List.find?_filter]
      refine List.find?_congr fun row _ => ?_
      by_cases hrow : row.profileId = q
      · simp [hrow,hq]
      · simp [hrow]
    · intro i hi
      refine Function.update_of_ne ?_ _ _
      rintro rfl
      exact hq (Directory.key_unique hi hmem)

/-- The cleanup makes the table, if there is none, and lets the profile leave. -/
theorem cleanup (h : Lists J D c) (p : Uuid) :
    ∃ c', (cleanup J p).run c = (.ok (),c') ∧ Departs J D p c c' := by
  have hlists : Lists J D { c with handshakeStates := some (c.handshakeStates.getD []) } :=
    h.congr rfl rfl
  obtain ⟨c',hrun,hdeparts⟩ := hlists.delete ⟨_,rfl⟩ p
  refine ⟨c',hrun,hdeparts.lists,hdeparts.table,fun q hq => ?_⟩
  exact ⟨(hdeparts.others q hq).row,(hdeparts.others q hq).groups⟩

/-- The profile enters with a new group and a row that names it. -/
theorem enter (hJ : J.Lawful) (h : Lists J D c) (htable : HasTable c) {g : M.Group}
    {st : ClientHandshakeState M} (hg : st.mlsSession.groupId = M.groupId g)
    (hfree : D.Free st.profileId (M.groupId g)) :
    ∃ c', (store J st).run (c.saveGroup g) = (.ok (),c') ∧
      Lists J (D.enter st.profileId (M.groupId g) hfree) c' ∧ HasTable c' ∧
      ∀ q, q ≠ st.profileId → Spares D q c c' := by
  obtain ⟨rows,hrows⟩ := htable
  obtain ⟨b,hb⟩ := hJ.toVec_ok st
  have hlisted := h.rows
  have hno := h.no_row fun e he => (hfree e he).1
  rw [rowsOf,hrows,Option.getD_some] at hlisted hno
  have hany : ¬rows.any (·.profileId = st.profileId) = true := by simpa using hno
  have hrun : (store J st).run (c.saveGroup g) = (.ok (),⟨(c.saveGroup g).groups,c.keyPackages,
      some (rows++[⟨st.profileId,ClientHandshakeVersion.default.toSql,b⟩])⟩) := by
    have hrows' : (c.saveGroup g).handshakeStates = some rows := hrows
    simp only [store,toSql,setHandshakeStates,Exec.bind_run,handshakeStates_run hrows',hb,
      Exec.orThrow_some,if_neg hany,Exec.modify_run]
    rfl
  refine ⟨_,hrun,⟨h.filed.saveGroup g,fun i => ?_,?_,fun i => ?_⟩,⟨_,rfl⟩,fun q hq => ⟨?_,?_⟩⟩
  · by_cases hi : i = M.groupId g
    · exact ⟨_,c.saveGroup_groups hi.symm⟩
    · obtain ⟨o,ho⟩ := h.readable i
      exact ⟨o,(c.saveGroup_groups_of_ne hi).trans ho⟩
  · exact hlisted.enter hfree ⟨rfl,rfl,st,hJ.fromSlice_toVec hb,rfl,hg⟩
  · by_cases hi : i = M.groupId g
    · subst hi
      refine ⟨fun _ => ⟨_,(Directory.mem_enter hfree).mpr (Or.inr ⟨rfl,rfl⟩)⟩,fun _ => ?_⟩
      exact ⟨g,c.saveGroup_groups_self g⟩
    · have hold : Stored i (c.saveGroup g) ↔ Stored i c := by
        rw [Stored,Stored,c.saveGroup_groups_of_ne hi]
      refine hold.trans ((h.groups i).trans (exists_congr fun q => ?_))
      rw [Directory.mem_enter hfree]
      simp [hi]
  · simp only [rowsOf,hrows,Option.getD_some,List.find?_append]
    rw [List.find?_singleton]
    simp [Ne.symm hq]
  · intro i hi
    exact c.saveGroup_groups_of_ne (hfree _ hi).2

end Lists

theorem Departs.keyPackages (h : Departs J D p c c') (k : List M.KeyPackageBundle) :
    Departs J D p c { c' with keyPackages := k } :=
  ⟨h.lists.congr rfl rfl,h.table,fun q hq => (h.others q hq).keyPackages k⟩

/-- What is kept by the writes that a session makes: those of its group, and those of its row while
the group is there. -/
structure Tolerates (J : Serde M) (p : Uuid) (j : GroupId) (I : Connection M → Prop) : Prop where
  filed : ∀ {c}, I c → Roster.Filed c
  saveGroup : ∀ {c} {g : M.Group}, I c → Stored j c → M.groupId g = j → I (c.saveGroup g)
  storeUpdate : ∀ {c} {st : ClientHandshakeState M}, I c → Stored j c → st.profileId = p →
    st.mlsSession.groupId = j → I ((storeUpdate J st).run c).2

/-- Without its group a session writes nothing. -/
theorem tolerates_of_not_stored (hfiled : Roster.Filed c) (h : ¬Stored j c) :
    Tolerates J p j fun c' => c' = c := by
  refine ⟨?_,?_,?_⟩
  · rintro c' rfl
    exact hfiled
  · rintro c' g rfl hstored -
    exact absurd hstored h
  · rintro c' st rfl hstored - -
    exact absurd hstored h

/-- The session of an entry keeps the directory, and leaves every other profile alone. -/
theorem tolerates_of_mem (hJ : J.Lawful) (hp : (p,j) ∈ D.entries) :
    Tolerates J p j fun c' => Lists J D c' ∧ HasTable c' ∧ ∀ q, q ≠ p → Spares D q c c' := by
  refine ⟨fun h => h.1.filed,?_,?_⟩
  · rintro c' g ⟨hlists,htable,hspares⟩ - hid
    rw [← hid] at hp
    refine ⟨hlists.saveGroup hp,htable,fun q hq => (hspares q hq).trans (fun _ hj => hj) ⟨rfl,?_⟩⟩
    intro i hi
    refine c'.saveGroup_groups_of_ne ?_
    rintro rfl
    exact hq (Directory.key_unique hi hp)
  · rintro c' st ⟨hlists,⟨rows,hrows⟩,hspares⟩ - rfl rfl
    obtain ⟨hlists',hspares'⟩ := hlists.storeUpdate hJ hp
    obtain ⟨rows',hrun⟩ := storeUpdate_run hJ st hrows
    refine ⟨hlists',?_,fun q hq => (hspares q hq).trans (fun _ hj => hj) (hspares' q hq)⟩
    rw [hrun]
    exact ⟨rows',rfl⟩

/-- The group of the session is there. -/
abbrev Grounded (j : GroupId) (I : Connection M → Prop) (c : Connection M) : Prop := I c ∧ Stored j c

end
end ClientHandshakeState

namespace MlsSession
open ClientHandshakeState (Tolerates Grounded)
variable {J : Serde M} {p : Uuid} {j : GroupId} {I : Connection M → Prop}

lemma loadGroup_grounded (hI : Tolerates J p j I) :
    Exec.Triple I (loadGroup j) (fun g c => Grounded j I c ∧ M.groupId g = j) fun _ => I := by
  intro c hc
  simp only [loadGroup,Exec.bind_run,Exec.get_run]
  rcases hg : c.groups j with e | _ | g
  · exact hc
  · exact hc
  · exact ⟨⟨hc,g,hg⟩,hI.filed hc j g hg⟩

lemma saveGroup_grounded (hI : Tolerates J p j I) {g : M.Group} (hg : M.groupId g = j) :
    Exec.Keeps (Grounded j I) (Exec.modify (·.saveGroup g) : Db M Unit) fun _ => True :=
  .modify fun c hc => ⟨hI.saveGroup hc.1 hc.2 hg,g,c.saveGroup_groups hg⟩

lemma persist_grounded (hI : Tolerates J p j I) {f : BoxedError M.Error → HandshakeError M.Error}
    {r : Except M.Error M.Group} (hr : ∀ g, r = .ok g → M.groupId g = j) :
    Exec.Keeps (Grounded j I) (persist f r) fun g => M.groupId g = j :=
  .bind .lift fun g hg => .bind (saveGroup_grounded hI (hr g hg)) fun _ _ => .pure (hr g hg)

lemma processEpochKeyUpdate_grounded (hI : Tolerates J p j I) {session : MlsSession}
    (hj : session.groupId = j) (keyUpdate : EpochKeyUpdate) :
    Exec.Triple I (session.processEpochKeyUpdate keyUpdate) (fun _ c => Grounded j I c)
      fun _ => I := by
  rw [processEpochKeyUpdate,hj]
  refine .bind (loadGroup_grounded hI) fun g => ?_
  split_ifs
  · exact .throw fun _ hc => hc.1.1
  · exact .pure fun _ hc => hc.1

variable (hM : KeepsIds M)
include hM

lemma update_grounded (hI : Tolerates J p j I) {session : MlsSession} (hj : session.groupId = j)
    (leafSigner : M.SignatureKeyPair) (seed : ℕ) :
    Exec.Triple I (session.update leafSigner seed) (fun _ c => Grounded j I c) fun _ => I := by
  rw [update,hj]
  refine .bind (loadGroup_grounded hI) fun g => ?_
  refine .bind (Q := fun r c => Grounded j I c ∧ M.groupId r.2 = j)
    (.lift (fun r hr c hc => ⟨hc.1,(hM.selfUpdate hr).trans hc.2⟩) fun _ _ c hc => hc.1.1) ?_
  rintro ⟨m,g'⟩ c ⟨hc,hid⟩
  exact ⟨hI.saveGroup hc.1 hc.2 hid,g',c.saveGroup_groups hid⟩

lemma mergeUpdate_grounded (hI : Tolerates J p j I) :
    Exec.Keeps (fun s : MlsSession × Connection M => s.1.groupId = j ∧ Grounded j I s.2) mergeUpdate
      fun _ => True := by
  rintro ⟨session,c⟩ ⟨rfl,hc⟩
  obtain ⟨g,hg⟩ := hc.2
  rcases mergeUpdate_cases session hg with ⟨e,-,hrun⟩ | ⟨g',hm,hrun⟩
  · rw [hrun]
    exact ⟨rfl,hc⟩
  · have hid : M.groupId g' = session.groupId := (hM.mergePending hm).trans (hI.filed hc.1 _ g hg)
    have hc' := (saveGroup_grounded hI hid c hc).1
    rcases hrun with ⟨secrets,-,hrun⟩ | ⟨-,e,hrun⟩
    · rw [hrun]
      exact ⟨⟨rfl,hc'⟩,trivial⟩
    · rw [hrun]
      exact ⟨rfl,hc'⟩

lemma settlePendingCommit_grounded (hI : Tolerates J p j I) (message : M.PrivateMessage) (drop : Bool)
    {g : M.Group} (hg : M.groupId g = j) :
    Exec.Keeps (Grounded j I) (settlePendingCommit message drop g) fun g₁ => M.groupId g₁ = j := by
  unfold settlePendingCommit
  split_ifs
  · exact persist_grounded hI fun g' hg' => (hM.mergePending hg').trans hg
  · exact persist_grounded hI fun g' hg' => (hM.clearPending hg').trans hg
  · exact .pure hg
  · exact .panic

lemma processMessage_grounded (hI : Tolerates J p j I) (message : M.PrivateMessage) {g : M.Group}
    (hg : M.groupId g = j) :
    Exec.Keeps (Grounded j I) (MlsSession.processMessage message g) fun r => M.groupId r.2 = j := by
  have hid := (hM.process message g).trans hg
  exact .bind (saveGroup_grounded hI hid) fun _ _ => .bind .lift fun _ _ => .pure hid

lemma processMlsUpdate_grounded (hI : Tolerates J p j I) {mlsMessage : M.Message}
    (hnamed : ∀ {c}, I c → ∀ i ∈ namedBy mlsMessage, ClientHandshakeState.Stored i c → i = j)
    (drop : Bool) :
    Exec.Triple I (processMlsUpdate mlsMessage drop)
      (fun r c => Grounded j I c ∧ r.2.1.groupId = j) fun _ => I := by
  unfold processMlsUpdate
  split
  · rename_i message he
    intro c hc
    by_cases hj : ClientHandshakeState.Stored (M.messageGroupId message) c
    · rw [hnamed hc _ ⟨message,he,rfl⟩ hj]
      refine Exec.Triple.bind (loadGroup_grounded hI) (fun g => ?_) c hc
      rintro c' ⟨hc',hg⟩
      refine Exec.Keeps.andThen (settlePendingCommit_grounded hM hI message drop hg)
        (fun _ _ h => h.1) (fun g₁ hg₁ => ?_) c' hc'
      refine (processMessage_grounded hM hI message hg₁).andThen (fun _ _ h => h.1) ?_
      rintro ⟨processed,g₂⟩ hg₂
      refine Exec.Keeps.lift.andThen (fun _ _ h => h.1) ?_
      rintro ⟨staged,identity⟩ -
      refine (persist_grounded hI fun g' hg' => (hM.mergeStaged hg').trans hg₂).andThen
        (fun _ _ h => h.1) fun g₃ hg₃ => ?_
      exact (Roster.exportTrafficSecrets_keeps g₃).andThen (fun _ _ h => h.1) fun _ _ =>
        .pure fun _ h => ⟨h,hg₃⟩
    · -- there is no such group, and nothing is changed
      rcases hg : c.groups (M.messageGroupId message) with e | _ | g
      · simp only [loadGroup,Exec.bind_run,Exec.get_run,hg,Exec.lift_error]
        exact hc
      · simp only [loadGroup,Exec.bind_run,Exec.get_run,hg,Exec.lift_ok,Exec.orThrow_none]
        exact hc
      · exact absurd ⟨g,hg⟩ hj
  · exact .throw fun _ hc => hc

end MlsSession

namespace ClientHandshakeState

/-- A client of the profile `p` with the session `j`, on a database of which `I` holds. -/
structure Holder (p : Uuid) (j : GroupId) (I : Connection M → Prop)
    (s : ClientHandshakeState M × Connection M) : Prop where
  profileId_eq : s.1.profileId = p
  groupId_eq : s.1.mlsSession.groupId = j
  db : I s.2

section
variable {J : Serde M} {p : Uuid} {j : GroupId} {I : Connection M → Prop} {α : Type}

/-- The client before and after a call whose last write is that of the row. -/
abbrev KeepsHolder (p : Uuid) (j : GroupId) (I : Connection M → Prop) (x : Call M α) : Prop :=
  Exec.Triple (Holder p j I) x (fun _ => Holder p j I) fun _ => Holder p j I

lemma Holder.of_grounded {s : ClientHandshakeState M × Connection M}
    (h : Holder p j (Grounded j I) s) : Holder p j I s := ⟨h.profileId_eq,h.groupId_eq,h.db.1⟩

lemma db_holder {P E : Connection M → Prop} {x : Db M α} {Q : α → Connection M → Prop}
    (h : Exec.Triple P x Q fun _ => E) :
    Exec.Triple (Holder p j P) (db x) (fun a => Holder p j (Q a)) fun _ => Holder p j E := by
  intro s hs
  have hx := h s.2 hs.db
  rw [db,Exec.zoom_run]
  generalize x.run s.2 = r at hx ⊢
  obtain ⟨f | a,c'⟩ := r
  · exact ⟨hs.profileId_eq,hs.groupId_eq,hx⟩
  · exact ⟨hs.profileId_eq,hs.groupId_eq,hx⟩

lemma setInternalState_holder (i : ClientInternalState M) :
    Exec.Keeps (Holder p j I) (setInternalState i) fun _ => True :=
  .modify fun _ hs => ⟨hs.profileId_eq,hs.groupId_eq,hs.db⟩

lemma createEpochKeyUpdate_holder :
    Exec.Keeps (Holder p j I) createEpochKeyUpdate fun _ => True := by
  refine .bind .get fun s _ => .bind (Q := fun _ => True) ?_ fun _ _ =>
    .mono .orThrow fun _ _ => trivial
  exact (db_holder (MlsSession.createEpochKeyUpdate_invariant (I := I) s.1.mlsSession)).conseq
    (fun _ hs => hs) (fun _ _ hs => ⟨⟨hs.profileId_eq,hs.groupId_eq,hs.db.1⟩,hs.db.2⟩)
    fun _ _ hs => hs

lemma withSession_holder {x : MlsSession → Db M α} {Q : α → Connection M → Prop}
    (hx : ∀ {session : MlsSession}, session.groupId = j → Exec.Triple I (x session) Q fun _ => I) :
    Exec.Triple (Holder p j I)
      (do
        let s ← Exec.get
        db (x s.1.mlsSession) : Call M α) (fun a => Holder p j (Q a)) fun _ => Holder p j I := by
  refine .bind (Q := fun s₀ s => s₀ = s ∧ Holder p j I s) (.get fun s hs => ⟨rfl,hs⟩) fun s₀ => ?_
  rintro s ⟨rfl,hs⟩
  exact db_holder (hx hs.groupId_eq) s₀ hs

lemma processEpochKeyUpdate_grounded (hI : Tolerates J p j I) (keyUpdate : EpochKeyUpdate) :
    Exec.Triple (Holder p j I) (processEpochKeyUpdate keyUpdate) (fun _ => Holder p j (Grounded j I))
      fun _ => Holder p j I :=
  withSession_holder fun hj => MlsSession.processEpochKeyUpdate_grounded hI hj keyUpdate

lemma writeRow_holder (hI : Tolerates J p j I) (a : α) :
    Exec.Triple (Holder p j (Grounded j I))
      (do
        let s ← Exec.get
        db (storeUpdate J s.1)
        pure a : Call M α) (fun _ => Holder p j I) fun _ => Holder p j I := by
  intro s hs
  have hc := hI.storeUpdate hs.db.1 hs.db.2 hs.profileId_eq hs.groupId_eq
  simp only [Exec.bind_run,Exec.get_run,db,Exec.zoom_run]
  generalize (storeUpdate J s.1).run s.2 = r at hc ⊢
  obtain ⟨f | u,c'⟩ := r
  · exact ⟨hs.profileId_eq,hs.groupId_eq,hc⟩
  · exact ⟨hs.profileId_eq,hs.groupId_eq,hc⟩

lemma takeInternalState_holder : Exec.Keeps (Holder p j I) takeInternalState fun _ => True :=
  .bind .get fun _ _ => .bind (setInternalState_holder _) fun _ _ => .pure trivial

lemma receiveConnectionConfirmation_holder (hI : Tolerates J p j I) (confirmation : EpochKeyUpdate)
    (messageType : String) :
    KeepsHolder p j I (receiveConnectionConfirmation J confirmation messageType) := by
  refine takeInternalState_holder.andThen (fun _ _ hs => hs) fun i _ => ?_
  split
  · refine .bind (processEpochKeyUpdate_grounded hI confirmation) fun _ => ?_
    exact (setInternalState_holder _).andThen (fun _ _ hs => hs.of_grounded)
      fun _ _ => writeRow_holder hI _
  · exact .throw fun _ hs => hs

lemma receiveEpochKeyUpdate_holder (hI : Tolerates J p j I) (update : EpochKeyUpdate)
    (messageType : String) : KeepsHolder p j I (receiveEpochKeyUpdate J update messageType) := by
  refine takeInternalState_holder.andThen (fun _ _ hs => hs) fun i _ => ?_
  split
  · exact .bind (processEpochKeyUpdate_grounded hI update) fun _ => writeRow_holder hI _
  · exact .bind (processEpochKeyUpdate_grounded hI update) fun _ => writeRow_holder hI _
  · exact .throw fun _ hs => hs

section
variable (hM : KeepsIds M)
include hM

lemma sessionUpdate_grounded (hI : Tolerates J p j I) (leafSigner : M.SignatureKeyPair) (seed : ℕ) :
    Exec.Triple (Holder p j I) (sessionUpdate leafSigner seed) (fun _ => Holder p j (Grounded j I))
      fun _ => Holder p j I :=
  withSession_holder fun hj => MlsSession.update_grounded hM hI hj leafSigner seed

lemma mergeUpdate_grounded (hI : Tolerates J p j I) :
    Exec.Keeps (Holder p j (Grounded j I)) (session MlsSession.mergeUpdate) fun _ => True := by
  intro s hs
  have hx := MlsSession.mergeUpdate_grounded hM hI (s.1.mlsSession,s.2) ⟨hs.groupId_eq,hs.db⟩
  rw [session,Exec.zoom_run]
  generalize MlsSession.mergeUpdate.run (s.1.mlsSession,s.2) = r at hx ⊢
  obtain ⟨f | a,t⟩ := r
  · exact ⟨hs.profileId_eq,hx.1,hx.2⟩
  · exact ⟨⟨hs.profileId_eq,hx.1.1,hx.1.2⟩,trivial⟩

lemma commit_holder (hI : Tolerates J p j I) {k : M.Message → TrafficSecrets → Call M α}
    (leafSigner : M.SignatureKeyPair) (seed : ℕ) {Q : α → ClientHandshakeState M × Connection M → Prop}
    (hk : ∀ m t, Exec.Triple (Holder p j (Grounded j I)) (k m t) Q fun _ => Holder p j I) :
    Exec.Triple (Holder p j I) (do
      let m ← sessionUpdate leafSigner seed
      let t ← session MlsSession.mergeUpdate
      k m t) Q fun _ => Holder p j I :=
  .bind (sessionUpdate_grounded hM hI leafSigner seed) fun m =>
    (mergeUpdate_grounded hM hI).andThen (fun _ _ hs => hs.of_grounded) fun t _ => hk m t

theorem update_holder (hI : Tolerates J p j I) (leafSigner : M.SignatureKeyPair)
    (updateRequested : Bool) (seed : ℕ) :
    KeepsHolder p j I (update J leafSigner updateRequested seed) := by
  refine Exec.Keeps.get.andThen (fun _ _ hs => hs) fun s _ => ?_
  split_ifs
  · exact .throw fun _ hs => hs
  · refine commit_holder hM hI leafSigner seed fun m t => ?_
    refine Exec.Keeps.orThrow.andThen (fun _ _ hs => hs.of_grounded) fun bytes _ => ?_
    exact (setInternalState_holder _).andThen (fun _ _ hs => hs.of_grounded)
      fun _ _ => writeRow_holder hI _

lemma processUpdate_grounded (hI : Tolerates J p j I) (leafSigner : M.SignatureKeyPair)
    {update : ConnectionUpdateIn M}
    (hnamed : ∀ {c}, I c → ∀ i ∈ namedBy update.mlsCommit, Stored i c → i = j) (seed : ℕ) :
    Exec.Triple (Holder p j I) (processUpdate leafSigner update seed)
      (fun _ => Holder p j (Grounded j I)) fun _ => Holder p j I := by
  refine .bind (db_holder (MlsSession.processMlsUpdate_grounded hM hI hnamed false)) ?_
  rintro ⟨secrets,mlsSession,identity⟩
  refine .bind (Q := fun _ => Holder p j (Grounded j I))
    (.modify fun s hs => ⟨hs.profileId_eq,hs.db.2,hs.db.1⟩) fun _ => ?_
  refine createEpochKeyUpdate_holder.andThen (fun _ _ hs => hs.of_grounded) fun bytes _ => ?_
  split_ifs
  · refine .pre (commit_holder hM hI leafSigner seed fun m t => ?_) fun _ hs => hs.of_grounded
    refine (setInternalState_holder _).andThen (fun _ _ hs => hs.of_grounded) fun _ _ => ?_
    exact Exec.Keeps.orThrow.andThen (fun _ _ hs => hs.of_grounded) fun _ _ => .pure fun _ hs => hs
  · exact (setInternalState_holder _).andThen (fun _ _ hs => hs.of_grounded) fun _ _ =>
      .pure fun _ hs => hs

theorem receiveSignalingMessage_holder (hI : Tolerates J p j I) (leafSigner : M.SignatureKeyPair)
    {messageBytes : Bytes} (hnamed : ∀ {c}, I c → ∀ update,
      (SignalingMessageIn.wire M).decExact messageBytes = some (.connectionUpdate update) →
        ∀ i ∈ namedBy update.mlsCommit, Stored i c → i = j) (seed : ℕ) :
    KeepsHolder p j I (receiveSignalingMessage J leafSigner messageBytes seed) := by
  refine Exec.Keeps.orThrow.andThen (fun _ _ hs => hs) fun message hmessage => ?_
  cases message with
  | connectionUpdate update =>
    refine Exec.Keeps.get.andThen (fun _ _ hs => hs) fun s _ => ?_
    split_ifs
    · exact .pure fun _ hs => hs
    · exact .bind (processUpdate_grounded hM hI leafSigner (fun hc => hnamed hc update hmessage) seed)
        fun r => writeRow_holder hI _
  | connectionConfirmation confirmation => exact receiveConnectionConfirmation_holder hI confirmation _
  | epochKeyUpdate update => exact receiveEpochKeyUpdate_holder hI update _
  | keyUpdate update => exact .panic fun _ hs => hs

end
end
end ClientHandshakeState

end MlsTls.MlsHandshake
