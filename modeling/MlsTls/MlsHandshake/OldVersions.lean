import Mathlib.Data.List.Find
import Mathlib.Data.List.Nodup
import MlsTls.MlsHandshake.OtherVersions
import MlsTls.MlsHandshake.Recovery

/-! The removal of all rows of other versions. Every state is parsed, then the groups go one after
the other, and the rows at the end. A removal that is interrupted in between cannot be resumed: the
next one asks for a group that is gone. -/
set_option linter.dupNamespace false

namespace MlsTls.MlsHandshake
open Lib
variable {M : OpenMls}

/-- `version != ?`, with the current version. -/
def HandshakeStateRow.isOld (row : HandshakeStateRow) : Bool :=
  row.version ≠ ClientHandshakeVersion.default.toSql

/-- The database without some of its groups. -/
def Connection.without (c : Connection M) (ids : List GroupId) : Connection M :=
  { c with groups := fun i => if i ∈ ids then .ok none else c.groups i }

namespace ClientHandshakeState
variable (J : Serde M)

/-- What the rows of other versions are parsed as, if all of them can be. -/
def parseOld (rows : List HandshakeStateRow) : Option (List (ClientHandshakeState M)) :=
  (rows.filter (·.isOld)).mapM fun row => J.fromSlice row.handshakeState

def oldStates : Db M (List (ClientHandshakeState M)) := do
  let rows ← handshakeStates
  Exec.orThrow (.persistenceError .fromSqlConversionFailure) (parseOld J rows)

/-- `DELETE FROM handshake_states WHERE version != ?` -/
def deleteOldRows : Db M Unit := do
  let rows ← handshakeStates
  setHandshakeStates (rows.filter fun row => !row.isOld)

def deleteOldVersions : Db M Unit := do
  let states ← oldStates J
  Exec.each (fun state => state.mlsSession.delete) states
  deleteOldRows

/-- `delete_old_versions`, write by write. -/
def deleteOldVersionsSteps : DbSteps M Unit := do
  let states ← .read (oldStates J)
  Steps.each (fun state => .write .groupDeletion state.mlsSession.delete) states
  .write .rowDeletion deleteOldRows

theorem deleteOldVersionsSteps_exec :
    (deleteOldVersionsSteps J).exec = (deleteOldVersions J : Db M Unit) :=
  Steps.bind_exec_congr rfl fun states =>
    Steps.bind_exec_congr (Steps.each_exec _ states) fun _ => rfl

/-- The groups that the rows of other versions name, if all of them can be parsed. -/
def oldGroups (rows : List HandshakeStateRow) : Option (List GroupId) :=
  (parseOld J rows).map (·.map (·.mlsSession.groupId))

/-- The rows of other versions name these groups, which are all there and all different. -/
structure Removable (c : Connection M) (rows : List HandshakeStateRow) (ids : List GroupId) :
    Prop where
  named : oldGroups J rows = some ids
  nodup : ids.Nodup
  stored : ∀ id ∈ ids, Stored id c

/-- The database after the removal. -/
def removed (c : Connection M) (rows : List HandshakeStateRow) (ids : List GroupId) :
    Connection M :=
  { c.without ids with handshakeStates := some (rows.filter fun row => !row.isOld) }

variable {J} {c c' : Connection M} {rows : List HandshakeStateRow} {ids : List GroupId}
  {id : GroupId} {p : Uuid}

lemma oldGroups_of_parsed {states : List (ClientHandshakeState M)}
    (h : parseOld J rows = some states) :
    oldGroups J rows = some (states.map (·.mlsSession.groupId)) := by
  rw [oldGroups,h,Option.map_some]

lemma Stored.deleteGroup_iff {i : GroupId} :
    Stored i (c.deleteGroup id) ↔ i ≠ id ∧ Stored i c := by
  unfold Stored Connection.deleteGroup
  by_cases h : i = id
  · simp [h]
  · simp [h,Function.update_of_ne]

lemma filed_deleteGroup (h : Roster.Filed c) : Roster.Filed (c.deleteGroup id) := by
  intro j g hg
  by_cases hj : j = id
  · simp [Connection.deleteGroup,hj] at hg
  · exact h j g (by simpa [Connection.deleteGroup,hj] using hg)

lemma deleteGroup_without (c : Connection M) (id : GroupId) (ids : List GroupId) :
    (c.deleteGroup id).without ids = c.without (id::ids) := by
  unfold Connection.without Connection.deleteGroup
  congr 1
  funext i
  by_cases h : i = id
  · simp [h]
  · simp [h,Function.update_of_ne]

lemma delete_session (hfiled : Roster.Filed c) (session : MlsSession) :
    Stored session.groupId c ∧
        (session.delete : Db M Unit).run c = (.ok (),c.deleteGroup session.groupId) ∨
      ¬Stored session.groupId c ∧ ∃ f, (session.delete : Db M Unit).run c = (.error f,c) := by
  simp only [MlsSession.delete,MlsSession.loadGroup,Exec.bind_run,Exec.get_run,Stored]
  rcases hg : c.groups session.groupId with e | _ | g
  · exact Or.inr ⟨by simp,_,rfl⟩
  · exact Or.inr ⟨by simp,_,rfl⟩
  · refine Or.inl ⟨⟨g,rfl⟩,?_⟩
    simp only [Exec.lift_ok,Exec.orThrow_some,Exec.modify_run,hfiled _ g hg]

lemma deleteSessions_ok (hfiled : Roster.Filed c) (states : List (ClientHandshakeState M)) :
    (Exec.each (fun state => state.mlsSession.delete) states : Db M Unit).run c = (.ok (),c') ↔
      ((states.map (·.mlsSession.groupId)).Nodup ∧
        ∀ id ∈ states.map (·.mlsSession.groupId), Stored id c) ∧
      c' = c.without (states.map (·.mlsSession.groupId)) := by
  induction states generalizing c with
  | nil =>
    simp only [Exec.each,Exec.pure_run,List.map_nil,Connection.without,List.not_mem_nil,if_false]
    simp [eq_comm]
  | cons state states ih =>
    rw [Exec.each,List.map_cons,List.nodup_cons,List.forall_mem_cons,← deleteGroup_without]
    rcases delete_session hfiled state.mlsSession with ⟨hstored,hrun⟩ | ⟨hstored,f,hrun⟩
    · rw [Exec.bind_of_ok hrun,ih (filed_deleteGroup hfiled)]
      refine and_congr_left fun _ => ?_
      simp only [Stored.deleteGroup_iff]
      constructor
      · rintro ⟨hnodup,hall⟩
        exact ⟨⟨fun hmem => (hall _ hmem).1 rfl,hnodup⟩,hstored,fun i hi => (hall i hi).2⟩
      · rintro ⟨⟨hnot,hnodup⟩,-,hall⟩
        refine ⟨hnodup,fun i hi => ⟨?_,hall i hi⟩⟩
        rintro rfl
        exact hnot hi
    · rw [Exec.bind_run,hrun]
      simp [hstored]

lemma handshakeStates_run (hrows : c.handshakeStates = some rows) :
    (handshakeStates : Db M _).run c = (.ok rows,c) := by
  simp only [handshakeStates,Exec.bind_run,Exec.get_run,hrows,Exec.orThrow_some]

lemma deleteOldRows_run (hrows : c.handshakeStates = some rows) :
    (deleteOldRows : Db M Unit).run c =
      (.ok (),{ c with handshakeStates := some (rows.filter fun row => !row.isOld) }) := by
  simp only [deleteOldRows,setHandshakeStates,Exec.bind_run,handshakeStates_run hrows,
    Exec.modify_run]

lemma deleteOldVersions_eq_ok (hfiled : Roster.Filed c) (hrows : c.handshakeStates = some rows) :
    (deleteOldVersions J).run c = (.ok (),c') ↔
      ∃ ids, Removable J c rows ids ∧ c' = removed c rows ids := by
  have hold : (oldStates J).run c =
      (Exec.orThrow (.persistenceError .fromSqlConversionFailure) (parseOld J rows) : Db M _).run c :=
    Exec.bind_of_ok (handshakeStates_run hrows) _
  cases hparse : parseOld J rows with
  | none =>
    rw [hparse,Exec.orThrow_none] at hold
    rw [deleteOldVersions,Exec.bind_run,hold]
    constructor
    · simp
    · rintro ⟨ids,h,-⟩
      have hnamed := h.named
      simp [oldGroups,hparse] at hnamed
  | some states =>
    rw [hparse,Exec.orThrow_some] at hold
    have hgroups := oldGroups_of_parsed hparse
    rw [deleteOldVersions,Exec.bind_of_ok hold,Exec.bind_eq_ok]
    constructor
    · rintro ⟨⟨⟩,c₁,hsessions,hdelete⟩
      obtain ⟨⟨hnodup,hstored⟩,rfl⟩ := (deleteSessions_ok hfiled states).mp hsessions
      refine ⟨_,⟨hgroups,hnodup,hstored⟩,?_⟩
      have hrun := deleteOldRows_run (c := c.without (states.map (·.mlsSession.groupId))) hrows
      exact (Prod.mk.inj (hdelete.symm.trans hrun)).2
    · rintro ⟨ids,⟨hnamed,hnodup,hstored⟩,rfl⟩
      obtain rfl := Option.some.inj (hgroups.symm.trans hnamed)
      exact ⟨(),_,(deleteSessions_ok hfiled states).mpr ⟨⟨hnodup,hstored⟩,rfl⟩,
        deleteOldRows_run (c := c.without (states.map (·.mlsSession.groupId))) hrows⟩

/-- The rows of other versions name a group that is not there. -/
structure Lacking (J : Serde M) (rows : List HandshakeStateRow) (c : Connection M) : Prop where
  rows_eq : c.handshakeStates = some rows
  lacks : ∃ ids, oldGroups J rows = some ids ∧ ∃ id ∈ ids, ¬Stored id c

lemma deleteOldVersionsSteps_durable (hfiled : Roster.Filed c)
    (hrows : c.handshakeStates = some rows) {I : Connection M → Prop} {torn : DbWrite → Prop}
    (hI : ∀ d, Roster.Filed d → d = c ∨ Lacking J rows d → I d)
    (hremoved : ¬torn .rowDeletion → ∀ ids, Removable J c rows ids → I (removed c rows ids)) :
    (deleteOldVersionsSteps J).Durable I torn (· = c) fun _ d =>
      ∃ ids, Removable J c rows ids ∧ d = removed c rows ids := by
  -- until the rows go, either nothing has been removed or a group lacks
  have hold : Exec.Triple (· = c) (oldStates J)
      (fun states d => d = c ∧ parseOld J rows = some states) fun _ d => I d := by
    rintro _ rfl
    rw [oldStates,Exec.bind_of_ok (handshakeStates_run hrows)]
    cases hparse : parseOld J rows with
    | none => exact hI _ hfiled (Or.inl rfl)
    | some states => exact ⟨rfl,rfl⟩
  refine .bind (.read hold) fun states => ?_
  -- every round keeps that the rows are there and their groups are not
  have hround : ∀ state ∈ states, parseOld J rows = some states →
      (Steps.write .groupDeletion state.mlsSession.delete : DbSteps M Unit).Durable I torn
        (fun d => Roster.Filed d ∧ (d = c ∨ Lacking J rows d))
        fun _ d => Roster.Filed d ∧ (d = c ∨ Lacking J rows d) := by
    intro state hmem hparse
    refine .write ?_ fun _ _ d hd => hI d hd.1 hd.2
    rintro d ⟨hd,hcase⟩
    have hrows' : d.handshakeStates = some rows := by
      rcases hcase with rfl | h
      · exact hrows
      · exact h.rows_eq
    rcases delete_session hd state.mlsSession with ⟨-,hrun⟩ | ⟨-,f,hrun⟩
    · rw [hrun]
      have hnot : ¬Stored state.mlsSession.groupId (d.deleteGroup state.mlsSession.groupId) :=
        fun h => (Stored.deleteGroup_iff.mp h).1 rfl
      exact ⟨filed_deleteGroup hd,Or.inr ⟨hrows',_,oldGroups_of_parsed hparse,_,
        List.mem_map_of_mem hmem,hnot⟩⟩
    · rw [hrun]
      exact hI d hd hcase
  have hsessions : (Steps.each (fun state => .write .groupDeletion state.mlsSession.delete) states :
      DbSteps M Unit).Durable I torn (fun d => d = c ∧ parseOld J rows = some states)
        fun _ d => ∃ ids, Removable J c rows ids ∧ d = c.without ids := by
    constructor
    · rintro d ⟨rfl,hparse⟩
      have hloop := (Steps.Durable.each fun state hmem => hround state hmem hparse).exec d
        ⟨hfiled,Or.inl rfl⟩
      rw [Steps.each_exec] at hloop ⊢
      rcases hrun : (Exec.each (fun state => state.mlsSession.delete) states : Db M Unit).run d with
        ⟨f | ⟨⟨⟩⟩,d'⟩
      · simp only [Steps.write_exec,hrun] at hloop ⊢
        exact hloop
      · simp only [Steps.write_exec,hrun]
        obtain ⟨⟨hnodup,hstored⟩,rfl⟩ := (deleteSessions_ok hfiled states).mp hrun
        exact ⟨_,⟨oldGroups_of_parsed hparse,hnodup,hstored⟩,rfl⟩
    · rintro d ⟨rfl,hparse⟩
      exact (Steps.Durable.each fun state hmem => hround state hmem hparse).writes d
        ⟨hfiled,Or.inl rfl⟩
  refine .bind hsessions fun _ => .write ?_ ?_
  · rintro d ⟨ids,h,rfl⟩
    have hrun := deleteOldRows_run (c := c.without ids) hrows
    rw [hrun]
    exact ⟨ids,h,rfl⟩
  · rintro htorn ⟨⟩ d ⟨ids,h,rfl⟩
    exact hremoved htorn ids h

lemma deleteOldVersions_failed (hfiled : Roster.Filed c) (hrows : c.handshakeStates = some rows)
    {f : Fault (HandshakeError M.Error)} (h : (deleteOldVersions J).run c = (.error f,c')) :
    c' = c ∨ Lacking J rows c' := by
  have hdurable : (deleteOldVersionsSteps J).Durable (fun d => d = c ∨ Lacking J rows d)
      (· = .rowDeletion) (· = c) fun _ d => ∃ ids, Removable J c rows ids ∧ d = removed c rows ids :=
    deleteOldVersionsSteps_durable hfiled hrows (fun _ _ hd => hd) fun h => absurd rfl h
  have hexec := hdurable.exec c rfl
  rw [deleteOldVersionsSteps_exec,h] at hexec
  exact hexec

lemma find?_current (hkeep : ∀ row ∈ rows, row.isOld → row.profileId ≠ p) :
    (rows.filter fun row => !row.isOld).find? (·.profileId = p) =
      rows.find? (·.profileId = p) := by
  rw [List.find?_filter]
  refine List.find?_congr fun row hrow => ?_
  cases hold : row.isOld with
  | false => simp
  | true => simp [hkeep row hrow hold]

lemma passedOver_of_no_row (hJ : J.Lawful) (hrows : c.handshakeStates = some rows)
    (state : ClientHandshakeState M) (hno : ∀ row ∈ rows, row.profileId ≠ state.profileId) :
    PassedOver J c state := by
  have hfind : rows.find? (·.profileId = state.profileId) = none := by simpa using hno
  have hload : (load J state.profileId).run c = (.ok none,c) := by
    simp only [load,Exec.bind_run,handshakeStates_run hrows,hfind,Exec.pure_run]
  have hdelete : (delete J state.profileId).run c = (.ok (),c) := by
    rw [delete,Exec.bind_of_ok hload,Exec.pure_run]
  obtain ⟨c',hstore⟩ := store_run hJ state hrows hno
  refine ⟨by rw [hload],c',(replace_eq_ok hrows).mpr ⟨c,hdelete,hstore⟩,?_⟩
  have hpersisted : (load J state.profileId).run c' = (.ok (some state),c') :=
    (store_persists hJ hstore).2
  rw [hpersisted]

lemma load_congr {d : Connection M} {rows' : List HandshakeStateRow}
    (hrows : c.handshakeStates = some rows) (hrows' : d.handshakeStates = some rows')
    (hfind : rows'.find? (·.profileId = p) = rows.find? (·.profileId = p)) :
    ((load J p).run d).1 = ((load J p).run c).1 := by
  simp only [load,Exec.bind_run,handshakeStates_run hrows,handshakeStates_run hrows',hfind]
  cases rows.find? (·.profileId = p) with
  | none => rfl
  | some row =>
    cases hst : J.fromSlice row.handshakeState with
    | none => simp [hst,Exec.bind_run]
    | some st =>
      cases hv : ClientHandshakeVersion.columnResult row.version with
      | none => simp [hst,hv,Exec.bind_run]
      | some v =>
        simp only [hst,hv,Exec.bind_run,Exec.orThrow_some]
        split_ifs <;> rfl

/-- All rows of other versions are removed exactly if all of them can be parsed and the groups that
they name are there and all different. Then these groups and rows are gone and nothing else is, and
the profiles can be given new states. Otherwise all rows stay. -/
theorem deleteOldVersions_removes (hJ : J.Lawful) (hfiled : Roster.Filed c)
    (hrows : c.handshakeStates = some rows) (hkey : (rows.map (·.profileId)).Nodup) :
    ((∃ c', (deleteOldVersions J).run c = (.ok (),c')) ↔ ∃ ids, Removable J c rows ids) ∧
    (∀ c', (deleteOldVersions J).run c = (.ok (),c') → ∃ ids, oldGroups J rows = some ids ∧
      c' = removed c rows ids ∧
      (∀ row ∈ rows, row.isOld → ∀ state, state.profileId = row.profileId → PassedOver J c' state) ∧
      ∀ p, (∀ row ∈ rows, row.isOld → row.profileId ≠ p) →
        ((load J p).run c').1 = ((load J p).run c).1) ∧
    ∀ f c', (deleteOldVersions J).run c = (.error f,c') → c'.handshakeStates = some rows := by
  refine ⟨?_,fun c' h => ?_,fun f c' h => ?_⟩
  · simp only [deleteOldVersions_eq_ok hfiled hrows]
    constructor
    · rintro ⟨c',ids,h,-⟩
      exact ⟨ids,h⟩
    · rintro ⟨ids,h⟩
      exact ⟨_,ids,h,rfl⟩
  · obtain ⟨ids,hremovable,rfl⟩ := (deleteOldVersions_eq_ok hfiled hrows).mp h
    refine ⟨ids,hremovable.named,rfl,fun row hrow hold state hstate => ?_,fun p hkeep => ?_⟩
    · refine passedOver_of_no_row hJ rfl state fun row' hrow' hp => ?_
      obtain ⟨hmem,hcurrent⟩ := List.mem_filter.mp hrow'
      obtain rfl := List.inj_on_of_nodup_map hkey hmem hrow (hp.trans hstate)
      simp [hold] at hcurrent
    · exact load_congr hrows rfl (find?_current hkeep)
  · rcases deleteOldVersions_failed hfiled hrows h with rfl | hlacking
    · exact hrows
    · exact hlacking.rows_eq

variable (J) in
/-- A removal, and what is left if the process stops after so many writes. -/
def attempt (stop : Option ℕ) (c : Connection M) : Connection M :=
  match stop with
  | none => ((deleteOldVersions J).run c).2
  | some n => ((deleteOldVersionsSteps J).stopped c n).2

lemma Lacking.fails (h : Lacking J rows c) (hfiled : Roster.Filed c) :
    ∃ f, ((deleteOldVersions J).run c).1 = .error f := by
  rcases hrun : (deleteOldVersions J).run c with ⟨f | ⟨⟨⟩⟩,c'⟩
  · exact ⟨f,rfl⟩
  · obtain ⟨ids,hremovable,-⟩ := (deleteOldVersions_eq_ok hfiled h.rows_eq).mp hrun
    obtain ⟨ids',hnamed,id,hmem,hnot⟩ := h.lacks
    obtain rfl := Option.some.inj (hnamed.symm.trans hremovable.named)
    exact absurd (hremovable.stored id hmem) hnot

/-- What can be left of the database `c`: all of it, what a removal that returned leaves, or one where a
group lacks. -/
def Left (J : Serde M) (rows : List HandshakeStateRow) (c d : Connection M) : Prop :=
  Roster.Filed d ∧
    (d = c ∨ Lacking J rows d ∨ ∃ ids, Removable J c rows ids ∧ d = removed c rows ids)

lemma attempt_left (hfiled : Roster.Filed c) (hrows : c.handshakeStates = some rows)
    (stop : Option ℕ) : Left J rows c (attempt J stop c) := by
  have hremoved (ids : List GroupId) : Roster.Filed (removed c rows ids) := by
    intro j g hg
    simp only [removed,Connection.without] at hg
    split_ifs at hg
    · simp at hg
    · exact hfiled j g hg
  have hdurable : (deleteOldVersionsSteps J).Durable (Left J rows c) (fun _ => False) (· = c)
      fun _ d => ∃ ids, Removable J c rows ids ∧ d = removed c rows ids := by
    refine deleteOldVersionsSteps_durable hfiled hrows (fun d hd hcase => ⟨hd,?_⟩)
      fun _ ids hids => ⟨hremoved ids,Or.inr (Or.inr ⟨ids,hids,rfl⟩)⟩
    rcases hcase with h | h
    · exact Or.inl h
    · exact Or.inr (Or.inl h)
  have hQ (d : Connection M) : (∃ ids, Removable J c rows ids ∧ d = removed c rows ids) →
      Left J rows c d := by
    rintro ⟨ids,hids,rfl⟩
    exact ⟨hremoved ids,Or.inr (Or.inr ⟨ids,hids,rfl⟩)⟩
  cases stop with
  | none =>
    have hexec := hdurable.exec c rfl
    rw [deleteOldVersionsSteps_exec] at hexec
    rw [attempt]
    rcases hrun : (deleteOldVersions J).run c with ⟨f | ⟨⟨⟩⟩,c'⟩
    · rw [hrun] at hexec
      exact hexec
    · rw [hrun] at hexec
      exact hQ c' hexec
  | some n =>
    refine hdurable.stopped ?_ (fun _ => hQ) rfl n fun _ _ => id
    rintro _ rfl
    exact ⟨hfiled,Or.inl rfl⟩

lemma oldGroups_current (rows : List HandshakeStateRow) :
    oldGroups J (rows.filter fun row => !row.isOld) = some [] := by
  have hnone : (rows.filter fun row => !row.isOld).filter (·.isOld) = [] := by
    rw [List.filter_filter]
    exact List.filter_eq_nil_iff.mpr fun row _ => by cases row.isOld <;> simp
  rw [oldGroups,parseOld,hnone]
  rfl

lemma Lacking.attempt {d : Connection M} (h : Lacking J rows d) (hfiled : Roster.Filed d)
    (stop : Option ℕ) : Lacking J rows (attempt J stop d) := by
  obtain ⟨-,hsame | hlacking | ⟨ids,hids,-⟩⟩ := attempt_left (J := J) hfiled h.rows_eq stop
  · rw [hsame]
    exact h
  · exact hlacking
  · obtain ⟨ids',hnamed,id,hmem,hnot⟩ := h.lacks
    obtain rfl := Option.some.inj (hnamed.symm.trans hids.named)
    exact absurd (hids.stored id hmem) hnot

lemma Left.attempt (hrows : c.handshakeStates = some rows) {d : Connection M}
    (h : Left J rows c d) (stop : Option ℕ) : Left J rows c (attempt J stop d) := by
  obtain ⟨hfiled,rfl | hlacking | ⟨ids,hids,rfl⟩⟩ := h
  · exact attempt_left hfiled hrows stop
  · exact ⟨(attempt_left hfiled hlacking.rows_eq stop).1,
      Or.inr (Or.inl (hlacking.attempt hfiled stop))⟩
  · have hrows' : (removed c rows ids).handshakeStates = some (rows.filter fun row => !row.isOld) :=
      rfl
    obtain ⟨hfiled',hsame | hlacking | ⟨ids',hids',hremoved⟩⟩ :=
      attempt_left (J := J) hfiled hrows' stop
    · exact ⟨hfiled',Or.inr (Or.inr ⟨ids,hids,hsame⟩)⟩
    · obtain ⟨ids',hnamed,id,hmem,-⟩ := hlacking.lacks
      obtain rfl := Option.some.inj ((oldGroups_current rows).symm.trans hnamed)
      simp at hmem
    · obtain rfl := Option.some.inj ((oldGroups_current rows).symm.trans hids'.named)
      refine ⟨hfiled',Or.inr (Or.inr ⟨ids,hids,hremoved.trans ?_⟩)⟩
      simp [removed,Connection.without,List.filter_filter]

/-- Attempts to remove the rows of other versions, each of which may stop between any two writes:
afterwards the database is as it was before, or the removal has been completed, or else no attempt
will ever complete it. -/
theorem interrupted_removal_stuck (hfiled : Roster.Filed c) (hrows : c.handshakeStates = some rows)
    (hrun : Run (attempt J) (fun _ _ => True) c c') :
    c' = c ∨ (∃ ids, Removable J c rows ids ∧ c' = removed c rows ids) ∨
      ∀ c'', Run (attempt J) (fun _ _ => True) c' c'' → c''.handshakeStates = some rows ∧
        ∃ f, ((deleteOldVersions J).run c'').1 = .error f := by
  have hleft : Left J rows c c' :=
    hrun.invariant (fun stop d hd _ => hd.attempt hrows stop) ⟨hfiled,Or.inl rfl⟩
  obtain ⟨hfiled',h | hlacking | h⟩ := hleft
  · exact Or.inl h
  · refine Or.inr (Or.inr fun c'' hrun' => ?_)
    have hkept : Roster.Filed c'' ∧ Lacking J rows c'' := by
      refine hrun'.invariant (I := fun d => Roster.Filed d ∧ Lacking J rows d) ?_ ⟨hfiled',hlacking⟩
      rintro stop d ⟨hd,hl⟩ -
      exact ⟨(attempt_left hd hl.rows_eq stop).1,hl.attempt hd stop⟩
    exact ⟨hkept.2.rows_eq,hkept.2.fails hkept.1⟩
  · exact Or.inr (Or.inl h)

/-- Two clients whose rows are of version 1, and a client of the current version. -/
def agedClients : List (ℤ × ClientHandshakeState sampleMls) :=
  [(1,⟨[7],⟨[9],1⟩,.running⟩),(1,⟨[8],⟨[10],1⟩,.running⟩),(0,⟨[6],⟨[11],1⟩,.running⟩)]

def agedRows : List HandshakeStateRow :=
  agedClients.map fun r => ⟨r.2.profileId,r.1,(sampleSerde.toVec r.2).getD []⟩

def agedDb : Connection sampleMls := { crossedDb false with handshakeStates := some agedRows }

lemma agedDb_filed : Roster.Filed agedDb := crossedDb_filed false

lemma agedDb_removable : Removable sampleSerde agedDb agedRows [[9],[10]] := by
  refine ⟨by decide +kernel,by decide,?_⟩
  simp only [List.forall_mem_cons]
  exact ⟨⟨_,rfl⟩,⟨_,rfl⟩,by simp⟩

theorem deleteOldVersions_removes_sample :
    (∃ c', (deleteOldVersions sampleSerde).run agedDb = (.ok (),c')) ∧
      ((load sampleSerde [6]).run (attempt sampleSerde none agedDb)).1 =
        .ok (some ⟨[6],⟨[11],1⟩,.running⟩) := by
  obtain ⟨hreturns,hleaves,-⟩ := deleteOldVersions_removes sampleSerde_lawful agedDb_filed
    (rfl : agedDb.handshakeStates = some agedRows) (by decide +kernel)
  obtain ⟨c',hrun⟩ := hreturns.mpr ⟨_,agedDb_removable⟩
  obtain ⟨-,-,-,-,hload⟩ := hleaves c' hrun
  refine ⟨⟨c',hrun⟩,?_⟩
  rw [attempt,hrun,hload [6] (by decide +kernel)]
  rfl

/-- The removal has stopped after the first of the two groups. -/
def stoppedDb : Connection sampleMls := attempt sampleSerde (some 1) agedDb

/-- Another call fails, and so does the one after it. -/
theorem interrupted_removal_stuck_sample :
    (attempt sampleSerde none stoppedDb).handshakeStates = some agedRows ∧
      ∃ f, ((deleteOldVersions sampleSerde).run (attempt sampleSerde none stoppedDb)).1 = .error f := by
  have hrun : Run (attempt sampleSerde) (fun _ _ => True) agedDb stoppedDb := .single (some 1) trivial
  rcases interrupted_removal_stuck agedDb_filed (rfl : agedDb.handshakeStates = some agedRows)
    hrun with hsame | ⟨ids,-,hremoved⟩ | hstuck
  · have hgone : stoppedDb.groups [9] = .ok none := rfl
    obtain ⟨g,hg⟩ := agedDb_removable.stored [9] (by decide)
    rw [hsame,hg] at hgone
    simp at hgone
  · have hstay : stoppedDb.handshakeStates = some agedRows := rfl
    rw [hremoved] at hstay
    have hlength := congrArg List.length (Option.some.inj hstay)
    exact absurd hlength (by decide +kernel)
  · exact hstuck _ (.single none trivial)

end ClientHandshakeState
end MlsTls.MlsHandshake
