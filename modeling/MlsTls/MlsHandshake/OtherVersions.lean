import MlsTls.MlsHandshake.Persisted

/-! Rows of another version. A version that is not known is an error already when it is read from
its column, so that the comparison with the current version, which would take the row for absent,
never sees it; a version whose lowest byte is zero is taken for the current one. Either way the row is
not passed over, and a new handshake replaces it only in the second case. -/
namespace MlsTls.MlsHandshake
namespace ClientHandshakeState
open Lib
variable {M : OpenMls} {J : Serde M} {c : Connection M} {rows : List HandshakeStateRow}
  {row : HandshakeStateRow}

/-- What `client_handshake` does with the table. -/
def replace (J : Serde M) (state : ClientHandshakeState M) : Db M Unit := do
  createTable
  delete J state.profileId
  store J state

/-- The state replaces what the table has for its profile. -/
def Replaces (J : Serde M) (c : Connection M) (state : ClientHandshakeState M) : Prop :=
  ∃ c', (replace J state).run c = (.ok (),c') ∧
    ((load J state.profileId).run c').1 = .ok (some state)

/-- The row is passed over: nothing is loaded from it, and it can be replaced. -/
def PassedOver (J : Serde M) (c : Connection M) (state : ClientHandshakeState M) : Prop :=
  ((load J state.profileId).run c).1 = .ok none ∧ Replaces J c state

/-- The table has a row of another version for the profile. -/
structure HasOtherRow (profileId : Uuid) (c : Connection M) (row : HandshakeStateRow) : Prop where
  found : ∃ rows, c.handshakeStates = some rows ∧ rows.find? (·.profileId = profileId) = some row
  version_ne : row.version ≠ ClientHandshakeVersion.default.toSql

lemma createTable_run (hrows : c.handshakeStates = some rows) :
    (createTable : Db M Unit).run c = (.ok (),c) := by
  rw [createTable,Exec.modify_run,hrows]
  obtain ⟨g,k,t⟩ := c
  subst hrows
  rfl

lemma replace_eq_ok (hrows : c.handshakeStates = some rows) {state : ClientHandshakeState M}
    {c' : Connection M} : (replace J state).run c = (.ok (),c') ↔
      ∃ c₁, (delete J state.profileId).run c = (.ok (),c₁) ∧ (store J state).run c₁ = (.ok (),c') := by
  rw [replace,Exec.bind_of_ok (createTable_run hrows),Exec.bind_eq_ok]
  constructor
  · rintro ⟨⟨⟩,c₁,h⟩
    exact ⟨c₁,h⟩
  · rintro ⟨c₁,h⟩
    exact ⟨(),c₁,h⟩

lemma store_run (hJ : J.Lawful) (state : ClientHandshakeState M) (hrows : c.handshakeStates = some rows)
    (hno : ∀ row ∈ rows, row.profileId ≠ state.profileId) :
    ∃ c', (store J state).run c = (.ok (),c') := by
  obtain ⟨b,hb⟩ := hJ.toVec_ok state
  have hany : ¬rows.any (·.profileId = state.profileId) = true := by simpa using hno
  simp only [store,handshakeStates,toSql,setHandshakeStates,Exec.bind_run,Exec.get_run,hrows,hb,
    Exec.orThrow_some,if_neg hany,Exec.modify_run]
  exact ⟨_,rfl⟩

lemma delete_found {p : Uuid} (hrows : c.handshakeStates = some rows)
    (hfind : rows.find? (·.profileId = p) = some row) {c₁ : Connection M}
    (h : (delete J p).run c = (.ok (),c₁)) :
    row.version%256 = 0 ∧ ∃ old, J.fromSlice row.handshakeState = some old ∧
      ∃ g, c.groups old.mlsSession.groupId = .ok (some g) := by
  obtain ⟨st,c₂,hload,hrest⟩ := Exec.bind_eq_ok.mp h
  rw [load_found hrows hfind] at hload
  cases hold : J.fromSlice row.handshakeState with
  | none => simp [hold] at hload
  | some old =>
    simp only [hold] at hload
    split_ifs at hload with hv
    · obtain ⟨hst,rfl⟩ := Prod.mk.inj hload
      obtain rfl := Except.ok.inj hst
      obtain ⟨⟨⟩,c₃,hdelete,-⟩ := Exec.bind_eq_ok.mp hrest
      obtain ⟨g,c₄,hgroup,-⟩ := Exec.bind_eq_ok.mp hdelete
      refine ⟨hv,old,rfl,g,?_⟩
      rcases hg : c.groups old.mlsSession.groupId with e | _ | g'
      · simp [MlsSession.loadGroup,Exec.bind_run,hg] at hgroup
      · simp [MlsSession.loadGroup,Exec.bind_run,hg] at hgroup
      · simp only [MlsSession.loadGroup,Exec.bind_run,Exec.get_run,hg,Exec.lift_ok,Exec.orThrow_some,
          Prod.mk.injEq,Except.ok.injEq] at hgroup
        rw [hgroup.1]
    · simp at hload

lemma load_ne_none {p : Uuid} (hrows : c.handshakeStates = some rows)
    (hfind : rows.find? (·.profileId = p) = some row) : ((load J p).run c).1 ≠ .ok none := by
  rw [load_found hrows hfind]
  cases hold : J.fromSlice row.handshakeState with
  | none => simp
  | some old =>
    simp only
    split_ifs <;> simp

lemma load_eq_some {p : Uuid} (hrows : c.handshakeStates = some rows)
    (hfind : rows.find? (·.profileId = p) = some row) {old : ClientHandshakeState M} :
    ((load J p).run c).1 = .ok (some old) ↔
      row.version%256 = 0 ∧ J.fromSlice row.handshakeState = some old := by
  rw [load_found hrows hfind]
  cases hold : J.fromSlice row.handshakeState with
  | none => simp
  | some st =>
    simp only
    split_ifs with hv
    · simp [hv]
    · simp [hv]

lemma replaces_iff (hJ : J.Lawful) (hrows : c.handshakeStates = some rows)
    {state : ClientHandshakeState M} (hfind : rows.find? (·.profileId = state.profileId) = some row) :
    Replaces J c state ↔ row.version%256 = 0 ∧ ∃ old, J.fromSlice row.handshakeState = some old ∧
      ∃ g, c.groups old.mlsSession.groupId = .ok (some g) := by
  constructor
  · rintro ⟨c',h,-⟩
    obtain ⟨c₁,hdelete,-⟩ := (replace_eq_ok hrows).mp h
    exact delete_found hrows hfind hdelete
  · rintro ⟨hv,old,hold,g,hg⟩
    have hdelete := delete_loaded hrows (load_parsed hrows hfind hold hv) hg
    obtain ⟨c',hstore⟩ := store_run hJ state rfl (c := ⟨Function.update c.groups (M.groupId g) (.ok none),
      c.keyPackages,some (rows.filter fun row => row.profileId ≠ state.profileId)⟩)
      (fun row hrow => by simpa using (List.mem_filter.mp hrow).2)
    have hpersisted : (load J state.profileId).run c' = (.ok (some state),c') :=
      (store_persists hJ hstore).2
    exact ⟨c',(replace_eq_ok hrows).mpr ⟨_,hdelete,hstore⟩,by rw [hpersisted]⟩

/-- A row of another version is never passed over, whatever its content: it is either an error, or
taken for a row of the current version. -/
theorem other_version_in_the_way (hJ : J.Lawful) (state : ClientHandshakeState M)
    (h : HasOtherRow state.profileId c row) :
    ¬PassedOver J c state ∧
    (∀ old, ((load J state.profileId).run c).1 = .ok (some old) ↔
      row.version%256 = 0 ∧ J.fromSlice row.handshakeState = some old) ∧
    (Replaces J c state ↔ row.version%256 = 0 ∧ ∃ old, J.fromSlice row.handshakeState = some old ∧
      ∃ g, c.groups old.mlsSession.groupId = .ok (some g)) := by
  obtain ⟨⟨rows,hrows,hfind⟩,-⟩ := h
  exact ⟨fun h => load_ne_none hrows hfind h.1,fun _ => load_eq_some hrows hfind,
    replaces_iff hJ hrows hfind⟩

/-- A table with one row, which holds the sample client under some version. -/
def versionedDb (version : ℤ) : Connection sampleMls :=
  ⟨fun _ => .ok none,[],
    some [⟨sampleSystem.client.profileId,version,(sampleSerde.toVec sampleSystem.client).getD []⟩]⟩

lemma versionedDb_row (version : ℤ) (h : version ≠ ClientHandshakeVersion.default.toSql) :
    HasOtherRow sampleSystem.client.profileId (versionedDb version)
      ⟨sampleSystem.client.profileId,version,(sampleSerde.toVec sampleSystem.client).getD []⟩ :=
  ⟨⟨_,rfl,by simp⟩,h⟩

/-- With version 256 the row is loaded as if it were of the current version. -/
theorem other_version_in_the_way_sample :
    ((load sampleSerde sampleSystem.client.profileId).run (versionedDb 256)).1 =
      .ok (some sampleSystem.client) := by
  obtain ⟨-,hload,-⟩ := other_version_in_the_way sampleSerde_lawful sampleSystem.client
    (versionedDb_row 256 (by decide))
  obtain ⟨b,hb⟩ := sampleSerde_lawful.toVec_ok sampleSystem.client
  refine (hload _).mpr ⟨by decide,?_⟩
  rw [hb]
  exact sampleSerde_lawful.fromSlice_toVec hb

/-- A row of version 1 is an error to load, and a new state does not replace it. -/
theorem version_one_not_passed_over :
    (∃ row, HasOtherRow sampleSystem.client.profileId (versionedDb 1) row) ∧
      ((load sampleSerde sampleSystem.client.profileId).run (versionedDb 1)).1 ≠ .ok none ∧
      ¬Replaces sampleSerde (versionedDb 1) sampleSystem.client ∧
      ¬PassedOver sampleSerde (versionedDb 1) sampleSystem.client := by
  have hrow := versionedDb_row 1 (by decide)
  obtain ⟨rows,hrows,hfind⟩ := hrow.found
  have hload := load_ne_none (J := sampleSerde) hrows hfind
  refine ⟨⟨_,hrow⟩,hload,fun h => ?_,fun h => hload h.1⟩
  exact absurd ((replaces_iff sampleSerde_lawful hrows hfind).mp h).1 (by decide)

end ClientHandshakeState
end MlsTls.MlsHandshake
