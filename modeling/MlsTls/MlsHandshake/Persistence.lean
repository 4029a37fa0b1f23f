import MlsTls.MlsHandshake.MlsGroup

/-! The client's handshake state and its row in the table `handshake_states`. The state is stored
as JSON; the serializer is a parameter. -/
namespace MlsTls.MlsHandshake
open Lib TlsAead

/-- An own commit that is not confirmed, and the secrets of the epoch it leads to. -/
structure PendingUpdate (M : OpenMls) where
  mlsMessage : M.Message
  trafficSecrets : TrafficSecrets

/-- What a client is waiting for. -/
inductive ClientInternalState (M : OpenMls)
  | running
  | waitingForConnectionConfirmation (pending : PendingUpdate M)
  /-- Waiting for the server to confirm our own update. -/
  | waitingForEpochKeyUpdate (pending : PendingUpdate M)
  /-- Waiting for the server to update its keys based on its own update. -/
  | waitingForEpochKeyUpdateReturn (serverSecret : ServerSecret)

structure ClientHandshakeState (M : OpenMls) where
  profileId : Uuid
  mlsSession : MlsSession
  internalState : ClientInternalState M

/-- `serde_json` at the client's handshake state. -/
structure Serde (M : OpenMls) where
  toVec : ClientHandshakeState M → Option Bytes
  fromSlice : Bytes → Option (ClientHandshakeState M)

structure Serde.Lawful {M : OpenMls} (J : Serde M) : Prop where
  toVec_ok : ∀ s, ∃ b, J.toVec s = some b
  fromSlice_toVec : ∀ {s b}, J.toVec s = some b → J.fromSlice b = some s

inductive ClientHandshakeVersion
  | v1
  deriving DecidableEq, Repr

namespace ClientHandshakeVersion

def default : ClientHandshakeVersion := .v1

def toSql : ClientHandshakeVersion → ℤ
  | .v1 => 0

/-- The stored integer is cast to a byte before it is compared. -/
def columnResult (value : ℤ) : Option ClientHandshakeVersion :=
  if value%256 = 0 then some .v1 else none

end ClientHandshakeVersion

namespace ClientHandshakeState
variable {M : OpenMls} (J : Serde M)

/-- The rows of the table, which a statement cannot be prepared without. -/
def handshakeStates : Db M (List HandshakeStateRow) := do
  let c ← Exec.get
  Exec.orThrow (.persistenceError .noSuchTable) c.handshakeStates

def setHandshakeStates (rows : List HandshakeStateRow) : Db M Unit :=
  Exec.modify fun c => { c with handshakeStates := some rows }

def createTable : Db M Unit :=
  Exec.modify fun c => { c with handshakeStates := some (c.handshakeStates.getD []) }

/-- `ToSql` for the state. -/
def toSql (state : ClientHandshakeState M) : Db M Bytes :=
  Exec.orThrow (.persistenceError .toSqlConversionFailure) (J.toVec state)

/-- A profile has one row at most. -/
def store (state : ClientHandshakeState M) : Db M Unit := do
  let rows ← handshakeStates
  let blob ← toSql J state
  if rows.any (·.profileId = state.profileId) then
    Exec.throw (.persistenceError .constraintViolation)
  else
    setHandshakeStates
      (rows++[⟨state.profileId,ClientHandshakeVersion.default.toSql,blob⟩])

def load (profileId : Uuid) : Db M (Option (ClientHandshakeState M)) := do
  let rows ← handshakeStates
  match rows.find? (·.profileId = profileId) with
  | none => pure none
  | some row => do
    let state ← Exec.orThrow (.persistenceError .fromSqlConversionFailure)
      (J.fromSlice row.handshakeState)
    let version ← Exec.orThrow (.persistenceError .fromSqlConversionFailure)
      (ClientHandshakeVersion.columnResult row.version)
    if version ≠ ClientHandshakeVersion.default then pure none
    else pure (some state)

def storeUpdate (state : ClientHandshakeState M) : Db M Unit := do
  let rows ← handshakeStates
  let blob ← toSql J state
  setHandshakeStates (rows.map fun row =>
    if row.profileId = state.profileId then { row with handshakeState := blob } else row)

/-- The group goes before the row. -/
def delete (profileId : Uuid) : Db M Unit := do
  let state ← load J profileId
  match state with
  | none => pure ()
  | some state => do
    state.mlsSession.delete
    let rows ← handshakeStates
    setHandshakeStates (rows.filter fun row => row.profileId ≠ profileId)

/-- With the table there, an update of the row changes nothing but rows of the table. -/
theorem storeUpdate_run {J : Serde M} (hJ : J.Lawful) (state : ClientHandshakeState M)
    {c : Connection M} {rows : List HandshakeStateRow} (h : c.handshakeStates = some rows) :
    ∃ rows', (storeUpdate J state).run c = (.ok (),{ c with handshakeStates := some rows' }) := by
  obtain ⟨b,hb⟩ := hJ.toVec_ok state
  refine ⟨rows.map fun row =>
    if row.profileId = state.profileId then { row with handshakeState := b } else row,?_⟩
  simp [storeUpdate,handshakeStates,toSql,setHandshakeStates,Exec.bind_run,h,hb]

section
variable {J} {c : Connection M} {rows : List HandshakeStateRow} {row : HandshakeStateRow} {p : Uuid}

lemma load_found (hrows : c.handshakeStates = some rows)
    (hfind : rows.find? (·.profileId = p) = some row) :
    (load J p).run c = match J.fromSlice row.handshakeState with
      | none => (.error (.error (.persistenceError .fromSqlConversionFailure)),c)
      | some st =>
        if row.version%256 = 0 then (.ok (some st),c)
        else (.error (.error (.persistenceError .fromSqlConversionFailure)),c) := by
  cases hst : J.fromSlice row.handshakeState with
  | none =>
    simp only [load,handshakeStates,Exec.bind_run,Exec.get_run,hrows,Exec.orThrow_some,hfind,hst,
      Exec.orThrow_none]
  | some st =>
    simp only [load,handshakeStates,Exec.bind_run,Exec.get_run,hrows,Exec.orThrow_some,hfind,hst,
      ClientHandshakeVersion.columnResult]
    split_ifs with hv
    · rfl
    · rfl

lemma load_parsed (hrows : c.handshakeStates = some rows)
    (hfind : rows.find? (·.profileId = p) = some row) {st : ClientHandshakeState M}
    (hst : J.fromSlice row.handshakeState = some st) (hversion : row.version%256 = 0) :
    (load J p).run c = (.ok (some st),c) := by
  rw [load_found hrows hfind,hst]
  exact if_pos hversion

lemma delete_loaded (hrows : c.handshakeStates = some rows) {st : ClientHandshakeState M}
    (hload : (load J p).run c = (.ok (some st),c)) {g : M.Group}
    (hg : c.groups st.mlsSession.groupId = .ok (some g)) :
    (delete J p).run c = (.ok (),⟨Function.update c.groups (M.groupId g) (.ok none),c.keyPackages,
      some (rows.filter fun row => row.profileId ≠ p)⟩) := by
  simp only [delete,Exec.bind_run,hload,MlsSession.delete,MlsSession.loadGroup,hg,Exec.lift_ok,
    Exec.modify_run,handshakeStates,setHandshakeStates,Exec.get_run,Connection.deleteGroup,hrows,
    Exec.orThrow_some]

end

end ClientHandshakeState
end MlsTls.MlsHandshake
