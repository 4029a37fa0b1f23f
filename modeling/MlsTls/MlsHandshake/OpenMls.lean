import MlsTls.Lib.Exec
import MlsTls.TlsAead.KeyGeneration

/-! The MLS library and its storage, as the handshake uses them. Both are outside the
repository and are parameters here: `OpenMls` lists the calls that are made, and `Connection` is
the database behind them. Randomness is an explicit argument of the calls that draw it. -/
namespace MlsTls.MlsHandshake
open Lib TlsAead

abbrev GroupId := Bytes
abbrev Uuid := Bytes

inductive Credential
  | basic (identity : Bytes)
  | other (credentialType : ℕ) (content : Bytes)
  deriving DecidableEq, Repr

/-- `BasicCredential::try_from(..)` and its `identity()`. -/
def Credential.basicIdentity : Credential → Option Bytes
  | .basic identity => some identity
  | .other _ _ => none

inductive Sender
  | member (leafIndex : ℕ)
  | external (index : ℕ)
  | newMemberProposal
  | newMemberCommit
  deriving DecidableEq, Repr

structure LeafNode where
  credential : Credential
  signatureKey : Bytes
  deriving DecidableEq, Repr

/-- `MlsMessageBodyIn`, with the bodies that the handshake never asks for in one case. -/
inductive MlsMessageBodyIn (PrivateMessage Welcome KeyPackageIn : Type)
  | privateMessage (message : PrivateMessage)
  | welcome (welcome : Welcome)
  | keyPackage (keyPackage : KeyPackageIn)
  | other

inductive ProcessedMessageContent (StagedCommit : Type)
  | applicationMessage
  | proposalMessage
  | stagedCommitMessage (stagedCommit : StagedCommit)

structure ProcessedMessage (StagedCommit : Type) where
  sender : Sender
  credential : Credential
  content : ProcessedMessageContent StagedCommit

/-- The calls made on the MLS library. A call that changes a group returns the new group;
`processMessage` returns it also with an error, since keys used up by decryption stay used. -/
structure OpenMls where
  Error : Type
  Group : Type
  Message : Type
  PrivateMessage : Type
  Welcome : Type
  KeyPackageIn : Type
  KeyPackage : Type
  KeyPackageBundle : Type
  StagedWelcome : Type
  StagedCommit : Type
  SignatureKeyPair : Type
  publicKey : SignatureKeyPair → Bytes
  /-- `MlsMessageOut` is written and `MlsMessageIn` read with it. -/
  wire : Wire Message
  extract : Message → MlsMessageBodyIn PrivateMessage Welcome KeyPackageIn
  messageGroupId : PrivateMessage → GroupId
  messageEpoch : PrivateMessage → ℕ
  buildKeyPackage : SignatureKeyPair → Credential → ℕ → Except Error KeyPackageBundle
  keyPackage : KeyPackageBundle → KeyPackage
  keyPackageMessage : KeyPackage → Message
  validate : KeyPackageIn → Except Error KeyPackage
  leafNode : KeyPackage → LeafNode
  buildGroup : GroupId → SignatureKeyPair → Credential → ℕ → Except Error Group
  addMembers : SignatureKeyPair → KeyPackage → ℕ → Group → Except Error (Message × Group)
  newFromWelcome : List KeyPackageBundle → Welcome →
    Except Error (StagedWelcome × List KeyPackageBundle)
  welcomeSender : StagedWelcome → Except Error LeafNode
  intoGroup : StagedWelcome → Except Error Group
  groupId : Group → GroupId
  epoch : Group → ℕ
  hasPendingCommit : Group → Bool
  selfUpdate : SignatureKeyPair → ℕ → Group → Except Error (Message × Group)
  mergePendingCommit : Group → Except Error Group
  clearPendingCommit : Group → Except Error Group
  processMessage : PrivateMessage → Group → Except Error (ProcessedMessage StagedCommit) × Group
  updatePathLeafNode : StagedCommit → Option LeafNode
  queuedProposals : StagedCommit → ℕ
  mergeStagedCommit : StagedCommit → Group → Except Error Group
  exportSecret : Group → String → Bytes → ℕ → Except Error Bytes
  hashLength : Group → ℕ

/-- `rusqlite::Error`, with the cases that the statements of the repository can meet. -/
inductive SqlError
  | noSuchTable
  | constraintViolation
  | toSqlConversionFailure
  | fromSqlConversionFailure
  deriving DecidableEq, Repr

inductive VerificationError
  | wrongCredentialType
  | unexpectedVerifyingKey
  | libraryError
  deriving DecidableEq, Repr

mutual
/-- `Box<dyn Error>`: an error of the library, or one of the handshake wrapped once more. -/
inductive BoxedError (E : Type)
  | library (e : E)
  | handshake (e : HandshakeError E)

inductive HandshakeError (E : Type)
  | codecError
  | wrongProtocolVersion
  | unexpectedMessage (expected actual : String)
  | verificationError (e : VerificationError)
  | sharedSecretError (e : E)
  | serverHelloError
  | providerError (e : BoxedError E)
  | keyPackageError (e : E)
  | clientHelloError (e : BoxedError E)
  | invalidSessionId
  | resumptionError (e : BoxedError E)
  | connectionUpdateError (e : BoxedError E)
  | connectionConfirmationError (e : BoxedError E)
  | waitingForResponse
  | persistenceError (e : SqlError)
  | migrationError
  | validationError (reason : String)
end

/-- A row of the table `handshake_states`. -/
structure HandshakeStateRow where
  profileId : Uuid
  version : ℤ
  handshakeState : Bytes
  deriving DecidableEq, Repr

/-- The database: the library's groups and key packages, and the table of handshake states once
it exists. A stored group may be unreadable. -/
structure Connection (M : OpenMls) where
  groups : GroupId → Except M.Error (Option M.Group)
  keyPackages : List M.KeyPackageBundle
  handshakeStates : Option (List HandshakeStateRow)

namespace Connection
variable {M : OpenMls}

/-- The library writes a group back under its own id. -/
def saveGroup (c : Connection M) (group : M.Group) : Connection M :=
  { c with groups := Function.update c.groups (M.groupId group) (.ok (some group)) }

def deleteGroup (c : Connection M) (groupId : GroupId) : Connection M :=
  { c with groups := Function.update c.groups groupId (.ok none) }

@[simp] theorem saveGroup_keyPackages (c : Connection M) (g : M.Group) :
    (c.saveGroup g).keyPackages = c.keyPackages := rfl
@[simp] theorem saveGroup_handshakeStates (c : Connection M) (g : M.Group) :
    (c.saveGroup g).handshakeStates = c.handshakeStates := rfl
@[simp] theorem saveGroup_groups_self (c : Connection M) (g : M.Group) :
    (c.saveGroup g).groups (M.groupId g) = .ok (some g) := Function.update_self ..
theorem saveGroup_groups (c : Connection M) {g : M.Group} {i : GroupId} (h : M.groupId g = i) :
    (c.saveGroup g).groups i = .ok (some g) := by
  subst h
  exact Function.update_self ..
theorem saveGroup_groups_of_ne (c : Connection M) {g : M.Group} {i : GroupId}
    (h : i ≠ M.groupId g) : (c.saveGroup g).groups i = c.groups i := Function.update_of_ne h _ _

end Connection
end MlsTls.MlsHandshake
