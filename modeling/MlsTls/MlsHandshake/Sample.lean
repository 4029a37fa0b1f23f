import MlsTls.MlsHandshake.TwoParty
import MlsTls.MlsHandshake.System

/-! A small MLS library for groups of two that has all the properties relied on: a commit is its
header and the randomness it was made with. It is computable, so that sessions can be evaluated,
and it shows that the assumed laws are satisfiable together. -/
namespace MlsTls.MlsHandshake
open Lib TlsAead

namespace Sample

/-- Numbers of any size, in unary. -/
def unary : Wire ℕ where
  enc n := some (List.replicate n 1++[0])
  dec := go 0
where
  go (n : ℕ) : Bytes → Option (ℕ × Bytes)
    | [] => none
    | b::bs => if b = 1 then go (n+1) bs else if b = 0 then some (n,bs) else none

lemma unary_go_replicate (k n : ℕ) (r : Bytes) :
    unary.go k (List.replicate n 1++[0]++r) = some (k+n,r) := by
  induction n generalizing k with
  | zero => rfl
  | succ n ih =>
    have h := ih (k+1)
    rw [List.replicate_succ,List.cons_append,List.cons_append,unary.go,if_pos rfl,h]
    congr 2
    omega

lemma unary_go_eq_some {k n : ℕ} {b r : Bytes} (h : unary.go k b = some (n,r)) :
    k ≤ n ∧ b = List.replicate (n-k) 1++[0]++r := by
  induction b generalizing k with
  | nil => simp [unary.go] at h
  | cons x xs ih =>
    rw [unary.go] at h
    split_ifs at h with h1 h0
    · obtain ⟨hle,hxs⟩ := ih h
      refine ⟨by omega,?_⟩
      rw [h1,hxs,show n-k = n-(k+1)+1 by omega,List.replicate_succ]
      rfl
    · obtain ⟨rfl,rfl⟩ := Prod.mk.inj (Option.some.inj h)
      simp [h0]

theorem unary_lawful : unary.Lawful where
  dec_enc := by
    intro n e he r
    obtain rfl := Option.some.inj he
    have h := unary_go_replicate 0 n r
    rwa [Nat.zero_add] at h
  enc_dec := by
    intro b n r hb
    obtain ⟨-,rfl⟩ := unary_go_eq_some hb
    exact ⟨_,rfl,by simp⟩

/-- Byte strings of any length. -/
def blob : Wire Bytes where
  enc b := (unary.enc b.length).map (·++b)
  dec c := (unary.dec c).bind fun p =>
    if p.2.length < p.1 then none else some (p.2.take p.1,p.2.drop p.1)

theorem blob_lawful : blob.Lawful where
  dec_enc := by
    intro b e he r
    simp only [blob,Option.map_eq_some_iff] at he
    obtain ⟨x,hx,rfl⟩ := he
    simp only [blob,List.append_assoc,unary_lawful.dec_enc hx,Option.bind_some,List.length_append]
    rw [if_neg (by omega),List.take_left' rfl,List.drop_left' rfl]
  enc_dec := by
    intro c b r hc
    simp only [blob,Option.bind_eq_some_iff] at hc
    obtain ⟨⟨n,s⟩,hs,hif⟩ := hc
    split_ifs at hif with hlt
    obtain ⟨rfl,rfl⟩ := Prod.mk.inj (Option.some.inj hif)
    obtain ⟨x,hx,rfl⟩ := unary_lawful.enc_dec hs
    have hl : (s.take n).length = n := by
      rw [List.length_take]
      exact Nat.min_eq_left (Nat.le_of_not_lt hlt)
    refine ⟨x++s.take n,by simp only [blob,hl,hx,Option.map_some],?_⟩
    rw [List.append_assoc,List.take_append_drop]

structure KeyPackage where
  identity : Bytes
  signer : Bytes
  deriving DecidableEq

/-- A session: the group id, the two signers and the client's identity. -/
structure Session where
  groupId : Bytes
  clientSigner : Bytes
  serverSigner : Bytes
  clientIdentity : Bytes
  deriving DecidableEq

structure Commit where
  groupId : Bytes
  epoch : ℕ
  fromServer : ℕ
  seed : ℕ
  deriving DecidableEq

inductive Message
  | keyPackage (keyPackage : KeyPackage)
  | welcome (session : Session)
  | commit (commit : Commit)
  deriving DecidableEq

def keyPackageWire : Wire KeyPackage :=
  .iso (.seq blob blob) (fun p => ⟨p.1,p.2⟩) fun k => (k.identity,k.signer)

def sessionWire : Wire Session :=
  .iso (.seq blob (.seq blob (.seq blob blob))) (fun p => ⟨p.1,p.2.1,p.2.2.1,p.2.2.2⟩)
    fun s => (s.groupId,s.clientSigner,s.serverSigner,s.clientIdentity)

def commitWire : Wire Commit :=
  .iso (.seq blob (.seq unary (.seq unary unary))) (fun p => ⟨p.1,p.2.1,p.2.2.1,p.2.2.2⟩)
    fun c => (c.groupId,c.epoch,c.fromServer,c.seed)

def messageWire : Wire Message :=
  .enum 1 [⟨_,keyPackageWire,.keyPackage,fun | .keyPackage k => some k | _ => none⟩,
    ⟨_,sessionWire,.welcome,fun | .welcome s => some s | _ => none⟩,
    ⟨_,commitWire,.commit,fun | .commit c => some c | _ => none⟩]

lemma keyPackageWire_lawful : keyPackageWire.Lawful :=
  Wire.iso_lawful (Wire.seq_lawful blob_lawful blob_lawful) (fun _ => rfl) (fun _ => rfl)

lemma sessionWire_lawful : sessionWire.Lawful :=
  Wire.iso_lawful (Wire.seq_lawful blob_lawful
    (Wire.seq_lawful blob_lawful (Wire.seq_lawful blob_lawful blob_lawful)))
    (fun _ => rfl) (fun _ => rfl)

lemma commitWire_lawful : commitWire.Lawful :=
  Wire.iso_lawful (Wire.seq_lawful blob_lawful
    (Wire.seq_lawful unary_lawful (Wire.seq_lawful unary_lawful unary_lawful)))
    (fun _ => rfl) (fun _ => rfl)

theorem messageWire_lawful : messageWire.Lawful := by
  refine Wire.enum_lawful ?_ (by simp)
  simp only [List.mem_cons,List.not_mem_nil,or_false,forall_eq_or_imp,forall_eq]
  refine ⟨⟨keyPackageWire_lawful,fun _ => rfl,?_⟩,⟨sessionWire_lawful,fun _ => rfl,?_⟩,
    ⟨commitWire_lawful,fun _ => rfl,?_⟩⟩ <;>
  · rintro (_ | _ | _) _ h <;> simp at h ⊢
    exact h.symm

/-- How far the setup of a group has got. -/
inductive Stage
  | created
  | adding
  | running
  deriving DecidableEq

structure Group where
  session : Session
  isServer : Bool
  stage : Stage
  commits : List Message
  pending : Option Message

/-- A commit that was processed, with the identity in its path. -/
structure StagedCommit where
  commit : Commit
  identity : Bytes

def Group.epoch (g : Group) : ℕ :=
  match g.stage with
  | .running => 1+g.commits.length
  | _ => g.commits.length

/-- The commit that adds the client is pending until it is merged. -/
def Group.hasPendingCommit (g : Group) : Bool :=
  match g.stage with
  | .adding => true
  | _ => g.pending.isSome

def Session.identity (s : Session) (isServer : Bool) : Bytes :=
  if isServer then MlsSession.serverIdentity else s.clientIdentity

def Session.signer (s : Session) (isServer : Bool) : Bytes :=
  if isServer then s.serverSigner else s.clientSigner

/-- The secrets change with every commit. -/
def secret (ms : List Message) (length : ℕ) : Bytes :=
  List.replicate length (UInt8.ofNat (1+ms.length))

def selfUpdate (seed : ℕ) (g : Group) : Except Unit (Message × Group) :=
  match g.stage,g.pending with
  | .running,none =>
    let m := Message.commit ⟨g.session.groupId,g.epoch,g.isServer.toNat,seed⟩
    .ok (m,{ g with pending := some m })
  | _,_ => .error ()

def mergePendingCommit (g : Group) : Except Unit Group :=
  match g.stage with
  | .adding => .ok { g with stage := .running, pending := none }
  | _ => .ok { g with commits := g.commits++g.pending.toList, pending := none }

def clearPendingCommit (g : Group) : Except Unit Group :=
  match g.stage with
  | .adding => .ok { g with stage := .created, pending := none }
  | _ => .ok { g with pending := none }

def addMembers (k : KeyPackage) (g : Group) : Except Unit (Message × Group) :=
  match g.stage with
  | .created =>
    let session : Session := ⟨g.session.groupId,k.signer,g.session.serverSigner,k.identity⟩
    .ok (.welcome session,{ g with session := session, stage := .adding })
  | _ => .error ()

/-- Only commits of the other member for the current epoch are processed. -/
def processMessage (c : Commit) (g : Group) : Except Unit (ProcessedMessage StagedCommit) × Group :=
  if g.stage = .running ∧ c.epoch = g.epoch ∧ c.fromServer = (!g.isServer).toNat then
    (.ok ⟨.member g.isServer.toNat,.basic (g.session.identity (!g.isServer)),
      .stagedCommitMessage ⟨c,g.session.identity (!g.isServer)⟩⟩,g)
  else (.error (),g)

end Sample

def sampleMls : OpenMls where
  Error := Unit
  Group := Sample.Group
  Message := Sample.Message
  PrivateMessage := Sample.Commit
  Welcome := Sample.Session
  KeyPackageIn := Sample.KeyPackage
  KeyPackage := Sample.KeyPackage
  KeyPackageBundle := Sample.KeyPackage
  StagedWelcome := Sample.Session
  StagedCommit := Sample.StagedCommit
  SignatureKeyPair := Bytes
  publicKey := id
  wire := Sample.messageWire
  extract
    | .keyPackage k => .keyPackage k
    | .welcome s => .welcome s
    | .commit c => .privateMessage c
  messageGroupId := (·.groupId)
  messageEpoch := (·.epoch)
  buildKeyPackage signer credential _ :=
    match credential with
    | .basic identity => .ok ⟨identity,signer⟩
    | .other _ _ => .error ()
  keyPackage := id
  keyPackageMessage := .keyPackage
  validate := .ok
  leafNode k := ⟨.basic k.identity,k.signer⟩
  buildGroup groupId signer credential _ :=
    if credential = .basic MlsSession.serverIdentity then
      .ok ⟨⟨groupId,[],signer,[]⟩,true,.created,[],none⟩
    else .error ()
  addMembers _ k _ := Sample.addMembers k
  newFromWelcome bundles s :=
    if ⟨s.clientIdentity,s.clientSigner⟩ ∈ bundles then
      .ok (s,bundles.erase ⟨s.clientIdentity,s.clientSigner⟩)
    else .error ()
  welcomeSender s := .ok ⟨.basic MlsSession.serverIdentity,s.serverSigner⟩
  intoGroup s := .ok ⟨s,false,.running,[],none⟩
  groupId g := g.session.groupId
  epoch := Sample.Group.epoch
  hasPendingCommit := Sample.Group.hasPendingCommit
  selfUpdate _ := Sample.selfUpdate
  mergePendingCommit := Sample.mergePendingCommit
  clearPendingCommit := Sample.clearPendingCommit
  processMessage := Sample.processMessage
  updatePathLeafNode s := some ⟨.basic s.identity,[]⟩
  queuedProposals _ := 0
  mergeStagedCommit s g := .ok { g with commits := g.commits++[.commit s.commit], pending := none }
  exportSecret g _ _ length := .ok (Sample.secret g.commits length)
  hashLength _ := HashType.sha2_512.size

def sampleTwoParty : TwoParty sampleMls where
  Session := Sample.Session
  groupId := (·.groupId)
  signer := Sample.Session.signer
  identity := Sample.Session.identity
  view g := if g.stage = .running then some ⟨g.session,g.isServer,g.commits,g.pending⟩ else none
  IsCommit σ i ms m := ∃ seed, m = .commit ⟨σ.groupId,1+ms.length,i.toNat,seed⟩
  seedOf
    | .commit c => c.seed
    | _ => 0
  secret _ ms _ _ length := Sample.secret ms length

namespace Sample

lemma view_eq_some {g : Group} {v : View sampleMls Session}
    (h : sampleTwoParty.view g = some v) :
    g = ⟨v.session,v.isServer,.running,v.commits,v.pending⟩ := by
  obtain ⟨s,i,stage,ms,p⟩ := g
  change (if stage = .running then some (⟨s,i,ms,p⟩ : View sampleMls Session) else none) = some v at h
  split_ifs at h with hst
  subst hst
  obtain rfl := Option.some.inj h
  rfl

end Sample

theorem sampleTwoParty_lawful : sampleTwoParty.Lawful where
  wire := Sample.messageWire_lawful
  groupId_eq := by
    intro g v h
    rw [Sample.view_eq_some h]
    rfl
  epoch_eq := by
    intro g v h
    rw [Sample.view_eq_some h]
    rfl
  hasPendingCommit_eq := by
    intro g v h
    rw [Sample.view_eq_some h]
    rfl
  hashLength_eq := by
    intros
    rfl
  exportSecret_eq := by
    intro g v h label context length
    rw [Sample.view_eq_some h]
    rfl
  secret_length := by
    intro σ ms label context length
    exact List.length_replicate ..
  selfUpdate_ok := by
    intro g σ i ms h _ seed
    rw [Sample.view_eq_some h]
    exact ⟨_,_,rfl,rfl,⟨seed,rfl⟩,rfl⟩
  mergePendingCommit_ok := by
    intro g σ i ms m h
    rw [Sample.view_eq_some h]
    exact ⟨_,rfl,rfl⟩
  clearPendingCommit_ok := by
    intro g σ i ms p h
    rw [Sample.view_eq_some h]
    exact ⟨_,rfl,rfl⟩
  commit_message := by
    rintro σ i ms m ⟨seed,rfl⟩
    exact ⟨_,rfl,rfl,rfl⟩
  commit_wire := by
    rintro σ i ms m ⟨seed,rfl⟩
    exact ⟨_,rfl⟩
  process_commit := by
    rintro g σ i ms m p h ⟨seed,rfl⟩ hp
    obtain rfl : _ = p := MlsMessageBodyIn.privateMessage.inj hp
    rw [Sample.view_eq_some h]
    refine ⟨i.toNat,⟨_,σ.identity (!i)⟩,_,_,_,if_pos ⟨rfl,rfl,rfl⟩,rfl,rfl,rfl,rfl,rfl,rfl⟩
  process_stale := by
    rintro g σ i ms ms' m p q h ⟨seed,rfl⟩ hlt hp
    obtain rfl : _ = p := MlsMessageBodyIn.privateMessage.inj hp
    rw [Sample.view_eq_some h]
    refine ⟨(),_,if_neg ?_,rfl⟩
    rintro ⟨-,he,-⟩
    change 1+ms'.length = 1+ms.length at he
    omega
  joined := by
    intro clientSigner serverSigner clientId groupId seed seed' bundle keyPackageIn keyPackage g g' g''
      message welcome bundles bundles' staged group hbundle hk hval hbuild hadd hmerge hw hstaged hgroup
    cases hbundle
    cases hk
    cases hval
    cases hbuild
    cases hadd
    cases hmerge
    cases hw
    simp only [sampleMls] at hstaged
    split_ifs at hstaged with hmem
    cases hstaged
    cases hgroup
    exact ⟨_,rfl,rfl,rfl,rfl,rfl,rfl⟩

namespace Sample

def secretsWire : Wire TrafficSecrets :=
  .iso (.seq blob blob) (fun p => ⟨⟨p.1⟩,⟨p.2⟩⟩) fun t => (t.clientSecret.secret,t.serverSecret.secret)

section
variable (M : OpenMls)

def pendingWire : Wire (PendingUpdate M) :=
  .iso (.seq M.wire secretsWire) (fun p => ⟨p.1,p.2⟩) fun u => (u.mlsMessage,u.trafficSecrets)

def internalWire : Wire (ClientInternalState M) :=
  .enum 1 [⟨_,.unit,fun _ => .running,fun | .running => some () | _ => none⟩,
    ⟨_,pendingWire M,.waitingForConnectionConfirmation,
      fun | .waitingForConnectionConfirmation u => some u | _ => none⟩,
    ⟨_,pendingWire M,.waitingForEpochKeyUpdate,
      fun | .waitingForEpochKeyUpdate u => some u | _ => none⟩,
    ⟨_,.iso blob .mk (·.secret),.waitingForEpochKeyUpdateReturn,
      fun | .waitingForEpochKeyUpdateReturn s => some s | _ => none⟩]

def stateWire : Wire (ClientHandshakeState M) :=
  .iso (.seq blob (.seq (.seq blob unary) (internalWire M))) (fun p => ⟨p.1,⟨p.2.1.1,p.2.1.2⟩,p.2.2⟩)
    fun s => (s.profileId,(s.mlsSession.groupId,s.mlsSession.epoch),s.internalState)

/-- Client states are stored as they are encoded. -/
def serde : Serde M := ⟨(stateWire M).enc,(stateWire M).decExact⟩

end

section
variable {M : OpenMls} (hM : M.wire.Lawful) (henc : ∀ m, ∃ e, M.wire.enc m = some e)
include hM

lemma pendingWire_lawful : (pendingWire M).Lawful :=
  Wire.iso_lawful (Wire.seq_lawful hM (Wire.iso_lawful
    (Wire.seq_lawful blob_lawful blob_lawful) (fun _ => rfl) (fun _ => rfl)))
    (fun _ => rfl) (fun _ => rfl)

lemma internalWire_lawful : (internalWire M).Lawful := by
  refine Wire.enum_lawful ?_ (by simp)
  simp only [List.mem_cons,List.not_mem_nil,or_false,forall_eq_or_imp,forall_eq]
  refine ⟨⟨Wire.unit_lawful,fun _ => rfl,?_⟩,⟨pendingWire_lawful hM,fun _ => rfl,?_⟩,
    ⟨pendingWire_lawful hM,fun _ => rfl,?_⟩,
    ⟨Wire.iso_lawful blob_lawful (fun _ => rfl) (fun _ => rfl),fun _ => rfl,?_⟩⟩
  · rintro (_ | _ | _ | _) _ h <;> simp at h ⊢
  all_goals
    rintro (_ | _ | _ | _) _ h <;> simp at h ⊢
    exact h.symm

lemma stateWire_lawful : (stateWire M).Lawful :=
  Wire.iso_lawful (Wire.seq_lawful blob_lawful (Wire.seq_lawful
    (Wire.seq_lawful blob_lawful unary_lawful) (internalWire_lawful hM))) (fun _ => rfl)
    (fun _ => rfl)

omit hM
include henc

lemma pendingWire_enc (u : PendingUpdate M) : ∃ e, (pendingWire M).enc u = some e := by
  obtain ⟨e,he⟩ := henc u.mlsMessage
  exact ⟨_,by
    simp only [pendingWire,Wire.iso,Wire.seq,he,Option.bind_some,secretsWire,blob,unary,
      Option.map_some]
    rfl⟩

lemma internalWire_enc (i : ClientInternalState M) : ∃ e, (internalWire M).enc i = some e := by
  cases i with
  | running => exact ⟨_,rfl⟩
  | waitingForConnectionConfirmation u =>
    obtain ⟨e,he⟩ := pendingWire_enc henc u
    exact ⟨beBytes 1 1++e,by simp [internalWire,Wire.enum,Wire.encVariant,he,Wire.word]⟩
  | waitingForEpochKeyUpdate u =>
    obtain ⟨e,he⟩ := pendingWire_enc henc u
    exact ⟨beBytes 1 2++e,by simp [internalWire,Wire.enum,Wire.encVariant,he,Wire.word]⟩
  | waitingForEpochKeyUpdateReturn s => exact ⟨_,rfl⟩

include hM

theorem serde_lawful : (serde M).Lawful where
  toVec_ok := by
    intro s
    obtain ⟨e,he⟩ := internalWire_enc henc s.internalState
    exact ⟨_,by
      simp only [serde,stateWire,Wire.iso,Wire.seq,blob,unary,he,Option.map_some,Option.bind_some]
      rfl⟩
  fromSlice_toVec := (stateWire_lawful hM).decExact_enc

end

lemma messageWire_enc (m : Message) : ∃ e, messageWire.enc m = some e := by
  cases m with
  | keyPackage k => exact ⟨_,rfl⟩
  | welcome s => exact ⟨_,rfl⟩
  | commit c => exact ⟨_,rfl⟩

end Sample

def sampleSerde : Serde sampleMls := Sample.serde sampleMls

theorem sampleSerde_lawful : sampleSerde.Lawful :=
  Sample.serde_lawful Sample.messageWire_lawful Sample.messageWire_enc

/-- The parties of the sample session. -/
def sampleParties : Parties sampleMls := ⟨sampleSerde,[1],[2]⟩

def sampleDb : Connection sampleMls := ⟨fun _ => .ok none,[],none⟩

/-- The sample session after its handshake. -/
def sampleSystem : System sampleMls :=
  (honestHandshake sampleParties [7] [9] 0 0 sampleDb sampleDb).getD
    ⟨⟨[],⟨[],0⟩,.running⟩,sampleDb,none,sampleDb,[],[],⟨⟨[]⟩,⟨[]⟩⟩,⟨⟨[]⟩,⟨[]⟩⟩,0⟩

/-- The client's database at the end of its handshake, with the row. -/
def sampleClientDb : Connection sampleMls :=
  ((ClientHandshakeState.store sampleSerde sampleSystem.client).run sampleSystem.clientDb).2

theorem sampleSystem_handshake :
    honestHandshake sampleParties [7] [9] 0 0 sampleDb sampleDb = some sampleSystem := rfl

end MlsTls.MlsHandshake
