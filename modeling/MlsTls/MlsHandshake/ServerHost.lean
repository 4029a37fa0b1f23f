import MlsTls.MlsHandshake.Epochs
import MlsTls.MlsHandshake.Locality

/-! A server with any number of connections and one database. Each connection has a handshake state
of its own; the groups are shared. Who sends what is left open: the clients need not be honest. -/
namespace MlsTls.MlsHandshake
open Lib TlsAead
variable {M : OpenMls} {ι : Type}

/-- The sessions of the connections that have one, and the database behind all of them. -/
structure ServerHost (M : OpenMls) (ι : Type) where
  sessions : ι → Option ServerHandshakeState
  connection : Connection M

/-- What is done on a connection. -/
inductive Request (M : OpenMls)
  | start (leafSigner : M.SignatureKeyPair) (messageBytes : Bytes) (groupId : GroupId) (seed : ℕ)
  | update (leafSigner : M.SignatureKeyPair) (updateRequested : Bool) (seed : ℕ)
  | receive (leafSigner : M.SignatureKeyPair) (messageBytes : Bytes) (seed : ℕ)
  | delete

inductive Reply (M : OpenMls)
  | started (r : Outcome (HandshakeError M.Error) (TrafficSecrets × ClientIdentity × Bytes))
  | updated (r : Outcome (HandshakeError M.Error) Bytes)
  | received (r : Outcome (HandshakeError M.Error) (TrafficSecrets × Option Bytes))
  | deleted (r : Outcome (HandshakeError M.Error) Unit)
  | uninitialized

/-- The groups that a request names beside the one of its session. -/
def Request.names : Request M → Set GroupId
  | .start _ messageBytes groupId _ => ServerHandshake.named (M := M) messageBytes groupId
  | .update _ _ _ => ∅
  | .receive _ messageBytes _ =>
    {j | ∃ update, (SignalingMessageIn.wire M).decExact messageBytes =
      some (.connectionUpdate update) ∧ j ∈ namedBy update.mlsCommit}
  | .delete => ∅

namespace ServerHost
variable [DecidableEq ι]

/-- What happens on a server; every outcome of a call is part of the reply. -/
abbrev Call (M : OpenMls) (ι α : Type) := Exec (ServerHost M ι) Empty α

def db {α : Type} (x : Db M α) : Call M ι (Outcome (HandshakeError M.Error) α) :=
  Exec.zoom (·.connection) (fun c h => { h with connection := c }) (Exec.outcome x)

/-- A call on the session of a connection, which stays in its place. -/
def session {α : Type} (i : ι) (state : ServerHandshakeState) (x : ServerHandshakeState.Call M α) :
    Call M ι (Outcome (HandshakeError M.Error) α) :=
  Exec.zoom (fun h => (state,h.connection)) (fun s h => ⟨Function.update h.sessions i (some s.1),s.2⟩)
    (Exec.outcome x)

def setSession (i : ι) (state : ServerHandshakeState) : Call M ι Unit :=
  Exec.modify fun h => { h with sessions := Function.update h.sessions i (some state) }

/-- A call that needs the session of the connection. -/
def withSession (i : ι) (f : ServerHandshakeState → Call M ι (Reply M)) : Call M ι (Reply M) := do
  let h ← Exec.get
  match h.sessions i with
  | none => pure .uninitialized
  | some state => f state

/-- A request on one of the connections. A first message that is refused leaves the connection as
it was, but not always the database. -/
def handle (i : ι) : Request M → Call M ι (Reply M)
  | .start leafSigner messageBytes groupId seed => do
    match ← db (ServerHandshake.start leafSigner messageBytes groupId seed) with
    | .ok (state,r) => do
      setSession i state
      pure (.started (.ok r))
    | .error f => pure (.started (.error f))
  | .update leafSigner updateRequested seed => withSession i fun state => do
    let r ← session i state (ServerHandshakeState.update leafSigner updateRequested seed)
    pure (.updated r)
  | .receive leafSigner messageBytes seed => withSession i fun state => do
    let r ← session i state
      (ServerHandshakeState.receiveSignalingMessage leafSigner messageBytes seed)
    pure (.received r)
  | .delete => withSession i fun state => do
    let r ← db state.mlsSession.delete
    pure (.deleted r)

def exec (e : ι × Request M) (h : ServerHost M ι) : Outcome Empty (Reply M) × ServerHost M ι :=
  (handle e.1 e.2).run h

/-- What belongs to a connection: its session, and the groups with ids in `G`. -/
noncomputable def own (M : OpenMls) (i : ι) (G : Set GroupId) :
    Lens (ServerHost M ι) (Option ServerHandshakeState × Stored M G) where
  view h := (h.sessions i,(Connection.part M G).view h.connection)
  put t h := ⟨Function.update h.sessions i t.1,(Connection.part M G).put t.2 h.connection⟩
  view_put t h := Prod.ext (Function.update_self ..) ((Connection.part M G).view_put ..)
  put_view h := by
    rw [Function.update_eq_self,(Connection.part M G).put_view]
  put_put t t' h := by
    rw [Function.update_idem,(Connection.part M G).put_put]

/-- The session is one of a group in `G`. -/
def OwnIn {G : Set GroupId} (t : Option ServerHandshakeState × Stored M G) : Prop :=
  (∀ state ∈ t.1, state.mlsSession.groupId ∈ G) ∧ FiledIn t.2

abbrev HandledIn (i : ι) (G : Set GroupId) {α : Type} (x : Call M ι α) (Q : α → Prop) : Prop :=
  Exec.Within (own M i G) OwnIn x Q

section
variable {i : ι} {G : Set GroupId} {α : Type}

lemma db_handledIn {x : Db M α} {Q : α → Prop} (h : InPart G x Q) :
    HandledIn i G (db x) fun r => ∀ a, r = .ok a → Q a := by
  refine .zoom (v := Prod.snd) (w := fun t s => (s.1,t)) (fun _ => rfl) (fun t h => ?_)
    (fun _ ht => ht.2) (fun _ _ ht hk => ⟨ht.1,hk⟩) h.outcome
  exact congrArg (ServerHost.mk · _) (Function.update_eq_self ..).symm

lemma session_handledIn {state : ServerHandshakeState} (hstate : state.mlsSession.groupId ∈ G)
    {x : ServerHandshakeState.Call M α} {Q : α → Prop} (h : ServerHandshakeState.InPart G x Q) :
    HandledIn i G (session i state x) fun r => ∀ a, r = .ok a → Q a := by
  refine .zoom (v := fun t => (state,t.2)) (w := fun k _ => (some k.1,k.2)) (fun _ => rfl)
    (fun _ _ => rfl) (fun _ ht => ⟨hstate,ht.2⟩) (fun _ _ _ hk => ⟨fun s hs => ?_,hk.2⟩) h.outcome
  obtain rfl := Option.some.inj hs
  exact hk.1

lemma setSession_handledIn {state : ServerHandshakeState} (hstate : state.mlsSession.groupId ∈ G) :
    HandledIn i G (setSession i state : Call M ι Unit) fun _ => True := by
  refine .modify (fun t => (some state,t.2)) (fun h _ => ?_) fun _ ht => ⟨fun s hs => ?_,ht.2⟩
  · exact congrArg (ServerHost.mk _) ((Connection.part M G).put_view h.connection).symm
  · obtain rfl := Option.some.inj hs
    exact hstate

lemma withSession_handledIn {f : ServerHandshakeState → Call M ι (Reply M)}
    (hf : ∀ state, state.mlsSession.groupId ∈ G → HandledIn i G (f state) fun _ => True) :
    HandledIn i G (withSession i f) fun _ => True := by
  refine .get_bind (fun t => match t.1 with
    | none => pure .uninitialized
    | some state => f state) (fun _ _ => rfl) fun t ht => ?_
  obtain ⟨o,k⟩ := t
  cases o with
  | none => exact .pure trivial
  | some state => exact hf state (ht.1 state rfl)

/-- A request is a matter of its connection's session and the groups that it names. -/
theorem handle_handledIn (hM : KeepsIds M) {r : Request M} (hnames : r.names ⊆ G) :
    HandledIn i G (handle i r) fun _ => True := by
  cases r with
  | start leafSigner messageBytes groupId seed =>
    refine .bind (db_handledIn (ServerHandshake.start_inPart hM leafSigner hnames seed)) fun r hr => ?_
    cases r with
    | ok a => exact .bind (setSession_handledIn (hr a rfl)) fun _ _ => .pure trivial
    | error f => exact .pure trivial
  | update leafSigner updateRequested seed =>
    refine withSession_handledIn fun state hstate => ?_
    exact .bind (session_handledIn hstate (ServerHandshakeState.update_inPart hM leafSigner
      updateRequested seed)) fun _ _ => .pure trivial
  | receive leafSigner messageBytes seed =>
    refine withSession_handledIn fun state hstate => ?_
    refine .bind (session_handledIn hstate (ServerHandshakeState.receiveSignalingMessage_inPart hM
      leafSigner (fun update hupdate j hj => ?_) seed)) fun _ _ => .pure trivial
    exact hnames ⟨update,hupdate,hj⟩
  | delete =>
    refine withSession_handledIn fun state hstate => ?_
    exact .bind (db_handledIn (MlsSession.delete_inPart hstate)) fun _ _ => .pure trivial

end

/-- The ids of groups on the side of the connection `i`. -/
def side (G : Set GroupId) (mine : ι → Prop) (i : ι) : Set GroupId := {j | j ∈ G ↔ mine i}

/-- The connections `mine` have sessions of groups with ids in `G`, and no other connection does. -/
structure Parted (G : Set GroupId) (mine : ι → Prop) (h : ServerHost M ι) : Prop where
  filed : Roster.Filed h.connection
  sessions : ∀ i, ∀ state ∈ h.sessions i, state.mlsSession.groupId ∈ side G mine i

/-- Two servers that look alike to the connections `mine`. -/
structure Alike (G : Set GroupId) (mine : ι → Prop) (h h' : ServerHost M ι) : Prop where
  parted : h.Parted G mine
  sessions : ∀ i, mine i → h.sessions i = h'.sessions i
  groups : (Connection.part M G).view h.connection = (Connection.part M G).view h'.connection

section
variable (hM : KeepsIds M) {G : Set GroupId} {mine : ι → Prop} {i : ι} {r : Request M}
  {h h' : ServerHost M ι}

omit [DecidableEq ι] in
lemma side_of_mine (hi : mine i) : side G mine i = G :=
  Set.ext fun _ => ⟨fun hj => hj.mpr hi,fun hj => ⟨fun _ => hi,fun _ => hj⟩⟩

omit [DecidableEq ι] in
lemma side_of_not_mine (hi : ¬mine i) : side G mine i = Gᶜ :=
  Set.ext fun _ => ⟨fun hj hG => hi (hj.mp hG),fun hj => ⟨fun hG => absurd hG hj,fun hm => absurd hm hi⟩⟩

lemma Parted.ownIn (hh : h.Parted G mine) (i : ι) : OwnIn ((own M i (side G mine i)).view h) :=
  ⟨hh.sessions i,hh.filed.part _⟩

lemma handle_sessions (hG : HandledIn i G (handle i r) fun _ => True)
    (hh : OwnIn ((own M i G).view h)) {k : ι} (hk : k ≠ i) :
    ((handle i r).run h).2.sessions k = h.sessions k :=
  hG.frame (w := fun h => h.sessions k) (fun _ _ => Function.update_of_ne hk ..) hh

lemma handle_groups (hG : HandledIn i G (handle i r) fun _ => True)
    (hh : OwnIn ((own M i G).view h)) {j : GroupId} (hj : j ∉ G) :
    ((handle i r).run h).2.connection.groups j = h.connection.groups j :=
  hG.frame (w := fun h => h.connection.groups j)
    (fun _ _ => Connection.replace_groups_of_notMem _ _ hj) hh

include hM

lemma Parted.handle (hh : h.Parted G mine) (hnames : r.names ⊆ side G mine i) :
    ((ServerHost.handle i r).run h).2.Parted G mine := by
  have hhandled := handle_handledIn (i := i) hM hnames
  obtain ⟨hsession,hfiled⟩ := hhandled.keeps (hh.ownIn i)
  refine ⟨fun j g hg => ?_,fun k state hstate => ?_⟩
  · by_cases hj : j ∈ side G mine i
    · exact hfiled ⟨j,hj⟩ g hg
    · rw [handle_groups hhandled (hh.ownIn i) hj] at hg
      exact hh.filed j g hg
  · by_cases hk : k = i
    · subst hk
      exact hsession state hstate
    · rw [handle_sessions hhandled (hh.ownIn i) hk] at hstate
      exact hh.sessions k state hstate

/-- A server keeps the connections of the two sides apart. -/
theorem separates : Separates exec (fun e : ι × Request M => e.2.names ⊆ side G mine e.1)
    (fun e => mine e.1) (Alike G mine) where
  own := by
    rintro ⟨i,r⟩ h h' hnames hi hh
    have hparted := hh.parted.handle hM hnames
    have hside : side G mine i = G := side_of_mine hi
    have hown := hh.parted.ownIn i
    rw [hside] at hnames hown
    have hhandled := handle_handledIn (i := i) hM hnames
    have hsame : (own M i G).view h = (own M i G).view h' := Prod.ext (hh.sessions i hi) hh.groups
    obtain ⟨hreply,hview⟩ := hhandled.agree hown hsame
    refine ⟨hreply,hparted,fun k hk => ?_,congrArg Prod.snd hview⟩
    by_cases hki : k = i
    · subst hki
      exact congrArg Prod.fst hview
    · simp only [exec]
      rw [handle_sessions hhandled hown hki,handle_sessions hhandled (hsame ▸ hown) hki]
      exact hh.sessions k hk
  other := by
    rintro ⟨i,r⟩ h h' hnames hi hh
    have hparted := hh.parted.handle hM hnames
    have hhandled := handle_handledIn (i := i) hM hnames
    have hown := hh.parted.ownIn i
    refine ⟨hparted,fun k hk => ?_,?_⟩
    · have hki : k ≠ i := fun he => hi (he ▸ hk)
      exact (handle_sessions hhandled hown hki).trans (hh.sessions k hk)
    · refine .trans (funext fun j => ?_) hh.groups
      have hj : j.1 ∉ side G mine i := by
        rw [side_of_not_mine hi]
        exact fun hc => hc j.2
      exact handle_groups hhandled hown hj

/-- Sessions do not interfere. Part the groups and the connections of a server in two, so that what
is received on a connection names no group of the other side. Whatever the clients send, in
whatever order, the replies to the connections of one side, their sessions and their groups are
those that there would be without the other side. -/
theorem sessions_do_not_interfere [DecidablePred mine] (hh : h.Parted G mine)
    {es : List (ι × Request M)} (hnames : ∀ e ∈ es, ∀ j ∈ e.2.names, (j ∈ G ↔ mine e.1)) :
    let whole := observe exec (fun e => mine e.1) es h
    let alone := observe exec (fun e => mine e.1) (es.filter fun e => mine e.1) h
    whole.1 = alone.1 ∧ (∀ i, mine i → whole.2.sessions i = alone.2.sessions i) ∧
      ∀ j ∈ G, whole.2.connection.groups j = alone.2.connection.groups j := by
  obtain ⟨hreplies,hend⟩ := (separates hM).purge hnames
    (⟨hh,fun _ _ => rfl,rfl⟩ : Alike G mine h h)
  exact ⟨hreplies,hend.sessions,fun j hj => congrFun hend.groups ⟨j,hj⟩⟩

end

end ServerHost

theorem sampleMls_keepsIds : KeepsIds sampleMls :=
  keepsIds_of_lawful sampleStanding_lawful sampleRoster_lawful

namespace Sample

/-- A server with two connections. -/
def host : ServerHost sampleMls Bool where
  sessions b := some ⟨⟨if b then [9] else [10],1⟩,.running⟩
  connection := (sampleDb.saveGroup (⟨⟨[9],[1],[2],[7]⟩,true,.running,[],none⟩ : Group)).saveGroup
    (⟨⟨[10],[1],[2],[8]⟩,true,.running,[],none⟩ : Group)

/-- Both connections are busy; what is received on the second one is for its own group. -/
def requests : List (Bool × Request sampleMls) :=
  [(true,.update [2] false 3),
    (false,.receive [2] (connectionUpdateBytes (M := sampleMls) false (.commit ⟨[10],1,0,5⟩)) 0),
    (true,.update [2] false 4),(false,.delete)]

theorem host_parted : host.Parted {[9]} (fun b => b = true) := by
  refine ⟨?_,?_⟩
  · have hfiled : Roster.Filed sampleDb := by simp [Roster.Filed,sampleDb]
    exact (hfiled.saveGroup _).saveGroup _
  · rintro b state hstate
    obtain rfl := Option.some.inj hstate
    cases b <;> simp [ServerHost.side]

theorem requests_named : ∀ e ∈ requests, ∀ j ∈ e.2.names, (j ∈ ({[9]} : Set GroupId) ↔ e.1 = true) := by
  have hdec : (SignalingMessageIn.wire sampleMls).decExact
      (connectionUpdateBytes (M := sampleMls) false (.commit ⟨[10],1,0,5⟩)) =
        some (.connectionUpdate ⟨.ofBool false,.commit ⟨[10],1,0,5⟩⟩) := rfl
  simp only [requests,List.forall_mem_cons,Request.names,Set.mem_empty_iff_false,hdec]
  refine ⟨by simp,?_,by simp,by simp,by simp⟩
  rintro j ⟨update,hupdate,message,hmessage,rfl⟩
  obtain rfl := SignalingMessageIn.connectionUpdate.inj (Option.some.inj hupdate)
  obtain rfl := MlsMessageBodyIn.privateMessage.inj hmessage
  simp [sampleMls]

end Sample

theorem ServerHost.sessions_do_not_interfere_sample :
    (observe ServerHost.exec (fun e => e.1 = true) Sample.requests Sample.host).1.length = 2 ∧
    (observe ServerHost.exec (fun e => e.1 = true) Sample.requests Sample.host).1 =
      (observe ServerHost.exec (fun e => e.1 = true)
        (Sample.requests.filter fun e => e.1 = true) Sample.host).1 :=
  ⟨rfl,(ServerHost.sessions_do_not_interfere sampleMls_keepsIds Sample.host_parted
    Sample.requests_named).1⟩

end MlsTls.MlsHandshake
