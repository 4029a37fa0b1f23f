import MlsTls.MlsHandshake.ServerSpec
import MlsTls.MlsHandshake.System

/-! The invariant of a session. Commits only ever lead from the client to the server: the server
is behind by what is in flight to it. `Shape` lists the situations a session can be in, with the
messages in flight in each of them; `Inv` adds the two databases and the secrets handed out. -/
namespace MlsTls.MlsHandshake
open Lib TlsAead

namespace TwoParty
variable {M : OpenMls} (T : TwoParty M) (σ : T.Session) (allow : Event → Prop)

/-- An update of the server on its way to the client. -/
def IsServerUpdate (b : Bytes) : Prop :=
  ∃ q ms s, b = connectionUpdateBytes q s ∧ T.IsCommit σ true ms s

/-- What the server has sent since it was last in step with the client: nothing, or its update. -/
inductive Offer (S : List M.Message) : Option M.Message → List Bytes → Prop
  | none : Offer S none []
  | some {q : Bool} {s : M.Message} (commit : T.IsCommit σ true S s)
      (room : 1+S.length+2+q.toNat < u64Size) (request : q = true → allow (.serverUpdate true)) :
      Offer S (some s) [connectionUpdateBytes q s]

/-- The client's commits, its internal state, the server's commits, its pending commit, whether
the connection is set up, and the messages in flight to the server and to the client. -/
inductive Shape : List M.Message → ClientInternalState M → List M.Message → Option M.Message →
    Bool → List Bytes → List Bytes → Prop
  /-- Nothing to do, but perhaps for an update of the server. -/
  | idle {S p toClient} (offer : T.Offer σ allow S p toClient) :
      Shape S .running S p true [] toClient
  /-- An update of the client is on its way; what the server sends meanwhile is ignored. -/
  | updating {S p base c q toClient}
      (ahead : base = S ∨ (allow (.serverUpdate true) ∧ ∃ s, p = some s ∧ base = S++[s]))
      (commit : T.IsCommit σ false base c) (request : q = true → allow (.clientUpdate true))
      (ignored : ∀ b ∈ toClient, T.IsServerUpdate σ b) :
      Shape (base++[c]) (.waitingForEpochKeyUpdate (T.own σ (base++[c]) c)) S p true
        [connectionUpdateBytes q c] toClient
  /-- The server has the update, and its confirmation is on its way. -/
  | confirming {S p base c before after} (last : S = base++[c]) (commit : T.IsCommit σ false base c)
      (ignored : ∀ b ∈ before, T.IsServerUpdate σ b) (offer : T.Offer σ allow S p after) :
      Shape S (.waitingForEpochKeyUpdate (T.own σ S c)) S p true []
        (before++epochKeyUpdateBytes M (1+S.length)::after)
  /-- The server has answered a request with an update of its own, which the client ignores. -/
  | stuck {S s base c toClient} (request : allow (.clientUpdate true)) (last : S = base++[c])
      (commit : T.IsCommit σ false base c) (ignored : ∀ b ∈ toClient, T.IsServerUpdate σ b) :
      Shape S (.waitingForEpochKeyUpdate (T.own σ S c)) S (some s) true [] toClient
  /-- The client has merged the server's update, and its confirmation is on its way. -/
  | merging {S s} :
      Shape (S++[s]) (.waitingForEpochKeyUpdateReturn (T.secrets σ (S++[s])).serverSecret) S (some s)
        true [epochKeyUpdateBytes M (1+(S++[s]).length)] []
  | returning {S p after} (offer : T.Offer σ allow S p after) :
      Shape S (.waitingForEpochKeyUpdateReturn (T.secrets σ S).serverSecret) S p true []
        (epochKeyUpdateBytes M (1+S.length)::after)
  /-- A resumption with a commit that the server does not have yet. -/
  | resuming {S p base c} (resume : allow .resume)
      (ahead : base = S ∨ ∃ s, p = some s ∧ base = S++[s]) (commit : T.IsCommit σ false base c) :
      Shape (base++[c]) (.waitingForConnectionConfirmation (T.own σ (base++[c]) c)) S p false
        [resumptionBytes c] []
  /-- A resumption with a commit that the server has merged before. -/
  | replaying {S p base c} (resume : allow .resume) (last : S = base++[c])
      (commit : T.IsCommit σ false base c) :
      Shape S (.waitingForConnectionConfirmation (T.own σ S c)) S p false [resumptionBytes c] []
  | confirmed {S p base c after} (resume : allow .resume) (last : S = base++[c])
      (commit : T.IsCommit σ false base c) (offer : T.Offer σ allow S p after) :
      Shape S (.waitingForConnectionConfirmation (T.own σ S c)) S p true []
        (connectionConfirmationBytes M (1+S.length)::after)
  /-- The server has refused the resumption. -/
  | failed {S base c} (resume : allow .resume) (last : S = base++[c])
      (commit : T.IsCommit σ false base c) :
      Shape S (.waitingForConnectionConfirmation (T.own σ S c)) S none false [] []

/-- A commit that either party has merged or keeps pending. -/
def Known (H S : List M.Message) (p : Option M.Message) (m : M.Message) : Prop :=
  m ∈ H ∨ m ∈ S ∨ p = some m

/-- The states in which the caller holds the current server secret. -/
def Settled : ClientInternalState M → Prop
  | .running => True
  | .waitingForConnectionConfirmation _ => True
  | .waitingForEpochKeyUpdate _ => False
  | .waitingForEpochKeyUpdateReturn _ => False

structure Inv (H : List M.Message) (i : ClientInternalState M) (S : List M.Message)
    (p : Option M.Message) (alive : Bool) (x : System M) : Prop where
  client : T.ClientAt σ H i (x.client,x.clientDb)
  group : T.GroupAt ⟨σ,true,S,p⟩ x.serverDb
  server : x.server = if alive then some (T.serverState σ S p) else none
  shape : T.Shape σ allow H i S p alive x.clientToServer x.serverToClient
  fits : 1+H.length+1 < u64Size
  fresh : ∀ m, Known H S p m → T.seedOf m < x.clock
  clientSecret : x.clientSecrets.clientSecret = (T.secrets σ H).clientSecret
  serverSecret : Settled i → x.clientSecrets.serverSecret = (T.secrets σ H).serverSecret
  serverSecrets : alive = true → x.serverSecrets = T.secrets σ S

/-- What an event can do to the commits: new ones are made with the randomness of the event, and
a pending commit is given up only to be in step with the client. -/
structure Evolves (clock : ℕ) (H S : List M.Message) (p : Option M.Message) (H' S' : List M.Message)
    (p' : Option M.Message) : Prop where
  known : ∀ m, Known H' S' p' m → Known H S p m ∨ T.seedOf m = clock
  pending : ∀ s, p = some s → p' = some s ∨ H' = S'

variable {T σ allow} {H S : List M.Message} {i : ClientInternalState M} {p : Option M.Message}
  {alive : Bool} {x : System M} {toServer toClient : List Bytes}

/-- The server never has a commit that the client does not have. -/
theorem Shape.server_prefix (h : T.Shape σ allow H i S p alive toServer toClient) : S <+: H := by
  cases h with
  | updating ahead => rcases ahead with rfl | ⟨-,s,-,rfl⟩ <;> simp
  | merging => simp
  | resuming _ ahead => rcases ahead with rfl | ⟨s,-,rfl⟩ <;> simp
  | _ => exact List.prefix_rfl

/-- An update of the server can be added in every shape in which it has none pending. -/
theorem Shape.serverUpdate (h : T.Shape σ allow H i S none true toServer toClient) {s : M.Message}
    {q : Bool} (hs : T.IsCommit σ true S s) (hroom : 1+S.length+2+q.toNat < u64Size)
    (hq : q = true → allow (.serverUpdate true)) :
    T.Shape σ allow H i S (some s) true toServer (toClient++[connectionUpdateBytes q s]) := by
  have hoffer : T.Offer σ allow S (some s) [connectionUpdateBytes q s] := .some hs hroom hq
  cases h with
  | idle offer =>
    cases offer with
    | none => exact .idle hoffer
  | updating ahead commit request ignored =>
    rcases ahead with rfl | ⟨-,s',hs',-⟩
    · refine .updating (Or.inl rfl) commit request fun b hb => ?_
      rcases List.mem_append.mp hb with hb | hb
      · exact ignored b hb
      · exact ⟨q,_,s,List.mem_singleton.mp hb,hs⟩
    · simp at hs'
  | confirming last commit ignored offer =>
    cases offer with
    | none =>
      rw [List.append_assoc]
      exact .confirming last commit ignored hoffer
  | returning offer =>
    cases offer with
    | none => exact .returning hoffer
  | confirmed resume last commit offer =>
    cases offer with
    | none => exact .confirmed resume last commit hoffer

lemma Offer.ignored (h : T.Offer σ allow S p toClient) : ∀ b ∈ toClient, T.IsServerUpdate σ b := by
  cases h with
  | none => simp
  | some commit _ _ =>
    intro b hb
    exact ⟨_,_,_,List.mem_singleton.mp hb,commit⟩

lemma Evolves.refl (clock : ℕ) : T.Evolves clock H S p H S p :=
  ⟨fun _ hm => Or.inl hm,fun _ hs => Or.inl hs⟩

lemma Evolves.caughtUp (clock : ℕ) : T.Evolves clock H S p H H none := by
  refine ⟨fun m hm => Or.inl (Or.inl ?_),fun _ _ => Or.inr rfl⟩
  rcases hm with hm | hm | hm
  · exact hm
  · exact hm
  · simp at hm

lemma Evolves.clientCommit {clock : ℕ} {m : M.Message} (hm : T.seedOf m = clock) :
    T.Evolves clock H S p (H++[m]) S p := by
  refine ⟨fun m' hm' => ?_,fun _ hs => Or.inl hs⟩
  simp only [Known,List.mem_append,List.mem_singleton] at hm' ⊢
  rcases hm' with (hm' | rfl) | hm'
  · exact Or.inl (Or.inl hm')
  · exact Or.inr hm
  · exact Or.inl (Or.inr hm')

lemma Evolves.fresh {clock : ℕ} {H' S' : List M.Message} {p' : Option M.Message}
    (h : T.Evolves clock H S p H' S' p') (hf : ∀ m, Known H S p m → T.seedOf m < clock) :
    ∀ m, Known H' S' p' m → T.seedOf m < clock+1 := by
  intro m hm
  rcases h.known m hm with hk | hk
  · exact (hf m hk).trans (Nat.lt_succ_self _)
  · omega

/-- Some party's state and what it leads to, after one event. -/
def Next (T : TwoParty M) (σ : T.Session) (allow : Event → Prop) (clock : ℕ) (H S : List M.Message)
    (p : Option M.Message) (x : System M) : Prop :=
  ∃ H' i' S' p' alive', T.Inv σ allow H' i' S' p' alive' x ∧ T.Evolves clock H S p H' S' p'

/-- The signers of the session and a working serializer. -/
structure Honest (T : TwoParty M) (σ : T.Session) (P : Parties M) : Prop where
  clientSigner : P.clientSigner = T.signer σ false
  serverSigner : P.serverSigner = T.signer σ true
  serde : P.serde.Lawful

lemma Inv.client_idle (h : T.Inv σ allow H i S p alive x) :
    T.Next σ allow x.clock H S p (x.afterClient (x.client,x.clientDb) none []) := by
  refine ⟨H,i,S,p,alive,⟨h.client,h.group,h.server,?_,h.fits,(Evolves.refl _).fresh h.fresh,
    h.clientSecret,h.serverSecret,h.serverSecrets⟩,Evolves.refl _⟩
  simpa [System.afterClient] using h.shape

lemma Inv.server_idle (h : T.Inv σ allow H i S p true x) :
    T.Next σ allow x.clock H S p
      (x.afterServer (some (T.serverState σ S p)) x.serverDb x.serverSecrets []) := by
  refine ⟨H,i,S,p,true,⟨h.client,h.group,rfl,?_,h.fits,(Evolves.refl _).fresh h.fresh,
    h.clientSecret,h.serverSecret,h.serverSecrets⟩,Evolves.refl _⟩
  simpa [System.afterServer] using h.shape

section
variable (hT : T.Lawful) {P : Parties M} (hP : T.Honest σ P)
include hT hP

theorem Inv.clientUpdate {q : Bool} (h : T.Inv σ allow H i S p alive x)
    (hq : q = true → allow (.clientUpdate true)) (hroom : System.Room (.clientUpdate q) x) :
    T.Next σ allow x.clock H S p (System.clientUpdate P q x) := by
  by_cases hi : i = .running
  · subst hi
    have hepoch : 1+H.length+2 < u64Size := by
      have hr : x.client.mlsSession.epoch+2 < u64Size := hroom
      rwa [h.client.session] at hr
    obtain ⟨m,s,hrun,hs,hm,hseed⟩ := client_update hT hP.serde h.client h.fits q x.clock
    rw [System.clientUpdate,hP.clientSigner,hrun]
    have hev : T.Evolves x.clock H S p (H++[m]) S p := .clientCommit hseed
    have hsh := h.shape
    generalize hts : x.clientToServer = ts at hsh
    generalize htc : x.serverToClient = tc at hsh
    cases hsh with
    | idle offer =>
      refine ⟨_,_,_,p,true,⟨hs,h.group,h.server,?_,?_,hev.fresh h.fresh,rfl,False.elim,
        h.serverSecrets⟩,hev⟩
      · simp only [System.afterClient,hts,htc,List.nil_append]
        exact .updating (Or.inl rfl) hm hq offer.ignored
      · rw [List.length_append,List.length_singleton]
        omega
  · have hrun := client_update_waiting (J := P.serde) h.client hi P.clientSigner q x.clock
    rw [System.clientUpdate,hrun]
    exact h.client_idle

theorem Inv.serverUpdate {q : Bool} (h : T.Inv σ allow H i S p alive x)
    (hq : q = true → allow (.serverUpdate true)) (hroom : System.Room (.serverUpdate q) x) :
    T.Next σ allow x.clock H S p (System.serverUpdate P q x) := by
  have hserver := h.server
  cases alive with
  | false =>
    rw [System.serverUpdate,hserver]
    exact ⟨H,i,S,p,false,h,Evolves.refl _⟩
  | true =>
    rw [if_pos rfl] at hserver
    have hat : T.ServerAt σ S p (T.serverState σ S p,x.serverDb) := ⟨h.group,rfl⟩
    cases p with
    | some s =>
      have hrun := server_update_waiting hat P.serverSigner q x.clock
      rw [System.serverUpdate,hserver]
      simp only [hrun]
      exact h.server_idle
    | none =>
      have hepoch : 1+S.length+2+q.toNat < u64Size := hroom _ hserver
      obtain ⟨m,s,hrun,hs,hm,hseed⟩ := server_update hT hat (by omega) q x.clock
      rw [System.serverUpdate,hserver,hP.serverSigner]
      simp only [hrun]
      have hev : T.Evolves x.clock H S none H S (some m) := by
        refine ⟨fun m' hm' => ?_,fun _ hs => by simp at hs⟩
        rcases hm' with hm' | hm' | hm'
        · exact Or.inl (Or.inl hm')
        · exact Or.inl (Or.inr (Or.inl hm'))
        · obtain rfl := Option.some.inj hm'
          exact Or.inr hseed
      refine ⟨H,i,S,some m,true,⟨h.client,hs.group,by rw [hs.state]; rfl,?_,h.fits,
        hev.fresh h.fresh,h.clientSecret,h.serverSecret,h.serverSecrets⟩,hev⟩
      exact h.shape.serverUpdate hm hepoch hq

lemma Inv.deliver_update {base : List M.Message} {c : M.Message} {q : Bool}
    (h : T.Inv σ allow (base++[c]) (.waitingForEpochKeyUpdate (T.own σ (base++[c]) c)) S p true x)
    (hts : x.clientToServer = [connectionUpdateBytes q c])
    (hms : base = S ∨ ∃ s, p = some s ∧ base = S++[s]) (hc : T.IsCommit σ false base c)
    (hq : q = true → allow (.clientUpdate true))
    (hignored : ∀ b ∈ x.serverToClient, T.IsServerUpdate σ b) :
    T.Next σ allow x.clock (base++[c]) S p (System.deliverToServer P x) := by
  have hat : T.ServerAt σ S p (T.serverState σ S p,x.serverDb) := ⟨h.group,rfl⟩
  have hfits := h.fits
  have hserver := h.server
  rw [if_pos rfl] at hserver
  rw [List.length_append,List.length_singleton] at hfits
  rw [System.deliverToServer,hts]
  cases q with
  | false =>
    obtain ⟨s,hrun,hs⟩ := server_receive_update hT hat hc hms (by omega) P.serverSigner x.clock
    simp only [hserver,hrun,Option.toList_some]
    refine ⟨_,_,_,none,true,⟨h.client,hs.group,by rw [hs.state]; rfl,?_,h.fits,
      (Evolves.caughtUp _).fresh h.fresh,h.clientSecret,h.serverSecret,fun _ => rfl⟩,
      Evolves.caughtUp _⟩
    exact .confirming rfl hc hignored .none
  | true =>
    obtain ⟨m,s,hrun,hs,hm,hseed⟩ :=
      server_receive_update_requested hT hat hc hms (by omega) x.clock
    simp only [hserver,hP.serverSigner,hrun,Option.toList_some]
    have hev : T.Evolves x.clock (base++[c]) S p (base++[c]) (base++[c]) (some m) := by
      refine ⟨fun m' hm' => ?_,fun _ _ => Or.inr rfl⟩
      rcases hm' with hm' | hm' | hm'
      · exact Or.inl (Or.inl hm')
      · exact Or.inl (Or.inl hm')
      · obtain rfl := Option.some.inj hm'
        exact Or.inr hseed
    refine ⟨_,_,_,some m,true,⟨h.client,hs.group,by rw [hs.state]; rfl,?_,h.fits,hev.fresh h.fresh,
      h.clientSecret,h.serverSecret,fun _ => rfl⟩,hev⟩
    refine .stuck (hq rfl) rfl hc fun b hb => ?_
    rcases List.mem_append.mp hb with hb | hb
    · exact hignored b hb
    · exact ⟨false,_,m,List.mem_singleton.mp hb,hm⟩

theorem Inv.deliverToServer (h : T.Inv σ allow H i S p alive x) :
    T.Next σ allow x.clock H S p (System.deliverToServer P x) := by
  have hsh := h.shape
  have hfits := h.fits
  have hserver := h.server
  generalize hts : x.clientToServer = ts at hsh
  generalize htc : x.serverToClient = tc at hsh
  have hnil : ts = [] → T.Next σ allow x.clock H S p (System.deliverToServer P x) := by
    intro hnil
    rw [System.deliverToServer,hts,hnil]
    exact ⟨H,i,S,p,alive,h,Evolves.refl _⟩
  cases hsh with
  | idle => exact hnil rfl
  | confirming => exact hnil rfl
  | stuck => exact hnil rfl
  | returning => exact hnil rfl
  | confirmed => exact hnil rfl
  | failed => exact hnil rfl
  | updating ahead commit request ignored =>
    refine h.deliver_update hT hP hts ?_ commit request (by rw [htc]; exact ignored)
    rcases ahead with rfl | ⟨-,hs⟩
    · exact Or.inl rfl
    · exact Or.inr hs
  | merging =>
    rename_i s
    have hat : T.ServerAt σ S (some s) (T.serverState σ S (some s),x.serverDb) := ⟨h.group,rfl⟩
    rw [List.length_append,List.length_singleton] at hfits
    obtain ⟨t,hrun,hs⟩ := server_receive_epochKeyUpdate hT hat (by omega) P.serverSigner x.clock
    rw [if_pos rfl] at hserver
    rw [System.deliverToServer,hts]
    simp only [hserver,hrun,Option.toList_some]
    refine ⟨_,_,_,none,true,⟨h.client,hs.group,by rw [hs.state]; rfl,?_,h.fits,
      (Evolves.caughtUp _).fresh h.fresh,h.clientSecret,h.serverSecret,fun _ => rfl⟩,
      Evolves.caughtUp _⟩
    simp only [System.afterServer,htc,List.nil_append]
    exact .returning .none
  | resuming resume ahead commit =>
    rw [List.length_append,List.length_singleton] at hfits
    obtain ⟨db,hrun,hs⟩ := server_start_resumption hT h.group commit ahead (by omega) P.serverSigner
      [] x.clock
    have hnone : x.server = none := by simpa using hserver
    rw [System.deliverToServer,hts]
    simp only [hnone,hrun]
    refine ⟨_,_,_,none,true,⟨h.client,hs.group,rfl,?_,h.fits,(Evolves.caughtUp _).fresh h.fresh,
      h.clientSecret,h.serverSecret,fun _ => rfl⟩,Evolves.caughtUp _⟩
    simp only [System.afterServer,htc,List.nil_append]
    exact .confirmed resume rfl commit .none
  | replaying resume last commit =>
    have hlt := congrArg List.length last
    rw [List.length_append,List.length_singleton] at hlt
    obtain ⟨e,db,hrun,hg⟩ := server_start_stale hT h.group commit (by omega) hfits P.serverSigner []
      x.clock
    have hnone : x.server = none := by simpa using hserver
    rw [System.deliverToServer,hts]
    simp only [hnone,hrun]
    refine ⟨_,_,_,none,false,⟨h.client,hg,rfl,?_,h.fits,(Evolves.caughtUp _).fresh h.fresh,
      h.clientSecret,h.serverSecret,fun ha => by simp at ha⟩,Evolves.caughtUp _⟩
    simp only [System.afterServer,htc,List.nil_append]
    exact .failed resume last commit

omit hP in
lemma Inv.deliver_ignored {b : Bytes} {bs : List Bytes} (h : T.Inv σ allow H i S p alive x)
    (hi : i ≠ .running) (htc : x.serverToClient = b::bs) (hb : T.IsServerUpdate σ b)
    (hsh : T.Shape σ allow H i S p alive x.clientToServer bs) :
    T.Next σ allow x.clock H S p (System.deliverToClient P x) := by
  obtain ⟨q,ms,s,rfl,hs⟩ := hb
  have hrun := client_receive_update_waiting hT (J := P.serde) h.client hi hs q P.clientSigner x.clock
  rw [System.deliverToClient,htc]
  simp only [hrun,Option.toList_none]
  refine ⟨H,i,S,p,alive,⟨h.client,h.group,h.server,?_,h.fits,(Evolves.refl _).fresh h.fresh,
    h.clientSecret,h.serverSecret,h.serverSecrets⟩,Evolves.refl _⟩
  simpa [System.afterClient] using hsh

lemma Inv.deliver_confirmation {after : List Bytes} (h : T.Inv σ allow S i S p true x)
    (hi : (∃ m, i = .waitingForEpochKeyUpdate (T.own σ S m)) ∨
      i = .waitingForEpochKeyUpdateReturn (T.secrets σ S).serverSecret)
    (hts : x.clientToServer = [])
    (htc : x.serverToClient = epochKeyUpdateBytes M (1+S.length)::after)
    (hoffer : T.Offer σ allow S p after) :
    T.Next σ allow x.clock S S p (System.deliverToClient P x) := by
  have hfits := h.fits
  obtain ⟨s,hrun,hs⟩ := client_receive_epochKeyUpdate hT hP.serde h.client hi (by omega)
    P.clientSigner x.clock
  rw [System.deliverToClient,htc]
  simp only [hrun,Option.toList_none]
  refine ⟨S,_,S,p,true,⟨hs,h.group,h.server,?_,h.fits,(Evolves.refl _).fresh h.fresh,h.clientSecret,
    fun _ => rfl,h.serverSecrets⟩,Evolves.refl _⟩
  simp only [System.afterClient,hts,List.nil_append]
  exact .idle hoffer

lemma Inv.deliver_offer {q : Bool} {s : M.Message} (h : T.Inv σ allow S .running S (some s) true x)
    (hts : x.clientToServer = []) (htc : x.serverToClient = [connectionUpdateBytes q s])
    (hs : T.IsCommit σ true S s) (hroom : 1+S.length+2+q.toNat < u64Size)
    (hq : q = true → allow (.serverUpdate true)) :
    T.Next σ allow x.clock S S (some s) (System.deliverToClient P x) := by
  rw [System.deliverToClient,htc]
  have hsecrets := h.serverSecrets
  cases q with
  | false =>
    rw [Bool.toNat_false] at hroom
    obtain ⟨t,hrun,ht⟩ := client_receive_update hT hP.serde h.client hs (by omega) P.clientSigner
      x.clock
    simp only [hrun,Option.toList_some]
    have hev : T.Evolves x.clock S S (some s) (S++[s]) S (some s) := by
      refine ⟨fun m hm => Or.inl ?_,fun _ hs => Or.inl hs⟩
      rcases hm with hm | hm | hm
      · rcases List.mem_append.mp hm with hm | hm
        · exact Or.inl hm
        · exact Or.inr (Or.inr (by rw [List.mem_singleton.mp hm]))
      · exact Or.inr (Or.inl hm)
      · exact Or.inr (Or.inr hm)
    refine ⟨_,_,S,some s,true,⟨ht,h.group,h.server,?_,?_,hev.fresh h.fresh,rfl,False.elim,hsecrets⟩,
      hev⟩
    · simp only [System.afterClient,hts,List.nil_append]
      exact .merging
    · rw [List.length_append,List.length_singleton]
      omega
  | true =>
    rw [Bool.toNat_true] at hroom
    obtain ⟨m,t,hrun,ht,hm,hseed⟩ := client_receive_update_requested hT hP.serde h.client hs
      (by omega) x.clock
    simp only [hP.clientSigner,hrun,Option.toList_some]
    have hev : T.Evolves x.clock S S (some s) (S++[s]++[m]) S (some s) := by
      refine ⟨fun m' hm' => ?_,fun _ hs => Or.inl hs⟩
      simp only [Known,List.mem_append,List.mem_singleton] at hm' ⊢
      rcases hm' with ((hm' | rfl) | rfl) | hm'
      · exact Or.inl (Or.inl hm')
      · exact Or.inl (Or.inr (Or.inr rfl))
      · exact Or.inr hseed
      · exact Or.inl (Or.inr hm')
    refine ⟨_,_,S,some s,true,⟨ht,h.group,h.server,?_,?_,hev.fresh h.fresh,rfl,False.elim,hsecrets⟩,
      hev⟩
    · simp only [System.afterClient,hts,List.nil_append]
      exact .updating (Or.inr ⟨hq rfl,s,rfl,rfl⟩) hm (fun hf => by simp at hf) (by simp)
    · simp only [List.length_append,List.length_singleton]
      omega

theorem Inv.deliverToClient (h : T.Inv σ allow H i S p alive x) :
    T.Next σ allow x.clock H S p (System.deliverToClient P x) := by
  have hsh := h.shape
  generalize hts : x.clientToServer = ts at hsh
  generalize htc : x.serverToClient = tc at hsh
  have hnil : tc = [] → T.Next σ allow x.clock H S p (System.deliverToClient P x) := by
    intro hnil
    rw [System.deliverToClient,htc,hnil]
    exact ⟨H,i,S,p,alive,h,Evolves.refl _⟩
  cases hsh with
  | idle offer =>
    cases offer with
    | none => exact hnil rfl
    | some commit room request => exact h.deliver_offer hT hP hts htc commit room request
  | updating ahead commit request ignored =>
    cases tc with
    | nil => exact hnil rfl
    | cons b bs =>
      refine h.deliver_ignored hT (by simp) htc (ignored b (by simp)) ?_
      rw [hts]
      exact .updating ahead commit request fun b hb => ignored b (by simp [hb])
  | confirming last commit ignored offer =>
    rename_i base c before after
    cases before with
    | nil => exact h.deliver_confirmation hT hP (Or.inl ⟨c,rfl⟩) hts htc offer
    | cons b bs =>
      refine h.deliver_ignored hT (by simp) htc (ignored b (by simp)) ?_
      rw [hts]
      exact .confirming last commit (fun b hb => ignored b (by simp [hb])) offer
  | stuck request last commit ignored =>
    cases tc with
    | nil => exact hnil rfl
    | cons b bs =>
      refine h.deliver_ignored hT (by simp) htc (ignored b (by simp)) ?_
      rw [hts]
      exact .stuck request last commit fun b hb => ignored b (by simp [hb])
  | merging => exact hnil rfl
  | returning offer => exact h.deliver_confirmation hT hP (Or.inr rfl) hts htc offer
  | resuming => exact hnil rfl
  | replaying => exact hnil rfl
  | confirmed resume last commit offer =>
    have hfits := h.fits
    obtain ⟨s,hrun,hs⟩ := client_receive_connectionConfirmation hT hP.serde h.client (by omega)
      P.clientSigner x.clock
    rw [System.deliverToClient,htc]
    simp only [hrun,Option.toList_none]
    refine ⟨_,_,_,p,true,⟨hs,h.group,h.server,?_,h.fits,(Evolves.refl _).fresh h.fresh,
      h.clientSecret,fun _ => h.serverSecret trivial,h.serverSecrets⟩,Evolves.refl _⟩
    simp only [System.afterClient,hts,List.nil_append]
    exact .idle offer
  | failed => exact hnil rfl

lemma Inv.resume_fresh (h : T.Inv σ allow H i S p alive x) (hr : allow .resume)
    (hi : i = .running ∨ ∃ secret, i = .waitingForEpochKeyUpdateReturn secret)
    (hroom : System.Room .resume x) (hH : H = S ∨ ∃ s, p = some s ∧ H = S++[s]) :
    T.Next σ allow x.clock H S p (System.resume P x) := by
  have hepoch : 1+H.length+2 < u64Size := by
    have hr : x.client.mlsSession.epoch+2 < u64Size := hroom
    rwa [h.client.session] at hr
  obtain ⟨m,s,hrun,hs,hm,hseed⟩ := client_resume_fresh hT h.client hi h.fits x.clock
  have hev : T.Evolves x.clock H S p (H++[m]) S p := .clientCommit hseed
  simp only [System.resume,System.disconnect,hP.clientSigner,hrun]
  refine ⟨_,_,S,p,false,⟨hs,h.group,rfl,.resuming hr hH hm,?_,hev.fresh h.fresh,rfl,
    fun _ => rfl,fun ha => by simp at ha⟩,hev⟩
  rw [List.length_append,List.length_singleton]
  omega

omit hP in
lemma Inv.resume_replay {base : List M.Message} {m : M.Message} (h : T.Inv σ allow H i S p alive x)
    (hi : i = .waitingForEpochKeyUpdate (T.own σ H m) ∨
      i = .waitingForConnectionConfirmation (T.own σ H m)) (hm : T.IsCommit σ false base m)
    (hsh : T.Shape σ allow H (.waitingForConnectionConfirmation (T.own σ H m)) S p false
      [resumptionBytes m] []) :
    T.Next σ allow x.clock H S p (System.resume P x) := by
  obtain ⟨s,hrun,hs⟩ := client_resume_replay hT h.client hi hm P.clientSigner x.clock
  simp only [System.resume,System.disconnect,hrun]
  exact ⟨H,_,S,p,false,⟨hs,h.group,rfl,hsh,h.fits,(Evolves.refl _).fresh h.fresh,rfl,
    fun _ => rfl,fun ha => by simp at ha⟩,Evolves.refl _⟩

theorem Inv.resume (h : T.Inv σ allow H i S p alive x) (hr : allow .resume)
    (hroom : System.Room .resume x) : T.Next σ allow x.clock H S p (System.resume P x) := by
  have hsh := h.shape
  generalize x.clientToServer = ts at hsh
  generalize x.serverToClient = tc at hsh
  cases hsh with
  | idle => exact h.resume_fresh hT hP hr (Or.inl rfl) hroom (Or.inl rfl)
  | updating ahead commit =>
    refine h.resume_replay hT (Or.inl rfl) commit (.resuming hr ?_ commit)
    rcases ahead with rfl | ⟨-,hs⟩
    · exact Or.inl rfl
    · exact Or.inr hs
  | confirming last commit =>
    exact h.resume_replay hT (Or.inl rfl) commit (.replaying hr last commit)
  | stuck _ last commit =>
    exact h.resume_replay hT (Or.inl rfl) commit (.replaying hr last commit)
  | merging =>
    exact h.resume_fresh hT hP hr (Or.inr ⟨_,rfl⟩) hroom (Or.inr ⟨_,rfl,rfl⟩)
  | returning => exact h.resume_fresh hT hP hr (Or.inr ⟨_,rfl⟩) hroom (Or.inl rfl)
  | resuming _ ahead commit =>
    exact h.resume_replay hT (Or.inr rfl) commit (.resuming hr ahead commit)
  | replaying _ last commit =>
    exact h.resume_replay hT (Or.inr rfl) commit (.replaying hr last commit)
  | confirmed _ last commit =>
    exact h.resume_replay hT (Or.inr rfl) commit (.replaying hr last commit)
  | failed _ last commit =>
    exact h.resume_replay hT (Or.inr rfl) commit (.replaying hr last commit)

/-- Every allowed event keeps the invariant. -/
theorem Inv.step (h : T.Inv σ allow H i S p alive x) {e : Event} (he : allow e)
    (hroom : System.Room e x) : T.Next σ allow x.clock H S p (System.step P e x) := by
  cases e with
  | clientUpdate q => exact h.clientUpdate hT hP (fun hq => by rw [← hq]; exact he) hroom
  | serverUpdate q => exact h.serverUpdate hT hP (fun hq => by rw [← hq]; exact he) hroom
  | deliverToServer => exact h.deliverToServer hT hP
  | deliverToClient => exact h.deliverToClient hT hP
  | resume => exact h.resume hT hP he hroom

/-- The invariant holds along every run. -/
theorem Inv.run (h : T.Inv σ allow H i S p alive x) {y : System M}
    (hrun : System.Runs P allow x y) :
    ∃ H' i' S' p' alive', T.Inv σ allow H' i' S' p' alive' y := by
  refine hrun.invariant (I := fun y => ∃ H' i' S' p' alive', T.Inv σ allow H' i' S' p' alive' y) ?_
    ⟨H,i,S,p,alive,h⟩
  rintro e y ⟨H',i',S',p',alive',hy⟩ ⟨he,hroom⟩
  obtain ⟨H'',i'',S'',p'',alive'',hinv,-⟩ := hy.step hT hP he hroom
  exact ⟨H'',i'',S'',p'',alive'',hinv⟩

end

end TwoParty
end MlsTls.MlsHandshake
