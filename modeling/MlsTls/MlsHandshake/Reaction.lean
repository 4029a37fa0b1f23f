import MlsTls.MlsHandshake.Handshake
import MlsTls.MlsHandshake.Rekey

/-! The two parties of a session side by side. A call of either of them takes at most one message
off the connection, changes some of its keys and sends at most one message. `Reaction` says how
the keys follow the messages, in the same words for both parties. -/
namespace MlsTls.MlsHandshake
open Lib TlsAead
variable {M : OpenMls}

/-- Secrets of the length that MLS exports. -/
structure Usable (t : TrafficSecrets) : Prop where
  client : t.clientSecret.secret.length = HashType.sha2_512.size
  server : t.serverSecret.secret.length = HashType.sha2_512.size

/-- The secret under which a party sends. -/
def secretOf : Bool → TrafficSecrets → Bytes
  | false,t => t.clientSecret.secret
  | true,t => t.serverSecret.secret

/-- Whether a party changes its key after a message, as the client does after each of its own. -/
def announces (M : OpenMls) : Bool → Bytes → Bool
  | false,_ => true
  | true,b => isEpochKeyUpdate M b

namespace System

def secretsOf (x : System M) : Bool → TrafficSecrets
  | false => x.clientSecrets
  | true => x.serverSecrets

def messagesOf (x : System M) : Bool → List Bytes
  | false => x.clientToServer
  | true => x.serverToClient

def handshakeOf (P : Parties M) (x : System M) : Bool → MlsHandshake M
  | false => ⟨P.clientSigner,x.clientDb,.client x.client⟩
  | true => ⟨P.serverSigner,x.serverDb,x.server.elim .none .server⟩

/-- What a call of one party does to the session, if it takes the message `taken` and returns
`update` and `response`. -/
structure Reaction (P : Parties M) (x : System M) (isServer : Bool) (taken : Option Bytes)
    (update : Option SecretUpdate) (response : Option Bytes) (y : System M) : Prop where
  clock : y.clock = x.clock+1
  secrets : y.secretsOf isServer =
    update.elim (x.secretsOf isServer) (x.secretsOf isServer).update
  otherSecrets : y.secretsOf (!isServer) = x.secretsOf (!isServer)
  otherHandshake : y.handshakeOf P (!isServer) = x.handshakeOf P (!isServer)
  sent : y.messagesOf isServer = x.messagesOf isServer++response.toList
  received : x.messagesOf (!isServer) = taken.toList++y.messagesOf (!isServer)
  /-- A new key to send under begins after a message that announces it. -/
  sendKey : secretOf isServer (y.secretsOf isServer) = secretOf isServer (x.secretsOf isServer) ∨
    ∃ r, response = some r ∧ announces M isServer r = true ∧
      ∀ m ∈ x.messagesOf isServer, announces M isServer m = false
  /-- After an announcement a party receives under the key that the other one sends under. -/
  recvKey : secretOf (!isServer) (y.secretsOf isServer) =
    if taken.any (announces M (!isServer)) then secretOf (!isServer) (x.secretsOf (!isServer))
    else secretOf (!isServer) (x.secretsOf isServer)
  usable : Usable (x.secretsOf isServer) → Usable (y.secretsOf isServer)

end System

namespace TwoParty
variable {T : TwoParty M} {σ : T.Session} {P : Parties M} {H S : List M.Message}
  {i : ClientInternalState M} {p : Option M.Message} {alive : Bool} {x : System M}

lemma usable_secrets (hT : T.Lawful) (ms : List M.Message) : Usable (T.secrets σ ms) :=
  ⟨hT.secret_length _ _ _ _ _,hT.secret_length _ _ _ _ _⟩

lemma Inv.alive_of_quiet (h : T.Inv σ Quiet H i S p alive x) : alive = true := by
  have hsh := h.shape
  generalize x.clientToServer = ts at hsh
  generalize x.serverToClient = tc at hsh
  cases hsh with
  | resuming resume => exact absurd rfl resume.1
  | replaying resume => exact absurd rfl resume.1
  | failed resume => exact absurd rfl resume.1
  | _ => rfl

lemma Inv.usable_server (hT : T.Lawful) (h : T.Inv σ Quiet H i S p alive x) :
    Usable x.serverSecrets := by
  rw [h.serverSecrets h.alive_of_quiet]
  exact usable_secrets hT S

lemma Inv.usable_clientSecret (hT : T.Lawful) (h : T.Inv σ Quiet H i S p alive x) :
    x.clientSecrets.clientSecret.secret.length = HashType.sha2_512.size := by
  rw [h.clientSecret]
  exact (usable_secrets hT H).client

lemma Inv.exists_server (h : T.Inv σ Quiet H i S p alive x) : ∃ server, x.server = some server := by
  have hs := h.server
  rw [h.alive_of_quiet] at hs
  exact ⟨_,hs⟩

lemma Inv.later (h : T.Inv σ Quiet H i S p alive x) {n : ℕ} (hn : x.clock ≤ n) :
    T.Inv σ Quiet H i S p alive { x with clock := n } :=
  ⟨h.client,h.group,h.server,h.shape,h.fits,fun m hm => (h.fresh m hm).trans_le hn,h.clientSecret,
    h.serverSecret,h.serverSecrets⟩

/-- A session of the encryption provider, in any of its situations. -/
def Live (T : TwoParty M) (σ : T.Session) (x : System M) : Prop :=
  ∃ H i S p alive, T.Inv σ Quiet H i S p alive x

/-- An update of a party goes through. -/
def Updates (T : TwoParty M) (σ : T.Session) (P : Parties M) (x : System M) (isServer : Bool) :
    Prop :=
  ∃ update message y, (MlsHandshake.updateHandshake P.serde x.clock).run (x.handshakeOf P isServer) =
      (.ok (update,message),y.handshakeOf P isServer) ∧
    x.Reaction P isServer none update (some message) y ∧
    T.Live σ y

section
variable (hT : T.Lawful) (hP : T.Honest σ P)
include hT hP

lemma Inv.client_reaction (h : T.Inv σ Quiet H i S p alive x) {b : Bytes} {bs : List Bytes}
    (htc : x.serverToClient = b::bs) :
    ∃ update response, (MlsHandshake.processSignalingMessage P.serde b x.clock).run
        (x.handshakeOf P false) =
          (.ok (update,response),(System.deliverToClient P x).handshakeOf P false) ∧
      x.Reaction P false (some b) update response (System.deliverToClient P x) ∧
      Confirms M false b response := by
  obtain ⟨update,response,s,hrun,hreply,hconfirms⟩ := h.client_receive hT hP htc
  obtain ⟨H',i',S',p',alive',hy,-⟩ := h.deliverToClient hT hP
  have hlen := hy.usable_clientSecret hT
  have hserver := h.usable_server hT
  have hstep : System.deliverToClient P x =
      { x with serverToClient := bs }.afterClient s update response.toList := by
    rw [System.deliverToClient,htc]
    simp only [hrun]
  rw [hstep] at hlen ⊢
  refine ⟨update,response,?_,?_,hconfirms⟩
  · simp only [MlsHandshake.processSignalingMessage,Exec.bind_run,Exec.get_run,System.handshakeOf]
    exact MlsHandshake.client_of_ok hrun
  · cases hreply with
    | ignored plain =>
      exact ⟨rfl,rfl,rfl,rfl,rfl,htc,Or.inl rfl,by simp [announces,plain]; rfl,id⟩
    | merged plain quiet secret response =>
      refine ⟨rfl,rfl,rfl,rfl,rfl,htc,Or.inr ⟨response,rfl,rfl,?_⟩,by simp [announces,plain]; rfl,
        fun hx => ⟨hlen,hx.server⟩⟩
      intro m hm
      rw [System.messagesOf,quiet] at hm
      simp at hm
    | confirmed switch =>
      exact ⟨rfl,rfl,rfl,rfl,rfl,htc,Or.inl rfl,by simp [announces,switch]; rfl,
        fun hx => ⟨hx.client,hserver.server⟩⟩

lemma Inv.server_reaction (h : T.Inv σ Quiet H i S p alive x) {b : Bytes} {bs : List Bytes}
    (hts : x.clientToServer = b::bs) :
    ∃ update response, (MlsHandshake.processSignalingMessage P.serde b x.clock).run
        (x.handshakeOf P true) =
          (.ok (update,response),(System.deliverToServer P x).handshakeOf P true) ∧
      x.Reaction P true (some b) update response (System.deliverToServer P x) ∧
      Confirms M true b response := by
  obtain ⟨server,hs⟩ := h.exists_server
  obtain ⟨secrets,response,s,hrun,hclient,hswitch,hplain,hconfirms⟩ := h.server_receive hT (P := P) hts hs
  obtain ⟨H',i',S',p',alive',hy,-⟩ := h.deliverToServer hT hP
  have husable := hy.usable_server hT
  have hstep : System.deliverToServer P x =
      { x with clientToServer := bs }.afterServer (some s.1) s.2 secrets [response] := by
    rw [System.deliverToServer,hts]
    simp only [hs,hrun,Option.toList_some]
  rw [hstep] at husable ⊢
  refine ⟨some (.both secrets),some response,?_,?_,hconfirms⟩
  · have hcall : (MlsHandshake.server server (ServerHandshakeState.receiveSignalingMessage
        P.serverSigner b x.clock)).run ⟨P.serverSigner,x.serverDb,.server server⟩ = _ :=
      MlsHandshake.server_of_ok hrun
    simp only [MlsHandshake.processSignalingMessage,Exec.bind_run,Exec.get_run,System.handshakeOf,hs,
      Option.elim_some,hcall]
    rfl
  · refine ⟨rfl,rfl,rfl,rfl,rfl,hts,Or.inr ⟨response,rfl,hswitch,hplain⟩,?_,fun _ => husable⟩
    exact congrArg ClientSecret.secret hclient

/-- A party processes the first message that is in flight to it. -/
theorem Inv.receive (h : T.Inv σ Quiet H i S p alive x) (isServer : Bool) {b : Bytes}
    {bs : List Bytes} (hm : x.messagesOf (!isServer) = b::bs) :
    ∃ update response y, (MlsHandshake.processSignalingMessage P.serde b x.clock).run
        (x.handshakeOf P isServer) = (.ok (update,response),y.handshakeOf P isServer) ∧
      x.Reaction P isServer (some b) update response y ∧
      Confirms M isServer b response ∧ T.Live σ y := by
  cases isServer with
  | false =>
    obtain ⟨update,response,hrun,hreact,hconfirms⟩ := h.client_reaction hT hP hm
    obtain ⟨H',i',S',p',alive',hy,-⟩ := h.deliverToClient hT hP
    exact ⟨update,response,_,hrun,hreact,hconfirms,H',i',S',p',alive',hy⟩
  | true =>
    obtain ⟨update,response,hrun,hreact,hconfirms⟩ := h.server_reaction hT hP hm
    obtain ⟨H',i',S',p',alive',hy,-⟩ := h.deliverToServer hT hP
    exact ⟨update,response,_,hrun,hreact,hconfirms,H',i',S',p',alive',hy⟩

lemma Inv.client_updates (h : T.Inv σ Quiet H i S p alive x) :
    (MlsHandshake.updateHandshake P.serde x.clock).run (x.handshakeOf P false) =
        (.error (.error (.handshakeError .waitingForResponse)),x.handshakeOf P false) ∨
      (x.handshakeOf P false).isWaiting = false ∧
      ((x.handshakeOf P false).epoch+2 < u64Size → T.Updates σ P x false) := by
  rcases h.client_update_cases hT hP false with hrun | ⟨hwait,hquiet,hok⟩
  · left
    have hcall : (MlsHandshake.client x.client (ClientHandshakeState.update P.serde P.clientSigner
        false x.clock)).run ⟨P.clientSigner,x.clientDb,.client x.client⟩ = _ :=
      MlsHandshake.client_of_error hrun
    simp only [MlsHandshake.updateHandshake,Exec.bind_run,Exec.get_run,System.handshakeOf,hcall]
  · refine Or.inr ⟨hwait,fun hroom => ?_⟩
    obtain ⟨secret,b,s,hrun⟩ := hok hroom
    obtain ⟨H',i',S',p',alive',hy,-⟩ := h.clientUpdate hT hP (q := false) (by simp) hroom
    have hlen := hy.usable_clientSecret hT
    have hstep : System.clientUpdate P false x =
        x.afterClient s (some (.clientSecret secret)) [b] := by
      rw [System.clientUpdate,hrun]
    rw [hstep] at hlen hy
    refine ⟨some (.clientSecret secret),b,_,?_,?_,H',i',S',p',alive',hy⟩
    · have hcall : (MlsHandshake.client x.client (ClientHandshakeState.update P.serde P.clientSigner
          false x.clock)).run ⟨P.clientSigner,x.clientDb,.client x.client⟩ = _ :=
        MlsHandshake.client_of_ok hrun
      simp only [MlsHandshake.updateHandshake,Exec.bind_run,Exec.get_run,System.handshakeOf,hcall]
      rfl
    · refine ⟨rfl,rfl,rfl,rfl,rfl,rfl,Or.inr ⟨b,rfl,rfl,?_⟩,rfl,fun hx => ⟨hlen,hx.server⟩⟩
      intro m hm
      rw [System.messagesOf,hquiet] at hm
      simp at hm

lemma Inv.server_updates (h : T.Inv σ Quiet H i S p alive x) :
    (MlsHandshake.updateHandshake P.serde x.clock).run (x.handshakeOf P true) =
        (.error (.error (.handshakeError .waitingForResponse)),x.handshakeOf P true) ∨
      (x.handshakeOf P true).isWaiting = false ∧
      ((x.handshakeOf P true).epoch+2 < u64Size → T.Updates σ P x true) := by
  obtain ⟨server,hs⟩ := h.exists_server
  rcases h.server_update_cases hT hP false hs with hrun | ⟨hwait,hok⟩
  · left
    have hcall : (MlsHandshake.server server (ServerHandshakeState.update P.serverSigner false
        x.clock)).run ⟨P.serverSigner,x.serverDb,.server server⟩ = _ :=
      MlsHandshake.server_of_error hrun
    simp only [MlsHandshake.updateHandshake,Exec.bind_run,Exec.get_run,System.handshakeOf,hs,
      Option.elim_some,hcall]
  · refine Or.inr ⟨by simpa [MlsHandshake.isWaiting,System.handshakeOf,hs] using hwait,
      fun hroom => ?_⟩
    have hepoch : server.mlsSession.epoch+2 < u64Size := by
      simpa [MlsHandshake.epoch,System.handshakeOf,hs] using hroom
    obtain ⟨b,s,hrun,hplain⟩ := hok hepoch
    have hstepRoom : System.Room (.serverUpdate false) x := by
      intro server' hs'
      obtain rfl := Option.some.inj (hs.symm.trans hs')
      exact hepoch
    obtain ⟨H',i',S',p',alive',hy,-⟩ := h.serverUpdate hT hP (q := false) (by simp) hstepRoom
    have hstep : System.serverUpdate P false x =
        x.afterServer (some s.1) s.2 x.serverSecrets [b] := by
      rw [System.serverUpdate]
      simp only [hs,hrun]
    rw [hstep] at hy
    refine ⟨none,b,_,?_,?_,H',i',S',p',alive',hy⟩
    · have hcall : (MlsHandshake.server server (ServerHandshakeState.update P.serverSigner false
          x.clock)).run ⟨P.serverSigner,x.serverDb,.server server⟩ = _ :=
        MlsHandshake.server_of_ok hrun
      simp only [MlsHandshake.updateHandshake,Exec.bind_run,Exec.get_run,System.handshakeOf,hs,
        Option.elim_some,hcall]
      rfl
    · exact ⟨rfl,rfl,rfl,rfl,rfl,rfl,Or.inl rfl,rfl,id⟩

theorem Inv.update (h : T.Inv σ Quiet H i S p alive x) (isServer : Bool) :
    (MlsHandshake.updateHandshake P.serde x.clock).run (x.handshakeOf P isServer) =
        (.error (.error (.handshakeError .waitingForResponse)),x.handshakeOf P isServer) ∨
      (x.handshakeOf P isServer).isWaiting = false ∧
      ((x.handshakeOf P isServer).epoch+2 < u64Size → T.Updates σ P x isServer) := by
  cases isServer with
  | false => exact h.client_updates hT hP
  | true => exact h.server_updates hT hP

end
end TwoParty
end MlsTls.MlsHandshake
