import MlsTls.EncryptionProvider.Connect
import MlsTls.Lib.Queues

/-! What the users of two joined providers see: the payloads that go in and come out. Records that
carry messages of the handshake, key switches and the cuts of the streams do not show, and what is
left is a queue of payloads in each direction. -/
set_option linter.dupNamespace false

namespace MlsTls.EncryptionProvider
open Lib TlsAead MlsHandshake PreHandshake
variable {M : OpenMls}

namespace Duplex
variable {V : Environment M}

/-- The payloads on their way from each side. -/
def inTransit (d : Duplex V) (isServer : Bool) : List Bytes := payloads (d.inFlight isServer)

/-- What the user of a side sees of an operation: the queue of each side holds what it sends. -/
def visible (e : Bool × Operation V) (d : Duplex V) : List (QueueAction Bool Bytes) :=
  (d.accepted e.1 e.2).toList.map (.put e.1)++(d.returned e.1 e.2).toList.map (.take !e.1)

lemma act_visible {e : Bool × Operation V} {d : Duplex V} {q q' : Bool → List Bytes}
    (hput : q' e.1 = q e.1++(d.accepted e.1 e.2).toList)
    (htake : q (!e.1) = (d.returned e.1 e.2).toList++q' !e.1) :
    (visible e d).foldlM QueueAction.act q = some q' := by
  refine QueueAction.acts_put_take (Bool.not_ne_self e.1).symm hput htake fun k hk hk' => ?_
  rw [Bool.eq_not_of_ne hk] at hk'
  exact absurd rfl hk'

variable {T : TwoParty M} {σ : T.Session} {P : Parties M} {d d' : Duplex V} {isServer : Bool}
  {op : Operation V} {got done put : List InnerPlaintext}

section
variable (hC : V.crypto.Lawful)
include hC

lemma Lockstep.values_sent (h : d.Lockstep T σ P) (isServer : Bool) :
    values V.crypto ((d.side isServer).channels.sent.map SentRecord.use) =
      values V.crypto (d.side !isServer).channels.received++d.unread isServer := by
  obtain ⟨x,-,hj⟩ := h.joined isServer
  obtain ⟨pending,hgoing⟩ := hj.going
  exact (hgoing.link.pending_eq hC).2

lemma Lockstep.inFlight_drained (h : d.Lockstep T σ P) (hd : d.Drained) (isServer : Bool) :
    d.inFlight isServer = [] := by
  obtain ⟨x,-,hj⟩ := h.joined isServer
  obtain ⟨pending,hlink,-⟩ := hj.going
  obtain ⟨hp,-⟩ := hlink.pending_eq hC
  rw [hd.processed] at hlink
  obtain rfl := hlink.pending_eq_nil (hd.incoming _) (hd.outgoing _)
  exact hp.symm

lemma Exchanged.unread_going (he : Exchanged isServer op d d' got done put)
    (h : d.Lockstep T σ P) (h' : d'.Lockstep T σ P) :
    d'.unread isServer = d.unread isServer++put := by
  have hbefore := h.values_sent hC isServer
  have hafter := h'.values_sent hC isServer
  obtain ⟨us,hus,hnone⟩ := he.far.received
  rw [he.near.sent,hus,values_append,hnone,List.append_nil,hbefore,List.append_assoc] at hafter
  exact (List.append_cancel_left hafter).symm

lemma Exchanged.unread_coming (he : Exchanged isServer op d d' got done put)
    (h : d.Lockstep T σ P) (h' : d'.Lockstep T σ P) :
    d.unread (!isServer) = got++d'.unread !isServer := by
  have hbefore := h.values_sent hC (!isServer)
  have hafter := h'.values_sent hC (!isServer)
  rw [Bool.not_not] at hbefore hafter
  obtain ⟨us,hus,hgot⟩ := he.near.received
  rw [he.far.sent,List.append_nil,hbefore,hus,values_append,hgot,List.append_assoc] at hafter
  exact List.append_cancel_left hafter

lemma Exchanged.going (he : Exchanged isServer op d d' got done put)
    (h : d.Lockstep T σ P) (h' : d'.Lockstep T σ P) :
    d'.inFlight isServer = d.inFlight isServer++put := by
  rw [inFlight,inFlight,he.unprocessed,he.unread_going hC h h',List.append_assoc]

lemma Exchanged.coming (he : Exchanged isServer op d d' got done put)
    (h : d.Lockstep T σ P) (h' : d'.Lockstep T σ P) :
    d.inFlight (!isServer) = done++d'.inFlight !isServer := by
  rw [inFlight,inFlight,Bool.not_not,he.unread_coming hC h h',← List.append_assoc,he.processed,
    List.append_assoc]

/-- Two providers in lockstep refine two queues of payloads. -/
theorem refines_queues (hT : T.Lawful) (hP : T.Honest σ P) (hJ : P.serde = V.serde) :
    Run.Refines step Room visible (Lockstep (V := V) T σ P) QueueAction.act inTransit where
  keeps h hroom := (h.exec hC hT hP hJ hroom).2
  simulates := by
    rintro ⟨isServer,op⟩ d h hroom
    obtain ⟨-,h',got,done,put,he⟩ := h.exchange hC hT hP hJ hroom
    have hput := congrArg payloads (he.going hC h h')
    have htake := congrArg payloads (he.coming hC h h')
    rw [payloads_append,he.accepted] at hput
    rw [payloads_append,he.returned] at htake
    exact act_visible hput htake

end
end Duplex

namespace Peers
variable {V : Environment M} {T : TwoParty M} {Q : Peers V}

/-- Two honest providers that have completed their handshake, with or without a pre-handshake,
are for their users a queue of payloads in each direction: in every run, each read returns the first
payload of the other side that was not returned before, and once the streams are drained and every
message read has been processed, all of them have been returned. -/
theorem payloads_delivered_in_order (hC : V.crypto.Lawful) (hT : T.Lawful) (hJ : V.serde.Lawful)
    {X : X25519} (hX : X.Lawful) {opening : Opening X} {d₀ : Duplex V}
    {z : Duplex V × List (QueueAction Bool Bytes)} (h₀ : Q.connect opening = some d₀)
    (hrun : Run (Run.record Duplex.step Duplex.visible) (fun e z => Duplex.Room e z.1) (d₀,[]) z) :
    z.2.foldlM QueueAction.act (fun _ => []) = some z.1.inTransit ∧
    (∀ b, QueueAction.puts b z.2 = QueueAction.takes b z.2++z.1.inTransit b) ∧
    (z.1.Drained → ∀ b, QueueAction.takes b z.2 = QueueAction.puts b z.2) := by
  obtain ⟨-,σ,-,hP,hrest⟩ := connect_atRest hC hT hJ hX h₀
  have hnothing : d₀.inTransit = fun _ => [] :=
    funext fun b => congrArg payloads (hrest.lockstep.inFlight_drained hC hrest.drained b)
  obtain ⟨hstep,hact⟩ := (Duplex.refines_queues hC hT hP rfl).run hrun hrest.lockstep
    (show _ = some d₀.inTransit by rw [hnothing]; rfl)
  have hbalance (b : Bool) := QueueAction.balance hact b
  simp only [List.nil_append] at hbalance
  refine ⟨hact,hbalance,fun hd b => ?_⟩
  rw [hbalance b,Duplex.inTransit,hstep.inFlight_drained hC hd,payloads_nil,List.append_nil]

end Peers

namespace Sample

/-- The connection after its operations, with what its users have seen. -/
def observed : Duplex environment × List (QueueAction Bool Bytes) :=
  operations.foldl (fun z e => Run.record Duplex.step Duplex.visible e z) (duplex,[])

end Sample

theorem Peers.payloads_delivered_in_order_sample :
    Sample.observed.1.Drained ∧ Sample.observed.2 =
      [.put false [7],.put true [8],.take false [7],.take true [8]] ∧
    ∀ b, QueueAction.takes b Sample.observed.2 = QueueAction.puts b Sample.observed.2 := by
  have hdrained : Sample.observed.1.Drained := by
    constructor <;> intro b <;> cases b <;> decide +kernel
  have hrun : Run (Run.record Duplex.step Duplex.visible) (fun e z => Duplex.Room e z.1)
      (Sample.duplex,[]) Sample.observed := Run.ofList (by decide +kernel)
  exact ⟨hdrained,by decide +kernel,(Peers.payloads_delivered_in_order (Q := Sample.peers)
    sampleCrypto_lawful sampleTwoParty_lawful sampleSerde_lawful Sample.x25519_lawful
    (Option.some_get Sample.connected).symm hrun).2.2 hdrained⟩

end MlsTls.EncryptionProvider
