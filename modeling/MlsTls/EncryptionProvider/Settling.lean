import MlsTls.EncryptionProvider.Delivery

/-! Reading alone brings a connection to rest. A message of the handshake may have to be answered,
and an answer of the client once more, but no further: every value that is read or processed makes
what is still to be done less, the answer included. -/
set_option linter.dupNamespace false

namespace MlsTls.EncryptionProvider
open Lib TlsAead MlsHandshake PreHandshake
variable {M : OpenMls}

/-- What it still takes to process a value that the side `isServer` has sent. Reading it takes one
more, and so does each answer. -/
def cost (M : OpenMls) (isServer : Bool) : InnerPlaintext → ℕ
  | .application _ => 1
  | .signaling b => if isServer then (if isEpochKeyUpdate M b then 1 else 5) else 3

def costs (M : OpenMls) (isServer : Bool) (ms : List InnerPlaintext) : ℕ :=
  (ms.map (cost M isServer)).sum

@[simp] theorem costs_nil (isServer : Bool) : costs M isServer [] = 0 := rfl

@[simp] theorem costs_cons (isServer : Bool) (m : InnerPlaintext) (ms : List InnerPlaintext) :
    costs M isServer (m::ms) = cost M isServer m+costs M isServer ms := rfl

@[simp] theorem costs_append (isServer : Bool) (ms ns : List InnerPlaintext) :
    costs M isServer (ms++ns) = costs M isServer ms+costs M isServer ns := by
  simp [costs]

lemma cost_pos (isServer : Bool) (m : InnerPlaintext) : 0 < cost M isServer m := by
  cases m with
  | application b => simp [cost]
  | signaling b =>
    simp only [cost]
    split_ifs <;> simp

section
variable {T : TwoParty M} (hT : T.Lawful) {isServer : Bool}
include hT

lemma costs_answer {b : Bytes} {response : Option Bytes} (h : Confirms M isServer b response) :
    costs M isServer (response.toList.map .signaling)+response.toList.length+1 ≤
      cost M (!isServer) (.signaling b) := by
  cases response with
  | none => exact cost_pos _ _
  | some r =>
    obtain ⟨⟨n,hn,rfl⟩,hplain⟩ := h r rfl
    cases isServer with
    | true => simp [cost,TwoParty.isEpochKeyUpdate_epochKeyUpdate hT hn]
    | false => simp [cost,hplain rfl]

lemma Answers.costs_le {ms put : List InnerPlaintext} (h : Answers M isServer ms put) :
    costs M isServer put+put.length+ms.length ≤ costs M (!isServer) ms := by
  -- every value that is processed makes what is still to be done less
  induction h with
  | nil => exact le_rfl
  | application rest ih =>
    rw [costs_cons,List.length_cons]
    simp only [cost]
    omega
  | @signaling b response ms put confirms rest ih =>
    have hb := costs_answer hT confirms
    rw [costs_append,costs_cons,List.length_append,List.length_map,List.length_cons]
    omega

end

lemma Answers.length_le {isServer : Bool} {ms put : List InnerPlaintext}
    (h : Answers M isServer ms put) : put.length ≤ ms.length := by
  induction h with
  | nil => exact le_rfl
  | application rest ih => exact ih.trans (Nat.le_succ _)
  | @signaling b response ms put confirms rest ih =>
    have hone : response.toList.length ≤ 1 := by cases response <;> simp
    rw [List.length_append,List.length_map,List.length_cons]
    omega

lemma epochKeyUpdate_fits {n : ℕ} (hn : n < u64Size) :
    (InnerPlaintext.signaling (epochKeyUpdateBytes M n)).Fits := by
  have hlen : (epochKeyUpdateBytes M n).length = 10 := by
    simp [epochKeyUpdateBytes,Wire.bytes,SignalingMessageOut.wire,Wire.enum,Wire.encVariant,
      EpochKeyUpdate.wire,Wire.iso,Wire.word,show n < 18446744073709551616 from hn]
  refine ⟨beBytes 1 1++(beBytes 1 10++epochKeyUpdateBytes M n),?_,?_⟩
  · simp [InnerPlaintext.wire,Wire.enum,Wire.encVariant,Wire.vec,Wire.lengthPrefix,hlen,Wire.word]
  · simp only [List.length_append,beBytes_length,hlen]
    decide

lemma ProtectedChannels.nextPlaintext_waits {C : Crypto} {E : Type} {s s' : ProtectedChannels}
    (h : (ProtectedChannels.nextPlaintext C : ProtectedChannels.ProviderCall E _).run s =
      (.ok none,s')) : TlsFrameCodec.decode s.incoming = none := by
  obtain ⟨o,t,hnext,hrest⟩ := Exec.bind_eq_ok.mp h
  cases o with
  | some packet =>
    obtain ⟨m,t',-,hpure⟩ := Exec.bind_eq_ok.mp hrest
    simp at hpure
  | none =>
    have hrun := Exec.mapError_eq_ok.mp hnext
    rw [ProtectedChannels.next,Exec.bind_run] at hrun
    simp only [Exec.get_run] at hrun
    cases hd : TlsFrameCodec.decode s.incoming with
    | none => rfl
    | some q =>
      simp only [hd,Exec.bind_eq_ok,Exec.pure_run] at hrun
      obtain ⟨_,_,-,_,_,-,_,_,-,hpure⟩ := hrun
      simp at hpure

lemma Under.fits {C : Crypto} (hC : C.Lawful) {k : Bytes × Bytes} {n : ℕ} {x : Item}
    (h : Under C k n x) : x.2.record.ciphertext.length < 2^16 := by
  obtain ⟨a,e,-,-,-,-,-,hfit,hr,-⟩ := h
  have hmem : x.2.record ∈ TlsAeadCodec.sealedRecords C [e] a := by
    simp [TlsAeadCodec.sealedRecords,hr]
  exact ciphertext_length_lt hC (fun y hy => List.mem_singleton.mp hy ▸ hfit) hmem

lemma Link.incoming_waits {C : Crypto} (hC : C.Lawful) {marked : InnerPlaintext → Bool}
    {out : Outbound} {inb : Inbound} {slot : Option InnerPlaintext} {pending : List InnerPlaintext}
    (h : Link C marked out inb slot pending) (hout : out.bytes = [])
    (hd : TlsFrameCodec.decode inb.bytes = none) : inb.bytes = [] := by
  obtain ⟨xs,-,hb,-,-,hf⟩ := h.items
  rw [hout,List.append_nil] at hb
  cases xs with
  | nil => exact hb
  | cons x xs =>
    rw [hb,List.map_cons,List.flatten_cons,SealedRecord.bytes,
      TlsFrameCodec.decode_frame (Under.fits hC hf.1)] at hd
    simp at hd

namespace Duplex
variable {V : Environment M}

/-- What is still to be done for the values on their way from a side. -/
def load (d : Duplex V) (isServer : Bool) : ℕ :=
  costs M isServer (d.inFlight isServer)+(d.unread isServer).length

def work (d : Duplex V) : ℕ := d.load false+d.load true

lemma work_eq (d : Duplex V) (isServer : Bool) : d.work = d.load isServer+d.load !isServer := by
  cases isServer with
  | false => rfl
  | true => exact Nat.add_comm _ _

/-- There are sequence numbers for all answers that are still to come. -/
def Spare (d : Duplex V) : Prop :=
  ∀ isServer, (d.side isServer).channels.cipher.sendSeq+d.work < u64Size

/-- Only reading, and a message is processed before the next one is read. -/
def MayRead (e : Bool × Operation V) (d : Duplex V) : Prop :=
  match e.2 with
  | .sendBytes _ _ => False
  | .readMessage => (d.side e.1).unprocessed = none
  | .processReadMessage => True
  | .readBytes _ => (d.side e.1).unprocessed = none
  | .arrive _ => True

instance (e : Bool × Operation V) (d : Duplex V) : Decidable (d.MayRead e) :=
  match e with
  | (_,.sendBytes _ _) => inferInstanceAs (Decidable False)
  | (_,.readMessage) => inferInstanceAs (Decidable (_ = _))
  | (_,.processReadMessage) => isTrue trivial
  | (_,.readBytes _) => inferInstanceAs (Decidable (_ = _))
  | (_,.arrive _) => isTrue trivial

lemma MayRead.isReading {e : Bool × Operation V} {d : Duplex V} (h : d.MayRead e) :
    e.2.isReading = true := by
  obtain ⟨b,op⟩ := e
  cases op with
  | sendBytes bytes now => exact False.elim h
  | _ => rfl

variable {T : TwoParty M} {σ : T.Session} {P : Parties M} {d d' : Duplex V} {isServer : Bool}
  {op : Operation V} {got done put : List InnerPlaintext}

lemma set_self (d : Duplex V) (isServer : Bool) : d.set isServer (d.side isServer) d.clock = d := by
  unfold Duplex.set
  rw [Function.update_eq_self]

lemma step_readMessage {message : Option InnerPlaintext} {p : EncryptionProvider M V.chrono}
    (h : (EncryptionProvider.readMessage V).run (d.side isServer).provider = (.ok message,p)) :
    d.step (isServer,.readMessage) = d.set isServer ⟨p,message⟩ d.clock := by
  simp only [step,Duplex.exec,h]

lemma step_processReadMessage {m : InnerPlaintext} {p : EncryptionProvider M V.chrono}
    {r : Outcome (EncryptionProviderError M.Error) (Option Bytes)}
    (hslot : (d.side isServer).unprocessed = some m)
    (h : (EncryptionProvider.processReadMessage V isServer m d.clock).run
      (d.side isServer).provider = (r,p)) :
    d.step (isServer,.processReadMessage) = d.set isServer ⟨p,none⟩ (d.clock+1) := by
  simp only [step,Duplex.exec,hslot,h]

section
variable (hC : V.crypto.Lawful) (hT : T.Lawful)
include hC hT

lemma Exchanged.work_le (he : Exchanged isServer op d d' got done put)
    (h : d.Lockstep T σ P) (h' : d'.Lockstep T σ P) (hop : op.isReading = true) :
    d'.work+got.length+done.length ≤ d.work := by
  have hanswers := (he.answers hop).costs_le hT
  have hgoing := he.going hC h h'
  have hcoming := he.coming hC h h'
  rw [d.work_eq isServer,d'.work_eq isServer]
  simp only [load,hgoing,hcoming,he.unread_going hC h h',he.unread_coming hC h h',costs_append,
    List.length_append]
  omega

lemma Exchanged.spare (he : Exchanged isServer op d d' got done put)
    (h : d.Lockstep T σ P) (h' : d'.Lockstep T σ P) (hop : op.isReading = true) (hs : d.Spare) :
    d'.Spare := by
  have hwork := he.work_le hC hT h h' hop
  have hlen := (he.answers hop).length_le
  have hnear := he.near.seq
  have hfar := he.far.seq
  rw [List.length_nil,Nat.add_zero] at hfar
  intro b
  have hb := hs b
  by_cases hside : b = isServer
  · subst hside
    omega
  · obtain rfl := Bool.eq_not_of_ne hside
    omega

omit hC in
lemma Spare.answer (hs : d.Spare) {b : Bytes} {response : Option Bytes}
    (hconfirms : Confirms M isServer b response)
    (hslot : (d.side isServer).unprocessed = some (.signaling b)) {r : Bytes}
    (hr : response = some r) : (d.side isServer).provider.SignalRoom r 1 := by
  obtain ⟨⟨n,hn,rfl⟩,-⟩ := hconfirms r hr
  refine ⟨epochKeyUpdate_fits hn,?_⟩
  have hanswer := costs_answer hT hconfirms
  have hpos : 0 < costs M isServer (response.toList.map .signaling) := by
    rw [hr]
    exact (cost_pos isServer _).trans_le (Nat.le_add_right _ _)
  have hload : cost M (!isServer) (.signaling b) ≤ d.load !isServer := by
    rw [load,inFlight,Bool.not_not,hslot,Option.toList_some,List.singleton_append,costs_cons]
    omega
  have hwork := d.work_eq isServer
  have hroom := hs isServer
  change (d.side isServer).channels.cipher.sendSeq+1 < u64Size
  omega

variable (hP : T.Honest σ P) (hJ : P.serde = V.serde)
include hP hJ

omit hC in
lemma Lockstep.processRoom (h : d.Lockstep T σ P) (hs : d.Spare) {m : InnerPlaintext}
    (hslot : (d.side isServer).unprocessed = some m) :
    (d.side isServer).provider.ProcessRoom m d.clock := by
  cases m with
  | application b => trivial
  | signaling b =>
    obtain ⟨x,hclock,hj⟩ := h.joined isServer
    obtain ⟨pending,hcoming⟩ := hj.coming
    have hlink := hcoming.link
    rw [hslot] at hlink
    obtain ⟨rest,rfl,-⟩ := hlink.processed rfl
    obtain ⟨H,i,S,q,alive,hinv⟩ := hj.live
    obtain ⟨update,response,y,hrun,-,hconfirms,-⟩ := hinv.receive hT hP isServer hcoming.messages
    have hhandshake : (d.side isServer).provider.handshake = x.handshakeOf P isServer :=
      hj.near.handshake
    rw [hJ,← hhandshake,hclock] at hrun
    change Exec.Ensures _ _
    rw [hrun]
    exact fun r hr => hs.answer hT hconfirms hslot hr

lemma Lockstep.reading (h : d.Lockstep T σ P) (hs : d.Spare) (hroom : d.Room (isServer,op))
    (hop : op.isReading = true) :
    (d.step (isServer,op)).Lockstep T σ P ∧ (d.step (isServer,op)).Spare := by
  obtain ⟨-,h',got,done,put,he⟩ := h.exchange hC hT hP hJ hroom
  exact ⟨h',he.spare hC hT h h' hop hs⟩

lemma Lockstep.readRoom (h : d.Lockstep T σ P) (hs : d.Spare)
    (hslot : (d.side isServer).unprocessed = none) (turns : ℕ) :
    EncryptionProvider.ReadRoom isServer turns d.clock (d.side isServer).provider := by
  induction turns generalizing d with
  | zero => trivial
  | succ turns ih =>
    change Exec.Ensures _ _
    rcases hread : (EncryptionProvider.readMessage V).run (d.side isServer).provider with ⟨r,p⟩
    cases r with
    | error e => trivial
    | ok message =>
      intro m hm
      obtain rfl : message = some m := hm
      obtain ⟨h₁,hs₁⟩ := h.reading hC hT hP hJ hs (show d.Room (isServer,.readMessage) from hslot) rfl
      rw [step_readMessage hread] at h₁ hs₁
      have hm₁ : ((d.set isServer ⟨p,some m⟩ d.clock).side isServer).unprocessed = some m := by
        rw [set_side]
      have hprocess := h₁.processRoom hT hP hJ hs₁ hm₁
      obtain ⟨h₂,hs₂⟩ := h₁.reading hC hT hP hJ hs₁
        (show Duplex.Room (isServer,.processReadMessage) _ from
          fun _ hm' => h₁.processRoom hT hP hJ hs₁ hm') rfl
      rw [set_side,set_clock] at hprocess
      refine ⟨hprocess,?_⟩
      rcases hrun : (EncryptionProvider.processReadMessage V isServer m d.clock).run p with ⟨q,p'⟩
      cases q with
      | error e => trivial
      | ok o =>
        intro _
        have hrun' := hrun
        rw [show p = ((d.set isServer ⟨p,some m⟩ d.clock).side isServer).provider by rw [set_side]]
          at hrun'
        rw [step_processReadMessage hm₁ hrun'] at h₂ hs₂
        have hrest := ih h₂ hs₂ (by rw [set_side])
        rwa [set_side,set_clock] at hrest

/-- With spare sequence numbers, reading never lacks room. -/
theorem Lockstep.room (h : d.Lockstep T σ P) (hs : d.Spare) {e : Bool × Operation V}
    (he : d.MayRead e) : d.Room e := by
  obtain ⟨isServer,op⟩ := e
  cases op with
  | sendBytes bytes now => exact False.elim he
  | readMessage => exact he
  | processReadMessage => exact fun m hm => h.processRoom hT hP hJ hs hm
  | readBytes turns => exact ⟨he,h.readRoom hC hT hP hJ hs he turns⟩
  | arrive n => trivial

/-- What reading makes smaller: the work to be done, or else the bytes that have not arrived. -/
def size (d : Duplex V) : ℕ × ℕ :=
  (d.work,(d.side false).channels.outgoing.length+(d.side true).channels.outgoing.length)

omit hC hT hP hJ in
lemma arrive_size {n : ℕ} (hne : (d.arrive isServer n).side ≠ d.side) :
    (d.arrive isServer n).size.2 < d.size.2 := by
  have hsplit := congrArg List.length
    (List.take_append_drop n (d.side isServer).channels.outgoing)
  rw [List.length_append] at hsplit
  have hnear := congrArg (fun e => e.channels.outgoing.length) (d.arrive_near isServer n)
  have hfar := congrArg (fun e => e.channels.outgoing.length) (d.arrive_far isServer n)
  have htake : (d.side isServer).channels.outgoing.take n ≠ [] := by
    intro hnil
    have hdrop := List.take_append_drop n (d.side isServer).channels.outgoing
    rw [hnil,List.nil_append] at hdrop
    refine hne (funext fun b => ?_)
    by_cases hb : b = isServer
    · rw [hb,arrive_near,hdrop]
    · rw [Bool.eq_not_of_ne hb,arrive_far,hnil]
      simp [ProtectedChannels.arrive]
  have hpos := List.length_pos_of_ne_nil htake
  simp only [ProtectedChannels.arrive] at hnear hfar
  simp only [size]
  cases isServer <;> simp only [Bool.not_false,Bool.not_true] at hfar <;> omega

lemma Lockstep.size_lt (h : d.Lockstep T σ P) (hs : d.Spare) {e : Bool × Operation V}
    (he : d.MayRead e) (hne : (d.step e).side ≠ d.side) :
    Prod.Lex (· < ·) (· < ·) (d.step e).size d.size := by
  obtain ⟨-,h',got,done,put,hexchange⟩ := h.exchange hC hT hP hJ (h.room hC hT hP hJ hs he)
  have hwork := hexchange.work_le hC hT h h' he.isReading
  by_cases hlt : (d.step e).work < d.work
  · exact Prod.Lex.left _ _ hlt
  · change (d.step e).work+got.length+done.length ≤ d.work at hwork
    have hgot : got = [] := List.length_eq_zero_iff.mp (by omega)
    have hdone : done = [] := List.length_eq_zero_iff.mp (by omega)
    have hsame : (d.step e).work = d.work := by omega
    cases hop : e.2.isArrival with
    | false => exact absurd (hexchange.idle he.isReading hop hgot hdone) hne
    | true =>
      obtain ⟨isServer,op⟩ := e
      cases op with
      | arrive n => exact Prod.lex_def.mpr (Or.inr ⟨hsame,arrive_size hne⟩)
      | _ => simp [Operation.isArrival] at hop

omit hT hP hJ in
/-- Where reading changes nothing, there is nothing left to read. -/
theorem Lockstep.drained (h : d.Lockstep T σ P)
    (hsettled : Run.Settled step MayRead Duplex.side d) : d.Drained := by
  have hout (b : Bool) : (d.side b).channels.outgoing = [] := by
    have hsame := congrFun (hsettled (b,.arrive (d.side b).channels.outgoing.length) trivial) b
    have harrive := d.arrive_near b (d.side b).channels.outgoing.length
    rw [List.drop_length] at harrive
    exact congrArg (fun e => e.channels.outgoing) (hsame.symm.trans harrive)
  have hslot (b : Bool) : (d.side b).unprocessed = none := by
    cases hm : (d.side b).unprocessed with
    | none => rfl
    | some m =>
      have hsame := congrFun (hsettled (b,.processReadMessage) trivial) b
      rw [step_processReadMessage hm rfl,set_side] at hsame
      rw [← hsame] at hm
      simp at hm
  refine ⟨hout,fun b => ?_,hslot⟩
  obtain ⟨x,-,hj⟩ := h.joined b
  obtain ⟨pending,hcoming⟩ := hj.coming
  rcases hj.read hC (hslot b) with hrun | ⟨m,s,hrun,-,-⟩
  · rw [EncryptionProvider.readMessage,EncryptionProvider.onChannels,Exec.zoom_eq_ok] at hrun
    obtain ⟨t,hnext,-⟩ := hrun
    exact hcoming.link.incoming_waits hC (hout _) (ProtectedChannels.nextPlaintext_waits hnext)
  · have hsame := congrFun (hsettled (b,.readMessage) (hslot b)) b
    rw [step_readMessage hrun,set_side] at hsame
    have hm := hslot b
    rw [← hsame] at hm
    simp at hm

lemma Lockstep.readingRun (h : d.Lockstep T σ P) (hs : d.Spare) (hrun : Run step MayRead d d') :
    (d'.Lockstep T σ P ∧ d'.Spare) ∧ Runs d d' := by
  induction hrun with
  | refl => exact ⟨⟨h,hs⟩,.refl d⟩
  | tail e _ he ih =>
    obtain ⟨⟨h',hs'⟩,hruns⟩ := ih
    have hroom := h'.room hC hT hP hJ hs' he
    exact ⟨h'.reading hC hT hP hJ hs' hroom he.isReading,.tail e hruns hroom⟩

lemma refines_reading :
    Run.Refines step MayRead visible (fun d : Duplex V => d.Lockstep T σ P ∧ d.Spare)
      QueueAction.act inTransit where
  keeps h he := h.1.reading hC hT hP hJ h.2 (h.1.room hC hT hP hJ h.2 he) he.isReading
  simulates h he := (refines_queues hC hT hP hJ).simulates h.1 (h.1.room hC hT hP hJ h.2 he)

lemma Lockstep.reading_ends (h : d.Lockstep T σ P) (hs : d.Spare) :
    Acc (Run.Changes step MayRead side) d := by
  have hkeeps {e : Bool × Operation V} {d : Duplex V} (hd : d.Lockstep T σ P ∧ d.Spare)
      (he : d.MayRead e) : (d.step e).Lockstep T σ P ∧ (d.step e).Spare :=
    (refines_reading hC hT hP hJ).keeps hd he
  exact Run.acc_changes (I := fun d => d.Lockstep T σ P ∧ d.Spare)
    (WellFounded.prod_lex wellFounded_lt wellFounded_lt) size hkeeps
    (fun hd he hne => hd.1.size_lt hC hT hP hJ hd.2 he hne) ⟨h,hs⟩

end

lemma puts_reading {z z' : Duplex V × List (QueueAction Bool Bytes)}
    (hrun : Run (Run.record step visible) (fun e z => MayRead e z.1) z z') (b : Bool) :
    QueueAction.puts b z'.2 = QueueAction.puts b z.2 := by
  induction hrun with
  | refl => rfl
  | @tail y e _ he ih =>
    have hvisible : QueueAction.puts b (visible e y.1) = [] := by
      obtain ⟨isServer,op⟩ := e
      cases op with
      | sendBytes bytes now => exact False.elim he
      | _ => simp [visible,accepted,QueueAction.puts]
    rw [← ih]
    simp only [Run.record,QueueAction.puts,List.filterMap_append] at hvisible ⊢
    rw [hvisible,List.append_nil]

end Duplex

namespace Peers
variable {V : Environment M} {T : TwoParty M} {Q : Peers V}

/-- Two honest providers after any run: reading alone, in any order and with any pieces of the
streams arriving at any time, always has room and comes to an end, and where it ends the streams are
drained, both sides are in step, and the payloads that were on their way have been returned in their
order. -/
theorem reading_settles (hC : V.crypto.Lawful) (hT : T.Lawful) (hJ : V.serde.Lawful) {X : X25519}
    (hX : X.Lawful) {opening : Opening X} {d₀ d : Duplex V} (h₀ : Q.connect opening = some d₀)
    (hrun : Duplex.Runs d₀ d) (hs : d.Spare) :
    (∀ d', Run Duplex.step Duplex.MayRead d d' → Duplex.Runs d d') ∧
    Acc (Run.Changes Duplex.step Duplex.MayRead Duplex.side) d ∧
    (∀ z, Run (Run.record Duplex.step Duplex.visible) (fun e z => Duplex.MayRead e z.1) (d,[]) z →
      Run.Settled Duplex.step Duplex.MayRead Duplex.side z.1 →
      z.1.Drained ∧ z.1.InStep Q.groupId ∧ ∀ b, QueueAction.takes b z.2 = d.inTransit b) ∧
    ∃ d', Run Duplex.step Duplex.MayRead d d' ∧ d'.Drained ∧ d'.InStep Q.groupId := by
  obtain ⟨σ,hid,hP,hstep₀⟩ := connect_lockstep hC hT hJ hX h₀
  have hstep := hstep₀.run hC hT hP rfl hrun
  have hrefines := Duplex.refines_reading hC hT hP (rfl : Q.parties.serde = V.serde)
  have hreading {d' : Duplex V} (h : Run Duplex.step Duplex.MayRead d d') :=
    hstep.readingRun hC hT hP rfl hs h
  have hends := hstep.reading_ends hC hT hP rfl hs
  have hsettled {d' : Duplex V} (h : d'.Lockstep T σ Q.parties)
      (hset : Run.Settled Duplex.step Duplex.MayRead Duplex.side d') :
      d'.Drained ∧ d'.InStep Q.groupId := by
    have hd := h.drained hC hset
    exact ⟨hd,hid ▸ h.inStep hT hd⟩
  refine ⟨fun d' h => (hreading h).2,hends,fun z hz hset => ?_,?_⟩
  · obtain ⟨⟨h,-⟩,hact⟩ := hrefines.run (t := d.inTransit) hz ⟨hstep,hs⟩ rfl
    obtain ⟨hd,hinStep⟩ := hsettled h hset
    refine ⟨hd,hinStep,fun b => ?_⟩
    have hbalance := QueueAction.balance hact b
    have hnothing : z.1.inTransit b = [] := congrArg payloads (h.inFlight_drained hC hd b)
    rw [Duplex.puts_reading hz,hnothing,List.append_nil] at hbalance
    exact hbalance.symm.trans (List.append_nil _)
  · obtain ⟨d',h,hset⟩ := Run.exists_settled hends
    exact ⟨d',h,hsettled (hreading h).1.1 hset⟩

end Peers

namespace Sample

/-- The updates of both sides are on their way. -/
def crossed : Duplex environment := (operations.take 2).foldl (fun d e => d.step e) duplex

end Sample

theorem Peers.reading_settles_sample :
    Sample.crossed.inTransit false = [[7]] ∧ Sample.crossed.inTransit true = [[8]] ∧
    ∃ d', Run Duplex.step Duplex.MayRead Sample.crossed d' ∧ d'.Drained ∧ d'.InStep [9] := by
  have hrun : Duplex.Runs Sample.duplex Sample.crossed := Run.ofList (by decide +kernel)
  have hspare : Sample.crossed.Spare := by
    intro b
    cases b <;> decide +kernel
  exact ⟨by decide +kernel,by decide +kernel,(Peers.reading_settles (Q := Sample.peers)
    sampleCrypto_lawful sampleTwoParty_lawful sampleSerde_lawful Sample.x25519_lawful
    (Option.some_get Sample.connected).symm hrun hspare).2.2.2⟩

end MlsTls.EncryptionProvider
