import MlsTls.EncryptionProvider.Settling
import MlsTls.EncryptionProvider.ReadInterfaces

/-! The end of a stream. The peer shuts down its writer, or the connection breaks off, and what has
arrived is all there will be. The reader still gives out every complete frame; then it says whether
bytes are left over, and that is all it can say about what was lost. It answers signaling messages on
the way, and on a connection that is cut its own writer may fail first. -/
set_option linter.dupNamespace false

namespace MlsTls.TlsAead.ProtectedChannels
open Lib

/-- `StreamExt::next` on a stream that has ended. Where the frame reader waited before, it decodes
for the last time: an empty buffer is the end of the stream, and bytes left over are an error. -/
def nextAtEnd (C : Crypto) : Call (Option TlsPacketIn) := do
  match ← next C with
  | some packet => pure (some packet)
  | none => do
    let s ← Exec.get
    if s.incoming = [] then pure none else Exec.throw .ioError

/-- `Sink::close` hands over what is buffered before it closes the writer. -/
def close : Call Unit := tryEmptyBuffer

end MlsTls.TlsAead.ProtectedChannels

namespace MlsTls.EncryptionProvider
open Lib TlsAead MlsHandshake PreHandshake
variable {M : OpenMls}

namespace ProtectedChannels
variable {E : Type}

def nextPlaintextAtEnd (C : Crypto) : ProviderCall E (Option InnerPlaintext) := do
  match ← Exec.mapError .tlsTransportError (ProtectedChannels.nextAtEnd C) with
  | none => pure none
  | some packet => do
    let (plaintext,_) ← Exec.orThrow .codecError (InnerPlaintext.wire.dec packet.data)
    pure (some plaintext)

end ProtectedChannels

namespace EncryptionProvider
variable (V : Environment M) (isServer : Bool)

def readMessageAtEnd : Call V (Option InnerPlaintext) :=
  onChannels (ProtectedChannels.nextPlaintextAtEnd V.crypto)

/-- Send the answer, if any, and then switch keys, if asked to. The bytes of the answer are written
with `send(..).await?`, which fails where the writer does. -/
def answerAtEnd (writable : Bool) (secretUpdate : Option SecretUpdate) (response : Option Bytes) :
    Call V Unit := do
  match response with
  | none => pure ()
  | some message => do
    onChannels (ProtectedChannels.sendPlaintext V.crypto (.signaling message))
    if writable then pure () else Exec.throw (.tlsTransportError .ioError)
  match secretUpdate with
  | none => pure ()
  | some update => onChannels (ProtectedChannels.updateCipher V.crypto isServer update)

def processMessageAtEnd (writable : Bool) (message : InnerPlaintext) (seed : ℕ) :
    Call V (Option Bytes) :=
  match message with
  | .application b => pure (some b)
  | .signaling signalingMessage => do
    let (secretUpdate,response) ← Exec.mapError .handshakeError
      (onHandshake (MlsHandshake.processSignalingMessage V.serde signalingMessage seed))
    answerAtEnd V isServer writable secretUpdate response
    pure none

/-- The loop of `read_bytes` on a stream that has ended. The writer may have failed by any of its
turns. -/
def readBytesInnerAtEnd (writable : ℕ → Bool) : ℕ → ℕ → Call V (Option Bytes)
  | 0,_ => pure none
  | turns+1,seed => do
    match ← readMessageAtEnd V with
    | none => pure none
    | some message => do
      match ← processMessageAtEnd V isServer (writable seed) message seed with
      | some b => pure (some b)
      | none => readBytesInnerAtEnd writable turns (seed+1)

/-- Servers are not supposed to terminate connections, so a client takes the end for an error. -/
def readBytesAtEnd (writable : ℕ → Bool) (turns seed : ℕ) : Call V (Option Bytes) := do
  match ← readBytesInnerAtEnd V isServer writable turns seed with
  | some b => pure (some b)
  | none =>
    if isServer then pure none
    else Exec.throw (.unexpectedMessage "Expected IpPacket, server terminated connection")

def shutdown : Call V Unit :=
  onChannels (Exec.mapError .tlsTransportError ProtectedChannels.close)

end EncryptionProvider

/-- The last result of `read_bytes` when the bytes `rest` are left over. -/
def lastResult {E : Type} (isServer : Bool) (rest : Bytes) :
    Outcome (EncryptionProviderError E) (Option Bytes) :=
  if rest ≠ [] then .error (.error (.tlsTransportError .ioError))
  else if isServer then .ok none
  else .error (.error (.unexpectedMessage "Expected IpPacket, server terminated connection"))

/-- What the end of the stream makes of a result of reading, which may be to wait. -/
def atEnd {V : Environment M} (r : Outcome (EncryptionProviderError M.Error) (Option Bytes) ×
    EncryptionProvider M V.chrono) :
    Outcome (EncryptionProviderError M.Error) (Option Bytes) × EncryptionProvider M V.chrono :=
  match r with
  | (.ok none,p) =>
    (if p.channels.incoming = [] then .ok none else .error (.error (.tlsTransportError .ioError)),p)
  | (r,p) => (r,p)

namespace ProtectedChannels
variable {C : Crypto} {E : Type} {s s' : ProtectedChannels}

lemma nextPlaintextAtEnd_eq (h : ∀ s', (nextPlaintext C : ProviderCall E _).run s ≠ (.ok none,s')) :
    (nextPlaintextAtEnd C : ProviderCall E _).run s = (nextPlaintext C).run s := by
  simp only [nextPlaintextAtEnd,nextPlaintext,ProtectedChannels.nextAtEnd,Exec.bind_run,
    Exec.mapError] at h ⊢
  rcases hn : (ProtectedChannels.next C).run s with ⟨(e | _) | _ | packet,t⟩
  · rfl
  · rfl
  · simp [hn] at h
  · rfl

lemma nextPlaintext_still (h : (nextPlaintext C : ProviderCall E _).run s = (.ok none,s')) :
    s' = s ∧ TlsFrameCodec.decode s.incoming = none := by
  have hd := nextPlaintext_waits h
  simp only [nextPlaintext,Exec.bind_run,Exec.mapError,ProtectedChannels.next_pending C hd,
    Exec.pure_run,Prod.mk.injEq,true_and] at h
  exact ⟨h.symm,hd⟩

lemma nextPlaintextAtEnd_waits (h : (nextPlaintext C : ProviderCall E _).run s = (.ok none,s')) :
    (nextPlaintextAtEnd C : ProviderCall E _).run s = (if s.incoming = [] then .ok none
      else .error (.error (.tlsTransportError .ioError)),s) := by
  obtain ⟨-,hd⟩ := nextPlaintext_still h
  simp only [nextPlaintextAtEnd,ProtectedChannels.nextAtEnd,Exec.bind_run,Exec.mapError,
    ProtectedChannels.next_pending C hd,Exec.get_run]
  split_ifs <;> rfl

end ProtectedChannels

namespace EncryptionProvider
variable {V : Environment M} {isServer : Bool}

lemma readMessageAtEnd_eq {p p' : EncryptionProvider M V.chrono}
    {r : Outcome (EncryptionProviderError M.Error) (Option InnerPlaintext)}
    (h : (readMessage V).run p = (r,p')) (hr : r ≠ .ok none) :
    (readMessageAtEnd V).run p = (r,p') := by
  rw [← h,readMessageAtEnd,readMessage,onChannels,onChannels,Exec.zoom_run,Exec.zoom_run,
    ProtectedChannels.nextPlaintextAtEnd_eq]
  intro s hs
  exact hr ((congrArg Prod.fst h).symm.trans (congrArg Prod.fst hs))

lemma readMessageAtEnd_waits {p p' : EncryptionProvider M V.chrono}
    (h : (readMessage V).run p = (.ok none,p')) :
    (readMessageAtEnd V).run p = (if p.channels.incoming = [] then .ok none
      else .error (.error (.tlsTransportError .ioError)),p) ∧
    p' = p ∧ TlsFrameCodec.decode p.channels.incoming = none := by
  rw [readMessage,onChannels] at h
  obtain ⟨s,hs,rfl⟩ := Exec.zoom_eq_ok.mp h
  obtain ⟨rfl,hd⟩ := ProtectedChannels.nextPlaintext_still hs
  refine ⟨?_,rfl,hd⟩
  rw [readMessageAtEnd,onChannels,Exec.zoom_run,ProtectedChannels.nextPlaintextAtEnd_waits hs]

lemma processMessageAtEnd_true (message : InnerPlaintext) (seed : ℕ) :
    processMessageAtEnd V isServer true message seed = processReadMessage V isServer message seed := by
  have hanswer (u : Option SecretUpdate) (r : Option Bytes) :
      answerAtEnd V isServer true u r = answer V isServer u r := by
    rcases r with _ | response
    · rfl
    · cases u <;> simp only [answerAtEnd,answer,if_true]
  cases message with
  | application b => rfl
  | signaling m => simp only [processMessageAtEnd,processReadMessage,hanswer]

lemma processMessageAtEnd_orFails (writable : Bool) (message : InnerPlaintext) (seed : ℕ) :
    Exec.OrFails (.tlsTransportError .ioError) (processMessageAtEnd V isServer writable message seed)
      (processMessageAtEnd V isServer true message seed) := by
  cases message with
  | application b => exact .refl _
  | signaling m =>
    refine (Exec.OrFails.refl _).bind fun r => Exec.OrFails.bind ?_ fun _ => .refl _
    obtain ⟨u,_ | response⟩ := r
    · exact .refl _
    · refine (Exec.OrFails.refl _).bind fun _ => ?_
      cases writable with
      | true => exact .refl _
      | false => exact fun _ => Or.inr rfl

lemma readBytesAtEnd_orFails (writable : ℕ → Bool) (turns seed : ℕ) :
    Exec.OrFails (.tlsTransportError .ioError) (readBytesAtEnd V isServer writable turns seed)
      (readBytesAtEnd V isServer (fun _ => true) turns seed) := by
  refine Exec.OrFails.bind ?_ fun _ => .refl _
  induction turns generalizing seed with
  | zero => exact .refl _
  | succ turns ih =>
    refine (Exec.OrFails.refl _).bind fun message => ?_
    cases message with
    | none => exact .refl _
    | some message =>
      refine (processMessageAtEnd_orFails (writable seed) message seed).bind fun b => ?_
      cases b with
      | some b => exact .refl _
      | none => exact ih (seed+1)

lemma readBytesInnerAtEnd_run {turns seed : ℕ} {p p' : EncryptionProvider M V.chrono}
    {r : Outcome (EncryptionProviderError M.Error) (Option Bytes)}
    (hturns : p.channels.incoming.length < turns)
    (hrun : (readBytesInner V isServer turns seed).run p = (r,p')) :
    (readBytesInnerAtEnd V isServer (fun _ => true) turns seed).run p = atEnd (r,p') ∧
      (r = .ok none → TlsFrameCodec.decode p'.channels.incoming = none) := by
  -- the call on the stream that goes on has as many turns, and where it waits no complete frame is
  -- left
  induction turns generalizing seed p with
  | zero => omega
  | succ turns ih =>
    rw [readBytesInner_succ,Exec.bind_run] at hrun
    rw [readBytesInnerAtEnd,Exec.bind_run]
    rcases hread : (readMessage V).run p with ⟨f | _ | m,p₁⟩
    · rw [hread] at hrun
      obtain ⟨rfl,rfl⟩ := Prod.mk.inj hrun
      rw [readMessageAtEnd_eq hread (by simp)]
      exact ⟨rfl,by simp⟩
    · obtain ⟨hend,rfl,hd⟩ := readMessageAtEnd_waits hread
      rw [hread] at hrun
      obtain ⟨rfl,rfl⟩ := Prod.mk.inj hrun
      rw [hend]
      refine ⟨?_,fun _ => hd⟩
      by_cases hnil : p₁.channels.incoming = [] <;> simp [hnil,atEnd]
    · rw [readMessageAtEnd_eq hread (by simp)]
      simp only [hread,processMessageAtEnd_true,Exec.bind_run] at hrun ⊢
      rcases hprocess : (processReadMessage V isServer m seed).run p₁ with ⟨f | _ | b,p₂⟩
      · rw [hprocess] at hrun
        obtain ⟨rfl,rfl⟩ := Prod.mk.inj hrun
        exact ⟨rfl,by simp⟩
      · -- one frame less has arrived, so that there is a turn left
        have hshrinks := readMessage_shrinks hread
        have hsame : p₂.channels.incoming = p₁.channels.incoming :=
          (processReadMessage_unread m seed).state rfl hprocess
        rw [hprocess] at hrun
        exact ih (by rw [hsame]; omega) hrun
      · rw [hprocess] at hrun
        obtain ⟨rfl,rfl⟩ := Prod.mk.inj hrun
        exact ⟨rfl,by simp⟩

lemma readBytesAtEnd_run {turns seed : ℕ} {p p' : EncryptionProvider M V.chrono} {r : Option Bytes}
    (hturns : p.channels.incoming.length < turns)
    (h : (readBytesInner V isServer turns seed).run p = (.ok r,p')) :
    (readBytesAtEnd V isServer (fun _ => true) turns seed).run p =
        (r.elim (lastResult isServer p'.channels.incoming) fun b => .ok (some b),p') ∧
      (r = none → TlsFrameCodec.decode p'.channels.incoming = none) := by
  obtain ⟨hend,hwait⟩ := readBytesInnerAtEnd_run hturns h
  rw [readBytesAtEnd,Exec.bind_run,hend]
  cases r with
  | some b => exact ⟨rfl,by simp⟩
  | none =>
    refine ⟨?_,fun _ => hwait rfl⟩
    by_cases hnil : p'.channels.incoming = []
    · cases isServer <;> simp [atEnd,lastResult,hnil]
    · simp [atEnd,lastResult,hnil]

end EncryptionProvider

/-- The frame that a record arrives in. -/
def RecordUse.frame (u : RecordUse) : Bytes := TlsFrameCodec.frame u.ciphertext

def RecordUse.packet (u : RecordUse) : TlsPacketIn :=
  ⟨TlsFrameCodec.header u.ciphertext.length,u.ciphertext⟩

lemma fits_of_mem {C : Crypto} (hC : C.Lawful) {marked : InnerPlaintext → Bool} {k k' : Bytes × Bytes}
    {n : ℕ} {xs : List Item} (h : Flight (Under C) (fun x => marked x.1) k k' n xs) {x : Item}
    (hx : x ∈ xs) : x.2.record.ciphertext.length < 2^16 := by
  induction xs generalizing k' n with
  | nil => simp at hx
  | cons y ys ih =>
    rcases List.mem_cons.mp hx with rfl | hx
    · exact Under.fits hC h.1
    · exact ih h.2 hx

lemma Link.frames_read {C : Crypto} (hC : C.Lawful) {marked : InnerPlaintext → Bool}
    {out out' : Outbound} {inb inb' : Inbound} {pending pending' : List InnerPlaintext}
    (h : Link C marked out inb none pending) (h' : Link C marked out' inb' none pending')
    (hbytes : out'.bytes = out.bytes) (hlog : out'.log = out.log) {us : List RecordUse}
    (hus : inb'.log = inb.log++us) :
    inb.bytes = (us.map RecordUse.frame).flatten++inb'.bytes ∧
      (∀ u ∈ us, u.ciphertext.length < 2^16) ∧ pending.length = us.length+pending'.length := by
  -- a reader that has gone on from `inb` to `inb'` while its writer did nothing has taken the first
  -- frames, one for each value
  obtain ⟨xs,rfl,hb,hl,-,hf⟩ := h.items
  obtain ⟨xs',rfl,hb',hl',-⟩ := h'.items
  have hframes (ys : List Item) : (ys.map fun y => y.2.record.bytes) =
      (ys.map fun y => y.2.use).map RecordUse.frame := by
    rw [List.map_map]
    rfl
  rw [hlog,hus,hl,List.append_assoc] at hl'
  have huses : xs.map (fun x => x.2.use) = us++xs'.map fun x => x.2.use :=
    List.append_cancel_left hl'
  rw [hframes,huses,List.map_append,List.flatten_append] at hb
  rw [hbytes,hframes] at hb'
  refine ⟨?_,?_,?_⟩
  · rw [← hb',← List.append_assoc] at hb
    exact List.append_cancel_right hb
  · intro u hu
    have hmem : u ∈ xs.map fun x => x.2.use := huses ▸ List.mem_append_left _ hu
    obtain ⟨x,hx,rfl⟩ := List.mem_map.mp hmem
    exact fits_of_mem hC hf hx
  · have hlength := congrArg List.length huses
    simpa using hlength

namespace Duplex
variable {V : Environment M}

/-- The complete frames that have arrived at a side, and the bytes after them. -/
def arrived (d : Duplex V) (isServer : Bool) : List TlsPacketIn × Bytes :=
  drain TlsFrameCodec.decode (d.side isServer).channels.incoming

/-- The results of `n` calls of `read_bytes` on a side whose stream has ended, and whose writer still
accepts bytes at these times. -/
def readToEnd (writable : ℕ → Bool) (isServer : Bool) :
    ℕ → Duplex V → List (Outcome (EncryptionProviderError M.Error) (Option Bytes))
  | 0,_ => []
  | n+1,d =>
    let e := d.side isServer
    let turns := e.channels.incoming.length+1
    let r := (EncryptionProvider.readBytesAtEnd V isServer writable turns d.clock).run e.provider
    r.1::readToEnd writable isServer n (d.set isServer ⟨r.2,e.unprocessed⟩ (d.clock+turns))

/-- A call of `read_bytes` with a turn for everything that has arrived. -/
def readAll (isServer : Bool) (d : Duplex V) : Operation V :=
  .readBytes ((d.side isServer).channels.incoming.length+1)

variable {T : TwoParty M} {σ : T.Session} {P : Parties M} {d d' : Duplex V} {isServer : Bool}
  {op : Operation V} {got done put : List InnerPlaintext}

lemma readToEnd_or_fails (writable : ℕ → Bool) (isServer : Bool) (n : ℕ) (d : Duplex V) :
    readToEnd writable isServer n d = readToEnd (fun _ => true) isServer n d ∨
      ∃ k < n, (readToEnd writable isServer n d).take (k+1) =
        (readToEnd (fun _ => true) isServer n d).take k++
          [.error (.error (.tlsTransportError .ioError))] := by
  induction n generalizing d with
  | zero => exact Or.inl rfl
  | succ n ih =>
    have hfails : Exec.OrFails _ (EncryptionProvider.readBytesAtEnd V isServer writable _ _) _ :=
      EncryptionProvider.readBytesAtEnd_orFails writable
        ((d.side isServer).channels.incoming.length+1) d.clock
    rcases hfails (d.side isServer).provider with h | h
    · simp only [readToEnd,h,List.cons.injEq,true_and,List.take_succ_cons]
      rcases ih _ with hsame | ⟨k,hk,htake⟩
      · exact Or.inl hsame
      · refine Or.inr ⟨k+1,by omega,?_⟩
        rw [List.take_succ_cons,List.cons_append,htake]
    · refine Or.inr ⟨0,by omega,?_⟩
      simp only [readToEnd,h,List.take_succ_cons,List.take_zero,List.nil_append]

lemma readToEnd_succ {n : ℕ} {r : Option Bytes}
    (hr : (d.exec isServer (d.readAll isServer)).1 = .ok r)
    (hd' : d.step (isServer,d.readAll isServer) = d') :
    readToEnd (fun _ => true) isServer (n+1) d =
      r.elim (lastResult isServer (d'.side isServer).channels.incoming)
        (fun b => .ok (some b))::readToEnd (fun _ => true) isServer n d' ∧
    (r = none → TlsFrameCodec.decode (d'.side isServer).channels.incoming = none) := by
  subst hd'
  simp only [step,readAll,Duplex.exec,set_side] at hr ⊢
  rcases hrun : (EncryptionProvider.readBytesInner V isServer
    ((d.side isServer).channels.incoming.length+1) d.clock).run (d.side isServer).provider with ⟨q,p⟩
  rw [hrun] at hr
  obtain rfl : q = .ok r := hr
  obtain ⟨hend,hwait⟩ := EncryptionProvider.readBytesAtEnd_run (Nat.lt_succ_self _) hrun
  refine ⟨?_,hwait⟩
  rw [readToEnd,hend]

lemma Lockstep.coming (hC : V.crypto.Lawful) (h : d.Lockstep T σ P)
    (hslot : (d.side isServer).unprocessed = none) :
    Link V.crypto (announcing M !isServer) (outbound (d.side !isServer).channels)
      (inbound (d.side isServer).channels) none (d.unread !isServer) := by
  obtain ⟨x,-,hj⟩ := h.joined isServer
  obtain ⟨pending,hlink,-⟩ := hj.coming
  rw [hslot] at hlink
  have hp : pending = d.unread !isServer := by
    rw [unread,Bool.not_not]
    exact (hlink.pending_eq hC).1
  exact hp ▸ hlink

lemma Exchanged.frames_read (hC : V.crypto.Lawful) (he : Exchanged isServer op d d' got done put)
    (h : d.Lockstep T σ P) (h' : d'.Lockstep T σ P) (hslot : (d.side isServer).unprocessed = none)
    (hslot' : (d'.side isServer).unprocessed = none)
    (hfar : (d'.side !isServer).channels = (d.side !isServer).channels) :
    ∃ packets : List TlsPacketIn, packets.length = got.length ∧
      d.arrived isServer = (packets++(d'.arrived isServer).1,(d'.arrived isServer).2) := by
  obtain ⟨us,hus,-⟩ := he.near.received
  obtain ⟨hbytes,hfits,hlength⟩ := (h.coming hC hslot).frames_read hC (h'.coming hC hslot')
    (congrArg (fun c => (outbound c).bytes) hfar) (congrArg (fun c => (outbound c).log) hfar) hus
  refine ⟨us.map RecordUse.packet,?_,?_⟩
  · rw [he.unread_coming hC h h',List.length_append] at hlength
    rw [List.length_map]
    omega
  · have hdrain := drain_encoded TlsFrameCodec.decode_stable RecordUse.frame RecordUse.packet us
      (fun u hu r => TlsFrameCodec.decode_frame (hfits u hu) r) (d'.side isServer).channels.incoming
    rw [arrived,show (d.side isServer).channels.incoming = _ from hbytes]
    exact hdrain

/-- The payloads among the values that have arrived as complete frames at a side. -/
def readable (d : Duplex V) (isServer : Bool) : List Bytes :=
  payloads ((d.inFlight !isServer).take (d.arrived isServer).1.length)

/-- The payloads that have not. -/
def lost (d : Duplex V) (isServer : Bool) : List Bytes :=
  payloads ((d.inFlight !isServer).drop (d.arrived isServer).1.length)

lemma inTransit_eq (d : Duplex V) (isServer : Bool) :
    d.inTransit (!isServer) = d.readable isServer++d.lost isServer := by
  rw [readable,lost,← payloads_append,List.take_append_drop,inTransit]

lemma arrived_of_waits (h : TlsFrameCodec.decode (d.side isServer).channels.incoming = none) :
    (d.arrived isServer).2 = (d.side isServer).channels.incoming ∧ d.readable isServer = [] := by
  rw [readable,arrived,drain_none h]
  exact ⟨rfl,rfl⟩

section
variable (hC : V.crypto.Lawful) (hT : T.Lawful) (hP : T.Honest σ P) (hJ : P.serde = V.serde)
include hC hT hP hJ

lemma Lockstep.readAll (h : d.Lockstep T σ P) (hs : d.Spare)
    (hslot : (d.side isServer).unprocessed = none)
    (hd' : d.step (isServer,d.readAll isServer) = d') :
    (d'.Lockstep T σ P ∧ d'.Spare ∧ (d'.side isServer).unprocessed = none) ∧
      ∃ r, (d.exec isServer (d.readAll isServer)).1 = .ok r ∧
        d.readable isServer = r.toList++d'.readable isServer ∧
        (d.arrived isServer).2 = (d'.arrived isServer).2 := by
  have hroom := h.room hC hT hP hJ hs (e := (isServer,d.readAll isServer)) hslot
  obtain ⟨hreturns,h',got,done,put,he⟩ := h.exchange hC hT hP hJ hroom
  change d.step (isServer,d.readAll isServer) = d' at hd'
  change (d.step (isServer,d.readAll isServer)).Lockstep T σ P at h'
  change Exchanged isServer (d.readAll isServer) d (d.step (isServer,d.readAll isServer)) got done put
    at he
  have hs' := he.spare hC hT h h' rfl hs
  have hslot' : ((d.step (isServer,d.readAll isServer)).side isServer).unprocessed = none := by
    rw [step,Duplex.readAll,Duplex.exec,set_side]
    exact hslot
  have hfar : ((d.step (isServer,d.readAll isServer)).side !isServer).channels =
      (d.side !isServer).channels := by
    rw [step,Duplex.readAll,Duplex.exec,set_side_not]
  rw [hd'] at h' he hs' hslot' hfar
  refine ⟨⟨h',hs',hslot'⟩,?_⟩
  obtain ⟨r,hr⟩ : ∃ r, (d.exec isServer (d.readAll isServer)).1 = .ok r := by
    rcases hreturns with hok | ⟨-,_,_,hop,-⟩
    · exact hok
    · simp [Duplex.readAll] at hop
  have hdone : got = done := by
    have hprocessed := he.processed
    rwa [hslot,hslot',Option.toList_none,List.nil_append,List.append_nil] at hprocessed
  have hreturned : payloads done = r.toList := by
    rw [he.returned,Duplex.returned,hr]
  obtain ⟨packets,hlength,harrived⟩ := he.frames_read hC h h' hslot hslot' hfar
  refine ⟨r,hr,?_,by rw [harrived]⟩
  rw [readable,readable,he.coming hC h h',harrived,List.length_append,hlength,hdone,
    List.take_length_add_append,payloads_append,hreturned]

/-- All payloads that have arrived are returned in their order, and then the end is. -/
theorem Lockstep.readToEnd (h : d.Lockstep T σ P) (hs : d.Spare)
    (hslot : (d.side isServer).unprocessed = none) :
    readToEnd (fun _ => true) isServer ((d.readable isServer).length+1) d =
      (d.readable isServer).map (fun b => .ok (some b))++
        [lastResult isServer (d.arrived isServer).2] := by
  generalize hgot : d.readable isServer = got
  induction got generalizing d with
  | nil =>
    obtain ⟨⟨h',-,-⟩,r,hr,hreadable,hrest⟩ := h.readAll hC hT hP hJ hs hslot rfl
    obtain ⟨hread,hwait⟩ := readToEnd_succ (n := 0) hr rfl
    rw [hgot] at hreadable
    obtain ⟨hnone,-⟩ := List.append_eq_nil_iff.mp hreadable.symm
    obtain rfl := Option.toList_eq_nil_iff.mp hnone
    rw [List.length_nil,hread,hrest,(arrived_of_waits (hwait rfl)).1]
    rfl
  | cons b got ih =>
    obtain ⟨⟨h',hs',hslot'⟩,r,hr,hreadable,hrest⟩ := h.readAll hC hT hP hJ hs hslot rfl
    obtain ⟨hread,hwait⟩ := readToEnd_succ (n := got.length+1) hr rfl
    rw [hgot] at hreadable
    cases r with
    | none =>
      rw [(arrived_of_waits (hwait rfl)).2] at hreadable
      simp at hreadable
    | some b' =>
      obtain ⟨rfl,hgot'⟩ := List.cons.inj hreadable
      rw [List.length_cons,hread,hrest,ih h' hs' hslot' hgot'.symm]
      rfl

end

/-- The side shuts down, and everything that it has sent arrives. -/
def hangUp (isServer : Bool) (d : Duplex V) : Duplex V :=
  let e := d.side isServer
  let p := ((EncryptionProvider.shutdown V).run e.provider).2
  (d.set isServer ⟨p,e.unprocessed⟩ d.clock).arrive isServer p.channels.outgoing.length

lemma Lockstep.shutdown_run (h : d.Lockstep T σ P) :
    (EncryptionProvider.shutdown V).run (d.side isServer).provider =
      (.ok (),(d.side isServer).provider) := by
  obtain ⟨x,-,hj⟩ := h.joined isServer
  have hempty := hj.near.clean.empty
  have hclose : (ProtectedChannels.close).run (d.side isServer).channels =
      (.ok (),(d.side isServer).channels) := by
    rw [ProtectedChannels.close,ProtectedChannels.tryEmptyBuffer,Exec.modify_run,hempty,List.foldl_nil,
      ← hempty]
  exact EncryptionProvider.onChannels_run (Exec.mapError_of_ok hclose)

lemma Lockstep.hangUp_eq (h : d.Lockstep T σ P) :
    d.hangUp isServer = d.arrive isServer (d.side isServer).channels.outgoing.length := by
  rw [hangUp,h.shutdown_run]
  exact congrArg (fun d' => arrive d' isServer _) (d.set_self isServer)

lemma arrive_inFlight (d : Duplex V) (isServer : Bool) (n : ℕ) :
    (d.arrive isServer n).inFlight isServer = d.inFlight isServer := by
  rw [inFlight,inFlight,unread,unread,arrive_near,arrive_far]
  rfl

lemma Lockstep.arrived_all (hC : V.crypto.Lawful) (h : d.Lockstep T σ P)
    (hslot : (d.side isServer).unprocessed = none)
    (hout : (d.side !isServer).channels.outgoing = []) :
    d.lost isServer = [] ∧ (d.arrived isServer).2 = [] := by
  have hlink := h.coming hC hslot
  obtain ⟨us,hus⟩ := hlink.log_prefix
  have hempty : Link V.crypto (announcing M !isServer) (outbound (d.side !isServer).channels)
      ⟨_,_,[],_⟩ none [] := .nil rfl hout rfl rfl rfl
  obtain ⟨hbytes,hfits,hlength⟩ := hlink.frames_read hC hempty rfl rfl hus.symm
  have hdrain := drain_encoded TlsFrameCodec.decode_stable RecordUse.frame RecordUse.packet us
    (fun u hu r => TlsFrameCodec.decode_frame (hfits u hu) r) []
  rw [← hbytes,drain_none TlsFrameCodec.decode_nil,List.append_nil] at hdrain
  have harrived : d.arrived isServer = (us.map RecordUse.packet,[]) := hdrain
  refine ⟨?_,by rw [harrived]⟩
  have hall : (d.inFlight !isServer).length = us.length := by
    rw [inFlight,Bool.not_not,hslot]
    exact hlength
  rw [lost,harrived,List.length_map,← hall,List.drop_length]
  rfl

section
variable (hC : V.crypto.Lawful) (hT : T.Lawful) (hP : T.Honest σ P) (hJ : P.serde = V.serde)
include hC hT hP hJ

lemma Lockstep.readToEnd_hangUp (h : d.Lockstep T σ P) (hs : d.Spare)
    (hslot : (d.side isServer).unprocessed = none) :
    (d.hangUp !isServer).readToEnd (fun _ => true) isServer ((d.inTransit !isServer).length+1) =
      (d.inTransit !isServer).map (fun b => .ok (some b))++[lastResult isServer []] := by
  let n := (d.side !isServer).channels.outgoing.length
  rw [h.hangUp_eq]
  change ((d.arrive (!isServer) n).readToEnd (fun _ => true) isServer _) = _
  obtain ⟨h',hs'⟩ := h.reading hC hT hP hJ hs (show d.Room (!isServer,.arrive n) from trivial) rfl
  change (d.arrive (!isServer) n).Lockstep T σ P at h'
  change (d.arrive (!isServer) n).Spare at hs'
  have hnear := d.arrive_near (!isServer) n
  have hfar := d.arrive_far (!isServer) n
  rw [Bool.not_not] at hfar
  have hslot' : ((d.arrive (!isServer) n).side isServer).unprocessed = none := by
    rw [hfar]
    exact hslot
  have hout : ((d.arrive (!isServer) n).side !isServer).channels.outgoing = [] := by
    rw [hnear]
    exact List.drop_length
  obtain ⟨hlost,hrest⟩ := h'.arrived_all hC hslot' hout
  have hall := (d.arrive (!isServer) n).inTransit_eq isServer
  rw [hlost,List.append_nil,inTransit,arrive_inFlight] at hall
  rw [inTransit,hall,← hrest]
  exact h'.readToEnd hC hT hP hJ hs' hslot'

end
end Duplex

namespace Peers
variable {V : Environment M} {T : TwoParty M} {Q : Peers V}

/-- The end of a stream, wherever it comes: as long as the answers can be written, `read_bytes` still
returns the payloads whose records have arrived, all of them and in their order, and then the end;
otherwise the first of them, and then the error of the writer. They are the next ones after what was
taken before, and only what has not arrived in whole is lost. Bytes left over are an error, but where
the stream ends between two records, a server cannot tell it from a client that has shut down, which
loses nothing. -/
theorem ended_stream_read_in_order (hC : V.crypto.Lawful) (hT : T.Lawful) (hJ : V.serde.Lawful)
    {X : X25519} (hX : X.Lawful) {opening : Opening X} {d₀ : Duplex V}
    {z : Duplex V × List (QueueAction Bool Bytes)} (h₀ : Q.connect opening = some d₀)
    (hrun : Run (Run.record Duplex.step Duplex.visible) (fun e z => Duplex.Room e z.1) (d₀,[]) z)
    (hs : z.1.Spare) {isServer : Bool} (hslot : (z.1.side isServer).unprocessed = none) :
    z.1.readToEnd (fun _ => true) isServer ((z.1.readable isServer).length+1) =
      (z.1.readable isServer).map (fun b => .ok (some b))++
        [lastResult isServer (z.1.arrived isServer).2] ∧
    (∀ writable, let results := z.1.readToEnd writable isServer ((z.1.readable isServer).length+1)
      results = z.1.readToEnd (fun _ => true) isServer ((z.1.readable isServer).length+1) ∨
        ∃ k ≤ (z.1.readable isServer).length, results.take (k+1) =
          ((z.1.readable isServer).take k).map (fun b => .ok (some b))++
            [.error (.error (.tlsTransportError .ioError))]) ∧
    QueueAction.puts (!isServer) z.2 =
      QueueAction.takes (!isServer) z.2++(z.1.readable isServer++z.1.lost isServer) ∧
    (EncryptionProvider.shutdown V).run (z.1.side !isServer).provider =
      (.ok (),(z.1.side !isServer).provider) ∧
    (z.1.hangUp !isServer).readToEnd (fun _ => true) isServer ((z.1.inTransit !isServer).length+1) =
      (z.1.inTransit !isServer).map (fun b => .ok (some b))++[lastResult isServer []] := by
  obtain ⟨-,σ,-,hP,hrest⟩ := connect_atRest hC hT hJ hX h₀
  have hnothing : d₀.inTransit = fun _ => [] :=
    funext fun b => congrArg payloads (hrest.lockstep.inFlight_drained hC hrest.drained b)
  obtain ⟨hstep,hact⟩ := (Duplex.refines_queues hC hT hP rfl).run hrun hrest.lockstep
    (show _ = some d₀.inTransit by rw [hnothing]; rfl)
  have hbalance := QueueAction.balance hact (!isServer)
  rw [List.nil_append,Duplex.inTransit_eq] at hbalance
  have hread := hstep.readToEnd hC hT hP rfl hs hslot
  refine ⟨hread,fun writable => ?_,hbalance,hstep.shutdown_run,
    hstep.readToEnd_hangUp hC hT hP rfl hs hslot⟩
  rcases Duplex.readToEnd_or_fails writable isServer ((z.1.readable isServer).length+1) z.1 with
    hsame | ⟨k,hk,htake⟩
  · exact Or.inl hsame
  · have hle : k ≤ (z.1.readable isServer).length := Nat.le_of_lt_succ hk
    refine Or.inr ⟨k,hle,?_⟩
    rw [htake,hread,List.take_append_of_le_length (by rwa [List.length_map]),List.map_take]

end Peers
namespace Sample

/-- An update and two payloads of the client, and the stream that ends inside the last record. -/
def cutOff : Duplex environment × List (QueueAction Bool Bytes) :=
  let operations : List (Bool × Operation environment) :=
    [(false,.sendBytes [7] (1 : ℕ)),(false,.sendBytes [9] (1 : ℕ)),(false,.arrive 61)]
  operations.foldl (fun z e => Run.record Duplex.step Duplex.visible e z) (duplex,[])

end Sample

theorem Peers.ended_stream_read_in_order_sample :
    Sample.cutOff.1.readToEnd (fun _ => true) true 2 =
      [.ok (some [7]),.error (.error (.tlsTransportError .ioError))] ∧
    (Sample.cutOff.1.readToEnd (fun _ => false) true 2).take 1 =
      [.error (.error (.tlsTransportError .ioError))] ∧
    Sample.cutOff.1.lost true = [[9]] ∧
    (Sample.cutOff.1.hangUp false).readToEnd (fun _ => true) true 3 =
      [.ok (some [7]),.ok (some [9]),.ok none] := by
  have hrun : Run (Run.record Duplex.step Duplex.visible) (fun e z => Duplex.Room e z.1)
      (Sample.duplex,[]) Sample.cutOff := Run.ofList (by decide +kernel)
  have hspare : Sample.cutOff.1.Spare := by
    intro b
    cases b <;> decide +kernel
  have hslot : (Sample.cutOff.1.side true).unprocessed = none := by decide +kernel
  have hreadable : Sample.cutOff.1.readable true = [[7]] := by decide +kernel
  have htransit : Sample.cutOff.1.inTransit false = [[7],[9]] := by decide +kernel
  have hrest : (Sample.cutOff.1.arrived true).2 ≠ [] := by decide +kernel
  obtain ⟨hread,hfails,-,-,hclosed⟩ := Peers.ended_stream_read_in_order (Q := Sample.peers)
    sampleCrypto_lawful sampleTwoParty_lawful sampleSerde_lawful Sample.x25519_lawful
    (Option.some_get Sample.connected).symm hrun hspare hslot
  have hfails := hfails fun _ => false
  rw [hreadable] at hread hfails
  rw [lastResult,if_pos hrest] at hread
  rw [Bool.not_true,htransit] at hclosed
  -- the answer to the update cannot be written
  have hfirst : ((Sample.cutOff.1.readToEnd (fun _ => false) true 2).map (·.isOk)).head? =
      some false := by decide +kernel
  refine ⟨hread,?_,by decide +kernel,hclosed⟩
  rcases hfails with hsame | ⟨k,hk,htake⟩
  · change Sample.cutOff.1.readToEnd (fun _ => false) true 2 = _ at hsame
    rw [hsame,hread] at hfirst
    simp [Except.isOk,Except.toBool] at hfirst
  · change (Sample.cutOff.1.readToEnd (fun _ => false) true 2).take (k+1) = _ at htake
    rcases k with _ | k
    · exact htake
    · obtain ⟨first,rest,hlist⟩ : ∃ first rest,
          Sample.cutOff.1.readToEnd (fun _ => false) true 2 = first::rest := ⟨_,_,rfl⟩
      rw [hlist] at htake hfirst
      simp only [List.take_succ_cons,List.map_cons,List.cons_append,List.cons.injEq] at htake
      simp [htake.1,Except.isOk,Except.toBool] at hfirst

end MlsTls.EncryptionProvider
