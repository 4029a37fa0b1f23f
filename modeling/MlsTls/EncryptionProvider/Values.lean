import MlsTls.EncryptionProvider.Duplex

/-! The values in the records of a connection. The logs of its two ends say which values a party
has sent and read, and so which of them are on their way. -/
set_option linter.dupNamespace false

namespace MlsTls.EncryptionProvider
open Lib TlsAead MlsHandshake TlsAeadCodec

def InnerPlaintext.payload : InnerPlaintext → Option Bytes
  | .application b => some b
  | .signaling _ => none

/-- The message of a signaling value. -/
def InnerPlaintext.message : InnerPlaintext → Option Bytes
  | .application _ => none
  | .signaling b => some b

def payloads (ms : List InnerPlaintext) : List Bytes := ms.filterMap InnerPlaintext.payload

/-- The value that a record opens to. -/
def valueOf (C : Crypto) (u : RecordUse) : Option InnerPlaintext :=
  match C.aeadDecrypt aeadAlgorithm u.key u.ciphertext (nonceOf u.iv u.seq)
      (TlsFrameCodec.header u.ciphertext.length) with
  | .error _ => none
  | .ok msg => (InnerPlaintext.wire.dec msg.dropLast).map Prod.fst

def values (C : Crypto) (us : List RecordUse) : List InnerPlaintext := us.filterMap (valueOf C)

@[simp] theorem payloads_nil : payloads [] = [] := rfl

@[simp] theorem payloads_append (ms ns : List InnerPlaintext) :
    payloads (ms++ns) = payloads ms++payloads ns := List.filterMap_append

@[simp] theorem payloads_singleton (m : InnerPlaintext) : payloads [m] = m.payload.toList := by
  cases m <;> rfl

@[simp] theorem values_append (C : Crypto) (us vs : List RecordUse) :
    values C (us++vs) = values C us++values C vs := List.filterMap_append

/-- What happens to the values in the calls of a party: it reads the values `got` and sends the
values `put`. -/
structure Moves (C : Crypto) (got put : List InnerPlaintext) (s s' : ProtectedChannels) : Prop where
  sent : values C (s'.sent.map SentRecord.use) = values C (s.sent.map SentRecord.use)++put
  received : ∃ us, s'.received = s.received++us ∧ values C us = got
  seq : s'.cipher.sendSeq = s.cipher.sendSeq+put.length

namespace Moves
variable {C : Crypto} {got got' put put' : List InnerPlaintext} {s s' s'' : ProtectedChannels}

theorem still (hsent : s'.sent = s.sent) (hreceived : s'.received = s.received)
    (hseq : s'.cipher.sendSeq = s.cipher.sendSeq) : Moves C [] [] s s' := by
  refine ⟨by rw [hsent,List.append_nil],⟨[],?_,rfl⟩,hseq⟩
  rw [hreceived,List.append_nil]

theorem refl (s : ProtectedChannels) : Moves C [] [] s s := still rfl rfl rfl

theorem trans (h : Moves C got put s s') (h' : Moves C got' put' s' s'') :
    Moves C (got++got') (put++put') s s'' := by
  obtain ⟨hsent,⟨us,hus,hgot⟩,hseq⟩ := h
  obtain ⟨hsent',⟨us',hus',hgot'⟩,hseq'⟩ := h'
  refine ⟨by rw [hsent',hsent,List.append_assoc],⟨us++us',?_,?_⟩,?_⟩
  · rw [hus',hus,List.append_assoc]
  · rw [values_append,hgot,hgot']
  · rw [hseq',hseq,List.length_append,Nat.add_assoc]

end Moves

section
variable {C : Crypto} (hC : C.Lawful)
include hC

lemma valueOf_under {k : Bytes × Bytes} {n : ℕ} {x : Item} (h : Under C k n x) :
    valueOf C x.2.use = some x.1 := by
  obtain ⟨a,e,hkey,hiv,hn,hac,he,hfit,hr,hxiv,hxseq⟩ := h
  have hheader := sealChunk_header hC hr
  obtain ⟨-,hcipher,-,hp,hnonce,-,henc⟩ := sealChunk_eq_ok hr
  have hdec := hC.decrypt_encrypt henc
  rw [hcipher,hac,hp,hnonce,hheader,hiv,hn] at hdec
  have hwire := InnerPlaintext.wire_lawful.dec_enc he []
  rw [List.append_nil] at hwire
  simp only [valueOf,SentRecord.use,hxiv,hxseq,hdec,List.dropLast_concat,hwire,Option.map_some]

lemma values_items {marked : InnerPlaintext → Bool} {k k' : Bytes × Bytes} {n : ℕ} {xs : List Item}
    (h : Flight (Under C) (fun x => marked x.1) k k' n xs) :
    values C (xs.map fun x => x.2.use) = xs.map Prod.fst := by
  induction xs generalizing k' n with
  | nil => rfl
  | cons x xs ih =>
    simp only [values,List.map_cons,List.filterMap_cons,valueOf_under hC h.1]
    exact congrArg _ (ih h.2)

lemma Moves.push {s s' : ProtectedChannels} {k k' : Bytes × Bytes} {n : ℕ} {m : InnerPlaintext}
    {r : SentRecord} (hr : Under C k n (m,r)) (hout : outbound s' = (outbound s).push k' r)
    (hin : (inbound s').log = (inbound s).log) : Moves C [] [m] s s' := by
  have hsent : s'.sent = s.sent++[r] := congrArg Outbound.log hout
  refine ⟨?_,⟨[],?_,rfl⟩,congrArg Outbound.seq hout⟩
  · rw [hsent,List.map_append,values_append]
    simp [values,valueOf_under hC hr]
  · rw [List.append_nil]
    exact hin

namespace Link
variable {marked : InnerPlaintext → Bool} {out : Outbound} {inb : Inbound}
  {slot : Option InnerPlaintext} {pending : List InnerPlaintext}

/-- What is still to be processed is what was sent and not read, after what was read and not
processed. -/
theorem pending_eq (h : Link C marked out inb slot pending) :
    pending = slot.toList++values C ((out.log.map SentRecord.use).drop inb.log.length) ∧
      values C (out.log.map SentRecord.use) =
        values C inb.log++values C ((out.log.map SentRecord.use).drop inb.log.length) := by
  obtain ⟨xs,hp,-,hlog,-,hf⟩ := h.items
  rw [hlog,List.drop_left,values_append,hp,values_items hC hf]
  exact ⟨rfl,rfl⟩

lemma next_moves {t : ProtectedChannels} {m : InnerPlaintext} {rest : Bytes} {packet : TlsPacketIn}
    (h : Link C marked out (inbound t) none pending)
    (h' : Link C marked out (inbound (t.afterNext rest packet)) (some m) pending) :
    Moves C [m] [] t (t.afterNext rest packet) := by
  refine ⟨(List.append_nil _).symm,⟨_,rfl,?_⟩,rfl⟩
  obtain ⟨hbefore,-⟩ := h.pending_eq hC
  obtain ⟨hafter,-⟩ := h'.pending_eq hC
  obtain ⟨more,hmore⟩ := h'.log_prefix
  rw [← hmore,List.drop_left] at hafter
  rw [← hmore] at hbefore
  simp only [inbound,ProtectedChannels.afterNext,List.append_assoc,List.drop_left,
    values_append] at hbefore
  rw [hafter] at hbefore
  exact (List.append_cancel_right hbefore).symm

end Link
end

/-- What a party sends while it processes some values: at most one answer to each message, and
nothing for a payload. -/
inductive Answers (M : OpenMls) (isServer : Bool) : List InnerPlaintext → List InnerPlaintext → Prop
  | nil : Answers M isServer [] []
  | application {b ms put} (rest : Answers M isServer ms put) :
      Answers M isServer (.application b::ms) put
  | signaling {b response ms put} (confirms : Confirms M isServer b response)
      (rest : Answers M isServer ms put) :
      Answers M isServer (.signaling b::ms) (response.toList.map .signaling++put)

lemma Answers.payloads {M : OpenMls} {isServer : Bool} {ms put : List InnerPlaintext}
    (h : Answers M isServer ms put) : payloads put = [] := by
  induction h with
  | nil => rfl
  | application rest ih => exact ih
  | @signaling b response ms put confirms rest ih =>
    rw [payloads_append,ih]
    cases response <;> rfl

theorem Answers.append {M : OpenMls} {isServer : Bool} {ms ms' put put' : List InnerPlaintext}
    (h : Answers M isServer ms put) (h' : Answers M isServer ms' put') :
    Answers M isServer (ms++ms') (put++put') := by
  induction h with
  | nil => exact h'
  | application rest ih => exact .application ih
  | signaling confirms rest ih =>
    rw [List.append_assoc]
    exact .signaling confirms ih

section
variable {M : OpenMls} {V : Environment M}

/-- Whether an operation only takes in what is on its way. -/
def Operation.isReading : Operation V → Bool
  | .sendBytes _ _ => false
  | _ => true

def Operation.isArrival : Operation V → Bool
  | .arrive _ => true
  | _ => false

namespace Duplex

/-- The values that the side `isServer` has sent and the other side has not read. -/
def unread (d : Duplex V) (isServer : Bool) : List InnerPlaintext :=
  values V.crypto (((d.side isServer).channels.sent.map SentRecord.use).drop
    (d.side !isServer).channels.received.length)

/-- The values on their way from the side `isServer`, one that the other side has read and not
processed yet among them. -/
def inFlight (d : Duplex V) (isServer : Bool) : List InnerPlaintext :=
  (d.side !isServer).unprocessed.toList++d.unread isServer

/-- The payload that an operation puts on its way. A panic when the traffic is counted comes too
late to hold it back. -/
def accepted (isServer : Bool) (op : Operation V) (d : Duplex V) : Option Bytes :=
  match op with
  | .sendBytes bytes now =>
    ((d.side isServer).provider.updatePolicy.updateIsDue now).map fun _ => bytes
  | _ => none

/-- The payload that an operation returns. -/
def returned (isServer : Bool) (op : Operation V) (d : Duplex V) : Option Bytes :=
  match (d.exec isServer op).1 with
  | .ok r => r
  | .error _ => none

/-- What happens to the values in an operation: its side reads `got`, processes `done` and sends
`put`, and the other side does nothing. -/
structure Exchanged (isServer : Bool) (op : Operation V) (d d' : Duplex V)
    (got done put : List InnerPlaintext) : Prop where
  near : Moves V.crypto got put (d.side isServer).channels (d'.side isServer).channels
  far : Moves V.crypto [] [] (d.side !isServer).channels (d'.side !isServer).channels
  processed : (d.side isServer).unprocessed.toList++got =
    done++(d'.side isServer).unprocessed.toList
  unprocessed : (d'.side !isServer).unprocessed = (d.side !isServer).unprocessed
  returned : payloads done = (d.returned isServer op).toList
  accepted : payloads put = (d.accepted isServer op).toList
  answers : op.isReading = true → Answers M isServer done put
  idle : op.isReading = true → op.isArrival = false → got = [] → done = [] → d'.side = d.side

lemma Exchanged.set {isServer : Bool} {op : Operation V} {d : Duplex V} {e : Endpoint V} {n : ℕ}
    {got done put : List InnerPlaintext}
    (near : Moves V.crypto got put (d.side isServer).channels e.channels)
    (processed : (d.side isServer).unprocessed.toList++got = done++e.unprocessed.toList)
    (returned : payloads done = (d.returned isServer op).toList)
    (accepted : payloads put = (d.accepted isServer op).toList)
    (answers : op.isReading = true → Answers M isServer done put)
    (idle : op.isReading = true → got = [] → done = [] → e = d.side isServer) :
    Exchanged isServer op d (d.set isServer e n) got done put := by
  refine ⟨?_,?_,?_,?_,returned,accepted,answers,?_⟩
  · rw [set_side]
    exact near
  · rw [set_side_not]
    exact .refl _
  · rw [set_side]
    exact processed
  · rw [set_side_not]
  · intro hreading _ hgot hdone
    rw [idle hreading hgot hdone]
    exact Function.update_eq_self isServer d.side

end Duplex
end
end MlsTls.EncryptionProvider
