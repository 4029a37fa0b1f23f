import MlsTls.TlsAead.Pipeline

/-! Sink and stream of a protected connection. They share one codec behind a lock, which a panic
poisons. The bytes handed to the socket and not yet arrived at the peer stand in `outgoing`, and
`incoming` is the buffer of the frame reader. What the AEAD was called with is kept in the two
logs, which no operation reads. -/
namespace MlsTls.TlsAead
open Lib TlsAeadCodec

inductive TlsAeadSinkError
  | encryptionFailed (e : TlsAeadCodecError)
  | ioError
  | poisonedLock
  | backpressure
  deriving DecidableEq, Repr

/-- A record with the key, IV and sequence number it is sealed or opened with. -/
structure RecordUse where
  key : Bytes
  iv : Bytes
  seq : ℕ
  ciphertext : Bytes
  deriving DecidableEq, Repr

structure SentRecord where
  record : SealedRecord
  iv : Bytes
  seq : ℕ
  deriving DecidableEq, Repr

def SentRecord.use (r : SentRecord) : RecordUse := ⟨r.record.key,r.iv,r.seq,r.record.ciphertext⟩

/-- The records that the chunk loop of `encrypt` seals, with their sequence numbers. -/
def sentRecords (C : Crypto) (cs : List Bytes) (c : TlsAeadCodec) : List SentRecord :=
  (sealedRecords C cs c).zipIdx.map fun p => ⟨p.1,c.sendIv,c.sendSeq+p.2⟩

structure ProtectedChannels where
  cipher : TlsAeadCodec
  poisoned : Bool
  buffer : List Bytes
  outgoing : Bytes
  incoming : Bytes
  sent : List SentRecord
  received : List RecordUse

namespace ProtectedChannels

/-- Calls on the channels. -/
abbrev Call (α : Type) := Exec ProtectedChannels TlsAeadSinkError α

/-- Take the lock and run a call on the codec. -/
def lock {α : Type} (x : Exec TlsAeadCodec TlsAeadCodecError α) : Call α := ⟨fun s =>
  if s.poisoned then (.error (.error .poisonedLock),s)
  else match x.run s.cipher with
    | (.ok a,c) => (.ok a,{ s with cipher := c })
    | (.error (.error e),c) => (.error (.error (.encryptionFailed e)),{ s with cipher := c })
    | (.error .panic,c) => (.error .panic,{ s with cipher := c, poisoned := true })⟩

/-- Give every buffered ciphertext to the frame writer, which has room for all of them. -/
def tryEmptyBuffer : Call Unit := Exec.modify fun s =>
  { s with
    buffer := []
    outgoing := s.buffer.foldl (fun dst x => TlsFrameCodec.encode x dst) s.outgoing }

def startSend (C : Crypto) (item : Bytes) : Call Unit := ⟨fun s =>
  if s.poisoned then (.error (.error .poisonedLock),s)
  else
    let sent := s.sent++sentRecords C (chunks s.cipher.maxFrameSize item) s.cipher
    match (encrypt C item).run (s.cipher,s.buffer) with
    | (.ok _,(c,b)) => (.ok (),{ s with cipher := c, buffer := b, sent := sent })
    | (.error (.error e),(c,b)) =>
      (.error (.error (.encryptionFailed e)),{ s with cipher := c, buffer := b, sent := sent })
    | (.error .panic,(c,b)) =>
      (.error .panic,{ s with cipher := c, buffer := b, sent := sent, poisoned := true })⟩

/-- `SinkExt::send`: wait until ready, start sending, flush. -/
def send (C : Crypto) (item : Bytes) : Call Unit := do
  tryEmptyBuffer
  startSend C item
  tryEmptyBuffer

def logReceived (packet : TlsPacketIn) : Call Unit := Exec.modify fun s =>
  { s with received := s.received++
    [⟨s.cipher.recvKey,s.cipher.recvIv,s.cipher.recvSeq,packet.data⟩] }

/-- `StreamExt::next`, or `none` while no complete frame has arrived. -/
def next (C : Crypto) : Call (Option TlsPacketIn) := do
  let s ← Exec.get
  match TlsFrameCodec.decode s.incoming with
  | none => pure none
  | some (packet,rest) => do
    Exec.modify fun s => { s with incoming := rest }
    logReceived packet
    let plaintext ← lock (decrypt C packet.data packet.header)
    pure (some ⟨packet.header,plaintext⟩)

/-- The codec is shared, so the writer's and the reader's method do the same. -/
def updateTrafficSecrets (C : Crypto) (update : SecretUpdate) (isServer : Bool) : Call Unit :=
  lock (TlsAeadCodec.updateTrafficSecrets C update isServer)

/-- Nothing is left over from an earlier call, and no call has panicked. -/
structure Clean (s : ProtectedChannels) : Prop where
  unpoisoned : s.poisoned = false
  empty : s.buffer = []

/-- The channels after a string has been sent. -/
def afterSend (C : Crypto) (item : Bytes) (s : ProtectedChannels) : ProtectedChannels :=
  { s with
    cipher := s.cipher.setSendSeq (s.cipher.sendSeq+(chunks tlsMaxRecordSize item).length)
    outgoing := s.outgoing++
      ((sealedRecords C (chunks tlsMaxRecordSize item) s.cipher).map SealedRecord.bytes).flatten
    sent := s.sent++sentRecords C (chunks tlsMaxRecordSize item) s.cipher }

/-- The channels after a record has been opened. -/
def afterNext (rest : Bytes) (packet : TlsPacketIn) (s : ProtectedChannels) : ProtectedChannels :=
  { s with
    cipher := s.cipher.bumpRecv
    incoming := rest
    received := s.received++
      [⟨s.cipher.recvKey,s.cipher.recvIv,s.cipher.recvSeq,packet.data⟩] }

theorem Clean.afterSend {s : ProtectedChannels} (h : s.Clean) (C : Crypto) (item : Bytes) :
    (s.afterSend C item).Clean := ⟨h.unpoisoned,h.empty⟩

@[simp] theorem afterSend_sendSeq (C : Crypto) (item : Bytes) (s : ProtectedChannels) :
    (s.afterSend C item).cipher.sendSeq =
      s.cipher.sendSeq+(chunks tlsMaxRecordSize item).length := rfl

theorem lock_run {α : Type} {x : Exec TlsAeadCodec TlsAeadCodecError α} {s : ProtectedChannels}
    (hs : s.poisoned = false) {a : α} {c : TlsAeadCodec} (h : x.run s.cipher = (.ok a,c)) :
    (lock x).run s = (.ok a,{ s with cipher := c }) := by
  simp [lock,hs,h]

/-- A call under the lock changes the codec and the lock only. -/
theorem lock_keeps {α : Type} {I : ProtectedChannels → Prop} (x : Exec TlsAeadCodec TlsAeadCodecError α)
    (hI : ∀ s c poisoned, I s → I { s with cipher := c, poisoned := poisoned }) :
    Exec.Keeps I (lock x) fun _ => True := by
  intro s hs
  simp only [lock]
  split_ifs
  · exact hs
  · rcases x.run s.cipher with ⟨(e | _) | a,c⟩
    · exact hI s c s.poisoned hs
    · exact hI s c true hs
    · exact ⟨hI s c s.poisoned hs,trivial⟩

/-- `start_send` also changes the buffer, and its records are added to the log. -/
theorem startSend_keeps {I : ProtectedChannels → Prop} (C : Crypto) (item : Bytes)
    (hI : ∀ s c poisoned buffer records, I s → I { s with
      cipher := c, poisoned := poisoned, buffer := buffer, sent := s.sent++records }) :
    Exec.Keeps I (startSend C item) fun _ => True := by
  intro s hs
  simp only [startSend]
  split_ifs
  · exact hs
  · rcases (encrypt C item).run (s.cipher,s.buffer) with ⟨(e | _) | a,c,b⟩
    · exact hI s c s.poisoned b _ hs
    · exact hI s c true b _ hs
    · exact ⟨hI s c s.poisoned b _ hs,trivial⟩

theorem next_pending (C : Crypto) {s : ProtectedChannels}
    (h : TlsFrameCodec.decode s.incoming = none) : (next C).run s = (.ok none,s) := by
  simp [next,Exec.bind_run,h]

theorem send_room {C : Crypto} {s s' : ProtectedChannels} {item : Bytes}
    (h : (send C item).run s = (.ok (),s')) (hseq : s.cipher.sendSeq < u64Size) :
    s.cipher.sendSeq+(chunks tlsMaxRecordSize item).length < u64Size := by
  simp only [send,Exec.bind_eq_ok,tryEmptyBuffer,Exec.modify_run,Prod.mk.injEq] at h
  obtain ⟨u,t,⟨-,rfl⟩,u',t',hstart,-⟩ := h
  simp only [startSend,encrypt,s.cipher.maxFrameSize_eq] at hstart
  split_ifs at hstart with hp
  · simp at hstart
  · split at hstart
    · rename_i hrun
      exact encryptChunks_room hrun hseq
    · simp at hstart
    · simp at hstart

section
variable {C : Crypto} (hC : C.Lawful)
include hC

theorem send_run {s : ProtectedChannels} (hs : s.Clean) (hk : s.cipher.WellKeyed) (item : Bytes)
    (hseq : s.cipher.sendSeq+(chunks tlsMaxRecordSize item).length < u64Size) :
    (send C item).run s = (.ok (),s.afterSend C item) := by
  have h := encryptChunks_ok hC hk (chunks tlsMaxRecordSize item)
    (fun x hx => length_le_of_mem_chunks tlsMaxRecordSize_pos hx) hseq []
  simp only [send,tryEmptyBuffer,startSend,Exec.bind_run,Exec.modify_run,hs.empty,hs.unpoisoned,
    Bool.false_eq_true,if_false,encrypt,s.cipher.maxFrameSize_eq,h,TlsFrameCodec.foldl_encode,List.map_nil,
    List.flatten_nil,List.append_nil,List.nil_append,List.map_map,afterSend]
  rfl

/-- A stream that begins with a record for this reader: the record is returned once all of it has
arrived. -/
theorem next_run {s : ProtectedChannels} (hs : s.poisoned = false) {a : TlsAeadCodec}
    (hab : SendsTo a s.cipher) {chunk : Bytes} (hchunk : chunk.length ≤ tlsMaxRecordSize)
    {r : SealedRecord} (hr : sealChunk C a chunk = .ok r) (hseq : a.sendSeq+1 < u64Size)
    {w stream : Bytes} (hw : s.incoming++w = r.bytes++stream) :
    TlsFrameCodec.decode s.incoming = none ∨
      ∃ rest, rest++w = stream ∧ rest.length < s.incoming.length ∧ (next C).run s =
        (.ok (some ⟨r.packet.header,chunk⟩),s.afterNext rest r.packet) := by
  cases hd : TlsFrameCodec.decode s.incoming with
  | none => exact Or.inl rfl
  | some q =>
    obtain ⟨packet,rest⟩ := q
    have hlt : r.ciphertext.length < 2^16 := by
      obtain ⟨-,-,-,hp,-,-,he⟩ := sealChunk_eq_ok hr
      have hl := hC.encrypt_length he
      simp only [hp,List.length_append,List.length_singleton,AeadType.tagSize_eq] at hl
      simp only [tlsMaxRecordSize] at hchunk
      omega
    obtain ⟨rfl,hrest⟩ := TlsFrameCodec.decode_stable.first hw
      (TlsFrameCodec.decode_frame hlt stream) hd
    have hdec := decrypt_sealChunk hC hab hr hseq
    rw [sealChunk_header hC hr] at hdec
    refine Or.inr ⟨rest,hrest,TlsFrameCodec.decode_stable.shrinks hd,?_⟩
    have hlock := lock_run (s := { s with
      incoming := rest
      received := s.received++
        [⟨s.cipher.recvKey,s.cipher.recvIv,s.cipher.recvSeq,r.ciphertext⟩] }) hs hdec
    simp only [next,Exec.bind_run,Exec.get_run,hd,Exec.modify_run,logReceived,hlock,Exec.pure_run]
    rfl

end
end ProtectedChannels
end MlsTls.TlsAead
