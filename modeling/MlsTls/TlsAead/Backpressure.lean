import MlsTls.Lib.Run
import MlsTls.Lib.Sink
import MlsTls.TlsAead.ChannelNonces
import MlsTls.TlsAead.KeySwitch

/-! The sink of a protected connection over a sink that is not always ready. A string becomes
several records, which wait in a buffer; every call that polls goes on emptying it where the one
before had to stop. Calls and answers of the inner sink stand in the history, with the ciphertexts
between them as they are buffered, and `sent` has the records with their sequence numbers. -/
namespace MlsTls.TlsAead
open Lib TlsAeadCodec

structure TlsAeadSink {ε : Type} (S : Sink Bytes ε) where
  inner : S.State
  cipher : TlsAeadCodec
  poisoned : Bool
  buffer : List Bytes
  history : List (SinkEvent Bytes ε)
  sent : List SentRecord

namespace TlsAeadSink
variable {ε α : Type} {S : Sink Bytes ε}

/-- Calls on the sink. One that polls returns whether it is done. -/
abbrev Call (S : Sink Bytes ε) (α : Type) := Exec (TlsAeadSink S) TlsAeadSinkError α

def new (inner : S.State) (cipher : TlsAeadCodec) : TlsAeadSink S := ⟨inner,cipher,false,[],[],[]⟩

/-- A call on the inner sink. -/
def onInner (f : S.State → Except ε α × S.State) (event : Except ε α → SinkEvent Bytes ε) :
    Call S α := ⟨fun s =>
  ((f s.inner).1.mapError fun _ => .error .ioError,
    { s with inner := (f s.inner).2, history := s.history++[event (f s.inner).1] })⟩

def innerPollReady : Call S Poll := onInner S.pollReady .pollReady

def setBuffer (buffer : List Bytes) : Call S Unit := Exec.modify fun s => { s with buffer }

/-- The loop of `try_empty_buffer`, which takes the items off the front of the buffer. -/
def emptyLoop : List Bytes → Call S Poll
  | [] => pure .ready
  | item::rest => do
    setBuffer rest
    onInner (S.startSend item) (.startSend item)
    if rest ≠ [] then
      match ← innerPollReady with
      | .pending => pure .pending
      | .ready => emptyLoop rest
    else emptyLoop rest

def tryEmptyBuffer : Call S Poll := do
  match ← innerPollReady with
  | .pending => pure .pending
  | .ready => do
    let s ← Exec.get
    emptyLoop s.buffer

def pollReady : Call S Poll := do
  match ← tryEmptyBuffer with
  | .pending => pure .pending
  | .ready => innerPollReady

/-- Ciphertexts of chunks before a failure stay in the buffer; a panic poisons the lock. -/
def startSend (C : Crypto) (item : Bytes) : Call S Unit := ⟨fun s =>
  if s.buffer ≠ [] then (.error .panic,s)
  else if s.poisoned then (.error (.error .poisonedLock),s)
  else
    let records := sentRecords C (chunks s.cipher.maxFrameSize item) s.cipher
    let r := (encrypt C item).run (s.cipher,s.buffer)
    let s := { s with
      cipher := r.2.1
      buffer := r.2.2
      history := s.history++records.map fun r => .queued r.record.ciphertext
      sent := s.sent++records }
    match r.1 with
    | .ok _ => (.ok (),s)
    | .error (.error e) => (.error (.error (.encryptionFailed e)),s)
    | .error .panic => (.error .panic,{ s with poisoned := true })⟩

def pollFlush : Call S Poll := do
  match ← tryEmptyBuffer with
  | .pending => pure .pending
  | .ready => onInner S.pollFlush .pollFlush

def pollClose : Call S Poll := do
  match ← tryEmptyBuffer with
  | .pending => pure .pending
  | .ready => onInner S.pollClose .pollClose

/-- Take the lock and run a call on the codec, which the stream shares. -/
def lock (x : Exec TlsAeadCodec TlsAeadCodecError α) : Call S α := ⟨fun s =>
  if s.poisoned then (.error (.error .poisonedLock),s)
  else match x.run s.cipher with
    | (.ok a,c) => (.ok a,{ s with cipher := c })
    | (.error (.error e),c) => (.error (.error (.encryptionFailed e)),{ s with cipher := c })
    | (.error .panic,c) => (.error .panic,{ s with cipher := c, poisoned := true })⟩

def updateTrafficSecrets (C : Crypto) (update : SecretUpdate) (isServer : Bool) : Call S Unit :=
  lock (TlsAeadCodec.updateTrafficSecrets C update isServer)

/-- What is kept of a sink whose codec began at the sequence number `n`. -/
structure Sound (n : ℕ) (s : TlsAeadSink S) : Prop where
  order : SinkEvent.InOrder s.history s.buffer
  logged : SinkEvent.queue s.history = s.sent.map fun r => r.record.ciphertext
  numbered : s.sent.map (·.seq) = List.range' n s.sent.length
  next : s.poisoned = false → s.cipher.sendSeq = n+s.sent.length

/-- A sound sink whose buffer is a rest of `b`. -/
structure Rest (n : ℕ) (b : List Bytes) (s : TlsAeadSink S) : Prop where
  sound : Sound n s
  suffix : s.buffer <:+ b

/-- The inner sink was asked last, and was ready. -/
def Primed (s : TlsAeadSink S) : Prop := ∃ h, s.history = h++[.pollReady (.ok .ready)]

section
variable {n : ℕ} {b : List Bytes} {s : TlsAeadSink S}

lemma Sound.new (inner : S.State) (cipher : TlsAeadCodec) :
    Sound cipher.sendSeq (new inner cipher : TlsAeadSink S) := ⟨.nil,rfl,rfl,fun _ => rfl⟩

lemma Sound.poll (h : Sound n s) {e : SinkEvent Bytes ε} (he : e.isPoll = true) (inner : S.State) :
    Sound n { s with inner := inner, history := s.history++[e] } := by
  refine ⟨h.order.poll he,?_,h.numbered,h.next⟩
  have hlogged := h.logged
  cases e <;> simp_all [SinkEvent.isPoll,SinkEvent.queue]

lemma onInner_sound {f : S.State → Except ε α × S.State} {event : Except ε α → SinkEvent Bytes ε}
    (hevent : ∀ r, (event r).isPoll = true) :
    Exec.Triple (fun s => Sound n s ∧ s.buffer = b) (onInner f event)
      (fun a s => Sound n s ∧ s.buffer = b ∧ ∃ h, s.history = h++[event (.ok a)])
      fun _ s => Sound n s ∧ s.buffer = b := by
  rintro s ⟨h,hb⟩
  simp only [onInner]
  rcases hf : f s.inner with ⟨e | a,i⟩
  · exact ⟨h.poll (hevent _) i,hb⟩
  · exact ⟨h.poll (hevent _) i,hb,s.history,rfl⟩

lemma innerPollReady_sound :
    Exec.Triple (fun s => Sound n s ∧ s.buffer = b) (innerPollReady : Call S Poll)
      (fun r s => Sound n s ∧ s.buffer = b ∧ (r = .ready → Primed s))
      fun _ s => Sound n s ∧ s.buffer = b := by
  refine (onInner_sound fun _ => rfl).conseq (fun _ hs => hs) ?_ fun _ _ hs => hs
  rintro r s ⟨hs,hb,h,hh⟩
  exact ⟨hs,hb,fun hr => ⟨h,by rw [hh,hr]⟩⟩

lemma innerStartSend_sound {item : Bytes} {rest : List Bytes} :
    Exec.Triple (fun s => Sound n { s with buffer := item::rest } ∧ s.buffer = rest ∧ Primed s)
      (onInner (S.startSend item) (.startSend item)) (fun _ s => Sound n s ∧ s.buffer = rest)
      fun _ s => Sound n s ∧ s.buffer = rest := by
  rintro s ⟨h,hb,history,hprimed⟩
  have hsound (i : S.State) (answer : Except ε Unit) :
      Sound n { s with inner := i, history := s.history++[.startSend item answer] } := by
    have horder := h.order
    have hlogged := h.logged
    refine ⟨?_,?_,h.numbered,h.next⟩
    · simp only [hprimed] at horder ⊢
      rw [hb]
      exact horder.startSend answer
    · simpa [SinkEvent.queue] using hlogged
  simp only [onInner]
  rcases hf : S.startSend item s.inner with ⟨e | a,i⟩
  · exact ⟨hsound i _,hb⟩
  · exact ⟨hsound i _,hb⟩

lemma Rest.of_eq (h : Sound n s) (hb : s.buffer = b) : Rest n b s := ⟨h,hb ▸ List.suffix_rfl⟩

lemma Rest.cons (item : Bytes) (h : Rest n b s) : Rest n (item::b) s :=
  ⟨h.sound,h.suffix.trans (List.suffix_cons _ _)⟩

lemma emptyLoop_sound :
    Exec.Triple (fun s => Sound n s ∧ s.buffer = b ∧ (b ≠ [] → Primed s)) (emptyLoop b : Call S Poll)
      (fun r s => Rest n b s ∧ (r = .ready → s.buffer = [])) fun _ => Rest n b := by
  induction b with
  | nil => exact .pure fun s hs => ⟨.of_eq hs.1 hs.2.1,fun _ => hs.2.1⟩
  | cons item rest ih =>
    have hrest : Exec.Triple (fun s => Sound n s ∧ s.buffer = rest ∧ (rest ≠ [] → Primed s))
        (emptyLoop rest : Call S Poll)
        (fun r s => Rest n (item::rest) s ∧ (r = .ready → s.buffer = []))
        fun _ => Rest n (item::rest) :=
      ih.conseq (fun _ hs => hs) (fun _ _ hs => ⟨hs.1.cons item,hs.2⟩) fun _ _ hs => hs.cons item
    -- between the two writes the item is neither in the buffer nor handed on
    refine .bind (Q := fun _ s => Sound n { s with buffer := item::rest } ∧ s.buffer = rest ∧
      Primed s) (.modify ?_) fun _ => ?_
    · rintro s ⟨hs,hb,hprimed⟩
      exact ⟨⟨hb ▸ hs.order,hs.logged,hs.numbered,hs.next⟩,rfl,hprimed (by simp)⟩
    refine .bind (innerStartSend_sound.failing fun _ s hs => (Rest.of_eq hs.1 hs.2).cons item)
      fun _ => ?_
    split_ifs with hne
    · refine .bind (innerPollReady_sound.failing fun _ s hs => (Rest.of_eq hs.1 hs.2).cons item)
        fun r => ?_
      cases r with
      | pending => exact .pure fun s hs => ⟨(Rest.of_eq hs.1 hs.2.1).cons item,by simp⟩
      | ready => exact hrest.pre fun s hs => ⟨hs.1,hs.2.1,fun _ => hs.2.2 rfl⟩
    · exact hrest.pre fun s hs => ⟨hs.1,hs.2,fun h => absurd h hne⟩

lemma tryEmptyBuffer_sound :
    Exec.Triple (fun s => Sound n s ∧ s.buffer = b) (tryEmptyBuffer : Call S Poll)
      (fun r s => Rest n b s ∧ (r = .ready → s.buffer = [])) fun _ => Rest n b := by
  refine .bind (innerPollReady_sound.failing fun _ s hs => .of_eq hs.1 hs.2) fun r => ?_
  cases r with
  | pending => exact .pure fun s hs => ⟨.of_eq hs.1 hs.2.1,by simp⟩
  | ready =>
    intro s hs
    obtain ⟨hsound,rfl,hprimed⟩ := hs
    exact emptyLoop_sound s ⟨hsound,rfl,fun _ => hprimed rfl⟩

lemma poll_sound {f : S.State → Except ε Poll × S.State} {event : Except ε Poll → SinkEvent Bytes ε}
    (hevent : ∀ r, (event r).isPoll = true) :
    Exec.Triple (fun s => Sound n s ∧ s.buffer = b)
      (do
        match ← tryEmptyBuffer with
        | .pending => pure .pending
        | .ready => onInner f event : Call S Poll)
      (fun r s => Rest n b s ∧ (r = .ready → s.buffer = [])) fun _ => Rest n b := by
  have hempty {s : TlsAeadSink S} (hs : Sound n s) (hb : s.buffer = []) : Rest n b s :=
    ⟨hs,by rw [hb]; exact List.nil_suffix⟩
  refine .bind tryEmptyBuffer_sound fun r => ?_
  cases r with
  | pending => exact .pure fun s hs => hs
  | ready =>
    exact (onInner_sound (b := []) hevent).conseq (fun s hs => ⟨hs.1.sound,hs.2 rfl⟩)
      (fun _ s hs => ⟨hempty hs.1 hs.2.1,fun _ => hs.2.1⟩) fun _ s hs => hempty hs.1 hs.2

lemma sentRecords_seq (C : Crypto) (cs : List Bytes) (c : TlsAeadCodec) :
    (sentRecords C cs c).map (·.seq) = List.range' c.sendSeq (sealedRecords C cs c).length := by
  calc (sentRecords C cs c).map (·.seq)
      = ((sealedRecords C cs c).zipIdx.map Prod.snd).map (c.sendSeq + ·) := by
        rw [sentRecords,List.map_map,List.map_map]
        rfl
    _ = (List.range' 0 (sealedRecords C cs c).length).map (c.sendSeq + ·) := by
        rw [List.zipIdx_map_snd]
    _ = List.range' c.sendSeq (sealedRecords C cs c).length := by
        rw [List.map_add_range',Nat.add_zero]

lemma startSend_sound (C : Crypto) (item : Bytes) (h : Sound n s) (hb : s.buffer = []) :
    Sound n ((startSend C item).run s).2 := by
  -- on an empty buffer the assertion holds, and what is encrypted is buffered and logged
  have hbuffer := encryptChunks_buffer C (chunks s.cipher.maxFrameSize item) s.cipher s.buffer
  have hcounts (hno : (encryptChunks C (chunks s.cipher.maxFrameSize item) (s.cipher,s.buffer)).1 ≠
      .error .panic) := encryptChunks_counts hno
  simp only [startSend,encrypt]
  rw [if_neg (by simp [hb])]
  split_ifs with hp
  · exact h
  · have hnext := h.next (by simpa using hp)
    have hciphertexts : (sentRecords C (chunks s.cipher.maxFrameSize item) s.cipher).map
        (fun r => r.record.ciphertext) =
        (sealedRecords C (chunks s.cipher.maxFrameSize item) s.cipher).map (·.ciphertext) := by
      rw [← sentRecords_record,List.map_map]
      rfl
    have hseq := sentRecords_seq C (chunks s.cipher.maxFrameSize item) s.cipher
    have hlength := sentRecords_length C (chunks s.cipher.maxFrameSize item) s.cipher
    generalize encryptChunks C (chunks s.cipher.maxFrameSize item) (s.cipher,s.buffer) = r at *
    generalize sentRecords C (chunks s.cipher.maxFrameSize item) s.cipher = records at *
    obtain ⟨r,c,buffer⟩ := r
    simp only at hbuffer hcounts
    have hsound (poisoned : Bool) (hpoisoned : poisoned = false → r ≠ .error .panic) :
        Sound n { s with
          cipher := c
          poisoned := poisoned
          buffer := buffer
          history := s.history++records.map fun r => .queued r.record.ciphertext
          sent := s.sent++records } := by
      have horder := h.order.queuedAll (records.map fun r => r.record.ciphertext)
      rw [List.map_map] at horder
      refine ⟨?_,?_,?_,fun hfalse => ?_⟩
      · rw [hbuffer,← hciphertexts]
        exact horder
      · simp [SinkEvent.queue,← h.logged,List.filterMap_map]
      · rw [List.map_append,h.numbered,hseq,hnext,List.length_append,hlength,List.range'_append_1]
      · simp only
        rw [hcounts (hpoisoned hfalse),setSendSeq_sendSeq,hnext,List.length_append,hlength]
        omega
    rcases r with (e | _) | u
    · exact hsound s.poisoned fun _ => by simp
    · exact hsound true fun hfalse => by simp at hfalse
    · exact hsound s.poisoned fun _ => by simp

lemma lock_sound {x : Exec TlsAeadCodec TlsAeadCodecError α}
    (hx : ∀ c, (x.run c).2.sendSeq = c.sendSeq) :
    Exec.Keeps (fun s => Sound n s ∧ s.buffer = b) (lock x : Call S α) fun _ => True := by
  rintro s ⟨h,hb⟩
  have hseq := hx s.cipher
  simp only [lock]
  split_ifs with hp
  · exact ⟨h,hb⟩
  · have hnext := h.next (by simpa using hp)
    rcases hrun : x.run s.cipher with ⟨(e | _) | a,c⟩
    · rw [hrun] at hseq
      exact ⟨⟨h.order,h.logged,h.numbered,fun _ => hseq.trans hnext⟩,hb⟩
    · exact ⟨⟨h.order,h.logged,h.numbered,fun hfalse => by simp at hfalse⟩,hb⟩
    · rw [hrun] at hseq
      exact ⟨⟨⟨h.order,h.logged,h.numbered,fun _ => hseq.trans hnext⟩,hb⟩,trivial⟩

end
end TlsAeadSink

/-- What is called on a sink; the stream that shares its codec decrypts. -/
inductive SinkCall
  | pollReady
  | startSend (item : Bytes)
  | pollFlush
  | pollClose
  | updateTrafficSecrets (update : SecretUpdate) (isServer : Bool)
  | decrypt (ciphertext associatedData : Bytes)

def SinkCall.polls : SinkCall → Bool
  | .pollReady | .pollFlush | .pollClose => true
  | _ => false

/-- A sink, and whether it has said to be ready since the last string was given to it. -/
structure DrivenSink {ε : Type} (S : Sink Bytes ε) where
  sink : TlsAeadSink S
  ready : Bool

namespace DrivenSink
open TlsAeadSink
variable {ε : Type} {S : Sink Bytes ε} (C : Crypto)

def call : SinkCall → TlsAeadSink.Call S Poll
  | .pollReady => TlsAeadSink.pollReady
  | .startSend item => do
    TlsAeadSink.startSend C item
    pure .ready
  | .pollFlush => TlsAeadSink.pollFlush
  | .pollClose => TlsAeadSink.pollClose
  | .updateTrafficSecrets update isServer => do
    TlsAeadSink.updateTrafficSecrets C update isServer
    pure .ready
  | .decrypt ciphertext associatedData => do
    let _ ← lock (TlsAeadCodec.decrypt C ciphertext associatedData)
    pure .ready

/-- Whether the sink has said to be ready, after a call and its result. -/
def readyAfter (e : SinkCall) (r : Outcome TlsAeadSinkError Poll) (ready : Bool) : Bool :=
  match e,r with
  | .pollReady,.ok .ready => true
  | .startSend _,_ => false
  | _,_ => ready

def step (e : SinkCall) (d : DrivenSink S) : DrivenSink S :=
  ⟨((call C e).run d.sink).2,readyAfter e ((call C e).run d.sink).1 d.ready⟩

/-- The contract of a sink: a string is given to it only after it has said to be ready. -/
def Contract (e : SinkCall) (d : DrivenSink S) : Prop :=
  match e with
  | .startSend _ => d.ready = true
  | _ => True

instance (e : SinkCall) (d : DrivenSink S) : Decidable (d.Contract e) :=
  match e with
  | .startSend _ => inferInstanceAs (Decidable (_ = _))
  | .pollReady | .pollFlush | .pollClose | .updateTrafficSecrets _ _ | .decrypt _ _ => isTrue trivial

structure Inv (n : ℕ) (d : DrivenSink S) : Prop where
  sound : Sound n d.sink
  empty : d.ready = true → d.sink.buffer = []

section
variable {C} {n : ℕ} {d : DrivenSink S}

lemma call_sound {e : SinkCall} (he : ∀ item, e ≠ .startSend item) {b : List Bytes} :
    Exec.Triple (fun s => Sound n s ∧ s.buffer = b) (call C e : TlsAeadSink.Call S Poll)
      (fun r s => Rest n b s ∧ (e.polls = true → r = .ready → s.buffer = [])) fun _ => Rest n b := by
  have hpoll {x : TlsAeadSink.Call S Poll} (hx : Exec.Triple (fun s => Sound n s ∧ s.buffer = b) x
      (fun r s => Rest n b s ∧ (r = .ready → s.buffer = [])) fun _ => Rest n b) :
      Exec.Triple (fun s => Sound n s ∧ s.buffer = b) x
        (fun r s => Rest n b s ∧ (e.polls = true → r = .ready → s.buffer = [])) fun _ => Rest n b :=
    hx.conseq (fun _ hs => hs) (fun _ _ hs => ⟨hs.1,fun _ => hs.2⟩) fun _ _ hs => hs
  have hlock {α : Type} {x : Exec TlsAeadCodec TlsAeadCodecError α}
      (hx : ∀ c, (x.run c).2.sendSeq = c.sendSeq) (hpolls : e.polls = false) :
      Exec.Triple (fun s => Sound n s ∧ s.buffer = b)
        (lock x >>= fun _ => pure .ready : TlsAeadSink.Call S Poll)
        (fun r s => Rest n b s ∧ (e.polls = true → r = .ready → s.buffer = [])) fun _ => Rest n b := by
    refine .bind ((lock_sound hx).failing fun _ s hs => .of_eq hs.1 hs.2) fun _ => ?_
    exact .pure fun s hs => ⟨.of_eq hs.1.1 hs.1.2,by simp [hpolls]⟩
  cases e with
  | pollReady => exact hpoll (poll_sound fun _ => rfl)
  | startSend item => exact absurd rfl (he item)
  | pollFlush => exact hpoll (poll_sound fun _ => rfl)
  | pollClose => exact hpoll (poll_sound fun _ => rfl)
  | updateTrafficSecrets update isServer =>
    exact hlock (fun c => (afterUpdate_frame C update isServer c).1) rfl
  | decrypt ciphertext associatedData =>
    refine hlock (fun c => ?_) rfl
    obtain ⟨m,hm⟩ := decrypt_codec C ciphertext associatedData c
    rw [hm,setRecvSeq_sendSeq]

lemma Inv.new (inner : S.State) (cipher : TlsAeadCodec) :
    Inv cipher.sendSeq (⟨new inner cipher,false⟩ : DrivenSink S) :=
  ⟨.new inner cipher,fun hfalse => by simp at hfalse⟩

lemma readyAfter_eq_true {e : SinkCall} {r : Outcome TlsAeadSinkError Poll} {ready : Bool}
    (h : readyAfter e r ready = true) : ready = true ∨ e = .pollReady ∧ r = .ok .ready := by
  unfold readyAfter at h
  split at h
  · exact .inr ⟨rfl,rfl⟩
  · cases h
  · exact .inl h

lemma startSend_snd (item : Bytes) (s : TlsAeadSink S) :
    ((call C (.startSend item)).run s).2 = ((TlsAeadSink.startSend C item).run s).2 := by
  rw [call,Exec.bind_run]
  rcases (TlsAeadSink.startSend C item).run s with ⟨f | _,s⟩
  · rfl
  · rfl

lemma call_after (h : Sound n d.sink) {e : SinkCall} (he : ∀ item, e ≠ .startSend item) :
    Rest n d.sink.buffer ((call C e).run d.sink).2 ∧
      (e.polls = true → ((call C e).run d.sink).1 = .ok .ready →
        ((call C e).run d.sink).2.buffer = []) := by
  have hcall := call_sound (C := C) (n := n) he d.sink ⟨h,rfl⟩
  rcases hr : (call C e).run d.sink with ⟨f | r,s⟩
  · rw [hr] at hcall
    exact ⟨hcall,fun _ hf => by cases hf⟩
  · rw [hr] at hcall
    exact ⟨hcall.1,fun hp hr => hcall.2 hp (Except.ok.inj hr)⟩

lemma Inv.step (h : Inv n d) {e : SinkCall} (he : d.Contract e) : Inv n (d.step C e) := by
  by_cases hs : ∃ item, e = .startSend item
  · obtain ⟨item,rfl⟩ := hs
    refine ⟨?_,fun hfalse => by cases hfalse⟩
    change Sound n ((call C (.startSend item)).run d.sink).2
    rw [startSend_snd]
    exact startSend_sound C item h.sound (h.empty he)
  · obtain ⟨⟨hsound,hsuffix⟩,hpolls⟩ := call_after (C := C) h.sound fun item heq => hs ⟨item,heq⟩
    refine ⟨hsound,fun hready => ?_⟩
    rcases readyAfter_eq_true hready with hready | ⟨rfl,hr⟩
    · rw [h.empty hready] at hsuffix
      exact List.suffix_nil.mp hsuffix
    · exact hpolls rfl hr

lemma Inv.flushed (h : Inv n d) {e : SinkCall} (he : e = .pollFlush ∨ e = .pollClose)
    (hready : ((call C e).run d.sink).1 = .ok .ready) :
    SinkEvent.handed (d.step C e).sink.history =
      (d.step C e).sink.sent.map fun r => r.record.ciphertext := by
  have hno (item : Bytes) : e ≠ .startSend item := by rcases he with rfl | rfl <;> simp
  have hpoll : e.polls = true := by rcases he with rfl | rfl <;> rfl
  obtain ⟨⟨hsound,-⟩,hpolls⟩ := call_after (C := C) h.sound hno
  have horder := hsound.order
  rw [hpolls hpoll hready] at horder
  exact horder.all_handed.trans hsound.logged

/-- Over any inner sink and in any run that follows the contract: the inner sink is handed the
ciphertexts in the order of their sequence numbers, each of them right after it was ready; all of
them are handed to it once a flush or a close is done; and the assertion of `start_send` holds. -/
theorem records_in_order {inner : S.State} {cipher : TlsAeadCodec}
    (h : Run (step C) Contract (⟨TlsAeadSink.new inner cipher,false⟩ : DrivenSink S) d) :
    (∀ {h}, h <+: d.sink.history → SinkEvent.handed h <+: SinkEvent.queue h) ∧
    SinkEvent.queue d.sink.history = d.sink.sent.map (fun r => r.record.ciphertext) ∧
    d.sink.sent.map (·.seq) = List.range' cipher.sendSeq d.sink.sent.length ∧
    (∀ {e}, e = .pollFlush ∨ e = .pollClose → ((call C e).run d.sink).1 = .ok .ready →
      SinkEvent.handed (d.step C e).sink.history =
        (d.step C e).sink.sent.map fun r => r.record.ciphertext) ∧
    (∀ {h item answer}, h++[.startSend item answer] <+: d.sink.history →
      ∃ h', h = h'++[.pollReady (.ok .ready)]) ∧
    (d.ready = true → d.sink.buffer = []) := by
  have hinv : Inv cipher.sendSeq d := Run.invariant (fun _ _ hd he => hd.step he) h (.new inner cipher)
  exact ⟨hinv.sound.order.moments,hinv.sound.logged,hinv.sound.numbered,hinv.flushed,
    hinv.sound.order.primed,hinv.empty⟩

end

/-- A sink that is ready when its list says so, and always once the list is used up. -/
def hesitant : Sink Bytes Unit where
  State := List Bool
  pollReady answers := (.ok (if answers.headD true then .ready else .pending),answers.tail)
  startSend _ answers := (.ok (),answers)
  pollFlush answers := (.ok .ready,answers)
  pollClose answers := (.ok .ready,answers)

/-- Where the sink waits: at the first poll, and between the two records of the string. -/
def hesitantStart : DrivenSink hesitant :=
  ⟨TlsAeadSink.new (S := hesitant) [false,true,true,true,false] (sampleCodec false),false⟩

/-- A string of two records, of which the first flush hands over one. Then the keys are switched. -/
def hesitantRun : DrivenSink hesitant :=
  [SinkCall.pollReady,.pollReady,.startSend (List.replicate 32769 1),.pollFlush,
    .updateTrafficSecrets (.clientSecret ⟨List.replicate 64 5⟩) false].foldl
    (fun d e => d.step sampleCrypto e) hesitantStart

theorem records_in_order_hesitant :
    hesitantRun.sink.sent.length = 2 ∧ (SinkEvent.handed hesitantRun.sink.history).length = 1 ∧
      hesitantRun.sink.buffer.length = 1 ∧
      SinkEvent.handed (hesitantRun.step sampleCrypto .pollFlush).sink.history =
        (hesitantRun.step sampleCrypto .pollFlush).sink.sent.map fun r => r.record.ciphertext := by
  have hrun : Run (step sampleCrypto) Contract hesitantStart hesitantRun :=
    Run.ofList (by decide +kernel)
  obtain ⟨-,-,-,hflush,-⟩ := records_in_order hrun
  have hpending : hesitantRun.sink.sent.length = 2 ∧
      (SinkEvent.handed hesitantRun.sink.history).length = 1 ∧ hesitantRun.sink.buffer.length = 1 ∧
      ((call sampleCrypto .pollFlush).run hesitantRun.sink).1 = .ok .ready := by decide +kernel
  exact ⟨hpending.1,hpending.2.1,hpending.2.2.1,hflush (.inl rfl) hpending.2.2.2⟩

end DrivenSink

/-! Over a frame writer that has room for everything the sink does what `ProtectedChannels.send`
does, which knows of no waiting. -/

/-- The frame writer, with the bytes that it has written. -/
def frameWriter : Sink Bytes Unit where
  State := Bytes
  pollReady out := (.ok .ready,out)
  startSend item out := (.ok (),TlsFrameCodec.encode item out)
  pollFlush out := (.ok .ready,out)
  pollClose out := (.ok .ready,out)

namespace TlsAeadSink
variable {C : Crypto}

/-- `SinkExt::send`, polled once. -/
def send {ε : Type} {S : Sink Bytes ε} (C : Crypto) (item : Bytes) : Call S Poll := do
  match ← pollReady with
  | .pending => pure .pending
  | .ready => do
    startSend C item
    pollFlush

/-- The sink over the frame writer and the channels agree on everything that both have. -/
structure Mirrors (s : TlsAeadSink frameWriter) (p : ProtectedChannels) : Prop where
  outgoing : s.inner = p.outgoing
  cipher : s.cipher = p.cipher
  poisoned : s.poisoned = p.poisoned
  buffer : s.buffer = p.buffer
  sent : s.sent = p.sent

variable {s : TlsAeadSink frameWriter} {p : ProtectedChannels}

lemma emptyLoop_writes {b : List Bytes} (hb : s.buffer = b) :
    ∃ s', (emptyLoop b).run s = (.ok .ready,s') ∧
    s'.inner = b.foldl (fun dst x => TlsFrameCodec.encode x dst) s.inner ∧ s'.buffer = [] ∧
    s'.cipher = s.cipher ∧ s'.poisoned = s.poisoned ∧ s'.sent = s.sent := by
  induction b generalizing s with
  | nil => exact ⟨s,rfl,rfl,hb,rfl,rfl,rfl⟩
  | cons item rest ih =>
    by_cases hne : rest ≠ []
    · obtain ⟨s',hrun,h⟩ := ih (s := { s with
        inner := TlsFrameCodec.encode item s.inner
        buffer := rest
        history := s.history++[.startSend item (.ok ())]++[.pollReady (.ok .ready)] }) rfl
      refine ⟨s',?_,h⟩
      rw [← hrun,emptyLoop,if_pos hne]
      rfl
    · obtain ⟨s',hrun,h⟩ := ih (s := { s with
        inner := TlsFrameCodec.encode item s.inner
        buffer := rest
        history := s.history++[.startSend item (.ok ())] }) rfl
      refine ⟨s',?_,h⟩
      rw [← hrun,emptyLoop,if_neg hne]
      rfl

lemma Mirrors.tryEmptyBuffer (h : Mirrors s p) : ∃ s' p',
    (TlsAeadSink.tryEmptyBuffer).run s = (.ok .ready,s') ∧
    ProtectedChannels.tryEmptyBuffer.run p = (.ok (),p') ∧ Mirrors s' p' ∧ s'.buffer = [] := by
  obtain ⟨s',hrun,hinner,hbuffer,hcipher,hpoisoned,hsent⟩ := emptyLoop_writes
    (s := { s with history := s.history++[.pollReady (.ok .ready)] }) rfl
  refine ⟨s',_,hrun,rfl,⟨?_,hcipher.trans h.cipher,hpoisoned.trans h.poisoned,hbuffer,
    hsent.trans h.sent⟩,hbuffer⟩
  rw [hinner,h.buffer,h.outgoing]

lemma Mirrors.poll (h : Mirrors s p) (e : SinkEvent Bytes Unit) :
    Mirrors { s with history := s.history++[e] } p :=
  ⟨h.outgoing,h.cipher,h.poisoned,h.buffer,h.sent⟩

lemma Mirrors.startSend (h : Mirrors s p) (hb : s.buffer = []) (C : Crypto) (item : Bytes) :
    ((TlsAeadSink.startSend C item).run s).1 = ((ProtectedChannels.startSend C item).run p).1 ∧
      Mirrors ((TlsAeadSink.startSend C item).run s).2 ((ProtectedChannels.startSend C item).run p).2 := by
  simp only [TlsAeadSink.startSend,ProtectedChannels.startSend]
  rw [if_neg (by simp [hb]),h.poisoned,h.cipher,h.buffer]
  split_ifs with hp
  · exact ⟨rfl,h⟩
  · rcases (encrypt C item).run (p.cipher,p.buffer) with ⟨(e | _) | u,c,b⟩
    · exact ⟨rfl,h.outgoing,rfl,rfl,rfl,by rw [h.sent]⟩
    · exact ⟨rfl,h.outgoing,rfl,rfl,rfl,by rw [h.sent]⟩
    · exact ⟨rfl,h.outgoing,rfl,rfl,rfl,by rw [h.sent]⟩

/-- Where nothing has to wait, sending over the polled sink is sending over the channels. -/
theorem Mirrors.send (h : Mirrors s p) (C : Crypto) (item : Bytes) :
    ((TlsAeadSink.send C item).run s).1 =
        ((ProtectedChannels.send C item).run p).1.map (fun _ => Poll.ready) ∧
      Mirrors ((TlsAeadSink.send C item).run s).2 ((ProtectedChannels.send C item).run p).2 := by
  obtain ⟨s₁,p₁,hs₁,hp₁,h₁,hb₁⟩ := h.tryEmptyBuffer
  have hready : (TlsAeadSink.pollReady).run s =
      (.ok .ready,{ s₁ with history := s₁.history++[.pollReady (.ok .ready)] }) := by
    rw [TlsAeadSink.pollReady,Exec.bind_of_ok hs₁]
    rfl
  obtain ⟨hresult,h₂⟩ := (h₁.poll (.pollReady (.ok .ready))).startSend hb₁ C item
  rw [TlsAeadSink.send,Exec.bind_of_ok hready,ProtectedChannels.send,Exec.bind_of_ok hp₁]
  rcases hs₂ : (TlsAeadSink.startSend C item).run
    { s₁ with history := s₁.history++[.pollReady (.ok .ready)] } with ⟨f | u,s₂⟩
  · rcases hp₂ : (ProtectedChannels.startSend C item).run p₁ with ⟨f' | u',p₂⟩
    · rw [hs₂,hp₂] at hresult h₂
      simp only [Exec.bind_run,hs₂,hp₂]
      exact ⟨congrArg Except.error (Except.error.inj hresult),h₂⟩
    · rw [hs₂,hp₂] at hresult
      cases hresult
  · rcases hp₂ : (ProtectedChannels.startSend C item).run p₁ with ⟨f' | u',p₂⟩
    · rw [hs₂,hp₂] at hresult
      cases hresult
    · rw [hs₂,hp₂] at h₂
      obtain ⟨s₃,p₃,hs₃,hp₃,h₃,-⟩ := h₂.tryEmptyBuffer
      have hflush : (TlsAeadSink.pollFlush).run s₂ =
          (.ok .ready,{ s₃ with history := s₃.history++[.pollFlush (.ok .ready)] }) := by
        rw [TlsAeadSink.pollFlush,Exec.bind_of_ok hs₃]
        rfl
      simp only [Exec.bind_run,hs₂,hp₂,hflush,hp₃]
      exact ⟨rfl,h₃.poll _⟩

end TlsAeadSink
end MlsTls.TlsAead
