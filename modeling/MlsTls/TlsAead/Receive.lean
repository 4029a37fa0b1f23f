import MlsTls.Lib.Exec
import MlsTls.TlsAead.StreamSink

/-! Receiving whatever the network delivers. The frame decoder, the nonce computation and the
removal of the type byte are written out with their indices and subtractions, each of which would
panic out of range. All of them stay in range but one: a record that opens to the empty string
has no type byte to remove. A peer with the keys can seal such a record. -/
namespace MlsTls.TlsAead
open Lib

/-- `TlsFrameCodec::decode` with its indices. -/
def TlsFrameCodec.decodeSlices {ε : Type} (src : Bytes) :
    Outcome ε (Option (TlsPacketIn × Bytes)) :=
  if src.length < tlsHdrSize then .ok none
  else do
    let field ← slice src 3 5
    if src.length < ofBe field+tlsHdrSize then .ok none
    else
      let (header,src) ← splitTo src tlsHdrSize
      let (data,src) ← splitTo src (ofBe field)
      .ok (some (⟨header,data⟩,src))

theorem TlsFrameCodec.decodeSlices_eq {ε : Type} (src : Bytes) :
    (decodeSlices src : Outcome ε _) = .ok (decode src) := by
  unfold decodeSlices decode
  by_cases h : src.length < tlsHdrSize
  · simp only [if_pos h]
  · have hhdr : tlsHdrSize ≤ src.length := Nat.not_lt.mp h
    have hfield : (slice src 3 5 : Outcome ε _) = .ok ((src.drop 3).take 2) :=
      slice_ok (by omega) hhdr
    simp only [if_neg h,hfield,bind,Except.bind]
    by_cases hl : src.length < ofBe ((src.drop 3).take 2)+tlsHdrSize
    · rw [if_pos hl,if_pos hl]
    · have hdata : ofBe ((src.drop 3).take 2) ≤ (src.drop tlsHdrSize).length := by
        rw [List.length_drop]
        omega
      rw [if_neg hl,if_neg hl,splitTo_ok hhdr]
      simp only [splitTo_ok hdata]

namespace TlsAeadCodec

/-- The loop of `make_iv` with its indices. -/
def xorSlices {ε : Type} (len : ℕ) : Bytes → ℕ → Bytes → Outcome ε Bytes
  | [],_,ret => .ok ret
  | byte::bytes,i,ret => do
    let last ← checkedSub len 1
    let idx ← checkedSub last i
    let ret ← updateAt ret idx (· ^^^ byte)
    xorSlices len bytes (i+1) ret

def makeIvSlices (iv : Bytes) (seq : ℕ) : Outcome CryptoError Bytes :=
  if iv.length = tls13IvSize then xorSlices iv.length (leBytes 8 seq) 0 iv
  else .error (.error .invalidLength)

/-- `decrypt` with its indices. -/
def decryptSlices (C : Crypto) (ciphertext associatedData : Bytes) :
    Exec TlsAeadCodec TlsAeadCodecError Bytes := ⟨fun c =>
  match makeIvSlices c.recvIv c.recvSeq with
  | .error .panic => (.error .panic,c)
  | .error (.error e) => (.error (.error (.cryptoError e)),c)
  | .ok nonce =>
    match C.aeadDecrypt c.cipher c.recvKey ciphertext nonce associatedData with
    | .error e => (.error (.error (.cryptoError e)),c)
    | .ok msg =>
      if c.recvSeq+1 < u64Size then (do
        let padding ← checkedSub msg.length 1
        slice msg 0 padding,c.bumpRecv)
      else (.error .panic,c)⟩

lemma xorSlices_eq {ε : Type} {len : ℕ} {bytes : Bytes} {i : ℕ} {ret : Bytes}
    (hret : ret.length = len) (hi : i+bytes.length ≤ len) :
    (xorSlices len bytes i ret : Outcome ε _) = .ok (xorFromEnd len bytes i ret) := by
  induction bytes generalizing i ret with
  | nil => rfl
  | cons b bs ih =>
    simp only [List.length_cons] at hi
    rw [xorSlices,xorFromEnd,checkedSub_ok (by omega)]
    simp only [bind,Except.bind]
    rw [checkedSub_ok (by omega)]
    simp only
    rw [updateAt_ok (by omega)]
    exact ih (by rw [List.length_modify,hret]) (by omega)

lemma makeIvSlices_eq (iv : Bytes) (seq : ℕ) :
    makeIvSlices iv seq = (makeIv iv seq).mapError Fault.error := by
  -- the IV has twelve bytes and the number eight, so every position is in range
  unfold makeIvSlices makeIv
  split_ifs with h
  · exact xorSlices_eq rfl (by simp [h,tls13IvSize])
  · rfl

theorem decryptSlices_eq (C : Crypto) (ciphertext ad : Bytes) :
    decryptSlices C ciphertext ad = decrypt C ciphertext ad := by
  apply congrArg Exec.mk
  funext c
  rw [makeIvSlices_eq]
  cases makeIv c.recvIv c.recvSeq with
  | error e => rfl
  | ok nonce =>
    simp only [Except.mapError]
    cases C.aeadDecrypt c.cipher c.recvKey ciphertext nonce ad with
    | error e => rfl
    | ok msg =>
      by_cases hs : c.recvSeq+1 < u64Size
      · simp only [if_pos hs]
        by_cases hp : msg = []
        · subst hp
          rfl
        · have hpos := List.length_pos_iff.mpr hp
          rw [checkedSub_ok hpos,if_neg hp]
          simp only [bind,Except.bind]
          rw [slice_ok (Nat.zero_le _) (Nat.sub_le _ _),List.drop_zero,Nat.sub_zero,
            List.dropLast_eq_take]
      · simp only [if_neg hs]

end TlsAeadCodec

namespace ProtectedChannels
open TlsAeadCodec

/-- `poll_next`, with every index of what it runs; `none` while no complete frame has arrived. -/
def pollNext (C : Crypto) : Call (Option TlsPacketIn) := do
  let s ← Exec.get
  let decoded ← Exec.ofOutcome (TlsFrameCodec.decodeSlices s.incoming)
  match decoded with
  | none => pure none
  | some (packet,rest) => do
    Exec.modify fun s => { s with incoming := rest }
    logReceived packet
    let plaintext ← lock (decryptSlices C packet.data packet.header)
    pure (some ⟨packet.header,plaintext⟩)

theorem pollNext_eq (C : Crypto) : pollNext C = next C := by
  apply congrArg Exec.mk
  funext s
  simp only [Exec.get_run,Exec.ofOutcome,TlsFrameCodec.decodeSlices_eq,decryptSlices_eq]
  rfl

/-- Poll until no complete frame is left, and collect what every poll returned. -/
def pollAll (C : Crypto) : ℕ → ProtectedChannels →
    List (Outcome TlsAeadSinkError (Option TlsPacketIn)) × ProtectedChannels
  | 0,s => ([],s)
  | n+1,s =>
    match (pollNext C).run s with
    | (.ok none,s) => ([],s)
    | (r,s) => (r::(pollAll C n s).1,(pollAll C n s).2)

/-- The polls while a stream arrives in pieces. -/
def receive (C : Crypto) : List Bytes → ProtectedChannels →
    List (Outcome TlsAeadSinkError (Option TlsPacketIn)) × ProtectedChannels
  | [],s => ([],s)
  | piece::pieces,s =>
    let polled := pollAll C (s.incoming++piece).length { s with incoming := s.incoming++piece }
    (polled.1++(receive C pieces polled.2).1,(receive C pieces polled.2).2)

/-- What a packet opens to under the current receive key and the nonce of its turn. -/
def opening (C : Crypto) (c : TlsAeadCodec) (packet : TlsPacketIn) : Except CryptoError Bytes := do
  let nonce ← makeIv c.recvIv c.recvSeq
  C.aeadDecrypt c.cipher c.recvKey packet.data nonce packet.header

/-- A packet that opens takes up a sequence number, any other one does not. -/
def turn (C : Crypto) (c : TlsAeadCodec) (packet : TlsPacketIn) : TlsAeadCodec :=
  match opening C c packet with
  | .ok _ => c.bumpRecv
  | .error _ => c

/-- No packet opens, in its turn, to the empty string or at the last sequence number. -/
def Readable (C : Crypto) : TlsAeadCodec → List TlsPacketIn → Prop
  | _,[] => True
  | c,packet::packets =>
    (∀ msg, opening C c packet = .ok msg → msg ≠ [] ∧ c.recvSeq+1 < u64Size) ∧
      Readable C (turn C c packet) packets

/-- No poll has panicked. -/
def Survives (results : List (Outcome TlsAeadSinkError (Option TlsPacketIn))) : Prop :=
  ∀ r ∈ results, r ≠ .error .panic

lemma readable_append {C : Crypto} {c : TlsAeadCodec} {xs ys : List TlsPacketIn} :
    Readable C c (xs++ys) ↔ Readable C c xs ∧ Readable C (xs.foldl (turn C) c) ys := by
  induction xs generalizing c with
  | nil => simp [Readable]
  | cons x xs ih => rw [List.cons_append,Readable,Readable,ih,and_assoc,List.foldl_cons]

lemma decrypt_run (C : Crypto) (c : TlsAeadCodec) (packet : TlsPacketIn) :
    (decrypt C packet.data packet.header).run c = match opening C c packet with
      | .error e => (.error (.error (.cryptoError e)),c)
      | .ok msg =>
        if c.recvSeq+1 < u64Size then
          if msg = [] then (.error .panic,c.bumpRecv) else (.ok msg.dropLast,c.bumpRecv)
        else (.error .panic,c) := by
  simp only [decrypt,opening]
  cases makeIv c.recvIv c.recvSeq with
  | error e => rfl
  | ok nonce => rfl

lemma next_poisoned {C : Crypto} {s : ProtectedChannels} (hs : s.poisoned = true) :
    ((next C).run s).1 ≠ .error .panic ∧ ((next C).run s).2.poisoned = true := by
  cases hd : TlsFrameCodec.decode s.incoming with
  | none => simp [next,Exec.bind_run,hd,hs]
  | some p => simp [next,Exec.bind_run,hd,hs,logReceived,lock]

lemma next_frame {C : Crypto} {s : ProtectedChannels} (hs : s.poisoned = false)
    {packet : TlsPacketIn} {rest : Bytes}
    (hd : TlsFrameCodec.decode s.incoming = some (packet,rest)) :
    ((next C).run s).2.incoming = rest ∧ ((next C).run s).1 ≠ .ok none ∧
      (((next C).run s).1 ≠ .error .panic ↔
        ∀ msg, opening C s.cipher packet = .ok msg → msg ≠ [] ∧ s.cipher.recvSeq+1 < u64Size) ∧
      (((next C).run s).1 ≠ .error .panic → ((next C).run s).2.poisoned = false ∧
        ((next C).run s).2.cipher = turn C s.cipher packet) := by
  -- a poll that finds a frame panics exactly if the frame's packet is not readable; otherwise the
  -- frame has had its turn
  simp only [next,Exec.bind_run,Exec.get_run,hd,Exec.modify_run,logReceived,lock,hs,decrypt_run,
    turn,Bool.false_eq_true,if_false]
  cases ho : opening C s.cipher packet with
  | error e => simp
  | ok msg =>
    by_cases hseq : s.cipher.recvSeq+1 < u64Size
    · by_cases hmsg : msg = []
      · simp [hseq,hmsg]
      · simp [hseq,hmsg]
    · simp [hseq]

lemma pollAll_waiting {C : Crypto} {s : ProtectedChannels}
    (h : TlsFrameCodec.decode s.incoming = none) (n : ℕ) : pollAll C n s = ([],s) := by
  cases n with
  | zero => rfl
  | succ n => rw [pollAll,pollNext_eq,next_pending C h]

lemma pollAll_frame {C : Crypto} {s : ProtectedChannels} (h : ((next C).run s).1 ≠ .ok none)
    (n : ℕ) : pollAll C (n+1) s =
      (((next C).run s).1::(pollAll C n ((next C).run s).2).1,
        (pollAll C n ((next C).run s).2).2) := by
  rw [pollAll,pollNext_eq]
  rcases hr : (next C).run s with ⟨r,s'⟩
  rw [hr] at h
  split
  · rename_i heq
    exact absurd (Prod.mk.inj heq).1 h
  · rename_i heq
    obtain ⟨rfl,rfl⟩ := Prod.mk.inj heq
    rfl

lemma pollAll_spec {C : Crypto} {n : ℕ} {s : ProtectedChannels} (hs : s.poisoned = false)
    (hn : s.incoming.length ≤ n) :
    (Survives (pollAll C n s).1 ↔
        Readable C s.cipher (drain TlsFrameCodec.decode s.incoming).1) ∧
      (Survives (pollAll C n s).1 → (pollAll C n s).2.poisoned = false ∧
        (pollAll C n s).2.incoming = (drain TlsFrameCodec.decode s.incoming).2 ∧
        (pollAll C n s).2.cipher =
          (drain TlsFrameCodec.decode s.incoming).1.foldl (turn C) s.cipher) := by
  induction n generalizing s with
  | zero =>
    have hnil : s.incoming = [] := List.length_eq_zero_iff.mp (by omega)
    have hd : TlsFrameCodec.decode s.incoming = none := by rw [hnil]; rfl
    simp [pollAll_waiting hd,drain_none hd,Survives,Readable,hs]
  | succ n ih =>
    cases hd : TlsFrameCodec.decode s.incoming with
    | none => simp [pollAll_waiting hd,drain_none hd,Survives,Readable,hs]
    | some p =>
      obtain ⟨packet,rest⟩ := p
      have hshrink := TlsFrameCodec.decode_stable.shrinks hd
      obtain ⟨hrest,hframe,hpanic,hturn⟩ := next_frame (C := C) hs hd
      rw [pollAll_frame hframe,drain_some TlsFrameCodec.decode_stable hd]
      simp only [Survives,List.forall_mem_cons,Readable,List.foldl_cons,hpanic]
      by_cases hok : ∀ msg, opening C s.cipher packet = .ok msg →
          msg ≠ [] ∧ s.cipher.recvSeq+1 < u64Size
      · obtain ⟨hpoison,hcipher⟩ := hturn (hpanic.mpr hok)
        have ht := ih hpoison (by rw [hrest]; omega)
        rw [hrest,hcipher] at ht
        refine ⟨and_congr_right fun _ => ht.1,?_⟩
        intro h
        exact ht.2 h.2
      · exact ⟨⟨fun h => absurd h.1 hok,fun h => absurd h.1 hok⟩,fun h => absurd h.1 hok⟩

lemma pollAll_poisoned (C : Crypto) (n : ℕ) {s : ProtectedChannels} (hs : s.poisoned = true) :
    Survives (pollAll C n s).1 ∧ (pollAll C n s).2.poisoned = true := by
  induction n generalizing s with
  | zero => exact ⟨by simp [pollAll,Survives],hs⟩
  | succ n ih =>
    obtain ⟨hr,hs'⟩ := next_poisoned (C := C) hs
    by_cases h : ((next C).run s).1 = .ok none
    · rw [pollAll,pollNext_eq]
      rcases hrun : (next C).run s with ⟨r,s'⟩
      rw [hrun] at h hs'
      subst h
      exact ⟨by simp [Survives],hs'⟩
    · rw [pollAll_frame h]
      exact ⟨List.forall_mem_cons.mpr ⟨hr,(ih hs').1⟩,(ih hs').2⟩

lemma receive_poisoned (C : Crypto) (pieces : List Bytes) {s : ProtectedChannels}
    (hs : s.poisoned = true) : Survives (receive C pieces s).1 := by
  induction pieces generalizing s with
  | nil => simp [receive,Survives]
  | cons piece pieces ih =>
    obtain ⟨hpoll,hs'⟩ := pollAll_poisoned C (s.incoming++piece).length
      (s := { s with incoming := s.incoming++piece }) hs
    exact List.forall_mem_append.mpr ⟨hpoll,ih hs'⟩

/-- Whatever arrives, and however it is cut: no poll panics exactly if every packet found in it is
readable in its turn, or the lock was poisoned before. -/
theorem receive_survives_iff (C : Crypto) (pieces : List Bytes) (s : ProtectedChannels) :
    Survives (receive C pieces s).1 ↔ s.poisoned = true ∨
      Readable C s.cipher (feed TlsFrameCodec.decode s.incoming pieces).1 := by
  cases hs : s.poisoned with
  | true => simp [receive_poisoned C pieces hs]
  | false =>
    simp only [Bool.false_eq_true,false_or]
    induction pieces generalizing s with
    | nil => simp [receive,feed,Survives,Readable]
    | cons piece pieces ih =>
      obtain ⟨hiff,hpoll⟩ := pollAll_spec (C := C) (n := (s.incoming++piece).length)
        (s := { s with incoming := s.incoming++piece }) hs le_rfl
      rw [receive,feed,readable_append,← hiff]
      simp only [Survives,List.forall_mem_append]
      refine and_congr_right fun hok => ?_
      obtain ⟨hpoison,hrest,hcipher⟩ := hpoll hok
      rw [← hrest,← hcipher]
      exact ih _ hpoison

/-- The server's end of a new sample connection. -/
def sampleServer : ProtectedChannels := ⟨sampleCodec true,false,[],[],[],[],[]⟩

/-- The empty string, sealed by the sample client as its first record. -/
def emptyRecord : Bytes :=
  match sampleCrypto.aeadEncrypt .aes256Gcm (sampleCodec false).sendKey []
      (nonceOf (sampleCodec false).sendIv 0) (TlsFrameCodec.header 16) with
  | .ok ciphertext => TlsFrameCodec.frame ciphertext
  | .error _ => []

/-- The empty record makes the server panic, and its lock is poisoned from then on. -/
theorem receive_emptyRecord :
    (receive sampleCrypto [emptyRecord] sampleServer).1 = [.error .panic] ∧
      (receive sampleCrypto [emptyRecord] sampleServer).2.poisoned = true ∧
      ¬ Survives (receive sampleCrypto [emptyRecord] sampleServer).1 := by
  have h : (receive sampleCrypto [emptyRecord] sampleServer).1 = [.error .panic] := by
    decide +kernel
  refine ⟨h,by decide +kernel,?_⟩
  intro hs
  rw [h] at hs
  exact hs _ (by simp) rfl

end ProtectedChannels
end MlsTls.TlsAead
