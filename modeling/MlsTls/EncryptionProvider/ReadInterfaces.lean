import MlsTls.EncryptionProvider.Provider

/-! The two ways to read. `read_bytes` loops until there is application data; its callers may also
take the messages one by one with `read_message` and hand each to `process_read_message`. The second
way is written down here as a relation, call after call, and the loop is shown to compute exactly
what it relates: the same result, and the same state of the handshake and of the channels. -/
set_option linter.dupNamespace false

namespace MlsTls.EncryptionProvider
open Lib TlsAead MlsHandshake

namespace ProtectedChannels
variable {E α : Type} {i : Bytes}

/-- Nothing is taken from what has arrived. -/
abbrev Unread (i : Bytes) (s : ProtectedChannels) : Prop := s.incoming = i

lemma lock_unread (x : Exec TlsAeadCodec TlsAeadCodecError α) :
    Exec.Keeps (Unread i) (ProtectedChannels.lock x) fun _ => True :=
  ProtectedChannels.lock_keeps x fun _ _ _ hs => hs

lemma sendPlaintext_unread (C : Crypto) (item : InnerPlaintext) :
    Exec.Keeps (Unread i) (sendPlaintext C item : ProviderCall E Unit) fun _ => True := by
  refine .bind .orThrow fun bytes _ => .mapError ?_
  have hstart : Exec.Keeps (Unread i) (ProtectedChannels.startSend C bytes) fun _ => True :=
    ProtectedChannels.startSend_keeps C bytes fun _ _ _ _ _ hs => hs
  refine .bind (.modify fun s hs => hs) fun _ _ => ?_
  exact .bind hstart fun _ _ => .modify fun s hs => hs

lemma updateCipher_unread (C : Crypto) (isServer : Bool) (update : SecretUpdate) :
    Exec.Keeps (Unread i) (updateCipher C isServer update : ProviderCall E Unit) fun _ => True :=
  .bind (.mapError (lock_unread _)) fun _ _ => .mapError (lock_unread _)

lemma nextPlaintext_shrinks {C : Crypto} {s s' : ProtectedChannels} {m : InnerPlaintext}
    (h : (nextPlaintext C : ProviderCall E _).run s = (.ok (some m),s')) :
    s'.incoming.length < s.incoming.length := by
  obtain ⟨packet,s₁,hnext,hrest⟩ := Exec.bind_eq_ok.mp h
  rw [Exec.mapError_eq_ok] at hnext
  cases packet with
  | none => simp at hrest
  | some packet =>
    obtain ⟨⟨m',r⟩,s₂,hparse,hpure⟩ := Exec.bind_eq_ok.mp hrest
    obtain ⟨-,rfl⟩ := Exec.orThrow_eq_ok.mp hparse
    obtain rfl := (Prod.mk.inj hpure).2
    cases hd : TlsFrameCodec.decode s.incoming with
    | none => simp [ProtectedChannels.next,Exec.bind_run,hd] at hnext
    | some q =>
      obtain ⟨frame,rest⟩ := q
      have hlock := lock_unread (i := rest) (TlsAeadCodec.decrypt C frame.data frame.header)
      simp only [ProtectedChannels.next,Exec.bind_eq_ok,Exec.get_run,Prod.mk.injEq,Except.ok.injEq,
        ProtectedChannels.logReceived] at hnext
      obtain ⟨_,_,⟨rfl,rfl⟩,hnext⟩ := hnext
      simp only [hd,Exec.bind_eq_ok,Exec.modify_run,Prod.mk.injEq] at hnext
      obtain ⟨_,_,⟨-,rfl⟩,_,_,⟨-,rfl⟩,plaintext,s₃,hrun,hpure⟩ := hnext
      obtain rfl := (Prod.mk.inj hpure).2
      have hrest : s₃.incoming = rest := by
        refine hlock.state ?_ hrun
        rfl
      rw [hrest]
      exact TlsFrameCodec.decode_stable.shrinks hd

end ProtectedChannels

namespace EncryptionProvider
variable {M : OpenMls} {V : Environment M} {isServer : Bool}

/-- Reading and processing one message after the other, until there is application data, an error or
the end of the stream: the result, and the provider after the last call. -/
inductive ReadsUntil (V : Environment M) (isServer : Bool) : ℕ → EncryptionProvider M V.chrono →
    Outcome (EncryptionProviderError M.Error) (Option Bytes) × EncryptionProvider M V.chrono → Prop
  | readFails {seed p p' f} : (readMessage V).run p = (.error f,p') →
      ReadsUntil V isServer seed p (.error f,p')
  | ends {seed p p'} : (readMessage V).run p = (.ok none,p') →
      ReadsUntil V isServer seed p (.ok none,p')
  | processFails {seed p p₁ p' m f} : (readMessage V).run p = (.ok (some m),p₁) →
      (processReadMessage V isServer m seed).run p₁ = (.error f,p') →
      ReadsUntil V isServer seed p (.error f,p')
  | bytes {seed p p₁ p' m b} : (readMessage V).run p = (.ok (some m),p₁) →
      (processReadMessage V isServer m seed).run p₁ = (.ok (some b),p') →
      ReadsUntil V isServer seed p (.ok (some b),p')
  | again {seed p p₁ p₂ m r} : (readMessage V).run p = (.ok (some m),p₁) →
      (processReadMessage V isServer m seed).run p₁ = (.ok none,p₂) →
      ReadsUntil V isServer (seed+1) p₂ r → ReadsUntil V isServer seed p r

lemma readsUntil_iff {seed : ℕ} {p : EncryptionProvider M V.chrono}
    {r : Outcome (EncryptionProviderError M.Error) (Option Bytes) × EncryptionProvider M V.chrono} :
    ReadsUntil V isServer seed p r ↔ match (readMessage V).run p with
      | (.error f,p') => r = (.error f,p')
      | (.ok none,p') => r = (.ok none,p')
      | (.ok (some m),p₁) => match (processReadMessage V isServer m seed).run p₁ with
        | (.error f,p') => r = (.error f,p')
        | (.ok (some b),p') => r = (.ok (some b),p')
        | (.ok none,p₂) => ReadsUntil V isServer (seed+1) p₂ r := by
  constructor
  · intro h
    cases h with
    | readFails hr => simp only [hr]
    | ends hr => simp only [hr]
    | processFails hr hp => simp only [hr,hp]
    | bytes hr hp => simp only [hr,hp]
    | again hr hp h => simpa only [hr,hp] using h
  · intro h
    rcases hr : (readMessage V).run p with ⟨f | _ | m,p₁⟩
    · simp only [hr] at h
      exact h ▸ .readFails hr
    · simp only [hr] at h
      exact h ▸ .ends hr
    · rcases hp : (processReadMessage V isServer m seed).run p₁ with ⟨f | _ | b,p₂⟩
      · simp only [hr,hp] at h
        exact h ▸ .processFails hr hp
      · simp only [hr,hp] at h
        exact .again hr hp h
      · simp only [hr,hp] at h
        exact h ▸ .bytes hr hp

lemma readMessage_shrinks {p p' : EncryptionProvider M V.chrono} {m : InnerPlaintext}
    (h : (readMessage V).run p = (.ok (some m),p')) :
    p'.channels.incoming.length < p.channels.incoming.length := by
  rw [readMessage,onChannels] at h
  obtain ⟨s,hs,rfl⟩ := Exec.zoom_eq_ok.mp h
  exact ProtectedChannels.nextPlaintext_shrinks hs

lemma answer_unread (secretUpdate : Option SecretUpdate) (response : Option Bytes) {i : Bytes} :
    Exec.Keeps (fun p => p.channels.incoming = i) (answer V isServer secretUpdate response)
      fun _ => True := by
  have hchannels {α : Type} {x : ProtectedChannels.ProviderCall M.Error α} {Q : α → Prop}
      (hx : Exec.Keeps (ProtectedChannels.Unread i) x Q) :
      Exec.Keeps (fun p => p.channels.incoming = i) (onChannels x : Call V α) Q :=
    .zoom (fun p : EncryptionProvider M V.chrono => p.channels) (fun c p => { p with channels := c })
      (fun _ _ => rfl) hx
  exact answer_keeps V isServer
    (fun message => hchannels (ProtectedChannels.sendPlaintext_unread V.crypto (.signaling message)))
    (fun update => hchannels (ProtectedChannels.updateCipher_unread V.crypto isServer update))
    secretUpdate response

lemma processReadMessage_unread (m : InnerPlaintext) (seed : ℕ) {i : Bytes} :
    Exec.Keeps (fun p => p.channels.incoming = i) (processReadMessage V isServer m seed)
      fun _ => True := by
  cases m with
  | application b => exact .pure trivial
  | signaling message =>
    have hhandshake : Exec.Keeps (fun p => p.channels.incoming = i) (onHandshake (V := V)
        (MlsHandshake.processSignalingMessage V.serde message seed)) fun _ => True := by
      intro p hp
      rcases h : (onHandshake (V := V) (MlsHandshake.processSignalingMessage V.serde message seed)).run p
        with ⟨f | r,p'⟩
      · obtain rfl := (Prod.mk.inj h).2
        exact hp
      · obtain rfl := (Prod.mk.inj h).2
        exact ⟨hp,trivial⟩
    exact .bind (.mapError hhandshake) fun r _ =>
      .bind (answer_unread r.1 r.2) fun _ _ => .pure trivial

/-- What has arrived bounds the number of turns: with more of them, the loop computes what the calls
one after the other do. -/
theorem read_interfaces_agree (p : EncryptionProvider M V.chrono) (seed turns : ℕ)
    (r : Outcome (EncryptionProviderError M.Error) (Option Bytes) × EncryptionProvider M V.chrono) :
    ReadsUntil V isServer seed p r ↔
      r = (readBytesInner V isServer (p.channels.incoming.length+1+turns) seed).run p := by
  generalize hn : p.channels.incoming.length+turns = n
  rw [show p.channels.incoming.length+1+turns = n+1 by omega]
  have hle : p.channels.incoming.length ≤ n := by omega
  clear hn
  induction n using Nat.strong_induction_on generalizing seed p with
  | h n ih =>
    rw [readsUntil_iff,readBytesInner_succ,Exec.bind_run]
    rcases hr : (readMessage V).run p with ⟨f | _ | m,p₁⟩
    · rfl
    · rfl
    · simp only [Exec.bind_run]
      rcases hp : (processReadMessage V isServer m seed).run p₁ with ⟨f | _ | b,p₂⟩
      · rfl
      · -- one message less has arrived, so that there is a turn left
        have hread := readMessage_shrinks hr
        have hsame : p₂.channels.incoming = p₁.channels.incoming :=
          (processReadMessage_unread m seed).state rfl hp
        cases n with
        | zero => omega
        | succ n => exact ih n (Nat.lt_succ_self n) p₂ (seed+1) (by rw [hsame]; omega)
      · rfl

end EncryptionProvider
end MlsTls.EncryptionProvider
