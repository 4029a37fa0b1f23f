import MlsTls.EncryptionProvider.Provider

/-! Sink and stream of the provider over a whole connection. A value whose encoding does not fit
one record is cut into several records, and the stream parses every record on its own. -/
namespace MlsTls.EncryptionProvider
open Lib TlsAead MlsHandshake TlsAeadCodec

theorem InnerPlaintext.wire_lawful : InnerPlaintext.wire.Lawful := by
  refine Wire.enum_lawful ?_ (by simp)
  simp only [List.mem_cons,List.not_mem_nil,or_false,forall_eq_or_imp,forall_eq]
  refine ⟨⟨Wire.vec_lawful,fun _ => rfl,?_⟩,⟨Wire.vec_lawful,fun _ => rfl,?_⟩⟩ <;>
  · rintro (_ | _) _ h <;> simp at h ⊢
    exact h.symm

lemma InnerPlaintext.enc_ne_nil {m : InnerPlaintext} {e : Bytes} (h : wire.enc m = some e) :
    e ≠ [] := by
  rintro rfl
  have hd := wire_lawful.dec_enc h []
  simp [wire,Wire.enum,Wire.word] at hd

namespace ProtectedChannels
variable (C : Crypto) (E : Type)

/-- What the stream yields for one decrypted record. What cannot be decoded is an error, also a
length prefix that a debug assertion of the decoder would stop at. -/
def parse (chunk : Bytes) : Outcome (EncryptionProviderError E) InnerPlaintext :=
  match InnerPlaintext.wire.dec chunk with
  | some (m,_) => .ok m
  | none => .error (.error .codecError)

def sendAll : List InnerPlaintext → ProviderCall E Unit
  | [] => pure ()
  | m::ms => do
    sendPlaintext C m
    sendAll ms

/-- Items of the stream until it has to wait, errors among them. -/
def collect : ℕ → ProtectedChannels →
    List (Outcome (EncryptionProviderError E) InnerPlaintext) × ProtectedChannels
  | 0,s => ([],s)
  | n+1,s =>
    match (nextPlaintext C : ProviderCall E _).run s with
    | (.ok none,s') => ([],s')
    | (.ok (some m),s') => (.ok m::(collect n s').1,(collect n s').2)
    | (.error e,s') => (.error e::(collect n s').1,(collect n s').2)

def arrive (piece : Bytes) (s : ProtectedChannels) : ProtectedChannels :=
  { s with incoming := s.incoming++piece }

/-- Everything the stream yields while the pieces arrive one after the other. -/
def yields : List Bytes → ProtectedChannels →
    List (Outcome (EncryptionProviderError E) InnerPlaintext)
  | [],_ => []
  | piece::pieces,s =>
    let r := collect C E (arrive piece s).incoming.length (arrive piece s)
    r.1++yields pieces r.2

/-- The chunks `xs` are on their way to this reader, with `w` still to arrive. -/
def Expects (xs : List Bytes) (w : Bytes) (s : ProtectedChannels) : Prop :=
  s.poisoned = false ∧ ∃ a : TlsAeadCodec, a.WellKeyed ∧ SendsTo a s.cipher ∧
    a.sendSeq+xs.length < u64Size ∧ (∀ x ∈ xs, x.length ≤ tlsMaxRecordSize) ∧
    s.incoming++w = ((sealedRecords C xs a).map SealedRecord.bytes).flatten

section
variable {C} {E} (hC : C.Lawful)
include hC

lemma Expects.next {xs : List Bytes} {w : Bytes} {s : ProtectedChannels}
    (h : Expects C xs w s) :
    ((nextPlaintext C : ProviderCall E _).run s = (.ok none,s) ∧
      TlsFrameCodec.decode s.incoming = none) ∨
    ∃ x xs' s', xs = x::xs' ∧
      (nextPlaintext C : ProviderCall E _).run s = ((parse E x).map some,s') ∧
      Expects C xs' w s' ∧ s'.incoming.length < s.incoming.length := by
  have hwait (hd : TlsFrameCodec.decode s.incoming = none) :
      (nextPlaintext C : ProviderCall E _).run s = (.ok none,s) := by
    simp [nextPlaintext,Exec.bind_run,Exec.mapError,ProtectedChannels.next_pending C hd]
  obtain ⟨hp,a,ha,hab,hseq,hxs,hw⟩ := h
  cases xs with
  | nil =>
    have hnil : s.incoming = [] := (List.append_eq_nil_iff.mp hw).1
    have hd : TlsFrameCodec.decode s.incoming = none := by rw [hnil,TlsFrameCodec.decode_nil]
    exact Or.inl ⟨hwait hd,hd⟩
  | cons x xs =>
    rw [List.length_cons] at hseq
    obtain ⟨r,hr⟩ := sealChunk_ok hC ha (hxs x (by simp))
    rw [sealedRecords_cons hr (by omega),List.map_cons,List.flatten_cons] at hw
    rcases ProtectedChannels.next_run hC hp hab (hxs x (by simp)) hr (by omega) hw with
      hd | ⟨rest,hrest,hlt,hrun⟩
    · exact Or.inl ⟨hwait hd,hd⟩
    · refine Or.inr ⟨x,xs,s.afterNext rest r.packet,rfl,?_,⟨hp,a.bumpSend,ha.setSendSeq _,hab.bump,
        ?_,fun y hy => hxs y (by simp [hy]),hrest⟩,hlt⟩
      · simp only [nextPlaintext,Exec.bind_run,Exec.mapError,hrun,parse]
        cases InnerPlaintext.wire.dec x with
        | none => rfl
        | some q => rfl
      · rw [bumpSend,setSendSeq_sendSeq]
        omega

lemma Expects.collect {n : ℕ} {xs : List Bytes} {w : Bytes} {s : ProtectedChannels}
    (h : Expects C xs w s) (hn : s.incoming.length ≤ n) :
    ∃ xs₁ xs₂, xs = xs₁++xs₂ ∧ (collect C E n s).1 = xs₁.map (parse E) ∧
      Expects C xs₂ w (collect C E n s).2 ∧
      TlsFrameCodec.decode (collect C E n s).2.incoming = none := by
  induction n generalizing xs s with
  | zero =>
    have hnil : s.incoming = [] := List.length_eq_zero_iff.mp (Nat.le_zero.mp hn)
    exact ⟨[],xs,rfl,rfl,h,by rw [ProtectedChannels.collect,hnil,TlsFrameCodec.decode_nil]⟩
  | succ n ih =>
    rcases h.next (E := E) hC with ⟨hrun,hd⟩ | ⟨x,xs',s',rfl,hrun,hs',hlt⟩
    · simp only [ProtectedChannels.collect,hrun]
      exact ⟨[],xs,rfl,rfl,h,hd⟩
    · obtain ⟨xs₁,xs₂,rfl,h₁,h₂,hd⟩ := ih hs' (by omega)
      refine ⟨x::xs₁,xs₂,rfl,?_⟩
      rw [List.map_cons,← h₁]
      simp only [ProtectedChannels.collect,hrun]
      cases parse E x with
      | ok m => exact ⟨rfl,h₂,hd⟩
      | error e => exact ⟨rfl,h₂,hd⟩

/-- However the stream is cut, every record yields one item. -/
theorem Expects.yields {pieces : List Bytes} {xs : List Bytes} {s : ProtectedChannels}
    (h : Expects C xs pieces.flatten s) (hd : TlsFrameCodec.decode s.incoming = none) :
    yields C E pieces s = xs.map (parse E) := by
  induction pieces generalizing xs s with
  | nil =>
    obtain ⟨hp,a,ha,hab,hseq,hxs,hw⟩ := h
    cases xs with
    | nil => rfl
    | cons x xs =>
      -- with everything arrived, a record that is left would be a complete frame
      obtain ⟨r,hr⟩ := sealChunk_ok hC ha (hxs x (by simp))
      rw [List.length_cons] at hseq
      have hlt : r.ciphertext.length < 2^16 := by
        apply ciphertext_length_lt hC hxs
        rw [sealedRecords_cons hr (by omega)]
        exact List.mem_cons_self
      rw [List.flatten_nil,List.append_nil,sealedRecords_cons hr (by omega),List.map_cons,
        List.flatten_cons] at hw
      rw [hw,SealedRecord.bytes,TlsFrameCodec.decode_frame hlt] at hd
      simp at hd
  | cons piece pieces ih =>
    have harrive : Expects C xs pieces.flatten (arrive piece s) := by
      obtain ⟨hp,a,ha,hab,hseq,hxs,hw⟩ := h
      rw [List.flatten_cons,← List.append_assoc] at hw
      exact ⟨hp,a,ha,hab,hseq,hxs,hw⟩
    obtain ⟨xs₁,xs₂,rfl,h₁,h₂,hd'⟩ := harrive.collect (E := E) hC le_rfl
    rw [ProtectedChannels.yields,List.map_append,h₁,ih h₂ hd']

lemma sendPlaintext_run {s : ProtectedChannels} (hs : s.Clean) (hk : s.cipher.WellKeyed)
    {m : InnerPlaintext} {e : Bytes} (he : InnerPlaintext.wire.enc m = some e)
    (hseq : s.cipher.sendSeq+(chunks tlsMaxRecordSize e).length < u64Size) :
    (sendPlaintext C m : ProviderCall E _).run s = (.ok (),s.afterSend C e) := by
  simp only [sendPlaintext,he,Exec.bind_run,Exec.orThrow_some,Exec.mapError,
    ProtectedChannels.send_run hC hs hk e hseq]

omit hC in
lemma sendPlaintext_room {s s' : ProtectedChannels} {m : InnerPlaintext} {e : Bytes}
    (he : InnerPlaintext.wire.enc m = some e)
    (h : (sendPlaintext C m : ProviderCall E _).run s = (.ok (),s'))
    (hseq : s.cipher.sendSeq < u64Size) :
    s.cipher.sendSeq+(chunks tlsMaxRecordSize e).length < u64Size := by
  simp only [sendPlaintext,he,Exec.bind_run,Exec.orThrow_some,Exec.mapError] at h
  split at h
  · rename_i hrun
    exact ProtectedChannels.send_room hrun hseq
  · simp at h
  · simp at h

/-- While sequence numbers last, the stream holds the records of all values in order. -/
theorem sendAll_run {ms : List InnerPlaintext} {s : ProtectedChannels} (hs : s.Clean)
    (hk : s.cipher.WellKeyed) (henc : ∀ m ∈ ms, ∃ e, InnerPlaintext.wire.enc m = some e)
    (hseq : s.cipher.sendSeq+(recordChunks (ms.map InnerPlaintext.wire.bytes)).length < u64Size) :
    ∃ s', (sendAll C E ms).run s = (.ok (),s') ∧ s'.outgoing = s.outgoing++((sealedRecords C
      (recordChunks (ms.map InnerPlaintext.wire.bytes)) s.cipher).map SealedRecord.bytes).flatten := by
  induction ms generalizing s with
  | nil => exact ⟨s,rfl,by simp [recordChunks,sealedRecords]⟩
  | cons m ms ih =>
    rw [List.map_cons,recordChunks_cons,List.length_append] at hseq
    have hrun := sendPlaintext_run (E := E) hC hs hk (Wire.enc_eq_bytes (henc m (by simp)))
      (by omega)
    obtain ⟨s',hrun',hout⟩ := ih (hs.afterSend C (InnerPlaintext.wire.bytes m)) (hk.setSendSeq _)
      (fun m' hm' => henc m' (by simp [hm'])) (by rw [ProtectedChannels.afterSend_sendSeq]; omega)
    refine ⟨s',by rw [sendAll,Exec.bind_of_ok hrun,hrun'],?_⟩
    rw [hout,List.map_cons,recordChunks_cons,sealedRecords_append hC hk
      (fun x hx => length_le_of_mem_chunks tlsMaxRecordSize_pos hx) (by omega)]
    simp [ProtectedChannels.afterSend]

theorem sendAll_room {ms : List InnerPlaintext} {s s' : ProtectedChannels} (hs : s.Clean)
    (hk : s.cipher.WellKeyed) (henc : ∀ m ∈ ms, ∃ e, InnerPlaintext.wire.enc m = some e)
    (h : (sendAll C E ms).run s = (.ok (),s')) (hseq : s.cipher.sendSeq < u64Size) :
    s.cipher.sendSeq+(recordChunks (ms.map InnerPlaintext.wire.bytes)).length < u64Size := by
  induction ms generalizing s with
  | nil => exact hseq
  | cons m ms ih =>
    have he := Wire.enc_eq_bytes (henc m (by simp))
    rw [sendAll,Exec.bind_eq_ok] at h
    obtain ⟨u,t,hm,hms⟩ := h
    have hroom := sendPlaintext_room he hm hseq
    rw [sendPlaintext_run hC hs hk he hroom] at hm
    obtain ⟨-,rfl⟩ := Prod.mk.inj hm
    have ht := ih (hs.afterSend C _) (hk.setSendSeq _) (fun m' hm' => henc m' (by simp [hm'])) hms
      hroom
    rw [ProtectedChannels.afterSend_sendSeq] at ht
    rw [List.map_cons,recordChunks_cons,List.length_append]
    omega

omit hC in
lemma recordChunks_length_le {es : List Bytes} (hes : ∀ e ∈ es, e ≠ []) :
    es.length ≤ (recordChunks es).length ∧
      ((recordChunks es).length = es.length → ∀ e ∈ es, e.length ≤ tlsMaxRecordSize) := by
  induction es with
  | nil => simp [recordChunks]
  | cons e es ih =>
    obtain ⟨hle,hfit⟩ := ih fun x hx => hes x (by simp [hx])
    have hpos : 0 < (chunks tlsMaxRecordSize e).length := by
      rw [chunks_cons tlsMaxRecordSize_pos (hes e (by simp))]
      exact Nat.succ_pos _
    rw [recordChunks_cons,List.length_append,List.length_cons]
    refine ⟨by omega,fun hlen x hx => ?_⟩
    rcases List.mem_cons.mp hx with rfl | hx
    · by_contra hlong
      have hmore := one_lt_length_chunks tlsMaxRecordSize_pos (Nat.lt_of_not_le hlong)
      omega
    · exact hfit (by omega) x hx

omit hC in
lemma recordChunks_of_le {es : List Bytes} (hes : ∀ e ∈ es, e ≠ [])
    (hfit : ∀ e ∈ es, e.length ≤ tlsMaxRecordSize) : recordChunks es = es := by
  induction es with
  | nil => rfl
  | cons e es ih =>
    rw [recordChunks_cons,chunks_of_length_le tlsMaxRecordSize_pos (hes e (by simp))
      (hfit e (by simp)),ih (fun x hx => hes x (by simp [hx])) fun x hx => hfit x (by simp [hx])]
    rfl

/-- Sending the values through one side's sink makes the other side's stream yield exactly them. -/
def Delivers (C : Crypto) (E : Type) (s r : ProtectedChannels) (ms : List InnerPlaintext) : Prop :=
  ∃ s', (sendAll C E ms).run s = (.ok (),s') ∧
    ∀ pieces : List Bytes, pieces.flatten = s'.outgoing → yields C E pieces r = ms.map .ok

/-- Two ends of a connection with nothing in flight from `s` to `r`. -/
structure Connected (s r : ProtectedChannels) : Prop where
  clean : s.Clean
  keyed : s.cipher.WellKeyed
  seq : s.cipher.sendSeq < u64Size
  unpoisoned : r.poisoned = false
  mirrored : Mirrored s.cipher r.cipher
  outgoing : s.outgoing = []
  incoming : r.incoming = []

lemma Connected.yields {s r : ProtectedChannels} (h : Connected s r) {xs : List Bytes}
    (hxs : ∀ x ∈ xs, x.length ≤ tlsMaxRecordSize) (hseq : s.cipher.sendSeq+xs.length < u64Size)
    (pieces : List Bytes) (hp : pieces.flatten =
      ((sealedRecords C xs s.cipher).map SealedRecord.bytes).flatten) :
    yields C E pieces r = xs.map (parse E) := by
  refine Expects.yields hC ⟨h.unpoisoned,s.cipher,h.keyed,h.mirrored.forth,hseq,hxs,?_⟩ ?_
  · rw [h.incoming,List.nil_append,hp]
  · rw [h.incoming,TlsFrameCodec.decode_nil]

omit hC in
lemma bytes_ne_nil {ms : List InnerPlaintext}
    (henc : ∀ m ∈ ms, ∃ e, InnerPlaintext.wire.enc m = some e) :
    ∀ e ∈ ms.map InnerPlaintext.wire.bytes, e ≠ [] := by
  intro e he
  obtain ⟨m,hm,rfl⟩ := List.mem_map.mp he
  exact InnerPlaintext.enc_ne_nil (Wire.enc_eq_bytes (henc m hm))

/-- One item for each record: if the values arrive, none of them took two. -/
theorem Connected.fits {s r : ProtectedChannels} (h : Connected s r) {ms : List InnerPlaintext}
    (henc : ∀ m ∈ ms, ∃ e, InnerPlaintext.wire.enc m = some e) (hd : Delivers C E s r ms) :
    (∀ m ∈ ms, (InnerPlaintext.wire.bytes m).length ≤ tlsMaxRecordSize) ∧
      s.cipher.sendSeq+ms.length < u64Size := by
  obtain ⟨s',hrun,hyields⟩ := hd
  have hroom := sendAll_room hC h.clean h.keyed henc hrun h.seq
  obtain ⟨s'',hrun',hout⟩ := sendAll_run (E := E) hC h.clean h.keyed henc hroom
  obtain rfl : s' = s'' := congrArg Prod.snd (hrun.symm.trans hrun')
  rw [h.outgoing,List.nil_append] at hout
  have hitems := h.yields (E := E) hC (fun x hx => length_le_of_mem_recordChunks hx) hroom
    [s'.outgoing] (by rw [List.flatten_singleton,hout])
  rw [hyields [s'.outgoing] (by rw [List.flatten_singleton])] at hitems
  have hlen := congrArg List.length hitems
  rw [List.length_map,List.length_map] at hlen
  obtain ⟨hle,hfit⟩ := recordChunks_length_le (bytes_ne_nil henc)
  rw [List.length_map] at hle hfit
  exact ⟨fun m hm => hfit hlen.symm _ (List.mem_map_of_mem hm),by omega⟩

theorem Connected.delivers {s r : ProtectedChannels} (h : Connected s r) {ms : List InnerPlaintext}
    (henc : ∀ m ∈ ms, ∃ e, InnerPlaintext.wire.enc m = some e)
    (hfit : ∀ m ∈ ms, (InnerPlaintext.wire.bytes m).length ≤ tlsMaxRecordSize)
    (hseq : s.cipher.sendSeq+ms.length < u64Size) : Delivers C E s r ms := by
  have hfit' : ∀ e ∈ ms.map InnerPlaintext.wire.bytes, e.length ≤ tlsMaxRecordSize := by
    intro e he
    obtain ⟨m,hm,rfl⟩ := List.mem_map.mp he
    exact hfit m hm
  have hchunks := recordChunks_of_le (bytes_ne_nil henc) hfit'
  obtain ⟨s',hrun,hout⟩ := sendAll_run (E := E) hC h.clean h.keyed henc
    (by rw [hchunks,List.length_map]; exact hseq)
  refine ⟨s',hrun,fun pieces hp => ?_⟩
  rw [hchunks,h.outgoing,List.nil_append] at hout
  rw [h.yields hC hfit' (by rw [List.length_map]; exact hseq) pieces (hp.trans hout),List.map_map]
  apply List.map_congr_left
  intro m hm
  have hdec := InnerPlaintext.wire_lawful.dec_enc (Wire.enc_eq_bytes (henc m hm)) []
  rw [List.append_nil] at hdec
  simp [parse,hdec]

/-- The stream yields exactly the values sent if and only if each of them fits one record, and
there are sequence numbers for all of them. -/
theorem delivers_iff_fits {s r : ProtectedChannels} (h : Connected s r) {ms : List InnerPlaintext}
    (henc : ∀ m ∈ ms, ∃ e, InnerPlaintext.wire.enc m = some e) :
    Delivers C E s r ms ↔
      (∀ m ∈ ms, (InnerPlaintext.wire.bytes m).length ≤ tlsMaxRecordSize) ∧
        s.cipher.sendSeq+ms.length < u64Size :=
  ⟨fun hd => h.fits hC henc hd,fun hf => h.delivers hC henc hf.1 hf.2⟩

end

/-- The two ends of a fresh sample connection. -/
def sampleChannels (isServer : Bool) : ProtectedChannels :=
  ⟨sampleCodec isServer,false,[],[],[],[],[]⟩

theorem sampleChannels_connected : Connected (sampleChannels false) (sampleChannels true) :=
  ⟨⟨rfl,rfl⟩,sampleCodec_wellKeyed false,by decide,rfl,sampleCodec_mirrored,rfl,rfl⟩

lemma application_enc {b : Bytes} (h : b.length < 2^30) :
    ∃ e, InnerPlaintext.wire.enc (.application b) = some e ∧ b.length < e.length := by
  have hbegins : ∃ p, Wire.lengthPrefix b.length = some p := by
    unfold Wire.lengthPrefix
    split_ifs <;> exact ⟨_,rfl⟩
  obtain ⟨p,hp⟩ := hbegins
  refine ⟨beBytes 1 0++(p++b),?_,?_⟩
  · simp [InnerPlaintext.wire,Wire.enum,Wire.encVariant,Wire.vec,hp,Wire.word]
  · simp only [List.length_append,beBytes_length]
    omega

theorem delivers_iff_fits_sample :
    Delivers sampleCrypto Unit (sampleChannels false) (sampleChannels true)
      [.application [1,2,3],.signaling [4],.application []] := by
  refine (delivers_iff_fits sampleCrypto_lawful sampleChannels_connected ?_).mpr
    ⟨by decide,by decide⟩
  simp only [List.mem_cons,List.not_mem_nil,or_false,forall_eq_or_imp,forall_eq]
  exact ⟨⟨_,rfl⟩,⟨_,rfl⟩,⟨_,rfl⟩⟩

/-- An application payload of 32768 bytes takes two records, and the stream yields an item for
each of them. -/
theorem long_payload_not_delivered :
    ∃ b : Bytes, b.length = 32768 ∧ (∃ e, InnerPlaintext.wire.enc (.application b) = some e) ∧
      ¬Delivers sampleCrypto Unit (sampleChannels false) (sampleChannels true)
        [.application b] := by
  have hlen : (List.replicate 32768 0 : Bytes).length = 32768 := List.length_replicate
  obtain ⟨e,he,hlt⟩ := application_enc (b := List.replicate 32768 0) (by rw [hlen]; decide)
  refine ⟨List.replicate 32768 0,hlen,⟨e,he⟩,fun hd => ?_⟩
  have hfit := (sampleChannels_connected.fits sampleCrypto_lawful
    (fun m hm => by rw [List.mem_singleton.mp hm]; exact ⟨e,he⟩) hd).1 _ (List.mem_singleton.mpr rfl)
  rw [Wire.bytes,he,Option.getD_some] at hfit
  rw [hlen] at hlt
  exact absurd hfit (Nat.not_le.mpr hlt)

end ProtectedChannels
end MlsTls.EncryptionProvider
