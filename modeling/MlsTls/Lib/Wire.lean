import Mathlib.Data.List.Basic
import Mathlib.Algebra.Order.Ring.Nat
import Mathlib.Tactic.Linarith
import Mathlib.Tactic.Ring

/-! Bytes, fixed-width integers and self-delimiting encodings. A lawful encoding is read back
in front of any rest, and a decoder accepts nothing but encodings. From these two facts it
follows that no encoding is a proper prefix of another one. -/
namespace MlsTls.Lib

abbrev Bytes := List UInt8

/-- Values from here on do not fit a `u64`. -/
def u64Size : ℕ := 2^64

/-- Most significant byte first. -/
def beBytes : ℕ → ℕ → Bytes
  | 0,_ => []
  | k+1,v => UInt8.ofNat (v/256^k)::beBytes k v

/-- Least significant byte first. -/
def leBytes : ℕ → ℕ → Bytes
  | 0,_ => []
  | k+1,v => UInt8.ofNat v::leBytes k (v/256)

def ofBe (b : Bytes) : ℕ := b.foldl (fun n x => n*256+x.toNat) 0

@[simp] theorem beBytes_length (k v : ℕ) : (beBytes k v).length = k := by
  induction k with
  | zero => rfl
  | succ k ih => simp [beBytes,ih]

@[simp] theorem leBytes_length (k v : ℕ) : (leBytes k v).length = k := by
  induction k generalizing v with
  | zero => rfl
  | succ k ih => simp [leBytes,ih]

lemma ofBe_foldl (b : Bytes) (n : ℕ) :
    b.foldl (fun n x => n*256+x.toNat) n = n*256^b.length+ofBe b := by
  induction b generalizing n with
  | nil => simp [ofBe]
  | cons x xs ih =>
    simp only [List.foldl_cons,ofBe,List.length_cons]
    rw [ih,ih (0*256+x.toNat)]
    ring

lemma ofBe_cons (x : UInt8) (xs : Bytes) : ofBe (x::xs) = x.toNat*256^xs.length+ofBe xs := by
  rw [ofBe,List.foldl_cons,ofBe_foldl]
  ring

lemma ofBe_lt (b : Bytes) : ofBe b < 256^b.length := by
  induction b with
  | nil => simp [ofBe]
  | cons x xs ih =>
    rw [ofBe_cons,List.length_cons,pow_succ]
    have hx := x.toNat_lt
    nlinarith

/-- Reading back keeps the value modulo the width. -/
theorem ofBe_beBytes (k v : ℕ) : ofBe (beBytes k v) = v%256^k := by
  induction k with
  | zero => simp [beBytes,ofBe,Nat.mod_one]
  | succ k ih =>
    have hb : (UInt8.ofNat (v/256^k)).toNat = v/256^k%256 := UInt8.toNat_ofNat'
    rw [beBytes,ofBe_cons,ih,beBytes_length,hb,Nat.pow_succ,Nat.mod_mul,Nat.mul_comm]
    omega

lemma beBytes_add_mul (k v c : ℕ) : beBytes k (c*256^k+v) = beBytes k v := by
  induction k generalizing c with
  | zero => rfl
  | succ k ih =>
    have hd : (c*256^(k+1)+v)/256^k = c*256+v/256^k := by
      rw [show c*256^(k+1)+v = v+256^k*(c*256) by ring,
        Nat.add_mul_div_left _ _ (Nat.pow_pos (by decide))]
      ring
    have ht : beBytes k (c*256^(k+1)+v) = beBytes k v := by
      rw [show c*256^(k+1)+v = (c*256)*256^k+v by ring]
      exact ih (c*256)
    rw [beBytes,beBytes,ht,hd]
    congr 1
    apply UInt8.toNat_inj.mp
    simp only [UInt8.toNat_ofNat']
    omega

theorem beBytes_ofBe (b : Bytes) : beBytes b.length (ofBe b) = b := by
  induction b with
  | nil => rfl
  | cons x xs ih =>
    rw [List.length_cons,beBytes,ofBe_cons,beBytes_add_mul,ih]
    congr 1
    rw [Nat.add_comm,Nat.add_mul_div_right _ _ (Nat.pow_pos (by decide)),
      Nat.div_eq_of_lt (ofBe_lt xs)]
    apply UInt8.toNat_inj.mp
    have hx := x.toNat_lt
    simp only [UInt8.toNat_ofNat']
    omega

lemma leBytes_succ (k v : ℕ) : leBytes (k+1) v = leBytes k v++[UInt8.ofNat (v/256^k)] := by
  induction k generalizing v with
  | zero => simp [leBytes]
  | succ k ih => rw [leBytes,ih,leBytes,Nat.div_div_eq_div_mul,← pow_succ',List.cons_append]

/-- The two byte orders are the reverse of each other. -/
theorem leBytes_eq_reverse (k v : ℕ) : leBytes k v = (beBytes k v).reverse := by
  induction k with
  | zero => rfl
  | succ k ih => rw [leBytes_succ,beBytes,List.reverse_cons,ih]

/-- An encoder that may refuse a value, and a decoder that returns the unread rest. -/
structure Wire (α : Type) where
  enc : α → Option Bytes
  dec : Bytes → Option (α × Bytes)

namespace Wire
variable {α β : Type}

structure Lawful (w : Wire α) : Prop where
  dec_enc : ∀ {a e}, w.enc a = some e → ∀ r, w.dec (e++r) = some (a,r)
  enc_dec : ∀ {b a r}, w.dec b = some (a,r) → ∃ e, w.enc a = some e ∧ b = e++r

/-- Decode a buffer that must be used up. -/
def decExact (w : Wire α) (b : Bytes) : Option α :=
  match w.dec b with
  | some (a,[]) => some a
  | _ => none

theorem Lawful.decExact_enc {w : Wire α} (h : w.Lawful) {a : α} {e : Bytes}
    (he : w.enc a = some e) : w.decExact e = some a := by
  have hd := h.dec_enc he []
  rw [List.append_nil] at hd
  simp [decExact,hd]

/-- The encoding of a value that has one. -/
def bytes (w : Wire α) (a : α) : Bytes := (w.enc a).getD []

theorem enc_eq_bytes {w : Wire α} {a : α} (h : ∃ e, w.enc a = some e) :
    w.enc a = some (w.bytes a) := by
  obtain ⟨e,he⟩ := h
  rw [bytes,he]
  rfl

/-- No encoding is a proper prefix of another one. -/
theorem Lawful.prefix_free {w : Wire α} (h : w.Lawful) {a a' : α} {e e' : Bytes}
    (ha : w.enc a = some e) (ha' : w.enc a' = some e') (hp : e <+: e') : a = a' ∧ e = e' := by
  obtain ⟨r,rfl⟩ := hp
  have hd := h.dec_enc ha r
  have hd' := h.dec_enc ha' []
  rw [List.append_nil,hd] at hd'
  obtain ⟨rfl,rfl⟩ := Prod.mk.inj (Option.some.inj hd')
  exact ⟨rfl,by simp⟩

theorem Lawful.enc_of_decExact {w : Wire α} (h : w.Lawful) {b : Bytes} {a : α}
    (hb : w.decExact b = some a) : w.enc a = some b := by
  unfold decExact at hb
  split at hb
  · rename_i hd
    obtain ⟨e,he,hbe⟩ := h.enc_dec hd
    rw [List.append_nil] at hbe
    rw [← Option.some.inj hb,hbe,he]
  · simp at hb

/-- A buffer that is used up and begins an encoding is all of it. -/
theorem Lawful.decExact_whole {w : Wire α} (h : w.Lawful) {a a' : α} {b e : Bytes}
    (hb : w.decExact b = some a') (he : w.enc a = some e) (hp : b <+: e) : b = e :=
  (h.prefix_free (h.enc_of_decExact hb) he hp).2

/-- One type to write and one to read: what is written is read as its image, what is read was
written as it stands, no two values are written alike, and nothing may follow. -/
structure Twins (out : Wire α) (inn : Wire β) (toIn : α → β) : Prop where
  reads : ∀ {a e}, out.enc a = some e → inn.decExact e = some (toIn a)
  written : ∀ {b m}, inn.decExact b = some m →
    inn.enc m = some b ∧ ∃ a, toIn a = m ∧ out.enc a = some b
  enc_injective : ∀ {a a' e}, out.enc a = some e → out.enc a' = some e → a = a'
  no_trailing : ∀ {a e r}, out.enc a = some e → r ≠ [] → inn.decExact (e++r) = none

theorem twins {out : Wire α} {inn : Wire β} {toIn : α → β} (hinn : inn.Lawful)
    (htoIn : Function.Bijective toIn) (henc : ∀ a, out.enc a = inn.enc (toIn a)) :
    Twins out inn toIn where
  reads he := hinn.decExact_enc ((henc _).symm.trans he)
  written {b m} hb := by
    have hm := hinn.enc_of_decExact hb
    obtain ⟨a,rfl⟩ := htoIn.2 m
    exact ⟨hm,a,rfl,(henc a).trans hm⟩
  enc_injective he he' := by
    have hd := hinn.decExact_enc ((henc _).symm.trans he)
    rw [hinn.decExact_enc ((henc _).symm.trans he')] at hd
    exact (htoIn.1 (Option.some.inj hd)).symm
  no_trailing {a e r} he hr := by
    have hd := hinn.dec_enc ((henc _).symm.trans he) r
    cases r with
    | nil => exact absurd rfl hr
    | cons x r => simp [decExact,hd]

/-- A `k`-byte unsigned integer. -/
def word (k : ℕ) : Wire ℕ where
  enc n := if n < 256^k then some (beBytes k n) else none
  dec b := if b.length < k then none else some (ofBe (b.take k),b.drop k)

theorem word_lawful (k : ℕ) : (word k).Lawful where
  dec_enc := by
    intro n e he r
    simp only [word] at he
    split_ifs at he with hn
    obtain rfl := Option.some.inj he
    have hl := beBytes_length k n
    simp only [word,List.length_append,hl]
    rw [if_neg (by omega),List.take_left' hl,List.drop_left' hl,ofBe_beBytes,Nat.mod_eq_of_lt hn]
  enc_dec := by
    intro b n r hb
    simp only [word] at hb
    split_ifs at hb with hlen
    obtain ⟨rfl,rfl⟩ := Prod.mk.inj (Option.some.inj hb)
    have hl : (b.take k).length = k := by simp; omega
    have hlt := ofBe_lt (b.take k)
    rw [hl] at hlt
    refine ⟨b.take k,?_,(List.take_append_drop k b).symm⟩
    simp only [word,if_pos hlt]
    have h := beBytes_ofBe (b.take k)
    rw [hl] at h
    rw [h]

theorem word_enc_of_lt {k n : ℕ} (h : n < 256^k) : (word k).enc n = some (beBytes k n) := if_pos h

/-- A value without content. -/
def unit : Wire Unit where
  enc _ := some []
  dec b := some ((),b)

theorem unit_lawful : unit.Lawful where
  dec_enc := by
    rintro ⟨⟩ e he r
    obtain rfl := Option.some.inj he
    rfl
  enc_dec := by
    rintro b ⟨⟩ r hb
    obtain ⟨-,rfl⟩ := Prod.mk.inj (Option.some.inj hb)
    exact ⟨[],rfl,rfl⟩

/-- Two values one after the other. -/
def seq (u : Wire α) (v : Wire β) : Wire (α × β) where
  enc p := (u.enc p.1).bind fun x => (v.enc p.2).map fun y => x++y
  dec b := (u.dec b).bind fun p => (v.dec p.2).map fun q => ((p.1,q.1),q.2)

theorem seq_lawful {u : Wire α} {v : Wire β} (hu : u.Lawful) (hv : v.Lawful) :
    (seq u v).Lawful where
  dec_enc := by
    rintro ⟨a,b⟩ e he r
    simp only [seq,Option.bind_eq_some_iff,Option.map_eq_some_iff] at he
    obtain ⟨x,hx,y,hy,rfl⟩ := he
    simp only [seq,List.append_assoc,hu.dec_enc hx,hv.dec_enc hy,Option.bind_some,Option.map_some]
  enc_dec := by
    rintro c ⟨a,b⟩ r hc
    simp only [seq,Option.bind_eq_some_iff,Option.map_eq_some_iff] at hc
    obtain ⟨⟨a',s⟩,hs,⟨b',t⟩,ht,heq⟩ := hc
    simp only [Prod.mk.injEq] at heq
    obtain ⟨⟨rfl,rfl⟩,rfl⟩ := heq
    obtain ⟨x,hx,rfl⟩ := hu.enc_dec hs
    obtain ⟨y,hy,hxy⟩ := hv.enc_dec ht
    simp only at hxy
    exact ⟨x++y,by simp [seq,hx,hy],by rw [hxy,List.append_assoc]⟩

/-- A derived structure or variant is encoded as the tuple of its fields. -/
def iso (w : Wire α) (f : α → β) (g : β → α) : Wire β where
  enc b := w.enc (g b)
  dec c := (w.dec c).map fun p => (f p.1,p.2)

theorem iso_lawful {w : Wire α} (hw : w.Lawful) {f : α → β} {g : β → α}
    (hfg : ∀ b, f (g b) = b) (hgf : ∀ a, g (f a) = a) : (iso w f g).Lawful where
  dec_enc := by
    intro b e he r
    simp only [iso] at he ⊢
    rw [hw.dec_enc he]
    simp [hfg]
  enc_dec := by
    intro c b r hc
    simp only [iso,Option.map_eq_some_iff,Prod.mk.injEq] at hc
    obtain ⟨⟨a,s⟩,hs,rfl,rfl⟩ := hc
    obtain ⟨e,he,rfl⟩ := hw.enc_dec hs
    exact ⟨e,by simp [iso,hgf,he],rfl⟩

/-- One variant of an enumeration: how it is built, and how a value of it is taken apart. -/
structure Variant (β : Type) where
  Payload : Type
  wire : Wire Payload
  inj : Payload → β
  proj : β → Option Payload

structure Variant.Lawful (v : Variant β) : Prop where
  wire : v.wire.Lawful
  proj_inj : ∀ p, v.proj (v.inj p) = some p
  inj_proj : ∀ {b p}, v.proj b = some p → v.inj p = b

/-- The number of a value's variant, counted from `n`, and its encoded payload. -/
def encVariant : List (Variant β) → ℕ → β → Option (ℕ × Bytes)
  | [],_,_ => none
  | v::vs,n,b =>
    match v.proj b with
    | some p => (v.wire.enc p).map fun e => (n,e)
    | none => encVariant vs (n+1) b

/-- A derived enumeration: variants are numbered from zero in their order, the number is
written in `k` bytes and the payload follows. -/
def enum (k : ℕ) (vs : List (Variant β)) : Wire β where
  enc b := (encVariant vs 0 b).bind fun p => ((word k).enc p.1).map fun x => x++p.2
  dec c := ((word k).dec c).bind fun p => (vs[p.1]?).bind fun v =>
    (v.wire.dec p.2).map fun q => (v.inj q.1,q.2)

lemma encVariant_eq_some {vs : List (Variant β)} {n m : ℕ} {b : β} {e : Bytes}
    (h : encVariant vs n b = some (m,e)) :
    ∃ i v p, vs[i]? = some v ∧ m = n+i ∧ v.proj b = some p ∧ v.wire.enc p = some e := by
  induction vs generalizing n with
  | nil => simp [encVariant] at h
  | cons v vs ih =>
    cases hp : v.proj b with
    | some p =>
      simp only [encVariant,hp,Option.map_eq_some_iff,Prod.mk.injEq] at h
      obtain ⟨e',he,rfl,rfl⟩ := h
      exact ⟨0,v,p,rfl,rfl,hp,he⟩
    | none =>
      simp only [encVariant,hp] at h
      obtain ⟨i,w,p,hw,hm,hp',he⟩ := ih h
      exact ⟨i+1,w,p,by simpa using hw,by omega,hp',he⟩

lemma encVariant_inj {vs : List (Variant β)} {i : ℕ} {v : Variant β} (hv : vs[i]? = some v)
    (hl : v.Lawful) (hd : vs.Pairwise fun u w => ∀ p, u.proj (w.inj p) = none) {p : v.Payload}
    {e : Bytes} (he : v.wire.enc p = some e) (n : ℕ) : encVariant vs n (v.inj p) = some (n+i,e) := by
  induction vs generalizing i n with
  | nil => simp at hv
  | cons u vs ih =>
    obtain ⟨hu,hvs⟩ := List.pairwise_cons.mp hd
    cases i with
    | zero =>
      obtain rfl : u = v := by simpa using hv
      simp [encVariant,hl.proj_inj,he]
    | succ i =>
      have hm : v ∈ vs := List.mem_of_getElem? (by simpa using hv)
      simp only [encVariant,hu v hm p]
      rw [ih (i := i) (by simpa using hv) hvs]
      simp [Nat.add_comm,Nat.add_left_comm]

theorem enum_lawful {k : ℕ} {vs : List (Variant β)} (hl : ∀ v ∈ vs, v.Lawful)
    (hd : vs.Pairwise fun u w => ∀ p, u.proj (w.inj p) = none) : (enum k vs).Lawful where
  dec_enc := by
    intro b e he r
    simp only [enum,Option.bind_eq_some_iff,Option.map_eq_some_iff] at he
    obtain ⟨⟨m,y⟩,hv,x,hx,rfl⟩ := he
    obtain ⟨i,v,p,hvi,hm,hp,hy⟩ := encVariant_eq_some hv
    have hlv := hl v (List.mem_of_getElem? hvi)
    obtain rfl : i = m := by omega
    simp only [enum,List.append_assoc,(word_lawful k).dec_enc hx,Option.bind_some,hvi,
      hlv.wire.dec_enc hy,Option.map_some,hlv.inj_proj hp]
  enc_dec := by
    intro c b r hc
    simp only [enum,Option.bind_eq_some_iff,Option.map_eq_some_iff,Prod.mk.injEq] at hc
    obtain ⟨⟨m,s⟩,hs,v,hv,⟨p,t⟩,ht,rfl,rfl⟩ := hc
    have hlv := hl v (List.mem_of_getElem? hv)
    obtain ⟨x,hx,rfl⟩ := (word_lawful k).enc_dec hs
    obtain ⟨y,hy,hst⟩ := hlv.wire.enc_dec ht
    simp only at hst hv hx
    have he := encVariant_inj hv hlv hd hy 0
    rw [Nat.zero_add] at he
    exact ⟨x++y,by simp [enum,he,hx],by rw [hst,List.append_assoc]⟩

/-- The length prefix of a byte vector: its two leading bits tell how many bytes it has. -/
def lengthPrefix (n : ℕ) : Option Bytes :=
  if n < 2^6 then some (beBytes 1 n)
  else if n < 2^14 then some (beBytes 2 (2^14+n))
  else if n < 2^30 then some (beBytes 4 (2^31+n))
  else none

/-- The value of a length prefix that begins with `x`, and what follows it; a longer form than
needed is refused. -/
def readLengthFrom (x : UInt8) (b : Bytes) : Option (ℕ × Bytes) :=
  if x.toNat < 64 then some (x.toNat,b.drop 1)
  else if x.toNat < 128 then
    if b.length < 2 then none
    else if ofBe (b.take 2)-2^14 < 2^6 then none
    else some (ofBe (b.take 2)-2^14,b.drop 2)
  else if x.toNat < 192 then
    if b.length < 4 then none
    else if ofBe (b.take 4)-2^31 < 2^14 then none
    else some (ofBe (b.take 4)-2^31,b.drop 4)
  else none

def readLength (b : Bytes) : Option (ℕ × Bytes) :=
  match b with
  | [] => none
  | x::_ => readLengthFrom x b

/-- Variable-size byte vectors, with their length in front. -/
def vec : Wire Bytes where
  enc b := (lengthPrefix b.length).map fun p => p++b
  dec c := (readLength c).bind fun p =>
    if p.2.length < p.1 then none else some (p.2.take p.1,p.2.drop p.1)

lemma beBytes_ofBe_take {k : ℕ} {b : Bytes} (h : k ≤ b.length) :
    beBytes k (ofBe (b.take k)) = b.take k := by
  have hl : (b.take k).length = k := by simp; omega
  have he := beBytes_ofBe (b.take k)
  rwa [hl] at he

lemma ofBe_take_bounds {x : UInt8} {xs : Bytes} {k : ℕ} (h : k ≤ xs.length) :
    x.toNat*256^k ≤ ofBe ((x::xs).take (k+1)) ∧ ofBe ((x::xs).take (k+1)) < (x.toNat+1)*256^k := by
  have hl : (xs.take k).length = k := by simp; omega
  have hlt := ofBe_lt (xs.take k)
  rw [hl] at hlt
  rw [List.take_succ_cons,ofBe_cons,hl,Nat.add_mul]
  omega

lemma toNat_ofNat_of_lt {n : ℕ} (h : n < 256) : (UInt8.ofNat n).toNat = n := by
  rw [UInt8.toNat_ofNat']
  exact Nat.mod_eq_of_lt h

lemma beBytes_cons_append (k v : ℕ) (r : Bytes) :
    beBytes (k+1) v++r = UInt8.ofNat (v/256^k)::(beBytes k v++r) := rfl

lemma readLength_eq {b r : Bytes} {x : UInt8} (hb : b = x::r) :
    readLength b = readLengthFrom x b := by
  subst hb
  rfl

lemma ofBe_take_beBytes {k v : ℕ} (h : v < 256^k) (r : Bytes) :
    ofBe ((beBytes k v++r).take k) = v := by
  rw [List.take_left' (beBytes_length _ _),ofBe_beBytes]
  exact Nat.mod_eq_of_lt h

lemma readLength_lengthPrefix {n : ℕ} {p : Bytes} (h : lengthPrefix n = some p) (r : Bytes) :
    readLength (p++r) = some (n,r) := by
  unfold lengthPrefix at h
  split_ifs at h with h1 h2 h3
  · obtain rfl := Option.some.inj h
    have hx : (UInt8.ofNat (n/256^0)).toNat = n := by
      rw [pow_zero,Nat.div_one]
      exact toNat_ofNat_of_lt (by omega)
    rw [readLength_eq (beBytes_cons_append 0 n r),readLengthFrom,hx,if_pos (by omega)]
    rfl
  · obtain rfl := Option.some.inj h
    have hx : (UInt8.ofNat ((2^14+n)/256^1)).toNat = (2^14+n)/256^1 :=
      toNat_ofNat_of_lt (by omega)
    have hl : ¬(beBytes 2 (2^14+n)++r).length < 2 := by
      rw [List.length_append,beBytes_length]
      omega
    rw [readLength_eq (beBytes_cons_append 1 _ r),readLengthFrom,hx,if_neg (by omega),
      if_pos (by omega),if_neg hl,ofBe_take_beBytes (by omega) r,Nat.add_sub_cancel_left,
      if_neg (by omega),List.drop_left' (beBytes_length _ _)]
  · obtain rfl := Option.some.inj h
    have hx : (UInt8.ofNat ((2^31+n)/256^3)).toNat = (2^31+n)/256^3 :=
      toNat_ofNat_of_lt (by omega)
    have hl : ¬(beBytes 4 (2^31+n)++r).length < 4 := by
      rw [List.length_append,beBytes_length]
      omega
    rw [readLength_eq (beBytes_cons_append 3 _ r),readLengthFrom,hx,if_neg (by omega),
      if_neg (by omega),if_pos (by omega),if_neg hl,ofBe_take_beBytes (by omega) r,
      Nat.add_sub_cancel_left,if_neg (by omega),List.drop_left' (beBytes_length _ _)]

lemma lengthPrefix_readLength {b : Bytes} {n : ℕ} {r : Bytes} (h : readLength b = some (n,r)) :
    ∃ p, lengthPrefix n = some p ∧ b = p++r := by
  cases b with
  | nil => simp [readLength] at h
  | cons x xs =>
    change readLengthFrom x (x::xs) = some (n,r) at h
    unfold readLengthFrom at h
    split_ifs at h with h1 h2 h3 h4 h5 h6 h7
    · obtain ⟨rfl,rfl⟩ := Prod.mk.inj (Option.some.inj h)
      refine ⟨[x],?_,rfl⟩
      rw [lengthPrefix,if_pos (by omega)]
      simp [beBytes]
    · obtain ⟨rfl,rfl⟩ := Prod.mk.inj (Option.some.inj h)
      rw [List.length_cons] at h3
      have hb : x.toNat*256^1 ≤ ofBe ((x::xs).take 2) ∧ ofBe ((x::xs).take 2) < (x.toNat+1)*256^1 :=
        ofBe_take_bounds (by omega)
      refine ⟨(x::xs).take 2,?_,(List.take_append_drop 2 _).symm⟩
      rw [lengthPrefix,if_neg (by omega),if_pos (by omega),Nat.add_sub_of_le (by omega),
        beBytes_ofBe_take (by rw [List.length_cons]; omega)]
    · obtain ⟨rfl,rfl⟩ := Prod.mk.inj (Option.some.inj h)
      rw [List.length_cons] at h6
      have hb : x.toNat*256^3 ≤ ofBe ((x::xs).take 4) ∧ ofBe ((x::xs).take 4) < (x.toNat+1)*256^3 :=
        ofBe_take_bounds (by omega)
      refine ⟨(x::xs).take 4,?_,(List.take_append_drop 4 _).symm⟩
      rw [lengthPrefix,if_neg (by omega),if_neg (by omega),if_pos (by omega),
        Nat.add_sub_of_le (by omega),beBytes_ofBe_take (by rw [List.length_cons]; omega)]

/-- Bytes with their number in front, which is written as `len` writes it. -/
def sized (len : Wire ℕ) : Wire Bytes where
  enc b := (len.enc b.length).map fun p => p++b
  dec c := (len.dec c).bind fun p =>
    if p.2.length < p.1 then none else some (p.2.take p.1,p.2.drop p.1)

theorem sized_lawful {len : Wire ℕ} (h : len.Lawful) : (sized len).Lawful where
  dec_enc := by
    intro b e he r
    simp only [sized,Option.map_eq_some_iff] at he
    obtain ⟨p,hp,rfl⟩ := he
    simp only [sized,List.append_assoc,h.dec_enc hp,Option.bind_some,List.length_append]
    rw [if_neg (by omega),List.take_left' rfl,List.drop_left' rfl]
  enc_dec := by
    intro c b r hc
    simp only [sized,Option.bind_eq_some_iff] at hc
    obtain ⟨⟨n,s⟩,hs,hif⟩ := hc
    split_ifs at hif with hlt
    obtain ⟨rfl,rfl⟩ := Prod.mk.inj (Option.some.inj hif)
    obtain ⟨p,hp,rfl⟩ := h.enc_dec hs
    have hl : (s.take n).length = n := by
      rw [List.length_take]
      exact Nat.min_eq_left (Nat.le_of_not_lt hlt)
    exact ⟨p++s.take n,by simp only [sized,hl,hp,Option.map_some],by
      rw [List.append_assoc,List.take_append_drop]⟩

theorem vec_lawful : vec.Lawful := by
  have hlen : (⟨lengthPrefix,readLength⟩ : Wire ℕ).Lawful :=
    ⟨readLength_lengthPrefix,lengthPrefix_readLength⟩
  exact sized_lawful hlen

end Wire
end MlsTls.Lib
