import MlsTls.Lib.Wire
import MlsTls.Lib.Framing

/-! The TLS frame codec: five header bytes with a sixteen-bit length in front of each payload.
`encode` casts the length to sixteen bits and writes the whole payload all the same. -/
namespace MlsTls.TlsAead
open Lib

def tlsAppData : UInt8 := 0x17
def tlsVersion : ℕ := 0x0303
def tlsHdrSize : ℕ := 5

structure TlsPacketIn where
  header : Bytes
  data : Bytes
  deriving DecidableEq, Repr

namespace TlsFrameCodec

/-- One packet off the front of the read buffer, or `none` while it is incomplete. -/
def decode (src : Bytes) : Option (TlsPacketIn × Bytes) :=
  if src.length < tlsHdrSize then none
  else
    let length := ofBe ((src.drop 3).take 2)
    if src.length < length+tlsHdrSize then none
    else some (⟨src.take tlsHdrSize,(src.drop tlsHdrSize).take length⟩,
      (src.drop tlsHdrSize).drop length)

def header (length : ℕ) : Bytes := [tlsAppData]++beBytes 2 tlsVersion++beBytes 2 length

/-- The bytes appended to the write buffer for one payload. -/
def encode (data : Bytes) (dst : Bytes) : Bytes := dst++(header data.length++data)

/-- The frame of one payload. -/
def frame (data : Bytes) : Bytes := encode data []

@[simp] theorem header_length (n : ℕ) : (header n).length = tlsHdrSize := by
  simp [header,tlsHdrSize]

@[simp] theorem frame_length (data : Bytes) : (frame data).length = tlsHdrSize+data.length := by
  simp [frame,encode]

theorem encode_eq (data dst : Bytes) : encode data dst = dst++frame data := by
  simp [frame,encode]

lemma foldl_encode (xs : List Bytes) (out : Bytes) :
    xs.foldl (fun dst x => encode x dst) out = out++(xs.map frame).flatten := by
  induction xs generalizing out with
  | nil => simp
  | cons x xs ih => simp [encode_eq]

/-- The decoder decides on a complete packet without looking past it. -/
theorem decode_stable : Stable decode where
  shrinks := by
    intro b a r h
    simp only [decode] at h
    split_ifs at h with h1 h2
    obtain ⟨-,rfl⟩ := Prod.mk.inj (Option.some.inj h)
    simp only [tlsHdrSize] at h1
    simp only [List.length_drop,tlsHdrSize]
    omega
  extends_right := by
    intro b a r h c
    simp only [decode] at h
    split_ifs at h with h1 h2
    obtain ⟨rfl,rfl⟩ := Prod.mk.inj (Option.some.inj h)
    simp only [tlsHdrSize] at h1 h2 ⊢
    have hl : ((b++c).drop 3).take 2 = (b.drop 3).take 2 := by
      rw [List.drop_append_of_le_length (by omega),
        List.take_append_of_le_length (by simp only [List.length_drop]; omega)]
    have h5 : (b++c).drop 5 = b.drop 5++c := List.drop_append_of_le_length (by omega)
    simp only [decode,tlsHdrSize,hl,List.length_append,h5]
    rw [if_neg (by omega),if_neg (by omega),List.take_append_of_le_length (by omega),
      List.take_append_of_le_length (by simp only [List.length_drop]; omega),
      List.drop_append_of_le_length (by simp only [List.length_drop]; omega)]

/-- The length field says where the packet ends, which is inside a payload that does not fit it. -/
theorem decode_frame_mod (data r : Bytes) : decode (frame data++r) =
    some (⟨header data.length,data.take (data.length%2^16)⟩,data.drop (data.length%2^16)++r) := by
  have h3 : ((frame data++r).drop 3).take 2 = beBytes 2 data.length := by
    simp [frame,encode,header,beBytes]
  have hv : ofBe (beBytes 2 data.length) = data.length%2^16 := ofBe_beBytes 2 data.length
  have ht : (frame data++r).take 5 = header data.length := by
    rw [frame,encode,List.nil_append,List.append_assoc]
    exact List.take_left' (header_length _)
  have hd : (frame data++r).drop 5 = data++r := by
    rw [frame,encode,List.nil_append,List.append_assoc]
    exact List.drop_left' (header_length _)
  have hle : data.length%2^16 ≤ data.length := Nat.mod_le _ _
  simp only [decode,h3,hv,tlsHdrSize,ht,hd,List.length_append,frame_length]
  rw [if_neg (by omega),if_neg (by omega),List.take_append_of_le_length hle,
    List.drop_append_of_le_length hle]

/-- A payload whose length fits the length field is read back from its frame. -/
theorem decode_frame {data : Bytes} (hdata : data.length < 2^16) (r : Bytes) :
    decode (frame data++r) = some (⟨header data.length,data⟩,r) := by
  rw [decode_frame_mod,Nat.mod_eq_of_lt hdata,List.take_length,List.drop_length,List.nil_append]

theorem decode_nil : decode [] = none := rfl

/-- What follows the header is the packet's data and the rest. -/
theorem decode_data {b rest : Bytes} {packet : TlsPacketIn} (h : decode b = some (packet,rest)) :
    packet.data++rest = b.drop tlsHdrSize := by
  simp only [decode] at h
  split_ifs at h with h1 h2
  obtain ⟨rfl,rfl⟩ := Prod.mk.inj (Option.some.inj h)
  exact List.take_append_drop _ _

theorem drop_frame (data : Bytes) : (frame data).drop tlsHdrSize = data := by
  rw [frame,encode,List.nil_append]
  exact List.drop_left' (header_length _)

/-- The packets that come out are the payloads that went in, however the stream is cut, and
nothing stays in the buffer. -/
def Faithful (payloads : List Bytes) : Prop :=
  ∀ pieces : List Bytes, pieces.flatten = payloads.foldl (fun dst data => encode data dst) [] →
    (feed decode [] pieces).1.map TlsPacketIn.data = payloads ∧
      (∀ packet ∈ (feed decode [] pieces).1, packet.header.length = tlsHdrSize) ∧
      (feed decode [] pieces).2 = []

lemma faithful_of_fits {payloads : List Bytes} (h : ∀ data ∈ payloads, data.length < 2^16) :
    Faithful payloads := by
  intro pieces hpieces
  have hdrain := drain_encoded decode_stable frame (fun data => ⟨header data.length,data⟩) payloads
    (fun data hdata r => decode_frame (h data hdata) r) []
  rw [foldl_encode,List.nil_append] at hpieces
  rw [feed_eq_drain decode_stable [] decode_nil pieces,List.nil_append,hpieces]
  rw [List.append_nil,drain_none decode_nil] at hdrain
  rw [hdrain]
  refine ⟨?_,?_,rfl⟩
  · simp [Function.comp_def]
  · intro packet hpacket
    rw [List.append_nil] at hpacket
    obtain ⟨data,-,rfl⟩ := List.mem_map.mp hpacket
    exact header_length _

lemma not_faithful_of_long {front back : List Bytes} {data : Bytes}
    (hfront : ∀ x ∈ front, x.length < 2^16) (hdata : 2^16 ≤ data.length) :
    ¬Faithful (front++data::back) := by
  -- what follows payloads that fit is decoded where they end, and a payload that does not fit comes
  -- out cut off
  intro h
  obtain ⟨hitems,-,-⟩ := h [((front++data::back).map frame).flatten] (by
    rw [foldl_encode,List.flatten_singleton,List.nil_append])
  rw [feed_eq_drain decode_stable [] decode_nil,List.nil_append,List.flatten_singleton,
    List.map_append,List.flatten_append,drain_encoded decode_stable frame
      (fun data => ⟨header data.length,data⟩) front fun x hx r => decode_frame (hfront x hx) r,
    List.map_cons,List.flatten_cons,drain_some decode_stable (decode_frame_mod data _)] at hitems
  simp only [List.map_append,List.map_map,List.map_cons,Function.comp_def,List.map_id_fun',id_eq,
    List.append_cancel_left_eq,List.cons.injEq] at hitems
  have hlen := congrArg List.length hitems.1
  have hlt : data.length%2^16 < 2^16 := Nat.mod_lt _ (by decide)
  rw [List.length_take] at hlen
  omega

/-- A list of payloads survives exactly if each of them fits the length field. -/
theorem faithful_iff_fits (payloads : List Bytes) :
    Faithful payloads ↔ ∀ data ∈ payloads, data.length < 2^16 := by
  refine ⟨?_,faithful_of_fits⟩
  intro h data hmem
  by_contra hdata
  -- the first payload that is too long
  cases hfirst : payloads.find? fun x => decide (2^16 ≤ x.length) with
  | none =>
    have hnone := List.find?_eq_none.mp hfirst data hmem
    simp only [decide_eq_true_eq] at hnone
    omega
  | some x =>
    obtain ⟨hx,front,back,rfl,hfront⟩ := List.find?_eq_some_iff_append.mp hfirst
    refine not_faithful_of_long (fun y hy => ?_) (of_decide_eq_true hx) h
    simpa using hfront y hy

/-- One byte too many: the length field says zero. -/
theorem long_payload_not_faithful : ¬Faithful [List.replicate (2^16) 0] :=
  not_faithful_of_long (List.forall_mem_nil _) (List.length_replicate ..).ge

end TlsFrameCodec
end MlsTls.TlsAead
