import Mathlib.Data.List.Basic
import Mathlib.Algebra.Order.Ring.Nat
import Mathlib.Tactic.Linarith

/-! Incremental decoding of a stream that arrives in pieces, and cutting a list into chunks.
A stable decoder decides on a finished item without looking at what follows it, so the items
found do not depend on where the stream is cut. -/
namespace MlsTls.Lib
variable {α β γ : Type}

/-- A decoder takes one item off the front of the buffer, or waits for more. -/
structure Stable (dec : List β → Option (α × List β)) : Prop where
  shrinks : ∀ {b a r}, dec b = some (a,r) → r.length < b.length
  extends_right : ∀ {b a r}, dec b = some (a,r) → ∀ c, dec (b++c) = some (a,r++c)

def drainFuel (dec : List β → Option (α × List β)) : ℕ → List β → List α × List β
  | 0,b => ([],b)
  | n+1,b =>
    match dec b with
    | some (a,r) => (a::(drainFuel dec n r).1,(drainFuel dec n r).2)
    | none => ([],b)

/-- Decode until the decoder waits. -/
def drain (dec : List β → Option (α × List β)) (b : List β) : List α × List β :=
  drainFuel dec b.length b

/-- Append each piece as it arrives and decode until the decoder waits. -/
def feed (dec : List β → Option (α × List β)) : List β → List (List β) → List α × List β
  | b,[] => ([],b)
  | b,p::ps =>
    ((drain dec (b++p)).1++(feed dec (drain dec (b++p)).2 ps).1,(feed dec (drain dec (b++p)).2 ps).2)

section Drain
variable {dec : List β → Option (α × List β)}

lemma drainFuel_enough (hd : Stable dec) {n m : ℕ} {b : List β} (hn : b.length ≤ n)
    (hm : b.length ≤ m) : drainFuel dec n b = drainFuel dec m b := by
  induction n generalizing m b with
  | zero =>
    have hb : b = [] := List.length_eq_zero_iff.mp (by omega)
    subst hb
    cases m with
    | zero => rfl
    | succ m =>
      cases hdec : dec [] with
      | none => simp [drainFuel,hdec]
      | some p => exact absurd (hd.shrinks hdec) (by simp)
  | succ n ih =>
    cases m with
    | zero =>
      have hb : b = [] := List.length_eq_zero_iff.mp (by omega)
      subst hb
      cases hdec : dec [] with
      | none => simp [drainFuel,hdec]
      | some p => exact absurd (hd.shrinks hdec) (by simp)
    | succ m =>
      cases hdec : dec b with
      | none => simp [drainFuel,hdec]
      | some p =>
        have hs := hd.shrinks hdec
        simp only [drainFuel,hdec]
        rw [ih (m := m) (by omega) (by omega)]

theorem drain_none {b : List β} (h : dec b = none) : drain dec b = ([],b) := by
  unfold drain
  cases hb : b.length with
  | zero => rfl
  | succ n => simp [drainFuel,h]

theorem drain_some (hd : Stable dec) {b r : List β} {a : α} (h : dec b = some (a,r)) :
    drain dec b = (a::(drain dec r).1,(drain dec r).2) := by
  have hs := hd.shrinks h
  obtain ⟨n,hn⟩ : ∃ n, b.length = n+1 := ⟨b.length-1,by omega⟩
  simp only [drain,hn,drainFuel,h]
  rw [drainFuel_enough hd (m := r.length) (by omega) le_rfl]

/-- Decoding can be interrupted anywhere and continued on the kept buffer. -/
theorem drain_append (hd : Stable dec) (b c : List β) :
    drain dec (b++c) = ((drain dec b).1++(drain dec ((drain dec b).2++c)).1,
      (drain dec ((drain dec b).2++c)).2) := by
  induction hl : b.length using Nat.strong_induction_on generalizing b with
  | _ n ih =>
    cases h : dec b with
    | none => simp [drain_none h]
    | some p =>
      obtain ⟨a,r⟩ := p
      have hs := hd.shrinks h
      have hr := ih r.length (by omega) r rfl
      rw [drain_some hd (hd.extends_right h c),drain_some hd h,hr]
      rfl

theorem drain_rest (hd : Stable dec) (b : List β) : dec (drain dec b).2 = none := by
  induction hl : b.length using Nat.strong_induction_on generalizing b with
  | _ n ih =>
    cases h : dec b with
    | none => simpa [drain_none h] using h
    | some p =>
      have hs := hd.shrinks h
      rw [drain_some hd h]
      exact ih p.2.length (by omega) p.2 rfl

/-- The items and the rest do not depend on how the stream is cut. -/
theorem feed_eq_drain (hd : Stable dec) (b : List β) (hb : dec b = none) (ps : List (List β)) :
    feed dec b ps = drain dec (b++ps.flatten) := by
  induction ps generalizing b with
  | nil => simp [feed,drain_none hb]
  | cons p ps ih =>
    simp only [feed,List.flatten_cons]
    rw [ih _ (drain_rest hd (b++p)),← List.append_assoc,drain_append hd (b++p)]

/-- A concatenation of encodings is decoded item by item, up to the rest. -/
theorem drain_encoded (hd : Stable dec) (enc : γ → List β) (item : γ → α) (xs : List γ)
    (h : ∀ x ∈ xs, ∀ r, dec (enc x++r) = some (item x,r)) (r : List β) :
    drain dec ((xs.map enc).flatten++r) = (xs.map item++(drain dec r).1,(drain dec r).2) := by
  induction xs with
  | nil => simp
  | cons x xs ih =>
    have hx := h x (by simp) ((xs.map enc).flatten++r)
    have ht := ih (fun y hy => h y (by simp [hy]))
    rw [List.map_cons,List.flatten_cons,List.append_assoc,drain_some hd hx,ht]
    rfl

/-- A decoder that has seen part of a stream finds the stream's first item, or nothing. -/
theorem Stable.first (hd : Stable dec) {b w e rest : List β} {a a' : α} {r : List β}
    (hb : b++w = e++rest) (he : dec (e++rest) = some (a',rest)) (h : dec b = some (a,r)) :
    a = a' ∧ r++w = rest := by
  have hx := hd.extends_right h w
  rw [hb,he] at hx
  obtain ⟨rfl,rfl⟩ := Prod.mk.inj (Option.some.inj hx)
  exact ⟨rfl,rfl⟩

end Drain

def chunksFuel (n : ℕ) : ℕ → List β → List (List β)
  | 0,_ => []
  | _+1,[] => []
  | k+1,x::xs => (x::xs).take n::chunksFuel n k ((x::xs).drop n)

/-- Consecutive pieces of at most `n` elements; the last one may be shorter. -/
def chunks (n : ℕ) (l : List β) : List (List β) := chunksFuel n l.length l

section Chunks
variable {n : ℕ}

lemma chunksFuel_enough (hn : 0 < n) {k m : ℕ} {l : List β} (hk : l.length ≤ k)
    (hm : l.length ≤ m) : chunksFuel n k l = chunksFuel n m l := by
  induction k generalizing m l with
  | zero =>
    have hl : l = [] := List.length_eq_zero_iff.mp (by omega)
    subst hl
    cases m <;> rfl
  | succ k ih =>
    cases l with
    | nil => cases m <;> rfl
    | cons x xs =>
      cases m with
      | zero => simp at hm
      | succ m =>
        simp only [List.length_cons] at hk hm
        simp only [chunksFuel]
        rw [ih (m := m) (by simp; omega) (by simp; omega)]

@[simp] theorem chunks_nil : chunks n ([] : List β) = [] := rfl

theorem chunks_cons (hn : 0 < n) {l : List β} (hl : l ≠ []) :
    chunks n l = l.take n::chunks n (l.drop n) := by
  cases l with
  | nil => exact absurd rfl hl
  | cons x xs =>
    simp only [chunks,List.length_cons,chunksFuel]
    rw [chunksFuel_enough hn (m := ((x::xs).drop n).length)
      (by simp only [List.length_drop,List.length_cons]; omega) le_rfl]

/-- The recursion of `chunks`, packaged for later proofs. -/
theorem chunks_induction (hn : 0 < n) {P : List β → Prop} (nil : P [])
    (step : ∀ l, l ≠ [] → P (l.drop n) → P l) (l : List β) : P l := by
  induction hl : l.length using Nat.strong_induction_on generalizing l with
  | _ k ih =>
    by_cases h : l = []
    · exact h ▸ nil
    · have hpos := List.length_pos_iff.mpr h
      exact step l h (ih _ (by simp; omega) _ rfl)

theorem chunks_flatten (hn : 0 < n) (l : List β) : (chunks n l).flatten = l := by
  induction l using chunks_induction hn with
  | nil => rfl
  | step l hl ih => rw [chunks_cons hn hl,List.flatten_cons,ih,List.take_append_drop]

theorem length_le_of_mem_chunks (hn : 0 < n) {l c : List β} (h : c ∈ chunks n l) :
    c.length ≤ n := by
  induction l using chunks_induction hn with
  | nil => simp at h
  | step l hl ih =>
    rw [chunks_cons hn hl,List.mem_cons] at h
    rcases h with rfl | h
    · exact List.length_take_le n l
    · exact ih h

theorem chunks_of_length_le (hn : 0 < n) {l : List β} (hl : l ≠ []) (hle : l.length ≤ n) :
    chunks n l = [l] := by
  rw [chunks_cons hn hl,List.take_of_length_le hle,List.drop_eq_nil_of_le hle,chunks_nil]

theorem one_lt_length_chunks (hn : 0 < n) {l : List β} (hlt : n < l.length) :
    1 < (chunks n l).length := by
  have hl : l ≠ [] := List.ne_nil_of_length_pos (by omega)
  have hd : l.drop n ≠ [] := List.ne_nil_of_length_pos (by simp; omega)
  rw [chunks_cons hn hl,chunks_cons hn hd]
  simp

/-- Two strings of which neither begins the other one have different chunks at some position. -/
theorem exists_chunks_ne (hn : 0 < n) {l m : List β} (hlm : ¬l <+: m) (hml : ¬m <+: l) :
    ∃ (i : ℕ) (x y : List β), (chunks n l)[i]? = some x ∧ (chunks n m)[i]? = some y ∧ x ≠ y := by
  induction l using chunks_induction hn generalizing m with
  | nil => exact absurd List.nil_prefix hlm
  | step l hl ih =>
    have hm : m ≠ [] := by
      rintro rfl
      exact hml List.nil_prefix
    rw [chunks_cons hn hl,chunks_cons hn hm]
    by_cases htake : l.take n = m.take n
    · have hdrop {a b : List β} (hab : a.take n = b.take n) (h : ¬a <+: b) :
          ¬a.drop n <+: b.drop n := by
        intro hp
        apply h
        rw [← List.take_append_drop n a,← List.take_append_drop n b,hab]
        exact (List.prefix_append_right_inj _).mpr hp
      obtain ⟨i,x,y,hx,hy,hne⟩ := ih (hdrop htake hlm) (hdrop htake.symm hml)
      exact ⟨i+1,x,y,by simpa using hx,by simpa using hy,hne⟩
    · exact ⟨0,l.take n,m.take n,rfl,rfl,htake⟩

end Chunks
end MlsTls.Lib
