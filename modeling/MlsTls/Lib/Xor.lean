import MlsTls.Lib.Wire
import Mathlib.Data.Nat.Bitwise

/-! XOR of byte strings, byte by byte. Read as numbers, strings of one length are XORed as numbers;
and a loop that XORs one byte after the other into a buffer XORs them all at once. -/
namespace MlsTls.Lib

def xorBytes (a b : Bytes) : Bytes := List.zipWith (· ^^^ ·) a b

@[simp] theorem xorBytes_cons (x y : UInt8) (xs ys : Bytes) :
    xorBytes (x::xs) (y::ys) = (x ^^^ y)::xorBytes xs ys := rfl

@[simp] theorem xorBytes_length (a b : Bytes) : (xorBytes a b).length = min a.length b.length :=
  List.length_zipWith

@[simp] theorem xorBytes_zeros (a : Bytes) : xorBytes a (List.replicate a.length 0) = a := by
  induction a with
  | nil => rfl
  | cons x xs ih => simp [List.replicate_succ,ih]

/-- A byte that is XORed into the buffer at a position where the mask has nothing yet belongs to
the mask. -/
theorem xorBytes_modify (ret pre post : Bytes) (byte : UInt8) :
    xorBytes (ret.modify pre.length (· ^^^ byte)) (pre++0::post) =
      xorBytes ret (pre++byte::post) := by
  induction pre generalizing ret with
  | nil =>
    cases ret with
    | nil => rfl
    | cons x xs => simp
  | cons p pre ih =>
    cases ret with
    | nil => rfl
    | cons x xs => simpa using ih xs

lemma mul_add_xor {n p q : ℕ} (hp : p < 2^n) (hq : q < 2^n) (x y : ℕ) :
    (x*2^n+p) ^^^ (y*2^n+q) = (x ^^^ y)*2^n+(p ^^^ q) := by
  have hdiv {z r : ℕ} (hr : r < 2^n) : (z*2^n+r)/2^n = z := by
    rw [Nat.add_comm,Nat.add_mul_div_right _ _ (Nat.two_pow_pos n),Nat.div_eq_of_lt hr,Nat.zero_add]
  have hmod {z r : ℕ} (hr : r < 2^n) : (z*2^n+r)%2^n = r := by
    rw [Nat.mul_add_mod',Nat.mod_eq_of_lt hr]
  rw [← Nat.div_add_mod' ((x*2^n+p) ^^^ (y*2^n+q)) (2^n),Nat.xor_div_two_pow,Nat.xor_mod_two_pow,
    hdiv hp,hdiv hq,hmod hp,hmod hq]

/-- Strings of one length are XORed as the numbers they stand for. -/
theorem ofBe_xorBytes {a b : Bytes} (h : a.length = b.length) :
    ofBe (xorBytes a b) = ofBe a ^^^ ofBe b := by
  induction a generalizing b with
  | nil =>
    obtain rfl := List.length_eq_zero_iff.mp h.symm
    rfl
  | cons x xs ih =>
    cases b with
    | nil => simp at h
    | cons y ys =>
      have hl : xs.length = ys.length := by simpa using h
      have hx := ofBe_lt xs
      have hy := ofBe_lt ys
      rw [show (256 : ℕ) = 2^8 from rfl,← pow_mul] at hx hy
      rw [hl] at hx
      rw [xorBytes_cons,ofBe_cons,ofBe_cons,ofBe_cons,ih hl,xorBytes_length,hl,Nat.min_self,
        UInt8.toNat_xor,show (256 : ℕ) = 2^8 from rfl,← pow_mul,mul_add_xor hx hy]

theorem ofBe_zeros_append (n : ℕ) (b : Bytes) : ofBe (List.replicate n 0++b) = ofBe b := by
  induction n with
  | zero => rfl
  | succ n ih => simp [List.replicate_succ,ofBe_cons,ih]

end MlsTls.Lib
