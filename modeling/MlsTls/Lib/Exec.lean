import Mathlib.Logic.Basic
import Mathlib.Tactic.Common

/-! Calls on mutable state. A call that fails keeps whatever it has already written, so the
state is returned next to the outcome and not inside it. Failures are either error values or
panics. The rules below are the usual ones of pre- and postconditions, with a third
condition for the state left behind by a failure. Last are the indexing and the subtraction that
panic out of range, with their values when the bounds hold. -/
namespace MlsTls.Lib

/-- A call fails with an error value, or it panics. -/
inductive Fault (ε : Type)
  | error (e : ε)
  | panic
  deriving DecidableEq, Repr

/-- The result of one finished call. -/
abbrev Outcome (ε α : Type) := Except (Fault ε) α

/-- A call on state `σ`. -/
structure Exec (σ ε α : Type) where
  run : σ → Outcome ε α × σ

namespace Exec
variable {σ τ ε δ α β : Type}

def throw (e : ε) : Exec σ ε α := ⟨fun s => (.error (.error e),s)⟩
def panic : Exec σ ε α := ⟨fun s => (.error .panic,s)⟩
def get : Exec σ ε σ := ⟨fun s => (.ok s,s)⟩
def modify (f : σ → σ) : Exec σ ε Unit := ⟨fun s => (.ok (),f s)⟩

/-- The `?` operator on a result whose error is converted by `f`. -/
def lift (f : δ → ε) (x : Except δ α) : Exec σ ε α :=
  match x with
  | .ok a => ⟨fun s => (.ok a,s)⟩
  | .error e => throw (f e)

/-- The `?` operator on an option. -/
def orThrow (e : ε) (x : Option α) : Exec σ ε α :=
  match x with
  | some a => ⟨fun s => (.ok a,s)⟩
  | none => throw e

/-- Run a call on one component of a larger state. -/
def zoom (view : σ → τ) (put : τ → σ → σ) (x : Exec τ ε α) : Exec σ ε α :=
  ⟨fun s => ((x.run (view s)).1,put (x.run (view s)).2 s)⟩

/-- Convert the errors of a call; panics stay panics. -/
def mapError (f : δ → ε) (x : Exec σ δ α) : Exec σ ε α :=
  ⟨fun s => match x.run s with
    | (.ok a,s') => (.ok a,s')
    | (.error (.error e),s') => (.error (.error (f e)),s')
    | (.error .panic,s') => (.error .panic,s')⟩

/-- A caller that looks at an error instead of passing it on; panics are not caught. -/
def attempt (x : Exec σ ε α) : Exec σ δ (Except ε α) :=
  ⟨fun s => match x.run s with
    | (.ok a,s') => (.ok (.ok a),s')
    | (.error (.error e),s') => (.ok (.error e),s')
    | (.error .panic,s') => (.error .panic,s')⟩

instance : Monad (Exec σ ε) where
  pure a := ⟨fun s => (.ok a,s)⟩
  bind x f := ⟨fun s => match x.run s with
    | (.ok a,s') => (f a).run s'
    | (.error e,s') => (.error e,s')⟩

@[simp] theorem pure_run (a : α) (s : σ) : (pure a : Exec σ ε α).run s = (.ok a,s) := rfl
@[simp] theorem throw_run (e : ε) (s : σ) : (throw e : Exec σ ε α).run s = (.error (.error e),s) := rfl
@[simp] theorem panic_run (s : σ) : (panic : Exec σ ε α).run s = (.error .panic,s) := rfl
@[simp] theorem get_run (s : σ) : (get : Exec σ ε σ).run s = (.ok s,s) := rfl
@[simp] theorem modify_run (f : σ → σ) (s : σ) :
    (modify f : Exec σ ε Unit).run s = (.ok (),f s) := rfl
@[simp] theorem lift_ok (f : δ → ε) (a : α) (s : σ) : (lift f (.ok a) : Exec σ ε α).run s = (.ok a,s) := rfl
@[simp] theorem lift_error (f : δ → ε) (e : δ) (s : σ) :
    (lift f (.error e) : Exec σ ε α).run s = (.error (.error (f e)),s) := rfl
@[simp] theorem orThrow_some (e : ε) (a : α) (s : σ) :
    (orThrow e (some a) : Exec σ ε α).run s = (.ok a,s) := rfl
@[simp] theorem orThrow_none (e : ε) (s : σ) :
    (orThrow e none : Exec σ ε α).run s = (.error (.error e),s) := rfl

theorem bind_run (x : Exec σ ε α) (f : α → Exec σ ε β) (s : σ) :
    (x >>= f).run s = match x.run s with
      | (.ok a,s') => (f a).run s'
      | (.error e,s') => (.error e,s') := rfl

theorem bind_of_ok {x : Exec σ ε α} {s s' : σ} {a : α} (h : x.run s = (.ok a,s'))
    (f : α → Exec σ ε β) : (x >>= f).run s = (f a).run s' := by
  rw [bind_run,h]

theorem pure_bind (a : α) (f : α → Exec σ ε β) : pure a >>= f = f a := rfl

theorem bind_assoc {γ : Type} (x : Exec σ ε α) (f : α → Exec σ ε β) (g : β → Exec σ ε γ) :
    x >>= f >>= g = x >>= fun a => f a >>= g := by
  refine congrArg Exec.mk (funext fun s => ?_)
  simp only [bind_run]
  rcases x.run s with ⟨e | a,s'⟩
  · rfl
  · rfl

/-- A sequence returns exactly when both of its parts do. -/
theorem bind_eq_ok {x : Exec σ ε α} {f : α → Exec σ ε β} {s s' : σ} {b : β} :
    (x >>= f).run s = (.ok b,s') ↔ ∃ a t, x.run s = (.ok a,t) ∧ (f a).run t = (.ok b,s') := by
  rw [bind_run]
  rcases x.run s with ⟨r,t⟩
  cases r with
  | ok a => simp
  | error e => simp

theorem lift_eq_ok {f : δ → ε} {x : Except δ α} {s s' : σ} {a : α} :
    (lift f x : Exec σ ε α).run s = (.ok a,s') ↔ x = .ok a ∧ s = s' := by
  cases x with
  | ok b => simp
  | error e => simp

theorem orThrow_eq_ok {e : ε} {x : Option α} {s s' : σ} {a : α} :
    (orThrow e x : Exec σ ε α).run s = (.ok a,s') ↔ x = some a ∧ s = s' := by
  cases x with
  | some b => simp
  | none => simp

theorem zoom_run (view : σ → τ) (put : τ → σ → σ) (x : Exec τ ε α) (s : σ) :
    (zoom view put x).run s = ((x.run (view s)).1,put (x.run (view s)).2 s) := rfl

theorem zoom_eq_ok {view : σ → τ} {put : τ → σ → σ} {x : Exec τ ε α} {s s' : σ} {a : α} :
    (zoom view put x).run s = (.ok a,s') ↔ ∃ t, x.run (view s) = (.ok a,t) ∧ put t s = s' := by
  rw [zoom_run]
  rcases x.run (view s) with ⟨r,t⟩
  cases r with
  | ok b => simp
  | error e => simp

theorem mapError_eq_ok {f : δ → ε} {x : Exec σ δ α} {s s' : σ} {a : α} :
    (mapError f x).run s = (.ok a,s') ↔ x.run s = (.ok a,s') := by
  simp only [mapError]
  rcases x.run s with ⟨r,t⟩
  cases r with
  | ok b => simp
  | error e => cases e <;> simp

theorem zoom_of_run {view : σ → τ} {put : τ → σ → σ} {x : Exec τ ε α} {s : σ} {r : Outcome ε α}
    {t : τ} (h : x.run (view s) = (r,t)) : (zoom view put x).run s = (r,put t s) := by
  rw [zoom_run,h]

theorem mapError_of_ok {f : δ → ε} {x : Exec σ δ α} {s s' : σ} {a : α} (h : x.run s = (.ok a,s')) :
    (mapError f x).run s = (.ok a,s') := by
  simp only [mapError,h]

theorem attempt_of_ok {x : Exec σ δ α} {s s' : σ} {a : α} (h : x.run s = (.ok a,s')) :
    (attempt x : Exec σ ε _).run s = (.ok (.ok a),s') := by
  simp only [attempt,h]

theorem attempt_of_error {x : Exec σ δ α} {s s' : σ} {e : δ}
    (h : x.run s = (.error (.error e),s')) :
    (attempt x : Exec σ ε _).run s = (.ok (.error e),s') := by
  simp only [attempt,h]

/-- A call without a result has returned. -/
theorem eq_ok_of_isOk {r : Except ε Unit} (h : r.isOk = true) : r = .ok () := by
  cases r with
  | error e => simp [Except.isOk,Except.toBool] at h
  | ok u => rfl

theorem run_of_isOk {x : Exec σ ε Unit} {s : σ} (h : (x.run s).1.isOk = true) :
    x.run s = (.ok (),(x.run s).2) :=
  Prod.ext (eq_ok_of_isOk h) rfl

/-- If the call returned, `Q` holds of what it returned and left behind. -/
def Ensures (r : Outcome ε α × σ) (Q : α → σ → Prop) : Prop :=
  match r with
  | (.ok a,s) => Q a s
  | (.error _,_) => True

instance (r : Outcome ε α × σ) (Q : α → σ → Prop) [∀ a s, Decidable (Q a s)] :
    Decidable (Ensures r Q) :=
  match r with
  | (.ok a,s) => inferInstanceAs (Decidable (Q a s))
  | (.error _,_) => isTrue trivial

theorem Ensures.of_ok {r : Outcome ε α × σ} {Q : α → σ → Prop} (h : Ensures r Q) {a : α} {s : σ}
    (hr : r = (.ok a,s)) : Q a s := by
  subst hr
  exact h

/-- `P` before the call gives `Q` after a return and `E` after a failure. -/
def Triple (P : σ → Prop) (x : Exec σ ε α) (Q : α → σ → Prop) (E : Fault ε → σ → Prop) : Prop :=
  ∀ s, P s → match x.run s with
    | (.ok a,s') => Q a s'
    | (.error f,s') => E f s'

namespace Triple
variable {P : σ → Prop} {Q : α → σ → Prop} {R : β → σ → Prop} {E : Fault ε → σ → Prop}

theorem pure {a : α} (h : ∀ s, P s → Q a s) : Triple P (Pure.pure a : Exec σ ε α) Q E := h

theorem throw {e : ε} (h : ∀ s, P s → E (.error e) s) : Triple P (Exec.throw e) Q E := h

theorem panic (h : ∀ s, P s → E .panic s) : Triple P Exec.panic Q E := h

theorem get {Q : σ → σ → Prop} (h : ∀ s, P s → Q s s) : Triple P (Exec.get : Exec σ ε σ) Q E := h

theorem modify {f : σ → σ} {Q : Unit → σ → Prop} (h : ∀ s, P s → Q () (f s)) :
    Triple P (Exec.modify f : Exec σ ε Unit) Q E := h

theorem lift {f : δ → ε} {x : Except δ α} (hok : ∀ a, x = .ok a → ∀ s, P s → Q a s)
    (herr : ∀ e, x = .error e → ∀ s, P s → E (.error (f e)) s) : Triple P (Exec.lift f x) Q E := by
  intro s hs
  cases x with
  | ok a => exact hok a rfl s hs
  | error e => exact herr e rfl s hs

theorem orThrow {e : ε} {x : Option α} (hsome : ∀ a, x = some a → ∀ s, P s → Q a s)
    (hnone : ∀ s, P s → E (.error e) s) : Triple P (Exec.orThrow e x) Q E := by
  intro s hs
  cases x with
  | some a => exact hsome a rfl s hs
  | none => exact hnone s hs

theorem bind {x : Exec σ ε α} {f : α → Exec σ ε β} (hx : Triple P x Q E)
    (hf : ∀ a, Triple (Q a) (f a) R E) : Triple P (x >>= f) R E := by
  intro s hs
  have h := hx s hs
  rw [bind_run]
  rcases hr : x.run s with ⟨r,s'⟩
  rw [hr] at h
  cases r with
  | ok a => exact hf a s' h
  | error e => exact h

theorem conseq {P' : σ → Prop} {Q' : α → σ → Prop} {E' : Fault ε → σ → Prop} {x : Exec σ ε α}
    (h : Triple P x Q E) (hP : ∀ s, P' s → P s) (hQ : ∀ a s, Q a s → Q' a s)
    (hE : ∀ f s, E f s → E' f s) : Triple P' x Q' E' := by
  intro s hs
  have hh := h s (hP s hs)
  rcases hr : x.run s with ⟨r,s'⟩
  rw [hr] at hh
  cases r with
  | ok a => exact hQ a s' hh
  | error e => exact hE e s' hh

theorem pre {P' : σ → Prop} {x : Exec σ ε α} (h : Triple P x Q E) (hP : ∀ s, P' s → P s) :
    Triple P' x Q E := fun s hs => h s (hP s hs)

theorem failing {E' : Fault ε → σ → Prop} {x : Exec σ ε α} (h : Triple P x Q E)
    (hE : ∀ f s, E f s → E' f s) : Triple P x Q E' :=
  h.conseq (fun _ hs => hs) (fun _ _ hs => hs) hE

/-- A call on a component keeps what is said about that component. -/
theorem zoom {view : σ → τ} {put : τ → σ → σ} (hview : ∀ t s, view (put t s) = t)
    {P : τ → Prop} {Q : α → τ → Prop} {E : Fault ε → τ → Prop} {x : Exec τ ε α}
    (h : Triple P x Q E) :
    Triple (fun s => P (view s)) (Exec.zoom view put x) (fun a s => Q a (view s))
      (fun f s => E f (view s)) := by
  intro s hs
  have hh := h (view s) hs
  rw [zoom_run]
  rcases hr : x.run (view s) with ⟨r,t⟩
  rw [hr] at hh
  cases r with
  | ok a => simpa only [hview] using hh
  | error e => simpa only [hview] using hh

theorem mapError {f : δ → ε} {x : Exec σ δ α} {E : σ → Prop} (h : Triple P x Q fun _ => E) :
    Triple P (Exec.mapError f x) Q fun _ => E := by
  intro s hs
  have hx := h s hs
  simp only [Exec.mapError]
  rcases hr : x.run s with ⟨r,s'⟩
  rw [hr] at hx
  cases r with
  | ok a => exact hx
  | error e => cases e <;> exact hx

end Triple

/-- The call keeps `I` whether it returns or fails, and what it returns satisfies `Q`. -/
def Keeps (I : σ → Prop) (x : Exec σ ε α) (Q : α → Prop) : Prop :=
  Triple I x (fun a s => I s ∧ Q a) fun _ s => I s

namespace Keeps
variable {I : σ → Prop} {Q : α → Prop} {R : β → Prop}

theorem pure {a : α} (h : Q a) : Keeps I (Pure.pure a : Exec σ ε α) Q :=
  Triple.pure fun _ hs => ⟨hs,h⟩

theorem throw {e : ε} : Keeps I (Exec.throw e : Exec σ ε α) Q := Triple.throw fun _ hs => hs

theorem panic : Keeps I (Exec.panic : Exec σ ε α) Q := Triple.panic fun _ hs => hs

theorem get : Keeps I (Exec.get : Exec σ ε σ) I := Triple.get fun _ hs => ⟨hs,hs⟩

theorem modify {f : σ → σ} (h : ∀ s, I s → I (f s)) :
    Keeps I (Exec.modify f : Exec σ ε Unit) fun _ => True :=
  Triple.modify fun s hs => ⟨h s hs,trivial⟩

theorem lift {f : δ → ε} {x : Except δ α} : Keeps I (Exec.lift f x) fun a => x = .ok a :=
  Triple.lift (fun _ ha _ hs => ⟨hs,ha⟩) fun _ _ _ hs => hs

theorem orThrow {e : ε} {x : Option α} : Keeps I (Exec.orThrow e x) fun a => x = some a :=
  Triple.orThrow (fun _ ha _ hs => ⟨hs,ha⟩) fun _ hs => hs

theorem bind {x : Exec σ ε α} {f : α → Exec σ ε β} (hx : Keeps I x Q)
    (hf : ∀ a, Q a → Keeps I (f a) R) : Keeps I (x >>= f) R :=
  Triple.bind hx fun a s hs => hf a hs.2 s hs.1

/-- A call that keeps the precondition comes before what needs it. -/
theorem andThen {x : Exec σ ε α} {f : α → Exec σ ε β} {S : β → σ → Prop}
    {E : Fault ε → σ → Prop} (hx : Keeps I x Q) (hE : ∀ f s, I s → E f s)
    (hf : ∀ a, Q a → Triple I (f a) S E) : Triple I (x >>= f) S E :=
  Triple.bind (Triple.failing hx hE) fun a s hs => hf a hs.2 s hs.1

theorem mono {Q' : α → Prop} {x : Exec σ ε α} (h : Keeps I x Q) (hQ : ∀ a, Q a → Q' a) :
    Keeps I x Q' :=
  Triple.conseq h (fun _ hs => hs) (fun a _ hs => ⟨hs.1,hQ a hs.2⟩) fun _ _ hs => hs

theorem zoom (view : σ → τ) (put : τ → σ → σ) (hview : ∀ t s, view (put t s) = t)
    {I : τ → Prop} {x : Exec τ ε α} (h : Keeps I x Q) :
    Keeps (fun s => I (view s)) (Exec.zoom view put x) Q :=
  Triple.zoom hview h

/-- A call on a component keeps what does not depend on the component. -/
theorem elsewhere {view : σ → τ} {put : τ → σ → σ} {x : Exec τ ε α}
    (hI : ∀ t s, I s → I (put t s)) : Keeps I (Exec.zoom view put x) fun _ => True := by
  intro s hs
  rw [zoom_run]
  rcases x.run (view s) with ⟨r,t⟩
  cases r with
  | ok a => exact ⟨hI t s hs,trivial⟩
  | error e => exact hI t s hs

theorem mapError {f : δ → ε} {x : Exec σ δ α} (h : Keeps I x Q) :
    Keeps I (Exec.mapError f x) Q := Triple.mapError h

theorem attempt {x : Exec σ ε α} (h : Keeps I x Q) :
    Keeps I (Exec.attempt x : Exec σ δ (Except ε α)) fun r => ∀ a, r = .ok a → Q a := by
  intro s hs
  have hx := h s hs
  rcases hr : x.run s with ⟨(e | _) | a,s'⟩
  · rw [hr] at hx
    simp only [Exec.attempt,hr]
    exact ⟨hx,by simp⟩
  · rw [hr] at hx
    simp only [Exec.attempt,hr]
    exact hx
  · rw [hr] at hx
    simp only [Exec.attempt,hr]
    exact ⟨hx.1,fun b hb => Except.ok.inj hb ▸ hx.2⟩

/-- Whatever the outcome, the state that a call leaves behind satisfies the invariant. -/
theorem snd {x : Exec σ ε α} (h : Keeps I x Q) {s : σ} (hs : I s) : I (x.run s).2 := by
  have hx := h s hs
  rcases hr : x.run s with ⟨r,s'⟩
  rw [hr] at hx
  cases r with
  | ok a => exact hx.1
  | error e => exact hx

theorem state {x : Exec σ ε α} (h : Keeps I x Q) {s s' : σ} (hs : I s) {r : Outcome ε α}
    (hr : x.run s = (r,s')) : I s' := by
  have hx := h.snd hs
  rwa [hr] at hx

theorem result {x : Exec σ ε α} (h : Keeps I x Q) {s s' : σ} (hs : I s) {a : α}
    (hr : x.run s = (.ok a,s')) : Q a := by
  have hx := h s hs
  rw [hr] at hx
  exact hx.2

end Keeps

/-- The call returns or fails with an error value, but never panics. -/
def Calm (x : Exec σ ε α) : Prop :=
  Triple (fun _ => True) x (fun _ _ => True) fun f _ => f ≠ .panic

namespace Calm

theorem pure {a : α} : Calm (Pure.pure a : Exec σ ε α) := Triple.pure fun _ _ => trivial

theorem throw {e : ε} : Calm (Exec.throw e : Exec σ ε α) := Triple.throw fun _ _ => by simp

theorem get : Calm (Exec.get : Exec σ ε σ) := Triple.get fun _ _ => trivial

theorem modify {f : σ → σ} : Calm (Exec.modify f : Exec σ ε Unit) :=
  Triple.modify fun _ _ => trivial

theorem lift {f : δ → ε} {x : Except δ α} : Calm (Exec.lift f x : Exec σ ε α) :=
  Triple.lift (fun _ _ _ _ => trivial) fun _ _ _ _ => by simp

theorem orThrow {e : ε} {x : Option α} : Calm (Exec.orThrow e x : Exec σ ε α) :=
  Triple.orThrow (fun _ _ _ _ => trivial) fun _ _ => by simp

theorem bind {x : Exec σ ε α} {f : α → Exec σ ε β} (hx : Calm x) (hf : ∀ a, Calm (f a)) :
    Calm (x >>= f) := Triple.bind hx hf

theorem zoom {view : σ → τ} {put : τ → σ → σ} (hview : ∀ t s, view (put t s) = t)
    {x : Exec τ ε α} (h : Calm x) : Calm (Exec.zoom view put x) := Triple.zoom hview h

theorem run {x : Exec σ ε α} (h : Calm x) (s : σ) : (x.run s).1 ≠ .error .panic := by
  have hx := h s trivial
  rcases hr : x.run s with ⟨r,s'⟩
  rw [hr] at hx
  cases r with
  | ok a => simp
  | error f => exact fun he => hx (Except.error.inj he)

/-- What follows a call and never panics does not decide whether the sequence does. -/
theorem bind_panic_iff {x : Exec σ ε α} {f : α → Exec σ ε β} (hf : ∀ a, Calm (f a)) {s : σ} :
    ((x >>= f).run s).1 = .error .panic ↔ (x.run s).1 = .error .panic := by
  rw [bind_run]
  rcases x.run s with ⟨r,s'⟩
  cases r with
  | ok a => simpa using (hf a).run s'
  | error e => simp

end Calm

/-- `x` does what `y` does, unless it fails with the error `e`. -/
def OrFails (e : ε) (x y : Exec σ ε α) : Prop :=
  ∀ s, x.run s = y.run s ∨ (x.run s).1 = .error (.error e)

namespace OrFails
variable {e : ε} {x y : Exec σ ε α}

theorem refl (x : Exec σ ε α) : OrFails e x x := fun _ => Or.inl rfl

theorem bind {f g : α → Exec σ ε β} (hx : OrFails e x y) (hf : ∀ a, OrFails e (f a) (g a)) :
    OrFails e (x >>= f) (y >>= g) := by
  intro s
  simp only [bind_run]
  rcases hx s with h | h
  · rw [h]
    rcases y.run s with ⟨r,s'⟩
    cases r with
    | ok a => exact hf a s'
    | error f => exact Or.inl rfl
  · rcases hr : x.run s with ⟨r,s'⟩
    rw [hr] at h
    obtain rfl : r = .error (.error e) := h
    exact Or.inr rfl

end OrFails
end Exec

section
variable {ε β : Type}

/-- A computation that reads no state. -/
def Exec.ofOutcome {σ α : Type} (r : Outcome ε α) : Exec σ ε α := ⟨fun s => (r,s)⟩

/-- `l[i..j]` -/
def slice (l : List β) (i j : ℕ) : Outcome ε (List β) :=
  if i ≤ j ∧ j ≤ l.length then .ok ((l.drop i).take (j-i)) else .error .panic

/-- `l.split_to(n)` -/
def splitTo (l : List β) (n : ℕ) : Outcome ε (List β × List β) :=
  if n ≤ l.length then .ok (l.take n,l.drop n) else .error .panic

/-- `l[i] = f(l[i])` -/
def updateAt (l : List β) (i : ℕ) (f : β → β) : Outcome ε (List β) :=
  if i < l.length then .ok (l.modify i f) else .error .panic

/-- `a - b` on unsigned numbers. -/
def checkedSub (a b : ℕ) : Outcome ε ℕ := if b ≤ a then .ok (a-b) else .error .panic

theorem slice_ok {l : List β} {i j : ℕ} (hi : i ≤ j) (hj : j ≤ l.length) :
    (slice l i j : Outcome ε _) = .ok ((l.drop i).take (j-i)) := if_pos ⟨hi,hj⟩

theorem splitTo_ok {l : List β} {n : ℕ} (h : n ≤ l.length) :
    (splitTo l n : Outcome ε _) = .ok (l.take n,l.drop n) := if_pos h

theorem updateAt_ok {l : List β} {i : ℕ} (h : i < l.length) (f : β → β) :
    (updateAt l i f : Outcome ε _) = .ok (l.modify i f) := if_pos h

theorem checkedSub_ok {a b : ℕ} (h : b ≤ a) : (checkedSub a b : Outcome ε _) = .ok (a-b) :=
  if_pos h

end
end MlsTls.Lib
