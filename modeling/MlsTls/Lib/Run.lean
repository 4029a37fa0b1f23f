import Mathlib.Tactic.Common

/-! Runs of an event-driven machine: any sequence of events, each of them allowed in the state it
happens in. -/
namespace MlsTls.Lib

/-- `Run step ok x y`: the events of a run from `x` lead to `y`. -/
inductive Run {σ ε : Type} (step : ε → σ → σ) (ok : ε → σ → Prop) : σ → σ → Prop
  | refl (x : σ) : Run step ok x x
  | tail {x y : σ} (e : ε) (head : Run step ok x y) (h : ok e y) : Run step ok x (step e y)

namespace Run
variable {σ ε : Type} {step : ε → σ → σ} {ok : ε → σ → Prop} {x y z : σ}

/-- What every allowed event preserves holds in every state of a run. -/
theorem invariant {I : σ → Prop} (hstep : ∀ e y, I y → ok e y → I (step e y))
    (h : Run step ok x y) (hx : I x) : I y := by
  induction h with
  | refl => exact hx
  | tail e _ hok ih => exact hstep e _ ih hok

/-- Events that are allowed where the invariant holds. -/
theorem under {I : σ → Prop} {ok' : ε → σ → Prop}
    (hstep : ∀ e y, I y → ok e y → I (step e y) ∧ ok' e y) (h : Run step ok x y) (hx : I x) :
    Run step ok' x y ∧ I y := by
  induction h with
  | refl => exact ⟨.refl _,hx⟩
  | tail e _ hok ih =>
    obtain ⟨hrun,hy⟩ := ih
    obtain ⟨hnext,hok'⟩ := hstep e _ hy hok
    exact ⟨.tail e hrun hok',hnext⟩

theorem mono {ok' : ε → σ → Prop} (hok : ∀ e x, ok e x → ok' e x) (h : Run step ok x y) :
    Run step ok' x y := by
  induction h with
  | refl => exact .refl _
  | tail e _ he ih => exact .tail e ih (hok e _ he)

theorem single (e : ε) (h : ok e x) : Run step ok x (step e x) := .tail e (.refl x) h

theorem trans (h : Run step ok x y) (h' : Run step ok y z) : Run step ok x z := by
  induction h' with
  | refl => exact h
  | tail e _ he ih => exact .tail e ih he

/-- If another machine can follow each event, it can follow every run. -/
theorem simulate {τ δ : Type} {step' : δ → τ → τ} {ok' : δ → τ → Prop} {sim : σ → τ → Prop}
    (hstep : ∀ {e x t}, sim x t → ok e x → ∃ t', Run step' ok' t t' ∧ sim (step e x) t')
    (h : Run step ok x y) {t : τ} (hx : sim x t) : ∃ t', Run step' ok' t t' ∧ sim y t' := by
  induction h with
  | refl => exact ⟨t,.refl t,hx⟩
  | tail e _ hok ih =>
    obtain ⟨t',hrun,hy⟩ := ih
    obtain ⟨t'',hrun',hnext⟩ := hstep hy hok
    exact ⟨t'',hrun.trans hrun',hnext⟩

variable (step ok) in
/-- Every event of the list is allowed where it happens. -/
def Allowed : List ε → σ → Prop
  | [],_ => True
  | e::es,x => ok e x ∧ Allowed es (step e x)

instance decidableAllowed [∀ e x, Decidable (ok e x)] : (es : List ε) → (x : σ) →
    Decidable (Allowed step ok es x)
  | [],_ => isTrue trivial
  | e::es,x =>
    have := decidableAllowed es (step e x)
    inferInstanceAs (Decidable (_ ∧ _))

theorem ofList {es : List ε} (h : Allowed step ok es x) :
    Run step ok x (es.foldl (fun x e => step e x) x) := by
  induction es generalizing x with
  | nil => exact .refl x
  | cons e es ih => exact (single e h.1).trans (ih h.2)

/-- The machine that also writes down what is seen of its events. -/
def record {β : Type} (step : ε → σ → σ) (seen : ε → σ → List β) (e : ε) (x : σ × List β) :
    σ × List β := (step e x.1,x.2++seen e x.1)

/-- A machine that keeps `I` refines another one whose actions are `act`: what is seen of each of
its events leads from what the state stands for to what the next state stands for. -/
structure Refines {β τ : Type} (step : ε → σ → σ) (ok : ε → σ → Prop) (seen : ε → σ → List β)
    (I : σ → Prop) (act : τ → β → Option τ) (stands : σ → τ) : Prop where
  keeps : ∀ {e x}, I x → ok e x → I (step e x)
  simulates : ∀ {e x}, I x → ok e x → (seen e x).foldlM act (stands x) = some (stands (step e x))

section
variable {β τ : Type} {seen : ε → σ → List β} {I : σ → Prop} {act : τ → β → Option τ}
  {stands : σ → τ}

/-- What has been seen of a run are actions that the abstract machine can do. -/
theorem Refines.run (h : Refines step ok seen I act stands) {x y : σ × List β} {t : τ}
    (hrun : Run (record step seen) (fun e z => ok e z.1) x y) (hx : I x.1)
    (hact : x.2.foldlM act t = some (stands x.1)) :
    I y.1 ∧ y.2.foldlM act t = some (stands y.1) := by
  induction hrun with
  | refl => exact ⟨hx,hact⟩
  | tail e _ hok ih =>
    obtain ⟨hI,hy⟩ := ih
    refine ⟨h.keeps hI hok,?_⟩
    rw [record,List.foldlM_append,hy]
    exact h.simulates hI hok

end

section
variable {τ : Type} (step ok) (view : σ → τ)

/-- An allowed event changes what `view` shows of the state. -/
def Changes (y x : σ) : Prop := ∃ e, ok e x ∧ y = step e x ∧ view y ≠ view x

/-- No allowed event changes what `view` shows of the state. -/
def Settled (x : σ) : Prop := ∀ e, ok e x → view (step e x) = view x

variable {step ok view}

/-- Changes come to an end when each of them makes something smaller. -/
theorem acc_changes {α : Type} {r : α → α → Prop} (hr : WellFounded r) (size : σ → α) {I : σ → Prop}
    (hkeeps : ∀ {e y}, I y → ok e y → I (step e y))
    (hless : ∀ {e y}, I y → ok e y → view (step e y) ≠ view y → r (size (step e y)) (size y))
    (hx : I x) : Acc (Changes step ok view) x := by
  generalize hn : size x = n
  induction n using hr.induction generalizing x with
  | h n ih =>
    refine ⟨x,?_⟩
    rintro y ⟨e,he,rfl,hne⟩
    exact ih _ (hn ▸ hless hx he hne) (hkeeps hx he) rfl

/-- Where changes come to an end, some run leads to the end. -/
theorem exists_settled (h : Acc (Changes step ok view) x) :
    ∃ y, Run step ok x y ∧ Settled step ok view y := by
  induction h with
  | intro x _ ih =>
    by_cases hx : Settled step ok view x
    · exact ⟨x,.refl x,hx⟩
    · simp only [Settled,not_forall] at hx
      obtain ⟨e,he,hne⟩ := hx
      obtain ⟨y,hrun,hy⟩ := ih (step e x) ⟨e,he,rfl,hne⟩
      exact ⟨y,(single e he).trans hrun,hy⟩

end

end Run
end MlsTls.Lib
