import MlsTls.Lib.Exec

/-! Calls that make several writes, and what they leave behind when the process stops between two
of them. Next to the call there stand the states after each of its writes; what is proved of all of
them holds wherever the process stops. -/
namespace MlsTls.Lib

/-- A call for each of the values in turn, up to the first that fails. -/
def Exec.each {σ ε α : Type} (f : α → Exec σ ε Unit) : List α → Exec σ ε Unit
  | [] => pure ()
  | a::as => do
    f a
    Exec.each f as

/-- A call with the states after each of its writes; `ω` says what was written. -/
structure Steps (σ ω ε α : Type) where
  exec : Exec σ ε α
  writes : σ → List (ω × σ)

namespace Steps
variable {σ τ ω ε α β : Type}

/-- A call without a write. -/
def read (x : Exec σ ε α) : Steps σ ω ε α := ⟨x,fun _ => []⟩

/-- A call whose one write is the last thing that changes the state, whether it then returns or
fails. -/
def write (w : ω) (x : Exec σ ε α) : Steps σ ω ε α := ⟨x,fun s => [(w,(x.run s).2)]⟩

instance : Monad (Steps σ ω ε) where
  pure a := ⟨pure a,fun _ => []⟩
  bind x f := ⟨x.exec >>= fun a => (f a).exec,fun s => x.writes s++match x.exec.run s with
    | (.ok a,s') => (f a).writes s'
    | (.error _,_) => []⟩

/-- A call on a component. -/
def zoom (view : σ → τ) (put : τ → σ → σ) (x : Steps τ ω ε α) : Steps σ ω ε α :=
  ⟨Exec.zoom view put x.exec,fun s => (x.writes (view s)).map fun p => (p.1,put p.2 s)⟩

/-- A call for each of the values in turn, write by write. -/
def each (f : α → Steps σ ω ε Unit) : List α → Steps σ ω ε Unit
  | [] => pure ()
  | a::as => do
    f a
    each f as

/-- What was written last and the state, if the process stops after so many writes. A call with
fewer writes is over then. -/
def stopped (x : Steps σ ω ε α) (s : σ) : ℕ → Option ω × σ
  | 0 => (none,s)
  | n+1 =>
    match (x.writes s)[n]? with
    | some (w,s') => (some w,s')
    | none => (none,(x.exec.run s).2)

@[simp] theorem read_exec (x : Exec σ ε α) : (read x : Steps σ ω ε α).exec = x := rfl
@[simp] theorem write_exec (w : ω) (x : Exec σ ε α) : (write w x).exec = x := rfl
@[simp] theorem pure_exec (a : α) : (pure a : Steps σ ω ε α).exec = pure a := rfl
@[simp] theorem bind_exec (x : Steps σ ω ε α) (f : α → Steps σ ω ε β) :
    (x >>= f).exec = x.exec >>= fun a => (f a).exec := rfl
@[simp] theorem zoom_exec (view : σ → τ) (put : τ → σ → σ) (x : Steps τ ω ε α) :
    (zoom view put x).exec = Exec.zoom view put x.exec := rfl

theorem bind_exec_congr {x : Steps σ ω ε α} {f : α → Steps σ ω ε β} {y : Exec σ ε α}
    {g : α → Exec σ ε β} (hx : x.exec = y) (hf : ∀ a, (f a).exec = g a) :
    (x >>= f).exec = y >>= g := by
  rw [bind_exec,hx,funext hf]

theorem each_exec (f : α → Steps σ ω ε Unit) (as : List α) :
    (each f as).exec = Exec.each (fun a => (f a).exec) as := by
  induction as with
  | nil => rfl
  | cons a as ih => exact bind_exec_congr rfl fun _ => ih

/-- From `P` the call returns in `Q` and fails in `I`, and every write of it that is not `torn`
leaves `I` behind. -/
structure Durable (I : σ → Prop) (torn : ω → Prop) (P : σ → Prop) (x : Steps σ ω ε α)
    (Q : α → σ → Prop) : Prop where
  exec : Exec.Triple P x.exec Q fun _ s => I s
  writes : ∀ s, P s → ∀ p ∈ x.writes s, ¬torn p.1 → I p.2

namespace Durable
variable {I P : σ → Prop} {torn : ω → Prop} {Q : α → σ → Prop} {R : β → σ → Prop}

theorem pure {a : α} (h : ∀ s, P s → Q a s) :
    Durable I torn P (Pure.pure a : Steps σ ω ε α) Q :=
  ⟨Exec.Triple.pure h,fun _ _ _ hp => absurd hp List.not_mem_nil⟩

theorem read {x : Exec σ ε α} (h : Exec.Triple P x Q fun _ s => I s) :
    Durable I torn P (Steps.read x) Q :=
  ⟨h,fun _ _ _ hp => absurd hp List.not_mem_nil⟩

theorem write {w : ω} {x : Exec σ ε α} (h : Exec.Triple P x Q fun _ s => I s)
    (hQ : ¬torn w → ∀ a s, Q a s → I s) : Durable I torn P (Steps.write w x) Q := by
  refine ⟨h,fun s hs p hp ht => ?_⟩
  obtain rfl := List.mem_singleton.mp hp
  have hx := h s hs
  change I (x.run s).2
  generalize x.run s = r at hx ⊢
  obtain ⟨f | a,s'⟩ := r
  · exact hx
  · exact hQ ht a s' hx

theorem bind {x : Steps σ ω ε α} {f : α → Steps σ ω ε β} (hx : Durable I torn P x Q)
    (hf : ∀ a, Durable I torn (Q a) (f a) R) : Durable I torn P (x >>= f) R := by
  refine ⟨Exec.Triple.bind hx.exec fun a => (hf a).exec,fun s hs p hp ht => ?_⟩
  rcases List.mem_append.mp hp with hp | hp
  · exact hx.writes s hs p hp ht
  · have hrun := hx.exec s hs
    rcases hr : x.exec.run s with ⟨f' | a,s'⟩
    · rw [hr] at hp
      exact absurd hp List.not_mem_nil
    · rw [hr] at hp hrun
      exact (hf a).writes s' hrun p hp ht

/-- A loop keeps what each of its rounds keeps. -/
theorem each {f : α → Steps σ ω ε Unit} {as : List α}
    (h : ∀ a ∈ as, Durable I torn P (f a) fun _ => P) :
    Durable I torn P (Steps.each f as) fun _ => P := by
  induction as with
  | nil => exact .pure fun _ hs => hs
  | cons a as ih =>
    exact .bind (h a List.mem_cons_self) fun _ => ih fun b hb => h b (List.mem_cons_of_mem a hb)

theorem conseq {P' : σ → Prop} {Q' : α → σ → Prop} {x : Steps σ ω ε α} (h : Durable I torn P x Q)
    (hP : ∀ s, P' s → P s) (hQ : ∀ a s, Q a s → Q' a s) : Durable I torn P' x Q' :=
  ⟨h.exec.conseq hP hQ fun _ _ hs => hs,fun s hs => h.writes s (hP s hs)⟩

/-- What is known of the component carries over to the whole. -/
theorem zoom {view : τ → σ} {put : σ → τ → τ} {x : Steps σ ω ε α} {I' P' : τ → Prop}
    {Q' : α → τ → Prop} (h : Durable I torn P x Q) (hP : ∀ t, P' t → P (view t))
    (hQ : ∀ a s t, P' t → Q a s → Q' a (put s t)) (hI : ∀ s t, P' t → I s → I' (put s t)) :
    Durable I' torn P' (Steps.zoom view put x) Q' := by
  constructor
  · intro t ht
    have hx := h.exec (view t) (hP t ht)
    rw [zoom_exec,Exec.zoom_run]
    generalize x.exec.run (view t) = r at hx ⊢
    obtain ⟨f | a,s'⟩ := r
    · exact hI s' t ht hx
    · exact hQ a s' t ht hx
  · intro t ht p hp htorn
    obtain ⟨q,hq,rfl⟩ := List.mem_map.mp hp
    exact hI _ t ht (h.writes (view t) (hP t ht) q hq htorn)

/-- Wherever the process stops, unless right after a torn write, it leaves `I` behind. -/
theorem stopped {x : Steps σ ω ε α} (h : Durable I torn P x Q) (hP : ∀ s, P s → I s)
    (hQ : ∀ a s, Q a s → I s) {s : σ} (hs : P s) (n : ℕ)
    (ht : ∀ w, (x.stopped s n).1 = some w → ¬torn w) : I (x.stopped s n).2 := by
  cases n with
  | zero => exact hP s hs
  | succ n =>
    simp only [Steps.stopped] at ht ⊢
    cases hn : (x.writes s)[n]? with
    | some p =>
      rw [hn] at ht
      exact h.writes s hs p (List.mem_of_getElem? hn) (ht p.1 rfl)
    | none =>
      have hx := h.exec s hs
      change I (x.exec.run s).2
      generalize x.exec.run s = r at hx ⊢
      obtain ⟨f | a,s'⟩ := r
      · exact hx
      · exact hQ a s' hx

end Durable
end Steps
end MlsTls.Lib
