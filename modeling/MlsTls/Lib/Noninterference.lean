import MlsTls.Lib.Exec

/-! Calls that stay within a part of the state, and machines whose users do not see each other. A
call within a part is a call on that part alone; so it neither depends on the rest nor changes it. A
call may also write what it does not read: it respects a relation if it does the same in related
states, and leaves related states behind. A machine keeps its users apart if every event of one user
agrees on what it can see, and no other event changes that. -/
namespace MlsTls.Lib

/-- A part of the state that can be read and replaced. -/
structure Lens (σ τ : Type) where
  view : σ → τ
  put : τ → σ → σ
  view_put : ∀ t s, view (put t s) = t
  put_view : ∀ s, put (view s) s = s
  put_put : ∀ t t' s, put t' (put t s) = put t' s

/-- The part of the second component, together with the first component. -/
def Lens.beside {σ τ : Type} (ρ : Type) (l : Lens σ τ) : Lens (ρ × σ) (ρ × τ) where
  view s := (s.1,l.view s.2)
  put t s := (t.1,l.put t.2 s.2)
  view_put t s := by rw [l.view_put]
  put_view s := by rw [l.put_view]
  put_put t t' s := by rw [l.put_put]

namespace Exec
variable {σ τ ε δ α β : Type}

/-- A caller that goes on whatever the outcome is. -/
def outcome (x : Exec σ ε α) : Exec σ δ (Outcome ε α) := ⟨fun s => (.ok (x.run s).1,(x.run s).2)⟩

@[simp] theorem outcome_run (x : Exec σ ε α) (s : σ) :
    (outcome x : Exec σ δ _).run s = (.ok (x.run s).1,(x.run s).2) := rfl

/-- Where `J` holds of the part, the call is one on the part alone. It keeps `J`, and what it
returns satisfies `Q`. -/
def Within (l : Lens σ τ) (J : τ → Prop) (x : Exec σ ε α) (Q : α → Prop) : Prop :=
  ∃ y : Exec τ ε α, Keeps J y Q ∧ ∀ s, J (l.view s) → x.run s = (zoom l.view l.put y).run s

namespace Within
variable {l : Lens σ τ} {J : τ → Prop} {x : Exec σ ε α} {Q : α → Prop} {R : β → Prop}

theorem pure {a : α} (h : Q a) : Within l J (Pure.pure a : Exec σ ε α) Q :=
  ⟨Pure.pure a,.pure h,fun s _ => by rw [zoom_run,pure_run,pure_run,l.put_view]⟩

theorem throw {e : ε} : Within l J (Exec.throw e : Exec σ ε α) Q :=
  ⟨Exec.throw e,.throw,fun s _ => by rw [zoom_run,throw_run,throw_run,l.put_view]⟩

theorem panic : Within l J (Exec.panic : Exec σ ε α) Q :=
  ⟨Exec.panic,.panic,fun s _ => by rw [zoom_run,panic_run,panic_run,l.put_view]⟩

theorem lift {f : δ → ε} {r : Except δ α} : Within l J (Exec.lift f r) fun a => r = .ok a := by
  cases r with
  | ok a => exact pure rfl
  | error e => exact throw

theorem orThrow {e : ε} {o : Option α} : Within l J (Exec.orThrow e o) fun a => o = some a := by
  cases o with
  | some a => exact pure rfl
  | none => exact throw

/-- The part is written. -/
theorem modify {f : σ → σ} (g : τ → τ) (hf : ∀ s, J (l.view s) → f s = l.put (g (l.view s)) s)
    (hg : ∀ t, J t → J (g t)) : Within l J (Exec.modify f : Exec σ ε Unit) fun _ => True :=
  ⟨Exec.modify g,.modify hg,fun s hs => by rw [zoom_run,modify_run,modify_run,hf s hs]⟩

theorem bind {f : α → Exec σ ε β} (hx : Within l J x Q) (hf : ∀ a, Q a → Within l J (f a) R) :
    Within l J (x >>= f) R := by
  classical
  obtain ⟨y,hy,hrun⟩ := hx
  refine ⟨y >>= fun a => if h : Q a then (hf a h).choose else Exec.panic,.bind hy fun a ha => ?_,
    fun s hs => ?_⟩
  · rw [dif_pos ha]
    exact (hf a ha).choose_spec.1
  · have hkeeps := hy (l.view s) hs
    rw [bind_run,hrun s hs,zoom_run,zoom_run,bind_run]
    rcases hr : y.run (l.view s) with ⟨r,t⟩
    rw [hr] at hkeeps
    cases r with
    | error e => rfl
    | ok a =>
      obtain ⟨ht,ha⟩ := hkeeps
      have hview : l.view (l.put t s) = t := l.view_put t s
      have hrest := (hf a ha).choose_spec.2 (l.put t s) (by rw [hview]; exact ht)
      rw [zoom_run,hview,l.put_put] at hrest
      simp only [dif_pos ha]
      exact hrest

/-- What is read of the state is read of the part. -/
theorem get_bind {f : σ → Exec σ ε α} (g : τ → Exec σ ε α)
    (hf : ∀ s, J (l.view s) → f s = g (l.view s)) (hg : ∀ t, J t → Within l J (g t) Q) :
    Within l J (Exec.get >>= f) Q := by
  classical
  refine ⟨⟨fun t => if h : J t then (hg t h).choose.run t else (.error .panic,t)⟩,fun t ht => ?_,
    fun s hs => ?_⟩
  · simp only [dif_pos ht]
    exact (hg t ht).choose_spec.1 t ht
  · rw [bind_of_ok (get_run s),hf s hs,(hg _ hs).choose_spec.2 s hs]
    simp only [zoom_run,dif_pos hs]

theorem mono {Q' : α → Prop} (h : Within l J x Q) (hQ : ∀ a, Q a → Q' a) : Within l J x Q' := by
  obtain ⟨y,hy,hrun⟩ := h
  exact ⟨y,hy.mono hQ,hrun⟩

theorem mapError {f : ε → δ} (h : Within l J x Q) : Within l J (Exec.mapError f x) Q := by
  obtain ⟨y,hy,hrun⟩ := h
  refine ⟨Exec.mapError f y,hy.mapError,fun s hs => ?_⟩
  simp only [Exec.mapError,zoom_run,hrun s hs]
  rcases y.run (l.view s) with ⟨(e | _) | a,t⟩ <;> rfl

/-- A call on a component, of which a part belongs to the part of the state. -/
theorem zoom {σ' τ' : Type} {l' : Lens σ' τ'} {J' : τ' → Prop} {x : Exec σ ε α}
    {view : σ' → σ} {put : σ → σ' → σ'} {v : τ' → τ} {w : τ → τ' → τ'}
    (hview : ∀ s, l.view (view s) = v (l'.view s))
    (hput : ∀ t s, put (l.put t (view s)) s = l'.put (w t (l'.view s)) s)
    (hJ : ∀ t, J' t → J (v t)) (hJ' : ∀ t k, J' t → J k → J' (w k t))
    (h : Within l J x Q) : Within l' J' (Exec.zoom view put x) Q := by
  obtain ⟨y,hy,hrun⟩ := h
  refine ⟨Exec.zoom v w y,fun t ht => ?_,fun s hs => ?_⟩
  · have hkeeps := hy (v t) (hJ t ht)
    rw [zoom_run]
    rcases hr : y.run (v t) with ⟨r,k⟩
    rw [hr] at hkeeps
    cases r with
    | error e => exact hJ' t k ht hkeeps
    | ok a => exact ⟨hJ' t k ht hkeeps.1,hkeeps.2⟩
  · have hs' : J (l.view (view s)) := by
      rw [hview]
      exact hJ _ hs
    rw [zoom_run,hrun _ hs',zoom_run,zoom_run,zoom_run,hview,hput]

/-- The outcome of a call, whatever it is, for a caller that goes on. -/
theorem outcome (h : Within l J x Q) :
    Within l J (Exec.outcome x : Exec σ δ _) fun r => ∀ a, r = .ok a → Q a := by
  obtain ⟨y,hy,hrun⟩ := h
  refine ⟨Exec.outcome y,fun t ht => ⟨hy.snd ht,fun a ha => hy.result ht (Prod.ext ha rfl)⟩,
    fun s hs => ?_⟩
  rw [zoom_run,outcome_run,outcome_run,hrun s hs,zoom_run]

/-- The part is left as `J` says. -/
theorem keeps (h : Within l J x Q) {s : σ} (hs : J (l.view s)) : J (l.view (x.run s).2) := by
  obtain ⟨y,hy,hrun⟩ := h
  rw [hrun s hs,zoom_run,l.view_put]
  exact hy.snd hs

/-- The call does not depend on anything but the part. -/
theorem agree (h : Within l J x Q) {s s' : σ} (hs : J (l.view s)) (heq : l.view s = l.view s') :
    (x.run s).1 = (x.run s').1 ∧ l.view (x.run s).2 = l.view (x.run s').2 := by
  obtain ⟨y,hy,hrun⟩ := h
  rw [hrun s hs,hrun s' (heq ▸ hs),zoom_run,zoom_run,l.view_put,l.view_put,heq]
  exact ⟨rfl,rfl⟩

/-- The call does not change anything but the part. -/
theorem frame {ω : Type} {w : σ → ω} (hw : ∀ t s, w (l.put t s) = w s) (h : Within l J x Q) {s : σ}
    (hs : J (l.view s)) : w (x.run s).2 = w s := by
  obtain ⟨y,hy,hrun⟩ := h
  rw [hrun s hs,zoom_run,hw]

end Within

/-- In related states the call has the same result, and it leaves related states behind. -/
def Respects (R : σ → σ → Prop) (x : Exec σ ε α) : Prop :=
  ∀ s t, R s t → (x.run s).1 = (x.run t).1 ∧ R (x.run s).2 (x.run t).2

namespace Respects
variable {R : σ → σ → Prop} {x : Exec σ ε α}

theorem pure {a : α} : Respects R (Pure.pure a : Exec σ ε α) := fun _ _ h => ⟨rfl,h⟩

theorem throw {e : ε} : Respects R (Exec.throw e : Exec σ ε α) := fun _ _ h => ⟨rfl,h⟩

theorem panic : Respects R (Exec.panic : Exec σ ε α) := fun _ _ h => ⟨rfl,h⟩

theorem lift {f : δ → ε} {r : Except δ α} : Respects R (Exec.lift f r) := by
  cases r with
  | ok a => exact pure
  | error e => exact throw

theorem orThrow {e : ε} {o : Option α} : Respects R (Exec.orThrow e o) := by
  cases o with
  | some a => exact pure
  | none => exact throw

theorem modify {f : σ → σ} (hf : ∀ s t, R s t → R (f s) (f t)) :
    Respects R (Exec.modify f : Exec σ ε Unit) := fun s t h => ⟨rfl,hf s t h⟩

theorem bind {f : α → Exec σ ε β} (hx : Respects R x) (hf : ∀ a, Respects R (f a)) :
    Respects R (x >>= f) := by
  intro s t h
  obtain ⟨hresult,hstate⟩ := hx s t h
  rw [bind_run,bind_run]
  rcases hs : x.run s with ⟨r,s'⟩
  rcases ht : x.run t with ⟨r',t'⟩
  rw [hs,ht] at hresult hstate
  obtain rfl : r = r' := hresult
  cases r with
  | ok a => exact hf a s' t' hstate
  | error e => exact ⟨rfl,hstate⟩

/-- Only what is the same in related states is read. -/
theorem get_bind {f : σ → Exec σ ε α} (hf : ∀ s t, R s t → f s = f t)
    (h : ∀ s, Respects R (f s)) : Respects R (Exec.get >>= f) := by
  intro s t hst
  rw [bind_of_ok (get_run s),bind_of_ok (get_run t),hf s t hst]
  exact h t s t hst

theorem mapError {f : ε → δ} (h : Respects R x) : Respects R (Exec.mapError f x) := by
  intro s t hst
  obtain ⟨hresult,hstate⟩ := h s t hst
  simp only [Exec.mapError]
  rcases hs : x.run s with ⟨r,s'⟩
  rcases ht : x.run t with ⟨r',t'⟩
  rw [hs,ht] at hresult hstate
  obtain rfl : r = r' := hresult
  rcases r with (e | _) | a
  all_goals exact ⟨rfl,hstate⟩

theorem attempt (h : Respects R x) : Respects R (Exec.attempt x : Exec σ δ _) := by
  intro s t hst
  obtain ⟨hresult,hstate⟩ := h s t hst
  simp only [Exec.attempt]
  rcases hs : x.run s with ⟨r,s'⟩
  rcases ht : x.run t with ⟨r',t'⟩
  rw [hs,ht] at hresult hstate
  obtain rfl : r = r' := hresult
  rcases r with (e | _) | a
  all_goals exact ⟨rfl,hstate⟩

/-- A call on a component. -/
theorem zoom {R' : τ → τ → Prop} {x : Exec τ ε α} {view : σ → τ} {put : τ → σ → σ}
    (hview : ∀ s t, R s t → R' (view s) (view t))
    (hput : ∀ s t a b, R s t → R' a b → R (put a s) (put b t)) (h : Respects R' x) :
    Respects R (Exec.zoom view put x) := by
  intro s t hst
  obtain ⟨hresult,hstate⟩ := h (view s) (view t) (hview s t hst)
  rw [zoom_run,zoom_run]
  exact ⟨hresult,hput s t _ _ hst hstate⟩

end Respects
end Exec

section
variable {σ ε β : Type} {exec : ε → σ → β × σ} {ok mine : ε → Prop} {R : σ → σ → Prop}

/-- States that `R` relates look alike to the user of the events `mine`: these do the same in both,
and no other event is seen. -/
structure Separates (exec : ε → σ → β × σ) (ok mine : ε → Prop) (R : σ → σ → Prop) : Prop where
  own : ∀ {e s t}, ok e → mine e → R s t →
    (exec e s).1 = (exec e t).1 ∧ R (exec e s).2 (exec e t).2
  other : ∀ {e s t}, ok e → ¬mine e → R s t → R (exec e s).2 t

variable [DecidablePred mine]

variable (exec mine) in
/-- The results of the events `mine`, and the state after all events. -/
def observe : List ε → σ → List β × σ
  | [],s => ([],s)
  | e::es,s =>
    let r := exec e s
    let rest := observe es r.2
    (if mine e then r.1::rest.1 else rest.1,rest.2)

/-- What a user sees is what would be seen if there were no other users. -/
theorem Separates.purge (h : Separates exec ok mine R) {es : List ε} (hok : ∀ e ∈ es, ok e)
    {s t : σ} (hR : R s t) :
    (observe exec mine es s).1 = (observe exec mine (es.filter mine) t).1 ∧
      R (observe exec mine es s).2 (observe exec mine (es.filter mine) t).2 := by
  induction es generalizing s t with
  | nil => exact ⟨rfl,hR⟩
  | cons e es ih =>
    have he := hok e (List.mem_cons_self ..)
    have hes : ∀ e' ∈ es, ok e' := fun e' he' => hok e' (List.mem_cons_of_mem _ he')
    by_cases hmine : mine e
    · obtain ⟨hresult,hstep⟩ := h.own he hmine hR
      obtain ⟨hrest,hend⟩ := ih hes hstep
      rw [List.filter_cons_of_pos (by simpa using hmine)]
      simp only [observe,if_pos hmine]
      exact ⟨by rw [hresult,hrest],hend⟩
    · rw [List.filter_cons_of_neg (by simpa using hmine)]
      simp only [observe,if_neg hmine]
      exact ih hes (h.other he hmine hR)

end
end MlsTls.Lib
