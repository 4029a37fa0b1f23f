import Mathlib.Tactic.Common

/-! A family of queues, seen from outside: what has been put into each of them and what has been
taken out. Only the first value of a queue can be taken. In a single queue, the items may be in
flight under changing keys: the sender marks its last item under a key, and the receiver changes to
the sender's key when it has taken a marked item. -/
namespace MlsTls.Lib

inductive QueueAction (ι α : Type)
  | put (i : ι) (a : α)
  | take (i : ι) (a : α)
  deriving DecidableEq, Repr

namespace QueueAction
variable {ι α : Type} [DecidableEq ι] [DecidableEq α]

/-- The queues after an action, if it is possible. -/
def act (q : ι → List α) : QueueAction ι α → Option (ι → List α)
  | .put i a => some (Function.update q i (q i++[a]))
  | .take i a => if (q i).head? = some a then some (Function.update q i (q i).tail) else none

omit [DecidableEq α] in
def puts (i : ι) (h : List (QueueAction ι α)) : List α := h.filterMap fun
  | .put j a => if j = i then some a else none
  | .take _ _ => none

omit [DecidableEq α] in
def takes (i : ι) (h : List (QueueAction ι α)) : List α := h.filterMap fun
  | .put _ _ => none
  | .take j a => if j = i then some a else none

/-- The first value of a queue is taken. -/
theorem act_take {q : ι → List α} {i : ι} {a : α} {as : List α} (h : q i = a::as) :
    act q (.take i a) = some (Function.update q i as) := by
  simp [act,h]

/-- At most one value goes into one queue, and at most one comes out of another one. -/
theorem acts_put_take {q q' : ι → List α} {i j : ι} (hij : i ≠ j) {put take : Option α}
    (hput : q' i = q i++put.toList) (htake : q j = take.toList++q' j)
    (hrest : ∀ k, k ≠ i → k ≠ j → q' k = q k) :
    (put.toList.map (QueueAction.put i)++take.toList.map (QueueAction.take j)).foldlM act q =
      some q' := by
  have hafter : Function.update (Function.update q i (q i++put.toList)) j (q' j) = q' := by
    funext k
    by_cases hj : k = j
    · rw [hj,Function.update_self]
    · rw [Function.update_of_ne hj]
      by_cases hi : k = i
      · rw [hi,Function.update_self,hput]
      · rw [Function.update_of_ne hi,hrest k hi hj]
  have hmiddle : (put.toList.map (QueueAction.put i)).foldlM act q =
      some (Function.update q i (q i++put.toList)) := by
    cases put with
    | none => simp
    | some a => rfl
  rw [List.foldlM_append,hmiddle,Option.bind_eq_bind,Option.bind_some,← hafter]
  cases take with
  | none =>
    rw [Option.toList_none,List.nil_append] at htake
    rw [← htake,Function.update_eq_self_iff.mpr (Function.update_of_ne hij.symm ..).symm]
    rfl
  | some b =>
    have hj : Function.update q i (q i++put.toList) j = b::q' j := by
      rw [Function.update_of_ne hij.symm,htake]
      rfl
    simp only [Option.toList_some,List.map_singleton,List.foldlM_cons,act_take hj]
    rfl

lemma act_balance {q q' : ι → List α} {x : QueueAction ι α} (h : act q x = some q') (i : ι) :
    q i++puts i [x] = takes i [x]++q' i := by
  cases x with
  | put j a =>
    obtain rfl := Option.some.inj h
    by_cases hij : j = i
    · subst hij
      simp [puts,takes]
    · simp [puts,takes,hij,Function.update_of_ne (Ne.symm hij)]
  | take j a =>
    simp only [act] at h
    split_ifs at h with hhead
    obtain rfl := Option.some.inj h
    obtain ⟨as,has⟩ := List.head?_eq_some_iff.mp hhead
    by_cases hij : j = i
    · subst hij
      simp [puts,takes,has]
    · simp [puts,takes,hij,Function.update_of_ne (Ne.symm hij)]

/-- What was in a queue and what was put into it is what was taken out of it and what is left, in
this order. -/
theorem balance {q q' : ι → List α} {h : List (QueueAction ι α)}
    (hact : h.foldlM act q = some q') (i : ι) : q i++puts i h = takes i h++q' i := by
  induction h generalizing q with
  | nil =>
    obtain rfl := Option.some.inj hact
    simp [puts,takes]
  | cons x h ih =>
    rw [List.foldlM_cons,Option.bind_eq_bind,Option.bind_eq_some_iff] at hact
    obtain ⟨q₁,hx,hrest⟩ := hact
    have hputs : puts i (x::h) = puts i [x]++puts i h := List.filterMap_append (l := [x])
    have htakes : takes i (x::h) = takes i [x]++takes i h := List.filterMap_append (l := [x])
    rw [hputs,htakes,← List.append_assoc,act_balance hx,List.append_assoc,ih hrest,
      List.append_assoc]

/-- The same action on a queue under another name. -/
def map {κ : Type} (f : ι → κ) : QueueAction ι α → QueueAction κ α
  | .put i a => .put (f i) a
  | .take i a => .take (f i) a

lemma act_map {κ : Type} [DecidableEq κ] {f : ι → κ} (hf : f.Injective) {q q' : ι → List α}
    {x : QueueAction ι α} (h : act q x = some q') {r : κ → List α} (hr : r ∘ f = q) :
    ∃ r', act r (x.map f) = some r' ∧ r' ∘ f = q' ∧ ∀ k, (∀ i, f i ≠ k) → r' k = r k := by
  have hupdate (i : ι) (as : List α) : Function.update r (f i) as ∘ f = Function.update q i as ∧
      ∀ k, (∀ i, f i ≠ k) → Function.update r (f i) as k = r k := by
    rw [Function.update_comp_eq_of_injective r hf i as,hr]
    exact ⟨rfl,fun k hk => Function.update_of_ne (hk i).symm ..⟩
  cases x with
  | put i a =>
    obtain rfl := Option.some.inj h
    have hi : r (f i) = q i := congrFun hr i
    refine ⟨_,rfl,?_⟩
    rw [hi]
    exact hupdate i _
  | take i a =>
    have hi : r (f i) = q i := congrFun hr i
    simp only [act] at h
    split_ifs at h with hhead
    obtain rfl := Option.some.inj h
    refine ⟨Function.update r (f i) (q i).tail,?_,hupdate i _⟩
    simp only [map,act,hi,if_pos hhead]

/-- Some of the queues of a larger family: the others are not touched. -/
theorem acts_map {κ : Type} [DecidableEq κ] {f : ι → κ} (hf : f.Injective) {q q' : ι → List α}
    {h : List (QueueAction ι α)} (hact : h.foldlM act q = some q') {r : κ → List α}
    (hr : r ∘ f = q) :
    ∃ r', (h.map (map f)).foldlM act r = some r' ∧ r' ∘ f = q' ∧
      ∀ k, (∀ i, f i ≠ k) → r' k = r k := by
  induction h generalizing q r with
  | nil =>
    obtain rfl := Option.some.inj hact
    exact ⟨r,rfl,hr,fun _ _ => rfl⟩
  | cons x h ih =>
    rw [List.foldlM_cons,Option.bind_eq_bind,Option.bind_eq_some_iff] at hact
    obtain ⟨q₁,hx,hrest⟩ := hact
    obtain ⟨r₁,hx',hr₁,hsame⟩ := act_map hf hx hr
    obtain ⟨r',hrest',hr',hsame'⟩ := ih hrest hr₁
    refine ⟨r',?_,hr',fun k hk => (hsame' k hk).trans (hsame k hk)⟩
    rw [List.map_cons,List.foldlM_cons,hx',Option.bind_eq_bind,Option.bind_some,hrest']

end QueueAction

section
variable {κ ι : Type} (under : κ → ℕ → ι → Prop) (marked : ι → Bool)

/-- The items from a sender with the key `k'` to a receiver with the key `k` that expects number
`n`: when all of them have been taken, the keys agree. `under k n x` says that item `x` has number
`n` and was made with the key `k`. -/
def Flight (k' : κ) : κ → ℕ → List ι → Prop
  | k,_,[] => k = k'
  | k,n,x::xs => under k n x ∧ Flight k' (if marked x then k' else k) (n+1) xs

variable {under marked} {k k' k'' : κ} {n : ℕ} {x : ι} {xs : List ι}

/-- The sender's next item, under its current key. -/
theorem Flight.snoc (h : Flight under marked k' k n xs) (hx : under k' (n+xs.length) x) :
    Flight under marked k' k n (xs++[x]) := by
  induction xs generalizing k n with
  | nil =>
    obtain rfl : k = k' := h
    refine ⟨hx,?_⟩
    split <;> rfl
  | cons y ys ih =>
    refine ⟨h.1,ih h.2 ?_⟩
    rwa [List.length_cons,show n+(ys.length+1) = n+1+ys.length by omega] at hx

/-- The sender marks an item and goes on with a new key. -/
theorem Flight.snoc_marked (h : Flight under marked k' k n xs)
    (hxs : ∀ y ∈ xs, marked y = false) (hx : under k' (n+xs.length) x) (hm : marked x = true)
    (k'' : κ) : Flight under marked k'' k n (xs++[x]) := by
  induction xs generalizing k n with
  | nil =>
    obtain rfl : k = k' := h
    exact ⟨hx,by rw [if_pos hm]; rfl⟩
  | cons y ys ih =>
    have hy : marked y = false := hxs y (by simp)
    refine ⟨h.1,?_⟩
    have ht := h.2
    rw [hy] at ht ⊢
    refine ih ht (fun z hz => hxs z (by simp [hz])) ?_
    rwa [List.length_cons,show n+(ys.length+1) = n+1+ys.length by omega] at hx

end
end MlsTls.Lib
