import Mathlib.Data.List.Basic

/-! Sinks with back-pressure, and a queue in front of one. A sink is asked whether it is ready and
may answer that it is not yet; it takes one item after each answer that it is. The history of such a
queue says what was queued, what was asked and what was handed on; the rules below keep the
history in order, one event at a time. -/
namespace MlsTls.Lib

/-- A call that does not block is done, or has to be made again. -/
inductive Poll
  | pending
  | ready
  deriving DecidableEq, Repr

/-- A sink of items `α`: any machine that answers its calls. -/
structure Sink (α ε : Type) where
  State : Type
  pollReady : State → Except ε Poll × State
  startSend : α → State → Except ε Unit × State
  pollFlush : State → Except ε Poll × State
  pollClose : State → Except ε Poll × State

/-- An item is queued, or a call is made on the sink behind the queue and answered. -/
inductive SinkEvent (α ε : Type)
  | queued (item : α)
  | pollReady (answer : Except ε Poll)
  | startSend (item : α) (answer : Except ε Unit)
  | pollFlush (answer : Except ε Poll)
  | pollClose (answer : Except ε Poll)

namespace SinkEvent
variable {α ε : Type}

def isPoll : SinkEvent α ε → Bool
  | queued _ => false
  | startSend _ _ => false
  | _ => true

/-- The items that were queued, in order. -/
def queue : List (SinkEvent α ε) → List α :=
  List.filterMap fun | queued item => some item | _ => none

/-- The items that were handed on, in order. -/
def handed : List (SinkEvent α ε) → List α :=
  List.filterMap fun | startSend item _ => some item | _ => none

/-- The history of a queue and what is left in it: at every moment what was handed on is the
beginning of what was queued, and every item is handed on right after the sink was ready. -/
structure InOrder (history : List (SinkEvent α ε)) (buffer : List α) : Prop where
  balance : handed history++buffer = queue history
  moments : ∀ {h}, h <+: history → handed h <+: queue h
  primed : ∀ {h item answer}, h++[startSend item answer] <+: history →
    ∃ h', h = h'++[pollReady (.ok .ready)]

namespace InOrder
variable {history : List (SinkEvent α ε)} {buffer : List α}

theorem nil : InOrder ([] : List (SinkEvent α ε)) [] := by
  refine ⟨rfl,fun {h} hh => ?_,fun hh => ?_⟩
  · rw [List.prefix_nil.mp hh]
    exact List.prefix_rfl
  · simp at hh

/-- One more event, if it is in order itself. -/
theorem concat {e : SinkEvent α ε} {buffer' : List α} (h : InOrder history buffer)
    (hbalance : handed (history++[e])++buffer' = queue (history++[e]))
    (hprimed : ∀ {item answer}, e = startSend item answer →
      ∃ h', history = h'++[pollReady (.ok .ready)]) :
    InOrder (history++[e]) buffer' := by
  refine ⟨hbalance,fun {h'} hh => ?_,fun {h' item answer} hh => ?_⟩
  · rcases List.prefix_concat_iff.mp hh with rfl | hh
    · exact ⟨buffer',hbalance⟩
    · exact h.moments hh
  · rcases List.prefix_concat_iff.mp hh with heq | hh
    · obtain ⟨rfl,he⟩ := List.append_inj' heq rfl
      exact hprimed (List.singleton_inj.mp he).symm
    · exact h.primed hh

theorem poll (h : InOrder history buffer) {e : SinkEvent α ε} (he : e.isPoll = true) :
    InOrder (history++[e]) buffer := by
  refine h.concat ?_ fun hs => ?_
  · have hbalance := h.balance
    cases e <;> simp_all [isPoll,handed,queue]
  · rw [hs] at he
    cases he

/-- The first item of the queue goes to the sink that has just been ready. -/
theorem startSend {item : α} {h : List (SinkEvent α ε)}
    (hh : InOrder (h++[pollReady (.ok .ready)]) (item::buffer)) (answer : Except ε Unit) :
    InOrder (h++[pollReady (.ok .ready)]++[.startSend item answer]) buffer := by
  refine hh.concat ?_ fun _ => ⟨h,rfl⟩
  have hbalance := hh.balance
  simp only [handed,queue,List.filterMap_append,List.filterMap_cons,List.filterMap_nil,
    List.append_nil,List.append_assoc,List.singleton_append] at hbalance ⊢
  exact hbalance

theorem queued (h : InOrder history buffer) (item : α) :
    InOrder (history++[.queued item]) (buffer++[item]) := by
  refine h.concat ?_ fun hs => by cases hs
  have hbalance := h.balance
  simp only [handed,queue,List.filterMap_append,List.filterMap_cons,List.filterMap_nil,
    List.append_nil] at hbalance ⊢
  rw [← hbalance,List.append_assoc]

theorem queuedAll (h : InOrder history buffer) (items : List α) :
    InOrder (history++items.map .queued) (buffer++items) := by
  induction items generalizing history buffer with
  | nil => simpa using h
  | cons item items ih => simpa using ih (h.queued item)

/-- An empty queue has handed on everything. -/
theorem all_handed (h : InOrder history []) : handed history = queue history := by
  simpa using h.balance

end InOrder
end SinkEvent
end MlsTls.Lib
