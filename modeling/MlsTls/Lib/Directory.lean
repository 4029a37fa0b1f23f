import Mathlib.Data.List.Forall2
import Mathlib.Data.List.Nodup
import Mathlib.Tactic.Common

/-! One-to-one directories: every key has at most one value and no two keys have the same one. A key
enters with a value that is not taken, and it leaves with its value. A table lists a directory if its
rows stand for the entries one by one. -/
namespace MlsTls.Lib

structure Directory (α β : Type) where
  entries : List (α × β)
  keys : (entries.map Prod.fst).Nodup
  values : (entries.map Prod.snd).Nodup

namespace Directory
variable {α β : Type}

@[ext] theorem ext {D D' : Directory α β} (h : D.entries = D'.entries) : D = D' := by
  cases D
  cases D'
  simpa using h

def empty : Directory α β := ⟨[],List.nodup_nil,List.nodup_nil⟩

/-- What can be done to a directory. -/
inductive Action (α β : Type)
  | enter (key : α) (value : β)
  | leave (key : α)
  deriving DecidableEq, Repr

/-- Neither the key nor the value is there. -/
def Free (D : Directory α β) (key : α) (value : β) : Prop :=
  ∀ e ∈ D.entries, e.1 ≠ key ∧ e.2 ≠ value

/-- The directory with one more entry. -/
def enter (D : Directory α β) (key : α) (value : β) (h : D.Free key value) : Directory α β where
  entries := D.entries++[(key,value)]
  keys := by
    rw [List.map_append,List.nodup_append]
    refine ⟨D.keys,List.nodup_singleton _,?_⟩
    rintro a ha b hb rfl
    obtain ⟨e,he,rfl⟩ := List.mem_map.mp ha
    exact (h e he).1 (by simpa using hb)
  values := by
    rw [List.map_append,List.nodup_append]
    refine ⟨D.values,List.nodup_singleton _,?_⟩
    rintro a ha b hb rfl
    obtain ⟨e,he,rfl⟩ := List.mem_map.mp ha
    exact (h e he).2 (by simpa using hb)

variable {D : Directory α β} {a a' : α} {b b' : β}

theorem value_unique (h : (a,b) ∈ D.entries) (h' : (a,b') ∈ D.entries) : b = b' :=
  congrArg Prod.snd (List.inj_on_of_nodup_map D.keys h h' rfl)

theorem key_unique (h : (a,b) ∈ D.entries) (h' : (a',b) ∈ D.entries) : a = a' :=
  congrArg Prod.fst (List.inj_on_of_nodup_map D.values h h' rfl)

@[simp] theorem mem_enter (h : D.Free a b) :
    (a',b') ∈ (D.enter a b h).entries ↔ (a',b') ∈ D.entries ∨ a' = a ∧ b' = b := by
  simp [enter]

section
variable [DecidableEq α]

def leave (D : Directory α β) (key : α) : Directory α β where
  entries := D.entries.filter fun e => e.1 ≠ key
  keys := D.keys.sublist (List.filter_sublist.map _)
  values := D.values.sublist (List.filter_sublist.map _)

@[simp] theorem mem_leave : (a',b) ∈ (D.leave a).entries ↔ (a',b) ∈ D.entries ∧ a' ≠ a := by
  simp [leave]

theorem mem_leave_of_ne (h : a' ≠ a) : (a',b) ∈ (D.leave a).entries ↔ (a',b) ∈ D.entries := by
  rw [mem_leave]
  exact and_iff_left h

/-- Who is not there has nothing to leave. -/
theorem leave_eq_self (h : ∀ e ∈ D.entries, e.1 ≠ a) : D.leave a = D := by
  ext1
  exact List.filter_eq_self.mpr fun e he => by simpa using h e he

variable [DecidableEq β]

instance (D : Directory α β) (key : α) (value : β) : Decidable (D.Free key value) :=
  inferInstanceAs (Decidable (∀ e ∈ D.entries, e.1 ≠ key ∧ e.2 ≠ value))

/-- What an action makes of a directory, if it can be done. -/
def act (D : Directory α β) : Action α β → Option (Directory α β)
  | .enter key value => if h : D.Free key value then some (D.enter key value h) else none
  | .leave key => some (D.leave key)

@[simp] theorem act_leave : D.act (.leave a) = some (D.leave a) := rfl

theorem act_enter (h : D.Free a b) : D.act (.enter a b) = some (D.enter a b h) := dif_pos h

end

/-- Each row stands for one entry, in the same order; `R` says what it is to stand for an entry. -/
def ListedIn {ρ : Type} (R : ρ → α × β → Prop) (D : Directory α β) (rows : List ρ) : Prop :=
  List.Forall₂ R rows D.entries

namespace ListedIn
variable {ρ : Type} {R : ρ → α × β → Prop} {rows : List ρ}

theorem exists_entry (h : D.ListedIn R rows) {r : ρ} (hr : r ∈ rows) :
    ∃ e ∈ D.entries, R r e := by
  unfold ListedIn at h
  generalize D.entries = entries at h
  induction h with
  | nil => exact absurd hr List.not_mem_nil
  | cons hrow _ ih =>
    rcases List.mem_cons.mp hr with rfl | hr
    · exact ⟨_,List.mem_cons_self,hrow⟩
    · obtain ⟨e,he,hre⟩ := ih hr
      exact ⟨e,List.mem_cons_of_mem _ he,hre⟩

theorem exists_row (h : D.ListedIn R rows) {e : α × β} (he : e ∈ D.entries) :
    ∃ r ∈ rows, R r e := by
  unfold ListedIn at h
  generalize D.entries = entries at h he
  induction h with
  | nil => exact absurd he List.not_mem_nil
  | cons hrow _ ih =>
    rcases List.mem_cons.mp he with rfl | he
    · exact ⟨_,List.mem_cons_self,hrow⟩
    · obtain ⟨r,hr,hre⟩ := ih he
      exact ⟨r,List.mem_cons_of_mem _ hr,hre⟩

theorem enter (h : D.ListedIn R rows) {r : ρ} (hfree : D.Free a b) (hr : R r (a,b)) :
    (D.enter a b hfree).ListedIn R (rows++[r]) :=
  List.rel_append h (.cons hr .nil)

/-- Rows are changed, but they stand for the same entries. -/
theorem map (h : D.ListedIn R rows) {f : ρ → ρ} (hf : ∀ r e, e ∈ D.entries → R r e → R (f r) e) :
    D.ListedIn R (rows.map f) := by
  unfold ListedIn at h ⊢
  rw [List.forall₂_map_left_iff]
  refine List.forall₂_iff_zip.mpr ⟨h.length_eq,fun {r e} hmem => ?_⟩
  exact hf r e (List.of_mem_zip hmem).2 (List.forall₂_zip h hmem)

section
variable [DecidableEq α] {key : ρ → α} (hkey : ∀ r e, R r e → key r = e.1)
include hkey

/-- A row is found under the key of its entry. -/
theorem find? (h : D.ListedIn R rows) (he : (a,b) ∈ D.entries) :
    ∃ r, rows.find? (key · = a) = some r ∧ R r (a,b) := by
  obtain ⟨r₀,hr₀,hre₀⟩ := h.exists_row he
  cases hfind : rows.find? (key · = a) with
  | none => simpa [hkey _ _ hre₀] using List.find?_eq_none.mp hfind r₀ hr₀
  | some r =>
    obtain ⟨⟨a',b'⟩,he',hre⟩ := h.exists_entry (List.mem_of_find?_eq_some hfind)
    have ha : key r = a := by simpa using List.find?_some hfind
    obtain rfl : a' = a := (hkey r _ hre).symm.trans ha
    obtain rfl := value_unique he he'
    exact ⟨r,rfl,hre⟩

theorem find?_none (h : D.ListedIn R rows) (ha : ∀ e ∈ D.entries, e.1 ≠ a) :
    rows.find? (key · = a) = none := by
  refine List.find?_eq_none.mpr fun r hr => ?_
  obtain ⟨e,he,hre⟩ := h.exists_entry hr
  simpa [hkey r e hre] using ha e he

theorem leave (h : D.ListedIn R rows) (a : α) :
    (D.leave a).ListedIn R (rows.filter (key · ≠ a)) := by
  refine List.rel_filter (fun {r e} hre => ?_) h
  simp [hkey r e hre]

end
end ListedIn

end Directory
end MlsTls.Lib
