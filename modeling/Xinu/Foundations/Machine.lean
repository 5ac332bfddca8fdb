import Mathlib.Data.List.Basic

/-!
# Machines and their runs

A machine takes one of its enabled inputs at a time and moves to the next state. A run is a
sequence of inputs, each enabled where it is taken. What one step keeps, a whole run keeps.

## Main definitions

* `Machine σ ι`: states `σ`, inputs `ι`, the enabled inputs of a state and the state after each
* `Machine.Run M s l t`: `M` goes from `s` to `t` by the inputs `l`
* `Machine.restrict`: the machine with fewer enabled inputs

## Main results

* `Machine.Run.invariant`: what every enabled step keeps holds at the end of a run
* `Machine.Run.append`, `Machine.run_cons_iff`: runs compose, and begin with a step
* `List.fuel_induction`: induction along a list that a loop with fuel walks through
-/

/-- Induction along a list that a loop with enough fuel walks through. -/
theorem List.fuel_induction {α : Type*}
    {motive : (l : List α) → (fuel : Nat) → l.length < fuel → Prop}
    (nil : ∀ fuel, motive [] (fuel + 1) fuel.succ_pos)
    (cons : ∀ a l fuel h, motive l fuel h → motive (a :: l) (fuel + 1) (Nat.succ_lt_succ h))
    (l : List α) (fuel : Nat) (h : l.length < fuel) : motive l fuel h := by
  induction l generalizing fuel with
  | nil =>
    obtain ⟨fuel, rfl⟩ := Nat.exists_eq_add_of_lt h
    exact nil _
  | cons a l ih =>
    obtain ⟨fuel, rfl⟩ := Nat.exists_eq_add_of_lt h
    exact cons a l _ _ (ih _ (Nat.lt_of_succ_lt_succ h))

/-- A state machine with inputs. -/
structure Machine (σ ι : Type*) where
  enabled : σ → ι → Prop
  next : σ → ι → σ

namespace Machine

variable {σ ι : Type*} (M : Machine σ ι)

/-- `M` goes from one state to another by a sequence of inputs, each enabled where it is taken. -/
inductive Run : σ → List ι → σ → Prop
  | nil (s : σ) : Run s [] s
  | snoc {s t : σ} {l : List ι} {i : ι} :
      Run s l t → M.enabled t i → Run s (l ++ [i]) (M.next t i)

variable {M} {s t u : σ} {l k : List ι} {i : ι}

/-- **The invariant rule**: what every enabled step keeps holds at the end of a run. -/
theorem Run.invariant {I : σ → Prop} (hstep : ∀ s i, I s → M.enabled s i → I (M.next s i))
    (r : M.Run s l t) (h : I s) : I t := by
  induction r with
  | nil => exact h
  | snoc _ hi ih => exact hstep _ _ ih hi

theorem Run.append (r : M.Run s l t) (r' : M.Run t k u) : M.Run s (l ++ k) u := by
  induction r' with
  | nil => simpa using r
  | snoc _ hi ih =>
    rw [← List.append_assoc]
    exact ih.snoc hi

theorem Run.cons (hi : M.enabled s i) (r : M.Run (M.next s i) l t) : M.Run s (i :: l) t :=
  Run.append ((Run.nil s).snoc hi) r

theorem run_nil_iff : M.Run s [] t ↔ t = s := by
  constructor
  · intro r
    generalize hl : ([] : List ι) = l at r
    cases r with
    | nil => rfl
    | snoc _ _ => simp at hl
  · rintro rfl
    exact .nil _

theorem run_snoc_iff :
    M.Run s (l ++ [i]) t ↔ ∃ u, M.Run s l u ∧ M.enabled u i ∧ t = M.next u i := by
  constructor
  · intro r
    generalize hk : l ++ [i] = k at r
    cases r with
    | nil => simp at hk
    | snoc r hi =>
      obtain ⟨rfl, hij⟩ := List.append_inj' hk rfl
      obtain rfl := List.singleton_inj.mp hij
      exact ⟨_, r, hi, rfl⟩
  · rintro ⟨u, r, hi, rfl⟩
    exact r.snoc hi

/-- The first step of a run. -/
theorem run_cons_iff : M.Run s (i :: l) t ↔ M.enabled s i ∧ M.Run (M.next s i) l t := by
  refine ⟨fun r => ?_, fun h => .cons h.1 h.2⟩
  generalize hk : i :: l = k at r
  induction r generalizing l with
  | nil => simp at hk
  | @snoc t k j r hj ih =>
    rcases k with _ | ⟨i', k⟩
    · obtain ⟨rfl, rfl⟩ := List.cons.inj hk
      rw [run_nil_iff.mp r] at hj ⊢
      exact ⟨hj, .nil _⟩
    · obtain ⟨rfl, rfl⟩ := List.cons.inj hk
      obtain ⟨hi, r'⟩ := ih rfl
      exact ⟨hi, r'.snoc hj⟩

theorem run_append_iff : M.Run s (l ++ k) u ↔ ∃ t, M.Run s l t ∧ M.Run t k u := by
  refine ⟨fun r => ?_, fun ⟨t, r, r'⟩ => r.append r'⟩
  induction l generalizing s with
  | nil => exact ⟨s, .nil s, r⟩
  | cons i l ih =>
    obtain ⟨hi, r⟩ := run_cons_iff.mp r
    obtain ⟨t, r₁, r₂⟩ := ih r
    exact ⟨t, .cons hi r₁, r₂⟩

/-- The state that a sequence of inputs leads to. -/
def after (M : Machine σ ι) : σ → List ι → σ
  | s, [] => s
  | s, i :: l => after M (M.next s i) l

/-- Each of the inputs is enabled where it is taken. -/
def Enables (M : Machine σ ι) : σ → List ι → Prop
  | _, [] => True
  | s, i :: l => M.enabled s i ∧ Enables M (M.next s i) l

instance decidableEnables (M : Machine σ ι) [∀ s i, Decidable (M.enabled s i)] :
    (s : σ) → (l : List ι) → Decidable (M.Enables s l)
  | _, [] => inferInstanceAs (Decidable True)
  | s, i :: l =>
    have := decidableEnables M (M.next s i) l
    inferInstanceAs (Decidable (_ ∧ _))

theorem Run.eq_after (r : M.Run s l t) : t = M.after s l := by
  induction l generalizing s with
  | nil => exact run_nil_iff.mp r
  | cons i l ih => exact ih (run_cons_iff.mp r).2

theorem run_after (h : M.Enables s l := by decide) : M.Run s l (M.after s l) := by
  induction l generalizing s with
  | nil => exact .nil s
  | cons i l ih => exact .cons h.1 (ih h.2)

/-- The machine that takes only those inputs that meet a further condition. -/
def restrict (M : Machine σ ι) (P : σ → ι → Prop) : Machine σ ι where
  enabled s i := M.enabled s i ∧ P s i
  next := M.next

instance (M : Machine σ ι) (P : σ → ι → Prop) [∀ s i, Decidable (M.enabled s i)]
    [∀ s i, Decidable (P s i)] (s : σ) (i : ι) : Decidable ((M.restrict P).enabled s i) :=
  inferInstanceAs (Decidable (_ ∧ _))

theorem Run.of_restrict {P : σ → ι → Prop} (r : (M.restrict P).Run s l t) : M.Run s l t := by
  induction r with
  | nil => exact .nil _
  | snoc _ hi ih => exact ih.snoc hi.1

end Machine
