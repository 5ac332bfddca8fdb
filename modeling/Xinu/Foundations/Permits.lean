import Mathlib.Algebra.BigOperators.Group.Finset.Basic
import Mathlib.Algebra.Order.BigOperators.Group.Finset
import Mathlib.Data.Finset.Basic
import Mathlib.Logic.Function.Basic
import Mathlib.Tactic.Linarith

/-!
# Counting semaphores and permits

A semaphore is a count and the queue of those that wait. While the count is not negative nobody
waits, and a negative count says how many do. Whoever has called `wait` and has not yet done what
the permit is for carries a weight, also while it waits; then the count and the weights together are
all there is, and whoever does not wait has a permit.

## Main definitions

* `Semaphore τ`: the count and the queue; `Semaphore.wait`, `Semaphore.signal`
* `Semaphore.Level`: the count tells how many wait
* `Permits.total w f s`: the weights of all members of `s`

## Main results

* `Semaphore.Level.wait`, `Semaphore.Level.signal`: the operations keep the level
* `Permits.total_update`: the total after one member has moved
* `Semaphore.Level.le_total`: those with a weight that do not wait are no more than the count and
the weights allow
-/

open List Function

/-- A counting semaphore with its queue. -/
@[ext] structure Semaphore (τ : Type*) where
  count : Int
  queue : List τ
deriving DecidableEq

namespace Semaphore

variable {τ : Type*} {c : Semaphore τ} {t : τ}

/-- `t` takes a permit, or waits for one. -/
def wait (c : Semaphore τ) (t : τ) : Semaphore τ where
  count := c.count - 1
  queue := if c.count - 1 < 0 then c.queue ++ [t] else c.queue

/-- `n` permits are given, to those in front of the queue first. -/
def signal (c : Semaphore τ) (n : Nat) : Semaphore τ where
  count := c.count + n
  queue := c.queue.drop (min n (-c.count).toNat)

/-- The count tells how many wait. -/
def Level (c : Semaphore τ) : Prop := c.queue.length = (-c.count).toNat

theorem level_mk {n : Int} (h : 0 ≤ n) : (Semaphore.mk n ([] : List τ)).Level := by
  change 0 = (-n).toNat
  omega

theorem Level.wait (h : c.Level) (t : τ) : (c.wait t).Level := by
  unfold Level at h ⊢
  unfold Semaphore.wait
  dsimp only
  split_ifs with hneg
  · rw [length_append, h, length_singleton]
    omega
  · omega

theorem Level.signal (h : c.Level) (n : Nat) : (c.signal n).Level := by
  unfold Level at h ⊢
  unfold Semaphore.signal
  dsimp only
  rw [length_drop, h]
  omega

theorem mem_wait {u : τ} (hu : u ∈ (c.wait t).queue) : u ∈ c.queue ∨ u = t := by
  unfold wait at hu
  split_ifs at hu
  · simpa using hu
  · exact .inl hu

theorem mem_signal {u : τ} {n : Nat} (hu : u ∈ (c.signal n).queue) : u ∈ c.queue :=
  mem_of_mem_drop hu

end Semaphore

namespace Permits

variable {τ β : Type*} {w : β → Int} {f : τ → β} {s : Finset τ} {t : τ}

/-- The weights of all members of `s`. -/
def total (w : β → Int) (f : τ → β) (s : Finset τ) : Int := ∑ t ∈ s, w (f t)

/-- **One member moves.** -/
theorem total_update [DecidableEq τ] (ht : t ∈ s) (b : β) :
    total w (update f t b) s = total w f s + w b - w (f t) := by
  have hrest : ∑ u ∈ s.erase t, w (update f t b u) = ∑ u ∈ s.erase t, w (f u) :=
    Finset.sum_congr rfl fun u hu => by rw [update_of_ne (Finset.ne_of_mem_erase hu)]
  have h₁ := Finset.add_sum_erase s (fun u => w (update f t b u)) ht
  have h₂ := Finset.add_sum_erase s (fun u => w (f u)) ht
  rw [update_self, hrest] at h₁
  unfold total
  linarith

theorem total_eq_zero (h : ∀ t ∈ s, w (f t) = 0) : total w f s = 0 := Finset.sum_eq_zero h

/-- Members with a weight are no more than the total. -/
theorem length_le_total [DecidableEq τ] (h : ∀ b, 0 ≤ w b) {l : List τ} (hl : l.Nodup)
    (hmem : ∀ t ∈ l, t ∈ s) (hw : ∀ t ∈ l, 1 ≤ w (f t)) : (l.length : Int) ≤ total w f s := by
  have hcard : (l.length : Int) = ∑ _t ∈ l.toFinset, (1 : Int) := by
    rw [Finset.sum_const, toFinset_card_of_nodup hl]
    simp
  calc (l.length : Int) = ∑ _t ∈ l.toFinset, (1 : Int) := hcard
    _ ≤ ∑ t ∈ l.toFinset, w (f t) := Finset.sum_le_sum fun t ht => hw t (mem_toFinset.mp ht)
    _ ≤ total w f s := Finset.sum_le_sum_of_subset_of_nonneg
        (fun t ht => hmem t (mem_toFinset.mp ht)) fun t _ _ => h (f t)

end Permits

/-- **Nobody gets through without a permit.** Those with a weight that do not wait are no more than
the count and the weights together. -/
theorem Semaphore.Level.le_total {τ β : Type*} [DecidableEq τ] {c : Semaphore τ} {w : β → Int}
    {f : τ → β} {s : Finset τ} (hc : c.Level) (h : ∀ b, 0 ≤ w b) {l : List τ}
    (hl : (l ++ c.queue).Nodup) (hmem : ∀ t ∈ l ++ c.queue, t ∈ s)
    (hw : ∀ t ∈ l ++ c.queue, 1 ≤ w (f t)) : (l.length : Int) ≤ c.count + Permits.total w f s := by
  have hle := Permits.length_le_total h hl hmem hw
  rw [length_append, hc] at hle
  push_cast at hle
  omega
