import Mathlib.Data.Nat.ModEq
import Mathlib.Logic.Function.Basic

/-!
# Ring buffers

A ring of `n` cells holds a window of an unbounded sequence: the element number `k` stands in the
cell `(p + k) % n`. As long as the window is no longer than the ring, its elements have cells of
their own, so writing an element that is not in the window leaves the window alone.

## Main definitions

* `Ring.slot n p k`: the cell of the element number `k`
* `Ring.Holds cell n p S lo hi`: the elements `lo` up to `hi` of `S` stand in their cells
* `Ring.window cell n p k`: the `k` elements from the cell `p` on

## Main results

* `Ring.slot_ne`: elements less than `n` apart have different cells
* `Ring.Holds.write`: writing an element outside the window leaves the window alone
* `Ring.Holds.push`: writing the next element extends the window
* `Ring.window_push`, `Ring.window_pop`: an element is put at the end and taken from the front
-/

namespace Ring

open List Function

variable {α : Type*} {n p lo hi k : Nat} {cell cell' : Nat → α} {S : Nat → α}

/-- The cell of the element number `k`. -/
def slot (n p k : Nat) : Nat := (p + k) % n

theorem slot_lt (hn : 0 < n) (p k : Nat) : slot n p k < n := Nat.mod_lt _ hn

/-- The cell some elements further on. -/
theorem slot_add (n p k j : Nat) : (slot n p k + j) % n = slot n p (k + j) := by
  rw [slot, slot, Nat.mod_add_mod, Nat.add_assoc]

/-- Elements less than `n` apart have different cells. -/
theorem slot_ne {i j : Nat} (hij : i < j := by omega) (hj : j < i + n := by omega) :
    slot n p i ≠ slot n p j := by
  intro h
  have hmod : i ≡ j [MOD n] := Nat.ModEq.add_left_cancel' p h
  have hdvd : n ∣ j - i := (Nat.modEq_iff_dvd' hij.le).mp hmod
  have hle : n ≤ j - i := Nat.le_of_dvd (by omega) hdvd
  omega

theorem slot_inj {i j : Nat} (hi : lo ≤ i) (hi' : i < lo + n) (hj : lo ≤ j) (hj' : j < lo + n) :
    slot n p i = slot n p j ↔ i = j := by
  refine ⟨fun h => ?_, fun h => by rw [h]⟩
  rcases lt_trichotomy i j with hlt | heq | hlt
  · exact absurd h (slot_ne hlt)
  · exact heq
  · exact absurd h.symm (slot_ne hlt)

/-- The elements `lo` up to `hi` of the sequence `S` stand in their cells. -/
def Holds (cell : Nat → α) (n p : Nat) (S : Nat → α) (lo hi : Nat) : Prop :=
  ∀ k, lo ≤ k → k < hi → cell (slot n p k) = S k

theorem Holds.empty (cell : Nat → α) (n p : Nat) (S : Nat → α) (lo : Nat) :
    Holds cell n p S lo lo := fun _ h h' => absurd h (by omega)

section

variable (h : Holds cell n p S lo hi)
include h

theorem Holds.mono {lo' hi' : Nat} (hlo : lo ≤ lo') (hhi : hi' ≤ hi) :
    Holds cell n p S lo' hi' := fun k hk hk' => h k (hlo.trans hk) (hk'.trans_le hhi)

/-- The window does not depend on the cells of other elements. -/
theorem Holds.congr (heq : ∀ k, lo ≤ k → k < hi → cell' (slot n p k) = cell (slot n p k)) :
    Holds cell' n p S lo hi := fun k hk hk' => (heq k hk hk').trans (h k hk hk')

/-- The window is about the part of the sequence it covers. -/
theorem Holds.of_eq {S' : Nat → α}
    (heq : ∀ k, lo ≤ k → k < hi → S' k = S k) : Holds cell n p S' lo hi :=
  fun k hk hk' => (h k hk hk').trans (heq k hk hk').symm

/-- **Writing an element outside the window leaves the window alone.** -/
theorem Holds.write {x : α} (hk : hi ≤ k) (hkn : k < lo + n) :
    Holds (update cell (slot n p k) x) n p S lo hi := by
  refine h.congr fun j hj hj' => update_of_ne ?_ _ _
  exact slot_ne

/-- **Writing the next element extends the window.** -/
theorem Holds.push (hlo : lo ≤ hi) (hn : hi < lo + n) :
    Holds (update cell (slot n p hi) (S hi)) n p S lo (hi + 1) := by
  intro k hk hk'
  rcases Nat.lt_succ_iff_lt_or_eq.mp hk' with hlt | rfl
  · exact h.write le_rfl hn k hk hlt
  · exact update_self ..

end

/-! ## Windows as lists -/

/-- The `k` elements from the cell `p` on. -/
def window (cell : Nat → α) (n p k : Nat) : List α := (List.range k).map fun i => cell (slot n p i)

@[simp] theorem window_zero (cell : Nat → α) (n p : Nat) : window cell n p 0 = [] := rfl

@[simp] theorem length_window (cell : Nat → α) (n p k : Nat) : (window cell n p k).length = k := by
  rw [window, length_map, length_range]

theorem window_congr (h : ∀ i < k, cell' (slot n p i) = cell (slot n p i)) :
    window cell' n p k = window cell n p k :=
  map_congr_left fun i hi => h i (mem_range.mp hi)

/-- **An element is put at the end.** -/
theorem window_push (cell : Nat → α) (p : Nat) (hk : k < n) (x : α) :
    window (update cell (slot n p k) x) n p (k + 1) = window cell n p k ++ [x] := by
  have hold : window (update cell (slot n p k) x) n p k = window cell n p k :=
    window_congr fun i hi => update_of_ne (slot_ne hi) _ _
  rw [← hold, window, window, range_succ, map_append, map_singleton, update_self]

/-- **An element is taken from the front.** -/
theorem window_pop (cell : Nat → α) (hp : p < n) (k : Nat) :
    window cell n p (k + 1) = cell p :: window cell n ((p + 1) % n) k := by
  have hzero : slot n p 0 = p := Nat.mod_eq_of_lt hp
  have hsucc : ∀ i, slot n p (i + 1) = slot n ((p + 1) % n) i := by
    intro i
    rw [slot, slot, Nat.mod_add_mod, Nat.add_right_comm, Nat.add_assoc]
  rw [window, range_succ_eq_map, map_cons, map_map, hzero]
  exact congrArg (cell p :: ·) (map_congr_left fun i _ => congrArg cell (hsucc i))

end Ring
