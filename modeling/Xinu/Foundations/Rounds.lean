import Mathlib.Data.List.Rotate

/-!
# Going round a list

Elements taken from the front of a list and put back behind it come round in a fixed cyclic order.

## Main definitions

* `rounds l m`: the first `m` elements met when going round `l`

## Main results

* `getElem?_rounds`: the `k`-th element met
* `take_drop_rounds`: any window of the length of `l` is a rotation of `l`
-/

namespace Rounds

open List

variable {α : Type*} {l : List α} {m k i : Nat}

/-- The first `m` elements met when going round `l`. -/
def rounds (l : List α) : Nat → List α
  | 0 => []
  | m + 1 => rounds l m ++ (l.rotate m).take 1

theorem rounds_succ {x : α} {rest : List α} (h : l.rotate m = x :: rest) :
    rounds l (m + 1) = rounds l m ++ [x] := by
  rw [rounds, h]
  rfl

@[simp] theorem length_rounds (hl : l ≠ []) (m : Nat) : (rounds l m).length = m := by
  induction m with
  | zero => rfl
  | succ m ih =>
    have hpos := length_pos_iff.mpr hl
    rw [rounds, length_append, ih, length_take, length_rotate]
    omega

theorem getElem?_rounds (hl : l ≠ []) (hk : k < m) : (rounds l m)[k]? = l[k % l.length]? := by
  have hpos := length_pos_iff.mpr hl
  induction m with
  | zero => omega
  | succ m ih =>
    rw [rounds]
    by_cases hkm : k < m
    · rw [getElem?_append_left (by rwa [length_rounds hl]), ih hkm]
    · obtain rfl : k = m := by omega
      rw [getElem?_append_right (by rw [length_rounds hl]), length_rounds hl, Nat.sub_self,
        getElem?_take_of_lt (by omega), getElem?_rotate hpos, Nat.zero_add]

/-- **Any window of the length of the list is a rotation of it.** -/
theorem take_drop_rounds (hl : l ≠ []) (hi : i + l.length ≤ m) :
    ((rounds l m).drop i).take l.length = l.rotate i := by
  refine ext_getElem? fun j => ?_
  by_cases hj : j < l.length
  · rw [getElem?_take_of_lt hj, getElem?_drop, getElem?_rounds hl (by omega),
      getElem?_rotate hj, Nat.add_comm]
  · rw [getElem?_eq_none (by rw [length_take]; omega),
      getElem?_eq_none (by rw [length_rotate]; omega)]

end Rounds
