import Xinu.Memory.Heap

/-!
# Sequence numbers

The macros and the function by which the code of TCP compares, adds and subtracts sequence numbers.
They are not arithmetic modulo `2 ^ 32`: `seqadd` reduces modulo `TCP_MAXSEQ`, which is
`2 ^ 32 - 1`, and `tcpSeqdiff` has the two ends of a difference across the middle of the range the
wrong way round. On an interval that stays clear of the middle and of the end they are exact, and
they agree with arithmetic modulo `2 ^ 32` on two numbers of the same half if the sum is not the one
number that `seqadd` skips.

## Main results

* `Exact.seqlt_iff`, `Exact.seqlte_iff`, `Exact.seqadd_eq`, `Exact.tcpSeqdiff_eq`
* `seq_modular_iff_straight`: the helpers are modular exactly on these numbers
-/

namespace Xinu.Tcp

def TCP_MAXSEQ : Nat := 0xFFFFFFFF

/-- `seqlt(a, b)`: the difference as a signed word is negative. -/
def seqlt (a b : Nat) : Prop := 2 ^ 31 ≤ sub32 a b
deriving Decidable

/-- `seqlte(a, b)`: the difference as a signed word is not positive. -/
def seqlte (a b : Nat) : Prop := 2 ^ 31 ≤ sub32 a b ∨ sub32 a b = 0
deriving Decidable

/-- `seqadd(a, b)`. -/
def seqadd (a b : Nat) : Nat := add32 a b % TCP_MAXSEQ

/-- `tcpSeqdiff`: calculates the difference between two sequence numbers. -/
def tcpSeqdiff (first second : Nat) : Nat :=
  if first < TCP_MAXSEQ / 2 ∧ TCP_MAXSEQ / 2 < second then
    add32 (sub32 TCP_MAXSEQ first) second
  else if second < TCP_MAXSEQ / 2 ∧ TCP_MAXSEQ / 2 < first then
    add32 (sub32 TCP_MAXSEQ first) second
  else sub32 first second

/-! ## Where the helpers are exact -/

/-- An interval of sequence numbers that stays clear of the middle and of the end of the range. -/
def Exact (lo hi : Nat) : Prop :=
  hi < TCP_MAXSEQ / 2 ∨ TCP_MAXSEQ / 2 < lo ∧ hi < TCP_MAXSEQ
deriving Decidable

namespace Exact

variable {lo hi lo' hi' a b n : Nat}

section

variable (E : Exact lo hi)
include E

theorem lt (hb : b ≤ hi) : b < 2 ^ 32 - 1 := by
  unfold Exact TCP_MAXSEQ at *
  omega

/-- Two numbers of the interval are less than half the range apart. -/
theorem sub_lt (ha : lo ≤ a) (hb : b ≤ hi) : b < a + (2 ^ 31 - 1) := by
  unfold Exact TCP_MAXSEQ at *
  omega

theorem seqlt_iff (ha : lo ≤ a := by omega) (ha' : a ≤ hi := by omega) (hb : lo ≤ b := by omega)
    (hb' : b ≤ hi := by omega) : seqlt a b ↔ a < b := by
  have h₃ := E.sub_lt ha hb'
  have h₄ := E.sub_lt hb ha'
  unfold seqlt sub32
  omega

theorem seqlte_iff (ha : lo ≤ a := by omega) (ha' : a ≤ hi := by omega) (hb : lo ≤ b := by omega)
    (hb' : b ≤ hi := by omega) : seqlte a b ↔ a ≤ b := by
  have h₃ := E.sub_lt ha hb'
  have h₄ := E.sub_lt hb ha'
  unfold seqlte sub32
  omega

theorem seqadd_eq (h : a + n ≤ hi := by omega) : seqadd a n = a + n := by
  have h₁ := E.lt h
  rw [seqadd, add32_eq, Nat.mod_eq_of_lt (by unfold TCP_MAXSEQ; omega)]

theorem tcpSeqdiff_eq (ha' : a ≤ hi := by omega) (hb : lo ≤ b := by omega)
    (hba : b ≤ a := by omega) : tcpSeqdiff a b = a - b := by
  have hlow : ¬ (a < TCP_MAXSEQ / 2 ∧ TCP_MAXSEQ / 2 < b) := by
    omega
  have hhigh : ¬ (b < TCP_MAXSEQ / 2 ∧ TCP_MAXSEQ / 2 < a) := by
    unfold Exact TCP_MAXSEQ at *
    omega
  have h₁ := E.lt ha'
  rw [tcpSeqdiff, if_neg hlow, if_neg hhigh, sub32_eq hba]

end

end Exact

/-! ## Where the helpers are modular -/

/-- `a` and `a + n` are in the same half of the range, and `a + n` is not the number that `seqadd`
takes to zero. -/
def Straight (a n : Nat) : Prop :=
  (a + n) % 2 ^ 32 ≠ TCP_MAXSEQ ∧
    ¬ ((a + n) % 2 ^ 32 < TCP_MAXSEQ / 2 ∧ TCP_MAXSEQ / 2 < a) ∧
    ¬ (a < TCP_MAXSEQ / 2 ∧ TCP_MAXSEQ / 2 < (a + n) % 2 ^ 32)
deriving Decidable

section Modular

variable {a m n s : Nat}

theorem seqadd_eq_mod_iff : seqadd a n = (a + n) % 2 ^ 32 ↔ (a + n) % 2 ^ 32 ≠ TCP_MAXSEQ := by
  unfold seqadd add32 TCP_MAXSEQ
  omega

/-- The comparisons see a sum of less than half the range. -/
theorem seqlte_add_mod (hn : n < 2 ^ 31) :
    seqlte a ((a + n) % 2 ^ 32) ∧ (seqlt a ((a + n) % 2 ^ 32) ↔ 0 < n) := by
  unfold seqlte seqlt sub32
  omega

/-- A difference across the middle or the end comes out as `2 ^ 32 - 1 - n`, which is not `n`. -/
theorem tcpSeqdiff_add_mod_iff (hn : n < 2 ^ 31) (hs : s = (a + n) % 2 ^ 32) :
    tcpSeqdiff s a = n ↔ ¬ (s < TCP_MAXSEQ / 2 ∧ TCP_MAXSEQ / 2 < a) ∧
      ¬ (a < TCP_MAXSEQ / 2 ∧ TCP_MAXSEQ / 2 < s) := by
  have hne : add32 (sub32 TCP_MAXSEQ s) a ≠ n := by
    unfold add32 sub32 TCP_MAXSEQ
    omega
  by_cases hlow : s < TCP_MAXSEQ / 2 ∧ TCP_MAXSEQ / 2 < a
  · rw [tcpSeqdiff, if_pos hlow]
    exact ⟨fun h => absurd h hne, fun h => absurd hlow h.1⟩
  by_cases hhigh : a < TCP_MAXSEQ / 2 ∧ TCP_MAXSEQ / 2 < s
  · rw [tcpSeqdiff, if_neg hlow, if_pos hhigh]
    exact ⟨fun h => absurd h hne, fun h => absurd hhigh h.2⟩
  · rw [tcpSeqdiff, if_neg hlow, if_neg hhigh]
    refine ⟨fun _ => ⟨hlow, hhigh⟩, fun _ => ?_⟩
    unfold sub32
    omega

/-- Two steps are one if the first does not lead to the number that is skipped. -/
theorem seqadd_seqadd_iff (hn : n < 2 ^ 31) : seqadd (seqadd a m) n = seqadd a (m + n) ↔
    (a + m) % 2 ^ 32 ≠ TCP_MAXSEQ ∨ n = 0 := by
  unfold seqadd add32 TCP_MAXSEQ
  omega

/-- **Sequence arithmetic is modular exactly on straight intervals**: the sum, the difference back
and the comparisons are those modulo `2 ^ 32`; and steps add up exactly where the first of them does
not lead to the number that is skipped. -/
theorem seq_modular_iff_straight (hn : n < 2 ^ 31) :
    (seqadd a n = (a + n) % 2 ^ 32 ∧ tcpSeqdiff (seqadd a n) a = n ∧ seqlte a (seqadd a n) ∧
        (seqlt a (seqadd a n) ↔ 0 < n) ↔ Straight a n) ∧
      ∀ m, seqadd (seqadd a m) n = seqadd a (m + n) ↔ (a + m) % 2 ^ 32 ≠ TCP_MAXSEQ ∨ n = 0 := by
  refine ⟨⟨fun h => ?_, fun h => ?_⟩, fun m => seqadd_seqadd_iff hn⟩
  · obtain ⟨hadd, hdiff, -⟩ := h
    rw [hadd] at hdiff
    exact ⟨seqadd_eq_mod_iff.mp hadd, (tcpSeqdiff_add_mod_iff hn rfl).mp hdiff⟩
  · have hadd := seqadd_eq_mod_iff.mpr h.1
    rw [hadd]
    exact ⟨rfl, (tcpSeqdiff_add_mod_iff hn rfl).mpr h.2, seqlte_add_mod hn⟩

theorem seq_modular_iff_straight_small :
    tcpSeqdiff (seqadd 1000 24) 1000 = 24 ∧
      seqadd (seqadd 1000 0x7FFFFFFF) 24 = seqadd 1000 (0x7FFFFFFF + 24) :=
  have h := seq_modular_iff_straight (a := 1000) (by decide : 24 < 2 ^ 31)
  ⟨(h.1.mpr (by decide)).2.1, (h.2 _).mpr (by decide)⟩

/-- Across the middle the difference of two octets comes out as almost the whole range, and the
last number of the range is skipped, so that adding nothing to it changes it. -/
theorem seq_not_modular :
    tcpSeqdiff (seqadd 0x7FFFFFFE 2) 0x7FFFFFFE = 0xFFFFFFFD ∧ seqadd 0xFFFFFFFF 0 = 0 ∧
      seqlt 0xFFFFFFFF (seqadd 0xFFFFFFFF 0) ∧
      seqadd (seqadd 0xFFFFFFFE 1) 1 ≠ seqadd 0xFFFFFFFE 2 := by decide

end Modular

end Xinu.Tcp
