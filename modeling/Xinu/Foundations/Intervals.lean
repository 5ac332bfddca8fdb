import Mathlib.Data.Set.Basic
import Mathlib.Data.List.Basic
import Mathlib.Order.Lattice
import Mathlib.Tactic.Common

/-!
# Lists of separated intervals

A finite set of natural numbers has exactly one description as a list of nonempty half-open
intervals in increasing order with a gap between any two neighbours. This module develops that
normal form: which edits of the list keep it, and what each of them does to the set described.

## Main definitions

* `Block`: the half-open interval from `addr` to `addr + len`
* `cells l`: the numbers covered by a list of blocks
* `Separated l`: nonempty blocks in increasing order, no two of them overlapping or adjacent

## Main results

* `Separated.ext`: separated lists that cover the same numbers are equal
* `Separated.remove`, `Separated.shrink`: taking a block out, and cutting a part of it off
* `Separated.concat`, `Separated.growLast`, `Separated.appendGap`, `Separated.appendTouch`:
  putting a block in, merged with a neighbour wherever it touches one
-/

namespace Intervals

open List

/-- The half-open interval `[addr, addr + len)`. -/
@[ext] structure Block where
  addr : Nat
  len : Nat
deriving DecidableEq, Repr

/-- The first number after a block. -/
def Block.stop (b : Block) : Nat := b.addr + b.len

/-- The numbers of a block. -/
def Block.cells (b : Block) : Set Nat := {x | b.addr ≤ x ∧ x < b.stop}

@[simp] theorem Block.mem_cells {b : Block} {x : Nat} :
    x ∈ b.cells ↔ b.addr ≤ x ∧ x < b.addr + b.len := Iff.rfl

theorem Block.mem_cells_mk {a n x : Nat} : x ∈ (Block.mk a n).cells ↔ a ≤ x ∧ x < a + n := Iff.rfl

@[simp] theorem Block.stop_mk (a n : Nat) : (Block.mk a n).stop = a + n := rfl

/-- The numbers covered by a list of blocks. -/
def cells (l : List Block) : Set Nat := {x | ∃ b ∈ l, x ∈ b.cells}

variable {k l : List Block} {c : Block} {x : Nat}

theorem mem_cells : x ∈ cells l ↔ ∃ b ∈ l, x ∈ b.cells := Iff.rfl

@[simp] theorem cells_nil : cells [] = ∅ := by
  ext x
  simp [mem_cells]

@[simp] theorem cells_cons (b : Block) (l : List Block) : cells (b :: l) = b.cells ∪ cells l := by
  ext x
  simp only [mem_cells, mem_cons, Set.mem_union]
  constructor
  · rintro ⟨c, rfl | hc, hx⟩
    · exact .inl hx
    · exact .inr ⟨c, hc, hx⟩
  · rintro (hx | ⟨c, hc, hx⟩)
    · exact ⟨b, .inl rfl, hx⟩
    · exact ⟨c, .inr hc, hx⟩

@[simp] theorem cells_append (l k : List Block) : cells (l ++ k) = cells l ∪ cells k := by
  induction l with
  | nil => simp
  | cons b l ih => rw [cons_append, cells_cons, ih, cells_cons, Set.union_assoc]

theorem cells_perm (h : l.Perm k) : cells l = cells k := by
  ext x
  simp only [mem_cells, h.mem_iff]

/-- Two adjacent blocks cover what their union covers. -/
theorem cells_merge (p c : Block) (h : p.stop = c.addr) :
    p.cells ∪ c.cells = (Block.mk p.addr (p.len + c.len)).cells := by
  ext x
  simp only [Set.mem_union, Block.mem_cells, Block.stop] at h ⊢
  omega

/-- Nonempty blocks in increasing order, no two of them overlapping or adjacent. -/
structure Separated (l : List Block) : Prop where
  pos : ∀ b ∈ l, 0 < b.len
  sep : l.Pairwise fun a b => a.stop < b.addr

theorem separated_nil : Separated [] := ⟨by simp, List.Pairwise.nil⟩

variable {b : Block}

theorem separated_singleton (h : 0 < b.len) : Separated [b] :=
  ⟨by simpa using h, pairwise_singleton _ _⟩

section

variable (h : Separated (b :: l))
include h

theorem Separated.tail : Separated l :=
  ⟨fun c hc => h.pos c (mem_cons_of_mem _ hc), h.sep.of_cons⟩

theorem Separated.gap (hc : c ∈ l) : b.stop < c.addr := (pairwise_cons.mp h.sep).1 c hc

/-- What a separated list covers after its first block lies behind a gap. -/
theorem Separated.lt_of_mem_tail (hx : x ∈ cells l) : b.stop < x := by
  obtain ⟨c, hc, hx⟩ := hx
  exact (h.gap hc).trans_le hx.1

theorem Separated.mem_tail_iff : x ∈ cells l ↔ x ∈ cells (b :: l) ∧ b.stop < x := by
  constructor
  · intro hx
    exact ⟨by rw [cells_cons]; exact .inr hx, h.lt_of_mem_tail hx⟩
  · rintro ⟨hx, hlt⟩
    rw [cells_cons] at hx
    rcases hx with hx | hx
    · exact absurd hx.2 (not_lt.mpr hlt.le)
    · exact hx

/-- The first block starts at the least number covered. -/
theorem Separated.head_le (hx : x ∈ cells (b :: l)) : b.addr ≤ x := by
  rw [cells_cons] at hx
  rcases hx with hx | hx
  · exact hx.1
  · exact (Nat.le_add_right _ _).trans (h.lt_of_mem_tail hx).le

theorem Separated.head_mem : b.addr ∈ cells (b :: l) := by
  have hpos := h.pos b mem_cons_self
  exact ⟨b, mem_cons_self .., by simp; omega⟩

theorem Separated.stop_not_mem : b.stop ∉ cells (b :: l) := by
  rw [cells_cons]
  rintro (hx | hx)
  · exact absurd hx.2 (lt_irrefl _)
  · exact absurd (h.lt_of_mem_tail hx) (lt_irrefl _)

end

theorem Separated.stop_le_of_subset {b : Block} (hk : Separated (c :: k))
    (haddr : b.addr = c.addr) (hsub : cells (b :: l) ⊆ cells (c :: k)) : b.stop ≤ c.stop := by
  by_contra hlt
  refine hk.stop_not_mem (hsub ⟨b, mem_cons_self .., ?_, not_le.mp hlt⟩)
  rw [haddr]
  exact Nat.le_add_right _ _

/-- **The normal form is unique**: separated lists that cover the same numbers are equal. -/
theorem Separated.ext (hl : Separated l) (hk : Separated k) (h : cells l = cells k) : l = k := by
  induction l generalizing k with
  | nil =>
    cases k with
    | nil => rfl
    | cons c k =>
      have hmem := hk.head_mem
      rw [← h] at hmem
      simp at hmem
  | cons b l ih =>
    cases k with
    | nil =>
      have hmem := hl.head_mem
      rw [h] at hmem
      simp at hmem
    | cons c k =>
      have haddr : b.addr = c.addr :=
        le_antisymm (hl.head_le (h ▸ hk.head_mem)) (hk.head_le (h ▸ hl.head_mem))
      have hstop : b.stop = c.stop :=
        le_antisymm (hk.stop_le_of_subset haddr h.subset)
          (hl.stop_le_of_subset haddr.symm h.superset)
      have hbc : b = c := by
        simp only [Block.stop] at hstop
        exact Block.ext haddr (by omega)
      subst hbc
      have htail : cells l = cells k := by
        ext x
        rw [hl.mem_tail_iff, hk.mem_tail_iff, h]
      rw [ih hl.tail hk.tail htail]

/-! ## Edits at one place of the list -/

section Edits

variable {pre post : List Block} {b : Block}

/-- A number splits a separated list by the starts of its blocks. -/
theorem Separated.exists_split (hsep : Separated l) (x : Nat) : ∃ pre post, l = pre ++ post ∧
    (∀ b ∈ pre, b.addr < x) ∧ ∀ b ∈ post, x ≤ b.addr := by
  induction l with
  | nil => exact ⟨[], [], rfl, by simp, by simp⟩
  | cons b l ih =>
    by_cases hlow : b.addr < x
    · obtain ⟨pre, post, rfl, hpre, hpost⟩ := ih hsep.tail
      exact ⟨b :: pre, post, rfl, forall_mem_cons.mpr ⟨hlow, hpre⟩, hpost⟩
    · refine ⟨[], b :: l, rfl, by simp, forall_mem_cons.mpr ⟨by omega, fun c hc => ?_⟩⟩
      have := hsep.gap hc
      simp only [Block.stop] at this
      omega

theorem separated_append_cons :
    Separated (pre ++ b :: post) ↔
      Separated pre ∧ 0 < b.len ∧ Separated post ∧ (∀ a ∈ pre, a.stop < b.addr) ∧
        (∀ c ∈ post, b.stop < c.addr) := by
  constructor
  · rintro ⟨hpos, hsep⟩
    obtain ⟨hpre, hpost, hcross⟩ := pairwise_append.mp hsep
    obtain ⟨hb, hpost⟩ := pairwise_cons.mp hpost
    exact ⟨⟨fun a ha => hpos a (by simp [ha]), hpre⟩, hpos b (by simp),
      ⟨fun a ha => hpos a (by simp [ha]), hpost⟩, fun a ha => hcross a ha b (by simp), hb⟩
  · rintro ⟨⟨hppos, hpre⟩, hb, ⟨hqpos, hpost⟩, hbelow, habove⟩
    refine ⟨?_, pairwise_append.mpr ⟨hpre, pairwise_cons.mpr ⟨habove, hpost⟩, ?_⟩⟩
    · intro a ha
      rcases mem_append.mp ha with ha | ha
      · exact hppos a ha
      · rcases mem_cons.mp ha with rfl | ha
        · exact hb
        · exact hqpos a ha
    · intro a ha c hc
      rcases mem_cons.mp hc with rfl | hc
      · exact hbelow a ha
      · exact (hbelow a ha).trans_le ((Nat.le_add_right _ _).trans (habove c hc).le)

theorem separated_append :
    Separated (pre ++ post) ↔
      Separated pre ∧ Separated post ∧ ∀ a ∈ pre, ∀ c ∈ post, a.stop < c.addr := by
  constructor
  · rintro ⟨hpos, hsep⟩
    obtain ⟨hpre, hpost, hcross⟩ := pairwise_append.mp hsep
    exact ⟨⟨fun a ha => hpos a (by simp [ha]), hpre⟩, ⟨fun a ha => hpos a (by simp [ha]), hpost⟩,
      hcross⟩
  · rintro ⟨hpre, hpost, hcross⟩
    refine ⟨fun a ha => ?_, pairwise_append.mpr ⟨hpre.sep, hpost.sep, hcross⟩⟩
    rcases mem_append.mp ha with ha | ha
    · exact hpre.pos a ha
    · exact hpost.pos a ha

/-- Taking a whole block out keeps the list separated. -/
theorem Separated.remove (h : Separated (pre ++ b :: post)) : Separated (pre ++ post) := by
  obtain ⟨hpre, -, hpost, hbelow, habove⟩ := separated_append_cons.mp h
  refine separated_append.mpr ⟨hpre, hpost, fun a ha c hc => ?_⟩
  exact (hbelow a ha).trans_le ((Nat.le_add_right _ _).trans (habove c hc).le)

/-- The other blocks cover nothing of a block of the list. -/
theorem Separated.not_mem_of_mem_block (h : Separated (pre ++ b :: post))
    (hx : x ∈ b.cells) : x ∉ cells (pre ++ post) := by
  obtain ⟨-, -, -, hbelow, habove⟩ := separated_append_cons.mp h
  rintro ⟨c, hc, hxc⟩
  simp only [Block.mem_cells] at hx hxc
  rcases mem_append.mp hc with hc | hc
  · have := hbelow c hc
    simp only [Block.stop] at this
    omega
  · have := habove c hc
    simp only [Block.stop] at this
    omega

theorem mem_cells_append_cons :
    x ∈ cells (pre ++ b :: post) ↔ x ∈ b.cells ∨ x ∈ cells (pre ++ post) := by
  simp only [cells_append, cells_cons, Set.mem_union]
  tauto

section

variable (h : Separated (pre ++ b :: post))
include h

theorem Separated.cells_remove : cells (pre ++ post) = cells (pre ++ b :: post) \ b.cells := by
  ext x
  rw [Set.mem_sdiff, mem_cells_append_cons]
  constructor
  · intro hx
    exact ⟨.inr hx, fun hb => h.not_mem_of_mem_block hb hx⟩
  · rintro ⟨hx | hx, hb⟩
    · exact absurd hx hb
    · exact hx

/-- Replacing a block by a nonempty block inside it keeps the list separated. -/
theorem Separated.shrink (hpos : 0 < c.len)
    (haddr : b.addr ≤ c.addr) (hstop : c.stop ≤ b.stop) : Separated (pre ++ c :: post) := by
  obtain ⟨hpre, -, hpost, hbelow, habove⟩ := separated_append_cons.mp h
  exact separated_append_cons.mpr ⟨hpre, hpos, hpost,
    fun a ha => (hbelow a ha).trans_le haddr, fun a ha => hstop.trans_lt (habove a ha)⟩

/-- Splitting a block of the list in two: the list without one half covers the rest. -/
theorem Separated.cells_split {d : Block}
    (hcd : b.cells = c.cells ∪ d.cells) (hdisj : ∀ x ∈ c.cells, x ∉ d.cells) :
    cells (pre ++ d :: post) = cells (pre ++ b :: post) \ c.cells := by
  ext x
  rw [Set.mem_sdiff, mem_cells_append_cons, mem_cells_append_cons, hcd, Set.mem_union]
  constructor
  · rintro (hx | hx)
    · exact ⟨.inl (.inr hx), fun hc => hdisj x hc hx⟩
    · refine ⟨.inr hx, fun hc => h.not_mem_of_mem_block ?_ hx⟩
      rw [hcd]
      exact .inl hc
  · rintro ⟨(hx | hx) | hx, hc⟩
    · exact absurd hx hc
    · exact .inl hx
    · exact .inr hx

end

/-- Putting a block behind a separated list that it does not touch. -/
theorem Separated.concat (h : Separated pre) (hpos : 0 < b.len)
    (hbelow : ∀ a ∈ pre, a.stop < b.addr) : Separated (pre ++ [b]) :=
  separated_append_cons.mpr ⟨h, hpos, separated_nil, hbelow, by simp⟩

section

variable (h : Separated (pre ++ [b]))
include h

/-- Growing the last block of a separated list upwards. -/
theorem Separated.growLast (n : Nat) : Separated (pre ++ [⟨b.addr, b.len + n⟩]) := by
  obtain ⟨hpre, hpos, -, hbelow, -⟩ := separated_append_cons.mp h
  exact separated_append_cons.mpr
    ⟨hpre, Nat.add_pos_left hpos n, separated_nil, hbelow, by simp⟩

/-- Two separated lists with a gap between the last block of one and the other. -/
theorem Separated.appendGap (hpost : Separated post)
    (habove : ∀ c ∈ post, b.stop < c.addr) : Separated (pre ++ b :: post) := by
  obtain ⟨hpre, hpos, -, hbelow, -⟩ := separated_append_cons.mp h
  exact separated_append_cons.mpr ⟨hpre, hpos, hpost, hbelow, habove⟩

/-- Two separated lists that touch: the last block of one merged with the first of the other. -/
theorem Separated.appendTouch (hpost : Separated (c :: post))
    (htouch : b.stop = c.addr) : Separated (pre ++ ⟨b.addr, b.len + c.len⟩ :: post) := by
  obtain ⟨hpre, hpos, -, hbelow, -⟩ := separated_append_cons.mp h
  refine separated_append_cons.mpr
    ⟨hpre, Nat.add_pos_left hpos c.len, hpost.tail, hbelow, fun d hd => ?_⟩
  have hgap := hpost.gap hd
  simp only [Block.stop] at hgap htouch ⊢
  omega

end

end Edits

end Intervals
