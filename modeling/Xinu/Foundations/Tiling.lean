import Mathlib.Data.List.Basic
import Mathlib.Data.List.Chain
import Mathlib.Tactic.Tauto

/-!
# Tilings in two colours

An interval of natural numbers is tiled by nonempty tiles, each of which starts where the one before
it ends. A tile is free or taken. Order, disjointness and cover are read off the tiling. A tiling is
settled if no two neighbours are free: then the free tiles are as long as they can be.

## Main definitions

* `Tile`: the numbers from `start` on, `len` of them, free or taken
* `Tiles a l b`: the tiles `l` tile the interval from `a` to `b`
* `Settled l`: no two neighbours are free

## Main results

* `Tiles.cover`, `Tiles.pairwise`: every number is in a tile, and tiles do not overlap
* `Tiles.split`, `Tiles.merge`, `Tiles.paint`: a tile is cut in two, two are joined, a tile changes
  colour
-/

namespace Tiling

open List

/-- The numbers from `start` on, `len` of them. -/
structure Tile where
  start : Nat
  len : Nat
  free : Bool
deriving DecidableEq

/-- The first number behind a tile. -/
def Tile.stop (t : Tile) : Nat := t.start + t.len

/-- The tiles `l` tile the interval from `a` to `b`. -/
def Tiles : Nat → List Tile → Nat → Prop
  | a, [], b => a = b
  | a, t :: l, b => t.start = a ∧ 0 < t.len ∧ Tiles t.stop l b

/-- No two neighbours are free. -/
def Settled (l : List Tile) : Prop := l.IsChain fun s t => s.free = true → t.free = false

variable {a b m : Nat} {l r pre post : List Tile} {t u : Tile} {x : Nat}

theorem tiles_append : Tiles a (l ++ r) b ↔ ∃ m, Tiles a l m ∧ Tiles m r b := by
  induction l generalizing a with
  | nil =>
    constructor
    · intro h
      exact ⟨a, rfl, h⟩
    · rintro ⟨m, rfl, h⟩
      exact h
  | cons t l ih =>
    constructor
    · rintro ⟨hs, hpos, h⟩
      obtain ⟨m, hl, hr⟩ := ih.mp h
      exact ⟨m, ⟨hs, hpos, hl⟩, hr⟩
    · rintro ⟨m, ⟨hs, hpos, hl⟩, hr⟩
      exact ⟨hs, hpos, ih.mpr ⟨m, hl, hr⟩⟩

theorem Tiles.bounds (h : Tiles a l b) : a ≤ b ∧ ∀ t ∈ l, a ≤ t.start ∧ 0 < t.len ∧ t.stop ≤ b := by
  induction l generalizing a with
  | nil =>
    obtain rfl : a = b := h
    exact ⟨le_rfl, by simp⟩
  | cons t l ih =>
    obtain ⟨rfl, hpos, h⟩ := h
    obtain ⟨hle, hmem⟩ := ih h
    have hstop : t.start < t.stop := Nat.lt_add_of_pos_right hpos
    refine ⟨by omega, fun u hu => ?_⟩
    rcases mem_cons.mp hu with rfl | hu
    · exact ⟨le_rfl, hpos, hle⟩
    · obtain ⟨hu₁, hu₂, hu₃⟩ := hmem u hu
      exact ⟨by omega, hu₂, hu₃⟩

theorem Tiles.length_le (h : Tiles a l b) : a + l.length ≤ b := by
  induction l generalizing a with
  | nil => exact le_of_eq h
  | cons t l ih =>
    obtain ⟨rfl, hpos, h⟩ := h
    have hrest := ih h
    unfold Tile.stop at hrest
    rw [length_cons]
    omega

/-- **Tiles stand in order and do not overlap.** -/
theorem Tiles.pairwise (h : Tiles a l b) : l.Pairwise fun t u => t.stop ≤ u.start := by
  induction l generalizing a with
  | nil => exact List.Pairwise.nil
  | cons t l ih =>
    obtain ⟨-, -, h⟩ := h
    exact pairwise_cons.mpr ⟨fun u hu => (h.bounds.2 u hu).1, ih h⟩

/-- The tiles before a tile start below it, and those behind it above. -/
theorem Tiles.order (h : Tiles a (pre ++ t :: post) b) :
    (∀ u ∈ pre, u.start < t.start) ∧ ∀ u ∈ post, t.start < u.start := by
  have hpos := fun v hv => (h.bounds.2 v hv).2.1
  obtain ⟨-, hpost, hpre⟩ := pairwise_append.mp h.pairwise
  constructor
  · intro u hu
    have hlt := hpre u hu t mem_cons_self
    have := hpos u (mem_append_left _ hu)
    unfold Tile.stop at hlt
    omega
  · intro u hu
    have hlt := (pairwise_cons.mp hpost).1 u hu
    have := hpos t (by simp)
    unfold Tile.stop at hlt
    omega

theorem Tiles.ne_start (h : Tiles a (pre ++ t :: post) b) (hu : u ∈ pre ++ post) :
    u.start ≠ t.start := by
  rcases mem_append.mp hu with hu | hu
  · exact (h.order.1 u hu).ne
  · exact (h.order.2 u hu).ne'

/-- **Every number of the interval is in a tile.** -/
theorem Tiles.cover (h : Tiles a l b) : a ≤ x ∧ x < b ↔ ∃ t ∈ l, t.start ≤ x ∧ x < t.stop := by
  induction l generalizing a with
  | nil =>
    obtain rfl : a = b := h
    simp only [not_mem_nil, false_and, exists_false, iff_false]
    omega
  | cons t l ih =>
    obtain ⟨rfl, hpos, h⟩ := h
    have hle := h.bounds.1
    have hstop : t.start < t.stop := Nat.lt_add_of_pos_right hpos
    constructor
    · rintro ⟨hx, hxb⟩
      rcases lt_or_ge x t.stop with hlt | hge
      · exact ⟨t, mem_cons_self, hx, hlt⟩
      · obtain ⟨u, hu, hxu⟩ := (ih h).mp ⟨hge, hxb⟩
        exact ⟨u, mem_cons_of_mem _ hu, hxu⟩
    · rintro ⟨u, hu, hxu⟩
      rcases mem_cons.mp hu with rfl | hu
      · omega
      · obtain ⟨h₁, h₂⟩ := (ih h).mpr ⟨u, hu, hxu⟩
        omega

/-- The tile behind a tile starts where it ends. -/
theorem Tiles.adjacent (h : Tiles a (pre ++ t :: u :: post) b) : u.start = t.stop := by
  obtain ⟨_, _, _, _, hu, _⟩ := tiles_append.mp h
  exact hu

/-- **A tile is cut in two.** -/
theorem Tiles.split {t₁ t₂ : Tile} (h : Tiles a (pre ++ t :: post) b) (h₁ : t₁.start = t.start)
    (h₂ : t₂.start = t₁.stop) (hstop : t₂.stop = t.stop) (hpos₁ : 0 < t₁.len) (hpos₂ : 0 < t₂.len) :
    Tiles a (pre ++ t₁ :: t₂ :: post) b := by
  obtain ⟨m, hpre, hs, _, hpost⟩ := tiles_append.mp h
  refine tiles_append.mpr ⟨m, hpre, h₁.trans hs, hpos₁, h₂, hpos₂, ?_⟩
  rw [hstop]
  exact hpost

/-- **Two tiles are joined.** -/
theorem Tiles.merge {v : Tile} (h : Tiles a (pre ++ t :: u :: post) b) (hs : v.start = t.start)
    (hstop : v.stop = u.stop) : Tiles a (pre ++ v :: post) b := by
  obtain ⟨m, hpre, hts, htpos, hus, hupos, hpost⟩ := tiles_append.mp h
  refine tiles_append.mpr ⟨m, hpre, hs.trans hts, ?_, ?_⟩
  · unfold Tile.stop at hstop hus
    omega
  · rw [hstop]
    exact hpost

/-- **A tile changes colour.** -/
theorem Tiles.paint {v : Tile} (h : Tiles a (pre ++ t :: post) b) (hs : v.start = t.start)
    (hlen : v.len = t.len) : Tiles a (pre ++ v :: post) b := by
  obtain ⟨m, hpre, hts, htpos, hpost⟩ := tiles_append.mp h
  have hstop : v.stop = t.stop := by rw [Tile.stop, Tile.stop, hs, hlen]
  refine tiles_append.mpr ⟨m, hpre, hs.trans hts, hlen ▸ htpos, ?_⟩
  rw [hstop]
  exact hpost

theorem mem_middle : u ∈ pre ++ t :: post ↔ u = t ∨ u ∈ pre ++ post := by
  simp only [mem_append, mem_cons]
  tauto

/-- The starts of the tiles of a colour, in order. -/
def starts (c : Bool) (l : List Tile) : List Nat := (l.filter fun t => t.free = c).map Tile.start

@[simp] theorem starts_append (c : Bool) (l r : List Tile) :
    starts c (l ++ r) = starts c l ++ starts c r := by
  simp [starts]

theorem starts_cons_of_eq {c : Bool} (h : t.free = c) (l : List Tile) :
    starts c (t :: l) = t.start :: starts c l := by
  simp [starts, h]

theorem starts_cons_of_ne {c : Bool} (h : t.free = !c) (l : List Tile) :
    starts c (t :: l) = starts c l := by
  simp [starts, h]

theorem starts_middle_of_eq {c : Bool} (h : t.free = c) :
    starts c (l ++ t :: r) = starts c l ++ t.start :: starts c r := by
  rw [starts_append, starts_cons_of_eq h]

theorem starts_middle_of_ne {c : Bool} (h : t.free = !c) :
    starts c (l ++ t :: r) = starts c l ++ starts c r := by
  rw [starts_append, starts_cons_of_ne h]

theorem length_starts_le (c : Bool) (l : List Tile) : (starts c l).length ≤ l.length := by
  unfold starts
  rw [length_map]
  exact length_filter_le _ _

theorem mem_starts {c : Bool} : x ∈ starts c l ↔ ∃ t ∈ l, t.free = c ∧ t.start = x := by
  simp [starts, and_assoc]

/-- The starts of all tiles are different. -/
theorem Tiles.starts_pairwise (h : Tiles a l b) (c : Bool) : (starts c l).Pairwise (· < ·) := by
  unfold starts
  rw [pairwise_map]
  refine (h.pairwise.filter _).imp_of_mem ?_
  intro t u ht _ htu
  have := (h.bounds.2 t (mem_of_mem_filter ht)).2.1
  unfold Tile.stop at htu
  omega

/-- **A number is in one tile only.** -/
theorem Tiles.unique (h : Tiles a l b) (ht : t ∈ l) (hu : u ∈ l)
    (htx : t.start ≤ x ∧ x < t.stop) (hux : u.start ≤ x ∧ x < u.stop) : t = u := by
  induction l generalizing a with
  | nil => simp at ht
  | cons v l ih =>
    obtain ⟨rfl, hpos, h⟩ := h
    have hbehind : ∀ w ∈ l, v.stop ≤ w.start := fun w hw => (h.bounds.2 w hw).1
    rcases mem_cons.mp ht with htv | htl
    · rcases mem_cons.mp hu with huv | hul
      · rw [htv, huv]
      · have := hbehind u hul
        rw [htv] at htx
        omega
    · rcases mem_cons.mp hu with huv | hul
      · have := hbehind t htl
        rw [huv] at hux
        omega
      · exact ih h htl hul

theorem Tiles.eq_of_start (h : Tiles a l b) (ht : t ∈ l) (hu : u ∈ l) (heq : t.start = u.start) :
    t = u := by
  have htpos := (h.bounds.2 t ht).2.1
  have hupos := (h.bounds.2 u hu).2.1
  refine h.unique ht hu (x := t.start) ?_ ?_
  · unfold Tile.stop
    omega
  · unfold Tile.stop
    omega

/-- No tile is both free and taken. -/
theorem Tiles.starts_disjoint (h : Tiles a l b) (hx : x ∈ starts true l) : x ∉ starts false l := by
  intro hx'
  obtain ⟨t, ht, htf, rfl⟩ := mem_starts.mp hx
  obtain ⟨u, hu, huf, heq⟩ := mem_starts.mp hx'
  rw [h.eq_of_start hu ht heq, htf] at huf
  simp at huf

/-! ## Settled tilings -/

theorem settled_middle : Settled (pre ++ t :: post) ↔ Settled (pre ++ [t]) ∧ Settled (t :: post) :=
  isChain_split

theorem Settled.left (h : Settled (l ++ r)) : Settled l := List.IsChain.left_of_append h

/-- Only the colour of the first tile matters. -/
theorem Settled.setHead (h : Settled (t :: l)) (hc : u.free = t.free) : Settled (u :: l) := by
  cases l with
  | nil => exact isChain_singleton u
  | cons v l =>
    obtain ⟨htv, hl⟩ := isChain_cons_cons.mp h
    exact isChain_cons_cons.mpr ⟨fun hu => htv (hc ▸ hu), hl⟩

/-- Only the colour of the last tile matters. -/
theorem Settled.setLast (h : Settled (l ++ [t])) (hc : u.free = t.free) : Settled (l ++ [u]) := by
  rcases l.eq_nil_or_concat with rfl | ⟨k, v, rfl⟩
  · exact isChain_singleton u
  · rw [concat_eq_append, append_assoc] at h ⊢
    obtain ⟨hk, hvt⟩ := settled_middle.mp h
    refine settled_middle.mpr ⟨hk, isChain_cons_cons.mpr ⟨fun hv => ?_, isChain_singleton u⟩⟩
    rw [hc]
    exact (isChain_cons_cons.mp hvt).1 hv

/-- A taken tile settles with any neighbours. -/
theorem settled_taken (hpre : Settled pre) (hpost : Settled post) (ht : t.free = false) :
    Settled (pre ++ t :: post) := by
  refine settled_middle.mpr ⟨?_, ?_⟩
  · rcases pre.eq_nil_or_concat with rfl | ⟨k, v, rfl⟩
    · exact isChain_singleton t
    · rw [concat_eq_append] at hpre ⊢
      rw [append_assoc]
      exact settled_middle.mpr ⟨hpre, isChain_cons_cons.mpr ⟨fun _ => ht, isChain_singleton t⟩⟩
  · cases post with
    | nil => exact isChain_singleton t
    | cons v post =>
      refine isChain_cons_cons.mpr ⟨fun hf => ?_, hpost⟩
      rw [ht] at hf
      simp at hf

/-- The free tiles of a settled tiling are not adjacent. -/
theorem Tiles.not_adjacent (h : Tiles a l b) (hs : Settled l) (ht : t ∈ l) (hu : u ∈ l)
    (htf : t.free = true) (huf : u.free = true) : t.stop ≠ u.start := by
  intro heq
  obtain ⟨pre, post, rfl⟩ := append_of_mem ht
  -- the tile that starts where `t` ends is the one behind it
  cases post with
  | nil =>
    obtain ⟨m, _, _, _, hend⟩ := tiles_append.mp h
    have hend' : t.stop = b := hend
    have hub := h.bounds.2 u hu
    unfold Tile.stop at *
    omega
  | cons v post =>
    have hv : v.start = t.stop := h.adjacent
    obtain rfl := h.eq_of_start hu (by simp) (heq.symm.trans hv.symm)
    have hvt := (isChain_cons_cons.mp (settled_middle.mp hs).2).1 htf
    rw [hvt] at huf
    simp at huf

/-- A number is in a free tile. -/
def Free (l : List Tile) (x : Nat) : Prop := ∃ t ∈ l, t.free = true ∧ t.start ≤ x ∧ x < t.stop

/-- A free tile of at least `k` numbers. -/
def Tile.fits (k : Nat) (t : Tile) : Bool := t.free && decide (k ≤ t.len)

theorem Tile.fits_iff {k : Nat} {t : Tile} : t.fits k = true ↔ t.free = true ∧ k ≤ t.len := by
  simp [Tile.fits]

/-- The front of a free tile is taken. -/
theorem Tiles.free_take (h : Tiles a (pre ++ t :: post) b) (ht : t.free = true) {k : Nat}
    (hk : k < t.len) :
    Free (pre ++ ⟨t.start, k, false⟩ :: ⟨t.start + k, t.len - k, true⟩ :: post) x ↔
      Free (pre ++ t :: post) x ∧ ¬ (t.start ≤ x ∧ x < t.start + k) := by
  have htmem : t ∈ pre ++ t :: post := by simp
  constructor
  · rintro ⟨u, hu, huf, hux⟩
    simp only [mem_append, mem_cons] at hu
    -- a tile around the one that is cut
    have hold : u ∈ pre ++ post →
        Free (pre ++ t :: post) x ∧ ¬ (t.start ≤ x ∧ x < t.start + k) := by
      intro hmem
      have humem : u ∈ pre ++ t :: post := mem_middle.mpr (.inr hmem)
      refine ⟨⟨u, humem, huf, hux⟩, ?_⟩
      intro hx
      refine h.ne_start hmem (congrArg Tile.start (h.unique humem htmem hux ⟨hx.1, ?_⟩))
      unfold Tile.stop
      omega
    rcases hu with hu | rfl | rfl | hu
    · exact hold (mem_append_left _ hu)
    · simp at huf
    · unfold Tile.stop at hux
      dsimp only at hux
      refine ⟨⟨t, htmem, ht, by omega, ?_⟩, by omega⟩
      unfold Tile.stop
      omega
    · exact hold (mem_append_right _ hu)
  · rintro ⟨⟨u, hu, huf, hux⟩, hx⟩
    rcases mem_middle.mp hu with rfl | hmem
    · refine ⟨⟨u.start + k, u.len - k, true⟩, by simp, rfl, ?_⟩
      unfold Tile.stop at hux ⊢
      dsimp only
      omega
    · refine ⟨u, ?_, huf, hux⟩
      rw [mem_append] at hmem ⊢
      exact hmem.imp id fun hp => mem_cons_of_mem _ (mem_cons_of_mem _ hp)

end Tiling
