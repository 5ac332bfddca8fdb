import Xinu.Memory.FreeList

/-!
# What the allocators do to the free list

`memget` and `stkget` take one block out of the free list, from the bottom of the first block that
fits and from the top of the last one; `memfree` puts a block back and merges it with whatever it
touches. Each is specified by the set of free cells it leaves.

## Main results

* `Heap.memget_spec`, `Heap.stkget_spec`: an allocation fails and changes nothing, or takes a
  block of the rounded size out
* `Heap.memget_stkget_placement`: which block each of the two takes it from
* `Heap.memfree_spec`: a block inside the heap none of whose cells is free is put back
-/

namespace Xinu

open List Intervals

namespace Heap

variable {h h' h₁ h₂ : Heap} {l l' pre post : List Block} {b c : Block} {n fuel : Nat}

/-- `h'` is `h` with the block `c` taken out of its free list `l`, which leaves `l'`. -/
structure Takes (h : Heap) (l : List Block) (h' : Heap) (l' : List Block) (c : Block) : Prop where
  free : FreeList h' l'
  cells : Intervals.cells l' = Intervals.cells l \ c.cells
  subset : c.cells ⊆ Intervals.cells l
  aligned : 8 ∣ c.addr
  memheap : h'.memheap = h.memheap
  maxaddr : h'.maxaddr = h.maxaddr

section

variable (F : FreeList h (pre ++ b :: post))
include F

theorem FreeList.mem_length : (h.mem b.addr).length = b.len := (path_append.mp F.path).2.2.2.1

theorem FreeList.next_last : (h.get (last none pre)).next = b.addr := (path_append.mp F.path).2.1

theorem FreeList.addr_pos : b.addr ≠ NULL :=
  (path_append.mp F.path).2.2.1

theorem FreeList.addr_ne : (∀ a ∈ pre, a.addr ≠ b.addr) ∧ ∀ c ∈ post, c.addr ≠ b.addr :=
  addr_ne_of_separated F.separated (le_refl _) (Nat.le_add_right _ _)

end

theorem FreeList.stop_lt (F : FreeList h l) (hB : Bounds h) (hb : b ∈ l) :
    b.addr + b.len < 2 ^ 32 :=
  (F.inside b hb).2.trans_lt hB.lt

theorem forall_mem_replace {P : Block → Prop} (mid : List Block)
    (hall : ∀ a ∈ pre ++ (mid ++ post), P a) (hc : P c) : ∀ a ∈ pre ++ c :: post, P a := by
  intro a ha
  rcases mem_append.mp ha with ha | ha
  · exact hall a (by simp [ha])
  · rcases mem_cons.mp ha with rfl | ha
    · exact hc
    · exact hall a (by simp [ha])

section

variable (F : FreeList h (pre ++ b :: post))
include F

section

variable (hB : Bounds h)
include hB

/-- The total kept in `memlist.length` covers every block, so subtracting one does not wrap. -/
theorem FreeList.sub_total (hn : n ≤ b.len) :
    sub32 h.memlist.length n = ((pre ++ post).map Block.len).sum + (b.len - n) := by
  have hlt := F.total_lt hB
  have hsum := sum_append_cons pre post b
  rw [F.total, sub32_eq (by omega) hlt]
  omega

theorem FreeList.takeWhole : Takes h (pre ++ b :: post)
      ((h.setNext (last none pre) (h.mem b.addr).next).setLength none
        (sub32 (h.setNext (last none pre) (h.mem b.addr).next).memlist.length b.len))
      (pre ++ post) b := by
  have hmemlist : (h.setNext (last none pre) (h.mem b.addr).next).memlist.length =
      h.memlist.length := length_setNext h _ none _
  refine ⟨⟨?_, F.separated.remove, ?_, ?_, ?_⟩, F.separated.cells_remove, ?_, ?_, by simp, by simp⟩
  · refine Path.replace pre [b] [] post F.path F.separated.remove F.addr_ne ?_ ?_ ?_
    · intro r hne _
      rw [next_setLength, next_setNext, if_neg hne]
    · intro r hr _
      rw [length_setLength, if_neg hr, length_setNext]
    · simp [Path, next_setNext, last]
  · exact fun a ha => F.aligned a (by simp at ha ⊢; tauto)
  · simp only [memheap_setLength, memheap_setNext, maxaddr_setLength, maxaddr_setNext]
    exact fun a ha => F.inside a (by simp at ha ⊢; tauto)
  · rw [hmemlist, F.sub_total hB (le_refl _)]
    simp [setLength]
  · exact fun x hx => ⟨b, by simp, hx⟩
  · exact (F.aligned b (by simp)).1

section

variable (hn : 8 ∣ n) (hlt : n < b.len)
include hn hlt

/-- Cutting a part off a block, at the front or at the back: what is left to see are the links. -/
theorem FreeList.cut {x y : Nat} {h' : Heap}
    (hxy : x = b.addr + n ∧ y = b.addr ∨ x = b.addr ∧ y = b.addr + (b.len - n))
    (hpath : Path h' none (pre ++ ⟨x, b.len - n⟩ :: post) NULL)
    (htotal : h'.memlist.length = sub32 h.memlist.length n) (hlow : h'.memheap = h.memheap)
    (hhigh : h'.maxaddr = h.maxaddr) :
    Takes h (pre ++ b :: post) h' (pre ++ ⟨x, b.len - n⟩ :: post) ⟨y, n⟩ := by
  have hba := F.aligned b (by simp)
  have hrest := Nat.dvd_sub hba.2 hn
  refine ⟨⟨hpath, ?_, ?_, ?_, ?_⟩, ?_, ?_, ?_, hlow, hhigh⟩
  · exact F.separated.shrink (by simp; omega) (by simp; omega) (by simp [Block.stop]; omega)
  · exact forall_mem_replace [b] F.aligned ⟨by dsimp only; omega, hrest⟩
  · have hbi := F.inside b (by simp)
    rw [hlow, hhigh]
    refine forall_mem_replace [b] F.inside ?_
    simp only [Block.stop] at hbi ⊢
    omega
  · rw [htotal, F.sub_total hB hlt.le, sum_append_cons]
    dsimp only
    omega
  · refine F.separated.cells_split (c := ⟨y, n⟩) ?_ ?_
    · ext z
      simp only [Block.mem_cells, Set.mem_union]
      omega
    · intro z
      simp only [Block.mem_cells]
      omega
  · intro z hz
    refine ⟨b, by simp, ?_⟩
    simp only [Block.mem_cells] at hz ⊢
    omega
  · dsimp only
    omega

theorem FreeList.takeFront (h0 : 0 < n) {h₃ : Heap}
    (e₁ : h₁ = h.setNext (last none pre) (add32 b.addr n))
    (e₂ : h₂ = h₁.setNext (some (add32 b.addr n)) (h₁.mem b.addr).next)
    (e₃ : h₃ = h₂.setLength (some (add32 b.addr n)) (sub32 (h₂.mem b.addr).length n)) :
    Takes h (pre ++ b :: post) (h₃.setLength none (sub32 h₃.memlist.length n))
      (pre ++ ⟨b.addr + n, b.len - n⟩ :: post) ⟨b.addr, n⟩ := by
  have hstop := F.stop_lt hB (b := b) (by simp)
  have hadd : add32 b.addr n = b.addr + n := add32_eq (by omega)
  have hoff := addr_ne_of_separated (x := b.addr + n) F.separated (by omega)
    (by simp only [Block.stop]; omega)
  have hne : last none pre ≠ some (b.addr + n) :=
    ne_some_of_mem_headers hoff.1 _ (last_mem_headers none pre)
  have hneb : last none pre ≠ some b.addr :=
    ne_some_of_mem_headers F.addr_ne.1 _ (last_mem_headers none pre)
  rw [hadd] at e₁ e₂ e₃
  have hnext : (h₁.mem b.addr).next = (h.get (some b.addr)).next := by
    rw [← get_some, e₁, next_setNext, if_neg hneb.symm]
  have hlen : (h₂.mem b.addr).length = b.len := by
    rw [← get_some, e₂, length_setNext, e₁, length_setNext, get_some, F.mem_length]
  have hsub : sub32 (h₂.mem b.addr).length n = b.len - n := by
    rw [hlen, sub32_eq hlt.le]
  have hmemlist : h₃.memlist.length = h.memlist.length := by
    rw [← get_none, e₃, length_setLength, if_neg (by simp), e₂, length_setNext, e₁, length_setNext,
      get_none]
  refine F.cut hB hn hlt (Or.inl ⟨rfl, rfl⟩) ?_ (by rw [← hmemlist]; rfl) (by simp [e₁, e₂, e₃])
    (by simp [e₁, e₂, e₃])
  refine Path.replace pre [b] [⟨b.addr + n, b.len - n⟩] post F.path F.separated.remove hoff ?_ ?_ ?_
  · intro r hrne hrx
    rw [next_setLength, e₃, next_setLength, e₂, next_setNext, if_neg hrx, e₁, next_setNext,
      if_neg hrne]
  · intro r hr hrx
    rw [length_setLength, if_neg hr, e₃, length_setLength, if_neg hrx, e₂, length_setNext, e₁,
      length_setNext]
  · refine ⟨?_, ?_, ?_, ?_⟩
    · rw [next_setLength, e₃, next_setLength, e₂, next_setNext, if_neg hne, e₁, next_setNext,
        if_pos rfl]
    · simp only [NULL]
      omega
    · rw [length_setLength, if_neg (by simp), e₃, length_setLength, if_pos rfl, hsub]
    · rw [Path, next_setLength, e₃, next_setLength, e₂, next_setNext, if_pos rfl, hnext,
        last_append_cons]
      rfl

theorem FreeList.takeBack (e₁ : h₁ = h.setLength (some b.addr) (sub32 (h.mem b.addr).length n)) :
    Takes h (pre ++ b :: post) (h₁.setLength none (sub32 h₁.memlist.length n))
      (pre ++ ⟨b.addr, b.len - n⟩ :: post) ⟨b.addr + (b.len - n), n⟩ := by
  have hstop := F.stop_lt hB (b := b) (by simp)
  rw [F.mem_length, sub32_eq hlt.le] at e₁
  have hmemlist : h₁.memlist.length = h.memlist.length := by
    rw [← get_none, e₁, length_setLength, if_neg (by simp), get_none]
  refine F.cut hB hn hlt (Or.inr ⟨rfl, rfl⟩) ?_ (by rw [← hmemlist]; rfl) (by simp [e₁])
    (by simp [e₁])
  refine Path.replace pre [b] [⟨b.addr, b.len - n⟩] post F.path F.separated.remove
    F.addr_ne ?_ ?_ ?_
  · intro r _ _
    rw [next_setLength, e₁, next_setLength]
  · intro r hr hrb
    rw [length_setLength, if_neg hr, e₁, length_setLength, if_neg hrb]
  · refine ⟨?_, F.addr_pos, ?_, ?_⟩
    · rw [next_setLength, e₁, next_setLength, F.next_last]
    · rw [length_setLength, if_neg (by simp), e₁, length_setLength, if_pos rfl]
    · rw [Path, next_setLength, e₁, next_setLength, last_append_cons]
      rfl

end

end

end

/-- The address a list of blocks is entered at. -/
def entry : List Block → Nat
  | [] => NULL
  | b :: _ => b.addr

theorem FreeList.next_last_eq_entry (F : FreeList h (pre ++ post)) :
    (h.get (last none pre)).next = entry post := by
  cases post with
  | nil =>
    have hp := F.path
    rw [append_nil] at hp
    exact hp.end_eq
  | cons b post => exact F.next_last

/-! ## `memget` -/

/-- What is left of a block when `n` bytes are cut off its bottom. -/
def above (b : Block) (n : Nat) : List Block :=
  if n < b.len then [⟨b.addr + n, b.len - n⟩] else []

/-- The loop of `memget` behind the blocks `pre`: it takes the first block behind them that fits. -/
theorem memgetLoop_spec (pre : List Block) (F : FreeList h (pre ++ post)) (hB : Bounds h)
    (hn : 8 ∣ n) (h0 : 0 < n) (hfuel : post.length < fuel) :
    (memgetLoop h n fuel (last none pre) (h.get (last none pre)).next = (h, none) ∧
        ∀ b ∈ post, b.len < n) ∨
      ∃ h' mid b post', post = mid ++ b :: post' ∧ (∀ a ∈ mid, a.len < n) ∧ n ≤ b.len ∧
        memgetLoop h n fuel (last none pre) (h.get (last none pre)).next = (h', some b.addr) ∧
        Takes h (pre ++ post) h' (pre ++ (mid ++ (above b n ++ post'))) ⟨b.addr, n⟩ := by
  induction post, fuel, hfuel using fuel_induction generalizing pre with
  | nil fuel =>
    have hend : (h.get (last none pre)).next = NULL := F.next_last_eq_entry
    exact .inl ⟨by rw [memgetLoop, if_pos hend], by simp⟩
  | cons b post fuel hfuel ih =>
    have hlen := F.mem_length
    rw [F.next_last, memgetLoop, if_neg F.addr_pos, hlen]
    by_cases heq : b.len = n
    · refine .inr ⟨_, [], b, post, rfl, by simp, heq.ge, by rw [if_pos heq], ?_⟩
      rw [above, if_neg heq.not_gt, ← heq]
      exact F.takeWhole hB
    · rw [if_neg heq]
      by_cases hlt : n < b.len
      · refine .inr ⟨_, [], b, post, rfl, by simp, hlt.le, by rw [if_pos hlt], ?_⟩
        rw [above, if_pos hlt]
        exact F.takeFront hB hn hlt h0 rfl rfl rfl
      · rw [if_neg hlt]
        have F' : FreeList h ((pre ++ [b]) ++ post) := by rwa [append_assoc]
        have hstep := ih (pre ++ [b]) F'
        simp only [last_append_cons, append_assoc] at hstep
        rcases hstep with ⟨hres, hsmall⟩ | ⟨h', mid, c, post', rfl, hmid, hle, hres, T⟩
        · exact .inl ⟨hres, forall_mem_cons.mpr ⟨by omega, hsmall⟩⟩
        · exact .inr ⟨h', b :: mid, c, post', rfl, forall_mem_cons.mpr ⟨by omega, hmid⟩, hle, hres,
            T⟩

theorem FreeList.length_lt_walkBound (F : FreeList h l) (hB : Bounds h) : l.length < walkBound := by
  have hlen : ∀ k : List Block, (∀ b ∈ k, 0 < b.len) → k.length ≤ (k.map Block.len).sum := by
    intro k hk
    induction k with
    | nil => simp
    | cons b k ih =>
      have hb := hk b mem_cons_self
      have hrest := ih fun c hc => hk c (mem_cons_of_mem _ hc)
      simp only [length_cons, map_cons, sum_cons]
      omega
  exact (hlen l F.separated.pos).trans_lt (F.total_lt hB)

/-- **`memget`** fails and changes nothing when no free block is large enough, and otherwise takes
the rounded size off the bottom of the first block that is. -/
theorem memget_spec (F : FreeList h l) (hB : Bounds h) (h0 : 0 < n) (hn : n ≤ 2 ^ 32 - 8) :
    (h.memget n = (h, none) ∧ ∀ b ∈ l, b.len < roundmb n) ∨
      ∃ h' pre b post, l = pre ++ b :: post ∧ (∀ a ∈ pre, a.len < roundmb n) ∧ roundmb n ≤ b.len ∧
        h.memget n = (h', some b.addr) ∧
        Takes h l h' (pre ++ (above b (roundmb n) ++ post)) ⟨b.addr, roundmb n⟩ := by
  have hne : n ≠ 0 := Nat.pos_iff_ne_zero.mp h0
  rw [memget, if_neg hne]
  exact memgetLoop_spec [] F hB (dvd_roundmb n) (roundmb_pos h0 hn)
    (F.length_lt_walkBound hB)

/-! ## `stkget` -/

/-- What is left of a block when `n` bytes are cut off its top. -/
def below (b : Block) (n : Nat) : List Block :=
  if n < b.len then [⟨b.addr, b.len - n⟩] else []

/-- The scan of `stkget` behind the blocks `pre` finds the last block that fits, if there is one,
with the header before it. -/
theorem stkgetScan_spec (pre : List Block) (F : FreeList h (pre ++ post))
    (hfuel : post.length < fuel) (fits : Option (Option Nat × Nat)) :
    (stkgetScan h n fuel (last none pre) (h.get (last none pre)).next fits = fits ∧
        ∀ b ∈ post, b.len < n) ∨
      ∃ pre' b post', pre ++ post = pre' ++ b :: post' ∧ (∀ a ∈ post', a.len < n) ∧ n ≤ b.len ∧
        stkgetScan h n fuel (last none pre) (h.get (last none pre)).next fits =
          some (last none pre', b.addr) := by
  induction post, fuel, hfuel using fuel_induction generalizing pre fits with
  | nil fuel =>
    have hend : (h.get (last none pre)).next = NULL := F.next_last_eq_entry
    exact .inl ⟨by rw [stkgetScan, if_pos hend], by simp⟩
  | cons b post fuel hfuel ih =>
    have F' : FreeList h ((pre ++ [b]) ++ post) := by rwa [append_assoc]
    have hstep := fun fits => ih (pre ++ [b]) F' fits
    simp only [last_append_cons, append_assoc, singleton_append, last] at hstep
    rw [F.next_last, stkgetScan, if_neg F.addr_pos, F.mem_length]
    by_cases hle : n ≤ b.len
    · rw [if_pos hle]
      rcases hstep (some (last none pre, b.addr)) with ⟨hres, hsmall⟩ | hres
      · exact .inr ⟨pre, b, post, rfl, hsmall, hle, hres⟩
      · exact .inr hres
    · rw [if_neg hle]
      rcases hstep fits with ⟨hres, hsmall⟩ | hres
      · exact .inl ⟨hres, forall_mem_cons.mpr ⟨by omega, hsmall⟩⟩
      · exact .inr hres

/-- **`stkget`** fails and changes nothing when no free block is large enough, and otherwise takes
the rounded size off the top of the last block that is and returns its topmost word. -/
theorem stkget_spec (F : FreeList h l) (hB : Bounds h) (h0 : 0 < n) (hn : n ≤ 2 ^ 32 - 8) :
    (h.stkget n = (h, none) ∧ ∀ b ∈ l, b.len < roundmb n) ∨
      ∃ h' pre b post, l = pre ++ b :: post ∧ (∀ a ∈ post, a.len < roundmb n) ∧ roundmb n ≤ b.len ∧
        h.stkget n = (h', some (b.stop - 4)) ∧
        Takes h l h' (pre ++ (below b (roundmb n) ++ post)) ⟨b.stop - roundmb n, roundmb n⟩ := by
  have hne : n ≠ 0 := Nat.pos_iff_ne_zero.mp h0
  have hdvd := dvd_roundmb n
  have hpos := roundmb_pos h0 hn
  rw [stkget, if_neg hne]
  rcases stkgetScan_spec [] (n := roundmb n) F (F.length_lt_walkBound hB) none with
    ⟨hres, hsmall⟩ | ⟨pre, b, post, rfl, hsmall, hle, hres⟩
  · left
    simp only [last, get_none] at hres
    exact ⟨by simp only [hres], hsmall⟩
  · right
    simp only [last, get_none] at hres
    have hlen := F.mem_length
    have hstop := F.stop_lt hB (b := b) (by simp)
    simp only [hres, Block.stop]
    by_cases heq : roundmb n = b.len
    · have htop : sub32 (add32 b.addr (roundmb n)) 4 = b.addr + b.len - 4 := by
        rw [heq, add32_eq hstop, sub32_eq (by omega) hstop]
      rw [hlen, if_pos heq, htop]
      refine ⟨_, pre, b, post, rfl, hsmall, hle, rfl, ?_⟩
      rw [below, if_neg heq.not_lt, heq, Nat.add_sub_cancel]
      exact F.takeWhole hB
    · have hlt : roundmb n < b.len := lt_of_le_of_ne hle heq
      have hcut : ((h.setLength (some b.addr) (sub32 b.len (roundmb n))).mem b.addr).length =
          b.len - roundmb n := by
        rw [← get_some, length_setLength, if_pos rfl, sub32_eq hle]
      have htop : sub32 (add32 (add32 b.addr (b.len - roundmb n)) (roundmb n)) 4 =
          b.addr + b.len - 4 := by
        rw [add32_eq (a := b.addr), add32_eq, sub32_eq]
        omega
      rw [hlen, if_neg heq, hcut, htop]
      refine ⟨_, pre, b, post, rfl, hsmall, hle, rfl, ?_⟩
      rw [below, if_pos hlt, Nat.add_sub_assoc hle]
      exact F.takeBack hB hdvd hlt (by rw [hlen])

/-! ## Placement -/

/-- `b` is the lowest block of `l` with room for `r` bytes. -/
def Lowest (l : List Block) (r : Nat) (b : Block) : Prop :=
  b ∈ l ∧ r ≤ b.len ∧ ∀ c ∈ l, r ≤ c.len → b.addr ≤ c.addr
deriving Decidable

/-- `b` is the highest block of `l` with room for `r` bytes. -/
def Highest (l : List Block) (r : Nat) (b : Block) : Prop :=
  b ∈ l ∧ r ≤ b.len ∧ ∀ c ∈ l, r ≤ c.len → c.addr ≤ b.addr
deriving Decidable

/-- Behind smaller blocks only, or before smaller blocks only, the lowest or highest block with room
is the one at hand. -/
theorem eq_of_extreme {r : Nat} (hsep : Separated (pre ++ b :: post))
    (hmem : c ∈ pre ++ b :: post) (hfit : r ≤ c.len)
    (hext : (∀ a ∈ pre, a.len < r) ∧ c.addr ≤ b.addr ∨
      (∀ a ∈ post, a.len < r) ∧ b.addr ≤ c.addr) : c = b := by
  obtain ⟨-, -, -, hbelow, habove⟩ := separated_append_cons.mp hsep
  simp only [Block.stop] at hbelow habove
  rcases mem_append.mp hmem with hc | hmem
  · have hlt := hbelow c hc
    rcases hext with ⟨hsmall, -⟩ | ⟨-, hge⟩
    · exact absurd (hsmall c hc) (not_lt.mpr hfit)
    · omega
  · rcases mem_cons.mp hmem with rfl | hc
    · rfl
    · have hgt := habove c hc
      rcases hext with ⟨-, hle⟩ | ⟨hsmall, -⟩
      · omega
      · exact absurd (hsmall c hc) (not_lt.mpr hfit)

/-- **Placement**: `memget` cuts the rounded size off the bottom of the lowest block with room for
it, `stkget` off the top of the highest one; every other block stays, and both fail, changing
nothing, exactly when no block has room. -/
theorem memget_stkget_placement (F : FreeList h l) (hB : Bounds h) (h0 : 0 < n)
    (hn : n ≤ 2 ^ 32 - 8) :
    ((∀ b, Lowest l (roundmb n) b → ∃ h' pre post, l = pre ++ b :: post ∧
          h.memget n = (h', some b.addr) ∧ FreeList h' (pre ++ (above b (roundmb n) ++ post))) ∧
        (h.memget n = (h, none) ↔ ∀ b ∈ l, b.len < roundmb n)) ∧
      (∀ b, Highest l (roundmb n) b → ∃ h' pre post, l = pre ++ b :: post ∧
          h.stkget n = (h', some (b.stop - 4)) ∧
          FreeList h' (pre ++ (below b (roundmb n) ++ post))) ∧
        (h.stkget n = (h, none) ↔ ∀ b ∈ l, b.len < roundmb n) := by
  have hnone : ∀ {b : Block}, b ∈ l → roundmb n ≤ b.len → ¬ ∀ a ∈ l, a.len < roundmb n :=
    fun hb hle hsmall => not_lt.mpr hle (hsmall _ hb)
  constructor
  · rcases memget_spec F hB h0 hn with ⟨hres, hsmall⟩ | ⟨h', pre, b, post, rfl, hpre, hle, hres, T⟩
    · exact ⟨fun b hb => absurd hsmall (hnone hb.1 hb.2.1), iff_of_true hres hsmall⟩
    · refine ⟨fun c ⟨hc, hfit, hleast⟩ => ?_, iff_of_false (by simp [hres]) (hnone (by simp) hle)⟩
      obtain rfl := eq_of_extreme F.separated hc hfit (.inl ⟨hpre, hleast b (by simp) hle⟩)
      exact ⟨h', pre, post, rfl, hres, T.free⟩
  · rcases stkget_spec F hB h0 hn with ⟨hres, hsmall⟩ | ⟨h', pre, b, post, rfl, hpost, hle, hres, T⟩
    · exact ⟨fun b hb => absurd hsmall (hnone hb.1 hb.2.1), iff_of_true hres hsmall⟩
    · refine ⟨fun c ⟨hc, hfit, hmost⟩ => ?_, iff_of_false (by simp [hres]) (hnone (by simp) hle)⟩
      obtain rfl := eq_of_extreme F.separated hc hfit (.inr ⟨hpost, hmost b (by simp) hle⟩)
      exact ⟨h', pre, post, rfl, hres, T.free⟩

/-- A heap with free blocks at 8 and at 32. -/
def twoBlocks : Heap :=
  ⟨8, 48, ⟨8, 32⟩, fun a => if a = 8 then ⟨32, 16⟩ else ⟨0, 16⟩⟩

theorem freeList_twoBlocks : FreeList twoBlocks [⟨8, 16⟩, ⟨32, 16⟩] :=
  ⟨by simp [Path, twoBlocks, NULL], ⟨by simp, by simp⟩, by simp, by simp [twoBlocks], by decide⟩

theorem bounds_twoBlocks : Bounds twoBlocks := ⟨by decide, by decide, by decide, by decide⟩

theorem memget_stkget_placement_twoBlocks :
    ∃ h' pre post, [Block.mk 8 16, ⟨32, 16⟩] = pre ++ ⟨32, 16⟩ :: post ∧
      twoBlocks.stkget 8 = (h', some 44) ∧
      FreeList h' (pre ++ (below ⟨32, 16⟩ (roundmb 8) ++ post)) :=
  (memget_stkget_placement freeList_twoBlocks bounds_twoBlocks (by decide) (by decide)).2.1
    ⟨32, 16⟩ (by decide)

/-! ## `memfree` -/

variable {block : Nat}

/-- The search of `memfree` splits the free list at the address of the block. -/
theorem memfreeScan_spec (pre mid : List Block) (F : FreeList h (pre ++ (mid ++ post)))
    (hmid : ∀ b ∈ mid, b.addr < block) (hpost : ∀ b ∈ post, block ≤ b.addr)
    (hfuel : mid.length < fuel) :
    memfreeScan h block fuel (last none pre) (h.get (last none pre)).next =
      some (last none (pre ++ mid), entry post) := by
  induction mid, fuel, hfuel using fuel_induction generalizing pre with
  | nil fuel =>
    rw [nil_append] at F
    rw [F.next_last_eq_entry, memfreeScan, if_neg, append_nil]
    rintro ⟨hnz, hlt⟩
    cases post with
    | nil => exact hnz rfl
    | cons b post => exact absurd hlt (not_lt.mpr (hpost b mem_cons_self))
  | cons b mid fuel hfuel ih =>
    have F' : FreeList h ((pre ++ [b]) ++ (mid ++ post)) := by
      rw [append_assoc]
      exact F
    rw [F.next_last, memfreeScan, if_pos ⟨F.addr_pos, hmid b mem_cons_self⟩]
    have hstep := ih (pre ++ [b]) F' (fun c hc => hmid c (mem_cons_of_mem _ hc))
    simp only [last_append_cons, last, append_assoc, singleton_append] at hstep ⊢
    exact hstep

/-- The free list in the middle of `memfree`: the block `c` that holds the returned memory is
linked, and may still touch the block after it. -/
structure Pending (h : Heap) (pre : List Block) (c : Block) (post : List Block) : Prop where
  path : Path h none (pre ++ c :: post) NULL
  left : Separated (pre ++ [c])
  right : Separated post
  order : ∀ b ∈ post, c.stop ≤ b.addr
  aligned : ∀ b ∈ pre ++ c :: post, 8 ∣ b.addr ∧ 8 ∣ b.len
  inside : ∀ b ∈ pre ++ c :: post, h.memheap ≤ b.addr ∧ b.stop ≤ h.maxaddr
  total : h.memlist.length = ((pre ++ c :: post).map Block.len).sum

theorem Pending.length_eq (P : Pending h pre c post) : (h.get (some c.addr)).length = c.len :=
  (path_append.mp P.path).2.2.2.1

theorem Pending.addr_ne (P : Pending h pre c post) :
    (∀ a ∈ pre, a.addr ≠ c.addr) ∧ ∀ b ∈ post, b.addr ≠ c.addr := by
  obtain ⟨-, hpos, -, hbelow, -⟩ := separated_append_cons.mp P.left
  constructor
  · intro a ha
    have := hbelow a ha
    simp only [Block.stop] at this
    omega
  · intro b hb
    have := P.order b hb
    simp only [Block.stop] at this
    omega

/-- Nothing touches `c` from above: the list is already in normal form. -/
theorem Pending.free_of_gap (P : Pending h pre c post) (hgap : ∀ b ∈ post, c.stop < b.addr) :
    FreeList h (pre ++ c :: post) :=
  ⟨P.path, P.left.appendGap P.right hgap, P.aligned, P.inside, P.total⟩

/-- `c` merged with the block it touches. -/
theorem Pending.free_of_touch {q : Block} (P : Pending h pre c (q :: post)) (hB : Bounds h)
    (htouch : c.stop = q.addr) (e₁ : h₁ = h.setLength (some c.addr)
      (add32 (h.get (some c.addr)).length (h.mem q.addr).length))
    (e₂ : h₂ = h₁.setNext (some c.addr) (h₁.mem q.addr).next) :
    FreeList h₂ (pre ++ ⟨c.addr, c.len + q.len⟩ :: post) := by
  obtain ⟨hpreb, hpostb⟩ := P.addr_ne
  have hqin := P.inside q (by simp)
  have hcin := P.inside c (by simp)
  have hca := P.aligned c (by simp)
  have hqa := P.aligned q (by simp)
  have hqlen : (h.mem q.addr).length = q.len := (path_append.mp P.path).2.2.2.2.2.2.1
  have hlt := hB.lt
  simp only [Block.stop] at hqin hcin htouch
  rw [P.length_eq, hqlen, add32_eq] at e₁
  have hqnext : (h₁.mem q.addr).next = (h.get (some q.addr)).next := by
    rw [← get_some, e₁, next_setLength]
  have hcnull : c.addr ≠ NULL := (path_append.mp P.path).2.2.1
  have hsep := P.left.appendTouch P.right htouch
  refine ⟨?_, hsep, ?_, ?_, ?_⟩
  · refine Path.replace pre [c, q] [⟨c.addr, c.len + q.len⟩] post P.path hsep.remove
      ⟨hpreb, fun b hb => hpostb b (mem_cons_of_mem _ hb)⟩ ?_ ?_ ?_
    · intro r _ hrc
      rw [e₂, next_setNext, if_neg hrc, e₁, next_setLength]
    · intro r _ hrc
      rw [e₂, length_setNext, e₁, length_setLength, if_neg hrc]
    · have hlast : last none pre ≠ some c.addr :=
        ne_some_of_mem_headers hpreb _ (last_mem_headers none pre)
      refine ⟨?_, hcnull, ?_, ?_⟩
      · rw [e₂, next_setNext, if_neg hlast, e₁, next_setLength]
        exact (path_append.mp P.path).2.1
      · rw [e₂, length_setNext, e₁, length_setLength, if_pos rfl]
      · rw [Path, e₂, next_setNext, if_pos rfl, hqnext, last_append_cons]
        rfl
  · exact forall_mem_replace [c, q] P.aligned ⟨hca.1, Nat.dvd_add hca.2 hqa.2⟩
  · rw [e₂, memheap_setNext, maxaddr_setNext, e₁, memheap_setLength, maxaddr_setLength]
    refine forall_mem_replace [c, q] P.inside ?_
    simp only [Block.stop]
    omega
  · have htotal : h₂.memlist.length = h.memlist.length := by
      rw [← get_none, e₂, length_setNext, e₁, length_setLength, if_neg (by simp), get_none]
    rw [htotal, P.total]
    simp only [map_append, map_cons, sum_append, sum_cons]
    omega

/-- **Coalescing with the next block** brings the list back to its normal form and changes no
cell. -/
theorem coalesceNext_spec (P : Pending h pre c post) (hB : Bounds h) :
    ∃ l', FreeList (h.coalesceNext (some c.addr) (entry post)) l' ∧
      cells l' = cells (pre ++ c :: post) := by
  have hcin := (P.inside c (by simp)).2
  have hpos : 0 < c.len := P.left.pos c (by simp)
  have hlt := hB.lt
  simp only [Block.stop] at hcin
  have hsum : add32 c.addr (h.get (some c.addr)).length = c.addr + c.len := by
    rw [P.length_eq, add32_eq]
  unfold coalesceNext
  rw [Option.getD_some, hsum]
  cases post with
  | nil =>
    rw [if_neg (by simp only [entry, NULL]; omega)]
    exact ⟨_, P.free_of_gap (by simp), rfl⟩
  | cons q post =>
    by_cases htouch : c.addr + c.len = q.addr
    · rw [if_pos (show c.addr + c.len = entry (q :: post) from htouch)]
      refine ⟨_, P.free_of_touch hB htouch rfl rfl, ?_⟩
      simp only [cells_append, cells_cons]
      rw [← cells_merge c q htouch, Set.union_assoc c.cells]
    · rw [if_neg (show c.addr + c.len ≠ entry (q :: post) from htouch)]
      refine ⟨_, P.free_of_gap fun b hb => ?_, rfl⟩
      have hq := P.order q mem_cons_self
      simp only [Block.stop] at hq ⊢
      rcases mem_cons.mp hb with rfl | hb
      · omega
      · have := P.right.gap hb
        simp only [Block.stop] at this
        omega

/-- The block is linked in between its neighbours when it does not touch the one before it. -/
theorem FreeList.pending_of_gap (F : FreeList h (pre ++ post)) (hB : Bounds h)
    (hc : c = ⟨block, n⟩) (h0 : 0 < n) (hdvd : 8 ∣ block ∧ 8 ∣ n)
    (hin : h.memheap ≤ block ∧ block + n ≤ h.maxaddr) (hpre : ∀ b ∈ pre, b.stop < block)
    (hpost : ∀ b ∈ post, block + n ≤ b.addr)
    (hfit : h.memlist.length + n < 2 ^ 32) {h₀ : Heap}
    (e₀ : h₀ = h.setLength none (add32 h.memlist.length n))
    (e₁ : h₁ = h₀.setNext (some block) (entry post)) (e₂ : h₂ = h₁.setLength (some block) n) :
    Pending (h₂.setNext (last none pre) block) pre c post := by
  subst hc
  have hBpos := hB.pos
  have hpreb : ∀ a ∈ pre, a.addr ≠ block := by
    intro a ha
    have := hpre a ha
    simp only [Block.stop] at this
    omega
  have hpostb : ∀ b ∈ post, b.addr ≠ block := by
    intro b hb
    have := hpost b hb
    omega
  obtain ⟨hsepre, hsepost, -⟩ := separated_append.mp F.separated
  have hlast : last none pre ≠ some block :=
    ne_some_of_mem_headers hpreb _ (last_mem_headers none pre)
  refine ⟨?_, hsepre.concat h0 hpre, hsepost, hpost, ?_, ?_, ?_⟩
  · refine Path.replace pre [] [⟨block, n⟩] post F.path F.separated ⟨hpreb, hpostb⟩ ?_ ?_ ?_
    · intro r hne hrb
      rw [next_setNext, if_neg hne, e₂, next_setLength, e₁, next_setNext, if_neg hrb, e₀,
        next_setLength]
    · intro r hr hrb
      rw [length_setNext, e₂, length_setLength, if_neg hrb, e₁, length_setNext, e₀,
        length_setLength, if_neg hr]
    · refine ⟨?_, ?_, ?_, ?_⟩
      · rw [next_setNext, if_pos rfl]
      · simp only [NULL]
        omega
      · rw [length_setNext, e₂, length_setLength, if_pos rfl]
      · rw [Path, next_setNext, if_neg hlast.symm, e₂, next_setLength, e₁, next_setNext, if_pos rfl,
          append_nil, F.next_last_eq_entry]
  · exact forall_mem_replace [] F.aligned hdvd
  · rw [memheap_setNext, maxaddr_setNext, e₂, memheap_setLength, maxaddr_setLength, e₁,
      memheap_setNext, maxaddr_setNext, e₀, memheap_setLength, maxaddr_setLength]
    exact forall_mem_replace [] F.inside hin
  · have htotal : (h₂.setNext (last none pre) block).memlist.length = h.memlist.length + n := by
      rw [← get_none, length_setNext, e₂, length_setLength, if_neg (by simp), e₁,
        length_setNext, e₀,
        length_setLength, if_pos rfl, add32_eq hfit]
    rw [htotal, F.total, sum_append_cons]
    exact Nat.add_comm _ n

/-- The block before is grown when the returned one touches it. -/
theorem FreeList.pending_of_touch {p : Block} (F : FreeList h (pre ++ p :: post))
    (hB : Bounds h) (htouch : p.stop = block) (hdvd : 8 ∣ n) (hin : block + n ≤ h.maxaddr)
    (hpost : ∀ b ∈ post, block + n ≤ b.addr) (hfit : h.memlist.length + n < 2 ^ 32) {h₀ : Heap}
    (e₀ : h₀ = h.setLength none (add32 h.memlist.length n))
    (e₁ : h₁ = h₀.setLength (some p.addr) (add32 (h₀.get (some p.addr)).length n)) :
    Pending h₁ pre ⟨p.addr, p.len + n⟩ post := by
  obtain ⟨hsepre, hpos, hsepost, hbelow, -⟩ := separated_append_cons.mp F.separated
  have hpa := F.aligned p (by simp)
  have hpin := F.inside p (by simp)
  have hlt := hB.lt
  simp only [Block.stop] at htouch hpin
  have hplen : (h₀.get (some p.addr)).length = p.len := by
    rw [e₀, length_setLength, if_neg (by simp), get_some, F.mem_length]
  rw [hplen, add32_eq] at e₁
  refine ⟨?_, ?_, hsepost, ?_, ?_, ?_, ?_⟩
  · refine Path.replace pre [p] [⟨p.addr, p.len + n⟩] post F.path F.separated.remove F.addr_ne
      ?_ ?_ ?_
    · intro r _ _
      rw [e₁, next_setLength, e₀, next_setLength]
    · intro r hr hrp
      rw [e₁, length_setLength, if_neg hrp, e₀, length_setLength, if_neg hr]
    · refine ⟨?_, F.addr_pos, ?_, ?_⟩
      · rw [e₁, next_setLength, e₀, next_setLength, F.next_last]
      · rw [e₁, length_setLength, if_pos rfl]
      · rw [Path, e₁, next_setLength, e₀, next_setLength, last_append_cons]
        rfl
  · have hleft : Separated (pre ++ [p]) := hsepre.concat hpos hbelow
    exact hleft.growLast n
  · intro b hb
    have := hpost b hb
    simp only [Block.stop]
    omega
  · exact forall_mem_replace [p] F.aligned ⟨hpa.1, Nat.dvd_add hpa.2 hdvd⟩
  · rw [e₁, memheap_setLength, maxaddr_setLength, e₀, memheap_setLength, maxaddr_setLength]
    refine forall_mem_replace [p] F.inside ⟨hpin.1, ?_⟩
    simp only [Block.stop]
    omega
  · have htotal : h₁.memlist.length = h.memlist.length + n := by
      rw [← get_none, e₁, length_setLength, if_neg (by simp), e₀, length_setLength, if_pos rfl,
        add32_eq hfit]
    rw [htotal, F.total, sum_append_cons, sum_append_cons]
    exact Nat.add_right_comm _ _ n

theorem FreeList.top_last {p : Block} (F : FreeList h (pre ++ p :: post)) (hB : Bounds h) :
    h.top (last none (pre ++ [p])) = p.stop := by
  have hstop := F.stop_lt hB (b := p) (by simp)
  rw [last_append_cons, last, top, F.mem_length, add32_eq hstop]
  rfl

/-- **Coalescing with the previous block** links the returned memory in. -/
theorem coalescePrev_spec (F : FreeList h (pre ++ post)) (hB : Bounds h) (h0 : 0 < n)
    (hdvd : 8 ∣ block ∧ 8 ∣ n) (hin : h.memheap ≤ block ∧ block + n ≤ h.maxaddr)
    (hpre : ∀ b ∈ pre, b.stop ≤ block) (hpost : ∀ b ∈ post, block + n ≤ b.addr)
    (hfit : h.memlist.length + n < 2 ^ 32) {r : Heap × Option Nat}
    (er : r = (h.setLength none (add32 h.memlist.length n)).coalescePrev block n (last none pre)
      (entry post) (h.top (last none pre))) :
    ∃ pre' c, r.2 = some c.addr ∧ Pending r.1 pre' c post ∧
      cells (pre' ++ c :: post) = cells (pre ++ post) ∪ (Block.mk block n).cells := by
  have hBpos := hB.pos
  -- a block that touches nothing before it is linked behind `pre`
  have hgap : h.top (last none pre) ≠ block → (∀ b ∈ pre, b.stop < block) →
      ∃ pre' c, r.2 = some c.addr ∧ Pending r.1 pre' c post ∧
        cells (pre' ++ c :: post) = cells (pre ++ post) ∪ (Block.mk block n).cells := by
    intro hne hlt
    rw [coalescePrev, if_neg hne] at er
    refine ⟨pre, ⟨block, n⟩, by rw [er], ?_, ?_⟩
    · rw [er]
      exact F.pending_of_gap hB rfl h0 hdvd hin hlt hpost hfit rfl rfl rfl
    · simp only [cells_append, cells_cons]
      rw [Set.union_comm (Block.mk block n).cells, Set.union_assoc]
  rcases pre.eq_nil_or_concat with rfl | ⟨pre, p, rfl⟩
  · refine hgap ?_ (by simp)
    rw [last, top, NULL]
    omega
  · simp only [concat_eq_append, append_assoc, singleton_append] at F hgap er ⊢
    by_cases htouch : p.stop = block
    · rw [F.top_last hB, coalescePrev, if_pos htouch, last_append_cons] at er
      refine ⟨pre, ⟨p.addr, p.len + n⟩, by rw [er]; rfl, ?_, ?_⟩
      · rw [er]
        exact F.pending_of_touch hB htouch hdvd.2 hin.2 hpost hfit rfl rfl
      · simp only [cells_append, cells_cons]
        rw [← cells_merge p ⟨block, n⟩ htouch]
        ext x
        simp only [Set.mem_union]
        tauto
    · refine hgap ?_ ?_
      · rw [F.top_last hB]
        exact htouch
      · intro b hb
        have hp := hpre p (by simp)
        rcases mem_append.mp hb with hb | hb
        · have := (separated_append_cons.mp F.separated).2.2.2.1 b hb
          simp only [Block.stop] at this hp ⊢
          omega
        · rw [mem_singleton.mp hb]
          exact lt_of_le_of_ne hp htouch

/-- A block none of whose cells is free lies between two neighbours of the free list. -/
theorem split_of_disjoint (hsep : Separated l) (h0 : 0 < n)
    (hdisj : ∀ x ∈ (Block.mk block n).cells, x ∉ cells l) :
    ∃ pre post, l = pre ++ post ∧ (∀ b ∈ pre, b.addr < block ∧ b.stop ≤ block) ∧
      ∀ b ∈ post, block ≤ b.addr ∧ block + n ≤ b.addr := by
  have hside : ∀ b ∈ l, b.stop ≤ block ∨ block + n ≤ b.addr := by
    intro b hb
    have hpos := hsep.pos b hb
    by_contra hno
    simp only [Block.stop, not_or, not_le] at hno
    refine hdisj (max b.addr block) ?_ ⟨b, hb, ?_⟩ <;> simp only [Block.mem_cells] <;> omega
  obtain ⟨pre, post, rfl, hpre, hpost⟩ := hsep.exists_split block
  refine ⟨pre, post, rfl, fun b hb => ⟨hpre b hb, ?_⟩, fun b hb => ⟨hpost b hb, ?_⟩⟩
  · have := hpre b hb
    exact (hside b (by simp [hb])).resolve_right (by omega)
  · have hpos := hsep.pos b (by simp [hb])
    have := hpost b hb
    refine (hside b (by simp [hb])).resolve_left ?_
    simp only [Block.stop]
    omega

/-- The free cells and a block outside them leave room in `memlist.length`. -/
theorem FreeList.total_add_lt (F : FreeList h (pre ++ post)) (hB : Bounds h)
    (hin : h.memheap ≤ block ∧ block + n ≤ h.maxaddr) (hpre : ∀ b ∈ pre, b.stop ≤ block)
    (hpost : ∀ b ∈ post, block + n ≤ b.addr) : h.memlist.length + n < 2 ^ 32 := by
  obtain ⟨hsepre, hsepost, -⟩ := separated_append.mp F.separated
  have h₁ := sum_len_le hsepre hin.1 fun b hb => ⟨(F.inside b (by simp [hb])).1, hpre b hb⟩
  have h₂ := sum_len_le hsepost hin.2 fun b hb => ⟨hpost b hb, (F.inside b (by simp [hb])).2⟩
  have hlt := hB.lt
  rw [F.total, map_append, sum_append]
  omega

/-- `memfree` with the neighbours that its search finds. -/
theorem FreeList.memfree_eq (F : FreeList h (pre ++ post)) (hB : Bounds h)
    (hpre : ∀ b ∈ pre, b.addr < block) (hpost : ∀ b ∈ post, block ≤ b.addr)
    (hguard : ¬(n = 0 ∨ block < h.memheap ∨ h.maxaddr < block)) :
    h.memfree block n = h.memfreeAt block (roundmb n) (last none pre) (entry post) := by
  have hwalk : pre.length < walkBound := by
    have := F.length_lt_walkBound hB
    rw [length_append] at this
    omega
  have hscan := memfreeScan_spec [] pre F hpre hpost hwalk
  simp only [last, get_none, nil_append] at hscan
  rw [memfree, if_neg hguard, hscan]

/-- **`memfree`** of a block inside the heap none of whose cells is free returns `OK` and puts
exactly its cells back. -/
theorem memfree_spec (F : FreeList h l) (hB : Bounds h) (h0 : 0 < n)
    (hn : n ≤ 2 ^ 32 - 8) (hdvd : 8 ∣ block)
    (hin : h.memheap ≤ block ∧ block + roundmb n ≤ h.maxaddr)
    (hdisj : ∀ x ∈ (Block.mk block (roundmb n)).cells, x ∉ cells l) :
    ∃ h' l', h.memfree block n = (h', OK) ∧ FreeList h' l' ∧
      cells l' = cells l ∪ (Block.mk block (roundmb n)).cells ∧
      h'.memheap = h.memheap ∧ h'.maxaddr = h.maxaddr := by
  have hpos := roundmb_pos h0 hn
  have hlt := hB.lt
  obtain ⟨pre, post, rfl, hpre, hpost⟩ := split_of_disjoint F.separated hpos hdisj
  rw [F.memfree_eq hB (fun b hb => (hpre b hb).1) (fun b hb => (hpost b hb).1) (by omega)]
  have htop : h.top (last none pre) ≤ block := by
    rcases pre.eq_nil_or_concat with rfl | ⟨pre, p, rfl⟩
    · exact Nat.zero_le _
    · simp only [concat_eq_append, append_assoc, singleton_append] at F hpre ⊢
      rw [F.top_last hB]
      exact (hpre p (by simp)).2
  have hnext : ¬(entry post ≠ NULL ∧ entry post < add32 block (roundmb n)) := by
    rw [add32_eq]
    rintro ⟨hnz, hlt⟩
    cases post with
    | nil => exact hnz rfl
    | cons b post => exact absurd hlt (not_lt.mpr (hpost b mem_cons_self).2)
  have hguard : ¬(block < h.top (last none pre) ∨
      (entry post ≠ NULL ∧ entry post < add32 block (roundmb n))) := by
    rintro (h' | h')
    · exact absurd h' (not_lt.mpr htop)
    · exact hnext h'
  have hfit := F.total_add_lt hB hin (fun b hb => (hpre b hb).2) fun b hb => (hpost b hb).2
  obtain ⟨pre', c, hr, P, hcells⟩ := coalescePrev_spec F hB hpos ⟨hdvd, dvd_roundmb n⟩ hin
    (fun b hb => (hpre b hb).2) (fun b hb => (hpost b hb).2) hfit rfl
  have hB' : Bounds ((h.setLength none (add32 h.memlist.length (roundmb n))).coalescePrev block
      (roundmb n) (last none pre) (entry post) (h.top (last none pre))).1 := by
    refine ⟨?_, ?_, ?_, ?_⟩ <;> simp only [memheap_coalescePrev, maxaddr_coalescePrev,
      memheap_setLength, maxaddr_setLength, hB.pos, hB.low, hB.high, hB.lt]
  obtain ⟨l', F', hcells'⟩ := coalesceNext_spec P hB'
  refine ⟨_, l', ?_, F', hcells'.trans hcells, by simp, by simp⟩
  simp only [memfreeAt]
  rw [if_neg hguard, hr]

end Heap

end Xinu
