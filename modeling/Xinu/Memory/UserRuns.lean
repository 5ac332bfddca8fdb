import Xinu.Memory.UserHeap

/-!
# The blocks of a user thread stay mapped

The blocks a thread holds are disjoint from each other and from its free list, and all of them lie
in regions that are taken. A new region is mapped as a whole. But memory is mapped and unmapped in
pages: `free` unmaps the pages of a block even if a neighbour is on the same page, and a block from
the free list is handed out without being mapped again. Where neither matters, every page of every
block the thread holds is mapped.

## Main results

* `UserState.Sane.malloc`, `UserState.Sane.free`: the calls return, and keep the invariant
* `user_blocks_stay_mapped`: the invariant along every sequence of such calls
-/

namespace Xinu

open List Intervals Tiling PageTable

/-- A block that `malloc` has returned: as its header has it, and what was asked for. -/
structure Held where
  block : Block
  size : Nat
deriving DecidableEq

/-- The pointer to the memory of a block. -/
def Held.pointer (x : Held) : Nat := add32 x.block.addr 8

/-- The memory of a thread, and the blocks it holds. -/
structure UserState where
  mem : UserMem
  live : List Held := []

/-- The calls of a thread. -/
inductive UserCall
  | malloc (nbytes : Nat)
  | free (p : Nat)

namespace UserState

/-- A call, if it returns. -/
def call (s : UserState) (tid : Int) : UserCall → Option UserState
  | .malloc nbytes =>
    (s.mem.malloc tid nbytes).map fun r =>
      if r.2 = NULL then { s with mem := r.1 }
      else ⟨r.1, ⟨⟨sub32 r.2 8, (r.1.heap.mem (sub32 r.2 8)).length⟩, nbytes⟩ :: s.live⟩
  | .free p =>
    (s.mem.free p).map fun m => ⟨m, s.live.filter fun x => x.pointer ≠ p⟩

/-- A thread asks for a 32-bit number of bytes, and frees only what it holds. -/
def Enabled (s : UserState) : UserCall → Prop
  | .malloc nbytes => nbytes < 2 ^ 32
  | .free p => ∃ x ∈ s.live, x.pointer = p

instance (s : UserState) : ∀ c : UserCall, Decidable (s.Enabled c) := by
  rintro ⟨⟩ <;> unfold UserState.Enabled <;> infer_instance

/-- The pages that `safeUnmapRange` goes through for a block. -/
def unmapped (b : Block) : List Nat :=
  (List.range (roundpage b.len / PAGE_SIZE)).map fun k => truncpage b.addr + PAGE_SIZE * k

/-- **What a call has to heed**: a request is not within a page of the end of the address space, and
a block from the free list is mapped; and no other block is on the pages of one that is freed. -/
def Careful (s : UserState) (tid : Int) : UserCall → Prop
  | .malloc nbytes =>
    nbytes ≤ 2 ^ 32 - 4104 ∧
      ∀ curr ∈ (s.mem.heap.memgetLoop (add32 (roundmb nbytes) 8) Heap.walkBound none
          s.mem.heap.memlist.next).2,
        ∀ p ∈ blockPages ⟨curr, add32 (roundmb nbytes) 8⟩, s.mem.table.Mapped tid p
  | .free p =>
    ∀ x ∈ s.live, x.pointer = p → ∀ y ∈ s.live, y.pointer ≠ p →
      ∀ q ∈ unmapped x.block, q ∉ blockPages y.block

instance (s : UserState) (tid : Int) : ∀ c : UserCall, Decidable (s.Careful tid c) := by
  rintro ⟨⟩ <;> unfold UserState.Careful <;> infer_instance

end UserState

/-- A thread with its calls. -/
def userMachine (tid : Int) : Machine UserState UserCall where
  enabled := UserState.Enabled
  next s c := (s.call tid c).getD s

instance (tid : Int) (s : UserState) (c : UserCall) : Decidable ((userMachine tid).enabled s c) :=
  inferInstanceAs (Decidable (s.Enabled c))

/-- A thread that heeds this. -/
def heedingMachine (tid : Int) : Machine UserState UserCall :=
  (userMachine tid).restrict fun s c => s.Careful tid c

instance (tid : Int) (s : UserState) (c : UserCall) :
    Decidable ((heedingMachine tid).enabled s c) :=
  inferInstanceAs (Decidable (s.Enabled c ∧ s.Careful tid c))

/-! ## The invariant -/

namespace UserState

/-- The invariant of a thread in `N` pages from `base` on. -/
structure Sane (s : UserState) (tid : Int) (base N : Nat) (T : List Tile) (l : List Block) :
    Prop where
  situated : Situated base N s.mem.table.address
  tidy : Tidy s.mem.regions base N T
  low : s.mem.heap.memheap = base
  high : s.mem.heap.maxaddr = page base N
  free : s.mem.heap.FreeList l
  /-- the header of a block is its own, and it is large enough -/
  header : ∀ x ∈ s.live, s.mem.heap.mem x.block.addr = ⟨x.block.addr, x.block.len⟩
  size : ∀ x ∈ s.live, x.size + 8 ≤ x.block.len
  aligned : ∀ x ∈ s.live, 8 ∣ x.block.addr ∧ 8 ∣ x.block.len
  inside : ∀ x ∈ s.live, base ≤ x.block.addr ∧ x.block.stop ≤ page base N
  /-- blocks do not overlap each other or the free list -/
  apart : s.live.Pairwise fun x y => ∀ z, ¬ (z ∈ x.block.cells ∧ z ∈ y.block.cells)
  aside : ∀ x ∈ s.live, ∀ z ∈ x.block.cells, z ∉ cells l
  /-- all of them are in regions that are taken -/
  freeOwned : ∀ z ∈ cells l, ¬ Free T ((z - base) / PAGE_SIZE)
  liveOwned : ∀ x ∈ s.live, ∀ z ∈ x.block.cells, ¬ Free T ((z - base) / PAGE_SIZE)
  /-- pages of free regions are not mapped, and pages of blocks are -/
  clear : ∀ j, Free T j → (s.mem.table.pgtbl (PageTable.index (page base j))).entry = 0
  mapped : ∀ x ∈ s.live, ∀ p ∈ blockPages x.block, s.mem.table.Mapped tid p

namespace Sane

variable {s : UserState} {tid : Int} {base N i k n nb : Nat} {T : List Tile} {l : List Block}
  {x : Held}

section

variable (h : s.Sane tid base N T l)
include h

theorem bounds : s.mem.heap.Bounds where
  pos := by
    rw [h.low]
    exact h.situated.base_pos
  low := by
    rw [h.low]
    exact Dvd.dvd.trans (by decide) h.situated.aligned
  high := by
    rw [h.high, page]
    exact Nat.dvd_add (Dvd.dvd.trans (by decide) h.situated.aligned)
      (Dvd.dvd.mul_right (by decide) N)
  lt := by
    rw [h.high]
    exact h.situated.stop_lt

theorem len_pos (hx : x ∈ s.live) : 8 ≤ x.block.len := by
  have := h.size x hx
  omega

theorem pointer_eq (hx : x ∈ s.live) : x.pointer = x.block.addr + 8 := by
  have hlen := h.len_pos hx
  have hin := (h.inside x hx).2
  have hlt := h.situated.stop_lt
  unfold Block.stop at hin
  exact add32_eq

theorem addr_mem (hx : x ∈ s.live) : x.block.addr ∈ x.block.cells := by
  have := h.len_pos hx
  rw [Block.mem_cells]
  omega

theorem apart_of_ne {y : Held} (hx : x ∈ s.live) (hy : y ∈ s.live)
    (hne : x ≠ y) (z : Nat) : ¬ (z ∈ x.block.cells ∧ z ∈ y.block.cells) := by
  have hsymm : Std.Symm fun x y : Held => ∀ z, ¬ (z ∈ x.block.cells ∧ z ∈ y.block.cells) :=
    ⟨fun x y hxy z hz => hxy z hz.symm⟩
  exact h.apart.forall hx hy hne z

theorem page_of_mem {b : Block} (hpos : 0 < b.len)
    (hlo : base ≤ b.addr) (hhi : b.stop ≤ page base N) {p : Nat} (hp : p ∈ blockPages b) :
    ∃ j, j < N ∧ p = page base j := by
  obtain ⟨hdvd, hlt, hgt⟩ := (mem_blockPages hpos).mp hp
  refine h.situated.toRange.exists_page hdvd ?_ (by omega)
  obtain ⟨q, hq⟩ := h.situated.aligned
  unfold PAGE_SIZE at *
  omega

/-- Writing the entries of some pages keeps the others mapped. -/
theorem mapped_of_sets {g : PageTable} {j : Nat}
    {v : Nat → PgtblEnt} (hset : s.mem.table.Sets g base j n v) (hn : j + n ≤ N)
    (hi : i < N) (hout : ¬ (j ≤ i ∧ i < j + n)) (hm : s.mem.table.Mapped tid (page base i)) :
    g.Mapped tid (page base i) := by
  refine (hset.2.2 _ ?_).trans hm
  intro k hlo hhi heq
  have := h.situated.toRange.index_inj hi (by omega) heq
  omega

end

/-! ### Freeing a block -/

theorem call_free (h : s.Sane tid base N T l) (hx : x ∈ s.live)
    (hcare : s.Careful tid (.free x.pointer)) :
    ∃ s' l', s.call tid (.free x.pointer) = some s' ∧ s'.Sane tid base N T l' := by
  obtain ⟨hlo, hhi⟩ := h.inside x hx
  obtain ⟨ha, hl⟩ := h.aligned x hx
  have hlen := h.len_pos hx
  have hlt := h.situated.stop_lt
  have hr := h.situated
  have hstop : x.block.addr + x.block.len ≤ page base N := hhi
  have hptr := h.pointer_eq hx
  have hheader := h.header x hx
  have hback : sub32 x.pointer 8 = x.block.addr := by
    rw [hptr, sub32_eq]
    omega
  obtain ⟨place, l', hscan, F', hcells, hlow', hhigh', hframe⟩ :=
    Heap.link_spec h.free h.bounds (by omega) ⟨ha, hl⟩
      ⟨h.low.symm ▸ hlo, h.high.symm ▸ hhi⟩ (h.aside x hx)
  -- the pages of the block are mapped, so that all of them are unmapped
  generalize hj : (x.block.addr - base) / PAGE_SIZE = j
  generalize hm : (4095 + x.block.len) / PAGE_SIZE = m
  obtain ⟨q, hq⟩ := hr.aligned
  have hNm : j + m ≤ N := by
    unfold page PAGE_SIZE at *
    omega
  have htrunc : truncpage x.block.addr = page base j := by
    unfold truncpage page PAGE_SIZE at *
    omega
  have hround : roundpage x.block.len = PAGE_SIZE * m := by
    unfold page PAGE_SIZE at *
    rw [roundpage, add32_eq]
    unfold PAGE_SIZE
    omega
  have hpages : ∀ k, j ≤ k → k < j + m → page base k ∈ blockPages x.block := by
    intro k hjk hkm
    refine (mem_blockPages (by omega)).mpr ⟨⟨q + k, by rw [page, hq, mul_add]⟩, ?_⟩
    unfold Block.stop page PAGE_SIZE at *
    omega
  obtain ⟨g, hloop, hset⟩ := unmapPages_spec hr hNm
    fun k hjk hkm => h.mapped x hx _ (hpages k hjk hkm)
  have hunmap : (s.mem.table.safeUnmapRange x.block.addr x.block.len).1 = g := by
    rw [safeUnmapRange, range_eq hr _ htrunc hround hNm, hloop]
  have hfreed : s.mem.free x.pointer = some
      ⟨s.mem.regions, (s.mem.heap.memfreeAt x.block.addr x.block.len place.1 place.2).1, g⟩ := by
    unfold UserMem.free
    dsimp only
    rw [hback, hheader]
    rw [if_neg (by simp), hunmap, hscan]
    rfl
  refine ⟨⟨⟨s.mem.regions, (s.mem.heap.memfreeAt x.block.addr x.block.len place.1 place.2).1, g⟩,
    s.live.filter fun y => y.pointer ≠ x.pointer⟩, l', ?_, ?_⟩
  · unfold call
    dsimp only
    rw [hfreed]
    rfl
  -- the blocks that are left
  have hleft : ∀ {y}, y ∈ s.live.filter (fun y => y.pointer ≠ x.pointer) →
      y ∈ s.live ∧ y ≠ x ∧ y.pointer ≠ x.pointer := by
    intro y hy
    rw [mem_filter, decide_eq_true_eq] at hy
    exact ⟨hy.1, fun heq => hy.2 (congrArg Held.pointer heq), hy.2⟩
  exact
    { situated := by
        rw [show g.address = s.mem.table.address from hset.1]
        exact hr
      tidy := h.tidy
      low := hlow'.trans h.low
      high := hhigh'.trans h.high
      free := F'
      header := by
        intro y hy
        obtain ⟨hy, hne, -⟩ := hleft hy
        refine (hframe _ (h.aside y hy _ (h.addr_mem hy)) ?_).trans (h.header y hy)
        intro hmem
        exact h.apart_of_ne hy hx hne _ ⟨h.addr_mem hy, hmem⟩
      size := fun y hy => h.size y (hleft hy).1
      aligned := fun y hy => h.aligned y (hleft hy).1
      inside := fun y hy => h.inside y (hleft hy).1
      apart := h.apart.filter _
      aside := by
        intro y hy z hz hmem
        obtain ⟨hy, hne, -⟩ := hleft hy
        rw [hcells] at hmem
        rcases hmem with hmem | hmem
        · exact h.aside y hy z hz hmem
        · exact h.apart_of_ne hy hx hne z ⟨hz, hmem⟩
      freeOwned := by
        intro z hz
        rw [hcells] at hz
        rcases hz with hz | hz
        · exact h.freeOwned z hz
        · exact h.liveOwned x hx z hz
      liveOwned := fun y hy => h.liveOwned y (hleft hy).1
      clear := by
        intro k hk
        obtain ⟨t, ht, _, hlo', hhi'⟩ := hk
        have hkN := (h.tidy.toLayout.stop_le ht).2
        unfold Tile.stop at hhi'
        by_cases hin : j ≤ k ∧ k < j + m
        · rw [hset.2.1 k hin.1 hin.2]
        · rw [hset.2.2 _ fun k' hl' hh' heq => hin (by
            have := hr.toRange.index_inj (by omega) (by omega) heq
            omega)]
          exact h.clear k ⟨t, ht, ‹_›, hlo', hhi'⟩
      mapped := by
        intro y hy p hp
        obtain ⟨hy, -, hptr'⟩ := hleft hy
        have hlen' := h.len_pos hy
        obtain ⟨hlo', hhi'⟩ := h.inside y hy
        obtain ⟨i, hi, rfl⟩ := h.page_of_mem (by omega) hlo' hhi' hp
        refine h.mapped_of_sets hset hNm hi ?_ (h.mapped y hy _ hp)
        rintro ⟨hji, him⟩
        refine hcare x hx rfl y hy hptr' (page base i) ?_ hp
        unfold unmapped
        rw [htrunc, hround, mem_map]
        refine ⟨i - j, ?_, ?_⟩
        · rw [mem_range, Nat.mul_div_cancel_left _ (by decide)]
          omega
        · unfold page PAGE_SIZE
          omega }

/-! ### Allocating a block -/

/-- What is asked for, with the accounting information in front. -/
theorem request_spec (h0 : 0 < n) (hn : n ≤ 2 ^ 32 - 4104) :
    8 ∣ add32 (roundmb n) 8 ∧ n + 8 ≤ add32 (roundmb n) 8 ∧
      add32 (roundmb n) 8 ≤ 2 ^ 32 - 4096 := by
  have hround : roundmb n = (7 + n) / 8 * 8 := roundmb_eq (by omega)
  rw [hround, add32_eq]
  omega

section

variable (h : s.Sane tid base N T l)
include h

omit h in
theorem page_add (base : Nat) (hik : i + k ≤ N) :
    page base i + PAGE_SIZE * k = page base (i + k) ∧ page base (i + k) ≤ page base N := by
  unfold page PAGE_SIZE
  omega

/-- A block is taken from the free list, whose pages are mapped. -/
theorem takeFree {h' : Heap} {l' : List Block} {a : Nat}
    (ht : Heap.Takes s.mem.heap l h' l' ⟨a, nb⟩)
    (hframe : ∀ x, x ∉ cells l → h'.mem x = s.mem.heap.mem x) (hdvd : 8 ∣ nb) (hsize : n + 8 ≤ nb)
    (hmapped : ∀ p ∈ blockPages ⟨a, nb⟩, s.mem.table.Mapped tid p) :
    Sane ⟨({ s.mem with heap := h' } : UserMem).account a nb, ⟨⟨a, nb⟩, n⟩ :: s.live⟩
      tid base N T l' := by
  have hamem : a ∈ (Block.mk a nb).cells := by
    rw [Block.mem_cells_mk]
    omega
  have hanot : a ∉ cells l' := by
    rw [ht.cells]
    exact fun hmem => hmem.2 hamem
  -- the block was free, so it is not part of one that is held
  have hdisj : ∀ x ∈ s.live, ∀ z ∈ x.block.cells, z ∉ (Block.mk a nb).cells :=
    fun x hx z hz hmem => h.aside x hx z hz (ht.subset hmem)
  have hinside : base ≤ a ∧ a + nb ≤ page base N := by
    have hb : ∀ z ∈ (Block.mk a nb).cells, base ≤ z ∧ z < page base N := by
      intro z hz
      obtain ⟨b, hb, hlo, hhi⟩ := ht.subset hz
      have hin := h.free.inside b hb
      rw [h.low, h.high] at hin
      omega
    have hfirst := hb a hamem
    have hlast := hb (a + nb - 1) (by rw [Block.mem_cells_mk]; omega)
    omega
  exact
    { situated := h.situated
      tidy := h.tidy
      low := ht.memheap.trans h.low
      high := ht.maxaddr.trans h.high
      free := ht.free.update hanot _
      header := by
        intro x hx
        rcases mem_cons.mp hx with rfl | hx
        · exact Function.update_self ..
        · have hne : x.block.addr ≠ a := by
            intro heq
            exact hdisj x hx a (heq ▸ h.addr_mem hx) hamem
          refine (Function.update_of_ne hne _ _).trans ?_
          exact (hframe _ (h.aside x hx _ (h.addr_mem hx))).trans (h.header x hx)
      size := forall_mem_cons.mpr ⟨hsize, h.size⟩
      aligned := forall_mem_cons.mpr ⟨⟨ht.aligned, hdvd⟩, h.aligned⟩
      inside := forall_mem_cons.mpr ⟨hinside, h.inside⟩
      apart := pairwise_cons.mpr
        ⟨fun x hx z hz => hdisj x hx z hz.2 hz.1, h.apart⟩
      aside := by
        refine forall_mem_cons.mpr ⟨?_, ?_⟩
        · intro z hz hmem
          rw [ht.cells] at hmem
          exact hmem.2 hz
        · intro x hx z hz hmem
          rw [ht.cells] at hmem
          exact h.aside x hx z hz hmem.1
      freeOwned := by
        intro z hz
        rw [ht.cells] at hz
        exact h.freeOwned z hz.1
      liveOwned := forall_mem_cons.mpr
        ⟨fun z hz => h.freeOwned z (ht.subset hz), h.liveOwned⟩
      clear := h.clear
      mapped := forall_mem_cons.mpr ⟨hmapped, h.mapped⟩ }

/-- What is left of a new region goes to the free list. Its page is not mapped yet. -/
theorem leftover (regions : Regions) (hik : i + k ≤ N)
    (hk : PAGE_SIZE * k < nb + PAGE_SIZE) (hnb : nb ≤ PAGE_SIZE * k) (hpos : 0 < nb) (hdvd : 8 ∣ nb)
    (hfree : ∀ j, i ≤ j → j < i + k → Free T j) :
    ∃ h' l', (if PAGE_SIZE * k > nb then
        (({ s.mem with regions := regions } : UserMem).account (add32 (page base i) nb)
          (sub32 (PAGE_SIZE * k) nb)).free (add32 (add32 (page base i) nb) 8)
        else some { s.mem with regions := regions }) =
          some { s.mem with regions := regions, heap := h' } ∧
      h'.FreeList l' ∧ h'.memheap = base ∧ h'.maxaddr = page base N ∧
      (∀ z ∈ cells l', z ∈ cells l ∨ (page base i + nb ≤ z ∧ z < page base (i + k))) ∧
      ∀ x, x ∉ cells l → ¬ (page base i + nb ≤ x ∧ x < page base (i + k)) →
        h'.mem x = s.mem.heap.mem x := by
  have hr := h.situated
  have hlt := hr.stop_lt
  obtain ⟨q, hq⟩ := hr.aligned
  obtain ⟨hend, hle⟩ := page_add base hik
  by_cases hgt : PAGE_SIZE * k > nb
  · -- the rest of the last page
    have hleft : add32 (page base i) nb = page base i + nb := add32_eq (by omega)
    have hrest : sub32 (PAGE_SIZE * k) nb = PAGE_SIZE * k - nb := sub32_eq hnb (by omega)
    have h8 : PAGE_SIZE * k - nb ≥ 8 := by
      unfold PAGE_SIZE at *
      omega
    have hadd : add32 (page base i + nb) 8 = page base i + nb + 8 := add32_eq (by omega)
    have hback : sub32 (page base i + nb + 8) 8 = page base i + nb := by
      rw [sub32_eq]
      omega
    have hcell : ∀ z, page base i + nb ≤ z → z < page base (i + k) → z ∉ cells l := by
      intro z hlo hhi hmem
      refine h.freeOwned z hmem (hfree _ ?_ ?_)
      · unfold page PAGE_SIZE at *
        omega
      · unfold page PAGE_SIZE at *
        omega
    -- the page is not mapped, so nothing is unmapped
    have htrunc : truncpage (page base i + nb) = page base (i + k - 1) := by
      unfold truncpage page PAGE_SIZE at *
      omega
    have hround : roundpage (PAGE_SIZE * k - nb) = PAGE_SIZE * 1 := by
      unfold PAGE_SIZE at *
      rw [roundpage, add32_eq]
      unfold PAGE_SIZE
      omega
    have hk0 : 0 < k := by
      unfold PAGE_SIZE at *
      omega
    have htable : (s.mem.table.safeUnmapRange (page base i + nb) (PAGE_SIZE * k - nb)).1 =
        s.mem.table := by
      rw [safeUnmapRange, range_eq hr _ htrunc hround (by omega)]
      exact unmapPages_clear hr (h.clear _ (hfree _ (by omega) (by omega)))
    -- the rest is linked in
    generalize hb : (⟨page base i + nb, PAGE_SIZE * k - nb⟩ : Block) = b
    have hbaddr : b.addr = page base i + nb := by rw [← hb]
    have hblen : b.len = PAGE_SIZE * k - nb := by rw [← hb]
    have hbcells : ∀ z, z ∈ b.cells ↔ page base i + nb ≤ z ∧ z < page base (i + k) := by
      intro z
      rw [Block.mem_cells, hbaddr, hblen]
      omega
    have F₁ := h.free.update (hcell _ le_rfl (by omega))
      ⟨page base i + nb, PAGE_SIZE * k - nb⟩
    generalize hh₁ : ({ s.mem.heap with
      mem := Function.update s.mem.heap.mem (page base i + nb)
        ⟨page base i + nb, PAGE_SIZE * k - nb⟩ } : Heap) = h₁ at F₁
    have hlow₁ : h₁.memheap = base := by rw [← hh₁]; exact h.low
    have hhigh₁ : h₁.maxaddr = page base N := by rw [← hh₁]; exact h.high
    have hB := h.bounds
    have hB₁ : h₁.Bounds := by
      rw [← hh₁]
      exact ⟨hB.pos, hB.low, hB.high, hB.lt⟩
    have hmem₁ : h₁.mem (page base i + nb) = ⟨page base i + nb, PAGE_SIZE * k - nb⟩ := by
      rw [← hh₁]
      exact Function.update_self ..
    have hother₁ : ∀ x, x ≠ page base i + nb → h₁.mem x = s.mem.heap.mem x := by
      intro x hx
      rw [← hh₁]
      exact Function.update_of_ne hx _ _
    have hbase8 : 8 ∣ base := Dvd.dvd.trans (by decide) hr.aligned
    obtain ⟨place, l', hscan, F', hcells, hlow', hhigh', hframe⟩ :=
      Heap.link_spec F₁ hB₁ (by omega)
        (by
          rw [hbaddr, hblen]
          unfold page PAGE_SIZE
          omega)
        (by
          rw [hlow₁, hhigh₁, Block.stop, hbaddr, hblen]
          have : base ≤ page base i := Nat.le_add_right ..
          omega)
        fun z hz => hcell z ((hbcells z).mp hz).1 ((hbcells z).mp hz).2
    refine ⟨_, l', ?_, F', hlow'.trans hlow₁, hhigh'.trans hhigh₁, ?_, ?_⟩
    · rw [if_pos hgt, hleft, hrest, hadd]
      have hacc : ({ s.mem with regions := regions } : UserMem).account (page base i + nb)
          (PAGE_SIZE * k - nb) = ⟨regions, h₁, s.mem.table⟩ := by
        rw [← hh₁]
        rfl
      rw [hacc]
      unfold UserMem.free
      dsimp only
      rw [hback, hmem₁]
      rw [if_neg (by simp), htable, ← hbaddr, ← hblen, hscan]
      rfl
    · intro z hz
      rw [hcells] at hz
      exact hz.imp id (hbcells z).mp
    · intro x hx hxb
      rw [hframe x hx fun hmem => hxb ((hbcells x).mp hmem)]
      refine hother₁ x ?_
      rintro rfl
      exact hxb ⟨le_rfl, by omega⟩
  · exact ⟨s.mem.heap, l, by rw [if_neg hgt], h.free, h.low, h.high, fun z hz => .inl hz,
      fun x _ _ => rfl⟩

/-- A block at the start of a new region, all of which is mapped. -/
theorem takeRegion {regions : Regions} {T' : List Tile}
    (htidy : Tidy regions base N T') (hik : i + k ≤ N)
    (hround : roundpage nb = PAGE_SIZE * k) (hnb : nb ≤ 2 ^ 32 - 4096) (hdvd : 8 ∣ nb)
    (hsize : n + 8 ≤ nb) (hfree : ∀ j, i ≤ j → j < i + k → Free T j)
    (hT : ∀ j, Free T' j ↔ Free T j ∧ ¬ (i ≤ j ∧ j < i + k)) :
    ∃ m l', ({ s.mem with regions := regions } : UserMem).fromRegion tid nb (page base i)
        (PAGE_SIZE * k) = some (m, page base i + 8) ∧
      m.heap.mem (page base i) = ⟨page base i, nb⟩ ∧
      Sane ⟨m, ⟨⟨page base i, nb⟩, n⟩ :: s.live⟩ tid base N T' l' := by
  have hr := h.situated
  have hlt := hr.stop_lt
  obtain ⟨q, hq⟩ := hr.aligned
  have hk : PAGE_SIZE * k < nb + PAGE_SIZE ∧ nb ≤ PAGE_SIZE * k := by
    rw [← hround, roundpage, add32_eq]
    unfold PAGE_SIZE
    omega
  obtain ⟨h', l', hrest, F', hlow', hhigh', hcells, hframe⟩ :=
    h.leftover regions hik hk.1 hk.2 (by omega) hdvd hfree
  obtain ⟨hend, hle⟩ := page_add base hik
  -- the pages of the region were free
  have hnew : ∀ z, page base i ≤ z → z < page base (i + k) →
      i ≤ (z - base) / PAGE_SIZE ∧ (z - base) / PAGE_SIZE < i + k := by
    intro z hlo hhi
    unfold page PAGE_SIZE at *
    omega
  have hnotl : ∀ z, page base i ≤ z → z < page base (i + k) → z ∉ cells l := by
    intro z hlo hhi hmem
    obtain ⟨h₁, h₂⟩ := hnew z hlo hhi
    exact h.freeOwned z hmem (hfree _ h₁ h₂)
  have hnotlive : ∀ x ∈ s.live, ∀ z ∈ x.block.cells,
      ¬ (page base i ≤ z ∧ z < page base (i + k)) := by
    rintro x hx z hz ⟨hlo, hhi⟩
    obtain ⟨h₁, h₂⟩ := hnew z hlo hhi
    exact h.liveOwned x hx z hz (hfree _ h₁ h₂)
  have hanot : page base i ∉ cells l' := by
    intro hmem
    rcases hcells _ hmem with hmem | hmem
    · exact hnotl _ le_rfl (by omega) hmem
    · omega
  -- all of them get mapped
  have htrunc : truncpage (page base i) = page base i := by
    unfold truncpage page PAGE_SIZE at *
    omega
  obtain ⟨g, hloop, hset⟩ := mapPages_spec tid hr hik
    fun j hlo hhi => h.clear j (hfree j hlo hhi)
  have hmap : (s.mem.table.safeMapRange tid (page base i) nb ENT_USER).1 = g := by
    rw [safeMapRange, range_eq hr _ htrunc hround hik, hloop]
  refine ⟨{ regions := regions
            heap := { h' with mem := Function.update h'.mem (page base i) ⟨page base i, nb⟩ }
            table := g }, l', ?_, Function.update_self .., ?_⟩
  · unfold UserMem.fromRegion
    dsimp only
    rw [hrest, Option.map_some, add32_eq]
    unfold UserMem.account
    rw [hmap]
  · exact
      { situated := by
          rw [show g.address = s.mem.table.address from hset.1]
          exact hr
        tidy := htidy
        low := hlow'
        high := hhigh'
        free := F'.update hanot _
        header := by
          intro x hx
          rcases mem_cons.mp hx with rfl | hx
          · exact Function.update_self ..
          · have hout := hnotlive x hx _ (h.addr_mem hx)
            have hne : x.block.addr ≠ page base i := by omega
            refine (Function.update_of_ne hne _ _).trans ?_
            exact (hframe _ (h.aside x hx _ (h.addr_mem hx)) (by omega)).trans (h.header x hx)
        size := forall_mem_cons.mpr ⟨hsize, h.size⟩
        aligned := by
          have hbase8 : 8 ∣ base := Dvd.dvd.trans (by decide) hr.aligned
          refine forall_mem_cons.mpr ⟨⟨?_, hdvd⟩, h.aligned⟩
          dsimp only
          unfold page PAGE_SIZE
          omega
        inside := by
          refine forall_mem_cons.mpr ⟨⟨Nat.le_add_right .., ?_⟩, h.inside⟩
          rw [Block.stop_mk]
          omega
        apart := by
          refine pairwise_cons.mpr ⟨?_, h.apart⟩
          rintro x hx z ⟨hz, hzx⟩
          rw [Block.mem_cells_mk] at hz
          exact hnotlive x hx z hzx (by omega)
        aside := by
          refine forall_mem_cons.mpr ⟨?_, ?_⟩
          · intro z hz hmem
            rw [Block.mem_cells_mk] at hz
            rcases hcells z hmem with hmem | hmem
            · exact hnotl z (by omega) (by omega) hmem
            · omega
          · intro x hx z hz hmem
            rcases hcells z hmem with hmem | hmem
            · exact h.aside x hx z hz hmem
            · exact hnotlive x hx z hz (by omega)
        freeOwned := by
          intro z hz hF
          obtain ⟨hF, hout⟩ := (hT _).mp hF
          rcases hcells z hz with hz | hz
          · exact h.freeOwned z hz hF
          · exact hout (hnew z (by omega) (by omega))
        liveOwned := by
          refine forall_mem_cons.mpr ⟨?_, ?_⟩
          · intro z hz hF
            rw [Block.mem_cells_mk] at hz
            exact ((hT _).mp hF).2 (hnew z (by omega) (by omega))
          · intro x hx z hz hF
            exact h.liveOwned x hx z hz ((hT _).mp hF).1
        clear := by
          intro j hF
          obtain ⟨hF, hout⟩ := (hT j).mp hF
          obtain ⟨t, ht, -, -, hhi'⟩ := id hF
          have hjN := (h.tidy.toLayout.stop_le ht).2
          unfold Tile.stop at hhi'
          rw [hset.2.2 _ fun j' hl' hh' heq => hout (by
            have := hr.toRange.index_inj (by omega) (by omega) heq
            omega)]
          exact h.clear j hF
        mapped := by
          refine forall_mem_cons.mpr ⟨?_, ?_⟩
          · intro p hp
            obtain ⟨hdvd', hhi', hlo'⟩ := (mem_blockPages (b := ⟨page base i, nb⟩)
              (by dsimp only; omega)).mp hp
            rw [Block.stop_mk] at hhi'
            dsimp only at hlo'
            obtain ⟨j, hj, rfl⟩ := hr.toRange.exists_page hdvd'
              (by
                unfold page PAGE_SIZE at *
                omega) (by omega)
            refine hset.2.1 j ?_ ?_ <;> unfold page PAGE_SIZE at * <;> omega
          · intro x hx p hp
            have hlen' := h.len_pos hx
            obtain ⟨hlo', hhi'⟩ := h.inside x hx
            obtain ⟨j, hj, rfl⟩ := h.page_of_mem (by omega) hlo' hhi' hp
            refine h.mapped_of_sets hset hik hj ?_ (h.mapped x hx _ hp)
            -- a page of a block is not one of the region, since it has a cell of the block
            rintro ⟨hij, hjk⟩
            obtain ⟨-, hlt', hgt'⟩ := (mem_blockPages (by omega)).mp hp
            have hz : max (page base j) x.block.addr ∈ x.block.cells := by
              unfold Block.stop at hlt'
              rw [Block.mem_cells]
              omega
            refine hnotlive x hx _ hz ?_
            unfold page PAGE_SIZE at *
            omega }

/-- **`malloc` returns**, and keeps the invariant. -/
theorem call_malloc (hcare : s.Careful tid (.malloc n)) :
    ∃ s' T' l', s.call tid (.malloc n) = some s' ∧ s'.Sane tid base N T' l' := by
  obtain ⟨hn, hpages⟩ := hcare
  unfold call
  dsimp only
  unfold UserMem.malloc
  by_cases h0 : n = 0
  · rw [if_pos h0]
    exact ⟨s, T, l, rfl, h⟩
  rw [if_neg h0]
  dsimp only
  obtain ⟨hdvd, hsize, hmax⟩ := request_spec (Nat.pos_of_ne_zero h0) hn
  generalize hnb : add32 (roundmb n) 8 = nb at hdvd hsize hmax hpages
  have hr := h.situated
  have hlt := hr.stop_lt
  rcases Heap.memgetLoop_spec [] h.free h.bounds hdvd (by omega)
      (h.free.length_lt_walkBound h.bounds) with
    ⟨hnone, -⟩ | ⟨h', _, b, _, -, -, -, hsome, ht⟩
  · -- no free block is large enough
    have hnone' : s.mem.heap.memgetLoop nb Heap.walkBound none s.mem.heap.memlist.next =
      (s.mem.heap, none) := hnone
    rw [hnone']
    have hround : roundpage nb = PAGE_SIZE * ((4095 + nb) / 4096) := by
      rw [roundpage, add32_eq]
      unfold PAGE_SIZE
      omega
    obtain ⟨⟨regions, entry⟩, T', halloc, htidy, hres⟩ :=
      h.tidy.memRegionAlloc hr.toRange tid (by omega) hround
    rw [halloc]
    rcases hres with ⟨rfl, rfl⟩ | ⟨i, rfl, hstart, hlen, hik, hfree, hT⟩
    · refine ⟨{ s with mem := { s.mem with regions := regions } }, T', l, rfl, ?_⟩
      exact { h with tidy := htidy }
    · dsimp only at hstart hlen ⊢
      rw [hstart, hlen]
      obtain ⟨m, l', hm, hhead, h'⟩ :=
        h.takeRegion htidy hik hround hmax hdvd hsize hfree hT
      have hin := (h'.inside _ mem_cons_self).2
      rw [Block.stop_mk] at hin
      have hback : sub32 (page base i + 8) 8 = page base i := by
        rw [sub32_eq]
        omega
      refine ⟨_, T', l', ?_, h'⟩
      rw [hm, Option.map_some]
      rw [if_neg (by unfold NULL; omega), hback, hhead]
  · generalize b.addr = a at hsome ht
    have hsome' : s.mem.heap.memgetLoop nb Heap.walkBound none s.mem.heap.memlist.next =
      (h', some a) := hsome
    have hframe : ∀ x, x ∉ cells l → h'.mem x = s.mem.heap.mem x := by
      intro x hx
      have := Heap.memgetLoop_frame (n := nb) Heap.walkBound [] h.free h.bounds hx
      have hfst : s.mem.heap.memgetLoop nb Heap.walkBound (Heap.last none [])
        (s.mem.heap.get (Heap.last none [])).next = (h', some a) := hsome
      rwa [hfst] at this
    rw [hsome'] at hpages ⊢
    have h' := h.takeFree ht hframe hdvd hsize (hpages a rfl)
    have hin := (h'.inside _ mem_cons_self).2
    rw [Block.stop_mk] at hin
    have hadd : add32 a 8 = a + 8 := add32_eq (by omega)
    have hback : sub32 (a + 8) 8 = a := by
      rw [sub32_eq]
      omega
    have hhead := h'.header _ mem_cons_self
    refine ⟨_, T, _, ?_, h'⟩
    rw [Option.map_some, hadd]
    rw [if_neg (by unfold NULL; omega), hback, hhead]

/-- **The step lemma.** -/
theorem step {c : UserCall} (hc : s.Enabled c) (hcare : s.Careful tid c) :
    ∃ s' T' l', s.call tid c = some s' ∧ s'.Sane tid base N T' l' := by
  cases c with
  | malloc n => exact h.call_malloc hcare
  | free p =>
    obtain ⟨x, hx, rfl⟩ := hc
    obtain ⟨s', l', hs', h'⟩ := h.call_free hx hcare
    exact ⟨s', T, l', hs', h'⟩

end

end Sane

/-! ## Runs -/

/-- A thread that holds nothing, over any regions; no page of a free one is mapped. -/
structure Fresh (s : UserState) (base N : Nat) (T : List Tile) : Prop where
  situated : Situated base N s.mem.table.address
  tidy : Tidy s.mem.regions base N T
  low : s.mem.heap.memheap = base
  high : s.mem.heap.maxaddr = page base N
  memlist : s.mem.heap.memlist = ⟨NULL, 0⟩
  live : s.live = []
  clear : ∀ j, Free T j → (s.mem.table.pgtbl (PageTable.index (page base j))).entry = 0

theorem Fresh.sane {s : UserState} {base N : Nat} {T : List Tile} (h : s.Fresh base N T)
    (tid : Int) : s.Sane tid base N T [] := by
  have hlive : ∀ {P : Held → Prop}, ∀ x ∈ s.live, P x := by
    intro P x hx
    rw [h.live] at hx
    simp at hx
  exact
    { situated := h.situated
      tidy := h.tidy
      low := h.low
      high := h.high
      free := ⟨congrArg MemBlock.next h.memlist, separated_nil, by simp, by simp,
        congrArg MemBlock.length h.memlist⟩
      header := hlive
      size := hlive
      aligned := hlive
      inside := hlive
      apart := by
        rw [h.live]
        exact List.Pairwise.nil
      aside := hlive
      freeOwned := by simp
      liveOwned := hlive
      clear := h.clear
      mapped := hlive }

end UserState

/-- **The blocks of a thread are disjoint, large enough and mapped** after every sequence of calls,
if no request is within a page of the end of the address space, no block comes from unmapped pages
of the free list, and no block is freed while another is on its pages; and each such call
returns. -/
theorem user_blocks_stay_mapped {tid : Int} {base N : Nat} {T : List Tile} {s₀ s : UserState}
    (hfresh : s₀.Fresh base N T) {calls : List UserCall}
    (r : (heedingMachine tid).Run s₀ calls s) :
    (s.live.Pairwise fun x y => ∀ z, ¬ (z ∈ x.block.cells ∧ z ∈ y.block.cells)) ∧
      (∀ x ∈ s.live, x.size + 8 ≤ x.block.len) ∧
      (∀ x ∈ s.live, ∀ p ∈ blockPages x.block, s.mem.table.Mapped tid p) ∧
      ∀ c, s.Enabled c → s.Careful tid c → (s.call tid c).isSome := by
  have hinv : ∃ T l, s.Sane tid base N T l := by
    refine r.invariant (I := fun s => ∃ T l, s.Sane tid base N T l) ?_ ⟨T, [], hfresh.sane tid⟩
    rintro s c ⟨T, l, h⟩ ⟨hc, hcare⟩
    obtain ⟨s', T', l', hs', h'⟩ := h.step hc hcare
    refine ⟨T', l', ?_⟩
    change ((s.call tid c).getD s).Sane tid base N T' l'
    rw [hs']
    exact h'
  obtain ⟨T, l, h⟩ := hinv
  refine ⟨h.apart, h.size, h.mapped, ?_⟩
  intro c hc hcare
  obtain ⟨s', _, _, hs', _⟩ := h.step hc hcare
  rw [hs']
  rfl

namespace UserState

/-- Eight pages of memory, and a page table with nothing in it. -/
def eightPages : UserState where
  mem :=
    { regions := Regions.memRegionInit 0x80100000 0x8000
      heap := ⟨0x80100000, 0x80108000, ⟨NULL, 0⟩, fun _ => ⟨0, 0⟩⟩
      table := ⟨0x80001000, fun _ => {}⟩ }

theorem fresh_eightPages : eightPages.Fresh 0x80100000 8 [⟨0, 8, true⟩] where
  situated := ⟨⟨by decide, by decide, by decide, by decide⟩, by decide, by decide, by decide⟩
  tidy := tidy_init ⟨by decide, by decide, by decide, by decide⟩ rfl
  low := rfl
  high := rfl
  memlist := rfl
  live := rfl
  clear := fun _ _ => rfl

/-- Two blocks on one page, and a block of a whole page that is freed. -/
def wholePageFreed : List UserCall := [.malloc 100, .malloc 200, .malloc 4088, .free 0x80101008]

/-- Two blocks on one page, the first of which is freed. -/
def neighbourFreed : List UserCall := [.malloc 100, .malloc 200, .free 0x80100008]

end UserState

theorem user_blocks_stay_mapped_whole_page :
    ∃ s, (heedingMachine 1).Run UserState.eightPages UserState.wholePageFreed s ∧
      s.live.map Held.pointer = [0x80100078, 0x80100008] ∧
      ∀ x ∈ s.live, ∀ p ∈ blockPages x.block, s.mem.table.Mapped 1 p := by
  have hrun : (heedingMachine 1).Run UserState.eightPages UserState.wholePageFreed
      ((heedingMachine 1).after UserState.eightPages UserState.wholePageFreed) :=
    Machine.run_after
  refine ⟨_, hrun, ?_, (user_blocks_stay_mapped UserState.fresh_eightPages hrun).2.2.1⟩
  decide

/-- **A block whose page is not mapped**: when the first block is freed, the page of the second one
is unmapped. -/
theorem free_unmaps_neighbour :
    ∃ s, (userMachine 1).Run UserState.eightPages UserState.neighbourFreed s ∧
      ∃ x ∈ s.live, ∃ p ∈ blockPages x.block, ¬ s.mem.table.Mapped 1 p := by
  refine ⟨_, Machine.run_after, ?_⟩
  decide

end Xinu
