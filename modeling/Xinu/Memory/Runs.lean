import Mathlib.Data.Set.BooleanAlgebra
import Mathlib.Order.CompletePartialOrder
import Xinu.Memory.Allocators

/-!
# Runs of the allocators

The heap together with the blocks handed out and not given back is a machine: a step asks one of
the two allocators for a block, gives back a live block with its own size, or lets the owners of
live blocks write into them. Along every run from `sysinit`'s single free block, the free list
stays in its normal form and the free and the live blocks partition the heap.

## Main results

* `Lease.free_spec`: giving back a live block returns `OK` and puts exactly its cells back
* `heap_partition_of_run`: the partition holds along every run from `sysinit`'s state
-/

namespace Xinu

open List hiding Disjoint
open Intervals

variable {h h' : Heap} {l : List Block} {maxaddr memheap n : Nat}

/-- Which allocator handed a block out. -/
inductive Source
  | memget
  | stkget
deriving DecidableEq, Repr

/-- A block handed out: the pointer its allocator returned and the size it was asked for. -/
structure Lease where
  source : Source
  ptr : Nat
  size : Nat
deriving DecidableEq, Repr

/-- The call of an allocator. -/
def Source.get (src : Source) (h : Heap) (n : Nat) : Heap × Option Nat :=
  match src with
  | .memget => h.memget n
  | .stkget => h.stkget n

namespace Lease

/-- The memory of a lease: `memget` returns its lowest address, `stkget` its topmost word. -/
def block (x : Lease) : Block :=
  match x.source with
  | .memget => ⟨x.ptr, roundmb x.size⟩
  | .stkget => ⟨x.ptr + 4 - roundmb x.size, roundmb x.size⟩

/-- Giving a lease back with its own size. -/
def free (x : Lease) (h : Heap) : Heap × Int :=
  match x.source with
  | .memget => h.memfree x.ptr x.size
  | .stkget => h.stkfree x.ptr x.size

/-- A lease of a size that rounds without wrapping, of aligned memory inside the heap. -/
structure Valid (x : Lease) (h : Heap) : Prop where
  pos : 0 < x.size
  size : x.size ≤ 2 ^ 32 - 8
  aligned : 8 ∣ x.block.addr
  low : h.memheap ≤ x.block.addr
  high : x.block.stop ≤ h.maxaddr
  ptr : x.source = .stkget → x.block.addr + roundmb x.size = x.ptr + 4

theorem block_len (x : Lease) : x.block.len = roundmb x.size := by
  unfold block
  split <;> rfl

end Lease

namespace Heap

/-- The free blocks `l` of the heap and the blocks `live` are all disjoint, and together they cover
`whole`. -/
structure Partition (h : Heap) (l live : List Block) (whole : Set Nat) : Prop where
  free : FreeList h l
  disjoint : live.Pairwise fun a b => Disjoint a.cells b.cells
  apart : ∀ b ∈ live, Disjoint b.cells (cells l)
  cover : cells l ∪ cells live = whole

namespace Partition

variable {l' live live' : List Block} {whole : Set Nat} {c : Block}

theorem perm (P : Partition h l live whole) (hp : live.Perm live') : Partition h l live' whole :=
  ⟨P.free, (hp.pairwise_iff fun hab => hab.symm).mp P.disjoint,
    fun b hb => P.apart b (hp.mem_iff.mpr hb), by rw [← cells_perm hp, P.cover]⟩

theorem take (P : Partition h l live whole) (T : Takes h l h' l' c) :
    Partition h' l' (c :: live) whole := by
  refine ⟨T.free, pairwise_cons.mpr ⟨fun b hb => ?_, P.disjoint⟩, fun b hb => ?_, ?_⟩
  · exact ((P.apart b hb).mono_right T.subset).symm
  · rw [T.cells]
    rcases mem_cons.mp hb with rfl | hb
    · exact Set.disjoint_left.mpr fun x hx hd => hd.2 hx
    · exact (P.apart b hb).mono_right fun x hx => hx.1
  · rw [← P.cover, cells_cons, T.cells]
    ext x
    simp only [Set.mem_union, Set.mem_sdiff]
    have hsub := @T.subset x
    tauto

/-- A live block put back into the free list is free. -/
theorem give (P : Partition h l (c :: live) whole) (F' : FreeList h' l')
    (hcells : cells l' = cells l ∪ c.cells) : Partition h' l' live whole := by
  obtain ⟨hc, hlive⟩ := pairwise_cons.mp P.disjoint
  refine ⟨F', hlive, fun b hb => ?_, ?_⟩
  · rw [hcells]
    exact Set.disjoint_union_right.mpr ⟨P.apart b (mem_cons_of_mem _ hb), (hc b hb).symm⟩
  · rw [← P.cover, cells_cons, hcells, Set.union_assoc]

end Partition

/-- The addresses of the heap. -/
def range (h : Heap) : Set Nat := {x | h.memheap ≤ x ∧ x < h.maxaddr}

end Heap

/-- The heap and the blocks handed out and not given back. -/
structure Ledger where
  heap : Heap
  live : List Lease

/-- What a client of the allocators may do. -/
inductive HeapOp
  | get (src : Source) (n : Nat)
  | free (x : Lease)
  | write (mem : Nat → MemBlock)

namespace Ledger

/-- A request is for a size that rounds without wrapping, a block given back is live, and memory
changes only inside live blocks. -/
def Enabled (L : Ledger) : HeapOp → Prop
  | .get _ n => 0 < n ∧ n ≤ 2 ^ 32 - 8
  | .free x => x ∈ L.live
  | .write mem => ∀ a, a ∉ cells (L.live.map Lease.block) → mem a = L.heap.mem a

/-- The heap and the live blocks after one call. -/
def next (L : Ledger) : HeapOp → Ledger
  | .get src n =>
    match src.get L.heap n with
    | (h, some p) => ⟨h, ⟨src, p, n⟩ :: L.live⟩
    | (h, none) => ⟨h, L.live⟩
  | .free x =>
    let r := x.free L.heap
    ⟨r.1, if r.2 = OK then L.live.erase x else L.live⟩
  | .write mem => ⟨{ L.heap with mem := mem }, L.live⟩

end Ledger

/-- The allocators and their clients. -/
def heapMachine : Machine Ledger HeapOp where
  enabled := Ledger.Enabled
  next := Ledger.next

/-! ## One call -/

section Calls

/-- A request fails and changes nothing, or takes the block of its lease out of the free list. -/
theorem Source.get_spec (src : Source) (F : h.FreeList l) (hB : h.Bounds) (h0 : 0 < n)
    (hn : n ≤ 2 ^ 32 - 8) :
    src.get h n = (h, none) ∨
      ∃ h' l' p, src.get h n = (h', some p) ∧ h.Takes l h' l' (Lease.mk src p n).block ∧
        (Lease.mk src p n).Valid h := by
  have hpos := roundmb_pos h0 hn
  -- a block taken out of the free list lies inside the heap
  have hinside : ∀ {h' l' a}, h.Takes l h' l' ⟨a, roundmb n⟩ →
      h.memheap ≤ a ∧ a + roundmb n ≤ h.maxaddr := by
    intro h' l' a T
    obtain ⟨b, hb, hab⟩ := T.subset (show a ∈ (Block.mk a (roundmb n)).cells by simp; omega)
    obtain ⟨c, hc, hac⟩ := T.subset
      (show a + roundmb n - 1 ∈ (Block.mk a (roundmb n)).cells by simp; omega)
    have h₁ := F.inside b hb
    have h₂ := F.inside c hc
    simp only [Block.mem_cells, Block.stop] at hab hac h₁ h₂
    omega
  cases src with
  | memget =>
    rcases h.memget_spec F hB h0 hn with ⟨hres, -⟩ | ⟨h', _, _, _, -, -, -, hres, T⟩
    · exact .inl hres
    · obtain ⟨hlow, hhigh⟩ := hinside T
      exact .inr ⟨h', _, _, hres, T, h0, hn, T.aligned, hlow, hhigh, by simp⟩
  | stkget =>
    rcases h.stkget_spec F hB h0 hn with ⟨hres, -⟩ | ⟨h', _, b, _, -, -, hle, hres, T⟩
    · exact .inl hres
    · obtain ⟨hlow, hhigh⟩ := hinside T
      have hdvd := dvd_roundmb n
      have hblock : (Lease.mk .stkget (b.stop - 4) n).block = ⟨b.stop - roundmb n, roundmb n⟩ := by
        simp only [Lease.block, Block.mk.injEq, and_true, Block.stop]
        omega
      refine .inr ⟨h', _, _, hres, hblock ▸ T, h0, hn, ?_, ?_, ?_, fun _ => ?_⟩
      · rw [hblock]
        exact T.aligned
      · rw [hblock]
        exact hlow
      · rw [hblock]
        exact hhigh
      · rw [hblock]
        simp only [Block.stop]
        omega

/-- **Giving back a live block** returns `OK` and puts exactly its cells back. -/
theorem Lease.free_spec (x : Lease) (F : h.FreeList l) (hB : h.Bounds) (hx : x.Valid h)
    (hdisj : Disjoint x.block.cells (cells l)) :
    ∃ h' l', x.free h = (h', OK) ∧ h'.FreeList l' ∧ cells l' = cells l ∪ x.block.cells ∧
      h'.memheap = h.memheap ∧ h'.maxaddr = h.maxaddr := by
  obtain ⟨hpos, hsize, haligned, hlow, hhigh, hptr⟩ := hx
  have hlen := x.block_len
  have hbpos := hB.pos
  have hlt := hB.lt
  have hround := roundmb_lt x.size
  have hdvd := dvd_roundmb x.size
  have hrpos := roundmb_pos hpos hsize
  simp only [Block.stop, hlen] at hhigh
  have hcells : (Block.mk x.block.addr (roundmb x.size)) = x.block := by
    rw [← hlen]
  have hdisj' : ∀ y ∈ (Block.mk x.block.addr (roundmb x.size)).cells, y ∉ cells l := by
    rw [hcells]
    exact fun y hy hl => Set.disjoint_left.mp hdisj hy hl
  obtain ⟨src, p, n⟩ := x
  cases src with
  | memget =>
    have hspec := h.memfree_spec F hB hpos hsize haligned ⟨hlow, hhigh⟩ hdisj'
    exact hspec
  | stkget =>
    have hp := hptr rfl
    simp only at hp hsize hround hdvd hrpos hpos hdisj' hhigh hcells
    have hround2 : roundmb (roundmb n) = roundmb n := roundmb_of_dvd hdvd hround
    have hle : roundmb n ≤ 2 ^ 32 - 8 := by omega
    have haddr : add32 (sub32 p (roundmb n)) 4 = (Lease.mk .stkget p n).block.addr := by
      rw [sub32_eq, add32_eq]
      omega
    have hspec := h.memfree_spec F hB hrpos hle haligned
      ⟨hlow, by rw [hround2]; exact hhigh⟩ (by rw [hround2]; exact hdisj')
    rw [hround2, hcells] at hspec
    simp only [Lease.free, Heap.stkfree, haddr]
    exact hspec

end Calls

/-! ## Runs -/

/-- The invariant of the ledger: the partition, and every live block is one an allocator gave. -/
structure Ledger.Sound (L : Ledger) : Prop where
  bounds : L.heap.Bounds
  valid : ∀ x ∈ L.live, x.Valid L.heap
  partition : ∃ l, L.heap.Partition l (L.live.map Lease.block) L.heap.range

theorem Lease.Valid.congr {x : Lease} (hx : x.Valid h) (hlow : h'.memheap = h.memheap)
    (hhigh : h'.maxaddr = h.maxaddr) : x.Valid h' :=
  ⟨hx.pos, hx.size, hx.aligned, hlow ▸ hx.low, hhigh ▸ hx.high, hx.ptr⟩

theorem Heap.Bounds.congr (hB : h.Bounds) (hlow : h'.memheap = h.memheap)
    (hhigh : h'.maxaddr = h.maxaddr) : h'.Bounds :=
  ⟨hlow ▸ hB.pos, hlow ▸ hB.low, hhigh ▸ hB.high, hhigh ▸ hB.lt⟩

theorem Heap.range_congr (hlow : h'.memheap = h.memheap)
    (hhigh : h'.maxaddr = h.maxaddr) : h'.range = h.range := by
  rw [Heap.range, hlow, hhigh, Heap.range]

variable {L : Ledger}

theorem Ledger.Sound.get (S : L.Sound) (src : Source) (h0 : 0 < n)
    (hn : n ≤ 2 ^ 32 - 8) : (L.next (.get src n)).Sound := by
  obtain ⟨hB, hvalid, l, P⟩ := S
  rcases src.get_spec P.free hB h0 hn with hres | ⟨h', l', p, hres, T, hV⟩
  · simp only [Ledger.next, hres]
    exact ⟨hB, hvalid, l, P⟩
  · simp only [Ledger.next, hres]
    refine ⟨hB.congr T.memheap T.maxaddr, fun x hx => ?_, l', ?_⟩
    · rcases mem_cons.mp hx with rfl | hx
      · exact hV.congr T.memheap T.maxaddr
      · exact (hvalid x hx).congr T.memheap T.maxaddr
    · rw [Heap.range_congr T.memheap T.maxaddr]
      exact P.take T

theorem Ledger.Sound.perm {live live' : List Lease} (S : (Ledger.mk h live).Sound)
    (hp : live.Perm live') : (Ledger.mk h live').Sound := by
  obtain ⟨hB, hvalid, l, P⟩ := S
  exact ⟨hB, fun x hx => hvalid x (hp.mem_iff.mpr hx), l, P.perm (hp.map _)⟩

theorem Ledger.Sound.free_eq_ok (S : L.Sound) {x : Lease} (hx : x ∈ L.live) :
    (x.free L.heap).2 = OK := by
  obtain ⟨hB, hvalid, l, P⟩ := S
  obtain ⟨h', l', hres, -⟩ :=
    x.free_spec P.free hB (hvalid x hx) (P.apart _ (mem_map_of_mem hx))
  rw [hres]

theorem Ledger.Sound.free (S : L.Sound) {x : Lease} (hx : x ∈ L.live) :
    (L.next (.free x)).Sound := by
  obtain ⟨hB, hvalid, l, P⟩ := S
  have hxblock : x.block ∈ L.live.map Lease.block := mem_map_of_mem hx
  obtain ⟨h', l', hres, F', hcells, hlow, hhigh⟩ :=
    x.free_spec P.free hB (hvalid x hx) (P.apart _ hxblock)
  have hperm : (L.live.map Lease.block).Perm (x.block :: (L.live.erase x).map Lease.block) :=
    (perm_cons_erase hx).map _
  simp only [Ledger.next, hres, if_true]
  refine ⟨hB.congr hlow hhigh, fun y hy => ?_, l', ?_⟩
  · exact (hvalid y (mem_of_mem_erase hy)).congr hlow hhigh
  · rw [Heap.range_congr hlow hhigh]
    exact (P.perm hperm).give F' hcells

/-- Writing into live blocks leaves the headers of the free blocks alone. -/
theorem Ledger.Sound.write (S : L.Sound) {mem : Nat → MemBlock}
    (hmem : ∀ a, a ∉ cells (L.live.map Lease.block) → mem a = L.heap.mem a) :
    (L.next (.write mem)).Sound := by
  obtain ⟨hB, hvalid, l, P⟩ := S
  have hfree : ∀ b ∈ l, mem b.addr = L.heap.mem b.addr := by
    intro b hb
    refine hmem _ ?_
    rintro ⟨c, hc, hbc⟩
    have hpos := P.free.separated.pos b hb
    exact Set.disjoint_left.mp (P.apart c hc) hbc ⟨b, hb, by simp; omega⟩
  exact ⟨⟨hB.pos, hB.low, hB.high, hB.lt⟩, fun x hx => (hvalid x hx).congr rfl rfl, l,
    P.free.congr_mem hfree, P.disjoint, P.apart, P.cover⟩

theorem Ledger.Sound.next (S : L.Sound) {op : HeapOp} (hop : L.Enabled op) : (L.next op).Sound := by
  cases op with
  | get src n => exact S.get src hop.1 hop.2
  | free x => exact S.free hop
  | write mem => exact S.write hop

/-- The platform leaves room for a heap: its bottom is a positive address that rounds without
wrapping, and lies below its top. -/
structure HeapRoom (memheap maxaddr : Nat) : Prop where
  pos : 0 < memheap
  low : memheap ≤ 2 ^ 32 - 8
  high : maxaddr < 2 ^ 32
  room : roundmb memheap < truncmb maxaddr

namespace HeapRoom

theorem bounds (R : HeapRoom memheap maxaddr) (mem : Nat → MemBlock) :
    (Heap.sysinit memheap maxaddr mem).Bounds :=
  ⟨roundmb_pos R.pos R.low, dvd_roundmb memheap, Dvd.intro_left _ rfl,
    (Nat.div_mul_le_self maxaddr 8).trans_lt R.high⟩

theorem freeList (R : HeapRoom memheap maxaddr) (mem : Nat → MemBlock) :
    (Heap.sysinit memheap maxaddr mem).FreeList
      [⟨roundmb memheap, truncmb maxaddr - roundmb memheap⟩] := by
  obtain ⟨hpos, hlow, hhigh, hlt⟩ := R
  have hdvd : 8 ∣ truncmb maxaddr := Dvd.intro_left _ rfl
  have hle : truncmb maxaddr ≤ maxaddr := Nat.div_mul_le_self maxaddr 8
  have hsub : sub32 (truncmb maxaddr) (roundmb memheap) = truncmb maxaddr - roundmb memheap :=
    sub32_eq hlt.le (by omega)
  refine ⟨⟨rfl, Nat.pos_iff_ne_zero.mp (roundmb_pos hpos hlow), ?_, ?_⟩,
    separated_singleton (by simp; omega), ?_, ?_, ?_⟩
  · simp [Heap.sysinit, hsub]
  · simp [Heap.Path, Heap.sysinit]
  · intro b hb
    rw [mem_singleton.mp hb]
    exact ⟨dvd_roundmb memheap, Nat.dvd_sub hdvd (dvd_roundmb memheap)⟩
  · intro b hb
    rw [mem_singleton.mp hb]
    simp only [Heap.sysinit, Block.stop]
    omega
  · simp [Heap.sysinit, hsub]

end HeapRoom

theorem sound_sysinit (hroom : HeapRoom memheap maxaddr)
    (mem : Nat → MemBlock) : (Ledger.mk (Heap.sysinit memheap maxaddr mem) []).Sound := by
  refine ⟨hroom.bounds mem, by simp, _, hroom.freeList mem, by simp, by simp, ?_⟩
  ext x
  simp only [cells_cons, cells_nil, map_nil, Set.union_empty, Block.mem_cells, Heap.range,
    Heap.sysinit, Set.mem_ofPred_eq]
  omega

theorem Ledger.next_bounds (L : Ledger) (op : HeapOp) :
    (L.next op).heap.memheap = L.heap.memheap ∧ (L.next op).heap.maxaddr = L.heap.maxaddr := by
  cases op with
  | get src n =>
    have hget : (src.get L.heap n).1.memheap = L.heap.memheap ∧
        (src.get L.heap n).1.maxaddr = L.heap.maxaddr := by
      cases src
      · exact L.heap.memget_bounds n
      · exact L.heap.stkget_bounds n
    rcases hr : src.get L.heap n with ⟨h, _ | p⟩ <;> simp only [Ledger.next, hr] at hget ⊢ <;>
      exact hget
  | free x =>
    simp only [Ledger.next, Lease.free]
    split
    · exact L.heap.memfree_bounds _ _
    · exact L.heap.memfree_bounds _ _
  | write mem => exact ⟨rfl, rfl⟩

theorem heap_sound_of_run (hroom : HeapRoom memheap maxaddr)
    {mem : Nat → MemBlock} {ops : List HeapOp} {L : Ledger}
    (r : heapMachine.Run ⟨Heap.sysinit memheap maxaddr mem, []⟩ ops L) : L.Sound :=
  r.invariant (fun _ _ S hop => S.next hop) (sound_sysinit hroom mem)

/-- **The heap is partitioned along every run**: whatever blocks were asked for and given back
since `sysinit`, the free list is increasing, aligned, coalesced, inside the heap and of the length
kept in `memlist.length`, and the free and the live blocks are disjoint and make up the heap. -/
theorem heap_partition_of_run {memheap maxaddr : Nat} (hroom : HeapRoom memheap maxaddr)
    {mem : Nat → MemBlock} {ops : List HeapOp} {L : Ledger}
    (r : heapMachine.Run ⟨Heap.sysinit memheap maxaddr mem, []⟩ ops L) :
    L.heap.memheap = roundmb memheap ∧ L.heap.maxaddr = truncmb maxaddr ∧
      ∃ l, L.heap.Partition l (L.live.map Lease.block) L.heap.range := by
  have hbounds : L.heap.memheap = roundmb memheap ∧ L.heap.maxaddr = truncmb maxaddr := by
    refine r.invariant (I := fun L => L.heap.memheap = roundmb memheap ∧
      L.heap.maxaddr = truncmb maxaddr) (fun L op hL _ => ?_) ⟨rfl, rfl⟩
    obtain ⟨h₁, h₂⟩ := L.next_bounds op
    exact ⟨h₁.trans hL.1, h₂.trans hL.2⟩
  exact ⟨hbounds.1, hbounds.2, (heap_sound_of_run hroom r).partition⟩

/-- On the Raspberry Pi's 128 MB, after one `memget`, one `stkget` and the return of the first
block. -/
theorem heap_partition_of_run_pi :
    ∃ L : Ledger, L.live = [⟨.stkget, 0x7fffffc, 128⟩] ∧
      ∃ l, L.heap.Partition l (L.live.map Lease.block) L.heap.range := by
  have hroom : HeapRoom 0x10000 0x8000000 := ⟨by decide, by decide, by decide, by decide⟩
  have r₁ := (Machine.Run.nil (M := heapMachine)
    ⟨Heap.sysinit 0x10000 0x8000000 fun _ => ⟨0, 0⟩, []⟩).snoc (i := HeapOp.get .memget 24)
      (show 0 < 24 ∧ 24 ≤ 2 ^ 32 - 8 by decide)
  have r₂ := r₁.snoc (i := HeapOp.get .stkget 128) (show 0 < 128 ∧ 128 ≤ 2 ^ 32 - 8 by decide)
  have r := r₂.snoc (i := HeapOp.free ⟨.memget, 0x10000, 24⟩)
    (by change Lease.mk .memget 0x10000 24 ∈ Ledger.live _; decide)
  exact ⟨_, by decide, (heap_partition_of_run hroom r).2.2⟩

end Xinu
