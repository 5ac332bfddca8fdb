import Xinu.Memory.Allocators
import Xinu.Memory.RegionRuns

/-!
# The heap of a user thread

`malloc` and `free` manage the memory of a thread: a list of free blocks of its own, which is
searched and coalesced in the same way as the free list of the kernel, and behind it the region
allocator. A page of a region is accessible to the thread if it is mapped in the page table, which
`safeMapRange` and `safeUnmapRange` maintain page by page.

## Main results

* `PageTable.mapPages_spec`, `PageTable.unmapPages_spec`: what the loops over a range do
* `Heap.memgetLoop_frame`, `Heap.memfreeAt_frame`: only the headers of free blocks change
-/

namespace Xinu

open List Intervals

variable {N base j n p x : Nat}

/-! ## The page table -/

/-- The attributes of a page of a user. -/
def ENT_WRITE : Nat := 4
def ENT_PRESENT : Nat := 2
def ENT_USER : Nat := ENT_WRITE ||| ENT_PRESENT

/-- `struct pgtblent`. -/
structure PgtblEnt where
  entry : Nat := 0
  asid : Int := 0
deriving DecidableEq

/-- The page table that `safeInit` has set up: its address and its entries. -/
structure PageTable where
  address : Nat
  pgtbl : Nat → PgtblEnt

namespace PageTable

/-- The index of the entry of a page. -/
def index (page : Nat) : Nat := (page &&& PMEM_MASK) / 2 ^ 12

/-- `safeMap` by a thread. -/
def safeMap (tid : Int) (attr : Nat) (g : PageTable) (page : Nat) : PageTable × Int :=
  if page = NULL then (g, 1)
  -- the address of the entry, not the page it maps
  else if add32 g.address (8 * index page) = page then (g, 0)
  else if (g.pgtbl (index page)).entry ≠ 0 then (g, 1)
  else ({ g with pgtbl := store g.pgtbl (index page) ⟨page / 2 ^ 6 ||| attr, tid⟩ }, 0)

/-- `safeUnmap`; the mask `0xffffffc0` clears the attributes. -/
def safeUnmap (g : PageTable) (page : Nat) : PageTable × Int :=
  if page = NULL then (g, 1)
  else if (g.pgtbl (index page)).entry / 2 ^ 6 * 2 ^ 6 ≠ page / 2 ^ 6 then (g, 1)
  else ({ g with pgtbl := store g.pgtbl (index page) {} }, 0)

/-- The loop of `safeMapRange` and `safeUnmapRange` over some pages. -/
def eachPage (f : PageTable → Nat → PageTable × Int) : Nat → Nat → PageTable → PageTable × Int
  | 0, _, g => (g, 0)
  | n + 1, addr, g =>
    let r := f g addr
    if r.2 ≠ 0 then r else eachPage f n (add32 addr PAGE_SIZE) r.1

/-- The loop from `truncpage(start)` on; both bounds are multiples of the page size. -/
def range (f : PageTable → Nat → PageTable × Int) (g : PageTable) (start length : Nat) :
    PageTable × Int :=
  let addr := truncpage start
  eachPage f ((add32 addr (roundpage length) - addr) / PAGE_SIZE) addr g

/-- `safeMapRange` and `safeUnmapRange`. -/
def safeMapRange (tid : Int) (g : PageTable) (start length attr : Nat) : PageTable × Int :=
  range (safeMap tid attr) g start length
def safeUnmapRange (g : PageTable) (start length : Nat) : PageTable × Int :=
  range safeUnmap g start length

/-- A page is mapped for a thread. -/
def Mapped (g : PageTable) (tid : Int) (page : Nat) : Prop :=
  g.pgtbl (index page) = ⟨page / 2 ^ 6 ||| ENT_USER, tid⟩
deriving Decidable

end PageTable

/-! ## The code -/

/-- What `malloc` and `free` of a thread work on: the regions, the block headers with the list
`memlist` of the thread in front, and the page table. -/
structure UserMem where
  regions : Regions
  heap : Heap
  table : PageTable

namespace UserMem

/-- The accounting information of a block that is in use. -/
def account (s : UserMem) (block nbytes : Nat) : UserMem :=
  { s with heap := { s.heap with mem := Function.update s.heap.mem block ⟨block, nbytes⟩ } }

/-- `free`. Behind the search for its place the block is linked in and coalesced as `memfree` does
it; the header has its length already. -/
def free (s : UserMem) (base : Nat) : Option UserMem :=
  let block := sub32 base 8
  if (s.heap.mem block).next ≠ block then some s
  else
    let nbytes := (s.heap.mem block).length
    let table := (s.table.safeUnmapRange block nbytes).1
    (s.heap.memfreeScan block Heap.walkBound none s.heap.memlist.next).map fun place =>
      { s with heap := (s.heap.memfreeAt block nbytes place.1 place.2).1, table := table }

/-- The part of `malloc` behind `memRegionAlloc`: what is left of the region goes to the free list,
and the block is mapped. -/
def fromRegion (s : UserMem) (tid : Int) (nbytes : Nat) (start length : Nat) :
    Option (UserMem × Nat) :=
  let rest :=
    if length > nbytes then
      let leftover := add32 start nbytes
      (s.account leftover (sub32 length nbytes)).free (add32 leftover 8)
    else some s
  rest.map fun s =>
    let s := s.account start nbytes
    ({ s with table := (s.table.safeMapRange tid start nbytes ENT_USER).1 }, add32 start 8)

/-- `malloc` by a thread; `none` if it does not return. -/
def malloc (s : UserMem) (tid : Int) (nbytes : Nat) : Option (UserMem × Nat) :=
  if nbytes = 0 then some (s, NULL)
  else
    let nbytes := add32 (roundmb nbytes) 8
    match s.heap.memgetLoop nbytes Heap.walkBound none s.heap.memlist.next with
    | (h, some curr) => some (({ s with heap := h } : UserMem).account curr nbytes, add32 curr 8)
    | (_, none) =>
      -- attempt to acquire memory from the kernel
      match s.regions.memRegionAlloc tid nbytes with
      | none => none
      | some (regions, none) => some ({ s with regions := regions }, NULL)
      | some (regions, some i) =>
        ({ s with regions := regions } : UserMem).fromRegion tid nbytes (regions.regtab i).start
          (regions.regtab i).length

end UserMem

/-! ## Pages -/

/-- The pages a block overlaps. -/
def blockPages (b : Block) : List Nat :=
  (List.range ((b.stop - 1) / PAGE_SIZE + 1 - b.addr / PAGE_SIZE)).map fun k =>
    (b.addr / PAGE_SIZE + k) * PAGE_SIZE

theorem mem_blockPages {b : Block} (hpos : 0 < b.len) :
    p ∈ blockPages b ↔ PAGE_SIZE ∣ p ∧ p < b.stop ∧ b.addr < p + PAGE_SIZE := by
  unfold blockPages Block.stop
  rw [mem_map]
  constructor
  · rintro ⟨k, hk, rfl⟩
    rw [mem_range] at hk
    refine ⟨Dvd.intro_left _ rfl, ?_⟩
    unfold PAGE_SIZE at *
    omega
  · rintro ⟨⟨q, rfl⟩, hlo, hhi⟩
    refine ⟨q - b.addr / PAGE_SIZE, ?_, ?_⟩
    · rw [mem_range]
      unfold PAGE_SIZE at *
      omega
    · unfold PAGE_SIZE at *
      omega

section Range

/-- The pages of the managed memory have entries of their own. -/
theorem Range.index_page (hr : Range base N) (hj : j < N) :
    PageTable.index (page base j) = base % 2 ^ 29 / PAGE_SIZE + j := by
  have hmask : ∀ x, x &&& PMEM_MASK = x % 2 ^ 29 := fun x => Nat.and_two_pow_sub_one_eq_mod x 29
  have hs := hr.segment
  unfold PageTable.index
  rw [hmask]
  unfold page PAGE_SIZE at *
  omega

theorem Range.index_inj (hr : Range base N) {i : Nat} (hi : i < N) (hj : j < N)
    (h : PageTable.index (page base i) = PageTable.index (page base j)) : i = j := by
  rw [hr.index_page hi, hr.index_page hj] at h
  omega

/-- A page of the managed memory is a page number. -/
theorem Range.exists_page (hr : Range base N) (hp : PAGE_SIZE ∣ p) (hlo : base ≤ p)
    (hhi : p < page base N) : ∃ j, j < N ∧ p = page base j := by
  obtain ⟨q, rfl⟩ := hr.aligned
  obtain ⟨r, rfl⟩ := hp
  refine ⟨r - q, ?_, ?_⟩ <;> unfold page PAGE_SIZE at * <;> omega

end Range

/-- The managed memory in its place: not at the ends of the address space, and apart from the page
table. -/
structure Situated (base N : Nat) (address : Nat) : Prop extends Range base N where
  base_pos : 0 < base
  stop_lt : page base N < 2 ^ 32
  apart : ∀ j, j < N → add32 address (8 * PageTable.index (page base j)) ≠ page base j

namespace PageTable

variable {g : PageTable} {tid : Int}

theorem entry_of_mapped (hp : PAGE_SIZE ∣ p) (h : g.Mapped tid p) :
    (g.pgtbl (index p)).entry = p / 2 ^ 6 + ENT_USER := by
  obtain ⟨q, rfl⟩ := hp
  have hq : PAGE_SIZE * q / 2 ^ 6 = 2 ^ 6 * q := by
    unfold PAGE_SIZE
    omega
  rw [h, hq]
  exact (Nat.two_pow_add_eq_or_of_lt (by decide) q).symm

section

variable (hr : Situated base N g.address)
include hr

theorem page_pos (j : Nat) : 2 ^ 12 ≤ page base j := by
  have hpos := hr.base_pos
  obtain ⟨q, rfl⟩ := hr.aligned
  unfold page PAGE_SIZE at *
  omega

theorem safeMap_clear (hj : j < N) (attr : Nat) (h : (g.pgtbl (index (page base j))).entry = 0) :
    safeMap tid attr g (page base j) =
      ({ g with pgtbl := store g.pgtbl (index (page base j)) ⟨page base j / 2 ^ 6 ||| attr, tid⟩ },
        0) := by
  have hpos := page_pos hr j
  unfold safeMap
  rw [if_neg (by unfold NULL; omega), if_neg (hr.apart j hj), if_neg (by simp [h])]

theorem safeUnmap_clear
    (h : (g.pgtbl (index (page base j))).entry = 0) : safeUnmap g (page base j) = (g, 1) := by
  have hpos := page_pos hr j
  unfold safeUnmap
  rw [if_neg (by unfold NULL; omega), h, if_pos (by omega)]

theorem safeUnmap_mapped (h : g.Mapped tid (page base j)) : safeUnmap g (page base j) =
      ({ g with pgtbl := store g.pgtbl (index (page base j)) {} }, 0) := by
  have hpos := page_pos hr j
  have hdvd : PAGE_SIZE ∣ page base j := by
    obtain ⟨q, rfl⟩ := hr.aligned
    exact ⟨q + j, by unfold page; rw [mul_add]⟩
  have hentry := entry_of_mapped hdvd h
  unfold safeUnmap
  rw [if_neg (by unfold NULL; omega), if_neg]
  rw [hentry, not_not]
  obtain ⟨q, hq⟩ := hdvd
  rw [hq]
  unfold PAGE_SIZE ENT_USER ENT_WRITE ENT_PRESENT
  change (4096 * q / 2 ^ 6 + 6) / 2 ^ 6 * 2 ^ 6 = _
  omega

end

/-- The entries of the pages from `j` on, `n` of them, get a value; the others stay. -/
def Sets (g g' : PageTable) (base j n : Nat) (v : Nat → PgtblEnt) : Prop :=
  g'.address = g.address ∧
    (∀ k, j ≤ k → k < j + n → g'.pgtbl (index (page base k)) = v k) ∧
    ∀ i, (∀ k, j ≤ k → k < j + n → i ≠ index (page base k)) → g'.pgtbl i = g.pgtbl i

theorem add32_page (hr : Situated base N g.address) (hj : j < N) :
    add32 (page base j) PAGE_SIZE = page base (j + 1) := by
  have hlt := hr.stop_lt
  unfold page PAGE_SIZE at *
  rw [add32_eq]
  omega

/-- **The loop over a range**, where each page gets the value it should. -/
theorem eachPage_spec {f : PageTable → Nat → PageTable × Int} {v : Nat → PgtblEnt}
    {P : PageTable → Nat → Prop} (hf : ∀ g k, Situated base N g.address → k < N → P g k →
      f g (page base k) = ({ g with pgtbl := store g.pgtbl (index (page base k)) (v k) }, 0))
    (hP : ∀ g g' k, g'.pgtbl (index (page base k)) = g.pgtbl (index (page base k)) → P g k → P g' k)
    {n : Nat} {j : Nat} {g : PageTable} (hr : Situated base N g.address) (hn : j + n ≤ N)
    (h : ∀ k, j ≤ k → k < j + n → P g k) :
    ∃ g', eachPage f n (page base j) g = (g', 0) ∧ g.Sets g' base j n v := by
  induction n generalizing j g with
  | zero => exact ⟨g, rfl, rfl, fun k h h' => absurd h (by omega), fun _ _ => rfl⟩
  | succ n ih =>
    have hj : j < N := by omega
    have hone := hf g j hr hj (h j le_rfl (by omega))
    -- the entries of the other pages are still as they were
    have hother : ∀ k, j < k → k < N → index (page base k) ≠ index (page base j) := by
      intro k hjk hk heq
      have := hr.toRange.index_inj hk hj heq
      omega
    generalize hg₁ : ({ g with pgtbl := store g.pgtbl (index (page base j)) (v j) } : PageTable) =
      g₁ at hone
    have hg₁tab : ∀ i, g₁.pgtbl i = if i = index (page base j) then v j else g.pgtbl i := by
      intro i
      rw [← hg₁]
      rfl
    have haddr : g₁.address = g.address := by rw [← hg₁]
    obtain ⟨g', hloop, haddr', hset, hrest⟩ := ih (j := j + 1) (g := g₁) (by rwa [haddr]) (by omega)
      (by
        intro k hlo hhi
        refine hP g g₁ k ?_ (h k (by omega) (by omega))
        rw [hg₁tab, if_neg (hother k (by omega) (by omega))])
    refine ⟨g', ?_, haddr'.trans haddr, ?_, ?_⟩
    · rw [eachPage, hone]
      dsimp only
      rw [if_neg (by decide), add32_page hr hj]
      exact hloop
    · intro k hlo hhi
      by_cases hk : k = j
      · subst hk
        rw [hrest _ fun k' hlo' hhi' heq => hother k' (by omega) (by omega) heq.symm, hg₁tab,
          if_pos rfl]
      · exact hset k (by omega) (by omega)
    · intro i hi
      rw [hrest i fun k hlo hhi => hi k (by omega) (by omega), hg₁tab,
        if_neg (hi j le_rfl (by omega))]

/-- Pages whose entries are clear get mapped. -/
theorem mapPages_spec (tid : Int) (hr : Situated base N g.address) (hn : j + n ≤ N)
    (h : ∀ k, j ≤ k → k < j + n → (g.pgtbl (index (page base k))).entry = 0) :
    ∃ g', eachPage (safeMap tid ENT_USER) n (page base j) g = (g', 0) ∧
      g.Sets g' base j n fun k => ⟨page base k / 2 ^ 6 ||| ENT_USER, tid⟩ := by
  refine eachPage_spec (P := fun g k => (g.pgtbl (index (page base k))).entry = 0) ?_ ?_ hr hn h
  · intro g k hr hk hclear
    exact safeMap_clear hr hk ENT_USER hclear
  · intro g g' k heq hclear
    rw [heq]
    exact hclear

section

variable (hr : Situated base N g.address)
include hr

/-- Pages that are mapped get unmapped. -/
theorem unmapPages_spec (hn : j + n ≤ N)
    (h : ∀ k, j ≤ k → k < j + n → g.Mapped tid (page base k)) :
    ∃ g', eachPage safeUnmap n (page base j) g = (g', 0) ∧ g.Sets g' base j n fun _ => {} := by
  refine eachPage_spec (P := fun g k => g.Mapped tid (page base k)) ?_ ?_ hr hn h
  · intro g k hr _ hmapped
    exact safeUnmap_mapped hr hmapped
  · intro g g' k heq hmapped
    exact heq.trans hmapped

/-- The first page of a range is not mapped: nothing happens. -/
theorem unmapPages_clear (h : (g.pgtbl (index (page base j))).entry = 0) :
    (eachPage safeUnmap n (page base j) g).1 = g := by
  cases n with
  | zero => rfl
  | succ n =>
    rw [eachPage, safeUnmap_clear hr h]
    rfl

/-- A range of pages of the managed memory. -/
theorem range_eq (f : PageTable → Nat → PageTable × Int)
    {start length : Nat} (hstart : truncpage start = page base j)
    (hlength : roundpage length = PAGE_SIZE * n) (hn : j + n ≤ N) :
    range f g start length = eachPage f n (page base j) g := by
  have hlt := hr.stop_lt
  unfold range
  dsimp only
  rw [hstart, hlength]
  have hcount : (add32 (page base j) (PAGE_SIZE * n) - page base j) / PAGE_SIZE = n := by
    unfold page PAGE_SIZE at *
    rw [add32_eq]
    omega
  rw [hcount]

end

end PageTable

/-! ## What the list operations leave alone -/

namespace Heap

variable {h h' : Heap} {l pre post : List Block} {p : Option Nat}

theorem mem_setNext (hx : some x ≠ p) (v : Nat) : (h.setNext p v).mem x = h.mem x := by
  have := get_setNext h p (some x) v
  rwa [if_neg hx] at this

theorem mem_setLength (hx : some x ≠ p) (v : Nat) : (h.setLength p v).mem x = h.mem x := by
  have := get_setLength h p (some x) v
  rwa [if_neg hx] at this

/-- The header before a place in the list is that of a free block, or the head. -/
theorem FreeList.last_ne (F : FreeList h (pre ++ post)) (hx : x ∉ cells (pre ++ post)) :
    some x ≠ last none pre := by
  refine (ne_some_of_mem_headers (fun b hb => ?_) _ (last_mem_headers none pre)).symm
  rintro rfl
  have hb' : b ∈ pre ++ post := mem_append_left _ hb
  exact hx ⟨b, hb', le_rfl, Nat.lt_add_of_pos_right (F.separated.pos b hb')⟩

/-- The search of `malloc` writes into free blocks only. -/
theorem memgetLoop_frame (fuel : Nat) (pre : List Block) (F : FreeList h (pre ++ post))
    (hB : Bounds h) (hx : x ∉ cells (pre ++ post)) :
    (memgetLoop h n fuel (last none pre) (h.get (last none pre)).next).1.mem x = h.mem x := by
  induction fuel generalizing pre post with
  | zero => rfl
  | succ fuel ih =>
    have hlast := F.last_ne hx
    cases post with
    | nil =>
      have hend : (h.get (last none pre)).next = NULL := F.next_last_eq_entry
      rw [memgetLoop, if_pos hend]
    | cons b post =>
      have hb : b ∈ pre ++ b :: post := by simp
      rw [F.next_last, memgetLoop, if_neg F.addr_pos, F.mem_length]
      by_cases heq : b.len = n
      · rw [if_pos heq]
        rw [mem_setLength (by simp), mem_setNext hlast]
      · rw [if_neg heq]
        by_cases hlt : n < b.len
        · have hleft : some x ≠ some (add32 b.addr n) := by
            have hstop := F.stop_lt hB hb
            rw [add32_eq]
            intro hxa
            refine hx ⟨b, hb, ?_⟩
            rw [Option.some.inj hxa, Block.mem_cells]
            omega
          rw [if_pos hlt]
          rw [mem_setLength (by simp), mem_setLength hleft, mem_setNext hleft, mem_setNext hlast]
        · rw [if_neg hlt]
          have F' : FreeList h ((pre ++ [b]) ++ post) := by rwa [append_assoc]
          have hstep := ih (pre ++ [b]) F' (by rwa [append_assoc])
          rwa [last_append_cons] at hstep

/-- Linking a block in writes into it and into free blocks only. -/
theorem memfreeAt_frame {block : Nat} {q : Nat} (hp : some x ≠ p)
    (hx : x ≠ block) : (memfreeAt h block n p q).1.mem x = h.mem x := by
  have hblock : some x ≠ some block := fun heq => hx (Option.some.inj heq)
  unfold memfreeAt
  dsimp only
  split
  · rfl
  · unfold coalescePrev
    split <;> dsimp only
    · unfold coalesceNext
      split
      · rw [mem_setNext hp, mem_setLength hp, mem_setLength hp, mem_setLength (by simp)]
      · rw [mem_setLength hp, mem_setLength (by simp)]
    · unfold coalesceNext
      split
      · rw [mem_setNext hblock, mem_setLength hblock, mem_setNext hp, mem_setLength hblock,
          mem_setNext hblock, mem_setLength (by simp)]
      · rw [mem_setNext hp, mem_setLength hblock, mem_setNext hblock, mem_setLength (by simp)]

/-- The free list does not depend on the headers of other blocks. -/
theorem FreeList.update (F : FreeList h l) (hx : x ∉ cells l) (v : MemBlock) :
    FreeList { h with mem := Function.update h.mem x v } l := by
  refine F.congr_mem fun b hb => Function.update_of_ne ?_ _ _
  rintro rfl
  exact hx ⟨b, hb, le_rfl, Nat.lt_add_of_pos_right (F.separated.pos b hb)⟩

/-- **A block is linked in**: it joins the free cells, and only headers in free memory change. -/
theorem link_spec (F : FreeList h l) (hB : Bounds h) {b : Block} (hpos : 0 < b.len)
    (hdvd : 8 ∣ b.addr ∧ 8 ∣ b.len) (hin : h.memheap ≤ b.addr ∧ b.stop ≤ h.maxaddr)
    (hdisj : ∀ x ∈ b.cells, x ∉ cells l) :
    ∃ place l', memfreeScan h b.addr walkBound none h.memlist.next = some place ∧
      FreeList (memfreeAt h b.addr b.len place.1 place.2).1 l' ∧ cells l' = cells l ∪ b.cells ∧
      (memfreeAt h b.addr b.len place.1 place.2).1.memheap = h.memheap ∧
      (memfreeAt h b.addr b.len place.1 place.2).1.maxaddr = h.maxaddr ∧
      ∀ x, x ∉ cells l → x ∉ b.cells →
        (memfreeAt h b.addr b.len place.1 place.2).1.mem x = h.mem x := by
  have hlt := hB.lt
  have hstop : b.addr + b.len ≤ h.maxaddr := hin.2
  have hround : roundmb b.len = b.len := roundmb_of_dvd hdvd.2 (by omega)
  obtain ⟨h', l', hfree, F', hcells, hlow', hhigh'⟩ := memfree_spec F hB hpos (by omega) hdvd.1
    (by rw [hround]; exact ⟨hin.1, hstop⟩) (by rw [hround]; exact hdisj)
  rw [hround] at hcells
  -- the place that `memfree` finds
  obtain ⟨pre, post, rfl, hpre, hpost⟩ := split_of_disjoint F.separated hpos hdisj
  have hwalk : pre.length < walkBound := by
    have := F.length_lt_walkBound hB
    rw [length_append] at this
    omega
  have hscan := memfreeScan_spec [] pre F (fun b hb => (hpre b hb).1)
    (fun b hb => (hpost b hb).1) hwalk
  simp only [last, get_none, nil_append] at hscan
  rw [memfree, if_neg (by omega), hscan] at hfree
  rw [hround] at hfree
  have hfst := congrArg Prod.fst hfree
  refine ⟨(last none pre, entry post), l', hscan, ?_, hcells, ?_, ?_, ?_⟩
  · rw [hfst]
    exact F'
  · rw [hfst]
    exact hlow'
  · rw [hfst]
    exact hhigh'
  · intro x hx hxb
    refine memfreeAt_frame (F.last_ne hx) ?_
    rintro rfl
    exact hxb ⟨le_rfl, Nat.lt_add_of_pos_right hpos⟩

end Heap

end Xinu
