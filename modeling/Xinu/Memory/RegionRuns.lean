import Xinu.Foundations.Tiling
import Xinu.Memory.Regions
import Xinu.Memory.FreeList

/-!
# The regions tile the managed memory

The pages of the managed memory are tiled by the regions, free and allocated. An allocation cuts a
free tile in two, and a region that is reclaimed becomes free and joins the free tiles next to it,
so that no two neighbours are free. The index of the descriptor of a region is the number of its
first page, as long as the managed memory does not cross a boundary of the physical address mask.

## Main results

* `Layout.alloc`, `Layout.reclaim`: the calls return, and keep the layout
* `regions_partition_memory`: the invariant of the allocator
* `request_served_iff`: which requests get the lowest region that fits
-/

namespace Xinu

open List Tiling Regions HeadedList.Listed Tile

variable {N base i j k : Nat} {T : List Tile} {s : Regions}

/-! ## The managed memory -/

/-- `N` pages from `base` on, which do not cross a boundary of the physical address mask. -/
structure Range (base N : Nat) : Prop where
  aligned : PAGE_SIZE ∣ base
  lt : base < 2 ^ 32
  segment : base % 2 ^ 29 + PAGE_SIZE * N ≤ 2 ^ 29
  pos : 0 < N

/-- The address of a page. -/
def page (base i : Nat) : Nat := base + PAGE_SIZE * i

section Range

theorem Range.page_lt (h : Range base N) (hi : i < N) : page base i < 2 ^ 32 := by
  have hs := h.segment
  have hlt := h.lt
  unfold page PAGE_SIZE at *
  omega

theorem Range.size_lt (h : Range base N) : PAGE_SIZE * N < 2 ^ 32 := by
  have := h.segment
  omega

theorem page_lt_page : page base i < page base j ↔ i < j := by
  unfold page PAGE_SIZE
  omega

/-- A region bumps with the region that starts where it ends. -/
theorem Range.bump_iff (h : Range base N) {n : Nat} (hin : i + n ≤ N) (hj : j < N) :
    add32 (page base i) (PAGE_SIZE * n) = page base j ↔ i + n = j := by
  have hs := h.segment
  have hlt := h.lt
  unfold add32 page PAGE_SIZE at *
  omega

/-- The descriptor of a page is the one with its number. -/
theorem Range.discover (h : Range base N) (hj : j < N)
    (hstart : (s.regtab 0).start = base) : s.memRegionDiscover (page base j) = j := by
  have hmask : ∀ x, x &&& PMEM_MASK = x % 2 ^ 29 := fun x => Nat.and_two_pow_sub_one_eq_mod x 29
  have hs := h.segment
  obtain ⟨q, hq⟩ := h.aligned
  have htrunc : truncpage (page base j) = page base j := by
    unfold truncpage page PAGE_SIZE at *
    omega
  unfold Regions.memRegionDiscover
  rw [htrunc, hstart, hmask, hmask]
  dsimp only
  unfold sub32 page PAGE_SIZE at *
  omega

end Range

/-! ## The layout -/

/-- **The regions are the tiles**: the free ones are on the free list, and those on the allocated
list are taken. -/
structure Layout (s : Regions) (base N : Nat) (T : List Tile) (A : List Nat) : Prop where
  tiles : Tiles 0 T N
  free : s.Listed .free (starts true T)
  alloc : s.Listed .alloc A
  taken : ∀ i ∈ A, i ∈ starts false T
  nodup : A.Nodup
  start : ∀ t ∈ T, (s.regtab t.start).start = page base t.start
  length : ∀ t ∈ T, (s.regtab t.start).length = PAGE_SIZE * t.len
  max : s.max_regions = N

namespace Layout

variable {s' : Regions} {pre post : List Tile} {A : List Nat} {t u : Tile}

section

variable (h : Layout s base N T A)
include h

theorem starts_nodup (c : Bool) : (starts c T).Nodup :=
  (h.tiles.starts_pairwise c).imp fun h => Nat.ne_of_lt h

theorem disjoint (hi : i ∈ A) : i ∉ starts true T := by
  intro hf
  exact h.tiles.starts_disjoint hf (h.taken i hi)

theorem stop_le (ht : t ∈ T) : 0 < t.len ∧ t.start + t.len ≤ N :=
  (h.tiles.bounds.2 t ht).2

end

theorem base_eq (hr : Range base N) (h : Layout s base N T A) : (s.regtab 0).start = base := by
  have htiles := h.tiles
  have hstart := h.start
  cases T with
  | nil =>
    obtain rfl : 0 = N := htiles
    exact absurd hr.pos (by decide)
  | cons t T =>
    have h0 : t.start = 0 := htiles.1
    have := hstart t mem_cons_self
    rw [h0] at this
    simpa [page] using this

/-! ### Coalescing -/

/-- Two free regions that bump become one. -/
theorem absorb (h : Layout s base N (pre ++ t :: u :: post) A) (ht : t.free = true)
    (hu : u.free = true) (hN : PAGE_SIZE * N < 2 ^ 32) :
    Layout (s.absorb t.start u.start) base N
      (pre ++ ⟨t.start, t.len + u.len, true⟩ :: post) A := by
  have hadj := h.tiles.adjacent
  have hF : starts true (pre ++ t :: u :: post) =
      starts true pre ++ t.start :: u.start :: starts true post := by
    rw [starts_middle_of_eq ht, starts_cons_of_eq hu]
  have hfree := h.free
  have hnd := h.starts_nodup true
  rw [hF] at hfree hnd
  obtain ⟨hlist, hab⟩ := absorb_listed hfree hnd
  have htmem : t ∈ pre ++ t :: u :: post := by simp
  have humem : u ∈ pre ++ t :: u :: post := by simp
  have hlen := h.stop_le humem
  have hmerge : Tiles 0 (pre ++ (⟨t.start, t.len + u.len, true⟩ : Tile) :: post) N := by
    refine h.tiles.merge rfl ?_
    unfold stop at hadj ⊢
    dsimp only
    omega
  have hbetween : ∀ {v}, v ∈ pre ++ post → v ∈ pre ++ u :: post := fun hv =>
    mem_append.mpr ((mem_append.mp hv).imp id (mem_cons_of_mem _))
  refine
    { tiles := hmerge
      free := ?_
      alloc := ?_
      taken := ?_
      nodup := h.nodup
      start := ?_
      length := ?_
      max := hab.max.trans h.max }
  · rw [starts_middle_of_eq (t := ⟨t.start, t.len + u.len, true⟩) rfl]
    exact hlist
  · unfold Regions.Listed
    rw [hab.head]
    refine congr h.alloc (fun i hi => ?_) fun i hi => ?_
    · rw [Regions.next, hab.other i (hF ▸ h.disjoint hi)]
    · rw [Regions.prev, hab.other i (hF ▸ h.disjoint hi)]
  · intro i hi
    have htaken := h.taken i hi
    rw [starts_middle_of_ne ht, starts_cons_of_ne hu] at htaken
    rw [starts_middle_of_ne (t := ⟨t.start, t.len + u.len, true⟩) rfl]
    exact htaken
  · intro v hv
    rw [hab.start]
    rcases mem_middle.mp hv with rfl | hv
    · exact h.start t htmem
    · exact h.start v (mem_middle.mpr (.inr (hbetween hv)))
  · intro v hv
    rw [hab.length]
    rcases mem_middle.mp hv with rfl | hv
    · rw [if_pos rfl, h.length t htmem, h.length u humem]
      have hsum : t.start + (t.len + u.len) ≤ N := by
        unfold stop at hadj
        omega
      have hmul : PAGE_SIZE * t.len + PAGE_SIZE * u.len ≤ PAGE_SIZE * N := by
        rw [← Nat.mul_add]
        exact Nat.mul_le_mul_left _ (by omega)
      rw [add32_eq, Nat.mul_add]
    · rw [if_neg (hmerge.ne_start hv)]
      exact h.length v (mem_middle.mpr (.inr (hbetween hv)))

section

variable (hr : Range base N)
include hr

/-- Two regions bump if their tiles are adjacent. -/
theorem bump_iff (h : Layout s base N T A) (ht : t ∈ T) (hu : u ∈ T) :
    add32 (s.regtab t.start).start (s.regtab t.start).length = (s.regtab u.start).start ↔
      t.stop = u.start := by
  have huN := h.stop_le hu
  rw [h.start t ht, h.length t ht, h.start u hu, hr.bump_iff (h.stop_le ht).2 (by omega)]
  rfl

theorem coalesceNext_same (h : Layout s base N (pre ++ t :: post) A)
    (ht : t.free = true) (hs : Settled (t :: post)) : s.coalesceNext t.start = s := by
  have hfree := h.free
  rw [starts_middle_of_eq ht] at hfree
  cases hF : starts true post with
  | nil =>
    rw [hF] at hfree
    exact coalesceNext_last hfree
  | cons y F =>
    rw [hF] at hfree
    obtain ⟨v, hv, hvf, rfl⟩ := mem_starts.mp (hF ▸ mem_cons_self : y ∈ starts true post)
    rw [coalesceNext_cons hfree, if_neg]
    rw [h.bump_iff hr (by simp) (by simp [hv])]
    obtain ⟨m, _, hrest⟩ := tiles_append.mp h.tiles
    exact hrest.not_adjacent hs mem_cons_self (mem_cons_of_mem _ hv) ht hvf

theorem coalesceNext_bump (h : Layout s base N (pre ++ t :: u :: post) A)
    (ht : t.free = true) (hu : u.free = true) :
    s.coalesceNext t.start = s.absorb t.start u.start := by
  have hfree := h.free
  rw [starts_middle_of_eq ht, starts_cons_of_eq hu] at hfree
  rw [coalesceNext_cons hfree, if_pos]
  rw [h.bump_iff hr (by simp) (by simp)]
  exact h.tiles.adjacent.symm

theorem coalescePrev_same (h : Layout s base N (pre ++ t :: post) A)
    (ht : t.free = true) (hs : Settled (pre ++ [t])) : s.coalescePrev t.start = s := by
  have hfree := h.free
  rw [starts_middle_of_eq ht] at hfree
  rcases (starts true pre).eq_nil_or_concat with hF | ⟨F, z, hF⟩
  · rw [hF] at hfree
    exact coalescePrev_first hfree
  · rw [concat_eq_append] at hF
    rw [hF, append_assoc] at hfree
    have hz : z ∈ starts true pre := by simp [hF]
    obtain ⟨v, hv, hvf, rfl⟩ := mem_starts.mp hz
    rw [coalescePrev_concat hfree, if_neg]
    rw [h.bump_iff hr (by simp [hv]) (by simp)]
    have htiles := h.tiles
    rw [append_cons] at htiles
    obtain ⟨m, hfirst, _⟩ := tiles_append.mp htiles
    exact hfirst.not_adjacent hs (mem_append_left _ hv) (by simp) hvf ht

theorem coalescePrev_bump (h : Layout s base N (pre ++ u :: t :: post) A)
    (hu : u.free = true) (ht : t.free = true) :
    s.coalescePrev t.start = s.absorb u.start t.start := by
  have hfree := h.free
  rw [starts_middle_of_eq hu, starts_cons_of_eq ht] at hfree
  rw [coalescePrev_concat hfree, if_pos]
  rw [h.bump_iff hr (by simp) (by simp)]
  exact h.tiles.adjacent.symm

section

variable (h : Layout s base N (pre ++ t :: post) A) (ht : t.free = true)
include h ht

/-- Coalescing with the next region: whatever was behind it, the region settles with it. -/
theorem settleNext (hpost : Settled post) :
    ∃ n post', Layout (s.coalesceNext t.start) base N (pre ++ ⟨t.start, n, true⟩ :: post') A ∧
      Settled (⟨t.start, n, true⟩ :: post') ∧ starts false post' = starts false post := by
  have hsame : Settled (t :: post) →
      ∃ n post', Layout (s.coalesceNext t.start) base N (pre ++ ⟨t.start, n, true⟩ :: post') A ∧
        Settled (⟨t.start, n, true⟩ :: post') ∧ starts false post' = starts false post := by
    intro hs
    rw [h.coalesceNext_same hr ht hs]
    have heta : t = ⟨t.start, t.len, true⟩ := by rw [← ht]
    refine ⟨t.len, post, ?_, hs.setHead ht.symm, rfl⟩
    rw [← heta]
    exact h
  cases post with
  | nil => exact hsame (isChain_singleton t)
  | cons u post =>
    cases hu : u.free with
    | false => exact hsame (isChain_cons_cons.mpr ⟨fun _ => hu, hpost⟩)
    | true =>
      rw [h.coalesceNext_bump hr ht hu]
      refine ⟨t.len + u.len, post, h.absorb ht hu hr.size_lt, hpost.setHead hu.symm, ?_⟩
      rw [starts_cons_of_ne hu]

/-- Coalescing with the previous region. -/
theorem settlePrev (hpre : Settled pre) (hpost : Settled (t :: post)) :
    ∃ T, Layout (s.coalescePrev t.start) base N T A ∧ Settled T ∧
      starts false T = starts false pre ++ starts false post := by
  have hsame : Settled (pre ++ [t]) →
      ∃ T, Layout (s.coalescePrev t.start) base N T A ∧ Settled T ∧
        starts false T = starts false pre ++ starts false post := by
    intro hs
    rw [h.coalescePrev_same hr ht hs]
    refine ⟨_, h, settled_middle.mpr ⟨hs, hpost⟩, ?_⟩
    rw [starts_middle_of_ne ht]
  rcases pre.eq_nil_or_concat with rfl | ⟨k, u, rfl⟩
  · exact hsame (isChain_singleton t)
  · rw [concat_eq_append] at *
    cases hu : u.free with
    | false =>
      refine hsame ?_
      rw [append_assoc]
      refine settled_middle.mpr ⟨hpre, isChain_cons_cons.mpr ⟨fun hf => ?_, isChain_singleton t⟩⟩
      rw [hu] at hf
      simp at hf
    | true =>
      rw [append_assoc] at h
      rw [h.coalescePrev_bump hr hu ht]
      refine ⟨_, h.absorb hu ht hr.size_lt, ?_, ?_⟩
      · exact settled_middle.mpr ⟨hpre.setLast hu.symm, hpost.setHead ht.symm⟩
      · rw [starts_append, starts_append,
          starts_cons_of_ne (t := ⟨u.start, u.len + t.len, true⟩) rfl, starts_cons_of_ne hu]
        simp [starts]

end

end

/-! ### Lists -/

/-- The lists are linked anew over tiles of the same starts and lengths. -/
theorem relink {w : RegionList} {X A' : List Nat} {T' : List Tile} (h : Layout s base N T A)
    (hre : Relinked s s' w X) (htiles : Tiles 0 T' N)
    (hsame : ∀ v ∈ T', ∃ v' ∈ T, v'.start = v.start ∧ v'.len = v.len)
    (hfree : s'.Listed .free (starts true T')) (halloc : s'.Listed .alloc A')
    (htaken : ∀ i ∈ A', i ∈ starts false T') (hnodup : A'.Nodup) : Layout s' base N T' A' := by
  refine ⟨htiles, hfree, halloc, htaken, hnodup, ?_, ?_, hre.max.trans h.max⟩
  · intro v hv
    obtain ⟨v', hv', hs, -⟩ := hsame v hv
    rw [hre.start, ← hs]
    exact h.start v' hv'
  · intro v hv
    obtain ⟨v', hv', hs, hl⟩ := hsame v hv
    rw [hre.length, ← hs, ← hl]
    exact h.length v' hv'

theorem exists_painted {c : Bool} : ∀ v ∈ pre ++ ⟨t.start, t.len, c⟩ :: post,
    ∃ v' ∈ pre ++ t :: post, v'.start = v.start ∧ v'.len = v.len := by
  intro v hv
  rcases mem_middle.mp hv with rfl | hv
  · exact ⟨t, by simp, rfl, rfl⟩
  · exact ⟨v, mem_middle.mpr (.inr hv), rfl, rfl⟩

/-- A region is taken off the free list: its tile is taken. -/
theorem removeFree (h : Layout s base N (pre ++ t :: post) A) (ht : t.free = true) :
    Layout (s.memRegionRemove t.start .free) base N (pre ++ ⟨t.start, t.len, false⟩ :: post) A ∧
      (s.memRegionRemove t.start .free).next t.start = none ∧
      (s.memRegionRemove t.start .free).prev t.start = none := by
  have hF : starts true (pre ++ t :: post) = starts true pre ++ t.start :: starts true post :=
    starts_middle_of_eq ht
  have hfree := h.free
  have hnd := h.starts_nodup true
  rw [hF] at hfree hnd
  obtain ⟨hlist, hre⟩ := remove_listed hfree hnd
  obtain ⟨hp, hn⟩ := hfree.ne_self hnd
  have hself := regtab_remove (w := .free) hp hn t.start
  rw [if_pos rfl] at hself
  refine ⟨?_, by rw [Regions.next, hself], by rw [Regions.prev, hself]⟩
  refine h.relink hre (h.tiles.paint rfl rfl) exists_painted ?_ ?_ ?_ h.nodup
  · rw [starts_middle_of_ne (t := ⟨t.start, t.len, false⟩) rfl]
    exact hlist
  · exact hre.listed h.alloc (by decide) fun i hi => hF ▸ h.disjoint hi
  · intro i hi
    have htaken := h.taken i hi
    rw [starts_middle_of_ne ht, mem_append] at htaken
    rw [starts_middle_of_eq (t := ⟨t.start, t.len, false⟩) rfl, mem_append]
    exact htaken.imp id (mem_cons_of_mem _)

theorem removeAlloc {A₁ A₂ : List Nat} (h : Layout s base N T (A₁ ++ i :: A₂)) :
    Layout (s.memRegionRemove i .alloc) base N T (A₁ ++ A₂) ∧
      (s.memRegionRemove i .alloc).next i = none ∧ (s.memRegionRemove i .alloc).prev i = none := by
  obtain ⟨hlist, hre⟩ := remove_listed h.alloc h.nodup
  obtain ⟨hp, hn⟩ := h.alloc.ne_self h.nodup
  have hself := regtab_remove (w := .alloc) hp hn i
  rw [if_pos rfl] at hself
  have hsub : (A₁ ++ A₂).Sublist (A₁ ++ i :: A₂) := (sublist_cons_self i A₂).append_left A₁
  refine ⟨?_, by rw [Regions.next, hself], by rw [Regions.prev, hself]⟩
  refine h.relink hre h.tiles (fun v hv => ⟨v, hv, rfl, rfl⟩) ?_ hlist ?_ (h.nodup.sublist hsub)
  · exact hre.listed h.free (by decide) fun j hj hA => h.disjoint hA hj
  · exact fun j hj => h.taken j (hsub.subset hj)

section

variable (h : Layout s base N (pre ++ t :: post) A)
include h

/-- The starts before a tile are smaller and those behind it larger. -/
theorem order (c : Bool) :
    (∀ i ∈ starts c pre, i < t.start) ∧ ∀ i ∈ starts c post, t.start < i := by
  constructor
  · intro i hi
    obtain ⟨v, hv, _, rfl⟩ := mem_starts.mp hi
    exact h.tiles.order.1 v hv
  · intro i hi
    obtain ⟨v, hv, _, rfl⟩ := mem_starts.mp hi
    exact h.tiles.order.2 v hv

theorem start_not_mem (c : Bool) : t.start ∉ starts c pre ++ starts c post := by
  intro hx
  obtain ⟨ho₁, ho₂⟩ := h.order c
  rcases mem_append.mp hx with hx | hx
  · exact absurd (ho₁ _ hx) (lt_irrefl _)
  · exact absurd (ho₂ _ hx) (lt_irrefl _)

theorem length_before (c : Bool) : (starts c pre).length ≤ s.max_regions := by
  have h₁ := length_starts_le c pre
  have h₂ := h.tiles.length_le
  rw [length_append] at h₂
  rw [h.max]
  omega

/-- The place of a region on a list of tiles of one colour. -/
theorem place (c : Bool) :
    (∀ i ∈ starts c pre, (s.regtab i).start < (s.regtab t.start).start) ∧
      ∀ i, (starts c post).head? = some i → ¬ (s.regtab i).start < (s.regtab t.start).start := by
  obtain ⟨hlo, hhi⟩ := h.order c
  have hstart : ∀ v ∈ pre ++ t :: post, (s.regtab v.start).start = page base v.start := h.start
  rw [hstart t (by simp)]
  constructor
  · intro i hi
    have hlt := hlo i hi
    obtain ⟨v, hv, _, rfl⟩ := mem_starts.mp hi
    rw [hstart v (mem_append_left _ hv), page_lt_page]
    exact hlt
  · intro i hi
    have hi' := mem_of_mem_head? hi
    have hlt := hhi i hi'
    obtain ⟨v, hv, _, rfl⟩ := mem_starts.mp hi'
    rw [hstart v (by simp [hv]), page_lt_page]
    omega

/-- A region on no list is put on the free list, and coalesces. -/
theorem insertFree (ht : t.free = false)
    (hA : t.start ∉ A) (hn : s.next t.start = none) (hp : s.prev t.start = none) :
    ∃ s₁, s.memRegionInsert t.start .free =
        some ((s₁.coalesceNext t.start).coalescePrev t.start) ∧
      Layout s₁ base N (pre ++ ⟨t.start, t.len, true⟩ :: post) A ∧
      ∀ i, i ≠ t.start → i ∉ starts true pre ++ starts true post → s₁.regtab i = s.regtab i := by
  have hF : starts true (pre ++ t :: post) = starts true pre ++ starts true post :=
    starts_middle_of_ne ht
  have hfree := h.free
  have hnd := h.starts_nodup true
  rw [hF] at hfree hnd
  obtain ⟨hlo, hhi⟩ := h.place true
  obtain ⟨hlist, hre⟩ := linkIn_listed hfree hnd (h.start_not_mem true) hn hp
  have hins := memRegionInsert_eq hfree (h.length_before true) hlo hhi hn hp
  refine ⟨s.linkIn t.start .free (starts true pre) (starts true post), ?_, ?_, ?_⟩
  · have hsame : (s.linkIn t.start .free (starts true pre) (starts true post)).head .free =
        (s.linkIn t.start .free (starts true pre) (starts true post)).regfreelist := rfl
    rw [hins, if_pos hsame]
  · refine h.relink hre (h.tiles.paint rfl rfl) exists_painted ?_ ?_ ?_ h.nodup
    · rw [starts_middle_of_eq (t := ⟨t.start, t.len, true⟩) rfl]
      exact hlist
    · refine hre.listed h.alloc (by decide) fun i hi hX => ?_
      have hdis := h.disjoint hi
      rw [hF] at hdis
      simp only [mem_append, mem_cons, not_or] at hX hdis
      rcases hX with hX | rfl | hX
      · exact hdis.1 hX
      · exact hA hi
      · exact hdis.2 hX
    · intro i hi
      have htaken := h.taken i hi
      rw [starts_middle_of_eq ht, mem_append, mem_cons] at htaken
      rw [starts_middle_of_ne (t := ⟨t.start, t.len, true⟩) rfl, mem_append]
      rcases htaken with htaken | rfl | htaken
      · exact .inl htaken
      · exact absurd hi hA
      · exact .inr htaken
  · intro i hi hX
    refine hre.other i fun hX' => hX ?_
    simp only [mem_append, mem_cons] at hX' ⊢
    tauto

end

theorem insertAlloc (h : Layout s base N (pre ++ t :: post) (starts false pre ++ starts false post))
    (ht : t.free = false) (hn : s.next t.start = none) (hp : s.prev t.start = none) :
    ∃ s₁, s.memRegionInsert t.start .alloc = some s₁ ∧
      Layout s₁ base N (pre ++ t :: post) (starts false (pre ++ t :: post)) := by
  obtain ⟨hlo, hhi⟩ := h.place false
  have hA : starts false (pre ++ t :: post) =
      starts false pre ++ t.start :: starts false post :=
    starts_middle_of_eq ht
  obtain ⟨hlist, hre⟩ := linkIn_listed h.alloc h.nodup (h.start_not_mem false) hn hp
  have hins := memRegionInsert_eq h.alloc (h.length_before false) hlo hhi hn hp
  -- the heads of the two lists are different, so the region does not coalesce
  have hheads : (s.linkIn t.start .alloc (starts false pre) (starts false post)).head .alloc ≠
      (s.linkIn t.start .alloc (starts false pre) (starts false post)).regfreelist := by
    intro he
    have hfree : (s.linkIn t.start .alloc (starts false pre) (starts false post)).regfreelist =
        s.regfreelist := hre.head .free (by decide)
    have hcur := cur_eq hlist
    have hcurf := cur_eq h.free
    rw [he, hfree] at hcur
    obtain ⟨c, hc⟩ : ∃ c, (starts false pre ++ t.start :: starts false post).head? = some c := by
      cases starts false pre <;> simp
    have hcf : c ∈ starts true (pre ++ t :: post) :=
      mem_of_mem_head? (hcurf.symm.trans (hcur.trans hc))
    have hca : c ∈ starts false (pre ++ t :: post) := hA ▸ mem_of_mem_head? hc
    exact h.tiles.starts_disjoint hcf hca
  refine ⟨s.linkIn t.start .alloc (starts false pre) (starts false post), ?_, ?_⟩
  · rw [hins, if_neg hheads]
  · refine h.relink hre h.tiles (fun v hv => ⟨v, hv, rfl, rfl⟩) ?_ (hA ▸ hlist) (fun i hi => hi)
      (h.starts_nodup false)
    exact hre.listed h.free (by decide) fun i hi hX => h.tiles.starts_disjoint hi (hA ▸ hX)

/-- The layout depends on the links of the listed regions, and on their starts and lengths. -/
theorem congr (h : Layout s base N T A) {T' : List Tile} (htiles : Tiles 0 T' N)
    (hfree : starts true T' = starts true T) (htaken : ∀ i ∈ A, i ∈ starts false T')
    (hhead : ∀ v, s'.head v = s.head v)
    (hlists : ∀ i, i ∈ starts true T ∨ i ∈ A → s'.next i = s.next i ∧ s'.prev i = s.prev i)
    (hstart : ∀ t ∈ T', (s'.regtab t.start).start = page base t.start)
    (hlength : ∀ t ∈ T', (s'.regtab t.start).length = PAGE_SIZE * t.len)
    (hmax : s'.max_regions = s.max_regions) : Layout s' base N T' A where
  tiles := htiles
  free := by
    unfold Regions.Listed
    rw [hfree, hhead]
    exact HeadedList.Listed.congr h.free (fun i hi => (hlists i (.inl hi)).1)
      fun i hi => (hlists i (.inl hi)).2
  alloc := by
    unfold Regions.Listed
    rw [hhead]
    exact HeadedList.Listed.congr h.alloc (fun i hi => (hlists i (.inr hi)).1)
      fun i hi => (hlists i (.inr hi)).2
  taken := htaken
  nodup := h.nodup
  start := hstart
  length := hlength
  max := hmax.trans h.max

/-- A taken region on no list is split: the remainder has the descriptor of its first page. -/
theorem split (hr : Range base N) (h : Layout s base N (pre ++ t :: post) A) (ht : t.free = false)
    (hA : t.start ∉ A) (hk : 0 < k) (hkt : k < t.len) :
    ∃ s₁, s.memRegionSplit t.start (PAGE_SIZE * k) = (s₁, .remainder (t.start + k)) ∧
      Layout s₁ base N (pre ++ ⟨t.start, k, false⟩ :: ⟨t.start + k, t.len - k, false⟩ :: post) A ∧
      s₁.next t.start = s.next t.start ∧ s₁.prev t.start = s.prev t.start ∧
      s₁.next (t.start + k) = none ∧ s₁.prev (t.start + k) = none ∧ t.start + k ∉ A ∧
      ∀ v ∈ pre ++ t :: post, s₁.owner v.start = s.owner v.start := by
  have htmem : t ∈ pre ++ t :: post := by simp
  obtain ⟨htpos, htN⟩ := h.stop_le htmem
  have hsize := hr.size_lt
  have hround : roundpage (PAGE_SIZE * k) = PAGE_SIZE * k := by
    unfold roundpage add32 PAGE_SIZE at *
    omega
  have hlen := h.length t htmem
  have hstart := h.start t htmem
  have hpage : add32 (page base t.start) (PAGE_SIZE * k) = page base (t.start + k) := by
    have hlt := hr.page_lt (i := t.start + k) (by omega)
    rw [add32_eq ?_] <;> unfold page at * <;> rw [Nat.mul_add] at * <;> omega
  have hdisc : s.memRegionDiscover (page base (t.start + k)) = t.start + k :=
    hr.discover (by omega) (h.base_eq hr)
  have hrest : sub32 (PAGE_SIZE * t.len) (PAGE_SIZE * k) = PAGE_SIZE * (t.len - k) := by
    have hle : PAGE_SIZE * t.len ≤ PAGE_SIZE * N := Nat.mul_le_mul_left _ (by omega)
    rw [sub32_eq (Nat.mul_le_mul_left _ hkt.le), Nat.mul_sub]
  have hsplit : s.memRegionSplit t.start (PAGE_SIZE * k) =
      ((s.modify (t.start + k) fun _ =>
        { start := page base (t.start + k), length := PAGE_SIZE * (t.len - k) }).modify t.start
          fun r => { r with length := PAGE_SIZE * k }, .remainder (t.start + k)) := by
    have hlt : PAGE_SIZE * k < PAGE_SIZE * t.len := Nat.mul_lt_mul_of_pos_left hkt (by decide)
    unfold Regions.memRegionSplit
    dsimp only
    rw [hround, hlen, if_neg (not_lt.mpr hlt.le), if_neg (Nat.ne_of_gt hlt), hstart, hpage, hdisc,
      hrest]
  have htiles : Tiles 0
      (pre ++ (⟨t.start, k, false⟩ : Tile) :: ⟨t.start + k, t.len - k, false⟩ :: post) N := by
    refine h.tiles.split rfl rfl ?_ hk (by dsimp only; omega)
    unfold stop
    dsimp only
    omega
  -- the remainder's page is inside of the tile, so no tile starts there
  have hinside : ∀ v ∈ pre ++ t :: post, v.start ≠ t.start + k := by
    intro v hv he
    obtain ⟨hvpos, _⟩ := h.stop_le hv
    have huniq := h.tiles.unique hv htmem (x := t.start + k) (by unfold stop; omega)
      (by unfold stop; omega)
    rw [huniq] at he
    omega
  have hnotF : ∀ i, i ∈ starts true (pre ++ t :: post) ∨ i ∈ A →
      i ≠ t.start ∧ i ≠ t.start + k := by
    rintro i (hi | hi)
    · obtain ⟨v, hv, hvf, rfl⟩ := mem_starts.mp hi
      refine ⟨fun he => ?_, hinside v hv⟩
      rw [h.tiles.eq_of_start hv htmem he, ht] at hvf
      simp at hvf
    · refine ⟨fun he => hA (he ▸ hi), fun he => ?_⟩
      obtain ⟨v, hv, _, rfl⟩ := mem_starts.mp (h.taken i hi)
      exact hinside v hv he
  have hold : ∀ v ∈ pre ++ ⟨t.start + k, t.len - k, false⟩ :: post, v.start ≠ t.start + k →
      v ∈ pre ++ t :: post := by
    intro v hv hne
    rcases mem_middle.mp hv with rfl | hv
    · exact absurd rfl hne
    · exact mem_middle.mpr (.inr hv)
  have hne : t.start ≠ t.start + k := by omega
  refine ⟨_, hsplit, ?_, ?_, ?_, ?_, ?_, ?_, ?_⟩
  · refine h.congr htiles ?_ ?_ (by simp) ?_ ?_ ?_ (by simp)
    · simp [starts, ht]
    · intro i hi
      have htaken := h.taken i hi
      rw [starts_middle_of_eq ht] at htaken
      rw [starts_middle_of_eq (t := ⟨t.start, k, false⟩) rfl,
        starts_cons_of_eq (t := ⟨t.start + k, t.len - k, false⟩) rfl]
      simp only [mem_append, mem_cons] at htaken ⊢
      tauto
    · intro i hi
      obtain ⟨h₁, h₂⟩ := hnotF i hi
      rw [Regions.next, Regions.prev, regtab_modify, if_neg h₁, regtab_modify, if_neg h₂]
      exact ⟨rfl, rfl⟩
    · intro v hv
      rw [regtab_modify, regtab_modify]
      rcases mem_middle.mp hv with rfl | hv
      · rw [if_pos rfl, if_neg hne]
        exact hstart
      · by_cases hv₂ : v.start = t.start + k
        · rw [if_neg (by omega), if_pos hv₂, hv₂]
        · rw [if_neg hv₂]
          split <;> exact h.start v (hold v hv hv₂)
    · intro v hv
      rw [regtab_modify, regtab_modify]
      rcases mem_middle.mp hv with rfl | hv
      · rw [if_pos rfl]
      · have hvt := htiles.ne_start hv
        rw [if_neg hvt]
        by_cases hv₂ : v.start = t.start + k
        · rw [if_pos hv₂]
          have hsame := htiles.eq_of_start (u := ⟨t.start + k, t.len - k, false⟩)
            (mem_middle.mpr (.inr hv)) (by simp) hv₂
          rw [hsame]
        · rw [if_neg hv₂]
          exact h.length v (hold v hv hv₂)
  · rw [Regions.next, regtab_modify, if_pos rfl, regtab_modify, if_neg hne]
  · rw [Regions.prev, regtab_modify, if_pos rfl, regtab_modify, if_neg hne]
  · rw [Regions.next, regtab_modify, if_neg hne.symm, regtab_modify, if_pos rfl]
  · rw [Regions.prev, regtab_modify, if_neg hne.symm, regtab_modify, if_pos rfl]
  · intro hi
    exact (hnotF _ (Or.inr hi)).2 rfl
  · intro v hv
    simp only [Regions.owner_modify, implies_true]
    rw [Regions.owner, regtab_modify, if_neg (hinside v hv), Regions.owner]

/-! ### The calls -/

end Layout

namespace Regions

variable {p cur : Option Nat} {l : List Nat}

/-- The loop of `memRegionAlloc` comes to an end, at the first region that is longer. -/
theorem findLonger_eq (h : HeadedList.Listed s.next s.prev p cur l none) {fuel : Nat}
    (hfuel : l.length < fuel) (nbytes : Nat) :
    s.findLonger nbytes fuel cur = some (l.find? fun i => nbytes < (s.regtab i).length) := by
  induction l, fuel, hfuel using fuel_induction generalizing p cur with
  | nil fuel =>
    obtain rfl : cur = none := h
    rfl
  | cons i l fuel hfuel ih =>
    obtain ⟨rfl, -, hrest⟩ := h
    rw [findLonger, find?_cons]
    by_cases hlen : (s.regtab i).length > nbytes
    · rw [if_pos hlen, decide_eq_true hlen]
    · rw [if_neg hlen, decide_eq_false hlen]
      exact ih hrest

end Regions

/-- The regions tile the memory, no two free ones bump, and all that are taken are allocated. -/
structure Tidy (s : Regions) (base N : Nat) (T : List Tile) : Prop
    extends Layout s base N T (starts false T) where
  settled : Settled T

namespace Tidy

/-- What an allocation of `k` pages returns: nothing, or a region of pages that were free. -/
def Allocated (base N k : Nat) (T T' : List Tile) (r : Regions × Option Nat) : Prop :=
  (r.2 = none ∧ T' = T) ∨
    ∃ i, r.2 = some i ∧ (r.1.regtab i).start = page base i ∧
      (r.1.regtab i).length = PAGE_SIZE * k ∧ i + k ≤ N ∧
      (∀ j, i ≤ j → j < i + k → Free T j) ∧ ∀ j, Free T' j ↔ Free T j ∧ ¬ (i ≤ j ∧ j < i + k)

section

variable (h : Tidy s base N T)
include h

/-- The loop of `memRegionAlloc` finds the lowest free region that is longer. -/
theorem findLonger_eq (k : Nat) :
    s.findLonger (PAGE_SIZE * k) (s.max_regions + 1) s.regfreelist =
      some ((T.find? (fits (k + 1))).map start) := by
  have hfuel : (starts true T).length < s.max_regions + 1 := by
    have hle := length_starts_le true T
    have hlen := h.tiles.length_le
    rw [h.max]
    omega
  refine (Regions.findLonger_eq h.free hfuel (PAGE_SIZE * k)).trans (congrArg some ?_)
  rw [starts, find?_map, find?_filter]
  rw [← head?_filter, ← head?_filter, filter_congr]
  intro t ht
  have hlt : PAGE_SIZE * k < PAGE_SIZE * t.len ↔ k + 1 ≤ t.len := Nat.mul_lt_mul_left (by decide)
  simp [h.length t ht, fits, hlt]

variable (hr : Range base N)
include hr

/-- **`memRegionAlloc` returns**, with the front of the lowest free region that is longer. -/
theorem memRegionAlloc_tiles (tid : Int) (hk : 0 < k)
    {nbytes : Nat} (hround : roundpage nbytes = PAGE_SIZE * k) :
    ∃ r, s.memRegionAlloc tid nbytes = some r ∧
      match T.find? (fits (k + 1)) with
      | none => r = (s, none)
      | some t => r.2 = some t.start ∧ (∀ u ∈ T, u.start ≠ t.start →
          r.1.owner u.start = s.owner u.start) ∧ ∃ pre post, T = pre ++ t :: post ∧
        Tidy r.1 base N (pre ++ ⟨t.start, k, false⟩ :: ⟨t.start + k, t.len - k, true⟩ :: post) := by
  unfold Regions.memRegionAlloc
  dsimp only
  rw [hround, h.findLonger_eq]
  rcases hfind : T.find? (fits (k + 1)) with _ | t
  · exact ⟨_, rfl, rfl⟩
  have ht := mem_of_find?_eq_some hfind
  obtain ⟨htf, hkt⟩ := fits_iff.mp (find?_some hfind)
  have hi : t.start ∈ starts true T := mem_starts.mpr ⟨t, ht, htf, rfl⟩
  obtain ⟨pre, post, rfl⟩ := append_of_mem ht
  have hA : starts false (pre ++ t :: post) = starts false pre ++ starts false post :=
    starts_middle_of_ne htf
  have hlay := h.toLayout
  rw [hA] at hlay
  -- off the free list
  obtain ⟨h₁, hn₁, hp₁⟩ := hlay.removeFree htf
  have hnotA : t.start ∉ starts false pre ++ starts false post := by
    rw [← hA]
    exact h.tiles.starts_disjoint hi
  generalize hs₁ : s.memRegionRemove t.start .free = s₁ at h₁ hn₁ hp₁
  have hlen₁ : (s₁.regtab t.start).length = PAGE_SIZE * t.len :=
    h₁.length ⟨t.start, t.len, false⟩ (by simp)
  -- split
  obtain ⟨s₂, hsplit, h₂, hn₂, hp₂, hnr, hpr, hrA, howner⟩ := h₁.split hr rfl hnotA hk hkt
  -- the remainder goes back to the free list, where it has no neighbour
  have happ : ∀ a b : Tile, pre ++ a :: b :: post = (pre ++ [a]) ++ b :: post := by simp
  rw [happ] at h₂
  obtain ⟨s₃, hins₃, h₃, hoth₃⟩ := h₂.insertFree rfl hrA hnr hpr
  dsimp only at hins₃ h₃ hoth₃
  have hset : Settled (pre ++ t :: post) := h.settled
  have hset' := settled_middle.mp hset
  have hnextsame := h₃.coalesceNext_same hr rfl (hset'.2.setHead htf.symm)
  have hprevsame := h₃.coalescePrev_same hr rfl (by
    rw [append_assoc]
    exact settled_taken hset.left (isChain_singleton _) rfl)
  rw [hnextsame, hprevsame] at hins₃
  -- the region goes to the allocated list
  have hself₃ : s₃.regtab t.start = s₂.regtab t.start := by
    refine hoth₃ _ (by omega) ?_
    intro hmem
    have hin : t.start ∈ starts true (pre ++ post) := by
      simpa [starts] using hmem
    obtain ⟨v, hv, _, he⟩ := mem_starts.mp hin
    exact h.tiles.ne_start hv he
  rw [← happ] at h₃
  obtain ⟨s₄, hins₄, h₄⟩ := h₃.insertAlloc rfl (by rw [Regions.next, hself₃]; exact hn₂.trans hn₁)
    (by rw [Regions.prev, hself₃]; exact hp₂.trans hp₁)
  -- all together
  have hrest : s₁.returnRest t.start (PAGE_SIZE * k) = some s₃ := by
    have hlt : PAGE_SIZE * k < PAGE_SIZE * t.len := by
      unfold PAGE_SIZE
      omega
    unfold Regions.returnRest
    rw [hlen₁, if_pos hlt, hsplit]
    exact hins₃
  refine ⟨(s₄.modify t.start fun r => { r with thread_id := tid }, some t.start), ?_, rfl, ?_, pre,
    post, rfl, ⟨?_, ?_⟩⟩
  · rw [Option.map_some]
    dsimp only
    rw [hs₁, hrest, Option.bind_some, hins₄]
    rfl
  · intro u hu hne
    have hu' : u ∈ pre ++ ⟨t.start, t.len, false⟩ :: post := by
      rcases mem_middle.mp hu with rfl | hu
      · exact absurd rfl hne
      · exact mem_middle.mpr (.inr hu)
    calc (s₄.modify t.start fun r => { r with thread_id := tid }).owner u.start
      _ = s₄.owner u.start := by rw [Regions.owner, regtab_modify, if_neg hne, Regions.owner]
      _ = s₂.owner u.start := by rw [Regions.owner_insert hins₄, Regions.owner_insert hins₃]
      _ = s.owner u.start := by rw [howner u hu', ← hs₁, Regions.owner_remove]
  · generalize hs₅ : (s₄.modify t.start fun r => { r with thread_id := tid }) = s₅
    have hkeep : ∀ i, (s₅.regtab i).next = (s₄.regtab i).next ∧
        (s₅.regtab i).prev = (s₄.regtab i).prev ∧ (s₅.regtab i).start = (s₄.regtab i).start ∧
        (s₅.regtab i).length = (s₄.regtab i).length := by
      intro i
      rw [← hs₅, regtab_modify]
      split <;> exact ⟨rfl, rfl, rfl, rfl⟩
    refine h₄.congr h₄.tiles rfl h₄.taken ?_ (fun i _ => ⟨(hkeep i).1, (hkeep i).2.1⟩)
      (fun v hv => (hkeep _).2.2.1.trans (h₄.start v hv))
      (fun v hv => (hkeep _).2.2.2.trans (h₄.length v hv)) ?_
    · intro w
      rw [← hs₅, head_modify]
    · rw [← hs₅, max_modify]
  · exact settled_taken hset.left (hset'.2.setHead htf.symm) rfl

/-- **`memRegionAlloc` returns**, and the regions are tidy. -/
theorem memRegionAlloc (tid : Int) (hk : 0 < k)
    {nbytes : Nat} (hround : roundpage nbytes = PAGE_SIZE * k) :
    ∃ r T', s.memRegionAlloc tid nbytes = some r ∧ Tidy r.1 base N T' ∧
      Allocated base N k T T' r := by
  obtain ⟨r, hr', hres⟩ := h.memRegionAlloc_tiles hr tid hk hround
  cases hfind : T.find? (fits (k + 1)) with
  | none =>
    rw [hfind] at hres
    exact ⟨r, T, hr', by rw [hres]; exact h, .inl ⟨by rw [hres], rfl⟩⟩
  | some t =>
    rw [hfind] at hres
    obtain ⟨hi, -, pre, post, rfl, h'⟩ := hres
    obtain ⟨htf, hkt⟩ := fits_iff.mp (find?_some hfind)
    have ht : t ∈ pre ++ t :: post := by simp
    have hmem : (⟨t.start, k, false⟩ : Tile) ∈
        pre ++ ⟨t.start, k, false⟩ :: ⟨t.start + k, t.len - k, true⟩ :: post := by simp
    have hstop := h.toLayout.stop_le ht
    refine ⟨r, _, hr', h', .inr ⟨t.start, hi, h'.start ⟨t.start, k, false⟩ hmem,
      h'.length ⟨t.start, k, false⟩ hmem, by omega, ?_, fun j => h.tiles.free_take htf hkt⟩⟩
    intro j hlo hhi
    refine ⟨t, ht, htf, hlo, ?_⟩
    unfold stop
    omega

/-- One region is reclaimed: it leaves the allocated list and joins the free regions around it. -/
theorem reclaimOne {A₁ A₂ : List Nat} (hA : starts false T = A₁ ++ i :: A₂) :
    ∃ s' T', (s.memRegionRemove i .alloc).memRegionInsert i .free = some s' ∧ Tidy s' base N T' ∧
      starts false T' = A₁ ++ A₂ := by
  have hlay := h.toLayout
  rw [hA] at hlay
  obtain ⟨h₁, hn₁, hp₁⟩ := hlay.removeAlloc
  have hi : i ∈ starts false T := by simp [hA]
  obtain ⟨t, ht, htf, rfl⟩ := mem_starts.mp hi
  obtain ⟨pre, post, rfl⟩ := append_of_mem ht
  have hnd := hlay.nodup
  have hnotA : t.start ∉ A₁ ++ A₂ := (nodup_cons.mp (nodup_middle.mp hnd)).1
  have hset : Settled (pre ++ t :: post) := h.settled
  obtain ⟨s₂, hins, h₂, _⟩ := h₁.insertFree htf hnotA hn₁ hp₁
  obtain ⟨n, post', h₃, hs₃, hf₃⟩ := h₂.settleNext hr rfl (settled_middle.mp hset).2.tail
  obtain ⟨T', h₄, hs₄, hf₄⟩ := h₃.settlePrev hr rfl hset.left hs₃
  -- what is left on the allocated list are the taken tiles
  have htaken : starts false T' = A₁ ++ A₂ := by
    rw [starts_middle_of_eq htf] at hA
    have herase := congrArg (List.erase · t.start) hA
    have hP : t.start ∉ starts false pre := fun hm => absurd ((h.toLayout.order false).1 _ hm)
      (lt_irrefl _)
    have hA₁ : t.start ∉ A₁ := fun hm => hnotA (mem_append_left _ hm)
    simp only [erase_append_right _ hP, erase_append_right _ hA₁, erase_cons_head] at herase
    rw [hf₄, hf₃, herase]
  exact ⟨_, T', hins, ⟨htaken ▸ h₄, hs₄⟩, htaken⟩

theorem reclaimLoop (tid : Int) {B C : List Nat}
    (hA : starts false T = B ++ C) {fuel : Nat} (hfuel : C.length < fuel) :
    ∃ s' T', Regions.reclaimLoop tid fuel C.head? s = some s' ∧ Tidy s' base N T' := by
  induction C, fuel, hfuel using fuel_induction generalizing s T B with
  | nil fuel =>
    exact ⟨s, T, rfl, h⟩
  | cons i C fuel hfuel ih =>
    have halloc := h.alloc
    rw [hA] at halloc
    have hnext : (s.regtab i).next = C.head? := (links halloc).1
    rw [List.head?_cons, Regions.reclaimLoop, hnext]
    by_cases htid : (s.regtab i).thread_id = tid
    · obtain ⟨s₁, T₁, hs₁, h₁, hB⟩ := h.reclaimOne hr hA
      rw [if_pos htid, hs₁, Option.bind_some]
      exact ih h₁ hB
    · rw [if_neg htid]
      refine ih h (B := B ++ [i]) ?_
      rw [hA, append_assoc]
      rfl

/-- **`memRegionReclaim` returns**, and the regions are tidy. -/
theorem memRegionReclaim (tid : Int) :
    ∃ s' T', s.memRegionReclaim tid = some s' ∧ Tidy s' base N T' := by
  have hlen : (starts false T).length < s.max_regions + 1 := by
    have h₁ := length_starts_le false T
    have h₂ := h.tiles.length_le
    rw [h.max]
    omega
  have hhead : s.regalloclist = (starts false T).head? := cur_eq h.alloc
  unfold Regions.memRegionReclaim
  rw [hhead]
  exact h.reclaimLoop hr tid (B := []) rfl hlen

end

end Tidy

/-! ## Calls in any order -/

/-- The calls of the allocator. -/
inductive RegionCall
  | alloc (tid : Int) (nbytes : Nat)
  | reclaim (tid : Int)

/-- A call, if it returns. -/
def Regions.call (s : Regions) : RegionCall → Option Regions
  | .alloc tid nbytes => (s.memRegionAlloc tid nbytes).map Prod.fst
  | .reclaim tid => s.memRegionReclaim tid

/-- Some memory is asked for, and rounding to pages does not wrap. -/
def RegionCall.Ok : RegionCall → Prop
  | .alloc _ nbytes => 0 < nbytes ∧ 4095 + nbytes < 2 ^ 32
  | .reclaim _ => True

instance : ∀ c : RegionCall, Decidable c.Ok := by
  rintro ⟨⟩ <;> unfold RegionCall.Ok <;> infer_instance

/-- The region allocator under any sequence of calls by any threads. -/
def regionMachine : Machine Regions RegionCall where
  enabled _ c := c.Ok
  next s c := (s.call c).getD s

instance (s : Regions) (c : RegionCall) : Decidable (regionMachine.enabled s c) :=
  inferInstanceAs (Decidable c.Ok)

theorem Tidy.call (hr : Range base N) (h : Tidy s base N T) {c : RegionCall} (hc : c.Ok) :
    ∃ s' T', s.call c = some s' ∧ Tidy s' base N T' := by
  cases c with
  | alloc tid nbytes =>
    obtain ⟨hpos, hlt⟩ := hc
    have hround : roundpage nbytes = PAGE_SIZE * ((4095 + nbytes) / 4096) := by
      unfold roundpage add32 PAGE_SIZE
      omega
    obtain ⟨r, T', hs, h', _⟩ := h.memRegionAlloc hr tid (by omega) hround
    exact ⟨r.1, T', by rw [Regions.call, hs]; rfl, h'⟩
  | reclaim tid => exact h.memRegionReclaim hr tid

/-- What `memRegionInit` manages: whole pages. -/
theorem tidy_init {memory_start memory_size : Nat} (hr : Range memory_start N)
    (hN : memory_size / PAGE_SIZE = N) :
    Tidy (Regions.memRegionInit memory_start memory_size) memory_start N [⟨0, N, true⟩] := by
  have hlt := hr.lt
  have hseg := hr.segment
  obtain ⟨q, hq⟩ := hr.aligned
  have hsize : sub32 (truncpage (add32 memory_start memory_size)) memory_start =
      PAGE_SIZE * N := by
    unfold sub32 truncpage add32 PAGE_SIZE at *
    omega
  have hround : roundpage memory_start = memory_start := by
    unfold roundpage add32 PAGE_SIZE at *
    omega
  refine ⟨?_, isChain_singleton _⟩
  unfold Regions.memRegionInit
  rw [hsize, hround]
  exact
    { tiles := ⟨rfl, hr.pos, by simp [Tiles, stop]⟩
      free := ⟨rfl, rfl, rfl⟩
      alloc := rfl
      taken := by simp [starts]
      nodup := by simp [starts]
      start := by
        intro t ht
        obtain rfl := mem_singleton.mp ht
        simp [store, page]
      length := by
        intro t ht
        obtain rfl := mem_singleton.mp ht
        simp [store]
      max := Nat.mul_div_cancel_left N (by decide) }

/-! ## The invariant -/

/-- **The invariant of the region allocator**: the free and the allocated list are linked in both
directions and in the order of addresses, and their regions are whole pages that partition the
managed memory, each with the descriptor of its first page; no two free regions are adjacent. -/
structure Partitioned (s : Regions) (base size : Nat) (F A : List Nat) : Prop where
  free : s.Listed .free F
  alloc : s.Listed .alloc A
  inverse : ∀ l, l = F ∨ l = A → ∀ i ∈ l, ∀ j ∈ l, s.next i = some j ↔ s.prev j = some i
  sorted : ∀ l, l = F ∨ l = A → l.Pairwise fun i j => (s.regtab i).start < (s.regtab j).start
  slot : ∀ i ∈ F ++ A, (s.regtab i).start = base + PAGE_SIZE * i
  aligned : ∀ i ∈ F ++ A, PAGE_SIZE ∣ (s.regtab i).start ∧ PAGE_SIZE ∣ (s.regtab i).length
  disjoint : ∀ i ∈ F ++ A, ∀ j ∈ F ++ A, i ≠ j → ∀ x,
    ¬ (((s.regtab i).start ≤ x ∧ x < (s.regtab i).start + (s.regtab i).length) ∧
      ((s.regtab j).start ≤ x ∧ x < (s.regtab j).start + (s.regtab j).length))
  cover : ∀ x, (base ≤ x ∧ x < base + size) ↔
    ∃ i ∈ F ++ A, (s.regtab i).start ≤ x ∧ x < (s.regtab i).start + (s.regtab i).length
  apart : ∀ i ∈ F, ∀ j ∈ F, (s.regtab i).start + (s.regtab i).length ≠ (s.regtab j).start

theorem Tidy.partitioned (hr : Range base N) (h : Tidy s base N T) :
    Partitioned s base (PAGE_SIZE * N) (starts true T) (starts false T) := by
  -- a region is a tile
  have htile : ∀ i, i ∈ starts true T ++ starts false T ↔ ∃ t ∈ T, t.start = i := by
    intro i
    rw [mem_append, mem_starts, mem_starts]
    constructor
    · rintro (⟨t, ht, _, hi⟩ | ⟨t, ht, _, hi⟩) <;> exact ⟨t, ht, hi⟩
    · rintro ⟨t, ht, hi⟩
      cases hf : t.free
      · exact .inr ⟨t, ht, hf, hi⟩
      · exact .inl ⟨t, ht, hf, hi⟩
  have hstart := h.start
  have hlength := h.length
  have hpages : ∀ t ∈ T, ∀ x, (s.regtab t.start).start ≤ x ∧
      x < (s.regtab t.start).start + (s.regtab t.start).length ↔
      base ≤ x ∧ t.start ≤ (x - base) / PAGE_SIZE ∧ (x - base) / PAGE_SIZE < t.stop := by
    intro t ht x
    rw [hstart t ht, hlength t ht]
    unfold page PAGE_SIZE stop
    omega
  refine
    { free := h.free
      alloc := h.alloc
      inverse := ?_
      sorted := ?_
      slot := ?_
      aligned := ?_
      disjoint := ?_
      cover := ?_
      apart := ?_ }
  · rintro l (rfl | rfl) i hi j hj
    · exact inverse h.free hi hj
    · exact inverse h.alloc hi hj
  · have hsorted : ∀ c, (starts c T).Pairwise fun i j =>
        (s.regtab i).start < (s.regtab j).start := by
      intro c
      refine (h.tiles.starts_pairwise c).imp_of_mem ?_
      intro i j hi hj hij
      obtain ⟨t, ht, _, rfl⟩ := mem_starts.mp hi
      obtain ⟨u, hu, _, rfl⟩ := mem_starts.mp hj
      rw [hstart t ht, hstart u hu, page_lt_page]
      exact hij
    rintro l (rfl | rfl)
    · exact hsorted true
    · exact hsorted false
  · intro i hi
    obtain ⟨t, ht, rfl⟩ := (htile i).mp hi
    exact hstart t ht
  · intro i hi
    obtain ⟨t, ht, rfl⟩ := (htile i).mp hi
    rw [hstart t ht, hlength t ht]
    exact ⟨(Nat.dvd_add_right hr.aligned).mpr (Nat.dvd_mul_right _ _), Nat.dvd_mul_right _ _⟩
  · intro i hi j hj hij x ⟨hx, hx'⟩
    obtain ⟨t, ht, rfl⟩ := (htile i).mp hi
    obtain ⟨u, hu, rfl⟩ := (htile j).mp hj
    have h₁ := ((hpages t ht x).mp hx).2
    have h₂ := ((hpages u hu x).mp hx').2
    exact hij (congrArg start (h.tiles.unique ht hu h₁ h₂))
  · intro x
    have hcov := h.tiles.cover (x := (x - base) / PAGE_SIZE)
    constructor
    · rintro ⟨hlo, hhi⟩
      obtain ⟨t, ht, htx⟩ := hcov.mp (by unfold PAGE_SIZE at *; omega)
      exact ⟨t.start, (htile _).mpr ⟨t, ht, rfl⟩, (hpages t ht x).mpr ⟨hlo, htx⟩⟩
    · rintro ⟨i, hi, hx⟩
      obtain ⟨t, ht, rfl⟩ := (htile i).mp hi
      obtain ⟨hlo, htx⟩ := (hpages t ht x).mp hx
      have := (hcov.mpr ⟨t, ht, htx⟩).2
      unfold PAGE_SIZE at *
      omega
  · intro i hi j hj
    obtain ⟨t, ht, htf, rfl⟩ := mem_starts.mp hi
    obtain ⟨u, hu, huf, rfl⟩ := mem_starts.mp hj
    have hne := h.tiles.not_adjacent h.settled ht hu htf huf
    rw [hstart t ht, hlength t ht, hstart u hu]
    unfold page PAGE_SIZE
    unfold stop at hne
    omega

/-- **The regions partition the managed memory** after any sequence of calls, if there is at least
one page and the pages do not cross a boundary of the physical address mask; and every call
returns. -/
theorem regions_partition_memory {memory_start memory_size : Nat}
    (haligned : PAGE_SIZE ∣ memory_start) (hlt : memory_start < 2 ^ 32)
    (hpage : PAGE_SIZE ≤ memory_size)
    (hsegment : memory_start % 2 ^ 29 + truncpage memory_size ≤ 2 ^ 29)
    {calls : List RegionCall} {s : Regions}
    (r : regionMachine.Run (Regions.memRegionInit memory_start memory_size) calls s) :
    (∃ F A, Partitioned s memory_start (truncpage memory_size) F A) ∧
      ∀ c, c.Ok → (s.call c).isSome := by
  have htrunc : truncpage memory_size = PAGE_SIZE * (memory_size / PAGE_SIZE) := by
    rw [truncpage, Nat.mul_comm]
  have hr : Range memory_start (memory_size / PAGE_SIZE) :=
    ⟨haligned, hlt, htrunc ▸ hsegment, Nat.div_pos hpage (by decide)⟩
  have h : ∃ T, Tidy s memory_start (memory_size / PAGE_SIZE) T := by
    refine r.invariant (I := fun s => ∃ T, Tidy s memory_start (memory_size / PAGE_SIZE) T) ?_
      ⟨_, tidy_init hr rfl⟩
    rintro s c ⟨T, h⟩ hc
    obtain ⟨s', T', hs', h'⟩ := h.call hr hc
    refine ⟨T', ?_⟩
    change Tidy ((s.call c).getD s) _ _ T'
    rw [hs']
    exact h'
  obtain ⟨T, h⟩ := h
  refine ⟨⟨_, _, htrunc ▸ h.partitioned hr⟩, fun c hc => ?_⟩
  obtain ⟨s', _, hs', _⟩ := h.call hr hc
  rw [hs']
  rfl

/-- Two threads allocate regions of two pages and of one page, and the first one ends. -/
def firstReclaimed : List RegionCall := [.alloc 1 5000, .alloc 2 100, .reclaim 1]

/-- Five pages of memory after that. -/
theorem regions_partition_memory_reclaimed :
    ∃ F A, Partitioned
      (regionMachine.after (Regions.memRegionInit 0x80100000 0x5800) firstReclaimed)
      0x80100000 (truncpage 0x5800) F A :=
  (regions_partition_memory (by decide) (by decide) (by decide) (by decide)
    (Machine.run_after (by decide))).1

/-- Three pages, the second of which starts at a multiple of 2²⁹: a region of one page is split off,
and the remainder gets the descriptor 917505 of a table of three. -/
theorem remainder_beyond_the_table :
    ∃ s, regionMachine.Run (Regions.memRegionInit 0x1FFFF000 0x3000) [.alloc 1 1] s ∧
      s.regfreelist = some 917505 ∧ s.max_regions = 3 ∧
      ¬ ∃ F A, Partitioned s 0x1FFFF000 (truncpage 0x3000) F A := by
  have hrun : regionMachine.Enables (Regions.memRegionInit 0x1FFFF000 0x3000) [.alloc 1 1] := by
    decide
  generalize hs : regionMachine.after (Regions.memRegionInit 0x1FFFF000 0x3000) [.alloc 1 1] = s
  have hhead : s.regfreelist = some 917505 := by
    rw [← hs]
    decide
  have hstart : (s.regtab 917505).start = 0x20000000 := by
    rw [← hs]
    decide
  refine ⟨s, hs ▸ Machine.run_after hrun, hhead, ?_, ?_⟩
  · rw [← hs]
    decide
  · rintro ⟨F, A, h⟩
    have hcur : s.regfreelist = F.head? := cur_eq h.free
    rw [hhead] at hcur
    have hmem : 917505 ∈ F ++ A := mem_append_left _ (mem_of_mem_head? hcur.symm)
    have hslot := h.slot 917505 hmem
    omega

/-! ## A request that fits exactly -/

/-- **What a request of `k` pages is for**: the front of the lowest free region that has as many,
the rest of which stays free, and nothing only if there is none. The other regions are those that
were there, with their threads. -/
def Serves (s : Regions) (base N k : Nat) (T : List Tile) (r : Regions × Option Nat) : Prop :=
  match T.find? (Tile.fits k) with
  | none => r = (s, none)
  | some t => r.2 = some t.start ∧
    (∀ u ∈ T, u.start ≠ t.start → r.1.owner u.start = s.owner u.start) ∧
    ∃ pre post, T = pre ++ t :: post ∧
      Tidy r.1 base N (pre ++ ⟨t.start, k, false⟩ ::
        ((if t.len = k then [] else [⟨t.start + k, t.len - k, true⟩]) ++ post))

/-- If the lowest free tile that fits is longer, it is the lowest one that is longer. -/
theorem find?_fits_succ (h : ∀ t ∈ T.find? (fits k), t.len ≠ k) :
    T.find? (fits (k + 1)) = T.find? (fits k) := by
  have hle : ∀ t : Tile, t.fits (k + 1) = true → t.fits k = true := by
    intro t ht
    rw [fits_iff] at ht ⊢
    exact ⟨ht.1, by omega⟩
  rcases hfind : T.find? (fits k) with _ | t
  · rw [find?_eq_none] at hfind ⊢
    exact fun t ht hk => hfind t ht (hle t hk)
  · have hlen := h t hfind
    obtain ⟨hfit, pre, post, rfl, hpre⟩ := find?_eq_some_iff_append.mp hfind
    obtain ⟨htf, hkt⟩ := fits_iff.mp hfit
    refine find?_eq_some_iff_append.mpr ⟨fits_iff.mpr ⟨htf, by omega⟩, pre, post, rfl, ?_⟩
    intro u hu
    have hnot := hpre u hu
    rw [Bool.not_eq_true'] at hnot ⊢
    exact Bool.eq_false_of_not_eq_true fun hk => by simp [hle u hk] at hnot

/-- **A request is served if and only if** the lowest free region that fits does not fit exactly:
the search passes over a region of just the pages that are asked for. -/
theorem request_served_iff {s : Regions} {base N : Nat} {T : List Tile} (hr : Range base N)
    (h : Tidy s base N T) (tid : Int) {n : Nat} (hn : 0 < n) (hlt : 4095 + n < 2 ^ 32) :
    (∃ r, s.memRegionAlloc tid n = some r ∧ Serves s base N (roundpage n / PAGE_SIZE) T r) ↔
      ∀ t ∈ T.find? (Tile.fits (roundpage n / PAGE_SIZE)), t.len ≠ roundpage n / PAGE_SIZE := by
  have hround : roundpage n = PAGE_SIZE * (roundpage n / PAGE_SIZE) := by
    unfold roundpage add32 PAGE_SIZE
    omega
  have hk : 0 < roundpage n / PAGE_SIZE := by
    unfold roundpage add32 PAGE_SIZE
    omega
  generalize roundpage n / PAGE_SIZE = k at hround hk ⊢
  obtain ⟨r, halloc, hres⟩ := h.memRegionAlloc_tiles hr tid hk hround
  unfold Serves
  constructor
  · -- a region that fits exactly is not the one that is found
    rintro ⟨r', halloc', hserves⟩ t ht hlen
    obtain rfl : r = r' := Option.some.inj (halloc.symm.trans halloc')
    rw [ht] at hserves
    rcases hfind : T.find? (fits (k + 1)) with _ | u
    · rw [hfind] at hres
      simp [hres] at hserves
    · rw [hfind] at hres
      have hstart := Option.some.inj (hres.1.symm.trans hserves.1)
      have hu := h.length u (mem_of_find?_eq_some hfind)
      have hfit := (fits_iff.mp (find?_some hfind)).2
      rw [hstart, h.length t (mem_of_find?_eq_some ht)] at hu
      unfold PAGE_SIZE at hu
      omega
  · intro hne
    rw [find?_fits_succ hne] at hres
    refine ⟨r, halloc, ?_⟩
    rcases hfind : T.find? (fits k) with _ | t
    · rw [hfind] at hres
      exact hres
    · rw [hfind] at hres
      dsimp only
      rw [if_neg (hne t hfind)]
      exact hres

/-- A memory of six pages: of two threads one has taken a page and the other one two, and the page
is free again. -/
def fragmented : Regions :=
  ((((Regions.memRegionInit 0x80100000 0x6000).memRegionAlloc 2 4096).bind fun r =>
    r.1.memRegionAlloc 3 8192).bind fun r => r.1.memRegionReclaim 2).getD (.memRegionInit 0 0)

theorem tidy_fragmented :
    Tidy fragmented 0x80100000 6 [⟨0, 1, true⟩, ⟨1, 2, false⟩, ⟨3, 3, true⟩] where
  tiles := by simp [Tiles, stop]
  free := ⟨rfl, rfl, rfl, rfl, rfl⟩
  alloc := ⟨rfl, rfl, rfl⟩
  taken := by decide
  nodup := by decide
  start := by decide
  length := by decide
  max := by decide
  settled := by simp [Settled]

/-- Two pages are taken behind the page that is too short, and the thread 3 keeps its region. -/
theorem request_served_fragmented :
    ∃ r, fragmented.memRegionAlloc 1 8192 = some r ∧ fragmented.owner 1 = 3 ∧
      Serves fragmented 0x80100000 6 2 [⟨0, 1, true⟩, ⟨1, 2, false⟩, ⟨3, 3, true⟩] r := by
  obtain ⟨r, hr, hserves⟩ := (request_served_iff ⟨by decide, by decide, by decide, by decide⟩
    tidy_fragmented 1 (by decide) (by decide : 4095 + 8192 < 2 ^ 32)).mpr (by decide)
  exact ⟨r, hr, by decide, hserves⟩

/-- The whole memory of one page is free, and is not given out. -/
theorem exact_fit_refused :
    Tidy (Regions.memRegionInit 0x80100000 0x1000) 0x80100000 1 [⟨0, 1, true⟩] ∧
      ((Regions.memRegionInit 0x80100000 0x1000).memRegionAlloc 1 4096).map Prod.snd = some none :=
  ⟨tidy_init ⟨by decide, by decide, by decide, by decide⟩ rfl, by decide⟩

end Xinu
