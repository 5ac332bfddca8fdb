import Xinu.Foundations.HeadedList
import Xinu.Kernel.State

/-!
# Memory regions

User memory is divided into regions of whole pages. There is a descriptor for each page, and a
region has the descriptor of its first page; the descriptors of the free and of the allocated
regions are each on a doubly linked list in the order of addresses. This module has the code, with
pointers to descriptors as indices in the table and the loops bounded by the number of descriptors,
and what each function does to the links.

## Main results

* `Regions.remove_listed`, `Regions.insert_listed`: the two operations on a list
* `Regions.coalesce_next`, `Regions.coalesce_prev`: coalescing takes a node out
-/

namespace Xinu

open List HeadedList.Listed

/-- The size of a page, and the mask of physical addresses. -/
def PAGE_SIZE : Nat := 4096
def PMEM_MASK : Nat := 0x1FFFFFFF

/-- `roundpage` and `truncpage`. -/
def roundpage (x : Nat) : Nat := add32 4095 x / PAGE_SIZE * PAGE_SIZE
def truncpage (x : Nat) : Nat := x / PAGE_SIZE * PAGE_SIZE

/-- `struct memregion`; a pointer that is `SYSERR` is `none`. -/
structure MemRegion where
  prev : Option Nat := none
  next : Option Nat := none
  start : Nat := NULL
  length : Nat := 0
  thread_id : Int := 0
deriving DecidableEq

/-- The two lists of regions. -/
inductive RegionList
  | free
  | alloc
deriving DecidableEq

/-- `regtab` with the number of its descriptors, `regfreelist` and `regalloclist`. -/
structure Regions where
  regtab : Nat → MemRegion
  max_regions : Nat
  regfreelist : Option Nat
  regalloclist : Option Nat

namespace Regions

/-- The pointer to the first region of a list. -/
def head (s : Regions) : RegionList → Option Nat
  | .free => s.regfreelist
  | .alloc => s.regalloclist

/-- Writes the pointer to the first region of a list. -/
def setHead (s : Regions) (w : RegionList) (p : Option Nat) : Regions :=
  match w with
  | .free => { s with regfreelist := p }
  | .alloc => { s with regalloclist := p }

/-- Writes into a descriptor. -/
def modify (s : Regions) (i : Nat) (f : MemRegion → MemRegion) : Regions :=
  { s with regtab := store s.regtab i (f (s.regtab i)) }

/-- Writes into a descriptor, if the pointer is one. -/
def modify? (s : Regions) (p : Option Nat) (f : MemRegion → MemRegion) : Regions :=
  match p with
  | none => s
  | some i => s.modify i f

/-! ## The code -/

/-- `memRegionInit`, where `memget` has given memory for the table. -/
def memRegionInit (memory_start memory_size : Nat) : Regions :=
  let memory_size := sub32 (truncpage (add32 memory_start memory_size)) memory_start
  let memory_start := roundpage memory_start
  { regtab := store (fun _ => {}) 0 { start := memory_start, length := memory_size }
    max_regions := memory_size / PAGE_SIZE
    regfreelist := some 0
    regalloclist := none }

/-- `memRegionRemove`. -/
def memRegionRemove (s : Regions) (region : Nat) (list : RegionList) : Regions :=
  let s := match (s.regtab region).prev with
    | some p => s.modify p fun r => { r with next := (s.regtab region).next }
    | none => s.setHead list (s.regtab region).next
  let s := s.modify? (s.regtab region).next fun r => { r with prev := (s.regtab region).prev }
  s.modify region fun r => { r with prev := none, next := none }

/-- The loop of `memRegionInsert`: the last region before an address, and the first that is not. -/
def insertPlace (s : Regions) (start : Nat) :
    Nat → Option Nat → Option Nat → Option (Option Nat × Option Nat)
  | 0, _, _ => none
  | _ + 1, previous, none => some (previous, none)
  | fuel + 1, previous, some current =>
    if (s.regtab current).start < start then
      insertPlace s start fuel (some current) (s.regtab current).next
    else some (previous, some current)

/-- The region is linked in between. -/
def insertAt (s : Regions) (region : Nat) (list : RegionList) (previous current : Option Nat) :
    Regions :=
  match current with
  | none =>
    -- add after previous
    (s.modify? previous fun r => { r with next := some region }).modify region fun r =>
      { r with prev := previous, next := none }
  | some c =>
    -- add before current
    let before := (s.regtab c).prev
    let s := s.modify region fun r => { r with prev := before, next := some c }
    let s := match before with
      | some p => s.modify p fun r => { r with next := some region }
      | none => s.setHead list (some region)
    s.modify c fun r => { r with prev := some region }

/-- A region takes in the next one on its list. -/
def absorb (s : Regions) (region adjacent : Nat) : Regions :=
  let a := s.regtab adjacent
  (s.modify region fun r => { r with length := add32 r.length a.length, next := a.next }).modify?
    a.next fun n => { n with prev := some region }

/-- The first half of `memRegionCoalesce`: does the region bump with the next one? -/
def coalesceNext (s : Regions) (region : Nat) : Regions :=
  match (s.regtab region).next with
  | none => s
  | some adjacent =>
    if add32 (s.regtab region).start (s.regtab region).length = (s.regtab adjacent).start then
      s.absorb region adjacent
    else s

/-- The second half of `memRegionCoalesce`: does the previous region bump with it? -/
def coalescePrev (s : Regions) (region : Nat) : Regions :=
  match (s.regtab region).prev with
  | none => s
  | some adjacent =>
    if add32 (s.regtab adjacent).start (s.regtab adjacent).length = (s.regtab region).start then
      s.absorb adjacent region
    else s

/-- `memRegionInsert`. -/
def memRegionInsert (s : Regions) (region : Nat) (list : RegionList) : Option Regions :=
  match s.head list with
  | none => some (s.setHead list (some region))
  | some first =>
    (s.insertPlace (s.regtab region).start (s.max_regions + 1) none (some first)).map fun place =>
      let s := s.insertAt region list place.1 place.2
      -- region in free list, coalesce
      if s.head list = s.regfreelist then (s.coalesceNext region).coalescePrev region else s

/-- `memRegionDiscover`: the descriptor of a page. -/
def memRegionDiscover (s : Regions) (address : Nat) : Nat :=
  let addr := truncpage address &&& PMEM_MASK
  let start := (s.regtab 0).start &&& PMEM_MASK
  sub32 addr start / PAGE_SIZE

/-- What `memRegionSplit` returns: `SYSERR`, `NULL` or the remainder. -/
inductive Split
  | error
  | null
  | remainder (region : Nat)

/-- `memRegionSplit`. -/
def memRegionSplit (s : Regions) (region length : Nat) : Regions × Split :=
  let length := roundpage length
  if (s.regtab region).length < length then (s, .error)
  else if (s.regtab region).length = length then (s, .null)
  else
    let rem_start := add32 (s.regtab region).start length
    let remainder := s.memRegionDiscover rem_start
    let rest := sub32 (s.regtab region).length length
    ((s.modify remainder fun _ => { start := rem_start, length := rest }).modify region fun r =>
      { r with length := length }, .remainder remainder)

/-- The loop of `memRegionAlloc`: the first region that is longer than `nbytes`. -/
def findLonger (s : Regions) (nbytes : Nat) : Nat → Option Nat → Option (Option Nat)
  | 0, _ => none
  | _ + 1, none => some none
  | fuel + 1, some region =>
    if (s.regtab region).length > nbytes then some (some region)
    else findLonger s nbytes fuel (s.regtab region).next

/-- The part of `memRegionAlloc` that splits off the remainder and returns it to the free list. -/
def returnRest (s : Regions) (region nbytes : Nat) : Option Regions :=
  if (s.regtab region).length > nbytes then
    match s.memRegionSplit region nbytes with
    | (_, .error) => none
    | (s, .null) => some s
    | (s, .remainder rest) => s.memRegionInsert rest .free
  else some s

/-- `memRegionAlloc` by a thread. -/
def memRegionAlloc (s : Regions) (tid : Int) (nbytes : Nat) : Option (Regions × Option Nat) :=
  let nbytes := roundpage nbytes
  match s.findLonger nbytes (s.max_regions + 1) s.regfreelist with
  | none => none
  | some none => some (s, none)
  | some (some region) =>
    (((s.memRegionRemove region .free).returnRest region nbytes).bind fun s =>
      s.memRegionInsert region .alloc).map fun s =>
        (s.modify region fun r => { r with thread_id := tid }, some region)

/-- The loop of `memRegionReclaim`. -/
def reclaimLoop (tid : Int) : Nat → Option Nat → Regions → Option Regions
  | 0, _, _ => none
  | _ + 1, none, s => some s
  | fuel + 1, some region, s =>
    let nextregion := (s.regtab region).next
    if (s.regtab region).thread_id = tid then
      ((s.memRegionRemove region .alloc).memRegionInsert region .free).bind
        (reclaimLoop tid fuel nextregion)
    else reclaimLoop tid fuel nextregion s

/-- `memRegionReclaim`. -/
def memRegionReclaim (s : Regions) (tid : Int) : Option Regions :=
  reclaimLoop tid (s.max_regions + 1) s.regalloclist s

/-! ## Links -/

open HeadedList

/-- The links of the descriptors. -/
abbrev next (s : Regions) (i : Nat) : Option Nat := (s.regtab i).next
abbrev prev (s : Regions) (i : Nat) : Option Nat := (s.regtab i).prev

/-- The nodes of a list, in order. -/
def Listed (s : Regions) (w : RegionList) (l : List Nat) : Prop :=
  HeadedList.Listed s.next s.prev none (s.head w) l none

/-- Only the links of the nodes `X` and the head of the list `w` are different. -/
structure Relinked (s s' : Regions) (w : RegionList) (X : List Nat) : Prop where
  start : ∀ i, (s'.regtab i).start = (s.regtab i).start
  length : ∀ i, (s'.regtab i).length = (s.regtab i).length
  other : ∀ i, i ∉ X → s'.regtab i = s.regtab i
  head : ∀ v, v ≠ w → s'.head v = s.head v
  max : s'.max_regions = s.max_regions

variable {s s' : Regions} {w v : RegionList} {pre post l X : List Nat} {x : Nat}

/-- Another list is left alone. -/
theorem Relinked.listed (h : Relinked s s' w X) (hl : s.Listed v l) (hv : v ≠ w)
    (hX : ∀ i ∈ l, i ∉ X) : s'.Listed v l := by
  unfold Listed
  rw [h.head v hv]
  refine congr hl (fun i hi => ?_) fun i hi => ?_
  · rw [next, h.other i (hX i hi)]
  · rw [prev, h.other i (hX i hi)]

section

variable (s : Regions)

theorem head_setHead (w v : RegionList) (p : Option Nat) :
    (s.setHead w p).head v = if v = w then p else s.head v := by
  cases w <;> cases v <;> rfl

@[simp] theorem regtab_setHead (w : RegionList) (p : Option Nat) :
    (s.setHead w p).regtab = s.regtab := by
  cases w <;> rfl

@[simp] theorem max_setHead (w : RegionList) (p : Option Nat) :
    (s.setHead w p).max_regions = s.max_regions := by
  cases w <;> rfl

variable (f : MemRegion → MemRegion)

@[simp] theorem head_modify (i : Nat) (v : RegionList) :
    (s.modify i f).head v = s.head v := by
  cases v <;> rfl

@[simp] theorem head_modify? (p : Option Nat) (v : RegionList) :
    (s.modify? p f).head v = s.head v := by
  cases p <;> cases v <;> rfl

@[simp] theorem max_modify (i : Nat) :
    (s.modify i f).max_regions = s.max_regions := rfl

@[simp] theorem max_modify? (p : Option Nat) :
    (s.modify? p f).max_regions = s.max_regions := by
  cases p <;> rfl

theorem regtab_modify (i j : Nat) :
    (s.modify i f).regtab j = if j = i then f (s.regtab j) else s.regtab j := by
  unfold modify store
  dsimp only
  split
  · rename_i h
    rw [h]
  · rfl

theorem regtab_modify? (p : Option Nat) (j : Nat) :
    (s.modify? p f).regtab j = if p = some j then f (s.regtab j) else s.regtab j := by
  cases p with
  | none => simp [modify?]
  | some i => simp [modify?, regtab_modify, eq_comm]

end

/-! ## The threads of the regions -/

/-- The thread of a region. -/
def owner (s : Regions) (i : Nat) : Int := (s.regtab i).thread_id

theorem owner_modify (i : Nat) {f : MemRegion → MemRegion}
    (hf : ∀ r, (f r).thread_id = r.thread_id) : (s.modify i f).owner = s.owner := by
  funext j
  rw [owner, regtab_modify]
  split
  · exact hf _
  · rfl

theorem owner_modify? (p : Option Nat) {f : MemRegion → MemRegion}
    (hf : ∀ r, (f r).thread_id = r.thread_id) : (s.modify? p f).owner = s.owner := by
  cases p with
  | none => rfl
  | some i => exact owner_modify i hf

theorem owner_setHead (p : Option Nat) : (s.setHead w p).owner = s.owner := by
  cases w <;> rfl

theorem owner_remove (i : Nat) : (s.memRegionRemove i w).owner = s.owner := by
  unfold memRegionRemove
  simp only [owner_modify, owner_modify?, implies_true]
  split
  · exact owner_modify _ fun _ => rfl
  · exact owner_setHead _

theorem owner_insertAt (i : Nat) (p q : Option Nat) : (s.insertAt i w p q).owner = s.owner := by
  unfold insertAt
  split
  · simp only [owner_modify, owner_modify?, implies_true]
  · simp only [owner_modify, implies_true]
    split <;> simp only [owner_modify, owner_setHead, implies_true]

theorem owner_absorb (i j : Nat) : (s.absorb i j).owner = s.owner := by
  simp only [absorb, owner_modify, owner_modify?, implies_true]

/-- **An insertion leaves the threads alone**, also where it coalesces regions. -/
theorem owner_insert {i : Nat} (h : s.memRegionInsert i w = some s') : s'.owner = s.owner := by
  have hnext : ∀ r : Regions, (r.coalesceNext i).owner = r.owner := by
    intro r
    unfold coalesceNext
    split
    · rfl
    · split_ifs
      · exact owner_absorb _ _
      · rfl
  have hprev : ∀ r : Regions, (r.coalescePrev i).owner = r.owner := by
    intro r
    unfold coalescePrev
    split
    · rfl
    · split_ifs
      · exact owner_absorb _ _
      · rfl
  unfold memRegionInsert at h
  split at h
  · rw [← Option.some.inj h, owner_setHead]
  · obtain ⟨place, -, rfl⟩ := Option.map_eq_some_iff.mp h
    dsimp only
    split_ifs
    · rw [hprev, hnext, owner_insertAt]
    · exact owner_insertAt _ _ _

theorem regtab_remove (hp : s.prev x ≠ some x) (hn : s.next x ≠ some x) (i : Nat) :
    (s.memRegionRemove x w).regtab i =
      if i = x then { s.regtab x with prev := none, next := none }
      else { s.regtab i with
        next := if s.prev x = some i then s.next x else s.next i
        prev := if s.next x = some i then s.prev x else s.prev i } := by
  unfold memRegionRemove
  by_cases hi : i = x
  · subst hi
    cases hprev : (s.regtab i).prev with
    | none =>
      simp [regtab_modify, regtab_modify?, hn]
    | some p =>
      have hpi : i ≠ p := fun he => hp (by rw [prev, hprev, he])
      simp [regtab_modify, regtab_modify?, hn, hpi]
  · rw [if_neg hi]
    cases hprev : (s.regtab x).prev with
    | none =>
      simp only [regtab_modify, regtab_modify?, regtab_setHead, if_neg hi, prev, next, hprev]
      split <;> simp
    | some p =>
      have hpx : x ≠ p := fun he => hp (by rw [prev, hprev, he])
      simp only [regtab_modify, regtab_modify?, if_neg hi, if_neg hpx, prev, next, hprev,
        Option.some.injEq]
      by_cases hip : i = p
      · subst hip
        simp
        split <;> simp
      · simp [hip, Ne.symm hip]
        split <;> simp

theorem head_remove :
    (s.memRegionRemove x w).head v =
      if v = w ∧ s.prev x = none then s.next x else s.head v := by
  unfold memRegionRemove
  cases hprev : (s.regtab x).prev with
  | none => simp [head_setHead, prev, next, hprev]
  | some p => simp [prev, hprev]

/-- The first and the last of some nodes: there is no last before the first. -/
theorem lastOf_eq_none_iff {l : List Nat} : lastOf none l = none ↔ l = [] := by
  rcases lastOf_cases none l with ⟨rfl, _⟩ | ⟨i, hi, hl⟩
  · simp [lastOf]
  · rw [hl]
    simp [ne_nil_of_mem hi]

theorem lastOf_mem {l : List Nat} {i : Nat} (h : lastOf none l = some i) : i ∈ l := by
  rcases lastOf_cases none l with ⟨rfl, _⟩ | ⟨j, hj, hl⟩
  · simp [lastOf] at h
  · rw [hl] at h
    exact Option.some.inj h ▸ hj

/-- A node comes or goes, and its neighbours are linked to others. -/
theorem Relinked.of_regtab {p q a b : Option Nat}
    (htab : ∀ i, s'.regtab i = if i = x then { s.regtab x with prev := p, next := q }
      else { s.regtab i with
        next := if lastOf none pre = some i then a else s.next i
        prev := if post.head? = some i then b else s.prev i })
    (hhead : ∀ v, v ≠ w → s'.head v = s.head v) (hmax : s'.max_regions = s.max_regions) :
    Relinked s s' w (pre ++ x :: post) := by
  refine ⟨fun i => ?_, fun i => ?_, fun i hi => ?_, hhead, hmax⟩
  · rw [htab]
    split
    · rename_i he
      rw [he]
    · rfl
  · rw [htab]
    split
    · rename_i he
      rw [he]
    · rfl
  · have hix : i ≠ x := by
      rintro rfl
      exact hi (by simp)
    have hnp : lastOf none pre ≠ some i := fun he => hi (mem_append_left _ (lastOf_mem he))
    have hnn : post.head? ≠ some i := fun he =>
      hi (mem_append_right _ (mem_cons_of_mem _ (mem_of_mem_head? he)))
    rw [htab, if_neg hix, if_neg hnp, if_neg hnn]

section

variable (h : s.Listed w (pre ++ x :: post)) (hnd : (pre ++ x :: post).Nodup)
include h hnd

theorem Listed.ne_self : s.prev x ≠ some x ∧ s.next x ≠ some x := by
  obtain ⟨hn, hp⟩ := links h
  have hx := nodup_middle.mp hnd
  rw [nodup_cons, mem_append, not_or] at hx
  constructor
  · rw [hp]
    intro he
    exact hx.1.1 (lastOf_mem he)
  · rw [hn]
    intro he
    exact hx.1.2 (mem_of_mem_head? he)

/-- **`memRegionRemove` takes a region out of a list**. -/
theorem remove_listed : (s.memRegionRemove x w).Listed w (pre ++ post) ∧
      Relinked s (s.memRegionRemove x w) w (pre ++ x :: post) := by
  obtain ⟨hpx, hnx⟩ := h.ne_self hnd
  obtain ⟨hn, hp⟩ := links h
  have htab := regtab_remove (w := w) hpx hnx
  rw [hp, hn] at htab
  have hx := nodup_middle.mp hnd
  rw [nodup_cons] at hx
  constructor
  · have hhead : (s.memRegionRemove x w).head w = if pre = [] then post.head? else s.head w := by
      rw [head_remove, hp, hn]
      simp [lastOf_eq_none_iff]
    unfold Listed
    rw [hhead]
    refine remove h hnd (fun i hi => ?_) fun i hi => ?_
    · have hne : i ≠ x := fun he => hx.1 (he ▸ hi)
      rw [next, htab, if_neg hne]
      simp [eq_comm]
    · have hne : i ≠ x := fun he => hx.1 (he ▸ hi)
      rw [prev, htab, if_neg hne]
      simp [eq_comm]
  · refine .of_regtab htab (fun v hv => ?_) ?_
    · rw [head_remove, if_neg (fun he => hv he.1)]
    · unfold memRegionRemove
      cases (s.regtab x).prev <;> simp

end

/-- The loop of `memRegionInsert` finds the place of an address. -/
theorem insertPlace_eq {p cur : Option Nat} {a fuel : Nat}
    (h : HeadedList.Listed s.next s.prev p cur (pre ++ post) none) (hfuel : pre.length < fuel)
    (hpre : ∀ i ∈ pre, (s.regtab i).start < a)
    (hpost : ∀ i, post.head? = some i → ¬ (s.regtab i).start < a) :
    s.insertPlace a fuel p cur = some (lastOf p pre, post.head?) := by
  induction pre, fuel, hfuel using fuel_induction generalizing p cur with
  | nil fuel =>
    rw [cur_eq h, nil_append]
    cases hc : post.head? with
    | none => rfl
    | some c =>
      rw [insertPlace, if_neg (hpost c hc)]
      rfl
  | cons i pre fuel hfuel ih =>
    obtain ⟨rfl, -, hrest⟩ := h
    rw [insertPlace, if_pos (hpre i mem_cons_self)]
    exact ih hrest fun j hj => hpre j (mem_cons_of_mem _ hj)

section

variable (h : s.Listed w (pre ++ post))
include h

theorem regtab_insertAt (hx : x ∉ pre ++ post) (hne : pre ++ post ≠ []) (i : Nat) :
    (s.insertAt x w (lastOf none pre) post.head?).regtab i =
      if i = x then { s.regtab x with prev := lastOf none pre, next := post.head? }
      else { s.regtab i with
        next := if lastOf none pre = some i then some x else s.next i
        prev := if post.head? = some i then some x else s.prev i } := by
  cases post with
  | nil =>
    unfold insertAt
    simp only [head?_nil]
    by_cases hi : i = x
    · subst hi
      have hlast : lastOf none pre ≠ some i := fun he =>
        hx (mem_append_left _ (lastOf_mem he))
      simp [regtab_modify, regtab_modify?, hlast]
    · simp only [regtab_modify, regtab_modify?, if_neg hi]
      split <;> simp
  | cons c post =>
    have hbefore : (s.regtab c).prev = lastOf none pre := (links h).2
    have hxc : x ≠ c := by
      rintro rfl
      exact hx (by simp)
    unfold insertAt
    simp only [head?_cons, hbefore]
    cases hlast : lastOf none pre with
    | none =>
      by_cases hi : i = x
      · subst hi
        simp [regtab_modify, hxc]
      · simp only [regtab_modify, regtab_setHead, if_neg hi, Option.some.injEq]
        by_cases hic : i = c
        · subst hic
          simp
        · simp [hic, Ne.symm hic]
    | some p =>
      have hxp : x ≠ p := by
        rintro rfl
        exact hx (mem_append_left _ (lastOf_mem hlast))
      by_cases hi : i = x
      · subst hi
        simp [regtab_modify, hxc, hxp]
      · simp only [regtab_modify, if_neg hi, Option.some.injEq]
        by_cases hic : i = c
        · subst hic
          by_cases hip : i = p
          · subst hip
            simp
          · simp [hip, Ne.symm hip]
        · by_cases hip : i = p
          · subst hip
            simp [hic, Ne.symm hic]
          · simp [hic, Ne.symm hic, hip, Ne.symm hip]

theorem head_insertAt (hne : pre ++ post ≠ []) :
    (s.insertAt x w (lastOf none pre) post.head?).head v =
      if v = w ∧ pre = [] then some x else s.head v := by
  cases post with
  | nil =>
    have hpre : pre ≠ [] := by simpa using hne
    simp [insertAt, hpre]
  | cons c post =>
    have hbefore : (s.regtab c).prev = lastOf none pre := (links h).2
    unfold insertAt
    simp only [head?_cons, hbefore]
    cases hlast : lastOf none pre with
    | none => simp [head_setHead, lastOf_eq_none_iff.mp hlast]
    | some p =>
      have hpre : pre ≠ [] := by
        rintro rfl
        simp [lastOf] at hlast
      simp [hpre]

/-- A region is put in a list that is not empty. -/
theorem insertAt_listed (hnd : (pre ++ post).Nodup)
    (hx : x ∉ pre ++ post) (hne : pre ++ post ≠ []) :
    (s.insertAt x w (lastOf none pre) post.head?).Listed w (pre ++ x :: post) ∧
      Relinked s (s.insertAt x w (lastOf none pre) post.head?) w (pre ++ x :: post) := by
  have htab := regtab_insertAt h hx hne
  constructor
  · unfold Listed
    have hhead := head_insertAt (x := x) (v := w) h hne
    simp only [true_and] at hhead
    rw [hhead]
    refine insert h hnd ?_ ?_ (fun i hi => ?_) fun i hi => ?_
    · rw [next, htab, if_pos rfl]
    · rw [prev, htab, if_pos rfl]
    · have hix : i ≠ x := fun he => hx (he ▸ hi)
      rw [next, htab, if_neg hix]
      simp [eq_comm]
    · have hix : i ≠ x := fun he => hx (he ▸ hi)
      rw [prev, htab, if_neg hix]
      simp [eq_comm]
  · refine .of_regtab htab (fun v hv => ?_) ?_
    · rw [head_insertAt h hne, if_neg (fun he => hv he.1)]
    · unfold insertAt
      cases post.head? with
      | none => simp
      | some c =>
        dsimp only
        split <;> simp

end

/-- What `memRegionInsert` does before it coalesces. -/
def linkIn (s : Regions) (region : Nat) (list : RegionList) (pre post : List Nat) : Regions :=
  if pre ++ post = [] then s.setHead list (some region)
  else s.insertAt region list (lastOf none pre) post.head?

/-- **`memRegionInsert` puts a region in a list**, in the order of addresses. -/
theorem linkIn_listed (h : s.Listed w (pre ++ post)) (hnd : (pre ++ post).Nodup)
    (hx : x ∉ pre ++ post) (hnext : s.next x = none) (hprev : s.prev x = none) :
    (s.linkIn x w pre post).Listed w (pre ++ x :: post) ∧
      Relinked s (s.linkIn x w pre post) w (pre ++ x :: post) := by
  unfold linkIn
  by_cases hnil : pre ++ post = []
  · rw [if_pos hnil]
    obtain ⟨rfl, rfl⟩ := append_eq_nil_iff.mp hnil
    refine ⟨?_, ?_⟩
    · unfold Listed
      rw [head_setHead, if_pos rfl]
      refine ⟨rfl, ?_, ?_⟩
      · simpa [prev] using hprev
      · have hend : ((s.setHead w (some x)).regtab x).next = none := by simpa [next] using hnext
        exact hend
    · refine ⟨by simp, by simp, by simp, fun v hv => ?_, by simp⟩
      rw [head_setHead, if_neg hv]
  · rw [if_neg hnil]
    exact insertAt_listed h hnd hx hnil

/-- `memRegionInsert` finds the place, links the region in, and coalesces on the free list. -/
theorem memRegionInsert_eq (h : s.Listed w (pre ++ post)) (hfuel : pre.length ≤ s.max_regions)
    (hpre : ∀ i ∈ pre, (s.regtab i).start < (s.regtab x).start)
    (hpost : ∀ i, post.head? = some i → ¬ (s.regtab i).start < (s.regtab x).start)
    (hnext : s.next x = none) (hprev : s.prev x = none) :
    s.memRegionInsert x w = some
      (if (s.linkIn x w pre post).head w = (s.linkIn x w pre post).regfreelist then
        ((s.linkIn x w pre post).coalesceNext x).coalescePrev x
      else s.linkIn x w pre post) := by
  have hhead : s.head w = (pre ++ post).head? := cur_eq h
  unfold memRegionInsert linkIn
  by_cases hnil : pre ++ post = []
  · rw [if_pos hnil, hhead, hnil, head?_nil]
    have hn : ((s.setHead w (some x)).regtab x).next = none := by simpa [next] using hnext
    have hp : ((s.setHead w (some x)).regtab x).prev = none := by simpa [prev] using hprev
    have hc : ((s.setHead w (some x)).coalesceNext x).coalescePrev x = s.setHead w (some x) := by
      have hfirst : (s.setHead w (some x)).coalesceNext x = s.setHead w (some x) := by
        unfold coalesceNext
        simp only [hn]
      rw [hfirst]
      unfold coalescePrev
      simp only [hp]
    rw [hc]
    simp
  · rw [if_neg hnil]
    obtain ⟨c, hc⟩ : ∃ c, s.head w = some c := by
      rw [hhead]
      obtain ⟨c, l, hcl⟩ := exists_cons_of_ne_nil hnil
      exact ⟨c, by rw [hcl, head?_cons]⟩
    simp only [hc]
    rw [← hc, insertPlace_eq h (Nat.lt_succ_of_le hfuel) hpre hpost]
    rfl

/-! ## Coalescing -/

variable {y z : Nat}

/-- A region takes in the next one: the next one is out of the list, and its length is added. -/
structure Absorbed (s s' : Regions) (z y : Nat) (X : List Nat) : Prop where
  start : ∀ i, (s'.regtab i).start = (s.regtab i).start
  length : ∀ i, (s'.regtab i).length =
    if i = z then add32 (s.regtab z).length (s.regtab y).length else (s.regtab i).length
  other : ∀ i, i ∉ X → s'.regtab i = s.regtab i
  head : ∀ v, s'.head v = s.head v
  max : s'.max_regions = s.max_regions

theorem regtab_absorb (hz : s.next y ≠ some z) (i : Nat) :
    (s.absorb z y).regtab i =
      if i = z then { s.regtab z with
        length := add32 (s.regtab z).length (s.regtab y).length, next := s.next y }
      else { s.regtab i with prev := if s.next y = some i then some z else s.prev i } := by
  unfold absorb
  simp only [regtab_modify, regtab_modify?]
  by_cases hi : i = z
  · subst hi
    simp [hz]
  · rw [if_neg hi, if_neg hi]
    split <;> simp

/-- **Absorbing takes a node out of the list.** -/
theorem absorb_listed (h : s.Listed w (pre ++ z :: y :: post))
    (hnd : (pre ++ z :: y :: post).Nodup) :
    (s.absorb z y).Listed w (pre ++ z :: post) ∧
      Absorbed s (s.absorb z y) z y (pre ++ z :: y :: post) := by
  have happ : pre ++ z :: y :: post = (pre ++ [z]) ++ y :: post := by simp
  have hgoal : pre ++ z :: post = (pre ++ [z]) ++ post := by simp
  rw [happ] at h hnd ⊢
  rw [hgoal]
  obtain ⟨hn, hp⟩ := links h
  have hdisj := (nodup_append.mp hnd).2.2
  have hzy : s.next y ≠ some z := by
    rw [hn]
    intro he
    exact hdisj z (by simp) z (mem_cons_of_mem _ (mem_of_mem_head? he)) rfl
  have htab := regtab_absorb hzy
  have hhead : ∀ v, (s.absorb z y).head v = s.head v := by
    intro v
    simp [absorb]
  constructor
  · unfold Listed
    have hcur : (s.absorb z y).head w = if pre ++ [z] = [] then post.head? else s.head w := by
      rw [hhead, if_neg (by simp)]
    rw [hcur]
    refine remove h hnd (fun i _ => ?_) fun i hi => ?_
    · rw [next, htab, lastOf_append_singleton, hn]
      by_cases hiz : i = z
      · rw [if_pos hiz, if_pos (by rw [hiz])]
      · rw [if_neg hiz, if_neg (fun he => hiz (Option.some.inj he))]
    · rw [prev, htab, lastOf_append_singleton, hn]
      by_cases hiz : i = z
      · have hne : some i ≠ post.head? := by
          rw [hiz, ← hn]
          exact Ne.symm hzy
        rw [if_pos hiz, if_neg hne, hiz]
      · rw [if_neg hiz]
        simp [eq_comm]
  · refine ⟨fun i => ?_, fun i => ?_, fun i hi => ?_, hhead, ?_⟩
    · rw [htab]
      split
      · rename_i he
        rw [he]
      · rfl
    · rw [htab]
      split <;> rfl
    · have hiz : i ≠ z := by
        rintro rfl
        exact hi (by simp)
      have hnn : s.next y ≠ some i := by
        rw [hn]
        intro he
        exact hi (mem_append_right _ (mem_cons_of_mem _ (mem_of_mem_head? he)))
      rw [htab, if_neg hiz, if_neg hnn]
    · simp [absorb]

theorem coalesceNext_last (h : s.Listed w (pre ++ [x])) : s.coalesceNext x = s := by
  have hn : (s.regtab x).next = none := (links h).1
  unfold coalesceNext
  rw [hn]

/-- The next region, and whether it bumps. -/
theorem coalesceNext_cons (h : s.Listed w (pre ++ x :: y :: post)) :
    s.coalesceNext x =
      if add32 (s.regtab x).start (s.regtab x).length = (s.regtab y).start then s.absorb x y
      else s := by
  have hn : (s.regtab x).next = some y := (links h).1
  unfold coalesceNext
  rw [hn]

theorem coalescePrev_first (h : s.Listed w (x :: post)) : s.coalescePrev x = s := by
  have hp : (s.regtab x).prev = none := (links (l := []) h).2
  unfold coalescePrev
  rw [hp]

/-- The previous region, and whether it bumps. -/
theorem coalescePrev_concat (h : s.Listed w (pre ++ z :: x :: post)) :
    s.coalescePrev x =
      if add32 (s.regtab z).start (s.regtab z).length = (s.regtab x).start then s.absorb z x
      else s := by
  have happ : pre ++ z :: x :: post = (pre ++ [z]) ++ x :: post := by simp
  rw [happ] at h
  have hp : (s.regtab x).prev = some z := by
    rw [← lastOf_append_singleton none pre z]
    exact (links h).2
  unfold coalescePrev
  rw [hp]

end Regions

end Xinu
