import Mathlib.Data.Finset.Max
import Xinu.Memory.Runs

/-!
# Giving everything back

A sequence of successful requests followed by the return of all blocks, in any order. For sizes
that round without wrapping the order does not matter: every return succeeds and the free list is
the one there was. A size above `2 ^ 32 - 8` is rounded to 0. The request then succeeds without
taking anything out of the free list, and giving its block back is refused or makes a free block
its own successor.

## Main results

* `Heap.allocate_spec`: what a sequence of successful requests leaves
* `Heap.release_spec`: blocks that partition memory with the free list can be given back
* `Heap.memfree_wrap_start`: a size that wraps, given back at the start of a free block
* `Heap.release_restores_iff`: when every order restores the free list
* `Heap.request_safe_iff`: when a request leaves the heap in order
* `Heap.memfree_in_order`: which frees leave the heap in order
-/

namespace Xinu

open List Intervals Heap Lease

variable {h h' : Heap} {l : List Block} {live : List Lease} {n : Nat} {p : Option Nat}
variable {whole : Set Nat}

/-- The sizes that round without wrapping. -/
def Lease.Fits (x : Lease) : Prop := x.size ≤ 2 ^ 32 - 8
deriving Decidable

namespace Heap

/-- Requests made in turn, all of which must succeed. -/
def allocate (h : Heap) : List (Source × Nat) → Option (Heap × List Lease)
  | [] => some (h, [])
  | (src, n) :: reqs =>
    match src.get h n with
    | (h', some p) => (allocate h' reqs).map fun r => (r.1, ⟨src, p, n⟩ :: r.2)
    | (_, none) => none

/-- Leases given back in turn, each of which must return `OK`. -/
def release (h : Heap) : List Lease → Option Heap
  | [] => some h
  | x :: xs =>
    let r := x.free h
    if r.2 = OK then release r.1 xs else none

theorem release_cons_ok {x : Lease} {xs : List Lease} (hx : x.free h = (h', OK)) :
    h.release (x :: xs) = h'.release xs := by
  rw [release, hx]
  exact if_pos rfl

theorem release_cons_err {x : Lease} {xs : List Lease}
    (hx : x.free h = (h', SYSERR)) : h.release (x :: xs) = none := by
  rw [release, hx]
  exact if_neg (by decide : SYSERR ≠ OK)

theorem release_append (h : Heap) (xs ys : List Lease) :
    h.release (xs ++ ys) = (h.release xs).bind fun h' => h'.release ys := by
  induction xs generalizing h with
  | nil => rfl
  | cons x xs ih =>
    simp only [cons_append, release]
    split_ifs
    · exact ih _
    · rfl

/-! ## Requests whose size wraps -/

theorem setNext_self {v : Nat} (hv : (h.get p).next = v) : h.setNext p v = h := by
  subst hv
  cases p with
  | none => rfl
  | some a => exact congrArg (mk _ _ _) (Function.update_eq_self a h.mem)

theorem setLength_self {v : Nat} (hv : (h.get p).length = v) : h.setLength p v = h := by
  subst hv
  cases p with
  | none => rfl
  | some a => exact congrArg (mk _ _ _) (Function.update_eq_self a h.mem)

theorem sub32_zero {a : Nat} (ha : a < 2 ^ 32) : sub32 a 0 = a := sub32_eq (Nat.zero_le a) ha

theorem add32_zero {a : Nat} (ha : a < 2 ^ 32) : add32 a 0 = a := add32_eq ha

section Wrap

section

variable (F : FreeList h l) (hB : Bounds h)
include F hB

theorem FreeList.length_lt : h.memlist.length < 2 ^ 32 := by
  rw [F.total]
  exact F.total_lt hB

/-- A `memget` whose size wraps returns the first free block without taking it. -/
theorem memget_wrap (hn : 2 ^ 32 - 8 < n) (hlt : n < 2 ^ 32) :
    l = [] ∧ h.memget n = (h, none) ∨ ∃ p ∈ cells l, h.memget n = (h, some p) := by
  rw [memget, if_neg (by omega), roundmb_wrap hn hlt, show walkBound = (2 ^ 32 - 1) + 1 from rfl,
    memgetLoop]
  cases l with
  | nil =>
    exact .inl ⟨rfl, by rw [if_pos (show h.memlist.next = NULL from F.path)]⟩
  | cons b l =>
    have hpos := F.separated.pos b mem_cons_self
    have hstop := F.stop_lt hB mem_cons_self
    have hnext : h.memlist.next = b.addr := F.path.1
    have hlen : (h.mem b.addr).length = b.len := F.path.2.2.1
    refine .inr ⟨b.addr, ⟨b, mem_cons_self .., by simp [hpos]⟩, ?_⟩
    rw [hnext, if_neg F.path.2.1, if_neg (by omega), if_pos (by omega)]
    simp only [add32_zero (show b.addr < 2 ^ 32 by omega)]
    rw [setNext_self (show (h.get none).next = b.addr from hnext),
      setNext_self (p := some b.addr) (v := (h.mem b.addr).next) rfl,
      sub32_zero (show (h.mem b.addr).length < 2 ^ 32 by omega),
      setLength_self (p := some b.addr) (v := (h.mem b.addr).length) rfl,
      sub32_zero (F.length_lt hB), setLength_self (p := none) (v := h.memlist.length) rfl]

/-- A `stkget` whose size wraps takes nothing out of the free list either. -/
theorem stkget_wrap (hn : 2 ^ 32 - 8 < n) (hlt : n < 2 ^ 32) :
    l = [] ∧ h.stkget n = (h, none) ∨ l ≠ [] ∧ ∃ p, h.stkget n = (h, some p) := by
  rw [stkget, if_neg (by omega), roundmb_wrap hn hlt]
  rcases stkgetScan_spec [] (n := 0) F (F.length_lt_walkBound hB) none with
    ⟨hres, hsmall⟩ | ⟨pre, b, post, rfl, -, -, hres⟩
  · refine .inl ⟨eq_nil_iff_forall_not_mem.mpr fun b hb => Nat.not_lt_zero _ (hsmall b hb), ?_⟩
    simp only [show stkgetScan h 0 walkBound none h.memlist.next none = none from hres]
  · refine .inr ⟨by simp, ?_⟩
    have hpos := F.separated.pos b (by simp)
    have hstop := F.stop_lt hB (b := b) (by simp)
    have hlen : (h.mem b.addr).length = b.len := F.mem_length
    simp only [show stkgetScan h 0 walkBound none h.memlist.next none =
      some (last none pre, b.addr) from hres]
    rw [if_neg (by omega), sub32_zero (show (h.mem b.addr).length < 2 ^ 32 by omega),
      setLength_self (p := some b.addr) (v := (h.mem b.addr).length) rfl,
      sub32_zero (F.length_lt hB), setLength_self (p := none) (v := h.memlist.length) rfl]
    exact ⟨_, rfl⟩

/-- `stkget` changes the heap exactly when a free block has room, and fails only when none has. -/
theorem stkget_room (h0 : 0 < n) (hn : n < 2 ^ 32) :
    ((h.stkget n).1 = h ↔ ∀ b ∈ l, b.len < n) ∧ ((h.stkget n).2 = none → ∀ b ∈ l, b.len < n) := by
  by_cases hfit : n ≤ 2 ^ 32 - 8
  · rcases stkget_spec F hB h0 hfit with ⟨hres, hsmall⟩ | ⟨h', pre, b, post, rfl, -, hle, hres, T⟩
    · have hroom : ∀ b ∈ l, b.len < n := by
        intro b hb
        have hlt := hsmall b hb
        have hdvd := (F.aligned b hb).2
        rw [roundmb_eq hfit] at hlt
        omega
      rw [hres]
      exact ⟨iff_of_true rfl hroom, fun _ => hroom⟩
    · rw [hres]
      have hround := le_roundmb hfit
      refine ⟨iff_of_false (fun heq => ?_) fun hall => ?_, nofun⟩
      · have htotal := T.free.total
        rw [show h' = h from heq, F.total] at htotal
        unfold below at htotal
        split_ifs at htotal <;> simp at htotal <;> omega
      · have := hall b (by simp)
        omega
  · have hroom : ∀ b ∈ l, b.len < n := by
      intro b hb
      have hstop := F.stop_lt hB hb
      have hlow := (F.inside b hb).1
      obtain ⟨hpos, hdvd, -, -⟩ := hB
      omega
    rcases stkget_wrap F hB (not_le.mp hfit) hn with ⟨-, hres⟩ | ⟨-, p, hres⟩ <;> rw [hres] <;>
      exact ⟨iff_of_true rfl hroom, fun _ => hroom⟩

end

theorem get_wrap (src : Source) (F : FreeList h l) (hB : Bounds h) (hn : 2 ^ 32 - 8 < n)
    (hlt : n < 2 ^ 32) :
    l = [] ∧ src.get h n = (h, none) ∨
      l ≠ [] ∧ ∃ p, src.get h n = (h, some p) ∧ (src = .memget → p ∈ cells l) := by
  cases src with
  | memget =>
    rcases memget_wrap F hB hn hlt with hres | ⟨p, hp, hres⟩
    · exact .inl hres
    · exact .inr ⟨fun hl => by simp [hl] at hp, p, hres, fun _ => hp⟩
  | stkget =>
    rcases stkget_wrap F hB hn hlt with hres | ⟨hl, p, hres⟩
    · exact .inl hres
    · exact .inr ⟨hl, p, hres, by simp⟩

end Wrap

theorem get_zero (src : Source) (h : Heap) : src.get h 0 = (h, none) := by
  cases src <;> rfl

/-! ## Requests in turn -/

/-- What holds after successful requests: the blocks of the leases that fit partition `whole`
together with the free list, and a `memget` whose size wrapped returned an address of `whole`. -/
structure Granted (h : Heap) (l : List Block) (live : List Lease) (whole : Set Nat) : Prop where
  bounds : Bounds h
  partition : Partition h l ((live.filter (·.Fits)).map Lease.block) whole
  valid : ∀ x ∈ live, x.Fits → x.Valid h
  wrapped : ∀ x ∈ live, ¬ x.Fits → x.size < 2 ^ 32 ∧ (x.source = .memget → x.ptr ∈ whole)

theorem Granted.perm {live' : List Lease}
    (G : Granted h l live whole) (hp : live.Perm live') : Granted h l live' whole :=
  ⟨G.bounds, G.partition.perm ((hp.filter _).map _), fun x hx => G.valid x (hp.mem_iff.mpr hx),
    fun x hx => G.wrapped x (hp.mem_iff.mpr hx)⟩

section Requests

variable {leases : List Lease}

theorem Granted.get (G : Granted h l live whole) (src : Source) {p : Nat} (hn : n < 2 ^ 32)
    (hget : src.get h n = (h', some p)) : ∃ l', Granted h' l' (⟨src, p, n⟩ :: live) whole := by
  have h0 : 0 < n := by
    rcases Nat.eq_zero_or_pos n with rfl | h0
    · rw [get_zero] at hget
      simp at hget
    · exact h0
  by_cases hfit : n ≤ 2 ^ 32 - 8
  · rcases src.get_spec G.partition.free G.bounds h0 hfit with hres | ⟨h₁, l', q, hres, T, hV⟩
    · rw [hres] at hget
      simp at hget
    · cases hres.symm.trans hget
      have hx : (Lease.mk src p n).Fits := hfit
      refine ⟨l', G.bounds.congr T.memheap T.maxaddr, ?_, forall_mem_cons.mpr ⟨fun _ => ?_, ?_⟩,
        forall_mem_cons.mpr ⟨fun hf => absurd hfit hf, G.wrapped⟩⟩
      · rw [filter_cons_of_pos (by simpa using hx), map_cons]
        exact G.partition.take T
      · exact hV.congr T.memheap T.maxaddr
      · exact fun x hx hf => (G.valid x hx hf).congr T.memheap T.maxaddr
  · rcases get_wrap src G.partition.free G.bounds (by omega) hn with ⟨-, hres⟩ | ⟨-, q, hres, hq⟩
    · rw [hres] at hget
      simp at hget
    · cases hres.symm.trans hget
      have hx : ¬ (Lease.mk src p n).Fits := hfit
      refine ⟨l, G.bounds, ?_, forall_mem_cons.mpr ⟨fun hf => absurd hf hfit, G.valid⟩,
        forall_mem_cons.mpr ⟨fun _ => ?_, G.wrapped⟩⟩
      · rw [filter_cons_of_neg (by simpa using hx)]
        exact G.partition
      · exact ⟨hn, fun hsrc => G.partition.cover ▸ .inl (hq hsrc)⟩

/-- **Successful requests in turn** leave a free list that partitions, with the blocks handed out,
what was free before, and the blocks have the sizes asked for. -/
theorem allocate_spec {reqs : List (Source × Nat)} (G : Granted h l live whole)
    (hreqs : ∀ r ∈ reqs, r.2 < 2 ^ 32) (hget : allocate h reqs = some (h', leases)) :
    leases.map size = reqs.map Prod.snd ∧ ∃ l', Granted h' l' (leases ++ live) whole := by
  induction reqs generalizing h l live leases with
  | nil =>
    cases hget
    exact ⟨rfl, l, G⟩
  | cons r reqs ih =>
    obtain ⟨src, n⟩ := r
    rcases hr : src.get h n with ⟨h₁, _ | p⟩
    · simp [allocate, hr] at hget
    · simp only [allocate, hr, Option.map_eq_some_iff] at hget
      obtain ⟨⟨h₂, rest⟩, hrest, heq⟩ := hget
      cases heq
      obtain ⟨l₁, G₁⟩ := G.get src (hreqs _ mem_cons_self) hr
      obtain ⟨hsizes, l₂, G₂⟩ := ih G₁ (fun r hr => hreqs r (mem_cons_of_mem _ hr)) hrest
      exact ⟨by simp only [map_cons, hsizes], l₂, G₂.perm perm_middle⟩

/-- **Giving back blocks that fit**, in the order they stand in, restores the free list. -/
theorem release_spec {back : List Lease} (hB : Bounds h)
    (P : Partition h l (back.map block) whole) (hvalid : ∀ x ∈ back, x.Valid h) :
    ∃ h' l', release h back = some h' ∧ FreeList h' l' ∧ Bounds h' ∧ cells l' = whole := by
  induction back generalizing h l with
  | nil =>
    refine ⟨h, l, rfl, P.free, hB, ?_⟩
    rw [← P.cover, map_nil, cells_nil, Set.union_empty]
  | cons x back ih =>
    obtain ⟨h₁, l₁, hres, F₁, hcells, hlow, hhigh⟩ := x.free_spec P.free hB
      (hvalid x mem_cons_self) (P.apart _ mem_cons_self)
    obtain ⟨h', l', hrel, hrest⟩ := ih (hB.congr hlow hhigh) (P.give F₁ hcells) fun y hy =>
      (hvalid y (mem_cons_of_mem _ hy)).congr hlow hhigh
    exact ⟨h', l', (release_cons_ok hres).trans hrel, hrest⟩

end Requests

/-! ## Giving back a size that wraps -/

/-- The free list visits `pre`, which ends below `x`, and then stands at the address `x`. -/
structure Ahead (h : Heap) (pre : List Block) (x : Nat) : Prop where
  path : Path h none pre x
  separated : Separated pre
  below : ∀ b ∈ pre, b.stop < x
  pos : x ≠ NULL
  low : h.memheap ≤ x
  high : x ≤ h.maxaddr
  lt : x < 2 ^ 32
  short : pre.length < walkBound

section Ahead

variable {pre post : List Block} {b : Block} {x : Nat}

theorem FreeList.ahead (F : FreeList h (pre ++ b :: post)) (hB : Bounds h) :
    Ahead h pre b.addr := by
  obtain ⟨hpre, -, -, hbelow, -⟩ := separated_append_cons.mp F.separated
  have hin := F.inside b (by simp)
  have hlt := F.stop_lt hB (b := b) (by simp)
  have hlen := F.length_lt_walkBound hB
  have hp := (path_append.mp F.path).1
  rw [F.next_last] at hp
  simp only [Block.stop] at hin
  rw [length_append] at hlen
  exact ⟨hp, hpre, hbelow, F.addr_pos, hin.1, by omega, by omega, by omega⟩

/-- The search of `memfree` along blocks below the address it looks for. -/
theorem Path.memfreeScan_eq {mid : List Block} (hp : Path h p mid x)
    (hmid : ∀ b ∈ mid, b.addr < x) {fuel : Nat} (hfuel : mid.length < fuel) :
    memfreeScan h x fuel p (h.get p).next = some (last p mid, x) := by
  induction mid, fuel, hfuel using fuel_induction generalizing p with
  | nil fuel =>
    rw [show (h.get p).next = x from hp, memfreeScan, if_neg (by simp), last]
  | cons b mid fuel hfuel ih =>
    obtain ⟨hb, hnz, -, hrest⟩ := hp
    rw [hb, memfreeScan, if_pos ⟨hnz, hmid b mem_cons_self⟩]
    exact ih hrest (fun c hc => hmid c (mem_cons_of_mem _ hc))

theorem Ahead.top_lt (A : Ahead h pre x) : h.top (last none pre) < x := by
  rcases pre.eq_nil_or_concat with rfl | ⟨k, b, rfl⟩
  · exact Nat.pos_of_ne_zero A.pos
  · rw [concat_eq_append] at A ⊢
    have hb := A.below b (by simp)
    have hlt := A.lt
    have hlen : (h.mem b.addr).length = b.len := (path_append.mp A.path).2.2.2.1
    simp only [Block.stop] at hb
    rw [last_append_cons, last, top, hlen, add32_eq]
    exact hb

/-- **A size that wraps, given back at the start of a free block**: `memfree` returns `OK`, and
the block has become empty and its own successor. -/
theorem memfree_wrap_start (A : Ahead h pre x) (hn : 2 ^ 32 - 8 < n) (hlt : n < 2 ^ 32) :
    ∃ h', h.memfree x n = (h', OK) ∧ Ahead h' pre x ∧ (h'.mem x).next = x := by
  have htop := A.top_lt
  have haddr : ∀ b ∈ pre, b.addr < x := by
    intro b hb
    have := A.below b hb
    simp only [Block.stop] at this
    omega
  have hne : ∀ r ∈ headers none pre, r ≠ some x :=
    ne_some_of_mem_headers fun b hb => (haddr b hb).ne
  have hscan := A.path.memfreeScan_eq haddr A.short
  have hlast := hne _ (last_mem_headers none pre)
  have hmem : h.memfree x n = h.memfreeAt x 0 (last none pre) x := by
    have hguard : ¬ (n = 0 ∨ x < h.memheap ∨ h.maxaddr < x) := by
      have := A.low
      have := A.high
      omega
    rw [memfree, if_neg hguard,
      show memfreeScan h x walkBound none h.memlist.next = some (last none pre, x) from hscan,
      roundmb_wrap hn hlt]
  have hoverlap : ¬ (x < h.top (last none pre) ∨ x ≠ NULL ∧ x < add32 x 0) := by
    rw [add32_zero A.lt]
    omega
  -- the header written for the block, and then its length and its successor
  generalize e₀ : h.setLength none (add32 h.memlist.length 0) = h₀
  generalize e₁ : (h₀.setNext (some x) x).setLength (some x) 0 = h₁
  generalize e₂ : h₁.setNext (last none pre) x = h₂
  have hat : h.memfreeAt x 0 (last none pre) x = (h₂.coalesceNext (some x) x, OK) := by
    rw [memfreeAt, if_neg hoverlap]
    simp only [coalescePrev, if_neg htop.ne, e₀, e₁, e₂]
  have hx₂ : h₂.get (some x) = ⟨x, 0⟩ := by
    rw [← e₂, get_setNext, if_neg (Ne.symm hlast), ← e₁, get_setLength, if_pos rfl, get_setNext,
      if_pos rfl]
  have htouch : add32 ((some x).getD NULL) (h₂.get (some x)).length = x := by
    rw [hx₂]
    exact add32_zero A.lt
  generalize e₃ : h₂.setLength (some x) (add32 (h₂.get (some x)).length (h₂.mem x).length) = h₃
  have hco : h₂.coalesceNext (some x) x = h₃.setNext (some x) (h₃.mem x).next := by
    rw [coalesceNext, if_pos htouch, e₃]
  have hx₃ : (h₃.mem x).next = x := by
    rw [← get_some, ← e₃, next_setLength, hx₂]
  -- nothing else than the header of `x` and the way to it is written
  have hother : ∀ r, r ≠ some x → r ≠ last none pre →
      ((h₃.setNext (some x) (h₃.mem x).next).get r).next = (h.get r).next := by
    intro r hrx hrl
    rw [next_setNext, if_neg hrx, ← e₃, next_setLength, ← e₂, next_setNext, if_neg hrl, ← e₁,
      next_setLength, next_setNext, if_neg hrx, ← e₀, next_setLength]
  have hlen : ∀ b ∈ pre, ((h₃.setNext (some x) (h₃.mem x).next).get (some b.addr)).length =
      (h.get (some b.addr)).length := by
    intro b hb
    have hbx : some b.addr ≠ some x := by simpa using (haddr b hb).ne
    rw [length_setNext, ← e₃, length_setLength, if_neg hbx, ← e₂, length_setNext, ← e₁,
      length_setLength, if_neg hbx, length_setNext, ← e₀, length_setLength, if_neg (by simp)]
  have hlink : ((h₃.setNext (some x) (h₃.mem x).next).get (last none pre)).next = x := by
    rw [next_setNext, if_neg hlast, ← e₃, next_setLength, ← e₂, next_setNext, if_pos rfl]
  have hpath := A.path.congr_last (headers_nodup A.separated)
    (fun r hr hrl => hother r (hne r hr) hrl) hlen
  rw [hlink] at hpath
  refine ⟨_, hmem.trans (hat.trans (by rw [hco])), ⟨hpath, A.separated, A.below, A.pos, ?_, ?_,
    A.lt, A.short⟩, ?_⟩
  · simpa [← e₃, ← e₂, ← e₁, ← e₀] using A.low
  · simpa [← e₃, ← e₂, ← e₁, ← e₀] using A.high
  · rw [← get_some, next_setNext, if_pos rfl, hx₃]

/-- The search of `memfree` stops behind the last block that starts below what is given back. -/
theorem FreeList.memfree_eq_last (F : FreeList h (pre ++ b :: post)) (hB : Bounds h)
    (hlow : b.addr < x) (hpost : ∀ c ∈ post, x ≤ c.addr)
    (hguard : ¬ (n = 0 ∨ x < h.memheap ∨ h.maxaddr < x)) :
    h.memfree x n = h.memfreeAt x (roundmb n) (last none (pre ++ [b])) (entry post) := by
  have F' : FreeList h (pre ++ [b] ++ post) := by simpa using F
  refine F'.memfree_eq hB (fun a ha => ?_) hpost hguard
  rcases mem_append.mp ha with ha | ha
  · have := (separated_append_cons.mp F.separated).2.2.2.1 a ha
    simp only [Block.stop] at this
    omega
  · rwa [mem_singleton.mp ha]

/-- What is given back inside a free block is refused. -/
theorem memfree_wrap_inside (F : FreeList h (pre ++ b :: post)) (hB : Bounds h)
    (hlow : b.addr < x) (hhigh : x < b.stop) : h.memfree x n = (h, SYSERR) := by
  have habove := (separated_append_cons.mp F.separated).2.2.2.2
  by_cases hguard : n = 0 ∨ x < h.memheap ∨ h.maxaddr < x
  · rw [memfree, if_pos hguard]
  · rw [F.memfree_eq_last hB hlow (fun c hc => (hhigh.trans (habove c hc)).le) hguard]
    simp only [memfreeAt, F.top_last hB]
    rw [if_pos (.inl hhigh)]

/-- A search that runs into a block that is its own successor does not end. -/
theorem Path.memfreeScan_loop {mid : List Block} {y : Nat} (hp : Path h p mid x)
    (hloop : (h.mem x).next = x) (hx : x ≠ NULL) (hxy : x < y) (hmid : ∀ b ∈ mid, b.addr < y)
    (fuel : Nat) : memfreeScan h y fuel p (h.get p).next = none := by
  induction fuel generalizing p mid with
  | zero => rfl
  | succ fuel ih =>
    cases mid with
    | nil =>
      rw [show (h.get p).next = x from hp, memfreeScan, if_pos ⟨hx, hxy⟩]
      exact ih (show Path h (some x) [] x from hloop) (by simp)
    | cons b mid =>
      obtain ⟨hb, hnz, -, hrest⟩ := hp
      rw [hb, memfreeScan, if_pos ⟨hnz, hmid b mem_cons_self⟩]
      exact ih hrest fun c hc => hmid c (mem_cons_of_mem _ hc)

/-- A block that is its own successor stays so while blocks whose size wraps are given back at or
above it. -/
theorem release_loop {zs : List Lease} (A : Ahead h pre x) (hloop : (h.mem x).next = x)
    (hzs : ∀ z ∈ zs, z.source = .memget ∧ x ≤ z.ptr ∧ 2 ^ 32 - 8 < z.size ∧ z.size < 2 ^ 32)
    (hrel : h.release zs = some h') : (h'.mem x).next = x := by
  induction zs generalizing h with
  | nil =>
    cases hrel
    exact hloop
  | cons z zs ih =>
    obtain ⟨src, ptr, size⟩ := z
    obtain ⟨rfl, hptr, hsize, hlt⟩ := hzs _ mem_cons_self
    rcases eq_or_lt_of_le hptr with heq | hlt'
    · obtain rfl : x = ptr := heq
      obtain ⟨h₁, hres, A₁, hloop₁⟩ := memfree_wrap_start A hsize hlt
      rw [release_cons_ok (x := ⟨.memget, x, size⟩) hres] at hrel
      exact ih A₁ hloop₁ (fun z hz => hzs z (mem_cons_of_mem _ hz)) hrel
    · have hres : h.memfree ptr size = (h, SYSERR) := by
        rw [memfree]
        split_ifs
        · rfl
        · rw [show memfreeScan h ptr walkBound none h.memlist.next = none from
            A.path.memfreeScan_loop hloop A.pos hlt' (fun b hb => by
              have := A.below b hb
              simp only [Block.stop] at this hlt'
              omega) walkBound]
      rw [release_cons_err (x := ⟨.memget, ptr, size⟩) hres] at hrel
      simp at hrel

/-- Leases whose size wraps cannot all be given back: with the lowest one first, a return is
refused or the free list is broken. -/
theorem exists_release_wrapped (F : FreeList h l) (hB : Bounds h) {zs : List Lease} (hne : zs ≠ [])
    (hzs : ∀ z ∈ zs, 2 ^ 32 - 8 < z.size ∧ z.size < 2 ^ 32 ∧
      (z.source = .memget → z.ptr ∈ cells l)) :
    ∃ back, back.Perm zs ∧ ∀ h', h.release back = some h' → ¬ FreeList h' l := by
  by_cases hstk : ∃ z ∈ zs, z.source = .stkget
  · obtain ⟨z, hz, hsrc⟩ := hstk
    refine ⟨z :: zs.erase z, (perm_cons_erase hz).symm, fun h' hrel => ?_⟩
    have hres : z.free h = (h, SYSERR) := by
      obtain ⟨src, ptr, size⟩ := z
      obtain rfl : src = .stkget := hsrc
      obtain ⟨hsize, hlt, -⟩ := hzs _ hz
      simp only [free, stkfree, roundmb_wrap hsize hlt]
      rw [memfree, if_pos (.inl rfl)]
    rw [release_cons_err hres] at hrel
    simp at hrel
  · have hmem : ∀ z ∈ zs, z.source = .memget := by
      intro z hz
      cases hs : z.source with
      | memget => rfl
      | stkget => exact absurd ⟨z, hz, hs⟩ hstk
    obtain ⟨z, hz, hmin⟩ := zs.toFinset.exists_min_image ptr
      (toFinset_nonempty_iff zs |>.mpr hne)
    simp only [mem_toFinset] at hz hmin
    refine ⟨z :: zs.erase z, (perm_cons_erase hz).symm, fun h' hrel F' => ?_⟩
    obtain ⟨hsize, hlt, hptr⟩ := hzs z hz
    obtain ⟨b, hb, hzb⟩ := hptr (hmem z hz)
    obtain ⟨pre, post, rfl⟩ := append_of_mem hb
    have hfree : z.free h = h.memfree z.ptr z.size := by
      rw [free, hmem z hz]
    rcases eq_or_lt_of_le hzb.1 with heq | hlow
    · obtain ⟨h₁, hres, A₁, hloop⟩ := memfree_wrap_start (F.ahead hB) hsize hlt
      rw [heq] at hres
      rw [release_cons_ok (hfree.trans hres)] at hrel
      have hnext := release_loop A₁ hloop (fun y hy => by
        have hy := mem_of_mem_erase hy
        obtain ⟨h₁, h₂, -⟩ := hzs y hy
        exact ⟨hmem y hy, heq ▸ hmin y hy, h₁, h₂⟩) hrel
      -- the free list itself goes on above `b`
      have F₂ : FreeList h' (pre ++ [b] ++ post) := by simpa using F'
      have hentry := F₂.next_last_eq_entry
      rw [last_append_cons, last, get_some, hnext] at hentry
      cases post with
      | nil => exact F'.addr_pos hentry
      | cons c post =>
        have hgap := (separated_append_cons.mp F'.separated).2.2.2.2 c mem_cons_self
        simp only [Block.stop, entry] at hgap hentry
        omega
    · rw [release_cons_err (hfree.trans (memfree_wrap_inside F hB hlow hzb.2))] at hrel
      simp at hrel

end Ahead

/-! ## Restoring the free list -/

/-- **Every order of giving the blocks back restores the free list** exactly when no size asked
for wraps when it is rounded. -/
theorem release_restores_iff {h h' : Heap} {l : List Block} {reqs : List (Source × Nat)}
    {leases : List Lease} (F : FreeList h l) (hB : Bounds h) (hreqs : ∀ r ∈ reqs, r.2 < 2 ^ 32)
    (hget : allocate h reqs = some (h', leases)) :
    (∀ back, back.Perm leases → ∃ h'', release h' back = some h'' ∧ FreeList h'' l) ↔
      ∀ r ∈ reqs, r.2 ≤ 2 ^ 32 - 8 := by
  have G₀ : Granted h l [] (cells l) := ⟨hB, ⟨F, by simp, by simp, by simp⟩, by simp, by simp⟩
  obtain ⟨hmap, l', G⟩ := allocate_spec G₀ hreqs hget
  rw [append_nil] at G
  have hsizes : (∀ r ∈ reqs, r.2 ≤ 2 ^ 32 - 8) ↔ ∀ x ∈ leases, x.Fits := by
    constructor
    · intro hr x hx
      obtain ⟨r, hr', heq⟩ := mem_map.mp (hmap ▸ mem_map_of_mem hx)
      rw [Lease.Fits, ← heq]
      exact hr r hr'
    · intro hx r hr
      obtain ⟨x, hx', heq⟩ := mem_map.mp (hmap.symm ▸ mem_map_of_mem hr)
      exact heq ▸ hx x hx'
  -- the blocks that fit can always be given back first, in any order
  have hgood : ∀ back, back.Perm (leases.filter (·.Fits)) →
      ∃ h'', release h' back = some h'' ∧ FreeList h'' l ∧ Bounds h'' := by
    intro back hback
    have hfits : ∀ x ∈ back, x ∈ leases ∧ x.Fits := by
      intro x hx
      simpa using mem_filter.mp (hback.mem_iff.mp hx)
    obtain ⟨h'', l'', hrel, F'', hB'', hcells⟩ := release_spec G.bounds
      (G.partition.perm (hback.symm.map _)) fun x hx => G.valid x (hfits x hx).1 (hfits x hx).2
    obtain rfl := F''.separated.ext F.separated hcells
    exact ⟨h'', hrel, F'', hB''⟩
  rw [hsizes]
  constructor
  · intro hall x hx
    by_contra hfit
    obtain ⟨hg, hrelg, Fg, hBg⟩ := hgood _ (List.Perm.refl _)
    have hzs : ∀ z ∈ leases.filter (fun x => !decide x.Fits), z ∈ leases ∧ ¬ z.Fits := by
      intro z hz
      simpa using mem_filter.mp hz
    have hmem : x ∈ leases.filter (fun x => !decide x.Fits) :=
      mem_filter.mpr ⟨hx, by simpa using hfit⟩
    obtain ⟨back, hback, hbad⟩ := exists_release_wrapped Fg hBg (ne_nil_of_mem hmem)
      fun z hz => ⟨not_le.mp (hzs z hz).2, G.wrapped z (hzs z hz).1 (hzs z hz).2⟩
    have hperm : (leases.filter (·.Fits) ++ back).Perm leases :=
      (hback.append_left _).trans (filter_append_perm _ _)
    obtain ⟨h'', hrel, F''⟩ := hall _ hperm
    rw [release_append, hrelg] at hrel
    exact hbad h'' hrel F''
  · intro hfits back hback
    obtain ⟨h'', hrel, F'', -⟩ := hgood back (by
      rw [filter_eq_self.mpr fun x hx => by simpa using hfits x hx]
      exact hback)
    exact ⟨h'', hrel, F''⟩

theorem heapRoom_page : HeapRoom 4096 8192 := ⟨by decide, by decide, by decide, by decide⟩

/-- Two requests from one free block, whose blocks may be given back in either order. -/
theorem release_restores_iff_two :
    ∃ h' leases, allocate (Heap.sysinit 4096 8192 fun _ => ⟨0, 0⟩) [(.memget, 24), (.stkget, 128)] =
        some (h', leases) ∧
      ∀ back, back.Perm leases → ∃ h'', release h' back = some h'' ∧
        FreeList h'' [⟨4096, 4096⟩] := by
  obtain ⟨r, hr⟩ : ∃ r, allocate (sysinit 4096 8192 fun _ => ⟨0, 0⟩)
      [(.memget, 24), (.stkget, 128)] = some r := Option.isSome_iff_exists.mp (by decide)
  exact ⟨r.1, r.2, hr, (release_restores_iff (heapRoom_page.freeList _)
    (heapRoom_page.bounds _) (by decide) hr).mpr
    (by decide)⟩

/-- A request for `2 ^ 32 - 1` bytes from one free block of 4096 succeeds, its return succeeds,
and then the free block is its own successor. -/
theorem release_wrapped_not_restored :
    FreeList (Heap.sysinit 4096 8192 fun _ => ⟨0, 0⟩) [⟨4096, 4096⟩] ∧
      Bounds (Heap.sysinit 4096 8192 fun _ => ⟨0, 0⟩) ∧
      ∃ h' h'', allocate (Heap.sysinit 4096 8192 fun _ => ⟨0, 0⟩) [(.memget, 2 ^ 32 - 1)] =
          some (h', [⟨.memget, 4096, 2 ^ 32 - 1⟩]) ∧
        release h' [⟨.memget, 4096, 2 ^ 32 - 1⟩] = some h'' ∧ h''.mem 4096 = ⟨4096, 0⟩ ∧
        ¬ FreeList h'' [⟨4096, 4096⟩] := by
  obtain ⟨⟨h', leases⟩, hr⟩ : ∃ r, allocate (sysinit 4096 8192 fun _ => ⟨0, 0⟩)
      [(.memget, 2 ^ 32 - 1)] = some r := Option.isSome_iff_exists.mp (by decide)
  have hleases : (allocate (sysinit 4096 8192 fun _ => ⟨0, 0⟩)
      [(.memget, 2 ^ 32 - 1)]).map Prod.snd = some [⟨.memget, 4096, 2 ^ 32 - 1⟩] := by
    decide
  have hback : ((allocate (sysinit 4096 8192 fun _ => ⟨0, 0⟩) [(.memget, 2 ^ 32 - 1)]).bind
      fun r => (release r.1 [⟨.memget, 4096, 2 ^ 32 - 1⟩]).map fun h => h.mem 4096) =
        some ⟨4096, 0⟩ := by
    decide
  rw [hr] at hleases hback
  cases hleases
  obtain ⟨h'', hrel, hmem⟩ := Option.map_eq_some_iff.mp hback
  refine ⟨heapRoom_page.freeList _, heapRoom_page.bounds _, h', h'', hr, hrel, hmem, fun F => ?_⟩
  have hnext : (h''.mem 4096).next = NULL := F.path.2.2.2
  rw [hmem] at hnext
  exact absurd hnext (by decide)

/-! ## Requests of any size -/

/-- **No request breaks the heap**: the block it is given has the size asked for and no byte that
is free or was in use before, and the free list is in order, exactly when the size does not wrap or
no memory is free. -/
theorem request_safe_iff {h : Heap} {l : List Block}
    (F : FreeList h l) (hB : Bounds h) (src : Source)
    {n : Nat} (h0 : 0 < n) (hn : n < 2 ^ 32) :
    (∀ h' p, src.get h n = (h', some p) → n ≤ (Lease.mk src p n).block.len ∧
      (∀ live : Block, Disjoint live.cells (cells l) →
        Disjoint (Lease.mk src p n).block.cells live.cells) ∧
      ∃ l', FreeList h' l' ∧ Disjoint (Lease.mk src p n).block.cells (cells l')) ↔
    n ≤ 2 ^ 32 - 8 ∨ l = [] := by
  by_cases hfit : n ≤ 2 ^ 32 - 8
  · refine iff_of_true (fun h' p hget => ?_) (.inl hfit)
    rcases src.get_spec F hB h0 hfit with hres | ⟨h₁, l', q, hres, T, -⟩
    · simp [hres] at hget
    · cases hres.symm.trans hget
      refine ⟨?_, fun live hlive => (hlive.mono_right T.subset).symm, l', T.free, ?_⟩
      · rw [block_len]
        exact le_roundmb hfit
      · rw [T.cells]
        exact Set.disjoint_sdiff_right
  · rcases get_wrap src F hB (not_le.mp hfit) hn with ⟨hl, hres⟩ | ⟨hl, p, hres, -⟩
    · simp [hres, hl]
    · refine iff_of_false (fun hsafe => ?_) (not_or.mpr ⟨hfit, hl⟩)
      have hlen := (hsafe h p hres).1
      rw [block_len, roundmb_wrap (not_le.mp hfit) hn] at hlen
      omega

/-- A request from one free block. -/
theorem request_safe_page :
    ((Heap.sysinit 4096 8192 fun _ => ⟨0, 0⟩).stkget 100).2 = some 8188 ∧
      100 ≤ (Lease.mk .stkget 8188 100).block.len := by
  have hget : ((sysinit 4096 8192 fun _ => ⟨0, 0⟩).stkget 100).2 = some 8188 := by decide
  exact ⟨hget, ((request_safe_iff (heapRoom_page.freeList _) (heapRoom_page.bounds _) .stkget
    (by decide) (by decide)).mpr (.inl (by decide)) _ _ (Prod.ext rfl hget)).1⟩

/-- A request for `2 ^ 32 - 1` bytes is given 0 bytes at the address that the next request gets. -/
theorem request_wraps :
    FreeList (Heap.sysinit 4096 8192 fun _ => ⟨0, 0⟩) [⟨4096, 4096⟩] ∧
      Bounds (Heap.sysinit 4096 8192 fun _ => ⟨0, 0⟩) ∧
      ∃ h', Source.memget.get (Heap.sysinit 4096 8192 fun _ => ⟨0, 0⟩) (2 ^ 32 - 1) =
          (h', some 4096) ∧
        (Lease.mk .memget 4096 (2 ^ 32 - 1)).block.len = 0 ∧ (h'.memget 8).2 = some 4096 :=
  ⟨heapRoom_page.freeList _, heapRoom_page.bounds _, _, Prod.ext rfl (by decide), by decide,
    by decide⟩

/-! ## Bad frees -/

section Frees

variable {pre post : List Block} {b : Block} {x : Nat}

/-- What starts below a free block and ends in it or behind its start is refused. -/
theorem FreeList.memfree_overlap (F : FreeList h l) (hB : Bounds h) (hb : b ∈ l)
    (hlow : x ≤ b.addr) (hover : b.addr < add32 x (roundmb n)) : h.memfree x n = (h, SYSERR) := by
  by_cases hguard : n = 0 ∨ x < h.memheap ∨ h.maxaddr < x
  · rw [memfree, if_pos hguard]
  obtain ⟨pre, post, rfl, hpre, hpost⟩ := F.separated.exists_split x
  rw [F.memfree_eq hB hpre hpost hguard]
  rcases mem_append.mp hb with hb | hb
  · exact absurd (hpre b hb) (not_lt.mpr hlow)
  -- the first block behind `x` starts no later than `b`
  cases post with
  | nil => cases hb
  | cons c post =>
    have hcb : c.addr ≤ b.addr := by
      rcases mem_cons.mp hb with rfl | hb
      · exact le_refl _
      · have := (separated_append_cons.mp F.separated).2.2.2.2 b hb
        simp only [Block.stop] at this
        omega
    simp only [memfreeAt]
    rw [if_pos (.inr ⟨F.addr_pos, lt_of_le_of_lt hcb hover⟩)]

/-- What is aligned and ends in the heap is refused, or put back. -/
theorem memfree_of_inside (F : FreeList h l) (hB : Bounds h)
    (hguard : ¬ (n = 0 ∨ x < h.memheap ∨ h.maxaddr < x)) (hn : n ≤ 2 ^ 32 - 8) (hdvd : 8 ∣ x)
    (hend : x + roundmb n ≤ h.maxaddr) :
    h.memfree x n = (h, SYSERR) ∨ ∃ h' l', h.memfree x n = (h', OK) ∧ FreeList h' l' := by
  by_cases hdisj : ∀ y ∈ (Block.mk x (roundmb n)).cells, y ∉ cells l
  · obtain ⟨h', l', hres, F', -⟩ := memfree_spec F hB (by omega) hn hdvd ⟨by omega, hend⟩ hdisj
    exact .inr ⟨h', l', hres, F'⟩
  · simp only [not_forall, not_not] at hdisj
    obtain ⟨y, hy, c, hc, hyc⟩ := hdisj
    have hlt := hB.lt
    simp only [Block.mem_cells] at hy hyc
    by_cases hlow : c.addr < x
    · obtain ⟨pre, post, rfl⟩ := append_of_mem hc
      exact .inl (memfree_wrap_inside F hB hlow (by simp only [Block.stop]; omega))
    · exact .inl (F.memfree_overlap hB hc (by omega) (by rw [add32_eq]; omega))

theorem not_lt_of_entry {y : Nat} (hsafe : ∀ c ∈ post, y ≤ c.addr) :
    ¬ (entry post ≠ NULL ∧ entry post < y) := by
  cases post with
  | nil => simp [entry]
  | cons c post =>
    have := hsafe c mem_cons_self
    simp only [entry]
    omega

/-- `memfree` right behind a free block that is not refused. -/
theorem FreeList.memfree_touch (F : FreeList h (pre ++ b :: post)) (hB : Bounds h)
    (hguard : ¬ (n = 0 ∨ b.stop < h.memheap ∨ h.maxaddr < b.stop))
    (hsafe : ∀ c ∈ post, add32 b.stop (roundmb n) ≤ c.addr) :
    h.memfree b.stop n = (((h.setLength none (add32 h.memlist.length (roundmb n))).setLength
      (some b.addr) (add32 b.len (roundmb n))).coalesceNext (some b.addr) (entry post), OK) := by
  obtain ⟨-, hpos, -, -, habove⟩ := separated_append_cons.mp F.separated
  have hlen : ((h.setLength none (add32 h.memlist.length (roundmb n))).get (some b.addr)).length =
      b.len := by
    rw [length_setLength, if_neg (by simp), get_some, F.mem_length]
  rw [F.memfree_eq_last (x := b.stop) hB (Nat.lt_add_of_pos_right hpos)
    (fun c hc => (habove c hc).le) hguard]
  simp only [memfreeAt, F.top_last hB, coalescePrev, if_true]
  rw [if_neg (not_or.mpr ⟨lt_irrefl _, not_lt_of_entry hsafe⟩), last_append_cons, last, hlen]

/-- `memfree` in a gap that is not refused. -/
theorem FreeList.memfree_gap (F : FreeList h (pre ++ post)) (hB : Bounds h)
    (hguard : ¬ (n = 0 ∨ x < h.memheap ∨ h.maxaddr < x)) (hpre : ∀ b ∈ pre, b.stop < x)
    (hpost : ∀ c ∈ post, x ≤ c.addr) (hsafe : ∀ c ∈ post, add32 x (roundmb n) ≤ c.addr) :
    h.memfree x n = (((((h.setLength none (add32 h.memlist.length (roundmb n))).setNext (some x)
      (entry post)).setLength (some x) (roundmb n)).setNext (last none pre) x).coalesceNext (some x)
        (entry post), OK) := by
  have hlow : ∀ b ∈ pre, b.addr < x := by
    intro b hb
    have := hpre b hb
    simp only [Block.stop] at this
    omega
  have htop : h.top (last none pre) < x := by
    rcases pre.eq_nil_or_concat with rfl | ⟨k, b, rfl⟩
    · have := hB.pos
      simp only [last, top, NULL]
      omega
    · simp only [concat_eq_append, append_assoc, singleton_append] at F hpre ⊢
      rw [F.top_last hB]
      exact hpre b (by simp)
  rw [F.memfree_eq hB hlow hpost hguard]
  simp only [memfreeAt, coalescePrev, if_neg htop.ne]
  rw [if_neg (not_or.mpr ⟨not_lt.mpr htop.le, not_lt_of_entry hsafe⟩)]

/-- `memfree` right behind a free block, with a size whose sum with the length of the block wraps:
the block loses memory, and the list stays in order. -/
theorem memfree_behind (F : FreeList h (pre ++ b :: post)) (hB : Bounds h)
    (hguard : ¬ (n = 0 ∨ b.stop < h.memheap ∨ h.maxaddr < b.stop))
    (hwrap : roundmb n = 0 ∨ 2 ^ 32 < b.len + roundmb n) :
    ∃ h' l', h.memfree b.stop n = (h', OK) ∧ FreeList h' l' := by
  obtain ⟨-, hpos, -, -, habove⟩ := separated_append_cons.mp F.separated
  have hstop := F.stop_lt hB (b := b) (by simp)
  have hmod := roundmb_lt n
  have htotal := F.length_lt hB
  have hsum : b.len ≤ h.memlist.length := by
    rw [F.total, sum_append_cons]
    omega
  -- what the length of the block becomes
  have hle : 0 < add32 b.len (roundmb n) ∧ add32 b.len (roundmb n) ≤ b.len ∧
      add32 b.stop (roundmb n) ≤ b.stop := by
    simp only [Block.stop, add32]
    omega
  rw [F.memfree_touch hB hguard fun c hc => hle.2.2.trans (habove c hc).le, coalesceNext, if_neg]
  · rcases hwrap with hr | hr
    · refine ⟨h, _, ?_, F⟩
      rw [hr, add32_zero htotal, add32_zero (by omega),
        show h.setLength none h.memlist.length = h from rfl,
        setLength_self (p := some b.addr) F.mem_length]
    · have hcut := (F.takeBack hB (n := 2 ^ 32 - roundmb n)
        (Nat.dvd_sub (by decide) (dvd_roundmb n)) (by omega) rfl).free
      have hsub : ∀ t, b.len ≤ t → t < 2 ^ 32 →
          sub32 t (2 ^ 32 - roundmb n) = add32 t (roundmb n) := by
        intro t ht hlt
        rw [sub32_eq, add32]
        omega
      rw [F.mem_length, hsub _ (le_refl _) (by omega),
        show ((h.setLength (some b.addr) (add32 b.len (roundmb n))).memlist.length) =
          h.memlist.length from rfl, hsub _ hsum htotal] at hcut
      exact ⟨_, _, rfl, hcut⟩
  · rw [Option.getD_some, length_setLength, if_pos rfl, add32_eq]
    cases post with
    | nil =>
      simp only [entry, NULL]
      omega
    | cons c post =>
      have := habove c mem_cons_self
      simp only [entry, Block.stop] at this ⊢
      omega

theorem FreeList.eq_nil_of_entry (F : FreeList h (pre ++ post)) (hnull : entry post = NULL) :
    post = [] := by
  cases post with
  | nil => rfl
  | cons c post => exact absurd hnull F.addr_pos

theorem FreeList.entry_bounds {h₁ : Heap} (F : FreeList h (pre ++ post))
    (hpost : ∀ c ∈ post, x ≤ c.addr) (hne : entry post ≠ NULL) (hmax : h₁.maxaddr = h.maxaddr) :
    x ≤ entry post ∧ entry post ≤ h₁.maxaddr := by
  cases post with
  | nil => exact absurd rfl hne
  | cons c post =>
    have hin := (F.inside c (by simp)).2
    simp only [Block.stop] at hin
    exact ⟨hpost c mem_cons_self, by rw [hmax, entry]; omega⟩

/-- A path goes on where a shorter one ends. -/
theorem Path.exists_append {p : Option Nat} {a : Nat} (hpre : Path h p pre a) (ha : a ≠ NULL)
    (hp : Path h p l NULL) : ∃ rest, l = pre ++ ⟨a, (h.mem a).length⟩ :: rest := by
  induction pre generalizing p l with
  | nil =>
    cases l with
    | nil => exact absurd ((show _ = a from hpre).symm.trans hp) ha
    | cons c l =>
      obtain ⟨hc, -, hlen, -⟩ := hp
      obtain rfl : c.addr = a := hc.symm.trans hpre
      exact ⟨l, by rw [← get_some, hlen]; rfl⟩
  | cons b pre ih =>
    obtain ⟨hb, hnz, hblen, hrest⟩ := hpre
    cases l with
    | nil => exact absurd (hb.symm.trans hp) hnz
    | cons c l =>
      obtain ⟨hc, -, hclen, hp⟩ := hp
      have haddr : c.addr = b.addr := hc.symm.trans hb
      rw [haddr] at hclen hp
      obtain ⟨rest, rfl⟩ := ih hrest hp
      obtain rfl : c = b := Block.ext haddr (hclen.symm.trans hblen)
      exact ⟨rest, rfl⟩

section

variable {h₁ : Heap} {l' : List Block} {a q : Nat} (hpath : Path h₁ none pre a)
    (hne : ∀ c ∈ pre, c.addr ≠ a) (ha : a ≠ NULL)
include hpath hne ha

/-- The last step of `memfree` leaves the way to the block that it joins with the next one. -/
theorem exists_append_of_coalesceNext (F' : FreeList (h₁.coalesceNext (some a) q) l') :
    ∃ rest, l' = pre ++ ⟨a, ((h₁.coalesceNext (some a) q).mem a).length⟩ :: rest := by
  have hget : ∀ r, r ≠ some a → (h₁.coalesceNext (some a) q).get r = h₁.get r := by
    intro r hr
    unfold coalesceNext
    split_ifs
    · rw [get_setNext, if_neg hr, get_setLength, if_neg hr]
    · rfl
  refine Path.exists_append (hpath.enter (congrArg MemBlock.next (hget none (by simp))) ?_ ?_) ha
    F'.path
  · intro c hc
    rw [hget _ (by simpa using hne c hc)]
  · intro c hc
    rw [hget _ (by simpa using hne c hc)]

/-- A block without memory is not in order. -/
theorem not_freeList_of_zero (hlt : a < 2 ^ 32) (hzero : (h₁.mem a).length = 0) :
    ¬ FreeList (h₁.coalesceNext (some a) q) l' := by
  intro F'
  obtain ⟨rest, rfl⟩ := exists_append_of_coalesceNext hpath hne ha F'
  have hpos := F'.separated.pos ⟨a, _⟩ (mem_append_right _ mem_cons_self)
  refine absurd hpos ?_
  unfold coalesceNext
  rw [Option.getD_some, get_some, hzero, add32_zero hlt]
  split_ifs with heq
  · rw [← get_some, length_setNext, length_setLength, if_pos rfl, ← heq, hzero]
    exact lt_irrefl 0
  · rw [hzero]
    exact lt_irrefl 0

/-- Nor is one that ends behind the heap, also where it is joined with what stands at address 0. -/
theorem not_freeList_of_long (hB : Bounds h₁) {r : Nat} (hr : r ≤ (h₁.mem a).length)
    (hlt : (h₁.mem a).length < 2 ^ 32) (hlong : h₁.maxaddr < a + (h₁.mem a).length)
    (hq : q ≠ NULL → a ≤ q ∧ q ≤ h₁.maxaddr)
    (htotal : q = NULL → h₁.memlist.length =
      add32 ((pre.map Block.len).sum + ((h₁.mem a).length - r)) r) :
    ¬ FreeList (h₁.coalesceNext (some a) q) l' := by
  intro F'
  obtain ⟨rest, rfl⟩ := exists_append_of_coalesceNext hpath hne ha F'
  have hin := F'.inside ⟨a, _⟩ (mem_append_right _ mem_cons_self)
  have hmax : (h₁.coalesceNext (some a) q).maxaddr = h₁.maxaddr := by simp
  have hbound := hB.lt
  rw [hmax] at hin
  by_cases heq : add32 a (h₁.mem a).length = q
  · -- only address 0 can be the next block, and then the sum of the lengths is wrong
    simp only [Block.stop] at hin
    have hnull : q = NULL := by
      by_contra hqn
      have := hq hqn
      unfold add32 at heq
      omega
    have hend : a + (h₁.mem a).length = 2 ^ 32 := by
      rw [hnull, add32] at heq
      simp only [NULL] at heq ha
      omega
    obtain ⟨-, hsep, -⟩ := separated_append.mp F'.separated
    have habove := (separated_append_cons.mp F'.separated).2.2.2.2
    have hsum := sum_len_le hsep (show a ≤ h₁.maxaddr by omega) (by
      intro c hc
      have hcin := F'.inside c (mem_append_right _ hc)
      rw [hmax] at hcin
      refine ⟨?_, hcin.2⟩
      rcases mem_cons.mp hc with rfl | hc
      · exact le_refl _
      · have := habove c hc
        simp only [Block.stop] at this
        omega)
    have hlist : (h₁.coalesceNext (some a) q).memlist.length = h₁.memlist.length := by
      rw [coalesceNext]
      split_ifs
      · rfl
      · rfl
    have htotal' := F'.total
    rw [hlist, htotal hnull, map_append, sum_append, add32] at htotal'
    simp only [NULL] at ha
    omega
  · have hlen : ((h₁.coalesceNext (some a) q).mem a).length = (h₁.mem a).length := by
      rw [coalesceNext, if_neg]
      exact heq
    rw [hlen, Block.stop] at hin
    dsimp only at hin
    omega

end

/-- **What `memfree` may be given**: what it refuses, because of its bounds or of a block in the
way; what is aligned and ends in the heap, with a size that does not wrap; and right behind a free
block also a size whose sum with the length of the block wraps. -/
def Harmless (h : Heap) (l : List Block) (x n : Nat) : Prop :=
  (n = 0 ∨ x < h.memheap ∨ h.maxaddr < x) ∨
  (∃ b ∈ l, b.addr < x ∧ x < b.stop ∨ x ≤ b.addr ∧ b.addr < add32 x (roundmb n)) ∨
  (n ≤ 2 ^ 32 - 8 ∧ 8 ∣ x ∧ x + roundmb n ≤ h.maxaddr) ∨
  ∃ b ∈ l, b.stop = x ∧ (roundmb n = 0 ∨ 2 ^ 32 < b.len + roundmb n)
deriving Decidable

theorem memfree_of_harmless (F : FreeList h l) (hB : Bounds h) (hx : Harmless h l x n) :
    h.memfree x n = (h, SYSERR) ∨ ∃ h' l', h.memfree x n = (h', OK) ∧ FreeList h' l' := by
  by_cases hguard : n = 0 ∨ x < h.memheap ∨ h.maxaddr < x
  · exact .inl (by rw [memfree, if_pos hguard])
  rcases hx with hx | ⟨b, hb, hx | hx⟩ | ⟨hn, hdvd, hend⟩ | ⟨b, hb, rfl, hwrap⟩
  · exact absurd hx hguard
  · obtain ⟨pre, post, rfl⟩ := append_of_mem hb
    exact .inl (memfree_wrap_inside F hB hx.1 hx.2)
  · exact .inl (F.memfree_overlap hB hb hx.1 hx.2)
  · exact memfree_of_inside F hB hguard hn hdvd hend
  · obtain ⟨pre, post, rfl⟩ := append_of_mem hb
    exact .inr (memfree_behind F hB hguard hwrap)

section

variable (hB : Bounds h)
include hB

/-- Memory that is joined to the block before it and reaches behind the end of the heap. -/
theorem FreeList.touch_broken (F : FreeList h (pre ++ b :: post))
    (hwrap : b.len + roundmb n ≤ 2 ^ 32) (hlong : h.maxaddr < b.stop + roundmb n) :
    ¬ FreeList (((h.setLength none (add32 h.memlist.length (roundmb n))).setLength (some b.addr)
      (add32 b.len (roundmb n))).coalesceNext (some b.addr) (entry post)) l' := by
  have habove := (separated_append_cons.mp F.separated).2.2.2.2
  have hstop : b.addr + b.len < 2 ^ 32 := F.stop_lt hB (by simp)
  have F' : FreeList h (pre ++ [b] ++ post) := by simpa using F
  generalize e₁ : (h.setLength none (add32 h.memlist.length (roundmb n))).setLength (some b.addr)
    (add32 b.len (roundmb n)) = h₁
  have hnext : ∀ r, (h₁.get r).next = (h.get r).next := by
    intro r
    rw [← e₁, next_setLength, next_setLength]
  have hpath : Path h₁ none pre b.addr := by
    have hp := (path_append.mp F.path).1
    rw [F.next_last] at hp
    refine hp.enter (hnext none) (fun c _ => hnext _) fun c hc => ?_
    rw [← e₁, length_setLength, if_neg (by simpa using F.addr_ne.1 c hc), length_setLength,
      if_neg (by simp)]
  have hlen : (h₁.mem b.addr).length = add32 b.len (roundmb n) := by
    rw [← get_some, ← e₁, length_setLength, if_pos rfl]
  simp only [Block.stop] at hlong habove
  rcases eq_or_lt_of_le hwrap with hfull | hfull
  · refine not_freeList_of_zero hpath F.addr_ne.1 F.addr_pos (by omega) ?_
    rw [hlen, add32, hfull, Nat.mod_self]
  · rw [add32_eq hfull] at hlen
    have hmax : h₁.maxaddr = h.maxaddr := by simp [← e₁]
    refine not_freeList_of_long hpath F.addr_ne.1 F.addr_pos
      (hB.congr (by simp [← e₁]) hmax) (r := roundmb n) (by omega) (by omega) (by omega) ?_ ?_
    · exact fun hne => F'.entry_bounds (fun c hc => by have := habove c hc; omega) hne hmax
    · intro hnull
      obtain rfl := F'.eq_nil_of_entry hnull
      have htotal : h₁.memlist.length = add32 h.memlist.length (roundmb n) := by
        rw [← get_none, ← e₁, length_setLength, if_neg (by simp), length_setLength, if_pos rfl]
      rw [htotal, F.total, hlen, Nat.add_sub_cancel, map_append, sum_append]
      rfl

/-- Memory in a gap of the free list that is not aligned, has no length, or reaches behind the end
of the heap. -/
theorem FreeList.gap_broken (F : FreeList h (pre ++ post)) (h0 : x ≠ NULL) (hx : x < 2 ^ 32)
    (hpre : ∀ c ∈ pre, c.stop < x) (hpost : ∀ c ∈ post, x ≤ c.addr)
    (hbad : ¬ 8 ∣ x ∨ roundmb n = 0 ∨ h.maxaddr < x + roundmb n) :
    ¬ FreeList (((((h.setLength none (add32 h.memlist.length (roundmb n))).setNext (some x)
      (entry post)).setLength (some x) (roundmb n)).setNext (last none pre) x).coalesceNext (some x)
        (entry post)) l' := by
  generalize e₁ : (((h.setLength none (add32 h.memlist.length (roundmb n))).setNext (some x)
    (entry post)).setLength (some x) (roundmb n)).setNext (last none pre) x = h₁
  have hne : ∀ c ∈ pre, c.addr ≠ x := by
    intro c hc
    have := hpre c hc
    simp only [Block.stop] at this
    omega
  have hheaders := ne_some_of_mem_headers hne
  have hpath : Path h₁ none pre x := by
    have hlink : (h₁.get (last none pre)).next = x := by
      rw [← e₁, next_setNext, if_pos rfl]
    have hp : Path h₁ none pre _ := (path_append.mp F.path).1.congr_last
      (headers_nodup (separated_append.mp F.separated).1) ?_ ?_
    · rwa [hlink] at hp
    · intro r hr hrl
      rw [← e₁, next_setNext, if_neg hrl, next_setLength, next_setNext, if_neg (hheaders r hr),
        next_setLength]
    · intro c hc
      rw [← e₁, length_setNext, length_setLength, if_neg (by simpa using hne c hc), length_setNext,
        length_setLength, if_neg (by simp)]
  have hlen : (h₁.mem x).length = roundmb n := by
    rw [← get_some, ← e₁, length_setNext, length_setLength, if_pos rfl]
  rcases hbad with hbad | hbad | hbad
  · intro F'
    obtain ⟨rest, rfl⟩ := exists_append_of_coalesceNext hpath hne h0 F'
    exact hbad (F'.aligned ⟨x, _⟩ (mem_append_right _ mem_cons_self)).1
  · exact not_freeList_of_zero hpath hne h0 hx (hlen.trans hbad)
  · have hmax : h₁.maxaddr = h.maxaddr := by simp [← e₁]
    refine not_freeList_of_long hpath hne h0 (hB.congr (by simp [← e₁]) hmax) hlen.ge
      (hlen ▸ roundmb_lt n) (by rw [hmax, hlen]; exact hbad) ?_ ?_
    · exact fun hq => F.entry_bounds hpost hq hmax
    · intro hnull
      obtain rfl := F.eq_nil_of_entry hnull
      have htotal : h₁.memlist.length = add32 h.memlist.length (roundmb n) := by
        rw [← get_none, ← e₁, length_setNext, length_setLength, if_neg (by simp), length_setNext,
          length_setLength, if_pos rfl]
      rw [htotal, F.total, hlen, Nat.sub_self, append_nil]
      rfl

/-- What is not harmless is accepted and breaks the list. -/
theorem memfree_of_not_harmless (F : FreeList h l) (hn : n < 2 ^ 32)
    (hx : ¬ Harmless h l x n) :
    ∃ h', h.memfree x n = (h', OK) ∧ ∀ l', ¬ FreeList h' l' := by
  simp only [Harmless, not_or, not_exists, not_and, not_lt] at hx
  obtain ⟨⟨hn0, hlow, hhigh⟩, hover, hbad, hbehind⟩ := hx
  have hguard : ¬ (n = 0 ∨ x < h.memheap ∨ h.maxaddr < x) := by omega
  have hlt := hB.lt
  have hpos := hB.pos
  have hzero : ¬ n ≤ 2 ^ 32 - 8 → roundmb n = 0 := fun hgt => roundmb_wrap (not_le.mp hgt) hn
  obtain ⟨pre, post, rfl, hpre, hpost⟩ := F.separated.exists_split x
  have hsafe : ∀ c ∈ post, add32 x (roundmb n) ≤ c.addr :=
    fun c hc => (hover c (by simp [hc])).2 (hpost c hc)
  have htop : ∀ c ∈ pre, c.stop ≤ x := fun c hc => (hover c (by simp [hc])).1 (hpre c hc)
  by_cases htouch : ∃ b ∈ pre, b.stop = x
  · obtain ⟨b, hb, rfl⟩ := htouch
    obtain ⟨pre, rest, rfl⟩ := append_of_mem hb
    -- no block lies between `b` and its end
    obtain rfl : rest = [] := by
      rw [eq_nil_iff_forall_not_mem]
      intro c hc
      rw [append_assoc] at F
      have := (separated_append_cons.mp F.separated).2.2.2.2 c (by simp [hc])
      exact absurd (hpre c (by simp [hc])) (not_lt.mpr this.le)
    simp only [append_assoc, cons_append, nil_append] at F hbehind
    obtain ⟨hr0, hwrap⟩ := hbehind b (by simp) rfl
    have haligned := F.aligned b (by simp)
    have hlong := hbad (by_contra fun hgt => hr0 (hzero hgt))
      (Nat.dvd_add haligned.1 haligned.2)
    exact ⟨_, F.memfree_touch hB hguard hsafe, fun l' =>
      F.touch_broken hB hwrap (not_le.mp hlong)⟩
  · have hgap : ∀ c ∈ pre, c.stop < x :=
      fun c hc => lt_of_le_of_ne (htop c hc) fun heq => htouch ⟨c, hc, heq⟩
    refine ⟨_, F.memfree_gap hB hguard hgap hpost hsafe, fun l' =>
      F.gap_broken hB (by simp only [NULL]; omega) (by omega) hgap hpost ?_⟩
    by_cases hdvd : 8 ∣ x
    · by_cases hfits : n ≤ 2 ^ 32 - 8
      · exact .inr (.inr (not_le.mp (hbad hfits hdvd)))
      · exact .inr (.inl (hzero hfits))
    · exact .inl hdvd

end

end Frees

/-- **A bad free is refused**: `memfree` changes nothing, or leaves a free list in order, exactly
for what is harmless. Neither the alignment nor the end of the block is checked. -/
theorem memfree_in_order {l : List Block} (F : FreeList h l) (hB : Bounds h) (x n : Nat)
    (hn : n < 2 ^ 32) :
    (h.memfree x n = (h, SYSERR) ∨ ∃ h' l', h.memfree x n = (h', OK) ∧ FreeList h' l') ↔
      Harmless h l x n := by
  refine ⟨?_, memfree_of_harmless F hB⟩
  intro hres
  by_contra hx
  obtain ⟨h', hok, hbroken⟩ := memfree_of_not_harmless hB F hn hx
  rcases hres with hres | ⟨h'', l', hres, F'⟩
  · cases hok.symm.trans hres
  · cases hok.symm.trans hres
    exact hbroken l' F'

/-- Five bytes in the gap between two free blocks. -/
theorem memfree_in_order_gap :
    ∃ h' l', twoBlocks.memfree 24 5 = (h', OK) ∧ FreeList h' l' := by
  have hok : (twoBlocks.memfree 24 5).2 = OK := by decide
  rcases (memfree_in_order freeList_twoBlocks bounds_twoBlocks 24 5 (by decide)).mpr
    (by decide) with hres | hres
  · rw [hres] at hok
    exact absurd hok (by decide)
  · exact hres

/-- A block behind the end of the heap is accepted, and joined to the free block before it. -/
theorem memfree_behind_heap :
    FreeList (Heap.sysinit 4096 8192 fun _ => ⟨0, 0⟩) [⟨4096, 4096⟩] ∧
      Bounds (Heap.sysinit 4096 8192 fun _ => ⟨0, 0⟩) ∧
      ∃ h', (Heap.sysinit 4096 8192 fun _ => ⟨0, 0⟩).memfree 8192 8 = (h', OK) ∧
        ∀ l, ¬ FreeList h' l := by
  exact ⟨heapRoom_page.freeList _, heapRoom_page.bounds _,
    memfree_of_not_harmless (heapRoom_page.bounds _) (heapRoom_page.freeList _) (by decide)
      (by decide)⟩

end Heap

end Xinu
