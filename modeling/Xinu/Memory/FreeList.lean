import Mathlib.Data.List.Nodup
import Mathlib.Algebra.Order.BigOperators.Group.List
import Xinu.Foundations.Intervals
import Xinu.Memory.Heap

/-!
# The free list in memory

The blocks threaded through the memory of a `Heap` are a list of intervals. `FreeList h l` says
that they are the list `l` and that `l` is in the allocator's normal form: increasing, aligned, no
two blocks overlapping or adjacent, inside the heap, of the total length kept in `memlist.length`.
-/

namespace Xinu

open List Intervals

/-! ## Rounding -/

variable {n : Nat}

theorem roundmb_eq (h : n ≤ 2 ^ 32 - 8) : roundmb n = (7 + n) / 8 * 8 := by
  rw [roundmb, add32_eq]

theorem dvd_roundmb (n : Nat) : 8 ∣ roundmb n := Dvd.intro_left _ rfl

theorem le_roundmb (h : n ≤ 2 ^ 32 - 8) : n ≤ roundmb n := by
  rw [roundmb_eq h]
  omega

theorem roundmb_lt (n : Nat) : roundmb n < 2 ^ 32 := by
  have h : add32 7 n < 2 ^ 32 := Nat.mod_lt _ (by decide)
  unfold roundmb
  omega

theorem roundmb_of_dvd (h : 8 ∣ n) (hn : n < 2 ^ 32) : roundmb n = n := by
  have hle : n ≤ 2 ^ 32 - 8 := by omega
  rw [roundmb_eq hle]
  omega

theorem roundmb_pos (h0 : 0 < n) (h : n ≤ 2 ^ 32 - 8) : 0 < roundmb n :=
  h0.trans_le (le_roundmb h)

theorem roundmb_wrap (h : 2 ^ 32 - 8 < n) (hn : n < 2 ^ 32) : roundmb n = 0 := by
  have hmod : add32 7 n = 7 + n - 2 ^ 32 := by
    rw [add32, Nat.mod_eq_sub_mod (by omega)]
    exact Nat.mod_eq_of_lt (by omega)
  rw [roundmb, hmod]
  omega

namespace Heap

/-! ## Reading after writing -/

section

variable (h : Heap)

@[simp] theorem get_none : h.get none = h.memlist := rfl

@[simp] theorem get_some (a : Nat) : h.get (some a) = h.mem a := rfl

section

variable (p q : Option Nat) (v : Nat)

theorem get_setNext :
    (h.setNext p v).get q = if q = p then { h.get q with next := v } else h.get q := by
  cases p <;> cases q <;> simp [setNext, get, Function.update_apply]
  split_ifs with heq
  · rw [heq]
  · rfl

theorem get_setLength :
    (h.setLength p v).get q = if q = p then { h.get q with length := v } else h.get q := by
  cases p <;> cases q <;> simp [setLength, get, Function.update_apply]
  split_ifs with heq
  · rw [heq]
  · rfl

theorem next_setNext : ((h.setNext p v).get q).next = if q = p then v else (h.get q).next := by
  rw [get_setNext]
  split_ifs <;> rfl

@[simp] theorem length_setNext : ((h.setNext p v).get q).length = (h.get q).length := by
  rw [get_setNext]
  split_ifs <;> rfl

@[simp] theorem next_setLength : ((h.setLength p v).get q).next = (h.get q).next := by
  rw [get_setLength]
  split_ifs <;> rfl

theorem length_setLength :
    ((h.setLength p v).get q).length = if q = p then v else (h.get q).length := by
  rw [get_setLength]
  split_ifs <;> rfl

end

section

variable (p : Option Nat) (v : Nat)

@[simp] theorem memheap_setNext : (h.setNext p v).memheap = h.memheap := by cases p <;> rfl

@[simp] theorem memheap_setLength : (h.setLength p v).memheap = h.memheap := by cases p <;> rfl

@[simp] theorem maxaddr_setNext : (h.setNext p v).maxaddr = h.maxaddr := by cases p <;> rfl

@[simp] theorem maxaddr_setLength : (h.setLength p v).maxaddr = h.maxaddr := by cases p <;> rfl

end

theorem memgetLoop_bounds (n fuel : Nat) (prev : Option Nat) (curr : Nat) :
    (memgetLoop h n fuel prev curr).1.memheap = h.memheap ∧
      (memgetLoop h n fuel prev curr).1.maxaddr = h.maxaddr := by
  induction fuel generalizing prev curr with
  | zero => exact ⟨rfl, rfl⟩
  | succ fuel ih =>
    rw [memgetLoop]
    split_ifs
    · exact ⟨rfl, rfl⟩
    · simp
    · simp
    · exact ih _ _

theorem memget_bounds (n : Nat) :
    (h.memget n).1.memheap = h.memheap ∧ (h.memget n).1.maxaddr = h.maxaddr := by
  unfold memget
  split_ifs
  · exact ⟨rfl, rfl⟩
  · exact memgetLoop_bounds h _ _ _ _

theorem stkget_bounds (n : Nat) :
    (h.stkget n).1.memheap = h.memheap ∧ (h.stkget n).1.maxaddr = h.maxaddr := by
  unfold stkget
  split_ifs
  · exact ⟨rfl, rfl⟩
  · simp only
    split
    · exact ⟨rfl, rfl⟩
    · split_ifs <;> simp

@[simp] theorem memheap_coalescePrev (block n : Nat) (p : Option Nat) (q top : Nat) :
    (h.coalescePrev block n p q top).1.memheap = h.memheap := by
  unfold coalescePrev
  split_ifs <;> simp

@[simp] theorem maxaddr_coalescePrev (block n : Nat) (p : Option Nat) (q top : Nat) :
    (h.coalescePrev block n p q top).1.maxaddr = h.maxaddr := by
  unfold coalescePrev
  split_ifs <;> simp

@[simp] theorem memheap_coalesceNext (b : Option Nat) (q : Nat) :
    (h.coalesceNext b q).memheap = h.memheap := by
  unfold coalesceNext
  split_ifs <;> simp

@[simp] theorem maxaddr_coalesceNext (b : Option Nat) (q : Nat) :
    (h.coalesceNext b q).maxaddr = h.maxaddr := by
  unfold coalesceNext
  split_ifs <;> simp

theorem memfree_bounds (p n : Nat) :
    (h.memfree p n).1.memheap = h.memheap ∧ (h.memfree p n).1.maxaddr = h.maxaddr := by
  unfold memfree
  split_ifs
  · exact ⟨rfl, rfl⟩
  · split
    · exact ⟨rfl, rfl⟩
    · unfold memfreeAt
      simp only
      split_ifs <;> simp

end

/-! ## Paths -/

/-- Following `next` from the header `p` visits the blocks `l` and ends at the address `q`. -/
def Path (h : Heap) : Option Nat → List Block → Nat → Prop
  | p, [], q => (h.get p).next = q
  | p, b :: l, q =>
    (h.get p).next = b.addr ∧ b.addr ≠ NULL ∧ (h.get (some b.addr)).length = b.len ∧
      Path h (some b.addr) l q

/-- The header a path from `p` along `l` ends in. -/
def last (p : Option Nat) : List Block → Option Nat
  | [] => p
  | b :: l => last (some b.addr) l

@[simp] theorem last_append_cons (p : Option Nat) (l k : List Block) (b : Block) :
    last p (l ++ b :: k) = last (some b.addr) k := by
  induction l generalizing p with
  | nil => rfl
  | cons c l ih => exact ih (some c.addr)

/-- The headers on a path: the one it starts in and those of its blocks. -/
def headers (p : Option Nat) (l : List Block) : List (Option Nat) :=
  p :: l.map fun b => some b.addr

theorem last_mem_headers (p : Option Nat) (l : List Block) : last p l ∈ headers p l := by
  induction l generalizing p with
  | nil => exact mem_cons_self ..
  | cons b l ih => exact mem_cons_of_mem _ (ih (some b.addr))

variable {h h' : Heap} {p : Option Nat} {l k : List Block} {q : Nat}

theorem path_append :
    Path h p (l ++ k) q ↔ Path h p l (h.get (last p l)).next ∧ Path h (last p l) k q := by
  induction l generalizing p with
  | nil =>
    exact ⟨fun hk => ⟨rfl, hk⟩, fun hk => hk.2⟩
  | cons b l ih =>
    simp only [cons_append, Path, last, ih]
    tauto

/-- A path keeps its blocks when only the `next` of its last header changes. -/
theorem Path.congr_last {r : Nat} (hp : Path h p l r) (hnodup : (headers p l).Nodup)
    (hnext : ∀ r ∈ headers p l, r ≠ last p l → (h'.get r).next = (h.get r).next)
    (hlen : ∀ b ∈ l, (h'.get (some b.addr)).length = (h.get (some b.addr)).length) :
    Path h' p l (h'.get (last p l)).next := by
  induction l generalizing p with
  | nil => rfl
  | cons b l ih =>
    obtain ⟨hb, hnz, hblen, hrest⟩ := hp
    have hne : p ≠ last p (b :: l) := by
      intro heq
      have hmem := last_mem_headers (some b.addr) l
      have hlast : last p (b :: l) = last (some b.addr) l := rfl
      rw [← hlast, ← heq] at hmem
      exact (nodup_cons.mp hnodup).1 hmem
    refine ⟨(hnext p mem_cons_self hne).trans hb, hnz,
      (hlen b mem_cons_self).trans hblen, ih hrest (nodup_cons.mp hnodup).2 ?_ ?_⟩
    · exact fun r hr => hnext r (mem_cons_of_mem _ hr)
    · exact fun c hc => hlen c (mem_cons_of_mem _ hc)

/-- The rest of a path does not depend on the header it is entered from. -/
theorem Path.enter {p' : Option Nat} (hp : Path h p l q)
    (hstart : (h'.get p').next = (h.get p).next)
    (hnext : ∀ b ∈ l, (h'.get (some b.addr)).next = (h.get (some b.addr)).next)
    (hlen : ∀ b ∈ l, (h'.get (some b.addr)).length = (h.get (some b.addr)).length) :
    Path h' p' l q := by
  induction l generalizing p p' with
  | nil => exact hstart.trans hp
  | cons b l ih =>
    obtain ⟨hb, hnz, hblen, hrest⟩ := hp
    refine ⟨hstart.trans hb, hnz, (hlen b mem_cons_self).trans hblen,
      ih hrest (hnext b mem_cons_self) ?_ ?_⟩
    · exact fun c hc => hnext c (mem_cons_of_mem _ hc)
    · exact fun c hc => hlen c (mem_cons_of_mem _ hc)

theorem headers_nodup (hsep : Separated l) : (headers none l).Nodup := by
  refine nodup_cons.mpr ⟨by simp, ?_⟩
  refine (pairwise_map.mpr (hsep.sep.imp ?_))
  intro a b hab heq
  have := Option.some.inj heq
  simp only [Block.stop] at hab
  omega

/-! ## The representation invariant -/

/-- What the platform and `sysinit` fix about the heap: it lies above address 0, its bounds are
multiples of the block size, and its end is a 32-bit address. -/
structure Bounds (h : Heap) : Prop where
  pos : 0 < h.memheap
  low : 8 ∣ h.memheap
  high : 8 ∣ h.maxaddr
  lt : h.maxaddr < 2 ^ 32

/-- The free blocks of `h` are `l`, in the allocator's normal form. -/
structure FreeList (h : Heap) (l : List Block) : Prop where
  path : Path h none l NULL
  separated : Separated l
  aligned : ∀ b ∈ l, 8 ∣ b.addr ∧ 8 ∣ b.len
  inside : ∀ b ∈ l, h.memheap ≤ b.addr ∧ b.stop ≤ h.maxaddr
  total : h.memlist.length = (l.map Block.len).sum

/-- A free list lives in the headers of its blocks. -/
theorem FreeList.congr_mem (F : FreeList h l) {mem : Nat → MemBlock}
    (hmem : ∀ b ∈ l, mem b.addr = h.mem b.addr) : FreeList { h with mem := mem } l :=
  ⟨F.path.enter rfl (fun b hb => congrArg MemBlock.next (hmem b hb))
    fun b hb => congrArg MemBlock.length (hmem b hb), F.separated, F.aligned, F.inside, F.total⟩

theorem Path.end_eq (hp : Path h p l q) : (h.get (last p l)).next = q := by
  induction l generalizing p with
  | nil => exact hp
  | cons b l ih => exact ih hp.2.2.2

theorem last_append (p : Option Nat) (l k : List Block) : last p (l ++ k) = last (last p l) k := by
  induction l generalizing p with
  | nil => rfl
  | cons b l ih => exact ih (some b.addr)

theorem ne_some_of_mem_headers {pre : List Block} {x : Nat} (hx : ∀ a ∈ pre, a.addr ≠ x) :
    ∀ r ∈ headers none pre, r ≠ some x := by
  intro r hr
  rcases mem_cons.mp hr with rfl | hr
  · exact Option.some_ne_none x |>.symm
  · obtain ⟨a, ha, rfl⟩ := mem_map.mp hr
    exact fun heq => hx a ha (Option.some.inj heq)

/-- **Editing a path at one place**: the blocks `mid` between `pre` and `post` are replaced by
`mid'` when the new headers lead from the last header of `pre` along `mid'` into `post`, and
besides that header only the one at `x`, which is on neither side, is written. -/
theorem Path.replace (pre mid mid' post : List Block) {x : Nat}
    (hp : Path h none (pre ++ (mid ++ post)) NULL) (hsep : Separated (pre ++ post))
    (hx : (∀ a ∈ pre, a.addr ≠ x) ∧ ∀ c ∈ post, c.addr ≠ x)
    (hnext : ∀ r, r ≠ last none pre → r ≠ some x → (h'.get r).next = (h.get r).next)
    (hlen : ∀ r, r ≠ none → r ≠ some x → (h'.get r).length = (h.get r).length)
    (hmid : Path h' (last none pre) mid' (h.get (last none (pre ++ mid))).next) :
    Path h' none (pre ++ (mid' ++ post)) NULL := by
  obtain ⟨h₁, h₂⟩ := path_append.mp hp
  obtain ⟨-, h₃⟩ := path_append.mp h₂
  rw [← last_append] at h₃
  have hend := hmid.end_eq
  obtain ⟨hsepre, -, hcross⟩ := separated_append.mp hsep
  have hoff : ∀ {a : Block}, a.addr ≠ x → some a.addr ≠ some x := fun ha heq =>
    ha (Option.some.inj heq)
  refine path_append.mpr ⟨h₁.congr_last (headers_nodup hsepre) ?_ ?_, path_append.mpr ⟨?_, ?_⟩⟩
  · exact fun r hr hne => hnext r hne (ne_some_of_mem_headers hx.1 r hr)
  · exact fun a ha => hlen _ (by simp) (hoff (hx.1 a ha))
  · rw [hend]
    exact hmid
  · refine h₃.enter hend (fun c hc => hnext _ (fun heq => ?_) (hoff (hx.2 c hc))) fun c hc =>
      hlen _ (by simp) (hoff (hx.2 c hc))
    -- no block of `post` is the block before it
    refine ne_some_of_mem_headers (fun a ha => ?_) _ (last_mem_headers none pre) heq.symm
    have := hcross a ha c hc
    simp only [Block.stop] at this
    omega

/-- No block before or after `b` starts inside `b` or right behind it. -/
theorem addr_ne_of_separated {pre post : List Block} {b : Block} {x : Nat}
    (hsep : Separated (pre ++ b :: post)) (hlow : b.addr ≤ x) (hhigh : x ≤ b.stop) :
    (∀ a ∈ pre, a.addr ≠ x) ∧ ∀ c ∈ post, c.addr ≠ x := by
  obtain ⟨-, -, -, hbelow, habove⟩ := separated_append_cons.mp hsep
  constructor
  · intro a ha
    have := hbelow a ha
    simp only [Block.stop] at this
    omega
  · intro c hc
    have := habove c hc
    omega

/-- Separated blocks inside an interval are together no longer than it. -/
theorem sum_len_le {lo hi : Nat} (hsep : Separated l) (hle : lo ≤ hi)
    (hin : ∀ b ∈ l, lo ≤ b.addr ∧ b.stop ≤ hi) : (l.map Block.len).sum ≤ hi - lo := by
  induction l generalizing lo with
  | nil => simp
  | cons b l ih =>
    obtain ⟨hlo, hhi⟩ := hin b mem_cons_self
    have hrest := ih hsep.tail hhi fun c hc =>
      ⟨(hsep.gap hc).le, (hin c (mem_cons_of_mem _ hc)).2⟩
    simp only [map_cons, sum_cons, Block.stop] at hrest hhi ⊢
    omega

theorem FreeList.total_lt (F : FreeList h l) (hb : Bounds h) : (l.map Block.len).sum < 2 ^ 32 := by
  rcases l.eq_nil_or_concat with rfl | ⟨k, b, rfl⟩
  · simp
  · have hb' := F.inside b (by simp)
    have hle : h.memheap ≤ h.maxaddr := by
      have := hb'.2
      simp only [Block.stop] at this
      omega
    have := sum_len_le F.separated hle F.inside
    have := hb.lt
    omega

theorem sum_append_cons (pre post : List Block) (b : Block) :
    ((pre ++ b :: post).map Block.len).sum = b.len + ((pre ++ post).map Block.len).sum := by
  simp only [map_append, map_cons, sum_append, sum_cons]
  omega

end Heap

end Xinu
