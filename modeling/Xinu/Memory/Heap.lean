import Mathlib.Algebra.Ring.Int.Defs
import Mathlib.Algebra.Ring.Nat
import Mathlib.Logic.Function.Basic
import Xinu.Foundations.Machine

/-!
# The heap: `memget`, `stkget` and `memfree`

The free memory of the kernel is a list of blocks threaded through the memory it describes:
each free block starts with a `struct memblock` that holds the address of the next free block and
the length of this one, and the global `memlist` is a pseudo block in front of the first. Addresses
and lengths are 32-bit words, so every sum and difference is taken modulo `2 ^ 32` as the machine
takes it.
-/

namespace Xinu

/-- The null pointer of `stddef.h`. -/
def NULL : Nat := 0

/-- Universal return constants of `stddef.h`. -/
def OK : Int := 1
def SYSERR : Int := -1

/-- Sum of two 32-bit words. -/
def add32 (a b : Nat) : Nat := (a + b) % 2 ^ 32

/-- Difference of two 32-bit words. -/
def sub32 (a b : Nat) : Nat := (a + (2 ^ 32 - b % 2 ^ 32)) % 2 ^ 32

theorem add32_eq {a b : Nat} (h : a + b < 2 ^ 32 := by omega) : add32 a b = a + b :=
  Nat.mod_eq_of_lt h

theorem sub32_eq {a b : Nat} (h : b ≤ a := by omega) (h' : a < 2 ^ 32 := by omega) :
    sub32 a b = a - b := by
  unfold sub32
  omega

/-- `roundmb`: an address or a size rounded up to the size of a `struct memblock`,
`(7 + x) & ~7`. -/
def roundmb (x : Nat) : Nat := add32 7 x / 8 * 8

/-- `truncmb`: an address truncated down to the size of a `struct memblock`, `x & ~7`. -/
def truncmb (x : Nat) : Nat := x / 8 * 8

/-- `struct memblock`. -/
structure MemBlock where
  next : Nat
  length : Nat
deriving DecidableEq, Inhabited

/-- The heap: its bounds, the list head `memlist`, and the `struct memblock` that stands at each
address. All blocks are 8-aligned and 8 bytes hold a header, so distinct headers never overlap. -/
structure Heap where
  memheap : Nat
  maxaddr : Nat
  memlist : MemBlock
  mem : Nat → MemBlock

namespace Heap

/-- The block header a pointer of type `struct memblock *` stands for: `none` is `&memlist`. -/
def get (h : Heap) : Option Nat → MemBlock
  | none => h.memlist
  | some a => h.mem a

/-- `p->next = v`. -/
def setNext (h : Heap) (p : Option Nat) (v : Nat) : Heap :=
  match p with
  | none => { h with memlist := { h.memlist with next := v } }
  | some a => { h with mem := Function.update h.mem a { h.mem a with next := v } }

/-- `p->length = v`. -/
def setLength (h : Heap) (p : Option Nat) (v : Nat) : Heap :=
  match p with
  | none => { h with memlist := { h.memlist with length := v } }
  | some a => { h with mem := Function.update h.mem a { h.mem a with length := v } }

/-- No walk of the free list visits more blocks than there are addresses, so a walk that has not
ended after this many steps goes round in a cycle. -/
def walkBound : Nat := 2 ^ 32

/-- The loop of `memget` at the block `curr`, with `prev` the block before it. -/
def memgetLoop (h : Heap) (nbytes : Nat) : Nat → Option Nat → Nat → Heap × Option Nat
  | 0, _, _ => (h, none)
  | fuel + 1, prev, curr =>
    if curr = NULL then (h, none)
    else if (h.mem curr).length = nbytes then
      let h := h.setNext prev (h.mem curr).next
      (h.setLength none (sub32 h.memlist.length nbytes), some curr)
    else if nbytes < (h.mem curr).length then
      -- split block into two
      let leftover := add32 curr nbytes
      let h := h.setNext prev leftover
      let h := h.setNext (some leftover) (h.mem curr).next
      let h := h.setLength (some leftover) (sub32 (h.mem curr).length nbytes)
      (h.setLength none (sub32 h.memlist.length nbytes), some curr)
    else memgetLoop h nbytes fuel (some curr) (h.mem curr).next

/-- `memget`: allocate heap storage from the bottom of the first block that fits; `none` is
`SYSERR`. -/
def memget (h : Heap) (nbytes : Nat) : Heap × Option Nat :=
  if nbytes = 0 then (h, none)
  else memgetLoop h (roundmb nbytes) walkBound none h.memlist.next

/-- The scan of `stkget` for the highest block that fits, as `(fitsprev, fits)`. -/
def stkgetScan (h : Heap) (nbytes : Nat) :
    Nat → Option Nat → Nat → Option (Option Nat × Nat) → Option (Option Nat × Nat)
  | 0, _, _, fits => fits
  | fuel + 1, prev, next, fits =>
    if next = NULL then fits
    else if nbytes ≤ (h.mem next).length then
      stkgetScan h nbytes fuel (some next) (h.mem next).next (some (prev, next))
    else stkgetScan h nbytes fuel (some next) (h.mem next).next fits

/-- `stkget`: allocate stack memory from the top of the last block that fits, returning the
address of its topmost word; `none` is `SYSERR`. -/
def stkget (h : Heap) (nbytes : Nat) : Heap × Option Nat :=
  if nbytes = 0 then (h, none)
  else
    let nbytes := roundmb nbytes
    match stkgetScan h nbytes walkBound none h.memlist.next none with
    | none => (h, none)
    | some (fitsprev, fits) =>
      if nbytes = (h.mem fits).length then
        let h := h.setNext fitsprev (h.mem fits).next
        let h := h.setLength none (sub32 h.memlist.length nbytes)
        (h, some (sub32 (add32 fits nbytes) 4))
      else
        -- take top portion
        let h := h.setLength (some fits) (sub32 (h.mem fits).length nbytes)
        let fits := add32 fits (h.mem fits).length
        let h := h.setLength none (sub32 h.memlist.length nbytes)
        (h, some (sub32 (add32 fits nbytes) 4))

/-- The search of `memfree` for the neighbours of `block`: the last block below it and the first
block not below it. `none` when the walk does not end. -/
def memfreeScan (h : Heap) (block : Nat) : Nat → Option Nat → Nat → Option (Option Nat × Nat)
  | 0, _, _ => none
  | fuel + 1, prev, next =>
    if next ≠ NULL ∧ next < block then memfreeScan h block fuel (some next) (h.mem next).next
    else some (prev, next)

/-- `memfree`'s step "find top of previous memblock". -/
def top (h : Heap) : Option Nat → Nat
  | none => NULL
  | some p => add32 p (h.mem p).length

/-- `memfree`'s step "coalesce with previous block if adjacent": the header of the block that now
holds the memory, `prev` itself or a new one linked behind it. -/
def coalescePrev (h : Heap) (block nbytes : Nat) (prev : Option Nat) (next top : Nat) :
    Heap × Option Nat :=
  if top = block then (h.setLength prev (add32 (h.get prev).length nbytes), prev)
  else
    let h := h.setNext (some block) next
    let h := h.setLength (some block) nbytes
    (h.setNext prev block, some block)

/-- `memfree`'s step "coalesce with next block if adjacent". -/
def coalesceNext (h : Heap) (block : Option Nat) (next : Nat) : Heap :=
  if add32 (block.getD NULL) (h.get block).length = next then
    let h := h.setLength block (add32 (h.get block).length (h.mem next).length)
    h.setNext block (h.mem next).next
  else h

/-- `memfree` once the neighbours `prev` and `next` of `block` are found. -/
def memfreeAt (h : Heap) (block nbytes : Nat) (prev : Option Nat) (next : Nat) : Heap × Int :=
  let top := h.top prev
  -- make sure block is not overlapping on prev or next blocks
  if block < top ∨ (next ≠ NULL ∧ next < add32 block nbytes) then (h, SYSERR)
  else
    let h := h.setLength none (add32 h.memlist.length nbytes)
    let r := h.coalescePrev block nbytes prev next top
    (r.1.coalesceNext r.2 next, OK)

/-- `memfree`: free a memory block, returning it to the free list. -/
def memfree (h : Heap) (memptr nbytes : Nat) : Heap × Int :=
  -- make sure block is in heap
  if nbytes = 0 ∨ memptr < h.memheap ∨ h.maxaddr < memptr then (h, SYSERR)
  else
    match memfreeScan h memptr walkBound none h.memlist.next with
    | none => (h, SYSERR)
    | some (prev, next) => memfreeAt h memptr (roundmb nbytes) prev next

/-- `stkfree(p, len)`: free the allocated stack memory whose topmost word is `p`. -/
def stkfree (h : Heap) (p len : Nat) : Heap × Int :=
  h.memfree (add32 (sub32 p (roundmb len)) 4) (roundmb len)

/-- The part of `sysinit` that initializes the free memory list: one block from `memheap` to
`platform.maxaddr`, over a memory with any contents. -/
def sysinit (memheap maxaddr : Nat) (mem : Nat → MemBlock) : Heap :=
  let memheap := roundmb memheap
  let maxaddr := truncmb maxaddr
  { memheap := memheap
    maxaddr := maxaddr
    memlist := { next := memheap, length := sub32 maxaddr memheap }
    mem := Function.update mem memheap { next := NULL, length := sub32 maxaddr memheap } }

end Heap

end Xinu
