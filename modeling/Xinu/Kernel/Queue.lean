import Xinu.Kernel.State

/-!
# The queue table

All queues of the kernel are threaded through `quetab`: entry `t` below `NTHREAD` is the node of
the thread `t`, and a queue `q` has the head node `q` and the tail node `q + 1`. `enqueue` and
`dequeue` treat a queue as first-in first-out, `insert` keeps it sorted by descending key, and
`insertd` keeps it as a delta list, in which a key counts from that of the node in front.

The two insertions walk the queue. No walk visits more nodes than the table has, so the walks
here stop after `NQENT` steps.
-/

namespace Xinu

/-- Check for invalid queue ids. -/
def isbadqid (x : Int) : Prop := x < 0 ∨ x ≠ x + 1 - 1 ∨ NQENT ≤ x + 1
deriving Decidable

namespace Kernel

/-- The macros `isempty`, `nonempty`, `firstid` and `firstkey`. -/
def firstid (s : Kernel) (q : Int) : Int := (s.quetab q).next

def isempty (s : Kernel) (q : Int) : Prop := NTHREAD ≤ s.firstid q
deriving Decidable

def nonempty (s : Kernel) (q : Int) : Prop := s.firstid q < NTHREAD
deriving Decidable

def firstkey (s : Kernel) (q : Int) : Int := (s.quetab (s.firstid q)).key

/-- `getitem`: remove a thread from an arbitrary point in a queue. -/
def getitem (s : Kernel) (tid : Int) : Kernel × Int :=
  let next := (s.quetab tid).next
  let prev := (s.quetab tid).prev
  let s := s.setNext prev next
  let s := s.setPrev next prev
  let s := s.setNext tid EMPTY
  let s := s.setPrev tid EMPTY
  (s, tid)

/-- `getfirst`: remove a thread from the front of a queue. -/
def getfirst (s : Kernel) (q : Int) : Kernel × Int :=
  if isbadqid q then (s, SYSERR)
  else if s.isempty q then (s, EMPTY)
  else s.getitem (s.quetab q).next

/-- `enqueue`: insert a thread at the tail of a queue. -/
def enqueue (s : Kernel) (tid q : Int) : Kernel × Int :=
  if isbadqid q ∨ s.isbadtid tid then (s, SYSERR)
  else
    let tail := q + 1
    let prev := (s.quetab tail).prev
    let s := s.setNext tid tail
    let s := s.setPrev tid prev
    let s := s.setNext prev tid
    let s := s.setPrev tail tid
    (s, tid)

/-- `dequeue`: remove and return the first thread on a queue. -/
def dequeue (s : Kernel) (q : Int) : Kernel × Int :=
  if isbadqid q then (s, SYSERR)
  else if s.isempty q then (s, EMPTY)
  else
    let r := s.getfirst q
    if r.1.isbadtid r.2 then r
    else ((r.1.setPrev r.2 EMPTY).setNext r.2 EMPTY, r.2)

/-- The walk of `insert` to the first node with a smaller key. -/
def insertScan (s : Kernel) (key : Int) : Nat → Int → Int
  | 0, next => next
  | fuel + 1, next =>
    if key ≤ (s.quetab next).key then insertScan s key fuel (s.quetab next).next else next

/-- `insert`: insert a thread into a queue in descending key order. -/
def insert (s : Kernel) (tid q key : Int) : Kernel × Int :=
  if isbadqid q ∨ s.isbadtid tid then (s, SYSERR)
  else
    let next := s.insertScan key NQENT.toNat (s.quetab q).next
    -- insert tid between prev and next
    let s := s.setNext tid next
    let prev := (s.quetab next).prev
    let s := s.setPrev tid prev
    let s := s.setKey tid key
    let s := s.setNext prev tid
    let s := s.setPrev next tid
    (s, OK)

/-- The walk of `insertd`, as `(prev, next, key)`: the key left over, and the nodes between which
it belongs. -/
def insertdScan (s : Kernel) (tail : Int) : Nat → Int → Int → Int → Int × Int × Int
  | 0, prev, next, key => (prev, next, key)
  | fuel + 1, prev, next, key =>
    if (s.quetab next).key ≤ key ∧ next ≠ tail then
      insertdScan s tail fuel next (s.quetab next).next (key - (s.quetab next).key)
    else (prev, next, key)

/-- `insertd`: insert a thread in a delta list using `key` as its delay. -/
def insertd (s : Kernel) (tid q key : Int) : Kernel × Int :=
  if isbadqid q ∨ s.isbadtid tid then (s, SYSERR)
  else
    let r := s.insertdScan (q + 1) NQENT.toNat q (s.quetab q).next key
    let prev := r.1
    let next := r.2.1
    let key := r.2.2
    let s := s.setNext tid next
    let s := s.setPrev tid prev
    let s := s.setKey tid key
    let s := s.setNext prev tid
    let s := s.setPrev next tid
    (if next ≠ q + 1 then s.setKey next ((s.quetab next).key - key) else s, OK)

/-- `queinit`: initialize a new queue. -/
def queinit (s : Kernel) : Kernel × Int :=
  if NQENT < s.nextqid then (s, SYSERR)
  else
    let q := s.nextqid
    let s := { s with nextqid := s.nextqid + 2 }
    let s := s.setNext q (q + 1)
    let s := s.setPrev q EMPTY
    let s := s.setKey q MAXKEY
    let s := s.setNext (q + 1) EMPTY
    let s := s.setPrev (q + 1) q
    let s := s.setKey (q + 1) MINKEY
    (s, q)

end Kernel

end Xinu
