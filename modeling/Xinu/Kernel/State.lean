import Xinu.Memory.Heap

/-!
# The state of the kernel

The tables and variables the thread, semaphore, queue and clock code shares: the thread table
`thrtab`, the queue table `quetab` that threads all queues through one array of links, the
semaphore table `semtab`, and the counters around them.

A system call runs with interrupts disabled, so it is atomic up to the point where it calls
`resched`. What a thread still has to do after that call, once it is dispatched again, is kept on
its stack by `ctxsw`; here it is its `Context`.
-/

namespace Xinu

/-! ## Constants -/

/-- Number of user threads, from the platforms' configuration. -/
def NTHREAD : Int := 100

/-- Number of semaphores, from the platforms' configuration. -/
def NSEM : Nat := 100

/-- One entry per thread, two per list, two per semaphore. -/
def NQENT : Int := NTHREAD + 4 + NSEM + NSEM

/-- Null pointer for queues. -/
def EMPTY : Int := -2

/-- The largest and the smallest key that can be saved in a queue. -/
def MAXKEY : Int := 0x7FFFFFFF
def MINKEY : Int := -0x80000000

/-- Id of the null thread. -/
def NULLTHREAD : Int := 0

/-- Minimum thread stack size. -/
def MINSTK : Nat := 128

/-- Clock timer resolution. -/
def CLKTICKS_PER_SEC : Nat := 10

/-- Further return constants of `stddef.h`. -/
def TIMEOUT : Int := -3
def NOMSG : Int := -4

/-! ## Table entries -/

/-- The thread states `THRCURR`, `THRFREE`, `THRREADY`, `THRRECV`, `THRSLEEP`, `THRSUSP`,
`THRWAIT` and `THRTMOUT`. -/
inductive ThrState
  | curr
  | free
  | ready
  | recv
  | sleep
  | susp
  | wait
  | tmout
deriving DecidableEq, Repr, Inhabited

/-- Where a thread goes on when it next has the processor. -/
inductive Context
  /-- in its own code -/
  | user
  /-- at the end of a system call, which returns `v` -/
  | ret (v : Int)
  /-- in `suspend`, behind its call of `resched` -/
  | suspend (tid : Int)
  /-- in `receive`, behind its call of `resched` -/
  | receive
  /-- in `recvtime`, behind its call of `resched` -/
  | recvtime
  /-- in `kill`, behind its `send` to the parent -/
  | kill (tid : Int)
  /-- in `kill`, behind the `resched` of a thread that has freed itself -/
  | killed (tid : Int)
deriving DecidableEq, Repr, Inhabited

/-- `struct thrent`, with the context that `stkptr` leads to. -/
structure ThrEnt where
  state : ThrState
  prio : Int
  stkbase : Nat
  stklen : Nat
  sem : Nat
  parent : Int
  msg : Int
  hasmsg : Bool
  ctx : Context
deriving DecidableEq, Repr, Inhabited

/-- `struct queent`. -/
structure QueEnt where
  key : Int
  next : Int
  prev : Int
deriving DecidableEq, Repr, Inhabited

/-- The semaphore states `SFREE` and `SUSED`. -/
inductive SemState
  | free
  | used
deriving DecidableEq, Repr, Inhabited

/-- `struct sement`. -/
structure SemEnt where
  state : SemState
  count : Int
  queue : Int
deriving DecidableEq, Repr, Inhabited

/-- What held when a call of `resched` was done: whether the ready list was empty when it
dequeued, the thread it left in `thrcurrent`, and the thread table. -/
structure Dispatch where
  empty : Bool
  thrcurrent : Int
  thrtab : Int → ThrEnt

/-! ## The kernel's variables -/

/-- The variables of the kernel other than the queue table. The last two are history variables
that no code reads: the completed calls of `resched`, and the threads passed to `ready`. -/
structure Globals where
  thrtab : Int → ThrEnt
  semtab : Nat → SemEnt
  thrcount : Int
  thrcurrent : Int
  readylist : Int
  sleepq : Int
  nextqid : Int
  nexttid : Int
  nextsem : Nat
  resdefer : Int
  clkticks : Nat
  clktime : Nat
  heap : Heap
  /-- `xdone` has stopped the machine -/
  halted : Bool
  rescheds : List Dispatch
  readied : List Int

/-- The state of the kernel. -/
structure Kernel extends Globals where
  quetab : Int → QueEnt

/-- A table with one entry replaced: `Function.update`, without its cast, so that tables with
computed indices still evaluate. -/
def store {ι α : Type} [DecidableEq ι] (f : ι → α) (i : ι) (a : α) : ι → α :=
  fun j => if j = i then a else f j

theorem store_eq_update {ι α : Type} [DecidableEq ι] (f : ι → α) (i : ι) (a : α) :
    store f i a = Function.update f i a := by
  funext j
  rw [store, Function.update_apply]

namespace Kernel

/-- Writes into the entry of a thread, a semaphore and a queue node. -/
def modThr (s : Kernel) (tid : Int) (f : ThrEnt → ThrEnt) : Kernel :=
  { s with thrtab := store s.thrtab tid (f (s.thrtab tid)) }

def modSem (s : Kernel) (sem : Nat) (f : SemEnt → SemEnt) : Kernel :=
  { s with semtab := store s.semtab sem (f (s.semtab sem)) }

def modQue (s : Kernel) (i : Int) (f : QueEnt → QueEnt) : Kernel :=
  { s with quetab := store s.quetab i (f (s.quetab i)) }

/-- `thrtab[tid].state = st`. -/
def setState (s : Kernel) (tid : Int) (st : ThrState) : Kernel :=
  s.modThr tid fun e => { e with state := st }

/-- `quetab[i].next = v`, `quetab[i].prev = v` and `quetab[i].key = v`. -/
def setNext (s : Kernel) (i v : Int) : Kernel := s.modQue i fun e => { e with next := v }

def setPrev (s : Kernel) (i v : Int) : Kernel := s.modQue i fun e => { e with prev := v }

def setKey (s : Kernel) (i v : Int) : Kernel := s.modQue i fun e => { e with key := v }

/-- Check for invalid thread ids. -/
def isbadtid (s : Kernel) (x : Int) : Prop :=
  NTHREAD ≤ x ∨ x < 0 ∨ (s.thrtab x).state = .free
deriving Decidable

/-- Check validity of a requested semaphore id and state. -/
def isbadsem (s : Kernel) (sem : Nat) : Prop := NSEM ≤ sem ∨ (s.semtab sem).state = .free
deriving Decidable

end Kernel

end Xinu
