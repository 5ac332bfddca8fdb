import Mathlib.Data.Int.Order.Basic
import Xinu.Foundations.KeyedList
import Xinu.Kernel.State

/-!
# The scheduler on lists

What the kernel does to its threads, without the links: each queue is the list of the threads on
it, in order. A system call is a sequence of events, each of which takes one thread from one state
and queue to another or changes data that no queue depends on.
-/

namespace Xinu

open Function KeyedList

/-- The thread ids. -/
def IsTid (t : Int) : Prop := 0 ≤ t ∧ t < NTHREAD
deriving Decidable

/-- The queue ids: one for each semaphore, the ready list and the sleep queue. -/
def IsQueue (q : Int) : Prop := ∃ i : Nat, i < NSEM + 2 ∧ q = NTHREAD + 2 * i

namespace Globals

variable (g : Globals)

/-- The state of a thread. -/
def state (t : Int) : ThrState := (g.thrtab t).state

/-- The queue a thread belongs on. -/
def home (t : Int) : Option Int :=
  match g.state t with
  | .ready => some g.readylist
  | .wait => some (g.semtab (g.thrtab t).sem).queue
  | .sleep => some g.sleepq
  | .tmout => some g.sleepq
  | _ => none

end Globals

/-- The state of the kernel with its queues as lists. -/
structure Sched extends Globals where
  queue : Int → List Int
  key : Int → Int

/-- What can happen to the threads. -/
inductive Event
  /-- `t`, which waits for something or is suspended, is put on the ready list -/
  | ready (t : Int)
  /-- the ready thread `t` is suspended -/
  | hold (t : Int)
  /-- the current thread waits off the queues -/
  | block (st : ThrState)
  /-- the current thread waits on a semaphore -/
  | enqueue (sem : Nat)
  /-- the current thread goes on the sleep queue -/
  | doze (delay : Int) (st : ThrState)
  /-- the sleeping thread `t` gives its delay to the one behind it -/
  | lend (t : Int)
  /-- the first sleeping thread comes one tick closer -/
  | tick
  | resched
  /-- `t` leaves the system -/
  | free (t : Int)
  /-- the slot `t` is given to a new thread -/
  | spawn (t : Int) (e : ThrEnt)
  | prio (t p : Int)
  | message (t m : Int) (has : Bool)
  | ctx (t : Int) (k : Context)
  | sem (i : Nat) (st : SemState) (count : Int)
  | heap (h : Heap)
  | thrcount (n : Int)
  | nexttid (n : Int)
  | nextsem (n : Nat)
  | clock (ticks time : Nat)
  | halt

namespace Sched

/-! ## Parts of the events -/

def modThr (v : Sched) (t : Int) (f : ThrEnt → ThrEnt) : Sched :=
  { v with thrtab := update v.thrtab t (f (v.thrtab t)) }

def setState (v : Sched) (t : Int) (st : ThrState) : Sched :=
  v.modThr t fun e => { e with state := st }

/-- `t` taken off whatever queue it is on. -/
def leave (v : Sched) (t : Int) : Sched := { v with queue := fun q => (v.queue q).erase t }

/-- `t` put on the ready list with the key `p`. -/
def enlist (v : Sched) (t p : Int) : Sched :=
  { v with
    queue := update v.queue v.readylist (insertBy v.key p t (v.queue v.readylist))
    key := update v.key t p }

/-- `t` made ready, by its priority. -/
def makeReady (v : Sched) (t : Int) : Sched :=
  ((v.leave t).setState t .ready).enlist t (v.thrtab t).prio

/-- Record a call of `ready` in the history. -/
def noted (v : Sched) (t : Int) : Sched := { v with readied := v.readied ++ [t] }

/-- `t` put at the end of the queue `q`. -/
def append (v : Sched) (t q : Int) : Sched :=
  { v with queue := update v.queue q (v.queue q ++ [t]) }

/-- `t` put on the sleep queue with a delay. -/
def delay (v : Sched) (t d : Int) : Sched :=
  { v with
    queue := update v.queue v.sleepq (insertDelta v.key (v.queue v.sleepq) t d).1
    key := (insertDelta v.key (v.queue v.sleepq) t d).2 }

/-- Record a completed call of `resched` in the history. -/
def dispatched (v : Sched) : Sched :=
  { v with rescheds := v.rescheds ++ [⟨false, v.thrcurrent, v.thrtab⟩] }

/-- The current thread stays ahead of the ready list. -/
def Leads (v : Sched) : Prop :=
  v.state v.thrcurrent = .curr ∧
    ∃ u ∈ (v.queue v.readylist).head?, v.key u < (v.thrtab v.thrcurrent).prio
deriving Decidable

/-- The ready list with the current thread on it, if that still runs. -/
def contend (v : Sched) : Sched :=
  if v.state v.thrcurrent = .curr then v.makeReady v.thrcurrent else v

/-- `h` taken off the ready list and given the processor. -/
def select (v : Sched) (h : Int) : Sched :=
  { (v.leave h).setState h .curr with thrcurrent := h }

/-- The processor goes to the first thread of the ready list, unless the current one leads. -/
def resched (v : Sched) : Sched :=
  if v.Leads then v.dispatched
  else
    match v.contend.queue v.readylist with
    | [] => v
    | h :: _ => (v.contend.select h).dispatched

/-! ## The events -/

/-- What an event does. -/
def apply (v : Sched) : Event → Sched
  | .ready t => (v.makeReady t).noted t
  | .hold t => (v.leave t).setState t .susp
  | .block st => (v.leave v.thrcurrent).setState v.thrcurrent st
  | .enqueue i =>
    (v.modThr v.thrcurrent fun e => { e with state := .wait, sem := i }).append v.thrcurrent
      (v.semtab i).queue
  | .doze d st => (v.delay v.thrcurrent d).setState v.thrcurrent st
  | .lend t => { v with key := lend v.key (v.queue v.sleepq) t }
  | .tick => { v with key := addAt v.key (v.queue v.sleepq).head? (-1) }
  | .resched => v.resched
  | .free t => (v.leave t).setState t .free
  | .spawn t e => (v.leave t).modThr t fun _ => e
  | .prio t p => v.modThr t fun e => { e with prio := p }
  | .message t m has => v.modThr t fun e => { e with msg := m, hasmsg := has }
  | .ctx t k => v.modThr t fun e => { e with ctx := k }
  | .sem i st c =>
    { v with semtab := update v.semtab i { v.semtab i with state := st, count := c } }
  | .heap h => { v with heap := h }
  | .thrcount n => { v with thrcount := n }
  | .nexttid n => { v with nexttid := n }
  | .nextsem n => { v with nextsem := n }
  | .clock ticks time => { v with clkticks := ticks, clktime := time }
  | .halt => { v with halted := true }

/-- When an event may happen. -/
def Enabled (v : Sched) : Event → Prop
  | .ready t =>
    IsTid t ∧ (v.state t = .recv → (v.thrtab t).hasmsg = true) ∧
      (v.state t = .recv ∨ v.state t = .sleep ∨ v.state t = .susp ∨ v.state t = .wait ∨
        v.state t = .tmout)
  | .hold t => IsTid t ∧ t ≠ NULLTHREAD ∧ v.state t = .ready
  | .block st =>
    v.state v.thrcurrent = .curr ∧ v.thrcurrent ≠ NULLTHREAD ∧ (st = .susp ∨ st = .recv)
  | .enqueue i => v.state v.thrcurrent = .curr ∧ v.thrcurrent ≠ NULLTHREAD ∧ i < NSEM
  | .doze d st =>
    v.state v.thrcurrent = .curr ∧ v.thrcurrent ≠ NULLTHREAD ∧ 0 ≤ d ∧
      (st = .sleep ∨ st = .tmout)
  | .free t =>
    IsTid t ∧ t ≠ NULLTHREAD ∧ v.state t ≠ .free ∧ v.state t ≠ .sleep ∧ v.state t ≠ .tmout
  | .spawn t e =>
    IsTid t ∧ v.state t = .free ∧ e.state = .susp ∧ MINKEY < e.prio ∧ e.hasmsg = false ∧
      e.ctx = .user
  | .prio _ p => MINKEY < p
  | _ => True

end Sched

/-- The machine of the events. -/
def schedMachine : Machine Sched Event where
  enabled := Sched.Enabled
  next := Sched.apply

end Xinu
