import Xinu.Kernel.Queue

/-!
# Scheduling and the system calls

`resched`, `ready` and the system calls built on them: suspending and resuming, semaphores,
sleeping and the clock interrupt, messages, and the creation and killing of threads.

A system call is translated up to its call of `resched`, or to its end when it makes none. It
returns the state there and the `Context` in which the calling thread goes on. What the call does
behind `resched` is a function of its own, which runs when the caller has the processor again.
-/

namespace Xinu.Kernel

/-! ## The scheduler -/

/-- Record a completed call of `resched` in the history. -/
def dispatched (s : Kernel) (empty : Bool) : Kernel :=
  { s with rescheds := s.rescheds ++ [⟨empty, s.thrcurrent, s.thrtab⟩] }

/-- `resched`: reschedule the processor to the highest priority ready thread, up to the context
switch. -/
def resched (s : Kernel) : Kernel :=
  -- if deferred, increase count & return
  if 0 < s.resdefer then { s with resdefer := s.resdefer + 1 }
  else
    let throld := s.thrtab s.thrcurrent
    if throld.state = .curr ∧ s.nonempty s.readylist ∧ s.firstkey s.readylist < throld.prio then
      s.dispatched false
    else
      let s :=
        if throld.state = .curr then
          ((s.setState s.thrcurrent .ready).insert s.thrcurrent s.readylist throld.prio).1
        else s
      -- get highest priority thread from ready list
      let empty := decide (s.isempty s.readylist)
      let r := s.dequeue s.readylist
      let s := { r.1 with thrcurrent := r.2 }
      (s.setState s.thrcurrent .curr).dispatched empty

/-- Record a call of `ready` in the history. -/
def noted (s : Kernel) (tid : Int) : Kernel := { s with readied := s.readied ++ [tid] }

/-- `ready`: make a thread eligible for CPU service. -/
def ready (s : Kernel) (tid : Int) (resch : Bool) : Kernel × Int :=
  if s.isbadtid tid then (s, SYSERR)
  else
    let s := (s.setState tid .ready).noted tid
    let s := (s.insert tid s.readylist (s.thrtab tid).prio).1
    (if resch then s.resched else s, OK)

/-- `yield`: yield the processor. -/
def yield (s : Kernel) : Kernel × Context := (s.resched, .ret OK)

/-- `resume`: resume a suspended thread, making it ready. -/
def resume (s : Kernel) (tid : Int) : Kernel × Context :=
  if s.isbadtid tid ∨ (s.thrtab tid).state ≠ .susp then (s, .ret SYSERR)
  else
    let prio := (s.thrtab tid).prio
    ((s.ready tid true).1, .ret prio)

/-- `suspend`: suspend a thread, placing it in hibernation. -/
def suspend (s : Kernel) (tid : Int) : Kernel × Context :=
  if s.isbadtid tid ∨ NULLTHREAD = tid then (s, .ret SYSERR)
  else if (s.thrtab tid).state ≠ .curr ∧ (s.thrtab tid).state ≠ .ready then (s, .ret SYSERR)
  else if (s.thrtab tid).state = .ready then
    let s := (s.getitem tid).1
    let s := s.setState tid .susp
    (s, .ret (s.thrtab tid).prio)
  else ((s.setState tid .susp).resched, .suspend tid)

/-- `suspend` behind its call of `resched`. -/
def suspendRest (s : Kernel) (tid : Int) : Kernel × Context := (s, .ret (s.thrtab tid).prio)

/-- `chprio`: change the scheduling priority of a thread. -/
def chprio (s : Kernel) (tid newprio : Int) : Kernel × Context :=
  if s.isbadtid tid then (s, .ret SYSERR)
  else
    let oldprio := (s.thrtab tid).prio
    (s.modThr tid fun e => { e with prio := newprio }, .ret oldprio)

/-! ## Semaphores -/

/-- `wait`: wait on a semaphore. -/
def wait (s : Kernel) (sem : Nat) : Kernel × Context :=
  if s.isbadsem sem then (s, .ret SYSERR)
  else
    let s := s.modSem sem fun e => { e with count := e.count - 1 }
    if (s.semtab sem).count < 0 then
      let s := s.modThr s.thrcurrent fun e => { e with state := .wait, sem := sem }
      let s := (s.enqueue s.thrcurrent (s.semtab sem).queue).1
      (s.resched, .ret OK)
    else (s, .ret OK)

/-- `signal`: signal a semaphore, releasing one waiting thread. -/
def signal (s : Kernel) (sem : Nat) : Kernel × Context :=
  if s.isbadsem sem then (s, .ret SYSERR)
  else
    let count := (s.semtab sem).count
    let s := s.modSem sem fun e => { e with count := e.count + 1 }
    if count < 0 then
      let r := s.dequeue (s.semtab sem).queue
      ((r.1.ready r.2 true).1, .ret OK)
    else (s, .ret OK)

/-- The loop of `signaln`. -/
def signalnLoop (sem : Nat) : Nat → Kernel → Kernel
  | 0, s => s
  | n + 1, s =>
    let count := (s.semtab sem).count
    let s := s.modSem sem fun e => { e with count := e.count + 1 }
    if count < 0 then
      let r := s.dequeue (s.semtab sem).queue
      signalnLoop sem n (r.1.ready r.2 false).1
    else signalnLoop sem n s

/-- `signaln`: signal a semaphore `count` times, releasing up to as many waiting threads. -/
def signaln (s : Kernel) (sem : Nat) (count : Int) : Kernel × Context :=
  if s.isbadsem sem ∨ count ≤ 0 then (s, .ret SYSERR)
  else ((signalnLoop sem count.toNat s).resched, .ret OK)

/-- The loop of `semalloc` over the slots of the semaphore table; `none` is `SYSERR`. -/
def semallocLoop : Nat → Kernel → Kernel × Option Nat
  | 0, s => (s, none)
  | n + 1, s =>
    let s := { s with nextsem := (s.nextsem + 1) % NSEM }
    if (s.semtab s.nextsem).state = .free then
      (s.modSem s.nextsem fun e => { e with state := .used }, some s.nextsem)
    else semallocLoop n s

/-- `semcreate`: create a semaphore with a specified count. -/
def semcreate (s : Kernel) (count : Int) : Kernel × Context :=
  match semallocLoop NSEM s with
  | (s, none) => (s, .ret SYSERR)
  | (s, some sem) =>
    if 0 ≤ count then (s.modSem sem fun e => { e with count := count }, .ret sem)
    else (s, .ret SYSERR)

/-- The loop of `semfree`: free waiting threads. -/
def semfreeLoop (sem : Nat) : Nat → Kernel → Kernel
  | 0, s => s
  | n + 1, s =>
    if s.nonempty (s.semtab sem).queue then
      let r := s.dequeue (s.semtab sem).queue
      semfreeLoop sem n (r.1.ready r.2 false).1
    else s

/-- `semfree`: deallocate a semaphore. -/
def semfree (s : Kernel) (sem : Nat) : Kernel × Context :=
  if s.isbadsem sem then (s, .ret SYSERR)
  else
    let s := semfreeLoop sem NQENT.toNat s
    (s.modSem sem fun e => { e with count := 0, state := .free }, .ret OK)

/-! ## The clock -/

/-- `sleep`: delay the calling thread `ms` milliseconds. -/
def sleep (s : Kernel) (ms : Nat) : Kernel × Context :=
  let ticks : Nat := ms * CLKTICKS_PER_SEC % 2 ^ 32 / 1000
  if 0 < ticks then
    let r := s.insertd s.thrcurrent s.sleepq ticks
    if r.2 = SYSERR then (r.1, .ret SYSERR)
    else ((r.1.setState r.1.thrcurrent .sleep).resched, .ret OK)
  else (s.resched, .ret OK)

/-- `unsleep`: remove a thread from the sleep queue prematurely. -/
def unsleep (s : Kernel) (tid : Int) : Kernel × Int :=
  if s.isbadtid tid then (s, SYSERR)
  else if (s.thrtab tid).state ≠ .sleep ∧ (s.thrtab tid).state ≠ .tmout then (s, SYSERR)
  else
    let next := (s.quetab tid).next
    let s := if next < NTHREAD then s.setKey next ((s.quetab next).key + (s.quetab tid).key) else s
    ((s.getitem tid).1, OK)

/-- The loop of `wakeup`. -/
def wakeupLoop : Nat → Kernel → Kernel
  | 0, s => s
  | n + 1, s =>
    if s.nonempty s.sleepq ∧ s.firstkey s.sleepq ≤ 0 then
      let r := s.dequeue s.sleepq
      wakeupLoop n (r.1.ready r.2 false).1
    else s

/-- `wakeup`: ready all threads that have no more time to sleep. -/
def wakeup (s : Kernel) : Kernel := wakeupLoop NQENT.toNat s

/-- The clock and the second counter of `clkhandler`. -/
def clkadvance (s : Kernel) : Kernel :=
  let s := { s with clkticks := (s.clkticks + 1) % 2 ^ 32 }
  if CLKTICKS_PER_SEC ≤ s.clkticks then
    { s with clktime := (s.clktime + 1) % 2 ^ 32, clkticks := 0 }
  else s

/-- `clkhandler`: the interrupt handler of the clock, up to its call of `resched`. -/
def clktick (s : Kernel) : Kernel :=
  let s := s.clkadvance
  -- if sleepq is not empty, decrement first key; if key reaches zero, call wakeup
  if s.nonempty s.sleepq then
    let s := s.setKey (s.firstid s.sleepq) (s.firstkey s.sleepq - 1)
    if s.firstkey s.sleepq ≤ 0 then s.wakeup else s
  else s

/-- `clkhandler`; the interrupted thread goes on in its own code. -/
def clkhandler (s : Kernel) : Kernel × Context := (s.clktick.resched, .user)

/-! ## Messages -/

/-- `send`: send a message to a thread. -/
def send (s : Kernel) (tid msg : Int) : Kernel × Int :=
  if s.isbadtid tid then (s, SYSERR)
  else if (s.thrtab tid).state = .free ∨ (s.thrtab tid).hasmsg = true then (s, SYSERR)
  else
    -- deposit message, raise message flag
    let s := s.modThr tid fun e => { e with msg := msg, hasmsg := true }
    -- if receiver waits, start it
    if (s.thrtab tid).state = .recv then ((s.ready tid true).1, OK)
    else if (s.thrtab tid).state = .tmout then (((s.unsleep tid).1.ready tid true).1, OK)
    else (s, OK)

/-- `receive` behind its call of `resched`: retrieve the message and reset the message flag. -/
def receiveRest (s : Kernel) : Kernel × Context :=
  let msg := (s.thrtab s.thrcurrent).msg
  (s.modThr s.thrcurrent fun e => { e with hasmsg := false }, .ret msg)

/-- `receive`: wait for a message and return it. -/
def receive (s : Kernel) : Kernel × Context :=
  if (s.thrtab s.thrcurrent).hasmsg = false then
    ((s.setState s.thrcurrent .recv).resched, .receive)
  else s.receiveRest

/-- `recvtime` behind its call of `resched`. -/
def recvtimeRest (s : Kernel) : Kernel × Context :=
  if (s.thrtab s.thrcurrent).hasmsg = true then
    let msg := (s.thrtab s.thrcurrent).msg
    (s.modThr s.thrcurrent fun e => { e with hasmsg := false }, .ret msg)
  else (s, .ret TIMEOUT)

/-- `recvtime`: wait at most `maxwait` ticks for a message and return it. -/
def recvtime (s : Kernel) (maxwait : Int) : Kernel × Context :=
  if maxwait < 0 then (s, .ret SYSERR)
  else if (s.thrtab s.thrcurrent).hasmsg = false then
    let r := s.insertd s.thrcurrent s.sleepq maxwait
    if r.2 = SYSERR then (r.1, .ret SYSERR)
    else ((r.1.setState r.1.thrcurrent .tmout).resched, .recvtime)
  else s.recvtimeRest

/-- `recvclr`: clear messages, returning the waiting message if there is one. -/
def recvclr (s : Kernel) : Kernel × Context :=
  let msg := if (s.thrtab s.thrcurrent).hasmsg = true then (s.thrtab s.thrcurrent).msg else NOMSG
  (s.modThr s.thrcurrent fun e => { e with hasmsg := false }, .ret msg)

/-! ## Creating and killing threads -/

/-- The loop of `thrnew` over the slots of the thread table. -/
def thrnewLoop : Nat → Kernel → Kernel × Int
  | 0, s => (s, SYSERR)
  | n + 1, s =>
    let s := { s with nexttid := (s.nexttid + 1) % NTHREAD }
    if (s.thrtab s.nexttid).state = .free then (s, s.nexttid) else thrnewLoop n s

/-- `thrnew`: obtain a new (free) thread id. -/
def thrnew (s : Kernel) : Kernel × Int := thrnewLoop NTHREAD.toNat s

/-- `create`: create a thread to start running a procedure. -/
def create (s : Kernel) (ssize : Nat) (priority : Int) : Kernel × Context :=
  let ssize := if ssize < MINSTK then MINSTK else ssize
  -- allocate new stack
  let r := s.heap.stkget ssize
  let s := { s with heap := r.1 }
  -- allocate new thread ID
  let t := s.thrnew
  let s := t.1
  match r.2 with
  | none => (s, .ret SYSERR)
  | some saddr =>
    if t.2 = SYSERR then (s, .ret SYSERR)
    else
      let s := { s with thrcount := s.thrcount + 1 }
      let s := s.modThr t.2 fun e =>
        { e with
          state := .susp, prio := priority, stkbase := saddr, stklen := ssize,
          parent := s.thrcurrent, hasmsg := false, ctx := .user }
      (s, .ret t.2)

/-- `xdone`: the last thread has exited and the machine stops. -/
def xdone (s : Kernel) : Kernel := { s with halted := true }

/-- `kill`: kill a thread and release all its resources, up to its `send` to the parent. -/
def kill (s : Kernel) (tid : Int) : Kernel × Context :=
  if s.isbadtid tid ∨ NULLTHREAD = tid then (s, .ret SYSERR)
  else
    let s := { s with thrcount := s.thrcount - 1 }
    if s.thrcount ≤ 1 then (s.xdone, .kill tid)
    else ((s.send (s.thrtab tid).parent tid).1, .kill tid)

/-- The cases of `kill`'s switch, each falling through to the next: `default`, `THRREADY` and
`THRWAIT`. -/
def killDefault (s : Kernel) (tid : Int) : Kernel := s.setState tid .free

def killReady (s : Kernel) (tid : Int) : Kernel := (s.getitem tid).1.killDefault tid

def killWait (s : Kernel) (tid : Int) : Kernel :=
  (s.modSem (s.thrtab tid).sem fun e => { e with count := e.count + 1 }).killReady tid

/-- The switch of `kill` over the state of the victim. -/
def killSwitch (s : Kernel) (tid : Int) : ThrState → Kernel × Context
  | .sleep => (((s.setState tid .free).unsleep tid).1, .ret OK)
  | .curr => ((s.setState tid .free).resched, .killed tid)
  | .wait => (s.killWait tid, .ret OK)
  | .ready => (s.killReady tid, .ret OK)
  | _ => (s.killDefault tid, .ret OK)

/-- `kill` behind its `send` to the parent. -/
def killRest (s : Kernel) (tid : Int) : Kernel × Context :=
  let thrptr := s.thrtab tid
  let s := { s with heap := (s.heap.stkfree thrptr.stkbase thrptr.stklen).1 }
  s.killSwitch tid thrptr.state

end Xinu.Kernel
