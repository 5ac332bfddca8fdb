import Xinu.Kernel.Calls

/-!
# The system

The kernel as a machine. The thread that has the processor issues a system call when it is in its
own code, the clock may interrupt it there, and when it is dispatched inside a call it goes on
with that call. Nothing happens once the system has halted.
-/

namespace Xinu

/-- The steps of the thread that has the processor. -/
inductive Op
  | create (ssize : Nat) (priority : Int)
  | ready (tid : Int) (resch : Bool)
  | resume (tid : Int)
  | suspend (tid : Int)
  | yield
  | chprio (tid newprio : Int)
  | wait (sem : Nat)
  | signal (sem : Nat)
  | signaln (sem : Nat) (count : Int)
  | semcreate (count : Int)
  | semfree (sem : Nat)
  | sleep (ms : Nat)
  | send (tid msg : Int)
  | receive
  | recvtime (maxwait : Int)
  | recvclr
  | kill (tid : Int)
  /-- the clock interrupt -/
  | clkhandler
  /-- going on with a call behind `resched` -/
  | cont
deriving DecidableEq, Repr

namespace Kernel

/-- Going on with a call. -/
def resumeCall (s : Kernel) : Context → Kernel × Context
  | .user => (s, .user)
  | .ret _ => (s, .user)
  | .suspend tid => s.suspendRest tid
  | .receive => s.receiveRest
  | .recvtime => s.recvtimeRest
  | .kill tid => s.killRest tid
  | .killed tid => (s.killWait tid, .ret OK)

/-- The code a step runs: the state it leaves, and where the thread that took it goes on. -/
def call (s : Kernel) : Op → Kernel × Context
  | .create ssize priority => s.create ssize priority
  | .ready tid resch =>
    let r := s.ready tid resch
    (r.1, .ret r.2)
  | .resume tid => s.resume tid
  | .suspend tid => s.suspend tid
  | .yield => s.yield
  | .chprio tid newprio => s.chprio tid newprio
  | .wait sem => s.wait sem
  | .signal sem => s.signal sem
  | .signaln sem count => s.signaln sem count
  | .semcreate count => s.semcreate count
  | .semfree sem => s.semfree sem
  | .sleep ms => s.sleep ms
  | .send tid msg =>
    let r := s.send tid msg
    (r.1, .ret r.2)
  | .receive => s.receive
  | .recvtime maxwait => s.recvtime maxwait
  | .recvclr => s.recvclr
  | .kill tid => s.kill tid
  | .clkhandler => s.clkhandler
  | .cont => s.resumeCall (s.thrtab s.thrcurrent).ctx

/-- `ctxsw` keeps the context of a thread. -/
def setCtx (s : Kernel) (tid : Int) (ctx : Context) : Kernel :=
  s.modThr tid fun e => { e with ctx := ctx }

/-- One step of the thread that has the processor. -/
def exec (s : Kernel) (op : Op) : Kernel :=
  let r := s.call op
  r.1.setCtx s.thrcurrent r.2

/-! ## The start of the system -/

/-- The kernel's variables before `sysinit`, all zero but the initialized statics. -/
def zero (heap : Heap) : Kernel where
  thrtab _ := ⟨.free, 0, 0, 0, 0, 0, 0, false, .user⟩
  semtab _ := ⟨.free, 0, 0⟩
  quetab _ := ⟨0, 0, 0⟩
  thrcount := 0
  thrcurrent := 0
  readylist := 0
  sleepq := 0
  nextqid := NTHREAD
  nexttid := 0
  nextsem := 0
  resdefer := 0
  clkticks := 0
  clktime := 0
  heap := heap
  halted := false
  rescheds := []
  readied := []

/-- `sysinit`'s loop "Initialize semaphores". -/
def seminit : Nat → Kernel → Kernel
  | 0, s => s
  | n + 1, s =>
    let s := seminit n s
    let r := s.queinit
    r.1.modSem n fun _ => ⟨.free, 0, r.2⟩

/-- `sysinit` up to its loop: the null thread is the first thread in the system and runs. The image
ends at `endaddr`. -/
def nullinit (endaddr memheap maxaddr : Nat) (mem : Nat → MemBlock) : Kernel :=
  let s := zero (Heap.sysinit memheap maxaddr mem)
  -- count this NULLTHREAD as the first thread in the system
  let s := { s with thrcount := 1 }
  let s := s.modThr NULLTHREAD fun e =>
    { e with
      state := .curr, prio := 0, stkbase := endaddr, stklen := sub32 s.heap.memheap endaddr }
  { s with thrcurrent := NULLTHREAD }

/-- `sysinit`: initialize all data structures of the kernel. -/
def sysinit (endaddr memheap maxaddr : Nat) (mem : Nat → MemBlock) : Kernel :=
  let s := seminit NSEM (nullinit endaddr memheap maxaddr mem)
  -- initialize thread ready list
  let r := s.queinit
  let s := { r.1 with readylist := r.2 }
  -- clkinit
  let r := s.queinit
  { r.1 with sleepq := r.2, clkticks := 0 }

/-! ## The machine -/

/-- A system call or an interrupt finds the thread in its own code; a thread dispatched inside a
call goes on with it. -/
def Enabled (s : Kernel) (op : Op) : Prop :=
  s.halted = false ∧ (op = .cont ↔ (s.thrtab s.thrcurrent).ctx ≠ .user)
deriving Decidable

/-- The calls that take the processor from their caller until another thread or the clock gives it
back. -/
def Blocks (s : Kernel) : Op → Prop
  | .wait sem => ¬ s.isbadsem sem ∧ (s.semtab sem).count - 1 < 0
  | .sleep ms => 0 < ms * CLKTICKS_PER_SEC % 2 ^ 32 / 1000
  | .receive => (s.thrtab s.thrcurrent).hasmsg = false
  | .recvtime maxwait => 0 ≤ maxwait ∧ (s.thrtab s.thrcurrent).hasmsg = false
  | _ => False

instance (s : Kernel) : ∀ op : Op, Decidable (s.Blocks op) := by
  rintro ⟨⟩ <;> unfold Kernel.Blocks <;> infer_instance

/-- What the callers of the kernel keep to: priorities lie above the key of the tail sentinel,
`ready` is for new or suspended threads, and the null thread makes no blocking call. -/
def Admissible (s : Kernel) (op : Op) : Prop :=
  (s.thrcurrent = NULLTHREAD → ¬ s.Blocks op) ∧
    match op with
    | .create _ priority => MINKEY < priority
    | .chprio _ newprio => MINKEY < newprio
    | .ready tid _ => s.isbadtid tid ∨ (s.thrtab tid).state = .susp
    | _ => True

instance (s : Kernel) : ∀ op : Op, Decidable (s.Admissible op) := by
  rintro ⟨⟩ <;> unfold Kernel.Admissible <;> infer_instance

end Kernel

/-- The kernel and the threads that call it. -/
def kernelMachine : Machine Kernel Op where
  enabled := Kernel.Enabled
  next := Kernel.exec

instance (s : Kernel) (op : Op) : Decidable (kernelMachine.enabled s op) :=
  inferInstanceAs (Decidable (s.Enabled op))

/-- A machine with a small heap, just started. -/
def board : Kernel := Kernel.sysinit 4096 8192 65536 fun _ => ⟨0, 0⟩

end Xinu
