import Xinu.Foundations.Permits
import Xinu.System.Semaphores

/-!
# Libraries over the kernel

A library is code that threads run between their own code and the kernel, on data that they share. A
thread in a library is at a place of its code; from there it runs a stretch of code that nothing
interrupts, or makes a call of the kernel and goes on at another place when the call returns.
Threads that are in no library make any other calls. All this happens on one processor, and the
kernel decides which thread has it.
-/

namespace Xinu

open Function

/-- Where a thread goes on: at a place of the library, or behind its call. -/
inductive Next (L : Type)
  | goto (l : L)
  | done (result : Int)
deriving DecidableEq, Repr

/-- What is done at a place. A call of the kernel is followed by `back`, which is given the result
and does no more than a call that gives the processor away leaves time for. -/
inductive Action (γ L : Type)
  | run (f : γ → Heap → γ × Heap × Next L)
  | call (op : Op) (back : Int → γ → γ × Next L)

/-- The calls of the kernel about semaphores. -/
def Op.AboutSemaphores : Op → Prop
  | .wait _ | .signal _ | .signaln .. | .semcreate _ | .semfree _ => True
  | _ => False

/-- A library with the shared data `γ`, the places `L` and the calls `C`. Of the kernel it calls
what is about semaphores. -/
structure Library (γ L C : Type) where
  /-- a call begins -/
  enter : C → γ → Next L
  act : L → γ → Action γ L
  /-- interrupts are disabled there -/
  masked : L → Bool
  /-- the handler of the device's interrupt, when there is one pending: what it does to the shared
  data, and the call of the kernel at its end -/
  interrupt : γ → Option (γ × Op)
  /-- the semaphores that are used by nobody else -/
  owns : γ → Nat → Bool
  act_calls : ∀ l g op back, act l g = .call op back → op.AboutSemaphores
  interrupt_calls : ∀ g r, interrupt g = some r → r.2.AboutSemaphores

/-- The kernel, the shared data of a library, and where the threads are in it. -/
structure World (γ L : Type) where
  kernel : Kernel
  shared : γ
  pc : Int → Option (Next L)

/-- What the thread that has the processor does, and the interrupts of the device. -/
inductive Input (C : Type)
  | enter (c : C)
  | go
  | irq
  | other (op : Op)

namespace World

variable {γ L : Type} (w : World γ L)

/-- The thread that has the processor. -/
def current : Int := w.kernel.thrcurrent

/-- The thread that has the processor is in no call of the kernel. -/
def InUser : Prop :=
  w.kernel.halted = false ∧ (w.kernel.thrtab w.kernel.thrcurrent).ctx = .user
deriving Decidable

/-- The thread that has the processor goes on somewhere. -/
def setPc (n : Option (Next L)) : World γ L := { w with pc := update w.pc w.current n }

end World

namespace Library

variable {γ L C : Type} (lib : Library γ L C) (w : World γ L)

/-- Interrupts are disabled where the thread that has the processor is. -/
def maskedAt : Bool :=
  match w.pc w.current with
  | some (.goto l) => lib.masked l
  | _ => false

/-- The calls made outside the library: its semaphores are left alone, sizes of stacks round without
wrapping, and nobody is killed. A call in progress goes on, and the clock interrupts where it may.
-/
def Foreign : Op → Prop
  | .cont => ∀ t, (w.kernel.thrtab w.kernel.thrcurrent).ctx ≠ .kill t
  | .clkhandler => lib.maskedAt w = false
  | .kill _ => False
  | .wait i | .signal i | .signaln i _ | .semfree i =>
    w.pc w.current = none ∧ lib.owns w.shared i = false
  | .create ssize _ => w.pc w.current = none ∧ ssize ≤ 2 ^ 32 - 8
  | _ => w.pc w.current = none

instance : (op : Op) → Decidable (lib.Foreign w op)
  | .cont => match h : (w.kernel.thrtab w.kernel.thrcurrent).ctx with
    | .kill t => isFalse fun hf => hf t h
    | .user | .ret _ | .suspend _ | .receive | .recvtime | .killed _ =>
      isTrue fun t ht => by simp [h] at ht
  | .clkhandler => inferInstanceAs (Decidable (_ = _))
  | .kill _ => inferInstanceAs (Decidable False)
  | .wait _ | .signal _ | .signaln _ _ | .semfree _ | .create _ _ =>
    inferInstanceAs (Decidable (_ = none ∧ _))
  | .ready .. | .resume _ | .suspend _ | .yield | .chprio .. | .semcreate _ | .sleep _ | .send ..
  | .receive | .recvtime _ | .recvclr => inferInstanceAs (Decidable (_ = none))

/-- An action that can be taken. -/
def Allows : Action γ L → Prop
  | .run _ => True
  | .call op _ => w.kernel.Orderly op

/-- What can happen. -/
def Enabled : Input C → Prop
  | .enter _ => w.InUser ∧ w.pc w.current = none
  | .go => w.InUser ∧
    match w.pc w.current with
    | none => False
    | some (.done _) => True
    | some (.goto l) => Allows w (lib.act l w.shared)
  | .irq => w.InUser ∧ lib.maskedAt w = false ∧
    match lib.interrupt w.shared with
    | none => False
    | some r => w.kernel.Orderly r.2
  | .other op => w.kernel.Enabled op ∧ w.kernel.Orderly op ∧ lib.Foreign w op

instance : (a : Action γ L) → Decidable (Allows w a)
  | .run _ => inferInstanceAs (Decidable True)
  | .call op _ => inferInstanceAs (Decidable (w.kernel.Orderly op))

instance : (i : Input C) → Decidable (lib.Enabled w i)
  | .enter _ => inferInstanceAs (Decidable (_ ∧ _ = none))
  | .go => @instDecidableAnd _ _ _ <|
    match w.pc w.current with
    | none => inferInstanceAs (Decidable False)
    | some (.done _) => inferInstanceAs (Decidable True)
    | some (.goto l) => inferInstanceAs (Decidable (Allows w (lib.act l w.shared)))
  | .irq => @instDecidableAnd _ _ _ <| @instDecidableAnd _ _ _ <|
    match lib.interrupt w.shared with
    | none => inferInstanceAs (Decidable False)
    | some r => inferInstanceAs (Decidable (w.kernel.Orderly r.2))
  | .other op => inferInstanceAs (Decidable (_ ∧ _ ∧ lib.Foreign w op))

/-- An action is taken. -/
def perform : Action γ L → World γ L
  | .run f =>
    let r := f w.shared w.kernel.heap
    { w with kernel := { w.kernel with heap := r.2.1 }, shared := r.1 }.setPc (some r.2.2)
  | .call op back =>
    match (w.kernel.call op).2 with
    | .ret v =>
      let r := back v w.shared
      { w.setPc (some r.2) with kernel := w.kernel.exec op, shared := r.1 }
    | _ => { w with kernel := w.kernel.exec op }

/-- What happens. -/
def step : Input C → World γ L
  | .enter c => w.setPc (some (lib.enter c w.shared))
  | .go =>
    match w.pc w.current with
    | none => w
    | some (.done _) => w.setPc none
    | some (.goto l) => perform w (lib.act l w.shared)
  | .irq =>
    match lib.interrupt w.shared with
    | none => w
    | some r => { w with kernel := w.kernel.exec r.2, shared := r.1 }
  | .other op => { w with kernel := w.kernel.exec op }

variable {lib w} {l : L}

theorem maskedAt_of_none (h : w.pc w.current = none) : lib.maskedAt w = false := by
  unfold maskedAt
  rw [h]

theorem enabled_go (hu : w.InUser) (hpc : w.pc w.current = some (.goto l))
    (ha : Allows w (lib.act l w.shared)) : lib.Enabled w .go := by
  refine ⟨hu, ?_⟩
  rw [hpc]
  exact ha

theorem step_go (hpc : w.pc w.current = some (.goto l)) :
    lib.step w .go = perform w (lib.act l w.shared) := by
  unfold step
  rw [hpc]

theorem perform_call {op : Op} {v : Int} (hr : (w.kernel.call op).2 = .ret v)
    (back : Int → γ → γ × Next L) :
    perform w (.call op back) =
      { w.setPc (some (back v w.shared).2) with
        kernel := w.kernel.exec op, shared := (back v w.shared).1 } := by
  unfold perform
  dsimp only
  rw [hr]

variable (lib w)

/-- The world of a library. -/
def machine : Machine (World γ L) (Input C) where
  enabled := lib.Enabled
  next := lib.step

end Library

end Xinu
