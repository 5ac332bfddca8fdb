import Xinu.Client.Gate
import Xinu.Foundations.Ring

/-!
# Output of the UART

`uartWrite` puts the bytes of its buffer in a ring, one at a time behind a `wait` on the semaphore
of the free space, and the transmit interrupt takes them from the ring to the data register of the
hardware. While the hardware is idle a byte goes to the data register directly. Interrupts are
disabled in `uartWrite`, so that it is interrupted only where its `wait` gives the processor away.

The interrupt is pending when the hardware was given something since the last one. Its handler
defers the rescheduling to its end, which comes to the same as an ordinary `signaln`.

## Main results

* `Kernel.signalnDeferred_eq`: deferring the rescheduling in the handler makes no difference
* `uart_ordered`: the output is in order in every run in which the interrupts are so
-/

namespace Xinu

open Function

/-- The size of the output buffer. -/
def UART_OBLEN : Nat := 1024

/-- How much the hardware is given at an interrupt. -/
def PL011_FIFO_LEN : Nat := 1

/-- The output part of `struct uart`, and the transmitter of the hardware. The last field is
history: the bytes accepted from writers. -/
structure Uart where
  csr : Nat
  cout : Nat
  oirq : Nat
  osema : Nat
  ostart : Nat
  ocount : Nat
  out : Nat → UInt8
  oidle : Bool
  /-- what was stored to the data register -/
  dr : List UInt8
  /-- the hardware was given something and has not interrupted since -/
  pending : Bool
  accepted : List UInt8

namespace Uart

variable (u : Uart)

/-- A byte is stored to the data register. -/
def store (ch : UInt8) : Uart := { u with dr := u.dr ++ [ch], pending := true }

/-- One byte in `uartWrite`, when the transmitter is idle. -/
def putDirect (ch : UInt8) : Uart :=
  { ({ u with oidle := false } : Uart).store ch with
    cout := (u.cout + 1) % 2 ^ 32, accepted := u.accepted ++ [ch] }

/-- One byte in `uartWrite`, behind its `wait`. -/
def putRing (ch : UInt8) : Uart :=
  { u with
    out := update u.out ((u.ostart + u.ocount) % UART_OBLEN) ch
    ocount := (u.ocount + 1) % 2 ^ 16
    accepted := u.accepted ++ [ch] }

/-- One byte in `uartInterrupt`. -/
def drainOne : Uart :=
  { ({ u with ocount := u.ocount - 1 } : Uart).store (u.out u.ostart) with
    ostart := (u.ostart + 1) % UART_OBLEN }

/-- The loop of `uartInterrupt`, with the count of bytes written to the hardware. -/
def drainLoop : Nat → Uart → Nat → Uart × Nat
  | 0, u, count => (u, count)
  | left + 1, u, count =>
    let u := u.drainOne
    if count + 1 < PL011_FIFO_LEN ∧ 0 < u.ocount then drainLoop left u (count + 1)
    else (u, count + 1)

/-- `uartInterrupt` when the transmitter ran out, up to its `signaln`. -/
def uartInterrupt : Uart × Nat :=
  -- the interrupt is cleared before the hardware is given more
  let u : Uart := { u with oirq := (u.oirq + 1) % 2 ^ 32, pending := false }
  let r := if 0 < u.ocount then drainLoop PL011_FIFO_LEN u 0 else (u, 0)
  if r.2 ≠ 0 then ({ r.1 with cout := (r.1.cout + r.2) % 2 ^ 32 }, r.2)
  else ({ r.1 with oidle := true }, r.2)

/-- The fields that `uartInit` sets. -/
def init (csr osema : Nat) : Uart where
  csr := csr
  cout := 0
  oirq := 0
  osema := osema
  ostart := 0
  ocount := 0
  out := fun _ => 0
  oidle := true
  dr := []
  pending := false
  accepted := []

end Uart

/-- Where a thread is in `uartWrite`: at the test of its loop, with the rest of the buffer and the
bytes written so far, or behind the `wait` for space, with the byte to be put. -/
inductive UartPlace
  | write (buffer : List UInt8) (count : Nat)
  | put (ch : UInt8) (buffer : List UInt8) (count : Nat)
deriving DecidableEq

/-- The calls of the driver, in blocking mode. -/
inductive UartCall
  | uartWrite (buffer : List UInt8)
  | uartPutc (ch : UInt8)

namespace UartPlace

/-- `uartWrite` begins. -/
def enterWrite (buffer : List UInt8) (u : Uart) : Next UartPlace :=
  if u.csr = 0 then .done SYSERR else .goto (.write buffer 0)

/-- What `uartWrite` does. -/
def act : UartPlace → Uart → Action Uart UartPlace
  | .write [] count, _ => .run fun u h => (u, h, .done count)
  | .write (ch :: buffer) count, u =>
    if u.oidle then .run fun u h => (u.putDirect ch, h, .goto (.write buffer (count + 1)))
    else .call (.wait u.osema) fun _ u => (u, .goto (.put ch buffer count))
  | .put ch buffer count, _ =>
    .run fun u h => (u.putRing ch, h, .goto (.write buffer (count + 1)))

end UartPlace

/-- The driver as a library. Interrupts are disabled throughout `uartWrite`. -/
def uartLibrary : Library Uart UartPlace UartCall where
  enter
    | .uartWrite buffer, u => UartPlace.enterWrite buffer u
    | .uartPutc ch, u => UartPlace.enterWrite [ch] u
  act := UartPlace.act
  masked _ := true
  interrupt u :=
    if u.pending then some (u.uartInterrupt.1, .signaln u.osema u.uartInterrupt.2) else none
  owns u i := decide (i = u.osema)
  act_calls := by
    rintro (⟨_ | ⟨ch, buffer⟩, count⟩ | _) u op back h
    · exact absurd h (by simp [UartPlace.act])
    · unfold UartPlace.act at h
      dsimp only at h
      split_ifs at h
      cases h
      trivial
    · exact absurd h (by simp [UartPlace.act])
  interrupt_calls := by
    intro u r h
    split_ifs at h
    cases h
    trivial

/-! ## The end of the handler -/

namespace Kernel
variable {s : Kernel}

/-- `resdefer = d` -/
def deferTo (s : Kernel) (d : Int) : Kernel := { s with resdefer := d }

/-- `uartInterrupt` around its `signaln`: rescheduling is deferred, and done at the end if it was
asked for. -/
def signalnDeferred (s : Kernel) (sem : Nat) (count : Int) : Kernel :=
  let s := s.deferTo 1
  let s := (s.signaln sem count).1
  let s := s.deferTo (s.resdefer - 1)
  if 0 < s.resdefer then (s.deferTo 0).resched else s

theorem dequeue_deferTo (s : Kernel) (d q : Int) :
    (s.deferTo d).dequeue q = ((s.dequeue q).1.deferTo d, (s.dequeue q).2) := by
  have hempty : (s.deferTo d).isempty q ↔ s.isempty q := Iff.rfl
  have hfirst : (s.deferTo d).getfirst q = ((s.getfirst q).1.deferTo d, (s.getfirst q).2) := by
    unfold getfirst
    simp only [hempty]
    split_ifs <;> rfl
  have hbad : ∀ (r : Kernel) (t : Int), (r.deferTo d).isbadtid t ↔ r.isbadtid t :=
    fun _ _ => Iff.rfl
  unfold dequeue
  simp only [hempty, hfirst, hbad]
  split_ifs <;> rfl

theorem insertScan_deferTo (s : Kernel) (d key : Int) (fuel : Nat) :
    ∀ next, (s.deferTo d).insertScan key fuel next = s.insertScan key fuel next := by
  induction fuel with
  | zero => exact fun _ => rfl
  | succ fuel ih =>
    intro next
    unfold insertScan
    rw [ih]
    rfl

theorem insert_deferTo (s : Kernel) (d tid q key : Int) :
    ((s.deferTo d).insert tid q key).1 = (s.insert tid q key).1.deferTo d := by
  have hbad : (s.deferTo d).isbadtid tid ↔ s.isbadtid tid := Iff.rfl
  have hscan : (s.deferTo d).insertScan key NQENT.toNat ((s.deferTo d).quetab q).next =
      s.insertScan key NQENT.toNat (s.quetab q).next := insertScan_deferTo s d key _ _
  unfold insert
  simp only [hbad, hscan]
  split_ifs <;> rfl

theorem ready_deferTo (s : Kernel) (d tid : Int) :
    ((s.deferTo d).ready tid false).1 = (s.ready tid false).1.deferTo d := by
  have hbad : (s.deferTo d).isbadtid tid ↔ s.isbadtid tid := Iff.rfl
  unfold ready
  simp only [hbad, Bool.false_eq_true, if_false]
  split_ifs
  · rfl
  · exact insert_deferTo ((s.setState tid .ready).noted tid) d tid _ _

theorem signalnLoop_deferTo (sem : Nat) (d : Int) (n : Nat) :
    ∀ s : Kernel, signalnLoop sem n (s.deferTo d) = (signalnLoop sem n s).deferTo d := by
  induction n with
  | zero => exact fun _ => rfl
  | succ n ih =>
    intro s
    have hcount : ((s.deferTo d).semtab sem).count = (s.semtab sem).count := rfl
    have hmod : ((s.deferTo d).modSem sem fun e => { e with count := e.count + 1 }) =
        (s.modSem sem fun e => { e with count := e.count + 1 }).deferTo d := rfl
    have hqueue : ∀ r : Kernel, ((r.deferTo d).semtab sem).queue = (r.semtab sem).queue :=
      fun _ => rfl
    unfold signalnLoop
    simp only [hcount, hmod, hqueue, dequeue_deferTo, ready_deferTo, ih]
    split_ifs <;> rfl

/-- **The handler's deferral** comes to an ordinary `signaln`. -/
theorem signalnDeferred_eq (h : s.resdefer = 0) (sem : Nat) (count : Int) :
    s.signalnDeferred sem count = (s.signaln sem count).1 := by
  have hself : s.deferTo 0 = s := by
    unfold deferTo
    rw [← h]
  have hbad : (s.deferTo 1).isbadsem sem ↔ s.isbadsem sem := Iff.rfl
  unfold signalnDeferred signaln
  simp only [hbad]
  by_cases hrefused : s.isbadsem sem ∨ count ≤ 0
  · rw [if_pos hrefused, if_pos hrefused]
    exact hself
  · rw [if_neg hrefused, if_neg hrefused, signalnLoop_deferTo]
    have hloop : (signalnLoop sem count.toNat s).deferTo 0 = signalnLoop sem count.toNat s := by
      rw [← signalnLoop_deferTo, hself]
    generalize signalnLoop sem count.toNat s = r at hloop ⊢
    -- the deferred call of `resched` only counts
    have hdeferred : (r.deferTo 1).resched = r.deferTo 2 := if_pos one_pos
    rw [hdeferred]
    exact (if_pos (by decide : (0 : Int) < 2 - 1)).trans (congrArg resched hloop)

/-- A thread waits on a semaphore, and the null thread runs. -/
def oneWaits : Kernel :=
  kernelMachine.after board
    [.create 128 20, .cont, .resume 1, .semcreate 0, .cont, .wait 1, .cont]

set_option maxRecDepth 8000 in
theorem signalnDeferred_eq_oneWaits :
    oneWaits.queue (oneWaits.semtab 1).queue = [1] ∧
      oneWaits.signalnDeferred 1 2 = (oneWaits.signaln 1 2).1 :=
  ⟨by decide, signalnDeferred_eq (by decide) 1 2⟩

end Kernel

/-! ## The ring -/

namespace Uart

variable {u : Uart}

/-- The bytes in the ring. -/
def ring (u : Uart) : List UInt8 := Ring.window u.out UART_OBLEN u.ostart u.ocount

/-- **The output is in order**: the ring is not overfull, what was accepted is what was stored to
the data register and then what is in the ring, and a ring that is not empty is being drained. -/
structure Ordered (u : Uart) : Prop where
  ocount_le : u.ocount ≤ UART_OBLEN
  accepted : u.accepted = u.dr ++ u.ring
  draining : 0 < u.ocount → u.oidle = false ∧ u.pending = true

/-- What holds of the driver besides. -/
structure Kept (u : Uart) : Prop where
  ocount_le : u.ocount ≤ UART_OBLEN
  ostart_lt : u.ostart < UART_OBLEN
  accepted : u.accepted = u.dr ++ u.ring
  idle : u.oidle = true → u.ocount = 0
  pending : u.oidle = false → u.pending = true

theorem Kept.ordered (h : u.Kept) : u.Ordered := by
  refine ⟨h.ocount_le, h.accepted, fun hpos => ?_⟩
  cases hidle : u.oidle with
  | true => exact absurd (h.idle hidle) (by omega)
  | false => exact ⟨rfl, h.pending hidle⟩

theorem Kept.init (csr osema : Nat) : (Uart.init csr osema).Kept :=
  ⟨Nat.zero_le _, Nat.zero_lt_of_lt (show 0 < UART_OBLEN by decide), rfl, fun _ => rfl, nofun⟩

/-- An idle transmitter has an empty ring, so a byte that goes to it directly is in order. -/
theorem Kept.putDirect (h : u.Kept) (hidle : u.oidle = true) (ch : UInt8) :
    (u.putDirect ch).Kept := by
  have hzero := h.idle hidle
  have hring : u.ring = [] := by rw [ring, hzero, Ring.window_zero]
  refine ⟨h.ocount_le, h.ostart_lt, ?_, nofun, fun _ => rfl⟩
  change u.accepted ++ [ch] = (u.dr ++ [ch]) ++ u.ring
  rw [h.accepted, hring, List.append_nil, List.append_nil]

/-- With space in the ring, a byte is put at its end. -/
theorem Kept.putRing (h : u.Kept) (hspace : u.ocount < UART_OBLEN) (hidle : u.oidle = false)
    (ch : UInt8) : (u.putRing ch).Kept := by
  have hcount : (u.putRing ch).ocount = u.ocount + 1 :=
    Nat.mod_eq_of_lt (Nat.lt_of_le_of_lt hspace (show UART_OBLEN < 2 ^ 16 by decide))
  refine ⟨by rw [hcount]; exact hspace, h.ostart_lt, ?_, fun hi => ?_, h.pending⟩
  · have hring : (u.putRing ch).ring = u.ring ++ [ch] := by
      rw [ring, hcount]
      exact Ring.window_push u.out u.ostart hspace ch
    rw [hring]
    change u.accepted ++ [ch] = u.dr ++ (u.ring ++ [ch])
    rw [h.accepted, List.append_assoc]
  · exact absurd (hidle.symm.trans hi) (by simp)

theorem drainOne_spec (hstart : u.ostart < UART_OBLEN) (hacc : u.accepted = u.dr ++ u.ring)
    (hpos : 0 < u.ocount) :
    u.drainOne.ostart < UART_OBLEN ∧ u.drainOne.accepted = u.drainOne.dr ++ u.drainOne.ring := by
  refine ⟨Nat.mod_lt _ (by decide), ?_⟩
  have hring : u.ring = u.out u.ostart :: u.drainOne.ring := by
    have hcount : u.ocount = (u.ocount - 1) + 1 := by omega
    rw [ring, hcount, Ring.window_pop u.out hstart]
    rfl
  change u.accepted = (u.dr ++ [u.out u.ostart]) ++ u.drainOne.ring
  rw [hacc, hring, List.append_assoc]
  rfl

/-- What the loop of the handler does to a ring that is not empty. -/
structure Drained (u : Uart) (count : Nat) (r : Uart × Nat) : Prop where
  pos : count < r.2
  total : r.1.ocount + r.2 = u.ocount + count
  ostart_lt : r.1.ostart < UART_OBLEN
  accepted : r.1.accepted = r.1.dr ++ r.1.ring
  pending : r.1.pending = true
  oidle : r.1.oidle = u.oidle
  osema : r.1.osema = u.osema

theorem drainLoop_drained (left count : Nat) : ∀ u : Uart, u.ostart < UART_OBLEN →
    u.accepted = u.dr ++ u.ring → 0 < u.ocount →
      Drained u count (drainLoop (left + 1) u count) := by
  -- the last round is where the loop ends by its test or its bound
  have hlast : ∀ u : Uart, u.ostart < UART_OBLEN → u.accepted = u.dr ++ u.ring → 0 < u.ocount →
      ∀ count, Drained u count (u.drainOne, count + 1) := by
    intro u hstart hacc hpos count
    obtain ⟨hstart', hacc'⟩ := drainOne_spec hstart hacc hpos
    refine ⟨Nat.lt_succ_self _, ?_, hstart', hacc', rfl, rfl, rfl⟩
    change u.ocount - 1 + (count + 1) = u.ocount + count
    omega
  induction left generalizing count with
  | zero =>
    intro u hstart hacc hpos
    unfold drainLoop drainLoop
    dsimp only
    split_ifs <;> exact hlast u hstart hacc hpos count
  | succ left ih =>
    intro u hstart hacc hpos
    unfold drainLoop
    dsimp only
    split_ifs with hmore
    · obtain ⟨hstart', hacc'⟩ := drainOne_spec hstart hacc hpos
      have D := ih (count + 1) u.drainOne hstart' hacc' hmore.2
      refine ⟨(Nat.lt_succ_self _).trans D.pos, ?_, D.ostart_lt, D.accepted, D.pending, D.oidle,
        D.osema⟩
      have htotal := D.total
      have hcount : u.drainOne.ocount = u.ocount - 1 := rfl
      omega
    · exact hlast u hstart hacc hpos count

/-- **The handler** keeps the order. It frees as much space as it reports, and declares the
transmitter idle when there was nothing in the ring. -/
theorem Kept.uartInterrupt (h : u.Kept) :
    u.uartInterrupt.1.Kept ∧ u.uartInterrupt.1.ocount + u.uartInterrupt.2 = u.ocount ∧
      u.uartInterrupt.1.osema = u.osema ∧ (u.uartInterrupt.1.oidle = true → u.ocount = 0) := by
  unfold Uart.uartInterrupt
  dsimp only
  by_cases hpos : 0 < u.ocount
  · have D := drainLoop_drained 0 0
      ({ u with oirq := (u.oirq + 1) % 2 ^ 32, pending := false } : Uart) h.ostart_lt
        h.accepted hpos
    have hidle : u.oidle = false := by
      cases hi : u.oidle with
      | true => exact absurd (h.idle hi) (by omega)
      | false => rfl
    rw [if_pos hpos]
    change Drained _ _ (drainLoop PL011_FIFO_LEN _ _) at D
    generalize drainLoop PL011_FIFO_LEN _ _ = r at D ⊢
    have htotal : r.1.ocount + r.2 = u.ocount := D.total
    have hidle' : r.1.oidle = false := D.oidle.trans hidle
    have hle := h.ocount_le
    rw [if_pos (by have := D.pos; omega)]
    refine ⟨⟨?_, D.ostart_lt, D.accepted, fun hi => ?_, fun _ => D.pending⟩, htotal, D.osema,
      fun hi => ?_⟩
    · change r.1.ocount ≤ _
      omega
    · exact absurd (hidle'.symm.trans hi) (by simp)
    · exact absurd (hidle'.symm.trans hi) (by simp)
  · have hzero : u.ocount = 0 := by omega
    rw [if_neg hpos, if_neg (by simp)]
    exact ⟨⟨h.ocount_le, h.ostart_lt, h.accepted, fun _ => hzero, nofun⟩, rfl, rfl, fun _ => hzero⟩

end Uart

/-! ## The driver and its writers -/

/-- Space is taken by a byte in the ring, and by a writer that has waited for it. -/
def uartToll : Toll UartPlace where
  weight
    | some (.goto (.put ..)) => 1
    | _ => 0
  waits p := ∃ ch buffer count, p = some (.goto (.put ch buffer count))
  weight_pos := by
    rintro _ ⟨ch, buffer, count, rfl⟩
    exact Nat.one_pos

/-- A writer is about to put a byte in the ring. -/
def Uart.Putting (pc : Int → Option (Next UartPlace)) : Prop :=
  ∃ t ∈ tids, 0 < uartToll.weight (pc t)
deriving Decidable

/-- **The condition**: a transmit interrupt does not find the ring empty while a writer is about to
put a byte there. -/
def Uart.Drains (c : Crowd Uart UartPlace) (_ : Int) : Input UartCall → Prop
  | .irq => c.shared.ocount = 0 → ¬ Uart.Putting c.pc
  | _ => True

/-- The driver with its writers: what is not free is in the ring or about to be put there, and
nobody is about to put something in the ring of an idle transmitter. -/
structure Uart.Inv (c : Crowd Uart UartPlace) : Prop where
  kept : c.shared.Kept
  gate : Gate c.sems c.pc c.shared.osema uartToll (UART_OBLEN - c.shared.ocount)
  idle : c.shared.oidle = true → ¬ Uart.Putting c.pc

namespace Uart.Inv

variable {c : Crowd Uart UartPlace} {t : Int}

theorem not_putting_update (h : ¬ Uart.Putting c.pc) {p : Option (Next UartPlace)}
    (hp : uartToll.weight p = 0) : ¬ Uart.Putting (update c.pc t p) := by
  rintro ⟨u, hu, hpos⟩
  by_cases hut : u = t
  · rw [hut, update_self, hp] at hpos
    exact lt_irrefl 0 hpos
  · rw [update_of_ne hut] at hpos
    exact h ⟨u, hu, hpos⟩

section

variable (h : Uart.Inv c) (P : c.Proper t)
include h P

theorem pass {p : Option (Next UartPlace)}
    (h₀ : uartToll.weight (c.pc t) = 0) (hp : uartToll.weight p = 0) : Uart.Inv (c.setPc t p) :=
  ⟨h.kept, h.gate.frame P.tid (P.awake _) rfl (hp.trans h₀.symm),
    fun hidle => not_putting_update (h.idle hidle) hp⟩

theorem run {l : UartPlace}
    {f : Uart → Heap → Uart × Heap × Next UartPlace} (hpc : c.pc t = some (.goto l))
    (hact : uartLibrary.act l c.shared = .run f) :
    Uart.Inv ({ c with shared := (f c.shared c.heap).1, heap := (f c.shared c.heap).2.1 }.setPc t
      (some (f c.shared c.heap).2.2)) := by
  rcases l with ⟨_ | ⟨ch, buffer⟩, count⟩ | ⟨ch, buffer, count⟩
  · cases hact
    exact h.pass P (by rw [hpc]; rfl) rfl
  · change UartPlace.act (.write (ch :: buffer) count) c.shared = _ at hact
    unfold UartPlace.act at hact
    dsimp only at hact
    split_ifs at hact with hidle
    cases hact
    have hmove := h.pass P (p := some (.goto (.write buffer (count + 1)))) (by rw [hpc]; rfl) rfl
    exact ⟨h.kept.putDirect hidle ch, hmove.gate, nofun⟩
  · cases hact
    have hpos : 0 < uartToll.weight (c.pc t) := by
      rw [hpc]
      exact one_pos
    -- the writer has a permit, so there is space
    have hspace : c.shared.ocount < UART_OBLEN := by
      have := h.gate.pos P hpos
      omega
    have hidle : c.shared.oidle = false := by
      cases hidle : c.shared.oidle with
      | true => exact absurd ⟨t, mem_tids.mpr P.tid, hpos⟩ (h.idle hidle)
      | false => rfl
    refine ⟨h.kept.putRing hspace hidle ch, ?_, fun hi => absurd (hidle.symm.trans hi) (by simp)⟩
    have hcount : (c.shared.putRing ch).ocount = c.shared.ocount + 1 :=
      Nat.mod_eq_of_lt (Nat.lt_of_le_of_lt hspace (show UART_OBLEN < 2 ^ 16 by decide))
    have hgate := h.gate.move P.tid (P.awake _) rfl (some (.goto (.write buffer (count + 1))))
    have hw : uartToll.weight (c.pc t) = 1 := by rw [hpc]; rfl
    have hw' : uartToll.weight (some (.goto (.write buffer (count + 1)))) = 0 := rfl
    rw [hw, hw'] at hgate
    change Gate _ _ _ _ (UART_OBLEN - ((c.shared.putRing ch).ocount : Int))
    have hsum : (UART_OBLEN : Int) - ((c.shared.putRing ch).ocount : Int) =
        UART_OBLEN - c.shared.ocount + (0 : Nat) - (1 : Nat) := by
      push_cast
      omega
    rw [hsum]
    exact hgate

theorem call {l : UartPlace} {op : Op}
    {back : Int → Uart → Uart × Next UartPlace} {v : Int} {σ' : Semaphores}
    (hpc : c.pc t = some (.goto l)) (hact : uartLibrary.act l c.shared = .call op back)
    (hcall : SemCall t c.sems op v σ') :
    Uart.Inv ({ c with sems := σ', shared := (back v c.shared).1 }.setPc t
      (some (back v c.shared).2)) := by
  rcases l with ⟨_ | ⟨ch, buffer⟩, count⟩ | ⟨ch, buffer, count⟩
  · cases hact
  · change UartPlace.act (.write (ch :: buffer) count) c.shared = _ at hact
    unfold UartPlace.act at hact
    dsimp only at hact
    split_ifs at hact with hidle
    cases hact
    have hgate := h.gate.wait P.tid hcall (p := some (.goto (.put ch buffer count)))
      ⟨ch, buffer, count, rfl⟩ (by rw [hpc]; rfl)
    exact ⟨h.kept, hgate.2, fun hi => absurd hi hidle⟩
  · cases hact

theorem irq (hdrain : c.shared.ocount = 0 → ¬ Uart.Putting c.pc) {v : Int} {σ' : Semaphores}
    (hcall : SemCall t c.sems (.signaln c.shared.osema c.shared.uartInterrupt.2) v σ') :
    Uart.Inv { c with sems := σ', shared := c.shared.uartInterrupt.1 } := by
  obtain ⟨hkept, htotal, hsema, hidle⟩ := h.kept.uartInterrupt
  refine ⟨hkept, ?_, fun hi => hdrain (hidle hi)⟩
  dsimp only
  rw [hsema]
  generalize c.shared.uartInterrupt = r at hcall htotal ⊢
  rcases eq_zero_or_pos r.2 with hzero | hpos
  · -- `signaln` refuses a count of zero
    rw [hzero, add_zero] at htotal
    rw [hzero] at hcall
    rw [htotal]
    refine h.gate.keep ?_
    cases hcall with
    | signaln _ hpos => exact absurd hpos (by simp)
    | signalnBad => rfl
  · have hgate := (h.gate.signaln P.tid (P.awake _) hpos hcall (c.pc t)).2
    rw [update_eq_self] at hgate
    convert hgate using 1
    omega

end

/-- **What happens keeps the driver in order.** -/
theorem move {i : Input UartCall} {c' : Crowd Uart UartPlace} (P : c.Proper t) (h : Uart.Inv c)
    (hdrain : Uart.Drains c t i) (hmove : uartLibrary.Move c t i c') : Uart.Inv c' := by
  cases hmove with
  | @enter a hpc =>
    have hw : uartToll.weight (some (uartLibrary.enter a c.shared)) = 0 := by
      rcases a with buffer | ch
      all_goals
        change uartToll.weight (some (UartPlace.enterWrite _ _)) = 0
        unfold UartPlace.enterWrite
        split_ifs <;> rfl
    exact h.pass P (by rw [hpc]; rfl) hw
  | done hpc => exact h.pass P (by rw [hpc]; rfl) rfl
  | run hpc hact => exact h.run P hpc hact
  | call hpc hact hcall => exact h.call P hpc hact hcall
  | irq hirq hcall =>
    change (if c.shared.pending then _ else _) = _ at hirq
    split_ifs at hirq
    cases hirq
    exact h.irq P hdrain hcall
  | other hown _ =>
    exact ⟨h.kept, h.gate.keep (hown _ (decide_eq_true rfl) h.gate.live), h.idle⟩

end Uart.Inv

/-- The world when `uartInit` has created the semaphore. -/
def uartStart (s₀ : Kernel) (csr osema : Nat) : World Uart UartPlace where
  kernel := s₀.exec (.semcreate UART_OBLEN)
  shared := Uart.init csr osema
  pc := fun _ => none

/-- **The output is in order.** Let `uartInit` create its semaphore in any orderly run, and let any
threads write to the UART while it interrupts. As long as no interrupt finds the ring empty while a
writer is about to put a byte there, the ring is never overfull, the bytes stored to the data
register and then those in the ring are the bytes accepted, and a ring that is not empty is being
drained. -/
theorem uart_ordered {endaddr memheap maxaddr : Nat} {mem : Nat → MemBlock} {ops₀ : List Op}
    {s₀ : Kernel} {csr osema : Nat} {inputs : List (Input UartCall)} {w : World Uart UartPlace}
    (r₀ : orderlyMachine.Run (Kernel.sysinit endaddr memheap maxaddr mem) ops₀ s₀)
    (hcreate : (s₀.call (.semcreate UART_OBLEN)).2 = .ret osema)
    (r : (uartLibrary.machine.restrict fun w i => Uart.Drains w.crowd w.current i).Run
      (uartStart s₀ csr osema) inputs w) : w.shared.Ordered := by
  obtain ⟨hsound, hsem, hc⟩ :=
    Library.start r₀ hcreate (Uart.init csr osema) (fun _ => (none : Option (Next UartPlace)))
  have hinit : Uart.Inv (uartStart s₀ csr osema).crowd := by
    refine ⟨Uart.Kept.init csr osema, ?_, fun _ => ?_⟩
    · change Gate (s₀.exec _).semaphore _ osema uartToll (UART_OBLEN - ((0 : Nat) : Int))
      rw [hsem, Int.natCast_zero, Int.sub_zero]
      exact Gate.create hc (uartToll.total_none rfl)
    · rintro ⟨u, -, hpos⟩
      exact lt_irrefl 0 hpos
  exact (Library.invariant (fun c t i c' P J hd hm => J.move P hd hm) hsound hinit r).kept.ordered

instance (c : Crowd Uart UartPlace) (t : Int) :
    ∀ i : Input UartCall, Decidable (Uart.Drains c t i) := by
  rintro ⟨⟩ <;> unfold Uart.Drains <;> infer_instance

instance (w : World Uart UartPlace) (i : Input UartCall) :
    Decidable
      ((uartLibrary.machine.restrict fun w i => Uart.Drains w.crowd w.current i).enabled w i) :=
  inferInstanceAs (Decidable (uartLibrary.Enabled w i ∧ Uart.Drains w.crowd w.current i))

/-- Thread 2 writes two bytes, and an interrupt takes the second to the hardware. -/
def twoBytes : World Uart UartPlace :=
  (uartLibrary.machine.restrict fun w i => Uart.Drains w.crowd w.current i).after
    (uartStart twoThreads 1 1)
    [.other .cont, .other (.resume 2), .enter (.uartWrite [104, 105]), .go, .go,
      .other .cont, .go, .go,
      .go, .irq]

theorem uart_ordered_twoBytes : twoBytes.shared.dr = [104, 105] ∧ twoBytes.shared.Ordered := by
  have r₀ : orderlyMachine.Run board [.create 128 20, .cont, .create 128 10, .cont] twoThreads :=
    Machine.run_after (by decide +kernel)
  have r : (uartLibrary.machine.restrict fun w i => Uart.Drains w.crowd w.current i).Run
      (uartStart twoThreads 1 1) _ twoBytes := Machine.run_after (by decide +kernel)
  exact ⟨by decide +kernel, uart_ordered r₀ (by decide +kernel) r⟩

end Xinu
