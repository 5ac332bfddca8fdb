import Xinu.Uart.Output

/-!
# A stalled writer

While a ring with space is filled and while it is drained, the kernel only counts: `wait` gets
through, and `signaln` finds nobody waiting and keeps the thread that has the processor. So a writer
gets to the end of the ring, and the interrupts that drain the ring come before it has put its last
byte there.

## Main results

* `Uart.reaches_fill`: a writer fills a ring with space
* `Uart.reaches_drain`: interrupts drain the ring while a thread has the processor
* `uart_stalled`: a byte is left in the ring of an idle transmitter
-/

namespace Xinu

set_option maxRecDepth 8000

open List Function Kernel

variable {i : Nat} {n : Int} {u : Uart}

/-! ## Calls that only count -/

namespace Kernel

variable {s : Kernel}

/-- The semaphore `i` has the count `n`. -/
def setCount (s : Kernel) (i : Nat) (n : Int) : Kernel := s.modSem i fun e => { e with count := n }

/-- `resched` has been called `k` times and has kept the thread that had the processor. -/
def keeping (s : Kernel) (k : Nat) : Kernel :=
  { s with rescheds := s.rescheds ++ List.replicate k ⟨false, s.thrcurrent, s.thrtab⟩ }

theorem keeping_zero (s : Kernel) : s.keeping 0 = s := by
  unfold keeping
  rw [replicate_zero, append_nil]

theorem setCount_setCount (s : Kernel) (i : Nat) (m n : Int) :
    (s.setCount i m).setCount i n = s.setCount i n := by
  simp only [setCount, modSem, store_eq_update, update_self, update_idem]

theorem count_setCount (s : Kernel) (i : Nat) (n : Int) :
    ((s.setCount i n).semtab i).count = n := by
  simp only [setCount, modSem, store_eq_update, update_self]

theorem setCount_self (h : (s.semtab i).count = n) : s.setCount i n = s := by
  simp only [setCount, modSem, store_eq_update, ← h]
  rw [update_eq_self]

theorem isbadsem_setCount (s : Kernel) (i : Nat) (n : Int) :
    (s.setCount i n).isbadsem i ↔ s.isbadsem i := by
  simp only [isbadsem, setCount, modSem, store_eq_update, update_self]

/-- A call that leaves everything to its caller returns to it. -/
theorem exec_cont_setCtx (h : (s.thrtab s.thrcurrent).ctx = .user) (r : Int) :
    (s.setCtx s.thrcurrent (.ret r)).exec .cont = s := by
  have hctx : ((s.setCtx s.thrcurrent (.ret r)).thrtab s.thrcurrent).ctx = .ret r := by
    simp only [setCtx, modThr, store_eq_update, update_self]
  have htab : ((s.setCtx s.thrcurrent (.ret r)).setCtx s.thrcurrent .user).thrtab = s.thrtab := by
    simp only [setCtx, modThr, store_eq_update, update_self, update_idem]
    rw [← h]
    exact update_eq_self s.thrcurrent s.thrtab
  have hcall : (s.setCtx s.thrcurrent (.ret r)).call .cont =
      (s.setCtx s.thrcurrent (.ret r), .user) := by
    change resumeCall _ ((s.setCtx s.thrcurrent (.ret r)).thrtab s.thrcurrent).ctx = _
    rw [hctx]
    rfl
  unfold exec
  rw [hcall]
  change { s with
    thrtab := ((s.setCtx s.thrcurrent (.ret r)).setCtx s.thrcurrent .user).thrtab } = s
  rw [htab]

theorem call_wait_setCount (hlive : ¬ s.isbadsem i) (hn : 0 ≤ n) :
    (s.setCount i (n + 1)).call (.wait i) = (s.setCount i n, .ret OK) := by
  have hmod : ((s.setCount i (n + 1)).modSem i fun e => { e with count := e.count - 1 }) =
      s.setCount i n := by
    have hcount := count_setCount s i (n + 1)
    conv_rhs => rw [← setCount_setCount s i (n + 1) n]
    unfold setCount modSem at hcount ⊢
    dsimp only at hcount ⊢
    rw [hcount, Int.add_sub_cancel]
  change wait _ _ = _
  unfold wait
  rw [if_neg (mt (isbadsem_setCount s i _).mp hlive)]
  rw [hmod, if_neg (by rw [count_setCount]; omega)]

theorem exec_wait_setCount (hlive : ¬ s.isbadsem i) (hn : 0 ≤ n) :
    (s.setCount i (n + 1)).exec (.wait i) = (s.setCount i n).setCtx s.thrcurrent (.ret OK) := by
  unfold exec
  rw [call_wait_setCount hlive hn]
  rfl

/-- The thread that has the processor is ahead of the ready list. -/
def Leading (s : Kernel) : Prop :=
  s.resdefer = 0 ∧ (s.thrtab s.thrcurrent).state = .curr ∧ s.nonempty s.readylist ∧
    s.firstkey s.readylist < (s.thrtab s.thrcurrent).prio
deriving Decidable

theorem Leading.resched (h : s.Leading) : s.resched = s.dispatched false := by
  obtain ⟨hdefer, hlead⟩ := h
  unfold Kernel.resched
  rw [if_neg (by omega)]
  rw [if_pos hlead]

/-- A `signaln` that nobody waits for, with the processor kept. -/
theorem exec_signaln_setCount (hlive : ¬ s.isbadsem i) (hn : 0 ≤ n) (hlead : s.Leading) (k : Nat) :
    ((s.setCount i n).keeping k).exec (.signaln i 1) =
      ((s.setCount i (n + 1)).keeping (k + 1)).setCtx s.thrcurrent (.ret OK) := by
  have hloop : signalnLoop i 1 ((s.setCount i n).keeping k) = (s.setCount i (n + 1)).keeping k := by
    have hcount := count_setCount s i n
    have hmod : ((s.setCount i n).modSem i fun e => { e with count := e.count + 1 }) =
        s.setCount i (n + 1) := by
      conv_rhs => rw [← setCount_setCount s i n (n + 1)]
      unfold setCount modSem at hcount ⊢
      dsimp only at hcount ⊢
      rw [hcount]
    unfold signalnLoop signalnLoop
    rw [if_neg (by
      change ¬ ((s.setCount i n).semtab i).count < 0
      omega)]
    change ((s.setCount i n).modSem i fun e => { e with count := e.count + 1 }).keeping k = _
    rw [hmod]
  have hresched : ((s.setCount i (n + 1)).keeping k).resched =
      (s.setCount i (n + 1)).keeping (k + 1) := by
    rw [Leading.resched (s := (s.setCount i (n + 1)).keeping k) hlead]
    unfold dispatched keeping
    rw [append_assoc, ← replicate_succ']
  change (signaln _ _ _).1.setCtx _ (signaln _ _ _).2 = _
  unfold signaln
  rw [if_neg (by
    rintro (h | h)
    · exact hlive ((isbadsem_setCount s i n).mp h)
    · exact absurd h (by decide))]
  change ((signalnLoop i 1 _).resched).setCtx _ _ = _
  rw [hloop, hresched]
  rfl

theorem exec_signaln_zero : s.exec (.signaln i 0) = s.setCtx s.thrcurrent (.ret SYSERR) := by
  change (signaln _ _ _).1.setCtx _ (signaln _ _ _).2 = _
  unfold signaln
  rw [if_pos (.inr le_rfl)]

end Kernel

/-! ## A stalled writer -/

/-- The thread `t` has the processor and is in its own code. -/
def Kernel.InCode (k : Kernel) (t : Int) : Prop :=
  k.thrcurrent = t ∧ k.halted = false ∧ (k.thrtab t).ctx = .user
deriving Decidable

namespace Uart

variable {k : Kernel} {t : Int} {pc : Int → Option (Next UartPlace)} {ch : UInt8}
  {buffer : List UInt8} {count : Nat}

/-- The driver can get from one world to another. -/
def Reaches (w w' : World Uart UartPlace) : Prop :=
  ∃ inputs, uartLibrary.machine.Run w inputs w'

theorem Reaches.trans {w w' w'' : World Uart UartPlace} (h : Reaches w w') (h' : Reaches w' w'') :
    Reaches w w'' := by
  obtain ⟨l, r⟩ := h
  obtain ⟨l', r'⟩ := h'
  exact ⟨l ++ l', r.append r'⟩

theorem Reaches.step {w w' : World Uart UartPlace}
    (j : Input UartCall) (he : uartLibrary.Enabled w j)
    (hw : uartLibrary.step w j = w') : Reaches w w' := by
  subst hw
  exact ⟨[j], .cons he (.nil _)⟩

theorem Reaches.other (k : Kernel) (u : Uart) (pc : Int → Option (Next UartPlace)) (op : Op)
    (he : k.Enabled op) (ho : k.Orderly op) (hf : uartLibrary.Foreign ⟨k, u, pc⟩ op) :
    Reaches ⟨k, u, pc⟩ ⟨k.exec op, u, pc⟩ :=
  .step (.other op) ⟨he, ho, hf⟩ rfl

theorem Reaches.cont (k : Kernel) (u : Uart) (pc : Int → Option (Next UartPlace)) {v : Int}
    (hk : k.halted = false) (hctx : (k.thrtab k.thrcurrent).ctx = .ret v) :
    Reaches ⟨k, u, pc⟩ ⟨k.exec .cont, u, pc⟩ := by
  refine .other k u pc .cont ⟨hk, by simp [hctx]⟩ ⟨⟨fun _ h => h, trivial⟩, fun _ => ?_⟩
    fun t ht => ?_
  · rw [hctx]
    rintro t ⟨⟩
  · change (k.thrtab k.thrcurrent).ctx = _ at ht
    rw [hctx] at ht
    cases ht

section

variable (h : k.InCode t)
include h

theorem Reaches.back {v : Int} : Reaches ⟨k.setCtx t (.ret v), u, pc⟩ ⟨k, u, pc⟩ := by
  obtain ⟨rfl, hk, hctx⟩ := h
  have hret : ((k.setCtx k.thrcurrent (.ret v)).thrtab k.thrcurrent).ctx = .ret v := by
    simp only [setCtx, modThr, store_eq_update, update_self]
  have hcont := Reaches.cont (k.setCtx k.thrcurrent (.ret v)) u pc hk hret
  rwa [exec_cont_setCtx hctx] at hcont

theorem Reaches.resume (hpc : pc t = none) (tid : Int) :
    Reaches ⟨k, u, pc⟩ ⟨k.exec (.resume tid), u, pc⟩ := by
  obtain ⟨rfl, hk, hctx⟩ := h
  exact .other k u pc (.resume tid) ⟨hk, by simp [hctx]⟩ ⟨⟨fun _ h => h, trivial⟩, by rintro ⟨⟩⟩ hpc

theorem Reaches.receive (hpc : pc t = none) (hnull : t ≠ NULLTHREAD) :
    Reaches ⟨k, u, pc⟩ ⟨k.exec .receive, u, pc⟩ := by
  obtain ⟨rfl, hk, hctx⟩ := h
  exact .other k u pc .receive ⟨hk, by simp [hctx]⟩
    ⟨⟨fun h => absurd h hnull, trivial⟩, by rintro ⟨⟩⟩ hpc

theorem Reaches.enter (hpc : pc t = none) (hcsr : u.csr ≠ 0) :
    Reaches ⟨k, u, pc⟩ ⟨k, u, update pc t (some (.goto (.write buffer 0)))⟩ := by
  obtain ⟨rfl, hu⟩ := h
  refine .step (.enter (.uartWrite buffer)) ⟨hu, hpc⟩ ?_
  change World.setPc ⟨k, u, pc⟩ (some (UartPlace.enterWrite buffer u)) = _
  unfold UartPlace.enterWrite
  rw [if_neg hcsr]
  rfl

theorem Reaches.direct (hidle : u.oidle = true) :
    Reaches ⟨k, u, update pc t (some (.goto (.write (ch :: buffer) count)))⟩
      ⟨k, u.putDirect ch, update pc t (some (.goto (.write buffer (count + 1))))⟩ := by
  obtain ⟨rfl, hu⟩ := h
  have hact : uartLibrary.act (.write (ch :: buffer) count) u =
      .run fun u h => (u.putDirect ch, h, .goto (.write buffer (count + 1))) := by
    change UartPlace.act (.write (ch :: buffer) count) u = _
    unfold UartPlace.act
    dsimp only
    rw [hidle]
    rfl
  refine .step .go (Library.enabled_go hu (update_self ..) (by rw [hact]; trivial)) ?_
  rw [Library.step_go (update_self ..), hact]
  change World.mk k _ (update (update pc k.thrcurrent _) k.thrcurrent _) = _
  rw [update_idem]

theorem Reaches.put :
    Reaches ⟨k, u, update pc t (some (.goto (.put ch buffer count)))⟩
      ⟨k, u.putRing ch, update pc t (some (.goto (.write buffer (count + 1))))⟩ := by
  obtain ⟨rfl, hu⟩ := h
  refine .step .go (Library.enabled_go hu (update_self ..) trivial) ?_
  rw [Library.step_go (update_self ..)]
  change World.mk k _ (update (update pc k.thrcurrent _) k.thrcurrent _) = _
  rw [update_idem]

/-- A writer waits for space. -/
theorem Reaches.wait (hidle : u.oidle = false) (hi : u.osema = i)
    (hnull : t ≠ NULLTHREAD) (hcall : (k.call (.wait i)).2 = .ret OK) :
    Reaches ⟨k, u, update pc t (some (.goto (.write (ch :: buffer) count)))⟩
      ⟨k.exec (.wait i), u, update pc t (some (.goto (.put ch buffer count)))⟩ := by
  obtain ⟨rfl, hu⟩ := h
  have hact : uartLibrary.act (.write (ch :: buffer) count) u =
      .call (.wait i) fun _ u => (u, .goto (.put ch buffer count)) := by
    change UartPlace.act (.write (ch :: buffer) count) u = _
    unfold UartPlace.act
    dsimp only
    rw [hidle, hi]
    rfl
  refine .step .go (Library.enabled_go hu (update_self ..) ?_) ?_
  · rw [hact]
    exact ⟨⟨fun h => absurd h hnull, trivial⟩, by rintro ⟨⟩⟩
  · rw [Library.step_go (update_self ..), hact, Library.perform_call hcall]
    change World.mk _ _ (update (update pc k.thrcurrent _) k.thrcurrent _) = _
    rw [update_idem]

theorem Reaches.irq (hpc : pc t = none) (hpending : u.pending = true)
    (hi : u.osema = i) (hn : u.uartInterrupt.2 = n) :
    Reaches ⟨k, u, pc⟩ ⟨k.exec (.signaln i n), u.uartInterrupt.1, pc⟩ := by
  obtain ⟨rfl, hu⟩ := h
  have hirq : uartLibrary.interrupt u = some (u.uartInterrupt.1, .signaln i n) := by
    subst hi hn
    exact if_pos hpending
  refine .step .irq ⟨hu, Library.maskedAt_of_none hpc, ?_⟩ ?_
  · rw [hirq]
    exact ⟨⟨fun _ h => h, trivial⟩, by rintro ⟨⟩⟩
  · unfold Library.step
    rw [hirq]

end

/-- A writer puts bytes in a ring with space for them. -/
theorem reaches_fill (hk : k.InCode t) (hlive : ¬ k.isbadsem i) (hnull : t ≠ NULLTHREAD)
    (pc : Int → Option (Next UartPlace)) (buffer rest : List UInt8) (m : Nat) :
    ∀ (u : Uart) (count : Nat), u.oidle = false → u.osema = i →
      Reaches ⟨k.setCount i (buffer.length + m : Nat), u,
        update pc t (some (.goto (.write (buffer ++ rest) count)))⟩
      ⟨k.setCount i m, buffer.foldl Uart.putRing u,
        update pc t (some (.goto (.write rest (count + buffer.length))))⟩ := by
  induction buffer with
  | nil =>
    intro u count _ _
    rw [length_nil, zero_add]
    exact ⟨[], .nil _⟩
  | cons ch buffer ih =>
    intro u count hidle hi
    have hn : (0 : Int) ≤ (buffer.length + m : Nat) := Int.natCast_nonneg _
    have hsucc : (((ch :: buffer).length + m : Nat) : Int) = (buffer.length + m : Nat) + 1 := by
      rw [length_cons]
      push_cast
      omega
    have hcall := congrArg Prod.snd (call_wait_setCount hlive hn)
    have hcode : ∀ n, (k.setCount i n).InCode t := fun _ => hk
    rw [hsucc, length_cons, ← add_assoc, add_right_comm count]
    -- `wait` gets through, its caller goes on and puts the byte
    refine (Reaches.wait (hcode _) hidle hi hnull hcall).trans ?_
    rw [exec_wait_setCount hlive hn, hk.1]
    exact (Reaches.back (hcode _)).trans ((Reaches.put (hcode _)).trans (ih _ (count + 1) hidle hi))

theorem foldl_putRing (buffer : List UInt8) : ∀ u : Uart, u.ocount + buffer.length < 2 ^ 16 →
    (buffer.foldl putRing u).ocount = u.ocount + buffer.length ∧
      (buffer.foldl putRing u).osema = u.osema ∧ (buffer.foldl putRing u).oidle = u.oidle ∧
      (buffer.foldl putRing u).pending = u.pending := by
  induction buffer with
  | nil => exact fun u _ => ⟨rfl, rfl, rfl, rfl⟩
  | cons ch buffer ih =>
    intro u hlt
    rw [length_cons] at hlt ⊢
    have hcount : (u.putRing ch).ocount = u.ocount + 1 := Nat.mod_eq_of_lt (by omega)
    obtain ⟨h₁, h₂⟩ := ih (u.putRing ch) (by omega)
    exact ⟨h₁.trans (by omega), h₂⟩

theorem uartInterrupt_of_pos (h : 0 < u.ocount) :
    u.uartInterrupt.2 = 1 ∧ u.uartInterrupt.1.ocount = u.ocount - 1 ∧
      u.uartInterrupt.1.osema = u.osema ∧ u.uartInterrupt.1.pending = true := by
  unfold uartInterrupt
  dsimp only
  rw [if_pos h]
  exact ⟨rfl, rfl, rfl, rfl⟩

theorem uartInterrupt_of_zero (h : u.ocount = 0) :
    u.uartInterrupt.2 = 0 ∧ u.uartInterrupt.1.ocount = 0 ∧
      u.uartInterrupt.1.pending = false ∧ u.uartInterrupt.1.oidle = true := by
  unfold uartInterrupt
  rw [h]
  exact ⟨rfl, rfl, rfl, rfl⟩

/-- Interrupts drain the ring while a thread ahead of the ready list has the processor. -/
theorem reaches_drain (hk : k.InCode t) (hlive : ¬ k.isbadsem i) (hlead : k.Leading)
    (pc : Int → Option (Next UartPlace)) (hpc : pc t = none) (j : Nat) :
    ∀ (u : Uart) (n m : Nat), u.osema = i → u.pending = true → u.ocount = j →
      ∃ u' : Uart, Reaches ⟨(k.setCount i n).keeping m, u, pc⟩
        ⟨(k.setCount i (n + j : Nat)).keeping (m + j), u', pc⟩ ∧
        u'.osema = i ∧ u'.pending = true ∧ u'.ocount = 0 := by
  induction j with
  | zero => exact fun u n m hi hp hc => ⟨u, ⟨[], .nil _⟩, hi, hp, hc⟩
  | succ j ih =>
    intro u n m hi hp hc
    obtain ⟨hone, hcount, hsema, hpending⟩ := uartInterrupt_of_pos (u := u) (by omega)
    have hcode : ∀ n m, ((k.setCount i n).keeping m).InCode t := fun _ _ => hk
    obtain ⟨u', hr, hu'⟩ := ih u.uartInterrupt.1 (n + 1) (m + 1) (hsema.trans hi)
        hpending (by omega)
    refine ⟨u', ?_, hu'⟩
    have hirq := Reaches.irq (hcode n m) hpc hp hi (congrArg Nat.cast hone)
    rw [Nat.cast_one, exec_signaln_setCount hlive (Int.natCast_nonneg n) hlead m, hk.1] at hirq
    rw [add_right_comm n, add_right_comm m] at hr
    exact hirq.trans ((Reaches.back (hcode _ _)).trans hr)

end Uart

/-- Thread 2 is to write, with thread 1 suspended and ahead of it. -/
def toWrite : Kernel := ((twoThreads.exec (.semcreate UART_OBLEN)).exec .cont).exec (.resume 2)

/-- Thread 2 has filled the ring and waits for space, and thread 1 has the processor. -/
def toDrain : Kernel := (((toWrite.setCount 1 0).exec (.wait 1)).exec .cont).exec (.resume 1)

/-- An interrupt has released thread 2. -/
def released : Kernel := (toDrain.exec (.signaln 1 1)).exec .cont

/-- The ring is empty, thread 1 waits for a message, and thread 2 goes on. -/
def toPut : Kernel := (((released.setCount 1 1023).keeping 1023).exec .receive).exec .cont

/-- Thread 2 is behind its `wait` for space. -/
def atPut : Int → Option (Next UartPlace) := update (fun _ => none) 2
    (some (.goto (.put 0 [] 1025)))

theorem atPut_one : atPut 1 = none := update_of_ne (by decide) _ _

/-- The first byte goes to the idle transmitter. -/
theorem reaches_toWrite (buffer : List UInt8) :
    Uart.Reaches (uartStart twoThreads 1 1) ⟨toWrite, (Uart.init 1 1).putDirect 0,
      update (fun _ => none) 2 (some (.goto (.write buffer 1)))⟩ := by
  have h₁ := Uart.Reaches.other (twoThreads.exec (.semcreate UART_OBLEN)) (Uart.init 1 1)
    (fun _ => none) .cont (by decide) (by decide) (by decide)
  have h₂ := Uart.Reaches.other ((twoThreads.exec (.semcreate UART_OBLEN)).exec .cont)
      (Uart.init 1 1)
    (fun _ => none) (.resume 2) (by decide) (by decide) rfl
  have hcode : toWrite.InCode 2 := by decide
  exact h₁.trans (h₂.trans ((Uart.Reaches.enter hcode rfl one_ne_zero).trans
    (.direct hcode rfl)))

/-- The writer waits in front of the full ring, and the first interrupt releases it. -/
theorem reaches_released (hidle : u.oidle = false) (hi : u.osema = 1) (hp : u.pending = true)
    (hpos : 0 < u.ocount) :
    Uart.Reaches ⟨toWrite.setCount 1 0, u, update (fun _ => none) 2
      (some (.goto (.write [0] 1025)))⟩
      ⟨released, u.uartInterrupt.1, atPut⟩ := by
  have hone : (u.uartInterrupt.2 : Int) = 1 := congrArg Nat.cast (Uart.uartInterrupt_of_pos hpos).1
  have hwrite : (toWrite.setCount 1 0).InCode 2 := by decide
  have hnull : (((toWrite.setCount 1 0).exec (.wait 1)).exec .cont).InCode NULLTHREAD := by
    decide
  have hdrain : toDrain.InCode 1 := by decide
  refine (Uart.Reaches.wait hwrite hidle hi (by decide) (by decide)).trans ?_
  -- the null thread resumes thread 1, which is interrupted
  refine (Uart.Reaches.cont (v := 10) _ _ _ (by decide) (by decide)).trans ?_
  refine (Uart.Reaches.resume hnull (update_of_ne (by decide) _ _) 1).trans ?_
  refine (Uart.Reaches.irq hdrain atPut_one hp hi hone).trans ?_
  exact .cont (v := OK) _ _ _ (by decide) (by decide)

/-- The interrupts drain the ring and the last one finds it empty; then the writer goes on. -/
theorem reaches_toPut (hi : u.osema = 1) (hp : u.pending = true) (hc : u.ocount = 1023) :
    ∃ u' : Uart, Uart.Reaches ⟨released, u, atPut⟩ ⟨toPut, u', atPut⟩ ∧ u'.ocount = 0 ∧
      u'.pending = false ∧ u'.oidle = true := by
  have hcode : released.InCode 1 := by decide
  have hcode' : ((released.setCount 1 1023).keeping 1023).InCode 1 := by decide
  have hstart : (released.setCount 1 0).keeping 0 = released := by
    rw [setCount_self (by decide), keeping_zero]
  have hlive : ¬ released.isbadsem 1 := by decide
  have hlead : released.Leading := by decide
  obtain ⟨u₁, hdrain, hi₁, hp₁, hc₁⟩ :=
    Uart.reaches_drain hcode hlive hlead atPut atPut_one 1023 u 0 0 hi hp hc
  rw [Nat.cast_zero, hstart, Nat.zero_add, Nat.cast_ofNat] at hdrain
  obtain ⟨hzero, hidle⟩ := Uart.uartInterrupt_of_zero hc₁
  refine ⟨u₁.uartInterrupt.1, hdrain.trans ?_, hidle⟩
  have hirq := Uart.Reaches.irq hcode' atPut_one hp₁ hi₁ (congrArg Nat.cast hzero)
  rw [Nat.cast_zero, exec_signaln_zero, hcode'.1] at hirq
  refine hirq.trans ((Uart.Reaches.back hcode').trans ?_)
  refine (Uart.Reaches.receive hcode' atPut_one (by decide)).trans ?_
  exact Uart.Reaches.cont (v := OK) _ _ _ (by decide) (by decide)

/-- **A writer stalls.** It waits for space in the full ring, and is released by the first of the
interrupts that drain the ring. The last of them finds the ring empty and declares the transmitter
idle, and then the writer puts its byte in the ring. No interrupt will fetch it. -/
theorem uart_stalled :
    orderlyMachine.Run board [.create 128 20, .cont, .create 128 10, .cont] twoThreads ∧
    (twoThreads.call (.semcreate UART_OBLEN)).2 = .ret 1 ∧
    ∃ inputs w, uartLibrary.machine.Run (uartStart twoThreads 1 1) inputs w ∧
      w.shared.ocount = 1 ∧ w.shared.oidle = true ∧ w.shared.pending = false ∧
        ¬ w.shared.Ordered := by
  have hfill := Uart.reaches_fill (t := 2) (k := toWrite) (i := 1)
    (by decide) (by decide) (by decide) (fun _ => none) (replicate 1024 0) [0] 0
    ((Uart.init 1 1).putDirect 0) 1 rfl rfl
  rw [length_replicate, setCount_self (by decide)] at hfill
  obtain ⟨hcount, hsema, hidle, hpending⟩ := Uart.foldl_putRing (replicate 1024 0)
    ((Uart.init 1 1).putDirect 0) (by rw [length_replicate]; decide)
  rw [length_replicate] at hcount
  generalize (replicate 1024 (0 : UInt8)).foldl Uart.putRing _ = u
    at hfill hcount hsema hidle hpending
  have hpos : 0 < u.ocount := by
    rw [hcount]
    decide
  have hreleased := reaches_released hidle hsema hpending hpos
  obtain ⟨-, hcount', hsema', hpending'⟩ := Uart.uartInterrupt_of_pos hpos
  obtain ⟨u', hput, hzero, hp, hi⟩ := reaches_toPut (hsema'.trans hsema) hpending'
    (hcount'.trans (by rw [hcount]; rfl))
  have hcode : toPut.InCode 2 := by decide
  obtain ⟨inputs, r⟩ := (reaches_toWrite _).trans
    (hfill.trans (hreleased.trans (hput.trans (.put hcode))))
  have hone : (u'.putRing 0).ocount = 1 := by
    change (u'.ocount + 1) % 2 ^ 16 = 1
    rw [hzero]
    rfl
  refine ⟨Machine.run_after, by decide, inputs, _, r, hone, hi, hp, fun h => ?_⟩
  have hdraining := h.draining (by rw [hone]; exact one_pos)
  exact absurd (hi.symm.trans hdraining.1) (by decide)

end Xinu
