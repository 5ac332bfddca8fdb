import Mathlib.Data.List.Perm.Basic
import Mathlib.Data.List.Range
import Xinu.Foundations.Ring
import Xinu.Kernel.State

/-!
# The Ethernet loopback device

A packet that is written is copied to a buffer from the pool of the device and put in a ring, from
which it is read back. Flags that are set through the control function make the device drop or hold
a packet instead. A call that would block has no result; when the device goes on, it does so without
interruption, so that a call is one step.

The buffer is taken before the fate of the packet is known, and a packet that is dropped leaves its
buffer behind: nobody has it, and it is not in the pool.

## Main results

* `Carries.write`, `Carries.read`: a call keeps account of the buffers
* `Ledger.Sound.returns_iff`: when a call returns
* `ethloop_accounts`: the buffers outstanding are those in the ring and the held one if and only if
  no packet has been dropped; packets are read back in order; the interrupt mask is restored
-/

namespace Xinu

open List

namespace Ethloop

variable {b : Nat} {lost rest : List Nat} {q : List (Nat × List UInt8)}

/-! ## The device -/

/-- The link header, and the sizes of a buffer and of the ring. -/
def ELOOP_LINKHDRSIZE : Nat := 14
def ELOOP_BUFSIZE : Nat := 1500 + ELOOP_LINKHDRSIZE
def ELOOP_NBUF : Nat := 100

/-- Hold the next packet, drop the next packet, drop all packets. -/
def ELOOP_FLAG_HOLDNXT : UInt8 := 0x01
def ELOOP_FLAG_DROPNXT : UInt8 := 0x04
def ELOOP_FLAG_DROPALL : UInt8 := 0x08

/-- `ELOOP_STATE_FREE` and `ELOOP_STATE_ALLOC`. -/
inductive DevState
  | free
  | alloc
deriving DecidableEq

end Ethloop

/-- `struct ethloop`, the interrupt mask, and the pool of the device: its free buffers in the order
of their chain, and the octets of each buffer. -/
structure Ethloop where
  state : Ethloop.DevState := .free
  poolid : Int := 0
  flags : UInt8 := 0
  index : Nat := 0
  sem : Int := 0
  count : Nat := 0
  buffer : Nat → Option Nat := fun _ => none
  pktlen : Nat → Nat := fun _ => 0
  hsem : Int := 0
  hold : Option Nat := none
  holdlen : Nat := 0
  nout : Nat := 0
  irq : Bool := true
  freebuf : List Nat := []
  data : Nat → List UInt8 := fun _ => []

namespace Ethloop

/-- `bufget`: no result while there is no buffer, `SYSERR` for a pool that is not there. -/
def bufget (e : Ethloop) : Option (Ethloop × Option Nat) :=
  if e.poolid < 0 then some (e, none)
  else
    match e.freebuf with
    | [] => none
    | b :: rest => some ({ e with freebuf := rest }, some b)

/-- `buffree`: a buffer that is in the pool does not point to itself, and is refused. -/
def buffree (e : Ethloop) (b : Nat) : Ethloop :=
  { e with freebuf := if b ∈ e.freebuf then e.freebuf else b :: e.freebuf }

/-- `memcpy` to the start of a buffer. -/
def fill (e : Ethloop) (b : Nat) (pkt : List UInt8) : Ethloop :=
  { e with data := store e.data b (pkt ++ (e.data b).drop pkt.length) }

/-- `ethloopOpen`, given what `semcreate`, `semcreate` and `bfpalloc` return. `bzero` clears as many
octets of the two arrays as they have elements, of four octets each. -/
def ethloopOpen (e : Ethloop) (sem hsem : Int) (pool : Option Nat) (data : Nat → List UInt8) :
    Ethloop × Int :=
  let im := e.irq
  if e.state ≠ .free then (e, SYSERR)
  else
    let e := { e with irq := false, state := .alloc, flags := 0, nout := 0 }
    if sem = SYSERR ∨ hsem = SYSERR then ({ e with irq := im }, SYSERR)
    else
      let e := { e with
        sem := 0
        hsem := 0
        buffer := fun i => if i < ELOOP_NBUF / 4 then none else e.buffer i
        pktlen := fun i => if i < ELOOP_NBUF / 4 then 0 else e.pktlen i
        index := 0
        hold := none
        holdlen := 0
        count := 0
        irq := im }
      match pool with
      | none => ({ e with poolid := SYSERR }, SYSERR)
      | some poolid =>
        ({ e with poolid := poolid, freebuf := List.range ELOOP_NBUF, data := data }, OK)

/-- The drop flags are set, or one of them. -/
def Dropping (e : Ethloop) : Prop :=
  e.flags &&& ELOOP_FLAG_DROPNXT ≠ 0 ∨ e.flags &&& ELOOP_FLAG_DROPALL ≠ 0
deriving Decidable

/-- The hold flag is set. -/
def Holding (e : Ethloop) : Prop := e.flags &&& ELOOP_FLAG_HOLDNXT ≠ 0
deriving Decidable

/-- What `ethloopWrite` does with its buffer: drop it, hold it, or put it in the ring. -/
def dispose (e : Ethloop) (im : Bool) (b len : Nat) : Ethloop × Int :=
  if e.Dropping then
    ({ e with flags := e.flags &&& ~~~ELOOP_FLAG_DROPNXT, irq := im }, len)
  else if e.Holding then
    let e := { e with flags := e.flags &&& ~~~ELOOP_FLAG_HOLDNXT }
    let e := match e.hold with
      | none => e
      | some old => e.buffree old
    ({ e with hold := some b, holdlen := len, irq := im, hsem := e.hsem + 1 }, len)
  else if e.count ≥ ELOOP_NBUF then ({ e with irq := im }, SYSERR)
  else
    let index := (e.count + e.index) % ELOOP_NBUF
    ({ e with
      buffer := store e.buffer index (some b)
      pktlen := store e.pktlen index len
      count := e.count + 1
      nout := (e.nout + 1) % 2 ^ 32
      irq := im
      sem := e.sem + 1 }, len)

/-- `ethloopWrite`. Where there is no pool, it returns with interrupts disabled. -/
def ethloopWrite (e : Ethloop) (pkt : List UInt8) : Option (Ethloop × Int) :=
  if pkt.length > ELOOP_BUFSIZE ∨ pkt.length < ELOOP_LINKHDRSIZE then some (e, SYSERR)
  else if e.state ≠ .alloc then some (e, SYSERR)
  else
    match ({ e with irq := false } : Ethloop).bufget with
    | none => none
    | some (e, none) => some (e, SYSERR)
    | some (e', some b) => some ((e'.fill b pkt).dispose e.irq b pkt.length)

/-- `ethloopRead`, with the octets that are copied to the reader. -/
def ethloopRead (e : Ethloop) (len : Nat) : Option (Ethloop × Int × List UInt8) :=
  if e.state ≠ .alloc then some (e, SYSERR, [])
  else if e.sem ≤ 0 then none
  else
    match e.buffer e.index with
    | none => none
    | some b =>
      let pktlen := if len < e.pktlen e.index then len else e.pktlen e.index
      let octets := (e.data b).take pktlen
      let e := { e with
        sem := e.sem - 1
        buffer := store e.buffer e.index none
        pktlen := store e.pktlen e.index 0
        count := e.count - 1
        index := (e.index + 1) % ELOOP_NBUF }
      some (e.buffree b, pktlen, octets)

/-- `ethloopControl` with `ELOOP_CTRL_SETFLAG`. -/
def setFlags (e : Ethloop) (arg : UInt8) : Ethloop × Int :=
  if e.state ≠ .alloc then (e, SYSERR)
  else ({ e with flags := e.flags ||| arg }, (e.flags &&& arg).toNat)

/-- `ethloopControl` with `ELOOP_CTRL_CLRFLAG`. -/
def clrFlags (e : Ethloop) (arg : UInt8) : Ethloop × Int :=
  if e.state ≠ .alloc then (e, SYSERR)
  else ({ e with flags := e.flags &&& ~~~arg }, (e.flags &&& arg).toNat)

/-! ## Histories -/

/-- One if a packet is held. -/
def held (e : Ethloop) : Nat := if e.hold.isSome then 1 else 0

/-- The calls on an open device. -/
inductive Call
  | write (pkt : List UInt8)
  | read (len : Nat)
  | setFlags (arg : UInt8)
  | clrFlags (arg : UInt8)

/-- What a reader asked for and got: the length it gave, the result and the octets. -/
structure Receipt where
  len : Nat
  result : Int
  octets : List UInt8
deriving DecidableEq

/-- A reader got a packet, truncated to the length it gave. -/
def Receipt.Of (g : Receipt) (pkt : List UInt8) : Prop :=
  g.octets = pkt.take g.len ∧ g.result = ((min g.len pkt.length : Nat) : Int)
deriving Decidable

/-- The device, the packets written that were neither dropped nor held, what the readers got, and
the number of packets dropped. -/
structure Ledger where
  dev : Ethloop
  sent : List (List UInt8) := []
  got : List Receipt := []
  dropped : Nat := 0

/-- One call on the ledger, if it returns. -/
def Ledger.call (b : Ledger) : Call → Option Ledger
  | .write pkt =>
    (b.dev.ethloopWrite pkt).map fun r =>
      if r.2 = SYSERR then { b with dev := r.1 }
      else if b.dev.Dropping then { b with dev := r.1, dropped := b.dropped + 1 }
      else if b.dev.Holding then { b with dev := r.1 }
      else { b with dev := r.1, sent := b.sent ++ [pkt] }
  | .read len =>
    (b.dev.ethloopRead len).map fun r =>
      { b with dev := r.1, got := b.got ++ [⟨len, r.2.1, r.2.2⟩] }
  | .setFlags arg => some { b with dev := (b.dev.setFlags arg).1 }
  | .clrFlags arg => some { b with dev := (b.dev.clrFlags arg).1 }

/-- When a call returns: a packet of a length in range needs a buffer that is neither in the ring
nor held nor lost with a packet dropped, and a reader needs a packet in the ring. -/
def Ledger.Returns (b : Ledger) : Call → Prop
  | .write pkt => ELOOP_LINKHDRSIZE ≤ pkt.length → pkt.length ≤ ELOOP_BUFSIZE →
      b.dev.count + b.dev.held + b.dropped < ELOOP_NBUF
  | .read _ => 0 < b.dev.count
  | .setFlags _ => True
  | .clrFlags _ => True

/-- The device under any sequence of calls, in the order in which they return. A call that blocks
has changed nothing, and is a step when it goes on. -/
def loopMachine : Machine Ledger Call where
  enabled b c := (b.call c).isSome
  next b c := (b.call c).getD b

instance (b : Ledger) (c : Call) : Decidable (loopMachine.enabled b c) :=
  inferInstanceAs (Decidable (_ = true))

/-! ## Who has which buffer -/

/-- The buffers taken from the pool and not given back. -/
def outstanding (e : Ethloop) : Nat := ELOOP_NBUF - e.freebuf.length

/-- The cells of the ring. -/
def cell (e : Ethloop) (i : Nat) : Option Nat × Nat := (e.buffer i, e.pktlen i)

/-- **The account of the buffers**: the ring has the buffers and packets of `q`, and each buffer is
in the pool, in the ring, held, or among those lost. -/
structure Carries (e : Ethloop) (q : List (Nat × List UInt8)) (lost : List Nat) : Prop where
  alloc : e.state = .alloc
  pool : 0 ≤ e.poolid
  index_lt : e.index < ELOOP_NBUF
  sem : e.sem = e.count
  ring : Ring.window e.cell ELOOP_NBUF e.index e.count = q.map fun x => (some x.1, x.2.length)
  octets : ∀ x ∈ q, (e.data x.1).take x.2.length = x.2
  buffers : (e.freebuf ++ (q.map Prod.fst ++ (e.hold.toList ++ lost))).Perm (List.range ELOOP_NBUF)

namespace Carries

variable {e : Ethloop}

theorem count_eq (h : e.Carries q lost) : e.count = q.length := by
  have := congrArg length h.ring
  simpa using this

theorem hold_length (e : Ethloop) : e.hold.toList.length = e.held := by
  unfold held
  cases e.hold <;> rfl

section

variable (h : e.Carries q lost)
include h

theorem total : e.freebuf.length + (e.count + (e.held + lost.length)) = ELOOP_NBUF := by
  have := h.buffers.length_eq
  simp only [length_append, length_map, length_range, hold_length] at this
  rw [h.count_eq]
  exact this

/-- **The equation of the account**. -/
theorem outstanding_eq : e.outstanding = e.count + e.held + lost.length := by
  have := h.total
  unfold outstanding
  omega

theorem nodup : (e.freebuf ++ (q.map Prod.fst ++ (e.hold.toList ++ lost))).Nodup :=
  h.buffers.nodup_iff.mpr nodup_range

/-- The flags and the interrupt mask have no part in the account. -/
theorem of_eq {flags : UInt8} {irq : Bool} :
    ({ e with flags := flags, irq := irq } : Ethloop).Carries q lost :=
  { h with }

/-- A buffer that is taken from the pool is in nobody's hands. -/
theorem taken (hfree : e.freebuf = b :: rest) : b ∉ q.map Prod.fst := by
  intro hb
  have hnd := h.nodup
  rw [hfree, cons_append, nodup_cons] at hnd
  exact hnd.1 (mem_append_right _ (mem_append_left _ hb))

/-- The packets in the ring stay when another buffer is filled. -/
theorem octets_fill (hb : b ∉ q.map Prod.fst) (pkt : List UInt8) :
    ∀ x ∈ q, ((e.fill b pkt).data x.1).take x.2.length = x.2 := by
  intro x hx
  have hne : x.1 ≠ b := by
    rintro rfl
    exact hb (mem_map_of_mem hx)
  simp only [fill, store, if_neg hne]
  exact h.octets x hx

end

/-! ### Writing -/

section

variable (h : e.Carries q lost)
include h

section

variable (hfree : e.freebuf = b :: rest)
include hfree

theorem drop (pkt : List UInt8) :
    (({ e with freebuf := rest } : Ethloop).fill b pkt).Carries q (b :: lost) := by
  refine { h with octets := h.octets_fill (h.taken hfree) pkt, buffers := ?_ }
  refine (perm_iff_count.mpr fun x => ?_).trans h.buffers
  simp only [fill, hfree, count_append, count_cons]
  omega

theorem hold (hnone : e.hold = none) (pkt : List UInt8) :
    ({ ({ e with freebuf := rest } : Ethloop).fill b pkt with hold := some b } : Ethloop).Carries
      q lost := by
  refine { h with octets := h.octets_fill (h.taken hfree) pkt, buffers := ?_ }
  refine (perm_iff_count.mpr fun x => ?_).trans h.buffers
  simp only [fill, hfree, hnone, Option.toList, count_append, count_cons, count_nil]
  omega

/-- The packet is held in the place of another, whose buffer is freed. -/
theorem holdAgain {old : Nat} (hsome : e.hold = some old) (pkt : List UInt8) :
    old ∉ rest ∧
    ({ ({ e with freebuf := rest } : Ethloop).fill b pkt with
        freebuf := old :: rest, hold := some b } : Ethloop).Carries q lost := by
  constructor
  · intro hold
    have hnd := h.nodup
    rw [hfree, hsome, nodup_append] at hnd
    exact hnd.2.2 old (mem_cons_of_mem _ hold) old (by simp) rfl
  · refine { h with octets := h.octets_fill (h.taken hfree) pkt, buffers := ?_ }
    refine (perm_iff_count.mpr fun x => ?_).trans h.buffers
    simp only [hfree, hsome, Option.toList, count_append, count_cons, count_nil]
    omega

/-- While there is a buffer in the pool, the ring is not full. -/
theorem not_full : e.count < ELOOP_NBUF := by
  have := h.total
  rw [hfree, length_cons] at this
  omega

theorem push (pkt : List UInt8) : ({ ({ e with freebuf := rest } : Ethloop).fill b pkt with
        buffer := store e.buffer ((e.count + e.index) % ELOOP_NBUF) (some b)
        pktlen := store e.pktlen ((e.count + e.index) % ELOOP_NBUF) pkt.length
        count := e.count + 1
        sem := e.sem + 1 } : Ethloop).Carries (q ++ [(b, pkt)]) lost where
  alloc := h.alloc
  pool := h.pool
  index_lt := h.index_lt
  sem := by
    rw [h.sem]
    simp
  ring := by
    have hcell : ∀ f : Ethloop, f.buffer = store e.buffer (Ring.slot ELOOP_NBUF e.index e.count)
          (some b) →
        f.pktlen = store e.pktlen (Ring.slot ELOOP_NBUF e.index e.count) pkt.length →
        f.cell = Function.update e.cell (Ring.slot ELOOP_NBUF e.index e.count)
          (some b, pkt.length) := by
      intro f hb hl
      funext i
      simp only [cell, hb, hl, store, Function.update_apply]
      split <;> rfl
    rw [add_comm e.count e.index, hcell _ rfl rfl]
    refine (Ring.window_push e.cell e.index (h.not_full hfree) _).trans ?_
    rw [h.ring, map_append]
    rfl
  octets := by
    intro x hx
    rcases mem_append.mp hx with hx | hx
    · exact h.octets_fill (h.taken hfree) pkt x hx
    · obtain rfl := mem_singleton.mp hx
      simp [fill, store]
  buffers := by
    refine (perm_iff_count.mpr fun x => ?_).trans h.buffers
    simp only [fill, hfree, map_append, map_cons, map_nil, count_append, count_cons, count_nil]
    omega

end

end

end Carries

/-- What a call of `ethloopWrite` has done. -/
inductive Wrote (e : Ethloop) (pkt : List UInt8) (q : List (Nat × List UInt8)) (lost : List Nat) :
    Ethloop × Int → Prop
  /-- the length is out of range -/
  | refused : Wrote e pkt q lost (e, SYSERR)
  | dropped {e' : Ethloop} {b : Nat} :
      e.Dropping → e'.Carries q (b :: lost) → e'.irq = e.irq → Wrote e pkt q lost (e', pkt.length)
  | held {e' : Ethloop} :
      ¬ e.Dropping → e.Holding → e'.Carries q lost → e'.irq = e.irq →
      Wrote e pkt q lost (e', pkt.length)
  | queued {e' : Ethloop} {b : Nat} :
      ¬ e.Dropping → ¬ e.Holding → e'.Carries (q ++ [(b, pkt)]) lost → e'.irq = e.irq →
      Wrote e pkt q lost (e', pkt.length)

section Write

variable {e : Ethloop}

/-- A buffer that was taken from the pool and filled is dropped, held or queued. -/
theorem Carries.dispose (h : e.Carries q lost) (hfree : e.freebuf = b :: rest) (pkt : List UInt8) :
    Wrote e pkt q lost
      ((({ e with irq := false, freebuf := rest } : Ethloop).fill b pkt).dispose e.irq b
        pkt.length) := by
  generalize hf : ({ e with irq := false, freebuf := rest } : Ethloop).fill b pkt = f
  have hdrop : f.Dropping ↔ e.Dropping := by rw [← hf]; exact Iff.rfl
  have hhold : f.Holding ↔ e.Holding := by rw [← hf]; exact Iff.rfl
  have hcount : f.count = e.count := by rw [← hf]; rfl
  unfold Ethloop.dispose
  by_cases hd : f.Dropping
  · rw [if_pos hd]
    subst hf
    exact .dropped (hdrop.mp hd) (h.drop hfree pkt).of_eq rfl
  rw [if_neg hd]
  by_cases hh : f.Holding
  · rw [if_pos hh]
    subst hf
    refine .held (mt hdrop.mpr hd) (hhold.mp hh) ?_ rfl
    cases hsome : e.hold with
    | none =>
      have := h.hold hfree hsome pkt
      exact { this with }
    | some old =>
      obtain ⟨hout, this⟩ := h.holdAgain hfree hsome pkt
      simp only [fill, buffree]
      refine { this with buffers := ?_ }
      simpa [fill, hout] using this.buffers
  · rw [if_neg hh, if_neg (by rw [hcount]; exact not_le.mpr (h.not_full hfree))]
    subst hf
    exact .queued (mt hdrop.mpr hd) (mt hhold.mpr hh) { h.push hfree pkt with } rfl

/-- **What `ethloopWrite` does**, if it returns. -/
theorem Carries.write (h : e.Carries q lost) {pkt : List UInt8} {r : Ethloop × Int}
    (hr : e.ethloopWrite pkt = some r) : Wrote e pkt q lost r := by
  unfold ethloopWrite at hr
  split at hr
  · cases hr
    exact .refused
  · rw [if_neg (not_not.mpr h.alloc), bufget, if_neg (not_lt.mpr h.pool)] at hr
    cases hfree : e.freebuf with
    | nil => simp [hfree] at hr
    | cons b rest =>
      simp only [hfree] at hr
      cases hr
      exact h.dispose hfree pkt

end Write

/-! ### Reading -/

section Read

variable {e : Ethloop}

/-- While the semaphore is up, the first cell of the ring has a packet. -/
theorem Carries.first (h : e.Carries q lost) (hsem : ¬ e.sem ≤ 0) :
    ∃ k b pkt q', e.count = k + 1 ∧ q = (b, pkt) :: q' ∧ e.buffer e.index = some b ∧
      e.pktlen e.index = pkt.length ∧ Ring.window e.cell ELOOP_NBUF ((e.index + 1) % ELOOP_NBUF) k =
        q'.map fun x => (some x.1, x.2.length) := by
  obtain ⟨k, hk⟩ : ∃ k, e.count = k + 1 := ⟨e.count - 1, by have := h.sem; omega⟩
  have hring := h.ring
  rw [hk, Ring.window_pop e.cell h.index_lt] at hring
  rcases q with _ | ⟨⟨b, pkt⟩, q⟩
  · simp at hring
  obtain ⟨hfirst, hrest⟩ := cons.inj hring
  obtain ⟨hbuf, hlen⟩ := Prod.mk.inj hfirst
  exact ⟨k, b, pkt, q, hk, rfl, hbuf, hlen, hrest⟩

/-- **What `ethloopRead` does**, if it returns: it takes the first packet of the ring. -/
theorem Carries.read (h : e.Carries q lost) {len : Nat} {r : Ethloop × Int × List UInt8}
    (hr : e.ethloopRead len = some r) :
    ∃ b pkt q', q = (b, pkt) :: q' ∧ r.1.Carries q' lost ∧ r.1.irq = e.irq ∧
      r.2 = (((min len pkt.length : Nat) : Int), pkt.take len) := by
  unfold ethloopRead at hr
  rw [if_neg (not_not.mpr h.alloc)] at hr
  split at hr
  · simp at hr
  rename_i hsem
  -- the semaphore counts the packets of the ring, so there is one
  obtain ⟨k, b, pkt, q, hk, rfl, hbuf, hpkt, hrest⟩ := h.first hsem
  simp only [hbuf] at hr
  cases hr
  have hb : b ∉ e.freebuf := by
    intro hmem
    have hnd := h.nodup
    rw [nodup_append] at hnd
    exact hnd.2.2 b hmem b (by simp) rfl
  refine ⟨b, pkt, q, rfl, ?_, ?_, ?_⟩
  · simp only [buffree, if_neg hb]
    exact
      { alloc := h.alloc
        pool := h.pool
        index_lt := Nat.mod_lt _ (by decide)
        sem := by
          simp only [h.sem]
          omega
        ring := by
          simp only [hk]
          refine (Ring.window_congr fun i hi => ?_).trans hrest
          -- the cell that is cleared is the one before the window
          have hcount := h.total
          have hne : Ring.slot ELOOP_NBUF ((e.index + 1) % ELOOP_NBUF) i ≠ e.index := by
            rw [Ring.slot, Nat.mod_add_mod, add_assoc]
            have hslot := Ring.slot_ne (n := ELOOP_NBUF) (p := e.index) (i := 0) (j := 1 + i)
              (by omega) (by omega)
            rw [Ring.slot, Ring.slot, add_zero, Nat.mod_eq_of_lt h.index_lt] at hslot
            exact hslot.symm
          simp only [cell, store, if_neg hne]
        octets := fun x hx => h.octets x (mem_cons_of_mem _ hx)
        buffers := by
          refine (perm_iff_count.mpr fun x => ?_).trans h.buffers
          simp only [map_cons, cons_append, count_append, count_cons]
          omega }
  · simp only [buffree, if_neg hb]
  · have hoct := h.octets _ mem_cons_self
    have hmin : (if len < pkt.length then len else pkt.length) = min len pkt.length := by
      split <;> omega
    simp only [hpkt, hmin, Prod.mk.injEq, true_and]
    rw [← take_take, hoct]

end Read

/-! ## Whole histories -/

/-- The readers have got the first of the packets sent, each truncated to the length given, and the
ring has the others. -/
structure Ledger.Sound (b : Ledger) (q : List (Nat × List UInt8)) (lost : List Nat) : Prop where
  carries : b.dev.Carries q lost
  dropped : lost.length = b.dropped
  rest : b.sent.drop b.got.length = q.map Prod.snd
  short : b.got.length ≤ b.sent.length
  receipts : ∀ (k : Nat) (g : Receipt), b.got[k]? = some g → ∃ pkt, b.sent[k]? = some pkt ∧ g.Of pkt

namespace Ledger.Sound

variable {b b' : Ledger}

theorem write (h : b.Sound q lost) {pkt : List UInt8} (hb : b.call (.write pkt) = some b') :
    b'.dev.irq = b.dev.irq ∧ ∃ q lost, b'.Sound q lost := by
  obtain ⟨r, hr, rfl⟩ := Option.map_eq_some_iff.mp hb
  have hok : ∀ n : Nat, (n : Int) ≠ SYSERR := fun n hn => by
    have : (n : Int) = -1 := hn
    omega
  cases h.carries.write hr with
  | refused =>
    exact ⟨rfl, q, lost, { h with }⟩
  | dropped hd hc hirq =>
    rw [if_neg (hok _), if_pos hd]
    exact ⟨hirq, q, _, { h with carries := hc, dropped := congrArg (· + 1) h.dropped }⟩
  | held hd hh hc hirq =>
    rw [if_neg (hok _), if_neg hd, if_pos hh]
    exact ⟨hirq, q, lost, { h with carries := hc }⟩
  | queued hd hh hc hirq =>
    rw [if_neg (hok _), if_neg hd, if_neg hh]
    refine ⟨hirq, _, lost, { h with carries := hc, rest := ?_, short := ?_, receipts := ?_ }⟩
    · rw [drop_append_of_le_length h.short, h.rest, map_append]
      rfl
    · exact h.short.trans (by simp)
    · intro k g hk
      obtain ⟨p, hp, hg⟩ := h.receipts k g hk
      exact ⟨p, by rw [List.getElem?_append_left (List.getElem?_eq_some_iff.mp hp).1, hp], hg⟩

theorem read (h : b.Sound q lost) {len : Nat} (hb : b.call (.read len) = some b') :
    b'.dev.irq = b.dev.irq ∧ ∃ q lost, b'.Sound q lost := by
  obtain ⟨r, hr, rfl⟩ := Option.map_eq_some_iff.mp hb
  obtain ⟨x, pkt, q', rfl, hc, hirq, hres⟩ := h.carries.read hr
  -- the packet at the front of the ring is the first that no reader has got yet
  have hnext : b.sent[b.got.length]? = some pkt := by
    have := congrArg List.head? h.rest
    rwa [List.head?_drop] at this
  have hlt := (List.getElem?_eq_some_iff.mp hnext).1
  refine ⟨hirq, q', lost, hc, h.dropped, ?_, ?_, ?_⟩
  · have := congrArg List.tail h.rest
    simpa using this
  · simp only [length_append, length_singleton]
    omega
  · intro k g hk
    rcases lt_or_ge k b.got.length with hlt | hge
    · rw [List.getElem?_append_left hlt] at hk
      exact h.receipts k g hk
    · rw [List.getElem?_append_right hge, List.getElem?_singleton] at hk
      split at hk
      · rename_i hzero
        cases hk
        obtain rfl : k = b.got.length := by omega
        refine ⟨pkt, hnext, ?_, ?_⟩
        · rw [hres]
        · rw [hres]
      · simp at hk

/-- **A call keeps the ledger**, and restores the interrupt mask. -/
theorem call (h : b.Sound q lost) {c : Call} (hb : b.call c = some b') :
    b'.dev.irq = b.dev.irq ∧ ∃ q lost, b'.Sound q lost := by
  cases c with
  | write pkt => exact h.write hb
  | read len => exact h.read hb
  | setFlags arg =>
    cases hb
    rw [setFlags, if_neg (not_not.mpr h.carries.alloc)]
    exact ⟨rfl, q, lost, { h with carries := h.carries.of_eq }⟩
  | clrFlags arg =>
    cases hb
    rw [clrFlags, if_neg (not_not.mpr h.carries.alloc)]
    exact ⟨rfl, q, lost, { h with carries := h.carries.of_eq }⟩

end Ledger.Sound

/-- **When a call returns.** -/
theorem Ledger.Sound.returns_iff {b : Ledger} (h : b.Sound q lost) (c : Call) :
    (b.call c).isSome ↔ b.Returns c := by
  have hcarries := h.carries
  have htotal := hcarries.total
  rw [h.dropped] at htotal
  cases c with
  | write pkt =>
    simp only [Ledger.call, Option.isSome_map, Ledger.Returns, ethloopWrite]
    rw [if_neg (not_not.mpr hcarries.alloc), bufget, if_neg (not_lt.mpr hcarries.pool)]
    split_ifs with hlen
    · simp only [Option.isSome_some, true_iff]
      omega
    · cases hfree : b.dev.freebuf with
      | nil =>
        rw [hfree, length_nil] at htotal
        simp only [Option.isSome_none, Bool.false_eq_true, false_iff]
        omega
      | cons x rest =>
        rw [hfree, length_cons] at htotal
        simp only [Option.isSome_some, true_iff]
        omega
  | read len =>
    simp only [Ledger.call, Option.isSome_map, Ledger.Returns, ethloopRead]
    rw [if_neg (not_not.mpr hcarries.alloc)]
    by_cases hsem : b.dev.sem ≤ 0
    · rw [if_pos hsem]
      rw [hcarries.sem] at hsem
      simp only [Option.isSome_none, Bool.false_eq_true, false_iff]
      omega
    · obtain ⟨k, x, -, -, hk, -, hx, -⟩ := hcarries.first hsem
      simp only [if_neg hsem, hx, Option.isSome_some, true_iff]
      omega
  | setFlags arg => exact iff_of_true rfl trivial
  | clrFlags arg => exact iff_of_true rfl trivial

/-- A device that has been opened has all its buffers in the pool. -/
theorem carries_of_open {e d : Ethloop} {sem hsem : Int} {pool : Option Nat}
    {data : Nat → List UInt8} (h : e.ethloopOpen sem hsem pool data = (d, OK)) :
    d.Carries [] [] := by
  have hne : SYSERR ≠ OK := by decide
  unfold ethloopOpen at h
  split at h
  · exact absurd (Prod.mk.inj h).2 hne
  split at h
  · exact absurd (Prod.mk.inj h).2 hne
  split at h
  · exact absurd (Prod.mk.inj h).2 hne
  · obtain ⟨rfl, _⟩ := Prod.mk.inj h
    exact
      { alloc := rfl
        pool := Int.natCast_nonneg _
        index_lt := Nat.zero_lt_succ _
        sem := rfl
        ring := rfl
        octets := by simp
        buffers := by simp }

/-- The ledger of an open device is sound after any calls. -/
theorem sound_of_run {d : Ethloop} (hd : d.Carries [] []) {calls : List Call} {b : Ledger}
    (r : loopMachine.Run { dev := d } calls b) : ∃ q lost, b.Sound q lost := by
  refine r.invariant (I := fun b => ∃ q lost, b.Sound q lost) ?_ ⟨[], [], ?_⟩
  · rintro b c ⟨q, lost, h⟩ hc
    obtain ⟨b', hb'⟩ := Option.isSome_iff_exists.mp hc
    have hnext : loopMachine.next b c = b' := by
      change (b.call c).getD b = b'
      rw [hb']
      rfl
    rw [hnext]
    exact (h.call hb').2
  · exact { carries := hd, dropped := rfl, rest := rfl, short := le_rfl, receipts := by simp }

/-- **The loopback device accounts for its buffers if and only if it has dropped no packet.**
Packets that are neither held nor dropped are read back in the order in which they were written,
truncated to the reader's length. A call returns exactly if there is a buffer for its packet or a
packet for its reader, with the interrupt mask of its caller. -/
theorem ethloop_accounts {e d : Ethloop} {sem hsem : Int} {pool : Option Nat}
    {data : Nat → List UInt8} (hopen : e.ethloopOpen sem hsem pool data = (d, OK))
    {calls : List Call} {b : Ledger} (r : loopMachine.Run { dev := d } calls b) :
    (b.dev.outstanding = b.dev.count + b.dev.held ↔ b.dropped = 0) ∧
    (b.sent.length = b.got.length + b.dev.count ∧
      ∀ (k : Nat) (g : Receipt), b.got[k]? = some g → ∃ pkt, b.sent[k]? = some pkt ∧ g.Of pkt) ∧
    ∀ c, ((b.call c).isSome ↔ b.Returns c) ∧ ∀ b', b.call c = some b' → b'.dev.irq = b.dev.irq := by
  obtain ⟨q, lost, h⟩ := sound_of_run (carries_of_open hopen) r
  refine ⟨?_, ⟨?_, h.receipts⟩, fun c => ⟨h.returns_iff c, fun b' hb => (h.call hb).1⟩⟩
  · rw [h.carries.outstanding_eq, h.dropped]
    omega
  · have hlen := congrArg length h.rest
    rw [length_drop, length_map, ← h.carries.count_eq] at hlen
    have := h.short
    omega

/-! ## Runs -/

/-- A new device. -/
def fresh : Ethloop := (ethloopOpen {} 1 2 (some 0) fun _ => []).1

theorem fresh_open : ethloopOpen {} 1 2 (some 0) (fun _ => []) = (fresh, OK) := rfl

/-- Packets of the least length, told apart by their last octet. -/
def frame (x : UInt8) : List UInt8 := List.replicate 13 0 ++ [x]

/-- One packet is queued, the next is held, and the third is read behind the first. -/
def heldBetween : List Call :=
  [.write (frame 1), .setFlags ELOOP_FLAG_HOLDNXT, .write (frame 2), .write (frame 3), .read 1500,
    .read 14]

/-- The account of that history, after which one packet is still held and a write returns. -/
theorem ethloop_accounts_held_between :
    (loopMachine.after { dev := fresh } heldBetween).dev.outstanding =
        (loopMachine.after { dev := fresh } heldBetween).dev.count +
          (loopMachine.after { dev := fresh } heldBetween).dev.held ∧
      ((loopMachine.after { dev := fresh } heldBetween).call (.write (frame 4))).isSome := by
  have h := ethloop_accounts fresh_open (Machine.run_after (l := heldBetween))
  exact ⟨h.1.mpr (by decide), (h.2.2 _).1.mpr fun _ _ => by decide⟩

/-- The next packet is dropped. -/
def dropOne : List Call := [.setFlags ELOOP_FLAG_DROPNXT, .write (frame 1)]

/-- A buffer is outstanding with no packet in the ring and none held. -/
theorem dropped_packet_leaks_its_buffer :
    ∃ b, loopMachine.Run { dev := fresh } dropOne b ∧ b.dev.count = 0 ∧ b.dev.hold = none ∧
      b.dev.outstanding = 1 := by
  refine ⟨_, Machine.run_after, ?_, ?_, ?_⟩
  · decide
  · decide
  · decide

/-- All packets are dropped, as many as there are buffers. -/
def dropAll : List Call :=
  .setFlags ELOOP_FLAG_DROPALL :: List.replicate ELOOP_NBUF (.write (frame 1))

/-- Then no write returns any more, though the ring is empty. -/
example : ((loopMachine.after { dev := fresh } dropAll).dev.ethloopWrite (frame 1)).isNone := by
  decide +kernel

end Ethloop

end Xinu
