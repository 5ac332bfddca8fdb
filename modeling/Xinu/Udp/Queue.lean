import Mathlib.Data.List.Perm.Basic
import Mathlib.Data.List.Range
import Xinu.Foundations.Ring
import Xinu.Kernel.State

/-!
# The receive queue of a UDP device

`udpRecv` copies a datagram to a buffer of the device's pool and puts it in a ring; `udpRead` takes
it out, copies it to its caller and gives the buffer back. Network threads may be suspended where
they wait for a buffer and before they signal a new datagram, readers where they wait for one, and
anywhere between the sections that run with interrupts disabled. A semaphore is the number of its
permits: a wait is a step that can be made when there is one.

The ring has as many cells as the pool has buffers, so whoever has a buffer has a cell for it. But
the length in the header of a datagram is copied without being compared with the size of a buffer.

## Main results

* `UdpQueue.Sound.act`: a thread that goes on keeps account of the buffers
* `udp_queue_is_fifo`: what has been accepted is what has been removed and what is in the ring
-/

namespace Xinu

open List

/-! ## The device -/

def UDP_MAX_PKTS : Nat := 100
def UDP_HDR_LEN : Nat := 8
def NET_MAX_PKTLEN : Nat := 1598

/-- The size of a buffer of the pool: `roundword(NET_MAX_PKTLEN)`, and with its `struct poolbuf`. -/
def UDP_BUFSIZE : Nat := 1600
def UDP_POOLBUF : Nat := UDP_BUFSIZE + 8

/-- The memory from the UDP header of a packet on, in host order. -/
abbrev UdpMemory := Nat → UInt8

/-- The field `len` of the UDP header at an address. -/
def udpLen (m : UdpMemory) (addr : Nat) : Nat := (m (addr + 4)).toNat + 256 * (m (addr + 5)).toNat

/-- The octets from an address on. -/
def octetsFrom (m : UdpMemory) (addr n : Nat) : List UInt8 :=
  (List.range n).map fun i => m (addr + i)

/-- The datagram at an address. -/
def datagramAt (m : UdpMemory) (addr : Nat) : List UInt8 := octetsFrom m addr (udpLen m addr)

/-- The queue of a device: the ring of buffers, the permits of `isem`, and the pool with the permits
of its semaphore, its free buffers in the order of their chain, and its memory. -/
structure Udp where
  ring : Nat → Option Nat := fun _ => none
  icount : Nat := 0
  istart : Nat := 0
  isem : Nat := 0
  /-- the flag `UDP_FLAG_INCHDR` -/
  inchdr : Bool := false
  freebuf : Nat := UDP_MAX_PKTS
  chain : List Nat := List.range UDP_MAX_PKTS
  mem : UdpMemory := fun _ => 0

namespace Udp

/-- The address of a buffer, behind its `struct poolbuf`. -/
def data (b : Nat) : Nat := UDP_POOLBUF * b + 8

/-- `bzero` of a buffer in `udpGetbuf`, and `memcpy` of the datagram. -/
def fill (m : UdpMemory) (b : Nat) (pkt : UdpMemory) : UdpMemory := fun a =>
  if data b ≤ a ∧ a < data b + udpLen pkt 0 then pkt (a - data b)
  else if data b ≤ a ∧ a < data b + NET_MAX_PKTLEN then 0
  else m a

/-- Where a thread is. -/
inductive Place
  /-- in `udpRecv`, at the wait of `bufget` -/
  | recvBuf (pkt : UdpMemory)
  /-- in `udpRecv`, before it signals -/
  | recvSignal
  /-- in `udpRead`, at its wait -/
  | readWait (len : Nat)
  /-- in `udpRead`, behind its wait -/
  | readTake (len : Nat)
  /-- in `udpRead`, with a buffer to copy from: where, how many octets, for how large a buffer;
  and the number of the datagram among those that are removed -/
  | readCopy (b offset : Nat) (count : Int) (len : Nat) (number : Nat)
  /-- in `udpRead`, before `buffree` -/
  | readFree (b : Nat)
  /-- in `buffree`, before it signals -/
  | freeSignal

/-- What `udpRead` copies to its caller. The comparison with the size of the caller's buffer is one
of unsigned numbers. -/
def copied (u : Udp) (b offset : Nat) (count : Int) (len : Nat) : List UInt8 :=
  octetsFrom u.mem (data b + offset)
    (if len < (count % 2 ^ 32).toNat then len else (count % 2 ^ 32).toNat)

end Udp

/-- The device with the threads in its functions, the datagrams that `udpRecv` has accepted, and
those that `udpRead` has taken out of the ring. -/
structure UdpQueue where
  dev : Udp := {}
  threads : List Udp.Place := []
  accepted : List (List UInt8) := []
  removed : List (List UInt8) := []

namespace UdpQueue

open Udp

/-- What can happen: `udpRecv` is called with a datagram for this device, `udpRead` is called, a
thread goes on. -/
inductive Step
  | recv (pkt : UdpMemory)
  | read (len : Nat)
  | go (k : Nat)

/-- The rest of `udpRecv` up to its signal: the datagram is put in the ring. -/
def insert (s : UdpQueue) (pkt : UdpMemory) : Option (UdpQueue × Option Place) :=
  match s.dev.chain with
  | [] => none
  | b :: rest =>
    if s.dev.freebuf = 0 then none
    else
      some ({ s with
        dev := { s.dev with
          freebuf := s.dev.freebuf - 1
          chain := rest
          mem := fill s.dev.mem b pkt
          ring := store s.dev.ring (Ring.slot UDP_MAX_PKTS s.dev.istart s.dev.icount) (some b)
          icount := s.dev.icount + 1 }
        accepted := s.accepted ++ [datagramAt pkt 0] }, some .recvSignal)

/-- The section of `udpRead` behind its wait: the first packet is taken out of the ring. -/
def remove (s : UdpQueue) (len : Nat) : UdpQueue × Option Place :=
  match s.dev.ring s.dev.istart with
  | none => (s, none)
  | some b =>
    let n := udpLen s.dev.mem (data b)
    ({ s with
      dev := { s.dev with
        istart := (s.dev.istart + 1) % UDP_MAX_PKTS
        icount := s.dev.icount - 1 }
      removed := s.removed ++ [datagramAt s.dev.mem (data b)] },
      some (if s.dev.inchdr then .readCopy b 0 n len s.removed.length
        else .readCopy b UDP_HDR_LEN ((n : Int) - UDP_HDR_LEN) len s.removed.length))

/-- A thread goes on to its next place, or returns; `none` if it has to wait. The buffers of the
pool are told apart by number: `buffree` finds the header in front of each as `bufget` has left it.
A datagram longer than a buffer overwrites the header of the next one, and `buffree` then refuses
that buffer, which is not in the model. -/
def act (s : UdpQueue) : Place → Option (UdpQueue × Option Place)
  | .recvBuf pkt => s.insert pkt
  | .recvSignal => some ({ s with dev := { s.dev with isem := s.dev.isem + 1 } }, none)
  | .readWait len =>
    if s.dev.isem = 0 then none
    else some ({ s with dev := { s.dev with isem := s.dev.isem - 1 } }, some (.readTake len))
  | .readTake len => some (s.remove len)
  | .readCopy b _ _ _ _ => some (s, some (.readFree b))
  | .readFree b =>
    some ({ s with dev := { s.dev with chain := b :: s.dev.chain } }, some .freeSignal)
  | .freeSignal => some ({ s with dev := { s.dev with freebuf := s.dev.freebuf + 1 } }, none)

/-- One step. -/
def step (s : UdpQueue) : Step → Option UdpQueue
  | .recv pkt =>
    -- the packet is dropped if the ring is full
    if UDP_MAX_PKTS ≤ s.dev.icount then some s
    else some { s with threads := s.threads ++ [.recvBuf pkt] }
  | .read len => some { s with threads := s.threads ++ [.readWait len] }
  | .go k =>
    match s.threads[k]? with
    | none => none
    | some p =>
      (s.act p).map fun r =>
        { r.1 with threads := s.threads.take k ++ r.2.toList ++ s.threads.drop (k + 1) }

/-- A datagram has a header and fits a buffer. -/
def Fitting : Step → Prop
  | .recv pkt => UDP_HDR_LEN ≤ udpLen pkt 0 ∧ udpLen pkt 0 ≤ UDP_BUFSIZE
  | _ => True

instance : ∀ x : Step, Decidable (Fitting x) := by
  rintro ⟨⟩ <;> unfold Fitting <;> infer_instance

/-- The datagrams in the ring, as they stand in their buffers. -/
def queued (s : UdpQueue) : List (List UInt8) :=
  (Ring.window s.dev.ring UDP_MAX_PKTS s.dev.istart s.dev.icount).map fun b =>
    datagramAt s.dev.mem (data (b.getD 0))

end UdpQueue

/-- A device that has been opened, with any number of threads. -/
def udpMachine : Machine UdpQueue UdpQueue.Step where
  enabled s x := (s.step x).isSome
  next s x := (s.step x).getD s

instance (s : UdpQueue) (x : UdpQueue.Step) : Decidable (udpMachine.enabled s x) :=
  inferInstanceAs (Decidable ((s.step x).isSome = true))

/-- The device if all datagrams fit. -/
def fittingMachine : Machine UdpQueue UdpQueue.Step :=
  udpMachine.restrict fun _ x => UdpQueue.Fitting x

instance (s : UdpQueue) (x : UdpQueue.Step) : Decidable (fittingMachine.enabled s x) :=
  inferInstanceAs (Decidable ((s.step x).isSome = true ∧ UdpQueue.Fitting x))

/-! ## The memory of the pool -/

namespace Udp

/-- The buffer holds the datagram, which has a header and fits. -/
structure Stores (m : UdpMemory) (b : Nat) (d : List UInt8) : Prop where
  datagram : datagramAt m (data b) = d
  header : UDP_HDR_LEN ≤ udpLen m (data b)
  fits : udpLen m (data b) ≤ UDP_BUFSIZE

theorem Stores.congr {m m' : UdpMemory} {b : Nat} {d : List UInt8} (h : Stores m b d)
    (heq : ∀ a, data b ≤ a → a < data b + UDP_BUFSIZE → m' a = m a) : Stores m' b d := by
  have hlen : udpLen m' (data b) = udpLen m (data b) := by
    unfold udpLen
    rw [heq _ (by omega) (by unfold UDP_BUFSIZE; omega),
      heq _ (by omega) (by unfold UDP_BUFSIZE; omega)]
  refine ⟨?_, hlen ▸ h.header, hlen ▸ h.fits⟩
  rw [← h.datagram, datagramAt, datagramAt, hlen]
  have hfits := h.fits
  refine map_congr_left ?_
  intro i hi
  rw [mem_range] at hi
  exact heq _ (by omega) (by omega)

theorem stores_fill (m : UdpMemory) (b : Nat) {pkt : UdpMemory}
    (hheader : UDP_HDR_LEN ≤ udpLen pkt 0) (hfits : udpLen pkt 0 ≤ UDP_BUFSIZE) :
    Stores (fill m b pkt) b (datagramAt pkt 0) := by
  have hin : ∀ i, i < udpLen pkt 0 → fill m b pkt (data b + i) = pkt i := by
    intro i hi
    unfold fill
    rw [if_pos (by omega), Nat.add_sub_cancel_left]
  have hlen : udpLen (fill m b pkt) (data b) = udpLen pkt 0 := by
    unfold UDP_HDR_LEN at hheader
    conv_lhs => unfold udpLen
    rw [hin 4 (by omega), hin 5 (by omega)]
    rfl
  refine ⟨?_, hlen ▸ hheader, hlen ▸ hfits⟩
  rw [datagramAt, datagramAt, hlen]
  refine map_congr_left ?_
  intro i hi
  rw [mem_range] at hi
  rw [hin i hi, zero_add]

theorem fill_other {m : UdpMemory} {b c : Nat} {pkt : UdpMemory} (hne : c ≠ b)
    (hfits : udpLen pkt 0 ≤ UDP_BUFSIZE) :
    ∀ a, data c ≤ a → a < data c + UDP_BUFSIZE → fill m b pkt a = m a := by
  intro a hlo hhi
  have hout : ∀ n, n ≤ UDP_BUFSIZE → ¬ (data b ≤ a ∧ a < data b + n) := by
    intro n hn
    unfold data UDP_POOLBUF UDP_BUFSIZE at *
    omega
  unfold fill
  rw [if_neg (hout _ hfits), if_neg (hout _ (by decide))]

/-- The buffer a thread has. -/
def Place.held : Place → List Nat
  | .readCopy b _ _ _ _ | .readFree b => [b]
  | _ => []

/-- The thread has taken a permit of `isem`, or will add one. -/
def Place.owesItem : Place → Bool
  | .recvSignal | .readTake _ => true
  | _ => false

/-- The thread has put a buffer back, and will add a permit of the pool. -/
def Place.owesBuf : Place → Bool
  | .freeSignal => true
  | _ => false

/-- A reader with a buffer is about to copy the datagram it has removed, with its header or
without, and a datagram that waits for a buffer fits one. -/
def Place.Ready (m : UdpMemory) (removed : List (List UInt8)) : Place → Prop
  | .readCopy b offset count _ number => ∃ d, removed[number]? = some d ∧ Stores m b d ∧
      ((offset = 0 ∧ count = d.length) ∨
        (offset = UDP_HDR_LEN ∧ count = (d.length : Int) - UDP_HDR_LEN))
  | .recvBuf pkt => UDP_HDR_LEN ≤ udpLen pkt 0 ∧ udpLen pkt 0 ≤ UDP_BUFSIZE
  | _ => True

/-- Other threads may fill other buffers and remove other datagrams. -/
theorem Place.Ready.mono {m m' : UdpMemory} {removed more : List (List UInt8)} {p : Place}
    (h : p.Ready m removed)
    (heq : ∀ b ∈ p.held, ∀ a, data b ≤ a → a < data b + UDP_BUFSIZE → m' a = m a) :
    p.Ready m' (removed ++ more) := by
  cases p with
  | readCopy b offset count len number =>
    obtain ⟨d, hd, hstores, hwhat⟩ := h
    refine ⟨d, ?_, hstores.congr (heq b mem_cons_self), hwhat⟩
    exact List.getElem?_append_left (List.getElem?_eq_some_iff.mp hd).1 ▸ hd
  | recvBuf pkt => exact h
  | _ => trivial

theorem length_datagramAt (m : UdpMemory) (addr : Nat) :
    (datagramAt m addr).length = udpLen m addr := by
  rw [datagramAt, octetsFrom, length_map, length_range]

theorem octetsFrom_take (m : UdpMemory) (addr n k : Nat) :
    octetsFrom m addr (if k < n then k else n) = (octetsFrom m addr n).take k := by
  unfold octetsFrom
  rw [← map_take, take_range]
  split
  · rw [min_eq_left (by omega)]
  · rw [min_eq_right (by omega)]

theorem octetsFrom_drop (m : UdpMemory) (addr n k : Nat) :
    octetsFrom m (addr + k) (n - k) = (octetsFrom m addr n).drop k := by
  refine ext_getElem (by simp [octetsFrom]) ?_
  intro i _ _
  simp [octetsFrom, add_assoc]

/-- What a reader copies: as much of the datagram as its caller has room for. -/
theorem Stores.copied {u : Udp} {b offset len : Nat} {count : Int} {d : List UInt8}
    (h : Stores u.mem b d) (hwhat : (offset = 0 ∧ count = d.length) ∨
      (offset = UDP_HDR_LEN ∧ count = (d.length : Int) - UDP_HDR_LEN)) :
    (offset = 0 ∨ offset = UDP_HDR_LEN) ∧
      u.copied b offset count len = (d.drop offset).take len := by
  have hheader := h.header
  have hfits := h.fits
  have hlen : d.length = udpLen u.mem (data b) := by rw [← h.datagram, length_datagramAt]
  unfold UDP_HDR_LEN UDP_BUFSIZE at *
  unfold Udp.copied
  rcases hwhat with ⟨rfl, rfl⟩ | ⟨rfl, rfl⟩
  · refine ⟨.inl rfl, ?_⟩
    have hcount : ((d.length : Int) % 2 ^ 32).toNat = udpLen u.mem (data b) := by omega
    rw [hcount, octetsFrom_take, add_zero, ← h.datagram]
    rfl
  · refine ⟨.inr rfl, ?_⟩
    have hcount : (((d.length : Int) - (8 : Nat)) % 2 ^ 32).toNat = udpLen u.mem (data b) - 8 := by
      omega
    rw [hcount, octetsFrom_take, octetsFrom_drop, ← h.datagram]
    rfl

end Udp

/-! ## The invariant -/

namespace UdpQueue

open Udp

/-- The buffers the threads have, and the permits they owe. -/
def heldBy (l : List Place) : List Nat := l.flatMap Place.held
def owedItems (l : List Place) : Nat := l.countP Place.owesItem
def owedBufs (l : List Place) : Nat := l.countP Place.owesBuf

/-- **The queue `q`** of buffers with their datagrams: every buffer is in the chain, in the queue or
with one thread, and every permit is there or owed by a thread. -/
structure Sound (s : UdpQueue) (q : List (Nat × List UInt8)) : Prop where
  window : Ring.window s.dev.ring UDP_MAX_PKTS s.dev.istart s.dev.icount =
    q.map fun x => some x.1
  istart_lt : s.dev.istart < UDP_MAX_PKTS
  buffers : (s.dev.chain ++ q.map Prod.fst ++ heldBy s.threads).Perm (List.range UDP_MAX_PKTS)
  bufs : s.dev.freebuf + owedBufs s.threads = s.dev.chain.length
  items : s.dev.isem + owedItems s.threads = s.dev.icount
  stored : ∀ x ∈ q, Stores s.dev.mem x.1 x.2
  ready : ∀ p ∈ s.threads, p.Ready s.dev.mem s.removed
  ledger : s.accepted = s.removed ++ q.map Prod.snd

namespace Sound

variable {s s' : UdpQueue} {q : List (Nat × List UInt8)} {p : Place} {r : Option Place}
  {pre post : List Place}

theorem icount_eq (h : s.Sound q) : s.dev.icount = q.length := by
  have := congrArg length h.window
  rwa [Ring.length_window, length_map] at this

theorem total (h : s.Sound q) :
    s.dev.chain.length + q.length + (heldBy s.threads).length = UDP_MAX_PKTS := by
  have := h.buffers.length_eq
  rwa [length_append, length_append, length_map, length_range] at this

theorem nodup (h : s.Sound q) : (s.dev.chain ++ q.map Prod.fst ++ heldBy s.threads).Nodup :=
  h.buffers.nodup_iff.mpr nodup_range

@[simp] theorem heldBy_append (l k : List Place) : heldBy (l ++ k) = heldBy l ++ heldBy k :=
  flatMap_append

@[simp] theorem owedItems_append (l k : List Place) :
    owedItems (l ++ k) = owedItems l + owedItems k := countP_append

@[simp] theorem owedBufs_append (l k : List Place) :
    owedBufs (l ++ k) = owedBufs l + owedBufs k := countP_append

section

variable (h : s.Sound q)
include h

/-- A datagram is put in the ring. There is a buffer for it, so there is a cell. -/
theorem insert {pkt : UdpMemory} (hs : s.threads = pre ++ .recvBuf pkt :: post)
    (hact : s.insert pkt = some (s', r)) :
    ∃ q', ({ s' with threads := pre ++ r.toList ++ post } : UdpQueue).Sound q' := by
  unfold UdpQueue.insert at hact
  rcases hchain : s.dev.chain with _ | ⟨b, rest⟩
  · simp [hchain] at hact
  rw [hchain] at hact
  dsimp only at hact
  split at hact
  · simp at hact
  rename_i hfree
  cases hact
  have hicount := h.icount_eq
  have htotal := h.total
  have hnodup := h.nodup
  obtain ⟨hheader, hfits⟩ := h.ready (.recvBuf pkt) (by simp [hs])
  have hbufs := h.bufs
  have hitems := h.items
  have hperm := h.buffers
  rw [hchain] at htotal hbufs hnodup hperm
  simp only [length_cons] at htotal hbufs
  -- nobody else has the buffer
  have hb : b ∉ q.map Prod.fst ∧ b ∉ heldBy s.threads := by
    rw [cons_append, cons_append, nodup_cons, mem_append, mem_append]
      at hnodup
    tauto
  have hothers : ∀ c, c ∈ q.map Prod.fst ∨ c ∈ heldBy s.threads → c ≠ b := by
    rintro c hc rfl
    tauto
  refine ⟨q ++ [(b, datagramAt pkt 0)], ?_⟩
  exact
    { window := by
        rw [store_eq_update, Ring.window_push _ _ (by omega), h.window, map_append]
        rfl
      istart_lt := h.istart_lt
      buffers := by
        rw [hs] at hperm
        refine (perm_iff_count.mpr fun x => ?_).trans hperm
        simp [heldBy, Place.held, count_cons]
        omega
      bufs := by
        rw [hs] at hbufs
        simp [owedBufs, Place.owesBuf] at hbufs ⊢
        omega
      items := by
        rw [hs] at hitems
        simp [owedItems, Place.owesItem, countP_cons] at hitems ⊢
        omega
      stored := by
        intro x hx
        rcases mem_append.mp hx with hx | hx
        · exact (h.stored x hx).congr
            (fill_other (hothers x.1 (.inl (mem_map_of_mem hx))) hfits)
        · obtain rfl := mem_singleton.mp hx
          exact stores_fill s.dev.mem b hheader hfits
      ready := by
        intro p hp
        have hold : p ∈ s.threads → p.Ready (fill s.dev.mem b pkt) s.removed := by
          intro hmem
          have hmono : p.Ready (fill s.dev.mem b pkt) (s.removed ++ []) := by
            refine (h.ready p hmem).mono ?_
            intro c hc
            exact fill_other (hothers c (.inr (mem_flatMap.mpr ⟨p, hmem, hc⟩))) hfits
          rwa [append_nil] at hmono
        simp only [Option.toList_some, mem_append, mem_singleton] at hp
        rcases hp with (hp | rfl) | hp
        · exact hold (by simp [hs, hp])
        · trivial
        · exact hold (by simp [hs, hp])
      ledger := by
        rw [h.ledger, map_append, append_assoc]
        rfl }

/-- The first datagram is taken out of the ring. There is one, since the thread has a permit. -/
theorem remove {len : Nat} (hs : s.threads = pre ++ .readTake len :: post)
    (hact : s.remove len = (s', r)) :
    ∃ q', ({ s' with threads := pre ++ r.toList ++ post } : UdpQueue).Sound q' := by
  have hicount := h.icount_eq
  have hitems := h.items
  have hbufs := h.bufs
  have hperm := h.buffers
  have hs' : s.threads = pre ++ [.readTake len] ++ post := by
    rw [hs, append_assoc]
    rfl
  -- the thread has no buffer, and has taken a permit
  have hold : heldBy [Place.readTake len] = [] ∧ owedItems [Place.readTake len] = 1 ∧
      owedBufs [Place.readTake len] = 0 := ⟨rfl, rfl, rfl⟩
  rw [hs'] at hitems hbufs hperm
  simp only [owedItems_append, owedBufs_append, heldBy_append, hold] at hitems hbufs hperm
  obtain ⟨⟨b, d⟩, q, rfl⟩ : ∃ x k, q = x :: k := by
    cases q with
    | nil =>
      rw [length_nil] at hicount
      omega
    | cons x k => exact ⟨x, k, rfl⟩
  rw [length_cons] at hicount
  have hwindow := h.window
  rw [hicount, Ring.window_pop _ h.istart_lt, map_cons] at hwindow
  obtain ⟨hfirst, hrest⟩ := cons.inj hwindow
  have hstores : Stores s.dev.mem b d := h.stored (b, d) mem_cons_self
  have hlen : d.length = udpLen s.dev.mem (data b) := by
    rw [← hstores.datagram, length_datagramAt]
  unfold UdpQueue.remove at hact
  rw [hfirst] at hact
  obtain ⟨rfl, hr⟩ := Prod.mk.inj hact
  -- where the reader is now
  obtain ⟨place, rfl, hheld, hready⟩ : ∃ place, r = some place ∧
      (heldBy [place] = [b] ∧ owedItems [place] = 0 ∧ owedBufs [place] = 0) ∧
      place.Ready s.dev.mem (s.removed ++ [d]) := by
    have hnumber : (s.removed ++ [d])[s.removed.length]? = some d := by simp
    refine ⟨_, hr.symm, ?_, ?_⟩
    · split <;> exact ⟨rfl, rfl, rfl⟩
    · split
      · exact ⟨d, hnumber, hstores, .inl ⟨rfl, by rw [hlen]⟩⟩
      · exact ⟨d, hnumber, hstores, .inr ⟨rfl, by rw [hlen]⟩⟩
  refine ⟨q, ?_⟩
  exact
    { window := by
        rw [hicount, Nat.add_sub_cancel]
        exact hrest
      istart_lt := Nat.mod_lt _ (by decide)
      buffers := by
        refine (perm_iff_count.mpr fun x => ?_).trans hperm
        simp only [Option.toList_some, heldBy_append, hheld.1, map_cons, count_append,
          count_cons, count_nil]
        omega
      bufs := by
        simp only [Option.toList_some, owedBufs_append, hheld.2.2]
        omega
      items := by
        simp only [Option.toList_some, owedItems_append, hheld.2.1]
        omega
      stored := fun x hx => h.stored x (mem_cons_of_mem _ hx)
      ready := by
        intro p hp
        rw [hstores.datagram]
        simp only [Option.toList_some, mem_append, mem_singleton] at hp
        rcases hp with (hp | rfl) | hp
        · exact (h.ready p (by simp [hs, hp])).mono fun _ _ _ _ _ => rfl
        · exact hready
        · exact (h.ready p (by simp [hs, hp])).mono fun _ _ _ _ _ => rfl
      ledger := by
        rw [h.ledger, hstores.datagram, map_cons, append_assoc]
        rfl }

/-- A thread that moves on and leaves the ring and the buffers' contents alone. -/
theorem move (hs : s.threads = pre ++ p :: post) {dev : Udp}
    (hring : dev.ring = s.dev.ring ∧ dev.istart = s.dev.istart ∧ dev.icount = s.dev.icount ∧
      dev.mem = s.dev.mem) (hbuffers : ∀ x, (dev.chain ++ heldBy r.toList).count x =
      (s.dev.chain ++ heldBy [p]).count x)
    (hbufs : dev.freebuf + owedBufs r.toList + s.dev.chain.length =
      s.dev.freebuf + owedBufs [p] + dev.chain.length)
    (hitems : dev.isem + owedItems r.toList = s.dev.isem + owedItems [p])
    (hready : ∀ p' ∈ r, p'.Ready s.dev.mem s.removed) :
    ({ s with dev := dev, threads := pre ++ r.toList ++ post } : UdpQueue).Sound q := by
  obtain ⟨hr, hi, hc, hm⟩ := hring
  have hs' : s.threads = pre ++ [p] ++ post := by rw [hs, append_assoc]; rfl
  exact
    { window := by
        rw [hr, hi, hc]
        exact h.window
      istart_lt := by
        rw [hi]
        exact h.istart_lt
      buffers := by
        refine (perm_iff_count.mpr fun x => ?_).trans h.buffers
        have := hbuffers x
        rw [hs']
        simp only [heldBy_append, count_append] at this ⊢
        omega
      bufs := by
        have := h.bufs
        rw [hs'] at this
        simp only [owedBufs_append] at this ⊢
        omega
      items := by
        have := h.items
        rw [hs'] at this
        simp only [owedItems_append] at this ⊢
        omega
      stored := by
        rw [hm]
        exact h.stored
      ready := by
        intro p' hp
        rw [hm]
        simp only [mem_append, Option.mem_toList] at hp
        rcases hp with (hp | hp) | hp
        · exact h.ready p' (by simp [hs, hp])
        · exact hready p' hp
        · exact h.ready p' (by simp [hs, hp])
      ledger := h.ledger }

/-- **A thread that goes on keeps account of the buffers and permits.** -/
theorem act (hs : s.threads = pre ++ p :: post) (hact : s.act p = some (s', r)) :
    ∃ q', ({ s' with threads := pre ++ r.toList ++ post } : UdpQueue).Sound q' := by
  cases p with
  | recvBuf pkt => exact h.insert hs hact
  | readTake len => exact h.remove hs (Option.some.inj hact)
  | recvSignal =>
    cases hact
    refine ⟨q, h.move hs ⟨rfl, rfl, rfl, rfl⟩ (fun _ => rfl) rfl ?_ (by simp)⟩
    simp [owedItems, Place.owesItem]
  | readWait len =>
    unfold UdpQueue.act at hact
    dsimp only at hact
    split at hact
    · simp at hact
    cases hact
    refine ⟨q, h.move hs ⟨rfl, rfl, rfl, rfl⟩ (fun _ => rfl) rfl ?_ ?_⟩
    · simp [owedItems, Place.owesItem]
      omega
    · rintro p' hp'
      cases hp'
      trivial
  | readCopy b offset count len number =>
    cases hact
    refine ⟨q, h.move hs ⟨rfl, rfl, rfl, rfl⟩ (fun _ => rfl) rfl rfl ?_⟩
    rintro p' hp'
    cases hp'
    trivial
  | readFree b =>
    cases hact
    refine ⟨q, h.move hs ⟨rfl, rfl, rfl, rfl⟩ ?_ ?_ rfl ?_⟩
    · intro x
      simp [heldBy, Place.held, count_cons]
    · simp [owedBufs, Place.owesBuf]
      omega
    · rintro p' hp'
      cases hp'
      trivial
  | freeSignal =>
    cases hact
    refine ⟨q, h.move hs ⟨rfl, rfl, rfl, rfl⟩ (fun _ => rfl) ?_ rfl (by simp)⟩
    simp [owedBufs, Place.owesBuf]

theorem enter (hheld : p.held = []) (hitem : p.owesItem = false)
    (hbuf : p.owesBuf = false) (hready : p.Ready s.dev.mem s.removed) :
    ({ s with threads := s.threads ++ [p] } : UdpQueue).Sound q where
  window := h.window
  istart_lt := h.istart_lt
  buffers := by
    have hsame : heldBy (s.threads ++ [p]) = heldBy s.threads := by
      simp [heldBy, hheld]
    rw [hsame]
    exact h.buffers
  bufs := by
    have := h.bufs
    simpa [owedBufs, hbuf] using this
  items := by
    have := h.items
    simpa [owedItems, hitem] using this
  stored := h.stored
  ready := by
    intro p' hp
    rcases mem_append.mp hp with hp | hp
    · exact h.ready p' hp
    · obtain rfl := mem_singleton.mp hp
      exact hready
  ledger := h.ledger

/-- **The step lemma.** -/
theorem step {x : Step} (hx : Fitting x) (hstep : s.step x = some s') : ∃ q', s'.Sound q' := by
  cases x with
  | recv pkt =>
    unfold UdpQueue.step at hstep
    dsimp only at hstep
    split at hstep
    · cases hstep
      exact ⟨q, h⟩
    · cases hstep
      exact ⟨q, h.enter rfl rfl rfl hx⟩
  | read len =>
    cases hstep
    exact ⟨q, h.enter rfl rfl rfl trivial⟩
  | go k =>
    unfold UdpQueue.step at hstep
    dsimp only at hstep
    split at hstep
    · simp at hstep
    rename_i p hp
    obtain ⟨⟨t, r⟩, hact, rfl⟩ := Option.map_eq_some_iff.mp hstep
    -- the thread stands between those before and those behind it
    obtain ⟨hk, hget⟩ := List.getElem?_eq_some_iff.mp hp
    have hs : s.threads = s.threads.take k ++ p :: s.threads.drop (k + 1) := by
      rw [← hget, ← drop_eq_getElem_cons hk, take_append_drop]
    exact h.act hs hact

theorem queued_eq : s.queued = q.map Prod.snd := by
  unfold queued
  rw [h.window, map_map]
  refine map_congr_left ?_
  intro x hx
  exact (h.stored x hx).datagram

end

end Sound

theorem sound_open (dev : Udp) (hdev : dev.icount = 0 ∧ dev.istart = 0 ∧ dev.isem = 0 ∧
    dev.freebuf = UDP_MAX_PKTS ∧ dev.chain = range UDP_MAX_PKTS) :
    ({ dev := dev } : UdpQueue).Sound [] := by
  obtain ⟨hc, hi, hs, hf, hch⟩ := hdev
  exact
    { window := by simp [hc]
      istart_lt := by simp [hi, UDP_MAX_PKTS]
      buffers := by simp [hch, heldBy]
      bufs := by simp [hf, hch, owedBufs]
      items := by simp [hs, hc, owedItems]
      stored := by simp
      ready := by simp
      ledger := rfl }

end UdpQueue

/-- **The receive queue is a bounded queue**, if every datagram has a header and fits a buffer: the
ring does not overflow; what has been accepted is what has been removed and then what is in the
ring, in that order; a reader copies the datagram that it has removed; and every buffer is in the
pool, in the ring or with one reader. -/
theorem udp_queue_is_fifo {dev : Udp} (hdev : dev.icount = 0 ∧ dev.istart = 0 ∧ dev.isem = 0 ∧
      dev.freebuf = UDP_MAX_PKTS ∧ dev.chain = List.range UDP_MAX_PKTS)
    {steps : List UdpQueue.Step} {s : UdpQueue}
    (r : fittingMachine.Run { dev := dev } steps s) :
    s.dev.icount ≤ UDP_MAX_PKTS ∧ s.accepted = s.removed ++ s.queued ∧
      (∀ b offset count len number, .readCopy b offset count len number ∈ s.threads →
        ∃ d, s.removed[number]? = some d ∧
          (offset = 0 ∨ offset = UDP_HDR_LEN) ∧
          s.dev.copied b offset count len = (d.drop offset).take len) ∧
      (s.dev.chain ++
          (Ring.window s.dev.ring UDP_MAX_PKTS s.dev.istart s.dev.icount).map (Option.getD · 0) ++
          UdpQueue.heldBy s.threads).Perm (List.range UDP_MAX_PKTS) := by
  have hinv : ∃ q, s.Sound q := by
    refine r.invariant (I := fun s => ∃ q, UdpQueue.Sound s q) ?_ ⟨[], UdpQueue.sound_open dev hdev⟩
    rintro s x ⟨q, h⟩ ⟨hx, hfit⟩
    obtain ⟨s', hs'⟩ := Option.isSome_iff_exists.mp hx
    change ∃ q, UdpQueue.Sound ((s.step x).getD s) q
    rw [hs']
    exact h.step hfit hs'
  obtain ⟨q, h⟩ := hinv
  have htotal := h.total
  refine ⟨by rw [h.icount_eq]; omega, by rw [h.queued_eq]; exact h.ledger, ?_, ?_⟩
  · intro b offset count len number hmem
    obtain ⟨d, hd, hstores, hwhat⟩ := h.ready _ hmem
    exact ⟨d, hd, hstores.copied hwhat⟩
  · rw [h.window, map_map]
    exact h.buffers

namespace UdpQueue

/-- A datagram of one octet, and one whose header has the length 1700. -/
def oneOctet (x : UInt8) : UdpMemory := fun i => if i = 4 then 9 else if i = 8 then x else 0
def oversized : UdpMemory := fun i => if i = 4 then 164 else if i = 5 then 6 else 0

/-- Two datagrams come in, and the first one is read. -/
def oneRead : List Step :=
  [.recv (oneOctet 1), .go 0, .go 0, .recv (oneOctet 2), .go 0, .go 0,
   .read 100, .go 0, .go 0, .go 0, .go 0, .go 0]

end UdpQueue

theorem udp_queue_is_fifo_one_read :
    ∃ s, fittingMachine.Run {} UdpQueue.oneRead s ∧ s.removed.length = 1 ∧
      s.accepted = s.removed ++ s.queued := by
  have hrun : fittingMachine.Run {} UdpQueue.oneRead (fittingMachine.after {} UdpQueue.oneRead) :=
    Machine.run_after
  refine ⟨_, hrun, ?_, (udp_queue_is_fifo ⟨rfl, rfl, rfl, rfl, rfl⟩ hrun).2.1⟩
  decide

/-- **A datagram in the ring is overwritten**: the next datagram gets the buffer that was given
back, and its 1700 octets do not fit it. The second datagram stands in the buffer behind. -/
theorem oversized_datagram_overwrites_queue :
    ∃ s, udpMachine.Run {} (UdpQueue.oneRead ++ [.recv UdpQueue.oversized, .go 0]) s ∧
      s.accepted[1]? = some [0, 0, 0, 0, 9, 0, 0, 0, 2] ∧ s.queued.head? = some [] ∧
      s.accepted ≠ s.removed ++ s.queued := by
  refine ⟨_, Machine.run_after, ?_⟩
  decide

end Xinu
