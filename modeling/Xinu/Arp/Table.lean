import Xinu.Tcp.State

/-!
# The ARP table

Threads that look up a hardware address wait in the entry of the table until a reply resolves it,
and are told so by a message. The sections that run with interrupts disabled are atomic here:
`arpRecv`, and `arpLookup` up to the point where the thread has put itself on the list of the entry.
From there on the steps of `arpLookup` are single steps, so that a reply may be processed between
any two of them. A thread is what `send` and `recvtime` see of it.
-/

namespace Xinu

namespace Arp

open Tcp (NetAddr)

/-! ## Constants -/

/-- Number of ARP table entries, and of threads that can wait in one. -/
def ARP_NENTRY : Nat := 32
def ARP_NTHRWAIT : Nat := 10

/-- Number of lookup attempts. -/
def ARP_MAX_LOOKUP : Nat := 5

/-- The message that shows a resolution. -/
def ARP_MSG_RESOLVED : Int := 1

/-- Time to live in seconds. -/
def ARP_TTL_UNRESOLVED : Nat := 5
def ARP_TTL_RESOLVED : Nat := 300

/-! ## The table -/

/-- `ARP_FREE`, `ARP_UNRESOLVED`, which is `ARP_USED`, and `ARP_RESOLVED`. -/
inductive EntryState
  | free
  | unresolved
  | resolved
deriving DecidableEq, Repr, Inhabited

/-- `struct arpEntry`; `waiting` is the part of the array that `count` gives. -/
structure ArpEntry where
  state : EntryState := .free
  hwaddr : NetAddr := ⟨0, []⟩
  praddr : NetAddr := ⟨0, []⟩
  expires : Nat := 0
  waiting : List Int := []
deriving DecidableEq

/-- Where a thread is in `arpLookup`. -/
inductive Place
  /-- elsewhere -/
  | idle
  /-- at the head of the loop, after some lookups -/
  | head (lookups : Nat)
  /-- on the list of an entry, before the request is sent -/
  | request (lookups : Nat) (ttl : Int)
  /-- before `recvclr` -/
  | clear (lookups : Nat) (ttl : Int)
  /-- before `recvtime` -/
  | recv (lookups : Nat) (ttl : Int)
  /-- in `recvtime`, behind its call of `resched` -/
  | waiting (lookups : Nat)
  /-- returned `OK` with an address, or `SYSERR` -/
  | done (result : Option NetAddr)
deriving DecidableEq

/-- The thread is outside of `arpLookup`. -/
def Place.outside : Place → Bool
  | .idle | .done _ => true
  | _ => false

/-- The lookups so far of a thread that is on the list of an entry. -/
def Place.listed : Place → Option Nat
  | .request n _ | .clear n _ | .recv n _ | .waiting n => some n
  | _ => none

/-- A thread: whether it is there, its message, the address it looks up and where it is. -/
structure Thr where
  live : Bool := false
  hasmsg : Bool := false
  msg : Int := 0
  praddr : NetAddr := ⟨0, []⟩
  place : Place := .idle

end Arp

/-- The ARP table, the clock and the threads. The last is a history variable that no code reads: the
threads whose entry has been resolved while they were in `arpLookup` with lookups left. -/
structure Arp where
  arptab : Nat → Arp.ArpEntry
  clktime : Nat
  thr : Int → Arp.Thr
  resolved : Int → Bool

namespace Arp

open Tcp (NetAddr)

/-- Writes into an entry. -/
def modEntry (a : Arp) (i : Nat) (f : ArpEntry → ArpEntry) : Arp :=
  { a with arptab := store a.arptab i (f (a.arptab i)) }

/-- Writes into a thread. -/
def modThr (a : Arp) (t : Int) (f : Thr → Thr) : Arp :=
  { a with thr := store a.thr t (f (a.thr t)) }

/-- `send`: deposit a message, which starts a receiver that waits. -/
def send (a : Arp) (tid msg : Int) : Arp × Int :=
  if (a.thr tid).live = false ∨ (a.thr tid).hasmsg = true then (a, SYSERR)
  else (a.modThr tid fun e => { e with msg := msg, hasmsg := true }, OK)

/-- The loop of `arpNotify`. -/
def notifyLoop (msg : Int) : List Int → Arp → Arp × Int
  | [], a => (a, OK)
  | tid :: rest, a =>
    let r := a.send tid msg
    if r.2 = SYSERR then (r.1, SYSERR) else notifyLoop msg rest r.1

/-- `arpNotify`: send a message to each waiting thread, and clear the list. -/
def arpNotify (a : Arp) (i : Nat) (msg : Int) : Arp × Int :=
  let r := notifyLoop msg (a.arptab i).waiting a
  if r.2 = SYSERR then (r.1, SYSERR) else (r.1.modEntry i fun e => { e with waiting := [] }, OK)

/-- `arpFree`: remove an entry from the table. -/
def arpFree (a : Arp) (i : Nat) : Arp :=
  let a := if (a.arptab i).state = .unresolved then (a.arpNotify i TIMEOUT).1 else a
  a.modEntry i fun _ => {}

/-- The loop of `arpGetEntry` over the entries from `i` on. -/
def getLoop (praddr : NetAddr) : Nat → Nat → Arp → Arp × Option Nat
  | 0, _, a => (a, none)
  | n + 1, i, a =>
    -- if ARP entry is not used, skip to next entry
    if (a.arptab i).state = .free then getLoop praddr n (i + 1) a
    -- check if entry has timed out
    else if (a.arptab i).expires < a.clktime then getLoop praddr n (i + 1) (a.arpFree i)
    else if (a.arptab i).praddr = praddr then (a, some i)
    else getLoop praddr n (i + 1) a

/-- `arpGetEntry`: obtain the entry of a protocol address. -/
def arpGetEntry (a : Arp) (praddr : NetAddr) : Arp × Option Nat := getLoop praddr ARP_NENTRY 0 a

/-- The loop of `arpAlloc`: the first entry that is free, or the one that expires first. -/
def allocLoop (a : Arp) : Nat → Nat → Option Nat → Option Nat ⊕ Nat
  | 0, _, minexpires => .inl minexpires
  | n + 1, i, minexpires =>
    if (a.arptab i).state = .free then .inr i
    else
      match minexpires with
      | none => allocLoop a n (i + 1) (some i)
      | some m =>
        allocLoop a n (i + 1)
          (if (a.arptab i).expires < (a.arptab m).expires then some i else some m)

/-- `arpAlloc`: allocate an entry; `none` is `SYSERR`. -/
def arpAlloc (a : Arp) : Arp × Option Nat :=
  match a.allocLoop ARP_NENTRY 0 none with
  | .inr i => (a.modEntry i fun e => { e with state := .unresolved }, some i)
  | .inl none => (a, none)
  | .inl (some m) => (a.modEntry m fun _ => { state := .unresolved }, some m)

/-! ## Replies -/

/-- The threads of an entry whose calls wait for it, with lookups left. -/
def Waits (a : Arp) (i : Nat) (t : Int) : Prop :=
  t ∈ (a.arptab i).waiting ∧ (a.thr t).praddr = (a.arptab i).praddr ∧
    ∃ n ∈ (a.thr t).place.listed, n < ARP_MAX_LOOKUP
deriving Decidable

/-- `arpRecv` resolves an entry that exists: the threads that wait for it are notified. -/
def resolve (a : Arp) (i : Nat) (sha : NetAddr) : Arp :=
  let waits := fun t => decide (a.Waits i t)
  let a := a.modEntry i fun e =>
    { e with hwaddr := sha, expires := add32 a.clktime ARP_TTL_RESOLVED }
  if (a.arptab i).state = .unresolved then
    let a := { a with resolved := fun t => a.resolved t || waits t }
    ((a.modEntry i fun e => { e with state := .resolved }).arpNotify i ARP_MSG_RESOLVED).1
  else a

/-- `arpRecv`, as far as the table is concerned: an entry for the sender is updated, and made if
there is none and the packet is for this interface. -/
def arpRecv (a : Arp) (spa sha : NetAddr) (mine : Bool) : Arp :=
  let r := a.arpGetEntry spa
  match r.2 with
  | some i => r.1.resolve i sha
  | none =>
    if mine then
      match r.1.arpAlloc with
      | (a, none) => a
      | (a, some i) => a.modEntry i fun e =>
          { e with
            state := .resolved, hwaddr := sha, praddr := spa
            expires := add32 a.clktime ARP_TTL_RESOLVED }
    else r.1

/-! ## Lookups -/

/-- A word taken as a signed number. -/
def signed (x : Nat) : Int :=
  if x % 2 ^ 32 < 2 ^ 31 then (x % 2 ^ 32 : Nat) else ((x % 2 ^ 32 : Nat) : Int) - 2 ^ 32

/-- The thread goes on at a place. -/
def goto (a : Arp) (t : Int) (p : Place) : Arp := a.modThr t fun e => { e with place := p }

/-- The part of `arpLookup` behind the entry of the table: the address if it is resolved, and
otherwise the thread puts itself on the list of the entry. -/
def enqueue (a : Arp) (t : Int) (lookups : Nat) (i : Nat) : Arp :=
  let e := a.arptab i
  if e.state = .resolved then a.goto t (.done (some e.hwaddr))
  else if ARP_NTHRWAIT ≤ e.waiting.length then a.goto t (.done none)
  else
    let a := a.modEntry i fun e => { e with waiting := e.waiting ++ [t] }
    a.goto t (.request lookups (signed (sub32 e.expires a.clktime * CLKTICKS_PER_SEC)))

/-- The part of `arpLookup` with interrupts disabled, in the round number `lookups`. -/
def findEntry (a : Arp) (t : Int) (lookups : Nat) : Arp :=
  let praddr := (a.thr t).praddr
  let r := a.arpGetEntry praddr
  match r.2 with
  | some i => r.1.enqueue t lookups i
  | none =>
    -- create an unresolved entry
    match r.1.arpAlloc with
    | (a, none) => a.goto t (.done none)
    | (a, some i) =>
      let a := a.modEntry i fun e =>
        { e with
          state := .unresolved, praddr := praddr
          expires := add32 a.clktime ARP_TTL_UNRESOLVED, waiting := [] }
      a.enqueue t lookups i

/-- What `arpLookup` does with the message that `recvtime` returns. -/
def answer (a : Arp) (t : Int) (lookups : Nat) (msg : Int) : Arp :=
  if msg = TIMEOUT ∨ msg = SYSERR then a.goto t (.done none) else a.goto t (.head lookups)

/-- `recvtime` behind its call of `resched`. -/
def recvtimeRest (a : Arp) (t : Int) (lookups : Nat) : Arp :=
  if (a.thr t).hasmsg = true then
    (a.modThr t fun e => { e with hasmsg := false }).answer t lookups (a.thr t).msg
  else a.answer t lookups TIMEOUT

/-- The next step of a thread in `arpLookup`; `sent` is the result of `arpSendRqst`. -/
def lookup (a : Arp) (t : Int) (sent : Bool) : Arp :=
  match (a.thr t).place with
  | .idle | .done _ => a
  | .head lookups =>
    if lookups < ARP_MAX_LOOKUP then a.findEntry t (lookups + 1) else a.goto t (.done none)
  | .request lookups ttl =>
    if sent then a.goto t (.clear lookups ttl) else a.goto t (.done none)
  | .clear lookups ttl =>
    (a.modThr t fun e => { e with hasmsg := false }).goto t (.recv lookups ttl)
  | .recv lookups ttl =>
    if ttl < 0 then a.answer t lookups SYSERR
    else if (a.thr t).hasmsg = false then a.goto t (.waiting lookups)
    else a.recvtimeRest t lookups
  | .waiting lookups => a.recvtimeRest t lookups

/-! ## The machine -/

/-- What can happen. -/
inductive Step
  /-- a thread calls `arpLookup` -/
  | call (t : Int) (praddr : NetAddr)
  /-- a thread in `arpLookup` goes on; one that waits has got a message, or its time is up -/
  | go (t : Int) (sent : Bool)
  /-- a packet comes in -/
  | recv (spa sha : NetAddr) (mine : Bool)
  /-- a second passes -/
  | tick
  /-- a thread gets a message from elsewhere -/
  | message (t msg : Int)
  | create (t : Int)
  | kill (t : Int)

/-- One step. A second only advances the clock: the end of the time that a thread waits is a step of
its own, `go` without a message, which may come at any second. These are more runs than those of the
code, in which it comes when `ttl` has passed. -/
def step (a : Arp) : Step → Arp
  | .call t praddr =>
    { a.modThr t fun e => { e with praddr := praddr, place := .head 0 } with
      resolved := store a.resolved t false }
  | .go t sent => a.lookup t sent
  | .recv spa sha mine => a.arpRecv spa sha mine
  | .tick => { a with clktime := add32 a.clktime 1 }
  | .message t msg => (a.send t msg).1
  | .create t => { a.modThr t fun _ => { live := true } with resolved := store a.resolved t false }
  | .kill t => a.modThr t fun e => { e with live := false }

/-- A thread has to be there, and outside of `arpLookup` to call it. -/
def Enabled (a : Arp) : Step → Prop
  | .call t _ => (a.thr t).live = true ∧ (a.thr t).place.outside = true
  | .go t _ => (a.thr t).live = true
  | .create t => (a.thr t).live = false
  | _ => True

instance (a : Arp) : ∀ s : Step, Decidable (a.Enabled s) := by
  rintro ⟨⟩ <;> unfold Arp.Enabled <;> infer_instance

/-- An empty table, and no thread. -/
def start : Arp := ⟨fun _ => {}, 0, fun _ => {}, fun _ => false⟩

end Arp

/-- The ARP table with its threads. -/
def arpMachine : Machine Arp Arp.Step where
  enabled := Arp.Enabled
  next := Arp.step

instance (a : Arp) (s : Arp.Step) : Decidable (arpMachine.enabled a s) :=
  inferInstanceAs (Decidable (a.Enabled s))

end Xinu
