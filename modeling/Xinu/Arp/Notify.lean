import Mathlib.Data.List.Nodup
import Xinu.Arp.Table

/-!
# The threads that wait in an entry

When an entry with waiting threads is resolved, freed or taken for another address, each of the
threads has to be told. `arpNotify` sends the messages one by one and gives up at the first that it
cannot send, with the list as it was; and `arpAlloc` sends none.

## Main results

* `thr_notifyLoop`, `notifyLoop_ok_iff`: what the loop of `arpNotify` does
* `arp_waiters_told_iff`: the events at which the threads are told
-/

namespace Xinu.Arp

set_option maxRecDepth 2000

open List

open Tcp (NetAddr)

variable {a : Arp} {t w : Int} {ws : List Int}

/-- A message to each of the threads can be sent: they are there, none has a message already, and
none is on the list twice. -/
def Sendable (a : Arp) (ws : List Int) : Prop :=
  ws.Nodup ∧ ∀ t ∈ ws, (a.thr t).live = true ∧ (a.thr t).hasmsg = false
deriving Decidable

/-- The message to a thread on the list is sent: it can be sent, and so can those before it. -/
def Reached (a : Arp) (ws : List Int) (t : Int) : Prop :=
  ∃ l r, ws = l ++ t :: r ∧ Sendable a (l ++ [t])

/-! ## The loop -/

/-- A thread that gets a message. -/
def deposit (msg : Int) (e : Thr) : Thr := { e with msg := msg, hasmsg := true }

theorem send_of_sendable {msg : Int} (h : (a.thr t).live = true ∧ (a.thr t).hasmsg = false) :
    a.send t msg = (a.modThr t (deposit msg), OK) := by
  unfold send
  rw [if_neg (by simp [h.1, h.2])]
  rfl

theorem send_of_not_sendable {msg : Int}
    (h : ¬ ((a.thr t).live = true ∧ (a.thr t).hasmsg = false)) : a.send t msg = (a, SYSERR) := by
  unfold send
  rw [if_pos ?_]
  by_contra hn
  rw [not_or] at hn
  exact h ⟨by simpa using hn.1, by simpa using hn.2⟩

theorem thr_modThr_of_ne {t' : Int} {f : Thr → Thr} (h : t' ≠ t) :
    (a.modThr t f).thr t' = a.thr t' := by
  unfold modThr
  rw [store_eq_update]
  exact Function.update_of_ne h ..

theorem thr_modThr_self {f : Thr → Thr} : (a.modThr t f).thr t = f (a.thr t) := by
  exact Function.update_self ..

theorem arptab_send (a : Arp) (t msg : Int) : (a.send t msg).1.arptab = a.arptab := by
  unfold send
  split_ifs <;> rfl

theorem arptab_notifyLoop (msg : Int) (ws : List Int) (a : Arp) :
    (notifyLoop msg ws a).1.arptab = a.arptab := by
  induction ws generalizing a with
  | nil => rfl
  | cons w ws ih =>
    rw [notifyLoop]
    split_ifs
    · exact arptab_send a w msg
    · rw [ih, arptab_send]

/-- With the message to one thread deposited, the rest of the list can be sent to if the whole
could. -/
theorem sendable_cons {msg : Int} (h : (a.thr w).live = true ∧ (a.thr w).hasmsg = false) :
    Sendable a (w :: ws) ↔ Sendable (a.modThr w (deposit msg)) ws := by
  constructor
  · rintro ⟨hnd, hall⟩
    obtain ⟨hw, hnd⟩ := nodup_cons.mp hnd
    refine ⟨hnd, fun t ht => ?_⟩
    rw [thr_modThr_of_ne (show t ≠ w from fun heq => hw (heq ▸ ht))]
    exact hall t (mem_cons_of_mem _ ht)
  · rintro ⟨hnd, hall⟩
    -- the thread with the message is not on the list any more
    have hw : w ∉ ws := by
      intro hw
      have := (hall w hw).2
      rw [thr_modThr_self] at this
      exact absurd this (by simp [deposit])
    refine ⟨nodup_cons.mpr ⟨hw, hnd⟩, fun t ht => ?_⟩
    rcases mem_cons.mp ht with rfl | ht
    · exact h
    · have := hall t ht
      rwa [thr_modThr_of_ne (show t ≠ w from fun heq => hw (heq ▸ ht))] at this

/-- **`arpNotify` succeeds** if every message can be sent. -/
theorem notifyLoop_ok_iff (msg : Int) (ws : List Int) (a : Arp) :
    (notifyLoop msg ws a).2 ≠ SYSERR ↔ Sendable a ws := by
  induction ws generalizing a with
  | nil => simp [notifyLoop, Sendable, OK, SYSERR]
  | cons w ws ih =>
    rw [notifyLoop]
    by_cases h : (a.thr w).live = true ∧ (a.thr w).hasmsg = false
    · rw [send_of_sendable h, if_neg (by simp [OK, SYSERR]), ih, sendable_cons h]
    · rw [send_of_not_sendable h, if_pos rfl]
      simp only [ne_eq, not_true_eq_false, false_iff]
      exact fun hs => h (hs.2 w mem_cons_self)

theorem reached_cons_self
    (h : (a.thr w).live = true ∧ (a.thr w).hasmsg = false) : Reached a (w :: ws) w := by
  refine ⟨[], ws, rfl, nodup_singleton w, fun t ht => ?_⟩
  rw [mem_singleton.mp ht]
  exact h

theorem reached_cons_of_ne {msg : Int}
    (h : (a.thr w).live = true ∧ (a.thr w).hasmsg = false) (hne : t ≠ w) :
    Reached a (w :: ws) t ↔ Reached (a.modThr w (deposit msg)) ws t := by
  constructor
  · rintro ⟨l, r, heq, hs⟩
    cases l with
    | nil => exact absurd (cons.inj heq).1.symm hne
    | cons x l =>
      obtain ⟨rfl, hrest⟩ := cons.inj heq
      exact ⟨l, r, hrest, (sendable_cons h).mp hs⟩
  · rintro ⟨l, r, rfl, hs⟩
    exact ⟨w :: l, r, rfl, (sendable_cons h).mpr hs⟩

/-- **What the loop of `arpNotify` does to a thread**: it deposits the message if it reaches it. -/
theorem thr_notifyLoop (msg : Int) (ws : List Int) (a : Arp) (t : Int) :
    (Reached a ws t → (notifyLoop msg ws a).1.thr t = deposit msg (a.thr t)) ∧
      (¬ Reached a ws t → (notifyLoop msg ws a).1.thr t = a.thr t) := by
  induction ws generalizing a with
  | nil =>
    refine ⟨?_, fun _ => rfl⟩
    rintro ⟨l, r, heq, -⟩
    exact absurd heq (by simp)
  | cons w ws ih =>
    rw [notifyLoop]
    by_cases h : (a.thr w).live = true ∧ (a.thr w).hasmsg = false
    · rw [send_of_sendable h, if_neg (by simp [OK, SYSERR])]
      have ih := ih (a.modThr w (deposit msg))
      by_cases ht : t = w
      · -- it has its message, so that no other reaches it
        subst ht
        have hnot : ¬ Reached (a.modThr t (deposit msg)) ws t := by
          rintro ⟨l, r, -, hs⟩
          have := (hs.2 t (by simp)).2
          rw [thr_modThr_self] at this
          exact absurd this (by simp [deposit])
        rw [ih.2 hnot, thr_modThr_self]
        exact ⟨fun _ => rfl, fun hn => absurd (reached_cons_self h) hn⟩
      · rw [reached_cons_of_ne h ht]
        rw [thr_modThr_of_ne ht] at ih
        exact ih
    · rw [send_of_not_sendable h, if_pos rfl]
      refine ⟨?_, fun _ => rfl⟩
      rintro ⟨l, r, heq, hs⟩
      have hmem : w ∈ l ++ [t] := by
        cases l with
        | nil => simp [(cons.inj heq).1]
        | cons x l => simp [(cons.inj heq).1]
      exact absurd (hs.2 w hmem) h

/-- If every message can be sent, all threads of the list are reached. -/
theorem Sendable.reached (h : Sendable a ws) (ht : t ∈ ws) : Reached a ws t := by
  obtain ⟨l, r, rfl⟩ := append_of_mem ht
  refine ⟨l, r, rfl, ?_, fun x hx => h.2 x ?_⟩
  · have := h.1
    rw [append_cons] at this
    exact (nodup_append.mp this).1
  · rw [append_cons]
    exact mem_append_left _ hx

/-! ## Events -/

/-- What ends the wait of the threads in an unresolved entry. -/
inductive Event
  /-- `arpRecv` resolves the entry -/
  | resolved (i : Nat) (sha : NetAddr)
  /-- `arpFree` frees it -/
  | freed (i : Nat)
  /-- `arpAlloc` takes it for another address -/
  | reused (i : Nat)

/-- The entry of an event, and the message that it owes. -/
def Event.entry : Event → Nat
  | .resolved i _ | .freed i | .reused i => i

def Event.msg : Event → Int
  | .resolved _ _ => ARP_MSG_RESOLVED
  | .freed _ | .reused _ => TIMEOUT

/-- The state behind the event. -/
def Event.after (a : Arp) : Event → Arp
  | .resolved i sha => a.resolve i sha
  | .freed i => a.arpFree i
  | .reused _ => a.arpAlloc.1

/-- The event can happen: `arpAlloc` finds no free entry, and takes the one that expires first. -/
def Event.Possible (a : Arp) : Event → Prop
  | .reused i => a.allocLoop ARP_NENTRY 0 none = .inl (some i)
  | _ => True

/-- Each live thread that was waiting in the entry has the message of the event, and had none
before; and no thread is left on the list. -/
def Told (a a' : Arp) (i : Nat) (msg : Int) : Prop :=
  (∀ t ∈ (a.arptab i).waiting, (a.thr t).live = true →
    (a.thr t).hasmsg = false ∧ (a'.thr t).hasmsg = true ∧ (a'.thr t).msg = msg) ∧
    (a'.arptab i).waiting = []

/-- The threads of the entry can all be told. When the entry is freed it is enough that the live
ones are reached; when it is reused there must be none. -/
def Event.Clean (a : Arp) : Event → Prop
  | .resolved i _ => Sendable a (a.arptab i).waiting
  | .freed i => ∀ t ∈ (a.arptab i).waiting, (a.thr t).live = true → Reached a (a.arptab i).waiting t
  | .reused i => ∀ t ∈ (a.arptab i).waiting, (a.thr t).live = false

/-- A thread of the list has the message if and only if the loop reaches it. -/
theorem told_notifyLoop_iff {msg : Int} :
    ((a.thr t).hasmsg = false ∧ ((notifyLoop msg ws a).1.thr t).hasmsg = true ∧
      ((notifyLoop msg ws a).1.thr t).msg = msg) ↔ Reached a ws t := by
  constructor
  · rintro ⟨h₁, h₂, -⟩
    by_contra hn
    rw [(thr_notifyLoop msg ws a t).2 hn, h₁] at h₂
    exact absurd h₂ (by simp)
  · intro h
    rw [(thr_notifyLoop msg ws a t).1 h]
    obtain ⟨l, r, -, hs⟩ := h
    exact ⟨(hs.2 t (by simp)).2, rfl, rfl⟩

theorem entry_modEntry_self {i : Nat} {f : ArpEntry → ArpEntry} :
    (a.modEntry i f).arptab i = f (a.arptab i) := by
  exact Function.update_self ..

/-- `arpNotify` clears the list if every message can be sent, and otherwise leaves it. -/
theorem waiting_arpNotify (a : Arp) (i : Nat) (msg : Int) :
    ((a.arpNotify i msg).1.arptab i).waiting = [] ↔ Sendable a (a.arptab i).waiting := by
  have hok := notifyLoop_ok_iff msg (a.arptab i).waiting a
  have htab := arptab_notifyLoop msg (a.arptab i).waiting a
  unfold arpNotify
  by_cases h : (notifyLoop msg (a.arptab i).waiting a).2 = SYSERR
  · rw [if_pos h, htab]
    refine ⟨fun hnil => ?_, fun hs => absurd h (hok.mpr hs)⟩
    rw [hnil]
    exact ⟨nodup_nil, by simp⟩
  · rw [if_neg h, entry_modEntry_self]
    exact ⟨fun _ => hok.mp h, fun _ => rfl⟩

theorem thr_arpNotify (a : Arp) (i : Nat) (msg : Int) :
    (a.arpNotify i msg).1.thr = (notifyLoop msg (a.arptab i).waiting a).1.thr := by
  unfold arpNotify
  dsimp only
  split_ifs <;> rfl

theorem notifyLoop_congr (msg : Int) (ws : List Int) {b : Arp} (h : a.thr = b.thr) :
    (notifyLoop msg ws a).1.thr = (notifyLoop msg ws b).1.thr := by
  induction ws generalizing a b with
  | nil => exact h
  | cons w ws ih =>
    have hsend : (a.send w msg).2 = (b.send w msg).2 ∧
        (a.send w msg).1.thr = (b.send w msg).1.thr := by
      unfold send modThr
      rw [h]
      split_ifs
      · exact ⟨rfl, h⟩
      · exact ⟨rfl, rfl⟩
    rw [notifyLoop, notifyLoop, hsend.1]
    split_ifs
    · exact hsend.2
    · exact ih hsend.2

/-- `arpRecv` updates an unresolved entry before it notifies the threads that wait in it. -/
theorem resolve_of_unresolved {i : Nat} (sha : NetAddr) (hu : (a.arptab i).state = .unresolved) :
    ∃ b : Arp, a.resolve i sha = (b.arpNotify i ARP_MSG_RESOLVED).1 ∧ b.thr = a.thr ∧
      b.resolved = (fun t => a.resolved t || decide (a.Waits i t)) ∧ b.clktime = a.clktime ∧
      b.arptab = Function.update a.arptab i { a.arptab i with
        state := .resolved, hwaddr := sha, expires := add32 a.clktime ARP_TTL_RESOLVED } := by
  unfold resolve
  dsimp only
  rw [entry_modEntry_self, if_pos hu]
  refine ⟨_, rfl, rfl, rfl, rfl, ?_⟩
  unfold modEntry
  simp only [store_eq_update, Function.update_self, Function.update_idem]

/-- **Which events tell every waiter.** For every state of the table and of the threads: when an
unresolved entry is resolved, freed or reused, each live thread that waits in it gets the message of
the event and the list is empty afterwards, exactly if the messages can be sent. -/
theorem arp_waiters_told_iff {a : Arp} {e : Event} (hp : e.Possible a)
    (hu : (a.arptab e.entry).state = .unresolved) :
    Told a (e.after a) e.entry e.msg ↔ e.Clean a := by
  cases e with
  | resolved i sha =>
    obtain ⟨b, hresolve, hthr, -, -, htab⟩ := resolve_of_unresolved (i := i) sha hu
    have hwait : (b.arptab i).waiting = (a.arptab i).waiting := by
      rw [htab, Function.update_self]
    have hsend : Sendable b (a.arptab i).waiting ↔ Sendable a (a.arptab i).waiting := by
      unfold Sendable
      rw [hthr]
    have hlist := waiting_arpNotify b i ARP_MSG_RESOLVED
    rw [hwait, hsend] at hlist
    change Told a (a.resolve i sha) i ARP_MSG_RESOLVED ↔ Sendable a (a.arptab i).waiting
    rw [hresolve]
    refine ⟨fun h => hlist.mp h.2, fun h => ⟨fun t ht _ => ?_, hlist.mpr h⟩⟩
    rw [thr_arpNotify, hwait, notifyLoop_congr _ _ hthr]
    exact told_notifyLoop_iff.mpr (h.reached ht)
  | freed i =>
    have hu' : (a.arptab i).state = .unresolved := hu
    have hthr : (a.arpFree i).thr = (notifyLoop TIMEOUT (a.arptab i).waiting a).1.thr := by
      unfold arpFree
      rw [if_pos hu']
      exact thr_arpNotify a i TIMEOUT
    have hlist : ((a.arpFree i).arptab i).waiting = [] := by
      unfold arpFree
      rw [entry_modEntry_self]
    change Told a (a.arpFree i) i TIMEOUT ↔ _
    unfold Told Event.Clean
    rw [hthr]
    refine ⟨fun h t ht hl => told_notifyLoop_iff.mp (h.1 t ht hl),
      fun h => ⟨fun t ht hl => ?_, hlist⟩⟩
    exact told_notifyLoop_iff.mpr (h t ht hl)
  | reused i =>
    have halloc : a.arpAlloc.1 = a.modEntry i fun _ => { state := .unresolved } := by
      unfold arpAlloc
      rw [show a.allocLoop ARP_NENTRY 0 none = .inl (some i) from hp]
    change Told a a.arpAlloc.1 i TIMEOUT ↔ _
    rw [halloc]
    refine ⟨fun h t ht => ?_, fun h => ⟨fun t ht hl => ?_, ?_⟩⟩
    · -- no message is sent
      by_contra hl
      obtain ⟨h₁, h₂, -⟩ := h.1 t ht (by simpa using hl)
      exact absurd (h₁.symm.trans h₂) (by simp)
    · exact absurd (h t ht) (by simp [hl])
    · rw [entry_modEntry_self]

/-- An Internet address and a hardware address. -/
def host (k : Nat) : NetAddr := ⟨0x800, [10, 0, 0, k]⟩
def card (k : Nat) : NetAddr := ⟨1, [2, 0, 0, 0, 0, k]⟩

/-- A thread is created, calls `arpLookup` and puts itself on the list of the entry. -/
def waiter (t : Int) (k : Nat) : List Step := [.create t, .call t (host k), .go t true]

/-- Two threads wait for one address. -/
def twoWaiters : Arp := arpMachine.after start (waiter 1 7 ++ waiter 2 7)

/-- Two threads wait, and both are told. -/
theorem arp_waiters_told_two :
    arpMachine.Run start (waiter 1 7 ++ waiter 2 7) twoWaiters ∧
      (twoWaiters.arptab 0).waiting = [1, 2] ∧
      Told twoWaiters (twoWaiters.resolve 0 (card 7)) 0 ARP_MSG_RESOLVED :=
  ⟨Machine.run_after, by decide,
    (arp_waiters_told_iff (e := .resolved 0 (card 7)) trivial (by decide)).mpr
      (show Sendable twoWaiters (twoWaiters.arptab 0).waiting by decide)⟩

/-- Every entry of the table has a thread that waits in it. -/
def crowded : List Step := (List.range ARP_NENTRY).flatMap fun k : Nat => waiter (k : Int) k

/-- **Waiters that are not told.** The first of two threads that wait is killed, and a reply comes
in: the second thread gets no message, and both stay on the list of the resolved entry. And when the
table is full, a further lookup takes the first entry, and the thread that waits in it gets no
message. -/
theorem arp_waiters_forgotten :
    (∃ a, arpMachine.Run start
        (waiter 1 7 ++ waiter 2 7 ++ [.kill 1, .recv (host 7) (card 7) false]) a ∧
      (a.arptab 0).state = .resolved ∧ (a.arptab 0).waiting = [1, 2] ∧
      (a.thr 2).live = true ∧ (a.thr 2).hasmsg = false) ∧
    ∃ a a', arpMachine.Run start crowded a ∧ (a.arptab 0).state = .unresolved ∧
      (a.arptab 0).waiting = [0] ∧ arpMachine.Run a (waiter 100 100) a' ∧
      (a'.arptab 0).praddr = host 100 ∧ (a'.arptab 0).waiting = [100] ∧
      (a'.thr 0).live = true ∧ (a'.thr 0).hasmsg = false := by
  refine ⟨⟨_, Machine.run_after, by decide⟩, ⟨_, _, Machine.run_after, by decide, by decide,
      Machine.run_after, by decide⟩⟩

end Xinu.Arp
