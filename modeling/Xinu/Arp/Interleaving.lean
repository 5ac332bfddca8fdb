import Xinu.Arp.Lookup

/-!
# The ARP table between two sends

The sections of `arpLookup`, `arpRecv` and `arpGetEntry` run with interrupts disabled, but not in
one piece: `arpNotify` sends messages, and a message may hand the processor to the thread that gets
it. So a thread may be suspended in the middle of the scan of `arpGetEntry`, which frees the entries
that have expired and notifies those that wait in them. Here each message that is sent is a place
where other threads may go on, and everything between two such places is one step.

If no thread inserts an entry while another is suspended in a scan, what a thread has seen of the
table stays true to the end of its scan, and there is at most one entry for an address.

## Main results

* `Arp.scanFrom_spec`: what a scan returns, and what it leaves behind
* `Sound.step`: a step keeps the addresses unique
* `arp_cache_is_function`: at most one entry for an address, in any interleaving
-/

namespace Xinu

namespace Arp

open Tcp (NetAddr)

/-! ## Scans in pieces -/

/-- On whose behalf the table is scanned. -/
inductive Client
  /-- `arpLookup`, in a round -/
  | lookup (lookups : Nat)
  /-- `arpRecv`, with the address of the sender, and whether the packet is for this interface -/
  | recv (sha : NetAddr) (mine : Bool)
  /-- `arpGetEntry` itself -/
  | get
deriving DecidableEq

/-- Where a thread is suspended, behind some messages to the threads that wait in an entry. -/
inductive Suspension
  /-- in `arpFree` of an expired entry, in the scan for an address -/
  | freeing (c : Client) (praddr : NetAddr) (i j : Nat)
  /-- in `arpRecv`, which has resolved an entry -/
  | resolving (i j : Nat)
deriving DecidableEq

/-- One round of the loop of `arpNotify`: whether a message has been sent. At the end of the loop
the list is cleared; where a message cannot be sent, it is not. -/
def notifyNext (a : Arp) (i j : Nat) (msg : Int) : Arp × Bool :=
  match ((a.arptab i).waiting.drop j).head? with
  | none => (a.modEntry i fun e => { e with waiting := [] }, false)
  | some tid =>
    let r := a.send tid msg
    if r.2 = SYSERR then (r.1, false) else (r.1, true)

/-- What a scan has come to. -/
inductive Outcome
  | found (entry : Option Nat)
  /-- a message has been sent to the first thread that waits in an entry -/
  | sent (i : Nat)
deriving DecidableEq

/-- The loop of `arpGetEntry` over the entries from `i` on, up to its end or to a message. -/
def scanFrom (praddr : NetAddr) : Nat → Nat → Arp → Arp × Outcome
  | 0, _, a => (a, .found none)
  | n + 1, i, a =>
    if (a.arptab i).state = .free then scanFrom praddr n (i + 1) a
    else if (a.arptab i).expires < a.clktime then
      -- arpFree
      if (a.arptab i).state = .unresolved then
        let r := a.notifyNext i 0 TIMEOUT
        if r.2 then (r.1, .sent i)
        else scanFrom praddr n (i + 1) (r.1.modEntry i fun _ => {})
      else scanFrom praddr n (i + 1) (a.modEntry i fun _ => {})
    else if (a.arptab i).praddr = praddr then (a, .found (some i))
    else scanFrom praddr n (i + 1) a

/-- What `arpLookup`, `arpRecv` and `arpGetEntry` do with the result of a scan. -/
def finish (a : Arp) (t : Int) (c : Client) (praddr : NetAddr) (entry : Option Nat) :
    Arp × Option Suspension :=
  match c, entry with
  | .get, _ => (a, none)
  | .lookup lookups, some i => (a.enqueue t lookups i, none)
  | .lookup lookups, none =>
    -- create an unresolved entry
    match a.arpAlloc with
    | (a, none) => (a.goto t (.done none), none)
    | (a, some i) =>
      ((a.modEntry i fun e => { e with
          state := .unresolved, praddr := praddr
          expires := add32 a.clktime ARP_TTL_UNRESOLVED, waiting := [] }).enqueue t lookups i, none)
  | .recv sha _, some i =>
    let a := a.modEntry i fun e =>
      { e with hwaddr := sha, expires := add32 a.clktime ARP_TTL_RESOLVED }
    if (a.arptab i).state = .unresolved then
      let r := (a.modEntry i fun e => { e with state := .resolved }).notifyNext i 0 ARP_MSG_RESOLVED
      (r.1, if r.2 then some (.resolving i 1) else none)
    else (a, none)
  | .recv sha mine, none =>
    if mine then
      match a.arpAlloc with
      | (a, none) => (a, none)
      | (a, some i) => (a.modEntry i fun e => { e with
            state := .resolved, hwaddr := sha, praddr := praddr
            expires := add32 a.clktime ARP_TTL_RESOLVED }, none)
    else (a, none)

/-- A thread is suspended in a scan. -/
def Suspension.scans : Suspension → Bool
  | .freeing _ _ _ _ => true
  | .resolving _ _ => false

/-- A client inserts an entry when there is none. -/
def Client.inserts : Client → Bool
  | .lookup _ => true
  | .recv _ mine => mine
  | .get => false

end Arp

/-- The table, and the threads that are suspended between two messages. -/
structure SharedArp where
  arp : Arp
  busy : List (Int × Arp.Suspension) := []

namespace SharedArp

open Tcp (NetAddr)
open Arp

/-- Where a thread is suspended. -/
def suspension (s : SharedArp) (t : Int) : Option Suspension :=
  (s.busy.find? fun x => x.1 = t).map Prod.snd

/-- What can happen. -/
inductive Step
  /-- a thread calls `arpLookup` -/
  | call (t : Int) (praddr : NetAddr)
  /-- a thread goes on, behind a message or in `arpLookup` -/
  | go (t : Int) (sent : Bool)
  /-- a thread calls `arpRecv` -/
  | recv (t : Int) (spa sha : NetAddr) (mine : Bool)
  /-- a thread calls `arpGetEntry` -/
  | get (t : Int) (praddr : NetAddr)
  | tick
  | message (t msg : Int)
  | create (t : Int)
  | kill (t : Int)

/-- A scan in a step: the thread, on whose behalf and for which address it scans, and the result. -/
structure Scan where
  t : Int
  c : Client
  praddr : NetAddr
  result : Arp × Outcome

/-- The scan in a step: a new one, or the rest of one behind the entry that is being freed. -/
def scanOf (s : SharedArp) : Step → Option Scan
  | .go t _ =>
    match s.suspension t with
    | some (.freeing c praddr i j) =>
      let r := s.arp.notifyNext i j TIMEOUT
      if r.2 then none
      else some ⟨t, c, praddr,
        scanFrom praddr (ARP_NENTRY - (i + 1)) (i + 1) (r.1.modEntry i fun _ => {})⟩
    | some (.resolving _ _) => none
    | none =>
      match (s.arp.thr t).place with
      | .head lookups =>
        if lookups < ARP_MAX_LOOKUP then
          some ⟨t, .lookup (lookups + 1), (s.arp.thr t).praddr,
            scanFrom (s.arp.thr t).praddr ARP_NENTRY 0 s.arp⟩
        else none
      | _ => none
  | .recv t spa sha mine => some ⟨t, .recv sha mine, spa, scanFrom spa ARP_NENTRY 0 s.arp⟩
  | .get t praddr => some ⟨t, .get, praddr, scanFrom praddr ARP_NENTRY 0 s.arp⟩
  | _ => none

/-- A thread is suspended, or not any more. -/
def settle (s : SharedArp) (t : Int) (r : Arp × Option Suspension) : SharedArp :=
  ⟨r.1, (r.2.map fun x => (t, x)).toList ++ s.busy.filter fun x => x.1 ≠ t⟩

/-- The end of a scan. -/
def complete (s : SharedArp) (x : Scan) : SharedArp :=
  match x.result with
  | (a, .found entry) => s.settle x.t (a.finish x.t x.c x.praddr entry)
  | (a, .sent i) => s.settle x.t (a, some (.freeing x.c x.praddr i 1))

/-- A thread goes on without scanning the table. -/
def proceed (s : SharedArp) (t : Int) (sent : Bool) : SharedArp :=
  match s.suspension t with
  | some (.freeing c praddr i j) =>
    s.settle t ((s.arp.notifyNext i j TIMEOUT).1, some (.freeing c praddr i (j + 1)))
  | some (.resolving i j) =>
    let r := s.arp.notifyNext i j ARP_MSG_RESOLVED
    s.settle t (r.1, if r.2 then some (.resolving i (j + 1)) else none)
  | none => { s with arp := s.arp.lookup t sent }

/-- One step. The end of the time that a thread waits is a step of its own, which may come at any
second, so that these are more runs than those of the code. -/
def step (s : SharedArp) (x : Step) : SharedArp :=
  match s.scanOf x with
  | some scan => s.complete scan
  | none =>
    match x with
    | .go t sent => s.proceed t sent
    | .call t praddr => { s with arp := s.arp.step (.call t praddr) }
    | .tick => { s with arp := s.arp.step .tick }
    | .message t msg => { s with arp := s.arp.step (.message t msg) }
    | .create t => { s with arp := s.arp.step (.create t) }
    | .kill t => ⟨s.arp.step (.kill t), s.busy.filter fun x => x.1 ≠ t⟩
    | .recv _ _ _ _ | .get _ _ => s

/-- A thread is outside of these functions. -/
def Outside (s : SharedArp) (t : Int) : Prop :=
  (s.arp.thr t).live = true ∧ (s.arp.thr t).place.outside = true ∧ s.suspension t = none
deriving Decidable

def Enabled (s : SharedArp) : Step → Prop
  | .call t _ | .recv t _ _ _ | .get t _ => s.Outside t
  | .go t _ => (s.arp.thr t).live = true
  | .create t => (s.arp.thr t).live = false
  | _ => True

instance (s : SharedArp) : ∀ x : Step, Decidable (s.Enabled x) := by
  rintro ⟨⟩ <;> unfold SharedArp.Enabled <;> infer_instance

/-- An empty table, and no thread. -/
def start : SharedArp := ⟨Arp.start, []⟩

/-- The step inserts an entry. -/
def Inserts (s : SharedArp) (x : Step) : Prop :=
  ∃ scan ∈ s.scanOf x, scan.result.2 = .found none ∧ scan.c.inserts = true
deriving Decidable

/-- The thread of a step. -/
def Step.thread : Step → Int
  | .call t _ | .go t _ | .recv t _ _ _ | .get t _ | .message t _ | .create t | .kill t => t
  | .tick => 0

/-- An entry is inserted only while no other thread is suspended in a scan. -/
def Alone (s : SharedArp) (x : Step) : Prop :=
  s.Inserts x → ∀ y ∈ s.busy, y.1 ≠ x.thread → y.2.scans = false
deriving Decidable

end SharedArp

/-- The table with any number of threads. -/
def sharedMachine : Machine SharedArp SharedArp.Step where
  enabled := SharedArp.Enabled
  next := SharedArp.step

instance (s : SharedArp) (x : SharedArp.Step) : Decidable (sharedMachine.enabled s x) :=
  inferInstanceAs (Decidable (s.Enabled x))

/-- The machine in which no entry is inserted behind the back of a scan. -/
def aloneMachine : Machine SharedArp SharedArp.Step := sharedMachine.restrict SharedArp.Alone

instance (s : SharedArp) (x : SharedArp.Step) : Decidable (aloneMachine.enabled s x) :=
  inferInstanceAs (Decidable (s.Enabled x ∧ s.Alone x))

/-! ## What becomes of the entries -/

namespace Arp

open Tcp (NetAddr)

/-- An entry is `ARP_RESOLVED` or `ARP_UNRESOLVED`. -/
def Used (a : Arp) (k : Nat) : Prop := (a.arptab k).state ≠ .free

/-- Entries may be freed, but none is made, and no entry changes its address. -/
def Shrinks (a a' : Arp) : Prop :=
  ∀ k, a'.Used k → a.Used k ∧ (a'.arptab k).praddr = (a.arptab k).praddr

theorem Shrinks.refl (a : Arp) : a.Shrinks a := fun _ h => ⟨h, rfl⟩

theorem Shrinks.trans {a b c : Arp} (h : a.Shrinks b) (h' : b.Shrinks c) : a.Shrinks c := by
  intro k hk
  obtain ⟨hb, hp⟩ := h' k hk
  obtain ⟨ha, hp'⟩ := h k hb
  exact ⟨ha, hp.trans hp'⟩

variable {a a' b : Arp} {i m : Nat}

theorem shrinks_of_arptab (h : a'.arptab = a.arptab) : a.Shrinks a' := by
  intro k hk
  unfold Used at *
  rw [h] at *
  exact ⟨hk, rfl⟩

/-- Writing into an entry neither makes it nor changes its address. -/
theorem shrinks_modEntry (a : Arp) (i : Nat) {f : ArpEntry → ArpEntry}
    (hstate : (a.arptab i).state = .free → (f (a.arptab i)).state = .free)
    (hpraddr : (f (a.arptab i)).praddr = (a.arptab i).praddr ∨
      (f (a.arptab i)).state = .free) : a.Shrinks (a.modEntry i f) := by
  intro k hk
  unfold Used modEntry store at *
  dsimp only at *
  by_cases hki : k = i
  · subst hki
    rw [if_pos rfl] at hk ⊢
    exact ⟨fun hfree => hk (hstate hfree), hpraddr.resolve_right hk⟩
  · rw [if_neg hki] at hk ⊢
    exact ⟨hk, rfl⟩

theorem shrinks_clear (a : Arp) (i : Nat) : a.Shrinks (a.modEntry i fun _ => {}) :=
  a.shrinks_modEntry i (fun _ => rfl) (.inr rfl)

theorem not_used_clear (a : Arp) (i : Nat) : ¬ (a.modEntry i fun _ => {}).Used i := by
  simp [Used, modEntry, store]

theorem shrinks_notifyNext (a : Arp) (i j : Nat) (msg : Int) :
    a.Shrinks (a.notifyNext i j msg).1 := by
  unfold notifyNext
  split
  · change a.Shrinks (a.modEntry i fun e => { e with waiting := [] })
    exact a.shrinks_modEntry i id (.inl rfl)
  · dsimp only
    split <;> exact shrinks_of_arptab (arptab_send _ _ _)

/-- What a scan has seen: the entries from `i` up to `m` do not have the address. -/
def Without (a : Arp) (praddr : NetAddr) (i m : Nat) : Prop :=
  ∀ k, i ≤ k → k < m → a.Used k → (a.arptab k).praddr ≠ praddr

variable {praddr : NetAddr}

theorem Without.shrinks (h : a.Without praddr i m)
    (hs : a.Shrinks a') : a'.Without praddr i m := by
  intro k hik hkm hk
  obtain ⟨hk', hp⟩ := hs k hk
  rw [hp]
  exact h k hik hkm hk'

/-- What a scan leaves behind. -/
structure Scanned (praddr : NetAddr) (i m : Nat) (a a' : Arp) (out : Outcome) : Prop where
  shrinks : a.Shrinks a'
  some : ∀ k, out = .found (some k) → k < m ∧ a'.Used k ∧ (a'.arptab k).praddr = praddr
  none : out = .found none → a'.Without praddr i m
  sent : ∀ k, out = .sent k → k < m ∧ a'.Without praddr i k

/-- A scan goes on where an earlier part has seen no entry with the address. -/
theorem Scanned.extend {j : Nat} {out : Outcome}
    (h : Scanned praddr j m b a' out) (hs : a.Shrinks b) (hw : b.Without praddr i j) :
    Scanned praddr i m a a' out := by
  -- what the first part has seen is still so at the end of the second
  have hfrom : ∀ n, a'.Without praddr j n → a'.Without praddr i n := by
    intro n hw' k hik hkn hk
    by_cases hkj : k < j
    · exact hw.shrinks h.shrinks k hik hkj hk
    · exact hw' k (by omega) hkn hk
  exact
    { shrinks := hs.trans h.shrinks
      some := h.some
      none := fun ho => hfrom m (h.none ho)
      sent := fun k ho => ⟨(h.sent k ho).1, hfrom k (h.sent k ho).2⟩ }

theorem Scanned.cons {out : Outcome} (h : Scanned praddr (i + 1) m b a' out) (hs : a.Shrinks b)
    (hi : b.Used i → (b.arptab i).praddr ≠ praddr) : Scanned praddr i m a a' out := by
  refine h.extend hs ?_
  intro k hik hk
  obtain rfl : k = i := by omega
  exact hi

/-- **What a scan returns**: an entry that has the address, or that there is none in what it has
seen. Entries are freed on the way, and no other entry is touched. -/
theorem scanFrom_spec (praddr : NetAddr) (n i : Nat) (a : Arp) :
    Scanned praddr i (i + n) a (scanFrom praddr n i a).1 (scanFrom praddr n i a).2 := by
  induction n generalizing i a with
  | zero =>
    exact
      { shrinks := Shrinks.refl a
        some := fun k h => by simp [scanFrom] at h
        none := fun _ k h h' => absurd h (by omega)
        sent := fun k h => by simp [scanFrom] at h }
  | succ n ih =>
    have hn : i + (n + 1) = i + 1 + n := by omega
    rw [hn, scanFrom]
    by_cases hfree : (a.arptab i).state = .free
    · rw [if_pos hfree]
      exact (ih (i + 1) a).cons (Shrinks.refl a) fun hu => absurd hfree hu
    rw [if_neg hfree]
    by_cases hexp : (a.arptab i).expires < a.clktime
    · rw [if_pos hexp]
      by_cases hun : (a.arptab i).state = .unresolved
      · rw [if_pos hun]
        by_cases hsent : (a.notifyNext i 0 TIMEOUT).2 = true
        · rw [if_pos hsent]
          exact
            { shrinks := a.shrinks_notifyNext i 0 TIMEOUT
              some := fun k h => by simp at h
              none := fun h => by simp at h
              sent := by
                intro k h
                obtain rfl : i = k := by simpa using h
                exact ⟨by omega, fun k h h' => absurd h (by omega)⟩ }
        · rw [if_neg hsent]
          exact (ih (i + 1) _).cons ((a.shrinks_notifyNext i 0 TIMEOUT).trans (shrinks_clear _ i))
            fun hu => absurd hu (not_used_clear _ i)
      · rw [if_neg hun]
        exact (ih (i + 1) _).cons (a.shrinks_clear i) fun hu => absurd hu (not_used_clear _ i)
    · rw [if_neg hexp]
      by_cases heq : (a.arptab i).praddr = praddr
      · rw [if_pos heq]
        exact
          { shrinks := Shrinks.refl a
            some := by
              intro k h
              obtain rfl : i = k := by simpa using h
              exact ⟨by omega, hfree, heq⟩
            none := fun h => by simp at h
            sent := fun k h => by simp at h }
      · rw [if_neg heq]
        exact (ih (i + 1) a).cons (Shrinks.refl a) fun _ => heq

/-! ## Inserting an entry -/

/-- An entry is made for an address, or none is. -/
def Grows (a a' : Arp) (praddr : NetAddr) : Prop :=
  ∃ m, ∀ k, a'.Used k → (k = m ∧ (a'.arptab k).praddr = praddr) ∨
    (a.Used k ∧ (a'.arptab k).praddr = (a.arptab k).praddr)

theorem Shrinks.grows (h : a.Shrinks a') (praddr : NetAddr) : a.Grows a' praddr :=
  ⟨0, fun k hk => .inr (h k hk)⟩

theorem Grows.shrinks {a'' : Arp} (h : a.Grows a' praddr)
    (hs : a'.Shrinks a'') : a.Grows a'' praddr := by
  obtain ⟨m, hm⟩ := h
  refine ⟨m, fun k hk => ?_⟩
  obtain ⟨hk', hp⟩ := hs k hk
  rw [hp]
  exact hm k hk'

theorem arptab_goto (a : Arp) (t : Int) (p : Place) : (a.goto t p).arptab = a.arptab := rfl

/-- The entry that is allocated is the only one that changes. -/
theorem arpAlloc_grows (h : a.arpAlloc = (a', some i))
    {f : ArpEntry → ArpEntry} (hf : ∀ e, (f e).praddr = praddr) :
    a.Grows (a'.modEntry i f) praddr := by
  have hother := (Elsewhere.arpAlloc h).entry
  refine ⟨i, fun k hk => ?_⟩
  by_cases hki : k = i
  · left
    refine ⟨hki, ?_⟩
    subst hki
    simp only [modEntry, store, if_true]
    exact hf _
  · right
    have htab : (a'.modEntry i f).arptab k = a.arptab k := by
      simp only [modEntry, store, if_neg hki]
      exact hother k hki
    unfold Used at *
    rw [htab] at hk ⊢
    exact ⟨hk, rfl⟩

theorem shrinks_enqueue (a : Arp) (t : Int) (lookups i : Nat) :
    a.Shrinks (a.enqueue t lookups i) := by
  unfold enqueue
  dsimp only
  split
  · exact shrinks_of_arptab rfl
  · split
    · exact shrinks_of_arptab rfl
    · refine Shrinks.trans ?_ (shrinks_of_arptab (arptab_goto _ _ _))
      exact a.shrinks_modEntry i id (.inl rfl)

theorem finish_shrinks (a : Arp) (t : Int) (c : Client) (praddr : NetAddr) (entry : Option Nat)
    (h : entry ≠ none ∨ c.inserts = false) : a.Shrinks (a.finish t c praddr entry).1 := by
  cases c with
  | get => exact Shrinks.refl a
  | lookup lookups =>
    cases entry with
    | none => simp [Client.inserts] at h
    | some i => exact a.shrinks_enqueue t lookups i
  | recv sha mine =>
    cases entry with
    | none =>
      have hmine : mine = false := by simpa [Client.inserts] using h
      subst hmine
      exact Shrinks.refl a
    | some i =>
      unfold finish
      dsimp only
      have hfirst : a.Shrinks (a.modEntry i fun e =>
          { e with hwaddr := sha, expires := add32 a.clktime ARP_TTL_RESOLVED }) :=
        a.shrinks_modEntry i id (.inl rfl)
      split
      · rename_i hun
        refine hfirst.trans (Shrinks.trans ?_ (shrinks_notifyNext _ i 0 ARP_MSG_RESOLVED))
        refine shrinks_modEntry _ i (fun hfree => ?_) (.inl rfl)
        rw [hun] at hfree
        simp at hfree
      · exact hfirst

/-- At most one entry is made, and for the address of the scan. -/
theorem finish_grows (a : Arp) (t : Int) (c : Client) (praddr : NetAddr) (entry : Option Nat) :
    a.Grows (a.finish t c praddr entry).1 praddr := by
  by_cases h : entry ≠ none ∨ c.inserts = false
  · exact (a.finish_shrinks t c praddr entry h).grows praddr
  obtain ⟨rfl, hc⟩ : entry = none ∧ c.inserts = true := by
    rw [not_or, not_not, Bool.not_eq_false] at h
    exact h
  cases c with
  | get => simp [Client.inserts] at hc
  | lookup lookups =>
    unfold finish
    rcases halloc : a.arpAlloc with ⟨a', _ | i⟩
    · obtain rfl := arpAlloc_none halloc
      exact (shrinks_of_arptab rfl).grows praddr
    · exact (arpAlloc_grows halloc fun _ => rfl).shrinks (shrinks_enqueue _ t lookups i)
  | recv sha mine =>
    obtain rfl : mine = true := hc
    unfold finish
    rcases halloc : a.arpAlloc with ⟨a', _ | i⟩
    · obtain rfl := arpAlloc_none halloc
      exact (Shrinks.refl _).grows praddr
    · exact arpAlloc_grows halloc fun _ => rfl

/-- There is at most one entry for an address. -/
def Unique (a : Arp) : Prop :=
  ∀ i j, i < ARP_NENTRY → j < ARP_NENTRY → a.Used i → a.Used j →
    (a.arptab i).praddr = (a.arptab j).praddr → i = j

theorem Unique.shrinks (h : a.Unique) (hs : a.Shrinks a') : a'.Unique := by
  intro i j hi hj hui huj heq
  obtain ⟨hai, hpi⟩ := hs i hui
  obtain ⟨haj, hpj⟩ := hs j huj
  rw [hpi, hpj] at heq
  exact h i j hi hj hai haj heq

/-- An entry may be made for an address that no entry has. -/
theorem Unique.grows (h : a.Unique)
    (hw : a.Without praddr 0 ARP_NENTRY) (hg : a.Grows a' praddr) : a'.Unique := by
  obtain ⟨m, hm⟩ := hg
  intro i j hi hj hui huj heq
  rcases hm i hui with ⟨rfl, hpi⟩ | ⟨hai, hpi⟩
  · rcases hm j huj with ⟨rfl, -⟩ | ⟨haj, hpj⟩
    · rfl
    · exact absurd (by rw [← hpj, ← heq, hpi]) (hw j (Nat.zero_le j) hj haj)
  · rcases hm j huj with ⟨rfl, hpj⟩ | ⟨haj, hpj⟩
    · exact absurd (by rw [← hpi, heq, hpj]) (hw i (Nat.zero_le i) hi hai)
    · rw [hpi, hpj] at heq
      exact h i j hi hj hai haj heq

/-- A thread that is suspended in a scan has seen no entry with the address. -/
def Behind (a : Arp) (x : Suspension) : Prop :=
  ∀ c praddr i j, x = .freeing c praddr i j → i < ARP_NENTRY ∧ a.Without praddr 0 i

variable {x : Suspension}

theorem Behind.shrinks (h : a.Behind x) (hs : a.Shrinks a') : a'.Behind x := by
  intro c praddr i j hx
  obtain ⟨hi, hw⟩ := h c praddr i j hx
  exact ⟨hi, hw.shrinks hs⟩

theorem behind_of_not_scans (a : Arp) (h : x.scans = false) : a.Behind x := by
  intro c praddr i j hx
  subst hx
  simp [Suspension.scans] at h

/-- Behind its scan a thread is not suspended in one. -/
theorem finish_not_scans {t : Int} {c : Client} {entry : Option Nat}
    (h : (a.finish t c praddr entry).2 = some x) : x.scans = false := by
  cases c with
  | get => simp [finish] at h
  | lookup lookups =>
    cases entry with
    | some i => simp [finish] at h
    | none =>
      unfold finish at h
      dsimp only at h
      split at h <;> simp at h
  | recv sha mine =>
    cases entry with
    | some i =>
      unfold finish at h
      dsimp only at h
      split at h
      · split at h
        · cases h
          rfl
        · simp at h
      · simp at h
    | none =>
      unfold finish at h
      dsimp only at h
      split at h
      · split at h <;> simp at h
      · simp at h

end Arp

/-! ## Any interleaving -/

namespace SharedArp

open Tcp (NetAddr)
open Arp

/-- The addresses are unique, and what suspended scans have seen is still so. -/
structure Sound (s : SharedArp) : Prop where
  unique : s.arp.Unique
  behind : ∀ x ∈ s.busy, s.arp.Behind x.2

variable {s : SharedArp} {t : Int}

theorem mem_of_suspension {x : Suspension} (h : s.suspension t = some x) : (t, x) ∈ s.busy := by
  unfold suspension at h
  rw [Option.map_eq_some_iff] at h
  obtain ⟨y, hy, rfl⟩ := h
  have ht : y.1 = t := by simpa using List.find?_some hy
  rw [← ht]
  exact List.mem_of_find?_eq_some hy

theorem Sound.shrinks {s s' : SharedArp} (h : s.Sound) (hs : s.arp.Shrinks s'.arp)
    (hb : ∀ x ∈ s'.busy, x ∈ s.busy ∨ s'.arp.Behind x.2) : s'.Sound where
  unique := h.unique.shrinks hs
  behind := by
    intro x hx
    rcases hb x hx with hold | hnew
    · exact (h.behind x hold).shrinks hs
    · exact hnew

theorem mem_busy_settle {r : Arp × Option Suspension}
    {x : Int × Suspension} (h : x ∈ (s.settle t r).busy) :
    r.2 = some x.2 ∨ (x ∈ s.busy ∧ x.1 ≠ t) := by
  rcases List.mem_append.mp h with h | h
  · left
    rw [Option.mem_toList, Option.map_eq_some_iff] at h
    obtain ⟨y, hy, rfl⟩ := h
    exact hy
  · right
    simpa using h

theorem Sound.settle (h : s.Sound) {r : Arp × Option Suspension}
    (hs : s.arp.Shrinks r.1) (hr : ∀ x, r.2 = some x → r.1.Behind x) : (s.settle t r).Sound := by
  refine h.shrinks hs ?_
  intro x hx
  rcases mem_busy_settle hx with hnew | hold
  · exact .inr (hr x.2 hnew)
  · exact .inl hold.1

variable {x : Step} {scan : Scan}

/-- **A scan returns only an entry that has the address**, whatever happened before it. -/
theorem scanOf_found (hscan : s.scanOf x = some scan)
    {k : Nat} (hfound : scan.result.2 = .found (some k)) :
    k < ARP_NENTRY ∧ scan.result.1.Used k ∧ (scan.result.1.arptab k).praddr = scan.praddr := by
  have hpart : ∀ praddr i b, (scanFrom praddr (ARP_NENTRY - i) i b).2 = .found (some k) →
      k < ARP_NENTRY ∧ (scanFrom praddr (ARP_NENTRY - i) i b).1.Used k ∧
        ((scanFrom praddr (ARP_NENTRY - i) i b).1.arptab k).praddr = praddr := by
    intro praddr i b hout
    by_cases hi : i ≤ ARP_NENTRY
    · have hspec := (scanFrom_spec praddr (ARP_NENTRY - i) i b).some k hout
      rwa [Nat.add_sub_cancel' hi] at hspec
    · rw [Nat.sub_eq_zero_of_le (Nat.le_of_not_le hi)] at hout
      simp [scanFrom] at hout
  cases x with
  | recv t spa sha mine =>
    cases hscan
    exact hpart spa 0 s.arp hfound
  | get t praddr =>
    cases hscan
    exact hpart praddr 0 s.arp hfound
  | go t sent =>
    unfold scanOf at hscan
    dsimp only at hscan
    split at hscan
    case h_1 c praddr i j hsusp =>
      split at hscan
      · simp at hscan
      cases hscan
      exact hpart praddr (i + 1) _ hfound
    case h_2 => simp at hscan
    case h_3 =>
      split at hscan
      · split at hscan
        · cases hscan
          exact hpart _ 0 s.arp hfound
        · simp at hscan
      · simp at hscan
  | _ => simp [scanOf] at hscan

/-- **What the scan in a step has seen.** A scan that goes on behind an entry which is being freed
has seen the entries before it earlier, and there is still no entry with the address among them. -/
theorem Sound.scanned (h : s.Sound) (hscan : s.scanOf x = some scan) :
    scan.t = x.thread ∧
      Scanned scan.praddr 0 ARP_NENTRY s.arp scan.result.1 scan.result.2 := by
  have hwhole : ∀ praddr, Scanned praddr 0 ARP_NENTRY s.arp
      (scanFrom praddr ARP_NENTRY 0 s.arp).1 (scanFrom praddr ARP_NENTRY 0 s.arp).2 := by
    intro praddr
    have := scanFrom_spec praddr ARP_NENTRY 0 s.arp
    rwa [zero_add] at this
  cases x with
  | recv t spa sha mine =>
    cases hscan
    exact ⟨rfl, hwhole spa⟩
  | get t praddr =>
    cases hscan
    exact ⟨rfl, hwhole praddr⟩
  | go t sent =>
    unfold scanOf at hscan
    dsimp only at hscan
    split at hscan
    case h_1 c praddr i j hsusp =>
      split at hscan
      · simp at hscan
      cases hscan
      refine ⟨rfl, ?_⟩
      obtain ⟨hi, hw⟩ := h.behind _ (mem_of_suspension hsusp) c praddr i j rfl
      have hclear := (s.arp.shrinks_notifyNext i j TIMEOUT).trans
        (shrinks_clear (s.arp.notifyNext i j TIMEOUT).1 i)
      have hrest := scanFrom_spec praddr (ARP_NENTRY - (i + 1)) (i + 1)
        ((s.arp.notifyNext i j TIMEOUT).1.modEntry i fun _ => {})
      rw [show i + 1 + (ARP_NENTRY - (i + 1)) = ARP_NENTRY by omega] at hrest
      refine hrest.extend hclear ?_
      -- the entries before `i` were seen, and `i` is free now
      intro k _ hk hu
      rcases Nat.lt_succ_iff_lt_or_eq.mp hk with hlt | rfl
      · exact hw.shrinks hclear k (Nat.zero_le k) hlt hu
      · exact absurd hu (not_used_clear _ k)
    case h_2 => simp at hscan
    case h_3 =>
      split at hscan
      · split at hscan
        · cases hscan
          exact ⟨rfl, hwhole _⟩
        · simp at hscan
      · simp at hscan
  | _ => simp [scanOf] at hscan

/-- The end of a scan keeps the addresses unique, unless an entry is made behind the back of another
scan. -/
theorem Sound.complete (h : s.Sound)
    (hscan : s.scanOf x = some scan) (halone : s.Alone x) : (s.complete scan).Sound := by
  obtain ⟨ht, hspec⟩ := h.scanned hscan
  unfold SharedArp.complete
  rcases hr : scan.result with ⟨a, entry | i⟩
  case found =>
    rw [hr] at hspec
    by_cases hins : entry = none ∧ scan.c.inserts = true
    · obtain ⟨rfl, hc⟩ := hins
      have hother := halone ⟨scan, hscan, by rw [hr], hc⟩
      constructor
      · exact (h.unique.shrinks hspec.shrinks).grows (hspec.none rfl)
          (a.finish_grows scan.t scan.c scan.praddr none)
      · intro y hy
        refine behind_of_not_scans _ ?_
        rcases mem_busy_settle hy with hnew | ⟨hold, hne⟩
        · exact finish_not_scans hnew
        · exact hother y hold (by rwa [← ht])
    · refine h.settle (hspec.shrinks.trans (a.finish_shrinks scan.t scan.c scan.praddr entry ?_)) ?_
      · rw [not_and_or, Bool.not_eq_true] at hins
        exact hins
      · intro y hy
        exact behind_of_not_scans _ (finish_not_scans hy)
  case sent =>
    rw [hr] at hspec
    refine h.settle hspec.shrinks ?_
    intro y hy
    cases hy
    intro c praddr i' j heq
    obtain ⟨-, rfl, rfl, -⟩ := Suspension.freeing.inj heq
    exact hspec.sent i rfl

theorem Sound.proceed (h : s.Sound) {sent : Bool}
    (hscan : s.scanOf (.go t sent) = none) : (s.proceed t sent).Sound := by
  unfold SharedArp.proceed
  split
  case h_1 c praddr i j hsusp =>
    have hs := s.arp.shrinks_notifyNext i j TIMEOUT
    refine h.settle hs ?_
    intro y hy
    cases hy
    intro c' praddr' i' j' heq
    obtain ⟨-, rfl, rfl, -⟩ := Suspension.freeing.inj heq
    exact (h.behind _ (mem_of_suspension hsusp)).shrinks hs c praddr i j rfl
  case h_2 i j hsusp =>
    refine h.settle (s.arp.shrinks_notifyNext i j ARP_MSG_RESOLVED) ?_
    intro y hy
    split at hy
    · cases hy
      exact behind_of_not_scans _ rfl
    · simp at hy
  case h_3 hsusp =>
    refine h.shrinks (shrinks_of_arptab (lookup_table _ ?_).1) fun x hx => .inl hx
    intro lookups hlt hplace
    simp [scanOf, hsusp, hplace, hlt] at hscan

/-- **The step lemma.** -/
theorem Sound.step (h : s.Sound) (halone : s.Alone x) : (s.step x).Sound := by
  unfold SharedArp.step
  split
  case h_1 scan hscan => exact h.complete hscan halone
  case h_2 hscan =>
    cases x with
    | go t sent => exact h.proceed hscan
    | message t msg =>
      exact h.shrinks (shrinks_of_arptab (arptab_send s.arp t msg)) fun x hx => .inl hx
    | kill t =>
      refine h.shrinks (shrinks_of_arptab rfl) ?_
      intro x hx
      exact .inl (List.mem_of_mem_filter hx)
    | recv t spa sha mine => exact h
    | get t praddr => exact h
    | _ => exact h.shrinks (shrinks_of_arptab rfl) fun x hx => .inl hx

theorem sound_start : start.Sound where
  unique := fun _ _ _ _ hu => absurd rfl hu
  behind := fun _ hx => absurd hx List.not_mem_nil

end SharedArp

/-- An invariant of every run in which no entry is made behind the back of a scan. -/
theorem aloneMachine_sound {l : List SharedArp.Step} {s : SharedArp}
    (r : aloneMachine.Run SharedArp.start l s) : s.Sound := by
  have hstep : ∀ s x, SharedArp.Sound s → aloneMachine.enabled s x →
      (aloneMachine.next s x).Sound := by
    intro s x hs hx
    exact hs.step hx.2
  exact r.invariant hstep SharedArp.sound_start

/-- **The cache is a partial function.** In every interleaving in which no thread inserts an entry
while another is suspended in a scan, there is at most one entry for an address; and every scan of
`arpGetEntry` returns only an entry that has the address at that moment. -/
theorem arp_cache_is_function {l : List SharedArp.Step} {s : SharedArp}
    (r : aloneMachine.Run SharedArp.start l s) :
    (∀ i j, i < Arp.ARP_NENTRY → j < Arp.ARP_NENTRY → s.arp.Used i → s.arp.Used j →
        (s.arp.arptab i).praddr = (s.arp.arptab j).praddr → i = j) ∧
      ∀ x scan k, s.scanOf x = some scan → scan.result.2 = .found (some k) →
        k < Arp.ARP_NENTRY ∧ scan.result.1.Used k ∧
          (scan.result.1.arptab k).praddr = scan.praddr :=
  ⟨(aloneMachine_sound r).unique, fun _ _ _ hscan hfound => SharedArp.scanOf_found hscan hfound⟩

namespace SharedArp

/-- Three threads, and two entries that have expired: the first with a dead thread in its list, the
second with a thread that is still in `recvtime`, since a second has passed between its insertion of
the entry and the call. -/
def expired : List Step :=
  [.create 1, .create 2, .create 3, .call 3 ⟨1, [10]⟩, .go 3 true, .kill 3, .tick, .tick, .tick,
   .call 2 ⟨1, [20]⟩, .go 2 true, .tick, .go 2 true, .go 2 true, .go 2 true,
   .tick, .tick, .tick, .tick, .tick]

/-- Thread 1 looks up an address, and thread 2 does when thread 1 has sent it a message. -/
def lateInsert : List Step :=
  expired ++
    [.call 1 ⟨1, [30]⟩, .go 1 true, .go 2 true, .call 2 ⟨1, [30]⟩, .go 2 true, .go 2 true,
     .go 1 true]

/-- The same, but thread 1 goes on before thread 2 does. -/
def promptInsert : List Step :=
  expired ++ [.call 1 ⟨1, [30]⟩, .go 1 true, .go 1 true, .go 2 true, .call 2 ⟨1, [30]⟩, .go 2 true]

end SharedArp

theorem arp_cache_is_function_prompt :
    ∃ s, aloneMachine.Run SharedArp.start SharedArp.promptInsert s ∧ s.arp.Used 0 ∧
      ((∀ i j, i < Arp.ARP_NENTRY → j < Arp.ARP_NENTRY → s.arp.Used i → s.arp.Used j →
        (s.arp.arptab i).praddr = (s.arp.arptab j).praddr → i = j) ∧
      ∀ x scan k, s.scanOf x = some scan → scan.result.2 = .found (some k) →
        k < Arp.ARP_NENTRY ∧ scan.result.1.Used k ∧
          (scan.result.1.arptab k).praddr = scan.praddr) := by
  have hrun : aloneMachine.Run SharedArp.start SharedArp.promptInsert
      (aloneMachine.after SharedArp.start SharedArp.promptInsert) :=
    Machine.run_after
  refine ⟨_, hrun, ?_, arp_cache_is_function hrun⟩
  unfold Arp.Used
  decide

/-- **Two entries for one address.** Thread 1 frees the expired entry 1 in its scan and is suspended
there; thread 2 gets the message, looks up the same address and takes entry 0, which thread 1 has
passed. Then thread 1 takes entry 1. -/
theorem insert_behind_scan_duplicates :
    ∃ s, sharedMachine.Run SharedArp.start SharedArp.lateInsert s ∧
      s.arp.Used 0 ∧ s.arp.Used 1 ∧ (s.arp.arptab 0).praddr = ⟨1, [30]⟩ ∧
        (s.arp.arptab 1).praddr = ⟨1, [30]⟩ := by
  refine ⟨_, Machine.run_after, ?_⟩
  unfold Arp.Used
  decide

end Xinu
