import Xinu.Arp.Notify

/-!
# Wakeups

A thread in `arpLookup` puts itself on the list of the entry, sends the request, clears its messages
and waits for one. A reply that is processed before it has cleared them leaves it without its
message: it waits until its time is up, and fails although the entry is resolved. If the reply comes
later, the thread gets its message and looks again. What others do until then keeps the entry,
unless it times out or is taken for another address; so it is found, and the thread returns the
address.

## Main results

* `getLoop_spec`: what the loop of `arpGetEntry` finds and frees
* `Held.get`: an entry that is held is found
* `OnTrack.step`: every step keeps the thread on its way, and its entry held
* `arp_lookup_answered`: a thread whose entry is resolved returns the address
-/

namespace Xinu

namespace Arp

open Tcp (NetAddr)

variable {a a' : Arp} {n : Nat} {t : Int}

/-- The lookups so far of a thread that waits for a message, with its old ones cleared. -/
def Place.awaits : Place → Option Nat
  | .recv n ttl => if 0 ≤ ttl then some n else none
  | .waiting n => some n
  | _ => none

/-- The thread is on its way to return the address. -/
def Woken (e : Thr) : Prop :=
  (∃ n ∈ e.place.awaits, n < ARP_MAX_LOOKUP ∧ e.hasmsg = true ∧ e.msg = ARP_MSG_RESOLVED) ∨
    (∃ n < ARP_MAX_LOOKUP, e.place = .head n) ∨ ∃ hw, e.place = .done (some hw)

/-! ## What others do to a thread -/

/-- A thread is left alone, except that it may get a message if it has none. -/
def Touched (e e' : Thr) : Prop := e' = e ∨ e.hasmsg = false ∧ ∃ msg, e' = deposit msg e

/-- What a part of the code does to the threads, all of them or all but one. -/
structure Touches (P : Int → Prop) (a a' : Arp) : Prop where
  resolved : a'.resolved = a.resolved
  thr : ∀ t, P t → Touched (a.thr t) (a'.thr t)

namespace Touches

variable {P : Int → Prop} {a'' : Arp}

theorem refl (P : Int → Prop) (a : Arp) : Touches P a a := ⟨rfl, fun _ _ => .inl rfl⟩

theorem trans (h : Touches P a a') (h' : Touches P a' a'') : Touches P a a'' := by
  refine ⟨h'.resolved.trans h.resolved, fun t ht => ?_⟩
  rcases h.thr t ht with h₁ | ⟨h₁, msg, h₂⟩
  · rw [← h₁]
    exact h'.thr t ht
  · -- it has a message, so that it gets no second one
    rcases h'.thr t ht with h₃ | ⟨h₃, -⟩
    · exact .inr ⟨h₁, msg, h₃.trans h₂⟩
    · rw [h₂] at h₃
      exact absurd h₃ (by simp [deposit])

section

variable (P : Int → Prop)

theorem modEntry (a : Arp) (i : Nat) (f : ArpEntry → ArpEntry) :
    Touches P a (a.modEntry i f) := ⟨rfl, fun _ _ => .inl rfl⟩

theorem send (a : Arp) (t msg : Int) : Touches P a (a.send t msg).1 := by
  by_cases h : (a.thr t).live = true ∧ (a.thr t).hasmsg = false
  · rw [send_of_sendable h]
    refine ⟨rfl, fun t' _ => ?_⟩
    by_cases ht : t' = t
    · subst ht
      exact .inr ⟨h.2, msg, thr_modThr_self⟩
    · exact .inl (thr_modThr_of_ne ht)
  · rw [send_of_not_sendable h]
    exact .refl P a

theorem notifyLoop (msg : Int) (ws : List Int) (a : Arp) : Touches P a (notifyLoop msg ws a).1 := by
  induction ws generalizing a with
  | nil => exact .refl P a
  | cons w ws ih =>
    rw [Arp.notifyLoop]
    split_ifs
    · exact send P a w msg
    · exact (send P a w msg).trans (ih _)

theorem arpNotify (a : Arp) (i : Nat) (msg : Int) : Touches P a (a.arpNotify i msg).1 := by
  unfold Arp.arpNotify
  dsimp only
  split_ifs
  · exact notifyLoop P msg _ a
  · dsimp only
    exact (notifyLoop P msg _ a).trans (.modEntry ..)

theorem arpFree (a : Arp) (i : Nat) : Touches P a (a.arpFree i) := by
  unfold Arp.arpFree
  refine Touches.trans ?_ (.modEntry ..)
  split_ifs
  · exact arpNotify P a i TIMEOUT
  · exact .refl P a

theorem getLoop (praddr : NetAddr) (n i : Nat) (a : Arp) :
    Touches P a (getLoop praddr n i a).1 := by
  induction n generalizing i a with
  | zero => exact .refl P a
  | succ n ih =>
    rw [Arp.getLoop]
    split_ifs
    · exact ih _ _
    · exact (arpFree P a i).trans (ih _ _)
    · exact .refl P a
    · exact ih _ _

theorem arpGetEntry (a : Arp) (praddr : NetAddr) :
    Touches P a (a.arpGetEntry praddr).1 := getLoop P praddr ARP_NENTRY 0 a

theorem arpAlloc (a : Arp) : Touches P a a.arpAlloc.1 := by
  unfold Arp.arpAlloc
  split <;> dsimp only
  · exact .modEntry ..
  · exact .refl P a
  · exact .modEntry ..

end

section

variable (h : ¬ P t)
include h

theorem modThr (f : Thr → Thr) : Touches P a (a.modThr t f) :=
  ⟨rfl, fun _ ht' => .inl (thr_modThr_of_ne fun heq => h (heq ▸ ht'))⟩

theorem enqueue (lookups i : Nat) : Touches P a (a.enqueue t lookups i) := by
  unfold Arp.enqueue
  dsimp only
  split_ifs
  · exact modThr h _
  · exact modThr h _
  · exact (Touches.modEntry ..).trans (modThr h _)

theorem findEntry (lookups : Nat) : Touches P a (a.findEntry t lookups) := by
  unfold Arp.findEntry
  dsimp only
  have hget := arpGetEntry P a (a.thr t).praddr
  split
  · exact hget.trans (enqueue h ..)
  · have halloc := arpAlloc P (a.arpGetEntry (a.thr t).praddr).1
    split
    · rename_i heq
      rw [heq] at halloc
      exact (hget.trans halloc).trans (modThr h _)
    · rename_i heq
      rw [heq] at halloc
      exact ((hget.trans halloc).trans (.modEntry ..)).trans (enqueue h ..)

theorem answer (lookups : Nat) (msg : Int) : Touches P a (a.answer t lookups msg) := by
  unfold Arp.answer
  split_ifs <;> exact modThr h _

theorem recvtimeRest (lookups : Nat) : Touches P a (a.recvtimeRest t lookups) := by
  unfold Arp.recvtimeRest
  split_ifs
  · exact (modThr h _).trans (answer h ..)
  · exact answer h ..

theorem lookup (sent : Bool) : Touches P a (a.lookup t sent) := by
  unfold Arp.lookup
  cases (a.thr t).place with
  | idle | done => exact .refl P a
  | head lookups =>
    dsimp only
    split_ifs
    · exact findEntry h _
    · exact modThr h _
  | request lookups ttl =>
    split_ifs <;> exact modThr h _
  | clear lookups ttl => exact (modThr h _).trans (modThr h _)
  | recv lookups ttl =>
    dsimp only
    split_ifs
    · exact answer h ..
    · exact modThr h _
    · exact recvtimeRest h _
  | waiting lookups => exact recvtimeRest h _

end

end Touches

/-- A thread on its way is not held up by a message. -/
theorem Woken.touched {e e' : Thr} (h : Woken e) (ht : Touched e e') : Woken e' := by
  rcases ht with rfl | ⟨hno, msg, rfl⟩
  · exact h
  · rcases h with ⟨n, -, -, hmsg, -⟩ | h | h
    · exact absurd (hno.symm.trans hmsg) (by simp)
    · exact .inr (.inl h)
    · exact .inr (.inr h)

theorem Touched.same {e e' : Thr} (h : Touched e e') :
    e'.place = e.place ∧ e'.praddr = e.praddr := by
  rcases h with rfl | ⟨-, msg, rfl⟩ <;> exact ⟨rfl, rfl⟩

/-! ## The entry of an address -/

/-- The entries from `i` up to `m` that have the address have timed out. -/
def Stale (a : Arp) (praddr : NetAddr) (i m : Nat) : Prop :=
  ∀ k, i ≤ k → k < m → (a.arptab k).state ≠ .free → (a.arptab k).praddr = praddr →
    (a.arptab k).expires < a.clktime

/-- An entry for the address is resolved, has not timed out, and is the first such. -/
def Held (a : Arp) (praddr : NetAddr) : Prop :=
  ∃ i < ARP_NENTRY, (a.arptab i).state = .resolved ∧ (a.arptab i).praddr = praddr ∧
    a.clktime ≤ (a.arptab i).expires ∧ a.Stale praddr 0 i

variable {praddr q : NetAddr} {i m : Nat}

theorem entry_modEntry_of_ne {f : ArpEntry → ArpEntry} {k : Nat} (h : k ≠ i) :
    (a.modEntry i f).arptab k = a.arptab k := by
  unfold Arp.modEntry
  rw [store_eq_update]
  exact Function.update_of_ne h ..

theorem clktime_send (a : Arp) (t msg : Int) : (a.send t msg).1.clktime = a.clktime := by
  unfold Arp.send
  split_ifs <;> rfl

/-- What a part of the code does to the table apart from one entry, and to the clock. -/
structure Elsewhere (i : Nat) (a a' : Arp) : Prop where
  clktime : a'.clktime = a.clktime
  entry : ∀ k ≠ i, a'.arptab k = a.arptab k

namespace Elsewhere

variable {a'' : Arp}

theorem refl (i : Nat) (a : Arp) : Elsewhere i a a := ⟨rfl, fun _ _ => rfl⟩

theorem trans (h : Elsewhere i a a') (h' : Elsewhere i a' a'') : Elsewhere i a a'' :=
  ⟨h'.clktime.trans h.clktime, fun k hk => (h'.entry k hk).trans (h.entry k hk)⟩

theorem modEntry (a : Arp) (i : Nat) (f : ArpEntry → ArpEntry) : Elsewhere i a (a.modEntry i f) :=
  ⟨rfl, fun _ hk => entry_modEntry_of_ne hk⟩

theorem notifyLoop (i : Nat) (msg : Int) (ws : List Int) (a : Arp) :
    Elsewhere i a (notifyLoop msg ws a).1 := by
  refine ⟨?_, fun k _ => by rw [arptab_notifyLoop]⟩
  induction ws generalizing a with
  | nil => rfl
  | cons w ws ih =>
    rw [Arp.notifyLoop]
    split_ifs
    · exact clktime_send a w msg
    · exact (ih _).trans (clktime_send a w msg)

theorem arpNotify (a : Arp) (i : Nat) (msg : Int) : Elsewhere i a (a.arpNotify i msg).1 := by
  unfold Arp.arpNotify
  dsimp only
  split_ifs
  · exact notifyLoop i msg _ a
  · dsimp only
    exact (notifyLoop i msg _ a).trans (modEntry ..)

theorem arpFree (a : Arp) (i : Nat) : Elsewhere i a (a.arpFree i) := by
  unfold Arp.arpFree
  refine Elsewhere.trans ?_ (modEntry ..)
  split_ifs
  · exact arpNotify a i TIMEOUT
  · exact refl i a

theorem arpAlloc (h : a.arpAlloc = (a', some i)) : Elsewhere i a a' := by
  unfold Arp.arpAlloc at h
  split at h
  · obtain ⟨rfl, ⟨⟩⟩ := Prod.mk.inj h
    exact modEntry ..
  · simp at h
  · obtain ⟨rfl, ⟨⟩⟩ := Prod.mk.inj h
    exact modEntry ..

end Elsewhere

theorem arpAlloc_none (h : a.arpAlloc = (a', none)) : a' = a := by
  unfold arpAlloc at h
  split at h
  · simp at h
  · exact (Prod.mk.inj h).1.symm
  · simp at h

/-- **What the loop of `arpGetEntry` does**: it frees entries that have timed out, and finds the
first entry with the address that has not. -/
structure Got (praddr : NetAddr) (i m : Nat) (a a' : Arp) (r : Option Nat) : Prop where
  clktime : a'.clktime = a.clktime
  entry : ∀ k, a'.arptab k = a.arptab k ∨ a'.arptab k = {} ∧ (a.arptab k).expires < a.clktime
  found : ∀ j ∈ r, i ≤ j ∧ j < m ∧ (a.arptab j).state ≠ .free ∧ (a.arptab j).praddr = praddr ∧
    a.clktime ≤ (a.arptab j).expires ∧ a.Stale praddr i j
  none : r = none → a.Stale praddr i m

theorem getLoop_spec (praddr : NetAddr) (n i : Nat) (a : Arp) :
    Got praddr i (i + n) a (getLoop praddr n i a).1 (getLoop praddr n i a).2 := by
  induction n generalizing i a with
  | zero =>
    exact ⟨rfl, fun _ => .inl rfl, nofun, fun _ k hik hk => absurd hik (by omega)⟩
  | succ n ih =>
    -- the loop goes on where the entry does not count
    have hskip : ((a.arptab i).state ≠ .free → (a.arptab i).praddr = praddr →
        (a.arptab i).expires < a.clktime) → ∀ {b r}, Got praddr (i + 1) (i + 1 + n) a b r →
          Got praddr i (i + (n + 1)) a b r := by
      intro hi b r h
      have hstale : ∀ m, a.Stale praddr (i + 1) m → a.Stale praddr i m := by
        intro m hm k hik hk
        rcases Nat.eq_or_lt_of_le hik with rfl | hlt
        · exact hi
        · exact hm k hlt hk
      rw [show i + (n + 1) = i + 1 + n by omega]
      refine ⟨h.clktime, h.entry, fun j hj => ?_, fun hr => hstale _ (h.none hr)⟩
      obtain ⟨hij, hjm, hu, hp, he, hs⟩ := h.found j hj
      exact ⟨by omega, hjm, hu, hp, he, hstale j hs⟩
    rw [getLoop]
    split_ifs with hfree hexp hp
    · exact hskip (fun hu => absurd hfree hu) (ih (i + 1) a)
    · -- the entry is freed, and the others are as before
      have hother := Elsewhere.arpFree a i
      have hclear : (a.arpFree i).arptab i = {} := by
        unfold Arp.arpFree
        exact entry_modEntry_self
      have h := ih (i + 1) (a.arpFree i)
      have hstale : ∀ m, (a.arpFree i).Stale praddr (i + 1) m → a.Stale praddr (i + 1) m := by
        intro m hm k hik hk
        have := hm k hik hk
        rwa [hother.entry k (by omega), hother.clktime] at this
      refine hskip (fun _ _ => hexp) ⟨h.clktime.trans hother.clktime, fun k => ?_, fun j hj => ?_,
        fun hr => hstale _ (h.none hr)⟩
      · by_cases hk : k = i
        · subst hk
          rcases h.entry k with hsame | ⟨hsame, -⟩
          · exact .inr ⟨hsame.trans hclear, hexp⟩
          · exact .inr ⟨hsame, hexp⟩
        · have := h.entry k
          rwa [hother.entry k hk, hother.clktime] at this
      · obtain ⟨hij, hjm, hrest⟩ := h.found j hj
        rw [hother.entry j (by omega), hother.clktime] at hrest
        obtain ⟨hu, hp, he, hs⟩ := hrest
        exact ⟨hij, hjm, hu, hp, he, hstale j hs⟩
    · refine ⟨rfl, fun _ => .inl rfl, fun j hj => ?_, fun hr => nomatch hr⟩
      obtain rfl := Option.some.inj hj
      exact ⟨le_rfl, by omega, hfree, hp, not_lt.mp hexp, fun k hik hk => absurd hik (by omega)⟩
    · exact hskip (fun _ heq => absurd heq hp) (ih (i + 1) a)

theorem got_arpGetEntry (a : Arp) (praddr : NetAddr) :
    Got praddr 0 ARP_NENTRY a (a.arpGetEntry praddr).1 (a.arpGetEntry praddr).2 := by
  have := getLoop_spec praddr ARP_NENTRY 0 a
  rwa [Nat.zero_add] at this

/-- What has been seen of the table before a scan is so after it. -/
theorem Got.stale {r : Option Nat} (h : Got q i m a a' r) {n : Nat} (hs : a.Stale praddr 0 n) :
    a'.Stale praddr 0 n := by
  intro k hk hkn hu hp
  rcases h.entry k with heq | ⟨heq, -⟩
  · rw [heq] at hu hp ⊢
    rw [h.clktime]
    exact hs k hk hkn hu hp
  · rw [heq] at hu
    exact absurd rfl hu

theorem Got.same {r : Option Nat} (h : Got q i m a a' r) {k : Nat}
    (he : a.clktime ≤ (a.arptab k).expires) : a'.arptab k = a.arptab k :=
  (h.entry k).resolve_right fun hk => absurd hk.2 (not_lt.mpr he)

theorem Held.got {r : Option Nat} (h : a.Held praddr) (hg : Got q i m a a' r) : a'.Held praddr := by
  obtain ⟨j, hj, hstate, hp, he, hs⟩ := h
  refine ⟨j, hj, ?_, ?_, ?_, hg.stale hs⟩
  · rw [hg.same he, hstate]
  · rw [hg.same he, hp]
  · rw [hg.same he, hg.clktime]
    exact he

/-- **`arpGetEntry` finds the entry** that is held. -/
theorem Held.get (h : a.Held praddr) :
    ∃ i ∈ (a.arpGetEntry praddr).2, ((a.arpGetEntry praddr).1.arptab i).state = .resolved := by
  obtain ⟨i, hi, hstate, hp, he, hs⟩ := h
  have hg := got_arpGetEntry a praddr
  have hu : (a.arptab i).state ≠ .free := by simp [hstate]
  cases hr : (a.arpGetEntry praddr).2 with
  | none => exact absurd (hg.none hr i (Nat.zero_le i) hi hu hp) (not_lt.mpr he)
  | some j =>
    obtain ⟨-, -, hu', hp', he', hs'⟩ := hg.found j hr
    -- neither of the two comes before the other
    obtain rfl : j = i := by
      rcases lt_trichotomy j i with hlt | heq | hlt
      · exact absurd (hs j (Nat.zero_le j) hlt hu' hp') (not_lt.mpr he')
      · exact heq
      · exact absurd (hs' i (Nat.zero_le i) hlt hu hp) (not_lt.mpr he)
    exact ⟨j, rfl, by rw [hg.same he, hstate]⟩

/-- An entry is written: it is another one, or it stays resolved for the address. What was not found
before it is not there after it. -/
theorem Held.write (h : a.Held praddr) (he : Elsewhere m a a')
    (hmine : (a.arptab m).state = .resolved → (a.arptab m).praddr = praddr →
      (a'.arptab m).state = .resolved ∧ (a'.arptab m).praddr = praddr ∧
        (a.clktime ≤ (a.arptab m).expires → a.clktime ≤ (a'.arptab m).expires))
    (hother : (a'.arptab m).state ≠ .free → (a'.arptab m).praddr = praddr →
      (a.arptab m).state ≠ .free ∧ (a.arptab m).praddr = praddr ∧
        (a.clktime ≤ (a.arptab m).expires ∨ (a'.arptab m).expires = (a.arptab m).expires)) :
    a'.Held praddr := by
  obtain ⟨i, hi, hstate, hp, hexp, hs⟩ := h
  have hstale : a'.Stale praddr 0 i := by
    intro k hk hki hu hpk
    rw [he.clktime]
    by_cases hkm : k = m
    · subst hkm
      obtain ⟨hu', hp', hfresh | hsame⟩ := hother hu hpk
      · exact absurd (hs k hk hki hu' hp') (not_lt.mpr hfresh)
      · rw [hsame]
        exact hs k hk hki hu' hp'
    · rw [he.entry k hkm] at hu hpk ⊢
      exact hs k hk hki hu hpk
  refine ⟨i, hi, ?_⟩
  rw [he.clktime]
  by_cases him : i = m
  · subst him
    obtain ⟨hstate', hp', hexp'⟩ := hmine hstate hp
    exact ⟨hstate', hp', hexp' hexp, hstale⟩
  · rw [he.entry i him]
    exact ⟨hstate, hp, hexp, hstale⟩

theorem Held.congr (h : a.Held praddr)
    (htab : a'.arptab = a.arptab) (htime : a'.clktime = a.clktime) :
    a'.Held praddr := by
  unfold Held Stale at *
  rw [htab, htime]
  exact h

/-- A list of threads is written. -/
theorem Held.setWaiting (h : a.Held praddr) (i : Nat) (f : List Int → List Int) :
    (a.modEntry i fun e => { e with waiting := f e.waiting }).Held praddr := by
  refine h.write (.modEntry a i _) ?_ ?_ <;> rw [entry_modEntry_self]
  · exact fun hstate hp => ⟨hstate, hp, id⟩
  · exact fun hu hp => ⟨hu, hp, .inr rfl⟩

theorem Held.enqueue (h : a.Held praddr) (t : Int) (lookups i : Nat) :
    (a.enqueue t lookups i).Held praddr := by
  unfold Arp.enqueue
  dsimp only
  split_ifs
  · exact h.congr rfl rfl
  · exact h.congr rfl rfl
  · exact (h.setWaiting i (· ++ [t])).congr rfl rfl

/-- An entry that is taken for another address is not the one that is held. -/
theorem Held.take (h : a.Held praddr) (halloc : a.arpAlloc = (a', some m))
    (hm : ¬ ((a.arptab m).state = .resolved ∧ (a.arptab m).praddr = praddr))
    {f : ArpEntry → ArpEntry} (hf : ∀ e, (f e).praddr = q) (hne : q ≠ praddr) :
    (a'.modEntry m f).Held praddr := by
  refine h.write ((Elsewhere.arpAlloc halloc).trans (.modEntry ..)) ?_ ?_ <;>
    rw [entry_modEntry_self]
  · exact fun hstate hp => absurd ⟨hstate, hp⟩ hm
  · exact fun _ hp => absurd ((hf _).symm.trans hp) hne

/-- The table after `arpRecv` has updated an entry. -/
theorem resolve_entry (sha : NetAddr) (hu : (a.arptab i).state ≠ .free) :
    Elsewhere i a (a.resolve i sha) ∧ ((a.resolve i sha).arptab i).state = .resolved ∧
      ((a.resolve i sha).arptab i).praddr = (a.arptab i).praddr ∧
      ((a.resolve i sha).arptab i).expires = add32 a.clktime ARP_TTL_RESOLVED := by
  have hnotify : ∀ (b : Arp) (msg : Int), ((b.arpNotify i msg).1.arptab i).state =
      (b.arptab i).state ∧
      ((b.arpNotify i msg).1.arptab i).praddr = (b.arptab i).praddr ∧
      ((b.arpNotify i msg).1.arptab i).expires = (b.arptab i).expires := by
    intro b msg
    unfold Arp.arpNotify
    dsimp only
    split_ifs
    · rw [arptab_notifyLoop]
      exact ⟨rfl, rfl, rfl⟩
    · rw [entry_modEntry_self, arptab_notifyLoop]
      exact ⟨rfl, rfl, rfl⟩
  by_cases hun : (a.arptab i).state = .unresolved
  · obtain ⟨b, hb, -, -, htime, htab⟩ := resolve_of_unresolved sha hun
    have helse : Elsewhere i a b := ⟨htime, fun k hk => by rw [htab, Function.update_of_ne hk]⟩
    rw [hb, (hnotify b _).1, (hnotify b _).2.1, (hnotify b _).2.2, htab, Function.update_self]
    exact ⟨helse.trans (.arpNotify b i _), rfl, rfl, rfl⟩
  · have hstate : (a.arptab i).state = .resolved := by
      cases hstate : (a.arptab i).state with
      | free => exact absurd hstate hu
      | unresolved => exact absurd hstate hun
      | resolved => rfl
    unfold Arp.resolve
    dsimp only
    rw [entry_modEntry_self, if_neg hun, entry_modEntry_self]
    exact ⟨.modEntry .., hstate, rfl, rfl⟩

/-- **An entry that is found is renewed, or resolved**, so that it is held for its address, and what
was held for an address before still is. -/
theorem held_resolve (h : Got q 0 ARP_NENTRY a a' (some i)) (sha : NetAddr)
    (htime : a.clktime + ARP_TTL_RESOLVED < 2 ^ 32) : (a'.resolve i sha).Held q := by
  obtain ⟨-, hi, hu, hp, he, hs⟩ := h.found i rfl
  rw [← h.same he] at hu hp
  obtain ⟨helse, hstate, hpraddr, hexp⟩ := resolve_entry (a := a') sha hu
  have hadd : add32 a'.clktime ARP_TTL_RESOLVED = a.clktime + ARP_TTL_RESOLVED := by
    rw [h.clktime]
    exact Nat.mod_eq_of_lt htime
  refine ⟨i, hi, hstate, hpraddr.trans hp, ?_, fun k hk hki => ?_⟩
  · rw [helse.clktime, hexp, hadd, h.clktime]
    exact Nat.le_add_right ..
  · rw [helse.entry k (Nat.ne_of_lt hki), helse.clktime]
    exact h.stale hs k hk hki

theorem Held.resolve (h : a.Held praddr) (hg : Got q 0 ARP_NENTRY a a' (some i)) (sha : NetAddr)
    (htime : a.clktime + ARP_TTL_RESOLVED < 2 ^ 32) : (a'.resolve i sha).Held praddr := by
  obtain ⟨-, -, hu, hp, he, -⟩ := hg.found i rfl
  have hsame := hg.same he
  rw [← hsame] at hu hp
  rw [← hg.clktime] at he htime
  rw [← hsame] at he
  obtain ⟨helse, hstate, hpraddr, hexp⟩ := resolve_entry (a := a') sha hu
  refine (h.got hg).write helse (fun _ hp' => ⟨hstate, hpraddr.trans hp', fun _ => ?_⟩)
    fun _ hp' => ⟨hu, hpraddr.symm.trans hp', .inl he⟩
  rw [hexp, add32, Nat.mod_eq_of_lt htime]
  exact Nat.le_add_right ..

/-! ## Punctual steps -/

/-- The threads on the list of an entry can be told, and the thread has cleared its messages. -/
def Ready (a : Arp) (i : Nat) (t : Int) : Prop :=
  Sendable a (a.arptab i).waiting ∧ (a.thr t).place.awaits.isSome = true
deriving Decidable

/-- The entry of the thread has been resolved, and its call has not returned yet. -/
def OnWay (a : Arp) (t : Int) : Prop := a.resolved t = true ∧ (a.thr t).place.outside = false
deriving Decidable

/-- Where there is no entry for an address, the entry that is taken for it is not a resolved one of
the address that the thread looks up. -/
def Spares (a : Arp) (t : Int) (praddr : NetAddr) : Prop :=
  let r := a.arpGetEntry praddr
  r.2 = none → ∀ m ∈ r.1.arpAlloc.2,
    ¬ ((r.1.arptab m).state = .resolved ∧ (r.1.arptab m).praddr = (a.thr t).praddr)
deriving Decidable

/-- The steps that do not hold a thread up. A reply that resolves the entry in which it waits finds
it waiting for the message, and all messages can be sent. From then on to its return, its entry is
not taken for another address and does not time out. The clock is far from its end. -/
def Punctual (t : Int) (a : Arp) : Step → Prop
  | .recv spa _ mine => a.clktime + ARP_TTL_RESOLVED < 2 ^ 32 ∧
      (∀ i ∈ (a.arpGetEntry spa).2, ((a.arpGetEntry spa).1.arptab i).state = .unresolved →
        (a.arpGetEntry spa).1.Waits i t → (a.arpGetEntry spa).1.Ready i t) ∧
      (mine = true → a.OnWay t → a.Spares t spa)
  | .go t' _ => ∀ n < ARP_MAX_LOOKUP, (a.thr t').place = .head n → a.OnWay t →
      a.Spares t (a.thr t').praddr
  | .tick => a.OnWay t → a.clktime + 1 < 2 ^ 32 ∧ ∀ i < ARP_NENTRY,
      (a.arptab i).state = .resolved → (a.arptab i).praddr = (a.thr t).praddr →
        a.clktime < (a.arptab i).expires
  | _ => True

instance (t : Int) (a : Arp) : ∀ s : Step, Decidable (a.Punctual t s) := by
  rintro ⟨⟩ <;> unfold Arp.Punctual <;> infer_instance

theorem Place.listed_of_awaits {p : Place} (h : n ∈ p.awaits) : n ∈ p.listed := by
  cases p with
  | recv m ttl =>
    by_cases httl : 0 ≤ ttl
    · simpa [awaits, listed, httl] using h
    · simp [awaits, httl] at h
  | waiting m => exact h
  | idle | head | request | clear | done => exact absurd h (by simp [awaits])

/-! ## The steps of the thread -/

/-- The steps that are left until the call returns. -/
def Place.left : Place → Nat
  | .recv _ _ | .waiting _ => 2
  | .head _ => 1
  | _ => 0

/-- With its message, the thread leaves `recvtime` for the head of the loop. -/
theorem recvtimeRest_resolved (hmsg : (a.thr t).hasmsg = true)
    (hres : (a.thr t).msg = ARP_MSG_RESOLVED) :
    ((a.recvtimeRest t n).thr t).place = .head n ∧ (a.recvtimeRest t n).resolved = a.resolved ∧
      ((a.recvtimeRest t n).thr t).praddr = (a.thr t).praddr ∧
      (a.recvtimeRest t n).arptab = a.arptab ∧ (a.recvtimeRest t n).clktime = a.clktime := by
  have hne : ¬ (ARP_MSG_RESOLVED = TIMEOUT ∨ ARP_MSG_RESOLVED = SYSERR) := by decide
  unfold recvtimeRest answer
  rw [if_pos hmsg, hres, if_neg hne]
  refine ⟨congrArg Thr.place thr_modThr_self, rfl, ?_, rfl, rfl⟩
  rw [goto, thr_modThr_self, thr_modThr_self]

theorem lookup_of_head {sent : Bool} (hn : n < ARP_MAX_LOOKUP)
    (hplace : (a.thr t).place = .head n) : a.lookup t sent = a.findEntry t (n + 1) := by
  unfold Arp.lookup
  rw [hplace]
  exact if_pos hn

/-- At the head of the loop, with the entry resolved, it returns the address. -/
theorem findEntry_resolved {i : Nat} (hi : i ∈ (a.arpGetEntry (a.thr t).praddr).2)
    (hres : ((a.arpGetEntry (a.thr t).praddr).1.arptab i).state = .resolved) :
    ((a.findEntry t n).thr t).place =
        .done (some ((a.arpGetEntry (a.thr t).praddr).1.arptab i).hwaddr) ∧
      (a.findEntry t n).resolved = a.resolved := by
  have hi : (a.arpGetEntry (a.thr t).praddr).2 = some i := hi
  unfold findEntry
  simp only [hi]
  unfold enqueue
  rw [if_pos hres]
  exact ⟨congrArg Thr.place thr_modThr_self, (Touches.arpGetEntry (fun _ => True) a _).resolved⟩

/-- The address that the table has for the protocol address which the thread looks up. -/
def Known (a : Arp) (t : Int) (hw : NetAddr) : Prop :=
  ∃ i ∈ (a.arpGetEntry (a.thr t).praddr).2,
    hw = ((a.arpGetEntry (a.thr t).praddr).1.arptab i).hwaddr

/-- A thread whose entry has been resolved is on its way, and its entry is held until its return. -/
def OnTrack (a : Arp) (t : Int) : Prop :=
  a.resolved t = true →
    Woken (a.thr t) ∧ ((a.thr t).place.outside = false → a.Held (a.thr t).praddr)

/-- A thread on its way takes a step towards its return, and is still on its way. -/
theorem OnTrack.lookup (sent : Bool) (h : a.OnTrack t) (hres : a.resolved t = true) :
    (a.lookup t sent).OnTrack t ∧ (a.lookup t sent).resolved = a.resolved ∧
      ((a.thr t).place.outside = false →
        ((a.lookup t sent).thr t).place.left < (a.thr t).place.left ∧
          ∀ hw, ((a.lookup t sent).thr t).place = .done (some hw) → a.Known t hw) := by
  obtain ⟨⟨n, hplace, hn, hmsg, hmsg'⟩ | ⟨n, hn, hplace⟩ | ⟨hw, hplace⟩, hheld⟩ := h hres
  · -- it takes its message, and the table stays
    obtain ⟨hhead, hr, hpraddr, htab, htime⟩ := recvtimeRest_resolved (n := n) hmsg hmsg'
    have hrest : a.lookup t sent = a.recvtimeRest t n ∧ (a.thr t).place.left = 2 ∧
        (a.thr t).place.outside = false := by
      unfold Arp.lookup
      cases hp : (a.thr t).place with
      | recv m ttl =>
        rw [hp] at hplace
        obtain ⟨httl, rfl⟩ : 0 ≤ ttl ∧ m = n := by simpa [Place.awaits] using hplace
        dsimp only
        rw [if_neg (by omega), if_neg (by simp [hmsg])]
        exact ⟨rfl, rfl, rfl⟩
      | waiting m =>
        rw [hp] at hplace
        obtain rfl : m = n := by simpa [Place.awaits] using hplace
        exact ⟨rfl, rfl, rfl⟩
      | idle | head | request | clear | done =>
        rw [hp] at hplace
        exact absurd hplace (by simp [Place.awaits])
    rw [hrest.1, hhead, hrest.2.1]
    refine ⟨fun _ => ⟨.inr (.inl ⟨n, hn, hhead⟩), fun _ => ?_⟩, hr,
      fun _ => ⟨Nat.one_lt_two, fun _ h => nomatch h⟩⟩
    rw [hpraddr]
    exact (hheld hrest.2.2).congr htab htime
  · -- it finds the entry resolved
    obtain ⟨i, hi, hstate⟩ := (hheld (by rw [hplace]; rfl)).get
    obtain ⟨hdone, hr⟩ := findEntry_resolved (n := n + 1) hi hstate
    rw [lookup_of_head hn hplace, hdone, hplace]
    refine ⟨fun _ => ⟨.inr (.inr ⟨_, hdone⟩), fun hout => ?_⟩, hr,
      fun _ => ⟨Nat.zero_lt_one, fun hw h => ⟨i, hi, ?_⟩⟩⟩
    · rw [hdone] at hout
      exact nomatch hout
    · exact (Option.some.inj (Place.done.inj h)).symm
  · have heq : a.lookup t sent = a := by
      unfold Arp.lookup
      rw [hplace]
    rw [heq, hplace]
    exact ⟨h, rfl, fun h => absurd h (by simp [Place.outside])⟩

/-! ## The other steps -/

/-- The thread is touched at most, and its entry stays. -/
theorem OnTrack.touches (h : a.OnTrack t) {P : Int → Prop} (ht : Touches P a a') (hP : P t)
    (hheld : a.OnWay t → a.Held (a.thr t).praddr → a'.Held (a.thr t).praddr) : a'.OnTrack t := by
  intro hr
  rw [ht.resolved] at hr
  obtain ⟨hplace, hpraddr⟩ := (ht.thr t hP).same
  obtain ⟨hwoken, hh⟩ := h hr
  rw [hplace, hpraddr]
  exact ⟨hwoken.touched (ht.thr t hP), fun hout => hheld ⟨hr, hout⟩ (hh hout)⟩

/-- An entry is made where there is none for its address. -/
theorem Held.insert {t : Int} (h : a.Held (a.thr t).praddr) (hs : a.Spares t praddr)
    (hnone : (a.arpGetEntry praddr).2 = none)
    (halloc : (a.arpGetEntry praddr).1.arpAlloc = (a', some m)) {f : ArpEntry → ArpEntry}
    (hf : ∀ e, (f e).praddr = praddr) : (a'.modEntry m f).Held (a.thr t).praddr := by
  refine (h.got (got_arpGetEntry a praddr)).take halloc ?_ hf ?_
  · exact hs hnone m (by rw [halloc]; rfl)
  · rintro rfl
    obtain ⟨i, hi, -⟩ := h.get
    exact nomatch hnone.symm.trans hi

/-- Another thread looks up an address. -/
theorem Held.findEntry {t t' : Int} (h : a.Held (a.thr t).praddr) (lookups : Nat)
    (hs : a.Spares t (a.thr t').praddr) : (a.findEntry t' lookups).Held (a.thr t).praddr := by
  have hget := h.got (got_arpGetEntry a (a.thr t').praddr)
  unfold Arp.findEntry
  dsimp only
  split
  · exact hget.enqueue ..
  · rename_i hnone
    split
    · rename_i heq
      rw [arpAlloc_none heq]
      exact hget.congr rfl rfl
    · rename_i heq
      exact (h.insert hs hnone heq fun _ => rfl).enqueue ..

/-- Apart from the scan, a step of `arpLookup` leaves the table alone. -/
theorem lookup_table (sent : Bool) (h : ∀ n < ARP_MAX_LOOKUP, (a.thr t).place ≠ .head n) :
    (a.lookup t sent).arptab = a.arptab ∧ (a.lookup t sent).clktime = a.clktime := by
  have hanswer : ∀ (b : Arp) n m, (b.answer t n m).arptab = b.arptab ∧
      (b.answer t n m).clktime = b.clktime := by
    intro b n m
    unfold answer
    split <;> exact ⟨rfl, rfl⟩
  have hrest : ∀ n, (a.recvtimeRest t n).arptab = a.arptab ∧
      (a.recvtimeRest t n).clktime = a.clktime := by
    intro n
    unfold recvtimeRest
    split <;> exact hanswer _ _ _
  unfold Arp.lookup
  cases hplace : (a.thr t).place with
  | idle | done => exact ⟨rfl, rfl⟩
  | head n =>
    dsimp only
    rw [if_neg fun hn => h n hn hplace]
    exact ⟨rfl, rfl⟩
  | request n ttl =>
    dsimp only
    split <;> exact ⟨rfl, rfl⟩
  | clear n ttl => exact ⟨rfl, rfl⟩
  | recv n ttl =>
    dsimp only
    split
    · exact hanswer ..
    · split
      · exact ⟨rfl, rfl⟩
      · exact hrest n
  | waiting n => exact hrest n

/-- Another thread goes on. -/
theorem OnTrack.other {t' : Int} {sent : Bool} (h : a.OnTrack t) (hne : t ≠ t')
    (hp : a.Punctual t (.go t' sent)) : (a.lookup t' sent).OnTrack t := by
  refine h.touches (Touches.lookup (P := fun x => x ≠ t') (by simp) sent) hne fun hway hheld => ?_
  by_cases hhead : ∃ n < ARP_MAX_LOOKUP, (a.thr t').place = .head n
  · obtain ⟨n, hn, hplace⟩ := hhead
    rw [lookup_of_head hn hplace]
    exact hheld.findEntry _ (hp n hn hplace hway)
  · obtain ⟨htab, htime⟩ := lookup_table sent fun n hn hplace => hhead ⟨n, hn, hplace⟩
    exact hheld.congr htab htime

/-- What becomes of a thread when an entry is resolved: it may get a message, and it gets that of
the resolution if it waits for it. -/
theorem resolve_thr (sha : NetAddr) (t : Int) : Touched (a.thr t) ((a.resolve i sha).thr t) ∧
    ((a.resolve i sha).resolved t = true → a.resolved t = true ∨
      (a.arptab i).state = .unresolved ∧ a.Waits i t ∧
        (Sendable a (a.arptab i).waiting →
          (a.resolve i sha).thr t = deposit ARP_MSG_RESOLVED (a.thr t))) := by
  by_cases hun : (a.arptab i).state = .unresolved
  · obtain ⟨b, hb, hthr, hres, -, htab⟩ := resolve_of_unresolved sha hun
    have htouch := Touches.arpNotify (fun _ => True) b i ARP_MSG_RESOLVED
    rw [hb, htouch.resolved, hres, ← hthr]
    refine ⟨htouch.thr t trivial, fun hr => ?_⟩
    rcases Bool.or_eq_true_iff.mp hr with hr | hr
    · exact .inl hr
    · have hw : a.Waits i t := of_decide_eq_true hr
      refine .inr ⟨hun, hw, fun hsend => ?_⟩
      rw [thr_arpNotify, htab, Function.update_self, notifyLoop_congr _ _ hthr, hthr]
      exact (thr_notifyLoop _ _ a t).1 (hsend.reached hw.1)
  · unfold Arp.resolve
    dsimp only
    rw [entry_modEntry_self, if_neg hun]
    exact ⟨.inl rfl, .inl⟩

/-- A reply is processed: what was held is, and a thread whose entry it resolves gets its message.
-/
theorem OnTrack.resolve {spa : NetAddr} (h : a.OnTrack t) (sha : NetAddr)
    (hfound : (a.arpGetEntry spa).2 = some i) (htime : a.clktime + ARP_TTL_RESOLVED < 2 ^ 32)
    (hready : ((a.arpGetEntry spa).1.arptab i).state = .unresolved →
      (a.arpGetEntry spa).1.Waits i t → (a.arpGetEntry spa).1.Ready i t) :
    ((a.arpGetEntry spa).1.resolve i sha).OnTrack t := by
  have hg := got_arpGetEntry a spa
  have hget := Touches.arpGetEntry (fun _ => True) a spa
  rw [hfound] at hg
  generalize (a.arpGetEntry spa).1 = b at *
  obtain ⟨htouch, hnew⟩ := resolve_thr (a := b) (i := i) sha t
  obtain ⟨hplace, hpraddr⟩ := (hget.thr t trivial).same
  obtain ⟨hplace', hpraddr'⟩ := htouch.same
  intro hr
  rw [hplace', hpraddr', hplace, hpraddr]
  rcases hnew hr with hold | ⟨hun, hw, hmsg⟩
  · rw [hget.resolved] at hold
    obtain ⟨hwoken, hheld⟩ := h hold
    exact ⟨(hwoken.touched (hget.thr t trivial)).touched htouch,
      fun hout => (hheld hout).resolve hg sha htime⟩
  · obtain ⟨hsend, hawaits⟩ := hready hun hw
    obtain ⟨-, -, -, hp, he, -⟩ := hg.found i rfl
    constructor
    · obtain ⟨n, hn, hlt⟩ := hw.2.2
      obtain ⟨m, hm⟩ := Option.isSome_iff_exists.mp hawaits
      obtain rfl : m = n :=
        Option.some.inj ((Place.listed_of_awaits hm : _ = _).symm.trans (hn : _ = _))
      rw [hmsg hsend]
      exact .inl ⟨m, hm, hlt, rfl, rfl⟩
    · intro
      rw [← hpraddr, hw.2.1, hg.same he, hp]
      exact held_resolve hg sha htime

theorem OnTrack.arpRecv (h : a.OnTrack t) {spa sha : NetAddr} {mine : Bool}
    (hp : a.Punctual t (.recv spa sha mine)) : (a.arpRecv spa sha mine).OnTrack t := by
  obtain ⟨htime, hready, hspares⟩ := hp
  have hget := Touches.arpGetEntry (fun _ => True) a spa
  have hgot : a.Held (a.thr t).praddr → (a.arpGetEntry spa).1.Held (a.thr t).praddr :=
    fun hheld => hheld.got (got_arpGetEntry a spa)
  unfold Arp.arpRecv
  dsimp only
  split
  · rename_i i hi
    exact h.resolve sha hi htime (hready i hi)
  · rename_i hnone
    split_ifs with hmine
    · have halloc := Touches.arpAlloc (fun _ => True) (a.arpGetEntry spa).1
      split
      · rename_i heq
        rw [arpAlloc_none heq]
        exact h.touches hget trivial fun _ => hgot
      · rename_i heq
        rw [heq] at halloc
        refine h.touches (hget.trans (halloc.trans (.modEntry ..))) trivial fun hway hheld => ?_
        exact hheld.insert (hspares hmine hway) hnone heq fun _ => rfl
    · exact h.touches hget trivial fun _ => hgot

/-- A second passes, and the entry of the thread does not time out. -/
theorem Held.tick (h : a.Held praddr) (htime : a.clktime + 1 < 2 ^ 32)
    (hexp : ∀ i < ARP_NENTRY, (a.arptab i).state = .resolved → (a.arptab i).praddr = praddr →
      a.clktime < (a.arptab i).expires) : (a.step .tick).Held praddr := by
  have hadd : (a.step .tick).clktime = a.clktime + 1 := Nat.mod_eq_of_lt htime
  obtain ⟨i, hi, hstate, hp, -, hs⟩ := h
  refine ⟨i, hi, hstate, hp, ?_, fun k hk hki hu hpk => ?_⟩ <;> rw [hadd]
  · exact hexp i hi hstate hp
  · exact Nat.lt_succ_of_lt (hs k hk hki hu hpk)

/-- A call that begins is not on its way yet. -/
theorem OnTrack.reset (h : a.OnTrack t) (t' : Int) (f : Thr → Thr) :
    OnTrack { a.modThr t' f with resolved := store a.resolved t' false } t := by
  intro hr
  dsimp only at hr
  rw [store_eq_update] at hr
  have hne : t ≠ t' := by
    rintro rfl
    exact absurd hr (by simp)
  rw [Function.update_of_ne hne] at hr
  obtain ⟨hwoken, hheld⟩ := h hr
  dsimp only
  rw [thr_modThr_of_ne hne]
  exact ⟨hwoken, fun hout => (hheld hout).congr rfl rfl⟩

/-- **Every punctual step keeps the thread on its way.** -/
theorem OnTrack.step (h : a.OnTrack t) {s : Step} (hp : a.Punctual t s) : (a.step s).OnTrack t := by
  cases s with
  | call t' praddr => exact h.reset t' _
  | go t' sent =>
    by_cases heq : t = t'
    · subst heq
      by_cases hr : a.resolved t = true
      · exact (h.lookup _ hr).1
      · have hres := (Touches.lookup (P := fun x => x ≠ t) (a := a) (t := t) (by simp)
            sent).resolved
        exact fun hr' => absurd ((congrFun hres t).symm.trans hr') hr
    · exact h.other heq hp
  | recv spa sha mine => exact h.arpRecv hp
  | tick =>
    intro hr
    obtain ⟨hwoken, hheld⟩ := h hr
    refine ⟨hwoken, fun hout => ?_⟩
    obtain ⟨htime, hexp⟩ := hp ⟨hr, hout⟩
    exact (hheld hout).tick htime hexp
  | message t' msg =>
    exact h.touches (.send (fun _ => True) a t' msg) trivial fun _ hheld =>
      hheld.congr (arptab_send ..) (clktime_send ..)
  | create t' => exact h.reset t' _
  | kill t' =>
    intro hr
    obtain ⟨hwoken, hheld⟩ := h hr
    by_cases heq : t = t'
    · subst heq
      rw [Arp.step, thr_modThr_self]
      exact ⟨hwoken, fun hout => (hheld hout).congr rfl rfl⟩
    · rw [Arp.step, thr_modThr_of_ne heq]
      exact ⟨hwoken, fun hout => (hheld hout).congr rfl rfl⟩

end Arp

/-- The ARP table with its threads, where every step is punctual for a thread. -/
def punctualMachine (t : Int) : Machine Arp Arp.Step := arpMachine.restrict (Arp.Punctual t)

instance (t : Int) (a : Arp) (s : Arp.Step) : Decidable ((punctualMachine t).enabled a s) :=
  inferInstanceAs (Decidable (a.Enabled s ∧ a.Punctual t s))

namespace Arp

/-- **Wakeups are not lost.** In every run of the table with any number of threads, in any order of
their steps, that are punctual for a thread whose entry was resolved while it waited with lookups
left: if its call has returned, it has returned an address; and if it has not, it is at most two
steps away from its return, its next step is punctual and brings it closer, and the address with
which it returns is the one that the table has for it. -/
theorem arp_lookup_answered {a : Arp} {l : List Step} {t : Int}
    (r : (punctualMachine t).Run start l a) (ht : a.resolved t = true) :
    (∀ result, (a.thr t).place = .done result → ∃ hw, result = some hw) ∧
      (a.thr t).place.left ≤ 2 ∧
      ∀ sent, a.Enabled (.go t sent) → (a.thr t).place.outside = false →
        (punctualMachine t).enabled a (.go t sent) ∧
          (a.step (.go t sent)).resolved t = true ∧
          ((a.step (.go t sent)).thr t).place.left < (a.thr t).place.left ∧
          ∀ hw, ((a.step (.go t sent)).thr t).place = .done (some hw) → a.Known t hw := by
  have htrack : a.OnTrack t := by
    have hstep : ∀ (b : Arp) (s : Step), b.OnTrack t → (punctualMachine t).enabled b s →
        ((punctualMachine t).next b s).OnTrack t := fun b s hb he => hb.step he.2
    exact r.invariant (I := fun b => b.OnTrack t) hstep fun ht => absurd ht (by simp [start])
  obtain ⟨hw, hheld⟩ := htrack ht
  refine ⟨fun result hdone => ?_, ?_, fun sent he hout => ?_⟩
  · -- a call that has returned is neither waiting nor at the head of the loop
    rcases hw with ⟨n, hn, -⟩ | ⟨n, -, hn⟩ | ⟨hw, hn⟩
    · rw [hdone] at hn
      exact nomatch hn
    · exact nomatch hdone.symm.trans hn
    · exact ⟨hw, Place.done.inj (hdone.symm.trans hn)⟩
  · cases (a.thr t).place <;> simp [Place.left]
  · obtain ⟨-, hres, hleft⟩ := htrack.lookup sent ht
    refine ⟨⟨he, fun n _ _ _ hnone => ?_⟩, (congrFun hres t).trans ht, hleft hout⟩
    -- the entry is there, so that none is taken
    obtain ⟨i, hi, -⟩ := (hheld hout).get
    exact nomatch hnone.symm.trans hi

/-- A thread waits, another one looks up another address, and some time passes. A reply comes in,
and before the thread has taken its message the other one gives up and looks up a third address. -/
def answered : List Step :=
  waiter 1 7 ++ [.go 1 true, .go 1 true, .go 1 true, .tick] ++ waiter 2 8 ++
    [.tick, .recv (host 7) (card 7) false, .go 2 false, .tick, .call 2 (host 9), .go 2 true, .tick,
      .go 1 true]

/-- In that run, the next step of the thread returns the address. -/
theorem arp_lookup_answered_run :
    (punctualMachine 1).Run start answered ((punctualMachine 1).after start answered) ∧
      (((punctualMachine 1).after start answered).step (.go 1 true)).resolved 1 = true ∧
      ((((punctualMachine 1).after start answered).step (.go 1 true)).thr 1).place =
        .done (some (card 7)) ∧
      ((punctualMachine 1).after start answered).Known 1 (card 7) := by
  have r : (punctualMachine 1).Run start answered ((punctualMachine 1).after start answered) :=
    Machine.run_after
  have hgo : ((((punctualMachine 1).after start answered).step (.go 1 true)).thr 1).place =
      .done (some (card 7)) := by decide
  obtain ⟨-, -, hnext⟩ := arp_lookup_answered r (by decide)
  obtain ⟨-, hres, -, hknown⟩ := hnext true (by decide) (by decide)
  exact ⟨r, hres, hgo, hknown _ hgo⟩

/-- **A wakeup that is lost.** A thread puts itself on the list of an entry, and the reply comes in
before it has cleared its messages. The entry is resolved and the thread has its message; it clears
it, waits until its five seconds are up, and its call fails in its first round. -/
theorem arp_lookup_lost :
    ∃ a a', arpMachine.Run start (waiter 1 7 ++ [.recv (host 7) (card 7) false]) a ∧
      a.resolved 1 = true ∧ (a.thr 1).hasmsg = true ∧ (a.arptab 0).state = .resolved ∧
      arpMachine.Run a [.go 1 true, .go 1 true, .go 1 true, .tick, .tick, .tick, .tick, .tick,
        .go 1 true] a' ∧
      (a'.thr 1).place = .done none ∧ (a'.arptab 0).state = .resolved ∧
      (a'.arptab 0).hwaddr = card 7 ∧ a'.clktime ≤ (a'.arptab 0).expires :=
  ⟨_, _, Machine.run_after, by decide, by decide, by decide, Machine.run_after, by decide⟩

end Arp
end Xinu
