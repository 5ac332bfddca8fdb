import Xinu.Route.Table

/-!
# Histories of routes

What the routing table is for: a route stays as it was given until its destination is removed or
its interface cleared, and an address takes the route with the longest mask of those it matches.
The slots of the table hold those routes, with the destination masked and the mask counted. They
are the routes of every history in which a route is removed by its network: `rtRemove` compares the
destination it is given with the masked one.

## Main results

* `Books.call`: a call keeps the table on the routes
* `rtLookup_is_longest_match`: lookups after any history are longest match on its routes
-/

namespace Xinu.Route

variable {i : Fin RT_NENTRY} {t : RtTab}

/-! ## Routes as they were given -/

/-- The arguments of `rtAdd`. -/
structure Given where
  dst : Addr
  mask : Addr
  gate : Option Addr
  nif : Nif
deriving DecidableEq

/-- The address and the destination agree under the mask. -/
def Given.Matches (r : Given) (a : Addr) : Prop :=
  (netaddrmask a r.mask).1 = (netaddrmask r.dst r.mask).1
deriving Decidable

/-- No bit of the mask is set. -/
def Given.IsDefault (r : Given) : Prop := ∀ o ∈ r.mask.addr, o = 0

/-- The routes that have been added and not removed since, each in its slot. -/
abbrev Routes := Fin RT_NENTRY → Option Given

namespace Routes

variable (R : Routes)

/-- A route is added, in the first vacant slot if there is one. -/
def add (r : Given) : Routes :=
  match slots.find? fun i => R i = none with
  | some i => store R i (some r)
  | none => R

/-- The routes with a property are gone. -/
def drop (p : Given → Bool) : Routes := fun i => (R i).filter fun r => !p r

/-- There is a default route with the mask. -/
def HasDefault (mask : Addr) : Prop := ∃ i, ∃ r ∈ R i, r.mask = mask
deriving Decidable

/-- The route in a slot is the longest match of an address, and the first such. -/
structure Best (a : Addr) (i : Fin RT_NENTRY) (r : Given) : Prop where
  slot : R i = some r
  hit : r.Matches a
  longest : ∀ j q, R j = some q → q.Matches a → q.mask.ones ≤ r.mask.ones
  lowest : ∀ j q, R j = some q → q.Matches a → q.mask.ones = r.mask.ones → i ≤ j

end Routes

/-! ## Calls -/

/-- The calls that change the table; a pointer may be `NULL`. -/
inductive Call
  | add (dst gate mask : Option Addr) (nif : Option Nif)
  | default (gate : Option Addr) (nif : Option Nif)
  | remove (dst : Option Addr)
  | clear (nif : Option Nif)

/-- What a call does to the routes: nothing where a pointer is `NULL`. -/
def Routes.call (R : Routes) : Call → Routes
  | .add (some dst) gate (some mask) (some nif) => R.add ⟨dst, mask, gate, nif⟩
  | .default (some gate) (some nif) =>
    if R.HasDefault gate.zeroMask then R
    else R.add ⟨gate.zeroMask, gate.zeroMask, some gate, nif⟩
  | .remove (some dst) => R.drop fun r => r.dst = dst
  | .clear (some nif) => R.drop fun r => r.nif = nif
  | _ => R

/-- What a call does to the table. -/
def callTab (t : RtTab) : Call → RtTab
  | .add dst gate mask nif => (rtAdd t dst gate mask nif).1
  | .default gate nif => (rtDefault t gate nif).1
  | .remove dst => (rtRemove t dst).1
  | .clear nif => (rtClear t nif).1

/-- The table, and the routes that it should hold. -/
structure Book where
  rttab : RtTab
  routes : Routes

/-- After `rtInit` there are no routes. -/
def Book.init : Book := ⟨rtInit, fun _ => none⟩

/-- Each call on the table and on the routes. -/
def bookMachine : Machine Book Call where
  enabled _ _ := True
  next b c := ⟨callTab b.rttab c, b.routes.call c⟩

/-- A call of `rtRemove` means the same routes by their destination as it was given and by their
network, which is the destination under the mask. -/
def Book.Names (b : Book) : Call → Prop
  | .remove (some dst) => ∀ i, ∀ r ∈ b.routes i, r.dst = dst ↔ (netaddrmask r.dst r.mask).1 = dst
  | _ => True

instance (b : Book) (c : Call) : Decidable (b.Names c) := by
  cases c with
  | remove dst => cases dst <;> unfold Book.Names <;> infer_instance
  | _ => exact inferInstanceAs (Decidable True)

/-- The book in which routes are removed by their network. -/
def networkMachine : Machine Book Call := bookMachine.restrict Book.Names

instance (b : Book) (c : Call) : Decidable (networkMachine.enabled b c) :=
  inferInstanceAs (Decidable (True ∧ b.Names c))

/-! ## The table holds the routes -/

/-- The gateway and the interface of an entry are those of a route. -/
structure RtEntry.Serves (e : RtEntry) (r : Given) : Prop where
  nif : e.nif = some r.nif
  gateway : ∀ gate, r.gate = some gate → e.gateway = gate
  direct : r.gate = none → e.gateway.type = 0

/-- An entry holds a route. -/
structure RtEntry.Holds (e : RtEntry) (r : Given) : Prop extends e.Serves r where
  used : e.state = .used
  masklen : e.masklen = r.mask.ones
  dst : e.dst = (netaddrmask r.dst r.mask).1
  mask : e.mask = r.mask

/-- An entry is free where there is no route. -/
def RtEntry.Keeps (e : RtEntry) : Option Given → Prop
  | none => e.state = .free
  | some r => e.Holds r

/-- **The table holds the routes**, slot by slot. -/
def Books (t : RtTab) (R : Routes) : Prop := ∀ i, (t i).Keeps (R i)

section Books

variable {R : Routes}

section

variable (h : Books t R)
include h

theorem Books.holds {r : Given} (hr : R i = some r) : (t i).Holds r := by
  have hi := h i
  rw [hr] at hi
  exact hi

theorem Books.free_iff (i : Fin RT_NENTRY) : (t i).state = .free ↔ R i = none := by
  have hi := h i
  cases hr : R i with
  | none =>
    rw [hr] at hi
    exact iff_of_true hi rfl
  | some r =>
    rw [hr] at hi
    refine iff_of_false ?_ (by simp)
    rw [hi.used]
    decide

theorem Books.used_iff (i : Fin RT_NENTRY) :
    (t i).state = .used ↔ ∃ r, R i = some r ∧ (t i).Holds r := by
  constructor
  · intro hused
    obtain ⟨r, hr⟩ := Option.ne_none_iff_exists'.mp (mt (h.free_iff i).mpr (by rw [hused]; decide))
    exact ⟨r, hr, h.holds hr⟩
  · rintro ⟨r, _, hh⟩
    exact hh.used

theorem Books.hits_iff (i : Fin RT_NENTRY) (a : Addr) :
    (t i).hits a = true ↔ ∃ r, R i = some r ∧ r.Matches a := by
  simp only [RtEntry.hits, Bool.and_eq_true, decide_eq_true_eq, netaddrequal_iff]
  constructor
  · rintro ⟨hused, heq⟩
    obtain ⟨r, hr, hh⟩ := (h.used_iff i).mp hused
    rw [hh.mask, hh.dst] at heq
    exact ⟨r, hr, heq⟩
  · rintro ⟨r, hr, hm⟩
    have hh := h.holds hr
    rw [hh.mask, hh.dst]
    exact ⟨hh.used, hm⟩

/-- The default route that `rtDefault` looks for. -/
theorem Books.defaultExists_iff (mask : Addr) :
    defaultExists t mask = true ↔ R.HasDefault mask := by
  simp only [defaultExists, List.any_eq_true, Bool.and_eq_true, decide_eq_true_eq, netaddrequal_iff]
  constructor
  · rintro ⟨i, _, hused, hmask⟩
    obtain ⟨r, hr, hh⟩ := (h.used_iff i).mp hused
    exact ⟨i, r, hr, hh.mask.symm.trans hmask⟩
  · rintro ⟨i, r, hr, hmask⟩
    exact ⟨i, mem_slots i, (h.holds hr).used, (h.holds hr).mask.trans hmask⟩

theorem Books.find_free :
    slots.find? (fun i => (t i).state = .free) = slots.find? fun i => R i = none := by
  congr 1
  funext i
  rw [decide_eq_decide]
  exact h.free_iff i

/-- What `rtAdd` and `rtDefault` do once they have checked their arguments: a vacant slot is
allocated and populated with an entry that holds the route. -/
theorem Books.populate {r : Given} {e : RtTab → Fin RT_NENTRY → RtEntry}
    (he : ∀ t i, (e t i).Holds r) :
    Books (match rtAlloc t with
      | (t, none) => ((t, SYSERR) : RtTab × Int)
      | (t, some i) => (store t i (e t i), OK)).1 (R.add r) := by
  rcases halloc : rtAlloc t with ⟨t', _ | i⟩
  · obtain ⟨rfl, hfind⟩ := rtAlloc_eq_none halloc
    rw [h.find_free] at hfind
    rw [Routes.add, hfind]
    exact h
  · obtain ⟨rfl, hfind⟩ := rtAlloc_eq_some halloc
    rw [h.find_free] at hfind
    rw [Routes.add, hfind]
    -- the entry is pending before it is populated
    intro j
    by_cases hj : j = i
    · subst hj
      simp only [store, if_true]
      exact he _ _
    · simpa [store, hj] using h j

/-- Entries are freed with their routes. -/
theorem Books.freeEntries {p : RtEntry → Bool} {q : Given → Bool}
    (hpq : ∀ i r, R i = some r → p (t i) = q r) : Books (freeEntries p t) (R.drop q) := by
  intro i
  rw [freeEntries_apply, Routes.drop]
  cases hr : R i with
  | none =>
    have hfree := (h.free_iff i).mpr hr
    rw [if_neg (by rw [hfree]; simp)]
    exact hfree
  | some r =>
    have hh := h.holds hr
    rw [hpq i r hr]
    cases hq : q r
    · have hstay : (some r).filter (fun r => !q r) = some r := by simp [hq]
      rw [if_neg (by simp), hstay]
      exact hh
    · have hgone : (some r).filter (fun r => !q r) = none := by simp [hq]
      rw [if_pos ⟨hh.used, rfl⟩, hgone]
      rfl

theorem Books.add (dst gate mask : Option Addr) (nif : Option Nif) :
    Books (rtAdd t dst gate mask nif).1 (R.call (.add dst gate mask nif)) := by
  rcases dst with _ | dst
  · exact h
  rcases mask with _ | mask
  · exact h
  rcases nif with _ | nif
  · exact h
  refine h.populate fun t i => ?_
  exact
    { nif := rfl
      gateway := by rintro g rfl; rfl
      direct := by rintro rfl; rfl
      used := rfl
      masklen := maskLength_eq mask
      dst := rfl
      mask := rfl }

theorem Books.default (gate : Option Addr) (nif : Option Nif) :
    Books (rtDefault t gate nif).1 (R.call (.default gate nif)) := by
  rcases gate with _ | gate
  · exact h
  rcases nif with _ | nif
  · exact h
  rw [rtDefault, Routes.call, if_neg (not_lt.mpr gate.fits)]
  by_cases hd : R.HasDefault gate.zeroMask
  · rw [if_pos ((h.defaultExists_iff _).mpr hd), if_pos hd]
    exact h
  · rw [if_neg (mt (h.defaultExists_iff _).mp hd), if_neg hd]
    refine h.populate fun t i => ?_
    exact
      { nif := rfl
        gateway := by rintro g hg; exact Option.some.inj hg
        direct := by intro hg; simp at hg
        used := rfl
        masklen := by simp [Addr.ones, Addr.zeroMask, oneBits]
        dst := (netaddrmask_zeroMask gate).symm
        mask := rfl }

end

end Books

/-- **A call keeps the table on the routes**, if it names the routes it removes by their network. -/
theorem Books.call {b : Book} (h : Books b.rttab b.routes) {c : Call} (hc : b.Names c) :
    Books (callTab b.rttab c) (b.routes.call c) := by
  cases c with
  | add dst gate mask nif => exact h.add dst gate mask nif
  | default gate nif => exact h.default gate nif
  | remove dst =>
    rcases dst with _ | dst
    · exact h
    dsimp only [callTab, rtRemove, Routes.call]
    refine .freeEntries h ?_
    intro i r hr
    rw [Bool.eq_iff_iff, netaddrequal_iff, decide_eq_true_eq, (h.holds hr).dst, eq_comm]
    exact (hc i r hr).symm
  | clear nif =>
    rcases nif with _ | nif
    · exact h
    dsimp only [callTab, rtClear, Routes.call]
    refine .freeEntries h ?_
    intro i r hr
    rw [(h.holds hr).nif, decide_eq_decide]
    exact Option.some_inj

/-- The table holds the routes of the whole history. -/
theorem books_of_run {calls : List Call} {b : Book} (r : networkMachine.Run Book.init calls b) :
    Books b.rttab b.routes := by
  refine r.invariant (I := fun b => Books b.rttab b.routes) ?_ ?_
  · intro b c h hc
    exact .call h hc.2
  · intro i
    rfl

/-! ## Lookups -/

section Lookup

variable {R : Routes}

theorem Books.lookup_none (h : Books t R) (a : Addr) :
    rtLookup t a = none ↔ ∀ i r, R i = some r → ¬ r.Matches a := by
  rw [rtLookup_eq_none_iff]
  constructor
  · intro hnone i r hr hm
    have hhit := (h.hits_iff i a).mpr ⟨r, hr, hm⟩
    rw [hnone i] at hhit
    exact Bool.false_ne_true hhit
  · intro hnone i
    rw [← Bool.not_eq_true, h.hits_iff]
    rintro ⟨r, hr, hm⟩
    exact hnone i r hr hm

/-- What a lookup finds is the first longest match. -/
theorem Books.lookup_some (h : Books t R) {a : Addr}
    (hi : rtLookup t a = some i) : ∃ r, R.Best a i r ∧ (t i).Serves r := by
  obtain ⟨hhit, hbest⟩ := rtLookup_eq_some hi
  obtain ⟨r, hr, hm⟩ := (h.hits_iff i a).mp hhit
  have hbest' : ∀ j q, R j = some q → q.Matches a →
      q.mask.ones ≤ r.mask.ones ∧ (q.mask.ones = r.mask.ones → i ≤ j) := by
    intro j q hq hmq
    have hj := hbest j ((h.hits_iff j a).mpr ⟨q, hq, hmq⟩)
    rwa [(h.holds hq).masklen, (h.holds hr).masklen] at hj
  exact ⟨r, ⟨hr, hm, fun j q hq hmq => (hbest' j q hq hmq).1,
    fun j q hq hmq => (hbest' j q hq hmq).2⟩, (h.holds hr).toServes⟩

/-- An existing default route is left alone. -/
theorem Books.default_idle (h : Books t R) {gate : Addr} (hd : R.HasDefault gate.zeroMask)
    (nif : Option Nif) : (rtDefault t (some gate) nif).1 = t := by
  rcases nif with _ | nif
  · rfl
  · rw [rtDefault, if_neg (not_lt.mpr gate.fits), if_pos ((h.defaultExists_iff _).mpr hd)]

end Lookup

/-- No bit is set where none is counted. -/
theorem oneBits_eq_zero {n : Nat} (h : oneBits n = 0) : n = 0 := by
  induction n using Nat.strong_induction_on with
  | _ n ih =>
    by_contra hn
    have hpos := pos_of_ne_zero hn
    rw [oneBits_pos hpos] at h
    have hhalf := ih (n >>> 1) (by rw [Nat.shiftRight_one]; omega) (by omega)
    obtain rfl : n = 1 := by omega
    simp at h

theorem Given.isDefault_iff (r : Given) : r.IsDefault ↔ r.mask.ones = 0 := by
  rw [Addr.ones, List.sum_eq_zero_iff_forall_eq_nat, List.forall_mem_map]
  refine forall₂_congr fun o _ => ⟨?_, oneBits_eq_zero⟩
  rintro rfl
  rfl

/-- A route with an all-zero mask is the longest match of an address only if all its matches have
such a mask. -/
theorem Routes.Best.default {R : Routes} {a : Addr} {r : Given}
    (h : R.Best a i r) (hd : r.IsDefault) {j : Fin RT_NENTRY} {q : Given} (hq : R j = some q)
    (hm : q.Matches a) : q.IsDefault := by
  rw [Given.isDefault_iff] at hd ⊢
  have := h.longest j q hq hm
  omega

/-- **Routing is longest match over any history** in which routes are removed by their network: a
lookup fails if no route matches, and otherwise finds the first longest match, with the gateway and
interface it was given. A second default route changes no lookup, and a default route is found only
if no other kind of route matches. -/
theorem rtLookup_is_longest_match {calls : List Call} {b : Book}
    (r : networkMachine.Run Book.init calls b) (a : Addr) :
    (rtLookup b.rttab a = none ↔ ∀ i g, b.routes i = some g → ¬ g.Matches a) ∧
    (∀ i, rtLookup b.rttab a = some i → ∃ g, b.routes.Best a i g ∧ (b.rttab i).Serves g) ∧
    (∀ gate nif, b.routes.HasDefault gate.zeroMask →
      rtLookup (rtDefault b.rttab (some gate) nif).1 a = rtLookup b.rttab a) ∧
    (∀ i g, rtLookup b.rttab a = some i → b.routes i = some g → g.IsDefault →
      ∀ j q, b.routes j = some q → q.Matches a → q.IsDefault) := by
  have h := books_of_run r
  refine ⟨h.lookup_none a, fun i hi => h.lookup_some hi, fun gate nif hd => ?_, ?_⟩
  · rw [h.default_idle hd]
  · intro i g hi hg hd j q hq hm
    obtain ⟨g', hbest, _⟩ := h.lookup_some hi
    obtain rfl : g' = g := Option.some.inj (hbest.slot.symm.trans hg)
    exact hbest.default hd hq hm

/-! ## Runs -/

/-- `NETADDR_IPv4`, the address type of the routes below. -/
def NETADDR_IPv4 : Nat := 0x0800

/-- An IPv4 address. -/
def ipv4 (a b c d : UInt8) : Addr where
  type := NETADDR_IPv4
  addr := [a.toNat, b.toNat, c.toNat, d.toNat]
  fits := Nat.le_of_ble_eq_true rfl
  octet := by
    intro o ho
    simp only [List.mem_cons, List.not_mem_nil, or_false] at ho
    rcases ho with rfl | rfl | rfl | rfl <;> exact UInt8.toNat_lt _

/-- A default route, a network, and a subnetwork of it in the slot of a third route. -/
def nested : List Call :=
  [.default (some (ipv4 192 168 1 1)) (some 0),
    .add (some (ipv4 172 16 5 0)) none (some (ipv4 255 255 255 0)) (some 1),
    .add (some (ipv4 10 0 0 0)) none (some (ipv4 255 0 0 0)) (some 0),
    .remove (some (ipv4 172 16 5 0)),
    .add (some (ipv4 10 1 2 3)) (some (ipv4 10 0 0 9)) (some (ipv4 255 255 0 0)) (some 2)]

/-- The route of the subnetwork is found, in slot 1. -/
theorem rtLookup_is_longest_match_nested :
    ∃ g, (networkMachine.after Book.init nested).routes.Best (ipv4 10 1 7 7) 1 g ∧
      ((networkMachine.after Book.init nested).rttab 1).Serves g :=
  (rtLookup_is_longest_match Machine.run_after (ipv4 10 1 7 7)).2.1 1
    (by decide +kernel)

/-- A route is added with a host as its destination, and removed by that same destination. -/
def byHost : List Call :=
  [.add (some (ipv4 10 1 2 3)) none (some (ipv4 255 0 0 0)) (some 0),
    .remove (some (ipv4 10 1 2 3))]

/-- The route is still found: the table has the destination 10.0.0.0. -/
theorem rtRemove_by_host_is_ignored :
    ∃ b, bookMachine.Run Book.init byHost b ∧ (∀ i, b.routes i = none) ∧
      rtLookup b.rttab (ipv4 10 9 9 9) = some 0 := by
  have henabled : bookMachine.Enables Book.init byHost := ⟨trivial, trivial, trivial⟩
  refine ⟨_, Machine.run_after henabled, ?_, ?_⟩
  · decide
  · decide +kernel

end Xinu.Route
