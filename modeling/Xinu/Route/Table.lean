import Mathlib.Algebra.Order.Group.Nat
import Mathlib.Data.List.MinMax
import Mathlib.Data.Nat.Bits
import Xinu.Tcp.State

/-!
# The routing table

The table has a fixed number of slots, each free, pending or used. A route is put in the first free
slot with its destination masked and the one bits of its mask counted; a lookup goes over all slots
and remembers the first one with the longest mask among those that match. Interrupts are disabled
while `rtAlloc` takes a slot and in `rtRemove`, `rtClear` and `rtLookup`, but not while `rtAdd` and
`rtDefault` fill their slot in: it is pending until then, and no other function touches a pending
slot. Here each call is one step.

## Main results

* `maskLength_eq`: the nested loops count the one bits of the mask
* `rtLookup_eq_argmax`: the loop of `rtLookup` takes the first longest mask among the entries that
  match
-/

namespace Xinu.Route

open List

open Tcp (NetAddr)

/-! ## Network addresses -/

/-- Maximum network address length. -/
def NET_MAX_ALEN : Nat := 6

/-- `struct netaddr` with the octets that `len` gives: they fit in its array. -/
structure Addr extends NetAddr where
  fits : addr.length ≤ NET_MAX_ALEN
  octet : ∀ o ∈ addr, o < 2 ^ 8
deriving DecidableEq

/-- The length of an address. -/
abbrev Addr.len (a : Addr) : Nat := a.addr.length

/-- `netaddrequal`: the type, the length and the octets are compared. -/
def netaddrequal (a b : Addr) : Bool :=
  if a.type ≠ b.type then false
  else if a.len ≠ b.len then false
  else a.addr = b.addr

@[simp] theorem netaddrequal_iff (a b : Addr) : netaddrequal a b = true ↔ a = b := by
  obtain ⟨⟨ta, oa⟩, _, _⟩ := a
  obtain ⟨⟨tb, ob⟩, _, _⟩ := b
  simp only [netaddrequal, Addr.len, Addr.mk.injEq, NetAddr.mk.injEq]
  constructor
  · intro h
    by_cases ht : ta = tb
    · by_cases hl : oa.length = ob.length
      · rw [if_neg (not_not.mpr ht), if_neg (not_not.mpr hl)] at h
        exact ⟨ht, of_decide_eq_true h⟩
      · rw [if_neg (not_not.mpr ht), if_pos hl] at h
        simp at h
    · rw [if_pos ht] at h
      simp at h
  · rintro ⟨rfl, rfl⟩
    simp

/-- The address with each octet masked. -/
def Addr.masked (a mask : Addr) : Addr where
  type := a.type
  addr := List.zipWith (· &&& ·) a.addr mask.addr
  fits := by
    rw [length_zipWith]
    exact le_trans (min_le_left _ _) a.fits
  octet := by
    intro o ho
    obtain ⟨i, hi, rfl⟩ := getElem_of_mem ho
    rw [length_zipWith] at hi
    rw [getElem_zipWith]
    exact Nat.and_lt_two_pow _ (mask.octet _ (getElem_mem _))

/-- `netaddrmask`: an address of another type or length than the mask is left as it is. -/
def netaddrmask (a mask : Addr) : Addr × Int :=
  if a.type ≠ mask.type then (a, SYSERR)
  else if a.len ≠ mask.len then (a, SYSERR)
  else (a.masked mask, OK)

/-- The mask of a default route: no octet of it is set. -/
def Addr.zeroMask (gate : Addr) : Addr where
  type := gate.type
  addr := List.replicate gate.len 0
  fits := by
    rw [length_replicate]
    exact gate.fits
  octet := by
    intro o ho
    rw [eq_of_mem_replicate ho]
    decide

/-- An all-zero mask masks itself to itself. -/
theorem netaddrmask_zeroMask (gate : Addr) :
    (netaddrmask gate.zeroMask gate.zeroMask).1 = gate.zeroMask := by
  rw [netaddrmask, if_neg (not_not.mpr rfl), if_neg (not_not.mpr rfl)]
  simp [Addr.masked, Addr.zeroMask]

/-! ## The length of a mask -/

/-- The inner loop of `rtAdd`: the non-zero bits of an octet. -/
def octetBits (octet length : Nat) : Nat :=
  if h : 0 < octet then
    octetBits (octet >>> 1) (if octet &&& 1 ≠ 0 then length + 1 else length)
  else length
termination_by octet
decreasing_by
  rw [Nat.shiftRight_one]
  exact Nat.div_lt_self h (by decide)

/-- The loops of `rtAdd` over the octets of the mask. -/
def maskLength (mask : Addr) : Nat :=
  mask.addr.foldl (fun length octet => octetBits octet length) 0

/-- The number of one bits of a number. -/
def oneBits (n : Nat) : Nat := n.bits.count true

/-- The number of one bits of an address. -/
def Addr.ones (a : Addr) : Nat := (a.addr.map oneBits).sum

theorem oneBits_pos {n : Nat} (h : 0 < n) :
    oneBits n = (if n &&& 1 ≠ 0 then 1 else 0) + oneBits (n >>> 1) := by
  have hbit : n = Nat.bit n.bodd n.div2 := (Nat.bit_bodd_div2 n).symm
  have hbits : n.bits = n.bodd :: n.div2.bits := by
    conv_lhs => rw [hbit]
    refine Nat.bits_append_bit _ _ fun h0 => ?_
    -- the only number whose half is zero here is one
    by_contra hodd
    rw [Bool.not_eq_true] at hodd
    rw [h0, hodd] at hbit
    simp at hbit
    omega
  rw [oneBits, hbits, count_cons, Nat.div2_val, Nat.shiftRight_one, Nat.and_one_is_mod,
    oneBits, add_comm]
  congr 1
  rw [Nat.mod_two_of_bodd]
  cases n.bodd <;> simp

theorem octetBits_eq (octet length : Nat) : octetBits octet length = length + oneBits octet := by
  induction octet using Nat.strong_induction_on generalizing length with
  | _ octet ih =>
    rw [octetBits]
    by_cases h : 0 < octet
    · have hlt : octet >>> 1 < octet := by
        exact Nat.div_lt_self h (by decide)
      rw [dif_pos h, ih _ hlt, oneBits_pos h]
      split <;> omega
    · obtain rfl : octet = 0 := by omega
      rfl

/-- The nested loops count the one bits of the mask. -/
theorem maskLength_eq (mask : Addr) : maskLength mask = mask.ones := by
  have hfold : ∀ (l : List Nat) (n : Nat),
      l.foldl (fun length octet => octetBits octet length) n = n + (l.map oneBits).sum := by
    intro l
    induction l with
    | nil => simp
    | cons o l ih =>
      intro n
      rw [foldl_cons, ih, octetBits_eq, map_cons, sum_cons, add_assoc]
  rw [maskLength, hfold, zero_add]
  rfl

/-! ## The table -/

/-- Number of entries of the table. -/
def RT_NENTRY : Nat := 32

instance : NeZero RT_NENTRY := ⟨by decide⟩

/-- `RT_FREE`, `RT_USED` and `RT_PEND`. -/
inductive RtState
  | free
  | used
  | pend
deriving DecidableEq

/-- An interface, by its place in `netiftab`. -/
abbrev Nif := Nat

/-- The cleared address, of no octets. -/
def Addr.null : Addr := ⟨⟨0, []⟩, by decide, by simp⟩

/-- `struct rtEntry`. -/
structure RtEntry where
  state : RtState := .free
  masklen : Nat := 0
  dst : Addr := Addr.null
  gateway : Addr := Addr.null
  mask : Addr := Addr.null
  nif : Option Nif := none
deriving DecidableEq

/-- `rttab`. -/
abbrev RtTab := Fin RT_NENTRY → RtEntry

/-- The slots in the order of the loops. -/
abbrev slots : List (Fin RT_NENTRY) := List.finRange RT_NENTRY

/-- `rtInit`: all entries are clear and free. -/
def rtInit : RtTab := fun _ => {}

/-- `rtAlloc`: the first free entry is pending. -/
def rtAlloc (t : RtTab) : RtTab × Option (Fin RT_NENTRY) :=
  match slots.find? fun i => (t i).state = .free with
  | some i => (store t i { t i with state := .pend }, some i)
  | none => (t, none)

/-- `rtAdd`. A route with no gateway gets the type `NULL` and keeps what else the slot had there. -/
def rtAdd (t : RtTab) (dst gate mask : Option Addr) (nif : Option Nif) : RtTab × Int :=
  match dst, mask, nif with
  | some dst, some mask, some nif =>
    match rtAlloc t with
    | (t, none) => (t, SYSERR)
    | (t, some i) =>
      (store t i
        { state := .used
          masklen := maskLength mask
          dst := (netaddrmask dst mask).1
          gateway := match gate with
            | none => { (t i).gateway with type := 0 }
            | some gate => gate
          mask := mask
          nif := some nif }, OK)
  | _, _, _ => (t, SYSERR)

/-- The check of `rtDefault`: an entry in use has the mask. -/
def defaultExists (t : RtTab) (mask : Addr) : Bool :=
  slots.any fun i => (t i).state = .used && netaddrequal (t i).mask mask

/-- `rtDefault`. -/
def rtDefault (t : RtTab) (gate : Option Addr) (nif : Option Nif) : RtTab × Int :=
  match gate, nif with
  | some gate, some nif =>
    if gate.len > NET_MAX_ALEN then (t, SYSERR)
    else if defaultExists t gate.zeroMask then (t, OK)
    else
      match rtAlloc t with
      | (t, none) => (t, SYSERR)
      | (t, some i) =>
        (store t i
          { state := .used
            masklen := 0
            dst := gate.zeroMask
            gateway := gate
            mask := gate.zeroMask
            nif := some nif }, OK)
  | _, _ => (t, SYSERR)

/-- The loop that `rtRemove` and `rtClear` have in common: the used entries with a property are
freed. -/
def freeEntries (p : RtEntry → Bool) (t : RtTab) : RtTab :=
  slots.foldl (fun t i =>
    if (t i).state = .used ∧ p (t i) then store t i { t i with state := .free, nif := none }
    else t) t

/-- `rtRemove`: the entries whose destination is the one given. -/
def rtRemove (t : RtTab) (dst : Option Addr) : RtTab × Int :=
  match dst with
  | none => (t, SYSERR)
  | some dst => (freeEntries (fun e => netaddrequal dst e.dst) t, OK)

/-- `rtClear`: the entries of an interface. -/
def rtClear (t : RtTab) (nif : Option Nif) : RtTab × Int :=
  match nif with
  | none => (t, SYSERR)
  | some nif => (freeEntries (fun e => e.nif = some nif) t, OK)

/-- The entry is in use and its destination is the masked address. -/
def RtEntry.hits (e : RtEntry) (a : Addr) : Bool :=
  e.state = .used && netaddrequal (netaddrmask a e.mask).1 e.dst

/-- One round of `rtLookup`: the match so far gives way to one that is better. -/
def lookupRound (t : RtTab) (a : Addr) (rtptr : Option (Fin RT_NENTRY)) (i : Fin RT_NENTRY) :
    Option (Fin RT_NENTRY) :=
  if (t i).hits a then
    match rtptr with
    | none => some i
    | some j => if (t j).masklen < (t i).masklen then some i else some j
  else rtptr

/-- `rtLookup`. -/
def rtLookup (t : RtTab) (a : Addr) : Option (Fin RT_NENTRY) :=
  slots.foldl (lookupRound t a) none

/-! ## What the functions do -/

theorem mem_slots (i : Fin RT_NENTRY) : i ∈ slots := mem_finRange i

/-- The loop of `rtLookup` takes the first longest mask among the entries that match. -/
theorem rtLookup_eq_argmax (t : RtTab) (a : Addr) :
    rtLookup t a = (slots.filter fun i => (t i).hits a).argmax fun i => (t i).masklen := by
  rw [rtLookup, List.argmax, foldl_filter]
  congr 1
  funext rtptr i
  unfold lookupRound List.argAux
  by_cases h : (t i).hits a = true
  · rw [if_pos h, if_pos h]
    cases rtptr <;> rfl
  · rw [if_neg h, if_neg h]

theorem rtLookup_eq_none_iff (t : RtTab) (a : Addr) :
    rtLookup t a = none ↔ ∀ i, (t i).hits a = false := by
  rw [rtLookup_eq_argmax, argmax_eq_none, filter_eq_nil_iff]
  constructor
  · intro h i
    simpa using h i (mem_slots i)
  · intro h i _
    simp [h i]

/-- What a lookup finds matches, no match has a longer mask, and one that is as long comes later. -/
theorem rtLookup_eq_some {t : RtTab} {a : Addr} {i : Fin RT_NENTRY} (h : rtLookup t a = some i) :
    (t i).hits a = true ∧ ∀ j, (t j).hits a = true →
      (t j).masklen ≤ (t i).masklen ∧ ((t j).masklen = (t i).masklen → i ≤ j) := by
  rw [rtLookup_eq_argmax] at h
  obtain ⟨hi, hmax, hfirst⟩ := mem_argmax_iff.mp (Option.mem_def.mpr h)
  have hmem : ∀ j, (t j).hits a = true → j ∈ slots.filter fun i => (t i).hits a := fun j hj =>
    mem_filter.mpr ⟨mem_slots j, hj⟩
  refine ⟨(mem_filter.mp hi).2, fun j hj => ⟨hmax j (hmem j hj), fun heq => ?_⟩⟩
  -- the slots that match stand in the order of their indices
  have hidx := hfirst j (hmem j hj) heq.ge
  have hsorted : (slots.filter fun i => (t i).hits a).Pairwise (· < ·) :=
    (pairwise_lt_finRange _).filter _
  by_contra hlt
  rcases hidx.lt_or_eq with hidx | hidx
  · have hij := pairwise_iff_getElem.mp hsorted _ _ (idxOf_lt_length_iff.mpr hi)
      (idxOf_lt_length_iff.mpr (hmem j hj)) hidx
    rw [getElem_idxOf, getElem_idxOf] at hij
    exact hlt (Nat.le_of_lt hij)
  · obtain rfl := (idxOf_inj hi).mp hidx
    exact hlt (Nat.le_refl _)

/-- An entry is allocated: it was free, and no earlier one is. -/
theorem rtAlloc_eq_some {t t' : RtTab} {i : Fin RT_NENTRY} (h : rtAlloc t = (t', some i)) :
    t' = store t i { t i with state := .pend } ∧
      slots.find? (fun i => (t i).state = .free) = some i := by
  unfold rtAlloc at h
  split at h
  · rename_i j hj
    obtain ⟨rfl, hij⟩ := Prod.mk.inj h
    cases hij
    exact ⟨rfl, hj⟩
  · simp at h

theorem rtAlloc_eq_none {t t' : RtTab} (h : rtAlloc t = (t', none)) :
    t' = t ∧ slots.find? (fun i => (t i).state = .free) = none := by
  unfold rtAlloc at h
  split at h
  · simp at h
  · rename_i hj
    exact ⟨(Prod.mk.inj h).1.symm, hj⟩

/-- The loop of `rtRemove` and `rtClear` changes each entry on its own. -/
theorem freeEntries_apply (p : RtEntry → Bool) (t : RtTab) (i : Fin RT_NENTRY) :
    freeEntries p t i =
      if (t i).state = .used ∧ p (t i) then { t i with state := .free, nif := none } else t i := by
  -- the slots still to come are as they were, those behind are done
  have hfold : ∀ (l : List (Fin RT_NENTRY)) (t : RtTab), l.Nodup →
      l.foldl (fun t i => if (t i).state = .used ∧ p (t i) then
          store t i { t i with state := .free, nif := none } else t) t i =
        if i ∈ l then
          if (t i).state = .used ∧ p (t i) then { t i with state := .free, nif := none } else t i
        else t i := by
    intro l
    induction l with
    | nil => intro t _; simp
    | cons j l ih =>
      intro t hnd
      obtain ⟨hj, hl⟩ := nodup_cons.mp hnd
      rw [foldl_cons, ih _ hl]
      by_cases hij : i = j
      · subst hij
        rw [if_neg hj, if_pos mem_cons_self]
        split <;> simp [store]
      · have hsame : (if (t j).state = .used ∧ p (t j) then
            store t j { t j with state := .free, nif := none } else t) i = t i := by
          split
          · simp [store, hij]
          · rfl
        rw [hsame]
        simp [hij]
  rw [freeEntries, hfold _ _ (nodup_finRange _), if_pos (mem_slots i)]

end Xinu.Route
