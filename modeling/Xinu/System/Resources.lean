import Xinu.Memory.Restore
import Xinu.Sched.Resources
import Xinu.System.Runs

/-!
# Threads and their stacks

`create` takes a slot of the thread table and a stack, `kill` gives both back, in two parts: it
counts the victim out and tells the parent, and when it has the processor again it tears the victim
down. What other threads have done in between it does not look at. In runs in which the calls of
`kill` keep out of each other's way no stack is lost or given back twice, and the counter of threads
is right whenever no call of `kill` is under way.

## Main results

* `Resources.Kept.change`: every careful step keeps the books
* `resources_conserved`: what holds of every careful run
* `create_fails_clean_iff`: when a `create` that fails leaves everything as it was
-/

namespace Xinu

set_option maxRecDepth 8000

open List Function Intervals

theorem perm_filter_cons {l : List Int} {t : Int} {p q : Int → Bool} (hl : l.Nodup) (ht : t ∈ l)
    (hp : p t = false) (hq : ∀ x ∈ l, q x = true ↔ x = t ∨ p x = true) :
    (l.filter q).Perm (t :: l.filter p) := by
  refine (perm_ext_iff_of_nodup (hl.filter q)
    (nodup_cons.mpr ⟨by simp [hp], hl.filter p⟩)).mpr fun x => ?_
  simp only [mem_filter, mem_cons]
  constructor
  · rintro ⟨hx, hqx⟩
    exact ((hq x hx).mp hqx).imp_right fun h => ⟨hx, h⟩
  · rintro (rfl | ⟨hx, hpx⟩)
    · exact ⟨ht, (hq _ ht).mpr (.inl rfl)⟩
    · exact ⟨hx, (hq x hx).mpr (.inr hpx)⟩

namespace Resources

variable (R : Resources)

/-- The slots that are taken. -/
def occupied : List Int := tids.filter fun t => (R.slot t).live

/-- The threads that are inside `kill`. -/
def killers : List Int := tids.filter fun t => (R.slot t).live && (R.slot t).ctx.victim.isSome

/-- The stack of the thread in the slot `t`. -/
def lease (t : Int) : Lease := ⟨.stkget, (R.slot t).stkbase, (R.slot t).stklen⟩

/-- The stacks of the threads other than the null thread. -/
def leases : List Lease := (R.occupied.filter (· ≠ NULLTHREAD)).map R.lease

/-- The step of the thread `u` does not ask for a stack when there is no slot for a thread, nor for
a size that wraps when it is rounded, and does not interfere with a `kill` that is under way: no two
calls are about one thread, and no thread is killed or kills that is part of another call. -/
def Careful (u : Int) : Op → Prop
  | .create ssize _ =>
    ssize ≤ 2 ^ 32 - 8 ∧
      ((R.heap.stkget (Sched.stackSize ssize)).2 = none ∨ ∃ t ∈ tids, (R.slot t).live = false)
  | .kill t =>
    (R.slot t).live = true → t ∉ R.killers ∧
      ∀ w ∈ R.killers, (R.slot w).ctx ≠ .kill t ∧ (R.slot w).ctx ≠ .kill u
  | _ => True

instance (u : Int) : ∀ op : Op, Decidable (R.Careful u op) := by
  rintro ⟨⟩ <;> unfold Careful <;> infer_instance

end Resources

/-- What an observer of `create` and `kill` has noted. -/
structure KillLog where
  /-- how many threads have been created in each slot -/
  births : Int → Nat := fun _ => 0
  /-- for a thread inside `kill`, which of the threads in its victim's slot it was called for -/
  aims : Int → Nat := fun _ => 0
  /-- whether a stack has been given back that was not a thread's any more -/
  refreed : Bool := false
  /-- whether a thread has been torn down by a `kill` that was called for an earlier one -/
  misaimed : Bool := false

/-- What the observer notes of the step `op` of the thread `u`, which is left in the context `k`. -/
def KillLog.observe (R : Resources) (u : Int) (op : Op) (k : Context) (log : KillLog) : KillLog :=
  match op, k with
  | .create _ _, .ret t =>
    if t = SYSERR then log else { log with births := store log.births t (log.births t + 1) }
  | .kill t, .kill _ => { log with aims := store log.aims u (log.births t) }
  | .cont, _ =>
    match (R.slot u).ctx with
    | .kill t =>
      { log with
        refreed := log.refreed || decide ((R.slot t).live = false ∨
          (R.heap.stkfree (R.slot t).stkbase (R.slot t).stklen).2 ≠ OK)
        misaimed := log.misaimed || decide (log.births t ≠ log.aims u) }
    | _ => log
  | _, _ => log

/-- The kernel with the observer. -/
def killMachine : Machine (Kernel × KillLog) Op where
  enabled p op := kernelMachine.enabled p.1 op ∧ p.1.Orderly op
  next p op :=
    (p.1.exec op, p.2.observe p.1.resources p.1.thrcurrent op (p.1.call op).2)

instance (p : Kernel × KillLog) (op : Op) : Decidable (killMachine.enabled p op) :=
  inferInstanceAs (Decidable (_ ∧ _))

/-- The kernel with the observer, in careful runs. -/
def carefulMachine : Machine (Kernel × KillLog) Op :=
  killMachine.restrict fun p op => p.1.resources.Careful p.1.thrcurrent op

instance (p : Kernel × KillLog) (op : Op) : Decidable (carefulMachine.enabled p op) :=
  inferInstanceAs (Decidable (_ ∧ _))

/-! ## The books -/

namespace Resources

variable {R R' : Resources} {u t w : Int} {op : Op} {k : Context} {log : KillLog} {f : Slot → Slot}

theorem slot_modSlot_self (R : Resources) (t : Int) (f : Slot → Slot) :
    (R.modSlot t f).slot t = f (R.slot t) := update_self ..

theorem slot_modSlot_of_ne (R : Resources) (f : Slot → Slot) (h : w ≠ t) :
    (R.modSlot t f).slot w = R.slot w := update_of_ne h ..

theorem mem_occupied : t ∈ R.occupied ↔ IsTid t ∧ (R.slot t).live = true := by
  rw [occupied, mem_filter, mem_tids]

theorem mem_killers :
    w ∈ R.killers ↔ IsTid w ∧ (R.slot w).live = true ∧ (R.slot w).ctx.victim.isSome = true := by
  rw [killers, mem_filter, mem_tids, Bool.and_eq_true]

/-- The books of a state: a thread inside `kill` is about a thread that is in the system, for which
it was called; nobody else is about that thread, and it is in no other call itself; the threads
that `kill` has counted out are still in the system; and the stacks of the threads are what is
missing from the free list. -/
structure Kept (R : Resources) (log : KillLog) : Prop where
  victim : ∀ w ∈ R.killers, ∀ t, (R.slot w).ctx = .kill t →
    t ∈ R.occupied ∧ (t ∈ R.killers → t = w) ∧ log.aims w = log.births t
  distinct : ∀ w ∈ R.killers, ∀ w' ∈ R.killers, (R.slot w).ctx = (R.slot w').ctx → w = w'
  count : R.thrcount + R.killers.length = R.occupied.length
  ledger : (Ledger.mk R.heap R.leases).Sound
  refreed : log.refreed = false
  misaimed : log.misaimed = false

theorem leases_congr (h : ∀ t, (R'.slot t).live = (R.slot t).live ∧
    (R'.slot t).stkbase = (R.slot t).stkbase ∧ (R'.slot t).stklen = (R.slot t).stklen) :
    R'.occupied = R.occupied ∧ R'.leases = R.leases := by
  have hocc : R'.occupied = R.occupied := by
    simp only [occupied, fun t => (h t).1]
  refine ⟨hocc, ?_⟩
  have hlease : R'.lease = R.lease := by
    funext t
    rw [lease, (h t).2.1, (h t).2.2, lease]
  rw [leases, hocc, hlease, leases]

theorem leases_setCtx (R : Resources) (u : Int) (k : Context) :
    (R.setCtx u k).occupied = R.occupied ∧ (R.setCtx u k).leases = R.leases := by
  refine leases_congr fun t => ?_
  by_cases htu : t = u
  · subst htu
    rw [setCtx, slot_modSlot_self]
    exact ⟨rfl, rfl, rfl⟩
  · rw [setCtx, slot_modSlot_of_ne R _ htu]
    exact ⟨rfl, rfl, rfl⟩

theorem killers_setCtx (hu : (R.slot u).ctx.victim = none) (hk : k.victim = none) :
    (R.setCtx u k).killers = R.killers := by
  refine filter_congr fun t _ => ?_
  by_cases htu : t = u
  · subst htu
    rw [setCtx, slot_modSlot_self]
    simp only [hu, hk]
  · rw [setCtx, slot_modSlot_of_ne R _ htu]

theorem not_mem_killers (h : (R.slot u).ctx.victim = none) : u ∉ R.killers := by
  simp [mem_killers, h]

theorem victim_user (h : (R.slot u).ctx = .user) : (R.slot u).ctx.victim = none := by
  rw [h]
  rfl

section

variable (K : R.Kept log)
include K

/-- A step that has nothing to do with `kill` or `create`. -/
theorem Kept.setCtx (hu : (R.slot u).ctx.victim = none) (hk : k.victim = none) :
    (R.setCtx u k).Kept log := by
  have hkill := killers_setCtx hu hk
  obtain ⟨hocc, hleases⟩ := R.leases_setCtx u k
  have hslot : ∀ w ∈ R.killers, (R.setCtx u k).slot w = R.slot w := by
    intro w hw
    refine slot_modSlot_of_ne R _ ?_
    rintro rfl
    exact not_mem_killers hu hw
  refine ⟨fun w hw t ht => ?_, fun w hw w' hw' h => ?_, ?_, ?_, K.refreed, K.misaimed⟩
  · rw [hkill] at hw ⊢
    rw [hslot w hw] at ht
    rw [hocc]
    exact K.victim w hw t ht
  · rw [hkill] at hw hw'
    rw [hslot w hw, hslot w' hw'] at h
    exact K.distinct w hw w' hw' h
  · rw [hkill, hocc]
    exact K.count
  · rw [hleases]
    exact K.ledger

/-- A new thread with its stack. -/
theorem Kept.create {n a : Nat} {h : Heap} (h0 : 0 < n) (hn : n ≤ 2 ^ 32 - 8)
    (hget : R.heap.stkget n = (h, some a)) (ht : IsTid t) (hnull : t ≠ NULLTHREAD)
    (hfree : (R.slot t).live = false) :
    (Resources.mk (update R.slot t ⟨true, a, n, .user⟩) h (R.thrcount + 1)).Kept
      { log with births := store log.births t (log.births t + 1) } := by
  set R' : Resources := ⟨update R.slot t ⟨true, a, n, .user⟩, h, R.thrcount + 1⟩ with hR'
  have hself : R'.slot t = ⟨true, a, n, .user⟩ := update_self ..
  have hother : ∀ {w}, w ≠ t → R'.slot w = R.slot w := fun hw => update_of_ne hw ..
  have hocc : R'.occupied.Perm (t :: R.occupied) := by
    refine perm_filter_cons nodup_tids (mem_tids.mpr ht) hfree fun x _ => ?_
    by_cases hx : x = t
    · subst hx
      simp [hself]
    · simp [hother hx, hx]
  have hkill : R'.killers = R.killers := by
    refine filter_congr fun x _ => ?_
    by_cases hx : x = t
    · subst hx
      simp [hself, hfree, Context.victim]
    · rw [hother hx]
  have hne : ∀ {w}, w ∈ R.occupied → w ≠ t := by
    rintro w hw rfl
    simp [mem_occupied, hfree] at hw
  have hlive : ∀ {w}, w ∈ R.killers → w ∈ R.occupied := by
    intro w hw
    rw [mem_killers] at hw
    exact mem_occupied.mpr ⟨hw.1, hw.2.1⟩
  have hleases : R'.leases.Perm (⟨.stkget, a, n⟩ :: R.leases) := by
    have hperm := (hocc.filter (· ≠ NULLTHREAD)).map R'.lease
    rw [filter_cons_of_pos (by simpa using hnull), map_cons] at hperm
    refine hperm.trans ?_
    rw [lease, hself, leases]
    refine List.Perm.of_eq (congrArg _ (map_congr_left fun w hw => ?_))
    rw [lease, hother (hne (mem_filter.mp hw).1), lease]
  refine ⟨fun w hw t' ht' => ?_, fun w hw w' hw' h => ?_, ?_, ?_, K.refreed, K.misaimed⟩
  · rw [hkill] at hw ⊢
    rw [hother (hne (hlive hw))] at ht'
    obtain ⟨hv, hv', haim⟩ := K.victim w hw t' ht'
    refine ⟨hocc.mem_iff.mpr (mem_cons_of_mem _ hv), hv', ?_⟩
    rw [haim]
    simp [store, hne hv]
  · rw [hkill] at hw hw'
    rw [hother (hne (hlive hw)), hother (hne (hlive hw'))] at h
    exact K.distinct w hw w' hw' h
  · rw [hkill, hocc.length_eq, length_cons]
    have := K.count
    push_cast
    change R.thrcount + 1 + _ = _
    omega
  · have hs := K.ledger.get .stkget h0 hn
    simp only [Ledger.next, Source.get, hget] at hs
    exact hs.perm hleases.symm

/-- The first part of `kill`. -/
theorem Kept.kill (hu : u ∈ R.occupied) (huser : (R.slot u).ctx = .user)
    (ht : t ∈ R.occupied) (hcareful : t ∉ R.killers ∧
      ∀ w ∈ R.killers, (R.slot w).ctx ≠ .kill t ∧ (R.slot w).ctx ≠ .kill u) :
    ({ R with thrcount := R.thrcount - 1 }.setCtx u (.kill t)).Kept
      { log with aims := store log.aims u (log.births t) } := by
  set R' : Resources := { R with thrcount := R.thrcount - 1 }.setCtx u (.kill t) with hR'
  obtain ⟨hocc, hleases⟩ := leases_setCtx { R with thrcount := R.thrcount - 1 } u (.kill t)
  have hself : (R'.slot u).ctx = .kill t := by
    rw [hR', Resources.setCtx, slot_modSlot_self]
  have hother : ∀ {w}, w ≠ u → R'.slot w = R.slot w := fun hw => slot_modSlot_of_ne _ _ hw
  have hnot : u ∉ R.killers := not_mem_killers (victim_user huser)
  have hu' := mem_occupied.mp hu
  have hkill : R'.killers.Perm (u :: R.killers) := by
    refine perm_filter_cons nodup_tids (mem_tids.mpr hu'.1) (by simp [huser, Context.victim])
      fun x _ => ?_
    by_cases hx : x = u
    · subst hx
      simp only [hself, true_or, iff_true, Context.victim, Option.isSome_some, Bool.and_true]
      rw [hR', Resources.setCtx, slot_modSlot_self]
      exact hu'.2
    · rw [hother hx]
      simp [hx]
  have hmem : ∀ {w}, w ∈ R'.killers ↔ w = u ∨ w ∈ R.killers := by
    intro w
    rw [hkill.mem_iff, mem_cons]
  have hne : ∀ {w}, w ∈ R.killers → w ≠ u := by
    rintro w hw rfl
    exact hnot hw
  refine ⟨fun w hw t' ht' => ?_, fun w hw w' hw' h => ?_, ?_, ?_, K.refreed, K.misaimed⟩
  · rw [hocc]
    rcases hmem.mp hw with rfl | hwR
    · obtain rfl : t = t' := Context.kill.inj (hself.symm.trans ht')
      refine ⟨ht, fun h => (hmem.mp h).resolve_right hcareful.1, ?_⟩
      simp [store]
    · rw [hother (hne hwR)] at ht'
      obtain ⟨hv, hv', haim⟩ := K.victim w hwR t' ht'
      refine ⟨hv, fun h => (hmem.mp h).elim (fun htu => ?_) hv', ?_⟩
      · exact absurd (htu ▸ ht') (hcareful.2 w hwR).2
      · rw [← haim]
        simp [store, hne hwR]
  · rcases hmem.mp hw with hwu | hwR <;> rcases hmem.mp hw' with hwu' | hwR'
    · rw [hwu, hwu']
    · rw [hwu, hself, hother (hne hwR')] at h
      exact absurd h.symm (hcareful.2 w' hwR').1
    · rw [hwu', hself, hother (hne hwR)] at h
      exact absurd h (hcareful.2 w hwR).1
    · rw [hother (hne hwR), hother (hne hwR')] at h
      exact K.distinct w hwR w' hwR' h
  · rw [hkill.length_eq, hocc, length_cons]
    have := K.count
    change R.thrcount - 1 + _ = (R.occupied.length : Int)
    push_cast
    omega
  · rw [hleases]
    exact K.ledger

theorem Kept.tearDown (hu : u ∈ R.occupied) (hctx : (R.slot u).ctx = .kill t)
    (hnull : t ≠ NULLTHREAD) (hk : k.victim = none) :
    (((R.stkfree t).modSlot t fun x => { x with live := false }).setCtx u k).Kept log ∧
      (R.heap.stkfree (R.slot t).stkbase (R.slot t).stklen).2 = OK ∧ log.births t = log.aims u := by
  set R₁ : Resources := (R.stkfree t).modSlot t fun x => { x with live := false } with hR₁
  have hu' := mem_occupied.mp hu
  have huk : u ∈ R.killers := by
    rw [mem_killers, hctx]
    exact ⟨hu'.1, hu'.2, rfl⟩
  obtain ⟨ht, ht', haim⟩ := K.victim u huk t hctx
  obtain ⟨hocc, hleases⟩ := R₁.leases_setCtx u k
  have hself : R₁.slot t = { R.slot t with live := false } := slot_modSlot_self _ _ _
  have hother : ∀ {w}, w ≠ t → R₁.slot w = R.slot w := fun hw => slot_modSlot_of_ne _ _ hw
  have hocc₁ : R.occupied.Perm (t :: R₁.occupied) := by
    refine perm_filter_cons nodup_tids (mem_tids.mpr (mem_occupied.mp ht).1) (by rw [hself])
      fun x _ => ?_
    by_cases hx : x = t
    · subst hx
      simpa using (mem_occupied.mp ht).2
    · simp [hother hx, hx]
  have hleases₁ : R.leases.Perm (R.lease t :: R₁.leases) := by
    have hperm := (hocc₁.filter (· ≠ NULLTHREAD)).map R.lease
    rw [filter_cons_of_pos (by simpa using hnull), map_cons] at hperm
    refine hperm.trans (List.Perm.of_eq (congrArg _ (map_congr_left fun w hw => ?_)))
    have hwt : w ≠ t := by
      rintro rfl
      have := (mem_filter.mp hw).1
      simp [mem_occupied, hself] at this
    rw [lease, lease, hother hwt]
  -- the killers but `u`: the victim is a killer only when it is `u` itself
  have hkill : R.killers.Perm (u :: (R₁.setCtx u k).killers) := by
    refine perm_filter_cons nodup_tids (mem_tids.mpr hu'.1) ?_ fun x hx => ?_
    · rw [Resources.setCtx, slot_modSlot_self]
      simp [hk]
    · by_cases hxu : x = u
      · subst hxu
        simpa using (mem_killers.mp huk).2
      · rw [Resources.setCtx, slot_modSlot_of_ne _ _ hxu]
        by_cases hxt : x = t
        · subst hxt
          have hnot : x ∉ R.killers := fun h => hxu (ht' h)
          rw [mem_killers, not_and] at hnot
          simpa [hself, hxu] using hnot (mem_tids.mp hx)
        · simp [hother hxt, hxu]
  have hmem : ∀ {w}, w ∈ (R₁.setCtx u k).killers → w ∈ R.killers ∧ w ≠ u ∧ w ≠ t := by
    intro w hw
    have hwu : w ≠ u := by
      rintro rfl
      rw [mem_killers, Resources.setCtx, slot_modSlot_self] at hw
      simp [hk] at hw
    have hwR : w ∈ R.killers := hkill.mem_iff.mpr (mem_cons_of_mem _ hw)
    exact ⟨hwR, hwu, fun h => hwu ((ht' (h ▸ hwR)) ▸ h)⟩
  have hslot : ∀ {w}, w ∈ (R₁.setCtx u k).killers → (R₁.setCtx u k).slot w = R.slot w := by
    intro w hw
    obtain ⟨-, hwu, hwt⟩ := hmem hw
    rw [Resources.setCtx, slot_modSlot_of_ne _ _ hwu, hother hwt]
  have hsound : (Ledger.mk R.heap (R.lease t :: R₁.leases)).Sound := K.ledger.perm hleases₁
  have hOK := hsound.free_eq_ok mem_cons_self
  refine ⟨⟨fun w hw t' htw => ?_, fun w hw w' hw' h => ?_, ?_, ?_, K.refreed, K.misaimed⟩, hOK,
    haim.symm⟩
  · obtain ⟨hwR, hwu, hwt⟩ := hmem hw
    rw [hslot hw] at htw
    obtain ⟨hv, hv', haim'⟩ := K.victim w hwR t' htw
    refine ⟨?_, fun h => hv' (hmem h).1, haim'⟩
    rw [hocc]
    refine (mem_cons.mp (hocc₁.mem_iff.mp hv)).resolve_left ?_
    rintro rfl
    exact hwu (K.distinct w hwR u huk (htw.trans hctx.symm))
  · rw [hslot hw, hslot hw'] at h
    exact K.distinct w (hmem hw).1 w' (hmem hw').1 h
  · have h₁ := hkill.length_eq
    have h₂ := hocc₁.length_eq
    have := K.count
    rw [length_cons] at h₁ h₂
    rw [hocc]
    change R.thrcount + _ = _
    omega
  · rw [hleases]
    have hs := hsound.free mem_cons_self
    simp only [Ledger.next, hOK, if_true, erase_cons_head] at hs
    exact hs

/-- **Every careful step keeps the books.** -/
theorem Kept.change (hu : u ∈ R.occupied)
    (huser : op ≠ .cont → (R.slot u).ctx = .user) (h : R.Change u op k R')
    (hcareful : R.Careful u op) : R'.Kept (log.observe R u op k) := by
  cases h with
  | none hk hcont hcreate =>
    have hvictim : (R.slot u).ctx.victim = none := by
      by_cases hop : op = .cont
      · exact hcont hop
      · exact victim_user (huser hop)
    have hlog : log.observe R u op k = log := by
      unfold KillLog.observe
      split
      · exact absurd rfl (hcreate _ _)
      · simp [Context.victim] at hk
      · split
        · rename_i hctx
          simp [hctx, Context.victim] at hvictim
        · rfl
      · rfl
    rw [hlog]
    exact K.setCtx hvictim hk
  | @createFails ssize prio hfail =>
    obtain ⟨hsize, hroom⟩ := hcareful
    have hnone : (R.heap.stkget (Sched.stackSize ssize)).2 = none := by
      rcases hroom with h | ⟨t, ht, hfree⟩
      · exact h
      · refine hfail.resolve_right fun hfull => ?_
        simp [hfull t (mem_tids.mp ht)] at hfree
    obtain ⟨l, P⟩ := K.ledger.partition
    have hheap : R.heap.stkget (Sched.stackSize ssize) = (R.heap, none) := by
      rcases Source.get_spec .stkget P.free K.ledger.bounds (Sched.stackSize_pos ssize)
        (Sched.stackSize_le hsize) with h | ⟨h', l', p, h, -⟩
      · exact h
      · simp only [Source.get] at h
        simp [h] at hnone
    rw [hheap]
    exact K.setCtx (victim_user (huser (by simp))) rfl
  | @create ssize prio t h a hget ht hnull hfree =>
    have htu : u ≠ t := by
      rintro rfl
      simp [mem_occupied, hfree] at hu
    have hlog : log.observe R u (.create ssize prio) (.ret t) =
        { log with births := store log.births t (log.births t + 1) } := by
      have hsys : t ≠ SYSERR := by
        have := ht.1
        have : SYSERR = -1 := rfl
        omega
      simp only [KillLog.observe, if_neg hsys]
    rw [hlog]
    refine (K.create (Sched.stackSize_pos ssize) (Sched.stackSize_le hcareful.1) hget ht hnull
      hfree).setCtx ?_ rfl
    change (update R.slot t _ u).ctx.victim = _
    rw [update_of_ne htu]
    exact victim_user (huser (by simp))
  | kill ht hnull hlive =>
    exact K.kill hu (huser (by simp)) (mem_occupied.mpr ⟨ht, hlive⟩) (hcareful hlive)
  | @tearDown t _ hctx ht hnull hlive hk =>
    obtain ⟨K', hOK, haim⟩ := K.tearDown hu hctx hnull hk
    have hlog : log.observe R u .cont k = log := by
      simp only [KillLog.observe, hctx, hlive, hOK, haim]
      simp
    rw [hlog]
    exact K'
  | @tearFree t hctx hfree =>
    have hu' := mem_occupied.mp hu
    have huk : u ∈ R.killers := by
      rw [mem_killers, hctx]
      exact ⟨hu'.1, hu'.2, rfl⟩
    have := (mem_occupied.mp (K.victim u huk t hctx).1).2
    simp [hfree] at this

end

end Resources

/-! ## Runs -/

/-- What holds of the threads and their stacks: no stack has been given back twice and no thread
torn down by a `kill` for an earlier one in its slot; and when no `kill` is under way the counter is
the number of threads, and their stacks are what is missing from the free list. -/
structure Kernel.Conserved (s : Kernel) (log : KillLog) : Prop where
  refreed : log.refreed = false
  misaimed : log.misaimed = false
  thrcount : s.resources.killers = [] → s.thrcount = s.resources.occupied.length
  partition : s.resources.killers = [] →
    ∃ l, s.heap.Partition l (s.resources.leases.map Lease.block) s.heap.range

theorem Resources.Kept.conserved {s : Kernel} {log : KillLog} (K : s.resources.Kept log) :
    s.Conserved log := by
  refine ⟨K.refreed, K.misaimed, fun h => ?_, fun _ => K.ledger.partition⟩
  have hcount : s.thrcount + s.resources.killers.length = s.resources.occupied.length := K.count
  rw [h] at hcount
  simpa using hcount

/-- The books when the system starts: the null thread is its only thread. -/
theorem Kernel.kept_sysinit {endaddr memheap maxaddr : Nat} (hroom : HeapRoom memheap maxaddr)
    (mem : Nat → MemBlock) : (sysinit endaddr memheap maxaddr mem).resources.Kept {} := by
  have hctx : ∀ t, ((sysinit endaddr memheap maxaddr mem).resources.slot t).ctx.victim = none := by
    intro t
    simp only [Globals.resources, ThrEnt.slot, ctx_sysinit, Context.victim]
  have hkill : (sysinit endaddr memheap maxaddr mem).resources.killers = [] :=
    filter_eq_nil_iff.mpr fun t _ => by simp [hctx t]
  obtain ⟨semtab, nextqid, hg, -⟩ := sysinit_spec endaddr memheap maxaddr mem
  have hocc : (sysinit endaddr memheap maxaddr mem).resources.occupied = [NULLTHREAD] := by
    refine (filter_congr (q := (· = NULLTHREAD)) fun t _ => ?_).trans (by decide)
    rw [hg]
    simp only [Globals.resources, ThrEnt.slot, nullinit, modThr, store, zero]
    split_ifs with h <;> simp [h]
  have hleases : (sysinit endaddr memheap maxaddr mem).resources.leases = [] := by
    rw [Resources.leases, hocc]
    rfl
  refine ⟨by simp [hkill], by simp [hkill], ?_, ?_, rfl, rfl⟩
  · rw [hkill, hocc, hg]
    rfl
  · rw [hleases, hg]
    exact sound_sysinit hroom mem

/-- **The resources of the threads are conserved in careful runs.** -/
theorem resources_conserved {endaddr memheap maxaddr : Nat} (hroom : HeapRoom memheap maxaddr)
    {mem : Nat → MemBlock} {ops : List Op} {p : Kernel × KillLog}
    (r : carefulMachine.Run (Kernel.sysinit endaddr memheap maxaddr mem, {}) ops p) :
    p.1.Conserved p.2 := by
  obtain ⟨v₀, M₀, C₀, -⟩ := Kernel.orderly_sysinit endaddr memheap maxaddr mem
  obtain ⟨v, -, -, K⟩ := r.invariant
    (I := fun p => ∃ v, Models p.1 v ∧ v.Contexts ∧ p.1.resources.Kept p.2)
    (by
      rintro ⟨s, log⟩ op ⟨v, M, C, K⟩ ⟨⟨hen, horderly⟩, hcareful⟩
      obtain ⟨v', hstep, M', C'⟩ := M.orderly_step C horderly
      have hres : s.resources = v.resources := congrArg Globals.resources M.rep.globals
      have hres' : (s.exec op).resources = v'.resources := congrArg Globals.resources M'.rep.globals
      have hcur : s.thrcurrent = v.thrcurrent := M.rep.thrcurrent
      have hlive : s.thrcurrent ∈ s.resources.occupied := by
        rw [hres, hcur]
        exact Resources.mem_occupied.mpr ⟨M.sound.thrcurrent,
          (v.live_resources _).mpr (by rw [M.running]; simp)⟩
      have huser : op ≠ .cont → (s.resources.slot s.thrcurrent).ctx = .user :=
        fun hop => by_contra fun h => hop (hen.2.mpr h)
      have hchange := hstep.change M.sound M.running
      rw [← hres, ← hcur, ← hres'] at hchange
      exact ⟨v', M', C', K.change hlive huser hchange hcareful⟩)
    ⟨v₀, M₀, C₀, Kernel.kept_sysinit hroom mem⟩
  exact K.conserved

/-- A thread is created and killed. -/
def oneKill : Kernel × KillLog :=
  carefulMachine.after (board, {})
    [.create 128 20, .cont, .create 128 10, .cont, .kill 1, .cont, .cont]

theorem heapRoom_board : HeapRoom 8192 65536 := ⟨by decide, by decide, by decide, by decide⟩

theorem resources_conserved_oneKill :
    oneKill.1.resources.killers = [] ∧ oneKill.1.resources.occupied = [0, 2] ∧
      oneKill.1.Conserved oneKill.2 := by
  have r : carefulMachine.Run (board, {}) _ oneKill := Machine.run_after
  have h := resources_conserved heapRoom_board r
  exact ⟨by decide, by decide, h⟩

/-- Two threads kill a third one. Thread 1 creates threads 2 and 3, and both it and thread 2 wait
for a message. Thread 3 kills thread 2, and the message to the parent starts thread 1, which kills
thread 2 as well, and is done with it when thread 3 goes on. -/
def twoKills : List Op :=
  [.create 128 30, .cont, .resume 1,
    .create 128 20, .cont, .create 128 10, .cont, .resume 2, .cont, .resume 3, .cont, .receive,
    .receive, .kill 2, .cont, .cont,
    .kill 2, .cont, .cont, .recvclr, .cont, .receive, .cont, .cont]

/-- **Two calls of `kill` for one thread** free its stack twice and count it out twice. -/
theorem twoKills_not_conserved : ∃ p, killMachine.Run (board, {}) twoKills p ∧
    p.1.resources.killers = [] ∧ p.1.thrcount = 2 ∧ p.1.resources.occupied = [0, 1, 3] ∧
    p.2.refreed = true ∧ ¬ p.1.Conserved p.2 := by
  have r : killMachine.Run (board, {}) twoKills (killMachine.after (board, {}) twoKills) :=
    Machine.run_after
  have hp : (killMachine.after (board, {}) twoKills).1.resources.killers = [] ∧
      (killMachine.after (board, {}) twoKills).1.thrcount = 2 ∧
      (killMachine.after (board, {}) twoKills).1.resources.occupied = [0, 1, 3] ∧
      (killMachine.after (board, {}) twoKills).2.refreed = true := by decide
  generalize killMachine.after (board, {}) twoKills = p at r hp
  refine ⟨p, r, hp.1, hp.2.1, hp.2.2.1, hp.2.2.2, fun h => ?_⟩
  have := h.refreed
  simp [hp.2.2.2] at this

/-! ## Failing calls of `create` -/

/-- **A failing `create`** changes nothing but the place where the next search begins, and fails for
want of a slot or of memory, exactly when there is a slot or there is no memory. -/
theorem create_fails_clean_iff {s : Kernel} {l : List Block} (F : s.heap.FreeList l)
    (hB : s.heap.Bounds) {ssize : Nat} (hs : ssize < 2 ^ 32) (p : Int) :
    ((s.create ssize p).2 = .ret SYSERR →
      (∃ n, (s.create ssize p).1 = { s with nexttid := n }) ∧
        ((∀ t, IsTid t → (s.thrtab t).state ≠ .free) ∨ ∀ b ∈ l, b.len < Sched.stackSize ssize)) ↔
    (∃ t, IsTid t ∧ (s.thrtab t).state = .free) ∨ ∀ b ∈ l, b.len < Sched.stackSize ssize := by
  obtain ⟨hheap, hnone⟩ := Heap.stkget_room F hB (n := Sched.stackSize ssize)
    (by unfold Sched.stackSize MINSTK; split_ifs <;> omega)
    (by unfold Sched.stackSize MINSTK; split_ifs <;> omega)
  rcases s.create_cases ssize p with ⟨n, hcall, hfail⟩ | ⟨h, a, t, hget, ht, hfree, hcall⟩ <;>
    rw [hcall]
  · have hwhy := hfail.symm.imp_right hnone
    constructor
    · intro hclean
      obtain ⟨⟨m, heq⟩, -⟩ := hclean rfl
      exact .inr (hheap.mp (congrArg (fun s : Kernel => s.heap) heq))
    · intro hcond _
      have hsmall : ∀ b ∈ l, b.len < Sched.stackSize ssize := by
        rcases hcond with ⟨t, ht, hfree⟩ | hsmall
        · exact hwhy.resolve_left fun hfull => hfull t ht hfree
        · exact hsmall
      exact ⟨⟨n, by rw [hheap.mpr hsmall]⟩, hwhy⟩
  · refine iff_of_true (fun hsys => ?_) (.inl ⟨t, ht, hfree⟩)
    cases Context.ret.inj hsys
    exact absurd ht (by decide)

/-- The state after `sysinit` with every slot of the thread table taken. -/
def crowded : Kernel := { board with thrtab := fun t => { board.thrtab t with state := .susp } }

theorem create_fails_clean_crowded : (crowded.create (2 ^ 31) 20).2 = .ret SYSERR ∧
    ∃ n, (crowded.create (2 ^ 31) 20).1 = { crowded with nexttid := n } := by
  have hfail : (crowded.create (2 ^ 31) 20).2 = .ret SYSERR := by decide
  exact ⟨hfail, ((create_fails_clean_iff (s := crowded) (heapRoom_board.freeList _)
    (heapRoom_board.bounds _)
    (by decide) 20).mpr (.inr (by decide)) hfail).1⟩

/-- **No slot is free**: `create` fails, and the stack is gone. -/
theorem create_loses_stack : crowded.heap.FreeList [⟨8192, 57344⟩] ∧ crowded.heap.Bounds ∧
    (crowded.create 128 20).2 = .ret SYSERR ∧
    (crowded.create 128 20).1.heap.memlist.length + 128 = crowded.heap.memlist.length :=
  ⟨heapRoom_board.freeList _, heapRoom_board.bounds _, by decide, by decide⟩

end Xinu
