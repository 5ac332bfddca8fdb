import Xinu.Sched.Frame

/-!
# The resources of the threads

Of all the kernel's data the resources of its threads are a small part: which slots of the thread
table are taken, the stack of each, which threads are inside `kill`, the heap and the counter of
threads. An event that is not about resources does not show here, so a step of the scheduler is one
of a few changes.

## Main results

* `Sched.Step.change`: every step is one of these changes
-/

namespace Xinu

open Function

/-- What a slot of the thread table says about the resources of its thread. -/
structure Slot where
  live : Bool
  stkbase : Nat
  stklen : Nat
  ctx : Context

/-- The resources of the threads. -/
structure Resources where
  slot : Int → Slot
  heap : Heap
  thrcount : Int

/-- What an entry of the thread table says about resources. -/
def ThrEnt.slot (e : ThrEnt) : Slot := ⟨decide (e.state ≠ .free), e.stkbase, e.stklen, e.ctx⟩

/-- The resources of the threads in a state of the kernel. -/
def Globals.resources (g : Globals) : Resources := ⟨fun t => (g.thrtab t).slot, g.heap, g.thrcount⟩

theorem Globals.live_resources (g : Globals) (t : Int) :
    (g.resources.slot t).live = true ↔ g.state t ≠ .free := by
  simp [resources, ThrEnt.slot, Globals.state]

namespace Resources

variable (R : Resources)

def modSlot (t : Int) (f : Slot → Slot) : Resources :=
  { R with slot := update R.slot t (f (R.slot t)) }

/-- `ctxsw` keeps the context of a thread. -/
def setCtx (t : Int) (k : Context) : Resources := R.modSlot t fun x => { x with ctx := k }

/-- The stack of the thread in the slot `t` is given back. -/
def stkfree (t : Int) : Resources :=
  { R with heap := (R.heap.stkfree (R.slot t).stkbase (R.slot t).stklen).1 }

/-- What an event does to the resources. -/
def act : Event → Resources
  | .free t => R.modSlot t fun x => { x with live := false }
  | .spawn t e => R.modSlot t fun _ => e.slot
  | .ctx t k => R.setCtx t k
  | .heap h => { R with heap := h }
  | .thrcount n => { R with thrcount := n }
  | _ => R

/-- How a step `op` of the thread `u`, which is left in the context `k`, changes the resources. -/
inductive Change (u : Int) : Op → Context → Resources → Prop
  | none {op : Op} {k : Context} : k.victim = none →
      (op = .cont → (R.slot u).ctx.victim = none) → (∀ ssize prio, op ≠ .create ssize prio) →
      Change u op k (R.setCtx u k)
  | createFails {ssize : Nat} {prio : Int} :
      (R.heap.stkget (Sched.stackSize ssize)).2 = none ∨
        (∀ t, IsTid t → (R.slot t).live = true) →
      Change u (.create ssize prio) (.ret SYSERR)
        ({ R with heap := (R.heap.stkget (Sched.stackSize ssize)).1 }.setCtx u (.ret SYSERR))
  | create {ssize : Nat} {prio t : Int} {h : Heap} {a : Nat} :
      R.heap.stkget (Sched.stackSize ssize) = (h, some a) → IsTid t → t ≠ NULLTHREAD →
      (R.slot t).live = false →
      Change u (.create ssize prio) (.ret t)
        ((Resources.mk (update R.slot t ⟨true, a, Sched.stackSize ssize, .user⟩) h
          (R.thrcount + 1)).setCtx u (.ret t))
  | kill {t : Int} : IsTid t → t ≠ NULLTHREAD → (R.slot t).live = true →
      Change u (.kill t) (.kill t) ({ R with thrcount := R.thrcount - 1 }.setCtx u (.kill t))
  | tearDown {t : Int} {k : Context} : (R.slot u).ctx = .kill t → IsTid t → t ≠ NULLTHREAD →
      (R.slot t).live = true → k.victim = none →
      Change u .cont k (((R.stkfree t).modSlot t fun x => { x with live := false }).setCtx u k)
  | tearFree {t : Int} : (R.slot u).ctx = .kill t → (R.slot t).live = false →
      Change u .cont (.ret OK) ((R.stkfree t).setCtx u (.ret OK))

end Resources

namespace Sched

variable {v v' : Sched} {op : Op} {k : Context} {e : Event} {evs : List Event}

theorem stackSize_pos (ssize : Nat) : 0 < stackSize ssize := by
  unfold stackSize
  have : MINSTK = 128 := rfl
  split_ifs <;> omega

theorem stackSize_le {ssize : Nat} (h : ssize ≤ 2 ^ 32 - 8) : stackSize ssize ≤ 2 ^ 32 - 8 := by
  unfold stackSize
  have : MINSTK = 128 := rfl
  split_ifs <;> omega

/-- **What an event does to the resources.** -/
theorem Sound.resources_apply (S : v.Sound) (he : v.Enabled e) :
    (v.apply e).resources = v.resources.act e := by
  -- an event that takes no thread in or out leaves the slots alone
  have hkeep : (∀ t, e ≠ .free t) → (∀ t x, e ≠ .spawn t x) →
      (∀ t, ((v.apply e).thrtab t).stkbase = (v.thrtab t).stkbase ∧
        ((v.apply e).thrtab t).stklen = (v.thrtab t).stklen ∧
        ((v.apply e).thrtab t).ctx = (v.thrtab t).ctx) →
      (v.apply e).resources.slot = v.resources.slot := by
    intro hfree hspawn hstk
    funext t
    obtain ⟨h₁, h₂, h₃⟩ := hstk t
    have hlive : (v.apply e).state t ≠ .free ↔ v.state t ≠ .free := by
      refine ⟨fun h hf => ?_, fun h => S.live_apply he h (hfree t)⟩
      rcases S.free_apply he hf with h' | ⟨x, hx⟩
      · exact h h'
      · exact hspawn t x hx
    change Slot.mk _ _ _ _ = Slot.mk _ _ _ _
    congr 1
    exact decide_eq_decide.mpr hlive
  have hmod : ∀ (w : Sched) (u : Int) (f : ThrEnt → ThrEnt) (f' : Slot → Slot),
      w.thrtab = v.thrtab → (∀ x, (f x).slot = f' x.slot) →
      (w.modThr u f).resources.slot = (v.resources.modSlot u f').slot := by
    intro w u f f' hw hf
    funext t
    change ((w.modThr u f).thrtab t).slot = update v.resources.slot u _ t
    by_cases htu : t = u
    · subst htu
      rw [thrtab_modThr_self, update_self, hw, hf]
      rfl
    · rw [thrtab_modThr_of_ne w f htu, update_of_ne htu, hw]
      rfl
  have hmk : ∀ {R R' : Resources}, R.slot = R'.slot → R.heap = R'.heap → R.thrcount = R'.thrcount →
      R = R' := by
    rintro ⟨_, _, _⟩ ⟨_, _, _⟩ rfl rfl rfl
    rfl
  cases e with
  | free t =>
    exact hmk (hmod (v.leave t) t (fun e => { e with state := .free })
      (fun x => { x with live := false }) rfl fun _ => rfl) rfl rfl
  | spawn t x =>
    exact hmk (hmod (v.leave t) t (fun _ => x) (fun _ => x.slot) rfl fun _ => rfl) rfl rfl
  | ctx t k =>
    exact hmk (hmod v t (fun e => { e with ctx := k }) (fun x => { x with ctx := k }) rfl
      fun _ => rfl) rfl rfl
  | heap h => rfl
  | thrcount n => rfl
  | resched =>
    refine hmk (hkeep (by simp) (by simp) fun t => ?_) ?_ ?_
    · rw [thrtab_apply]
      exact ⟨rfl, rfl, rfl⟩
    · change v.resched.heap = v.heap
      rw [resched_frame]
    · change v.resched.thrcount = v.thrcount
      rw [resched_frame]
  | ready _ | hold _ | block _ | doze _ _ | lend _ | tick | sem _ _ _ | nexttid _ | nextsem _
  | clock _ _ | halt =>
    refine hmk (hkeep (by simp) (by simp) fun t => ?_) rfl rfl
    rw [thrtab_apply]
    exact ⟨rfl, rfl, rfl⟩
  | enqueue _ | prio _ _ | message _ _ _ =>
    refine hmk (hkeep (by simp) (by simp) fun t => ?_) rfl rfl
    rw [thrtab_apply]
    dsimp only
    split_ifs <;> exact ⟨rfl, rfl, rfl⟩

theorem Sound.resources_run (S : v.Sound) (r : schedMachine.Run v evs v') :
    v'.resources = evs.foldl Resources.act v.resources := by
  induction r with
  | nil => rfl
  | @snoc w evs e r he ih =>
    rw [List.foldl_append, ← ih]
    exact (S.run r).resources_apply he

theorem act_sendEvents (v : Sched) (R : Resources) (t m : Int) :
    (v.sendEvents t m).foldl Resources.act R = R := by
  unfold sendEvents
  split_ifs <;> rfl

theorem act_ready (R : Resources) (l : List Int) :
    (l.map Event.ready).foldl Resources.act R = R := by
  induction l with
  | nil => rfl
  | cons t l ih => exact ih

/-- **Every step changes the resources in one of a few ways.** -/
theorem Step.change (h : v.Step op k v') (S : v.Sound) (hrun : v.Running) :
    v.resources.Change v.thrcurrent op k v'.resources := by
  obtain ⟨evs, hscript, r⟩ := h
  rw [S.resources_run r, List.foldl_append]
  change v.resources.Change v.thrcurrent op k
    ((evs.foldl Resources.act v.resources).setCtx v.thrcurrent k)
  have hlive : ∀ {t : Int}, v.state t ≠ .free → (v.resources.slot t).live = true :=
    (v.live_resources _).mpr
  have hfree : ∀ {t : Int}, v.state t = .free → (v.resources.slot t).live = false := by
    intro t ht
    exact Bool.eq_false_iff.mpr fun hl => (v.live_resources t).mp hl ht
  cases hscript with
  | refused href =>
    refine .none rfl (fun hop => ?_) fun ssize prio hop => ?_
    · subst hop
      exact href.elim
    · subst hop
      exact href.elim
  | createFails hfail =>
    exact .createFails (hfail.imp_right fun hfull t ht => hlive (hfull t ht))
  | create hget ht hst =>
    refine .create hget ht ?_ (hfree hst)
    rintro rfl
    rcases S.null with hn | hn <;> simp [hst] at hn
  | kill hl hn =>
    rw [List.foldl_cons, act_sendEvents]
    exact .kill hl.1 hn.symm (hlive hl.2)
  | killLast hl hn => exact .kill hl.1 hn.symm (hlive hl.2)
  | suicide hctx hn =>
    exact .tearDown hctx S.thrcurrent hn (hlive (by rw [hrun]; simp)) rfl
  | killWaiting hctx ht hn hst => exact .tearDown hctx ht hn (hlive (by rw [hst]; simp)) rfl
  | killOther hctx ht hn hst =>
    exact .tearDown hctx ht hn (hlive (by rcases hst with h | h | h <;> rw [h] <;> simp)) rfl
  | killFree hctx ht hst => exact .tearFree hctx (hfree hst)
  | send =>
    rw [act_sendEvents]
    exact .none rfl (by simp) (by simp)
  | signaln | clkhandler =>
    simp only [tickEvents, List.foldl_cons, List.foldl_append, List.cons_append, act_ready]
    exact .none rfl (by simp) (by simp)
  | semfree =>
    rw [List.foldl_append, act_ready]
    exact .none rfl (by simp) (by simp)
  | idle hctx | «return» hctx | suspendRest hctx | receiveRest hctx | recvtimeRest hctx
  | timeout hctx =>
    refine .none rfl (fun _ => ?_) (by simp)
    change v.self.ctx.victim = _
    rw [hctx]
    rfl
  | _ => exact .none rfl (by simp) (by simp)

end Sched

end Xinu
