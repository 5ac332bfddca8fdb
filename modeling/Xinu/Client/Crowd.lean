import Xinu.Client.Library
import Xinu.Memory.Runs
import Xinu.Sched.Resources

/-!
# The crowd in a library

For what a library does to its data it does not matter which thread the kernel gives the processor
to, only that a thread on the queue of a semaphore has not got it. So the threads are a crowd in
which anyone who does not wait may move, the semaphores are counts with queues, and everything else
that the kernel does is a change of semaphores that are not the library's, or of the heap by a new
stack.

## Main results

* `Library.step_move`: what happens in a world happens in its crowd
* `Library.invariant`: what every move of the crowd keeps holds in every run of the world
-/

namespace Xinu

open Function

/-- The semaphores in use, by number. -/
abbrev Semaphores := Nat → Option (Semaphore Int)

/-- The threads in a library, without the kernel. -/
structure Crowd (γ L : Type) where
  sems : Semaphores
  heap : Heap
  shared : γ
  pc : Int → Option (Next L)

namespace Crowd

variable {γ L : Type} (c : Crowd γ L) (t : Int)

/-- `t` goes on somewhere. -/
def setPc (n : Option (Next L)) : Crowd γ L := { c with pc := update c.pc t n }

/-- The queues hold threads, each once, and `t` is on none of them. -/
structure Proper : Prop where
  tid : IsTid t
  nodup : ∀ i x, c.sems i = some x → x.queue.Nodup
  tids : ∀ i x, c.sems i = some x → ∀ u ∈ x.queue, IsTid u
  awake : ∀ i x, c.sems i = some x → t ∉ x.queue

end Crowd

/-- What a call of the kernel by the thread `t` does to the semaphores, and its result. -/
inductive SemCall (t : Int) (σ : Semaphores) : Op → Int → Semaphores → Prop
  | wait {i : Nat} {x : Semaphore Int} : σ i = some x →
      SemCall t σ (.wait i) OK (update σ i (some (x.wait t)))
  | waitBad {i : Nat} : σ i = none → SemCall t σ (.wait i) SYSERR σ
  | signal {i : Nat} {x : Semaphore Int} : σ i = some x →
      SemCall t σ (.signal i) OK (update σ i (some (x.signal 1)))
  | signalBad {i : Nat} : σ i = none → SemCall t σ (.signal i) SYSERR σ
  | signaln {i : Nat} {n : Int} {x : Semaphore Int} : σ i = some x → 0 < n →
      SemCall t σ (.signaln i n) OK (update σ i (some (x.signal n.toNat)))
  | signalnBad {i : Nat} {n : Int} : σ i = none ∨ n ≤ 0 → SemCall t σ (.signaln i n) SYSERR σ
  | semcreate {n : Int} {i : Nat} : 0 ≤ n → i < NSEM → σ i = none →
      SemCall t σ (.semcreate n) i (update σ i (some ⟨n, []⟩))
  -- with a negative count a slot is taken all the same
  | semcreateFails {n : Int} {σ' : Semaphores} : (∀ i, σ i ≠ none → σ' i = σ i) →
      SemCall t σ (.semcreate n) SYSERR σ'
  | semfree {i : Nat} {x : Semaphore Int} : σ i = some x →
      SemCall t σ (.semfree i) OK (update σ i none)
  | semfreeBad {i : Nat} : σ i = none → SemCall t σ (.semfree i) SYSERR σ

/-- Nothing happens to the heap, or a stack is taken from it. -/
def Heap.Stacked (h h' : Heap) : Prop :=
  h' = h ∨ ∃ n, 0 < n ∧ n ≤ 2 ^ 32 - 8 ∧ h' = (h.stkget n).1

namespace Library

variable {γ L C : Type}

/-- What can happen in a crowd: `t` does something, or is interrupted. -/
inductive Move (lib : Library γ L C) (c : Crowd γ L) (t : Int) : Input C → Crowd γ L → Prop
  | enter {a : C} : c.pc t = none →
      Move lib c t (.enter a) (c.setPc t (some (lib.enter a c.shared)))
  | done {v : Int} : c.pc t = some (.done v) → Move lib c t .go (c.setPc t none)
  | run {l : L} {f : γ → Heap → γ × Heap × Next L} : c.pc t = some (.goto l) →
      lib.act l c.shared = .run f →
      Move lib c t .go
        ({ c with shared := (f c.shared c.heap).1, heap := (f c.shared c.heap).2.1 }.setPc t
          (some (f c.shared c.heap).2.2))
  | call {l : L} {op : Op} {back : Int → γ → γ × Next L} {v : Int} {σ' : Semaphores} :
      c.pc t = some (.goto l) → lib.act l c.shared = .call op back → SemCall t c.sems op v σ' →
      Move lib c t .go
        ({ c with sems := σ', shared := (back v c.shared).1 }.setPc t (some (back v c.shared).2))
  | irq {r : γ × Op} {v : Int} {σ' : Semaphores} : lib.interrupt c.shared = some r →
      SemCall t c.sems r.2 v σ' → Move lib c t .irq { c with sems := σ', shared := r.1 }
  | other {op : Op} {σ' : Semaphores} {h' : Heap} :
      (∀ i, lib.owns c.shared i = true → c.sems i ≠ none → σ' i = c.sems i) →
      c.heap.Stacked h' → Move lib c t (.other op) { c with sems := σ', heap := h' }

end Library

/-! ## The semaphores of the kernel -/

/-- The semaphore `i`, if it is in use. -/
def Kernel.semaphore (s : Kernel) (i : Nat) : Option (Semaphore Int) :=
  if s.SemLive i then some ⟨(s.semtab i).count, s.waiters i⟩ else none

/-- The crowd of a world. -/
def World.crowd {γ L : Type} (w : World γ L) : Crowd γ L :=
  ⟨w.kernel.semaphore, w.kernel.heap, w.shared, w.pc⟩

namespace Sched

variable {v v' : Sched} {i : Nat} {op : Op} {new : List Int} {k : Context}

/-- The semaphore `i`, if it is in use. -/
def semaphore (v : Sched) (i : Nat) : Option (Semaphore Int) :=
  if v.SemLive i then some ⟨(v.semtab i).count, v.waiting i⟩ else none

theorem semaphore_eq_none : v.semaphore i = none ↔ ¬ v.SemLive i := by
  unfold semaphore
  split_ifs with h <;> simp [h]

theorem semaphore_eq_some {x : Semaphore Int} :
    v.semaphore i = some x ↔ v.SemLive i ∧ x = ⟨(v.semtab i).count, v.waiting i⟩ := by
  unfold semaphore
  split_ifs with h
  · simp [h, eq_comm]
  · simp [h]

theorem semaphore_congr (hi : i < NSEM) {st : SemState} {n : Int} {q : List Int}
    (hst : (v'.semtab i).state = st) (hcount : (v'.semtab i).count = n) (hq : v'.waiting i = q)
    (hlive : st ≠ .free) : v'.semaphore i = some ⟨n, q⟩ := by
  rw [semaphore_eq_some]
  exact ⟨⟨hi, by rw [hst]; exact hlive⟩, by rw [hcount, hq]⟩

theorem semaphore_eq (hsem : v'.semtab i = v.semtab i) (hq : v'.waiting i = v.waiting i) :
    v'.semaphore i = v.semaphore i := by
  have hlive : v'.SemLive i ↔ v.SemLive i := by
    unfold Globals.SemLive
    rw [hsem]
  unfold semaphore
  simp only [hlive, hsem, hq]

/-- A step that is not about the semaphore and takes no slot leaves it alone. -/
theorem semaphore_of_effect (h : SemEffect v i op v' new) (hwait : op ≠ .wait i := by simp [*])
    (hsignal : op ≠ .signal i := by simp [*]) (hsignaln : ∀ n, op ≠ .signaln i n := by simp [*])
    (hfree : op ≠ .semfree i := by simp [*])
    (hkill : op = .cont → ∀ t, v.self.ctx ≠ .kill t := by simp [*])
    (hcreate : (∀ n, op ≠ .semcreate n) ∨ v.semaphore i ≠ none := by simp [*]) :
    v'.semaphore i = v.semaphore i := by
  cases h with
  | none hsem hq => exact semaphore_eq hsem hq
  | create hop hfree' =>
    obtain ⟨n, hop, -⟩ := hop
    refine absurd ?_ (hcreate.resolve_left fun h => h n hop)
    exact semaphore_eq_none.mpr fun h => h.2 hfree'
  | free hop => exact absurd hop hfree
  | pass hop | block hop => exact absurd hop hwait
  | signal n hop =>
    rcases hop with ⟨hop, -⟩ | hop
    · exact absurd hop hsignal
    · exact absurd hop (hsignaln n)
  | kill t hop hctx => exact absurd hctx (hkill hop t)

theorem semaphore_wait (h : SemEffect v i (.wait i) v' new) (hl : v.SemLive i) :
    v'.semaphore i = some (Semaphore.wait ⟨(v.semtab i).count, v.waiting i⟩ v.thrcurrent) := by
  cases h with
  | none _ _ _ hwait => exact absurd hl (hwait rfl)
  | create hop => simp at hop
  | free hop => simp at hop
  | pass _ _ hst hcount hpos hq =>
    rw [semaphore_congr hl.1 hst hcount hq hl.2, Semaphore.wait]
    simp only [if_neg (not_lt.mpr hpos)]
  | block _ _ hst hcount hneg hq =>
    rw [semaphore_congr hl.1 hst hcount hq hl.2, Semaphore.wait]
    simp only [if_pos hneg]
  | signal n hop => simp at hop
  | kill t hop => simp at hop

theorem semaphore_signal {n : Nat} (h : SemEffect v i op v' new) (hl : v.SemLive i)
    (hop : op = .signal i ∧ n = 1 ∨ op = .signaln i n ∧ 0 < n) :
    v'.semaphore i = some (Semaphore.signal ⟨(v.semtab i).count, v.waiting i⟩ n) := by
  cases h with
  | none _ _ _ _ hsignal hsignaln =>
    rcases hop with ⟨hop, -⟩ | ⟨hop, hn⟩
    · exact absurd hl (hsignal hop)
    · rcases hsignaln n hop with h | h
      · exact absurd hl h
      · omega
  | create hop' =>
    obtain ⟨m, rfl, -⟩ := hop'
    simp at hop
  | free hop' => simp [hop'] at hop
  | pass hop' | block hop' => simp [hop'] at hop
  | signal m hop' _ hst hcount _ hq =>
    obtain rfl : m = n := by
      rcases hop with ⟨rfl, rfl⟩ | ⟨rfl, -⟩ <;> rcases hop' with ⟨h, rfl⟩ | h <;> simp_all
    have hrest : v'.waiting i = (v.waiting i).drop (min m (-(v.semtab i).count).toNat) := by
      have hlen : (v.released i m).length =
          min (min m (-(v.semtab i).count).toNat) (v.waiting i).length := List.length_take
      have hdrop : (v.waiting i).drop (v.released i m).length = v'.waiting i := by
        conv_lhs => rw [hq]
        exact List.drop_left
      rw [← hdrop, hlen]
      rcases le_total (min m (-(v.semtab i).count).toNat) (v.waiting i).length with h | h
      · rw [min_eq_left h]
      · rw [min_eq_right h, List.drop_length, List.drop_eq_nil_of_le h]
    exact semaphore_congr hl.1 hst hcount hrest hl.2
  | kill t hop' => simp [hop'] at hop

theorem semaphore_of_le (hi : NSEM ≤ i) : v.semaphore i = none :=
  semaphore_eq_none.mpr fun h => absurd h.1 (by omega)

theorem semaphore_update {j : Nat} {y : Option (Semaphore Int)} (hself : v'.semaphore j = y)
    (hother : ∀ i < NSEM, i ≠ j → v'.semaphore i = v.semaphore i) :
    v'.semaphore = update v.semaphore j y := by
  funext i
  by_cases hij : i = j
  · rw [hij, update_self, hself]
  · rw [update_of_ne hij]
    rcases lt_or_ge i NSEM with hi | hi
    · exact hother i hi hij
    · rw [semaphore_of_le hi, semaphore_of_le hi]

section

variable (h : v.Step op k v') (S : v.Sound) (hrun : v.Running)
include h S hrun

/-- **A call about semaphores** does to them what it should. -/
theorem Step.semCall (U : v.Unused) (hop : op.AboutSemaphores) :
    ∃ r, k = .ret r ∧ SemCall v.thrcurrent v.semaphore op r v'.semaphore := by
  have heff : ∀ i < NSEM, ∃ new, SemEffect v i op v' new :=
    fun i hi => (h.sem S hrun hi).imp fun _ h => h.2
  obtain ⟨evs, hscript, r⟩ := id h
  have hdead : ∀ {i}, ¬ v.SemLive i → v.semaphore i = none := fun h => semaphore_eq_none.mpr h
  have hlive : ∀ {i}, v.SemLive i → v.semaphore i = some ⟨(v.semtab i).count, v.waiting i⟩ :=
    fun h => if_pos h
  have hrefused : evs = [] → v'.semaphore = v.semaphore := by
    rintro rfl
    rw [r.eq_after]
    rfl
  have hother : ∀ {j}, op = .wait j ∨ op = .signal j ∨ (∃ n, op = .signaln j n) ∨ op = .semfree j →
      ∀ i < NSEM, i ≠ j → v'.semaphore i = v.semaphore i := by
    intro j hop i hi hij
    obtain ⟨new, he⟩ := heff i hi
    have hji := Ne.symm hij
    rcases hop with rfl | rfl | ⟨n, rfl⟩ | rfl <;> exact semaphore_of_effect he
  cases op with
  | wait j =>
    have hgo : v.SemLive j → SemCall v.thrcurrent v.semaphore (.wait j) OK v'.semaphore := by
      intro hl
      obtain ⟨new, he⟩ := heff j hl.1
      rw [semaphore_update (semaphore_wait he hl) (hother (by simp))]
      exact .wait (hlive hl)
    cases hscript with
    | refused href => exact ⟨SYSERR, rfl, by rw [hrefused rfl]; exact .waitBad (hdead href)⟩
    | pass hl | wait hl => exact ⟨OK, rfl, hgo hl⟩
  | signal j =>
    have hgo : v.SemLive j → SemCall v.thrcurrent v.semaphore (.signal j) OK v'.semaphore := by
      intro hl
      obtain ⟨new, he⟩ := heff j hl.1
      rw [semaphore_update (semaphore_signal he hl (.inl ⟨rfl, rfl⟩)) (hother (by simp))]
      exact .signal (hlive hl)
    cases hscript with
    | refused href => exact ⟨SYSERR, rfl, by rw [hrefused rfl]; exact .signalBad (hdead href)⟩
    | signalNone hl | signal hl => exact ⟨OK, rfl, hgo hl⟩
  | signaln j m =>
    cases hscript with
    | refused href =>
      refine ⟨SYSERR, rfl, ?_⟩
      rw [hrefused rfl]
      exact .signalnBad (href.imp hdead id)
    | @signaln _ n hl hn =>
      obtain ⟨new, he⟩ := heff j hl.1
      refine ⟨OK, rfl, ?_⟩
      rw [semaphore_update (semaphore_signal he hl (.inr ⟨rfl, hn⟩)) (hother (by simp))]
      exact .signaln (hlive hl) (by exact_mod_cast hn)
  | semcreate m =>
    have hused : ∀ i, v.semaphore i ≠ none → v'.semaphore i = v.semaphore i := by
      intro i hi
      obtain ⟨new, he⟩ := heff i (semaphore_eq_none.not_left.mp hi).1
      exact semaphore_of_effect he
    cases hscript with
    | refused href => exact href.elim
    | semcreateFails | semcreateNeg => exact ⟨SYSERR, rfl, .semcreateFails hused⟩
    | @semcreate _ j hj hfree hm =>
      have T := SemTally.create hm U h
      have hw : v'.waiting j = [] := by simpa using T.fifo
      have hcount : (v'.semtab j).count = m := by
        have := T.balance
        rw [hw] at this
        simpa using this
      have hnew : v'.semaphore j = some ⟨m, []⟩ :=
        semaphore_eq_some.mpr ⟨T.live, by rw [hw, hcount]⟩
      have hother : ∀ i < NSEM, i ≠ j → v'.semaphore i = v.semaphore i := by
        intro i hi hij
        have hsem : v'.semtab i = v.semtab i := by
          rw [r.eq_after]
          exact update_of_ne hij _ _
        refine semaphore_eq hsem ?_
        rw [waiting_eq hsem, r.eq_after]
        rfl
      refine ⟨j, rfl, ?_⟩
      rw [semaphore_update hnew hother]
      exact .semcreate hm hj (hdead fun hl => hl.2 hfree)
  | semfree j =>
    cases hscript with
    | refused href => exact ⟨SYSERR, rfl, by rw [hrefused rfl]; exact .semfreeBad (hdead href)⟩
    | semfree hl =>
      obtain ⟨w, r', -, rfl⟩ := Machine.run_snoc_iff.mp r
      obtain ⟨w', -, -, rfl⟩ := Machine.run_snoc_iff.mp r'
      have hgone : (schedMachine.next (schedMachine.next w' (.sem j .free 0))
          (.ctx v.thrcurrent (.ret OK))).semaphore j = none := by
        refine semaphore_eq_none.mpr fun hl' => hl'.2 ?_
        change ((w'.apply (.sem j .free 0)).semtab j).state = .free
        rw [semtab_sem_self]
      refine ⟨OK, rfl, ?_⟩
      rw [semaphore_update hgone (hother (by simp))]
      exact .semfree (hlive hl)
  | _ => exact hop.elim

theorem Step.heap_eq (hop : op.AboutSemaphores) : v'.heap = v.heap := by
  have hchange := h.change S hrun
  have hheap : v'.resources.heap = v'.heap := rfl
  rw [← hheap]
  generalize v'.resources = R' at hchange
  cases hchange with
  | none => rfl
  | createFails | create | kill | tearDown | tearFree => exact hop.elim

/-- With nobody killed, a call leaves the heap alone or takes a stack from it. -/
theorem Step.heap_stacked
    (hkill : ∀ t, op ≠ .kill t) (hcont : op = .cont → ∀ t, v.self.ctx ≠ .kill t)
    (hcreate : ∀ ssize prio, op = .create ssize prio → ssize ≤ 2 ^ 32 - 8) :
    v.heap.Stacked v'.heap := by
  have hchange := h.change S hrun
  have hheap : v'.resources.heap = v'.heap := rfl
  have hctx : (v.resources.slot v.thrcurrent).ctx = v.self.ctx := rfl
  rw [← hheap]
  generalize v'.resources = R' at hchange
  cases hchange with
  | none => exact .inl rfl
  | createFails =>
    exact .inr ⟨_, stackSize_pos _, stackSize_le (hcreate _ _ rfl), rfl⟩
  | create hget =>
    refine .inr ⟨_, stackSize_pos _, stackSize_le (hcreate _ _ rfl), ?_⟩
    change _ = (v.resources.heap.stkget _).1
    rw [hget]
    rfl
  | kill => exact absurd rfl (hkill _)
  | tearDown hk | tearFree hk => exact absurd (hctx.symm.trans hk) (hcont rfl _)

end

end Sched

/-! ## Worlds -/

section

variable {s : Kernel} {v : Sched}

theorem Models.semaphore (M : Models s v) : s.semaphore = v.semaphore := by
  have hlive : ∀ i, s.SemLive i ↔ v.SemLive i := by
    intro i
    unfold Globals.SemLive
    rw [M.rep.semtab]
  funext i
  unfold Kernel.semaphore Sched.semaphore
  by_cases h : v.SemLive i
  · rw [if_pos h, if_pos ((hlive i).mpr h), M.waiters h.1, M.rep.semtab]
  · rw [if_neg h, if_neg (mt (hlive i).mp h)]

theorem Models.setHeap (M : Models s v) (h : Heap) :
    Models { s with heap := h } { v with heap := h } := by
  refine ⟨⟨?_, M.rep.links⟩, Sched.Sound.apply (e := .heap h) M.sound trivial, M.running⟩
  rw [M.rep.globals]

end

namespace World

variable {γ L : Type} {w : World γ L}

/-- The kernel of the world is in order. -/
def Sound (w : World γ L) : Prop :=
  ∃ v, Models w.kernel v ∧ v.Contexts ∧ v.Unused

theorem Sound.proper (h : w.Sound) : w.crowd.Proper w.current := by
  obtain ⟨v, M, -, -⟩ := h
  have hsem : ∀ i x, w.crowd.sems i = some x → i < NSEM ∧ x.queue = v.waiting i := by
    intro i x hx
    change w.kernel.semaphore i = some x at hx
    rw [M.semaphore, Sched.semaphore_eq_some] at hx
    exact ⟨hx.1.1, by rw [hx.2]⟩
  have hq : ∀ i x, w.crowd.sems i = some x → IsQueue (v.semtab i).queue :=
    fun i x hx => M.sound.layout.isQueue_sem (hsem i x hx).1
  refine ⟨?_, fun i x hx => ?_, fun i x hx u hu => ?_, fun i x hx => ?_⟩
  · rw [World.current, M.rep.thrcurrent]
    exact M.sound.thrcurrent
  · rw [(hsem i x hx).2]
    exact M.sound.placed.nodup _ (hq i x hx)
  · rw [(hsem i x hx).2] at hu
    exact M.sound.placed.range _ (hq i x hx) u hu
  · rw [(hsem i x hx).2, World.current, M.rep.thrcurrent]
    exact M.sound.not_waiting (hsem i x hx).1 (by rw [M.running]; simp)

/-- A call of the kernel in order leaves it in order. -/
theorem Sound.exec (h : w.Sound) {op : Op} (hop : w.kernel.Orderly op) :
    ∃ v v', Models w.kernel v ∧ v.Step op (w.kernel.call op).2 v' ∧ v.Unused ∧
      Models (w.kernel.exec op) v' ∧ v'.Contexts ∧ v'.Unused := by
  obtain ⟨v, M, C, U⟩ := h
  obtain ⟨v', hstep, M', C', hsem⟩ := M.orderly_step_sem C hop
  exact ⟨v, v', M, hstep, U, M', C', U.step fun i hi => (hsem i hi).imp fun _ h => h.2⟩

end World

namespace Library

variable {γ L C : Type} {lib : Library γ L C} {w : World γ L}

theorem semCall (h : w.Sound) {op : Op}
    (hop : op.AboutSemaphores) (horderly : w.kernel.Orderly op) :
    (∃ r, (w.kernel.call op).2 = .ret r ∧
      SemCall w.current w.crowd.sems op r (w.kernel.exec op).semaphore) ∧
      (w.kernel.exec op).heap = w.kernel.heap ∧
      ∃ v', Models (w.kernel.exec op) v' ∧ v'.Contexts ∧ v'.Unused := by
  obtain ⟨v, v', M, hstep, U, M', C', U'⟩ := h.exec horderly
  obtain ⟨r, hr, hcall⟩ := hstep.semCall M.sound M.running U hop
  refine ⟨⟨r, hr, ?_⟩, ?_, v', M', C', U'⟩
  · change SemCall w.kernel.thrcurrent w.kernel.semaphore op r _
    rw [M.rep.thrcurrent, M.semaphore, M'.semaphore]
    exact hcall
  · rw [congrArg Globals.heap M.rep.globals, congrArg Globals.heap M'.rep.globals]
    exact hstep.heap_eq M.sound M.running hop

/-- **What happens in a world happens in its crowd.** -/
theorem step_move (h : w.Sound) {i : Input C} (he : lib.Enabled w i) :
    lib.Move w.crowd w.current i (lib.step w i).crowd ∧ (lib.step w i).Sound := by
  cases i with
  | enter a => exact ⟨.enter he.2, h⟩
  | go =>
    obtain ⟨-, he⟩ := he
    unfold step
    cases hpc : w.pc w.current with
    | none => rw [hpc] at he; exact he.elim
    | some n =>
      cases n with
      | done r => exact ⟨.done hpc, h⟩
      | goto l =>
        rw [hpc] at he
        dsimp only at he ⊢
        cases hact : lib.act l w.shared with
        | run f =>
          obtain ⟨v, M, C, U⟩ := h
          exact ⟨.run hpc hact, _, M.setHeap _, C, U⟩
        | call op back =>
          rw [hact] at he
          obtain ⟨⟨r, hr, hcall⟩, hheap, v', M', C', U'⟩ :=
            semCall h (lib.act_calls _ _ _ _ hact) he
          rw [perform_call hr]
          refine ⟨?_, v', M', C', U'⟩
          have hmove : lib.Move w.crowd _ _ _ := Move.call hpc hact hcall
          unfold World.crowd
          rw [hheap]
          exact hmove
  | irq =>
    obtain ⟨-, -, he⟩ := he
    unfold step
    cases hirq : lib.interrupt w.shared with
    | none => rw [hirq] at he; exact he.elim
    | some r =>
      rw [hirq] at he
      obtain ⟨⟨v, -, hcall⟩, hheap, v', M', C', U'⟩ :=
        semCall h (lib.interrupt_calls _ _ hirq) he
      refine ⟨?_, v', M', C', U'⟩
      have hmove : lib.Move w.crowd _ _ _ := Move.irq hirq hcall
      unfold World.crowd
      rw [hheap]
      exact hmove
  | other op =>
    obtain ⟨-, horderly, hf⟩ := he
    obtain ⟨v, v', M, hstep, U, M', C', U'⟩ := h.exec horderly
    have hcont : op = .cont → ∀ t, v.self.ctx ≠ .kill t := by
      rintro rfl
      rw [← M.rep.self]
      exact hf
    refine ⟨.other (fun i hown hlive => ?_) ?_, v', M', C', U'⟩
    · change w.kernel.semaphore i ≠ none at hlive
      change (w.kernel.exec op).semaphore i = w.kernel.semaphore i
      rw [M.semaphore] at hlive ⊢
      rw [M'.semaphore]
      obtain ⟨new, -, heff⟩ := hstep.sem M.sound M.running
          (Sched.semaphore_eq_none.not_left.mp hlive).1
      have hforeign : ∀ o : Op, (o = .wait i ∨ o = .signal i ∨ o = .semfree i ∨
          ∃ n, o = .signaln i n) →
          op ≠ o := by
        rintro o ho rfl
        have hno : lib.owns w.shared i = false := by
          rcases ho with rfl | rfl | rfl | ⟨n, rfl⟩ <;> exact hf.2
        exact absurd (hno.symm.trans hown) (by simp)
      exact Sched.semaphore_of_effect heff (hforeign _ (.inl rfl)) (hforeign _ (.inr (.inl rfl)))
        (fun n => hforeign _ (.inr (.inr (.inr ⟨n, rfl⟩))))
        (hforeign _ (.inr (.inr (.inl rfl)))) hcont (.inr hlive)
    · have hstacked := hstep.heap_stacked M.sound M.running (by rintro t rfl; exact hf) hcont
        (by rintro ssize prio rfl; exact hf.2)
      rwa [← congrArg Globals.heap M.rep.globals,
        ← congrArg Globals.heap M'.rep.globals] at hstacked

/-- **The invariant rule**: what every move of the crowd keeps holds in every run of the world. The
moves may be restricted. -/
theorem invariant {P : Crowd γ L → Int → Input C → Prop} {J : Crowd γ L → Prop}
    (hstep : ∀ c t i c', c.Proper t → J c → P c t i → lib.Move c t i c' → J c') {w₀ : World γ L}
    (h₀ : w₀.Sound) (hJ : J w₀.crowd) {inputs : List (Input C)}
    (r : (lib.machine.restrict fun w i => P w.crowd w.current i).Run w₀ inputs w) : J w.crowd := by
  have hinv : ∀ (w : World γ L) (i : Input C), w.Sound ∧ J w.crowd →
      (lib.machine.restrict fun w i => P w.crowd w.current i).enabled w i →
      (lib.step w i).Sound ∧ J (lib.step w i).crowd := by
    rintro w i ⟨hw, hJ⟩ ⟨he, hP⟩
    obtain ⟨hmove, hw'⟩ := step_move hw he
    exact ⟨hw', hstep _ _ _ _ hw.proper hJ hP hmove⟩
  exact (r.invariant hinv ⟨h₀, hJ⟩).2

/-- A library starts in a kernel in which its semaphore has just been created. -/
theorem start {endaddr memheap maxaddr : Nat} {mem : Nat → MemBlock} {ops₀ : List Op} {s₀ : Kernel}
    {c : Int} {i : Nat}
    (r₀ : orderlyMachine.Run (Kernel.sysinit endaddr memheap maxaddr mem) ops₀ s₀)
    (hcreate : (s₀.call (.semcreate c)).2 = .ret i) (g : γ) (pc : Int → Option (Next L)) :
    World.Sound ⟨s₀.exec (.semcreate c), g, pc⟩ ∧
      (s₀.exec (.semcreate c)).semaphore = update s₀.semaphore i (some ⟨c, []⟩) ∧ 0 ≤ c := by
  have hw : World.Sound ⟨s₀, g, pc⟩ := unused_of_run r₀
  have horderly : s₀.Orderly (.semcreate c) := ⟨⟨fun _ h => h, trivial⟩, by rintro ⟨⟩⟩
  have hop : (Op.semcreate c).AboutSemaphores := trivial
  obtain ⟨⟨r, hr, hcall⟩, -, hw'⟩ := semCall hw hop horderly
  obtain rfl : r = i := Context.ret.inj (hr.symm.trans hcreate)
  refine ⟨hw', ?_⟩
  generalize (s₀.exec (.semcreate c)).semaphore = σ' at hcall ⊢
  generalize hv : (i : Int) = v at hcall
  cases hcall with
  | semcreate hc _ _ =>
    obtain rfl := Int.ofNat_inj.mp hv
    exact ⟨rfl, hc⟩
  | semcreateFails =>
    have : SYSERR = -1 := rfl
    omega

end Library

end Xinu
