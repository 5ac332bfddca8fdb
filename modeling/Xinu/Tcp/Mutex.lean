import Xinu.Tcp.Congestion

/-!
# The mutex of the control block

Every entry takes the mutex of the control block and gives it back before it returns or waits for
the other side. Who gives it back differs: `tcpFree` and the two `stateCheck` functions do on some
paths, and their callers may do so again. What a thread does between the two points is its section.
A section that releases the mutex once keeps the mutex a mutex; the two sections that release it
twice let two threads in.

## Main results

* `mutex_within`: how often each section releases the mutex, in every state
* `mutex_excludes`: at most one thread is between acquire and release
-/

namespace Xinu.Tcp

open Machine

/-! ## Sections -/

/-- What a thread does from the point where it has the mutex: a call of the device, a round of the
loops of `tcpRead` and `tcpWrite` or the check before them, a segment, or a timer event. -/
inductive Section
  | open (args : OpenArgs)
  | close
  | writeCheck
  | write (buffer : List UInt8)
  | readCheck
  | read (len : Nat)
  | recv (pkt : TcpPkt) (src : NetAddr)
  | trigger (type : EvtType)

/-- The effect of a section. -/
def Device.within (d : Device) : Section → Device
  | .open args => (d.tcpOpen args).1
  | .close => d.tcpClose.1
  | .writeCheck => d.tcpWriteCheck.1
  | .write buffer => (d.tcpWriteRound buffer).1
  | .readCheck => d.tcpReadCheck.1
  | .read len => (d.tcpReadRound len).1
  | .recv pkt src => (d.tcpRecv pkt src).1
  | .trigger type => (d.tcpTimerTrigger type).1

/-- The mutex is released twice: `tcpClose` before the connection is established, where `tcpFree`
has released it, and the check of `tcpWrite` where it fails. -/
def Twice (d : Device) : Section → Prop
  | .close => d.tcb.state = .synsent ∨ d.tcb.state = .listen
  | .writeCheck => d.writeStateCheck.2 ≠ OK
  | _ => False

instance (d : Device) : ∀ s : Section, Decidable (Twice d s) := by
  rintro ⟨⟩ <;> unfold Twice <;> infer_instance

/-- **How often a section releases the mutex**, in every state of the connection. -/
theorem mutex_within (d : Device) (s : Section) :
    (d.within s).tcb.mutex = d.tcb.mutex + if Twice d s then 2 else 1 := by
  cases s with
  | «open» args => exact (d.releases_tcpOpen args).mutex
  | close => exact d.releases_tcpClose.mutex.trans (congrArg _ (if_congr Iff.rfl rfl rfl))
  | writeCheck =>
    change d.writeStateCheck.1.tcb.mutex + 1 = _ + if d.writeStateCheck.2 ≠ OK then 2 else 1
    rcases d.releases_writeStateCheck with ⟨hcheck, -⟩ | ⟨herr, hrel⟩
    · rw [hcheck]
      rfl
    · rw [if_pos herr, hrel.mutex]
      omega
  | write buffer => exact (d.releases_tcpWriteRound buffer).mutex
  | readCheck => exact d.releases_tcpReadCheck.mutex
  | read len => exact (d.releases_tcpReadRound len).mutex
  | recv pkt src => exact (d.releases_tcpRecv pkt src).1
  | trigger type => exact (d.releases_tcpTimerTrigger type).mutex

/-! ## Threads -/

/-- A device with the threads that are between acquire and release, each with its section. -/
structure Team where
  device : Device
  inside : Nat → Option Section

/-- A thread acquires the mutex for a section; it finishes the section; or the device does something
that does not need the mutex. -/
inductive Turn
  | acquire (t : Nat) (s : Section)
  | finish (t : Nat)
  | writeWait
  | readWait
  | take
  | elapse (time : Nat)

namespace Team

/-- A thread waits for the mutex until its count is positive. -/
def Ready (w : Team) : Turn → Prop
  | .acquire t _ => (w.inside t).isNone = true ∧ 0 < w.device.tcb.mutex
  | .finish t => (w.inside t).isSome = true
  | _ => True

instance (w : Team) : ∀ i : Turn, Decidable (w.Ready i) := by
  rintro ⟨⟩ <;> unfold Team.Ready <;> infer_instance

/-- One step. -/
def turn (w : Team) : Turn → Team
  | .acquire t s => ⟨w.device.waitMutex, Function.update w.inside t (some s)⟩
  | .finish t =>
    match w.inside t with
    | none => w
    | some s => ⟨w.device.within s, Function.update w.inside t none⟩
  | .writeWait => { w with device := w.device.signalWriters (-1) }
  | .readWait => { w with device := w.device.signalReaders (-1) }
  | .take => { w with device := { w.device with timer := w.device.timer.take.1 } }
  | .elapse time => { w with device := { w.device with timer := w.device.timer.elapse time } }

/-- A section that is finished does not release the mutex twice. -/
def Once (w : Team) : Turn → Prop
  | .finish t => ∀ s ∈ w.inside t, ¬ Twice w.device s
  | _ => True

instance (w : Team) : ∀ i : Turn, Decidable (w.Once i) := by
  rintro ⟨⟩ <;> unfold Team.Once <;> infer_instance

end Team

/-- A device and any number of threads. -/
def teamMachine : Machine Team Turn where
  enabled := Team.Ready
  next := Team.turn

/-- The same, where no section that is finished releases the mutex twice. -/
def onceMachine : Machine Team Turn := teamMachine.restrict Team.Once

instance (w : Team) (i : Turn) : Decidable (teamMachine.enabled w i) :=
  inferInstanceAs (Decidable (w.Ready i))

instance (w : Team) (i : Turn) : Decidable (onceMachine.enabled w i) :=
  inferInstanceAs (Decidable (_ ∧ _))

namespace Team

/-- The mutex is free and no thread is inside, or it is taken and one thread is. -/
def Exclusive (w : Team) : Prop :=
  (w.device.tcb.mutex = 1 ∧ ∀ t, w.inside t = none) ∨
    w.device.tcb.mutex = 0 ∧ ∃ t, ∀ t', t' ≠ t → w.inside t' = none

theorem Exclusive.turn {w : Team} (h : w.Exclusive) (i : Turn) (hr : w.Ready i) (ho : w.Once i) :
    (w.turn i).Exclusive := by
  cases i with
  | acquire t s =>
    -- the mutex was free, so nobody was inside
    obtain ⟨-, hpos⟩ := hr
    rcases h with ⟨hm, hnone⟩ | ⟨hm, -⟩
    · refine .inr ⟨by change w.device.tcb.mutex - 1 = 0; omega, t, fun t' ht => ?_⟩
      exact (Function.update_of_ne ht ..).trans (hnone t')
    · omega
  | finish t =>
    obtain ⟨s, hs⟩ := Option.isSome_iff_exists.mp hr
    have honce := ho s hs
    have hturn : w.turn (.finish t) = ⟨w.device.within s, Function.update w.inside t none⟩ := by
      unfold Team.turn
      dsimp only
      rw [hs]
    rw [hturn]
    rcases h with ⟨-, hnone⟩ | ⟨hm, t₀, hnone⟩
    · exact absurd (hnone t) (by rw [hs]; simp)
    · have ht : t = t₀ := by
        by_contra hne
        exact absurd (hnone t hne) (by rw [hs]; simp)
      refine .inl ⟨?_, fun t' => ?_⟩
      · change (w.device.within s).tcb.mutex = 1
        rw [mutex_within, if_neg honce, hm]
        rfl
      · by_cases ht' : t' = t
        · rw [ht']
          exact Function.update_self ..
        · exact (Function.update_of_ne ht' ..).trans (hnone t' (ht ▸ ht'))
  | writeWait | readWait | take | elapse => exact h

end Team

/-- **The mutex excludes.** However many threads there are and however their sections are
interleaved, if no section that is finished is one that releases the mutex twice, then the count of
the mutex is at most 1 and at most one thread is between acquire and release. A section releases the
mutex exactly once in exactly the states where it is not such a one. -/
theorem mutex_excludes {w₀ w : Team} {turns : List Turn} (h₀ : w₀.device.tcb.mutex = 1)
    (hnone : ∀ t, w₀.inside t = none) (r : onceMachine.Run w₀ turns w) :
    w.device.tcb.mutex ≤ 1 ∧
      (∀ t t', (w.inside t).isSome → (w.inside t').isSome → t = t') ∧
      ∀ s, (w.device.within s).tcb.mutex = w.device.tcb.mutex + 1 ↔ ¬ Twice w.device s := by
  have hstep : ∀ w i, Team.Exclusive w → onceMachine.enabled w i →
      Team.Exclusive (onceMachine.next w i) := fun w i h he => h.turn i he.1 he.2
  have h : w.Exclusive := r.invariant hstep (.inl ⟨h₀, hnone⟩)
  refine ⟨?_, fun t t' ht ht' => ?_, fun s => ?_⟩
  · rcases h with ⟨hm, -⟩ | ⟨hm, -⟩ <;> omega
  · rcases h with ⟨-, hn⟩ | ⟨-, t₀, hn⟩
    · rw [hn t] at ht
      exact absurd ht (by simp)
    · have hall : ∀ x, (w.inside x).isSome → x = t₀ := by
        intro x hx
        by_contra hne
        rw [hn x hne] at hx
        exact absurd hx (by simp)
      rw [hall t ht, hall t' ht']
  · rw [mutex_within]
    split_ifs with htwice
    · simp [htwice]
    · simp [htwice]

/-- A device that nobody uses. -/
def unused : Team := ⟨unopened, fun _ => none⟩

/-- A connection is opened, its SYN comes in, and a reader is about to check the state. -/
theorem mutex_excludes_session :
    ∃ w, onceMachine.Run unused
        [.acquire 1 (.open (passive 0 none)), .finish 1,
          .acquire 2 (.recv (emptySegment 5000 0 1000 { syn := true }) ⟨1, []⟩), .finish 2,
          .acquire 3 .readCheck] w ∧
      (w.inside 3).isSome ∧ w.device.tcb.mutex ≤ 1 ∧
      ∀ t t', (w.inside t).isSome → (w.inside t').isSome → t = t' := by
  have r : onceMachine.Run unused
      [.acquire 1 (.open (passive 0 none)), .finish 1,
        .acquire 2 (.recv (emptySegment 5000 0 1000 { syn := true }) ⟨1, []⟩), .finish 2,
        .acquire 3 .readCheck] _ := run_after
  have h := mutex_excludes (by decide) (fun _ => rfl) r
  exact ⟨_, r, by decide, h.1, h.2.1⟩

/-- **Two threads get in.** A connection that waits for a partner is closed, or a device that is not
open is written to: the count of the mutex is 2, and the next two threads are inside together. -/
theorem mutex_admits_two :
    (∃ w w', teamMachine.Run unused
        [.acquire 1 (.open (passive 0 none)), .finish 1, .acquire 1 .close, .finish 1] w ∧
      w.device.tcb.mutex = 2 ∧
      teamMachine.Run w [.acquire 2 (.open (passive 0 none)), .acquire 3 .readCheck] w' ∧
      (w'.inside 2).isSome ∧ (w'.inside 3).isSome) ∧
    ∃ w w', teamMachine.Run unused [.acquire 1 .writeCheck, .finish 1] w ∧
      w.device.tcb.mutex = 2 ∧
      teamMachine.Run w [.acquire 2 (.open (passive 0 none)), .acquire 3 .readCheck] w' ∧
      (w'.inside 2).isSome ∧ (w'.inside 3).isSome := by
  refine ⟨⟨_, _, run_after, by decide, run_after (s := teamMachine.after unused
        [.acquire 1 (.open (passive 0 none)), .finish 1, .acquire 1 .close, .finish 1]),
      by decide⟩,
    ⟨_, _, run_after, by decide,
      run_after,
      by decide⟩⟩

end Xinu.Tcp
