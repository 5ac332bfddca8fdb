import Xinu.Tcp.State

/-!
# The timer events of TCP

The timer events are records of `tcptimertab`, linked into a delta queue from the record
`TCP_EVT_HEAD` on. `TCP_NEVENTS` is a macro without parentheses of its own, so that a remainder by
it is a remainder by `3 * NTCP` with 1 added.
-/

namespace Xinu.Tcp

/-- `TCP_NEVENTS`, where it stands alone. -/
def TCP_NEVENTS : Nat := 3 * NTCP + 1

/-- Index of the head entry. -/
def TCP_EVT_HEAD : Nat := 0

namespace Timer

/-- Writes into an event record. -/
def modEvt (t : Timer) (i : Nat) (f : TcpEvent → TcpEvent) : Timer :=
  { t with tcptimertab := store t.tcptimertab i (f (t.tcptimertab i)) }

/-- The loop of `allocEvent`. -/
def allocLoop : Nat → Timer → Timer × Option Nat
  | 0, t => (t, none)
  | n + 1, t =>
    -- (nextevt + 1) % TCP_NEVENTS
    let t := { t with nextevt := (t.nextevt + 1) % (3 * NTCP) + 1 }
    if t.nextevt = TCP_EVT_HEAD then allocLoop n t
    else if (t.tcptimertab t.nextevt).used = false then
      (t.modEvt t.nextevt fun e => { e with used := true }, some t.nextevt)
    else allocLoop n t

/-- `allocEvent`: allocate an unused timer event block; `none` is `SYSERR`. -/
def allocEvent (t : Timer) : Timer × Option Nat := allocLoop TCP_NEVENTS t

/-- The loop of `tcpTimerSched` over the events due no later: the last of them, the event behind it,
and the time that remains. The queue has at most one entry per record. -/
def schedLoop (t : Timer) : Nat → Nat → Option Nat → Int → Nat × Option Nat × Int
  | 0, prev, next, time => (prev, next, time)
  | n + 1, prev, next, time =>
    match next with
    | none => (prev, none, time)
    | some i =>
      let e := t.tcptimertab i
      if e.remain ≤ time then schedLoop t n i e.next (time - e.remain) else (prev, some i, time)

/-- `tcpTimerSched`: schedule a timer event. -/
def tcpTimerSched (t : Timer) (time : Int) (tcbptr : Nat) (type : EvtType) : Timer × Int :=
  if time < 0 then (t, SYSERR)
  else
    match t.allocEvent with
    | (t, none) => (t, SYSERR)
    | (t, some evt) =>
      let t := t.modEvt evt fun e => { e with time := time, type := type, tcbptr := tcbptr }
      -- insert event into delta queue
      let r := t.schedLoop TCP_NEVENTS TCP_EVT_HEAD (t.tcptimertab TCP_EVT_HEAD).next time
      let t := t.modEvt evt fun e => { e with next := r.2.1 }
      let t := t.modEvt r.1 fun e => { e with next := some evt }
      let t := t.modEvt evt fun e => { e with remain := r.2.2 }
      match r.2.1 with
      | none => (t, OK)
      | some next => (t.modEvt next fun e => { e with remain := e.remain - r.2.2 }, OK)

/-- An event of the control block; all its types match if none is given. -/
def Matches (tcbptr : Nat) (type : Option EvtType) (e : TcpEvent) : Prop :=
  e.tcbptr = tcbptr ∧ (type = none ∨ type = some e.type)

instance (tcbptr : Nat) (type : Option EvtType) (e : TcpEvent) :
    Decidable (Matches tcbptr type e) := inferInstanceAs (Decidable (_ ∧ _))

/-- The loop of `tcpTimerPurge`. -/
def purgeLoop (tcbptr : Nat) (type : Option EvtType) :
    Nat → Nat → Option Nat → Int → Timer → Timer × Int
  | 0, _, _, result, t => (t, result)
  | _ + 1, _, none, result, t => (t, result)
  | n + 1, prev, some cur, result, t =>
    let e := t.tcptimertab cur
    if Matches tcbptr type e then
      let result := if result = SYSERR then e.time - e.remain else result
      let t :=
        match e.next with
        | none => t
        | some next => t.modEvt next fun e' => { e' with remain := e'.remain + e.remain }
      let t := t.modEvt prev fun e' => { e' with next := e.next }
      let t := t.modEvt cur fun e' => { e' with used := false }
      -- the record taken out becomes the previous one
      purgeLoop tcbptr type n cur (t.tcptimertab cur).next result t
    else purgeLoop tcbptr type n cur e.next result t

/-- `tcpTimerPurge`: remove timer events of a control block, all types if none is given. -/
def tcpTimerPurge (t : Timer) (tcbptr : Nat) (type : Option EvtType) : Timer × Int :=
  purgeLoop tcbptr type TCP_NEVENTS TCP_EVT_HEAD (t.tcptimertab TCP_EVT_HEAD).next SYSERR t

/-- The loop of `tcpTimerRemain`. -/
def remainLoop (t : Timer) (tcbptr : Nat) (type : EvtType) : Nat → Option Nat → Int → Int
  | 0, _, _ => 0
  | _ + 1, none, _ => 0
  | n + 1, some cur, time =>
    let e := t.tcptimertab cur
    if e.tcbptr = tcbptr ∧ e.type = type then time + e.remain
    else remainLoop t tcbptr type n e.next (time + e.remain)

/-- `tcpTimerRemain`: time remaining for a timer event, 0 if no event exists. -/
def tcpTimerRemain (t : Timer) (tcbptr : Nat) (type : EvtType) : Int :=
  t.remainLoop tcbptr type TCP_NEVENTS (t.tcptimertab TCP_EVT_HEAD).next 0

/-- `tcpTimer` saves the first event and takes it off the queue. -/
def take (t : Timer) : Timer × Option TcpEvent :=
  match (t.tcptimertab TCP_EVT_HEAD).next with
  | none => (t, none)
  | some first =>
    let e := t.tcptimertab first
    let t := t.modEvt first fun e => { e with used := false }
    (t.modEvt TCP_EVT_HEAD fun h => { h with next := e.next }, some e)

/-- `tcpTimer` lets time pass that is too short for the first event. -/
def elapse (t : Timer) (time : Nat) : Timer :=
  match (t.tcptimertab TCP_EVT_HEAD).next with
  | none => t
  | some first =>
    if (t.tcptimertab first).remain ≤ time then t
    else t.modEvt first fun e => { e with remain := e.remain - time }

end Timer

namespace Device

/-- `tcpTimerSched` for the control block of the device. -/
def tcpTimerSched (d : Device) (time : Int) (type : EvtType) : Device × Int :=
  let r := d.timer.tcpTimerSched time d.minor type
  ({ d with timer := r.1 }, r.2)

/-- `tcpTimerPurge` for the control block of the device. -/
def tcpTimerPurge (d : Device) (type : Option EvtType) : Device × Int :=
  let r := d.timer.tcpTimerPurge d.minor type
  ({ d with timer := r.1 }, r.2)

/-- `tcpTimerRemain` for the control block of the device. -/
def tcpTimerRemain (d : Device) (type : EvtType) : Int := d.timer.tcpTimerRemain d.minor type

end Device

end Xinu.Tcp
