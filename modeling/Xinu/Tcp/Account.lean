import Xinu.Tcp.Reassembly

/-!
# The accounts of the sender

Sequence numbers count the SYN and the FIN, the send buffer does not. Of the stream `W` written so
far, whose first octet has the sequence number `base`, the peer has acknowledged `A` octets, and the
others are in the ring `out`. The functions that send and the one that processes an acknowledgement
keep the two accounts in step.

## Main results

* `Account.tcpSendData`, `Account.tcpSendRxt`, `Account.tcpSendPersist`: sending keeps the accounts,
  and what is sent carries the stream
* `Account.acknowledge`: so does an acknowledgement
-/

namespace Xinu.Tcp

open List Function Device

variable {A base hi k lo n p : Nat} {P : Segment → Prop} {W : List UInt8} {d d' : Device} {s : Send}
variable {seg : Segment}

/-- The send variables that the accounts are about. -/
structure Books where
  iss : Nat
  snduna : Nat
  sndnxt : Nat
  sndfin : Nat
  syn : Bool
  fin : Bool
  ostart : Nat
  ocount : Nat
  outbuf : Nat → UInt8

def Send.books (s : Send) : Books where
  iss := s.iss
  snduna := s.snduna
  sndnxt := s.sndnxt
  sndfin := s.sndfin
  syn := s.sndflg.syn
  fin := s.sndflg.fin
  ostart := s.ostart
  ocount := s.ocount
  outbuf := s.outbuf

/-- What holds of the send variables when the peer has acknowledged `A` octets of the stream `W`. -/
structure Account (W : List UInt8) (base p A : Nat) (b : Books) : Prop where
  total : A + b.ocount = W.length
  room : b.ocount ≤ TCP_OBLEN
  ostart : b.ostart = Ring.slot TCP_OBLEN p A
  held : Ring.Holds b.outbuf TCP_OBLEN p (octetAt W) A W.length
  una : b.snduna = base + A ∨ b.fin = true ∧ b.ocount = 0 ∧ b.snduna = base + A + 1
  una_le : b.snduna ≤ b.sndnxt
  nxt_le : b.sndnxt ≤ base + W.length + b.fin.toNat
  sndfin : b.fin = true → b.sndfin = base + W.length

/-- A segment carries octets of the stream at their sequence numbers, and a FIN, which takes a
request for it, stands at the end of the stream. -/
def Carries (base : Nat) (W : List UInt8) (fin : Bool) (seg : Segment) : Prop :=
  (seg.data ≠ [] → base ≤ seg.seqnum ∧ seg.data <+: W.drop (seg.seqnum - base)) ∧
    (seg.control.fin = true → fin = true ∧ seg.seqnum + seg.data.length = base + W.length)

theorem map_octetAt (h : k + n ≤ W.length) :
    (range n).map (fun i => octetAt W (k + i)) = (W.drop k).take n := by
  have h₁ := take_add_octetAt h
  rw [take_add] at h₁
  exact (append_cancel_left h₁).symm

/-- A computation of the amount to send that stays within what has not been sent. -/
def Tosend.Fair (x : Tosend) : Prop := x.wndused ≤ x.pending ∧ x.tosend ≤ x.pending - x.wndused

/-! ## Segments -/

theorem dataLength_ack (h : n < 2 ^ 16) : Device.dataLength { ack := true } n = n :=
  Nat.mod_eq_of_lt h

theorem dataLength_fin (h : 0 < n) (h' : n < 2 ^ 16) :
    Device.dataLength { ack := true, fin := true } n = n - 1 := by
  simp only [Device.dataLength, sub16, Bool.false_eq_true, if_false, if_true]
  omega

namespace Account

variable {b : Books}
  {fin : Bool}

theorem octets (h : Account W base p A b) (hA : A ≤ k) (hk : k + n ≤ W.length) :
    (range n).map (fun i => b.outbuf ((Ring.slot TCP_OBLEN p k + i) % TCP_OBLEN)) =
      (W.drop k).take n := by
  rw [← map_octetAt hk]
  refine map_congr_left fun i hi => ?_
  rw [mem_range] at hi
  rw [Ring.slot_add]
  exact h.held _ (by omega) (by omega)

section

variable (h : Account W base p A d.tcb.snd.books) (hn : n < 2 ^ 16) (hA : A ≤ k)
include h hn hA

/-- **A segment with data** from the place of the octet number `k` on. -/
theorem carries (hk : k + n ≤ W.length)
    (hseg : seg.seqnum = base + k ∧ seg.control = { ack := true } ∧
      seg.data = d.octets { ack := true } (Ring.slot TCP_OBLEN p k) n) :
    Carries base W fin seg := by
  obtain ⟨hseq, hctrl, hdata⟩ := hseg
  have hdata' : seg.data = (W.drop k).take n := by
    rw [hdata, Device.octets, dataLength_ack hn]
    exact h.octets hA hk
  refine ⟨fun _ => ⟨by omega, ?_⟩, fun hf => absurd hf (by rw [hctrl]; simp)⟩
  rw [hseq, Nat.add_sub_cancel_left, hdata']
  exact take_prefix n _

/-- **A segment with a FIN** carries the rest of the stream. -/
theorem carries_fin (hk : k + n = W.length + 1) (hfin : fin = true)
    (hseg : seg.seqnum = base + k ∧ seg.control = { ack := true, fin := true } ∧
      seg.data = d.octets { ack := true, fin := true } (Ring.slot TCP_OBLEN p k) n)
    (hpos : 0 < n) : Carries base W fin seg := by
  obtain ⟨hseq, hctrl, hdata⟩ := hseg
  have hdata' : seg.data = (W.drop k).take (n - 1) := by
    rw [hdata, Device.octets, dataLength_fin hpos hn]
    exact h.octets hA (by omega)
  refine ⟨fun _ => ⟨by omega, ?_⟩, fun _ => ⟨hfin, ?_⟩⟩
  · rw [hseq, Nat.add_sub_cancel_left, hdata']
    exact take_prefix _ _
  · rw [hseq, hdata', length_take, length_drop]
    omega

end

/-- The account does not depend on `sndnxt` within its bounds. -/
theorem next (h : Account W base p A b) {x : Nat} (hx : b.snduna ≤ x)
    (hx' : x ≤ base + W.length + b.fin.toNat) : Account W base p A { b with sndnxt := x } :=
  ⟨h.total, h.room, h.ostart, h.held, h.una, hx, hx', h.sndfin⟩

end Account

/-! ## What leaves the accounts alone -/

/-- The accounts stand still: what a function leaves behind that does not change them, all its
segments with the property `P`. -/
structure Still (P : Segment → Prop) (d d' : Device) : Prop where
  state : d'.tcb.state = d.tcb.state
  books : d'.tcb.snd.books = d.tcb.snd.books
  snddata : d'.tcb.snd.sndflg.snddata = d.tcb.snd.sndflg.snddata
  sndwnd : d'.tcb.snd.sndwnd = d.tcb.snd.sndwnd
  written : d'.hist.written = d.hist.written
  tosends : d'.hist.tosends = d.hist.tosends
  acks : d'.hist.acks = d.hist.acks
  sent : ∃ new, d'.hist.sent = d.hist.sent ++ new ∧ ∀ seg ∈ new, P seg

namespace Still

variable {Q : Segment → Prop} {d'' : Device}

/-- Where nothing is recorded. -/
theorem of_hist (hhist : d'.hist = d.hist) (hstate : d'.tcb.state = d.tcb.state)
    (hbooks : d'.tcb.snd.books = d.tcb.snd.books)
    (hdata : d'.tcb.snd.sndflg.snddata = d.tcb.snd.sndflg.snddata)
    (hwnd : d'.tcb.snd.sndwnd = d.tcb.snd.sndwnd) : Still P d d' :=
  ⟨hstate, hbooks, hdata, hwnd, by rw [hhist], by rw [hhist], by rw [hhist], [], by simp [hhist],
    by simp⟩

theorem refl (d : Device) : Still P d d := of_hist rfl rfl rfl rfl rfl

theorem ite {c : Prop} {_ : Decidable c} (h : Still P d d') (h' : Still P d d'') :
    Still P d (if c then d' else d'') := by
  split_ifs
  · exact h
  · exact h'

section

variable (h : Still P d d')
include h

theorem trans (h' : Still P d' d'') : Still P d d'' := by
  obtain ⟨new, hnew, hP⟩ := h.sent
  obtain ⟨new', hnew', hP'⟩ := h'.sent
  refine ⟨h'.state.trans h.state, h'.books.trans h.books, h'.snddata.trans h.snddata,
    h'.sndwnd.trans h.sndwnd, h'.written.trans h.written, h'.tosends.trans h.tosends,
    h'.acks.trans h.acks, new ++ new', ?_, ?_⟩
  · rw [hnew', hnew, append_assoc]
  · intro seg hseg
    rcases mem_append.mp hseg with hseg | hseg
    · exact hP seg hseg
    · exact hP' seg hseg

theorem mono (hPQ : ∀ seg, P seg → Q seg) : Still Q d d' := by
  obtain ⟨new, hnew, hP⟩ := h.sent
  exact ⟨h.state, h.books, h.snddata, h.sndwnd, h.written, h.tosends, h.acks, new, hnew,
    fun seg hseg => hPQ _ (hP seg hseg)⟩

theorem any : Still (fun _ => True) d d' := h.mono fun _ _ => trivial

theorem setSnddata (b : Bool) :
    Still P (d.modFlg fun f => { f with snddata := b })
      (d'.modFlg fun f => { f with snddata := b }) :=
  ⟨h.state, h.books, rfl, h.sndwnd, h.written, h.tosends, h.acks, h.sent⟩

theorem setNext (x : Nat) :
    Still P (d.modSnd fun s => { s with sndnxt := x })
      (d'.modSnd fun s => { s with sndnxt := x }) := by
  refine ⟨h.state, ?_, h.snddata, h.sndwnd, h.written, h.tosends, h.acks, h.sent⟩
  exact congrArg (fun b : Books => { b with sndnxt := x }) h.books

end

end Still

namespace Device

section

variable (d : Device)

theorem still_modRcv (f : Recv → Recv) : Still P d (d.modRcv f) :=
  .of_hist rfl rfl rfl rfl rfl

theorem still_signalMutex : Still P d d.signalMutex := .of_hist rfl rfl rfl rfl rfl

theorem still_waitMutex : Still P d d.waitMutex := .of_hist rfl rfl rfl rfl rfl

theorem still_signalOpenclose : Still P d d.signalOpenclose :=
  .of_hist rfl rfl rfl rfl rfl

theorem still_waitOpenclose : Still P d d.waitOpenclose := .of_hist rfl rfl rfl rfl rfl

theorem still_signalReaders (n : Int) : Still P d (d.signalReaders n) :=
  .of_hist rfl rfl rfl rfl rfl

theorem still_signalWriters (n : Int) : Still P d (d.signalWriters n) :=
  .of_hist rfl rfl rfl rfl rfl

theorem still_tcpTimerSched (time : Int) (type : EvtType) :
    Still P d (d.tcpTimerSched time type).1 := .of_hist rfl rfl rfl rfl rfl

theorem still_tcpTimerPurge (type : Option EvtType) :
    Still P d (d.tcpTimerPurge type).1 := .of_hist rfl rfl rfl rfl rfl

/-- A write to the send variables that the accounts are not about. -/
theorem still_modSnd {f : Send → Send} (hbooks : ∀ s, (f s).books = s.books)
    (hdata : ∀ s, (f s).sndflg.snddata = s.sndflg.snddata) (hwnd : ∀ s, (f s).sndwnd = s.sndwnd) :
    Still P d (d.modSnd f) := .of_hist rfl rfl (hbooks _) (hdata _) (hwnd _)

theorem still_modFlg {f : Flags → Flags}
    (h : ∀ g, (f g).syn = g.syn ∧ (f g).fin = g.fin ∧ (f g).snddata = g.snddata) :
    Still P d (d.modFlg f) := by
  obtain ⟨hsyn, hfin, hdata⟩ := h d.tcb.snd.sndflg
  refine .of_hist rfl rfl ?_ hdata rfl
  change { d.tcb.snd.books with
    syn := (f d.tcb.snd.sndflg).syn, fin := (f d.tcb.snd.sndflg).fin } = d.tcb.snd.books
  rw [hsyn, hfin]
  rfl

/-- **What `tcpSend` does to the accounts**: nothing. -/
theorem still_tcpSend (ctrl : Control) (seqnum acknum datastart datalen : Nat) :
    Still (fun seg => seg.seqnum = seqnum ∧ seg.control = ctrl ∧
        seg.data = d.octets ctrl datastart datalen)
      d (d.tcpSend ctrl seqnum acknum datastart datalen).1 := by
  have ho := d.outputs_tcpSend ctrl seqnum acknum datastart datalen
  have hs := d.snd_tcpSend ctrl seqnum acknum datastart datalen
  exact ⟨ho.state, by rw [hs], by rw [hs], by rw [hs], ho.written,
    d.tosends_tcpSend .., d.acks_tcpSend .., ho.sent⟩

/-- An ACK carries no data. -/
theorem still_tcpSendAck :
    Still (fun seg => seg.control = { ack := true } ∧ seg.data = []) d d.tcpSendAck.1 := by
  refine .trans ?_ ((still_tcpSend ..).mono fun seg h => ⟨h.2.1, h.2.2⟩)
  exact still_modSnd d (fun _ => rfl) (fun _ => rfl) fun _ => rfl

end

end Device

/-! ## Data -/

namespace Account

variable {tosend : Nat}

section

variable (h : Account W base p A d.tcb.snd.books) (E : Exact lo hi) (hhi : base + W.length + 1 ≤ hi)
    (hmss : 0 < d.tcb.snd.sndmss) (hA : A ≤ k) (hnxt : d.tcb.snd.sndnxt = base + k)
    (huna : d.tcb.snd.snduna = base + A)
include h E hhi hmss hA hnxt huna

/-- **The loop of `tcpSendData`** moves `sndnxt` along with what it sends. -/
theorem sendLoop
    (hk : k + tosend ≤ W.length + 1) (hpos : 0 < tosend) (hfuel : tosend ≤ n) (sent : Nat)
    (fin : Bool) : ∃ j, j < tosend ∧ (Device.sendLoop n (k - A) tosend sent d).2.1 = k + j - A ∧
      (Device.sendLoop n (k - A) tosend sent d).2.2.1 = tosend - j ∧
      Still (Carries base W fin) (d.modSnd fun s => { s with sndnxt := base + (k + j) })
        (Device.sendLoop n (k - A) tosend sent d).1 := by
  induction n generalizing d k tosend sent with
  | zero => omega
  | succ n ih =>
    have hend : d.modSnd (fun s => { s with sndnxt := base + (k + 0) }) = d := by
      rw [add_zero, ← hnxt]
      rfl
    rw [Device.sendLoop]
    dsimp only
    by_cases hmore : d.tcb.snd.sndmss < tosend
    · rw [if_pos hmore]
      have htotal := h.total
      have hroom := h.room
      unfold TCP_OBLEN at hroom
      -- one segment of the maximum size
      have hsend := d.still_tcpSend { ack := true } d.tcb.snd.sndnxt d.tcb.rcv.rcvnxt
        ((d.tcb.snd.ostart + (k - A)) % TCP_OBLEN) d.tcb.snd.sndmss
      have hslot : (d.tcb.snd.ostart + (k - A)) % TCP_OBLEN = Ring.slot TCP_OBLEN p k := by
        rw [show d.tcb.snd.ostart = _ from h.ostart, Ring.slot_add]
        congr 1
        omega
      rw [hslot, hnxt] at hsend
      rw [hslot, hnxt]
      have hcarry : Still (Carries base W fin) d _ := hsend.mono
        fun seg hseg => h.carries (by omega) hA (by omega) hseg
      have hsnd := d.snd_tcpSend { ack := true } (base + k) d.tcb.rcv.rcvnxt
        (Ring.slot TCP_OBLEN p k) d.tcb.snd.sndmss
      generalize (d.tcpSend { ack := true } (base + k) d.tcb.rcv.rcvnxt
        (Ring.slot TCP_OBLEN p k) d.tcb.snd.sndmss).1 = d₁ at hcarry hsnd
      have hmod : d₁.modSnd (fun s => { s with sndnxt := seqadd s.sndnxt s.sndmss }) =
          d₁.modSnd fun s => { s with sndnxt := base + (k + d.tcb.snd.sndmss) } := by
        refine modSnd_congr ?_
        rw [hsnd, hnxt, E.seqadd_eq, add_assoc]
      rw [hmod, add32_eq,
        show k - A + d.tcb.snd.sndmss = k + d.tcb.snd.sndmss - A by omega]
      have hstill := hcarry.setNext (base + (k + d.tcb.snd.sndmss))
      have h₁ : Account W base p A
          (d₁.modSnd fun s => { s with
            sndnxt := base + (k + d.tcb.snd.sndmss) }).tcb.snd.books := by
        rw [hstill.books]
        refine h.next (x := base + (k + d.tcb.snd.sndmss)) ?_ (by omega)
        change d.tcb.snd.snduna ≤ _
        omega
      obtain ⟨j, hj, hused, hleft, hrest⟩ := ih h₁
        (by change 0 < d₁.tcb.snd.sndmss; rw [hsnd]; exact hmss) (by omega) rfl
        (by change d₁.tcb.snd.snduna = _; rw [hsnd]; exact huna)
        (show k + d.tcb.snd.sndmss + (tosend - d.tcb.snd.sndmss) ≤ W.length + 1 by omega)
        (by omega) (by omega) (add32 sent d.tcb.snd.sndmss)
      refine ⟨d.tcb.snd.sndmss + j, by omega, by rw [hused]; omega, by rw [hleft]; omega, ?_⟩
      rw [← add_assoc k]
      exact (hstill.setNext (base + (k + d.tcb.snd.sndmss + j))).trans hrest
    · rw [if_neg hmore]
      exact ⟨0, hpos, rfl, rfl, hend.symm ▸ .refl d⟩

/-- `tcpSendData` from the point where the amount to send is known. -/
theorem transmit {fin : Bool} (hk : k + tosend ≤ W.length + fin.toNat)
    (hfin : fin = true → d.tcb.snd.sndflg.fin = true ∧ k + tosend = W.length + 1)
    (hpos : 0 < tosend) :
    Still (Carries base W d.tcb.snd.sndflg.fin)
      (d.modSnd fun s =>
        { s with sndnxt := base + (k + tosend), sndflg := { s.sndflg with snddata := false } })
      (d.transmit { ack := true, fin := fin } (k - A) tosend).1 := by
  have hfin' := Bool.toNat_le fin
  have htotal := h.total
  have hroom := h.room
  unfold TCP_OBLEN at hroom
  unfold Device.transmit
  dsimp only
  obtain ⟨j, hj, hused, hleft, hloop⟩ :=
    h.sendLoop E hhi hmss hA hnxt huna (by omega) hpos le_rfl 0 d.tcb.snd.sndflg.fin
  generalize Device.sendLoop tosend (k - A) tosend 0 d = r at hused hleft hloop
  rw [hused, hleft]
  -- the account after the loop
  have hbooks := hloop.books
  have hnxt₁ : r.1.tcb.snd.sndnxt = base + (k + j) := congrArg Books.sndnxt hbooks
  have h₁ : Account W base p A r.1.tcb.snd.books := by
    rw [hbooks]
    refine h.next (x := base + (k + j)) ?_ ?_
    · change d.tcb.snd.snduna ≤ _
      omega
    · omega
  have hslot : (r.1.tcb.snd.ostart + (k + j - A)) % TCP_OBLEN = Ring.slot TCP_OBLEN p (k + j) := by
    rw [show r.1.tcb.snd.ostart = _ from h₁.ostart, Ring.slot_add]
    congr 1
    omega
  rw [hslot, hnxt₁]
  -- the rest, with the FIN
  have hsend := r.1.still_tcpSend { ack := true, fin := fin } (base + (k + j)) r.1.tcb.rcv.rcvnxt
    (Ring.slot TCP_OBLEN p (k + j)) (tosend - j)
  have hcarry : Still (Carries base W d.tcb.snd.sndflg.fin) r.1 _ := hsend.mono fun seg hseg => by
    cases fin with
    | false => exact h₁.carries (by omega) (by omega) (by simp at hk; omega) hseg
    | true =>
      obtain ⟨hf, hend⟩ := hfin rfl
      exact h₁.carries_fin (by omega) (by omega) (by omega) hf hseg (by omega)
  have hsnd := r.1.snd_tcpSend { ack := true, fin := fin } (base + (k + j)) r.1.tcb.rcv.rcvnxt
    (Ring.slot TCP_OBLEN p (k + j)) (tosend - j)
  generalize (r.1.tcpSend { ack := true, fin := fin } (base + (k + j)) r.1.tcb.rcv.rcvnxt
    (Ring.slot TCP_OBLEN p (k + j)) (tosend - j)).1 = d₁ at hcarry hsnd
  have hmod : d₁.modSnd (fun s => { s with sndnxt := seqadd s.sndnxt (tosend - j) }) =
      d₁.modSnd fun s => { s with sndnxt := base + (k + tosend) } := by
    refine modSnd_congr ?_
    rw [hsnd, hnxt₁, E.seqadd_eq, show base + (k + j) + (tosend - j) = base + (k + tosend) by
      omega]
  rw [hmod]
  have hnext := (hloop.trans hcarry).setNext (base + (k + tosend))
  have hflag := hnext.setSnddata false
  refine hflag.trans ?_
  refine .setSnddata ?_ false
  refine .trans ?_ (.ite ?_ (.refl _))
  · exact .ite (still_tcpTimerSched ..) (.refl _)
  · exact still_modSnd _ (fun _ => rfl) (fun _ => rfl) fun _ => rfl

end

end Account

/-- What `tcpSendData` leaves behind: of the accounts only `sndnxt` is different, the amounts to
send were fair, and the segments have the property `P`. -/
structure Sends (P : Segment → Prop) (d d' : Device) : Prop where
  state : d'.tcb.state = d.tcb.state
  books : d'.tcb.snd.books = { d.tcb.snd.books with sndnxt := d'.tcb.snd.sndnxt }
  sndwnd : d'.tcb.snd.sndwnd = d.tcb.snd.sndwnd
  written : d'.hist.written = d.hist.written
  tosends : ∃ new, d'.hist.tosends = d.hist.tosends ++ new ∧ ∀ x ∈ new, x.Fair
  acks : d'.hist.acks = d.hist.acks
  sent : ∃ new, d'.hist.sent = d.hist.sent ++ new ∧ ∀ seg ∈ new, P seg

theorem Still.sends (h : Still P d d') : Sends P d d' := by
  have hnxt : d'.tcb.snd.sndnxt = d.tcb.snd.sndnxt := congrArg Books.sndnxt h.books
  refine ⟨h.state, ?_, h.sndwnd, h.written, ⟨[], by simp [h.tosends], by simp⟩, h.acks, h.sent⟩
  rw [h.books, hnxt]
  rfl

namespace Account

/-- The amount to send, where there is data to send and space in the window: `k` octets of the
stream have been sent before. -/
theorem amount (h : Account W base p A s.books) (E : Exact lo hi) (hlo : lo ≤ base)
    (hhi : base + W.length + 1 + 2 ^ 16 ≤ hi) (hwnd : s.sndwnd < 2 ^ 16)
    (hsent : ¬ (s.sndflg.fin = true ∧ seqlt s.sndfin s.sndnxt))
    (hfull : ¬ seqlte (seqadd s.snduna s.sndwnd) s.sndnxt) (heq : s.pending ≠ s.wndused) :
    ∃ k, A ≤ k ∧ s.sndnxt = base + k ∧ s.snduna = base + A ∧ s.wndused = k - A ∧
      0 < s.tosend ∧ Tosend.Fair ⟨s.pending, s.wndused, s.tosend⟩ ∧
      k + s.tosend ≤ W.length + (s.sndflg.fin && decide (s.pending ≤ s.sndwnd)).toNat ∧
      ((s.sndflg.fin && decide (s.pending ≤ s.sndwnd)) = true →
        s.sndflg.fin = true ∧ k + s.tosend = W.length + 1) := by
  have huna_le : s.snduna ≤ s.sndnxt := h.una_le
  have htotal : A + s.ocount = W.length := h.total
  have hroom : s.ocount ≤ TCP_OBLEN := h.room
  unfold TCP_OBLEN at hroom
  have hle := Bool.toNat_le s.sndflg.fin
  -- the FIN has not been sent
  have hfin : s.sndnxt ≤ base + W.length ∧ s.snduna = base + A := by
    have hnxt_le : s.sndnxt ≤ base + W.length + s.sndflg.fin.toNat := h.nxt_le
    have huna := h.una
    change s.snduna = _ ∨ s.sndflg.fin = true ∧ s.ocount = 0 ∧ s.snduna = _ at huna
    cases hf : s.sndflg.fin with
    | false =>
      rw [hf] at hnxt_le huna
      exact ⟨hnxt_le, huna.resolve_right (by simp)⟩
    | true =>
      have hsndfin : s.sndfin = base + W.length := h.sndfin hf
      have hnot : ¬ seqlt s.sndfin s.sndnxt := fun hlt => hsent ⟨hf, hlt⟩
      rw [E.seqlt_iff] at hnot
      exact ⟨by omega, huna.resolve_right (by omega)⟩
  obtain ⟨hnxt, huna⟩ := hfin
  have hused : s.wndused = s.sndnxt - base - A := by
    rw [Send.wndused, E.tcpSeqdiff_eq (by omega) (by omega) huna_le]
    omega
  have hpending : s.pending = s.ocount + s.sndflg.fin.toNat := by
    unfold Send.pending
    cases s.sndflg.fin with
    | false => rfl
    | true => exact add32_eq (by omega)
  rw [E.seqadd_eq, E.seqlte_iff] at hfull
  have htosend : s.tosend = min s.sndwnd s.pending - s.wndused := by
    unfold Send.tosend
    split_ifs
    · rw [sub32_eq]
      omega
    · rw [sub32_eq]
      omega
  refine ⟨s.sndnxt - base, by omega, by omega, huna, hused, by omega,
    ⟨by change s.wndused ≤ s.pending; omega, by change s.tosend ≤ s.pending - s.wndused; omega⟩,
      ?_, ?_⟩
  · by_cases hsmall : s.pending ≤ s.sndwnd
    · rw [decide_eq_true hsmall, Bool.and_true]
      omega
    · rw [decide_eq_false hsmall, Bool.and_false]
      omega
  · intro hf
    obtain ⟨hf, hsmall⟩ := (Bool.and_eq_true _ _).mp hf
    have hsmall := of_decide_eq_true hsmall
    rw [hf] at hpending
    simp only [Bool.toNat_true] at hpending
    exact ⟨hf, by omega⟩

/-- **`tcpSendData` keeps the accounts.** -/
theorem tcpSendData (h : Account W base p A d.tcb.snd.books) (E : Exact lo hi) (hlo : lo ≤ base)
    (hhi : base + W.length + 1 + 2 ^ 16 ≤ hi) (hwnd : d.tcb.snd.sndwnd < 2 ^ 16) :
    Account W base p A d.tcpSendData.1.tcb.snd.books ∧
      Sends (Carries base W d.tcb.snd.sndflg.fin) d d.tcpSendData.1 := by
  have hstill : ∀ d', Still (Carries base W d.tcb.snd.sndflg.fin) d d' →
      Account W base p A d'.tcb.snd.books ∧ Sends (Carries base W d.tcb.snd.sndflg.fin) d d' := by
    intro d' hd
    refine ⟨?_, hd.sends⟩
    rw [hd.books]
    exact h
  unfold Device.tcpSendData
  dsimp only
  split_ifs with hmss hsent hwait hzero hfull heq hrxt
  · exact hstill d (.refl d)
  · exact hstill d (.refl d)
  · exact hstill d (.refl d)
  · refine hstill _ (.trans ?_ (still_tcpTimerSched ..))
    exact still_modSnd _ (fun _ => rfl) (fun _ => rfl) fun _ => rfl
  · exact hstill d (.refl d)
  · exact hstill _ (still_tcpTimerSched ..)
  · exact hstill d (.refl d)
  · obtain ⟨k, hA, hnxt, huna, hused, hpos, hfair, hk, hfin⟩ :=
      h.amount E hlo hhi hwnd hsent hfull heq
    have hnote : Account W base p A
        (d.noteTosend ⟨d.tcb.snd.pending, d.tcb.snd.wndused, d.tcb.snd.tosend⟩).tcb.snd.books := h
    have ht := hnote.transmit E (by omega) (Nat.pos_of_ne_zero hmss) hA hnxt huna hk hfin hpos
    rw [← hused] at ht
    generalize ((d.noteTosend ⟨d.tcb.snd.pending, d.tcb.snd.wndused, d.tcb.snd.tosend⟩).transmit
      { ack := true, fin := d.tcb.snd.sndflg.fin && decide (d.tcb.snd.pending ≤ d.tcb.snd.sndwnd) }
      d.tcb.snd.wndused d.tcb.snd.tosend).1 = d' at ht
    have hnxt' : d'.tcb.snd.sndnxt = base + (k + d.tcb.snd.tosend) := congrArg Books.sndnxt ht.books
    have hbooks : d'.tcb.snd.books = { d.tcb.snd.books with sndnxt := d'.tcb.snd.sndnxt } := by
      rw [ht.books, hnxt']
      rfl
    refine ⟨?_, ht.state, hbooks, ht.sndwnd, ht.written, ⟨[_], ht.tosends, ?_⟩, ht.acks, ht.sent⟩
    · rw [hbooks, hnxt']
      refine h.next ?_ ?_
      · change d.tcb.snd.snduna ≤ _
        omega
      · have hand : (d.tcb.snd.sndflg.fin && decide (d.tcb.snd.pending ≤ d.tcb.snd.sndwnd)).toNat ≤
            d.tcb.snd.sndflg.fin.toNat := by
          cases d.tcb.snd.sndflg.fin with
          | false => simp
          | true => exact Bool.toNat_le _
        change _ ≤ base + W.length + d.tcb.snd.sndflg.fin.toNat
        omega
    · intro x hx
      rw [mem_singleton.mp hx]
      exact hfair

end Account

/-! ## Timer events -/

/-- The connection ends: its control block is freed. -/
def Ends (P : Segment → Prop) (d d' : Device) : Prop := ∃ d₁, Still P d d₁ ∧ d' = d₁.tcpFree.1

namespace Device

/-- The control bits of a segment that is sent again. -/
def rxtControl (s : Send) : Control :=
  { ack := true
    fin := decide (s.sndflg.fin = true ∧ seqlte s.snduna s.sndfin ∧ seqlt s.sndfin s.sndnxt) &&
      decide (tcpSeqdiff s.sndnxt s.snduna ≤ s.sndmss) }

theorem rxtControl_eq {b : Bool} (h : (rxtControl s).fin = b) :
    rxtControl s = { ack := true, fin := b } := by
  rw [← h]
  rfl

section

variable
    (hsyn : d.tcb.snd.sndflg.syn = true ∧ d.tcb.snd.snduna = d.tcb.snd.iss →
      ∀ seg : Segment, seg.control.syn = true → P seg)
    (hdata : ¬ (d.tcb.snd.sndflg.syn = true ∧ d.tcb.snd.snduna = d.tcb.snd.iss) →
      seqlt d.tcb.snd.snduna d.tcb.snd.sndnxt →
      ∀ seg : Segment, seg.seqnum = d.tcb.snd.snduna ∧ seg.control = rxtControl d.tcb.snd ∧
        seg.data = d.octets (rxtControl d.tcb.snd) d.tcb.snd.ostart
          (min (tcpSeqdiff d.tcb.snd.sndnxt d.tcb.snd.snduna) d.tcb.snd.sndmss) → P seg)
include hsyn hdata

theorem still_retransmit (first : Bool) (hlt : seqlt d.tcb.snd.snduna d.tcb.snd.sndnxt) :
    Still P d (d.retransmit first).1 := by
  unfold retransmit
  dsimp only
  split_ifs with hs
  · refine .trans ?_ (still_signalMutex _)
    refine .trans ?_ ((still_tcpSend ..).mono fun seg hseg => ?_)
    · exact still_tcpTimerSched ..
    · exact hsyn hs seg (by rw [hseg.2.1])
  · refine .trans ?_ (still_signalMutex _)
    refine .trans ?_ (still_modSnd _ (fun _ => rfl) (fun _ => rfl) fun _ => rfl)
    refine .trans ?_ ((still_tcpSend ..).mono fun seg hseg => ?_)
    · exact still_tcpTimerSched ..
    · exact hdata hs hlt seg hseg

theorem still_tcpSendRxt : Still P d d.tcpSendRxt.1 ∨ Ends P d d.tcpSendRxt.1 := by
  unfold tcpSendRxt
  dsimp only
  have hcount : Still P d (d.modSnd fun s => { s with rxtcount := s.rxtcount + 1 }) :=
    still_modSnd _ (fun _ => rfl) (fun _ => rfl) fun _ => rfl
  split_ifs with hnone hmax
  · exact .inl (still_signalMutex d)
  · exact .inr ⟨_, hcount, rfl⟩
  · refine .inl (hcount.trans (still_retransmit ?_ ?_ _ ?_))
    · exact hsyn
    · exact hdata
    · exact not_not.mp (not_or.mp hnone).1

end

theorem still_tcpSendPersist
    (hdata : d.tcb.snd.ocount ≠ 0 → ∀ seg : Segment, seg.seqnum = d.tcb.snd.snduna ∧
      seg.control = { ack := true } ∧ seg.data = d.octets { ack := true } d.tcb.snd.ostart
        (min d.tcb.snd.ocount d.tcb.snd.sndmss) → P seg) : Still P d d.tcpSendPersist.1 := by
  unfold tcpSendPersist
  split_ifs with hzero
  · refine .trans ?_ (still_signalMutex _)
    exact still_modSnd _ (fun _ => rfl) (fun _ => rfl) fun _ => rfl
  · refine .trans ?_ (still_signalMutex _)
    refine .trans ?_ ((still_tcpSend ..).mono fun seg hseg => hdata hzero seg hseg)
    refine .trans ?_ (still_tcpTimerSched ..)
    exact still_modSnd _ (fun _ => rfl) (fun _ => rfl) fun _ => rfl

end Device

namespace Account

/-- **A retransmission** carries the stream from the first octet not acknowledged on. -/
theorem tcpSendRxt (h : Account W base p A d.tcb.snd.books) (E : Exact lo hi) (hlo : lo ≤ base)
    (hhi : base + W.length + 1 ≤ hi)
    (hsyn : ¬ (d.tcb.snd.sndflg.syn = true ∧ d.tcb.snd.snduna = d.tcb.snd.iss)) :
    Still (Carries base W d.tcb.snd.sndflg.fin) d d.tcpSendRxt.1 ∨
      Ends (Carries base W d.tcb.snd.sndflg.fin) d d.tcpSendRxt.1 := by
  refine still_tcpSendRxt (fun hs => absurd hs hsyn) fun _ hlt seg hseg => ?_
  have huna_le : d.tcb.snd.snduna ≤ d.tcb.snd.sndnxt := h.una_le
  have hnxt_le : d.tcb.snd.sndnxt ≤ base + W.length + d.tcb.snd.sndflg.fin.toNat := h.nxt_le
  have htotal : A + d.tcb.snd.ocount = W.length := h.total
  have hroom : d.tcb.snd.ocount ≤ TCP_OBLEN := h.room
  unfold TCP_OBLEN at hroom
  have hle := Bool.toNat_le d.tcb.snd.sndflg.fin
  have huna : d.tcb.snd.snduna = base + A ∨ d.tcb.snd.sndflg.fin = true ∧ d.tcb.snd.ocount = 0 ∧
    d.tcb.snd.snduna = base + A + 1 := h.una
  rw [E.seqlt_iff] at hlt
  replace huna : d.tcb.snd.snduna = base + A := huna.resolve_right (by omega)
  have hpending : tcpSeqdiff d.tcb.snd.sndnxt d.tcb.snd.snduna = d.tcb.snd.sndnxt - (base + A) := by
    rw [E.tcpSeqdiff_eq (by omega) (by omega) huna_le, huna]
  obtain ⟨hseq, hctrl, hdata⟩ := hseg
  rw [huna] at hseq
  rw [hpending, show d.tcb.snd.ostart = _ from h.ostart] at hdata
  by_cases hfin : (Device.rxtControl d.tcb.snd).fin = true
  · -- the FIN has been sent, and the segment has room for it
    obtain ⟨hf, hsmall⟩ := (Bool.and_eq_true _ _).mp hfin
    obtain ⟨hf, -, hpast⟩ := of_decide_eq_true hf
    have hsmall := of_decide_eq_true hsmall
    have hsndfin : d.tcb.snd.sndfin = base + W.length := h.sndfin hf
    rw [E.seqlt_iff] at hpast
    rw [rxtControl_eq hfin] at hctrl hdata
    exact h.carries_fin (by omega) le_rfl (by omega) hf ⟨hseq, hctrl, hdata⟩ (by omega)
  · rw [rxtControl_eq (Bool.eq_false_of_not_eq_true hfin)] at hctrl hdata
    refine h.carries (by omega) le_rfl ?_ ⟨hseq, hctrl, hdata⟩
    -- a FIN that has been sent and is left out does not fit
    by_contra hgt
    refine hfin ((Bool.and_eq_true _ _).mpr ⟨decide_eq_true ?_, decide_eq_true (by omega)⟩)
    have hf : d.tcb.snd.sndflg.fin = true := by
      cases hf : d.tcb.snd.sndflg.fin with
      | true => rfl
      | false =>
        rw [hf, Bool.toNat_false] at hnxt_le
        omega
    have hsndfin : d.tcb.snd.sndfin = base + W.length := h.sndfin hf
    refine ⟨hf, ?_, ?_⟩
    · rw [E.seqlte_iff]
      omega
    · rw [E.seqlt_iff]
      omega

/-- **A window probe** does, too. -/
theorem tcpSendPersist (h : Account W base p A d.tcb.snd.books) :
    Still (Carries base W d.tcb.snd.sndflg.fin) d d.tcpSendPersist.1 := by
  refine still_tcpSendPersist fun hne seg hseg => ?_
  have htotal : A + d.tcb.snd.ocount = W.length := h.total
  have hroom : d.tcb.snd.ocount ≤ TCP_OBLEN := h.room
  unfold TCP_OBLEN at hroom
  have huna : d.tcb.snd.snduna = base + A := h.una.resolve_right fun hf => hne hf.2.1
  rw [huna, show d.tcb.snd.ostart = _ from h.ostart] at hseg
  exact h.carries (by omega) le_rfl (by omega) hseg

end Account

/-! ## Acknowledgements -/

namespace Device

section

variable (d : Device)

theorem still_tcpRecvRtt : Still P d d.tcpRecvRtt := by
  unfold tcpRecvRtt
  refine .trans ?_ (still_modSnd _ (fun _ => rfl) (fun _ => rfl) fun _ => rfl)
  refine .trans ?_ (.ite ?_ (.refl _))
  · exact still_tcpTimerPurge ..
  · exact still_modSnd _ (fun _ => rfl) (fun _ => rfl) fun _ => rfl

/-- **What an ACK does to the accounts.** -/
theorem still_acknowledge (acknum : Nat) :
    Still P
      (((d.noteAcked ⟨d.tcb.snd.ocount, d.tcb.snd.ackedAmount acknum⟩).modSnd fun s => { s with
          ostart := (s.ostart + d.tcb.snd.ackedAmount acknum) % TCP_OBLEN
          ocount := sub32 s.ocount (d.tcb.snd.ackedAmount acknum)
          snduna := acknum }).modFlg fun f => { f with snddata := true })
      (d.acknowledge acknum) := by
  refine .setSnddata ?_ true
  refine .trans ?_ (.ite (still_tcpTimerSched ..) (.refl _))
  refine .trans ?_ (still_tcpRecvRtt _)
  split_ifs
  · exact .of_hist rfl rfl rfl rfl rfl
  · exact .of_hist rfl rfl rfl rfl rfl

/-- The update of the window is none of the accounts' business. -/
theorem updateWindow_spec (pkt : TcpPkt) :
    (d.updateWindow pkt).tcb.snd.books = d.tcb.snd.books ∧ (d.updateWindow pkt).hist = d.hist ∧
      ((d.updateWindow pkt).tcb.snd.sndwnd = d.tcb.snd.sndwnd ∨
        (d.updateWindow pkt).tcb.snd.sndwnd = pkt.window) := by
  unfold updateWindow
  dsimp only
  split_ifs
  · exact ⟨rfl, rfl, .inr rfl⟩
  · exact ⟨rfl, rfl, .inr rfl⟩
  · exact ⟨rfl, rfl, .inl rfl⟩

theorem still_advance (seglen : Nat) : Still P d (d.advance seglen).1 := by
  unfold advance
  dsimp only
  refine .trans ?_ (still_modSnd _ (fun _ => rfl) (fun _ => rfl) fun _ => rfl)
  refine .trans ?_ (.ite (still_signalReaders ..) (.refl _))
  exact (still_modRcv ..).trans (still_modRcv ..)

theorem still_tcpRecvOpts (pkt : TcpPkt) : Still P d (d.modSnd fun s => s.tcpRecvOpts pkt) := by
  refine still_modSnd d ?_ ?_ ?_
  all_goals
    intro s
    unfold Send.tcpRecvOpts
    dsimp only
    split_ifs <;> rfl

/-- **The data of a segment** has nothing to do with the accounts. -/
theorem still_recvText (pkt : TcpPkt) : Still P d (d.recvText pkt).1 := by
  unfold recvText
  dsimp only
  split_ifs
  · exact (still_modRcv ..).trans (still_advance ..)
  · exact still_modRcv ..
  · exact .refl d

end

end Device

namespace Account

variable {a : Nat}

/-- **An ACK of something sent** acknowledges no more than the buffer holds. -/
theorem acknowledge (h : Account W base p A s.books) (E : Exact lo hi) (hlo : lo ≤ base)
    (hhi : base + W.length + 1 ≤ hi) (hsyn : ¬ (s.sndflg.syn = true ∧ s.snduna = s.iss))
    (ha : s.snduna < a) (ha' : a ≤ s.sndnxt) :
    s.ackedAmount a ≤ s.ocount ∧
      Account W base p (A + s.ackedAmount a)
        { s.books with
          ostart := (s.ostart + s.ackedAmount a) % TCP_OBLEN
          ocount := sub32 s.ocount (s.ackedAmount a)
          snduna := a } := by
  have hnxt_le : s.sndnxt ≤ base + W.length + s.sndflg.fin.toNat := h.nxt_le
  have htotal : A + s.ocount = W.length := h.total
  have hroom : s.ocount ≤ TCP_OBLEN := h.room
  have hoblen : TCP_OBLEN = 16384 := rfl
  have hle := Bool.toNat_le s.sndflg.fin
  have huna : s.snduna = base + A ∨ s.sndflg.fin = true ∧ s.ocount = 0 ∧
    s.snduna = base + A + 1 := h.una
  replace huna : s.snduna = base + A := huna.resolve_right (by omega)
  have hdiff : tcpSeqdiff a s.snduna = a - (base + A) := by
    rw [E.tcpSeqdiff_eq, huna]
  -- the FIN is acknowledged, or it is not
  have hcases : s.ackedAmount a = a - (base + A) ∧ a ≤ base + W.length ∨
      s.ackedAmount a = s.ocount ∧ a = base + W.length + 1 ∧ s.sndflg.fin = true := by
    unfold Send.ackedAmount
    dsimp only
    rw [if_neg hsyn, hdiff]
    cases hf : s.sndflg.fin with
    | false =>
      rw [hf, Bool.toNat_false] at hnxt_le
      exact Or.inl ⟨rfl, by omega⟩
    | true =>
      have hsndfin : s.sndfin = base + W.length := h.sndfin hf
      have hlt := E.seqlt_iff (a := s.sndfin) (b := a) (by omega) (by omega) (by omega) (by omega)
      by_cases hpast : s.sndfin < a
      · rw [if_pos ⟨rfl, hlt.mpr hpast⟩, sub32_eq]
        exact Or.inr ⟨by omega, by omega, rfl⟩
      · rw [if_neg fun hn => hpast (hlt.mp hn.2)]
        exact Or.inl ⟨rfl, by omega⟩
  have hamt : s.ackedAmount a ≤ s.ocount := by omega
  refine ⟨hamt, ?_⟩
  rw [sub32_eq hamt]
  refine ⟨?_, ?_, ?_, h.held.mono (by omega) le_rfl, ?_, ha', h.nxt_le, h.sndfin⟩
  · change A + s.ackedAmount a + (s.ocount - s.ackedAmount a) = _
    omega
  · change s.ocount - s.ackedAmount a ≤ _
    omega
  · change (s.ostart + s.ackedAmount a) % TCP_OBLEN = _
    rw [show s.ostart = _ from h.ostart, Ring.slot_add]
  · rcases hcases with ⟨hamt, ha⟩ | ⟨hamt, ha, hf⟩
    · refine Or.inl ?_
      change a = _
      omega
    · refine Or.inr ⟨hf, ?_, ?_⟩
      · change s.ocount - s.ackedAmount a = 0
        omega
      · change a = _
        omega

end Account

/-! ## Writing -/

theorem octetAt_append_left {V : List UInt8} (h : k < W.length) :
    octetAt (W ++ V) k = octetAt W k := by
  rw [octetAt, octetAt, getD_eq_getElem?_getD, getElem?_append_left h, ← getD_eq_getElem?_getD]

namespace Device

/-- A round of `tcpWrite` when it has filled the buffer. -/
def afterWrite (d : Device) : Device :=
  let d := if d.tcb.snd.ocount < TCP_OBLEN then d.signalWriters 1 else d
  let d := if d.tcb.state = .estab ∨ d.tcb.state = .closewt then d.tcpSendData.1 else d
  d.signalMutex

/-- The buffer filled by a round of `tcpWrite`. -/
def filled (d : Device) (buffer : List UInt8) : Device :=
  let w := d.tcb.snd.writeLoop buffer
  let d := d.modSnd fun _ => w.1
  { d with hist := { d.hist with written := d.hist.written ++ buffer.take w.2 } }

/-- A round of `tcpWrite` in a state in which it may write. -/
theorem tcpWriteRound_of_check {buffer : List UInt8} (h : d.writeStateCheck = (d, OK)) :
    (d.tcpWriteRound buffer).1 = (d.filled buffer).afterWrite := by
  unfold tcpWriteRound
  rw [h]
  rfl

end Device

theorem Send.writeLoop_eq (s : Send) (buffer : List UInt8) :
    (s.writeLoop buffer).1 = { s with
      outbuf := (s.writeLoop buffer).1.outbuf, ocount := (s.writeLoop buffer).1.ocount } := by
  induction buffer generalizing s with
  | nil => rfl
  | cons ch buffer ih =>
    rw [writeLoop]
    split_ifs
    · exact ih _
    · rfl

/-- The loop does not look at `snduna`. -/
theorem Send.writeLoop_setUna (s : Send) (x : Nat) (buffer : List UInt8) :
    ({ s with snduna := x } : Send).writeLoop buffer =
      ({ (s.writeLoop buffer).1 with snduna := x }, (s.writeLoop buffer).2) := by
  induction buffer generalizing s with
  | nil => rfl
  | cons ch buffer ih =>
    rw [writeLoop, writeLoop]
    split_ifs
    · have h := ih { s with
        outbuf := store s.outbuf ((s.ostart + s.ocount) % TCP_OBLEN) ch, ocount := s.ocount + 1 }
      rw [h]
    · rfl

namespace Account

section

variable (h : Account W base p A s.books)
include h

theorem push (hfin : s.sndflg.fin = false) (hroom : s.ocount < TCP_OBLEN) (ch : UInt8) :
    Account (W ++ [ch]) base p A
      { s with
        outbuf := store s.outbuf ((s.ostart + s.ocount) % TCP_OBLEN) ch
        ocount := s.ocount + 1 : Send }.books := by
  have htotal : A + s.ocount = W.length := h.total
  have hnxt_le : s.sndnxt ≤ base + W.length + s.sndflg.fin.toNat := h.nxt_le
  have hslot : (s.ostart + s.ocount) % TCP_OBLEN = Ring.slot TCP_OBLEN p W.length := by
    rw [show s.ostart = _ from h.ostart, Ring.slot_add, htotal]
  have hlast : octetAt (W ++ [ch]) W.length = ch := by
    rw [octetAt, getD_eq_getElem?_getD, getElem?_concat_length]
    rfl
  have hlen : (W ++ [ch]).length = W.length + 1 := length_append
  refine ⟨by rw [hlen]; change A + (s.ocount + 1) = _; omega, hroom, h.ostart, ?_, ?_,
    h.una_le, ?_, ?_⟩
  · rw [hlen]
    have hheld : Ring.Holds s.outbuf TCP_OBLEN p (octetAt (W ++ [ch])) A W.length :=
      h.held.of_eq fun k _ hk => octetAt_append_left hk
    have hpush := hheld.push (by omega) (by omega)
    rw [hlast] at hpush
    rw [hslot, store_eq_update]
    exact hpush
  · exact .inl (h.una.resolve_right fun hf => absurd (hfin.symm.trans hf.1) (by simp))
  · rw [hlen]
    change s.sndnxt ≤ base + (W.length + 1) + s.sndflg.fin.toNat
    omega
  · exact fun hf => absurd (hfin.symm.trans hf) (by simp)

/-- **The inner loop of `tcpWrite`** appends to the stream. -/
theorem writeLoop (hfin : s.sndflg.fin = false) (buffer : List UInt8) :
    Account (W ++ buffer.take (s.writeLoop buffer).2) base p A (s.writeLoop buffer).1.books := by
  induction buffer generalizing s W with
  | nil => simpa [Send.writeLoop] using h
  | cons ch buffer ih =>
    rw [Send.writeLoop]
    split_ifs with hroom
    · have h' := ih (h.push hfin hroom ch) hfin
      rw [append_assoc] at h'
      exact h'
    · simpa using h

/-- **A request to close** puts the FIN at the end of the stream. -/
theorem requestFin (E : Exact lo hi) (hhi : base + W.length ≤ hi) (hfin : s.sndflg.fin = false) :
    Account W base p A
      { s with
        sndfin := seqadd s.snduna s.ocount
        sndflg := { s.sndflg with fin := true } : Send }.books := by
  have htotal : A + s.ocount = W.length := h.total
  have hnxt_le : s.sndnxt ≤ base + W.length + s.sndflg.fin.toNat := h.nxt_le
  rw [hfin, Bool.toNat_false] at hnxt_le
  have huna : s.snduna = base + A :=
    h.una.resolve_right fun hf => absurd (hfin.symm.trans hf.1) (by simp)
  refine ⟨h.total, h.room, h.ostart, h.held, .inl huna, h.una_le, ?_, fun _ => ?_⟩
  · change s.sndnxt ≤ base + W.length + 1
    omega
  · change seqadd s.snduna s.ocount = _
    rw [E.seqadd_eq]
    omega

end

end Account

/-! ## The other calls -/

namespace Device

theorem still_delivered (d : Device) (l : List UInt8) :
    Still P d { d with hist := { d.hist with delivered := l } } :=
  ⟨rfl, rfl, rfl, rfl, rfl, rfl, rfl, [], by simp, by simp⟩

theorem still_tcpReadCheck (d : Device) : Still P d d.tcpReadCheck.1 := by
  rw [tcpReadCheck_fst]
  exact still_signalMutex d

theorem still_tcpReadRound (d : Device) (len : Nat) : Still P d (d.tcpReadRound len).1 := by
  unfold tcpReadRound
  rcases d.readStateCheck_cases with hcheck | ⟨err, herr, hcheck⟩ <;> rw [hcheck] <;> dsimp only
  · rw [if_neg (by decide)]
    refine .trans ?_ (still_signalMutex _)
    split_ifs
    · refine .trans ?_ (still_signalReaders ..)
      exact (still_modRcv ..).trans (still_delivered ..)
    · exact (still_modRcv ..).trans (still_delivered ..)
  · rw [if_pos herr]
    exact still_signalMutex d

theorem still_writeStateCheck (h : d.tcb.state ≠ .listen) : Still P d d.writeStateCheck.1 := by
  rcases writeStateCheck_cases h with ⟨hcheck, -⟩ | ⟨err, -, hcheck⟩ <;> rw [hcheck]
  · exact .refl d
  · exact still_signalMutex d

/-- A device that is open is not opened again. -/
theorem still_tcpOpen (h : d.tcb.state ≠ .closed) (h' : d.tcb.state ≠ .listen)
    (args : OpenArgs) : Still P d (d.tcpOpen args).1 := by
  unfold tcpOpen
  rw [if_pos ⟨h, h'⟩]
  exact .of_hist rfl rfl rfl rfl rfl

/-- A device that is closed does nothing, unless it is opened or a timer event is left. -/
theorem still_exec_closed (hst : d.tcb.state = .closed) (c : Call) (hopen : ∀ args, c ≠ .open args)
    (hexpire : c ≠ .expire) : Still P d (d.exec c) := by
  have hwait : d.waitMutex.tcb.state = .closed := hst
  have hne : d.waitMutex.tcb.state ≠ .listen := by rw [hwait]; simp
  -- the calls that take the mutex
  have hcall : ∀ {d'}, Still P d.waitMutex d' → Still P d d' := (still_waitMutex d).trans
  cases c with
  | «open» args => exact absurd rfl (hopen args)
  | close =>
    refine hcall (?_ : Still P d.waitMutex d.waitMutex.tcpClose.1)
    unfold tcpClose
    rw [hwait]
    exact .of_hist rfl rfl rfl rfl rfl
  | writeCheck => exact hcall ((still_writeStateCheck hne).trans (still_signalMutex _))
  | write buffer =>
    refine hcall (?_ : Still P d.waitMutex (d.waitMutex.tcpWriteRound buffer).1)
    unfold tcpWriteRound writeStateCheck
    rw [hwait]
    exact (still_signalMutex _).trans (still_signalWriters ..)
  | readCheck => exact hcall (still_tcpReadCheck _)
  | read len => exact hcall (still_tcpReadRound _ len)
  | recv pkt src =>
    refine hcall (?_ : Still P d.waitMutex (d.waitMutex.tcpRecv pkt src).1)
    unfold tcpRecv
    rw [if_pos hwait]
    exact still_signalMutex _
  | expire => exact absurd rfl hexpire
  | writeWait | readWait | elapse => exact .of_hist rfl rfl rfl rfl rfl

end Device

end Xinu.Tcp
