import Xinu.Sched.Frame

/-!
# What a step does to a thread's message

Each thread has room for one message. A step puts a message there, takes it away, or leaves it
alone, and in every case what was there and what came in is what went out and what is there.

## Main results

* `Sched.Step.mail`: nothing is lost and nothing comes twice
* `Sched.Step.awaits`: a thread that waits for a message is not woken without one
-/

namespace Xinu

open List Function KeyedList Globals Event

/-- The calls that read the caller's message. -/
inductive Reader
  | receive
  | recvtime
  | recvclr
deriving DecidableEq, Repr

/-- The value a call returns, if it returns. -/
def Context.value : Context → Option Int
  | .ret r => some r
  | _ => none

namespace Globals

/-- The message that waits for a thread. -/
def box (g : Globals) (t : Int) : Option Int :=
  if (g.thrtab t).hasmsg = true then some (g.thrtab t).msg else none

/-- The call, if it is one that reads the caller's message, that a step begins or goes on with. -/
def reader (g : Globals) : Op → Option Reader
  | .receive => some .receive
  | .recvtime _ => some .recvtime
  | .recvclr => some .recvclr
  | .cont =>
    match (g.thrtab g.thrcurrent).ctx with
    | .receive => some .receive
    | .recvtime => some .recvtime
    | _ => none
  | _ => none

/-- The call of `send` that a step makes: its target and its message. `kill` sends the id of the
thread to its parent. -/
def sends (g : Globals) : Op → Option (Int × Int)
  | .send tid msg => some (tid, msg)
  | .kill tid =>
    if ¬ g.Live tid ∨ NULLTHREAD = tid ∨ g.thrcount - 1 ≤ 1 then none
    else some ((g.thrtab tid).parent, tid)
  | _ => none

/-- The message that a step puts into the box of `t`. -/
def deposited (g : Globals) (op : Op) (t : Int) : List Int :=
  match g.sends op with
  | some (u, m) => if u = t ∧ g.Live t ∧ g.box t = none then [m] else []
  | none => []

/-- What the caller of a step from `g` to `g'` that leaves it at `k` obtains: the value that
`receive` returns, and the one that the other calls return when they have emptied the box. -/
def obtained (g : Globals) (op : Op) (k : Context) (g' : Globals) : List Int :=
  match g.reader op with
  | none => []
  | some .receive => k.value.toList
  | some _ =>
    if (g.box g.thrcurrent).isSome ∧ g'.box g.thrcurrent = none then k.value.toList else []

end Globals

/-- The events that write into the box of `t`. -/
def Event.Writes (t : Int) : Event → Prop
  | .message u _ _ => u = t
  | .spawn u _ => u = t
  | _ => False

/-- What an event puts into the box of `t`. -/
def Event.post (t : Int) : Event → Option (Option Int)
  | .message u m has => if u = t then some (if has then some m else none) else none
  | _ => none

namespace Sched

variable {v v' : Sched} {op : Op} {evs : List Event} {k : Context} {e : Event} {t : Int}

/-! ## Events -/

theorem mail_apply (h : ¬ e.Writes t) :
    ((v.apply e).thrtab t).hasmsg = (v.thrtab t).hasmsg ∧
      ((v.apply e).thrtab t).msg = (v.thrtab t).msg := by
  rw [thrtab_apply]
  cases e with
  | message u m has =>
    have htu : t ≠ u := fun h' => h h'.symm
    simp [htu]
  | spawn u x =>
    have htu : t ≠ u := fun h' => h h'.symm
    simp [htu]
  | enqueue i | prio u p | ctx u k =>
    dsimp only
    split_ifs <;> exact ⟨rfl, rfl⟩
  | _ => exact ⟨rfl, rfl⟩

theorem hasmsg_apply (h : ¬ e.Writes t) :
    ((v.apply e).thrtab t).hasmsg = (v.thrtab t).hasmsg := (mail_apply h).1

/-- The box after an event, unless the slot is given to a new thread. -/
theorem box_apply (h : ∀ x, e ≠ .spawn t x) : (v.apply e).box t = (e.post t).getD (v.box t) := by
  have hkeep : ¬ e.Writes t → (v.apply e).box t = v.box t := by
    intro hw
    rw [box, (mail_apply hw).1, (mail_apply hw).2, box]
  cases e with
  | message u m has =>
    by_cases hut : u = t
    · subst hut
      rw [box, thrtab_apply]
      simp [post]
    · rw [hkeep hut]
      simp [post, hut]
  | spawn u x =>
    refine hkeep ?_
    rintro rfl
    exact h x rfl
  | _ => exact hkeep not_false

theorem foldl_post (h : ∀ e ∈ evs, e.post t = none) (b : Option Int) :
    evs.foldl (fun b e => (e.post t).getD b) b = b := by
  induction evs with
  | nil => rfl
  | cons e evs ih =>
    obtain ⟨he, hevs⟩ := forall_mem_cons.mp h
    rw [foldl_cons, he]
    exact ih hevs

theorem post_ready (l : List Int) : ∀ e ∈ l.map ready, e.post t = none := by
  intro e he
  obtain ⟨u, -, rfl⟩ := mem_map.mp he
  rfl

/-- `t` waits for a message or has one. -/
def Awaits (v : Sched) (t : Int) : Prop := v.state t = .recv ∨ (v.box t).isSome

theorem Sound.awaits_apply (S : v.Sound) (he : v.Enabled e) (h : v.Awaits t)
    (hf : e ≠ .free t) (hs : ∀ x, e ≠ .spawn t x) (hm : ∀ m, e ≠ .message t m false) :
    (v.apply e).Awaits t := by
  have hbox : (v.box t).isSome → ((v.apply e).box t).isSome := by
    intro hb
    rw [box_apply hs]
    cases e with
    | message u m has =>
      rw [post]
      split_ifs with hut hhas
      · rfl
      · subst hut
        obtain rfl : has = false := by simpa using hhas
        exact absurd rfl (hm m)
      · exact hb
    | _ => exact hb
  rcases h with h | h
  · -- a thread that waits for a message is woken by one
    rw [Awaits, state_apply]
    cases e with
    | ready u =>
      rw [stateAfter]
      split_ifs with htu
      · subst htu
        right
        refine hbox ?_
        rw [box, if_pos (he.2.1 h)]
        rfl
      · exact .inl h
    | resched => exact .inl (S.state_resched_of_ne h (by simp) (by simp))
    | hold u =>
      left
      rw [stateAfter, if_neg, h]
      rintro rfl
      simp [he.2.2] at h
    | block st | doze d st =>
      left
      rw [stateAfter, if_neg, h]
      rintro rfl
      simp [he.1] at h
    | enqueue i =>
      left
      rw [stateAfter, if_neg, h]
      rintro rfl
      simp [he.1] at h
    | free u =>
      left
      have htu : t ≠ u := fun h' => hf (by rw [h'])
      rw [stateAfter, if_neg htu, h]
    | spawn u x =>
      left
      have htu : t ≠ u := fun h' => hs x (by rw [h'])
      rw [stateAfter, if_neg htu, h]
    | _ => exact .inl h
  · exact .inr (hbox h)

/-! ## Runs of events -/

/-- **A run of events leaves a thread in the system** unless it frees it, its box holds what was put
there last, and if it waits for a message it goes on waiting or has one. -/
theorem Sound.mail_run (S : v.Sound) (r : schedMachine.Run v evs v') (halive : v.state t ≠ .free)
    (hfree : free t ∉ evs) :
    v'.state t ≠ .free ∧ v'.box t = evs.foldl (fun b e => (e.post t).getD b) (v.box t) ∧
      ((∀ m, message t m false ∉ evs) → v.Awaits t → v'.Awaits t) := by
  induction r with
  | nil => exact ⟨halive, rfl, fun _ h => h⟩
  | @snoc w evs e r he ih =>
    obtain ⟨hw, hbox, hwait⟩ := ih fun h => hfree (mem_append_left _ h)
    have hf : e ≠ .free t := by
      rintro rfl
      exact hfree (by simp)
    have hs : ∀ x, e ≠ .spawn t x := by
      rintro x rfl
      exact hw he.2.1
    refine ⟨(S.run r).live_apply he hw hf, ?_, fun hm h => ?_⟩
    · rw [foldl_append, ← hbox]
      exact box_apply hs
    · refine (S.run r).awaits_apply he (hwait (fun m h => hm m (mem_append_left _ h)) h) hf hs ?_
      rintro m rfl
      exact hm m (by simp)

/-! ## Steps -/

theorem Script.free_mem (h : v.Script op evs k) (hmem : free t ∈ evs) :
    op = .cont ∧ v.self.ctx = .kill t := by
  cases h with
  | send => simpa using mem_sendEvents hmem
  | kill => simpa using mem_sendEvents ((mem_cons.mp hmem).resolve_left nofun)
  | suicide hctx =>
    obtain rfl : t = v.thrcurrent := by simpa using hmem
    exact ⟨rfl, hctx⟩
  | @killWaiting u hctx =>
    obtain rfl : t = u := by simpa using hmem
    exact ⟨rfl, hctx⟩
  | @killOther u hctx =>
    obtain rfl : t = u := by simpa using hmem
    exact ⟨rfl, hctx⟩
  | clkhandler => simp [tickEvents] at hmem
  | _ => simp at hmem

theorem Script.free_not_mem (h : v.Script op evs k) (hspares : op = .cont → v.self.ctx ≠ .kill t)
    (u : Int) : free t ∉ evs ++ [.ctx u k] := by
  intro hmem
  rcases mem_append.mp hmem with hmem | hmem
  · obtain ⟨hop, hctx⟩ := h.free_mem hmem
    exact hspares hop hctx
  · simp at hmem

theorem Script.take_mem (h : v.Script op evs k) {m : Int} (hmem : message t m false ∈ evs) :
    t = v.thrcurrent := by
  cases h with
  | send => simpa using mem_sendEvents hmem
  | kill => simpa using mem_sendEvents ((mem_cons.mp hmem).resolve_left nofun)
  | receiveNow | recvtimeNow | recvclr | receiveRest | recvtimeRest =>
    simp only [mem_singleton, message.injEq] at hmem
    exact hmem.1
  | clkhandler => simp [tickEvents] at hmem
  | _ => simp at hmem

/-- What a call of `send` puts into the box of `t`. -/
theorem foldl_sendEvents (v : Sched) (u m t : Int) (b : Option Int) :
    (v.sendEvents u m).foldl (fun b e => (post t e).getD b) b =
      if u = t ∧ v.Live t ∧ v.box t = none then some m else b := by
  have hbox : (v.thrtab u).hasmsg = true ↔ v.box u ≠ none := by
    unfold box
    split_ifs <;> simp_all
  by_cases hut : u = t
  · subst hut
    by_cases hbad : ¬ v.Live u ∨ (v.thrtab u).hasmsg = true
    · have hno : ¬ (u = u ∧ v.Live u ∧ v.box u = none) := by
        rintro ⟨-, hl, hb⟩
        exact hbad.elim (fun h => h hl) fun h => hbox.mp h hb
      rw [sendEvents, if_pos hbad, if_neg hno]
      rfl
    · have hyes : u = u ∧ v.Live u ∧ v.box u = none :=
        ⟨rfl, by_contra fun h => hbad (.inl h), by_contra fun h => hbad (.inr (hbox.mpr h))⟩
      rw [sendEvents, if_neg hbad, if_pos hyes]
      split_ifs <;> simp [post]
  · rw [if_neg fun h => hut h.1, foldl_post]
    unfold sendEvents
    split_ifs <;> simp [post, hut]

/-- What the caller obtains, if it is `t`, and what is left in the box of `t` are what was there and
what is sent to `t`. -/
def Balanced (v : Sched) (op : Op) (k : Context) (v' : Sched) (t : Int) : Prop :=
  (if v.thrcurrent = t then Globals.obtained v.toGlobals op k v'.toGlobals else []) ++
    (v'.box t).toList = (v.box t).toList ++ v.deposited op t

section

variable (h : v.Step op k v') (S : v.Sound) (halive : v.state t ≠ .free)
    (hspares : op = .cont → v.self.ctx ≠ .kill t)
include h S halive hspares

/-- **Nothing is lost and nothing comes twice**: a step that does not tear down `t` takes from its
box what its caller obtains and puts there what is sent to it. -/
theorem Step.mail (hwait : v.thrcurrent = t → v.self.ctx = .receive → (v.box t).isSome) :
    v'.state t ≠ .free ∧ v.Balanced op k v' t := by
  obtain ⟨evs, hscript, r⟩ := h
  obtain ⟨halive', hbox, -⟩ := S.mail_run r halive (hscript.free_not_mem hspares _)
  refine ⟨halive', ?_⟩
  rw [foldl_append, show ∀ b, [Event.ctx v.thrcurrent k].foldl
    (fun b e => (post t e).getD b) b = b from fun _ => rfl] at hbox
  -- the steps that neither read nor write a box
  have hplain : v.reader op = none → v.sends op = none → (∀ e ∈ evs, e.post t = none) →
      v.Balanced op k v' t := by
    intro hr hs hf
    rw [Balanced, hbox, foldl_post hf, obtained, hr, deposited, hs]
    simp
  -- the steps that read and leave the box of `t` as it is
  have hkept : v.sends op = none → (∀ e ∈ evs, e.post t = none) →
      (v.reader op = some .receive → k.value = none) →
      v.Balanced op k v' t := by
    intro hs hf hr
    have hb : v'.box t = v.box t := hbox.trans (foldl_post hf _)
    have hnil : (if v.thrcurrent = t then obtained v.toGlobals op k v'.toGlobals else []) = [] := by
      split_ifs with hcur
      · rw [obtained]
        split
        · rfl
        · rename_i heq
          rw [hr heq]
          rfl
        · rw [hcur, hb]
          refine if_neg ?_
          rintro ⟨h₁, h₂⟩
          simp [h₂] at h₁
      · rfl
    rw [Balanced, hnil, hb, deposited, hs]
    simp
  -- the steps in which the caller empties its box
  have hself : ∀ {m}, m ∈ v.box v.thrcurrent → v.self.hasmsg = true ∧ v.self.msg = m := by
    intro m hm
    unfold box at hm
    split_ifs at hm with hmsg
    · exact ⟨hmsg, Option.some.inj hm⟩
    · simp at hm
  have htake : ∀ {rd : Reader}, v.reader op = some rd → v.sends op = none →
      evs = [.message v.thrcurrent v.self.msg false] →
      (v.self.hasmsg = true → k = .ret v.self.msg) →
      (v.thrcurrent = t → rd = .receive → (v.box t).isSome) →
      v.Balanced op k v' t := by
    intro rd hr hs hevs hk hrd
    rw [hevs] at hbox
    rw [Balanced, deposited, hs, append_nil]
    by_cases hcur : v.thrcurrent = t
    · have hb : v'.box t = none := by
        rw [hbox]
        simp [post, hcur]
      rw [if_pos hcur, hb, obtained, hr, hcur, hb]
      cases hm : v.box t with
      | none =>
        cases rd with
        | receive =>
          have := hrd hcur rfl
          simp [hm] at this
        | _ => simp
      | some m =>
        obtain ⟨hmsg, hval⟩ := hself (hcur ▸ hm)
        rw [hk hmsg, hval]
        cases rd <;> simp [Context.value]
    · rw [if_neg hcur, hbox]
      simp [post, hcur]
  -- the steps that send
  have hsent : ∀ {u m}, v.reader op = none → v.sends op = some (u, m) →
      evs.foldl (fun b e => (post t e).getD b) (v.box t) =
        (if u = t ∧ v.Live t ∧ v.box t = none then some m else v.box t) →
      v.Balanced op k v' t := by
    intro u m hr hs hf
    rw [Balanced, hbox, hf, obtained, hr, deposited, hs]
    dsimp only
    split_ifs with h₁ h₂ h₂
    · simp [h₂.2.2]
    · simp
    · simp [h₂.2.2]
    · simp
  have hsome : v.self.hasmsg = true → v.thrcurrent = t → (v.box t).isSome := by
    rintro hmsg rfl
    rw [box, if_pos (show (v.thrtab v.thrcurrent).hasmsg = true from hmsg)]
    rfl
  cases hscript with
  | refused href =>
    rw [Balanced, hbox]
    cases op with
    | send u m =>
      have hno : ¬ (u = t ∧ v.Live t ∧ v.box t = none) := by
        rintro ⟨rfl, hl, hb⟩
        rcases href with h | h
        · exact h hl
        · rw [box, if_pos h] at hb
          simp at hb
      simp [obtained, reader, deposited, sends, hno]
    | kill u =>
      have hno : v.sends (.kill u) = none := by
        refine if_pos ?_
        rcases href with h | h
        · exact .inl h
        · exact .inr (.inl h)
      simp [obtained, reader, deposited, hno]
    | recvtime d =>
      rw [← hbox]
      exact hkept rfl (by simp) (by simp [reader])
    | cont | receive | recvclr => exact href.elim
    | _ => simp [obtained, reader, deposited, sends]
  | @send u m hl hmsg => exact hsent rfl rfl (foldl_sendEvents ..)
  | @kill u hl hn hc =>
    refine hsent rfl (if_neg ?_) (foldl_sendEvents ..)
    rintro (h | h | h)
    · exact h hl
    · exact hn h
    · omega
  | @killLast u hl hn hc =>
    exact hplain rfl (if_pos (.inr (.inr hc))) (by simp [post])
  | receive hmsg => exact hkept rfl (by simp [post]) (by simp [Context.value])
  | recvtime hd hmsg => exact hkept rfl (by simp [post]) (by simp [reader])
  | receiveNow hmsg =>
    exact htake rfl rfl rfl (fun _ => rfl) fun h _ => hsome hmsg h
  | recvtimeNow hd hmsg =>
    exact htake rfl rfl rfl (fun _ => rfl) fun h _ => hsome hmsg h
  | recvclr =>
    exact htake rfl rfl rfl (fun hmsg => by rw [if_pos hmsg]) (by simp)
  | receiveRest hctx =>
    refine @htake .receive ?_ rfl rfl (fun _ => rfl) fun h _ => hwait h hctx
    rw [reader, show (v.thrtab v.thrcurrent).ctx = .receive from hctx]
  | recvtimeRest hctx hmsg =>
    refine @htake .recvtime ?_ rfl rfl (fun _ => rfl) (by simp)
    rw [reader, show (v.thrtab v.thrcurrent).ctx = .recvtime from hctx]
  | timeout hctx hmsg =>
    refine hkept rfl (by simp) ?_
    rw [reader, show (v.thrtab v.thrcurrent).ctx = .recvtime from hctx]
    simp
  | idle hctx | «return» hctx | suspendRest hctx | suicide hctx | killWaiting hctx | killOther hctx
  | killFree hctx =>
    refine hplain ?_ rfl (by simp [post])
    unfold Sched.self at hctx
    rw [reader, hctx]
  | signaln | clkhandler =>
    refine hplain rfl rfl (forall_mem_append.mpr ⟨?_, by simp [post]⟩)
    simp [tickEvents, post]
  | semfree =>
    exact hplain rfl rfl (forall_mem_append.mpr ⟨post_ready _, by simp [post]⟩)
  | _ => exact hplain rfl rfl (by simp [post])

/-- **A thread that waits for a message is not woken without one.** -/
theorem Step.awaits (ht : t ≠ v.thrcurrent) (haw : v.Awaits t) : v'.Awaits t := by
  obtain ⟨evs, hscript, r⟩ := h
  refine (S.mail_run r halive (hscript.free_not_mem hspares _)).2.2 (fun m hmem => ?_) haw
  rcases mem_append.mp hmem with hmem | hmem
  · exact ht (hscript.take_mem hmem)
  · simp at hmem

end

/-- A thread that blocks in `receive` or `recvtime` is in the state that it blocks in. -/
theorem Step.blocked (h : v.Step op k v') (S : v.Sound) :
    (k = .receive → v'.state v.thrcurrent = .recv) ∧
      (k = .recvtime → ∃ d, op = .recvtime d ∧ v'.state v.thrcurrent = .tmout) := by
  obtain ⟨evs, hscript, r⟩ := h
  have hstay : ∀ {w : Sched} {st : ThrState}, w.Sound → w.state v.thrcurrent = st → st ≠ .curr →
      st ≠ .ready → ((w.apply .resched).apply (.ctx v.thrcurrent k)).state v.thrcurrent = st := by
    intro w st Sw hst h₁ h₂
    rw [state_apply]
    exact Sw.state_resched_of_ne hst h₁ h₂
  cases hscript with
  | receive hmsg =>
    refine ⟨fun _ => ?_, by simp⟩
    have hen := (Machine.run_cons_iff.mp r).1
    rw [r.eq_after]
    refine hstay (w := v.apply (.block .recv)) (S.apply hen) ?_ (by simp) (by simp)
    rw [state_apply]
    exact if_pos rfl
  | @recvtime d hd hmsg =>
    refine ⟨by simp, fun _ => ⟨d, rfl, ?_⟩⟩
    have hen := (Machine.run_cons_iff.mp r).1
    rw [r.eq_after]
    refine hstay (w := v.apply (.doze d .tmout)) (S.apply hen) ?_ (by simp) (by simp)
    rw [state_apply]
    exact if_pos rfl
  | _ => exact ⟨by simp, by simp⟩

end Sched

end Xinu
