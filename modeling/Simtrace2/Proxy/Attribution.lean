import Simtrace2.Proxy.Crossing

/-! Over every run: a byte that the reader is sent in a TPDU answers that TPDU, as long
as no answer from before a reset reaches a card that is ready again. -/
namespace Simtrace2
open Lib

theorem between_of_ready {st : CardState} (ready : st.ready = true) (out : st ≠ .inTpdu) :
    st = .waitTpdu ∨ st = .inPts := by
  cases st <;> simp_all [CardState.ready]

theorem stays_outside {st st' : CardState} (out : st ≠ .inTpdu)
    (next : st' = st ∨ st' = .inPts ∨ st' = .waitTpdu) :
    st' ≠ .inTpdu ∧ (st.ready = true → st'.ready = true) := by
  obtain rfl | rfl | rfl := next
  · exact ⟨out, id⟩
  · exact ⟨nofun, fun _ => rfl⟩
  · exact ⟨nofun, fun _ => rfl⟩

namespace Proxy

/-- The reports of TPDUs begun since the last reset that the host has not read. -/
def asked (s : Proxy) : List UsbMsg :=
  (s.toHost.filter UsbMsg.isRxData).filter fun m => s.resetAt < m.tag

/-- The answers to TPDUs begun since the last reset that the card has not received. -/
def coming (s : Proxy) : List Pending :=
  (s.toDev.filter fun r => s.resetAt < r.1).map fun r => ⟨r.1, r.2.flags, r.2.payload⟩

structure Inv (s : Proxy) : Prop where
  act : Activated s.ci.emu.ch
  usb : s.ci.emu.usb = []
  sound : s.ci.emu.line.Sound
  reset : s.resetAt ≤ s.tpdu
  reports : ∀ m ∈ s.toHost, m.isRxData = true → m.tag ≤ s.tpdu
  answers : ∀ r ∈ s.toDev, r.1 ≤ s.tpdu ∧ r.2.payload ≠ [] ∧ r.2.payload.length + 14 < 65536
  course : s.ci.emu.ch.state.ready = true → Course s.tpdu s.ci.emu.line s.asked s.coming
  off : s.ci.emu.ch.state.ready = false → s.resetAt = s.tpdu
  begun : s.ci.emu.ch.state = .inTpdu → s.resetAt < s.tpdu
  aired : ∀ a ∈ s.aired, a.2 = a.1

namespace Inv
variable {s : Proxy}

theorem outside (h : s.Inv) (st : s.ci.emu.ch.state ≠ .inTpdu) :
    s.ci.emu.line.rx = none ∧ s.asked = [] ∧ s.ci.emu.line.pending = [] ∧ s.coming = [] := by
  cases ready : s.ci.emu.ch.state.ready with
  | true => exact (h.course ready).outside st
  | false =>
    obtain ⟨tx, rx, queue⟩ := h.act.drained ready
    have reset := h.off ready
    refine ⟨rx, ?_, Line.pending_nil.mpr ⟨tx, queue⟩, ?_⟩
    · rw [asked, List.filter_eq_nil_iff]
      intro m hm
      obtain ⟨here, report⟩ := List.mem_filter.mp hm
      have late := h.reports m here report
      simp [reset]
      exact late
    · rw [coming, List.map_eq_nil_iff, List.filter_eq_nil_iff]
      intro r hr
      have late := (h.answers r hr).1
      simp [reset]
      exact late

theorem asked_card (s : Proxy) (input : CardInput) :
    (s.card input).asked =
      s.asked ++ (s.ci.irqStep input).emu.reports.filter fun m => s.resetAt < m.tag := by
  simp only [asked, card, Emu.reports, List.filter_append]
  rfl

theorem aside (h : s.Inv) {input : CardInput} {e : Emu} (step : (s.ci.irqStep input).emu = e)
    (frame : Aside s.ci.emu e)
    (st : e.ch.state = s.ci.emu.ch.state ∧ e.ch.tpdu = s.ci.emu.ch.tpdu ∨
        s.ci.emu.ch.state ≠ .inTpdu ∧ e.ch.state ≠ .inTpdu ∧
          (s.ci.emu.ch.state.ready = true → e.ch.state.ready = true)) :
    (s.card input).Inv := by
  subst step
  have quiet : (s.ci.irqStep input).emu.reports = [] := by
    rw [frame.reports, Emu.reports, h.usb]
    rfl
  have asked' : (s.card input).asked = s.asked := by
    rw [asked_card, quiet]
    exact List.append_nil _
  have pending : (s.card input).ci.emu.line.pending = s.ci.emu.line.pending := by
    have tx : (s.card input).ci.emu.line.tx = s.ci.emu.line.tx := frame.tx
    have queue : (s.card input).ci.emu.line.queue = s.ci.emu.line.queue := frame.queue
    rw [Line.pending, tx, queue]
    rfl
  refine
    { act := CardemInst.irqStep_activated h.act input
      usb := rfl
      sound := ?_
      reset := h.reset
      reports := ?_
      answers := h.answers
      course := ?_
      off := ?_
      begun := ?_
      aired := h.aired }
  · intro m held
    exact h.sound m (frame.tx.symm.trans held)
  · intro m hm report
    obtain old | new := List.mem_append.mp hm
    · exact h.reports m old report
    · have here : m ∈ (s.ci.irqStep input).emu.reports := List.mem_filter.mpr ⟨new, report⟩
      rw [quiet] at here
      cases here
  · intro ready
    rw [asked']
    obtain ⟨st, tpdu⟩ | ⟨out, next, _⟩ := st
    · have before : s.ci.emu.ch.state.ready = true := by
        rw [← st]
        exact ready
      exact (h.course before).of_same st (congrArg Tpdu.state tpdu) frame.rx pending
    · obtain ⟨rx, read, clear, none'⟩ := h.outside out
      obtain now | now := between_of_ready ready next
      · exact .quiet (.inl now) (frame.rx.trans rx) ⟨read, pending.trans clear, none'⟩
      · exact .quiet (.inr (.inl now)) (frame.rx.trans rx) ⟨read, pending.trans clear, none'⟩
  · intro unready
    apply h.off
    rw [Bool.eq_false_iff]
    intro before
    obtain ⟨st, _⟩ | ⟨_, _, stays⟩ := st
    · exact absurd ((congrArg CardState.ready st).symm.trans unready) (by simp [before])
    · exact absurd ((stays before).symm.trans unready) Bool.noConfusion
  · intro here
    obtain ⟨st, _⟩ | ⟨_, next, _⟩ := st
    · exact h.begun (st.symm.trans here)
    · exact absurd here next

theorem inside (h : s.Inv) {k : Nat} (next : s.tpdu ≤ k) (late : s.resetAt < k) {input : CardInput}
    {l : Line} (step : (s.ci.irqStep input).emu.line = l) (sound : l.Sound) {new : List UsbMsg}
    (usb : l.usb = new) (own : ∀ m ∈ new, m.isRxData = true ∧ m.tag = k)
    (course : Course k l (s.asked ++ new) s.coming) : ({ s with tpdu := k }.card input).Inv := by
  subst step
  have submits : (s.ci.irqStep input).emu.usb = new := usb
  have ready : (s.ci.irqStep input).emu.ch.state.ready = true := course.ready
  have all : (s.ci.irqStep input).emu.reports.filter (fun m => s.resetAt < m.tag) = new := by
    rw [Emu.reports, submits, List.filter_filter, List.filter_eq_self]
    intro m hm
    simp [own m hm, late]
  refine
    { act := CardemInst.irqStep_activated h.act input
      usb := rfl
      sound := sound
      reset := h.reset.trans next
      reports := ?_
      answers := fun r hr => ⟨(h.answers r hr).1.trans next, (h.answers r hr).2⟩
      course := ?_
      off := ?_
      begun := fun _ => late
      aired := h.aired }
  · intro m hm report
    obtain old | here := List.mem_append.mp hm
    · exact (h.reports m old report).trans next
    · exact (own m (submits ▸ here)).2.le
  · intro _
    have asked' : ({ s with tpdu := k }.card input).asked = s.asked ++ new := by
      rw [asked_card]
      exact congrArg (s.asked ++ ·) all
    rw [asked']
    exact course.of_same rfl rfl rfl rfl
  · intro unready
    exact absurd (ready.symm.trans unready) Bool.noConfusion

theorem rxByte (h : s.Inv) (env : HostEnv) (slotNr byte : UInt8) (buffer : Bool) :
    (s.step env slotNr (.rxByte byte buffer)).Inv := by
  have own (k : Nat) : ∀ t, (if buffer then some k else none) = some t → t = k := by
    intro t here
    cases buffer with
    | false => cases here
    | true =>
      cases here
      rfl
  -- the card in a TPDU, or a byte that begins one
  have tpdu {k : Nat} (next : s.tpdu ≤ k) (late : s.resetAt < k)
      (st : s.ci.emu.ch.state = .inTpdu ∨ s.ci.emu.ch.state = .waitTpdu ∧ byte ≠ 0xff)
      (step : ∃ new, (s.ci.emu.line.rxByte byte (if buffer then some k else none)).usb =
          s.ci.emu.line.usb ++ new ∧ (∀ m ∈ new, m.isRxData = true ∧ m.tag = k) ∧
        Course k (s.ci.emu.line.rxByte byte (if buffer then some k else none)) (s.asked ++ new)
          s.coming) :
      ({ s with tpdu := k }.card
        (.processRxByte byte (if buffer then some k else none))).Inv := by
    obtain ⟨new, usb, fresh, course⟩ := step
    have line := Emu.line_rxByte byte st (if buffer then some k else none)
    have empty : s.ci.emu.line.usb = [] := h.usb
    rw [empty, List.nil_append] at usb
    refine h.inside next late line ?_ usb fresh course
    intro m held
    rw [(Line.rxByte_frame ..).1] at held
    exact h.sound m held
  cases begins : s.beginsTpdu byte with
  | true =>
    simp only [beginsTpdu, Bool.and_eq_true, beq_iff_eq, bne_iff_ne] at begins
    obtain ⟨rx, nothing⟩ := h.outside (by simp [begins.1])
    have step := Course.rxHeader (.inl ⟨begins.1, h.act.idle begins.1⟩) rx nothing byte
      (own (s.tpdu + 1))
    have next := tpdu (Nat.le_succ _) (Nat.lt_succ_of_le h.reset) (.inr begins) step
    simpa [Proxy.step, beginsTpdu, begins] using next
  | false =>
    by_cases st : s.ci.emu.ch.state = .inTpdu
    · have ready : s.ci.emu.ch.state.ready = true := by rw [st]; rfl
      have step := (h.course ready).rxByte st byte (own s.tpdu)
      have next := tpdu (Nat.le_refl _) (h.begun st) (.inl st) step
      simpa [Proxy.step, begins] using next
    · have ptss : s.ci.emu.ch.state = .waitTpdu → byte = 0xff := by
        intro waits
        simpa [beginsTpdu, waits] using begins
      obtain ⟨frame, after⟩ := Emu.processRxByte_aside ⟨st, ptss⟩ (if buffer then some s.tpdu else none)
      have next : (s.card (.processRxByte byte (if buffer then some s.tpdu else none))).Inv := by
        refine h.aside rfl frame (.inr ⟨st, stays_outside st ?_⟩)
        obtain same | ⟨_, now⟩ := after
        · exact .inl same
        · simp only [List.mem_cons, List.not_mem_nil, or_false] at now
          exact .inr now
      simpa [Proxy.step, begins] using next

theorem irqTx (h : s.Inv) (env : HostEnv) (slotNr : UInt8) : (s.step env slotNr .irqTx).Inv := by
  have own {new : List (Nat × Nat)} (fresh : ∀ a ∈ new, a.2 = a.1) (next : (s.card .txByte).Inv) :
      ({ s with aired := s.aired ++ new }.card .txByte).Inv := by
    obtain ⟨act, usb, sound, reset, reports, answers, course, off, begun, _⟩ := next
    refine ⟨act, usb, sound, reset, reports, answers, course, off, begun, ?_⟩
    intro a ha
    obtain old | here := List.mem_append.mp ha
    · exact h.aired a old
    · exact fresh a here
  by_cases st : s.ci.emu.ch.state = .inTpdu
  · have ready : s.ci.emu.ch.state.ready = true := by rw [st]; rfl
    obtain ⟨tag, course, sound, usb⟩ := (h.course ready).txByte st h.sound
    obtain ⟨line, _⟩ := Emu.line_txByte st
    cases on : s.ci.emu.uart.txrdy with
    | false =>
      have idle : (s.ci.irqStep .txByte).emu = s.ci.emu := by
        simp [CardemInst.irqStep, CardemInst.usartIrqTx, on]
      refine own ?_ (h.aside idle (Aside.refl _) (.inl ⟨rfl, rfl⟩))
      simp [Emu.airing, on]
    | true =>
      have sends : (s.ci.irqStep .txByte).emu.line = s.ci.emu.line.txByte.1 := by
        rw [← line]
        simp only [CardemInst.irqStep, CardemInst.usartIrqTx, on, if_true]
        split <;> rfl
      have quiet : s.ci.emu.line.txByte.1.usb = [] := usb.trans h.usb
      refine own ?_ (h.inside (Nat.le_refl _) (h.begun st) sends sound quiet (by simp) ?_)
      · intro a ha
        have msg : s.ci.emu.txMsg = s.ci.emu.line.txMsg := rfl
        cases next : s.ci.emu.line.txMsg with
        | none => simp [Emu.airing, msg, next] at ha
        | some m =>
          simp only [Emu.airing, on, st, msg, next, and_self, if_true, Option.map_some,
            Option.toList_some, List.map_cons, List.map_nil, List.mem_singleton] at ha
          subst ha
          exact tag m.1 m.2 next
      · rwa [List.append_nil]
  · obtain ⟨frame, after⟩ := Emu.usartIrqTx_aside st
    refine own ?_ (h.aside rfl frame (.inr ⟨st, stays_outside st ?_⟩))
    · simp [Emu.airing, st]
    · obtain same | now := after
      · exact .inl same
      · exact .inr (.inr now)

theorem ioStatechg (h : s.Inv) (env : HostEnv) (slotNr : UInt8) (io : CardIo) (active : Bool)
    (alloc : Alloc) : (s.step env slotNr (.ioStatechg io active alloc)).Inv := by
  obtain ⟨quiet, edge⟩ := s.ci.emu.ioStatechg_aside io active alloc
  cases ready : (s.ci.emu.cardEmuIoStatechg io active alloc).ch.state.ready with
  | true =>
    obtain unready | ⟨frame, st, tpdu⟩ := edge
    · exact absurd (ready.symm.trans unready) Bool.noConfusion
    · have next : (s.card (.ioStatechg io active alloc)).Inv := h.aside rfl frame (.inl ⟨st, tpdu⟩)
      have still : cardEmuChReady (s.card (.ioStatechg io active alloc)).ci.emu.ch = true := ready
      simpa only [Proxy.step, still, if_true] using next
  | false =>
    have off : cardEmuChReady (s.card (.ioStatechg io active alloc)).ci.emu.ch = false := ready
    simp only [Proxy.step, off, Bool.false_eq_true, if_false]
    have act := CardemInst.irqStep_activated h.act (.ioStatechg io active alloc)
    obtain ⟨tx, _, _⟩ := act.drained ready
    refine
      { act := act
        usb := rfl
        sound := ?_
        reset := Nat.le_refl _
        reports := ?_
        answers := h.answers
        course := fun on => absurd (on.symm.trans ready) Bool.noConfusion
        off := fun _ => rfl
        begun := ?_
        aired := h.aired }
    · intro m held
      exact absurd (tx.symm.trans held) nofun
    · intro m hm report
      obtain old | new := List.mem_append.mp hm
      · exact h.reports m old report
      · have here : m ∈ (s.ci.emu.cardEmuIoStatechg io active alloc).reports :=
          List.mem_filter.mpr ⟨new, report⟩
        rw [quiet, Emu.reports, h.usb] at here
        cases here
    · intro st
      exact absurd (ready.symm.trans (congrArg CardState.ready st)) Bool.noConfusion

theorem wtimeExpired (h : s.Inv) : (s.card .wtimeExpired).Inv := by
  have frame := Aside.wtimeExpired s.ci.emu
  by_cases st : s.ci.emu.ch.state = .waitAtr
  · have next : s.ci.emu.cardEmuWtimeExpired.ch.state = .inAtr := by
      simp [Emu.cardEmuWtimeExpired, st]
    refine h.aside rfl frame (.inr ⟨by simp [st], ?_, ?_⟩)
    · intro now
      exact absurd (next.symm.trans now) nofun
    · intro ready
      rw [st] at ready
      cases ready
  · have same : s.ci.emu.cardEmuWtimeExpired = s.ci.emu := by
      unfold Emu.cardEmuWtimeExpired
      split
      · contradiction
      · rfl
    exact h.aside same (Aside.refl _) (.inl ⟨rfl, rfl⟩)

theorem wtimeHalfExpired (h : s.Inv) : (s.card .wtimeHalfExpired).Inv := by
  refine h.aside rfl (Aside.wtimeHalfExpired s.ci.emu) (.inl ?_)
  simp only [CardemInst.irqStep, CardemInst.step, Emu.cardEmuWtimeHalfExpired]
  split <;> exact ⟨rfl, rfl⟩

theorem hostReceives (h : s.Inv) (env : HostEnv) (slotNr : UInt8) :
    (s.step env slotNr .hostReceives).Inv := by
  obtain ⟨act, usb, sound, reset, reports, answers, course, off, begun, aired⟩ := h
  cases queued : s.toHost with
  | nil =>
    simp only [Proxy.step, queued]
    exact ⟨act, usb, sound, reset, reports, answers, course, off, begun, aired⟩
  | cons msg rest =>
    have reports' : ∀ m ∈ rest, m.isRxData = true → m.tag ≤ s.tpdu := fun m hm =>
      reports m (by rw [queued]; exact List.mem_cons_of_mem _ hm)
    simp only [Proxy.step, queued, hostProcesses]
    cases payload : msg.payload with
    | rxData flags dataLen data =>
      have report : msg.isRxData = true := by simp [UsbMsg.isRxData, payload]
      obtain ⟨answer, small⟩ := requests_answer env s.host flags (data.take dataLen) msg.tag
      refine ⟨act, usb, sound, reset, reports', ?_, ?_, off, begun, aired⟩
      · intro r hr
        obtain old | new := List.mem_append.mp hr
        · exact answers r old
        · obtain ⟨req, hreq, rfl⟩ := List.mem_map.mp new
          exact ⟨reports msg (by rw [queued]; exact List.mem_cons_self) report, small req hreq⟩
      · intro ready
        have before := course ready
        by_cases fresh : s.resetAt < msg.tag
        · have here : s.asked = msg ::
              (rest.filter UsbMsg.isRxData).filter fun m => s.resetAt < m.tag := by
            simp only [asked, queued]
            rw [List.filter_cons_of_pos report, List.filter_cons_of_pos (by simpa using fresh)]
          rw [here] at before
          have after := before.hostReceives answer
          simpa [asked, coming, List.filter_append, List.filter_map, Function.comp_def, fresh]
            using after
        · have here : s.asked = (rest.filter UsbMsg.isRxData).filter fun m => s.resetAt < m.tag := by
            simp only [asked, queued]
            rw [List.filter_cons_of_pos report, List.filter_cons_of_neg (by simpa using fresh)]
          rw [here] at before
          simpa [asked, coming, List.filter_append, List.filter_map, Function.comp_def, fresh]
            using before
    | ptsInfo | status | config =>
      have other : ¬ msg.isRxData = true := by simp [UsbMsg.isRxData, payload]
      refine ⟨act, usb, sound, reset, reports', answers, ?_, off, begun, aired⟩
      intro ready
      have here : s.asked = (rest.filter UsbMsg.isRxData).filter fun m => s.resetAt < m.tag := by
        simp only [asked, queued]
        rw [List.filter_cons_of_neg other]
      have before := course ready
      rwa [here] at before

end Inv

/-- No answer from before the last reset reaches a card that is ready again. -/
def InTime (s : Proxy) : ProxyInput → Prop
  | .deviceReceives _ =>
    cardEmuChReady s.ci.emu.ch = true → ∀ r ∈ s.toDev.head?, s.resetAt < r.1
  | _ => True

instance (s : Proxy) : (input : ProxyInput) → Decidable (s.InTime input)
  | .deviceReceives _ => inferInstanceAs (Decidable
      (cardEmuChReady s.ci.emu.ch = true → ∀ r ∈ s.toDev.head?, s.resetAt < r.1))
  | .rxByte .. | .irqTx | .ioStatechg .. | .wtimeExpired | .wtimeHalfExpired | .hostReceives =>
    isTrue trivial

namespace Inv
variable {s : Proxy}

theorem deviceReceives (h : s.Inv) (env : HostEnv) (slotNr : UInt8) {behind : Nat → UInt8}
    (inTime : s.InTime (.deviceReceives behind)) :
    (s.step env slotNr (.deviceReceives behind)).Inv := by
  cases queued : s.toDev with
  | nil =>
    simp only [Proxy.step, queued]
    exact h
  | cons r rest =>
    obtain ⟨tag, req⟩ := r
    let msg : TxData := { req with tag, slotNr, behind }
    have dispatched : (s.ci.irqStep (.dispatch msg.msgb none)).emu =
        CardemInst.dispatchTxData s.ci.emu msg.msgb := by
      simp [CardemInst.irqStep, CardemInst.step, CardemInst.dispatchUsbCommandCardem, msg.msgType_msgb]
    simp only [Proxy.step, queued]
    obtain ⟨act, usb, sound, reset, reports, answers, course, off, begun, aired⟩ := h
    have answers' : ∀ r ∈ rest, r.1 ≤ s.tpdu ∧ r.2.payload ≠ [] ∧ r.2.payload.length + 14 < 65536 :=
      fun r hr => answers r (by rw [queued]; exact List.mem_cons_of_mem _ hr)
    cases ready : s.ci.emu.ch.state.ready with
    | false =>
      have drops : CardemInst.dispatchTxData s.ci.emu msg.msgb = s.ci.emu.usbBufFree tag := by
        rw [CardemInst.dispatchTxData, cardEmuChReady, ready]
        rfl
      have kept : Inv { s with toDev := rest } :=
        ⟨act, usb, sound, reset, reports, answers',
          fun on => absurd (on.symm.trans ready) Bool.noConfusion, off, begun, aired⟩
      exact kept.aside (dispatched.trans drops) ⟨rfl, rfl, rfl, rfl⟩ (.inl ⟨rfl, rfl⟩)
    | true =>
      have fresh : s.resetAt < tag := inTime ready (tag, req) (by rw [queued]; rfl)
      obtain ⟨_, some', small⟩ := answers (tag, req) (by rw [queued]; exact List.mem_cons_self)
      have line : (s.ci.irqStep (.dispatch msg.msgb none)).emu.line =
          s.ci.emu.line.enqueue msg.msgb := by
        rw [dispatched]
        exact line_dispatchTxData ready _
      have empty : (s.ci.irqStep (.dispatch msg.msgb none)).emu.usb = [] :=
        (congrArg Line.usb line).trans usb
      have st : (s.ci.irqStep (.dispatch msg.msgb none)).emu.ch.state = s.ci.emu.ch.state :=
        congrArg Line.state line
      refine
        { act := CardemInst.irqStep_activated act _
          usb := rfl
          sound := ?_
          reset := reset
          reports := ?_
          answers := answers'
          course := ?_
          off := fun unready => absurd (ready.symm.trans (st ▸ unready)) Bool.noConfusion
          begun := fun here => begun (st.symm.trans here)
          aired := aired }
      · intro m held
        exact sound m ((congrArg Line.tx line).symm.trans held)
      · intro m hm report
        obtain old | new := List.mem_append.mp hm
        · exact reports m old report
        · have none' : m ∈ (s.ci.irqStep (.dispatch msg.msgb none)).emu.usb := new
          rw [empty] at none'
          cases none'
      · intro _
        have before := course ready
        have here : s.coming = ⟨tag, req.flags, req.payload⟩ ::
            (rest.filter fun r => s.resetAt < r.1).map fun r => ⟨r.1, r.2.flags, r.2.payload⟩ := by
          simp only [coming, queued]
          rw [List.filter_cons_of_pos (by simpa using fresh), List.map_cons]
        rw [here] at before
        have after : Course s.tpdu (s.ci.emu.line.enqueue msg.msgb) _ _ :=
          before.deviceReceives ⟨rfl, rfl, rfl⟩ (Line.pending_enqueue _ some' small)
        rw [← line] at after
        have kept : ({ s with toDev := rest }.card (.dispatch msg.msgb none)).asked = s.asked := by
          rw [asked_card, Emu.reports, empty]
          exact List.append_nil _
        rw [← kept] at after
        exact after.of_same rfl rfl rfl rfl

theorem step (h : s.Inv) (env : HostEnv) (slotNr : UInt8) {input : ProxyInput}
    (inTime : s.InTime input) : (s.step env slotNr input).Inv := by
  cases input with
  | rxByte byte buffer => exact h.rxByte env slotNr byte buffer
  | irqTx => exact h.irqTx env slotNr
  | ioStatechg io active alloc => exact h.ioStatechg env slotNr io active alloc
  | wtimeExpired => exact h.wtimeExpired
  | wtimeHalfExpired => exact h.wtimeHalfExpired
  | hostReceives => exact h.hostReceives env slotNr
  | deviceReceives behind => exact h.deviceReceives env slotNr inTime

theorem init (slotNum inEp irqEp : Nat) (vccActive inReset clocked : Bool) (uart : Uart)
    (pinInsert : PinInsert) (inverted : Bool) (mux : Option UInt8) :
    (Proxy.init slotNum inEp irqEp vccActive inReset clocked uart pinInsert inverted mux).Inv where
  act := Activated.init ..
  usb := rfl
  sound _ held := by cases held
  reset := Nat.le_refl _
  reports _ hm := by cases hm
  answers _ hr := by cases hr
  course ready := by cases ready
  off _ := rfl
  begun st := by cases st
  aired _ ha := by cases ha

end Inv
end Proxy

/-- In every run in which no answer from before a reset reaches a card that is ready
again, every byte of a host message is sent in the TPDU that the message answers. -/
theorem replies_stay_with_their_tpdu (env : HostEnv) (slotNr : UInt8) (slotNum inEp irqEp : Nat)
    (vccActive inReset clocked : Bool) (uart : Uart) (pinInsert : PinInsert) (inverted : Bool)
    (mux : Option UInt8)
    {inputs : List ProxyInput}
    (inTime : Meets (Proxy.step env slotNr) Proxy.InTime
      (.init slotNum inEp irqEp vccActive inReset clocked uart pinInsert inverted mux) inputs) :
    Always (Proxy.step env slotNr) (fun s => ∀ a ∈ s.aired, a.2 = a.1)
      (.init slotNum inEp irqEp vccActive inReset clocked uart pinInsert inverted mux) inputs :=
  Always.of_keeps Proxy.Inv (fun _ _ h met => h.step env slotNr met) (fun _ h => h.aired)
    (Proxy.Inv.init ..) inTime

/-! A reset while an answer is in flight. -/

def plainHost : HostEnv where
  osimDetermineApduCase _ := 2
  transceive tmsg := if tmsg.length ≤ 261 then some ([], 0x90, 0x00) else none
  room tmsg response sw got := by
    split at got
    · cases got
      simp only [List.length_nil]
      omega
    · cases got

def offProxy : Proxy := .init 0 2 3 false true false ⟨.off, false, 9600, none, []⟩
  (.untouched .absent) false none

def answerToReset : List ProxyInput :=
  [.ioStatechg .rst false none, .wtimeExpired] ++ List.replicate 8 .irqTx

def statusCommand : List ProxyInput :=
  [0xa0, 0xf2, 0x00, 0x00, 0x02].map fun byte => .rxByte byte true

/-- A command whose answer is not yet at the card when the reader resets it. -/
def resetInFlight : List ProxyInput :=
  [.ioStatechg .vcc true none, .ioStatechg .clk true none] ++ answerToReset ++ statusCommand
    ++ [.hostReceives, .ioStatechg .rst true none]

def dropped : List ProxyInput :=
  resetInFlight ++ [.deviceReceives fun _ => 0] ++ answerToReset ++ statusCommand
    ++ [.hostReceives, .deviceReceives fun _ => 0, .irqTx, .irqTx]

/-- The answer arrives behind the ATR, and the next command is answered by it. -/
def crossed : List ProxyInput :=
  resetInFlight ++ answerToReset ++ [.deviceReceives fun _ => 0] ++ statusCommand ++ [.irqTx]

theorem dropped_stays :
    Always (Proxy.step plainHost 0) (fun s => ∀ a ∈ s.aired, a.2 = a.1) offProxy dropped ∧
      (run (Proxy.step plainHost 0) offProxy dropped).aired = [(2, 2), (2, 2)] :=
  ⟨replies_stay_with_their_tpdu plainHost 0 0 2 3 false true false _ (.untouched .absent) false none
    (by decide +kernel), by decide +kernel⟩

theorem crossed_crosses :
    ¬ Always (Proxy.step plainHost 0) (fun s => ∀ a ∈ s.aired, a.2 = a.1) offProxy crossed := by
  intro h
  have aired : (run (Proxy.step plainHost 0) offProxy crossed).aired = [(2, 1)] := by decide +kernel
  have both := h crossed List.prefix_rfl (2, 1) (by rw [aired]; exact List.mem_cons_self)
  cases both

end Simtrace2
