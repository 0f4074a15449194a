import Simtrace2.CardEmu.Handle

/-! The state setters of the card: what each new ISO 7816 state and each new
TPDU state does to the UART. Both return early when the state is unchanged. -/
namespace Simtrace2

def iso78163InitWtime : Nat := 9600
def iso78163DefaultWi : UInt8 := 10
def iso78163AtrLenMax : Nat := 33
def iso78163PbNull : UInt8 := 0x60

def CardState.ready : CardState → Bool
  | .inPts | .waitTpdu | .inTpdu => true
  | _ => false

def cardEmuChReady (ch : CardHandle) : Bool := ch.state.ready

namespace Emu

def cardHandleReset (e : Emu) : Emu :=
  let e := e.uartUpdateWt 0
  let e := match e.ch.uartTxMsg with
    | some msg => { e with ch.uartTxMsg := none }.usbBufFree msg.tag
    | none => e
  let e := match e.ch.uartRxMsg with
    | some msg => { e with ch.uartRxMsg := none }.usbBufFree msg.tag
    | none => e
  { e with ch.uartTxQueue := [], freed := e.freed ++ e.ch.uartTxQueue.map Msgb.tag }

/-- `emu_update_fidi`: an unsupported ratio leaves the UART as it is. -/
def emuUpdateFidi (e : Emu) : Emu :=
  match iso78163ComputeFdRatio e.ch.fIndex e.ch.dIndex with
  | some rc => if 0 < rc ∧ rc ≤ usFidiRatioMax then e.uartUpdateFidi rc else e
  | none => e

/-- `emu_update_wt`: WT = WI x 960 x D, with D = 1 where Table 8 has none. -/
def emuUpdateWt (e : Emu) : Emu :=
  let d := if 1 ≤ e.ch.dIndex ∧ e.ch.dIndex ≤ 9
    then (iso78163DiTable[e.ch.dIndex]?).getD 1 else 1
  { e with ch.waitingTime := e.ch.wi.toNat * 960 * d }

def setTpduState (e : Emu) (newTs : TpduState) : Emu :=
  if e.ch.tpdu.state = newTs then e
  else
    let e := { e with ch.tpdu.state := newTs }
    match newTs with
    | .waitCla => (e.uartEnable .rx).uartUpdateWt 0
    | .waitIns => e.uartUpdateWt e.ch.waitingTime
    | .waitRx => (e.uartEnable .rx).uartUpdateWt e.ch.waitingTime
    | .waitPb => (e.uartEnable .tx).uartUpdateWt e.ch.waitingTime
    | .waitTx => (e.uartEnable .tx).uartUpdateWt e.ch.waitingTime
    | _ => e

def cardSetState (e : Emu) (newState : CardState) : Emu :=
  if e.ch.state = newState then e
  else
    let e := { e with ch.state := newState }
    match newState with
    | .waitPower | .waitClk | .waitRst => (e.uartEnable .off).uartUpdateWt 0
    | .waitAtr =>
      let e := { e with ch.fiIndex := 1, ch.fIndex := 1, ch.diIndex := 1, ch.dIndex := 1,
                        ch.wi := iso78163DefaultWi, ch.waitingTime := iso78163InitWtime }
      ((e.emuUpdateFidi).uartEnable .txTimerOnly).uartUpdateWt 2
    | .inAtr =>
      let e := { e with ch.wi := iso78163DefaultWi, ch.waitingTime := iso78163InitWtime }
      let e := e.uartUpdateWt e.ch.waitingTime
      let e := { e with ch.atr.idx := 0 }
      (e.uartEnable .tx).uartInterrupt
    | .waitTpdu => (e.setTpduState .waitCla).uartEnable .rx
    | .inPts | .inTpdu => e

@[simp] theorem emuUpdateFidi_ch (e : Emu) : e.emuUpdateFidi.ch = e.ch := by
  unfold emuUpdateFidi
  split
  · split <;> rfl
  · rfl

theorem setTpduState_ch (e : Emu) (ts : TpduState) :
    (e.setTpduState ts).ch = { e.ch with tpdu.state := ts } := by
  unfold setTpduState
  split
  · rename_i same
    subst same
    rfl
  · cases ts <;> rfl

theorem cardSetState_ch (e : Emu) (st : CardState) :
    ∃ fi f di d wi wt idx ts, (e.cardSetState st).ch =
      { e.ch with
        state := st, fiIndex := fi, fIndex := f, diIndex := di, dIndex := d, wi := wi,
        waitingTime := wt, atr.idx := idx, tpdu.state := ts } := by
  unfold cardSetState
  split
  · rename_i same
    subst same
    exact ⟨_, _, _, _, _, _, _, _, rfl⟩
  · cases st <;>
      simp only [uartUpdateWt_ch, uartEnable_ch, uartInterrupt_eq, emuUpdateFidi_ch,
        setTpduState_ch] <;>
      exact ⟨_, _, _, _, _, _, _, _, rfl⟩

theorem cardSetState_tpdu (e : Emu) (st : CardState) :
    (e.cardSetState st).ch.tpdu =
      if e.ch.state ≠ st ∧ st = .waitTpdu then { e.ch.tpdu with state := .waitCla }
      else e.ch.tpdu := by
  unfold cardSetState
  split
  · simp [*]
  · rename_i differs
    cases st <;> simp [differs, setTpduState_ch]

section setters
variable (e : Emu) (st : CardState)

@[simp] theorem cardSetState_state : (e.cardSetState st).ch.state = st := by
  obtain ⟨_, _, _, _, _, _, _, _, h⟩ := cardSetState_ch e st
  rw [h]

@[simp] theorem cardSetState_vccActive : (e.cardSetState st).ch.vccActive = e.ch.vccActive := by
  obtain ⟨_, _, _, _, _, _, _, _, h⟩ := cardSetState_ch e st
  rw [h]

@[simp] theorem cardSetState_inReset : (e.cardSetState st).ch.inReset = e.ch.inReset := by
  obtain ⟨_, _, _, _, _, _, _, _, h⟩ := cardSetState_ch e st
  rw [h]

@[simp] theorem cardSetState_clocked : (e.cardSetState st).ch.clocked = e.ch.clocked := by
  obtain ⟨_, _, _, _, _, _, _, _, h⟩ := cardSetState_ch e st
  rw [h]

@[simp] theorem cardSetState_uartRxMsg : (e.cardSetState st).ch.uartRxMsg = e.ch.uartRxMsg := by
  obtain ⟨_, _, _, _, _, _, _, _, h⟩ := cardSetState_ch e st
  rw [h]

@[simp] theorem cardSetState_uartTxMsg : (e.cardSetState st).ch.uartTxMsg = e.ch.uartTxMsg := by
  obtain ⟨_, _, _, _, _, _, _, _, h⟩ := cardSetState_ch e st
  rw [h]

@[simp] theorem cardSetState_uartTxQueue :
    (e.cardSetState st).ch.uartTxQueue = e.ch.uartTxQueue := by
  obtain ⟨_, _, _, _, _, _, _, _, h⟩ := cardSetState_ch e st
  rw [h]

@[simp] theorem cardSetState_pts : (e.cardSetState st).ch.pts = e.ch.pts := by
  obtain ⟨_, _, _, _, _, _, _, _, h⟩ := cardSetState_ch e st
  rw [h]

end setters

@[simp] theorem cardHandleReset_ch (e : Emu) :
    e.cardHandleReset.ch =
      { e.ch with uartRxMsg := none, uartTxMsg := none, uartTxQueue := [] } := by
  unfold cardHandleReset
  cases tx : e.ch.uartTxMsg <;> cases rx : e.ch.uartRxMsg <;> simp [tx, rx]

end Emu
end Simtrace2
