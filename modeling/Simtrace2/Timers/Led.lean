import Simtrace2.Timers.Timer

/-! The LEDs of `led.c`, each of which blinks by a timer of its own. -/
namespace Simtrace2

inductive Led where
  | red | green
deriving DecidableEq, Repr

inductive LedPattern where
  | alwaysOff | alwaysOn | blink3o5f | blink3o30f | blink3o1f3o30f | blink3o1f3o1f3o30f
  | blink2oF | blink200oF | blink600oF | custom | blink2fO | blink5o5f
deriving DecidableEq, Repr

/-- A state lasts `duration` ms, or for ever where that is 0. -/
structure BlinkState where
  duration : Nat
  on : Bool
deriving DecidableEq, Repr

/-- The table `patterns`; the custom pattern has no states. -/
def LedPattern.states : LedPattern → List BlinkState
  | .alwaysOff => [⟨0, false⟩]
  | .alwaysOn => [⟨0, true⟩]
  | .blink5o5f => [⟨500, true⟩, ⟨500, false⟩]
  | .blink3o5f => [⟨300, true⟩, ⟨500, false⟩]
  | .blink3o30f => [⟨300, true⟩, ⟨3000, false⟩]
  | .blink3o1f3o30f => [⟨300, true⟩, ⟨100, false⟩, ⟨300, true⟩, ⟨3000, false⟩]
  | .blink3o1f3o1f3o30f =>
    [⟨300, true⟩, ⟨100, false⟩, ⟨300, true⟩, ⟨100, false⟩, ⟨300, true⟩, ⟨3000, false⟩]
  | .blink2oF => [⟨200, true⟩, ⟨0, false⟩]
  | .blink200oF => [⟨20000, true⟩, ⟨0, false⟩]
  | .blink600oF => [⟨60000, true⟩, ⟨0, false⟩]
  | .blink2fO => [⟨200, false⟩, ⟨0, true⟩]
  | .custom => []

/-- `struct led_state`; no states stand for no pattern. -/
structure LedState where
  states : List BlinkState
  curState : Nat
  illuminated : Bool
deriving DecidableEq, Repr

namespace LedState

def curStateInc (ls : LedState) : LedState :=
  { ls with curState := (ls.curState + 1) % ls.states.length }

def applyBlinkstate (ls : LedState) (led : Led) (bs : BlinkState) : List (TimerCall Led) × LedState :=
  let us := bs.duration * 1000
  (if bs.duration ≠ 0 then [.schedule led (us / 1000000) (us % 1000000)] else [],
    { ls with illuminated := bs.on })

end LedState

def ledOff : Led → LedState := fun _ => ⟨[], 0, false⟩

/-- The state that `cur_state` points at is shown, if the pattern has one. -/
def showState (led : Led) (ls : LedState) (leds : Led → LedState) :
    List (TimerCall Led) × (Led → LedState) :=
  match ls.states[ls.curState]? with
  | some bs =>
    let (calls, ls) := ls.applyBlinkstate led bs
    (calls, Function.update leds led ls)
  | none => ([], Function.update leds led ls)

def blinkTmrCb (led : Led) (leds : Led → LedState) : List (TimerCall Led) × (Led → LedState) :=
  showState led (leds led).curStateInc leds

def ledBlink (led : Led) (blink : LedPattern) (leds : Led → LedState) :
    List (TimerCall Led) × (Led → LedState) :=
  let (calls, leds) := showState led ⟨blink.states, 0, false⟩ leds
  (.del led :: calls, leds)

end Simtrace2
