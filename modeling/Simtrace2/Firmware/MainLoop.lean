import Simtrace2.Lib.Run

/-! The main program of the card emulation firmware (`apps/cardem/main.c`), which initialises, runs and
leaves the mode that `simtrace_config` numbers. The interrupt of the USB device may change that variable
between any two of its reads. -/
namespace Simtrace2
open Lib

inductive MainMode where
  | sniff
  | ccid
  | phone
  | mitm
deriving DecidableEq, Repr

/-- What the firmware is built with. -/
structure Features where
  sniffer : Bool
  ccid : Bool
  cardem : Bool
  mitm : Bool
  ngffCardem : Bool

/-- The functions in the table, and `NVIC_SystemReset`. -/
inductive MainCall where
  | configure (mode : MainMode)
  | init (mode : MainMode)
  | exit (mode : MainMode)
  | run (mode : MainMode)
  | usart0Irq (mode : MainMode)
  | usart1Irq (mode : MainMode)
  | systemReset
deriving DecidableEq, Repr

/-- `conf_func`, with nothing for a null pointer. -/
structure ConfFunc where
  configure : Option MainCall := none
  init : Option MainCall := none
  exit : Option MainCall := none
  run : Option MainCall := none
  usart0Irq : Option MainCall := none
  usart1Irq : Option MainCall := none
deriving DecidableEq, Repr

namespace Features
variable (b : Features)

/-- `enum confNum`: the modes that are built in have the numbers from one on. -/
def modes : List MainMode :=
  (if b.sniffer then [.sniff] else []) ++ (if b.ccid then [.ccid] else []) ++
    (if b.cardem then [.phone] else []) ++ (if b.mitm then [.mitm] else [])

def confNum (mode : MainMode) : Nat := b.modes.idxOf mode + 1

def confFunc (mode : MainMode) : ConfFunc :=
  let f : ConfFunc :=
    { configure := some (.configure mode), init := some (.init mode), exit := some (.exit mode),
      run := some (.run mode) }
  match mode with
  | .sniff => { f with usart0Irq := some (.usart0Irq mode), usart1Irq := some (.usart1Irq mode) }
  | .phone =>
    if b.ngffCardem then
      { f with usart0Irq := some (.usart1Irq mode), usart1Irq := some (.usart0Irq mode) }
    else { f with usart0Irq := some (.usart0Irq mode), usart1Irq := some (.usart1Irq mode) }
  | .ccid | .mitm => f

/-- The slot 0 of the array is empty. -/
def configFuncPtrs : List ConfFunc := {} :: b.modes.map b.confFunc

/-- The value that `simtrace_config` starts with; without these modes nothing is compiled. -/
def simtraceConfig : Nat :=
  if b.sniffer then b.confNum .sniff
  else if b.cardem then b.confNum .phone
  else if b.ccid then b.confNum .ccid
  else 0

/-- The mode behind a number. -/
def modeOf : Nat → Option MainMode
  | 0 => none
  | n + 1 => b.modes[n]?

theorem length_configFuncPtrs : b.configFuncPtrs.length = b.modes.length + 1 := by
  simp [configFuncPtrs]

theorem configFuncPtrs_get {n : Nat} (inside : n < b.configFuncPtrs.length) :
    b.configFuncPtrs[n]? = some ((b.modeOf n).elim {} b.confFunc) := by
  cases n with
  | zero => rfl
  | succ n =>
    rw [length_configFuncPtrs] at inside
    have mode : b.modes[n]? = some b.modes[n] := List.getElem?_eq_getElem (by omega)
    simp [configFuncPtrs, modeOf, mode]

theorem confNum_inside {mode : MainMode} (built : mode ∈ b.modes) :
    b.confNum mode < b.configFuncPtrs.length := by
  rw [length_configFuncPtrs]
  exact Nat.succ_lt_succ (List.idxOf_lt_length_of_mem built)

theorem simtraceConfig_inside : b.simtraceConfig < b.configFuncPtrs.length := by
  unfold simtraceConfig
  split_ifs with sniffer cardem ccid
  · exact b.confNum_inside (by simp [modes, sniffer])
  · exact b.confNum_inside (by simp [modes, cardem])
  · exact b.confNum_inside (by simp [modes, ccid])
  · rw [length_configFuncPtrs]
    exact Nat.succ_pos _

theorem nodup_modes : b.modes.Nodup := by
  obtain ⟨sniffer, ccid, cardem, mitm, _⟩ := b
  cases sniffer <;> cases ccid <;> cases cardem <;> cases mitm <;> decide +revert

theorem length_modes_le : b.modes.length ≤ 4 := by
  obtain ⟨sniffer, ccid, cardem, mitm, _⟩ := b
  cases sniffer <;> cases ccid <;> cases cardem <;> cases mitm <;> decide +revert

theorem modeOf_eq_none {n : Nat} (inside : n < b.configFuncPtrs.length) :
    b.modeOf n = none ↔ n = 0 := by
  cases n with
  | zero => simp [modeOf]
  | succ n =>
    rw [length_configFuncPtrs] at inside
    simp only [modeOf, List.getElem?_eq_none_iff]
    omega

variable {b} {mode : MainMode}

theorem modeOf_injective {m n : Nat} (first : b.modeOf m = some mode)
    (second : b.modeOf n = some mode) : m = n := by
  cases m with
  | zero => cases first
  | succ m =>
    cases n with
    | zero => cases second
    | succ n =>
      obtain ⟨inside, -⟩ := List.getElem?_eq_some_iff.mp first
      exact congrArg (· + 1)
        ((List.getElem?_inj inside b.nodup_modes).mp (first.trans second.symm))

@[simp] theorem confFunc_configure : (b.confFunc mode).configure = some (.configure mode) := by
  cases mode <;> simp only [confFunc]
  split <;> rfl

@[simp] theorem confFunc_init : (b.confFunc mode).init = some (.init mode) := by
  cases mode <;> simp only [confFunc]
  split <;> rfl

@[simp] theorem confFunc_exit : (b.confFunc mode).exit = some (.exit mode) := by
  cases mode <;> simp only [confFunc]
  split <;> rfl

@[simp] theorem confFunc_run : (b.confFunc mode).run = some (.run mode) := by
  cases mode <;> simp only [confFunc]
  split <;> rfl

theorem usart0_handler {c : MainCall} (handler : c ∈ (b.confFunc mode).usart0Irq) :
    c = .usart0Irq mode ∨ c = .usart1Irq mode := by
  cases mode <;> simp only [confFunc] at handler
  · simp_all
  · cases handler
  · split at handler <;> simp_all
  · cases handler

theorem usart1_handler {c : MainCall} (handler : c ∈ (b.confFunc mode).usart1Irq) :
    c = .usart0Irq mode ∨ c = .usart1Irq mode := by
  cases mode <;> simp only [confFunc] at handler
  · simp_all
  · cases handler
  · split at handler <;> simp_all
  · cases handler

end Features

/-- The next read of `simtrace_config` or of the state of the USB device. -/
inductive MainPlace where
  | usbWait
  | configure
  | initTest
  | initCall
  | latch
  | top
  | compare
  | runTest
  | runCall
  /-- Behind a call through a null pointer or from outside of the table. -/
  | fault
deriving DecidableEq, Repr

structure MainLoop where
  place : MainPlace
  config : Nat
  last : Nat
deriving DecidableEq, Repr

/-- The main program goes on to the next read, where `USBD_GetState` may find the device configured, or
an interrupt comes. -/
inductive MainInput where
  | goOn (configured : Bool)
  | configurationChanged (cfgnum : UInt8)
  | usart0
  | usart1
deriving DecidableEq, Repr

namespace MainLoop
variable (b : Features)

def start : MainLoop := ⟨.usbWait, b.simtraceConfig, b.simtraceConfig⟩

/-- `if (config_func_ptrs[simtrace_config].f)` -/
def test (f : ConfFunc → Option MainCall) (yes no : MainPlace) (s : MainLoop) :
    MainLoop × List MainCall :=
  match b.configFuncPtrs[s.config]? with
  | none => ({ s with place := .fault }, [])
  | some conf => ({ s with place := if (f conf).isSome then yes else no }, [])

/-- `config_func_ptrs[simtrace_config].f()` -/
def call (f : ConfFunc → Option MainCall) (next : MainPlace) (s : MainLoop) :
    MainLoop × List MainCall :=
  match b.configFuncPtrs[s.config]?.bind f with
  | none => ({ s with place := .fault }, [])
  | some c => ({ s with place := next }, [c])

/-- A test and a call at once. -/
def callIf (n : Nat) (f : ConfFunc → Option MainCall) (next : MainPlace) (s : MainLoop) :
    MainLoop × List MainCall :=
  match b.configFuncPtrs[n]? with
  | none => ({ s with place := .fault }, [])
  | some conf => ({ s with place := next }, (f conf).toList)

def goOn (configured : Bool) (s : MainLoop) : MainLoop × List MainCall :=
  match s.place with
  | .usbWait => ({ s with place := if configured then .configure else .usbWait }, [])
  | .configure =>
    ({ s with place := .initTest }, b.configFuncPtrs.tail.filterMap ConfFunc.configure)
  | .initTest => s.test b ConfFunc.init .initCall .latch
  | .initCall => s.call b ConfFunc.init .latch
  | .latch => ({ s with last := s.config, place := .top }, [])
  | .top => if configured then ({ s with place := .compare }, []) else (start b, [.systemReset])
  | .compare =>
    -- `last_simtrace_config` is a local variable, so nothing comes between this test and its call
    if s.last ≠ s.config then s.callIf b s.last ConfFunc.exit .initTest
    else ({ s with place := .runTest }, [])
  | .runTest => s.test b ConfFunc.run .runCall .top
  | .runCall => s.call b ConfFunc.run .top
  | .fault => (s, [])

/-- `USBDDriverCallbacks_ConfigurationChanged` -/
def configurationChanged (cfgnum : UInt8) (s : MainLoop) : MainLoop :=
  if cfgnum.toNat < b.configFuncPtrs.length then { s with config := cfgnum.toNat } else s

/-- What becomes of the main program, and what is called. -/
def react (s : MainLoop) : MainInput → MainLoop × List MainCall
  | .goOn configured => s.goOn b configured
  | .configurationChanged cfgnum => (s.configurationChanged b cfgnum, [])
  -- the interrupt of the USB device has a lower priority, and waits for the handler
  | .usart0 => s.callIf b s.config ConfFunc.usart0Irq s.place
  | .usart1 => s.callIf b s.config ConfFunc.usart1Irq s.place

def step (s : MainLoop) (i : MainInput) : MainLoop := (s.react b i).1

def calls (s : MainLoop) (i : MainInput) : List MainCall := (s.react b i).2

/-- The mode that `simtrace_config` numbers has been initialised, and the loop knows it. -/
def Initialised (s : MainLoop) : Prop :=
  match s.place with
  | .latch => True
  | .top | .compare | .runTest | .runCall => s.config = s.last
  | _ => False

/-- What the number of the mode may become without harm: it stays between the call of `init` and the
assignment behind it and where `run` is called, and has a mode where the pointer has been tested. -/
def Leaves (s : MainLoop) (config : Nat) : Prop :=
  match s.place with
  | .initCall => b.modeOf config ≠ none
  | .latch => config = s.config
  | .runTest => config = s.last ∨ b.modeOf config = none
  | .runCall => config = s.last
  | _ => True

/-- No change of the configuration where its number is read again, and no call of a handler for a mode
that has not been initialised. -/
def Calm (s : MainLoop) (i : MainInput) : Prop :=
  match i with
  | .goOn _ => True
  | .configurationChanged cfgnum => s.Leaves b (s.configurationChanged b cfgnum).config
  | .usart0 | .usart1 => s.calls b i = [] ∨ s.Initialised

end MainLoop

/-- What the calls are to be like: a mode is initialised when there is none, and is run and left, and
gets its interrupts, from then on. Without a result they are not in order. -/
def MainCall.next (active : Option MainMode) : MainCall → Option (Option MainMode)
  | .configure _ => if active = none then some none else none
  | .init mode => if active = none then some (some mode) else none
  | .exit mode => if active = some mode then some none else none
  | .run mode | .usart0Irq mode | .usart1Irq mode =>
    if active = some mode then some active else none
  | .systemReset => some none

namespace MainLoop
variable {b : Features} {s : MainLoop} {active : Option MainMode}

structure Inside (b : Features) (s : MainLoop) : Prop where
  config : s.config < b.configFuncPtrs.length
  last : s.last < b.configFuncPtrs.length

theorem inside_start : Inside b (start b) := ⟨b.simtraceConfig_inside, b.simtraceConfig_inside⟩

theorem Inside.of_same {s' : MainLoop} (h : Inside b s) (config : s'.config = s.config)
    (last : s'.last = s.last) : Inside b s' :=
  ⟨config ▸ h.config, last ▸ h.last⟩

/-- What the main program relies on. -/
structure Held (b : Features) (s : MainLoop) (active : Option MainMode) : Prop extends Inside b s where
  place : match s.place with
    | .usbWait | .configure | .initTest => active = none
    | .initCall => active = none ∧ b.modeOf s.config ≠ none
    | .latch => active = b.modeOf s.config
    | .top | .compare => active = b.modeOf s.last
    | .runTest => active = b.modeOf s.last ∧ (s.config = s.last ∨ b.modeOf s.config = none)
    | .runCall => active = b.modeOf s.last ∧ s.config = s.last ∧ b.modeOf s.config ≠ none
    | .fault => False

theorem held_start : Held b (start b) none := ⟨inside_start, rfl⟩

theorem test_none {f : ConfFunc → Option MainCall} (yes no : MainPlace)
    (inside : s.config < b.configFuncPtrs.length) (numbered : b.modeOf s.config = none)
    (empty : f {} = none) : s.test b f yes no = ({ s with place := no }, []) := by
  rw [test, b.configFuncPtrs_get inside, numbered]
  simp [empty]

theorem test_some {f : ConfFunc → Option MainCall} {mode : MainMode} {c : MainCall}
    (yes no : MainPlace) (inside : s.config < b.configFuncPtrs.length)
    (numbered : b.modeOf s.config = some mode) (there : f (b.confFunc mode) = some c) :
    s.test b f yes no = ({ s with place := yes }, []) := by
  rw [test, b.configFuncPtrs_get inside, numbered]
  simp [there]

theorem call_eq {f : ConfFunc → Option MainCall} {mode : MainMode} {c : MainCall} (next : MainPlace)
    (inside : s.config < b.configFuncPtrs.length) (numbered : b.modeOf s.config = some mode)
    (there : f (b.confFunc mode) = some c) : s.call b f next = ({ s with place := next }, [c]) := by
  rw [call, b.configFuncPtrs_get inside, numbered]
  simp [there]

theorem callIf_eq {n : Nat} (f : ConfFunc → Option MainCall) (next : MainPlace)
    (inside : n < b.configFuncPtrs.length) :
    s.callIf b n f next =
      ({ s with place := next }, (f ((b.modeOf n).elim {} b.confFunc)).toList) := by
  rw [callIf, b.configFuncPtrs_get inside]

section moves
variable {configured : Bool} {config last : Nat} {mode : MainMode}

theorem goOn_initTest (inside : config < b.configFuncPtrs.length)
    (numbered : b.modeOf config = some mode) :
    MainLoop.goOn b configured ⟨.initTest, config, last⟩ = (⟨.initCall, config, last⟩, []) :=
  test_some _ _ inside numbered Features.confFunc_init

theorem goOn_initCall (inside : config < b.configFuncPtrs.length)
    (numbered : b.modeOf config = some mode) :
    MainLoop.goOn b configured ⟨.initCall, config, last⟩ = (⟨.latch, config, last⟩, [.init mode]) :=
  call_eq _ inside numbered Features.confFunc_init

theorem goOn_runTest (inside : config < b.configFuncPtrs.length)
    (numbered : b.modeOf config = some mode) :
    MainLoop.goOn b configured ⟨.runTest, config, last⟩ = (⟨.runCall, config, last⟩, []) :=
  test_some _ _ inside numbered Features.confFunc_run

theorem goOn_runCall (inside : config < b.configFuncPtrs.length)
    (numbered : b.modeOf config = some mode) :
    MainLoop.goOn b configured ⟨.runCall, config, last⟩ = (⟨.top, config, last⟩, [.run mode]) :=
  call_eq _ inside numbered Features.confFunc_run

theorem goOn_same :
    MainLoop.goOn b configured ⟨.compare, config, config⟩ = (⟨.runTest, config, config⟩, []) :=
  if_neg (not_not_intro rfl)

theorem goOn_changed (inside : last < b.configFuncPtrs.length) (ne : last ≠ config) :
    MainLoop.goOn b configured ⟨.compare, config, last⟩ =
      (⟨.initTest, config, last⟩, (((b.modeOf last).elim {} b.confFunc).exit).toList) :=
  (if_pos ne).trans (callIf_eq _ _ inside)

end moves

theorem configures_quiet (confs : List MainMode) :
    ((confs.map b.confFunc).filterMap ConfFunc.configure).foldlM MainCall.next none = some none := by
  induction confs with
  | nil => rfl
  | cons mode confs ih => simpa [MainCall.next] using ih

theorem Held.goOn (h : Held b s active) (configured : Bool) :
    ∃ active', (s.goOn b configured).2.foldlM MainCall.next active = some active' ∧
      Held b (s.goOn b configured).1 active' := by
  obtain ⟨place, config, last⟩ := s
  obtain ⟨⟨inConfig, inLast⟩, held⟩ := h
  simp only at inConfig inLast held
  cases place with
  | usbWait =>
    refine ⟨active, rfl, ⟨inConfig, inLast⟩, ?_⟩
    cases configured <;> exact held
  | configure =>
    subst held
    exact ⟨none, configures_quiet b.modes, ⟨inConfig, inLast⟩, rfl⟩
  | initTest =>
    subst held
    cases numbered : b.modeOf config with
    | none =>
      have moved : MainLoop.goOn b configured ⟨.initTest, config, last⟩ =
          (⟨.latch, config, last⟩, []) := test_none _ _ inConfig numbered rfl
      rw [moved]
      exact ⟨none, rfl, ⟨inConfig, inLast⟩, numbered.symm⟩
    | some mode =>
      rw [goOn_initTest inConfig numbered]
      exact ⟨none, rfl, ⟨inConfig, inLast⟩, rfl, by simp [numbered]⟩
  | initCall =>
    obtain ⟨rfl, there⟩ := held
    obtain ⟨mode, numbered⟩ := Option.ne_none_iff_exists'.mp there
    rw [goOn_initCall inConfig numbered]
    exact ⟨some mode, rfl, ⟨inConfig, inLast⟩, numbered.symm⟩
  | latch => exact ⟨active, rfl, ⟨inConfig, inConfig⟩, held⟩
  | top =>
    cases configured with
    | false => exact ⟨none, rfl, held_start⟩
    | true => exact ⟨active, rfl, ⟨inConfig, inLast⟩, held⟩
  | compare =>
    by_cases same : last = config
    · subst same
      rw [goOn_same]
      exact ⟨active, rfl, ⟨inConfig, inLast⟩, held, Or.inl rfl⟩
    · rw [goOn_changed inLast same]
      refine ⟨none, ?_, ⟨inConfig, inLast⟩, rfl⟩
      cases numbered : b.modeOf last with
      | none =>
        rw [held, numbered]
        rfl
      | some mode => simp [held, numbered, MainCall.next]
  | runTest =>
    obtain ⟨active_eq, same⟩ := held
    cases numbered : b.modeOf config with
    | none =>
      have moved : MainLoop.goOn b configured ⟨.runTest, config, last⟩ = (⟨.top, config, last⟩, []) :=
        test_none _ _ inConfig numbered rfl
      rw [moved]
      exact ⟨active, rfl, ⟨inConfig, inLast⟩, active_eq⟩
    | some mode =>
      rw [goOn_runTest inConfig numbered]
      have there : b.modeOf config ≠ none := by simp [numbered]
      exact ⟨active, rfl, ⟨inConfig, inLast⟩, active_eq, same.resolve_right there, there⟩
  | runCall =>
    obtain ⟨rfl, rfl, there⟩ := held
    obtain ⟨mode, numbered⟩ := Option.ne_none_iff_exists'.mp there
    rw [goOn_runCall inConfig numbered]
    refine ⟨b.modeOf config, ?_, ⟨inConfig, inLast⟩, rfl⟩
    simp [MainCall.next, numbered]
  | fault => exact held.elim

theorem configurationChanged_inside (cfgnum : UInt8) (inside : s.config < b.configFuncPtrs.length) :
    (s.configurationChanged b cfgnum).config < b.configFuncPtrs.length := by
  unfold configurationChanged
  split
  · assumption
  · exact inside

theorem configurationChanged_eq (cfgnum : UInt8) :
    s.configurationChanged b cfgnum =
      { s with config := (s.configurationChanged b cfgnum).config } := by
  unfold configurationChanged
  split <;> rfl

theorem Held.configurationChanged (h : Held b s active) {cfgnum : UInt8}
    (calm : s.Calm b (.configurationChanged cfgnum)) :
    Held b (s.configurationChanged b cfgnum) active := by
  obtain ⟨place, config, last⟩ := s
  have inside := configurationChanged_inside cfgnum h.config
  obtain ⟨⟨-, inLast⟩, held⟩ := h
  rw [configurationChanged_eq]
  refine ⟨⟨inside, inLast⟩, ?_⟩
  cases place with
  | usbWait | configure | initTest | top | compare | fault => exact held
  | initCall => exact ⟨held.1, calm⟩
  | latch => exact held.trans (congrArg b.modeOf calm.symm)
  | runTest => exact ⟨held.1, calm⟩
  | runCall =>
    obtain ⟨active_eq, same, there⟩ := held
    have kept : (MainLoop.configurationChanged b cfgnum ⟨.runCall, config, last⟩).config = config :=
      Eq.trans calm same.symm
    rw [kept]
    exact ⟨active_eq, same, there⟩

theorem Held.active_eq (h : Held b s active) (ready : s.Initialised) :
    active = b.modeOf s.config := by
  obtain ⟨place, config, last⟩ := s
  obtain ⟨-, held⟩ := h
  cases place with
  | latch => exact held
  | top | compare =>
    obtain rfl : config = last := ready
    exact held
  | runTest | runCall =>
    obtain rfl : config = last := ready
    exact held.1
  | usbWait | configure | initTest | initCall | fault => exact ready.elim

theorem Held.ne_active (h : Held b s active) (unready : ¬ s.Initialised) {mode : MainMode}
    (numbered : b.modeOf s.config = some mode) : active ≠ some mode := by
  rintro rfl
  obtain ⟨place, config, last⟩ := s
  obtain ⟨-, held⟩ := h
  cases place with
  | usbWait | configure | initTest => cases held
  | initCall => cases held.1
  | latch => exact unready trivial
  | top | compare => exact unready (Features.modeOf_injective numbered held.symm)
  | runTest | runCall => exact unready (Features.modeOf_injective numbered held.1.symm)
  | fault => exact held

/-- The interrupt of a USART, whichever handler it has. -/
theorem Held.usart (h : Held b s active) {f : ConfFunc → Option MainCall} (empty : f {} = none)
    (handler : ∀ mode, ∀ c ∈ f (b.confFunc mode), c = .usart0Irq mode ∨ c = .usart1Irq mode)
    (calm : (s.callIf b s.config f s.place).2 = [] ∨ s.Initialised) :
    ∃ active', (s.callIf b s.config f s.place).2.foldlM MainCall.next active = some active' ∧
      Held b (s.callIf b s.config f s.place).1 active' := by
  rw [callIf_eq _ _ h.config] at calm ⊢
  refine ⟨active, ?_, h⟩
  rcases calm with quiet | ready
  · simp only at quiet
    rw [quiet]
    rfl
  cases numbered : b.modeOf s.config with
  | none => simp [empty]
  | some mode =>
    have same := (h.active_eq ready).trans numbered
    cases called : f (b.confFunc mode) with
    | none => simp [called]
    | some c =>
      rcases handler mode c called with rfl | rfl
      · simp [called, MainCall.next, same]
      · simp [called, MainCall.next, same]

theorem Held.step (h : Held b s active) {i : MainInput} (calm : s.Calm b i) :
    ∃ active', (s.calls b i).foldlM MainCall.next active = some active' ∧
      Held b (s.step b i) active' := by
  cases i with
  | goOn configured => exact h.goOn configured
  | configurationChanged cfgnum => exact ⟨active, rfl, h.configurationChanged calm⟩
  | usart0 => exact h.usart rfl (fun _ _ => Features.usart0_handler) calm
  | usart1 => exact h.usart rfl (fun _ _ => Features.usart1_handler) calm

theorem Held.run (h : Held b s active) {inputs : List MainInput}
    (calm : Meets (MainLoop.step b) (Calm b) s inputs) :
    ∃ active', (trace (MainLoop.step b) (MainLoop.calls b) s inputs).foldlM MainCall.next active =
        some active' ∧ Held b (Lib.run (MainLoop.step b) s inputs) active' := by
  induction inputs generalizing s active with
  | nil => exact ⟨active, rfl, h⟩
  | cons i inputs ih =>
    obtain ⟨between, first, held⟩ := h.step calm.1
    obtain ⟨active', rest, held'⟩ := ih held calm.2
    refine ⟨active', ?_, held'⟩
    rw [trace, List.foldlM_append, first]
    exact rest

/-- The calls from there on are in order, and none of them goes through a null pointer. -/
def InOrder (b : Features) (s : MainLoop) (active : Option MainMode) (inputs : List MainInput) :
    Prop :=
  (trace (MainLoop.step b) (MainLoop.calls b) s inputs).foldlM MainCall.next active ≠ none ∧
    (Lib.run (MainLoop.step b) s inputs).place ≠ .fault

theorem Held.inOrder (h : Held b s active) {inputs : List MainInput}
    (calm : Meets (MainLoop.step b) (Calm b) s inputs) : InOrder b s active inputs := by
  obtain ⟨active', calls, held⟩ := h.run calm
  refine ⟨by simp [calls], fun fault => ?_⟩
  have := held.place
  rw [fault] at this
  exact this

theorem inOrder_cons {i : MainInput} {inputs : List MainInput} :
    InOrder b s active (i :: inputs) ↔
      ∃ between, (s.calls b i).foldlM MainCall.next active = some between ∧
        InOrder b (s.step b i) between inputs := by
  unfold InOrder
  rw [trace, List.foldlM_append, Lib.run]
  cases (s.calls b i).foldlM MainCall.next active with
  | none => simp
  | some between => simp

theorem change_back {config last : Nat} {place : MainPlace} {old : Nat}
    (inside : old < b.configFuncPtrs.length) :
    MainLoop.step b ⟨place, config, last⟩ (.configurationChanged (UInt8.ofNat old)) =
      ⟨place, old, last⟩ := by
  have small := b.length_modes_le
  have few : old < 256 := by
    rw [b.length_configFuncPtrs] at inside
    omega
  have same : (UInt8.ofNat old).toNat = old := by
    rw [UInt8.toNat_ofNat']
    exact Nat.mod_eq_of_lt few
  simp [MainLoop.step, react, configurationChanged, same, inside]

section disorder
variable {s' : MainLoop} {inputs : List MainInput} {config last : Nat} {mode : MainMode}

theorem inOrder_goOn {cs : List MainCall} (moved : s.goOn b true = (s', cs)) :
    InOrder b s active (.goOn true :: inputs) ↔
      ∃ between, cs.foldlM MainCall.next active = some between ∧ InOrder b s' between inputs := by
  have put : s.calls b (.goOn true) = cs := congrArg Prod.snd moved
  have next : s.step b (.goOn true) = s' := congrArg Prod.fst moved
  rw [inOrder_cons, put, next]

theorem inOrder_quiet (moved : s.goOn b true = (s', [])) :
    InOrder b s active (.goOn true :: inputs) ↔ InOrder b s' active inputs := by
  rw [inOrder_goOn moved]
  simp

theorem run_disorder (inside : config < b.configFuncPtrs.length)
    (numbered : b.modeOf config = some mode) (ne : active ≠ some mode) :
    ¬ InOrder b ⟨.runCall, config, last⟩ active [.goOn true] := by
  rw [inOrder_goOn (goOn_runCall inside numbered)]
  simp [MainCall.next, ne]

theorem runTest_disorder (inside : config < b.configFuncPtrs.length)
    (numbered : b.modeOf config = some mode) (ne : active ≠ some mode) :
    ¬ InOrder b ⟨.runTest, config, last⟩ active [.goOn true, .goOn true] := by
  rw [inOrder_quiet (goOn_runTest inside numbered)]
  exact run_disorder inside numbered ne

/-- The mode that `init` has not been called for is run. -/
theorem latch_disorder (inside : config < b.configFuncPtrs.length)
    (numbered : b.modeOf config = some mode) (ne : active ≠ some mode) :
    ¬ InOrder b ⟨.latch, config, last⟩ active
      [.goOn true, .goOn true, .goOn true, .goOn true, .goOn true] := by
  have latched : MainLoop.goOn b true ⟨.latch, config, last⟩ = (⟨.top, config, config⟩, []) := rfl
  have asked : MainLoop.goOn b true ⟨.top, config, config⟩ = (⟨.compare, config, config⟩, []) := rfl
  rw [inOrder_quiet latched, inOrder_quiet asked, inOrder_quiet goOn_same]
  exact runTest_disorder inside numbered ne

/-- A call through the null pointer of the slot 0. -/
theorem null_disorder {place next : MainPlace} {f : ConfFunc → Option MainCall}
    (calls : MainLoop.goOn b true ⟨place, config, last⟩ = call b f next ⟨place, config, last⟩)
    (inside : config < b.configFuncPtrs.length) (numbered : b.modeOf config = none)
    (empty : f {} = none) : ¬ InOrder b ⟨place, config, last⟩ active [.goOn true] := by
  have moved : MainLoop.goOn b true ⟨place, config, last⟩ = (⟨.fault, config, last⟩, []) := by
    rw [calls, call, b.configFuncPtrs_get inside, numbered]
    simp [empty]
  rw [inOrder_quiet moved]
  exact fun order => order.2 rfl

/-- The mode is initialised once more, when the main program has taken it for the slot 0. -/
theorem twice_disorder {empty : Nat} (insideEmpty : empty < b.configFuncPtrs.length)
    (none' : b.modeOf empty = none) (inside : config < b.configFuncPtrs.length)
    (numbered : b.modeOf config = some mode) :
    ¬ InOrder b ⟨.top, config, empty⟩ (some mode)
      [.goOn true, .goOn true, .goOn true, .goOn true] := by
  have ne : empty ≠ config := fun same => by
    rw [same, numbered] at none'
    cases none'
  have asked : MainLoop.goOn b true ⟨.top, config, empty⟩ = (⟨.compare, config, empty⟩, []) := rfl
  have compared : MainLoop.goOn b true ⟨.compare, config, empty⟩ =
      (⟨.initTest, config, empty⟩, []) := by
    rw [goOn_changed insideEmpty ne, none']
    rfl
  rw [inOrder_quiet asked, inOrder_quiet compared, inOrder_quiet (goOn_initTest inside numbered),
    inOrder_goOn (goOn_initCall inside numbered)]
  simp [MainCall.next]

end disorder

theorem Held.usart_disorder (h : Held b s active) {f : ConfFunc → Option MainCall}
    (empty : f {} = none)
    (handler : ∀ mode, ∀ c ∈ f (b.confFunc mode), c = .usart0Irq mode ∨ c = .usart1Irq mode)
    (uncalm : ¬ ((s.callIf b s.config f s.place).2 = [] ∨ s.Initialised)) :
    (s.callIf b s.config f s.place).2.foldlM MainCall.next active = none := by
  obtain ⟨called, unready⟩ := not_or.mp uncalm
  rw [callIf_eq _ _ h.config] at called ⊢
  cases numbered : b.modeOf s.config with
  | none => simp [numbered, empty] at called
  | some mode =>
    have ne := h.ne_active unready numbered
    cases there : f (b.confFunc mode) with
    | none => simp [numbered, there] at called
    | some c =>
      rcases handler mode c there with rfl | rfl
      · simp [there, MainCall.next, ne]
      · simp [there, MainCall.next, ne]

/-- What a change of the configuration does where it is not to come. -/
theorem Held.changed_disorder (h : Held b s active) {config : Nat}
    (inside : config < b.configFuncPtrs.length) (harm : ¬ s.Leaves b config) :
    ∃ later, Meets (MainLoop.step b) (Calm b) { s with config } later ∧
      ¬ InOrder b { s with config } active later := by
  obtain ⟨place, old, last⟩ := s
  obtain ⟨⟨inOld, -⟩, held⟩ := h
  cases place with
  | usbWait | configure | initTest | top | compare | fault => exact absurd trivial harm
  | initCall => exact ⟨[.goOn true], ⟨trivial, trivial⟩, null_disorder rfl inside (not_not.mp harm) rfl⟩
  | latch =>
    cases numbered : b.modeOf config with
    | some mode =>
      refine ⟨[.goOn true, .goOn true, .goOn true, .goOn true, .goOn true],
        ⟨trivial, trivial, trivial, trivial, trivial, trivial⟩, latch_disorder inside numbered
          fun same => ?_⟩
      exact harm (Features.modeOf_injective numbered (held.symm.trans same))
    | none =>
      -- the slot 0 has nothing to run, but its exit leaves the mode as it is
      have there : b.modeOf old ≠ none := fun gone => harm
        (((b.modeOf_eq_none inside).mp numbered).trans ((b.modeOf_eq_none inOld).mp gone).symm)
      obtain ⟨mode, oldMode⟩ := Option.ne_none_iff_exists'.mp there
      have back : MainLoop.step b ⟨.top, config, config⟩ (.configurationChanged (UInt8.ofNat old)) =
          ⟨.top, old, config⟩ := change_back inOld
      have latched : MainLoop.goOn b true ⟨.latch, config, last⟩ = (⟨.top, config, config⟩, []) := rfl
      refine ⟨[.goOn true, .configurationChanged (UInt8.ofNat old), .goOn true, .goOn true, .goOn true,
        .goOn true], ⟨trivial, trivial, trivial, trivial, trivial, trivial, trivial⟩, fun order => ?_⟩
      rw [inOrder_quiet latched, inOrder_cons, back, held, oldMode] at order
      obtain ⟨_, called, order⟩ := order
      cases called
      exact twice_disorder inside numbered inOld oldMode order
  | runTest =>
    obtain ⟨differs, there⟩ := not_or.mp harm
    obtain ⟨mode, numbered⟩ := Option.ne_none_iff_exists'.mp there
    refine ⟨[.goOn true, .goOn true], ⟨trivial, trivial, trivial⟩,
      runTest_disorder inside numbered fun same => ?_⟩
    exact differs (Features.modeOf_injective numbered (held.1.symm.trans same))
  | runCall =>
    cases numbered : b.modeOf config with
    | none => exact ⟨[.goOn true], ⟨trivial, trivial⟩, null_disorder rfl inside numbered rfl⟩
    | some mode =>
      refine ⟨[.goOn true], ⟨trivial, trivial⟩, run_disorder inside numbered fun same => ?_⟩
      exact harm (Features.modeOf_injective numbered (held.1.symm.trans same))

/-- What an interrupt that is not calm does shows when the main program goes on. -/
theorem Held.disorder (h : Held b s active) {i : MainInput} (uncalm : ¬ s.Calm b i) :
    ∃ later, Meets (MainLoop.step b) (Calm b) (s.step b i) later ∧
      ¬ InOrder b s active (i :: later) := by
  cases i with
  | goOn configured => exact absurd trivial uncalm
  | usart0 =>
    have put := h.usart_disorder rfl (fun _ _ => Features.usart0_handler) uncalm
    refine ⟨[], trivial, fun order => ?_⟩
    obtain ⟨_, called, -⟩ := inOrder_cons.mp order
    cases put.symm.trans called
  | usart1 =>
    have put := h.usart_disorder rfl (fun _ _ => Features.usart1_handler) uncalm
    refine ⟨[], trivial, fun order => ?_⟩
    obtain ⟨_, called, -⟩ := inOrder_cons.mp order
    cases put.symm.trans called
  | configurationChanged cfgnum =>
    obtain ⟨later, quiet, broken⟩ :=
      h.changed_disorder (configurationChanged_inside cfgnum h.config) uncalm
    rw [← configurationChanged_eq] at quiet broken
    refine ⟨later, quiet, fun order => ?_⟩
    obtain ⟨_, called, order⟩ := inOrder_cons.mp order
    cases called
    exact broken order

theorem Held.calm_iff (h : Held b s active) {inputs : List MainInput} :
    Meets (MainLoop.step b) (Calm b) s inputs ↔
      ∀ p, p <+: inputs → ∀ later,
        Meets (MainLoop.step b) (Calm b) (Lib.run (MainLoop.step b) s p) later →
          InOrder b s active (p ++ later) := by
  constructor
  · intro calm p hp later quiet
    exact h.inOrder ((meets_append s p later).mpr ⟨calm.of_prefix hp, quiet⟩)
  · intro order
    induction inputs generalizing s active with
    | nil => trivial
    | cons i inputs ih =>
      have calm : s.Calm b i := by
        by_contra uncalm
        obtain ⟨later, quiet, broken⟩ := h.disorder uncalm
        exact broken (order [i] (List.prefix_append [i] inputs) later quiet)
      obtain ⟨between, first, held⟩ := h.step calm
      refine ⟨calm, ih held fun p hp later quiet => ?_⟩
      obtain ⟨between', first', rest⟩ :=
        inOrder_cons.mp (order (i :: p) (List.cons_prefix_cons.mpr ⟨rfl, hp⟩) later quiet)
      obtain rfl : between = between' := Option.some.inj (first.symm.trans first')
      exact rest

/-- The modes are initialised, run and left in order, and nothing is called through a null pointer,
exactly when the interrupts leave alone what the main program reads again: what an interrupt has
changed there breaks the order in a run that is calm from then on. -/
theorem main_calls_iff (b : Features) (inputs : List MainInput) :
    Meets (MainLoop.step b) (Calm b) (start b) inputs ↔
      ∀ p, p <+: inputs → ∀ later,
        Meets (MainLoop.step b) (Calm b) (Lib.run (MainLoop.step b) (start b) p) later →
          InOrder b (start b) none (p ++ later) :=
  held_start.calm_iff

/-! ### The mode that is run in the end -/

theorem Inside.goOn (h : Inside b s) (configured : Bool) : Inside b (s.goOn b configured).1 := by
  have tests (f : ConfFunc → Option MainCall) (yes no : MainPlace) :
      Inside b (s.test b f yes no).1 := by
    unfold test
    split <;> exact h.of_same rfl rfl
  have calls (f : ConfFunc → Option MainCall) (next : MainPlace) : Inside b (s.call b f next).1 := by
    unfold call
    split <;> exact h.of_same rfl rfl
  obtain ⟨place, config, last⟩ := s
  cases place with
  | usbWait | configure => exact h.of_same rfl rfl
  | initTest | runTest => exact tests ..
  | initCall | runCall => exact calls ..
  | latch => exact ⟨h.config, h.config⟩
  | top =>
    cases configured with
    | false => exact inside_start
    | true => exact h.of_same rfl rfl
  | compare =>
    by_cases same : last = config
    · subst same
      rw [goOn_same]
      exact h.of_same rfl rfl
    · rw [goOn_changed h.last same]
      exact h.of_same rfl rfl
  | fault => exact h

theorem Inside.step (h : Inside b s) (i : MainInput) : Inside b (s.step b i) := by
  cases i with
  | goOn configured => exact h.goOn configured
  | configurationChanged cfgnum =>
    have same : (s.configurationChanged b cfgnum).last = s.last := by rw [configurationChanged_eq]
    exact ⟨configurationChanged_inside cfgnum h.config, same ▸ h.last⟩
  | usart0 | usart1 =>
    simp only [MainLoop.step, react, callIf_eq _ _ h.config]
    exact h

/-- Within so many reads the loop begins anew with this configuration. -/
def Settles (b : Features) (s : MainLoop) (config k : Nat) : Prop :=
  ∃ n ≤ k, Lib.run (MainLoop.step b) s (List.replicate n (.goOn true)) = ⟨.top, config, config⟩

section settles
variable {s' : MainLoop} {config last k : Nat} {mode : MainMode} {cs : List MainCall}

theorem Settles.goOn (moved : s.goOn b true = (s', cs)) (rest : Settles b s' config k) :
    Settles b s config (k + 1) := by
  obtain ⟨n, few, settled⟩ := rest
  refine ⟨n + 1, Nat.succ_le_succ few, ?_⟩
  rw [List.replicate_succ, Lib.run, MainLoop.step, react, moved]
  exact settled

theorem Settles.mono {m : Nat} (settles : Settles b s config k) (le : k ≤ m) :
    Settles b s config m := by
  obtain ⟨n, few, settled⟩ := settles
  exact ⟨n, few.trans le, settled⟩

theorem trace_goOn {inputs : List MainInput} (moved : s.goOn b true = (s', cs)) :
    trace (MainLoop.step b) (MainLoop.calls b) s (.goOn true :: inputs) =
      cs ++ trace (MainLoop.step b) (MainLoop.calls b) s' inputs := by
  rw [trace, MainLoop.calls, MainLoop.step, react, moved]

variable (inside : config < b.configFuncPtrs.length) (numbered : b.modeOf config = some mode)
include inside numbered

theorem settles_initTest : Settles b ⟨.initTest, config, last⟩ config 3 :=
  .goOn (goOn_initTest inside numbered) (.goOn (goOn_initCall inside numbered)
    (.goOn rfl ⟨0, Nat.le_refl 0, rfl⟩))

theorem settles_top (insideLast : last < b.configFuncPtrs.length) :
    Settles b ⟨.top, config, last⟩ config 5 := by
  by_cases same : last = config
  · subst same
    exact ⟨0, Nat.zero_le 5, rfl⟩
  · exact .goOn rfl (.goOn (goOn_changed insideLast same) (settles_initTest inside numbered))

theorem settles_runCall (insideLast : last < b.configFuncPtrs.length) :
    Settles b ⟨.runCall, config, last⟩ config 6 :=
  .goOn (goOn_runCall inside numbered) (settles_top inside numbered insideLast)

theorem settles_compare (insideLast : last < b.configFuncPtrs.length) :
    Settles b ⟨.compare, config, last⟩ config 4 := by
  by_cases same : last = config
  · subst same
    have again : Settles b ⟨.runCall, last, last⟩ last 1 :=
      .goOn (goOn_runCall inside numbered) ⟨0, Nat.le_refl 0, rfl⟩
    exact Settles.mono (.goOn goOn_same (.goOn (goOn_runTest inside numbered) again)) (by decide)
  · exact .goOn (goOn_changed insideLast same) (settles_initTest inside numbered)

/-- From wherever the main program is, if no pointer was null. -/
theorem settles_alive {place : MainPlace} (insideLast : last < b.configFuncPtrs.length)
    (alive : place ≠ .fault) : Settles b ⟨place, config, last⟩ config 7 := by
  have new : Settles b ⟨.initTest, config, last⟩ config 3 := settles_initTest inside numbered
  have latched : Settles b ⟨.latch, config, last⟩ config 1 := .goOn rfl ⟨0, Nat.le_refl 0, rfl⟩
  cases place with
  | usbWait => exact Settles.mono (.goOn rfl (.goOn rfl new)) (by decide)
  | configure => exact Settles.mono (.goOn rfl new) (by decide)
  | initTest => exact new.mono (by decide)
  | initCall => exact Settles.mono (.goOn (goOn_initCall inside numbered) latched) (by decide)
  | latch => exact latched.mono (by decide)
  | top => exact (settles_top inside numbered insideLast).mono (by decide)
  | compare => exact (settles_compare inside numbered insideLast).mono (by decide)
  | runTest =>
    exact .goOn (goOn_runTest inside numbered) (settles_runCall inside numbered insideLast)
  | runCall => exact (settles_runCall inside numbered insideLast).mono (by decide)
  | fault => exact absurd rfl alive

theorem turn_runs (inputs : List MainInput) :
    trace (MainLoop.step b) (MainLoop.calls b) ⟨.top, config, config⟩
        (.goOn true :: .goOn true :: .goOn true :: .goOn true :: inputs) =
      .run mode :: trace (MainLoop.step b) (MainLoop.calls b) ⟨.top, config, config⟩ inputs := by
  have asked : MainLoop.goOn b true ⟨.top, config, config⟩ = (⟨.compare, config, config⟩, []) := rfl
  rw [trace_goOn asked, trace_goOn goOn_same, trace_goOn (goOn_runTest inside numbered),
    trace_goOn (goOn_runCall inside numbered)]
  rfl

theorem turns_run (turns : Nat) :
    trace (MainLoop.step b) (MainLoop.calls b) ⟨.top, config, config⟩
        (List.replicate (4 * turns) (.goOn true)) =
      List.replicate turns (.run mode) := by
  induction turns with
  | zero => rfl
  | succ turns ih =>
    rw [List.replicate_succ (n := turns), ← ih]
    exact turn_runs inside numbered _

end settles

/-- Whatever the interrupts have done: where the number that they have left names a mode, the loop
begins anew with it within seven reads, and the mode is the one that is run from then on, unless a
null pointer has been called. -/
theorem main_follows (b : Features) (inputs : List MainInput) {mode : MainMode}
    (alive : (Lib.run (MainLoop.step b) (start b) inputs).place ≠ .fault)
    (numbered : b.modeOf (Lib.run (MainLoop.step b) (start b) inputs).config = some mode) :
    let s := Lib.run (MainLoop.step b) (start b) inputs
    ∃ k ≤ 7,
      Lib.run (MainLoop.step b) s (List.replicate k (.goOn true)) = ⟨.top, s.config, s.config⟩ ∧
        ∃ before, ∀ turns,
          trace (MainLoop.step b) (MainLoop.calls b) s (List.replicate (k + 4 * turns) (.goOn true)) =
            before ++ List.replicate turns (.run mode) := by
  intro s
  have inside := run_invariant (Inside b) (fun _ i h => h.step i) inside_start inputs
  obtain ⟨k, few, settled⟩ := settles_alive inside.config numbered inside.last alive
  refine ⟨k, few, settled,
    trace (MainLoop.step b) (MainLoop.calls b) s (List.replicate k (.goOn true)), fun turns => ?_⟩
  rw [List.replicate_add, trace_append, settled]
  exact congrArg _ (turns_run inside.config numbered turns)

/-- A board with the sniffer and the card emulation. -/
def sniffAndPhone : Features :=
  { sniffer := true, ccid := false, cardem := true, mitm := false, ngffCardem := false }

/-- The configuration of the card emulation comes during the sniffer's `init`. -/
def changedInInit : List MainInput :=
  [.goOn true, .goOn true, .goOn true, .goOn true, .configurationChanged 2]

/-- The mode that is run has not been initialised. -/
theorem uninitialised_followed :
    let s := Lib.run (MainLoop.step sniffAndPhone) (start sniffAndPhone) changedInInit
    ∃ k ≤ 7,
      Lib.run (MainLoop.step sniffAndPhone) s (List.replicate k (.goOn true)) =
          ⟨.top, s.config, s.config⟩ ∧
        ∃ before, ∀ turns,
          trace (MainLoop.step sniffAndPhone) (MainLoop.calls sniffAndPhone) s
              (List.replicate (k + 4 * turns) (.goOn true)) =
            before ++ List.replicate turns (.run .phone) :=
  main_follows sniffAndPhone changedInInit (by decide) (by decide)

end MainLoop
end Simtrace2
