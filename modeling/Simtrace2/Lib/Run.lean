import Mathlib.Data.List.Basic
import Mathlib.Data.List.Infix

/-! Runs of a deterministic machine that is driven by a list of inputs, and runs
all of whose steps meet a condition on the state before the step. Nothing here
knows the firmware: the carrier and the inputs are arbitrary types. -/
namespace Simtrace2.Lib

variable {S I : Type*}

def run (step : S → I → S) : S → List I → S
  | s, [] => s
  | s, i :: is => run step (step s i) is

/-- Every step of the run meets `cond` in the state it starts from. -/
def Meets (step : S → I → S) (cond : S → I → Prop) : S → List I → Prop
  | _, [] => True
  | s, i :: is => cond s i ∧ Meets step cond (step s i) is

/-- What the steps of a run put out, in order. -/
def trace {O : Type*} (step : S → I → S) (out : S → I → List O) : S → List I → List O
  | _, [] => []
  | s, i :: is => out s i ++ trace step out (step s i) is

def Always (step : S → I → S) (P : S → Prop) (s : S) (is : List I) : Prop :=
  ∀ p, p <+: is → P (run step s p)

variable {step : S → I → S}

instance Meets.decidable {cond : S → I → Prop} [∀ s i, Decidable (cond s i)] :
    (s : S) → (is : List I) → Decidable (Meets step cond s is)
  | _, [] => isTrue trivial
  | s, i :: is =>
    have : Decidable (Meets step cond (step s i) is) := Meets.decidable (step s i) is
    inferInstanceAs (Decidable (cond s i ∧ Meets step cond (step s i) is))

theorem run_append (s : S) (is js : List I) :
    run step s (is ++ js) = run step (run step s is) js := by
  induction is generalizing s with
  | nil => rfl
  | cons i is ih => exact ih (step s i)

theorem trace_append {O : Type*} (out : S → I → List O) (s : S) (is js : List I) :
    trace step out s (is ++ js) = trace step out s is ++ trace step out (run step s is) js := by
  induction is generalizing s with
  | nil => rfl
  | cons i is ih => simp only [List.cons_append, trace, run, ih, List.append_assoc]

theorem meets_append {cond : S → I → Prop} (s : S) (is js : List I) :
    Meets step cond s (is ++ js) ↔ Meets step cond s is ∧ Meets step cond (run step s is) js := by
  induction is generalizing s with
  | nil => simp [Meets, run]
  | cons i is ih => simp [Meets, run, ih, and_assoc]

theorem Meets.of_prefix {cond : S → I → Prop} {s : S} {p is : List I}
    (h : Meets step cond s is) (hp : p <+: is) : Meets step cond s p := by
  obtain ⟨js, rfl⟩ := hp
  exact ((meets_append s p js).mp h).1

theorem Meets.before {cond : S → I → Prop} {s : S} {is js : List I} {i : I}
    (h : Meets step cond s (is ++ i :: js)) : cond (run step s is) i :=
  ((meets_append s is (i :: js)).mp h).2.1

theorem meets_true (s : S) (is : List I) : Meets step (fun _ _ => True) s is := by
  induction is generalizing s with
  | nil => trivial
  | cons i is ih => exact ⟨trivial, ih _⟩

theorem Meets.of_inputs {cond : I → Prop} {s : S} {is : List I} (h : ∀ i ∈ is, cond i) :
    Meets step (fun _ i => cond i) s is := by
  induction is generalizing s with
  | nil => trivial
  | cons i is ih => exact ⟨h i (by simp), ih fun j hj => h j (by simp [hj])⟩

/-- The run rule: what every step that meets `cond` keeps, the run keeps. -/
theorem run_keeps (Inv : S → Prop) {cond : S → I → Prop}
    (keep : ∀ s i, Inv s → cond s i → Inv (step s i)) {s : S} (start : Inv s) {is : List I}
    (meets : Meets step cond s is) : Inv (run step s is) := by
  induction is generalizing s with
  | nil => exact start
  | cons i is ih => exact ih (keep s i start meets.1) meets.2

/-- The rule for what each step shows while the run keeps an invariant. -/
theorem Meets.of_keeps (Inv : S → Prop) {cond goal : S → I → Prop}
    (keep : ∀ s i, Inv s → cond s i → Inv (step s i) ∧ goal s i) {s : S} (start : Inv s)
    {is : List I} (meets : Meets step cond s is) : Meets step goal s is := by
  induction is generalizing s with
  | nil => trivial
  | cons i is ih =>
    obtain ⟨next, shown⟩ := keep s i start meets.1
    exact ⟨shown, ih next meets.2⟩

/-- Where each step shows `goal` exactly when it meets `cond`, so does a run; `Inv` need only
be kept by the steps that do. -/
theorem Meets.iff_of_keeps (Inv : S → Prop) {cond goal given : S → I → Prop}
    (keep : ∀ s i, Inv s → given s i → cond s i → Inv (step s i))
    (exact : ∀ s i, Inv s → given s i → (goal s i ↔ cond s i)) {s : S} (start : Inv s)
    {is : List I} (meets : Meets step given s is) :
    Meets step goal s is ↔ Meets step cond s is := by
  induction is generalizing s with
  | nil => exact Iff.rfl
  | cons i is ih =>
    rw [Meets, Meets, exact s i start meets.1]
    constructor
    · rintro ⟨here, later⟩
      exact ⟨here, (ih (keep s i start meets.1 here) meets.2).mp later⟩
    · rintro ⟨here, later⟩
      exact ⟨here, (ih (keep s i start meets.1 here) meets.2).mpr later⟩

theorem run_invariant (Inv : S → Prop) (keep : ∀ s i, Inv s → Inv (step s i)) {s : S}
    (start : Inv s) (is : List I) : Inv (run step s is) :=
  run_keeps Inv (fun s i h _ => keep s i h) start (meets_true s is)

theorem run_map {J : Type*} (f : J → I) (s : S) (js : List J) :
    run step s (js.map f) = run (fun s j => step s (f j)) s js := by
  induction js generalizing s with
  | nil => rfl
  | cons j js ih => exact ih (step s (f j))

/-- The simulation rule: what relates the states before a step and after it relates the
ends of two runs over the same inputs. -/
theorem run_simulates {T : Type*} {next : T → I → T} (R : S → T → Prop)
    (sim : ∀ s t i, R s t → R (step s i) (next t i)) {s : S} {t : T} (start : R s t) (is : List I) :
    R (run step s is) (run next t is) := by
  induction is generalizing s t with
  | nil => exact start
  | cons i is ih => exact ih (sim s t i start)

/-- The run rule for an invariant about the state and what has been put out so far. -/
theorem run_traced {O : Type*} {out : S → I → List O} (Inv : S → List O → Prop)
    (keep : ∀ s os i, Inv s os → Inv (step s i) (os ++ out s i)) {s : S} {os : List O}
    (start : Inv s os) (is : List I) : Inv (run step s is) (os ++ trace step out s is) := by
  induction is generalizing s os with
  | nil => simpa [run, trace] using start
  | cons i is ih =>
    rw [trace, ← List.append_assoc]
    exact ih (keep s os i start)

/-- The same where every step meets `cond`. -/
theorem run_traced_keeps {O : Type*} {out : S → I → List O} (Inv : S → List O → Prop)
    {cond : S → I → Prop} (keep : ∀ s os i, Inv s os → cond s i → Inv (step s i) (os ++ out s i))
    {s : S} {os : List O} (start : Inv s os) {is : List I} (meets : Meets step cond s is) :
    Inv (run step s is) (os ++ trace step out s is) := by
  induction is generalizing s os with
  | nil => simpa [run, trace] using start
  | cons i is ih =>
    rw [trace, ← List.append_assoc]
    exact ih (keep s os i start meets.1) meets.2

theorem Always.of_keeps (Inv : S → Prop) {P : S → Prop} {cond : S → I → Prop}
    (keep : ∀ s i, Inv s → cond s i → Inv (step s i)) (weaken : ∀ s, Inv s → P s)
    {s : S} (start : Inv s) {is : List I} (meets : Meets step cond s is) :
    Always step P s is :=
  fun _ hp => weaken _ (run_keeps Inv keep start (meets.of_prefix hp))

theorem always_cons {P : S → Prop} {s : S} {i : I} {is : List I} :
    Always step P s (i :: is) ↔ P s ∧ Always step P (step s i) is := by
  constructor
  · intro h
    refine ⟨h [] (List.nil_prefix), fun p hp => ?_⟩
    exact h (i :: p) ((List.prefix_cons_inj i).mpr hp)
  · rintro ⟨h0, h⟩ p hp
    cases p with
    | nil => exact h0
    | cons j p =>
      obtain ⟨rfl, tail⟩ := List.cons_prefix_cons.mp hp
      exact h p tail

/-- Where a step keeps `P` exactly when it meets `cond`, a run stays in `P`
exactly when all its steps meet `cond`. The invariant `Inv` holds in any case. -/
theorem always_iff_meets (Inv : S → Prop) {P : S → Prop} {cond : S → I → Prop}
    (keep : ∀ s i, Inv s → Inv (step s i))
    (exact : ∀ s i, Inv s → P s → (P (step s i) ↔ cond s i)) {s : S} (inv : Inv s) (start : P s)
    (is : List I) : Always step P s is ↔ Meets step cond s is := by
  induction is generalizing s with
  | nil => simpa [Always, Meets, run] using start
  | cons i is ih =>
    rw [always_cons]
    constructor
    · rintro ⟨_, h⟩
      have next : P (step s i) := h [] List.nil_prefix
      exact ⟨(exact s i inv start).mp next, (ih (keep s i inv) next).mp h⟩
    · rintro ⟨hc, h⟩
      exact ⟨start, (ih (keep s i inv) ((exact s i inv start).mpr hc)).mpr h⟩

/-- Where `Inv` is kept by a step exactly when it meets `cond`, and `P` shows after a step
that it did, a run stays in `P` exactly when all its steps meet `cond`. -/
theorem always_iff_meets_of_shown (Inv : S → Prop) {P : S → Prop} {cond : S → I → Prop}
    (keep : ∀ s i, Inv s → cond s i → Inv (step s i)) (weaken : ∀ s, Inv s → P s)
    (shown : ∀ s i, Inv s → P (step s i) → cond s i) {s : S} (start : Inv s) (is : List I) :
    Always step P s is ↔ Meets step cond s is := by
  constructor
  · intro h
    induction is generalizing s with
    | nil => trivial
    | cons i is ih =>
      obtain ⟨_, tail⟩ := always_cons.mp h
      have met : cond s i := shown s i start (tail [] List.nil_prefix)
      exact ⟨met, ih (keep s i start met) tail⟩
  · intro meets
    exact Always.of_keeps Inv keep weaken start meets

end Simtrace2.Lib
