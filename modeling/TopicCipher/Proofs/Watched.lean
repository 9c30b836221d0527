/-!
# What a computation may give

Sources of keys, storages and clocks work in a monad of which nothing is known, and layers of
state are put on top of it.  Statements about such computations need one thing only: which value
a computation may give, and where it leaves the world.

`Gives x s a t` says that the computation `x`, begun at the place `s`, may give the value `a` and
end at the place `t`.  A place is whatever the monad keeps: for a layer of state it is the state
together with a place below.  Two laws say that nothing happens between two computations, so what a
program may give is read off its text from top to bottom.  A third one says that computations only
ever lead to later places: what has happened below all layers of state has happened.

* `gives_pure`, `gives_bind`, `gives_later`: the laws; `gives_bind_pure`: a value that is handed on;
  and `gives_get`, `gives_set`, `gives_modify`, `gives_lift`: the steps of a layer of state.
* `Keeps`: a computation that never leaves a set of places.
* `Execution`: a way of carrying computations out, through any layers of state.
* `Reaches.invariant`: what every call keeps, every run keeps.
* `Run`: a run with its steps (`Run.of_mem`), and `Execution.run_follow`: there is one for every
  list of calls.
-/

namespace TopicCipher

/-- Monads whose computations can be watched at places of type `P`. -/
class Watched (m : Type → Type) [Monad m] (P : outParam Type) where
  /-- The computation, begun at the first place, may give the value and end at the last place. -/
  Gives {α : Type} : m α → P → α → P → Prop
  gives_pure {α : Type} {a b : α} {s t : P} : Gives (pure a) s b t ↔ b = a ∧ t = s
  gives_bind {α β : Type} {x : m α} {f : α → m β} {s u : P} {b : β} :
    Gives (x >>= f) s b u ↔ ∃ a t, Gives x s a t ∧ Gives (f a) t b u
  /-- The last place is the first one or comes after it. -/
  Later (m) : P → P → Prop
  later_trans {s t u : P} : Later s t → Later t u → Later s u
  gives_later {α : Type} {x : m α} {s t : P} {a : α} : Gives x s a t → Later s t

export Watched (Gives gives_pure gives_bind Later later_trans gives_later)

attribute [simp] gives_pure gives_bind

variable {m : Type → Type} [Monad m] {P : Type} [Watched m P] {α σ : Type}

/-- A value is handed on in another form. -/
theorem gives_bind_pure {β : Type} {x : m α} {f : α → β} {s t : P} {b : β} :
    Gives (x >>= fun a => pure (f a)) s b t ↔ ∃ a, b = f a ∧ Gives x s a t := by
  rw [gives_bind]
  constructor
  · rintro ⟨a, u, hx, hdone⟩
    obtain ⟨rfl, rfl⟩ := gives_pure.mp hdone
    exact ⟨a, rfl, hx⟩
  · rintro ⟨a, rfl, hx⟩
    exact ⟨a, t, hx, gives_pure.mpr ⟨rfl, rfl⟩⟩

/-- A computation whose value is left alone gives nothing else. -/
theorem gives_bind_unit {x : m α} {s t : P} :
    Gives (do let _ ← x) s () t ↔ ∃ a, Gives x s a t :=
  gives_bind_pure.trans (exists_congr fun _ => and_iff_right rfl)

/-! ## Layers of state -/

/-- A layer of state is watched together with what is below it. -/
instance : Watched (StateT σ m) (σ × P) where
  Gives x s a t := Gives (x.run s.1) s.2 (a, t.1) t.2
  gives_pure := by
    intro α a b ⟨s, p⟩ ⟨t, q⟩
    show Gives (pure (a, s) : m _) p (b, t) q ↔ _
    rw [gives_pure]
    simp only [Prod.mk.injEq, and_assoc]
  gives_bind := by
    intro α β x f ⟨s, p⟩ ⟨u, r⟩ b
    show Gives (x.run s >>= fun y => (f y.1).run y.2) p (b, u) r ↔ _
    rw [gives_bind]
    constructor
    · rintro ⟨⟨a, t⟩, q, hx, hf⟩
      exact ⟨a, (t, q), hx, hf⟩
    · rintro ⟨a, ⟨t, q⟩, hx, hf⟩
      exact ⟨(a, t), q, hx, hf⟩
  Later s t := Later m s.2 t.2
  later_trans := later_trans
  gives_later := gives_later

/-- A computation from below does not touch the state. -/
@[simp] theorem gives_lift {x : m α} {s t : σ × P} {a : α} :
    Gives (liftM x : StateT σ m α) s a t ↔ t.1 = s.1 ∧ Gives x s.2 a t.2 := by
  show Gives (x >>= fun a => pure (a, s.1)) s.2 (a, t.1) t.2 ↔ _
  rw [gives_bind]
  constructor
  · rintro ⟨b, q, hx, hb⟩
    obtain ⟨hab, rfl⟩ := gives_pure.mp hb
    obtain ⟨rfl, hs⟩ := Prod.mk.inj hab
    exact ⟨hs, hx⟩
  · rintro ⟨hs, hx⟩
    exact ⟨a, t.2, hx, gives_pure.mpr ⟨by rw [hs], rfl⟩⟩

theorem gives_lift_of {x : m α} {p q : P} {a : α} (s : σ) (h : Gives x p a q) :
    Gives (liftM x : StateT σ m α) (s, p) a (s, q) :=
  gives_lift.mpr ⟨rfl, h⟩

@[simp] theorem gives_get {s t : σ × P} {a : σ} :
    Gives (get : StateT σ m σ) s a t ↔ a = s.1 ∧ t = s := by
  obtain ⟨s, p⟩ := s
  obtain ⟨t, q⟩ := t
  show Gives (pure (s, s) : m _) p (a, t) q ↔ _
  rw [gives_pure]
  simp only [Prod.mk.injEq, and_assoc]

@[simp] theorem gives_set {s t : σ × P} {x : σ} {a : PUnit} :
    Gives (set x : StateT σ m PUnit) s a t ↔ t = (x, s.2) := by
  obtain ⟨t, q⟩ := t
  show Gives (pure (PUnit.unit, x) : m _) s.2 (a, t) q ↔ _
  rw [gives_pure]
  simp only [Prod.mk.injEq, true_and]

@[simp] theorem gives_modify {s t : σ × P} {f : σ → σ} {a : PUnit} :
    Gives (modify f : StateT σ m PUnit) s a t ↔ t = (f s.1, s.2) := by
  obtain ⟨t, q⟩ := t
  show Gives (pure (PUnit.unit, f s.1) : m _) s.2 (a, t) q ↔ _
  rw [gives_pure]
  simp only [Prod.mk.injEq, true_and]

/-! ## What a computation keeps -/

/-- The computation never leaves the places of which `I` holds. -/
def Keeps (x : m α) (I : P → Prop) : Prop := ∀ ⦃s a t⦄, I s → Gives x s a t → I t

theorem keeps_true (x : m α) : Keeps x fun _ : P => True := fun _ _ _ _ _ => trivial

/-- A computation from below keeps what it kept there, whatever the state is. -/
theorem Keeps.lift {x : m α} {I : P → Prop} (h : Keeps x I) :
    Keeps (liftM x : StateT σ m α) fun s => I s.2 :=
  fun _ _ _ hs hx => h hs (gives_lift.mp hx).2

/-! ## Executions -/

/-- A way of carrying computations out.  Where there is one, every computation gives something. -/
structure Execution (m : Type → Type) [Monad m] {P : Type} [Watched m P] where
  run {α : Type} : m α → P → α × P
  gives_run {α : Type} (x : m α) (s : P) : Gives x s (run x s).1 (run x s).2

/-- Carries computations with a layer of state out. -/
def Execution.layer (e : Execution m) : Execution (StateT σ m) where
  run x s :=
    let y := e.run (x.run s.1) s.2
    (y.1.1, y.1.2, y.2)
  gives_run x s := e.gives_run (x.run s.1) s.2

/-! ## Runs -/

/-- The places that calls of a system reach from a place, in any number and order. -/
inductive Reaches {ι : Type} (perform : ι → m Unit) (s : P) : P → Prop where
  | start : Reaches perform s s
  | call {t u : P} (i : ι) : Reaches perform s t → Gives (perform i) t () u → Reaches perform s u

/-- What every call keeps, every run keeps. -/
theorem Reaches.invariant {ι : Type} {perform : ι → m Unit} {I : P → Prop} {s t : P}
    (h : Reaches perform s t) (hcall : ∀ i, Keeps (perform i) I) (hs : I s) : I t := by
  induction h with
  | start => exact hs
  | call i _ hi ih => exact hcall i ih hi

/-- Where nothing happens, nothing is left behind. -/
theorem later_refl (m : Type → Type) [Monad m] {P : Type} [Watched m P] (s : P) : Later m s s :=
  gives_later (gives_pure.mpr ⟨rfl, rfl⟩ : Gives (pure () : m Unit) s () s)

/-- A run only leads to later places. -/
theorem Reaches.later {ι : Type} {perform : ι → m Unit} {s t : P} (h : Reaches perform s t) :
    Later m s t := by
  induction h with
  | start => exact later_refl m s
  | call i _ hi ih => exact later_trans ih (gives_later hi)

theorem Reaches.trans {ι : Type} {perform : ι → m Unit} {s t u : P} (hst : Reaches perform s t)
    (htu : Reaches perform t u) : Reaches perform s u := by
  induction htu with
  | start => exact hst
  | call i _ hi ih => exact .call i ih hi

/-! ## Steps of a run -/

/-- A call, with the places where it began and ended. -/
structure Step (ι P : Type) where
  call : ι
  before : P
  after : P

/-- The runs of a system from a place: their steps in order, and the place where the last one
ended. -/
inductive Run {ι : Type} (perform : ι → m Unit) (s : P) : List (Step ι P) → P → Prop where
  | start : Run perform s [] s
  | call {steps : List (Step ι P)} {t u : P} (i : ι) : Run perform s steps t →
      Gives (perform i) t () u → Run perform s (steps ++ [⟨i, t, u⟩]) u

theorem Run.reaches {ι : Type} {perform : ι → m Unit} {s t : P} {steps : List (Step ι P)}
    (h : Run perform s steps t) : Reaches perform s t := by
  induction h with
  | start => exact .start
  | call i _ hi ih => exact .call i ih hi

/-- What is reached is reached in steps. -/
theorem Reaches.exists_run {ι : Type} {perform : ι → m Unit} {s t : P} (h : Reaches perform s t) :
    ∃ steps, Run perform s steps t := by
  induction h with
  | start => exact ⟨[], .start⟩
  | call i _ hi ih =>
    obtain ⟨steps, hrun⟩ := ih
    exact ⟨_, hrun.call i hi⟩

/-- The steps of a run are calls, one after the other. -/
theorem Run.of_mem {ι : Type} {perform : ι → m Unit} {s t : P} {steps : List (Step ι P)}
    (h : Run perform s steps t) {step : Step ι P} (hstep : step ∈ steps) :
    Later m s step.before ∧ Gives (perform step.call) step.before () step.after ∧
      Later m step.after t := by
  induction h with
  | start => exact absurd hstep List.not_mem_nil
  | call i hrun hi ih =>
    rcases List.mem_append.mp hstep with hmem | hmem
    · obtain ⟨hbefore, hgives, hafter⟩ := ih hmem
      exact ⟨hbefore, hgives, later_trans hafter (gives_later hi)⟩
    · obtain rfl := List.mem_singleton.mp hmem
      exact ⟨hrun.reaches.later, hi, later_refl m _⟩

/-- A step of a run begins at a place that the run reaches. -/
theorem Run.reaches_before {ι : Type} {perform : ι → m Unit} {s t : P} {steps : List (Step ι P)}
    (h : Run perform s steps t) {step : Step ι P} (hstep : step ∈ steps) :
    Reaches perform s step.before := by
  induction h with
  | start => exact absurd hstep List.not_mem_nil
  | call i hrun hi ih =>
    rcases List.mem_append.mp hstep with hmem | hmem
    · exact ih hmem
    · obtain rfl := List.mem_singleton.mp hmem
      exact hrun.reaches

/-- Makes one more call. -/
def Execution.call (e : Execution m) {ι : Type} (perform : ι → m Unit)
    (run : List (Step ι P) × P) (i : ι) : List (Step ι P) × P :=
  let next := (e.run (perform i) run.2).2
  (run.1 ++ [⟨i, run.2, next⟩], next)

/-- Makes calls one after the other. -/
def Execution.follow (e : Execution m) {ι : Type} (perform : ι → m Unit) (s : P)
    (calls : List ι) : List (Step ι P) × P :=
  calls.foldl (e.call perform) ([], s)

/-- A run goes on with one more call. -/
theorem Execution.run_call (e : Execution m) {ι : Type} {perform : ι → m Unit} {s t : P}
    {steps : List (Step ι P)} (h : Run perform s steps t) (i : ι) :
    Run perform s (steps ++ [⟨i, t, (e.run (perform i) t).2⟩]) (e.run (perform i) t).2 :=
  .call i h (e.gives_run (perform i) t)

theorem Execution.run_foldl (e : Execution m) {ι : Type} {perform : ι → m Unit} {s : P}
    (calls : List ι) {run : List (Step ι P) × P} (h : Run perform s run.1 run.2) :
    Run perform s (calls.foldl (e.call perform) run).1
      (calls.foldl (e.call perform) run).2 := by
  induction calls generalizing run with
  | nil => exact h
  | cons i rest ih => exact ih (e.run_call h i)

/-- What every call keeps, all calls keep. -/
theorem Execution.invariant_foldl (e : Execution m) {ι : Type} {perform : ι → m Unit} {I : P → Prop}
    (hcall : ∀ i s, I s → I (e.run (perform i) s).2) (calls : List ι)
    {run : List (Step ι P) × P} (h : I run.2) : I (calls.foldl (e.call perform) run).2 := by
  induction calls generalizing run with
  | nil => exact h
  | cons i rest ih => exact ih (hcall i run.2 h)

/-- Calls made one after the other are a run. -/
theorem Execution.run_follow (e : Execution m) {ι : Type} (perform : ι → m Unit) (s : P)
    (calls : List ι) : Run perform s (e.follow perform s calls).1 (e.follow perform s calls).2 :=
  e.run_foldl calls .start

end TopicCipher
