import TopicCipher.Proofs.Watched

/-!
# Dialogues

A dialogue is a computation that puts questions to the outside, one after the other, and goes on
with whatever is answered.  Nothing is assumed about the answers, so a statement about all runs of
a dialogue is a statement about all clocks, storages and stores there could be.

A dialogue is watched at its history: all questions so far with their answers.  A history only
grows, so the later of two histories begins with the earlier one.

* `gives_question`: a question may be answered in any way, and is remembered.
* `gives_ask`: from above a layer of state, a question leaves the state alone.
* `execution`, `responsive`: with a way of answering, dialogues can be carried out.
-/

namespace TopicCipher

/-- A computation that asks questions of type `Q`; the type of an answer depends on the
question. -/
inductive Dialogue (Q : Type) (A : Q → Type) (α : Type) where
  | done (value : α)
  | ask (question : Q) (next : A question → Dialogue Q A α)

/-- A question with its answer. -/
structure Exchange (Q : Type) (A : Q → Type) where
  question : Q
  answer : A question

namespace Dialogue

variable {Q : Type} {A : Q → Type} {α β : Type}

/-- Goes on after a dialogue with its value. -/
def bind : Dialogue Q A α → (α → Dialogue Q A β) → Dialogue Q A β
  | done a, f => f a
  | ask q next, f => ask q fun answer => (next answer).bind f

instance : Monad (Dialogue Q A) where
  pure := done
  bind := bind

/-- A single question. -/
def question (q : Q) : Dialogue Q A (A q) := ask q done

/-- What may be said in a dialogue until it gives a value. -/
inductive Says : Dialogue Q A α → List (Exchange Q A) → α → Prop where
  | done (a : α) : Says (done a) [] a
  | ask {q : Q} {next : A q → Dialogue Q A α} {said : List (Exchange Q A)} {a : α}
      (answer : A q) : Says (next answer) said a → Says (ask q next) (⟨q, answer⟩ :: said) a

theorem says_done_iff {a b : α} {said : List (Exchange Q A)} :
    Says (done a) said b ↔ said = [] ∧ b = a := by
  constructor
  · rintro ⟨⟩
    exact ⟨rfl, rfl⟩
  · rintro ⟨rfl, rfl⟩
    exact .done b

theorem says_ask_iff {q : Q} {next : A q → Dialogue Q A α} {said : List (Exchange Q A)} {a : α} :
    Says (ask q next) said a ↔
      ∃ answer rest, said = ⟨q, answer⟩ :: rest ∧ Says (next answer) rest a := by
  constructor
  · intro h
    cases h with
    | ask answer h => exact ⟨answer, _, rfl, h⟩
  · rintro ⟨answer, rest, rfl, h⟩
    exact .ask answer h

/-- What is said in two dialogues is said one after the other. -/
theorem says_bind_iff {x : Dialogue Q A α} {f : α → Dialogue Q A β}
    {said : List (Exchange Q A)} {b : β} :
    Says (x.bind f) said b ↔
      ∃ a first rest, said = first ++ rest ∧ Says x first a ∧ Says (f a) rest b := by
  induction x generalizing said with
  | done a =>
    constructor
    · intro h
      exact ⟨a, [], said, rfl, .done a, h⟩
    · rintro ⟨b, first, rest, rfl, hx, h⟩
      obtain ⟨rfl, rfl⟩ := says_done_iff.mp hx
      exact h
  | ask q next ih =>
    constructor
    · intro h
      obtain ⟨answer, tail, rfl, hnext⟩ := says_ask_iff.mp h
      obtain ⟨a, first, rest, rfl, hx, hf⟩ := (ih answer).mp hnext
      exact ⟨a, ⟨q, answer⟩ :: first, rest, rfl, .ask answer hx, hf⟩
    · rintro ⟨a, first, rest, rfl, hx, hf⟩
      obtain ⟨answer, tail, rfl, hnext⟩ := says_ask_iff.mp hx
      exact .ask answer ((ih answer).mpr ⟨a, tail, rest, rfl, hnext, hf⟩)

/-- A dialogue is watched at all that was said so far. -/
instance : Watched (Dialogue Q A) (List (Exchange Q A)) where
  Gives x before a after := ∃ said, after = before ++ said ∧ Says x said a
  gives_pure := by
    intro α a b before after
    constructor
    · rintro ⟨said, rfl, h⟩
      obtain ⟨rfl, rfl⟩ := says_done_iff.mp h
      exact ⟨rfl, List.append_nil before⟩
    · rintro ⟨rfl, rfl⟩
      exact ⟨[], (List.append_nil _).symm, .done b⟩
  gives_bind := by
    intro α β x f before after b
    constructor
    · rintro ⟨said, rfl, h⟩
      obtain ⟨a, first, rest, rfl, hx, hf⟩ := says_bind_iff.mp h
      exact ⟨a, before ++ first, ⟨first, rfl, hx⟩, rest, (List.append_assoc ..).symm, hf⟩
    · rintro ⟨a, _, ⟨first, rfl, hx⟩, rest, rfl, hf⟩
      exact ⟨first ++ rest, List.append_assoc ..,
        says_bind_iff.mpr ⟨a, first, rest, rfl, hx, hf⟩⟩
  Later before after := before <+: after
  later_trans := List.IsPrefix.trans
  gives_later := by
    rintro α x before _ a ⟨said, rfl, -⟩
    exact List.prefix_append before said

/-- **A question may be answered in any way**, and the answer is remembered. -/
@[simp] theorem gives_question {q : Q} {before after : List (Exchange Q A)} {answer : A q} :
    Gives (question q : Dialogue Q A (A q)) before answer after ↔
      after = before ++ [⟨q, answer⟩] := by
  constructor
  · rintro ⟨said, rfl, h⟩
    obtain ⟨_, rest, rfl, hdone⟩ := says_ask_iff.mp h
    obtain ⟨rfl, rfl⟩ := says_done_iff.mp hdone
    rfl
  · rintro rfl
    exact ⟨[⟨q, answer⟩], rfl, .ask answer (.done answer)⟩

/-- Between two histories, something was said. -/
def Said (before after : List (Exchange Q A)) (exchange : Exchange Q A) : Prop :=
  ∃ said, after = before ++ said ∧ exchange ∈ said

@[simp] theorem said_append_iff {before said : List (Exchange Q A)} {exchange : Exchange Q A} :
    Said before (before ++ said) exchange ↔ exchange ∈ said := by
  constructor
  · rintro ⟨rest, hrest, hmem⟩
    obtain rfl := List.append_cancel_left hrest
    exact hmem
  · exact fun hmem => ⟨said, rfl, hmem⟩

/-- What was said is in every later history. -/
theorem Said.mem {before after : List (Exchange Q A)} {exchange : Exchange Q A}
    (h : Said before after exchange) : exchange ∈ after := by
  obtain ⟨said, rfl, hmem⟩ := h
  exact List.mem_append_right _ hmem

/-- What was said by some time was said by any later time. -/
theorem Said.later {before after later : List (Exchange Q A)} {exchange : Exchange Q A}
    (h : Said before after exchange) (hlater : after <+: later) : Said before later exchange := by
  obtain ⟨said, rfl, hmem⟩ := h
  obtain ⟨rest, rfl⟩ := hlater
  exact ⟨said ++ rest, List.append_assoc .., List.mem_append_left rest hmem⟩

/-- What was said by the end was said at first or in the end. -/
theorem said_append_or {before after rest : List (Exchange Q A)} {exchange : Exchange Q A}
    (h : Said before (after ++ rest) exchange) (hlater : before <+: after) :
    Said before after exchange ∨ exchange ∈ rest := by
  obtain ⟨said, rfl⟩ := hlater
  rw [List.append_assoc, said_append_iff, List.mem_append] at h
  exact h.imp_left said_append_iff.mpr

/-! ## Fixed answers -/

/-- The value of a dialogue under a fixed way of answering, with all that is said. -/
def under (oracle : (q : Q) → A q) : Dialogue Q A α → α × List (Exchange Q A)
  | done a => (a, [])
  | ask q next =>
    let rest := (next (oracle q)).under oracle
    (rest.1, ⟨q, oracle q⟩ :: rest.2)

theorem says_under (oracle : (q : Q) → A q) (x : Dialogue Q A α) :
    Says x (x.under oracle).2 (x.under oracle).1 := by
  induction x with
  | done a => exact .done a
  | ask q next ih => exact .ask (oracle q) (ih (oracle q))

/-- Under a fixed way of answering, nothing else is answered. -/
theorem answer_eq_of_mem_under (oracle : (q : Q) → A q) (x : Dialogue Q A α)
    {exchange : Exchange Q A} (h : exchange ∈ (x.under oracle).2) :
    exchange = ⟨exchange.question, oracle exchange.question⟩ := by
  induction x with
  | done a => exact absurd h List.not_mem_nil
  | ask q next ih =>
    rcases List.mem_cons.mp h with rfl | h
    · rfl
    · exact ih (oracle q) h

/-- All answers in a history are those of a fixed way of answering. -/
def Obeys (oracle : (q : Q) → A q) (history : List (Exchange Q A)) : Prop :=
  ∀ exchange ∈ history, exchange = ⟨exchange.question, oracle exchange.question⟩

theorem Obeys.under {oracle : (q : Q) → A q} {history : List (Exchange Q A)}
    (h : Obeys oracle history) (x : Dialogue Q A α) :
    Obeys oracle (history ++ (x.under oracle).2) := by
  intro exchange hmem
  rcases List.mem_append.mp hmem with hmem | hmem
  · exact h exchange hmem
  · exact answer_eq_of_mem_under oracle x hmem

/-- Every dialogue can be carried out: a fixed way of answering leads it to its value. -/
def execution (oracle : (q : Q) → A q) : Execution (Dialogue Q A) where
  run x before := ((x.under oracle).1, before ++ (x.under oracle).2)
  gives_run x _ := ⟨_, rfl, says_under oracle x⟩

/-! ## Answers that depend on what was said -/

/-- Goes on with a history, where every answer may depend on all that was said before it. -/
def goneOn (respond : List (Exchange Q A) → (q : Q) → A q) :
    Dialogue Q A α → List (Exchange Q A) → α × List (Exchange Q A)
  | done a, history => (a, history)
  | ask q next, history =>
    (next (respond history q)).goneOn respond (history ++ [⟨q, respond history q⟩])

theorem gives_goneOn (respond : List (Exchange Q A) → (q : Q) → A q) (x : Dialogue Q A α)
    (history : List (Exchange Q A)) :
    Gives x history (x.goneOn respond history).1 (x.goneOn respond history).2 := by
  induction x generalizing history with
  | done a => exact gives_pure.mpr ⟨rfl, rfl⟩
  | ask q next ih =>
    exact gives_bind.mpr ⟨respond history q, _, gives_question.mpr rfl, ih _ _⟩

/-- Carries dialogues out with answers that depend on what was said. -/
def responsive (respond : List (Exchange Q A) → (q : Q) → A q) : Execution (Dialogue Q A) where
  run x history := x.goneOn respond history
  gives_run x history := gives_goneOn respond x history

end Dialogue

/-! ## Questions from above a layer of state -/

/-- Asks a question from above a layer of state. -/
def ask {Q : Type} {A : Q → Type} {σ : Type} (q : Q) : StateT σ (Dialogue Q A) (A q) :=
  liftM (Dialogue.question q : Dialogue Q A (A q))

/-- **A question may be answered in any way**, and it leaves the state alone. -/
@[simp] theorem gives_ask {Q : Type} {A : Q → Type} {σ : Type} {q : Q}
    {s t : σ × List (Exchange Q A)} {answer : A q} :
    Gives (ask q : StateT σ (Dialogue Q A) (A q)) s answer t ↔
      t = (s.1, s.2 ++ [⟨q, answer⟩]) := by
  rw [ask, gives_lift, Dialogue.gives_question, Prod.ext_iff]

end TopicCipher
