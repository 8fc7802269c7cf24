import Entailment.FirstOrder.Elimination

/-!
# What a watched computation can end with

A computation that reads a clock and a memory gauge can end with different
values for different readings.  `Returns` collects the values it can end with;
nothing is assumed about the readings, so what holds of every returned value
holds for every clock and every memory.  Reports do not matter.

The last part is about `forEach`: a property of the state that every item
keeps is kept by the whole loop, whether it goes to its end or is halted.
-/

namespace Entailment.Monitored

variable {ε α γ : Type}

theorem bind_done : (computation : Monitored ε α) → computation.bind done = computation
  | done _ => rfl
  | report _ next => congrArg (report _) (funext fun _ => bind_done (next _))
  | readClock next => congrArg readClock (funext fun now => bind_done (next now))
  | readMemory next => congrArg readMemory (funext fun bytes => bind_done (next bytes))

theorem bind_bind {γ δ : Type} (first : α → Monitored ε γ) (second : γ → Monitored ε δ) :
    (computation : Monitored ε α) →
      (computation.bind first).bind second = computation.bind fun value => (first value).bind second
  | done _ => rfl
  | report _ next => congrArg (report _) (funext fun _ => bind_bind first second (next _))
  | readClock next => congrArg readClock (funext fun now => bind_bind first second (next now))
  | readMemory next => congrArg readMemory (funext fun bytes => bind_bind first second (next bytes))

instance : LawfulMonad (Monitored ε) :=
  LawfulMonad.mk' _ bind_done (fun _ _ => rfl) fun computation first second =>
    bind_bind first second computation

/-- A computation can end with a value, for some readings. -/
def Returns : Monitored ε α → α → Prop
  | done value, result => value = result
  | report _ next, result => (next ()).Returns result
  | readClock next, result => ∃ now, (next now).Returns result
  | readMemory next, result => ∃ bytes, (next bytes).Returns result

/-- Every computation ends with some value. -/
theorem exists_returns : (computation : Monitored ε α) → ∃ result, computation.Returns result
  | done value => ⟨value, rfl⟩
  | report _ next => (next ()).exists_returns
  | readClock next =>
      have ⟨result, returned⟩ := (next .zero).exists_returns
      ⟨result, .zero, returned⟩
  | readMemory next =>
      have ⟨result, returned⟩ := (next none).exists_returns
      ⟨result, none, returned⟩

/-- A computation ends, and whatever the readings are it ends with a value that
has a property. -/
def Always (property : α → Prop) (computation : Monitored ε α) : Prop :=
  (∃ result, computation.Returns result) ∧ ∀ result, computation.Returns result → property result

theorem always_iff {property : α → Prop} (computation : Monitored ε α) :
    computation.Always property ↔ ∀ result, computation.Returns result → property result :=
  and_iff_right computation.exists_returns

/-- A computation can end with its value for readings that never change. -/
theorem returns_run (now : Duration) (bytes : Option Nat) (computation : Monitored ε α) :
    computation.Returns (computation.run now bytes).1 := by
  unfold run
  generalize ([] : List ε) = events
  induction computation generalizing events with
  | done value => rfl
  | report event next ih => exact ih () (event :: events)
  | readClock next ih => exact ⟨now, ih now events⟩
  | readMemory next ih => exact ⟨bytes, ih bytes events⟩

@[simp]
theorem returns_done {value result : α} :
    (done value : Monitored ε α).Returns result ↔ value = result :=
  Iff.rfl

@[simp]
theorem returns_pure {value result : α} :
    (pure value : Monitored ε α).Returns result ↔ value = result :=
  Iff.rfl

/-- A sequence of two computations ends with what the second one ends with after
some value of the first. -/
@[simp]
theorem returns_bind (computation : Monitored ε α) (after : α → Monitored ε γ) (result : γ) :
    (computation >>= after).Returns result ↔
      ∃ value, computation.Returns value ∧ (after value).Returns result := by
  change (computation.bind after).Returns result ↔ _
  induction computation with
  | done value => simp [bind]
  | report _ next ih => exact ih ()
  | readClock next ih =>
      simp only [bind, Returns, ih]
      constructor
      · rintro ⟨now, value, first, second⟩
        exact ⟨value, ⟨now, first⟩, second⟩
      · rintro ⟨value, ⟨now, first⟩, second⟩
        exact ⟨now, value, first, second⟩
  | readMemory next ih =>
      simp only [bind, Returns, ih]
      constructor
      · rintro ⟨bytes, value, first, second⟩
        exact ⟨value, ⟨bytes, first⟩, second⟩
      · rintro ⟨value, ⟨bytes, first⟩, second⟩
        exact ⟨bytes, value, first, second⟩

@[simp]
theorem returns_tell {event : ε} {result : Unit} : (tell event).Returns result :=
  rfl

@[simp]
theorem returns_tellAll {events : List ε} {result : Unit} : (tellAll events).Returns result := by
  induction events with
  | nil => rfl
  | cons event rest ih => exact ih

@[simp]
theorem returns_clock {now : Duration} : (clock : Monitored ε Duration).Returns now :=
  ⟨now, rfl⟩

end Entailment.Monitored

namespace Entailment.FirstOrder

open Monitored

variable {α σ : Type}

/-- An outcome that is going in a state with one property, or halted in a state
with another. -/
def Outcome.Ends (going : σ → Prop) (halted : Halt → σ → Prop) : Outcome σ → Prop
  | .going state => going state
  | .halted halt state => halted halt state

theorem Outcome.Ends.imp {going going' : σ → Prop} {halted : Halt → σ → Prop}
    {outcome : Outcome σ} (ends : outcome.Ends going halted)
    (weaker : ∀ {state}, going state → going' state) : outcome.Ends going' halted := by
  cases outcome with
  | going state => exact weaker ends
  | halted halt state => exact ends

/-- What a loop ends with, in terms of what is left to do: `ahead` holds of the
items that are left and of the state before them, and `halted` of the state in
which an item halts the loop. -/
theorem forEach_returns {body : α → σ → Monitored Event (Outcome σ)}
    {ahead : List α → σ → Prop} {halted : Halt → σ → Prop}
    (step : ∀ item rest state outcome, ahead (item :: rest) state →
      (body item state).Returns outcome → outcome.Ends (ahead rest) halted)
    {items : List α} {state : σ} {outcome : Outcome σ} (start : ahead items state)
    (returned : (forEach body items state).Returns outcome) :
    outcome.Ends (ahead []) halted := by
  induction items generalizing state with
  | nil =>
      cases returned
      exact start
  | cons item rest ih =>
      obtain ⟨first, firstReturned, restReturned⟩ := (returns_bind ..).mp returned
      have afterFirst := step item rest state first start firstReturned
      cases first with
      | going after => exact ih afterFirst restReturned
      | halted halt after =>
          cases restReturned
          exact afterFirst

/-- A loop that is not halted gathers what each of its items brings, if the later
items keep it. -/
theorem forEach_gathers {body : α → σ → Monitored Event (Outcome σ)} {invariant : σ → Prop}
    {brought : α → σ → Prop} {halted : Halt → σ → Prop} {items : List α}
    (step : ∀ item ∈ items, ∀ state outcome, invariant state →
      (body item state).Returns outcome →
        outcome.Ends (fun after => invariant after ∧ brought item after ∧
          ∀ other, brought other state → brought other after) halted)
    {state : σ} {outcome : Outcome σ} (start : invariant state)
    (returned : (forEach body items state).Returns outcome) :
    outcome.Ends (fun after => invariant after ∧ ∀ item ∈ items, brought item after) halted := by
  have ends := @forEach_returns α σ body
    (fun left state => invariant state ∧ (∀ item ∈ left, item ∈ items) ∧
      ∀ item ∈ items, item ∈ left ∨ brought item state) halted
    (fun item rest state outcome ahead returned => by
      obtain ⟨kept, areItems, soFar⟩ := ahead
      have next := step item (areItems item (List.mem_cons_self ..)) state outcome kept returned
      cases outcome with
      | halted halt after => exact next
      | going after =>
          refine ⟨next.1, fun other mem => areItems other (List.mem_cons_of_mem _ mem),
            fun other mem => ?_⟩
          rcases soFar other mem with left | earlier
          · rcases List.mem_cons.mp left with rfl | left
            · exact .inr next.2.1
            · exact .inl left
          · exact .inr (next.2.2 other earlier))
    items state outcome ⟨start, fun _ mem => mem, fun _ mem => .inl mem⟩ returned
  exact ends.imp fun after => ⟨after.1, fun item mem => (after.2.2 item mem).resolve_left nofun⟩

/-- A loop keeps what each of its items keeps. -/
theorem forEach_keeps {body : α → σ → Monitored Event (Outcome σ)} {invariant : σ → Prop}
    {halted : Halt → σ → Prop} {items : List α}
    (step : ∀ item ∈ items, ∀ state outcome, invariant state →
      (body item state).Returns outcome → outcome.Ends invariant halted)
    {state : σ} {outcome : Outcome σ} (start : invariant state)
    (returned : (forEach body items state).Returns outcome) : outcome.Ends invariant halted := by
  have ends := @forEach_gathers α σ body invariant (fun _ _ => True) halted items
    (fun item mem state outcome kept taken => (step item mem state outcome kept taken).imp
      fun after => ⟨after, trivial, fun _ _ => trivial⟩) state outcome start returned
  exact ends.imp And.left

/-- An outcome whose state has a property, whether it is going or halted, and
whose halt, if there is one, has another. -/
def Outcome.Keeps (invariant : σ → Prop) (halts : Halt → Prop) (outcome : Outcome σ) : Prop :=
  outcome.Ends invariant fun halt state => halts halt ∧ invariant state

theorem Outcome.Keeps.imp {invariant weaker : σ → Prop} {halts : Halt → Prop}
    {outcome : Outcome σ} (keeps : outcome.Keeps invariant halts)
    (weakens : ∀ {state}, invariant state → weaker state) : outcome.Keeps weaker halts := by
  cases outcome with
  | going state => exact weakens keeps
  | halted halt state => exact ⟨keeps.1, weakens keeps.2⟩

end Entailment.FirstOrder
