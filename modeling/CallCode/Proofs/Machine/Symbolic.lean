import CallCode.Proofs.Machine.StackEffect

/-!
# Symbolic execution

The symbolic machine keeps where each value comes from, and what happened in which
order.  Operations that only move values on the stack leave no trace.  What the
runtime answers for the value on which a switch branches is left open.
-/

namespace CallCode

/-- A value, by where it comes from: it was there before, or at some moment an operation
made it from other values. -/
inductive Value
  | given (number : Nat)
  | made (moment : Nat) (operation : Operation) (inputs : List Value)

/-- An operation was performed on values, the lowest of the stack first. -/
structure Event where
  operation : Operation
  inputs : List Value

/-- The values on the stack, and what happened before. -/
structure SymbolicState where
  stack : List Value
  events : List Event

/-- Whether an operation only moves, copies or drops values on the stack. -/
def Operation.shuffles : Operation → Bool
  | plain .pop | plain .dup | plain .dupX1 | plain .dup2X1 | plain .swap => true
  | _ => false

/-- What an operation does to a symbolic state.  A switch takes the first case with the
key that is answered for the value on top. -/
inductive SymbolicStep (types : TypeTable) (answer : Value → Int32) :
    Operation → Option Branch → SymbolicState → SymbolicState → Prop
  | pop {top rest events} :
      SymbolicStep types answer (.plain .pop) none ⟨top :: rest, events⟩ ⟨rest, events⟩
  | dup {top rest events} :
      SymbolicStep types answer (.plain .dup) none ⟨top :: rest, events⟩
        ⟨top :: top :: rest, events⟩
  | dupX1 {first second rest events} :
      SymbolicStep types answer (.plain .dupX1) none ⟨first :: second :: rest, events⟩
        ⟨first :: second :: first :: rest, events⟩
  | dup2X1 {first second third rest events} :
      SymbolicStep types answer (.plain .dup2X1) none
        ⟨first :: second :: third :: rest, events⟩
        ⟨first :: second :: third :: first :: second :: rest, events⟩
  | swap {first second rest events} :
      SymbolicStep types answer (.plain .swap) none ⟨first :: second :: rest, events⟩
        ⟨second :: first :: rest, events⟩
  | act {operation inputs stack rest events} : operation.falls = true →
      operation.shuffles = false → inputs.length = operation.pops →
      stack = inputs.reverse ++ rest →
      SymbolicStep types answer operation none ⟨stack, events⟩
        ⟨List.replicate (operation.pushes types) (.made events.length operation inputs) ++
          rest, events ++ [⟨operation, inputs⟩]⟩
  | jump {distance state} :
      SymbolicStep types answer (.jump distance) (some .jump) state state
  | case {fallback cases position top rest events} :
      cases.findIdx? (·.key == answer top) = some position →
      SymbolicStep types answer (.lookupSwitch fallback cases) (some (.case position))
        ⟨top :: rest, events⟩ ⟨rest, events⟩
  | fallback {fallback cases top rest events} :
      cases.findIdx? (·.key == answer top) = none →
      SymbolicStep types answer (.lookupSwitch fallback cases) (some .fallback)
        ⟨top :: rest, events⟩ ⟨rest, events⟩

/-- The machine that executes code symbolically. -/
def symbolicMachine (types : TypeTable) (answer : Value → Int32) : Machine SymbolicState :=
  SymbolicStep types answer

section Steps

variable {types : TypeTable} {answer : Value → Int32} {operation : Operation}

/-- The symbolic machine never has a choice. -/
theorem SymbolicStep.deterministic {branch other : Option Branch}
    {state next last : SymbolicState}
    (first : SymbolicStep types answer operation branch state next)
    (second : SymbolicStep types answer operation other state last) :
    branch = other ∧ next = last := by
  cases first with
  | act falls moves taken stands =>
      cases second with
      | act _ _ alsoTaken alsoStands =>
          obtain ⟨same, rfl⟩ := List.append_inj (stands.symm.trans alsoStands)
            (by simp [taken, alsoTaken])
          rw [List.reverse_inj.mp same]
          exact ⟨rfl, rfl⟩
      | jump | case | fallback => cases falls
      | _ => cases moves
  | case found =>
      cases second with
      | case alsoFound =>
          rw [found] at alsoFound
          cases alsoFound
          exact ⟨rfl, rfl⟩
      | fallback absent =>
          rw [found] at absent
          cases absent
      | act falls => cases falls
  | fallback absent =>
      cases second with
      | case found =>
          rw [absent] at found
          cases found
      | fallback => exact ⟨rfl, rfl⟩
      | act falls => cases falls
  | jump =>
      cases second with
      | jump => exact ⟨rfl, rfl⟩
      | act falls => cases falls
  | _ =>
      -- what is left only moves values
      cases second with
      | act _ moves => cases moves
      | _ => exact ⟨rfl, rfl⟩

/-- From every point of some code, the symbolic machine comes to one other at most. -/
theorem symbolicMachine_deterministic {pool : ConstantPool} {code : ObjectCode} :
    Relator.RightUnique ((symbolicMachine types answer).Step pool code) := by
  intro start next last first second
  cases first with
  | execute placed known does leads =>
      cases second with
      | execute alsoPlaced alsoKnown alsoDoes alsoLeads =>
          cases placed.symm.trans alsoPlaced
          cases known.symm.trans alsoKnown
          obtain ⟨rfl, rfl⟩ := does.deterministic alsoDoes
          cases leads.symm.trans alsoLeads
          rfl

/-- An operation that leaves one value makes it from the values that it takes. -/
theorem symbolicMachine_makes {stack rest : List Value} {events : List Event}
    (inputs : List Value) (taken : inputs.length = operation.pops := by rfl)
    (stands : stack = inputs.reverse ++ rest := by rfl)
    (falls : operation.falls = true := by rfl) (moves : operation.shuffles = false := by rfl)
    (leaves : operation.pushes types = 1 := by rfl) :
    symbolicMachine types answer operation none ⟨stack, events⟩
      ⟨.made events.length operation inputs :: rest, events ++ [⟨operation, inputs⟩]⟩ := by
  have step : symbolicMachine types answer operation none ⟨stack, events⟩ _ :=
    SymbolicStep.act falls moves taken stands
  rw [leaves] at step
  exact step

/-! ## Straight code -/

theorem SymbolicStep.length {state next : SymbolicState}
    (step : SymbolicStep types answer operation none state next) :
    (next.stack.length : Int) = state.stack.length + operation.change types := by
  cases step with
  | act _ _ taken stands =>
      rw [stands]
      simp only [List.length_append, List.length_replicate, List.length_reverse, taken,
        Operation.change]
      omega
  | _ =>
      simp only [List.length_cons, Operation.change, Operation.pushes, Operation.pops,
        Opcode.pushes, Opcode.pops]
      omega

/-- Straight code changes the number of values on the stack by its net change. -/
theorem length_of_executes {code : List Operation} {state final : SymbolicState}
    (executes : (symbolicMachine types answer).Executes code state final) :
    (final.stack.length : Int) = state.stack.length + netChange types code := by
  induction executes with
  | nil => simp
  | cons _ does _ ih =>
      rw [ih, SymbolicStep.length does, netChange_cons]
      omega

/-- An operation that finds its values leaves everything below them alone. -/
theorem exists_symbolicStep {top : List Value} (falls : operation.falls = true)
    (enough : operation.pops ≤ top.length) (rest : List Value) (events : List Event) :
    ∃ left more, symbolicMachine types answer operation none ⟨top ++ rest, events⟩
      ⟨left ++ rest, events ++ more⟩ := by
  by_cases moves : operation.shuffles
  · have quiet := List.append_nil events
    unfold Operation.shuffles at moves
    split at moves
    · obtain ⟨first, top, rfl⟩ := List.exists_cons_of_length_pos enough
      exact ⟨top, [], by rw [quiet]; exact .pop⟩
    · obtain ⟨first, top, rfl⟩ := List.exists_cons_of_length_pos enough
      exact ⟨first :: first :: top, [], by rw [quiet]; exact .dup⟩
    · match top, enough with
      | first :: second :: top, _ =>
          exact ⟨first :: second :: first :: top, [], by rw [quiet]; exact .dupX1⟩
    · match top, enough with
      | first :: second :: third :: top, _ =>
          exact ⟨first :: second :: third :: first :: second :: top, [],
            by rw [quiet]; exact .dup2X1⟩
    · match top, enough with
      | first :: second :: top, _ =>
          exact ⟨second :: first :: top, [], by rw [quiet]; exact .swap⟩
    · cases moves
  · rw [Bool.not_eq_true] at moves
    have stands : top ++ rest = (top.take operation.pops).reverse.reverse ++
        (top.drop operation.pops ++ rest) := by
      rw [List.reverse_reverse, ← List.append_assoc, List.take_append_drop]
    have step : symbolicMachine types answer operation none ⟨top ++ rest, events⟩ _ :=
      SymbolicStep.act falls moves (by simp [Nat.min_eq_left enough]) stands
    rw [← List.append_assoc] at step
    exact ⟨_, _, step⟩

/-- Straight code that finds its values leaves everything below them alone. -/
theorem exists_executes {code : List Operation} {top : List Value}
    (straight : ∀ operation ∈ code, operation.falls = true)
    (covered : Covered types top.length code) (rest : List Value) (events : List Event) :
    ∃ left more, (symbolicMachine types answer).Executes code ⟨top ++ rest, events⟩
      ⟨left ++ rest, events ++ more⟩ := by
  induction code generalizing top events with
  | nil => exact ⟨top, [], by rw [List.append_nil]; exact .nil⟩
  | cons operation code ih =>
      obtain ⟨enough, following⟩ := covered
      have falls := straight operation List.mem_cons_self
      obtain ⟨middle, earlier, step⟩ : ∃ middle earlier,
          symbolicMachine types answer operation none ⟨top ++ rest, events⟩
            ⟨middle ++ rest, events ++ earlier⟩ :=
        exists_symbolicStep falls (by omega) rest events
      have length := SymbolicStep.length step
      simp only [List.length_append] at length
      have depth : (top.length : Int) + operation.change types = middle.length := by omega
      rw [depth] at following
      obtain ⟨left, later, executes⟩ :=
        ih (fun other member => straight other (List.mem_cons_of_mem _ member)) following
          (events ++ earlier)
      exact ⟨left, earlier ++ later, by
        rw [← List.append_assoc]
        exact .cons falls step executes⟩

end Steps

/-! ## Effects -/

/-- Whether an operation makes an object or runs other code. -/
def Operation.effectful : Operation → Bool
  | typed .newInstance _ | arrayInit _ _ | despread _ _ => true
  | invoke _ _ _ _ | callSite _ _ _ | callRoutine _ _ _ => true
  | _ => false

/-- What happened after some events made objects or ran other code as given. -/
def Happened (before after effects : List Event) : Prop :=
  ∃ more, after = before ++ more ∧ more.filter (·.operation.effectful) = effects

/-- Code is executed from a state to another one, and has effects on the way. -/
structure Plays (types : TypeTable) (answer : Value → Int32) (code : List Operation)
    (state : SymbolicState) (effects : List Event) (final : SymbolicState) : Prop where
  executes : (symbolicMachine types answer).Executes code state final
  happened : Happened state.events final.events effects

section Effects

variable {types : TypeTable} {answer : Value → Int32} {operation : Operation}
  {first second third effects further : List Event}

theorem Happened.none : Happened first first [] := ⟨[], by simp⟩

theorem Happened.trans (earlier : Happened first second effects)
    (later : Happened second third further) : Happened first third (effects ++ further) := by
  obtain ⟨more, rfl, rfl⟩ := earlier
  obtain ⟨others, rfl, rfl⟩ := later
  exact ⟨more ++ others, by simp⟩

theorem Happened.quiet (inputs : List Value) (quiet : operation.effectful = false) :
    Happened first (first ++ [⟨operation, inputs⟩]) [] :=
  ⟨_, rfl, by simp [quiet]⟩

theorem Happened.effect (inputs : List Value) (works : operation.effectful = true) :
    Happened first (first ++ [⟨operation, inputs⟩]) [⟨operation, inputs⟩] :=
  ⟨_, rfl, by simp [works]⟩

namespace Plays

variable {code others : List Operation} {state middle final : SymbolicState}
  {stack rest : List Value} {events : List Event}

theorem nil : Plays types answer [] state [] state := ⟨.nil, .none⟩

theorem append (left : Plays types answer code state effects middle)
    (right : Plays types answer others middle further final) :
    Plays types answer (code ++ others) state (effects ++ further) final :=
  ⟨left.executes.append right.executes, left.happened.trans right.happened⟩

/-- An operation that only moves values comes first. -/
theorem moving {next : List Value} (falls : operation.falls = true)
    (moves : SymbolicStep types answer operation none ⟨stack, events⟩ ⟨next, events⟩)
    (following : Plays types answer code ⟨next, events⟩ effects final) :
    Plays types answer (operation :: code) ⟨stack, events⟩ effects final :=
  ⟨.cons falls moves following.executes, following.happened⟩

/-- An operation that makes a value and has no effect comes first. -/
theorem making (inputs : List Value)
    (following : Plays types answer code
      ⟨.made events.length operation inputs :: rest, events ++ [⟨operation, inputs⟩]⟩ effects
      final)
    (taken : inputs.length = operation.pops := by rfl)
    (stands : stack = inputs.reverse ++ rest := by rfl)
    (falls : operation.falls = true := by rfl) (moves : operation.shuffles = false := by rfl)
    (leaves : operation.pushes types = 1 := by rfl)
    (quiet : operation.effectful = false := by rfl) :
    Plays types answer (operation :: code) ⟨stack, events⟩ effects final :=
  ⟨.cons falls (symbolicMachine_makes inputs taken stands falls moves leaves)
      following.executes, (Happened.quiet inputs quiet).trans following.happened⟩

theorem loadingInt (value : Int64)
    (following : Plays types answer code
      ⟨.made events.length (.ofInt value) [] :: rest, events ++ [⟨.ofInt value, []⟩]⟩ effects
      final) :
    Plays types answer (.ofInt value :: code) ⟨rest, events⟩ effects final := by
  unfold Operation.ofInt at following ⊢
  split
  · rename_i isZero
    rw [if_pos isZero] at following
    exact .making [] following
  · rename_i notZero
    rw [if_neg notZero] at following
    split
    · rename_i isOne
      rw [if_pos isOne] at following
      exact .making [] following
    · rename_i notOne
      rw [if_neg notOne] at following
      exact .making [] following

/-- An operation that makes a value and has an effect comes first. -/
theorem working (inputs : List Value)
    (following : Plays types answer code
      ⟨.made events.length operation inputs :: rest, events ++ [⟨operation, inputs⟩]⟩ effects
      final)
    (taken : inputs.length = operation.pops := by rfl)
    (stands : stack = inputs.reverse ++ rest := by rfl)
    (falls : operation.falls = true := by rfl) (moves : operation.shuffles = false := by rfl)
    (leaves : operation.pushes types = 1 := by rfl)
    (works : operation.effectful = true := by rfl) :
    Plays types answer (operation :: code) ⟨stack, events⟩ (⟨operation, inputs⟩ :: effects)
      final :=
  ⟨.cons falls (symbolicMachine_makes inputs taken stands falls moves leaves)
      following.executes, (Happened.effect inputs works).trans following.happened⟩

end Plays

end Effects

end CallCode
