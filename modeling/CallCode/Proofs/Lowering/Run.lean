import CallCode.Lowering.Basic

/-!
# Successful runs of lowering actions

A run that succeeds is taken apart into the runs of its steps.  Every lemma here
says exactly when a step succeeds and what it leaves.
-/

namespace CallCode

namespace TypeStack

theorem below?_eq_some {count : Nat} {stack rest : TypeStack} :
    below? count stack = some rest ↔ count ≤ stack.length ∧ rest = stack.drop count := by
  rw [below?_eq]
  by_cases enough : count ≤ stack.length
  · simp [enough, eq_comm]
  · simp [enough]

end TypeStack

namespace StackAction

variable {stack after : TypeStack}

theorem remove_ok {count : Nat} {result : Unit} :
    remove count stack = .ok result after ↔
      count ≤ stack.length ∧ after = stack.drop count := by
  rw [← TypeStack.below?_eq_some]
  unfold remove
  cases TypeStack.below? count stack <;> simp [eq_comm]

theorem replace_ok {type : ValueType} {count : Nat} {result : Unit} :
    replace type count stack = .ok result after ↔
      count ≤ stack.length ∧ after = type :: stack.drop count := by
  simp only [replace, bind, EStateM.bind]
  cases run : remove count stack with
  | ok result rest =>
      obtain ⟨enough, rfl⟩ := remove_ok.mp run
      simp [push, enough, eq_comm]
  | error error rest =>
      have few : ¬count ≤ stack.length := fun enough => by
        have succeeds : remove count stack = .ok () (stack.drop count) :=
          remove_ok.mpr ⟨enough, rfl⟩
        rw [run] at succeeds
        cases succeeds
      simp [few]

theorem pop_ok {type : ValueType} :
    pop stack = .ok type after ↔ stack = type :: after := by
  cases stack <;> simp [pop]

theorem top_ok {type : ValueType} :
    top stack = .ok type after ↔ after = stack ∧ ∃ rest, stack = type :: rest := by
  cases stack with
  | nil => simp [top]
  | cons first rest => simp [top, and_comm, eq_comm]

theorem swap_ok {result : Unit} :
    swap stack = .ok result after ↔ ∃ first second rest,
      stack = first :: second :: rest ∧ after = second :: first :: rest := by
  match stack with
  | [] => simp [swap]
  | [_] => simp [swap]
  | first :: second :: rest =>
      simp only [swap, EStateM.Result.ok.injEq, true_and]
      constructor
      · rintro rfl
        exact ⟨first, second, rest, rfl, rfl⟩
      · rintro ⟨_, _, _, equal, rfl⟩
        cases equal
        rfl

theorem dup_ok {result : Unit} :
    dup stack = .ok result after ↔ ∃ first rest,
      stack = first :: rest ∧ after = first :: first :: rest := by
  match stack with
  | [] => simp [dup, top, bind, EStateM.bind]
  | first :: rest =>
      simp only [dup, top, push, bind, EStateM.bind, EStateM.Result.ok.injEq, true_and]
      constructor
      · rintro rfl
        exact ⟨first, rest, rfl, rfl⟩
      · rintro ⟨_, _, equal, rfl⟩
        cases equal
        rfl

theorem dupX1_ok {result : Unit} :
    dupX1 stack = .ok result after ↔ ∃ first second rest,
      stack = first :: second :: rest ∧ after = first :: second :: first :: rest := by
  match stack with
  | [] => simp [dupX1, pop, bind, EStateM.bind]
  | [_] => simp [dupX1, pop, bind, EStateM.bind]
  | first :: second :: rest =>
      have run : dupX1 (first :: second :: rest) =
          .ok () (first :: second :: first :: rest) := rfl
      rw [run, EStateM.Result.ok.injEq]
      constructor
      · rintro ⟨-, rfl⟩
        exact ⟨first, second, rest, rfl, rfl⟩
      · rintro ⟨_, _, _, equal, rfl⟩
        cases equal
        exact ⟨rfl, rfl⟩

theorem dup2X1_ok {result : Unit} :
    dup2X1 stack = .ok result after ↔ ∃ first second third rest,
      stack = first :: second :: third :: rest ∧
        after = first :: second :: third :: first :: second :: rest := by
  match stack with
  | [] => simp [dup2X1, pop, bind, EStateM.bind]
  | [_] => simp [dup2X1, pop, bind, EStateM.bind]
  | [_, _] => simp [dup2X1, pop, bind, EStateM.bind]
  | first :: second :: third :: rest =>
      have run : dup2X1 (first :: second :: third :: rest) =
          .ok () (first :: second :: third :: first :: second :: rest) := rfl
      rw [run, EStateM.Result.ok.injEq]
      constructor
      · rintro ⟨-, rfl⟩
        exact ⟨first, second, third, rest, rfl, rfl⟩
      · rintro ⟨_, _, _, _, equal, rfl⟩
        cases equal
        exact ⟨rfl, rfl⟩

theorem countAbove_ok {start count : Nat} :
    countAbove start stack = .ok count after ↔
      start ≤ stack.length ∧ count = stack.length - start ∧ after = stack := by
  unfold countAbove
  by_cases enough : start ≤ stack.length
  · simp [enough, eq_comm]
  · simp [enough]

end StackAction

namespace Lower

variable {Result Middle : Type}

/-- The action succeeds on a state and leaves a result and a later state. -/
def Runs (action : Lower Result) (context : Context) (before : LoweringState)
    (result : Result) (after : LoweringState) : Prop :=
  action context before = .ok result after

variable {context : Context} {before after : LoweringState} {result : Result}

/-- The size of the code after an action, if it succeeds. -/
def sizeAfter (action : Lower Result) (context : Context) (before : LoweringState) :
    Option Nat :=
  match action context before with
  | .ok _ after => some after.assembler.listing.size
  | .error _ _ => none

theorem exists_runs {action : Lower Result} {size : Nat}
    (known : sizeAfter action context before = some size) : ∃ result after,
      Runs action context before result after ∧ after.assembler.listing.size = size := by
  unfold sizeAfter at known
  split at known
  · rename_i result after succeeded
    exact ⟨result, after, succeeded, Option.some.inj known⟩
  · cases known

/-- What an action answers, if it succeeds. -/
def answer? (action : Lower Result) (context : Context) (before : LoweringState) :
    Option Result :=
  match action context before with
  | .ok result _ => some result
  | .error _ _ => none

theorem exists_runs_of_answer? {action : Lower Result}
    (known : answer? action context before = some result) :
    ∃ after, Runs action context before result after := by
  unfold answer? at known
  split at known
  · rename_i answer after succeeded
    cases known
    exact ⟨after, succeeded⟩
  · cases known

theorem runs_unique {action : Lower Result} {first second : LoweringState}
    {answer other : Result} (one : Runs action context before answer first)
    (another : Runs action context before other second) : other = answer ∧ second = first := by
  have same := another.symm.trans one
  cases same
  exact ⟨rfl, rfl⟩

@[simp]
theorem runs_pure (value : Result) :
    Runs (pure value) context before result after ↔ value = result ∧ before = after := by
  simp [Runs, pure, ReaderT.pure, EStateM.pure]

@[simp]
theorem runs_bind (first : Lower Middle) (next : Middle → Lower Result) :
    Runs (first >>= next) context before result after ↔ ∃ value middle,
      Runs first context before value middle ∧
        Runs (next value) context middle result after := by
  simp only [Runs, bind, ReaderT.bind, EStateM.bind]
  cases first context before with
  | ok value middle =>
      simp only [EStateM.Result.ok.injEq]
      constructor
      · intro run
        exact ⟨value, middle, ⟨rfl, rfl⟩, run⟩
      · rintro ⟨_, _, ⟨rfl, rfl⟩, run⟩
        exact run
  | error => simp

/-- One action runs behind another. -/
theorem runs_then {first : Lower Middle} {next : Middle → Lower Result} {value : Middle}
    (one : Runs first context before value middle)
    (other : Runs (next value) context middle result after) :
    Runs (first >>= next) context before result after :=
  (runs_bind first next).mpr ⟨value, middle, one, other⟩

section Loops

variable {Thing : Type} {step other : Thing → Lower Unit} {thing : Thing}
  {things : List Thing}

theorem runs_forM_cons :
    Runs ((thing :: things).forM step) context before () after ↔ ∃ middle,
      Runs (step thing) context before () middle ∧
        Runs (things.forM step) context middle () after := by
  rw [List.forM, runs_bind]
  constructor
  · rintro ⟨_, middle, first, rest⟩
    exact ⟨middle, first, rest⟩
  · rintro ⟨middle, first, rest⟩
    exact ⟨(), middle, first, rest⟩

theorem runs_forM_concat :
    Runs ((things ++ [thing]).forM step) context before () after ↔ ∃ middle,
      Runs (things.forM step) context before () middle ∧
        Runs (step thing) context middle () after := by
  induction things generalizing before with
  | nil => simp [List.forM]
  | cons first rest ih =>
      simp only [List.cons_append, runs_forM_cons, ih]
      constructor
      · rintro ⟨start, begins, middle, further, ends⟩
        exact ⟨middle, ⟨start, begins, further⟩, ends⟩
      · rintro ⟨middle, ⟨start, begins, further⟩, ends⟩
        exact ⟨start, begins, middle, further, ends⟩

/-- Loops over the same things agree if their steps do. -/
theorem runs_forM_congr
    (same : ∀ thing ∈ things, ∀ before after,
      Runs (step thing) context before () after ↔ Runs (other thing) context before () after) :
    Runs (things.forM step) context before () after ↔
      Runs (things.forM other) context before () after := by
  induction things generalizing before with
  | nil => rfl
  | cons thing things ih =>
      rw [List.forall_mem_cons] at same
      rw [runs_forM_cons, runs_forM_cons]
      apply exists_congr
      intro middle
      exact and_congr (same.1 before middle) (ih same.2)

end Loops

@[simp]
theorem runs_read {value : Context} :
    Runs (read : Lower Context) context before value after ↔
      context = value ∧ before = after := by
  change EStateM.Result.ok context before = .ok value after ↔ _
  simp

@[simp]
theorem runs_get {value : LoweringState} :
    Runs (get : Lower LoweringState) context before value after ↔
      before = value ∧ before = after := by
  change EStateM.Result.ok before before = .ok value after ↔ _
  simp

@[simp]
theorem runs_modify (change : LoweringState → LoweringState) {value : Unit} :
    Runs (modify change : Lower Unit) context before value after ↔
      after = change before := by
  change EStateM.Result.ok () (change before) = .ok value after ↔ _
  simp [eq_comm]

@[simp]
theorem runs_throw (fault : Fault) :
    Runs (throw fault : Lower Result) context before result after ↔ False := by
  change EStateM.Result.error fault before = .ok result after ↔ False
  simp

@[simp]
theorem runs_fail (error : LoweringError) :
    Runs (fail error : Lower Result) context before result after ↔ False :=
  runs_throw (.rejected error)

@[simp]
theorem runs_ite (condition : Prop) [Decidable condition] (yes no : Lower Result) :
    Runs (if condition then yes else no) context before result after ↔
      if condition then Runs yes context before result after
      else Runs no context before result after := by
  split <;> rfl

@[simp]
theorem runs_accept (outcome : Except LoweringError Result) :
    Runs (accept outcome) context before result after ↔
      outcome = .ok result ∧ before = after := by
  cases outcome with
  | ok value => simp [accept]
  | error error => simp [accept]

@[simp]
theorem runs_write (step : Assembler → Assembler) {value : Unit} :
    Runs (write step) context before value after ↔
      after = { before with assembler := step before.assembler } := by
  simp [write]

@[simp]
theorem runs_writeLabelled (step : Assembler → Result × Assembler) :
    Runs (writeLabelled step) context before result after ↔
      result = (step before.assembler).1 ∧
        after = { before with assembler := (step before.assembler).2 } := by
  change EStateM.Result.ok (step before.assembler).1
    { before with assembler := (step before.assembler).2 } = .ok result after ↔ _
  simp [eq_comm]

theorem runs_track (action : StackAction Result) :
    Runs (track action) context before result after ↔
      ∃ stack, action before.stack = .ok result stack ∧
        after = { before with stack } := by
  unfold Runs track
  cases action before.stack <;> simp [eq_comm, and_assoc]

@[simp]
theorem runs_push (type : ValueType) {value : Unit} :
    Runs (push type) context before value after ↔
      after = { before with stack := type :: before.stack } := by
  simp [push, runs_track, StackAction.push, eq_comm]

@[simp]
theorem runs_replace (type : ValueType) (count : Nat) {value : Unit} :
    Runs (replace type count) context before value after ↔
      count ≤ before.stack.length ∧
        after = { before with stack := type :: before.stack.drop count } := by
  simp [replace, runs_track, StackAction.replace_ok, and_assoc]

@[simp]
theorem runs_remove (count : Nat) {value : Unit} :
    Runs (track (.remove count)) context before value after ↔
      count ≤ before.stack.length ∧
        after = { before with stack := before.stack.drop count } := by
  simp [runs_track, StackAction.remove_ok, and_assoc]

@[simp]
theorem runs_pop {type : ValueType} :
    Runs (track .pop) context before type after ↔ ∃ rest,
      before.stack = type :: rest ∧ after = { before with stack := rest } := by
  simp [runs_track, StackAction.pop_ok]

@[simp]
theorem runs_top {type : ValueType} :
    Runs (track .top) context before type after ↔
      before = after ∧ ∃ rest, before.stack = type :: rest := by
  simp only [runs_track, StackAction.top_ok]
  constructor
  · rintro ⟨_, ⟨rfl, found⟩, rfl⟩
    exact ⟨rfl, found⟩
  · rintro ⟨rfl, found⟩
    exact ⟨_, ⟨rfl, found⟩, rfl⟩

@[simp]
theorem runs_swap {value : Unit} :
    Runs (track .swap) context before value after ↔ ∃ first second rest,
      before.stack = first :: second :: rest ∧
        after = { before with stack := second :: first :: rest } := by
  simp only [runs_track, StackAction.swap_ok]
  constructor
  · rintro ⟨_, ⟨first, second, rest, found, rfl⟩, rfl⟩
    exact ⟨first, second, rest, found, rfl⟩
  · rintro ⟨first, second, rest, found, rfl⟩
    exact ⟨_, ⟨first, second, rest, found, rfl⟩, rfl⟩

@[simp]
theorem runs_dup {value : Unit} :
    Runs (track .dup) context before value after ↔ ∃ first rest,
      before.stack = first :: rest ∧
        after = { before with stack := first :: first :: rest } := by
  simp only [runs_track, StackAction.dup_ok]
  constructor
  · rintro ⟨_, ⟨first, rest, found, rfl⟩, rfl⟩
    exact ⟨first, rest, found, rfl⟩
  · rintro ⟨first, rest, found, rfl⟩
    exact ⟨_, ⟨first, rest, found, rfl⟩, rfl⟩

@[simp]
theorem runs_dupX1 {value : Unit} :
    Runs (track .dupX1) context before value after ↔ ∃ first second rest,
      before.stack = first :: second :: rest ∧
        after = { before with stack := first :: second :: first :: rest } := by
  simp only [runs_track, StackAction.dupX1_ok]
  constructor
  · rintro ⟨_, ⟨first, second, rest, found, rfl⟩, rfl⟩
    exact ⟨first, second, rest, found, rfl⟩
  · rintro ⟨first, second, rest, found, rfl⟩
    exact ⟨_, ⟨first, second, rest, found, rfl⟩, rfl⟩

@[simp]
theorem runs_dup2X1 {value : Unit} :
    Runs (track .dup2X1) context before value after ↔ ∃ first second third rest,
      before.stack = first :: second :: third :: rest ∧
        after =
          { before with stack := first :: second :: third :: first :: second :: rest } := by
  simp only [runs_track, StackAction.dup2X1_ok]
  constructor
  · rintro ⟨_, ⟨first, second, third, rest, found, rfl⟩, rfl⟩
    exact ⟨first, second, third, rest, found, rfl⟩
  · rintro ⟨first, second, third, rest, found, rfl⟩
    exact ⟨_, ⟨first, second, third, rest, found, rfl⟩, rfl⟩

@[simp]
theorem runs_depth {count : Nat} :
    Runs depth context before count after ↔
      before.stack.length = count ∧ before = after := by
  simp only [depth, runs_track, StackAction.depth, EStateM.Result.ok.injEq]
  constructor
  · rintro ⟨_, ⟨rfl, rfl⟩, rfl⟩
    exact ⟨rfl, rfl⟩
  · rintro ⟨rfl, rfl⟩
    exact ⟨_, ⟨rfl, rfl⟩, rfl⟩

@[simp]
theorem runs_collapse (start : Nat) (type : ValueType) {value : Unit} :
    Runs (collapse start type) context before value after ↔
      start ≤ before.stack.length ∧
        after = { before with
          stack := type :: before.stack.drop (before.stack.length - start) } := by
  simp only [collapse, runs_bind, runs_track, StackAction.countAbove_ok, runs_replace]
  constructor
  · rintro ⟨_, _, ⟨_, ⟨enough, rfl, rfl⟩, rfl⟩, _, rfl⟩
    exact ⟨enough, rfl⟩
  · rintro ⟨enough, rfl⟩
    exact ⟨_, _, ⟨_, ⟨enough, rfl, rfl⟩, rfl⟩, Nat.sub_le _ _, rfl⟩

@[simp]
theorem runs_dropAbove (start : Nat) {value : Unit} :
    Runs (dropAbove start) context before value after ↔
      start ≤ before.stack.length ∧
        after = { before with
          stack := before.stack.drop (before.stack.length - start) } := by
  simp only [dropAbove, runs_bind, runs_track (.countAbove start),
    StackAction.countAbove_ok, runs_remove]
  constructor
  · rintro ⟨_, _, ⟨_, ⟨enough, rfl, rfl⟩, rfl⟩, _, rfl⟩
    exact ⟨enough, rfl⟩
  · rintro ⟨enough, rfl⟩
    exact ⟨_, _, ⟨_, ⟨enough, rfl, rfl⟩, rfl⟩, Nat.sub_le _ _, rfl⟩

@[simp]
theorem runs_markLine (position : Position) {value : Unit} :
    Runs (markLine position) context before value after ↔
      after = if position.isSynthetic then before
        else { before with assembler := before.assembler.setLine position.line } := by
  unfold markLine
  split <;> simp [eq_comm]

@[simp]
theorem runs_consult (action : EStateM LoweringError Ledger Result) :
    Runs (consult action) context before result after ↔
      ∃ ledger, action before.ledger = .ok result ledger ∧
        after = { before with ledger } := by
  unfold Runs consult
  cases action before.ledger <;> simp [eq_comm, and_assoc]

/-- A pending branch is resolved if it is short enough. -/
@[simp]
theorem runs_resolve (label : Label) {value : Unit} :
    Runs (resolve label) context before value after ↔ ∃ distance,
      before.assembler.listing.distance label = .ok distance ∧
        after = { before with
          assembler := before.assembler.setDistance label distance } := by
  simp only [resolve, runs_bind, runs_get]
  constructor
  · rintro ⟨_, _, ⟨rfl, rfl⟩, run⟩
    split at run
    · rename_i distance found
      exact ⟨distance, found, by simpa using run⟩
    · simp at run
  · rintro ⟨distance, found, rfl⟩
    exact ⟨_, _, ⟨rfl, rfl⟩, by simp [found]⟩

end Lower

theorem byteCount_ok {count : Nat} {position : Position} {operand : UInt8} :
    byteCount count position = .ok operand ↔ count < 256 ∧ operand = count.toUInt8 := by
  unfold byteCount
  by_cases fits : count < 256
  · simp [fits, eq_comm]
  · simp [fits]

theorem wordCount_ok {count : Nat} {position : Position} {operand : UInt16} :
    wordCount count position = .ok operand ↔ count < 65536 ∧ operand = count.toUInt16 := by
  unfold wordCount
  by_cases fits : count < 65536
  · simp [fits, eq_comm]
  · simp [fits]

end CallCode
