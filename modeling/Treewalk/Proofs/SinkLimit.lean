import Treewalk.Proofs.Discipline
import Treewalk.Proofs.Frame

/-!
# A sink with a limit only cuts runs off

Take the same computation on two sinks, one that takes everything and one that
takes a limited number of bytes.  The write that does not fit leaves what does
and fails, and nothing on the way out stops this failure: loops end, calls pass
it on although they stop returns, initialisers do not replace it by the
receiver, and nothing is written any more.
-/

namespace Treewalk

open ByteArray

/-! ## Sinks -/

namespace Sink

variable {limit : Nat} {bytes : ByteArray}

theorem write_empty (sink : Sink) : sink.write .empty = (sink, none) := by
  simp only [write, append_empty]
  split
  · rfl
  · exact if_pos (Nat.zero_le _)

/-- It makes no difference in how many writes bytes are written. -/
theorem write_append (sink : Sink) (bytes more : ByteArray) :
    sink.write (bytes ++ more) = match sink.write bytes with
      | (sink, none) => sink.write more
      | (sink, some error) => (sink, some error) := by
  rcases sink with ⟨written, capacity, flushes⟩
  cases capacity with
  | none => simp only [write, append_assoc]
  | some capacity =>
    simp only [write, size_append, extract_append, Nat.zero_sub]
    by_cases fits : bytes.size ≤ capacity - written.size
    · have whole : bytes.extract 0 (capacity - written.size) = bytes := by
        have longer := extract_zero_max_size (a := bytes) (i := capacity - written.size)
        rwa [Nat.max_eq_left fits] at longer
      simp only [if_pos fits, whole, size_append, append_assoc, Nat.sub_add_eq]
      by_cases all : more.size ≤ capacity - written.size - bytes.size
      · rw [if_pos (by omega), if_pos all]
      · rw [if_neg (by omega), if_neg all]
    · simp only [if_neg fits]
      rw [if_neg (by omega), Nat.sub_eq_zero_of_le (Nat.le_of_not_le fits), extract_same,
        append_empty]

theorem write_of_fits (sink : Sink) (capacity : sink.capacity = some limit)
    (fits : (sink.written ++ bytes).size ≤ limit) :
    sink.write bytes = ({ sink with written := sink.written ++ bytes }, none) := by
  rw [size_append] at fits
  simp only [write, capacity]
  rw [if_pos (by omega)]

/-- A write that does not fit leaves what does. -/
theorem write_of_beyond (sink : Sink) (capacity : sink.capacity = some limit)
    (fits : sink.written.size ≤ limit) (beyond : limit < (sink.written ++ bytes).size) :
    sink.write bytes =
      ({ sink with written := (sink.written ++ bytes).extract 0 limit }, some full) := by
  rw [size_append] at beyond
  have whole : sink.written.extract 0 limit = sink.written := by
    have longer :=
      extract_zero_max_size (a := sink.written) (i := limit)
    rwa [Nat.max_eq_left fits] at longer
  simp only [write, capacity]
  rw [if_neg (by omega), extract_append, whole, Nat.zero_sub]

end Sink

/-! ## Machines with a limit -/

namespace Machine

/-- The machine with another sink. -/
def withOutput (machine : Machine) (output : Sink) : Machine :=
  { machine with output := output }

/-- The machine with a sink that takes a limited number of bytes. -/
def limitTo (machine : Machine) (limit : Nat) : Machine :=
  machine.withOutput { machine.output with capacity := some limit }

/-- The bytes written so far. -/
def written (machine : Machine) : ByteArray :=
  machine.output.written

/-- Change the machine that a computation leaves, however it has ended. -/
def mapFinal {α : Type} (change : Machine → Machine) :
    EStateM.Result Signal Machine α → EStateM.Result Signal Machine α
  | .ok value machine => .ok value (change machine)
  | .error signal machine => .error signal (change machine)

@[simp]
theorem final_mapFinal {α : Type} (change : Machine → Machine)
    (result : EStateM.Result Signal Machine α) :
    final (mapFinal change result) = change (final result) := by
  cases result <;> rfl

/--
How a computation ends on a sink with a limit, judged by how it ends on one
that takes everything: alike if all that is written fits, otherwise with the
failure of the sink after the first bytes, as many as the limit says.
-/
structure Truncates {α : Type} (limit : Nat)
    (free limited : EStateM.Result Signal Machine α) : Prop where
  fits : (final free).written.size ≤ limit → limited = mapFinal (limitTo · limit) free
  full : limit < (final free).written.size → ∃ later, limited = .error (.stream Sink.full) later ∧
      later.written = (final free).written.extract 0 limit

/--
How a computation ends after its bytes were written: as it does if they all
went to the sink, or with the failure of the sink.
-/
def Fed {α : Type} (result : EStateM.Result Signal Machine α) :
    Sink × Option StreamError → EStateM.Result Signal Machine α → Prop
  | (sink, none), ended => ended = mapFinal (·.withOutput sink) result
  | (sink, some error), ended =>
    ∃ later : Machine, ended = .error (.stream error) (later.withOutput sink)

/-- What passes on a failure of the sink and does not use it is fed the same. -/
theorem Fed.through {α β : Type} {result ended : EStateM.Result Signal Machine α}
    {fed : Sink × Option StreamError} (holds : Fed result fed ended)
    (leave : EStateM.Result Signal Machine α → EStateM.Result Signal Machine β)
    (commutes : ∀ result sink, leave (mapFinal (·.withOutput sink) result) =
      mapFinal (·.withOutput sink) (leave result))
    (passes : ∀ error later sink, ∃ last : Machine,
      leave (.error (.stream error) (withOutput later sink)) =
        .error (.stream error) (last.withOutput sink)) : Fed (leave result) fed (leave ended) := by
  rcases fed with ⟨sink, _ | error⟩
  · rw [show ended = _ from holds, commutes]
    rfl
  · rcases holds with ⟨later, rfl⟩
    exact passes error later sink

end Machine

namespace Run

variable {α β : Type} {limit : Nat}

/--
All that the computation has to do with the sink is that it writes to it.  What
it writes and how it ends does not depend on the sink, unless a write fails.
-/
def Feeds (computation : Run α) : Prop :=
  ∀ machine : Machine, ∃ (added : ByteArray) (result : EStateM.Result Signal Machine α),
    (∀ error later, result ≠ .error (.stream error) later) ∧
    ∀ sink, Machine.Fed result (sink.write added) (computation (machine.withOutput sink))

section

variable {comp : Run α} (feeds : comp.Feeds) (machine : Machine)
  (capacity : machine.output.capacity = none)

include feeds machine capacity

/-- A limit that is not reached before cuts such a computation off. -/
theorem Feeds.truncates (fits : machine.written.size ≤ limit) :
    Machine.Truncates limit (comp machine) (comp (machine.limitTo limit)) := by
  rcases feeds machine with ⟨added, result, _, feeds⟩
  have all : machine.output.write added =
      ({ machine.output with written := machine.output.written ++ added }, none) := by
    simp only [Sink.write, capacity]
  have free := feeds machine.output
  have limited := feeds (machine.limitTo limit).output
  rw [all] at free
  rw [show comp machine = _ from free]
  constructor
  · intro fitting
    rw [Machine.final_mapFinal] at fitting
    rw [(machine.limitTo limit).output.write_of_fits rfl fitting] at limited
    refine Eq.trans limited ?_
    cases result <;> rfl
  · intro beyond
    rw [Machine.final_mapFinal] at beyond ⊢
    rw [(machine.limitTo limit).output.write_of_beyond rfl fits beyond] at limited
    rcases limited with ⟨later, ended⟩
    exact ⟨_, ended, rfl⟩

theorem Feeds.flushes_eq :
    (Machine.final (comp machine)).output.flushes = machine.output.flushes := by
  rcases feeds machine with ⟨added, result, _, feeds⟩
  have free := feeds machine.output
  simp only [Sink.write, capacity] at free
  rw [show comp machine = _ from free, Machine.final_mapFinal]
  rfl

end

/-! ## Steps of the machine -/

/-- The computation neither uses the sink nor depends on it. -/
def Silent (computation : Run α) : Prop :=
  ∀ machine output, computation (machine.withOutput output) =
    Machine.mapFinal (·.withOutput output) (computation machine)

theorem Silent.feeds {comp : Run α} (silent : comp.Silent)
    (flows : ∀ machine error later, comp machine ≠ .error (.stream error) later) : comp.Feeds := by
  intro machine
  refine ⟨.empty, comp machine, flows machine, fun sink => ?_⟩
  rw [Sink.write_empty]
  exact silent machine sink

/-- What feeds a sink twice in a row feeds it. -/
theorem Feeds.bind {comp : Run α} {next : α → Run β} (first : comp.Feeds)
    (second : ∀ value, (next value).Feeds) : (comp >>= next).Feeds := by
  intro machine
  rcases first machine with ⟨added, result, flows, feeds⟩
  simp only [Bind.bind, EStateM.bind]
  cases result with
  | error signal later =>
    refine ⟨added, .error signal later, ?_, fun sink => ?_⟩
    · rintro error last ⟨⟩
      exact flows error later rfl
    · have here := feeds sink
      generalize sink.write added = fed at here ⊢
      rcases fed with ⟨sink', _ | error⟩
      · rw [show comp _ = _ from here]
        rfl
      · rcases here with ⟨last, ended⟩
        rw [ended]
        exact ⟨last, rfl⟩
  | ok value later =>
    rcases second value later with ⟨more, last, flows', feeds'⟩
    refine ⟨added ++ more, last, flows', fun sink => ?_⟩
    have here := feeds sink
    rw [Sink.write_append]
    generalize sink.write added = fed at here ⊢
    rcases fed with ⟨sink', _ | error⟩
    · rw [show comp _ = _ from here]
      exact feeds' sink'
    · rcases here with ⟨stopped, ended⟩
      rw [ended]
      exact ⟨stopped, rfl⟩

theorem Feeds.within {comp : Run α} (feeds : comp.Feeds) (scope : ScopeId) :
    (Run.within scope comp).Feeds := by
  intro machine
  rcases feeds { machine with current := scope } with ⟨added, result, flows, feeds⟩
  have entered (sink : Sink) : Run.within scope comp (machine.withOutput sink) =
      Machine.mapFinal ({ · with current := machine.current })
        (comp (({ machine with current := scope } : Machine).withOutput sink)) := by
    unfold Run.within
    rw [show { machine.withOutput sink with current := scope } =
      ({ machine with current := scope } : Machine).withOutput sink from rfl]
    cases comp _ <;> rfl
  refine ⟨added, Machine.mapFinal ({ · with current := machine.current }) result, ?_,
    fun sink => ?_⟩
  · intro error later ended
    cases result with
    | ok value last => cases ended
    | error signal last =>
      cases ended
      exact flows error last rfl
  · rw [entered]
    apply (feeds sink).through
    · intro result sink
      cases result <;> rfl
    · intro error later sink
      exact ⟨{ later with current := machine.current }, rfl⟩

/-- A call stops returns, but not the failure of the sink. -/
theorem Feeds.finishCall {body : Run Unit} (feeds : body.Feeds) (closure : Closure) :
    (Run.finishCall closure body).Feeds := by
  intro machine
  rcases feeds machine with ⟨added, result, flows, feeds⟩
  refine ⟨added, Run.finishCall closure (fun _ => result) machine, ?_, fun sink => ?_⟩
  · intro error later
    cases result with
    | ok value last => rintro ⟨⟩
    | error signal last =>
      cases signal with
      | stream error' => exact absurd rfl (flows error' last)
      | _ => rintro ⟨⟩
  · apply (feeds sink).through fun result => Run.finishCall closure (fun _ => result) machine
    · intro result sink
      cases result with
      | ok value later => rfl
      | error signal later => cases signal <;> rfl
    · intro error later sink
      exact ⟨later, rfl⟩

theorem feeds_write (text : String) : (write text).Feeds := by
  intro machine
  refine ⟨text.toUTF8, .ok () machine, nofun, fun sink => ?_⟩
  unfold write Sink.writeText
  rw [show (machine.withOutput sink).output = sink from rfl]
  rcases sink.write text.toUTF8 with ⟨sink', _ | error⟩
  · rfl
  · exact ⟨machine, rfl⟩

theorem feeds_readVariable (id : ExprId) (name : Token) : (readVariable id name).Feeds := by
  refine Silent.feeds (fun machine output => ?_) fun machine error later => ?_
  · simp only [readVariable_eq, readIn]
    rw [show (machine.withOutput output).target? id name.lexeme =
      machine.target? id name.lexeme from rfl]
    rw [show (machine.withOutput output).store = machine.store from rfl]
    cases (machine.target? id name.lexeme).bind (machine.store.getLocal? · name.lexeme) <;> rfl
  · simp only [readVariable_eq, readIn]
    split <;> rintro ⟨⟩

theorem feeds_writeVariable (id : ExprId) (name : Token) (value : Value) :
    (writeVariable id name value).Feeds := by
  refine Silent.feeds (fun machine output => ?_) fun machine error later => ?_
  · simp only [writeVariable_eq, writeIn]
    rw [show (machine.withOutput output).target? id name.lexeme =
      machine.target? id name.lexeme from rfl]
    cases machine.target? id name.lexeme <;> rfl
  · simp only [writeVariable_eq, writeIn]
    split <;> rintro ⟨⟩

end Run

/-! ## Evaluation -/

/-- Computations only write to the sink. -/
def Conduct.feeding : Conduct where
  Expression := Run.Feeds
  Statement := Run.Feeds

open Run in
/-- All computations feed the sink. -/
theorem Conduct.lawful_feeding : feeding.Lawful .recorded where
  pure _ := Silent.feeds (fun _ _ => rfl) nofun
  bind first second := first.bind second
  raise _ _ := Silent.feeds (fun _ _ => rfl) nofun
  exhausted := Silent.feeds (fun _ _ => rfl) nofun
  read id name := feeds_readVariable id name
  write id name value := feeds_writeVariable id name value
  currentScope := Silent.feeds (fun _ _ => rfl) nofun
  newScope _ _ := Silent.feeds (fun _ _ => rfl) nofun
  freshIdentity := Silent.feeds (fun _ _ => rfl) nofun
  newObject _ := Silent.feeds (fun _ _ => rfl) nofun
  field? _ _ := Silent.feeds (fun _ _ => rfl) nofun
  setField _ _ _ := Silent.feeds (fun _ _ => rfl) nofun
  readClock := Silent.feeds (fun _ _ => rfl) nofun
  finishCall body closure := body.finishCall closure
  statement := id
  andThen first second := first.bind second
  within body scope := body.within scope
  defineHere _ _ := Silent.feeds (fun _ _ => rfl) nofun
  print text := feeds_write (text ++ "\n")
  returned _ := Silent.feeds (fun _ _ => rfl) nofun

theorem Run.feeds_executeProgram (fuel : Nat) (prog : Program) :
    (executeProgram .recorded fuel prog).Feeds := by
  have lawful := Conduct.lawful_feeding
  induction prog with
  | nil => exact lawful.pure ()
  | cons stmt stmts ih => exact ((lawful.kept fuel).execute stmt).bind fun _ => ih

/-! ## Runs -/

namespace Machine

/-- How a run ends and what it has written, if a limit cuts its output off. -/
def Cut (limit : Nat) (free limited : Outcome × Machine) : Prop :=
  (free.2.written.size ≤ limit → limited.1 = free.1 ∧ limited.2.written = free.2.written) ∧
  (limit < free.2.written.size → limited.1 = .failed (.stream Sink.full) ∧
      limited.2.written = free.2.written.extract 0 limit)

/-- The outcome of a run whose flushes do not fail. -/
def ending : EStateM.Result Signal Machine Unit → Outcome
  | .ok () _ => .completed
  | .error (.fault fault token) _ => .failed (.runtime (fault.report token))
  | .error (.stream error) _ => .failed (.stream error)
  | .error (.returned _) _ => .completed
  | .error .exhausted _ => .exhausted

theorem conclude_eq {result : EStateM.Result Signal Machine Unit}
    (flushes : (final result).output.flushes = none) :
    conclude result = (ending result, final result) := by
  have flushed := flushThen_eq flushes
  cases result with
  | ok value machine => exact flushed _
  | error signal machine =>
    cases signal with
    | fault fault token | returned value => exact flushed _
    | stream error => rfl
    | exhausted => rfl

theorem ending_mapFinal (change : Machine → Machine) (result : EStateM.Result Signal Machine Unit) :
    ending (mapFinal change result) = ending result := by
  cases result with
  | ok value machine => rfl
  | error signal machine => cases signal <;> rfl

theorem Truncates.conclude {limit : Nat} {free limited : EStateM.Result Signal Machine Unit}
    (truncates : Truncates limit free limited) (flushes : (final free).output.flushes = none) :
    Cut limit (conclude free) (conclude limited) := by
  rw [conclude_eq flushes]
  constructor
  · intro fits
    have kept : (final (mapFinal (limitTo · limit) free)).output.flushes = none := by
      rw [final_mapFinal]
      exact flushes
    rw [truncates.fits fits, conclude_eq kept, ending_mapFinal, final_mapFinal]
    exact ⟨rfl, rfl⟩
  · intro beyond
    rcases truncates.full beyond with ⟨later, rfl, kept⟩
    exact ⟨rfl, kept⟩

theorem cut_runProgram (fuel limit : Nat) (prog : Program)
    (machine : Machine) (capacity : machine.output.capacity = none)
    (flushes : machine.output.flushes = none) (fits : machine.written.size ≤ limit) :
    Cut limit (machine.runProgramWith .recorded fuel prog)
      ((machine.limitTo limit).runProgramWith .recorded fuel prog) := by
  simp only [runProgramWith, analyse]
  cases (Scoping.analyse prog).errors with
  | nil =>
    have feeds := Run.feeds_executeProgram fuel prog
    simp only [interpretWith_eq_conclude]
    apply (feeds.truncates (machine.recordDistances _) capacity fits).conclude
    exact (feeds.flushes_eq (machine.recordDistances _) capacity).trans flushes
  | cons error errors =>
    exact ⟨fun _ => ⟨rfl, rfl⟩, fun beyond => absurd fits (Nat.not_le_of_lt beyond)⟩

end Machine

/--
A limit on the output can only cut a run off.  If all that a run writes fits,
the run with the limit ends in the same way and writes the same; otherwise it
writes the first bytes, as many as the limit says, and ends with the failure of
the sink.  On the way there nothing stops this failure and nothing is written
after it: on every machine whose output still fits, each expression, each
statement and each call ends as it does without the limit or fails in this way.
-/
theorem sink_limit_only_truncates (fuel limit : Nat) (clock : Nat → Float) (text : String) :
    (let free := run fuel clock .unlimited text
    let limited := run fuel clock (.limited (some limit) none) text
    (free.2.written.size ≤ limit → limited.1 = free.1 ∧ limited.2.written = free.2.written) ∧
    (limit < free.2.written.size → limited.1 = .failed (.stream Sink.full) ∧
        limited.2.written = free.2.written.extract 0 limit)) ∧
    ∀ machine : Machine, machine.output.capacity = none → machine.written.size ≤ limit →
        (∀ value, Machine.Truncates limit (Run.evaluate fuel value machine)
          (Run.evaluate fuel value (machine.limitTo limit))) ∧
        (∀ statement, Machine.Truncates limit (Run.execute fuel statement machine)
          (Run.execute fuel statement (machine.limitTo limit))) ∧
        ∀ callee arguments, Machine.Truncates limit
          (Run.invokeWith .recorded fuel callee arguments machine)
          (Run.invokeWith .recorded fuel callee arguments (machine.limitTo limit)) := by
  have kept := Conduct.lawful_feeding.kept fuel
  constructor
  · simp only [run, runWith]
    cases (readProgram text 0).1 with
    | error failure =>
      exact ⟨fun _ => ⟨rfl, rfl⟩, fun beyond => absurd beyond (Nat.not_lt_zero _)⟩
    | ok program =>
      exact Machine.cut_runProgram fuel limit program
        (.initial clock .unlimited) rfl rfl (Nat.zero_le limit)
  · intro machine capacity fits
    refine ⟨?_, ?_, ?_⟩
    · intro value
      exact (kept.evaluate value).truncates machine capacity fits
    · intro statement
      exact (kept.execute statement).truncates machine capacity fits
    · intro callee arguments
      exact (kept.invoke callee arguments).truncates machine capacity fits

/-- A limit that is met in the loop of an initialiser ends the whole run. -/
theorem limit_ends_loop_of_initializer :
    let text :=
      "class A \x7b init() \x7b while (true) \x7b print \"ab\"; return; \x7d " ++
      "\x7d \x7d A(); print \"cd\";"
    let free := run 30 (fun _ => 0) .unlimited text
    let limited := run 30 (fun _ => 0) (.limited (some 2) none) text
    let roomy := run 30 (fun _ => 0) (.limited (some 6) none) text
    free.2.written = "ab\ncd\n".toUTF8 ∧
      (limited.1 = .failed (.stream Sink.full) ∧ limited.2.written = free.2.written.extract 0 2) ∧
      roomy.1 = free.1 ∧ roomy.2.written = free.2.written := by
  intro text
  have cut (limit : Nat) :=
    (sink_limit_only_truncates 30 limit (fun _ => 0) text).1
  have written : (run 30 (fun _ => 0) .unlimited text).2.written = "ab\ncd\n".toUTF8 := by
    decide +kernel
  generalize run 30 (fun _ => 0) .unlimited text = free at cut written
  have size : free.2.written.size = 6 := by
    rw [written]
    decide
  exact ⟨written, (cut 2).2 (by omega), (cut 6).1 (by omega)⟩

end Treewalk
