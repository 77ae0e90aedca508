import Treewalk.Proofs.SessionAgreement

/-!
# Rejected texts leave no trace

A session hands out ids to all texts and records the distances of all that can
be read, also of those that it then rejects.  A session and the same session
without its rejected texts have other ids and other distances recorded, but
their machines correspond: occurrences are looked up by their own ids only.
-/

namespace Treewalk

open Scoping

/-! ## Which texts are rejected -/

/-- The text was turned down before any of it was run. -/
def Outcome.isRejection : Outcome → Bool
  | failed (.grammar _) => true
  | failed (.scoping _) => true
  | _ => false

namespace Machine

theorem isRejection_flushThen (machine : Machine) {outcome : Outcome}
    (runs : outcome.isRejection = false) : (machine.flushThen outcome).1.isRejection = false := by
  unfold flushThen Run.flush
  simp only
  cases machine.output.flush.2 with
  | none => exact runs
  | some error => rfl

/-- A program that is run is not rejected, however it ends. -/
theorem isRejection_conclude (result : EStateM.Result Signal Machine Unit) :
    (conclude result).1.isRejection = false := by
  cases result with
  | ok value machine => exact machine.isRejection_flushThen rfl
  | error signal machine =>
    cases signal with
    | fault fault token | returned value => exact machine.isRejection_flushThen rfl
    | stream error => rfl
    | exhausted => rfl

end Machine

variable {text : String} {session session' : Session} {template : Program}

theorem readProgram_error {firstId nextId : ExprId} {failure : Failure}
    (read : readProgram text firstId = (.error failure, nextId)) :
    ∃ diagnostics, failure = .grammar diagnostics := by
  have result := congrArg Prod.fst read
  simp only [readProgram, accept] at result
  split at result
  · split at result
    · cases result
    · cases result
      exact ⟨_, rfl⟩
  · cases result
    exact ⟨_, rfl⟩

namespace Session

/-- The distances in a text, if it can be read. -/
def distancesOf (text : String) (firstId : ExprId) : List (ExprId × Nat) :=
  match (readProgram text firstId).1 with
  | .ok program => (analyse program).distances
  | .error _ => []

/-- What comes of a text that is not accepted, and of one that is. -/
theorem eval_cases (session : Session) (fuel : Nat) (text : String) :
    ((session.eval fuel text).1.isRejection = true ∧ (session.eval fuel text).2 =
        ⟨session.machine.recordDistances (distancesOf text session.nextId),
          (readProgram text session.nextId).2⟩) ∨
    ((session.eval fuel text).1.isRejection = false ∧ ∃ prog nextId,
        readProgram text session.nextId = (.ok prog, nextId) ∧ (analyse prog).errors = []) := by
  unfold Session.eval Session.evalWith distancesOf
  cases read : readProgram text session.nextId with
  | mk result nextId =>
    cases result with
    | error failure =>
      rcases readProgram_error read with ⟨diagnostics, rfl⟩
      exact .inl ⟨rfl, rfl⟩
    | ok prog =>
      cases errors : (analyse prog).errors with
      | nil =>
        refine .inr ⟨?_, prog, nextId, rfl, errors⟩
        simp only [Machine.runProgramWith, Machine.analyse, errors,
          Machine.interpretWith_eq_conclude]
        exact Machine.isRejection_conclude _
      | cons error others =>
        refine .inl ⟨?_, ?_⟩
        · simp only [Machine.runProgramWith, Machine.analyse, errors]
          rfl
        · simp only [Machine.runProgramWith, Machine.analyse, errors]

end Session

/-! ## Programs that differ in their ids -/

/-- Distances of shifted ids are found as those of the ids themselves. -/
theorem Distances.find?_recordAll_shift {distances others : Distances} {id : ExprId} {shift : Nat}
    (same : distances.find? (id + shift) = others.find? id) (found : List (ExprId × Nat)) :
    (distances.recordAll (found.map fun (id, dist) =>
        (id + shift, dist))).find? (id + shift) =
      (others.recordAll found).find? id := by
  induction found generalizing distances others with
  | nil => exact same
  | cons entry found ih =>
    refine @ih (distances.record (entry.1 + shift) entry.2) (others.record entry.1 entry.2) ?_
    simp [find?_record, same]

/-- Shifted ids find the distances of the template. -/
theorem Ledger.Fresh.find?_recordAll {ledger : Ledger} (fresh : ledger.Fresh) (id : ExprId) :
    (ledger.distances.recordAll (analyse (Stmt.relabelAll .identity
        ledger.bound template)).distances).find? (id + ledger.bound) =
      (Distances.empty.recordAll (analyse template).distances).find? id := by
  rw [analyse_relabel (fun _ => rfl)]
  refine Distances.find?_recordAll_shift ?_ _
  rw [fresh _ (Nat.le_add_left _ _), Distances.find?_empty]

/-- A program stays alike to itself wherever its ids start. -/
theorem alike_renumbered {count : ExprId} (read : readProgram text 0 = (.ok template, count))
    (clean : (analyse template).errors = []) {ledger ledger' : Ledger} (fresh : ledger.Fresh)
    (fresh' : ledger'.Fresh) : let prog := Stmt.relabelAll .identity ledger.bound template
    let prog' := Stmt.relabelAll .identity ledger'.bound template
    Stmt.AllAlike Eq ((ledger.recordAll (analyse prog).distances (count + ledger.bound)).pairing
        (ledger'.recordAll (analyse prog').distances (count + ledger'.bound)))
      [] prog prog' := by
  intro prog prog'
  have resolve := resolve_of_readProgram read
  have resolved := Ledger.fresh_empty.resolved resolve clean
  have keeps : Relabelling.identity.KeepsLexemes := fun _ => rfl
  have alike := (alike_relabelled Eq read clean resolved keeps (fun _ => rfl)).1
  rw [Stmt.relabelAll_identity] at alike
  refine alike.shift ?_
  refine ⟨?_, rfl⟩
  rintro id id' place place' ⟨⟨known, recorded⟩, known', recorded'⟩
  exact ⟨⟨Nat.add_lt_add_right known _, (fresh.find?_recordAll id).trans recorded⟩,
    Nat.add_lt_add_right known' _, (fresh'.find?_recordAll id').trans recorded'⟩

/-! ## Machines after a run -/

section

variable {same : Token → Token → Prop} {pairing : Pairing} {world : World}
  {machine machine' : Machine}

theorem Machine.current_flushThen (machine : Machine) (outcome : Outcome) :
    (machine.flushThen outcome).2.current = machine.current := by
  unfold flushThen Run.flush
  simp only
  cases machine.output.flush.2 <;> rfl

/-- Flushing keeps machines alike. -/
theorem Machine.Alike.flushThen (alike : machine.Alike same pairing world machine')
    (outcome outcome' : Outcome) :
    (machine.flushThen outcome).2.Alike same pairing world (machine'.flushThen outcome').2 := by
  unfold Machine.flushThen Run.flush
  simp only [alike.output]
  cases machine.output.flush.2 with
  | none | some error => exact { alike with output := rfl }

/-- Runs that end alike leave machines that correspond. -/
theorem Similar.conclude_alike {post : World → Unit → Unit → Prop}
    {result result' : EStateM.Result Signal Machine Unit}
    (similar : Similar same pairing world machine machine' post result result')
    {chain : List Renaming} (found : world.Hosts machine machine' chain) :
    ∃ later : World, (Machine.conclude result).2.Alike same pairing later
        (Machine.conclude result').2 ∧
      later.Hosts (Machine.conclude result).2 (Machine.conclude result').2 chain := by
  unfold World.Hosts
  cases similar with
  | ok advances holds =>
    refine ⟨_, advances.alike.flushThen _ _, ?_⟩
    rw [Machine.conclude, Machine.conclude, Machine.current_flushThen, Machine.current_flushThen]
    exact advances.found found
  | @error later _ _ _ _ advances ends =>
    refine ⟨later, ?_⟩
    cases ends with
    | fault fault tokens | returned values =>
      refine ⟨advances.alike.flushThen _ _, ?_⟩
      rw [Machine.conclude, Machine.conclude, Machine.current_flushThen, Machine.current_flushThen]
      exact advances.found found
    | stream error | exhausted => exact ⟨advances.alike, advances.found found⟩

end

/-! ## Sessions that correspond -/

namespace Session

/-- Sessions that differ at most in their ids and what is recorded for them. -/
structure Alike (session session' : Session) : Prop where
  coherent : session.Coherent
  coherent' : session'.Coherent
  machines : ∃ world : World, Machine.Alike Eq (session.ledger.pairing session'.ledger) world
      session.machine session'.machine ∧ world.Hosts session.machine session'.machine []

theorem alike_start (clock : Nat → Float) (output : Sink) :
    (start clock output).Alike (start clock output) where
  coherent := coherent_start clock output
  coherent' := coherent_start clock output
  machines := ⟨[(0, [])], Machine.alike_initial Eq _ clock output
    (Ledger.recorded_pairing _ _), rfl⟩

theorem Coherent.ledger_eval (coherent : session.Coherent) {prog : Program} {nextId : ExprId}
    (read : readProgram text session.nextId = (.ok prog, nextId)) (fuel : Nat) :
    (session.eval fuel text).2.ledger =
      session.ledger.recordAll (analyse prog).distances nextId := by
  have increasing := readProgram_firstId_le text session.nextId
  rw [read] at increasing
  have later := (coherent.machine.runProgram coherent.fresh .recorded fuel
    increasing (resolve_of_readProgram read)).2
  unfold Session.eval Session.evalWith
  rw [read]
  simp only [ledger, later.distances]
  rfl

theorem extends_distancesOf (session : Session) (text : String) : session.ledger.Extends
      (session.ledger.recordAll (distancesOf text session.nextId)
        (readProgram text session.nextId).2) := by
  have increasing := readProgram_firstId_le text session.nextId
  unfold distancesOf
  cases read : readProgram text session.nextId with
  | mk result nextId =>
    rw [read] at increasing
    cases result with
    | error failure => exact ⟨increasing, fun _ _ => rfl⟩
    | ok prog => exact Ledger.extends_recordAll increasing (resolve_of_readProgram read)

namespace Alike

section

variable (alike : session.Alike session')

include alike

theorem output_eq : session'.machine.output = session.machine.output := by
  rcases alike.machines with ⟨_, machines, _⟩
  exact machines.output

/-- A rejected text leaves a session that corresponds to the same sessions. -/
theorem eval_rejected {fuel : Nat} (rejected : (session.eval fuel text).1.isRejection = true) :
    (session.eval fuel text).2.Alike session' := by
  have coherent := (alike.coherent.eval .recorded fuel text).2
  rcases session.eval_cases fuel text with ⟨_, ended⟩ | ⟨kept, _⟩
  · refine ⟨coherent, alike.coherent', ?_⟩
    rcases alike.machines with ⟨world, machines, found⟩
    have extended := session.extends_distancesOf text
    rw [ended]
    exact ⟨world, machines.extend (extended.pairing (.refl session'.ledger))
      (Ledger.recorded_pairing _ _), found⟩
  · rw [rejected] at kept
    cases kept

/-- An accepted text comes to the same end in sessions that correspond. -/
theorem eval_kept {fuel : Nat} (kept : (session.eval fuel text).1.isRejection = false) :
    (session'.eval fuel text).1 = (session.eval fuel text).1 ∧
      (session.eval fuel text).2.Alike (session'.eval fuel text).2 := by
  rcases session.eval_cases fuel text with ⟨rejected, _⟩ | ⟨_, prog, nextId, read, clean⟩
  · rw [kept] at rejected
    cases rejected
  · rcases readProgram_template read with ⟨template, count, base, rfl, rfl⟩
    have read' := readProgram_resume base session'.nextId
    have template_clean : (analyse template).errors = [] := by
      rw [analyse_relabel (fun _ => rfl)] at clean
      exact Findings.errors_relabel.mp clean
    have clean' : (analyse (Stmt.relabelAll .identity session'.nextId template)).errors = [] := by
      rw [analyse_relabel (fun _ => rfl)]
      exact Findings.errors_relabel.mpr template_clean
    have programs := alike_renumbered base template_clean alike.coherent.fresh alike.coherent'.fresh
    -- Both machines record the distances of the text, and run its program.
    have extended : session.ledger.Extends _ := Ledger.extends_recordAll
      (Nat.le_add_left _ _) (resolve_of_readProgram read)
    have extended' : session'.ledger.Extends _ := Ledger.extends_recordAll
      (Nat.le_add_left _ _) (resolve_of_readProgram read')
    rcases alike.machines with ⟨world, machines, found⟩
    have recorded := machines.extend (extended.pairing extended') (Ledger.recorded_pairing _ _)
    have similar := similar_program recorded found fuel programs
    have unseen : RuntimeError.Unseen id Eq := by
      rintro fault token _ rfl
      rfl
    have ended := (similar.conclude unseen).1
    rw [Outcome.mapRuntime_id, Outcome.mapRuntime_id] at ended
    rcases similar.conclude_alike found with ⟨later, last, outermost⟩
    have evaluated := alike.coherent.eval_eq_conclude read clean fuel
    have evaluated' := alike.coherent'.eval_eq_conclude read' clean' fuel
    refine ⟨?_, (alike.coherent.eval .recorded fuel text).2,
      (alike.coherent'.eval .recorded fuel text).2, later, ?_, ?_⟩
    · rw [evaluated, evaluated']
      exact ended
    · rw [alike.coherent.ledger_eval read fuel,
        alike.coherent'.ledger_eval read' fuel, evaluated, evaluated']
      exact last
    · rw [evaluated, evaluated']
      exact outermost

end

end Alike

/-! ## Transcripts -/

/-- A text, what came of it, and the output before and after it. -/
structure Exchange where
  text : String
  outcome : Outcome
  before : Sink
  after : Sink

/-- The text was not rejected. -/
def Exchange.isKept (exchange : Exchange) : Bool :=
  !exchange.outcome.isRejection

/-- What happens when texts are run one after the other. -/
def transcript (fuel : Nat) : List String → Session → List Exchange
  | [], _ => []
  | text :: texts, session =>
    let ended := session.eval fuel text
    ⟨text, ended.1, session.machine.output, ended.2.machine.output⟩ :: transcript fuel texts ended.2

/-- Running only the texts that are not rejected goes as it went with them. -/
theorem Alike.transcript_kept (alike : session.Alike session') (fuel : Nat) (texts : List String) :
    let kept := (session.transcript fuel texts).filter Exchange.isKept
    session'.transcript fuel (kept.map Exchange.text) = kept := by
  induction texts generalizing session session' with
  | nil => rfl
  | cons text texts ih =>
    by_cases rejected : (session.eval fuel text).1.isRejection = true
    · simp only [transcript, List.filter_cons, Exchange.isKept, rejected,
        Bool.not_true, Bool.false_eq_true, if_false]
      exact ih (alike.eval_rejected rejected)
    · rw [Bool.not_eq_true] at rejected
      rcases alike.eval_kept rejected with ⟨outcome, later⟩
      have rest := ih later
      simp only [transcript, List.filter_cons, Exchange.isKept, rejected,
        Bool.not_false, if_true, List.map_cons, outcome, alike.output_eq, later.output_eq]
      exact congrArg _ rest

end Session

/--
Rejected texts leave no trace.  A text that a session rejects, because it is no
program or breaks the scope rules, changes nothing of the machine but recorded
distances: no scope, no instance and no output.  And from the transcript of any
session, one gets the transcript of the session that is given only the texts
that were not rejected by deleting the others: all outcomes are the same, and
the output is before and after each text what it was.
-/
theorem rejected_texts_leave_no_trace (fuel : Nat) :
    (∀ (session : Session) (text : String), (session.eval fuel text).1.isRejection = true →
        ∃ distances, (session.eval fuel text).2.machine =
          { session.machine with distances := distances }) ∧
    ∀ (clock : Nat → Float) (output : Sink) (texts : List String),
      let session := Session.start clock output
      let kept :=
        (session.transcript fuel texts).filter Session.Exchange.isKept
      session.transcript fuel (kept.map Session.Exchange.text) = kept := by
  constructor
  · intro session text rejected
    rcases session.eval_cases fuel text with ⟨_, ended⟩ | ⟨kept, _⟩
    · rw [ended]
      exact ⟨_, rfl⟩
    · rw [rejected] at kept
      cases kept
  · intro clock output texts
    exact (Session.alike_start clock output).transcript_kept fuel texts

/-- A text that returns from no function, and one that is no program. -/
theorem two_of_four_texts_leave_no_trace :
    let declares := "fun f() \x7b return \"x\"; \x7d"
    let returns := "\x7b var b; print b; return b; \x7d"
    let session := Session.start (fun _ => 0) .unlimited
    let transcript := session.transcript 20 [declares, returns, "print (;", "print f();"]
    let kept := transcript.filter Session.Exchange.isKept
    transcript.map (fun exchange => exchange.outcome.isRejection) = [false, true, true, false] ∧
      kept.map Session.Exchange.text = [declares, "print f();"] ∧
      session.transcript 20 (kept.map Session.Exchange.text) = kept ∧
      (session.eval 20 returns).1.isRejection = true ∧
      ∃ distances, (session.eval 20 returns).2.machine =
        { session.machine with distances := distances } := by
  intro declares returns
  have rejections : ((Session.start (fun _ => 0) .unlimited).transcript 20
      [declares, returns, "print (;", "print f();"]).map
        (·.outcome.isRejection) = [false, true, true, false] := by
    decide +kernel
  have texts : (((Session.start (fun _ => 0) .unlimited).transcript 20
      [declares, returns, "print (;", "print f();"]).filter
        Session.Exchange.isKept).map Session.Exchange.text = [declares, "print f();"] := by
    decide +kernel
  have rejected : ((Session.start (fun _ => 0) .unlimited).eval 20
      returns).1.isRejection = true := by
    decide +kernel
  have untraced := rejected_texts_leave_no_trace 20
  exact ⟨rejections, texts, untraced.2 _ _ _, rejected, untraced.1 _ _ rejected⟩

end Treewalk
