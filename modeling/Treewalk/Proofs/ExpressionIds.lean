import Treewalk.Proofs.Frame
import Treewalk.Proofs.ScopeSafety

/-!
# Expression ids are never shared

Every occurrence of a name in a program has an id of its own.  The next text of
a session starts where the ids of the last one ended, so what is recorded for
the ids of one text is not touched by any other.
-/

namespace Treewalk

open Scoping

variable {session : Session}

/-! ## Sessions -/

namespace Session

variable {access : Access}

/--
One text adds what was found about it to what is recorded, and that has ids of
its own; nothing is found in a text that is not a program.
-/
theorem ledger_evalWith (framed : access.Framed) (fuel : Nat) (text : String) (session : Session) :
    ∃ (findings : Findings) (property : Ledger → Prop), Findings.Resolve session.nextId
          (session.evalWith access fuel text).2.nextId findings property ∧
        (session.evalWith access fuel text).2.ledger = session.ledger.recordAll findings.distances
            (session.evalWith access fuel text).2.nextId := by
  unfold evalWith
  cases read : readProgram text session.nextId with
  | mk result nextId =>
    cases result with
    | error failure => exact ⟨.none, fun _ => True, Findings.resolve_none (fun _ => trivial), rfl⟩
    | ok prog =>
      refine ⟨analyse prog, _, resolve_of_readProgram read, ?_⟩
      have distances : (session.machine.runProgramWith access fuel prog).2.distances =
          session.machine.distances.recordAll (analyse prog).distances := by
        simp only [Machine.runProgramWith, Machine.analyse]
        cases (analyse prog).errors with
        | nil =>
          exact (Machine.frames_interpretWith framed fuel prog
            (session.machine.recordDistances (analyse prog).distances)).distances
        | cons error errors => rfl
      simp only [ledger, Ledger.recordAll, distances]

/-- A session never takes ids back. -/
theorem nextId_le_evalWith (access : Access) (fuel : Nat) (text : String) (session : Session) :
    session.nextId ≤ (session.evalWith access fuel text).2.nextId := by
  have increasing := readProgram_firstId_le text session.nextId
  unfold evalWith
  cases read : readProgram text session.nextId with
  | mk result nextId =>
    rw [read] at increasing
    cases result <;> exact increasing

section

variable (framed : access.Framed) (fuel : Nat)

include framed fuel

/-- A text leaves what is recorded for the ids in use. -/
theorem extends_evalWith (text : String) (session : Session) :
    session.ledger.Extends (session.evalWith access fuel text).2.ledger := by
  rcases ledger_evalWith framed fuel text session with ⟨findings, property, resolve, recorded⟩
  rw [recorded]
  exact Ledger.extends_recordAll (nextId_le_evalWith access fuel text session) resolve

/-- Ids of a text are fresh, and so are those after it. -/
theorem fresh_evalWith (text : String) (fresh : session.ledger.Fresh) :
    (session.evalWith access fuel text).2.ledger.Fresh := by
  rcases ledger_evalWith framed fuel text session with ⟨findings, property, resolve, recorded⟩
  rw [recorded]
  exact fresh.recordAll (nextId_le_evalWith access fuel text session) resolve

/-- Texts, whatever comes of them, leave what is recorded for the ids in use. -/
theorem extends_evalAllWith (texts : List String) (session : Session) :
    session.ledger.Extends (session.evalAllWith access fuel texts).2.ledger := by
  induction texts generalizing session with
  | nil => exact .refl _
  | cons text texts ih =>
    have first := extends_evalWith framed fuel text session
    have others := ih (session.evalWith access fuel text).2
    exact ⟨Nat.le_trans first.bound_le others.bound_le, fun id below =>
      (others.same id (Nat.lt_of_lt_of_le below first.bound_le)).trans (first.same id below)⟩

theorem fresh_evalAllWith (texts : List String) (fresh : session.ledger.Fresh) :
    (session.evalAllWith access fuel texts).2.ledger.Fresh := by
  induction texts generalizing session with
  | nil => exact fresh
  | cons text texts ih => exact ih (fresh_evalWith framed fuel text fresh)

end

end Session

/--
No two occurrences share an id.  Reading tokens never takes ids back, whether
it succeeds or not, and the occurrences of a program that is read have pairwise
distinct ids, none handed out before and none that is still to be handed out.
So in every session, whatever came of the texts before and comes of those
after, nothing is recorded for the ids of a text until it is run, and what is
recorded for them then stays.
-/
theorem expression_ids_are_never_shared :
    (∀ (tokens : List Token) (firstId : ExprId),
      let parsed := parse (.ofList tokens) firstId
      firstId ≤ parsed.nextId ∧ ∀ program, parsed.result = .ok program →
          (Program.ids program).Nodup ∧ ∀ id ∈ Program.ids program,
              firstId ≤ id ∧ id < parsed.nextId) ∧
    ∀ (fuel : Nat) (clock : Nat → Float) (output : Sink)
      (earlier : List String) (text : String) (later : List String),
      let before := ((Session.start clock output).evalAll fuel earlier).2
      let after := (before.eval fuel text).2
      let last := (after.evalAll fuel later).2
      before.nextId ≤ after.nextId ∧ after.nextId ≤ last.nextId ∧
        ∀ id, before.nextId ≤ id → id < after.nextId → before.machine.distances.find? id = none ∧
            last.machine.distances.find? id =
              after.machine.distances.find? id := by
  refine ⟨?_, ?_⟩
  · intro tokens firstId parsed
    refine ⟨Grammar.firstId_le_nextId _ firstId, ?_⟩
    intro program accepted
    have minted := (Grammar.derives_of_parse_ok accepted).minted
    exact ⟨minted.distinct, minted.within⟩
  · intro fuel clock output earlier text later before after last
    have framed := Access.framed_recorded
    have fresh : before.ledger.Fresh :=
      Session.fresh_evalAllWith framed fuel earlier Ledger.fresh_empty
    have kept : after.ledger.Extends last.ledger :=
      Session.extends_evalAllWith framed fuel later after
    refine ⟨Session.nextId_le_evalWith .recorded fuel text before, kept.bound_le, ?_⟩
    intro id above below
    exact ⟨fresh id above, kept.same id below⟩

/--
An assigned name has dropped its first id.  A text that is no program uses ids
up, and the closure of the text before it keeps its distance.
-/
theorem dropped_ids_are_not_used_again :
    let name : Token := ⟨.identifier, "a", 1⟩
    let tokens : List Token :=
      [name, ⟨.punctuator .equal, "=", 1⟩, name, ⟨.punctuator .semicolon, ";", 1⟩, Scan.endToken 1]
    let program : Program := [.expression (.assign 2 name (.name 1 name))]
    let text := "\x7b var a; fun f() \x7b a = a; \x7d \x7d"
    let before := ((Session.start (fun _ => 0) .unlimited).evalAll 20 []).2
    let after := (before.eval 20 text).2
    let last := (after.evalAll 20 ["b = c", text]).2
    ((parse (.ofList tokens) 0).result = .ok program ∧ (parse (.ofList tokens) 0).nextId = 3 ∧
      Program.ids program = [1, 2] ∧ (Program.ids program).Nodup) ∧
      before.nextId ≤ 2 ∧ 2 < after.nextId ∧ after.machine.distances.find? 2 = some 1 ∧
      last.machine.distances.find? 2 = after.machine.distances.find? 2 ∧ last.nextId = 9 := by
  intro name tokens program text
  have read : (parse (.ofList tokens) 0).result = .ok program ∧
      (parse (.ofList tokens) 0).nextId = 3 := by
    simp only [parse, Grammar.program, Function.id_def]
    exact ⟨by cbv, by cbv⟩
  have distinct :=
    (expression_ids_are_never_shared.1 tokens 0).2 program read.1
  have above : ((Session.start (fun _ => 0) .unlimited).evalAll 20
      []).2.nextId ≤ 2 := by decide +kernel
  have below : 2 < (((Session.start (fun _ => 0) .unlimited).evalAll 20
      []).2.eval 20 text).2.nextId := by decide +kernel
  have kept := (expression_ids_are_never_shared.2 20 (fun _ => 0) .unlimited []
    text ["b = c", text]).2.2 2 above below
  refine ⟨⟨read.1, read.2, rfl, distinct.1⟩, above, below, ?_, kept.2, ?_⟩
  · decide +kernel
  · decide +kernel

end Treewalk
