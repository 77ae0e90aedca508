import Treewalk.Proofs.RejectedTexts
import Treewalk.Proofs.SinkLimit

/-!
# What a prompt says

A prompt is a session that asks for each line.  A sink that never fails does
not show in what is computed, so a line prints the same whatever was written
before it.  The failures of lines go to the other sink and end nothing.
-/

namespace Treewalk

open ByteArray

/-! ## Sessions -/

/-- A sink that never fails, with what it holds. -/
def Sink.holding (bytes : ByteArray) : Sink :=
  ⟨bytes, none, none⟩

/-- How a program ends and what it prints does not depend on what was printed before. -/
theorem Machine.runProgram_withOutput (fuel : Nat) (prog : Program) (machine : Machine) :
    ∃ (added : ByteArray) (outcome : Outcome) (later : Machine),
      (∀ error, outcome ≠ .failed (.stream error)) ∧
      ∀ before, (machine.withOutput (.holding before)).runProgramWith .recorded fuel prog =
        (outcome, later.withOutput (.holding (before ++ added))) := by
  simp only [runProgramWith, analyse]
  let known := machine.recordDistances (Scoping.analyse prog).distances
  cases (Scoping.analyse prog).errors with
  | cons error errors =>
    refine ⟨.empty, .failed (.scoping ((error :: errors).map ScopingError.diagnostic)), known,
      ?_, fun before => ?_⟩
    · rintro _ ⟨⟩
    · rw [append_empty]
      rfl
  | nil =>
    rcases Run.feeds_executeProgram fuel prog known with ⟨added, result, flows, adds⟩
    refine ⟨added, ending result, final result, ?_, fun before => ?_⟩
    · intro error failed
      cases result with
      | ok value machine => cases failed
      | error signal machine =>
        cases signal with
        | stream error' => exact absurd rfl (flows error' machine)
        | _ => cases failed
    · let printed := mapFinal (·.withOutput (.holding (before ++ added))) result
      have ended : Run.executeProgram .recorded fuel prog ((machine.withOutput (.holding
          before)).recordDistances (Scoping.analyse prog).distances) = printed :=
        adds (.holding before)
      have last : final printed = (final result).withOutput (.holding (before ++ added)) :=
        final_mapFinal _ _
      simp only [interpretWith_eq_conclude, ended]
      rw [conclude_eq (congrArg (·.output.flushes) last), ending_mapFinal, last]

namespace Session

/-- The session with another sink. -/
def withOutput (session : Session) (output : Sink) : Session :=
  { session with machine := session.machine.withOutput output }

theorem evalAll_cons (fuel : Nat) (text : String) (texts : List String) (session : Session) :
    (session.evalAll fuel (text :: texts)).2 = ((session.eval fuel text).2.evalAll fuel texts).2 :=
  rfl

/-- What a line adds does not depend on what was written. -/
theorem eval_withOutput (session : Session) (fuel : Nat) (text : String) :
    ∃ (added : ByteArray) (outcome : Outcome) (later : Session),
      (∀ error, outcome ≠ .failed (.stream error)) ∧
      ∀ before, (session.withOutput (.holding before)).eval fuel text =
        (outcome, later.withOutput (.holding (before ++ added))) := by
  simp only [eval, evalWith, withOutput]
  cases read : readProgram text session.nextId with
  | mk result nextId =>
    cases result with
    | error failure =>
      rcases readProgram_error read with ⟨diagnostics, rfl⟩
      refine ⟨.empty, .failed (.grammar diagnostics), ⟨session.machine, nextId⟩, ?_,
        fun before => ?_⟩
      · rintro _ ⟨⟩
      · rw [append_empty]
    | ok prog =>
      rcases session.machine.runProgram_withOutput fuel prog with
        ⟨added, outcome, later, flows, adds⟩
      refine ⟨added, outcome, ⟨later, nextId⟩, flows, fun before => ?_⟩
      simp only [adds before]

/-- What a text has printed. -/
def Exchange.printed (exchange : Exchange) : ByteArray :=
  exchange.after.written.extract exchange.before.written.size exchange.after.written.size

/-- What is reported about a text: its failure, on a line of its own. -/
def Exchange.report (exchange : Exchange) : ByteArray :=
  match exchange.outcome with
  | .failed failure => (failure.text ++ "\n").toUTF8
  | _ => .empty

end Session

/-! ## The prompt -/

namespace Prompt

open Session (Exchange)

/--
Bytes cut into lines: a line holds its end and nothing behind it, and only the
last one may lack it.
-/
inductive Cut : List UInt8 → List (List UInt8) → Prop
  | nothing : Cut [] []
  | last {line} (nonempty : line ≠ []) (inside : '\n'.toUInt8 ∉ line) : Cut line [line]
  | more {line input lines} (inside : '\n'.toUInt8 ∉ line)
      (rest : Cut input lines) :
      Cut (line ++ '\n'.toUInt8 :: input) ((line ++ ['\n'.toUInt8]) :: lines)

/-- The input is cut into lines. -/
theorem cut_lines (input : List UInt8) : Cut input (lines input) := by
  induction input with
  | nil => exact .nothing
  | cons byte bytes ih =>
    rw [lines]
    split
    · next ends =>
      subst ends
      exact .more List.not_mem_nil ih
    · next goes =>
      have inside {line : List UInt8} (inside : '\n'.toUInt8 ∉ line) :
          '\n'.toUInt8 ∉ byte :: line :=
        List.not_mem_cons_of_ne_of_not_mem (Ne.symm goes) inside
      generalize lines bytes = found at ih
      cases ih with
      | nothing => exact .last (List.cons_ne_nil _ _) (inside List.not_mem_nil)
      | last some' inside' => exact .last (List.cons_ne_nil _ _) (inside inside')
      | more inside' rest => exact .more (inside inside') rest

/-- The texts of the lines in front of the first one that is none. -/
def texts (lines : List (List UInt8)) : List String :=
  (lines.takeWhile fun line => (decode? line).isSome).filterMap decode?

/-- What stands in the output after the texts: each question, what its text prints, a question. -/
def shown (transcript : List Exchange) : ByteArray :=
  transcript.foldr (fun exchange rest => question.toUTF8 ++ (exchange.printed ++ rest))
    question.toUTF8

/-- The reports about the texts. -/
def reported (transcript : List Exchange) : ByteArray :=
  transcript.foldr (fun exchange rest => exchange.report ++ rest) .empty

/-- How a prompt ends that reads the lines. -/
def verdict (lines : List (List UInt8)) : Outcome :=
  if ∀ line ∈ lines, (decode? line).isSome then .completed else .failed (.stream notText)

theorem ask_eq (session : Session) (out : ByteArray) (errors : Sink) :
    ask ⟨session.withOutput (.holding out), errors⟩ =
      (none, ⟨session.withOutput (.holding (out ++ question.toUTF8)), errors⟩) :=
  rfl

/-- A line ends the prompt only by running for too long. -/
theorem answer_eq {fuel : Nat} {text : String} {session later : Session} {outcome : Outcome}
    (flows : ∀ error, outcome ≠ .failed (.stream error))
    (evals : session.eval fuel text = (outcome, later)) (err : ByteArray) (before after : Sink) :
    answer fuel text ⟨session, .holding err⟩ =
      (if outcome = .exhausted then .exhausted else .completed,
        ⟨later, .holding (err ++ (Exchange.mk text outcome before after).report)⟩) := by
  simp only [answer, evals]
  cases outcome with
  | completed => simp [Exchange.report, append_empty]
  | exhausted => simp only [Exchange.report, append_empty, if_true]
  | failed failure =>
    cases failure with
    | stream error => exact absurd rfl (flows error)
    | _ => rfl

/-- The run over lines, judged by a session that is given their texts. -/
theorem loop_eq (fuel : Nat) (lines : List (List UInt8)) (session : Session)
    (held out err : ByteArray) :
    let reference := session.withOutput (.holding held)
    let transcript := reference.transcript fuel (texts lines)
    let ran := loop fuel lines ⟨session.withOutput (.holding out), .holding err⟩
    ((∃ exchange ∈ transcript, exchange.outcome = .exhausted) → ran.1 = .exhausted) ∧
    ((∀ exchange ∈ transcript, exchange.outcome ≠ .exhausted) → ran = (verdict lines,
      ⟨(reference.evalAll fuel (texts lines)).2.withOutput (.holding (out ++ shown transcript)),
        .holding (err ++ reported transcript)⟩)) := by
  induction lines generalizing session held out err with
  | nil =>
    refine ⟨?_, fun _ => ?_⟩
    · rintro ⟨exchange, ⟨⟩, _⟩
    · rw [show reported (Session.transcript fuel (texts []) _) = .empty from rfl,
        append_empty]
      rfl
  | cons line lines ih =>
    simp only [loop, ask_eq]
    cases decoded : decode? line with
    | none =>
      have texts_eq : texts (line :: lines) = [] := by
        simp [texts, decoded]
      have verdict_eq : verdict (line :: lines) = .failed (.stream notText) := by
        simp [verdict, decoded]
      rw [texts_eq, verdict_eq]
      refine ⟨?_, fun _ => ?_⟩
      · rintro ⟨exchange, ⟨⟩, _⟩
      · rw [show reported (Session.transcript fuel [] _) = .empty from rfl, append_empty]
        rfl
    | some text =>
      have texts_eq : texts (line :: lines) = text :: texts lines := by
        simp [texts, decoded]
      have verdict_eq : verdict (line :: lines) = verdict lines := by
        simp [verdict, decoded]
      rcases session.eval_withOutput fuel text with ⟨added, outcome, later, flows, evals⟩
      let exchange : Exchange := ⟨text, outcome, .holding held, .holding (held ++ added)⟩
      have printed : exchange.printed = added :=
        extract_append_eq_right rfl size_append
      have transcript_eq : (session.withOutput (.holding held)).transcript fuel
          (text :: texts lines) = exchange ::
            (later.withOutput (.holding (held ++ added))).transcript fuel (texts lines) := by
        simp only [Session.transcript, evals held]
        rfl
      rw [texts_eq, verdict_eq, transcript_eq]
      simp only [answer_eq flows (evals _) err exchange.before exchange.after, evals held,
        Session.evalAll_cons, List.forall_mem_cons, List.exists_mem_cons_iff]
      by_cases exhausted : outcome = .exhausted
      · rw [if_pos exhausted]
        exact ⟨fun _ => rfl, fun goes => absurd exhausted goes.1⟩
      · rw [if_neg exhausted]
        have rest := ih later (held ++ added) (out ++ question.toUTF8 ++ added)
          (err ++ exchange.report)
        refine ⟨fun stops => rest.1 (stops.resolve_left exhausted), fun goes => ?_⟩
        refine (rest.2 goes.2).trans ?_
        simp [shown, reported, append_assoc, printed]

end Prompt

/--
A prompt on sinks that never fail is a session that is given the lines of its
input, cut behind every line end.  The output is a question and what the line
prints, for each line in front of the first one that is no text, and a last
question; the other sink gets the failures of these lines, each with a line
end.  The prompt completes if all lines are texts and fails otherwise, and has
run no line from the first one on that is none.
-/
theorem prompt_is_session_of_lines (fuel : Nat) (clock : Nat → Float) (input : List UInt8) :
    let lines := Prompt.lines input
    let session := Session.start clock .unlimited
    let transcript := session.transcript fuel (Prompt.texts lines)
    let ran := Prompt.run fuel input ⟨session, .unlimited⟩
    Prompt.Cut input lines ∧
    ((∃ exchange ∈ transcript, exchange.outcome = .exhausted) → ran.1 = .exhausted) ∧
    ((∀ exchange ∈ transcript, exchange.outcome ≠ .exhausted) →
      ran.1 = (if ∀ line ∈ lines, (Prompt.decode? line).isSome then .completed
        else .failed (.stream Prompt.notText)) ∧
      ran.2.session.machine.written = transcript.foldr
        (fun exchange rest => Prompt.question.toUTF8 ++ (exchange.printed ++ rest))
        Prompt.question.toUTF8 ∧
      ran.2.errors.written = transcript.foldr
        (fun exchange rest => exchange.report ++ rest) .empty ∧
      ran.2.session = (session.evalAll fuel (Prompt.texts lines)).2.withOutput
        ran.2.session.machine.output) := by
  intro lines session transcript ran
  rcases Prompt.loop_eq fuel lines session .empty .empty .empty with ⟨ends, runs⟩
  refine ⟨Prompt.cut_lines input, ends, fun goes => ?_⟩
  have ran_eq : ran = _ := runs goes
  rw [ran_eq]
  simp only [empty_append]
  exact ⟨rfl, rfl, rfl, rfl⟩

/-- A line that fails is reported, and one that is no text ends the prompt before it is run. -/
theorem prompt_reports_and_goes_on :
    let input := "var a = \"x\";\nprint a;\nb;\n".toUTF8.toList ++ 255 :: "print a;".toUTF8.toList
    let ran := Prompt.run 20 input ⟨Session.start (fun _ => 0) .unlimited, .unlimited⟩
    ran.1 = .failed (.stream Prompt.notText) ∧
      ran.2.session.machine.written = "> > x\n> > ".toUTF8 ∧
      ran.2.errors.written = "Undefined variable 'b'.\n[line 1]\n".toUTF8 := by
  intro input
  rcases prompt_is_session_of_lines 20 (fun _ => 0) input with ⟨_, _, runs⟩
  rcases runs (by decide +kernel) with ⟨outcome, written, reports, _⟩
  refine ⟨outcome.trans ?_, written.trans ?_, reports.trans ?_⟩ <;> decide +kernel

end Treewalk
