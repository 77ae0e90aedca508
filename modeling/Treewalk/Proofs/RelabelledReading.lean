import Treewalk.Proofs.ParserSoundness
import Treewalk.Proofs.RuleRelations

/-!
# Reading relabelled tokens

Rules choose by the kinds of tokens, so relabelled tokens are read in the same
way, whether they are a program or not.  A rule mirrors another one if it does
on relabelled tokens what the other one does on the tokens themselves.
Mirroring composes along `bind`, and each rule of the grammar mirrors itself.
-/

namespace Treewalk

open Cursor List

/-- Relabel tokens and the end mark behind them. -/
def TokenStream.relabel (change : Relabelling) (stream : TokenStream) :
    TokenStream :=
  ⟨stream.tokens.map change, change stream.ending⟩

/-- Relabel what was read, be it a program or a list of faults. -/
def Parsed.relabel (change : Relabelling) (shift : Nat) (parsed : Parsed) : Parsed :=
  ⟨match parsed.result with
    | .ok program => .ok (Stmt.relabelAll change shift program)
    | .error errors => .error (errors.map (GrammarError.relabel change)),
    parsed.nextId + shift⟩

theorem Cursor.peek_relabel (change : Relabelling) (shift : Nat) (cursor : Cursor) :
    (cursor.relabel change shift).peek = change cursor.peek := by
  cases ahead : cursor.ahead <;>
    simp only [peek, relabel, ahead, map_cons, map_nil,
      headD_cons, headD_nil]

namespace Rule

variable {α β : Type}

/-- The result of a rule on relabelled tokens. -/
def transfer (change : Relabelling) (shift : Nat) (view : α → α) :
    EStateM.Result GrammarError Cursor α → EStateM.Result GrammarError Cursor α
  | .ok value cursor => .ok (view value) (cursor.relabel change shift)
  | .error error cursor =>
    .error (error.relabel change) (cursor.relabel change shift)

/-- On relabelled tokens, one rule does what the other does without. -/
def Mirrors (change : Relabelling) (shift : Nat) (view : α → α) (mirror rule : Rule α) :
    Prop :=
  ∀ cursor, mirror (cursor.relabel change shift) = transfer change shift view (rule cursor)

variable {change : Relabelling} {shift : Nat}

namespace Mirrors

variable {view : α → α}

theorem bind {further : β → β} {mirror rule : Rule α} {mirrors cont : α → Rule β}
    (head : Mirrors change shift view mirror rule)
    (tail : ∀ value, Mirrors change shift further (mirrors (view value)) (cont value)) :
    Mirrors change shift further (mirror >>= mirrors) (rule >>= cont) := by
  intro cursor
  simp only [Bind.bind, EStateM.bind, head cursor]
  cases rule cursor with
  | ok value next => exact tail value next
  | error error next => rfl

theorem pure {value mirrored : α} (same : mirrored = view value) :
    Mirrors change shift view (Pure.pure mirrored) (Pure.pure value) := by
  intro cursor
  rw [same]
  rfl

theorem fail (fault : GrammarFault) :
    Mirrors change shift view (Rule.fail fault) (Rule.fail fault) := by
  intro cursor
  simp only [Rule.fail, peek_relabel]
  rfl

theorem noteAt (fault : GrammarFault) (token : Token) :
    Mirrors change shift id (Rule.noteAt fault (change token)) (Rule.noteAt fault token) := by
  intro cursor
  simp only [Rule.noteAt, transfer, note, relabel, map_append]
  rfl

theorem noteHere (fault : GrammarFault) :
    Mirrors change shift id (Rule.noteHere fault) (Rule.noteHere fault) := by
  intro cursor
  simp only [Rule.noteHere, peek_relabel]
  exact noteAt fault cursor.peek cursor

theorem freshId : Mirrors change shift (· + shift) Rule.freshId Rule.freshId := by
  intro cursor
  simp only [Rule.freshId, relabel, transfer, Nat.add_right_comm]

section

variable {test : Token → Bool} (overlooks : Overlooks change test)

include overlooks

theorem takeWhile :
    Mirrors change shift (map change) (Rule.takeWhile test) (Rule.takeWhile test) := by
  intro cursor
  have same : test ∘ change = test := funext overlooks
  simp only [Rule.takeWhile, relabel, transfer, takeWhile_map, dropWhile_map, same]

/-- A rule that goes on by whether the next token passes a test. -/
theorem takeThen {view : β → β} {mirrors cont : Option Token → Rule β}
    (absent : Mirrors change shift view (mirrors none) (cont none))
    (present : ∀ token, Mirrors change shift view (mirrors (some (change token)))
        (cont (some token))) :
    Mirrors change shift view (Rule.takeIf test >>= mirrors) (Rule.takeIf test >>= cont) := by
  rintro ⟨ahead, ending, nextId, errors⟩
  cases ahead with
  | nil => exact absent ⟨[], ending, nextId, errors⟩
  | cons token rest =>
    simp only [Bind.bind, EStateM.bind, Rule.takeIf, relabel, map_cons, overlooks token]
    by_cases passes : test token
    · simp only [passes, if_true]
      exact present token ⟨rest, ending, nextId, errors⟩
    · simp only [passes, if_false, Bool.false_eq_true]
      exact absent ⟨token :: rest, ending, nextId, errors⟩

end

/-- A rule that goes on by what the next token chooses. -/
theorem dispatch {mirrors rules : Token → Option (Rule α)} {mirror rule : Rule α}
    (absent : Mirrors change shift view mirror rule)
    (present : ∀ token, Option.Rel (Mirrors change shift view)
      (mirrors (change token)) (rules token))
    :
    Mirrors change shift view (Rule.dispatch mirrors mirror) (Rule.dispatch rules rule) := by
  rintro ⟨ahead, ending, nextId, errors⟩
  cases ahead with
  | nil => exact absent ⟨[], ending, nextId, errors⟩
  | cons token rest =>
    have chosen := present token
    simp only [Rule.dispatch, relabel, map_cons]
    generalize mirrors (change token) = mirrored, rules token = reads at chosen
    cases chosen with
    | some behind => exact behind ⟨rest, ending, nextId, errors⟩
    | none => exact absent ⟨token :: rest, ending, nextId, errors⟩

theorem sees (mark : Punctuator) : Mirrors change shift id (Rule.sees mark) (Rule.sees mark) := by
  intro cursor
  simp only [Rule.sees, sees_relabel]
  rfl
theorem unlessStopped {stop : Cursor → Bool} {mirror rule : Rule (List α)}
    (stops : ∀ cursor : Cursor, stop (cursor.relabel change shift) = stop cursor)
    (mirrors : Mirrors change shift (map view) mirror rule) :
    Mirrors change shift (map view) (Rule.unlessStopped stop mirror)
      (Rule.unlessStopped stop rule) := by
  intro cursor
  have atEnd : (cursor.relabel change shift).atEnd = cursor.atEnd := by
    simp only [atEnd, relabel, isEmpty_map]
  rw [Rule.unlessStopped, Rule.unlessStopped, atEnd, stops]
  split
  · rfl
  · exact mirrors cursor

end Mirrors

/-- Mirroring is kept by all that puts rules together. -/
def mirroring (change : Relabelling) (shift : Nat) : RuleRelation where
  change := change
  shift := shift
  Relates := Mirrors change shift
  Notes _ := True
  bind := .bind
  pure := .pure
  fail := .fail
  noteHere _ := .noteHere _
  freshId := .freshId
  sees := .sees
  takeWhile := .takeWhile
  takeThen overlooks := .takeThen overlooks
  dispatch := .dispatch
  unlessStopped := .unlessStopped

end Rule

namespace Grammar

open Rule

variable {change : Relabelling} {shift : Nat}

theorem keeps_targets : (mirroring change shift).KeepsTargets := by
  intro expr target mirrors cont keeps absent later mirrored
  refine Mirrors.takeThen (overlooks_isMark change .equal) absent fun equals => ?_
  rw [later, mirrored]
  exact Mirrors.bind keeps fun _ => (Mirrors.noteAt .invalidTarget equals).bind fun _ => .pure rfl

theorem startsStatement_relabel (token : Token) :
    Cursor.startsStatement (change token) = Cursor.startsStatement token := by
  simp only [Cursor.startsStatement, change.kind]

theorem skipAfter_relabel (last : Token) (tokens : List Token) :
    Cursor.skipAfter (change last) (tokens.map change) =
      (Cursor.skipAfter last tokens).map change := by
  induction tokens generalizing last with
  | nil => rfl
  | cons token tokens ih =>
    have semicolon := overlooks_isMark change .semicolon last
    simp only [map_cons, Cursor.skipAfter, semicolon, startsStatement_relabel, ih]
    split <;> rfl

/-- Relabelled tokens are resumed at the same place. -/
theorem resume_relabel (cursor : Cursor) :
    (cursor.relabel change shift).resume = cursor.resume.relabel change shift := by
  rcases cursor with ⟨ahead, ending, nextId, errors⟩
  cases ahead with
  | nil => rfl
  | cons token rest => simp only [relabel, resume, map_cons, skipAfter_relabel]

theorem keeps_recover {rule : Rule Stmt}
    (keeps : (mirroring change shift).Keeps .declaration rule) :
    (mirroring change shift).KeepsRecovered (recover rule) := by
  intro cursor
  simp only [recover, keeps cursor]
  cases rule cursor with
  | ok stmt next => rfl
  | error error next =>
    simp only [transfer, ← resume_relabel]
    simp only [note, relabel, map_append]
    rfl

/-- Relabelled tokens are read as the relabelled program. -/
theorem keeps_program (change : Relabelling) (shift : Nat) (cursor : Cursor) :
    program (cursor.relabel change shift) =
      transfer change shift (Stmt.relabelAll change shift) (program cursor) := by
  have decls := (mirroring change shift).keeps_declarations trivial keeps_recover
    ((mirroring change shift).keeps_expressionWithin trivial keeps_targets) cursor.ahead.length
  have length : (cursor.relabel change shift).ahead.length = cursor.ahead.length :=
    length_map change.token
  simp only [program, length]
  exact decls cursor

end Grammar

/-- Relabelled tokens are read as the relabelled program, or with its faults. -/
theorem parse_relabel (change : Relabelling) (shift : Nat) (stream : TokenStream)
    (firstId : ExprId) : parse (stream.relabel change) (firstId + shift) =
      (parse stream firstId).relabel change shift := by
  have read := Grammar.keeps_program change shift ⟨stream.tokens, stream.ending, firstId, []⟩
  simp only [relabel, map_nil] at read
  simp only [parse, TokenStream.relabel, read]
  cases Grammar.program ⟨stream.tokens, stream.ending, firstId, []⟩ with
  | error error cursor =>
    simp only [Rule.transfer, relabel, Parsed.relabel, map_append]
    rfl
  | ok program cursor =>
    simp only [Rule.transfer, relabel, Parsed.relabel, isEmpty_map]
    split <;> rfl

section

variable {change : Relabelling} {shift : Nat} {input : List Token} {first next : ExprId}
  {program : Program}

/-- A program is derived from its tokens whatever these are replaced with. -/
theorem Grammar.Derives.relabelled
    (derivation : Derives .nearest .declarations input first program [] next)
    (change : Relabelling) (shift : Nat) :
    Derives .nearest .declarations (input.map change) (first + shift)
      (Stmt.relabelAll change shift program) [] (next + shift) := by
  let stream : TokenStream := ⟨input, Scan.endToken 1⟩
  have read : parse stream first = ⟨.ok program, next⟩ := parse_of_derives derivation
  have replaced := parse_relabel change shift stream first
  rw [read] at replaced
  have derives := derives_of_parse_ok (congrArg Parsed.result replaced)
  rw [replaced] at derives
  exact derives

/-- What replaced tokens derive comes from what the tokens themselves derive. -/
theorem Grammar.Derives.template (derivation : Derives .nearest .declarations (input.map change)
      (first + shift) program [] next) :
    ∃ template count, Derives .nearest .declarations input first template [] count ∧
      program = Stmt.relabelAll change shift template ∧ next = count + shift := by
  let stream : TokenStream := ⟨input, Scan.endToken 1⟩
  have read : parse (stream.relabel change) (first + shift) = ⟨.ok program, next⟩ :=
    parse_of_derives derivation
  rw [parse_relabel, Parsed.relabel, Parsed.mk.injEq] at read
  cases result : (parse stream first).result with
  | error errors =>
    rw [result] at read
    cases read.1
  | ok template =>
    rw [result] at read
    exact ⟨template, _, derives_of_parse_ok result, (Except.ok.inj read.1).symm, read.2.symm⟩

end

end Treewalk
