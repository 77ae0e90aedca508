import Treewalk.Proofs.FirstFault
import Treewalk.Proofs.RuleEffect
import Treewalk.Proofs.RuleRelations

/-!
# The order of faults

What a rule notes lies between the place where it starts and the place where it
ends, so faults noted one rule after the other stand in the order of the text.

There is one exception.  That a target cannot be assigned to is noted after the
value has been read, at the sign in front of the value.  Only faults of
expressions that do not stop the reading can come first in this way.
-/

namespace Treewalk

open List

/-- The line of one token is not behind that of another. -/
def Token.NotBelow (token later : Token) : Prop :=
  token.line ≤ later.line

/-- The faults that do not stop an expression. -/
def GrammarFault.OfExpression (fault : GrammarFault) : Prop :=
  fault = .invalidTarget ∨ fault = .tooManyArguments

namespace GrammarError

/-- The first fault may lie in a value that the second finds no target for. -/
def MayBeInValue (error target : GrammarError) : Prop :=
  target.fault = .invalidTarget ∧ error.fault.OfExpression

/--
Reported one after the other, the faults stand in the order of the text, or the
second is about a target in front of the first.
-/
def Precedes (error later : GrammarError) : Prop :=
  error.token.NotBelow later.token ∨ error.MayBeInValue later

end GrammarError

variable {cursor after : Cursor} {rest : List Token} {noted : List GrammarError}

namespace Cursor

/-- The tokens that can still be pointed at. -/
def reach (cursor : Cursor) : List Token :=
  cursor.ahead ++ [cursor.ending]

/-- No token still to be read stands on a line before that of an earlier one. -/
def Descends (cursor : Cursor) : Prop :=
  cursor.reach.Pairwise Token.NotBelow

theorem peek_mem_reach (cursor : Cursor) : cursor.peek ∈ cursor.reach := by
  cases ahead : cursor.ahead <;> simp [peek, reach, ahead]

/-- The next token stands on no line below those after it. -/
theorem Descends.peek {cursor : Cursor} (descends : cursor.Descends) :
    ∀ token ∈ cursor.reach, cursor.peek.NotBelow token := by
  intro token among
  cases ahead : cursor.ahead with
  | nil =>
    simp only [reach, ahead, nil_append, mem_singleton] at among
    rw [among, Cursor.peek, ahead]
    exact Nat.le_refl _
  | cons first rest =>
    simp only [Descends, reach, ahead, cons_append, pairwise_cons] at descends
    simp only [reach, ahead, cons_append, mem_cons] at among
    rw [Cursor.peek, ahead]
    rcases among with rfl | later
    · exact Nat.le_refl _
    · exact descends.1 token later

theorem reach_suffix (ahead : after.ahead <:+ cursor.ahead) (ending : after.ending = cursor.ending)
    : after.reach <:+ cursor.reach := by
  rcases ahead with ⟨passed, whole⟩
  exact ⟨passed, by rw [reach, reach, ← whole, ending, append_assoc]⟩

/-- Taking a token leaves the reach behind it. -/
theorem reach_taken {token : Token} (starts : cursor.ahead = token :: rest) :
    reach { cursor with ahead := rest } <:+ cursor.reach := by
  refine reach_suffix ?_ rfl
  rw [starts]
  exact suffix_cons token rest

theorem Descends.of_suffix (descends : cursor.Descends) (suffix : after.reach <:+ cursor.reach) :
    after.Descends :=
  List.Pairwise.sublist suffix.sublist descends

theorem skipAfter_suffix (last : Token) (tokens : List Token) :
    skipAfter last tokens <:+ tokens := by
  induction tokens generalizing last with
  | nil => exact suffix_refl _
  | cons token tokens ih =>
    rw [skipAfter]
    split
    · exact suffix_refl _
    · exact (ih token).trans (suffix_cons _ _)

/-- Resuming after a fault only skips tokens. -/
theorem reach_resume (cursor : Cursor) : cursor.resume.reach <:+ cursor.reach := by
  cases ahead : cursor.ahead with
  | nil =>
    have stays : cursor.resume = cursor := by rw [resume, ahead]
    exact ⟨[], by rw [stays, nil_append]⟩
  | cons token rest =>
    rw [resume, ahead]
    refine reach_suffix ?_ rfl
    rw [ahead]
    exact (skipAfter_suffix token rest).trans (suffix_cons _ _)

theorem errors_resume (cursor : Cursor) : cursor.resume.errors = cursor.errors := by
  unfold resume
  split <;> rfl

end Cursor

namespace Rule

variable {α β : Type} {allowed : GrammarFault → Prop}

/-- The faults noted on the way from one cursor to another. -/
structure Stretch (allowed : GrammarFault → Prop) (before after : Cursor)
    (noted : List GrammarError) : Prop where
  errors : after.errors = before.errors ++ noted
  reach : after.reach <:+ before.reach
  allowed : ∀ error ∈ noted, allowed error.fault
  /-- No fault points at a token that was passed before. -/
  ahead : ∀ error ∈ noted, error.token ∈ before.reach
  /-- No fault points below the tokens that are left. -/
  behind : ∀ error ∈ noted, ∀ token ∈ after.reach, error.token.NotBelow token
  ordered : noted.Pairwise GrammarError.Precedes

namespace Stretch

variable {before middle : Cursor} {further : List GrammarError}

/-- Nothing is noted. -/
theorem quiet (errors : after.errors = before.errors) (reach : after.reach <:+ before.reach) :
    Stretch allowed before after [] where
  errors := by rw [errors, append_nil]
  reach := reach
  allowed _ among := absurd among not_mem_nil
  ahead _ among := absurd among not_mem_nil
  behind _ among := absurd among not_mem_nil
  ordered := .nil

theorem single {error : GrammarError} (descends : before.Descends)
    (errors : after.errors = before.errors ++ [error])
    (reach : after.reach <:+ before.reach) (allows : allowed error.fault)
    (points : error.token = before.peek) : Stretch allowed before after [error] where
  errors := errors
  reach := reach
  allowed := by simpa using allows
  ahead := by simpa [points] using before.peek_mem_reach
  behind other among token left := by
    rw [mem_singleton.mp among, points]
    exact descends.peek token (reach.subset left)
  ordered := pairwise_singleton _ _

theorem trans (first : Stretch allowed before middle noted)
    (second : Stretch allowed middle after further) :
    Stretch allowed before after (noted ++ further) where
  errors := by rw [second.errors, first.errors, append_assoc]
  reach := second.reach.trans first.reach
  allowed error among := by
    rcases mem_append.mp among with early | late
    · exact first.allowed error early
    · exact second.allowed error late
  ahead error among := by
    rcases mem_append.mp among with early | late
    · exact first.ahead error early
    · exact first.reach.subset (second.ahead error late)
  behind error among token left := by
    rcases mem_append.mp among with early | late
    · exact first.behind error early token (second.reach.subset left)
    · exact second.behind error late token left
  ordered := by
    refine pairwise_append.mpr ⟨first.ordered, second.ordered, ?_⟩
    intro error early later late
    -- The second rule points at tokens that the first has left.
    exact .inl (first.behind error early _ (second.ahead later late))

/-- A target is found invalid once the value behind the sign has been read. -/
theorem target {equals : Token}
    (stretch : Stretch GrammarFault.OfExpression { before with ahead := rest } after noted)
    (starts : before.ahead = equals :: rest) (descends : before.Descends) :
    Stretch GrammarFault.OfExpression before (after.note ⟨.invalidTarget, equals⟩)
      (noted ++ [⟨.invalidTarget, equals⟩]) := by
  have next : before.peek = equals := by rw [Cursor.peek, starts]; rfl
  have passed := Cursor.reach_taken starts
  refine ⟨?_, stretch.reach.trans passed, ?_, ?_, ?_, ?_⟩
  · simp [Cursor.note, stretch.errors]
  · intro error among
    rcases mem_append.mp among with within | last
    · exact stretch.allowed error within
    · exact .inl (by rw [mem_singleton.mp last])
  · intro error among
    rcases mem_append.mp among with within | last
    · exact passed.subset (stretch.ahead error within)
    · rw [mem_singleton.mp last, ← next]
      exact before.peek_mem_reach
  · intro error among token left
    rcases mem_append.mp among with within | last
    · exact stretch.behind error within token left
    · rw [mem_singleton.mp last, ← next]
      exact descends.peek token ((stretch.reach.trans passed).subset left)
  · refine pairwise_append.mpr ⟨stretch.ordered, pairwise_singleton _ _, ?_⟩
    intro error within later last
    -- The sign stands in front of the value, but its fault comes last.
    rw [mem_singleton.mp last]
    exact .inr ⟨rfl, stretch.allowed error within⟩

end Stretch

/-- What one run of a rule notes, and where it points if it stops. -/
structure Onward (allowed : GrammarFault → Prop) (cursor : Cursor)
    (result : EStateM.Result GrammarError Cursor α) : Prop where
  notes : ∃ noted, Stretch allowed cursor (ending result) noted
  points : ∀ error after, result = .error error after → error.token = after.peek

/-- Every run of the rule over lines that do not fall goes onward. -/
def Forward (allowed : GrammarFault → Prop) (rule : Rule α) : Prop :=
  ∀ cursor, cursor.Descends → Onward allowed cursor (rule cursor)

namespace Onward

theorem yielded {value : α} (stretch : Stretch allowed cursor after noted) :
    Onward allowed cursor (.ok value after) := by
  refine ⟨⟨noted, stretch⟩, ?_⟩
  rintro _ _ ⟨⟩

/-- A rule that yields a value without noting a fault. -/
theorem quiet {cursor after : Cursor} {value : α} (errors : after.errors = cursor.errors)
    (ahead : after.ahead <:+ cursor.ahead) (ending : after.ending = cursor.ending) :
    Onward allowed cursor (.ok value after) :=
  .yielded (.quiet errors (Cursor.reach_suffix ahead ending))

theorem taken {token : Token} {result : EStateM.Result GrammarError Cursor α}
    (starts : cursor.ahead = token :: rest)
    (onward : Onward allowed { cursor with ahead := rest } result) :
    Onward allowed cursor result := by
  rcases onward.notes with ⟨noted, stretch⟩
  have start : Stretch allowed cursor { cursor with ahead := rest } [] :=
    .quiet rfl (Cursor.reach_taken starts)
  exact ⟨⟨[] ++ noted, start.trans stretch⟩, onward.points⟩

end Onward

namespace Forward

theorem weaken {rule : Rule α} {weaker : GrammarFault → Prop} (forward : rule.Forward allowed)
    (implies : ∀ fault, allowed fault → weaker fault) :
    rule.Forward weaker := by
  intro cursor descends
  have onward := forward cursor descends
  rcases onward.notes with ⟨noted, stretch⟩
  have allows : ∀ error ∈ noted, weaker error.fault :=
    fun error among => implies _ (stretch.allowed error among)
  exact ⟨⟨noted, { stretch with allowed := allows }⟩, onward.points⟩

theorem bind {rule : Rule α} {cont : α → Rule β} (head : rule.Forward allowed)
    (tail : ∀ value, (cont value).Forward allowed) :
    (rule >>= cont).Forward allowed := by
  intro cursor descends
  have onward := head cursor descends
  simp only [Bind.bind, EStateM.bind]
  cases ran : rule cursor with
  | error error middle =>
    rw [ran] at onward
    refine ⟨onward.notes, ?_⟩
    rintro _ _ ⟨⟩
    exact onward.points error middle rfl
  | ok value middle =>
    rw [ran] at onward
    rcases onward.notes with ⟨noted, first⟩
    have further := tail value middle (descends.of_suffix first.reach)
    rcases further.notes with ⟨others, second⟩
    exact ⟨⟨noted ++ others, first.trans second⟩, further.points⟩

theorem pure (value : α) : (Pure.pure value : Rule α).Forward allowed :=
  fun _ _ => .quiet rfl (suffix_refl _) rfl

theorem fail (fault : GrammarFault) : (Rule.fail fault : Rule α).Forward allowed := by
  intro cursor descends
  refine ⟨⟨[], .quiet rfl (suffix_refl _)⟩, ?_⟩
  rintro _ _ ⟨⟩
  rfl

section

variable {test : Token → Bool} {cont : Option Token → Rule β} (absent : (cont none).Forward allowed)

include absent

/-- A rule that takes the next token if it passes a test, and goes on. -/
theorem takeThen
    (present : ∀ cursor token rest, cursor.ahead = token :: rest → cursor.Descends →
      Onward allowed cursor (cont (some token) { cursor with ahead := rest })) :
    (Rule.takeIf test >>= cont).Forward allowed := by
  intro cursor descends
  simp only [Bind.bind, EStateM.bind, Rule.takeIf]
  cases ahead : cursor.ahead with
  | nil => exact absent cursor descends
  | cons token rest =>
    by_cases passes : test token
    · simp only [passes, if_true]
      exact present cursor token rest ahead descends
    · simp only [passes, if_false, Bool.false_eq_true]
      exact absent cursor descends

/-- The usual case: going on from behind the token is no different. -/
theorem takeOr (present : ∀ token, (cont (some token)).Forward allowed) :
    (Rule.takeIf test >>= cont).Forward allowed :=
  takeThen absent fun _ token _ starts descends =>
    .taken starts (present token _ (descends.of_suffix (Cursor.reach_taken starts)))

end

theorem dispatch {mirrors rules : Token → Option (Rule α)} {otherwise : Rule α}
    (absent : otherwise.Forward allowed)
    (present : ∀ token, Option.Rel (fun _ rule => rule.Forward allowed) (mirrors token)
      (rules token)) :
    (Rule.dispatch rules otherwise).Forward allowed := by
  intro cursor descends
  unfold Rule.dispatch
  split
  next => exact absent cursor descends
  next token rest ahead =>
    have chosen := present token
    generalize mirrors token = mirrored, rules token = reads at chosen
    cases chosen with
    | some forward =>
      exact .taken ahead (forward _ (descends.of_suffix (Cursor.reach_taken ahead)))
    | none => exact absent cursor descends

theorem unlessStopped {stop : Cursor → Bool} {rule : Rule (List α)}
    (forward : rule.Forward allowed) : (Rule.unlessStopped stop rule).Forward allowed := by
  intro cursor descends
  unfold Rule.unlessStopped
  split
  · exact pure [] cursor descends
  · exact forward cursor descends

end Forward

/-- Going forward is kept by all that puts rules together. -/
def forwarding (allowed : GrammarFault → Prop) : RuleRelation where
  change := .identity
  shift := 0
  Relates _ _ rule := rule.Forward allowed
  Notes := allowed
  bind := .bind
  pure _ := .pure _
  fail := .fail
  noteHere allows _ descends :=
    .yielded (.single descends rfl (suffix_refl _) allows rfl)
  freshId _ _ := .quiet rfl (suffix_refl _) rfl
  sees _ _ _ := .quiet rfl (suffix_refl _) rfl
  takeWhile _ _ _ := .quiet rfl (dropWhile_suffix _) rfl
  takeThen _ := .takeOr
  dispatch absent present := .dispatch absent present
  unlessStopped _ := .unlessStopped

end Rule

namespace Grammar

open Rule

/-- The rule notes no faults but those of expressions, and those in order. -/
abbrev ReadsForward (rule : Rule Expr) : Prop :=
  rule.Forward GrammarFault.OfExpression

/-- The rule notes faults of any kind, in order. -/
abbrev NotesForward {α : Type} (rule : Rule α) : Prop :=
  rule.Forward fun _ => True

/-- A target may be noted after the faults of its value. -/
theorem onward_target {expr : Rule Expr} (forward : ReadsForward expr)
    {equals : Token} (target : Expr)
    (starts : cursor.ahead = equals :: rest) (descends : cursor.Descends) :
    Onward GrammarFault.OfExpression cursor
      ((do
        let _ ← expr
        noteAt .invalidTarget equals
        return target : Rule Expr) { cursor with ahead := rest }) := by
  have onward := forward _ (descends.of_suffix (Cursor.reach_taken starts))
  simp only [Bind.bind, EStateM.bind]
  cases ran : expr { cursor with ahead := rest } with
  | error error middle =>
    rw [ran] at onward
    refine .taken starts ⟨onward.notes, ?_⟩
    rintro _ _ ⟨⟩
    exact onward.points error middle rfl
  | ok value middle =>
    rw [ran] at onward
    rcases onward.notes with ⟨noted, stretch⟩
    exact .yielded (stretch.target starts descends)

theorem forward_targets : (forwarding GrammarFault.OfExpression).KeepsTargets := by
  intro expr target mirrors cont forward absent later mirrored
  refine Forward.takeThen absent fun cursor equals rest starts descends => ?_
  rw [later]
  exact onward_target forward target starts descends

/-- The fault that stops a rule is at the token where reading resumes. -/
theorem forward_recover {rule : Rule Stmt} (forward : NotesForward rule) :
    NotesForward (recover rule) := by
  intro cursor descends
  have onward := forward cursor descends
  unfold recover
  cases ran : rule cursor with
  | ok value after =>
    rw [ran] at onward
    rcases onward.notes with ⟨noted, stretch⟩
    exact .yielded stretch
  | error error after =>
    rw [ran] at onward
    rcases onward.notes with ⟨noted, stretch⟩
    have last : Stretch (fun _ => True) after (after.note error).resume [error] :=
      .single (descends.of_suffix stretch.reach)
        (Cursor.errors_resume _) (Cursor.reach_resume _) trivial (onward.points error after rfl)
    exact .yielded (stretch.trans last)

/-- A program notes its faults on its way forward. -/
theorem forward_program : NotesForward program := by
  intro cursor descends
  have expressions (limit : Nat) : NotesForward (expressionWithin limit) :=
    Forward.weaken ((forwarding _).keeps_expressionWithin (.inr rfl) forward_targets limit)
      fun _ _ => trivial
  exact (forwarding fun _ => True).keeps_declarations trivial forward_recover expressions
    cursor.ahead.length cursor descends

end Grammar

/-- Reading goes up to the first end mark, which a list with one has. -/
theorem reach_ofList {tokens : List Token} {ending : Token} (ends : ending.isEnd = true) :
    (TokenStream.ofList (tokens ++ [ending])).tokens ++
      [(TokenStream.ofList (tokens ++ [ending])).ending] <+: tokens ++ [ending] := by
  have has : ((tokens ++ [ending]).find? Token.isEnd).isSome := by simp [ends]
  rcases Option.isSome_iff_exists.mp has with ⟨first, found⟩
  rcases find?_eq_some_iff_append.mp found with ⟨marks, before, others, whole, plain⟩
  have stream : TokenStream.ofList (tokens ++ [ending]) = ⟨before, first⟩ := by
    simp only [TokenStream.ofList, found]
    rw [whole, takeWhile_plain marks (by simpa using plain)]
  rw [stream, whole]
  exact ⟨others, by simp⟩

/-- The faults of a program, over lines that do not fall. -/
theorem pairwise_faults {stream : TokenStream}
    (descends : (stream.tokens ++ [stream.ending]).Pairwise Token.NotBelow) (firstId : ExprId) :
    (parse stream firstId).faults.Pairwise GrammarError.Precedes := by
  rcases Indexed.program_ok ⟨stream.tokens, stream.ending, firstId, []⟩ with ⟨program, after, ran⟩
  have onward := Grammar.forward_program ⟨stream.tokens, stream.ending, firstId, []⟩ descends
  rw [ran] at onward
  rcases onward.notes with ⟨noted, stretch⟩
  have errors : after.errors = [] ++ noted := stretch.errors
  rw [faults_parse ran, errors]
  exact stretch.ordered

/--
Over tokens whose lines do not fall, the faults are reported in the order of
their lines, but for a target found invalid after faults of the value assigned
to it.  So all of them are in that order exactly if those pairs are.
-/
theorem only_invalid_targets_are_reported_late (tokens : List Token)
    (ending : Token) (firstId : ExprId) (ends : ending.isEnd = true)
    (sorted : (tokens ++ [ending]).Pairwise fun token next => token.line ≤ next.line) :
    let faults := (parse (.ofList (tokens ++ [ending])) firstId).faults
    faults.Pairwise (fun error later =>
      error.token.line ≤ later.token.line ∨ later.fault = .invalidTarget ∧
          (error.fault = .invalidTarget ∨ error.fault = .tooManyArguments)) ∧
    (faults.Pairwise (fun error later =>
        error.token.line ≤ later.token.line) ↔
      faults.Pairwise fun error later =>
        later.fault = .invalidTarget →
          error.fault = .invalidTarget ∨ error.fault = .tooManyArguments →
            error.token.line ≤ later.token.line) := by
  intro faults
  have ordered : faults.Pairwise GrammarError.Precedes :=
    pairwise_faults (List.Pairwise.sublist (reach_ofList ends).sublist sorted) firstId
  refine ⟨ordered, fun all => all.imp fun before _ _ => before, fun late => ?_⟩
  refine (ordered.and late).imp ?_
  rintro error later ⟨before | ⟨target, within⟩, inTime⟩
  · exact before
  · exact inTime target within

/-- Over four lines, a target in a value is reported before the outer one. -/
theorem target_in_value_is_reported_first :
    let tokens := (scan "1\n=\n2\n=\n3;").tokens
    let faults := (parse (.ofList tokens) 0).faults
    tokens.Pairwise (fun token next => token.line ≤ next.line) ∧
      tokens.getLast?.map Token.isEnd = some true ∧
      faults.map (fun error => (error.fault, error.token.line)) =
        [(.invalidTarget, 4), (.invalidTarget, 2)] ∧
      ¬faults.Pairwise fun error later =>
        error.token.line ≤ later.token.line := by
  decide +kernel

/-- Two faulty statements and a faulty value between them. -/
theorem targets_between_statements_are_reported_late :
    let tokens : List Token :=
      [⟨.keyword .printWord, "print", 1⟩, ⟨.punctuator .semicolon, ";", 1⟩,
        ⟨.number 1, "1", 2⟩, ⟨.punctuator .equal, "=", 2⟩,
        ⟨.number 2, "2", 3⟩, ⟨.punctuator .equal, "=", 3⟩,
        ⟨.number 3, "3", 3⟩, ⟨.punctuator .semicolon, ";", 3⟩, ⟨.keyword .varWord, "var", 4⟩]
    let ending : Token := Scan.endToken 4
    let faults := (parse (.ofList (tokens ++ [ending])) 0).faults
    (ending.isEnd = true ∧ (tokens ++ [ending]).Pairwise fun token next => token.line ≤ next.line) ∧
    faults.map (·.token.line) = [1, 3, 2, 4] ∧
    faults.Pairwise fun error later =>
      error.token.line ≤ later.token.line ∨ later.fault = .invalidTarget ∧
          (error.fault = .invalidTarget ∨ error.fault = .tooManyArguments) := by
  intro tokens ending faults
  have ends : ending.isEnd = true := rfl
  have sorted : (tokens ++ [ending]).Pairwise fun token next => token.line ≤ next.line := by
    decide +kernel
  have lines : faults.map (·.token.line) = [1, 3, 2, 4] := by
    decide +kernel
  exact ⟨⟨ends, sorted⟩, lines,
    (only_invalid_targets_are_reported_late tokens ending 0 ends sorted).1⟩

end Treewalk
