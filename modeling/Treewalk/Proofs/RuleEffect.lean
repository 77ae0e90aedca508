import Treewalk.Proofs.Derivation

/-!
# Effects of rules

What a rule does when it notes no fault: which tokens it takes from the front,
which ids it hands out and what it yields.  Noted faults are never dropped, so
a rule that ends without one has used only rules that did, and effects compose
along `bind`.  Ids are never taken back either, whether a rule stops or not.
-/

namespace Treewalk

namespace Rule

variable {α β : Type}

/-- What a rule does to the tokens ahead and to the ids, and what it yields. -/
abbrev Effect (α : Type) :=
  List Token → ExprId → α → List Token → ExprId → Prop

/-- Where a rule ends, whether it yields a value or stops. -/
def ending : EStateM.Result GrammarError Cursor α → Cursor
  | .ok _ cursor => cursor
  | .error _ cursor => cursor

/-- Faults that were noted and ids that were handed out are still so. -/
structure Retains (cursor : Cursor) (errors : List GrammarError)
    (id : ExprId) : Prop where
  errors : errors <+: cursor.errors
  ids : id ≤ cursor.nextId

theorem Retains.refl (cursor : Cursor) : Retains cursor cursor.errors cursor.nextId :=
  ⟨List.prefix_refl _, Nat.le_refl _⟩

theorem Retains.note (cursor : Cursor) (error : GrammarError) :
    Retains (cursor.note error) cursor.errors cursor.nextId :=
  ⟨List.prefix_append _ _, Nat.le_refl _⟩

theorem Retains.trans {middle after : Cursor} {errors : List GrammarError}
    {id : ExprId} (retained : Retains middle errors id)
    (further : Retains after middle.errors middle.nextId) :
    Retains after errors id :=
  ⟨retained.errors.trans further.errors, Nat.le_trans retained.ids further.ids⟩

/--
The rule drops no fault that was noted before, and whenever it yields a value
without noting one, it has a given effect.
-/
structure Yields (rule : Rule α) (effect : Effect α) : Prop where
  keeps : ∀ cursor, Retains (ending (rule cursor)) cursor.errors cursor.nextId
  clean : ∀ cursor value after, rule cursor = .ok value after → after.errors = cursor.errors →
      effect cursor.ahead cursor.nextId value after.ahead after.nextId

/-- What `Yields` says of one run of a rule. -/
structure Traces (result : EStateM.Result GrammarError Cursor α)
    (errors : List GrammarError) (id : ExprId)
    (effect : α → List Token → ExprId → Prop) : Prop where
  keeps : Retains (ending result) errors id
  clean : ∀ value after, result = .ok value after → after.errors = errors →
    effect value after.ahead after.nextId

namespace Yields

variable {effect : Effect α} {rule : Rule α}

theorem traces (yields : rule.Yields effect) (cursor : Cursor) :
    Traces (rule cursor) cursor.errors cursor.nextId (effect cursor.ahead cursor.nextId) :=
  ⟨yields.keeps cursor, yields.clean cursor⟩

/-- A rule that looks at the tokens ahead is judged run by run. -/
theorem of_traces (each : ∀ cursor, Traces (rule cursor) cursor.errors cursor.nextId
        (effect cursor.ahead cursor.nextId)) : rule.Yields effect :=
  ⟨fun cursor => (each cursor).keeps, fun cursor => (each cursor).clean⟩

theorem weaken {strong weak : Effect α} (yields : rule.Yields strong)
    (implies : ∀ input first value rest next, strong input first value rest next →
        weak input first value rest next) : rule.Yields weak where
  keeps := yields.keeps
  clean cursor value after ran kept :=
    implies _ _ _ _ _ (yields.clean cursor value after ran kept)

/-- Effects compose along rules. -/
theorem bind {rule : Rule α} {cont : α → Rule β}
    {effect : Effect α} {further : α → Effect β} (yields : rule.Yields effect)
    (continues : ∀ value, (cont value).Yields (further value)) :
    (rule >>= cont).Yields (fun input first result rest next => ∃ value middle id,
        effect input first value middle id ∧ further value middle id result rest next) where
  keeps cursor := by
    have front := yields.keeps cursor
    simp only [Bind.bind, EStateM.bind]
    cases ran : rule cursor with
    | ok value middle =>
      rw [ran] at front
      exact front.trans ((continues value).keeps middle)
    | error error middle =>
      rw [ran] at front
      exact front
  clean cursor result after ran kept := by
    have front := yields.keeps cursor
    simp only [Bind.bind, EStateM.bind] at ran
    cases started : rule cursor with
    | ok value middle =>
      rw [started] at ran front
      replace ran : cont value middle = .ok result after := ran
      have back := (continues value).keeps middle
      rw [ran] at back
      -- The faults in the middle lie between two equal lists of faults.
      have same : middle.errors = cursor.errors := by
        have shorter := back.errors.length_le
        simp only [ending, kept] at shorter
        exact (front.errors.eq_of_length_le shorter).symm
      exact ⟨value, middle.ahead, middle.nextId, yields.clean cursor value middle started same,
        (continues value).clean middle result after ran (kept.trans same.symm)⟩
    | error error middle =>
      rw [started] at ran
      cases ran

/-- The second rule is judged by what it adds to the first. -/
theorem andThen {cont : α → Rule β} {whole : Effect β} (yields : rule.Yields effect)
    (continues : ∀ value, (cont value).Yields (fun middle id result rest next => ∀ input first,
        effect input first value middle id → whole input first result rest next)) :
    (rule >>= cont).Yields whole := by
  refine (yields.bind continues).weaken ?_
  rintro input first result rest next ⟨value, middle, id, head, tail⟩
  exact tail input first head

theorem pure (value : α) : (Pure.pure value : Rule α).Yields (fun input first result rest next =>
        result = value ∧ rest = input ∧ next = first) where
  keeps cursor := .refl cursor
  clean _ _ _ ran _ := by
    cases ran
    exact ⟨rfl, rfl, rfl⟩

/-- A rule that takes no token, hands out no id and yields a value. -/
theorem returning {value : α} (holds : ∀ input first, effect input first value input first) :
    (Pure.pure value : Rule α).Yields effect := by
  refine (pure value).weaken ?_
  rintro _ _ _ _ _ ⟨rfl, rfl, rfl⟩
  exact holds _ _

theorem fail (fault : GrammarFault) : (Rule.fail fault : Rule α).Yields effect where
  keeps cursor := .refl cursor
  clean _ _ _ ran _ := by cases ran

theorem noteAt (fault : GrammarFault) (token : Token) :
    (Rule.noteAt fault token).Yields (fun _ _ _ _ _ => False) where
  keeps cursor := .note cursor _
  clean _ _ _ ran kept := by
    cases ran
    simp [Cursor.note] at kept

theorem noteHere (fault : GrammarFault) :
    (Rule.noteHere fault).Yields (fun _ _ _ _ _ => False) where
  keeps cursor := .note cursor _
  clean _ _ _ ran kept := by
    cases ran
    simp [Cursor.note] at kept

/-- A rule that hands out an id and yields a value with it. -/
theorem freshly {value : ExprId → α}
    (holds : ∀ input first, effect input first (value first) input (first + 1)) :
    (do return value (← Rule.freshId) : Rule α).Yields effect where
  keeps _ := ⟨List.prefix_refl _, Nat.le_succ _⟩
  clean _ _ _ ran _ := by
    cases ran
    exact holds _ _

/--
A rule that goes on by whether the next token passes a test, which takes the
token if it does.
-/
theorem takeThen {test : Token → Bool} {cont : Option Token → Rule β} {effect : Effect β}
    (absent : (cont none).Yields (fun input first value rest next =>
        Grammar.isAhead test input = false → effect input first value rest next))
    (present : ∀ token, test token → (cont (some token)).Yields (fun input first value rest next =>
          effect (token :: input) first value rest next)) :
    (Rule.takeIf test >>= cont).Yields effect := by
  refine of_traces fun cursor => ?_
  obtain ⟨input, ending, first, errors⟩ := cursor
  cases input with
  | nil =>
    refine ⟨absent.keeps _, fun value after ran kept => ?_⟩
    exact absent.clean _ value after ran kept rfl
  | cons token input =>
    simp only [Bind.bind, EStateM.bind, Rule.takeIf]
    by_cases passes : test token
    · simp only [passes, if_true]
      have yields := present token passes
      exact ⟨yields.keeps _, yields.clean ⟨input, ending, first, errors⟩⟩
    · simp only [passes, if_false, Bool.false_eq_true]
      refine ⟨absent.keeps _, fun value after ran kept => ?_⟩
      exact absent.clean _ value after ran kept (Bool.eq_false_iff.mpr passes)

/-- A rule that expects a token takes one that passes. -/
theorem expect (test : Token → Bool) (fault : GrammarFault) : (Rule.expect test fault).Yields
      (fun input first token rest next => input = token :: rest ∧ test token ∧ next = first) :=
  takeThen (fail fault) fun _ passes => returning fun _ _ => ⟨rfl, passes, rfl⟩

section

variable {fault : GrammarFault} {cont : Token → Rule β} {effect : Effect β}

/-- A rule that goes on behind a token that has to pass a test. -/
theorem expectThen {test : Token → Bool} (continues : ∀ token, test token →
      (cont token).Yields (fun input => effect (token :: input))) :
    (Rule.expect test fault >>= cont).Yields effect := by
  have same : (Rule.expect test fault >>= cont) =
      Rule.takeIf test >>= fun found => found.elim (Rule.fail fault) cont := by
    rw [Rule.expect, bind_assoc]
    refine bind_congr fun found => ?_
    cases found <;> rfl
  rw [same]
  exact takeThen (fail fault) continues

theorem nameThen (continues : ∀ name, name.kind = .identifier →
      (cont name).Yields (fun input => effect (name :: input))) :
    (Rule.expectName fault >>= cont).Yields effect :=
  expectThen fun name named => continues name (eq_of_beq named)

/-- A rule that goes on in two ways with the same effect. -/
theorem seesThen {mark : Punctuator} {cont : Bool → Rule β}
    (continues : ∀ seen, (cont seen).Yields effect) :
    (Rule.sees mark >>= cont).Yields effect :=
  of_traces fun cursor => (continues (cursor.sees mark)).traces cursor

end

end Yields

/-- One item after the other. -/
inductive Repeated (item : Effect α) : Effect (List α) where
  | none {rest first} : Repeated item rest first [] rest first
  | more {input first value middle id values rest next} (head : item input first value middle id)
      (tail : Repeated item middle id values rest next) :
      Repeated item input first (value :: values) rest next

/-- At least one item, with commas between them. -/
inductive Separated (item : Effect α) : Effect (List α) where
  | last {input first value rest next} (head : item input first value rest next) :
      Separated item input first [value] rest next
  | more {input first value comma middle id values rest next}
      (head : item input first value (comma :: middle) id) (separates : comma.isMark .comma)
      (tail : Separated item middle id values rest next) :
      Separated item input first (value :: values) rest next

namespace Yields

/--
Items are repeated until the end or a stop.  If every item takes a token and
there are as many rounds as tokens, it is not the rounds that end it.
-/
theorem repeatUntil {item : Rule α} {effect : Effect α}
    (stop : Cursor → Bool) (yields : item.Yields effect)
    (takes : ∀ input first value rest next,
      effect input first value rest next → rest.length < input.length)
    (rounds : Nat) :
    (Rule.repeatUntil stop item rounds).Yields (fun input first values rest next =>
        Repeated effect input first values rest next ∧
          (input.length ≤ rounds → (∀ cursor, stop cursor = false) → rest = [])) := by
  induction rounds with
  | zero =>
    exact returning fun _ _ => ⟨.none, fun short _ => List.length_eq_zero_iff.mp (by omega)⟩
  | succ rounds ih =>
    have round := yields.bind fun first => ih.bind fun others => pure (first :: others)
    constructor
    · intro cursor
      unfold Rule.repeatUntil
      split
      · exact .refl cursor
      · exact round.keeps cursor
    · intro cursor values after ran kept
      unfold Rule.repeatUntil at ran
      split at ran
      · next stops =>
        cases ran
        refine ⟨.none, fun _ never => ?_⟩
        simpa [Cursor.atEnd, never] using stops
      · obtain ⟨value, middle, id, head, others, _, _, ⟨tail, ends⟩, rfl,
          rest, next⟩ := round.clean cursor values after ran kept
        rw [rest, next]
        refine ⟨.more head tail, fun short never => ends ?_ never⟩
        have shorter := takes _ _ _ _ _ head
        omega

section

variable {item : Rule α} {effect : Effect α} (overflow : GrammarFault) (yields : item.Yields effect)

include overflow yields

theorem countedItem (count : Nat) :
    (Rule.countedItem overflow item count).Yields (fun input first value rest next =>
        effect input first value rest next ∧ count < maxArity) := by
  unfold Rule.countedItem
  split
  · exact (noteHere overflow).andThen fun _ =>
      yields.weaken fun _ _ _ _ _ _ _ _ impossible => impossible.elim
  · next room =>
    refine ((pure PUnit.unit).bind fun _ => yields).weaken ?_
    rintro input first value rest next ⟨_, _, _, ⟨_, rfl, rfl⟩, read⟩
    exact ⟨read, Nat.lt_of_not_le room⟩

/-- The items of a list stand between commas. -/
theorem separated (rounds count : Nat) :
    (Rule.separated overflow item rounds count).Yields (fun input first values rest next =>
        Separated effect input first values rest next ∧ count + values.length ≤ maxArity) := by
  induction rounds generalizing count with
  | zero =>
    exact (countedItem overflow yields count).andThen fun _ =>
      returning fun _ _ _ _ read => ⟨.last read.1, read.2⟩
  | succ rounds ih =>
    refine (countedItem overflow yields count).andThen fun value =>
      takeThen (returning fun _ _ _ _ _ read => ⟨.last read.1, read.2⟩) fun comma separates => ?_
    refine (ih (count + 1)).andThen fun others => returning ?_
    rintro _ _ _ _ ⟨tail, room⟩ _ _ ⟨head, _⟩
    refine ⟨.more head separates tail, ?_⟩
    simp only [List.length_cons]
    omega

end

/-- A list between parentheses is empty or has at least one item. -/
theorem listed {item : Rule α} {effect : Effect α} (limit : Nat)
    (overflow : GrammarFault) (yields : item.Yields effect) :
    (Rule.listed limit overflow item).Yields (fun input first values rest next =>
        (values = [] ∧ rest = input ∧ next = first) ∨
          (Separated effect input first values rest next ∧ values.length ≤ maxArity)) := by
  refine seesThen fun seen => ?_
  cases seen with
  | true => exact returning fun _ _ => .inl ⟨rfl, rfl, rfl⟩
  | false =>
    refine (separated overflow yields limit 0).weaken ?_
    rintro input first values rest next ⟨read, room⟩
    exact .inr ⟨read, by omega⟩

end Yields

end Rule

end Treewalk
