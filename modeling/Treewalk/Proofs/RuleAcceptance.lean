import Treewalk.Proofs.Derivation

/-!
# Acceptance by rules

A rule accepts tokens if it takes them, hands out ids, yields a value and
notes no fault, whatever the end mark and the faults noted before.  Acceptance
composes along `bind`.
-/

namespace Treewalk

namespace Rule

variable {α β : Type}

/-- The rule yields a value, takes some tokens and notes no fault. -/
def Accepts (rule : Rule α) (input : List Token) (first : ExprId) (value : α)
    (rest : List Token) (next : ExprId) : Prop :=
  ∀ ending errors, rule ⟨input, ending, first, errors⟩ = .ok value ⟨rest, ending, next, errors⟩

namespace Accepts

variable {input middle rest : List Token} {first id next : ExprId}

/-- What is accepted twice in a row is accepted. -/
theorem bind {rule : Rule α} {cont : α → Rule β} {value : α} {result : β}
    (head : Accepts rule input first value middle id)
    (tail : Accepts (cont value) middle id result rest next) :
    Accepts (rule >>= cont) input first result rest next := by
  intro ending errors
  simp only [Bind.bind, EStateM.bind, head ending errors]
  exact tail ending errors

theorem pure (value : α) : Accepts (Pure.pure value) input first value input first := by
  intro ending errors
  rfl

theorem freshId : Accepts Rule.freshId input first first input (first + 1) := by
  intro ending errors
  rfl

/-- A token that passes is taken. -/
theorem takeIf_some {test : Token → Bool} {token : Token} (passes : test token) :
    Accepts (takeIf test) (token :: rest) first (some token) rest first := by
  intro ending errors
  simp only [takeIf, passes, if_true]

theorem takeIf_none {test : Token → Bool} (absent : Grammar.isAhead test input = false) :
    Accepts (takeIf test) input first none input first := by
  intro ending errors
  cases input with
  | nil => rfl
  | cons token tail =>
    simp only [Grammar.isAhead] at absent
    simp [takeIf, absent]

section

variable {token : Token} (fault : GrammarFault)

include fault

theorem expect {test : Token → Bool} (passes : test token) :
    Accepts (Rule.expect test fault) (token :: rest) first token rest first :=
  (takeIf_some passes).bind (pure token)

theorem expectMark {mark : Punctuator} (marked : token.isMark mark) :
    Accepts (Rule.expectMark mark fault) (token :: rest) first token rest first :=
  expect fault marked

theorem expectName (named : token.kind = .identifier) :
    Accepts (Rule.expectName fault) (token :: rest) first token rest first :=
  expect fault (by simp [named])

end

theorem sees (mark : Punctuator) : Accepts (Rule.sees mark) input first
      (Grammar.isAhead (·.isMark mark) input) input first := by
  intro ending errors
  cases input <;> rfl

variable {overflow : GrammarFault} {item : Rule α} {values : List α} {value : α}

theorem repeatUntil_nil {stop : Cursor → Bool}
    (stops : ∀ cursor : Cursor, cursor.ahead = input → (cursor.atEnd || stop cursor) = true)
    (rounds : Nat) : Accepts (repeatUntil stop item rounds) input first [] input first := by
  intro ending errors
  cases rounds with
  | zero => rfl
  | succ rounds =>
    unfold repeatUntil
    rw [if_pos (stops _ rfl)]

theorem repeatUntil_cons {stop : Cursor → Bool} {rounds : Nat}
    (continues : ∀ cursor : Cursor, cursor.ahead = input → (cursor.atEnd || stop cursor) = false)
    (head : Accepts item input first value middle id)
    (tail : Accepts (repeatUntil stop item rounds) middle id values rest next) :
    Accepts (repeatUntil stop item (rounds + 1)) input first (value :: values) rest next := by
  intro ending errors
  unfold repeatUntil
  rw [if_neg (by simp [continues ⟨input, ending, first, errors⟩ rfl])]
  exact (head.bind (tail.bind (pure (value :: values)))) ending errors

section

variable {count : Nat} (room : count < maxArity)

include room

theorem countedItem {overflow : GrammarFault} {item : Rule α} {value : α}
    (head : Accepts item input first value rest next) :
    Accepts (Rule.countedItem overflow item count) input first value rest next := by
  unfold Rule.countedItem
  rw [if_neg (Nat.not_le_of_lt room)]
  exact head

theorem separated_last (head : Accepts item input first value rest next)
    (ended : Grammar.isAhead (·.isMark .comma) rest = false) (rounds : Nat) :
    Accepts (separated overflow item rounds count) input first [value] rest next := by
  cases rounds with
  | zero => exact (countedItem room head).bind (pure [value])
  | succ rounds => exact (countedItem room head).bind ((takeIf_none ended).bind (pure [value]))

/-- A list goes on behind a comma. -/
theorem separated_more {comma : Token} {rounds : Nat}
    (head : Accepts item input first value (comma :: middle) id) (separates : comma.isMark .comma)
    (tail : Accepts (separated overflow item rounds (count + 1)) middle id values rest next) :
    Accepts (separated overflow item (rounds + 1) count) input first (value :: values) rest next :=
  (countedItem room head).bind ((takeIf_some separates).bind (tail.bind (pure (value :: values))))

end

theorem listed_nil (limit : Nat)
    (closes : Grammar.isAhead (·.isMark .rightParen) input = true) :
    Accepts (listed limit overflow item) input first [] input first := by
  refine (sees .rightParen).bind ?_
  rw [closes]
  exact pure []

/-- A list that is not empty is read item by item. -/
theorem listed_separated {limit : Nat}
    (begins : Grammar.isAhead (·.isMark .rightParen) input = false)
    (items : Accepts (separated overflow item limit 0) input first values rest next) :
    Accepts (listed limit overflow item) input first values rest next := by
  refine (sees .rightParen).bind ?_
  rw [begins]
  exact items

end Accepts

end Rule

end Treewalk
