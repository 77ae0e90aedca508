import Treewalk.Proofs.Analysis
import Treewalk.Proofs.PrintedNumbers
import Treewalk.Proofs.ProgramTexts
import Treewalk.Tree.Form

/-!
# Forms can be read in one way

A form shows a tree without the ids of its occurrences and the lines of its
tokens.  Its text can be cut into words and lists in one way, and a word is
read as the scanner reads it; so the tree can be read back from its form.  This
is not so for strings, which stand in a form without their quotes, nor for
numbers that are too large, which are shown by a word that is a name.
-/

namespace Treewalk

open Numeral Scan List

/-! ## Texts of forms -/

namespace Form

/-- The characters of words; the others set words apart. -/
def isInner (character : Char) : Bool :=
  character != ' ' && character != '(' && character != ')'

/-- Words are not empty, and no character in them sets words apart. -/
inductive Clean : Form → Prop where
  | word {text : String} (filled : text.toList ≠ []) (inside : text.toList.all isInner = true) :
      Clean (.word text)
  | list {forms : List Form} (clean : ∀ form ∈ forms, Clean form) : Clean (.list forms)

/-- What can stand behind a form. -/
def Follows (rest : List Char) : Prop :=
  ∀ char ∈ rest.head?, char = ' ' ∨ char = ')'

variable {word word' rest rest' : List Char}

theorem word_ne {more : List Char} {delimiter : Char} (filled : word ≠ [])
    (inside : word.all isInner = true) (outer : isInner delimiter = false) :
    word ++ rest ≠ delimiter :: more := by
  intro same
  rcases word with _ | ⟨first, word⟩
  · exact filled rfl
  · cases same
    rw [all_cons, outer] at inside
    cases inside

theorem write_ne_close {form : Form} (clean : form.Clean) (rest more : List Char) :
    form.write rest ≠ ')' :: more := by
  cases clean with
  | word filled inside => exact word_ne filled inside (by decide)
  | list => exact fun same => absurd (cons.inj same).1 (by decide)

theorem Follows.stops (follows : Follows rest) : Stops isInner rest := by
  intro char head
  rcases follows char head with rfl | rfl <;> rfl

/-- A word ends in front of the first delimiter. -/
theorem eq_of_word (inside : word.all isInner = true) (inside' : word'.all isInner = true)
    (follows : Follows rest) (follows' : Follows rest') (same : word ++ rest = word' ++ rest') :
    word = word' ∧ rest = rest' := by
  rw [all_eq_true] at inside inside'
  have taken := congrArg (takeWhile isInner) same
  have left := congrArg (dropWhile isInner) same
  rw [takeWhile_run inside follows.stops, takeWhile_run inside' follows'.stops] at taken
  rw [dropWhile_run inside follows.stops, dropWhile_run inside' follows'.stops] at left
  exact ⟨taken, left⟩

theorem follows_nil : Follows [] := by
  rintro _ ⟨⟩

theorem follows_space (rest : List Char) : Follows (' ' :: rest) := by
  rintro _ ⟨⟩
  exact .inl rfl

theorem follows_close (rest : List Char) : Follows (')' :: rest) := by
  rintro _ ⟨⟩
  exact .inr rfl

mutual

/-- A text starts with one form only. -/
theorem eq_of_write : ∀ {form form' : Form} {rest rest' : List Char}, form.Clean → form'.Clean →
    Follows rest → Follows rest' → form.write rest = form'.write rest' →
      form = form' ∧ rest = rest'
  | .word _, .word _, _, _, .word _ inside, .word _ inside', follows, follows', same => by
    rcases eq_of_word inside inside' follows follows' same with ⟨words, rests⟩
    exact ⟨congrArg _ (String.toList_inj.mp words), rests⟩
  | .word _, .list _, _, _, .word filled inside, _, _, _, same =>
    absurd same (word_ne filled inside (by decide))
  | .list _, .word _, _, _, _, .word filled inside, _, _, same =>
    absurd same.symm (word_ne filled inside (by decide))
  | .list _, .list _, _, _, .list clean, .list clean', _, _, same => by
    rcases eq_of_writeInner clean clean' (cons.inj same).2 with ⟨forms, rests⟩
    exact ⟨congrArg _ forms, rests⟩

theorem eq_of_writeInner : ∀ {forms forms' : List Form} {rest rest' : List Char},
    (∀ form ∈ forms, form.Clean) → (∀ form ∈ forms', form.Clean) →
    writeInner forms (')' :: rest) = writeInner forms' (')' :: rest') →
      forms = forms' ∧ rest = rest'
  | [], [], _, _, _, _, same => ⟨rfl, (cons.inj same).2⟩
  | [], [_], _, _, _, clean', same | [], _ :: _ :: _, _, _, _, clean', same =>
    absurd same.symm (write_ne_close (clean' _ (.head _)) _ _)
  | [_], [], _, _, clean, _, same | _ :: _ :: _, [], _, _, clean, _, same =>
    absurd same (write_ne_close (clean _ (.head _)) _ _)
  | [_], [_], _, _, clean, clean', same => by
    rcases eq_of_write (clean _ (.head _)) (clean' _ (.head _)) (follows_close _) (follows_close _)
      same with ⟨rfl, rests⟩
    exact ⟨rfl, (cons.inj rests).2⟩
  | [_], _ :: _ :: _, _, _, clean, clean', same => by
    cases (eq_of_write (clean _ (.head _)) (clean' _ (.head _)) (follows_close _)
      (follows_space _) same).2
  | _ :: _ :: _, [_], _, _, clean, clean', same => by
    cases (eq_of_write (clean _ (.head _)) (clean' _ (.head _)) (follows_space _)
      (follows_close _) same).2
  | _ :: _ :: _, _ :: _ :: _, _, _, clean, clean', same => by
    rcases eq_of_write (clean _ (.head _)) (clean' _ (.head _)) (follows_space _) (follows_space _)
      same with ⟨rfl, rests⟩
    rcases eq_of_writeInner (fun _ mem => clean _ (.tail _ mem))
      (fun _ mem => clean' _ (.tail _ mem))
      (cons.inj rests).2 with ⟨others, rests⟩
    exact ⟨congrArg _ others, rests⟩

end

end Form

/-! ## Trees without ids and lines -/

/-- The token, on no line. -/
def Token.bare (token : Token) : Token :=
  { token with line := 0 }

namespace Expr

mutual

/-- The expression without the ids of its occurrences and the lines of its tokens. -/
def bare : Expr → Expr
  | literal value => literal value
  | unary operator operand => unary operator.bare (bare operand)
  | binary left operator right => binary (bare left) operator.bare (bare right)
  | grouping inner => grouping (bare inner)
  | name _ token => name 0 token.bare
  | assign _ target value => assign 0 target.bare (bare value)
  | logical left operator right => logical (bare left) operator.bare (bare right)
  | call callee closing arguments => call (bare callee) closing.bare (bareAll arguments)
  | get object property => get (bare object) property.bare
  | set object property value => set (bare object) property.bare (bare value)
  | receiver _ keyword => receiver 0 keyword.bare

def bareAll : List Expr → List Expr
  | [] => []
  | value :: values => bare value :: bareAll values

end

end Expr

mutual

/-- The function without ids and lines. -/
def FunctionDecl.bare : FunctionDecl → FunctionDecl
  | .mk name parameters body => .mk name.bare (parameters.map Token.bare) (Stmt.bareAll body)

def FunctionDecl.bareAll : List FunctionDecl → List FunctionDecl
  | [] => []
  | declaration :: declarations => declaration.bare :: FunctionDecl.bareAll declarations

/-- The statement without ids and lines. -/
def Stmt.bare : Stmt → Stmt
  | .expression value => .expression value.bare
  | .print value => .print value.bare
  | .varDecl name initial => .varDecl name.bare (initial.map Expr.bare)
  | .block body => .block (Stmt.bareAll body)
  | .ifElse condition yes none => .ifElse condition.bare yes.bare none
  | .ifElse condition yes (some no) => .ifElse condition.bare yes.bare (some no.bare)
  | .whileLoop condition body => .whileLoop condition.bare body.bare
  | .funDecl declaration => .funDecl declaration.bare
  | .returnValue keyword value => .returnValue keyword.bare (value.map Expr.bare)
  | .classDecl name superclass methods =>
    .classDecl name.bare (superclass.map Expr.bare) (FunctionDecl.bareAll methods)

def Stmt.bareAll : List Stmt → List Stmt
  | [] => []
  | statement :: statements => statement.bare :: Stmt.bareAll statements

end

/-! ## Reading forms -/

namespace Form

open Grammar

/-- The token that a word is read as, on no line. -/
def token? (word : String) : Option Token :=
  match (scan word).tokens with
  | [token, _] => some token.bare
  | _ => none

/-- The expression that is written as one token. -/
def atom? (token : Token) : Option Expr :=
  match token.kind with
  | .identifier => some (.name 0 token)
  | .keyword .thisWord => some (.receiver 0 token)
  | _ => (constant? token).map .literal

/-- The expression with a given head and operands. -/
def assemble? (head : Token) (operands : List Expr) : Option Expr :=
  match head.kind, operands with
  | .identifier, inner :: arguments =>
    if head.lexeme = "group" then some (.grouping inner)
    else some (.call inner ⟨.punctuator .rightParen, ")", 0⟩ arguments)
  | .punctuator .dot, [object, .name _ property] => some (.get object property)
  | .punctuator .equal, [.name _ target, value] => some (.assign 0 target value)
  | .punctuator .equal, [.get object property, value] => some (.set object property value)
  | .punctuator _, [operand] => some (.unary head operand)
  | .punctuator _, [left, right] => some (.binary left head right)
  | .keyword _, [left, right] => some (.logical left head right)
  | _, _ => none

mutual

/-- The expression that a form shows. -/
def expr? : Form → Option Expr
  | word text => (token? text).bind atom?
  | list (word head :: operands) => do assemble? (← token? head) (← exprs? operands)
  | _ => none

def exprs? : List Form → Option (List Expr)
  | [] => some []
  | form :: forms => do return (← expr? form) :: (← exprs? forms)

end

/-- The name that a word is. -/
def name? : Form → Option Token
  | word text => some ⟨.identifier, text, 0⟩
  | list _ => none

mutual

/-- The statement that a form shows. -/
def stmt? : Form → Option Stmt
  | list [word ";", value] => do return .expression (← value.expr?)
  | list [word "print", value] => do return .print (← value.expr?)
  | list [word "var", name] => do return .varDecl (← name.name?) none
  | list [word "var", name, initial] => do
    return .varDecl (← name.name?) (some (← initial.expr?))
  | list (word "block" :: body) => do return .block (← stmts? body)
  | list [word "if", condition, yes] => do
    return .ifElse (← condition.expr?) (← stmt? yes) none
  | list [word "if", condition, yes, no] => do
    return .ifElse (← condition.expr?) (← stmt? yes) (some (← stmt? no))
  | list [word "while", condition, body] => do
    return .whileLoop (← condition.expr?) (← stmt? body)
  | list [word "return"] => some (.returnValue ⟨.keyword .returnWord, "return", 0⟩ none)
  | list [word "return", value] => do
    return .returnValue ⟨.keyword .returnWord, "return", 0⟩ (some (← value.expr?))
  | list (word "fun" :: parts) => do return .funDecl (← function? parts)
  | list (word "class" :: name :: word "<" :: superclass :: methods) => do
    return .classDecl (← name.name?) (some (← superclass.expr?)) (← methods? methods)
  | list (word "class" :: name :: methods) => do
    return .classDecl (← name.name?) none (← methods? methods)
  | _ => none

def stmts? : List Form → Option (List Stmt)
  | [] => some []
  | form :: forms => do return (← stmt? form) :: (← stmts? forms)

def methods? : List Form → Option (List FunctionDecl)
  | [] => some []
  | list (word "method" :: parts) :: forms => do
    return (← function? parts) :: (← methods? forms)
  | _ => none

def function? : List Form → Option FunctionDecl
  | name :: list parameters :: body => do
    return .mk (← name.name?) (← parameters.mapM name?) (← stmts? body)
  | _ => none

end

end Form

/-! ## Legible tokens -/

namespace Token

/-- The token is no string, and a finite number if it is one. -/
def isPlain (token : Token) : Bool :=
  match token.kind with
  | .string _ => false
  | .number value => value.isFinite
  | _ => true

/-- The token is plain and spelled as its kind says. -/
structure Legible (token : Token) : Prop where
  lexeme : Lexeme token.kind token.lexeme.toList
  plain : token.isPlain = true

variable {token : Token}

theorem Legible.bare_word {word : Keyword} (legible : token.Legible) (worded : token.isWord word) :
    token.bare = ⟨.keyword word, word.spelling, 0⟩ := by
  have spelled := legible.lexeme
  rcases token with ⟨kind, lexeme, line⟩
  cases Grammar.kind_of_isWord worded
  generalize written : lexeme.toList = taken at spelled
  cases spelled
  rw [Token.bare, String.toList_inj.mp written]

theorem Legible.bare_closing (legible : token.Legible) (closes : token.isMark .rightParen) :
    token.bare = ⟨.punctuator .rightParen, ")", 0⟩ := by
  have spelled := legible.lexeme
  rcases token with ⟨kind, lexeme, line⟩
  cases Grammar.kind_of_isMark closes
  generalize written : lexeme.toList = taken at spelled
  cases spelled
  rw [Token.bare, ← String.ofList_toList (s := lexeme), written]
  rfl

end Token

/-- The nodes are grown from legible tokens. -/
abbrev LegiblyGrown (nodes : List Node) : Prop :=
  Node.Everywhere (Node.Grown Token.Legible) nodes

/-- The text of a number in trees is read as that number. -/
theorem Unsigned.lexeme_numberText {number : Float} {bits : Nat} (unsigned : Unsigned number bits) :
    Lexeme (.number number) (Literal.numberText number).toList := by
  rw [Literal.numberText, unsigned.parts_eq]
  simp only
  split
  · next integral =>
    rw [signed, if_neg Bool.false_ne_true, String.toList_append, Nat.toList_repr]
    exact unsigned.lexeme_whole integral 1
  · next fractional => exact unsigned.lexeme_plain (Bool.eq_false_iff.mpr fractional)

namespace Form

open Grammar

/-- The kinds of tokens that are words in forms. -/
def isWordly : TokenKind → Bool
  | .string _ | .punctuator .leftParen | .punctuator .rightParen => false
  | _ => true

theorem isInner_of_passes {char : Char} (passes : Letter char ∨ Digit char) :
    isInner char = true := by
  rw [← startsName_iff, ← isDigit_iff] at passes
  simp only [isInner, Bool.and_eq_true, bne_iff_ne]
  refine ⟨⟨?_, ?_⟩, ?_⟩ <;>
  · rintro rfl
    revert passes
    decide

theorem inside_of_lexeme {kind : TokenKind} {taken : List Char} (lexeme : Lexeme kind taken)
    (wordly : isWordly kind = true) : taken.all isInner = true := by
  have digits {run : List Char} (passes : ∀ char ∈ run, Digit char) : run.all isInner = true :=
    all_eq_true.mpr fun char mem => isInner_of_passes (.inr (passes char mem))
  cases lexeme with
  | mark mark => cases mark <;> cases wordly <;> rfl
  | whole _ passes => exact digits passes
  | fraction _ passes _ fractional =>
    rw [all_append, all_cons, digits passes, digits fractional]
    rfl
  | reserved word => cases word <;> decide
  | name starts continues =>
    rw [all_cons, isInner_of_passes (.inl starts), Bool.true_and, all_eq_true]
    exact fun char mem => isInner_of_passes (continues char mem)
  | string => cases wordly

/-- The lexeme of a word is clean. -/
theorem clean_of_lexeme {kind : TokenKind} {text : String} (lexeme : Lexeme kind text.toList)
    (wordly : isWordly kind = true) : Clean (word text) := by
  rcases lexeme.alone with ⟨first, more, spelled, _, _⟩
  exact .word (spelled ▸ cons_ne_nil _ _) (inside_of_lexeme lexeme wordly)

/-- A word is read as the token it was written for. -/
theorem token?_of_lexeme {kind : TokenKind} {word : String} (lexeme : Lexeme kind word.toList) :
    token? word = some ⟨kind, word, 0⟩ := by
  rcases readAlone_iff.mpr lexeme with ⟨line, last, read⟩
  simp only [token?, read]
  rfl

/-- The form is clean and shows a tree. -/
structure Shows {α : Type} (read : Form → Option α) (form : Form) (tree : α) : Prop where
  clean : form.Clean
  reads : read form = some tree

/-- The forms are clean and show a tree together. -/
structure ShowAll {α : Type} (read : List Form → Option α) (forms : List Form) (tree : α) :
    Prop where
  clean : ∀ form ∈ forms, form.Clean
  reads : read forms = some tree

theorem ShowAll.nil : ShowAll exprs? [] [] :=
  ⟨forall_mem_nil _, rfl⟩

variable {form : Form} {forms : List Form} {value : Expr} {values : List Expr}
  {kind : TokenKind} {token : Token} {text : String}

theorem Shows.cons (first : Shows expr? form value) (others : ShowAll exprs? forms values) :
    ShowAll exprs? (form :: forms) (value :: values) where
  clean := forall_mem_cons.mpr ⟨first.clean, others.clean⟩
  reads := by simp [exprs?, first.reads, others.reads]

theorem Shows.one (only : Shows expr? form value) : ShowAll exprs? [form] [value] :=
  only.cons .nil

theorem Shows.word (lexeme : Lexeme kind text.toList) (wordly : isWordly kind = true)
    (stands : atom? ⟨kind, text, 0⟩ = some value) : Shows expr? (.word text) value where
  clean := clean_of_lexeme lexeme wordly
  reads := by rw [expr?, token?_of_lexeme lexeme, Option.bind_some, stands]

/-- The operands show what the form of a head and operands does. -/
theorem ShowAll.list (operands : ShowAll exprs? forms values) (lexeme : Lexeme kind text.toList)
    (wordly : isWordly kind = true) (stands : assemble? ⟨kind, text, 0⟩ values = some value) :
    Shows expr? (.list (.word text :: forms)) value where
  clean := .list (forall_mem_cons.mpr ⟨clean_of_lexeme lexeme wordly, operands.clean⟩)
  reads := by simp [expr?, token?_of_lexeme lexeme, operands.reads, stands]

theorem shows_name (names : token.Names Token.Legible) :
    Shows expr? token.form (.name 0 token.bare) := by
  rcases token with ⟨kind, lexeme, line⟩
  rcases names with ⟨legible, rfl⟩
  exact .word legible.lexeme rfl rfl

theorem lexeme_group : Lexeme .identifier "group".toList :=
  readAlone_iff.mp ⟨1, 1, by decide +kernel⟩

theorem lexeme_call : Lexeme .identifier "call".toList :=
  readAlone_iff.mp ⟨1, 1, by decide +kernel⟩

/-- An operator joins the operands that follow it. -/
theorem ShowAll.operator (operands : ShowAll exprs? forms values) (legible : token.Legible)
    (stands : isWordly token.kind = true ∧ assemble? token.bare values = some value) :
    Shows expr? (.list (token.form :: forms)) value :=
  operands.list legible.lexeme stands.1 stands.2

theorem assemble?_unary (marked : isAnyMark [.bang, .minus] token) (operand : Expr) :
    isWordly token.kind = true ∧
      assemble? token.bare [operand] = some (.unary token.bare operand) := by
  rcases token with ⟨kind, lexeme, line⟩
  cases kind with
  | punctuator mark => cases mark <;> cases marked <;> exact ⟨rfl, rfl⟩
  | _ => cases marked

theorem assemble?_binary (marked : isAnyMark binaryMarks token) (left right : Expr) :
    isWordly token.kind = true ∧
      assemble? token.bare [left, right] = some (.binary left token.bare right) := by
  rcases token with ⟨kind, lexeme, line⟩
  cases kind with
  | punctuator mark => cases mark <;> cases marked <;> exact ⟨rfl, rfl⟩
  | _ => cases marked

theorem assemble?_logical (worded : token.isWord .orWord ∨ token.isWord .andWord)
    (left right : Expr) : isWordly token.kind = true ∧
      assemble? token.bare [left, right] = some (.logical left token.bare right) := by
  rcases token with ⟨kind, lexeme, line⟩
  rcases worded with worded | worded <;>
  · cases kind_of_isWord worded
    exact ⟨rfl, rfl⟩

/-- The text of a constant that a legible token stands for shows it. -/
theorem shows_constant {value : Literal} (legible : token.Legible)
    (stands : constant? token = some value) : Shows expr? (.word value.text) (.literal value) := by
  rcases token with ⟨kind, lexeme, line⟩
  rcases legible with ⟨spelled, plain⟩
  unfold constant? at stands
  split at stands <;> cases stands
  case h_4 same =>
    cases same
    rcases spelled.unsigned plain with ⟨bits, unsigned⟩
    exact .word unsigned.lexeme_numberText rfl rfl
  case h_5 same =>
    cases same
    cases plain
  case h_1 => exact .word (.reserved .falseWord) rfl rfl
  case h_2 => exact .word (.reserved .trueWord) rfl rfl
  case h_3 => exact .word (.reserved .nilWord) rfl rfl

end Form

open Form

namespace Expr

mutual

/-- The form of an expression shows it. -/
theorem shows_form : ∀ {value : Expr}, LegiblyGrown [.expr value] →
      Shows expr? value.form value.bare
  | literal _, grown => by
    rcases grown.here with rfl | ⟨token, legible, stands⟩
    · exact .word (.reserved .trueWord) rfl rfl
    · exact shows_constant legible stands
  | unary _ _, grown =>
    (shows_form grown.below).one.operator grown.here.1 (assemble?_unary grown.here.2 _)
  | binary _ _ _, grown =>
    ((shows_form grown.below.head).cons (shows_form grown.below.tail).one).operator
      grown.here.1 (assemble?_binary grown.here.2 _ _)
  | logical _ _ _, grown =>
    ((shows_form grown.below.head).cons (shows_form grown.below.tail).one).operator
      grown.here.1 (assemble?_logical grown.here.2 _ _)
  | grouping _, grown => (shows_form grown.below).one.list lexeme_group rfl rfl
  | name _ _, grown => shows_name grown.here
  | assign _ _ _, grown =>
    ((shows_name grown.here).cons (shows_form grown.below).one).list (.mark .equal) rfl rfl
  | call _ _ _, grown => by
    have operands := (shows_form grown.below.head).cons (show_forms grown.below.tail)
    rw [form, bare, grown.here.1.bare_closing grown.here.2.1]
    exact operands.list lexeme_call rfl rfl
  | get _ _, grown =>
    ((shows_form grown.below).cons (shows_name grown.here).one).list (.mark .dot) rfl rfl
  | set _ _ _, grown =>
    have object := ((shows_form grown.below.head).cons
      (shows_name grown.here).one).list (.mark .dot) rfl rfl
    (object.cons (shows_form grown.below.tail).one).list (.mark .equal) rfl rfl
  | receiver _ _, grown => by
    rw [form, bare, grown.here.1.bare_word grown.here.2]
    exact .word (.reserved .thisWord) rfl rfl

/-- Expressions are shown by their forms. -/
theorem show_forms : ∀ {values : List Expr}, LegiblyGrown (values.map .expr) →
    ShowAll exprs? (forms values) (bareAll values)
  | [], _ => .nil
  | _ :: _, grown => (shows_form grown.head).cons (show_forms grown.tail)

end

end Expr

/-! ## Statements -/

namespace Form

variable {token : Token} {forms : List Form} {head : String}

/-- The words that the forms of statements and functions start with. -/
def heads : List String :=
  [";", "print", "var", "block", "if", "while", "fun", "return", "class", "method"]

theorem clean_node (mem : head ∈ heads) (clean : ∀ form ∈ forms, form.Clean) :
    Clean (list (word head :: forms)) := by
  refine .list (forall_mem_cons.mpr ⟨?_, clean⟩)
  have inside : heads.all (fun head => !head.toList.isEmpty && head.toList.all isInner) = true := by
    decide
  have passes := all_eq_true.mp inside head mem
  rw [Bool.and_eq_true, Bool.not_eq_true', isEmpty_eq_false_iff] at passes
  exact .word passes.1 passes.2

theorem name?_form (names : token.Names Token.Legible) : token.form.name? = some token.bare := by
  rcases token with ⟨kind, lexeme, line⟩
  rcases names with ⟨_, rfl⟩
  rfl

theorem mapM_name? {params : List Token} (names : ∀ token ∈ params, token.Names Token.Legible) :
    (params.map Token.form).mapM name? = some (params.map Token.bare) := by
  induction params with
  | nil => rfl
  | cons token params ih =>
    rcases forall_mem_cons.mp names with ⟨first, others⟩
    simp [name?_form first, ih others]

end Form

mutual

/-- The form of a statement shows it. -/
theorem Stmt.shows_form : ∀ stmt : Stmt, LegiblyGrown [.stmt stmt] → Shows stmt? stmt.form stmt.bare
  | .expression _, grown | .print _, grown => by
    have value := Expr.shows_form grown.operands
    exact ⟨clean_node (by decide) (by simp [value.clean]),
      by simp [Stmt.form, stmt?, value.reads, Stmt.bare]⟩
  | .varDecl _ none, grown => by
    have name := grown.here
    exact ⟨clean_node (by decide) (by simp [(shows_name name).clean]),
      by simp [Stmt.form, stmt?, name?_form name, Stmt.bare]⟩
  | .varDecl _ (some _), grown => by
    have name := grown.here
    have value := Expr.shows_form grown.operands
    exact ⟨clean_node (by decide) (by simp [(shows_name name).clean, value.clean]),
      by simp [Stmt.form, stmt?, name?_form name, value.reads, Stmt.bare]⟩
  | .block body, grown => by
    have body := Stmt.show_forms body grown.inner
    exact ⟨clean_node (by decide) body.clean, by simp [Stmt.form, stmt?, body.reads, Stmt.bare]⟩
  | .ifElse _ yes none, grown | .whileLoop _ yes, grown => by
    have cond := Expr.shows_form grown.operands
    have yes := Stmt.shows_form yes grown.inner
    exact ⟨clean_node (by decide) (by simp [cond.clean, yes.clean]),
      by simp [Stmt.form, stmt?, cond.reads, yes.reads, Stmt.bare]⟩
  | .ifElse _ yes (some no), grown => by
    have cond := Expr.shows_form grown.operands
    have yes := Stmt.shows_form yes grown.inner.head
    have no := Stmt.shows_form no grown.inner.tail
    exact ⟨clean_node (by decide) (by simp [cond.clean, yes.clean, no.clean]),
      by simp [Stmt.form, stmt?, cond.reads, yes.reads, no.reads, Stmt.bare]⟩
  | .funDecl (.mk name params body), grown => by
    have function := FunctionDecl.show_parts name params body grown.functions
    exact ⟨clean_node (by decide) function.clean,
      by simp [Stmt.form, FunctionDecl.form, stmt?, function.reads, Stmt.bare]⟩
  | .returnValue _ none, grown => by
    have keyword := grown.here.1.bare_word grown.here.2
    exact ⟨clean_node (by decide) (forall_mem_nil _),
      by simp [Stmt.form, stmt?, keyword, Stmt.bare, Keyword.spelling]⟩
  | .returnValue _ (some _), grown => by
    have keyword := grown.here.1.bare_word grown.here.2
    have value := Expr.shows_form grown.operands
    exact ⟨clean_node (by decide) (by simp [value.clean]),
      by simp [Stmt.form, stmt?, value.reads, keyword, Stmt.bare, Keyword.spelling]⟩
  | .classDecl _ none methods, grown => by
    have name := grown.here.1
    have read := FunctionDecl.show_methods methods grown.functions
    refine ⟨clean_node (by decide)
      (forall_mem_cons.mpr ⟨(shows_name name).clean, read.clean⟩), ?_⟩
    have reads := read.reads
    -- The first method is no word, so it is not taken for the mark of a superclass.
    rcases methods with _ | ⟨⟨_, _, _⟩, methods⟩ <;>
    simp_all [Stmt.form, FunctionDecl.methodForms, FunctionDecl.form, stmt?, name?_form name,
      Stmt.bare]
  | .classDecl _ (some _) methods, grown => by
    have name := grown.here.1
    have parent := Expr.shows_form grown.operands
    have read := FunctionDecl.show_methods methods grown.functions
    refine ⟨clean_node (by decide) (forall_mem_cons.mpr ⟨(shows_name name).clean, ?_⟩), ?_⟩
    · refine forall_mem_cons.mpr ⟨clean_of_lexeme (.mark .less) rfl, ?_⟩
      exact forall_mem_cons.mpr ⟨parent.clean, read.clean⟩
    · simp [Stmt.form, stmt?, name?_form name, parent.reads, read.reads, Stmt.bare]

theorem Stmt.show_forms : ∀ stmts : List Stmt, LegiblyGrown (stmts.map .stmt) →
    ShowAll stmts? (Stmt.forms stmts) (Stmt.bareAll stmts)
  | [], _ => ⟨forall_mem_nil _, rfl⟩
  | first :: stmts, grown => by
    have first := Stmt.shows_form first grown.head
    have others := Stmt.show_forms stmts grown.tail
    exact ⟨forall_mem_cons.mpr ⟨first.clean, others.clean⟩,
      by simp [Stmt.forms, stmts?, first.reads, others.reads, Stmt.bareAll]⟩

theorem FunctionDecl.show_methods : ∀ methods : List FunctionDecl,
    LegiblyGrown (methods.map .function) →
      ShowAll methods? (FunctionDecl.methodForms methods) (FunctionDecl.bareAll methods)
  | [], _ => ⟨forall_mem_nil _, rfl⟩
  | .mk name params body :: methods, grown => by
    have first := FunctionDecl.show_parts name params body grown.head
    have others := FunctionDecl.show_methods methods grown.tail
    exact ⟨forall_mem_cons.mpr ⟨clean_node (by decide) first.clean, others.clean⟩,
      by simp [FunctionDecl.methodForms, FunctionDecl.form, methods?, first.reads, others.reads,
        FunctionDecl.bareAll]⟩

/-- The forms behind the head of a function show it. -/
theorem FunctionDecl.show_parts : ∀ (name : Token) (params : List Token) (body : List Stmt),
    LegiblyGrown [.function (.mk name params body)] →
      ShowAll function? (name.form :: .list (params.map Token.form) :: Stmt.forms body)
        (FunctionDecl.mk name params body).bare
  | name, params, body, grown => by
    have named : name.Names Token.Legible := grown.here.1
    have listed : ∀ param ∈ params, param.Names Token.Legible := grown.here.2.1
    have body := Stmt.show_forms body grown.below
    constructor
    · refine forall_mem_cons.mpr ⟨(shows_name named).clean,
        forall_mem_cons.mpr ⟨.list ?_, body.clean⟩⟩
      exact forall_mem_map.mpr fun param mem => (shows_name (listed param mem)).clean
    · rw [function?, name?_form named, mapM_name? listed, body.reads]
      rfl

end

/-! ## Programs -/

theorem legiblyGrown_of_readProgram {text : String} {firstId nextId : ExprId} {prog : Program}
    (accepted : readProgram text firstId = (.ok prog, nextId))
    (plain : (scan text).tokens.all Token.isPlain = true) : LegiblyGrown (prog.map .stmt) := by
  have legible : Grammar.Given Token.Legible (TokenStream.ofList (scan text).tokens).tokens := by
    intro token mem
    have scanned := (takeWhile_sublist _).subset mem
    have kept := mem_takeWhile_imp mem
    refine ⟨(scan_lexeme scanned).resolve_left fun ends => ?_, all_eq_true.mp plain _ scanned⟩
    simp [Token.isEnd, ends] at kept
  exact ((derives_of_readProgram accepted).grown legible).1

/-- Programs with one text are one but for ids and lines. -/
theorem Stmt.bareAll_eq_of_formText : ∀ {prog prog' : Program}, LegiblyGrown (prog.map .stmt) →
    LegiblyGrown (prog'.map .stmt) → prog.map Stmt.formText = prog'.map Stmt.formText →
      Stmt.bareAll prog = Stmt.bareAll prog'
  | [], [], _, _, _ => rfl
  | [], _ :: _, _, _, same | _ :: _, [], _, _, same => by cases same
  | first :: prog, first' :: prog', grown, grown', same => by
    rcases cons.inj same with ⟨texts, others⟩
    have shown := Stmt.shows_form first grown.head
    have shown' := Stmt.shows_form first' grown'.head
    have forms := (eq_of_write shown.clean shown'.clean follows_nil follows_nil
      (String.ofList_injective texts)).1
    have equal := shown.reads.symm.trans ((congrArg stmt? forms).trans shown'.reads)
    rw [Stmt.bareAll, Stmt.bareAll, Option.some.inj equal,
      Stmt.bareAll_eq_of_formText grown.tail grown'.tail others]

/--
Programs without strings and with finite numbers only that are shown by the
same forms are the same, but for the ids of occurrences and the lines of tokens.
-/
theorem forms_are_unambiguous {text text' : String} {firstId firstId' nextId nextId' : ExprId}
    {program program' : Program} (accepted : readProgram text firstId = (.ok program, nextId))
    (accepted' : readProgram text' firstId' = (.ok program', nextId'))
    (plain : (scan text).tokens.all Token.isPlain = true)
    (plain' : (scan text').tokens.all Token.isPlain = true)
    (same : program.map Stmt.formText = program'.map Stmt.formText) :
    Stmt.bareAll program = Stmt.bareAll program' :=
  Stmt.bareAll_eq_of_formText (legiblyGrown_of_readProgram accepted plain)
    (legiblyGrown_of_readProgram accepted' plain') same

/-- A loop with a counter and the loop that it stands for, on other lines. -/
theorem counted_loop_has_form_of_its_lowering :
    let text := "for (var i = 0; i < 3; i = i + 1) print i;"
    let text' := "\x7b var i = 0.0;\nwhile (i < 3) \x7b\nprint i; i = i + 1; \x7d \x7d"
    let shown := ["(block (var i 0.0) (while (< i 3.0) (block (print i) (; (= i (+ i 1.0))))))"]
    ((scan text).tokens.all Token.isPlain = true ∧ (scan text').tokens.all Token.isPlain = true) ∧
      ∃ program program' nextId nextId', readProgram text 0 = (.ok program, nextId) ∧
        readProgram text' 0 = (.ok program', nextId') ∧
        program.map Stmt.formText = shown ∧ program'.map Stmt.formText = shown ∧
        Stmt.bareAll program = Stmt.bareAll program' := by
  intro text text' shown
  have plain : (scan text).tokens.all Token.isPlain = true ∧
      (scan text').tokens.all Token.isPlain = true := by
    decide +kernel
  have forms : (readProgram text 0).1.toOption.map (map Stmt.formText) = some shown ∧
      (readProgram text' 0).1.toOption.map (map Stmt.formText) = some shown := by
    decide +kernel
  have texts : isAccepted text = true ∧ isAccepted text' = true := by decide +kernel
  rcases exists_of_isAccepted texts.1 with ⟨program, nextId, accepted, _⟩
  rcases exists_of_isAccepted texts.2 with ⟨program', nextId', accepted', _⟩
  rw [accepted, accepted'] at forms
  have first := Option.some.inj forms.1
  have second := Option.some.inj forms.2
  exact ⟨plain, program, program', nextId, nextId', accepted, accepted', first, second,
    forms_are_unambiguous accepted accepted' plain.1 plain.2 (first.trans second.symm)⟩

end Treewalk
