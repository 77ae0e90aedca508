import Treewalk.Proofs.ProgramTexts
import Treewalk.Proofs.RelabelledReading

/-!
# Program texts one after the other

Two program texts on lines of their own are the text of one program: the
statements of the first, then those of the second, whose ids go on from those
of the first and whose tokens stand on later lines.
-/

namespace Treewalk

namespace Grammar

variable {input : List Token} {first next : ExprId}

theorem isAhead_append {test : Token → Bool} {more : List Token}
    (ahead : isAhead test input = false) (beyond : isAhead test more = false) :
    isAhead test (input ++ more) = false := by
  cases input with
  | nil => exact beyond
  | cons token tokens => exact ahead

/-- A derivation goes through in front of tokens that no choice waits for. -/
theorem Derives.append {goal : Nonterminal} {rest : List Token} {tree : goal.Tree}
    (derivation : Derives .nearest goal input first tree rest next) {more : List Token}
    (apart : isAhead (·.isWord .elseWord) more = false) :
    Derives .nearest goal (input ++ more) first tree (rest ++ more) next := by
  induction derivation with
  | noDeclaration => exact .noDeclaration
  | moreDeclarations _ _ head tail => exact .moreDeclarations head tail
  | classDeclaration isClass named _ opens _ closes extended body =>
    exact .classDeclaration isClass named extended opens body closes
  | funDeclaration isFun _ body => exact .funDeclaration isFun body
  | declareVariable _ declared => exact .declareVariable declared
  | plainStatement _ stated => exact .plainStatement stated
  | noSuperclass => exact .noSuperclass
  | superclassName isLess named => exact .superclassName isLess named
  | noMethod => exact .noMethod
  | moreMethods _ _ head tail => exact .moreMethods head tail
  | function named opens _ closes _ listed executed =>
    exact .function named opens listed closes executed
  | noParameter => exact .noParameter
  | someParameters _ bounded listed => exact .someParameters listed bounded
  | lastParameter named => exact .lastParameter named
  | moreParameters named separates _ others => exact .moreParameters named separates others
  | varDeclaration isVar named _ ends given => exact .varDeclaration isVar named given ends
  | noInitialValue => exact .noInitialValue
  | someInitialValue isEqual _ valued => exact .someInitialValue isEqual valued
  | expressionStatement _ ends valued => exact .expressionStatement valued ends
  | stateExpression _ stated => exact .stateExpression stated
  | forStatement isFor opens _ _ ends _ closes _ initially conditional stepwise repeated =>
    exact .forStatement isFor opens initially conditional ends stepwise closes repeated
  | noForInitial ends => exact .noForInitial ends
  | forVariable _ declared => exact .forVariable declared
  | forExpression _ stated => exact .forExpression stated
  | ifThen isIf opens _ closes _ settled conditional chosen =>
    exact .ifThen isIf opens conditional closes chosen
      (fun nearest => isAhead_append (settled nearest) apart)
  | ifElse isIf opens _ closes _ isElse _ conditional chosen otherwise =>
    exact .ifElse isIf opens conditional closes chosen isElse otherwise
  | printStatement isPrint _ ends valued => exact .printStatement isPrint valued ends
  | returnStatement isReturn _ ends valued => exact .returnStatement isReturn valued ends
  | whileStatement isWhile opens _ closes _ conditional repeated =>
    exact .whileStatement isWhile opens conditional closes repeated
  | blockStatement _ enclosed => exact .blockStatement enclosed
  | block opens _ closes declared => exact .block opens declared closes
  | noExpression => exact .noExpression
  | someExpression _ valued => exact .someExpression valued
  | assignName named isEqual _ valued => exact .assignName named isEqual valued
  | assignProperty _ isDot named isEqual _ owned valued =>
    exact .assignProperty owned isDot named isEqual valued
  | unassigned _ valued => exact .unassigned valued
  | singleOperand _ valued => exact .singleOperand valued
  | operation _ operates _ joined valued => exact .operation joined operates valued
  | tighter follows _ valued => exact .tighter follows valued
  | tightest last _ valued => exact .tightest last valued
  | negated negates _ valued => exact .negated negates valued
  | unnegated _ valued => exact .unnegated valued
  | uncalled _ valued => exact .uncalled valued
  | callArguments _ opens _ closes called listed => exact .callArguments called opens listed closes
  | callProperty _ isDot named owned => exact .callProperty owned isDot named
  | noArgument => exact .noArgument
  | someArguments _ bounded listed => exact .someArguments listed bounded
  | lastArgument _ valued => exact .lastArgument valued
  | moreArguments _ separates _ valued others => exact .moreArguments valued separates others
  | constant stands => exact .constant stands
  | receiver isThis => exact .receiver isThis
  | name named => exact .name named
  | grouping opens _ closes valued => exact .grouping opens valued closes

/-- Declarations are derived one list after the other. -/
theorem Derives.andThen {policy : Policy} {middle rest : List Token} {id : ExprId}
    {stmts others : List Stmt} (declared : Derives policy .declarations input first stmts middle id)
    (further : Derives policy .declarations middle id others rest next) :
    Derives policy .declarations input first (stmts ++ others) rest next := by
  induction stmts generalizing input first with
  | nil =>
    cases declared
    exact further
  | cons stmt stmts ih =>
    cases declared with
    | moreDeclarations head tail => exact .moreDeclarations head (ih tail)

end Grammar

open Scan

/-! ## Texts -/

/-- All tokens are moved down by a number of lines. -/
def Relabelling.lowered (shift : Nat) : Relabelling :=
  ⟨lower shift, fun _ => rfl⟩

variable {program : Program} {text : String} {nextId : ExprId}

/-- A text without faults goes on with the tokens of another on new lines. -/
theorem Scan.stream_append {text' : String} (clean : (scan text).errors = [])
    (clean' : (scan text').errors = []) :
    (scan (text ++ "\n" ++ text')).errors = [] ∧
      (TokenStream.ofList (scan (text ++ "\n" ++ text')).tokens).tokens =
        (TokenStream.ofList (scan text).tokens).tokens ++
          (TokenStream.ofList (scan text').tokens).tokens.map
            (Relabelling.lowered (newlines text.toList + 1)) := by
  have cut := cut_cutAll (Nat.le_refl text.toList.length)
  have cut' := cut_cutAll (Nat.le_refl text'.toList.length)
  have sound := cut.sound_iff.mp clean
  have sound' := cut'.sound_iff.mp clean'
  have joined := cut.append sound cut'
  have chars : text.toList ++ '\n' :: text'.toList = (text ++ "\n" ++ text').toList := by
    rw [String.toList_append, String.toList_append, List.append_assoc]
    rfl
  rw [chars] at joined
  have joined_sound : Sound (cutAll text.toList.length text.toList ++
      ⟨.blank, ['\n']⟩ :: cutAll text'.toList.length text'.toList) := by
    intro part mem
    rcases List.mem_append.mp mem with mem | mem
    · exact sound part mem
    · rcases List.mem_cons.mp mem with rfl | mem
      · exact nofun
      · exact sound' part mem
  refine ⟨by rw [joined.scan_eq joined_sound], ?_⟩
  rw [joined.stream_eq joined_sound, cut.stream_eq sound,
    cut'.stream_eq sound', tokens_append, cut.written_eq]
  exact congrArg _ (tokens_add 1 (newlines text.toList + 1) _)

/-- A text reads the same with later ids. -/
theorem readProgram_resume (read : readProgram text 0 = (.ok program, nextId)) (start : Nat) :
    readProgram text start = (.ok (Stmt.relabelAll .identity start program), nextId + start) := by
  rcases readProgram_ok_iff.mp read with ⟨clean, derivation⟩
  refine readProgram_ok_iff.mpr ⟨clean, ?_⟩
  have shifted := derivation.relabelled .identity start
  rw [Nat.zero_add, Relabelling.map_identity] at shifted
  exact shifted

variable {firstId : ExprId}

/-- What is read with some ids is what is read with the first ones. -/
theorem readProgram_template (read : readProgram text firstId = (.ok program, nextId)) :
    ∃ template count, readProgram text 0 = (.ok template, count) ∧
      program = Stmt.relabelAll .identity firstId template ∧ nextId = count + firstId := by
  rcases readProgram_ok_iff.mp read with ⟨clean, derivation⟩
  rw [← Relabelling.map_identity (TokenStream.ofList _).tokens,
    ← Nat.zero_add firstId] at derivation
  rcases derivation.template with ⟨template, count, derivation, shifted⟩
  exact ⟨template, count, readProgram_ok_iff.mpr ⟨clean, derivation⟩, shifted⟩

/-- Two texts that are read one after the other are read as one text. -/
theorem readProgram_append {text' : String} {program' : Program} {middleId : ExprId}
    (read : readProgram text firstId = (.ok program, middleId))
    (read' : readProgram text' middleId = (.ok program', nextId)) :
    readProgram (text ++ "\n" ++ text') firstId =
      (.ok (program ++
        Stmt.relabelAll (.lowered (newlines text.toList + 1)) 0 program'), nextId) := by
  rcases readProgram_ok_iff.mp read with ⟨clean, derivation⟩
  rcases readProgram_ok_iff.mp read' with ⟨clean', derivation'⟩
  rcases stream_append clean clean' with ⟨joined, stream⟩
  refine readProgram_ok_iff.mpr ⟨joined, ?_⟩
  rw [stream]
  have further := derivation'.relabelled (.lowered (newlines text.toList + 1)) 0
  exact (derivation.append (further.isAhead_else rfl)).andThen further

end Treewalk
