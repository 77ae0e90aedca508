import Treewalk.Proofs.Analysis
import Treewalk.Proofs.ParserExactness

/-!
# Texts of programs

A text is a program if it is cut without faults into parts whose tokens derive
one.  The tokens of parts are never empty, and none of them is the mark at the
end; identifiers are names.
-/

namespace Treewalk

namespace Scan

theorem kind_of_unnamed {first : Char} {rest : List Char} {kind : TokenKind}
    (unnamed : startsName first = false) (means : (piece first rest).meaning = .token kind) :
    (∃ mark, kind = .punctuator mark) ∨ (∃ text, kind = .string text) ∨
      ∃ value, kind = .number value := by
  rw [piece_eq] at means
  split_ifs at means with blank slash quote digit name
  · unfold slashPiece at means
    split at means
    · cases means
    · split at means <;> cases means
    · cases means
      exact .inl ⟨_, rfl⟩
  · unfold stringPiece at means
    simp only at means
    split at means
    · cases means
    · cases means
      exact .inr (.inl ⟨_, rfl⟩)
  · unfold numberPiece at means
    simp only at means
    split at means
    · split at means <;>
      · cases means
        exact .inr (.inr ⟨_, rfl⟩)
    · cases means
      exact .inr (.inr ⟨_, rfl⟩)
  · rw [unnamed] at name
    cases name
  · unfold markPiece equalPiece at means
    split at means
    · cases means
      exact .inl ⟨_, rfl⟩
    · split at means
      · split at means <;>
        · cases means
          exact .inl ⟨_, rfl⟩
      · cases means

/-- Identifiers start as names do. -/
theorem startsName_of_identifier {first : Char} {rest : List Char}
    (means : (piece first rest).meaning = .token .identifier) : startsName first = true := by
  cases starts : startsName first with
  | true => rfl
  | false =>
    rcases kind_of_unnamed starts means with ⟨_, kind⟩ | ⟨_, kind⟩ | ⟨_, kind⟩ <;> cases kind

theorem piece_ne_end (first : Char) (rest : List Char) :
    (piece first rest).meaning ≠ .token .endOfText := by
  intro means
  cases starts : startsName first with
  | true =>
    rw [piece_of_startsName starts, namePiece] at means
    simp only [Meaning.token.injEq] at means
    split at means <;> cases means
  | false =>
    rcases kind_of_unnamed starts means with ⟨_, kind⟩ | ⟨_, kind⟩ | ⟨_, kind⟩ <;> cases kind

namespace Cut

variable {text : List Char} {parts : List Part}

theorem named (cut : Cut text parts) : ∀ part ∈ parts, part.meaning = .token .identifier →
      ∃ first more, part.taken = first :: more ∧ startsName first = true ∧
        ∀ char ∈ more, continuesName char = true := by
  induction cut with
  | nil => nofun
  | @cons first rest meaning taken after parts front others ih =>
    rw [List.forall_mem_cons]
    refine ⟨?_, ih⟩
    rintro rfl
    have starts : startsName first = true :=
      startsName_of_identifier (by rw [front])
    rw [piece_of_startsName starts] at front
    have takes := congrArg Piece.taken front
    exact ⟨first, _, takes.symm, starts, fun _ => List.mem_takeWhile_imp⟩

theorem mem_tokens (cut : Cut text parts) (line : Nat) :
    ∀ token ∈ tokens line parts, token.isEnd = false ∧ token.lexeme ≠ "" := by
  induction cut generalizing line with
  | nil => nofun
  | @cons first rest meaning taken after parts front others ih =>
    have others := ih (line + newlines taken)
    cases meaning with
    | token kind =>
      rw [tokens, List.forall_mem_cons]
      refine ⟨⟨?_, ?_⟩, others⟩
      · have kept := piece_ne_end first rest
        rw [front] at kept
        simpa [Token.isEnd] using kept
      · rcases piece_reads first rest with ⟨more, takes, _, _⟩
        simp only [front] at takes
        subst takes
        intro empty
        have chars := congrArg String.toList empty
        rw [String.toList_ofList] at chars
        cases chars
    | _ => exact others

end Cut

end Scan

open Scan

variable {text : String}

/-- The tokens that the grammar reads are those of the parts. -/
theorem Scan.Cut.stream_eq {parts : List Part} (cut : Cut text.toList parts) (sound : Sound parts) :
    (TokenStream.ofList (scan text).tokens).tokens = tokens 1 parts := by
  rw [cut.scan_eq sound]
  exact tokens_ofList rfl (fun token mem => (cut.mem_tokens 1 token mem).1)

/-- A text is read if its characters and its tokens are sound. -/
theorem readProgram_ok_iff {firstId nextId : ExprId} {prog : Program} :
    readProgram text firstId = (.ok prog, nextId) ↔ (scan text).errors = [] ∧
        Grammar.Derives .nearest .declarations
          (TokenStream.ofList (scan text).tokens).tokens firstId prog []
          nextId := by
  constructor
  · intro accepted
    refine ⟨?_, derives_of_readProgram accepted⟩
    have result := congrArg Prod.fst accepted
    simp only [readProgram, accept] at result
    split at result
    · split at result
      · next clean => simpa using clean
      · cases result
    · cases result
  · rintro ⟨clean, derivation⟩
    rw [readProgram, parse_of_derives derivation]
    simp only [clean]
    rfl

/-- The text is read and analysed without a fault. -/
def isAccepted (text : String) : Bool :=
  match (readProgram text 0).1 with
  | .ok program => (Scoping.analyse program).errors.isEmpty
  | .error _ => false

theorem exists_of_isAccepted (accepted : isAccepted text = true) :
    ∃ prog nextId, readProgram text 0 = (.ok prog, nextId) ∧
      (Scoping.analyse prog).errors = [] := by
  unfold isAccepted at accepted
  split at accepted
  · next prog result =>
    exact ⟨prog, (readProgram text 0).2, by rw [← result], List.isEmpty_iff.mp accepted⟩
  · cases accepted

end Treewalk
